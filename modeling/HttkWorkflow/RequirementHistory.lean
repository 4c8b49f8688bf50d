import HttkWorkflow.KeptMembers
import HttkWorkflow.Requirements
import HttkWorkflow.JobEffects

/-!
# What earlier claims leave in a requirement

The requirement a manager claims with is written into the frame of the claim,
shares and all, and `resources` is a member that every transition of an
activation repeats. A claim that is given back, an attempt that is retried,
and a retry an outcome asks for, therefore leave a ready frame whose
`resources` are no longer what the job or an outcome declared: the shares of
the first manager that claimed the activation are in them, and every later
manager reads them as a declaration.

`activationRuns` are the histories of one ready activation, with the
capacities of the managers that claimed it. What an activation declares after
a history is what it declared before, with the shares of those managers
(`declared_after`). Two histories agree on a manager exactly if, for every
shared resource the declaration omits, the first manager to provide it gives
the same share in both (`requirement_agrees`).
-/

variable {σ : Type} {env : JoinEnv} {job : JobDefinition} {needs : JobNeeds} {jobId : PyStr}
variable {state progress : StateFrame} {move moved : Move} {m : Member}

/-! ## The transitions keep the declaration -/

/-- The members a requirement is read from. -/
def needMembers : List Member := [.step, .resources]

theorem kept_of_need (hm : m ∈ needMembers) : m ∈ keptMembers := by
  revert m
  decide

theorem outcomeMove_need {cenv : CommitEnv} {priority : Int} {outcome : List (PyStr × Json)}
    {generation : Option Int} {labels : Except Exc (List (PyStr × PyStr))} {freshId : PyStr}
    (hm : m ∈ needMembers) (hadvance : actionOf outcome ≠ "advance")
    (hwait : actionOf outcome ≠ "wait")
    (h : outcomeMove cenv job priority state outcome generation labels freshId = .ok move) :
    move.frame.get m = state.get m := by
  have hprocess : m ≠ .process := by
    revert m
    decide
  have hother : ∀ {written : List (Member × Json)} (base : StateFrame),
      (∀ m ∈ needMembers, m ∉ written.map Prod.fst) → (base.replace written).get m = base.get m :=
    fun base hnames => StateFrame.get_replace_other (hnames m hm) base
  have hprogress : ∀ steps, (progressOf state generation steps).get m = state.get m := by
    intro steps
    have hbase : (state.carried.replace
        [(.dataGeneration, (generation.map Json.int).getD .null)]).get m = state.get m :=
      (hother _ (by simp [needMembers])).trans (carried_kept (kept_of_need hm) state)
    cases steps with
    | none => exact hbase
    | some steps => exact (hother _ (by simp [needMembers])).trans hbase
  obtain ⟨steps, progress, hretained, hasks⟩ := asks_of_outcomeMove h
  have hkept : progress.get m = state.get m := (get_retained hprocess hretained).trans (hprogress steps)
  refine Eq.trans ?_ hkept
  cases hasks with
  | advances _ haction _ => exact absurd haction hadvance
  | retries _ h => exact retry_kept (kept_of_need hm) h
  | waits _ _ _ _ haction _ => exact absurd haction hwait
  | ends _ _ _ hnames => exact hother _ fun m hm => hnames m (by revert m; decide)
  | pauses => exact (hother _ (by simp [needMembers])).trans (withProcess_kept (kept_of_need hm))

/-! ## The histories of an activation -/

/-- **What happens to a ready activation** before some manager considers it: a
manager of some capacity claims it, and gives the claim back or launches; the
attempt fails, is taken over or publishes an outcome that does not set
resources. -/
inductive ActivationStep (σ : Type) where
  | claim (claimer : Claimer) (capacity : Capacity)
  | release (reason : PyStr)
  | launch (launcher : Launcher)
  | fail (code : PyStr) (message : Message) (exitStatus : Option Int)
  | takeover (world : TakeoverWorld)
  | fence (world : PollWorld) (document : Except Exc Json)
  | retry (world : CommitWorld σ) (files : σ)

def leavesResources (outcome : Except Exc (List (PyStr × Json))) : Bool :=
  match outcome with
  | .ok outcome => actionOf outcome != "advance"
      && actionOf outcome != "wait"
  | .error _ => true

/-- The transition of the job a step is. A claim is made with the requirement
its manager computes from the frame. -/
def ActivationStep.asStep (needs : JobNeeds) (jobId : PyStr) (state : StateFrame) :
    ActivationStep σ → Option (JobStep σ)
  | .claim claimer capacity =>
    (effectiveRequirement needs state capacity).toOption.map fun requirement =>
      .claim { claimer with requirement := requirement.toJson }
  | .release reason => some (.release reason)
  | .launch launcher => some (.launch launcher)
  | .fail code message exitStatus => some (.fail code message exitStatus)
  | .takeover world => some (.takeover world)
  | .fence world document => some (.fence world document)
  | .retry world files =>
    if leavesResources (readOutcome (world.document files) jobId state) = true then
      some (.apply world files)
    else none

/-- The manager that claimed the activation in a step, if the job is claimed
after it. -/
def ActivationStep.claimer (kind : StateKind) : ActivationStep σ → List Capacity
  | .claim _ capacity => if kind = .claimed then [capacity] else []
  | _ => []

section Histories

variable (env : JoinEnv) (job : JobDefinition) (needs : JobNeeds) (jobId : PyStr)

/-- One step of a history, with the capacities of the claimers so far. -/
def activationNext (s : JobState × List Capacity) (a : ActivationStep σ × Bool) :
    Option (JobState × List Capacity) :=
  (a.fst.asStep needs jobId s.fst.frame).bind fun step =>
    (jobNext env job jobId s.fst (step, a.snd)).map fun s' =>
      (s', s.snd ++ a.fst.claimer s'.kind)

/-- **The histories of one ready activation.** -/
def activationRuns (start : JobState) : System (JobState × List Capacity) (ActivationStep σ × Bool) :=
  System.ofNext (· = (start, [])) (activationNext env job needs jobId)

end Histories

variable {a : ActivationStep σ × Bool}

theorem activationNext_eq_some {s s' : JobState × List Capacity}
    (h : activationNext env job needs jobId s a = some s') :
    ∃ step move moved, a.fst.asStep needs jobId s.fst.frame = some step
      ∧ Asks env job jobId s.fst step move ∧ Writes env s.fst.kind move moved
      ∧ s'.fst.kind = moved.kind ∧ s'.fst.frame = moved.frame
      ∧ s'.snd = s.snd ++ a.fst.claimer moved.kind := by
  obtain ⟨step, hstep, h⟩ := Option.bind_eq_some_iff.mp h
  obtain ⟨s'', hnext, rfl⟩ := Option.map_eq_some_iff.mp h
  obtain ⟨-, moved, hwritten, rfl⟩ := jobNext_eq_some.mp hnext
  obtain ⟨move, hasks, hwrites⟩ := asks_of_written hwritten
  exact ⟨step, move, moved, hstep, hasks, hwrites, rfl, rfl, rfl⟩

/-- **A step that is no claim** keeps the declaration, and adds no claimer. -/
theorem need_of_step {a : ActivationStep σ} {s : JobState} {step : JobStep σ}
    (hclaim : ∀ claimer capacity, a ≠ .claim claimer capacity)
    (hstep : a.asStep needs jobId s.frame = some step) (hasks : Asks env job jobId s step move)
    (hm : m ∈ needMembers) : move.frame.get m = s.frame.get m := by
  cases a with
  | claim claimer capacity => exact absurd rfl (hclaim claimer capacity)
  | release reason =>
    obtain rfl := Option.some.inj hstep
    obtain ⟨-, rfl⟩ := hasks
    exact rebuilt_kept (kept_of_need hm) (by simp [keptMembers]) s.frame
  | launch launcher =>
    obtain rfl := Option.some.inj hstep
    exact launchMove_kept (kept_of_need hm) hasks.2
  | fail code message exitStatus =>
    obtain rfl := Option.some.inj hstep
    exact attemptFailureMove_kept (kept_of_need hm) hasks.2
  | takeover world =>
    obtain rfl := Option.some.inj hstep
    exact takeoverMove_kept (kept_of_need hm) hasks.2
  | fence world document =>
    obtain rfl := Option.some.inj hstep
    obtain ⟨-, outcome, childDigests, childLabels, control, -, -, rfl⟩ := hasks
    exact (withProcess_kept (kept_of_need hm)).trans (rebuilt_kept (kept_of_need hm) (by simp [keptMembers]) s.frame)
  | retry world files =>
    obtain ⟨hleaves, hstep⟩ := Option.ite_none_right_eq_some.mp hstep
    obtain rfl := Option.some.inj hstep
    obtain ⟨-, outcome, generation, hread, hmove⟩ := hasks
    rw [hread] at hleaves
    simp only [leavesResources, Bool.and_eq_true, bne_iff_ne] at hleaves
    exact outcomeMove_need hm hleaves.1 hleaves.2 hmove

/-- **What one step leaves to declare**: the shares of the manager that claimed
are in it. -/
theorem declared_next {s s' : JobState × List Capacity} (h : activationNext env job needs jobId s a = some s') :
    ∃ claimers, s'.snd = s.snd ++ claimers ∧ declaredRequirement needs s'.fst.frame
        = (declaredRequirement needs s.fst.frame).map (claimers.foldl withShares) := by
  obtain ⟨step, move, moved, hstep, hasks, hwrites, -, hframe, hclaimers⟩ :=
    activationNext_eq_some h
  refine ⟨_, hclaimers, ?_⟩
  rw [hframe]
  have hkept : (∀ m ∈ needMembers, move.frame.get m = s.fst.frame.get m) →
      declaredRequirement needs moved.frame = declaredRequirement needs s.fst.frame := fun hneed =>
    declaredRequirement_congr ((hwrites.kept (by decide)).trans (hneed .resources (by decide)))
      ((hwrites.kept (by decide)).trans (hneed .step (by decide)))
  have hsame : ∀ x : Except Exc Resources, x.map (([] : List Capacity).foldl withShares) = x := by
    intro x
    cases x <;> rfl
  by_cases hclaim : ∃ claimer capacity, a.fst = .claim claimer capacity
  · obtain ⟨claimer, capacity, ha⟩ := hclaim
    rw [ha] at hstep ⊢
    obtain ⟨requirement, hrequirement, rfl⟩ := Option.map_eq_some_iff.mp hstep
    obtain ⟨-, hmove⟩ := hasks
    have heffective := toOption_eq_some.mp hrequirement
    unfold effectiveRequirement at heffective
    cases hdeclared : declaredRequirement needs s.fst.frame with
    | error e =>
      rw [hdeclared] at heffective
      cases heffective
    | ok declared =>
      rw [hdeclared] at heffective
      have hshares : withShares declared capacity = requirement := Except.ok.inj heffective
      by_cases hkind : move.kind = .claimed
      · have hresources : move.frame.get .resources = some requirement.toJson := by
          rw [hmove] at hkind ⊢
          exact claimMove_resources hkind
        have hvalid : requirement.Valid :=
          hshares ▸ valid_withShares (valid_of_declaredRequirement hdeclared) capacity
        rw [declaredRequirement_toJson hvalid ((hwrites.kept (by decide)).trans hresources)]
        simp only [ActivationStep.claimer, hwrites.claimed_iff.mpr hkind, if_true]
        exact congrArg Except.ok hshares.symm
      · have hneed : ∀ m ∈ needMembers, move.frame.get m = s.fst.frame.get m := by
          rw [hmove] at hkind ⊢
          exact fun m hm => claimMove_kept (kept_of_need hm) (Or.inr hkind)
        rw [hkept hneed, hdeclared]
        simp only [ActivationStep.claimer, mt hwrites.claimed_iff.mp hkind, if_false]
        rfl
  · have hnone : a.fst.claimer moved.kind = [] := by
      cases ha : a.fst with
      | claim claimer capacity => exact absurd ⟨claimer, capacity, ha⟩ hclaim
      | _ => rfl
    rw [hnone, hsame]
    refine hkept fun m hm => need_of_step ?_ hstep hasks hm
    exact fun claimer capacity ha => hclaim ⟨claimer, capacity, ha⟩

variable {s : JobState × List Capacity}

variable {start : JobState}

theorem declared_after (hs : (activationRuns (σ := σ) env job needs jobId start).Reachable s) :
    declaredRequirement needs s.fst.frame
      = (declaredRequirement needs start.frame).map (s.snd.foldl withShares) := by
  induction hs with
  | init hinit =>
    obtain rfl := hinit
    cases declaredRequirement needs start.frame <;> rfl
  | step _ hnext ih =>
    obtain ⟨claimers, hsnd, hdeclared⟩ := declared_next hnext
    rw [hdeclared, ih, hsnd]
    cases declaredRequirement needs start.frame with
    | error e => rfl
    | ok declared => exact congrArg Except.ok (List.foldl_append ..).symm

/-! ## Two histories -/

/-- The share of a resource a requirement has from the first manager that
provides it. -/
def firstShare (name : PyStr) (managers : List Capacity) : Option Int :=
  managers.findSome? (Capacity.shareOf · name)

theorem get_foldl_withShares (managers : List Capacity) (declared : Resources) (name : PyStr) :
    (managers.foldl withShares declared).get name
      = (declared.get name).or (if name ∈ fairNames then firstShare name managers else none) := by
  induction managers generalizing declared with
  | nil =>
    show declared.get name = _
    simp [firstShare]
  | cons manager managers ih =>
    rw [List.foldl_cons, ih, get_withShares]
    by_cases hname : name ∈ fairNames
    · rw [if_pos hname, if_pos hname, if_pos hname, Option.or_assoc]
      congr 1
      show (manager.shareOf name).or _ = (manager :: managers).findSome? _
      rw [List.findSome?_cons]
      cases manager.shareOf name <;> rfl
    · rw [if_neg hname, if_neg hname, if_neg hname, Option.or_none, Option.or_none]

theorem unfitResource_congr {requirement requirement' : Resources} {capacity : Capacity}
    (h : requirement.get = requirement'.get) :
    unfitResource requirement capacity = none ↔ unfitResource requirement' capacity = none := by
  rw [unfitResource_eq_none, unfitResource_eq_none, h]

/-- **A manager makes the same of two frames**: it reserves the same amounts,
and claims the one if it claims the other. -/
def SameRequirement (manager : ManagerProfile) (job : JobDefinition) (needs : JobNeeds)
    (state state' : StateFrame) : Prop :=
  (effectiveRequirement needs state manager.capacity).map Dict.get
      = (effectiveRequirement needs state' manager.capacity).map Dict.get
    ∧ (eligibleReady manager job needs state).isSome = (eligibleReady manager job needs state').isSome

theorem eligible_congr {manager : ManagerProfile} {state state' : StateFrame}
    (h : (effectiveRequirement needs state manager.capacity).map Dict.get
      = (effectiveRequirement needs state' manager.capacity).map Dict.get) :
    (eligibleReady manager job needs state).isSome
      = (eligibleReady manager job needs state').isSome := by
  unfold eligibleReady
  split_ifs
  · rfl
  · cases hleft : effectiveRequirement needs state manager.capacity with
    | error e =>
      cases hright : effectiveRequirement needs state' manager.capacity with
      | error e' => rfl
      | ok requirement' => simp [hleft, hright, Except.map] at h
    | ok requirement =>
      cases hright : effectiveRequirement needs state' manager.capacity with
      | error e' => simp [hleft, hright, Except.map] at h
      | ok requirement' =>
        rw [hleft, hright] at h
        have hfit : unfitResource requirement manager.capacity = none
            ↔ unfitResource requirement' manager.capacity = none :=
          unfitResource_congr (Except.ok.inj h)
        cases hunfit : unfitResource requirement manager.capacity with
        | none => simp [hunfit, hfit.mp hunfit]
        | some name =>
          have hunfit' : unfitResource requirement' manager.capacity ≠ none := fun hnone =>
            Option.some_ne_none name (hunfit ▸ hfit.mpr hnone)
          obtain ⟨name', hname'⟩ := Option.ne_none_iff_exists'.mp hunfit'
          simp [hunfit, hname']
  · rfl
  · rfl

theorem effective_after {declared : Resources} (hs : (activationRuns (σ := σ) env job needs jobId start).Reachable s)
    (hdeclared : declaredRequirement needs start.frame = .ok declared) (capacity : Capacity) :
    effectiveRequirement needs s.fst.frame capacity
      = .ok ((s.snd ++ [capacity]).foldl withShares declared) := by
  unfold effectiveRequirement
  rw [declared_after hs, hdeclared, List.foldl_append]
  rfl

/-- **Two histories of a ready activation agree on a manager** exactly if, for
every shared resource the declaration omits, the first manager that provides
it gives the same share in both. -/
theorem requirement_agrees {start : JobState} {s s' : JobState × List Capacity}
    (manager : ManagerProfile)
    (hs : (activationRuns (σ := σ) env job needs jobId start).Reachable s)
    (hs' : (activationRuns (σ := σ) env job needs jobId start).Reachable s') :
    SameRequirement manager job needs s.fst.frame s'.fst.frame
      ↔ ∀ declared, declaredRequirement needs start.frame = .ok declared →
        ∀ name ∈ fairNames, declared.get name = none →
          firstShare name (s.snd ++ [manager.capacity])
            = firstShare name (s'.snd ++ [manager.capacity]) := by
  cases hdeclared : declaredRequirement needs start.frame with
  | error e =>
    have hsame : effectiveRequirement needs s.fst.frame manager.capacity
        = effectiveRequirement needs s'.fst.frame manager.capacity := by
      unfold effectiveRequirement
      rw [declared_after hs, declared_after hs', hdeclared]
      rfl
    refine ⟨fun _ declared hok => (nomatch hok), fun _ => ?_⟩
    exact ⟨congrArg _ hsame, eligible_congr (congrArg _ hsame)⟩
  | ok declared =>
    have hleft := effective_after hs hdeclared manager.capacity
    have hright := effective_after hs' hdeclared manager.capacity
    constructor
    · rintro ⟨hget, -⟩ declared' hok name hname hnone
      rw [← Except.ok.inj hok] at hnone
      rw [hleft, hright] at hget
      have hamounts := congrFun (Except.ok.inj hget) name
      rwa [get_foldl_withShares, get_foldl_withShares, hnone, Option.none_or, Option.none_or,
        if_pos hname, if_pos hname] at hamounts
    · intro hshares
      have hget : (effectiveRequirement needs s.fst.frame manager.capacity).map Dict.get
          = (effectiveRequirement needs s'.fst.frame manager.capacity).map Dict.get := by
        rw [hleft, hright]
        refine congrArg Except.ok (funext fun name => ?_)
        rw [get_foldl_withShares, get_foldl_withShares]
        by_cases hname : name ∈ fairNames
        · cases hdecl : declared.get name with
          | some value => rfl
          | none => rw [if_pos hname, if_pos hname, hshares declared rfl name hname hdecl]
        · rw [if_neg hname, if_neg hname]
      exact ⟨hget, eligible_congr hget⟩

/-! ## A claim that was given back -/

def processors (amount : Nat) : Capacity where
  resources := [("procs", .ofNat amount)]
  maximumWorkers := 1
  positive := Nat.one_pos
  valid := List.forall_mem_singleton.mpr ⟨(by decide : isLabel "procs" = true), Int.natCast_nonneg amount⟩

def servesAll (capacity : Capacity) : ManagerProfile := ⟨capacity, ["path"], true, [], []⟩

def plainNeeds : JobNeeds := ⟨"path", [], [], by decide, by decide⟩

/-- A claim by a manager of a capacity, which is given back under a maintenance
lock. -/
def claimedAndReleased (capacity : Capacity) : List (ActivationStep PUnit × Bool) :=
  [(.claim ⟨"m2", "w2", "c2", "t2", .null, .int 60⟩ capacity, true),
    (.release "maintenance_lock", true)]

def plainHistory (steps : List (ActivationStep PUnit × Bool)) :
    Option (JobState × JobState × List Capacity) :=
  (plainRun plainJob [.register "a1"]).bind fun start =>
    (System.follow (activationNext plainJoinEnv plainJob plainNeeds "job") (start, []) steps).map
      (start, ·)

theorem plainHistory_spec {steps : List (ActivationStep PUnit × Bool)} (h : plainHistory steps = some (start, s)) :
    (jobRuns (σ := PUnit) plainJoinEnv plainJob "job").Reachable start
      ∧ (activationRuns (σ := PUnit) plainJoinEnv plainJob plainNeeds "job" start).Reachable s := by
  obtain ⟨start', hstart, h⟩ := Option.bind_eq_some_iff.mp h
  obtain ⟨s', hfollow, hpair⟩ := Option.map_eq_some_iff.mp h
  obtain ⟨rfl, rfl⟩ := Prod.mk.inj hpair
  exact ⟨reachable_of_plainRun hstart, (System.run_of_follow hfollow).reachable (System.Reachable.init rfl)⟩

/-- **A claim by a larger manager keeps the job from a smaller one**, which
would have run it: the share of the larger is left behind as a declaration. -/
theorem requirement_contaminated : ∃ start s,
    (jobRuns (σ := PUnit) plainJoinEnv plainJob "job").Reachable start ∧ start.kind = .ready
      ∧ (activationRuns (σ := PUnit) plainJoinEnv plainJob plainNeeds "job" start).Reachable s
      ∧ s.fst.kind = .ready
      ∧ ¬ SameRequirement (servesAll (processors 4)) plainJob plainNeeds start.frame s.fst.frame := by
  have hrun : (plainHistory (claimedAndReleased (processors 8))).map (fun s =>
      (s.fst.kind, (eligibleReady (servesAll (processors 4)) plainJob plainNeeds s.fst.frame).isSome,
        s.snd.fst.kind,
        (eligibleReady (servesAll (processors 4)) plainJob plainNeeds s.snd.fst.frame).isSome))
      = some (.ready, true, .ready, false) := by
    decide +kernel
  obtain ⟨⟨start, s⟩, hhistory, hfacts⟩ := Option.map_eq_some_iff.mp hrun
  obtain ⟨hstart, hs⟩ := plainHistory_spec hhistory
  simp only [Prod.mk.injEq] at hfacts
  obtain ⟨hkind, heligible, hkind', heligible'⟩ := hfacts
  refine ⟨start, s, hstart, hkind, hs, hkind', fun hsame => ?_⟩
  rw [hsame.2, heligible'] at heligible
  cases heligible

/-- A claim by a manager of the same capacity leaves the same share. -/
theorem requirement_agrees_same : ∃ start s,
    (activationRuns (σ := PUnit) plainJoinEnv plainJob plainNeeds "job" start).Reachable s
      ∧ s.snd.length = 1
      ∧ SameRequirement (servesAll (processors 4)) plainJob plainNeeds start.frame s.fst.frame := by
  have hrun : ((plainHistory (claimedAndReleased (processors 4))).map fun s =>
      (s.snd.snd.length, fairNames.map (firstShare · (s.snd.snd ++ [processors 4]))))
      = some (1, [some 4, none]) := by
    decide +kernel
  obtain ⟨⟨start, s⟩, hhistory, hfacts⟩ := Option.map_eq_some_iff.mp hrun
  obtain ⟨hlength, hshares⟩ := Prod.mk.inj hfacts
  obtain ⟨-, hs⟩ := plainHistory_spec hhistory
  refine ⟨start, s, hs, hlength, ?_⟩
  refine (requirement_agrees (s := (start, [])) _ (System.Reachable.init rfl) hs).mpr ?_
  have hown : fairNames.map (firstShare · [processors 4]) = [some 4, none] := by decide
  intro declared _ name hname _
  exact List.map_inj_left.mp (hown.trans hshares.symm) name hname
