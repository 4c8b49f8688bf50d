import HttkWorkflow.Requirements
import HttkWorkflow.TransitionTable
import Mathlib.Algebra.Order.BigOperators.Group.List
import Mathlib.Algebra.Order.Ring.Int

/-!
# The capacity of a manager

A manager tracks the attempts it launched, each with the resources it
reserves, until it has reaped them. A claim pass lists the ready jobs once,
with what each requires, and then takes them in turn: a job is claimed if its
requirement is within what the tracked attempts leave of the capacity. Between
the listing and the claim, and between the claim and the launch, the frame
and the requirement are read again, and the attempt reserves what the last
reading says.

That the readings agree is what the capacity rests on. The frame of a marker
never changes; `job.json` is immutable after submission, so that a job key
stands for one declaration; and the claimed frame has the requirement in it,
shares included, which a second computation leaves as it is
(`effectiveRequirement_claimed`). What the tracked attempts reserve then stays
within the capacity, whatever becomes of claims, launches and exits
(`capacity_kept`).
-/

/-! ## What is available -/

def reserveEntry (available : Resources) (entry : PyStr × Int) : Resources :=
  match available.get entry.fst with
  | some amount => available.set entry.fst (max 0 (amount - entry.snd))
  | none => available

/-- The reservation of one attempt. -/
def reserveAll (available resources : Resources) : Resources := resources.foldl reserveEntry available

/-- **`available_resources`**: what the running attempts leave. -/
def availableResources (capacity : Resources) (running : List Resources) : Resources :=
  running.foldl reserveAll capacity

def reserved (name : PyStr) (running : List Resources) : Int :=
  (running.map fun resources => (resources.get name).getD 0).sum

/-- The amounts a mapping has under a name, together. -/
def amountIn (name : PyStr) (resources : Resources) : Int :=
  (resources.map fun e => if e.fst = name then e.snd else 0).sum

@[simp] theorem amountIn_cons (name : PyStr) (e : PyStr × Int) (resources : Resources) :
    amountIn name (e :: resources) = (if e.fst = name then e.snd else 0) + amountIn name resources :=
  List.sum_cons

variable {resources : Resources}

theorem amountIn_nonneg (h : resources.Valid) (name : PyStr) : 0 ≤ amountIn name resources := by
  refine List.sum_nonneg fun amount hamount => ?_
  obtain ⟨e, he, rfl⟩ := List.mem_map.mp hamount
  split_ifs
  · exact (h e he).2
  · exact le_rfl

theorem get_le_amountIn (h : resources.Valid) (name : PyStr) :
    (resources.get name).getD 0 ≤ amountIn name resources := by
  induction resources with
  | nil => exact le_rfl
  | cons e resources ih =>
    obtain ⟨he, hrest⟩ := List.forall_mem_cons.mp h
    have hnonneg := amountIn_nonneg hrest name
    rw [amountIn_cons, Dict.get_cons]
    by_cases hname : e.fst = name
    · rw [if_pos hname.symm, if_pos hname, Option.getD_some]
      omega
    · rw [if_neg (Ne.symm hname), if_neg hname, zero_add]
      exact ih hrest

@[simp] theorem get_reserveEntry (available : Resources) (entry : PyStr × Int) (name : PyStr) :
    (reserveEntry available entry).get name
      = if entry.fst = name then (available.get name).map fun amount => max 0 (amount - entry.snd)
        else available.get name := by
  unfold reserveEntry
  by_cases hname : entry.fst = name
  · rw [if_pos hname, hname]
    cases hget : available.get name <;> simp [hget]
  · rw [if_neg hname]
    cases available.get entry.fst with
    | none => rfl
    | some amount => simp [Ne.symm hname]

variable {name : PyStr}

theorem get_reserveAll (h : resources.Valid) {available : Resources}
    {amount : Int} (hget : available.get name = some amount) (hamount : 0 ≤ amount) :
    (reserveAll available resources).get name = some (max 0 (amount - amountIn name resources)) := by
  induction resources generalizing available amount with
  | nil => simpa [reserveAll, amountIn, hamount] using hget
  | cons e resources ih =>
    obtain ⟨he, hrest⟩ := List.forall_mem_cons.mp h
    have hnonneg := amountIn_nonneg hrest name
    have hentry := get_reserveEntry available e name
    rw [hget] at hentry
    show (reserveAll (reserveEntry available e) resources).get name = _
    by_cases hname : e.fst = name
    · simp only [if_pos hname, Option.map_some] at hentry
      rw [ih hrest hentry (le_max_left _ _), amountIn_cons, if_pos hname]
      congr 1
      omega
    · rw [if_neg hname] at hentry
      rw [ih hrest hentry hamount, amountIn_cons, if_neg hname, zero_add]

variable {running : List Resources}

theorem reserved_nonneg (h : ∀ resources ∈ running, resources.Valid) (name : PyStr) : 0 ≤ reserved name running := by
  refine List.sum_nonneg fun amount hamount => ?_
  obtain ⟨resources, hresources, rfl⟩ := List.mem_map.mp hamount
  cases hget : resources.get name with
  | none => exact le_rfl
  | some value => exact (h resources hresources _ (Dict.mem_of_get hget)).2

theorem available_le {capacity : Resources} {amount : Int}
    (hvalid : ∀ resources ∈ running, resources.Valid) (hget : capacity.get name = some amount)
    (hamount : 0 ≤ amount) :
    ∃ left, (availableResources capacity running).get name = some left
      ∧ left ≤ max 0 (amount - reserved name running) := by
  induction running generalizing capacity amount with
  | nil => exact ⟨amount, hget, by simp [reserved]⟩
  | cons resources running ih =>
    obtain ⟨hresources, hrunning⟩ := List.forall_mem_cons.mp hvalid
    obtain ⟨left, hleft, hle⟩ := ih hrunning (get_reserveAll hresources hget hamount) (le_max_left _ _)
    have hget' := get_le_amountIn hresources name
    have hsum : reserved name (resources :: running)
        = (resources.get name).getD 0 + reserved name running := List.sum_cons
    have hnonneg : 0 ≤ reserved name running := reserved_nonneg hrunning name
    exact ⟨left, hleft, by omega⟩

theorem available_none {capacity : Resources}
    (hget : capacity.get name = none) : (availableResources capacity running).get name = none := by
  induction running generalizing capacity with
  | nil => exact hget
  | cons resources running ih =>
    refine ih ?_
    induction resources generalizing capacity with
    | nil => exact hget
    | cons e resources ihentries =>
      refine ihentries ?_
      simp [hget]

/-! ## The requirement of a claimed frame -/

section Claimed

variable {needs : JobNeeds} {capacity : Capacity}

variable {requirement : Resources}

theorem withShare_withShare {name : PyStr} (h : (requirement.get name).isSome = true ∨ capacity.shareOf name = none) :
    withShare capacity requirement name = requirement := by
  unfold withShare
  cases hshare : capacity.shareOf name with
  | none => rfl
  | some share =>
    have hsome : (requirement.get name).isSome = true :=
      h.resolve_right fun hnone => by rw [hshare] at hnone; cases hnone
    simp [Option.isSome_iff_ne_none.mp hsome]

theorem withShares_withShares (declared : Resources) (capacity : Capacity) :
    withShares (withShares declared capacity) capacity = withShares declared capacity := by
  have hthere : ∀ name ∈ fairNames, ((withShares declared capacity).get name).isSome = true
      ∨ capacity.shareOf name = none := by
    intro name hname
    rw [get_withShares, if_pos hname]
    cases capacity.shareOf name with
    | none => exact Or.inr rfl
    | some share => exact Or.inl (by simp)
  show withShare capacity (withShare capacity (withShares declared capacity) "procs") "mem" = _
  rw [withShare_withShare (hthere "procs" (by decide)), withShare_withShare (hthere "mem" (by decide))]

theorem valid_of_effectiveRequirement {state : StateFrame}
    (h : effectiveRequirement needs state capacity = .ok requirement) : requirement.Valid := by
  unfold effectiveRequirement at h
  cases hdeclared : declaredRequirement needs state with
  | error e =>
    rw [hdeclared] at h
    cases h
  | ok declared =>
    rw [hdeclared] at h
    rw [← Except.ok.inj h]
    exact valid_withShares (valid_of_declaredRequirement hdeclared) capacity

theorem effectiveRequirement_claimed {state claimedState : StateFrame}
    (hrequirement : effectiveRequirement needs state capacity = .ok requirement)
    (hget : claimedState.get .resources = some requirement.toJson) :
    effectiveRequirement needs claimedState capacity = .ok requirement := by
  unfold effectiveRequirement at hrequirement ⊢
  cases hdeclared : declaredRequirement needs state with
  | error e =>
    rw [hdeclared] at hrequirement
    cases hrequirement
  | ok declared =>
    rw [hdeclared] at hrequirement
    have hshares : withShares declared capacity = requirement := Except.ok.inj hrequirement
    have hvalid : requirement.Valid :=
      hshares ▸ valid_withShares (valid_of_declaredRequirement hdeclared) capacity
    rw [declaredRequirement_toJson hvalid hget, ← hshares]
    exact congrArg Except.ok (withShares_withShares declared capacity)

end Claimed

/-! ## Claims and launches -/

/-- **A ready marker** a pass lists, with its frame. -/
structure ReadyJob where
  jobKey : PyStr
  priority : Nat
  path : PyStr
  frame : StateFrame

/-- **What a manager finds** when it takes a candidate in turn. -/
structure ClaimWorld where
  /-- Whether the marker is its to claim, and the job and the frame loaded. -/
  loaded : Bool
  claimer : Claimer
  /-- What the rename of the claim comes to. -/
  claims : Except Exc PUnit
  /-- Whether a maintenance lock appeared. -/
  maintenance : Bool
  /-- What the preparation of the attempt comes to, up to the requirement. -/
  prepared : Except Exc PUnit
  /-- What starting the launcher comes to. -/
  started : Except Exc PUnit
  launcher : Launcher
  /-- What the rename to `running`, and opening the gate, come to. -/
  launches : Except Exc PUnit

/-- **The local state of a manager**: the attempts it tracks with their
resources, and what is left of the claim pass under way. -/
structure ManagerState where
  running : Dict PyStr Resources
  candidates : List (ReadyJob × Resources)

/-- **What happens to a manager.** -/
inductive ManagerStep where
  | startPass (draining paused : Bool) (listed : List ReadyJob)
  /-- The next candidate is taken. -/
  | consider (world : ClaimWorld)
  /-- An attempt is reaped: it exited, was swept, or was cancelled. -/
  | reap (attemptId : PyStr)
  | close

section Manager

variable (env : JoinEnv) (declared : PyStr → JobDefinition × JobNeeds) (manager : ManagerProfile)

/-- The claim order. -/
def ReadyJob.before (a b : ReadyJob × Resources) : Bool :=
  decide (a.fst.priority < b.fst.priority
    ∨ a.fst.priority = b.fst.priority ∧ a.fst.path.codes ≤ b.fst.path.codes)

/-- **`_eligible_ready_with_requirements`** of the markers that were listed. -/
def eligibleCandidates (listed : List ReadyJob) : List (ReadyJob × Resources) :=
  (listed.filterMap fun ready =>
    (eligibleReady manager (declared ready.jobKey).fst (declared ready.jobKey).snd ready.frame).map
      (ready, ·)).mergeSort ReadyJob.before

/-- Whether a resource every batch system accounts for is used up. -/
def exhausted (available : Resources) : Bool :=
  fairNames.any fun name =>
    (manager.capacity.resources.get name).isSome && available.get name == some 0

def fits (available requirement : Resources) : Bool :=
  requirement.all fun e => decide (e.snd ≤ (available.get e.fst).getD 0)

/-- **`_launch_claimed`**: the attempt that is tracked, with what the claimed
frame requires. -/
def launchClaimed (world : ClaimWorld) (needs : JobNeeds) (claimedState : StateFrame) :
    Except Exc (PyStr × Resources) := do
  world.prepared
  let requirement ← effectiveRequirement needs claimedState manager.capacity
  world.started
  let move ← launchMove env.toCommitEnv claimedState world.launcher
  let _ ← transition env.toCommitEnv none .claimed world.launches move
  match claimedState.attemptId with
  | some attemptId => .ok (attemptId, requirement)
  | none =>
    raiseFormat [.lit "a claimed frame must name its attempt and attempt control directory"]

/-- **`_claim_and_launch`**: the attempt that is tracked, if the job is claimed
and its launch succeeds. -/
def claimAndLaunch (world : ClaimWorld) (ready : ReadyJob) : Except Exc (Option (PyStr × Resources)) :=
  if world.loaded = false then .ok none
  else do
    let (job, needs) := declared ready.jobKey
    let requirement ← effectiveRequirement needs ready.frame manager.capacity
    let claim := claimMove env.toCommitEnv job ready.frame
      { world.claimer with requirement := requirement.toJson }
    let moved ← transition env.toCommitEnv none .ready world.claims claim
    if moved.kind ≠ .claimed ∨ world.maintenance = true then .ok none
    else (launchClaimed env manager world needs moved.frame).map some

/-- The claims of a pass, one candidate at a time. What a claim raises is
reported. -/
def considerNext (world : ClaimWorld) (s : ManagerState) : ManagerState :=
  match s.candidates with
  | [] => s
  | (ready, requirement) :: rest =>
    let available := availableResources manager.capacity.resources (s.running.map Prod.snd)
    if manager.capacity.maximumWorkers ≤ s.running.length ∨ exhausted manager available = true then
      { s with candidates := [] }
    else if fits available requirement = false then { s with candidates := rest }
    else
      match claimAndLaunch env declared manager world ready with
      | .ok (some (attemptId, resources)) => ⟨s.running.set attemptId resources, rest⟩
      | _ => { s with candidates := rest }

/-- **One step of a manager.** -/
def managerNext (s : ManagerState) : ManagerStep → Option ManagerState
  | .startPass draining paused listed =>
    let available := availableResources manager.capacity.resources (s.running.map Prod.snd)
    if draining = true ∨ paused = true ∨ manager.capacity.maximumWorkers ≤ s.running.length
        ∨ exhausted manager available = true then some { s with candidates := [] }
    else some { s with candidates := eligibleCandidates declared manager listed }
  | .consider world => some (considerNext env declared manager world s)
  | .reap attemptId => some { s with running := s.running.without [attemptId] }
  | .close => some ⟨[], []⟩

/-- **The runs of a manager**, over any workspace: whatever markers and frames
its passes find. -/
def managerRuns : System ManagerState ManagerStep :=
  System.ofNext (· = ⟨[], []⟩) (managerNext env declared manager)

end Manager

/-! ## The capacity is kept -/

section Kept

variable {env : JoinEnv} {declared : PyStr → JobDefinition × JobNeeds} {manager : ManagerProfile}

/-- **The capacity of a manager is kept**: there are no more attempts than
workers, and no resource is reserved beyond what there is of it. -/
structure WithinCapacity (capacity : Capacity) (running : Dict PyStr Resources) : Prop where
  workers : running.length ≤ capacity.maximumWorkers
  resources : ∀ name, reserved name (running.map Prod.snd) ≤ (capacity.resources.get name).getD 0

/-- **What holds at every step**: the reservations are valid, and a candidate
is paired with what its frame requires. -/
structure ManagerState.Sound (declared : PyStr → JobDefinition × JobNeeds) (manager : ManagerProfile)
    (s : ManagerState) : Prop where
  within : WithinCapacity manager.capacity s.running
  valid : ∀ e ∈ s.running, e.snd.Valid
  required : ∀ c ∈ s.candidates,
    effectiveRequirement (declared c.fst.jobKey).snd c.fst.frame manager.capacity = .ok c.snd

variable {requirement : Resources}

theorem eligibleReady_spec {job : JobDefinition} {needs : JobNeeds} {state : StateFrame}
    (h : eligibleReady manager job needs state = some requirement) :
    effectiveRequirement needs state manager.capacity = .ok requirement := by
  unfold eligibleReady at h
  split_ifs at h
  split at h
  · cases h
  · split_ifs at h
    rename_i hrequirement _
    rw [hrequirement, Option.some.inj h]

theorem eligibleCandidates_spec {listed : List ReadyJob} {c : ReadyJob × Resources}
    (h : c ∈ eligibleCandidates declared manager listed) :
    effectiveRequirement (declared c.fst.jobKey).snd c.fst.frame manager.capacity = .ok c.snd := by
  obtain ⟨ready, -, heligible⟩ := List.mem_filterMap.mp (List.mem_mergeSort.mp h)
  obtain ⟨requirement, hrequirement, rfl⟩ := Option.map_eq_some_iff.mp heligible
  exact eligibleReady_spec hrequirement

theorem claimAndLaunch_spec {world : ClaimWorld} {ready : ReadyJob} {attemptId : PyStr}
    {requirement resources : Resources}
    (hrequirement : effectiveRequirement (declared ready.jobKey).snd ready.frame manager.capacity = .ok requirement)
    (h : claimAndLaunch env declared manager world ready = .ok (some (attemptId, resources))) :
    resources = requirement := by
  unfold claimAndLaunch at h
  split_ifs at h with hloaded
  · cases h
  · obtain ⟨requirement', hrequirement', h⟩ := bind_eq_ok.mp h
    rw [hrequirement] at hrequirement'
    obtain rfl := Except.ok.inj hrequirement'
    obtain ⟨moved, hmoved, h⟩ := bind_eq_ok.mp h
    split_ifs at h with hclaimed
    · cases h
    · have hwrites : Writes env .ready _ moved := ⟨_, _, hmoved⟩
      have hkind := hwrites.claimed_iff.mp (not_not.mp (not_or.mp hclaimed).1)
      have hget : moved.frame.get .resources = some requirement.toJson :=
        (hwrites.get (by decide)).trans (claimMove_resources hkind)
      obtain ⟨-, -, h⟩ := bind_eq_ok.mp (some_of_map h)
      obtain ⟨launched, hlaunched, h⟩ := bind_eq_ok.mp h
      rw [effectiveRequirement_claimed hrequirement hget] at hlaunched
      obtain ⟨-, -, h⟩ := bind_eq_ok.mp h
      obtain ⟨move, -, h⟩ := bind_eq_ok.mp h
      obtain ⟨-, -, h⟩ := bind_eq_ok.mp h
      split at h
      · rw [Except.ok.inj hlaunched]
        exact (Prod.mk.inj (Except.ok.inj h)).2.symm
      · cases h

theorem reserved_sublist {running kept : List Resources}
    (hvalid : ∀ resources ∈ running, resources.Valid) (h : kept.Sublist running) (name : PyStr) :
    reserved name kept ≤ reserved name running := by
  refine (h.map _).sum_le_sum fun amount hamount => ?_
  obtain ⟨resources, hresources, rfl⟩ := List.mem_map.mp hamount
  cases hget : resources.get name with
  | none => exact le_rfl
  | some value => exact (hvalid resources hresources _ (Dict.mem_of_get hget)).2

variable {capacity : Capacity}

theorem WithinCapacity.sublist {running kept : Dict PyStr Resources}
    (h : WithinCapacity capacity running) (hvalid : ∀ e ∈ running, e.snd.Valid)
    (hsublist : List.Sublist kept running) : WithinCapacity capacity kept where
  workers := hsublist.length_le.trans h.workers
  resources name := by
    refine (reserved_sublist ?_ (hsublist.map Prod.snd) name).trans (h.resources name)
    exact List.forall_mem_map.mpr hvalid

theorem le_of_fits {running : List Resources} (hvalid : ∀ resources ∈ running, resources.Valid)
    (hkept : ∀ name, reserved name running ≤ (capacity.resources.get name).getD 0)
    (h : fits (availableResources capacity.resources running) requirement = true) (name : PyStr) :
    (requirement.get name).getD 0 + reserved name running
      ≤ (capacity.resources.get name).getD 0 := by
  have hreserved := hkept name
  cases hget : requirement.get name with
  | none => simpa using hreserved
  | some value =>
    have hvalue := of_decide_eq_true (List.all_eq_true.mp h _ (Dict.mem_of_get hget))
    simp only [Option.getD_some] at hvalue ⊢
    cases hamount : capacity.resources.get name with
    | none =>
      rw [hamount, Option.getD_none] at hreserved
      rw [available_none hamount, Option.getD_none] at hvalue
      rw [Option.getD_none]
      omega
    | some amount =>
      rw [hamount, Option.getD_some] at hreserved
      have hnonneg := (capacity.valid _ (Dict.mem_of_get hamount)).2
      obtain ⟨left, hleft, hle⟩ := available_le hvalid hamount hnonneg
      rw [hleft, Option.getD_some] at hvalue
      rw [Option.getD_some]
      omega

theorem WithinCapacity.set {running : Dict PyStr Resources} (h : WithinCapacity capacity running)
    (hvalid : ∀ e ∈ running, e.snd.Valid) (hworkers : running.length < capacity.maximumWorkers)
    (hfits : fits (availableResources capacity.resources (running.map Prod.snd)) requirement = true)
    (attemptId : PyStr) : WithinCapacity capacity (running.set attemptId requirement) where
  workers := by
    show (running.filter _).length + 1 ≤ _
    have := List.length_filter_le (fun e => decide (e.fst ≠ attemptId)) running
    omega
  resources name := by
    have hothers := reserved_sublist (List.forall_mem_map.mpr hvalid)
      ((List.filter_sublist (p := fun e => decide (e.fst ≠ attemptId)) (l := running)).map Prod.snd)
      name
    have hroom := le_of_fits (List.forall_mem_map.mpr hvalid) h.resources hfits name
    show reserved name (requirement :: (running.filter _).map Prod.snd) ≤ _
    have hsum : reserved name (requirement :: (running.filter fun e => decide (e.fst ≠ attemptId)).map Prod.snd)
        = (requirement.get name).getD 0 + reserved name ((running.filter
          fun e => decide (e.fst ≠ attemptId)).map Prod.snd) := List.sum_cons
    omega

variable {s : ManagerState}

theorem ManagerState.Sound.drop (hs : s.Sound declared manager)
    {candidates : List (ReadyJob × Resources)} (hsubset : candidates ⊆ s.candidates) :
    ManagerState.Sound declared manager { s with candidates := candidates } where
  within := hs.within
  valid := hs.valid
  required c hc := hs.required c (hsubset hc)

theorem ManagerState.Sound.consider (hs : s.Sound declared manager)
    (world : ClaimWorld) : (considerNext env declared manager world s).Sound declared manager := by
  unfold considerNext
  cases hcandidates : s.candidates with
  | nil => exact hs
  | cons candidate rest =>
    obtain ⟨ready, requirement⟩ := candidate
    have hrest : rest ⊆ s.candidates := hcandidates ▸ List.subset_cons_self _ rest
    simp only
    split_ifs with hfull hfits
    · exact hs.drop (List.nil_subset _)
    · exact hs.drop hrest
    · split
      · rename_i attemptId resources hlaunched
        have hrequired := hs.required (ready, requirement) (hcandidates ▸ List.mem_cons_self)
        obtain rfl := claimAndLaunch_spec hrequired hlaunched
        refine ⟨hs.within.set hs.valid (Nat.lt_of_not_le (not_or.mp hfull).1)
          (by simpa using hfits) attemptId, ?_, (hs.drop hrest).required⟩
        refine List.forall_mem_cons.mpr ⟨?_, fun e he => hs.valid e (List.mem_of_mem_filter he)⟩
        exact valid_of_effectiveRequirement hrequired
      · exact hs.drop hrest

/-- **One step of a manager.** -/
theorem ManagerState.Sound.next {s s' : ManagerState} {step : ManagerStep}
    (hs : s.Sound declared manager) (h : managerNext env declared manager s step = some s') :
    s'.Sound declared manager := by
  cases step with
  | startPass draining paused listed =>
    simp only [managerNext] at h
    split_ifs at h
    · rw [← Option.some.inj h]
      exact hs.drop (List.nil_subset _)
    · rw [← Option.some.inj h]
      exact ⟨hs.within, hs.valid, fun c hc => eligibleCandidates_spec hc⟩
  | consider world =>
    rw [← Option.some.inj h]
    exact hs.consider world
  | reap attemptId =>
    rw [← Option.some.inj h]
    exact ⟨hs.within.sublist hs.valid List.filter_sublist,
      fun e he => hs.valid e (List.mem_of_mem_filter he), hs.required⟩
  | close =>
    rw [← Option.some.inj h]
    exact ⟨hs.within.sublist hs.valid (List.nil_sublist _), fun e he => absurd he List.not_mem_nil,
      fun c hc => absurd hc List.not_mem_nil⟩

/-- **The capacity of a manager is kept** in every run. -/
theorem capacity_kept {s : ManagerState} (hs : (managerRuns env declared manager).Reachable s) :
    WithinCapacity manager.capacity s.running := by
  suffices hsound : s.Sound declared manager from hsound.within
  refine hs.invariant (I := ManagerState.Sound declared manager) ?_
    fun _ _ _ _ hsound hnext => hsound.next hnext
  rintro s rfl
  refine ⟨⟨Nat.zero_le _, fun name => ?_⟩, fun e he => absurd he List.not_mem_nil,
    fun c hc => absurd hc List.not_mem_nil⟩
  cases hget : manager.capacity.resources.get name with
  | none => exact le_rfl
  | some amount => exact (manager.capacity.valid _ (Dict.mem_of_get hget)).2

end Kept

/-! ## A launched attempt -/

/-- A manager with four processors and one worker, before a job that asks for
three. -/
def plainManager : ManagerProfile where
  capacity :=
    { resources := [("procs", .ofNat 4)]
      maximumWorkers := 1
      positive := Nat.one_pos
      valid := by decide }
  executors := ["path"]
  acceptAnyPool := true
  pools := []
  capabilities := []

theorem no_steps : ∀ e ∈ ([] : Dict PyStr Resources), e.snd.Valid := by decide

def threeProcessors : JobNeeds where
  runnerExecutor := "path"
  resources := [("procs", .ofNat 3)]
  stepResources := []
  valid := by decide
  valid_steps := no_steps

def plainClaimWorld : ClaimWorld where
  loaded := true
  claimer := ⟨"m1", "w1", "c1", "t1", .null, .int 60⟩
  claims := .ok ⟨⟩
  maintenance := false
  prepared := .ok ⟨⟩
  started := .ok ⟨⟩
  launcher := ⟨"m1", "w1", .int 60, "now", "work", 7, "host", "now"⟩
  launches := .ok ⟨⟩

def plainPass : List ManagerStep :=
  [.startPass false false [⟨"job", 100, "ready/job", registered plainJob "a1"⟩],
    .consider plainClaimWorld]

/-- The attempt of that pass reserves its three processors of four. -/
theorem capacity_kept_launched : ∃ s : ManagerState,
    (managerRuns plainJoinEnv (fun _ => (plainJob, threeProcessors)) plainManager).Reachable s
      ∧ s.running.map (fun e => (e.fst, reserved "procs" [e.snd])) = [(PyStr.ofString "t1", 3)]
      ∧ WithinCapacity plainManager.capacity s.running := by
  have hrun : (System.follow (managerNext plainJoinEnv (fun _ => (plainJob, threeProcessors))
      plainManager) ⟨[], []⟩ plainPass).map
        (fun s => s.running.map fun e => (e.fst, reserved "procs" [e.snd]))
      = some [(PyStr.ofString "t1", 3)] := by
    decide +kernel
  obtain ⟨s, hfollow, hrunning⟩ := Option.map_eq_some_iff.mp hrun
  have hs : (managerRuns plainJoinEnv (fun _ => (plainJob, threeProcessors)) plainManager).Reachable
      s := (System.run_of_follow hfollow).reachable (System.Reachable.init rfl)
  exact ⟨s, hs, hrunning, capacity_kept hs⟩
