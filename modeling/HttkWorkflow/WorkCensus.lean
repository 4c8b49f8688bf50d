import HttkWorkflow.ManagerCapacity
import HttkWorkflow.MarkerStream

/-!
# The census of the work

A manager that finds nothing to do asks, before it exits, what the workspace
holds, and stays if some of it is work for it. The census walks all markers in
its scope and classifies those that are submitted or ready by tests of its own:
it reads the frame of a ready job only after the pool and the capabilities have
been compared, where the claim pass reads it first. Still the two agree on
every marker (`classifyPending_ready`), and what the claim pass lists fits a
manager with nothing running (`fits_of_eligibleReady`).

They do not look at the same markers. The census walks each assigned subtree to
its end; the claim pass takes what its marker stream returns, and a stream
serves the subtrees in rotation. The two agree, for all budgets and from any
moment on, if and only if a subtree that is assigned twice and has entries
leaves out no job the manager could claim (`census_agrees`). With a prefix
given twice, a claimable job of another subtree is counted on every census and
never listed, and the manager neither runs it nor exits.
-/

variable {ν : Type} [LinearOrder ν]

/-! ## The workspace -/

/-- What reading a job or a frame raises: the two are treated alike wherever
they are caught. -/
inductive ReadFault where
  | workflowError
  | osError

/-- **A workspace at rest**, as one manager sees it: the trees of the state
kinds, the markers of which all have a placement, and what becomes of reading
what a marker stands for. -/
structure RestingWorkspace (ν : Type) [LinearOrder ν] where
  tree : StateKind → StateDirectory ν
  placed : ∀ kind m, (tree kind).Below [] m → 2 ≤ m.length
  /-- `_owns`: nothing where the answer is indeterminate. -/
  owns : StateKind → List ν → Option Bool
  loadJob : StateKind → List ν → Except ReadFault (JobDefinition × JobNeeds)
  readFrame : StateKind → List ν → Except ReadFault StateFrame
  priority : List ν → ℕ
  path : List ν → PyStr

/-- **What a manager lacks** for a job. -/
inductive MissingRequirement where
  | executor (name : PyStr)
  | pool (name : PyStr)
  | capability (name : PyStr)
  | resources (name : PyStr)
deriving DecidableEq

/-- **How a submitted or ready marker is classified.** -/
inductive Standing where
  | actionable
  | blocked (missing : MissingRequirement)
  | unusable
deriving DecidableEq

structure WorkCensus where
  succeeded : ℕ
  failed : ℕ
  readyClaimable : ℕ
  readyBlocked : MissingRequirement → ℕ
  waiting : ℕ
  paused : ℕ
  actionableCount : ℕ
  unreadable : ℕ

/-- `actionable`: whether there is work the manager can make progress on. -/
def WorkCensus.actionable (census : WorkCensus) : Bool := 0 < census.actionableCount

/-- `min(missing)`: the least capability that a job requires and a manager has
not. -/
def leastMissing (required capabilities : List PyStr) : Option PyStr :=
  ((required.filter (· ∉ capabilities)).mergeSort fun a b => decide (a.codes ≤ b.codes)).head?

/-- `_subtree_roots`: where a walk of a kind starts. -/
def subtreeRoots (prefixes : List (List ν)) : List (List ν) :=
  if prefixes = [] then [[]] else prefixes

namespace RestingWorkspace

variable (w : RestingWorkspace ν) (manager : ManagerProfile) (prefixes : List (List ν))

/-- **`_walk`**: every marker of some kinds in the scope, if it is the
manager's. -/
def walk (kinds : List StateKind) : List (StateKind × List ν) :=
  (kinds.flatMap fun kind => (subtreeRoots prefixes).flatMap fun root =>
    (markersOf (iterStateSubtree root none ((w.tree kind).forest.subforest root))).map (kind, ·)).filter
      fun marker => w.owns marker.fst marker.snd == some true

def classifyPending (marker : StateKind × List ν) : Standing :=
  match w.loadJob marker.fst marker.snd with
  | .error _ => if marker.fst = .submitted then .actionable else .unusable
  | .ok (job, needs) =>
    if needs.runnerExecutor ∉ manager.executors then .blocked (.executor needs.runnerExecutor)
    else if marker.fst = .submitted then .actionable
    else if manager.acceptAnyPool = false ∧ job.claimPool ∉ manager.pools then
      .blocked (.pool job.claimPool)
    else match leastMissing job.requiredCapabilities manager.capabilities with
      | some name => .blocked (.capability name)
      | none =>
        match w.readFrame marker.fst marker.snd with
        | .error _ => .unusable
        | .ok state =>
          match effectiveRequirement needs state manager.capacity with
          | .error _ => .unusable
          | .ok requirement =>
            match unfitResource requirement manager.capacity with
            | some name => .blocked (.resources name)
            | none => .actionable

/-- The ready markers the census counts as claimable. -/
def claimableMarkers : List (StateKind × List ν) :=
  (w.walk prefixes [.submitted, .ready]).filter fun marker =>
    w.classifyPending manager marker = .actionable ∧ marker.fst = .ready

/-- Whether a committing or cancelling job can be read, and its executor is
served. -/
def closable (marker : StateKind × List ν) : Option Bool :=
  match w.loadJob marker.fst marker.snd with
  | .error _ => none
  | .ok (_, needs) => some (needs.runnerExecutor ∈ manager.executors)

def workCensus : WorkCensus :=
  let settled := (w.walk prefixes [.succeeded, .failed, .waiting, .paused]).map Prod.fst
  let standings := (w.walk prefixes [.submitted, .ready]).map (w.classifyPending manager)
  let closing := (w.walk prefixes [.committing, .cancelling]).map (w.closable manager)
  { succeeded := settled.count .succeeded
    failed := settled.count .failed
    readyClaimable := (w.claimableMarkers manager prefixes).length
    readyBlocked := fun missing => standings.count (.blocked missing)
    waiting := settled.count .waiting
    paused := settled.count .paused
    actionableCount := standings.count .actionable + closing.count (some true)
    unreadable := closing.count none }

/-! ## The claim pass -/

/-- What `eligible_ready` pairs a marker with, if it lists it. -/
def eligible (m : List ν) : Option Resources :=
  match w.loadJob .ready m, w.readFrame .ready m with
  | .ok (job, needs), .ok state => eligibleReady manager job needs state
  | _, _ => none

def claimedBefore (a b : List ν × Resources) : Bool :=
  decide (w.priority a.fst < w.priority b.fst
    ∨ w.priority a.fst = w.priority b.fst ∧ (w.path a.fst).codes ≤ (w.path b.fst).codes)

/-- **`eligible_ready`** in one pass after some others, each with its own
budgets. -/
def eligibleReadyPass (budgets : ℕ → StreamBudget) (n : ℕ) : List (List ν × Resources) :=
  (((streamReturned (w.tree .ready) prefixes budgets n).filter fun m => w.owns .ready m == some true).filterMap
    fun m => (w.eligible manager m).map (m, ·)).mergeSort w.claimedBefore

/-! ## One marker -/

theorem leastMissing_eq_none {required capabilities : List PyStr} :
    leastMissing required capabilities = none ↔ required ⊆ capabilities := by
  unfold leastMissing
  rw [List.head?_eq_none_iff, ← List.length_eq_zero_iff, List.length_mergeSort, List.length_eq_zero_iff,
    List.filter_eq_nil_iff]
  constructor
  · intro h name hname
    by_contra hmissing
    exact h name hname (decide_eq_true hmissing)
  · exact fun h name hname hmissing => of_decide_eq_true hmissing (h hname)

variable {w manager}

variable {m : List ν}

theorem classifyPending_ready :
    w.classifyPending manager (.ready, m) = .actionable ↔ (w.eligible manager m).isSome := by
  unfold classifyPending eligible
  have hkind : (StateKind.ready = .submitted) = False := eq_false StateKind.noConfusion
  simp only [hkind, if_false]
  cases hjob : w.loadJob .ready m with
  | error e => simp
  | ok loaded =>
    obtain ⟨job, needs⟩ := loaded
    have hmissing : leastMissing job.requiredCapabilities manager.capabilities = none
        ↔ job.requiredCapabilities ⊆ manager.capabilities := leastMissing_eq_none
    cases hframe : w.readFrame .ready m with
    | error e =>
      simp only [Option.isSome_none, Bool.false_eq_true, iff_false]
      split_ifs <;> cases leastMissing job.requiredCapabilities manager.capabilities <;> simp
    | ok state =>
      simp only
      unfold eligibleReady
      by_cases hexecutor : needs.runnerExecutor ∉ manager.executors
      · simp [hexecutor]
      by_cases hpool : manager.acceptAnyPool = false ∧ job.claimPool ∉ manager.pools
      · simp [hexecutor, hpool]
      simp only [if_neg hexecutor, if_neg hpool]
      by_cases hcapabilities : job.requiredCapabilities ⊆ manager.capabilities
      · rw [hmissing.mpr hcapabilities, if_neg (not_not.mpr hcapabilities)]
        simp only
        cases effectiveRequirement needs state manager.capacity with
        | error e => simp
        | ok requirement =>
          simp only
          cases unfitResource requirement manager.capacity <;> simp
      · obtain ⟨name, hname⟩ := Option.ne_none_iff_exists'.mp (mt hmissing.mp hcapabilities)
        rw [hname, if_pos hcapabilities]
        simp

variable {requirement : Resources}

theorem fits_of_eligibleReady {job : JobDefinition} {needs : JobNeeds} {state : StateFrame}
    (h : eligibleReady manager job needs state = some requirement) :
    exhausted manager manager.capacity.resources = false ∧ ∀ name value, requirement.get name = some value →
        value ≤ (manager.capacity.resources.get name).getD 0 := by
  have hfit : unfitResource requirement manager.capacity = none := by
    unfold eligibleReady at h
    split_ifs at h
    split at h
    · cases h
    · split_ifs at h with hunfit
      rw [← Option.some.inj h]
      exact Option.not_isSome_iff_eq_none.mp hunfit
  have hamounts := unfitResource_eq_none.mp hfit
  obtain ⟨declared, -, rfl⟩ : ∃ declared, declaredRequirement needs state = .ok declared
      ∧ withShares declared manager.capacity = requirement := by
    have hrequirement := eligibleReady_spec h
    unfold effectiveRequirement at hrequirement
    cases hdeclared : declaredRequirement needs state with
    | error e => rw [hdeclared] at hrequirement; cases hrequirement
    | ok declared => exact ⟨declared, rfl, Except.ok.inj (hdeclared ▸ hrequirement)⟩
  refine ⟨?_, fun name value hget => ?_⟩
  · -- a resource that is shared is in every requirement, so there is some of it
    refine List.any_eq_false.mpr fun name hname => ?_
    cases hcapacity : manager.capacity.resources.get name with
    | none => simp
    | some amount =>
      have hshare : ((withShares declared manager.capacity).get name).isSome := by
        rw [get_withShares, if_pos hname]
        unfold Capacity.shareOf
        rw [hcapacity]
        cases declared.get name <;> rfl
      obtain ⟨value, hvalue⟩ := Option.isSome_iff_exists.mp hshare
      obtain ⟨amount', hamount', hpositive, -⟩ := hamounts name value hvalue
      rw [hcapacity] at hamount'
      obtain rfl := Option.some.inj hamount'
      simp only [Option.isSome_some, Bool.true_and, beq_iff_eq, Option.some.injEq]
      exact hpositive.ne'
  · obtain ⟨amount, hamount, -, hle⟩ := hamounts name value hget
    rw [hamount]
    exact hle

/-! ## What is walked -/

variable {kind : StateKind}

theorem mem_walk {kinds : List StateKind} : (kind, m) ∈ w.walk prefixes kinds
      ↔ kind ∈ kinds ∧ (∃ root ∈ subtreeRoots prefixes, (w.tree kind).Below root m)
        ∧ w.owns kind m = some true := by
  unfold walk
  rw [List.mem_filter]
  simp only [beq_iff_eq, ← and_assoc]
  refine and_congr_left fun _ => ?_
  simp only [List.mem_flatMap, List.mem_map, mem_markersOf, iterStateSubtree_none]
  constructor
  · rintro ⟨kind', hkind', root, hroot, m', hm', heq⟩
    obtain ⟨rfl, rfl⟩ := Prod.mk.inj heq
    exact ⟨hkind', root, hroot, hm'⟩
  · rintro ⟨hkind, root, hroot, hm⟩
    exact ⟨kind, hkind, root, hroot, m, hm, rfl⟩

variable {prefixes}

theorem below_streamRoots : (∃ root ∈ streamRoots (w.tree kind) prefixes, (w.tree kind).Below root m)
      ↔ ∃ root ∈ subtreeRoots prefixes, (w.tree kind).Below root m := by
  unfold subtreeRoots
  split_ifs with hprefixes
  · subst hprefixes
    have hroots : ∀ root, root ∈ streamRoots (w.tree kind) []
        ↔ ∃ name ∈ (w.tree kind).forest.branches, [name] = root := by
      intro root
      unfold streamRoots
      rw [if_pos rfl, List.mem_mergeSort, List.mem_map]
    constructor
    · rintro ⟨root, hroot, hbelow⟩
      obtain ⟨name, -, rfl⟩ := (hroots root).mp hroot
      exact ⟨[], List.mem_singleton_self _, Forest.mem_preorder_of_child hbelow⟩
    · rintro ⟨root, hroot, hbelow⟩
      obtain rfl := List.mem_singleton.mp hroot
      obtain ⟨name, hname, hmem⟩ := (w.tree kind).sorted.exists_child hbelow (by
        have := w.placed kind m hbelow
        simpa using this)
      exact ⟨[name], (hroots _).mpr ⟨name, hname, rfl⟩, hmem⟩
  · have hperm := perm_streamRoots (w.tree kind) hprefixes
    simp only [hperm.mem_iff]

/-! ## The census and the claim pass -/

variable (w manager prefixes)

/-- **A ready marker the manager could claim**: it is its own, and `eligible_ready`
lists it. -/
def Claimable (m : List ν) : Prop := w.owns .ready m = some true ∧ (w.eligible manager m).isSome = true

/-- **The census and the claim passes agree**, over as many passes as it takes
the stream to come to any marker, from a moment on. -/
structure Agrees (budgets : ℕ → StreamBudget) (n : ℕ) : Prop where
  counted : ∀ m, (.ready, m) ∈ w.claimableMarkers manager prefixes
    ↔ ∃ k < callBound (w.tree .ready) prefixes, ∃ requirement,
      (m, requirement) ∈ w.eligibleReadyPass manager prefixes budgets (n + k)
  exits : (w.workCensus manager prefixes).actionable = false →
    ∀ k, w.eligibleReadyPass manager prefixes budgets (n + k) = []
  stays : (w.workCensus manager prefixes).readyClaimable ≠ 0 →
    ∃ k < callBound (w.tree .ready) prefixes, w.eligibleReadyPass manager prefixes budgets (n + k) ≠ []
  claimed : ∀ k m requirement,
    (m, requirement) ∈ w.eligibleReadyPass manager prefixes budgets (n + k) →
      exhausted manager manager.capacity.resources = false
        ∧ ∀ name value, requirement.get name = some value →
          value ≤ (manager.capacity.resources.get name).getD 0

/-- **Repeated prefixes leave no claimable job out.** -/
def RepeatsKeepClaimable : Prop :=
  ∀ m, w.Claimable manager m → (∃ root ∈ prefixes, (w.tree .ready).Below root m) →
    NotLeftOut (w.tree .ready) prefixes m

variable {w manager prefixes}

theorem mem_claimableMarkers : (.ready, m) ∈ w.claimableMarkers manager prefixes
      ↔ (∃ root ∈ subtreeRoots prefixes, (w.tree .ready).Below root m) ∧ w.Claimable manager m := by
  unfold claimableMarkers Claimable
  rw [List.mem_filter, mem_walk, decide_eq_true_iff, classifyPending_ready]
  simp only [List.mem_cons, true_or, or_true, true_and, and_true, and_assoc]

variable {marker : StateKind × List ν}

theorem fst_of_mem_claimableMarkers (h : marker ∈ w.claimableMarkers manager prefixes) : marker.fst = .ready :=
  (of_decide_eq_true (List.mem_filter.mp h).2).2

variable {budgets : ℕ → StreamBudget} {n : ℕ}

theorem mem_eligibleReadyPass : (m, requirement) ∈ w.eligibleReadyPass manager prefixes budgets n
      ↔ m ∈ streamReturned (w.tree .ready) prefixes budgets n ∧ w.owns .ready m = some true
        ∧ w.eligible manager m = some requirement := by
  unfold eligibleReadyPass
  simp only [List.mem_mergeSort, List.mem_filterMap, List.mem_filter, beq_iff_eq, Option.map_eq_some_iff]
  constructor
  · rintro ⟨m', ⟨hreturned, howns⟩, requirement', heligible, heq⟩
    obtain ⟨rfl, rfl⟩ := Prod.mk.inj heq
    exact ⟨hreturned, howns, heligible⟩
  · exact fun ⟨hreturned, howns, heligible⟩ => ⟨m, ⟨hreturned, howns⟩, requirement, heligible, rfl⟩

theorem counted_of_listed (h : (m, requirement) ∈ w.eligibleReadyPass manager prefixes budgets n) :
    (.ready, m) ∈ w.claimableMarkers manager prefixes := by
  obtain ⟨hreturned, howns, heligible⟩ := mem_eligibleReadyPass.mp h
  have hclaimable : w.Claimable manager m := ⟨howns, by rw [heligible]; rfl⟩
  exact mem_claimableMarkers.mpr ⟨below_streamRoots.mp (advance_below hreturned), hclaimable⟩

theorem actionable_of_claimable (h : marker ∈ w.claimableMarkers manager prefixes) :
    (w.workCensus manager prefixes).actionable = true := by
  obtain ⟨hwalk, hstanding⟩ := List.mem_filter.mp h
  have hcount : 0 < ((w.walk prefixes [.submitted, .ready]).map (w.classifyPending manager)).count .actionable :=
    List.count_pos_iff.mpr (List.mem_map.mpr ⟨marker, hwalk, (of_decide_eq_true hstanding).1⟩)
  unfold WorkCensus.actionable workCensus
  simp only [decide_eq_true_eq]
  omega

theorem listed_of_counted (hkeep : w.RepeatsKeepClaimable manager prefixes) (budgets : ℕ → StreamBudget)
    (n : ℕ) (h : (.ready, m) ∈ w.claimableMarkers manager prefixes) :
    ∃ k < callBound (w.tree .ready) prefixes, ∃ requirement,
      (m, requirement) ∈ w.eligibleReadyPass manager prefixes budgets (n + k) := by
  obtain ⟨hbelow, hclaimable⟩ := mem_claimableMarkers.mp h
  obtain ⟨root, hroot, hbelow⟩ := below_streamRoots.mpr hbelow
  have hkept : NotLeftOut (w.tree .ready) prefixes m := by
    by_cases hprefixes : prefixes = []
    · intro repeated hcount
      simp [hprefixes] at hcount
    · exact hkeep m hclaimable ⟨root, (perm_streamRoots _ hprefixes).mem_iff.mp hroot, hbelow⟩
  obtain ⟨k, hk, hreturned⟩ := returned_within hkept budgets hroot hbelow n
  obtain ⟨requirement, heligible⟩ := Option.isSome_iff_exists.mp hclaimable.2
  exact ⟨k, hk.trans_lt (distance_lt hroot hbelow _), requirement,
    mem_eligibleReadyPass.mpr ⟨hreturned, hclaimable.1, heligible⟩⟩

/-- **The census counts what the claim pass would list, unless a repeated prefix
leaves some of it out.** -/
theorem census_agrees (w : RestingWorkspace ν) (manager : ManagerProfile) (prefixes : List (List ν)) :
    (∀ budgets n, w.Agrees manager prefixes budgets n) ↔ w.RepeatsKeepClaimable manager prefixes := by
  constructor
  · rintro hagrees m hclaimable ⟨other, hother, hbelow⟩ root hcount hentries
    have hprefixes : prefixes ≠ [] := List.ne_nil_of_mem hother
    rw [← (perm_streamRoots (w.tree .ready) hprefixes).count_eq] at hcount
    obtain ⟨budgets, hstarves⟩ := starves hcount hentries
    have hcounted : (.ready, m) ∈ w.claimableMarkers manager prefixes := by
      refine mem_claimableMarkers.mpr ⟨⟨other, ?_, hbelow⟩, hclaimable⟩
      unfold subtreeRoots
      rwa [if_neg hprefixes]
    obtain ⟨k, -, requirement, hlisted⟩ := ((hagrees budgets 1).counted m).mp hcounted
    have hreturned := (mem_eligibleReadyPass.mp hlisted).1
    rw [Nat.add_comm] at hreturned
    exact hstarves k m hreturned
  · intro hkeep budgets n
    refine ⟨fun m => ⟨listed_of_counted hkeep budgets n, ?_⟩, fun hexits k => ?_, fun hstays => ?_, ?_⟩
    · exact fun ⟨_, _, _, hlisted⟩ => counted_of_listed hlisted
    · refine List.eq_nil_iff_forall_not_mem.mpr fun listed hlisted => ?_
      have hactionable := actionable_of_claimable (counted_of_listed (m := listed.fst) hlisted)
      exact absurd (hactionable.symm.trans hexits) (by simp)
    · obtain ⟨⟨kind, m⟩, hcounted⟩ := List.exists_mem_of_length_pos (Nat.pos_of_ne_zero hstays)
      obtain rfl : kind = .ready := fst_of_mem_claimableMarkers hcounted
      obtain ⟨k, hk, requirement, hlisted⟩ := listed_of_counted hkeep budgets n hcounted
      exact ⟨k, hk, List.ne_nil_of_mem hlisted⟩
    · intro k m requirement hlisted
      have heligible := (mem_eligibleReadyPass.mp hlisted).2.2
      unfold eligible at heligible
      split at heligible
      · exact fits_of_eligibleReady heligible
      · cases heligible

end RestingWorkspace

/-! ## A job that is counted and never listed -/

/-- **Two directories with a ready job each**, and nothing else: `plainManager`
could claim both. -/
def siblingJobs : RestingWorkspace Char where
  tree kind := if kind = .ready then siblings else ⟨.nil, trivial⟩
  placed kind m h := by
    split_ifs at h
    · have hmarkers : (m, true) = (['a'], false) ∨ (m, true) = (['a', 'm'], true)
          ∨ (m, true) = (['b'], false) ∨ (m, true) = (['b', 'm'], true) := by
        simpa [StateDirectory.Below, StateDirectory.entries, siblings, Forest.subforest, Forest.preorder] using h
      rcases hmarkers with h | h | h | h <;> cases h <;> decide
    · cases h
  owns _ _ := some true
  loadJob _ _ := .ok (plainJob, threeProcessors)
  readFrame _ _ := .ok (registered plainJob "a1")
  priority _ := 100
  path _ := "ready/job"

/-- **A manager stays up for a job it never claims**: the second directory's job
is counted in every census, and with a budget of one marker no pass lists it, if
the first directory is assigned twice. -/
theorem counted_never_listed :
    ¬ (siblingJobs.Agrees plainManager [['a'], ['a'], ['b']] (fun _ => oneEntry) 0) := by
  intro hagrees
  have hclaimable : siblingJobs.Claimable plainManager ['b', 'm'] := ⟨rfl, by decide +kernel⟩
  have hcounted : (.ready, ['b', 'm']) ∈ siblingJobs.claimableMarkers plainManager [['a'], ['a'], ['b']] := by
    refine RestingWorkspace.mem_claimableMarkers.mpr ⟨⟨['b'], by decide, ?_⟩, hclaimable⟩
    show siblings.Below ['b'] ['b', 'm']
    decide +kernel
  obtain ⟨k, -, requirement, hlisted⟩ := (hagrees.counted _).mp hcounted
  have hreturned : ['b', 'm'] ∈ streamReturned siblings [['a'], ['a'], ['b']] (fun _ => oneEntry) (0 + k) :=
    (RestingWorkspace.mem_eligibleReadyPass.mp hlisted).1
  have hside := siblings_served _ _ hreturned
  revert hside
  decide +kernel
