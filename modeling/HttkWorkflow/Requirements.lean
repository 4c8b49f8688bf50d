import HttkWorkflow.JobRun

/-!
# What an attempt requires

A ready job asks for resources in one of three places, of which the manager
reads the first that is there: the frame of the activation, where an outcome
puts them; the job's mapping for the step; the job's mapping. Of the two
resources every batch system accounts for, `procs` and `mem`, a manager that
provides them adds its fair share to a requirement that omits them, and the
result is what it tests, what it writes into the frame of the claim and what
it reserves.

A mapping is read back from the frame it was written into as it was
(`stateResources_toJson`), and what a manager makes of one is, name by name,
the declared amount or else the share (`get_withShares`).
-/

/-! ## Resource mappings -/

/-- **A resource mapping**: amounts by label. -/
abbrev Resources := Dict PyStr Int

/-- A mapping that `validate_resources` accepts. -/
def Resources.Valid (resources : Resources) : Prop :=
  ∀ e ∈ resources, isLabel e.fst = true ∧ 0 ≤ e.snd

instance (resources : Resources) : Decidable resources.Valid :=
  inferInstanceAs (Decidable (∀ e ∈ resources, isLabel e.fst = true ∧ 0 ≤ e.snd))

/-- A mapping as the member of a frame. -/
def Resources.toJson (resources : Resources) : Json :=
  .obj (resources.map fun e => (e.fst, .int e.snd))

/-- The amounts of a mapping that was validated. -/
def amounts (members : List (PyStr × Json)) : Resources :=
  members.filterMap fun e => match e.snd with
    | .int n => some (e.fst, n)
    | _ => none

/-- **What a manager provides**: its resources, and the number of workers they
are shared by. -/
structure Capacity where
  resources : Resources
  maximumWorkers : Nat
  positive : 0 < maximumWorkers
  valid : resources.Valid

/-- **What a job declares** about where it runs and what it needs there. -/
structure JobNeeds where
  runnerExecutor : PyStr
  resources : Resources
  stepResources : Dict PyStr Resources
  valid : resources.Valid
  valid_steps : ∀ e ∈ stepResources, e.snd.Valid

/-! ## The requirement of an activation -/

/-- What an activation declares, in the first place that says anything. -/
def declaredRequirement (needs : JobNeeds) (state : StateFrame) : Except Exc Resources :=
  (stateResources state).map fun
    | .obj members => amounts members
    | _ => ((state.string .step).bind needs.stepResources.get).getD needs.resources

/-- The fair share of an amount, or all of it where the share is nothing. -/
def Capacity.fairShare (capacity : Capacity) (amount : Int) : Int :=
  let share := amount / capacity.maximumWorkers
  if share = 0 ∧ 0 < amount then amount else share

/-- The share of a resource a manager provides. -/
def Capacity.shareOf (capacity : Capacity) (name : PyStr) : Option Int :=
  (capacity.resources.get name).map capacity.fairShare

/-- The resources that are shared where nothing is asked for. -/
def fairNames : List PyStr := ["procs", "mem"]

def withShare (capacity : Capacity) (requirement : Resources) (name : PyStr) : Resources :=
  match capacity.shareOf name with
  | some share => if (requirement.get name).isNone then requirement.set name share else requirement
  | none => requirement

def withShares (requirement : Resources) (capacity : Capacity) : Resources :=
  fairNames.foldl (withShare capacity) requirement

/-- **`effective_requirement`** of one ready activation. -/
def effectiveRequirement (needs : JobNeeds) (state : StateFrame) (capacity : Capacity) :
    Except Exc Resources :=
  (declaredRequirement needs state).map (withShares · capacity)

/-- **`unfit_resource`**: the first sorted name that does not fit a capacity. -/
def unfitResource (requirement : Resources) (capacity : Capacity) : Option PyStr :=
  ((requirement.map Prod.fst).mergeSort fun a b => decide (a.codes ≤ b.codes)).find? fun name =>
    match requirement.get name, capacity.resources.get name with
    | some value, some amount => decide (amount ≤ 0 ∨ amount < value)
    | _, _ => true

/-- **What a manager serves.** -/
structure ManagerProfile where
  capacity : Capacity
  executors : List PyStr
  acceptAnyPool : Bool
  pools : List PyStr
  capabilities : List PyStr

/-- **`eligible_ready`** on one ready marker whose job and frame were loaded:
the requirement it is paired with, if the manager may claim it. -/
def eligibleReady (manager : ManagerProfile) (job : JobDefinition) (needs : JobNeeds)
    (state : StateFrame) : Option Resources :=
  if needs.runnerExecutor ∉ manager.executors then none
  else if manager.acceptAnyPool = false ∧ job.claimPool ∉ manager.pools then none
  else if ¬ job.requiredCapabilities ⊆ manager.capabilities then none
  else match effectiveRequirement needs state manager.capacity with
    | .error _ => none
    | .ok requirement =>
      if (unfitResource requirement manager.capacity).isSome then none else some requirement

/-! ## What is read back -/

@[simp] theorem amounts_toJson (resources : Resources) :
    amounts (resources.map fun e => (e.fst, .int e.snd)) = resources := by
  unfold amounts
  rw [List.filterMap_map]
  exact List.filterMap_some

variable {name : String}

theorem validateResource_int {label : PyStr} {n : Int} (hlabel : isLabel label = true)
    (hn : 0 ≤ n) : validateResource name (label, .int n) = .ok (label, .int n) := by
  have hcodes : label.codes ≠ [] := by
    intro hnil
    rw [isLabel, hnil] at hlabel
    cases hlabel
  have hstring : validateLabel (some (.str label)) (name ++ " key") = .ok label := by
    unfold validateLabel requireString
    simp only [if_neg hcodes]
    exact if_pos hlabel
  unfold validateResource
  rw [hstring]
  exact if_neg (Int.not_lt.mpr hn)

variable {resources : Resources}

theorem validateResources_toJson (h : resources.Valid) : validateResources (some resources.toJson) name
      = .ok (resources.map fun e => (e.fst, .int e.snd)) := by
  show (resources.map fun e => (e.fst, Json.int e.snd)).mapM (validateResource name) = _
  induction resources with
  | nil => rfl
  | cons e resources ih =>
    obtain ⟨he, hrest⟩ := List.forall_mem_cons.mp h
    rw [List.map_cons, List.mapM_cons, validateResource_int he.1 he.2, ih hrest]
    rfl

theorem valid_of_validateResource {entry result : PyStr × Json} (h : validateResource name entry = .ok result) :
    ∃ n : Int, result.snd = .int n ∧ isLabel result.fst = true ∧ 0 ≤ n := by
  obtain ⟨label, hlabel, h⟩ := bind_eq_ok.mp h
  obtain ⟨text, -, hlabel⟩ := bind_eq_ok.mp hlabel
  split_ifs at hlabel with hsyntax
  · rw [Except.ok.inj hlabel] at hsyntax
    split at h
    · split_ifs at h with hsign
      · cases h
      · rw [← Except.ok.inj h]
        exact ⟨_, rfl, hsyntax, Int.not_lt.mp hsign⟩
    · cases h
  · cases hlabel

variable {members : List (PyStr × Json)}

theorem valid_of_validateResources {value : Option Json} (h : validateResources value name = .ok members) :
    (amounts members).Valid := by
  obtain ⟨entries, -, hentries⟩ := bind_eq_ok.mp h
  clear h
  induction entries generalizing members with
  | nil =>
    rw [← Except.ok.inj hentries]
    exact fun e he => absurd he List.not_mem_nil
  | cons entry entries ih =>
    rw [List.mapM_cons] at hentries
    obtain ⟨head, hhead, hentries⟩ := bind_eq_ok.mp hentries
    obtain ⟨rest, hrest, hentries⟩ := bind_eq_ok.mp hentries
    obtain ⟨n, hn, hlabel, hsign⟩ := valid_of_validateResource hhead
    rw [← Except.ok.inj hentries]
    have hamounts : amounts (head :: rest) = (head.fst, n) :: amounts rest := by
      unfold amounts
      rw [List.filterMap_cons, hn]
    rw [hamounts]
    exact List.forall_mem_cons.mpr ⟨⟨hlabel, hsign⟩, ih hrest⟩

variable {state : StateFrame}

variable {needs : JobNeeds}

theorem declaredRequirement_toJson (h : resources.Valid) (hget : state.get .resources = some resources.toJson) :
    declaredRequirement needs state = .ok resources := by
  have hstate : stateResources state = .ok resources.toJson := by
    unfold stateResources
    rw [hget]
    show (validateResources (some resources.toJson) "state.resources").map Json.obj = _
    rw [validateResources_toJson h]
    rfl
  unfold declaredRequirement
  rw [hstate]
  exact congrArg Except.ok (amounts_toJson resources)

theorem claimMove_resources {env : CommitEnv} {job : JobDefinition}
    {claimer : Claimer} (h : (claimMove env job state claimer).kind = .claimed) :
    (claimMove env job state claimer).frame.get .resources = some claimer.requirement := by
  unfold claimMove at h ⊢
  split_ifs with hpause
  · rw [if_pos hpause] at h
    cases h
  · simp only [if_neg hpause] at h ⊢
    cases hbudget : attemptBudgetFailure job (state.attemptOrdinal.getD 0 + 1)
        (state.totalAttempts.getD 0 + 1) with
    | some text =>
      rw [hbudget] at h
      cases h
    | none => simp [claimed]

theorem declaredRequirement_congr {state base : StateFrame} (hresources : state.get .resources = base.get .resources)
    (hstep : state.get .step = base.get .step) :
    declaredRequirement needs state = declaredRequirement needs base := by
  unfold declaredRequirement stateResources StateFrame.string
  rw [hresources, hstep]

theorem valid_of_stateResources (h : stateResources state = .ok (.obj members)) : (amounts members).Valid := by
  unfold stateResources at h
  split at h
  · cases h
  · cases h
  · cases hvalidated : validateResources (state.get .resources) "state.resources" with
    | error e =>
      rw [hvalidated] at h
      cases h
    | ok entries =>
      rw [hvalidated] at h
      rw [← Json.obj.inj (Except.ok.inj h)]
      exact valid_of_validateResources hvalidated

/-- **What an activation declares is valid.** -/
theorem valid_of_declaredRequirement {declared : Resources}
    (h : declaredRequirement needs state = .ok declared) : declared.Valid := by
  have hjob : (((state.string .step).bind needs.stepResources.get).getD needs.resources).Valid := by
    cases hstep : (state.string .step).bind needs.stepResources.get with
    | none => exact needs.valid
    | some mapping =>
      obtain ⟨step, -, hget⟩ := Option.bind_eq_some_iff.mp hstep
      exact needs.valid_steps (step, mapping) (Dict.mem_of_get hget)
  unfold declaredRequirement at h
  cases hstate : stateResources state with
  | error e =>
    rw [hstate] at h
    cases h
  | ok value =>
    rw [hstate] at h
    rw [← Except.ok.inj h]
    cases value with
    | obj members => exact valid_of_stateResources hstate
    | _ => exact hjob

/-! ## The shares -/

theorem Capacity.fairShare_nonneg (capacity : Capacity) {amount : Int} (h : 0 ≤ amount) :
    0 ≤ capacity.fairShare amount := by
  unfold fairShare
  simp only
  split_ifs
  · exact h
  · exact Int.ediv_nonneg h (Int.natCast_nonneg _)

@[simp] theorem get_withShare (capacity : Capacity) (requirement : Resources) (name key : PyStr) :
    (withShare capacity requirement name).get key
      = if key = name then (requirement.get name).or (capacity.shareOf name)
        else requirement.get key := by
  unfold withShare
  cases hshare : capacity.shareOf name with
  | none =>
    by_cases hkey : key = name
    · simp [hkey]
    · simp [hkey]
  | some share =>
    by_cases hkey : key = name
    · cases hget : requirement.get name with
      | none => simp [hkey]
      | some value => simp [hkey, hget]
    · cases hget : requirement.get name with
      | none => simp [hkey]
      | some value => simp [hkey]

/-- **What a manager makes of a requirement**, name by name. -/
theorem get_withShares (requirement : Resources) (capacity : Capacity) (name : PyStr) :
    (withShares requirement capacity).get name
      = (requirement.get name).or (if name ∈ fairNames then capacity.shareOf name else none) := by
  have hne : (PyStr.ofString "mem") ≠ PyStr.ofString "procs" := by simp
  show (withShare capacity (withShare capacity requirement "procs") "mem").get name = _
  rw [get_withShare, get_withShare, get_withShare, if_neg hne]
  by_cases hmem : name = "mem"
  · simp [hmem, fairNames]
  · by_cases hprocs : name = "procs"
    · simp [hprocs, fairNames]
    · simp [hmem, hprocs, fairNames]

variable {requirement : Resources}

variable {capacity : Capacity}

theorem valid_withShare (h : requirement.Valid) (name : PyStr) : (withShare capacity requirement name).Valid := by
  unfold withShare
  cases hshare : capacity.shareOf name with
  | none => exact h
  | some share =>
    obtain ⟨amount, hget, rfl⟩ := Option.map_eq_some_iff.mp hshare
    have hentry := capacity.valid (name, amount) (Dict.mem_of_get hget)
    simp only
    split_ifs
    · refine List.forall_mem_cons.mpr ⟨⟨hentry.1, capacity.fairShare_nonneg hentry.2⟩, ?_⟩
      exact fun e he => h e (List.mem_of_mem_filter he)
    · exact h

theorem valid_withShares (h : requirement.Valid) (capacity : Capacity) : (withShares requirement capacity).Valid :=
  valid_withShare (valid_withShare h _) _

/-! ## What fits -/

theorem unfitResource_eq_none : unfitResource requirement capacity = none
      ↔ ∀ name value, requirement.get name = some value →
        ∃ amount, capacity.resources.get name = some amount ∧ 0 < amount ∧ value ≤ amount := by
  unfold unfitResource
  simp only [List.find?_eq_none, List.mem_mergeSort]
  constructor
  · intro h name value hget
    have hname := h name (List.mem_map_of_mem (f := Prod.fst) (Dict.mem_of_get hget))
    cases hamount : capacity.resources.get name with
    | none => simp [hget, hamount] at hname
    | some amount =>
      simp only [hget, hamount, decide_eq_true_eq, not_or, Int.not_le, Int.not_lt] at hname
      exact ⟨amount, rfl, hname⟩
  · intro h name hname
    obtain ⟨value, hget⟩ := Dict.get_of_mem hname
    obtain ⟨amount, hamount, hpositive, hvalue⟩ := h name value hget
    simp only [hget, hamount, decide_eq_true_eq, not_or, Int.not_le, Int.not_lt]
    exact ⟨hpositive, hvalue⟩
