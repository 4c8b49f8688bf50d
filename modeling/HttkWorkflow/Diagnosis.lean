import HttkWorkflow.JobRecords
import HttkWorkflow.ManagerCapacity

/-!
# What the diagnosis says of a manager and of a join

`explain_job` tells an operator why a job does not go on. For a ready job it
takes the record that every live manager has published and lists what that
manager would refuse; where there is nothing, the manager is said to offer
everything the job requires. For a waiting job it looks every child of the join
up and says which of them cannot be resolved. Neither asks the manager: the
diagnosis has filters and lookups of its own.

So there are two sides of each question. What both test is `Suits`, what only
the diagnosis tests is `Explained`, and what only the manager tests is
`Admits`, each a list of tests of the job, the manager and the files; beside
it stands the list of what fails one of them (`Unsuited`, `Unexplained`,
`Refused`). The two sides come to the same exactly if something both test
fails, or every other test passes, or each side has one of its own that fails
(`diagnosis_agrees_iff`). For a join, the manager finds a child at its hint and
nowhere else (`AtHint`), and the diagnosis also by its id, so that it misses
only those that are `Lost`.

The records of the managers are what `read_managers` made of them. What the
explanation says besides, of budgets, locks and requests, is not about a
manager and is left out.
-/

/-! ## Managers and their records -/

/-- **A live manager**: its configuration, and whether it drains. -/
structure LiveManager extends ManagerProfile where
  managerId : PyStr
  uid : Int
  placementPrefixes : List (List PyStr)
  runnerModules : List PyStr
  runnerSearchPaths : List PyStr
  draining : Bool
  /-- The placements were normalized, so their texts are read back. -/
  normalized : ∀ place ∈ placementPrefixes, normalizePlacement (PyStr.join "/" place) = .ok place

/-- **`ManagerRecord`**, as far as it is compared with a job. -/
structure ManagerRecord where
  managerId : PyStr
  uid : Option Int
  pools : List PyStr
  capabilities : List PyStr
  placementPrefixes : List PyStr
  executors : List PyStr
  acceptAnyPool : Bool
  runnerModules : List PyStr
  runnerSearchPaths : List PyStr

/-- **The record of a manager** whose manifest is the one it published. -/
def LiveManager.published (m : LiveManager) : ManagerRecord :=
  ⟨m.managerId, some m.uid, m.pools, m.capabilities, m.placementPrefixes.map (PyStr.join "/"), m.executors,
    m.acceptAnyPool, m.runnerModules, m.runnerSearchPaths⟩

/-! ## Ready jobs -/

/-- **The runner of a job**: one of the job or the workspace, one in an installed package, or another that is
installed. -/
inductive RunnerReference where
  | kept
  | package (name : PyStr)
  | installed (path : PyStr)

/-- What `load_job` gives. -/
structure LoadedJob where
  job : JobDefinition
  needs : JobNeeds
  runner : RunnerReference

inductive FoundKind where
  | regular
  | directory
  | other
deriving DecidableEq

/-- **What `lstat` comes to.** -/
inductive Lstat where
  | missing
  | failed (e : Exc)
  | found (kind : FoundKind) (uid : Int)

/-- **A ready job in a workspace** that does not change. -/
structure ReadySite where
  placement : List PyStr
  /-- The placement of a marker is read back from its text. -/
  normalized : normalizePlacement (PyStr.join "/" placement) = .ok placement
  marker : Lstat
  payload : Lstat
  jobFile : Lstat
  /-- The definition and the frame, where they are read. -/
  loaded : Option LoadedJob
  frame : Option StateFrame
  /-- `_maintenance_paused`. -/
  paused : Bool

/-! ## The diagnosis of a ready job -/

/-- Whether a placement is at or below one of some prefixes; a prefix that is no placement raises. -/
def coveredBy (parts : List PyStr) : List PyStr → Except Exc Bool
  | [] => .ok false
  | text :: texts => do
    let place ← normalizePlacement text
    if place.isPrefixOf parts = true then .ok true else coveredBy parts texts

def placementCovered (record : ManagerRecord) (placement : PyStr) : Except Exc Bool := do
  coveredBy (← normalizePlacement placement) record.placementPrefixes

def runnerModuleAllowed (name : PyStr) (runnerModules : List PyStr) : Bool :=
  runnerModules.any fun allowed => decide (name = allowed) || (allowed ++ ".").codes.isPrefixOf name.codes

def runnerRefusal (record : ManagerRecord) : RunnerReference → Option Message
  | .kept => none
  | .package name =>
    if runnerModuleAllowed name record.runnerModules = true then none
    else
      let allowed := PyStr.join "," record.runnerModules
      some [.lit "does not allow runner module ", .raw name, .lit " (allows ",
        .raw (if allowed.codes = [] then "none" else allowed), .lit ")"]
  | .installed path =>
    if record.runnerSearchPaths = [] then
      some [.lit "has no runner search path for installed runner ", .raw path]
    else none

def reasonUnless (holds : Prop) [Decidable holds] (reason : Message) : List Message := if holds then [] else [reason]

@[simp] theorem reasonUnless_eq_nil {holds : Prop} [Decidable holds] {reason : Message} :
    reasonUnless holds reason = [] ↔ holds := by
  unfold reasonUnless
  split_ifs with h <;> simp [h]

/-- A record without prefixes is of a manager that scans every placement. -/
def scansPlacement (record : ManagerRecord) (placement : PyStr) : Except Exc Bool :=
  if record.placementPrefixes = [] then .ok true else placementCovered record placement

/-- What is wrong with the owner of a job. -/
def ownerReasons (record : ManagerRecord) (ownerUid : Option Int) : List Message :=
  match ownerUid, record.uid with
  | some owner, some uid => reasonUnless (uid = owner)
      [.lit "is owned by another user (uid ", .num owner, .lit "); managers run only jobs owned by their account"]
  | _, _ => []

def managerRefusals (record : ManagerRecord) (job : LoadedJob) (placement : PyStr) (ownerUid : Option Int) :
    Except Exc (List Message) := do
  let scanned ← scansPlacement record placement
  let missing := job.job.requiredCapabilities.filter (· ∉ record.capabilities)
  .ok (ownerReasons record ownerUid
    ++ reasonUnless (job.needs.runnerExecutor ∈ record.executors)
      [.lit "does not serve runner executor ", .raw job.needs.runnerExecutor]
    ++ reasonUnless (record.acceptAnyPool = true ∨ job.job.claimPool ∈ record.pools)
      [.lit "does not serve claim pool ", .raw job.job.claimPool]
    ++ reasonUnless (missing = []) [.lit "lacks capabilities ", .raw (PyStr.join "," (sortedStrings missing))]
    ++ reasonUnless (scanned = true) [.lit "does not scan placement ", .raw placement,
      .lit " (restricted to ", .raw (PyStr.join "," record.placementPrefixes), .lit ")"]
    ++ (runnerRefusal record job.runner).toList)

/-- **`_manager_checks`** of a ready job: what every live manager would refuse. -/
def managerChecks (live : List ManagerRecord) (job : LoadedJob) (placement : PyStr) (ownerUid : Option Int) :
    Except Exc (List (ManagerRecord × List Message)) :=
  live.mapM fun record => do .ok (record, ← managerRefusals record job placement ownerUid)

/-- `marker.path.lstat().st_uid`, and nothing where the marker is gone. -/
def ReadySite.ownerUid (r : ReadySite) : Except Exc (Option Int) :=
  match r.marker with
  | .missing => .ok none
  | .failed e => .error e
  | .found _ uid => .ok (some uid)

/-- **`explain_job`** of a ready job, as far as it is about managers. -/
def explainReady (live : List ManagerRecord) (r : ReadySite) : Except Exc (List (ManagerRecord × List Message)) := do
  let ownerUid ← r.ownerUid
  match r.loaded with
  | none => .ok []
  | some job => managerChecks live job (PyStr.join "/" r.placement) ownerUid

/-- **A manager is listed** as offering everything the job requires. -/
def Offers (live : List ManagerRecord) (r : ReadySite) (record : ManagerRecord) : Prop :=
  ∃ checks, explainReady live r = .ok checks ∧ (record, []) ∈ checks

/-! ## The passes of the manager -/

def ReadySite.owns (r : ReadySite) (managerUid : Int) : Option Bool :=
  match r.marker with
  | .missing => some false
  | .failed _ => none
  | .found kind uid =>
    if kind ≠ .regular then some false
    else if uid ≠ managerUid then some false
    else
      match r.payload with
      | .found kind payloadUid =>
        if kind ≠ .directory then some false
        else
          match r.jobFile with
          | .found kind jobUid =>
            if kind ≠ .regular then some false
            else if payloadUid ≠ uid ∨ jobUid ≠ uid then some false
            else some true
          | _ => none
      | _ => none

/-- Whether the walk over the ready markers comes to a placement. -/
def LiveManager.scans (m : LiveManager) (placement : List PyStr) : Bool :=
  m.placementPrefixes.isEmpty || m.placementPrefixes.any fun place => place.isPrefixOf placement

/-- **Whether the passes of a manager claim a job**, when its capacity is free. -/
def LiveManager.claims (env : CommitEnv) (m : LiveManager) (claimer : Claimer) (r : ReadySite) : Bool :=
  !m.draining && !r.paused && m.scans r.placement && r.owns m.uid == some true
    && match r.loaded, r.frame with
      | some job, some frame =>
        match eligibleReady m.toManagerProfile job.job job.needs frame with
        | some requirement =>
          (claimMove env job.job frame { claimer with requirement := requirement.toJson }).kind == .claimed
        | none => false
      | _, _ => false

/-! ## What each side tests -/

/-- **What both sides test.** -/
structure Suits (m : LiveManager) (job : LoadedJob) (r : ReadySite) : Prop where
  executor : job.needs.runnerExecutor ∈ m.executors
  pool : m.acceptAnyPool = true ∨ job.job.claimPool ∈ m.pools
  capabilities : job.job.requiredCapabilities ⊆ m.capabilities
  scanned : m.scans r.placement = true
  owner : ∀ kind uid, r.marker = .found kind uid → m.uid = uid

/-- **Prefixes that are read**: they are placements, up to the first that covers the job's. -/
def PrefixesRead (parts : List PyStr) : List PyStr → Prop
  | [] => True
  | text :: texts => ∃ place, normalizePlacement text = .ok place
      ∧ (place.isPrefixOf parts = true ∨ PrefixesRead parts texts)

def LiveManager.Reaches (m : LiveManager) : RunnerReference → Prop
  | .kept => True
  | .package name => runnerModuleAllowed name m.runnerModules = true
  | .installed _ => m.runnerSearchPaths ≠ []

/-- **What only the diagnosis tests**: the runner, and on the way that it can look at the marker and that the
prefixes of every live manager are placements. -/
structure Explained (live : List ManagerRecord) (m : LiveManager) (job : LoadedJob) (r : ReadySite) : Prop where
  marker : ∀ e, r.marker ≠ .failed e
  records : ∀ record ∈ live, PrefixesRead r.placement record.placementPrefixes
  runner : m.Reaches job.runner

/-- **What only the manager tests**: the resources, and on the way that it may launch, that all of the job is its
own, and that no pause and no budget is in the way. -/
structure Admits (m : LiveManager) (job : LoadedJob) (r : ReadySite) : Prop where
  draining : m.draining = false
  paused : r.paused = false
  marker : r.marker = .found .regular m.uid
  payload : r.payload = .found .directory m.uid
  jobFile : r.jobFile = .found .regular m.uid
  frame : ∃ frame, r.frame = some frame ∧ frame.has .pauseRequested = false
    ∧ attemptBudgetFailure job.job (frame.attemptOrdinal.getD 0 + 1) (frame.totalAttempts.getD 0 + 1) = none
    ∧ ∃ requirement, effectiveRequirement job.needs frame m.capacity = .ok requirement
      ∧ unfitResource requirement m.capacity = none

/-! The same tests, as what fails one of them. -/

/-- **What is in the way of a job on both sides.** -/
inductive Unsuited (m : LiveManager) (job : LoadedJob) (r : ReadySite) : Prop where
  | executor (h : job.needs.runnerExecutor ∉ m.executors)
  | pool (hany : m.acceptAnyPool = false) (h : job.job.claimPool ∉ m.pools)
  | capability (name : PyStr) (hneeded : name ∈ job.job.requiredCapabilities) (h : name ∉ m.capabilities)
  | placement (hsome : m.placementPrefixes ≠ [])
      (h : ∀ place ∈ m.placementPrefixes, place.isPrefixOf r.placement = false)
  | owner (kind : FoundKind) (uid : Int) (hmarker : r.marker = .found kind uid) (h : m.uid ≠ uid)

/-- **What keeps the diagnosis alone** from listing the manager. -/
inductive Unexplained (live : List ManagerRecord) (m : LiveManager) (job : LoadedJob) (r : ReadySite) : Prop where
  | marker (e : Exc) (h : r.marker = .failed e)
  | record (record : ManagerRecord) (hlive : record ∈ live) (h : ¬PrefixesRead r.placement record.placementPrefixes)
  | package (name : PyStr) (hrunner : job.runner = .package name)
      (h : runnerModuleAllowed name m.runnerModules = false)
  | installed (path : PyStr) (hrunner : job.runner = .installed path) (h : m.runnerSearchPaths = [])

/-- **What keeps the manager alone** from claiming the job. -/
inductive Refused (m : LiveManager) (job : LoadedJob) (r : ReadySite) : Prop where
  | draining (h : m.draining = true)
  | paused (h : r.paused = true)
  | marker (h : r.marker ≠ .found .regular m.uid)
  | payload (h : r.payload ≠ .found .directory m.uid)
  | jobFile (h : r.jobFile ≠ .found .regular m.uid)
  | frame (h : r.frame = none)
  | pause (frame : StateFrame) (hframe : r.frame = some frame) (h : frame.has .pauseRequested = true)
  | budget (frame : StateFrame) (failure : String) (hframe : r.frame = some frame)
      (h : attemptBudgetFailure job.job (frame.attemptOrdinal.getD 0 + 1) (frame.totalAttempts.getD 0 + 1) = some failure)
  | requirement (frame : StateFrame) (e : Exc) (hframe : r.frame = some frame)
      (h : effectiveRequirement job.needs frame m.capacity = .error e)
  | unfit (frame : StateFrame) (requirement : Resources) (name : PyStr) (hframe : r.frame = some frame)
      (hrequirement : effectiveRequirement job.needs frame m.capacity = .ok requirement)
      (h : unfitResource requirement m.capacity = some name)

section Ready

variable {env : CommitEnv} {live : List ManagerRecord} {m : LiveManager} {claimer : Claimer} {job : LoadedJob}
  {r : ReadySite}

theorem not_suits_iff : ¬Suits m job r ↔ Unsuited m job r := by
  constructor
  · intro hnot
    by_contra hnone
    refine hnot ⟨?_, ?_, fun name hneeded => ?_, ?_, fun kind uid hmarker => ?_⟩
    · by_contra h
      exact hnone (.executor h)
    · by_contra h
      rw [not_or] at h
      exact hnone (.pool (eq_false_of_ne_true h.1) h.2)
    · by_contra h
      exact hnone (.capability name hneeded h)
    · by_contra h
      unfold LiveManager.scans at h
      rw [Bool.or_eq_true, not_or, List.isEmpty_iff, List.any_eq_true] at h
      refine hnone (.placement h.1 fun place hplace => eq_false_of_ne_true fun hcovers => ?_)
      exact h.2 ⟨place, hplace, hcovers⟩
    · by_contra h
      exact hnone (.owner kind uid hmarker h)
  · intro hunsuited hsuits
    cases hunsuited with
    | executor h => exact h hsuits.executor
    | pool hany h =>
      rcases hsuits.pool with hpool | hpool
      · rw [hany] at hpool
        cases hpool
      · exact h hpool
    | capability name hneeded h => exact h (hsuits.capabilities hneeded)
    | placement hsome h =>
      have hscanned := hsuits.scanned
      unfold LiveManager.scans at hscanned
      rw [Bool.or_eq_true, List.isEmpty_iff, List.any_eq_true] at hscanned
      obtain ⟨place, hplace, hcovers⟩ := hscanned.resolve_left hsome
      rw [h place hplace] at hcovers
      cases hcovers
    | owner kind uid hmarker h => exact h (hsuits.owner kind uid hmarker)

theorem not_explained_iff : ¬Explained live m job r ↔ Unexplained live m job r := by
  constructor
  · intro hnot
    by_contra hnone
    refine hnot ⟨fun e h => hnone (.marker e h), fun record hrecord => ?_, ?_⟩
    · by_contra h
      exact hnone (.record record hrecord h)
    · cases hrunner : job.runner with
      | kept => trivial
      | package name =>
        by_contra h
        exact hnone (.package name hrunner (eq_false_of_ne_true h))
      | installed path => exact fun h => hnone (.installed path hrunner h)
  · intro hunexplained hexplained
    have hreaches := hexplained.runner
    cases hunexplained with
    | marker e h => exact hexplained.marker e h
    | record record hrecord h => exact h (hexplained.records record hrecord)
    | package name hrunner h =>
      rw [hrunner, LiveManager.Reaches, h] at hreaches
      cases hreaches
    | installed path hrunner h =>
      rw [hrunner] at hreaches
      exact hreaches h

theorem not_admits_iff : ¬Admits m job r ↔ Refused m job r := by
  constructor
  · intro hnot
    by_contra hnone
    refine hnot ⟨?_, ?_, ?_, ?_, ?_, ?_⟩
    · exact eq_false_of_ne_true fun h => hnone (.draining h)
    · exact eq_false_of_ne_true fun h => hnone (.paused h)
    · by_contra h
      exact hnone (.marker h)
    · by_contra h
      exact hnone (.payload h)
    · by_contra h
      exact hnone (.jobFile h)
    · cases hframe : r.frame with
      | none => exact absurd (.frame hframe) hnone
      | some frame =>
        refine ⟨frame, rfl, eq_false_of_ne_true fun h => hnone (.pause frame hframe h), ?_, ?_⟩
        · exact Option.eq_none_iff_forall_ne_some.mpr fun failure h => hnone (.budget frame failure hframe h)
        · cases hrequirement : effectiveRequirement job.needs frame m.capacity with
          | error e => exact absurd (.requirement frame e hframe hrequirement) hnone
          | ok requirement =>
            refine ⟨requirement, rfl, Option.eq_none_iff_forall_ne_some.mpr fun name h => ?_⟩
            exact hnone (.unfit frame requirement name hframe hrequirement h)
  · intro hrefused hadmits
    obtain ⟨hdraining, hpaused, hmarker, hpayload, hjobFile, frame, hframe, hpause, hbudget, requirement, hrequirement,
      hfits⟩ := hadmits
    cases hrefused with
    | draining h => exact Bool.false_ne_true (hdraining.symm.trans h)
    | paused h => exact Bool.false_ne_true (hpaused.symm.trans h)
    | marker h => exact h hmarker
    | payload h => exact h hpayload
    | jobFile h => exact h hjobFile
    | frame h => cases hframe.symm.trans h
    | pause frame' hframe' h =>
      obtain rfl := Option.some.inj (hframe.symm.trans hframe')
      exact Bool.false_ne_true (hpause.symm.trans h)
    | budget frame' failure hframe' h =>
      obtain rfl := Option.some.inj (hframe.symm.trans hframe')
      cases hbudget.symm.trans h
    | requirement frame' e hframe' h =>
      obtain rfl := Option.some.inj (hframe.symm.trans hframe')
      cases hrequirement.symm.trans h
    | unfit frame' requirement' name hframe' hrequirement' h =>
      obtain rfl := Option.some.inj (hframe.symm.trans hframe')
      obtain rfl := Except.ok.inj (hrequirement.symm.trans hrequirement')
      cases hfits.symm.trans h

theorem coveredBy_returns {parts : List PyStr} {texts : List PyStr} :
    (∃ covered, coveredBy parts texts = .ok covered) ↔ PrefixesRead parts texts := by
  induction texts with
  | nil => exact iff_of_true ⟨false, rfl⟩ trivial
  | cons text texts ih =>
    unfold coveredBy PrefixesRead
    rw [← ih]
    simp only [bind_eq_ok]
    constructor
    · rintro ⟨covered, place, hplace, h⟩
      refine ⟨place, hplace, ?_⟩
      split_ifs at h with hcovers
      · exact Or.inl hcovers
      · exact Or.inr ⟨covered, h⟩
    · rintro ⟨place, hplace, h⟩
      by_cases hcovers : place.isPrefixOf parts = true
      · exact ⟨true, place, hplace, if_pos hcovers⟩
      · obtain ⟨covered, hcovered⟩ := h.resolve_left hcovers
        exact ⟨covered, place, hplace, (if_neg hcovers).trans hcovered⟩

theorem scansPlacement_returns {record : ManagerRecord} :
    (∃ scanned, scansPlacement record (PyStr.join "/" r.placement) = .ok scanned)
      ↔ PrefixesRead r.placement record.placementPrefixes := by
  rw [← coveredBy_returns]
  unfold scansPlacement placementCovered
  rw [r.normalized]
  split_ifs with hempty
  · rw [hempty]
    exact iff_of_true ⟨true, rfl⟩ ⟨false, rfl⟩
  · exact Iff.rfl

theorem runnerRefusal_published {runner : RunnerReference} :
    runnerRefusal m.published runner = none ↔ m.Reaches runner := by
  cases runner with
  | kept => exact iff_of_true rfl trivial
  | package name =>
    show (if runnerModuleAllowed name m.runnerModules = true then none else some _) = none
      ↔ runnerModuleAllowed name m.runnerModules = true
    split_ifs with hallowed
    · exact iff_of_true rfl hallowed
    · exact iff_of_false id hallowed
  | installed path =>
    show (if m.runnerSearchPaths = [] then some _ else none) = none ↔ m.runnerSearchPaths ≠ []
    split_ifs with hempty
    · exact iff_of_false id (not_not.mpr hempty)
    · exact iff_of_true rfl hempty

theorem owns_iff {uid : Int} : r.owns uid = some true
    ↔ r.marker = .found .regular uid ∧ r.payload = .found .directory uid ∧ r.jobFile = .found .regular uid := by
  unfold ReadySite.owns
  cases r.marker with
  | missing => simp
  | failed e => simp
  | found kind owner =>
    by_cases hmarker : kind = .regular ∧ owner = uid
    · obtain ⟨rfl, rfl⟩ := hmarker
      cases r.payload with
      | missing => simp
      | failed e => simp
      | found payloadKind payloadUid =>
        by_cases hpayload : payloadKind = .directory
        · cases r.jobFile with
          | missing => simp [hpayload]
          | failed e => simp [hpayload]
          | found jobKind jobUid =>
            by_cases hjob : jobKind = .regular <;> simp [hpayload, hjob]
        · simp [hpayload]
    · refine iff_of_false (fun h => ?_) fun h => hmarker (Lstat.found.inj h.1)
      simp only at h
      split_ifs at h with hkind howner
      · cases h
      · cases h
      · exact hmarker ⟨not_not.mp hkind, not_not.mp howner⟩

theorem coveredBy_published {parts : List PyStr} {places : List (List PyStr)}
    (h : ∀ place ∈ places, normalizePlacement (PyStr.join "/" place) = .ok place) :
    coveredBy parts (places.map (PyStr.join "/")) = .ok (places.any fun place => place.isPrefixOf parts) := by
  induction places with
  | nil => rfl
  | cons place places ih =>
    obtain ⟨hplace, hplaces⟩ := List.forall_mem_cons.mp h
    rw [List.map_cons, coveredBy, hplace, List.any_cons]
    show (if place.isPrefixOf parts = true then _ else _) = _
    rw [ih hplaces]
    cases place.isPrefixOf parts <;> rfl

theorem scansPlacement_published (m : LiveManager) (r : ReadySite) :
    scansPlacement m.published (PyStr.join "/" r.placement) = .ok (m.scans r.placement) := by
  unfold scansPlacement placementCovered LiveManager.scans LiveManager.published
  rw [r.normalized]
  cases hplaces : m.placementPrefixes with
  | nil => rfl
  | cons place places => exact coveredBy_published (hplaces ▸ m.normalized)

theorem ownerReasons_published {ownerUid : Option Int} (hmarker : r.ownerUid = .ok ownerUid) :
    ownerReasons m.published ownerUid = [] ↔ ∀ kind uid, r.marker = .found kind uid → m.uid = uid := by
  unfold ReadySite.ownerUid at hmarker
  cases hfound : r.marker with
  | missing =>
    rw [hfound] at hmarker
    obtain rfl := Except.ok.inj hmarker
    exact iff_of_true rfl fun _ _ h => (by cases h)
  | failed e =>
    rw [hfound] at hmarker
    cases hmarker
  | found kind uid =>
    rw [hfound] at hmarker
    obtain rfl := Except.ok.inj hmarker
    show reasonUnless (m.uid = uid) _ = [] ↔ _
    rw [reasonUnless_eq_nil]
    refine ⟨fun h kind' uid' heq => ?_, fun h => h kind uid rfl⟩
    obtain ⟨-, rfl⟩ := Lstat.found.inj heq
    exact h

theorem managerRefusals_published {ownerUid : Option Int} (hmarker : r.ownerUid = .ok ownerUid) :
    managerRefusals m.published job (PyStr.join "/" r.placement) ownerUid = .ok []
      ↔ Suits m job r ∧ m.Reaches job.runner := by
  have hmissing : job.job.requiredCapabilities.filter (· ∉ m.published.capabilities) = []
      ↔ job.job.requiredCapabilities ⊆ m.capabilities := by
    refine List.filter_eq_nil_iff.trans (forall₂_congr fun name _ => ?_)
    rw [decide_eq_true_iff, not_not]
    exact Iff.rfl
  unfold managerRefusals
  rw [scansPlacement_published]
  show Except.ok _ = Except.ok _ ↔ _
  simp only [Except.ok.injEq, List.append_eq_nil_iff, reasonUnless_eq_nil, hmissing, ownerReasons_published hmarker,
    Option.toList_eq_nil_iff, runnerRefusal_published]
  constructor
  · rintro ⟨⟨⟨⟨⟨howner, hexecutor⟩, hpool⟩, hcapabilities⟩, hscanned⟩, hrunner⟩
    exact ⟨⟨hexecutor, hpool, hcapabilities, hscanned, howner⟩, hrunner⟩
  · rintro ⟨hsuits, hrunner⟩
    exact ⟨⟨⟨⟨⟨hsuits.owner, hsuits.executor⟩, hsuits.pool⟩, hsuits.capabilities⟩, hsuits.scanned⟩, hrunner⟩

theorem offers_iff (hlive : m.published ∈ live) :
    Offers live r m.published ↔ ∃ job, r.loaded = some job ∧ Suits m job r ∧ Explained live m job r := by
  unfold Offers explainReady
  simp only [bind_eq_ok]
  constructor
  · rintro ⟨checks, ⟨ownerUid, hmarker, h⟩, hlisted⟩
    cases hloaded : r.loaded with
    | none =>
      rw [hloaded] at h
      obtain rfl := Except.ok.inj h
      cases hlisted
    | some job =>
      rw [hloaded] at h
      obtain ⟨record, hrecord, hcheck⟩ := (mem_of_mapM_ok h).mp hlisted
      obtain ⟨reasons, hreasons, hpair⟩ := bind_eq_ok.mp hcheck
      obtain ⟨rfl, rfl⟩ := Prod.mk.inj (Except.ok.inj hpair)
      obtain ⟨hsuits, hrunner⟩ := (managerRefusals_published hmarker).mp hreasons
      refine ⟨job, rfl, hsuits, fun e hfailed => ?_, fun record hrecord => ?_, hrunner⟩
      · unfold ReadySite.ownerUid at hmarker
        rw [hfailed] at hmarker
        cases hmarker
      · obtain ⟨check, hcheck⟩ := mapM_returns.mp ⟨checks, h⟩ record hrecord
        obtain ⟨reasons, hreasons, -⟩ := bind_eq_ok.mp hcheck
        obtain ⟨scanned, hscanned, -⟩ := bind_eq_ok.mp hreasons
        exact scansPlacement_returns.mp ⟨scanned, hscanned⟩
  · rintro ⟨job, hloaded, hsuits, hexplained⟩
    have hmarker : ∃ ownerUid, r.ownerUid = .ok ownerUid := by
      unfold ReadySite.ownerUid
      cases hfound : r.marker with
      | missing => exact ⟨_, rfl⟩
      | failed e => exact absurd hfound (hexplained.marker e)
      | found kind uid => exact ⟨_, rfl⟩
    obtain ⟨ownerUid, hmarker⟩ := hmarker
    have hreturns : ∃ checks, managerChecks live job (PyStr.join "/" r.placement) ownerUid = .ok checks := by
      refine mapM_returns.mpr fun record hrecord => ?_
      obtain ⟨scanned, hscanned⟩ := scansPlacement_returns.mpr (hexplained.records record hrecord)
      exact ⟨_, bind_eq_ok.mpr ⟨_, bind_eq_ok.mpr ⟨scanned, hscanned, rfl⟩, rfl⟩⟩
    obtain ⟨checks, hchecks⟩ := hreturns
    refine ⟨checks, ⟨ownerUid, hmarker, ?_⟩, (mem_of_mapM_ok hchecks).mpr ⟨m.published, hlive, ?_⟩⟩
    · rw [hloaded]
      exact hchecks
    · exact bind_eq_ok.mpr ⟨[], (managerRefusals_published hmarker).mpr ⟨hsuits, hexplained.runner⟩, rfl⟩

variable {frame : StateFrame}

theorem claimed_iff : (claimMove env job.job frame claimer).kind = .claimed ↔ frame.has .pauseRequested = false
      ∧ attemptBudgetFailure job.job (frame.attemptOrdinal.getD 0 + 1) (frame.totalAttempts.getD 0 + 1) = none := by
  unfold claimMove
  cases frame.has .pauseRequested with
  | true => simp
  | false =>
    simp only [Bool.false_eq_true, if_false, true_and]
    generalize attemptBudgetFailure job.job (frame.attemptOrdinal.getD 0 + 1) (frame.totalAttempts.getD 0 + 1) = failed
    cases failed <;> simp

theorem eligibleReady_isSome {manager : ManagerProfile} :
    (∃ requirement, eligibleReady manager job.job job.needs frame = some requirement) ↔
      job.needs.runnerExecutor ∈ manager.executors ∧ (manager.acceptAnyPool = true ∨ job.job.claimPool ∈ manager.pools)
        ∧ job.job.requiredCapabilities ⊆ manager.capabilities
        ∧ ∃ requirement, effectiveRequirement job.needs frame manager.capacity = .ok requirement
          ∧ unfitResource requirement manager.capacity = none := by
  unfold eligibleReady
  by_cases hexecutor : job.needs.runnerExecutor ∈ manager.executors
  · by_cases hpool : manager.acceptAnyPool = true ∨ job.job.claimPool ∈ manager.pools
    · have hpool' : ¬ (manager.acceptAnyPool = false ∧ job.job.claimPool ∉ manager.pools) := by
        rintro ⟨hany, hnot⟩
        rcases hpool with hpool | hpool
        · rw [hany] at hpool
          cases hpool
        · exact hnot hpool
      by_cases hcapabilities : job.job.requiredCapabilities ⊆ manager.capabilities
      · cases effectiveRequirement job.needs frame manager.capacity with
        | error e => simp [hexecutor, hpool', hcapabilities]
        | ok requirement =>
          cases hunfit : unfitResource requirement manager.capacity <;>
            simp [hexecutor, hpool, hpool', hcapabilities, hunfit]
      · simp [hexecutor, hpool', hcapabilities]
    · have hpool' : manager.acceptAnyPool = false ∧ job.job.claimPool ∉ manager.pools :=
        ⟨Bool.eq_false_of_not_eq_true fun h => hpool (Or.inl h), fun h => hpool (Or.inr h)⟩
      simp [hexecutor, hpool']
  · simp [hexecutor]

theorem claims_iff : m.claims env claimer r = true ↔ ∃ job, r.loaded = some job ∧ Suits m job r ∧ Admits m job r := by
  unfold LiveManager.claims
  simp only [Bool.and_eq_true, Bool.not_eq_true', beq_iff_eq]
  constructor
  · rintro ⟨⟨⟨⟨hdraining, hpaused⟩, hscanned⟩, howned⟩, h⟩
    split at h
    · next job frame hloaded hframe =>
      split at h
      · next requirement heligible =>
        obtain ⟨hpause, hbudget⟩ := claimed_iff.mp (eq_of_beq h)
        obtain ⟨hexecutor, hpool, hcapabilities, hfits⟩ := eligibleReady_isSome.mp ⟨requirement, heligible⟩
        obtain ⟨hmarker, hpayload, hjobFile⟩ := owns_iff.mp howned
        refine ⟨job, hloaded, ⟨hexecutor, hpool, hcapabilities, hscanned, fun kind uid hfound => ?_⟩,
          hdraining, hpaused, hmarker, hpayload, hjobFile, frame, hframe, hpause, hbudget, hfits⟩
        exact (Lstat.found.inj (hmarker.symm.trans hfound)).2
      · cases h
    · cases h
  · rintro ⟨job, hloaded, hsuits, hadmits⟩
    obtain ⟨frame, hframe, hpause, hbudget, hfits⟩ := hadmits.frame
    obtain ⟨requirement, heligible⟩ := eligibleReady_isSome.mpr
      ⟨hsuits.executor, hsuits.pool, hsuits.capabilities, hfits⟩
    refine ⟨⟨⟨⟨hadmits.draining, hadmits.paused⟩, hsuits.scanned⟩,
      owns_iff.mpr ⟨hadmits.marker, hadmits.payload, hadmits.jobFile⟩⟩, ?_⟩
    rw [hloaded, hframe]
    simp only [heligible]
    exact beq_iff_eq.mpr (claimed_iff.mpr ⟨hpause, hbudget⟩)

end Ready

/-! ## The diagnosis of a waiting job -/

/-- **What is observed of a child.** -/
structure JoinObservation where
  label : Option PyStr
  jobId : Option PyStr
  jobKey : Option PyStr
  placement : Option PyStr
  kind : Option StateKind
  terminal : Option Bool
  error : Option Message

section Waiting

variable (env : JoinEnv) (world : JoinWorld)

-- what the diagnosis has in its index, and what it finds by an id
variable (memory : PyStr → List PyStr → Option ChildMarker) (findMarkerById : PyStr → Except Exc (Option ChildMarker))

/-- The child of a reference, at its hint or else by its id. -/
def findChild (reference : List (PyStr × Json)) : Except Exc (Option ChildMarker) := do
  let placed ← match optionalString (Json.get reference "placement_hint"),
      optionalString (Json.get reference "job_key") with
    | some hint, some jobKey =>
      normalizePlacement hint >>= findMarkerAt env { world with indexed := memory } jobKey
    | _, _ => .ok none
  match placed, optionalString (Json.get reference "job_id") with
  | none, some jobId => findMarkerById jobId
  | _, _ => .ok placed

/-- One child, as **`observe_join`** observes it. -/
def observeJoinChild : Json → Except Exc JoinObservation
  | .obj reference =>
    let label := optionalString (Json.get reference "label")
    let jobId := optionalString (Json.get reference "job_id")
    let jobKey := optionalString (Json.get reference "job_key")
    match findChild env world memory findMarkerById reference with
    | .ok none => .ok ⟨label, jobId, jobKey, none, none, none, none⟩
    | .ok (some marker) => .ok ⟨label, jobId, some marker.jobKey, some marker.placement, some marker.kind,
        some marker.kind.isTerminal, none⟩
    | .error e =>
      if e.cls.isWorkflowError = true ∨ e.cls.isOSError = true then
        .ok ⟨label, jobId, jobKey, none, none, none, some e.message⟩
      else .error e
  | _ => .ok ⟨none, none, none, none, none, none, some [.lit "child reference is not an object"]⟩

def observeJoin (join : List (PyStr × Json)) : Except Exc (List JoinObservation) :=
  match Json.get join "children" with
  | some (.arr children) => children.mapM (observeJoinChild env world memory findMarkerById)
  | _ => .ok []

/-- **The children are reported resolvable**: there are some, and each has a kind. -/
def ReportsResolvable (join : List (PyStr × Json)) : Prop :=
  ∃ observations, observeJoin env world memory findMarkerById join = .ok observations ∧ observations ≠ []
    ∧ ∀ o ∈ observations, o.kind ≠ none

/-- **The manager resolves them all.** -/
def ResolvesAll (join : List (PyStr × Json)) : Prop :=
  ∃ children observed, joinChildren join = .ok children ∧ observeChildren env world children = .ok (observed, none)

/-- **What lies at a placement under a key**: what the sweep of its state directories finds. -/
def swept (jobKey : PyStr) (placement : List PyStr) : Except Exc (Option ChildMarker) :=
  findMarkerAt env { world with indexed := fun _ _ => none } jobKey placement

/-- **A child the manager finds**: its reference is valid, and at the hint there is a marker with its id. -/
def AtHint (child : Json) : Prop :=
  ∃ reference jobId label hint jobKey placement marker, child = .obj reference
    ∧ canonicalUuid env.uuid (Json.get reference "job_id") "join child job_id" = .ok jobId
    ∧ referenceLabel reference = .ok label
    ∧ Json.get reference "placement_hint" = some (.str hint) ∧ Json.get reference "job_key" = some (.str jobKey)
    ∧ normalizePlacement hint = .ok placement ∧ swept env world jobKey placement = .ok (some marker)
    ∧ marker.jobId = jobId

/-- A child the diagnosis finds, at its hint or by its id. -/
def Found (child : Json) : Prop :=
  ∃ reference marker, child = .obj reference ∧ findChild env world memory findMarkerById reference = .ok (some marker)

def NothingAtHint (reference : List (PyStr × Json)) : Prop :=
  ∀ hint jobKey, optionalString (Json.get reference "placement_hint") = some hint →
    optionalString (Json.get reference "job_key") = some jobKey →
    ∃ placement, normalizePlacement hint = .ok placement ∧ swept env world jobKey placement = .ok none

/-- **A child that is lost**: it is no object, its hint is no placement or the sweep of that placement raises, or nothing
lies there and its id, if it has one, leads to no marker either. -/
inductive Lost (child : Json) : Prop where
  | malformed (h : ∀ reference, child ≠ .obj reference)
  | misplaced {reference : List (PyStr × Json)} {hint jobKey : PyStr} (hchild : child = .obj reference)
      (hhint : optionalString (Json.get reference "placement_hint") = some hint)
      (hkey : optionalString (Json.get reference "job_key") = some jobKey)
      (h : ∀ placement, normalizePlacement hint ≠ .ok placement)
  | corrupt {reference : List (PyStr × Json)} {hint jobKey : PyStr} {placement : List PyStr}
      (hchild : child = .obj reference) (hhint : optionalString (Json.get reference "placement_hint") = some hint)
      (hkey : optionalString (Json.get reference "job_key") = some jobKey)
      (hplacement : normalizePlacement hint = .ok placement) (h : ∀ found, swept env world jobKey placement ≠ .ok found)
  | unknown {reference : List (PyStr × Json)} (hchild : child = .obj reference) (hhint : NothingAtHint env world reference)
      (h : ∀ jobId marker, optionalString (Json.get reference "job_id") = some jobId →
        findMarkerById jobId ≠ .ok (some marker))

/-- **A static workspace**: what an index confirms is what a sweep finds, for the manager and for the diagnosis, and
no marker has an empty key. -/
structure StaticJoin : Prop where
  indexed : ∀ jobKey placement marker, world.indexed jobKey placement = some marker →
    findMarkerAt env { world with indexed := fun _ _ => none } jobKey placement = .ok (some marker)
  memory : ∀ jobKey placement marker, memory jobKey placement = some marker →
    findMarkerAt env { world with indexed := fun _ _ => none } jobKey placement = .ok (some marker)
  keyed : ∀ placement marker,
    findMarkerAt env { world with indexed := fun _ _ => none } ⟨[]⟩ placement ≠ .ok (some marker)

variable {env world memory findMarkerById} {join : List (PyStr × Json)} {child : Json} {children : List Json}

theorem findMarkerAt_indexed {index : PyStr → List PyStr → Option ChildMarker}
    (h : ∀ jobKey placement marker, index jobKey placement = some marker →
      findMarkerAt env { world with indexed := fun _ _ => none } jobKey placement = .ok (some marker))
    (jobKey : PyStr) (placement : List PyStr) :
    findMarkerAt env { world with indexed := index } jobKey placement
      = findMarkerAt env { world with indexed := fun _ _ => none } jobKey placement := by
  cases hindex : index jobKey placement with
  | none =>
    unfold findMarkerAt
    simp only [hindex]
  | some marker =>
    rw [h jobKey placement marker hindex]
    unfold findMarkerAt
    simp only [hindex]

theorem findMarkerAt_memory (h : StaticJoin env world memory) (jobKey : PyStr) (placement : List PyStr) :
    findMarkerAt env { world with indexed := memory } jobKey placement = swept env world jobKey placement :=
  findMarkerAt_indexed h.memory jobKey placement

theorem findMarkerAt_swept (h : StaticJoin env world memory) (jobKey : PyStr) (placement : List PyStr) :
    findMarkerAt env world jobKey placement = swept env world jobKey placement :=
  findMarkerAt_indexed h.indexed jobKey placement

/-- **The lookup of the diagnosis** at the hint. -/
theorem findChild_hint (hstatic : StaticJoin env world memory) {reference : List (PyStr × Json)} {hint jobKey : PyStr}
    (hhint : optionalString (Json.get reference "placement_hint") = some hint)
    (hkey : optionalString (Json.get reference "job_key") = some jobKey) :
    findChild env world memory findMarkerById reference = (normalizePlacement hint >>= swept env world jobKey) >>=
      fun placed => match placed, optionalString (Json.get reference "job_id") with
        | none, some jobId => findMarkerById jobId
        | _, _ => .ok placed := by
  have hsweep : findMarkerAt env { world with indexed := memory } jobKey = swept env world jobKey :=
    funext (findMarkerAt_memory hstatic jobKey)
  unfold findChild
  simp only [hhint, hkey, hsweep]

theorem found_of_atHint (hstatic : StaticJoin env world memory) (h : AtHint env world child) :
    Found env world memory findMarkerById child := by
  obtain ⟨reference, jobId, label, hint, jobKey, placement, marker, rfl, -, -, hhint, hkey, hplacement, hfound, -⟩ := h
  have hhint' : optionalString (Json.get reference "placement_hint") = some hint := by
    rw [hhint]
    refine if_neg fun hempty => ?_
    obtain rfl : hint = ⟨[]⟩ := congrArg PyStr.mk hempty
    cases hplacement
  have hkey' : optionalString (Json.get reference "job_key") = some jobKey := by
    rw [hkey]
    refine if_neg fun hempty => ?_
    obtain rfl : jobKey = ⟨[]⟩ := congrArg PyStr.mk hempty
    exact hstatic.keyed placement marker hfound
  refine ⟨reference, marker, rfl, ?_⟩
  rw [findChild_hint hstatic hhint' hkey', hplacement]
  show (swept env world jobKey placement >>= _) = _
  rw [hfound]
  rfl

/-- **The lookup by the id**, where nothing lies at the hint. -/
theorem findChild_nothing (hstatic : StaticJoin env world memory) {reference : List (PyStr × Json)}
    (h : NothingAtHint env world reference) : findChild env world memory findMarkerById reference
      = (optionalString (Json.get reference "job_id")).elim (.ok none) findMarkerById := by
  cases hhint : optionalString (Json.get reference "placement_hint") with
  | none =>
    unfold findChild
    simp only [hhint]
    show (Except.ok none >>= _) = _
    cases hid : optionalString (Json.get reference "job_id") <;> rfl
  | some hint =>
    cases hkey : optionalString (Json.get reference "job_key") with
    | none =>
      unfold findChild
      simp only [hhint, hkey]
      show (Except.ok none >>= _) = _
      cases hid : optionalString (Json.get reference "job_id") <;> rfl
    | some jobKey =>
      obtain ⟨placement, hplacement, hnone⟩ := h hint jobKey hhint hkey
      rw [findChild_hint hstatic hhint hkey, hplacement]
      show (swept env world jobKey placement >>= _) = _
      rw [hnone]
      cases hid : optionalString (Json.get reference "job_id") <;> rfl

/-- **What the diagnosis does not find** is lost. -/
theorem not_found_iff (hstatic : StaticJoin env world memory) :
    ¬Found env world memory findMarkerById child ↔ Lost env world findMarkerById child := by
  constructor
  · intro hnot
    by_cases hobject : ∃ reference, child = .obj reference
    · obtain ⟨reference, rfl⟩ := hobject
      by_cases hnothing : NothingAtHint env world reference
      · refine .unknown rfl hnothing fun jobId marker hid hfound => hnot ⟨reference, marker, rfl, ?_⟩
        rw [findChild_nothing hstatic hnothing, hid]
        exact hfound
      · unfold NothingAtHint at hnothing
        push Not at hnothing
        obtain ⟨hint, jobKey, hhint, hkey, hplaced⟩ := hnothing
        cases hplacement : normalizePlacement hint with
        | error e => exact .misplaced rfl hhint hkey fun placement h => by cases hplacement.symm.trans h
        | ok placement =>
          cases hswept : swept env world jobKey placement with
          | error e => exact .corrupt rfl hhint hkey hplacement fun found h => by cases hswept.symm.trans h
          | ok found =>
            cases found with
            | none => exact absurd hswept (hplaced placement hplacement)
            | some marker =>
              refine absurd ⟨reference, marker, rfl, ?_⟩ hnot
              rw [findChild_hint hstatic hhint hkey, hplacement]
              show (swept env world jobKey placement >>= _) = _
              rw [hswept]
              rfl
    · exact .malformed fun reference h => hobject ⟨reference, h⟩
  · rintro hlost ⟨reference, marker, hchild, hfound⟩
    cases hlost with
    | malformed h => exact h _ hchild
    | misplaced hchild' hhint hkey h =>
      obtain rfl := Json.obj.inj (hchild'.symm.trans hchild)
      rw [findChild_hint hstatic hhint hkey] at hfound
      obtain ⟨placed, hplaced, -⟩ := bind_eq_ok.mp hfound
      obtain ⟨placement, hplacement, -⟩ := bind_eq_ok.mp hplaced
      exact h placement hplacement
    | corrupt hchild' hhint hkey hplacement h =>
      obtain rfl := Json.obj.inj (hchild'.symm.trans hchild)
      rw [findChild_hint hstatic hhint hkey, hplacement] at hfound
      obtain ⟨placed, hplaced, -⟩ := bind_eq_ok.mp hfound
      exact h placed hplaced
    | @unknown reference' hchild' hhint h =>
      obtain rfl := Json.obj.inj (hchild.symm.trans hchild')
      rw [findChild_nothing hstatic hhint] at hfound
      cases hid : optionalString (Json.get reference "job_id") with
      | none =>
        rw [hid] at hfound
        cases hfound
      | some jobId =>
        rw [hid] at hfound
        exact h jobId marker hid hfound

theorem observeJoinChild_kind : (∃ o, observeJoinChild env world memory findMarkerById child = .ok o ∧ o.kind ≠ none)
      ↔ Found env world memory findMarkerById child := by
  unfold Found observeJoinChild
  cases child with
  | obj reference =>
    simp only [Json.obj.injEq, exists_and_left, exists_eq_left']
    cases findChild env world memory findMarkerById reference with
    | ok found => cases found <;> simp
    | error e =>
      simp only
      split_ifs <;> simp
  | null | bool _ | int _ | float _ | str _ | arr _ => simp

theorem joinChildren_eq_ok : joinChildren join = .ok children
    ↔ Json.get join "children" = some (.arr children) ∧ children ≠ [] := by
  unfold joinChildren
  split
  · next child rest hget =>
    rw [hget, Except.ok.injEq, Option.some.injEq, Json.arr.injEq]
    exact ⟨fun h => ⟨h, h ▸ List.cons_ne_nil _ _⟩, fun h => h.1⟩
  · next hother =>
    refine iff_of_false (fun h => by cases h) fun ⟨hget, hne⟩ => ?_
    obtain ⟨child, rest, rfl⟩ := List.exists_cons_of_ne_nil hne
    exact hother child rest hget

theorem reportsResolvable_iff : ReportsResolvable env world memory findMarkerById join
    ↔ ∃ children, joinChildren join = .ok children
      ∧ ∀ child ∈ children, Found env world memory findMarkerById child := by
  unfold ReportsResolvable observeJoin
  simp only [joinChildren_eq_ok]
  constructor
  · rintro ⟨observations, h, hne, hkinds⟩
    split at h
    · next children hget =>
      refine ⟨children, ⟨hget, fun hnil => ?_⟩, fun child hchild => ?_⟩
      · subst hnil
        exact hne (Except.ok.inj h).symm
      · obtain ⟨o, ho⟩ := mapM_returns.mp ⟨observations, h⟩ child hchild
        exact observeJoinChild_kind.mp ⟨o, ho, hkinds o ((mem_of_mapM_ok h).mpr ⟨child, hchild, ho⟩)⟩
    · exact absurd (Except.ok.inj h).symm hne
  · rintro ⟨children, ⟨hget, hne⟩, hfound⟩
    rw [hget]
    have hreturns : ∃ observations,
        children.mapM (observeJoinChild env world memory findMarkerById) = .ok observations := by
      refine mapM_returns.mpr fun child hchild => ?_
      obtain ⟨o, ho, -⟩ := observeJoinChild_kind.mpr (hfound child hchild)
      exact ⟨o, ho⟩
    obtain ⟨observations, h⟩ := hreturns
    refine ⟨observations, h, fun hnil => ?_, fun o ho => ?_⟩
    · obtain ⟨child, hchild⟩ := List.exists_mem_of_ne_nil children hne
      obtain ⟨o, ho, -⟩ := observeJoinChild_kind.mpr (hfound child hchild)
      have hmem := (mem_of_mapM_ok h).mpr ⟨child, hchild, ho⟩
      rw [hnil] at hmem
      cases hmem
    · obtain ⟨child, hchild, hchildo⟩ := (mem_of_mapM_ok h).mp ho
      obtain ⟨o', ho', hkind⟩ := observeJoinChild_kind.mpr (hfound child hchild)
      obtain rfl := Except.ok.inj (hchildo.symm.trans ho')
      exact hkind

theorem observeChild_atHint (hstatic : StaticJoin env world memory) :
    (∃ jobId observation, observeChild env world child = .ok (jobId, some observation)) ↔ AtHint env world child := by
  unfold AtHint observeChild
  simp only [bind_eq_ok]
  constructor
  · rintro ⟨jobId, observation, reference, hreference, childId, hid, label, hlabel, h⟩
    cases child with
    | obj members =>
      obtain rfl := Except.ok.inj hreference
      split at h
      · next hint jobKey hhint hkey =>
        obtain ⟨placement, hplacement, h⟩ := bind_eq_ok.mp h
        obtain ⟨found, hfound, h⟩ := bind_eq_ok.mp h
        cases found with
        | none => cases h
        | some marker =>
          simp only at h
          split_ifs at h with hidentity
          · cases h
          · exact ⟨members, childId, label, hint, jobKey, placement, marker, rfl, hid, hlabel, hhint, hkey, hplacement,
              (findMarkerAt_swept hstatic jobKey placement).symm.trans hfound, not_not.mp hidentity⟩
      · cases h
    | null | bool _ | int _ | float _ | str _ | arr _ => cases hreference
  · rintro ⟨reference, jobId, label, hint, jobKey, placement, marker, rfl, hid, hlabel, hhint, hkey, hplacement, hfound,
      rfl⟩
    refine ⟨marker.jobId, (marker.kind, marker.observation world marker.jobId label), reference, rfl, marker.jobId, hid,
      label, hlabel, ?_⟩
    rw [hhint, hkey]
    refine bind_eq_ok.mpr ⟨placement, hplacement, bind_eq_ok.mpr ⟨some marker, ?_, ?_⟩⟩
    · exact (findMarkerAt_swept hstatic jobKey placement).trans hfound
    exact if_neg (not_not.mpr rfl)

theorem observeChildren_resolved (hstatic : StaticJoin env world memory) : (∃ observed, observeChildren env world children = .ok (observed, none))
    ↔ ∀ child ∈ children, AtHint env world child := by
  induction children with
  | nil => exact iff_of_true ⟨[], rfl⟩ (List.forall_mem_nil _)
  | cons child children ih =>
    rw [List.forall_mem_cons, ← ih, ← observeChild_atHint hstatic]
    simp only [observeChildren, bind_eq_ok]
    constructor
    · rintro ⟨observed, ⟨jobId, found⟩, hchild, h⟩
      cases found with
      | none => cases h
      | some observation =>
        obtain ⟨⟨rest, unresolved⟩, hrest, h⟩ := bind_eq_ok.mp h
        obtain ⟨-, rfl⟩ := Prod.mk.inj (Except.ok.inj h)
        exact ⟨⟨jobId, observation, hchild⟩, rest, hrest⟩
    · rintro ⟨⟨jobId, observation, hchild⟩, rest, hrest⟩
      exact ⟨observation :: rest, (jobId, some observation), hchild, bind_eq_ok.mpr ⟨(rest, none), hrest, rfl⟩⟩

end Waiting

def managerOf (processors : ℕ) : LiveManager :=
  { plainManager with
    capacity :=
      { resources := [("procs", processors)]
        maximumWorkers := 1
        positive := Nat.one_pos
        valid := fun e he => by
          rw [List.mem_singleton.mp he]
          exact ⟨show isLabel "procs" = true by decide, Int.natCast_nonneg processors⟩ }
    managerId := "m1"
    uid := 7
    placementPrefixes := []
    runnerModules := ["httk.workflow"]
    runnerSearchPaths := []
    draining := false
    normalized := fun _ h => absurd h List.not_mem_nil }

def readyForThree : ReadySite where
  placement := ["a"]
  normalized := normalizePlacement_join (by decide) (by decide) rfl
  marker := .found .regular 7
  payload := .found .directory 7
  jobFile := .found .regular 7
  loaded := some ⟨plainJob, threeProcessors, .kept⟩
  frame := some (registered plainJob "a1")
  paused := false

def childMarker : ChildMarker := ⟨"child", "child", "a", .running, 3, "r", "a/child", []⟩

def childWorld : JoinWorld where
  workspaceId := "w"
  indexed := fun _ _ => none
  hasDirectory := fun _ => true
  sweep := fun jobKey placement => .ok (if jobKey = "child" ∧ placement = ["a"] then some childMarker else none)
  now := 0
  utcNow := "0"
  joinGraceSeconds := 3600
  freshId := "e"
  reread := none
  moves := .ok ⟨⟩
  records := .ok ⟨⟩

def joinOf (hint : PyStr) : List (PyStr × Json) :=
  [("children", .arr [.obj [("job_id", .str "child"), ("job_key", .str "child"), ("placement_hint", .str hint)]])]
