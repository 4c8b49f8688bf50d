import HttkWorkflow.FrameStorage

/-!
# The join of a waiting job

A `wait` outcome leaves the job waiting for its children with a join, which
is stored as the runner wrote it. Every pass over the waiting job looks the
children up at their placement hints, evaluates the condition over their
state kinds, and moves the job on, or fails it, or leaves it waiting. All of
that is translated from `_manager_joins.py`.

The members of the join are read where they are used. `int` is applied to
whatever `count` is, and the `job_key` of a reference becomes a pattern of
`glob`, and both refuse with exceptions the pass does not handle
(`JoinServed`).
-/

/-! ## The number of a value -/

/-- The zeros of the decimal digits, each followed by the other nine. -/
def digitZeros : List Nat :=
  [0x30, 0x660, 0x6F0, 0x7C0, 0x966, 0x9E6, 0xA66, 0xAE6, 0xB66, 0xBE6, 0xC66, 0xCE6, 0xD66, 0xDE6,
    0xE50, 0xED0, 0xF20, 0x1040, 0x1090, 0x17E0, 0x1810, 0x1946, 0x19D0, 0x1A80, 0x1A90, 0x1B50,
    0x1BB0, 0x1C40, 0x1C50, 0xA620, 0xA8D0, 0xA900, 0xA9D0, 0xA9F0, 0xAA50, 0xABF0, 0xFF10, 0x104A0,
    0x10D30, 0x11066, 0x110F0, 0x11136, 0x111D0, 0x112F0, 0x11450, 0x114D0, 0x11650, 0x116C0,
    0x11730, 0x118E0, 0x11950, 0x11C50, 0x11D50, 0x11DA0, 0x11F50, 0x16A60, 0x16AC0, 0x16B50,
    0x1D7CE, 0x1D7D8, 0x1D7E2, 0x1D7EC, 0x1D7F6, 0x1E140, 0x1E2F0, 0x1E4F0, 0x1E950, 0x1FBF0]

def decimalDigit (c : Nat) : Option Nat :=
  (digitZeros.find? fun first => first ≤ c ∧ c < first + 10).map (c - ·)

/-- The digits of a number, with single underscores between them. -/
def digitsOf : List Nat → Option (List Nat)
  | [] => none
  | c :: rest =>
    match decimalDigit c with
    | none => none
    | some d =>
      match rest with
      | [] => some [d]
      | u :: rest => if u = '_'.toNat then (digitsOf rest).map (d :: ·)
          else (digitsOf (u :: rest)).map (d :: ·)

/-- What `int` strips off a text: the spaces without the four separators of
ASCII. -/
def isIntSpace (c : Nat) : Bool := isSpace c && !(0x1C ≤ c && c ≤ 0x1F)

/-- `int(text)`. -/
def intOfStr (text : PyStr) : Except Exc Int :=
  let body := ((text.codes.dropWhile isIntSpace).reverse.dropWhile isIntSpace).reverse
  let (negative, digits) := match body with
    | c :: rest => if c = '-'.toNat then (true, rest) else if c = '+'.toNat then (false, rest)
        else (false, body)
    | [] => (false, body)
  match digitsOf digits with
  | none => .error ⟨.valueError, [.lit "invalid literal for int() with base 10: ",
      .repr (some (.str text))]⟩
  | some ds =>
    if ds.length > 4300 then
      .error ⟨.valueError, [.lit "Exceeds the limit (4300 digits) for integer string conversion"]⟩
    else
      let n : Nat := ds.foldl (fun n d => 10 * n + d) 0
      .ok (if negative then -(n : Int) else n)

/-- **`int(value)`**, for a JSON value. -/
def intOf : Json → Except Exc Int
  | .int n => .ok n
  | .bool b => .ok (if b then 1 else 0)
  | .float (.finite q) => .ok (q.num.tdiv q.den)
  | .float (.inf _) => .error ⟨.overflow, [.lit "cannot convert float infinity to integer"]⟩
  | .float .nan => .error ⟨.valueError, [.lit "cannot convert float NaN to integer"]⟩
  | .str text => intOfStr text
  | _ => .error ⟨.typeError,
      [.lit "int() argument must be a string, a bytes-like object or a real number"]⟩

/-! ## The condition of a join -/

/-- `children`: a nonempty array. -/
def joinChildren (join : List (PyStr × Json)) : Except Exc (List Json) :=
  match Json.get join "children" with
  | some (.arr (child :: children)) => .ok (child :: children)
  | _ => raiseFormat [.lit "state.join.children must be a nonempty array"]

/-- `int(join.get("count", 0))`. -/
def joinCount (join : List (PyStr × Json)) : Except Exc Int :=
  intOf ((Json.get join "count").getD (.int 0))

/-- `satisfied`. -/
def joinSatisfied (condition : PyStr) (join : List (PyStr × Json)) (kinds : List StateKind) :
    Except Exc Bool :=
  if condition = "all_succeeded" then .ok (kinds.all (· = .succeeded))
  else if condition = "all_terminal" then .ok (kinds.all (·.isTerminal))
  else if condition = "any_succeeded" then .ok (kinds.any (· = .succeeded))
  else if condition = "any_terminal" then .ok (kinds.any (·.isTerminal))
  else if condition = "at_least" then
    (joinCount join).map fun count => decide ((kinds.countP (· = .succeeded) : Int) ≥ count)
  else raiseFormat [.lit "unknown join condition: ", .repr (some (.str condition))]

/-- `impossible`. -/
def joinImpossible (condition : PyStr) (join : List (PyStr × Json)) (kinds : List StateKind) :
    Except Exc Bool :=
  if condition = "all_succeeded" then .ok (kinds.any fun kind => kind = .failed ∨ kind = .cancelled)
  else if condition = "all_terminal" then .ok false
  else if condition = "any_succeeded" then
    .ok (kinds.all (·.isTerminal) && !kinds.any (· = .succeeded))
  else if condition = "any_terminal" then .ok false
  else if condition = "at_least" then
    (joinCount join).map fun count =>
      decide ((kinds.countP (· = .succeeded) + kinds.countP (! ·.isTerminal) : Int) < count)
  else raiseFormat [.lit "unknown join condition: ", .repr (some (.str condition))]

/-- What a join comes to. -/
inductive JoinVerdict where
  | satisfied
  | impossible
  | blocked
deriving DecidableEq, Repr

def classify (condition : PyStr) (join : List (PyStr × Json)) (kinds : List StateKind) :
    Except Exc JoinVerdict := do
  if ← joinSatisfied condition join kinds then .ok .satisfied
  else if ← joinImpossible condition join kinds then .ok .impossible
  else .ok .blocked

/-! ## The children of a join -/

/-- **What evaluating a join takes from the interpreter** besides. -/
structure JoinEnv extends CommitEnv where
  /-- What `glob` raises for a pattern. -/
  globRefusal : PyStr → Option Exc
  /-- `timestamp_seconds`, where that parses. -/
  timestampSeconds : PyStr → Option Rat
  globRefusal_absolute : ∀ pattern : PyStr, pattern.codes.head? = some '/'.toNat →
    ∃ message, globRefusal pattern = some ⟨.notImplemented, message⟩

/-- **The marker of a child**, with what its frame and its job say. -/
structure ChildMarker where
  jobId : PyStr
  jobKey : PyStr
  placement : PyStr
  kind : StateKind
  generation : Int
  recordRef : PyStr
  payloadPath : PyStr
  /-- `child_evidence`. -/
  evidence : List (PyStr × Json)

/-- Whether what is observed of a child can be stored with its parent. -/
structure ChildMarker.Storable (env : JoinEnv) (marker : ChildMarker) : Prop where
  jobKey : marker.jobKey.encodable = true
  placement : marker.placement.encodable = true
  recordRef : marker.recordRef.encodable = true
  payloadPath : marker.payloadPath.encodable = true
  evidence : ∀ e ∈ marker.evidence,
    e.fst.encodable = true ∧ e.snd.storable (env.depth - 2) = true

def StateKind.word : StateKind → PyStr
  | .submitted => "submitted"
  | .ready => "ready"
  | .claimed => "claimed"
  | .running => "running"
  | .committing => "committing"
  | .cancelling => "cancelling"
  | .relocating => "relocating"
  | .transferring => "transferring"
  | .waiting => "waiting"
  | .paused => "paused"
  | .succeeded => "succeeded"
  | .failed => "failed"
  | .cancelled => "cancelled"

/-- **What a join pass finds in the world.** -/
structure JoinWorld where
  workspaceId : PyStr
  /-- The marker the index confirms for a job at a placement. -/
  indexed : PyStr → List PyStr → Option ChildMarker
  /-- Whether a state directory is there for a placement. -/
  hasDirectory : List PyStr → Bool
  /-- What the sweep over the state directories finds. -/
  sweep : PyStr → List PyStr → Except Exc (Option ChildMarker)
  /-- The time, in seconds and as it is stored. -/
  now : Rat
  utcNow : PyStr
  joinGraceSeconds : Rat
  /-- The activation id made up if one is needed. -/
  freshId : PyStr
  reread : Option StateFrame
  /-- What the rename of the marker comes to. -/
  moves : Except Exc PUnit
  /-- What the rename that records a failure comes to. -/
  records : Except Exc PUnit

/-- `find_marker_at`: the index, and then a sweep whose pattern `glob` may
refuse, where there is a directory to sweep. -/
def findMarkerAt (env : JoinEnv) (world : JoinWorld) (jobKey : PyStr) (placement : List PyStr) :
    Except Exc (Option ChildMarker) :=
  match world.indexed jobKey placement with
  | some marker => .ok (some marker)
  | none =>
    if world.hasDirectory placement = false then .ok none
    else
      match env.globRefusal (jobKey ++ ".p???.g*.*") with
      | some e => .error e
      | none => world.sweep jobKey placement

/-- What the frame of the parent keeps of a child. -/
def ChildMarker.observation (world : JoinWorld) (marker : ChildMarker) (childId : PyStr)
    (label : Json) : Json :=
  .obj (("workspace_id", .str world.workspaceId) :: ("job_id", .str childId)
    :: ("job_key", .str marker.jobKey) :: ("label", label) :: ("placement", .str marker.placement)
    :: ("kind", .str marker.kind.word) :: ("state_generation", .int marker.generation)
    :: ("record_ref", .str marker.recordRef) :: ("payload_path", .str marker.payloadPath)
    :: marker.evidence)

def referenceLabel (reference : List (PyStr × Json)) : Except Exc Json :=
  match Json.get reference "label" with
  | none | some .null => .ok .null
  | value => (validateLabel value "join child label").map Json.str

/-- One child of a join: its id, and what is observed of it if it is found. -/
def observeChild (env : JoinEnv) (world : JoinWorld) (child : Json) :
    Except Exc (PyStr × Option (StateKind × Json)) := do
  let reference ← requireMapping (some child) "join child"
  let childId ← canonicalUuid env.uuid (Json.get reference "job_id") "join child job_id"
  let label ← referenceLabel reference
  match Json.get reference "placement_hint", Json.get reference "job_key" with
  | some (.str hint), some (.str jobKey) =>
    let placement ← normalizePlacement hint
    match ← findMarkerAt env world jobKey placement with
    | some marker =>
      if marker.jobId ≠ childId then
        raiseFormat [.lit "join child identity disagrees with placement hint"]
      else .ok (childId, some (marker.kind, marker.observation world childId label))
    | none => .ok (childId, none)
  | _, _ => raiseFormat [.lit "join child reference must carry a job_key and placement_hint"]

/-- `observe_children`: the children up to the first that is not found. -/
def observeChildren (env : JoinEnv) (world : JoinWorld) :
    List Json → Except Exc (List (StateKind × Json) × Option PyStr)
  | [] => .ok ([], none)
  | child :: children => do
    match ← observeChild env world child with
    | (childId, none) => .ok ([], some childId)
    | (_, some observation) =>
      let (observations, unresolved) ← observeChildren env world children
      .ok (observation :: observations, unresolved)

/-! ## The pass over a waiting job -/

/-- `_fail_waiting`: only a lost race is caught. -/
def failWaiting (env : JoinEnv) (world : JoinWorld) (state : StateFrame) (code : PyStr)
    (message : Message) (reason : PyStr) : Except Exc PassResult :=
  match transition env.toCommitEnv world.reread .waiting world.records
      ⟨.failed, state.carried.replace
        [(.failure, failure env.toCommitEnv code message none), (.reason, .str reason)], none⟩ with
  | .ok moved => .ok (.moved moved)
  | .error e => if e.cls = .transitionLost then .ok .lost else .error e

/-- When a child was first found missing, as the frame says. -/
def firstUnresolvedAt (env : JoinEnv) (state : StateFrame) (childId : PyStr) : Option Rat :=
  match state.mapping .joinUnresolved with
  | some recorded =>
    if Json.optEqStr (Json.get recorded "child_id") childId = true then
      match Json.get recorded "first_unresolved_at" with
      | some (.str t) => if t.codes = [] then none else env.timestampSeconds t
      | _ => none
    else none
  | none => none

/-- `_handle_unresolved_join`: the grace for a child that is not found. -/
def handleUnresolvedJoin (env : JoinEnv) (world : JoinWorld) (state : StateFrame) (childId : PyStr) :
    Except Exc PassResult :=
  let firstAt := firstUnresolvedAt env state childId
  if world.now - firstAt.getD world.now ≥ world.joinGraceSeconds then
    failWaiting env world state "dependency_failure"
      [.lit "join child ", .raw childId, .lit " cannot be resolved in this workspace"]
      "join_unresolvable"
  else if firstAt.isSome then .ok .pending
  else
    (transition env.toCommitEnv world.reread .waiting world.moves
      ⟨.waiting, (state.select (carriedStateMembers ++ [.nextStep, .join])).replace
        [(.joinUnresolved, .obj [("child_id", .str childId),
            ("first_unresolved_at", .str world.utcNow)]),
          (.reason, .str "join_child_unresolved")], none⟩).map .moved

def stateResources (state : StateFrame) : Except Exc Json :=
  match state.get .resources with
  | none | some .null => .ok .null
  | value => (validateResources value "state.resources").map Json.obj

/-- The next activation of a job whose join is decided. -/
def joinAdvance (env : JoinEnv) (world : JoinWorld) (job : JobDefinition) (state : StateFrame)
    (nextStep : Option Json) (name reason : String) (observations : List Json) :
    Except Exc Move := do
  let step ← validateStep nextStep name
  let resources ← stateResources state
  advance env.toCommitEnv job state state.carried step world.freshId reason (.arr observations)
    resources none

/-- The step a join asks for if it becomes impossible. -/
def onImpossible (join : List (PyStr × Json)) : Option (Option Json) :=
  match Json.get join "on_impossible" with
  | some (.obj action) =>
    if Json.optEqStr (Json.get action "action") "advance" = true then
      some (Json.get action "next_step")
    else none
  | _ => none

/-- **`evaluate`**: the children observed, the condition decided, and the job
moved accordingly. -/
def evaluate (env : JoinEnv) (world : JoinWorld) (job : JobDefinition) (state : StateFrame) :
    Except Exc PassResult := do
  let join ← requireMapping (state.join.map Json.obj) "state.join"
  let children ← joinChildren join
  let (observed, unresolved) ← observeChildren env world children
  match unresolved with
  | some childId => handleUnresolvedJoin env world state childId
  | none =>
    let condition := ((Json.get join "condition").map env.str).getD ⟨[]⟩
    let observations := observed.map Prod.snd
    match ← classify condition join (observed.map Prod.fst) with
    | .blocked => .ok .pending
    | .satisfied =>
      let move ← joinAdvance env world job state (state.string .nextStep |>.map Json.str) "next_step"
        "join_satisfied" observations
      (transition env.toCommitEnv world.reread .waiting world.moves move).map .moved
    | .impossible =>
      match onImpossible join with
      | some nextStep =>
        let move ← joinAdvance env world job state nextStep "on_impossible.next_step"
          "join_impossible" observations
        (transition env.toCommitEnv world.reread .waiting world.moves move).map .moved
      | none =>
        (transition env.toCommitEnv world.reread .waiting world.moves
          ⟨.failed, state.carried.replace
            [(.failure, failure env.toCommitEnv "dependency_failure"
                [.lit "join condition became impossible"] none),
              (.joinSummary, .arr observations), (.reason, .str "join_impossible")], none⟩).map .moved

/-- **`_evaluate_joins`**, for one waiting job. -/
def evaluateJoins (env : JoinEnv) (world : JoinWorld) (job : JobDefinition) (state : StateFrame) :
    Except Exc PassResult :=
  match evaluate env world job state with
  | .ok result => .ok result
  | .error e =>
    if e.cls = .transitionLost then .ok .lost
    else if e.cls = .formatError then
      failWaiting env world state "protocol_error" (.lit "join is unusable: " :: e.message)
        "protocol_error"
    else if e.cls.isWorkflowError = true ∨ e.cls.isOSError = true then .ok .reported
    else .error e

/-! ## The joins that are served -/

/-- What the parts of a join pass give and raise, apart from the frame. -/
structure JoinWorld.Sound (env : JoinEnv) (world : JoinWorld) : Prop where
  indexed : ∀ jobKey placement marker, world.indexed jobKey placement = some marker →
    marker.Storable env
  sweep : ∀ jobKey placement, Ensures (world.sweep jobKey placement)
    fun found => ∀ marker, found = some marker → marker.Storable env
  workspaceId : world.workspaceId.encodable = true
  utcNow : world.utcNow.encodable = true
  freshId : world.freshId.encodable = true
  reread : ∀ f, world.reread = some f → f.storable env.toCommitEnv
  moves : Ensures world.moves fun _ => True

/-- **`glob` takes the key of a child**, if the pass gets to ask for it. -/
def ChildServed (env : JoinEnv) (world : JoinWorld) (child : Json) : Prop :=
  ∀ reference childId label hint jobKey placement, child = .obj reference →
    canonicalUuid env.uuid (Json.get reference "job_id") "join child job_id" = .ok childId →
    referenceLabel reference = .ok label →
    Json.get reference "placement_hint" = some (.str hint) →
    Json.get reference "job_key" = some (.str jobKey) → normalizePlacement hint = .ok placement →
    world.indexed jobKey placement = none → world.hasDirectory placement = true →
    ∀ e, env.globRefusal (jobKey ++ ".p???.g*.*") = some e → e.Handled

/-- The same for every child up to the first that is not found. -/
def ChildrenServed (env : JoinEnv) (world : JoinWorld) : List Json → Prop
  | [] => True
  | child :: children => ChildServed env world child
      ∧ (∀ childId observation, observeChild env world child = .ok (childId, some observation) →
        ChildrenServed env world children)

/-- **A join that is served**: `glob` takes the keys of its children, and
`int` its count where the condition asks for it. -/
structure JoinServed (env : JoinEnv) (world : JoinWorld) (join : List (PyStr × Json)) : Prop where
  children : ∀ children, joinChildren join = .ok children → ChildrenServed env world children
  count : ∀ children observed, joinChildren join = .ok children →
    observeChildren env world children = .ok (observed, none) →
    (Json.get join "condition").map env.str = some "at_least" → ∃ n, joinCount join = .ok n

section Served

variable {env : JoinEnv} {world : JoinWorld} {job : JobDefinition} {state : StateFrame}
variable {join : List (PyStr × Json)} {condition : PyStr} {kinds : List StateKind}

theorem ensures_joinChildren : Ensures (joinChildren join)
    fun children => joinChildren join = .ok children ∧ Json.get join "children" = some (.arr children) := by
  unfold joinChildren
  split
  · rename_i hchildren
    exact ⟨rfl, hchildren⟩
  · exact ensures_raiseFormat rfl

theorem ensures_classify (hcount : condition = "at_least" → ∃ n, joinCount join = .ok n) :
    Ensures (classify condition join kinds) fun _ => True := by
  have hsatisfied : Ensures (joinSatisfied condition join kinds) fun _ => True := by
    unfold joinSatisfied
    split_ifs with hall hterminal hany hanyTerminal hleast
    all_goals try trivial
    · obtain ⟨n, hn⟩ := hcount hleast
      rw [hn]
      trivial
    · exact ensures_raiseFormat rfl
  have himpossible : Ensures (joinImpossible condition join kinds) fun _ => True := by
    unfold joinImpossible
    split_ifs with hall hterminal hany hanyTerminal hleast
    all_goals try trivial
    · obtain ⟨n, hn⟩ := hcount hleast
      rw [hn]
      trivial
    · exact ensures_raiseFormat rfl
  refine hsatisfied.bind fun yes _ => ?_
  split_ifs
  · trivial
  · refine himpossible.bind fun no _ => ?_
    split_ifs <;> trivial

theorem ensures_referenceLabel {reference : List (PyStr × Json)} (depth : Nat) :
    Ensures (referenceLabel reference) (·.storable depth = true) := by
  unfold referenceLabel
  split
  · rfl
  · rfl
  · exact ensures_validateLabel.map fun t ht => Json.storable_str.mpr ht

theorem ensures_findMarkerAt {jobKey : PyStr} {placement : List PyStr} (hsound : world.Sound env)
    (hglob : world.indexed jobKey placement = none → world.hasDirectory placement = true →
      ∀ e, env.globRefusal (jobKey ++ ".p???.g*.*") = some e → e.Handled) :
    Ensures (findMarkerAt env world jobKey placement)
      fun found => ∀ marker, found = some marker → marker.Storable env := by
  unfold findMarkerAt
  split
  · rename_i marker hindexed
    intro found hfound
    rw [← Option.some.inj hfound]
    exact hsound.indexed jobKey placement marker hindexed
  · rename_i hindexed
    split_ifs with hdirectory
    · exact fun marker h => by cases h
    · split
      · rename_i e hrefusal
        exact hglob hindexed (Bool.not_eq_false _ ▸ hdirectory) e hrefusal
      · exact hsound.sweep jobKey placement

variable {childId : PyStr}

theorem storable_observation {marker : ChildMarker} {label : Json}
    (hsound : world.Sound env) (hmarker : marker.Storable env) (hid : childId.encodable = true)
    (hlabel : label.storable (env.depth - 2) = true) :
    (marker.observation world childId label).storable (env.depth - 1) = true := by
  have hdepth := env.three_le_depth
  have hkind : marker.kind.word.encodable = true := by
    cases marker.kind <;> exact PyStr.encodable_ofString _
  refine Json.storable_obj.mpr ⟨by omega, ?_⟩
  simp only [List.forall_mem_cons, PyStr.encodable_ofString, Json.storable_str, Json.storable_int, true_and]
  exact ⟨hsound.workspaceId, hid, hmarker.jobKey, hlabel, hmarker.placement, hkind,
    hmarker.recordRef, hmarker.payloadPath, hmarker.evidence⟩

theorem ensures_observeChild {child : Json} {depth : Nat} (hsound : world.Sound env)
    (hstored : child.storable depth = true) (hserved : ChildServed env world child) :
    Ensures (observeChild env world child) fun observed => observed.fst.encodable = true
      ∧ ∀ observation, observed.snd = some observation →
        observation.snd.storable (env.depth - 1) = true := by
  refine ensures_requireMapping.bind fun reference hreference => ?_
  obtain rfl := Option.some.inj hreference
  obtain ⟨-, hmembers⟩ := Json.storable_obj.mp hstored
  cases hid : canonicalUuid env.uuid (Json.get reference "job_id") "join child job_id" with
  | error e => exact ensures_canonicalUuid.of_error hid
  | ok childId =>
    have hchildId : childId.encodable = true :=
      Json.storable_str.mp (Json.storable_get hmembers (ensures_canonicalUuid.of_ok hid))
    cases hlabel : referenceLabel reference with
    | error e => exact (ensures_referenceLabel (env.depth - 2)).of_error hlabel
    | ok label =>
      have hlabelStored := (ensures_referenceLabel (env.depth - 2)).of_ok hlabel
      show Ensures (match Json.get reference "placement_hint", Json.get reference "job_key" with
        | some (.str hint), some (.str jobKey) => _
        | _, _ => _) _
      split
      · rename_i hint jobKey hhint hkey
        have hhintEncodes := Json.storable_str.mp (Json.storable_get hmembers hhint)
        cases hplacement : normalizePlacement hint with
        | error e => exact (ensures_normalizePlacement hhintEncodes).of_error hplacement
        | ok placement =>
          have hglob := hserved reference childId label hint jobKey placement rfl hid hlabel hhint
            hkey hplacement
          refine (ensures_findMarkerAt hsound hglob).bind fun found hfound => ?_
          cases found with
          | none => exact ⟨hchildId, fun observation h => by cases h⟩
          | some marker =>
            show Ensures (if _ then _ else _) _
            split_ifs
            · exact ensures_raiseFormat rfl
            · refine ⟨hchildId, fun observation h => ?_⟩
              rw [← Option.some.inj h]
              exact storable_observation hsound (hfound marker rfl) hchildId hlabelStored
      · exact ensures_raiseFormat rfl

theorem ensures_observeChildren {children : List Json} {depth : Nat} (hsound : world.Sound env)
    (hstored : ∀ child ∈ children, child.storable depth = true)
    (hserved : ChildrenServed env world children) :
    Ensures (observeChildren env world children) fun observed =>
      (∀ observation ∈ observed.fst, observation.snd.storable (env.depth - 1) = true)
        ∧ ∀ childId, observed.snd = some childId → childId.encodable = true := by
  induction children with
  | nil => exact ⟨fun observation h => (by cases h), fun childId h => (by cases h)⟩
  | cons child children ih =>
    obtain ⟨hchild, hrest⟩ := hserved
    have hobserve := ensures_observeChild hsound (hstored child List.mem_cons_self) hchild
    unfold observeChildren
    cases hobserved : observeChild env world child with
    | error e => exact hobserve.of_error hobserved
    | ok observed =>
      obtain ⟨hid, hobservation⟩ := hobserve.of_ok hobserved
      obtain ⟨childId, found⟩ := observed
      cases found with
      | none =>
        refine ⟨fun observation h => (by cases h), fun missing h => ?_⟩
        rw [← Option.some.inj h]
        exact hid
      | some observation =>
        have hnext := ih (fun c hc => hstored c (List.mem_cons_of_mem _ hc)) (hrest childId observation hobserved)
        refine hnext.bind fun rest hrest => ?_
        obtain ⟨observations, unresolved⟩ := rest
        exact ⟨List.forall_mem_cons.mpr ⟨hobservation observation rfl, hrest.1⟩, hrest.2⟩

/-! ## The pass over a join that is served -/

def PassResult.Stored (env : CommitEnv) (result : PassResult) : Prop :=
  ∀ moved, result = .moved moved → moved.frame.storable env

theorem stored_moved {env : CommitEnv} {moved : Move} (h : moved.frame.storable env) :
    (PassResult.moved moved).Stored env := by
  intro moved' hmoved
  rw [← PassResult.moved.inj hmoved]
  exact h

theorem ensures_failWaiting {code reason : PyStr} {message : Message}
    (hrecords : ∀ e, world.records = .error e → e.cls = .transitionLost)
    (hstate : state.storable env.toCommitEnv) (hcode : code.encodable = true)
    (hmessage : message.encodable = true) (hreason : reason.encodable = true) :
    ∃ result, failWaiting env world state code message reason = .ok result
      ∧ result.Stored env.toCommitEnv := by
  have hframe : (state.carried.replace
      [(.failure, failure env.toCommitEnv code message none), (.reason, .str reason)]).storable
        env.toCommitEnv := by
    refine StateFrame.storable_replace (StateFrame.storable_carried hstate) ?_
    simp only [List.forall_mem_cons, List.not_mem_nil, false_imp_iff, implies_true, and_true]
    exact ⟨storable_failure hcode hmessage, Json.storable_str.mpr hreason⟩
  unfold failWaiting
  rcases transition_failed hframe hrecords with ⟨moved, hmoved⟩ | ⟨e, herror, hlost⟩
  · rw [hmoved]
    exact ⟨_, rfl, stored_moved (storable_of_transition hmoved)⟩
  · rw [herror]
    simp only
    rw [if_pos hlost]
    exact ⟨_, rfl, fun moved h => by cases h⟩

theorem ensures_handleUnresolvedJoin (hsound : world.Sound env)
    (hrecords : ∀ e, world.records = .error e → e.cls = .transitionLost)
    (hstate : state.storable env.toCommitEnv) (hid : childId.encodable = true) :
    Ensures (handleUnresolvedJoin env world state childId) (·.Stored env.toCommitEnv) := by
  have hdepth := env.three_le_depth
  unfold handleUnresolvedJoin
  simp only
  split_ifs
  · have hmessage : Message.encodable [.lit "join child ", .raw childId,
        .lit " cannot be resolved in this workspace"] = true := by
      simp [Message.encodable, MessagePart.encodable, hid]
    obtain ⟨result, hresult, hstored⟩ := ensures_failWaiting hrecords hstate
      (PyStr.encodable_ofString "dependency_failure") hmessage
      (PyStr.encodable_ofString "join_unresolvable")
    rw [hresult]
    exact hstored
  · exact fun moved h => by cases h
  · refine (ensures_transition ?_ hsound.reread hsound.moves).map fun moved hmoved =>
      stored_moved hmoved
    refine StateFrame.storable_replace (StateFrame.storable_select hstate _) ?_
    simp only [List.forall_mem_cons, List.not_mem_nil, false_imp_iff, implies_true, and_true,
      Json.storable_str, PyStr.encodable_ofString, Json.storable_obj, true_and]
    exact ⟨by omega, hid, hsound.utcNow⟩

variable (env state) in
theorem ensures_stateResources : Ensures (stateResources state) (·.storable env.depth = true) := by
  have hdepth := env.three_le_depth
  unfold stateResources
  split
  · rfl
  · rfl
  · exact (ensures_validateResources (env.depth - 1)).map fun resources hresources =>
      Json.storable_obj.mpr ⟨by omega, hresources⟩

variable {nextStep : Option Json}

variable (job) in
theorem ensures_joinAdvance {name reason : String}
    {observations : List Json} (hsound : world.Sound env) (hstate : state.storable env.toCommitEnv)
    (hnext : Encodes nextStep)
    (hobservations : ∀ o ∈ observations, o.storable (env.depth - 1) = true) :
    Ensures (joinAdvance env world job state nextStep name reason observations)
      (·.frame.storable env.toCommitEnv) := by
  have hdepth := env.three_le_depth
  refine (ensures_validateStep hnext).bind fun step hstep => ?_
  refine (ensures_stateResources env state).bind fun resources hresources => ?_
  exact ensures_advance hstate (StateFrame.storable_carried hstate) hstep hsound.freshId
    (Json.storable_arr.mpr ⟨by omega, hobservations⟩) hresources

theorem encodes_onImpossible (hmembers : ∀ e ∈ join, e.fst.encodable = true ∧ e.snd.storable (env.depth - 1) = true)
    (h : onImpossible join = some nextStep) : Encodes nextStep := by
  unfold onImpossible at h
  split at h
  · rename_i action haction
    split_ifs at h
    rw [← Option.some.inj h]
    intro t ht
    have hstored := Json.storable_get hmembers haction
    exact Json.storable_str.mp (Json.storable_get (Json.storable_obj.mp hstored).2 ht)
  · cases h

variable (job) in
theorem ensures_evaluate (hsound : world.Sound env)
    (hrecords : ∀ e, world.records = .error e → e.cls = .transitionLost)
    (hstate : state.storable env.toCommitEnv)
    (hserved : ∀ join, state.join = some join → JoinServed env world join) :
    Ensures (evaluate env world job state) (·.Stored env.toCommitEnv) := by
  have hdepth := env.three_le_depth
  have hmove : ∀ {move : Move}, move.frame.storable env.toCommitEnv →
      Ensures ((transition env.toCommitEnv world.reread .waiting world.moves move).map
        PassResult.moved) (·.Stored env.toCommitEnv) := fun hframe =>
    (ensures_transition hframe hsound.reread hsound.moves).map fun moved hmoved => stored_moved hmoved
  refine ensures_requireMapping.bind fun join hjoin => ?_
  have hjoin : state.join = some join := by
    cases hstateJoin : state.join with
    | none =>
      rw [hstateJoin] at hjoin
      cases hjoin
    | some join' =>
      rw [hstateJoin] at hjoin
      rw [Json.obj.inj (Option.some.inj hjoin)]
  obtain ⟨-, hmembers⟩ := Json.storable_obj.mp (StateFrame.storable_of_mapping hstate hjoin)
  have hjoinServed := hserved join hjoin
  refine ensures_joinChildren.bind fun children ⟨hchildren, hget⟩ => ?_
  obtain ⟨-, hstored⟩ := Json.storable_arr.mp (Json.storable_get hmembers hget)
  have hobserve := ensures_observeChildren hsound hstored (hjoinServed.children children hchildren)
  cases hobserved : observeChildren env world children with
  | error e => exact hobserve.of_error hobserved
  | ok result =>
    obtain ⟨observed, unresolved⟩ := result
    obtain ⟨hobservations, hid⟩ := hobserve.of_ok hobserved
    cases unresolved with
    | some childId => exact ensures_handleUnresolvedJoin hsound hrecords hstate (hid childId rfl)
    | none =>
      have hsummary : ∀ o ∈ observed.map Prod.snd, o.storable (env.depth - 1) = true := by
        intro o ho
        obtain ⟨observation, hobservation, rfl⟩ := List.mem_map.mp ho
        exact hobservations observation hobservation
      have hcount : ((Json.get join "condition").map env.str).getD ⟨[]⟩ = "at_least" →
          ∃ n, joinCount join = .ok n := by
        intro hcondition
        refine hjoinServed.count children observed hchildren hobserved ?_
        cases hget : (Json.get join "condition").map env.str with
        | none =>
          rw [hget] at hcondition
          cases hcondition
        | some condition =>
          rw [hget] at hcondition
          exact congrArg some hcondition
      refine (ensures_classify hcount).bind fun verdict _ => ?_
      cases verdict with
      | blocked => exact fun moved h => by cases h
      | satisfied =>
        refine (ensures_joinAdvance job hsound hstate ?_ hsummary).bind fun move hframe => hmove hframe
        intro t ht
        cases hstep : state.string .nextStep with
        | none =>
          rw [hstep] at ht
          cases ht
        | some step =>
          rw [hstep] at ht
          rw [← Json.str.inj (Option.some.inj ht)]
          exact StateFrame.encodable_of_string hstate hstep
      | impossible =>
        show Ensures (match onImpossible join with
          | some _ => _
          | none => _) _
        cases hnext : onImpossible join with
        | some nextStep =>
          exact (ensures_joinAdvance job hsound hstate (encodes_onImpossible hmembers hnext)
            hsummary).bind fun move hframe => hmove hframe
        | none =>
          refine hmove (StateFrame.storable_replace (StateFrame.storable_carried hstate) ?_)
          simp only [List.forall_mem_cons, List.not_mem_nil, false_imp_iff, implies_true, and_true,
            Json.storable_str, PyStr.encodable_ofString]
          exact ⟨storable_failure (PyStr.encodable_ofString _) rfl,
            Json.storable_arr.mpr ⟨by omega, hsummary⟩⟩

theorem evaluateJoins_ends (hsound : world.Sound env)
    (hrecords : ∀ e, world.records = .error e → e.cls = .transitionLost)
    (hstate : state.storable env.toCommitEnv)
    (hserved : ∀ join, state.join = some join → JoinServed env world join) :
    ∃ result, evaluateJoins env world job state = .ok result ∧ result.Stored env.toCommitEnv := by
  have hensures := ensures_evaluate job hsound hrecords hstate hserved
  unfold evaluateJoins
  cases hevaluate : evaluate env world job state with
  | ok result => exact ⟨result, rfl, hensures.of_ok hevaluate⟩
  | error e =>
    have hhandled := hensures.of_error hevaluate
    simp only
    split_ifs with hlost hformat hworkflow
    · exact ⟨_, rfl, fun moved h => by cases h⟩
    · refine ensures_failWaiting hrecords hstate (PyStr.encodable_ofString _) ?_ (PyStr.encodable_ofString _)
      exact hhandled.2
    · exact ⟨_, rfl, fun moved h => by cases h⟩
    · exact absurd hhandled.1 hworkflow

end Served
