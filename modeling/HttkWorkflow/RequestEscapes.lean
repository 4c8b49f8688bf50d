import HttkWorkflow.FrameNesting
import HttkWorkflow.RequestHandling

/-!
# What escapes the handling of requests

Whoever may write below `requests/ready` decides which bytes a manager reads
there, and what `handle` does not catch ends the manager's tick. Three
`except` clauses stand between the bytes and the tick: that of
`_read_request`, which makes a `FormatError` of what is no JSON text, that of
the preflight, which catches `OSError` and `WorkflowError`, and that of the
claimed request, which also catches `ValueError`.

What passes through them is named by `Harmless`. Some values raise an
exception of no class in the clauses: a priority that is `null` or infinite,
an action that is an array. Others raise one that only a later clause names: a
placement that does not encode raises a `ValueError`, which the claimed
request would have been quarantined for, but it raises it in the preflight.
And a request for a sealed job raises a `SealedError`, which belongs to
another family. `handle_returns` says that there is nothing else.
-/

/-! ## Reading a request -/

/-- **What `json.load` makes of bytes.** -/
inductive Loaded where
  /-- A `UnicodeError` or a `JSONDecodeError`. -/
  | malformed (error : String)
  /-- A plain `ValueError`, on an integer of more than 4300 digits. -/
  | tooManyDigits
  /-- A `RecursionError`. -/
  | tooDeep
  | value (value : Json)

/-- **The `json.load` of an interpreter**: it answers for any bytes, and with no value
that is nested deeper than it takes. -/
structure JsonReader (env : CommitEnv) where
  load : List UInt8 → Loaded
  nests_of_value : ∀ bytes value, load bytes = .value value → value.nests (env.depth + 1) = true

/-- How opening a request goes. -/
inductive Opening where
  /-- `lstat`, `open`, `fstat` or the read raised an `OSError`. -/
  | unobserved
  /-- The file that was opened is not the one that was looked at. -/
  | replaced
  | opened
deriving DecidableEq

/-- **One file in a pass**: its name, its bytes, and what the pass finds besides. -/
structure RequestVisit where
  name : PyStr
  content : List UInt8
  isFile : Bool
  /-- Whether its name is in `_deferred_requests`. -/
  deferred : Bool
  opening : Opening
  /-- What the preflight finds, apart from the bytes. -/
  observed : PreflightWorld
  /-- `ensure_directory(claimed_dir)`. -/
  directory : Except Exc PUnit
  /-- Whether the claim was made, as its rename or a look at the destination says. -/
  claimed : Bool
  /-- Whether the claimed file is the one that was read, where that can be told. -/
  same : Option Bool
  journal : List Frame
  applied : ApplyWorld
  /-- What the append to the journal comes to, and the rename of the marker. -/
  appends : Except Exc PUnit
  renames : Except Exc PUnit
  /-- What filing a request away with a report comes to. -/
  files : Except Exc PUnit
  /-- The `unlink` of a request that was handled. -/
  removes : Except Exc PUnit

section Pass

variable {env : CommitEnv} (refText : RecordRef → PyStr) (reader : JsonReader env)

/-- **`_read_request`**: `none` where the read has to be repeated. -/
def readRequest (visit : RequestVisit) : Option (Except Exc (List (PyStr × Json))) :=
  match visit.opening with
  | .unobserved => none
  | .replaced =>
    some (raiseFormat [.lit "request changed while it was opened: ", .path [visit.name]])
  | .opened =>
    some (match reader.load visit.content with
      | .malformed error =>
        raiseFormat [.lit "cannot read JSON object ", .path [visit.name], .lit ": ", .lit error]
      | .tooManyDigits => .error ⟨.valueError,
          [.lit "Exceeds the limit (4300 digits) for integer string conversion"]⟩
      | .tooDeep => .error ⟨.recursion, [.lit "maximum recursion depth exceeded"]⟩
      | .value (.obj members) => .ok members
      | .value _ => raiseFormat [.lit "expected JSON object in ", .path [visit.name]])

def PreflightWorld.afterRead (world : PreflightWorld) :
    Option (Except Exc (List (PyStr × Json))) → PreflightWorld
  | none => { world with indeterminate := true, malformed := none }
  | some (.error e) => { world with indeterminate := false, malformed := some e }
  | some (.ok _) => { world with indeterminate := false, malformed := none }

def membersRead : Option (Except Exc (List (PyStr × Json))) → List (PyStr × Json)
  | some (.ok request) => request
  | _ => []

/-! ## One file of a pass -/

/-- **What a pass does with a file.** -/
inductive PassEnd where
  /-- It is no file, or was left to another manager before. -/
  | skipped
  /-- It is left for a later pass, in `ready` or claimed. -/
  | later
  /-- It is left to another manager from now on. -/
  | deferred
  | applied
  | retired
  | quarantined
deriving DecidableEq

/-- **Filing a request away**, with a report of the reason. Only an `OSError` is caught
where the report is written. -/
def fileAway (visit : RequestVisit) (reason : Message) (ending : PassEnd) : Except Exc PassEnd :=
  match visit.files with
  | .error e => if e.cls.isOSError = true then .ok .later else .error e
  | .ok _ =>
    if visit.name.encodable = true ∧ reason.encodable = true then .ok ending
    else .error ⟨.unicodeEncode, [.lit "cannot encode the report"]⟩

def concludeRequest (visit : RequestVisit) : HandleEnd → Except Exc PassEnd
  | .retire reason => fileAway visit reason .retired
  | .quarantine reason => fileAway visit reason .quarantined
  | .leave => .ok .later
  | .handled => visit.removes.map fun _ => .applied
  | .propagate e => .error e

/-- The rest of a transition: the frame is appended, the marker gets its name, and is
renamed. -/
def completeTransition (visit : RequestVisit) (asked : TransitionRequest) : Except Exc PUnit := do
  visit.appends
  if asked.priority.any (999 < ·) then raiseFormat [.lit "priority must be 0 through 999"]
  else visit.renames

/-- **The application of a request** that was claimed and is the one that was read. -/
def applyClaimed (env : CommitEnv) (visit : RequestVisit) (request : List (PyStr × Json)) : HandleEnd :=
  match apply env refText visit.journal request visit.applied with
  | .error e => handleRaised e
  | .ok (.unactionable reason) => .retire reason
  | .ok .nothing => .handled
  | .ok (.asks asked) =>
    match completeTransition visit asked with
    | .error e => handleRaised e
    | .ok _ => .handled

/-- The part of `handle` after the claim. -/
def handleClaimed (env : CommitEnv) (visit : RequestVisit) (request : List (PyStr × Json))
    (verdict : Except Exc (Option Message)) : Except Exc PassEnd :=
  match verdict with
  | .error e => concludeRequest visit (handleRaised e)
  | .ok refusal =>
    match visit.same with
    | none => .ok .later
    | some false => concludeRequest visit
        (handleRaised ⟨.formatError, [.lit "request changed while it was claimed"]⟩)
    | some true =>
      match refusal with
      | some reason => concludeRequest visit (.retire reason)
      | none => concludeRequest visit (applyClaimed refText env visit request)

/-- **What `handle` does with one file.** -/
def handleFile (visit : RequestVisit) : Except Exc PassEnd :=
  if visit.isFile = false ∨ visit.deferred = true then .ok .skipped
  else
    let read := readRequest reader visit
    match preflight (membersRead read) (visit.observed.afterRead read) with
    | .later => .ok .later
    | .leave => .ok .deferred
    | .propagate e => .error e
    | .take verdict => do
      visit.directory
      if visit.claimed = false then .ok .later
      else handleClaimed refText env visit (membersRead read) verdict

/-- **`handle`**, over the files of `ready` in their order. Bringing back what was claimed
before catches whatever it raises. -/
def handle (visits : List RequestVisit) : Except Exc (List PassEnd) :=
  visits.mapM (handleFile refText reader)

end Pass

/-! ## What is caught -/

/-- **What the clause around a claimed request catches**, with a text that can be
reported. -/
def Exc.Caught (e : Exc) : Prop :=
  (e.cls.isOSError = true ∨ e.cls.isWorkflowError = true ∨ e.cls.isValueError = true)
    ∧ Message.encodable e.message = true

/-- The classes that no clause names. -/
def Exc.Escapes (e : Exc) : Prop := handleRaised e = .propagate e

theorem Exc.Handled.caught {e : Exc} (h : e.Handled) : e.Caught :=
  ⟨h.1.symm.imp_right Or.inl, h.2⟩

theorem Raises.caught {β : Type} {x : Except Exc β} (h : Raises x Exc.Handled) :
    Raises x Exc.Caught := h.imp fun _ he => he.caught

theorem raises_raiseFormat {β : Type} {m : Message} (hm : m.encodable = true) :
    Raises (raiseFormat m : Except Exc β) Exc.Caught :=
  raises_error.mpr ⟨Or.inr (Or.inl rfl), hm⟩

/-- **An end that the handler comes to**: nothing is reported that cannot be. -/
def HandleEnd.Comes : HandleEnd → Prop
  | .retire reason => reason.encodable = true
  | .quarantine reason => reason.encodable = true
  | .propagate _ => False
  | _ => True

theorem comes_of_caught {e : Exc} (h : e.Caught) : (handleRaised e).Comes := by
  obtain ⟨hcls, hmessage⟩ := h
  unfold handleRaised
  split_ifs with hlost hos hother
  · rfl
  · trivial
  · show Message.encodable ([.lit "invalid request: "] ++ e.message) = true
    unfold Message.encodable at hmessage ⊢
    rw [List.all_append, hmessage]
    rfl
  · exact absurd hcls (by simp [hos, hother])

section Checks

/-- `int(value)` raises a `TypeError` or an `OverflowError`. -/
def unconvertible : Json → Bool
  | .null | .arr _ | .obj _ | .float (.inf _) => true
  | _ => false

theorem intOfStr_raises {text : PyStr} : Raises (intOfStr text) Exc.Caught := by
  unfold intOfStr
  simp only
  split
  · exact raises_error.mpr ⟨Or.inr (Or.inr rfl), rfl⟩
  · split_ifs
    · exact raises_error.mpr ⟨Or.inr (Or.inr rfl), rfl⟩
    · exact raises_ok
    · exact raises_ok

theorem intOf_raises {value : Json} (h : unconvertible value = false) : Raises (intOf value) Exc.Caught := by
  cases value with
  | null => cases h
  | bool b => exact raises_ok
  | int n => exact raises_ok
  | str text => exact intOfStr_raises
  | arr items => cases h
  | obj members => cases h
  | float x =>
    cases x with
    | nan => exact raises_error.mpr ⟨Or.inr (Or.inr rfl), rfl⟩
    | inf negative => cases h
    | finite q => exact raises_ok

theorem intOf_escapes {value : Json} (h : unconvertible value = true) : ∃ e, intOf value = .error e ∧ e.Escapes := by
  cases value with
  | null => exact ⟨_, rfl, rfl⟩
  | arr items => exact ⟨_, rfl, rfl⟩
  | obj members => exact ⟨_, rfl, rfl⟩
  | bool b => cases h
  | int n => cases h
  | str text => cases h
  | float x =>
    cases x with
    | nan => cases h
    | inf negative => exact ⟨_, rfl, rfl⟩
    | finite q => cases h

/-- An action that can be looked up in a set. -/
def hashable : Option Json → Bool
  | some (.arr _) | some (.obj _) => false
  | _ => true

theorem encodable_word (kind : StateKind) : kind.word.encodable = true := by
  cases kind <;> exact PyStr.encodable_ofString _

variable {action : Option Json} {kind : StateKind}

theorem refusedAction_caught (h : hashable action = true) : (refusedAction action kind).Caught := by
  have hmessage : Message.encodable [.lit "request action ", .repr action,
      .lit " is invalid from state ", .raw kind.word] = true := by
    simp [Message.encodable, MessagePart.encodable, encodable_word]
  unfold refusedAction
  split
  · cases h
  · cases h
  · exact ⟨Or.inr (Or.inl rfl), hmessage⟩

theorem refusedAction_escapes (h : hashable action = false) : (refusedAction action kind).Escapes := by
  unfold hashable at h
  split at h
  · rfl
  · rfl
  · cases h

theorem validateStep_raises {value : Option Json} {name : String} : Raises (validateStep value name) Exc.Caught := by
  refine (ensures_requireString.raises.caught).bind fun text _ => ?_
  refine Raises.bind (f := fun length => if length > 128 ∨ text.contains '/' ∨ text.codes.contains 0
    then raiseFormat [.lit name, .lit " is not a valid step name"] else .ok text) ?_ fun length _ => ?_
  · unfold utf8Length
    split_ifs
    · exact raises_ok
    · exact raises_error.mpr ⟨Or.inr (Or.inr rfl), rfl⟩
  · split_ifs
    · exact raises_raiseFormat rfl
    · exact raises_ok

/-! ## The target of a request -/

/-- **A component of a placement** that has no encoding, after components that are
accepted. -/
def Misplaced (placement : PyStr) : Prop :=
  placement.codes.head? ≠ some '/'.toNat
    ∧ ∃ before part after, ((placement.split '/').filter fun t =>
        t.codes ≠ [] ∧ t ≠ PyStr.ofString ".") = before ++ part :: after
      ∧ (∀ b ∈ before, ∃ c, placementPart b = .ok c)
      ∧ part ∉ unsafePathComponents ∧ ¬part.codes.contains 0 ∧ part.encodable = false

/-- **A request whose placement has no encoding**, and whose key and id agree, so that
its placement is looked at. -/
def MisplacedRequest (request : List (PyStr × Json)) : Prop :=
  ∃ jobKey jobId placement tag, Json.get request "job_key" = some (.str jobKey)
    ∧ Json.get request "job_id" = some (.str jobId)
    ∧ Json.get request "placement" = some (.str placement)
    ∧ parseJobKey jobKey = .ok (tag, jobId) ∧ Misplaced placement

variable {e : Exc}

theorem placementPart_error {part : PyStr} (h : placementPart part = .error e) :
    e.Handled ∨ e.cls = .unicodeEncode ∧ Message.encodable e.message = true
      ∧ part ∉ unsafePathComponents ∧ ¬part.codes.contains 0 ∧ part.encodable = false := by
  unfold placementPart utf8Length at h
  split_ifs at h with hunsafe hencodes
  · rw [← Except.error.inj h]
    exact Or.inl ⟨Or.inl rfl, rfl⟩
  · left
    have h : (if part.utf8Bytes > 255 then raiseFormat
        [.lit "placement component is too long: ", .repr (some (.str part))] else .ok part) = Except.error e := h
    split_ifs at h
    rw [← Except.error.inj h]
    exact ⟨Or.inl rfl, rfl⟩
  · rw [← Except.error.inj h]
    exact Or.inr ⟨rfl, rfl, fun hmem => hunsafe (Or.inl hmem), fun hmem => hunsafe (Or.inr hmem),
      eq_false_of_ne_true hencodes⟩

theorem placementPart_unencodable {part : PyStr} (hsafe : part ∉ unsafePathComponents)
    (hnul : ¬part.codes.contains 0) (h : part.encodable = false) :
    placementPart part = .error ⟨.unicodeEncode, [.lit "surrogates not allowed"]⟩ := by
  unfold placementPart utf8Length
  rw [if_neg (not_or.mpr ⟨hsafe, hnul⟩), h]
  rfl

variable {placement : PyStr}

theorem normalizePlacement_error (h : normalizePlacement placement = .error e) :
    e.Handled ∨ e.cls = .unicodeEncode ∧ Message.encodable e.message = true
      ∧ Misplaced placement := by
  unfold normalizePlacement at h
  simp only at h
  split_ifs at h with hempty
  · rw [← Except.error.inj h]
    exact Or.inl ⟨Or.inl rfl, rfl⟩
  · obtain ⟨before, part, after, hparts, hbefore, hpart⟩ := mapM_eq_error.mp h
    refine (placementPart_error hpart).imp_right ?_
    rintro ⟨hcls, hmessage, hsafe, hnul, hencodes⟩
    exact ⟨hcls, hmessage, (not_or.mp hempty).1, before, part, after, hparts, hbefore, hsafe, hnul, hencodes⟩

theorem normalizePlacement_misplaced (h : Misplaced placement) :
    normalizePlacement placement = .error ⟨.unicodeEncode, [.lit "surrogates not allowed"]⟩ := by
  obtain ⟨hrelative, before, part, after, hparts, hbefore, hsafe, hnul, hencodes⟩ := h
  unfold normalizePlacement
  simp only
  rw [if_neg]
  · exact mapM_eq_error.mpr ⟨before, part, after, hparts, hbefore, placementPart_unencodable hsafe hnul hencodes⟩
  · rintro (habsolute | hempty)
    · exact hrelative habsolute
    · rw [hparts] at hempty
      exact absurd hempty (by simp)

theorem parseJobKey_raises {text : PyStr} : Raises (parseJobKey text) Exc.Handled := by
  unfold parseJobKey
  simp only
  split_ifs
  · exact raises_error.mpr ⟨Or.inl rfl, rfl⟩
  · exact raises_ok
  · exact raises_error.mpr ⟨Or.inl rfl, rfl⟩
  · exact ensures_validateLabel.raises.bind fun tag _ => raises_ok

variable {request : List (PyStr × Json)}

theorem requestTarget_error (h : requestTarget request = .error e) :
    e.Handled ∨ e.cls = .unicodeEncode ∧ Message.encodable e.message = true
      ∧ MisplacedRequest request := by
  unfold requestTarget at h
  split at h
  · rename_i jobKey jobId placement hkey hid hplacement
    rcases bind_eq_error.mp h with hparse | ⟨⟨tag, keyId⟩, hparse, h⟩
    · exact Or.inl (parseJobKey_raises e hparse)
    · simp only at h
      split_ifs at h with hdisagrees
      · rw [← Except.error.inj h]
        exact Or.inl ⟨Or.inl rfl, rfl⟩
      · rcases bind_eq_error.mp h with hnormal | ⟨parts, -, h⟩
        · refine (normalizePlacement_error hnormal).imp_right ?_
          rintro ⟨hcls, hmessage, hmisplaced⟩
          rw [not_not.mp hdisagrees] at hparse
          exact ⟨hcls, hmessage, jobKey, jobId, placement, tag, hkey, hid, hplacement, hparse, hmisplaced⟩
        · cases h
  · rw [← Except.error.inj h]
    exact Or.inl ⟨Or.inl rfl, rfl⟩

theorem requestTarget_misplaced (h : MisplacedRequest request) :
    requestTarget request = .error ⟨.unicodeEncode, [.lit "surrogates not allowed"]⟩ := by
  obtain ⟨jobKey, jobId, placement, tag, hkey, hid, hplacement, hparse, hmisplaced⟩ := h
  unfold requestTarget
  rw [hkey, hid, hplacement]
  simp only [hparse]
  show (if jobId ≠ jobId then _ else normalizePlacement placement >>= _) = _
  rw [if_neg (by simp), normalizePlacement_misplaced hmisplaced]
  rfl

end Checks

/-! ## The action of a request -/

section Action

variable {env : CommitEnv} {job : JobDefinition} {kind : StateKind} {state frame : StateFrame}
variable {asked : OperatorRequest} {sealedBy : Option Message} {reread : Option StateFrame}
variable {move : Move}

/-- **What an action needs** for its exceptions to be caught. -/
structure ActsHarmlessly (env : CommitEnv) (job : JobDefinition) (kind : StateKind)
    (state : StateFrame) (asked : OperatorRequest) (sealedBy : Option Message) : Prop where
  action : hashable asked.action = true
  priority : asked.isFor "set_priority" = true → kind ∈ priorityKinds →
    unconvertible (asked.priority.getD (.int (-1))) = false
  pause : asked.isFor "pause" = true → kind ∈ attemptKinds → sealedBy = none →
    (pauseRecord asked).nests env.depth = true
  unsealed : ∀ move, applyRequest env job kind state asked = .ok (some move) → sealedBy = none

theorem isFor_iff {action : String} : asked.isFor action = true ↔ asked.action = some (.str (PyStr.ofString action)) :=
  Json.optEqStr_iff

theorem applyRequest_priority (haction : asked.isFor "set_priority" = true)
    (hkind : kind ∈ priorityKinds) : applyRequest env job kind state asked = (do
      let priority ← intOf (asked.priority.getD (.int (-1)))
      .ok (some ⟨kind, ((audited state.carried asked).replace
        (state.select preservedMembers).members).replace [(.reason, .str "operator_priority")],
        some priority⟩)) := by
  have hcancel : Json.optEqStr asked.action "cancel" = false := by
    rw [isFor_iff.mp haction]
    decide
  unfold applyRequest
  simp only
  rw [if_neg (by simp [hcancel]), if_pos ⟨haction, hkind⟩]

theorem applyRequest_unhashable (h : hashable asked.action = false) :
    applyRequest env job kind state asked = .error (refusedAction asked.action kind) := by
  have hnot : ∀ action : String, Json.optEqStr asked.action (PyStr.ofString action) = false := by
    intro action
    rw [Bool.eq_false_iff]
    intro heq
    rw [Json.optEqStr_iff.mp heq] at h
    cases h
  unfold applyRequest
  simp [hnot]

theorem retainDeferredPauseProcess_raises : Raises (retainDeferredPauseProcess state frame) Exc.Caught := by
  unfold retainDeferredPauseProcess
  split
  · exact raises_ok
  · split
    · exact raises_ok
    · exact raises_raiseFormat rfl

theorem revive_raises {continues : Bool} : Raises (revive env job state frame asked continues) Exc.Caught := by
  unfold revive
  split_ifs
  · exact raises_raiseFormat rfl
  · unfold retry
    refine retainDeferredPauseProcess_raises.bind fun retained _ => ?_
    simp only
    split_ifs
    · exact raises_ok
    · exact raises_ok
  · refine validateStep_raises.bind fun step _ => ?_
    unfold advance
    refine retainDeferredPauseProcess_raises.bind fun retained _ => ?_
    simp only
    split_ifs
    · exact raises_ok
    · exact raises_ok

theorem applyRequest_raises (haction : hashable asked.action = true)
    (hpriority : asked.isFor "set_priority" = true → kind ∈ priorityKinds →
      unconvertible (asked.priority.getD (.int (-1))) = false) :
    Raises (applyRequest env job kind state asked) Exc.Caught := by
  unfold applyRequest
  simp only
  split_ifs with hcancel hprioritizes
  · exact raises_ok
  · exact (intOf_raises (hpriority hprioritizes.1 hprioritizes.2)).bind fun _ _ => raises_ok
  · exact raises_ok
  · exact raises_ok
  · exact raises_ok
  · exact raises_ok
  · exact revive_raises.map
  · exact raises_error.mpr (refusedAction_caught haction)

/-- **The transition of a request**, once its action is known. -/
def act (env : CommitEnv) (job : JobDefinition) (kind : StateKind) (state : StateFrame)
    (asked : OperatorRequest) (sealedBy : Option Message) (reread : Option StateFrame) :
    Except Exc (Option Move) := do
  match ← applyRequest env job kind state asked with
  | none => .ok none
  | some move =>
    requireUnsealed sealedBy
    (transition env reread kind (.ok ()) move).map some

theorem transition_raises {source : StateKind} (hframe : move.frame.Nests env)
    (hreread : ∀ f, reread = some f → f.Nests env) :
    Raises (transition env reread source (.ok ()) move) Exc.Caught := by
  unfold transition
  refine settle_raises.caught.bind fun written hwritten => ?_
  obtain ⟨kind', frame⟩ := written
  have hnests : frame.Nests env := nests_settle hframe hreread hwritten
  simp only
  split_ifs
  · exact raises_ok
  · refine raises_error.mpr ⟨?_, StateFrame.encodable_unstorable⟩
    rcases @StateFrame.unstorable_cls env frame with ⟨-, hcls⟩ | ⟨hnot, -⟩
    · rw [hcls]
      exact Or.inr (Or.inr rfl)
    · exact absurd hnests hnot

theorem transition_too_deep {priority : Option Int} (hkind : kind ∈ attemptKinds) (hframe : ¬frame.Nests env) :
    ∃ e, transition env reread kind (.ok ()) ⟨kind, frame, priority⟩ = .error e
      ∧ e.cls = .recursion := by
  refine ⟨frame.unstorable env, ?_, ?_⟩
  · unfold transition
    rw [settle_live hkind]
    exact if_neg fun hstorable => hframe fun e he => Json.nests_of_storable (hstorable e he)
  · exact (StateFrame.unstorable_cls.resolve_left fun h => hframe h.1).2

theorem act_raises (hstate : state.Nests env) (hasked : asked.Nests env) (hreread : ∀ f, reread = some f → f.Nests env)
    (h : ActsHarmlessly env job kind state asked sealedBy) :
    Raises (act env job kind state asked sealedBy reread) Exc.Caught := by
  refine (applyRequest_raises h.action h.priority).bind fun answer hanswer => ?_
  cases answer with
  | none => exact raises_ok
  | some move =>
    have hunsealed := h.unsealed move hanswer
    have hframe : move.frame.Nests env := by
      by_cases hpause : asked.isFor "pause" = true ∧ kind ∈ attemptKinds
      · rw [applyRequest_pause (isFor_iff.mp hpause.1) hpause.2] at hanswer
        rw [← Option.some.inj (Except.ok.inj hanswer)]
        refine hstate.replace fun e he => ?_
        rw [List.mem_singleton.mp he]
        exact h.pause hpause.1 hpause.2 hunsealed
      · exact applyRequest_nests hstate hasked hpause hanswer
    simp only [hunsealed]
    exact (raises_ok (b := PUnit.unit)).bind fun _ _ => (transition_raises hframe hreread).map

theorem act_escapes (h : ¬ActsHarmlessly env job kind state asked sealedBy) :
    ∃ e, act env job kind state asked sealedBy reread = .error e ∧ e.Escapes := by
  by_cases haction : hashable asked.action = true
  swap
  · have haction := eq_false_of_ne_true haction
    refine ⟨refusedAction asked.action kind, ?_, refusedAction_escapes haction⟩
    unfold act
    rw [applyRequest_unhashable haction]
    rfl
  by_cases hpriority : asked.isFor "set_priority" = true → kind ∈ priorityKinds →
      unconvertible (asked.priority.getD (.int (-1))) = false
  swap
  · simp only [not_forall] at hpriority
    obtain ⟨hfor, hkind, hconverts⟩ := hpriority
    obtain ⟨e, he, hescapes⟩ := intOf_escapes (eq_true_of_ne_false hconverts)
    refine ⟨e, ?_, hescapes⟩
    unfold act
    rw [applyRequest_priority hfor hkind, he]
    rfl
  by_cases hunsealed : ∀ move, applyRequest env job kind state asked = .ok (some move) → sealedBy = none
  swap
  · simp only [not_forall] at hunsealed
    obtain ⟨move, hasks, hsealed⟩ := hunsealed
    obtain ⟨message, hmessage⟩ := Option.ne_none_iff_exists'.mp hsealed
    refine ⟨⟨.sealed, message⟩, ?_, rfl⟩
    unfold act
    rw [hasks, hmessage]
    rfl
  by_cases hpause : asked.isFor "pause" = true → kind ∈ attemptKinds → sealedBy = none →
      (pauseRecord asked).nests env.depth = true
  · exact absurd ⟨haction, hpriority, hpause, hunsealed⟩ h
  · simp only [not_forall] at hpause
    obtain ⟨hfor, hkind, hnone, hdeep⟩ := hpause
    have hframe : ¬(state.replace [(.pauseRequested, pauseRecord asked)]).Nests env := fun hnests =>
      hdeep (hnests.of_get (m := Member.pauseRequested) (by simp))
    obtain ⟨e, he, hcls⟩ : ∃ e, transition env reread kind (.ok ())
        ⟨kind, state.replace [(.pauseRequested, pauseRecord asked)], none⟩ = .error e
          ∧ e.cls = .recursion := transition_too_deep hkind hframe
    refine ⟨e, ?_, ?_⟩
    · unfold act
      rw [applyRequest_pause (isFor_iff.mp hfor) hkind, hnone]
      show (transition env reread kind (.ok ()) _).map some = _
      rw [he]
      rfl
    · unfold Exc.Escapes handleRaised
      simp [hcls, ExcClass.isOSError, ExcClass.isWorkflowError, ExcClass.isValueError]

end Action

/-! ## What a request needs -/

/-- **A request that comes to its action**: every check before it passes. -/
structure AppliesTo (env : CommitEnv) (refText : RecordRef → PyStr) (journal : List Frame)
    (request : List (PyStr × Json)) (world : ApplyWorld) (marker : Marker) (key : Option PyStr)
    (state : StateFrame) (job : JobDefinition) : Prop where
  envelope : validateEnvelope request = .ok ()
  operatorKey : world.operatorKey = .ok key
  target : ∃ target, requestTarget request = .ok target
  found : world.found = .ok (some marker)
  generation : expectedGeneration request = .ok (marker.generation : Int)
  recordRef : expectedRecordRef request = .ok (some (refText marker.recordRef))
  state : readState journal marker world.stateFault = .ok state
  job : world.job = .ok job

/-- **A file whose request comes to its action** in a pass. -/
structure Accepted {env : CommitEnv} (refText : RecordRef → PyStr) (reader : JsonReader env)
    (visit : RequestVisit) (request : List (PyStr × Json)) (marker : Marker) (key : Option PyStr)
    (state : StateFrame) (job : JobDefinition) : Prop where
  isFile : visit.isFile = true
  notDeferred : visit.deferred = false
  read : readRequest reader visit = some (.ok request)
  preflight : preflight request (visit.observed.afterRead (some (.ok request))) = .take (.ok none)
  claimed : visit.claimed = true
  same : visit.same = some true
  applies : AppliesTo env refText visit.journal request visit.applied marker key state job

/-- **A file that cannot harm the pass**, whatever it is. -/
structure Harmless {env : CommitEnv} (refText : RecordRef → PyStr) (reader : JsonReader env)
    (visit : RequestVisit) : Prop where
  loads : visit.isFile = true → visit.deferred = false → visit.opening = .opened →
    reader.load visit.content ≠ .tooManyDigits ∧ reader.load visit.content ≠ .tooDeep
  placement : ∀ request owner, visit.isFile = true → visit.deferred = false →
    readRequest reader visit = some (.ok request) → visit.observed.observedOwner = .ok owner →
    ¬MisplacedRequest request
  acts : ∀ request marker key state job, Accepted refText reader visit request marker key state job →
    ActsHarmlessly env job marker.kind state (operatorRequest request key visit.applied)
      visit.applied.sealedBy

/-- **What the pass may expect of the rest of the workspace**: the lookups, the check of a
signature, the journal and the renames raise what their documentation names, the claimed
directory can be made and cleaned, and what was stored can be stored again. -/
structure RequestVisit.Sound (env : CommitEnv) (visit : RequestVisit) : Prop where
  name : visit.name.encodable = true
  observedFound : Raises visit.observed.found Exc.Handled
  observedJob : Raises visit.observed.job Exc.Handled
  directory : visit.directory = .ok ()
  operatorKey : Raises visit.applied.operatorKey Exc.Handled
  found : Raises visit.applied.found Exc.Handled
  stateFault : ∀ e, visit.applied.stateFault = some e → e.Handled
  job : Raises visit.applied.job Exc.Handled
  appends : Raises visit.appends Exc.Handled
  renames : Raises visit.renames Exc.Handled
  files : Raises visit.files fun e => e.cls.isOSError = true
  removes : visit.removes = .ok ()
  journal : ∀ frame ∈ visit.journal, frame.members.Nests env
  reread : ∀ f, visit.applied.reread = some f → f.Nests env
  hazard : ∀ hazard, visit.applied.hazard = some hazard → (Json.obj hazard).nests env.depth = true

section Escapes

variable {env : CommitEnv} {refText : RecordRef → PyStr} {reader : JsonReader env}
variable {visit : RequestVisit} {request : List (PyStr × Json)} {marker : Marker}
variable {key : Option PyStr} {state : StateFrame} {job : JobDefinition}

theorem RequestVisit.Sound.nests_state (hsound : visit.Sound env) {fault : Option Exc}
    (h : readState visit.journal marker fault = .ok state) : state.Nests env := by
  unfold readState at h
  split at h
  · cases h
  · rw [← Except.ok.inj h]
    cases hrecord : readRecord visit.journal marker.recordRef with
    | none => exact fun e he => by cases he
    | some frame =>
      refine hsound.journal frame ?_
      unfold readRecord at hrecord
      split at hrecord
      · cases hrecord
      · exact List.mem_of_getElem? hrecord

theorem nests_operatorRequest (hsound : visit.Sound env) (hread : readRequest reader visit = some (.ok request)) :
    (operatorRequest request key visit.applied).Nests env := by
  have hmembers : (Json.obj request).nests (env.depth + 1) = true := by
    unfold readRequest at hread
    split at hread
    · cases hread
    · cases Option.some.inj hread
    · split at hread
      · cases Option.some.inj hread
      · cases Option.some.inj hread
      · cases Option.some.inj hread
      · rename_i members hload
        rw [← Except.ok.inj (Option.some.inj hread)]
        exact reader.nests_of_value _ _ hload
      · cases Option.some.inj hread
  have hget : ∀ name : String, ((Json.get request name).getD .null).nests env.depth = true := by
    intro name
    cases hvalue : Json.get request name with
    | none => rfl
    | some value => exact Json.nests_get hmembers hvalue
  exact ⟨hget "operator", hget "reason", hget "request_id", hsound.hazard⟩

/-! ## The application -/

theorem apply_eq (h : AppliesTo env refText visit.journal request visit.applied marker key
    state job) :
    apply env refText visit.journal request visit.applied = (do
      match ← act env job marker.kind state (operatorRequest request key visit.applied)
          visit.applied.sealedBy visit.applied.reread with
      | none => .ok (match requestRefusal marker.kind (operatorRequest request key visit.applied) with
          | some reason => .unactionable reason
          | none => .nothing)
      | some moved =>
        .ok (.asks ⟨marker, moved.kind, moved.frame, moved.priority.map askedPriority, false⟩)) := by
  obtain ⟨target, htarget⟩ := h.target
  unfold apply resolveMarker act
  rw [h.envelope, h.operatorKey, htarget, h.found]
  simp only [h.generation, h.recordRef, h.state, h.job, bind, Except.bind, ne_eq, not_true_eq_false,
    if_false]
  cases applyRequest env job marker.kind state (operatorRequest request key visit.applied) with
  | error e => rfl
  | ok answer =>
    cases answer with
    | none => rfl
    | some move =>
      simp only
      cases requireUnsealed visit.applied.sealedBy with
      | error e => rfl
      | ok u =>
        simp only
        cases transition env visit.applied.reread marker.kind (.ok ()) move with
        | error e => rfl
        | ok moved => rfl

theorem validateEnvelope_raises : Raises (validateEnvelope request) Exc.Caught := by
  unfold validateEnvelope
  split_ifs
  · exact raises_raiseFormat rfl
  · exact raises_ok

theorem expectedGeneration_raises : Raises (expectedGeneration request) Exc.Caught := by
  unfold expectedGeneration
  split
  · exact raises_ok
  · exact raises_raiseFormat rfl

theorem expectedRecordRef_raises : Raises (expectedRecordRef request) Exc.Caught := by
  unfold expectedRecordRef
  split
  · exact raises_ok
  · exact raises_ok
  · exact raises_ok
  · exact raises_raiseFormat rfl

theorem apply_raises (hsound : visit.Sound env) (hread : readRequest reader visit = some (.ok request))
    (h : ∀ marker key state job, AppliesTo env refText visit.journal request visit.applied marker key state job →
      ActsHarmlessly env job marker.kind state (operatorRequest request key visit.applied) visit.applied.sealedBy) :
    Raises (apply env refText visit.journal request visit.applied) Exc.Caught := by
  by_cases happlies : ∃ marker key state job,
      AppliesTo env refText visit.journal request visit.applied marker key state job
  · obtain ⟨marker, key, state, job, happlies⟩ := happlies
    rw [apply_eq happlies]
    have hasked : (operatorRequest request key visit.applied).Nests env :=
      nests_operatorRequest hsound hread
    have hacts := act_raises (hsound.nests_state happlies.state) hasked hsound.reread (h _ _ _ _ happlies)
    refine hacts.bind fun answer _ => ?_
    cases answer <;> exact raises_ok
  · unfold apply
    refine validateEnvelope_raises.bind fun _ henvelope => ?_
    refine hsound.operatorKey.caught.bind fun key hkey => ?_
    refine Raises.bind ?_ fun answer hanswer => ?_
    · intro e he
      rcases bind_eq_error.mp he with htarget | ⟨target, -, hfound⟩
      · rcases requestTarget_error htarget with hhandled | ⟨hcls, hmessage, -⟩
        · exact hhandled.caught
        · exact ⟨Or.inr (Or.inr (by rw [hcls]; rfl)), hmessage⟩
      · exact (hsound.found e hfound).caught
    obtain ⟨target, htarget, hfound⟩ := bind_eq_ok.mp hanswer
    cases answer with
    | none => exact raises_raiseFormat rfl
    | some marker =>
      refine expectedGeneration_raises.bind fun generation hgeneration => ?_
      refine expectedRecordRef_raises.bind fun ref href => ?_
      split_ifs with hgen hrec
      · exact raises_ok
      · exact raises_ok
      · refine Raises.bind ?_ fun state hstate => ?_
        · unfold readState
          split
          · rename_i e hfault
            exact raises_error.mpr (hsound.stateFault e hfault).caught
          · exact raises_ok
        refine hsound.job.caught.bind fun job hjob => ?_
        refine absurd ⟨marker, key, state, job, henvelope, hkey, ⟨target, htarget⟩, hfound, ?_, ?_,
          hstate, hjob⟩ happlies
        · rw [hgeneration, not_not.mp hgen]
        · rw [href, not_not.mp hrec]

variable {reason : Message}

theorem encodable_requestRefusal {kind : StateKind} {asked : OperatorRequest}
    (h : requestRefusal kind asked = some reason) : reason.encodable = true := by
  unfold requestRefusal at h
  split at h
  · rw [← Option.some.inj h]
    rfl
  · split at h
    · split at h
      · rw [← Option.some.inj h]
        rfl
      · cases h
    · cases h

theorem encodable_unactionable (h : apply env refText visit.journal request visit.applied = .ok (.unactionable reason)) :
    reason.encodable = true := by
  unfold apply at h
  obtain ⟨-, -, h⟩ := bind_eq_ok.mp h
  obtain ⟨key, -, h⟩ := bind_eq_ok.mp h
  obtain ⟨answer, -, h⟩ := bind_eq_ok.mp h
  cases answer with
  | none => cases h
  | some marker =>
    obtain ⟨generation, -, h⟩ := bind_eq_ok.mp h
    obtain ⟨ref, -, h⟩ := bind_eq_ok.mp h
    split_ifs at h
    · rw [← Application.unactionable.inj (Except.ok.inj h)]
      rfl
    · rw [← Application.unactionable.inj (Except.ok.inj h)]
      rfl
    obtain ⟨state, -, h⟩ := bind_eq_ok.mp h
    obtain ⟨job, -, h⟩ := bind_eq_ok.mp h
    obtain ⟨move, -, h⟩ := bind_eq_ok.mp h
    cases move with
    | none =>
      have h := Except.ok.inj h
      split at h
      · rename_i text hrefusal
        rw [← Application.unactionable.inj h]
        exact encodable_requestRefusal hrefusal
      · cases h
    | some move =>
      obtain ⟨-, -, h⟩ := bind_eq_ok.mp h
      obtain ⟨moved, -, h⟩ := bind_eq_ok.mp h
      cases Except.ok.inj h

theorem completeTransition_raises (hsound : visit.Sound env) {asked : TransitionRequest} :
    Raises (completeTransition visit asked) Exc.Caught := by
  unfold completeTransition
  refine hsound.appends.caught.bind fun _ _ => ?_
  split_ifs
  · exact raises_raiseFormat rfl
  · exact hsound.renames.caught

theorem applyClaimed_comes (hsound : visit.Sound env) (hread : readRequest reader visit = some (.ok request))
    (h : ∀ marker key state job, AppliesTo env refText visit.journal request visit.applied marker key state job →
      ActsHarmlessly env job marker.kind state (operatorRequest request key visit.applied) visit.applied.sealedBy) :
    (applyClaimed refText env visit request).Comes := by
  have hraises := apply_raises hsound hread h
  unfold applyClaimed
  split
  · rename_i e he
    exact comes_of_caught (hraises e he)
  · rename_i reason hreason
    exact encodable_unactionable hreason
  · trivial
  · split
    · rename_i e he
      exact comes_of_caught (completeTransition_raises hsound e he)
    · trivial

theorem applyClaimed_escapes (happlies : AppliesTo env refText visit.journal request visit.applied marker key state job)
    (h : ¬ActsHarmlessly env job marker.kind state (operatorRequest request key visit.applied) visit.applied.sealedBy) :
    ∃ e, applyClaimed refText env visit request = .propagate e := by
  obtain ⟨e, he, hescapes⟩ : ∃ e, act env job marker.kind state
      (operatorRequest request key visit.applied) visit.applied.sealedBy visit.applied.reread
        = .error e ∧ e.Escapes := act_escapes h
  refine ⟨e, ?_⟩
  have herror : apply env refText visit.journal request visit.applied = .error e := by
    rw [apply_eq happlies, he]
    rfl
  unfold applyClaimed
  rw [herror]
  exact hescapes

/-! ## The preflight -/

/-- **A preflight that comes to a decision**, with nothing to report that cannot be. -/
def Preflight.Comes : Preflight → Prop
  | .take (.error e) => e.Caught
  | .take (.ok (some reason)) => reason.encodable = true
  | .propagate _ => False
  | _ => True

variable {e : Exc}

theorem comes_of_handled (h : e.Handled) : (preflightRaised e).Comes := by
  unfold preflightRaised
  split_ifs with hos hworkflow
  · trivial
  · exact h.caught
  · exact absurd h.1 (by simp [hos, hworkflow])

theorem preflightMarker_comes {world : PreflightWorld} {refusal : Option Message} (hjob : Raises world.job Exc.Handled)
    (hrefusal : ∀ reason, refusal = some reason → reason.encodable = true) :
    (preflightMarker world refusal).Comes := by
  unfold preflightMarker
  split
  · trivial
  · split
    · rfl
    · split
      · trivial
      · trivial
      · cases refusal with
        | some reason => exact hrefusal reason rfl
        | none =>
          simp only
          split
          · rename_i e hresult
            exact comes_of_handled (hjob e hresult)
          · split
            · trivial
            · trivial

theorem preflight_comes (hsound : visit.Sound env)
    (hplacement : ∀ owner, visit.observed.observedOwner = .ok owner → ¬MisplacedRequest request) :
    (preflight request (visit.observed.afterRead (some (.ok request)))).Comes := by
  unfold preflight PreflightWorld.afterRead
  simp only [Bool.false_eq_true, if_false]
  cases howner : visit.observed.observedOwner with
  | error e => trivial
  | ok owner =>
    have hrefusal : ∀ reason, (if owner ≠ visit.observed.requestOwner then
          some [.lit "request author (uid ", .num owner, .lit ") does not own this request's read bytes (uid ",
            .num visit.observed.requestOwner, .lit ")"]
        else none) = some reason → Message.encodable reason = true := by
      intro reason hreason
      split_ifs at hreason
      rw [← Option.some.inj hreason]
      rfl
    have htake : Preflight.Comes (.take (.ok (if owner ≠ visit.observed.requestOwner then
          some [.lit "request author (uid ", .num owner, .lit ") does not own this request's read bytes (uid ",
            .num visit.observed.requestOwner, .lit ")"]
        else none))) := by
      split_ifs
      · rfl
      · trivial
    simp only
    split
    · cases hresolve : resolveMarker request visit.observed.found with
      | error e =>
        refine comes_of_handled ?_
        rcases bind_eq_error.mp hresolve with htarget | ⟨target, -, hfound⟩
        · refine (requestTarget_error htarget).resolve_right ?_
          rintro ⟨-, -, hmisplaced⟩
          exact hplacement owner howner hmisplaced
        · exact hsound.observedFound e hfound
      | ok answer =>
        cases answer with
        | none => exact htake
        | some marker => exact preflightMarker_comes hsound.observedJob hrefusal
    · exact htake

theorem preflight_escapes {owner : Nat} (howner : visit.observed.observedOwner = .ok owner)
    (h : MisplacedRequest request) :
    ∃ e, preflight request (visit.observed.afterRead (some (.ok request))) = .propagate e := by
  refine ⟨⟨.unicodeEncode, [.lit "surrogates not allowed"]⟩, ?_⟩
  have htarget := requestTarget_misplaced h
  obtain ⟨jobKey, jobId, placement, tag, hkey, -, hplacement, -⟩ := h
  unfold preflight PreflightWorld.afterRead resolveMarker
  simp only [Bool.false_eq_true, if_false, howner, hkey, hplacement, htarget]
  rfl

/-! ## One file, and a pass -/

theorem fileAway_returns (hsound : visit.Sound env) {ending : PassEnd}
    (h : reason.encodable = true) : ∃ e, fileAway visit reason ending = .ok e := by
  unfold fileAway
  cases hfiles : visit.files with
  | error e => exact ⟨.later, if_pos (hsound.files e hfiles)⟩
  | ok u => exact ⟨ending, if_pos ⟨hsound.name, h⟩⟩

theorem concludeRequest_returns (hsound : visit.Sound env) {ending : HandleEnd} (h : ending.Comes) :
    ∃ e, concludeRequest visit ending = .ok e := by
  cases ending with
  | retire reason => exact fileAway_returns hsound h
  | quarantine reason => exact fileAway_returns hsound h
  | leave => exact ⟨.later, rfl⟩
  | handled =>
    refine ⟨.applied, ?_⟩
    show visit.removes.map _ = _
    rw [hsound.removes]
    rfl
  | propagate e => exact h.elim

theorem handleFile_propagates (hfile : visit.isFile = true) (hdeferred : visit.deferred = false)
    (h : preflight (membersRead (readRequest reader visit))
      (visit.observed.afterRead (readRequest reader visit)) = .propagate e) :
    handleFile refText reader visit = .error e := by
  unfold handleFile
  rw [if_neg (by simp [hfile, hdeferred])]
  simp only [h]

theorem handleFile_accepted (hsound : visit.Sound env)
    (h : Accepted refText reader visit request marker key state job) :
    handleFile refText reader visit
      = concludeRequest visit (applyClaimed refText env visit request) := by
  have hpreflight : preflight (membersRead (some (.ok request)))
      (visit.observed.afterRead (some (.ok request))) = .take (.ok none) := h.preflight
  unfold handleFile
  rw [if_neg (by simp [h.isFile, h.notDeferred])]
  simp only [h.read, hpreflight, hsound.directory, h.claimed, Bool.true_eq_false, if_false]
  show handleClaimed refText env visit request (.ok none) = _
  unfold handleClaimed
  simp only [h.same]

theorem handleClaimed_returns (hsound : visit.Sound env) {verdict : Except Exc (Option Message)}
    (hverdict : (Preflight.take verdict).Comes)
    (happly : verdict = .ok none → visit.same = some true → (applyClaimed refText env visit request).Comes) :
    ∃ ending, handleClaimed refText env visit request verdict = .ok ending := by
  unfold handleClaimed
  cases verdict with
  | error e => exact concludeRequest_returns hsound (comes_of_caught hverdict)
  | ok refusal =>
    simp only
    split
    · exact ⟨.later, rfl⟩
    · exact concludeRequest_returns hsound (comes_of_caught ⟨Or.inr (Or.inl rfl), rfl⟩)
    · rename_i hsame
      cases refusal with
      | some reason => exact concludeRequest_returns hsound hverdict
      | none => exact concludeRequest_returns hsound (happly rfl hsame)

theorem readRequest_refused (hsound : visit.Sound env) (hloads : visit.opening = .opened →
      reader.load visit.content ≠ .tooManyDigits ∧ reader.load visit.content ≠ .tooDeep)
    (h : readRequest reader visit = some (.error e)) : e.Handled := by
  have hpath : ∀ before after : Message, before.encodable = true → after.encodable = true →
      Message.encodable (before ++ .path [visit.name] :: after) = true := by
    intro before after hbefore hafter
    unfold Message.encodable at hbefore hafter ⊢
    simp [hbefore, hafter, MessagePart.encodable, hsound.name]
  unfold readRequest at h
  split at h
  · cases h
  · rw [← Except.error.inj (Option.some.inj h)]
    exact ⟨Or.inl rfl, hpath [.lit _] [] rfl rfl⟩
  · rename_i hopened
    obtain ⟨hdigits, hdeep⟩ := hloads hopened
    split at h
    · rw [← Except.error.inj (Option.some.inj h)]
      exact ⟨Or.inl rfl, hpath [.lit _] [.lit _, .lit _] rfl rfl⟩
    · rename_i hload
      exact absurd hload hdigits
    · rename_i hload
      exact absurd hload hdeep
    · cases Option.some.inj h
    · rw [← Except.error.inj (Option.some.inj h)]
      exact ⟨Or.inl rfl, hpath [.lit _] [] rfl rfl⟩

theorem preflight_unloaded (hopened : visit.opening = .opened)
    (h : reader.load visit.content = .tooManyDigits ∨ reader.load visit.content = .tooDeep) :
    ∃ e, preflight (membersRead (readRequest reader visit))
      (visit.observed.afterRead (readRequest reader visit)) = .propagate e := by
  have hread : ∃ e, readRequest reader visit = some (.error e) ∧ preflightRaised e = .propagate e := by
    unfold readRequest
    rw [hopened]
    rcases h with h | h <;> exact ⟨_, by rw [h], rfl⟩
  obtain ⟨e, hread, hraised⟩ := hread
  refine ⟨e, ?_⟩
  rw [hread]
  exact hraised

theorem harmless_comes (hsound : visit.Sound env) (hfile : visit.isFile = true)
    (hdeferred : visit.deferred = false) (h : Harmless refText reader visit) :
    (preflight (membersRead (readRequest reader visit))
      (visit.observed.afterRead (readRequest reader visit))).Comes := by
  cases hread : readRequest reader visit with
  | none => trivial
  | some result =>
    cases result with
    | error e => exact comes_of_handled (readRequest_refused hsound (h.loads hfile hdeferred) hread)
    | ok request =>
      exact preflight_comes hsound fun owner howner =>
        h.placement request owner hfile hdeferred hread howner

theorem read_of_take (h : preflight (membersRead (readRequest reader visit))
      (visit.observed.afterRead (readRequest reader visit)) = .take (.ok none)) :
    ∃ request, readRequest reader visit = some (.ok request) := by
  cases hread : readRequest reader visit with
  | none =>
    rw [hread] at h
    cases h
  | some result =>
    cases result with
    | ok request => exact ⟨request, rfl⟩
    | error e =>
      rw [hread] at h
      have h : preflightRaised e = .take (.ok none) := h
      unfold preflightRaised at h
      split_ifs at h
      cases h

theorem returns_of_harmless (hsound : visit.Sound env) (h : Harmless refText reader visit) :
    ∃ ending, handleFile refText reader visit = .ok ending := by
  by_cases hvisited : visit.isFile = false ∨ visit.deferred = true
  · exact ⟨.skipped, if_pos hvisited⟩
  have hfile : visit.isFile = true := eq_true_of_ne_false fun hno => hvisited (Or.inl hno)
  have hdeferred : visit.deferred = false := eq_false_of_ne_true fun hno => hvisited (Or.inr hno)
  have hcomes := harmless_comes hsound hfile hdeferred h
  unfold handleFile
  rw [if_neg hvisited]
  simp only
  split
  · exact ⟨.later, rfl⟩
  · exact ⟨.deferred, rfl⟩
  · rename_i e he
    rw [he] at hcomes
    exact hcomes.elim
  · rename_i verdict htake
    rw [htake] at hcomes
    rw [hsound.directory]
    show ∃ ending, (if visit.claimed = false then Except.ok PassEnd.later else _) = _
    by_cases hclaimed : visit.claimed = false
    · exact ⟨.later, if_pos hclaimed⟩
    · rw [if_neg hclaimed]
      refine handleClaimed_returns hsound hcomes ?_
      rintro rfl hsame
      obtain ⟨request, hread⟩ := read_of_take htake
      rw [hread] at htake ⊢
      exact applyClaimed_comes hsound hread fun marker key state job happlies =>
        h.acts request marker key state job ⟨hfile, hdeferred, hread, htake,
          eq_true_of_ne_false hclaimed, hsame, happlies⟩

theorem handleFile_returns (hsound : visit.Sound env) :
    (∃ ending, handleFile refText reader visit = .ok ending) ↔ Harmless refText reader visit := by
  refine ⟨?_, returns_of_harmless hsound⟩
  rintro ⟨ending, hreturns⟩
  have hpreflight : visit.isFile = true → visit.deferred = false →
      ¬∃ e, preflight (membersRead (readRequest reader visit))
        (visit.observed.afterRead (readRequest reader visit)) = .propagate e := by
    rintro hfile hdeferred ⟨e, he⟩
    have herror : handleFile refText reader visit = .error e :=
      handleFile_propagates hfile hdeferred he
    cases herror.symm.trans hreturns
  constructor
  case loads =>
    intro hfile hdeferred hopened
    by_contra hload
    refine hpreflight hfile hdeferred (preflight_unloaded hopened ?_)
    rcases not_and_or.mp hload with hdigits | hdeep
    · exact Or.inl (not_not.mp hdigits)
    · exact Or.inr (not_not.mp hdeep)
  case placement =>
    intro request owner hfile hdeferred hread howner hmisplaced
    refine hpreflight hfile hdeferred ?_
    rw [hread]
    exact preflight_escapes howner hmisplaced
  case acts =>
    intro request marker key state job haccepted
    by_contra hacts
    obtain ⟨e, he⟩ := applyClaimed_escapes haccepted.applies hacts
    rw [handleFile_accepted hsound haccepted, he] at hreturns
    cases hreturns

/-- **No exception leaves the pass exactly where every file is harmless**: then each is
applied, retired, quarantined, deferred, or left for a later pass. -/
theorem handle_returns {visits : List RequestVisit} (hsound : ∀ visit ∈ visits, visit.Sound env) :
    (∃ endings, handle refText reader visits = .ok endings)
      ↔ ∀ visit ∈ visits, Harmless refText reader visit := by
  unfold handle
  rw [mapM_returns]
  exact forall₂_congr fun visit hvisit => handleFile_returns (hsound visit hvisit)

end Escapes

/-! ## A priority that is no number -/

def nullPriorityText : List UInt8 :=
  ("\x7b\"format\": \"httk-workflow-request\", \"format_version\": 2, "
    ++ "\"job_key\": \"00000000-0000-4000-8000-000000000001\", "
    ++ "\"job_id\": \"00000000-0000-4000-8000-000000000001\", \"placement\": \"a\", "
    ++ "\"expected_generation\": 0, \"expected_record_ref\": \"init\", "
    ++ "\"action\": \"set_priority\", \"priority\": null\x7d").toUTF8.toList

def nullPriority : List (PyStr × Json) :=
  [("format", .str "httk-workflow-request"), ("format_version", .int 2),
    ("job_key", .str "00000000-0000-4000-8000-000000000001"),
    ("job_id", .str "00000000-0000-4000-8000-000000000001"), ("placement", .str "a"),
    ("expected_generation", .int 0), ("expected_record_ref", .str "init"),
    ("action", .str "set_priority"), ("priority", .null)]

def nullPriorityReader : JsonReader plainCommitEnv where
  load bytes :=
    if bytes = nullPriorityText then .value (.obj nullPriority)
    else .malformed "Expecting value: line 1 column 1 (char 0)"
  nests_of_value bytes value h := by
    split_ifs at h
    rw [← Loaded.value.inj h]
    decide

def nullPriorityVisit : RequestVisit where
  name := "request.json"
  content := nullPriorityText
  isFile := true
  deferred := false
  opening := .opened
  observed := RequestState.plainPreflight
  directory := .ok ⟨⟩
  claimed := true
  same := some true
  journal := []
  applied := RequestState.plainApplyWorld
  appends := .ok ⟨⟩
  renames := .ok ⟨⟩
  files := .ok ⟨⟩
  removes := .ok ⟨⟩

theorem nullPriorityVisit_sound : nullPriorityVisit.Sound plainCommitEnv where
  name := PyStr.encodable_ofString _
  observedFound := raises_ok
  observedJob := raises_ok
  directory := rfl
  operatorKey := raises_ok
  found := raises_ok
  stateFault e h := by cases h
  job := raises_ok
  appends := raises_ok
  renames := raises_ok
  files := raises_ok
  removes := rfl
  journal frame h := by cases h
  reread f h := by cases h
  hazard h hh := by cases hh

theorem readRequest_opened {env : CommitEnv} {reader : JsonReader env} {visit : RequestVisit}
    {members : List (PyStr × Json)} (hopening : visit.opening = .opened)
    (hload : reader.load visit.content = .value (.obj members)) : readRequest reader visit = some (.ok members) := by
  unfold readRequest
  rw [hopening]
  simp only [hload]

theorem nullPriority_read : readRequest nullPriorityReader nullPriorityVisit = some (.ok nullPriority) := by
  have hload : nullPriorityReader.load nullPriorityText = .value (.obj nullPriority) := if_pos rfl
  exact readRequest_opened rfl hload

/-- **The `TypeError` of `int(None)`** leaves the pass. -/
theorem nullPriority_escapes :
    (∀ visit ∈ [nullPriorityVisit], visit.Sound plainCommitEnv)
      ∧ ∃ e, handle RequestState.plainRefText nullPriorityReader [nullPriorityVisit] = .error e
        ∧ e.cls = .typeError := by
  refine ⟨fun visit hvisit => List.mem_singleton.mp hvisit ▸ nullPriorityVisit_sound, ?_⟩
  let e : Exc := ⟨.typeError,
    [.lit "int() argument must be a string, a bytes-like object or a real number"]⟩
  have hfile : handleFile RequestState.plainRefText nullPriorityReader nullPriorityVisit
      = .error e := by
    unfold handleFile
    rw [nullPriority_read]
    rfl
  refine ⟨e, ?_, rfl⟩
  unfold handle
  rw [List.mapM_cons, hfile]
  rfl

/-- The theorem at that file. -/
theorem handle_returns_nullPriority :
    (∃ endings, handle RequestState.plainRefText nullPriorityReader [nullPriorityVisit]
        = .ok endings)
      ↔ ∀ visit ∈ [nullPriorityVisit],
        Harmless RequestState.plainRefText nullPriorityReader visit :=
  handle_returns fun _ hvisit => List.mem_singleton.mp hvisit ▸ nullPriorityVisit_sound
