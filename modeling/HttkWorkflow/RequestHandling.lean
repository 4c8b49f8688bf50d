import HttkWorkflow.JobRun
import HttkWorkflow.RenameVerdict

/-!
# Requests

An operator changes a job by publishing a request: a file below
`requests/ready/` that names the job, the generation and the state record it
was written for, and what is to be done. A manager that sees the file renames
it into its own claimed directory, applies it, and removes or retires it.
Applying it is a transition of the job, so that there are two effects and any
number of ways for the second not to follow the first.

What keeps a request that is seen again from being applied again is the guard
of `apply`: the transition starts from a marker of exactly the generation and
the record the request names, and a job has one marker of each generation.

The managers are followed here through `handle`, file by file, on a workspace
where transitions of all actors go on. Any of them may stop between two
effects, and whatever a rename or a look at a file reports is the choice of
the label.
-/

/-! ## What a request says -/

/-- `_UUID_PATTERN`. -/
def isUuidText (t : PyStr) : Bool :=
  let groups := t.split '-'
  groups.map (fun g => g.codes.length) = [8, 4, 4, 4, 12] ∧ groups.all fun g =>
    g.codes.all fun c => (0x30 ≤ c && c ≤ 0x39) || (0x61 ≤ c && c ≤ 0x66)

/-- **`parse_job_key`**: the tag, where there is one, and the UUID. -/
def parseJobKey (value : PyStr) : Except Exc (Option PyStr × PyStr) :=
  let length := value.codes.length
  let jobId : PyStr := ⟨value.codes.drop (length - 36)⟩
  if isUuidText jobId = false then
    raiseFormat [.lit "invalid job key UUID: ", .repr (some (.str value))]
  else if length = 36 then .ok (none, jobId)
  else if (value.codes.drop (length - 38)).take (length - 36 - (length - 38))
      ≠ ['-'.toNat, '-'.toNat] then
    raiseFormat [.lit "invalid job key separator: ", .repr (some (.str value))]
  else do
    let tag ← validateLabel (some (.str ⟨value.codes.take (length - 38)⟩)) "job key tag"
    .ok (some tag, jobId)

/-- **The target of a request**: its job, by tag and UUID, and its placement. -/
structure RequestTarget where
  tag : Option PyStr
  jobId : PyStr
  placement : List PyStr

/-- Whether a marker is one `find_marker_at` may answer with for a target. -/
def Marker.isOf (m : Marker) (target : RequestTarget) : Bool :=
  m.jobKey.tag.map PyStr.ofString = target.tag ∧ PyStr.ofString m.jobKey.id = target.jobId
    ∧ m.placement.map PyStr.ofString = target.placement

/-- What `_resolve_request_marker` reads of a request. -/
def requestTarget (request : List (PyStr × Json)) : Except Exc RequestTarget :=
  match Json.get request "job_key", Json.get request "job_id", Json.get request "placement" with
  | some (.str jobKey), some (.str jobId), some (.str placement) => do
    let (tag, keyId) ← parseJobKey jobKey
    if keyId ≠ jobId then raiseFormat [.lit "request job_id disagrees with job_key"]
    else
      let placement ← normalizePlacement placement
      .ok ⟨tag, keyId, placement⟩
  | _, _, _ => raiseFormat [.lit "request must carry a job_id, job_key, and placement"]

/-- **`resolve_marker`**. `found` is what `find_marker_at` answers. -/
def resolveMarker (request : List (PyStr × Json)) (found : Except Exc (Option Marker)) :
    Except Exc (Option Marker) := do
  let _ ← requestTarget request
  found

def validateEnvelope (request : List (PyStr × Json)) : Except Exc PUnit :=
  if Json.optEqStr (Json.get request "format") "httk-workflow-request" = false
      ∨ Json.optEqInt (Json.get request "format_version") 2 = false then
    raiseFormat [.lit "request must use httk-workflow-request version 2"]
  else .ok ()

/-- `expected_generation`: an integer, and no boolean. -/
def expectedGeneration (request : List (PyStr × Json)) : Except Exc Int :=
  match Json.get request "expected_generation" with
  | some (.int n) => .ok n
  | _ => raiseFormat [.lit "request expected_generation must be an integer"]

/-- `expected_record_ref`: a string or nothing. -/
def expectedRecordRef (request : List (PyStr × Json)) : Except Exc (Option PyStr) :=
  match Json.get request "expected_record_ref" with
  | some (.str ref) => .ok (some ref)
  | none | some .null => .ok none
  | _ => raiseFormat [.lit "request expected_record_ref must be a string or null"]

/-! ## Applying a request -/

/-- **What applying a request finds in the world.** -/
structure ApplyWorld where
  /-- `_request_operator_key`: the key of a valid signature, none without one. -/
  operatorKey : Except Exc (Option PyStr)
  /-- The answer of `find_marker_at`. -/
  found : Except Exc (Option Marker)
  /-- Why the frame of the marker cannot be read, if it cannot. -/
  stateFault : Option Exc
  /-- `load_job`. -/
  job : Except Exc JobDefinition
  /-- `_decided_join_hazard`. -/
  hazard : Option (List (PyStr × Json))
  /-- The time, and the activation id made up if one is needed. -/
  utcNow : PyStr
  freshId : PyStr
  /-- The frame of the marker, read again by `_transition`. -/
  reread : Option StateFrame
  /-- `_require_unsealed`: what the job, its workspace or its project is sealed with. -/
  sealedBy : Option Message

/-- **`_require_unsealed`**. A `SealedError` is no `WorkflowError`. -/
def requireUnsealed (sealedBy : Option Message) : Except Exc PUnit :=
  match sealedBy with
  | some message => .error ⟨.sealed, message⟩
  | none => .ok ()

def readState (journal : List Frame) (marker : Marker) (fault : Option Exc) :
    Except Exc StateFrame :=
  match fault with
  | some e => .error e
  | none => .ok (((readRecord journal marker.recordRef).map Frame.members).getD .empty)

def operatorRequest (request : List (PyStr × Json)) (operatorKey : Option PyStr)
    (world : ApplyWorld) : OperatorRequest where
  action := Json.get request "action"
  operator := (Json.get request "operator").getD .null
  reason := (Json.get request "reason").getD .null
  requestId := (Json.get request "request_id").getD .null
  requestedAt :=
    match Json.get request "created_at" with
    | some (.str t) => if t.codes = [] then world.utcNow else t
    | _ => world.utcNow
  priority := Json.get request "priority"
  step := Json.get request "step"
  force := ((Json.get request "force").map Json.truthy).getD false
  operatorKey := operatorKey
  hazard := world.hazard
  utcNow := world.utcNow
  freshId := world.freshId

/-- Why an action that asks for no transition can never ask for one; `none` where it
had nothing to do. -/
def requestRefusal (kind : StateKind) (asked : OperatorRequest) : Option Message :=
  if Json.optEqStr asked.action "cancel" = true ∧ kind = .cancelling then
    some [.lit "the job is already being cancelled"]
  else
    match asked.hazard with
    | some hazard =>
      if (Json.optEqStr asked.action "continue" = true
            ∨ Json.optEqStr asked.action "override_step" = true)
          ∧ (kind = .failed ∨ kind = .paused) ∧ asked.force = false then
        some [.lit "this job was already consumed by the decided join of parent ",
          .repr (Json.get hazard "parent_job_key"), .lit ", which observed it as ",
          .repr (Json.get hazard "observed_kind"),
          .lit "; reviving it now races the parent reading its outputs. ",
          .lit "Republish the request with force to accept that hazard, ",
          .lit "or continue the parent instead"]
      else none
    | none => none

/-- The priority a marker is asked to have. A negative one fits no marker name, as
1000 does not. -/
def askedPriority (priority : Int) : Nat := if priority < 0 then 1000 else priority.toNat

/-- **What applying a request comes to**, unless it raises. -/
inductive Application where
  /-- It can never be applied. -/
  | unactionable (reason : Message)
  | nothing
  | asks (transition : TransitionRequest)

/-- **`apply`**, up to the transition. `refText` is a record reference as it is
written in a marker name. -/
def apply (env : CommitEnv) (refText : RecordRef → PyStr) (journal : List Frame)
    (request : List (PyStr × Json)) (world : ApplyWorld) : Except Exc Application := do
  validateEnvelope request
  let operatorKey ← world.operatorKey
  match ← resolveMarker request world.found with
  | none => raiseFormat [.lit "request job does not exist"]
  | some marker =>
    let generation ← expectedGeneration request
    let ref ← expectedRecordRef request
    if (marker.generation : Int) ≠ generation then
      .ok (.unactionable [.lit "the job is at generation ", .num marker.generation,
        .lit ", not the expected one"])
    else if some (refText marker.recordRef) ≠ ref then
      .ok (.unactionable [.lit "the job state changed after the request was published"])
    else
      let state ← readState journal marker world.stateFault
      let job ← world.job
      let asked := operatorRequest request operatorKey world
      match ← applyRequest env job marker.kind state asked with
      | none =>
        .ok (match requestRefusal marker.kind asked with
          | some reason => .unactionable reason
          | none => .nothing)
      | some move =>
        requireUnsealed world.sealedBy
        let moved ← transition env world.reread marker.kind (.ok ()) move
        .ok (.asks ⟨marker, moved.kind, moved.frame, moved.priority.map askedPriority, false⟩)

/-- **The marker a request was written for.** -/
structure Expected (refText : RecordRef → PyStr) (request : List (PyStr × Json)) (m : Marker) :
    Prop where
  target : ∃ target, requestTarget request = .ok target ∧ m.isOf target = true
  generation : expectedGeneration request = .ok m.generation
  recordRef : expectedRecordRef request = .ok (some (refText m.recordRef))

/-- Whether an answer of `find_marker_at` is a marker the job had. -/
def isFound (history : List Marker) (request : List (PyStr × Json)) :
    Except Exc (Option Marker) → Bool
  | .ok (some m) =>
    match requestTarget request with
    | .ok target => m ∈ history ∧ m.isOf target = true
    | .error _ => true
  | _ => true

variable {request : List (PyStr × Json)}

theorem expected_of_asks {env : CommitEnv} {refText : RecordRef → PyStr} {journal : List Frame}
    {history : List Marker} {world : ApplyWorld}
    {asked : TransitionRequest} (hfound : isFound history request world.found = true)
    (h : apply env refText journal request world = .ok (.asks asked)) :
    Expected refText request asked.marker ∧ asked.marker ∈ history := by
  unfold apply at h
  obtain ⟨-, -, h⟩ := bind_eq_ok.mp h
  obtain ⟨key, -, h⟩ := bind_eq_ok.mp h
  obtain ⟨answer, hanswer, h⟩ := bind_eq_ok.mp h
  obtain ⟨target, htarget, hanswer⟩ := bind_eq_ok.mp hanswer
  cases answer with
  | none => cases h
  | some marker =>
    rw [hanswer, isFound, htarget] at hfound
    obtain ⟨hmem, hof⟩ := of_decide_eq_true hfound
    obtain ⟨generation, hgeneration, h⟩ := bind_eq_ok.mp h
    obtain ⟨ref, href, h⟩ := bind_eq_ok.mp h
    split_ifs at h with hgen hrec
    · cases h
    · cases h
    obtain ⟨state, -, h⟩ := bind_eq_ok.mp h
    obtain ⟨job, -, h⟩ := bind_eq_ok.mp h
    obtain ⟨move, -, h⟩ := bind_eq_ok.mp h
    have hasks : asked.marker = marker := by
      cases move with
      | none =>
        have h := Except.ok.inj h
        split at h <;> cases h
      | some move =>
        obtain ⟨-, -, h⟩ := bind_eq_ok.mp h
        obtain ⟨moved, -, h⟩ := bind_eq_ok.mp h
        rw [← Application.asks.inj (Except.ok.inj h)]
    rw [hasks]
    refine ⟨⟨⟨target, htarget, hof⟩, ?_, ?_⟩, hmem⟩
    · rw [hgeneration, not_not.mp hgen]
    · rw [href, not_not.mp hrec]

theorem Expected.jobId_eq {refText : RecordRef → PyStr} {a b : Marker}
    (ha : Expected refText request a) (hb : Expected refText request b) : a.jobId = b.jobId := by
  obtain ⟨target, htarget, hof⟩ := ha.target
  obtain ⟨target', htarget', hof'⟩ := hb.target
  obtain rfl := Except.ok.inj (htarget.symm.trans htarget')
  obtain ⟨-, hid, -⟩ := of_decide_eq_true hof
  obtain ⟨-, hid', -⟩ := of_decide_eq_true hof'
  exact PyStr.ofString_injective (hid.trans hid'.symm)

theorem Expected.generation_eq {refText : RecordRef → PyStr} {a b : Marker}
    (ha : Expected refText request a) (hb : Expected refText request b) :
    a.generation = b.generation :=
  Int.natCast_inj.mp (Except.ok.inj (ha.generation.symm.trans hb.generation))

/-! ## One request in a pass -/

/-- **What becomes of a request before it is claimed.** -/
inductive Preflight where
  /-- It is left for the next pass. -/
  | later
  /-- It is left for another manager. -/
  | leave
  /-- It is to be claimed, with the error it was found to have or the refusal. -/
  | take (verdict : Except Exc (Option Message))
  /-- The exception leaves the pass. -/
  | propagate (e : Exc)

/-- **What a manager finds before it claims a request.** -/
structure PreflightWorld where
  /-- `_read_request`: the file cannot be observed, or is no request. -/
  indeterminate : Bool
  malformed : Option Exc
  /-- The owner of the bytes that were read. -/
  requestOwner : Nat
  /-- The owner of the file that is now at the path. -/
  observedOwner : Except Exc Nat
  /-- The answer of `find_marker_at`. -/
  found : Except Exc (Option Marker)
  markerOwner : Except Exc Nat
  owns : Option Bool
  /-- `load_job`, and whether an executor of this manager serves the job. -/
  job : Except Exc PUnit
  served : Bool

/-- What an exception before the claim leads to. -/
def preflightRaised (e : Exc) : Preflight :=
  if e.cls.isOSError = true then .later
  else if e.cls.isWorkflowError = true then .take (.error e)
  else .propagate e

def preflightMarker (world : PreflightWorld) (refusal : Option Message) : Preflight :=
  match world.markerOwner with
  | .error _ => .later
  | .ok markerOwner =>
    if world.requestOwner ≠ markerOwner then
      .take (.ok (some [.lit "request author (uid ", .num world.requestOwner,
        .lit ") does not own this job (uid ", .num markerOwner, .lit ")"]))
    else
      match world.owns with
      | none => .later
      | some false => .leave
      | some true =>
        match refusal with
        | some reason => .take (.ok (some reason))
        | none =>
          match world.job with
          | .error e => preflightRaised e
          | .ok _ => if world.served = true then .take (.ok none) else .leave

/-- **The preflight of `handle`**: what is decided of a request as it lies in
`ready`. -/
def preflight (request : List (PyStr × Json)) (world : PreflightWorld) : Preflight :=
  if world.indeterminate = true then .later
  else
    match world.malformed, world.observedOwner with
    | some e, _ => preflightRaised e
    | none, .error _ => .later
    | none, .ok observedOwner =>
      let refusal := if observedOwner ≠ world.requestOwner then
          some [.lit "request author (uid ", .num observedOwner,
            .lit ") does not own this request's read bytes (uid ", .num world.requestOwner,
            .lit ")"]
        else none
      match Json.get request "job_key", Json.get request "placement" with
      | some (.str _), some (.str _) =>
        match resolveMarker request world.found with
        | .error e => preflightRaised e
        | .ok none => .take (.ok refusal)
        | .ok (some _) => preflightMarker world refusal
      | _, _ => .take (.ok refusal)

/-- **What is done with a claimed request in the end.** -/
inductive HandleEnd where
  | retire (reason : Message)
  | quarantine (reason : Message)
  /-- It is left claimed, to be retried. -/
  | leave
  /-- It was applied, and its file is removed. -/
  | handled
  /-- The exception leaves the pass. -/
  | propagate (e : Exc)

/-- **The `except` clauses of `handle`.** -/
def handleRaised (e : Exc) : HandleEnd :=
  if e.cls = .transitionLost then .retire [.lit "the job moved to another state first"]
  else if e.cls.isOSError = true then .leave
  else if e.cls.isWorkflowError = true ∨ e.cls.isValueError = true then
    .quarantine ([.lit "invalid request: "] ++ e.message)
  else .propagate e

/-! ## The workspace with its requests -/

/-- **Where a request file is.** -/
inductive RequestPlace where
  | ready
  | claimed (manager : Nat)
  | retired
  | quarantined
deriving DecidableEq

/-- **How far a manager's pass has come** with one request. -/
inductive HandlePhase where
  | idle
  /-- The request was read, and is to be claimed. -/
  | preflighted (name : Nat) (verdict : Except Exc (Option Message))
  | claimed (name : Nat) (verdict : Except Exc (Option Message))
  /-- It is the file that was read, and is to be applied. -/
  | accepted (name : Nat)
  /-- The call of `transition` was made. -/
  | applying (name i : Nat)
  | ending (name : Nat) (ending : HandleEnd)

/-- The calls a manager leaves when it leaves its phase. -/
def HandlePhase.calls : HandlePhase → List Nat
  | .applying _ i => [i]
  | _ => []

/-- **A manager**, under an id nobody had before. -/
structure RequestManager where
  alive : Bool
  phase : HandlePhase
  /-- `_deferred_requests`. -/
  deferred : List Nat
  /-- When it last heartbeated. -/
  heartbeat : Nat

/-- **A request that was published**, and when. -/
structure PublishedRequest where
  document : List (PyStr × Json)
  publishedAt : Nat

/-- **A collection**: its time, and the managers it took for live. -/
structure Survey where
  time : Nat
  live : Nat → Bool

/-- **How the handling of a request ended.** -/
inductive RequestEnd where
  | applied
  | retired
  | quarantined
deriving DecidableEq

/-- **The workspace, its requests and its managers.** Requests go by the name of
their file. -/
structure RequestState where
  workspace : TransitionState
  published : Nat → Option PublishedRequest
  places : Nat → Option RequestPlace
  managers : Nat → Option RequestManager
  now : Nat
  surveys : Nat → Option Survey
  /-- Which call was made for which request. -/
  applications : List (Nat × Nat)
  /-- The calls nobody goes on with. -/
  left : List Nat
  /-- How the requests were settled, so far. -/
  settled : Nat → Option RequestEnd
  /-- The requests that were collected from a claimed directory, by the manager
  whose it was and the collection. -/
  collected : Nat → Option (Nat × Survey)

/-- What a rename reports: an error is followed by a look at the destination. -/
inductive RenameReport where
  | returned
  /-- `lstat`: the file is there, or not, or that cannot be told. -/
  | failed (seen : Option Bool)
deriving DecidableEq

/-- **The steps of a pass.** Whether a rename took effect is the choice of
`executed`. -/
inductive HandleStep where
  /-- A file of the own claimed directory goes back to `ready`. -/
  | restore (name : Nat) (executed : Bool)
  | preflight (name : Nat) (world : PreflightWorld)
  | claim (executed : Bool) (report : RenameReport)
  /-- The claimed file is compared with the one that was read. -/
  | inspect (same : Option Bool) (executed : Bool)
  | apply (i : Nat) (world : ApplyWorld)
  /-- The call of `transition` is over, or an exception inside it ends it, or one
  after it. -/
  | conclude (fault : Option Exc)
  | settle (executed : Bool)
  /-- An exception leaves the pass. -/
  | abandon
  | die

/-- **The steps of the workspace.** -/
inductive RequestLabel where
  /-- A transition of any actor goes on. -/
  | workspace (l : TransitionLabel)
  | publish (name : Nat) (document : List (PyStr × Json))
  | start (m : Nat)
  | handle (m : Nat) (step : HandleStep)
  | tick (time : Nat)
  | heartbeat (m : Nat)
  /-- A collection begins; the manager that runs it, if one does, counts as live. -/
  | survey (c : Nat) (caller : Option Nat)
  /-- It removes a request from the claimed directory of a manager. -/
  | collect (c name : Nat)
  /-- It removes a retired request. -/
  | collectRetired (c name : Nat)

def retiredRequestMaximumAgeSeconds : Nat := 30 * 24 * 60 * 60

namespace RequestState

def setManager (s : RequestState) (m : Nat) (manager : RequestManager) : RequestState :=
  { s with managers := Function.update s.managers m (some manager) }

/-- A request file moves, or is removed. -/
def setPlace (s : RequestState) (name : Nat) (place : Option RequestPlace) : RequestState :=
  { s with places := Function.update s.places name place }

/-- The handling of a request ends. -/
def setSettled (s : RequestState) (name : Nat) (settled : RequestEnd) : RequestState :=
  { s with settled := Function.update s.settled name (some settled) }

/-- **A rename of a request file**, if its source is there. -/
def renameRequest (s : RequestState) (name : Nat) (source destination : RequestPlace)
    (executed : Bool) : RequestState :=
  if executed = true ∧ s.places name = some source then s.setPlace name (some destination) else s

def settleFile (s : RequestState) (m name : Nat) (executed : Bool) : HandleEnd → RequestState
  | .retire _ =>
    if executed = true ∧ s.places name = some (.claimed m) then
      (s.setPlace name (some .retired)).setSettled name .retired
    else s
  | .quarantine _ =>
    if executed = true ∧ s.places name = some (.claimed m) then
      (s.setPlace name (some .quarantined)).setSettled name .quarantined
    else s
  | .handled =>
    if executed = true ∧ s.places name = some (.claimed m) then
      (s.setPlace name none).setSettled name .applied
    else s
  | .leave | .propagate _ => s

/-- What a manager that waits for `transition` has got: `none` as long as it waits. -/
def concluded (s : RequestState) (i : Nat) : Option Exc → Option HandleEnd
  | some e => some (handleRaised e)
  | none =>
    match (s.workspace.calls i).map TransitionCall.phase with
    | some (.returned _) => some .handled
    | some (.raised error _) => some (handleRaised ⟨error.cls, []⟩)
    | _ => none

/-- **A step of a manager's pass**, `none` where it does not apply. -/
def handleNext (env : CommitEnv) (refText : RecordRef → PyStr) (workspaceId : String)
    (attempts : Nat) (s : RequestState) (m : Nat) (p : RequestManager) :
    HandleStep → Option RequestState
  | .restore name executed =>
    match p.phase with
    | .idle => some (s.renameRequest name (.claimed m) .ready executed)
    | _ => none
  | .preflight name world =>
    match p.phase, s.published name with
    | .idle, some request =>
      if s.places name = some .ready ∧ name ∉ p.deferred
          ∧ isFound s.workspace.history request.document world.found = true then
        match preflight request.document world with
        | .later | .propagate _ => some s
        | .leave => some (s.setManager m { p with deferred := name :: p.deferred })
        | .take verdict => some (s.setManager m { p with phase := .preflighted name verdict })
      else none
    | _, _ => none
  | .claim executed report =>
    match p.phase with
    | .preflighted name verdict =>
      let s' := s.renameRequest name .ready (.claimed m) executed
      let moved := executed = true ∧ s.places name = some .ready
      match report with
      | .returned =>
        if moved then some (s'.setManager m { p with phase := .claimed name verdict }) else none
      | .failed (some true) =>
        if s'.places name = some (.claimed m) then
          some (s'.setManager m { p with phase := .claimed name verdict })
        else none
      | .failed (some false) =>
        if s'.places name = some (.claimed m) then none
        else some (s'.setManager m { p with phase := .idle })
      | .failed none => some (s'.setManager m { p with phase := .idle })
    | _ => none
  | .inspect same executed =>
    match p.phase with
    | .claimed name (.error e) =>
      some (s.setManager m { p with phase := .ending name (handleRaised e) })
    | .claimed name (.ok refusal) =>
      match same, refusal with
      | none, _ =>
        some ((s.renameRequest name (.claimed m) .ready executed).setManager m
          { p with phase := .idle })
      | some false, _ =>
        let changed := handleRaised ⟨.formatError, [.lit "request changed while it was claimed"]⟩
        some (s.setManager m { p with phase := .ending name changed })
      | some true, some reason =>
        some (s.setManager m { p with phase := .ending name (.retire reason) })
      | some true, none => some (s.setManager m { p with phase := .accepted name })
    | _ => none
  | .apply i world =>
    match p.phase with
    | .accepted name =>
      match s.published name with
      | some request =>
        if isFound s.workspace.history request.document world.found = true then
          match apply env refText s.workspace.journal request.document world with
          | .error e => some (s.setManager m { p with phase := .ending name (handleRaised e) })
          | .ok (.unactionable reason) =>
            some (s.setManager m { p with phase := .ending name (.retire reason) })
          | .ok .nothing => some (s.setManager m { p with phase := .ending name .handled })
          | .ok (.asks asked) =>
            (s.workspace.next workspaceId attempts (.call i asked)).map fun w =>
              { s with workspace := w, applications := (name, i) :: s.applications }.setManager m
                { p with phase := .applying name i }
        else none
      | none => none
    | _ => none
  | .conclude fault =>
    match p.phase with
    | .applying name i =>
      (s.concluded i fault).map fun ending =>
        { s with left := i :: s.left }.setManager m { p with phase := .ending name ending }
    | _ => none
  | .settle executed =>
    match p.phase with
    | .ending name ending =>
      some ((s.settleFile m name executed ending).setManager m { p with phase := .idle })
    | _ => none
  | .abandon =>
    some ({ s with left := p.phase.calls ++ s.left }.setManager m { p with phase := .idle })
  | .die =>
    some ({ s with left := p.phase.calls ++ s.left }.setManager m
      { p with alive := false, phase := .idle })

/-- **The next state under a label.** `lease` is the lease of the workspace, in
seconds. -/
def next (env : CommitEnv) (refText : RecordRef → PyStr) (workspaceId : String) (attempts : Nat)
    (lease : Nat) (s : RequestState) : RequestLabel → Option RequestState
  | .workspace l =>
    if l.index ∈ s.left then none
    else (s.workspace.next workspaceId attempts l).map fun w => { s with workspace := w }
  | .publish name document =>
    if s.published name = none then
      some ({ s with
        published := Function.update s.published name (some ⟨document, s.now⟩) }.setPlace name
          (some .ready))
    else none
  | .start m =>
    if s.managers m = none then some (s.setManager m ⟨true, .idle, [], s.now⟩) else none
  | .handle m step =>
    match s.managers m with
    | some p =>
      if p.alive = true then s.handleNext env refText workspaceId attempts m p step else none
    | none => none
  | .tick time => some { s with now := s.now + time }
  | .heartbeat m =>
    match s.managers m with
    | some p =>
      if p.alive = true then some (s.setManager m { p with heartbeat := s.now }) else none
    | none => none
  | .survey c caller =>
    some { s with
      surveys := Function.update s.surveys c (some ⟨s.now, fun m => caller = some m
        ∨ (s.managers m).any fun p => s.now ≤ p.heartbeat + lease⟩) }
  | .collect c name =>
    match s.surveys c, s.places name, s.published name with
    | some survey, some (.claimed m), some request =>
      if survey.live m = false
          ∧ request.publishedAt + retiredRequestMaximumAgeSeconds ≤ survey.time then
        some { s.setPlace name none with
          collected := Function.update s.collected name (some (m, survey)) }
      else none
    | _, _, _ => none
  | .collectRetired c name =>
    match s.surveys c, s.published name with
    | some survey, some request =>
      if s.places name = some .retired
          ∧ request.publishedAt + retiredRequestMaximumAgeSeconds ≤ survey.time then
        some (s.setPlace name none)
      else none
    | _, _ => none

end RequestState

/-- **The requests of a workspace**: none are published and no manager runs at
first. -/
def requestSystem (env : CommitEnv) (refText : RecordRef → PyStr) (workspaceId : String)
    (attempts lease : Nat) : System RequestState RequestLabel :=
  System.ofNext
    (fun s => (transitionSystem workspaceId attempts).init s.workspace
      ∧ s.published = (fun _ => none) ∧ s.places = (fun _ => none)
      ∧ s.managers = (fun _ => none) ∧ s.surveys = (fun _ => none) ∧ s.applications = []
      ∧ s.left = [] ∧ s.settled = (fun _ => none) ∧ s.collected = (fun _ => none))
    (RequestState.next env refText workspaceId attempts lease)

/-! ## What a step does to the workspace -/

namespace RequestState

variable {env : CommitEnv} {refText : RecordRef → PyStr} {wid : String} {attempts lease : Nat}
variable {s s' : RequestState} {m name : Nat} {p : RequestManager}

theorem setManager_managers (q : RequestManager) (n : Nat) :
    (s.setManager m q).managers n = if n = m then some q else s.managers n :=
  Function.update_apply _ _ _ _

/-- **Nothing but files and managers changes.** -/
structure Quiet (s s' : RequestState) : Prop where
  workspace : s'.workspace = s.workspace
  published : s'.published = s.published
  applications : s'.applications = s.applications
  collected : s'.collected = s.collected

theorem Quiet.refl (s : RequestState) : Quiet s s := ⟨rfl, rfl, rfl, rfl⟩

theorem Quiet.setManager (h : Quiet s s') (q : RequestManager) : Quiet s (s'.setManager m q) :=
  ⟨h.workspace, h.published, h.applications, h.collected⟩

theorem quiet_renameRequest (s : RequestState) (name : Nat) (a b : RequestPlace) (x : Bool) :
    Quiet s (s.renameRequest name a b x) := by
  unfold renameRequest
  split_ifs
  · exact ⟨rfl, rfl, rfl, rfl⟩
  · exact Quiet.refl s

theorem quiet_settleFile (s : RequestState) (m name : Nat) (x : Bool) (ending : HandleEnd) :
    Quiet s (s.settleFile m name x ending) := by
  cases ending with
  | leave => exact Quiet.refl s
  | propagate e => exact Quiet.refl s
  | _ =>
    show Quiet s (ite _ _ _)
    split_ifs
    · exact ⟨rfl, rfl, rfl, rfl⟩
    · exact Quiet.refl s

/-- **A call made for a request**, with the marker the request was written for. -/
def Asked (refText : RecordRef → PyStr) (wid : String) (attempts : Nat) (s s' : RequestState) :
    Prop :=
  ∃ name i request asked, s.published name = some request
    ∧ Expected refText request.document asked.marker
    ∧ s.workspace.next wid attempts (.call i asked) = some s'.workspace
    ∧ s'.published = s.published ∧ s'.applications = (name, i) :: s.applications
    ∧ s'.collected = s.collected

theorem handleNext_quiet {step : HandleStep} (h : s.handleNext env refText wid attempts m p step = some s') :
    Quiet s s' ∨ Asked refText wid attempts s s' := by
  have hmanager : ∀ {t : RequestState} {q : RequestManager}, Quiet s t →
      some (t.setManager m q) = some s' → Quiet s s' ∨ Asked refText wid attempts s s' := by
    intro t q hquiet h
    exact Or.inl (Option.some.inj h ▸ hquiet.setManager q)
  have hrefl := Quiet.refl s
  cases step with
  | restore n x =>
    rw [handleNext] at h
    split at h
    · exact Or.inl (Option.some.inj h ▸ quiet_renameRequest s n _ _ x)
    · cases h
  | preflight n world =>
    rw [handleNext] at h
    split at h
    · obtain ⟨-, h⟩ := Option.ite_none_right_eq_some.mp h
      split at h
      · exact Or.inl (Option.some.inj h ▸ hrefl)
      · exact Or.inl (Option.some.inj h ▸ hrefl)
      · exact hmanager hrefl h
      · exact hmanager hrefl h
    · cases h
  | claim x report =>
    rw [handleNext] at h
    split at h
    · rename_i n verdict hphase
      have hquiet := quiet_renameRequest s n .ready (.claimed m) x
      split at h
      · exact hmanager hquiet (Option.ite_none_right_eq_some.mp h).2
      · exact hmanager hquiet (Option.ite_none_right_eq_some.mp h).2
      · exact hmanager hquiet (Option.ite_none_left_eq_some.mp h).2
      · exact hmanager hquiet h
    · cases h
  | inspect same x =>
    rw [handleNext] at h
    split at h
    · exact hmanager hrefl h
    · split at h
      · exact hmanager (quiet_renameRequest s _ _ _ x) h
      · exact hmanager hrefl h
      · exact hmanager hrefl h
      · exact hmanager hrefl h
    · cases h
  | apply i world =>
    rw [handleNext] at h
    split at h
    · rename_i n hphase
      split at h
      · rename_i request hrequest
        obtain ⟨hfound, h⟩ := Option.ite_none_right_eq_some.mp h
        split at h
        · exact hmanager hrefl h
        · exact hmanager hrefl h
        · exact hmanager hrefl h
        · rename_i asked hasks
          obtain ⟨w, hw, rfl⟩ := Option.map_eq_some_iff.mp h
          obtain ⟨hexpected, -⟩ := expected_of_asks hfound hasks
          exact Or.inr ⟨n, i, request, asked, hrequest, hexpected, hw, rfl, rfl, rfl⟩
      · cases h
    · cases h
  | conclude fault =>
    rw [handleNext] at h
    split at h
    · obtain ⟨ending, -, rfl⟩ := Option.map_eq_some_iff.mp h
      exact Or.inl ⟨rfl, rfl, rfl, rfl⟩
    · cases h
  | settle x =>
    rw [handleNext] at h
    split at h
    · exact hmanager (quiet_settleFile s m _ x _) h
    · cases h
  | abandon => exact Or.inl (Option.some.inj h ▸ ⟨rfl, rfl, rfl, rfl⟩)
  | die => exact Or.inl (Option.some.inj h ▸ ⟨rfl, rfl, rfl, rfl⟩)

theorem next_cases {a : RequestLabel} (h : s.next env refText wid attempts lease a = some s') :
    Asked refText wid attempts s s'
      ∨ (s'.workspace = s.workspace ∨ ∃ l, s.workspace.next wid attempts l = some s'.workspace)
        ∧ (∀ name request, s.published name = some request → s'.published name = some request)
        ∧ s'.applications = s.applications := by
  have hquiet : Quiet s s' → (s'.workspace = s.workspace ∨ ∃ l, s.workspace.next wid attempts l = some s'.workspace)
      ∧ (∀ name request, s.published name = some request → s'.published name = some request)
      ∧ s'.applications = s.applications :=
    fun hq => ⟨Or.inl hq.workspace, fun name request hr => by rw [hq.published]; exact hr, hq.applications⟩
  cases a with
  | workspace l =>
    obtain ⟨-, h⟩ := Option.ite_none_left_eq_some.mp h
    obtain ⟨w, hw, rfl⟩ := Option.map_eq_some_iff.mp h
    exact Or.inr ⟨Or.inr ⟨l, hw⟩, fun _ _ hr => hr, rfl⟩
  | publish n document =>
    obtain ⟨hnew, h⟩ := Option.ite_none_right_eq_some.mp h
    rw [← Option.some.inj h]
    refine Or.inr ⟨Or.inl rfl, fun name request hr => ?_, rfl⟩
    show Function.update s.published n _ name = some request
    rw [Function.update_apply, if_neg]
    · exact hr
    · rintro rfl
      rw [hnew] at hr
      cases hr
  | start n =>
    obtain ⟨-, h⟩ := Option.ite_none_right_eq_some.mp h
    exact Or.inr (hquiet (Option.some.inj h ▸ ⟨rfl, rfl, rfl, rfl⟩))
  | handle n step =>
    rw [next] at h
    split at h
    · obtain ⟨-, h⟩ := Option.ite_none_right_eq_some.mp h
      exact (handleNext_quiet h).symm.imp_right hquiet
    · cases h
  | tick time => exact Or.inr (hquiet (Option.some.inj h ▸ ⟨rfl, rfl, rfl, rfl⟩))
  | heartbeat n =>
    rw [next] at h
    split at h
    · obtain ⟨-, h⟩ := Option.ite_none_right_eq_some.mp h
      exact Or.inr (hquiet (Option.some.inj h ▸ ⟨rfl, rfl, rfl, rfl⟩))
    · cases h
  | survey c caller => exact Or.inr (hquiet (Option.some.inj h ▸ ⟨rfl, rfl, rfl, rfl⟩))
  | collect c n =>
    rw [next] at h
    split at h
    · obtain ⟨-, h⟩ := Option.ite_none_right_eq_some.mp h
      rw [← Option.some.inj h]
      exact Or.inr ⟨Or.inl rfl, fun _ _ hr => hr, rfl⟩
    · cases h
  | collectRetired c n =>
    rw [next] at h
    split at h
    · obtain ⟨-, h⟩ := Option.ite_none_right_eq_some.mp h
      exact Or.inr (hquiet (Option.some.inj h ▸ ⟨rfl, rfl, rfl, rfl⟩))
    · cases h

theorem workspace_of_reachable (hs : (requestSystem env refText wid attempts lease).Reachable s) :
    (transitionSystem wid attempts).Reachable s.workspace := by
  induction hs with
  | init h => exact System.Reachable.init h.1
  | step _ h ih =>
    rcases next_cases h with ⟨_, i, _, asked, -, -, hw, -⟩ | ⟨hsame | ⟨l, hw⟩, -⟩
    · exact ih.step hw
    · rw [hsame]
      exact ih
    · exact ih.step hw

/-! ## A request is applied at most once -/

/-- **The markers a request put into the tree**, through any call made for it. -/
def changes (s : RequestState) (name : Nat) : List Marker :=
  s.workspace.history.filter fun d => s.applications.any fun a =>
    a.fst = name ∧ ((s.workspace.calls a.snd).bind fun c => c.phase.prepared) = some d

/-- **A request that is applied at most once**, and to the marker it was written
for. -/
structure AppliedOnce (refText : RecordRef → PyStr) (s : RequestState) (name : Nat)
    (request : List (PyStr × Json)) : Prop where
  once : (s.changes name).length ≤ 1
  exact : ∀ d ∈ s.changes name, ∃ m ∈ s.workspace.history, Expected refText request m
    ∧ TransitionState.Replaces s.workspace.journal d m

/-- **Every call for a request** asks about the marker it was written for. -/
theorem expected_of_reachable (hs : (requestSystem env refText wid attempts lease).Reachable s) :
    ∀ a ∈ s.applications, ∃ request c, s.published a.fst = some request
      ∧ s.workspace.calls a.snd = some c ∧ Expected refText request.document c.request.marker := by
  refine hs.invariant (I := fun s => ∀ a ∈ s.applications, ∃ request c,
    s.published a.fst = some request ∧ s.workspace.calls a.snd = some c
      ∧ Expected refText request.document c.request.marker) ?_ ?_
  · rintro s ⟨-, -, -, -, -, hnil, -⟩ a ha
    rw [hnil] at ha
    cases ha
  · intro s a s' _ hinv h
    -- a call that was made before is still there, with its request
    have hold : ∀ w, (w = s.workspace ∨ ∃ l, s.workspace.next wid attempts l = some w) →
        ∀ i c, s.workspace.calls i = some c → ∃ c', w.calls i = some c' ∧ c'.request = c.request := by
      rintro w (rfl | ⟨l, hw⟩) i c hc
      · exact ⟨c, hc, rfl⟩
      · obtain ⟨c', hc', hrequest, -⟩ := TransitionState.calls_next hw hc
        exact ⟨c', hc', hrequest⟩
    rcases next_cases h with ⟨n, i, request, asked, hrequest, hexpected, hw, hpublished, happ, -⟩
        | ⟨hw, hpublished, happ⟩
    · intro b hb
      rw [happ] at hb
      rw [hpublished]
      rcases List.mem_cons.mp hb with rfl | hb
      · obtain ⟨-, -, hw⟩ := TransitionState.next_call hw
        refine ⟨request, ⟨asked, .called⟩, hrequest, ?_, hexpected⟩
        rw [hw]
        exact Function.update_self i _ _
      · obtain ⟨request, c, hr, hc, he⟩ := hinv b hb
        obtain ⟨c', hc', hsame⟩ := hold _ (Or.inr ⟨_, hw⟩) _ c hc
        exact ⟨request, c', hr, hc', hsame ▸ he⟩
    · intro b hb
      rw [happ] at hb
      obtain ⟨request, c, hr, hc, he⟩ := hinv b hb
      obtain ⟨c', hc', hsame⟩ := hold _ hw _ c hc
      exact ⟨request, c', hpublished _ _ hr, hc', hsame ▸ he⟩

theorem mem_changes {d : Marker} : d ∈ s.changes name ↔ d ∈ s.workspace.history
      ∧ ∃ i c, (name, i) ∈ s.applications ∧ s.workspace.calls i = some c
        ∧ c.phase.prepared = some d := by
  unfold changes
  rw [List.mem_filter, List.any_eq_true]
  refine and_congr_right fun _ => ?_
  constructor
  · rintro ⟨⟨n, i⟩, ha, h⟩
    obtain ⟨rfl, hprepared⟩ := of_decide_eq_true h
    obtain ⟨c, hc, hd⟩ := Option.bind_eq_some_iff.mp hprepared
    exact ⟨i, c, ha, hc, hd⟩
  · rintro ⟨i, c, ha, hc, hd⟩
    exact ⟨(name, i), ha, decide_eq_true ⟨rfl, Option.bind_eq_some_iff.mpr ⟨c, hc, hd⟩⟩⟩

/-- **Requests apply at most once and only to their exact target**: whatever the
managers do and wherever they stop, one transition at most that was made for a request
took effect, and the marker it replaced is the one the request was written for. -/
theorem request_applied_once
    (hs : (requestSystem env refText wid attempts lease).Reachable s) {request : PublishedRequest}
    (hrequest : s.published name = some request) :
    AppliedOnce refText s name request.document := by
  have hw := workspace_of_reachable hs
  have hcoh := transitionSystem_coherent hw
  have hchained := TransitionState.chained_of_reachable hw
  -- what was put into the tree replaced a marker the request was written for
  have hexact : ∀ d ∈ s.changes name, ∃ m ∈ s.workspace.history,
      Expected refText request.document m
        ∧ TransitionState.Replaces s.workspace.journal d m := by
    intro d hd
    obtain ⟨-, i, c, ha, hc, hprepared⟩ := mem_changes.mp hd
    obtain ⟨r, c', hr, hc', hexpected⟩ := expected_of_reachable hs _ ha
    obtain rfl := Option.some.inj (hrequest.symm.trans hr)
    obtain rfl := Option.some.inj (hc.symm.trans hc')
    exact ⟨c.request.marker, hcoh.asked i c hc, hexpected, hcoh.replaces hc hprepared⟩
  -- a job has one marker of a generation
  have hsame : ∀ d ∈ s.changes name, ∀ d' ∈ s.changes name, d = d' := by
    intro d hd d' hd'
    obtain ⟨m, -, hm, hgeneration, hkey, -⟩ := hexact d hd
    obtain ⟨m', -, hm', hgeneration', hkey', -⟩ := hexact d' hd'
    have hjob : d'.jobId = d.jobId := by
      show d'.jobKey.id = d.jobKey.id
      rw [hkey, hkey']
      exact hm'.jobId_eq hm
    refine hchained.eq_of_generation (mem_changes.mp hd).1 (mem_changes.mp hd').1 hjob ?_
    rw [hgeneration, hgeneration', hm.generation_eq hm']
  have hnodup : (s.changes name).Nodup := hchained.nodup.filter _
  refine ⟨?_, hexact⟩
  cases hchanges : s.changes name with
  | nil => exact Nat.zero_le 1
  | cons d l =>
    rw [hchanges] at hsame hnodup
    cases l with
    | nil => exact Nat.le_refl 1
    | cons d' l =>
      have heq := hsame d (by simp) d' (by simp)
      rw [heq] at hnodup
      exact absurd List.mem_cons_self (List.nodup_cons.mp hnodup).1

/-! ## A request that is seen twice -/

def requestedJob : TransitionState where
  markers := [⟨.submitted, ["a"], ⟨none, "00000000-0000-4000-8000-000000000001"⟩, 500, 0, .init⟩]
  journal := []
  calls := fun _ => none
  history := [⟨.submitted, ["a"], ⟨none, "00000000-0000-4000-8000-000000000001"⟩, 500, 0, .init⟩]

def requestedMarker : Except Exc (Option Marker) := .ok requestedJob.markers.head?

def noRequests : RequestState where
  workspace := requestedJob
  published := fun _ => none
  places := fun _ => none
  managers := fun _ => none
  now := 0
  surveys := fun _ => none
  applications := []
  left := []
  settled := fun _ => none
  collected := fun _ => none

def pauseRequest : List (PyStr × Json) :=
  [("format", .str "httk-workflow-request"), ("format_version", .int 2),
    ("job_key", .str "00000000-0000-4000-8000-000000000001"),
    ("job_id", .str "00000000-0000-4000-8000-000000000001"), ("placement", .str "a"),
    ("expected_generation", .int 0), ("expected_record_ref", .str "init"),
    ("action", .str "pause")]

def plainRefText : RecordRef → PyStr
  | .init => "init"
  | .frame n => toString n

theorem noRequests_init : (requestSystem plainCommitEnv plainRefText "w" 8 60).init noRequests := by
  refine ⟨⟨rfl, rfl, rfl, ?_, ?_⟩, rfl, rfl, rfl, rfl, rfl, rfl, rfl, rfl⟩
  · intro m hm
    rw [List.mem_singleton.mp hm]
    exact ⟨rfl, rfl, rfl⟩
  · decide

def plainPreflight : PreflightWorld where
  indeterminate := false
  malformed := none
  requestOwner := 1000
  observedOwner := .ok 1000
  found := requestedMarker
  markerOwner := .ok 1000
  owns := some true
  job := .ok ⟨⟩
  served := true

def plainApplyWorld : ApplyWorld where
  operatorKey := .ok none
  found := requestedMarker
  stateFault := none
  job := .ok plainJob
  hazard := none
  utcNow := "now"
  freshId := "fresh"
  reread := none
  sealedBy := none

/-- One manager applies the request and cannot remove it; it puts it back, and another
manager, which still finds the submitted marker, applies it again. -/
def twiceSeen : List RequestLabel :=
  [.publish 0 pauseRequest, .start 0, .start 1, .handle 0 (.preflight 0 plainPreflight),
    .handle 0 (.claim true .returned), .handle 0 (.inspect (some true) true),
    .handle 0 (.apply 0 plainApplyWorld), .workspace (.prepare 0 none),
    .workspace (.rename 0 true), .workspace (.look 0), .handle 0 (.conclude none),
    .handle 0 (.settle false), .handle 0 (.restore 0 true),
    .handle 1 (.preflight 0 plainPreflight), .handle 1 (.claim true .returned),
    .handle 1 (.inspect (some true) true), .handle 1 (.apply 1 plainApplyWorld),
    .workspace (.prepare 1 none), .workspace (.rename 1 true), .workspace (.look 1),
    .workspace (.look 1), .workspace (.look 1), .handle 1 (.conclude none),
    .handle 1 (.settle true)]

/-- The second call changes nothing, and the request is retired. -/
theorem request_applied_once_twiceSeen :
    ∃ s request, (requestSystem plainCommitEnv plainRefText "w" 8 60).Reachable s
      ∧ s.published 0 = some request ∧ s.applications = [(0, 1), (0, 0)]
      ∧ s.settled 0 = some .retired ∧ (s.changes 0).length = 1
      ∧ AppliedOnce plainRefText s 0 request.document := by
  have hrun : (System.follow (next plainCommitEnv plainRefText "w" 8 60) noRequests twiceSeen).map
      (fun s => (s.published 0 |>.map PublishedRequest.publishedAt, s.applications, s.settled 0,
        (s.changes 0).length)) = some (some 0, [(0, 1), (0, 0)], some .retired, 1) := by
    decide
  obtain ⟨s, hs, hfacts⟩ := Option.map_eq_some_iff.mp hrun
  simp only [Prod.mk.injEq] at hfacts
  obtain ⟨hpublished, happ, hsettled, hone⟩ := hfacts
  obtain ⟨request, hrequest, -⟩ := Option.map_eq_some_iff.mp hpublished
  have hreach := (System.run_of_follow hs).reachable (System.Reachable.init noRequests_init)
  exact ⟨s, request, hreach, hrequest, happ, hsettled, hone,
    request_applied_once hreach hrequest⟩

end RequestState
