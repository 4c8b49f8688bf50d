import HttkWorkflow.ImportResume
import HttkWorkflow.JoinTransfers
import HttkWorkflow.MarkerNames

/-!
# Detaching a job

`detach_job` takes a job out of its workspace. The marker goes to
`transferring`, with a frame that repeats the frame it had as one member,
`prior_state`. Then `_seal_transferring` fills the transfer directory in the
payload: the workspace runner the job pins, the job's seal, the manifest, and
last the marker itself, from which on the payload is a sealed bundle. What the
manifest says of the job's state it takes from the frame of that transition,
and so it crosses two encodings before an import reads it: the frame as a JSON
object (`Frame.document`) in the member of another frame, and the members of
that object (`StateFrame.ofDocument`) in the manifest.

The transfer directory lies in the payload, and whoever wrote the payload may
have been there before. A file is written where its path leads, so that a
symbolic link in the transfer directory decides which file of the payload the
runner or the seal is written to (`PayloadTree.resolve`).

The numbers of the transfers, and the files that keep them, are left to
`DetachEnv.reserve`.
-/

/-! ## Frames as documents -/

def PyStr.text (s : PyStr) : String := String.ofList s.letters

namespace Member

/-- The members, in the order of their declaration. -/
def all : List Member :=
  [.step, .activationId, .activationOrdinal, .attemptId, .attemptOrdinal, .totalAttempts,
    .dataGeneration, .resources, .joinSummary, .runnerSteps, .managerId, .writerId, .claimId,
    .attemptControl, .leaseSeconds, .matchedPool, .matchedCapabilities, .process, .startedAt,
    .workdir, .outcomeAction, .childDigests, .childLabels, .nextStep, .join, .pause,
    .pauseRequested, .failure, .jobDigest, .joinUnresolved, .uncleanRestart,
    .unsafePersistentTakeover, .takeoverEvidence, .cancellation, .previousAttemptId, .operator,
    .operatorKey, .operatorReason, .requestId, .revivalHazard, .reason, .transferId,
    .transferSequence, .transferEpoch, .sourceWorkspaceId, .destinationWorkspaceId,
    .destinationRemote, .destinationPlacement, .priorKind, .priorState, .transfer, .fsckRepair]

/-- The name of a member in a frame on disk. -/
def word : Member → PyStr
  | step => "step"
  | activationId => "activation_id"
  | activationOrdinal => "activation_ordinal"
  | attemptId => "attempt_id"
  | attemptOrdinal => "attempt_ordinal"
  | totalAttempts => "total_attempts"
  | dataGeneration => "data_generation"
  | resources => "resources"
  | joinSummary => "join_summary"
  | runnerSteps => "runner_steps"
  | managerId => "manager_id"
  | writerId => "writer_id"
  | claimId => "claim_id"
  | attemptControl => "attempt_control"
  | leaseSeconds => "lease_seconds"
  | matchedPool => "matched_pool"
  | matchedCapabilities => "matched_capabilities"
  | process => "process"
  | startedAt => "started_at"
  | workdir => "workdir"
  | outcomeAction => "outcome_action"
  | childDigests => "child_digests"
  | childLabels => "child_labels"
  | nextStep => "next_step"
  | join => "join"
  | pause => "pause"
  | pauseRequested => "pause_requested"
  | failure => "failure"
  | jobDigest => "job_digest"
  | joinUnresolved => "join_unresolved"
  | uncleanRestart => "unclean_restart"
  | unsafePersistentTakeover => "unsafe_persistent_takeover"
  | takeoverEvidence => "takeover_evidence"
  | cancellation => "cancellation"
  | previousAttemptId => "previous_attempt_id"
  | operator => "operator"
  | operatorKey => "operator_key"
  | operatorReason => "operator_reason"
  | requestId => "request_id"
  | revivalHazard => "revival_hazard"
  | reason => "reason"
  | transferId => "transfer_id"
  | transferSequence => "transfer_sequence"
  | transferEpoch => "transfer_epoch"
  | sourceWorkspaceId => "source_workspace_id"
  | destinationWorkspaceId => "destination_workspace_id"
  | destinationRemote => "destination_remote"
  | destinationPlacement => "destination_placement"
  | priorKind => "prior_kind"
  | priorState => "prior_state"
  | transfer => "transfer"
  | fsckRepair => "fsck_repair"

def named (name : PyStr) : Option Member := all.find? fun m => m.word = name

theorem mem_all (m : Member) : m ∈ all := by
  cases m <;> decide

theorem named_word (m : Member) : named m.word = some m := by
  have hall : ∀ m ∈ all, named m.word = some m := by
    decide +kernel
  exact hall m m.mem_all

end Member

/-- The text of a placement, `as_posix` of it. -/
def placementText (placement : List String) : PyStr :=
  PyStr.join "/" (placement.map PyStr.ofString)

/-- **A frame as a JSON object**: its envelope and its members, less the time and the reference to
the frame before, which an import drops. -/
def Frame.document (f : Frame) : List (PyStr × Json) :=
  [(PyStr.ofString "format", .str "httk-workflow-state"), (PyStr.ofString "format_version", .int 2),
    (PyStr.ofString "workspace_id", .str f.workspaceId), (PyStr.ofString "job_id", .str f.jobKey.id),
    (PyStr.ofString "job_key", .str (f.jobKey.tag.elim f.jobKey.id (· ++ "--" ++ f.jobKey.id))),
    (PyStr.ofString "placement", .str (placementText f.placement)),
    (PyStr.ofString "state_generation", .int f.stateGeneration),
    (PyStr.ofString "kind", .str f.kind.word), (PyStr.ofString "priority", .int f.priority)]
  ++ f.members.members.map fun e => (e.fst.word, e.snd)

/-- **What an import takes of a frame's object**: the members, and nothing of the envelope. -/
def StateFrame.ofDocument (document : List (PyStr × Json)) : StateFrame :=
  ⟨document.filterMap fun e => (Member.named e.fst).map (·, e.snd)⟩

@[simp] theorem StateFrame.ofDocument_document (f : Frame) : StateFrame.ofDocument f.document = f.members := by
  have hmembers : ∀ d : Dict Member Json, (d.map fun e => (e.fst.word, e.snd)).filterMap
        (fun e => (Member.named e.fst).map (·, e.snd)) = d := by
    intro d
    induction d with
    | nil => rfl
    | cons e d ih =>
      rw [List.map_cons, List.filterMap_cons_some (by rw [Member.named_word]; rfl), ih]
  unfold StateFrame.ofDocument Frame.document
  rw [List.filterMap_append, hmembers]
  rfl

/-! ## Python's `==` of two documents -/

namespace Json

/-- The number a value is, if it is one; a boolean is an integer. -/
def number : Json → Option PyFloat
  | .bool b => some (.finite (if b then 1 else 0))
  | .int n => some (.finite n)
  | .float x => some x
  | _ => none

/-- `==` of two numbers, which no number is with `nan`. -/
def numbersEqual : PyFloat → PyFloat → Bool
  | .finite a, .finite b => a = b
  | .inf a, .inf b => a = b
  | _, _ => false

mutual

/-- **`==`** of two decoded values. -/
def equals : Json → Json → Bool
  | .null, .null => true
  | .str s, .str t => s = t
  | .arr items, .arr others => itemsEqual items others
  | .obj members, .obj others => members.length = others.length && membersEqual members others
  | a, b =>
    match a.number, b.number with
    | some x, some y => numbersEqual x y
    | _, _ => false

def itemsEqual : List Json → List Json → Bool
  | [], [] => true
  | a :: items, b :: others => a.equals b && itemsEqual items others
  | _, _ => false

def membersEqual : List (PyStr × Json) → List (PyStr × Json) → Bool
  | [], _ => true
  | (name, a) :: members, others =>
    (match others.lookup name with
      | some b => a.equals b
      | none => false) && membersEqual members others

end

end Json

/-- `==` of two frames, as dictionaries. -/
def StateFrame.equals (a b : StateFrame) : Bool :=
  Member.all.all fun m =>
    match a.get m, b.get m with
    | some v, some w => v.equals w
    | none, none => true
    | _, _ => false

/-- `==` of two manifests. -/
def TransferManifest.equals (a b : TransferManifest) : Bool :=
  a.priorState.equals b.priorState
    && (a.format = b.format ∧ a.formatVersion = b.formatVersion ∧ a.coreProfile = b.coreProfile
      ∧ a.transferId = b.transferId ∧ a.sourceWorkspaceId = b.sourceWorkspaceId
      ∧ a.destinationWorkspaceId = b.destinationWorkspaceId ∧ a.jobKey = b.jobKey
      ∧ a.sourcePlacement = b.sourcePlacement ∧ a.destinationPlacement = b.destinationPlacement
      ∧ a.payloadSha256 = b.payloadSha256 ∧ a.runners = b.runners ∧ a.jobSeal = b.jobSeal
      ∧ a.priorKind = b.priorKind ∧ a.priority = b.priority
      ∧ a.sourceGeneration = b.sourceGeneration ∧ a.sealedMarker = b.sealedMarker
      ∧ a.transferSequence = b.transferSequence ∧ a.transferEpoch = b.transferEpoch)

/-! ## Paths in a payload -/

namespace PayloadTree

variable {ν : Type}

/-- The directory with another entry at a path. -/
def write (t : PayloadTree ν) (p : List PyStr) (e : Entry ν) : PayloadTree ν :=
  ⟨(t.erase p).entries ++ [(p, e)], by
    rw [List.map_append, List.map_singleton, List.nodup_append]
    refine ⟨(t.erase p).nodup, List.nodup_singleton _, ?_⟩
    rintro _ hq _ hp rfl
    obtain ⟨e', he', rfl⟩ := List.mem_map.mp hq
    exact of_decide_eq_true (List.mem_filter.mp he').2 (List.mem_singleton.mp hp)⟩

/-- The directory without what lies at and below a path. -/
def removeTree (t : PayloadTree ν) (p : List PyStr) : PayloadTree ν :=
  ⟨t.entries.filter fun e => !p.isPrefixOf e.fst, t.nodup.sublist (List.filter_sublist.map _)⟩

/-- Entries are written at and below a path. -/
def copyTo (t : PayloadTree ν) (p : List PyStr) (entries : List (List PyStr × Entry ν)) :
    PayloadTree ν :=
  entries.foldl (fun t e => t.write (p ++ e.fst) e.snd) t

/-- The first link on the way along a path: where it lies, its target, and the rest of the path. -/
def firstLink (t : PayloadTree ν) : List PyStr → List PyStr →
    Option (List PyStr × PyStr × List PyStr)
  | _, [] => none
  | place, part :: rest =>
    match t.find (place ++ [part]) with
    | some (.symlink target) => some (place, target, rest)
    | _ => t.firstLink (place ++ [part]) rest

/-- **Where a path leads**, through at most so many links; `none` out of the directory. -/
def resolve (t : PayloadTree ν) : ℕ → List PyStr → Option (List PyStr)
  | 0, _ => none
  | links + 1, p =>
    match t.firstLink [] p with
    | none => some p
    | some (place, target, rest) =>
      if target.codes.head? = some '/'.toNat then none
      else (linkParts place (target.split '/')).bind fun q => t.resolve links (q ++ rest)

/-- The path a call opens, of at most as many links as the kernel follows. -/
def leadsTo (t : PayloadTree ν) (p : List PyStr) : Option (List PyStr) := t.resolve 41 p

/-- **No link lies on the way along a path**, nor at its end. -/
def Unlinked (t : PayloadTree ν) (p : List PyStr) : Prop := t.firstLink [] p = none

instance (t : PayloadTree ν) (p : List PyStr) : Decidable (t.Unlinked p) :=
  inferInstanceAs (Decidable (t.firstLink [] p = none))

def stat (t : PayloadTree ν) (p : List PyStr) : Option (Entry ν) := (t.leadsTo p).bind t.find

def isPlain (e : List PyStr × Entry ν) : Bool :=
  match e.snd with
  | .symlink _ => false
  | _ => true

/-- What `copytree` copies of a directory: in place of a link, what it leads to. -/
def dereferenced (t : PayloadTree ν) (p : List PyStr) : List (List PyStr × Entry ν) :=
  (t.below p).flatMap fun e =>
    if isPlain e = true then [e]
    else
      match t.leadsTo (p ++ e.fst) with
      | some q => ((t.below q).filter isPlain).map fun e' => (e.fst ++ e'.fst, e'.snd)
      | none => []

/-- A bundle as its readers see it: the file a link at a path leads to lies there. -/
def asRead (t : PayloadTree ν) (p : List PyStr) : PayloadTree ν :=
  if t.Unlinked p then t
  else
    match t.stat p with
    | some e => t.write p e
    | none => t

end PayloadTree

/-! ## The source of a transfer -/

/-- **What a detach takes from outside.** -/
structure DetachEnv (ν : Type) where
  transfer : TransferEnv ν
  /-- `json_bytes` of a manifest, and a line end. -/
  dumps : TransferManifest → Except Exc ν
  loads_dumps : ∀ m c, dumps m = .ok c → transfer.loads c = .ok m
  /-- `JobDefinition.from_path`: the path and the digest of the workspace runner the job pins. -/
  pinnedRunner : ν → Except Exc (Option (List PyStr × String))
  /-- `receipts.reserve`, of the destination, the job and the transfer: the transfer to detach
  under, its sequence number and its epoch. -/
  reserve : String → String → String → Except Exc (String × ℕ × String)
  markerName : Marker → PyStr
  markerName_ne : ∀ mk, markerName mk ≠ transferManifest
  markerFile : ν

/-- **The source workspace.** -/
structure SourceWorkspace (ν : Type) where
  /-- The workspace, as an import into it would see it. -/
  workspace : Destination ν
  runnerStore : PayloadTree ν
  /-- `transfers/<transfer_id>.json`: the manifest, and the payload that is the bundle. -/
  ledgers : String → Option (TransferManifest × List String × JobKey)

/-- **What `detach_job` is asked.** -/
structure DetachRequest where
  jobId : String
  /-- A marker the caller knows. -/
  marker : Option Marker
  /-- The children the caller knows to be waited for. -/
  waitingParentMap : Option (List PyStr)
  destinationWorkspaceId : String
  destinationRemote : Option PyStr
  destinationPlacement : Option PyStr
  /-- The transfer to resume, or a new one. -/
  transferId : String

/-- `destination_placement or marker.placement`. -/
def DetachRequest.placementOr (r : DetachRequest) (mk : Marker) : PyStr :=
  match r.destinationPlacement with
  | some text => if text.codes = [] then placementText mk.placement else text
  | none => placementText mk.placement

/-- A detach, or a part of it. -/
abbrev Sealing (ν α : Type) := Effects (SourceWorkspace ν) Exc α

/-- `_JOB_FILE`. -/
def jobJson : List PyStr := ["job.json"]

def bundledSealName : PyStr := "seal.json"

namespace SourceWorkspace

variable {ν : Type}

def setWorkspace (s : SourceWorkspace ν) (d : Destination ν) : SourceWorkspace ν :=
  { s with workspace := d }

/-- A payload directory changes. -/
def mapPayload (s : SourceWorkspace ν) (key : List String × JobKey)
    (f : PayloadTree ν → PayloadTree ν) : SourceWorkspace ν :=
  s.setWorkspace { s.workspace with
    payloads := Function.update s.workspace.payloads key ((s.workspace.payloads key).map f) }

def renameMarker (s : SourceWorkspace ν) (old new : Marker) : SourceWorkspace ν :=
  s.setWorkspace { s.workspace with markers := s.workspace.markers.filter (· ≠ old) ++ [new] }

def removeMarker (s : SourceWorkspace ν) (mk : Marker) : SourceWorkspace ν :=
  s.setWorkspace { s.workspace with markers := s.workspace.markers.filter (· ≠ mk) }

def setLedger (s : SourceWorkspace ν) (id : String) (m : TransferManifest)
    (key : List String × JobKey) : SourceWorkspace ν :=
  { s with ledgers := Function.update s.ledgers id (some (m, key)) }

end SourceWorkspace

/-! ## The checks before it -/

section Checks

variable {ν : Type}

/-- `canonical_uuid` of a text. -/
def checkUuid (env : TransferEnv ν) (text name : String) : Except Exc Unit :=
  if env.isUuid text = true then .ok () else raiseFormat [.lit name, .lit " must be a UUID"]

/-- `canonical_uuid` of a member. -/
def uuidMember (env : TransferEnv ν) (state : StateFrame) (member : Member) : Except Exc String :=
  match state.get member with
  | some (.str t) =>
    if env.isUuid t.text = true then .ok t.text else raiseFormat [.lit "the member must be a UUID"]
  | _ => raiseFormat [.lit "the member must be a UUID"]

/-- **`_waiting_parent_map`**, of one scan of the waiting markers. -/
def waitingChildren (d : Destination ν) : Except Exc (List PyStr) :=
  ((d.markers.filter fun mk => mk.kind = .waiting).mapM d.readState).map fun states =>
    waitingParentMap d.workspaceId (states.map Frame.members)

def unresolvedJoinReference (d : Destination ν) (mk : Marker) (known : Option (List PyStr)) :
    Except Exc Bool :=
  if mk.kind = .waiting then .ok true
  else
    match known with
    | some children => .ok (decide (PyStr.ofString mk.jobId ∈ children))
    | none => (waitingChildren d).map fun children => decide (PyStr.ofString mk.jobId ∈ children)

/-- **The source marker**: the one the caller knows, the one that is found, or that of an
interrupted transfer. -/
def sourceMarker (d : Destination ν) (r : DetachRequest) : Except Exc Marker :=
  match r.marker with
  | some mk =>
    if mk.jobId ≠ r.jobId then
      .error ⟨.valueError, [.lit "known source marker does not identify job"]⟩
    else .ok mk
  | none =>
    match findMarkerById d.markers r.jobId with
    | .error cls => .error ⟨cls, [.lit "more than one current marker"]⟩
    | .ok (some mk) => .ok mk
    | .ok none =>
      match d.markers.filter fun mk => mk.kind = .transferring ∧ mk.jobId = r.jobId with
      | [mk] => .ok mk
      | _ => .error ⟨.valueError, [.lit "job must have exactly one source marker"]⟩

/-- **`receipts.sequence_of`** of an import's provenance. -/
def provenanceSequence (provenance : List (PyStr × Json)) : Except Exc (Option ℕ) :=
  match Json.get provenance "transfer_sequence" with
  | none | some .null => .ok none
  | some (.int n) =>
    if n < 1 then raiseFormat [.lit "transfer_sequence must be a positive integer"]
    else .ok (some n.toNat)
  | some _ => raiseFormat [.lit "transfer_sequence must be a positive integer"]

/-- **`receipts.epoch_of`** of an import's provenance. -/
def provenanceEpoch (env : TransferEnv ν) (provenance : List (PyStr × Json)) :
    Except Exc (Option String) :=
  match Json.get provenance "transfer_epoch" with
  | none | some .null => .ok none
  | some (.str t) =>
    if env.isUuid t.text = true then .ok (some t.text)
    else raiseFormat [.lit "transfer_epoch must be a canonical UUID"]
  | some _ => raiseFormat [.lit "transfer_epoch must be a canonical UUID"]

/-- `str(provenance[name])`, of a member that is a string. -/
def provenanceText (provenance : List (PyStr × Json)) (name : String) : Except Exc String :=
  match Json.get provenance name with
  | some (.str t) => .ok t.text
  | _ => raiseFormat [.lit "the provenance has no ", .lit name]

end Checks

/-! ## The receipt of an earlier import -/

namespace Importing

open Effects

variable {ν : Type}

/-- What an import that stopped after it published the marker left in the payload is tidied up. -/
def finishLeftover (env : TransferEnv ν) (key : List String × JobKey) : Importing ν PUnit := do
  let d ← current
  match d.payloads key with
  | some t =>
    if t.hasTransfer = true then do
      let m ← ofExcept (readManifest env t)
      installSeal env m t
      removeTransfer env key t
    else pure ⟨⟩
  | none => pure ⟨⟩

def rememberProvenance (stream : String × Option String) (n : ℕ) : Importing ν PUnit := do
  let d ← current
  if Ranges.covers (d.received stream) n = true then pure ⟨⟩
  else
    effect fun d => { d with
      received := Function.update d.received stream (Ranges.insert (d.received stream) n) }

def finishIncomingReceipt (env : TransferEnv ν) (mk : Marker) (state : StateFrame) :
    Importing ν PUnit :=
  match state.mapping .transfer with
  | none => pure ⟨⟩
  | some provenance => do
    match ← ofExcept (provenanceSequence provenance) with
    | none => pure ⟨⟩
    | some n => do
      finishLeftover env (mk.placement, mk.jobKey)
      let source ← ofExcept (provenanceText provenance "source_workspace_id")
      let epoch ← ofExcept (provenanceEpoch env provenance)
      rememberProvenance (source, epoch) n
      let id ← ofExcept (provenanceText provenance "transfer_id")
      effect (·.setAck id none)
      effect (·.forget id)

end Importing

/-! ## Sealing -/

namespace Sealing

open Effects

variable {ν : Type}

/-- What is done in the workspace alone. -/
def inWorkspace {α : Type} (x : Importing ν α) : Sealing ν α := fun s =>
  ((x s.workspace).fst.map s.setWorkspace, (x s.workspace).snd)

/-- A payload directory changes. -/
def updatePayload (key : List String × JobKey) (f : PayloadTree ν → PayloadTree ν) :
    Sealing ν PUnit := emit (·.mapPayload key f) ⟨⟩

def payloadOf (s : SourceWorkspace ν) (key : List String × JobKey) : Except Exc (PayloadTree ν) :=
  match s.workspace.payloads key with
  | none => .error ⟨.osError, [.lit "no payload directory"]⟩
  | some t => .ok t

/-- `mkdir(exist_ok=True)`. -/
def makeDirectory (key : List String × JobKey) (p : List PyStr) : Sealing ν PUnit := do
  let s ← current
  let t ← ofExcept (payloadOf s key)
  match t.find p with
  | none => updatePayload key (·.write p .dir)
  | some _ =>
    match t.stat p with
    | some .dir => pure ⟨⟩
    | _ => raise ⟨.osError, [.lit "the path is no directory: ", .path p]⟩

/-- **A file is written where its path leads**; `executable` is the mode it gets, if it gets one. -/
def writeFile (key : List String × JobKey) (p : List PyStr) (content : ν)
    (executable : Option Bool) : Sealing ν PUnit := do
  let s ← current
  let t ← ofExcept (payloadOf s key)
  match t.leadsTo p with
  | none => pure ⟨⟩
  | some q =>
    match t.find q with
    | some .dir => raise ⟨.osError, [.lit "the path is a directory: ", .path p]⟩
    | some (.file _ x) => updatePayload key (·.write q (.file content (executable.getD x)))
    | _ => updatePayload key (·.write q (.file content (executable.getD false)))

/-- The runner is copied to its place, by `copyfile` or `copytree`. -/
def copyRunner (key : List String × JobKey) (store : PayloadTree ν) (relative : List PyStr) :
    Sealing ν PUnit := do
  match store.find relative with
  | some (.file c _) => writeFile key (TransferManifest.runnerPath relative) c (some true)
  | _ => do
    let s ← current
    let t ← ofExcept (payloadOf s key)
    match t.find (TransferManifest.runnerPath relative) with
    | some _ => raise ⟨.osError, [.lit "the runner's place is taken"]⟩
    | none =>
      updatePayload key (·.copyTo (TransferManifest.runnerPath relative) (store.dereferenced relative))

/-- Whether two entries are of one kind, as `is_file` tells. -/
def sameShape : Entry ν → Entry ν → Bool
  | .file _ _, .file _ _ => true
  | .dir, .dir => true
  | _, _ => false

/-- What lies at the runner's place is kept, if it is the runner, and else makes room for it. -/
def embedRunner (env : TransferEnv ν) (key : List String × JobKey) (store : PayloadTree ν)
    (relative : List PyStr) (digest : String) : Sealing ν PUnit := do
  let s ← current
  let t ← ofExcept (payloadOf s key)
  match t.find (TransferManifest.runnerPath relative), store.find relative with
  | some (.symlink _), _ | none, _ | _, none => copyRunner key store relative
  | some e, some source =>
    if sameShape source e = true then do
      let embedded ← ofExcept (runnerDigest env t (TransferManifest.runnerPath relative))
      if embedded = digest then pure ⟨⟩
      else do
        updatePayload key (·.removeTree (TransferManifest.runnerPath relative))
        copyRunner key store relative
    else do
      updatePayload key (·.removeTree (TransferManifest.runnerPath relative))
      copyRunner key store relative

def bundledRunners (env : DetachEnv ν) (key : List String × JobKey) :
    Sealing ν (List (List PyStr × String)) := do
  let s ← current
  let t ← ofExcept (payloadOf s key)
  match t.content jobJson with
  | none => raise ⟨.formatError, [.lit "cannot read JSON object ", .path jobJson]⟩
  | some c => do
    match ← ofExcept (env.pinnedRunner c) with
    | none => pure []
    | some (relative, pinned) => do
      let digest ← ofExcept (runnerDigest env.transfer s.runnerStore relative)
      if digest ≠ pinned then
        raise ⟨.workspaceCorruption, [.lit "workspace runner ", .path relative,
          .lit " has another digest than the job pinned"]⟩
      else do
        execAll (makeDirectory key)
          ((relative.inits.dropLast).map TransferManifest.runnerPath)
        embedRunner env.transfer key s.runnerStore relative digest
        pure [(relative, digest)]

def bundledSeal (env : DetachEnv ν) (mk : Marker) : Sealing ν (Option (PyStr × String)) := do
  let s ← current
  match s.workspace.seals mk.jobKey with
  | none => pure none
  | some c => do
    writeFile (mk.placement, mk.jobKey) (TransferManifest.sealPath bundledSealName) c none
    pure (some (bundledSealName, env.transfer.sha256 c))

def writeManifest (env : DetachEnv ν) (key : List String × JobKey) (m : TransferManifest) :
    Sealing ν PUnit := do
  let s ← current
  let t ← ofExcept (payloadOf s key)
  match t.stat TransferManifest.path with
  | some (.file c _) => do
    let existing ← ofExcept (env.transfer.loads c)
    if existing.equals m = true then pure ⟨⟩
    else raise ⟨.workspaceCorruption, [.lit "conflicting transfer manifest"]⟩
  | some .dir => raise ⟨.formatError, [.lit "cannot read JSON object ", .path TransferManifest.path]⟩
  | _ => do
    let c ← ofExcept (env.dumps m)
    updatePayload key (·.write TransferManifest.path (.file c false))

/-- **The marker is renamed into the bundle**, unless it was before. -/
def embedMarker (env : DetachEnv ν) (mk : Marker) (path : List PyStr) : Sealing ν PUnit := do
  let s ← current
  if mk ∈ s.workspace.markers then
    emit (fun s => (s.removeMarker mk).mapPayload (mk.placement, mk.jobKey)
      (·.write path (.file env.markerFile false))) ⟨⟩
  else do
    let t ← ofExcept (payloadOf s (mk.placement, mk.jobKey))
    match t.stat path with
    | some (.file _ _) => pure ⟨⟩
    | _ => raise ⟨.workspaceCorruption,
      [.lit "transfer marker exists in neither state tree nor sealed bundle"]⟩

/-- `prior_kind` of a transferring frame. -/
def priorKindOf (state : StateFrame) : Except Exc StateKind :=
  match state.get .priorKind with
  | some (.str word) =>
    match kindNamed word with
    | some kind => .ok kind
    | none => raiseFormat [.lit "transfer prior state is not quiescent: ", .raw word]
  | _ => raiseFormat [.lit "transfer prior state is not quiescent"]

/-- `destination_placement` of a transferring frame. -/
def destinationPlacementOf (state : StateFrame) : Except Exc (List String) :=
  match state.get .destinationPlacement with
  | some (.str text) => (normalizePlacement text).map (List.map PyStr.text)
  | _ => raiseFormat [.lit "placement must be a nonempty relative POSIX path"]

/-- The manifest of a job that is being transferred. -/
def manifestOf (env : DetachEnv ν) (workspaceId : String) (mk : Marker) (state : StateFrame)
    (prior : List (PyStr × Json)) (transferId destinationId : String)
    (runners : List (List PyStr × String)) (jobSeal : Option (PyStr × String)) (digest : String) :
    Except Exc TransferManifest := do
  let priorKind ← priorKindOf state
  let placement ← destinationPlacementOf state
  .ok {
    format := "httk-workflow-detached-transfer"
    formatVersion := 2
    coreProfile := "core-v2"
    transferId := transferId
    sourceWorkspaceId := workspaceId
    destinationWorkspaceId := destinationId
    jobKey := mk.jobKey
    sourcePlacement := mk.placement
    destinationPlacement := placement
    payloadSha256 := digest
    runners := runners
    jobSeal := jobSeal
    priorKind := priorKind
    priorState := StateFrame.ofDocument prior
    priority := mk.priority
    sourceGeneration := mk.generation
    sealedMarker := env.markerName mk
    transferSequence := (state.integer .transferSequence).map Int.toNat
    transferEpoch := (state.string .transferEpoch).map PyStr.text }

def sealTransferring (env : DetachEnv ν) (mk : Marker) (state : StateFrame) :
    Sealing ν (List String × JobKey) := do
  makeDirectory (mk.placement, mk.jobKey) [transferDirectory]
  let transferId ← ofExcept (uuidMember env.transfer state .transferId)
  let destinationId ← ofExcept (uuidMember env.transfer state .destinationWorkspaceId)
  match state.mapping .priorState with
  | none => raise ⟨.formatError, [.lit "transferring state has no prior_state object"]⟩
  | some prior => do
    let runners ← bundledRunners env (mk.placement, mk.jobKey)
    let jobSeal ← bundledSeal env mk
    let s ← current
    let t ← ofExcept (payloadOf s (mk.placement, mk.jobKey))
    let digest ← ofExcept (payloadDigest env.transfer t)
    let m ← ofExcept (manifestOf env s.workspace.workspaceId mk state prior transferId destinationId
      runners jobSeal digest)
    writeManifest env (mk.placement, mk.jobKey) m
    embedMarker env mk m.markerPath
    emit (·.setLedger transferId m (mk.placement, mk.jobKey)) ⟨⟩
    pure (mk.placement, mk.jobKey)

/-! ## The transition and the whole -/

def transferringMembers (workspaceId : String) (r : DetachRequest) (mk : Marker) (prior : Frame)
    (placement : List PyStr) (ticket : String × ℕ × String) : StateFrame :=
  StateFrame.empty.replace
    [(.transferId, .str ticket.1), (.transferSequence, .int ticket.2.1),
      (.transferEpoch, .str ticket.2.2), (.sourceWorkspaceId, .str workspaceId),
      (.destinationWorkspaceId, .str r.destinationWorkspaceId),
      (.destinationRemote, r.destinationRemote.elim .null .str),
      (.destinationPlacement, .str (PyStr.join "/" placement)),
      (.priorKind, .str mk.kind.word), (.priorState, .obj prior.document),
      (.reason, .str "detached_transfer")]

def transferringFrame (workspaceId : String) (mk : Marker) (members : StateFrame) : Frame where
  workspaceId := workspaceId
  jobKey := mk.jobKey
  placement := mk.placement
  stateGeneration := mk.generation + 1
  kind := .transferring
  previousRecordRef := if mk.recordRef = .init then none else some mk.recordRef
  priority := mk.priority
  members := members

/-- **`Workspace.transition`** to `transferring`, of a job that may be sealed. -/
def transition (mk : Marker) (members : StateFrame) : Sealing ν Marker := do
  let s ← current
  let moved : Marker := { mk with
    kind := .transferring
    generation := mk.generation + 1
    recordRef := .frame s.workspace.journal.length }
  if s.workspace.isSealed = true then raise ⟨.sealed, [.lit "the workspace is sealed"]⟩
  else if mk.generation + 1 ≥ 2 ^ 64 then
    raise ⟨.workspaceCorruption, [.lit "state generation exhausted"]⟩
  else do
    inWorkspace (Importing.effect
      (·.append (transferringFrame s.workspace.workspaceId mk members)))
    if 999 < mk.priority then raise ⟨.formatError, [.lit "priority must be 0 through 999"]⟩
    else if mk ∈ s.workspace.markers then emit (·.renameMarker mk moved) moved
    else raise ⟨.transitionLost, [.lit "another transition moved the marker"]⟩

/-- **`detach_job`**: the payload that is the bundle. -/
def detachJob (env : DetachEnv ν) (r : DetachRequest) : Sealing ν (List String × JobKey) := do
  let _ ← ofExcept (checkUuid env.transfer r.destinationWorkspaceId "destination_workspace_id")
  let _ ← ofExcept (checkUuid env.transfer r.transferId "transfer_id")
  let s ← current
  match s.ledgers r.transferId with
  | some (m, key) =>
    if m.destinationWorkspaceId ≠ r.destinationWorkspaceId then
      raise ⟨.workspaceCorruption,
        [.lit "transfer UUID was reused for a different destination"]⟩
    else pure key
  | none => do
    let mk ← ofExcept (sourceMarker s.workspace r)
    if mk.kind = .transferring then do
      let state ← ofExcept (s.workspace.readState mk)
      if state.members.get .transferId = some (.str r.transferId)
          ∧ state.members.get .destinationWorkspaceId = some (.str r.destinationWorkspaceId) then
        sealTransferring env mk state.members
      else raise ⟨.valueError, [.lit "job is already transferring under a different transfer"]⟩
    else if mk.kind.isQuiescent = false then
      raise ⟨.valueError, [.lit "job is not quiescent and cannot transfer"]⟩
    else do
      let joined ← ofExcept (unresolvedJoinReference s.workspace mk r.waitingParentMap)
      if joined = true then
        raise ⟨.valueError, [.lit "job participates in an unresolved join and cannot transfer"]⟩
      else do
        let placement ← ofExcept (normalizePlacement (r.placementOr mk))
        let prior ← ofExcept (s.workspace.readState mk)
        inWorkspace (Importing.finishIncomingReceipt env.transfer mk prior.members)
        let ticket ← ofExcept (env.reserve r.destinationWorkspaceId r.jobId r.transferId)
        let moved ← transition mk
          (transferringMembers s.workspace.workspaceId r mk prior placement ticket)
        let s ← current
        let state ← ofExcept (s.workspace.readState moved)
        sealTransferring env moved state.members

end Sealing
