import HttkWorkflow.Effects
import HttkWorkflow.Ranges
import HttkWorkflow.MarkerCreation

/-!
# Importing a sealed bundle

`import_bundle` takes a sealed bundle into the workspace it is for. It
installs the runners the bundle carries, copies the bundle to a staging
directory of a name fixed by the transfer, renames that into place, appends
the frame that restores the job's state, renames the sealed marker onto its
new name – from then on the job may run – and then tidies up: the record of
the import, the job's seal, the transfer directory, the acknowledgement,
and the receipt of the transfer's sequence number, which replaces the last.

Every file it writes appears at once, by a rename, and is one effect here.
The exceptions are the copy into the staging directory and the removal of
the transfer directory, which a crash can leave unfinished
(`TransferEnv.copied` and `TransferEnv.removed`).
-/

/-- **An acknowledgement**, without the signature it may carry. -/
structure Acknowledgement where
  transferId : String
  /-- `transfer_sequence`, which only a sequenced acknowledgement has. -/
  transferSequence : Option Nat
  transferEpoch : Option String
  sourceWorkspaceId : String
  destinationWorkspaceId : String
  payloadSha256 : String
  jobKey : JobKey
  placement : List String
  state : StateKind
deriving DecidableEq, Repr

/-- **The destination workspace**, as an import sees it. -/
structure Destination (ν : Type) where
  workspaceId : String
  /-- Whether it refuses to publish runners. -/
  isSealed : Bool
  /-- The runner store, by the digest of each entry. -/
  runners : List PyStr → Option String
  /-- `tmp/import.<transfer_id>`. -/
  staging : String → Option (PayloadTree ν)
  payloads : List String × JobKey → Option (PayloadTree ν)
  /-- The state tree. -/
  markers : List Marker
  journal : List Frame
  /-- The transfers with a record in `transfers/imported`. -/
  imported : List String
  seals : JobKey → Option ν
  /-- `transfers/acks`. -/
  acks : String → Option Acknowledgement
  /-- The received sequence numbers of each stream. -/
  received : String × Option String → List (Nat × Nat)

abbrev Importing (ν α : Type) := Effects (Destination ν) Exc α

namespace Destination

variable {ν : Type}

def setRunner (d : Destination ν) (p : List PyStr) (digest : String) : Destination ν :=
  { d with runners := Function.update d.runners p (some digest) }

/-- The staging directory of a transfer changes. -/
def setStaging (d : Destination ν) (id : String) (t : Option (PayloadTree ν)) : Destination ν :=
  { d with staging := Function.update d.staging id t }

/-- A payload directory changes. -/
def setPayload (d : Destination ν) (key : List String × JobKey) (t : PayloadTree ν) :
    Destination ν :=
  { d with payloads := Function.update d.payloads key (some t) }

def append (d : Destination ν) (f : Frame) : Destination ν := { d with journal := d.journal ++ [f] }

def addMarker (d : Destination ν) (m : Marker) : Destination ν := { d with markers := d.markers ++ [m] }

def record (d : Destination ν) (id : String) : Destination ν := { d with imported := id :: d.imported }

def setSeal (d : Destination ν) (key : JobKey) (c : ν) : Destination ν :=
  { d with seals := Function.update d.seals key (some c) }

/-- An acknowledgement appears, or is removed. -/
def setAck (d : Destination ν) (id : String) (ack : Option Acknowledgement) : Destination ν :=
  { d with acks := Function.update d.acks id ack }

/-- The record of an import is removed. -/
def forget (d : Destination ν) (id : String) : Destination ν :=
  { d with imported := d.imported.filter (· ≠ id) }

/-- **`read_state`**: the frame a marker refers to, if it describes that marker. -/
def readState (d : Destination ν) (m : Marker) : Except Exc Frame :=
  match m.recordRef with
  | .init => .ok ⟨d.workspaceId, m.jobKey, m.placement, 0, .submitted, none, m.priority, .empty⟩
  | .frame n =>
    match d.journal[n]? with
    | none => .error ⟨.workspaceUnavailable, [.lit "cannot read journal record"]⟩
    | some f =>
      if f.workspaceId ≠ d.workspaceId ∨ f.jobKey ≠ m.jobKey ∨ f.stateGeneration ≠ m.generation
          ∨ f.kind ≠ m.kind then
        .error ⟨.workspaceCorruption, [.lit "state frame disagrees with marker"]⟩
      else .ok f

theorem readState_frame {d : Destination ν} {m : Marker} {n : ℕ} {f : Frame} (hm : m.recordRef = .frame n)
    (hn : d.journal[n]? = some f) (h : ¬(f.workspaceId ≠ d.workspaceId ∨ f.jobKey ≠ m.jobKey
      ∨ f.stateGeneration ≠ m.generation ∨ f.kind ≠ m.kind)) : d.readState m = .ok f := by
  simp only [readState, hm, hn, if_neg h]

end Destination

/-! ## Streams and provenance -/

namespace TransferManifest

def streamKey (m : TransferManifest) : String × Option String :=
  (m.sourceWorkspaceId, m.transferEpoch)

def sequenceOf (m : TransferManifest) : Except Exc (Option Nat) :=
  if m.transferSequence = some 0 then
    raiseFormat [.lit "transfer_sequence must be a positive integer"]
  else .ok m.transferSequence

def epochOf {ν : Type} (env : TransferEnv ν) (m : TransferManifest) : Except Exc (Option String) :=
  match m.transferEpoch with
  | none => .ok none
  | some epoch =>
    if env.isUuid epoch = true then .ok (some epoch)
    else raiseFormat [.lit "transfer_epoch must be a canonical UUID"]

def payloadKey (m : TransferManifest) : List String × JobKey := (m.destinationPlacement, m.jobKey)

/-- `provenance.get("transfer_id") == transfer_id`. -/
def sameTransfer (m : TransferManifest) (provenance : List (PyStr × Json)) : Bool :=
  Json.optEqStr (Json.get provenance "transfer_id") (PyStr.ofString m.transferId)

/-- `provenance.get("payload_sha256") == digest`. -/
def sameDigest (m : TransferManifest) (provenance : List (PyStr × Json)) : Bool :=
  Json.optEqStr (Json.get provenance "payload_sha256") (PyStr.ofString m.payloadSha256)

/-- `provenance.get("transfer_epoch") == manifest.get("transfer_epoch")`. -/
def sameEpoch (m : TransferManifest) (provenance : List (PyStr × Json)) : Bool :=
  match m.transferEpoch with
  | some epoch => Json.optEqStr (Json.get provenance "transfer_epoch") (PyStr.ofString epoch)
  | none =>
    match Json.get provenance "transfer_epoch" with
    | none | some .null => true
    | some _ => false

def sequenceAck (m : TransferManifest) (workspaceId : String) : Acknowledgement where
  transferId := m.transferId
  transferSequence := m.transferSequence
  transferEpoch := m.transferEpoch
  sourceWorkspaceId := m.sourceWorkspaceId
  destinationWorkspaceId := workspaceId
  payloadSha256 := m.payloadSha256
  jobKey := m.jobKey
  placement := m.destinationPlacement
  state := m.priorKind

/-- The acknowledgement of a transfer by itself. -/
def importAck (m : TransferManifest) (workspaceId : String) (placement : List String)
    (state : StateKind) : Acknowledgement where
  transferId := m.transferId
  transferSequence := none
  transferEpoch := none
  sourceWorkspaceId := m.sourceWorkspaceId
  destinationWorkspaceId := workspaceId
  payloadSha256 := m.payloadSha256
  jobKey := m.jobKey
  placement := placement
  state := state

end TransferManifest

namespace Destination

variable {ν : Type}

/-- **`receipts.received`**. -/
def hasReceived (d : Destination ν) (m : TransferManifest) : Bool :=
  match m.transferSequence with
  | none => false
  | some n => Ranges.covers (d.received m.streamKey) n

def remember (d : Destination ν) (m : TransferManifest) : Destination ν :=
  match m.transferSequence with
  | none => d
  | some n =>
    { d with received :=
        Function.update d.received m.streamKey (Ranges.insert (d.received m.streamKey) n) }

end Destination

/-! ## The effects of an import -/

namespace Importing

variable {ν : Type}

/-- One effect that returns nothing. -/
def effect (f : Destination ν → Destination ν) : Importing ν PUnit := Effects.emit f ⟨⟩

/-- **`_install_bundled_runners`**, one runner of it. -/
def installRunner (env : TransferEnv ν) (bundle : PayloadTree ν) (runner : List PyStr × String) :
    Importing ν PUnit := do
  let d ← Effects.current
  match d.runners runner.fst with
  | some existing =>
    if existing = runner.snd then pure ⟨⟩
    else Effects.raise ⟨.workspaceCorruption,
      [.lit "destination workspace runner ", .path runner.fst, .lit " holds another digest"]⟩
  | none =>
    match bundle.find (TransferManifest.runnerPath runner.fst) with
    | some (.file _ _) | some .dir =>
      if d.isSealed = true then Effects.raise ⟨.sealed, [.lit "the workspace is sealed"]⟩
      else do
        let digest ← Effects.ofExcept (runnerDigest env bundle (TransferManifest.runnerPath runner.fst))
        effect (·.setRunner runner.fst digest)
    | _ => Effects.raise ⟨.formatError,
      [.lit "transfer bundle does not carry the runner it declares: ", .path runner.fst]⟩

/-- **`_install_bundled_seal`**, from the transfer directory in a payload. -/
def installSeal (env : TransferEnv ν) (m : TransferManifest) (t : PayloadTree ν) :
    Importing ν PUnit := do
  match m.jobSeal with
  | none => pure ⟨⟩
  | some (name, sha256) =>
    match t.content (TransferManifest.sealPath name) with
    | none => Effects.raise ⟨.formatError,
      [.lit "transfer bundle does not carry the seal it declares"]⟩
    | some carried => do
      let d ← Effects.current
      match d.seals m.jobKey with
      | some existing =>
        if env.sha256 existing = sha256 then pure ⟨⟩
        else Effects.raise ⟨.workspaceCorruption,
          [.lit "destination job seal differs from the transferred seal"]⟩
      | none => effect (·.setSeal m.jobKey carried)

/-- **`_remove_tree`** of the transfer directory of a payload. -/
def removeTransfer (env : TransferEnv ν) (key : List String × JobKey) (t : PayloadTree ν) :
    Importing ν PUnit :=
  Effects.execAll (fun t' => effect (·.setPayload key t')) (env.removed t ++ [t.withoutTransfer])

/-- `shutil.copytree(source, staging)`. -/
def copyTree (env : TransferEnv ν) (id : String) (source : PayloadTree ν) : Importing ν PUnit :=
  Effects.execAll (fun t => effect (·.setStaging id (some t))) (env.copied source ++ [source])

/-- The staged copy is there: one left by an earlier import, if it is whole. -/
def stage (env : TransferEnv ν) (bundle : PayloadTree ν) (m : TransferManifest) :
    Importing ν PUnit := do
  let d ← Effects.current
  match d.staging m.transferId with
  | some staged => do
    let m' ← Effects.ofExcept (validateBundle env staged)
    if m'.payloadSha256 ≠ m.payloadSha256 then
      Effects.raise ⟨.workspaceCorruption, [.lit "staged transfer digest mismatch"]⟩
    else pure ⟨⟩
  | none => copyTree env m.transferId bundle

/-- **`_publish_path`** of the staged copy, its digest checked. -/
def publishStaged (env : TransferEnv ν) (m : TransferManifest) : Importing ν PUnit := do
  let d ← Effects.current
  match d.staging m.transferId with
  | none => Effects.raise ⟨.workspaceUnavailable, [.lit "cannot resolve publication"]⟩
  | some staged => do
    let digest ← Effects.ofExcept (payloadDigest env staged)
    if digest ≠ m.payloadSha256 then
      Effects.raise ⟨.formatError, [.lit "copied transfer payload digest mismatch"]⟩
    else effect fun d => (d.setStaging m.transferId none).setPayload m.payloadKey staged

/-- The payload is in place: one published by an earlier import, if it is the same. -/
def placeBundle (env : TransferEnv ν) (bundle : PayloadTree ν) (m : TransferManifest) :
    Importing ν PUnit := do
  let d ← Effects.current
  match d.payloads m.payloadKey with
  | some target => do
    let m' ← Effects.ofExcept (validateBundle env target)
    if m'.payloadSha256 ≠ m.payloadSha256 then
      Effects.raise ⟨.osError, [.lit "destination payload collision"]⟩
    else pure ⟨⟩
  | none => do
    stage env bundle m
    publishStaged env m

/-- **The frame and the marker of the imported job**: from this rename on the job is
the destination's. -/
def publishMarker (m : TransferManifest) : Importing ν PUnit := do
  let d ← Effects.current
  let marker := m.importedMarker (.frame d.journal.length)
  effect (·.append (m.importedFrame d.workspaceId))
  if m.nameable = false then
    Effects.raise ⟨.formatError, [.lit "marker exceeds the core profile"]⟩
  else
    match d.payloads m.payloadKey with
    | some t =>
      if (t.content m.markerPath).isNone = true then
        Effects.raise ⟨.workspaceUnavailable, [.lit "cannot resolve marker rename"]⟩
      else effect fun d => (d.setPayload m.payloadKey (t.erase m.markerPath)).addMarker marker
    | none => Effects.raise ⟨.workspaceUnavailable, [.lit "cannot resolve marker rename"]⟩

/-- The seal goes to its place and the transfer directory away. `always` tells whether
that is done without a look whether there is a transfer directory. -/
def finishPayload (env : TransferEnv ν) (m : TransferManifest) (key : List String × JobKey)
    (always : Bool) : Importing ν PUnit := do
  let d ← Effects.current
  match d.payloads key with
  | some t =>
    if (always || t.hasTransfer) = true then do
      installSeal env m t
      removeTransfer env key t
    else pure ⟨⟩
  | none => pure ⟨⟩

def acknowledge (ack : Acknowledgement) : Importing ν Acknowledgement := do
  effect (·.setAck ack.transferId (some ack))
  pure ack

/-- What is done for a job that has a marker here: it is this import's, or it is refused. -/
def acknowledgeDuplicate (env : TransferEnv ν) (m : TransferManifest) (duplicate : Marker) :
    Importing ν Acknowledgement := do
  let d ← Effects.current
  let state ← Effects.ofExcept (d.readState duplicate)
  match state.members.mapping .transfer with
  | none => Effects.raise ⟨.osError, [.lit "destination already contains job UUID"]⟩
  | some provenance =>
    if m.sameTransfer provenance = false then
      Effects.raise ⟨.osError, [.lit "destination already contains job UUID"]⟩
    else if m.sameDigest provenance = false then
      Effects.raise ⟨.workspaceCorruption, [.lit "imported marker transfer digest mismatch"]⟩
    else do
      finishPayload env m (duplicate.placement, duplicate.jobKey) false
      acknowledge (m.importAck d.workspaceId state.placement duplicate.kind)

/-- What is done for a job that has no marker here. -/
def importAbsent (env : TransferEnv ν) (bundle : PayloadTree ν) (m : TransferManifest) :
    Importing ν Acknowledgement := do
  placeBundle env bundle m
  if m.priorKind.isQuiescent = false then
    Effects.raise ⟨.formatError, [.lit "transfer prior state is not quiescent"]⟩
  else do
    publishMarker m
    effect (·.record m.transferId)
    finishPayload env m m.payloadKey true
    let d ← Effects.current
    acknowledge (m.importAck d.workspaceId m.destinationPlacement m.priorKind)

/-- **`_import_bundle`**. -/
def importKnown (env : TransferEnv ν) (bundle : PayloadTree ν) (known : Option Marker) :
    Importing ν Acknowledgement := do
  let m ← Effects.ofExcept (validateBundle env bundle)
  let d ← Effects.current
  match d.acks m.transferId with
  | some ack =>
    if ack.payloadSha256 ≠ m.payloadSha256 then
      Effects.raise ⟨.workspaceCorruption, [.lit "transfer acknowledgement digest mismatch"]⟩
    else pure ack
  | none =>
    if m.destinationWorkspaceId ≠ d.workspaceId then
      Effects.raise ⟨.valueError, [.lit "bundle names a different destination workspace"]⟩
    else do
      Effects.ofExcept env.identitySeed
      Effects.execAll (installRunner env bundle) m.runners
      match known with
      | some duplicate => acknowledgeDuplicate env m duplicate
      | none => importAbsent env bundle m

/-- A replay of a received transfer: the job, if it is here, must still tell of it. -/
def checkReplay (m : TransferManifest) (known : Option Marker) : Importing ν PUnit := do
  match known with
  | some marker => do
    let d ← Effects.current
    let state ← Effects.ofExcept (d.readState marker)
    match state.members.mapping .transfer with
    | some provenance =>
      if m.sameTransfer provenance && m.sameDigest provenance && m.sameEpoch provenance then pure ⟨⟩
      else Effects.raise ⟨.workspaceCorruption,
        [.lit "received sequence conflicts with destination job provenance"]⟩
    | none => Effects.raise ⟨.workspaceCorruption,
      [.lit "received sequence conflicts with destination job provenance"]⟩
  | none =>
    if m.transferEpoch = none then
      Effects.raise ⟨.workspaceCorruption, [.lit "legacy receipt has no epoch or live job"]⟩
    else pure ⟨⟩

/-- `_prune_import_receipts`. -/
def pruneReceipts (m : TransferManifest) : Importing ν PUnit := do
  effect (·.setAck m.transferId none)
  effect (·.forget m.transferId)

/-- A sequenced transfer that was received before is checked, and any other imported and
remembered. -/
def receive (env : TransferEnv ν) (bundle : PayloadTree ν) (m : TransferManifest)
    (known : Option Marker) : Importing ν PUnit := do
  let d ← Effects.current
  if d.hasReceived m = true then checkReplay m known
  else do
    let _ ← importKnown env bundle known
    effect (·.remember m)

def importBundle (env : TransferEnv ν) (bundle : PayloadTree ν) : Importing ν Acknowledgement := do
  let m ← Effects.ofExcept (validateBundle env bundle)
  let d ← Effects.current
  if m.destinationWorkspaceId ≠ d.workspaceId then
    Effects.raise ⟨.valueError, [.lit "bundle names a different destination workspace"]⟩
  else
    let known ← Effects.ofExcept ((findMarkerById d.markers m.jobId).mapError fun cls =>
      (⟨cls, [.lit "more than one current marker"]⟩ : Exc))
    match ← Effects.ofExcept m.sequenceOf with
    | none => importKnown env bundle known
    | some _ => do
      Effects.ofExcept env.identitySeed
      let _ ← Effects.ofExcept (m.epochOf env)
      receive env bundle m known
      pruneReceipts m
      pure (m.sequenceAck d.workspaceId)

end Importing
