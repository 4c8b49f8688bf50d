import Mathlib.Data.List.Sort
import HttkWorkflow.Validators
import HttkWorkflow.StateFrame

/-!
# Sealed transfer bundles

A job leaves its workspace as its payload directory, sealed: below
`.httk-transfer/` lie a manifest, the job's marker, and what the job needs
at its destination. The payload itself is pinned by one digest of its
names, kinds, contents, executable bits and link targets, from which the
transfer directory and the entries private to a runner are left out.

A `PayloadTree` lists the entries of such a directory. What only a disk
can decide is left to `TransferEnv`: the hashes, the decoding of the
manifest, and the trees that a copy and a removal of a directory leave
behind one after the other. The manifest is taken decoded, its members of
the types `_seal_transferring` writes, so that `validateBundle` keeps the
checks of `validate_bundle` that compare them with something.
-/

/-- **One entry of a payload directory.** -/
inductive Entry (ν : Type) where
  | dir
  | file (content : ν) (executable : Bool)
  | symlink (target : PyStr)
deriving DecidableEq, Repr

/-- **A payload directory**: the entries below it, one for each relative path, in the
order of a listing from the top. -/
structure PayloadTree (ν : Type) where
  entries : List (List PyStr × Entry ν)
  nodup : (entries.map Prod.fst).Nodup
deriving DecidableEq, Repr

theorem PayloadTree.nodup_empty : ([] : List (List PyStr)).Nodup := List.nodup_nil

def transferDirectory : PyStr := ".httk-transfer"

def transferManifest : PyStr := "manifest.json"

def transferRunners : PyStr := "runners"

namespace PayloadTree

variable {ν : Type}

def find (t : PayloadTree ν) (p : List PyStr) : Option (Entry ν) := t.entries.lookup p

def below (t : PayloadTree ν) (p : List PyStr) : List (List PyStr × Entry ν) :=
  t.entries.filterMap fun e => if p <+: e.fst then some (e.fst.drop p.length, e.snd) else none

/-- The directory without the file at a path. -/
def erase (t : PayloadTree ν) (p : List PyStr) : PayloadTree ν :=
  ⟨t.entries.filter fun e => e.fst ≠ p, t.nodup.sublist (List.filter_sublist.map _)⟩

def withoutTransfer (t : PayloadTree ν) : PayloadTree ν :=
  ⟨t.entries.filter fun e => e.fst.head? ≠ some transferDirectory,
    t.nodup.sublist (List.filter_sublist.map _)⟩

/-- `transfer_dir.exists()`. -/
def hasTransfer (t : PayloadTree ν) : Bool := (t.find [transferDirectory]).isSome

/-- The contents of the regular file at a path. -/
def content (t : PayloadTree ν) (p : List PyStr) : Option ν :=
  match t.find p with
  | some (.file c _) => some c
  | _ => none

variable {t : PayloadTree ν}

variable {p : List PyStr}

theorem find_eq_some_iff {e : Entry ν} : t.find p = some e ↔ (p, e) ∈ t.entries := by
  obtain ⟨entries, hnodup⟩ := t
  show entries.lookup p = some e ↔ (p, e) ∈ entries
  induction entries with
  | nil => simp
  | cons x entries ih =>
    obtain ⟨q, e'⟩ := x
    obtain ⟨hq, hnodup⟩ := List.nodup_cons.mp hnodup
    rw [List.lookup_cons, List.mem_cons]
    by_cases hp : p = q
    · subst hp
      have hnot : (p, e) ∉ entries := fun h => hq (List.mem_map.mpr ⟨_, h, rfl⟩)
      rw [beq_self_eq_true, or_iff_left hnot, Prod.mk.injEq]
      exact ⟨fun h => ⟨rfl, (Option.some.inj h).symm⟩, fun h => congrArg some h.2.symm⟩
    · rw [beq_eq_false_iff_ne.mpr hp, ← ih hnodup, Prod.mk.injEq]
      exact ⟨Or.inr, fun h => h.resolve_left fun h => hp h.1⟩

theorem content_eq_some_iff {c : ν} : t.content p = some c ↔ ∃ x, (p, Entry.file c x) ∈ t.entries := by
  unfold content
  simp only [← find_eq_some_iff]
  cases t.find p with
  | none => simp
  | some e => cases e <;> simp

theorem content_of_subset {t t' : PayloadTree ν} {c : ν}
    (h : ∀ e ∈ t'.entries, e ∈ t.entries) (hc : t'.content p = some c) : t.content p = some c := by
  obtain ⟨x, hx⟩ := content_eq_some_iff.mp hc
  exact content_eq_some_iff.mpr ⟨x, h _ hx⟩

theorem content_erase {p q : List PyStr} (h : p ≠ q) : (t.erase q).content p = t.content p := by
  have hiff : ∀ c, (t.erase q).content p = some c ↔ t.content p = some c := by
    intro c
    rw [content_eq_some_iff, content_eq_some_iff]
    exact exists_congr fun x => ⟨fun hx => (List.mem_filter.mp hx).1,
      fun hx => List.mem_filter.mpr ⟨hx, decide_eq_true h⟩⟩
  cases hc : t.content p with
  | none =>
    cases hc' : (t.erase q).content p with
    | none => rfl
    | some c => exact absurd ((hiff c).mp hc') (by rw [hc]; simp)
  | some c => exact (hiff c).mpr hc

end PayloadTree

/-- **The manifest of a sealed bundle.** The placements are normalized ones, and the
job's UUID is the one of its key. -/
structure TransferManifest where
  format : String
  formatVersion : Nat
  coreProfile : String
  transferId : String
  sourceWorkspaceId : String
  destinationWorkspaceId : String
  jobKey : JobKey
  sourcePlacement : List String
  destinationPlacement : List String
  payloadSha256 : String
  /-- `runners`: the path and the digest of each. -/
  runners : List (List PyStr × String)
  /-- `seal`: its file and its digest. -/
  jobSeal : Option (PyStr × String)
  priorKind : StateKind
  priorState : StateFrame
  priority : Nat
  sourceGeneration : Nat
  /-- `sealed_marker`, the name of the marker file. -/
  sealedMarker : PyStr
  /-- `transfer_sequence`, if the transfer is a sequenced one. -/
  transferSequence : Option Nat
  transferEpoch : Option String
deriving Repr

/-- One line of the stream the payload digest is taken of. -/
inductive DigestLine where
  | link (path target : PyStr)
  | dir (path : PyStr)
  | file (path : PyStr) (executable : Bool) (sha256 : String)
deriving DecidableEq, Repr

/-- **What transfers take from outside.** `copied` and `removed` are the directories
one sees at the destination of `shutil.copytree` and at a payload whose transfer
directory is being removed, before either is done. -/
structure TransferEnv (ν : Type) where
  /-- `json.loads` of the manifest's text. -/
  loads : ν → Except Exc TransferManifest
  /-- Whether a text is a canonical UUID. -/
  isUuid : String → Bool
  /-- `sha256_file`. -/
  sha256 : ν → String
  /-- The SHA-256 of the payload stream. -/
  digestOf : List DigestLine → String
  treeDigest : List (List PyStr × Entry ν) → Except Exc String
  /-- `identity_seed`, which refuses an ambiguous operator identity. -/
  identitySeed : Except Exc Unit
  /-- What an unfinished copy of a directory looks like, step by step. -/
  copied : PayloadTree ν → List (PayloadTree ν)
  /-- What an unfinished removal of the transfer directory leaves, step by step. -/
  removed : PayloadTree ν → List (PayloadTree ν)
  copied_paths : ∀ t, ∀ t' ∈ copied t, ∀ e ∈ t'.entries, e.fst ∈ t.entries.map Prod.fst
  /-- A JSON object cut short is no document, but for the line end after it. -/
  copied_manifest : ∀ t, ∀ t' ∈ copied t, ∀ c,
    t'.content [transferDirectory, transferManifest] = some c →
      ∃ c₀, t.content [transferDirectory, transferManifest] = some c₀
        ∧ (loads c = loads c₀ ∨ ∃ e, loads c = .error e)
  removed_entries : ∀ t, ∀ t' ∈ removed t, ∀ e ∈ t'.entries, e ∈ t.entries

variable {ν : Type}

/-! ## The payload digest -/

def isPayloadPrivate (name : PyStr) : Bool :=
  name ∈ (["attempts", "logs", ".httk-job"] : List PyStr)

/-- `_excluded_from_bundle`, of the first part of a path. -/
def excludedFromBundle (path : List PyStr) : Bool :=
  match path with
  | [] => true
  | name :: _ => name == transferDirectory || isPayloadPrivate name

def asPosix (path : List PyStr) : PyStr := ⟨List.intercalate ['/'.toNat] (path.map PyStr.codes)⟩

/-- Where a relative link target leads, `none` for one that climbs out. -/
def linkParts : List PyStr → List PyStr → Option (List PyStr)
  | parts, [] => some parts
  | parts, part :: rest =>
    if part.codes = [] ∨ part = "." then linkParts parts rest
    else if part ≠ ".." then linkParts (parts ++ [part]) rest
    else if parts = [] then none
    else linkParts parts.dropLast rest

def containedSymlinkTarget (path : List PyStr) (target : PyStr) : Except Exc PyStr :=
  if target.codes.head? = some '/'.toNat then
    raiseFormat [.lit "transfer payload rejects the absolute symlink ", .path path]
  else
    match linkParts path.dropLast (target.split '/') with
    | none => raiseFormat [.lit "transfer payload rejects the escaping symlink ", .path path]
    | some _ => .ok target

def digestLine (env : TransferEnv ν) (e : List PyStr × Entry ν) : Except Exc DigestLine :=
  match e.snd with
  | .symlink target => (containedSymlinkTarget e.fst target).map (.link (asPosix e.fst))
  | .dir => .ok (.dir (asPosix e.fst))
  | .file c x => .ok (.file (asPosix e.fst) x (env.sha256 c))

/-- **`_payload_digest`**, over the entries in the order of their paths. -/
def payloadDigest (env : TransferEnv ν) (t : PayloadTree ν) : Except Exc String :=
  (((t.entries.filter fun e => !excludedFromBundle e.fst).insertionSort
      fun a b => (asPosix a.fst).codes ≤ (asPosix b.fst).codes).mapM (digestLine env)).map env.digestOf

/-- **`_runner_digest`** of a file or a tree in a payload directory. -/
def runnerDigest (env : TransferEnv ν) (t : PayloadTree ν) (p : List PyStr) : Except Exc String :=
  match t.find p with
  | some (.file c _) => .ok (env.sha256 c)
  | some .dir => env.treeDigest (t.below p)
  | _ => raiseFormat [.lit "referenced workspace runner is not a regular file or tree: ", .path p]

/-! ## The manifest and its checks -/

namespace TransferManifest

def jobId (m : TransferManifest) : String := m.jobKey.id

/-- Where the manifest lies in its bundle. -/
def path : List PyStr := [transferDirectory, transferManifest]

def markerPath (m : TransferManifest) : List PyStr := [transferDirectory, m.sealedMarker]

/-- Where a bundled runner lies in the bundle. -/
def runnerPath (p : List PyStr) : List PyStr := transferDirectory :: transferRunners :: p

/-- Where the bundled seal lies in the bundle. -/
def sealPath (name : PyStr) : List PyStr := [transferDirectory, name]

end TransferManifest

/-- A bundled runner is checked against its own digest. -/
def validateRunner (env : TransferEnv ν) (t : PayloadTree ν) (runner : List PyStr × String) :
    Except Exc Unit := do
  match t.find (TransferManifest.runnerPath runner.fst) with
  | none =>
    raiseFormat [.lit "transfer bundle does not carry the runner it declares: ", .path runner.fst]
  | some _ =>
    let digest ← runnerDigest env t (TransferManifest.runnerPath runner.fst)
    if digest ≠ runner.snd then
      raiseFormat [.lit "bundled runner digest mismatch: ", .path runner.fst]
    else .ok ()

/-- A bundled seal is checked against its own digest. -/
def validateSeal (env : TransferEnv ν) (t : PayloadTree ν) (entry : Option (PyStr × String)) :
    Except Exc Unit :=
  match entry with
  | none => .ok ()
  | some (name, sha256) =>
    match t.content (TransferManifest.sealPath name) with
    | none => raiseFormat [.lit "transfer bundle does not carry the seal it declares"]
    | some c =>
      if env.sha256 c ≠ sha256 then raiseFormat [.lit "bundled seal digest mismatch"] else .ok ()

/-- `read_json` of the manifest in a bundle. -/
def readManifest (env : TransferEnv ν) (t : PayloadTree ν) : Except Exc TransferManifest :=
  match t.content TransferManifest.path with
  | none => raiseFormat [.lit "cannot read JSON object ", .path TransferManifest.path]
  | some c => env.loads c

def validateBundle (env : TransferEnv ν) (t : PayloadTree ν) : Except Exc TransferManifest := do
  let m ← readManifest env t
  if m.format ≠ "httk-workflow-detached-transfer" ∨ m.coreProfile ≠ "core-v2" then
    raiseFormat [.lit "unsupported detached transfer manifest"]
  else if m.formatVersion ≠ 2 then raiseFormat [.lit "unsupported detached transfer manifest"]
  else if !env.isUuid m.transferId then raiseFormat [.lit "transfer_id must be a UUID"]
  else if !env.isUuid m.sourceWorkspaceId then
    raiseFormat [.lit "source_workspace_id must be a UUID"]
  else if !env.isUuid m.destinationWorkspaceId then
    raiseFormat [.lit "destination_workspace_id must be a UUID"]
  else if !env.isUuid m.jobId then raiseFormat [.lit "job_id must be a UUID"]
  else if t.content m.markerPath = none then
    raiseFormat [.lit "sealed transfer marker is absent"]
  else
    let digest ← payloadDigest env t
    if digest ≠ m.payloadSha256 then raiseFormat [.lit "detached transfer payload digest mismatch"]
    else
      m.runners.forM (validateRunner env t)
      validateSeal env t m.jobSeal
      .ok m

/-! ## What an import publishes -/

namespace TransferManifest

/-- The `transfer` member an imported frame carries. -/
def provenance (m : TransferManifest) : List (PyStr × Json) :=
  [(PyStr.ofString "transfer_id", .str (PyStr.ofString m.transferId))]
    ++ (m.transferSequence.map fun n => (PyStr.ofString "transfer_sequence", Json.int n)).toList
    ++ (m.transferEpoch.map fun t =>
      (PyStr.ofString "transfer_epoch", Json.str (PyStr.ofString t))).toList
    ++ [(PyStr.ofString "source_workspace_id", .str (PyStr.ofString m.sourceWorkspaceId)),
      (PyStr.ofString "payload_sha256", .str (PyStr.ofString m.payloadSha256))]

/-- **The frame an import appends**: the prior state, and where it came from. -/
def importedFrame (workspaceId : String) (m : TransferManifest) : Frame where
  workspaceId := workspaceId
  jobKey := m.jobKey
  placement := m.destinationPlacement
  stateGeneration := m.sourceGeneration + 1
  kind := m.priorKind
  previousRecordRef := none
  priority := m.priority
  members := m.priorState.replace [(.transfer, .obj m.provenance)]

/-- The marker that refers to the frame an import appended at a reference. -/
def importedMarker (m : TransferManifest) (ref : RecordRef) : Marker where
  kind := m.priorKind
  placement := m.destinationPlacement
  jobKey := m.jobKey
  priority := m.priority
  generation := m.sourceGeneration + 1
  recordRef := ref

/-- Whether `marker_basename` takes the imported marker. -/
def nameable (m : TransferManifest) : Bool := m.priority ≤ 999 && m.sourceGeneration + 1 < 2 ^ 64

end TransferManifest
