import HttkWorkflow.Effects
import HttkWorkflow.FileTree
import HttkWorkflow.Validators

/-!
# Replay of a published transaction

`replay_transaction` applies the operations of a transaction directory to
the data tree of a job. Both lie in one file system, so the model has one
directory tree and the two places in it (`ReplayDirs`); a payload moves from
the one to the other by a rename, and a rename is one effect. Creating a
chain of directories is as many effects as it creates directories. What is
done for durability alone changes no tree and is left out.

The digests, the decoding of the manifest and the names a file system
refuses come from outside (`ReplayEnv`). A digest is a function of what is
read, of a file's contents or of the tree below a directory, and nothing
else is assumed of it.
-/

/-- **What replay takes from outside**: the digests, the decoding of a JSON
text, and what a system call raises for a path it cannot take. -/
structure ReplayEnv (ν : Type) where
  /-- `sha256_file`. -/
  sha256 : ν → PyStr
  treeDigest : FileTree PyStr ν → PyStr
  /-- `json.loads` of a file's text. -/
  loads : ν → Except Exc Json
  /-- The exception of a system call on a path it cannot take. -/
  refusal : List PyStr → Option Exc
  refusal_cls : ∀ p e, refusal p = some e → e.cls = .osError ∨ e.cls = .unicodeEncode

/-- **The places of one replay**, neither of which lies inside the other. -/
structure ReplayDirs where
  /-- The published transaction directory. -/
  transaction : List PyStr
  data : List PyStr
  apart : ¬transaction <+: data
  apart' : ¬data <+: transaction

variable {ν : Type}

/-- The states of a replay are directory trees, and its errors exceptions. -/
abbrev Replay (ν α : Type) := Effects (FileTree PyStr ν) Exc α

/-- `raise TransactionError(…)`. -/
def refuse {α : Type} (message : Message) : Replay ν α := Effects.raise ⟨.transaction, message⟩

/-! ## Paths and digests -/

/-- **`_relative_path`**: a nonempty relative path without `..` and NUL, as
its parts. An empty part and a `.` are dropped, as `PurePosixPath` does. -/
def relativePath (value : Option Json) (name : String) : Except Exc (List PyStr) :=
  match value with
  | some (.str text) =>
    if text.codes = [] then raiseFormat [.lit name, .lit " must be a nonempty relative path"]
    else
      let parts := (text.split '/').filter (fun t => t.codes ≠ [] ∧ t ≠ PyStr.ofString ".")
      if text.codes.head? = some '/'.toNat ∨ PyStr.ofString ".." ∈ parts then
        raiseFormat [.lit name, .lit " is not a normalized relative path"]
      else if parts.any (·.codes.contains 0) then
        raiseFormat [.lit name, .lit " contains NUL"]
      else .ok parts
  | _ => raiseFormat [.lit name, .lit " must be a nonempty relative path"]

/-- `str(raw.get("sha256", ""))`, as far as it can be a digest: a decimal
number is its digits, and every other value prints as no digest does. -/
def expectedDigest (value : Option Json) : Option PyStr :=
  match value with
  | none => some ⟨[]⟩
  | some (.str t) => some t
  | some (.int n) => some (PyStr.ofString (toString n))
  | some _ => none

def digestMatches (env : ReplayEnv ν) (f : FileTree PyStr ν) (path : List PyStr)
    (expected : Option PyStr) : Bool :=
  match f.look path with
  | some (.file c) => expected == some (env.sha256 c)
  | some .dir => expected == some (env.treeDigest (f.subtree path))
  | none => false

/-! ## The two system calls -/

/-- `os.mkdir`, where the directory may exist already. -/
def mkdirOne (q : List PyStr) : Replay ν PUnit := do
  let f ← Effects.current
  if f.isDir q = true then pure ⟨⟩
  else if h : f.look q = none ∧ f.parented q then Effects.emit (fun _ => f.mkdir q h) ⟨⟩
  else Effects.raise ⟨.osError, [.lit "cannot create directory ", .path q]⟩

/-- The directories from one path down to another. -/
def mkdirsFrom (q : List PyStr) : List PyStr → Replay ν PUnit
  | [] => mkdirOne q
  | n :: rest => mkdirOne q >>= fun _ => mkdirsFrom (q ++ [n]) rest

/-- **`mkdir(parents=True, exist_ok=True)`**: every missing directory above
the path, from the top down, and the path itself. -/
def mkdirs (env : ReplayEnv ν) (p : List PyStr) : Replay ν PUnit :=
  match env.refusal p with
  | some e => Effects.raise e
  | none => mkdirsFrom [] p

/-- `os.rename`. -/
def osRename (env : ReplayEnv ν) (s d : List PyStr) : Replay ν PUnit := do
  let f ← Effects.current
  match env.refusal d with
  | some e => Effects.raise e
  | none =>
    if h : f.Renamable s d then Effects.emit (fun _ => f.rename s d h) ⟨⟩
    else Effects.raise ⟨.osError, [.lit "cannot rename ", .path s, .lit " -> ", .path d]⟩

/-- The system calls of one round. -/
def renameOnce (env : ReplayEnv ν) (s d : List PyStr) : Replay ν PUnit :=
  mkdirs env d.dropLast >>= fun _ => osRename env s d

/-- The rounds of `_rename_verified`. -/
def renameRounds (env : ReplayEnv ν) (s d : List PyStr) : Nat → Replay ν PUnit
  | 0 => Effects.raise ⟨.workspaceUnavailable,
      [.lit "cannot resolve transaction rename ", .path s, .lit " -> ", .path d]⟩
  | n + 1 => do
    Effects.suppress (fun e => e.cls.isOSError) (renameOnce env s d)
    let f ← Effects.current
    if f.present d = true ∧ f.present s = false then pure ⟨⟩ else renameRounds env s d n

/-- **`_rename_verified`**, with its seven attempts. -/
def renameVerified (env : ReplayEnv ν) (s d : List PyStr) : Replay ν PUnit :=
  renameRounds env s d 7

/-! ## The operations -/

/-- **One operation**, its members decoded. -/
inductive Operation where
  | makeDir (path : List PyStr)
  | putFile (path source : List PyStr) (expected : Option PyStr)
  | putTree (path source : List PyStr) (expected : Option PyStr)
  | remove (operationId : PyStr) (path : List PyStr) (missingOk : Bool)
  | replaceTree (operationId : PyStr) (path source : List PyStr) (expected : Option PyStr)
deriving DecidableEq

/-- What the loop reads of an operation before it looks at the tree. -/
def decodeOperation (raw : List (PyStr × Json)) : Except Exc Operation := do
  let id ← validateLabel (Json.get raw "id") "transaction operation id"
  let path ← relativePath (Json.get raw "path") "transaction operation path"
  let op := Json.get raw "op"
  let expected := expectedDigest (Json.get raw "sha256")
  if Json.optEqStr op "make-dir" then .ok (.makeDir path)
  else if Json.optEqStr op "put-file" then
    .ok (.putFile path (← relativePath (Json.get raw "source") "put-file source") expected)
  else if Json.optEqStr op "put-tree" then
    .ok (.putTree path (← relativePath (Json.get raw "source") "put-tree source") expected)
  else if Json.optEqStr op "remove" then
    .ok (.remove id path (((Json.get raw "missing_ok").map Json.truthy).getD false))
  else if Json.optEqStr op "replace-tree" then
    .ok (.replaceTree id path (← relativePath (Json.get raw "source") "replace-tree source") expected)
  else raiseFormat [.lit "unsupported transaction operation: ", .repr op]

namespace ReplayDirs

/-- `_under(data_dir, path)`. -/
def target (dirs : ReplayDirs) (path : List PyStr) : List PyStr := dirs.data ++ path

/-- `_under(transaction_dir, source)`. -/
def staged (dirs : ReplayDirs) (source : List PyStr) : List PyStr := dirs.transaction ++ source

/-- `transaction_dir / "trash" / operation_id / name`. -/
def trash (dirs : ReplayDirs) (operationId : PyStr) (name : String) : List PyStr :=
  dirs.transaction ++ [PyStr.ofString "trash", operationId, PyStr.ofString name]

end ReplayDirs

/-- Whether a put is already done: the destination carries the declared
digest and the staged source is gone. -/
def installed (env : ReplayEnv ν) (f : FileTree PyStr ν) (destination source : List PyStr)
    (expected : Option PyStr) : Bool :=
  f.present destination && digestMatches env f destination expected && !f.present source

/-- The first half of `replace-tree`: an old tree goes to the trash, once. -/
def moveAside (env : ReplayEnv ν) (dirs : ReplayDirs) (operationId : PyStr)
    (path : List PyStr) : Replay ν PUnit := do
  let f ← Effects.current
  if f.present (dirs.target path) = true
      ∧ f.present (dirs.trash operationId "old") = false then
    renameVerified env (dirs.target path) (dirs.trash operationId "old")
  else pure ⟨⟩

/-- **One operation of the loop.** -/
def applyOperation (env : ReplayEnv ν) (dirs : ReplayDirs) : Operation → Replay ν PUnit
  | .makeDir path => do
    mkdirs env (dirs.target path)
    let f ← Effects.current
    if f.isDir (dirs.target path) = true then pure ⟨⟩
    else refuse [.lit "make-dir destination is not a directory: ", .path path]
  | .putFile path source expected => do
    let f ← Effects.current
    if installed env f (dirs.target path) (dirs.staged source) expected = true then pure ⟨⟩
    else if f.isFile (dirs.staged source) = true
        ∧ digestMatches env f (dirs.staged source) expected = true then
      renameVerified env (dirs.staged source) (dirs.target path)
      let g ← Effects.current
      if digestMatches env g (dirs.target path) expected = true then pure ⟨⟩
      else refuse [.lit "put-file destination digest mismatch: ", .path path]
    else refuse [.lit "put-file source digest mismatch: ", .path path]
  | .putTree path source expected => do
    let f ← Effects.current
    if installed env f (dirs.target path) (dirs.staged source) expected = true then pure ⟨⟩
    else if f.present (dirs.target path) = true then
      refuse [.lit "put-tree destination already exists: ", .path path]
    else if f.isDir (dirs.staged source) = true
        ∧ digestMatches env f (dirs.staged source) expected = true then
      renameVerified env (dirs.staged source) (dirs.target path)
    else refuse [.lit "put-tree source digest mismatch: ", .path path]
  | .remove operationId path missingOk => do
    let f ← Effects.current
    if f.present (dirs.target path) = false
        ∧ f.present (dirs.trash operationId "removed") = true then pure ⟨⟩
    else if f.present (dirs.target path) = false ∧ missingOk = true then pure ⟨⟩
    else if f.present (dirs.target path) = false then
      refuse [.lit "remove target is missing: ", .path path]
    else renameVerified env (dirs.target path) (dirs.trash operationId "removed")
  | .replaceTree operationId path source expected => do
    let f ← Effects.current
    if installed env f (dirs.target path) (dirs.staged source) expected = true then pure ⟨⟩
    else
      moveAside env dirs operationId path
      let g ← Effects.current
      if g.isDir (dirs.staged source) = true
          ∧ digestMatches env g (dirs.staged source) expected = true then
        renameVerified env (dirs.staged source) (dirs.target path)
      else refuse [.lit "replace-tree source digest mismatch: ", .path path]

/-! ## The manifest -/

/-- **`read_json`**: a JSON object in a file. -/
def readJson (env : ReplayEnv ν) (f : FileTree PyStr ν) (path : List PyStr) :
    Except Exc (List (PyStr × Json)) :=
  match f.content path with
  | none => raiseFormat [.lit "cannot read JSON object ", .path path]
  | some c =>
    match env.loads c with
    | .error e => .error e
    | .ok (.obj members) => .ok members
    | .ok _ => raiseFormat [.lit "expected JSON object in ", .path path]

/-- The checks of every operation before the first one is applied: the
operations as objects, and the paths of all but the `make-dir` ones. -/
def checkOperations (seen : List PyStr) :
    List Json → Except Exc (List (List (PyStr × Json)) × List (List PyStr))
  | [] => .ok ([], [])
  | .obj raw :: rest => do
    let id ← validateLabel (Json.get raw "id") "transaction operation id"
    if id ∈ seen then
      raiseFormat [.lit "duplicate transaction operation id: ", .raw id]
    else if Json.optEqStr (Json.get raw "op") "make-dir" then
      let (raws, paths) ← checkOperations (id :: seen) rest
      .ok (raw :: raws, paths)
    else
      let path ← relativePath (Json.get raw "path") "transaction operation path"
      let (raws, paths) ← checkOperations (id :: seen) rest
      .ok (raw :: raws, path :: paths)
  | _ :: _ => raiseFormat [.lit "transaction operation must be an object"]

/-- Two paths one of which is the other or lies below it. -/
def Overlap (left right : List PyStr) : Prop := left <+: right ∨ right <+: left

instance (left right : List PyStr) : Decidable (Overlap left right) :=
  inferInstanceAs (Decidable (_ ∨ _))

/-- The first pair of paths that overlap, in the order of the two loops. -/
def firstOverlap : List (List PyStr) → Option (List PyStr × List PyStr)
  | [] => none
  | left :: rest =>
    match rest.find? (fun right => Overlap left right) with
    | some right => some (left, right)
    | none => firstOverlap rest

/-- **The validation before the first effect.** -/
def checkManifest (manifest : List (PyStr × Json)) (expectedGeneration : Int) :
    Except Exc (List (List (PyStr × Json))) :=
  if ¬(Json.optEqStr (Json.get manifest "format") "httk-workflow-transaction" = true
      ∧ Json.optEqInt (Json.get manifest "format_version") 2 = true) then
    raiseFormat [.lit "transaction must use httk-workflow-transaction version 2"]
  else if Json.optEqInt (Json.get manifest "expected_data_generation") expectedGeneration = false then
    raiseTransaction [.lit "transaction expected_data_generation is stale"]
  else
    match Json.get manifest "operations" with
    | some (.arr operations) =>
      match checkOperations [] operations with
      | .error e => .error e
      | .ok (raws, paths) =>
        match firstOverlap paths with
        | some (left, right) => raiseFormat
            [.lit "transaction paths overlap: ", .path left, .lit " and ", .path right]
        | none => .ok raws
    | _ => raiseFormat [.lit "transaction operations must be an array"]

/-- The manifest of a transaction directory. -/
def ReplayDirs.manifest (dirs : ReplayDirs) : List PyStr :=
  dirs.transaction ++ [PyStr.ofString "manifest.json"]

/-- **The operations of a published transaction**, when its manifest passes
the validation. -/
def publishedOperations (env : ReplayEnv ν) (dirs : ReplayDirs) (expectedGeneration : Int)
    (f : FileTree PyStr ν) : Except Exc (List (List (PyStr × Json))) :=
  match readJson env f dirs.manifest with
  | .error e => .error e
  | .ok manifest => checkManifest manifest expectedGeneration

/-- One round of the loop over the operations. -/
def replayOne (env : ReplayEnv ν) (dirs : ReplayDirs) (raw : List (PyStr × Json)) :
    Replay ν PUnit :=
  Effects.ofExcept (decodeOperation raw) >>= applyOperation env dirs

/-- **`replay_transaction`**: whether the manifest contains operations. -/
def replayTransaction (env : ReplayEnv ν) (dirs : ReplayDirs) (expectedGeneration : Int) :
    Replay ν Bool := do
  let f ← Effects.current
  let raws ← Effects.ofExcept (publishedOperations env dirs expectedGeneration f)
  mkdirs env dirs.data
  Effects.execAll (replayOne env dirs) raws
  pure !raws.isEmpty
