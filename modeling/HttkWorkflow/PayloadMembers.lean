import HttkWorkflow.RecordRoundTrip
import HttkWorkflow.TreeWrites

/-!
# The members of a payload

`_build_payload` fills an empty directory from four sources: the files a user
names, the documents and files a workflow prepares, the values of the inputs
the workflow declares, and, for an executable hook, the values of the inputs
that are the hook's. Each goes to the place `payload_relative` gives its name.

Two of these sources are compared before anything is written: no prepared
member has the place of another, or of a user file. The hook's inputs are
written where nothing is. User files are not compared among themselves, and
declared inputs with nothing.

What lies outside is given: what is at a path (`stat`), what a registered
writer writes for a value (`save`), what the workflow's own hook does. The
checks of the environment and the parameters raise or pass and write nothing.
-/

/-! ## Places in a payload -/

def filesDirectory : PosixPath := PosixPath.ofText (PyStr.ofString "files")

/-- The names that are not the first one of a place. -/
def reservedMembers : List PyStr :=
  [PyStr.ofString "job.json", PyStr.ofString "attempts", PyStr.ofString "logs", PyStr.ofString ".httk-job"]

/-- The first part that a place may not have. -/
def refusedPart (parts : List PyStr) : Option PyStr :=
  (parts.zipIdx.find? fun part => part.fst ∈ [⟨[]⟩, PyStr.ofString ".", PyStr.ofString ".."]
    ∨ part.snd = 0 ∧ part.fst ∈ reservedMembers).map Prod.fst

def payloadRelative (name : PyStr) : Except Exc PosixPath :=
  let text : PyStr := ⟨stripEnds isSpace name.codes⟩
  if text.codes = [] then .error ⟨.valueError, [.lit "a staged payload file needs a name"]⟩
  else if (PosixPath.ofText text).root ≠ .relative then
    .error ⟨.valueError, [.lit "a staged payload file name must be relative: ", .repr (some (.str name))]⟩
  else
    let relative :=
      if (PosixPath.ofText text).parts.length = 1 then filesDirectory.append (PosixPath.ofText text)
      else PosixPath.ofText text
    match refusedPart relative.parts with
    | some part => raiseFormat [.lit "a staged payload file name may not contain ", .repr (some (.str part)), .lit ": ",
        .repr (some (.str name))]
    | none => .ok relative

/-! ## What is staged, and from where -/

/-- What is at a path outside the payload: a file is read as it is copied. -/
inductive SourceKind (β : Type) where
  | missing
  | directory
  | other
  | file (content : Except Exc β)

/-- A document that a workflow prepares. -/
inductive Document (β : Type) where
  | text (text : PyStr)
  | bytes (content : β)

/-- The value of an input: a string, an `os.PathLike`, or an object `ω`. -/
inductive InputValue (ω : Type) where
  | text (text : PyStr)
  | pathLike (text : PyStr)
  | object (value : ω)

/-- `isinstance(value, (str, os.PathLike))`. -/
def InputValue.asPath {ω : Type} : InputValue ω → Option PyStr
  | .text source => some source
  | .pathLike source => some source
  | .object _ => none

/-- **What lies outside the payload.** -/
structure PayloadWorld (ω β : Type) where
  /-- `Path(source).expanduser()`. -/
  expanduser : PyStr → PosixPath
  stat : PosixPath → SourceKind β
  /-- `text.encode("utf-8")`. -/
  encode : PyStr → Except Exc β
  /-- Whether the file system takes a path at all. -/
  takes : List PyStr → Bool
  hasWriterFor : PyStr → Bool
  /-- What `httk.core.save` writes at a path, or why it fails, as it does at a path that is not taken. -/
  save : InputValue ω → PosixPath → Except Exc β
  /-- `sorted(known_writers())`. -/
  writers : List PyStr
  /-- `_is_json_native`, of an object. -/
  isJsonNative : ω → Bool

/-- A payload while it is built. -/
abbrev Payload (β : Type) := FileTree PyStr β

/-- **The hook of a workflow**: what it makes of a payload. -/
inductive InstantiateHook (β : Type) where
  | absent
  | python (run : Payload β → Except Exc (Payload β))
  | executable (run : Payload β → Except Exc (Payload β))

/-- **What `_build_payload` is given.** -/
structure BuildRequest (ω β : Type) where
  documents : List (PyStr × Document β)
  files : List (PyStr × PyStr)
  userFiles : List (PyStr × PyStr)
  inputs : List (PyStr × InputValue ω)
  /-- `workflow.inputs`: where an input goes, or that it is the hook's. -/
  declared : Dict PyStr (Option PyStr)
  /-- What is added to the refusal of an input no port is declared for. -/
  hint : Message
  hook : InstantiateHook β
  /-- The checks of the environment and the parameters. -/
  settings : Except Exc Unit
  /-- The check of the required inputs, and `job.json`. -/
  definition : Payload β → Except Exc β

section Build

variable {ω β : Type} (world : PayloadWorld ω β)

/-! ## Writing one member -/

/-- `destination.parent.mkdir(parents=True, exist_ok=True)`. -/
def makeParents (payload : Payload β) (path : PosixPath) : Except Exc (Payload β) :=
  if h : payload.makeable path.parts.dropLast ∧ world.takes path.parts.dropLast = true then
    .ok (payload.makedirs path.parts.dropLast h.1)
  else .error ⟨.osError, [.path path.parts.dropLast]⟩

/-- The write of a file whose directory is there. -/
def writeMember (payload : Payload β) (path : PosixPath) (content : β) : Except Exc (Payload β) :=
  if h : payload.Writable path.parts ∧ world.takes path.parts = true then .ok (payload.write path.parts content h.1)
  else .error ⟨.osError, [.path path.parts]⟩

/-- What is copied from a path: nothing but a regular file. -/
def stagedSource (name source : PyStr) : Except Exc (Except Exc β) :=
  match world.stat (world.expanduser source) with
  | .directory => .error ⟨.valueError, [.lit "a staged payload file must be a regular file, not a directory: ",
      .raw (world.expanduser source).asPosix]⟩
  | .file content => .ok content
  | _ => .error ⟨.valueError, [.lit "the file staged as ", .repr (some (.str name)), .lit " does not exist: ",
      .raw (world.expanduser source).asPosix]⟩

/-- `_stage_files`, of one file. -/
def stageFile (payload : Payload β) (file : PyStr × PyStr) : Except Exc (Payload β) := do
  let copied ← stagedSource world file.fst file.snd
  let destination ← payloadRelative file.fst
  let payload ← makeParents world payload destination
  writeMember world payload destination (← copied)

def stageFiles (payload : Payload β) (files : List (PyStr × PyStr)) : Except Exc (Payload β) :=
  files.foldlM (stageFile world) payload

def Document.content : Document β → Except Exc β
  | .text codes => world.encode codes
  | .bytes content => .ok content

/-- The round of the loop over `prepared.documents`. -/
def stageDocument (payload : Payload β) (document : PyStr × Document β) : Except Exc (Payload β) := do
  let destination ← payloadRelative document.fst
  let payload ← makeParents world payload destination
  writeMember world payload destination (← document.snd.content world)

/-! ## Inputs -/

/-- `", ".join(declared) or "none"`. -/
def declaredNames (declared : Dict PyStr (Option PyStr)) : PyStr :=
  if declared = [] then PyStr.ofString "none" else PyStr.join (PyStr.ofString ", ") (declared.map Prod.fst)

/-- `_stage_inputs`, of one input: a place is normalised, and a file copied there normalises it again. -/
def stageInput (request : BuildRequest ω β) (payload : Payload β) (input : PyStr × InputValue ω) :
    Except Exc (Payload β) :=
  match request.declared.get input.fst with
  | none => .error ⟨.valueError, [.lit "unknown workflow input ", .repr (some (.str input.fst)),
      .lit "; declared inputs: ", .raw (declaredNames request.declared)] ++ request.hint⟩
  | some none =>
    if request.hook matches .absent then
      .error ⟨.valueError, [.lit "workflow input ", .repr (some (.str input.fst)),
        .lit " requires an instantiate hook"]⟩
    else .ok payload
  | some (some destinationName) => do
    let destination ← payloadRelative destinationName
    match input.snd.asPath with
    | some source => stageFiles world payload [(destination.asPosix, source)]
    | none =>
      if world.hasWriterFor destination.name = false then
        .error ⟨.valueError, [.lit "no writer is registered for ", .repr (some (.str destination.name)),
          .lit "; a writer must be registered (installing httk-atomistic provides the POSCAR/CIF writers)"]⟩
      else
        let payload ← makeParents world payload destination
        let content ← world.save input.snd destination
        writeMember world payload destination content

def stageInputs (request : BuildRequest ω β) (payload : Payload β) : Except Exc (Payload β) :=
  request.inputs.foldlM (stageInput world request) payload

def hookInputName (input file : PyStr) : PyStr :=
  PyStr.ofString "files/inputs/" ++ input ++ PyStr.ofString "/" ++ file

/-- The name a writer is asked by. -/
def dispatchName (input key : PyStr) : PyStr :=
  if key.codes.head? = some '.'.toNat then input ++ key else key

/-- `generated member … collides with an existing payload member`. -/
def generatedCollides (relative : PosixPath) : Exc :=
  ⟨.valueError, [.lit "generated member ", .repr (some (.str relative.asPosix)),
    .lit " collides with an existing payload member"]⟩

/-- **`_save_executable_input`**: the first writer that succeeds. -/
def saveExecutableInput (input : PyStr) (value : InputValue ω) : List PyStr → Payload β → Except Exc (Payload β)
  | [], _ => .error ⟨.valueError, [.lit "workflow input ", .repr (some (.str input)),
      .lit " value cannot be serialized for an executable hook"]⟩
  | key :: keys, payload => do
    let relative ← payloadRelative (hookInputName input (dispatchName input key))
    if payload.present relative.parts = true then .error (generatedCollides relative)
    else
      let payload ← makeParents world payload relative
      match world.save value relative with
      | .ok content => writeMember world payload relative content
      | .error _ => saveExecutableInput input value keys payload

/-- `_missing_file_input_message`. -/
def missingFileInput (input text : PyStr) : Except Exc Unit :=
  if text.codes = [] then .ok ()
  else
    match world.stat (world.expanduser text) with
    | .file _ => .ok ()
    | .directory => .error ⟨.valueError, [.lit "workflow input ", .repr (some (.str input)),
        .lit " is a directory, not a file: ", .raw (world.expanduser text).asPosix, .lit "; supply a regular file"]⟩
    | kind =>
      if text.contains '/' = false ∧ (kind matches .missing) then .ok ()
      else .error ⟨.valueError, [.lit "workflow input ", .repr (some (.str input)),
        .lit " looks like a file path but nothing exists at ", .raw (world.expanduser text).asPosix,
        .lit "; supply an existing file, or a literal value without path separators"]⟩

/-- The file an input names, where there is one: its name and what is copied. -/
def InputValue.sourceFile (value : InputValue ω) : Option (PyStr × Except Exc β) :=
  value.asPath.bind fun source =>
    match world.stat (world.expanduser source) with
    | .file content => some ((world.expanduser source).name, content)
    | _ => none

/-- `_is_json_native`: a string is, a path is not. -/
def InputValue.isNative : InputValue ω → Bool
  | .text _ => true
  | .pathLike _ => false
  | .object value => world.isJsonNative value

/-- `_serialize_executable_inputs`, of one input: those with a place of their own are staged already. -/
def serializeInput (declared : Dict PyStr (Option PyStr)) (payload : Payload β) (input : PyStr × InputValue ω) :
    Except Exc (Payload β) :=
  if declared.get input.fst ≠ some none then .ok payload
  else
    match input.snd.sourceFile world with
    | some (fileName, copied) => do
      let relative ← payloadRelative (hookInputName input.fst fileName)
      if payload.present relative.parts = true then .error (generatedCollides relative)
      else
        let payload ← makeParents world payload relative
        writeMember world payload relative (← copied)
    | none => do
      (input.snd.asPath.toList).forM (missingFileInput world input.fst)
      if input.snd.isNative world = true then .ok payload
      else saveExecutableInput world input.fst input.snd world.writers payload

/-- **The instantiation of a payload.** -/
def instantiatePayload (request : BuildRequest ω β) (payload : Payload β) : Except Exc (Payload β) :=
  match request.hook with
  | .absent => .ok payload
  | .python run => run payload
  | .executable run => do
    let payload ← request.inputs.foldlM (serializeInput world request.declared) payload
    run payload

/-! ## Building -/

def preparedMember (members : Dict PyStr PyStr) (member : PyStr) : Except Exc (Dict PyStr PyStr) := do
  let relative ← payloadRelative member
  match members.get relative.asPosix with
  | some other => .error ⟨.valueError, [.lit "prepared member ", .repr (some (.str member)), .lit " collides with ",
      .repr (some (.str other))]⟩
  | none => .ok (members.set relative.asPosix member)

/-- A round of the comparison of user files with them. -/
def userMember (members : Dict PyStr PyStr) (member : PyStr) : Except Exc Unit := do
  let relative ← payloadRelative member
  match members.get relative.asPosix with
  | some other => .error ⟨.valueError, [.lit "prepared member ", .repr (some (.str other)),
      .lit " collides with user file ", .repr (some (.str member))]⟩
  | none => .ok ()

/-- `job.json`. -/
def jobJsonPath : PosixPath := PosixPath.ofText (PyStr.ofString "job.json")

def prepareJobPayload (request : BuildRequest ω β) (payload : Payload β) : Except Exc (Payload β) :=
  if payload.present jobJsonPath.parts = true then
    .error ⟨.osError, [.lit "job definition already exists: ", .path jobJsonPath.parts]⟩
  else do
    let content ← request.definition payload
    writeMember world payload jobJsonPath content

def emptyPayload : Payload β := FileTree.ofEntries [([], .dir)] (by simp)

def buildPayload (request : BuildRequest ω β) : Except Exc (Payload β) := do
  let members ← (request.documents.map Prod.fst ++ request.files.map Prod.fst).foldlM preparedMember []
  (request.userFiles.map Prod.fst).forM (userMember members)
  let payload ← stageFiles world emptyPayload request.userFiles
  let payload ← request.documents.foldlM (stageDocument world) payload
  let payload ← stageFiles world payload request.files
  let payload ← stageInputs world request payload
  request.settings
  let payload ← instantiatePayload world request payload
  prepareJobPayload world request payload

end Build
