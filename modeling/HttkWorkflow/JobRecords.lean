import HttkWorkflow.JobCursors
import HttkWorkflow.MarkerNames
import HttkWorkflow.Timeline

/-!
# The records of a collection

`record_of` reads one stopped job: its definition, its state, the frames of
its journal and the declarations it has written. `JobRecord` is what it makes
of them, `as_mapping` the JSON object that is stored of it, and
`from_mapping` reads that back.

What the journal has is taken as it comes: a frame that is not as it should
be is read as far as it goes, a failure object nobody can use is wrapped into
one that says so, and a child is reported under whatever label a frame gives
it. `from_mapping` takes nothing as it comes.

A value of `Json` is one that `json.loads` returns, and it is what comes back
of its own encoding. How deep an interpreter lets values be nested is not
part of this.
-/

/-! ## Paths -/

/-- What a path begins with. Two slashes, and no more, are a root of their own. -/
inductive PathRoot where
  | relative
  | slash
  | doubleSlash
deriving DecidableEq

def PathRoot.codes : PathRoot → List ℕ
  | relative => []
  | slash => ['/'.toNat]
  | doubleSlash => ['/'.toNat, '/'.toNat]

/-- A name of a path: `PurePosixPath` drops empty ones and `.`. -/
def PlainPart (part : PyStr) : Prop := part.codes ≠ [] ∧ part ≠ "." ∧ '/'.toNat ∉ part.codes

/-- **`PurePosixPath`**. -/
structure PosixPath where
  root : PathRoot
  parts : List PyStr
  plain : ∀ part ∈ parts, PlainPart part

namespace PosixPath

/-- The root of a text, by the slashes it begins with. -/
def rootOf (codes : List ℕ) : PathRoot :=
  match (codes.takeWhile (· = '/'.toNat)).length with
  | 0 => .relative
  | 2 => .doubleSlash
  | _ => .slash

def partsOf (text : PyStr) : List PyStr :=
  (text.split '/').filter fun part => part.codes ≠ [] ∧ part ≠ "."

/-- **`PurePosixPath(text)`**. -/
def ofText (text : PyStr) : PosixPath where
  root := rootOf text.codes
  parts := partsOf text
  plain part hpart := by
    obtain ⟨hsplit, hkept⟩ := List.mem_filter.mp hpart
    obtain ⟨codes, hcodes, rfl⟩ := List.mem_map.mp hsplit
    obtain ⟨hne, hdot⟩ := of_decide_eq_true hkept
    exact ⟨hne, hdot, separator_not_mem hcodes⟩

/-- **`as_posix`**, of a path without root and names a single dot. -/
def asPosix (p : PosixPath) : PyStr :=
  if p.root = .relative ∧ p.parts = [] then "."
  else ⟨p.root.codes ++ (PyStr.join ⟨['/'.toNat]⟩ p.parts).codes⟩

/-- **`p / q`**. -/
def append (p q : PosixPath) : PosixPath :=
  if q.root = .relative then
    ⟨p.root, p.parts ++ q.parts, fun part hpart => (List.mem_append.mp hpart).elim (p.plain part) (q.plain part)⟩
  else q

def parent (p : PosixPath) : PosixPath :=
  ⟨p.root, p.parts.dropLast, fun part hpart => p.plain part (List.mem_of_mem_dropLast hpart)⟩

def name (p : PosixPath) : PyStr := p.parts.getLastD ⟨[]⟩

end PosixPath

def optionalPosix (value : Option Json) : Option PosixPath := (optionalString value).map PosixPath.ofText

/-! ## Declarations -/

/-- A letter, a digit or an underscore. -/
def isDeclarationHead (c : ℕ) : Bool :=
  (0x41 ≤ c && c ≤ 0x5A) || (0x61 ≤ c && c ≤ 0x7A) || (0x30 ≤ c && c ≤ 0x39) || c == 0x5F

/-- Whether two dots stand next to each other. -/
def hasDoubleDot : List ℕ → Bool
  | a :: b :: rest => (a == 0x2E && b == 0x2E) || hasDoubleDot (b :: rest)
  | _ => false

/-- `_DECLARATION_NAME_PATTERN`, without `..`. -/
def isDeclarationName (text : PyStr) : Bool :=
  match text.codes with
  | [] => false
  | c :: rest => isDeclarationHead c && rest.all (fun d => isDeclarationHead d || d == 0x2E || d == 0x2D)
    && rest.length ≤ 63 && !hasDoubleDot text.codes

def validateDeclarationName (value : Option Json) (name : String) : Except Exc PyStr := do
  let text ← requireString value name
  if isDeclarationName text then .ok text
  else raiseFormat [.lit name, .lit " has invalid component syntax"]

/-- **A declaration**, by both of its sources. -/
structure DeclarationSides where
  declared : Option (List (PyStr × Json))
  observed : Option (List (PyStr × Json))

/-! ## The definition of a job -/

/-- **A validated `job.json`**, as far as a record reports it. -/
structure StoredJob where
  id : PyStr
  tag : Option PyStr
  name : PyStr
  workflow : PyStr
  runnerExecutor : PyStr
  runnerSource : PyStr
  runnerPath : PosixPath
  runnerSha256 : Option PyStr
  runnerArguments : List PyStr
  workdirMode : PyStr
  workdirPath : PosixPath
  dataMode : PyStr
  initialStep : PyStr
  priority : Int
  claimPool : PyStr
  requiredCapabilities : List PyStr
  retryPolicy : RetryPolicy
  resources : List (PyStr × Json)
  parameters : List (PyStr × Json)
  environment : List (PyStr × Json)
  declarations : List (PyStr × List (PyStr × Json))
  parent : Option (List (PyStr × Json))
  digest : PyStr
  /-- `validate_declarations` passed. -/
  declarations_named : ∀ e ∈ declarations, isDeclarationName e.fst = true

/-- `sorted`, of strings. -/
def sortedStrings (texts : List PyStr) : List PyStr := texts.mergeSort fun a b => decide (a ≤ b)

def stringArray (texts : List PyStr) : Json := .arr (texts.map Json.str)

def jobMapping (job : StoredJob) : List (PyStr × Json) :=
  let tagged : PyStr := match job.tag with
    | some tag => if tag.codes = [] then job.id else tag ++ "--" ++ job.id
    | none => job.id
  let members : List (PyStr × Json) :=
    [("id", .str job.id), ("tag", orNull job.tag), ("job_key", .str tagged), ("name", .str job.name),
      ("workflow", .str job.workflow), ("digest", .str job.digest), ("initial_step", .str job.initialStep),
      ("priority", .int job.priority),
      ("runner", .obj [("executor", .str job.runnerExecutor), ("source", .str job.runnerSource),
        ("path", .str job.runnerPath.asPosix), ("sha256", orNull job.runnerSha256),
        ("arguments", stringArray job.runnerArguments)]),
      ("workdir", .obj [("mode", .str job.workdirMode), ("path", .str job.workdirPath.asPosix)]),
      ("data", .obj [("mode", .str job.dataMode)]),
      ("claim", .obj [("pool", .str job.claimPool),
        ("required_capabilities", stringArray (sortedStrings job.requiredCapabilities))]),
      ("retry_policy", .obj
        [("maximum_attempts_per_activation", intOrNull job.retryPolicy.maximumAttemptsPerActivation),
          ("maximum_total_attempts", intOrNull job.retryPolicy.maximumTotalAttempts),
          ("maximum_activations", intOrNull job.retryPolicy.maximumActivations),
          ("retry_on", stringArray (sortedStrings job.retryPolicy.retryOn))]),
      ("resources", .obj job.resources), ("parameters", .obj job.parameters), ("parent", objOrNull job.parent)]
  if job.environment.isEmpty then members else members.concat ("environment", .obj job.environment)

/-! ## Children -/

/-- **A child** that a frame names under a label. -/
structure NamedChild where
  label : PyStr
  jobId : Option PyStr
  jobKey : Option PyStr
  kind : Option PyStr

/-- What is reported of a child. -/
structure ChildEntry where
  jobId : Option PyStr
  jobKey : Option PyStr
  kind : Option PyStr

def ChildEntry.asMapping (entry : ChildEntry) : List (PyStr × Json) :=
  [("job_id", orNull entry.jobId), ("job_key", orNull entry.jobKey), ("kind", orNull entry.kind)]

def jobIdOf (jobKey : PyStr) : Option PyStr := (parseJobKey jobKey).toOption.map Prod.snd

/-- **`_observed_children`**: the references of an array that have a label. -/
def observedChildren (value : Option Json) : List NamedChild :=
  match value with
  | some (.arr references) => references.filterMap fun
    | .obj raw => (optionalString (Json.get raw "label")).map fun label =>
        ⟨label, optionalString (Json.get raw "job_id"), optionalString (Json.get raw "job_key"),
          optionalString (Json.get raw "kind")⟩
    | _ => none
  | _ => []

/-- **`_frame_children`**: every labeled child one state frame names. -/
def frameChildren (frame : List (PyStr × Json)) : List NamedChild :=
  let spawned := match Json.get frame "child_labels" with
    | some (.obj labels) => labels.filterMap fun e => (optionalString (some e.snd)).map fun label =>
        ⟨label, jobIdOf e.fst, some e.fst, none⟩
    | _ => []
  let joined := match Json.get frame "join" with
    | some (.obj join) => observedChildren (Json.get join "children")
    | _ => []
  spawned ++ joined ++ observedChildren (Json.get frame "join_summary")

/-- A child is noted under its label. The same child is only given a newer kind. -/
def noteChild (children : Dict PyStr ChildEntry) (child : NamedChild) : Dict PyStr ChildEntry :=
  match children.get child.label with
  | some existing =>
    if existing.jobId = child.jobId then
      if child.kind = none then children else children.set child.label { existing with kind := child.kind }
    else children.set child.label ⟨child.jobId, child.jobKey, child.kind⟩
  | none => children.set child.label ⟨child.jobId, child.jobKey, child.kind⟩

def namedChildren (frames : List (List (PyStr × Json))) : List NamedChild :=
  (frames.filter fun frame => !frameUnreadable frame).flatMap frameChildren

/-- **`children_of`**. -/
def labeledChildren (frames : List (List (PyStr × Json))) : Dict PyStr ChildEntry :=
  (namedChildren frames).foldl noteChild []

/-! ## Records -/

/-- **A record of a stopped job.** -/
structure JobRecord where
  workspaceRoot : PosixPath
  workspaceId : PyStr
  jobId : PyStr
  jobKey : PyStr
  job : List (PyStr × Json)
  runnerProvenance : Option (List (PyStr × Json))
  state : PyStr
  failure : Option Failure
  placement : List PyStr
  payloadPath : PosixPath
  workdirPath : Option PosixPath
  dataPath : Option PosixPath
  dataGeneration : Option Int
  provenance : List (PyStr × Json)
  runnerSteps : Option (List PyStr)
  children : List (PyStr × List (PyStr × Json))
  declarations : List (PyStr × DeclarationSides)
  runnerDescription : Option (List (PyStr × Json))

def collectFormat : String := "httk-workflow-collect"

def collectFormatVersion : Int := 2

namespace JobRecord

def asMapping (record : JobRecord) : List (PyStr × Json) :=
  [("format", .str collectFormat), ("format_version", .int collectFormatVersion),
    ("workspace", .str record.workspaceRoot.asPosix), ("workspace_id", .str record.workspaceId),
    ("job_id", .str record.jobId), ("job_key", .str record.jobKey), ("job", .obj record.job),
    ("runner_provenance", objOrNull record.runnerProvenance), ("state", .str record.state),
    ("failure", (record.failure.map Failure.asMapping).getD .null),
    ("placement", .str (PyStr.join "/" record.placement)), ("payload_path", .str record.payloadPath.asPosix),
    ("workdir_path", orNull (record.workdirPath.map PosixPath.asPosix)),
    ("data_path", orNull (record.dataPath.map PosixPath.asPosix)),
    ("data_generation", intOrNull record.dataGeneration), ("provenance", .obj record.provenance),
    ("runner_steps", (record.runnerSteps.map stringArray).getD .null),
    ("runner_description", objOrNull record.runnerDescription),
    ("children", .obj (record.children.map fun e => (e.fst, .obj e.snd))),
    ("declarations", .obj (record.declarations.map fun e =>
      (e.fst, .obj [("declared", objOrNull e.snd.declared), ("observed", objOrNull e.snd.observed)])))]

end JobRecord

/-- An object, or nothing. -/
def optionalMapping (value : Option Json) : Option (List (PyStr × Json)) :=
  match value with
  | some (.obj members) => some members
  | _ => none

/-- An object that may be absent or `None`. -/
def mappingOrNone (value : Option Json) (name : Message) : Except Exc (Option (List (PyStr × Json))) :=
  match value with
  | none | some .null => .ok none
  | some (.obj members) => .ok (some members)
  | _ => raiseFormat (name ++ [.lit " must be an object"])

def recordFailure (value : Option Json) : Except Exc (Option Failure) :=
  match value with
  | some (.obj members) => (validateFailure (some (.obj members)) "failure").map some
  | _ => .ok none

/-- **`_steps`**. -/
def recordSteps (value : Option Json) : Except Exc (Option (List PyStr)) :=
  match value with
  | none | some .null => .ok none
  | some (.arr items) => (items.mapM fun item => requireString (some item) "runner_steps item").map some
  | _ => raiseFormat [.lit "runner_steps must be an array"]

def recordDeclaration (e : PyStr × Json) : Except Exc (PyStr × DeclarationSides) := do
  let declaration ← validateDeclarationName (some (.str e.fst)) "declaration name"
  match e.snd with
  | .obj item =>
    let declared ← mappingOrNone (Json.get item "declared") [.lit "declarations.", .raw e.fst, .lit ".declared"]
    let observed ← mappingOrNone (Json.get item "observed") [.lit "declarations.", .raw e.fst, .lit ".observed"]
    .ok (declaration, ⟨declared, observed⟩)
  | _ => raiseFormat [.lit "declarations.", .raw declaration, .lit " must be an object"]

/-- **`_declarations`**. -/
def recordDeclarations (value : Option Json) : Except Exc (List (PyStr × DeclarationSides)) := do
  let mapping ← mappingOrNone value [.lit "declarations"]
  (mapping.getD []).mapM recordDeclaration

def recordChild (e : PyStr × Json) : Except Exc (PyStr × List (PyStr × Json)) := do
  let label ← validateLabel (some (.str e.fst)) "child label"
  let child ← requireMapping (some e.snd) "child"
  .ok (label, child)

/-- **`_children`**. -/
def recordChildren (value : Option Json) : Except Exc (List (PyStr × List (PyStr × Json))) := do
  let mapping ← mappingOrNone value [.lit "children"]
  (mapping.getD []).mapM recordChild

/-- **`from_mapping`**, where `uuid` is `str(uuid.UUID(text))`. -/
def JobRecord.fromMapping (uuid : PyStr → Option PyStr) (value : List (PyStr × Json)) : Except Exc JobRecord := do
  if Json.optEqStr (Json.get value "format") collectFormat = false
      ∨ Json.optEqInt (Json.get value "format_version") collectFormatVersion = false then
    raiseFormat [.lit "collect record must use ", .lit collectFormat, .lit " version ", .num collectFormatVersion]
  else
  let root ← requireString (Json.get value "workspace") "workspace"
  let workspaceId ← requireString (Json.get value "workspace_id") "workspace_id"
  let jobId ← canonicalUuid uuid (Json.get value "job_id") "job_id"
  let jobKey ← requireString (Json.get value "job_key") "job_key"
  let job ← requireMapping (Json.get value "job") "job"
  let state ← requireString (Json.get value "state") "state"
  let failure ← recordFailure (Json.get value "failure")
  let placementText ← requireString (Json.get value "placement") "placement"
  let placement ← normalizePlacement placementText
  let payloadPath ← requireString (Json.get value "payload_path") "payload_path"
  let dataGeneration ← optionalInt (Json.get value "data_generation")
  let provenance ← mappingOrNone (Json.get value "provenance") [.lit "provenance"]
  let runnerSteps ← recordSteps (Json.get value "runner_steps")
  let children ← recordChildren (Json.get value "children")
  let declarations ← recordDeclarations (Json.get value "declarations")
  .ok { workspaceRoot := .ofText root, workspaceId, jobId, jobKey, job,
        runnerProvenance := optionalMapping (Json.get value "runner_provenance"), state, failure, placement,
        payloadPath := .ofText payloadPath, workdirPath := optionalPosix (Json.get value "workdir_path"),
        dataPath := optionalPosix (Json.get value "data_path"), dataGeneration, provenance := provenance.getD [],
        runnerSteps, children, declarations,
        runnerDescription := optionalMapping (Json.get value "runner_description") }

/-! ## What a record is made of -/

/-- **A workspace to collect from.** -/
structure CollectEnv where
  root : PosixPath
  workspaceId : PyStr
  /-- `str(uuid.UUID(text))`, where that parses. -/
  uuid : PyStr → Option PyStr
  render : Message → PyStr
  named : workspaceId.codes ≠ []
  uuid_canonical : ∀ text, isUuidText text = true → uuid text = some text

/-- **The runner of a package**, and the distribution that installs it. -/
structure InstalledRunner where
  module : PyStr
  resource : PyStr
  distribution : Option (PyStr × PyStr)

/-- `runner_provenance`, of a package runner. -/
def InstalledRunner.asMapping (runner : InstalledRunner) : List (PyStr × Json) :=
  [("module", .str runner.module), ("resource", .str runner.resource),
    ("distribution", orNull (runner.distribution.map Prod.fst)),
    ("version", orNull (runner.distribution.map Prod.snd))]

/-- **What is read of a stopped job.** -/
structure JobReading where
  marker : StateMarker
  /-- `load_job`. -/
  job : Except Exc StoredJob
  /-- `read_state`. -/
  state : Except Exc (List (PyStr × Json))
  /-- `job_frames`. -/
  frames : List (List (PyStr × Json))
  installed : Option InstalledRunner
  /-- The files of its declarations, each with what `read_json` has of it. -/
  observed : Except Exc (List (PyStr × Except Exc (List (PyStr × Json))))
  /-- `Marker.from_path` made it, of a path. -/
  valid : marker.Valid
  slashless : ∀ part ∈ marker.placement, '/'.toNat ∉ part.codes

/-- `except (WorkflowError, OSError)`. -/
def readingFailed (e : Exc) : Bool := e.cls.isWorkflowError || e.cls.isOSError

/-- A reading that gives nothing where it fails as a reading does. -/
def readOrNone {β : Type} (reading : Except Exc β) : Except Exc (Option β) :=
  match reading with
  | .ok value => .ok (some value)
  | .error e => if readingFailed e then .ok none else .error e

/-- `name.removesuffix(".json")`. -/
def declarationStem (name : PyStr) : PyStr :=
  if (PyStr.ofString ".json").codes <:+ name.codes then ⟨name.codes.take (name.codes.length - 5)⟩ else name

def noteObserved (found : Dict PyStr DeclarationSides × Bool) (file : PyStr × Except Exc (List (PyStr × Json))) :
    Except Exc (Dict PyStr DeclarationSides × Bool) :=
  match validateDeclarationName (some (.str (declarationStem file.fst))) "declaration name" with
  | .error _ => .ok (found.fst, true)
  | .ok name =>
    let entry := (found.fst.get name).getD ⟨none, none⟩
    match file.snd with
    | .ok document => .ok (found.fst.set name { entry with observed := some document }, found.snd)
    | .error e => if e.cls = .formatError then .ok (found.fst.set name entry, true) else .error e

/-- **`declarations_of`**: both sides of every declaration, and whether one is damaged. -/
def declarationsOf (job : StoredJob) (observed : Except Exc (List (PyStr × Except Exc (List (PyStr × Json))))) :
    Except Exc (Dict PyStr DeclarationSides × Bool) :=
  let declared := (job.declarations.mergeSort fun a b => decide (a.fst ≤ b.fst)).map fun e =>
    (e.fst, DeclarationSides.mk (some e.snd) none)
  match observed with
  | .ok files => (files.mergeSort fun a b => decide (a.fst ≤ b.fst)).foldlM noteObserved (declared, false)
  | .error e => if e.cls.isOSError then .ok (declared, true) else .error e

/-- **`_failure_of`**: the failure of a state, and whether it was damaged. -/
def failureOf (env : CollectEnv) (state : List (PyStr × Json)) : Except Exc (Option Failure × Bool) :=
  match Json.get state "failure" with
  | some (.obj raw) =>
    match validateFailure (some (.obj raw)) "failure" with
    | .ok found => .ok (some found, false)
    | .error e =>
      if e.cls = .formatError then
        let message : PyStr := "the recorded failure object is unusable: " ++ env.render e.message
        .ok (some ⟨"protocol_error", message, some raw, false⟩, true)
      else .error e
  | _ => .ok (none, false)

def workdirRelative (job : StoredJob) (state : List (PyStr × Json)) : Option PosixPath :=
  match optionalString (Json.get state "workdir") with
  | some recorded => some (.ofText recorded)
  | none =>
    if job.workdirMode = "persistent" then some job.workdirPath
    else (optionalString (Json.get state "attempt_id")).map fun attemptId =>
      job.workdirPath.parent.append (.ofText (job.workdirPath.name ++ "." ++ attemptId))

def recordedSteps (value : Option Json) : Option (List PyStr) :=
  match value with
  | some (.arr items) => some (items.filterMap fun item => optionalString (some item))
  | _ => none

/-- **`record_of`**: no record of a job without a readable definition. -/
def recordOf (env : CollectEnv) (reading : JobReading) : Except Exc (Option JobRecord) := do
  match ← readOrNone reading.job with
  | none => .ok none
  | some job =>
    let read ← readOrNone reading.state
    let state := read.getD []
    let (activations, gaps) ← timeline reading.frames
    let failed ← failureOf env state
    let declared ← declarationsOf job reading.observed
    let dataGeneration ← optionalInt (Json.get state "data_generation")
    let payloadPath := (PosixPath.ofText (PyStr.join "/" reading.marker.placement)).append
      (.ofText reading.marker.jobKey.text)
    .ok (some
      { workspaceRoot := env.root, workspaceId := env.workspaceId, jobId := reading.marker.jobId,
        jobKey := reading.marker.jobKey.text, job := jobMapping job,
        runnerProvenance := reading.installed.map InstalledRunner.asMapping, state := reading.marker.kind.word,
        failure := failed.fst, placement := reading.marker.placement, payloadPath,
        workdirPath := (workdirRelative job state).map payloadPath.append,
        dataPath := if job.dataMode = "transactional" then some (payloadPath.append (.ofText "data")) else none,
        dataGeneration,
        provenance := timelineMapping activations
          (gaps || read.isNone || failed.snd || declared.snd),
        runnerSteps := recordedSteps (Json.get state "runner_steps"),
        children := (labeledChildren reading.frames).map fun e => (e.fst, e.snd.asMapping),
        declarations := declared.fst, runnerDescription := none })
