import HttkWorkflow.CollectorStream
import HttkWorkflow.GroupedAnswers
import HttkWorkflow.JobRecords

/-!
# Collecting jobs

`collect` makes a result of every record of a scan, in windows of a size that
is given. Some jobs have a collector in this process, some an executable one,
some none. Those for executable collectors are put into groups, one for each
collector, and each group is answered by one process (`answerGroup`); the
other results are there at once (`classifyRecord`). Results and answers are written
where their records are in the window.

What fails is to be a result too: a job that degraded, with the reason. So
most calls are made under an `except`, and some are not. An exception is
known here by what the `except` clauses can tell of it, and by its text, which
an exception of a collector need not have.

The registries, the collectors, the processes they run in and the provenance
types are those of others, and are what `CollectCalls` has.
-/

/-! ## Exceptions -/

/-- **What the sweep can tell of an exception.** -/
inductive RaisedClass where
  | importError
  /-- `_CollectEnvironmentError`, a `RuntimeError`. -/
  | collectEnvironment
  /-- `_PinnedTreeError`, a `ValueError`. -/
  | pinnedTree
  /-- `LanguageOutputsMissingError`, a `ValueError`. -/
  | outputsMissing
  /-- `UnicodeDecodeError`, a `ValueError`. -/
  | unicodeDecode
  | valueError
  | typeError
  | osError
  | runtimeError
  /-- Any other `Exception`. -/
  | exception
  /-- What is no `Exception`, as `SystemExit`. -/
  | exit
deriving DecidableEq

namespace RaisedClass

/-- `except ValueError`. -/
def isValueError : RaisedClass → Bool
  | pinnedTree | outputsMissing | unicodeDecode | valueError => true
  | _ => false

/-- `except (OSError, RuntimeError, ValueError)`. -/
def isUnresolved : RaisedClass → Bool
  | osError | runtimeError | collectEnvironment => true
  | c => c.isValueError

/-- `except ImportError: raise`, and then `except Exception`. -/
def isFailure : RaisedClass → Bool
  | importError | exit => false
  | _ => true

/-- `except (ImportError, _CollectEnvironmentError): raise`, and then `except Exception`. -/
def isCollectorFailure : RaisedClass → Bool
  | importError | collectEnvironment | exit => false
  | _ => true

end RaisedClass

/-- **An exception**: its text is what `str` makes of it, which may raise. -/
structure Raised where
  cls : RaisedClass
  text : Except RaisedClass PyStr

/-- `raise ValueError(text)`. -/
def raiseValueError {β : Type} (text : PyStr) : Except Raised β := .error ⟨.valueError, .ok text⟩

def Raised.handled (e : Raised) (caught : RaisedClass → Bool) (reason : PyStr → Message) : Except RaisedClass Message :=
  if caught e.cls then e.text.map reason else .error e.cls

/-! ## What a job is made of -/

/-- **A workflow that is installed or registered**, with an in-process collector of some type. -/
structure WorkflowProvider (Adapter : Type) where
  /-- The document of its declaration. -/
  workflow : List (PyStr × Json)
  /-- Its output roles, each with the role it is the product of. -/
  curations : List (PyStr × Option PyStr)
  /-- `_collector(provider.collector)`. -/
  collector : Except Raised (Option Adapter)
  /-- The member of its tree that is an executable collector. -/
  collectorExec : Option PyStr
  directory : Option PyStr

/-- **An edge of a run**. -/
structure RunEdge where
  label : PyStr
  entryType : PyStr
  entryId : PyStr
deriving DecidableEq

/-- **A product link.** -/
structure ProductLink where
  source : RunEdge
  target : RunEdge
  label : PyStr

/-- **A collected job**: its outputs, or why there are none. -/
structure CollectedJob (Run Value : Type) where
  workflowId : PyStr
  outputs : List (PyStr × Value)
  unfulfilled : List PyStr
  run : Run
  products : List ProductLink
  record : JobRecord
  missingCollector : Option Message
  productsUnlinked : List Message
  exitStatus : Option Int

/-- **A process that a collector ran in**, to its end. -/
structure ChildRun where
  chunks : List (List ℕ)
  /-- What stopped it, if no response line did. -/
  breach : Option StreamBreach
  timedOut : Bool
  returncode : Int

structure JobCollector (Adapter : Type) where
  adapter : Option Adapter
  provider : Option (WorkflowProvider Adapter)
  reason : Option Message

/-- **What the sweep calls.** -/
structure CollectCalls (Adapter Run Value : Type) where
  /-- `workflow_provider`. -/
  provider : PyStr → Except Raised (Option (WorkflowProvider Adapter))
  runRecord : JobRecord → Except Raised Run
  /-- A run without edges. -/
  emptyRun : JobRecord → Run
  inputs : Run → List RunEdge
  artifacts : Run → List RunEdge
  outputs : Run → List RunEdge
  /-- The run with other artifacts and outputs. -/
  rebuilt : Run → List RunEdge → List RunEdge → Except Raised Run
  resolve : PyStr → Except Raised PyStr
  /-- The default collector of a language, if it has one. -/
  language : PyStr → Except Raised (Option Adapter)
  jobCollector : JobRecord → PyStr → Except Raised (JobCollector Adapter)
  /-- A call of a collector, `none` if it returns no mapping. -/
  call : Adapter → JobRecord → Except Raised (Option (List (PyStr × Value)))
  /-- `_executable_path`. -/
  executable : WorkflowProvider Adapter → PyStr → Except Raised PyStr
  /-- `json.dumps` of a request. -/
  encode : JobRecord → Except Raised (List ℕ)
  /-- `Popen`, to the end of the process. -/
  launch : PyStr → List (List ℕ) → Except Raised ChildRun
  /-- `json.loads` of a line. -/
  decode : List ℕ → Except Raised Json
  /-- `_resolve_executable_output`. -/
  resolveOutput : JobRecord → WorkflowProvider Adapter → PyStr → Json → Except Raised Value
  entryEdge : PyStr → Value → List (PyStr × Json) → Except Raised RunEdge
  /-- The `product_of` edges of a data record, which not every value is. -/
  productOf : Value → Option (List RunEdge)
  /-- A data record with one more edge. -/
  withEdge : Value → RunEdge → Value
  render : Message → PyStr

section Sweep

variable {Adapter Run Value : Type} (c : CollectCalls Adapter Run Value)

/-- `f"{record.workspace_id}:{record.job_id}"`. -/
def recordIdentity (record : JobRecord) : Message := [.raw record.workspaceId, .lit ":", .raw record.jobId]

def recordWorkflow (record : JobRecord) : PyStr :=
  match Json.get record.job "workflow" with
  | some (.str workflowId) => workflowId
  | _ => ⟨[]⟩

def jobWorkflowDocument (record : JobRecord) (provider : Option (WorkflowProvider Adapter)) : List (PyStr × Json) :=
  let declared := (Dict.get record.declarations "workflow").bind fun sides => sides.observed.or sides.declared
  declared.getD ((provider.map WorkflowProvider.workflow).getD [])

def outputRoles (document : List (PyStr × Json)) : List (PyStr × List (PyStr × Json)) :=
  match Json.get document "outputs" with
  | some (.arr items) => items.foldl (fun roles item =>
      match item with
      | .obj declared =>
        match Json.get declared "name" with
        | some (.str name) => Dict.assign roles name declared
        | _ => roles
      | _ => roles) []
  | _ => []

def declaredRoles (record : JobRecord) (provider : Option (WorkflowProvider Adapter)) :
    List (PyStr × List (PyStr × Json)) := outputRoles (jobWorkflowDocument record provider)

def edgeLabeled (edges : List RunEdge) (label : PyStr) : Option RunEdge :=
  edges.reverse.find? fun edge => edge.label = label

def overlayEdges (base owned : List RunEdge) : List RunEdge :=
  base.map (fun edge => (edgeLabeled owned edge.label).getD edge)
    ++ owned.filter fun edge => edge.label ∉ base.map RunEdge.label

/-- The output roles of a provider, each with the role it is the product of. -/
def curations (provider : Option (WorkflowProvider Adapter)) : List (PyStr × Option PyStr) :=
  (provider.map WorkflowProvider.curations).getD []

/-- One round of `_attach_product_of`. -/
def attachOne (roles : List (PyStr × List (PyStr × Json))) (run : Run) (outputs : List (PyStr × Value))
    (curation : PyStr × Option PyStr) : Except Raised (List (PyStr × Value)) :=
  match curation.snd, outputs.lookup curation.fst with
  | some sourceRole, some value =>
    match c.productOf value with
    | none => .ok outputs
    | some edges =>
      let source : Except Raised (Option RunEdge) :=
        match edgeLabeled (c.inputs run) sourceRole, outputs.lookup sourceRole with
        | some edge, _ => .ok (some edge)
        | none, some sibling => (c.entryEdge sourceRole sibling ((roles.lookup sourceRole).getD [])).map some
        | none, none => .ok none
      source.map fun source =>
        match source with
        | none => outputs
        | some edge =>
          if edges.any fun old => old.label = sourceRole then outputs
          else Dict.assign outputs curation.fst (c.withEdge value ⟨sourceRole, edge.entryType, edge.entryId⟩)
  | _, _ => .ok outputs

def attachProductOf (outputs : List (PyStr × Value)) (roles : List (PyStr × List (PyStr × Json))) (run : Run)
    (provider : Option (WorkflowProvider Adapter)) : Except Raised (List (PyStr × Value)) :=
  (curations provider).foldlM (attachOne c roles run) outputs

/-- A declared product whose output there is: linked to its source, or not. -/
def productLinked (inputs owned : List RunEdge) (curation : PyStr × Option PyStr) : Option (ProductLink ⊕ Message) :=
  match curation.snd, edgeLabeled owned curation.fst with
  | some sourceRole, some target =>
    match (edgeLabeled inputs sourceRole).or (edgeLabeled owned sourceRole) with
    | some source => some (.inl ⟨source, target, curation.fst⟩)
    | none => some (.inr [.raw curation.fst, .lit " -> ", .raw sourceRole,
        .lit " (source edge absent in observed provenance)"])
  | _, _ => none

def assembleCollected (record : JobRecord) (provider : Option (WorkflowProvider Adapter)) (run : Run)
    (outputs : List (PyStr × Value)) : Except Raised (CollectedJob Run Value) :=
  let roles := declaredRoles record provider
  match outputs.find? fun e => decide (e.fst ∉ roles.map Prod.fst) with
  | some unknown => raiseValueError (c.render (recordIdentity record
      ++ [.lit ": unknown output role ", .repr (some (.str unknown.fst))]))
  | none => do
    let outputs' ← attachProductOf c outputs roles run provider
    let owned ← outputs'.mapM fun e => c.entryEdge e.fst e.snd ((roles.lookup e.fst).getD [])
    let collected ← c.rebuilt run (overlayEdges (c.artifacts run) owned) (overlayEdges (c.outputs run) owned)
    let linked := (curations provider).filterMap (productLinked (c.inputs collected) owned)
    .ok { workflowId := recordWorkflow record, outputs := outputs',
          unfulfilled := (roles.map Prod.fst).filter fun role => role ∉ outputs.map Prod.fst,
          run := collected, products := linked.filterMap Sum.getLeft?, record, missingCollector := none,
          productsUnlinked := linked.filterMap Sum.getRight?, exitStatus := none }

def degradedJob (record : JobRecord) (provider : Option (WorkflowProvider Adapter)) (run : Run) (reason : Message) :
    CollectedJob Run Value where
  workflowId := recordWorkflow record
  outputs := []
  unfulfilled := (declaredRoles record provider).map Prod.fst
  run
  products := []
  record
  missingCollector := some reason
  productsUnlinked := []
  exitStatus := none

/-! ## Collectors in the process -/

/-- **A record that waits for an executable collector.** -/
structure QueuedRecord (Adapter Run : Type) where
  record : JobRecord
  provider : WorkflowProvider Adapter
  run : Run

/-- What became of a record before the executable collectors are run. -/
inductive Classified (Adapter Run Value : Type) where
  | collected (job : CollectedJob Run Value)
  | queued (key : PyStr) (request : QueuedRecord Adapter Run)

/-- A record is queued for an executable collector. No handler is around this. -/
def queueRecord (record : JobRecord) (provider : WorkflowProvider Adapter) (member : PyStr) (run : Run) :
    Except RaisedClass (Classified Adapter Run Value) :=
  match provider.directory with
  | none => .error .valueError
  | some directory =>
    match c.resolve directory with
    | .error e => .error e.cls
    | .ok path => .ok (.queued (path ++ ":" ++ member) ⟨record, provider, run⟩)

/-- What a collector returns, assembled. -/
def calledAdapter (record : JobRecord) (provider : Option (WorkflowProvider Adapter)) (run : Run) (adapter : Adapter) :
    Except Raised (CollectedJob Run Value) := do
  match ← c.call adapter record with
  | none => raiseValueError "collector must return a mapping of output roles"
  | some outputs => assembleCollected c record provider run outputs

def collectorFailed (record : JobRecord) (fallback : Bool) (cls : RaisedClass) (text : PyStr) : Message :=
  if fallback ∧ cls = .pinnedTree then [.lit "pinned runner tree was modified: ", .raw text]
  else if cls = .outputsMissing then [.raw text]
  else recordIdentity record ++ [.lit ": collector failed: ", .raw text]

/-- **A collector in the process is called.** -/
def callAdapter (record : JobRecord) (provider : Option (WorkflowProvider Adapter)) (run : Run) (fallback : Bool)
    (adapter : Adapter) : Except RaisedClass (Classified Adapter Run Value) :=
  match calledAdapter c record provider run adapter with
  | .ok job => .ok (.collected job)
  | .error e => (e.handled RaisedClass.isCollectorFailure (collectorFailed record fallback e.cls)).map fun reason =>
      .collected (degradedJob record provider run reason)

/-- The collector of the tree the job is pinned to, where it is allowed. -/
def callJobCollector (allow : Bool) (record : JobRecord) (provider : Option (WorkflowProvider Adapter)) (run : Run) :
    Except RaisedClass (Classified Adapter Run Value) :=
  if allow = false then
    let missing : String := if provider.isNone then "no provider" else "no collector registered"
    .ok (.collected (degradedJob record provider run
      [.lit missing, .lit " for workflow ", .repr (some (.str (recordWorkflow record))),
        .lit "; pass allow_job_collector=True to use a pinned workspace workflow tree"]))
  else
    match c.jobCollector record (recordWorkflow record) with
    | .error e => .error e.cls
    | .ok found =>
      match found.provider with
      | none => .ok (.collected (degradedJob record provider run
          (found.reason.getD [.lit "job collector unavailable"])))
      | some fallback =>
        match fallback.collectorExec, found.adapter with
        | some member, _ => queueRecord c record fallback member run
        | none, none => .ok (.collected (degradedJob record (some fallback) run
            (found.reason.getD [.lit "job collector unavailable"])))
        | none, some adapter => callAdapter c record (some fallback) run true adapter

def recordParameters (record : JobRecord) : List (PyStr × Json) :=
  (optionalMapping (Json.get record.job "parameters")).getD []

/-- **Where a record whose workflow has no collector is turned to.** -/
inductive Recourse where
  /-- The hook of a package that is not registered. -/
  | package
  /-- The default collector of a workflow language. -/
  | language (name : PyStr)
  /-- The collector of the tree the job is pinned to. -/
  | pinned

/-- Only a record that no provider is known for may be a document of a workflow language. -/
def recourse (record : JobRecord) (known : Bool) : Recourse :=
  let parameters := recordParameters record
  if known ∨ Json.optEqStr (Json.get parameters "workflow_realization") "language" = false then .pinned
  else if Json.optEqStr (Json.get parameters "workflow_collect") "package" then .package
  else
    match Json.get parameters "workflow_language" with
    | some (.str name) => .language name
    | _ => .pinned

def withoutAdapter (allow : Bool) (record : JobRecord) (provider : Option (WorkflowProvider Adapter)) (run : Run) :
    Except RaisedClass (Classified Adapter Run Value) :=
  match recourse record provider.isSome with
  | .pinned => callJobCollector c allow record provider run
  | .package => .ok (.collected (degradedJob record provider run (recordIdentity record
      ++ [.lit ": workflow package collect hook is unavailable without its registered provider; ",
        .lit "collect while the package is registered"])))
  | .language name =>
    match c.language name with
    | .ok (some adapter) => callAdapter c record provider run false adapter
    | .ok none => .ok (.collected (degradedJob record provider run (recordIdentity record
        ++ [.lit ": workflow language ", .repr (some (.str name)),
          .lit " has no default collector; its package declares [workflow.collect]"])))
    | .error e => (e.handled RaisedClass.isFailure fun text => recordIdentity record
        ++ [.lit ": workflow language ", .repr (some (.str name)), .lit " collector unavailable: ", .raw text]).map
          fun reason => .collected (degradedJob record provider run reason)

/-- **The first pass over a record.** -/
def classifyRecord (allow : Bool) (record : JobRecord) : Except RaisedClass (Classified Adapter Run Value) :=
  match c.provider (recordWorkflow record) with
  | .error e => .error e.cls
  | .ok provider =>
    match c.runRecord record with
    | .error e => (e.handled RaisedClass.isValueError fun text => recordIdentity record
        ++ [.lit ": provenance declaration is unusable: ", .raw text, .lit "; inspect ",
          .path [record.workspaceRoot.asPosix, record.payloadPath.asPosix],
          .lit "/.httk-job/declarations/provenance.json"]).map fun reason =>
            .collected (degradedJob record provider (c.emptyRun record) reason)
    | .ok run =>
      match provider with
      | none => withoutAdapter c allow record none run
      | some known =>
        match known.collectorExec with
        | some member => queueRecord c record known member run
        | none =>
          match known.collector with
          | .error e => (e.handled RaisedClass.isFailure fun text => recordIdentity record
              ++ [.lit ": collector resolution failed: ", .raw text]).map fun reason =>
                .collected (degradedJob record (some known) run reason)
          | .ok (some adapter) => callAdapter c record (some known) run false adapter
          | .ok none => withoutAdapter c allow record (some known) run

/-! ## Executable collectors -/

def StreamBreach.reason : StreamBreach → Message
  | .responseLine => [.lit "executable collector response line exceeded ", .num maxResponseLine, .lit " bytes"]
  | .surplusLines => [.lit "executable collector emitted surplus response lines; write diagnostics to stderr"]
  | .stderrTotal => [.lit "executable collector stderr exceeded ", .num (1024 * 1024), .lit " bytes"]
  | .stderrLine => [.lit "executable collector stderr line exceeded ", .num (64 * 1024), .lit " bytes"]
  | .timedOut => [.lit "executable collector timed out before responding"]

def parseResponse (record : JobRecord) (provider : WorkflowProvider Adapter) (line : List ℕ) :
    Except Raised (List (PyStr × Value)) := do
  match ← c.decode line with
  | .obj response =>
    if Json.optEqStr (Json.get response "job_id") record.jobId = false then
      raiseValueError (c.render [.lit "response job_id ", .repr (Json.get response "job_id"), .lit " does not match ",
        .repr (some (.str record.jobId))])
    else
      match Json.get response "error", Json.get response "outputs" with
      | some (.str message), _ => raiseValueError message
      | _, some (.obj outputs) => outputs.mapM fun e => (c.resolveOutput record provider e.fst e.snd).map fun value =>
          (e.fst, value)
      | _, _ => raiseValueError "response has no outputs mapping"
  | _ => raiseValueError "response is not a JSON object"

/-- The reason a job degrades for when its response cannot be used. -/
def responseFailed (record : JobRecord) (cls : RaisedClass) (text : PyStr) : Message :=
  let said : String :=
    if cls = .unicodeDecode then ": executable collector response is not UTF-8: "
    else if cls.isValueError then ": executable collector response failed: "
    else if cls = .typeError then ": executable collector response is malformed: "
    else ": executable collector output failed: "
  recordIdentity record ++ [.lit said, .raw text]

/-- **The outputs a response gives a record**, or why it has none. -/
def readResponse (record : JobRecord) (provider : WorkflowProvider Adapter) (line : Option (List ℕ)) :
    Except RaisedClass (Except Message (List (PyStr × Value))) :=
  match line with
  | none => .ok (.error (recordIdentity record ++ [.lit ": executable collector ended before responding"]))
  | some line =>
    match parseResponse c record provider line with
    | .ok outputs => .ok (.ok outputs)
    | .error e => (e.handled RaisedClass.isCollectorFailure (responseFailed record e.cls)).map .error

def groupResult (request : QueuedRecord Adapter Run) (exitStatus : Option Int)
    (response : Except Message (List (PyStr × Value))) : Except RaisedClass (CollectedJob Run Value) :=
  let built : Except RaisedClass (CollectedJob Run Value) :=
    match response with
    | .error reason => .ok (degradedJob request.record (some request.provider) request.run reason)
    | .ok outputs =>
      match assembleCollected c request.record (some request.provider) request.run outputs with
      | .ok job => .ok job
      | .error e => (e.handled RaisedClass.isCollectorFailure fun text => recordIdentity request.record
          ++ [.lit ": executable collector output failed: ", .raw text]).map fun reason =>
            degradedJob request.record (some request.provider) request.run reason
  built.map fun job => { job with exitStatus := exitStatus.or job.exitStatus }

def groupFailures (requests : List (ℕ × QueuedRecord Adapter Run)) (reason : Message) :
    List (ℕ × CollectedJob Run Value) :=
  requests.map fun e => (e.fst, degradedJob e.snd.record (some e.snd.provider) e.snd.run reason)

/-- **What `drain_stdout` and the others left of a process**: its responses, or why it has none. -/
def ChildRun.responses (child : ChildRun) (wanted : ℕ) : Except Message (List (List ℕ)) :=
  if child.timedOut then .error StreamBreach.timedOut.reason
  else
    match child.breach with
    | some breach => .error breach.reason
    | none => (drainStdout wanted child.chunks).mapError StreamBreach.reason

/-- `collector_exit_status`. -/
def ChildRun.exitStatus (child : ChildRun) (wanted : ℕ) (responses : List (List ℕ)) : Option Int :=
  if responses.length = wanted ∧ child.returncode ≠ 0 then some child.returncode else none

/-- **A group is answered by one process.** -/
def answerGroup (requests : List (ℕ × QueuedRecord Adapter Run)) :
    Except RaisedClass (List (ℕ × CollectedJob Run Value)) :=
  match requests with
  | [] => .ok []
  | first :: _ =>
    let provider := first.snd.provider
    match c.resolve (provider.directory.getD ⟨[]⟩) with
    | .error e => .error e.cls
    | .ok root =>
      match c.executable provider root with
      | .error e => (e.handled RaisedClass.isUnresolved fun text =>
          [.lit "executable collector cannot be resolved: ", .raw text]).map (groupFailures requests)
      | .ok executable =>
        match requests.mapM fun e => c.encode e.snd.record with
        | .error e => .error e.cls
        | .ok payload =>
          match c.launch executable payload with
          | .error e => (e.handled (fun cls => decide (cls = .osError)) fun text =>
              [.lit "executable collector could not be launched: ", .raw text,
                .lit "; check its shebang and executable permissions"]).map (groupFailures requests)
          | .ok child =>
            match child.responses requests.length with
            | .error reason => .ok (groupFailures requests reason)
            | .ok responses =>
              requests.zipIdx.mapM fun e => do
                let response ← readResponse c e.fst.snd.record provider responses[e.snd]?
                let job ← groupResult c e.fst.snd (child.exitStatus requests.length responses) response
                .ok (e.fst.fst, job)

/-! ## Windows -/

/-- **How a sweep is made.** -/
structure SweepOptions where
  batchSize : ℕ
  allowJobCollector : Bool
  failFast : Bool
  /-- `_validate_batch_size`. -/
  batchSize_pos : 0 < batchSize

/-- How many records there are in a window. -/
def SweepOptions.windowSize (options : SweepOptions) : ℕ := if options.failFast then 1 else options.batchSize

theorem SweepOptions.windowSize_pos (options : SweepOptions) : 0 < options.windowSize := by
  unfold windowSize
  split_ifs
  · exact Nat.one_pos
  · exact options.batchSize_pos

/-- The results that are there after the first pass. -/
def immediateResults (classified : List (ℕ × Classified Adapter Run Value)) : List (ℕ × CollectedJob Run Value) :=
  classified.filterMap fun e =>
    match e.snd with
    | .collected job => some (e.fst, job)
    | .queued _ _ => none

def queuedRecords (classified : List (ℕ × Classified Adapter Run Value)) :
    List (PyStr × (ℕ × QueuedRecord Adapter Run)) :=
  classified.filterMap fun e =>
    match e.snd with
    | .collected _ => none
    | .queued key request => some (key, (e.fst, request))

/-- The records of a window, each with its place and what the first pass has of it. -/
def firstPass (allow : Bool) (window : List JobRecord) : Except RaisedClass (List (ℕ × Classified Adapter Run Value)) :=
  window.zipIdx.mapM fun e => (classifyRecord c allow e.fst).map fun result => (e.snd, result)

/-- **One window**: its results, each in its place. -/
def collectWindow (allow : Bool) (window : List JobRecord) :
    Except RaisedClass (ℕ → Option (CollectedJob Run Value)) := do
  let classified ← firstPass c allow window
  let answers ← (GroupedAnswers.group (queuedRecords classified)).mapM fun group => answerGroup c group.snd
  .ok (GroupedAnswers.assign (GroupedAnswers.assign (fun _ => none) (immediateResults classified)) answers.flatten)

/-- **What a sweep yields**, and the exception it ends with, if it does. -/
structure Swept (Run Value : Type) where
  yielded : List (CollectedJob Run Value)
  raised : Option RaisedClass

/-- The results of a window are yielded in order. One that is missing fails an assertion. -/
def yieldResults (failFast : Bool) (results : List (Option (CollectedJob Run Value))) : Swept Run Value :=
  match results with
  | [] => ⟨[], none⟩
  | none :: _ => ⟨[], some .exception⟩
  | some job :: rest =>
    if failFast = true ∧ job.missingCollector.isSome = true then ⟨[], some .valueError⟩
    else ⟨job :: (yieldResults failFast rest).yielded, (yieldResults failFast rest).raised⟩

/-- One sweep after another, if the first one comes to its end. -/
def Swept.andThen (first second : Swept Run Value) : Swept Run Value :=
  match first.raised with
  | some cls => ⟨first.yielded, some cls⟩
  | none => ⟨first.yielded ++ second.yielded, second.raised⟩

/-- **`collect`**, over the records of a scan. -/
def collect (options : SweepOptions) (records : List JobRecord) : Swept Run Value :=
  if _h : records = [] then ⟨[], none⟩
  else
    let window := records.take options.windowSize
    match collectWindow c options.allowJobCollector window with
    | .error cls => ⟨[], some cls⟩
    | .ok results =>
      (yieldResults options.failFast ((List.range window.length).map results)).andThen
        (collect options (records.drop options.windowSize))
termination_by records.length
decreasing_by
  have hlength := List.length_pos_of_ne_nil _h
  have hpos := options.windowSize_pos
  rw [List.length_drop]
  omega

end Sweep
