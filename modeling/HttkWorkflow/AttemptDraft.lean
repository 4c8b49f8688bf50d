import HttkWorkflow.Effects
import HttkWorkflow.System
import HttkWorkflow.Validators
import Mathlib.Data.List.Sort

/-!
# The draft an attempt composes

A step stages data operations and children on its `Attempt`, and ends by
publishing an outcome. What it stages is kept in one draft directory, which the
publication renames to `outcome.ready`. A call may raise at any of its checks
and at any of its file operations, and the step may catch that and go on with
what the call has left behind.

The calls are written as `Effects` on what the attempt keeps between them. What
the file system does in one call is given with the call, as `CallFiles`.
-/

/-- **What a call raises.** -/
inductive SdkError where
  | exception (exception : Exc)
  | runtimeError (message : Message)

/-- `raise ValueError(…)`. -/
def raiseValue {α : Type} (message : Message) : Except SdkError α := .error (.exception ⟨.valueError, message⟩)

/-- What a function of another module comes to. -/
def checked {α : Type} : Except Exc α → Except SdkError α
  | .ok value => .ok value
  | .error exception => .error (.exception exception)

/-! ## What is staged -/

/-- The operations that install something. -/
inductive InstallKind where
  | putFile
  | putTree
  | replaceTree
deriving DecidableEq

/-- **An operation of the manifest.** The source of an installation is `payload/` and its id. -/
inductive StagedOperation where
  | install (id : PyStr) (kind : InstallKind) (path : List PyStr) (sha256 : PyStr)
  | remove (id : PyStr) (path : List PyStr) (missingOk : Bool)
deriving DecidableEq

def StagedOperation.id : StagedOperation → PyStr
  | .install id _ _ _ | .remove id _ _ => id

structure ChildReference where
  workspaceId : PyStr
  jobId : PyStr
  jobKey : PyStr
  placementHint : List PyStr
deriving DecidableEq

/-- An entry of `spawn.json`. -/
structure SpawnEntry where
  reference : ChildReference
  label : PyStr
  spawnId : PyStr
deriving DecidableEq

structure TransactionBuilder where
  expectedGeneration : ℤ
  operations : List StagedOperation
  targets : List (List PyStr)

/-- **`OutcomeDraft`**: the builder, whether there is a `transaction` directory, the children, and
`spawn.json`. -/
structure OutcomeDraft where
  transaction : Option TransactionBuilder
  transactionDirectory : Bool
  children : List SpawnEntry
  spawnFile : Option (List SpawnEntry)

/-! ## What is published -/

inductive OutcomeAction where
  | advance
  | retry
  | wait
  | succeed
  | fail
  | pause
deriving DecidableEq

def OutcomeAction.text : OutcomeAction → String
  | .advance => "advance"
  | .retry => "retry"
  | .wait => "wait"
  | .succeed => "succeed"
  | .fail => "fail"
  | .pause => "pause"

inductive JoinCondition where
  | allSucceeded
  | allTerminal
  | anySucceeded
  | anyTerminal
  | atLeast
deriving DecidableEq

/-- A child of a join; only those of earlier activations carry their label. -/
structure JoinChild where
  reference : ChildReference
  label : Option PyStr

structure JoinMember where
  children : List JoinChild
  condition : JoinCondition
  count : Option ℤ
  onImpossible : Option PyStr

/-- What `_publish` is called with. -/
structure PublishRequest where
  action : OutcomeAction
  nextStep : Option PyStr := none
  priority : Option Json := none
  failure : Option Json := none
  retry : Option PyStr := none
  join : Option JoinMember := none
  pause : Option PyStr := none
  resources : Option Json := none

/-- **A published outcome**: `outcome.json`, the manifest of its transaction and its `spawn.json`. -/
structure Outcome where
  action : OutcomeAction
  nextStep : Option PyStr
  priority : Option Json
  failure : Option Json
  retry : Option PyStr
  join : Option JoinMember
  pause : Option PyStr
  expectedDataGeneration : Option ℤ
  runnerSteps : List PyStr
  resources : Option (List (PyStr × Json))
  manifest : Option (List StagedOperation)
  spawn : Option (List SpawnEntry)

namespace Outcome

/-- The operations of an outcome; without a transaction it has none. -/
def operations (outcome : Outcome) : List StagedOperation := outcome.manifest.getD []

def children (outcome : Outcome) : List SpawnEntry := outcome.spawn.getD []

end Outcome

/-! ## The attempt -/

/-- What a job definition says of a child. -/
structure ChildDefinition where
  id : PyStr
  jobKey : PyStr

/-- A child that the join before this activation observed. -/
structure ObservedChild where
  label : Option PyStr
  jobId : PyStr
  jobKey : PyStr
  placement : List PyStr

/-- **The context of an attempt**, its runner with the registered steps, the children it observes, and
`JobDefinition.from_mapping`. -/
structure AttemptEnv where
  workspaceId : PyStr
  jobId : PyStr
  jobKey : PyStr
  placement : PyStr
  activationId : PyStr
  dataGeneration : Option ℤ
  durable : Bool
  runner : Option (PyStr × List PyStr)
  observed : List ObservedChild
  definition : List (PyStr × Json) → Except Exc ChildDefinition

/-- **What the file system does in one call**: what each of its operations comes to, in the order of the
calls. A `transaction` directory may be left where its `payload` cannot be made. -/
structure CallFiles where
  draft : Option Exc := none
  transaction : Option (Exc × Bool) := none
  sourceIsDirectory : Bool := false
  sourceIsFile : Bool := true
  targetExists : Bool := false
  copy : Except Exc PyStr := .ok ⟨[]⟩
  document : Except Exc (List (PyStr × Json)) := .ok []
  spawnId : PyStr := ⟨[]⟩
  bundle : Option Exc := none
  spawn : Option Exc := none
  state : Option Exc := none
  sealing : Option Exc := none
  manifest : Option Exc := none
  outcome : Option Exc := none
  sync : Option Exc := none
  rename : Option Exc := none
  control : Option Exc := none
  deadline : Option Exc := none

/-- **`Attempt`** between two calls, and `outcome.ready` below its control directory. A published draft
is still referred to. -/
structure AttemptState where
  draft : Option OutcomeDraft
  operations : ℕ
  published : Option OutcomeAction
  ready : Option Outcome

/-- An attempt on which nothing has been called. -/
def AttemptState.initial : AttemptState := ⟨none, 0, none, none⟩

/-- `_transaction`, which is the builder of the draft. -/
def AttemptState.builder (s : AttemptState) : Option TransactionBuilder := s.draft.bind (·.transaction)

def AttemptState.build (f : TransactionBuilder → TransactionBuilder) (s : AttemptState) : AttemptState :=
  { s with draft := s.draft.map fun d => { d with transaction := d.transaction.map f } }

/-- A change of the children. -/
def AttemptState.compose (f : OutcomeDraft → OutcomeDraft) (s : AttemptState) : AttemptState :=
  { s with draft := s.draft.map f }

/-- A call, or a part of it. -/
abbrev AttemptStep (α : Type) := Effects AttemptState SdkError α

def fileOperation (fault : Option Exc) : Except SdkError Unit :=
  match fault with
  | none => .ok ()
  | some exception => .error (.exception exception)

/-- What is said to a call after the publication. -/
def alreadyPublished (action : OutcomeAction) : SdkError :=
  .runtimeError [.lit "this attempt already published its ", .lit action.text, .lit " outcome"]

def rejectPublished (s : AttemptState) : Except SdkError Unit :=
  match s.published with
  | some action => .error (alreadyPublished action)
  | none => .ok ()

def requireDraft (files : CallFiles) : AttemptStep Unit := do
  let s ← Effects.current
  Effects.ofExcept (rejectPublished s)
  match s.draft with
  | some _ => pure ()
  | none => do
    Effects.ofExcept (fileOperation files.draft)
    Effects.emit (fun s => { s with draft := some ⟨none, false, [], none⟩ }) ()

/-- **`OutcomeDraft.transaction`**. -/
def draftTransaction (generation : ℤ) (files : CallFiles) : AttemptStep Unit := do
  let s ← Effects.current
  if s.draft.any (fun d => d.transaction.isSome || d.transactionDirectory) = true then
    Effects.raise (.runtimeError [.lit "an outcome can contain only one transaction"])
  else match files.transaction with
    | some (exception, left) => do
      Effects.emit (AttemptState.compose fun d => { d with transactionDirectory := left }) ()
      Effects.raise (.exception exception)
    | none =>
      Effects.emit (AttemptState.compose fun d =>
        { d with transaction := some ⟨generation, [], []⟩, transactionDirectory := true }) ()

/-- **`_data_transaction`**, which refuses after the publication only where it makes the transaction. -/
def dataTransaction (env : AttemptEnv) (files : CallFiles) : AttemptStep Unit := do
  match env.dataGeneration with
  | none => Effects.ofExcept (raiseValue [.lit "this job has data.mode none, so it has no data transaction; create the job with data_mode='transactional' to publish data operations"])
  | some generation => do
    let s ← Effects.current
    match s.builder with
    | some _ => pure ()
    | none => do
      requireDraft files
      draftTransaction generation files

/-- `op-` and four digits, or more. -/
def operationId (n : ℕ) : PyStr :=
  PyStr.ofString ("op-" ++ String.ofList (List.replicate (4 - (toString n).length) '0') ++ toString n)

def nextOperation : AttemptStep PyStr := do
  let s ← Effects.current
  Effects.emit (fun s => { s with operations := s.operations + 1 }) (operationId (s.operations + 1))

/-! ## The transaction -/

def runnerUnsafePathComponents : List PyStr := unsafePathComponents ++ [PyStr.ofString ".httk-runner"]

/-- **`_relative`**. -/
def relativeTarget (value : PyStr) (name : String) : Except SdkError (List PyStr) :=
  let parts := (value.split '/').filter fun t => t.codes ≠ [] ∧ t ≠ PyStr.ofString "."
  if value.codes.head? = some '/'.toNat ∨ parts = [] then
    raiseValue [.lit name, .lit " must be a nonempty relative path"]
  else if parts.any (fun part => decide (part ∈ runnerUnsafePathComponents) || part.codes.contains 0) = true then
    raiseValue [.lit name, .lit " is not a safe normalized relative path"]
  else .ok parts

/-- Whether one of two paths is the other one or above it. -/
def pathsOverlap (existing target : List PyStr) : Bool := existing.isPrefixOf target || target.isPrefixOf existing

/-- **`_operation`**: the target is noted although the call may fail later. -/
def builderOperation (id destination : PyStr) : AttemptStep (List PyStr) := do
  let _ ← Effects.ofExcept (checked (validateLabel (some (.str id)) "transaction operation id"))
  let s ← Effects.current
  if (s.builder.any fun b => b.operations.any fun operation => decide (operation.id = id)) = true then
    Effects.ofExcept (raiseValue [.lit "duplicate transaction operation id: ", .raw id])
  else do
    let target ← Effects.ofExcept (relativeTarget destination "transaction target")
    match s.builder.bind fun b => b.targets.find? fun existing => pathsOverlap existing target with
    | some existing => Effects.ofExcept (raiseValue [.lit "transaction paths overlap: ", .path existing, .lit " and ", .path target])
    | none => Effects.emit (AttemptState.build fun b => { b with targets := b.targets ++ [target] }) target

/-- The operation is added to the transaction. -/
def addOperation (operation : StagedOperation) : AttemptStep Unit :=
  Effects.emit (AttemptState.build fun b => { b with operations := b.operations ++ [operation] }) ()

/-- What a `put` becomes: a directory replaces the one that is in the committed data. -/
def CallFiles.installKind (files : CallFiles) : InstallKind :=
  if files.sourceIsDirectory = false then .putFile else if files.targetExists = true then .replaceTree else .putTree

/-- **`put`**. -/
def putCall (env : AttemptEnv) (files : CallFiles) (source destination : PyStr) : AttemptStep PyStr := do
  dataTransaction env files
  let id ← nextOperation
  let target ← builderOperation id destination
  if files.sourceIsDirectory = false ∧ files.sourceIsFile = false then
    Effects.ofExcept (raiseValue [.lit "put-file source must be a regular file: ", .raw source])
  else do
    let sha256 ← Effects.ofExcept (checked files.copy)
    addOperation (.install id files.installKind target sha256)
    pure id

/-- **`remove`**. -/
def removeCall (env : AttemptEnv) (files : CallFiles) (destination : PyStr) (missingOk : Bool) : AttemptStep PyStr := do
  dataTransaction env files
  let id ← nextOperation
  let target ← builderOperation id destination
  addOperation (.remove id target missingOk)
  pure id

/-! ## Children -/

/-- **A child to spawn**: a payload, or a specification with its step, whether it inherits the runner,
and the job definition it comes to. -/
inductive SpawnedChild where
  | payload
  | spec (step : PyStr) (inherits : Bool) (job : Except Exc (List (PyStr × Json)))

def checkStep (env : AttemptEnv) (step : PyStr) (name : String) : Except SdkError Unit := do
  let _ ← checked (validateStep (some (.str step)) name)
  match env.runner with
  | none => .ok ()
  | some (workflow, steps) =>
    if step ∈ steps then .ok ()
    else raiseValue ([.lit name, .lit " ", .repr (some (.str step)), .lit " is not a step of the ", .raw workflow,
      .lit " runner; registered steps: "] ++ if steps = [] then [.lit "none"]
        else ((steps.insertionSort (· ≤ ·)).map MessagePart.raw).intersperse (.lit ", "))

/-- The `parent` of a child. -/
def AttemptEnv.parent (env : AttemptEnv) (spawnId : PyStr) : Json :=
  .obj [("workspace_id", .str env.workspaceId), ("job_id", .str env.jobId), ("job_key", .str env.jobKey),
    ("placement", .str env.placement), ("activation_id", .str env.activationId), ("spawn_id", .str spawnId)]

/-- **The checks of `_register_child`**. -/
def childEntry (env : AttemptEnv) (files : CallFiles) (children : List SpawnEntry) (members : List (PyStr × Json))
    (label : PyStr) (placement : PyStr) : Except SdkError SpawnEntry := do
  let child ← checked (env.definition (Dict.set members "parent" (env.parent files.spawnId)))
  let label ← checked (validateLabel (some (.str label)) "child label")
  if label ∈ children.map SpawnEntry.label then
    raiseValue [.lit "child label is not unique within this spawn set: ", .raw label]
  else do
    let placement ← checked (normalizePlacement placement)
    .ok ⟨⟨env.workspaceId, child.id, child.jobKey, placement⟩, label, files.spawnId⟩

/-- **`_register_child`**: the child is in the list before `spawn.json` is written. -/
def registerChild (env : AttemptEnv) (files : CallFiles) (members : List (PyStr × Json)) (label placement : PyStr) :
    AttemptStep ChildReference := do
  let s ← Effects.current
  let entry ← Effects.ofExcept
    (childEntry env files ((s.draft.map (·.children)).getD []) members label placement)
  Effects.ofExcept (fileOperation files.bundle)
  Effects.emit (AttemptState.compose fun d => { d with children := d.children ++ [entry] }) ()
  Effects.ofExcept (fileOperation files.spawn)
  Effects.emit (AttemptState.compose fun d => { d with spawnFile := some d.children }) ()
  pure entry.reference

/-- **`spawn`**. -/
def spawnCall (env : AttemptEnv) (files : CallFiles) (child : SpawnedChild) (label : PyStr)
    (placement : Option PyStr) : AttemptStep ChildReference := do
  let s ← Effects.current
  Effects.ofExcept (rejectPublished s)
  let label ← Effects.ofExcept (checked (validateLabel (some (.str label)) "child label"))
  match child with
  | .payload => do
    requireDraft files
    let members ← Effects.ofExcept (checked files.document)
    registerChild env files members label (placement.getD env.placement)
  | .spec step inherits job => do
    Effects.ofExcept (if inherits = true then checkStep env step "spawned child step" else .ok ())
    let members ← Effects.ofExcept (checked job)
    requireDraft files
    registerChild env files members label (placement.getD env.placement)

/-! ## Publication -/

def joinMapping (children : List JoinChild) (condition : JoinCondition) (count : Option ℤ)
    (onImpossible : Option PyStr) : Except SdkError JoinMember := do
  if children = [] then raiseValue [.lit "a join requires at least one child"]
  else if condition = .atLeast ∧ (count.all fun n => decide (n < 1 ∨ (children.length : ℤ) < n)) = true then
    raiseValue [.lit "an at_least join requires a valid count"]
  else if condition ≠ .atLeast ∧ count.isSome = true then
    raiseValue [.lit "join count is valid only for at_least"]
  else do
    match onImpossible with
    | none => .ok ⟨children, condition, count, none⟩
    | some step => do
      let step ← checked (validateStep (some (.str step)) "step")
      .ok ⟨children, condition, count, some step⟩

/-- `0 <= x <= 999`. -/
def PyFloat.isPriority : PyFloat → Bool
  | .finite q => decide (0 ≤ q ∧ q ≤ 999)
  | _ => false

/-- The checks of `OutcomeDraft.publish` before it seals the transaction. -/
def checkRequest (children : List SpawnEntry) (request : PublishRequest) : Except SdkError Outcome := do
  match request.priority with
  | none => pure ()
  | some (.int n) =>
    if n < 0 ∨ 999 < n then raiseValue [.lit "priority must be an integer from 0 through 999"] else pure ()
  | some (.bool _) => raiseValue [.lit "priority must be an integer from 0 through 999"]
  | some (.float x) =>
    if x.isPriority = true then pure () else raiseValue [.lit "priority must be an integer from 0 through 999"]
  | some _ => .error (.exception ⟨.typeError, []⟩)
  let continues := request.action = .advance ∨ request.action = .wait
  match request.nextStep with
  | none => if continues then raiseValue [.lit request.action.text, .lit " requires next_step"] else pure ()
  | some step =>
    if continues then do
      let _ ← checked (validateStep (some (.str step)) "step")
      pure ()
    else raiseValue [.lit request.action.text, .lit " does not accept next_step"]
  let resources ← match request.resources with
    | none => pure none
    | some resources =>
      if continues then
        match validateResources (some resources) "resources" with
        | .ok resources => .ok (some resources)
        | .error exception => raiseValue exception.message
      else raiseValue [.lit request.action.text, .lit " does not accept resources"]
  let join ← if request.action = .wait ∧ request.join.isNone = true then
      (joinMapping (children.map fun entry => ⟨entry.reference, none⟩) .allSucceeded none none).map some
    else .ok request.join
  let failure ← if request.action = .fail then
      match request.failure with
      | none => raiseValue [.lit "fail requires failure details"]
      | some failure => (checked (validateFailure (some failure) "failure")).map fun f => some f.asMapping
    else .ok request.failure
  if request.action = .retry ∧ request.retry = none then raiseValue [.lit "retry requires a reason"]
  else if request.action = .pause ∧ request.pause = none then raiseValue [.lit "pause requires a reason"]
  else .ok ⟨request.action, request.nextStep, request.priority, failure, request.retry, join, request.pause, none, [],
    resources, none, none⟩

/-- The manifest of a draft, sealed and read back, with its generation. -/
def OutcomeDraft.manifest (env : AttemptEnv) (files : CallFiles) (draft : OutcomeDraft) :
    Except SdkError (Option ℤ × Option (List StagedOperation)) :=
  match draft.transaction with
  | some builder => do
    fileOperation files.sealing
    fileOperation files.manifest
    if some builder.expectedGeneration ≠ env.dataGeneration then
      raiseValue [.lit "transaction expected_data_generation does not match the attempt context"]
    else .ok (env.dataGeneration, some builder.operations)
  | none =>
    if draft.transactionDirectory = true then .error (.exception ⟨.osError, [.lit "manifest.json"]⟩)
    else .ok (none, none)

/-- The steps of the runner, in order. -/
def AttemptEnv.steps (env : AttemptEnv) : List PyStr :=
  (env.runner.map fun runner => runner.snd.insertionSort (· ≤ ·)).getD []

/-- **What `OutcomeDraft.publish` makes of a draft** before it renames it. -/
def OutcomeDraft.outcome (env : AttemptEnv) (files : CallFiles) (draft : OutcomeDraft) (request : PublishRequest) :
    Except SdkError Outcome := do
  let body ← checkRequest draft.children request
  let manifest ← draft.manifest env files
  let steps ← env.steps.mapM fun step => checked (validateStep (some (.str step)) "step")
  fileOperation files.outcome
  fileOperation (if env.durable = true then files.sync else none)
  .ok { body with expectedDataGeneration := manifest.fst, manifest := manifest.snd, runnerSteps := steps,
                  spawn := draft.spawnFile }

/-- **`OutcomeDraft.publish`**. -/
def draftPublish (env : AttemptEnv) (files : CallFiles) (request : PublishRequest) : AttemptStep Unit := do
  let s ← Effects.current
  if s.ready.isSome = true then
    Effects.raise (.exception ⟨.osError, [.lit "an outcome is already published: ", .lit "outcome.ready"]⟩)
  else do
    let outcome ← Effects.ofExcept (((s.draft.map fun draft => draft.outcome env files request)).getD
      (.error (.exception ⟨.osError, []⟩)))
    Effects.ofExcept (fileOperation files.rename)
    Effects.emit (fun s => { s with ready := some outcome }) ()
    Effects.ofExcept (fileOperation (if env.durable = true then files.control else none))

def discardDraft (s : AttemptState) : AttemptState := { s with draft := none }

/-- **`_publish`**. -/
def publishCall (env : AttemptEnv) (files : CallFiles) (request : PublishRequest) : AttemptStep Unit := do
  requireDraft files
  match ← Effects.attempt (draftPublish env files request) with
  | .error error => do
    Effects.emit discardDraft ()
    Effects.raise error
  | .ok () => do
    Effects.emit (fun s => { s with published := some request.action }) ()
    Effects.ofExcept (fileOperation files.deadline)

/-! ## The calls -/

/-- **The calls of a step** on its attempt. -/
inductive AttemptCall where
  | put (source destination : PyStr)
  | remove (destination : PyStr) (missingOk : Bool)
  | spawn (child : SpawnedChild) (label : PyStr) (placement : Option PyStr)
  | advance (step : PyStr) (state : List (PyStr × Json)) (priority resources : Option Json)
  | gather (step : PyStr) (condition : JoinCondition) (count : Option ℤ) (onImpossible : Option PyStr)
      (rejoin : List PyStr) (priority resources : Option Json)
  | succeed
  | retry (reason : PyStr)
  | pause (reason : PyStr)
  | fail (failure : Failure) (priority : Option Json)

/-- The labels and identities of a join so far. -/
structure JoinSeen where
  labels : List PyStr
  identities : List (PyStr × PyStr)

/-- One child more. -/
def JoinSeen.add (seen : JoinSeen) (label : PyStr) (identity : PyStr × PyStr) : Except SdkError JoinSeen :=
  if label ∈ seen.labels then raiseValue [.lit "duplicate join child label: ", .raw label]
  else if identity ∈ seen.identities then raiseValue [.lit "duplicate join child identity: ", .raw identity.snd]
  else .ok ⟨label :: seen.labels, identity :: seen.identities⟩

/-- A label of `rejoin`. -/
def rejoinChild (env : AttemptEnv) (acc : JoinSeen × List JoinChild) (label : PyStr) :
    Except SdkError (JoinSeen × List JoinChild) :=
  match env.observed.find? fun child => decide (child.label = some label) with
  | none => raiseValue ([.lit "unknown rejoin child label ", .repr (some (.str label)), .lit "; known labels: "]
      ++ if env.observed.filterMap ObservedChild.label = [] then [.lit "none"]
        else ((env.observed.filterMap ObservedChild.label).map MessagePart.raw).intersperse (.lit ", "))
  | some child => do
    let seen ← acc.fst.add label (env.workspaceId, child.jobId)
    .ok (seen, acc.snd ++ [⟨⟨env.workspaceId, child.jobId, child.jobKey, child.placement⟩, some label⟩])

/-- **The checks of `gather`**, and the join it publishes. -/
def gatherRequest (env : AttemptEnv) (children : List SpawnEntry) (step : PyStr) (condition : JoinCondition)
    (count : Option ℤ) (onImpossible : Option PyStr) (rejoin : List PyStr) (priority resources : Option Json) :
    Except SdkError PublishRequest := do
  checkStep env step "gather target"
  match onImpossible with
  | none => pure ()
  | some target => checkStep env target "on_impossible target"
  let seen ← children.foldlM (fun seen entry =>
    seen.add entry.label (entry.reference.workspaceId, entry.reference.jobId)) (⟨[], []⟩ : JoinSeen)
  let (_, rejoined) ← rejoin.foldlM (rejoinChild env) (seen, [])
  if children = [] ∧ rejoined = [] then
    raiseValue [.lit "gather requires children spawned on this attempt or rejoin entries, and neither was provided"]
  else do
    let join ← joinMapping (children.map (fun entry => ⟨entry.reference, none⟩) ++ rejoined) condition count onImpossible
    .ok { action := .wait, nextStep := some step, priority := priority, join := some join, resources := resources }

/-- **What a call asks to be published**, if it comes to that. -/
def AttemptCall.request (env : AttemptEnv) (s : AttemptState) : AttemptCall → Option (Except SdkError PublishRequest)
  | .put _ _ | .remove _ _ | .spawn _ _ _ => none
  | .advance step _ priority resources => some do
    rejectPublished s
    checkStep env step "advance target"
    .ok { action := .advance, nextStep := some step, priority := priority, resources := resources }
  | .gather step condition count onImpossible rejoin priority resources => some do
    rejectPublished s
    gatherRequest env ((s.draft.map (·.children)).getD []) step condition count onImpossible rejoin priority resources
  | .succeed => some (.ok { action := .succeed })
  | .retry reason => some (.ok { action := .retry, retry := some reason })
  | .pause reason => some (.ok { action := .pause, pause := some reason })
  | .fail failure priority => some (.ok { action := .fail, failure := some failure.asMapping, priority := priority })

/-- Whether a call writes the job state before it publishes. -/
def AttemptCall.mergesState : AttemptCall → Bool
  | .advance _ state _ _ => state ≠ []
  | _ => false

/-- What a call returns. -/
inductive CallResult where
  | operation (id : PyStr)
  | child (reference : ChildReference)
  | published

/-- **A call.** -/
def AttemptCall.run (env : AttemptEnv) (files : CallFiles) (call : AttemptCall) : AttemptStep CallResult :=
  match call with
  | .put source destination => do
    let id ← putCall env files source destination
    pure (.operation id)
  | .remove destination missingOk => do
    let id ← removeCall env files destination missingOk
    pure (.operation id)
  | .spawn child label placement => do
    let reference ← spawnCall env files child label placement
    pure (.child reference)
  | call => do
    let s ← Effects.current
    match call.request env s with
    | none => pure .published
    | some request => do
      let request ← Effects.ofExcept request
      Effects.ofExcept (fileOperation (if call.mergesState = true then files.state else none))
      publishCall env files request
      pure .published
