import HttkWorkflow.StateFrame
import HttkWorkflow.Effects
import HttkWorkflow.Validators

/-!
# The commit of a published outcome

A runner publishes an outcome, a manager fences the job into `committing`,
and from there any manager applies the outcome: it replays the transaction,
registers the children and follows the action to the frame the job leaves
with. `processCommitting` is that pass and `resume` the handling of what it
raises; both are translated from `_manager_commit.py`, and what they do to
the world besides (the replay, the registration of the children) is a
computation with effects they are given.

What the code interpolates into texts and what it stores goes through the
interpreter's own printing, which `CommitEnv` stands for.
-/

/-- **What the commit takes from the interpreter**: how texts are printed,
and how deeply a stored value may be nested. -/
structure CommitEnv where
  /-- The nesting `json.loads` and `json.dumps` take below one member. -/
  depth : Nat
  /-- `str(value)`. -/
  str : Json → PyStr
  render : Message → PyStr
  /-- `str(uuid.UUID(text))`, where that parses. -/
  uuid : PyStr → Option PyStr
  three_le_depth : 3 ≤ depth
  encodable_render : ∀ m, (render m).encodable = m.encodable

/-- `data.mode` of a job. -/
inductive DataMode where
  | none
  | transactional
deriving DecidableEq

/-- **The attempt budgets** of a job, which are at least one, and the failures
it retries. -/
structure RetryPolicy where
  maximumAttemptsPerActivation : Option Int
  maximumTotalAttempts : Option Int
  maximumActivations : Option Int
  retryOn : List PyStr
  one_le_attempts : ∀ n, maximumAttemptsPerActivation = some n → 1 ≤ n
  one_le_total : ∀ n, maximumTotalAttempts = some n → 1 ≤ n
  one_le_activations : ∀ n, maximumActivations = some n → 1 ≤ n

def RetryPolicy.unlimited (retryOn : List PyStr) : RetryPolicy where
  maximumAttemptsPerActivation := none
  maximumTotalAttempts := none
  maximumActivations := none
  retryOn := retryOn
  one_le_attempts _ h := by cases h
  one_le_total _ h := by cases h
  one_le_activations _ h := by cases h

/-- `workdir.mode` of a job. -/
inductive WorkdirMode where
  | persistent
  | isolated
deriving DecidableEq

/-- The declaration of a job, as far as its manager's transitions read it. -/
structure JobDefinition where
  dataMode : DataMode
  workdirMode : WorkdirMode
  initialStep : PyStr
  /-- The digest of the stored document. -/
  digest : PyStr
  claimPool : PyStr
  requiredCapabilities : List PyStr
  retryPolicy : RetryPolicy

/-- **The transition a manager asks for.** -/
structure Move where
  kind : StateKind
  frame : StateFrame
  priority : Option Int

/-- `failure`: a failure record of the manager itself. -/
def failure (env : CommitEnv) (code : PyStr) (message : Message) (exitStatus : Option Int) : Json :=
  let details : List (PyStr × Json) := match exitStatus with
    | some n => [("log_paths", .arr [.str "logs/stdio.out"]), ("exit_status", .int n)]
    | none => [("log_paths", .arr [.str "logs/stdio.out"])]
  Failure.asMapping ⟨code, env.render message, some details, false⟩

/-- A value that may be `None`, as a stored member. -/
def orNull (value : Option PyStr) : Json := (value.map Json.str).getD .null

def actionOf (outcome : List (PyStr × Json)) : PyStr :=
  match Json.get outcome "action" with
  | some (.str action) => action
  | _ => ⟨[]⟩

def nestedReason (outcome : List (PyStr × Json)) (key : String) : Except Exc PyStr :=
  match Json.get outcome key with
  | some (.obj value) =>
    match Json.get value "reason" with
    | some (.str reason) => .ok reason
    | _ => raiseFormat [.lit key, .lit " outcome requires a reason"]
  | _ => raiseFormat [.lit key, .lit " outcome requires a reason"]

/-- `attempt_budget_failure`: which budget a further attempt would exceed. -/
def attemptBudgetFailure (job : JobDefinition) (attemptOrdinal totalAttempts : Int) :
    Option String :=
  if job.retryPolicy.maximumAttemptsPerActivation.any (attemptOrdinal > ·) then
    some "maximum_attempts_per_activation exceeded"
  else if job.retryPolicy.maximumTotalAttempts.any (totalAttempts > ·) then
    some "maximum_total_attempts exceeded"
  else none

def retryBudgetAvailable (job : JobDefinition) (state : StateFrame) : Bool :=
  let attempts := state.attemptOrdinal.getD 1
  let total := state.totalAttempts.getD attempts
  if job.retryPolicy.maximumAttemptsPerActivation.any (attempts ≥ ·) then false
  else job.retryPolicy.maximumTotalAttempts.all (total < ·)

/-- `declared_runner_steps`: a malformed declaration is ignored, but a name
that does not encode raises. -/
def declaredRunnerSteps (outcome : List (PyStr × Json)) : Except Exc (Option Json) :=
  match Json.get outcome "runner_steps" with
  | some (.arr items) =>
    match items.mapM (fun item => validateStep (some item) "runner_steps item") with
    | .ok steps => .ok (some (.arr (steps.map Json.str)))
    | .error e => if e.cls = .formatError then .ok none else .error e
  | _ => .ok none

/-- Whether a member is equal to an identifier, which may be `None`. -/
def sameIdentity (value : Option Json) (expected : Option PyStr) : Bool :=
  match expected with
  | some t => Json.optEqStr value t
  | none => match value with
    | none | some .null => true
    | some _ => false

def assemblyRemedy : MessagePart :=
  .lit ("; an outcome must be published by renaming a staged directory onto outcome.ready, "
    ++ "never assembled in place")

/-- `read_outcome` on a decoded document: its format, the three identities
of the attempt, and an action. -/
def readOutcome (document : Except Exc Json) (jobId : PyStr) (state : StateFrame) :
    Except Exc (List (PyStr × Json)) := do
  match ← document with
  | .obj outcome =>
    if ¬(Json.optEqStr (Json.get outcome "format") "httk-workflow-outcome" = true
        ∧ Json.optEqInt (Json.get outcome "format_version") 2 = true) then
      raiseFormat [.lit "outcome must use httk-workflow-outcome version 2", assemblyRemedy]
    else if sameIdentity (Json.get outcome "job_id") (some jobId) = false then
      raiseFormat [.lit "outcome job_id is ", .repr (Json.get outcome "job_id"),
        .lit " but this attempt is ", .repr (some (.str jobId))]
    else if sameIdentity (Json.get outcome "activation_id") state.activationId = false then
      raiseFormat [.lit "outcome activation_id is ", .repr (Json.get outcome "activation_id"),
        .lit " but this attempt is ", .repr (state.activationId.map Json.str)]
    else if sameIdentity (Json.get outcome "attempt_id") state.attemptId = false then
      raiseFormat [.lit "outcome attempt_id is ", .repr (Json.get outcome "attempt_id"),
        .lit " but this attempt is ", .repr (state.attemptId.map Json.str)]
    else
      match Json.get outcome "action" with
      | some (.str _) => .ok outcome
      | _ => raiseFormat [.lit "outcome action must be a string", assemblyRemedy]
  | _ => raiseFormat [.lit "expected JSON object in outcome.json", assemblyRemedy]

/-- One reference of a join, with the label of its spawn entry. -/
def labeledReference (env : CommitEnv) (labels : List (PyStr × PyStr)) : Json → Json
  | .obj reference =>
    match Json.get reference "label" with
    | none | some .null =>
      match labels.lookup (((Json.get reference "job_key").map env.str).getD ⟨[]⟩) with
      | some label => .obj (Dict.set reference "label" (.str label))
      | none => .obj reference
    | some _ => .obj reference
  | raw => raw

/-- `labeled_join`: the join of a waiting frame, its children labelled. -/
def labeledJoin (env : CommitEnv) (labels : List (PyStr × PyStr)) (join : List (PyStr × Json)) :
    List (PyStr × Json) :=
  match Json.get join "children" with
  | some (.arr children) =>
    Dict.set join "children" (.arr (children.map (labeledReference env labels)))
  | _ => join

def retainDeferredPauseProcess (state progress : StateFrame) : Except Exc StateFrame :=
  match state.pauseRequested with
  | none => .ok progress
  | some _ =>
    match state.get .process with
    | some process => .ok (progress.replace [(.process, process)])
    | none => raiseFormat [.lit "a deferred pause requires the committing process identity"]

def withProcess (state frame : StateFrame) : StateFrame :=
  match state.get .process with
  | some process => frame.replace [(.process, process)]
  | none => frame

/-- **`advance`**: the next activation, or the end of the budget for them. -/
def advance (env : CommitEnv) (job : JobDefinition) (state progress : StateFrame)
    (nextStep freshId : PyStr) (reason : String) (joinSummary : Json) (resources : Json)
    (priority : Option Int) : Except Exc Move := do
  let progress ← retainDeferredPauseProcess state progress
  let activationOrdinal := state.activationOrdinal.getD 1 + 1
  if job.retryPolicy.maximumActivations.any (activationOrdinal > ·) then
    .ok ⟨.failed, progress.replace
      [(.failure, failure env "budget_exhausted" [.lit "maximum_activations exceeded"] none),
        (.reason, .str "budget_exhausted")], none⟩
  else
    .ok ⟨.ready, progress.replace
      [(.step, .str nextStep), (.activationId, .str freshId),
        (.activationOrdinal, .int activationOrdinal), (.attemptOrdinal, .int 0),
        (.reason, .str (PyStr.ofString reason)), (.joinSummary, joinSummary),
        (.resources, resources), (.previousAttemptId, orNull state.attemptId)], priority⟩

/-- **`retry`**: another attempt of the activation, or the end of the budget
for them. -/
def retry (env : CommitEnv) (job : JobDefinition) (state progress : StateFrame) (reason : PyStr)
    (unclean : Bool) (takeoverEvidence : Option (List (PyStr × Json))) (priority : Option Int) :
    Except Exc Move := do
  let progress ← retainDeferredPauseProcess state progress
  let currentAttempts := state.attemptOrdinal.getD 1
  if job.retryPolicy.maximumAttemptsPerActivation.any (currentAttempts ≥ ·) then
    .ok ⟨.failed, progress.replace
      [(.failure, failure env "retry_exhausted" [.raw reason] none),
        (.reason, .str "retry_exhausted")], none⟩
  else
    let evidence := takeoverEvidence.getD []
    let retried := progress.replace
      [(.reason, .str reason), (.uncleanRestart, .bool unclean),
        (.unsafePersistentTakeover,
          .bool (Json.optEqStr (Json.get evidence "evidence") "unsafe_persistent_takeover")),
        (.previousAttemptId, orNull state.attemptId)]
    let retried := match takeoverEvidence with
      | some evidence => retried.replace [(.takeoverEvidence, .obj evidence)]
      | none => retried
    .ok ⟨.ready, retried, priority⟩

/-! ## The action of an outcome -/

def progressOf (state : StateFrame) (dataGeneration : Option Int) (runnerSteps : Option Json) :
    StateFrame :=
  let progress := state.carried.replace
    [(.dataGeneration, (dataGeneration.map Json.int).getD .null)]
  match runnerSteps with
  | some steps => progress.replace [(.runnerSteps, steps)]
  | none => progress

/-- The resources an outcome asks for, which only `advance` and `wait` may. -/
def outcomeResources (outcome : List (PyStr × Json)) (action : PyStr) :
    Except Exc (Option (List (PyStr × Json))) :=
  match Json.get outcome "resources" with
  | none => .ok none
  | some value =>
    if action ≠ "advance" ∧ action ≠ "wait" then
      raiseFormat [.lit "outcome resources are only valid for advance or wait"]
    else (validateResources (some value) "outcome.resources").map some

def outcomePriority (outcome : List (PyStr × Json)) (priority : Int) : Except Exc Int :=
  match Json.get outcome "priority" with
  | none | some .null => .ok priority
  | value => requireInt value "outcome.priority" 0 (some 999)

/-- A failure record of the manager for one it cannot read. -/
def malformedFailure (env : CommitEnv) (e : Exc) : Failure :=
  ⟨"protocol_error",
    env.render (.lit "runner published a malformed failure object: " :: e.message),
    some [("log_paths", .arr [.str "logs/stdio.out"])], false⟩

/-- The `fail` action: a retry where the runner declares its failure
retryable and the budget allows it, and `failed` otherwise. -/
def failMove (env : CommitEnv) (job : JobDefinition) (state progress : StateFrame)
    (outcome : List (PyStr × Json)) (priority : Int) : Except Exc Move :=
  match validateFailure (Json.get outcome "failure") "failure" with
  | .ok value =>
    if value.retryable = true ∧ retryBudgetAvailable job state = true then
      retry env job state progress value.code false none (some priority)
    else .ok ⟨.failed, progress.replace
      [(.failure, value.asMapping), (.reason, .str "declared_failure")], some priority⟩
  | .error e =>
    if e.cls = .formatError then
      .ok ⟨.failed, progress.replace
        [(.failure, (malformedFailure env e).asMapping), (.reason, .str "protocol_error")],
        some priority⟩
    else .error e

/-- **The action of an outcome**: the checks of its members and the
transition it asks for. -/
def outcomeMove (env : CommitEnv) (job : JobDefinition) (priority : Int) (state : StateFrame)
    (outcome : List (PyStr × Json)) (dataGeneration : Option Int)
    (labels : Except Exc (List (PyStr × PyStr))) (freshId : PyStr) : Except Exc Move := do
  let action : PyStr := match Json.get outcome "action" with
    | some (.str action) => action
    | _ => ⟨[]⟩
  let resources ← outcomeResources outcome action
  let steps ← declaredRunnerSteps outcome
  let progress ← retainDeferredPauseProcess state (progressOf state dataGeneration steps)
  let priority ← outcomePriority outcome priority
  let resourcesMember := (resources.map Json.obj).getD .null
  if action = "advance" then
    let nextStep ← validateStep (Json.get outcome "next_step") "next_step"
    advance env job state progress nextStep freshId "advance" .null resourcesMember (some priority)
  else if action = "retry" then
    let reason ← nestedReason outcome "retry"
    retry env job state progress reason false none (some priority)
  else if action = "wait" then
    let nextStep ← validateStep (Json.get outcome "next_step") "next_step"
    match Json.get outcome "join" with
    | some (.obj join) =>
      let labels ← labels
      .ok ⟨.waiting, progress.replace
        [(.nextStep, .str nextStep), (.resources, resourcesMember),
          (.join, .obj (labeledJoin env labels join)), (.reason, .str "waiting_for_children")],
        some priority⟩
    | _ => raiseFormat [.lit "wait outcome requires a join object"]
  else if action = "succeed" then
    .ok ⟨.succeeded, progress.replace [(.reason, .str "succeeded")], some priority⟩
  else if action = "fail" then failMove env job state progress outcome priority
  else if action = "pause" then
    .ok ⟨.paused, (withProcess state progress).replace
      [(.pause, (Json.get outcome "pause").getD .null), (.reason, .str "step_paused")],
      some priority⟩
  else raiseFormat [.lit "unsupported outcome action: ", .repr (some (.str action))]

/-- **What an outcome asks for**, once its members are checked: the move its
action makes of the progress. -/
inductive OutcomeAsks (env : CommitEnv) (job : JobDefinition) (state progress : StateFrame)
    (outcome : List (PyStr × Json)) (freshId : PyStr) : Move → Prop where
  | advances {nextStep : PyStr} {resources : Json} {priority : Option Int} {move : Move}
      (hnext : validateStep (Json.get outcome "next_step") "next_step" = .ok nextStep)
      (haction : actionOf outcome = "advance")
      (h : advance env job state progress nextStep freshId "advance" .null resources priority
        = .ok move) :
      OutcomeAsks env job state progress outcome freshId move
  | retries {reason : PyStr} {priority : Option Int} {move : Move}
      (haction : actionOf outcome = "retry" ∨ actionOf outcome = "fail")
      (h : retry env job state progress reason false none priority = .ok move) :
      OutcomeAsks env job state progress outcome freshId move
  | waits (nextStep : PyStr) (resources : Json) (priority : Option Int)
      {join : List (PyStr × Json)} (labels : List (PyStr × PyStr))
      (haction : actionOf outcome = "wait") (hjoin : Json.get outcome "join" = some (.obj join)) :
      OutcomeAsks env job state progress outcome freshId ⟨.waiting, progress.replace
        [(.nextStep, .str nextStep), (.resources, resources),
          (.join, .obj (labeledJoin env labels join)), (.reason, .str "waiting_for_children")],
        priority⟩
  | ends {kind : StateKind} {written : List (Member × Json)} (priority : Option Int)
      (haction : actionOf outcome = "succeed" ∨ actionOf outcome = "fail")
      (hkind : kind = .succeeded ∨ kind = .failed)
      (hother : ∀ m, m ∉ [Member.failure, .reason] → m ∉ written.map Prod.fst)
      (hsucceeds : kind = .succeeded → actionOf outcome = "succeed") :
      OutcomeAsks env job state progress outcome freshId ⟨kind, progress.replace written, priority⟩
  | pauses (pause : Json) (priority : Option Int) :
      OutcomeAsks env job state progress outcome freshId ⟨.paused, (withProcess state progress).replace
        [(.pause, pause), (.reason, .str "step_paused")], priority⟩

variable {outcome : List (PyStr × Json)} {freshId : PyStr}

theorem asks_of_failMove {env : CommitEnv} {job : JobDefinition} {state progress : StateFrame}
    {priority : Int} {move : Move}
    (haction : actionOf outcome = "fail")
    (h : failMove env job state progress outcome priority = .ok move) :
    OutcomeAsks env job state progress outcome freshId move := by
  unfold failMove at h
  split at h
  · split_ifs at h
    · exact .retries (Or.inr haction) h
    · rw [← Except.ok.inj h]
      exact .ends _ (Or.inr haction) (Or.inr rfl) (by simp +contextual) nofun
  · split_ifs at h
    rw [← Except.ok.inj h]
    exact .ends _ (Or.inr haction) (Or.inr rfl) (by simp +contextual) nofun

/-- **The action of an outcome** moves the progress of the activation. -/
theorem asks_of_outcomeMove {env : CommitEnv} {job : JobDefinition} {priority : Int}
    {state : StateFrame} {generation : Option Int}
    {labels : Except Exc (List (PyStr × PyStr))} {move : Move}
    (h : outcomeMove env job priority state outcome generation labels freshId = .ok move) :
    ∃ steps progress, retainDeferredPauseProcess state (progressOf state generation steps) = .ok progress
        ∧ OutcomeAsks env job state progress outcome freshId move := by
  unfold outcomeMove at h
  obtain ⟨resources, -, h⟩ := bind_eq_ok.mp h
  obtain ⟨steps, -, h⟩ := bind_eq_ok.mp h
  obtain ⟨progress, hretained, h⟩ := bind_eq_ok.mp h
  obtain ⟨priority', -, h⟩ := bind_eq_ok.mp h
  refine ⟨steps, progress, hretained, ?_⟩
  simp only at h
  split_ifs at h with hadvance hretry hwait hsucceed hfail
  · obtain ⟨nextStep, hnext, h⟩ := bind_eq_ok.mp h
    exact .advances hnext hadvance h
  · obtain ⟨reason, -, h⟩ := bind_eq_ok.mp h
    exact .retries (Or.inl hretry) h
  · obtain ⟨nextStep, -, h⟩ := bind_eq_ok.mp h
    split at h
    · rename_i join hjoin
      obtain ⟨labels', -, h⟩ := bind_eq_ok.mp h
      rw [← Except.ok.inj h]
      exact .waits _ _ _ labels' hwait hjoin
    · cases h
  · rw [← Except.ok.inj h]
    exact .ends _ (Or.inl hsucceed) (Or.inl rfl) (by simp +contextual) fun _ => hsucceed
  · exact asks_of_failMove hfail h
  · rw [← Except.ok.inj h]
    exact .pauses _ _
  · cases h

/-! ## The transition -/

def pausedBy (requested : List (PyStr × Json)) (frame : StateFrame) : StateFrame :=
  frame.replace
    [(.operator, (Json.get requested "operator").getD .null),
      (.operatorReason, (Json.get requested "reason").getD .null),
      (.requestId, (Json.get requested "request_id").getD .null),
      (.reason, .str "operator_pause_deferred")]

/-- **`TaskManager._transition`**, as far as it decides what is written: a
pause asked for earlier takes the place of `ready` and `waiting`, and no
other frame keeps the request. `reread` is the frame of the marker, if it can
be read. -/
def settle (reread : Option StateFrame) (source : StateKind) (kind : StateKind)
    (updates : StateFrame) : Except Exc (StateKind × StateFrame) :=
  let asked := (kind = .ready ∨ kind = .waiting ∨ kind = .paused)
    ∧ updates.has .pauseRequested = false
  let holder := if asked then reread.getD StateFrame.empty else updates
  let retained := updates.without [.pauseRequested]
  if (kind = .ready ∨ kind = .waiting) ∧ holder.has .pauseRequested = true then
    match holder.pauseRequested with
    | some requested =>
      if source = .committing ∧ retained.has .process = false then
        raiseFormat [.lit "a deferred pause from committing must retain its process identity"]
      else .ok (.paused, pausedBy requested retained)
    | none => .ok (kind, retained)
  else if kind = .paused ∧ holder.has .pauseRequested = true then
    match holder.pauseRequested with
    | some requested => .ok (kind, pausedBy requested retained)
    | none => .ok (kind, retained)
  else if (kind.isTerminal = true ∨ kind = .cancelling) ∧ updates.has .pauseRequested = true then
    .ok (kind, retained)
  else .ok (kind, updates)

/-- Whether a frame can be written into the journal. -/
def StateFrame.storable (env : CommitEnv) (frame : StateFrame) : Prop :=
  ∀ e ∈ frame.members, e.snd.storable env.depth = true

instance (env : CommitEnv) (frame : StateFrame) : Decidable (frame.storable env) :=
  inferInstanceAs (Decidable (∀ e ∈ frame.members, e.snd.storable env.depth = true))

/-- Why a frame cannot be written: it is serialized before its text is encoded. -/
def StateFrame.unstorable (env : CommitEnv) (frame : StateFrame) : Exc :=
  if ∀ e ∈ frame.members, e.snd.nests env.depth = true then
    ⟨.unicodeEncode, [.lit "cannot encode the state frame"]⟩
  else ⟨.recursion, [.lit "maximum recursion depth exceeded"]⟩

/-- **The transition**: the frame is appended to the journal, and then the
marker moves, unless that fails. -/
def transition (env : CommitEnv) (reread : Option StateFrame) (source : StateKind)
    (moves : Except Exc PUnit) (move : Move) : Except Exc Move := do
  let (kind, frame) ← settle reread source move.kind move.frame
  if frame.storable env then
    moves
    .ok ⟨kind, frame, move.priority⟩
  else .error (frame.unstorable env)

/-! ## The pass over a committing job -/

variable {σ : Type}

/-- **What a commit finds in the world.** -/
structure CommitWorld (σ : Type) where
  /-- `outcome.json`, decoded. -/
  document : σ → Except Exc Json
  /-- The replay of the transaction, where one was published. -/
  transaction : σ → Option (Int → Effects σ Exc Bool)
  /-- `register_children`. -/
  children : Effects σ Exc PUnit
  /-- The executor of the job, and what it does before the marker moves. -/
  executor : Option (Except Exc PUnit)
  /-- `spawn_labels`. -/
  labels : Except Exc (List (PyStr × PyStr))
  /-- The activation id made up if one is needed. -/
  freshId : PyStr
  reread : Option StateFrame
  /-- What the rename of the marker comes to. -/
  moves : Except Exc PUnit
  /-- What the rename that records a failure comes to. -/
  records : Except Exc PUnit

/-- **The marker and the job of a committing pass.** -/
structure Committing where
  jobId : PyStr
  priority : Int
  job : JobDefinition
  state : StateFrame

/-- The transaction of an outcome: the data generation after it. -/
def commitTransaction (world : CommitWorld σ) (c : Committing) (outcome : List (PyStr × Json)) :
    Effects σ Exc (Option Int) := do
  let s ← Effects.current
  match world.transaction s with
  | none => pure c.state.dataGeneration
  | some replay =>
    match c.state.dataGeneration with
    | some generation =>
      if c.job.dataMode ≠ .transactional then
        Effects.raise ⟨.transaction, [.lit "transaction published by a nontransactional job"]⟩
      else if Json.optEqInt (Json.get outcome "expected_data_generation") generation = false then
        Effects.raise ⟨.transaction, [.lit "outcome expected_data_generation is stale"]⟩
      else
        let changed ← replay generation
        pure (some (if changed = true then generation + 1 else generation))
    | none =>
      Effects.raise ⟨.transaction, [.lit "transaction published by a nontransactional job"]⟩

/-- **`process_committing`**: the frame the job leaves with, if an executor
serves it here. -/
def processCommitting (env : CommitEnv) (world : CommitWorld σ) (c : Committing) :
    Effects σ Exc (Option Move) := do
  let s ← Effects.current
  let outcome ← Effects.ofExcept (readOutcome (world.document s) c.jobId c.state)
  let dataGeneration ← commitTransaction world c outcome
  world.children
  match world.executor with
  | none => pure none
  | some commitOutcome =>
    Effects.ofExcept commitOutcome
    let move ← Effects.ofExcept (outcomeMove env c.job c.priority c.state outcome dataGeneration
      world.labels world.freshId)
    let moved ← Effects.ofExcept (transition env world.reread .committing world.moves move)
    pure (some moved)

/-- **What a pass over one job comes to.** -/
inductive PassResult where
  | moved (move : Move)
  /-- Another actor moved it first. -/
  | lost
  /-- The pass left it alone and reported why. -/
  | reported
  /-- There is nothing to do yet. -/
  | pending

def attemptFailed (env : CommitEnv) (state : StateFrame) (code : PyStr) (message : Message)
    (exitStatus : Option Int) (takeoverEvidence : Option (List (PyStr × Json))) : StateFrame :=
  let failed := withProcess state (state.carried.replace
    [(.failure, failure env code message exitStatus), (.reason, .str code)])
  match takeoverEvidence with
  | some evidence => failed.replace [(.takeoverEvidence, .obj evidence)]
  | none => failed

/-- What the failure of an attempt asks for: another attempt where the policy
retries its code, and `failed` otherwise. -/
def attemptFailureMove (env : CommitEnv) (job : JobDefinition) (state : StateFrame) (code : PyStr)
    (message : Message) (exitStatus : Option Int) (unclean : Bool)
    (takeoverEvidence : Option (List (PyStr × Json))) : Except Exc Move :=
  if code ∈ job.retryPolicy.retryOn then
    retry env job state state.carried code unclean takeoverEvidence none
  else .ok ⟨.failed, attemptFailed env state code message exitStatus takeoverEvidence, none⟩

/-- **`handle_attempt_failure`**: the failure of an attempt is recorded, and
what that raises is reported. -/
def handleAttemptFailure (env : CommitEnv) (job : JobDefinition) (source : StateKind)
    (readFrame : Except Exc StateFrame) (reread : Option StateFrame) (records : Except Exc PUnit)
    (code : PyStr) (message : Message) (exitStatus : Option Int) (unclean : Bool)
    (takeoverEvidence : Option (List (PyStr × Json))) : Except Exc PassResult :=
  match readFrame >>= fun state =>
      attemptFailureMove env job state code message exitStatus unclean takeoverEvidence
        >>= transition env reread source records with
  | .ok moved => .ok (.moved moved)
  | .error e =>
    if e.cls = .transitionLost then .ok .lost
    else if e.cls.isWorkflowError = true ∨ e.cls.isOSError = true then .ok .reported
    else .error e

def commitFailed (env : CommitEnv) (state : StateFrame) (e : Exc) : Move :=
  let code : PyStr := if e.cls = .transaction then "transaction_corruption" else "protocol_error"
  ⟨.failed, (withProcess state state.carried).replace
    [(.failure, failure env code e.message none), (.reason, .str "commit_failed")], none⟩

/-- What `resume` makes of an exception of `process_committing`. -/
def commitError (env : CommitEnv) (world : CommitWorld σ) (c : Committing) (e : Exc) :
    Except Exc PassResult :=
  if e.cls = .transitionLost then .ok .lost
  else if e.cls = .formatError ∨ e.cls = .transaction then
    match transition env world.reread .committing world.records (commitFailed env c.state e) with
    | .ok moved => .ok (.moved moved)
    | .error e' => if e'.cls = .transitionLost then .ok .lost else .error e'
  else if e.cls.isWorkflowError = true ∨ e.cls.isOSError = true then .ok .reported
  else .error e

/-- **`resume`**, for one committing job. -/
def resume (env : CommitEnv) (world : CommitWorld σ) (c : Committing) : Effects σ Exc PassResult := do
  if world.executor.isNone then pure .pending
  else
    match ← Effects.attempt (processCommitting env world c) with
    | .ok (some moved) => pure (.moved moved)
    | .ok none => pure .pending
    | .error e => Effects.ofExcept (commitError env world c e)

/-- **A commit that goes through** read an outcome of the attempt, and wrote
what its action asks for. -/
theorem processCommitting_moved {env : CommitEnv} {world : CommitWorld σ} {c : Committing}
    {moved : Move} {f g : σ} (h : (processCommitting env world c).Returns f (some moved) g) :
    ∃ outcome generation replayed registered move, readOutcome (world.document f) c.jobId c.state = .ok outcome
        ∧ (commitTransaction world c outcome).Returns f generation replayed
        ∧ world.children.Returns replayed ⟨⟩ registered ∧ world.executor = some (.ok ⟨⟩)
        ∧ outcomeMove env c.job c.priority c.state outcome generation world.labels world.freshId = .ok move
        ∧ transition env world.reread .committing world.moves move = .ok moved := by
  unfold processCommitting at h
  rw [Effects.returns_current_bind] at h
  obtain ⟨outcome, f₁, ⟨hread, rfl⟩, h⟩ := Effects.returns_bind.mp h
  obtain ⟨generation, replayed, htransaction, h⟩ := Effects.returns_bind.mp h
  obtain ⟨u, registered, hchildren, h⟩ := Effects.returns_bind.mp h
  split at h
  · cases (Effects.returns_pure.mp h).1
  · rename_i commitOutcome hexecutor
    obtain ⟨v, f₄, hcommit, h⟩ := Effects.returns_bind.mp h
    obtain ⟨move, f₅, hmove, h⟩ := Effects.returns_bind.mp h
    obtain ⟨moved', f₆, htransition, h⟩ := Effects.returns_bind.mp h
    obtain ⟨heq, -⟩ := Effects.returns_pure.mp h
    obtain rfl := Option.some.inj heq
    refine ⟨outcome, generation, replayed, registered, move, hread, htransaction, hchildren, ?_,
      hmove.1, htransition.1⟩
    rw [hexecutor]
    exact congrArg some (Effects.returns_ofExcept.mp hcommit).1

/-! ## What a frame keeps -/

section Keeps

variable {env : CommitEnv} {job : JobDefinition} {state progress frame : StateFrame} {m : Member}
variable {move moved : Move}

theorem has_of_pauseRequested {frame : StateFrame} (h : frame.pauseRequested.isSome = true) :
    frame.has .pauseRequested = true := by
  unfold StateFrame.has
  cases hget : frame.get .pauseRequested with
  | some value => rfl
  | none =>
    have hnone : frame.pauseRequested = none := by
      show frame.mapping .pauseRequested = none
      unfold StateFrame.mapping
      rw [hget]
    rw [hnone] at h
    cases h

theorem get_withProcess (hm : m ≠ .process) : (withProcess state progress).get m = progress.get m := by
  unfold withProcess
  cases state.get .process with
  | none => rfl
  | some process => exact StateFrame.get_replace_other (by simpa using hm) progress

theorem get_retained (hm : m ≠ .process)
    (h : retainDeferredPauseProcess state progress = .ok frame) : frame.get m = progress.get m := by
  unfold retainDeferredPauseProcess at h
  cases hp : state.pauseRequested with
  | none =>
    rw [hp] at h
    rw [Except.ok.inj h]
  | some requested =>
    rw [hp] at h
    cases hprocess : state.get .process with
    | none =>
      rw [hprocess] at h
      cases h
    | some process =>
      rw [hprocess] at h
      rw [← Except.ok.inj h]
      exact StateFrame.get_replace_other (by simpa using hm) progress

/-- The members `_transition` writes of its own. -/
def pauseMembers : List Member := [.pauseRequested, .operator, .operatorReason, .requestId, .reason]

theorem get_without_pause (hm : m ∉ pauseMembers) : (progress.without [.pauseRequested]).get m = progress.get m := by
  rw [StateFrame.get_without, if_neg]
  intro h
  rw [List.mem_singleton.mp h] at hm
  exact hm List.mem_cons_self

theorem get_pausedBy {requested : List (PyStr × Json)} (hm : m ∉ pauseMembers) :
    (pausedBy requested progress).get m = progress.get m := by
  refine StateFrame.get_replace_other ?_ progress
  exact fun h => hm (List.mem_cons_of_mem _ h)

variable {source kind kind' : StateKind} {reread : Option StateFrame}

/-- **What a transition writes** is what was asked for, without a request to
pause, or the pause that was requested. -/
theorem settle_cases (h : settle reread source kind progress = .ok (kind', frame)) :
    (kind' = kind ∧ (frame = progress ∨ frame = progress.without [.pauseRequested]))
      ∨ (kind' = .paused ∧ (kind = .ready ∨ kind = .waiting ∨ kind = .paused)
        ∧ ∃ holder requested, (holder = progress ∨ holder = reread.getD StateFrame.empty)
          ∧ holder.pauseRequested = some requested
          ∧ frame = pausedBy requested (progress.without [.pauseRequested])) := by
  unfold settle at h
  simp only at h
  split_ifs at h with hasked hnext hpaused hends hnext hpaused hends
  all_goals try
    obtain ⟨rfl, rfl⟩ := Prod.mk.inj (Except.ok.inj h)
    simp
  all_goals
    split at h
    · rename_i hrequested
      try split_ifs at h
      all_goals try cases h
      all_goals exact Or.inr ⟨by tauto, by tauto, _, _, by tauto, hrequested, rfl⟩
    · obtain ⟨rfl, rfl⟩ := Prod.mk.inj (Except.ok.inj h)
      exact Or.inl ⟨rfl, Or.inr rfl⟩

/-- **A transition keeps** every member but those of a deferred pause. -/
theorem settle_get (hm : m ∉ pauseMembers) (h : settle reread source kind progress = .ok (kind', frame)) :
    frame.get m = progress.get m := by
  rcases settle_cases h with ⟨-, rfl | rfl⟩ | ⟨-, -, holder, requested, -, -, rfl⟩
  · rfl
  · exact get_without_pause hm
  · exact (get_pausedBy hm).trans (get_without_pause hm)

/-- The members `advance` writes. -/
def advanceMembers : List Member :=
  [.process, .failure, .reason, .step, .activationId, .activationOrdinal, .attemptOrdinal,
    .joinSummary, .resources, .previousAttemptId]

variable {priority : Option Int}

/-- **The next activation keeps** what it does not set. -/
theorem advance_keeps {nextStep freshId : PyStr} {reason : String} {joinSummary resources : Json}
    (hm : m ∉ advanceMembers)
    (h : advance env job state progress nextStep freshId reason joinSummary resources priority
      = .ok move) : move.frame.get m = progress.get m := by
  unfold advance at h
  obtain ⟨retained, hretained, h⟩ := bind_eq_ok.mp h
  have hprocess : m ≠ .process := fun heq => hm (heq ▸ List.mem_cons_self)
  have hbase : retained.get m = progress.get m := get_retained hprocess hretained
  simp only at h
  split_ifs at h
  all_goals
    rw [← Except.ok.inj h, ← hbase]
    refine StateFrame.get_replace_other (fun hmem => hm ?_) retained
    simp only [List.map_cons, List.map_nil] at hmem
    revert hmem
    cases m <;> decide

/-- The members `retry` writes. -/
def retryMembers : List Member :=
  [.process, .failure, .reason, .uncleanRestart, .unsafePersistentTakeover, .previousAttemptId,
    .takeoverEvidence]

/-- **Another attempt keeps** what it does not set. -/
theorem retry_keeps {reason : PyStr} {unclean : Bool} {evidence : Option (List (PyStr × Json))}
    (hm : m ∉ retryMembers)
    (h : retry env job state progress reason unclean evidence priority = .ok move) :
    move.frame.get m = progress.get m := by
  unfold retry at h
  obtain ⟨retained, hretained, h⟩ := bind_eq_ok.mp h
  have hprocess : m ≠ .process := fun heq => hm (heq ▸ List.mem_cons_self)
  have hbase : retained.get m = progress.get m := get_retained hprocess hretained
  have hother : ∀ {written : List (Member × Json)} (base : StateFrame),
      written.map Prod.fst ⊆ retryMembers → (base.replace written).get m = base.get m :=
    fun base hsub => StateFrame.get_replace_other (fun hmem => hm (hsub hmem)) base
  simp only at h
  split_ifs at h
  · rw [← Except.ok.inj h, ← hbase]
    exact hother retained (by simp [retryMembers])
  · rw [← Except.ok.inj h, ← hbase]
    cases evidence with
    | none => exact hother retained (by simp [retryMembers])
    | some evidence =>
      exact (hother _ (by simp [retryMembers])).trans (hother retained (by simp [retryMembers]))

end Keeps

/-! ## An interpreter -/

def plainPiece : MessagePart → PyStr
  | .lit s => s
  | .raw s => s
  | .repr _ => "value"
  | .num n => toString n
  | .path parts => ⟨parts.flatMap PyStr.codes⟩

theorem encodable_plainPiece (p : MessagePart) : (plainPiece p).encodable = p.encodable := by
  cases p with
  | path parts =>
    show (parts.flatMap PyStr.codes).all _ = parts.all PyStr.encodable
    rw [List.all_flatMap]
    rfl
  | raw s => rfl
  | _ => exact PyStr.encodable_ofString _

def plainCommitEnv : CommitEnv where
  depth := 100
  str
    | .str t => t
    | _ => "value"
  render m := ⟨m.flatMap fun p => (plainPiece p).codes⟩
  uuid := some
  three_le_depth := by decide
  encodable_render m := by
    show (m.flatMap fun p => (plainPiece p).codes).all _ = m.all MessagePart.encodable
    rw [List.all_flatMap]
    exact congrArg m.all (funext encodable_plainPiece)
