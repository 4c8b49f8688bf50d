import HttkWorkflow.AttemptEvidence
import HttkWorkflow.OutcomePasses

/-!
# Runs of one job

A job moves by transitions, each of which some actor makes from the marker it
read: a manager that registers, claims, launches, fences, commits, evaluates
a join, recovers or cancels, or applies a request of an operator. The rename
of the marker succeeds only for an actor whose marker is still there, and a
frame never changes once it is written, so that a transition is a function of
the current kind and frame and of what else the actor found. Actors that
crash, and actors whose marker is gone, make no transition.

`JobState` is the kind and the frame with the history of the run beside them:
the identities that were handed out, the running frame a commit was fenced
from, the outcomes that were applied, the attempts that ended otherwise, and
the true numbers of activations, claims and launches. No transition reads
those.
-/

/-! ## Registration, claims and launches -/

def registered (job : JobDefinition) (freshId : PyStr) : StateFrame :=
  StateFrame.empty.replace
    [(.step, .str job.initialStep), (.activationId, .str freshId), (.activationOrdinal, .int 1),
      (.attemptOrdinal, .int 0), (.totalAttempts, .int 0),
      (.dataGeneration, if job.dataMode = .transactional then .int 0 else .null),
      (.reason, .str "submitted"), (.jobDigest, .str job.digest)]

def submissionInvalid (env : CommitEnv) (message : Message) : StateFrame :=
  StateFrame.empty.replace
    [(.failure, failure env "protocol_error" message none), (.dataGeneration, .null),
      (.reason, .str "submission_invalid")]

/-- **What a manager claims with.** -/
structure Claimer where
  managerId : PyStr
  writerId : PyStr
  claimId : PyStr
  attemptId : PyStr
  /-- The requirement that is reserved, and the lease. -/
  requirement : Json
  leaseSeconds : Json

/-- The members a claim writes. -/
def claimed (job : JobDefinition) (state : StateFrame) (claimer : Claimer)
    (attemptOrdinal totalAttempts : Int) : StateFrame :=
  state.carried.replace
    [(.managerId, .str claimer.managerId), (.writerId, .str claimer.writerId),
      (.claimId, .str claimer.claimId), (.attemptId, .str claimer.attemptId),
      (.attemptControl, .str (PyStr.ofString "attempts/" ++ claimer.attemptId)),
      (.attemptOrdinal, .int attemptOrdinal), (.totalAttempts, .int totalAttempts),
      (.resources, claimer.requirement), (.leaseSeconds, claimer.leaseSeconds),
      (.matchedPool, .str job.claimPool),
      (.matchedCapabilities, .arr ((job.requiredCapabilities.mergeSort
        (fun a b => decide (a.codes ≤ b.codes))).map Json.str)),
      (.reason, .str (state.reason.getD "claim"))]

/-- **`_claim_and_launch`**, up to the launch: the budgets are tested before
the claim. -/
def claimMove (env : CommitEnv) (job : JobDefinition) (state : StateFrame) (claimer : Claimer) :
    Move :=
  if state.has .pauseRequested = true then
    ⟨.ready, state.carried.replace [(.reason, .str "pause_requested")], none⟩
  else
    let attemptOrdinal := state.attemptOrdinal.getD 0 + 1
    let totalAttempts := state.totalAttempts.getD 0 + 1
    match attemptBudgetFailure job attemptOrdinal totalAttempts with
    | some text => ⟨.failed, state.carried.replace
        [(.failure, failure env "budget_exhausted" [.lit text] none),
          (.reason, .str "budget_exhausted")], none⟩
    | none => ⟨.claimed, claimed job state claimer attemptOrdinal totalAttempts, none⟩

/-- **`_release_claim`**: a claim is given back, and not counted. -/
def releaseMove (state : StateFrame) (reason : PyStr) : Move :=
  ⟨.ready, state.carried.replace
    [(.reason, .str reason), (.attemptOrdinal, .int (max 0 (state.attemptOrdinal.getD 1 - 1))),
      (.totalAttempts, .int (max 0 (state.totalAttempts.getD 1 - 1)))], none⟩

/-- **What a manager launches with.** -/
structure Launcher where
  managerId : PyStr
  writerId : PyStr
  leaseSeconds : Json
  startedAt : PyStr
  workdir : PyStr
  /-- The launcher that was started, which leads its own group. -/
  pid : Int
  hostname : PyStr
  launchedAt : PyStr

def Launcher.process (launcher : Launcher) : Json :=
  .obj [("pid", .int launcher.pid), ("process_group", .int launcher.pid),
    ("hostname", .str launcher.hostname), ("launched_at", .str launcher.launchedAt)]

/-- The transition of `_launch_claimed` to `running`. -/
def launchMove (env : CommitEnv) (state : StateFrame) (launcher : Launcher) : Except Exc Move := do
  let control ← attemptControl env state
  match state.attemptId, control with
  | some attemptId, some control =>
    .ok ⟨.running, state.carried.replace
      [(.managerId, .str launcher.managerId), (.writerId, .str launcher.writerId),
        (.attemptId, .str attemptId), (.leaseSeconds, launcher.leaseSeconds),
        (.startedAt, .str launcher.startedAt), (.workdir, .str launcher.workdir),
        (.attemptControl, .str control), (.process, launcher.process),
        (.reason, .str "launched")], none⟩
  | _, _ =>
    raiseFormat [.lit "a claimed frame must name its attempt and attempt control directory"]

/-! ## Requests and cancellations -/

/-- **A request of an operator**, as far as its action reads it. -/
structure OperatorRequest where
  action : Option Json
  operator : Json
  reason : Json
  requestId : Json
  /-- `created_at`, or the time. -/
  requestedAt : PyStr
  priority : Option Json
  step : Option Json
  force : Bool
  /-- The key of a valid signature. -/
  operatorKey : Option PyStr
  /-- The hazard of reviving a child its parent has joined on. -/
  hazard : Option (List (PyStr × Json))
  /-- The time, and the activation id made up if one is needed. -/
  utcNow : PyStr
  freshId : PyStr

/-- The members of a frame with the names of the operator and the request. -/
def audited (base : StateFrame) (request : OperatorRequest) : StateFrame :=
  let named := base.replace [(.operator, request.operator), (.operatorReason, request.reason),
    (.requestId, request.requestId)]
  match request.operatorKey with
  | some key => named.replace [(.operatorKey, .str key)]
  | none => named

/-- `request_cancel`: a running attempt is fenced first. -/
def requestCancel (kind : StateKind) (state : StateFrame) (request : OperatorRequest) :
    Option Move :=
  let audit := audited (state.select cancellingMembers) request
  if kind = .cancelling then none
  else if kind = .running then
    some ⟨.cancelling, audit.replace [(.reason, .str "operator_cancel")], none⟩
  else
    some ⟨.cancelled, audit.replace
      [(.cancellation, .obj [("verified", .str "no_live_attempt"), ("from_kind", .str kind.word),
          ("verified_at", .str request.utcNow)]),
        (.reason, .str "operator_cancel")], none⟩

/-- What `set_priority` keeps besides what is carried. -/
def preservedMembers : List Member :=
  [.join, .joinSummary, .nextStep, .pause, .pauseRequested, .failure]

/-- The audit of a request that accepts the hazard of reviving its job. -/
def withHazard (audit : StateFrame) (request : OperatorRequest) : StateFrame :=
  match request.hazard with
  | some hazard => audit.replace [(.revivalHazard, .obj hazard)]
  | none => audit

/-- What `continue` and `override_step` ask for. -/
def revive (env : CommitEnv) (job : JobDefinition) (state audit : StateFrame)
    (request : OperatorRequest) (continues : Bool) : Except Exc Move :=
  if continues = true then
    if state.activationId.isNone = true then
      raiseFormat [.lit "job has no runnable activation to continue"]
    else retry env job state audit "manual_continue" false none none
  else do
    let step ← validateStep request.step "request.step"
    advance env job state audit step request.freshId "operator_override_step" .null .null none

/-- What an action is refused with that is none of these. An array and an object are no
members of a set: `in` raises on them. -/
def refusedAction (action : Option Json) (kind : StateKind) : Exc :=
  match action with
  | some (.arr _) | some (.obj _) => ⟨.typeError, [.lit "unhashable type"]⟩
  | _ => ⟨.formatError, [.lit "request action ", .repr action, .lit " is invalid from state ",
      .raw kind.word]⟩

/-- **`apply`**: the transition a request asks for, if it asks for one. -/
def applyRequest (env : CommitEnv) (job : JobDefinition) (kind : StateKind) (state : StateFrame)
    (request : OperatorRequest) : Except Exc (Option Move) :=
  let asks := fun action : String => Json.optEqStr request.action (PyStr.ofString action)
  let audit := audited state.carried request
  if asks "cancel" = true ∧ kind.isTerminal = false then
    .ok (requestCancel kind state request)
  else if asks "set_priority" = true
      ∧ kind ∈ [StateKind.submitted, .ready, .waiting, .paused, .failed] then do
    let priority ← intOf (request.priority.getD (.int (-1)))
    .ok (some ⟨kind, (audit.replace (state.select preservedMembers).members).replace
      [(.reason, .str "operator_priority")], some priority⟩)
  else if asks "pause" = true ∧ kind ∈ [StateKind.claimed, .running, .committing] then
    .ok (some ⟨kind, state.replace
      [(.pauseRequested, .obj [("operator", request.operator), ("reason", request.reason),
        ("request_id", request.requestId), ("requested_at", .str request.requestedAt)])], none⟩)
  else if asks "pause" = true ∧ kind ∈ [StateKind.submitted, .ready, .waiting] then
    .ok (some ⟨.paused, audit.replace [(.reason, .str "operator_pause")], none⟩)
  else if asks "pause" = true ∧ kind = .paused then .ok none
  else if (asks "continue" = true ∨ asks "override_step" = true)
      ∧ (kind = .failed ∨ kind = .paused) then
    if request.hazard.isSome = true ∧ request.force = false then .ok none
    else
      (revive env job state (withHazard audit request) request (asks "continue")).map some
  else .error (refusedAction request.action kind)

/-! ## The steps of a run -/

variable {σ : Type}

/-- **A transition some actor makes**, with what it found besides the marker. -/
inductive JobStep (σ : Type) where
  | register (freshId : PyStr)
  | refuseSubmission (message : Message)
  | claim (claimer : Claimer)
  /-- A claim is given back: by its owner under a maintenance lock, or by
  another manager once it is abandoned or a pause was asked for. -/
  | release (reason : PyStr)
  /-- The claimer launches the attempt, with the marker its claim returned. -/
  | launch (launcher : Launcher)
  /-- The attempt could not be prepared or launched, ended without an outcome,
  or published an unusable one. -/
  | fail (code : PyStr) (message : Message) (exitStatus : Option Int)
  | takeover (world : TakeoverWorld)
  | fence (world : PollWorld) (document : Except Exc Json)
  | apply (world : CommitWorld σ) (files : σ)
  | failCommit (error : Exc)
  | evaluate (world : JoinWorld)
  | request (asked : OperatorRequest)
  /-- The pass over a job that is being cancelled. -/
  | pursue (world : CancelWorld)

/-- **An outcome that was applied**, with the running frame its commit was
fenced from. -/
structure AppliedOutcome where
  outcome : List (PyStr × Json)
  fencedFrom : Option StateFrame

/-- **The state of a job**, and the history of its run. -/
structure JobState where
  kind : StateKind
  frame : StateFrame
  priority : Int
  /-- The ready frame of the claim that wrote the current marker, if one did.
  Only the claimer has both, and launches with them. -/
  previousState : Option StateFrame
  /-- The activation and attempt ids that were made up. -/
  issued : List PyStr
  /-- The running frame the current commit was fenced from. -/
  fencedFrom : Option StateFrame
  /-- The attempts that left `running` other than through a commit. -/
  abandoned : List PyStr
  applied : List AppliedOutcome
  wasRegistered : Bool
  /-- How many activations were begun, and claims made and not released, and
  attempts launched; the last two also of the current activation. -/
  activations : Nat
  claims : Nat
  claimsHere : Nat
  launches : Nat
  launchesHere : Nat

def JobState.submitted (priority : Int) : JobState where
  kind := .submitted
  frame := StateFrame.empty
  priority := priority
  previousState := none
  issued := []
  fencedFrom := none
  abandoned := []
  applied := []
  wasRegistered := false
  activations := 0
  claims := 0
  claimsHere := 0
  launches := 0
  launchesHere := 0

/-- The id a step makes up, if any. -/
def JobStep.fresh : JobStep σ → Option PyStr
  | .register freshId => some freshId
  | .claim claimer => some claimer.attemptId
  | .apply world _ => some world.freshId
  | .evaluate world => some world.freshId
  | .request asked => some asked.freshId
  | _ => none

/-- What a step commits to, apart from the checks it makes: `none` where the
actor makes no transition. -/
def committed (result : Except Exc PassResult) : Option Move :=
  match result with
  | .ok (.moved moved) => some moved
  | _ => none

@[simp] theorem committed_eq_some {result : Except Exc PassResult} {moved : Move} :
    committed result = some moved ↔ result = .ok (.moved moved) := by
  unfold committed
  split
  · simp
  · rename_i hother
    exact ⟨fun h => (by cases h), fun h => absurd h (hother moved)⟩

section Steps

variable (env : JoinEnv) (job : JobDefinition) (jobId : PyStr)

/-- The transition to a frame, with the marker read again or not. -/
def moveTo (s : JobState) (reread : Bool) (move : Move) : Option Move :=
  (transition env.toCommitEnv (if reread then some s.frame else none) s.kind (.ok ⟨⟩) move).toOption

/-- **What a step writes**, from the kind and the frame of the marker.
`reread` is whether the transition can read the frame once more. -/
def written (s : JobState) (reread : Bool) : JobStep σ → Option Move
  | .register freshId =>
    if s.kind = .submitted then moveTo env s reread ⟨.ready, registered job freshId, none⟩ else none
  | .refuseSubmission message =>
    if s.kind = .submitted then
      moveTo env s reread ⟨.failed, submissionInvalid env.toCommitEnv message, none⟩
    else none
  | .claim claimer =>
    if s.kind = .ready then moveTo env s reread (claimMove env.toCommitEnv job s.frame claimer)
    else none
  | .release reason =>
    if s.kind = .claimed then moveTo env s reread (releaseMove s.frame reason) else none
  | .launch launcher =>
    if s.previousState.isSome = true then
      (launchMove env.toCommitEnv s.frame launcher).toOption.bind (moveTo env s reread)
    else none
  | .fail code message exitStatus =>
    if s.previousState.isSome = true ∨ s.kind = .running then
      (attemptFailureMove env.toCommitEnv job s.frame code message exitStatus true
        none).toOption.bind (moveTo env s reread)
    else none
  | .takeover world =>
    if s.kind = .running then
      (takeoverMove env.toCommitEnv world job s.frame).toOption.join.bind (moveTo env s reread)
    else none
  | .fence world document =>
    if s.kind = .running then (beginCommit env.toCommitEnv world jobId s.frame document).toOption
    else none
  | .apply world files =>
    if s.kind = .committing then
      (processCommitting env.toCommitEnv world ⟨jobId, s.priority, job, s.frame⟩
        files).snd.toOption.join
    else none
  | .failCommit error =>
    if s.kind = .committing then
      moveTo env s reread (commitFailed env.toCommitEnv s.frame error)
    else none
  | .evaluate world =>
    if s.kind = .waiting then committed (evaluateJoins env world job s.frame) else none
  | .request asked =>
    (applyRequest env.toCommitEnv job s.kind s.frame asked).toOption.join.bind (moveTo env s reread)
  | .pursue world =>
    if s.kind = .cancelling then
      (finishCancellation world s.frame).toOption.join.bind (moveTo env s reread)
    else none

def appliedBy (s : JobState) : JobStep σ → List AppliedOutcome
  | .apply world files =>
    match readOutcome (world.document files) jobId s.frame with
    | .ok outcome => [⟨outcome, s.fencedFrom⟩]
    | .error _ => []
  | _ => []

/-- Whether a step is the fence into `committing`. -/
def JobStep.isFence : JobStep σ → Bool
  | .fence _ _ => true
  | _ => false

/-- Whether a step gives a claim back. -/
def JobStep.isRelease : JobStep σ → Bool
  | .release _ => true
  | _ => false

def JobStep.isRegister : JobStep σ → Bool
  | .register _ => true
  | _ => false

/-- **The job after a transition**, the history included. -/
def JobState.after (s : JobState) (step : JobStep σ) (moved : Move) : JobState :=
  let begins := moved.frame.activationId ≠ s.frame.activationId
  let claims := s.kind = .ready ∧ moved.kind = .claimed
  let launches := s.kind = .claimed ∧ moved.kind = .running
  let count := fun (happens : Prop) [Decidable happens] (n : Nat) => if happens then n + 1 else n
  let released := fun n : Nat => if step.isRelease = true then n - 1 else n
  { kind := moved.kind
    frame := moved.frame
    priority := moved.priority.getD s.priority
    previousState := if claims then some s.frame else none
    issued := step.fresh.toList ++ s.issued
    fencedFrom :=
      if step.isFence = true then some s.frame
      else if moved.kind = .committing then s.fencedFrom else none
    abandoned :=
      if s.kind = .running ∧ moved.kind ≠ .running ∧ step.isFence = false then
        s.frame.attemptId.toList ++ s.abandoned
      else s.abandoned
    applied := appliedBy jobId s step ++ s.applied
    wasRegistered := s.wasRegistered || step.isRegister
    activations := count begins s.activations
    claims := released (count claims s.claims)
    claimsHere := if begins then 0 else released (count claims s.claimsHere)
    launches := count launches s.launches
    launchesHere := if begins then 0 else count launches s.launchesHere }

@[simp] theorem after_kind (s : JobState) (step : JobStep σ) (moved : Move) :
    (s.after jobId step moved).kind = moved.kind := rfl

@[simp] theorem after_frame (s : JobState) (step : JobStep σ) (moved : Move) :
    (s.after jobId step moved).frame = moved.frame := rfl

/-- **One transition of a run.** An id that is made up is new and not empty. -/
def jobNext (s : JobState) (step : JobStep σ × Bool) : Option JobState :=
  if ∀ id, step.fst.fresh = some id → id ∉ s.issued ∧ id.codes ≠ [] then
    (written env job jobId s step.snd step.fst).map (s.after jobId step.fst)
  else none

/-- **The runs of a job** from its submission. -/
def jobRuns : System JobState (JobStep σ × Bool) :=
  System.ofNext (fun s => ∃ priority, s = JobState.submitted priority) (jobNext env job jobId)

end Steps

/-! ## Runs with nothing in their way -/

def plainClaim (attemptId : PyStr) : JobStep PUnit :=
  .claim ⟨"m1", "w1", "c1", attemptId, .obj [], .int 60⟩

def plainLaunch : JobStep PUnit := .launch ⟨"m1", "w1", .int 60, "now", "work", 7, "host", "now"⟩

def plainTakeover : TakeoverWorld where
  hostname := "host"
  kill _ := .noProcess
  heartbeatAge := none
  leaseSeconds := 60
  takeoverGraceFactor := 2
  unsafePersistentTakeover := false
  unsafeIsolatedTakeover := false

def plainApply (document : Json) (freshId : PyStr) : JobStep PUnit :=
  .apply { plainCommit with document := fun _ => .ok document, freshId := freshId } ⟨⟩

def plainRequest (action : String) : OperatorRequest where
  action := some (.str (PyStr.ofString action))
  operator := .str "o"
  reason := .null
  requestId := .str "r"
  requestedAt := "now"
  priority := some (.int 50)
  step := some (.str "first")
  force := false
  operatorKey := none
  hazard := none
  utcNow := "now"
  freshId := ⟨"u-".toList.map Char.toNat ++ action.toList.map Char.toNat⟩

def plainRun (job : JobDefinition) (steps : List (JobStep PUnit)) : Option JobState :=
  System.follow (jobNext plainJoinEnv job "job") (JobState.submitted 100) (steps.map (·, true))

theorem reachable_of_plainRun {job : JobDefinition} {steps : List (JobStep PUnit)} {s : JobState}
    (h : plainRun job steps = some s) :
    (jobRuns (σ := PUnit) plainJoinEnv job "job").Reachable s :=
  (System.run_of_follow h).reachable (System.Reachable.init ⟨100, rfl⟩)
