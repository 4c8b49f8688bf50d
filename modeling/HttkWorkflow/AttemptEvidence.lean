import HttkWorkflow.Commit

/-!
# What is known of an attempt's process

A running frame records the process of its attempt: the pid of the leader,
the process group, the host and the time. Two decisions rest on it. A
manager that finds the lease of a running job expired asks whether the
writer of the attempt is dead before it takes the job over, and a manager
that pursues a cancellation asks whether the attempt has stopped before it
lets the job be cancelled.

Both ask by signal 0, and both can ask only on the recorded host. They do not
ask the same question: a takeover probes the leader (`attemptWriterDead`),
a cancellation the whole group (`processGroupAlive`). Times are rationals in
place of floats.
-/

/-! ## The recorded process -/

/-- **A recorded process identity.** -/
structure ProcessIdentity where
  pid : Int
  processGroup : Int
  hostname : PyStr
  launchedAt : PyStr
deriving DecidableEq

/-- `validate_process`: the identity, where all four members have their types. -/
def validateProcess : Option Json → Option ProcessIdentity
  | some (.obj value) =>
    match Json.get value "pid", Json.get value "process_group", Json.get value "hostname",
      Json.get value "launched_at" with
    | some (.int pid), some (.int processGroup), some (.str hostname), some (.str launchedAt) =>
      if 0 < pid ∧ 0 < processGroup ∧ hostname.codes ≠ [] ∧ launchedAt.codes ≠ [] then
        some ⟨pid, processGroup, hostname, launchedAt⟩
      else none
    | _, _, _, _ => none
  | _ => none

/-- **What a signal comes to**: it reaches a process, there is none, or it may
not be sent, or the call fails otherwise. -/
inductive SignalResult where
  | delivered
  | noProcess
  | notPermitted
  | raised (e : Exc)

/-- `_attempt_writer_dead`: the leader is gone from this host. -/
def attemptWriterDead (hostname : PyStr) (kill : Int → SignalResult) (state : StateFrame) :
    Except Exc Bool :=
  match validateProcess (state.get .process) with
  | none => .ok false
  | some process =>
    if process.hostname ≠ hostname then .ok false
    else
      match kill process.pid with
      | .noProcess => .ok true
      | .delivered | .notPermitted => .ok false
      | .raised e => .error e

def processGroupAlive (killpg : Int → SignalResult) (processGroup : Int) : Except Exc Bool :=
  match killpg processGroup with
  | .noProcess => .ok false
  | .delivered | .notPermitted => .ok true
  | .raised e => if e.cls.isOSError = true then .ok true else .error e

/-! ## The takeover of an attempt -/

/-- `age <= self`. -/
def PyFloat.covers : PyFloat → Rat → Bool
  | .finite q, age => age ≤ q
  | .inf negative, _ => !negative
  | .nan, _ => false

/-- `age >= self`. -/
def PyFloat.passedBy : PyFloat → Rat → Bool
  | .finite q, age => q ≤ age
  | .inf negative, _ => negative
  | .nan, _ => false

/-- `self * factor`, for a positive factor. -/
def PyFloat.times (factor : Rat) : PyFloat → PyFloat
  | .finite q => .finite (q * factor)
  | x => x

/-- **What a manager finds** at a running job that is not its own and has no
outcome. -/
structure TakeoverWorld where
  hostname : PyStr
  /-- `os.kill(pid, 0)`. -/
  kill : Int → SignalResult
  /-- The age of the heartbeat of the manager the frame names. -/
  heartbeatAge : Option Rat
  /-- The policy of the manager that looks. -/
  leaseSeconds : Rat
  takeoverGraceFactor : Rat
  unsafePersistentTakeover : Bool
  unsafeIsolatedTakeover : Bool

/-- The lease in force: that of the frame, or else that of the manager. -/
def TakeoverWorld.leaseOf (world : TakeoverWorld) (state : StateFrame) : PyFloat :=
  match state.get .leaseSeconds with
  | some (.int n) => .finite n
  | some (.float x) => x
  | _ => .finite world.leaseSeconds

/-- The heartbeat age, as it is recorded. -/
def TakeoverWorld.age (world : TakeoverWorld) : Json :=
  (world.heartbeatAge.map fun age => Json.float (.finite age)).getD .null

/-- **`_takeover_evidence`**: why the attempt may be replaced, if it may. -/
def takeoverEvidence (world : TakeoverWorld) (job : JobDefinition) (state : StateFrame) :
    Except Exc (Option (List (PyStr × Json))) := do
  if ← attemptWriterDead world.hostname world.kill state then
    .ok (some [("evidence", .str "writer_process_dead"), ("heartbeat_age_seconds", world.age)])
  else if job.workdirMode = .persistent then
    if world.unsafePersistentTakeover = true then
      .ok (some [("evidence", .str "unsafe_persistent_takeover"),
        ("heartbeat_age_seconds", world.age), ("unsafe", .bool true)])
    else .ok none
  else if world.unsafeIsolatedTakeover = true then
    .ok (some [("evidence", .str "unsafe_isolated_takeover"),
      ("heartbeat_age_seconds", world.age), ("unsafe", .bool true)])
  else
    match world.heartbeatAge with
    | none => .ok (some [("evidence", .str "manager_record_absent"), ("heartbeat_age_seconds", .null)])
    | some age =>
      let grace := (world.leaseOf state).times world.takeoverGraceFactor
      if grace.passedBy age = true then
        .ok (some [("evidence", .str "lease_grace_expired"), ("heartbeat_age_seconds", world.age),
          ("grace_seconds", .float grace),
          ("takeover_grace_factor", .float (.finite world.takeoverGraceFactor))])
      else .ok none

/-- **The takeover of a running job**: nothing while its manager is alive, and
otherwise what the evidence allows. -/
def takeoverMove (env : CommitEnv) (world : TakeoverWorld) (job : JobDefinition)
    (state : StateFrame) : Except Exc (Option Move) :=
  if world.heartbeatAge.any (world.leaseOf state).covers = true then .ok none
  else do
    match ← takeoverEvidence world job state with
    | none => .ok none
    | some evidence =>
      (attemptFailureMove env job state "lease_lost" [.lit "owning manager heartbeat expired"] none
        true (some evidence)).map some

/-! ## The pursuit of a cancellation -/

def cancellingMembers : List Member :=
  carriedStateMembers ++ [.attemptControl, .managerId, .writerId, .leaseSeconds, .workdir,
    .startedAt, .process, .operator, .operatorKey, .operatorReason, .requestId]

/-- **What a manager finds** at a cancelling job. -/
structure CancelWorld where
  hostname : PyStr
  managerId : PyStr
  /-- The attempts this manager launched, by their ids: the pid, and the exit
  status once it was reaped. -/
  launched : PyStr → Option (Int × Option Int)
  /-- `os.killpg(group, 0)`. -/
  killpg : Int → SignalResult
  /-- What sending `SIGTERM` or `SIGKILL` comes to. -/
  signalled : Except Exc PUnit
  /-- Whether this manager has reported this attempt already. -/
  reported : Bool
  utcNow : PyStr

/-- `evidence`: that the fenced attempt has stopped. -/
def cancellationEvidence (world : CancelWorld) (state : StateFrame) :
    Except Exc (Option (List (PyStr × Json))) :=
  match validateProcess (state.get .process) with
  | none => .ok none
  | some process =>
    match world.launched (state.attemptId.getD ⟨[]⟩) with
    | some (_, none) => .ok none
    | some (pid, some status) =>
      .ok (some [("verified", .str "process_exited"), ("hostname", .str world.hostname),
        ("pid", .int pid), ("exit_status", .int status), ("verified_at", .str world.utcNow)])
    | none =>
      if process.hostname ≠ world.hostname then .ok none
      else do
        if ← processGroupAlive world.killpg process.processGroup then .ok none
        else .ok (some [("verified", .str "process_group_absent"),
          ("hostname", .str world.hostname), ("process_group", .int process.processGroup),
          ("verified_at", .str world.utcNow)])

/-- What `report_unverifiable` says of the process. -/
def unverifiableDetail (world : CancelWorld) (state : StateFrame) : PyStr :=
  match state.get .process with
  | some (.obj process) =>
    if Json.optEqStr (Json.get process "hostname") world.hostname = true then
      PyStr.ofString ("its process identity is missing or malformed, so this manager cannot prove "
        ++ "that it stopped")
    else PyStr.ofString ("its process is recorded on another host, so this manager cannot prove "
        ++ "that it stopped")
  | _ => PyStr.ofString ("its running frame has no process identity, so this manager cannot prove "
        ++ "that it stopped")

/-- `report_unverifiable`: the job stays where it is, with a note. -/
def reportUnverifiable (world : CancelWorld) (state : StateFrame) : Move :=
  ⟨.cancelling, (state.select cancellingMembers).replace
    [(.cancellation, .obj [("verified", .null), ("problem", .str "unverifiable_here"),
        ("detail", .str (unverifiableDetail world state)), ("observed_by", .str world.managerId),
        ("observed_at", .str world.utcNow)]),
      (.reason, .str "cancel_unverified")], none⟩

/-- **`finish`**: the attempt is signalled, and the job is cancelled once the
attempt is proven to have stopped. -/
def finishCancellation (world : CancelWorld) (state : StateFrame) : Except Exc (Option Move) := do
  world.signalled
  match ← cancellationEvidence world state with
  | some proof =>
    .ok (some ⟨.cancelled, (state.select cancellingMembers).replace
      [(.cancellation, .obj proof), (.reason, .str "operator_cancel")], none⟩)
  | none => .ok (if world.reported = true then none else some (reportUnverifiable world state))
