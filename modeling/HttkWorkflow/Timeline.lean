import HttkWorkflow.JoinPass

/-!
# The timeline of a job

`timeline` regroups the frames of a job, oldest first, as its journal has
them. Frames with one activation id after the other are an activation. In it
a `claimed` frame opens an attempt, and the frames after it that name the same
attempt say when it was started, how it ended and when.

The loop of the source has the activation it is at and the attempt that was
opened last, and changes both where they are in the list. Here they are kept
apart from those before them, and put behind them when the next one is opened
(`Regrouping.opened`).
-/

def optionalString (value : Option Json) : Option PyStr :=
  match value with
  | some (.str text) => if text.codes = [] then none else some text
  | _ => none

/-- `_optional_int`. Of what `int` raises it handles a `ValueError`, and so not an overflow. -/
def optionalInt (value : Option Json) : Except Exc (Option Int) :=
  match value with
  | some (.int n) => .ok (some n)
  | some (.float x) => handled (intOf (.float x))
  | some (.str text) => handled (intOf (.str text))
  | _ => .ok none
where
  /-- `except ValueError: return None`. -/
  handled : Except Exc Int → Except Exc (Option Int)
    | .ok n => .ok (some n)
    | .error e => if e.cls.isValueError then .ok none else .error e

/-- **An attempt** of the timeline. -/
structure AttemptEntry where
  attemptId : Option PyStr
  ordinal : Option Int
  managerId : Option PyStr
  writerId : Option PyStr
  recordRef : Option PyStr
  claimedAt : Option PyStr
  startedAt : Option PyStr
  finishedAt : Option PyStr
  outcomeAction : Option PyStr
  failure : Option (List (PyStr × Json))

/-- **An activation** of the timeline. -/
structure ActivationEntry where
  activationId : Option PyStr
  activationOrdinal : Option Int
  step : Option PyStr
  reason : Option PyStr
  attempts : List AttemptEntry

section Frames

variable (frame : List (PyStr × Json))

/-- `frame.get("error") is not None`: the journal could not return this frame. -/
def frameUnreadable : Bool :=
  match Json.get frame "error" with
  | none | some .null => false
  | _ => true

def frameString (name : String) : Option PyStr := optionalString (Json.get frame name)

def frameFailure : Option (List (PyStr × Json)) :=
  match Json.get frame "failure" with
  | some (.obj members) => some members
  | _ => none

/-- **`_attempt`**: an attempt is opened by the frame that claimed it. -/
def openAttempt : Except Exc AttemptEntry := do
  let ordinal ← optionalInt (Json.get frame "attempt_ordinal")
  .ok { attemptId := frameString frame "attempt_id", ordinal,
        managerId := frameString frame "manager_id", writerId := frameString frame "writer_id",
        recordRef := frameString frame "record_ref", claimedAt := frameString frame "created_at",
        startedAt := none, finishedAt := none, outcomeAction := none, failure := none }

/-- **`_activation`**: an activation is opened by its first frame. -/
def openActivation : Except Exc ActivationEntry := do
  let activationOrdinal ← optionalInt (Json.get frame "activation_ordinal")
  .ok { activationId := frameString frame "activation_id", activationOrdinal,
        step := frameString frame "step", reason := frameString frame "reason", attempts := [] }

/-- **What a later frame says of an attempt.** -/
def AttemptEntry.told (attempt : AttemptEntry) : AttemptEntry :=
  if frameString frame "kind" = some "running" then
    { attempt with startedAt := (frameString frame "started_at").or (frameString frame "created_at") }
  else
    { attempt with
        outcomeAction := if frameString frame "kind" = some "committing" then frameString frame "outcome_action"
          else attempt.outcomeAction
        failure := attempt.failure.or (frameFailure frame)
        finishedAt := attempt.finishedAt.or (frameString frame "created_at") }

end Frames

/-- **How far the regrouping is.** -/
structure Regrouping where
  before : List ActivationEntry
  /-- `current`, with its attempts but the last. -/
  current : Option ActivationEntry
  /-- `attempt`, the last one of the current activation. -/
  attempt : Option AttemptEntry
  /-- Whether a frame was missing. -/
  gaps : Bool

namespace Regrouping

/-- Before the first frame. -/
def start : Regrouping := ⟨[], none, none, false⟩

variable (r : Regrouping) (frame : List (PyStr × Json))

/-- The current activation, with all of its attempts. -/
def opened : List ActivationEntry :=
  r.current.toList.map fun current => { current with attempts := current.attempts ++ r.attempt.toList }

/-- The activations so far. -/
def activations : List ActivationEntry := r.before ++ r.opened

/-- Whether a frame is of the current activation. -/
def continues : Bool :=
  match r.current with
  | some current => current.activationId = frameString frame "activation_id"
  | none => false

/-- The activation of a frame, opened if it is not the current one. -/
def entered : Except Exc Regrouping :=
  if r.continues frame then .ok r
  else (openActivation frame).map fun current =>
    { r with before := r.activations, current := some current, attempt := none }

/-- A frame of the current activation. -/
def noted : Except Exc Regrouping :=
  if frameString frame "kind" = some "claimed" then
    (openAttempt frame).map fun attempt =>
      { r with
          current := r.current.map fun current => { current with attempts := current.attempts ++ r.attempt.toList }
          attempt := some attempt }
  else
    .ok { r with
      attempt := r.attempt.map fun attempt =>
        if frameString frame "attempt_id" = attempt.attemptId then attempt.told frame else attempt }

/-- **One frame.** -/
def step : Except Exc Regrouping :=
  if frameUnreadable frame then .ok { r with gaps := true }
  else do (← r.entered frame).noted frame

end Regrouping

/-- **`timeline`**: the activations of a job with their attempts, and whether a frame was missing. -/
def timeline (frames : List (List (PyStr × Json))) : Except Exc (List ActivationEntry × Bool) :=
  (frames.foldlM Regrouping.step Regrouping.start).map fun r => (r.activations, r.gaps)

/-! ## As a JSON value -/

/-- An optional integer, as a stored member. -/
def intOrNull (value : Option Int) : Json := (value.map Json.int).getD .null

/-- An optional object, as a stored member. -/
def objOrNull (value : Option (List (PyStr × Json))) : Json := (value.map Json.obj).getD .null

def AttemptEntry.asMapping (attempt : AttemptEntry) : List (PyStr × Json) :=
  [("attempt_id", orNull attempt.attemptId), ("ordinal", intOrNull attempt.ordinal),
    ("manager_id", orNull attempt.managerId), ("writer_id", orNull attempt.writerId),
    ("record_ref", orNull attempt.recordRef), ("claimed_at", orNull attempt.claimedAt),
    ("started_at", orNull attempt.startedAt), ("finished_at", orNull attempt.finishedAt),
    ("outcome_action", orNull attempt.outcomeAction), ("failure", objOrNull attempt.failure)]

def ActivationEntry.asMapping (activation : ActivationEntry) : List (PyStr × Json) :=
  [("activation_id", orNull activation.activationId), ("activation_ordinal", intOrNull activation.activationOrdinal),
    ("step", orNull activation.step), ("reason", orNull activation.reason),
    ("attempts", .arr (activation.attempts.map fun attempt => .obj attempt.asMapping))]

/-- The timeline as `timeline` returns it. -/
def timelineMapping (activations : List ActivationEntry) (gaps : Bool) : List (PyStr × Json) :=
  [("activations", .arr (activations.map fun activation => .obj activation.asMapping)), ("gaps", .bool gaps)]
