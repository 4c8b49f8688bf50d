import HttkWorkflow.AttemptDraft
import HttkWorkflow.CrashTriples
import HttkWorkflow.JoinPass
import HttkWorkflow.System

/-!
# The ladder of a remedy policy

A policy has, for each problem, a ladder of steps, and a step is a list of
changes to the inputs. `plan_vasp_remedy` looks up in the history which step of
a problem is next, and proposes the first one from there that the directory
allows. `apply_vasp_remedy` edits copies of the inputs, records the next step
in the history, and publishes the copies in a batch that is replayed until it
is retired. A replay moves each staged file to its place. Where the staged file
is gone, the place has to have its digest, or the replay fails. A history inside
the directory is a file of that batch, moved after the inputs; one elsewhere is
replaced at once, before the batch is sealed.

What a change does to an input, whether it can be made (`_remedy_obstacle`),
and what the builder of a batch refuses besides overlapping targets are given:
nothing here depends on it. A file operation that fails ends a round where it
stands, which is what a crash there does.
-/

/-! ## Policies and decisions -/

/-- An operation, and its value. -/
abbrev RemedyChange := PyStr × Json

structure RemedyPolicy where
  name : PyStr
  sequences : Dict PyStr (List (List RemedyChange))
  precedence : List PyStr
  refusals : Dict PyStr PyStr

/-- `resolved.sequences.get(problem, ())`. -/
def RemedyPolicy.sequence (policy : RemedyPolicy) (problem : PyStr) : List (List RemedyChange) :=
  (policy.sequences.get problem).getD []

structure VaspRemedyDecision where
  policy : PyStr
  problem : PyStr
  step : ℤ
  changes : List RemedyChange
  giveUp : Bool
  reason : Message

/-- `as_mapping`; the text of the reason is `render`'s. -/
def VaspRemedyDecision.asMapping (render : Message → PyStr) (d : VaspRemedyDecision) : List (PyStr × Json) :=
  [(PyStr.ofString "format", .str "httk-vasp-remedy-decision"),
    (PyStr.ofString "format_version", .int 2), (PyStr.ofString "policy", .str d.policy),
    (PyStr.ofString "problem", .str d.problem), (PyStr.ofString "step", .int d.step),
    (PyStr.ofString "changes", .arr (d.changes.map fun c =>
      .obj [(PyStr.ofString "operation", .str c.fst), (PyStr.ofString "value", c.snd)])),
    (PyStr.ofString "give_up", .bool d.giveUp), (PyStr.ofString "reason", .str (render d.reason))]

/-- `sequence[step]`: a negative index counts from the end. -/
def stepChanges (sequence : List (List RemedyChange)) (step : ℤ) : Except Exc (List RemedyChange) :=
  let index := if step < 0 then sequence.length + step else step
  match if 0 ≤ index then sequence[index.toNat]? else none with
  | some changes => .ok changes
  | none => .error ⟨.valueError, [.lit "tuple index out of range"]⟩

/-- Why nothing is left. -/
def noRemedy (policy : PyStr) (skipped : List Message) : Message :=
  [.lit "no further ", .raw policy, .lit " remedy is available"]
    ++ if skipped = [] then [] else [.lit " ("] ++ [MessagePart.lit "; "].intercalate skipped ++ [.lit ")"]

/-- The steps of a loop that goes up from one to the end of a sequence. -/
def stepsFrom (step : ℤ) (length : ℕ) : List ℤ := (List.range (length - step).toNat).map fun k : ℕ => step + k

/-- **The loop of `plan_vasp_remedy`**: the first step without an obstacle; `last` is where the loop ends. -/
def climb (obstacle : List RemedyChange → Except Exc (Option Message)) (policy problem : PyStr)
    (sequence : List (List RemedyChange)) (last : ℤ) : List ℤ → List Message → Except Exc VaspRemedyDecision
  | [], skipped => .ok ⟨policy, problem, last, [], true, noRemedy policy skipped⟩
  | step :: steps, skipped => do
    let changes ← stepChanges sequence step
    match ← obstacle changes with
    | none => .ok ⟨policy, problem, step, changes, false, [.lit "reviewed remedy available"]⟩
    | some why =>
      climb obstacle policy problem sequence last steps (skipped ++ [[.lit "step ", .num step, .lit ": "] ++ why])

/-! ## A directory, its history and its batches -/

/-- A file: an input, or a history that was written. -/
inductive RemedyFile (β : Type) where
  | data (content : β)
  | history (members : List (PyStr × Json))

/-- **A sealed batch**: of which decision it is, the inputs it puts, and the history, with its place, where it
has that. -/
structure RemedyBatch (β : Type) where
  id : PyStr
  problem : PyStr
  step : ℤ
  inputs : List (PyStr × β)
  history : Option (List PyStr × List (PyStr × Json))

/-- **The operations of a batch**, each a `put-file`: the target, and what is put there. -/
def RemedyBatch.operations {β : Type} (b : RemedyBatch β) : List (List PyStr × RemedyFile β) :=
  b.inputs.map (fun e => ([e.fst], .data e.snd)) ++ b.history.toList.map fun e => (e.fst, .history e.snd)

abbrev RemedyFiles (β : Type) := List PyStr → Option (RemedyFile β)

/-- **The state of the ladder.** -/
structure RemedyState (β : Type) where
  files : RemedyFiles β
  /-- The history, where it is not in the directory. -/
  outside : Option (RemedyFile β)
  /-- `workdir-ready`. -/
  ready : List (RemedyBatch β)
  /-- The files that are staged: of which batch, for which target. -/
  staged : List (PyStr × List PyStr)
  /-- Of which problems which steps were published, that is, sealed. -/
  published : List (PyStr × ℤ)
  /-- Of which problem and step which targets were put, each as often as that was done. -/
  applied : List (PyStr × ℤ × List PyStr)

/-- **What the ladder is given.** -/
structure RemedyEnv (β : Type) where
  /-- Where `_remedy_history_file` lies in the directory, if it does. -/
  place : Option (List PyStr)
  /-- `read_json`, of a file that is no written history. -/
  readJson : β → Except Exc (List (PyStr × Json))
  /-- `_remedy_obstacle`. -/
  obstacle : RemedyFiles β → List RemedyChange → Except Exc (Option Message)
  /-- The files that a list of changes changes, in the order of their names. -/
  edit : RemedyFiles β → List RemedyChange → Except Exc (List (PyStr × β))
  sha256 : RemedyFile β → PyStr
  utcNow : PyStr
  render : Message → PyStr
  /-- What `put_file` refuses of the targets of a batch, overlaps apart. -/
  refusedTarget : List (List PyStr) → Option Exc

section Ladder

variable {β : Type} (env : RemedyEnv β)

def historyFile (s : RemedyState β) : Option (RemedyFile β) :=
  match env.place with
  | some path => s.files path
  | none => s.outside

def readRemedyHistory (s : RemedyState β) : Except Exc (List (PyStr × Json)) :=
  match historyFile env s with
  | none => .ok [(PyStr.ofString "format", .str "httk-vasp-remedy-history"),
      (PyStr.ofString "format_version", .int 2), (PyStr.ofString "attempts", .obj []),
      (PyStr.ofString "events", .arr [])]
  | some (.history members) => .ok members
  | some (.data content) => env.readJson content

/-- `int(attempts.get(problem, 0))`, of a history. -/
def recordedIn (history : List (PyStr × Json)) (problem : PyStr) : Except Exc ℤ :=
  match Dict.get history "attempts" with
  | some (.obj attempts) => intOf ((Dict.get attempts problem).getD (.int 0))
  | _ => .error ⟨.valueError, [.lit "VASP remedy history has invalid attempts"]⟩

/-- **The recorded step of a problem.** -/
def recordedStep (s : RemedyState β) (problem : PyStr) : Except Exc ℤ := do
  recordedIn (← readRemedyHistory env s) problem

/-- The problem of some diagnostics that comes first. -/
def RemedyPolicy.problem (policy : RemedyPolicy) (codes : List PyStr) : PyStr :=
  (policy.precedence.find? (· ∈ codes)).getD "unknown"

def planVaspRemedy (policy : RemedyPolicy) (codes : List PyStr) (s : RemedyState β) :
    Except Exc VaspRemedyDecision := do
  let problem := policy.problem codes
  let step ← recordedStep env s problem
  match policy.refusals.get problem with
  | some refusal => .ok ⟨policy.name, problem, step, [], true, [.raw refusal]⟩
  | none =>
    let sequence := policy.sequence problem
    climb (env.obstacle s.files) policy.name problem sequence (max step sequence.length)
      (stepsFrom step sequence.length) []

/-- What is appended to `events`. -/
def remedyEvent (files : RemedyFiles β) (decision : VaspRemedyDecision) (changed : List (PyStr × β)) : Json :=
  .obj (decision.asMapping env.render ++ [(PyStr.ofString "applied_at", .str env.utcNow),
    (PyStr.ofString "files", .arr (changed.map fun e =>
      .obj [(PyStr.ofString "path", .str e.fst),
        (PyStr.ofString "before_sha256", ((files [e.fst]).map fun file => Json.str (env.sha256 file)).getD .null),
        (PyStr.ofString "after_sha256", .str (env.sha256 (.data e.snd)))]))])

/-- `list(history.get("events", []))`. -/
def historyEvents (history : List (PyStr × Json)) : Except Exc (List Json) :=
  match Dict.get history "events" with
  | none => .ok []
  | some (.arr events) => .ok events
  | some (.obj members) => .ok (members.map fun e => .str e.fst)
  | some (.str text) => .ok (text.codes.map fun c => .str ⟨[c]⟩)
  | some _ => .error ⟨.typeError, [.lit "object is not iterable"]⟩

/-- `dict(history.get("attempts", {}))`. -/
def historyAttempts (history : List (PyStr × Json)) : Except Exc (Dict PyStr Json) :=
  match Dict.get history "attempts" with
  | none => .ok []
  | some (.obj attempts) => .ok attempts
  | some _ => .error ⟨.typeError, [.lit "object is not a mapping"]⟩

/-- **The history with a remedy recorded.** -/
def recordRemedy (s : RemedyState β) (decision : VaspRemedyDecision) (changed : List (PyStr × β)) :
    Except Exc (List (PyStr × Json)) := do
  let history ← readRemedyHistory env s
  let attempts ← historyAttempts history
  let events ← historyEvents history
  .ok (Dict.update history
    [(PyStr.ofString "attempts", .obj (Dict.set attempts decision.problem (.int (decision.step + 1)))),
      (PyStr.ofString "events", .arr (events ++ [remedyEvent env s.files decision changed]))])

/-- `put_file` of every target: none may overlap another. -/
def stageTargets (targets : List (List PyStr)) : Except Exc Unit :=
  if targets.Pairwise fun existing target => pathsOverlap existing target = false then
    match env.refusedTarget targets with
    | some e => .error e
    | none => .ok ()
  else .error ⟨.valueError, [.lit "transaction paths overlap"]⟩

/-! ## Programs -/

/-- A computation on the ladder. -/
abbrev Climbing (β α : Type) := Effects (RemedyState β) Exc α

/-- The history outside the directory, replaced. -/
def writeHistory (members : List (PyStr × Json)) (s : RemedyState β) : RemedyState β :=
  { s with outside := some (.history members) }

def sealBatch (batch : RemedyBatch β) (s : RemedyState β) : RemedyState β :=
  { s with
    ready := batch :: s.ready
    staged := (batch.operations.map fun o => (batch.id, o.fst)) ++ s.staged
    published := (batch.problem, batch.step) :: s.published }

/-- **A staged file, moved to its target.** -/
def moveStaged (batch : RemedyBatch β) (o : List PyStr × RemedyFile β) (s : RemedyState β) : RemedyState β :=
  { s with
    files := Function.update s.files o.fst (some o.snd)
    staged := s.staged.filter fun e => e ≠ (batch.id, o.fst)
    applied := (batch.problem, batch.step, o.fst) :: s.applied }

def retireBatch (batch : RemedyBatch β) (s : RemedyState β) : RemedyState β :=
  { s with ready := s.ready.filter fun other => other.id ≠ batch.id }

/-- **A `put-file` of a replay.** -/
def putFile (batch : RemedyBatch β) (o : List PyStr × RemedyFile β) : Climbing β PUnit := do
  let s ← Effects.current
  if (s.files o.fst).map env.sha256 = some (env.sha256 o.snd) ∧ (batch.id, o.fst) ∉ s.staged then pure ⟨⟩
  else if (batch.id, o.fst) ∉ s.staged then
    Effects.raise ⟨.transaction, [.lit "put-file source digest mismatch: ", .path o.fst]⟩
  else Effects.emit (moveStaged batch o) ⟨⟩

/-- **The replay of a batch**, and its retirement. -/
def commitRemedy (batch : RemedyBatch β) : Climbing β PUnit := do
  Effects.execAll (putFile env batch) batch.operations
  Effects.emit (retireBatch batch) ⟨⟩

/-- **`ReplayableWorkdirBatch.recover`**: the ready batches, by the names of their directories. -/
def recoverRemedies : Climbing β PUnit := do
  let s ← Effects.current
  Effects.execAll (commitRemedy env) (s.ready.insertionSort fun a b => a.id ≤ b.id)

/-- **`apply_vasp_remedy`**; `id` is the name its batch is given. -/
def applyVaspRemedy (id : PyStr) (decision : VaspRemedyDecision) : Climbing β PUnit := do
  if decision.giveUp = true then
    Effects.raise ⟨.valueError, [.lit "cannot apply give-up decision: "] ++ decision.reason⟩
  else do
    let s ← Effects.current
    match ← Effects.ofExcept (env.obstacle s.files decision.changes) with
    | some why =>
      Effects.raise ⟨.valueError, [.lit "cannot apply the ", .raw decision.policy, .lit " remedy for ",
        .raw decision.problem, .lit ": "] ++ why⟩
    | none => do
      let changed ← Effects.ofExcept (env.edit s.files decision.changes)
      let history ← Effects.ofExcept (recordRemedy env s decision changed)
      Effects.ofExcept (stageTargets env ((changed.map fun e => [e.fst]) ++ env.place.toList))
      match env.place with
      | some path => do
        let batch : RemedyBatch β := ⟨id, decision.problem, decision.step, changed, some (path, history)⟩
        Effects.emit (sealBatch batch) ⟨⟩
        commitRemedy env batch
      | none => do
        let batch : RemedyBatch β := ⟨id, decision.problem, decision.step, changed, none⟩
        Effects.emit (writeHistory history) ⟨⟩
        Effects.emit (sealBatch batch) ⟨⟩
        commitRemedy env batch

/-- **A round**: what was left is recovered, and then a remedy planned and, unless the plan gives up, applied. -/
def remedyRound (policy : RemedyPolicy) (codes : List PyStr) (id : PyStr) : Climbing β VaspRemedyDecision := do
  recoverRemedies env
  let s ← Effects.current
  let decision ← Effects.ofExcept (planVaspRemedy env policy codes s)
  if decision.giveUp = true then pure decision
  else do
    applyVaspRemedy env id decision
    pure decision

/-! ## Runs -/

/-- What happens: a round, or a run of the program, which may leave any files but the history. -/
inductive LadderStep (β : Type) where
  | round (codes : List PyStr) (id : PyStr)
  | work (files : RemedyFiles β)

/-- **The runs of a ladder**: a round may end anywhere, and it starts from nothing left over and from a history
that has a natural number for every problem, as none at all has. -/
def remedyRuns (policy : RemedyPolicy) : System (RemedyState β) (LadderStep β) where
  init s := s.ready = [] ∧ s.published = [] ∧ s.applied = [] ∧ ∀ problem, ∃ n : ℕ, recordedStep env s problem = .ok (n : ℤ)
  step s a s' := match a with
    | .round codes id => (remedyRound env policy codes id).Visits s s'
    | .work files => (∀ path, env.place = some path → files path = s.files path) ∧ s' = { s with files := files }

end Ladder
