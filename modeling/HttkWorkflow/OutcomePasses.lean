import HttkWorkflow.JoinPass
import HttkWorkflow.System

/-!
# The passes over a published outcome

Whatever a runner writes into `outcome.json`, the passes over its job are to
end with the job moved, or with a report, or with nothing to do yet. An
exception that leaves a pass stops the whole tick of the manager.

A pass catches `WorkflowError` and `OSError`. The refusals of the validators
are among them, but not what the interpreter raises of its own: on a number
of too many digits or a document nested too deep when it is read, on a lone
surrogate when a text is encoded or a frame is written, on a `count` that is
no number, on a `job_key` that is no pattern. `outcome_escapes` takes one of
these from the outcome to the tick. `Served` collects all of them, and a run
whose passes meet it has no exception that escapes (`passes_end`).
-/

/-! ## The pass over a running job -/

/-- **`outcome.json`**: no JSON text at all, or the text of a value. -/
inductive Published where
  | unreadable
  | json (value : Json)

/-- `json.loads` on it, with what is no JSON text refused by `read_json`. -/
def Published.read (env : CommitEnv) : Published → Except Exc Json
  | .unreadable => raiseFormat [.lit "cannot read JSON object outcome.json", assemblyRemedy]
  | .json value =>
    if value.numbersFit = false then
      .error ⟨.valueError, [.lit "Exceeds the limit (4300 digits) for integer string conversion"]⟩
    else if value.nests (env.depth + 1) = false then
      .error ⟨.recursion, [.lit "maximum recursion depth exceeded"]⟩
    else .ok value

/-- **What a poll finds in the world**, where an outcome is published. -/
structure PollWorld where
  /-- `_environment_log_ready`. -/
  environmentReady : Except Exc Bool
  /-- Whether the attempt runs below this manager. -/
  startedHere : Bool
  /-- `child_digests` and `spawn_labels`. -/
  childDigests : Except Exc (List (PyStr × PyStr))
  childLabels : Except Exc (List (PyStr × PyStr))
  managerId : PyStr
  writerId : PyStr
  /-- The frame of the marker, read again, by the pass and by the transition. -/
  readFrame : Except Exc StateFrame
  reread : Option StateFrame
  /-- What the rename of the marker comes to. -/
  moves : Except Exc PUnit
  /-- What the rename that records a failure comes to. -/
  records : Except Exc PUnit

def validateAttemptControl (env : CommitEnv) (text : PyStr) (name : String) : Except Exc PyStr := do
  let text ← requireString (some (.str text)) name
  let start := (PyStr.ofString "attempts/").codes
  if start.isPrefixOf text.codes = false then
    raiseFormat [.lit name, .lit " must name an attempts/<attempt-id> directory"]
  else
    let _ ← canonicalUuid env.uuid (some (.str ⟨text.codes.drop start.length⟩))
      (name ++ " attempt id")
    .ok text

def attemptControl (env : CommitEnv) (state : StateFrame) : Except Exc (Option PyStr) :=
  match state.string .attemptControl with
  | none => .ok none
  | some text => (validateAttemptControl env text "state.attempt_control").map some

def textMapping (entries : List (PyStr × PyStr)) : Json :=
  .obj (entries.map fun e => (e.fst, .str e.snd))

/-- **`_begin_commit`**: the fence into `committing`. -/
def beginCommit (env : CommitEnv) (world : PollWorld) (jobId : PyStr) (state : StateFrame)
    (document : Except Exc Json) : Except Exc Move := do
  let outcome ← readOutcome document jobId state
  let childDigests ← world.childDigests
  let childLabels ← world.childLabels
  let control ← attemptControl env state
  match state.attemptId, control with
  | some attemptId, some control =>
    transition env world.reread .running world.moves
      ⟨.committing, withProcess state (state.carried.replace
        [(.managerId, .str world.managerId), (.writerId, .str world.writerId),
          (.attemptId, .str attemptId), (.attemptControl, .str control),
          (.outcomeAction, (Json.get outcome "action").getD .null),
          (.childDigests, textMapping childDigests), (.childLabels, textMapping childLabels),
          (.reason, .str "outcome_published")]), none⟩
  | _, _ =>
    raiseFormat [.lit "a running frame must name its attempt and attempt control directory"]

/-- What `_commit_published_outcome` does before its `except` clauses. -/
def tryCommit (env : CommitEnv) (world : PollWorld) (jobId : PyStr) (state : StateFrame)
    (document : Except Exc Json) : Except Exc PassResult := do
  if (← world.environmentReady) = false then .ok .pending
  else
    -- the action is read once more, and first, for the log of a local attempt
    if world.startedHere = true then
      match ← document with
      | .obj _ => .ok ()
      | _ => raiseFormat [.lit "expected JSON object in outcome.json"]
    let moved ← beginCommit env world jobId state document
    .ok (.moved moved)

def commitPublishedOutcome (env : CommitEnv) (world : PollWorld) (job : JobDefinition)
    (jobId : PyStr) (state : StateFrame) (document : Except Exc Json) : Except Exc PassResult :=
  match tryCommit env world jobId state document with
  | .ok result => .ok result
  | .error e =>
    if e.cls = .transitionLost then .ok .lost
    else if e.cls = .formatError then
      handleAttemptFailure env job .running world.readFrame world.reread world.records
        "protocol_error" (.lit "published outcome is unusable: " :: e.message) none true none
    else if e.cls.isWorkflowError = true ∨ e.cls.isOSError = true then .ok .reported
    else .error e

/-- What the parts of a poll give and raise, apart from the outcome. -/
structure PollWorld.Sound (env : CommitEnv) (world : PollWorld) : Prop where
  environmentReady : Ensures world.environmentReady fun _ => True
  childDigests : Ensures world.childDigests
    fun entries => ∀ e ∈ entries, e.fst.encodable = true ∧ e.snd.encodable = true
  childLabels : Ensures world.childLabels
    fun entries => ∀ e ∈ entries, e.fst.encodable = true ∧ e.snd.encodable = true
  managerId : world.managerId.encodable = true
  writerId : world.writerId.encodable = true
  readFrame : Ensures world.readFrame (·.storable env)
  reread : ∀ f, world.reread = some f → f.storable env
  moves : Ensures world.moves fun _ => True
  records : Ensures world.records fun _ => True

section Poll

variable {env : CommitEnv} {job : JobDefinition} {state : StateFrame} {jobId : PyStr}

theorem ensures_read {published : Published} (h : ∀ value, published = .json value →
      value.numbersFit = true ∧ value.nests (env.depth + 1) = true) :
    Ensures (published.read env) fun _ => True := by
  cases published with
  | unreadable => exact ensures_raiseFormat rfl
  | json value =>
    obtain ⟨hnumbers, hnests⟩ := h value rfl
    unfold Published.read
    simp only [hnumbers, hnests, Bool.true_eq_false, if_false]
    trivial

variable {document : Except Exc Json}

theorem ensures_readOutcome (h : Ensures document fun _ => True) :
    Ensures (readOutcome document jobId state) fun outcome =>
      document = .ok (.obj outcome)
        ∧ ∃ action, Json.get outcome "action" = some (.str action) := by
  have hself : Ensures document fun value => document = .ok value := by
    cases document with
    | error e => exact h
    | ok value => rfl
  refine hself.bind fun value hvalue => ?_
  split
  · split_ifs
    · exact ensures_raiseFormat rfl
    · exact ensures_raiseFormat rfl
    · exact ensures_raiseFormat rfl
    · split
      · rename_i haction
        exact ⟨hvalue, _, haction⟩
      · exact ensures_raiseFormat rfl
    · exact ensures_raiseFormat rfl
  · exact ensures_raiseFormat rfl

theorem ensures_attemptControl (hstate : state.storable env) : Ensures (attemptControl env state)
      fun control => ∀ t, control = some t → t.encodable = true := by
  unfold attemptControl
  split
  · exact fun t h => by cases h
  · rename_i text htext
    have hencodes := StateFrame.encodable_of_string hstate htext
    have hvalidate : Ensures (validateAttemptControl env text "state.attempt_control") (·.encodable = true) := by
      refine ensures_requireString.bind fun text' h => ?_
      obtain rfl := Json.str.inj (Option.some.inj h)
      show Ensures (if _ then _ else _) _
      split_ifs
      · exact ensures_raiseFormat rfl
      · exact ensures_canonicalUuid.bind fun _ _ => hencodes
    refine hvalidate.map fun t ht t' h => ?_
    rw [← Option.some.inj h]
    exact ht

theorem storable_textMapping {entries : List (PyStr × PyStr)}
    (h : ∀ e ∈ entries, e.fst.encodable = true ∧ e.snd.encodable = true) :
    (textMapping entries).storable env.depth = true := by
  have hdepth := env.three_le_depth
  refine Json.storable_obj.mpr ⟨by omega, fun e he => ?_⟩
  obtain ⟨entry, hentry, rfl⟩ := List.mem_map.mp he
  exact ⟨(h entry hentry).1, Json.storable_str.mpr (h entry hentry).2⟩

variable {world : PollWorld}

theorem ensures_beginCommit (hsound : world.Sound env) (hstate : state.storable env)
    (hdocument : Ensures document fun _ => True)
    (haction : ∀ outcome, document = .ok (.obj outcome) → Encodes (Json.get outcome "action")) :
    Ensures (beginCommit env world jobId state document) (·.frame.storable env) := by
  refine (ensures_readOutcome hdocument).bind fun outcome ⟨hok, action, hget⟩ => ?_
  refine hsound.childDigests.bind fun digests hdigests => ?_
  refine hsound.childLabels.bind fun labels hlabels => ?_
  refine (ensures_attemptControl hstate).bind fun control hcontrol => ?_
  split
  · rename_i attemptId control hattempt
    refine ensures_transition ?_ hsound.reread hsound.moves
    refine storable_withProcess hstate (StateFrame.storable_replace (StateFrame.storable_carried hstate) ?_)
    simp only [hget, Option.getD_some, List.forall_mem_cons, List.not_mem_nil, false_imp_iff,
      implies_true, and_true, Json.storable_str, PyStr.encodable_ofString]
    exact ⟨hsound.managerId, hsound.writerId, StateFrame.encodable_of_string hstate hattempt,
      hcontrol control rfl, haction outcome hok action hget, storable_textMapping hdigests,
      storable_textMapping hlabels⟩
  · exact ensures_raiseFormat rfl

theorem handleAttemptFailure_ends {source : StateKind} {readFrame : Except Exc StateFrame}
    {reread : Option StateFrame} {records : Except Exc PUnit} {code : PyStr} {message : Message}
    {exitStatus : Option Int} {unclean : Bool} {evidence : Option (List (PyStr × Json))}
    (hframe : Ensures readFrame (·.storable env)) (hreread : ∀ f, reread = some f → f.storable env)
    (hrecords : Ensures records fun _ => True) (hcode : code.encodable = true)
    (hmessage : message.encodable = true)
    (hevidence : ∀ members, evidence = some members → (Json.obj members).storable env.depth = true) :
    ∃ result, handleAttemptFailure env job source readFrame reread records code message exitStatus
      unclean evidence = .ok result ∧ result.Stored env := by
  have hensures : Ensures (readFrame >>= fun state =>
      attemptFailureMove env job state code message exitStatus unclean evidence
        >>= transition env reread source records) (·.frame.storable env) := by
    refine hframe.bind fun state hstate => ?_
    refine Ensures.bind ?_ fun move hmove => ensures_transition hmove hreread hrecords
    have hcarried := StateFrame.storable_carried hstate
    unfold attemptFailureMove
    split_ifs
    · exact ensures_retry hstate hcarried hcode hevidence
    · have hfailed : (withProcess state (state.carried.replace
          [(.failure, failure env code message exitStatus), (.reason, .str code)])).storable env := by
        refine storable_withProcess hstate (StateFrame.storable_replace hcarried ?_)
        simp only [List.forall_mem_cons, List.not_mem_nil, false_imp_iff, implies_true, and_true, Json.storable_str]
        exact ⟨storable_failure hcode hmessage, hcode⟩
      cases evidence with
      | none => exact hfailed
      | some members =>
        refine StateFrame.storable_replace hfailed fun e he => ?_
        rw [List.mem_singleton.mp he]
        exact hevidence members rfl
  unfold handleAttemptFailure
  split
  · rename_i moved hmoved
    exact ⟨_, rfl, stored_moved (hensures.of_ok hmoved)⟩
  · rename_i e herror
    split_ifs with hlost hhandled
    · exact ⟨_, rfl, fun moved h => by cases h⟩
    · exact ⟨_, rfl, fun moved h => by cases h⟩
    · exact absurd (hensures.of_error herror).1 hhandled

theorem commitPublishedOutcome_ends (hsound : world.Sound env) (hstate : state.storable env)
    (hdocument : Ensures document fun _ => True)
    (haction : ∀ outcome, document = .ok (.obj outcome) → Encodes (Json.get outcome "action")) :
    ∃ result, commitPublishedOutcome env world job jobId state document = .ok result
      ∧ result.Stored env := by
  have htry : Ensures (tryCommit env world jobId state document) (·.Stored env) := by
    refine hsound.environmentReady.bind fun ready _ => ?_
    split_ifs
    · exact fun moved h => by cases h
    · have hcommit : Ensures (do
          let moved ← beginCommit env world jobId state document
          .ok (PassResult.moved moved)) (·.Stored env) :=
        (ensures_beginCommit hsound hstate hdocument haction).bind fun moved hmoved =>
          stored_moved hmoved
      refine hdocument.bind fun value _ => ?_
      split
      · exact hcommit
      · exact ensures_raiseFormat rfl
    · exact (ensures_beginCommit hsound hstate hdocument haction).bind fun moved hmoved =>
          stored_moved hmoved
  unfold commitPublishedOutcome
  cases hresult : tryCommit env world jobId state document with
  | ok result => exact ⟨result, rfl, htry.of_ok hresult⟩
  | error e =>
    have hhandled := htry.of_error hresult
    simp only
    split_ifs with hlost hformat hworkflow
    · exact ⟨_, rfl, fun moved h => by cases h⟩
    · refine handleAttemptFailure_ends hsound.readFrame hsound.reread hsound.records
        (PyStr.encodable_ofString _) ?_ fun members h => by cases h
      exact hhandled.2
    · exact ⟨_, rfl, fun moved h => by cases h⟩
    · exact absurd hhandled.1 hworkflow

end Poll

/-! ## The pass over a committing job -/

section Resume

variable {σ : Type}

/-- What the parts of a commit give and raise, apart from the outcome. -/
structure CommitWorld.Sound (env : CommitEnv) (world : CommitWorld σ) : Prop where
  transaction : ∀ files replay, world.transaction files = some replay →
    ∀ generation files', Ensures (replay generation files').snd fun _ => True
  children : ∀ files, Ensures (world.children files).snd fun _ => True
  executor : ∀ commitOutcome, world.executor = some commitOutcome →
    Ensures commitOutcome fun _ => True
  labels : Ensures world.labels fun labels => ∀ e ∈ labels, e.snd.encodable = true
  freshId : world.freshId.encodable = true
  reread : ∀ f, world.reread = some f → f.storable env
  moves : Ensures world.moves fun _ => True

variable {α β : Type} {P : α → Prop} {Q : β → Prop} {files : σ}

theorem ensures_effects_bind {x : Effects σ Exc α} {f : α → Effects σ Exc β}
    (hx : Ensures (x files).snd P) (hf : ∀ a files', P a → Ensures (f a files').snd Q) :
    Ensures ((x >>= f) files).snd Q := by
  show Ensures (Effects.bind x f files).snd Q
  unfold Effects.bind
  cases hresult : (x files).snd with
  | error e => exact hx.of_error hresult
  | ok a => exact hf a _ (hx.of_ok hresult)

variable {env : CommitEnv} {world : CommitWorld σ} {c : Committing}

theorem ensures_commitTransaction {outcome : List (PyStr × Json)} (hsound : world.Sound env) :
    Ensures (commitTransaction world c outcome files).snd fun _ => True := by
  have hraise : ∀ text : String, Ensures ((Effects.raise ⟨.transaction, [.lit text]⟩ :
      Effects σ Exc (Option Int)) files).snd fun _ => True := fun text => ⟨Or.inl rfl, rfl⟩
  unfold commitTransaction
  rw [Effects.run_current_bind]
  cases htransaction : world.transaction files with
  | none => trivial
  | some replay =>
    split
    · split_ifs
      · exact hraise _
      · exact hraise _
      · exact ensures_effects_bind (hsound.transaction files replay htransaction _ files)
          fun changed files' _ => trivial
    · exact hraise _

theorem ensures_processCommitting (hsound : world.Sound env) (hstate : c.state.storable env)
    (hdocument : Ensures (world.document files) fun _ => True)
    (hstores : ∀ outcome, world.document files = .ok (.obj outcome) →
      OutcomeStores env c.job c.state c.priority outcome) :
    Ensures (processCommitting env world c files).snd
      fun moved => ∀ m, moved = some m → m.frame.storable env := by
  show Ensures (((Effects.ofExcept (readOutcome (world.document files) c.jobId c.state) :
    Effects σ Exc _) >>= _) files).snd _
  refine ensures_effects_bind (ensures_readOutcome hdocument) fun outcome files₁ hread => ?_
  obtain ⟨hok, action, haction⟩ := hread
  refine ensures_effects_bind (ensures_commitTransaction hsound) fun generation files₂ _ => ?_
  refine ensures_effects_bind (hsound.children files₂) fun _ files₃ _ => ?_
  cases hexecutor : world.executor with
  | none => exact fun m h => by cases h
  | some commitOutcome =>
    have hcommit := hsound.executor commitOutcome hexecutor
    refine ensures_effects_bind (P := fun _ => True) hcommit fun _ files₄ _ => ?_
    refine ensures_effects_bind (ensures_outcomeMove hstate (hstores outcome hok) hsound.labels
      hsound.freshId haction) fun move files₅ hframe => ?_
    refine ensures_effects_bind (ensures_transition hframe hsound.reread hsound.moves) fun moved files₆ hmoved => ?_
    intro m hm
    rw [← Option.some.inj hm]
    exact hmoved

theorem resume_ends (hsound : world.Sound env)
    (hrecords : ∀ e, world.records = .error e → e.cls = .transitionLost)
    (hstate : c.state.storable env) (hdocument : Ensures (world.document files) fun _ => True)
    (hstores : ∀ outcome, world.document files = .ok (.obj outcome) →
      OutcomeStores env c.job c.state c.priority outcome) :
    ∃ result, (resume env world c files).snd = .ok result ∧ result.Stored env := by
  have hprocess := ensures_processCommitting hsound hstate hdocument hstores
  unfold resume
  split_ifs
  · exact ⟨_, rfl, fun m h => by cases h⟩
  · have hattempt : ∀ k : Except Exc (Option Move) → Effects σ Exc PassResult,
        (((processCommitting env world c).attempt >>= k) files).snd
          = (k (processCommitting env world c files).snd
            ((processCommitting env world c).attempt.final files)).snd :=
      fun _ => rfl
    rw [hattempt]
    cases hresult : (processCommitting env world c files).snd with
    | ok moved =>
      cases moved with
      | none => exact ⟨_, rfl, fun m h => by cases h⟩
      | some moved => exact ⟨_, rfl, stored_moved (hprocess.of_ok hresult moved rfl)⟩
    | error e =>
      have hhandled := hprocess.of_error hresult
      show ∃ result, commitError env world c e = .ok result ∧ _
      unfold commitError
      split_ifs with hlost hrefused hworkflow
      · exact ⟨_, rfl, fun m h => by cases h⟩
      · have hframe : (commitFailed env c.state e).frame.storable env := by
          refine StateFrame.storable_replace
            (storable_withProcess hstate (StateFrame.storable_carried hstate)) ?_
          simp only [List.forall_mem_cons, List.not_mem_nil, false_imp_iff, implies_true, and_true,
            Json.storable_str, PyStr.encodable_ofString]
          refine storable_failure ?_ hhandled.2
          split_ifs
          · exact PyStr.encodable_ofString _
          · exact PyStr.encodable_ofString _
        have hrecorded : (∃ moved, transition env world.reread .committing world.records
              (commitFailed env c.state e) = .ok moved)
            ∨ ∃ e', transition env world.reread .committing world.records
              (commitFailed env c.state e) = .error e' ∧ e'.cls = .transitionLost :=
          transition_failed hframe hrecords
        rcases hrecorded with ⟨moved, hmoved⟩ | ⟨e', herror, hlost'⟩
        · rw [hmoved]
          exact ⟨_, rfl, stored_moved (storable_of_transition hmoved)⟩
        · rw [herror]
          simp only
          rw [if_pos hlost']
          exact ⟨_, rfl, fun m h => by cases h⟩
      · exact ⟨_, rfl, fun m h => by cases h⟩
      · exact absurd hhandled.1 hworkflow

end Resume

/-! ## Runs of a job -/

/-- **A job as its passes meet it.** -/
structure PassState where
  kind : StateKind
  frame : StateFrame
  priority : Int
  /-- `outcome.json` of its attempt. -/
  published : Published
  /-- The exception that left a pass. -/
  escaped : Option Exc

/-- **What happens to a job**: its runner publishes, another actor moves it,
or a manager passes over it. -/
inductive PassStep (σ : Type) where
  | publish (published : Published)
  | elsewhere (kind : StateKind) (frame : StateFrame) (priority : Int)
  | poll (world : PollWorld)
  | resume (world : CommitWorld σ) (files : σ)
  | evaluate (world : JoinWorld)

def PassState.after (s : PassState) : Except Exc PassResult → PassState
  | .ok (.moved moved) => { s with
      kind := moved.kind, frame := moved.frame, priority := moved.priority.getD s.priority }
  | .ok _ => s
  | .error e => { s with escaped := some e }

section Runs

variable {σ : Type} (env : JoinEnv) (job : JobDefinition) (jobId : PyStr)

def publishing (world : CommitWorld σ) (published : Published) : CommitWorld σ :=
  { world with document := fun _ => published.read env.toCommitEnv }

/-- **One step.** Every frame but those of the passes was written before. -/
def passNext (s : PassState) : PassStep σ → Option PassState
  | .publish published => some { s with published }
  | .elsewhere kind frame priority =>
    if frame.storable env.toCommitEnv then some { s with kind, frame, priority } else none
  | .poll world =>
    if s.kind = .running then
      some (s.after (commitPublishedOutcome env.toCommitEnv world job jobId s.frame
        (s.published.read env.toCommitEnv)))
    else none
  | .resume world files =>
    if s.kind = .committing then
      some (s.after (resume env.toCommitEnv (publishing env world s.published)
        ⟨jobId, s.priority, job, s.frame⟩ files).snd)
    else none
  | .evaluate world =>
    if s.kind = .waiting then some (s.after (evaluateJoins env world job s.frame)) else none

/-- The runs start with a frame that was written and nothing escaped. -/
def passInit (s : PassState) : Prop := s.frame.storable env.toCommitEnv ∧ s.escaped = none

/-- Whether the document of an outcome is read: its integers have at most 4300
digits, and its nesting is within what the interpreter takes. -/
def Published.Readable (published : Published) : Prop :=
  ∀ value, published = .json value →
    value.numbersFit = true ∧ value.nests (env.depth + 1) = true

/-- **The outcomes and the joins that are served**, and the other parts of a
pass raise what it handles. -/
def Served (s : PassState) : PassStep σ → Prop
  | .publish _ => True
  | .elsewhere _ _ _ => True
  | .poll world => world.Sound env.toCommitEnv ∧ s.published.Readable env
      ∧ ∀ outcome, s.published = .json (.obj outcome) → Encodes (Json.get outcome "action")
  | .resume world _ => world.Sound env.toCommitEnv
      ∧ (∀ e, world.records = .error e → e.cls = .transitionLost) ∧ s.published.Readable env
      ∧ ∀ outcome, s.published = .json (.obj outcome) →
        OutcomeStores env.toCommitEnv job s.frame s.priority outcome
  | .evaluate world => world.Sound env
      ∧ (∀ e, world.records = .error e → e.cls = .transitionLost)
      ∧ ∀ join, s.frame.join = some join → JoinServed env world join

variable {env job jobId} {s : PassState}

theorem Published.eq_of_read {published : Published} {value : Json}
    (h : published.read env.toCommitEnv = .ok value) : published = .json value := by
  cases published with
  | unreadable => cases h
  | json value' =>
    simp only [read] at h
    split_ifs at h
    rw [Except.ok.inj h]

theorem after_ends {result : PassResult} (hframe : s.frame.storable env.toCommitEnv)
    (hescaped : s.escaped = none) (hstored : result.Stored env.toCommitEnv) :
    (s.after (.ok result)).frame.storable env.toCommitEnv ∧ (s.after (.ok result)).escaped = none := by
  cases result with
  | moved moved => exact ⟨hstored moved rfl, hescaped⟩
  | _ => exact ⟨hframe, hescaped⟩

theorem after_published (result : Except Exc PassResult) : (s.after result).published = s.published := by
  match result with
  | .ok (.moved _) | .ok .lost | .ok .reported | .ok .pending | .error _ => rfl

variable {s' : PassState}

theorem published_of_poll {world : PollWorld}
    (h : passNext (σ := σ) env job jobId s (.poll world) = some s') : s'.published = s.published := by
  simp only [passNext] at h
  split_ifs at h
  rw [← Option.some.inj h]
  exact after_published _

theorem passNext_ends {step : PassStep σ} (hs : passInit env s)
    (hserved : Served env job s step) (hnext : passNext env job jobId s step = some s') :
    passInit env s' := by
  obtain ⟨hframe, hescaped⟩ := hs
  cases step with
  | publish published =>
    rw [← Option.some.inj hnext]
    exact ⟨hframe, hescaped⟩
  | elsewhere kind frame priority =>
    simp only [passNext] at hnext
    split_ifs at hnext with hstored
    rw [← Option.some.inj hnext]
    exact ⟨hstored, hescaped⟩
  | poll world =>
    obtain ⟨hsound, hreadable, hencodes⟩ := hserved
    simp only [passNext] at hnext
    split_ifs at hnext
    obtain ⟨result, hresult, hstored⟩ := commitPublishedOutcome_ends hsound hframe
      (ensures_read hreadable) fun outcome hok => hencodes outcome (Published.eq_of_read hok)
    rw [← Option.some.inj hnext, hresult]
    exact after_ends hframe hescaped hstored
  | resume world files =>
    obtain ⟨hsound, hrecords, hreadable, hstores⟩ := hserved
    simp only [passNext] at hnext
    split_ifs at hnext
    have hsound' : (publishing env world s.published).Sound env.toCommitEnv :=
      ⟨hsound.transaction, hsound.children, hsound.executor, hsound.labels, hsound.freshId,
        hsound.reread, hsound.moves⟩
    obtain ⟨result, hresult, hstored⟩ := resume_ends (c := ⟨jobId, s.priority, job, s.frame⟩)
      hsound' hrecords hframe (ensures_read hreadable)
      fun outcome hok => hstores outcome (Published.eq_of_read hok)
    rw [← Option.some.inj hnext, hresult]
    exact after_ends hframe hescaped hstored
  | evaluate world =>
    obtain ⟨hsound, hrecords, hjoin⟩ := hserved
    simp only [passNext] at hnext
    split_ifs at hnext
    obtain ⟨result, hresult, hstored⟩ := evaluateJoins_ends hsound hrecords hframe hjoin
    rw [← Option.some.inj hnext, hresult]
    exact after_ends hframe hescaped hstored

end Runs

/-! ## An exception that escapes -/

def plainJoinEnv : JoinEnv where
  toCommitEnv := plainCommitEnv
  globRefusal pattern :=
    if pattern.codes.head? = some '/'.toNat then
      some ⟨.notImplemented, [.lit "Non-relative patterns are unsupported"]⟩
    else none
  timestampSeconds _ := none
  globRefusal_absolute _ h := ⟨_, if_pos h⟩

def plainJob : JobDefinition :=
  ⟨.none, .isolated, "first", "digest", "default", [], RetryPolicy.unlimited []⟩

def runningFrame : StateFrame := StateFrame.empty.replace
  [(.step, .str "first"), (.activationId, .str "a1"), (.attemptId, .str "t1"),
    (.attemptControl, .str "attempts/t1")]

def surrogate : PyStr := ⟨[0xD800]⟩

def advanceTo (step : PyStr) : Json :=
  .obj [("format", .str "httk-workflow-outcome"), ("format_version", .int 2),
    ("job_id", .str "job"), ("activation_id", .str "a1"), ("attempt_id", .str "t1"),
    ("action", .str "advance"), ("next_step", .str step)]

def plainPoll : PollWorld where
  environmentReady := .ok true
  startedHere := false
  childDigests := .ok []
  childLabels := .ok []
  managerId := "m1"
  writerId := "w1"
  readFrame := .ok runningFrame
  reread := some runningFrame
  moves := .ok ⟨⟩
  records := .ok ⟨⟩

def plainCommit : CommitWorld PUnit where
  document := fun _ => .ok .null
  transaction := fun _ => none
  children := pure ⟨⟩
  executor := some (.ok ⟨⟩)
  labels := .ok []
  freshId := "a2"
  reread := none
  moves := .ok ⟨⟩
  records := .ok ⟨⟩

def publishedRun (step : PyStr) : List (PassStep PUnit) :=
  [.publish (.json (advanceTo step)), .poll plainPoll, .resume plainCommit ⟨⟩]

def runningJob : PassState := ⟨.running, runningFrame, 100, .unreadable, none⟩

theorem plainPoll_sound : plainPoll.Sound plainJoinEnv.toCommitEnv where
  environmentReady := trivial
  childDigests := fun e he => by cases he
  childLabels := fun e he => by cases he
  managerId := PyStr.encodable_ofString _
  writerId := PyStr.encodable_ofString _
  readFrame := by
    show runningFrame.storable _
    decide +kernel
  reread f h := by
    rw [← Option.some.inj h]
    decide +kernel
  moves := trivial
  records := trivial

theorem plainCommit_sound : plainCommit.Sound plainJoinEnv.toCommitEnv where
  transaction _ _ h := by cases h
  children _ := trivial
  executor commitOutcome h := by
    rw [← Option.some.inj h]
    trivial
  labels := fun e he => by cases he
  freshId := PyStr.encodable_ofString _
  reread _ h := by cases h
  moves := trivial

theorem advanceTo_stores {state : StateFrame} {priority : Int} {step : PyStr}
    {outcome : List (PyStr × Json)} (hstep : step.encodable = true)
    (houtcome : advanceTo step = .obj outcome) :
    OutcomeStores plainJoinEnv.toCommitEnv plainJob state priority outcome := by
  obtain rfl := Json.obj.inj houtcome
  refine ⟨?_, ?_, ?_, ?_, ?_, ?_⟩
  · intro _ _ _ _ h
    cases h
  · intro _ _ _ _ t ht
    rw [← Json.str.inj (Option.some.inj ht)]
    exact hstep
  all_goals
    intro h
    have hne := Json.str.inj (Option.some.inj h)
    exact absurd hne (by decide)

def plainNext : PassState → PassStep PUnit → Option PassState :=
  passNext plainJoinEnv plainJob "job"

def servedRuns : System PassState (PassStep PUnit) :=
  (System.ofNext (passInit plainJoinEnv) plainNext).guarded (Served plainJoinEnv plainJob)
