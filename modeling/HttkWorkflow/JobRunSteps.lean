import HttkWorkflow.JobRun

/-!
# What a transition of a run does

A step of a run checks what it found and then asks for a transition, and the
transition writes that, or a pause in its place. `Asks` is the first half,
with the checks resolved: the kind the job was in and the frame that is asked
for. `asks_of_written` goes through the steps once, and nothing after it looks
into a pass again.
-/

variable {σ : Type} {env : JoinEnv} {job : JobDefinition} {jobId : PyStr}
variable {base frame state progress : StateFrame} {move moved : Move}

/-! ## What a step asks for -/

/-- **What the pass over a waiting job asks for.** -/
inductive JoinAsks (env : JoinEnv) (world : JoinWorld) (job : JobDefinition) (state : StateFrame) :
    Move → Prop where
  | fails (written : List (Member × Json))
      (hwritten : written.map Prod.fst ⊆ [.failure, .joinSummary, .reason]) :
      JoinAsks env world job state ⟨.failed, state.carried.replace written, none⟩
  | records (childId : PyStr) :
      JoinAsks env world job state
        ⟨.waiting, (state.select (carriedStateMembers ++ [.nextStep, .join])).replace
          [(.joinUnresolved, .obj [("child_id", .str childId),
              ("first_unresolved_at", .str world.utcNow)]),
            (.reason, .str "join_child_unresolved")], none⟩
  | advances {nextStep : Option Json} {name reason : String} {observations : List Json} {move : Move}
      (h : joinAdvance env world job state nextStep name reason observations = .ok move) :
      JoinAsks env world job state move

/-- The kinds whose jobs a request gives a priority. -/
def priorityKinds : List StateKind := [.submitted, .ready, .waiting, .paused, .failed]

def attemptKinds : List StateKind := [.claimed, .running, .committing]

def pauseRecord (asked : OperatorRequest) : Json :=
  .obj [("operator", asked.operator), ("reason", asked.reason), ("request_id", asked.requestId),
    ("requested_at", .str asked.requestedAt)]

def OperatorRequest.isFor (asked : OperatorRequest) (action : String) : Bool :=
  Json.optEqStr asked.action (PyStr.ofString action)

/-- **What a request asks for**, in a kind that allows it. -/
inductive RequestAsks (cenv : CommitEnv) (job : JobDefinition) (kind : StateKind)
    (state : StateFrame) (asked : OperatorRequest) : Move → Prop where
  | cancels {move : Move} (haction : asked.isFor "cancel" = true)
      (hkind : kind.isTerminal = false) (h : requestCancel kind state asked = some move) :
      RequestAsks cenv job kind state asked move
  | prioritizes (priority : Int) (haction : asked.isFor "set_priority" = true)
      (hkind : kind ∈ priorityKinds) :
      RequestAsks cenv job kind state asked
        ⟨kind, ((audited state.carried asked).replace (state.select preservedMembers).members).replace
          [(.reason, .str "operator_priority")], some priority⟩
  | records (haction : asked.isFor "pause" = true) (hkind : kind ∈ attemptKinds) :
      RequestAsks cenv job kind state asked
        ⟨kind, state.replace [(.pauseRequested, pauseRecord asked)], none⟩
  | pauses (haction : asked.isFor "pause" = true)
      (hkind : kind ∈ [StateKind.submitted, .ready, .waiting]) :
      RequestAsks cenv job kind state asked
        ⟨.paused, (audited state.carried asked).replace [(.reason, .str "operator_pause")], none⟩
  | revives {move : Move}
      (haction : asked.isFor "continue" = true ∨ asked.isFor "override_step" = true)
      (hkind : kind = .failed ∨ kind = .paused)
      (h : revive cenv job state (withHazard (audited state.carried asked) asked) asked
        (asked.isFor "continue") = .ok move) :
      RequestAsks cenv job kind state asked move

/-- **What a step asks for**, its checks resolved. -/
def Asks (env : JoinEnv) (job : JobDefinition) (jobId : PyStr) (s : JobState) :
    JobStep σ → Move → Prop
  | .register freshId, move => s.kind = .submitted ∧ move = ⟨.ready, registered job freshId, none⟩
  | .refuseSubmission message, move =>
    s.kind = .submitted ∧ move = ⟨.failed, submissionInvalid env.toCommitEnv message, none⟩
  | .claim claimer, move => s.kind = .ready ∧ move = claimMove env.toCommitEnv job s.frame claimer
  | .release reason, move => s.kind = .claimed ∧ move = releaseMove s.frame reason
  | .launch launcher, move =>
    s.previousState.isSome = true ∧ launchMove env.toCommitEnv s.frame launcher = .ok move
  | .fail code message exitStatus, move =>
    (s.previousState.isSome = true ∨ s.kind = .running)
      ∧ attemptFailureMove env.toCommitEnv job s.frame code message exitStatus true none = .ok move
  | .takeover world, move =>
    s.kind = .running ∧ takeoverMove env.toCommitEnv world job s.frame = .ok (some move)
  | .fence world document, move => s.kind = .running ∧ ∃ outcome childDigests childLabels control,
    readOutcome document jobId s.frame = .ok outcome ∧ s.frame.attemptId.isSome = true
      ∧ move = ⟨.committing, withProcess s.frame (s.frame.carried.replace
        [(.managerId, .str world.managerId), (.writerId, .str world.writerId),
          (.attemptId, orNull s.frame.attemptId), (.attemptControl, .str control),
          (.outcomeAction, (Json.get outcome "action").getD .null),
          (.childDigests, childDigests), (.childLabels, childLabels),
          (.reason, .str "outcome_published")]), none⟩
  | .apply world files, move => s.kind = .committing ∧ ∃ outcome generation,
    readOutcome (world.document files) jobId s.frame = .ok outcome
      ∧ outcomeMove env.toCommitEnv job s.priority s.frame outcome generation world.labels
        world.freshId = .ok move
  | .failCommit error, move =>
    s.kind = .committing ∧ move = commitFailed env.toCommitEnv s.frame error
  | .evaluate world, move => s.kind = .waiting ∧ JoinAsks env world job s.frame move
  | .request asked, move => applyRequest env.toCommitEnv job s.kind s.frame asked = .ok (some move)
  | .pursue world, move =>
    s.kind = .cancelling ∧ finishCancellation world s.frame = .ok (some move)

theorem some_of_map {β : Type} {x : Except Exc β} {b : β} (h : x.map some = .ok (some b)) : x = .ok b := by
  cases x with
  | error e => cases h
  | ok b' => rw [Option.some.inj (Except.ok.inj h)]

variable {cenv : CommitEnv}

theorem failure_of_takeover {world : TakeoverWorld} (h : takeoverMove cenv world job state = .ok (some move)) :
    ∃ evidence, takeoverEvidence world job state = .ok (some evidence)
      ∧ attemptFailureMove cenv job state "lease_lost" [.lit "owning manager heartbeat expired"] none
        true (some evidence) = .ok move := by
  unfold takeoverMove at h
  split_ifs at h
  · cases Except.ok.inj h
  · obtain ⟨evidence, hevidence, h⟩ := bind_eq_ok.mp h
    cases evidence with
    | none => cases Except.ok.inj h
    | some evidence => exact ⟨evidence, hevidence, some_of_map h⟩

theorem finishCancellation_cases {world : CancelWorld} (h : finishCancellation world state = .ok (some move)) :
    world.signalled = .ok ⟨⟩ ∧ ((∃ proof, cancellationEvidence world state = .ok (some proof)
          ∧ move = ⟨.cancelled, (state.select cancellingMembers).replace
            [(.cancellation, .obj proof), (.reason, .str "operator_cancel")], none⟩)
        ∨ move = reportUnverifiable world state) := by
  unfold finishCancellation at h
  obtain ⟨u, hsignalled, h⟩ := bind_eq_ok.mp h
  obtain ⟨proof, hproof, h⟩ := bind_eq_ok.mp h
  refine ⟨hsignalled, ?_⟩
  cases proof with
  | some proof => exact Or.inl ⟨proof, hproof, (Option.some.inj (Except.ok.inj h)).symm⟩
  | none =>
    simp only at h
    split_ifs at h
    · cases Except.ok.inj h
    · exact Or.inr (Option.some.inj (Except.ok.inj h)).symm

theorem revive_cases {audit : StateFrame} {request : OperatorRequest}
    {continues : Bool} (h : revive cenv job state audit request continues = .ok move) :
    (continues = true ∧ retry cenv job state audit "manual_continue" false none none = .ok move)
      ∨ ∃ name, advance cenv job state audit name request.freshId "operator_override_step" .null .null
        none = .ok move := by
  unfold revive at h
  split_ifs at h with hcontinues
  · cases h
  · exact Or.inl ⟨hcontinues, h⟩
  · obtain ⟨name, -, h⟩ := bind_eq_ok.mp h
    exact Or.inr ⟨name, h⟩

variable {world : JoinWorld}

theorem advance_of_joinAdvance {nextStep : Option Json} {name reason : String} {observations : List Json}
    (h : joinAdvance env world job state nextStep name reason observations = .ok move) :
    ∃ step resources, advance env.toCommitEnv job state state.carried step world.freshId reason
      (.arr observations) resources none = .ok move := by
  unfold joinAdvance at h
  obtain ⟨step, -, h⟩ := bind_eq_ok.mp h
  obtain ⟨resources, -, h⟩ := bind_eq_ok.mp h
  exact ⟨step, resources, h⟩

variable {kind : StateKind}

/-- **A request that asks for a transition** asks for one of its action. -/
theorem requestAsks_of_apply {asked : OperatorRequest}
    (h : applyRequest cenv job kind state asked = .ok (some move)) :
    RequestAsks cenv job kind state asked move := by
  unfold applyRequest at h
  simp only at h
  split_ifs at h with hcancel hpriority hactive hquiet hpaused hrevive hhazard
  · exact .cancels hcancel.1 hcancel.2 (Except.ok.inj h)
  · obtain ⟨priority, -, h⟩ := bind_eq_ok.mp h
    rw [← Option.some.inj (Except.ok.inj h)]
    exact .prioritizes priority hpriority.1 hpriority.2
  · rw [← Option.some.inj (Except.ok.inj h)]
    exact .records hactive.1 hactive.2
  · rw [← Option.some.inj (Except.ok.inj h)]
    exact .pauses hquiet.1 hquiet.2
  · cases Except.ok.inj h
  · cases Except.ok.inj h
  · exact .revives hrevive.1 hrevive.2 (some_of_map h)

theorem moved_of_map {x : Except Exc Move} (h : x.map PassResult.moved = .ok (.moved moved)) : x = .ok moved := by
  cases x with
  | error e => cases h
  | ok moved' => rw [PassResult.moved.inj (Except.ok.inj h)]

/-- **The transition a step makes**: the frame it reads once more is its own
marker's, if it can be read. -/
def Writes (env : JoinEnv) (kind : StateKind) (move moved : Move) : Prop :=
  ∃ reread renames, transition env.toCommitEnv reread kind renames move = .ok moved

theorem Writes.settled (h : Writes env kind move moved) :
    ∃ reread, settle reread kind move.kind move.frame = .ok (moved.kind, moved.frame) := by
  obtain ⟨reread, renames, h⟩ := h
  unfold transition at h
  obtain ⟨⟨kind', frame⟩, hsettle, h⟩ := bind_eq_ok.mp h
  simp only at h
  split_ifs at h
  obtain ⟨u, -, h⟩ := bind_eq_ok.mp h
  rw [← Except.ok.inj h]
  exact ⟨reread, hsettle⟩

variable {s : JobState}

theorem writes_of_moveTo {reread : Bool} (h : moveTo env s reread move = some moved) : Writes env s.kind move moved :=
  ⟨_, _, toOption_eq_some.mp h⟩

theorem asks_of_failWaiting {code reason : PyStr} {message : Message}
    (h : failWaiting env world state code message reason = .ok (.moved moved)) :
    ∃ move, JoinAsks env world job state move ∧ Writes env .waiting move moved := by
  unfold failWaiting at h
  split at h
  · rename_i moved' htransition
    rw [PassResult.moved.inj (Except.ok.inj h)] at htransition
    exact ⟨_, .fails _ (by simp), _, _, htransition⟩
  · split_ifs at h
    cases h

theorem asks_of_handleUnresolvedJoin {childId : PyStr}
    (h : handleUnresolvedJoin env world state childId = .ok (.moved moved)) :
    ∃ move, JoinAsks env world job state move ∧ Writes env .waiting move moved := by
  unfold handleUnresolvedJoin at h
  simp only at h
  split_ifs at h
  · exact asks_of_failWaiting h
  · cases h
  · exact ⟨_, .records childId, _, _, moved_of_map h⟩

theorem asks_of_evaluate (h : evaluate env world job state = .ok (.moved moved)) :
    ∃ move, JoinAsks env world job state move ∧ Writes env .waiting move moved := by
  unfold evaluate at h
  obtain ⟨join, -, h⟩ := bind_eq_ok.mp h
  obtain ⟨children, -, h⟩ := bind_eq_ok.mp h
  obtain ⟨⟨observed, unresolved⟩, -, h⟩ := bind_eq_ok.mp h
  cases unresolved with
  | some childId => exact asks_of_handleUnresolvedJoin h
  | none =>
    obtain ⟨verdict, -, h⟩ := bind_eq_ok.mp h
    cases verdict with
    | blocked => cases h
    | satisfied =>
      obtain ⟨move, hmove, h⟩ := bind_eq_ok.mp h
      exact ⟨move, .advances hmove, _, _, moved_of_map h⟩
    | impossible =>
      simp only at h
      split at h
      · obtain ⟨move, hmove, h⟩ := bind_eq_ok.mp h
        exact ⟨move, .advances hmove, _, _, moved_of_map h⟩
      · exact ⟨_, .fails _ (by simp), _, _, moved_of_map h⟩

theorem asks_of_evaluateJoins (h : evaluateJoins env world job state = .ok (.moved moved)) :
    ∃ move, JoinAsks env world job state move ∧ Writes env .waiting move moved := by
  unfold evaluateJoins at h
  split at h
  · rename_i result hresult
    rw [Except.ok.inj h] at hresult
    exact asks_of_evaluate hresult
  · split_ifs at h
    · cases h
    · exact asks_of_failWaiting h
    · cases h

theorem asks_of_beginCommit {world : PollWorld} {document : Except Exc Json} (hkind : s.kind = .running)
    (h : beginCommit env.toCommitEnv world jobId s.frame document = .ok moved) :
    ∃ move, Asks env job jobId s (.fence world document : JobStep σ) move
      ∧ Writes env s.kind move moved := by
  unfold beginCommit at h
  obtain ⟨outcome, houtcome, h⟩ := bind_eq_ok.mp h
  obtain ⟨childDigests, -, h⟩ := bind_eq_ok.mp h
  obtain ⟨childLabels, -, h⟩ := bind_eq_ok.mp h
  obtain ⟨control, -, h⟩ := bind_eq_ok.mp h
  split at h
  · rename_i attemptId control hattempt
    refine ⟨_, ⟨hkind, outcome, textMapping childDigests, textMapping childLabels, control, houtcome,
      ?_, rfl⟩, world.reread, world.moves, ?_⟩
    · rw [hattempt]
      rfl
    · rw [hattempt, hkind]
      exact h
  · cases h

/-- **Every transition of a run** writes what its step asks for. -/
theorem asks_of_written {reread : Bool} {step : JobStep σ} (h : written env job jobId s reread step = some moved) :
    ∃ move, Asks env job jobId s step move ∧ Writes env s.kind move moved := by
  cases step with
  | register freshId =>
    obtain ⟨hkind, h⟩ := Option.ite_none_right_eq_some.mp h
    exact ⟨_, ⟨hkind, rfl⟩, writes_of_moveTo h⟩
  | refuseSubmission message =>
    obtain ⟨hkind, h⟩ := Option.ite_none_right_eq_some.mp h
    exact ⟨_, ⟨hkind, rfl⟩, writes_of_moveTo h⟩
  | claim claimer =>
    obtain ⟨hkind, h⟩ := Option.ite_none_right_eq_some.mp h
    exact ⟨_, ⟨hkind, rfl⟩, writes_of_moveTo h⟩
  | release reason =>
    obtain ⟨hkind, h⟩ := Option.ite_none_right_eq_some.mp h
    exact ⟨_, ⟨hkind, rfl⟩, writes_of_moveTo h⟩
  | launch launcher =>
    obtain ⟨howns, h⟩ := Option.ite_none_right_eq_some.mp h
    obtain ⟨move, hmove, h⟩ := Option.bind_eq_some_iff.mp h
    exact ⟨move, ⟨howns, toOption_eq_some.mp hmove⟩, writes_of_moveTo h⟩
  | fail code message exitStatus =>
    obtain ⟨hkind, h⟩ := Option.ite_none_right_eq_some.mp h
    obtain ⟨move, hmove, h⟩ := Option.bind_eq_some_iff.mp h
    exact ⟨move, ⟨hkind, toOption_eq_some.mp hmove⟩, writes_of_moveTo h⟩
  | takeover world =>
    obtain ⟨hkind, h⟩ := Option.ite_none_right_eq_some.mp h
    obtain ⟨move, hmove, h⟩ := Option.bind_eq_some_iff.mp h
    exact ⟨move, ⟨hkind, toOption_join_eq_some.mp hmove⟩, writes_of_moveTo h⟩
  | fence world document =>
    obtain ⟨hkind, h⟩ := Option.ite_none_right_eq_some.mp h
    exact asks_of_beginCommit hkind (toOption_eq_some.mp h)
  | apply world files =>
    obtain ⟨hkind, h⟩ := Option.ite_none_right_eq_some.mp h
    obtain ⟨outcome, generation, -, -, move, hread, -, -, -, hmove, hmoved⟩ :=
      processCommitting_moved (g := Effects.final _ files) ⟨toOption_join_eq_some.mp h, rfl⟩
    refine ⟨move, ⟨hkind, outcome, generation, hread, hmove⟩, world.reread, world.moves, ?_⟩
    rw [hkind]
    exact hmoved
  | failCommit error =>
    obtain ⟨hkind, h⟩ := Option.ite_none_right_eq_some.mp h
    exact ⟨_, ⟨hkind, rfl⟩, writes_of_moveTo h⟩
  | evaluate world =>
    obtain ⟨hkind, h⟩ := Option.ite_none_right_eq_some.mp h
    obtain ⟨move, hasks, hwrites⟩ := asks_of_evaluateJoins (committed_eq_some.mp h)
    refine ⟨move, ⟨hkind, hasks⟩, ?_⟩
    rw [hkind]
    exact hwrites
  | request asked =>
    obtain ⟨move, hmove, h⟩ := Option.bind_eq_some_iff.mp h
    exact ⟨move, toOption_join_eq_some.mp hmove, writes_of_moveTo h⟩
  | pursue world =>
    obtain ⟨hkind, h⟩ := Option.ite_none_right_eq_some.mp h
    obtain ⟨move, hmove, h⟩ := Option.bind_eq_some_iff.mp h
    exact ⟨move, ⟨hkind, toOption_join_eq_some.mp hmove⟩, writes_of_moveTo h⟩
