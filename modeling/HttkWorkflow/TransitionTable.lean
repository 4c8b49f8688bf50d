import HttkWorkflow.JobRunSteps

/-!
# The transitions of a job

The kinds a job moves between form a table: each step is made from some kinds
and asks for some others (`JobStep.edges`). `edge_of_asks` goes through the
steps once; which kinds can be reached from which is then read off the table
by evaluating it.

What is written is what was asked for, or a pause in the place of `ready` and
`waiting`.
-/

variable {σ : Type} {env : JoinEnv} {job : JobDefinition} {jobId : PyStr}
variable {state progress : StateFrame} {move moved : Move} {s : JobState} {step : JobStep σ}

/-- The transitions a request asks for. -/
def requestEdges : List (StateKind × StateKind) :=
  [(.submitted, .submitted), (.ready, .ready), (.waiting, .waiting), (.paused, .paused),
    (.failed, .failed),
    (.claimed, .claimed), (.running, .running), (.committing, .committing),
    (.submitted, .paused), (.ready, .paused), (.waiting, .paused),
    (.paused, .ready), (.failed, .ready), (.paused, .failed),
    (.running, .cancelling),
    (.submitted, .cancelled), (.ready, .cancelled), (.claimed, .cancelled),
    (.committing, .cancelled), (.waiting, .cancelled), (.paused, .cancelled),
    (.relocating, .cancelled), (.transferring, .cancelled)]

/-- **The transitions a step asks for.** -/
def JobStep.edges : JobStep σ → List (StateKind × StateKind)
  | .register _ => [(.submitted, .ready)]
  | .refuseSubmission _ => [(.submitted, .failed)]
  | .claim _ => [(.ready, .claimed), (.ready, .ready), (.ready, .failed)]
  | .release _ => [(.claimed, .ready)]
  | .launch _ => [(.claimed, .running)]
  | .fail _ _ _ => [(.claimed, .ready), (.claimed, .failed), (.running, .ready), (.running, .failed)]
  | .takeover _ => [(.running, .ready), (.running, .failed)]
  | .fence _ _ => [(.running, .committing)]
  | .apply _ _ => [(.committing, .ready), (.committing, .waiting), (.committing, .succeeded),
      (.committing, .failed), (.committing, .paused)]
  | .failCommit _ => [(.committing, .failed)]
  | .evaluate _ => [(.waiting, .ready), (.waiting, .waiting), (.waiting, .failed)]
  | .request _ => requestEdges
  | .pursue _ => [(.cancelling, .cancelled), (.cancelling, .cancelling)]

/-! ## What the actions ask for -/

variable {cenv : CommitEnv}

variable {priority : Option Int}

theorem advance_kind {nextStep freshId : PyStr} {reason : String} {joinSummary resources : Json}
    (h : advance cenv job state progress nextStep freshId reason joinSummary resources priority
      = .ok move) : move.kind = .ready ∨ move.kind = .failed := by
  unfold advance at h
  obtain ⟨retained, -, h⟩ := bind_eq_ok.mp h
  simp only at h
  split_ifs at h
  · rw [← Except.ok.inj h]
    exact Or.inr rfl
  · rw [← Except.ok.inj h]
    exact Or.inl rfl

variable {evidence : Option (List (PyStr × Json))}

variable {unclean : Bool}

theorem retry_kind {reason : PyStr} (h : retry cenv job state progress reason unclean evidence priority = .ok move) :
    move.kind = .ready ∨ move.kind = .failed := by
  unfold retry at h
  obtain ⟨retained, -, h⟩ := bind_eq_ok.mp h
  simp only at h
  split_ifs at h
  · rw [← Except.ok.inj h]
    exact Or.inr rfl
  · rw [← Except.ok.inj h]
    exact Or.inl rfl

theorem attemptFailureMove_kind {code : PyStr} {message : Message} {exitStatus : Option Int}
    (h : attemptFailureMove cenv job state code message exitStatus unclean evidence = .ok move) :
    move.kind = .ready ∨ move.kind = .failed := by
  unfold attemptFailureMove at h
  split_ifs at h
  · exact retry_kind h
  · rw [← Except.ok.inj h]
    exact Or.inr rfl

theorem takeoverMove_kind {world : TakeoverWorld} (h : takeoverMove cenv world job state = .ok (some move)) :
    move.kind = .ready ∨ move.kind = .failed := by
  obtain ⟨evidence, -, h⟩ := failure_of_takeover h
  exact attemptFailureMove_kind h

theorem outcomeMove_kind {priority : Int} {outcome : List (PyStr × Json)}
    {generation : Option Int} {labels : Except Exc (List (PyStr × PyStr))} {freshId : PyStr}
    (h : outcomeMove cenv job priority state outcome generation labels freshId = .ok move) :
    move.kind ∈ [StateKind.ready, .waiting, .succeeded, .failed, .paused] := by
  obtain ⟨steps, progress, -, hasks⟩ := asks_of_outcomeMove h
  cases hasks with
  | advances _ _ h => rcases advance_kind h with hready | hfailed <;> simp [*]
  | retries _ h => rcases retry_kind h with hready | hfailed <;> simp [*]
  | waits => simp
  | ends _ _ hkind _ => rcases hkind with rfl | rfl <;> simp
  | pauses => simp

theorem joinAsks_kind {world : JoinWorld} (h : JoinAsks env world job state move) :
    move.kind ∈ [StateKind.ready, .waiting, .failed] := by
  cases h with
  | fails written hwritten => simp
  | records childId => simp
  | advances h =>
    obtain ⟨step, resources, h⟩ := advance_of_joinAdvance h
    rcases advance_kind h with hready | hfailed
    · simp [hready]
    · simp [hfailed]

theorem claimMove_kind (cenv : CommitEnv) (job : JobDefinition) (state : StateFrame) (claimer : Claimer) :
    (claimMove cenv job state claimer).kind ∈ [StateKind.claimed, .ready, .failed] := by
  unfold claimMove
  split_ifs
  · simp
  · simp only
    split <;> simp

theorem launchMove_kind {launcher : Launcher}
    (h : launchMove cenv state launcher = .ok move) : move.kind = .running := by
  unfold launchMove at h
  obtain ⟨control, -, h⟩ := bind_eq_ok.mp h
  split at h
  · rw [← Except.ok.inj h]
  · cases h

theorem finishCancellation_kind {world : CancelWorld} (h : finishCancellation world state = .ok (some move)) :
    move.kind = .cancelled ∨ move.kind = .cancelling := by
  obtain ⟨-, ⟨proof, -, rfl⟩ | rfl⟩ := finishCancellation_cases h
  · exact Or.inl rfl
  · exact Or.inr rfl

variable {request : OperatorRequest}

theorem requestCancel_kind {kind : StateKind} (h : requestCancel kind state request = some move) :
    (kind = .running ∧ move.kind = .cancelling)
      ∨ (kind ≠ .running ∧ kind ≠ .cancelling ∧ move.kind = .cancelled) := by
  unfold requestCancel at h
  simp only at h
  split_ifs at h with hcancelling hrunning
  · rw [← Option.some.inj h]
    exact Or.inl ⟨hrunning, rfl⟩
  · rw [← Option.some.inj h]
    exact Or.inr ⟨hrunning, hcancelling, rfl⟩

theorem revive_kind {audit : StateFrame}
    {continues : Bool} (h : revive cenv job state audit request continues = .ok move) :
    move.kind = .ready ∨ move.kind = .failed := by
  rcases revive_cases h with ⟨-, h⟩ | ⟨name, h⟩
  · exact retry_kind h
  · exact advance_kind h

theorem applyRequest_edge {kind : StateKind} (h : applyRequest cenv job kind state request = .ok (some move)) :
    (kind, move.kind) ∈ requestEdges := by
  cases requestAsks_of_apply h with
  | cancels haction hterminal hcancel =>
    rcases requestCancel_kind hcancel with ⟨hrunning, hmove⟩ | ⟨hrunning, hcancelling, hmove⟩
    · simp [hrunning, hmove, requestEdges]
    · rw [hmove]
      revert hterminal hrunning hcancelling
      cases kind <;> simp [requestEdges, StateKind.isTerminal]
  | prioritizes priority haction hfrom =>
    revert hfrom
    cases kind <;> simp [requestEdges, priorityKinds]
  | records haction hfrom =>
    revert hfrom
    cases kind <;> simp [requestEdges, attemptKinds]
  | pauses haction hfrom =>
    revert hfrom
    cases kind <;> simp [requestEdges]
  | revives haction hfrom hrevive =>
    rcases hfrom with hfrom | hfrom <;> rcases revive_kind hrevive with hto | hto <;>
      simp [hfrom, hto, requestEdges]

/-! ## The table -/

/-- **Every transition a step asks for is in the table.** -/
theorem edge_of_asks (hprevious : s.previousState.isSome = true → s.kind = .claimed)
    (hasks : Asks env job jobId s step move) : (s.kind, move.kind) ∈ step.edges := by
  cases step with
  | register freshId =>
    obtain ⟨hfrom, rfl⟩ := hasks
    simp [hfrom, JobStep.edges]
  | refuseSubmission message =>
    obtain ⟨hfrom, rfl⟩ := hasks
    simp [hfrom, JobStep.edges]
  | claim claimer =>
    obtain ⟨hfrom, rfl⟩ := hasks
    have hkind := claimMove_kind env.toCommitEnv job s.frame claimer
    simpa [hfrom, JobStep.edges] using hkind
  | release reason =>
    obtain ⟨hfrom, rfl⟩ := hasks
    simp [hfrom, JobStep.edges, releaseMove]
  | launch launcher =>
    obtain ⟨howns, hmove⟩ := hasks
    simp [hprevious howns, launchMove_kind hmove, JobStep.edges]
  | fail code message exitStatus =>
    obtain ⟨hfrom, hmove⟩ := hasks
    have hfrom : s.kind = .claimed ∨ s.kind = .running := hfrom.imp_left hprevious
    rcases hfrom with hfrom | hfrom <;> rcases attemptFailureMove_kind hmove with hto | hto <;>
      simp [hfrom, hto, JobStep.edges]
  | takeover world =>
    obtain ⟨hfrom, hmove⟩ := hasks
    simpa [hfrom, JobStep.edges] using takeoverMove_kind hmove
  | fence world document =>
    obtain ⟨hfrom, outcome, childDigests, childLabels, control, -, -, rfl⟩ := hasks
    simp [hfrom, JobStep.edges]
  | apply world files =>
    obtain ⟨hfrom, outcome, generation, -, hmove⟩ := hasks
    have hkind := outcomeMove_kind hmove
    simpa [hfrom, JobStep.edges] using hkind
  | failCommit error =>
    obtain ⟨hfrom, rfl⟩ := hasks
    simp [hfrom, JobStep.edges, commitFailed]
  | evaluate world =>
    obtain ⟨hfrom, hjoin⟩ := hasks
    have hkind := joinAsks_kind hjoin
    simpa [hfrom, JobStep.edges] using hkind
  | request asked => exact applyRequest_edge hasks
  | pursue world =>
    obtain ⟨hfrom, hmove⟩ := hasks
    simpa [hfrom, JobStep.edges] using finishCancellation_kind hmove

theorem Writes.kind {kind : StateKind} (h : Writes env kind move moved) : moved.kind = move.kind
      ∨ (moved.kind = .paused ∧ move.kind ∈ [StateKind.ready, .waiting, .paused]) := by
  obtain ⟨reread, hsettle⟩ := h.settled
  rcases settle_cases hsettle with ⟨hkind, -⟩ | ⟨hpaused, hkind, -⟩
  · exact Or.inl hkind
  · exact Or.inr ⟨hpaused, by simpa using hkind⟩

theorem Writes.kind_of_ne {kind : StateKind} (h : Writes env kind move moved)
    (hkind : moved.kind ≠ .paused) : moved.kind = move.kind :=
  h.kind.resolve_right fun hpaused => hkind hpaused.1

theorem Writes.claimed_iff {kind : StateKind} (h : Writes env kind move moved) :
    moved.kind = .claimed ↔ move.kind = .claimed := by
  rcases h.kind with hkind | ⟨hpaused, hkind⟩
  · rw [hkind]
  · constructor
    · intro hclaimed
      rw [hpaused] at hclaimed
      cases hclaimed
    · intro hclaimed
      rw [hclaimed] at hkind
      simp at hkind

theorem Writes.get {kind : StateKind} {m : Member} (h : Writes env kind move moved)
    (hm : m ∉ pauseMembers) : moved.frame.get m = move.frame.get m := by
  obtain ⟨reread, hsettle⟩ := h.settled
  exact settle_get hm hsettle
