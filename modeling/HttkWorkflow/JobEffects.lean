import HttkWorkflow.TransitionTable

/-!
# What a step does to the identities and the counts

Every transition rebuilds the frame from members it selects, and much of what
a run is asked about is in six of them: the step and the identity of the
activation, the identity of the attempt, and the three ordinals
(`countingMembers`). `Effect` says what the steps do to those six and to the
state kind, in eight cases. Most of the transitions keep the six as they are.
-/

variable {σ : Type} {env : JoinEnv} {job : JobDefinition} {jobId : PyStr}
variable {base frame state progress : StateFrame} {move moved : Move}

/-- **The members that identify and count** activations and attempts. -/
def countingMembers : List Member :=
  [.step, .activationId, .activationOrdinal, .attemptId, .attemptOrdinal, .totalAttempts]

/-- **A frame keeps** the identities and the counts of another. -/
def Keeps (base frame : StateFrame) : Prop :=
  ∀ m ∈ countingMembers, frame.get m = base.get m

namespace Keeps

theorem refl (frame : StateFrame) : Keeps frame frame := fun _ _ => rfl

theorem trans (h : Keeps base progress) (h' : Keeps progress frame) : Keeps base frame :=
  fun m hm => (h' m hm).trans (h m hm)

theorem carried (state : StateFrame) : Keeps state state.carried := by
  intro m hm
  rw [StateFrame.get_carried, if_pos]
  revert m
  decide

theorem select {names : List Member} (hnames : carriedStateMembers ⊆ names) (state : StateFrame) :
    Keeps state (state.select names) := by
  intro m hm
  rw [StateFrame.get_select, if_pos]
  refine hnames ?_
  revert m
  decide

variable {written : List (Member × Json)}

theorem replace (h : Keeps base frame) (hother : ∀ m ∈ countingMembers, m ∉ written.map Prod.fst) :
    Keeps base (frame.replace written) := fun m hm =>
  (StateFrame.get_replace_other (hother m hm) frame).trans (h m hm)

theorem attempt (h : Keeps base frame) (hattempt : (frame.replace written).get .attemptId = base.get .attemptId)
    (hother : ∀ m ∈ countingMembers, m ≠ .attemptId → m ∉ written.map Prod.fst) :
    Keeps base (frame.replace written) := by
  intro m hm
  by_cases hname : m = .attemptId
  · rw [hname]
    exact hattempt
  · exact (StateFrame.get_replace_other (hother m hm hname) frame).trans (h m hm)

theorem withProcess (h : Keeps base frame) : Keeps base (withProcess state frame) := by
  intro m hm
  refine (get_withProcess ?_).trans (h m hm)
  revert m
  decide

theorem retained (h : Keeps base progress)
    (hretained : retainDeferredPauseProcess state progress = .ok frame) : Keeps base frame := by
  intro m hm
  refine (get_retained ?_ hretained).trans (h m hm)
  revert m
  decide

theorem string (h : Keeps base frame) {m : Member} (hm : m ∈ countingMembers) : frame.string m = base.string m := by
  unfold StateFrame.string
  rw [h m hm]

theorem integer (h : Keeps base frame) {m : Member} (hm : m ∈ countingMembers) :
    frame.integer m = base.integer m := StateFrame.integer_congr (h m hm)

theorem attemptId (h : Keeps base frame) : frame.attemptId = base.attemptId :=
  h.string (by decide)

theorem activationId (h : Keeps base frame) : frame.activationId = base.activationId :=
  h.string (by decide)

theorem activationOrdinal (h : Keeps base frame) :
    frame.activationOrdinal = base.activationOrdinal := h.integer (by decide)

theorem attemptOrdinal (h : Keeps base frame) : frame.attemptOrdinal = base.attemptOrdinal :=
  h.integer (by decide)

theorem totalAttempts (h : Keeps base frame) : frame.totalAttempts = base.totalAttempts :=
  h.integer (by decide)

end Keeps

/-- **A frame begins an activation** within its budget. -/
structure Begins (job : JobDefinition) (freshId : PyStr) (base frame : StateFrame) : Prop where
  activationId : frame.get .activationId = some (.str freshId)
  activationOrdinal :
    frame.get .activationOrdinal = some (.int (base.activationOrdinal.getD 1 + 1))
  attemptId : frame.get .attemptId = base.get .attemptId
  attemptOrdinal : frame.get .attemptOrdinal = some (.int 0)
  totalAttempts : frame.get .totalAttempts = base.get .totalAttempts
  budget : ∀ n, job.retryPolicy.maximumActivations = some n →
    base.activationOrdinal.getD 1 + 1 ≤ n

variable {freshId : PyStr}

theorem Begins.keeps (h : Begins job freshId base progress)
    (hkeeps : Keeps progress frame) : Begins job freshId base frame where
  activationId := (hkeeps _ (by decide)).trans h.activationId
  activationOrdinal := (hkeeps _ (by decide)).trans h.activationOrdinal
  attemptId := (hkeeps _ (by decide)).trans h.attemptId
  attemptOrdinal := (hkeeps _ (by decide)).trans h.attemptOrdinal
  totalAttempts := (hkeeps _ (by decide)).trans h.totalAttempts
  budget := h.budget

/-! ## The transitions of a commit -/

/-- **The kinds that are entered in one way**: by the submission, a claim, a
launch, a fence. -/
def enteredKinds : List StateKind := [.submitted, .claimed, .running, .committing]

/-- What an action or a request that is no claim asks for: the counts as they
were, or a new activation. -/
def Moves (job : JobDefinition) (freshId : PyStr) (state : StateFrame) (move : Move) : Prop :=
  (Keeps state move.frame ∧ move.kind ∉ enteredKinds)
    ∨ (Begins job freshId state move.frame ∧ move.kind = .ready)

variable {kind : StateKind} {priority : Option Int}

theorem Moves.kept (h : Keeps state frame) (hkind : kind ∉ enteredKinds) :
    Moves job freshId state ⟨kind, frame, priority⟩ := Or.inl ⟨h, hkind⟩

variable {cenv : CommitEnv}

/-- **`advance`** begins an activation, or ends the job over its budget. -/
theorem advance_moves {nextStep freshId : PyStr} {reason : String}
    {joinSummary resources : Json} (hprogress : Keeps state progress)
    (h : advance cenv job state progress nextStep freshId reason joinSummary resources priority
      = .ok move) : Moves job freshId state move := by
  unfold advance at h
  obtain ⟨retained, hretained, h⟩ := bind_eq_ok.mp h
  have hbase := hprogress.retained hretained
  simp only at h
  split_ifs at h with hbudget
  · rw [← Except.ok.inj h]
    exact Moves.kept (hbase.replace (by simp [countingMembers])) (by decide)
  · right
    rw [← Except.ok.inj h]
    refine ⟨⟨?_, ?_, ?_, ?_, ?_, ?_⟩, rfl⟩
    · simp
    · simp
    · exact (StateFrame.get_replace_other (by simp) retained).trans (hbase _ (by decide))
    · simp
    · exact (StateFrame.get_replace_other (by simp) retained).trans (hbase _ (by decide))
    · intro n hn
      rw [hn, Option.any_some, decide_eq_true_eq] at hbudget
      exact Int.not_lt.mp hbudget

/-- **`retry`** keeps the counts, which the next claim advances. -/
theorem retry_counts {reason : PyStr} {unclean : Bool} {evidence : Option (List (PyStr × Json))}
    (hprogress : Keeps state progress)
    (h : retry cenv job state progress reason unclean evidence priority = .ok move) :
    Keeps state move.frame ∧ move.kind ∉ enteredKinds := by
  refine ⟨fun m hm => (retry_keeps ?_ h).trans (hprogress m hm), ?_⟩
  · revert m
    decide
  · rcases retry_kind h with hkind | hkind <;> simp [hkind, enteredKinds]

variable {generation : Option Int}

theorem progressOf_keeps {steps : Option Json} : Keeps state (progressOf state generation steps) := by
  have hbase : Keeps state (state.carried.replace [(.dataGeneration, (generation.map Json.int).getD .null)]) :=
    (Keeps.carried state).replace (by simp [countingMembers])
  unfold progressOf
  cases steps with
  | none => exact hbase
  | some steps => exact hbase.replace (by simp [countingMembers])

/-- **An action** keeps the counts or begins an activation. -/
theorem outcomeMove_moves {priority : Int} {outcome : List (PyStr × Json)}
    {labels : Except Exc (List (PyStr × PyStr))}
    (h : outcomeMove cenv job priority state outcome generation labels freshId = .ok move) :
    Moves job freshId state move := by
  obtain ⟨steps, progress, hretained, hasks⟩ := asks_of_outcomeMove h
  have hbase : Keeps state progress := progressOf_keeps.retained hretained
  cases hasks with
  | advances _ _ h => exact advance_moves hbase h
  | retries _ h => exact Or.inl (retry_counts hbase h)
  | waits => exact Moves.kept (hbase.replace (by simp [countingMembers])) (by decide)
  | ends _ _ hkind hother =>
    refine Moves.kept (hbase.replace fun m hm => hother m (by revert m; decide)) ?_
    rcases hkind with rfl | rfl <;> decide
  | pauses => exact Moves.kept (hbase.withProcess.replace (by simp [countingMembers])) (by decide)

/-! ## The requests -/

variable {request : OperatorRequest}

theorem Keeps.audit (h : Keeps base frame) : Keeps base (audited frame request) := by
  have hnamed : Keeps base (frame.replace [(.operator, request.operator),
      (.operatorReason, request.reason), (.requestId, request.requestId)]) :=
    h.replace (by simp [countingMembers])
  unfold audited
  cases request.operatorKey with
  | none => exact hnamed
  | some key => exact hnamed.replace (by simp [countingMembers])

theorem Keeps.hazard (h : Keeps base frame) : Keeps base (withHazard frame request) := by
  unfold withHazard
  cases request.hazard with
  | none => exact h
  | some hazard => exact h.replace (by simp [countingMembers])

theorem Keeps.preserved (h : Keeps base frame) :
    Keeps base ((frame.replace (state.select preservedMembers).members).replace
      [(.reason, .str "operator_priority")]) := by
  have hpreserved : ∀ m ∈ countingMembers, m ∉ (state.select preservedMembers).members.map Prod.fst := by
    intro m hm hmem
    have hname := StateFrame.mem_of_mem_select hmem
    revert hm hname
    cases m <;> decide
  exact (h.replace hpreserved).replace (by simp [countingMembers])

theorem requestCancel_keeps (h : requestCancel kind state request = some move) : Keeps state move.frame := by
  have hselected : Keeps state (audited (state.select cancellingMembers) request) :=
    (Keeps.select (List.subset_append_left _ _) state).audit
  unfold requestCancel at h
  simp only at h
  split_ifs at h
  · rw [← Option.some.inj h]
    exact hselected.replace (by simp [countingMembers])
  · rw [← Option.some.inj h]
    exact hselected.replace (by simp [countingMembers])

theorem requestCancel_ends (h : requestCancel kind state request = some move) :
    move.kind = .cancelled ∨ move.kind = .cancelling := by
  rcases requestCancel_kind h with ⟨-, hcancelling⟩ | ⟨-, -, hcancelled⟩
  · exact Or.inr hcancelling
  · exact Or.inl hcancelled

theorem revive_moves {audit : StateFrame} {continues : Bool} (haudit : Keeps state audit)
    (h : revive cenv job state audit request continues = .ok move) :
    Moves job request.freshId state move := by
  rcases revive_cases h with ⟨-, h⟩ | ⟨name, h⟩
  · exact Or.inl (retry_counts haudit h)
  · exact advance_moves haudit h

theorem applyRequest_moves (h : applyRequest cenv job kind state request = .ok (some move)) :
    (Keeps state move.frame ∧ (move.kind ∈ enteredKinds → move.kind = kind))
      ∨ (Begins job request.freshId state move.frame ∧ move.kind = .ready
        ∧ (kind = .failed ∨ kind = .paused)) := by
  have hcarried : Keeps state (audited state.carried request) := (Keeps.carried state).audit
  cases requestAsks_of_apply h with
  | cancels _ _ h =>
    refine Or.inl ⟨requestCancel_keeps h, fun hmem => absurd hmem ?_⟩
    rcases requestCancel_ends h with hkind | hkind <;> simp [hkind, enteredKinds]
  | prioritizes => exact Or.inl ⟨hcarried.preserved, fun _ => rfl⟩
  | records => exact Or.inl ⟨(Keeps.refl state).replace (by simp [countingMembers]), fun _ => rfl⟩
  | pauses => exact Or.inl ⟨hcarried.replace (by simp [countingMembers]), by simp [enteredKinds]⟩
  | revives _ hfrom h =>
    rcases revive_moves hcarried.hazard h with ⟨hkeeps, hinactive⟩ | ⟨hbegins, hready⟩
    · exact Or.inl ⟨hkeeps, fun hmem => absurd hmem hinactive⟩
    · exact Or.inr ⟨hbegins, hready, hfrom⟩

/-! ## The effect of a step -/

/-- **A frame claims** an attempt within the budgets. -/
structure Claims (job : JobDefinition) (attemptId : PyStr) (base frame : StateFrame) : Prop where
  step : frame.get .step = base.get .step
  activationId : frame.get .activationId = base.get .activationId
  activationOrdinal : frame.get .activationOrdinal = base.get .activationOrdinal
  attemptId : frame.get .attemptId = some (.str attemptId)
  attemptOrdinal : frame.get .attemptOrdinal = some (.int (base.attemptOrdinal.getD 0 + 1))
  totalAttempts : frame.get .totalAttempts = some (.int (base.totalAttempts.getD 0 + 1))
  attemptBudget : ∀ n, job.retryPolicy.maximumAttemptsPerActivation = some n →
    base.attemptOrdinal.getD 0 + 1 ≤ n
  totalBudget : ∀ n, job.retryPolicy.maximumTotalAttempts = some n →
    base.totalAttempts.getD 0 + 1 ≤ n

/-- **A frame gives a claim back.** -/
structure Releases (base frame : StateFrame) : Prop where
  step : frame.get .step = base.get .step
  activationId : frame.get .activationId = base.get .activationId
  activationOrdinal : frame.get .activationOrdinal = base.get .activationOrdinal
  attemptId : frame.get .attemptId = base.get .attemptId
  attemptOrdinal :
    frame.get .attemptOrdinal = some (.int (max 0 (base.attemptOrdinal.getD 1 - 1)))
  totalAttempts : frame.get .totalAttempts = some (.int (max 0 (base.totalAttempts.getD 1 - 1)))

/-- **A frame registers a job.** -/
structure Registers (freshId : PyStr) (frame : StateFrame) : Prop where
  activationId : frame.get .activationId = some (.str freshId)
  activationOrdinal : frame.get .activationOrdinal = some (.int 1)
  attemptId : frame.get .attemptId = none
  attemptOrdinal : frame.get .attemptOrdinal = some (.int 0)
  totalAttempts : frame.get .totalAttempts = some (.int 0)

/-- A step that is neither a fence, nor a release, nor a registration. -/
structure JobStep.Plain (step : JobStep σ) : Prop where
  fence : step.isFence = false
  release : step.isRelease = false
  register : step.isRegister = false

/-- **What a step does** to the kind, the identities and the counts. -/
inductive Effect (job : JobDefinition) (s : JobState) (step : JobStep σ) (moved : Move) : Prop where
  | keeps (hplain : step.Plain) (hframe : Keeps s.frame moved.frame)
      (hkind : moved.kind ∈ enteredKinds → moved.kind = s.kind)
  | refuses (hplain : step.Plain) (hfrom : s.kind = .submitted) (hkind : moved.kind = .failed)
      (hframe : ∀ m ∈ countingMembers, moved.frame.get m = none)
  | registers (freshId : PyStr) (hstep : step = .register freshId) (hfrom : s.kind = .submitted)
      (hkind : moved.kind = .ready ∨ moved.kind = .paused) (hframe : Registers freshId moved.frame)
  | claims (hplain : step.Plain) (attemptId : PyStr) (hfresh : step.fresh = some attemptId)
      (hfrom : s.kind = .ready) (hkind : moved.kind = .claimed)
      (hframe : Claims job attemptId s.frame moved.frame)
  | releases (reason : PyStr) (hstep : step = .release reason) (hfrom : s.kind = .claimed)
      (hkind : moved.kind = .ready ∨ moved.kind = .paused) (hframe : Releases s.frame moved.frame)
  | launches (hplain : step.Plain) (hfrom : s.kind = .claimed) (hkind : moved.kind = .running)
      (hframe : Keeps s.frame moved.frame) (hattempt : s.frame.attemptId.isSome = true)
  | fences (hstep : step.isFence = true) (hplain : step.isRelease = false ∧ step.isRegister = false)
      (hfrom : s.kind = .running) (hkind : moved.kind = .committing)
      (hframe : Keeps s.frame moved.frame) (hattempt : s.frame.attemptId.isSome = true)
  | begins (hplain : step.Plain) (freshId : PyStr) (hfresh : step.fresh = some freshId)
      (hfrom : s.kind ∈ [StateKind.committing, .waiting, .failed, .paused])
      (hkind : moved.kind = .ready ∨ moved.kind = .paused)
      (hframe : Begins job freshId s.frame moved.frame)

section Effect

variable {s : JobState} {step : JobStep σ}

theorem Writes.keeps {kind : StateKind} (h : Writes env kind move moved) :
    Keeps move.frame moved.frame ∧ (moved.kind = move.kind ∨ (moved.kind = .paused
      ∧ (move.kind = .ready ∨ move.kind = .waiting ∨ move.kind = .paused))) := by
  obtain ⟨reread, hsettle⟩ := h.settled
  refine ⟨fun m hm => settle_get ?_ hsettle, ?_⟩
  · revert m
    decide
  · rcases settle_cases hsettle with ⟨hkind, -⟩ | ⟨hpaused, hkind, -⟩
    · exact Or.inl hkind
    · exact Or.inr ⟨hpaused, hkind⟩

theorem Writes.kind_mem {kind : StateKind} (h : Writes env kind move moved) (hmem : moved.kind ∈ enteredKinds) :
    moved.kind = move.kind := by
  rcases h.keeps.2 with hkind | ⟨hpaused, -⟩
  · exact hkind
  · rw [hpaused] at hmem
    exact absurd hmem (by decide)

theorem Writes.ready {kind : StateKind} (h : Writes env kind move moved) (hready : move.kind = .ready) :
    moved.kind = .ready ∨ moved.kind = .paused := by
  rcases h.keeps.2 with hkind | ⟨hpaused, -⟩
  · exact Or.inl (hkind.trans hready)
  · exact Or.inr hpaused

theorem Effect.of_keeps (hplain : step.Plain) (hwrites : Writes env s.kind move moved)
    (hframe : Keeps s.frame move.frame) (hkind : move.kind ∈ enteredKinds → move.kind = s.kind) :
    Effect job s step moved := by
  refine .keeps hplain (hframe.trans hwrites.keeps.1) fun hmem => ?_
  have hsame := hwrites.kind_mem hmem
  rw [hsame] at hmem ⊢
  exact hkind hmem

theorem Effect.of_moves {freshId : PyStr} (hplain : step.Plain)
    (hwrites : Writes env s.kind move moved) (hmoves : Moves job freshId s.frame move)
    (hfresh : step.fresh = some freshId)
    (hfrom : s.kind ∈ [StateKind.committing, .waiting, .failed, .paused]) :
    Effect job s step moved := by
  rcases hmoves with ⟨hframe, hinactive⟩ | ⟨hframe, hready⟩
  · exact .of_keeps hplain hwrites hframe fun hmem => absurd hmem hinactive
  · exact .begins hplain freshId hfresh hfrom (hwrites.ready hready) (hframe.keeps hwrites.keeps.1)

theorem attemptFailureMove_keeps {cenv : CommitEnv} {code : PyStr} {message : Message}
    {exitStatus : Option Int} {unclean : Bool} {evidence : Option (List (PyStr × Json))}
    (h : attemptFailureMove cenv job state code message exitStatus unclean evidence = .ok move) :
    Keeps state move.frame ∧ move.kind ∉ enteredKinds := by
  have hcarried := Keeps.carried state
  unfold attemptFailureMove at h
  split_ifs at h
  · exact retry_counts hcarried h
  · rw [← Except.ok.inj h]
    have hframe : Keeps state (withProcess state (state.carried.replace
        [(.failure, failure cenv code message exitStatus), (.reason, .str code)])) :=
      (hcarried.replace (by simp [countingMembers])).withProcess
    refine ⟨?_, by simp [enteredKinds]⟩
    show Keeps state (attemptFailed cenv state code message exitStatus evidence)
    unfold attemptFailed
    cases evidence with
    | none => exact hframe
    | some evidence => exact hframe.replace (by simp [countingMembers])

theorem takeoverMove_keeps {cenv : CommitEnv} {world : TakeoverWorld}
    (h : takeoverMove cenv world job state = .ok (some move)) :
    Keeps state move.frame ∧ move.kind ∉ enteredKinds := by
  obtain ⟨evidence, -, h⟩ := failure_of_takeover h
  exact attemptFailureMove_keeps h

theorem finishCancellation_keeps {world : CancelWorld}
    (h : finishCancellation world state = .ok (some move)) : Keeps state move.frame := by
  have hselected : Keeps state (state.select cancellingMembers) :=
    Keeps.select (List.subset_append_left _ _) state
  obtain ⟨-, ⟨proof, -, rfl⟩ | rfl⟩ := finishCancellation_cases h
  · exact hselected.replace (by simp [countingMembers])
  · exact hselected.replace (by simp [countingMembers])

theorem commitFailed_keeps {cenv : CommitEnv} {e : Exc} : Keeps state (commitFailed cenv state e).frame :=
  (Keeps.carried state).withProcess.replace (by simp [countingMembers])

theorem joinAsks_moves {world : JoinWorld} (h : JoinAsks env world job state move) :
    Moves job world.freshId state move := by
  cases h with
  | fails written hwritten =>
    refine Moves.kept ((Keeps.carried state).replace fun m hm hmem => ?_) (by decide)
    have hname := hwritten hmem
    revert hm hname
    cases m <;> decide
  | records childId =>
    exact Moves.kept ((Keeps.select (List.subset_append_left _ _) state).replace
      (by simp [countingMembers])) (by decide)
  | advances h =>
    obtain ⟨step, resources, h⟩ := advance_of_joinAdvance h
    exact advance_moves (Keeps.carried state) h

theorem launchMove_keeps {cenv : CommitEnv} {launcher : Launcher} (h : launchMove cenv state launcher = .ok move) :
    Keeps state move.frame ∧ move.kind = .running ∧ state.attemptId.isSome = true := by
  unfold launchMove at h
  obtain ⟨control, -, h⟩ := bind_eq_ok.mp h
  split at h
  · rename_i attemptId control hattempt
    rw [← Except.ok.inj h]
    refine ⟨(Keeps.carried state).attempt ?_ (by simp [countingMembers]), rfl, by rw [hattempt]; rfl⟩
    rw [(StateFrame.get_of_string hattempt).1]
    simp
  · cases h

theorem budget_of_none {attempts total : Int} (h : attemptBudgetFailure job attempts total = none) :
    (∀ n, job.retryPolicy.maximumAttemptsPerActivation = some n → attempts ≤ n)
      ∧ ∀ n, job.retryPolicy.maximumTotalAttempts = some n → total ≤ n := by
  unfold attemptBudgetFailure at h
  split_ifs at h with hattempts htotal
  refine ⟨fun n hn => ?_, fun n hn => ?_⟩
  · rw [hn, Option.any_some, decide_eq_true_eq] at hattempts
    exact Int.not_lt.mp hattempts
  · rw [hn, Option.any_some, decide_eq_true_eq] at htotal
    exact Int.not_lt.mp htotal

theorem claimMove_cases (cenv : CommitEnv) (job : JobDefinition) (state : StateFrame) (claimer : Claimer) :
    (Keeps state (claimMove cenv job state claimer).frame ∧ (claimMove cenv job state claimer).kind ∉ enteredKinds)
      ∨ ((claimMove cenv job state claimer).kind = .claimed
        ∧ Claims job claimer.attemptId state (claimMove cenv job state claimer).frame) := by
  have hcarried := Keeps.carried state
  unfold claimMove
  split_ifs
  · left
    exact ⟨hcarried.replace (by simp [countingMembers]), by simp [enteredKinds]⟩
  · simp only
    cases hbudget : attemptBudgetFailure job (state.attemptOrdinal.getD 0 + 1)
        (state.totalAttempts.getD 0 + 1) with
    | some text =>
      left
      exact ⟨hcarried.replace (by simp [countingMembers]), by simp [enteredKinds]⟩
    | none =>
      right
      refine ⟨rfl, ?_, ?_, ?_, ?_, ?_, ?_, ?_, ?_⟩
      · exact (StateFrame.get_replace_other (by simp) _).trans (hcarried _ (by decide))
      · exact (StateFrame.get_replace_other (by simp) _).trans (hcarried _ (by decide))
      · exact (StateFrame.get_replace_other (by simp) _).trans (hcarried _ (by decide))
      · simp [claimed]
      · simp [claimed]
      · simp [claimed]
      · exact fun n hn => (budget_of_none hbudget).1 n hn
      · exact fun n hn => (budget_of_none hbudget).2 n hn

theorem releaseMove_releases (state : StateFrame) (reason : PyStr) :
    Releases state (releaseMove state reason).frame := by
  have hcarried := Keeps.carried state
  refine ⟨?_, ?_, ?_, ?_, ?_, ?_⟩
  · exact (StateFrame.get_replace_other (by simp) _).trans (hcarried _ (by decide))
  · exact (StateFrame.get_replace_other (by simp) _).trans (hcarried _ (by decide))
  · exact (StateFrame.get_replace_other (by simp) _).trans (hcarried _ (by decide))
  · exact (StateFrame.get_replace_other (by simp) _).trans (hcarried _ (by decide))
  · simp [releaseMove]
  · simp [releaseMove]

theorem registered_registers (freshId : PyStr) : Registers freshId (registered job freshId) := by
  refine ⟨?_, ?_, ?_, ?_, ?_⟩
  · simp [registered]
  · simp [registered]
  · exact StateFrame.get_replace_other (by simp) StateFrame.empty
  · simp [registered]
  · simp [registered]

theorem Registers.keeps {freshId : PyStr} (h : Registers freshId base) (hkeeps : Keeps base frame) :
    Registers freshId frame where
  activationId := (hkeeps _ (by decide)).trans h.activationId
  activationOrdinal := (hkeeps _ (by decide)).trans h.activationOrdinal
  attemptId := (hkeeps _ (by decide)).trans h.attemptId
  attemptOrdinal := (hkeeps _ (by decide)).trans h.attemptOrdinal
  totalAttempts := (hkeeps _ (by decide)).trans h.totalAttempts

theorem Claims.keeps {attemptId : PyStr} (h : Claims job attemptId base progress)
    (hkeeps : Keeps progress frame) : Claims job attemptId base frame where
  step := (hkeeps _ (by decide)).trans h.step
  activationId := (hkeeps _ (by decide)).trans h.activationId
  activationOrdinal := (hkeeps _ (by decide)).trans h.activationOrdinal
  attemptId := (hkeeps _ (by decide)).trans h.attemptId
  attemptOrdinal := (hkeeps _ (by decide)).trans h.attemptOrdinal
  totalAttempts := (hkeeps _ (by decide)).trans h.totalAttempts
  attemptBudget := h.attemptBudget
  totalBudget := h.totalBudget

theorem Releases.keeps (h : Releases base progress) (hkeeps : Keeps progress frame) : Releases base frame where
  step := (hkeeps _ (by decide)).trans h.step
  activationId := (hkeeps _ (by decide)).trans h.activationId
  activationOrdinal := (hkeeps _ (by decide)).trans h.activationOrdinal
  attemptId := (hkeeps _ (by decide)).trans h.attemptId
  attemptOrdinal := (hkeeps _ (by decide)).trans h.attemptOrdinal
  totalAttempts := (hkeeps _ (by decide)).trans h.totalAttempts

theorem effect_of_asks (hprevious : s.previousState.isSome = true → s.kind = .claimed)
    (hasks : Asks env job jobId s step move) (hwrites : Writes env s.kind move moved) :
    Effect job s step moved := by
  obtain ⟨hkept, hkind⟩ := hwrites.keeps
  cases step with
  | register freshId =>
    obtain ⟨hfrom, rfl⟩ := hasks
    exact .registers freshId rfl hfrom (hwrites.ready rfl) ((registered_registers freshId).keeps hkept)
  | refuseSubmission message =>
    obtain ⟨hfrom, rfl⟩ := hasks
    refine .refuses ⟨rfl, rfl, rfl⟩ hfrom ?_ fun m hm => (hkept m hm).trans ?_
    · simpa using hkind
    · have hother : m ∉ ([Member.failure, .dataGeneration, .reason] : List Member) := by
        revert m
        decide
      exact StateFrame.get_replace_other (by simpa using hother) StateFrame.empty
  | claim claimer =>
    obtain ⟨hfrom, rfl⟩ := hasks
    rcases claimMove_cases env.toCommitEnv job s.frame claimer with
      ⟨hframe, hinactive⟩ | ⟨hclaimed, hframe⟩
    · exact .of_keeps ⟨rfl, rfl, rfl⟩ hwrites hframe fun hmem => absurd hmem hinactive
    · refine .claims ⟨rfl, rfl, rfl⟩ claimer.attemptId rfl hfrom ?_ (hframe.keeps hkept)
      simpa [hclaimed] using hkind
  | release reason =>
    obtain ⟨hfrom, rfl⟩ := hasks
    exact .releases reason rfl hfrom (hwrites.ready rfl) ((releaseMove_releases s.frame reason).keeps hkept)
  | launch launcher =>
    obtain ⟨howns, hmove⟩ := hasks
    obtain ⟨hframe, hrunning, hattempt⟩ := launchMove_keeps hmove
    refine .launches ⟨rfl, rfl, rfl⟩ (hprevious howns) ?_ (hframe.trans hkept) hattempt
    simpa [hrunning] using hkind
  | fail code message exitStatus =>
    obtain ⟨hframe, hinactive⟩ := attemptFailureMove_keeps hasks.2
    exact .of_keeps ⟨rfl, rfl, rfl⟩ hwrites hframe fun hmem => absurd hmem hinactive
  | takeover world =>
    obtain ⟨hframe, hinactive⟩ := takeoverMove_keeps hasks.2
    exact .of_keeps ⟨rfl, rfl, rfl⟩ hwrites hframe fun hmem => absurd hmem hinactive
  | fence world document =>
    obtain ⟨hfrom, outcome, childDigests, childLabels, control, -, hattempt, rfl⟩ := hasks
    refine .fences rfl ⟨rfl, rfl⟩ hfrom ?_ (Keeps.trans ?_ hkept) hattempt
    · simpa using hkind
    · obtain ⟨attemptId, hid⟩ := Option.isSome_iff_exists.mp hattempt
      refine ((Keeps.carried s.frame).attempt ?_ (by simp [countingMembers])).withProcess
      rw [(StateFrame.get_of_string hid).1, hid]
      simp [orNull]
  | apply world files =>
    obtain ⟨hfrom, outcome, generation, -, hmove⟩ := hasks
    exact .of_moves ⟨rfl, rfl, rfl⟩ hwrites (outcomeMove_moves hmove) rfl (by simp [hfrom])
  | failCommit error =>
    obtain ⟨hfrom, rfl⟩ := hasks
    exact .of_keeps ⟨rfl, rfl, rfl⟩ hwrites commitFailed_keeps
      fun hmem => absurd hmem (by simp [commitFailed, enteredKinds])
  | evaluate world =>
    obtain ⟨hfrom, hjoin⟩ := hasks
    exact .of_moves ⟨rfl, rfl, rfl⟩ hwrites (joinAsks_moves hjoin) rfl (by simp [hfrom])
  | request asked =>
    rcases applyRequest_moves hasks with ⟨hframe, hsame⟩ | ⟨hframe, hready, hfrom⟩
    · exact .of_keeps ⟨rfl, rfl, rfl⟩ hwrites hframe hsame
    · refine .begins ⟨rfl, rfl, rfl⟩ asked.freshId rfl ?_ (hwrites.ready hready) (hframe.keeps hkept)
      rcases hfrom with hfrom | hfrom <;> simp [hfrom]
  | pursue world =>
    refine .of_keeps ⟨rfl, rfl, rfl⟩ hwrites (finishCancellation_keeps hasks.2) fun hmem =>
      absurd hmem ?_
    rcases finishCancellation_kind hasks.2 with hcancel | hcancel <;> simp [hcancel, enteredKinds]

/-! ## The steps of a run -/

variable {a : JobStep σ × Bool}

theorem jobNext_eq_some {s' : JobState} : jobNext env job jobId s a = some s' ↔
      (∀ id, a.fst.fresh = some id → id ∉ s.issued ∧ id.codes ≠ [])
        ∧ ∃ moved, written env job jobId s a.snd a.fst = some moved
          ∧ s.after jobId a.fst moved = s' := by
  unfold jobNext
  rw [Option.ite_none_right_eq_some, Option.map_eq_some_iff]

theorem previousState_after (h : (s.after jobId step moved).previousState.isSome = true) :
    s.kind = .ready ∧ moved.kind = .claimed := by
  simp only [JobState.after] at h
  split_ifs at h with hclaims
  · exact hclaims
  · cases h

theorem claimed_of_previousState (hs : (jobRuns (σ := σ) env job jobId).Reachable s)
    (h : s.previousState.isSome = true) : s.kind = .claimed := by
  cases hs with
  | init hinit =>
    obtain ⟨priority, rfl⟩ := hinit
    cases h
  | step hs hnext =>
    obtain ⟨-, moved, -, rfl⟩ := jobNext_eq_some.mp hnext
    exact (previousState_after h).2

/-- **A step of a run from a reachable state** has an effect. -/
theorem effect_of_next {s' : JobState}
    (hs : (jobRuns (σ := σ) env job jobId).Reachable s) (h : jobNext env job jobId s a = some s') :
    ∃ move moved, (∀ id, a.fst.fresh = some id → id ∉ s.issued ∧ id.codes ≠ [])
      ∧ Asks env job jobId s a.fst move ∧ Writes env s.kind move moved
      ∧ Effect job s a.fst moved ∧ s.after jobId a.fst moved = s' := by
  obtain ⟨hfresh, moved, hwritten, hafter⟩ := jobNext_eq_some.mp h
  obtain ⟨move, hasks, hwrites⟩ := asks_of_written hwritten
  exact ⟨move, moved, hfresh, hasks, hwrites, effect_of_asks (claimed_of_previousState hs) hasks hwrites, hafter⟩

end Effect
