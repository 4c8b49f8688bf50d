import HttkWorkflow.Commit

/-!
# What a commit asks of an outcome

Behind the replay of its transaction a commit reads one member of the
outcome after the other, and each may be refused. `OutcomeChecks` lists what
is asked, in the order of the source, and `outcomeMove_ok_iff` says that it is
all: an outcome that meets it is followed to the frame its action writes.

The transition to that frame asks one thing more. If the job is to go on, a
request to pause that came in the meantime takes the place of the new state,
and needs the process of the attempt, which the frame does not have
(`LatePause`).
-/

variable {env : CommitEnv} {job : JobDefinition} {priority : Int} {state progress : StateFrame}
variable {outcome : List (PyStr × Json)} {generation : Option Int}
variable {labels : Except Exc (List (PyStr × PyStr))} {freshId : PyStr} {move : Move}

/-- **What the action of an outcome asks for.** -/
inductive ActionChecks (outcome : List (PyStr × Json)) (labels : Except Exc (List (PyStr × PyStr))) : Prop where
  | advance (haction : actionOf outcome = "advance")
      (hnext : ∃ step, validateStep (Json.get outcome "next_step") "next_step" = .ok step)
  | retry (haction : actionOf outcome = "retry") (hreason : ∃ reason, nestedReason outcome "retry" = .ok reason)
  | wait (haction : actionOf outcome = "wait")
      (hnext : ∃ step, validateStep (Json.get outcome "next_step") "next_step" = .ok step)
      (hjoin : ∃ join, Json.get outcome "join" = some (.obj join)) (hlabels : ∃ l, labels = .ok l)
  | succeed (haction : actionOf outcome = "succeed")
  | fail (haction : actionOf outcome = "fail")
      (hfailure : ∀ e, validateFailure (Json.get outcome "failure") "failure" = .error e → e.cls = .formatError)
  | pause (haction : actionOf outcome = "pause")

/-- **What is asked of the members of an outcome**, one field a check. -/
structure OutcomeChecks (priority : Int) (state : StateFrame) (outcome : List (PyStr × Json))
    (labels : Except Exc (List (PyStr × PyStr))) : Prop where
  resources : Json.get outcome "resources" = none ∨ ((actionOf outcome = "advance" ∨ actionOf outcome = "wait")
    ∧ ∃ r, validateResources (Json.get outcome "resources") "outcome.resources" = .ok r)
  steps : ∃ steps, declaredRunnerSteps outcome = .ok steps
  pausing : state.pauseRequested = none ∨ state.has .process = true
  priority : ∃ p, outcomePriority outcome priority = .ok p
  action : ActionChecks outcome labels

/-! ## The single checks -/

theorem ok_bind {α β : Type} (a : α) (k : α → Except Exc β) : (Except.ok a >>= k) = k a := rfl

theorem exists_ok_bind {α β : Type} {a : α} {x : Except Exc α} {k : α → Except Exc β} (h : x = .ok a) :
    (∃ b, (x >>= k) = .ok b) ↔ ∃ b, k a = .ok b := by
  rw [h, ok_bind]

theorem outcomeResources_ok_iff {action : PyStr} : (∃ r, outcomeResources outcome action = .ok r)
    ↔ Json.get outcome "resources" = none ∨ ((action = "advance" ∨ action = "wait")
      ∧ ∃ r, validateResources (Json.get outcome "resources") "outcome.resources" = .ok r) := by
  unfold outcomeResources
  cases hget : Json.get outcome "resources" with
  | none => exact iff_of_true ⟨none, rfl⟩ (Or.inl rfl)
  | some value =>
    simp only [reduceCtorEq, false_or]
    split_ifs with hother
    · refine iff_of_false (by rintro ⟨r, h⟩; cases h) fun hresources => ?_
      exact hresources.1.elim hother.1 hother.2
    · have haction : action = "advance" ∨ action = "wait" := by
        by_contra hnone
        exact hother (not_or.mp hnone)
      rw [and_iff_right haction]
      constructor
      · rintro ⟨r, h⟩
        obtain ⟨r', hr', -⟩ := map_eq_ok.mp h
        exact ⟨r', hr'⟩
      · rintro ⟨r, h⟩
        exact ⟨some r, by rw [h]; rfl⟩

theorem retained_ok_iff (progress : StateFrame) : (∃ frame, retainDeferredPauseProcess state progress = .ok frame)
    ↔ state.pauseRequested = none ∨ state.has .process = true := by
  unfold retainDeferredPauseProcess StateFrame.has
  cases state.pauseRequested with
  | none => exact iff_of_true ⟨progress, rfl⟩ (Or.inl rfl)
  | some requested =>
    cases state.get .process with
    | none => exact iff_of_false (by rintro ⟨frame, h⟩; cases h) (by simp)
    | some process => exact iff_of_true ⟨_, rfl⟩ (Or.inr rfl)

theorem advance_ok (hpausing : state.pauseRequested = none ∨ state.has .process = true) (progress : StateFrame)
    (nextStep : PyStr) (reason : String) (joinSummary resources : Json) (priority : Option Int) :
    ∃ move, advance env job state progress nextStep freshId reason joinSummary resources priority = .ok move := by
  obtain ⟨frame, hframe⟩ := (retained_ok_iff progress).mpr hpausing
  unfold advance
  rw [hframe, ok_bind]
  dsimp only
  split_ifs
  · exact ⟨_, rfl⟩
  · exact ⟨_, rfl⟩

theorem retry_ok (hpausing : state.pauseRequested = none ∨ state.has .process = true) (progress : StateFrame)
    (reason : PyStr) (unclean : Bool) (evidence : Option (List (PyStr × Json))) (priority : Option Int) :
    ∃ move, retry env job state progress reason unclean evidence priority = .ok move := by
  obtain ⟨frame, hframe⟩ := (retained_ok_iff progress).mpr hpausing
  unfold retry
  rw [hframe, ok_bind]
  dsimp only
  split_ifs
  · exact ⟨_, rfl⟩
  · exact ⟨_, rfl⟩

theorem failMove_ok_iff (hpausing : state.pauseRequested = none ∨ state.has .process = true)
    (progress : StateFrame) : (∃ move, failMove env job state progress outcome priority = .ok move)
      ↔ ∀ e, validateFailure (Json.get outcome "failure") "failure" = .error e → e.cls = .formatError := by
  unfold failMove
  cases validateFailure (Json.get outcome "failure") "failure" with
  | ok value =>
    refine iff_of_true ?_ fun e h => by cases h
    dsimp only
    split_ifs
    · exact retry_ok hpausing progress value.code false none _
    · exact ⟨_, rfl⟩
  | error e =>
    dsimp only
    split_ifs with hformat
    · exact iff_of_true ⟨_, rfl⟩ fun e' h => Except.error.inj h ▸ hformat
    · exact iff_of_false (by rintro ⟨move, h⟩; cases h) fun h => hformat (h e rfl)

/-! ## All of them -/

/-- **An outcome that is followed** met every check. -/
theorem OutcomeChecks.of_ok (h : outcomeMove env job priority state outcome generation labels freshId = .ok move) :
    OutcomeChecks priority state outcome labels := by
  unfold outcomeMove at h
  obtain ⟨resources, hresources, h⟩ := bind_eq_ok.mp h
  obtain ⟨steps, hsteps, h⟩ := bind_eq_ok.mp h
  obtain ⟨progress, hretained, h⟩ := bind_eq_ok.mp h
  obtain ⟨p, hpriority, h⟩ := bind_eq_ok.mp h
  have hpausing := (retained_ok_iff _).mp ⟨progress, hretained⟩
  refine ⟨outcomeResources_ok_iff.mp ⟨resources, hresources⟩, ⟨steps, hsteps⟩, hpausing, ⟨p, hpriority⟩, ?_⟩
  simp only at h
  split_ifs at h with hadvance hretry hwait hsucceed hfail hpause
  · obtain ⟨nextStep, hnext, -⟩ := bind_eq_ok.mp h
    exact .advance hadvance ⟨nextStep, hnext⟩
  · obtain ⟨reason, hreason, -⟩ := bind_eq_ok.mp h
    exact .retry hretry ⟨reason, hreason⟩
  · obtain ⟨nextStep, hnext, h⟩ := bind_eq_ok.mp h
    split at h
    · rename_i join hjoin
      obtain ⟨l, hlabels, -⟩ := bind_eq_ok.mp h
      exact .wait hwait ⟨nextStep, hnext⟩ ⟨join, hjoin⟩ ⟨l, hlabels⟩
    · cases h
  · exact .succeed hsucceed
  · exact .fail hfail ((failMove_ok_iff hpausing progress).mp ⟨move, h⟩)
  · exact .pause hpause
  · cases h

/-- **An outcome that meets every check** is followed. -/
theorem OutcomeChecks.ok (hchecks : OutcomeChecks priority state outcome labels) :
    ∃ move, outcomeMove env job priority state outcome generation labels freshId = .ok move := by
  obtain ⟨hresources, ⟨steps, hsteps⟩, hpausing, ⟨p, hpriority⟩, haction⟩ := hchecks
  obtain ⟨resources, hresources⟩ := outcomeResources_ok_iff.mpr hresources
  obtain ⟨progress, hretained⟩ := (retained_ok_iff (progressOf state generation steps)).mpr hpausing
  unfold outcomeMove
  refine (exists_ok_bind hresources).mpr ((exists_ok_bind hsteps).mpr ?_)
  refine (exists_ok_bind hretained).mpr ((exists_ok_bind hpriority).mpr ?_)
  change ∃ move, (if actionOf outcome = "advance" then _ else if actionOf outcome = "retry" then _
    else if actionOf outcome = "wait" then _ else if actionOf outcome = "succeed" then _
    else if actionOf outcome = "fail" then _ else if actionOf outcome = "pause" then _ else _) = Except.ok move
  cases haction with
  | advance haction hnext =>
    obtain ⟨nextStep, hnext⟩ := hnext
    rw [haction, if_pos rfl]
    exact (exists_ok_bind hnext).mpr (advance_ok hpausing _ _ _ _ _ _)
  | retry haction hreason =>
    obtain ⟨reason, hreason⟩ := hreason
    rw [haction, if_neg (by decide), if_pos rfl]
    exact (exists_ok_bind hreason).mpr (retry_ok hpausing _ _ _ _ _)
  | wait haction hnext hjoin hlabels =>
    obtain ⟨nextStep, hnext⟩ := hnext
    obtain ⟨join, hjoin⟩ := hjoin
    obtain ⟨l, hlabels⟩ := hlabels
    rw [haction, if_neg (by decide), if_neg (by decide), if_pos rfl]
    refine (exists_ok_bind hnext).mpr ?_
    rw [hjoin]
    exact (exists_ok_bind hlabels).mpr ⟨_, rfl⟩
  | succeed haction =>
    rw [haction, if_neg (by decide), if_neg (by decide), if_neg (by decide), if_pos rfl]
    exact ⟨_, rfl⟩
  | fail haction hfailure =>
    rw [haction, if_neg (by decide), if_neg (by decide), if_neg (by decide), if_neg (by decide), if_pos rfl]
    exact (failMove_ok_iff hpausing _).mpr hfailure
  | pause haction =>
    rw [haction, if_neg (by decide), if_neg (by decide), if_neg (by decide), if_neg (by decide),
      if_neg (by decide), if_pos rfl]
    exact ⟨_, rfl⟩

/-! ## The jobs that are to go on -/

/-- **A job that is to go on**: with a next activation or attempt that its
budgets allow, or to wait for its children. -/
@[mk_iff] inductive JobGoesOn (job : JobDefinition) (state : StateFrame) (outcome : List (PyStr × Json)) : Prop where
  | advance (haction : actionOf outcome = "advance")
      (hbudget : job.retryPolicy.maximumActivations.any (state.activationOrdinal.getD 1 + 1 > ·) = false)
  | retry (haction : actionOf outcome = "retry")
      (hbudget : job.retryPolicy.maximumAttemptsPerActivation.any (state.attemptOrdinal.getD 1 ≥ ·) = false)
  | wait (haction : actionOf outcome = "wait")
  | fail {value : Failure} (haction : actionOf outcome = "fail")
      (hfailure : validateFailure (Json.get outcome "failure") "failure" = .ok value)
      (hretryable : value.retryable = true) (hbudget : retryBudgetAvailable job state = true)

/-- A frame that has the request to pause of another, and a process where that
is one. -/
structure Retains (state frame : StateFrame) : Prop where
  request : frame.get .pauseRequested = state.get .pauseRequested
  process : frame.has .process = state.pauseRequested.isSome

variable {frame : StateFrame}

theorem retains_retained (hrequest : progress.get .pauseRequested = state.get .pauseRequested)
    (hprocess : state.pauseRequested = none → progress.has .process = false)
    (hretained : retainDeferredPauseProcess state progress = .ok frame) : Retains state frame := by
  refine ⟨(get_retained (by decide) hretained).trans hrequest, ?_⟩
  unfold retainDeferredPauseProcess at hretained
  cases hp : state.pauseRequested with
  | none =>
    rw [hp] at hretained
    rw [← Except.ok.inj hretained, hprocess hp]
    rfl
  | some requested =>
    rw [hp] at hretained
    cases hget : state.get .process with
    | none =>
      rw [hget] at hretained
      cases hretained
    | some process =>
      rw [hget] at hretained
      rw [← Except.ok.inj hretained]
      simp [StateFrame.has]

theorem Retains.retained (h : Retains state progress) (hretained : retainDeferredPauseProcess state progress = .ok frame) :
    Retains state frame := by
  refine retains_retained h.request (fun hnone => ?_) hretained
  rw [h.process, hnone]
  rfl

theorem Retains.replace (h : Retains state frame) {written : List (Member × Json)}
    (hrequest : Member.pauseRequested ∉ written.map Prod.fst) (hprocess : Member.process ∉ written.map Prod.fst) :
    Retains state (frame.replace written) := by
  refine ⟨(StateFrame.get_replace_other hrequest _).trans h.request, ?_⟩
  rw [← h.process, StateFrame.has, StateFrame.get_replace_other hprocess, StateFrame.has]

theorem get_progressOf {m : Member} (hgeneration : m ≠ .dataGeneration) (hsteps : m ≠ .runnerSteps)
    (steps : Option Json) : (progressOf state generation steps).get m = state.carried.get m := by
  have hbase : (state.carried.replace [(.dataGeneration, (generation.map Json.int).getD .null)]).get m
      = state.carried.get m := StateFrame.get_replace_other (by simpa using hgeneration) _
  unfold progressOf
  cases steps with
  | none => exact hbase
  | some steps => exact (StateFrame.get_replace_other (by simpa using hsteps) _).trans hbase

theorem retains_progressOf {steps : Option Json}
    (hretained : retainDeferredPauseProcess state (progressOf state generation steps) = .ok frame) :
    Retains state frame := by
  refine retains_retained ?_ (fun _ => ?_) hretained
  · rw [get_progressOf (by decide) (by decide), StateFrame.get_carried, if_pos (by decide)]
  · rw [StateFrame.has, get_progressOf (by decide) (by decide), StateFrame.get_carried, if_neg (by decide)]
    rfl

/-- A transition that goes on, or one that ends the activation. -/
def MoveLeads (onward : Prop) (state : StateFrame) (move : Move) : Prop :=
  (onward ∧ (move.kind = .ready ∨ move.kind = .waiting) ∧ Retains state move.frame)
    ∨ (¬onward ∧ move.kind ≠ .ready ∧ move.kind ≠ .waiting)

theorem advance_leads {nextStep : PyStr} {reason : String} {joinSummary resources : Json} {priority : Option Int}
    (hretains : Retains state progress)
    (h : advance env job state progress nextStep freshId reason joinSummary resources priority = .ok move) :
    MoveLeads (job.retryPolicy.maximumActivations.any (state.activationOrdinal.getD 1 + 1 > ·) = false) state move := by
  unfold advance at h
  obtain ⟨frame, hretained, h⟩ := bind_eq_ok.mp h
  dsimp only at h
  split_ifs at h with hbudget
  · rw [← Except.ok.inj h]
    exact Or.inr ⟨by simpa using hbudget, by simp, by simp⟩
  · rw [← Except.ok.inj h]
    exact Or.inl ⟨eq_false_of_ne_true hbudget, Or.inl rfl, (hretains.retained hretained).replace (by simp) (by simp)⟩

theorem retry_leads {reason : PyStr} {unclean : Bool} {priority : Option Int} (hretains : Retains state progress)
    (h : retry env job state progress reason unclean none priority = .ok move) :
    MoveLeads (job.retryPolicy.maximumAttemptsPerActivation.any (state.attemptOrdinal.getD 1 ≥ ·) = false) state move := by
  unfold retry at h
  obtain ⟨frame, hretained, h⟩ := bind_eq_ok.mp h
  dsimp only at h
  split_ifs at h with hbudget
  · rw [← Except.ok.inj h]
    exact Or.inr ⟨by simpa using hbudget, by simp, by simp⟩
  · rw [← Except.ok.inj h]
    exact Or.inl ⟨eq_false_of_ne_true hbudget, Or.inl rfl, (hretains.retained hretained).replace (by simp) (by simp)⟩

theorem attempts_of_retryBudget (h : retryBudgetAvailable job state = true) :
    job.retryPolicy.maximumAttemptsPerActivation.any (state.attemptOrdinal.getD 1 ≥ ·) = false := by
  unfold retryBudgetAvailable at h
  dsimp only at h
  split_ifs at h with hattempts
  exact eq_false_of_ne_true hattempts

theorem MoveLeads.congr {P Q : Prop} (h : MoveLeads P state move) (hpq : P ↔ Q) : MoveLeads Q state move :=
  propext hpq ▸ h

theorem failMove_leads (haction : actionOf outcome = "fail") (hretains : Retains state progress)
    (h : failMove env job state progress outcome priority = .ok move) : MoveLeads (JobGoesOn job state outcome) state move := by
  unfold failMove at h
  split at h
  · rename_i value hfailure
    split_ifs at h with honward
    · have hgoes : JobGoesOn job state outcome := .fail haction hfailure honward.1 honward.2
      exact (retry_leads hretains h).congr (iff_of_true (attempts_of_retryBudget honward.2) hgoes)
    · rw [← Except.ok.inj h]
      refine Or.inr ⟨?_, by simp, by simp⟩
      simp only [jobGoesOn_iff, haction, hfailure, Except.ok.injEq]
      simpa using honward
  · rename_i e hfailure
    split_ifs at h
    rw [← Except.ok.inj h]
    exact Or.inr ⟨by simp [jobGoesOn_iff, haction, hfailure], by simp, by simp⟩

/-- **The move of an outcome leads on** exactly if the job is to go on. -/
theorem outcomeMove_leads (h : outcomeMove env job priority state outcome generation labels freshId = .ok move) :
    MoveLeads (JobGoesOn job state outcome) state move := by
  unfold outcomeMove at h
  obtain ⟨resources, -, h⟩ := bind_eq_ok.mp h
  obtain ⟨steps, -, h⟩ := bind_eq_ok.mp h
  obtain ⟨progress, hretained, h⟩ := bind_eq_ok.mp h
  obtain ⟨p, -, h⟩ := bind_eq_ok.mp h
  have hretains : Retains state progress := retains_progressOf hretained
  simp only at h
  split_ifs at h with hadvance hretry hwait hsucceed hfail hpause
  · obtain ⟨nextStep, -, h⟩ := bind_eq_ok.mp h
    have haction : actionOf outcome = "advance" := hadvance
    exact (advance_leads hretains h).congr (by simp [jobGoesOn_iff, haction])
  · obtain ⟨reason, -, h⟩ := bind_eq_ok.mp h
    have haction : actionOf outcome = "retry" := hretry
    exact (retry_leads hretains h).congr (by simp [jobGoesOn_iff, haction])
  · obtain ⟨nextStep, -, h⟩ := bind_eq_ok.mp h
    split at h
    · obtain ⟨l, -, h⟩ := bind_eq_ok.mp h
      rw [← Except.ok.inj h]
      exact Or.inl ⟨.wait hwait, Or.inr rfl, hretains.replace (by simp) (by simp)⟩
    · cases h
  · have haction : actionOf outcome = "succeed" := hsucceed
    rw [← Except.ok.inj h]
    exact Or.inr ⟨by simp [jobGoesOn_iff, haction], by simp, by simp⟩
  · exact failMove_leads hfail hretains h
  · have haction : actionOf outcome = "pause" := hpause
    rw [← Except.ok.inj h]
    exact Or.inr ⟨by simp [jobGoesOn_iff, haction], by simp, by simp⟩
  · cases h

/-! ## A pause that comes too late -/

/-- **A pause that comes too late**: the committing frame had none, the marker
has one now, and the job is to go on. -/
structure LatePause (job : JobDefinition) (state : StateFrame) (outcome : List (PyStr × Json))
    (reread : Option StateFrame) : Prop where
  goesOn : JobGoesOn job state outcome
  before : state.has .pauseRequested = false
  now : (reread.getD StateFrame.empty).pauseRequested ≠ none

variable {reread : Option StateFrame} {kind : StateKind}

theorem settle_ends (hready : kind ≠ .ready) (hwaiting : kind ≠ .waiting) :
    ∃ settled, settle reread .committing kind frame = .ok settled := by
  unfold settle
  simp only [hready, hwaiting, or_self, false_and, if_false]
  split_ifs
  all_goals try split
  all_goals exact ⟨_, rfl⟩

theorem has_without_process : (frame.without [.pauseRequested]).has .process = frame.has .process := by
  rw [StateFrame.has, StateFrame.get_without, if_neg (by decide), StateFrame.has]

theorem settle_onward (hkind : kind = .ready ∨ kind = .waiting) (hretains : Retains state frame) :
    (∃ settled, settle reread .committing kind frame = .ok settled)
      ↔ ¬(state.has .pauseRequested = false ∧ (reread.getD StateFrame.empty).pauseRequested ≠ none) := by
  have hhas : frame.has .pauseRequested = state.has .pauseRequested := by
    rw [StateFrame.has, hretains.request, StateFrame.has]
  have hpausing : kind = .ready ∨ kind = .waiting ∨ kind = .paused := hkind.imp id Or.inl
  unfold settle
  simp only [hhas, hpausing, hkind, true_and, has_without_process, hretains.process]
  cases hbefore : state.has .pauseRequested with
  | true =>
    -- the request came along, and so did the process
    have hsame : frame.pauseRequested = state.pauseRequested := by
      rw [StateFrame.pauseRequested, StateFrame.mapping, hretains.request]
      rfl
    simp only [Bool.true_eq_false, if_false, hhas, hbefore, if_true, hsame]
    refine iff_of_true ?_ (by simp)
    cases hrequested : state.pauseRequested with
    | none => exact ⟨_, rfl⟩
    | some requested => exact ⟨_, rfl⟩
  | false =>
    have hnone : state.pauseRequested = none := by
      by_contra hsome
      rw [has_of_pauseRequested (Option.isSome_iff_ne_none.mpr hsome)] at hbefore
      cases hbefore
    simp only [if_true, hnone, true_and, not_not]
    cases hrequested : (reread.getD StateFrame.empty).pauseRequested with
    | none =>
      refine iff_of_true ?_ rfl
      split_ifs
      all_goals exact ⟨_, rfl⟩
    | some requested =>
      rw [has_of_pauseRequested (by rw [hrequested]; rfl)]
      refine iff_of_false ?_ (by simp)
      rintro ⟨settled, h⟩
      cases h

theorem transition_settles
    (h : outcomeMove env job priority state outcome generation labels freshId = .ok move) :
    (∃ settled, settle reread .committing move.kind move.frame = .ok settled)
      ↔ ¬LatePause job state outcome reread := by
  rcases outcomeMove_leads h with ⟨hgoes, hkind, hretains⟩ | ⟨hends, hready, hwaiting⟩
  · rw [settle_onward hkind hretains]
    exact not_congr ⟨fun h => ⟨hgoes, h.1, h.2⟩, fun h => ⟨h.before, h.now⟩⟩
  · exact iff_of_true (settle_ends hready hwaiting) fun h => hends h.goesOn
