import HttkWorkflow.DataGeneration
import HttkWorkflow.DeferredPause
import HttkWorkflow.KeptMembers

/-!
# The data generation over a run

A job with transactional data gets its data generation from its registration,
which writes zero; every frame after that repeats it, or counts it on where a
transaction changed the data, and a commit with a transaction is refused
without it.

A job may leave `submitted` without a registration: it is refused, or an
operator pauses it. What revives it then is not `continue`, which asks for an
activation, but `override_step` does not: it begins an activation from the
frame that was never registered (`generation_missing`). The operator's
override of a job that has an activation is harmless, and with only such
overrides the generation is there in every frame that is not quiescent
(`generation_held`).
-/

variable {σ : Type} {env : JoinEnv} {job : JobDefinition} {jobId : PyStr}
variable {s s' : JobState} {step : JobStep σ} {state : StateFrame} {move moved : Move}

/-! ## The transitions of a job with a generation -/

/-- **A frame with its data generation.** -/
def HasGeneration (frame : StateFrame) : Prop :=
  ∃ n : Int, 0 ≤ n ∧ frame.get .dataGeneration = some (.int n)

theorem HasGeneration.congr {frame base : StateFrame} (h : HasGeneration base)
    (hget : frame.get .dataGeneration = base.get .dataGeneration) : HasGeneration frame := by
  unfold HasGeneration
  rw [hget]
  exact h

theorem get_of_dataGeneration {n : Int} (h : state.dataGeneration = some n) :
    state.get .dataGeneration = some (.int n) := by
  unfold StateFrame.dataGeneration StateFrame.integer at h
  split at h
  · rename_i value hget
    rw [hget, Option.some.inj h]
  · cases h

variable {request : OperatorRequest}

theorem audited_generation {base : StateFrame} :
    (audited base request).get .dataGeneration = base.get .dataGeneration := by
  unfold audited
  cases request.operatorKey with
  | none => exact StateFrame.get_replace_other (by simp) base
  | some key =>
    exact (StateFrame.get_replace_other (by simp) _).trans (StateFrame.get_replace_other (by simp) base)

theorem withHazard_generation {audit : StateFrame} :
    (withHazard audit request).get .dataGeneration = audit.get .dataGeneration := by
  unfold withHazard
  cases request.hazard with
  | none => rfl
  | some hazard => exact StateFrame.get_replace_other (by simp) audit

theorem selected_generation : (state.select cancellingMembers).get .dataGeneration = state.get .dataGeneration := by
  rw [StateFrame.get_select, if_pos (by decide)]

variable {kind : StateKind} {cenv : CommitEnv}

theorem applyRequest_generation (h : applyRequest cenv job kind state request = .ok (some move)) :
    move.frame.get .dataGeneration = state.get .dataGeneration := by
  have haudit : (audited state.carried request).get .dataGeneration = state.get .dataGeneration :=
    audited_generation.trans (carried_kept (by decide) state)
  cases requestAsks_of_apply h with
  | cancels _ _ h =>
    have hselected : (audited (state.select cancellingMembers) request).get .dataGeneration
        = state.get .dataGeneration := audited_generation.trans selected_generation
    unfold requestCancel at h
    simp only at h
    split_ifs at h
    · rw [← Option.some.inj h]
      exact (StateFrame.get_replace_other (by simp) _).trans hselected
    · rw [← Option.some.inj h]
      exact (StateFrame.get_replace_other (by simp) _).trans hselected
  | prioritizes =>
    have hpreserved : Member.dataGeneration ∉ (state.select preservedMembers).members.map Prod.fst :=
      fun hmem => absurd (StateFrame.mem_of_mem_select hmem) (by decide)
    exact (StateFrame.get_replace_other (by simp) _).trans ((StateFrame.get_replace_other hpreserved _).trans haudit)
  | records => exact StateFrame.get_replace_other (by simp) state
  | pauses => exact (StateFrame.get_replace_other (by simp) _).trans haudit
  | revives _ _ h =>
    rcases revive_cases h with ⟨-, h⟩ | ⟨name, h⟩
    · exact (retry_keeps (by decide) h).trans (withHazard_generation.trans haudit)
    · exact (advance_keeps (by decide) h).trans (withHazard_generation.trans haudit)

theorem joinAsks_generation {world : JoinWorld} (h : JoinAsks env world job state move) :
    move.frame.get .dataGeneration = state.get .dataGeneration := by
  cases h with
  | fails written hwritten =>
    have hother : Member.dataGeneration ∉ written.map Prod.fst := fun hmem =>
      absurd (hwritten hmem) (by decide)
    exact (StateFrame.get_replace_other hother _).trans (carried_kept (by decide) state)
  | records childId =>
    refine (StateFrame.get_replace_other (by simp) _).trans ?_
    rw [StateFrame.get_select, if_pos (by decide)]
  | advances h =>
    obtain ⟨name, resources, h⟩ := advance_of_joinAdvance h
    exact (advance_keeps (by decide) h).trans (carried_kept (by decide) state)

theorem finishCancellation_generation {world : CancelWorld} (h : finishCancellation world state = .ok (some move)) :
    move.frame.get .dataGeneration = state.get .dataGeneration := by
  obtain ⟨-, ⟨proof, -, rfl⟩ | rfl⟩ := finishCancellation_cases h
  · exact (StateFrame.get_replace_other (by simp) _).trans selected_generation
  · exact (StateFrame.get_replace_other (by simp) _).trans selected_generation

variable {world : CommitWorld σ}

variable {outcome : List (PyStr × Json)} {c : Committing}

theorem commitTransaction_generation {generation : Option Int} {f g : σ}
    (h : (commitTransaction world c outcome).Returns f generation g) :
    generation = c.state.dataGeneration
      ∨ ∃ n, c.state.dataGeneration = some n ∧ generation = some (n + 1) := by
  unfold commitTransaction at h
  rw [Effects.returns_current_bind] at h
  split at h
  · exact Or.inl (Effects.returns_pure.mp h).1.symm
  · split at h
    · rename_i n hn
      split_ifs at h
      · exact absurd h Effects.returns_raise
      · exact absurd h Effects.returns_raise
      · obtain ⟨changed, f', -, h⟩ := Effects.returns_bind.mp h
        obtain ⟨hgeneration, -⟩ := Effects.returns_pure.mp h
        cases changed with
        | true => exact Or.inr ⟨n, hn, hgeneration.symm⟩
        | false => exact Or.inl (hgeneration.symm.trans hn.symm)
    · exact absurd h Effects.returns_raise

theorem apply_generation {files : σ} {reread : Bool}
    (h : written env job jobId s reread (.apply world files) = some moved)
    (hs : HasGeneration s.frame) : HasGeneration moved.frame := by
  obtain ⟨n, hn, hget⟩ := hs
  have hread : s.frame.dataGeneration = some n := StateFrame.integer_of_get hget
  obtain ⟨-, h⟩ := Option.ite_none_right_eq_some.mp h
  obtain ⟨outcome, generation, replayed, _, move, -, hreplay, -, -, hmove, hmoved⟩ :=
    processCommitting_moved (g := Effects.final _ files) ⟨toOption_join_eq_some.mp h, rfl⟩
  have hafter : moved.frame.dataGeneration = generation :=
    (transition_dataGeneration hmoved).trans (outcomeMove_dataGeneration hmove)
  rcases commitTransaction_generation hreplay with hsame | ⟨n', hn', hcounted⟩
  · exact ⟨n, hn, get_of_dataGeneration (hafter.trans (hsame.trans hread))⟩
  · obtain rfl : n = n' := Option.some.inj (hread.symm.trans hn')
    exact ⟨n + 1, by omega, get_of_dataGeneration (hafter.trans hcounted)⟩

/-- **Every transition of a registered job** keeps its generation, or counts it
on. -/
theorem generation_next {reread : Bool} (h : written env job jobId s reread step = some moved)
    (hkind : s.kind ≠ .submitted) (hs : HasGeneration s.frame) : HasGeneration moved.frame := by
  obtain ⟨move, hasks, hwrites⟩ := asks_of_written h
  have hkept : move.frame.get .dataGeneration = s.frame.get .dataGeneration →
      HasGeneration moved.frame := fun hsame => hs.congr ((hwrites.kept (by decide)).trans hsame)
  cases step with
  | register freshId => exact absurd hasks.1 hkind
  | refuseSubmission message => exact absurd hasks.1 hkind
  | claim claimer =>
    rw [hasks.2] at hkept
    exact hkept (claimMove_kept (by decide) (Or.inl (by decide)))
  | release reason =>
    rw [hasks.2] at hkept
    exact hkept (rebuilt_kept (by decide) (by simp [keptMembers]) s.frame)
  | launch launcher => exact hkept (launchMove_kept (by decide) hasks.2)
  | fail code message exitStatus => exact hkept (attemptFailureMove_kept (by decide) hasks.2)
  | takeover world => exact hkept (takeoverMove_kept (by decide) hasks.2)
  | fence world document =>
    obtain ⟨-, outcome, childDigests, childLabels, control, -, -, rfl⟩ := hasks
    exact hkept ((withProcess_kept (by decide)).trans (rebuilt_kept (by decide) (by simp [keptMembers]) s.frame))
  | apply world files => exact apply_generation h hs
  | failCommit error =>
    rw [hasks.2] at hkept
    refine hkept ((StateFrame.get_replace_other (by simp) _).trans ?_)
    exact (withProcess_kept (by decide)).trans (carried_kept (by decide) s.frame)
  | evaluate world => exact hkept (joinAsks_generation hasks.2)
  | request asked => exact hkept (applyRequest_generation hasks)
  | pursue world => exact hkept (finishCancellation_generation hasks.2)

/-! ## Runs in which only registered jobs are overridden -/

/-- **An override of a job that was registered**: its frame names an
activation. -/
def OverridesRegistered (s : JobState) (a : JobStep σ × Bool) : Prop :=
  a.fst.requests "override_step" = true → s.frame.activationId.isSome = true

def unregisteredKinds : List StateKind := [.submitted, .paused, .failed, .cancelled]

/-- **The invariant**: the job has its generation, or was not registered. -/
def Generated (s : JobState) : Prop :=
  (s.kind ≠ .submitted ∧ HasGeneration s.frame)
    ∨ (s.kind ∈ unregisteredKinds ∧ s.frame.activationId = none)

theorem applyRequest_unregistered (h : applyRequest cenv job kind state request = .ok (some move))
    (hoverride : Json.optEqStr request.action (PyStr.ofString "override_step") = false)
    (hkind : kind ∈ unregisteredKinds) (hactivation : state.activationId = none) :
    move.kind ∈ unregisteredKinds ∧ move.frame.activationId = none := by
  have hcarried : Keeps state (audited state.carried request) := (Keeps.carried state).audit
  have hlive : kind ∉ [StateKind.claimed, .running, .committing] := by
    revert hkind
    cases kind <;> decide
  cases requestAsks_of_apply h with
  | cancels _ _ h =>
    refine ⟨?_, (requestCancel_keeps h).activationId.trans hactivation⟩
    rcases requestCancel_kind h with ⟨hrunning, -⟩ | ⟨-, -, hcancelled⟩
    · exact absurd (by simp [hrunning]) hlive
    · simp [hcancelled, unregisteredKinds]
  | prioritizes => exact ⟨hkind, hcarried.preserved.activationId.trans hactivation⟩
  | records _ hfrom => exact absurd hfrom hlive
  | pauses =>
    refine ⟨by simp [unregisteredKinds], ?_⟩
    exact (hcarried.replace (by simp [countingMembers])).activationId.trans hactivation
  | revives haction _ h =>
    have hcontinue : request.isFor "continue" = true :=
      haction.resolve_right (by simp [OperatorRequest.isFor, hoverride])
    simp [revive, hcontinue, hactivation, raiseFormat] at h

theorem submitted_of_edge (h : (kind, .submitted) ∈ step.edges) : kind = .submitted := by
  cases step <;> simp_all [JobStep.edges, requestEdges]

theorem unregistered_edge {kind kind' : StateKind} (h : (kind, kind') ∈ step.edges) (hkind : kind ∈ unregisteredKinds) :
    (∃ freshId, step = .register freshId) ∨ (∃ message, step = .refuseSubmission message)
      ∨ ∃ asked, step = .request asked := by
  have hsource : kind ∈ step.edges.map Prod.fst := List.mem_map_of_mem (f := Prod.fst) h
  cases step with
  | register freshId => exact Or.inl ⟨freshId, rfl⟩
  | refuseSubmission message => exact Or.inr (Or.inl ⟨message, rfl⟩)
  | request asked => exact Or.inr (Or.inr ⟨asked, rfl⟩)
  | _ =>
    exfalso
    revert hsource hkind
    cases kind <;> simp [JobStep.edges, unregisteredKinds]

theorem registered_generation (hdata : job.dataMode = .transactional) (freshId : PyStr) :
    HasGeneration (registered job freshId) :=
  ⟨0, le_refl 0, by simp [registered, hdata]⟩

/-- **One step** of a run in which only registered jobs are overridden. -/
theorem Generated.next {a : JobStep σ × Bool} (hdata : job.dataMode = .transactional)
    (hs : (jobRuns (σ := σ) env job jobId).Reachable s) (hgenerated : Generated s)
    (hoverride : OverridesRegistered s a) (h : jobNext env job jobId s a = some s') :
    Generated s' := by
  obtain ⟨-, moved, hwritten, rfl⟩ := jobNext_eq_some.mp h
  obtain ⟨move, hasks, hwrites⟩ := asks_of_written hwritten
  have hedge := edge_of_asks (claimed_of_previousState hs) hasks
  rcases hgenerated with ⟨hkind, hgeneration⟩ | ⟨hkind, hactivation⟩
  · refine Or.inl ⟨fun hsubmitted => hkind ?_, generation_next hwritten hkind hgeneration⟩
    rw [after_kind] at hsubmitted
    have hmove : move.kind = .submitted :=
      (hwrites.kind_of_ne (by simp [hsubmitted])).symm.trans hsubmitted
    exact submitted_of_edge (hmove ▸ hedge)
  · have hkeeps := hwrites.keeps.1
    obtain ⟨step, reread⟩ := a
    rcases unregistered_edge hedge hkind with ⟨freshId, rfl⟩ | ⟨message, rfl⟩ | ⟨asked, rfl⟩
    · obtain ⟨-, rfl⟩ := hasks
      refine Or.inl ⟨?_, (registered_generation hdata freshId).congr (hwrites.kept (by decide))⟩
      rcases hwrites.ready rfl with hready | hpaused
      · simp [hready]
      · simp [hpaused]
    · obtain ⟨-, rfl⟩ := hasks
      refine Or.inr ⟨?_, hkeeps.activationId.trans ?_⟩
      · have hfailed : moved.kind = .failed := by simpa using hwrites.kind
        simp [hfailed, unregisteredKinds]
      · rfl
    · have haction : Json.optEqStr asked.action (PyStr.ofString "override_step") = false := by
        refine Bool.eq_false_iff.mpr fun hasked => ?_
        have hregistered : s.frame.activationId.isSome = true := hoverride hasked
        rw [hactivation] at hregistered
        cases hregistered
      obtain ⟨hunregistered, hnone⟩ := applyRequest_unregistered hasks haction hkind hactivation
      refine Or.inr ⟨?_, hkeeps.activationId.trans hnone⟩
      rcases hwrites.kind with hsame | ⟨hpaused, -⟩
      · rw [after_kind, hsame]
        exact hunregistered
      · simp [hpaused, unregisteredKinds]

theorem generated_of_reachable (hdata : job.dataMode = .transactional)
    (hs : ((jobRuns (σ := σ) env job jobId).guarded OverridesRegistered).Reachable s) :
    Generated s := by
  refine hs.invariant (I := Generated) ?_ ?_
  · rintro s ⟨priority, rfl⟩
    exact Or.inr ⟨by simp [JobState.submitted, unregisteredKinds], rfl⟩
  · intro s a s' hs hgenerated hstep
    exact hgenerated.next hdata hs.of_guarded hstep.2 hstep.1

/-- The kinds of a job whose activation is under way. -/
def activeKinds : List StateKind := [.ready, .claimed, .running, .committing, .waiting]

theorem commitTransaction_raises {n : Int} {files files' : σ} {e : Exc}
    {replay : Int → Effects σ Exc Bool} (hgeneration : c.state.dataGeneration = some n)
    (hdata : c.job.dataMode = .transactional) (hreplay : world.transaction files = some replay)
    (hexpected : Json.optEqInt (Json.get outcome "expected_data_generation") n = true)
    (h : (commitTransaction world c outcome).Raises files e files') :
    (replay n).Raises files e files' := by
  unfold commitTransaction at h
  rw [Effects.raises_current_bind, hreplay] at h
  simp only [hgeneration, hdata, hexpected, ne_eq, not_true_eq_false, if_false, Bool.true_eq_false,
    Effects.raises_bind] at h
  rcases h with hraised | ⟨changed, replayed, -, hpure⟩
  · exact hraised
  · exact absurd hpure Effects.raises_pure

/-- **A job with transactional data has its generation** in every frame of an
activation that is under way, and no transaction is refused for want of it. -/
theorem generation_held (hdata : job.dataMode = .transactional)
    (hs : ((jobRuns (σ := σ) env job jobId).guarded OverridesRegistered).Reachable s)
    (hkind : s.kind ∈ activeKinds) :
    ∃ n, 0 ≤ n ∧ s.frame.dataGeneration = some n
      ∧ ∀ (world : CommitWorld σ) outcome files files' e replay,
        world.transaction files = some replay →
        Json.optEqInt (Json.get outcome "expected_data_generation") n = true →
        (commitTransaction world ⟨jobId, s.priority, job, s.frame⟩ outcome).Raises files e files' →
        (replay n).Raises files e files' := by
  rcases generated_of_reachable hdata hs with ⟨-, n, hn, hget⟩ | ⟨hunregistered, -⟩
  · have hread : s.frame.dataGeneration = some n := StateFrame.integer_of_get hget
    refine ⟨n, hn, hread, ?_⟩
    intro world outcome files files' e replay hreplay hexpected hraises
    exact commitTransaction_raises hread hdata hreplay hexpected hraises
  · exfalso
    revert hkind hunregistered
    cases s.kind <;> decide

/-! ## An override of a job that was never registered -/

def transactionalJob : JobDefinition :=
  ⟨.transactional, .isolated, "first", "digest", "default", [], RetryPolicy.unlimited []⟩

def publishedTransactionWorld : CommitWorld PUnit :=
  { plainCommit with transaction := fun _ => some fun _ => pure true }

/-- **A job that was paused before its registration and is then sent to a
step** is ready without a generation, and the transaction it publishes is
refused as one of a job without data. -/
theorem generation_missing : ∃ s,
    (jobRuns (σ := PUnit) plainJoinEnv transactionalJob "job").Reachable s
      ∧ transactionalJob.dataMode = .transactional ∧ s.kind = .ready
      ∧ s.frame.dataGeneration = none
      ∧ ∀ outcome, (commitTransaction publishedTransactionWorld
          ⟨"job", s.priority, transactionalJob, s.frame⟩ outcome).Raises ⟨⟩
        ⟨.transaction, [.lit "transaction published by a nontransactional job"]⟩ ⟨⟩ := by
  have hrun : (plainRun transactionalJob [.request (plainRequest "pause"),
      .request (plainRequest "override_step")]).map (fun s => (s.kind, s.frame.dataGeneration))
      = some (.ready, none) := by
    decide +kernel
  obtain ⟨s, hs, hfacts⟩ := Option.map_eq_some_iff.mp hrun
  obtain ⟨hkind, hgeneration⟩ := Prod.mk.inj hfacts
  refine ⟨s, reachable_of_plainRun hs, rfl, hkind, hgeneration, fun outcome => ?_⟩
  unfold commitTransaction
  rw [Effects.raises_current_bind]
  dsimp only
  rw [hgeneration]
  exact Effects.raises_raise.mpr ⟨rfl, rfl⟩

/-- A job that is registered, claimed and launched has its generation. -/
theorem generation_held_running : ∃ s,
    ((jobRuns (σ := PUnit) plainJoinEnv transactionalJob "job").guarded
        OverridesRegistered).Reachable s
      ∧ s.kind = .running ∧ ∃ n, 0 ≤ n ∧ s.frame.dataGeneration = some n := by
  have hrun : (plainRun transactionalJob [.register "a1", plainClaim "t1", plainLaunch]).map
      JobState.kind = some .running := by
    decide +kernel
  obtain ⟨s, hs, hkind⟩ := Option.map_eq_some_iff.mp hrun
  have hguard : ∀ a ∈ ([.register "a1", plainClaim "t1", plainLaunch] : List (JobStep PUnit)).map
      (·, true), ∀ t, OverridesRegistered t a := by
    simp [OverridesRegistered, JobStep.requests, plainClaim, plainLaunch]
  have hreachable : ((jobRuns (σ := PUnit) plainJoinEnv transactionalJob "job").guarded
      OverridesRegistered).Reachable s :=
    ((System.run_of_follow hs).guarded hguard).reachable (System.Reachable.init ⟨100, rfl⟩)
  obtain ⟨n, hn, hgeneration, -⟩ := generation_held rfl hreachable (by simp [hkind, activeKinds])
  exact ⟨s, hreachable, hkind, n, hn, hgeneration⟩
