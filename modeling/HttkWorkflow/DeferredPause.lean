import HttkWorkflow.JobEffects

/-!
# A pause that was asked for during an attempt

An operator may ask for a pause while an attempt is under way. The request is
written into the frame of the claimed, running or committing job, and the
pause takes place at the next boundary: whatever was to become `ready` or
`waiting` becomes `paused`. The frame is rebuilt by every transition until
then, and the claimer may be about to launch.

A watch follows the run: `pending` from the request to the boundary, `held`
from there to the revival. While it is pending the request is in the frame
and no claimer holds the marker, since the request has moved it; and every
transition that ends an attempt hands the request on to the boundary
(`Pausing`).
-/

variable {σ : Type} {env : JoinEnv} {job : JobDefinition} {jobId : PyStr}
variable {s s' : JobState} {step : JobStep σ} {state progress : StateFrame} {move moved : Move}

/-! ## The boundary of an attempt -/

/-- **What ends an attempt** ends the job, or pauses it, or carries the request
of the frame with it. -/
def Pausing (state : StateFrame) (move : Move) : Prop :=
  move.kind.isTerminal = true ∨ move.kind = .paused
    ∨ ((move.kind = .ready ∨ move.kind = .waiting)
      ∧ move.frame.get .pauseRequested = state.get .pauseRequested)

theorem pauseRequested_congr {frame base : StateFrame} (h : frame.get .pauseRequested = base.get .pauseRequested) :
    frame.pauseRequested = base.pauseRequested := by
  show frame.mapping .pauseRequested = base.mapping .pauseRequested
  unfold StateFrame.mapping
  rw [h]

variable {kind : StateKind}

theorem Writes.paused (h : Writes env kind move moved) (hkind : move.kind = .ready ∨ move.kind = .waiting)
    (hrequest : move.frame.pauseRequested.isSome = true) : moved.kind = .paused := by
  obtain ⟨requested, hrequested⟩ := Option.isSome_iff_exists.mp hrequest
  have hhas := has_of_pauseRequested hrequest
  obtain ⟨reread, hsettle⟩ := h.settled
  unfold settle at hsettle
  simp only [hhas, Bool.true_eq_false, and_false, if_false, hkind, and_self, if_true, hrequested] at hsettle
  split_ifs at hsettle
  · cases hsettle
  · exact (Prod.mk.inj (Except.ok.inj hsettle)).1.symm

theorem Writes.frame_eq (h : Writes env kind move moved)
    (hkind : move.kind = .claimed ∨ move.kind = .running ∨ move.kind = .committing) :
    moved.kind = move.kind ∧ moved.frame = move.frame := by
  obtain ⟨reread, hsettle⟩ := h.settled
  unfold settle at hsettle
  rcases hkind with hkind | hkind | hkind <;>
    simp [hkind, StateKind.isTerminal] at hsettle ⊢ <;> tauto

theorem Pausing.boundary (h : Pausing state move) (hwrites : Writes env kind move moved)
    (hrequest : state.pauseRequested.isSome = true) :
    moved.kind.isTerminal = true ∨ moved.kind = .paused := by
  rcases h with hterminal | hpaused | ⟨hkind, hframe⟩
  · rcases hwrites.keeps.2 with hsame | ⟨hpaused, -⟩
    · exact Or.inl (hsame ▸ hterminal)
    · exact Or.inr hpaused
  · rcases hwrites.keeps.2 with hsame | ⟨hpaused, -⟩
    · exact Or.inr (hsame.trans hpaused)
    · exact Or.inr hpaused
  · refine Or.inr (hwrites.paused hkind ?_)
    rw [pauseRequested_congr hframe]
    exact hrequest

/-! ## What ends an attempt -/

theorem Pausing.of_frame (hkind : move.kind = .ready ∨ move.kind = .waiting)
    (h : move.frame.get .pauseRequested = state.get .pauseRequested) : Pausing state move :=
  Or.inr (Or.inr ⟨hkind, h⟩)

theorem get_carried_pauseRequested : state.carried.get .pauseRequested = state.get .pauseRequested := by
  rw [StateFrame.get_carried, if_pos (by decide)]

variable {cenv : CommitEnv} {evidence : Option (List (PyStr × Json))}

variable {priority : Option Int} {unclean : Bool}

theorem retry_pausing {reason : PyStr} (hprogress : progress.get .pauseRequested = state.get .pauseRequested)
    (h : retry cenv job state progress reason unclean evidence priority = .ok move) :
    Pausing state move := by
  have hframe := (retry_keeps (m := .pauseRequested) (by decide) h).trans hprogress
  unfold retry at h
  obtain ⟨retained, -, h⟩ := bind_eq_ok.mp h
  simp only at h
  split_ifs at h
  · rw [← Except.ok.inj h]
    exact Or.inl rfl
  · rw [← Except.ok.inj h] at hframe ⊢
    exact .of_frame (Or.inl rfl) hframe

theorem advance_pausing {nextStep freshId : PyStr} {reason : String} {joinSummary resources : Json}
    (hprogress : progress.get .pauseRequested = state.get .pauseRequested)
    (h : advance cenv job state progress nextStep freshId reason joinSummary resources priority
      = .ok move) : Pausing state move := by
  have hframe := (advance_keeps (m := .pauseRequested) (by decide) h).trans hprogress
  unfold advance at h
  obtain ⟨retained, -, h⟩ := bind_eq_ok.mp h
  simp only at h
  split_ifs at h
  · rw [← Except.ok.inj h]
    exact Or.inl rfl
  · rw [← Except.ok.inj h] at hframe ⊢
    exact .of_frame (Or.inl rfl) hframe

theorem attemptFailureMove_pausing {code : PyStr} {message : Message} {exitStatus : Option Int}
    (h : attemptFailureMove cenv job state code message exitStatus unclean evidence = .ok move) :
    Pausing state move := by
  unfold attemptFailureMove at h
  split_ifs at h
  · exact retry_pausing get_carried_pauseRequested h
  · rw [← Except.ok.inj h]
    exact Or.inl rfl

theorem takeoverMove_pausing {world : TakeoverWorld}
    (h : takeoverMove cenv world job state = .ok (some move)) : Pausing state move := by
  obtain ⟨evidence, -, h⟩ := failure_of_takeover h
  exact attemptFailureMove_pausing h

variable {generation : Option Int}

theorem get_progressOf_pauseRequested {steps : Option Json} :
    (progressOf state generation steps).get .pauseRequested = state.get .pauseRequested := by
  have hbase : (state.carried.replace [(.dataGeneration, (generation.map Json.int).getD .null)]).get .pauseRequested
        = state.get .pauseRequested :=
    (StateFrame.get_replace_other (by simp) _).trans get_carried_pauseRequested
  unfold progressOf
  cases steps with
  | none => exact hbase
  | some steps => exact (StateFrame.get_replace_other (by simp) _).trans hbase

theorem outcomeMove_pausing {priority : Int} {outcome : List (PyStr × Json)}
    {labels : Except Exc (List (PyStr × PyStr))} {freshId : PyStr}
    (h : outcomeMove cenv job priority state outcome generation labels freshId = .ok move) :
    Pausing state move := by
  obtain ⟨steps, progress, hretained, hasks⟩ := asks_of_outcomeMove h
  have hprogress : progress.get .pauseRequested = state.get .pauseRequested :=
    (get_retained (by decide) hretained).trans get_progressOf_pauseRequested
  cases hasks with
  | advances _ _ h => exact advance_pausing hprogress h
  | retries _ h => exact retry_pausing hprogress h
  | waits =>
    exact .of_frame (Or.inr rfl) ((StateFrame.get_replace_other (by simp) _).trans hprogress)
  | ends _ _ hkind _ => rcases hkind with rfl | rfl <;> exact Or.inl rfl
  | pauses => exact Or.inr (Or.inl rfl)

/-! ## The watch -/

/-- **What a run has come to since a pause was asked for** during an attempt:
nothing of the kind, or the boundary is still to come, or it has been
reached and the job was not revived. -/
inductive PauseWatch where
  | free
  | pending
  | held
deriving DecidableEq

def JobStep.requests (action : String) : JobStep σ → Bool
  | .request asked => Json.optEqStr asked.action (PyStr.ofString action)
  | _ => false

def watchPause (watch : PauseWatch) (s : JobState) (step : JobStep σ × Bool) (s' : JobState) :
    PauseWatch :=
  if step.fst.requests "pause" = true ∧ s.kind ∈ attemptKinds then .pending
  else if step.fst.requests "continue" = true ∨ step.fst.requests "override_step" = true then .free
  else if watch = .pending ∧ s'.kind ∉ attemptKinds then .held
  else watch

def pausedRuns (env : JoinEnv) (job : JobDefinition) (jobId : PyStr) :
    System (JobState × PauseWatch) (JobStep σ × Bool) :=
  System.observed (fun s => ∃ priority, s = JobState.submitted priority) (jobNext env job jobId)
    .free watchPause

/-- **The invariant of the watch.** -/
structure Watched (s : JobState) (watch : PauseWatch) : Prop where
  pending : watch = .pending →
    s.kind ∈ attemptKinds ∧ s.previousState = none ∧ s.frame.pauseRequested.isSome = true
  held : watch = .held → s.kind = .paused ∨ s.kind = .cancelling ∨ s.kind.isTerminal = true

/-! ## What the requests do to the watch -/

variable {request : OperatorRequest}

theorem applyRequest_underway (hkind : kind ∈ attemptKinds) (h : applyRequest cenv job kind state request = .ok (some move)) :
    (move.kind = kind ∧ move.frame.pauseRequested.isSome = true) ∨ (move.kind = .cancelled ∨ move.kind = .cancelling)
        ∧ Json.optEqStr request.action "pause" = false := by
  cases requestAsks_of_apply h with
  | cancels haction _ h =>
    refine Or.inr ⟨requestCancel_ends h, ?_⟩
    rw [Json.optEqStr_iff.mp haction]
    decide
  | prioritizes _ _ hfrom => exact absurd hfrom (by revert hkind; cases kind <;> decide)
  | records =>
    refine Or.inl ⟨rfl, ?_⟩
    show (StateFrame.mapping _ .pauseRequested).isSome = true
    unfold StateFrame.mapping
    simp [pauseRecord]
  | pauses _ hfrom => exact absurd hfrom (by revert hkind; cases kind <;> decide)
  | revives _ hfrom _ =>
    rcases hfrom with hfrom | hfrom <;> exact absurd hkind (by simp [hfrom, attemptKinds])

theorem applyRequest_held (hkind : kind = .paused ∨ kind = .cancelling ∨ kind.isTerminal = true)
    (h : applyRequest cenv job kind state request = .ok (some move)) :
    move.kind = kind ∨ move.kind = .cancelled ∨ move.kind = .cancelling
      ∨ Json.optEqStr request.action "continue" = true
      ∨ Json.optEqStr request.action "override_step" = true := by
  cases requestAsks_of_apply h with
  | cancels _ _ h => exact Or.inr (or_assoc.mp (Or.inl (requestCancel_ends h)))
  | prioritizes => exact Or.inl rfl
  | records _ hfrom => exact absurd hfrom (by revert hkind; cases kind <;> decide)
  | pauses _ hfrom => exact absurd hfrom (by revert hkind; cases kind <;> decide)
  | revives haction _ _ => exact Or.inr (Or.inr (Or.inr haction))

/-! ## The watch is right -/

theorem paused_next (hkind : s.kind ∈ attemptKinds) (hsame : move.kind = s.kind)
    (hframe : move.frame.pauseRequested.isSome = true) (hwrites : Writes env s.kind move moved) :
    moved.kind = s.kind ∧ moved.frame.pauseRequested.isSome = true := by
  have hmem : move.kind ∈ attemptKinds := hsame ▸ hkind
  obtain ⟨hmoved, hmovedFrame⟩ := hwrites.frame_eq (by simpa [attemptKinds] using hmem)
  exact ⟨hmoved.trans hsame, hmovedFrame ▸ hframe⟩

/-- **While a pause is pending** the attempt goes on without a launch, or reaches
a boundary that is a pause or the end of the job. -/
theorem pending_next (hkind : s.kind ∈ attemptKinds) (hprevious : s.previousState = none)
    (hrequest : s.frame.pauseRequested.isSome = true) (hasks : Asks env job jobId s step move)
    (hwrites : Writes env s.kind move moved) :
    (moved.kind ∈ attemptKinds ∧ moved.frame.pauseRequested.isSome = true
        ∧ ¬(s.kind = .claimed ∧ moved.kind = .running))
      ∨ moved.kind.isTerminal = true ∨ moved.kind = .paused ∨ moved.kind = .cancelling := by
  have hother : ∀ {kind}, s.kind = kind → kind ∉ attemptKinds → False := fun hsame hmem =>
    hmem (hsame ▸ hkind)
  have hends : Pausing s.frame move →
      moved.kind.isTerminal = true ∨ moved.kind = .paused ∨ moved.kind = .cancelling := fun hpausing =>
    (hpausing.boundary hwrites hrequest).imp_right Or.inl
  cases step with
  | register freshId => exact (hother hasks.1 (by decide)).elim
  | refuseSubmission message => exact (hother hasks.1 (by decide)).elim
  | claim claimer => exact (hother hasks.1 (by decide)).elim
  | release reason =>
    obtain ⟨-, rfl⟩ := hasks
    exact Or.inr (hends (.of_frame (Or.inl rfl)
      ((StateFrame.get_replace_other (by simp) _).trans get_carried_pauseRequested)))
  | launch launcher =>
    have howns := hasks.1
    rw [hprevious] at howns
    cases howns
  | fail code message exitStatus => exact Or.inr (hends (attemptFailureMove_pausing hasks.2))
  | takeover world => exact Or.inr (hends (takeoverMove_pausing hasks.2))
  | fence world document =>
    left
    obtain ⟨hrunning, outcome, childDigests, childLabels, control, -, -, rfl⟩ := hasks
    obtain ⟨hcommitting, hframe⟩ := hwrites.frame_eq (Or.inr (Or.inr rfl))
    refine ⟨by simp [hcommitting, attemptKinds], ?_, fun h => by simp [hcommitting] at h⟩
    have hcarried : moved.frame.get .pauseRequested = s.frame.get .pauseRequested := by
      rw [hframe]
      refine (get_withProcess (by decide)).trans ?_
      exact (StateFrame.get_replace_other (by simp) _).trans get_carried_pauseRequested
    rw [pauseRequested_congr hcarried]
    exact hrequest
  | apply world files =>
    obtain ⟨-, outcome, generation, -, hmove⟩ := hasks
    exact Or.inr (hends (outcomeMove_pausing hmove))
  | failCommit error =>
    obtain ⟨-, rfl⟩ := hasks
    exact Or.inr (hends (Or.inl rfl))
  | evaluate world => exact (hother hasks.1 (by decide)).elim
  | request asked =>
    rcases applyRequest_underway hkind hasks with ⟨hsame, hframe⟩ | ⟨hcancel, -⟩
    · left
      obtain ⟨hmoved, hmovedFrame⟩ := paused_next hkind hsame hframe hwrites
      refine ⟨hmoved ▸ hkind, hmovedFrame, fun h => ?_⟩
      rw [hmoved, h.1] at h
      cases h.2
    · right
      rcases hwrites.keeps.2 with hsame | ⟨hpaused, -⟩
      · rcases hcancel with hcancel | hcancel
        · exact Or.inl (by rw [hsame, hcancel]; rfl)
        · exact Or.inr (Or.inr (hsame.trans hcancel))
      · exact Or.inr (Or.inl hpaused)
  | pursue world => exact (hother hasks.1 (by decide)).elim

/-- **While a job is held** it stays so, unless a request revives it. -/
theorem held_next (hkind : s.kind = .paused ∨ s.kind = .cancelling ∨ s.kind.isTerminal = true)
    (hprevious : s.previousState = none) (hasks : Asks env job jobId s step move)
    (hwrites : Writes env s.kind move moved) :
    (moved.kind = .paused ∨ moved.kind = .cancelling ∨ moved.kind.isTerminal = true)
      ∨ step.requests "continue" = true ∨ step.requests "override_step" = true := by
  have hother : ∀ {kind}, s.kind = kind →
      ¬(kind = .paused ∨ kind = .cancelling ∨ kind.isTerminal = true) → False := fun hsame hnot =>
    hnot (hsame ▸ hkind)
  have hstays : move.kind = .paused ∨ move.kind = .cancelling ∨ move.kind.isTerminal = true →
      moved.kind = .paused ∨ moved.kind = .cancelling ∨ moved.kind.isTerminal = true := by
    intro hmove
    rcases hwrites.keeps.2 with hsame | ⟨hpaused, -⟩
    · exact hsame ▸ hmove
    · exact Or.inl hpaused
  cases step with
  | request asked =>
    rcases applyRequest_held hkind hasks with hsame | hcancelled | hcancelling | hrevives
    · exact Or.inl (hstays (hsame ▸ hkind))
    · exact Or.inl (hstays (Or.inr (Or.inr (by rw [hcancelled]; rfl))))
    · exact Or.inl (hstays (Or.inr (Or.inl hcancelling)))
    · exact Or.inr hrevives
  | pursue world =>
    left
    refine hstays ?_
    rcases finishCancellation_kind hasks.2 with hcancelled | hcancelling
    · exact Or.inr (Or.inr (by rw [hcancelled]; rfl))
    · exact Or.inr (Or.inl hcancelling)
  | launch launcher =>
    have howns := hasks.1
    rw [hprevious] at howns
    cases howns
  | fail code message exitStatus =>
    rcases hasks.1 with howns | hrunning
    · rw [hprevious] at howns
      cases howns
    · exact (hother hrunning (by decide)).elim
  | register freshId => exact (hother hasks.1 (by decide)).elim
  | refuseSubmission message => exact (hother hasks.1 (by decide)).elim
  | claim claimer => exact (hother hasks.1 (by decide)).elim
  | release reason => exact (hother hasks.1 (by decide)).elim
  | takeover world => exact (hother hasks.1 (by decide)).elim
  | fence world document => exact (hother hasks.1 (by decide)).elim
  | apply world files => exact (hother hasks.1 (by decide)).elim
  | failCommit error => exact (hother hasks.1 (by decide)).elim
  | evaluate world => exact (hother hasks.1 (by decide)).elim

theorem requested_next (hrequests : step.requests "pause" = true) (hkind : s.kind ∈ attemptKinds)
    (hasks : Asks env job jobId s step move) (hwrites : Writes env s.kind move moved) :
    moved.kind = s.kind ∧ moved.frame.pauseRequested.isSome = true := by
  cases step with
  | request asked =>
    rcases applyRequest_underway hkind hasks with ⟨hsame, hframe⟩ | ⟨-, hnot⟩
    · exact paused_next hkind hsame hframe hwrites
    · have hpause : Json.optEqStr asked.action "pause" = true := hrequests
      rw [hnot] at hpause
      cases hpause
  | _ => cases hrequests

theorem previousState_after_none (h : s.kind ≠ .ready) : (s.after jobId step moved).previousState = none := by
  simp [JobState.after, h]

/-- **A step keeps the watch right.** -/
theorem Watched.next {watch : PauseWatch} {reread : Bool} (hs : Watched s watch)
    (hprevious : s.previousState.isSome = true → s.kind = .claimed)
    (hasks : Asks env job jobId s step move) (hwrites : Writes env s.kind move moved) :
    Watched (s.after jobId step moved)
      (watchPause watch s (step, reread) (s.after jobId step moved)) := by
  have hready : s.kind ∈ attemptKinds → s.kind ≠ .ready := by
    intro hkind h
    rw [h] at hkind
    exact absurd hkind (by decide)
  unfold watchPause
  simp only
  split_ifs with hpause hrevives hends
  · obtain ⟨hsame, hframe⟩ := requested_next hpause.1 hpause.2 hasks hwrites
    refine ⟨fun _ => ⟨?_, previousState_after_none (hready hpause.2), hframe⟩, fun h => by cases h⟩
    rw [after_kind, hsame]
    exact hpause.2
  · exact ⟨fun h => (by cases h), fun h => (by cases h)⟩
  · refine ⟨fun h => (by cases h), fun _ => ?_⟩
    obtain ⟨hkind, hnone, hrequest⟩ := hs.pending hends.1
    rcases pending_next hkind hnone hrequest hasks hwrites with ⟨hmem, -⟩ | hterminal | hpaused | hcancel
    · exact absurd hmem hends.2
    · exact Or.inr (Or.inr hterminal)
    · exact Or.inl hpaused
    · exact Or.inr (Or.inl hcancel)
  · refine ⟨fun hpending => ?_, fun hheld => ?_⟩
    · obtain ⟨hkind, hnone, hrequest⟩ := hs.pending hpending
      have hmem : moved.kind ∈ attemptKinds := not_not.mp fun hnot => hends ⟨hpending, hnot⟩
      refine ⟨hmem, previousState_after_none (hready hkind), ?_⟩
      rcases pending_next hkind hnone hrequest hasks hwrites with ⟨-, hframe, -⟩ | hends
      · exact hframe
      · exact absurd hmem (by
          rcases hends with hterminal | hpaused | hcancel
          · revert hterminal
            cases moved.kind <;> decide
          · simp [hpaused, attemptKinds]
          · simp [hcancel, attemptKinds])
    · have hheldKind := hs.held hheld
      have hnone : s.previousState = none := by
        by_contra hsome
        have hclaimed := hprevious (Option.isSome_iff_ne_none.mpr hsome)
        rw [hclaimed] at hheldKind
        exact absurd hheldKind (by decide)
      rcases held_next hheldKind hnone hasks hwrites with hkept | hrevived
      · exact hkept
      · exact absurd hrevived hrevives

theorem watched_of_reachable {p : JobState × PauseWatch}
    (hs : (pausedRuns (σ := σ) env job jobId).Reachable p) : Watched p.fst p.snd := by
  refine hs.invariant (I := fun p => Watched p.fst p.snd) ?_ ?_
  · rintro p ⟨-, hfree⟩
    exact ⟨fun h => by simp [hfree] at h, fun h => by simp [hfree] at h⟩
  · intro p a p' hs hwatched hstep
    obtain ⟨hnext, hwatch⟩ := System.watching_eq_some.mp hstep
    have hreachable := hs.of_observed
    obtain ⟨move, moved, -, hasks, hwrites, -, hafter⟩ := effect_of_next hreachable hnext
    rw [hwatch, ← hafter]
    exact hwatched.next (claimed_of_previousState hreachable) hasks hwrites

/-- **A deferred pause holds**: from the request on, the runner is not launched
before the job is revived, and the first boundary that does not end the job
is a pause. -/
theorem deferred_pause {p p' : JobState × PauseWatch} {a : JobStep σ × Bool}
    (hs : (pausedRuns (σ := σ) env job jobId).Reachable p)
    (hstep : (pausedRuns env job jobId).step p a p') :
    (p.snd ≠ .free → ¬(p.fst.kind = .claimed ∧ p'.fst.kind = .running))
      ∧ (p.snd = .pending → p'.fst.kind ∉ attemptKinds → p'.fst.kind ≠ .cancelling →
        p'.fst.kind.isTerminal = false → p'.fst.kind = .paused) := by
  have hwatched := watched_of_reachable hs
  obtain ⟨hnext, -⟩ := System.watching_eq_some.mp hstep
  obtain ⟨move, moved, -, hasks, hwrites, -, hafter⟩ := effect_of_next hs.of_observed hnext
  have hkind : p'.fst.kind = moved.kind := by rw [← hafter, after_kind]
  rw [hkind]
  refine ⟨fun hwatch hlaunch => ?_, fun hpending hboundary hcancel hends => ?_⟩
  · cases hp : p.snd with
    | free => exact hwatch hp
    | pending =>
      obtain ⟨hmem, hnone, hrequest⟩ := hwatched.pending hp
      rcases pending_next hmem hnone hrequest hasks hwrites with ⟨-, -, hnot⟩ | hends
      · exact hnot hlaunch
      · rw [hlaunch.2] at hends
        exact absurd hends (by decide)
    | held =>
      have hheld := hwatched.held hp
      rw [hlaunch.1] at hheld
      exact absurd hheld (by decide)
  · obtain ⟨hmem, hnone, hrequest⟩ := hwatched.pending hpending
    rcases pending_next hmem hnone hrequest hasks hwrites with ⟨hunder, -⟩ | hterminal | hpaused | hc
    · exact absurd hunder hboundary
    · rw [hends] at hterminal
      cases hterminal
    · exact hpaused
    · exact absurd hc hcancel

/-- A running attempt that a pause was asked for, and which then publishes an
outcome that advances. -/
def pausedAttempt : List (JobStep PUnit) :=
  [.register "a1", plainClaim "t1", plainLaunch, .request (plainRequest "pause"),
    .fence plainPoll (.ok (advanceTo "second"))]

/-- In that run the next activation is paused before it begins. -/
theorem deferred_pause_advance : ∃ p p',
    (pausedRuns (σ := PUnit) plainJoinEnv plainJob "job").Reachable p
      ∧ p.snd = .pending ∧ (pausedRuns plainJoinEnv plainJob "job").step p
        (plainApply (advanceTo "second") "a2", true) p' ∧ p'.fst.kind = .paused := by
  have hrun : (System.follow (System.watching (jobNext plainJoinEnv plainJob "job") watchPause)
      (JobState.submitted 100, .free) (pausedAttempt.map (·, true))).bind (fun p =>
        (System.watching (jobNext plainJoinEnv plainJob "job") watchPause p
          (plainApply (advanceTo "second") "a2", true)).map fun p' => (p.snd, p'.fst.kind))
      = some (.pending, .paused) := by
    decide +kernel
  obtain ⟨p, hfollow, hrun⟩ := Option.bind_eq_some_iff.mp hrun
  obtain ⟨p', hstep, hfacts⟩ := Option.map_eq_some_iff.mp hrun
  obtain ⟨hpending, hkind⟩ := Prod.mk.inj hfacts
  have hreachable : (pausedRuns (σ := PUnit) plainJoinEnv plainJob "job").Reachable p :=
    (System.run_of_follow hfollow).reachable (System.Reachable.init ⟨⟨100, rfl⟩, rfl⟩)
  refine ⟨p, p', hreachable, hpending, hstep, (deferred_pause hreachable hstep).2 hpending ?_ ?_ ?_⟩
  · simp [hkind, attemptKinds]
  · simp [hkind]
  · simp [hkind, StateKind.isTerminal]
