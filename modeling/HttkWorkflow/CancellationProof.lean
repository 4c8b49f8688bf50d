import HttkWorkflow.OutcomeFencing
import HttkWorkflow.DeferredPause

/-!
# The proof that a cancelled attempt has stopped

A running job is cancelled in two transitions. The first one fences its
attempt, and the second one is made by whichever manager can prove that the
attempt has stopped: the one that launched it, by its exit status, or any
manager on its host, by the absence of its process group. Signals that fail,
probes that fail and identities that are missing prove nothing, and the job
stays `cancelling`.

The identity is what the launch of that attempt recorded, which the run keeps
in every running and cancelling frame (`Identified`). In any other state a
cancellation asks for no proof, and a committing job may still have a live
process (`cancelled_unproven`).
-/

variable {σ : Type} {env : JoinEnv} {job : JobDefinition} {jobId : PyStr}
variable {s s' : JobState} {step : JobStep σ} {state : StateFrame} {move moved : Move}

/-! ## The attempt that was launched -/

/-- **An attempt that was launched**, and what it was launched with. -/
structure LaunchedAttempt where
  attemptId : Option PyStr
  launcher : Launcher

def watchLaunch (last : Option LaunchedAttempt) (_ : JobState) (step : JobStep σ × Bool)
    (s' : JobState) : Option LaunchedAttempt :=
  match step.fst with
  | .launch launcher => some ⟨s'.frame.attemptId, launcher⟩
  | _ => last

def launchedRuns (env : JoinEnv) (job : JobDefinition) (jobId : PyStr) :
    System (JobState × Option LaunchedAttempt) (JobStep σ × Bool) :=
  System.observed (fun s => ∃ priority, s = JobState.submitted priority) (jobNext env job jobId)
    none watchLaunch

def processKinds : List StateKind := [.running, .cancelling]

/-- **A frame identifies** the attempt that was launched last. -/
structure Identifies (frame : StateFrame) (launched : LaunchedAttempt) : Prop where
  process : frame.get .process = some launched.launcher.process
  attemptId : frame.attemptId = launched.attemptId

/-- **The invariant of the process identity.** -/
def Identified (s : JobState) (last : Option LaunchedAttempt) : Prop :=
  s.kind ∈ processKinds → ∃ launched, last = some launched ∧ Identifies s.frame launched

/-! ## The identity is kept -/

variable {cenv : CommitEnv} {launcher : Launcher}

theorem get_launched (h : launchMove cenv state launcher = .ok move) :
    move.frame.get .process = some launcher.process := by
  unfold launchMove at h
  obtain ⟨control, -, h⟩ := bind_eq_ok.mp h
  split at h
  · rw [← Except.ok.inj h]
    simp
  · cases h

variable {request : OperatorRequest}

theorem get_audited {frame : StateFrame} : (audited frame request).get .process = frame.get .process := by
  unfold audited
  cases request.operatorKey with
  | none => exact StateFrame.get_replace_other (by simp) _
  | some key =>
    exact (StateFrame.get_replace_other (by simp) _).trans (StateFrame.get_replace_other (by simp) _)

theorem get_cancelling : (state.select cancellingMembers).get .process = state.get .process := by
  rw [StateFrame.get_select, if_pos (by decide)]

variable {kind : StateKind}

theorem applyRequest_process (h : applyRequest cenv job kind state request = .ok (some move))
    (hkind : move.kind ∈ processKinds) : move.frame.get .process = state.get .process := by
  cases requestAsks_of_apply h with
  | cancels _ _ h =>
    unfold requestCancel at h
    simp only at h
    split_ifs at h <;>
    · rw [← Option.some.inj h]
      exact (StateFrame.get_replace_other (by simp) _).trans (get_audited.trans get_cancelling)
  | prioritizes _ _ hfrom =>
    have hkind : kind ∈ processKinds := hkind
    exact absurd hfrom (by revert hkind; cases kind <;> decide)
  | records => exact StateFrame.get_replace_other (by simp) _
  | pauses => exact absurd hkind (by simp [processKinds])
  | revives _ _ h => rcases revive_kind h with hto | hto <;> exact absurd hkind (by simp [hto, processKinds])

variable {world : CancelWorld}

theorem finishCancellation_process (h : finishCancellation world state = .ok (some move)) :
    move.frame.get .process = state.get .process := by
  obtain ⟨-, ⟨proof, -, rfl⟩ | rfl⟩ := finishCancellation_cases h
  · exact (StateFrame.get_replace_other (by simp) _).trans get_cancelling
  · exact (StateFrame.get_replace_other (by simp) _).trans get_cancelling

theorem edge_of_process {e : StateKind × StateKind} (he : e ∈ step.edges) (hkind : e.snd ∈ processKinds) :
    (∃ launcher, step = .launch launcher) ∨ (∃ asked, step = .request asked)
      ∨ ∃ world, step = .pursue world := by
  cases step with
  | launch launcher => exact Or.inl ⟨launcher, rfl⟩
  | request asked => exact Or.inr (Or.inl ⟨asked, rfl⟩)
  | pursue world => exact Or.inr (Or.inr ⟨world, rfl⟩)
  | _ =>
    exfalso
    revert hkind
    revert he
    revert e
    simp only [JobStep.edges]
    decide

/-- **An attempt whose process counts** was launched by this step, or has the
identity it had. -/
theorem process_next (hprevious : s.previousState.isSome = true → s.kind = .claimed)
    (hasks : Asks env job jobId s step move) (hwrites : Writes env s.kind move moved)
    (hkind : moved.kind ∈ processKinds) :
    (∃ launcher, step = .launch launcher ∧ moved.frame.get .process = some launcher.process)
      ∨ (s.kind ∈ processKinds ∧ (∀ launcher, step ≠ .launch launcher)
        ∧ moved.frame.get .process = s.frame.get .process) := by
  have hsame : moved.kind = move.kind := hwrites.kind_of_ne fun hpaused => by
    rw [hpaused] at hkind
    exact absurd hkind (by decide)
  rw [hsame] at hkind
  rw [hwrites.get (by decide)]
  have hedge := edge_of_asks hprevious hasks
  rcases edge_of_process hedge hkind with ⟨launcher, rfl⟩ | ⟨asked, rfl⟩ | ⟨world, rfl⟩
  · exact Or.inl ⟨launcher, rfl, get_launched hasks.2⟩
  · have hfrom : ∀ e ∈ requestEdges, e.snd ∈ processKinds → e.fst ∈ processKinds := by decide
    exact Or.inr ⟨hfrom _ hedge hkind, by simp, applyRequest_process hasks hkind⟩
  · refine Or.inr ⟨?_, by simp, finishCancellation_process hasks.2⟩
    simp [hasks.1, processKinds]

theorem attemptId_next (heffect : Effect job s step moved) (hkind : moved.kind ∈ processKinds)
    (hfrom : s.kind ∈ processKinds) : moved.frame.attemptId = s.frame.attemptId := by
  have hnot : ∀ kind ∈ processKinds, kind ≠ .submitted ∧ kind ≠ .ready ∧ kind ≠ .claimed
      ∧ kind ≠ .failed ∧ kind ≠ .paused ∧ kind ≠ .committing := by decide
  have hto := hnot _ hkind
  have hstart := hnot _ hfrom
  cases heffect with
  | keeps hplain hframe hsame => exact hframe.attemptId
  | refuses hplain hsubmitted hfailed hframe => exact absurd hsubmitted hstart.1
  | registers freshId hstep hsubmitted hready hframe => exact absurd hsubmitted hstart.1
  | claims hplain attemptId hfresh hready hclaimed hframe => exact absurd hready hstart.2.1
  | releases reason hstep hclaimed hready hframe => exact absurd hclaimed hstart.2.2.1
  | launches hplain hclaimed hrunning hframe => exact absurd hclaimed hstart.2.2.1
  | fences hstep hplain hrunning hcommitting hframe =>
    exact absurd hcommitting hto.2.2.2.2.2
  | begins hplain freshId hfresh hends hready hframe =>
    rcases hready with hready | hpaused
    · exact absurd hready hto.2.1
    · exact absurd hpaused hto.2.2.2.2.1

variable {last : Option LaunchedAttempt}

/-- **A step keeps the identity.** -/
theorem Identified.next {reread : Bool} (hs : Identified s last)
    (hprevious : s.previousState.isSome = true → s.kind = .claimed)
    (hasks : Asks env job jobId s step move) (hwrites : Writes env s.kind move moved)
    (heffect : Effect job s step moved) :
    Identified (s.after jobId step moved)
      (watchLaunch last s (step, reread) (s.after jobId step moved)) := by
  intro hkind
  rw [after_kind] at hkind
  rcases process_next hprevious hasks hwrites hkind with
    ⟨launcher, rfl, hprocess⟩ | ⟨hfrom, hnot, hprocess⟩
  · exact ⟨⟨moved.frame.attemptId, launcher⟩, rfl, hprocess, rfl⟩
  · obtain ⟨launched, hlast, hidentifies⟩ := hs hfrom
    refine ⟨launched, ?_, hprocess.trans hidentifies.process,
      (attemptId_next heffect hkind hfrom).trans hidentifies.attemptId⟩
    unfold watchLaunch
    cases step with
    | launch launcher => exact absurd rfl (hnot launcher)
    | _ => exact hlast

theorem identified_of_reachable {p : JobState × Option LaunchedAttempt}
    (hs : (launchedRuns (σ := σ) env job jobId).Reachable p) : Identified p.fst p.snd := by
  refine hs.invariant (I := fun p => Identified p.fst p.snd) ?_ ?_
  · rintro p ⟨⟨priority, hp⟩, -⟩ hkind
    rw [hp] at hkind
    exact absurd hkind (show StateKind.submitted ∉ processKinds by decide)
  · rintro p ⟨step, reread⟩ p' hs hidentified hstep
    obtain ⟨hnext, hwatch⟩ := System.watching_eq_some.mp hstep
    have hreachable := hs.of_observed
    obtain ⟨move, moved, -, hasks, hwrites, heffect, hafter⟩ := effect_of_next hreachable hnext
    rw [hwatch, ← hafter]
    exact hidentified.next (claimed_of_previousState hreachable) hasks hwrites heffect

/-! ## The proof -/

/-- **An attempt is proven to have stopped**: it was reaped by the manager that
launched it, or its process group is absent on its host. -/
def Stopped (world : CancelWorld) (launched : LaunchedAttempt) : Prop :=
  (∃ pid status, world.launched (launched.attemptId.getD ⟨[]⟩) = some (pid, some status))
    ∨ (launched.launcher.hostname = world.hostname
      ∧ world.killpg launched.launcher.pid = .noProcess)

theorem validateProcess_launched {process : ProcessIdentity}
    (h : validateProcess (some launcher.process) = some process) :
    process.processGroup = launcher.pid ∧ process.hostname = launcher.hostname := by
  have hvalid : (if 0 < launcher.pid ∧ 0 < launcher.pid ∧ launcher.hostname.codes ≠ []
      ∧ launcher.launchedAt.codes ≠ [] then
        some (ProcessIdentity.mk launcher.pid launcher.pid launcher.hostname launcher.launchedAt)
      else none) = some process := h
  split_ifs at hvalid
  rw [← Option.some.inj hvalid]
  exact ⟨rfl, rfl⟩

theorem stopped_of_evidence {launched : LaunchedAttempt}
    {proof : List (PyStr × Json)} (hidentifies : Identifies state launched)
    (h : cancellationEvidence world state = .ok (some proof)) : Stopped world launched := by
  unfold cancellationEvidence at h
  rw [hidentifies.process, hidentifies.attemptId] at h
  split at h
  · cases Except.ok.inj h
  · rename_i process hvalid
    obtain ⟨hgroup, hhost⟩ := validateProcess_launched hvalid
    split at h
    · cases Except.ok.inj h
    · rename_i pid status hreaped
      exact Or.inl ⟨pid, status, hreaped⟩
    · split_ifs at h with hostname
      · cases Except.ok.inj h
      · obtain ⟨alive, halive, h⟩ := bind_eq_ok.mp h
        cases alive with
        | true => cases Except.ok.inj h
        | false =>
          refine Or.inr ⟨hhost.symm.trans (not_not.mp hostname), ?_⟩
          rw [hgroup] at halive
          unfold processGroupAlive at halive
          split at halive
          · assumption
          · cases Except.ok.inj halive
          · cases Except.ok.inj halive
          · split_ifs at halive
            cases Except.ok.inj halive

/-- **A cancelling job** stays so, unless its attempt is proven to have stopped. -/
theorem cancelling_next (hs : Identified s last)
    (hkind : s.kind = .cancelling) (hprevious : s.previousState.isSome = true → s.kind = .claimed)
    (hasks : Asks env job jobId s step move) (hwrites : Writes env s.kind move moved) :
    moved.kind = .cancelling ∨ (moved.kind = .cancelled ∧ ∃ world launched, step = .pursue world
      ∧ world.signalled = .ok ⟨⟩ ∧ last = some launched ∧ Stopped world launched) := by
  have hedge := edge_of_asks hprevious hasks
  have htable : ∀ e ∈ step.edges, e.fst = .cancelling → ∃ world, step = .pursue world := by
    cases step with
    | pursue world => exact fun _ _ _ => ⟨world, rfl⟩
    | _ =>
      intro e he hfrom
      exfalso
      revert hfrom
      revert he
      revert e
      simp only [JobStep.edges]
      decide
  obtain ⟨world, rfl⟩ := htable _ hedge hkind
  have hmove := hasks.2
  have hsame : moved.kind = move.kind := hwrites.kind.resolve_right fun hpaused => by
    rcases finishCancellation_kind hmove with hto | hto <;> simp [hto] at hpaused
  rw [hsame]
  obtain ⟨hsignalled, ⟨proof, hproof, rfl⟩ | rfl⟩ := finishCancellation_cases hmove
  · right
    obtain ⟨launched, hlast, hidentifies⟩ := hs (by simp [hkind, processKinds])
    exact ⟨rfl, world, launched, rfl, hsignalled, hlast, stopped_of_evidence hidentifies hproof⟩
  · exact Or.inl rfl

theorem applyRequest_cancelled (h : applyRequest cenv job kind state request = .ok (some move)) (hkind : move.kind = .cancelled) :
    Json.optEqStr request.action "cancel" = true ∧ kind ∉ processKinds
      ∧ ∃ verification, move.frame.get .cancellation = some (.obj verification)
        ∧ Json.get verification "verified" = some (.str "no_live_attempt") := by
  have htable : ∀ e ∈ requestEdges, e.snd = .cancelled → e.fst ∉ processKinds ∧ e.fst ≠ .cancelled := by decide
  obtain ⟨hfrom, hnot⟩ := htable _ (applyRequest_edge h) hkind
  have hother : kind ≠ move.kind := fun hsame => hnot (hsame.trans hkind)
  cases requestAsks_of_apply h with
  | cancels haction _ h =>
    refine ⟨haction, hfrom, ?_⟩
    unfold requestCancel at h
    simp only at h
    split_ifs at h
    · rw [← Option.some.inj h] at hkind
      cases hkind
    · rw [← Option.some.inj h]
      refine ⟨[("verified", .str "no_live_attempt"), ("from_kind", .str kind.word),
        ("verified_at", .str request.utcNow)], ?_, rfl⟩
      simp
  | prioritizes => exact absurd rfl hother
  | records => exact absurd rfl hother
  | pauses => cases hkind
  | revives _ _ h => rcases revive_kind h with hto | hto <;> cases hkind.symm.trans hto

/-- **A job is cancelled without a proof** only where no attempt was fenced. -/
theorem cancelled_next (hprevious : s.previousState.isSome = true → s.kind = .claimed)
    (hasks : Asks env job jobId s step move) (hwrites : Writes env s.kind move moved)
    (hkind : moved.kind = .cancelled) (hfrom : s.kind ≠ .cancelling) :
    step.requests "cancel" = true ∧ s.kind ∉ processKinds
      ∧ ∃ verification, moved.frame.get .cancellation = some (.obj verification)
        ∧ Json.get verification "verified" = some (.str "no_live_attempt") := by
  have hmove : move.kind = .cancelled := (hwrites.kind_of_ne (by simp [hkind])).symm.trans hkind
  have hedge := edge_of_asks hprevious hasks
  have htable : ∀ e ∈ step.edges, e.fst ≠ .cancelling → e.snd = .cancelled → ∃ asked, step = .request asked := by
    cases step with
    | request asked => exact fun _ _ _ _ => ⟨asked, rfl⟩
    | _ =>
      intro e he hnot hto
      exfalso
      revert hto
      revert hnot
      revert he
      revert e
      simp only [JobStep.edges]
      decide
  obtain ⟨asked, rfl⟩ := htable _ hedge hfrom hmove
  rw [hwrites.get (by decide)]
  exact applyRequest_cancelled hasks hmove

/-- **What a cancellation of a step rests on.** -/
structure CancelledRightly (p p' : JobState × Option LaunchedAttempt) (step : JobStep σ) : Prop where
  running : p.fst.kind = .running → p'.fst.kind ≠ .cancelled
  cancelling : p.fst.kind = .cancelling → p'.fst.kind = .cancelling
    ∨ (p'.fst.kind = .cancelled ∧ ∃ world launched, step = .pursue world
      ∧ world.signalled = .ok ⟨⟩ ∧ p.snd = some launched ∧ Stopped world launched)
  other : p'.fst.kind = .cancelled → p.fst.kind ≠ .cancelling → step.requests "cancel" = true
    ∧ ∃ verification, p'.fst.frame.get .cancellation = some (.obj verification)
      ∧ Json.get verification "verified" = some (.str "no_live_attempt")
  /-- An attempt that is fenced is abandoned for good, and no outcome of an
  abandoned attempt is applied. -/
  fenced : p.fst.kind = .running → p'.fst.kind = .cancelling →
    ∀ id, p.fst.frame.attemptId = some id → id ∈ p'.fst.abandoned
  abandoned : ∀ id ∈ p.fst.abandoned, id ∈ p'.fst.abandoned
  applied : ∀ o ∈ p'.fst.applied, ∀ id ∈ p'.fst.abandoned,
    Json.get o.outcome "attempt_id" ≠ some (.str id)

/-- **Cancellations are proven**, in every run. -/
theorem cancellation_proven {p p' : JobState × Option LaunchedAttempt} {a : JobStep σ × Bool}
    (hs : (launchedRuns (σ := σ) env job jobId).Reachable p)
    (hstep : (launchedRuns env job jobId).step p a p') : CancelledRightly p p' a.fst := by
  have hreachable := hs.of_observed
  have hfencing : Fencing jobId p'.fst := fencing_of_reachable (hs.step hstep).of_observed
  obtain ⟨hnext, -⟩ := System.watching_eq_some.mp hstep
  obtain ⟨move, moved, -, hasks, hwrites, heffect, hafter⟩ := effect_of_next hreachable hnext
  have hprevious := claimed_of_previousState hreachable
  have hkind : p'.fst.kind = moved.kind := by rw [← hafter, after_kind]
  constructor
  · intro hrunning hcancelled
    have hunproven := (cancelled_next hprevious hasks hwrites (hkind.symm.trans hcancelled)
      (by simp [hrunning])).2.1
    rw [hrunning] at hunproven
    exact hunproven (by decide)
  · intro hcancelling
    rw [hkind]
    exact cancelling_next (identified_of_reachable hs) hcancelling hprevious hasks hwrites
  · intro hcancelled hfrom
    obtain ⟨hasked, -, hrecorded⟩ :=
      cancelled_next hprevious hasks hwrites (hkind.symm.trans hcancelled) hfrom
    rw [← hafter, after_frame]
    exact ⟨hasked, hrecorded⟩
  · intro hrunning hcancelling id hid
    have hfence : a.fst.isFence = false := by
      by_contra hfence
      have hcommitting : moved.kind = .committing := by
        cases heffect with
        | fences hfence' hplain hfrom hcommitting hframe => exact hcommitting
        | keeps hplain => exact absurd hplain.fence hfence
        | refuses hplain => exact absurd hplain.fence hfence
        | registers freshId hstep => simp [hstep, JobStep.isFence] at hfence
        | claims hplain => exact absurd hplain.fence hfence
        | releases reason hstep => simp [hstep, JobStep.isFence] at hfence
        | launches hplain => exact absurd hplain.fence hfence
        | begins hplain => exact absurd hplain.fence hfence
      rw [hkind, hcommitting] at hcancelling
      cases hcancelling
    rw [hkind] at hcancelling
    rw [← hafter]
    simp [JobState.after, hrunning, hcancelling, hfence, hid]
  · intro id hid
    rw [← hafter]
    simp only [JobState.after]
    split_ifs
    · exact List.mem_append_right _ hid
    · exact hid
  · intro o ho id hid hattempt
    obtain ⟨running, attemptId, -, -, -, -, hsame, hnot⟩ := hfencing.applied o ho
    rw [hsame] at hattempt
    have heq : attemptId = id := Json.str.inj (Option.some.inj hattempt)
    exact hnot (heq ▸ hid)

/-! ## A cancellation of a running job, and of a committing one -/

def plainPursue : JobStep PUnit :=
  .pursue ⟨"host", "m2", fun _ => none, fun _ => .noProcess, .ok ⟨⟩, false, "now"⟩

def plainCancel : JobStep PUnit := .request (plainRequest "cancel")

def cancelledAttempt : List (JobStep PUnit) :=
  [.register "a1", plainClaim "t1", plainLaunch, plainCancel]

/-- That attempt is cancelled once its process group is gone. -/
theorem cancellation_proven_absent : ∃ p p',
    (launchedRuns (σ := PUnit) plainJoinEnv plainJob "job").Reachable p
      ∧ (launchedRuns plainJoinEnv plainJob "job").step p (plainPursue, true) p'
      ∧ p.fst.kind = .cancelling ∧ p'.fst.kind = .cancelled
      ∧ CancelledRightly p p' plainPursue := by
  have hrun : (System.follow (System.watching (jobNext plainJoinEnv plainJob "job") watchLaunch)
      (JobState.submitted 100, none) (cancelledAttempt.map (·, true))).bind (fun p =>
        (System.watching (jobNext plainJoinEnv plainJob "job") watchLaunch p
          (plainPursue, true)).map fun p' => (p.fst.kind, p'.fst.kind))
      = some (StateKind.cancelling, StateKind.cancelled) := by
    decide +kernel
  obtain ⟨p, hp, hrun⟩ := Option.bind_eq_some_iff.mp hrun
  obtain ⟨p', hstep, hkinds⟩ := Option.map_eq_some_iff.mp hrun
  obtain ⟨hcancelling, hcancelled⟩ := Prod.mk.inj hkinds
  have hreachable : (launchedRuns (σ := PUnit) plainJoinEnv plainJob "job").Reachable p :=
    (System.run_of_follow hp).reachable (System.Reachable.init ⟨⟨100, rfl⟩, rfl⟩)
  exact ⟨p, p', hreachable, hstep, hcancelling, hcancelled, cancellation_proven hreachable hstep⟩

def committingAttempt : List (JobStep PUnit) :=
  [.register "a1", plainClaim "t1", plainLaunch, .fence plainPoll (.ok (advanceTo "second"))]

/-- **A committing job is cancelled without a proof**: its attempt was launched, and
nothing is known of its process. -/
theorem cancelled_unproven : ∃ s s',
    (jobRuns (σ := PUnit) plainJoinEnv plainJob "job").Reachable s
      ∧ jobNext plainJoinEnv plainJob "job" s (plainCancel, true) = some s'
      ∧ s.launches = 1 ∧ s.kind = .committing ∧ s'.kind = .cancelled := by
  have hrun : (plainRun plainJob committingAttempt).bind (fun s =>
      (jobNext plainJoinEnv plainJob "job" s (plainCancel, true)).map fun s' =>
        (s.launches, s.kind, s'.kind)) = some (1, StateKind.committing, StateKind.cancelled) := by
    decide +kernel
  obtain ⟨s, hs, hrun⟩ := Option.bind_eq_some_iff.mp hrun
  obtain ⟨s', hs', hfacts⟩ := Option.map_eq_some_iff.mp hrun
  simp only [Prod.mk.injEq] at hfacts
  exact ⟨s, s', reachable_of_plainRun hs, hs', hfacts⟩
