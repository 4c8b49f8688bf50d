import HttkWorkflow.JobEffects

/-!
# The fencing of outcomes

An outcome is a file that the process of an attempt may publish at any time,
also long after another attempt has taken its place. What keeps a late one
from being applied is that the commit checks three identities against the
frame of the committing marker, and that this frame has them from the running
frame the job was fenced from.

`Fencing` is the invariant. An attempt id is made up for one claim, so that
the ids of the attempts that left `running` otherwise are never those of an
attempt that is under way; and a committing frame still has the identities of
the running frame. Both are read off the effects of the steps.
-/

variable {σ : Type} {env : JoinEnv} {job : JobDefinition} {jobId : PyStr}
variable {s s' : JobState} {step : JobStep σ} {moved : Move}

/-- **An outcome that was applied rightly**: it has the identities of the running
frame the job was fenced from, and its attempt did not leave `running` in
another way. -/
def Fenced (jobId : PyStr) (abandoned : List PyStr) (o : AppliedOutcome) : Prop :=
  ∃ running attemptId, o.fencedFrom = some running ∧ running.attemptId = some attemptId
    ∧ Json.get o.outcome "job_id" = some (.str jobId)
    ∧ sameIdentity (Json.get o.outcome "activation_id") running.activationId = true
    ∧ Json.get o.outcome "attempt_id" = some (.str attemptId)
    ∧ attemptId ∉ abandoned

/-- **The invariant of the fence.** -/
structure Fencing (jobId : PyStr) (s : JobState) : Prop where
  issued : ∀ id, s.frame.attemptId = some id → id ∈ s.issued
  abandoned : ∀ id ∈ s.abandoned, id ∈ s.issued
  /-- An attempt that is under way has not ended, and no outcome of it was
  applied. -/
  active : s.kind ∈ attemptKinds →
    ∃ id, s.frame.attemptId = some id ∧ id ∉ s.abandoned
      ∧ ∀ o ∈ s.applied, Json.get o.outcome "attempt_id" ≠ some (.str id)
  committing : s.kind = .committing → ∃ running, s.fencedFrom = some running
    ∧ running.attemptId = s.frame.attemptId ∧ running.activationId = s.frame.activationId
  appliedIssued : ∀ o ∈ s.applied, ∀ id, Json.get o.outcome "attempt_id" = some (.str id) →
    id ∈ s.issued
  applied : ∀ o ∈ s.applied, Fenced jobId s.abandoned o

/-- **What a commit reads** has the identities of the committing frame. -/
theorem identities_of_readOutcome {document : Except Exc Json} {state : StateFrame}
    {outcome : List (PyStr × Json)} (h : readOutcome document jobId state = .ok outcome) :
    Json.get outcome "job_id" = some (.str jobId)
      ∧ sameIdentity (Json.get outcome "activation_id") state.activationId = true
      ∧ sameIdentity (Json.get outcome "attempt_id") state.attemptId = true := by
  unfold readOutcome at h
  obtain ⟨value, -, h⟩ := bind_eq_ok.mp h
  split at h
  · split_ifs at h with hformat hjob hactivation hattempt
    · cases h
    · cases h
    · cases h
    · split at h
      · obtain rfl := Except.ok.inj h
        refine ⟨?_, ?_, ?_⟩
        · exact Json.optEqStr_iff.mp (Bool.not_eq_false _ ▸ hjob)
        · exact Bool.not_eq_false _ ▸ hactivation
        · exact Bool.not_eq_false _ ▸ hattempt
      · cases h
    · cases h
  · cases h

variable {o : AppliedOutcome}

theorem eq_of_mem_appliedBy (h : o ∈ appliedBy jobId s step) : ∃ world files, step = .apply world files
      ∧ readOutcome (world.document files) jobId s.frame = .ok o.outcome
      ∧ o.fencedFrom = s.fencedFrom := by
  unfold appliedBy at h
  split at h
  · rename_i world files
    split at h
    · rename_i outcome hread
      rw [List.mem_singleton.mp h]
      exact ⟨world, files, rfl, hread, rfl⟩
    · cases h
  · cases h

variable {move : Move}

theorem left_of_mem_appliedBy (hasks : Asks env job jobId s step move) (hwrites : Writes env s.kind move moved)
    (h : o ∈ appliedBy jobId s step) : s.kind = .committing ∧ moved.kind ∉ enteredKinds := by
  obtain ⟨world, files, rfl, -, -⟩ := eq_of_mem_appliedBy h
  obtain ⟨hkind, outcome, generation, -, hmove⟩ := hasks
  refine ⟨hkind, fun hmem => ?_⟩
  have hsame := hwrites.kind_mem hmem
  rcases outcomeMove_moves hmove with ⟨-, hinactive⟩ | ⟨-, hready⟩
  · exact hinactive (hsame ▸ hmem)
  · rw [hsame, hready] at hmem
    exact absurd hmem (by decide)

theorem Fencing.of_mem_appliedBy (hs : Fencing jobId s)
    (hasks : Asks env job jobId s step move) (hwrites : Writes env s.kind move moved)
    (h : o ∈ appliedBy jobId s step) : Fenced jobId s.abandoned o
      ∧ ∀ id, Json.get o.outcome "attempt_id" = some (.str id) → id ∈ s.issued := by
  obtain ⟨hkind, -⟩ := left_of_mem_appliedBy hasks hwrites h
  obtain ⟨world, files, -, hread, hfrom⟩ := eq_of_mem_appliedBy h
  obtain ⟨hjob, hactivation, hattempt⟩ := identities_of_readOutcome hread
  obtain ⟨id, hid, hlive, -⟩ := hs.active (by simp [hkind, attemptKinds])
  obtain ⟨running, hrunning, hsameAttempt, hsameActivation⟩ := hs.committing hkind
  rw [hid] at hattempt hsameAttempt
  have hget : Json.get o.outcome "attempt_id" = some (.str id) := Json.optEqStr_iff.mp hattempt
  refine ⟨⟨running, id, hfrom.trans hrunning, hsameAttempt, hjob, ?_, hget, hlive⟩, fun id' hid' => ?_⟩
  · rw [hsameActivation]
    exact hactivation
  · rw [hget] at hid'
    rw [← Json.str.inj (Option.some.inj hid')]
    exact hs.issued id hid

/-! ## What the steps do to an attempt -/

theorem Effect.attemptId (hfresh : ∀ id, step.fresh = some id → id ∉ s.issued ∧ id.codes ≠ [])
    (h : Effect job s step moved) :
    moved.frame.attemptId = s.frame.attemptId ∨ moved.frame.attemptId = none
      ∨ ∃ id, step.fresh = some id ∧ moved.frame.attemptId = some id := by
  have hnone : moved.frame.get .attemptId = none → moved.frame.attemptId = none := by
    intro hget
    show moved.frame.string .attemptId = none
    unfold StateFrame.string
    rw [hget]
  have hsame : moved.frame.get .attemptId = s.frame.get .attemptId → moved.frame.attemptId = s.frame.attemptId := by
    intro hget
    show moved.frame.string .attemptId = s.frame.string .attemptId
    unfold StateFrame.string
    rw [hget]
  cases h with
  | keeps _ hframe => exact Or.inl hframe.attemptId
  | refuses _ _ _ hframe => exact Or.inr (Or.inl (hnone (hframe _ (by decide))))
  | registers freshId _ _ _ hframe => exact Or.inr (Or.inl (hnone hframe.attemptId))
  | claims _ attemptId hid _ _ hframe =>
    exact Or.inr (Or.inr ⟨attemptId, hid, StateFrame.string_of_get hframe.attemptId (hfresh attemptId hid).2⟩)
  | releases _ _ _ _ hframe => exact Or.inl (hsame hframe.attemptId)
  | launches _ _ _ hframe => exact Or.inl hframe.attemptId
  | fences _ _ _ _ hframe => exact Or.inl hframe.attemptId
  | begins _ _ _ _ _ hframe => exact Or.inl (hsame hframe.attemptId)

theorem Effect.underway (hfresh : ∀ id, step.fresh = some id → id ∉ s.issued ∧ id.codes ≠ [])
    (h : Effect job s step moved) (hkind : moved.kind ∈ attemptKinds) :
    (∃ id, step.fresh = some id ∧ moved.frame.attemptId = some id ∧ s.kind = .ready)
      ∨ (s.kind ∈ attemptKinds ∧ Keeps s.frame moved.frame
        ∧ (s.kind = .running → moved.kind = .running ∨ step.isFence = true)) := by
  cases h with
  | keeps _ hframe hsame =>
    have hkept : moved.kind = s.kind := hsame (List.mem_cons_of_mem _ hkind)
    exact Or.inr ⟨hkept ▸ hkind, hframe, fun hrunning => Or.inl (hkept.trans hrunning)⟩
  | refuses _ _ hfailed => exact absurd hkind (by simp [hfailed, attemptKinds])
  | registers _ _ _ hready =>
    rcases hready with hready | hready <;> exact absurd hkind (by simp [hready, attemptKinds])
  | claims _ attemptId hid hfrom _ hframe =>
    exact Or.inl ⟨attemptId, hid, StateFrame.string_of_get hframe.attemptId (hfresh attemptId hid).2, hfrom⟩
  | releases _ _ _ hready =>
    rcases hready with hready | hready <;> exact absurd hkind (by simp [hready, attemptKinds])
  | launches _ hfrom hrunning hframe =>
    exact Or.inr ⟨by simp [hfrom, attemptKinds], hframe, fun _ => Or.inl hrunning⟩
  | fences hfence _ hfrom _ hframe =>
    exact Or.inr ⟨by simp [hfrom, attemptKinds], hframe, fun _ => Or.inr hfence⟩
  | begins _ _ _ _ hready =>
    rcases hready with hready | hready <;> exact absurd hkind (by simp [hready, attemptKinds])

theorem Effect.committing (h : Effect job s step moved) (hkind : moved.kind = .committing) :
    Keeps s.frame moved.frame ∧ (step.isFence = true ∨ (s.kind = .committing ∧ step.isFence = false)) := by
  cases h with
  | keeps hplain hframe hsame =>
    have hkept : moved.kind = s.kind := hsame (by simp [hkind, enteredKinds])
    exact ⟨hframe, Or.inr ⟨hkept.symm.trans hkind, hplain.fence⟩⟩
  | fences hfence _ _ _ hframe => exact ⟨hframe, Or.inl hfence⟩
  | refuses _ _ hfailed => simp [hfailed] at hkind
  | registers _ _ _ hready => rcases hready with hready | hready <;> simp [hready] at hkind
  | claims _ _ _ _ hclaimed => simp [hclaimed] at hkind
  | releases _ _ _ hready => rcases hready with hready | hready <;> simp [hready] at hkind
  | launches _ _ hrunning => simp [hrunning] at hkind
  | begins _ _ _ _ hready => rcases hready with hready | hready <;> simp [hready] at hkind

theorem mem_abandoned_after {id : PyStr} (h : id ∈ (s.after jobId step moved).abandoned) :
    id ∈ s.abandoned ∨ (s.kind = .running ∧ moved.kind ≠ .running ∧ step.isFence = false
      ∧ s.frame.attemptId = some id) := by
  simp only [JobState.after] at h
  split_ifs at h with hleaves
  · rcases List.mem_append.mp h with hid | hid
    · exact Or.inr ⟨hleaves.1, hleaves.2.1, hleaves.2.2, Option.mem_toList.mp hid⟩
    · exact Or.inl hid
  · exact Or.inl h

/-! ## The invariant of the fence -/

/-- **A step keeps the fence.** -/
theorem Fencing.next (hs : Fencing jobId s) (hfresh : ∀ id, step.fresh = some id → id ∉ s.issued ∧ id.codes ≠ [])
    (hasks : Asks env job jobId s step move) (hwrites : Writes env s.kind move moved)
    (heffect : Effect job s step moved) : Fencing jobId (s.after jobId step moved) := by
  have hlive : ∀ id ∈ (s.after jobId step moved).abandoned, id ∈ s.issued := by
    intro id hid
    rcases mem_abandoned_after hid with hid | ⟨-, -, -, hid⟩
    · exact hs.abandoned id hid
    · exact hs.issued id hid
  have holder : ∀ o ∈ (s.after jobId step moved).applied,
      ∀ id, Json.get o.outcome "attempt_id" = some (.str id) → id ∈ s.issued := by
    intro o ho
    rcases List.mem_append.mp ho with ho | ho
    · exact (hs.of_mem_appliedBy hasks hwrites ho).2
    · exact hs.appliedIssued o ho
  refine ⟨fun id hid => ?_, fun id hid => List.mem_append_right _ (hlive id hid), fun hkind => ?_,
    fun hkind => ?_, fun o ho id hid => List.mem_append_right _ (holder o ho id hid),
    fun o ho => ?_⟩
  · rcases heffect.attemptId hfresh with hsame | hnone | ⟨freshId, hid', hnew⟩
    · exact List.mem_append_right _ (hs.issued id (hsame ▸ hid))
    · rw [after_frame, hnone] at hid
      cases hid
    · rw [after_frame, hnew] at hid
      exact List.mem_append_left _ (Option.mem_toList.mpr (hid ▸ hid'))
  · rcases heffect.underway hfresh hkind with ⟨id, hid, hframe, -⟩ | ⟨hfrom, hframe, hfence⟩
    · have hnew := (hfresh id hid).1
      exact ⟨id, hframe, fun hmem => hnew (hlive id hmem), fun o ho hget => hnew (holder o ho id hget)⟩
    · obtain ⟨id, hid, habandoned, happlied⟩ := hs.active hfrom
      refine ⟨id, hframe.attemptId.trans hid, fun hmem => ?_, fun o ho => ?_⟩
      · rcases mem_abandoned_after hmem with hmem | ⟨hrunning, hleft, hplain, -⟩
        · exact habandoned hmem
        · rcases hfence hrunning with hstays | hfenced
          · exact hleft hstays
          · rw [hplain] at hfenced
            cases hfenced
      · rcases List.mem_append.mp ho with ho | ho
        · exact absurd (List.mem_cons_of_mem _ hkind) (left_of_mem_appliedBy hasks hwrites ho).2
        · exact happlied o ho
  · obtain ⟨hframe, hfence⟩ := heffect.committing hkind
    have hcommitting : moved.kind = .committing := hkind
    rcases hfence with hfence | ⟨hfrom, hplain⟩
    · refine ⟨s.frame, ?_, hframe.attemptId.symm, hframe.activationId.symm⟩
      simp only [JobState.after, hfence, if_true]
    · obtain ⟨running, hrunning, hattempt, hactivation⟩ := hs.committing hfrom
      refine ⟨running, ?_, hattempt.trans hframe.attemptId.symm, hactivation.trans hframe.activationId.symm⟩
      simp only [JobState.after, hplain, hcommitting, Bool.false_eq_true, if_false, if_true]
      exact hrunning
  · rcases List.mem_append.mp ho with ho | ho
    · obtain ⟨running, id, hrunning, hid, hjob, hactivation, hget, hlives⟩ :=
        (hs.of_mem_appliedBy hasks hwrites ho).1
      refine ⟨running, id, hrunning, hid, hjob, hactivation, hget, fun hmem => ?_⟩
      rcases mem_abandoned_after hmem with hmem | ⟨hkind, -, -, -⟩
      · exact hlives hmem
      · rw [(left_of_mem_appliedBy hasks hwrites ho).1] at hkind
        cases hkind
    · obtain ⟨running, id, hrunning, hid, hjob, hactivation, hget, hlives⟩ := hs.applied o ho
      refine ⟨running, id, hrunning, hid, hjob, hactivation, hget, fun hmem => ?_⟩
      rcases mem_abandoned_after hmem with hmem | ⟨hkind, -, -, hcurrent⟩
      · exact hlives hmem
      · obtain ⟨id', hid', -, happlied⟩ := hs.active (by simp [hkind, attemptKinds])
        rw [hid'] at hcurrent
        rw [← Option.some.inj hcurrent] at hget
        exact happlied o ho hget

/-- **The fence holds** in every state of every run. -/
theorem fencing_of_reachable (hs : (jobRuns (σ := σ) env job jobId).Reachable s) :
    Fencing jobId s := by
  refine hs.invariant ?_ ?_
  · rintro s ⟨priority, rfl⟩
    exact ⟨fun id h => (by cases h), fun id h => (by cases h),
      fun h => absurd h (by simp [JobState.submitted, attemptKinds]), fun h => (by cases h), fun o h => (by cases h), fun o h => (by cases h)⟩
  · intro s a s' hs hfencing hnext
    obtain ⟨move, moved, hfresh, hasks, hwrites, heffect, rfl⟩ := effect_of_next hs hnext
    exact hfencing.next hfresh hasks hwrites heffect

/-- **An outcome is applied only if it is fenced**: its three identities are
those of the running frame from which the job was fenced into `committing`,
and its attempt is none of those that left `running` in another way. -/
theorem outcome_fenced (hs : (jobRuns (σ := σ) env job jobId).Reachable s) :
    ∀ o ∈ s.applied, Fenced jobId s.abandoned o := (fencing_of_reachable hs).applied

def overtakenRun : List (JobStep PUnit) :=
  [.register "a1", plainClaim "t0", plainLaunch, .takeover plainTakeover, plainClaim "t1",
    plainLaunch, .fence plainPoll (.ok (advanceTo "second")), plainApply (advanceTo "second") "a2"]

/-- In that run the outcome is applied, and the first attempt is abandoned. -/
theorem outcome_fenced_overtaken : ∃ s,
    (jobRuns (σ := PUnit) plainJoinEnv { plainJob with
      retryPolicy := RetryPolicy.unlimited ["lease_lost"] } "job").Reachable s
    ∧ s.applied.length = 1 ∧ s.abandoned = ["t0"] ∧ ∀ o ∈ s.applied, Fenced "job" s.abandoned o := by
  have hrun : (plainRun { plainJob with retryPolicy := RetryPolicy.unlimited ["lease_lost"] }
      overtakenRun).map (fun s => (s.applied.length, s.abandoned)) = some (1, [PyStr.ofString "t0"]) := by
    decide +kernel
  obtain ⟨s, hs, hfacts⟩ := Option.map_eq_some_iff.mp hrun
  obtain ⟨happlied, habandoned⟩ := Prod.mk.inj hfacts
  have hreachable := reachable_of_plainRun hs
  exact ⟨s, hreachable, happlied, habandoned, outcome_fenced hreachable⟩
