import HttkWorkflow.TransitionTable

/-!
# What a transition repeats

A frame is rebuilt by every transition, from the members the activation
carries and what the transition writes. The step, the data generation and the
resources are carried, and of the transitions around an attempt (a claim, its
release, the launch, the failure and the takeover) none writes the first two
and only the claim the last.
-/

variable {env : JoinEnv} {job : JobDefinition} {state progress : StateFrame}
variable {move moved : Move} {m : Member}

/-- The members that the transitions around an attempt repeat. -/
def keptMembers : List Member := [.step, .dataGeneration, .resources]

section Kept

variable (hm : m ∈ keptMembers)

include hm

theorem carried_kept (state : StateFrame) : state.carried.get m = state.get m := by
  rw [StateFrame.get_carried, if_pos]
  revert m
  decide

theorem rebuilt_kept {written : List (Member × Json)}
    (hother : ∀ m ∈ keptMembers, m ∉ written.map Prod.fst) (state : StateFrame) :
    (state.carried.replace written).get m = state.get m :=
  (StateFrame.get_replace_other (hother m hm) _).trans (carried_kept hm state)

theorem withProcess_kept : (withProcess state progress).get m = progress.get m := by
  refine get_withProcess ?_
  revert m
  decide

variable {cenv : CommitEnv} {evidence : Option (List (PyStr × Json))}

variable {unclean : Bool}

theorem retry_kept {reason : PyStr} {priority : Option Int}
    (h : retry cenv job state progress reason unclean evidence priority = .ok move) :
    move.frame.get m = progress.get m := by
  refine retry_keeps ?_ h
  revert m
  decide

theorem attemptFailureMove_kept {code : PyStr} {message : Message} {exitStatus : Option Int}
    (h : attemptFailureMove cenv job state code message exitStatus unclean evidence = .ok move) :
    move.frame.get m = state.get m := by
  unfold attemptFailureMove at h
  split_ifs at h
  · exact (retry_kept hm h).trans (carried_kept hm state)
  · rw [← Except.ok.inj h]
    show (attemptFailed cenv state code message exitStatus evidence).get m = _
    have hframe : (withProcess state (state.carried.replace
        [(.failure, failure cenv code message exitStatus), (.reason, .str code)])).get m
          = state.get m :=
      (withProcess_kept hm).trans (rebuilt_kept hm (by simp [keptMembers]) state)
    unfold attemptFailed
    cases evidence with
    | none => exact hframe
    | some evidence =>
      refine (StateFrame.get_replace_other ?_ _).trans hframe
      revert m
      simp [keptMembers]

theorem takeoverMove_kept {world : TakeoverWorld}
    (h : takeoverMove cenv world job state = .ok (some move)) : move.frame.get m = state.get m := by
  obtain ⟨evidence, -, h⟩ := failure_of_takeover h
  exact attemptFailureMove_kept hm h

theorem launchMove_kept {launcher : Launcher}
    (h : launchMove cenv state launcher = .ok move) : move.frame.get m = state.get m := by
  unfold launchMove at h
  obtain ⟨control, -, h⟩ := bind_eq_ok.mp h
  split at h
  · rw [← Except.ok.inj h]
    exact rebuilt_kept hm (by simp [keptMembers]) state
  · cases h

omit hm in
theorem claimMove_kept {claimer : Claimer} (hm : m ∈ keptMembers)
    (hclaim : m ≠ .resources ∨ (claimMove cenv job state claimer).kind ≠ .claimed) :
    (claimMove cenv job state claimer).frame.get m = state.get m := by
  unfold claimMove at hclaim ⊢
  split_ifs with hpause
  · exact rebuilt_kept hm (by simp [keptMembers]) state
  · simp only [if_neg hpause] at hclaim ⊢
    cases hbudget : attemptBudgetFailure job (state.attemptOrdinal.getD 0 + 1)
        (state.totalAttempts.getD 0 + 1) with
    | some text => exact rebuilt_kept hm (by simp [keptMembers]) state
    | none =>
      rw [hbudget] at hclaim
      have hname : m ≠ .resources := hclaim.resolve_right fun h => h rfl
      refine (StateFrame.get_replace_other ?_ _).trans (carried_kept hm state)
      revert m
      simp [keptMembers]

theorem Writes.kept {kind : StateKind} (h : Writes env kind move moved) : moved.frame.get m = move.frame.get m := by
  refine h.get ?_
  revert m
  decide

end Kept
