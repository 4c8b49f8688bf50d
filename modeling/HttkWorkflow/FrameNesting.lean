import HttkWorkflow.FrameStorage
import HttkWorkflow.JobRunSteps

/-!
# How deep the frame of a request is nested

`json.dumps` takes a value as deeply nested as `json.load` takes one. What a
request says of its operator, its reason and its id becomes a member of the
frame its transition writes, at the depth it had in the request, so that a
frame of a request that could be read can be serialized
(`applyRequest_nests`). The one exception is the pause of a running attempt,
which is recorded in an object of its own and lies one level deeper there
(`applyRequest_pause`).
-/

variable {env : CommitEnv} {job : JobDefinition} {kind : StateKind}
variable {state progress frame : StateFrame} {move : Move} {asked : OperatorRequest}

namespace StateFrame

/-- **Whether a frame can be serialized**, as far as its nesting goes. -/
def Nests (env : CommitEnv) (frame : StateFrame) : Prop :=
  ∀ e ∈ frame.members, e.snd.nests env.depth = true

theorem Nests.of_subset (h : frame.Nests env) (hsub : progress.members ⊆ frame.members) :
    progress.Nests env := fun e he => h e (hsub he)

theorem Nests.carried (h : frame.Nests env) : frame.carried.Nests env :=
  h.of_subset List.filter_sublist.subset

theorem Nests.select (h : frame.Nests env) (names : List Member) : (frame.select names).Nests env :=
  h.of_subset List.filter_sublist.subset

theorem Nests.without (h : frame.Nests env) (names : List Member) : (frame.without names).Nests env :=
  h.of_subset List.filter_sublist.subset

theorem Nests.replace {written : List (Member × Json)} (h : frame.Nests env)
    (hwritten : ∀ e ∈ written, e.snd.nests env.depth = true) : (frame.replace written).Nests env :=
  forall_replace (P := fun value => value.nests env.depth = true) h hwritten

theorem Nests.of_get {m : Member} {value : Json} (h : frame.Nests env)
    (hget : frame.get m = some value) : value.nests env.depth = true := by
  obtain ⟨before, after, hsplit, -⟩ := List.lookup_eq_some_iff.mp hget
  refine h (m, value) ?_
  show (m, value) ∈ frame.members
  rw [hsplit]
  exact List.mem_append_right _ List.mem_cons_self

theorem Nests.pauseRequested {requested : List (PyStr × Json)} (h : frame.Nests env)
    (hget : frame.pauseRequested = some requested) :
    (Json.obj requested).nests env.depth = true := by
  unfold StateFrame.pauseRequested StateFrame.mapping at hget
  split at hget
  · rename_i members hvalue
    rw [← Option.some.inj hget]
    exact h.of_get hvalue
  · cases hget

theorem unstorable_cls : (frame.Nests env ∧ (frame.unstorable env).cls = .unicodeEncode)
    ∨ (¬frame.Nests env ∧ (frame.unstorable env).cls = .recursion) := by
  unfold unstorable
  split_ifs with hnests
  · exact Or.inl ⟨hnests, rfl⟩
  · exact Or.inr ⟨hnests, rfl⟩

theorem encodable_unstorable : Message.encodable (frame.unstorable env).message = true := by
  unfold unstorable
  split_ifs <;> rfl

end StateFrame

theorem nests_getD {members : List (PyStr × Json)} {name : String} {depth : Nat}
    (h : (Json.obj members).nests depth = true) :
    ((Json.get members name).getD .null).nests depth = true := by
  obtain ⟨d, rfl⟩ := Nat.exists_eq_succ_of_ne_zero (Json.nests_obj.mp h).1
  cases hget : Json.get members name with
  | none => rfl
  | some value => exact Json.nests_succ (Json.nests_get h hget)

theorem nests_failure {code : PyStr} {message : Message} :
    (failure env code message none).nests env.depth = true := by
  obtain ⟨d, hd⟩ := Nat.exists_eq_add_of_le' env.three_le_depth
  rw [hd]
  show (Failure.asMapping _).nests (d + 3) = true
  unfold Failure.asMapping
  simp

theorem nests_orNull {value : Option PyStr} {depth : Nat} : (orNull value).nests depth = true := by
  cases value <;> rfl

/-! ## What a request asks for -/

section Requested

/-- **What a request brings into a frame** is no deeper than a frame takes. -/
structure OperatorRequest.Nests (env : CommitEnv) (asked : OperatorRequest) : Prop where
  operator : asked.operator.nests env.depth = true
  reason : asked.reason.nests env.depth = true
  requestId : asked.requestId.nests env.depth = true
  hazard : ∀ hazard, asked.hazard = some hazard → (Json.obj hazard).nests env.depth = true

theorem nests_audited (hframe : frame.Nests env) (hasked : asked.Nests env) : (audited frame asked).Nests env := by
  have hnamed : (frame.replace [(.operator, asked.operator), (.operatorReason, asked.reason),
      (.requestId, asked.requestId)]).Nests env :=
    hframe.replace (by simpa using ⟨hasked.operator, hasked.reason, hasked.requestId⟩)
  unfold audited
  cases asked.operatorKey with
  | none => exact hnamed
  | some key => exact hnamed.replace (by simp)

theorem nests_withHazard (hframe : frame.Nests env) (hasked : asked.Nests env) :
    (withHazard frame asked).Nests env := by
  unfold withHazard
  split
  · rename_i hazard hhazard
    refine hframe.replace fun e he => ?_
    rw [List.mem_singleton.mp he]
    exact hasked.hazard hazard hhazard
  · exact hframe

theorem nests_retained (hstate : state.Nests env) (hprogress : progress.Nests env)
    (h : retainDeferredPauseProcess state progress = .ok frame) : frame.Nests env := by
  unfold retainDeferredPauseProcess at h
  split at h
  · rw [← Except.ok.inj h]
    exact hprogress
  · split at h
    · rename_i process hprocess
      rw [← Except.ok.inj h]
      refine hprogress.replace fun e he => ?_
      rw [List.mem_singleton.mp he]
      exact hstate.of_get hprocess
    · cases h

theorem nests_requestCancel (hstate : state.Nests env) (hasked : asked.Nests env)
    (h : requestCancel kind state asked = some move) : move.frame.Nests env := by
  have haudit := nests_audited (hstate.select cancellingMembers) hasked
  have hdepth : env.depth ≠ 0 := by
    have := env.three_le_depth
    omega
  unfold requestCancel at h
  simp only at h
  split_ifs at h
  · rw [← Option.some.inj h]
    exact haudit.replace (by simp)
  · rw [← Option.some.inj h]
    exact haudit.replace (by simp [hdepth])

theorem nests_revive {continues : Bool} (hstate : state.Nests env) (hframe : frame.Nests env)
    (h : revive env job state frame asked continues = .ok move) : move.frame.Nests env := by
  unfold revive at h
  split_ifs at h
  · cases h
  · unfold retry at h
    obtain ⟨retained, hretained, h⟩ := bind_eq_ok.mp h
    have hretained := nests_retained hstate hframe hretained
    simp only at h
    split_ifs at h
    · rw [← Except.ok.inj h]
      exact hretained.replace (by simp [nests_failure])
    · rw [← Except.ok.inj h]
      exact hretained.replace (by simp [nests_orNull])
  · obtain ⟨step, -, h⟩ := bind_eq_ok.mp h
    unfold advance at h
    obtain ⟨retained, hretained, h⟩ := bind_eq_ok.mp h
    have hretained := nests_retained hstate hframe hretained
    simp only at h
    split_ifs at h
    · rw [← Except.ok.inj h]
      exact hretained.replace (by simp [nests_failure])
    · rw [← Except.ok.inj h]
      exact hretained.replace (by simp [nests_orNull])

theorem applyRequest_nests (hstate : state.Nests env) (hasked : asked.Nests env)
    (hother : ¬(asked.isFor "pause" = true ∧ kind ∈ attemptKinds))
    (h : applyRequest env job kind state asked = .ok (some move)) : move.frame.Nests env := by
  have haudit := nests_audited hstate.carried hasked
  cases requestAsks_of_apply h with
  | cancels haction hkind h => exact nests_requestCancel hstate hasked h
  | prioritizes priority haction hkind =>
    exact (haudit.replace (hstate.select preservedMembers)).replace (by simp)
  | records haction hkind => exact absurd ⟨haction, hkind⟩ hother
  | pauses haction hkind => exact haudit.replace (by simp)
  | revives haction hkind h => exact nests_revive hstate (nests_withHazard haudit hasked) h

theorem applyRequest_pause (haction : asked.action = some (.str "pause")) (hkind : kind ∈ attemptKinds) :
    applyRequest env job kind state asked
      = .ok (some ⟨kind, state.replace [(.pauseRequested, pauseRecord asked)], none⟩) := by
  unfold applyRequest
  simp only [haction]
  rw [if_neg, if_neg, if_pos]
  · rfl
  · exact ⟨by decide, hkind⟩
  · rintro ⟨h, -⟩
    revert h
    decide
  · rintro ⟨h, -⟩
    revert h
    decide

end Requested

/-! ## What the transition writes -/

variable {reread : Option StateFrame}

theorem nests_settle {source kind' : StateKind}
    (hprogress : progress.Nests env) (hreread : ∀ f, reread = some f → f.Nests env)
    (h : settle reread source kind progress = .ok (kind', frame)) : frame.Nests env := by
  rcases settle_cases h with ⟨-, rfl | rfl⟩ | ⟨-, -, holder, requested, hholder, hrequested, rfl⟩
  · exact hprogress
  · exact hprogress.without _
  · have hstored : holder.Nests env := by
      rcases hholder with rfl | rfl
      · exact hprogress
      · cases reread with
        | none => exact fun e he => by cases he
        | some f => exact hreread f rfl
    have hmembers := hstored.pauseRequested hrequested
    exact (hprogress.without _).replace (by simp [nests_getD hmembers])

variable {source : StateKind}

theorem settle_raises : Raises (settle reread source kind progress) Exc.Handled := by
  intro e hsettle
  unfold settle at hsettle
  simp only at hsettle
  split_ifs at hsettle
  all_goals
    split at hsettle
    · try split_ifs at hsettle
      all_goals try cases hsettle
      all_goals exact ⟨Or.inl rfl, rfl⟩
    · cases hsettle

theorem settle_live (hkind : kind ∈ attemptKinds) : settle reread source kind progress = .ok (kind, progress) := by
  unfold settle
  revert hkind
  cases kind <;> simp [attemptKinds, StateKind.isTerminal]
