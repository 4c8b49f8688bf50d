import Mathlib.Tactic.Linarith
import HttkWorkflow.JobEffects

/-!
# The grace of a missing child

A child of a join that is not found may only be invisible for the moment, so a
waiting job is given a grace before it fails for want of it. The instant at
which the child was first missing is written into the waiting frame, from
where the next evaluation reads it, whichever manager makes it.

What is written there is taken back by nothing but the next frame. An
evaluation that finds the child again and has nothing to decide leaves the
frame as it is (`grace_interrupted`), and when the child is missing once more,
perhaps for a second, the grace is counted from the first time. The theorem is
about the runs in which that does not happen: there, a job fails for a child
only after every evaluation since the recorded instant could not resolve it.

A history of the evaluations runs along with the job here, those that make no
transition included.
-/

variable {σ : Type} {env : JoinEnv} {job : JobDefinition} {jobId : PyStr}
variable {world : JoinWorld} {state : StateFrame} {move moved : Move} {childId : PyStr}

/-! ## What an evaluation finds -/

def joinReferences (frame : StateFrame) : List Json :=
  match frame.join with
  | some join => (joinChildren join).toOption.getD []
  | none => []

/-- Whether a reference of a join is one to a child. -/
def refersTo (childId : PyStr) : Json → Bool
  | .obj reference => Json.optEqStr (Json.get reference "job_id") childId
  | _ => false

/-- The child that is missing, the first one in the order of the join. -/
def missingChild (env : JoinEnv) (world : JoinWorld) (frame : StateFrame) : Option PyStr :=
  match observeChildren env world (joinReferences frame) with
  | .ok (_, unresolved) => unresolved
  | .error _ => none

/-- **An evaluation of a join**, with the frame it was made on. -/
structure JoinEvaluation where
  frame : StateFrame
  world : JoinWorld

namespace JoinEvaluation

/-- Whether an evaluation could resolve a child: every reference to it leads to a
marker. -/
def resolves (env : JoinEnv) (e : JoinEvaluation) (childId : PyStr) : Bool :=
  (joinReferences e.frame).all fun child => !refersTo childId child ||
    match observeChild env e.world child with
    | .ok (_, some _) => true
    | _ => false

/-- The readings of the clock of an evaluation: the one it decides by, and the one it
records. -/
def Reads (env : JoinEnv) (e : JoinEvaluation) (instant : Rat) : Prop :=
  instant = e.world.now ∨ env.timestampSeconds e.world.utcNow = some instant

end JoinEvaluation

/-- **An uninterrupted span** of evaluations, the last one first, that could not resolve
a child: it goes back to an evaluation with a property. -/
def Unresolved (env : JoinEnv) (childId : PyStr) (evaluations : List JoinEvaluation)
    (P : JoinEvaluation → Prop) : Prop :=
  ∃ span first earlier, evaluations = span ++ first :: earlier ∧ P first
    ∧ ∀ e ∈ first :: span, e.resolves env childId = false

/-- **The grace of a child is over**: the span of the evaluations that could not resolve
it is as long as the grace of the last one. -/
def GraceOver (env : JoinEnv) (childId : PyStr) (evaluations : List JoinEvaluation) : Prop :=
  ∃ last, evaluations.head? = some last ∧ Unresolved env childId evaluations fun first =>
    ∃ instant, first.Reads env instant
      ∧ instant + last.world.joinGraceSeconds ≤ last.world.now

theorem Unresolved.cons {evaluations : List JoinEvaluation} {P : JoinEvaluation → Prop}
    (h : Unresolved env childId evaluations P) {e : JoinEvaluation}
    (he : e.resolves env childId = false) : Unresolved env childId (e :: evaluations) P := by
  obtain ⟨span, first, earlier, rfl, hP, hall⟩ := h
  refine ⟨e :: span, first, earlier, rfl, hP, fun e' he' => ?_⟩
  rcases List.mem_cons.mp he' with rfl | he'
  · exact hall e' List.mem_cons_self
  · rcases List.mem_cons.mp he' with rfl | he'
    · exact he
    · exact hall e' (List.mem_cons_of_mem _ he')

variable {evaluations : List JoinEvaluation}

theorem Unresolved.now {P : JoinEvaluation → Prop}
    {e : JoinEvaluation} (he : e.resolves env childId = false) (hP : P e) :
    Unresolved env childId (e :: evaluations) P := by
  refine ⟨[], e, evaluations, rfl, hP, fun e' he' => ?_⟩
  rw [List.mem_singleton.mp he']
  exact he

theorem Unresolved.imp {P Q : JoinEvaluation → Prop}
    (h : Unresolved env childId evaluations P) (hPQ : ∀ e, P e → Q e) :
    Unresolved env childId evaluations Q := by
  obtain ⟨span, first, earlier, heq, hP, hall⟩ := h
  exact ⟨span, first, earlier, heq, hPQ first hP, hall⟩

theorem refersTo_of_observeChild {child : Json}
    (h : observeChild env world child = .ok (childId, none)) : refersTo childId child = true := by
  unfold observeChild at h
  obtain ⟨reference, hreference, h⟩ := bind_eq_ok.mp h
  obtain ⟨id, hid, h⟩ := bind_eq_ok.mp h
  obtain ⟨label, -, h⟩ := bind_eq_ok.mp h
  have hchild : some child = some (.obj reference) := by
    have hmapping : Ensures (requireMapping (some child) "join child")
        fun members => some child = some (.obj members) := ensures_requireMapping
    rw [hreference] at hmapping
    exact hmapping
  have hget : Json.get reference "job_id" = some (.str id) := by
    have huuid : Ensures (canonicalUuid env.uuid (Json.get reference "job_id") "join child job_id")
        fun t => Json.get reference "job_id" = some (.str t) := ensures_canonicalUuid
    rw [hid] at huuid
    exact huuid
  have hsame : id = childId := by
    split at h
    · obtain ⟨placement, -, h⟩ := bind_eq_ok.mp h
      obtain ⟨found, -, h⟩ := bind_eq_ok.mp h
      cases found with
      | none => exact (Prod.mk.inj (Except.ok.inj h)).1
      | some marker =>
        simp only at h
        split_ifs at h
        · cases h
        · cases (Prod.mk.inj (Except.ok.inj h)).2
    · cases h
  rw [Option.some.inj hchild, refersTo, Json.optEqStr_iff, hget, hsame]

theorem mem_of_observeChildren {children : List Json} {observed : List (StateKind × Json)}
    (h : observeChildren env world children = .ok (observed, some childId)) :
    ∃ child ∈ children, observeChild env world child = .ok (childId, none) := by
  induction children generalizing observed with
  | nil => cases h
  | cons child children ih =>
    obtain ⟨⟨id, observation⟩, hchild, h⟩ := bind_eq_ok.mp h
    cases observation with
    | none =>
      obtain ⟨-, hid⟩ := Prod.mk.inj (Except.ok.inj h)
      exact ⟨child, List.mem_cons_self, Option.some.inj hid ▸ hchild⟩
    | some observation =>
      obtain ⟨⟨rest, unresolved⟩, hrest, h⟩ := bind_eq_ok.mp h
      obtain ⟨-, rfl⟩ := Prod.mk.inj (Except.ok.inj h)
      obtain ⟨missing, hmem, hmissing⟩ := ih hrest
      exact ⟨missing, List.mem_cons_of_mem _ hmem, hmissing⟩

theorem not_resolves_of_missing (h : missingChild env world state = some childId) :
    (⟨state, world⟩ : JoinEvaluation).resolves env childId = false := by
  unfold missingChild at h
  split at h
  · rename_i observed unresolved hobserved
    rw [h] at hobserved
    obtain ⟨child, hmem, hchild⟩ := mem_of_observeChildren hobserved
    refine List.all_eq_false.mpr ⟨child, hmem, ?_⟩
    simp only [refersTo_of_observeChild hchild, hchild]
    simp
  · cases h

/-! ## What an evaluation writes -/

variable {kind : StateKind}

theorem Writes.failed (h : Writes env kind move moved) (hfailed : moved.kind = .failed) :
    move.kind = .failed ∧ moved.frame.get .reason = move.frame.get .reason := by
  obtain ⟨reread, hsettle⟩ := h.settled
  rcases settle_cases hsettle with ⟨hkind, hframe⟩ | ⟨hpaused, -⟩
  · refine ⟨hkind ▸ hfailed, ?_⟩
    rcases hframe with hframe | hframe
    · rw [hframe]
    · rw [hframe]
      simp
  · cases hfailed.symm.trans hpaused

variable {cenv : CommitEnv}

theorem advance_failed {progress : StateFrame} {nextStep freshId : PyStr}
    {reason : String} {joinSummary resources : Json} {priority : Option Int}
    (h : advance cenv job state progress nextStep freshId reason joinSummary resources priority
      = .ok move) (hfailed : move.kind = .failed) :
    move.frame.get .reason = some (.str "budget_exhausted") := by
  unfold advance at h
  obtain ⟨retained, -, h⟩ := bind_eq_ok.mp h
  simp only at h
  split_ifs at h
  · rw [← Except.ok.inj h]
    simp
  · rw [← Except.ok.inj h] at hfailed
    cases hfailed

def recordedChild (childId since : PyStr) : List (PyStr × Json) :=
  [("child_id", .str childId), ("first_unresolved_at", .str since)]

/-- **A frame that records a missing child**, and since when. -/
def Records (frame : StateFrame) (childId since : PyStr) : Prop :=
  frame.get .joinUnresolved = some (.obj (recordedChild childId since))

theorem Records.read {frame : StateFrame} {since childId' : PyStr} {instant : Rat}
    (h : Records frame childId since) (hread : firstUnresolvedAt env frame childId' = some instant) :
    childId' = childId ∧ env.timestampSeconds since = some instant := by
  have hmapping : frame.mapping .joinUnresolved = some (recordedChild childId since) := by
    unfold StateFrame.mapping
    rw [h]
  have hchild : Json.get (recordedChild childId since) "child_id" = some (.str childId) := rfl
  have hsince : Json.get (recordedChild childId since) "first_unresolved_at" = some (.str since) :=
    rfl
  unfold firstUnresolvedAt at hread
  simp only [hmapping, hsince] at hread
  split_ifs at hread with hsame hempty
  have hsame := hchild.symm.trans (Json.optEqStr_iff.mp hsame)
  exact ⟨(Json.str.inj (Option.some.inj hsame)).symm, hread⟩

theorem handleUnresolvedJoin_moved (h : handleUnresolvedJoin env world state childId = .ok (.moved moved)) :
    (moved.kind ≠ .waiting ∧ world.joinGraceSeconds
        ≤ world.now - (firstUnresolvedAt env state childId).getD world.now)
      ∨ (moved.kind ≠ .failed ∧ Records moved.frame childId world.utcNow) := by
  unfold handleUnresolvedJoin at h
  simp only at h
  split_ifs at h with hgrace hrecorded
  · refine Or.inl ⟨?_, hgrace⟩
    unfold failWaiting at h
    split at h
    · rename_i moved' htransition
      obtain rfl := PassResult.moved.inj (Except.ok.inj h)
      have hwrites : Writes env .waiting _ moved' := ⟨_, _, htransition⟩
      rcases hwrites.kind with hkind | ⟨hkind, -⟩ <;> simp [hkind]
    · split_ifs at h
      cases h
  · cases h
  · have hwrites : Writes env .waiting _ moved := ⟨_, _, moved_of_map h⟩
    refine Or.inr ⟨fun hfailed => ?_, ?_⟩
    · cases (hwrites.failed hfailed).1
    · show moved.frame.get .joinUnresolved = _
      rw [hwrites.get (by decide)]
      simp [recordedChild]

theorem joinAdvance_failed {nextStep : Option Json} {name reason : String} {observations : List Json}
    (h : joinAdvance env world job state nextStep name reason observations = .ok move) :
    move.kind ≠ .waiting
      ∧ (move.kind = .failed → move.frame.get .reason = some (.str "budget_exhausted")) := by
  obtain ⟨step, resources, h⟩ := advance_of_joinAdvance h
  refine ⟨?_, advance_failed h⟩
  rcases advance_kind h with hkind | hkind <;> simp [hkind]

theorem evaluateJoins_moved (h : evaluateJoins env world job state = .ok (.moved moved)) :
    (moved.kind = .waiting → ∃ childId, missingChild env world state = some childId
        ∧ Records moved.frame childId world.utcNow)
      ∧ (moved.kind = .failed → moved.frame.get .reason = some (.str "join_unresolvable") →
        ∃ childId, missingChild env world state = some childId ∧ world.joinGraceSeconds
          ≤ world.now - (firstUnresolvedAt env state childId).getD world.now) := by
  -- a failure for another reason is no failure for a missing child
  have hother : ∀ {move : Move} {reason : String}, Writes env .waiting move moved →
      (move.kind = .failed → move.frame.get .reason = some (.str (PyStr.ofString reason))) →
      move.kind ≠ .waiting → reason ≠ "join_unresolvable" →
      (moved.kind = .waiting → ∃ childId, missingChild env world state = some childId
          ∧ Records moved.frame childId world.utcNow)
        ∧ (moved.kind = .failed → moved.frame.get .reason = some (.str "join_unresolvable") →
          ∃ childId, missingChild env world state = some childId ∧ world.joinGraceSeconds
            ≤ world.now - (firstUnresolvedAt env state childId).getD world.now) := by
    intro move reason hwrites hreason hkind hne
    refine ⟨fun hwaiting => ?_, fun hfailed hget => ?_⟩
    · exact absurd ((hwrites.kind_of_ne (by rw [hwaiting]; decide)).symm.trans hwaiting) hkind
    · obtain ⟨hfrom, hsame⟩ := hwrites.failed hfailed
      rw [hsame, hreason hfrom] at hget
      exact absurd (PyStr.ofString_injective (Json.str.inj (Option.some.inj hget))) hne
  unfold evaluateJoins at h
  split at h
  · rename_i result hresult
    rw [Except.ok.inj h] at hresult
    unfold evaluate at hresult
    obtain ⟨join, hjoin, hresult⟩ := bind_eq_ok.mp hresult
    obtain ⟨children, hchildren, hresult⟩ := bind_eq_ok.mp hresult
    obtain ⟨⟨observed, unresolved⟩, hobserved, hresult⟩ := bind_eq_ok.mp hresult
    have hstate : state.join = some join := by
      cases hj : state.join with
      | none =>
        rw [hj] at hjoin
        cases hjoin
      | some join' =>
        rw [hj] at hjoin
        rw [Except.ok.inj hjoin]
    have hmissing : missingChild env world state = unresolved := by
      unfold missingChild joinReferences
      simp only [hstate, hchildren, Except.toOption, Option.getD_some, hobserved]
    cases unresolved with
    | some childId =>
      rcases handleUnresolvedJoin_moved hresult with ⟨hkind, hgrace⟩ | ⟨hkind, hrecords⟩
      · exact ⟨fun hwaiting => absurd hwaiting hkind, fun _ _ => ⟨childId, hmissing, hgrace⟩⟩
      · exact ⟨fun _ => ⟨childId, hmissing, hrecords⟩, fun hfailed _ => absurd hfailed hkind⟩
    | none =>
      obtain ⟨verdict, -, hresult⟩ := bind_eq_ok.mp hresult
      cases verdict with
      | blocked => cases hresult
      | satisfied =>
        obtain ⟨move, hmove, hresult⟩ := bind_eq_ok.mp hresult
        obtain ⟨hkind, hreason⟩ := joinAdvance_failed hmove
        exact hother ⟨_, _, moved_of_map hresult⟩ hreason hkind (by decide)
      | impossible =>
        simp only at hresult
        split at hresult
        · obtain ⟨move, hmove, hresult⟩ := bind_eq_ok.mp hresult
          obtain ⟨hkind, hreason⟩ := joinAdvance_failed hmove
          exact hother ⟨_, _, moved_of_map hresult⟩ hreason hkind (by decide)
        · refine hother ⟨_, _, moved_of_map hresult⟩ (fun _ => ?_) (by simp)
            (by decide : "join_impossible" ≠ "join_unresolvable")
          simp
  · split_ifs at h with hlost hformat
    · cases h
    · unfold failWaiting at h
      split at h
      · rename_i moved' htransition
        obtain rfl := PassResult.moved.inj (Except.ok.inj h)
        refine hother ⟨_, _, htransition⟩ (fun _ => ?_) (by simp) (by decide : "protocol_error" ≠ "join_unresolvable")
        simp
      · split_ifs at h
        cases h
    · cases h

/-! ## The other frames of a waiting job -/

theorem carried_unrecorded (state : StateFrame) : state.carried.get .joinUnresolved = none := by
  simp [carriedStateMembers]

theorem replace_unrecorded {base : StateFrame} {written : List (Member × Json)}
    (hbase : base.get .joinUnresolved = none) (hwritten : .joinUnresolved ∉ written.map Prod.fst) :
    (base.replace written).get .joinUnresolved = none := by
  rw [StateFrame.get_replace_other hwritten, hbase]

theorem outcomeMove_unrecorded {priority : Int} {outcome : List (PyStr × Json)}
    {generation : Option Int} {labels : Except Exc (List (PyStr × PyStr))} {freshId : PyStr}
    (h : outcomeMove cenv job priority state outcome generation labels freshId = .ok move)
    (hwaiting : move.kind = .waiting) : move.frame.get .joinUnresolved = none := by
  have hready : move.kind = .ready ∨ move.kind = .failed → move.frame.get .joinUnresolved = none := by
    intro hkind
    rw [hwaiting] at hkind
    rcases hkind with hkind | hkind <;> cases hkind
  obtain ⟨steps, progress, hretained, hasks⟩ := asks_of_outcomeMove h
  have hprogress : progress.get .joinUnresolved = none := by
    rw [get_retained (by decide) hretained]
    have hbase : (state.carried.replace [(.dataGeneration, (generation.map Json.int).getD
        .null)]).get .joinUnresolved = none :=
      replace_unrecorded (carried_unrecorded state) (by simp)
    unfold progressOf
    cases steps with
    | none => exact hbase
    | some steps => exact replace_unrecorded hbase (by simp)
  -- every other action asks for another kind
  cases hasks with
  | advances _ _ h => exact hready (advance_kind h)
  | retries _ h => exact hready (retry_kind h)
  | waits => simpa using hprogress
  | ends _ _ hkind _ => rcases hkind with rfl | rfl <;> cases hwaiting
  | pauses => cases hwaiting

theorem applyRequest_unrecorded {asked : OperatorRequest}
    (h : applyRequest cenv job kind state asked = .ok (some move)) (hwaiting : move.kind = .waiting) :
    move.frame.get .joinUnresolved = none := by
  have haudited : (audited state.carried asked).get .joinUnresolved = none := by
    have hbase : (state.carried.replace [(.operator, asked.operator),
        (.operatorReason, asked.reason), (.requestId, asked.requestId)]).get .joinUnresolved
          = none := replace_unrecorded (carried_unrecorded state) (by simp)
    unfold audited
    cases asked.operatorKey with
    | none => exact hbase
    | some key => exact replace_unrecorded hbase (by simp)
  cases requestAsks_of_apply h with
  | cancels _ _ h =>
    rcases requestCancel_ends h with hmove | hmove <;> cases hwaiting.symm.trans hmove
  | prioritizes =>
    have hpreserved : .joinUnresolved ∉ ((state.select preservedMembers).members.map Prod.fst) :=
      fun hmem => absurd (StateFrame.mem_of_mem_select hmem) (by decide)
    show (StateFrame.replace _ _).get .joinUnresolved = none
    exact replace_unrecorded (replace_unrecorded haudited hpreserved) (by simp)
  | records _ hfrom =>
    have hwaiting : kind = .waiting := hwaiting
    exact absurd hfrom (by rw [hwaiting]; decide)
  | pauses => cases hwaiting
  | revives _ _ h => rcases revive_kind h with hkind | hkind <;> cases hwaiting.symm.trans hkind

/-! ## The runs with their evaluations -/

section Runs

variable (env : JoinEnv) (job : JobDefinition) (jobId : PyStr)

/-- **One step of a run**: a transition, or an evaluation, which may make none. The
history lists the evaluations, the last one first. -/
def graceNext (p : JobState × List JoinEvaluation) (a : JobStep σ × Bool) :
    Option (JobState × List JoinEvaluation) :=
  match a.fst with
  | .evaluate world =>
    if p.fst.kind = .waiting ∧ world.freshId ∉ p.fst.issued ∧ world.freshId.codes ≠ [] then
      some ((jobNext env job jobId p.fst a).getD p.fst, ⟨p.fst.frame, world⟩ :: p.snd)
    else none
  | _ => (jobNext env job jobId p.fst a).map (·, p.snd)

/-- **The runs of a job**, with the evaluations of its joins. -/
def graceRuns : System (JobState × List JoinEvaluation) (JobStep σ × Bool) :=
  System.ofNext (fun p => (∃ priority, p.fst = JobState.submitted priority) ∧ p.snd = [])
    (graceNext env job jobId)

/-- **No record outlives its child**: an evaluation that can resolve the child the frame
records leads to another frame. -/
def Forgets (p : JobState × List JoinEvaluation) (a : JobStep σ × Bool) : Prop :=
  ∀ world, a.fst = .evaluate world → ∀ childId instant,
    firstUnresolvedAt env p.fst.frame childId = some instant →
    (⟨p.fst.frame, world⟩ : JoinEvaluation).resolves env childId = true →
    (jobNext env job jobId p.fst a).isSome = true

end Runs

section Grace

variable {p p' : JobState × List JoinEvaluation} {a : JobStep σ × Bool}

theorem job_of_graceRuns {C : JobState × List JoinEvaluation → JobStep σ × Bool → Prop}
    (hs : ((graceRuns (σ := σ) env job jobId).guarded C).Reachable p) :
    (jobRuns (σ := σ) env job jobId).Reachable p.fst := by
  induction hs with
  | init h => exact System.Reachable.init h.1
  | @step p a p' hs h ih =>
    obtain ⟨h, -⟩ := h
    have h : graceNext env job jobId p a = some p' := h
    unfold graceNext at h
    split at h
    · obtain ⟨-, h⟩ := Option.ite_none_right_eq_some.mp h
      rw [← Option.some.inj h]
      cases hnext : jobNext env job jobId p.fst a with
      | none => exact ih
      | some s' => exact ih.step hnext
    · obtain ⟨s', hnext, rfl⟩ := Option.map_eq_some_iff.mp h
      exact ih.step hnext

/-- **What is recorded is true**: since the recorded instant no evaluation could resolve
the child the frame of a waiting job records. -/
def Recorded (env : JoinEnv) (p : JobState × List JoinEvaluation) : Prop :=
  p.fst.kind = .waiting → ∀ childId instant,
    firstUnresolvedAt env p.fst.frame childId = some instant →
    Unresolved env childId p.snd fun first => env.timestampSeconds first.world.utcNow = some instant

theorem unrecorded_next {s s' : JobState} (hs : (jobRuns (σ := σ) env job jobId).Reachable s)
    (h : jobNext env job jobId s a = some s') (hstep : ∀ world, a.fst ≠ .evaluate world)
    (hwaiting : s'.kind = .waiting) : s'.frame.get .joinUnresolved = none := by
  obtain ⟨-, moved, hwritten, rfl⟩ := jobNext_eq_some.mp h
  obtain ⟨move, hasks, hwrites⟩ := asks_of_written hwritten
  have hwaiting : moved.kind = .waiting := hwaiting
  have hmove : move.kind = .waiting := by
    rw [← hwrites.kind_of_ne (by rw [hwaiting]; decide), hwaiting]
  show moved.frame.get .joinUnresolved = none
  rw [hwrites.get (by decide)]
  have hedge := edge_of_asks (claimed_of_previousState hs) hasks
  rw [hmove] at hedge
  cases hstepIs : a.fst with
  | evaluate world => exact absurd hstepIs (hstep world)
  | apply world files =>
    rw [hstepIs] at hasks
    obtain ⟨-, outcome, generation, -, hasks⟩ := hasks
    exact outcomeMove_unrecorded hasks hmove
  | request asked =>
    rw [hstepIs] at hasks
    exact applyRequest_unrecorded hasks hmove
  | _ =>
    rw [hstepIs] at hedge
    revert hedge
    simp [JobStep.edges]

/-- **Every step keeps what is recorded true**, unless a record outlives its child. -/
theorem recorded_next (hs : (jobRuns (σ := σ) env job jobId).Reachable p.fst)
    (h : graceNext env job jobId p a = some p') (hforgets : Forgets env job jobId p a)
    (hrecorded : Recorded env p) : Recorded env p' := by
  unfold graceNext at h
  split at h
  · rename_i world hstep
    obtain ⟨⟨hkind, -⟩, h⟩ := Option.ite_none_right_eq_some.mp h
    rw [← Option.some.inj h]
    cases hnext : jobNext env job jobId p.fst a with
    | none =>
      -- the frame stays, and the evaluation could not resolve the child it records
      intro _ childId instant hinstant
      refine (hrecorded hkind childId instant hinstant).cons ?_
      cases hresolves : (⟨p.fst.frame, world⟩ : JoinEvaluation).resolves env childId with
      | false => rfl
      | true =>
        have hmoves := hforgets world hstep childId instant hinstant hresolves
        rw [hnext] at hmoves
        cases hmoves
    | some s' =>
      intro hwaiting childId instant hinstant
      obtain ⟨-, moved, hwritten, rfl⟩ := jobNext_eq_some.mp hnext
      rw [hstep] at hwritten
      obtain ⟨-, hwritten⟩ := Option.ite_none_right_eq_some.mp hwritten
      obtain ⟨missing, hmissing, hrecords⟩ :=
        (evaluateJoins_moved (committed_eq_some.mp hwritten)).1 hwaiting
      obtain ⟨rfl, htime⟩ := hrecords.read hinstant
      exact Unresolved.now (not_resolves_of_missing hmissing) htime
  · rename_i hstep
    obtain ⟨s', hnext, rfl⟩ := Option.map_eq_some_iff.mp h
    intro hwaiting childId instant hinstant
    have hnone := unrecorded_next hs hnext (fun world hworld => hstep world hworld) hwaiting
    unfold firstUnresolvedAt StateFrame.mapping at hinstant
    rw [hnone] at hinstant
    cases hinstant

theorem recorded_of_reachable
    (hs : ((graceRuns (σ := σ) env job jobId).guarded (Forgets env job jobId)).Reachable p) :
    Recorded env p := by
  refine hs.invariant (I := Recorded env) ?_ ?_
  · rintro p ⟨⟨priority, hsubmitted⟩, -⟩ hwaiting
    rw [hsubmitted] at hwaiting
    cases hwaiting
  · intro p a p' hs hrecorded ⟨h, hforgets⟩
    exact recorded_next (job_of_graceRuns hs) h hforgets hrecorded

/-- **A waiting job fails for a missing child when its grace is over**: in a run where no
record outlives its child, no evaluation could resolve that child for the whole grace. -/
theorem grace_over
    (hs : ((graceRuns (σ := σ) env job jobId).guarded (Forgets env job jobId)).Reachable p)
    (h : ((graceRuns env job jobId).guarded (Forgets env job jobId)).step p a p')
    (hwaiting : p.fst.kind = .waiting) (hfailed : p'.fst.kind = .failed)
    (hreason : p'.fst.frame.get .reason = some (.str "join_unresolvable")) :
    ∃ world childId, a.fst = .evaluate world ∧ missingChild env world p.fst.frame = some childId
      ∧ GraceOver env childId p'.snd := by
  obtain ⟨h, -⟩ := h
  have h : graceNext env job jobId p a = some p' := h
  unfold graceNext at h
  split at h
  · rename_i world hstep
    obtain ⟨-, h⟩ := Option.ite_none_right_eq_some.mp h
    rw [← Option.some.inj h] at hfailed hreason ⊢
    cases hnext : jobNext env job jobId p.fst a with
    | none =>
      rw [hnext] at hfailed
      cases hwaiting.symm.trans hfailed
    | some s' =>
      rw [hnext] at hfailed hreason
      obtain ⟨-, moved, hwritten, rfl⟩ := jobNext_eq_some.mp hnext
      rw [hstep] at hwritten
      obtain ⟨-, hwritten⟩ := Option.ite_none_right_eq_some.mp hwritten
      obtain ⟨childId, hmissing, hgrace⟩ :=
        (evaluateJoins_moved (committed_eq_some.mp hwritten)).2 hfailed hreason
      refine ⟨world, childId, hstep, hmissing, _, rfl, ?_⟩
      have hunresolved := not_resolves_of_missing hmissing
      cases hfirst : firstUnresolvedAt env p.fst.frame childId with
      | none =>
        -- there is no grace at all
        rw [hfirst, Option.getD_none] at hgrace
        refine Unresolved.now hunresolved ⟨world.now, Or.inl rfl, ?_⟩
        show world.now + world.joinGraceSeconds ≤ world.now
        linarith
      | some instant =>
        rw [hfirst, Option.getD_some] at hgrace
        have hspan := recorded_of_reachable hs hwaiting childId instant hfirst
        refine (hspan.cons hunresolved).imp fun first htime => ⟨instant, Or.inr htime, ?_⟩
        show instant + world.joinGraceSeconds ≤ world.now
        linarith
  · rename_i hstep
    obtain ⟨s', hnext, rfl⟩ := Option.map_eq_some_iff.mp h
    obtain ⟨-, moved, hwritten, rfl⟩ := jobNext_eq_some.mp hnext
    obtain ⟨move, hasks, hwrites⟩ := asks_of_written hwritten
    have hmove := (hwrites.failed hfailed).1
    -- no other step fails a waiting job
    have hedge := edge_of_asks (claimed_of_previousState (job_of_graceRuns hs)) hasks
    rw [hwaiting, hmove] at hedge
    cases hstepIs : a.fst with
    | evaluate world => exact absurd hstepIs (hstep world)
    | _ =>
      rw [hstepIs] at hedge
      revert hedge
      simp [JobStep.edges, requestEdges]

end Grace

/-! ## A child that is missing twice -/

def secondsEnv : JoinEnv :=
  { plainJoinEnv with timestampSeconds := fun t => (intOfStr t).toOption.map fun n => (n : Rat) }

def waitForChild : Json :=
  .obj [("format", .str "httk-workflow-outcome"), ("format_version", .int 2),
    ("job_id", .str "job"), ("activation_id", .str "a1"), ("attempt_id", .str "t1"),
    ("action", .str "wait"), ("next_step", .str "second"),
    ("join", .obj [("condition", .str "all_succeeded"),
      ("children", .arr [.obj [("job_id", .str "child"), ("job_key", .str "child"),
        ("placement_hint", .str "a")]])])]

def worldAt (seconds : Nat) (found : Bool) : JoinWorld where
  workspaceId := "w"
  indexed := fun _ _ =>
    if found then some ⟨"child", "child", "a", .running, 3, "r", "a/child", []⟩ else none
  hasDirectory := fun _ => false
  sweep := fun _ _ => .ok none
  now := seconds
  utcNow := toString seconds
  joinGraceSeconds := 3600
  freshId := ⟨"e".toList.map Char.toNat ++ (toString seconds).toList.map Char.toNat⟩
  reread := none
  moves := .ok ⟨⟩
  records := .ok ⟨⟩

def evaluateAt (seconds : Nat) (found : Bool) : JobStep PUnit := .evaluate (worldAt seconds found)

def waitingForChild : List (JobStep PUnit) :=
  [.register "a1", plainClaim "t1", plainLaunch, .fence plainPoll (.ok waitForChild),
    plainApply waitForChild "a2"]

def JoinEvaluation.reported (e : JoinEvaluation) : Bool × Rat × Option Rat × Rat :=
  (e.resolves secondsEnv "child", e.world.now, secondsEnv.timestampSeconds e.world.utcNow,
    e.world.joinGraceSeconds)

def graceRun (steps : List (JobStep PUnit)) (last : JobStep PUnit) :
    Option ((JobState × List JoinEvaluation) × (JobState × List JoinEvaluation)) :=
  (System.follow (graceNext secondsEnv plainJob "job") (JobState.submitted 100, [])
    (steps.map (·, true))).bind fun p =>
      (graceNext secondsEnv plainJob "job" p (last, true)).map fun p' => (p, p')

/-- **A grace that is counted through a resolution**: the child is missing for a moment
at first, runs an hour less ten seconds, and is missing for a moment again, and its parent
has failed. -/
theorem grace_interrupted :
    ¬∀ p p' (a : JobStep PUnit × Bool),
      (graceRuns (σ := PUnit) secondsEnv plainJob "job").Reachable p →
      (graceRuns secondsEnv plainJob "job").step p a p' →
      p.fst.kind = .waiting → p'.fst.kind = .failed →
      p'.fst.frame.get .reason = some (.str "join_unresolvable") →
      ∃ world childId, a.fst = .evaluate world
        ∧ missingChild secondsEnv world p.fst.frame = some childId
        ∧ GraceOver secondsEnv childId p'.snd := by
  intro hall
  have hrun : (graceRun (waitingForChild ++ [evaluateAt 0 false, evaluateAt 10 true])
      (evaluateAt 3600 false)).map (fun q => (q.fst.fst.kind, q.snd.fst.kind,
        Json.optEqStr (q.snd.fst.frame.get .reason) "join_unresolvable",
        missingChild secondsEnv (worldAt 3600 false) q.fst.fst.frame,
        decide (q.snd.snd.map JoinEvaluation.reported
          = [(false, 3600, some 3600, 3600), (true, 10, some 10, 3600), (false, 0, some 0, 3600)])))
      = some (StateKind.waiting, StateKind.failed, true, some (PyStr.ofString "child"), true) := by
    decide +kernel
  obtain ⟨⟨p, p'⟩, hq, hfacts⟩ := Option.map_eq_some_iff.mp hrun
  obtain ⟨p, hp, hq⟩ := Option.bind_eq_some_iff.mp hq
  obtain ⟨p', hstep, hq⟩ := Option.map_eq_some_iff.mp hq
  obtain ⟨rfl, rfl⟩ := Prod.mk.inj hq
  simp only [Prod.mk.injEq, decide_eq_true_eq] at hfacts
  obtain ⟨hwaiting, hfailed, hreason, hmissing, hsays⟩ := hfacts
  have hreach : (graceRuns (σ := PUnit) secondsEnv plainJob "job").Reachable p :=
    (System.run_of_follow hp).reachable (System.Reachable.init ⟨⟨100, rfl⟩, rfl⟩)
  obtain ⟨world, childId, hworld, hchild, last, hlast, span, first, earlier, hlist,
    ⟨instant, hreads, hover⟩, hunresolved⟩ :=
    hall p p' _ hreach hstep hwaiting hfailed (Json.optEqStr_iff.mp hreason)
  obtain rfl := JobStep.evaluate.inj hworld
  obtain rfl := Option.some.inj (hchild.symm.trans hmissing)
  rw [hlist, List.map_append, List.map_cons] at hsays
  rw [hlist] at hlast
  cases span with
  | nil =>
    -- the last evaluation alone is no span of an hour
    obtain rfl := Option.some.inj hlast
    have hfirst : first.reported = _ := (List.cons.inj hsays).1
    simp only [JoinEvaluation.reported, Prod.mk.injEq] at hfirst
    obtain ⟨-, hnow, hstamp, hgrace⟩ := hfirst
    rw [hnow, hgrace] at hover
    have hinstant : instant = 3600 := by
      rcases hreads with hreads | hreads
      · rw [hreads, hnow]
      · exact (Option.some.inj (hstamp.symm.trans hreads)).symm
    rw [hinstant] at hover
    norm_num at hover
  | cons e span =>
    -- the one before it resolved the child
    obtain ⟨-, hrest⟩ := List.cons.inj hsays
    have hmiddle : ∃ e' ∈ first :: span, e'.reported = (true, 10, some 10, 3600) := by
      cases span with
      | nil => exact ⟨first, List.mem_cons_self, (List.cons.inj hrest).1⟩
      | cons e' span => exact ⟨e', by simp, (List.cons.inj hrest).1⟩
    obtain ⟨e', he', hsays⟩ := hmiddle
    have hfalse := hunresolved e' (by
      rcases List.mem_cons.mp he' with rfl | he'
      · exact List.mem_cons_self
      · exact List.mem_cons_of_mem _ (List.mem_cons_of_mem _ he'))
    cases hfalse.symm.trans (congrArg Prod.fst hsays)

theorem forgets_of_moves {p : JobState × List JoinEvaluation} {a : JobStep σ × Bool}
    (h : (jobNext env job jobId p.fst a).isSome = true) : Forgets env job jobId p a :=
  fun _ _ _ _ _ _ => h

/-- A child that stays missing for an hour: its parent fails. -/
theorem grace_over_missing : ∃ (p p' : JobState × List JoinEvaluation) (world : JoinWorld)
    (childId : PyStr),
    ((graceRuns (σ := PUnit) secondsEnv plainJob "job").guarded
        (Forgets secondsEnv plainJob "job")).Reachable p
      ∧ p'.fst.kind = .failed ∧ missingChild secondsEnv world p.fst.frame = some childId
      ∧ GraceOver secondsEnv childId p'.snd := by
  have hrun : (graceRun waitingForChild (evaluateAt 0 false)).bind (fun q =>
      (graceNext secondsEnv plainJob "job" q.snd (evaluateAt 3600 false, true)).map fun p' =>
        ((jobNext secondsEnv plainJob "job" q.fst.fst (evaluateAt 0 false, true)).isSome,
          (jobNext secondsEnv plainJob "job" q.snd.fst (evaluateAt 3600 false, true)).isSome,
          q.snd.fst.kind, p'.fst.kind,
          Json.optEqStr (p'.fst.frame.get .reason) "join_unresolvable"))
      = some (true, true, StateKind.waiting, StateKind.failed, true) := by
    decide +kernel
  obtain ⟨⟨p₀, p⟩, hq, hrun⟩ := Option.bind_eq_some_iff.mp hrun
  obtain ⟨p₀, hp₀, hq⟩ := Option.bind_eq_some_iff.mp hq
  obtain ⟨p, hp, hq⟩ := Option.map_eq_some_iff.mp hq
  obtain ⟨rfl, rfl⟩ := Prod.mk.inj hq
  obtain ⟨p', hp', hfacts⟩ := Option.map_eq_some_iff.mp hrun
  simp only [Prod.mk.injEq] at hfacts
  obtain ⟨hrecords, hfails, hwaiting, hfailed, hreason⟩ := hfacts
  have hstart : ((graceRuns (σ := PUnit) secondsEnv plainJob "job").guarded
      (Forgets secondsEnv plainJob "job")).Reachable p₀ := by
    have hsteps : (graceRuns (σ := PUnit) secondsEnv plainJob "job").Run
        (JobState.submitted 100, []) (waitingForChild.map (·, true)) p₀ := System.run_of_follow hp₀
    refine (hsteps.guarded fun a ha t world hworld => ?_).reachable
      (System.Reachable.init ⟨⟨100, rfl⟩, rfl⟩)
    obtain ⟨step, hstep, rfl⟩ := List.mem_map.mp ha
    revert hstep hworld
    simp only [waitingForChild, List.mem_cons, List.not_mem_nil, or_false, plainClaim, plainLaunch,
      plainApply]
    rintro (rfl | rfl | rfl | rfl | rfl) hworld <;> cases hworld
  have hrecord : ((graceRuns secondsEnv plainJob "job").guarded
      (Forgets secondsEnv plainJob "job")).step p₀ (evaluateAt 0 false, true) p :=
    ⟨hp, forgets_of_moves hrecords⟩
  have hreach := hstart.step hrecord
  have hstep : ((graceRuns secondsEnv plainJob "job").guarded
      (Forgets secondsEnv plainJob "job")).step p (evaluateAt 3600 false, true) p' :=
    ⟨hp', forgets_of_moves hfails⟩
  obtain ⟨world, childId, -, hmissing, hover⟩ :=
    grace_over hreach hstep hwaiting hfailed (Json.optEqStr_iff.mp hreason)
  exact ⟨p, p', world, childId, hreach, hfailed, hmissing, hover⟩
