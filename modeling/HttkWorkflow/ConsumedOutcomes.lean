import HttkWorkflow.RestartEvidence

/-!
# Outcomes that are consumed once

An `advance` or a `wait` is the last thing an activation decides: once it is
committed the activation is over, and the job goes on to its next step, at
once or when its join is satisfied. It may be paused in between, or fail over
its join or its budget of activations.

What brings such a job back is `continue`, and that is a retry of the
activation in the frame. After an outcome that advanced this is the next
activation already, and the retry is its first attempt. After an outcome that
waits it is the activation that waited, and its step runs once more: a paused
job has no way back to `waiting` (`outcome_rerun`). So an activation that is
over rests until it is continued, or until the next one begins
(`consumed_once`).
-/

variable {σ : Type} {env : JoinEnv} {job : JobDefinition} {jobId : PyStr}
variable {s s' : JobState} {step : JobStep σ} {state progress : StateFrame} {move moved : Move}

/-! ## The outcomes that end an activation -/

/-- **An outcome that ends its activation.** -/
def EndsActivation (outcome : List (PyStr × Json)) : Prop :=
  actionOf outcome = "advance" ∨ actionOf outcome = "wait"

instance (outcome : List (PyStr × Json)) : Decidable (EndsActivation outcome) :=
  inferInstanceAs (Decidable (_ ∨ _))

def nextStepOf (outcome : List (PyStr × Json)) : Option PyStr :=
  match Json.get outcome "next_step" with
  | some (.str step) => some step
  | _ => none

/-- **What the outcomes of a run decided**: the activations that are over and were
not continued since, and the step of the current one, where an outcome named
it. -/
structure Decided where
  consumed : List PyStr
  target : Option PyStr

def watchOutcome (jobId : PyStr) (decided : Decided) (s : JobState) (step : JobStep σ × Bool)
    (s' : JobState) : Decided :=
  let outcomes := (appliedBy jobId s step.fst).map AppliedOutcome.outcome
  { consumed :=
      if ∃ outcome ∈ outcomes, EndsActivation outcome then
        s.frame.activationId.toList ++ decided.consumed
      else if step.fst.requests "continue" = true ∧ s'.kind = .ready then
        decided.consumed.filter (fun id => decide (s.frame.activationId ≠ some id))
      else decided.consumed
    target :=
      if s'.frame.activationId ≠ s.frame.activationId then outcomes.head?.bind nextStepOf
      else decided.target }

def decidedRuns (env : JoinEnv) (job : JobDefinition) (jobId : PyStr) :
    System (JobState × Decided) (JobStep σ × Bool) :=
  System.observed (fun s => ∃ priority, s = JobState.submitted priority) (jobNext env job jobId)
    ⟨[], none⟩ (watchOutcome jobId)

/-- The kinds a job rests in while its activation is over. -/
def restingKinds : List StateKind :=
  [.waiting, .paused, .failed, .succeeded, .cancelling, .cancelled]

/-- **The invariant of what was decided.** -/
structure Consumed (s : JobState) (decided : Decided) : Prop where
  issued : ∀ id ∈ decided.consumed, id ∈ s.issued
  rests : ∀ id ∈ decided.consumed, s.frame.activationId = some id → s.kind ∈ restingKinds
  target : ∀ name, decided.target = some name → s.frame.get .step = some (.str name)
  submitted : s.kind = .submitted → decided.target = none

/-! ## What an outcome asks for -/

theorem eq_of_validateStep {value : Option Json} {name : String} {text : PyStr}
    (h : validateStep value name = .ok text) : value = some (.str text) := by
  unfold validateStep at h
  obtain ⟨t, ht, h⟩ := bind_eq_ok.mp h
  obtain ⟨n, -, h⟩ := bind_eq_ok.mp h
  split_ifs at h
  · cases h
  · rw [← Except.ok.inj h]
    unfold requireString at ht
    split at ht
    · split_ifs at ht
      · cases ht
      · rw [Except.ok.inj ht]
    · cases ht

variable {cenv : CommitEnv}

theorem advance_cases {nextStep freshId : PyStr} {reason : String}
    {joinSummary resources : Json} {priority : Option Int}
    (h : advance cenv job state progress nextStep freshId reason joinSummary resources priority = .ok move) :
    move.kind = .failed ∨ (move.kind = .ready ∧ move.frame.get .step = some (.str nextStep)
      ∧ move.frame.get .activationId = some (.str freshId)) := by
  unfold advance at h
  obtain ⟨retained, -, h⟩ := bind_eq_ok.mp h
  simp only at h
  split_ifs at h
  · rw [← Except.ok.inj h]
    exact Or.inl rfl
  · rw [← Except.ok.inj h]
    right
    exact ⟨rfl, by simp, by simp⟩

variable {outcome : List (PyStr × Json)}

theorem outcomeMove_cases {priority : Int}
    {generation : Option Int} {labels : Except Exc (List (PyStr × PyStr))} {freshId : PyStr}
    (h : outcomeMove cenv job priority state outcome generation labels freshId = .ok move) :
    (Keeps state move.frame ∧ (EndsActivation outcome → move.kind ∈ restingKinds))
      ∨ ∃ name, nextStepOf outcome = some name ∧ move.frame.get .step = some (.str name)
        ∧ move.frame.get .activationId = some (.str freshId) := by
  have hother : ∀ action : PyStr, actionOf outcome = action → action ≠ "advance" → action ≠ "wait" →
      ¬EndsActivation outcome := by
    rintro action rfl hadvance hwait hends
    exact hends.elim hadvance hwait
  obtain ⟨steps, progress, hretained, hasks⟩ := asks_of_outcomeMove h
  have hbase : Keeps state progress := progressOf_keeps.retained hretained
  cases hasks with
  | @advances nextStep _ _ _ hnext _ h =>
    rcases advance_cases h with hfailed | ⟨-, hstep, hid⟩
    · left
      refine ⟨?_, fun _ => by simp [hfailed, restingKinds]⟩
      rcases advance_moves hbase h with ⟨hkeeps, -⟩ | ⟨-, hready⟩
      · exact hkeeps
      · cases hfailed.symm.trans hready
    · right
      refine ⟨nextStep, ?_, hstep, hid⟩
      unfold nextStepOf
      rw [eq_of_validateStep hnext]
  | retries haction h =>
    refine Or.inl ⟨(retry_counts hbase h).1, fun hends => absurd hends ?_⟩
    exact haction.elim (hother _ · (by decide) (by decide)) (hother _ · (by decide) (by decide))
  | waits => exact Or.inl ⟨hbase.replace (by simp [countingMembers]), fun _ => by simp [restingKinds]⟩
  | ends priority haction _ hnames =>
    refine Or.inl ⟨hbase.replace fun m hm => hnames m (by revert m; decide), fun hends => absurd hends ?_⟩
    exact haction.elim (hother _ · (by decide) (by decide)) (hother _ · (by decide) (by decide))
  | pauses =>
    exact Or.inl ⟨hbase.withProcess.replace (by simp [countingMembers]), fun _ => by simp [restingKinds]⟩

/-! ## A job at rest -/

theorem edge_of_resting {e : StateKind × StateKind} (he : e ∈ step.edges)
    (hrest : e.fst ∈ restingKinds) : e.snd = .ready ∨ e.snd ∈ restingKinds := by
  have htable : ∀ e ∈ step.edges, e.fst ∈ restingKinds → e.snd = .ready ∨ e.snd ∈ restingKinds := by
    cases step <;> simp only [JobStep.edges] <;> decide
  exact htable e he hrest

/-- **A job at rest** stays so until it is continued or an activation begins. -/
theorem rests_next (hkind : s.kind ∈ restingKinds) (hprevious : s.previousState.isSome = true → s.kind = .claimed)
    (hasks : Asks env job jobId s step move) (hwrites : Writes env s.kind move moved) :
    moved.kind ∈ restingKinds ∨ (∃ id, step.fresh = some id ∧ moved.frame.get .activationId = some (.str id))
      ∨ (step.requests "continue" = true ∧ moved.kind = .ready) := by
  have hother : ∀ {kind}, s.kind = kind → kind ∉ restingKinds → False := fun hsame hmem =>
    hmem (hsame ▸ hkind)
  -- what rests when it is asked for rests when it is written
  have hstays : move.kind ∈ restingKinds → moved.kind ∈ restingKinds := by
    intro hmove
    rcases hwrites.keeps.2 with hsame | ⟨hpaused, -⟩
    · exact hsame ▸ hmove
    · simp [hpaused, restingKinds]
  have hkept := hwrites.keeps.1
  have hedge := edge_of_resting (edge_of_asks hprevious hasks) hkind
  cases step with
  | evaluate world =>
    rcases hedge with hready | hrests
    · have hid := (joinAsks_ready hasks.2 hready).2
      exact Or.inr (Or.inl ⟨world.freshId, rfl, (hkept _ (by decide)).trans hid⟩)
    · exact Or.inl (hstays hrests)
  | request asked =>
    rcases hedge with hready | hrests
    · rcases (applyRequest_ready hasks hready).2 with ⟨-, hfrom⟩ | ⟨hasked, -, hfrom⟩ | hid
      · exact (hother hfrom (by decide)).elim
      · rcases hwrites.ready hready with hkind | hpaused
        · exact Or.inr (Or.inr ⟨hasked, hkind⟩)
        · exact Or.inl (by simp [hpaused, restingKinds])
      · exact Or.inr (Or.inl ⟨asked.freshId, rfl, (hkept _ (by decide)).trans hid⟩)
    · exact Or.inl (hstays hrests)
  | pursue world =>
    refine Or.inl (hstays ?_)
    rcases finishCancellation_kind hasks.2 with hcancel | hcancel <;>
      simp [hcancel, restingKinds]
  | _ =>
    refine absurd hkind ((?_ : ∀ e ∈ JobStep.edges _, e.fst ∉ restingKinds) _ (edge_of_asks hprevious hasks))
    simp only [JobStep.edges]
    decide

/-! ## What was decided stays decided -/

variable {id : PyStr}

theorem activation_fresh (hfresh : ∀ id, step.fresh = some id → id ∉ s.issued ∧ id.codes ≠ [])
    (heffect : Effect job s step moved)
    (hother : moved.frame.activationId ≠ s.frame.activationId)
    (hid : moved.frame.activationId = some id) : id ∉ s.issued := by
  have hbegun : ∀ {freshId}, step.fresh = some freshId →
      moved.frame.get .activationId = some (.str freshId) → id ∉ s.issued := by
    intro freshId hstep hget
    obtain ⟨hnew, hcodes⟩ := hfresh freshId hstep
    have hsame : some id = some freshId := hid.symm.trans (StateFrame.string_of_get hget hcodes)
    exact Option.some.inj hsame ▸ hnew
  cases heffect with
  | keeps hplain hframe hkind => exact absurd hframe.activationId hother
  | refuses hplain hfrom hkind hframe =>
    have hnone : moved.frame.activationId = none := by
      show moved.frame.string .activationId = none
      unfold StateFrame.string
      rw [hframe _ (by decide)]
    cases hid.symm.trans hnone
  | registers freshId hstep hfrom hkind hframe => exact hbegun (by rw [hstep]; rfl) hframe.activationId
  | claims hplain attemptId hstep hfrom hkind hframe =>
    exact absurd (activationId_of_get hframe.activationId) hother
  | releases reason hstep hfrom hkind hframe =>
    exact absurd (activationId_of_get hframe.activationId) hother
  | launches hplain hfrom hkind hframe => exact absurd hframe.activationId hother
  | fences hstep hplain hfrom hkind hframe => exact absurd hframe.activationId hother
  | begins hplain freshId hstep hfrom hkind hframe => exact hbegun hstep hframe.activationId

theorem step_kept (hfresh : ∀ id, step.fresh = some id → id ∉ s.issued ∧ id.codes ≠ [])
    (hcounted : Counted job s) (heffect : Effect job s step moved) (hfrom : s.kind ≠ .submitted)
    (hsame : moved.frame.activationId = s.frame.activationId) :
    moved.frame.get .step = s.frame.get .step := by
  cases heffect with
  | keeps hplain hframe hkind => exact hframe _ (by decide)
  | refuses hplain hsubmitted hkind hframe => exact absurd hsubmitted hfrom
  | registers freshId hstep hsubmitted hkind hframe => exact absurd hsubmitted hfrom
  | claims hplain attemptId hstep hready hkind hframe => exact hframe.step
  | releases reason hstep hclaimed hkind hframe => exact hframe.step
  | launches hplain hclaimed hkind hframe => exact hframe _ (by decide)
  | fences hstep hplain hrunning hkind hframe => exact hframe _ (by decide)
  | begins hplain freshId hstep hends hkind hframe =>
    exact absurd hsame (activationId_changes hcounted hframe.activationId (hfresh _ hstep))

variable {world : CommitWorld σ}

theorem appliedBy_of_apply {files : σ} (h : readOutcome (world.document files) jobId s.frame = .ok outcome) :
    (appliedBy jobId s (.apply world files)).map AppliedOutcome.outcome = [outcome] := by
  simp [appliedBy, h]

theorem appliedBy_of_plain (h : step.isApply = false) : appliedBy jobId s step = [] := by
  cases step with
  | apply world files => cases h
  | _ => rfl

variable {decided : Decided}

variable {reread : Bool}

theorem decided_apply {files : σ} (hs : Consumed s decided) (hcounted : Counted job s)
    (hfresh : ∀ id, world.freshId = id → id ∉ s.issued ∧ id.codes ≠ [])
    (hasks : Asks env job jobId s (.apply world files) move) (hwrites : Writes env s.kind move moved)
    (s' : JobState) (hs' : s' = s.after jobId (.apply world files) moved) :
    (∀ id ∈ (watchOutcome jobId decided s (.apply world files, reread) s').consumed,
        moved.frame.activationId = s.frame.activationId → s.frame.activationId = some id →
        moved.kind ∈ restingKinds)
      ∧ ∀ name, (watchOutcome jobId decided s (.apply world files, reread) s').target = some name →
        moved.frame.get .step = some (.str name) := by
  subst hs'
  obtain ⟨hfrom, outcome, generation, hread, hmove⟩ := hasks
  have hkept := hwrites.keeps.1
  have happlied := appliedBy_of_apply hread
  rcases outcomeMove_cases hmove with ⟨hkeeps, hrests⟩ | ⟨name, hname, hstep, hid⟩
  · have hsame : moved.frame.activationId = s.frame.activationId := (hkeeps.trans hkept).activationId
    refine ⟨fun id hmem _ hid => ?_, fun name htarget => ?_⟩
    · by_cases hends : EndsActivation outcome
      · rcases hwrites.keeps.2 with hkind | ⟨hpaused, -⟩
        · exact hkind ▸ hrests hends
        · simp [hpaused, restingKinds]
      · have hbefore : id ∈ decided.consumed := by
          simpa [watchOutcome, happlied, hends, JobStep.requests] using hmem
        have hrested := hs.rests id hbefore hid
        rw [hfrom] at hrested
        exact absurd hrested (by decide)
    · simp only [watchOutcome, after_frame, hsame, ne_eq, not_true_eq_false, if_false] at htarget
      rw [(hkeeps.trans hkept) _ (by decide)]
      exact hs.target name htarget
  · have hother : moved.frame.activationId ≠ s.frame.activationId :=
      activationId_changes hcounted ((hkept _ (by decide)).trans hid) (hfresh _ rfl)
    refine ⟨fun id _ hsame => absurd hsame hother, fun name' htarget => ?_⟩
    simp only [watchOutcome, after_frame, hother, ne_eq, not_false_eq_true, if_true, happlied,
      List.head?_cons, Option.bind_some, hname, Option.some.injEq] at htarget
    rw [hkept _ (by decide), hstep, htarget]

theorem consumed_after {a : JobStep σ × Bool} (hmem : id ∈ (watchOutcome jobId decided s a s').consumed) :
    s.frame.activationId = some id ∨ id ∈ decided.consumed := by
  simp only [watchOutcome] at hmem
  split_ifs at hmem
  · exact (List.mem_append.mp hmem).imp_left Option.mem_toList.mp
  · exact Or.inr (List.mem_filter.mp hmem).1
  · exact Or.inr hmem

theorem consumed_quiet (happly : step.isApply = false)
    (hmem : id ∈ (watchOutcome jobId decided s (step, reread) s').consumed) :
    id ∈ decided.consumed
      ∧ (step.requests "continue" = true → s'.kind = .ready → s.frame.activationId ≠ some id) := by
  simp only [watchOutcome, appliedBy_of_plain happly, List.map_nil, List.not_mem_nil, false_and,
    exists_false, if_false] at hmem
  split_ifs at hmem with hcontinued
  · obtain ⟨hbefore, hother⟩ := List.mem_filter.mp hmem
    exact ⟨hbefore, fun _ _ => of_decide_eq_true hother⟩
  · exact ⟨hmem, fun hasked hready => absurd ⟨hasked, hready⟩ hcontinued⟩

/-- **A job stays submitted** without an activation that begins. -/
theorem submitted_of_next (heffect : Effect job s step moved) (hkind : moved.kind = .submitted) :
    s.kind = .submitted ∧ moved.frame.activationId = s.frame.activationId := by
  cases heffect with
  | keeps hplain hframe hsame =>
    exact ⟨(hsame (by simp [hkind, enteredKinds])).symm.trans hkind, hframe.activationId⟩
  | refuses hplain hfrom hfailed hframe => cases hkind.symm.trans hfailed
  | registers freshId hstep hfrom hready hframe =>
    rcases hready with hready | hready <;> cases hkind.symm.trans hready
  | claims hplain attemptId hstep hfrom hclaimed hframe => cases hkind.symm.trans hclaimed
  | releases reason hstep hfrom hready hframe =>
    rcases hready with hready | hready <;> cases hkind.symm.trans hready
  | launches hplain hfrom hrunning hframe => cases hkind.symm.trans hrunning
  | fences hstep hplain hfrom hcommitting hframe => cases hkind.symm.trans hcommitting
  | begins hplain freshId hstep hfrom hready hframe =>
    rcases hready with hready | hready <;> cases hkind.symm.trans hready

/-- **A step keeps what was decided.** -/
theorem Consumed.next (hs : Consumed s decided)
    (hcounted : Counted job s) (hprevious : s.previousState.isSome = true → s.kind = .claimed)
    (hfresh : ∀ id, step.fresh = some id → id ∉ s.issued ∧ id.codes ≠ [])
    (hasks : Asks env job jobId s step move) (hwrites : Writes env s.kind move moved)
    (heffect : Effect job s step moved) :
    Consumed (s.after jobId step moved)
      (watchOutcome jobId decided s (step, reread) (s.after jobId step moved)) := by
  have hissued : ∀ id ∈ (watchOutcome jobId decided s (step, reread)
      (s.after jobId step moved)).consumed, id ∈ s.issued := fun id hmem =>
    (consumed_after hmem).elim (hcounted.issued id) (hs.issued id)
  constructor
  · exact fun id hmem => List.mem_append_right _ (hissued id hmem)
  · intro id hmem hid
    rw [after_frame] at hid
    by_cases hsame : moved.frame.activationId = s.frame.activationId
    · have hold : s.frame.activationId = some id := hsame.symm.trans hid
      cases happly : step.isApply with
      | true =>
        cases step with
        | apply world files =>
          exact (decided_apply hs hcounted (fun id h => hfresh id (h ▸ rfl)) hasks hwrites _ rfl).1 id hmem hsame hold
        | _ => cases happly
      | false =>
        obtain ⟨hbefore, hcontinued⟩ := consumed_quiet happly hmem
        rcases rests_next (hs.rests id hbefore hold) hprevious hasks hwrites with
          hrested | ⟨freshId, hstep, hget⟩ | ⟨hasked, hready⟩
        · exact hrested
        · exact absurd hsame (activationId_changes hcounted hget (hfresh _ hstep))
        · exact absurd hold (hcontinued hasked hready)
    · exact absurd (hissued id hmem) (activation_fresh hfresh heffect hsame hid)
  · intro name htarget
    rw [after_frame]
    cases happly : step.isApply with
    | true =>
      cases step with
      | apply world files =>
        exact (decided_apply hs hcounted (fun id h => hfresh id (h ▸ rfl)) hasks hwrites _ rfl).2 name htarget
      | _ => cases happly
    | false =>
      simp only [watchOutcome, after_frame, appliedBy_of_plain happly, List.map_nil, List.head?_nil,
        Option.bind_none] at htarget
      split_ifs at htarget with hsame
      rw [step_kept hfresh hcounted heffect ?_ (not_not.mp hsame)]
      · exact hs.target name htarget
      · intro hsubmitted
        rw [hs.submitted hsubmitted] at htarget
        cases htarget
  · intro hkind
    obtain ⟨hsubmitted, hsame⟩ := submitted_of_next heffect hkind
    simp only [watchOutcome, after_frame, hsame, ne_eq, not_true_eq_false, if_false]
    exact hs.submitted hsubmitted

theorem consumed_of_reachable {p : JobState × Decided}
    (hs : (decidedRuns (σ := σ) env job jobId).Reachable p) : Consumed p.fst p.snd := by
  refine hs.invariant (I := fun p => Consumed p.fst p.snd) ?_ ?_
  · rintro p ⟨-, hdecided⟩
    rw [hdecided]
    exact ⟨fun id h => (by cases h), fun id h => (by cases h), fun name h => (by cases h), fun _ => rfl⟩
  · rintro p ⟨step, reread⟩ p' hs hconsumed hstep
    obtain ⟨hnext, hwatch⟩ := System.watching_eq_some.mp hstep
    have hreachable := hs.of_observed
    obtain ⟨move, moved, hfresh, hasks, hwrites, heffect, hafter⟩ := effect_of_next hreachable hnext
    rw [hwatch, ← hafter]
    exact hconsumed.next (counted_of_reachable hreachable) (claimed_of_previousState hreachable) hfresh
      hasks hwrites heffect

/-- **An activation whose outcome was committed is over**: no attempt of it is
launched unless it was continued, the job rests in it until it is continued or
the next activation begins, and the activation an outcome begins is at the
step the outcome named. -/
theorem consumed_once {p p' : JobState × Decided} {a : JobStep σ × Bool}
    (hs : (decidedRuns (σ := σ) env job jobId).Reachable p)
    (hstep : (decidedRuns env job jobId).step p a p') :
    (p.fst.kind = .claimed → p'.fst.kind = .running →
        ∀ id ∈ p.snd.consumed, p.fst.frame.activationId ≠ some id)
      ∧ (∀ id ∈ p'.snd.consumed, p'.fst.frame.activationId = some id →
        p'.fst.kind ∈ restingKinds)
      ∧ ∀ name, p'.snd.target = some name → p'.fst.frame.get .step = some (.str name) := by
  have hconsumed := consumed_of_reachable hs
  have hconsumed' := consumed_of_reachable (hs.step hstep)
  refine ⟨fun hclaimed _ id hmem hid => ?_, hconsumed'.rests, hconsumed'.target⟩
  have hrests := hconsumed.rests id hmem hid
  rw [hclaimed] at hrests
  exact absurd hrests (by decide)

/-! ## A pause around an advance, and after a wait -/

def waitThen (step : PyStr) : Json :=
  .obj [("format", .str "httk-workflow-outcome"), ("format_version", .int 2),
    ("job_id", .str "job"), ("activation_id", .str "a1"), ("attempt_id", .str "t1"),
    ("action", .str "wait"), ("next_step", .str step),
    ("join", .obj [("condition", .str "all"), ("children", .arr [])])]

def advancedAndPaused : List (JobStep PUnit) :=
  pausedAttempt ++ [plainApply (advanceTo "second") "a2", .request (plainRequest "continue"),
    plainClaim "t2"]

/-- A job that is paused as its outcome advances and then continued is launched at
the next step, in the next activation. -/
theorem consumed_once_advance : ∃ p p',
    (decidedRuns (σ := PUnit) plainJoinEnv plainJob "job").Reachable p
      ∧ (decidedRuns plainJoinEnv plainJob "job").step p (plainLaunch, true) p'
      ∧ p.snd.consumed = [PyStr.ofString "a1"] ∧ p.fst.frame.activationId ≠ some "a1"
      ∧ p'.fst.frame.get .step = some (.str "second") := by
  have hrun : (System.follow (System.watching (jobNext plainJoinEnv plainJob "job") (watchOutcome "job"))
      (JobState.submitted 100, ⟨[], none⟩) (advancedAndPaused.map (·, true))).bind (fun p =>
      (System.watching (jobNext plainJoinEnv plainJob "job") (watchOutcome "job") p
        (plainLaunch, true)).map fun p' =>
          (p.snd.consumed, p.fst.kind, p'.fst.kind, p'.snd.target))
      = some ([PyStr.ofString "a1"], StateKind.claimed, StateKind.running,
        some (PyStr.ofString "second")) := by
    decide +kernel
  obtain ⟨p, hp, hrun⟩ := Option.bind_eq_some_iff.mp hrun
  obtain ⟨p', hstep, hfacts⟩ := Option.map_eq_some_iff.mp hrun
  simp only [Prod.mk.injEq] at hfacts
  obtain ⟨hover, hclaimed, hrunning, htarget⟩ := hfacts
  have hreachable : (decidedRuns (σ := PUnit) plainJoinEnv plainJob "job").Reachable p :=
    (System.run_of_follow hp).reachable (System.Reachable.init ⟨⟨100, rfl⟩, rfl⟩)
  obtain ⟨honce, -, hsecond⟩ := consumed_once hreachable hstep
  exact ⟨p, p', hreachable, hstep, hover, honce hclaimed hrunning "a1" (by rw [hover]; simp),
    hsecond "second" htarget⟩

def waitedAndPaused : List (JobStep PUnit) :=
  [.register "a1", plainClaim "t1", plainLaunch, .fence plainPoll (.ok (waitThen "second")),
    plainApply (waitThen "second") "a2", .request (plainRequest "pause"),
    .request (plainRequest "continue"), plainClaim "t2"]

/-- **An activation that waited is run once more** after a pause: its outcome was
committed, and another attempt of it is launched. -/
theorem outcome_rerun : ∃ s s',
    (jobRuns (σ := PUnit) plainJoinEnv plainJob "job").Reachable s
      ∧ jobNext plainJoinEnv plainJob "job" s (plainLaunch, true) = some s'
      ∧ s.kind = .claimed ∧ s'.kind = .running ∧ s.frame.activationId = some "a1"
      ∧ ∃ applied ∈ s.applied, EndsActivation applied.outcome
        ∧ Json.optEqStr (Json.get applied.outcome "activation_id") "a1" = true := by
  have hrun : (plainRun plainJob waitedAndPaused).bind (fun s =>
      (jobNext plainJoinEnv plainJob "job" s (plainLaunch, true)).map fun s' =>
        (s.kind, s'.kind, s.frame.activationId, decide (∃ applied ∈ s.applied,
          EndsActivation applied.outcome
            ∧ Json.optEqStr (Json.get applied.outcome "activation_id") "a1" = true)))
      = some (StateKind.claimed, StateKind.running, some (PyStr.ofString "a1"), true) := by
    decide +kernel
  obtain ⟨s, hs, hrun⟩ := Option.bind_eq_some_iff.mp hrun
  obtain ⟨s', hs', hfacts⟩ := Option.map_eq_some_iff.mp hrun
  simp only [Prod.mk.injEq, decide_eq_true_eq] at hfacts
  obtain ⟨hclaimed, hrunning, hid, hover⟩ := hfacts
  exact ⟨s, s', reachable_of_plainRun hs, hs', hclaimed, hrunning, hid, hover⟩
