import HttkWorkflow.ConsumedOutcomes
import HttkWorkflow.OutcomeFencing
import HttkWorkflow.TimelineRuns

/-!
# What the history of a job does not repeat

The runner of an attempt may outlive it: its marker is taken over, and it
still publishes, or is still alive on a host nobody reaches. What such a
process can do is bounded by names. An activation and an attempt have one
each, made up when they begin, and a name the frame has given up is not taken
up again (`names_never_return`), so that nothing which is published under it
is read as an outcome of the job, however late.

The other results are about launches and ends. Each attempt is launched once,
and an outcome that was applied is one of an attempt that was launched
(`attempts_launched_once`). A job that succeeded did so with the outcome that
was applied last, and asked for it (`succeeded_by_outcome`).
-/

variable {σ : Type} {env : JoinEnv} {job : JobDefinition} {jobId : PyStr}
variable {s s' : JobState} {step : JobStep σ} {move moved : Move} {id : PyStr}
variable {as : List (JobStep σ × Bool)}

/-! ## Names that are given up -/

/-- **A name is in hand** while the frame has it, for its activation or its attempt. -/
def JobState.InHand (s : JobState) (id : PyStr) : Prop :=
  s.frame.activationId = some id ∨ s.frame.attemptId = some id

theorem Effect.inHand (h : Effect job s step moved) (hid : (s.after jobId step moved).InHand id) :
    s.InHand id ∨ step.fresh = some id := by
  rcases hid with hid | hid
  · exact (h.activation hid).imp_left Or.inl
  · exact (h.attempt hid).imp_left Or.inr

theorem eq_of_sameIdentity {value : Option Json} {expected : Option PyStr}
    (h : sameIdentity value expected = true) (hvalue : value = some (.str id)) : expected = some id := by
  subst hvalue
  cases expected with
  | none => cases h
  | some text => rw [Json.str.inj (Option.some.inj (Json.optEqStr_iff.mp h))]

/-- **A name that was given up never returns**, and an outcome that is published
under it is refused from then on. -/
theorem names_never_return (hs : (jobRuns (σ := σ) env job jobId).Reachable s) (hissued : id ∈ s.issued)
    (hgiven : ¬s.InHand id) (hrun : (jobRuns (σ := σ) env job jobId).Run s as s') :
    ¬s'.InHand id ∧ ∀ document outcome, readOutcome document jobId s'.frame = .ok outcome →
      Json.get outcome "activation_id" ≠ some (.str id)
        ∧ Json.get outcome "attempt_id" ≠ some (.str id) := by
  suffices hnever : ¬s'.InHand id by
    refine ⟨hnever, fun document outcome hread => ?_⟩
    obtain ⟨-, hactivation, hattempt⟩ := identities_of_readOutcome hread
    exact ⟨fun hget => hnever (Or.inl (eq_of_sameIdentity hactivation hget)),
      fun hget => hnever (Or.inr (eq_of_sameIdentity hattempt hget))⟩
  induction hrun with
  | nil => exact hgiven
  | cons hnext _ ih =>
    obtain ⟨move, moved, hfresh, -, -, heffect, rfl⟩ := effect_of_next hs hnext
    refine ih (hs.step hnext) (List.mem_append_right _ hissued) fun hid => ?_
    rcases heffect.inHand hid with hold | hnew
    · exact hgiven hold
    · exact (hfresh id hnew).1 hissued

def lostJob : JobDefinition := { plainJob with retryPolicy := .unlimited ["lease_lost"] }

def succeedNow : Json :=
  .obj [("format", .str "httk-workflow-outcome"), ("format_version", .int 2), ("job_id", .str "job"),
    ("activation_id", .str "a1"), ("attempt_id", .str "t1"), ("action", .str "succeed")]

def secondSucceeds : List (JobStep PUnit) :=
  [plainLaunch, .fence plainPoll (.ok succeedNow), plainApply succeedNow "a2"]

/-- While the second attempt runs and succeeds, the first is out of hand. -/
theorem names_never_return_overtaken : ∃ s s', s.issued.contains "t0" = true ∧ s'.kind = .succeeded
    ∧ (jobRuns plainJoinEnv lostJob "job").Run s (secondSucceeds.map (·, true)) s' ∧ ¬s'.InHand "t0" := by
  have hrun : (plainRun lostJob (overtakenRun.take 5)).bind (fun s =>
      (System.follow (jobNext plainJoinEnv lostJob "job") s (secondSucceeds.map (·, true))).map fun s' =>
        (s.issued.contains "t0", s.frame.activationId, s.frame.attemptId, s'.kind))
      = some (true, some (PyStr.ofString "a1"), some (PyStr.ofString "t1"), StateKind.succeeded) := by
    decide +kernel
  obtain ⟨s, hs, hrun⟩ := Option.bind_eq_some_iff.mp hrun
  obtain ⟨s', hs', hfacts⟩ := Option.map_eq_some_iff.mp hrun
  simp only [Prod.mk.injEq] at hfacts
  obtain ⟨hissued, hactivation, hattempt, hkind⟩ := hfacts
  have hgiven : ¬s.InHand "t0" := by
    unfold JobState.InHand
    rw [hactivation, hattempt]
    decide
  have hafter : (jobRuns plainJoinEnv lostJob "job").Run s (secondSucceeds.map (·, true)) s' := System.run_of_follow hs'
  exact ⟨s, s', hissued, hkind, hafter, (names_never_return (reachable_of_plainRun hs)
    (List.contains_iff_mem.mp hissued) hgiven hafter).1⟩

/-! ## Launches -/

/-- The attempts that were launched, the last one first. -/
def listLaunch (launched : List PyStr) (s : JobState) (_ : JobStep σ × Bool) (s' : JobState) : List PyStr :=
  if s.kind = .claimed ∧ s'.kind = .running then s'.frame.attemptId.toList ++ launched else launched

def listedRuns (env : JoinEnv) (job : JobDefinition) (jobId : PyStr) :
    System (JobState × List PyStr) (JobStep σ × Bool) :=
  System.observed (fun s => ∃ priority, s = JobState.submitted priority) (jobNext env job jobId) []
    listLaunch

/-- **What is known of the attempts that were launched.** -/
structure LaunchList (s : JobState) (launched : List PyStr) : Prop where
  nodup : launched.Nodup
  count : launched.length = s.launches
  issued : ∀ id ∈ launched, id ∈ s.issued
  claimed : s.kind = .claimed → ∀ id, s.frame.attemptId = some id → id ∉ launched
  active : s.kind = .running ∨ s.kind = .committing → ∃ id ∈ launched, s.frame.attemptId = some id
  applied : ∀ o ∈ s.applied, ∃ id ∈ launched, Json.get o.outcome "attempt_id" = some (.str id)
  once : (s.applied.map fun o => Json.get o.outcome "attempt_id").Nodup

def attemptEdges : List (StateKind × StateKind) :=
  [(.ready, .claimed), (.claimed, .claimed), (.claimed, .running), (.running, .running), (.running, .committing),
    (.committing, .committing)]

theorem edge_into_attempt {e : StateKind × StateKind} (he : e ∈ step.edges) (hkind : e.snd ∈ attemptKinds) :
    e ∈ attemptEdges := by
  have htable : ∀ e ∈ step.edges, e.snd ∈ attemptKinds → e ∈ attemptEdges := by
    cases step <;> simp only [JobStep.edges] <;> decide
  exact htable e he hkind

/-- **A step keeps** what is known of the launches. -/
theorem LaunchList.next {launched : List PyStr} {reread : Bool} (h : LaunchList s launched)
    (hs : (jobRuns (σ := σ) env job jobId).Reachable s)
    (hnext : jobNext env job jobId s (step, reread) = some s') :
    LaunchList s' (listLaunch launched s (step, reread) s') := by
  have hfencing := fencing_of_reachable hs
  obtain ⟨move, moved, hfresh, hasks, hwrites, heffect, rfl⟩ := effect_of_next hs hnext
  have hedge := edge_of_asks (claimed_of_previousState hs) hasks
  have hkinds : moved.kind ∈ attemptKinds → (s.kind, moved.kind) ∈ attemptEdges := by
    intro hkind
    rw [← hwrites.kind_mem (List.mem_cons_of_mem _ hkind)] at hedge
    exact edge_into_attempt hedge hkind
  -- an outcome is applied while its attempt is in hand
  have happlied : ∀ o ∈ (s.after jobId step moved).applied,
      ∃ id ∈ launched, Json.get o.outcome "attempt_id" = some (.str id) := by
    intro o ho
    rcases List.mem_append.mp ho with ho | ho
    · obtain ⟨world, files, -, hread, -⟩ := eq_of_mem_appliedBy ho
      obtain ⟨id, hid, hattempt⟩ := h.active (Or.inr (left_of_mem_appliedBy hasks hwrites ho).1)
      obtain ⟨-, -, hsame⟩ := identities_of_readOutcome hread
      rw [hattempt] at hsame
      exact ⟨id, hid, Json.optEqStr_iff.mp hsame⟩
    · exact h.applied o ho
  have honce : ((s.after jobId step moved).applied.map fun o => Json.get o.outcome "attempt_id").Nodup := by
    show ((appliedBy jobId s step ++ s.applied).map _).Nodup
    rw [List.map_append, List.nodup_append]
    refine ⟨?_, h.once, fun a ha b hb => ?_⟩
    · cases step with
      | apply world files =>
        cases hread : readOutcome (world.document files) jobId s.frame with
        | ok outcome => simp [appliedBy, hread]
        | error _ => simp [appliedBy, hread]
      | _ => exact List.nodup_nil
    · obtain ⟨o, ho, rfl⟩ := List.mem_map.mp ha
      obtain ⟨o', ho', rfl⟩ := List.mem_map.mp hb
      obtain ⟨world, files, -, hread, -⟩ := eq_of_mem_appliedBy ho
      have hkind := (left_of_mem_appliedBy hasks hwrites ho).1
      obtain ⟨id, hattempt, -, hother⟩ := hfencing.active (by simp [hkind, attemptKinds])
      obtain ⟨-, -, hsame⟩ := identities_of_readOutcome hread
      rw [hattempt] at hsame
      rw [Json.optEqStr_iff.mp hsame]
      exact (hother o' ho').symm
  by_cases hlaunch : s.kind = .claimed ∧ moved.kind = .running
  · obtain ⟨id, hattempt, -, -⟩ := hfencing.active (by simp [hlaunch.1, attemptKinds])
    have hsame : moved.frame.attemptId = some id := by
      rcases heffect.underway hfresh (by simp [hlaunch.2, attemptKinds]) with ⟨-, -, -, hready⟩ | ⟨-, hkeeps, -⟩
      · rw [hlaunch.1] at hready
        cases hready
      · exact hkeeps.attemptId.trans hattempt
    have hwatch : listLaunch launched s (step, reread) (s.after jobId step moved) = id :: launched := by
      simp [listLaunch, hlaunch, hsame]
    rw [hwatch]
    refine ⟨h.nodup.cons (h.claimed hlaunch.1 id hattempt), ?_, ?_, ?_, ?_, ?_, honce⟩
    · simp [JobState.after, hlaunch, h.count]
    · refine List.forall_mem_cons.mpr ⟨?_, fun id' hid' => List.mem_append_right _ (h.issued id' hid')⟩
      exact List.mem_append_right _ (hfencing.issued id hattempt)
    · intro hclaimed
      rw [after_kind, hlaunch.2] at hclaimed
      cases hclaimed
    · exact fun _ => ⟨id, List.mem_cons_self, hsame⟩
    · intro o ho
      obtain ⟨id', hid', hget⟩ := happlied o ho
      exact ⟨id', List.mem_cons_of_mem _ hid', hget⟩
  · have hwatch : listLaunch launched s (step, reread) (s.after jobId step moved) = launched := if_neg hlaunch
    rw [hwatch]
    refine ⟨h.nodup, ?_, fun id hid => List.mem_append_right _ (h.issued id hid), fun hclaimed id hid hmem => ?_,
      fun hactive => ?_, happlied, honce⟩
    · simp [JobState.after, hlaunch, h.count]
    · have hclaimed : moved.kind = .claimed := hclaimed
      rcases heffect.underway hfresh (by simp [hclaimed, attemptKinds]) with ⟨freshId, hfreshId, hframe, -⟩ | ⟨hfrom, hkeeps, -⟩
      · rw [Option.some.inj (hid.symm.trans hframe)] at hmem
        exact (hfresh freshId hfreshId).1 (h.issued freshId hmem)
      · have hedge := hkinds (by simp [hclaimed, attemptKinds])
        refine h.claimed ?_ id (hkeeps.attemptId.symm.trans hid) hmem
        revert hfrom hedge
        rw [hclaimed]
        cases s.kind <;> decide
    · have hactive : moved.kind = .running ∨ moved.kind = .committing := hactive
      have hmem : moved.kind ∈ attemptKinds := by rcases hactive with h | h <;> simp [h, attemptKinds]
      have hedge := hkinds hmem
      have hfrom : s.kind = .running ∨ s.kind = .committing := by
        revert hedge hactive hlaunch
        cases s.kind <;> cases moved.kind <;> decide
      obtain ⟨id, hid, hattempt⟩ := h.active hfrom
      rcases heffect.underway hfresh hmem with ⟨-, -, -, hready⟩ | ⟨-, hkeeps, -⟩
      · rcases hfrom with hfrom | hfrom <;> rw [hready] at hfrom <;> cases hfrom
      · exact ⟨id, hid, hkeeps.attemptId.trans hattempt⟩

/-- **Each attempt is launched once, and an outcome of it is applied once at most**: no name is among the
launches twice, there are as many as the run has transitions from `claimed` to `running` (`launches` counts them, and
no transition reads it), and every outcome that was applied is of one of them, and of another one than the others. -/
theorem attempts_launched_once {p : JobState × List PyStr} (hs : (listedRuns (σ := σ) env job jobId).Reachable p) :
    p.snd.Nodup ∧ p.snd.length = p.fst.launches
      ∧ (∀ o ∈ p.fst.applied, ∃ id ∈ p.snd, Json.get o.outcome "attempt_id" = some (.str id))
      ∧ (p.fst.applied.map fun o => Json.get o.outcome "attempt_id").Nodup := by
  suffices h : LaunchList p.fst p.snd from ⟨h.nodup, h.count, h.applied, h.once⟩
  refine System.Reachable.invariant (I := fun p => LaunchList p.fst p.snd) ?_ ?_ hs
  · rintro ⟨s, launched⟩ ⟨⟨priority, rfl⟩, rfl⟩
    exact ⟨List.nodup_nil, rfl, by simp, StateKind.noConfusion, by simp [JobState.submitted], by simp [JobState.submitted],
      List.nodup_nil⟩
  · rintro p ⟨step, reread⟩ p' hp h hnext
    obtain ⟨hnext, hwatch⟩ := System.watching_eq_some.mp hnext
    rw [hwatch]
    exact h.next hp.of_observed hnext

/-- The job whose first attempt was taken over launched two, and applied one outcome. -/
theorem attempts_launched_once_overtaken : ∃ p, (listedRuns (σ := PUnit) plainJoinEnv lostJob "job").Reachable p
    ∧ p.snd = ["t1", "t0"] ∧ p.fst.applied.length = 1 ∧ p.snd.Nodup := by
  have hrun : (System.follow (System.watching (jobNext plainJoinEnv lostJob "job") listLaunch)
      (JobState.submitted 100, []) ((overtakenRun.take 5 ++ secondSucceeds).map (·, true))).map
        (fun p => (p.snd, p.fst.applied.length)) = some ([PyStr.ofString "t1", "t0"], 1) := by
    decide +kernel
  obtain ⟨p, hp, hfacts⟩ := Option.map_eq_some_iff.mp hrun
  obtain ⟨hlaunched, happlied⟩ := Prod.mk.inj hfacts
  have hafter : (listedRuns plainJoinEnv lostJob "job").Run _ _ p := System.run_of_follow hp
  have hs := hafter.reachable (.init ⟨⟨100, rfl⟩, rfl⟩)
  exact ⟨p, hs, hlaunched, happlied, (attempts_launched_once hs).1⟩

/-! ## Ends -/

theorem succeed_of_outcomeMove {cenv : CommitEnv} {priority : Int} {state : StateFrame}
    {outcome : List (PyStr × Json)} {generation : Option Int} {labels : Except Exc (List (PyStr × PyStr))}
    {freshId : PyStr} (h : outcomeMove cenv job priority state outcome generation labels freshId = .ok move)
    (hkind : move.kind = .succeeded) : actionOf outcome = "succeed" := by
  obtain ⟨steps, progress, -, hasks⟩ := asks_of_outcomeMove h
  have hnot : ¬(move.kind = .ready ∨ move.kind = .failed) := by simp [hkind]
  cases hasks with
  | advances _ _ h => exact absurd (advance_kind h) hnot
  | retries _ h => exact absurd (retry_kind h) hnot
  | waits => cases hkind
  | ends _ _ _ _ hsucceeds => exact hsucceeds hkind
  | pauses => cases hkind

/-- **A job succeeds by an outcome**: the one that was applied last asked for it, and is one of an attempt that
ran to its fence. -/
theorem succeeded_by_outcome (hs : (jobRuns (σ := σ) env job jobId).Reachable s) (hkind : s.kind = .succeeded) :
    ∃ o, s.applied.head? = some o ∧ actionOf o.outcome = "succeed" ∧ Fenced jobId s.abandoned o := by
  have hfenced := (fencing_of_reachable hs).applied
  cases hs with
  | init h =>
    obtain ⟨priority, rfl⟩ := h
    cases hkind
  | step hs hnext =>
    rename_i s a
    obtain ⟨step, reread⟩ := a
    obtain ⟨move, moved, -, hasks, hwrites, -, rfl⟩ := effect_of_next hs hnext
    have hsucceeded : moved.kind = .succeeded := hkind
    have hmoved : move.kind = .succeeded := (hwrites.kind_of_ne (by simp [hsucceeded])).symm.trans hsucceeded
    have hedge := edge_of_asks (claimed_of_previousState hs) hasks
    rw [hmoved] at hedge
    cases step with
    | apply world files =>
      obtain ⟨-, outcome, generation, hread, hmove⟩ := hasks
      have happlied : (s.after jobId (.apply world files) moved).applied = ⟨outcome, s.fencedFrom⟩ :: s.applied := by
        simp [JobState.after, appliedBy, hread]
      refine ⟨_, by rw [happlied]; rfl, succeed_of_outcomeMove hmove hmoved, hfenced _ ?_⟩
      rw [happlied]
      exact List.mem_cons_self
    | _ => simp [JobStep.edges, requestEdges] at hedge

/-- The job whose second attempt asked for it succeeded. -/
theorem succeeded_by_outcome_second : ∃ s, (jobRuns (σ := PUnit) plainJoinEnv lostJob "job").Reachable s
    ∧ ∃ o, s.applied.head? = some o ∧ actionOf o.outcome = "succeed" ∧ Fenced "job" s.abandoned o := by
  have hrun : (plainRun lostJob (overtakenRun.take 5 ++ secondSucceeds)).map JobState.kind = some .succeeded := by
    decide +kernel
  obtain ⟨s, hs, hkind⟩ := Option.map_eq_some_iff.mp hrun
  exact ⟨s, reachable_of_plainRun hs, succeeded_by_outcome (reachable_of_plainRun hs) hkind⟩
