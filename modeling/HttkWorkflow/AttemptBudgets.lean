import HttkWorkflow.JobEffects

/-!
# The budgets of a job

A job has three budgets: the attempts of one activation, all attempts, and
the activations. They are tested where a claim is made and where an
activation begins, against the ordinals in the frame, and these are advanced,
given back and reset by different transitions.

`Counted` ties the ordinals to the history of the run. The two attempt
ordinals are the numbers of claims that were not given back, and a launch
comes after the claim it belongs to, so that there are no more launches than
that. They are not equal: an attempt that could not be prepared was claimed
and never launched, and it counts (`attempts_unlaunched`).
-/

variable {σ : Type} {env : JoinEnv} {job : JobDefinition} {jobId : PyStr}
variable {s s' : JobState} {step : JobStep σ} {moved : Move}

/-- **The invariant of the counts.** -/
structure Counted (job : JobDefinition) (s : JobState) : Prop where
  issued : ∀ id, s.frame.activationId = some id → id ∈ s.issued
  submitted : s.kind = .submitted → s.frame.activationId = none ∧ s.wasRegistered = false
    ∧ s.claims = 0 ∧ s.claimsHere = 0 ∧ s.launches = 0 ∧ s.launchesHere = 0 ∧ s.activations = 0
  total : s.frame.totalAttempts.getD 0 = s.claims
  here : s.frame.attemptOrdinal.getD 0 = s.claimsHere
  launches : s.launches ≤ s.claims
  launchesHere : s.launchesHere ≤ s.claimsHere
  claimed : s.kind = .claimed → s.launches < s.claims ∧ s.launchesHere < s.claimsHere
  ordinal : (s.activations : Int) ≤ s.frame.activationOrdinal.getD 0
  registered : s.wasRegistered = true → s.frame.activationOrdinal = some (s.activations : Int)
  totalBudget : ∀ n, job.retryPolicy.maximumTotalAttempts = some n → (s.claims : Int) ≤ n
  attemptBudget : ∀ n, job.retryPolicy.maximumAttemptsPerActivation = some n →
    (s.claimsHere : Int) ≤ n
  activationBudget : ∀ n, job.retryPolicy.maximumActivations = some n →
    s.frame.activationOrdinal.getD 0 ≤ n

/-! ## What a step counts -/

theorem counts_after (jobId : PyStr) (hsame : moved.frame.activationId = s.frame.activationId)
    (hclaims : ¬(s.kind = .ready ∧ moved.kind = .claimed))
    (hlaunches : ¬(s.kind = .claimed ∧ moved.kind = .running)) (hrelease : step.isRelease = false) :
    (s.after jobId step moved).activations = s.activations ∧ (s.after jobId step moved).claims = s.claims
      ∧ (s.after jobId step moved).claimsHere = s.claimsHere
      ∧ (s.after jobId step moved).launches = s.launches
      ∧ (s.after jobId step moved).launchesHere = s.launchesHere := by
  simp [JobState.after, hsame, hclaims, hlaunches, hrelease]

theorem counts_after_begin (jobId : PyStr) (hother : moved.frame.activationId ≠ s.frame.activationId)
    (hclaims : ¬(s.kind = .ready ∧ moved.kind = .claimed))
    (hlaunches : ¬(s.kind = .claimed ∧ moved.kind = .running)) (hrelease : step.isRelease = false) :
    (s.after jobId step moved).activations = s.activations + 1 ∧ (s.after jobId step moved).claims = s.claims
      ∧ (s.after jobId step moved).claimsHere = 0
      ∧ (s.after jobId step moved).launches = s.launches
      ∧ (s.after jobId step moved).launchesHere = 0 := by
  simp [JobState.after, hother, hclaims, hlaunches, hrelease]

theorem activationId_of_get {frame base : StateFrame} (h : frame.get .activationId = base.get .activationId) :
    frame.activationId = base.activationId := by
  show frame.string .activationId = base.string .activationId
  unfold StateFrame.string
  rw [h]

/-- **A step that keeps the counts**, and neither claims nor launches. -/
theorem Counted.keeps (hs : Counted job s) (hrelease : step.isRelease = false)
    (hregister : step.isRegister = false) (hframe : Keeps s.frame moved.frame)
    (hkind : moved.kind ∈ [StateKind.submitted, .claimed, .running] → moved.kind = s.kind) :
    Counted job (s.after jobId step moved) := by
  have hstays : ∀ kind ∈ [StateKind.submitted, .claimed, .running], moved.kind = kind →
      s.kind = kind := fun kind hmem h => ((hkind (h ▸ hmem)).symm.trans h)
  have hclaims : ¬(s.kind = .ready ∧ moved.kind = .claimed) := by
    rintro ⟨hready, hclaimed⟩
    cases hready.symm.trans (hstays _ (by decide) hclaimed)
  have hlaunches : ¬(s.kind = .claimed ∧ moved.kind = .running) := by
    rintro ⟨hclaimed, hrunning⟩
    cases hclaimed.symm.trans (hstays _ (by decide) hrunning)
  obtain ⟨hact, hcl, hclHere, hl, hlHere⟩ :=
    counts_after jobId hframe.activationId hclaims hlaunches hrelease
  have hregistered : (s.after jobId step moved).wasRegistered = s.wasRegistered := by
    simp [JobState.after, hregister]
  constructor
  · intro id hid
    exact List.mem_append_right _ (hs.issued id (hframe.activationId ▸ hid))
  · intro hsubmitted
    have hold := hs.submitted (hstays _ (by decide) hsubmitted)
    rw [hact, hcl, hclHere, hl, hlHere, hregistered, after_frame, hframe.activationId]
    exact hold
  · rw [hcl, after_frame, hframe.totalAttempts]
    exact hs.total
  · rw [hclHere, after_frame, hframe.attemptOrdinal]
    exact hs.here
  · rw [hl, hcl]
    exact hs.launches
  · rw [hlHere, hclHere]
    exact hs.launchesHere
  · intro hclaimed
    rw [hl, hcl, hlHere, hclHere]
    exact hs.claimed (hstays _ (by decide) hclaimed)
  · rw [hact, after_frame, hframe.activationOrdinal]
    exact hs.ordinal
  · rw [hregistered, hact, after_frame, hframe.activationOrdinal]
    exact hs.registered
  · rw [hcl]
    exact hs.totalBudget
  · rw [hclHere]
    exact hs.attemptBudget
  · rw [after_frame, hframe.activationOrdinal]
    exact hs.activationBudget

theorem Counted.refuses (hs : Counted job s) (hplain : step.Plain) (hfrom : s.kind = .submitted)
    (hkind : moved.kind = .failed) (hframe : ∀ m ∈ countingMembers, moved.frame.get m = none) :
    Counted job (s.after jobId step moved) := by
  obtain ⟨hnone, hregistered, hclaims, hhere, hlaunches, hlaunchesHere, hactivations⟩ :=
    hs.submitted hfrom
  have hid : moved.frame.activationId = none := by
    show moved.frame.string .activationId = none
    unfold StateFrame.string
    rw [hframe _ (by decide)]
  have hinteger : ∀ m ∈ countingMembers, moved.frame.integer m = none := by
    intro m hm
    unfold StateFrame.integer
    rw [hframe m hm]
  have htotal : moved.frame.totalAttempts = none := hinteger _ (by decide)
  have hattempts : moved.frame.attemptOrdinal = none := hinteger _ (by decide)
  have hordinal : moved.frame.activationOrdinal = none := hinteger _ (by decide)
  obtain ⟨hact, hcl, hclHere, hl, hlHere⟩ := counts_after jobId (hid.trans hnone.symm)
    (fun h => by simp [hkind] at h) (fun h => by simp [hkind] at h) hplain.release
  have hstill : (s.after jobId step moved).wasRegistered = false := by
    simp [JobState.after, hplain.register, hregistered]
  constructor
  · intro id h
    rw [after_frame, hid] at h
    cases h
  · intro h
    rw [after_kind, hkind] at h
    cases h
  · simp [hcl, hclaims, htotal]
  · simp [hclHere, hhere, hattempts]
  · rw [hl, hcl]
    exact hs.launches
  · rw [hlHere, hclHere]
    exact hs.launchesHere
  · intro h
    rw [after_kind, hkind] at h
    cases h
  · simp [hact, hactivations, hordinal]
  · intro h
    rw [hstill] at h
    cases h
  · rw [hcl]
    exact hs.totalBudget
  · rw [hclHere]
    exact hs.attemptBudget
  · intro n hn
    have hone := job.retryPolicy.one_le_activations n hn
    simp only [after_frame, hordinal, Option.getD_none]
    omega

variable {freshId : PyStr}

theorem Counted.registers (hs : Counted job s) (hid : freshId.codes ≠ [])
    (hfrom : s.kind = .submitted) (hkind : moved.kind = .ready ∨ moved.kind = .paused)
    (hframe : Registers freshId moved.frame) :
    Counted job (s.after jobId (.register freshId : JobStep σ) moved) := by
  obtain ⟨hnone, hregistered, hclaims, hhere, hlaunches, hlaunchesHere, hactivations⟩ :=
    hs.submitted hfrom
  have hactivation : moved.frame.activationId = some freshId :=
    StateFrame.string_of_get hframe.activationId hid
  have htotal : moved.frame.totalAttempts = some 0 := StateFrame.integer_of_get hframe.totalAttempts
  have hattempts : moved.frame.attemptOrdinal = some 0 :=
    StateFrame.integer_of_get hframe.attemptOrdinal
  have hordinal : moved.frame.activationOrdinal = some 1 :=
    StateFrame.integer_of_get hframe.activationOrdinal
  have hother : moved.frame.activationId ≠ s.frame.activationId := by
    simp [hactivation, hnone]
  obtain ⟨hact, hcl, hclHere, hl, hlHere⟩ := counts_after_begin jobId hother
    (fun h => by simp [hfrom] at h) (fun h => by simp [hfrom] at h)
    (show (JobStep.register freshId : JobStep σ).isRelease = false from rfl)
  constructor
  · intro id h
    rw [after_frame, hactivation] at h
    rw [← Option.some.inj h]
    exact List.mem_append_left _ (Option.mem_toList.mpr rfl)
  · intro h
    rcases hkind with hkind | hkind <;> simp [hkind] at h
  · simp [hcl, hclaims, htotal]
  · simp [hclHere, hattempts]
  · omega
  · omega
  · intro h
    rcases hkind with hkind | hkind <;> simp [hkind] at h
  · simp [hact, hactivations, hordinal]
  · simp [hact, hactivations, hordinal]
  · rw [hcl]
    exact hs.totalBudget
  · intro n hn
    have hone := job.retryPolicy.one_le_attempts n hn
    omega
  · intro n hn
    have hone := job.retryPolicy.one_le_activations n hn
    simp only [after_frame, hordinal, Option.getD_some]
    exact hone

theorem Counted.claims {attemptId : PyStr} (hs : Counted job s) (hplain : step.Plain)
    (hfrom : s.kind = .ready) (hkind : moved.kind = .claimed)
    (hframe : Claims job attemptId s.frame moved.frame) :
    Counted job (s.after jobId step moved) := by
  have hactivation := activationId_of_get hframe.activationId
  have hordinal : moved.frame.activationOrdinal = s.frame.activationOrdinal :=
    StateFrame.integer_congr hframe.activationOrdinal
  have htotal : moved.frame.totalAttempts = some (s.frame.totalAttempts.getD 0 + 1) :=
    StateFrame.integer_of_get hframe.totalAttempts
  have hattempts : moved.frame.attemptOrdinal = some (s.frame.attemptOrdinal.getD 0 + 1) :=
    StateFrame.integer_of_get hframe.attemptOrdinal
  have hsubmitted : ∀ h : s.kind = .submitted, False := fun h => by simp [hfrom] at h
  have hcounts : (s.after jobId step moved).activations = s.activations
      ∧ (s.after jobId step moved).claims = s.claims + 1
      ∧ (s.after jobId step moved).claimsHere = s.claimsHere + 1
      ∧ (s.after jobId step moved).launches = s.launches
      ∧ (s.after jobId step moved).launchesHere = s.launchesHere
      ∧ (s.after jobId step moved).wasRegistered = s.wasRegistered := by
    simp [JobState.after, hactivation, hfrom, hkind, hplain.release, hplain.register]
  obtain ⟨hact, hcl, hclHere, hl, hlHere, hregistered⟩ := hcounts
  have hold := hs.total
  have holdHere := hs.here
  have hbound := hs.launches
  have hboundHere := hs.launchesHere
  constructor
  · intro id h
    exact List.mem_append_right _ (hs.issued id (hactivation ▸ h))
  · intro h
    simp [hkind] at h
  · simp [hcl, htotal, hold]
  · simp [hclHere, hattempts, holdHere]
  · omega
  · omega
  · intro _
    omega
  · rw [hact, after_frame, hordinal]
    exact hs.ordinal
  · rw [hregistered, hact, after_frame, hordinal]
    exact hs.registered
  · intro n hn
    have hbudget := hframe.totalBudget n hn
    omega
  · intro n hn
    have hbudget := hframe.attemptBudget n hn
    omega
  · rw [after_frame, hordinal]
    exact hs.activationBudget

theorem release_count {count : Option Int} {n : Nat} (h : count.getD 0 = n) (hn : 0 < n) :
    max 0 (count.getD 1 - 1) = ((n - 1 : Nat) : Int) := by
  cases count with
  | none =>
    simp only [Option.getD_none] at h
    omega
  | some c =>
    simp only [Option.getD_some] at h ⊢
    omega

theorem Counted.releases {reason : PyStr} (hs : Counted job s) (hfrom : s.kind = .claimed)
    (hkind : moved.kind = .ready ∨ moved.kind = .paused) (hframe : Releases s.frame moved.frame) :
    Counted job (s.after jobId (.release reason : JobStep σ) moved) := by
  obtain ⟨hlaunched, hlaunchedHere⟩ := hs.claimed hfrom
  have hactivation := activationId_of_get hframe.activationId
  have hordinal : moved.frame.activationOrdinal = s.frame.activationOrdinal :=
    StateFrame.integer_congr hframe.activationOrdinal
  have htotal : moved.frame.totalAttempts = some ((s.claims - 1 : Nat) : Int) := by
    rw [← release_count hs.total (by omega)]
    exact StateFrame.integer_of_get hframe.totalAttempts
  have hattempts : moved.frame.attemptOrdinal = some ((s.claimsHere - 1 : Nat) : Int) := by
    rw [← release_count hs.here (by omega)]
    exact StateFrame.integer_of_get hframe.attemptOrdinal
  have hcounts : (s.after jobId (.release reason : JobStep σ) moved).activations = s.activations
      ∧ (s.after jobId (.release reason : JobStep σ) moved).claims = s.claims - 1
      ∧ (s.after jobId (.release reason : JobStep σ) moved).claimsHere = s.claimsHere - 1
      ∧ (s.after jobId (.release reason : JobStep σ) moved).launches = s.launches
      ∧ (s.after jobId (.release reason : JobStep σ) moved).launchesHere = s.launchesHere
      ∧ (s.after jobId (.release reason : JobStep σ) moved).wasRegistered = s.wasRegistered := by
    rcases hkind with hkind | hkind <;>
      simp [JobState.after, hactivation, hfrom, hkind, JobStep.isRelease, JobStep.isRegister]
  obtain ⟨hact, hcl, hclHere, hl, hlHere, hregistered⟩ := hcounts
  constructor
  · intro id h
    exact List.mem_append_right _ (hs.issued id (hactivation ▸ h))
  · intro h
    rcases hkind with hkind | hkind <;> simp [hkind] at h
  · simp [hcl, htotal]
  · simp [hclHere, hattempts]
  · omega
  · omega
  · intro h
    rcases hkind with hkind | hkind <;> simp [hkind] at h
  · rw [hact, after_frame, hordinal]
    exact hs.ordinal
  · rw [hregistered, hact, after_frame, hordinal]
    exact hs.registered
  · intro n hn
    have hbudget := hs.totalBudget n hn
    omega
  · intro n hn
    have hbudget := hs.attemptBudget n hn
    omega
  · rw [after_frame, hordinal]
    exact hs.activationBudget

theorem Counted.launched (hs : Counted job s) (hplain : step.Plain) (hfrom : s.kind = .claimed)
    (hkind : moved.kind = .running) (hframe : Keeps s.frame moved.frame) :
    Counted job (s.after jobId step moved) := by
  obtain ⟨hlaunched, hlaunchedHere⟩ := hs.claimed hfrom
  have hcounts : (s.after jobId step moved).activations = s.activations ∧ (s.after jobId step moved).claims = s.claims
      ∧ (s.after jobId step moved).claimsHere = s.claimsHere
      ∧ (s.after jobId step moved).launches = s.launches + 1
      ∧ (s.after jobId step moved).launchesHere = s.launchesHere + 1
      ∧ (s.after jobId step moved).wasRegistered = s.wasRegistered := by
    simp [JobState.after, hframe.activationId, hfrom, hkind, hplain.release, hplain.register]
  obtain ⟨hact, hcl, hclHere, hl, hlHere, hregistered⟩ := hcounts
  constructor
  · intro id h
    exact List.mem_append_right _ (hs.issued id (hframe.activationId ▸ h))
  · intro h
    simp [hkind] at h
  · rw [hcl, after_frame, hframe.totalAttempts]
    exact hs.total
  · rw [hclHere, after_frame, hframe.attemptOrdinal]
    exact hs.here
  · omega
  · omega
  · intro h
    simp [hkind] at h
  · rw [hact, after_frame, hframe.activationOrdinal]
    exact hs.ordinal
  · rw [hregistered, hact, after_frame, hframe.activationOrdinal]
    exact hs.registered
  · rw [hcl]
    exact hs.totalBudget
  · rw [hclHere]
    exact hs.attemptBudget
  · rw [after_frame, hframe.activationOrdinal]
    exact hs.activationBudget

theorem Counted.begins (hs : Counted job s) (hplain : step.Plain)
    (hfresh : step.fresh = some freshId) (hnew : freshId ∉ s.issued ∧ freshId.codes ≠ [])
    (hfrom : s.kind ∈ [StateKind.committing, .waiting, .failed, .paused])
    (hkind : moved.kind = .ready ∨ moved.kind = .paused)
    (hframe : Begins job freshId s.frame moved.frame) :
    Counted job (s.after jobId step moved) := by
  have hactivation : moved.frame.activationId = some freshId :=
    StateFrame.string_of_get hframe.activationId hnew.2
  have hordinal : moved.frame.activationOrdinal = some (s.frame.activationOrdinal.getD 1 + 1) :=
    StateFrame.integer_of_get hframe.activationOrdinal
  have htotal : moved.frame.totalAttempts = s.frame.totalAttempts :=
    StateFrame.integer_congr hframe.totalAttempts
  have hattempts : moved.frame.attemptOrdinal = some 0 :=
    StateFrame.integer_of_get hframe.attemptOrdinal
  have hother : moved.frame.activationId ≠ s.frame.activationId := by
    rw [hactivation]
    exact fun h => hnew.1 (hs.issued freshId h.symm)
  obtain ⟨hact, hcl, hclHere, hl, hlHere⟩ := counts_after_begin jobId hother
    (fun h => by simp [h.1] at hfrom) (fun h => by simp [h.1] at hfrom) hplain.release
  have hregistered : (s.after jobId step moved).wasRegistered = s.wasRegistered := by
    simp [JobState.after, hplain.register]
  have hbound := hs.ordinal
  have hlaunches := hs.launches
  constructor
  · intro id h
    rw [after_frame, hactivation] at h
    rw [← Option.some.inj h]
    exact List.mem_append_left _ (Option.mem_toList.mpr hfresh)
  · intro h
    rcases hkind with hkind | hkind <;> simp [hkind] at h
  · rw [hcl, after_frame, htotal]
    exact hs.total
  · simp [hclHere, hattempts]
  · omega
  · omega
  · intro h
    rcases hkind with hkind | hkind <;> simp [hkind] at h
  · rw [hact, after_frame, hordinal, Option.getD_some]
    cases hbase : s.frame.activationOrdinal with
    | none =>
      rw [hbase, Option.getD_none] at hbound
      simp only [Option.getD_none]
      omega
    | some n =>
      rw [hbase, Option.getD_some] at hbound
      simp only [Option.getD_some]
      omega
  · intro h
    rw [hact, after_frame, hordinal, hs.registered (hregistered ▸ h), Option.getD_some]
    rfl
  · rw [hcl]
    exact hs.totalBudget
  · intro n hn
    have hone := job.retryPolicy.one_le_attempts n hn
    omega
  · intro n hn
    have hbudget := hframe.budget n hn
    simp only [after_frame, hordinal, Option.getD_some]
    exact hbudget

/-- **A step keeps the counts.** -/
theorem Counted.next (hs : Counted job s) (hfresh : ∀ id, step.fresh = some id → id ∉ s.issued ∧ id.codes ≠ [])
    (heffect : Effect job s step moved) : Counted job (s.after jobId step moved) := by
  cases heffect with
  | keeps hplain hframe hkind =>
    refine hs.keeps hplain.release hplain.register hframe fun hmem => hkind ?_
    revert hmem
    cases moved.kind <;> decide
  | refuses hplain hfrom hkind hframe => exact hs.refuses hplain hfrom hkind hframe
  | registers freshId hstep hfrom hkind hframe =>
    subst hstep
    exact hs.registers (hfresh freshId rfl).2 hfrom hkind hframe
  | claims hplain attemptId hid hfrom hkind hframe => exact hs.claims hplain hfrom hkind hframe
  | releases reason hstep hfrom hkind hframe =>
    subst hstep
    exact hs.releases hfrom hkind hframe
  | launches hplain hfrom hkind hframe => exact hs.launched hplain hfrom hkind hframe
  | fences hstep hplain hfrom hkind hframe =>
    refine hs.keeps hplain.1 hplain.2 hframe fun hmem => ?_
    rw [hkind] at hmem
    exact absurd hmem (by decide)
  | begins hplain freshId hid hfrom hkind hframe =>
    exact hs.begins hplain hid (hfresh freshId hid) hfrom hkind hframe

theorem counted_of_reachable (hs : (jobRuns (σ := σ) env job jobId).Reachable s) :
    Counted job s := by
  refine hs.invariant ?_ ?_
  · rintro s ⟨priority, rfl⟩
    refine ⟨fun id h => (by cases h), fun _ => ⟨rfl, rfl, rfl, rfl, rfl, rfl, rfl⟩, rfl, rfl, ?_, ?_,
      fun h => (by cases h), Int.le_refl 0, fun h => (by cases h), fun n hn => ?_, fun n hn => ?_,
      fun n hn => ?_⟩
    · exact Nat.le_refl 0
    · exact Nat.le_refl 0
    · exact Int.le_trans (Int.zero_le_ofNat 1) (job.retryPolicy.one_le_total n hn)
    · exact Int.le_trans (Int.zero_le_ofNat 1) (job.retryPolicy.one_le_attempts n hn)
    · exact Int.le_trans (Int.zero_le_ofNat 1) (job.retryPolicy.one_le_activations n hn)
  · intro s a s' hs hcounted hnext
    obtain ⟨move, moved, hfresh, -, -, heffect, rfl⟩ := effect_of_next hs hnext
    exact hcounted.next hfresh heffect

/-! ## The budgets -/

/-- **The budgets of a job are kept** in a state: the launches stay within them,
and the ordinals of the frame are the numbers of claims that were not given
back, all together and in the current activation, and of the activations of a
registered job. -/
structure WithinBudgets (job : JobDefinition) (s : JobState) : Prop where
  totalAttempts : ∀ n, job.retryPolicy.maximumTotalAttempts = some n → (s.launches : Int) ≤ n
  attempts : ∀ n, job.retryPolicy.maximumAttemptsPerActivation = some n → (s.launchesHere : Int) ≤ n
  activations : ∀ n, job.retryPolicy.maximumActivations = some n → (s.activations : Int) ≤ n
  totalCount : s.frame.totalAttempts.getD 0 = s.claims
  attemptCount : s.frame.attemptOrdinal.getD 0 = s.claimsHere
  activationCount : s.wasRegistered = true → s.frame.activationOrdinal.getD 0 = s.activations
  launched : s.launches ≤ s.claims ∧ s.launchesHere ≤ s.claimsHere

theorem release_restores {reason : PyStr} {reread : Bool} (hs : (jobRuns (σ := σ) env job jobId).Reachable s)
    (h : jobNext env job jobId s ((.release reason : JobStep σ), reread) = some s') :
    s'.frame.totalAttempts.getD 0 = s.frame.totalAttempts.getD 0 - 1
      ∧ s'.frame.attemptOrdinal.getD 0 = s.frame.attemptOrdinal.getD 0 - 1
      ∧ s'.launches = s.launches ∧ s'.launchesHere = s.launchesHere := by
  have hcounted := counted_of_reachable hs
  obtain ⟨move, moved, -, ⟨hfrom, rfl⟩, hwrites, -, rfl⟩ := effect_of_next hs h
  obtain ⟨hlaunched, hlaunchedHere⟩ := hcounted.claimed hfrom
  have hframe := (releaseMove_releases s.frame reason).keeps hwrites.keeps.1
  have htotal := StateFrame.integer_of_get hframe.totalAttempts
  have hattempts := StateFrame.integer_of_get hframe.attemptOrdinal
  rw [release_count hcounted.total (by omega)] at htotal
  rw [release_count hcounted.here (by omega)] at hattempts
  have hnot : moved.kind ≠ .running := by
    rcases hwrites.ready rfl with hkind | hkind <;> simp [hkind]
  refine ⟨?_, ?_, ?_, ?_⟩
  · show (moved.frame.integer .totalAttempts).getD 0 = _
    rw [htotal, hcounted.total, Option.getD_some]
    omega
  · show (moved.frame.integer .attemptOrdinal).getD 0 = _
    rw [hattempts, hcounted.here, Option.getD_some]
    omega
  · simp [JobState.after, hnot]
  · simp [JobState.after, hnot, activationId_of_get hframe.activationId]

/-- **The budgets hold in every run**, and a claim that is given back consumes
no attempt. -/
theorem within_budgets (hs : (jobRuns (σ := σ) env job jobId).Reachable s) :
    WithinBudgets job s
      ∧ ∀ reason reread s',
        jobNext env job jobId s ((.release reason : JobStep σ), reread) = some s' →
        s'.frame.totalAttempts.getD 0 = s.frame.totalAttempts.getD 0 - 1
          ∧ s'.frame.attemptOrdinal.getD 0 = s.frame.attemptOrdinal.getD 0 - 1
          ∧ s'.launches = s.launches ∧ s'.launchesHere = s.launchesHere := by
  have hcounted := counted_of_reachable hs
  refine ⟨⟨fun n hn => ?_, fun n hn => ?_, fun n hn => ?_, hcounted.total, hcounted.here,
    fun h => ?_, hcounted.launches, hcounted.launchesHere⟩,
    fun reason reread s' hnext => release_restores hs hnext⟩
  · have hbudget := hcounted.totalBudget n hn
    have hlaunches := hcounted.launches
    omega
  · have hbudget := hcounted.attemptBudget n hn
    have hlaunches := hcounted.launchesHere
    omega
  · exact Int.le_trans hcounted.ordinal (hcounted.activationBudget n hn)
  · rw [hcounted.registered h]
    rfl

def RetryPolicy.once : RetryPolicy where
  maximumAttemptsPerActivation := some 1
  maximumTotalAttempts := some 1
  maximumActivations := some 1
  retryOn := []
  one_le_attempts _ h := Option.some.inj h ▸ Int.le_refl 1
  one_le_total _ h := Option.some.inj h ▸ Int.le_refl 1
  one_le_activations _ h := Option.some.inj h ▸ Int.le_refl 1

def givenBackRun : List (JobStep PUnit) :=
  [.register "a1", plainClaim "t1", .release "maintenance_lock", plainClaim "t2", plainLaunch]

/-- A job with one attempt is launched after a claim that was given back. -/
theorem within_budgets_givenBack : ∃ s,
    (jobRuns (σ := PUnit) plainJoinEnv { plainJob with retryPolicy := .once } "job").Reachable s
      ∧ s.launches = 1 ∧ WithinBudgets { plainJob with retryPolicy := .once } s := by
  have hrun : (plainRun { plainJob with retryPolicy := .once } givenBackRun).map JobState.launches
      = some 1 := by
    decide +kernel
  obtain ⟨s, hs, hlaunches⟩ := Option.map_eq_some_iff.mp hrun
  exact ⟨s, reachable_of_plainRun hs, hlaunches, (within_budgets (reachable_of_plainRun hs)).1⟩

/-- **An attempt that was never launched counts**: it was claimed, and could not
be prepared. -/
theorem attempts_unlaunched : ∃ s, (jobRuns (σ := PUnit) plainJoinEnv plainJob "job").Reachable s
    ∧ s.frame.totalAttempts = some 1 ∧ s.launches = 0 := by
  have hrun : (plainRun plainJob [.register "a1", plainClaim "t1",
      .fail "process_failure" [.lit "cannot prepare attempt"] none]).map
        (fun s => (s.frame.totalAttempts, s.launches)) = some (some 1, 0) := by
    decide +kernel
  obtain ⟨s, hs, hcounts⟩ := Option.map_eq_some_iff.mp hrun
  obtain ⟨htotal, hlaunches⟩ := Prod.mk.inj hcounts
  exact ⟨s, reachable_of_plainRun hs, htotal, hlaunches⟩
