import HttkWorkflow.AttemptBudgets
import HttkWorkflow.DeferredPause

/-!
# The evidence of an unclean restart

A runner is told in its context whether the attempt before it ended without
a committed outcome, so that it does not take a half-written workdir for a
clean one. The manager takes that from the ready frame it claimed: a retry
writes `unclean_restart` into it, and no other transition does.

The member is not one of those that are carried. A claim that is given back
rebuilds the ready frame without it, and so does a new priority; and a job
that is continued after a pause or a failure is declared clean whatever its
last attempt came to. `evidence_released` is a run that loses it. The
evidence is right in the runs that take none of these steps while it is due
(`KeepsEvidence`, `restart_evidence`).
-/

variable {σ : Type} {env : JoinEnv} {job : JobDefinition} {jobId : PyStr}
variable {s s' : JobState} {step : JobStep σ} {state progress : StateFrame} {move moved : Move}

/-! ## The context of an attempt -/

/-- **What the context of an attempt says of the attempt before it.** -/
structure AttemptContext where
  isRestart : Bool
  isUncleanRestart : Bool
  attemptReason : PyStr
  previousAttemptId : Option PyStr
  activationReason : Option PyStr
  unsafePersistentTakeover : Bool

/-- The context of a launch, from the claimed frame and the ready frame that was
claimed. -/
def attemptContext (claimedState previousState : StateFrame) : AttemptContext where
  isRestart := decide (1 < claimedState.attemptOrdinal.getD 0)
  isUncleanRestart := previousState.flag .uncleanRestart
  attemptReason := claimedState.reason.getD "claim"
  previousAttemptId := previousState.attemptId
  activationReason := previousState.reason
  unsafePersistentTakeover := previousState.flag .unsafePersistentTakeover

/-- The two flags of a ready frame. -/
def evidenceOf (frame : StateFrame) : Bool × Bool :=
  (frame.flag .uncleanRestart, frame.flag .unsafePersistentTakeover)

theorem evidenceOf_congr {frame base : StateFrame} (h : frame.get .uncleanRestart = base.get .uncleanRestart)
    (h' : frame.get .unsafePersistentTakeover = base.get .unsafePersistentTakeover) :
    evidenceOf frame = evidenceOf base := by
  unfold evidenceOf StateFrame.flag
  rw [h, h']

theorem evidenceOf_none {frame : StateFrame} (h : frame.get .uncleanRestart = none)
    (h' : frame.get .unsafePersistentTakeover = none) : evidenceOf frame = (false, false) := by
  unfold evidenceOf StateFrame.flag
  rw [h, h']

/-! ## The true end of the last attempt -/

/-- **What the last launched attempt of an activation came to.** -/
inductive AttemptEnd where
  /-- It is still under way. -/
  | live
  | committed
  /-- It ended otherwise, possibly by an unsafe takeover of its workdir. -/
  | unclean (unsafeTakeover : Bool)
deriving DecidableEq

def evidenceDue : Option AttemptEnd → Bool × Bool
  | some (.unclean unsafeTakeover) => (true, unsafeTakeover)
  | _ => (false, false)

/-- Whether a takeover is admitted by the unsafe policy for persistent workdirs. -/
def isUnsafeTakeover (job : JobDefinition) (state : StateFrame) : JobStep σ → Bool
  | .takeover world =>
    match takeoverEvidence world job state with
    | .ok (some evidence) =>
      Json.optEqStr (Json.get evidence "evidence") "unsafe_persistent_takeover"
    | _ => false
  | _ => false

def JobStep.isApply : JobStep σ → Bool
  | .apply _ _ => true
  | _ => false

def launchedKinds : List StateKind := [.running, .committing]

/-- What is known of the last attempt of the activation after a step. -/
def watchAttempt (job : JobDefinition) (last : Option AttemptEnd) (s : JobState)
    (step : JobStep σ × Bool) (s' : JobState) : Option AttemptEnd :=
  if s'.frame.activationId ≠ s.frame.activationId then none
  else if s.kind = .claimed ∧ s'.kind = .running then some .live
  else if step.fst.isApply = true then some .committed
  else if s.kind ∈ launchedKinds ∧ s'.kind ∉ launchedKinds then
    some (.unclean (isUnsafeTakeover job s.frame step.fst))
  else last

def evidenceRuns (env : JoinEnv) (job : JobDefinition) (jobId : PyStr) :
    System (JobState × Option AttemptEnd) (JobStep σ × Bool) :=
  System.observed (fun s => ∃ priority, s = JobState.submitted priority) (jobNext env job jobId)
    none (watchAttempt job)

/-! ## The steps that lose or invent evidence -/

/-- Whether the budget of the activation allows another attempt. -/
def retryAllowed (job : JobDefinition) (state : StateFrame) : Bool :=
  !job.retryPolicy.maximumAttemptsPerActivation.any (state.attemptOrdinal.getD 1 ≥ ·)

/-- **A step that keeps the evidence**: none is due where a claim is given back, a
ready job gets a priority, or a job is continued; and where an attempt that
was not launched is retried, it is what that retry says. -/
def KeepsEvidence (job : JobDefinition) (p : JobState × Option AttemptEnd)
    (step : JobStep σ × Bool) : Prop :=
  match step.fst with
  | .release _ => p.fst.frame.pauseRequested = none → evidenceDue p.snd = (false, false)
  | .request asked =>
    (Json.optEqStr asked.action "set_priority" = true → p.fst.kind = .ready →
        evidenceDue p.snd = (false, false))
      ∧ (Json.optEqStr asked.action "continue" = true → retryAllowed job p.fst.frame = true →
        evidenceDue p.snd = (false, false))
  | .fail code _ _ =>
    p.fst.kind = .claimed → code ∈ job.retryPolicy.retryOn → retryAllowed job p.fst.frame = true →
      evidenceDue p.snd = (true, false)
  | _ => True

/-- The runs whose steps keep the evidence. -/
def keptEvidence (env : JoinEnv) (job : JobDefinition) (jobId : PyStr) :
    System (JobState × Option AttemptEnd) (JobStep σ × Bool) :=
  (evidenceRuns env job jobId).guarded (KeepsEvidence job)

/-- **The invariant of the evidence.** -/
structure Evident (s : JobState) (last : Option AttemptEnd) : Prop where
  ready : s.kind = .ready → evidenceOf s.frame = evidenceDue last
  pauseless : s.kind = .ready → s.frame.has .pauseRequested = false
  previous : ∀ previous, s.previousState = some previous → evidenceOf previous = evidenceDue last
  launched : s.kind ∈ launchedKinds → last = some .live

/-! ## What a transition writes -/

theorem settle_pauseless {reread : Option StateFrame} {source kind kind' : StateKind}
    {updates frame : StateFrame} (h : settle reread source kind updates = .ok (kind', frame))
    (hkind : kind' = .ready ∨ kind' = .waiting) : frame.has .pauseRequested = false := by
  have hretained : (updates.without [.pauseRequested]).has .pauseRequested = false := by
    simp [StateFrame.has]
  rcases settle_cases h with ⟨rfl, hframe⟩ | ⟨rfl, -⟩
  · rcases hframe with rfl | rfl
    · by_contra hhas
      rw [Bool.not_eq_false] at hhas
      unfold settle at h
      simp only [hhas, Bool.true_eq_false, and_false, if_false, hkind, and_self, if_true] at h
      split at h
      · split_ifs at h
        · cases h
        · rcases hkind with rfl | rfl <;> cases (Prod.mk.inj (Except.ok.inj h)).1
      · rw [(Prod.mk.inj (Except.ok.inj h)).2, hhas] at hretained
        cases hretained
    · exact hretained
  · rcases hkind with hkind | hkind <;> cases hkind

variable {kind : StateKind}

theorem Writes.pauseless (h : Writes env kind move moved)
    (hkind : moved.kind = .ready) : moved.frame.has .pauseRequested = false := by
  obtain ⟨reread, hsettle⟩ := h.settled
  exact settle_pauseless hsettle (Or.inl hkind)

theorem Writes.evidence (h : Writes env kind move moved) : evidenceOf moved.frame = evidenceOf move.frame :=
  evidenceOf_congr (h.get (by decide)) (h.get (by decide))

/-! ## The evidence in a ready frame -/

/-- A frame without either member. -/
structure Unmarked (frame : StateFrame) : Prop where
  unclean : frame.get .uncleanRestart = none
  takeover : frame.get .unsafePersistentTakeover = none

namespace Unmarked

variable {frame : StateFrame}

theorem evidence (h : Unmarked frame) : evidenceOf frame = (false, false) :=
  evidenceOf_none h.unclean h.takeover

theorem carried (state : StateFrame) : Unmarked state.carried := by
  constructor <;> rw [StateFrame.get_carried, if_neg (by decide)]

theorem congr {frame base : StateFrame} (h : Unmarked base)
    (hget : ∀ m ∈ [Member.uncleanRestart, .unsafePersistentTakeover], frame.get m = base.get m) :
    Unmarked frame :=
  ⟨(hget _ (by decide)).trans h.unclean, (hget _ (by decide)).trans h.takeover⟩

theorem replace {written : List (Member × Json)} (h : Unmarked frame)
    (hother : ∀ m ∈ [Member.uncleanRestart, .unsafePersistentTakeover], m ∉ written.map Prod.fst) :
    Unmarked (frame.replace written) :=
  h.congr fun m hm => StateFrame.get_replace_other (hother m hm) frame

variable {request : OperatorRequest}

theorem audit (h : Unmarked frame) : Unmarked (audited frame request) := by
  have hnamed : Unmarked (frame.replace [(.operator, request.operator),
      (.operatorReason, request.reason), (.requestId, request.requestId)]) := h.replace (by simp)
  unfold audited
  cases request.operatorKey with
  | none => exact hnamed
  | some key => exact hnamed.replace (by simp)

theorem hazard (h : Unmarked frame) : Unmarked (withHazard frame request) := by
  unfold withHazard
  cases request.hazard with
  | none => exact h
  | some hazard => exact h.replace (by simp)

theorem ofProgress {generation : Option Int} {steps : Option Json} :
    Unmarked (progressOf state generation steps) := by
  have hbase : Unmarked (state.carried.replace [(.dataGeneration, (generation.map Json.int).getD .null)]) :=
    (Unmarked.carried state).replace (by simp)
  unfold progressOf
  cases steps with
  | none => exact hbase
  | some steps => exact hbase.replace (by simp)

theorem advance {cenv : CommitEnv} {nextStep freshId : PyStr} {reason : String}
    {joinSummary resources : Json} {priority : Option Int} (h : Unmarked progress)
    (hmove : advance cenv job state progress nextStep freshId reason joinSummary resources priority
      = .ok move) : Unmarked move.frame :=
  h.congr fun m hm => advance_keeps (by revert m; decide) hmove

end Unmarked

variable {cenv : CommitEnv} {priority : Option Int}

variable {reason : PyStr} {unclean : Bool}

/-- **A retry** writes the evidence it is given. -/
theorem retry_evidence {evidence : Option (List (PyStr × Json))}
    (h : retry cenv job state progress reason unclean evidence priority = .ok move)
    (hkind : move.kind = .ready) :
    evidenceOf move.frame = (unclean,
      Json.optEqStr (Json.get (evidence.getD []) "evidence") "unsafe_persistent_takeover")
      ∧ retryAllowed job state = true := by
  unfold retry at h
  obtain ⟨retained, -, h⟩ := bind_eq_ok.mp h
  simp only at h
  split_ifs at h with hbudget
  · rw [← Except.ok.inj h] at hkind
    cases hkind
  · rw [← Except.ok.inj h]
    refine ⟨?_, by simpa [retryAllowed] using hbudget⟩
    cases evidence with
    | none => simp [evidenceOf, StateFrame.flag]
    | some evidence =>
      rw [evidenceOf_congr (StateFrame.get_replace_other (by simp) _) (StateFrame.get_replace_other (by simp) _)]
      simp [evidenceOf, StateFrame.flag]

theorem advance_ready {nextStep freshId : PyStr} {reason : String}
    {joinSummary resources : Json} (hprogress : Unmarked progress)
    (h : advance cenv job state progress nextStep freshId reason joinSummary resources priority
      = .ok move) (hkind : move.kind = .ready) :
    evidenceOf move.frame = (false, false) ∧ move.frame.get .activationId = some (.str freshId) := by
  refine ⟨(hprogress.advance h).evidence, ?_⟩
  unfold advance at h
  obtain ⟨retained, -, h⟩ := bind_eq_ok.mp h
  simp only at h
  split_ifs at h
  · rw [← Except.ok.inj h] at hkind
    cases hkind
  · rw [← Except.ok.inj h]
    simp

theorem retry_clean (h : retry cenv job state progress reason false none priority = .ok move)
    (hkind : move.kind = .ready) : evidenceOf move.frame = (false, false) :=
  (retry_evidence h hkind).1

theorem outcomeMove_ready {priority : Int} {outcome : List (PyStr × Json)}
    {generation : Option Int} {labels : Except Exc (List (PyStr × PyStr))} {freshId : PyStr}
    (h : outcomeMove cenv job priority state outcome generation labels freshId = .ok move)
    (hkind : move.kind = .ready) : evidenceOf move.frame = (false, false) := by
  obtain ⟨steps, progress, hretained, hasks⟩ := asks_of_outcomeMove h
  have hprogress : Unmarked progress := Unmarked.ofProgress.congr fun m hm =>
    get_retained (by revert m; decide) hretained
  cases hasks with
  | advances _ _ h => exact (advance_ready hprogress h hkind).1
  | retries _ h => exact retry_clean h hkind
  | waits => cases hkind
  | ends _ _ hends _ => rcases hends with rfl | rfl <;> cases hkind
  | pauses => cases hkind

theorem attemptFailureMove_ready {code : PyStr} {message : Message}
    {exitStatus : Option Int} {evidence : Option (List (PyStr × Json))}
    (h : attemptFailureMove cenv job state code message exitStatus unclean evidence = .ok move)
    (hkind : move.kind = .ready) :
    evidenceOf move.frame = (unclean,
        Json.optEqStr (Json.get (evidence.getD []) "evidence") "unsafe_persistent_takeover")
      ∧ code ∈ job.retryPolicy.retryOn ∧ retryAllowed job state = true := by
  unfold attemptFailureMove at h
  split_ifs at h with hcode
  · obtain ⟨hevidence, hallowed⟩ := retry_evidence h hkind
    exact ⟨hevidence, hcode, hallowed⟩
  · rw [← Except.ok.inj h] at hkind
    cases hkind

theorem takeoverMove_ready {world : TakeoverWorld}
    (h : takeoverMove cenv world job state = .ok (some move)) (hkind : move.kind = .ready) :
    evidenceOf move.frame = (true, isUnsafeTakeover job state (.takeover world : JobStep σ)) := by
  obtain ⟨evidence, hevidence, h⟩ := failure_of_takeover h
  rw [(attemptFailureMove_ready h hkind).1]
  simp [isUnsafeTakeover, hevidence]

theorem applyRequest_ready {request : OperatorRequest}
    (h : applyRequest cenv job kind state request = .ok (some move)) (hkind : move.kind = .ready) :
    evidenceOf move.frame = (false, false) ∧ ((Json.optEqStr request.action "set_priority" = true ∧ kind = .ready)
        ∨ (Json.optEqStr request.action "continue" = true ∧ retryAllowed job state = true
          ∧ (kind = .failed ∨ kind = .paused))
        ∨ move.frame.get .activationId = some (.str request.freshId)) := by
  have hbase : Unmarked (audited state.carried request) := (Unmarked.carried state).audit
  cases requestAsks_of_apply h with
  | cancels _ _ h => rcases requestCancel_ends h with hmove | hmove <;> cases hkind.symm.trans hmove
  | prioritizes _ haction _ =>
    refine ⟨((hbase.congr fun m hm => StateFrame.get_replace_other ?_ _).replace (by simp)).evidence,
      Or.inl ⟨haction, hkind⟩⟩
    intro hmem
    have hname := StateFrame.mem_of_mem_select hmem
    revert hm hname
    cases m <;> decide
  | records _ hfrom =>
    have hkind : kind = .ready := hkind
    exact absurd hfrom (by rw [hkind]; decide)
  | pauses => cases hkind
  | revives _ hfrom h =>
    rcases revive_cases h with ⟨hcontinue, h⟩ | ⟨name, h⟩
    · obtain ⟨hevidence, hallowed⟩ := retry_evidence h hkind
      exact ⟨hevidence, Or.inr (Or.inl ⟨hcontinue, hallowed, hfrom⟩)⟩
    · obtain ⟨hevidence, hid⟩ := advance_ready hbase.hazard h hkind
      exact ⟨hevidence, Or.inr (Or.inr hid)⟩

theorem joinAsks_ready {world : JoinWorld} (h : JoinAsks env world job state move) (hkind : move.kind = .ready) :
    evidenceOf move.frame = (false, false)
      ∧ move.frame.get .activationId = some (.str world.freshId) := by
  cases h with
  | fails written hwritten => cases hkind
  | records childId => cases hkind
  | advances h =>
    obtain ⟨step, resources, h⟩ := advance_of_joinAdvance h
    exact advance_ready (Unmarked.carried state) h hkind

/-! ## What is known after a step -/

variable {last : Option AttemptEnd} {reread : Bool}

theorem watch_begin (h : s'.frame.activationId ≠ s.frame.activationId) :
    watchAttempt job last s (step, reread) s' = none := by
  unfold watchAttempt
  rw [if_pos h]

theorem watch_same (hid : s'.frame.activationId = s.frame.activationId)
    (hlaunch : ¬(s.kind = .claimed ∧ s'.kind = .running)) (happly : step.isApply = false)
    (hends : ¬(s.kind ∈ launchedKinds ∧ s'.kind ∉ launchedKinds)) :
    watchAttempt job last s (step, reread) s' = last := by
  unfold watchAttempt
  rw [if_neg (not_not.mpr hid), if_neg hlaunch, if_neg (by simp [happly]), if_neg hends]

theorem watch_unclean (hid : s'.frame.activationId = s.frame.activationId) (hfrom : s.kind ∈ launchedKinds)
    (hkind : s'.kind ∉ launchedKinds) (happly : step.isApply = false) :
    watchAttempt job last s (step, reread) s' = some (.unclean (isUnsafeTakeover job s.frame step)) := by
  have hlaunch : ¬(s.kind = .claimed ∧ s'.kind = .running) := fun h => by
    rw [h.1] at hfrom
    exact absurd hfrom (by decide)
  unfold watchAttempt
  rw [if_neg (not_not.mpr hid), if_neg hlaunch, if_neg (by simp [happly]), if_pos ⟨hfrom, hkind⟩]

theorem watch_apply (happly : step.isApply = true) (hfrom : s.kind = .committing) :
    evidenceDue (watchAttempt job last s (step, reread) s') = (false, false) := by
  unfold watchAttempt
  split_ifs with hid hlaunch
  · rfl
  · rw [hfrom] at hlaunch
    cases hlaunch.1
  · rfl

theorem claim_of_kinds (hfrom : s.kind = .ready) (hkind : moved.kind = .claimed)
    (hprevious : s.previousState.isSome = true → s.kind = .claimed)
    (hasks : Asks env job jobId s step move) (hwrites : Writes env s.kind move moved) :
    ∃ claimer, step = .claim claimer ∧ move = claimMove env.toCommitEnv job s.frame claimer := by
  have hmove : move.kind = .claimed := (hwrites.kind_mem (by simp [hkind, enteredKinds])).symm.trans hkind
  have hedge := edge_of_asks hprevious hasks
  rw [hfrom, hmove] at hedge
  cases step with
  | claim claimer => exact ⟨claimer, rfl, hasks.2⟩
  | _ =>
    exfalso
    revert hedge
    simp only [JobStep.edges]
    decide

theorem apply_ends (happly : step.isApply = true) (hasks : Asks env job jobId s step move)
    (hwrites : Writes env s.kind move moved) :
    s.kind = .committing ∧ moved.kind ∉ enteredKinds := by
  cases step with
  | apply world files =>
    obtain ⟨hfrom, outcome, generation, -, hmove⟩ := hasks
    refine ⟨hfrom, fun hmem => ?_⟩
    have hsame := hwrites.kind_mem hmem
    rw [hsame] at hmem
    rcases outcomeMove_moves hmove with ⟨-, hnot⟩ | ⟨-, hready⟩
    · exact hnot hmem
    · rw [hready] at hmem
      exact absurd hmem (by decide)
  | _ => cases happly

theorem activationId_changes {id : PyStr} (hcounted : Counted job s)
    (hget : moved.frame.get .activationId = some (.str id)) (hnew : id ∉ s.issued ∧ id.codes ≠ []) :
    moved.frame.activationId ≠ s.frame.activationId := by
  have hid : moved.frame.activationId = some id := StateFrame.string_of_get hget hnew.2
  rw [hid]
  exact fun h => hnew.1 (hcounted.issued id h.symm)

theorem ready_evidence (hs : Evident s last)
    (hcounted : Counted job s) (hprevious : s.previousState.isSome = true → s.kind = .claimed)
    (hfresh : ∀ id, step.fresh = some id → id ∉ s.issued ∧ id.codes ≠ [])
    (hasks : Asks env job jobId s step move) (hwrites : Writes env s.kind move moved)
    (hkeeps : KeepsEvidence job (s, last) (step, reread)) (hkind : moved.kind = .ready) :
    evidenceOf move.frame
      = evidenceDue (watchAttempt job last s (step, reread) (s.after jobId step moved)) := by
  have hmove : move.kind = .ready := (hwrites.kind_of_ne (by simp [hkind])).symm.trans hkind
  have hkept := hwrites.keeps.1
  -- a step of the same activation that ends no attempt leaves what is due as it was
  have hquiet : ∀ {kind}, s.kind = kind → kind ∉ launchedKinds → step.isApply = false →
      moved.frame.activationId = s.frame.activationId →
      watchAttempt job last s (step, reread) (s.after jobId step moved) = last :=
    fun hfrom hnot happly hid => watch_same hid (fun h => by simp [hkind] at h) happly fun h => hnot (hfrom ▸ h.1)
  have hends : s.kind = .running → step.isApply = false → moved.frame.activationId = s.frame.activationId →
      watchAttempt job last s (step, reread) (s.after jobId step moved)
        = some (.unclean (isUnsafeTakeover job s.frame step)) := fun hfrom happly hid =>
    watch_unclean hid (by simp [hfrom, launchedKinds]) (by simp [hkind, launchedKinds]) happly
  have hbegins : ∀ id : PyStr, move.frame.get .activationId = some (.str id) → step.fresh = some id →
      watchAttempt job last s (step, reread) (s.after jobId step moved) = none := fun id hget hid =>
    watch_begin (activationId_changes hcounted ((hkept _ (by decide)).trans hget) (hfresh _ hid))
  cases step with
  | register freshId =>
    obtain ⟨-, rfl⟩ := hasks
    rw [hbegins freshId (registered_registers freshId).activationId rfl]
    exact Unmarked.evidence ⟨StateFrame.get_replace_other (by simp) StateFrame.empty,
      StateFrame.get_replace_other (by simp) StateFrame.empty⟩
  | refuseSubmission message =>
    obtain ⟨-, rfl⟩ := hasks
    cases hmove
  | claim claimer =>
    obtain ⟨hfrom, rfl⟩ := hasks
    unfold claimMove at hmove
    rw [hs.pauseless hfrom] at hmove
    simp only [Bool.false_eq_true, if_false] at hmove
    split at hmove <;> cases hmove
  | release reason =>
    obtain ⟨hfrom, rfl⟩ := hasks
    have hid : moved.frame.activationId = s.frame.activationId :=
      activationId_of_get ((releaseMove_releases s.frame reason).keeps hkept).activationId
    rw [hquiet hfrom (by decide) rfl hid, hkeeps]
    · exact ((Unmarked.carried s.frame).replace (by simp)).evidence
    · by_contra hrequest
      have hcarried : (releaseMove s.frame reason).frame.get .pauseRequested = s.frame.get .pauseRequested :=
        (StateFrame.get_replace_other (by simp) _).trans get_carried_pauseRequested
      have hpaused := hwrites.paused (Or.inl rfl) (by
        rw [pauseRequested_congr hcarried]
        exact Option.isSome_iff_ne_none.mpr hrequest)
      cases hkind.symm.trans hpaused
  | launch launcher =>
    obtain ⟨-, hrunning, -⟩ := launchMove_keeps hasks.2
    cases hmove.symm.trans hrunning
  | fail code message exitStatus =>
    obtain ⟨hfrom, hfail⟩ := hasks
    have hid := ((attemptFailureMove_keeps hfail).1.trans hkept).activationId
    obtain ⟨hevidence, hcode, hallowed⟩ := attemptFailureMove_ready hfail hmove
    rw [hevidence]
    rcases hfrom with howns | hrunning
    · have hclaimed := hprevious howns
      rw [hquiet hclaimed (by decide) rfl hid]
      exact (hkeeps hclaimed hcode hallowed).symm
    · rw [hends hrunning rfl hid]
      rfl
  | takeover world =>
    obtain ⟨hfrom, htakeover⟩ := hasks
    have hid := ((takeoverMove_keeps htakeover).1.trans hkept).activationId
    rw [hends hfrom rfl hid]
    exact takeoverMove_ready htakeover hmove
  | fence world document =>
    obtain ⟨-, outcome, childDigests, childLabels, control, -, -, rfl⟩ := hasks
    cases hmove
  | apply world files =>
    obtain ⟨hfrom, outcome, generation, -, hact⟩ := hasks
    rw [watch_apply rfl hfrom]
    exact outcomeMove_ready hact hmove
  | failCommit error =>
    obtain ⟨-, rfl⟩ := hasks
    cases hmove
  | evaluate world =>
    obtain ⟨hevidence, hget⟩ := joinAsks_ready hasks.2 hmove
    rw [hbegins _ hget rfl]
    exact hevidence
  | request asked =>
    obtain ⟨hevidence, hwhich⟩ := applyRequest_ready hasks hmove
    rw [hevidence]
    have hid : ¬move.frame.get .activationId = some (.str asked.freshId) →
        moved.frame.activationId = s.frame.activationId := by
      intro hnot
      rcases applyRequest_moves hasks with ⟨hframe, -⟩ | ⟨hframe, -⟩
      · exact (hframe.trans hkept).activationId
      · exact absurd hframe.activationId hnot
    by_cases hget : move.frame.get .activationId = some (.str asked.freshId)
    · rw [hbegins _ hget rfl]
      rfl
    · rcases hwhich with ⟨hasked, hfrom⟩ | ⟨hasked, hallowed, hfrom⟩ | hget'
      · rw [hquiet hfrom (by decide) rfl (hid hget), hkeeps.1 hasked hfrom]
      · have hnot : s.kind ∉ launchedKinds := by
          rcases hfrom with hfrom | hfrom <;> simp [hfrom, launchedKinds]
        rw [hquiet rfl hnot rfl (hid hget), hkeeps.2 hasked hallowed]
      · exact absurd hget' hget
  | pursue world =>
    rcases finishCancellation_kind hasks.2 with hcancel | hcancel <;>
      cases hmove.symm.trans hcancel

theorem launched_watch (hs : Evident s last)
    (heffect : Effect job s step moved) (hasks : Asks env job jobId s step move)
    (hwrites : Writes env s.kind move moved) (hkind : moved.kind ∈ launchedKinds) :
    watchAttempt job last s (step, reread) (s.after jobId step moved) = some .live := by
  have happly : step.isApply = false := by
    by_contra happly
    have hnot := (apply_ends (eq_true_of_ne_false happly) hasks hwrites).2
    exact hnot (by revert hkind; cases moved.kind <;> decide)
  -- an attempt that goes on
  have hgoes : Keeps s.frame moved.frame → s.kind ∈ launchedKinds →
      watchAttempt job last s (step, reread) (s.after jobId step moved) = some .live := by
    intro hframe hfrom
    rw [watch_same hframe.activationId ?_ happly fun h => h.2 hkind, hs.launched hfrom]
    intro hlaunch
    rw [hlaunch.1] at hfrom
    exact absurd hfrom (by decide)
  have hother : ∀ {kind}, moved.kind = kind → kind ∉ launchedKinds →
      watchAttempt job last s (step, reread) (s.after jobId step moved) = some .live :=
    fun hsame hnot => absurd (hsame ▸ hkind) hnot
  cases heffect with
  | keeps hplain hframe hsame =>
    have hfrom := hsame (by revert hkind; cases moved.kind <;> decide)
    exact hgoes hframe (hfrom ▸ hkind)
  | refuses hplain hfrom hfailed hframe => exact hother hfailed (by decide)
  | registers freshId hstep hfrom hready hframe =>
    rcases hready with hready | hready <;> exact hother hready (by decide)
  | claims hplain attemptId hid hfrom hclaimed hframe => exact hother hclaimed (by decide)
  | releases reason hstep hfrom hready hframe =>
    rcases hready with hready | hready <;> exact hother hready (by decide)
  | launches hplain hfrom hrunning hframe hattempt =>
    simp [watchAttempt, hframe.activationId, hfrom, hrunning]
  | fences hstep hplain hfrom hcommitting hframe hattempt =>
    exact hgoes hframe (by simp [hfrom, launchedKinds])
  | begins hplain freshId hid hfrom hready hframe =>
    rcases hready with hready | hready <;> exact hother hready (by decide)

/-- **A step that keeps the evidence** keeps the invariant. -/
theorem Evident.next (hs : Evident s last)
    (hcounted : Counted job s) (hprevious : s.previousState.isSome = true → s.kind = .claimed)
    (hfresh : ∀ id, step.fresh = some id → id ∉ s.issued ∧ id.codes ≠ [])
    (hasks : Asks env job jobId s step move) (hwrites : Writes env s.kind move moved)
    (heffect : Effect job s step moved) (hkeeps : KeepsEvidence job (s, last) (step, reread)) :
    Evident (s.after jobId step moved)
      (watchAttempt job last s (step, reread) (s.after jobId step moved)) where
  ready hkind :=
    hwrites.evidence.trans (ready_evidence hs hcounted hprevious hfresh hasks hwrites hkeeps hkind)
  pauseless hkind := hwrites.pauseless hkind
  previous previous hsome := by
    obtain ⟨hfrom, hkind⟩ := previousState_after (Option.isSome_iff_exists.mpr ⟨previous, hsome⟩)
    obtain ⟨claimer, rfl, rfl⟩ := claim_of_kinds hfrom hkind hprevious hasks hwrites
    have hframe : previous = s.frame := by
      simp only [JobState.after, hfrom, hkind, and_self, if_true] at hsome
      exact (Option.some.inj hsome).symm
    have hid : moved.frame.activationId = s.frame.activationId := by
      cases heffect with
      | keeps hplain hframe hsame => exact hframe.activationId
      | claims hplain attemptId hid hfrom hclaimed hframe => exact activationId_of_get hframe.activationId
      | refuses hplain hfrom' hfailed hframe => cases hfrom.symm.trans hfrom'
      | registers freshId hstep hfrom' hready hframe => cases hstep
      | releases reason hstep hfrom' hready hframe => cases hstep
      | launches hplain hfrom' hrunning hframe hattempt => cases hfrom.symm.trans hfrom'
      | fences hstep hplain hfrom' hcommitting hframe hattempt => cases hfrom.symm.trans hfrom'
      | begins hplain freshId hid hfrom' hready hframe =>
        rw [hfrom] at hfrom'
        exact absurd hfrom' (by decide)
    rw [hframe, hs.ready hfrom, watch_same hid (fun h => by simp [hfrom] at h) rfl
      fun h => by simp [hfrom, launchedKinds] at h]
  launched hkind := launched_watch hs heffect hasks hwrites hkind

variable {p : JobState × Option AttemptEnd}

theorem evident_of_reachable (hs : (keptEvidence (σ := σ) env job jobId).Reachable p) : Evident p.fst p.snd := by
  refine hs.invariant (I := fun p => Evident p.fst p.snd) ?_ ?_
  · rintro p ⟨⟨priority, hp⟩, hlast⟩
    rw [hp, hlast]
    exact ⟨fun h => (by cases h), fun h => (by cases h), fun previous h => (by cases h),
      fun h => absurd h (show StateKind.submitted ∉ launchedKinds by decide)⟩
  · rintro p ⟨step, reread⟩ p' hs hevident ⟨hstep, hkeeps⟩
    obtain ⟨hnext, hwatch⟩ := System.watching_eq_some.mp hstep
    have hreachable := hs.of_guarded.of_observed
    obtain ⟨move, moved, hfresh, hasks, hwrites, heffect, hafter⟩ := effect_of_next hreachable hnext
    rw [hwatch, ← hafter]
    exact hevident.next (counted_of_reachable hreachable) (claimed_of_previousState hreachable) hfresh
      hasks hwrites heffect hkeeps

/-- **The context of a launch tells what the attempt before it came to**, in
every run whose steps keep the evidence. -/
theorem restart_evidence {p p' : JobState × Option AttemptEnd} {launcher : Launcher} {reread : Bool}
    (hs : (keptEvidence (σ := σ) env job jobId).Reachable p)
    (hstep : (keptEvidence env job jobId).step p ((.launch launcher : JobStep σ), reread) p') :
    ∃ previous, p.fst.previousState = some previous
      ∧ ((attemptContext p.fst.frame previous).isUncleanRestart,
          (attemptContext p.fst.frame previous).unsafePersistentTakeover) = evidenceDue p.snd := by
  obtain ⟨hnext, -⟩ := System.watching_eq_some.mp hstep.1
  obtain ⟨move, moved, -, hasks, -⟩ := effect_of_next hs.of_guarded.of_observed hnext
  obtain ⟨previous, hprevious⟩ := Option.isSome_iff_exists.mp hasks.1
  exact ⟨previous, hprevious, (evident_of_reachable hs).previous previous hprevious⟩

/-! ## Runs that keep the evidence, and lose it -/

/-- A job with a persistent workdir, which is retried after a failure or a lost
lease. -/
def retriedJob : JobDefinition :=
  { plainJob with
    workdirMode := .persistent, retryPolicy := RetryPolicy.unlimited ["process_failure", "lease_lost"] }

def unsafeTakeover : TakeoverWorld :=
  { plainTakeover with kill := fun _ => .delivered, unsafePersistentTakeover := true }

def watchedRun (steps : List (JobStep PUnit)) : Option (JobState × Option AttemptEnd) :=
  System.follow (System.watching (jobNext plainJoinEnv retriedJob "job") (watchAttempt retriedJob))
    (JobState.submitted 100, none) (steps.map (·, true))

theorem run_of_watchedRun {steps : List (JobStep PUnit)} (h : watchedRun steps = some p) :
    (evidenceRuns plainJoinEnv retriedJob "job").Run (JobState.submitted 100, none)
      (steps.map (·, true)) p := System.run_of_follow h

/-- The launch after an attempt that was taken over, and after one that failed
and a claim that was given back. -/
def takenOver : List (JobStep PUnit) :=
  [.register "a1", plainClaim "t1", plainLaunch, .takeover unsafeTakeover, plainClaim "t2"]

def givenBack : List (JobStep PUnit) :=
  [.register "a1", plainClaim "t1", plainLaunch, .fail "process_failure" [] none, plainClaim "t2",
    .release "maintenance_lock", plainClaim "t3"]

/-- The context of the launch after an unsafe takeover says so. -/
theorem restart_evidence_takenOver : ∃ p p' previous,
    (keptEvidence (σ := PUnit) plainJoinEnv retriedJob "job").Reachable p
      ∧ (keptEvidence plainJoinEnv retriedJob "job").step p (plainLaunch, true) p'
      ∧ p.fst.previousState = some previous
      ∧ ((attemptContext p.fst.frame previous).isUncleanRestart,
          (attemptContext p.fst.frame previous).unsafePersistentTakeover) = (true, true) := by
  have hrun : (watchedRun takenOver).bind (fun p =>
      (System.watching (jobNext plainJoinEnv retriedJob "job") (watchAttempt retriedJob) p
        (plainLaunch, true)).map fun _ => evidenceDue p.snd) = some (true, true) := by
    decide +kernel
  obtain ⟨p, hp, hrun⟩ := Option.bind_eq_some_iff.mp hrun
  obtain ⟨p', hp', hdue⟩ := Option.map_eq_some_iff.mp hrun
  have hguard : ∀ a ∈ takenOver.map (·, true), ∀ q, KeepsEvidence retriedJob q a := by
    simp [takenOver, KeepsEvidence, plainClaim, plainLaunch]
  have hreachable : (keptEvidence (σ := PUnit) plainJoinEnv retriedJob "job").Reachable p :=
    ((run_of_watchedRun hp).guarded hguard).reachable (System.Reachable.init ⟨⟨100, rfl⟩, rfl⟩)
  have hstep : (keptEvidence plainJoinEnv retriedJob "job").step p (plainLaunch, true) p' :=
    ⟨hp', trivial⟩
  obtain ⟨previous, hprevious, hcontext⟩ := restart_evidence hreachable hstep
  exact ⟨p, p', previous, hreachable, hstep, hprevious, hcontext.trans hdue⟩

/-- **A claim that is given back loses the evidence**: the attempt that follows is
launched as clean, after one that failed. -/
theorem evidence_released : ∃ p p' previous,
    (evidenceRuns (σ := PUnit) plainJoinEnv retriedJob "job").Reachable p
      ∧ (evidenceRuns plainJoinEnv retriedJob "job").step p (plainLaunch, true) p'
      ∧ p.snd = some (.unclean false)
      ∧ p.fst.previousState = some previous
      ∧ (attemptContext p.fst.frame previous).isUncleanRestart = false := by
  have hrun : (watchedRun givenBack).bind (fun p =>
      (System.watching (jobNext plainJoinEnv retriedJob "job") (watchAttempt retriedJob) p
        (plainLaunch, true)).bind fun _ => p.fst.previousState.map fun previous =>
          (p.snd, previous.flag .uncleanRestart)) = some (some (.unclean false), false) := by
    decide +kernel
  obtain ⟨p, hp, hrun⟩ := Option.bind_eq_some_iff.mp hrun
  obtain ⟨p', hp', hrun⟩ := Option.bind_eq_some_iff.mp hrun
  obtain ⟨previous, hprevious, hfacts⟩ := Option.map_eq_some_iff.mp hrun
  obtain ⟨hlast, hflag⟩ := Prod.mk.inj hfacts
  exact ⟨p, p', previous,
    (run_of_watchedRun hp).reachable (System.Reachable.init ⟨⟨100, rfl⟩, rfl⟩), hp', hlast, hprevious,
    hflag⟩
