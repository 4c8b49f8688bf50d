import HttkWorkflow.ImportResume
import HttkWorkflow.JobEffects

/-!
# A replay after the job moved on

A bundle that is presented once more is known from the ledger of received
numbers. If the job has a marker at the destination, its current frame is
asked too: the `transfer` member an import wrote has to name the transfer, the
digest and the epoch of the bundle. If it has none, it left, and the range in
the ledger stands for the receipt, as long as the bundle names an epoch.

No transition repeats that member. It is not one of `CARRIED_STATE_MEMBERS`,
so the first transition the job makes at the destination leaves it behind
(`transfer_of_asks`), and a replay after it is refused: `replay_iff` is the
exact condition, over every run of the job. What the ledger and its checks
give is `replay_afterwards`.
-/

variable {ν σ : Type} {env : TransferEnv ν} {bundle : PayloadTree ν} {m : TransferManifest}
variable {f g : Destination ν}

namespace Importing

open Effects

/-! ## One replay -/

/-- **A replay acknowledges** the transfer, and leaves the markers and the payloads. -/
def Replays (env : TransferEnv ν) (bundle : PayloadTree ν) (m : TransferManifest)
    (f : Destination ν) : Prop :=
  ∃ g, (importBundle env bundle).Returns f (m.sequenceAck m.destinationWorkspaceId) g
    ∧ g.markers = f.markers ∧ g.payloads = f.payloads

def TellsOf (m : TransferManifest) (f : Destination ν) (mk : Marker) : Prop :=
  ∃ p, provenanceAt f mk = some p ∧ m.sameTransfer p = true ∧ m.sameDigest p = true
    ∧ m.sameEpoch p = true

/-- What a replay asks of the marker it finds. -/
def Recognised (m : TransferManifest) (f : Destination ν) : Option Marker → Prop
  | some mk => TellsOf m f mk
  | none => m.transferEpoch ≠ none

variable {known : Option Marker}

theorem checkReplay_iff : (∃ g, (checkReplay m known).Returns f ⟨⟩ g) ↔ Recognised m f known := by
  cases known with
  | none =>
    unfold checkReplay Recognised
    by_cases hepoch : m.transferEpoch = none
    · rw [if_pos hepoch]
      exact ⟨fun ⟨g, h⟩ => absurd h returns_raise, fun h => absurd hepoch h⟩
    · rw [if_neg hepoch]
      exact ⟨fun _ => hepoch, fun _ => ⟨f, returns_pure.mpr ⟨rfl, rfl⟩⟩⟩
  | some mk =>
    constructor
    · rintro ⟨g, h⟩
      exact checkReplay_returns h
    · intro h
      obtain ⟨u, g, hg⟩ := checkReplay_total f h
      exact ⟨g, hg⟩

theorem checkReplay_same {u : PUnit} (h : (checkReplay m known).Returns f u g) : g = f :=
  ((checkReplay_crashing : Crashing (fun s => s = f) _ _ _) f rfl).2 u g h

/-- **A replay of a received transfer** is what its check makes of it. -/
theorem replays_iff (hbundle : validateBundle env bundle = .ok m) (htakes : Takes env m)
    (hhere : f.workspaceId = m.destinationWorkspaceId) (hreceived : f.hasReceived m = true)
    (hknown : findMarkerById f.markers m.jobId = .ok known) :
    Replays env bundle m f ↔ Recognised m f known := by
  have hreceive : ∀ g, (receive env bundle m known).Returns f ⟨⟩ g ↔ (checkReplay m known).Returns f ⟨⟩ g := by
    intro g
    unfold receive
    rw [returns_current_bind, if_pos hreceived]
  rw [← checkReplay_iff]
  constructor
  · rintro ⟨g, h, -, -⟩
    have hsequence : m.transferSequence ≠ none := by
      obtain ⟨n, hn⟩ := htakes.sequence
      unfold TransferManifest.sequenceOf at hn
      split_ifs at hn
      · cases hn
      · rw [Except.ok.inj hn]
        simp
    obtain ⟨-, -, -, -, known', s, hfound, hs⟩ := importBundle_returns hbundle hsequence h
    obtain rfl : known = known' := Except.ok.inj (hknown.symm.trans hfound)
    exact ⟨s, (hreceive s).mp hs⟩
  · rintro ⟨g, hg⟩
    obtain rfl := checkReplay_same hg
    exact ⟨_, importBundle_of_receive hbundle htakes hhere hknown ((hreceive g).mpr hg), rfl, rfl⟩

end Importing

/-! ## What a transition repeats of an import -/

section Dropped

variable {env : JoinEnv} {job : JobDefinition} {jobId : PyStr} {s : JobState} {step : JobStep σ}
variable {state progress : StateFrame} {move moved : Move}

theorem rebuilt_transfer {written : List (Member × Json)} (state : StateFrame)
    (h : Member.transfer ∉ written.map Prod.fst) :
    (state.carried.replace written).get .transfer = none := by
  rw [StateFrame.get_replace_other h, StateFrame.get_carried, if_neg (by decide)]

theorem carried_transfer (state : StateFrame) : state.carried.get .transfer = none := by
  rw [StateFrame.get_carried, if_neg (by decide)]

variable {asked : OperatorRequest}

theorem audited_transfer : (audited state asked).get .transfer = state.get .transfer := by
  unfold audited
  cases asked.operatorKey with
  | none => exact StateFrame.get_replace_other (by simp) state
  | some key =>
    exact (StateFrame.get_replace_other (by simp) _).trans (StateFrame.get_replace_other (by simp) state)

theorem withHazard_transfer : (withHazard state asked).get .transfer = state.get .transfer := by
  unfold withHazard
  cases asked.hazard with
  | none => rfl
  | some hazard => exact StateFrame.get_replace_other (by simp) state

variable {cenv : CommitEnv}

theorem attemptFailureMove_transfer {code : PyStr} {message : Message}
    {exitStatus : Option Int} {unclean : Bool} {evidence : Option (List (PyStr × Json))}
    (h : attemptFailureMove cenv job state code message exitStatus unclean evidence = .ok move) :
    move.frame.get .transfer = none := by
  unfold attemptFailureMove at h
  split_ifs at h
  · exact (retry_keeps (by decide) h).trans (carried_transfer state)
  · rw [← Except.ok.inj h]
    have hfailed : (withProcess state (state.carried.replace
        [(.failure, failure cenv code message exitStatus), (.reason, .str code)])).get .transfer
          = none := (get_withProcess (by decide)).trans (rebuilt_transfer state (by simp))
    show (attemptFailed cenv state code message exitStatus evidence).get .transfer = none
    unfold attemptFailed
    cases evidence with
    | none => exact hfailed
    | some evidence => exact (StateFrame.get_replace_other (by simp) _).trans hfailed

theorem outcomeMove_transfer {priority : Int} {outcome : List (PyStr × Json)}
    {generation : Option Int} {labels : Except Exc (List (PyStr × PyStr))} {freshId : PyStr}
    (h : outcomeMove cenv job priority state outcome generation labels freshId = .ok move) :
    move.frame.get .transfer = none := by
  obtain ⟨steps, progress, hretained, hasks⟩ := asks_of_outcomeMove h
  have hbase : progress.get .transfer = none := by
    rw [get_retained (by decide) hretained]
    unfold progressOf
    cases steps with
    | none => exact rebuilt_transfer state (by simp)
    | some steps => exact (StateFrame.get_replace_other (by simp) _).trans (rebuilt_transfer state (by simp))
  refine Eq.trans ?_ hbase
  cases hasks with
  | advances _ _ h => exact advance_keeps (by decide) h
  | retries _ h => exact retry_keeps (by decide) h
  | waits => exact StateFrame.get_replace_other (by simp) progress
  | ends _ _ _ hother => exact StateFrame.get_replace_other (hother _ (by decide)) progress
  | pauses => exact (StateFrame.get_replace_other (by simp) _).trans (get_withProcess (by decide))

theorem joinAsks_transfer {world : JoinWorld} (h : JoinAsks env world job state move) :
    move.frame.get .transfer = none := by
  cases h with
  | fails written hwritten =>
    exact rebuilt_transfer state fun hmem => absurd (hwritten hmem) (by decide)
  | records childId =>
    refine (StateFrame.get_replace_other (by simp) _).trans ?_
    rw [StateFrame.get_select, if_neg (by decide)]
  | advances h =>
    obtain ⟨name, resources, h⟩ := advance_of_joinAdvance h
    exact (advance_keeps (by decide) h).trans (carried_transfer state)

theorem requestAsks_transfer {kind : StateKind} (h : RequestAsks cenv job kind state asked move) :
    move.frame.get .transfer = none
      ∨ kind ∈ attemptKinds ∧ move.frame.get .transfer = state.get .transfer := by
  have haudit : (audited state.carried asked).get .transfer = none :=
    audited_transfer.trans (carried_transfer state)
  cases h with
  | cancels haction hterminal h =>
    have hselected : (audited (state.select cancellingMembers) asked).get .transfer = none := by
      rw [audited_transfer, StateFrame.get_select, if_neg (by decide)]
    unfold requestCancel at h
    simp only at h
    split_ifs at h
    · rw [← Option.some.inj h]
      exact Or.inl ((StateFrame.get_replace_other (by simp) _).trans hselected)
    · rw [← Option.some.inj h]
      exact Or.inl ((StateFrame.get_replace_other (by simp) _).trans hselected)
  | prioritizes priority haction hfrom =>
    have hpreserved : Member.transfer ∉ (state.select preservedMembers).members.map Prod.fst :=
      fun hmem => absurd (StateFrame.mem_of_mem_select hmem) (by decide)
    exact Or.inl ((StateFrame.get_replace_other (by simp) _).trans
      ((StateFrame.get_replace_other hpreserved _).trans haudit))
  | records haction hfrom => exact Or.inr ⟨hfrom, StateFrame.get_replace_other (by simp) state⟩
  | pauses haction hfrom => exact Or.inl ((StateFrame.get_replace_other (by simp) _).trans haudit)
  | revives haction hfrom h =>
    refine Or.inl ?_
    rcases revive_cases h with ⟨-, h⟩ | ⟨name, h⟩
    · exact (retry_keeps (by decide) h).trans (withHazard_transfer.trans haudit)
    · exact (advance_keeps (by decide) h).trans (withHazard_transfer.trans haudit)

theorem transfer_of_asks (h : Asks env job jobId s step move) : move.frame.get .transfer = none
      ∨ s.kind ∈ attemptKinds ∧ move.frame.get .transfer = s.frame.get .transfer := by
  cases step with
  | register freshId =>
    rw [h.2]
    exact Or.inl (StateFrame.get_replace_other (by simp) _)
  | refuseSubmission message =>
    rw [h.2]
    exact Or.inl (StateFrame.get_replace_other (by simp) _)
  | claim claimer =>
    rw [h.2]
    refine Or.inl ?_
    unfold claimMove
    split_ifs
    · exact rebuilt_transfer s.frame (by simp)
    · simp only
      split
      · exact rebuilt_transfer s.frame (by simp)
      · exact rebuilt_transfer s.frame (by simp)
  | release reason =>
    rw [h.2]
    exact Or.inl (rebuilt_transfer s.frame (by simp))
  | launch launcher =>
    obtain ⟨-, h⟩ := h
    unfold launchMove at h
    obtain ⟨control, -, h⟩ := bind_eq_ok.mp h
    split at h
    · rw [← Except.ok.inj h]
      exact Or.inl (rebuilt_transfer s.frame (by simp))
    · cases h
  | fail code message exitStatus => exact Or.inl (attemptFailureMove_transfer h.2)
  | takeover world =>
    obtain ⟨evidence, -, h⟩ := failure_of_takeover h.2
    exact Or.inl (attemptFailureMove_transfer h)
  | fence world document =>
    obtain ⟨-, outcome, childDigests, childLabels, control, -, -, rfl⟩ := h
    exact Or.inl ((get_withProcess (by decide)).trans (rebuilt_transfer s.frame (by simp)))
  | apply world files =>
    obtain ⟨-, outcome, generation, -, h⟩ := h
    exact Or.inl (outcomeMove_transfer h)
  | failCommit error =>
    rw [h.2]
    exact Or.inl ((StateFrame.get_replace_other (by simp) _).trans
      ((get_withProcess (by decide)).trans (carried_transfer s.frame)))
  | evaluate world => exact Or.inl (joinAsks_transfer h.2)
  | request asked => exact requestAsks_transfer (requestAsks_of_apply h)
  | pursue world =>
    obtain ⟨-, h⟩ := h
    have hselected : (s.frame.select cancellingMembers).get .transfer = none := by
      rw [StateFrame.get_select, if_neg (by decide)]
    obtain ⟨-, ⟨proof, -, rfl⟩ | rfl⟩ := finishCancellation_cases h
    · exact Or.inl ((StateFrame.get_replace_other (by simp) _).trans hselected)
    · exact Or.inl ((StateFrame.get_replace_other (by simp) _).trans hselected)

theorem transfer_of_next {a : JobStep σ × Bool} {s' : JobState} (h : jobNext env job jobId s a = some s')
    (hs : s.frame.get .transfer = none ∨ s.kind ∉ attemptKinds) :
    s'.frame.get .transfer = none := by
  obtain ⟨-, moved, hwritten, rfl⟩ := jobNext_eq_some.mp h
  obtain ⟨move, hasks, hwrites⟩ := asks_of_written hwritten
  rw [after_frame, hwrites.get (by decide)]
  rcases transfer_of_asks hasks with hnone | ⟨hkind, hsame⟩
  · exact hnone
  · rcases hs with hnone | hnot
    · exact hsame.trans hnone
    · exact absurd hkind hnot

end Dropped

/-! ## The job at its destination -/

/-- **The destination, with its job.** -/
structure ImportedJob (ν : Type) where
  /-- The workspace. -/
  destination : Destination ν
  /-- The kind and the frame of the job's marker, `none` where it has no marker any more. -/
  job : Option JobState

/-- **What can happen next.** -/
inductive LaterStep (σ ν : Type) where
  /-- The job makes a transition. -/
  | move (step : JobStep σ) (reread : Bool)
  | fence (members : List (Member × Json))
  /-- A fenced job has its payload and then its marker moved into a bundle. -/
  | embed
  /-- Anything beside the job's marker: its payload is changed, another job moves, a bundle is
  imported or replayed. -/
  | elsewhere (d : Destination ν)

def LaterStep.moves : LaterStep σ ν → Bool
  | elsewhere _ => false
  | _ => true

/-- **What stays** while other things happen: the job's markers, the frames in the journal and
the receipt. -/
structure Beside (m : TransferManifest) (f g : Destination ν) : Prop where
  here : g.workspaceId = f.workspaceId
  markers : g.markersOf m = f.markersOf m
  journal : f.journal <+: g.journal
  received : f.hasReceived m = true → g.hasReceived m = true

namespace ImportedJob

/-- The workspace and the job after a transition from a marker. -/
def moved (s : ImportedJob ν) (mk : Marker) (st : JobState) : ImportedJob ν where
  destination := s.destination.transition ⟨mk, st.kind, st.frame, some st.priority.toNat, false⟩
  job := some st

/-- **The job is as it was imported**, and the receipt is recorded. -/
structure Recorded (m : TransferManifest) (s : ImportedJob ν) : Prop where
  here : s.destination.workspaceId = m.destinationWorkspaceId
  received : s.destination.hasReceived m = true
  imported : ∃ st mk, s.job = some st ∧ s.destination.markersOf m = [mk]
    ∧ st.kind = m.priorKind ∧ mk.kind = m.priorKind
    ∧ st.frame = (m.importedFrame s.destination.workspaceId).members
    ∧ s.destination.readState mk = .ok (m.importedFrame s.destination.workspaceId)

/-- **The job left**: it is fenced, or it has no marker. -/
def Left (s : ImportedJob ν) : Prop := ∀ st, s.job = some st → st.kind.isCore = false

end ImportedJob

/-- **The runs of a job at its destination**, since it was imported. -/
def laterRuns (env : JoinEnv) (job : JobDefinition) (m : TransferManifest) :
    System (ImportedJob ν) (LaterStep σ ν) where
  init := ImportedJob.Recorded m
  step s a s' :=
    match a with
    | .move step reread => ∃ st mk st', s.job = some st ∧ s.destination.markersOf m = [mk]
        ∧ jobNext env job (PyStr.ofString m.jobId) st (step, reread) = some st' ∧ s' = s.moved mk st'
    | .fence members => ∃ st mk, s.job = some st ∧ s.destination.markersOf m = [mk]
        ∧ st.kind.isQuiescent = true
        ∧ s' = s.moved mk { st with
            kind := .transferring
            frame := StateFrame.empty.replace members
            previousState := none }
    | .embed => ∃ st, s.job = some st ∧ st.kind = .transferring
        ∧ s' = ⟨{ s.destination with
            markers := s.destination.markers.filter fun mk => mk.jobId ≠ m.jobId
            payloads := Function.update s.destination.payloads m.payloadKey none }, none⟩
    | .elsewhere d => Beside m s.destination d ∧ s' = { s with destination := d }

/-! ## What the marker shows -/

section Runs

variable {jenv : JoinEnv} {job : JobDefinition} {s s' : ImportedJob ν} {a : LaterStep σ ν}

variable {mk : Marker}

variable {fr : Frame}

theorem Beside.readState (h : Beside m f g) (hread : f.readState mk = .ok fr) : g.readState mk = .ok fr := by
  unfold Destination.readState at hread ⊢
  rw [h.here]
  cases href : mk.recordRef with
  | init =>
    rw [href] at hread
    exact hread
  | frame n =>
    rw [href] at hread
    simp only at hread ⊢
    obtain ⟨later, hlater⟩ := h.journal
    cases hn : f.journal[n]? with
    | none =>
      rw [hn] at hread
      cases hread
    | some fr' =>
      rw [hn] at hread
      have hlt : n < f.journal.length := (List.getElem?_eq_some_iff.mp hn).1
      rw [← hlater, List.getElem?_append_left hlt, hn]
      exact hread

theorem readState_transition (f : Destination ν) (r : TransitionRequest) :
    (f.transition r).readState (r.destination (.frame f.journal.length))
      = .ok (r.frame f.workspaceId) := by
  have hread : (f.transition r).journal[f.journal.length]? = some (r.frame f.workspaceId) := by
    show (f.journal ++ [r.frame f.workspaceId])[f.journal.length]? = _
    rw [List.getElem?_append_right (le_refl _), Nat.sub_self]
    rfl
  refine Destination.readState_frame rfl hread ?_
  simp [TransitionRequest.frame, TransitionRequest.destination, Destination.transition]

/-- **The job's marker shows its kind and its frame**, and the receipt is recorded. -/
structure Shown (m : TransferManifest) (s : ImportedJob ν) : Prop where
  here : s.destination.workspaceId = m.destinationWorkspaceId
  received : s.destination.hasReceived m = true
  present : ∀ st, s.job = some st → ∃ mk fr, s.destination.markersOf m = [mk] ∧ mk.kind = st.kind
    ∧ s.destination.readState mk = .ok fr ∧ fr.members = st.frame
  absent : s.job = none → s.destination.markersOf m = []

def Untouched (m : TransferManifest) (s : ImportedJob ν) : Prop :=
  ∃ st, s.job = some st ∧ st.kind = m.priorKind
    ∧ st.frame = (m.importedFrame m.destinationWorkspaceId).members

/-- The job's frame does not tell where it came from. -/
def Forgotten (s : ImportedJob ν) : Prop :=
  ∀ st, s.job = some st → st.frame.get .transfer = none ∨ st.kind = .transferring

theorem Shown.moved {st : JobState} (hs : Shown m s)
    (hone : s.destination.markersOf m = [mk]) : Shown m (s.moved mk st) := by
  refine ⟨hs.here, hs.received, fun st' hst' => ?_, fun h => by cases h⟩
  obtain rfl := Option.some.inj hst'
  refine ⟨_, _, ?_, rfl, readState_transition _ _, rfl⟩
  show (s.destination.transition _).markersOf m = _
  rw [markersOf_transition, hone, List.map_singleton, if_pos rfl]

/-- **Every step keeps** that the marker shows the job. -/
theorem Shown.step (hs : Shown m s) (h : (laterRuns (σ := σ) jenv job m).step s a s') : Shown m s' := by
  cases a with
  | move step reread =>
    obtain ⟨st, mk, st', -, hone, -, rfl⟩ := h
    exact hs.moved hone
  | fence members =>
    obtain ⟨st, mk, -, hone, -, rfl⟩ := h
    exact hs.moved hone
  | embed =>
    obtain ⟨st, -, -, rfl⟩ := h
    refine ⟨hs.here, hs.received, fun st' hst' => (by cases hst'), fun _ => ?_⟩
    refine List.filter_eq_nil_iff.mpr fun mk hmk hid => ?_
    exact of_decide_eq_true (List.mem_filter.mp hmk).2 (of_decide_eq_true hid)
  | elsewhere d =>
    obtain ⟨hbeside, rfl⟩ := h
    refine ⟨hbeside.here.trans hs.here, hbeside.received hs.received, fun st hst => ?_, fun hnone => ?_⟩
    · obtain ⟨mk, fr, hone, hkind, hread, hframe⟩ := hs.present st hst
      exact ⟨mk, fr, hbeside.markers.trans hone, hkind, hbeside.readState hread, hframe⟩
    · exact hbeside.markers.trans (hs.absent hnone)

theorem job_of_elsewhere (h : (laterRuns (σ := σ) jenv job m).step s a s') (ha : a.moves = false) : s'.job = s.job := by
  cases a with
  | elsewhere d =>
    obtain ⟨-, rfl⟩ := h
    rfl
  | _ => cases ha

/-- **A step of the job leaves behind** where it came from. -/
theorem forgotten_of_step (hquiescent : m.priorKind.isQuiescent = true)
    (h : (laterRuns (σ := σ) jenv job m).step s a s') (ha : a.moves = true)
    (hs : Untouched m s ∨ Forgotten s) : Forgotten s' := by
  have hfrom : ∀ st, s.job = some st → st.frame.get .transfer = none ∨ st.kind ∉ attemptKinds := by
    intro st hst
    rcases hs with ⟨st', hst', hkind, -⟩ | hforgotten
    · obtain rfl : st' = st := Option.some.inj (hst'.symm.trans hst)
      refine Or.inr fun hmem => ?_
      rw [← hkind] at hquiescent
      revert hquiescent hmem
      cases st'.kind <;> simp [StateKind.isQuiescent, attemptKinds]
    · rcases hforgotten st hst with hnone | hkind
      · exact Or.inl hnone
      · exact Or.inr (by rw [hkind]; decide)
  cases a with
  | move step reread =>
    obtain ⟨st, mk, st', hst, -, hnext, rfl⟩ := h
    intro st'' hst''
    obtain rfl := Option.some.inj hst''
    exact Or.inl (transfer_of_next hnext (hfrom st hst))
  | fence members =>
    obtain ⟨st, mk, -, -, -, rfl⟩ := h
    intro st' hst'
    obtain rfl := Option.some.inj hst'
    exact Or.inr rfl
  | embed =>
    obtain ⟨st, -, -, rfl⟩ := h
    exact fun st' hst' => by cases hst'
  | elsewhere d => cases ha

variable {steps : List (LaterStep σ ν)}

/-- **A run**: the job is as it was imported until its first step, and forgets its origin with it. -/
theorem shown_of_run (hquiescent : m.priorKind.isQuiescent = true)
    (hrun : (laterRuns jenv job m).Run s steps s') (hs : Shown m s)
    (hjob : Untouched m s ∨ Forgotten s) :
    Shown m s' ∧ ((∀ a ∈ steps, a.moves = false) → s'.job = s.job)
      ∧ ((∃ a ∈ steps, a.moves = true) → Forgotten s') := by
  have hforgets : ∀ {s s' : ImportedJob ν} {steps : List (LaterStep σ ν)},
      (laterRuns jenv job m).Run s steps s' → Forgotten s → Forgotten s' := by
    intro s s' steps hrun
    induction hrun with
    | nil s => exact id
    | @cons s a t as s' hstep _ ih =>
      intro hforgotten
      refine ih ?_
      cases ha : a.moves with
      | true => exact forgotten_of_step hquiescent hstep ha (Or.inr hforgotten)
      | false =>
        intro st hst
        exact hforgotten st ((job_of_elsewhere hstep ha).symm.trans hst)
  induction hrun with
  | nil s => exact ⟨hs, fun _ => rfl, fun ⟨a, ha, _⟩ => absurd ha List.not_mem_nil⟩
  | @cons s a t as s' hstep hrest ih =>
    cases ha : a.moves with
    | true =>
      have hforgotten := forgotten_of_step hquiescent hstep ha hjob
      obtain ⟨hshown, -, -⟩ := ih (hs.step hstep) (Or.inr hforgotten)
      refine ⟨hshown, fun hnone => ?_, fun _ => hforgets hrest hforgotten⟩
      rw [hnone a List.mem_cons_self] at ha
      cases ha
    | false =>
      have hsame := job_of_elsewhere hstep ha
      have hjob' : Untouched m t ∨ Forgotten t := by
        unfold Untouched Forgotten
        rw [hsame]
        exact hjob
      obtain ⟨hshown, hkept, hforgotten⟩ := ih (hs.step hstep) hjob'
      refine ⟨hshown, fun hnone => ?_, fun ⟨b, hb, hmoves⟩ => ?_⟩
      · exact (hkept fun b hb => hnone b (List.mem_cons_of_mem _ hb)).trans hsame
      · rcases List.mem_cons.mp hb with rfl | hb
        · rw [ha] at hmoves
          cases hmoves
        · exact hforgotten ⟨b, hb, hmoves⟩

/-! ## The replay at the end of a run -/

theorem provenance_same (m : TransferManifest) : m.sameTransfer m.provenance = true
    ∧ m.sameDigest m.provenance = true ∧ m.sameEpoch m.provenance = true := by
  unfold TransferManifest.sameTransfer TransferManifest.sameDigest TransferManifest.sameEpoch
  rw [Json.optEqStr_iff, Json.optEqStr_iff]
  unfold TransferManifest.provenance
  cases m.transferSequence <;> cases hepoch : m.transferEpoch
  · exact ⟨rfl, rfl, rfl⟩
  · exact ⟨rfl, rfl, Json.optEqStr_iff.mpr rfl⟩
  · exact ⟨rfl, rfl, rfl⟩
  · exact ⟨rfl, rfl, Json.optEqStr_iff.mpr rfl⟩

theorem not_tellsOf (hread : f.readState mk = .ok fr)
    (hnone : fr.members.get .transfer = none) : ¬Importing.TellsOf m f mk := by
  rintro ⟨p, hp, -⟩
  obtain ⟨fr', hread', hmember⟩ := Importing.readState_of_provenanceAt hp
  obtain rfl : fr = fr' := Except.ok.inj (hread.symm.trans hread')
  unfold StateFrame.mapping at hmember
  rw [hnone] at hmember
  cases hmember

theorem tellsOf_imported (hread : f.readState mk = .ok fr)
    (hframe : fr.members = (m.importedFrame m.destinationWorkspaceId).members) :
    Importing.TellsOf m f mk := by
  refine ⟨m.provenance, ?_, provenance_same m⟩
  unfold Importing.provenanceAt
  rw [hread]
  show fr.members.mapping .transfer = some m.provenance
  rw [hframe]
  unfold StateFrame.mapping TransferManifest.importedFrame
  rw [StateFrame.get_replace_cons]
  simp

theorem ImportedJob.Recorded.shown (hs : s.Recorded m) : Shown m s ∧ Untouched m s := by
  obtain ⟨st, mk, hst, hone, hkind, hmk, hframe, hread⟩ := hs.imported
  refine ⟨⟨hs.here, hs.received, fun st' hst' => ?_, fun hnone => ?_⟩, st, hst, hkind, ?_⟩
  · obtain rfl : st = st' := Option.some.inj (hst.symm.trans hst')
    exact ⟨mk, _, hone, hmk.trans hkind.symm, hread, hframe.symm⟩
  · rw [hst] at hnone
    cases hnone
  · rw [← hs.here]
    exact hframe

theorem Shown.replays_iff (hbundle : validateBundle env bundle = .ok m) (htakes : Takes env m) (hs : Shown m s) :
    (s.Left → (Importing.Replays env bundle m s.destination ↔ m.transferEpoch ≠ none))
      ∧ ∀ st mk, s.job = some st → s.destination.markersOf m = [mk] → st.kind.isCore = true →
        (Importing.Replays env bundle m s.destination ↔ Importing.TellsOf m s.destination mk) := by
  constructor
  · intro hleft
    show _ ↔ Importing.Recognised m s.destination none
    refine Importing.replays_iff hbundle htakes hs.here hs.received ?_
    cases hjob : s.job with
    | none =>
      rw [findMarkerById_markersOf, hs.absent hjob]
      rfl
    | some st =>
      obtain ⟨mk, fr, hone, hkind, -⟩ := hs.present st hjob
      rw [findMarkerById_singleton hone, hkind, if_neg (by rw [hleft st hjob]; decide)]
  · intro st mk hjob hone hcore
    obtain ⟨mk', fr, hone', hkind, -⟩ := hs.present st hjob
    obtain rfl : mk = mk' := List.singleton_inj.mp (hone.symm.trans hone')
    show _ ↔ Importing.Recognised m s.destination (some mk)
    refine Importing.replays_iff hbundle htakes hs.here hs.received ?_
    rw [findMarkerById_singleton hone, hkind, if_pos hcore]

theorem replay_iff (hbundle : validateBundle env bundle = .ok m) (htakes : Takes env m) (hs : s.Recorded m)
    (hrun : (laterRuns jenv job m).Run s steps s') :
    Importing.Replays env bundle m s'.destination
      ↔ (∀ a ∈ steps, a.moves = false) ∨ s'.Left ∧ m.transferEpoch ≠ none := by
  obtain ⟨hshown, huntouched⟩ := hs.shown
  obtain ⟨hshown', hkept, hforgotten⟩ :=
    shown_of_run htakes.quiescent hrun hshown (Or.inl huntouched)
  obtain ⟨hgone, hfound⟩ := hshown'.replays_iff hbundle htakes
  obtain ⟨st, hst, hkind, hframe⟩ := huntouched
  by_cases hmoves : ∀ a ∈ steps, a.moves = false
  · -- the frame is the one the import wrote
    rw [← hkept hmoves] at hst
    obtain ⟨mk, fr, hone, -, hread, hfr⟩ := hshown'.present st hst
    have hcore : st.kind.isCore = true := by
      rw [hkind]
      exact Importing.isCore_of_isQuiescent htakes.quiescent
    exact iff_of_true ((hfound st mk hst hone hcore).mpr (tellsOf_imported hread (hfr.trans hframe))) (Or.inl hmoves)
  · rw [or_iff_right hmoves]
    by_cases hleft : s'.Left
    · rw [hgone hleft, and_iff_right hleft]
    · -- it has a marker that is found, whose frame was rebuilt
      refine iff_of_false (fun hreplays => ?_) fun h => hleft h.1
      have hstep : ∃ a ∈ steps, a.moves = true := by simpa using hmoves
      unfold ImportedJob.Left at hleft
      push Not at hleft
      obtain ⟨st', hst', hcore⟩ := hleft
      have hcore : st'.kind.isCore = true := eq_true_of_ne_false hcore
      obtain ⟨mk, fr, hone, -, hread, hfr⟩ := hshown'.present st' hst'
      rcases hforgotten hstep st' hst' with hnone | htransferring
      · rw [← hfr] at hnone
        exact not_tellsOf hread hnone ((hfound st' mk hst' hone hcore).mp hreplays)
      · rw [htransferring] at hcore
        cases hcore

/-- **What the ledger and its checks give**: a replay is acknowledged as long as the job has made
no step at its destination, and after the job left exactly if the bundle names an epoch. -/
theorem replay_afterwards (hbundle : validateBundle env bundle = .ok m) (htakes : Takes env m)
    (hs : s.Recorded m) {steps : List (LaterStep σ ν)}
    (hrun : (laterRuns jenv job m).Run s steps s') :
    ((∀ a ∈ steps, a.moves = false) → Importing.Replays env bundle m s'.destination)
      ∧ (s'.Left → (Importing.Replays env bundle m s'.destination ↔ m.transferEpoch ≠ none)) := by
  obtain ⟨hshown, huntouched⟩ := hs.shown
  have hshown' := (shown_of_run htakes.quiescent hrun hshown (Or.inl huntouched)).1
  exact ⟨fun hmoves => (replay_iff hbundle htakes hs hrun).mpr (Or.inl hmoves),
    (hshown'.replays_iff hbundle htakes).1⟩

end Runs

/-! ## A job that was registered, and one that left -/

namespace ImportedJob

open Importing

def legacyManifest : TransferManifest := { detachedManifest with transferEpoch := none }

def legacyEnv : TransferEnv String :=
  { copyingEnv with
    loads := fun text =>
      if text = "manifest" then .ok legacyManifest else raiseFormat [.lit "cannot read JSON object"]
    copied_manifest := fun t t' ht' c hc => by
      rw [List.mem_singleton.mp ht'] at hc
      cases hc }

def justImported (env : TransferEnv String) (m : TransferManifest) : ImportedJob String where
  destination := (importBundle env detachedBundle).final emptyDestination
  job := some { JobState.submitted 500 with
    frame := (m.importedFrame m.destinationWorkspaceId).members }

theorem detached_recorded : (justImported copyingEnv detachedManifest).Recorded detachedManifest where
  here := rfl
  received := by decide +kernel
  imported := ⟨_, detachedManifest.importedMarker (.frame 0), rfl, by decide +kernel, rfl, rfl, rfl, rfl⟩

theorem legacy_recorded : (justImported legacyEnv legacyManifest).Recorded legacyManifest where
  here := rfl
  received := by decide +kernel
  imported := ⟨_, legacyManifest.importedMarker (.frame 0), rfl, by decide +kernel, rfl, rfl, rfl, rfl⟩

theorem detachedManifest_taken : Takes copyingEnv detachedManifest where
  identity := rfl
  sequence := ⟨1, rfl⟩
  epoch := ⟨_, rfl⟩
  quiescent := rfl
  nameable := by decide
  runners := fun r hr => absurd hr List.not_mem_nil
  apart := fun name sha256 h => by cases h

theorem legacyManifest_taken : Takes legacyEnv legacyManifest where
  identity := rfl
  sequence := ⟨1, rfl⟩
  epoch := ⟨_, rfl⟩
  quiescent := rfl
  nameable := by decide
  runners := fun r hr => absurd hr List.not_mem_nil
  apart := fun name sha256 h => by cases h

theorem detached_onwards {m : TransferManifest} {s : ImportedJob String} (hs : s.Recorded m)
    (hquiescent : m.priorKind.isQuiescent = true) : ∃ s' : ImportedJob String, s'.job = none
      ∧ (laterRuns (σ := PUnit) plainJoinEnv plainJob m).Run s [.fence [], .embed] s' := by
  obtain ⟨st, mk, hst, hone, hkind, -⟩ := hs.imported
  exact ⟨_, rfl, System.Run.cons ⟨st, mk, hst, hone, by rw [hkind]; exact hquiescent, rfl⟩
    (System.Run.cons ⟨_, rfl, rfl, rfl⟩ (System.Run.nil _))⟩

/-- **Replays that are refused**: of a bundle without an epoch whose job left, and of one whose
job was registered since. -/
theorem replay_refused :
    (¬∀ (s s' : ImportedJob String) (steps : List (LaterStep PUnit String)),
      s.Recorded legacyManifest → (laterRuns plainJoinEnv plainJob legacyManifest).Run s steps s' →
        Replays legacyEnv detachedBundle legacyManifest s'.destination)
    ∧ ¬∀ (s s' : ImportedJob String) (steps : List (LaterStep PUnit String)),
      s.Recorded detachedManifest → (laterRuns plainJoinEnv plainJob detachedManifest).Run s steps s' →
        Replays copyingEnv detachedBundle detachedManifest s'.destination := by
  constructor
  · intro hall
    obtain ⟨s', hnone, hrun⟩ := detached_onwards legacy_recorded rfl
    have hreplays := hall _ _ _ legacy_recorded hrun
    rcases (replay_iff rfl legacyManifest_taken legacy_recorded hrun).mp hreplays with
      hmoves | ⟨-, hepoch⟩
    · exact absurd (hmoves _ List.mem_cons_self) (by simp [LaterStep.moves])
    · exact hepoch rfl
  · intro hall
    have hnext : ((justImported copyingEnv detachedManifest).job.bind fun st =>
        jobNext plainJoinEnv plainJob (PyStr.ofString detachedManifest.jobId) st
          ((.register "a1" : JobStep PUnit), true)).map JobState.kind = some .ready := by decide +kernel
    obtain ⟨st', hst', hkind⟩ := Option.map_eq_some_iff.mp hnext
    obtain ⟨st, hst, hst'⟩ := Option.bind_eq_some_iff.mp hst'
    obtain ⟨-, mk, -, hone, -⟩ := detached_recorded.imported
    have hrun : (laterRuns plainJoinEnv plainJob detachedManifest).Run
        (justImported copyingEnv detachedManifest) [.move (.register "a1" : JobStep PUnit) true]
        ((justImported copyingEnv detachedManifest).moved mk st') :=
      System.Run.cons ⟨st, mk, st', hst, hone, hst', rfl⟩ (System.Run.nil _)
    have hreplays := hall _ _ _ detached_recorded hrun
    rcases (replay_iff detachedBundle_valid detachedManifest_taken detached_recorded hrun).mp hreplays
      with hmoves | ⟨hleft, -⟩
    · exact absurd (hmoves _ List.mem_cons_self) (by simp [LaterStep.moves])
    · have hcore := hleft st' rfl
      rw [hkind] at hcore
      cases hcore

/-- A replay after the job was detached onwards. -/
theorem replay_afterwards_left : ∃ s' : ImportedJob String, s'.job = none
    ∧ Replays copyingEnv detachedBundle detachedManifest s'.destination := by
  obtain ⟨s', hnone, hrun⟩ := detached_onwards detached_recorded rfl
  refine ⟨s', hnone, ((replay_afterwards detachedBundle_valid detachedManifest_taken
    detached_recorded hrun).2 fun st hst => ?_).mpr (by decide)⟩
  rw [hnone] at hst
  cases hst

end ImportedJob
