import HttkWorkflow.AttemptBudgets
import HttkWorkflow.TimelineBlocks

/-!
# The timeline of every chain a job can have

A job writes a frame with each transition, and the frames make its chain. It
leaves a workspace with one more frame, which names no activation, and begins
a new chain where it arrives, with the frame it had.

Every step of such a run appends a frame that follows the chain, but for one:
a pause that is asked for while an attempt is claimed is deferred, and the
frame that records it has the kind `claimed` once more. For the regrouping
that is another claim, and it lists the attempt twice (`timeline_repeats`). In
every run without such a pause the chain has its timeline
(`timeline_of_run`).

The failure of an attempt is the first that its frames have after it stopped,
and that is in general not in the first of those frames: an outcome that fails
the job is in the frame `committing`, which has no failure, and its failure is
in the frame after that.
-/

variable {σ : Type} {env : JoinEnv} {job : JobDefinition} {jobId : PyStr}

/-! ## Runs with their chains -/

/-- **A job with its chain** in the workspace it is in. -/
structure JournalledJob where
  job : JobState
  frames : List ChainFrame
  /-- Whether it has left, and not arrived yet. -/
  left : Bool

/-- **What becomes of a job and its chain.** -/
inductive JournalStep (σ : Type) where
  | transition (step : JobStep σ) (reread : Bool) (stamp : Stamp)
  | detach (request : DetachRequest) (marker : Marker) (prior : Frame) (placement : List PyStr)
      (ticket : String × ℕ × String) (stamp : Stamp)
  | arrive (provenance : List (PyStr × Json)) (stamp : Stamp)

def JobState.arrived (s : JobState) (provenance : List (PyStr × Json)) : JobState :=
  { s with frame := s.frame.replace [(.transfer, .obj provenance)], previousState := none }

/-- **One step of a job with its chain.** -/
def journalNext (env : JoinEnv) (job : JobDefinition) (jobId : PyStr) (p : JournalledJob) :
    JournalStep σ → Option JournalledJob
  | .transition step reread stamp =>
    if p.left = true then none
    else (jobNext env job jobId p.job (step, reread)).map fun s =>
      ⟨s, p.frames ++ [⟨stamp, s.kind, s.frame⟩], false⟩
  | .detach request marker prior placement ticket stamp =>
    if p.left = false ∧ p.job.kind.isQuiescent = true then
      some ⟨p.job, p.frames ++ [⟨stamp, .transferring,
        Sealing.transferringMembers stamp.workspaceId request marker prior placement ticket⟩], true⟩
    else none
  | .arrive provenance stamp =>
    if p.left = true then
      let s := p.job.arrived provenance
      some ⟨s, [⟨stamp, s.kind, s.frame⟩], false⟩
    else none

/-- **The runs of a job with its chain**, from its submission. -/
def journalRuns (env : JoinEnv) (job : JobDefinition) (jobId : PyStr) : System JournalledJob (JournalStep σ) :=
  System.ofNext (fun p => ∃ priority, p = ⟨JobState.submitted priority, [], false⟩) (journalNext env job jobId)

/-- **No claim is written again**: no pause is asked for while an attempt is claimed. -/
def ClaimsOnce (p : JournalledJob) : JournalStep σ → Prop
  | .transition (.request asked) _ _ => asked.isFor "pause" = true → p.job.kind ≠ .claimed
  | _ => True

/-! ## What the steps do to the names -/

section Effects

variable {s : JobState} {step : JobStep σ} {move moved : Move}

theorem attemptId_of_get {frame base : StateFrame} (h : frame.get .attemptId = base.get .attemptId) :
    frame.attemptId = base.attemptId := by
  show frame.string .attemptId = base.string .attemptId
  unfold StateFrame.string
  rw [h]

theorem string_of_none {frame : StateFrame} {m : Member} (h : frame.get m = none) : frame.string m = none := by
  unfold StateFrame.string
  rw [h]

theorem Effect.activation (h : Effect job s step moved) {id : PyStr} (hid : moved.frame.activationId = some id) :
    s.frame.activationId = some id ∨ step.fresh = some id := by
  have hsame : ∀ {freshId : PyStr}, moved.frame.get .activationId = some (.str freshId) → freshId = id := by
    intro freshId hget
    have hread := (StateFrame.get_of_string hid).1
    rw [hget] at hread
    exact Json.str.inj (Option.some.inj hread)
  cases h with
  | keeps hplain hframe hkind => exact Or.inl (hframe.activationId ▸ hid)
  | refuses hplain hfrom hkind hframe =>
    have hnone : moved.frame.activationId = none := string_of_none (hframe _ (by decide))
    rw [hnone] at hid
    cases hid
  | registers freshId hstep hfrom hkind hframe =>
    rw [hstep, ← hsame hframe.activationId]
    exact Or.inr rfl
  | claims hplain attemptId hfresh hfrom hkind hframe =>
    exact Or.inl (activationId_of_get hframe.activationId ▸ hid)
  | releases reason hstep hfrom hkind hframe =>
    exact Or.inl (activationId_of_get hframe.activationId ▸ hid)
  | launches hplain hfrom hkind hframe hattempt => exact Or.inl (hframe.activationId ▸ hid)
  | fences hstep hplain hfrom hkind hframe hattempt => exact Or.inl (hframe.activationId ▸ hid)
  | begins hplain freshId hfresh hfrom hkind hframe =>
    rw [hfresh, hsame hframe.activationId]
    exact Or.inr rfl

theorem Effect.attempt (h : Effect job s step moved) {id : PyStr} (hid : moved.frame.attemptId = some id) :
    s.frame.attemptId = some id ∨ step.fresh = some id := by
  cases h with
  | keeps hplain hframe hkind => exact Or.inl (hframe.attemptId ▸ hid)
  | refuses hplain hfrom hkind hframe =>
    have hnone : moved.frame.attemptId = none := string_of_none (hframe _ (by decide))
    rw [hnone] at hid
    cases hid
  | registers freshId hstep hfrom hkind hframe =>
    have hnone : moved.frame.attemptId = none := string_of_none hframe.attemptId
    rw [hnone] at hid
    cases hid
  | claims hplain attemptId hfresh hfrom hkind hframe =>
    have hread := (StateFrame.get_of_string hid).1
    rw [hframe.attemptId] at hread
    rw [hfresh, Json.str.inj (Option.some.inj hread)]
    exact Or.inr rfl
  | releases reason hstep hfrom hkind hframe => exact Or.inl (attemptId_of_get hframe.attemptId ▸ hid)
  | launches hplain hfrom hkind hframe hattempt => exact Or.inl (hframe.attemptId ▸ hid)
  | fences hstep hplain hfrom hkind hframe hattempt => exact Or.inl (hframe.attemptId ▸ hid)
  | begins hplain freshId hfresh hfrom hkind hframe => exact Or.inl (attemptId_of_get hframe.attemptId ▸ hid)

variable {value : Option Json}

theorem readsOrdinal_int {n : Int} (h : value = some (.int n)) : ReadsOrdinal value :=
  ⟨some n, by rw [h]; rfl⟩

theorem readsOrdinal_none (h : value = none) : ReadsOrdinal value :=
  ⟨none, by rw [h]; rfl⟩

theorem Effect.ordinal (h : Effect job s step moved) (hs : ReadsOrdinal (s.frame.get .activationOrdinal)) :
    ReadsOrdinal (moved.frame.get .activationOrdinal) := by
  cases h with
  | keeps hplain hframe hkind => exact (hframe .activationOrdinal (by decide)).symm ▸ hs
  | refuses hplain hfrom hkind hframe => exact readsOrdinal_none (hframe _ (by decide))
  | registers freshId hstep hfrom hkind hframe => exact readsOrdinal_int hframe.activationOrdinal
  | claims hplain attemptId hfresh hfrom hkind hframe => exact hframe.activationOrdinal.symm ▸ hs
  | releases reason hstep hfrom hkind hframe => exact hframe.activationOrdinal.symm ▸ hs
  | launches hplain hfrom hkind hframe hattempt => exact (hframe .activationOrdinal (by decide)).symm ▸ hs
  | fences hstep hplain hfrom hkind hframe hattempt => exact (hframe .activationOrdinal (by decide)).symm ▸ hs
  | begins hplain freshId hfresh hfrom hkind hframe => exact readsOrdinal_int hframe.activationOrdinal

theorem pause_of_claimed (hprevious : s.previousState.isSome = true → s.kind = .claimed)
    (hasks : Asks env job jobId s step move) (hwrites : Writes env s.kind move moved) (hfrom : s.kind = .claimed)
    (hkind : moved.kind = .claimed) : ∃ asked, step = .request asked ∧ asked.isFor "pause" = true := by
  have hedge := edge_of_asks hprevious hasks
  rw [hfrom, hwrites.claimed_iff.mp hkind] at hedge
  cases step with
  | request asked =>
    refine ⟨asked, rfl, ?_⟩
    have hmove := hwrites.claimed_iff.mp hkind
    cases requestAsks_of_apply hasks with
    | cancels haction hterminal h =>
      rcases requestCancel_kind h with ⟨-, hcancel⟩ | ⟨-, -, hcancel⟩ <;> rw [hmove] at hcancel <;> cases hcancel
    | prioritizes priority haction hmem => simp [hfrom, priorityKinds] at hmem
    | records haction hmem => exact haction
    | pauses haction hmem => simp [hfrom] at hmem
    | revives haction hmem h => rcases hmem with hmem | hmem <;> rw [hfrom] at hmem <;> cases hmem
  | _ => simp [JobStep.edges] at hedge

end Effects

/-! ## The chain of a run -/

/-- **What is known of a job and its chain.** -/
structure Journalled (p : JournalledJob) : Prop where
  chain : FollowedChain p.frames
  first : p.frames = [] → p.job.kind = .submitted
  last : p.left = false → ∀ last ∈ p.frames.getLast?, last.kind = p.job.kind ∧ last.members = p.job.frame
  quiescent : p.left = true → p.job.kind.isQuiescent = true
  activations : ∀ f ∈ p.frames, ∀ id, f.activationId = some id → id ∈ p.job.issued
  attempts : ∀ f ∈ p.frames, ∀ id, f.attemptId = some id → id ∈ p.job.issued
  activation : ∀ id, p.job.frame.activationId = some id → id ∈ p.job.issued
  attempt : ∀ id, p.job.frame.attemptId = some id → id ∈ p.job.issued
  ordinal : ReadsOrdinal (p.job.frame.get .activationOrdinal)
  previous : p.job.previousState.isSome = true → p.job.kind = .claimed

section Runs

variable {p p' : JournalledJob} {step : JobStep σ} {move moved : Move}

theorem journalled_submitted (priority : Int) : Journalled ⟨JobState.submitted priority, [], false⟩ where
  chain := .nil
  first _ := rfl
  last _ last hlast := by cases hlast
  quiescent hleft := by cases hleft
  activations f hf := by cases hf
  attempts f hf := by cases hf
  activation id hid := by cases hid
  attempt id hid := by cases hid
  ordinal := ⟨none, rfl⟩
  previous h := by cases h

variable {f : ChainFrame}

theorem Journalled.goesOn (h : Journalled p) (hleft : p.left = false)
    (hactivation : f.activationId = p.job.frame.activationId)
    (hattempt : f.attemptId = p.job.frame.attemptId ∨ f.attemptId = none) (hkind : f.kind ≠ .claimed)
    (hrunning : f.kind = .running → p.job.kind = .claimed ∨ p.job.kind = .running)
    (hordinal : ReadsOrdinal (f.members.get .activationOrdinal)) : FrameFollows p.frames f := by
  cases hlast : p.frames.getLast? with
  | none =>
    rw [List.getLast?_eq_none_iff.mp hlast]
    exact .opens (by simp) (by simp) hkind hordinal
  | some last =>
    obtain ⟨hlastKind, hmembers⟩ := h.last hleft last hlast
    refine .continues last hlast ?_ ?_ hkind ?_
    · rw [hactivation]
      exact congrArg StateFrame.activationId hmembers.symm
    · rw [show last.attemptId = p.job.frame.attemptId from congrArg StateFrame.attemptId hmembers]
      exact hattempt
    · rw [hlastKind]
      exact hrunning

theorem Journalled.opens (h : Journalled p) (hleft : p.left = false)
    (hother : f.activationId ≠ p.job.frame.activationId)
    (hnew : ∀ id, f.activationId = some id → id ∉ p.job.issued) (hkind : f.kind ≠ .claimed)
    (hordinal : ReadsOrdinal (f.members.get .activationOrdinal)) : FrameFollows p.frames f := by
  refine .opens (fun last hlast hsame => ?_) (fun id hid g hg hgid => ?_) hkind hordinal
  · have hmembers := (h.last hleft last hlast).2
    exact hother (hsame.symm.trans (congrArg StateFrame.activationId hmembers))
  · exact hnew id hid (h.activations g hg id hgid)

theorem Journalled.follows (h : Journalled p) (hleft : p.left = false) (stamp : Stamp)
    (heffect : Effect job p.job step moved) (hfresh : ∀ id, step.fresh = some id → id ∉ p.job.issued ∧ id.codes ≠ [])
    (honce : p.job.kind = .claimed → moved.kind ≠ .claimed) :
    FrameFollows p.frames ⟨stamp, moved.kind, moved.frame⟩ := by
  have hordinal := heffect.ordinal h.ordinal
  -- a frame that names a new activation is of another one than the job was in
  have hbegins : ∀ freshId, step.fresh = some freshId → moved.frame.get .activationId = some (.str freshId) →
      moved.kind ≠ .claimed → FrameFollows p.frames ⟨stamp, moved.kind, moved.frame⟩ := by
    intro freshId hid hget hkind
    obtain ⟨hnew, hne⟩ := hfresh freshId hid
    have hactivation : moved.frame.activationId = some freshId := StateFrame.string_of_get hget hne
    refine h.opens hleft ?_ ?_ hkind hordinal
    · intro hsame
      exact hnew (h.activation freshId (hsame.symm.trans hactivation))
    · intro id hsome
      rw [← Option.some.inj (hactivation.symm.trans hsome)]
      exact hnew
  cases heffect with
  | keeps hplain hframe hkind =>
    have hclaimed : moved.kind ≠ .claimed := fun hclaimed =>
      honce ((hkind (by rw [hclaimed]; decide)).symm.trans hclaimed) hclaimed
    refine h.goesOn hleft hframe.activationId (Or.inl hframe.attemptId) hclaimed (fun hruns => ?_) hordinal
    have hruns : moved.kind = .running := hruns
    exact Or.inr ((hkind (by rw [hruns]; decide)).symm.trans hruns)
  | refuses hplain hfrom hkind hframe =>
    have hactivation : moved.frame.activationId = none := string_of_none (hframe _ (by decide))
    have hattempt : moved.frame.attemptId = none := string_of_none (hframe _ (by decide))
    have hclaimed : moved.kind ≠ .claimed := by simp [hkind]
    by_cases hsame : p.job.frame.activationId = none
    · refine h.goesOn hleft (hactivation.trans hsame.symm) (Or.inr hattempt) hclaimed (fun hruns => ?_) hordinal
      rw [show moved.kind = .running from hruns] at hkind
      cases hkind
    · refine h.opens hleft (fun heq => hsame (heq.symm.trans hactivation)) (fun id hid => ?_) hclaimed hordinal
      rw [show moved.frame.activationId = some id from hid] at hactivation
      cases hactivation
  | registers freshId hstep hfrom hkind hframe =>
    refine hbegins freshId (by rw [hstep]; rfl) hframe.activationId ?_
    rcases hkind with hkind | hkind <;> simp [hkind]
  | claims hplain attemptId hfreshId hfrom hkind hframe =>
    obtain ⟨hnew, hne⟩ := hfresh attemptId hfreshId
    cases hlast : p.frames.getLast? with
    | none =>
      have hsubmitted := h.first (List.getLast?_eq_none_iff.mp hlast)
      rw [hfrom] at hsubmitted
      cases hsubmitted
    | some last =>
      have hmembers := (h.last hleft last hlast).2
      refine .claims last hlast ?_ attemptId (StateFrame.string_of_get hframe.attemptId hne) ?_ hkind
        (readsOrdinal_int hframe.attemptOrdinal)
      · exact (activationId_of_get hframe.activationId).trans (congrArg StateFrame.activationId hmembers.symm)
      · exact fun g hg hgid => hnew (h.attempts g hg attemptId hgid)
  | releases reason hstep hfrom hkind hframe =>
    refine h.goesOn hleft (activationId_of_get hframe.activationId) (Or.inl (attemptId_of_get hframe.attemptId))
      ?_ (fun hruns => ?_) hordinal
    · rcases hkind with hkind | hkind <;> simp [hkind]
    · rcases hkind with hkind | hkind <;> rw [show moved.kind = .running from hruns] at hkind <;> cases hkind
  | launches hplain hfrom hkind hframe hattempt =>
    exact h.goesOn hleft hframe.activationId (Or.inl hframe.attemptId) (by simp [hkind])
      (fun _ => Or.inl hfrom) hordinal
  | fences hstep hplain hfrom hkind hframe hattempt =>
    exact h.goesOn hleft hframe.activationId (Or.inl hframe.attemptId) (by simp [hkind])
      (fun _ => Or.inr hfrom) hordinal
  | begins hplain freshId hfreshId hfrom hkind hframe =>
    refine hbegins freshId hfreshId hframe.activationId ?_
    rcases hkind with hkind | hkind <;> simp [hkind]

variable {stamp : Stamp}

theorem Journalled.transition (h : Journalled p) {reread : Bool} (hleft : p.left = false)
    {s : JobState} (hnext : jobNext env job jobId p.job (step, reread) = some s)
    (honce : ∀ asked, step = .request asked → asked.isFor "pause" = true → p.job.kind ≠ .claimed) :
    Journalled ⟨s, p.frames ++ [⟨stamp, s.kind, s.frame⟩], false⟩ := by
  obtain ⟨hfresh, moved, hwritten, rfl⟩ := jobNext_eq_some.mp hnext
  obtain ⟨move, hasks, hwrites⟩ := asks_of_written hwritten
  have heffect : Effect job p.job step moved := effect_of_asks h.previous hasks hwrites
  have hfollows := h.follows hleft stamp heffect hfresh fun hfrom hkind => by
    obtain ⟨asked, hstep, hpause⟩ := pause_of_claimed h.previous hasks hwrites hfrom hkind
    exact honce asked hstep hpause hfrom
  have hactivation : ∀ id, moved.frame.activationId = some id → id ∈ step.fresh.toList ++ p.job.issued := by
    intro id hid
    rcases heffect.activation hid with hold | hnew
    · exact List.mem_append_right _ (h.activation id hold)
    · exact List.mem_append_left _ (Option.mem_toList.mpr hnew)
  have hattempt : ∀ id, moved.frame.attemptId = some id → id ∈ step.fresh.toList ++ p.job.issued := by
    intro id hid
    rcases heffect.attempt hid with hold | hnew
    · exact List.mem_append_right _ (h.attempt id hold)
    · exact List.mem_append_left _ (Option.mem_toList.mpr hnew)
  refine {
    chain := h.chain.snoc hfollows
    first := by simp
    last := fun _ last hlast => ?_
    quiescent := fun hleft => nomatch hleft
    activations := fun f hf id hid => ?_
    attempts := fun f hf id hid => ?_
    activation := hactivation
    attempt := hattempt
    ordinal := heffect.ordinal h.ordinal
    previous := fun hprevious => (previousState_after hprevious).2 }
  · obtain rfl := Option.some.inj ((List.getLast?_concat (l := p.frames)).symm.trans hlast)
    exact ⟨rfl, rfl⟩
  · rcases List.mem_append.mp hf with hf | hf
    · exact List.mem_append_right _ (h.activations f hf id hid)
    · rw [List.mem_singleton.mp hf] at hid
      exact hactivation id hid
  · rcases List.mem_append.mp hf with hf | hf
    · exact List.mem_append_right _ (h.attempts f hf id hid)
    · rw [List.mem_singleton.mp hf] at hid
      exact hattempt id hid

variable {ticket : String × ℕ × String} {request : DetachRequest} {placement : List PyStr}
variable {marker : Marker}

theorem transferring_get {workspaceId : String} {prior : Frame} : ∀ m ∈ countingMembers,
      (Sealing.transferringMembers workspaceId request marker prior placement ticket).get m = none := by
  intro m hm
  refine StateFrame.get_replace_other ?_ StateFrame.empty
  revert m
  simp [countingMembers]

theorem Journalled.detach (h : Journalled p) (hleft : p.left = false)
    (hquiescent : p.job.kind.isQuiescent = true) {prior : Frame}
    :
    Journalled ⟨p.job, p.frames ++ [⟨stamp, .transferring,
      Sealing.transferringMembers stamp.workspaceId request marker prior placement ticket⟩], true⟩ := by
  let members := Sealing.transferringMembers stamp.workspaceId request marker prior placement ticket
  have hnone : ∀ m ∈ countingMembers, members.get m = none := transferring_get
  have hactivation : members.activationId = none := string_of_none (hnone _ (by decide))
  have hattempt : members.attemptId = none := string_of_none (hnone _ (by decide))
  have hordinal : ReadsOrdinal (members.get .activationOrdinal) := readsOrdinal_none (hnone _ (by decide))
  have hfollows : FrameFollows p.frames ⟨stamp, .transferring, members⟩ := by
    by_cases hsame : p.job.frame.activationId = none
    · exact h.goesOn hleft (hactivation.trans hsame.symm) (Or.inr hattempt) StateKind.noConfusion
        StateKind.noConfusion hordinal
    · refine h.opens hleft (fun heq => hsame (heq.symm.trans hactivation)) (fun id hid => ?_)
        StateKind.noConfusion hordinal
      cases hactivation.symm.trans hid
  refine {
    chain := h.chain.snoc hfollows
    first := by simp
    last := fun hstays => nomatch hstays
    quiescent := fun _ => hquiescent
    activations := fun f hf id hid => ?_
    attempts := fun f hf id hid => ?_
    activation := h.activation
    attempt := h.attempt
    ordinal := h.ordinal
    previous := h.previous }
  · rcases List.mem_append.mp hf with hf | hf
    · exact h.activations f hf id hid
    · rw [List.mem_singleton.mp hf] at hid
      cases hactivation.symm.trans hid
  · rcases List.mem_append.mp hf with hf | hf
    · exact h.attempts f hf id hid
    · rw [List.mem_singleton.mp hf] at hid
      cases hattempt.symm.trans hid

theorem Journalled.arrive (h : Journalled p) (hleft : p.left = true) {provenance : List (PyStr × Json)}
    : Journalled ⟨p.job.arrived provenance,
      [⟨stamp, (p.job.arrived provenance).kind, (p.job.arrived provenance).frame⟩], false⟩ := by
  have hget : ∀ m : Member, m ≠ .transfer → (p.job.arrived provenance).frame.get m = p.job.frame.get m :=
    fun m hm => StateFrame.get_replace_other (by simpa using hm) p.job.frame
  have hactivation : (p.job.arrived provenance).frame.activationId = p.job.frame.activationId :=
    activationId_of_get (hget .activationId (by decide))
  have hattempt : (p.job.arrived provenance).frame.attemptId = p.job.frame.attemptId :=
    attemptId_of_get (hget .attemptId (by decide))
  have hordinal : ReadsOrdinal ((p.job.arrived provenance).frame.get .activationOrdinal) :=
    (hget .activationOrdinal (by decide)).symm ▸ h.ordinal
  have hkind : p.job.kind ≠ .claimed := by
    intro hclaimed
    have hquiescent := h.quiescent hleft
    rw [hclaimed] at hquiescent
    cases hquiescent
  refine {
    chain := .snoc .nil (.opens (by simp) (by simp) hkind hordinal)
    first := fun hempty => nomatch hempty
    last := fun _ last hlast => ?_
    quiescent := fun hstill => nomatch hstill
    activations := fun f hf id hid => ?_
    attempts := fun f hf id hid => ?_
    activation := fun id hid => h.activation id (hactivation ▸ hid)
    attempt := fun id hid => h.attempt id (hattempt ▸ hid)
    ordinal := hordinal
    previous := fun hprevious => nomatch hprevious }
  · obtain rfl := Option.some.inj hlast
    exact ⟨rfl, rfl⟩
  · rw [List.mem_singleton.mp hf] at hid
    exact h.activation id (hactivation ▸ hid)
  · rw [List.mem_singleton.mp hf] at hid
    exact h.attempt id (hattempt ▸ hid)

/-- **Every step keeps** what is known of a job and its chain. -/
theorem Journalled.next (h : Journalled p) {a : JournalStep σ} (hnext : journalNext env job jobId p a = some p')
    (honce : ClaimsOnce p a) : Journalled p' := by
  cases a with
  | transition step reread stamp =>
    simp only [journalNext, Option.ite_none_left_eq_some] at hnext
    obtain ⟨hleft, hnext⟩ := hnext
    obtain ⟨s, hs, rfl⟩ := Option.map_eq_some_iff.mp hnext
    refine h.transition (Bool.eq_false_iff.mpr hleft) hs fun asked hstep hpause => ?_
    subst hstep
    exact honce hpause
  | detach request marker prior placement ticket stamp =>
    simp only [journalNext, Option.ite_none_right_eq_some, Option.some.injEq] at hnext
    obtain ⟨⟨hleft, hquiescent⟩, rfl⟩ := hnext
    exact h.detach hleft hquiescent
  | arrive provenance stamp =>
    simp only [journalNext, Option.ite_none_right_eq_some, Option.some.injEq] at hnext
    obtain ⟨hleft, rfl⟩ := hnext
    exact h.arrive hleft

theorem journalled_of_reachable
    (hs : ((journalRuns (σ := σ) env job jobId).guarded ClaimsOnce).Reachable p) : Journalled p := by
  refine System.Reachable.invariant (I := Journalled) ?_ ?_ hs
  · rintro p ⟨priority, rfl⟩
    exact journalled_submitted priority
  · rintro p a p' - hp ⟨hnext, honce⟩
    exact hp.next hnext honce

/-- **Every chain has its timeline**, in every run in which no pause is asked for while an attempt is
claimed: each activation is listed once, in it each attempt once and in the order of the claims, with the time
of the first frame after the attempt stopped running and the first failure from that frame on. -/
theorem timeline_of_run (hs : ((journalRuns (σ := σ) env job jobId).guarded ClaimsOnce).Reachable p) :
    ∃ activations, timeline (p.frames.map ChainFrame.document) = .ok (activations, false)
      ∧ TimelineOf p.frames activations :=
  timeline_of_chained (journalled_of_reachable hs).chain

end Runs

/-! ## Two runs -/

def plainStamp (createdAt : String) (h : createdAt ≠ "") : Stamp where
  workspaceId := "w"
  jobKey := ⟨none, "job"⟩
  placement := []
  stateGeneration := 1
  priority := 100
  previousRecordRef := none
  createdAt := createdAt
  createdAt_ne hempty := h (by simpa [PyStr.ofString] using hempty)
  recordRef := "r"

def plainTransition (step : JobStep PUnit) (createdAt : String) (h : createdAt ≠ "" := by decide) :
    JournalStep PUnit := .transition step true (plainStamp createdAt h)

def plainJournal (steps : List (JournalStep PUnit)) : Option JournalledJob :=
  System.follow (journalNext plainJoinEnv plainJob "job") ⟨JobState.submitted 100, [], false⟩ steps

def failWith (code : PyStr) : Json :=
  .obj [("format", .str "httk-workflow-outcome"), ("format_version", .int 2),
    ("job_id", .str "job"), ("activation_id", .str "a1"), ("attempt_id", .str "t1"),
    ("action", .str "fail"), ("failure", .obj [("code", .str code), ("message", .str "it failed")])]

def secondLaunch : List (JournalStep PUnit) :=
  [plainTransition (.register "a1") "1", plainTransition (plainClaim "t0") "2",
    plainTransition (.release "maintenance_lock") "3", plainTransition (plainClaim "t1") "4",
    plainTransition plainLaunch "5"]

def plainPause : JournalStep PUnit := plainTransition (.request (plainRequest "pause")) "6"

def failedOutcome : List (JournalStep PUnit) :=
  [plainTransition (.fence plainPoll (.ok (failWith "diverged"))) "7",
    plainTransition (plainApply (failWith "diverged") "a2") "8"]

def pausedClaim : List (JournalStep PUnit) :=
  [plainTransition (.register "a1") "1", plainTransition (plainClaim "t1") "2", plainPause]

/-- The chain of the attempts, of a pause while one runs, and of its end has its timeline. -/
theorem timeline_of_run_failed : ∃ p,
    ((journalRuns (σ := PUnit) plainJoinEnv plainJob "job").guarded ClaimsOnce).Reachable p
      ∧ p.frames.length = 8
      ∧ ∃ activations, timeline (p.frames.map ChainFrame.document) = .ok (activations, false)
        ∧ TimelineOf p.frames activations := by
  have hrun : (plainJournal secondLaunch).bind (fun p =>
      (journalNext plainJoinEnv plainJob "job" p plainPause).bind fun q =>
        (System.follow (journalNext plainJoinEnv plainJob "job") q failedOutcome).map fun r =>
          (p.job.kind, r.frames.length)) = some (.running, 8) := by
    decide +kernel
  obtain ⟨p, hp, hrun⟩ := Option.bind_eq_some_iff.mp hrun
  obtain ⟨q, hq, hrun⟩ := Option.bind_eq_some_iff.mp hrun
  obtain ⟨r, hr, hfacts⟩ := Option.map_eq_some_iff.mp hrun
  obtain ⟨hkind, hlength⟩ := Prod.mk.inj hfacts
  have hlaunched : ∀ a ∈ secondLaunch, ∀ t, ClaimsOnce t a := by
    simp [secondLaunch, plainTransition, ClaimsOnce, plainClaim, plainLaunch]
  have hfailed : ∀ a ∈ failedOutcome, ∀ t, ClaimsOnce t a := by
    simp [failedOutcome, plainTransition, ClaimsOnce, plainApply]
  -- the pause is asked for while the attempt runs
  have hpause : ClaimsOnce p plainPause := fun _ hclaimed => by cases hkind.symm.trans hclaimed
  have hs : ((journalRuns (σ := PUnit) plainJoinEnv plainJob "job").guarded ClaimsOnce).Reachable p :=
    ((System.run_of_follow hp).guarded hlaunched).reachable (.init ⟨100, rfl⟩)
  have hs' : ((journalRuns (σ := PUnit) plainJoinEnv plainJob "job").guarded ClaimsOnce).Reachable r :=
    ((System.run_of_follow hr).guarded hfailed).reachable (hs.next plainPause hpause hq)
  exact ⟨r, hs', hlength, timeline_of_run hs'⟩

/-- **An attempt is listed twice, and has a failure it did not stop with**: a pause is asked for while it is
claimed; and an outcome fails the job, the failure of which is not in the frame the attempt stops with. -/
theorem timeline_repeats :
    (∃ p activations gaps, (journalRuns (σ := PUnit) plainJoinEnv plainJob "job").Reachable p
      ∧ timeline (p.frames.map ChainFrame.document) = .ok (activations, gaps)
      ∧ ∃ entry ∈ activations,
        entry.attempts.map AttemptEntry.attemptId = [some (PyStr.ofString "t1"), some (PyStr.ofString "t1")])
    ∧ ∃ p activations gaps, (journalRuns (σ := PUnit) plainJoinEnv plainJob "job").Reachable p
      ∧ timeline (p.frames.map ChainFrame.document) = .ok (activations, gaps)
      ∧ ∃ entry ∈ activations, ∃ attempt ∈ entry.attempts,
        attempt.failure ≠ (stoppedFrom p.frames attempt.attemptId).head?.bind ChainFrame.failure := by
  constructor
  · have hrun : (plainJournal pausedClaim).bind (fun p =>
        (timeline (p.frames.map ChainFrame.document)).toOption.map fun t =>
          t.fst.map fun entry => entry.attempts.map AttemptEntry.attemptId)
        = some [[some (PyStr.ofString "t1"), some (PyStr.ofString "t1")]] := by
      decide +kernel
    obtain ⟨p, hp, hrun⟩ := Option.bind_eq_some_iff.mp hrun
    obtain ⟨⟨activations, gaps⟩, htimeline, hids⟩ := Option.map_eq_some_iff.mp hrun
    obtain ⟨entry, hentry, hid⟩ := List.mem_map.mp (hids ▸ List.mem_singleton.mpr rfl)
    exact ⟨p, activations, gaps, (System.run_of_follow hp).reachable (.init ⟨100, rfl⟩),
      toOption_eq_some.mp htimeline, entry, hentry, hid⟩
  · have hrun : (plainJournal (secondLaunch ++ failedOutcome)).bind (fun p =>
        (timeline (p.frames.map ChainFrame.document)).toOption.map fun t =>
          t.fst.any fun entry => entry.attempts.any fun attempt => attempt.failure.isSome
            && ((stoppedFrom p.frames attempt.attemptId).head?.bind ChainFrame.failure).isNone)
        = some true := by
      decide +kernel
    obtain ⟨p, hp, hrun⟩ := Option.bind_eq_some_iff.mp hrun
    obtain ⟨⟨activations, gaps⟩, htimeline, hany⟩ := Option.map_eq_some_iff.mp hrun
    obtain ⟨entry, hentry, hany⟩ := List.any_eq_true.mp hany
    obtain ⟨attempt, hattempt, hfailure⟩ := List.any_eq_true.mp hany
    obtain ⟨hsome, hnone⟩ := Bool.and_eq_true_iff.mp hfailure
    refine ⟨p, activations, gaps, (System.run_of_follow hp).reachable (.init ⟨100, rfl⟩),
      toOption_eq_some.mp htimeline, entry, hentry, attempt, hattempt, fun hsame => ?_⟩
    rw [hsame, Option.isNone_iff_eq_none.mp hnone] at hsome
    cases hsome
