import HttkWorkflow.RecordChain

/-!
# What a transition tells its caller

A caller of `transition` acts on the answer: a marker that came back is its
job's, and after a `TransitionLostError` the job is somebody else's. The
answer is worked out after the rename, from three looks at the tree, and
this module asks when it is right.

It is not always. The winner looks for its own marker, and another actor
that saw the marker first may have moved it on by then. The winner then sees
neither its destination nor its source, finds the marker the other actor
left, and reports a lost transition although the frame it appended is a
link of the history. `overtaken_reportedLost` is that run.

The exact reason is that one marker was renamed away before the call that
published it had looked. Where no rename does that (`Undisturbed`), every
answer is right (`verdict_of_undisturbed`); and where one does, the call it
happened to never returns (`overtaken_never_returned`).
-/

/-- Whether a call is over. -/
def TransitionPhase.finished : TransitionPhase → Bool
  | returned _ | raised _ _ => true
  | _ => false

/-- Whether a call has returned normally. -/
def TransitionPhase.isReturned : TransitionPhase → Bool
  | returned _ => true
  | _ => false

/-- Whether a call has raised `TransitionLostError`. -/
def TransitionPhase.isLost : TransitionPhase → Bool
  | raised (.lost _ _) _ => true
  | _ => false

/-- The marker a call has prepared and does not take for its job's: the
rename is still to come, or the look for it was in vain. -/
def TransitionPhase.missing : TransitionPhase → Option Marker
  | moving _ d | probingSource _ d | locating _ d => some d
  | raised _ d => d
  | _ => none

namespace TransitionState

/-- The frame at a reference became the frame of an authoritative marker. -/
def Authoritative (s : TransitionState) (ref : RecordRef) : Prop :=
  ∃ m ∈ s.history, m.recordRef = ref

/-- **A right answer**: a call that is over returned if and only if the frame
it prepared became the frame of an authoritative marker, and it reported a
lost transition only if no marker ever referred to that frame. -/
structure Verdict (s : TransitionState) (c : TransitionCall) : Prop where
  returned : c.phase.finished = true →
    (c.phase.isReturned = true
      ↔ ∃ d, c.phase.prepared = some d ∧ s.Authoritative d.recordRef)
  lost : c.phase.isLost = true →
    ∀ d, c.phase.prepared = some d → ¬s.Authoritative d.recordRef

/-- **An undisturbed step**: no rename takes away a marker that some call
published and has not returned yet. -/
def Undisturbed (s : TransitionState) : TransitionLabel → Prop
  | .rename i true => ∀ c, s.calls i = some c → c.request.marker ∈ s.markers →
      ∀ j c', s.calls j = some c' → c'.phase.prepared = some c.request.marker →
        c'.phase = .returned c.request.marker
  | _ => True

/-- **What the looks mean**: a marker that was looked for in vain never was
in the tree, and one whose look is still to come is in the tree if it ever
was. -/
structure Attentive (s : TransitionState) : Prop where
  missing : ∀ i c d, s.calls i = some c → c.phase.missing = some d → d ∉ s.history
  awaited : ∀ i c k d, s.calls i = some c → c.phase = .probingDestination k d →
    d ∈ s.history → d ∈ s.markers
  published : ∀ i c d, s.calls i = some c → c.phase = .returned d → d ∈ s.history

theorem missing_prepared {p : TransitionPhase} {d : Marker} (h : p.missing = some d) : p.prepared = some d := by
  cases p <;> first | exact h | cases h

namespace Attentive

variable {wid : String} {attempts : Nat} {s s' : TransitionState}

variable {c : TransitionCall}

theorem setPhase {i : Nat} {p : TransitionPhase} (hs : s.Attentive)
    (hmissing : ∀ d, p.missing = some d → d ∉ s.history)
    (hawaited : ∀ k d, p = .probingDestination k d → d ∈ s.history → d ∈ s.markers)
    (hpublished : ∀ d, p = .returned d → d ∈ s.history) :
    (s.setPhase i c p).Attentive := by
  refine ⟨?_, ?_, ?_⟩
  · intro j c' d hj hd
    rw [setPhase_calls] at hj
    split_ifs at hj
    · obtain rfl := Option.some.inj hj
      exact hmissing d hd
    · exact hs.missing j c' d hj hd
  · intro j c' k d hj hd
    rw [setPhase_calls] at hj
    split_ifs at hj
    · obtain rfl := Option.some.inj hj
      exact hawaited k d hd
    · exact hs.awaited j c' k d hj hd
  · intro j c' d hj hd
    rw [setPhase_calls] at hj
    split_ifs at hj
    · obtain rfl := Option.some.inj hj
      exact hpublished d hd
    · exact hs.published j c' d hj hd

theorem move {i k : Nat} {d : Marker} (hs : s.Attentive)
    (hcoh : Coherent wid s) (hc : s.calls i = some c) (hph : c.phase = .moving k d)
    (ha : c.request.marker ∈ s.markers) (hg : s.Undisturbed (.rename i true)) :
    ((s.move c.request.marker d).setPhase i c (.probingDestination k d)).Attentive := by
  have hd : c.phase.prepared = some d := by rw [hph]; rfl
  -- what another call prepared is another marker
  have hother : ∀ j c' d', s.calls j = some c' → c'.phase.prepared = some d' → j ≠ i → d' ≠ d := by
    intro j c' d' hj hd' hji heq
    exact hji (hcoh.distinct j i c' c d' d hj hc hd' hd (by rw [heq]))
  refine ⟨?_, ?_, ?_⟩
  · intro j c' d' hj hmiss
    rw [setPhase_calls] at hj
    split_ifs at hj with hji
    · obtain rfl := Option.some.inj hj
      cases hmiss
    · rw [setPhase_history, mem_move_history]
      rintro (hmem | rfl)
      · exact hs.missing j c' d' hj hmiss hmem
      · exact hother j c' d' hj (missing_prepared hmiss) hji rfl
  · intro j c' k' d' hj hprobe hmem
    rw [setPhase_history, mem_move_history] at hmem
    rw [setPhase_markers, mem_move_markers]
    rw [setPhase_calls] at hj
    split_ifs at hj with hji
    · obtain rfl := Option.some.inj hj
      obtain ⟨-, rfl⟩ := TransitionPhase.probingDestination.inj hprobe
      exact Or.inr ⟨ha, rfl⟩
    · have hprep : c'.phase.prepared = some d' := by rw [hprobe]; rfl
      rcases hmem with hmem | rfl
      · refine Or.inl ⟨hs.awaited j c' k' d' hj hprobe hmem, ?_⟩
        rintro rfl
        have hret := hg c hc ha j c' hj hprep
        rw [hprobe] at hret
        cases hret
      · exact absurd rfl (hother j c' d' hj hprep hji)
  · intro j c' d' hj hret
    rw [setPhase_history, mem_move_history]
    rw [setPhase_calls] at hj
    split_ifs at hj with hji
    · obtain rfl := Option.some.inj hj
      cases hret
    · exact Or.inl (hs.published j c' d' hj hret)

/-- **An undisturbed step keeps every look meaningful.** -/
theorem next {l : TransitionLabel} (hs : s.Attentive) (hcoh : Coherent wid s)
    (h : s.next wid attempts l = some s') (hg : s.Undisturbed l) : s'.Attentive := by
  cases l with
  | call i r =>
    obtain ⟨hi, -, rfl⟩ := next_call h
    refine hs.setPhase (i := i) (c := ⟨r, .called⟩) (p := .called) ?_ ?_ ?_
    · intro d hd
      cases hd
    · intro k d hd
      cases hd
    · intro d hd
      cases hd
  | prepare i f =>
    obtain ⟨c, hc, -, ⟨e, rfl⟩ | ⟨p, hp, rfl⟩⟩ := next_prepare h
    · refine hs.setPhase ?_ ?_ ?_
      · intro d hd
        cases hd
      · intro k d hd
        cases hd
      · intro d hd
        cases hd
    · -- the marker prepared refers past the end of the journal, and no older one does
      have hfresh : c.request.destination (.frame s.journal.length) ∉ s.history := by
        intro hmem
        rcases hcoh.origin _ hmem with hinit | ⟨j, c', hc', hd'⟩
        · cases hinit
        · obtain ⟨n, hdest, hn⟩ := hcoh.prepared j c' _ hc' hd'
          have href : RecordRef.frame s.journal.length = .frame n :=
            congrArg Marker.recordRef hdest
          obtain rfl := RecordRef.frame.inj href
          rw [List.getElem?_eq_none (Nat.le_refl _)] at hn
          cases hn
      have hs' : ({ s with journal := s.journal ++ [c.request.frame wid] }
          : TransitionState).Attentive := ⟨hs.missing, hs.awaited, hs.published⟩
      refine hs'.setPhase ?_ ?_ ?_
      · intro d hd
        have : d = c.request.destination (.frame s.journal.length) := by
          rcases hp with rfl | rfl | rfl <;> exact (Option.some.inj hd).symm
        rw [this]
        exact hfresh
      · rintro k d rfl
        rcases hp with hp | hp | hp <;> cases hp
      · rintro d rfl
        rcases hp with hp | hp | hp <;> cases hp
  | rename i x =>
    obtain ⟨c, k, d, hc, hph, ⟨⟨rfl, ha⟩, rfl⟩ | ⟨-, rfl⟩⟩ := next_rename h
    · exact hs.move hcoh hc hph ha hg
    · refine hs.setPhase ?_ ?_ ?_
      · intro d hd
        cases hd
      · intro k' d' heq hmem
        obtain ⟨-, rfl⟩ := TransitionPhase.probingDestination.inj heq
        exact absurd hmem (hs.missing i c d hc (by rw [hph]; rfl))
      · intro d hd
        cases hd
  | look i =>
    obtain ⟨c, d, p, hc, hd, rfl, ⟨k, hph, ⟨hin, rfl⟩ | ⟨hout, rfl⟩⟩ | ⟨⟨k, hph⟩, hp⟩⟩ := next_look h
    · refine hs.setPhase ?_ ?_ ?_
      · intro d' hd'
        cases hd'
      · intro k' d' hd'
        cases hd'
      · intro d' heq
        obtain rfl := TransitionPhase.returned.inj heq
        exact hcoh.current d hin
    · refine hs.setPhase ?_ ?_ ?_
      · intro d' hd'
        obtain rfl := Option.some.inj hd'
        exact fun hmem => hout (hs.awaited i c k d hc hph hmem)
      · intro k' d' hd'
        cases hd'
      · intro d' heq
        cases heq
    · have hmiss : d ∉ s.history :=
        hs.missing i c d hc (by rcases hph with hph | hph <;> rw [hph] <;> rfl)
      refine hs.setPhase ?_ ?_ ?_
      · intro d' hd'
        have : d' = d := by
          rcases hp with ⟨k', rfl | rfl⟩ | ⟨e, rfl⟩ <;> exact (Option.some.inj hd').symm
        rw [this]
        exact hmiss
      · rintro k' d' rfl
        rcases hp with ⟨k'', hp | hp⟩ | ⟨e, hp⟩ <;> cases hp
      · rintro d' rfl
        rcases hp with ⟨k'', hp | hp⟩ | ⟨e, hp⟩ <;> cases hp

end Attentive

/-- **Where no rename takes away a marker its publisher has not seen, every
answer is right.** -/
theorem verdict_of_undisturbed {wid : String} {attempts : Nat} {s : TransitionState}
    (hs : ((transitionSystem wid attempts).guarded Undisturbed).Reachable s)
    {i : Nat} {c : TransitionCall} (hc : s.calls i = some c) : s.Verdict c := by
  have hcoh := transitionSystem_coherent hs.of_guarded
  have hatt : s.Attentive := by
    refine hs.invariant ?_ ?_
    · rintro s ⟨hcalls, -⟩
      refine ⟨?_, ?_, ?_⟩
      · intro i c d hi
        rw [hcalls] at hi
        cases hi
      · intro i c k d hi
        rw [hcalls] at hi
        cases hi
      · intro i c d hi
        rw [hcalls] at hi
        cases hi
    · intro s l s' hr hI h
      exact hI.next (transitionSystem_coherent hr.of_guarded) h.1 h.2
  -- a marker with a call's reference is the marker the call prepared
  have hown : ∀ d, c.phase.prepared = some d → s.Authoritative d.recordRef → d ∈ s.history := by
    rintro d hd ⟨m, hm, href⟩
    rcases hcoh.origin m hm with hinit | ⟨j, c', hc', hd'⟩
    · obtain ⟨-, -, -, n, -, hn, -⟩ := hcoh.replaces hc hd
      rw [← href, hinit] at hn
      cases hn
    · obtain rfl := hcoh.distinct j i c' c m d hc' hc hd' hd href
      obtain rfl := Option.some.inj (hc.symm.trans hc')
      obtain rfl := Option.some.inj (hd.symm.trans hd')
      exact hm
  refine ⟨?_, ?_⟩
  · intro hfin
    constructor
    · intro hret
      cases hph : c.phase with
      | returned d => exact ⟨d, rfl, d, hatt.published i c d hc hph, rfl⟩
      | _ => rw [hph] at hret; cases hret
    · rintro ⟨d, hd, hauth⟩
      cases hph : c.phase with
      | returned d => rfl
      | raised e d' =>
        have hmiss : c.phase.missing = some d := by
          rw [hph] at hd ⊢
          exact hd
        exact absurd (hown d hd hauth) (hatt.missing i c d hc hmiss)
      | _ => rw [hph] at hfin; cases hfin
  · intro hlost d hd hauth
    cases hph : c.phase with
    | raised e d' =>
      have hmiss : c.phase.missing = some d := by
        rw [hph] at hd ⊢
        exact hd
      exact hatt.missing i c d hc hmiss (hown d hd hauth)
    | _ => rw [hph] at hlost; cases hlost

/-! ## The condition is exact -/

/-- **A call whose marker was taken away before it returned.** -/
def Overtaken (s : TransitionState) (j : Nat) (d : Marker) : Prop :=
  (d ∈ s.history ∧ d ∉ s.markers) ∧
    ∃ c, s.calls j = some c ∧ c.phase.prepared = some d ∧ c.phase.isReturned = false

section Overtaken

variable {wid : String} {attempts : Nat} {s s' : TransitionState} {j : Nat} {d : Marker}

theorem Overtaken.setPhase {i : Nat} {c : TransitionCall} {p : TransitionPhase}
    (ho : s.Overtaken j d) (hc : s.calls i = some c) (hp : p.prepared = c.phase.prepared)
    (hret : c.phase.prepared = some d → p.isReturned = false) :
    (s.setPhase i c p).Overtaken j d := by
  obtain ⟨hd, c', hj, hd', hnot⟩ := ho
  refine ⟨hd, ?_⟩
  by_cases hji : j = i
  · subst hji
    obtain rfl := Option.some.inj (hc.symm.trans hj)
    refine ⟨{ c with phase := p }, ?_, hp.trans hd', hret hd'⟩
    rw [setPhase_calls, if_pos rfl]
  · refine ⟨c', ?_, hd', hnot⟩
    rw [setPhase_calls, if_neg hji, hj]

variable {l : TransitionLabel}

/-- **A marker that left the tree never comes back**, because every rename
goes to a later generation of its job. -/
theorem Overtaken.next (hs : (transitionSystem wid attempts).Reachable s) (ho : s.Overtaken j d)
    (h : s.next wid attempts l = some s') : s'.Overtaken j d := by
  have hcoh := transitionSystem_coherent hs
  have hch := chained_of_reachable hs
  obtain ⟨⟨hdh, hdm⟩, c', hj, hd', hnot⟩ := id ho
  cases l with
  | call i r =>
    obtain ⟨hi, -, rfl⟩ := next_call h
    refine ⟨⟨hdh, hdm⟩, c', ?_, hd', hnot⟩
    show Function.update s.calls i _ j = some c'
    rw [Function.update_apply, if_neg, hj]
    rintro rfl
    rw [hi] at hj
    cases hj
  | prepare i f =>
    obtain ⟨c, hc, hcalled, heff⟩ := next_prepare h
    -- the overtaken call has prepared its marker, so it is another call
    have hji : j ≠ i := by
      rintro rfl
      obtain rfl := Option.some.inj (hc.symm.trans hj)
      rw [hcalled] at hd'
      cases hd'
    rcases heff with ⟨e, rfl⟩ | ⟨p, -, rfl⟩
    · refine ⟨⟨hdh, hdm⟩, c', ?_, hd', hnot⟩
      rw [setPhase_calls, if_neg hji, hj]
    · refine ⟨⟨hdh, hdm⟩, c', ?_, hd', hnot⟩
      rw [setPhase_calls, if_neg hji]
      exact hj
  | rename i x =>
    obtain ⟨c, k, e, hc, hph, ⟨⟨-, ha⟩, rfl⟩ | ⟨-, rfl⟩⟩ := next_rename h
    · have hrep := hcoh.replaces hc (d := e) (by rw [hph]; rfl)
      have hne : d ≠ e := by
        rintro rfl
        have hjob : d.jobId = c.request.marker.jobId := congrArg JobKey.id hrep.2.1
        obtain ⟨l, hl⟩ := List.head?_eq_some_iff.mp ((hch.newest _).mp ha)
        have hlin : Lineage s.journal (c.request.marker :: l) := by
          rcases hch.lineages c.request.marker.jobId with hnil | hlin
          · rw [hl] at hnil
            cases hnil
          · rw [hl] at hlin
            exact hlin
        have hmem : d ∈ c.request.marker :: l := hl ▸ mem_lineage.mpr ⟨hdh, hjob⟩
        have hg := hrep.1
        rcases List.mem_cons.mp hmem with heq | hmem
        · rw [heq] at hg
          omega
        · have := hlin.generation_lt d hmem
          omega
      have hmove : (s.move c.request.marker e).Overtaken j d := by
        refine ⟨⟨?_, ?_⟩, c', hj, hd', hnot⟩
        · rw [mem_move_history]
          exact Or.inl hdh
        · rw [mem_move_markers]
          rintro (⟨hm, -⟩ | ⟨-, heq⟩)
          · exact hdm hm
          · exact hne heq
      exact hmove.setPhase hc (by rw [hph]; rfl) (fun _ => rfl)
    · exact ho.setPhase hc (by rw [hph]; rfl) (fun _ => rfl)
  | look i =>
    obtain ⟨c, e, p, hc, he, rfl, hp⟩ := next_look h
    refine ho.setPhase hc ?_ ?_
    · rw [he]
      rcases hp with ⟨k, -, ⟨-, rfl⟩ | ⟨-, rfl⟩⟩ | ⟨-, ⟨k, rfl | rfl⟩ | ⟨f, rfl⟩⟩ <;> rfl
    · intro hed
      obtain rfl := Option.some.inj (he.symm.trans hed)
      rcases hp with ⟨k, -, ⟨hin, -⟩ | ⟨-, rfl⟩⟩ | ⟨-, ⟨k, rfl | rfl⟩ | ⟨f, rfl⟩⟩
      · exact absurd hin hdm
      all_goals rfl

theorem overtaken_never_returned (hs : (transitionSystem wid attempts).Reachable s)
    (ho : s.Overtaken j d) {as : List TransitionLabel}
    (hrun : (transitionSystem wid attempts).Run s as s') : s'.Overtaken j d := by
  induction hrun with
  | nil s => exact ho
  | cons h _ ih => exact ih (hs.step h) (ho.next hs h)

theorem overtaken_of_disturbed (hs : (transitionSystem wid attempts).Reachable s)
    (h : s.next wid attempts l = some s') (hl : ¬s.Undisturbed l) :
    ∃ j d, s'.Overtaken j d := by
  have hcoh := transitionSystem_coherent hs
  cases l with
  | call i r => exact absurd trivial hl
  | prepare i f => exact absurd trivial hl
  | look i => exact absurd trivial hl
  | rename i x =>
    cases x with
    | false => exact absurd trivial hl
    | true =>
      simp only [Undisturbed, not_forall] at hl
      obtain ⟨c, hc, ha, j, c', hj, hd, hnot⟩ := hl
      obtain ⟨c₀, k, e, hc₀, hph, ⟨-, rfl⟩ | ⟨hnx, rfl⟩⟩ := next_rename h
      · obtain rfl := Option.some.inj (hc.symm.trans hc₀)
        have he : c.phase.prepared = some e := by rw [hph]; rfl
        have hgen := (hcoh.replaces hc he).1
        have hne : c.request.marker ≠ e := by
          intro heq
          rw [← heq] at hgen
          exact Nat.ne_of_lt (Nat.lt_succ_self _) hgen
        have hji : j ≠ i := by
          rintro rfl
          obtain rfl := Option.some.inj (hc.symm.trans hj)
          exact hne (Option.some.inj (hd.symm.trans he))
        refine ⟨j, c.request.marker, ⟨?_, ?_⟩, c', ?_, hd, ?_⟩
        · rw [setPhase_history, mem_move_history]
          exact Or.inl (hcoh.current _ ha)
        · rw [setPhase_markers, mem_move_markers]
          rintro (⟨-, hself⟩ | ⟨-, heq⟩)
          · exact hself rfl
          · exact hne heq
        · rw [setPhase_calls, if_neg hji]
          exact hj
        · cases hp : c'.phase with
          | returned d' =>
            rw [hp] at hd hnot
            exact absurd (congrArg TransitionPhase.returned (Option.some.inj hd)) hnot
          | _ => rfl
      · obtain rfl := Option.some.inj (hc.symm.trans hc₀)
        exact absurd ⟨rfl, ha⟩ hnx

end Overtaken

/-! ## The run that misleads its caller -/

def claimAfterRegistration : TransitionRequest where
  marker := registration.destination (.frame 0)
  kind := .claimed
  updates := .empty
  priority := none
  allowSealed := false

/-- **A call that reports a lost transition although its frame counts**: the
registration renames the marker, another manager sees the job ready and
claims it, and only then the registration looks. -/
def overtakenSteps : List TransitionLabel :=
  [.call 0 registration, .prepare 0 none, .rename 0 true,
    .call 1 claimAfterRegistration, .prepare 1 none, .rename 1 true,
    .look 0, .look 0, .look 0]

/-- **Some run misleads its caller**: a call raises `TransitionLostError`
although a marker referred to its frame. -/
theorem overtaken_reportedLost :
    ∃ s c, (transitionSystem "w" 8).Reachable s ∧ s.calls 0 = some c
      ∧ c.phase.isLost = true ∧ ¬s.Verdict c := by
  obtain ⟨s, hs⟩ : ∃ s, System.follow (next "w" 8) oneSubmitted overtakenSteps = some s :=
    ⟨_, rfl⟩
  have hreach := (System.run_of_follow hs).reachable (System.Reachable.init oneSubmitted_init)
  obtain rfl := Option.some.inj hs
  refine ⟨_, _, hreach, rfl, rfl, ?_⟩
  intro hv
  exact hv.lost rfl _ rfl ⟨registration.destination (.frame 0), by decide, rfl⟩

/-- **Two actors at one marker, and a third after them**: one registration is made, the other one is lost, and the
claim that follows takes the new marker only when the first call has returned. -/
theorem verdict_of_registration :
    ∃ (s : TransitionState) (won lost claim : TransitionCall), s.calls 0 = some won ∧ s.calls 1 = some lost
      ∧ s.calls 2 = some claim ∧ won.phase.isReturned = true ∧ lost.phase.isLost = true
      ∧ claim.phase.isReturned = true ∧ s.Verdict won ∧ s.Verdict lost ∧ s.Verdict claim := by
  have h₀ : ((transitionSystem "w" 8).guarded Undisturbed).Reachable oneSubmitted :=
    System.Reachable.init oneSubmitted_init
  have h₁ := h₀.next (.call 0 registration) trivial rfl
  have h₂ := h₁.next (.call 1 registration) trivial rfl
  have h₃ := h₂.next (.prepare 0 none) trivial rfl
  have h₄ := h₃.next (.prepare 1 none) trivial rfl
  have h₅ := h₄.next (.rename 0 true) (fun c hc _ j c' hj hd => by
    -- no call prepared the submitted marker, which refers to no frame
    obtain ⟨-, -, -, n, -, href, -⟩ := (transitionSystem_coherent h₄.of_guarded).replaces hj hd
    obtain rfl := Option.some.inj hc
    cases href) rfl
  have h₆ := h₅.next (.rename 1 true) (fun c hc hmem => by
    obtain rfl := Option.some.inj hc
    exact absurd hmem (by decide)) rfl
  have h₇ := h₆.next (.look 0) trivial rfl
  have h₈ := h₇.next (.look 1) trivial rfl
  have h₉ := h₈.next (.call 2 claimAfterRegistration) trivial rfl
  have h₁₀ := h₉.next (.prepare 2 none) trivial rfl
  have h₁₁ := h₁₀.next (.rename 2 true) (fun c hc _ j c' hj hd => by
    obtain rfl := Option.some.inj hc
    rcases j with _ | _ | _ | j
    · obtain rfl := Option.some.inj hj
      rfl
    · obtain rfl := Option.some.inj hj
      exact absurd hd (by decide)
    · obtain rfl := Option.some.inj hj
      exact absurd hd (by decide)
    · cases hj) rfl
  have h₁₂ := h₁₁.next (.look 2) trivial rfl
  have h₁₃ := h₁₂.next (.look 1) trivial rfl
  have h₁₄ := h₁₃.next (.look 1) trivial rfl
  exact ⟨_, _, _, _, rfl, rfl, rfl, rfl, rfl, rfl, verdict_of_undisturbed h₁₄ (i := 0) rfl,
    verdict_of_undisturbed h₁₄ (i := 1) rfl, verdict_of_undisturbed h₁₄ (i := 2) rfl⟩

/-- **A disturbed step misleads**: some call never reports from then on that its transition was made, although
its frame counts, and is wrong about it once it is over. -/
theorem disturbed_never_returns {wid : String} {attempts : Nat} {s s' : TransitionState} {l : TransitionLabel}
    (hs : (transitionSystem wid attempts).Reachable s) (hl : ¬s.Undisturbed l)
    (h : s.next wid attempts l = some s') : ∃ j, ∀ as t, (transitionSystem wid attempts).Run s' as t →
      ∃ c, t.calls j = some c ∧ c.phase.isReturned = false ∧ (c.phase.finished = true → ¬t.Verdict c) := by
  obtain ⟨j, d, ho⟩ := overtaken_of_disturbed hs h hl
  refine ⟨j, fun as t hrun => ?_⟩
  obtain ⟨⟨hd, -⟩, c, hc, hprepared, hnot⟩ := overtaken_never_returned (hs.step h) ho hrun
  refine ⟨c, hc, hnot, fun hfinished hverdict => ?_⟩
  have hreturned := (hverdict.returned hfinished).mpr ⟨d, hprepared, d, hd, rfl⟩
  rw [hnot] at hreturned
  cases hreturned

/-- The claim of another manager disturbs the registration. -/
theorem disturbed_never_returns_claimed : ∃ s s', (transitionSystem "w" 8).Reachable s
    ∧ s.next "w" 8 (.rename 1 true) = some s' ∧ ∃ j, ∀ as t, (transitionSystem "w" 8).Run s' as t →
      ∃ c, t.calls j = some c ∧ c.phase.isReturned = false ∧ (c.phase.finished = true → ¬t.Verdict c) := by
  obtain ⟨s, hs⟩ : ∃ s, System.follow (next "w" 8) oneSubmitted (overtakenSteps.take 5) = some s := ⟨_, rfl⟩
  have hreach := (System.run_of_follow hs).reachable (System.Reachable.init oneSubmitted_init)
  obtain rfl := Option.some.inj hs
  refine ⟨_, _, hreach, rfl, disturbed_never_returns hreach (l := .rename 1 true) (fun h => ?_) rfl⟩
  cases h _ rfl (by decide) 0 _ rfl rfl

end TransitionState

/-! ## What becomes of a call -/

/-- The call a step of `transition` belongs to. -/
def TransitionLabel.index : TransitionLabel → Nat
  | .call i _ | .prepare i _ | .rename i _ | .look i => i

/-- **The workspace goes on**: the calls keep their requests, and those that are over
stay as they are. -/
def GoesOn (w w' : TransitionState) : Prop :=
  ∀ i c, w.calls i = some c →
    ∃ c', w'.calls i = some c' ∧ c'.request = c.request ∧ (c.phase.finished = true → c' = c)

namespace TransitionState

variable {wid : String} {attempts : Nat} {s s' : TransitionState}

variable {l : TransitionLabel}

/-- **A call keeps its request**, and once it is over nothing changes it. -/
theorem calls_next {i : Nat} {c : TransitionCall} (h : s.next wid attempts l = some s') (hc : s.calls i = some c) :
    ∃ c', s'.calls i = some c' ∧ c'.request = c.request ∧ (c.phase.finished = true → c' = c) := by
  -- a call whose phase is not over may go on
  have hgoes : ∀ {s₀ : TransitionState} {j : Nat} {c₀ : TransitionCall} {p : TransitionPhase},
      s.calls j = some c₀ → c₀.phase.finished = false → s₀.calls = s.calls →
      ∃ c', (s₀.setPhase j c₀ p).calls i = some c' ∧ c'.request = c.request
        ∧ (c.phase.finished = true → c' = c) := by
    intro s₀ j c₀ p hj hopen hsame
    rw [setPhase_calls, hsame]
    split_ifs with hij
    · subst hij
      obtain rfl := Option.some.inj (hc.symm.trans hj)
      refine ⟨_, rfl, rfl, fun hover => ?_⟩
      rw [hopen] at hover
      cases hover
    · exact ⟨c, hc, rfl, fun _ => rfl⟩
  cases l with
  | call j r =>
    obtain ⟨hj, -, rfl⟩ := next_call h
    refine ⟨c, ?_, rfl, fun _ => rfl⟩
    show Function.update s.calls j _ i = some c
    rw [Function.update_apply, if_neg]
    · exact hc
    · rintro rfl
      rw [hj] at hc
      cases hc
  | prepare j f =>
    obtain ⟨c₀, hj, hcalled, hcases⟩ := next_prepare h
    have hopen : c₀.phase.finished = false := by
      rw [hcalled]
      rfl
    rcases hcases with ⟨e, rfl⟩ | ⟨p, -, rfl⟩
    · exact hgoes hj hopen rfl
    · exact hgoes hj hopen rfl
  | rename j x =>
    obtain ⟨c₀, k, d, hj, hphase, hcases⟩ := next_rename h
    have hopen : c₀.phase.finished = false := by
      rw [hphase]
      rfl
    rcases hcases with ⟨-, rfl⟩ | ⟨-, rfl⟩
    · exact hgoes hj hopen rfl
    · exact hgoes hj hopen rfl
  | look j =>
    obtain ⟨c₀, d, p, hj, -, rfl, hcases⟩ := next_look h
    have hopen : c₀.phase.finished = false := by
      rcases hcases with ⟨k, hphase, -⟩ | ⟨⟨k, hphase | hphase⟩, -⟩ <;> rw [hphase] <;> rfl
    exact hgoes hj hopen rfl

theorem history_next (h : s.next wid attempts l = some s') {m : Marker} (hm : m ∈ s.history) : m ∈ s'.history := by
  cases l with
  | call j r =>
    obtain ⟨-, -, rfl⟩ := next_call h
    exact hm
  | prepare j f =>
    obtain ⟨c₀, -, -, ⟨e, rfl⟩ | ⟨p, -, rfl⟩⟩ := next_prepare h
    · exact hm
    · exact hm
  | rename j x =>
    obtain ⟨c₀, k, d, -, -, ⟨-, rfl⟩ | ⟨-, rfl⟩⟩ := next_rename h
    · rw [setPhase_history, mem_move_history]
      exact Or.inl hm
    · exact hm
  | look j =>
    obtain ⟨c₀, d, p, -, -, rfl, -⟩ := next_look h
    exact hm

/-- **A call that returned** saw its marker in the tree. -/
theorem published_of_reachable (hs : (transitionSystem wid attempts).Reachable s) :
    ∀ i c d, s.calls i = some c → c.phase = .returned d → d ∈ s.history := by
  induction hs with
  | init h =>
    intro i c d hc
    rw [h.1] at hc
    cases hc
  | @step s l s' hs h ih =>
    have hcoh := transitionSystem_coherent hs
    have hset : ∀ {s₀ : TransitionState} {j : Nat} {c₀ : TransitionCall} {p : TransitionPhase},
        s₀.calls = s.calls → (∀ d, p = .returned d → d ∈ s.history) →
        ∀ i c d, (s₀.setPhase j c₀ p).calls i = some c → c.phase = .returned d → d ∈ s.history := by
      intro s₀ j c₀ p hsame hp i c d hc hphase
      rw [setPhase_calls, hsame] at hc
      split_ifs at hc
      · rw [← Option.some.inj hc] at hphase
        exact hp d hphase
      · exact ih i c d hc hphase
    intro i c d hc hphase
    refine history_next h ?_
    cases l with
    | call j r =>
      obtain ⟨-, -, rfl⟩ := next_call h
      have hc : Function.update s.calls j (some ⟨r, .called⟩) i = some c := hc
      rw [Function.update_apply] at hc
      split_ifs at hc
      · rw [← Option.some.inj hc] at hphase
        cases hphase
      · exact ih i c d hc hphase
    | prepare j f =>
      obtain ⟨c₀, -, -, ⟨e, rfl⟩ | ⟨p, hp, rfl⟩⟩ := next_prepare h
      · exact hset rfl (fun d hd => by cases hd) i c d hc hphase
      · refine hset rfl (fun d hd => ?_) i c d hc hphase
        rcases hp with rfl | rfl | rfl <;> cases hd
    | rename j x =>
      obtain ⟨c₀, k, d₀, -, -, ⟨-, rfl⟩ | ⟨-, rfl⟩⟩ := next_rename h
      · exact hset rfl (fun d hd => by cases hd) i c d hc hphase
      · exact hset rfl (fun d hd => by cases hd) i c d hc hphase
    | look j =>
      obtain ⟨c₀, d₀, p, -, -, rfl, hp⟩ := next_look h
      refine hset rfl (fun d hd => ?_) i c d hc hphase
      rcases hp with ⟨k, -, ⟨hmem, hp⟩ | ⟨-, hp⟩⟩ | ⟨-, ⟨k, hp | hp⟩ | ⟨e, hp⟩⟩
      · rw [hp] at hd
        exact TransitionPhase.returned.inj hd ▸ hcoh.current d₀ hmem
      all_goals
        rw [hp] at hd
        cases hd

theorem returned_unique (hs : (transitionSystem wid attempts).Reachable s) {i j : Nat} {c c' : TransitionCall}
    {d d' : Marker} (hi : s.calls i = some c) (hj : s.calls j = some c') (hd : c.phase = .returned d)
    (hd' : c'.phase = .returned d') (hsame : c.request.marker = c'.request.marker) : i = j := by
  have hcoh := transitionSystem_coherent hs
  have hprepared : c.phase.prepared = some d := by rw [hd]; rfl
  have hprepared' : c'.phase.prepared = some d' := by rw [hd']; rfl
  obtain ⟨hgeneration, hkey, -⟩ := hcoh.replaces hi hprepared
  obtain ⟨hgeneration', hkey', -⟩ := hcoh.replaces hj hprepared'
  rw [← hsame] at hgeneration' hkey'
  have heq : d = d' := (chained_of_reachable hs).eq_of_generation (published_of_reachable hs i c d hi hd)
    (published_of_reachable hs j c' d' hj hd') (congrArg JobKey.id (hkey'.trans hkey.symm))
    (hgeneration.trans hgeneration'.symm)
  exact hcoh.distinct i j c c' d d' hi hj hprepared hprepared' (congrArg Marker.recordRef heq)

end TransitionState
