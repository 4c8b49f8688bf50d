import Mathlib.Data.List.Nodup
import HttkWorkflow.MarkerRename

/-!
# The history of a job

The journal holds the frames of all actors in the order they were appended,
and a frame is appended before the rename that decides whether it counts.
So the history of a job is not a stretch of the journal: it is what
`iter_record_chain` walks, from the frame of the current marker backwards
through `previous_record_ref`.

The theorem of this module says that the walk is exact. Whatever the actors
do and however their renames are reported, it yields the frames of the
renames that took effect, the last one first, one generation apart, and
nothing of an actor that was beaten to the rename.

The invariant behind it is about the newest marker first. `Lineage` is the
shape of that list: each marker names a frame of the journal whose back
reference is the reference of the marker it replaced.
-/

/-- `read_record`: the frame a reference names, where it can be read. -/
def readRecord (journal : List Frame) : RecordRef → Option Frame
  | .init => none
  | .frame n => journal[n]?

/-- How many references of a journal a walk has not visited. -/
def unvisited (journal : List Frame) (visited : List Nat) : Nat :=
  ((List.range journal.length).filter (fun n => n ∉ visited)).length

variable {visited : List Nat}

theorem unvisited_cons_lt {journal : List Frame} {n : Nat} (hn : n ∉ visited) (hlt : n < journal.length) :
    unvisited journal (n :: visited) < unvisited journal visited := by
  have hmem : n ∈ (List.range journal.length).filter (fun k => k ∉ visited) :=
    List.mem_filter.mpr ⟨List.mem_range.mpr hlt, decide_eq_true hn⟩
  have hsub : (List.range journal.length).filter (fun k => k ∉ n :: visited)
      = ((List.range journal.length).filter (fun k => k ∉ visited)).filter (fun k => k ≠ n) := by
    rw [List.filter_filter]
    refine List.filter_congr (fun k _ => ?_)
    by_cases h : k = n <;> by_cases h' : k ∈ visited <;> simp [h, h']
  unfold unvisited
  rw [hsub]
  exact List.length_filter_lt_length_iff_exists.mpr ⟨n, hmem, by simp⟩

/-- **`iter_record_chain`**: the references and frames met while walking
backwards, an unreadable frame being the last one. -/
def iterRecordChain (journal : List Frame) (visited : List Nat) :
    RecordRef → List (RecordRef × Option Frame)
  | .init => []
  | .frame n =>
    if n ∈ visited then []
    else
      match _h : journal[n]? with
      | none => [(.frame n, none)]
      | some f =>
        (.frame n, some f) ::
          match f.previousRecordRef with
          | none => []
          | some ref => iterRecordChain journal (n :: visited) ref
termination_by unvisited journal visited
decreasing_by
  exact unvisited_cons_lt ‹_› (List.getElem?_eq_some_iff.mp ‹journal[_]? = some _›).1

theorem iterRecordChain_frame {journal : List Frame} {n : Nat} {f : Frame}
    (hn : n ∉ visited) (hf : journal[n]? = some f) :
    iterRecordChain journal visited (.frame n)
      = (.frame n, some f) ::
        match f.previousRecordRef with
        | none => []
        | some ref => iterRecordChain journal (n :: visited) ref := by
  rw [iterRecordChain, if_neg hn]
  split
  · rename_i h
    rw [hf] at h
    cases h
  · rename_i g h
    obtain rfl := Option.some.inj (hf.symm.trans h)
    rfl

namespace TransitionState

/-- The markers a job has had, the newest first. -/
def lineage (s : TransitionState) (jobId : String) : List Marker :=
  (s.history.filter (fun m => m.jobId = jobId)).reverse

/-- **The committed transitions of a job**, as the markers their renames put
into the tree, in commit order. -/
def committed (s : TransitionState) (jobId : String) : List Marker :=
  s.history.filter (fun m => m.jobId = jobId ∧ m.recordRef ≠ .init)

/-- **One marker replaces another**: it is one generation later, and the
frame it names refers back to the frame the other one named. -/
def Replaces (journal : List Frame) (d m : Marker) : Prop :=
  d.generation = m.generation + 1 ∧ d.jobKey = m.jobKey ∧ d.placement = m.placement ∧
    ∃ n f, d.recordRef = .frame n ∧ journal[n]? = some f ∧ f.stateGeneration = d.generation
      ∧ f.kind = d.kind
      ∧ f.previousRecordRef = if m.recordRef = .init then none else some m.recordRef

/-- **A lineage**: a list of markers, newest first, each replacing the next,
down to the submitted one. -/
inductive Lineage (journal : List Frame) : List Marker → Prop where
  | submitted {m : Marker} (hg : m.generation = 0) (hr : m.recordRef = .init) :
      Lineage journal [m]
  | replaced {d m : Marker} {l : List Marker} (h : Replaces journal d m)
      (t : Lineage journal (m :: l)) : Lineage journal (d :: m :: l)

variable {journal : List Frame}

theorem Replaces.append {d m : Marker} (h : Replaces journal d m) (f : Frame) : Replaces (journal ++ [f]) d m := by
  obtain ⟨hg, hk, hp, n, f', href, hn, hf⟩ := h
  refine ⟨hg, hk, hp, n, f', href, ?_, hf⟩
  rw [List.getElem?_append_left (List.getElem?_eq_some_iff.mp hn).1, hn]

variable {l : List Marker}

theorem Lineage.append (h : Lineage journal l) (f : Frame) : Lineage (journal ++ [f]) l := by
  induction h with
  | submitted hg hr => exact Lineage.submitted hg hr
  | replaced h _ ih => exact Lineage.replaced (h.append f) ih

variable {m : Marker}

theorem Lineage.generation_lt (h : Lineage journal (m :: l)) : ∀ m' ∈ l, m'.generation < m.generation := by
  generalize hml : m :: l = ml at h
  induction h generalizing m l with
  | submitted _ _ =>
    obtain ⟨rfl, rfl⟩ := List.cons.inj hml
    intro m' hm'
    cases hm'
  | @replaced d e l' h t ih =>
    obtain ⟨rfl, rfl⟩ := List.cons.inj hml
    intro m' hm'
    rw [h.1]
    rcases List.mem_cons.mp hm' with rfl | hm'
    · exact Nat.lt_succ_self _
    · exact Nat.lt_succ_of_lt (ih rfl m' hm')

theorem Lineage.eq_of_generation (h : Lineage journal l) {a b : Marker} (ha : a ∈ l) (hb : b ∈ l)
    (hab : a.generation = b.generation) : a = b := by
  induction h with
  | submitted _ _ => rw [List.mem_singleton.mp ha, List.mem_singleton.mp hb]
  | @replaced d m l h t ih =>
    have hlt := (Lineage.replaced h t).generation_lt
    rcases List.mem_cons.mp ha with rfl | ha'
    · rcases List.mem_cons.mp hb with rfl | hb'
      · rfl
      · exact absurd hab (Nat.ne_of_gt (hlt b hb'))
    · rcases List.mem_cons.mp hb with rfl | hb'
      · exact absurd hab (Nat.ne_of_lt (hlt a ha'))
      · exact ih ha' hb'

/-! ## What the walk yields along a lineage -/

theorem Lineage.iterRecordChain_eq (h : Lineage journal (m :: l)) (visited : List Nat)
    (hv : ∀ n ∈ visited, ∀ f, journal[n]? = some f → m.generation < f.stateGeneration) :
    iterRecordChain journal visited m.recordRef = ((m :: l).filter (fun d => d.recordRef ≠ .init)).map
          (fun d => (d.recordRef, readRecord journal d.recordRef)) := by
  generalize hml : m :: l = ml at h
  induction h generalizing m l visited with
  | submitted hg hr =>
    obtain ⟨rfl, rfl⟩ := List.cons.inj hml
    rw [hr, iterRecordChain, List.filter_cons_of_neg (by simp [hr])]
    rfl
  | @replaced d e l' h t ih =>
    obtain ⟨rfl, rfl⟩ := List.cons.inj hml
    obtain ⟨hg, -, -, n, f, href, hn, hfg, -, hprev⟩ := h
    have hfresh : n ∉ visited := by
      intro hmem
      have := hv n hmem f hn
      rw [hfg] at this
      exact Nat.lt_irrefl _ this
    -- the rest of the walk visits frames of earlier generations only
    have hrest : iterRecordChain journal (n :: visited) e.recordRef
        = ((e :: l').filter (fun d => d.recordRef ≠ .init)).map
            (fun d => (d.recordRef, readRecord journal d.recordRef)) := by
      refine ih (n :: visited) ?_ rfl
      intro k hk g hkg
      rcases List.mem_cons.mp hk with rfl | hk
      · obtain rfl := Option.some.inj (hn.symm.trans hkg)
        rw [hfg, hg]
        exact Nat.lt_succ_self _
      · have := hv k hk g hkg
        rw [hg] at this
        exact Nat.lt_of_succ_lt this
    rw [href, iterRecordChain_frame hfresh hn, List.filter_cons_of_pos (by simp [href]),
      List.map_cons, ← hrest, href, hprev]
    congr 1
    · rw [readRecord, hn]
    · split_ifs with hinit
      · rw [hinit, iterRecordChain]
      · rfl

/-! ## The invariant -/

/-- **Every job's markers are a lineage**, and the tree holds the newest of
each and nothing else. -/
structure Chained (s : TransitionState) : Prop where
  lineages : ∀ jobId, s.lineage jobId = [] ∨ Lineage s.journal (s.lineage jobId)
  newest : ∀ m, m ∈ s.markers ↔ (s.lineage m.jobId).head? = some m

theorem lineage_move (s : TransitionState) (a d : Marker) (jobId : String) : (s.move a d).lineage jobId
      = if d.jobId = jobId then d :: s.lineage jobId else s.lineage jobId := by
  show ((s.history ++ [d]).filter _).reverse = _
  rw [List.filter_append, List.reverse_append]
  split_ifs with h
  · rw [List.filter_cons_of_pos (by simpa using h)]
    rfl
  · rw [List.filter_cons_of_neg (by simpa using h)]
    rfl

variable {s : TransitionState}

theorem mem_lineage {jobId : String} : m ∈ s.lineage jobId ↔ m ∈ s.history ∧ m.jobId = jobId := by
  unfold lineage
  rw [List.mem_reverse, List.mem_filter, decide_eq_true_eq]

theorem filter_jobId (hl : (l.map Marker.jobId).Nodup)
    (hm : m ∈ l) : l.filter (fun x => x.jobId = m.jobId) = [m] := by
  induction l with
  | nil => cases hm
  | cons a l ih =>
    rw [List.map_cons, List.nodup_cons] at hl
    have hne : ∀ x ∈ l, x.jobId ≠ a.jobId := fun x hx h =>
      hl.1 (h ▸ List.mem_map_of_mem hx)
    rcases List.mem_cons.mp hm with rfl | hm
    · rw [List.filter_cons_of_pos (by simp), List.filter_eq_nil_iff.mpr]
      intro x hx
      simpa using hne x hx
    · rw [List.filter_cons_of_neg (by simpa using (hne m hm).symm), ih hl.2 hm]

theorem Chained.move (hs : s.Chained) {a d : Marker}
    (ha : a ∈ s.markers) (hd : Replaces s.journal d a) : (s.move a d).Chained := by
  have hjob : d.jobId = a.jobId := congrArg JobKey.id hd.2.1
  obtain ⟨l, hl⟩ : ∃ l, s.lineage a.jobId = a :: l := by
    have hhead := (hs.newest a).mp ha
    cases hlin : s.lineage a.jobId with
    | nil =>
      rw [hlin] at hhead
      cases hhead
    | cons b l =>
      rw [hlin] at hhead
      obtain rfl := Option.some.inj hhead
      exact ⟨l, rfl⟩
  refine ⟨?_, ?_⟩
  · intro jobId
    rw [lineage_move]
    split_ifs with h
    · subst h
      rcases hs.lineages d.jobId with hnil | hlin
      · rw [hjob, hl] at hnil
        cases hnil
      · rw [hjob, hl] at hlin ⊢
        exact Or.inr (Lineage.replaced hd hlin)
    · exact hs.lineages jobId
  · intro m
    rw [mem_move_markers, lineage_move]
    split_ifs with h
    · rw [List.head?_cons, Option.some_inj]
      constructor
      · rintro (⟨hm, hne⟩ | ⟨-, rfl⟩)
        · -- another marker of the same job would be the newest as well
          have hhead := (hs.newest m).mp hm
          rw [← h, hjob, hl] at hhead
          exact absurd (Option.some.inj hhead).symm hne
        · rfl
      · rintro rfl
        exact Or.inr ⟨ha, rfl⟩
    · rw [← hs.newest m]
      constructor
      · rintro (⟨hm, -⟩ | ⟨-, rfl⟩)
        · exact hm
        · exact absurd rfl h
      · intro hm
        refine Or.inl ⟨hm, ?_⟩
        rintro rfl
        exact h hjob

variable {wid : String}

variable {c : TransitionCall}

theorem Coherent.replaces (hs : Coherent wid s) {i : Nat} {d : Marker} (hc : s.calls i = some c)
    (hd : c.phase.prepared = some d) : Replaces s.journal d c.request.marker := by
  obtain ⟨n, rfl, hn⟩ := hs.prepared i c d hc hd
  exact ⟨rfl, rfl, rfl, n, _, rfl, hn, rfl, rfl, rfl⟩

variable {attempts : Nat}

/-- **Every step keeps the lineages.** -/
theorem Chained.next {s s' : TransitionState} {l : TransitionLabel} (hs : s.Chained) (hcoh : Coherent wid s)
    (h : s.next wid attempts l = some s') : s'.Chained := by
  cases l with
  | call i r =>
    obtain ⟨-, -, rfl⟩ := next_call h
    exact ⟨hs.lineages, hs.newest⟩
  | prepare i f =>
    obtain ⟨c, -, -, ⟨e, rfl⟩ | ⟨p, -, rfl⟩⟩ := next_prepare h
    · exact ⟨hs.lineages, hs.newest⟩
    · refine ⟨fun jobId => ?_, hs.newest⟩
      exact (hs.lineages jobId).imp id (fun hlin => hlin.append _)
  | rename i x =>
    obtain ⟨c, k, d, hc, hph, ⟨⟨-, ha⟩, rfl⟩ | ⟨-, rfl⟩⟩ := next_rename h
    · have hrep := hcoh.replaces hc (d := d) (by rw [hph]; rfl)
      have hmove := hs.move ha hrep
      exact ⟨hmove.lineages, hmove.newest⟩
    · exact ⟨hs.lineages, hs.newest⟩
  | look i =>
    obtain ⟨c, d, p, -, -, rfl, -⟩ := next_look h
    exact ⟨hs.lineages, hs.newest⟩

theorem chained_of_reachable (hs : (transitionSystem wid attempts).Reachable s) : s.Chained := by
  refine hs.invariant ?_ ?_
  · rintro s ⟨-, -, hhist, hinit, hnodup⟩
    have hone : ∀ m ∈ s.markers, s.lineage m.jobId = [m] := by
      intro m hm
      unfold lineage
      rw [hhist, filter_jobId hnodup hm, List.reverse_singleton]
    refine ⟨?_, ?_⟩
    · intro jobId
      cases hlin : s.lineage jobId with
      | nil => exact Or.inl rfl
      | cons m l =>
        have hm := mem_lineage.mp (hlin ▸ List.mem_cons_self : m ∈ s.lineage jobId)
        rw [hhist] at hm
        have := hone m hm.1
        rw [hm.2, hlin] at this
        rw [this]
        exact Or.inr (Lineage.submitted (hinit m hm.1).2.1 (hinit m hm.1).2.2)
    · intro m
      constructor
      · intro hm
        rw [hone m hm]
        rfl
      · intro hhead
        have hm := mem_lineage.mp (List.mem_of_mem_head? hhead)
        rw [hhist] at hm
        exact hm.1
  · intro s l s' hs hI h
    exact Chained.next hI (transitionSystem_coherent hs) h

theorem Lineage.nodup (h : Lineage journal l) : l.Nodup := by
  induction h with
  | submitted _ _ => exact List.nodup_singleton _
  | @replaced d m l h t ih =>
    refine List.nodup_cons.mpr ⟨fun hd => ?_, ih⟩
    exact Nat.lt_irrefl _ ((Lineage.replaced h t).generation_lt d hd)

/-- **A job has one marker of each generation.** -/
theorem Chained.eq_of_generation (hs : s.Chained) {a b : Marker}
    (ha : a ∈ s.history) (hb : b ∈ s.history) (hjob : b.jobId = a.jobId)
    (hgeneration : a.generation = b.generation) : a = b := by
  have ha := mem_lineage.mpr ⟨ha, rfl⟩
  rcases hs.lineages a.jobId with hnil | hlineage
  · rw [hnil] at ha
    cases ha
  · exact hlineage.eq_of_generation ha (mem_lineage.mpr ⟨hb, hjob⟩) hgeneration

theorem Chained.nodup (hs : s.Chained) : s.history.Nodup := by
  refine List.nodup_iff_count_le_one.mpr fun m => ?_
  have hcount : s.history.count m = (s.lineage m.jobId).count m := by
    unfold lineage
    rw [List.count_reverse, List.count_filter (by simp)]
  rw [hcount]
  rcases hs.lineages m.jobId with hnil | hlineage
  · rw [hnil]
    exact Nat.zero_le 1
  · exact List.nodup_iff_count_le_one.mp hlineage.nodup m

/-! ## The chain of the current marker -/

/-- **A beaten call**: it has prepared a marker, and another call's rename
took the marker it asked about. -/
def Beaten (s : TransitionState) (i : Nat) (c : TransitionCall) : Prop :=
  ∃ j c' d, j ≠ i ∧ s.calls j = some c' ∧ c'.request.marker = c.request.marker
    ∧ c'.phase.prepared = some d ∧ d ∈ s.history

theorem Beaten.not_mem_history (hs : (transitionSystem wid attempts).Reachable s) {i : Nat}
    {d : Marker} (hc : s.calls i = some c) (hb : s.Beaten i c)
    (hd : c.phase.prepared = some d) : d ∉ s.history := by
  intro hmem
  have hcoh := transitionSystem_coherent hs
  obtain ⟨j, c', d', hji, hc', hsame, hd', hmem'⟩ := hb
  obtain ⟨hg, hk, -⟩ := hcoh.replaces hc hd
  obtain ⟨hg', hk', -⟩ := hcoh.replaces hc' hd'
  rw [hsame] at hg' hk'
  have hjob : d'.jobId = d.jobId := congrArg JobKey.id (hk'.trans hk.symm)
  have heq : d = d' := (chained_of_reachable hs).eq_of_generation hmem hmem' hjob (hg.trans hg'.symm)
  exact hji (hcoh.distinct j i c' c d' d hc' hc hd' hd (by rw [heq]))

/-- **The history chain of a marker**, in a workspace with the calls made so
far: what walking back from it must yield. -/
structure HistoryChain (wid : String) (s : TransitionState) (m : Marker) : Prop where
  frames : iterRecordChain s.journal [] m.recordRef
    = ((s.committed m.jobId).map fun d => (d.recordRef, readRecord s.journal d.recordRef)).reverse
  written : ∀ d ∈ s.committed m.jobId, ∃ i c, s.calls i = some c ∧ c.phase.prepared = some d
    ∧ readRecord s.journal d.recordRef = some (c.request.frame wid)
  generations : (iterRecordChain s.journal [] m.recordRef).map
      (fun e => e.snd.map Frame.stateGeneration)
    = ((List.range' 1 m.generation).map some).reverse
  losers : ∀ i c d, s.calls i = some c → c.phase.prepared = some d →
    (s.Beaten i c ∨ d ∉ s.history) →
    d.recordRef ∉ (iterRecordChain s.journal [] m.recordRef).map Prod.fst

theorem Lineage.generations (h : Lineage journal (m :: l)) : (((m :: l).filter (fun d => d.recordRef ≠ .init)).map
        (fun d => (readRecord journal d.recordRef).map Frame.stateGeneration))
      = ((List.range' 1 m.generation).map some).reverse := by
  generalize hml : m :: l = ml at h
  induction h generalizing m l with
  | submitted hg hr =>
    obtain ⟨rfl, rfl⟩ := List.cons.inj hml
    rw [List.filter_cons_of_neg (by simp [hr]), hg]
    rfl
  | @replaced d e l' h t ih =>
    obtain ⟨rfl, rfl⟩ := List.cons.inj hml
    obtain ⟨hg, -, -, n, f, href, hn, hfg, -⟩ := h
    rw [List.filter_cons_of_pos (by simp [href]), List.map_cons, ih rfl, href, readRecord, hn,
      Option.map_some, hfg, hg, List.range'_1_concat, List.map_append, List.reverse_append,
      Nat.add_comm 1]
    rfl

/-- **The frames reached from a current marker are exactly those of the
committed transitions of its job, in commit order**, each one generation
after the other, and no frame of a beaten actor is among them. -/
theorem historyChain_of_current {wid : String} {attempts : Nat} {s : TransitionState}
    (hs : (transitionSystem wid attempts).Reachable s) {m : Marker} (hm : m ∈ s.markers) :
    s.HistoryChain wid m := by
  have hcoh := transitionSystem_coherent hs
  have hch := chained_of_reachable hs
  have hhead := (hch.newest m).mp hm
  obtain ⟨l, hl⟩ : ∃ l, s.lineage m.jobId = m :: l :=
    (List.head?_eq_some_iff.mp hhead)
  have hlin : Lineage s.journal (m :: l) := by
    rcases hch.lineages m.jobId with hnil | hlin
    · rw [hl] at hnil
      cases hnil
    · rw [hl] at hlin
      exact hlin
  have hcommitted : (m :: l).filter (fun d => d.recordRef ≠ .init)
      = (s.committed m.jobId).reverse := by
    rw [← hl, lineage, List.filter_reverse, List.filter_filter, committed]
    refine congrArg List.reverse (List.filter_congr fun d _ => ?_)
    simp [and_comm]
  have hwalk := hlin.iterRecordChain_eq [] (by intro n hn; cases hn)
  refine ⟨?_, ?_, ?_, ?_⟩
  · rw [hwalk, hcommitted, List.map_reverse]
  · intro d hd
    obtain ⟨hdh, hdc⟩ := List.mem_filter.mp hd
    obtain ⟨-, hne⟩ := of_decide_eq_true hdc
    rcases hcoh.origin d hdh with h | ⟨i, c, hc, hp⟩
    · exact absurd h hne
    · obtain ⟨n, rfl, hn⟩ := hcoh.prepared i c d hc hp
      exact ⟨i, c, hc, hp, hn⟩
  · rw [hwalk, List.map_map]
    exact hlin.generations
  · intro i c d hc hp hlost
    have hnot : d ∉ s.history := by
      rcases hlost with hb | hnot
      · exact hb.not_mem_history hs hc hp
      · exact hnot
    rw [hwalk, List.map_map]
    intro hmem
    obtain ⟨e, he, heq⟩ := List.mem_map.mp hmem
    have heq : e.recordRef = d.recordRef := heq
    have heh : e ∈ s.history := by
      have := (List.mem_filter.mp he).1
      rw [← hl] at this
      exact (mem_lineage.mp this).1
    -- a marker of the tree that refers to the call's frame is the call's own
    rcases hcoh.origin e heh with hinit | ⟨j, c', hc', hp'⟩
    · obtain ⟨-, -, -, n, -, href, -⟩ := hcoh.replaces hc hp
      rw [hinit, href] at heq
      cases heq
    · obtain rfl := hcoh.distinct j i c' c e d hc' hc hp' hp heq
      obtain rfl := Option.some.inj (hc.symm.trans hc')
      obtain rfl := Option.some.inj (hp.symm.trans hp')
      exact hnot heh

/-! ## A race for one marker -/

def oneSubmitted : TransitionState where
  markers := [⟨.submitted, ["a"], ⟨none, "j"⟩, 500, 0, .init⟩]
  journal := []
  calls := fun _ => none
  history := [⟨.submitted, ["a"], ⟨none, "j"⟩, 500, 0, .init⟩]

def registration : TransitionRequest where
  marker := ⟨.submitted, ["a"], ⟨none, "j"⟩, 500, 0, .init⟩
  kind := .ready
  updates := .empty
  priority := none
  allowSealed := false

theorem oneSubmitted_init : (transitionSystem "w" 8).init oneSubmitted := by
  refine ⟨rfl, rfl, rfl, ?_, ?_⟩
  · intro m hm
    rw [List.mem_singleton.mp hm]
    exact ⟨rfl, rfl, rfl⟩
  · decide

/-- Two managers register the job at once; the one that appended its frame
second is the one whose rename takes effect. -/
def racedSteps : List TransitionLabel :=
  [.call 0 registration, .call 1 registration, .prepare 0 none, .prepare 1 none,
    .rename 1 true, .rename 0 true]

/-- The chain after that race. -/
theorem historyChain_of_race :
    ∃ s m, System.follow (next "w" 8) oneSubmitted racedSteps = some s ∧ m ∈ s.markers
      ∧ m.recordRef = .frame 1 ∧ s.HistoryChain "w" m := by
  obtain ⟨s, hs⟩ : ∃ s, System.follow (next "w" 8) oneSubmitted racedSteps = some s :=
    ⟨_, rfl⟩
  have hreach := (System.run_of_follow hs).reachable (System.Reachable.init oneSubmitted_init)
  have hm : registration.destination (.frame 1) ∈ s.markers := by
    obtain rfl := Option.some.inj hs
    decide
  exact ⟨s, _, hs, hm, rfl, historyChain_of_current hreach hm⟩

end TransitionState
