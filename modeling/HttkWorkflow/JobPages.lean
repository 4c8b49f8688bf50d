import HttkWorkflow.JobCursors

/-!
# What the pages of a listing add up to

A page takes what lies between two cursors of the walk: it ends after its last
row, or after the last marker it examined, and the next page is the walk after
that marker. So the pages that are obtained by following the cursors take
every marker once and in the order of the walk, as long as each cursor that is
written leads on to what follows its marker when it is read.

Two things can break that. The walk takes the markers of a directory by file
name, and that is not the order of their keys where one key begins another:
the file name goes on with a dot, the longer key perhaps with a hyphen, which
is smaller. And a cursor is read by two functions, each of which takes the
kind before a colon off, so that a placement that begins with a kind and a
colon loses its beginning. `ListedWorkspace.Listable` asks for neither, and is
what the listing needs (`pages_complete_iff`). Only a marker that nothing
follows has a cursor that does not matter, unless the scan budgets of a tag
filter can be spent exactly there. Each of these is a number of hundreds, ten
thousand markers at least, and the pages that spend them have at most one row
for each hundred (`ListedWorkspace.ScanEnds`).
-/

namespace ListedWorkspace

variable (w : ListedWorkspace)

/-! ## The walk of a selection -/

/-- **The walk of a selection**, from the start. -/
def stream (sel : JobSelection) : List StateMarker :=
  (selectedKinds sel.kinds).flatMap fun kind =>
    orderedMarkers kind sel.placementPrefix none ((w.tree kind).subforest sel.placementPrefix)

variable {m : StateMarker}

variable {kind : StateKind}

theorem mem_walk {above : List PyStr} : m ∈ orderedMarkers kind above none ((w.tree kind).subforest above)
      ↔ m.kind = kind ∧ above <+: m.placement ∧ w.Keeps m := by
  rw [mem_orderedMarkers kind ((w.sorted kind).subforest above)]
  constructor
  · rintro ⟨rest, hm, h⟩
    rw [← Forest.subforest_append, ← hm] at h
    obtain rfl := (mem_ownMarkers h).1
    exact ⟨rfl, ⟨rest, hm.symm⟩, h⟩
  · rintro ⟨rfl, ⟨rest, hm⟩, h⟩
    refine ⟨rest, hm.symm, ?_⟩
    rw [← Forest.subforest_append, hm]
    exact h

variable {sel : JobSelection}

theorem mem_stream : m ∈ w.stream sel
    ↔ m.kind ∈ selectedKinds sel.kinds ∧ sel.placementPrefix <+: m.placement ∧ w.Keeps m := by
  refine List.mem_flatMap.trans ⟨fun ⟨kind, hkind, h⟩ => ?_, fun ⟨hkind, h⟩ => ?_⟩
  · obtain ⟨heq, hkept⟩ := w.mem_walk.mp h
    exact ⟨heq ▸ hkind, hkept⟩
  · exact ⟨m.kind, hkind, w.mem_walk.mpr ⟨rfl, h⟩⟩

/-- **By file name is by job key** in every directory. -/
def Ordered : Prop := ∀ kind placement,
  (ownMarkers kind placement ((w.tree kind).subforest placement)).Pairwise
    fun m m' => m.jobKey.text < m'.jobKey.text

theorem rank_injective {kind kind' : StateKind} (h : kind.rank = kind'.rank) : kind = kind' := by
  revert h
  cases kind <;> cases kind' <;> decide

theorem selectedKinds_pairwise (kinds : List StateKind) :
    (selectedKinds kinds).Pairwise fun kind kind' => kind.rank < kind'.rank := by
  have h : stateKinds.Pairwise fun kind kind' => kind.rank < kind'.rank := by decide
  exact h.sublist List.filter_sublist

theorem stream_pairwise (h : w.Ordered) (sel : JobSelection) : (w.stream sel).Pairwise StateMarker.Before := by
  refine List.pairwise_flatMap.mpr ⟨fun kind _ => ?_, ?_⟩
  · have hown : ∀ rest, (ownMarkers kind (sel.placementPrefix ++ rest)
        (((w.tree kind).subforest sel.placementPrefix).subforest rest)).Pairwise
        fun m m' => m.position < m'.position := by
      intro rest
      rw [← Forest.subforest_append]
      refine (h kind _).imp_of_mem fun hm hm' hlt => StateMarker.position_lt.mpr (Or.inr ⟨?_, hlt⟩)
      exact (mem_ownMarkers hm).2.1.trans (mem_ownMarkers hm').2.1.symm
    have hwalk := pairwise_orderedMarkers kind ((w.sorted kind).subforest sel.placementPrefix) hown
    refine hwalk.imp_of_mem fun hm hm' hlt => Or.inr ⟨?_, hlt⟩
    exact (w.mem_walk.mp hm).1.trans (w.mem_walk.mp hm').1.symm
  · refine (selectedKinds_pairwise sel.kinds).imp fun hlt m hm m' hm' => Or.inl ?_
    rw [(w.mem_walk.mp hm).1, (w.mem_walk.mp hm').1]
    exact hlt

/-! ## Where a cursor leads -/

theorem selectedKinds_single (kind : StateKind) : selectedKinds [kind] = [kind] := by
  cases kind <;> decide

theorem mapM_ok {α β : Type} {f : α → Except Exc β} {g : α → β} {items : List α}
    (h : ∀ item ∈ items, f item = .ok (g item)) : items.mapM f = .ok (items.map g) := by
  induction items with
  | nil => rfl
  | cons item items ih =>
    obtain ⟨hitem, hitems⟩ := List.forall_mem_cons.mp h
    rw [List.mapM_cons, hitem, ih hitems]
    rfl

theorem iterMarkers_none (kind : StateKind) (above : List PyStr) : iterMarkers w [kind] above none
      = .ok (orderedMarkers kind above none ((w.tree kind).subforest above)) := by
  unfold iterMarkers
  simp only [selectedKinds_single, List.flatMap_singleton]

/-- **The first page** begins at the start. -/
theorem selectedStream_none (sel : JobSelection) : selectedStream w sel none = .ok (w.stream sel) := by
  unfold selectedStream
  simp only
  rw [mapM_ok fun kind _ => w.iterMarkers_none kind sel.placementPrefix]
  rfl

variable {cursor : MarkerCursor}

variable {first : Option StateKind}

theorem iterMarkers_some {rest : PyStr} (h : iterCursor [kind] rest = .ok (first, cursor)) (above : List PyStr) :
    iterMarkers w [kind] above (some rest)
      = .ok ((orderedMarkers kind above none ((w.tree kind).subforest above)).filter
          (isAfter (some cursor))) := by
  have hfirst : first = none ∨ first = some kind := by
    unfold iterCursor at h
    split at h
    · split_ifs at h with hmem
      · rw [List.mem_singleton.mp hmem] at h
        obtain ⟨c, -, hc⟩ := map_eq_ok.mp h
        exact Or.inr (congrArg Prod.fst hc).symm
    · obtain ⟨c, -, hc⟩ := map_eq_ok.mp h
      exact Or.inl (congrArg Prod.fst hc).symm
  have hkinds : kindsFrom first [kind] = [kind] := by
    rcases hfirst with rfl | rfl
    · rfl
    · exact List.filter_eq_self.mpr fun k hk => decide_eq_true (List.mem_singleton.mp hk ▸ le_rfl)
  unfold iterMarkers
  simp only [selectedKinds_single]
  rw [h]
  show Except.ok ((kindsFrom first [kind]).flatMap _) = _
  rw [hkinds, List.flatMap_singleton, if_pos hfirst, orderedMarkers_eq]

theorem flatMap_filter_of_nil {α β : Type} {p : α → Bool} {f : α → List β} {items : List α}
    (h : ∀ item ∈ items, p item = false → f item = []) : (items.filter p).flatMap f = items.flatMap f := by
  induction items with
  | nil => rfl
  | cons item items ih =>
    obtain ⟨hitem, hitems⟩ := List.forall_mem_cons.mp h
    cases hp : p item with
    | true => rw [List.filter_cons_of_pos hp, List.flatMap_cons, List.flatMap_cons, ih hitems]
    | false => rw [List.filter_cons_of_neg (by simp [hp]), List.flatMap_cons, hitem hp, ih hitems, List.nil_append]

def isBeyond (kind : StateKind) (cursor : MarkerCursor) (m : StateMarker) : Bool :=
  kind.rank < m.kind.rank || (m.kind = kind && isAfter (some cursor) m)

theorem selectedStream_some (hkept : w.Keeps m) (hkind : m.kind ∈ selectedKinds sel.kinds)
    (h : iterCursor [m.kind] (localText m) = .ok (first, cursor)) :
    selectedStream w sel (some (cursorText m)) = .ok ((w.stream sel).filter (isBeyond m.kind cursor)) := by
  have hstreams : ∀ kind ∈ kindsFrom (some m.kind) (selectedKinds sel.kinds),
      iterMarkers w [kind] sel.placementPrefix (if kind = m.kind then some (localText m) else none)
        = .ok ((orderedMarkers kind sel.placementPrefix none
            ((w.tree kind).subforest sel.placementPrefix)).filter (isBeyond m.kind cursor)) := by
    intro kind hkindsFrom
    have hrank : m.kind.rank ≤ kind.rank := of_decide_eq_true (List.mem_filter.mp hkindsFrom).2
    by_cases heq : kind = m.kind
    · subst heq
      rw [if_pos rfl, w.iterMarkers_some h]
      refine congrArg Except.ok (List.filter_congr fun m' hm' => ?_)
      have hm := (w.mem_walk.mp hm').1
      simp [isBeyond, hm]
    · have hlt : m.kind.rank < kind.rank := lt_of_le_of_ne hrank fun h => heq (rank_injective h).symm
      rw [if_neg heq, w.iterMarkers_none]
      refine congrArg Except.ok (List.filter_eq_self.mpr fun m' hm' => ?_).symm
      have hm := (w.mem_walk.mp hm').1
      simp [isBeyond, hm, hlt]
  have hcursor := listCursor_cursorText hkept hkind
  unfold selectedStream
  simp only
  rw [hcursor]
  show ((kindsFrom (some m.kind) (selectedKinds sel.kinds)).mapM (fun kind => iterMarkers w [kind] sel.placementPrefix
      (if kind = m.kind then some (localText m) else none)) >>= fun streams => .ok streams.flatten) = _
  rw [mapM_ok hstreams]
  unfold stream
  rw [List.filter_flatMap]
  refine congrArg Except.ok (flatMap_filter_of_nil fun kind _ hearlier => ?_)
  refine List.filter_eq_nil_iff.mpr fun m' hm' => ?_
  have hm := (w.mem_walk.mp hm').1
  have hlt : kind.rank < m.kind.rank := not_le.mp (of_decide_eq_false hearlier)
  have hne : kind ≠ m.kind := fun heq => hlt.ne (congrArg StateKind.rank heq)
  simp [isBeyond, hm, hne, hlt.le]

theorem before_irrefl (m : StateMarker) : ¬m.Before m := by
  rintro (h | ⟨-, h⟩)
  · exact lt_irrefl _ h
  · exact lt_irrefl _ h

theorem before_asymm {m m' : StateMarker} (h : m.Before m') : ¬m'.Before m := by
  rcases h with h | ⟨hkind, h⟩
  · rintro (h' | ⟨hkind', -⟩)
    · exact lt_asymm h h'
    · exact h.ne (congrArg StateKind.rank hkind').symm
  · rintro (h' | ⟨-, h'⟩)
    · exact h'.ne (congrArg StateKind.rank hkind).symm
    · exact lt_asymm h h'

variable {before after : List StateMarker}

theorem mem_after_iff {m m' : StateMarker}
    (h : (before ++ m :: after).Pairwise StateMarker.Before) (hmem : m' ∈ before ++ m :: after) :
    m' ∈ after ↔ m.Before m' := by
  obtain ⟨-, hlater, hacross⟩ := List.pairwise_append.mp h
  refine ⟨(List.pairwise_cons.mp hlater).1 m', fun hbefore => ?_⟩
  rcases List.mem_append.mp hmem with hmem | hmem
  · exact absurd (hacross m' hmem m List.mem_cons_self) (before_asymm hbefore)
  · rcases List.mem_cons.mp hmem with rfl | hmem
    · exact absurd hbefore (before_irrefl m')
    · exact hmem

variable {w}

theorem isBeyond_iff {m m' : StateMarker} (hkept : w.Keeps m')
    (h : ∀ m', w.Keeps m' → m'.kind = m.kind → (toLex cursor < m'.position ↔ m.position < m'.position)) :
    isBeyond m.kind cursor m' = true ↔ m.Before m' := by
  have hafter : isAfter (some cursor) m' = true ↔ toLex cursor < m'.position := decide_eq_true_iff
  unfold isBeyond StateMarker.Before
  rw [Bool.or_eq_true, Bool.and_eq_true, decide_eq_true_iff, decide_eq_true_iff, hafter]
  refine or_congr_right ⟨fun ⟨hkind, hlt⟩ => ⟨hkind.symm, (h m' hkept hkind).mp hlt⟩,
    fun ⟨hkind, hlt⟩ => ⟨hkind.symm, (h m' hkept hkind.symm).mpr hlt⟩⟩

theorem selectedStream_leads (hordered : w.Ordered)
    (hstream : w.stream sel = before ++ m :: after) (hleads : w.Leads m) :
    selectedStream w sel (some (cursorText m)) = .ok after := by
  obtain ⟨first, cursor, hcursor, hafter⟩ := hleads
  have hmem : m ∈ w.stream sel := hstream ▸ List.mem_append_right _ List.mem_cons_self
  obtain ⟨hkind, -, hkept⟩ := (w.mem_stream).mp hmem
  have hkeeps : ∀ m' ∈ before ++ m :: after, w.Keeps m' := fun m' hm' =>
    ((w.mem_stream).mp (hstream ▸ hm')).2.2
  have hsorted := hstream ▸ w.stream_pairwise hordered sel
  obtain ⟨-, hlater, hacross⟩ := List.pairwise_append.mp hsorted
  rw [w.selectedStream_some hkept hkind hcursor, hstream, List.filter_append]
  have hearlier : before.filter (isBeyond m.kind cursor) = [] := by
    refine List.filter_eq_nil_iff.mpr fun m' hm' hbeyond => ?_
    have hm := (isBeyond_iff (hkeeps m' (List.mem_append_left _ hm')) hafter).mp hbeyond
    exact before_asymm hm (hacross m' hm' m List.mem_cons_self)
  have hself : ¬isBeyond m.kind cursor m = true := fun hbeyond =>
    before_irrefl m ((isBeyond_iff hkept hafter).mp hbeyond)
  have hrest : after.filter (isBeyond m.kind cursor) = after := by
    refine List.filter_eq_self.mpr fun m' hm' => ?_
    refine (isBeyond_iff (hkeeps m' ?_) hafter).mpr ((List.pairwise_cons.mp hlater).1 m' hm')
    exact List.mem_append_right _ (List.mem_cons_of_mem _ hm')
  rw [hearlier, List.filter_cons_of_neg hself, hrest, List.nil_append]

theorem iterCursor_of_selectedStream (hkept : w.Keeps m)
    (hkind : m.kind ∈ selectedKinds sel.kinds) {after : List StateMarker}
    (h : selectedStream w sel (some (cursorText m)) = .ok after) :
    ∃ first cursor, iterCursor [m.kind] (localText m) = .ok (first, cursor)
      ∧ after = (w.stream sel).filter (isBeyond m.kind cursor) := by
  cases hcursor : iterCursor [m.kind] (localText m) with
  | ok place =>
    refine ⟨place.fst, place.snd, rfl, ?_⟩
    exact Except.ok.inj (h.symm.trans (w.selectedStream_some hkept hkind hcursor))
  | error e =>
    unfold selectedStream at h
    simp only at h
    rw [listCursor_cursorText hkept hkind] at h
    obtain ⟨place, hplace, hpages⟩ := bind_eq_ok.mp h
    obtain rfl := Except.ok.inj hplace
    obtain ⟨streams, hstreams, -⟩ := bind_eq_ok.mp hpages
    have hown : m.kind ∈ kindsFrom (some m.kind) (selectedKinds sel.kinds) :=
      List.mem_filter.mpr ⟨hkind, decide_eq_true le_rfl⟩
    obtain ⟨markers, hmarkers⟩ := mapM_returns.mp ⟨streams, hstreams⟩ m.kind hown
    unfold iterMarkers at hmarkers
    simp only [if_pos, selectedKinds_single] at hmarkers
    rw [hcursor] at hmarkers
    cases hmarkers

end ListedWorkspace

/-! ## One page -/

theorem spent_iff {scanLimit : Option ℕ} {examined : ℕ} :
    spent scanLimit examined = true ↔ ∃ bound, scanLimit = some bound ∧ bound ≤ examined := by
  cases scanLimit with
  | none => simp [spent]
  | some bound => simp [spent]

@[simp] theorem spent_none (examined : ℕ) : spent none examined = false := rfl

theorem eq_of_spent {scanLimit : Option ℕ} {examined : ℕ} (hbefore : spent scanLimit examined = false)
    (h : spent scanLimit (examined + 1) = true) : scanLimit = some (examined + 1) := by
  obtain ⟨bound, rfl, hle⟩ := spent_iff.mp h
  have hlt : ¬bound ≤ examined := fun hle' => by
    rw [spent_iff.mpr ⟨bound, rfl, hle'⟩] at hbefore
    cases hbefore
  exact congrArg some (by omega)

theorem lookAhead_spec (sel : JobSelection) (scanLimit : Option ℕ) (last : StateMarker) (examined : ℕ)
    (hleft : spent scanLimit examined = false) (stream : List StateMarker) :
    match lookAhead sel scanLimit last examined stream with
    | none => ∀ m ∈ stream, sel.wants m = false
    | some m => (m = last ∧ ∃ m' ∈ stream, sel.wants m' = true) ∨ ∃ seen after, stream = seen ++ m :: after
        ∧ (∀ m' ∈ seen ++ [m], sel.wants m' = false) ∧ scanLimit = some (examined + seen.length + 1) := by
  induction stream generalizing examined with
  | nil => exact List.forall_mem_nil _
  | cons candidate stream ih =>
    rw [lookAhead]
    split_ifs with hwants hspent
    · exact Or.inl ⟨rfl, candidate, List.mem_cons_self, hwants⟩
    · exact Or.inr ⟨[], stream, rfl, List.forall_mem_singleton.mpr (eq_false_of_ne_true hwants),
        eq_of_spent hleft hspent⟩
    · have hrest := ih (examined + 1) (eq_false_of_ne_true hspent)
      cases hnext : lookAhead sel scanLimit last (examined + 1) stream with
      | none =>
        rw [hnext] at hrest
        exact List.forall_mem_cons.mpr ⟨eq_false_of_ne_true hwants, hrest⟩
      | some m =>
        rw [hnext] at hrest
        rcases hrest with ⟨hlast, m', hm', hrow⟩ | ⟨seen, after, hstream, hseen, hbudget⟩
        · exact Or.inl ⟨hlast, m', List.mem_cons_of_mem _ hm', hrow⟩
        · refine Or.inr ⟨candidate :: seen, after, by rw [hstream]; rfl, ?_, ?_⟩
          · exact List.forall_mem_cons.mpr ⟨eq_false_of_ne_true hwants, hseen⟩
          · rw [hbudget, List.length_cons]
            exact congrArg some (by omega)

/-- **Where a page ends**: at a row that another one follows, or where the scan budget does. -/
def PageEnd (sel : JobSelection) (scanLimit : Option ℕ) (examined : ℕ) (seen : List StateMarker)
    (m : StateMarker) (after : List StateMarker) : Prop :=
  (sel.wants m = true ∧ ∃ m' ∈ after, sel.wants m' = true) ∨ scanLimit = some (examined + seen.length + 1)

theorem scanPage_spec (sel : JobSelection) {limit : ℕ} (scanLimit : Option ℕ) (rows : List StateMarker)
    (hrows : rows.length < limit) (examined : ℕ) (hleft : spent scanLimit examined = false)
    (stream : List StateMarker) :
    match (scanPage sel limit scanLimit rows examined stream).snd with
    | none => (scanPage sel limit scanLimit rows examined stream).fst = rows ++ stream.filter sel.wants
    | some m => ∃ seen after, stream = seen ++ m :: after
        ∧ (scanPage sel limit scanLimit rows examined stream).fst = rows ++ (seen ++ [m]).filter sel.wants
        ∧ PageEnd sel scanLimit examined seen m after := by
  induction stream generalizing examined rows with
  | nil => exact (List.append_nil rows).symm
  | cons m stream ih =>
    have hnext : ∀ rows', rows'.length < limit → rows ++ [m].filter sel.wants = rows' →
        spent scanLimit (examined + 1) = false →
        match (scanPage sel limit scanLimit rows' (examined + 1) stream).snd with
        | none => (scanPage sel limit scanLimit rows' (examined + 1) stream).fst
            = rows ++ (m :: stream).filter sel.wants
        | some last => ∃ seen after, m :: stream = seen ++ last :: after
            ∧ (scanPage sel limit scanLimit rows' (examined + 1) stream).fst
              = rows ++ (seen ++ [last]).filter sel.wants
            ∧ PageEnd sel scanLimit examined seen last after := by
      intro rows' hlength hrows' hleft
      have hsplit : ∀ later : List StateMarker, rows' ++ later.filter sel.wants
          = rows ++ (m :: later).filter sel.wants := by
        intro later
        rw [← hrows', List.append_assoc, ← List.filter_append]
        rfl
      have hrest := ih rows' hlength (examined + 1) hleft
      cases hend : (scanPage sel limit scanLimit rows' (examined + 1) stream).snd with
      | none =>
        rw [hend] at hrest
        exact hrest.trans (hsplit stream)
      | some last =>
        rw [hend] at hrest
        obtain ⟨seen, after, hstream, hfst, hpage⟩ := hrest
        refine ⟨m :: seen, after, by rw [hstream]; rfl, hfst.trans (hsplit (seen ++ [last])), ?_⟩
        refine hpage.imp_right fun hbudget => ?_
        rw [hbudget, List.length_cons]
        exact congrArg some (by omega)
    rw [scanPage]
    split_ifs with hwants hspent hfull hspent hspent
    · refine ⟨[], stream, rfl, ?_, Or.inr (eq_of_spent hleft hspent)⟩
      simp [hwants]
    · exact hnext rows hrows (by simp [hwants]) (eq_false_of_ne_true hspent)
    · refine ⟨[], stream, rfl, ?_, Or.inr (eq_of_spent hleft hspent)⟩
      simp [hwants]
    · have hahead := lookAhead_spec sel scanLimit m (examined + 1) (eq_false_of_ne_true hspent) stream
      have hm : sel.wants m = true := by simpa using hwants
      cases hlook : lookAhead sel scanLimit m (examined + 1) stream with
      | none =>
        rw [hlook] at hahead
        have hnil : stream.filter sel.wants = [] := List.filter_eq_nil_iff.mpr fun m' hm' =>
          Bool.not_eq_true _ ▸ hahead m' hm'
        rw [List.filter_cons_of_pos hm, hnil]
      | some last =>
        rw [hlook] at hahead
        rcases hahead with ⟨rfl, m', hm', hrow⟩ | ⟨seen, after, hstream, hseen, hbudget⟩
        · exact ⟨[], stream, rfl, by simp [hm], Or.inl ⟨hm, m', hm', hrow⟩⟩
        · have hnil : (seen ++ [last]).filter sel.wants = [] := List.filter_eq_nil_iff.mpr fun m' hm' =>
            Bool.not_eq_true _ ▸ hseen m' hm'
          refine ⟨m :: seen, after, by rw [hstream]; rfl, ?_, Or.inr ?_⟩
          · rw [List.cons_append, List.filter_cons_of_pos hm, hnil]
          · rw [hbudget, List.length_cons]
            exact congrArg some (by omega)
    · refine ⟨[], stream, rfl, ?_, Or.inr (eq_of_spent hleft hspent)⟩
      simp [hwants]
    · refine hnext (rows ++ [m]) (not_le.mp hfull) ?_ (eq_false_of_ne_true hspent)
      simp [hwants]

theorem length_scanPage_le (sel : JobSelection) {limit : ℕ} (scanLimit : Option ℕ) (rows : List StateMarker)
    (hrows : rows.length < limit) (examined : ℕ) (stream : List StateMarker) :
    (scanPage sel limit scanLimit rows examined stream).fst.length ≤ limit := by
  induction stream generalizing examined rows with
  | nil => exact hrows.le
  | cons m stream ih =>
    have hmore : (rows ++ [m]).length = rows.length + 1 := List.length_append
    rw [scanPage]
    split_ifs with hwants hspent hfull hspent hspent
    · exact hrows.le
    · exact ih rows hrows (examined + 1)
    · exact hmore.trans_le hrows
    · exact hmore.trans_le hrows
    · exact hmore.trans_le hrows
    · exact ih (rows ++ [m]) (not_le.mp hfull) (examined + 1)

/-! ## All pages -/

/-- **The pages that are obtained by following the cursors**, each with its limit, and their rows. -/
inductive Follows (w : ListedWorkspace) (sel : JobSelection) :
    (ℕ → ℕ) → Option PyStr → List JobRow → Prop
  | last {limits : ℕ → ℕ} {after : Option PyStr} {rows : List JobRow} :
      listJobs w sel (limits 0) after = .ok (rows, none) → Follows w sel limits after rows
  | next {limits : ℕ → ℕ} {after : Option PyStr} {rows rest : List JobRow} {cursor : PyStr} :
      listJobs w sel (limits 0) after = .ok (rows, some cursor) →
      Follows w sel (fun i => limits (i + 1)) (some cursor) rest → Follows w sel limits after (rows ++ rest)

namespace Follows

variable {w : ListedWorkspace} {sel : JobSelection} {limits : ℕ → ℕ} {after : Option PyStr}
  {rows first : List JobRow}

theorem page (h : Follows w sel limits after rows) : ∃ stream, selectedStream w sel after = .ok stream := by
  have hpage : ∃ page, listJobs w sel (limits 0) after = .ok page := by
    cases h with
    | last hlast => exact ⟨_, hlast⟩
    | next hnext _ => exact ⟨_, hnext⟩
  obtain ⟨page, hpage⟩ := hpage
  unfold listJobs at hpage
  split_ifs at hpage
  obtain ⟨stream, hstream, -⟩ := bind_eq_ok.mp hpage
  exact ⟨stream, hstream⟩

theorem of_last (h : Follows w sel limits after rows)
    (hpage : listJobs w sel (limits 0) after = .ok (first, none)) : rows = first := by
  cases h with
  | last hlast => exact congrArg Prod.fst (Except.ok.inj (hlast.symm.trans hpage))
  | next hnext _ => cases hnext.symm.trans hpage

theorem of_next (h : Follows w sel limits after rows) {cursor : PyStr}
    (hpage : listJobs w sel (limits 0) after = .ok (first, some cursor)) :
    ∃ rest, rows = first ++ rest ∧ Follows w sel (fun i => limits (i + 1)) (some cursor) rest := by
  cases h with
  | last hlast => cases hlast.symm.trans hpage
  | next hnext hrest =>
    obtain ⟨rfl, heq⟩ := Prod.ext_iff.mp (Except.ok.inj (hnext.symm.trans hpage))
    obtain rfl := Option.some.inj heq
    exact ⟨_, rfl, hrest⟩

end Follows

namespace ListedWorkspace

variable (w : ListedWorkspace)

/-- **The documented listing** of a selection: the rows of its markers, in their order. -/
def IsListing (sel : JobSelection) (rows : List JobRow) : Prop :=
  ∃ markers : List StateMarker, rows = markers.map w.row ∧ markers.Pairwise StateMarker.Before
    ∧ ∀ m, m ∈ markers ↔ w.Lists sel m

/-- **The pages give the listing**, of every selection and with all limits. -/
def PagesComplete : Prop := ∀ sel limits, (∀ i, 0 < limits i) →
  ∃ rows, Follows w sel limits none rows ∧ w.IsListing sel rows

/-- All kinds, all placements and all tags. -/
def everything : JobSelection := ⟨[], [], none⟩

/-- **Where a tag scan can begin to spend its budgets**: at the start, or after a row that another one
follows. -/
def ScanStart (sel : JobSelection) (before rest : List StateMarker) : Prop :=
  before = [] ∨ (∃ m ∈ before.getLast?, sel.wants m = true) ∧ ∃ m ∈ rest, sel.wants m = true

/-- **Markers that budgets can be spent on** in full: whole hundreds, and a row for each hundred at most. -/
structure Spendable (sel : JobSelection) (markers : List StateMarker) : Prop where
  hundreds : 100 ∣ markers.length
  rows : 100 * (markers.filter sel.wants).length ≤ markers.length

/-- **A tag scan that can spend its budgets** exactly on the rest of the walk. -/
def ScanEnds (sel : JobSelection) : Prop := sel.tagContains ≠ none ∧ ∃ before rest,
  w.stream sel = before ++ rest ∧ ScanStart sel before rest ∧ 10000 ≤ rest.length ∧ Spendable sel rest

/-- **What the listing needs**: file names in the order of job keys, and cursors that lead on from each
marker that another one follows, and from the last one if a tag scan can spend its budgets there. -/
structure Listable : Prop where
  ordered : w.Ordered
  leads : ∀ m m', w.Keeps m → w.Keeps m' → m.Before m' → w.Leads m
  ends : ∀ sel, w.ScanEnds sel → ∀ m ∈ (w.stream sel).getLast?, w.Leads m

variable {w}

variable {sel : JobSelection}

variable {limit : ℕ}

theorem listJobs_eq (hlimit : 0 < limit) {after : Option PyStr}
    {stream : List StateMarker} (h : selectedStream w sel after = .ok stream) :
    listJobs w sel limit after = .ok ((scanPage sel limit (sel.scanLimit limit) [] 0 stream).fst.map w.row,
          (scanPage sel limit (sel.scanLimit limit) [] 0 stream).snd.map cursorText) := by
  unfold listJobs
  rw [if_neg (by omega), h]
  rfl

theorem Spendable.append {markers more : List StateMarker} (h : Spendable sel markers) (hmore : Spendable sel more) :
    Spendable sel (markers ++ more) where
  hundreds := by
    rw [List.length_append]
    exact Nat.dvd_add h.hundreds hmore.hundreds
  rows := by
    rw [List.filter_append, List.length_append, List.length_append]
    have := h.rows
    have := hmore.rows
    omega

/-- **A budget that is used up** is spent on whole hundreds, ten thousand markers at least. -/
theorem spendable_of_budget {seen : List StateMarker} {m : StateMarker}
    (hbudget : sel.scanLimit limit = some (0 + seen.length + 1))
    (hrows : ((seen ++ [m]).filter sel.wants).length ≤ limit) :
    sel.tagContains ≠ none ∧ 10000 ≤ (seen ++ [m]).length ∧ Spendable sel (seen ++ [m]) := by
  obtain ⟨part, hpart, hbound⟩ := Option.map_eq_some_iff.mp hbudget
  have hlength : (seen ++ [m]).length = max (limit * 100) 10000 := by
    rw [List.length_append, List.length_singleton]
    omega
  refine ⟨by rw [hpart]; exact Option.some_ne_none part, by rw [hlength]; exact le_max_right _ _, ?_, ?_⟩
  · rw [hlength]
    rcases max_choice (limit * 100) 10000 with h | h <;> rw [h]
    · exact Nat.dvd_mul_left 100 limit
    · decide
  · rw [hlength]
    have := le_max_left (limit * 100) 10000
    omega

theorem follows_stream (hordered : w.Ordered) (hleads : ∀ before m after, w.stream sel = before ++ m :: after →
      (after = [] → w.ScanEnds sel) → w.Leads m)
    (rest : List StateMarker) : ∀ (start behind : List StateMarker) (after : Option PyStr) (limits : ℕ → ℕ),
      (∀ i, 0 < limits i) → w.stream sel = start ++ behind ++ rest → ScanStart sel start (behind ++ rest) →
      Spendable sel behind → selectedStream w sel after = .ok rest →
      Follows w sel limits after ((rest.filter sel.wants).map w.row) := by
  induction hn : rest.length using Nat.strong_induction_on generalizing rest with
  | h n ih =>
    intro start behind after limits hlimits hstream hstart hspent hrest
    have hpage := listJobs_eq (hlimits 0) hrest
    have hfresh : spent (sel.scanLimit (limits 0)) 0 = false := by
      refine eq_false_of_ne_true fun h => ?_
      obtain ⟨bound, hbound, hle⟩ := spent_iff.mp h
      obtain ⟨part, -, rfl⟩ := Option.map_eq_some_iff.mp hbound
      omega
    have hspec := scanPage_spec sel (sel.scanLimit (limits 0)) [] (hlimits 0) 0 hfresh rest
    have hfew := length_scanPage_le sel (sel.scanLimit (limits 0)) [] (hlimits 0) 0 rest
    cases hend : (scanPage sel (limits 0) (sel.scanLimit (limits 0)) [] 0 rest).snd with
    | none =>
      rw [hend] at hspec hpage
      rw [hspec] at hpage
      exact Follows.last hpage
    | some m =>
      rw [hend] at hspec hpage
      obtain ⟨seen, later, hsplit, hrows, hwhere⟩ := hspec
      rw [hrows] at hpage hfew
      have hwhole : w.stream sel = (start ++ behind ++ seen) ++ m :: later := by
        rw [hstream, hsplit, List.append_assoc (start ++ behind)]
      have hparts : start ++ behind ++ seen ++ m :: later = start ++ (behind ++ (seen ++ [m])) ++ later := by
        simp
      -- either the page is full, or its budget is spent up to here
      have hmore : ∃ start' behind', w.stream sel = start' ++ behind' ++ later ∧ ScanStart sel start' (behind' ++ later)
          ∧ Spendable sel behind' ∧ (later = [] → w.ScanEnds sel) := by
        rcases hwhere with ⟨hwanted, m', hm', hrow⟩ | hbudget
        · refine ⟨start ++ behind ++ seen ++ [m], [], by simp [hwhole], ?_, ⟨Nat.dvd_zero 100, Nat.le_refl 0⟩, ?_⟩
          · exact Or.inr ⟨⟨m, by simp, hwanted⟩, m', hm', hrow⟩
          · rintro rfl
            cases hm'
        · obtain ⟨htag, hlong, hhere⟩ := spendable_of_budget hbudget hfew
          have hall := hspent.append hhere
          have hstart' : ScanStart sel start (behind ++ (seen ++ [m]) ++ later) := by
            rw [hsplit] at hstart
            simpa using hstart
          refine ⟨start, behind ++ (seen ++ [m]), hwhole.trans hparts, hstart', hall, ?_⟩
          rintro rfl
          refine ⟨htag, start, behind ++ (seen ++ [m]), ?_, ?_, ?_, hall⟩
          · rw [hwhole, hparts, List.append_nil]
          · rwa [List.append_nil] at hstart'
          · rw [List.length_append]
            omega
      obtain ⟨start', behind', hstream', hstart', hspent', hlast⟩ := hmore
      have hlead := hleads (start ++ behind ++ seen) m later hwhole hlast
      have hfollow := ih later.length (by rw [← hn, hsplit, List.length_append, List.length_cons]; omega)
        later rfl start' behind' (some (cursorText m)) (fun i => limits (i + 1))
        (fun i => hlimits (i + 1)) hstream' hstart' hspent' (selectedStream_leads hordered hwhole hlead)
      have hfilter : rest.filter sel.wants = (seen ++ [m]).filter sel.wants ++ later.filter sel.wants := by
        rw [← List.filter_append, hsplit, List.append_assoc]
        rfl
      rw [hfilter, List.map_append]
      exact Follows.next hpage hfollow

theorem Listable.complete (h : w.Listable) : w.PagesComplete := by
  intro sel limits hlimits
  have hsorted := w.stream_pairwise h.ordered sel
  have hkept : ∀ m ∈ w.stream sel, w.Keeps m := fun m hm => (w.mem_stream.mp hm).2.2
  have hleads : ∀ before m after, w.stream sel = before ++ m :: after →
      (after = [] → w.ScanEnds sel) → w.Leads m := by
    intro before m after hstream hend
    have hm := hkept m (hstream ▸ List.mem_append_right _ List.mem_cons_self)
    cases after with
    | nil => exact h.ends sel (hend rfl) m (by rw [hstream]; simp)
    | cons m' after =>
      have hm' := hkept m' (hstream ▸ List.mem_append_right _ (List.mem_cons_of_mem _ List.mem_cons_self))
      have hpair := (List.pairwise_append.mp (hstream ▸ hsorted)).2.1
      exact h.leads m m' hm hm' ((List.pairwise_cons.mp hpair).1 m' List.mem_cons_self)
  have hfollows := follows_stream h.ordered hleads (w.stream sel) [] [] none limits hlimits rfl (Or.inl rfl)
    ⟨Nat.dvd_zero 100, Nat.le_refl 0⟩ (w.selectedStream_none sel)
  refine ⟨_, hfollows, (w.stream sel).filter sel.wants, rfl, hsorted.filter _, fun m => ?_⟩
  rw [List.mem_filter, w.mem_stream]
  exact ⟨fun ⟨⟨hkind, hbelow, hkeeps⟩, hwants⟩ => ⟨hkind, hbelow, hkeeps, hwants⟩,
    fun h => ⟨⟨h.kind, h.below, h.kept⟩, h.wanted⟩⟩

/-! ## What complete pages need -/

theorem wants_everything (m : StateMarker) : everything.wants m = true := rfl

theorem mem_everything {m : StateMarker} : m ∈ w.stream everything ↔ w.Keeps m := by
  refine w.mem_stream.trans ⟨fun h => h.2.2, fun h => ⟨?_, List.nil_prefix, h⟩⟩
  generalize m.kind = kind
  cases kind <;> decide

variable {m m' : StateMarker}

theorem row_inj (h : w.Keeps m) (h' : w.Keeps m') (hrow : w.row m = w.row m') : m = m' := by
  have hkind : m.kind = m'.kind := by
    have hword : kindNamed m.kind.word = kindNamed m'.kind.word := congrArg (kindNamed ∘ JobRow.state) hrow
    rw [kindNamed_word, kindNamed_word] at hword
    exact Option.some.inj hword
  have hplacement : m.placement = m'.placement := by
    have hjoin := congrArg (fun row => PyStr.split row.placement '/') hrow
    have hm := PyStr.split_join h.placement_plain (mem_ownMarkers h).2.2.1
    have hm' := PyStr.split_join h'.placement_plain (mem_ownMarkers h').2.2.1
    exact hm.symm.trans (hjoin.trans hm')
  have hkey : m.jobKey.text = m'.jobKey.text := congrArg JobRow.jobKey hrow
  exact h.eq_of_position h' hkind (congrArg toLex (Prod.ext hplacement hkey))

theorem map_row_inj {markers markers' : List StateMarker} (h : ∀ m ∈ markers, w.Keeps m)
    (h' : ∀ m ∈ markers', w.Keeps m) (hrows : markers.map w.row = markers'.map w.row) :
    markers = markers' := by
  induction markers generalizing markers' with
  | nil => exact (List.map_eq_nil_iff.mp hrows.symm).symm
  | cons m markers ih =>
    cases markers' with
    | nil => cases hrows
    | cons m' markers' =>
      obtain ⟨hrow, hrest⟩ := List.cons.inj hrows
      rw [row_inj (h m List.mem_cons_self) (h' m' List.mem_cons_self) hrow,
        ih (fun m hm => h m (List.mem_cons_of_mem _ hm)) (fun m hm => h' m (List.mem_cons_of_mem _ hm)) hrest]

theorem scanPage_rest (rows : List StateMarker) (examined : ℕ) {stream : List StateMarker}
    (h : rows.length + stream.length < limit) :
    scanPage everything limit none rows examined stream = (rows ++ stream, none) := by
  induction stream generalizing rows examined with
  | nil => rw [List.append_nil]; rfl
  | cons m stream ih =>
    rw [List.length_cons] at h
    have hlength : (rows ++ [m]).length = rows.length + 1 := List.length_append
    rw [scanPage, if_neg (by rw [wants_everything]; decide), if_neg (by omega), spent_none,
      if_neg Bool.false_ne_true, ih (rows ++ [m]) (examined + 1) (by omega), List.append_assoc]
    rfl

theorem scanPage_full (rows : List StateMarker) (examined : ℕ) {seen : List StateMarker}
    {m next : StateMarker} {after : List StateMarker} (h : rows.length + seen.length + 1 = limit) :
    scanPage everything limit none rows examined (seen ++ m :: next :: after) = (rows ++ seen ++ [m], some m) := by
  induction seen generalizing rows examined with
  | nil =>
    have hlength : (rows ++ [m]).length = rows.length + 1 := List.length_append
    rw [List.length_nil] at h
    rw [List.nil_append, scanPage, if_neg (by rw [wants_everything]; decide), if_pos (by omega),
      spent_none, if_neg Bool.false_ne_true, lookAhead, if_pos (wants_everything next), List.append_nil]
  | cons first seen ih =>
    have hlength : (rows ++ [first]).length = rows.length + 1 := List.length_append
    rw [List.length_cons] at h
    rw [List.cons_append, scanPage, if_neg (by rw [wants_everything]; decide), if_neg (by omega),
      spent_none, if_neg Bool.false_ne_true, ih (rows ++ [first]) (examined + 1) (by omega), List.append_assoc rows]
    rfl

/-- A page with room for what is left is the last one. -/
theorem listJobs_rest {after : Option PyStr} {stream : List StateMarker}
    (h : selectedStream w everything after = .ok stream) (hfit : stream.length < limit) :
    listJobs w everything limit after = .ok (stream.map w.row, none) := by
  rw [listJobs_eq (by omega) h]
  show Except.ok ((scanPage everything _ none [] 0 stream).fst.map w.row,
    (scanPage everything _ none [] 0 stream).snd.map cursorText) = _
  rw [scanPage_rest [] 0 (by simpa using hfit)]
  rfl

variable {next : StateMarker} {before after : List StateMarker}

/-- A page that ends in front of a row has the cursor of its last one. -/
theorem listJobs_full (h : w.stream everything = before ++ m :: next :: after) :
    listJobs w everything (before.length + 1) none = .ok ((before ++ [m]).map w.row, some (cursorText m)) := by
  rw [listJobs_eq (Nat.succ_pos _) (w.selectedStream_none everything), h]
  show Except.ok ((scanPage everything _ none [] 0 (before ++ m :: next :: after)).fst.map w.row,
    (scanPage everything _ none [] 0 (before ++ m :: next :: after)).snd.map cursorText) = _
  rw [scanPage_full [] 0 (by simp), List.nil_append]
  rfl

theorem stream_eq_of_listing {markers : List StateMarker} (hmem : ∀ m, m ∈ markers ↔ w.Lists everything m)
    {walk : List StateMarker} (hwalk : ∀ m ∈ walk, w.Keeps m) (hrows : walk.map w.row = markers.map w.row) :
    walk = markers :=
  map_row_inj hwalk (fun m hm => ((hmem m).mp hm).kept) hrows

theorem stream_sorted_of_complete (h : w.PagesComplete) : (w.stream everything).Pairwise StateMarker.Before := by
  obtain ⟨rows, hfollow, markers, hrows, hsorted, hmem⟩ :=
    h everything (fun _ => (w.stream everything).length + 1) fun _ => Nat.succ_pos _
  have hpage := listJobs_rest (w.selectedStream_none everything) (Nat.lt_succ_self _)
  have hwalk := hfollow.of_last hpage
  rw [stream_eq_of_listing hmem (fun m hm => mem_everything.mp hm) (hwalk.symm.trans hrows)]
  exact hsorted

theorem ordered_of_complete (h : w.PagesComplete) : w.Ordered := by
  intro kind placement
  have hwalk : (orderedMarkers kind [] none (w.tree kind)).Sublist (w.stream everything) := by
    have hkind : kind ∈ selectedKinds everything.kinds := by
      cases kind <;> decide
    exact List.sublist_flatten_of_mem (List.mem_map_of_mem hkind)
  have hown := ownMarkers_sublist kind (w.sorted kind) [] placement
  refine ((stream_sorted_of_complete h).sublist (hown.trans hwalk)).imp_of_mem fun hm hm' hbefore => ?_
  obtain ⟨hkind, hplacement, -⟩ := mem_ownMarkers hm
  obtain ⟨hkind', hplacement', -⟩ := mem_ownMarkers hm'
  rcases hbefore with hlt | ⟨-, hlt⟩
  · rw [hkind, hkind'] at hlt
    exact absurd hlt (lt_irrefl _)
  · rcases StateMarker.position_lt.mp hlt with hlt | ⟨-, hlt⟩
    · rw [hplacement, hplacement'] at hlt
      exact absurd hlt (lt_irrefl _)
    · exact hlt

/-- **The second page** goes on behind the first one: together they have the rows of the listing. -/
theorem second_page_of_complete (h : w.PagesComplete) (hsplit : w.stream everything = before ++ m :: next :: after) :
    ∃ later, selectedStream w everything (some (cursorText m)) = .ok later
      ∧ w.IsListing everything ((before ++ [m]).map w.row ++ later.map w.row) := by
  -- the first page ends after `m`, and the second one has room for the rest
  obtain ⟨limits, hlimits, hfirst, hsecond⟩ : ∃ limits : ℕ → ℕ, (∀ i, 0 < limits i) ∧ limits 0 = before.length + 1
      ∧ ∀ s, selectedStream w everything (some (cursorText m)) = .ok s → s.length < limits 1 := by
    cases hs : selectedStream w everything (some (cursorText m)) with
    | ok s =>
      refine ⟨fun i => if i = 0 then before.length + 1 else s.length + 1, fun i => ?_, rfl, ?_⟩
      · dsimp only
        split_ifs <;> omega
      · rintro s' hs'
        rw [← Except.ok.inj hs']
        exact Nat.lt_succ_self _
    | error e => exact ⟨fun _ => before.length + 1, fun _ => Nat.succ_pos _, rfl, fun s hs => by cases hs⟩
  obtain ⟨rows, hfollow, hlisting⟩ := h everything limits hlimits
  have hpage := listJobs_full hsplit
  rw [← hfirst] at hpage
  obtain ⟨others, rfl, hothers⟩ := hfollow.of_next hpage
  obtain ⟨later, hlater⟩ := hothers.page
  rw [hothers.of_last (listJobs_rest hlater (hsecond later hlater))] at hlisting
  exact ⟨later, hlater, hlisting⟩

theorem leads_of_complete (h : w.PagesComplete) (hm : w.Keeps m) (hm' : w.Keeps m')
    (hbefore : m.Before m') : w.Leads m := by
  have hsorted := stream_sorted_of_complete h
  obtain ⟨before, rest, hsplit⟩ := List.append_of_mem (mem_everything.mpr hm)
  have hafter : ∀ x, w.Keeps x → (x ∈ rest ↔ m.Before x) := fun x hx =>
    mem_after_iff (hsplit ▸ hsorted) (hsplit ▸ mem_everything.mpr hx)
  obtain ⟨next, after, rfl⟩ := List.exists_cons_of_ne_nil (List.ne_nil_of_mem ((hafter m' hm').mpr hbefore))
  obtain ⟨later, hlater, markers, hrows, hmarkers, hmem⟩ := second_page_of_complete h hsplit
  obtain ⟨first, cursor, hcursor, hbeyond⟩ := iterCursor_of_selectedStream hm
    (w.mem_stream.mp (mem_everything.mpr hm)).1 hlater
  have hkeeps : ∀ x ∈ before ++ [m] ++ later, w.Keeps x := by
    intro x hx
    rcases List.mem_append.mp hx with hx | hx
    · have hx : x ∈ w.stream everything := by
        rw [hsplit]
        rcases List.mem_append.mp hx with hx | hx
        · exact List.mem_append_left _ hx
        · exact List.mem_append_right _ (List.mem_cons.mpr (Or.inl (List.mem_singleton.mp hx)))
      exact mem_everything.mp hx
    · rw [hbeyond] at hx
      exact mem_everything.mp (List.mem_filter.mp hx).1
  have hwalk : before ++ [m] ++ later = markers := by
    refine stream_eq_of_listing hmem hkeeps ?_
    rw [List.map_append, hrows]
  refine ⟨first, cursor, hcursor, fun x hx hkind => ?_⟩
  have hin : x ∈ later ↔ toLex cursor < x.position := by
    rw [hbeyond, List.mem_filter]
    have hself : isBeyond m.kind cursor x = true ↔ toLex cursor < x.position := by
      have hafter : isAfter (some cursor) x = true ↔ toLex cursor < x.position := decide_eq_true_iff
      simp [isBeyond, hkind, hafter]
    rw [hself]
    exact and_iff_right (mem_everything.mpr hx)
  have hmarkers' : (before ++ m :: later).Pairwise StateMarker.Before := by
    have hpairs := hwalk.symm ▸ hmarkers
    rwa [List.append_assoc] at hpairs
  have hlisted : x ∈ before ++ m :: later := by
    have hx := (hmem x).mpr ⟨(w.mem_stream.mp (mem_everything.mpr hx)).1, List.nil_prefix, hx, rfl⟩
    rw [← hwalk, List.append_assoc] at hx
    exact hx
  rw [← hin, mem_after_iff hmarkers' hlisted]
  refine ⟨fun h => ?_, fun h => Or.inr ⟨hkind.symm, h⟩⟩
  rcases h with h | h
  · rw [hkind] at h
    exact absurd h (lt_irrefl _)
  · exact h.2

theorem lookAhead_spent {last m : StateMarker} {bound examined : ℕ} {stream : List StateMarker}
    (hrows : ∀ m' ∈ stream ++ [m], sel.wants m' = false) (hbound : examined + stream.length + 1 = bound) :
    lookAhead sel (some bound) last examined (stream ++ [m]) = some m := by
  induction stream generalizing examined with
  | nil =>
    have hm := hrows m (by simp)
    have hspent : spent (some bound) (examined + 1) = true := spent_iff.mpr ⟨bound, rfl, hbound.ge⟩
    rw [List.nil_append, lookAhead, if_neg (by simp [hm]), if_pos hspent]
  | cons first stream ih =>
    rw [List.length_cons] at hbound
    have hfirst := hrows first List.mem_cons_self
    have hleft : ¬spent (some bound) (examined + 1) = true := by
      simp [spent]
      omega
    rw [List.cons_append, lookAhead, if_neg (by simp [hfirst]), if_neg hleft]
    exact ih (fun m hm => hrows m (List.mem_cons_of_mem _ hm)) (by omega)

/-- **A budget that is as long as the walk** is used up at its last marker, if the rows fit on the page. -/
theorem scanPage_spent {m : StateMarker} {bound examined : ℕ} {rows stream : List StateMarker}
    (hrows : rows.length < limit) (hfit : rows.length + ((stream ++ [m]).filter sel.wants).length ≤ limit)
    (hbound : examined + stream.length + 1 = bound) :
    (scanPage sel limit (some bound) rows examined (stream ++ [m])).snd = some m := by
  induction stream generalizing rows examined with
  | nil =>
    have hspent : spent (some bound) (examined + 1) = true := spent_iff.mpr ⟨bound, rfl, hbound.ge⟩
    rw [List.nil_append, scanPage, if_pos hspent]
    split_ifs <;> rfl
  | cons first stream ih =>
    rw [List.length_cons] at hbound
    have hmore : (rows ++ [first]).length = rows.length + 1 := List.length_append
    have hleft : ¬spent (some bound) (examined + 1) = true := by
      simp [spent]
      omega
    rw [List.cons_append, scanPage, if_neg hleft]
    rw [List.cons_append] at hfit
    split_ifs with hwants hfull
    · rw [List.filter_cons_of_neg (by simp [hwants])] at hfit
      exact ih hrows hfit (by omega)
    · rw [List.filter_cons_of_pos (by simpa using hwants), List.length_cons] at hfit
      have hnone : ((stream ++ [m]).filter sel.wants).length = 0 := by omega
      refine lookAhead_spent (fun m' hm' => eq_false_of_ne_true ?_) (by omega)
      exact List.filter_eq_nil_iff.mp (List.eq_nil_of_length_eq_zero hnone) m' hm'
    · rw [List.filter_cons_of_pos (by simpa using hwants), List.length_cons] at hfit
      exact ih (by omega) (by omega) (by omega)

/-- **The condition is needed** at the end, too: where a tag scan spends a budget on a whole walk, the
cursor of its last marker is written, and is to be accepted. -/
theorem accepted_of_complete (h : w.PagesComplete) (htag : sel.tagContains ≠ none)
    (hlong : 10000 ≤ (w.stream sel).length) (hspend : Spendable sel (w.stream sel))
    (hm : m ∈ (w.stream sel).getLast?) : ∃ place, iterCursor [m.kind] (localText m) = .ok place := by
  obtain ⟨seen, hstream⟩ : ∃ seen, w.stream sel = seen ++ [m] := ⟨_, (List.dropLast_append_getLast? m hm).symm⟩
  obtain ⟨part, hpart⟩ := Option.ne_none_iff_exists'.mp htag
  obtain ⟨hundreds, hlength⟩ := hspend.hundreds
  have hfew := hspend.rows
  have hbound : max (hundreds * 100) 10000 = (w.stream sel).length := by omega
  have hbudget : sel.scanLimit hundreds = some (w.stream sel).length := by
    unfold JobSelection.scanLimit
    rw [hpart]
    exact congrArg some hbound
  have hpositive : 0 < hundreds := by omega
  have hpage := listJobs_eq hpositive (w.selectedStream_none sel)
  have hend : (scanPage sel hundreds (some (w.stream sel).length) [] 0 (w.stream sel)).snd = some m := by
    rw [hstream] at hfew hlength ⊢
    refine scanPage_spent hpositive ?_ ?_
    · rw [List.length_nil]
      omega
    · rw [List.length_append, List.length_singleton]
      omega
  rw [hbudget, hend] at hpage
  obtain ⟨rows, hfollow, -⟩ := h sel (fun _ => hundreds) fun _ => hpositive
  obtain ⟨rest, -, hnext⟩ := hfollow.of_next hpage
  obtain ⟨after, hafter⟩ := hnext.page
  have hmem : m ∈ w.stream sel := hstream ▸ List.mem_append_right _ List.mem_cons_self
  obtain ⟨hkind, -, hkept⟩ := w.mem_stream.mp hmem
  obtain ⟨first, cursor, hcursor, -⟩ := iterCursor_of_selectedStream hkept hkind hafter
  exact ⟨_, hcursor⟩

end ListedWorkspace

/-! ## A job whose key begins another -/

section Shadowing

def shortKey : PyStr := "00000000-0000-4000-8000-000000000001"

def longKey : PyStr := shortKey ++ "--00000000-0000-4000-8000-000000000002"

def shadowedDirectory : Forest PyStr :=
  .branch "a" (.leaf (longKey ++ ".p500.g0.init") true
    (.leaf (shortKey ++ ".p500.g0.init") true .nil)) .nil

set_option maxRecDepth 4096 in
def shadowedWorkspace : ListedWorkspace where
  tree kind := if kind = .ready then shadowedDirectory else .nil
  sorted kind := by
    split_ifs
    · refine ⟨List.forall_mem_nil _, ⟨?_, List.forall_mem_nil _, trivial⟩, trivial⟩
      exact List.forall_mem_singleton.mpr (by decide)
    · exact trivial
  plain kind := by
    split_ifs
    · exact ⟨by decide, ⟨by decide, by decide, trivial⟩, trivial⟩
    · exact trivial
  state _ := []

set_option maxRecDepth 4096 in
/-- The two pages: the job without a tag is in neither. -/
example : ((listJobs shadowedWorkspace ListedWorkspace.everything 1 none).toOption.map
      fun page => (page.fst.map JobRow.jobKey, page.snd))
        = some ([longKey], some (PyStr.ofString "ready:a/" ++ longKey))
    ∧ ((listJobs shadowedWorkspace ListedWorkspace.everything 1
        (some (PyStr.ofString "ready:a/" ++ longKey))).toOption.map
      fun page => (page.fst.map JobRow.jobKey, page.snd)) = some ([], none) := by decide

end Shadowing
