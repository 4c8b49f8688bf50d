import HttkWorkflow.JobListing
import Mathlib.Data.Prod.Lex

/-!
# The order of the marker walk

The walk of a kind meets every marker that is kept, whatever placement it
stands at, and meets them by placement: a directory before those in it, and
those by name, is the lexicographic order of paths. Within one directory it
meets them by file name. A walk that goes on after a cursor is the same walk
without the markers up to the cursor (`orderedMarkers_eq`), because a
directory that is skipped has nothing below it that comes after.
-/

/-! ## Directories before and after a cursor -/

theorem append_lt_of_lt {α : Type} [LinearOrder α] {a b : List α} (h : a < b) (hbegins : ¬a <+: b)
    (rest : List α) : a ++ rest < b := by
  induction a generalizing b with
  | nil => exact absurd List.nil_prefix hbegins
  | cons x a ih =>
    cases b with
    | nil => exact absurd h (List.not_lt_nil _)
    | cons y b =>
      rcases List.cons_lt_cons_iff.mp h with hlt | ⟨rfl, hlt⟩
      · exact List.cons_lt_cons_iff.mpr (Or.inl hlt)
      · refine List.cons_lt_cons_iff.mpr (Or.inr ⟨rfl, ih hlt fun hp => hbegins ?_⟩)
        exact List.prefix_cons_inj x |>.mpr hp

section Relation

variable {rel after : List PyStr}

theorem relation_equal (h : directoryAfterRelation rel (some after) = .equal) : rel = after := by
  simp only [directoryAfterRelation] at h
  split_ifs at h with heq
  exact heq

theorem relation_all (h : directoryAfterRelation rel (some after) = .all) : after < rel := by
  simp only [directoryAfterRelation] at h
  split_ifs at h with heq hancestor hlt
  exact lt_of_le_of_ne (not_lt.mp hlt) (Ne.symm heq)

theorem relation_ancestor (h : directoryAfterRelation rel (some after) = .ancestor) : rel < after := by
  simp only [directoryAfterRelation] at h
  split_ifs at h with heq hancestor
  have hbegins : rel <+: after := hancestor.2 ▸ List.take_prefix _ _
  obtain ⟨rest, rfl⟩ := hbegins
  cases rest with
  | nil => exact absurd (List.append_nil rel).symm heq
  | cons name rest => exact Forest.lt_append_cons rel name rest

theorem relation_skip (h : directoryAfterRelation rel (some after) = .skip) (rest : List PyStr) :
    rel ++ rest < after := by
  simp only [directoryAfterRelation] at h
  split_ifs at h with heq hancestor hlt
  refine append_lt_of_lt hlt (fun hbegins => hancestor ⟨?_, ?_⟩) rest
  · exact lt_of_le_of_ne hbegins.length_le fun hlength => heq (hbegins.eq_of_length hlength)
  · exact (List.prefix_iff_eq_take.mp hbegins).symm

end Relation

/-! ## Markers that are kept -/

theorem mem_keepFirst {seen : List PyStr} {markers : List StateMarker} {m : StateMarker}
    (h : m ∈ keepFirst seen markers) : m ∈ markers ∧ m.jobKey.text ∉ seen := by
  induction markers generalizing seen with
  | nil => exact absurd h List.not_mem_nil
  | cons first markers ih =>
    rw [keepFirst] at h
    split_ifs at h with hseen
    · exact (ih h).imp_left (List.mem_cons_of_mem _)
    · rcases List.mem_cons.mp h with rfl | h
      · exact ⟨List.mem_cons_self, hseen⟩
      · obtain ⟨hmem, hnot⟩ := ih h
        exact ⟨List.mem_cons_of_mem _ hmem, fun hkey => hnot (List.mem_cons_of_mem _ hkey)⟩

theorem keepFirst_pairwise (seen : List PyStr) (markers : List StateMarker) :
    (keepFirst seen markers).Pairwise fun m m' => m.jobKey.text ≠ m'.jobKey.text := by
  induction markers generalizing seen with
  | nil => exact List.Pairwise.nil
  | cons first markers ih =>
    rw [keepFirst]
    split_ifs
    · exact ih seen
    · refine List.pairwise_cons.mpr ⟨fun m hm hkey => ?_, ih _⟩
      exact (mem_keepFirst hm).2 (hkey ▸ List.mem_cons_self)

theorem placementPart_ok {part p : PyStr} (h : placementPart part = .ok p) :
    p = part ∧ part ∉ unsafePathComponents := by
  unfold placementPart at h
  split_ifs at h with hunsafe
  · cases h
  · obtain ⟨length, -, h⟩ := bind_eq_ok.mp h
    split_ifs at h
    · cases h
    · exact ⟨(Except.ok.inj h).symm, fun hmem => hunsafe (Or.inl hmem)⟩

theorem mapM_placementPart {parts placement : List PyStr} (h : parts.mapM placementPart = .ok placement) :
    placement = parts ∧ ∀ part ∈ parts, part ∉ unsafePathComponents := by
  induction parts generalizing placement with
  | nil => exact ⟨(Except.ok.inj h).symm, List.forall_mem_nil _⟩
  | cons part parts ih =>
    rw [List.mapM_cons] at h
    obtain ⟨p, hpart, hparts⟩ := bind_eq_ok.mp h
    obtain ⟨rest, hrest, hplacement⟩ := bind_eq_ok.mp hparts
    obtain ⟨rfl, hsafe⟩ := placementPart_ok hpart
    obtain ⟨rfl, hall⟩ := ih hrest
    exact ⟨(Except.ok.inj hplacement).symm, List.forall_mem_cons.mpr ⟨hsafe, hall⟩⟩

theorem markerFromPath_some {kind : StateKind} {rel : List PyStr} {name : PyStr} {m : StateMarker}
    (h : markerFromPath kind rel name = some m) :
    m.kind = kind ∧ m.placement = rel ∧ rel ≠ [] ∧ rel.mapM placementPart = .ok rel := by
  unfold markerFromPath at h
  split_ifs at h with hrel
  split at h
  · rename_i placement jobKey priority generation record hplacement _
    obtain rfl := (mapM_placementPart hplacement).1
    split at h
    · split_ifs at h
      obtain rfl := Option.some.inj h
      exact ⟨rfl, rfl, hrel, hplacement⟩
    · exact absurd h (Option.some_ne_none m).symm
  · exact absurd h (Option.some_ne_none m).symm

section Own

variable {kind : StateKind} {rel : List PyStr} {directory : Forest PyStr} {m m' : StateMarker}

theorem mem_ownMarkers (h : m ∈ ownMarkers kind rel directory) :
    m.kind = kind ∧ m.placement = rel ∧ rel ≠ [] ∧ rel.mapM placementPart = .ok rel := by
  obtain ⟨name, -, hname⟩ := List.mem_filterMap.mp (mem_keepFirst h).1
  exact markerFromPath_some hname

theorem ownMarkers_unique (h : m ∈ ownMarkers kind rel directory)
    (h' : m' ∈ ownMarkers kind rel directory) (hkey : m.jobKey.text = m'.jobKey.text) : m = m' := by
  have hnodup := List.pairwise_map.mpr (keepFirst_pairwise [] (directory.leaves.filterMap (markerFromPath kind rel)))
  exact List.inj_on_of_nodup_map hnodup h h' hkey

end Own

/-! ## The order of the listing -/

/-- **Where a marker of a kind stands**: its placement, then its job key. -/
def StateMarker.position (m : StateMarker) : Lex (List PyStr × PyStr) := toLex (m.placement, m.jobKey.text)

def StateKind.rank (kind : StateKind) : ℕ := stateKinds.idxOf kind

/-- **The documented order**: by kind, placement and job key. -/
def StateMarker.Before (m m' : StateMarker) : Prop :=
  m.kind.rank < m'.kind.rank ∨ (m.kind = m'.kind ∧ m.position < m'.position)

theorem StateMarker.position_lt {m m' : StateMarker} : m.position < m'.position
    ↔ m.placement < m'.placement ∨ (m.placement = m'.placement ∧ m.jobKey.text < m'.jobKey.text) :=
  Prod.Lex.lt_iff

def isAfter (cursor : Option MarkerCursor) (m : StateMarker) : Bool :=
  match cursor with
  | none => true
  | some c => toLex c < m.position

theorem visibleMarkers_eq (rel : List PyStr) (after : Option MarkerCursor) {own : List StateMarker}
    (hown : ∀ m ∈ own, m.placement = rel) : visibleMarkers rel after own = own.filter (isAfter after) := by
  cases after with
  | none =>
    show own = own.filter fun _ => true
    rw [List.filter_true]
  | some cursor =>
    have hposition : ∀ m ∈ own, (isAfter (some cursor) m = true
        ↔ cursor.fst < rel ∨ (cursor.fst = rel ∧ cursor.snd < m.jobKey.text)) := by
      intro m hm
      show decide (toLex cursor < m.position) = true ↔ _
      rw [decide_eq_true_iff, ← hown m hm]
      exact Prod.Lex.lt_iff
    have hnone : rel < cursor.fst → [] = own.filter (isAfter (some cursor)) := by
      intro hlt
      refine (List.filter_eq_nil_iff.mpr fun m hm hafter => ?_).symm
      rcases (hposition m hm).mp hafter with h | ⟨h, -⟩
      · exact lt_asymm h hlt
      · exact absurd h.symm hlt.ne
    unfold visibleMarkers
    cases hrelation : directoryAfterRelation rel ((some cursor).map Prod.fst) with
    | all =>
      refine (List.filter_eq_self.mpr fun m hm => ?_).symm
      exact (hposition m hm).mpr (Or.inl (relation_all hrelation))
    | equal =>
      have hrel : rel = cursor.fst := relation_equal hrelation
      refine List.filter_congr fun m hm => Bool.eq_iff_iff.mpr ?_
      rw [hposition m hm, decide_eq_true_iff, hrel]
      simp
    | ancestor => exact hnone (relation_ancestor hrelation)
    | skip => exact hnone (List.append_nil rel ▸ relation_skip hrelation [])

theorem not_isAfter_of_skip {rel rest : List PyStr} {after : Option MarkerCursor} {m : StateMarker}
    (h : directoryAfterRelation rel (after.map Prod.fst) = .skip) (hm : m.placement = rel ++ rest) :
    isAfter after m = false := by
  cases after with
  | none => cases h
  | some cursor =>
    have hlt : m.placement < cursor.fst := hm ▸ relation_skip h rest
    have hnot : ¬toLex cursor < m.position := by
      intro hafter
      rcases Prod.Lex.lt_iff.mp hafter with h | ⟨h, -⟩
      · exact lt_asymm h hlt
      · exact hlt.ne h.symm
    exact decide_eq_false hnot

section Walk

variable (kind : StateKind)

theorem mem_childMarkers_placement {rel : List PyStr} {directory : Forest PyStr} {m : StateMarker}
    (h : m ∈ childMarkers kind rel none directory) :
    ∃ name ∈ directory.branches, ∃ rest, m.placement = rel ++ name :: rest := by
  induction directory generalizing rel with
  | nil => exact absurd h List.not_mem_nil
  | leaf name marked rest ih => exact ih h
  | branch name entries rest ihe ih =>
    rcases List.mem_append.mp h with h | h
    · rw [if_neg (by simp [directoryAfterRelation])] at h
      refine ⟨name, List.mem_cons_self, ?_⟩
      rcases List.mem_append.mp h with h | h
      · exact ⟨[], (mem_ownMarkers h).2.1⟩
      · obtain ⟨n, -, below, hbelow⟩ := ihe h
        exact ⟨n :: below, by rw [hbelow, List.append_assoc]; rfl⟩
    · obtain ⟨n, hn, below, hbelow⟩ := ih h
      exact ⟨n, List.mem_cons_of_mem _ hn, below, hbelow⟩

theorem childMarkers_eq (rel : List PyStr) (after : Option MarkerCursor) (directory : Forest PyStr) :
    childMarkers kind rel after directory = (childMarkers kind rel none directory).filter (isAfter after) := by
  induction directory generalizing rel with
  | nil => rfl
  | leaf name marked rest ih => exact ih rel
  | branch name entries rest ihe ih =>
    have hown : ∀ m ∈ ownMarkers kind (rel ++ [name]) entries, m.placement = rel ++ [name] :=
      fun m hm => (mem_ownMarkers hm).2.1
    have hnone : directoryAfterRelation (rel ++ [name]) ((none : Option MarkerCursor).map Prod.fst) ≠ .skip := by
      simp [directoryAfterRelation]
    rw [childMarkers, childMarkers, if_neg hnone, List.filter_append, List.filter_append, ← ih,
      visibleMarkers_eq _ none hown, List.filter_filter]
    refine congrArg (· ++ _) ?_
    split_ifs with hskip
    · -- nothing that stands in a directory that is skipped comes after the cursor
      refine (List.append_eq_nil_iff.mpr ⟨List.filter_eq_nil_iff.mpr fun m hm => ?_,
        List.filter_eq_nil_iff.mpr fun m hm => ?_⟩).symm
      · have hplacement : m.placement = rel ++ [name] ++ [] := (hown m hm).trans (List.append_nil _).symm
        simp [not_isAfter_of_skip hskip hplacement]
      · obtain ⟨n, -, below, hbelow⟩ := mem_childMarkers_placement kind hm
        simp [not_isAfter_of_skip hskip hbelow]
    · rw [visibleMarkers_eq _ after hown, ihe]
      exact congrArg (· ++ _) (List.filter_congr fun m _ => (Bool.and_true _).symm)

theorem orderedMarkers_eq (rel : List PyStr) (after : Option MarkerCursor) (directory : Forest PyStr) :
    orderedMarkers kind rel after directory
      = (orderedMarkers kind rel none directory).filter (isAfter after) := by
  have hown : ∀ m ∈ ownMarkers kind rel directory, m.placement = rel := fun m hm => (mem_ownMarkers hm).2.1
  rw [orderedMarkers, orderedMarkers, visibleMarkers_eq rel after hown, childMarkers_eq,
    visibleMarkers_eq rel none hown, List.filter_append]
  refine congrArg (· ++ _) ?_
  rw [List.filter_filter]
  exact List.filter_congr fun m _ => (Bool.and_true _).symm

theorem mem_childMarkers {directory : Forest PyStr} (hsorted : directory.Sorted) {rel : List PyStr}
    {m : StateMarker} : m ∈ childMarkers kind rel none directory ↔ ∃ name rest, m.placement = rel ++ name :: rest
        ∧ m ∈ ownMarkers kind m.placement (directory.subforest (name :: rest)) := by
  induction directory generalizing rel with
  | nil =>
    refine ⟨fun h => absurd h List.not_mem_nil, fun ⟨name, rest, _, h⟩ => ?_⟩
    rw [Forest.subforest_nil] at h
    exact absurd h List.not_mem_nil
  | leaf name marked rest ih => exact ih hsorted.2
  | branch name entries rest ihe ih =>
    obtain ⟨hnames, hentries, hrest⟩ := hsorted
    have hbelow : m ∈ visibleMarkers (rel ++ [name]) none (ownMarkers kind (rel ++ [name]) entries)
          ++ childMarkers kind (rel ++ [name]) none entries
        ↔ ∃ below, m.placement = rel ++ name :: below
          ∧ m ∈ ownMarkers kind m.placement (entries.subforest below) := by
      rw [List.mem_append, ihe hentries]
      constructor
      · rintro (h | ⟨n, below, hm, h⟩)
        · have h : m ∈ ownMarkers kind (rel ++ [name]) entries := h
          have hm := (mem_ownMarkers h).2.1
          exact ⟨[], hm, hm ▸ h⟩
        · exact ⟨n :: below, by rw [hm, List.append_assoc]; rfl, h⟩
      · rintro ⟨below, hm, h⟩
        cases below with
        | nil => exact Or.inl (hm ▸ h)
        | cons n below => exact Or.inr ⟨n, below, by rw [hm, List.append_assoc]; rfl, h⟩
    have hnone : directoryAfterRelation (rel ++ [name]) ((none : Option MarkerCursor).map Prod.fst) ≠ .skip := by
      simp [directoryAfterRelation]
    rw [childMarkers, if_neg hnone, List.mem_append, hbelow, ih hrest]
    constructor
    · rintro (⟨below, hm, h⟩ | ⟨n, below, hm, h⟩)
      · refine ⟨name, below, hm, ?_⟩
        rw [Forest.subforest, Forest.child_branch_self]
        exact h
      · have hne : name ≠ n := by
          rintro rfl
          have hnil := Forest.child_eq_nil fun hmem => lt_irrefl name (hnames name hmem)
          rw [Forest.subforest, hnil, Forest.subforest_nil] at h
          exact absurd h List.not_mem_nil
        refine ⟨n, below, hm, ?_⟩
        rw [Forest.subforest, Forest.child_branch_of_ne hne]
        exact h
    · rintro ⟨n, below, hm, h⟩
      by_cases hname : name = n
      · subst hname
        rw [Forest.subforest, Forest.child_branch_self] at h
        exact Or.inl ⟨below, hm, h⟩
      · rw [Forest.subforest, Forest.child_branch_of_ne hname] at h
        exact Or.inr ⟨n, below, hm, h⟩

theorem mem_orderedMarkers {directory : Forest PyStr} (hsorted : directory.Sorted) {rel : List PyStr}
    {m : StateMarker} : m ∈ orderedMarkers kind rel none directory ↔ ∃ rest,
      m.placement = rel ++ rest ∧ m ∈ ownMarkers kind m.placement (directory.subforest rest) := by
  have hvisible : visibleMarkers rel none (ownMarkers kind rel directory) = ownMarkers kind rel directory := rfl
  rw [orderedMarkers, List.mem_append, mem_childMarkers kind hsorted, hvisible]
  constructor
  · rintro (h | ⟨name, rest, hm, h⟩)
    · have hm := (mem_ownMarkers h).2.1
      exact ⟨[], hm.trans (List.append_nil rel).symm, by rw [hm]; exact h⟩
    · exact ⟨name :: rest, hm, h⟩
  · rintro ⟨rest, hm, h⟩
    cases rest with
    | nil =>
      rw [List.append_nil] at hm
      rw [hm] at h
      exact Or.inl h
    | cons name rest => exact Or.inr ⟨name, rest, hm, h⟩

theorem pairwise_childMarkers {directory : Forest PyStr} (hsorted : directory.Sorted) {rel : List PyStr}
    (hown : ∀ name rest, (ownMarkers kind (rel ++ name :: rest) (directory.subforest (name :: rest))).Pairwise
      fun m m' => m.position < m'.position) :
    (childMarkers kind rel none directory).Pairwise fun m m' => m.position < m'.position := by
  induction directory generalizing rel with
  | nil => exact List.Pairwise.nil
  | leaf name marked rest ih => exact ih hsorted.2 hown
  | branch name entries rest ihe ih =>
    obtain ⟨hnames, hentries, hrest⟩ := hsorted
    have hnone : directoryAfterRelation (rel ++ [name]) ((none : Option MarkerCursor).map Prod.fst) ≠ .skip := by
      simp [directoryAfterRelation]
    have hself : (ownMarkers kind (rel ++ [name]) entries).Pairwise fun m m' => m.position < m'.position := by
      have h := hown name []
      rwa [Forest.subforest, Forest.child_branch_self] at h
    have hbelow := @ihe hentries (rel ++ [name]) fun n below => by
      have h := hown name (n :: below)
      rw [Forest.subforest, Forest.child_branch_self] at h
      rwa [List.append_assoc]
    have hlater := @ih hrest rel fun n below => by
      by_cases hname : name = n
      · subst hname
        have hnil := Forest.child_eq_nil fun hmem => lt_irrefl name (hnames name hmem)
        rw [Forest.subforest, hnil, Forest.subforest_nil]
        exact List.Pairwise.nil
      · have h := hown n below
        rwa [Forest.subforest, Forest.child_branch_of_ne hname] at h
    rw [childMarkers, if_neg hnone]
    refine List.pairwise_append.mpr ⟨List.pairwise_append.mpr ⟨hself, hbelow, ?_⟩, hlater, ?_⟩
    · intro m hm m' hm'
      have hplacement := (mem_ownMarkers hm).2.1
      obtain ⟨n, -, below, hm'⟩ := mem_childMarkers_placement kind hm'
      refine StateMarker.position_lt.mpr (Or.inl ?_)
      rw [hplacement, hm']
      exact Forest.lt_append_cons _ n below
    · intro m hm m' hm'
      obtain ⟨n, hn, below', hm'⟩ := mem_childMarkers_placement kind hm'
      have hplacement : ∃ below, m.placement = rel ++ name :: below := by
        rcases List.mem_append.mp hm with hm | hm
        · exact ⟨[], (mem_ownMarkers hm).2.1⟩
        · obtain ⟨n, -, below, hm⟩ := mem_childMarkers_placement kind hm
          exact ⟨n :: below, by rw [hm, List.append_assoc]; rfl⟩
      obtain ⟨below, hm⟩ := hplacement
      refine StateMarker.position_lt.mpr (Or.inl ?_)
      rw [hm, hm']
      exact Forest.append_cons_lt (hnames n (rest.branches_sublist.subset hn)) below below'

theorem pairwise_orderedMarkers {directory : Forest PyStr} (hsorted : directory.Sorted) {rel : List PyStr}
    (hown : ∀ rest, (ownMarkers kind (rel ++ rest) (directory.subforest rest)).Pairwise
      fun m m' => m.position < m'.position) :
    (orderedMarkers kind rel none directory).Pairwise fun m m' => m.position < m'.position := by
  refine List.pairwise_append.mpr ⟨?_, pairwise_childMarkers kind hsorted fun name rest => hown _, ?_⟩
  · have h := hown []
    rwa [List.append_nil] at h
  · intro m hm m' hm'
    have hplacement : m.placement = rel := And.left (And.right (mem_ownMarkers hm))
    obtain ⟨n, -, below, hm'⟩ := mem_childMarkers_placement kind hm'
    refine StateMarker.position_lt.mpr (Or.inl ?_)
    rw [hplacement, hm']
    exact Forest.lt_append_cons _ n below

theorem ownMarkers_sublist_children {directory : Forest PyStr} (hsorted : directory.Sorted)
    (rel : List PyStr) (name : PyStr) (rest : List PyStr) :
    (ownMarkers kind (rel ++ name :: rest) (directory.subforest (name :: rest))).Sublist
      (childMarkers kind rel none directory) := by
  induction directory generalizing rel name rest with
  | nil =>
    rw [Forest.subforest_nil]
    exact List.nil_sublist _
  | leaf n marked entries ih => exact ih hsorted.2 rel name rest
  | branch n entries others ihe ih =>
    obtain ⟨-, hentries, hothers⟩ := hsorted
    have hnone : directoryAfterRelation (rel ++ [n]) ((none : Option MarkerCursor).map Prod.fst) ≠ .skip := by
      simp [directoryAfterRelation]
    rw [childMarkers, if_neg hnone]
    by_cases hname : n = name
    · subst hname
      rw [Forest.subforest, Forest.child_branch_self]
      refine List.Sublist.trans ?_ (List.sublist_append_left _ _)
      cases rest with
      | nil => exact List.sublist_append_left _ _
      | cons first rest =>
        have hbelow := ihe hentries (rel ++ [n]) first rest
        rw [List.append_assoc] at hbelow
        exact hbelow.trans (List.sublist_append_right _ _)
    · rw [Forest.subforest, Forest.child_branch_of_ne hname]
      exact (ih hothers rel name rest).trans (List.sublist_append_right _ _)

theorem ownMarkers_sublist {directory : Forest PyStr} (hsorted : directory.Sorted) (rel rest : List PyStr) :
    (ownMarkers kind (rel ++ rest) (directory.subforest rest)).Sublist
      (orderedMarkers kind rel none directory) := by
  cases rest with
  | nil =>
    rw [List.append_nil]
    exact List.sublist_append_left _ _
  | cons name rest =>
    exact (ownMarkers_sublist_children kind hsorted rel name rest).trans (List.sublist_append_right _ _)

end Walk
