import Mathlib.Data.Finset.Sort
import Mathlib.Data.Fintype.Card
import Mathlib.Logic.Relation

/-!
# Orders made layer by layer

A finite set with a relation on it is put in order by taking off its first
layer – the members that no other precedes – sorted among themselves, and
going on with what is left. This ends with all of the set, or at a set that
has no first layer.

Nothing here asks for the relation to be transitive or even irreflexive, so
it may be the edges of a graph. The order exists exactly if the relation has
no cycle in the set (`order_isError_iff`), and what is in it comes after
everything that precedes it (`idxOf_lt_idxOf`). Both are functions of the set
and the relation alone, so that whichever way these were listed does not
matter.
-/

universe u

namespace LayeredOrder

variable {α : Type u} (r : α → α → Prop)

open Classical in
/-- **The first layer**: the members of a set that none of its members precedes. -/
noncomputable def first (s : Finset α) : Finset α := s.filter fun v => ∀ u ∈ s, ¬r u v

variable {r} {s t : Finset α}

open Classical in
@[simp] theorem mem_first {v : α} : v ∈ first r s ↔ v ∈ s ∧ ∀ u ∈ s, ¬r u v := by
  unfold first
  exact Finset.mem_filter

theorem first_subset : first r s ⊆ s := fun _ hv => (mem_first.mp hv).1

theorem exists_cycle (hs : s.Nonempty) (h : first r s = ∅) : ∃ v ∈ s, Relation.TransGen r v v := by
  by_contra hacyclic
  have hirrefl : ∀ v ∈ s, ¬Relation.TransGen r v v := fun v hv hcycle => hacyclic ⟨v, hv, hcycle⟩
  let q : s → s → Prop := fun a b => Relation.TransGen r a.val b.val
  have : IsTrans s q := ⟨fun _ _ _ => Relation.TransGen.trans⟩
  have : Std.Irrefl q := ⟨fun a => hirrefl a.val a.property⟩
  obtain ⟨v, hv⟩ := hs
  obtain ⟨m, -, hmin⟩ := (Finite.wellFounded_of_trans_of_irrefl q).has_min Set.univ ⟨⟨v, hv⟩, trivial⟩
  have hfirst : m.val ∈ first r s :=
    mem_first.mpr ⟨m.property, fun u hu hr => hmin ⟨u, hu⟩ trivial (Relation.TransGen.single hr)⟩
  rw [h] at hfirst
  exact Finset.notMem_empty _ hfirst

variable [LinearOrder α]

variable (r) in
/-- **The order of a set, layer by layer**, or the set that is left when no first layer is. -/
noncomputable def order (s : Finset α) : Except (Finset α) (List α) :=
  if s = ∅ then .ok []
  else if first r s = ∅ then .error s
  else (order (s \ first r s)).map ((first r s).sort (· ≤ ·) ++ ·)
termination_by s.card
decreasing_by
  rename_i _ hfirst
  exact Finset.card_lt_card (Finset.sdiff_ssubset first_subset (Finset.nonempty_iff_ne_empty.mpr hfirst))

theorem order_empty : order r (∅ : Finset α) = .ok [] := by
  rw [order, if_pos rfl]

theorem order_error (hs : s ≠ ∅) (h : first r s = ∅) : order r s = .error s := by
  rw [order, if_neg hs, if_pos h]

theorem order_layer (h : first r s ≠ ∅) :
    order r s = (order r (s \ first r s)).map ((first r s).sort (· ≤ ·) ++ ·) := by
  have hs : s ≠ ∅ := fun hs => h (Finset.subset_empty.mp (hs ▸ first_subset))
  rw [order, if_neg hs, if_neg h]

variable (r) in
theorem induction_on_layers {P : Finset α → Prop} (s : Finset α) (hempty : P ∅)
    (hstuck : ∀ s : Finset α, s ≠ ∅ → first r s = ∅ → P s)
    (hlayer : ∀ s : Finset α, first r s ≠ ∅ → P (s \ first r s) → P s) : P s := by
  induction s using Finset.strongInduction with
  | H s ih =>
    by_cases hs : s = ∅
    · exact hs ▸ hempty
    · by_cases hfirst : first r s = ∅
      · exact hstuck s hs hfirst
      · exact hlayer s hfirst
          (ih _ (Finset.sdiff_ssubset first_subset (Finset.nonempty_iff_ne_empty.mpr hfirst)))

/-- **What an order is**: each member of the set once, and none before one that precedes it. -/
structure IsOrder (r : α → α → Prop) (s : Finset α) (l : List α) : Prop where
  nodup : l.Nodup
  mem : ∀ v, v ∈ l ↔ v ∈ s
  irrefl : ∀ v ∈ s, ¬r v v
  pairwise : l.Pairwise fun u v => ¬r v u

theorem IsOrder.layer {l : List α} (h : IsOrder r (s \ first r s) l) :
    IsOrder r s ((first r s).sort (· ≤ ·) ++ l) := by
  have hfirst : ∀ v ∈ (first r s).sort (· ≤ ·), v ∈ s ∧ ∀ u ∈ s, ¬r u v :=
    fun v hv => mem_first.mp ((Finset.mem_sort (· ≤ ·)).mp hv)
  have hrest : ∀ v ∈ l, v ∈ s ∧ v ∉ first r s := fun v hv => Finset.mem_sdiff.mp ((h.mem v).mp hv)
  constructor
  · refine List.nodup_append'.mpr ⟨Finset.sort_nodup _ _, h.nodup, fun v hv hv' => ?_⟩
    exact (hrest v hv').2 ((Finset.mem_sort (· ≤ ·)).mp hv)
  · intro v
    rw [List.mem_append, Finset.mem_sort, h.mem, Finset.mem_sdiff]
    constructor
    · rintro (hv | hv)
      · exact first_subset hv
      · exact hv.1
    · intro hv
      by_cases hv' : v ∈ first r s
      · exact Or.inl hv'
      · exact Or.inr ⟨hv, hv'⟩
  · intro v hv
    by_cases hv' : v ∈ first r s
    · exact (mem_first.mp hv').2 v hv
    · exact h.irrefl v (Finset.mem_sdiff.mpr ⟨hv, hv'⟩)
  · refine List.pairwise_append.mpr ⟨?_, h.pairwise, fun u hu v hv => (hfirst u hu).2 v (hrest v hv).1⟩
    exact List.Pairwise.imp_of_mem (fun hu hv _ => (hfirst _ hu).2 _ (hfirst _ hv).1) (Finset.pairwise_sort _ (· ≤ ·))

theorem order_spec (s : Finset α) : (∃ l, order r s = .ok l ∧ IsOrder r s l)
      ∨ ∃ t, order r s = .error t ∧ t.Nonempty ∧ t ⊆ s ∧ first r t = ∅ := by
  induction s using induction_on_layers r with
  | hempty => exact Or.inl ⟨[], order_empty, List.nodup_nil, by simp, by simp, List.Pairwise.nil⟩
  | hstuck s hs hfirst =>
    exact Or.inr ⟨s, order_error hs hfirst, Finset.nonempty_iff_ne_empty.mpr hs, Finset.Subset.refl s, hfirst⟩
  | hlayer s hfirst ih =>
    rw [order_layer hfirst]
    rcases ih with ⟨l, hl, hord⟩ | ⟨t, ht, hne, hsub, hstuck⟩
    · exact Or.inl ⟨_, by rw [hl]; rfl, hord.layer⟩
    · exact Or.inr ⟨t, by rw [ht]; rfl, hne, hsub.trans Finset.sdiff_subset, hstuck⟩

theorem IsOrder.idxOf_lt_idxOf {l : List α} (h : IsOrder r s l) {u v : α} (hu : u ∈ s) (hv : v ∈ s)
    (hr : r u v) : l.idxOf u < l.idxOf v := by
  have hlu := List.idxOf_lt_length_of_mem ((h.mem u).mpr hu)
  have hlv := List.idxOf_lt_length_of_mem ((h.mem v).mpr hv)
  rcases lt_trichotomy (l.idxOf u) (l.idxOf v) with hlt | heq | hgt
  · exact hlt
  · rw [List.idxOf_inj ((h.mem u).mpr hu)] at heq
    subst heq
    exact absurd hr (h.irrefl u hu)
  · have hnot := List.pairwise_iff_getElem.mp h.pairwise _ _ hlv hlu hgt
    rw [List.getElem_idxOf, List.getElem_idxOf] at hnot
    exact absurd hr hnot

theorem order_isError_iff (hr : ∀ u v, r u v → u ∈ s ∧ v ∈ s) :
    (∃ t, order r s = .error t) ↔ ∃ v, Relation.TransGen r v v := by
  rcases order_spec (r := r) s with ⟨l, hl, hord⟩ | ⟨t, ht, hne, -, hstuck⟩
  · refine iff_of_false (fun ⟨t, ht⟩ => ?_) fun ⟨v, hcycle⟩ => ?_
    · rw [hl] at ht
      cases ht
    · have hlt : ∀ w, Relation.TransGen r v w → l.idxOf v < l.idxOf w := by
        intro w hw
        induction hw with
        | single h => exact hord.idxOf_lt_idxOf (hr _ _ h).1 (hr _ _ h).2 h
        | tail _ h ih => exact ih.trans (hord.idxOf_lt_idxOf (hr _ _ h).1 (hr _ _ h).2 h)
      exact lt_irrefl _ (hlt v hcycle)
  · obtain ⟨v, -, hcycle⟩ := exists_cycle hne hstuck
    exact iff_of_true ⟨t, ht⟩ ⟨v, hcycle⟩

end LayeredOrder
