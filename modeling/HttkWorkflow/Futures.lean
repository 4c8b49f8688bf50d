import Mathlib.Data.Finset.Card
import Mathlib.Data.List.Dedup

/-!
# What can still become of a condition

Some of a set of parties have come to a state they keep, and the others will.
A condition on the states of all may hold already, or there may be no way left
for it to hold. `Impossible` says the second, of every assignment of final
states to the parties that are still open.

To decide it, one future is enough if it is the best one: if the condition
holds in some future, it holds in that one (`impossible_iff_best`).

The last section counts in a list that may name a party more than once, where
a set names it once.
-/

namespace Futures

variable {ι σ : Type}

/-- **A future of the present states**: whoever has come to a final state keeps it, and everybody does. -/
def IsFuture (final : σ → Prop) (parties : Finset ι) (present future : ι → σ) : Prop :=
  ∀ i ∈ parties, final (future i) ∧ (final (present i) → future i = present i)

/-- **No future meets the condition.** -/
def Impossible (final : σ → Prop) (parties : Finset ι) (present : ι → σ) (P : (ι → σ) → Prop) : Prop :=
  ∀ future, IsFuture final parties present future → ¬P future

/-- The future in which everybody who is open comes to one state. -/
def best (final : σ → Prop) [DecidablePred final] (present : ι → σ) (state : σ) : ι → σ := fun i =>
  if final (present i) then present i else state

variable {final : σ → Prop} [DecidablePred final] {parties : Finset ι} {present : ι → σ} {state : σ}

theorem best_isFuture (h : final state) : IsFuture final parties present (best final present state) := by
  intro i _
  unfold best
  by_cases hi : final (present i)
  · rw [if_pos hi]
    exact ⟨hi, fun _ => rfl⟩
  · rw [if_neg hi]
    exact ⟨h, fun hfinal => absurd hfinal hi⟩

theorem impossible_iff_best {P : (ι → σ) → Prop} (h : final state)
    (hbest : ∀ future, IsFuture final parties present future → P future → P (best final present state)) :
    Impossible final parties present P ↔ ¬P (best final present state) := by
  constructor
  · exact fun himpossible => himpossible _ (best_isFuture h)
  · exact fun hnot future hfuture hP => hnot (hbest future hfuture hP)

theorem best_eq_of_future {future : ι → σ} (hfuture : IsFuture final parties present future) {i : ι} (hi : i ∈ parties)
    (h : future i = state) : best final present state i = state := by
  unfold best
  by_cases hpresent : final (present i)
  · rw [if_pos hpresent, ← (hfuture i hi).2 hpresent, h]
  · rw [if_neg hpresent]

theorem best_eq_iff {i : ι} : best final present state i = state ↔ present i = state ∨ ¬final (present i) := by
  unfold best
  by_cases hpresent : final (present i)
  · rw [if_pos hpresent]
    exact ⟨Or.inl, fun h => h.resolve_right fun hnot => hnot hpresent⟩
  · rw [if_neg hpresent]
    exact ⟨fun _ => Or.inr hpresent, fun _ => rfl⟩

/-! ## Counting names -/

section Counting

variable [DecidableEq ι] {names : List ι} {p : ι → Prop} [DecidablePred p]

theorem card_filter_le_countP : (names.toFinset.filter p).card ≤ names.countP fun i => decide (p i) := by
  have hfilter : names.toFinset.filter p = (names.filter fun i => decide (p i)).toFinset := by
    ext i
    simp
  rw [hfilter, List.countP_eq_length_filter]
  exact List.toFinset_card_le _

theorem card_filter_of_nodup (h : names.Nodup) :
    (names.toFinset.filter p).card = names.countP fun i => decide (p i) := by
  have hfilter : names.toFinset.filter p = (names.filter fun i => decide (p i)).toFinset := by
    ext i
    simp
  rw [hfilter, List.countP_eq_length_filter]
  exact List.toFinset_card_of_nodup (h.filter _)

end Counting

end Futures
