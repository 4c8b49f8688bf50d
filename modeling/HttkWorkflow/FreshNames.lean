import Mathlib.Data.Finset.Card
import Mathlib.Data.Finset.Image

/-!
# The first free name

A program that needs a name nobody has tries numbered candidates, one after the
other, until one is free. `firstFree` is that loop. It stops because a list of
names in use cannot contain more different candidates than it has entries
(`firstFree_isSome`), and what it stops at is the least number from where it began
whose candidate is free (`firstFree_spec`).
-/

universe u

variable {α : Type u} [DecidableEq α] {candidate : ℕ → α} {used : List α}

/-- **The loop** `while candidate(index) in used: index += 1`, cut off after some rounds. -/
def firstFree (candidate : ℕ → α) (used : List α) : ℕ → ℕ → Option ℕ
  | 0, _ => none
  | rounds + 1, index =>
    if candidate index ∈ used then firstFree candidate used rounds (index + 1) else some index

theorem firstFree_spec {rounds index n : ℕ} (h : firstFree candidate used rounds index = some n) :
    index ≤ n ∧ candidate n ∉ used ∧ ∀ k, index ≤ k → k < n → candidate k ∈ used := by
  induction rounds generalizing index with
  | zero => cases h
  | succ rounds ih =>
    rw [firstFree] at h
    split_ifs at h with hused
    · obtain ⟨hle, hfree, hpassed⟩ := ih h
      refine ⟨by omega, hfree, fun k hk hlt => ?_⟩
      by_cases heq : k = index
      · rw [heq]
        exact hused
      · exact hpassed k (by omega) hlt
    · obtain rfl := Option.some.inj h
      exact ⟨le_rfl, hused, fun k hk hlt => absurd hk (by omega)⟩

theorem firstFree_eq_none {rounds index : ℕ} (h : firstFree candidate used rounds index = none) :
    ∀ i < rounds, candidate (index + i) ∈ used := by
  induction rounds generalizing index with
  | zero => exact fun i hi => absurd hi (by omega)
  | succ rounds ih =>
    rw [firstFree] at h
    split_ifs at h with hused
    intro i hi
    cases i with
    | zero => exact hused
    | succ i =>
      have := ih h i (by omega)
      rwa [Nat.add_assoc, Nat.add_comm 1 i] at this

theorem firstFree_isSome (hinj : Function.Injective candidate) {rounds : ℕ} (index : ℕ)
    (hrounds : used.length < rounds) : (firstFree candidate used rounds index).isSome = true := by
  cases h : firstFree candidate used rounds index with
  | some n => rfl
  | none =>
    have hall := firstFree_eq_none h
    have htried : Function.Injective fun i => candidate (index + i) := fun i j hij => by
      have := hinj hij
      omega
    have hsub : (Finset.range rounds).image (fun i => candidate (index + i)) ⊆ used.toFinset := by
      intro a ha
      obtain ⟨i, hi, rfl⟩ := Finset.mem_image.mp ha
      exact List.mem_toFinset.mpr (hall i (Finset.mem_range.mp hi))
    have hcard := Finset.card_le_card hsub
    rw [Finset.card_image_of_injective _ htried, Finset.card_range] at hcard
    have hlength := List.toFinset_card_le used
    omega
