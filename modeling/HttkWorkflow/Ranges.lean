import Mathlib.Data.List.Sort

/-!
# Sets of numbers as lists of ranges

A set of natural numbers that grows one number at a time and has few holes
is kept as a list of ranges, the first and the last number of each. A number
is added by sorting its own range among the others and joining, from the
left, every range that touches the one before it. `covers_insert` says that
the list then stands for the set with that number added, whatever ranges it
held before, and `apart_insert` that at least one number is missing between
any two of its ranges, whatever they were.
-/

namespace Ranges

/-- **Whether a number lies in one of the ranges.** -/
def covers (l : List (Nat × Nat)) (n : Nat) : Bool := l.any fun r => r.fst ≤ n && n ≤ r.snd

/-- The order of two ranges, as pairs. -/
def Before (a b : Nat × Nat) : Prop := a.fst < b.fst ∨ (a.fst = b.fst ∧ a.snd ≤ b.snd)

instance : DecidableRel Before := fun a b =>
  inferInstanceAs (Decidable (a.fst < b.fst ∨ (a.fst = b.fst ∧ a.snd ≤ b.snd)))

instance : Std.Total Before := ⟨fun a b => by unfold Before; omega⟩

instance : IsTrans (Nat × Nat) Before := ⟨fun a b c hab hbc => by unfold Before at *; omega⟩

/-- A range joins the one put last, if they touch. -/
def join (merged : List (Nat × Nat)) (r : Nat × Nat) : List (Nat × Nat) :=
  match merged with
  | [] => [r]
  | last :: rest =>
    if r.fst ≤ last.snd + 1 then (last.fst, max r.snd last.snd) :: rest else r :: last :: rest

/-- Sorted ranges, joined from the left. -/
def merge (l : List (Nat × Nat)) : List (Nat × Nat) := (l.foldl join []).reverse

/-- **The ranges with one number added.** -/
def insert (l : List (Nat × Nat)) (n : Nat) : List (Nat × Nat) :=
  merge ((l ++ [(n, n)]).insertionSort Before)

@[simp] theorem covers_nil (n : Nat) : covers [] n = false := rfl

variable {l : List (Nat × Nat)}

variable {n : Nat}

theorem covers_iff : covers l n = true ↔ ∃ r ∈ l, r.fst ≤ n ∧ n ≤ r.snd := by
  unfold covers
  simp only [List.any_eq_true, Bool.and_eq_true, decide_eq_true_eq]

variable {r : Nat × Nat}

@[simp] theorem covers_cons : covers (r :: l) n = true ↔ (r.fst ≤ n ∧ n ≤ r.snd) ∨ covers l n = true := by
  rw [covers_iff, covers_iff, List.exists_mem_cons_iff]

theorem covers_congr {l l' : List (Nat × Nat)} (h : ∀ r, r ∈ l ↔ r ∈ l') (n : Nat) : covers l n = covers l' n := by
  rw [Bool.eq_iff_iff, covers_iff, covers_iff]
  simp only [h]

variable {merged : List (Nat × Nat)}

theorem covers_join (h : ∀ last ∈ merged.head?, last.fst ≤ r.fst) :
    covers (join merged r) n = true ↔ covers merged n = true ∨ (r.fst ≤ n ∧ n ≤ r.snd) := by
  cases merged with
  | nil => simp [join]
  | cons last rest =>
    have hlast : last.fst ≤ r.fst := h last rfl
    rw [join]
    split_ifs with htouch
    · rw [covers_cons, covers_cons]
      have hunion : (last.fst ≤ n ∧ n ≤ max r.snd last.snd)
          ↔ (last.fst ≤ n ∧ n ≤ last.snd) ∨ (r.fst ≤ n ∧ n ≤ r.snd) := by omega
      rw [hunion, or_assoc, or_assoc, or_comm (a := (r.fst ≤ n ∧ n ≤ r.snd))]
    · rw [covers_cons, or_comm]

theorem head_join {r last : Nat × Nat} (h : last ∈ (join merged r).head?) :
    last.fst = r.fst ∨ ∃ last' ∈ merged.head?, last.fst = last'.fst := by
  cases merged with
  | nil =>
    obtain rfl : r = last := Option.some.inj h
    exact Or.inl rfl
  | cons last' rest =>
    rw [join] at h
    split_ifs at h
    · obtain rfl := Option.some.inj h
      exact Or.inr ⟨last', rfl, rfl⟩
    · obtain rfl := Option.some.inj h
      exact Or.inl rfl

theorem head_join_le {l merged : List (Nat × Nat)} (hr : ∀ r' ∈ l, Before r r')
    (hfirst : ∀ last ∈ merged.head?, last.fst ≤ r.fst) :
    ∀ last ∈ (join merged r).head?, ∀ r' ∈ l, last.fst ≤ r'.fst := by
  intro last hlast r' hr'
  have hle : r.fst ≤ r'.fst := by
    have hbefore := hr r' hr'
    unfold Before at hbefore
    omega
  rcases head_join hlast with h | ⟨last', hlast', h⟩
  · exact h ▸ hle
  · exact h ▸ le_trans (hfirst last' hlast') hle

theorem covers_foldl {l merged : List (Nat × Nat)} (hl : l.Pairwise Before)
    (hm : ∀ last ∈ merged.head?, ∀ r ∈ l, last.fst ≤ r.fst) :
    covers (l.foldl join merged) n = true ↔ covers merged n = true ∨ covers l n = true := by
  induction l generalizing merged with
  | nil => simp
  | cons r l ih =>
    obtain ⟨hr, hl⟩ := List.pairwise_cons.mp hl
    have hfirst : ∀ last ∈ merged.head?, last.fst ≤ r.fst := fun last hlast =>
      hm last hlast r List.mem_cons_self
    rw [List.foldl_cons, ih hl (head_join_le hr hfirst), covers_join hfirst, covers_cons, or_assoc]

theorem covers_insert {n k : Nat} : covers (insert l n) k = true ↔ covers l k = true ∨ k = n := by
  unfold insert merge
  rw [covers_congr (fun r => List.mem_reverse) k, covers_foldl (List.pairwise_insertionSort Before _) (by simp),
    covers_congr (fun r => List.mem_insertionSort Before) k]
  simp only [covers_nil, Bool.false_eq_true, false_or]
  rw [covers_iff]
  simp only [List.mem_append, List.mem_singleton]
  constructor
  · rintro ⟨r, hr | rfl, hlow, hhigh⟩
    · exact Or.inl (covers_iff.mpr ⟨r, hr, hlow, hhigh⟩)
    · exact Or.inr (le_antisymm hhigh hlow)
  · rintro (h | rfl)
    · obtain ⟨r, hr, hk⟩ := covers_iff.mp h
      exact ⟨r, Or.inl hr, hk⟩
    · exact ⟨(k, k), Or.inr rfl, le_rfl, le_rfl⟩

/-! ## Gaps between the ranges -/

/-- **Ranges in order with a gap after each**: sorted, disjoint, and no two of
them adjacent. -/
structure Apart (l : List (Nat × Nat)) : Prop where
  nonempty : ∀ r ∈ l, r.fst ≤ r.snd
  gaps : l.Pairwise fun a b => a.snd + 1 < b.fst

theorem apart_nil : Apart [] := ⟨by simp, List.Pairwise.nil⟩

theorem apart_join (h : Apart merged.reverse)
    (hr : r.fst ≤ r.snd) (hfirst : ∀ last ∈ merged.head?, last.fst ≤ r.fst) : Apart (join merged r).reverse := by
  cases merged with
  | nil => exact ⟨by simpa [join] using hr, by simp [join]⟩
  | cons last rest =>
    have hlast : last.fst ≤ r.fst := hfirst last rfl
    have hnonempty : ∀ a ∈ last :: rest, a.fst ≤ a.snd := fun a ha => h.nonempty a (List.mem_reverse.mpr ha)
    obtain ⟨hbefore, hrest⟩ := List.pairwise_cons.mp (List.pairwise_reverse.mp h.gaps)
    rw [join]
    split_ifs with htouch
    · -- the range put last grows to the right only, so its gap on the left stays
      refine ⟨fun a ha => ?_, List.pairwise_reverse.mpr (List.pairwise_cons.mpr ⟨hbefore, hrest⟩)⟩
      rcases List.mem_cons.mp (List.mem_reverse.mp ha) with rfl | ha
      · have hself := hnonempty last List.mem_cons_self
        show last.fst ≤ max r.snd last.snd
        omega
      · exact hnonempty a (List.mem_cons_of_mem _ ha)
    · refine ⟨fun a ha => ?_, List.pairwise_reverse.mpr (List.pairwise_cons.mpr ⟨fun a ha => ?_, ?_⟩)⟩
      · rcases List.mem_cons.mp (List.mem_reverse.mp ha) with rfl | ha
        · exact hr
        · exact hnonempty a ha
      · -- what ends before the range put last ends before this one, too
        rcases List.mem_cons.mp ha with rfl | ha
        · omega
        · have hgap := hbefore a ha
          omega
      · exact List.pairwise_cons.mpr ⟨hbefore, hrest⟩

theorem apart_foldl {l merged : List (Nat × Nat)} (hm : Apart merged.reverse) (hl : l.Pairwise Before)
    (hnonempty : ∀ r ∈ l, r.fst ≤ r.snd) (hfirst : ∀ last ∈ merged.head?, ∀ r ∈ l, last.fst ≤ r.fst) :
    Apart (l.foldl join merged).reverse := by
  induction l generalizing merged with
  | nil => exact hm
  | cons r l ih =>
    obtain ⟨hr, hl⟩ := List.pairwise_cons.mp hl
    have hhead : ∀ last ∈ merged.head?, last.fst ≤ r.fst := fun last hlast =>
      hfirst last hlast r List.mem_cons_self
    have hjoin := apart_join hm (hnonempty r List.mem_cons_self) hhead
    exact ih hjoin hl (fun a ha => hnonempty a (List.mem_cons_of_mem _ ha)) (head_join_le hr hhead)

theorem apart_insert (h : ∀ r ∈ l, r.fst ≤ r.snd) (n : Nat) : Apart (insert l n) := by
  unfold insert merge
  refine apart_foldl apart_nil (List.pairwise_insertionSort Before _) (fun r hr => ?_) (by simp)
  rcases List.mem_append.mp ((List.mem_insertionSort Before).mp hr) with hr | hr
  · exact h r hr
  · obtain rfl := List.mem_singleton.mp hr
    exact le_rfl

end Ranges
