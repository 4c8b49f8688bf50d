import Mathlib.Data.List.Nodup
import Mathlib.Data.List.Dedup
import Mathlib.Data.Finset.Card
import Mathlib.Logic.Relation

/-!
# Walking along a partial function

A linked history is read by following, from a start, the one successor each
entry names, until an entry names none. Such a walk keeps what it has
visited, so that a history that leads back into itself ends it as well.

`walk next fuel [] a` is that loop with a bound on its rounds. When all
successors are among the elements of some list, two rounds more than its
length are enough for every walk, and what a walk then meets is exactly what
lies behind the start: `mem_walk_iff`.
-/

variable {α : Type} [DecidableEq α]

/-- **The walk**: what is met from an element on that was not visited before. -/
def walk (next : α → Option α) : ℕ → List α → α → List α
  | 0, _, _ => []
  | fuel + 1, visited, a =>
    if a ∈ visited then []
    else
      a :: match next a with
        | none => []
        | some b => walk next fuel (a :: visited) b

theorem walk_succ {next : α → Option α} {fuel : ℕ} {visited : List α} {a : α} :
    walk next (fuel + 1) visited a = if a ∈ visited then []
      else
        a :: match next a with
          | none => []
          | some b => walk next fuel (a :: visited) b :=
  rfl

def Leads (next : α → Option α) (a b : α) : Prop := next a = some b

omit [DecidableEq α] in
theorem closed_of_leads {next : α → Option α} {met : List α} {a b : α} (ha : a ∈ met)
    (hclosed : ∀ x ∈ met, ∀ y, next x = some y → y ∈ met)
    (h : Relation.ReflTransGen (Leads next) a b) : b ∈ met := by
  induction h with
  | refl => exact ha
  | tail _ hstep ih => exact hclosed _ ih _ hstep

theorem leads_of_mem_walk {next : α → Option α} {fuel : ℕ} {visited : List α} {a b : α}
    (h : b ∈ walk next fuel visited a) : Relation.ReflTransGen (Leads next) a b := by
  induction fuel generalizing visited a with
  | zero => cases h
  | succ fuel ih =>
    rw [walk_succ] at h
    split_ifs at h with ha
    · cases h
    · rcases List.mem_cons.mp h with rfl | h
      · exact Relation.ReflTransGen.refl
      · cases hnext : next a with
        | none =>
          rw [hnext] at h
          cases h
        | some c =>
          rw [hnext] at h
          exact Relation.ReflTransGen.head hnext (ih h)

theorem mem_walk_start {next : α → Option α} {fuel : ℕ} {a : α} : a ∈ walk next (fuel + 1) [] a := by
  rw [walk_succ, if_neg List.not_mem_nil]
  exact List.mem_cons_self

section Enough

variable {next : α → Option α} {cover : List α}

theorem walk_closed {start : α} (hcover : ∀ a b, next a = some b → b ∈ cover) {fuel : ℕ}
    {visited : List α} {a : α} (hnodup : visited.Nodup)
    (hsub : ∀ x ∈ a :: visited, x ∈ start :: cover)
    (hfuel : cover.length + 2 ≤ fuel + visited.length)
    (hnext : ∀ x ∈ visited, ∀ y, next x = some y → y ∈ a :: visited) :
    ∀ x ∈ visited ++ walk next fuel visited a, ∀ y, next x = some y →
      y ∈ visited ++ walk next fuel visited a := by
  induction fuel generalizing visited a with
  | zero =>
    have hlength : visited.length ≤ (start :: cover).length :=
      (hnodup.subperm fun x hx => hsub x (List.mem_cons_of_mem _ hx)).length_le
    rw [List.length_cons] at hlength
    exact absurd hfuel (by omega)
  | succ fuel ih =>
    rw [walk_succ]
    split_ifs with ha
    · rw [List.append_nil]
      intro x hx y hy
      rcases List.mem_cons.mp (hnext x hx y hy) with rfl | hy
      · exact ha
      · exact hy
    · cases hb : next a with
      | none =>
        intro x hx y hy
        rcases List.mem_append.mp hx with hx | hx
        · rcases List.mem_cons.mp (hnext x hx y hy) with rfl | hy
          · exact List.mem_append_right _ List.mem_cons_self
          · exact List.mem_append_left _ hy
        · rw [List.mem_singleton.mp hx, hb] at hy
          cases hy
      | some b =>
        -- the rest of the walk has the current element among its visited ones
        have hrest := @ih (a :: visited) b (List.nodup_cons.mpr ⟨ha, hnodup⟩) (fun x hx => by
            rcases List.mem_cons.mp hx with rfl | hx
            · exact List.mem_cons_of_mem _ (hcover a x hb)
            · exact hsub x hx)
          (by rw [List.length_cons]; omega)
          (fun x hx y hy => by
            rcases List.mem_cons.mp hx with rfl | hx
            · obtain rfl := Option.some.inj (hb.symm.trans hy)
              exact List.mem_cons_self
            · exact List.mem_cons_of_mem _ (hnext x hx y hy))
        have hmem : ∀ x, x ∈ visited ++ a :: walk next fuel (a :: visited) b
            ↔ x ∈ a :: visited ++ walk next fuel (a :: visited) b := by
          intro x
          simp only [List.cons_append, List.mem_append, List.mem_cons]
          exact or_left_comm
        intro x hx y hy
        exact (hmem y).mpr (hrest x ((hmem x).mp hx) y hy)

theorem mem_walk_iff (hcover : ∀ a b, next a = some b → b ∈ cover) {fuel : ℕ}
    (hfuel : cover.length + 2 ≤ fuel) {a b : α} :
    b ∈ walk next fuel [] a ↔ Relation.ReflTransGen (Leads next) a b := by
  refine ⟨leads_of_mem_walk, fun h => ?_⟩
  obtain ⟨rounds, rfl⟩ : ∃ rounds, fuel = rounds + 1 := ⟨fuel - 1, by omega⟩
  have hstart : ∀ x ∈ [a], x ∈ a :: cover := fun x hx => by
    rw [List.mem_singleton.mp hx]
    exact List.mem_cons_self
  have hclosed := walk_closed hcover List.nodup_nil hstart hfuel fun x hx => absurd hx List.not_mem_nil
  exact closed_of_leads mem_walk_start hclosed h

end Enough
