import Mathlib.Data.List.Induction
import Mathlib.Data.List.Perm.Basic
import Mathlib.Data.List.Nodup
import Mathlib.Logic.Function.Basic

/-!
# Answers by groups

Requests that have a key are put into groups of one key each, the groups in
the order of their first requests, and each group is answered as a whole. The
answers are then written where the requests came from.

No request is lost and none is doubled (`flatMap_group`). So where the places
of the requests are different, what is written last at a place is the answer
to the request that came from it (`assign_of_mem`), and nothing is written
anywhere else (`assign_of_notMem`).
-/

universe u v w

namespace GroupedAnswers

section Groups

variable {κ : Type u} {α : Type v} [DecidableEq κ]

/-- `groups.setdefault(key, []).append(item)`. -/
def insert : List (κ × List α) → κ × α → List (κ × List α)
  | [], item => [(item.fst, [item.snd])]
  | (key, items) :: groups, item =>
    if key = item.fst then (key, items ++ [item.snd]) :: groups else (key, items) :: insert groups item

/-- **The groups of some items**, in the order of their first items. -/
def group (items : List (κ × α)) : List (κ × List α) := items.foldl insert []

theorem flatMap_insert (groups : List (κ × List α)) (item : κ × α) :
    List.Perm ((insert groups item).flatMap Prod.snd) (groups.flatMap Prod.snd ++ [item.snd]) := by
  induction groups with
  | nil => exact List.Perm.refl _
  | cons first groups ih =>
    obtain ⟨key, items⟩ := first
    rw [insert]
    split_ifs
    · rw [List.flatMap_cons, List.flatMap_cons, List.append_assoc, List.append_assoc]
      exact List.perm_append_comm.append_left items
    · rw [List.flatMap_cons, List.flatMap_cons, List.append_assoc]
      exact ih.append_left items

theorem flatMap_group (items : List (κ × α)) : List.Perm ((group items).flatMap Prod.snd) (items.map Prod.snd) := by
  induction items using List.reverseRecOn with
  | nil => exact List.Perm.refl _
  | append_singleton items item ih =>
    unfold group at ih ⊢
    rw [List.foldl_concat, List.map_append]
    exact (flatMap_insert _ item).trans (ih.append_right [item.snd])

end Groups

section Places

variable {ι : Type u} {β : Type w} [DecidableEq ι]

/-- Answers, written one after the other. -/
def assign (places : ι → Option β) (answers : List (ι × β)) : ι → Option β :=
  answers.foldl (fun places answer => Function.update places answer.fst (some answer.snd)) places

variable {places : ι → Option β} {answers : List (ι × β)}

theorem assign_of_notMem {i : ι} (h : i ∉ answers.map Prod.fst) : assign places answers i = places i := by
  unfold assign
  induction answers generalizing places with
  | nil => rfl
  | cons answer answers ih =>
    obtain ⟨hne, hrest⟩ := not_or.mp (List.mem_cons.not.mp h)
    rw [List.foldl_cons, ih hrest, Function.update_of_ne hne]

theorem assign_of_mem (hnodup : (answers.map Prod.fst).Nodup)
    {answer : ι × β} (h : answer ∈ answers) : assign places answers answer.fst = some answer.snd := by
  unfold assign
  induction answers generalizing places with
  | nil => cases h
  | cons first answers ih =>
    obtain ⟨hfirst, hrest⟩ := List.nodup_cons.mp hnodup
    rw [List.foldl_cons]
    rcases List.mem_cons.mp h with rfl | h
    · have hkept : assign (Function.update places answer.fst (some answer.snd)) answers answer.fst
          = Function.update places answer.fst (some answer.snd) answer.fst := assign_of_notMem hfirst
      unfold assign at hkept
      rw [hkept, Function.update_self]
    · exact ih hrest h

end Places

end GroupedAnswers
