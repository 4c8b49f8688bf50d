import Mathlib.Data.List.Basic

/-!
# Codes that can be read off the front

A stream that is put together of pieces says what the pieces were if each of them can be
read off its front. For an encoder `enc` and the things `P` it is used for, that is
`ReadsOff P enc`: what follows an encoded thing does not matter for what it was.

Three ways to such encoders are enough here. Words that avoid a letter, followed by that
letter (`readsOff_terminated`). Lists of things, each encoded by an encoder of this kind
that writes something (`flatMap_injective`). And encoders made of others, which their
users take apart by hand.
-/

universe u v

variable {α : Type u} {β : Type v}

/-- **What is encoded can be read off the front** of a stream. -/
def ReadsOff (P : α → Prop) (enc : α → List β) : Prop :=
  ∀ a b l l', P a → P b → enc a ++ l = enc b ++ l' → a = b ∧ l = l'

theorem readsOff_terminated (z : β) : ReadsOff (z ∉ ·) fun word : List β => word ++ [z] := by
  intro a
  induction a with
  | nil =>
    intro b l l' _ hb h
    cases b with
    | nil => exact ⟨rfl, (List.cons.inj h).2⟩
    | cons c b => exact absurd ((List.cons.inj h).1 ▸ List.mem_cons_self) hb
  | cons c a ih =>
    intro b l l' ha hb h
    cases b with
    | nil => exact absurd ((List.cons.inj h).1 ▸ List.mem_cons_self) ha
    | cons d b =>
      have h : c :: ((a ++ [z]) ++ l) = d :: ((b ++ [z]) ++ l') := h
      obtain ⟨rfl, hrest⟩ := List.cons.inj h
      obtain ⟨rfl, hl⟩ := ih b l l' (fun hz => ha (List.mem_cons_of_mem _ hz))
        (fun hz => hb (List.mem_cons_of_mem _ hz)) hrest
      exact ⟨rfl, hl⟩

/-- **A sequence of encoded things** says what they were. -/
theorem ReadsOff.flatMap_injective {P : α → Prop} {enc : α → List β} (h : ReadsOff P enc)
    (hne : ∀ a, P a → enc a ≠ []) {as bs : List α} (has : ∀ a ∈ as, P a) (hbs : ∀ b ∈ bs, P b)
    (heq : as.flatMap enc = bs.flatMap enc) : as = bs := by
  induction as generalizing bs with
  | nil =>
    cases bs with
    | nil => rfl
    | cons b bs =>
      rw [List.flatMap_nil, List.flatMap_cons] at heq
      exact absurd (List.append_eq_nil_iff.mp heq.symm).1 (hne b (hbs b List.mem_cons_self))
  | cons a as ih =>
    cases bs with
    | nil =>
      rw [List.flatMap_nil, List.flatMap_cons] at heq
      exact absurd (List.append_eq_nil_iff.mp heq).1 (hne a (has a List.mem_cons_self))
    | cons b bs =>
      rw [List.flatMap_cons, List.flatMap_cons] at heq
      obtain ⟨rfl, hrest⟩ := h a b _ _ (has a List.mem_cons_self) (hbs b List.mem_cons_self) heq
      rw [ih (fun c hc => has c (List.mem_cons_of_mem _ hc)) (fun c hc => hbs c (List.mem_cons_of_mem _ hc)) hrest]
