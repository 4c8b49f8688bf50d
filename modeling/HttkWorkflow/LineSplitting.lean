import Mathlib.Data.List.Basic
import Mathlib.Order.Basic

/-!
# Lines of a sequence

A sequence is cut into lines at a separator: each separator ends a line, and
what comes after the last one is a line too unless it is empty. Two ways to
find the lines of a sequence that is not there at once are compared with this.

The first keeps what it has not found a separator in and puts the next chunk
behind it. It finds the lines of the whole sequence however that is cut into
chunks (`foldl_feed`). The second takes, again and again, what there is up to
and with the next separator, or all there is (a *piece*). A line taken in two
pieces is one too many.
-/

universe u

namespace LineSplitting

variable {α : Type u} [DecidableEq α] (nl : α)

/-- **The lines of a sequence that are ended**, and what comes after them. -/
def cut : List α → List (List α) × List α
  | [] => ([], [])
  | c :: l =>
    if c = nl then ([] :: (cut l).fst, (cut l).snd)
    else
      match cut l with
      | ([], rest) => ([], c :: rest)
      | (line :: lines, rest) => ((c :: line) :: lines, rest)

/-- **The lines of a sequence**, the last with or without a separator. -/
def lines (l : List α) : List (List α) :=
  if (cut nl l).snd = [] then (cut nl l).fst else (cut nl l).fst ++ [(cut nl l).snd]

variable {nl} {l line rest : List α}

theorem cut_of_notMem (h : nl ∉ l) : cut nl l = ([], l) := by
  induction l with
  | nil => rfl
  | cons c l ih =>
    obtain ⟨hc, hl⟩ := not_or.mp (List.mem_cons.not.mp h)
    rw [cut, if_neg (Ne.symm hc), ih hl]

theorem cut_line (h : nl ∉ line) (rest : List α) :
    cut nl (line ++ nl :: rest) = (line :: (cut nl rest).fst, (cut nl rest).snd) := by
  induction line with
  | nil => rw [List.nil_append, cut, if_pos rfl]
  | cons c line ih =>
    obtain ⟨hc, hl⟩ := not_or.mp (List.mem_cons.not.mp h)
    rw [List.cons_append, cut, if_neg (Ne.symm hc), ih hl]

theorem notMem_rest (l : List α) : nl ∉ (cut nl l).snd := by
  induction l with
  | nil => exact List.not_mem_nil
  | cons c l ih =>
    rw [cut]
    split_ifs with hc
    · exact ih
    · split
      · rename_i rest heq
        rw [heq] at ih
        exact List.not_mem_cons_of_ne_of_not_mem (Ne.symm hc) ih
      · rename_i heq
        rw [heq] at ih
        exact ih

/-- **Induction over the lines of a sequence.** -/
theorem induction_on_lines (nl : α) {P : List α → Prop} (l : List α) (hrest : ∀ rest, nl ∉ rest → P rest)
    (hline : ∀ line rest, nl ∉ line → P rest → P (line ++ nl :: rest)) : P l := by
  induction hn : l.length using Nat.strongRecOn generalizing l with
  | ind n ih =>
    by_cases hnl : nl ∈ l
    · obtain ⟨line, rest, rfl, hnot⟩ := List.eq_append_cons_of_mem hnl
      refine hline line rest hnot (ih rest.length ?_ rest rfl)
      rw [← hn, List.length_append, List.length_cons]
      omega
    · exact hrest l hnl

theorem cut_append (l l' : List α) : cut nl (l ++ l')
      = ((cut nl l).fst ++ (cut nl ((cut nl l).snd ++ l')).fst, (cut nl ((cut nl l).snd ++ l')).snd) := by
  induction l using induction_on_lines nl with
  | hrest rest h => rw [cut_of_notMem h]; rfl
  | hline line rest h ih =>
    rw [List.append_assoc, List.cons_append, cut_line h, cut_line h, ih]
    rfl

theorem lines_of_notMem (h : nl ∉ l) (hne : l ≠ []) : lines nl l = [l] := by
  unfold lines
  rw [cut_of_notMem h, if_neg hne]
  rfl

@[simp] theorem lines_nil : lines nl [] = [] := rfl

theorem lines_line (h : nl ∉ line) (rest : List α) : lines nl (line ++ nl :: rest) = line :: lines nl rest := by
  unfold lines
  rw [cut_line h]
  split_ifs
  · rfl
  · rfl

theorem lines_eq_nil : lines nl l = [] ↔ l = [] := by
  refine ⟨fun h => ?_, fun h => by rw [h, lines_nil]⟩
  by_contra hne
  by_cases hnl : nl ∈ l
  · obtain ⟨line, rest, rfl, hnot⟩ := List.eq_append_cons_of_mem hnl
    rw [lines_line hnot] at h
    cases h
  · rw [lines_of_notMem hnl hne] at h
    cases h

/-- **The lines that are ended stay** when more comes. -/
theorem lines_append (l l' : List α) : lines nl (l ++ l') = (cut nl l).fst ++ lines nl ((cut nl l).snd ++ l') := by
  unfold lines
  rw [cut_append]
  split_ifs
  · rfl
  · exact List.append_assoc _ _ _

theorem lines_append_of_notMem (h : nl ∉ line) (hne : l ≠ []) :
    ∃ first others, lines nl l = first :: others ∧ lines nl (line ++ l) = (line ++ first) :: others := by
  by_cases hnl : nl ∈ l
  · obtain ⟨first, rest, rfl, hfirst⟩ := List.eq_append_cons_of_mem hnl
    refine ⟨first, lines nl rest, lines_line hfirst rest, ?_⟩
    rw [← List.append_assoc]
    exact lines_line (fun hmem => (List.mem_append.mp hmem).elim h hfirst) rest
  · refine ⟨l, [], lines_of_notMem hnl hne, lines_of_notMem (fun hmem => (List.mem_append.mp hmem).elim h hnl) ?_⟩
    exact fun hnil => hne (List.append_eq_nil_iff.mp hnil).2

/-! ## Chunks -/

section Chunks

variable (nl)

/-- **One more chunk**: the lines it ends, after those found before, and what is left. -/
def feed (found : List (List α) × List α) (chunk : List α) : List (List α) × List α :=
  (found.fst ++ (cut nl (found.snd ++ chunk)).fst, (cut nl (found.snd ++ chunk)).snd)

/-- The lines that were found, when no more comes. -/
def flush (found : List (List α) × List α) : List (List α) :=
  if found.snd = [] then found.fst else found.fst ++ [found.snd]

theorem foldl_feed (chunks : List (List α)) (found : List (List α)) {pending : List α} (h : nl ∉ pending) :
    chunks.foldl (feed nl) (found, pending)
      = (found ++ (cut nl (pending ++ chunks.flatten)).fst, (cut nl (pending ++ chunks.flatten)).snd) := by
  induction chunks generalizing found pending with
  | nil => rw [List.flatten_nil, List.append_nil, cut_of_notMem h, List.append_nil]; rfl
  | cons chunk chunks ih =>
    have hfeed : feed nl (found, pending) chunk
        = (found ++ (cut nl (pending ++ chunk)).fst, (cut nl (pending ++ chunk)).snd) := rfl
    rw [List.foldl_cons, hfeed, ih _ (notMem_rest _), List.flatten_cons, ← List.append_assoc,
      cut_append (pending ++ chunk), List.append_assoc]

theorem flush_foldl_feed (chunks : List (List α)) :
    flush (chunks.foldl (feed nl) ([], [])) = lines nl chunks.flatten := by
  rw [foldl_feed nl chunks [] List.not_mem_nil]
  rfl

end Chunks

/-! ## Pieces -/

section Pieces

variable (nl)

/-- **A piece**: something, with a separator only at its end. -/
def IsPiece (p : List α) : Prop := p ≠ [] ∧ nl ∉ p.dropLast

/-- Whether a piece ends with a separator. -/
def Ended (p : List α) : Prop := p.getLast? = some nl

instance (p : List α) : Decidable (Ended nl p) := inferInstanceAs (Decidable (_ = _))

/-- A piece without the separator at its end. -/
def chomp (p : List α) : List α := if Ended nl p then p.dropLast else p

variable {nl} {p : List α}

theorem chomp_ended (line : List α) : chomp nl (line ++ [nl]) = line := by
  have hended : Ended nl (line ++ [nl]) := List.getLast?_concat
  rw [chomp, if_pos hended, List.dropLast_concat]

theorem IsPiece.cases (h : IsPiece nl p) : (∃ line, nl ∉ line ∧ p = line ++ [nl]) ∨ (nl ∉ p ∧ ¬Ended nl p) := by
  obtain ⟨hne, hnot⟩ := h
  obtain ⟨line, c, rfl⟩ := List.eq_nil_or_concat p |>.resolve_left hne |>.imp fun _ h => h
  rw [List.concat_eq_append, List.dropLast_concat] at hnot
  by_cases hc : c = nl
  · exact Or.inl ⟨line, hnot, by rw [hc, List.concat_eq_append]⟩
  · rw [List.concat_eq_append]
    refine Or.inr ⟨fun hmem => ?_, fun hended => ?_⟩
    · rcases List.mem_append.mp hmem with hmem | hmem
      · exact hnot hmem
      · exact hc (List.mem_singleton.mp hmem).symm
    · unfold Ended at hended
      rw [List.getLast?_concat] at hended
      exact hc (Option.some.inj hended)

variable {pieces : List (List α)}

theorem length_lines_le (h : ∀ p ∈ pieces, IsPiece nl p) : (lines nl pieces.flatten).length ≤ pieces.length := by
  induction pieces with
  | nil => exact Nat.le_refl 0
  | cons p pieces ih =>
    have hrest := ih fun q hq => h q (List.mem_cons_of_mem _ hq)
    have hp := h p List.mem_cons_self
    rw [List.flatten_cons, List.length_cons]
    rcases hp.cases with ⟨line, hline, rfl⟩ | ⟨hnot, -⟩
    · rw [List.append_assoc, List.singleton_append, lines_line hline, List.length_cons]
      exact Nat.succ_le_succ hrest
    · by_cases hnil : pieces.flatten = []
      · rw [hnil, List.append_nil, lines_of_notMem hnot hp.1]
        exact Nat.succ_le_succ (Nat.zero_le _)
      · obtain ⟨first, others, hlines, hboth⟩ := lines_append_of_notMem hnot hnil
        rw [hlines, List.length_cons] at hrest
        rw [hboth, List.length_cons]
        exact Nat.le_succ_of_le hrest

theorem pieces_cases (h : ∀ p ∈ pieces, IsPiece nl p) :
    (pieces.map (chomp nl) = lines nl pieces.flatten ∧ ∀ p ∈ pieces.dropLast, Ended nl p)
      ∨ ((lines nl pieces.flatten).length < pieces.length ∧ ¬∀ p ∈ pieces.dropLast, Ended nl p) := by
  induction pieces with
  | nil => exact Or.inl ⟨rfl, fun p hp => absurd hp List.not_mem_nil⟩
  | cons p pieces ih =>
    have hrest : ∀ q ∈ pieces, IsPiece nl q := fun q hq => h q (List.mem_cons_of_mem _ hq)
    have hp := h p List.mem_cons_self
    cases pieces with
    | nil =>
      refine Or.inl ⟨?_, fun q hq => absurd hq List.not_mem_nil⟩
      rw [List.flatten_cons, List.flatten_nil, List.append_nil, List.map_singleton]
      rcases hp.cases with ⟨line, hline, rfl⟩ | ⟨hnot, hended⟩
      · rw [chomp_ended, lines_line hline, lines_nil]
      · rw [chomp, if_neg hended, lines_of_notMem hnot hp.1]
    | cons q pieces =>
      rw [List.flatten_cons, List.dropLast_cons_cons]
      rcases hp.cases with ⟨line, hline, rfl⟩ | ⟨hnot, hended⟩
      · have hself : Ended nl (line ++ [nl]) := List.getLast?_concat
        rw [List.append_assoc, List.singleton_append, lines_line hline, List.map_cons, chomp_ended]
        rcases ih hrest with ⟨hmap, hall⟩ | ⟨hlt, hnot⟩
        · refine Or.inl ⟨by rw [hmap], fun r hr => ?_⟩
          rcases List.mem_cons.mp hr with rfl | hr
          · exact hself
          · exact hall r hr
        · refine Or.inr ⟨Nat.succ_lt_succ hlt, fun hall => hnot fun r hr => ?_⟩
          exact hall r (List.mem_cons_of_mem _ hr)
      · -- the piece goes on in the next one, so that there is a line less
        refine Or.inr ⟨?_, fun hall => hended (hall p List.mem_cons_self)⟩
        have hne : (q :: pieces).flatten ≠ [] := by
          rw [List.flatten_cons]
          exact fun hnil => (hrest q List.mem_cons_self).1 (List.append_eq_nil_iff.mp hnil).1
        obtain ⟨first, others, hlines, hboth⟩ := lines_append_of_notMem hnot hne
        have hle := length_lines_le hrest
        rw [hlines] at hle
        rw [hboth, List.length_cons]
        exact Nat.lt_succ_of_le hle

/-- **Pieces that all end with a separator** are the first lines, whatever comes after them. -/
theorem lines_flatten_append (h : ∀ p ∈ pieces, IsPiece nl p) (hended : ∀ p ∈ pieces, Ended nl p) (l : List α) :
    lines nl (pieces.flatten ++ l) = pieces.map (chomp nl) ++ lines nl l := by
  induction pieces with
  | nil => rfl
  | cons p pieces ih =>
    obtain ⟨hp, hrest⟩ := List.forall_mem_cons.mp h
    obtain ⟨hend, hends⟩ := List.forall_mem_cons.mp hended
    obtain ⟨line, hline, rfl⟩ := hp.cases.resolve_right fun hnot => hnot.2 hend
    rw [List.flatten_cons, List.append_assoc, List.append_assoc, List.singleton_append, lines_line hline,
      ih hrest hends, List.map_cons, chomp_ended, List.cons_append]

end Pieces

end LineSplitting
