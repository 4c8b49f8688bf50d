import Mathlib.Algebra.GroupWithZero.Nat
import Mathlib.Data.List.DropRight
import Mathlib.Data.List.TakeWhile
import Mathlib.Data.List.Infix

/-!
# Pieces of a text

Text formats that are read line by line are read with three operations: the
text is cut into lines, a line into what stands before and after a mark, and a
piece loses the blanks at its ends. Here they act on lists of code points, and
what a blank, a break or a mark is, is left open.

What a writer relies on is that the pieces it puts together are the ones that
are read. Lines that were ended one by one are the lines of the text
(`linesBy_endLines`); blanks around a piece are stripped with its own
(`stripEnds_pad`), and move the parts of a piece that is cut at a mark no
further than to their ends (`partitionAt_pad`).
-/

/-- `text.strip(characters)`. -/
def stripEnds (characters : ℕ → Bool) (codes : List ℕ) : List ℕ := (codes.dropWhile characters).rdropWhile characters

theorem stripEnds_isInfix (characters : ℕ → Bool) (codes : List ℕ) : stripEnds characters codes <:+: codes :=
  (List.rdropWhile_prefix _ _).isInfix.trans (List.dropWhile_suffix _).isInfix

theorem head_stripEnds {characters : ℕ → Bool} {codes : List ℕ} {c : ℕ}
    (h : (stripEnds characters codes).head? = some c) : characters c = false := by
  have hbegin : stripEnds characters codes <+: codes.dropWhile characters := List.rdropWhile_prefix _ _
  obtain ⟨rest, hrest⟩ := hbegin
  have hhead : (codes.dropWhile characters).head? = some c := by
    rw [← hrest, List.head?_append, h]
    rfl
  have hnot := List.head?_dropWhile_not characters codes
  rw [hhead] at hnot
  simpa using hnot

section Ends

variable {blank : ℕ → Bool}

variable {s : List ℕ}

theorem rdropWhile_append_of_all {post : List ℕ} (h : ∀ c ∈ post, blank c = true) :
    (s ++ post).rdropWhile blank = s.rdropWhile blank := by
  induction post using List.reverseRecOn with
  | nil => rw [List.append_nil]
  | append_singleton post c ih =>
    rw [← List.append_assoc, List.rdropWhile_concat_pos _ _ _ (h c (by simp))]
    exact ih fun d hd => h d (List.mem_append_left _ hd)

/-- **Blanks around a text** are stripped with its own. -/
theorem stripEnds_pad {pre post : List ℕ} (hpre : ∀ c ∈ pre, blank c = true) (hpost : ∀ c ∈ post, blank c = true) :
    stripEnds blank (pre ++ s ++ post) = stripEnds blank s := by
  unfold stripEnds
  rw [List.append_assoc, List.dropWhile_append_of_pos hpre, List.dropWhile_append]
  split_ifs with hall
  · have hs : s.dropWhile blank = [] := by simpa using hall
    have hpost' : post.dropWhile blank = [] := List.dropWhile_eq_nil_iff.mpr hpost
    rw [hs, hpost']
  · exact rdropWhile_append_of_all hpost

theorem exists_pads (blank : ℕ → Bool) (s : List ℕ) : ∃ pre post, (∀ c ∈ pre, blank c = true) ∧
    (∀ c ∈ post, blank c = true) ∧ s = pre ++ stripEnds blank s ++ post := by
  refine ⟨s.takeWhile blank, (s.dropWhile blank).rtakeWhile blank, fun c hc => List.mem_takeWhile_imp hc,
    fun c hc => List.mem_rtakeWhile_imp hc, ?_⟩
  unfold stripEnds
  rw [List.append_assoc, List.rdropWhile_append_rtakeWhile, List.takeWhile_append_dropWhile]

theorem stripEnds_of_none (h : ∀ c ∈ s, blank c = false) : stripEnds blank s = s := by
  unfold stripEnds
  have hdrop : s.dropWhile blank = s := by
    cases s with
    | nil => rfl
    | cons c s => rw [List.dropWhile_cons_of_neg (by rw [h c List.mem_cons_self]; exact Bool.false_ne_true)]
  rw [hdrop, List.rdropWhile_eq_self_iff]
  intro hne
  rw [h _ (List.getLast_mem hne)]
  exact Bool.false_ne_true

theorem countP_stripEnds_lt (h : stripEnds blank s ≠ s) : (stripEnds blank s).countP blank < s.countP blank := by
  obtain ⟨pre, post, hpre, hpost, hs⟩ := exists_pads blank s
  have hcount : s.countP blank = pre.length + (stripEnds blank s).countP blank + post.length := by
    rw [← List.countP_eq_length.mpr hpre, ← List.countP_eq_length.mpr hpost, ← List.countP_append, ← List.countP_append,
      ← hs]
  have hpads : 0 < pre.length + post.length := by
    by_contra hnone
    have hpre' : pre = [] := List.length_eq_zero_iff.mp (by omega)
    have hpost' : post = [] := List.length_eq_zero_iff.mp (by omega)
    rw [hpre', hpost', List.nil_append, List.append_nil] at hs
    exact h hs.symm
  omega

theorem countP_intercalate {c : ℕ} (hc : blank c = false) (parts : List (List ℕ)) :
    ([c].intercalate parts).countP blank = (parts.map (List.countP blank)).sum := by
  induction parts with
  | nil => rfl
  | cons part parts ih =>
    by_cases hparts : parts = []
    · rw [hparts, List.intercalate_singleton]
      simp
    · rw [List.intercalate_cons_of_ne_nil hparts, List.countP_append, List.countP_append, ih, List.map_cons,
        List.sum_cons, List.countP_singleton, hc]
      simp

end Ends

/-! ## What stands before and after a mark -/

/-- **`text.partition(mark)`**, where the mark is in the text. -/
def partitionAt (mark : ℕ) : List ℕ → Option (List ℕ × List ℕ)
  | [] => none
  | c :: codes => if c = mark then some ([], codes) else (partitionAt mark codes).map fun e => (c :: e.fst, e.snd)

variable {mark : ℕ}

theorem partitionAt_line {before : List ℕ} (h : mark ∉ before) (after : List ℕ) :
    partitionAt mark (before ++ mark :: after) = some (before, after) := by
  induction before with
  | nil => exact if_pos rfl
  | cons c before ih =>
    obtain ⟨hc, hbefore⟩ := not_or.mp (List.mem_cons.not.mp h)
    rw [List.cons_append, partitionAt, if_neg (Ne.symm hc), ih hbefore]
    rfl

theorem partitionAt_eq_none {codes : List ℕ} (h : mark ∉ codes) : partitionAt mark codes = none := by
  induction codes with
  | nil => rfl
  | cons c codes ih =>
    obtain ⟨hc, hcodes⟩ := not_or.mp (List.mem_cons.not.mp h)
    rw [partitionAt, if_neg (Ne.symm hc), ih hcodes]
    rfl

theorem partitionAt_pad {pre : List ℕ} (hpre : mark ∉ pre) {post : List ℕ} (hpost : mark ∉ post) (s : List ℕ) :
    partitionAt mark (pre ++ s ++ post) = (partitionAt mark s).map fun e => (pre ++ e.fst, e.snd ++ post) := by
  by_cases hmark : mark ∈ s
  · obtain ⟨before, after, rfl, hbefore⟩ := List.eq_append_cons_of_mem hmark
    have hsplit : pre ++ (before ++ mark :: after) ++ post = (pre ++ before) ++ mark :: (after ++ post) := by simp
    rw [hsplit, partitionAt_line (by simp [hpre, hbefore]), partitionAt_line hbefore]
    rfl
  · rw [partitionAt_eq_none hmark, partitionAt_eq_none (by simp [hpre, hmark, hpost])]
    rfl

/-! ## Parts that are joined, and a text that is split -/

theorem mem_intercalate_sep {α : Type} {x : α} {sep : List α} {parts : List (List α)} :
    x ∈ sep.intercalate parts → x ∈ sep ∨ ∃ part ∈ parts, x ∈ part := by
  induction parts with
  | nil => exact fun h => absurd h List.not_mem_nil
  | cons part parts ih =>
    intro h
    rcases List.eq_nil_or_concat parts with rfl | ⟨_, _, hparts⟩
    · rw [List.intercalate_singleton] at h
      exact Or.inr ⟨part, List.mem_cons_self, h⟩
    · rw [List.intercalate_cons_of_ne_nil (by simp [hparts])] at h
      rcases List.mem_append.mp h with h | h
      · rcases List.mem_append.mp h with h | h
        · exact Or.inr ⟨part, List.mem_cons_self, h⟩
        · exact Or.inl h
      · exact (ih h).imp_right fun ⟨p, hp, hx⟩ => ⟨p, List.mem_cons_of_mem _ hp, hx⟩

theorem mem_intercalate {α : Type} {x c : α} {parts : List (List α)} (h : x ∈ [c].intercalate parts) :
    x = c ∨ ∃ part ∈ parts, x ∈ part := (mem_intercalate_sep h).imp_left List.mem_singleton.mp

theorem mem_intercalate_of_mem {x c : ℕ} {part : List ℕ} {parts : List (List ℕ)} (hpart : part ∈ parts)
    (hx : x ∈ part) : x ∈ [c].intercalate parts := by
  induction parts with
  | nil => exact absurd hpart List.not_mem_nil
  | cons first parts ih =>
    rcases List.eq_nil_or_concat parts with rfl | ⟨_, _, hparts⟩
    · rw [List.intercalate_singleton, ← List.mem_singleton.mp hpart]
      exact hx
    · rw [List.intercalate_cons_of_ne_nil (by simp [hparts])]
      rcases List.mem_cons.mp hpart with rfl | hpart
      · exact List.mem_append_left _ (List.mem_append_left _ hx)
      · exact List.mem_append_right _ (ih hpart)

variable {codes part : List ℕ}

theorem mem_of_mem_splitOn {x c : ℕ} (hpart : part ∈ codes.splitOn c) (hx : x ∈ part) : x ∈ codes := by
  have hwhole : [c].intercalate (codes.splitOn c) = codes := List.intercalate_splitOn c
  exact hwhole ▸ mem_intercalate_of_mem hpart hx

theorem separator_not_mem {c : ℕ} (h : part ∈ codes.splitOn c) : c ∉ part := by
  induction codes generalizing part with
  | nil =>
    rw [List.splitOn_nil] at h
    rw [List.mem_singleton.mp h]
    exact List.not_mem_nil
  | cons x codes ih =>
    rw [List.splitOn_cons_eq_if_modifyHead] at h
    split_ifs at h with hx
    · rcases List.mem_cons.mp h with rfl | h
      · exact List.not_mem_nil
      · exact ih h
    · cases hparts : codes.splitOn c with
      | nil => exact absurd hparts (List.splitOn_ne_nil c codes)
      | cons first rest =>
        rw [hparts] at h ih
        rcases List.mem_cons.mp h with rfl | h
        · exact List.not_mem_cons_of_ne_of_not_mem (fun heq => hx (by simp [heq])) (ih List.mem_cons_self)
        · exact ih (List.mem_cons_of_mem _ h)

/-! ## Lines -/

section Lines

variable (isBreak : ℕ → Bool)

/-- **`text.splitlines()`**: every break ends a line, and what comes after the last one is a line, if there is
anything. -/
def linesBy : List ℕ → List (List ℕ)
  | [] => []
  | c :: codes =>
    if isBreak c = true then [] :: linesBy codes
    else
      match linesBy codes with
      | [] => [[c]]
      | line :: lines => (c :: line) :: lines

variable {isBreak}

theorem linesBy_line {line : List ℕ} (h : ∀ c ∈ line, isBreak c = false) {b : ℕ} (hb : isBreak b = true)
    (rest : List ℕ) : linesBy isBreak (line ++ b :: rest) = line :: linesBy isBreak rest := by
  induction line with
  | nil => exact if_pos hb
  | cons c line ih =>
    have hc : ¬isBreak c = true := by rw [h c List.mem_cons_self]; exact Bool.false_ne_true
    rw [List.cons_append, linesBy, if_neg hc, ih fun d hd => h d (List.mem_cons_of_mem _ hd)]

theorem linesBy_endLines {lines : List (List ℕ)} (h : ∀ line ∈ lines, ∀ c ∈ line, isBreak c = false) {b : ℕ}
    (hb : isBreak b = true) : linesBy isBreak (lines.flatMap fun line => line ++ [b]) = lines := by
  induction lines with
  | nil => rfl
  | cons line lines ih =>
    rw [List.flatMap_cons, List.append_assoc, List.singleton_append, linesBy_line (h line List.mem_cons_self) hb,
      ih fun l hl => h l (List.mem_cons_of_mem _ hl)]

variable {text line : List ℕ}

variable {c : ℕ}

theorem of_mem_linesBy (hline : line ∈ linesBy isBreak text) (hc : c ∈ line) : c ∈ text ∧ isBreak c = false := by
  induction text generalizing line with
  | nil => cases hline
  | cons d text ih =>
    have hlater : c ∈ text ∧ isBreak c = false → c ∈ d :: text ∧ isBreak c = false :=
      And.imp_left (List.mem_cons_of_mem _)
    rw [linesBy] at hline
    split_ifs at hline with hd
    · rcases List.mem_cons.mp hline with rfl | hline
      · cases hc
      · exact hlater (ih hline hc)
    · have hfirst : d ∈ d :: text ∧ isBreak d = false := ⟨List.mem_cons_self, eq_false_of_ne_true hd⟩
      split at hline
      · rcases List.mem_singleton.mp hline with rfl
        exact List.mem_singleton.mp hc ▸ hfirst
      · rename_i first others heq
        rcases List.mem_cons.mp hline with rfl | hline
        · rcases List.mem_cons.mp hc with rfl | hc
          · exact hfirst
          · exact hlater (ih (heq ▸ List.mem_cons_self) hc)
        · exact hlater (ih (heq ▸ List.mem_cons_of_mem _ hline) hc)

theorem not_break_of_mem_linesBy (hline : line ∈ linesBy isBreak text) (hc : c ∈ line) :
    isBreak c = false := (of_mem_linesBy hline hc).2

theorem mem_of_mem_linesBy (hline : line ∈ linesBy isBreak text) (hc : c ∈ line) :
    c ∈ text := (of_mem_linesBy hline hc).1

end Lines
