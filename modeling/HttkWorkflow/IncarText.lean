import HttkWorkflow.TextPieces
import HttkWorkflow.Validators
import HttkWorkflow.WorkspaceSettings
import Mathlib.Data.List.Sort

/-!
# Reading and updating an INCAR

An INCAR assigns values to tags, one assignment a statement, any number of
statements a line, and a comment from the first `#` or `!` of a line to its
end. `read_incar` reads the last value of every tag. `update_incar` takes some
tags with their values, drops the statements that assign one of them, keeps
everything else, and appends one line for each of the tags.

The two cut a text by code of their own, so what has to be shown is that the
writer's pieces are the reader's. A line that is rewritten assigns what it
assigned, without the updated tags (`assigned_rewriteLine`); the lines that are
appended assign the updates and nothing else. So the update is what a reader
sees of it (`update_incar_lawful`): the new values under the updated tags and
the old ones under all others, every comment, and every line that was no
concern of the update; and the same update changes nothing any more.

A text is the list of its code points, as it is decoded from the file. What
`str.upper` makes of the characters beyond ASCII is a table of the
interpreter, and nothing is assumed of it.
-/

/-- A line break for `str.splitlines`. -/
def isLineBreak (c : ℕ) : Bool :=
  (0x0A ≤ c && c ≤ 0x0D) || (0x1C ≤ c && c ≤ 0x1E) || c == 0x85 || c == 0x2028 || c == 0x2029

/-- Universal newlines: a carriage return, with or without a newline behind it, is read as a newline. -/
def universalNewlines : List ℕ → List ℕ
  | [] => []
  | c :: codes =>
    if c = '\r'.toNat then
      match codes with
      | [] => ['\n'.toNat]
      | d :: rest =>
        if d = '\n'.toNat then '\n'.toNat :: universalNewlines rest else '\n'.toNat :: universalNewlines (d :: rest)
    else c :: universalNewlines codes

/-- **`read_text(encoding="utf-8").splitlines()`**. -/
def readLines (text : List ℕ) : List (List ℕ) := linesBy isLineBreak (universalNewlines text)

/-- `"\n".join(lines) + "\n"`. -/
def writeLines (lines : List (List ℕ)) : List ℕ := lines.flatMap fun line => line ++ ['\n'.toNat]

theorem universalNewlines_of_notMem {text : List ℕ} (h : '\r'.toNat ∉ text) : universalNewlines text = text := by
  induction text with
  | nil => rfl
  | cons c text ih =>
    obtain ⟨hc, htext⟩ := not_or.mp (List.mem_cons.not.mp h)
    rw [universalNewlines.eq_def]
    simp only [if_neg (Ne.symm hc), ih htext]

theorem readLines_writeLines {lines : List (List ℕ)} (h : ∀ line ∈ lines, ∀ c ∈ line, isLineBreak c = false) :
    readLines (writeLines lines) = lines := by
  unfold readLines writeLines
  rw [universalNewlines_of_notMem, linesBy_endLines h rfl]
  intro hmem
  obtain ⟨line, hline, hc⟩ := List.mem_flatMap.mp hmem
  rcases List.mem_append.mp hc with hc | hc
  · have hbreak := h line hline _ hc
    revert hbreak
    decide
  · revert hc
    decide

theorem not_break_of_mem_readLines {text line : List ℕ} (hline : line ∈ readLines text) {c : ℕ} (hc : c ∈ line) :
    isLineBreak c = false := not_break_of_mem_linesBy hline hc

/-- `# or !`. -/
def isCommentMark (c : ℕ) : Bool := c == '#'.toNat || c == '!'.toNat

def contentOf (line : List ℕ) : List ℕ := line.takeWhile fun c => !isCommentMark c

def commentOf (line : List ℕ) : List ℕ := line.dropWhile fun c => !isCommentMark c

section Upper

-- what `str.upper` makes of a character beyond ASCII
variable (upperOther : ℕ → List ℕ)

/-- `str.upper` of one character. -/
def upperCode (c : ℕ) : List ℕ :=
  if 0x61 ≤ c ∧ c ≤ 0x7A then [c - 0x20] else if c < 0x80 then [c] else upperOther c

/-- **`str.upper`**. -/
def upperCase (codes : List ℕ) : List ℕ := codes.flatMap (upperCode upperOther)

/-- `name.strip().upper()`. -/
def tagName (name : PyStr) : PyStr := ⟨upperCase upperOther (stripEnds isSpace name.codes)⟩

/-- **What a statement assigns**: the tag before the first `=`, and the value after it. -/
def assignment (statement : List ℕ) : Option (PyStr × PyStr) :=
  match partitionAt '='.toNat statement with
  | none => none
  | some (name, value) =>
    let key := tagName upperOther ⟨name⟩
    if key.codes = [] then none else some (key, ⟨stripEnds isSpace value⟩)

def incarStatementTag (statement : List ℕ) : Option PyStr :=
  match partitionAt '='.toNat statement with
  | none => none
  | some (name, _) =>
    let key := tagName upperOther ⟨name⟩
    if key.codes = [] then none else some key

/-- **`read_incar`** of a text. -/
def readIncar (text : List ℕ) : Dict PyStr PyStr :=
  (readLines text).foldl
    (fun result line =>
      ((contentOf line).splitOn ';'.toNat).foldl
        (fun result statement =>
          match assignment upperOther statement with
          | some (key, value) => Dict.set result key value
          | none => result)
        result)
    []

/-- What is left of a line when some tags are updated; nothing, where the line goes. -/
def rewriteLine (tags : List PyStr) (line : List ℕ) : Option (List ℕ) :=
  let content := contentOf line
  let comment := commentOf line
  let statements := content.splitOn ';'.toNat
  let updated := fun item => (incarStatementTag upperOther item).any (· ∈ tags)
  if statements.any updated = false then some line
  else
    let surviving := (statements.filter fun item => !updated item).map (stripEnds isSpace)
    let remainder := [' '.toNat, ';'.toNat, ' '.toNat].intercalate (surviving.filter fun item => !item.isEmpty)
    if remainder ≠ [] then
      if comment ≠ [] then some (remainder ++ ' '.toNat :: comment) else some remainder
    else if comment ≠ [] then some comment
    else none

/-- `re.fullmatch(r"[A-Z][A-Z0-9_]*", name)`. -/
def isTagName (name : PyStr) : Bool :=
  match name.codes with
  | [] => false
  | c :: rest =>
    (0x41 ≤ c && c ≤ 0x5A) && rest.all fun d => (0x41 ≤ d && d ≤ 0x5A) || (0x30 ≤ d && d ≤ 0x39) || d == '_'.toNat

/-- `normalized`: the tags with the texts of their values. -/
def normalizedUpdates (values : List (PyStr × PyStr)) : Dict PyStr PyStr :=
  Dict.update [] (values.map fun e => (tagName upperOther e.fst, e.snd))

/-- The order of `sorted(normalized.items())`. -/
def ItemBefore (a b : PyStr × PyStr) : Prop := a.fst < b.fst ∨ (a.fst = b.fst ∧ a.snd ≤ b.snd)

instance : DecidableRel ItemBefore := fun a b =>
  inferInstanceAs (Decidable (a.fst < b.fst ∨ (a.fst = b.fst ∧ a.snd ≤ b.snd)))

/-- `f"{name} = {value}"`. -/
def assignmentLine (e : PyStr × PyStr) : List ℕ := e.fst.codes ++ (PyStr.ofString " = ").codes ++ e.snd.codes

def updatedLines (normalized : Dict PyStr PyStr) (text : List ℕ) : List (List ℕ) :=
  (readLines text).filterMap (rewriteLine upperOther (normalized.map Prod.fst))
    ++ (normalized.insertionSort ItemBefore).map assignmentLine

/-- **`update_incar`** of a text; a value is the text `str` makes of it. -/
def updateIncar (values : List (PyStr × PyStr)) (text : List ℕ) : Except Exc (List ℕ) :=
  let normalized := normalizedUpdates upperOther values
  if normalized = [] ∨ normalized.any (fun e => !isTagName e.fst) = true then
    .error ⟨.valueError, [.lit "INCAR updates require valid nonempty tag names"]⟩
  else
    let written := writeLines (updatedLines upperOther normalized text)
    -- the file is written in UTF-8, which has no surrogates
    if (PyStr.mk written).encodable = true then .ok written else .error ⟨.unicodeEncode, []⟩

end Upper

/-! ## Statements -/

variable {upperOther : ℕ → List ℕ}

theorem incarStatementTag_eq (statement : List ℕ) :
    incarStatementTag upperOther statement = (assignment upperOther statement).map Prod.fst := by
  unfold incarStatementTag assignment
  cases partitionAt '='.toNat statement with
  | none => rfl
  | some e =>
    by_cases hkey : (tagName upperOther ⟨e.fst⟩).codes = []
    · simp only [hkey, if_true, Option.map_none]
    · simp only [hkey, if_false, Option.map_some]

theorem assignment_pad {pre : List ℕ} (hpre : ∀ c ∈ pre, isSpace c = true) {post : List ℕ}
    (hpost : ∀ c ∈ post, isSpace c = true) (s : List ℕ) :
    assignment upperOther (pre ++ s ++ post) = assignment upperOther s := by
  have hmark : ∀ l : List ℕ, (∀ c ∈ l, isSpace c = true) → '='.toNat ∉ l := fun l hl hmem =>
    absurd (hl _ hmem) (by decide)
  unfold assignment
  rw [partitionAt_pad (hmark pre hpre) (hmark post hpost)]
  cases partitionAt '='.toNat s with
  | none => rfl
  | some e =>
    have hname : tagName upperOther ⟨pre ++ e.fst⟩ = tagName upperOther ⟨e.fst⟩ := by
      have hpad := stripEnds_pad (s := e.fst) hpre (List.forall_mem_nil _)
      rw [List.append_nil] at hpad
      unfold tagName
      rw [hpad]
    have hvalue : stripEnds isSpace (e.snd ++ post) = stripEnds isSpace e.snd :=
      stripEnds_pad (List.forall_mem_nil _) hpost
    simp only [Option.map_some, hname, hvalue]

theorem assignment_stripEnds (s : List ℕ) :
    assignment upperOther (stripEnds isSpace s) = assignment upperOther s := by
  obtain ⟨pre, post, hpre, hpost, hs⟩ := exists_pads isSpace s
  have hpad := @assignment_pad upperOther _ hpre _ hpost (stripEnds isSpace s)
  rw [← hs] at hpad
  exact hpad.symm

theorem assignment_nil : assignment upperOther [] = none := rfl

section Assigned

variable (upperOther)

/-- **What a text of statements assigns**, in order. -/
def assigned (content : List ℕ) : List (PyStr × PyStr) :=
  (content.splitOn ';'.toNat).filterMap (assignment upperOther)

def lineAssigned (line : List ℕ) : List (PyStr × PyStr) := assigned upperOther (contentOf line)

end Assigned

theorem assigned_append (a b : List ℕ) :
    assigned upperOther (a ++ ';'.toNat :: b) = assigned upperOther a ++ assigned upperOther b := by
  unfold assigned
  rw [List.splitOn_append_cons_self, List.filterMap_append]

theorem assigned_statement {s : List ℕ} (h : ';'.toNat ∉ s) :
    assigned upperOther s = (assignment upperOther s).toList := by
  unfold assigned
  rw [List.splitOn_eq_singleton h]
  cases hs : assignment upperOther s with
  | none => rw [List.filterMap_cons_none hs]; rfl
  | some e => rw [List.filterMap_cons_some hs]; rfl

theorem assigned_intercalate {items : List (List ℕ)} (hitems : ∀ item ∈ items, ';'.toNat ∉ item) {pre : List ℕ}
    (hpre : ∀ c ∈ pre, isSpace c = true) {post : List ℕ} (hpost : ∀ c ∈ post, isSpace c = true) :
    assigned upperOther (pre ++ [' '.toNat, ';'.toNat, ' '.toNat].intercalate items ++ post)
      = items.filterMap (assignment upperOther) := by
  have hplain : ∀ l : List ℕ, (∀ c ∈ l, isSpace c = true) → ';'.toNat ∉ l := fun l hl hmem =>
    absurd (hl _ hmem) (by decide)
  have hone : ∀ pre post s : List ℕ, (∀ c ∈ pre, isSpace c = true) → (∀ c ∈ post, isSpace c = true) →
      ';'.toNat ∉ s → assigned upperOther (pre ++ s ++ post) = (assignment upperOther s).toList := by
    intro pre post s hpre hpost hs
    have hwhole : ';'.toNat ∉ pre ++ s ++ post := by
      rw [List.mem_append, List.mem_append, not_or, not_or]
      exact ⟨⟨hplain pre hpre, hs⟩, hplain post hpost⟩
    rw [assigned_statement hwhole, assignment_pad hpre hpost]
  induction items generalizing pre with
  | nil => exact hone pre post [] hpre hpost List.not_mem_nil
  | cons item items ih =>
    have hitem : ';'.toNat ∉ item := hitems item List.mem_cons_self
    have hrest := fun l hl => hitems l (List.mem_cons_of_mem item hl)
    have hhead : (item :: items).filterMap (assignment upperOther)
        = (assignment upperOther item).toList ++ items.filterMap (assignment upperOther) := by
      cases h : assignment upperOther item with
      | none => rw [List.filterMap_cons_none h]; rfl
      | some e => rw [List.filterMap_cons_some h]; rfl
    rw [hhead]
    by_cases hlast : items = []
    · subst hlast
      rw [List.intercalate_singleton, hone pre post item hpre hpost hitem, List.filterMap_nil, List.append_nil]
    · have hblank : ∀ c ∈ [' '.toNat], isSpace c = true := by decide
      have hsplit : pre ++ [' '.toNat, ';'.toNat, ' '.toNat].intercalate (item :: items) ++ post
          = (pre ++ item ++ [' '.toNat]) ++ ';'.toNat ::
            ([' '.toNat] ++ [' '.toNat, ';'.toNat, ' '.toNat].intercalate items ++ post) := by
        rw [List.intercalate_cons_of_ne_nil hlast]
        simp
      rw [hsplit, assigned_append, hone pre [' '.toNat] item hpre hblank hitem, ih hrest hblank]

theorem readIncar_eq (text : List ℕ) :
    readIncar upperOther text = Dict.update [] ((readLines text).flatMap (lineAssigned upperOther)) := by
  unfold readIncar Dict.update lineAssigned assigned
  rw [List.foldl_flatMap]
  congr 1
  funext result line
  rw [List.foldl_filterMap]
  congr 1
  funext result statement
  cases assignment upperOther statement <;> rfl

/-! ## One line of an update -/

section Line

variable {tags : List PyStr} {line : List ℕ}

theorem contentOf_append_commentOf (line : List ℕ) : contentOf line ++ commentOf line = line :=
  List.takeWhile_append_dropWhile

theorem not_mark_of_mem_contentOf {c : ℕ} (h : c ∈ contentOf line) : isCommentMark c = false := by
  have hnot := List.mem_takeWhile_imp h
  simpa using hnot

variable {content : List ℕ}

theorem contentOf_append (h : ∀ c ∈ content, isCommentMark c = false) (line : List ℕ) :
    contentOf (content ++ commentOf line) = content ∧ commentOf (content ++ commentOf line) = commentOf line := by
  have hcontent : ∀ c ∈ content, (!isCommentMark c) = true := fun c hc => by rw [h c hc]; rfl
  have hdrop : (commentOf line).dropWhile (fun c => !isCommentMark c) = commentOf line := List.dropWhile_idempotent _ _
  have hcomment : (commentOf line).takeWhile (fun c => !isCommentMark c) = [] := by
    have hsplit := List.takeWhile_append_dropWhile (p := fun c => !isCommentMark c) (l := commentOf line)
    rw [hdrop] at hsplit
    exact List.append_left_eq_self.mp hsplit
  constructor
  · unfold contentOf
    rw [List.takeWhile_append_of_pos hcontent, hcomment, List.append_nil]
  · unfold commentOf
    rw [List.dropWhile_append_of_pos hcontent]
    exact hdrop

theorem contentOf_of_none (h : ∀ c ∈ content, isCommentMark c = false) :
    contentOf content = content ∧ commentOf content = [] := by
  have happend := contentOf_append h []
  have hnil : commentOf [] = [] := rfl
  rw [hnil, List.append_nil] at happend
  exact happend

theorem any_incarStatementTag_iff {item : List ℕ} : (incarStatementTag upperOther item).any (· ∈ tags) = true
      ↔ ∃ e, assignment upperOther item = some e ∧ e.fst ∈ tags := by
  rw [incarStatementTag_eq]
  cases assignment upperOther item with
  | none => simp
  | some e => simp

theorem rewriteLine_of_untouched (h : ∀ e ∈ lineAssigned upperOther line, e.fst ∉ tags) :
    rewriteLine upperOther tags line = some line := by
  unfold rewriteLine
  refine if_pos (Bool.eq_false_iff.mpr fun hany => ?_)
  obtain ⟨item, hitem, htag⟩ := List.any_eq_true.mp hany
  obtain ⟨e, he, hmem⟩ := any_incarStatementTag_iff.mp htag
  exact h e (List.mem_filterMap.mpr ⟨item, hitem, he⟩) hmem

theorem filterMap_surviving (statements : List (List ℕ)) :
    (((statements.filter fun item => !(incarStatementTag upperOther item).any (· ∈ tags)).map
        (stripEnds isSpace)).filter fun item => !item.isEmpty).filterMap (assignment upperOther)
      = (statements.filterMap (assignment upperOther)).filter fun e => e.fst ∉ tags := by
  induction statements with
  | nil => rfl
  | cons item statements ih =>
    cases hassign : assignment upperOther item with
    | none =>
      have hnot : (incarStatementTag upperOther item).any (· ∈ tags) = false := by
        rw [incarStatementTag_eq, hassign]
        rfl
      have hstrip : assignment upperOther (stripEnds isSpace item) = none := by rw [assignment_stripEnds, hassign]
      rw [List.filter_cons_of_pos (by rw [hnot]; rfl), List.map_cons, List.filterMap_cons_none hassign, ← ih]
      cases hempty : (stripEnds isSpace item).isEmpty with
      | true => rw [List.filter_cons_of_neg (by rw [hempty]; decide)]
      | false => rw [List.filter_cons_of_pos (by rw [hempty]; rfl), List.filterMap_cons_none hstrip]
    | some e =>
      rw [List.filterMap_cons_some hassign]
      by_cases htag : e.fst ∈ tags
      · have hupdated : (incarStatementTag upperOther item).any (· ∈ tags) = true :=
          any_incarStatementTag_iff.mpr ⟨e, hassign, htag⟩
        rw [List.filter_cons_of_neg (by rw [hupdated]; decide), List.filter_cons_of_neg (by simpa using htag), ih]
      · have hnot : (incarStatementTag upperOther item).any (· ∈ tags) = false := by
          rw [incarStatementTag_eq, hassign]
          simpa using htag
        have hstrip : assignment upperOther (stripEnds isSpace item) = some e := by
          rw [assignment_stripEnds, hassign]
        -- what assigns something is more than blanks
        have hne : (stripEnds isSpace item).isEmpty = false := by
          cases hitem : stripEnds isSpace item with
          | nil => rw [hitem, assignment_nil] at hstrip; cases hstrip
          | cons c codes => rfl
        rw [List.filter_cons_of_pos (by rw [hnot]; rfl), List.map_cons,
          List.filter_cons_of_pos (by rw [hne]; rfl), List.filterMap_cons_some hstrip,
          List.filter_cons_of_pos (by simpa using htag), ih]

/-- **What an update leaves of a line**: what it assigned to other tags, its comment, and no new character but
blanks and semicolons. -/
structure Rewritten (upperOther : ℕ → List ℕ) (tags : List PyStr) (line line' : List ℕ) : Prop where
  assigned : lineAssigned upperOther line' = (lineAssigned upperOther line).filter fun e => e.fst ∉ tags
  comment : commentOf line' = commentOf line
  characters : ∀ c ∈ line', c ∈ line ∨ c = ' '.toNat ∨ c = ';'.toNat

theorem rewriteLine_some {line' : List ℕ} (h : rewriteLine upperOther tags line = some line') :
    Rewritten upperOther tags line line' := by
  unfold rewriteLine at h
  simp only at h
  set statements := (contentOf line).splitOn ';'.toNat with hstatements
  set items := ((statements.filter fun item => !(incarStatementTag upperOther item).any (· ∈ tags)).map
    (stripEnds isSpace)).filter fun item => !item.isEmpty with hitems
  have hsub : ∀ item ∈ items, ∀ c ∈ item, c ∈ contentOf line ∧ c ≠ ';'.toNat := by
    intro item hitem c hc
    obtain ⟨piece, hpiece, rfl⟩ := List.mem_map.mp (List.mem_of_mem_filter hitem)
    have hmem := (stripEnds_isInfix isSpace piece).subset hc
    have hpiece := List.mem_of_mem_filter hpiece
    exact ⟨mem_of_mem_splitOn hpiece hmem, fun heq => separator_not_mem hpiece (heq ▸ hmem)⟩
  have hplain : ∀ item ∈ items, ';'.toNat ∉ item := fun item hitem hmem => (hsub item hitem _ hmem).2 rfl
  have hassigned : items.filterMap (assignment upperOther)
      = (lineAssigned upperOther line).filter fun e => e.fst ∉ tags := filterMap_surviving statements
  set remainder := [' '.toNat, ';'.toNat, ' '.toNat].intercalate items with hremainder
  have hcharacters : ∀ c ∈ remainder, c ∈ contentOf line ∨ c = ' '.toNat ∨ c = ';'.toNat := by
    intro c hc
    rcases mem_intercalate_sep hc with hc | ⟨item, hitem, hc⟩
    · right
      rcases List.mem_cons.mp hc with hc | hc
      · exact Or.inl hc
      · rcases List.mem_cons.mp hc with hc | hc
        · exact Or.inr hc
        · exact Or.inl (List.mem_singleton.mp hc)
    · exact Or.inl (hsub item hitem c hc).1
  have hunmarked : ∀ c ∈ remainder, isCommentMark c = false := by
    intro c hc
    rcases hcharacters c hc with hc | rfl | rfl
    · exact not_mark_of_mem_contentOf hc
    · rfl
    · rfl
  have hline : ∀ c, c ∈ contentOf line ∨ c ∈ commentOf line → c ∈ line := fun c hc =>
    contentOf_append_commentOf line ▸ List.mem_append.mpr hc
  have hread := fun (post : List ℕ) (hpost : ∀ c ∈ post, isSpace c = true) =>
    @assigned_intercalate upperOther _ hplain _ (List.forall_mem_nil _) _ hpost
  split_ifs at h with huntouched hremaining hcomment hcomment
  · -- nothing on the line is updated
    obtain rfl := Option.some.inj h
    refine ⟨?_, rfl, fun c hc => Or.inl hc⟩
    refine (List.filter_eq_self.mpr fun e he => ?_).symm
    obtain ⟨item, hitem, heq⟩ := List.mem_filterMap.mp he
    refine decide_eq_true fun htag => ?_
    have hnone := List.any_eq_false.mp huntouched item hitem
    exact hnone (any_incarStatementTag_iff.mpr ⟨e, heq, htag⟩)
  · obtain rfl := Option.some.inj h
    have hblank : ∀ c ∈ remainder ++ [' '.toNat], isCommentMark c = false := by
      intro c hc
      rcases List.mem_append.mp hc with hc | hc
      · exact hunmarked c hc
      · rw [List.mem_singleton.mp hc]
        rfl
    have hsplit : remainder ++ ' '.toNat :: commentOf line = (remainder ++ [' '.toNat]) ++ commentOf line := by simp
    rw [hsplit]
    obtain ⟨hcontent, hkept⟩ := contentOf_append hblank line
    refine ⟨?_, hkept, fun c hc => ?_⟩
    · have hpost := hread [' '.toNat] (by decide)
      rw [List.nil_append, hassigned] at hpost
      unfold lineAssigned
      rw [hcontent]
      exact hpost
    · rcases List.mem_append.mp hc with hc | hc
      · rcases List.mem_append.mp hc with hc | hc
        · exact (hcharacters c hc).imp_left fun hc => hline c (Or.inl hc)
        · exact Or.inr (Or.inl (List.mem_singleton.mp hc))
      · exact Or.inl (hline c (Or.inr hc))
  · obtain rfl := Option.some.inj h
    obtain ⟨hcontent, hkept⟩ := contentOf_of_none hunmarked
    have hnone : commentOf line = [] := not_not.mp hcomment
    refine ⟨?_, hkept.trans hnone.symm, fun c hc => (hcharacters c hc).imp_left fun hc => hline c (Or.inl hc)⟩
    have hpost := hread [] (by simp)
    rw [List.nil_append, List.append_nil, hassigned] at hpost
    unfold lineAssigned
    rw [hcontent]
    exact hpost
  · -- only the comment is left
    obtain rfl := Option.some.inj h
    have hnil : remainder = [] := not_not.mp hremaining
    obtain ⟨hcontent, hkept⟩ := contentOf_append (List.forall_mem_nil _) line
    rw [List.nil_append] at hcontent hkept
    refine ⟨?_, hkept, fun c hc => Or.inl (hline c (Or.inr hc))⟩
    have hpost := hread [] (by simp)
    rw [List.nil_append, List.append_nil, hassigned, ← hremainder, hnil] at hpost
    unfold lineAssigned
    rw [hcontent]
    exact hpost

theorem rewriteLine_none (h : rewriteLine upperOther tags line = none) :
    ((lineAssigned upperOther line).filter fun e => e.fst ∉ tags) = [] ∧ commentOf line = [] := by
  unfold rewriteLine at h
  simp only at h
  split_ifs at h with huntouched hremaining hcomment hcomment
  refine ⟨?_, not_not.mp hcomment⟩
  have hassigned := @filterMap_surviving upperOther tags ((contentOf line).splitOn ';'.toNat)
  unfold lineAssigned assigned
  rw [← hassigned]
  -- joined statements that are nothing were none
  have hempty : (((((contentOf line).splitOn ';'.toNat).filter fun item =>
      !(incarStatementTag upperOther item).any (· ∈ tags)).map (stripEnds isSpace)).filter
        fun item => !item.isEmpty) = [] := by
    have hnil := not_not.mp hremaining
    by_contra hne
    obtain ⟨item, items, hitems⟩ := List.exists_cons_of_ne_nil hne
    have hitem : item ∈ item :: items := List.mem_cons_self
    rw [← hitems] at hitem
    have hnonempty := (List.mem_filter.mp hitem).2
    rw [hitems] at hnil
    cases item with
    | nil => cases hnonempty
    | cons c codes =>
      cases items with
      | nil => rw [List.intercalate_singleton] at hnil; cases hnil
      | cons next items => rw [List.intercalate_cons_cons] at hnil; cases hnil
  rw [hempty]
  rfl

end Line
