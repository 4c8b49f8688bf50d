import HttkWorkflow.IncarText

/-!
# An update is what a reader sees of it

The lines of an updated INCAR are the lines of the old one, each rewritten by
itself, and then one line for every updated tag. What is read of them follows
from what is read of each: the old assignments to other tags, in their order,
and then the new ones. Since every updated tag is assigned once, and by the
last lines, a second update finds every line of the first part untouched and
every line of the second replaced by itself.
-/

namespace Dict

variable {κ β : Type} [DecidableEq κ]

theorem update_concat (d : Dict κ β) (entries : List (κ × β)) (e : κ × β) :
    d.update (entries ++ [e]) = (d.update entries).set e.fst e.snd := List.foldl_concat ..

theorem get_update_filter (entries : List (κ × β)) (names : List κ) (key : κ) :
    Dict.get (Dict.update [] (entries.filter fun e => e.fst ∉ names)) key
      = if key ∈ names then none else Dict.get (Dict.update [] entries) key := by
  induction entries using List.reverseRecOn with
  | nil => split_ifs <;> rfl
  | append_singleton entries e ih =>
    rw [List.filter_append, update_concat, get_set]
    by_cases he : e.fst ∈ names
    · rw [List.filter_cons_of_neg (by simpa using he), List.filter_nil, List.append_nil, ih]
      by_cases hkey : key ∈ names
      · rw [if_pos hkey, if_pos hkey]
      · rw [if_neg hkey, if_neg hkey, if_neg fun heq : key = e.fst => hkey (heq ▸ he)]
    · rw [List.filter_cons_of_pos (by simpa using he), List.filter_nil, update_concat, get_set, ih]
      by_cases hkey : key = e.fst
      · rw [if_pos hkey, if_pos hkey, if_neg (hkey ▸ he)]
      · rw [if_neg hkey, if_neg hkey]

variable {entries : List (κ × β)}

/-- **Different keys** are all kept, the last first. -/
theorem update_eq_reverse (h : (entries.map Prod.fst).Nodup) : Dict.update [] entries = entries.reverse := by
  induction entries using List.reverseRecOn with
  | nil => rfl
  | append_singleton entries e ih =>
    rw [List.map_append, List.nodup_append] at h
    rw [update_concat, ih h.1, List.reverse_append]
    show e :: entries.reverse.filter (fun d => d.fst ≠ e.fst) = e :: entries.reverse
    rw [List.filter_eq_self.mpr fun d hd => ?_]
    refine decide_eq_true fun heq => ?_
    exact h.2.2 d.fst (List.mem_map_of_mem (List.mem_reverse.mp hd)) e.fst (by simp) heq

theorem get_update_eq_some_iff (h : (entries.map Prod.fst).Nodup) {key : κ} {value : β} :
    Dict.get (Dict.update [] entries) key = some value ↔ (key, value) ∈ entries := by
  rw [update_eq_reverse h, get_eq_some_iff, List.mem_reverse]
  rw [List.map_reverse]
  exact List.nodup_reverse.mpr h

theorem get_eq_none_iff {d : Dict κ β} {key : κ} : Dict.get d key = none ↔ key ∉ d.map Prod.fst := by
  constructor
  · intro h hmem
    obtain ⟨value, hvalue⟩ := get_of_mem hmem
    rw [h] at hvalue
    cases hvalue
  · intro h
    cases hvalue : Dict.get d key with
    | none => rfl
    | some value => exact absurd (List.mem_map_of_mem (mem_of_get hvalue)) h

end Dict

variable {upperOther : ℕ → List ℕ}

/-! ## Tags and values -/

/-- **The text of a value that can be written**: one line, and nothing that ends a statement. -/
def OneStatement (value : PyStr) : Prop :=
  ∀ c ∈ value.codes, isLineBreak c = false ∧ isCommentMark c = false ∧ c ≠ ';'.toNat

instance (value : PyStr) : Decidable (OneStatement value) :=
  inferInstanceAs (Decidable (∀ c ∈ value.codes, isLineBreak c = false ∧ isCommentMark c = false ∧ c ≠ ';'.toNat))

def IsTagCode (c : ℕ) : Prop := (0x41 ≤ c ∧ c ≤ 0x5A) ∨ (0x30 ≤ c ∧ c ≤ 0x39) ∨ c = 0x5F

instance (c : ℕ) : Decidable (IsTagCode c) :=
  inferInstanceAs (Decidable ((0x41 ≤ c ∧ c ≤ 0x5A) ∨ (0x30 ≤ c ∧ c ≤ 0x39) ∨ c = 0x5F))

theorem tagCode_of_isTagName {name : PyStr} (h : isTagName name = true) :
    name.codes ≠ [] ∧ ∀ c ∈ name.codes, IsTagCode c := by
  unfold isTagName at h
  cases hcodes : name.codes with
  | nil => rw [hcodes] at h; cases h
  | cons first rest =>
    rw [hcodes] at h
    simp only [Bool.and_eq_true, decide_eq_true_eq, List.all_eq_true, Bool.or_eq_true, beq_iff_eq] at h
    refine ⟨by simp, fun c hc => ?_⟩
    rcases List.mem_cons.mp hc with rfl | hc
    · exact Or.inl h.1
    · rcases h.2 c hc with (hletter | hdigit) | hunder
      · exact Or.inl hletter
      · exact Or.inr (Or.inl hdigit)
      · exact Or.inr (Or.inr hunder)

section TagCode

variable {c : ℕ} (h : IsTagCode c)

include h

theorem IsTagCode.not_space : isSpace c = false := by
  unfold IsTagCode at h
  unfold isSpace
  simp only [Bool.or_eq_false_iff, Bool.and_eq_false_iff, decide_eq_false_iff_not, beq_eq_false_iff_ne]
  omega

theorem IsTagCode.not_break : isLineBreak c = false := by
  unfold IsTagCode at h
  unfold isLineBreak
  simp only [Bool.or_eq_false_iff, Bool.and_eq_false_iff, decide_eq_false_iff_not, beq_eq_false_iff_ne]
  omega

theorem IsTagCode.not_mark : isCommentMark c = false := by
  unfold IsTagCode at h
  unfold isCommentMark
  simp only [Bool.or_eq_false_iff, beq_eq_false_iff_ne]
  exact ⟨fun heq => by rw [heq] at h; revert h; decide, fun heq => by rw [heq] at h; revert h; decide⟩

theorem IsTagCode.ne_semicolon : c ≠ ';'.toNat := by
  rintro rfl
  revert h
  decide

theorem IsTagCode.ne_equals : c ≠ '='.toNat := by
  rintro rfl
  revert h
  decide

theorem IsTagCode.upperCode_eq : upperCode upperOther c = [c] := by
  unfold IsTagCode at h
  have hlower : ¬(0x61 ≤ c ∧ c ≤ 0x7A) := by omega
  have hascii : c < 0x80 := by omega
  unfold upperCode
  rw [if_neg hlower, if_pos hascii]

end TagCode

theorem tagName_of_isTagName {name : PyStr} (h : isTagName name = true) {post : List ℕ}
    (hpost : ∀ c ∈ post, isSpace c = true) : tagName upperOther ⟨name.codes ++ post⟩ = name := by
  have hcodes := (tagCode_of_isTagName h).2
  have hstrip : stripEnds isSpace (name.codes ++ post) = name.codes := by
    have hpad := stripEnds_pad (s := name.codes) (List.forall_mem_nil _) hpost
    rw [List.nil_append, stripEnds_of_none fun c hc => (hcodes c hc).not_space] at hpad
    exact hpad
  have hupper : ∀ codes : List ℕ, (∀ c ∈ codes, IsTagCode c) → upperCase upperOther codes = codes := by
    intro codes hall
    unfold upperCase
    induction codes with
    | nil => rfl
    | cons c codes ih =>
      rw [List.flatMap_cons, (hall c List.mem_cons_self).upperCode_eq,
        ih fun d hd => hall d (List.mem_cons_of_mem _ hd)]
      rfl
  unfold tagName
  simp only [hstrip, hupper name.codes hcodes]

/-! ## The lines that are appended -/

section Appended

variable {e : PyStr × PyStr} (hname : isTagName e.fst = true) (hvalue : OneStatement e.snd)

include hname hvalue

theorem mem_assignmentLine {c : ℕ} (hc : c ∈ assignmentLine e) :
    isLineBreak c = false ∧ isCommentMark c = false ∧ c ≠ ';'.toNat := by
  rcases List.mem_append.mp hc with hc | hc
  · rcases List.mem_append.mp hc with hc | hc
    · have htag := (tagCode_of_isTagName hname).2 c hc
      exact ⟨htag.not_break, htag.not_mark, htag.ne_semicolon⟩
    · have hcode : c = 0x20 ∨ c = 0x3D := by
        have hcodes : (PyStr.ofString " = ").codes = [0x20, 0x3D, 0x20] := rfl
        rw [hcodes] at hc
        simp only [List.mem_cons, List.not_mem_nil, or_false] at hc
        omega
      rcases hcode with rfl | rfl <;> decide
  · exact hvalue c hc

theorem contentOf_assignmentLine :
    contentOf (assignmentLine e) = assignmentLine e ∧ commentOf (assignmentLine e) = [] :=
  contentOf_of_none fun _ hc => (mem_assignmentLine hname hvalue hc).2.1

omit hvalue in
theorem assignment_assignmentLine :
    assignment upperOther (assignmentLine e) = some (e.fst, ⟨stripEnds isSpace e.snd.codes⟩) := by
  obtain ⟨hne, hcodes⟩ := tagCode_of_isTagName hname
  have hsplit : assignmentLine e = (e.fst.codes ++ [' '.toNat]) ++ '='.toNat :: ([' '.toNat] ++ e.snd.codes) := by
    show (e.fst.codes ++ [' '.toNat, '='.toNat, ' '.toNat]) ++ e.snd.codes = _
    simp
  have hmark : '='.toNat ∉ e.fst.codes ++ [' '.toNat] := by
    intro hmem
    rcases List.mem_append.mp hmem with hmem | hmem
    · exact (hcodes _ hmem).ne_equals rfl
    · revert hmem
      decide
  have hstrip : stripEnds isSpace ([' '.toNat] ++ e.snd.codes) = stripEnds isSpace e.snd.codes := by
    have hpad := stripEnds_pad (s := e.snd.codes) (by decide : ∀ c ∈ [' '.toNat], isSpace c = true)
      (List.forall_mem_nil _)
    rw [List.append_nil] at hpad
    exact hpad
  have htag : tagName upperOther ⟨e.fst.codes ++ [' '.toNat]⟩ = e.fst := tagName_of_isTagName hname (by decide)
  unfold assignment
  rw [hsplit, partitionAt_line hmark]
  simp only [htag, if_neg hne, hstrip]

theorem lineAssigned_assignmentLine :
    lineAssigned upperOther (assignmentLine e) = [(e.fst, ⟨stripEnds isSpace e.snd.codes⟩)] := by
  unfold lineAssigned
  rw [(contentOf_assignmentLine hname hvalue).1,
    assigned_statement fun hmem => (mem_assignmentLine hname hvalue hmem).2.2 rfl,
    assignment_assignmentLine hname]
  rfl

theorem rewriteLine_assignmentLine {tags : List PyStr} (htag : e.fst ∈ tags) :
    rewriteLine upperOther tags (assignmentLine e) = none := by
  obtain ⟨hcontent, hcomment⟩ := contentOf_assignmentLine hname hvalue
  have hsplit : (assignmentLine e).splitOn ';'.toNat = [assignmentLine e] :=
    List.splitOn_eq_singleton fun hmem => (mem_assignmentLine hname hvalue hmem).2.2 rfl
  have hupdated : (incarStatementTag upperOther (assignmentLine e)).any (· ∈ tags) = true :=
    any_incarStatementTag_iff.mpr ⟨_, assignment_assignmentLine hname, htag⟩
  unfold rewriteLine
  simp only [hcontent, hcomment, hsplit]
  rw [List.any_cons, hupdated, List.filter_cons_of_neg (by rw [hupdated]; decide)]
  rfl

end Appended

/-! ## The lines that were there -/

section Kept

variable {tags : List PyStr}

theorem flatMap_rewriteLine (lines : List (List ℕ)) :
    (lines.filterMap (rewriteLine upperOther tags)).flatMap (lineAssigned upperOther)
      = (lines.flatMap (lineAssigned upperOther)).filter fun e => e.fst ∉ tags := by
  induction lines with
  | nil => rfl
  | cons line lines ih =>
    rw [List.flatMap_cons, List.filter_append, ← ih]
    cases hline : rewriteLine upperOther tags line with
    | none => rw [List.filterMap_cons_none hline, (rewriteLine_none hline).1, List.nil_append]
    | some line' => rw [List.filterMap_cons_some hline, List.flatMap_cons, (rewriteLine_some hline).assigned]

/-- **The comments of a text**, in order. -/
def commentsOf (lines : List (List ℕ)) : List (List ℕ) := (lines.map commentOf).filter fun comment => !comment.isEmpty

theorem commentsOf_append (a b : List (List ℕ)) : commentsOf (a ++ b) = commentsOf a ++ commentsOf b := by
  unfold commentsOf
  rw [List.map_append, List.filter_append]

theorem commentsOf_cons (line : List ℕ) (lines : List (List ℕ)) :
    commentsOf (line :: lines) = commentsOf [line] ++ commentsOf lines := commentsOf_append [line] lines

variable {line : List ℕ}

theorem commentsOf_singleton (h : commentOf line = []) : commentsOf [line] = [] := by
  unfold commentsOf
  rw [List.map_singleton, h]
  rfl

theorem commentsOf_rewriteLine (lines : List (List ℕ)) :
    commentsOf (lines.filterMap (rewriteLine upperOther tags)) = commentsOf lines := by
  induction lines with
  | nil => rfl
  | cons line lines ih =>
    rw [commentsOf_cons line lines, ← ih]
    cases hline : rewriteLine upperOther tags line with
    | none => rw [List.filterMap_cons_none hline, commentsOf_singleton (rewriteLine_none hline).2, List.nil_append]
    | some line' =>
      have hcomment : commentsOf [line'] = commentsOf [line] := by
        unfold commentsOf
        rw [List.map_singleton, List.map_singleton, (rewriteLine_some hline).comment]
      rw [List.filterMap_cons_some hline, commentsOf_cons, hcomment]

theorem untouched_of_rewriteLine {line line' : List ℕ} (h : rewriteLine upperOther tags line = some line') :
    ∀ e ∈ lineAssigned upperOther line', e.fst ∉ tags := by
  intro e he
  rw [(rewriteLine_some h).assigned] at he
  simpa using (List.mem_filter.mp he).2

theorem filterMap_rewriteLine (lines : List (List ℕ)) :
    (lines.filterMap (rewriteLine upperOther tags)).filterMap (rewriteLine upperOther tags)
      = lines.filterMap (rewriteLine upperOther tags) := by
  have hself : ∀ line' ∈ lines.filterMap (rewriteLine upperOther tags), rewriteLine upperOther tags line' = some line' := by
    intro line' hline'
    obtain ⟨line, -, hline⟩ := List.mem_filterMap.mp hline'
    exact rewriteLine_of_untouched (untouched_of_rewriteLine hline)
  generalize lines.filterMap (rewriteLine upperOther tags) = kept at hself
  induction kept with
  | nil => rfl
  | cons line kept ih =>
    rw [List.filterMap_cons_some (hself line List.mem_cons_self), ih fun l hl => hself l (List.mem_cons_of_mem _ hl)]

/-- **A line that assigns none of some tags.** -/
def LeftAlone (upperOther : ℕ → List ℕ) (tags : List PyStr) (line : List ℕ) : Bool :=
  (lineAssigned upperOther line).all fun e => e.fst ∉ tags

theorem leftAlone_iff : LeftAlone upperOther tags line = true ↔ ∀ e ∈ lineAssigned upperOther line, e.fst ∉ tags := by
  unfold LeftAlone
  rw [List.all_eq_true]
  exact forall₂_congr fun e _ => decide_eq_true_iff

theorem sublist_rewriteLine (lines : List (List ℕ)) :
    (lines.filter (LeftAlone upperOther tags)).Sublist (lines.filterMap (rewriteLine upperOther tags)) := by
  induction lines with
  | nil => exact List.Sublist.refl []
  | cons line lines ih =>
    cases hall : LeftAlone upperOther tags line with
    | true =>
      rw [List.filter_cons_of_pos hall, List.filterMap_cons_some (rewriteLine_of_untouched (leftAlone_iff.mp hall))]
      exact ih.cons_cons line
    | false =>
      rw [List.filter_cons_of_neg (by rw [hall]; exact Bool.false_ne_true)]
      cases hline : rewriteLine upperOther tags line with
      | none => rwa [List.filterMap_cons_none hline]
      | some line' => rw [List.filterMap_cons_some hline]; exact ih.cons line'

end Kept

/-! ## The whole update -/

section Update

variable {values : List (PyStr × PyStr)} {text : List ℕ}

/-- **What an update is given**: names that stay distinct as tags, and values that can be written. -/
structure Updates (upperOther : ℕ → List ℕ) (values : List (PyStr × PyStr)) : Prop where
  distinct : (values.map fun e => tagName upperOther e.fst).Nodup
  statements : ∀ e ∈ values, OneStatement e.snd

theorem normalizedUpdates_eq (h : Updates upperOther values) :
    normalizedUpdates upperOther values = (values.map fun e => (tagName upperOther e.fst, e.snd)).reverse := by
  refine Dict.update_eq_reverse ?_
  rw [List.map_map]
  exact h.distinct

variable {e : PyStr × PyStr}

theorem mem_normalizedUpdates (h : Updates upperOther values) :
    e ∈ normalizedUpdates upperOther values ↔ ∃ given ∈ values, (tagName upperOther given.fst, given.snd) = e := by
  rw [normalizedUpdates_eq h, List.mem_reverse, List.mem_map]

theorem mem_tags (h : Updates upperOther values) {key : PyStr} :
    key ∈ (normalizedUpdates upperOther values).map Prod.fst ↔ ∃ e ∈ values, tagName upperOther e.fst = key := by
  rw [List.mem_map]
  constructor
  · rintro ⟨e, he, rfl⟩
    obtain ⟨given, hgiven, rfl⟩ := (mem_normalizedUpdates h).mp he
    exact ⟨given, hgiven, rfl⟩
  · rintro ⟨given, hgiven, rfl⟩
    exact ⟨_, (mem_normalizedUpdates h).mpr ⟨given, hgiven, rfl⟩, rfl⟩

theorem appended_of_updates (h : Updates upperOther values)
    (hvalid : ∀ e ∈ normalizedUpdates upperOther values, isTagName e.fst = true)
    (he : e ∈ (normalizedUpdates upperOther values).insertionSort ItemBefore) :
    isTagName e.fst = true ∧ OneStatement e.snd ∧ e.fst ∈ (normalizedUpdates upperOther values).map Prod.fst := by
  have hmem := (List.mem_insertionSort ItemBefore).mp he
  obtain ⟨given, hgiven, hgivenEq⟩ := (mem_normalizedUpdates h).mp hmem
  exact ⟨hvalid e hmem, hgivenEq ▸ h.statements given hgiven, List.mem_map_of_mem hmem⟩

/-- **The lines of an update hold no break**, so that they are read as they were written. -/
theorem readLines_updated (h : Updates upperOther values)
    (hvalid : ∀ e ∈ normalizedUpdates upperOther values, isTagName e.fst = true) (text : List ℕ) :
    readLines (writeLines (updatedLines upperOther (normalizedUpdates upperOther values) text))
      = updatedLines upperOther (normalizedUpdates upperOther values) text := by
  refine readLines_writeLines fun line hline c hc => ?_
  rcases List.mem_append.mp hline with hline | hline
  · obtain ⟨old, hold, hrewrite⟩ := List.mem_filterMap.mp hline
    rcases (rewriteLine_some hrewrite).characters c hc with hc | rfl | rfl
    · exact not_break_of_mem_readLines hold hc
    · rfl
    · rfl
  · obtain ⟨e, he, rfl⟩ := List.mem_map.mp hline
    obtain ⟨hname, hvalue, -⟩ := appended_of_updates h hvalid he
    exact (mem_assignmentLine hname hvalue hc).1

theorem flatMap_appended (h : Updates upperOther values)
    (hvalid : ∀ e ∈ normalizedUpdates upperOther values, isTagName e.fst = true) :
    (((normalizedUpdates upperOther values).insertionSort ItemBefore).map assignmentLine).flatMap
        (lineAssigned upperOther)
      = ((normalizedUpdates upperOther values).insertionSort ItemBefore).map fun e =>
          (e.fst, ⟨stripEnds isSpace e.snd.codes⟩) := by
  rw [List.flatMap_map, List.map_eq_flatMap]
  refine List.flatMap_congr fun e he => ?_
  obtain ⟨hname, hvalue, -⟩ := appended_of_updates h hvalid he
  exact lineAssigned_assignmentLine hname hvalue

theorem get_readIncar_updated (h : Updates upperOther values)
    (hvalid : ∀ e ∈ normalizedUpdates upperOther values, isTagName e.fst = true) (text : List ℕ) :
    let updated := writeLines (updatedLines upperOther (normalizedUpdates upperOther values) text)
    (∀ e ∈ values, Dict.get (readIncar upperOther updated) (tagName upperOther e.fst)
      = some ⟨stripEnds isSpace e.snd.codes⟩) ∧
    ∀ key, (∀ e ∈ values, tagName upperOther e.fst ≠ key) →
      Dict.get (readIncar upperOther updated) key = Dict.get (readIncar upperOther text) key := by
  intro updated
  set sorted := (normalizedUpdates upperOther values).insertionSort ItemBefore with hsorted
  set appended := sorted.map fun e => (e.fst, (⟨stripEnds isSpace e.snd.codes⟩ : PyStr)) with happended
  have hkeys : appended.map Prod.fst = sorted.map Prod.fst := by
    rw [happended, List.map_map]
    rfl
  have hnodup : (appended.map Prod.fst).Nodup := by
    have hperm : (sorted.map Prod.fst).Perm ((normalizedUpdates upperOther values).map Prod.fst) :=
      (List.perm_insertionSort ItemBefore _).map _
    rw [hkeys, hperm.nodup_iff, normalizedUpdates_eq h, List.map_reverse, List.nodup_reverse, List.map_map]
    exact h.distinct
  have hread : ∀ key, Dict.get (readIncar upperOther updated) key = (Dict.get (Dict.update [] appended) key).or
        (if key ∈ (normalizedUpdates upperOther values).map Prod.fst then none
          else Dict.get (readIncar upperOther text) key) := by
    intro key
    have hassigned : (updatedLines upperOther (normalizedUpdates upperOther values) text).flatMap
          (lineAssigned upperOther)
        = (((readLines text).flatMap (lineAssigned upperOther)).filter fun e =>
            e.fst ∉ (normalizedUpdates upperOther values).map Prod.fst) ++ appended := by
      unfold updatedLines
      rw [List.flatMap_append, flatMap_rewriteLine, flatMap_appended h hvalid]
    rw [readIncar_eq, readLines_updated h hvalid, hassigned, readIncar_eq]
    have hsplit : ∀ a b : List (PyStr × PyStr), Dict.update [] (a ++ b) = (Dict.update [] a).update b :=
      fun a b => List.foldl_append ..
    rw [hsplit, Dict.get_update, Dict.get_update_filter]
  constructor
  · intro e he
    have hmem : (tagName upperOther e.fst, (⟨stripEnds isSpace e.snd.codes⟩ : PyStr)) ∈ appended := by
      refine List.mem_map.mpr ⟨(tagName upperOther e.fst, e.snd), ?_, rfl⟩
      exact (List.mem_insertionSort ItemBefore).mpr ((mem_normalizedUpdates h).mpr ⟨e, he, rfl⟩)
    rw [hread, (Dict.get_update_eq_some_iff hnodup).mpr hmem]
    rfl
  · intro key hkey
    have hnot : key ∉ (normalizedUpdates upperOther values).map Prod.fst := fun hmem => by
      obtain ⟨e, he, heq⟩ := (mem_tags h).mp hmem
      exact hkey e he heq
    have hnone : Dict.get (Dict.update [] appended) key = none := by
      rw [Dict.update_eq_reverse hnodup, Dict.get_eq_none_iff, List.map_reverse, List.mem_reverse, hkeys]
      intro hmem
      exact hnot ((List.perm_insertionSort ItemBefore _).map _ |>.mem_iff.mp hmem)
    rw [hread, hnone, if_neg hnot]
    rfl

theorem updatedLines_updated (h : Updates upperOther values)
    (hvalid : ∀ e ∈ normalizedUpdates upperOther values, isTagName e.fst = true) (text : List ℕ) :
    updatedLines upperOther (normalizedUpdates upperOther values)
        (writeLines (updatedLines upperOther (normalizedUpdates upperOther values) text))
      = updatedLines upperOther (normalizedUpdates upperOther values) text := by
  have hgone : (((normalizedUpdates upperOther values).insertionSort ItemBefore).map assignmentLine).filterMap
      (rewriteLine upperOther ((normalizedUpdates upperOther values).map Prod.fst)) = [] := by
    rw [List.filterMap_eq_nil_iff]
    intro line hline
    obtain ⟨e, he, rfl⟩ := List.mem_map.mp hline
    obtain ⟨hname, hvalue, htag⟩ := appended_of_updates h hvalid he
    exact rewriteLine_assignmentLine hname hvalue htag
  have hlines := readLines_updated h hvalid text
  unfold updatedLines at hlines ⊢
  rw [hlines, List.filterMap_append, filterMap_rewriteLine, hgone, List.append_nil]

theorem commentsOf_updated (h : Updates upperOther values)
    (hvalid : ∀ e ∈ normalizedUpdates upperOther values, isTagName e.fst = true) (text : List ℕ) :
    commentsOf (updatedLines upperOther (normalizedUpdates upperOther values) text) = commentsOf (readLines text) := by
  have hnone : commentsOf (((normalizedUpdates upperOther values).insertionSort ItemBefore).map assignmentLine)
      = [] := by
    unfold commentsOf
    rw [List.map_map, List.filter_eq_nil_iff]
    intro comment hcomment
    obtain ⟨e, he, rfl⟩ := List.mem_map.mp hcomment
    obtain ⟨hname, hvalue, -⟩ := appended_of_updates h hvalid he
    show ¬(!(commentOf (assignmentLine e)).isEmpty) = true
    rw [(contentOf_assignmentLine hname hvalue).2]
    exact Bool.false_ne_true
  unfold updatedLines
  rw [commentsOf_append, commentsOf_rewriteLine, hnone, List.append_nil]

theorem mem_of_universalNewlines {text : List ℕ} {c : ℕ} (h : c ∈ universalNewlines text) :
    c ∈ text ∨ c = '\n'.toNat := by
  induction text using universalNewlines.induct with
  | case1 => cases h
  | case2 => rw [universalNewlines.eq_def] at h; exact Or.inr (by simpa using h)
  | case3 rest ih =>
    rw [universalNewlines.eq_def] at h
    simp only [if_true] at h
    rcases List.mem_cons.mp h with rfl | h
    · exact Or.inr rfl
    · exact (ih h).imp_left fun hmem => List.mem_cons_of_mem _ (List.mem_cons_of_mem _ hmem)
  | case4 d rest hd ih =>
    rw [universalNewlines.eq_def] at h
    simp only [if_true, if_neg hd] at h
    rcases List.mem_cons.mp h with rfl | h
    · exact Or.inr rfl
    · exact (ih h).imp_left (List.mem_cons_of_mem _)
  | case5 c' codes hc' ih =>
    rw [universalNewlines.eq_def] at h
    simp only [if_neg hc'] at h
    rcases List.mem_cons.mp h with rfl | h
    · exact Or.inl List.mem_cons_self
    · exact (ih h).imp_left (List.mem_cons_of_mem _)

theorem encodable_updated (h : Updates upperOther values)
    (hvalid : ∀ e ∈ normalizedUpdates upperOther values, isTagName e.fst = true)
    (htext : (PyStr.mk text).encodable = true) (hvalues : ∀ e ∈ values, e.snd.encodable = true) :
    (PyStr.mk (writeLines (updatedLines upperOther (normalizedUpdates upperOther values) text))).encodable = true := by
  have hcodes : ∀ s : PyStr, s.encodable = true ↔ ∀ c ∈ s.codes, PyStr.isSurrogate c = false := fun s => by
    unfold PyStr.encodable
    simp
  have hall := (hcodes _).mp htext
  refine (hcodes _).mpr fun c hc => ?_
  obtain ⟨line, hline, hc⟩ := List.mem_flatMap.mp hc
  rcases List.mem_append.mp hc with hc | hc
  · rcases List.mem_append.mp hline with hline | hline
    · obtain ⟨old, hold, hrewrite⟩ := List.mem_filterMap.mp hline
      rcases (rewriteLine_some hrewrite).characters c hc with hc | rfl | rfl
      · rcases mem_of_universalNewlines (mem_of_mem_linesBy hold hc) with hc | rfl
        · exact hall c hc
        · rfl
      · rfl
      · rfl
    · obtain ⟨e, he, rfl⟩ := List.mem_map.mp hline
      obtain ⟨given, hgiven, rfl⟩ := (mem_normalizedUpdates h).mp ((List.mem_insertionSort ItemBefore).mp he)
      obtain ⟨hname, -, -⟩ := appended_of_updates h hvalid he
      rcases List.mem_append.mp hc with hc | hc
      · rcases List.mem_append.mp hc with hc | hc
        · have htag := (tagCode_of_isTagName hname).2 c hc
          unfold IsTagCode at htag
          unfold PyStr.isSurrogate
          simp only [Bool.and_eq_false_iff, decide_eq_false_iff_not]
          omega
        · have hliteral := (hcodes _).mp (PyStr.encodable_ofString " = ")
          exact hliteral c hc
      · exact (hcodes _).mp (hvalues given hgiven) c hc
  · rw [List.mem_singleton.mp hc]
    rfl

theorem updateIncar_eq_ok {written : List ℕ} : updateIncar upperOther values text = .ok written ↔
    normalizedUpdates upperOther values ≠ [] ∧ (∀ e ∈ normalizedUpdates upperOther values, isTagName e.fst = true) ∧
      (PyStr.mk written).encodable = true ∧
      written = writeLines (updatedLines upperOther (normalizedUpdates upperOther values) text) := by
  have hany : (normalizedUpdates upperOther values).any (fun e => !isTagName e.fst) = true
      ↔ ¬∀ e ∈ normalizedUpdates upperOther values, isTagName e.fst = true := by
    rw [List.any_eq_true]
    push Not
    simp
  unfold updateIncar
  simp only [hany]
  constructor
  · intro h
    split_ifs at h with hinvalid hencodable
    rw [not_or, not_not] at hinvalid
    obtain rfl := Except.ok.inj h
    exact ⟨hinvalid.1, hinvalid.2, hencodable, rfl⟩
  · rintro ⟨hne, hvalid, hencodable, rfl⟩
    rw [if_neg (not_or.mpr ⟨hne, not_not.mpr hvalid⟩), if_pos hencodable]

/-- **An update of an INCAR is lawful.** It returns whenever it is given something, its tags are
valid, and the text and the values can be encoded. Then the updated tags are read with the stripped
values and all others as before; the lines that assign none of them are kept, in order; so is every
comment; and the same update changes nothing any more. -/
theorem update_incar_lawful (h : Updates upperOther values) :
    (values ≠ [] → (∀ e ∈ values, isTagName (tagName upperOther e.fst) = true) →
      (PyStr.mk text).encodable = true → (∀ e ∈ values, e.snd.encodable = true) →
        ∃ updated, updateIncar upperOther values text = .ok updated) ∧
    ∀ updated, updateIncar upperOther values text = .ok updated →
      (∀ e ∈ values, Dict.get (readIncar upperOther updated) (tagName upperOther e.fst)
        = some ⟨stripEnds isSpace e.snd.codes⟩) ∧
      (∀ key, (∀ e ∈ values, tagName upperOther e.fst ≠ key) →
        Dict.get (readIncar upperOther updated) key = Dict.get (readIncar upperOther text) key) ∧
      ((readLines text).filter (LeftAlone upperOther (values.map fun e => tagName upperOther e.fst))).Sublist
        (readLines updated) ∧
      commentsOf (readLines updated) = commentsOf (readLines text) ∧
      updateIncar upperOther values updated = .ok updated := by
  constructor
  · intro hne htags htext hvalues
    have hvalid : ∀ e ∈ normalizedUpdates upperOther values, isTagName e.fst = true := by
      intro e he
      obtain ⟨given, hgiven, rfl⟩ := (mem_normalizedUpdates h).mp he
      exact htags given hgiven
    refine ⟨_, updateIncar_eq_ok.mpr ⟨?_, hvalid, encodable_updated h hvalid htext hvalues, rfl⟩⟩
    rw [normalizedUpdates_eq h]
    simpa using hne
  · intro updated hupdated
    obtain ⟨hne, hvalid, hencodable, rfl⟩ := updateIncar_eq_ok.mp hupdated
    obtain ⟨hnew, hold⟩ := get_readIncar_updated h hvalid text
    have hlines := readLines_updated h hvalid text
    refine ⟨hnew, hold, ?_, ?_, ?_⟩
    · have htags : LeftAlone upperOther (values.map fun e => tagName upperOther e.fst)
          = LeftAlone upperOther ((normalizedUpdates upperOther values).map Prod.fst) := by
        funext line
        rw [Bool.eq_iff_iff, leftAlone_iff, leftAlone_iff]
        refine forall₂_congr fun e _ => not_congr ?_
        rw [mem_tags h, List.mem_map]
      rw [hlines, htags]
      exact (sublist_rewriteLine _).trans (List.sublist_append_left _ _)
    · rw [hlines]
      exact commentsOf_updated h hvalid text
    · refine updateIncar_eq_ok.mpr ⟨hne, hvalid, hencodable, ?_⟩
      rw [updatedLines_updated h hvalid]

end Update

/-- A line with two statements and a comment, and an update of the second. -/
theorem update_incar_lawful_isym :
    ∃ updated, updateIncar (fun c => [c]) [(PyStr.ofString "isym", " 0")]
        (PyStr.ofString "ISPIN = 2 ; ISYM = 2 # set\n").codes = .ok updated ∧
      updated = (PyStr.ofString "ISPIN = 2 # set\nISYM =  0\n").codes ∧
      updateIncar (fun c => [c]) [(PyStr.ofString "isym", " 0")] updated = .ok updated := by
  have hgiven : Updates (fun c => [c]) [(PyStr.ofString "isym", " 0")] :=
    ⟨by decide, by decide⟩
  have hrun : updateIncar (fun c => [c]) [(PyStr.ofString "isym", " 0")]
      (PyStr.ofString "ISPIN = 2 ; ISYM = 2 # set\n").codes
      = .ok (PyStr.ofString "ISPIN = 2 # set\nISYM =  0\n").codes :=
    updateIncar_eq_ok.mpr ⟨by decide +kernel, by decide +kernel, by decide +kernel, by decide +kernel⟩
  exact ⟨_, hrun, rfl, ((update_incar_lawful hgiven).2 _ hrun).2.2.2.2⟩
