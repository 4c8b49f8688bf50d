import HttkWorkflow.ChildLabels
import HttkWorkflow.TextPieces
import Mathlib.Data.List.Chain
import Mathlib.Data.List.DropRight

/-!
# Legacy names as labels and tags

A task directory of httk v1 is named freely, and the label and the tag of the
child it becomes are not. Both are made by lowering the name, replacing every
run of other characters by a hyphen, taking hyphens next to each other
together, cutting off what is too long, and removing hyphens and dots at both
ends. Whatever the name was, what comes out is a label (`isLabel_labelBase`,
`isLabel_safeTag`).

Two names may come out the same, and then a number is put behind the first 44
characters of the label. These may end in a hyphen, and the number may have
four digits; such a label is refused. A label is accepted exactly if there is
room for it (`isLabel_legacyLabel`), as it is for the labels of children that
ask for none.
-/

/-! ## Folding -/

/-- `re.sub(r"[^a-z0-9._-]+", "-", text)`; whether the character before was replaced. -/
def foldOthers (replaced : Bool) : List ℕ → List ℕ
  | [] => []
  | c :: codes =>
    if isLabelTail c then c :: foldOthers false codes
    else if replaced then foldOthers true codes
    else hyphen :: foldOthers true codes

/-- `re.sub(r"-{2,}", "-", text)`; whether the character before was a hyphen. -/
def collapseHyphens (after : Bool) : List ℕ → List ℕ
  | [] => []
  | c :: codes =>
    if c = hyphen then
      if after then collapseHyphens true codes else c :: collapseHyphens true codes
    else c :: collapseHyphens false codes

/-- `"-."`. -/
def isHyphenDot (c : ℕ) : Bool := c == hyphen || c == '.'.toNat

/-- `"-._"`. -/
def isHyphenDotUnderscore (c : ℕ) : Bool := isHyphenDot c || c == '_'.toNat

/-- `base` as `_label` first has it. -/
def foldedId (lower : PyStr → PyStr) (taskId : PyStr) : List ℕ :=
  stripEnds isHyphenDot
    ((collapseHyphens false (stripEnds isHyphenDot (foldOthers false (lower taskId).codes))).take 48)

/-- **`base` of `_label`**, before it is looked for among the labels in use. `lower` is `str.lower`. -/
def labelBase (lower : PyStr → PyStr) (taskId : PyStr) : PyStr :=
  let base := foldedId lower taskId
  -- of the characters there are, `isalnum` accepts the letters and the digits
  if base.head?.any isLabelHead then ⟨base⟩
  else ⟨((PyStr.ofString "task-").codes ++ base).take 48 |>.rdropWhile isHyphenDot⟩

def safeTag (lower : PyStr → PyStr) (value : PyStr) : PyStr :=
  let tag := stripEnds isHyphenDotUnderscore (foldOthers false (lower value).codes)
  let tag := ((collapseHyphens false tag).take 48).rdropWhile isHyphenDotUnderscore
  if tag = [] then "v1-task" else ⟨tag⟩

/-- `base[:44]`, which a number is put behind. -/
def labelStem (base : PyStr) : PyStr := ⟨base.codes.take 44⟩

/-- **`_label`**, beside the labels in use. -/
def legacyLabel (lower : PyStr → PyStr) (used : List PyStr) (taskId : PyStr) : PyStr :=
  let base := labelBase lower taskId
  if base ∈ used then
    -- one round more than there are labels in use is always enough
    (firstFree (numberedLabel (labelStem base)) used (used.length + 1) 2).elim base (numberedLabel (labelStem base))
  else base

/-- **There is room for the label of a task**: what its id folds to is free, or its first 44 characters do not end in
a hyphen and something short enough that is made of them is free. -/
def RoomFor (lower : PyStr → PyStr) (used : List PyStr) (taskId : PyStr) : Prop :=
  let base := labelBase lower taskId
  base ∉ used ∨ (labelStem base).codes.getLast? ≠ some hyphen
    ∧ ∃ n, 2 ≤ n ∧ (numberedLabel (labelStem base) n).codes.length ≤ 48 ∧ numberedLabel (labelStem base) n ∉ used

/-! ## What a label is -/

def HyphensApart (a b : ℕ) : Prop := ¬(a = hyphen ∧ b = hyphen)

theorem hasDoubleHyphen_eq_false {codes : List ℕ} : hasDoubleHyphen codes = false ↔ codes.IsChain HyphensApart := by
  induction codes with
  | nil => exact iff_of_true rfl List.isChain_nil
  | cons a codes ih =>
    cases codes with
    | nil => exact iff_of_true rfl (List.isChain_singleton a)
    | cons b codes =>
      rw [hasDoubleHyphen, List.isChain_cons_cons, Bool.or_eq_false_iff, ih]
      refine and_congr_left fun _ => ?_
      rw [← Bool.not_eq_true, Bool.and_eq_true, beq_iff_eq, beq_iff_eq]
      rfl

/-- **A label**, by what is true of its characters. -/
theorem isLabel_iff {codes : List ℕ} : isLabel ⟨codes⟩ = true
    ↔ codes.head?.any isLabelHead = true ∧ codes.all isLabelTail = true ∧ codes.length ≤ 48
      ∧ codes.IsChain HyphensApart := by
  unfold isLabel
  cases codes with
  | nil => exact iff_of_false Bool.false_ne_true fun h => absurd h.1 Bool.false_ne_true
  | cons c codes =>
    have htail : isLabelHead c = true → isLabelTail c = true := fun h => by
      unfold isLabelTail
      rw [h]
      rfl
    have hhead : (c :: codes).head?.any isLabelHead = isLabelHead c := rfl
    rw [← hasDoubleHyphen_eq_false, hhead, List.all_cons, List.length_cons]
    simp only [Bool.and_eq_true, decide_eq_true_eq, Bool.not_eq_true', Nat.succ_le_succ_iff, and_assoc]
    exact ⟨fun ⟨h, hall, hlength, hchain⟩ => ⟨h, htail h, hall, hlength, hchain⟩,
      fun ⟨h, _, hall, hlength, hchain⟩ => ⟨h, hall, hlength, hchain⟩⟩

theorem isChain_of_isInfix {R : ℕ → ℕ → Prop} {l l' : List ℕ} (h : l.IsChain R) (h' : l' <:+: l) : l'.IsChain R := by
  obtain ⟨s, t, rfl⟩ := h'
  exact h.left_of_append.right_of_append

variable {codes codes' : List ℕ}

/-- **A beginning of a label** that is not empty is one. -/
theorem isLabel_prefix (h : isLabel ⟨codes⟩ = true) (hpre : codes' <+: codes)
    (hne : codes' ≠ []) : isLabel ⟨codes'⟩ = true := by
  obtain ⟨hhead, hall, hlength, hchain⟩ := isLabel_iff.mp h
  refine isLabel_iff.mpr ⟨?_, ?_, hpre.length_le.trans hlength, isChain_of_isInfix hchain hpre.isInfix⟩
  · obtain ⟨c, rest, rfl⟩ := List.exists_cons_of_ne_nil hne
    obtain ⟨later, rfl⟩ := hpre
    exact hhead
  · exact List.all_eq_true.mpr fun c hc => List.all_eq_true.mp hall c (hpre.subset hc)

/-! ## What folding leaves -/

theorem all_foldOthers (replaced : Bool) (codes : List ℕ) : (foldOthers replaced codes).all isLabelTail = true := by
  induction codes generalizing replaced with
  | nil => rfl
  | cons c codes ih =>
    rw [foldOthers]
    split_ifs with hc hreplaced
    · rw [List.all_cons, hc, ih, Bool.true_and]
    · exact ih true
    · rw [List.all_cons, ih, Bool.and_true]
      rfl

theorem collapseHyphens_subset (after : Bool) (codes : List ℕ) : collapseHyphens after codes ⊆ codes := by
  induction codes generalizing after with
  | nil => exact List.Subset.refl _
  | cons c codes ih =>
    rw [collapseHyphens]
    split_ifs
    · exact List.subset_cons_of_subset c (ih true)
    · exact List.cons_subset_cons c (ih true)
    · exact List.cons_subset_cons c (ih false)

theorem head_collapseHyphens (codes : List ℕ) : (collapseHyphens false codes).head? = codes.head? := by
  cases codes with
  | nil => rfl
  | cons c codes =>
    rw [collapseHyphens, if_neg Bool.false_ne_true]
    split_ifs
    · rfl
    · rfl

theorem isChain_collapseHyphens (after : Bool) (codes : List ℕ) : (collapseHyphens after codes).IsChain HyphensApart
      ∧ (after = true → ∀ c ∈ (collapseHyphens after codes).head?, c ≠ hyphen) := by
  induction codes generalizing after with
  | nil => exact ⟨List.isChain_nil, fun _ c hc => (by cases hc)⟩
  | cons c codes ih =>
    rw [collapseHyphens]
    split_ifs with hc hafter
    · exact ⟨(ih true).1, fun _ => (ih true).2 rfl⟩
    · refine ⟨List.isChain_cons.mpr ⟨fun b hb hboth => (ih true).2 rfl b hb hboth.2, (ih true).1⟩, ?_⟩
      exact fun h => absurd h hafter
    · refine ⟨List.isChain_cons.mpr ⟨fun b _ hboth => hc hboth.1, (ih false).1⟩, ?_⟩
      rintro - d hd
      rw [List.head?_cons] at hd
      exact Option.some.inj hd ▸ hc

theorem all_of_subset (h : codes.all isLabelTail = true) (hsub : codes' ⊆ codes) : codes'.all isLabelTail = true :=
  List.all_eq_true.mpr fun c hc => List.all_eq_true.mp h c (hsub hc)

theorem isLabelHead_of_tail {c : ℕ} (h : isLabelTail c = true) (hnot : isHyphenDotUnderscore c = false) :
    isLabelHead c = true := by
  unfold isLabelTail at h
  simp only [isHyphenDotUnderscore, isHyphenDot, Bool.or_eq_false_iff] at hnot
  obtain ⟨⟨hhyphen, hdot⟩, hunderscore⟩ := hnot
  have hhyphen : (c == 0x2D) = false := hhyphen
  have hdot : (c == 0x2E) = false := hdot
  have hunderscore : (c == 0x5F) = false := hunderscore
  rwa [hhyphen, hdot, hunderscore, Bool.or_false, Bool.or_false, Bool.or_false] at h

section Labels

variable (lower : PyStr → PyStr)

theorem foldedId_spec (taskId : PyStr) : (foldedId lower taskId).all isLabelTail = true
    ∧ (foldedId lower taskId).length ≤ 48 ∧ (foldedId lower taskId).IsChain HyphensApart := by
  have hpiece := stripEnds_isInfix isHyphenDot
    ((collapseHyphens false (stripEnds isHyphenDot (foldOthers false (lower taskId).codes))).take 48)
  refine ⟨?_, ?_, ?_⟩
  · refine all_of_subset (all_foldOthers false (lower taskId).codes) fun c hc => ?_
    have hcollapsed := collapseHyphens_subset _ _ (List.take_subset _ _ (hpiece.subset hc))
    exact (stripEnds_isInfix _ _).subset hcollapsed
  · exact hpiece.length_le.trans (List.length_take_le _ _)
  · exact isChain_of_isInfix (isChain_of_isInfix (isChain_collapseHyphens false _).1 (List.take_prefix _ _).isInfix) hpiece

theorem isLabel_labelBase (taskId : PyStr) : isLabel (labelBase lower taskId) = true := by
  obtain ⟨hall, hlength, hchain⟩ := foldedId_spec lower taskId
  unfold labelBase
  dsimp only
  split_ifs with hhead
  · exact isLabel_iff.mpr ⟨hhead, hall, hlength, hchain⟩
  · -- what is left begins with an underscore, if it is not empty
    have hfirst : ∀ c ∈ (foldedId lower taskId).head?, c ≠ hyphen := by
      rintro c hc rfl
      exact absurd (head_stripEnds hc) (by decide)
    have htask : (PyStr.ofString "task-").codes.IsChain HyphensApart := hasDoubleHyphen_eq_false.mp (by decide)
    have hlong : ((PyStr.ofString "task-").codes ++ foldedId lower taskId).IsChain HyphensApart := by
      refine List.isChain_append.mpr ⟨htask, hchain, fun a _ b hb hboth => ?_⟩
      exact hfirst b hb hboth.2
    have hlabel : isLabel ⟨((PyStr.ofString "task-").codes ++ foldedId lower taskId).take 48⟩ = true := by
      refine isLabel_iff.mpr ⟨rfl, ?_, List.length_take_le _ _, isChain_of_isInfix hlong (List.take_prefix _ _).isInfix⟩
      refine all_of_subset ?_ (List.take_subset _ _)
      rw [List.all_append, hall, Bool.and_true]
      decide
    refine isLabel_prefix hlabel (List.rdropWhile_prefix _ _) fun hnil => ?_
    -- the letter in front is not removed
    have hgone := List.rdropWhile_eq_nil_iff.mp hnil 't'.toNat List.mem_cons_self
    exact absurd hgone (by decide)

theorem isLabel_safeTag (value : PyStr) : isLabel (safeTag lower value) = true := by
  unfold safeTag
  dsimp only
  split_ifs with hempty
  · decide
  · refine isLabel_prefix ?_ (List.rdropWhile_prefix _ _) hempty
    refine isLabel_iff.mpr ⟨?_, ?_, List.length_take_le _ _, ?_⟩
    · have hne : stripEnds isHyphenDotUnderscore (foldOthers false (lower value).codes) ≠ [] := by
        intro hnil
        rw [hnil] at hempty
        exact hempty rfl
      obtain ⟨c, rest, hcodes⟩ := List.exists_cons_of_ne_nil hne
      have hc : c ∈ foldOthers false (lower value).codes :=
        (stripEnds_isInfix _ _).subset (hcodes ▸ List.mem_cons_self)
      have hfirst : (stripEnds isHyphenDotUnderscore (foldOthers false (lower value).codes)).head? = some c := by
        rw [hcodes]
        rfl
      have hhead := isLabelHead_of_tail (List.all_eq_true.mp (all_foldOthers false _) c hc) (head_stripEnds hfirst)
      rw [List.head?_take, if_neg (by decide), head_collapseHyphens, hcodes]
      exact hhead
    · refine all_of_subset (all_foldOthers false (lower value).codes) fun c hc => ?_
      exact (stripEnds_isInfix _ _).subset (collapseHyphens_subset _ _ (List.take_subset _ _ hc))
    · exact isChain_of_isInfix (isChain_collapseHyphens false _).1 (List.take_prefix _ _).isInfix

theorem isLabel_labelStem {base : PyStr} (h : isLabel base = true) : isLabel (labelStem base) = true := by
  refine isLabel_prefix h (List.take_prefix _ _) fun hnil => ?_
  have hcodes : base.codes = [] := (List.take_eq_nil_iff.mp hnil).resolve_left (by decide)
  rw [isLabel, hcodes] at h
  cases h

theorem legacyLabel_cases (used : List PyStr) (taskId : PyStr) :
    (labelBase lower taskId ∉ used ∧ legacyLabel lower used taskId = labelBase lower taskId)
    ∨ labelBase lower taskId ∈ used ∧ ∃ n, 2 ≤ n ∧ numberedLabel (labelStem (labelBase lower taskId)) n ∉ used
      ∧ (∀ k, 2 ≤ k → k < n → numberedLabel (labelStem (labelBase lower taskId)) k ∈ used)
      ∧ legacyLabel lower used taskId = numberedLabel (labelStem (labelBase lower taskId)) n := by
  unfold legacyLabel
  dsimp only
  split_ifs with hused
  · have hsome := firstFree_isSome (numberedLabel_injective (labelStem (labelBase lower taskId))) 2
      (Nat.lt_succ_self used.length)
    obtain ⟨n, hn⟩ := Option.isSome_iff_exists.mp hsome
    obtain ⟨hle, hfree, hpassed⟩ := firstFree_spec hn
    exact Or.inr ⟨hused, n, hle, hfree, hpassed, by rw [hn, Option.elim_some]⟩
  · exact Or.inl ⟨hused, rfl⟩

theorem legacyLabel_notMem (used : List PyStr) (taskId : PyStr) : legacyLabel lower used taskId ∉ used := by
  rcases legacyLabel_cases lower used taskId with ⟨hfree, hlabel⟩ | ⟨-, n, -, hfree, -, hlabel⟩
  · rwa [hlabel]
  · rwa [hlabel]

theorem isLabel_legacyLabel (used : List PyStr) (taskId : PyStr) :
    isLabel (legacyLabel lower used taskId) = true ↔ RoomFor lower used taskId := by
  have hbase := isLabel_labelBase lower taskId
  have hstem := isLabel_labelStem hbase
  rcases legacyLabel_cases lower used taskId with ⟨hfree, hlabel⟩ | ⟨hused, n, hn, hfree, hpassed, hlabel⟩
  · rw [hlabel]
    exact iff_of_true hbase (Or.inl hfree)
  · rw [hlabel, isLabel_numberedLabel hstem]
    constructor
    · rintro ⟨hlast, hlength⟩
      exact Or.inr ⟨hlast, n, hn, hlength, hfree⟩
    · rintro (hnot | ⟨hlast, m, hm, hlength, hfreeM⟩)
      · exact absurd hused hnot
      · -- the loop stops at the first free number, which is no longer than any other
        have hle : n ≤ m := Nat.not_lt.mp fun hlt => hfreeM (hpassed m hm hlt)
        refine ⟨hlast, Nat.le_trans ?_ hlength⟩
        simp only [numberedLabel, List.length_append, List.length_cons]
        have := length_decimal_mono hle
        omega

end Labels
