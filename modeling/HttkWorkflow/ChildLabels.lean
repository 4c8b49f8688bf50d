import HttkWorkflow.FreshNames
import HttkWorkflow.Validators

/-!
# Labels for children that ask for none

A child of an outcome that asks for no label is given its tag, and if another child
has that, the tag with a hyphen and the first free number after it. Only then is the
label validated. The number is always found, and the label is new. But the tag can
have used up the room there is for a label, or end in a hyphen of its own, and then
the label is refused, and the child with it.

The label a child is given is accepted exactly where there is room for it
(`HasRoom`): the tag is free, or it does not end in a hyphen and one of the labels
made of it that are short enough is free.
-/

/-- The digits of a number, as `f"{number}"` writes them. -/
def PyStr.decimal (n : ℕ) : PyStr := ⟨(Nat.toDigits 10 n).map Char.toNat⟩

def hyphen : ℕ := '-'.toNat

/-- `f"{base}-{index}"`. -/
def numberedLabel (base : PyStr) (index : ℕ) : PyStr := ⟨base.codes ++ hyphen :: (PyStr.decimal index).codes⟩

/-- **A child about to be registered**, as far as its label is concerned: the label it asks for,
the tag of its definition, and whether the rest of its registration succeeds. -/
structure LabelledChild where
  requested : Option PyStr
  tag : Option PyStr
  /-- Whether the child gets its directory and its entry. -/
  registered : Bool
  /-- `JobDefinition` has validated the tag. -/
  validTag : ∀ t ∈ tag, isLabel t = true

/-- `child.tag or "child"`. -/
def LabelledChild.base (child : LabelledChild) : PyStr := child.tag.getD "child"

/-- **`_child_label`**, of a child beside those that have a label. -/
def childLabel (used : List PyStr) (child : LabelledChild) : Except Exc PyStr :=
  match child.requested with
  | some requested => do
    let label ← validateLabel (some (.str requested)) "child label"
    if label ∈ used then
      .error ⟨.valueError, [.lit "child label is not unique within this spawn set: ", .raw label]⟩
    else .ok label
  | none =>
    let label :=
      if child.base ∈ used then
        -- one round more than there are labels in use is always enough
        (firstFree (numberedLabel child.base) used (used.length + 1) 2).elim child.base
          (numberedLabel child.base)
      else child.base
    validateLabel (some (.str label)) "child label"

/-- **The labels given** to children one after the other; one that is refused gets none, and one
whose registration fails does not keep it. -/
def labelsGiven : List PyStr → List LabelledChild → List PyStr
  | used, [] => used
  | used, child :: children =>
    match childLabel used child with
    | .ok label => labelsGiven (if child.registered then used ++ [label] else used) children
    | .error _ => labelsGiven used children

/-- **There is room for a label**: the base is free, or it does not end in a hyphen and something
short enough that is made of it is free. -/
def HasRoom (used : List PyStr) (base : PyStr) : Prop :=
  base ∉ used ∨ base.codes.getLast? ≠ some hyphen
    ∧ ∃ n, 2 ≤ n ∧ (numberedLabel base n).codes.length ≤ 48 ∧ numberedLabel base n ∉ used

/-! ## Numbered labels -/

theorem decimal_injective : Function.Injective PyStr.decimal := by
  intro m n h
  have hcodes : (Nat.toDigits 10 m).map Char.toNat = (Nat.toDigits 10 n).map Char.toNat :=
    congrArg PyStr.codes h
  have hchars := List.map_injective_iff.mpr (fun c d hcd => Char.toNat_inj.mp hcd) hcodes
  rw [← Nat.ofDigitChars_ten_toDigits (n := m), hchars, Nat.ofDigitChars_ten_toDigits]

theorem numberedLabel_injective (base : PyStr) : Function.Injective (numberedLabel base) := by
  intro m n h
  have hcodes := List.append_cancel_left (congrArg PyStr.codes h)
  refine decimal_injective ?_
  exact congrArg PyStr.mk (List.cons.inj hcodes).2

theorem length_decimal_mono {m n : ℕ} (h : m ≤ n) :
    (PyStr.decimal m).codes.length ≤ (PyStr.decimal n).codes.length := by
  show ((Nat.toDigits 10 m).map Char.toNat).length ≤ ((Nat.toDigits 10 n).map Char.toNat).length
  rw [List.length_map, List.length_map]
  have hpos : 0 < (Nat.toDigits 10 n).length := Nat.length_toDigits_pos
  refine (Nat.length_toDigits_le_iff (by decide) hpos).mpr (lt_of_le_of_lt h ?_)
  exact (Nat.length_toDigits_le_iff (by decide) hpos).mp le_rfl

theorem digit_of_mem_decimal {n c : ℕ} (h : c ∈ (PyStr.decimal n).codes) : 0x30 ≤ c ∧ c ≤ 0x39 := by
  obtain ⟨d, hd, rfl⟩ := List.mem_map.mp h
  have hdigit := Nat.isDigit_of_mem_toDigits (by decide) (by decide) hd
  unfold Char.isDigit at hdigit
  obtain ⟨hlow, hhigh⟩ := Bool.and_eq_true_iff.mp hdigit
  exact ⟨of_decide_eq_true hlow, of_decide_eq_true hhigh⟩

theorem hasDoubleHyphen_digits {digits : List ℕ} (h : hyphen ∉ digits) :
    hasDoubleHyphen (hyphen :: digits) = false := by
  have hall : ∀ l : List ℕ, hyphen ∉ l → hasDoubleHyphen l = false := by
    intro l hl
    induction l with
    | nil => rfl
    | cons a l ih =>
      cases l with
      | nil => rfl
      | cons b l =>
        obtain ⟨ha, hl⟩ := not_or.mp (mt List.mem_cons.mpr hl)
        rw [hasDoubleHyphen, ih hl, Bool.or_false]
        have hne : (a == 0x2D) = false := beq_eq_false_iff_ne.mpr fun heq => ha heq.symm
        rw [hne, Bool.false_and]
  cases digits with
  | nil => rfl
  | cons b digits =>
    rw [hasDoubleHyphen, hall _ h, Bool.or_false]
    have hne : (b == 0x2D) = false :=
      beq_eq_false_iff_ne.mpr fun heq => h (heq ▸ List.mem_cons_self)
    rw [hne, Bool.and_false]

theorem hasDoubleHyphen_append {codes digits : List ℕ} (h : hyphen ∉ digits) :
    hasDoubleHyphen (codes ++ hyphen :: digits)
      = (hasDoubleHyphen codes || decide (codes.getLast? = some hyphen)) := by
  induction codes with
  | nil => rw [List.nil_append, hasDoubleHyphen_digits h]; rfl
  | cons a codes ih =>
    cases codes with
    | nil =>
      rw [List.cons_append, List.nil_append, hasDoubleHyphen, hasDoubleHyphen_digits h]
      show ((a == hyphen) && (hyphen == hyphen) || false) = (false || decide (some a = some hyphen))
      rw [beq_self_eq_true, Bool.and_true, Bool.or_false, Bool.false_or, Bool.beq_eq_decide_eq]
      exact decide_eq_decide.mpr ⟨congrArg some, Option.some.inj⟩
    | cons b codes =>
      rw [List.cons_append, List.cons_append, hasDoubleHyphen, ← List.cons_append, ih, hasDoubleHyphen,
        List.getLast?_cons_cons, Bool.or_assoc]

theorem isLabel_numberedLabel {base : PyStr} (hbase : isLabel base = true) (n : ℕ) :
    isLabel (numberedLabel base n) = true
      ↔ base.codes.getLast? ≠ some hyphen ∧ (numberedLabel base n).codes.length ≤ 48 := by
  have hdigits : hyphen ∉ (PyStr.decimal n).codes := fun h => by
    have := digit_of_mem_decimal h
    have : hyphen = 0x2D := rfl
    omega
  have htail : (hyphen :: (PyStr.decimal n).codes).all isLabelTail = true := by
    refine List.all_eq_true.mpr fun c hc => ?_
    rcases List.mem_cons.mp hc with rfl | hc
    · rfl
    · obtain ⟨hlow, hhigh⟩ := digit_of_mem_decimal hc
      simp [isLabelTail, isLabelHead, hlow, hhigh]
  obtain ⟨codes⟩ := base
  unfold isLabel at hbase ⊢
  cases codes with
  | nil => cases hbase
  | cons c rest =>
    obtain ⟨⟨⟨hhead, hrest⟩, -⟩, hdouble⟩ := by simpa only [Bool.and_eq_true] using hbase
    have hdouble : hasDoubleHyphen (c :: rest) = false := by simpa using hdouble
    show (isLabelHead c && (rest ++ hyphen :: (PyStr.decimal n).codes).all isLabelTail
      && decide ((rest ++ hyphen :: (PyStr.decimal n).codes).length ≤ 47)
      && !hasDoubleHyphen ((c :: rest) ++ hyphen :: (PyStr.decimal n).codes)) = true ↔ _
    rw [hasDoubleHyphen_append hdigits, hdouble, List.all_append, hhead, hrest, htail]
    simp only [Bool.true_and, Bool.and_true, Bool.false_or, Bool.and_eq_true, decide_eq_true_eq,
      Bool.not_eq_true', decide_eq_false_iff_not, numberedLabel, List.cons_append, List.length_cons,
      Nat.succ_le_succ_iff]
    exact and_comm

/-! ## The label a child is given -/

theorem isLabel_base (child : LabelledChild) : isLabel child.base = true := by
  unfold LabelledChild.base
  cases h : child.tag with
  | none => decide
  | some t => exact child.validTag t h

theorem validateLabel_eq_ok {label text : PyStr} {name : String} :
    validateLabel (some (.str label)) name = .ok text ↔ isLabel label = true ∧ text = label := by
  by_cases hempty : label.codes = []
  · have hnot : isLabel label = false := by
      unfold isLabel
      rw [hempty]
    have hstring : requireString (some (.str label)) name
        = raiseFormat [.lit name, .lit " must be a nonempty string"] := if_pos hempty
    rw [hnot]
    unfold validateLabel
    rw [hstring]
    exact ⟨fun h => (by cases h), fun h => (by cases h.1)⟩
  · have hstring : requireString (some (.str label)) name = .ok label := if_neg hempty
    unfold validateLabel
    rw [hstring]
    show (if isLabel label = true then Except.ok label else _) = _ ↔ _
    by_cases hlabel : isLabel label = true
    · rw [if_pos hlabel]
      exact ⟨fun h => ⟨hlabel, (Except.ok.inj h).symm⟩, fun h => h.2 ▸ rfl⟩
    · rw [if_neg hlabel]
      exact ⟨fun h => (by cases h), fun h => absurd h.1 hlabel⟩

variable {child : LabelledChild}

theorem childLabel_none (hnone : child.requested = none) (used : List PyStr) :
    (child.base ∉ used ∧ childLabel used child = .ok child.base)
    ∨ child.base ∈ used ∧ ∃ n, 2 ≤ n ∧ numberedLabel child.base n ∉ used
      ∧ (∀ k, 2 ≤ k → k < n → numberedLabel child.base k ∈ used)
      ∧ childLabel used child = validateLabel (some (.str (numberedLabel child.base n))) "child label" := by
  unfold childLabel
  rw [hnone]
  by_cases hused : child.base ∈ used
  · have hsome : (firstFree (numberedLabel child.base) used (used.length + 1) 2).isSome = true :=
      firstFree_isSome (numberedLabel_injective child.base) 2 (Nat.lt_succ_self used.length)
    obtain ⟨n, hn⟩ := Option.isSome_iff_exists.mp hsome
    obtain ⟨hle, hfree, hpassed⟩ := firstFree_spec hn
    refine Or.inr ⟨hused, n, hle, hfree, hpassed, ?_⟩
    simp only [if_pos hused, hn, Option.elim_some]
  · refine Or.inl ⟨hused, ?_⟩
    simp only [if_neg hused]
    exact validateLabel_eq_ok.mpr ⟨isLabel_base child, rfl⟩

theorem childLabel_iff (hnone : child.requested = none) (used : List PyStr) :
    (∃ label, childLabel used child = .ok label ∧ isLabel label = true ∧ label ∉ used)
      ↔ HasRoom used child.base := by
  rcases childLabel_none hnone used with ⟨hfree, hlabel⟩ | ⟨hused, n, hn, hfree, hpassed, hlabel⟩
  · exact ⟨fun _ => Or.inl hfree, fun _ => ⟨child.base, hlabel, isLabel_base child, hfree⟩⟩
  · constructor
    · rintro ⟨label, hok, hvalid, -⟩
      rw [hlabel] at hok
      obtain ⟨hvalid, -⟩ := validateLabel_eq_ok.mp hok
      obtain ⟨hlast, hlength⟩ := (isLabel_numberedLabel (isLabel_base child) n).mp hvalid
      exact Or.inr ⟨hlast, n, hn, hlength, hfree⟩
    · rintro (hnot | ⟨hlast, m, hm, hlength, hfreeM⟩)
      · exact absurd hused hnot
      · -- the loop stops at the first free number, which is no longer than any other
        have hle : n ≤ m := not_lt.mp fun hlt => hfreeM (hpassed m hm hlt)
        have hshort : (numberedLabel child.base n).codes.length ≤ 48 := by
          refine le_trans ?_ hlength
          simp only [numberedLabel, List.length_append, List.length_cons]
          have := length_decimal_mono hle
          omega
        have hvalid := (isLabel_numberedLabel (isLabel_base child) n).mpr ⟨hlast, hshort⟩
        refine ⟨numberedLabel child.base n, ?_, hvalid, hfree⟩
        rw [hlabel]
        exact validateLabel_eq_ok.mpr ⟨hvalid, rfl⟩

/-- **Labels of spawned children**: in every sequence of children, those who ask for no label are all
given one that is accepted and new if and only if there is room for each of them. -/
theorem labels_given (children : List LabelledChild) :
    (∀ before child after, children = before ++ child :: after → child.requested = none →
      ∃ label, childLabel (labelsGiven [] before) child = .ok label ∧ isLabel label = true
        ∧ label ∉ labelsGiven [] before)
    ↔ ∀ before child after, children = before ++ child :: after → child.requested = none →
      HasRoom (labelsGiven [] before) child.base := by
  constructor
  · intro h before child after hsplit hnone
    exact (childLabel_iff hnone _).mp (h before child after hsplit hnone)
  · intro h before child after hsplit hnone
    exact (childLabel_iff hnone _).mpr (h before child after hsplit hnone)

def hyphenTagged : LabelledChild where
  requested := none
  tag := some "relax-"
  registered := true
  validTag := by decide

/-- **Two children with the tag `relax-`**: the second one is refused, as `relax--2`. -/
theorem hyphenTagged_refused :
    ¬∀ children : List LabelledChild, ∀ before child after, children = before ++ child :: after →
      child.requested = none → ∃ label, childLabel (labelsGiven [] before) child = .ok label
        ∧ isLabel label = true ∧ label ∉ labelsGiven [] before := by
  intro h
  obtain ⟨label, hlabel, -, -⟩ := h [hyphenTagged, hyphenTagged] [hyphenTagged] hyphenTagged [] rfl rfl
  have hrefused : (childLabel (labelsGiven [] [hyphenTagged]) hyphenTagged).toOption = none := by decide +kernel
  rw [hlabel] at hrefused
  cases hrefused
