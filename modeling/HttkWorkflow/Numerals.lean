import Mathlib.Data.Nat.Digits.Lemmas

/-!
# Numbers as bytes and as text

Two ways to write a number down, with what reads it back. `beBytes k n` is
the unsigned big-endian encoding in `k` bytes, of every number below
`256 ^ k`. `toBase36 n` is the shortest lowercase base-36 numeral. Hexadecimal
is only ever written here, two digits for a byte.
-/

namespace Numerals

/-- **The big-endian encoding** of a number in a given number of bytes. -/
def beBytes : ℕ → ℕ → List UInt8
  | 0, _ => []
  | k + 1, n => UInt8.ofNat (n / 256 ^ k) :: beBytes k (n % 256 ^ k)

/-- The number a big-endian encoding stands for. -/
def ofBytes : List UInt8 → ℕ
  | [] => 0
  | b :: bs => b.toNat * 256 ^ bs.length + ofBytes bs

@[simp] theorem length_beBytes (k n : ℕ) : (beBytes k n).length = k := by
  induction k generalizing n with
  | zero => rfl
  | succ k ih => rw [beBytes, List.length_cons, ih]

theorem ofBytes_beBytes {k n : ℕ} (h : n < 256 ^ k) : ofBytes (beBytes k n) = n := by
  induction k generalizing n with
  | zero =>
    rw [pow_zero, Nat.lt_one_iff] at h
    exact h.symm
  | succ k ih =>
    have hpos : 0 < 256 ^ k := Nat.pow_pos (by decide)
    have hhead : n / 256 ^ k < 256 := (Nat.div_lt_iff_lt_mul hpos).mpr (by rwa [← Nat.pow_succ'])
    have hbyte : (UInt8.ofNat (n / 256 ^ k)).toNat = n / 256 ^ k := by
      rw [UInt8.toNat_ofNat']
      exact Nat.mod_eq_of_lt hhead
    rw [beBytes, ofBytes, length_beBytes, ih (Nat.mod_lt n hpos), hbyte, Nat.mul_comm]
    exact Nat.div_add_mod n (256 ^ k)

/-- The digit of a value below 36. -/
def digitChar (d : ℕ) : Char :=
  if d < 10 then Char.ofNat ('0'.toNat + d) else Char.ofNat ('a'.toNat + (d - 10))

def digitValue (c : Char) : ℕ :=
  if c.toNat ≤ '9'.toNat then c.toNat - '0'.toNat else c.toNat - 'a'.toNat + 10

/-- `[0-9a-z]`. -/
def isBase36 (c : Char) : Bool := ('0' ≤ c && c ≤ '9') || ('a' ≤ c && c ≤ 'z')

/-- `[0-9a-f]`. -/
def isHex (c : Char) : Bool := ('0' ≤ c && c ≤ '9') || ('a' ≤ c && c ≤ 'f')

theorem digitValue_digitChar : ∀ {d : ℕ}, d < 36 → digitValue (digitChar d) = d := by
  decide

theorem isBase36_digitChar : ∀ {d : ℕ}, d < 36 → isBase36 (digitChar d) = true := by
  decide

theorem isHex_digitChar : ∀ {d : ℕ}, d < 16 → isHex (digitChar d) = true := by
  decide

/-- **`to_base36`.** -/
def toBase36 (n : ℕ) : List Char :=
  if n = 0 then ['0'] else ((Nat.digits 36 n).map digitChar).reverse

/-- `int(text, 36)`, of base-36 digits. -/
def ofBase36 (text : List Char) : ℕ := Nat.ofDigits 36 (text.reverse.map digitValue)

theorem ofBase36_toBase36 (n : ℕ) : ofBase36 (toBase36 n) = n := by
  unfold ofBase36 toBase36
  split_ifs with h
  · rw [h]
    decide
  · have hvalues : ((Nat.digits 36 n).map digitChar).map digitValue = Nat.digits 36 n := by
      rw [List.map_map]
      refine (List.map_congr_left fun d hd => ?_).trans (List.map_id _)
      exact digitValue_digitChar (Nat.digits_lt_base (by decide) hd)
    rw [List.reverse_reverse, hvalues, Nat.ofDigits_digits]

theorem toBase36_all (n : ℕ) : (toBase36 n).all isBase36 = true := by
  unfold toBase36
  split_ifs
  · decide
  · rw [List.all_reverse, List.all_map, List.all_eq_true]
    exact fun d hd => isBase36_digitChar (Nat.digits_lt_base (by decide) hd)

theorem toBase36_pos (n : ℕ) : 1 ≤ (toBase36 n).length := by
  unfold toBase36
  split_ifs with h
  · exact le_rfl
  · rw [List.length_reverse, List.length_map]
    exact List.length_pos_iff.mpr (Nat.digits_ne_nil_iff_ne_zero.mpr h)

theorem length_toBase36_le {n k : ℕ} (h : n < 36 ^ (k + 1)) : (toBase36 n).length ≤ k + 1 := by
  unfold toBase36
  split_ifs
  · exact Nat.le_add_left 1 k
  · rw [List.length_reverse, List.length_map]
    exact (Nat.digits_length_le_iff (by decide) n).mpr h

/-! ### What is read is what was written -/

variable {c : Char}

theorem digitValue_lt (h : isBase36 c = true) : digitValue c < 36 := by
  unfold isBase36 at h
  unfold digitValue
  simp only [Bool.or_eq_true, Bool.and_eq_true, decide_eq_true_eq, Char.le_def, UInt32.le_iff_toNat_le] at h
  simp only [Char.toNat]
  have h0 : '0'.val.toNat = 48 := rfl
  have h9 : '9'.val.toNat = 57 := rfl
  have ha : 'a'.val.toNat = 97 := rfl
  have hz : 'z'.val.toNat = 122 := rfl
  split_ifs <;> omega

theorem digitChar_digitValue (h : isBase36 c = true) : digitChar (digitValue c) = c := by
  have hvalue : digitChar (digitValue c) = Char.ofNat c.toNat := by
    unfold isBase36 at h
    unfold digitChar digitValue
    simp only [Bool.or_eq_true, Bool.and_eq_true, decide_eq_true_eq, Char.le_def, UInt32.le_iff_toNat_le] at h
    simp only [Char.toNat]
    have h0 : '0'.val.toNat = 48 := rfl
    have h9 : '9'.val.toNat = 57 := rfl
    have ha : 'a'.val.toNat = 97 := rfl
    have hz : 'z'.val.toNat = 122 := rfl
    split_ifs
    all_goals first | omega | (congr 1; omega)
  rw [hvalue, Char.ofNat_toNat]

theorem digitChar_ne_zero : ∀ {d : ℕ}, d < 36 → d ≠ 0 → digitChar d ≠ '0' := by
  decide

/-- **A numeral without leading zeros**, zero itself apart. -/
def Shortest (text : List Char) : Prop := text = ['0'] ∨ text.head? ≠ some '0'

instance (text : List Char) : Decidable (Shortest text) := inferInstanceAs (Decidable (_ ∨ _))

theorem toBase36_shortest (n : ℕ) : Shortest (toBase36 n) := by
  unfold toBase36
  split_ifs with h
  · exact Or.inl rfl
  · refine Or.inr ?_
    have hne : Nat.digits 36 n ≠ [] := Nat.digits_ne_nil_iff_ne_zero.mpr h
    rw [List.head?_reverse, List.getLast?_map, List.getLast?_eq_getLast_of_ne_nil hne]
    intro heq
    have hlt := Nat.digits_lt_base (by decide) (List.getLast_mem hne)
    exact digitChar_ne_zero hlt (Nat.getLast_digit_ne_zero 36 h) (Option.some.inj heq)

variable {text : List Char}

theorem toBase36_ofBase36 (hall : text.all isBase36 = true) (hpos : 1 ≤ text.length) :
    toBase36 (ofBase36 text) = text ↔ Shortest text := by
  have hdigit : ∀ c ∈ text, isBase36 c = true := List.all_eq_true.mp hall
  refine ⟨fun h => h ▸ toBase36_shortest _, ?_⟩
  rintro (rfl | hhead)
  · decide
  · have hvalues : (text.reverse.map digitValue).map digitChar = text.reverse := by
      rw [List.map_map]
      refine (List.map_congr_left fun c hc => ?_).trans (List.map_id _)
      exact digitChar_digitValue (hdigit c (List.mem_reverse.mp hc))
    have hdigits : Nat.digits 36 (ofBase36 text) = text.reverse.map digitValue := by
      refine Nat.digits_ofDigits 36 (by decide) _ (fun d hd => ?_) fun hne => ?_
      · obtain ⟨c, hc, rfl⟩ := List.mem_map.mp hd
        exact digitValue_lt (hdigit c (List.mem_reverse.mp hc))
      · obtain ⟨c, rest, rfl⟩ := List.exists_cons_of_length_pos hpos
        simp only [List.reverse_cons, List.map_append, List.map_cons, List.map_nil, List.getLast_append_singleton]
        intro hzero
        have hc : digitChar (digitValue c) = c := digitChar_digitValue (hdigit c List.mem_cons_self)
        rw [hzero] at hc
        exact hhead (congrArg some hc.symm)
    have hnonzero : ofBase36 text ≠ 0 := by
      intro hzero
      rw [hzero, Nat.digits_zero] at hdigits
      have hlength := congrArg List.length hdigits
      rw [List.length_map, List.length_reverse, List.length_nil] at hlength
      omega
    unfold toBase36
    rw [if_neg hnonzero, hdigits, hvalues, List.reverse_reverse]

/-! ## Hexadecimal -/

/-- `hex`: two digits for each byte. -/
def hex (bytes : List UInt8) : List Char :=
  bytes.flatMap fun b => [digitChar (b.toNat / 16), digitChar (b.toNat % 16)]

theorem hex_all (bytes : List UInt8) : (hex bytes).all isHex = true := by
  unfold hex
  rw [List.all_flatMap, List.all_eq_true]
  intro b _
  have hlow : b.toNat / 16 < 16 := Nat.div_lt_of_lt_mul (UInt8.toNat_lt b)
  have hhigh : b.toNat % 16 < 16 := Nat.mod_lt _ (by decide)
  simp only [List.all_cons, List.all_nil, isHex_digitChar hlow, isHex_digitChar hhigh, Bool.and_self]

@[simp] theorem length_hex (bytes : List UInt8) : (hex bytes).length = 2 * bytes.length := by
  unfold hex
  rw [List.length_flatMap]
  simp [Nat.mul_comm]

theorem isBase36_of_isHex (h : isHex c = true) : isBase36 c = true := by
  unfold isHex at h
  unfold isBase36
  simp only [Bool.or_eq_true, Bool.and_eq_true, decide_eq_true_eq, Char.le_def, UInt32.le_iff_toNat_le] at h ⊢
  have hf : 'f'.val.toNat = 102 := rfl
  have hz : 'z'.val.toNat = 122 := rfl
  omega

theorem hexValue_lt (h : isHex c = true) : digitValue c < 16 := by
  unfold isHex at h
  unfold digitValue
  simp only [Bool.or_eq_true, Bool.and_eq_true, decide_eq_true_eq, Char.le_def, UInt32.le_iff_toNat_le] at h
  simp only [Char.toNat]
  have h0 : '0'.val.toNat = 48 := rfl
  have h9 : '9'.val.toNat = 57 := rfl
  have ha : 'a'.val.toNat = 97 := rfl
  have hf : 'f'.val.toNat = 102 := rfl
  split_ifs <;> omega

theorem exists_hex {n : ℕ} (hall : text.all isHex = true) (hlength : text.length = 2 * n) :
    ∃ bytes : List UInt8, bytes.length = n ∧ hex bytes = text := by
  induction n generalizing text with
  | zero => exact ⟨[], rfl, (List.length_eq_zero_iff.mp hlength).symm⟩
  | succ n ih =>
    obtain ⟨high, low, rest, rfl⟩ : ∃ high low rest, text = high :: low :: rest := by
      match text with
      | high :: low :: rest => exact ⟨high, low, rest, rfl⟩
      | [] => simp at hlength
      | [_] => simp at hlength; omega
    simp only [List.all_cons, Bool.and_eq_true] at hall
    obtain ⟨hhigh, hlow, hrest⟩ := hall
    obtain ⟨bytes, hbytes, hhex⟩ := ih hrest (by simp only [List.length_cons] at hlength; omega)
    have hsmall : digitValue high * 16 + digitValue low < 256 := by
      have := hexValue_lt hhigh
      have := hexValue_lt hlow
      omega
    have hbyte : (UInt8.ofNat (digitValue high * 16 + digitValue low)).toNat
        = digitValue high * 16 + digitValue low := by
      rw [UInt8.toNat_ofNat']
      exact Nat.mod_eq_of_lt hsmall
    have hdiv : (digitValue high * 16 + digitValue low) / 16 = digitValue high := by
      have := hexValue_lt hlow
      omega
    have hmod : (digitValue high * 16 + digitValue low) % 16 = digitValue low := by
      have := hexValue_lt hlow
      omega
    refine ⟨UInt8.ofNat (digitValue high * 16 + digitValue low) :: bytes, by rw [List.length_cons, hbytes], ?_⟩
    unfold hex at hhex ⊢
    rw [List.flatMap_cons, hbyte, hdiv, hmod, hhex, digitChar_digitValue (isBase36_of_isHex hhigh),
      digitChar_digitValue (isBase36_of_isHex hlow)]
    rfl

end Numerals
