import HttkWorkflow.SegmentWriter

/-!
# The codec of record references

A record reference is one text of five fields, and references are compared as
texts, in the names of markers and in the guards of requests. That is sound if
there is one text for a reference, so that what `parse_record_ref` accepts
should be what `encode_record_ref` writes.

What is written is always read back. What is read is matched against a pattern
that says of a number how many digits it has and nothing else: zeros may stand
in front of it, and seven or thirteen digits reach beyond the 32 and 64 bits
of the fields. A text is treated as it should be exactly if its numerals are
without leading zeros and within their fields (`recordRef_codec`).
-/

open Numerals

/-- `str(uuid.UUID(hex=digits))`. -/
def uuidText (digits : List Char) : List Char :=
  ['-'].intercalate [digits.take 8, (digits.drop 8).take 4, (digits.drop 12).take 4, (digits.drop 16).take 4,
    digits.drop 20]

/-- `writer_id.replace("-", "")`. -/
def uuidDigits (writerId : List Char) : List Char := writerId.filter (· ≠ '-')

/-- **`encode_record_ref`**, with the writer's id as text and the whole checksum. -/
def encodeRecordRef (writerId : List Char) (segment offset length : ℕ) (checksum : Bytes) : PyStr :=
  (HwRef.mk (uuidDigits writerId) segment offset length (hex (checksum.take 16))).reference

/-- **What `parse_record_ref` returns.** -/
structure RecordRefParts where
  writerId : List Char
  segment : ℕ
  offset : ℕ
  length : ℕ
  checksum : List Char
deriving DecidableEq, Repr

def HwRef.parts (r : HwRef) : RecordRefParts := ⟨uuidText r.writer, r.segment, r.offset, r.length, r.checksum⟩

/-- **`parse_record_ref`**, of any string. -/
def parseRecordRefParts (text : PyStr) : Except Exc RecordRefParts := (parseReference text).map HwRef.parts

namespace RecordRefParts

/-- **A value within the documented widths**: 32 bits for the segment, 64 for the offset and the length. -/
structure InRange (v : RecordRefParts) : Prop where
  writerId : ∃ digits : List Char, digits.all isHex = true ∧ digits.length = 32 ∧ v.writerId = uuidText digits
  segment : v.segment < 2 ^ 32
  offset : v.offset < 2 ^ 64
  length : v.length < 2 ^ 64
  checksum : v.checksum.all isHex = true ∧ v.checksum.length = 32

/-- **The text encodes the value**, for some checksum whose first half the value holds. -/
def EncodedAs (v : RecordRefParts) (text : PyStr) : Prop :=
  ∃ checksum : Bytes, checksum.length = 32 ∧ hex (checksum.take 16) = v.checksum
    ∧ encodeRecordRef v.writerId v.segment v.offset v.length checksum = text

end RecordRefParts

/-- The numerals of a text that matches `_REF_PATTERN`: segment, offset and length. -/
def refNumerals (text : PyStr) : Option (List Char × List Char × List Char) :=
  match text.chars.map (List.splitOn '-') with
  | some [w, s, o, l, h] => do
    let _ ← refGroup 'w' isHex 32 32 w
    let segment ← refGroup 's' isBase36 1 7 s
    let offset ← refGroup 'o' isBase36 1 13 o
    let length ← refGroup 'l' isBase36 1 13 l
    let _ ← refGroup 'h' isHex 32 32 h
    some (segment, offset, length)
  | _ => none

/-- **A numeral of a field**: without leading zeros, and below the field's bound. -/
def PlainNumeral (bound : ℕ) (numeral : List Char) : Prop := Shortest numeral ∧ ofBase36 numeral < bound

/-! ## The five groups -/

theorem refGroup_some {letter : Char} {ok : Char → Bool} {least most : ℕ} {text group : List Char}
    (h : refGroup letter ok least most text = some group) :
    text = letter :: group ∧ group.all ok = true ∧ least ≤ group.length ∧ group.length ≤ most := by
  cases text with
  | nil => cases h
  | cons c text =>
    simp only [refGroup] at h
    split_ifs at h with hc
    obtain rfl := Option.some.inj h
    exact ⟨by rw [hc.1], hc.2⟩

/-- **A text that matches `_REF_PATTERN`**, with its groups. -/
structure RefMatch (text : List Char) (writer segment offset length checksum : List Char) : Prop where
  text : text = ['-'].intercalate ['w' :: writer, 's' :: segment, 'o' :: offset, 'l' :: length, 'h' :: checksum]
  writer : writer.all isHex = true ∧ writer.length = 32
  segment : segment.all isBase36 = true ∧ 1 ≤ segment.length ∧ segment.length ≤ 7
  offset : offset.all isBase36 = true ∧ 1 ≤ offset.length ∧ offset.length ≤ 13
  length : length.all isBase36 = true ∧ 1 ≤ length.length ∧ length.length ≤ 13
  checksum : checksum.all isHex = true ∧ checksum.length = 32

section Matches

variable {text writer segment offset length checksum : List Char}

theorem RefMatch.of_splitOn {w s o l h : List Char} (hsplit : text.splitOn '-' = [w, s, o, l, h])
    (hw : refGroup 'w' isHex 32 32 w = some writer) (hs : refGroup 's' isBase36 1 7 s = some segment)
    (ho : refGroup 'o' isBase36 1 13 o = some offset) (hl : refGroup 'l' isBase36 1 13 l = some length)
    (hh : refGroup 'h' isHex 32 32 h = some checksum) : RefMatch text writer segment offset length checksum := by
  obtain ⟨rfl, hwriter, hwleast, hwmost⟩ := refGroup_some hw
  obtain ⟨rfl, hsegment⟩ := refGroup_some hs
  obtain ⟨rfl, hoffset⟩ := refGroup_some ho
  obtain ⟨rfl, hlength⟩ := refGroup_some hl
  obtain ⟨rfl, hchecksum, hhleast, hhmost⟩ := refGroup_some hh
  refine ⟨?_, ⟨hwriter, le_antisymm hwmost hwleast⟩, hsegment, hoffset, hlength, ⟨hchecksum, le_antisymm hhmost hhleast⟩⟩
  rw [← hsplit, List.intercalate_splitOn]

theorem RefMatch.splitOn (h : RefMatch text writer segment offset length checksum) :
    text.splitOn '-' = ['w' :: writer, 's' :: segment, 'o' :: offset, 'l' :: length, 'h' :: checksum] := by
  rw [h.text]
  exact splitOn_groups h.writer.1 h.segment.1 h.offset.1 h.length.1 h.checksum.1

def matched (writer segment offset length checksum : List Char) : HwRef :=
  ⟨writer, ofBase36 segment, ofBase36 offset, ofBase36 length, checksum⟩

theorem RefMatch.groups (h : RefMatch text writer segment offset length checksum) :
    refGroups text = some (matched writer segment offset length checksum) := by
  unfold refGroups
  rw [h.splitOn]
  simp only
  rw [refGroup_eq_some h.writer.1 h.writer.2.ge h.writer.2.le,
    refGroup_eq_some h.segment.1 h.segment.2.1 h.segment.2.2, refGroup_eq_some h.offset.1 h.offset.2.1 h.offset.2.2,
    refGroup_eq_some h.length.1 h.length.2.1 h.length.2.2,
    refGroup_eq_some h.checksum.1 h.checksum.2.ge h.checksum.2.le]
  rfl

theorem RefMatch.of_groups {r : HwRef} (h : refGroups text = some r) : ∃ writer segment offset length checksum,
    RefMatch text writer segment offset length checksum ∧ r = matched writer segment offset length checksum := by
  unfold refGroups at h
  split at h
  · rename_i w s o l c hsplit
    obtain ⟨writer, hw, h⟩ := Option.bind_eq_some_iff.mp h
    obtain ⟨segment, hs, h⟩ := Option.bind_eq_some_iff.mp h
    obtain ⟨offset, ho, h⟩ := Option.bind_eq_some_iff.mp h
    obtain ⟨length, hl, h⟩ := Option.bind_eq_some_iff.mp h
    obtain ⟨checksum, hc, h⟩ := Option.bind_eq_some_iff.mp h
    exact ⟨writer, segment, offset, length, checksum, .of_splitOn hsplit hw hs ho hl hc, (Option.some.inj h).symm⟩
  · cases h

theorem toNat_ofNat {c : ℕ} (h : c.isValidChar) : (Char.ofNat c).toNat = c := by
  unfold Char.ofNat
  rw [dif_pos h]
  rfl

variable {t : PyStr}

theorem chars_some {cs : List Char} (h : t.chars = some cs) : t = ⟨cs.map Char.toNat⟩ := by
  have hcodes : ∀ (codes : List ℕ) (cs : List Char),
      (codes.mapM fun c => if c.isValidChar then some (Char.ofNat c) else none) = some cs →
      codes = cs.map Char.toNat := by
    intro codes
    induction codes with
    | nil =>
      intro cs h
      obtain rfl := Option.some.inj h
      rfl
    | cons c codes ih =>
      intro cs h
      rw [List.mapM_cons] at h
      obtain ⟨d, hd, h⟩ := Option.bind_eq_some_iff.mp h
      obtain ⟨ds, hds, h⟩ := Option.bind_eq_some_iff.mp h
      obtain rfl := Option.some.inj h
      split_ifs at hd with hvalid
      obtain rfl := Option.some.inj hd
      rw [List.map_cons, ← ih ds hds, toNat_ofNat hvalid]
  exact congrArg PyStr.mk (hcodes t.codes cs h)

/-- **The strings that are accepted** are the matches. -/
theorem parseRecordRefParts_ok {v : RecordRefParts} :
    parseRecordRefParts t = .ok v ↔ ∃ text writer segment offset length checksum,
      t = ⟨text.map Char.toNat⟩ ∧ RefMatch text writer segment offset length checksum
        ∧ v = (matched writer segment offset length checksum).parts := by
  unfold parseRecordRefParts parseReference
  constructor
  · intro h
    cases hchars : t.chars with
    | none =>
      rw [hchars] at h
      cases h
    | some text =>
      rw [hchars] at h
      cases hgroups : refGroups text with
      | none =>
        simp only [parseRecordRef, hgroups] at h
        cases h
      | some r =>
        simp only [parseRecordRef, hgroups] at h
        obtain rfl := Except.ok.inj h
        obtain ⟨writer, segment, offset, length, checksum, hmatch, rfl⟩ := RefMatch.of_groups hgroups
        exact ⟨text, writer, segment, offset, length, checksum, chars_some hchars, hmatch, rfl⟩
  · rintro ⟨text, writer, segment, offset, length, checksum, rfl, hmatch, rfl⟩
    rw [chars_map]
    simp only [parseRecordRef, hmatch.groups]
    rfl

theorem refNumerals_some : refNumerals t = some (segment, offset, length) ↔
    ∃ text writer checksum, t = ⟨text.map Char.toNat⟩ ∧ RefMatch text writer segment offset length checksum := by
  unfold refNumerals
  constructor
  · intro h
    cases hchars : t.chars with
    | none =>
      rw [hchars] at h
      cases h
    | some text =>
      rw [hchars, Option.map_some] at h
      split at h
      · rename_i w s o l c hsplit
        obtain ⟨writer, hw, h⟩ := Option.bind_eq_some_iff.mp h
        obtain ⟨segment', hs, h⟩ := Option.bind_eq_some_iff.mp h
        obtain ⟨offset', ho, h⟩ := Option.bind_eq_some_iff.mp h
        obtain ⟨length', hl, h⟩ := Option.bind_eq_some_iff.mp h
        obtain ⟨checksum, hc, h⟩ := Option.bind_eq_some_iff.mp h
        simp only [Option.some.injEq, Prod.mk.injEq] at h
        obtain ⟨rfl, rfl, rfl⟩ := h
        exact ⟨text, writer, checksum, chars_some hchars, .of_splitOn (Option.some.inj hsplit) hw hs ho hl hc⟩
      · cases h
  · rintro ⟨text, writer, checksum, rfl, hmatch⟩
    rw [chars_map, Option.map_some, hmatch.splitOn]
    simp only
    rw [refGroup_eq_some hmatch.writer.1 hmatch.writer.2.ge hmatch.writer.2.le,
      refGroup_eq_some hmatch.segment.1 hmatch.segment.2.1 hmatch.segment.2.2,
      refGroup_eq_some hmatch.offset.1 hmatch.offset.2.1 hmatch.offset.2.2,
      refGroup_eq_some hmatch.length.1 hmatch.length.2.1 hmatch.length.2.2,
      refGroup_eq_some hmatch.checksum.1 hmatch.checksum.2.ge hmatch.checksum.2.le]
    rfl

/-! ## Writing -/

variable {digits : List Char}

theorem uuidDigits_uuidText (h : digits.all isHex = true) : uuidDigits (uuidText digits) = digits := by
  have hplain : ∀ part : List Char, (∀ c ∈ part, c ∈ digits) → part.filter (· ≠ '-') = part := by
    intro part hpart
    refine List.filter_eq_self.mpr fun c hc => decide_eq_true ?_
    rintro rfl
    cases List.all_eq_true.mp h _ (hpart _ hc)
  have hdrop : ∀ n k, ((digits.drop n).take k).filter (· ≠ '-') = (digits.drop n).take k := fun n k =>
    hplain _ fun c hc => List.mem_of_mem_drop (List.mem_of_mem_take hc)
  have hrest : ∀ n, (digits.drop n).take 4 ++ digits.drop (n + 4) = digits.drop n := fun n => by
    rw [← List.drop_drop, List.take_append_drop]
  have htext : uuidText digits = digits.take 8 ++ '-' :: ((digits.drop 8).take 4 ++ '-' ::
      ((digits.drop 12).take 4 ++ '-' :: ((digits.drop 16).take 4 ++ '-' :: digits.drop 20))) := by
    simp [uuidText, List.intercalate]
  unfold uuidDigits
  rw [htext]
  simp only [List.filter_append, List.filter_cons, hdrop, ne_eq, not_true_eq_false, decide_false, Bool.false_eq_true,
    if_false, hplain _ fun c hc => List.mem_of_mem_take hc, hplain _ fun c hc => List.mem_of_mem_drop hc]
  rw [hrest 16, hrest 12, hrest 8, List.take_append_drop]

theorem encodeRecordRef_uuidText (h : digits.all isHex = true) (segment offset length : ℕ)
    (checksum : Bytes) : encodeRecordRef (uuidText digits) segment offset length checksum
      = (HwRef.mk digits segment offset length (hex (checksum.take 16))).reference := by
  unfold encodeRecordRef
  rw [uuidDigits_uuidText h]

theorem RefMatch.encodedAs (h : RefMatch text writer segment offset length checksum) :
    (matched writer segment offset length checksum).parts.EncodedAs ⟨text.map Char.toNat⟩
      ↔ Shortest segment ∧ Shortest offset ∧ Shortest length := by
  have hsegment := toBase36_ofBase36 h.segment.1 h.segment.2.1
  have hoffset := toBase36_ofBase36 h.offset.1 h.offset.2.1
  have hlength := toBase36_ofBase36 h.length.1 h.length.2.1
  constructor
  · rintro ⟨sum, -, hsum, hencoded⟩
    have hsum : hex (sum.take 16) = checksum := hsum
    have hencoded : encodeRecordRef (uuidText writer) (ofBase36 segment) (ofBase36 offset) (ofBase36 length) sum
        = ⟨text.map Char.toNat⟩ := hencoded
    rw [encodeRecordRef_uuidText h.writer.1, hsum] at hencoded
    have htext : (matched writer segment offset length checksum).text = text :=
      Option.some.inj ((chars_map _).symm.trans ((congrArg PyStr.chars hencoded).trans (chars_map _)))
    have hsplit := (splitOn_groups h.writer.1 (toBase36_all _) (toBase36_all _) (toBase36_all _)
      h.checksum.1).symm.trans ((congrArg _ htext).trans h.splitOn)
    simp only [List.cons.injEq, true_and, and_true] at hsplit
    obtain ⟨hs, ho, hl⟩ := hsplit
    exact ⟨hsegment.mp hs, hoffset.mp ho, hlength.mp hl⟩
  · rintro ⟨hs, ho, hl⟩
    have hchecksum : checksum.length = 2 * 16 := h.checksum.2
    obtain ⟨half, hhalf, hhex⟩ := exists_hex h.checksum.1 hchecksum
    have htake : (half ++ List.replicate 16 0).take 16 = half := by
      rw [← hhalf, List.take_left]
    refine ⟨half ++ List.replicate 16 0, by simp [hhalf], ?_, ?_⟩
    · rw [htake]
      exact hhex
    · show encodeRecordRef (uuidText writer) (ofBase36 segment) (ofBase36 offset) (ofBase36 length) _ = _
      rw [encodeRecordRef_uuidText h.writer.1, htake, hhex, h.text]
      unfold HwRef.reference HwRef.text
      simp only [hsegment.mpr hs, hoffset.mpr ho, hlength.mpr hl]

end Matches

/-! ## The codec -/

variable {t : PyStr} {v : RecordRefParts}

theorem RecordRefParts.InRange.match_of_encodedAs (hv : v.InRange)
    (h : v.EncodedAs t) : ∃ text writer, t = ⟨text.map Char.toNat⟩
      ∧ RefMatch text writer (toBase36 v.segment) (toBase36 v.offset) (toBase36 v.length) v.checksum
      ∧ v.writerId = uuidText writer := by
  obtain ⟨sum, -, hsum, rfl⟩ := h
  obtain ⟨writer, hhex, hlength, hwriter⟩ := hv.writerId
  refine ⟨(HwRef.mk writer v.segment v.offset v.length v.checksum).text, writer, ?_, ?_, hwriter⟩
  · rw [hwriter, encodeRecordRef_uuidText hhex, hsum]
    rfl
  · exact ⟨rfl, ⟨hhex, hlength⟩,
      ⟨toBase36_all _, toBase36_pos _, length_toBase36_le (lt_trans hv.segment (by norm_num))⟩,
      ⟨toBase36_all _, toBase36_pos _, length_toBase36_le (lt_trans hv.offset (by norm_num))⟩,
      ⟨toBase36_all _, toBase36_pos _, length_toBase36_le (lt_trans hv.length (by norm_num))⟩, hv.checksum⟩

/-- **What is written is read back.** -/
theorem RecordRefParts.InRange.parse (hv : v.InRange) (h : v.EncodedAs t) : parseRecordRefParts t = .ok v := by
  obtain ⟨text, writer, rfl, hmatch, hwriter⟩ := hv.match_of_encodedAs h
  refine parseRecordRefParts_ok.mpr ⟨text, writer, _, _, _, _, rfl, hmatch, ?_⟩
  unfold matched HwRef.parts
  simp only [ofBase36_toBase36, ← hwriter]

/-- **A string is treated as a canonical codec treats it**: it is accepted if it is the encoding of a value in
range, and what is read of it is written as it was. -/
def CanonicallyRead (t : PyStr) : Prop :=
  ((∃ v, parseRecordRefParts t = .ok v) ↔ ∃ v : RecordRefParts, v.InRange ∧ v.EncodedAs t)
    ∧ ∀ v, parseRecordRefParts t = .ok v → v.EncodedAs t

/-- **Its numerals are plain**: without leading zeros, and within their fields. -/
def PlainNumerals (t : PyStr) : Prop := ∀ segment offset length, refNumerals t = some (segment, offset, length) →
  PlainNumeral (2 ^ 32) segment ∧ PlainNumeral (2 ^ 64) offset ∧ PlainNumeral (2 ^ 64) length

theorem plainNumerals_of_canonicallyRead (h : CanonicallyRead t) : PlainNumerals t := by
  intro segment offset length hnumerals
  obtain ⟨text, writer, checksum, rfl, hmatch⟩ := refNumerals_some.mp hnumerals
  have hparsed := parseRecordRefParts_ok.mpr ⟨text, writer, segment, offset, length, checksum, rfl, hmatch, rfl⟩
  obtain ⟨v, hrange, hencoded⟩ := h.1.mp ⟨_, hparsed⟩
  obtain rfl := Except.ok.inj ((hrange.parse hencoded).symm.trans hparsed)
  obtain ⟨hs, ho, hl⟩ := hmatch.encodedAs.mp hencoded
  exact ⟨⟨hs, hrange.segment⟩, ⟨ho, hrange.offset⟩, ⟨hl, hrange.length⟩⟩

theorem canonicallyRead_of_plainNumerals (h : PlainNumerals t) : CanonicallyRead t := by
  have hread : ∀ v, parseRecordRefParts t = .ok v → v.InRange ∧ v.EncodedAs t := by
    intro v hparsed
    obtain ⟨text, writer, segment, offset, length, checksum, rfl, hmatch, rfl⟩ := parseRecordRefParts_ok.mp hparsed
    obtain ⟨hs, ho, hl⟩ := h segment offset length (refNumerals_some.mpr ⟨text, writer, checksum, rfl, hmatch⟩)
    exact ⟨⟨⟨writer, hmatch.writer.1, hmatch.writer.2, rfl⟩, hs.2, ho.2, hl.2, hmatch.checksum⟩,
      hmatch.encodedAs.mpr ⟨hs.1, ho.1, hl.1⟩⟩
  refine ⟨⟨?_, ?_⟩, fun v hparsed => (hread v hparsed).2⟩
  · rintro ⟨v, hparsed⟩
    exact ⟨v, hread v hparsed⟩
  · rintro ⟨v, hrange, hencoded⟩
    exact ⟨v, hrange.parse hencoded⟩

/-- **The codec of record references.** A string is accepted exactly as an encoding, and written back as it was, if
and only if its numerals are plain; and every value in range, written, is read back. -/
theorem recordRef_codec (t : PyStr) (v : RecordRefParts) :
    (CanonicallyRead t ↔ PlainNumerals t) ∧ (v.InRange → v.EncodedAs t → parseRecordRefParts t = .ok v) :=
  ⟨⟨plainNumerals_of_canonicallyRead, canonicallyRead_of_plainNumerals⟩,
    fun hrange hencoded => hrange.parse hencoded⟩

namespace PaddedReference

/-- A reference whose segment is written with a zero too many. -/
def text : PyStr :=
  "w00000000000000000000000000000001-s00-oc-l2-h00000000000000000000000000000002"

def value : RecordRefParts :=
  ⟨"00000000-0000-0000-0000-000000000001".toList, 0, 12, 2, "00000000000000000000000000000002".toList⟩

def checksum : Bytes := List.replicate 15 0 ++ [2] ++ List.replicate 16 0

end PaddedReference

/-- The reference of the first frame of a segment. -/
theorem recordRef_codec_first : parseRecordRefParts
    (encodeRecordRef PaddedReference.value.writerId 0 12 2 PaddedReference.checksum) = .ok PaddedReference.value := by
  have hrange : PaddedReference.value.InRange :=
    ⟨⟨"00000000000000000000000000000001".toList, by decide, by decide, by decide⟩, by decide, by decide, by decide,
      by decide, by decide⟩
  exact (recordRef_codec _ PaddedReference.value).2 hrange ⟨PaddedReference.checksum, by decide, by decide, rfl⟩

/-- **Zeros in front of a numeral are accepted**, though no value is written with them. -/
theorem padded_reference_accepted : ¬∀ t, CanonicallyRead t := by
  intro h
  have hplain := plainNumerals_of_canonicallyRead (h PaddedReference.text)
  have hnumerals : refNumerals PaddedReference.text = some (['0', '0'], ['c'], ['2']) := by decide
  obtain ⟨hshort, -⟩ := (hplain _ _ _ hnumerals).1
  revert hshort
  decide
