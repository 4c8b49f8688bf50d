import HttkWorkflow.JournalAgreement
import HttkWorkflow.SegmentStore

/-!
# Writers in the journal of a workspace

A process that appends to the journal has a writer of its own, with a UUID
no other has and with one open segment, the last of its directory.
`WriterIn` says that the files are what the writer believes they are.

Appending then does two things to the journal and nothing else: every file
keeps what it held, and the reference that is returned is read as the record
it was returned for (`WriterIn.append`).
-/

open Numerals Journal SegmentStore

def HwRef.reference (r : HwRef) : PyStr := ⟨r.text.map Char.toNat⟩

theorem chars_map (text : List Char) : PyStr.chars ⟨text.map Char.toNat⟩ = some text := by
  unfold PyStr.chars
  simp only
  induction text with
  | nil => rfl
  | cons c text ih =>
    have hc : c.toNat.isValidChar := c.valid
    rw [List.map_cons, List.mapM_cons, if_pos hc, Char.ofNat_toNat, ih]
    rfl

theorem parseReference_reference {r : HwRef} (h : r.Canonical) : parseReference r.reference = .ok r := by
  unfold parseReference HwRef.reference
  rw [chars_map]
  simp only [parseRecordRef, refGroups_text h]

namespace SegmentStore

def published (s : SegmentStore) (writer : JournalWriter) (clock : Rat) : SegmentStore :=
  s.put ⟨writer.writerId, writer.segmentNumber⟩ ⟨writer.current, clock, true⟩

/-- A journal after `append`. -/
def appended (env : JournalEnv Record) (s : SegmentStore) (writer : JournalWriter) (record : Record)
    (clock : Rat) : SegmentStore :=
  match writer.append env record with
  | .error _ => s
  | .ok (writer, _) => published s writer clock

/-- **A writer that appends to a journal.** -/
structure WriterIn (s : SegmentStore) (writer : JournalWriter) : Prop where
  id : writer.writerId.all isHex = true ∧ writer.writerId.length = 32
  number : writer.segmentNumber < 2 ^ 32
  header : ∃ body, writer.current = segmentHeader ++ body
  held : ∃ f, s.file ⟨writer.writerId, writer.segmentNumber⟩ = some f ∧ f.bytes = writer.current
  last : ∀ n, writer.segmentNumber < n → s.file ⟨writer.writerId, n⟩ = none

variable {env : JournalEnv Record} {s : SegmentStore} {writer : JournalWriter}

variable {p : SegmentKey × SegmentFile → Bool} {key : SegmentKey}

theorem extendsAt_restrict (h : ∀ f, s.file key = some f → p (key, f) = true) : ExtendsAt s (s.restrict p) key :=
  fun f hf => ⟨f, file_restrict.mpr ⟨hf, h f hf⟩, List.prefix_rfl⟩

theorem extendsAt_put {f' : SegmentFile} (h : ∀ f, s.file key = some f → f.bytes <+: f'.bytes) (key' : SegmentKey) :
    ExtendsAt s (s.put key f') key' := by
  intro f hf
  by_cases hkey : key' = key
  · subst hkey
    exact ⟨f', by rw [file_put, if_pos rfl], h f hf⟩
  · exact ⟨f, by rw [file_put, if_neg hkey, hf], List.prefix_rfl⟩

theorem file_published (s : SegmentStore) (writer : JournalWriter) (clock : Rat) (key : SegmentKey) :
    (published s writer clock).file key
      = if key = ⟨writer.writerId, writer.segmentNumber⟩ then some ⟨writer.current, clock, true⟩
        else s.file key :=
  file_put s _ key _

variable {clock : Rat}

variable {id : List Char}

/-- **A new writer** whose directory was not there. -/
theorem writerIn_start {maximum : ℕ}
    (hid : id.all isHex = true ∧ id.length = 32) (hunused : ∀ n, s.file ⟨id, n⟩ = none) :
    WriterIn (published s (JournalWriter.start id maximum) clock) (JournalWriter.start id maximum) where
  id := hid
  number := Nat.pow_pos (by decide)
  header := ⟨[], (List.append_nil _).symm⟩
  held := ⟨_, by rw [file_published, if_pos rfl], rfl⟩
  last := by
    intro n hn
    rw [file_published, if_neg fun h => (Nat.ne_of_gt hn) (congrArg SegmentKey.number h)]
    exact hunused n

theorem extendsAt_start {maximum : ℕ} (hunused : ∀ n, s.file ⟨id, n⟩ = none) (key : SegmentKey) :
    ExtendsAt s (published s (JournalWriter.start id maximum) clock) key :=
  extendsAt_put (fun f hf => by
    have hnone : s.file ⟨id, 0⟩ = none := hunused 0
    rw [show (⟨(JournalWriter.start id maximum).writerId,
      (JournalWriter.start id maximum).segmentNumber⟩ : SegmentKey) = ⟨id, 0⟩ from rfl, hnone] at hf
    cases hf) key

theorem rotate_cases {rotated : JournalWriter} {frameBytes : ℕ} (h : writer.rotateIfNeeded frameBytes = .ok rotated) :
    rotated = writer ∨ writer.segmentNumber + 1 ≤ 2 ^ 32 - 1 ∧
      rotated = { writer with closed := writer.closed ++ [writer.current], current := segmentHeader } := by
  unfold JournalWriter.rotateIfNeeded at h
  split_ifs at h with hempty hfits hnumber
  · exact Or.inl (Except.ok.inj h).symm
  · exact Or.inl (Except.ok.inj h).symm
  · exact Or.inr ⟨Nat.not_lt.mp hnumber, (Except.ok.inj h).symm⟩

variable {record : Record}

variable {writer' : JournalWriter}

/-- **What appending does to a journal**: the files keep what they held, the reference is read
as the record, and the writer goes on. -/
theorem WriterIn.append {r : HwRef} (h : WriterIn s writer) (happend : writer.append env record = .ok (writer', r)) :
    (∀ key, ExtendsAt s (published s writer' clock) key)
      ∧ (published s writer' clock).readRecord env r.reference = .ok record
      ∧ WriterIn (published s writer' clock) writer' := by
  obtain ⟨payload, rotated, hjson, hrotate, hsize, rfl, rfl⟩ := append_eq_ok happend
  -- the segment that is written, as it was before
  have hrotated : rotated.writerId = writer.writerId ∧ rotated.segmentNumber < 2 ^ 32
      ∧ (∃ body, rotated.current = segmentHeader ++ body)
      ∧ (∀ f, s.file ⟨rotated.writerId, rotated.segmentNumber⟩ = some f → f.bytes = rotated.current)
      ∧ ∀ n, rotated.segmentNumber < n → s.file ⟨rotated.writerId, n⟩ = none := by
    rcases rotate_cases hrotate with rfl | ⟨hnumber, rfl⟩
    · refine ⟨rfl, h.number, h.header, fun f hf => ?_, h.last⟩
      obtain ⟨g, hg, hbytes⟩ := h.held
      rw [← Option.some.inj (hg.symm.trans hf), hbytes]
    · have hnext : (writer.closed ++ [writer.current]).length = writer.segmentNumber + 1 :=
        List.length_append
      refine ⟨rfl, ?_, ⟨[], (List.append_nil _).symm⟩, fun f hf => ?_, fun n hn => ?_⟩
      · show (writer.closed ++ [writer.current]).length < 2 ^ 32
        omega
      · have hf : s.file ⟨writer.writerId, (writer.closed ++ [writer.current]).length⟩ = some f := hf
        rw [hnext, h.last _ (Nat.lt_succ_self _)] at hf
        cases hf
      · have hn : (writer.closed ++ [writer.current]).length < n := hn
        exact h.last n (by omega)
  obtain ⟨hwriter, hnumber, ⟨body, hbody⟩, hfile, hlast⟩ := hrotated
  have hsegment : rotated.closed.length = rotated.segmentNumber := rfl
  have hlength : payload.length < 2 ^ 63 := by
    rw [length_encodeFrame] at hsize
    omega
  have hcanonical : (frameRef env writer.writerId rotated.segmentNumber rotated.current.length payload).Canonical :=
    frameRef_canonical h.id hnumber (by omega) (by omega)
  have hopen : (published s { rotated with current := rotated.current ++ encodeFrame env payload }
      clock).file ⟨rotated.writerId, rotated.segmentNumber⟩
        = some ⟨rotated.current ++ encodeFrame env payload, clock, true⟩ := by
    rw [file_published]
    exact if_pos rfl
  refine ⟨extendsAt_put fun f hf => ?_, ?_, ⟨?_, hnumber, ?_, ⟨_, hopen, rfl⟩, fun n hn => ?_⟩⟩
  · exact hfile f hf ▸ List.prefix_append _ _
  · refine readRecord_eq_ok.mpr ⟨_, parseReference_reference hcanonical, ?_⟩
    have hkey : (frameRef env writer.writerId rotated.segmentNumber rotated.current.length
        payload).key = ⟨rotated.writerId, rotated.segmentNumber⟩ := by
      rw [hwriter]
      rfl
    rw [hkey, hopen, Option.map_some, hbody]
    have hread : readFrame env (some (segmentHeader ++ body ++ (encodeFrame env payload ++ [])))
        (segmentHeader ++ body).length _
        (frameRef env writer.writerId rotated.segmentNumber (segmentHeader ++ body).length
          payload).checksum = .ok record := readFrame_frame hjson (by omega) rfl
    rw [List.append_nil] at hread
    exact hread
  · exact hwriter ▸ h.id
  · exact ⟨body ++ encodeFrame env payload, by rw [hbody, List.append_assoc]⟩
  · rw [file_published, if_neg fun heq => (Nat.ne_of_gt hn) (congrArg SegmentKey.number heq)]
    exact hlast n hn

theorem WriterIn.segmentOf_append {r : HwRef}
    (h : WriterIn s writer) (happend : writer.append env record = .ok (writer', r)) :
    writer'.writerId = writer.writerId ∧ writer.segmentNumber ≤ writer'.segmentNumber
      ∧ segmentOf r.reference = some ⟨writer'.writerId, writer'.segmentNumber⟩ := by
  obtain ⟨payload, rotated, -, hrotate, hsize, rfl, rfl⟩ := append_eq_ok happend
  have hrotated : rotated.writerId = writer.writerId ∧ writer.segmentNumber ≤ rotated.segmentNumber
      ∧ rotated.segmentNumber < 2 ^ 32 := by
    rcases rotate_cases hrotate with rfl | ⟨hnumber, rfl⟩
    · exact ⟨rfl, le_rfl, h.number⟩
    · have hnext : (writer.closed ++ [writer.current]).length = writer.segmentNumber + 1 :=
        List.length_append
      refine ⟨rfl, ?_, ?_⟩
      · show writer.segmentNumber ≤ (writer.closed ++ [writer.current]).length
        omega
      · show (writer.closed ++ [writer.current]).length < 2 ^ 32
        omega
  obtain ⟨hwriter, hle, hnumber⟩ := hrotated
  rw [length_encodeFrame] at hsize
  refine ⟨hwriter, hle, ?_⟩
  unfold segmentOf
  rw [parseReference_reference (frameRef_canonical h.id hnumber (by omega) (by omega)), hwriter]
  rfl

theorem ne_init_of_read {reference : PyStr} (h : s.readRecord env reference = .ok record) : reference ≠ "init" := by
  rintro rfl
  obtain ⟨r, hr, -⟩ := readRecord_eq_ok.mp h
  cases hr

theorem WriterIn.extendsAt_appended (h : WriterIn s writer)
    (key : SegmentKey) : ExtendsAt s (appended env s writer record clock) key := by
  unfold appended
  cases happend : writer.append env record with
  | error e => exact extendsAt_refl s key
  | ok result => exact (h.append happend).1 key

theorem WriterIn.restrict (h : WriterIn s writer)
    (hkept : ∀ f, s.file ⟨writer.writerId, writer.segmentNumber⟩ = some f →
      p (⟨writer.writerId, writer.segmentNumber⟩, f) = true) : WriterIn (s.restrict p) writer where
  id := h.id
  number := h.number
  header := h.header
  held := by
    obtain ⟨f, hf, hbytes⟩ := h.held
    exact ⟨f, file_restrict.mpr ⟨hf, hkept f hf⟩, hbytes⟩
  last := fun n hn => Option.eq_none_iff_forall_ne_some.mpr fun f hf => by
    have hlast := h.last n hn
    rw [(file_restrict.mp hf).1] at hlast
    cases hlast

end SegmentStore
