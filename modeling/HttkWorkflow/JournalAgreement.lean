import HttkWorkflow.System
import HttkWorkflow.Journal

/-!
# What was appended is what is read

A writer appends records one after the other, whatever their sizes and
whatever the size of its segments. `Agrees` is what its readers may then
expect: each reference reads back its record, no two references are the
same, the walk over the segments finds the records with their references in
order, and the walk over segments of which the last is cut short finds those
that lie before the cut.

The layout of a segment is the relation `Laid` between its log and its
bytes; every reader is right about a laid segment, with one exception. The
walk believes no length above `MAXIMUM_FRAME_BYTES`, which the other two do
not know about, and stops at the first frame that has one.
-/

open Numerals Journal

variable {ρ : Type} {env : JournalEnv ρ} {payload : Bytes}

/-! ## One frame -/

@[simp] theorem length_frameChecksum : (frameChecksum env payload).length = 32 :=
  env.length_sha256 _

@[simp] theorem length_encodeFrame : (encodeFrame env payload).length = 8 + payload.length + 32 + 8 := by
  unfold encodeFrame
  simp only [List.length_append, length_beBytes, length_frameChecksum]

/-- Where the frame a reference names ends. -/
def HwRef.finish (r : HwRef) : ℕ := r.offset + (8 + r.length + 32 + 8)

@[simp] theorem frameRef_finish {writer : List Char} {segment offset : ℕ} :
    (frameRef env writer segment offset payload).finish
      = offset + (encodeFrame env payload).length := by
  rw [length_encodeFrame]
  rfl

section Parts

variable (post : Bytes)

theorem frame_length : (encodeFrame env payload ++ post).take 8 = beBytes 8 payload.length := by
  unfold encodeFrame
  simp only [List.append_assoc]
  exact List.take_left' (length_beBytes 8 _)

theorem frame_payload : ((encodeFrame env payload ++ post).drop 8).take payload.length = payload := by
  unfold encodeFrame
  simp only [List.append_assoc]
  rw [List.drop_left' (length_beBytes 8 _)]
  exact List.take_left' rfl

theorem frame_checksum : ((encodeFrame env payload ++ post).drop (8 + payload.length)).take 32
      = frameChecksum env payload := by
  unfold encodeFrame
  simp only [List.append_assoc]
  rw [← List.append_assoc, List.drop_left' (by simp)]
  exact List.take_left' length_frameChecksum

theorem frame_trailer : ((encodeFrame env payload ++ post).drop (8 + payload.length + 32)).take 8
      = beBytes 8 payload.length := by
  unfold encodeFrame
  rw [List.append_assoc (_ ++ _ ++ _), List.drop_left' (by simp [Nat.add_assoc])]
  exact List.take_left' (length_beBytes 8 _)

theorem frame_rest : (encodeFrame env payload ++ post).drop (8 + payload.length + 32 + 8) = post :=
  List.drop_left' length_encodeFrame

end Parts

theorem ofBytes_length (h : payload.length < 2 ^ 64) :
    ofBytes (beBytes 8 payload.length) = payload.length := ofBytes_beBytes h

variable {r : ρ}

theorem readFrame_frame {before post : Bytes} {offset : ℕ} {writer : List Char}
    {segment : ℕ} (hjson : env.jsonBytes r = .ok payload) (hlength : payload.length < 2 ^ 64)
    (hoffset : offset = (segmentHeader ++ before).length) :
    readFrame env (some (segmentHeader ++ before ++ (encodeFrame env payload ++ post))) offset
      (frameRef env writer segment offset payload).length
      (frameRef env writer segment offset payload).checksum = .ok r := by
  have hdrop : ∀ n, (segmentHeader ++ before ++ (encodeFrame env payload ++ post)).drop (offset + n)
      = (encodeFrame env payload ++ post).drop n := by
    intro n
    rw [hoffset, ← List.drop_drop, List.drop_left' rfl]
  have hstart : (segmentHeader ++ before ++ (encodeFrame env payload ++ post)).drop offset
      = encodeFrame env payload ++ post := hdrop 0
  have hheader : (segmentHeader ++ before ++ (encodeFrame env payload ++ post)).take
      segmentHeader.length = segmentHeader := by
    rw [List.append_assoc]
    exact List.take_left' rfl
  have hchecksum : env.sha256 (beBytes 8 payload.length ++ payload) = frameChecksum env payload := rfl
  unfold readFrame
  simp only [hheader, hstart, Nat.add_assoc offset, hdrop, frame_length, ofBytes_length hlength,
    frame_payload, frame_checksum, frame_trailer, length_beBytes, length_frameChecksum, hchecksum,
    frameRef, env.loads_jsonBytes r payload hjson, ne_eq, not_true_eq_false, if_false, or_self]

/-! ## One segment -/

/-- **How a log lies in the bytes of a segment** from an offset on. -/
inductive Laid (env : JournalEnv ρ) (writer : List Char) (segment : ℕ) :
    ℕ → List (HwRef × ρ) → Bytes → Prop where
  | nil (offset : ℕ) : Laid env writer segment offset [] []
  | cons {offset : ℕ} {r : ρ} {payload : Bytes} {log : List (HwRef × ρ)} {rest : Bytes}
      (hjson : env.jsonBytes r = .ok payload) (hlength : payload.length < 2 ^ 64)
      (h : Laid env writer segment (offset + (encodeFrame env payload).length) log rest) :
      Laid env writer segment offset ((frameRef env writer segment offset payload, r) :: log)
        (encodeFrame env payload ++ rest)

namespace Laid

variable {writer : List Char} {segment offset : ℕ} {log : List (HwRef × ρ)} {body : Bytes}

theorem snoc {r : ρ} (h : Laid env writer segment offset log body)
    (hjson : env.jsonBytes r = .ok payload) (hlength : payload.length < 2 ^ 64) :
    Laid env writer segment offset (log ++ [(frameRef env writer segment (offset + body.length) payload, r)])
      (body ++ encodeFrame env payload) := by
  induction h with
  | nil offset =>
    have hone : Laid env writer segment offset [(frameRef env writer segment offset payload, r)]
        (encodeFrame env payload ++ []) := cons hjson hlength (nil _)
    simpa using hone
  | @cons offset r₀ payload₀ log rest hjson₀ hlength₀ _ ih =>
    rw [List.cons_append, List.append_assoc, List.length_append, ← Nat.add_assoc]
    exact cons hjson₀ hlength₀ ih

theorem bounds (h : Laid env writer segment offset log body) : ∀ e ∈ log,
    e.fst.writer = writer ∧ e.fst.segment = segment ∧ offset ≤ e.fst.offset
      ∧ e.fst.finish ≤ offset + body.length := by
  induction h with
  | nil offset => exact fun e he => absurd he List.not_mem_nil
  | @cons offset r payload log rest hjson hlength _ ih =>
    intro e he
    rw [List.length_append]
    rcases List.mem_cons.mp he with rfl | he
    · exact ⟨rfl, rfl, le_rfl, by rw [frameRef_finish]; omega⟩
    · obtain ⟨hw, hs, hlow, hhigh⟩ := ih e he
      exact ⟨hw, hs, by omega, by omega⟩

theorem pairwise (h : Laid env writer segment offset log body) :
    log.Pairwise fun a b => a.fst.finish ≤ b.fst.offset := by
  induction h with
  | nil offset => exact List.Pairwise.nil
  | cons hjson hlength h ih =>
    refine List.pairwise_cons.mpr ⟨fun e he => ?_, ih⟩
    rw [frameRef_finish]
    exact (h.bounds e he).2.2.1

theorem located (h : Laid env writer segment offset log body) : ∀ e ∈ log, ∃ before payload post,
    body = before ++ (encodeFrame env payload ++ post) ∧ env.jsonBytes e.snd = .ok payload ∧ payload.length < 2 ^ 64
      ∧ e.fst = frameRef env writer segment (offset + before.length) payload := by
  induction h with
  | nil offset => exact fun e he => absurd he List.not_mem_nil
  | @cons offset r payload log rest hjson hlength _ ih =>
    intro e he
    rcases List.mem_cons.mp he with rfl | he
    · exact ⟨[], payload, rest, rfl, hjson, hlength, rfl⟩
    · obtain ⟨before, payload', post, rfl, hjson', hlength', href⟩ := ih e he
      refine ⟨encodeFrame env payload ++ before, payload', post, ?_, hjson', hlength', ?_⟩
      · rw [List.append_assoc]
      · rw [href, List.length_append, Nat.add_assoc]

theorem readFrame {e : HwRef × ρ} (h : Laid env writer segment segmentHeader.length log body) (he : e ∈ log) :
    Journal.readFrame env (some (segmentHeader ++ body)) e.fst.offset e.fst.length e.fst.checksum
      = .ok e.snd := by
  obtain ⟨before, payload, post, rfl, hjson, hlength, href⟩ := h.located e he
  rw [href, ← List.append_assoc]
  exact readFrame_frame hjson hlength (List.length_append).symm

end Laid

/-! ## The walk over a segment -/

section Walk

variable {writer : List Char} {segment offset fuel k : ℕ} {log : List (HwRef × ρ)} {body : Bytes}

theorem walkFrames_frame {r : ρ} {post : Bytes} (hjson : env.jsonBytes r = .ok payload)
    (hlength : payload.length < 2 ^ 64) (hmaximum : payload.length ≤ maximumFrameBytes) :
    walkFrames env writer segment (fuel + 1) offset (encodeFrame env payload ++ post)
      = (frameRef env writer segment offset payload, r) :: walkFrames env writer segment fuel
        (offset + (encodeFrame env payload).length) post := by
  have hchecksum : env.sha256 (beBytes 8 payload.length ++ payload) = frameChecksum env payload := rfl
  rw [walkFrames]
  simp only [frame_length, ofBytes_length hlength, frame_payload, frame_checksum, frame_trailer,
    frame_rest, length_beBytes, length_frameChecksum, hchecksum, env.loads_jsonBytes r payload hjson,
    ne_eq, not_true_eq_false, if_false, or_self, length_encodeFrame]
  rw [if_neg (Nat.not_lt.mpr hmaximum)]
  rfl

theorem walkFrames_torn (hk : k < (encodeFrame env payload).length) (hlength : payload.length < 2 ^ 64) :
    walkFrames env writer segment (fuel + 1) offset ((encodeFrame env payload).take k) = [] := by
  have hframe : (encodeFrame env payload).length = 8 + payload.length + 32 + 8 :=
    length_encodeFrame
  rw [walkFrames]
  by_cases hshort : k < 8
  · rw [if_pos]
    rw [List.length_take, List.length_take]
    omega
  · have hfirst : ((encodeFrame env payload).take k).take 8 = beBytes 8 payload.length := by
      have hfield : (encodeFrame env payload ++ []).take 8 = beBytes 8 payload.length :=
        frame_length []
      rw [List.take_take, Nat.min_eq_left (Nat.not_lt.mp hshort), ← hfield, List.append_nil]
    simp only [hfirst, ofBytes_length hlength, length_beBytes]
    -- what is cut off is missing in one of the three fields behind the length
    have htrailer : (((encodeFrame env payload).take k).drop (8 + payload.length + 32)).take 8
        ≠ beBytes 8 payload.length := by
      intro h
      have hlen := congrArg List.length h
      rw [length_beBytes, List.length_take, List.length_drop, List.length_take] at hlen
      omega
    split_ifs with h₁ h₂ h₃
    · rfl
    · rfl
    · rfl
    · exact absurd (Or.inr (Or.inr htrailer)) h₃
    · exact absurd (Or.inr (Or.inr htrailer)) h₃

theorem walkFrames_take (h : Laid env writer segment offset log body)
    (hmaximum : ∀ e ∈ log, e.fst.length ≤ maximumFrameBytes) (hfuel : (body.take k).length ≤ fuel) :
    walkFrames env writer segment fuel offset (body.take k)
      = log.filter fun e => e.fst.finish ≤ offset + k := by
  induction h generalizing k fuel with
  | nil offset =>
    rw [List.take_nil]
    cases fuel with
    | zero => rfl
    | succ fuel => rfl
  | @cons offset r payload log rest hjson hlength h ih =>
    obtain ⟨hone, hrest⟩ := List.forall_mem_cons.mp hmaximum
    have hframe : (encodeFrame env payload).length = 8 + payload.length + 32 + 8 :=
      length_encodeFrame
    by_cases hk : (encodeFrame env payload).length ≤ k
    · have htake : (encodeFrame env payload ++ rest).take k
          = encodeFrame env payload ++ rest.take (k - (encodeFrame env payload).length) := by
        rw [List.take_append, List.take_of_length_le hk]
      rw [htake, List.length_append] at hfuel
      obtain ⟨fuel, rfl⟩ : ∃ n, fuel = n + 1 := ⟨fuel - 1, by omega⟩
      have hfinish : (frameRef env writer segment offset payload).finish ≤ offset + k := by
        rw [frameRef_finish]
        exact Nat.add_le_add_left hk offset
      rw [htake, walkFrames_frame hjson hlength hone, ih hrest (by omega), List.filter_cons,
        if_pos (decide_eq_true hfinish)]
      refine congrArg _ (List.filter_congr fun e _ => ?_)
      rw [Nat.add_assoc, Nat.add_sub_cancel' hk]
    · rw [Nat.not_le] at hk
      have htake : (encodeFrame env payload ++ rest).take k = (encodeFrame env payload).take k :=
        List.take_append_of_le_length hk.le
      have hnone : ((frameRef env writer segment offset payload, r) :: log).filter
          (fun e => decide (e.fst.finish ≤ offset + k)) = [] := by
        refine List.filter_eq_nil_iff.mpr fun e he hle => ?_
        have hle := of_decide_eq_true hle
        rcases List.mem_cons.mp he with rfl | he
        · rw [frameRef_finish] at hle
          omega
        · have hlow := (h.bounds e he).2.2.1
          unfold HwRef.finish at hle
          omega
      rw [htake, hnone]
      cases fuel with
      | zero => rfl
      | succ fuel => exact walkFrames_torn hk hlength

theorem iterSegmentFrames_take (h : Laid env writer segment segmentHeader.length log body)
    (hmaximum : ∀ e ∈ log, e.fst.length ≤ maximumFrameBytes) :
    iterSegmentFrames env writer segment ((segmentHeader ++ body).take k)
      = log.filter fun e => e.fst.finish ≤ k := by
  unfold iterSegmentFrames
  by_cases hk : segmentHeader.length ≤ k
  · have htake : (segmentHeader ++ body).take k = segmentHeader ++ body.take (k - segmentHeader.length) := by
      rw [List.take_append, List.take_of_length_le hk]
    rw [htake, List.take_left' rfl, List.drop_left' rfl, if_neg (fun h => h rfl),
      walkFrames_take h hmaximum (by rw [List.length_append]; omega), Nat.add_sub_cancel' hk]
  · rw [Nat.not_le] at hk
    rw [if_pos]
    · refine (List.filter_eq_nil_iff.mpr fun e he hle => ?_).symm
      have hle := of_decide_eq_true hle
      have hlow := (h.bounds e he).2.2.1
      unfold HwRef.finish at hle
      omega
    · intro heq
      have hlen := congrArg List.length heq
      rw [List.length_take, List.length_take] at hlen
      omega

theorem iterSegmentFrames_laid (h : Laid env writer segment segmentHeader.length log body)
    (hmaximum : ∀ e ∈ log, e.fst.length ≤ maximumFrameBytes) :
    iterSegmentFrames env writer segment (segmentHeader ++ body) = log := by
  have hall : ∀ e ∈ log, decide (e.fst.finish ≤ (segmentHeader ++ body).length) = true := by
    intro e he
    rw [List.length_append]
    exact decide_eq_true (h.bounds e he).2.2.2
  have hwhole := iterSegmentFrames_take (k := (segmentHeader ++ body).length) h hmaximum
  rwa [List.take_length, List.filter_eq_self.mpr hall] at hwhole

theorem length_of_mem_walkFrames {rest : Bytes} {e : HwRef × ρ}
    (he : e ∈ walkFrames env writer segment fuel offset rest) :
    e.fst.length ≤ maximumFrameBytes := by
  induction fuel generalizing offset rest with
  | zero => exact absurd he List.not_mem_nil
  | succ fuel ih =>
    rw [walkFrames] at he
    split_ifs at he with h₁ h₂ h₃ h₄
    · exact absurd he List.not_mem_nil
    · exact absurd he List.not_mem_nil
    · exact absurd he List.not_mem_nil
    · exact ih he
    · split at he
      · rcases List.mem_cons.mp he with rfl | he
        · exact Nat.not_lt.mp h₂
        · exact ih he
      · exact ih he

end Walk

/-! ## References -/

/-- **What a reference must be like to be read back from its text.** -/
structure HwRef.Canonical (r : HwRef) : Prop where
  writer : r.writer.all isHex = true ∧ r.writer.length = 32
  segment : r.segment < 36 ^ 7
  offset : r.offset < 36 ^ 13
  length : r.length < 36 ^ 13
  checksum : r.checksum.all isHex = true ∧ r.checksum.length = 32

variable {ok : Char → Bool} {text : List Char}

theorem refGroup_eq_some {letter : Char} {least most : ℕ}
    (hok : text.all ok = true) (hleast : least ≤ text.length) (hmost : text.length ≤ most) :
    refGroup letter ok least most (letter :: text) = some text :=
  if_pos ⟨rfl, hok, hleast, hmost⟩

theorem hyphen_notMem {letter : Char} (hl : letter ≠ '-')
    (hhyphen : ok '-' = false) (hok : text.all ok = true) : '-' ∉ letter :: text := by
  intro h
  rcases List.mem_cons.mp h with h | h
  · exact hl h.symm
  · rw [List.all_eq_true.mp hok _ h] at hhyphen
    cases hhyphen

theorem splitOn_groups {writer segment offset length checksum : List Char}
    (hwriter : writer.all isHex = true) (hsegment : segment.all isBase36 = true)
    (hoffset : offset.all isBase36 = true) (hlength : length.all isBase36 = true)
    (hchecksum : checksum.all isHex = true) :
    (['-'].intercalate ['w' :: writer, 's' :: segment, 'o' :: offset, 'l' :: length, 'h' :: checksum]).splitOn '-'
        = ['w' :: writer, 's' :: segment, 'o' :: offset, 'l' :: length, 'h' :: checksum] := by
  refine List.splitOn_intercalate '-' (fun l hl => ?_) (List.cons_ne_nil _ _)
  simp only [List.mem_cons, List.not_mem_nil, or_false] at hl
  rcases hl with rfl | rfl | rfl | rfl | rfl
  · exact hyphen_notMem (by decide) (by decide) hwriter
  · exact hyphen_notMem (by decide) (by decide) hsegment
  · exact hyphen_notMem (by decide) (by decide) hoffset
  · exact hyphen_notMem (by decide) (by decide) hlength
  · exact hyphen_notMem (by decide) (by decide) hchecksum

/-- **A canonical reference is read back from its text.** -/
theorem refGroups_text {r : HwRef} (h : r.Canonical) : refGroups r.text = some r := by
  have hparts : r.text.splitOn '-' = ['w' :: r.writer, 's' :: toBase36 r.segment,
      'o' :: toBase36 r.offset, 'l' :: toBase36 r.length, 'h' :: r.checksum] :=
    splitOn_groups h.writer.1 (toBase36_all _) (toBase36_all _) (toBase36_all _) h.checksum.1
  unfold refGroups
  rw [hparts]
  simp only
  rw [refGroup_eq_some h.writer.1 h.writer.2.ge h.writer.2.le,
    refGroup_eq_some (toBase36_all _) (toBase36_pos _) (length_toBase36_le h.segment),
    refGroup_eq_some (toBase36_all _) (toBase36_pos _) (length_toBase36_le h.offset),
    refGroup_eq_some (toBase36_all _) (toBase36_pos _) (length_toBase36_le h.length),
    refGroup_eq_some h.checksum.1 h.checksum.2.ge h.checksum.2.le]
  simp only [Option.bind_eq_bind, Option.bind_some, ofBase36_toBase36]

theorem HwRef.text_injective {r r' : HwRef} (h : r.Canonical) (h' : r'.Canonical)
    (heq : r.text = r'.text) : r = r' := by
  have hgroups := refGroups_text h
  rw [heq, refGroups_text h'] at hgroups
  exact (Option.some.inj hgroups).symm

theorem frameRef_canonical {writer : List Char} {segment offset : ℕ}
    (hwriter : writer.all isHex = true ∧ writer.length = 32) (hsegment : segment < 2 ^ 32)
    (hoffset : offset < 2 ^ 63) (hlength : payload.length < 2 ^ 64) :
    (frameRef env writer segment offset payload).Canonical where
  writer := hwriter
  segment := lt_trans hsegment (by norm_num)
  offset := lt_trans hoffset (by norm_num)
  length := lt_trans hlength (by norm_num)
  checksum := by
    refine ⟨hex_all _, ?_⟩
    show (hex ((frameChecksum env payload).take 16)).length = 32
    rw [length_hex, List.length_take, length_frameChecksum]
    rfl

/-! ## Runs of a writer -/

/-- **A writer and what it appended**: each reference it returned, with its record. -/
structure JournalRun (ρ : Type) where
  writer : JournalWriter
  appended : List (HwRef × ρ)

/-- **Runs of one writer**: a record is appended, and its reference returned. An append that
raises writes nothing. -/
def journalSystem (env : JournalEnv ρ) : System (JournalRun ρ) ρ where
  init s := ∃ id maximum, (id.all isHex = true ∧ id.length = 32)
    ∧ s = ⟨JournalWriter.start id maximum, []⟩
  step s r s' := ∃ w ref, s.writer.append env r = .ok (w, ref)
    ∧ s' = ⟨w, s.appended ++ [(ref, r)]⟩

/-- **What was appended is what is read.** -/
structure Agrees (env : JournalEnv ρ) (s : JournalRun ρ) : Prop where
  reads : ∀ e ∈ s.appended,
    readRecord env s.writer.writerId s.writer.segments e.fst.text = .ok e.snd
  distinct : (s.appended.map fun e => e.fst.text).Nodup
  walk : iterFrames env s.writer.writerId s.writer.segments = s.appended
  torn : ∀ k, iterFrames env s.writer.writerId (s.writer.closed ++ [s.writer.current.take k])
    = s.appended.filter fun e => e.fst.segment < s.writer.segmentNumber ∨ e.fst.finish ≤ k

/-- **The layout of a writer's files**: each segment has a log of its own. -/
structure HoldsRecord (env : JournalEnv ρ) (s : JournalRun ρ) (logs : ℕ → List (HwRef × ρ)) : Prop where
  writer : s.writer.writerId.all isHex = true ∧ s.writer.writerId.length = 32
  number : s.writer.segmentNumber < 2 ^ 32
  laid : ∀ i file, s.writer.segments[i]? = some file → file.length < 2 ^ 63
    ∧ ∃ body, file = segmentHeader ++ body
      ∧ Laid env s.writer.writerId i segmentHeader.length (logs i) body
  log : s.appended = (List.range (s.writer.segmentNumber + 1)).flatMap logs

theorem recorded_start {id : List Char} {maximum : ℕ} (hid : id.all isHex = true ∧ id.length = 32) :
    HoldsRecord env ⟨JournalWriter.start id maximum, []⟩ fun _ => [] := by
  refine ⟨hid, Nat.pow_pos (by decide), fun i file hfile => ?_, rfl⟩
  have hfile : [segmentHeader][i]? = some file := hfile
  obtain rfl : file = segmentHeader := List.mem_singleton.mp (List.mem_of_getElem? hfile)
  exact ⟨by decide, [], rfl, Laid.nil _⟩

/-- **What an append does**, if it returns. -/
theorem append_eq_ok {w w' : JournalWriter} {ref : HwRef} (h : w.append env r = .ok (w', ref)) :
    ∃ payload rotated, env.jsonBytes r = .ok payload ∧ w.rotateIfNeeded (encodeFrame env payload).length = .ok rotated
      ∧ rotated.current.length + (encodeFrame env payload).length < 2 ^ 63
      ∧ w' = { rotated with current := rotated.current ++ encodeFrame env payload }
      ∧ ref = frameRef env w.writerId rotated.segmentNumber rotated.current.length payload := by
  unfold JournalWriter.append at h
  obtain ⟨payload, hjson, h⟩ := bind_eq_ok.mp h
  obtain ⟨rotated, hrotate, h⟩ := bind_eq_ok.mp h
  obtain ⟨written, hwrite, h⟩ := bind_eq_ok.mp h
  obtain ⟨rfl, rfl⟩ := Prod.mk.inj (Except.ok.inj h)
  unfold JournalWriter.write at hwrite
  split_ifs at hwrite with hlarge
  exact ⟨payload, rotated, hjson, hrotate, Nat.not_le.mp hlarge, (Except.ok.inj hwrite).symm, rfl⟩

variable {w : JournalWriter}

theorem segments_getElem? {i : ℕ} {file : Bytes} (h : w.segments[i]? = some file) :
    (i < w.segmentNumber ∧ w.closed[i]? = some file)
      ∨ (i = w.segmentNumber ∧ file = w.current) := by
  unfold JournalWriter.segments at h
  rw [List.getElem?_append] at h
  split_ifs at h with hi
  · exact Or.inl ⟨hi, h⟩
  · have hzero : i - w.closed.length = 0 := by
      by_contra hne
      rw [List.getElem?_eq_none (by rw [List.length_singleton]; omega)] at h
      cases h
    rw [hzero] at h
    exact Or.inr ⟨by unfold JournalWriter.segmentNumber; omega, (Option.some.inj h).symm⟩

theorem segments_current (w : JournalWriter) : w.segments[w.segmentNumber]? = some w.current :=
  List.getElem?_concat_length

theorem segments_closed {i : ℕ} {file : Bytes} (h : w.closed[i]? = some file) : w.segments[i]? = some file := by
  obtain ⟨hi, -⟩ := List.getElem?_eq_some_iff.mp h
  exact (List.getElem?_append_left hi).trans h

variable {appended : List (HwRef × ρ)}

theorem HoldsRecord.rotate {w rotated : JournalWriter}
    {logs : ℕ → List (HwRef × ρ)} {n : ℕ} (hs : HoldsRecord env ⟨w, appended⟩ logs)
    (h : w.rotateIfNeeded n = .ok rotated) :
    rotated.writerId = w.writerId ∧ ∃ logs', HoldsRecord env ⟨rotated, appended⟩ logs' := by
  unfold JournalWriter.rotateIfNeeded at h
  split_ifs at h with h₁ h₂ h₃
  · obtain rfl := Except.ok.inj h
    exact ⟨rfl, logs, hs⟩
  · obtain rfl := Except.ok.inj h
    exact ⟨rfl, logs, hs⟩
  · obtain rfl := Except.ok.inj h
    have hnumber : ({ w with closed := w.closed ++ [w.current], current := segmentHeader } :
        JournalWriter).segmentNumber = w.segmentNumber + 1 := by
      show (w.closed ++ [w.current]).length = w.closed.length + 1
      rw [List.length_append, List.length_singleton]
    refine ⟨rfl, Function.update logs (w.segmentNumber + 1) [], hs.writer, ?_, ?_, ?_⟩
    · rw [hnumber]
      omega
    · intro i file hfile
      rcases segments_getElem? hfile with ⟨hi, hclosed⟩ | ⟨hi, rfl⟩
      · rw [hnumber] at hi
        obtain ⟨hlen, body, hbody, hlaid⟩ := hs.laid i file hclosed
        refine ⟨hlen, body, hbody, ?_⟩
        rwa [Function.update_of_ne (Nat.ne_of_lt hi)]
      · rw [hnumber] at hi
        subst hi
        rw [Function.update_self]
        have hheader : segmentHeader.length < 2 ^ 63 := by decide
        exact ⟨hheader, [], rfl, Laid.nil _⟩
    · show appended = _
      have hlog : appended = (List.range (w.segmentNumber + 1)).flatMap logs := hs.log
      rw [hnumber, List.range_succ, List.flatMap_append, List.flatMap_singleton,
        Function.update_self, List.append_nil, hlog]
      refine List.flatMap_congr fun i hi => ?_
      rw [Function.update_of_ne (Nat.ne_of_lt (List.mem_range.mp hi))]

theorem HoldsRecord.write {logs : ℕ → List (HwRef × ρ)} (hs : HoldsRecord env ⟨w, appended⟩ logs)
    (hjson : env.jsonBytes r = .ok payload)
    (hfits : w.current.length + (encodeFrame env payload).length < 2 ^ 63) :
    HoldsRecord env ⟨{ w with current := w.current ++ encodeFrame env payload },
        appended ++ [(frameRef env w.writerId w.segmentNumber w.current.length payload, r)]⟩
      (Function.update logs w.segmentNumber (logs w.segmentNumber
        ++ [(frameRef env w.writerId w.segmentNumber w.current.length payload, r)])) := by
  have hlength : payload.length < 2 ^ 64 := by
    rw [length_encodeFrame] at hfits
    omega
  refine ⟨hs.writer, hs.number, ?_, ?_⟩
  · intro i file hfile
    rcases segments_getElem? hfile with ⟨hi, hclosed⟩ | ⟨hi, rfl⟩
    · obtain ⟨hlen, body, hbody, hlaid⟩ := hs.laid i file (segments_closed hclosed)
      have hne : i ≠ w.segmentNumber := Nat.ne_of_lt hi
      refine ⟨hlen, body, hbody, ?_⟩
      rwa [Function.update_of_ne hne]
    · have hi : i = w.segmentNumber := hi
      subst hi
      obtain ⟨-, body, hbody, hlaid⟩ := hs.laid _ _ (segments_current w)
      rw [Function.update_self]
      refine ⟨by rw [List.length_append]; exact hfits, body ++ encodeFrame env payload, ?_, ?_⟩
      · show w.current ++ _ = _
        rw [hbody, List.append_assoc]
      · have hsnoc := hlaid.snoc hjson hlength
        rwa [← List.length_append, ← hbody] at hsnoc
  · show appended ++ _ = (List.range (w.segmentNumber + 1)).flatMap _
    have hlog : appended = (List.range (w.segmentNumber + 1)).flatMap logs := hs.log
    have hbefore : (List.range w.segmentNumber).flatMap (Function.update logs w.segmentNumber
        (logs w.segmentNumber ++ [(frameRef env w.writerId w.segmentNumber w.current.length payload, r)]))
        = (List.range w.segmentNumber).flatMap logs := by
      refine List.flatMap_congr fun i hi => ?_
      rw [Function.update_of_ne (Nat.ne_of_lt (List.mem_range.mp hi))]
    rw [hlog, List.range_succ, List.flatMap_append, List.flatMap_append, hbefore,
      List.flatMap_singleton, List.flatMap_singleton, Function.update_self, List.append_assoc]

theorem journalSystem_recorded {s : JournalRun ρ} (hs : (journalSystem env).Reachable s) :
    ∃ logs, HoldsRecord env s logs := by
  refine System.Reachable.invariant (I := fun s => ∃ logs, HoldsRecord env s logs) ?_ ?_ hs
  · rintro s ⟨id, maximum, hid, rfl⟩
    exact ⟨_, recorded_start hid⟩
  · rintro s r s' - ⟨logs, hlogs⟩ ⟨w, ref, happend, rfl⟩
    obtain ⟨payload, rotated, hjson, hrotate, hfits, rfl, rfl⟩ := append_eq_ok happend
    obtain ⟨hid, logs', hlogs'⟩ := hlogs.rotate hrotate
    rw [← hid]
    exact ⟨_, hlogs'.write hjson hfits⟩

/-! ## Agreement -/

theorem flatMap_zipIdx {l : List Bytes} {g : ℕ → Bytes → List (HwRef × ρ)}
    {logs : ℕ → List (HwRef × ρ)} (h : ∀ i file, l[i]? = some file → g i file = logs i) :
    (l.zipIdx.flatMap fun s => g s.snd s.fst) = (List.range l.length).flatMap logs := by
  induction l using List.reverseRecOn with
  | nil => rfl
  | append_singleton l x ih =>
    have hx : g l.length x = logs l.length := h l.length x List.getElem?_concat_length
    have hl := ih fun i file hi => h i file ((List.getElem?_append_left (List.getElem?_eq_some_iff.mp hi).1).trans hi)
    rw [List.zipIdx_append, List.flatMap_append, hl, List.length_append, List.length_singleton,
      List.range_succ, List.flatMap_append]
    simp only [List.zipIdx_singleton, List.flatMap_singleton, Nat.zero_add, hx]

section Agreement

variable {s : JournalRun ρ} {logs : ℕ → List (HwRef × ρ)} (hs : HoldsRecord env s logs)

include hs

variable {e : HwRef × ρ}

theorem mem_appended (he : e ∈ s.appended) :
    ∃ i file body, s.writer.segments[i]? = some file ∧ file.length < 2 ^ 63 ∧ file = segmentHeader ++ body
      ∧ Laid env s.writer.writerId i segmentHeader.length (logs i) body ∧ e ∈ logs i := by
  rw [hs.log] at he
  obtain ⟨i, hi, he⟩ := List.mem_flatMap.mp he
  have hlt : i < s.writer.segments.length := by
    unfold JournalWriter.segments
    rw [List.length_append, List.length_singleton]
    exact List.mem_range.mp hi
  obtain ⟨hlen, body, hbody, hlaid⟩ := hs.laid i _ (List.getElem?_eq_getElem hlt)
  exact ⟨i, _, body, List.getElem?_eq_getElem hlt, hlen, hbody, hlaid, he⟩

theorem appended_canonical (he : e ∈ s.appended) : e.fst.Canonical := by
  obtain ⟨i, file, body, hfile, hlen, hbody, hlaid, he⟩ := mem_appended hs he
  obtain ⟨before, payload, post, rfl, -, hlength, href⟩ := hlaid.located e he
  have hi : i < 2 ^ 32 := by
    rcases segments_getElem? hfile with ⟨hi, -⟩ | ⟨rfl, -⟩
    · exact lt_trans hi hs.number
    · exact hs.number
  rw [href]
  refine frameRef_canonical hs.writer hi ?_ hlength
  rw [hbody] at hlen
  simp only [List.length_append] at hlen
  omega

theorem readRecord_appended (he : e ∈ s.appended) :
    readRecord env s.writer.writerId s.writer.segments e.fst.text = .ok e.snd := by
  have hparse : parseRecordRef e.fst.text = .ok e.fst := by
    unfold parseRecordRef
    rw [refGroups_text (appended_canonical hs he)]
  obtain ⟨i, file, body, hfile, -, rfl, hlaid, he⟩ := mem_appended hs he
  obtain ⟨hwriter, hsegment, -⟩ := hlaid.bounds e he
  simp only [readRecord, hparse, bind, Except.bind, if_pos hwriter, hsegment, hfile, hlaid.readFrame he]

theorem appended_distinct : (s.appended.map fun e => e.fst.text).Nodup := by
  have hpair : s.appended.Pairwise fun a b => a.fst.text ≠ b.fst.text := by
    -- two entries are in one segment, one frame behind the other, or in different segments
    have hdiffer : s.appended.Pairwise fun a b => a.fst ≠ b.fst := by
      rw [hs.log, List.pairwise_flatMap]
      refine ⟨fun i hi => ?_, ?_⟩
      · have hlt : i < s.writer.segments.length := by
          unfold JournalWriter.segments
          rw [List.length_append, List.length_singleton]
          exact List.mem_range.mp hi
        obtain ⟨-, body, -, hlaid⟩ := hs.laid i _ (List.getElem?_eq_getElem hlt)
        refine hlaid.pairwise.imp fun {a b} hle heq => ?_
        rw [heq] at hle
        unfold HwRef.finish at hle
        omega
      · refine (List.nodup_range).imp_of_mem fun {i j} hi hj hne a ha b hb heq => ?_
        have hsegment : ∀ k ∈ List.range (s.writer.segmentNumber + 1), ∀ e ∈ logs k, e.fst.segment = k := by
          intro k hk e he
          have hlt : k < s.writer.segments.length := by
            unfold JournalWriter.segments
            rw [List.length_append, List.length_singleton]
            exact List.mem_range.mp hk
          obtain ⟨-, body, -, hlaid⟩ := hs.laid k _ (List.getElem?_eq_getElem hlt)
          exact (hlaid.bounds e he).2.1
        exact hne (by rw [← hsegment i hi a ha, ← hsegment j hj b hb, heq])
    refine hdiffer.imp_of_mem fun {a b} ha hb hne heq => hne ?_
    exact HwRef.text_injective (appended_canonical hs ha) (appended_canonical hs hb) heq
  exact List.pairwise_map.mpr hpair

theorem iterFrames_torn (hmaximum : ∀ e ∈ s.appended, e.fst.length ≤ maximumFrameBytes) (k : ℕ) :
    iterFrames env s.writer.writerId (s.writer.closed ++ [s.writer.current.take k])
      = s.appended.filter fun e => e.fst.segment < s.writer.segmentNumber ∨ e.fst.finish ≤ k := by
  have hlogs : ∀ i ≤ s.writer.segmentNumber, ∀ e ∈ logs i, e.fst.length ≤ maximumFrameBytes := by
    intro i hi e he
    refine hmaximum e ?_
    rw [hs.log]
    exact List.mem_flatMap.mpr ⟨i, List.mem_range.mpr (Nat.lt_succ_of_le hi), he⟩
  obtain ⟨-, body, hbody, hlaid⟩ := hs.laid _ _ (segments_current s.writer)
  have hclosed : ∀ i file, s.writer.closed[i]? = some file →
      iterSegmentFrames env s.writer.writerId i file = logs i := by
    intro i file hfile
    obtain ⟨-, body', rfl, hlaid'⟩ := hs.laid i file (segments_closed hfile)
    have hi : i < s.writer.closed.length := (List.getElem?_eq_some_iff.mp hfile).1
    exact iterSegmentFrames_laid hlaid' (hlogs i hi.le)
  have hlast : iterSegmentFrames env s.writer.writerId s.writer.segmentNumber
      (s.writer.current.take k) = (logs s.writer.segmentNumber).filter fun e => e.fst.finish ≤ k := by
    rw [hbody]
    exact iterSegmentFrames_take hlaid (hlogs _ le_rfl)
  have hwalk : iterFrames env s.writer.writerId (s.writer.closed ++ [s.writer.current.take k])
      = (List.range s.writer.segmentNumber).flatMap logs
        ++ (logs s.writer.segmentNumber).filter fun e => e.fst.finish ≤ k := by
    unfold iterFrames
    rw [List.zipIdx_append, List.flatMap_append,
      flatMap_zipIdx (g := iterSegmentFrames env s.writer.writerId) hclosed]
    simp only [List.zipIdx_singleton, List.flatMap_singleton, Nat.zero_add]
    exact congrArg _ hlast
  rw [hwalk, hs.log, List.range_succ, List.flatMap_append, List.flatMap_singleton, List.filter_append]
  congr 1
  · refine (List.filter_eq_self.mpr fun e he => ?_).symm
    obtain ⟨i, hi, he⟩ := List.mem_flatMap.mp he
    have hi := List.mem_range.mp hi
    have hlt : i < s.writer.segments.length := by
      unfold JournalWriter.segments
      rw [List.length_append]
      exact Nat.lt_add_right _ hi
    obtain ⟨-, body', -, hlaid'⟩ := hs.laid i _ (List.getElem?_eq_getElem hlt)
    rw [(hlaid'.bounds e he).2.1]
    exact decide_eq_true (Or.inl hi)
  · refine List.filter_congr fun e he => ?_
    have hsegment := (hlaid.bounds e he).2.1
    simp only [hsegment, lt_irrefl, false_or]

end Agreement

theorem length_of_mem_iterFrames {writer : List Char} {segments : List Bytes} {e : HwRef × ρ}
    (he : e ∈ iterFrames env writer segments) : e.fst.length ≤ maximumFrameBytes := by
  obtain ⟨file, -, he⟩ := List.mem_flatMap.mp he
  unfold iterSegmentFrames at he
  split_ifs at he
  · exact absurd he List.not_mem_nil
  · exact length_of_mem_walkFrames he

/-- **The journal's readers agree with its writer** exactly if no payload is longer than
`MAXIMUM_FRAME_BYTES`. -/
theorem journal_agrees {s : JournalRun ρ} (hs : (journalSystem env).Reachable s) :
    Agrees env s ↔ ∀ e ∈ s.appended, e.fst.length ≤ maximumFrameBytes := by
  obtain ⟨logs, hlogs⟩ := journalSystem_recorded hs
  constructor
  · intro h e he
    rw [← h.walk] at he
    exact length_of_mem_iterFrames he
  · intro hmaximum
    refine ⟨fun e he => readRecord_appended hlogs he, appended_distinct hlogs, ?_,
      iterFrames_torn hlogs hmaximum⟩
    have htorn := iterFrames_torn hlogs hmaximum s.writer.current.length
    rw [List.take_length] at htorn
    refine htorn.trans (List.filter_eq_self.mpr fun e he => ?_)
    obtain ⟨i, file, body, hfile, -, hbody, hlaid, he⟩ := mem_appended hlogs he
    obtain ⟨-, hsegment, -, hfinish⟩ := hlaid.bounds e he
    rcases segments_getElem? hfile with ⟨hi, -⟩ | ⟨-, rfl⟩
    · exact decide_eq_true (Or.inl (hsegment ▸ hi))
    · rw [← List.length_append, ← hbody] at hfinish
      exact decide_eq_true (Or.inr hfinish)

/-! ## A long record -/

def textPayload (n : ℕ) : Bytes := [0x7b, 0x22, 0x61, 0x22, 0x3a, 0x22] ++ List.replicate n 0x30 ++ [0x22, 0x7d]

theorem length_textPayload (n : ℕ) : (textPayload n).length = n + 8 := by
  unfold textPayload
  simp only [List.length_append, List.length_replicate, List.length_cons, List.length_nil]
  omega

theorem length_textDigest (bytes : Bytes) : (beBytes 32 (ofBytes (bytes.take 8))).length = 32 :=
  length_beBytes 32 _

def textEnv : JournalEnv ℕ where
  sha256 := fun bytes => beBytes 32 (ofBytes (bytes.take 8))
  jsonBytes := fun n => .ok (textPayload n)
  loads := fun bytes =>
    if bytes = textPayload (bytes.length - 8) then .object (bytes.length - 8) else .undecodable
  length_sha256 := length_textDigest
  loads_jsonBytes := by
    rintro n _ ⟨rfl⟩
    rw [length_textPayload, Nat.add_sub_cancel, if_pos rfl]

def newWriter : JournalWriter := JournalWriter.start (List.replicate 32 '0') 65536

def firstRecord (n : ℕ) : JournalRun ℕ where
  writer := { newWriter with current := segmentHeader ++ encodeFrame textEnv (textPayload n) }
  appended := [(frameRef textEnv newWriter.writerId 0 segmentHeader.length (textPayload n), n)]

/-- **A first record** of any length a file has room for can be written. -/
theorem firstRecord_reachable {n : ℕ} (h : n < 2 ^ 62) : (journalSystem textEnv).Reachable (firstRecord n) := by
  have hfits : ¬(newWriter.current.length + (encodeFrame textEnv (textPayload n)).length ≥ 2 ^ 63) := by
    have hstart : newWriter.current.length = 12 := rfl
    rw [length_encodeFrame, length_textPayload, hstart]
    omega
  have hrotate : newWriter.rotateIfNeeded (encodeFrame textEnv (textPayload n)).length = .ok newWriter := if_pos rfl
  have hwrite : newWriter.write (encodeFrame textEnv (textPayload n)) = .ok (firstRecord n).writer := if_neg hfits
  have happend : newWriter.append textEnv n = .ok ((firstRecord n).writer,
      frameRef textEnv newWriter.writerId 0 segmentHeader.length (textPayload n)) :=
    bind_eq_ok.mpr ⟨textPayload n, rfl, bind_eq_ok.mpr ⟨newWriter, hrotate,
      bind_eq_ok.mpr ⟨(firstRecord n).writer, hwrite, rfl⟩⟩⟩
  have hinit : (journalSystem textEnv).init ⟨newWriter, []⟩ :=
    ⟨List.replicate 32 '0', 65536, by decide, rfl⟩
  exact (System.Reachable.init hinit).step ⟨_, _, happend, rfl⟩

/-- **A record of more than 16 MiB** is written and read, but not walked. -/
theorem journal_disagrees : ¬∀ s, (journalSystem textEnv).Reachable s → Agrees textEnv s := by
  intro hall
  have hagrees := hall _ (firstRecord_reachable (n := maximumFrameBytes) (by decide))
  have hmem : (frameRef textEnv newWriter.writerId 0 segmentHeader.length
      (textPayload maximumFrameBytes), maximumFrameBytes) ∈ (firstRecord maximumFrameBytes).appended :=
    List.mem_singleton_self _
  rw [← hagrees.walk] at hmem
  have hlength : (textPayload maximumFrameBytes).length ≤ maximumFrameBytes :=
    length_of_mem_iterFrames hmem
  rw [length_textPayload] at hlength
  omega

/-- Records of several lengths, the last one in a segment that a rotation opened, are read by all of them. -/
theorem journal_agrees_rotated : ∃ s : JournalRun ℕ,
    s.appended.map (fun e => (e.fst.segment, e.snd)) = [(0, 3), (0, 5), (1, 4)] ∧ Agrees textEnv s := by
  have hrun : (((JournalWriter.start (List.replicate 32 '0') 144).append textEnv 3).toOption.bind fun p =>
      (p.fst.append textEnv 5).toOption.bind fun q => (q.fst.append textEnv 4).toOption.map fun r =>
        [p.snd, q.snd, r.snd].map fun ref => (ref.segment, ref.length)) = some [(0, 11), (0, 13), (1, 12)] := by
    decide +kernel
  obtain ⟨p, hp, hrun⟩ := Option.bind_eq_some_iff.mp hrun
  obtain ⟨q, hq, hrun⟩ := Option.bind_eq_some_iff.mp hrun
  obtain ⟨r, hr, hrefs⟩ := Option.map_eq_some_iff.mp hrun
  have hinit : (journalSystem textEnv).Reachable ⟨JournalWriter.start (List.replicate 32 '0') 144, []⟩ :=
    System.Reachable.init ⟨_, _, by decide, rfl⟩
  have hfirst := hinit.step ⟨_, _, toOption_eq_some.mp hp, rfl⟩
  have hsecond := hfirst.step ⟨_, _, toOption_eq_some.mp hq, rfl⟩
  have hthird := hsecond.step ⟨_, _, toOption_eq_some.mp hr, rfl⟩
  simp only [List.map_cons, List.map_nil, List.cons.injEq, Prod.mk.injEq, and_true] at hrefs
  obtain ⟨⟨hsegment₁, hlength₁⟩, ⟨hsegment₂, hlength₂⟩, hsegment₃, hlength₃⟩ := hrefs
  refine ⟨_, ?_, (journal_agrees hthird).mpr ?_⟩
  · simp [hsegment₁, hsegment₂, hsegment₃]
  · simp [hlength₁, hlength₂, hlength₃, maximumFrameBytes]
