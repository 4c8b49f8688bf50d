import HttkWorkflow.JsonText
import HttkWorkflow.Journal
import HttkWorkflow.Walk

/-!
# The journal of a workspace

Below `journal/` each writer has a directory of its own, and a reference
names a frame by its writer, its segment and its place in it. Whoever reads
a record opens the one file the reference names, and a history is read by
following `previous_record_ref` from file to file, across segments and
writers.

A `SegmentStore` holds these files, with the time each was last written.
Reading is that of `Journal.readFrame`, on the file of the reference.
A store is only ever extended, by the writers, or restricted, by a
collection; `ExtendsAt` says that a file is still there with what it held,
and then each of its records reads as before.

A frame is determined by where it lies, so that a history is no longer than
the journal has bytes. That bounds the walk of `iterRecordChain`.
-/

open Numerals Journal

/-- **A journal record**: a JSON object. -/
abbrev Record := List (PyStr × Json)

/-- **The name of a segment.** -/
structure SegmentKey where
  /-- The writer, as the digits of its UUID. -/
  writer : List Char
  number : ℕ
deriving DecidableEq, Repr

/-- **A segment file.** -/
structure SegmentFile where
  bytes : Bytes
  /-- `st_mtime`. -/
  modified : Rat
  /-- Whether it belongs to the user of this process. -/
  owned : Bool
deriving Repr

/-- **The segment files of all writers.** -/
structure SegmentStore where
  files : Dict SegmentKey SegmentFile
  nodup : (files.map Prod.fst).Nodup

/-- The characters of a string, `none` if it holds a surrogate. -/
def PyStr.chars (s : PyStr) : Option (List Char) :=
  s.codes.mapM fun c => if c.isValidChar then some (Char.ofNat c) else none

/-- **`parse_record_ref`** of any string. -/
def parseReference (text : PyStr) : Except Exc HwRef :=
  match text.chars with
  | some chars => parseRecordRef chars
  | none => raiseFormat [.lit "invalid hwref-v2 record reference: ", .repr (some (.str text))]

/-- The segment a reference names. -/
def HwRef.key (r : HwRef) : SegmentKey := ⟨r.writer, r.segment⟩

def segmentOf (text : PyStr) : Option SegmentKey := (parseReference text).toOption.map HwRef.key

namespace SegmentStore

def file (s : SegmentStore) (key : SegmentKey) : Option SegmentFile := s.files.get key

/-- The files that meet a condition. -/
def restrict (s : SegmentStore) (p : SegmentKey × SegmentFile → Bool) : SegmentStore :=
  ⟨s.files.filter p, s.nodup.sublist (List.filter_sublist.map _)⟩

def put (s : SegmentStore) (key : SegmentKey) (f : SegmentFile) : SegmentStore where
  files := s.files.set key f
  nodup := by
    unfold Dict.set
    rw [List.map_cons, List.nodup_cons]
    refine ⟨fun h => ?_, s.nodup.sublist (List.filter_sublist.map _)⟩
    obtain ⟨e, he, hkey⟩ := List.mem_map.mp h
    exact of_decide_eq_true (List.mem_filter.mp he).2 hkey

variable {s : SegmentStore}

variable {f : SegmentFile}

theorem file_eq_some_iff {key : SegmentKey} : s.file key = some f ↔ (key, f) ∈ s.files := by
  refine ⟨Dict.mem_of_get, fun h => ?_⟩
  obtain ⟨g, hg⟩ := Dict.get_of_mem (List.mem_map.mpr ⟨_, h, rfl⟩ : key ∈ s.files.map Prod.fst)
  have hpair := List.inj_on_of_nodup_map s.nodup (Dict.mem_of_get hg) h rfl
  rw [file, hg, (Prod.mk.inj hpair).2]

@[simp] theorem file_put (s : SegmentStore) (key key' : SegmentKey) (f : SegmentFile) :
    (s.put key f).file key' = if key' = key then some f else s.file key' :=
  Dict.get_set s.files key key' f

/-- **A restriction has the files that meet its condition.** -/
theorem file_restrict {p : SegmentKey × SegmentFile → Bool} {key : SegmentKey} :
    (s.restrict p).file key = some f ↔ s.file key = some f ∧ p (key, f) = true := by
  rw [file_eq_some_iff, file_eq_some_iff]
  exact List.mem_filter

/-! ## Reading -/

section Reading

variable (env : JournalEnv Record)

/-- **`read_record`**, from files that do not change meanwhile. -/
def readRecord (s : SegmentStore) (text : PyStr) : Except Exc Record := do
  let r ← parseReference text
  match readFrame env ((s.file r.key).map SegmentFile.bytes) r.offset r.length r.checksum with
  | .ok record => .ok record
  | .error problem =>
    if problem.transient = true then
      .error ⟨.workspaceUnavailable, [.lit "journal record is not coherently visible: ", .raw text]⟩
    else .error ⟨.workspaceCorruption, [.lit "journal record is damaged"]⟩

/-- `previous_record_ref`, where it leads on. -/
def previousRecordRef (record : Record) : Option PyStr :=
  match Json.get record "previous_record_ref" with
  | some (.str text) => if text = "init" then none else some text
  | _ => none

/-- What a walk visits after a reference. -/
def previous (s : SegmentStore) (text : PyStr) : Option PyStr :=
  (s.readRecord env text).toOption.bind previousRecordRef

/-- How many bytes the journal has. -/
def size (s : SegmentStore) : ℕ := (s.files.map fun e => e.snd.bytes.length).sum

/-- **`iter_record_chain`**: the references met while walking backwards, each with its
record if it can be read. -/
def iterRecordChain (s : SegmentStore) (text : PyStr) : List (PyStr × Option Record) :=
  if text = "init" then []
  else (walk (s.previous env) (s.size + 2) [] text).map fun t => (t, (s.readRecord env t).toOption)

end Reading

variable {env : JournalEnv Record}

variable {record : Record} {text : PyStr}

/-- **Reading a reference is reading a frame of its file.** -/
theorem readRecord_eq_ok : s.readRecord env text = .ok record ↔ ∃ r, parseReference text = .ok r ∧
        readFrame env ((s.file r.key).map SegmentFile.bytes) r.offset r.length r.checksum
          = .ok record := by
  unfold readRecord
  rw [bind_eq_ok]
  refine exists_congr fun r => and_congr_right fun _ => ?_
  cases readFrame env ((s.file r.key).map SegmentFile.bytes) r.offset r.length r.checksum with
  | ok record' => simp only [Except.ok.injEq]
  | error problem =>
    simp only
    split_ifs <;> exact ⟨fun h => (by cases h), fun h => (by cases h)⟩

/-! ## Where a frame lies -/

def lengthAt (file : Bytes) (offset : ℕ) : ℕ := ofBytes ((file.drop offset).take 8)

/-- The first half of the checksum of the frame at an offset. -/
def prefixAt (file : Bytes) (offset : ℕ) : List Char :=
  hex (((file.drop (offset + 8 + lengthAt file offset)).take 32).take 16)

variable {checksum : List Char} {offset length : ℕ}

theorem readFrame_bounds {file : Bytes} (h : readFrame env (some file) offset length checksum = .ok record) :
    length = lengthAt file offset ∧ checksum = prefixAt file offset
      ∧ offset + (8 + length + 32 + 8) ≤ file.length := by
  unfold readFrame at h
  simp only at h
  split_ifs at h with hshort hheader hlength hlen hpayload htrailer hsum hprefix
  obtain rfl := not_not.mp hlen
  refine ⟨rfl, (not_not.mp hprefix).symm, ?_⟩
  obtain ⟨-, -, hend⟩ : _ ∧ _ ∧ _ := by
    rw [not_or, not_or] at hpayload
    exact hpayload
  rw [not_not, List.length_take, List.length_drop] at hend
  omega

def frameAt (env : JournalEnv Record) (file : Bytes) (offset : ℕ) : Option Record :=
  (readFrame env (some file) offset (lengthAt file offset) (prefixAt file offset)).toOption

def named (env : JournalEnv Record) (s : SegmentStore) : List PyStr :=
  s.files.flatMap fun e => (List.range e.snd.bytes.length).filterMap fun offset =>
    (frameAt env e.snd.bytes offset).bind previousRecordRef

theorem length_named (s : SegmentStore) : (named env s).length ≤ s.size := by
  unfold named size
  induction s.files with
  | nil => exact le_rfl
  | cons e files ih =>
    rw [List.flatMap_cons, List.length_append, List.map_cons, List.sum_cons]
    exact Nat.add_le_add ((List.length_filterMap_le _ _).trans_eq List.length_range) ih

theorem previous_mem_named {text text' : PyStr} (h : s.previous env text = some text') : text' ∈ named env s := by
  obtain ⟨record, hrecord, hprevious⟩ := Option.bind_eq_some_iff.mp h
  obtain ⟨r, -, hr⟩ := readRecord_eq_ok.mp (toOption_eq_some.mp hrecord)
  cases hfile : s.file r.key with
  | none =>
    rw [hfile] at hr
    cases hr
  | some f =>
    rw [hfile, Option.map_some] at hr
    obtain ⟨hlength, hchecksum, hend⟩ := readFrame_bounds hr
    have hframe : frameAt env f.bytes r.offset = some record := by
      unfold frameAt
      rw [← hlength, ← hchecksum, hr]
      rfl
    refine List.mem_flatMap.mpr ⟨(r.key, f), file_eq_some_iff.mp hfile, ?_⟩
    have hoffset : r.offset < f.bytes.length := by omega
    refine List.mem_filterMap.mpr ⟨r.offset, List.mem_range.mpr hoffset, ?_⟩
    rw [hframe]
    exact hprevious

variable {e : PyStr × Option Record}

/-- **A chain has what lies behind its start**, each reference with its record. -/
theorem mem_iterRecordChain_iff (h : text ≠ "init") : e ∈ s.iterRecordChain env text
      ↔ Relation.ReflTransGen (Leads (s.previous env)) text e.fst
        ∧ e.snd = (s.readRecord env e.fst).toOption := by
  have hcover : ∀ a b, s.previous env a = some b → b ∈ named env s :=
    fun _ _ => previous_mem_named
  have hfuel : (named env s).length + 2 ≤ s.size + 2 := Nat.add_le_add_right (length_named s) 2
  have hwalk : ∀ t, t ∈ walk (s.previous env) (s.size + 2) [] text
      ↔ Relation.ReflTransGen (Leads (s.previous env)) text t := fun _ => mem_walk_iff hcover hfuel
  unfold iterRecordChain
  rw [if_neg h, List.mem_map]
  constructor
  · rintro ⟨t, ht, rfl⟩
    exact ⟨(hwalk t).mp ht, rfl⟩
  · rintro ⟨ht, hrecord⟩
    exact ⟨e.fst, (hwalk e.fst).mpr ht, Prod.ext rfl hrecord.symm⟩

/-! ## Files that only grow -/

/-- **A file is still there, with what it held.** -/
def ExtendsAt (s s' : SegmentStore) (key : SegmentKey) : Prop :=
  ∀ f, s.file key = some f → ∃ f', s'.file key = some f' ∧ f.bytes <+: f'.bytes

theorem extendsAt_refl (s : SegmentStore) (key : SegmentKey) : ExtendsAt s s key :=
  fun f h => ⟨f, h, List.prefix_rfl⟩

theorem ExtendsAt.trans {s s' s'' : SegmentStore} {key : SegmentKey} (h : ExtendsAt s s' key)
    (h' : ExtendsAt s' s'' key) : ExtendsAt s s'' key := by
  intro f hf
  obtain ⟨f', hf', hprefix⟩ := h f hf
  obtain ⟨f'', hf'', hprefix'⟩ := h' f' hf'
  exact ⟨f'', hf'', hprefix.trans hprefix'⟩

theorem take_drop_append {file extra : Bytes} {m n : ℕ} (h : m + n ≤ file.length) :
    ((file ++ extra).drop m).take n = (file.drop m).take n := by
  rw [List.drop_append_of_le_length (by omega), List.take_append_of_le_length]
  rw [List.length_drop]
  omega

theorem readFrame_append {file extra : Bytes} (h : readFrame env (some file) offset length checksum = .ok record) :
    readFrame env (some (file ++ extra)) offset length checksum = .ok record := by
  obtain ⟨rfl, -, hend⟩ := readFrame_bounds h
  have hheader : segmentHeader.length ≤ file.length := by
    unfold readFrame at h
    simp only at h
    split_ifs at h with hshort
    rw [not_not, List.length_take] at hshort
    omega
  have hfield : ((file ++ extra).drop offset).take 8 = (file.drop offset).take 8 :=
    take_drop_append (by omega)
  have hlength : ofBytes ((file.drop offset).take 8) = lengthAt file offset := rfl
  unfold readFrame at h ⊢
  simp only [hfield, hlength] at h ⊢
  rw [List.take_append_of_le_length hheader,
    take_drop_append (show offset + 8 + lengthAt file offset ≤ file.length by omega),
    take_drop_append (show offset + 8 + lengthAt file offset + 32 ≤ file.length by omega),
    take_drop_append (show offset + 8 + lengthAt file offset + 32 + 8 ≤ file.length by omega)]
  exact h

/-- **A record reads the same as long as its file is there, with what it held.** -/
theorem ExtendsAt.readRecord {s s' : SegmentStore} (h : ∀ key, segmentOf text = some key → ExtendsAt s s' key)
    (hrecord : s.readRecord env text = .ok record) : s'.readRecord env text = .ok record := by
  obtain ⟨r, hr, hread⟩ := readRecord_eq_ok.mp hrecord
  refine readRecord_eq_ok.mpr ⟨r, hr, ?_⟩
  cases hfile : s.file r.key with
  | none =>
    rw [hfile] at hread
    cases hread
  | some f =>
    rw [hfile] at hread
    obtain ⟨f', hf', extra, hextra⟩ := h r.key (by rw [segmentOf, hr]; rfl) f hfile
    rw [hf', Option.map_some, ← hextra]
    exact readFrame_append hread

theorem mem_chain_of_extends {s s' : SegmentStore}
    (h : ∀ e ∈ s.iterRecordChain env text, ∀ key, segmentOf e.fst = some key → ExtendsAt s s' key)
    (he : e ∈ s.iterRecordChain env text) (hread : e.snd.isSome) :
    e ∈ s'.iterRecordChain env text := by
  by_cases hinit : text = "init"
  · rw [iterRecordChain, if_pos hinit] at he
    cases he
  have hmem : ∀ e', e' ∈ s.iterRecordChain env text ↔ Relation.ReflTransGen (Leads (s.previous env)) text e'.fst
        ∧ e'.snd = (s.readRecord env e'.fst).toOption := fun _ => mem_iterRecordChain_iff hinit
  have hkept : ∀ t, Relation.ReflTransGen (Leads (s.previous env)) text t → ∀ record,
      s.readRecord env t = .ok record → s'.readRecord env t = .ok record := fun t ht record hr =>
    ExtendsAt.readRecord (h (t, (s.readRecord env t).toOption) ((hmem _).mpr ⟨ht, rfl⟩)) hr
  have hbehind : ∀ t, Relation.ReflTransGen (Leads (s.previous env)) text t →
      Relation.ReflTransGen (Leads (s'.previous env)) text t := by
    intro t ht
    induction ht with
    | refl => exact Relation.ReflTransGen.refl
    | tail hbefore hstep ih =>
      obtain ⟨record, hrecord, hprevious⟩ := Option.bind_eq_some_iff.mp hstep
      refine ih.tail (Option.bind_eq_some_iff.mpr ⟨record, ?_, hprevious⟩)
      exact toOption_eq_some.mpr (hkept _ hbefore record (toOption_eq_some.mp hrecord))
  obtain ⟨hreach, hrecord⟩ := (hmem e).mp he
  obtain ⟨record, hsome⟩ := Option.isSome_iff_exists.mp hread
  refine (mem_iterRecordChain_iff hinit).mpr ⟨hbehind _ hreach, ?_⟩
  rw [hsome] at hrecord
  rw [hsome, hkept _ hreach record (toOption_eq_some.mp hrecord.symm)]
  rfl

end SegmentStore

/-! ## Known records -/

def recordBytes (record : Record) : Bytes := (Json.obj record).text.map UInt8.ofNat

/-- **An environment that knows some records.** -/
def knownEnv (records : List Record) (h : (records.map recordBytes).Nodup) : JournalEnv Record where
  sha256 := fun bytes => beBytes 32 (ofBytes (bytes.take 8))
  jsonBytes := fun record =>
    if record ∈ records then .ok (recordBytes record)
    else .error ⟨.valueError, [.lit "not a known record"]⟩
  loads := fun bytes =>
    match records.find? (fun known => recordBytes known = bytes) with
    | some known => .object known
    | none => .undecodable
  length_sha256 := fun _ => length_beBytes 32 _
  loads_jsonBytes := by
    intro record bytes hjson
    split_ifs at hjson with hmem
    obtain rfl := Except.ok.inj hjson
    cases hload : records.find? (fun known => recordBytes known = recordBytes record) with
    | none => exact absurd (List.find?_eq_none.mp hload _ hmem) (by simp)
    | some other =>
      have hbytes : recordBytes other = recordBytes record := by
        have hp := List.find?_some hload
        simpa using hp
      rw [List.inj_on_of_nodup_map h (List.mem_of_find?_eq_some hload) hmem hbytes]
