import HttkWorkflow.Errors
import HttkWorkflow.Numerals

/-!
# The packed journal

State frames are records in append-only segment files. A segment is a header
and frames one after the other, a frame the length of its payload, the
payload, a checksum of both, and the length again. `JournalWriter.append`
writes frames and begins a new segment when one is full. `readRecord` reads
the one frame a reference names, and `iterSegmentFrames` walks a segment
from its header. The three know the frame format on their own, each with
its own checks.

A writer is modelled by the files it has written, a file by its bytes. What
bytes a record becomes and what record bytes become again is the JSON
codec's (`JournalEnv`). The walk goes on by at least one length field in
each round, so that the number of bytes bounds it.
-/

abbrev Bytes := List UInt8

open Numerals

/-- What `json.loads` makes of a payload. -/
inductive DecodedBody (ρ : Type) where
  | object (record : ρ)
  | value
  /-- `JSONDecodeError` or `UnicodeError`. -/
  | undecodable
deriving DecidableEq, Repr

/-- **What the journal takes from outside**: SHA-256 and the JSON codec. -/
structure JournalEnv (ρ : Type) where
  /-- `hashlib.sha256(…).digest()`. -/
  sha256 : Bytes → Bytes
  /-- `json_bytes`, which refuses what is no JSON. -/
  jsonBytes : ρ → Except Exc Bytes
  loads : Bytes → DecodedBody ρ
  length_sha256 : ∀ b, (sha256 b).length = 32
  /-- What was encoded decodes. -/
  loads_jsonBytes : ∀ r b, jsonBytes r = .ok b → loads b = .object r

/-! ## References -/

/-- **A record reference**, by its five fields: the writer's UUID as 32 digits, and the
first half of the checksum as text. -/
structure HwRef where
  writer : List Char
  segment : ℕ
  offset : ℕ
  length : ℕ
  /-- The first 128 bits of the checksum. -/
  checksum : List Char
deriving DecidableEq, Repr

/-- **`encode_record_ref`**, which joins the fields with hyphens. -/
def HwRef.text (r : HwRef) : List Char :=
  ['-'].intercalate ['w' :: r.writer, 's' :: toBase36 r.segment, 'o' :: toBase36 r.offset,
    'l' :: toBase36 r.length, 'h' :: r.checksum]

/-- One named group of `_REF_PATTERN`: a letter and as many characters of a class. -/
def refGroup (letter : Char) (ok : Char → Bool) (least most : ℕ) : List Char → Option (List Char)
  | [] => none
  | c :: text =>
    if c = letter ∧ text.all ok = true ∧ least ≤ text.length ∧ text.length ≤ most then some text
    else none

/-- The groups of `_REF_PATTERN`, which the hyphens separate. -/
def refGroups (text : List Char) : Option HwRef :=
  match text.splitOn '-' with
  | [w, s, o, l, h] => do
    let writer ← refGroup 'w' isHex 32 32 w
    let segment ← refGroup 's' isBase36 1 7 s
    let offset ← refGroup 'o' isBase36 1 13 o
    let length ← refGroup 'l' isBase36 1 13 l
    let checksum ← refGroup 'h' isHex 32 32 h
    some ⟨writer, ofBase36 segment, ofBase36 offset, ofBase36 length, checksum⟩
  | _ => none

def parseRecordRef (text : List Char) : Except Exc HwRef :=
  match refGroups text with
  | some r => .ok r
  | none => raiseFormat [.lit "invalid hwref-v2 record reference"]

/-! ## Frames and segments -/

def segmentHeader : Bytes := [0x48, 0x54, 0x54, 0x4b, 0x2d, 0x48, 0x57, 0x4a, 0x2d, 0x56, 0x31, 0x0a]

def maximumFrameBytes : ℕ := 16 * 1024 * 1024

variable {ρ : Type}

/-- `sha256(length_bytes + payload)`. -/
def frameChecksum (env : JournalEnv ρ) (payload : Bytes) : Bytes :=
  env.sha256 (beBytes 8 payload.length ++ payload)

/-- **One frame.** -/
def encodeFrame (env : JournalEnv ρ) (payload : Bytes) : Bytes :=
  beBytes 8 payload.length ++ payload ++ frameChecksum env payload ++ beBytes 8 payload.length

def frameRef (env : JournalEnv ρ) (writer : List Char) (segment offset : ℕ) (payload : Bytes) :
    HwRef :=
  ⟨writer, segment, offset, payload.length, hex ((frameChecksum env payload).take 16)⟩

/-- **A journal writer**: the segments it has filled, and the one it appends to. -/
structure JournalWriter where
  /-- `writer_id`, as the digits of its UUID. -/
  writerId : List Char
  maximumSegmentBytes : ℕ
  /-- The segments that were closed, in order. -/
  closed : List Bytes
  /-- The open segment. -/
  current : Bytes
deriving DecidableEq, Repr

namespace JournalWriter

def start (writerId : List Char) (maximumSegmentBytes : ℕ) : JournalWriter :=
  ⟨writerId, maximumSegmentBytes, [], segmentHeader⟩

def segmentNumber (w : JournalWriter) : ℕ := w.closed.length

def segments (w : JournalWriter) : List Bytes := w.closed ++ [w.current]

def rotateIfNeeded (w : JournalWriter) (frameBytes : ℕ) : Except Exc JournalWriter :=
  if w.current.length = segmentHeader.length then .ok w
  else if w.current.length + frameBytes ≤ w.maximumSegmentBytes then .ok w
  else if w.segmentNumber + 1 > 2 ^ 32 - 1 then
    .error ⟨.workspaceCorruption, [.lit "journal segment number exhausted"]⟩
  else .ok { w with closed := w.closed ++ [w.current], current := segmentHeader }

/-- The bytes are written at the end of the open segment, if the file can be that long. -/
def write (w : JournalWriter) (bytes : Bytes) : Except Exc JournalWriter :=
  if w.current.length + bytes.length ≥ 2 ^ 63 then .error ⟨.osError, [.lit "File too large"]⟩
  else .ok { w with current := w.current ++ bytes }

def append (env : JournalEnv ρ) (w : JournalWriter) (record : ρ) :
    Except Exc (JournalWriter × HwRef) := do
  let payload ← env.jsonBytes record
  let rotated ← w.rotateIfNeeded (encodeFrame env payload).length
  let written ← rotated.write (encodeFrame env payload)
  .ok (written,
    frameRef env w.writerId rotated.segmentNumber rotated.current.length payload)

end JournalWriter

/-! ## Reading one record -/

namespace Journal

/-- Why `_read_frame` failed. -/
inductive FrameProblem where
  | missingSegment
  | shortRead
  | invalidHeader
  | lengthMismatch
  | trailerMismatch
  | checksumMismatch
  | referenceMismatch
  | undecodableFrame
  | notAnObject
deriving DecidableEq, Repr

/-- `TRANSIENT_FRAME_PROBLEMS`. -/
def FrameProblem.transient : FrameProblem → Bool
  | missingSegment | shortRead | undecodableFrame => true
  | _ => false

def readFrame (env : JournalEnv ρ) (file : Option Bytes) (offset expectedLength : ℕ)
    (expectedPrefix : List Char) : Except FrameProblem ρ :=
  match file with
  | none => .error .missingSegment
  | some file =>
    let header := file.take segmentHeader.length
    let lengthBytes := (file.drop offset).take 8
    let length := ofBytes lengthBytes
    let payload := (file.drop (offset + 8)).take length
    let checksum := (file.drop (offset + 8 + length)).take 32
    let trailer := (file.drop (offset + 8 + length + 32)).take 8
    if header.length ≠ segmentHeader.length then .error .shortRead
    else if header ≠ segmentHeader then .error .invalidHeader
    else if lengthBytes.length ≠ 8 then .error .shortRead
    else if length ≠ expectedLength then .error .lengthMismatch
    else if payload.length ≠ length ∨ checksum.length ≠ 32 ∨ trailer.length ≠ 8 then
      .error .shortRead
    else if trailer ≠ lengthBytes then .error .trailerMismatch
    else if env.sha256 (lengthBytes ++ payload) ≠ checksum then .error .checksumMismatch
    else if hex (checksum.take 16) ≠ expectedPrefix then .error .referenceMismatch
    else
      match env.loads payload with
      | .object record => .ok record
      | .value => .error .notAnObject
      | .undecodable => .error .undecodableFrame

/-- **`read_record`** from the segments of a writer, which do not change meanwhile: a retry
finds what the first attempt found. -/
def readRecord (env : JournalEnv ρ) (writerId : List Char) (segments : List Bytes)
    (text : List Char) : Except Exc ρ := do
  let r ← parseRecordRef text
  match readFrame env (if r.writer = writerId then segments[r.segment]? else none) r.offset r.length
      r.checksum with
  | .ok record => .ok record
  | .error problem =>
    if problem.transient = true then
      .error ⟨.workspaceUnavailable, [.lit "journal record is not coherently visible"]⟩
    else .error ⟨.workspaceCorruption, [.lit "journal record is damaged"]⟩

/-! ## Walking a segment -/

/-- The frames found from a position on. -/
def walkFrames (env : JournalEnv ρ) (writer : List Char) (segment : ℕ) :
    ℕ → ℕ → Bytes → List (HwRef × ρ)
  | 0, _, _ => []
  | fuel + 1, offset, rest =>
    let lengthBytes := rest.take 8
    let length := ofBytes lengthBytes
    let payload := (rest.drop 8).take length
    let checksum := (rest.drop (8 + length)).take 32
    let trailer := (rest.drop (8 + length + 32)).take 8
    let next := walkFrames env writer segment fuel (offset + (8 + length + 32 + 8))
      (rest.drop (8 + length + 32 + 8))
    if lengthBytes.length ≠ 8 then []
    else if length > maximumFrameBytes then []
    else if payload.length ≠ length ∨ checksum.length ≠ 32 ∨ trailer ≠ lengthBytes then []
    else if env.sha256 (lengthBytes ++ payload) ≠ checksum then next
    else
      match env.loads payload with
      | .object record => (⟨writer, segment, offset, length, hex (checksum.take 16)⟩, record) :: next
      | _ => next

/-- **`iter_segment_frames`**: the references and the records of the intact frames of a
segment. -/
def iterSegmentFrames (env : JournalEnv ρ) (writer : List Char) (segment : ℕ) (file : Bytes) :
    List (HwRef × ρ) :=
  if file.take segmentHeader.length ≠ segmentHeader then []
  else walkFrames env writer segment file.length segmentHeader.length
    (file.drop segmentHeader.length)

/-- The walk over all the segments of a writer, in order. -/
def iterFrames (env : JournalEnv ρ) (writer : List Char) (segments : List Bytes) :
    List (HwRef × ρ) :=
  segments.zipIdx.flatMap fun s => iterSegmentFrames env writer s.snd s.fst

end Journal
