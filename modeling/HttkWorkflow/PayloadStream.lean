import HttkWorkflow.JobCursors
import HttkWorkflow.Numerals
import HttkWorkflow.PayloadLinks
import HttkWorkflow.PrefixCodes

/-!
# What the payload digest pins down

The digest of a payload is the SHA-256 of a stream of bytes: for each entry that is not
left out, in the order of the paths, a letter for its kind, its path, and what it is –
the target of a link, the executable bit and the digest of a file. Each of these fields
is ended by a NUL. No field can contain one, whatever the names are, and the letter says
how many fields follow it. So the stream says what it was made of.

If there are no two streams or contents with one SHA-256, two payloads that were scanned
have one digest exactly if they agree where the scan comes to (`scan_eq_iff`). It does not
come to what lies below a directory that cannot be listed, as `rglob` reports no error.
So the digest pins a payload down, but for the entries that are left out, if and only if no
difference hides there (`payload_digest_faithful`).
-/

open Numerals

def utf8Code (c : ℕ) : List ℕ :=
  if c < 0x80 then [c]
  else if c < 0x800 then [0xC0 + c / 0x40, 0x80 + c % 0x40]
  else if c < 0x10000 then [0xE0 + c / 0x1000, 0x80 + c / 0x40 % 0x40, 0x80 + c % 0x40]
  else [0xF0 + c / 0x40000, 0x80 + c / 0x1000 % 0x40, 0x80 + c / 0x40 % 0x40, 0x80 + c % 0x40]

/-- The UTF-8 encoding of a text, its surrogates included. -/
def utf8Bytes (text : PyStr) : List ℕ := text.codes.flatMap utf8Code

/-- `text.encode("utf-8")`. -/
def encodeUtf8 (text : PyStr) : Except Exc (List ℕ) :=
  if text.encodable then .ok (utf8Bytes text) else .error ⟨.unicodeEncode, [.lit "surrogates not allowed"]⟩

def asciiBytes (text : String) : List ℕ := text.toList.map Char.toNat

def nulEnded (fields : List (List ℕ)) : List ℕ := fields.flatMap (· ++ [0])

/-- `b"x" if mode & 0o111 else b"-"`. -/
def executableByte (executable : Bool) : ℕ := if executable then 'x'.toNat else '-'.toNat

/-- **What `_payload_digest` adds to the stream** for one entry. -/
def DigestLine.bytes : DigestLine → Except Exc (List ℕ)
  | .link path target => do
    let relative ← encodeUtf8 path
    let target ← encodeUtf8 target
    .ok (nulEnded [['L'.toNat], relative, target])
  | .dir path => do
    let relative ← encodeUtf8 path
    .ok (nulEnded [['D'.toNat], relative])
  | .file path executable sha256 => do
    let relative ← encodeUtf8 path
    .ok (nulEnded [['F'.toNat], relative, [executableByte executable], asciiBytes sha256])

def payloadDigestDomain : List ℕ := asciiBytes "httk-workflow-transfer-payload-v2" ++ [0]

/-- **An environment whose digests are hexadecimal digests of bytes**, those of files and those of the
stream. -/
structure HashedEnv extends TransferEnv (List ℕ) where
  /-- `hashlib.sha256(…).hexdigest()`. -/
  hexdigest : List ℕ → String
  hex : ∀ bytes, (hexdigest bytes).toList.all isHex = true
  sha256_eq : sha256 = hexdigest
  digestOf_eq : ∀ lines pieces, lines.mapM DigestLine.bytes = .ok pieces →
    digestOf lines = hexdigest (payloadDigestDomain ++ pieces.flatten)

/-- **`_payload_digest`**, down to the bytes. -/
def HashedEnv.scan (env : HashedEnv) (t : DiskTree (List ℕ)) : Except Exc String := do
  let lines ← (scannedEntries t.listed).mapM (digestLine env.toTransferEnv)
  let pieces ← lines.mapM DigestLine.bytes
  .ok (env.hexdigest (payloadDigestDomain ++ pieces.flatten))

/-! ## Bytes read back -/

theorem readsOff_utf8Code : ReadsOff (· < 0x110000) utf8Code := by
  intro a b l l' ha hb h
  unfold utf8Code at h
  split_ifs at h <;> simp only [List.cons_append, List.nil_append, List.cons.injEq] at h <;>
    first
    | exact ⟨h.1, h.2⟩
    | omega
    | exact ⟨by omega, h.2.2⟩
    | exact ⟨by omega, h.2.2.2⟩
    | exact ⟨by omega, h.2.2.2.2⟩

theorem utf8Code_ne_nil (c : ℕ) : utf8Code c ≠ [] := by
  unfold utf8Code
  split_ifs <;> exact List.cons_ne_nil _ _

theorem zero_notMem_utf8Code {c : ℕ} (hc : 0 < c) : 0 ∉ utf8Code c := by
  unfold utf8Code
  split_ifs <;> simp only [List.mem_cons, List.not_mem_nil, or_false] <;> omega

/-- **A text of the file system**: Unicode without NUL. -/
def FileText (text : PyStr) : Prop := ∀ c ∈ text.codes, 0 < c ∧ c < 0x110000

theorem FileText.zero_notMem {text : PyStr} (h : FileText text) : 0 ∉ utf8Bytes text := by
  intro hzero
  obtain ⟨c, hc, hzero⟩ := List.mem_flatMap.mp hzero
  exact zero_notMem_utf8Code (h c hc).1 hzero

theorem utf8Bytes_inj {a b : PyStr} (ha : FileText a) (hb : FileText b) (h : utf8Bytes a = utf8Bytes b) : a = b := by
  have hcodes : a.codes = b.codes :=
    readsOff_utf8Code.flatMap_injective (fun c _ => utf8Code_ne_nil c) (fun c hc => (ha c hc).2)
      (fun c hc => (hb c hc).2) h
  cases a
  cases b
  exact congrArg PyStr.mk hcodes

theorem encodeUtf8_ok {text : PyStr} {bytes : List ℕ} (h : encodeUtf8 text = .ok bytes) : bytes = utf8Bytes text := by
  unfold encodeUtf8 at h
  split_ifs at h
  exact (Except.ok.inj h).symm

/-! ## Lines read back -/

/-- What a line adds to the stream, if its texts can be encoded. -/
def DigestLine.stream : DigestLine → List ℕ
  | .link path target => nulEnded [['L'.toNat], utf8Bytes path, utf8Bytes target]
  | .dir path => nulEnded [['D'.toNat], utf8Bytes path]
  | .file path executable sha256 =>
    nulEnded [['F'.toNat], utf8Bytes path, [executableByte executable], asciiBytes sha256]

/-- **A line of an entry on a disk**: texts of the file system, and hexadecimal digits. -/
def DigestLine.OfDisk : DigestLine → Prop
  | .link path target => FileText path ∧ FileText target
  | .dir path => FileText path
  | .file path _ sha256 => FileText path ∧ sha256.toList.all isHex = true

variable {line : DigestLine}

theorem DigestLine.bytes_ok {bytes : List ℕ} (h : line.bytes = .ok bytes) : bytes = line.stream := by
  cases line with
  | link path target =>
    obtain ⟨relative, hrelative, h⟩ := bind_eq_ok.mp h
    obtain ⟨target', htarget, h⟩ := bind_eq_ok.mp h
    rw [← Except.ok.inj h, encodeUtf8_ok hrelative, encodeUtf8_ok htarget]
    rfl
  | dir path =>
    obtain ⟨relative, hrelative, h⟩ := bind_eq_ok.mp h
    rw [← Except.ok.inj h, encodeUtf8_ok hrelative]
    rfl
  | file path executable sha256 =>
    obtain ⟨relative, hrelative, h⟩ := bind_eq_ok.mp h
    rw [← Except.ok.inj h, encodeUtf8_ok hrelative]
    rfl

variable {lines : List DigestLine}

theorem flatten_of_pieces {pieces : List (List ℕ)}
    (h : lines.mapM DigestLine.bytes = .ok pieces) : pieces.flatten = lines.flatMap DigestLine.stream := by
  have hpieces := forall₂_of_mapM_ok h
  clear h
  induction hpieces with
  | nil => rfl
  | cons hline _ ih => rw [List.flatten_cons, List.flatMap_cons, ih, DigestLine.bytes_ok hline]

theorem nulEnded_cons (field : List ℕ) (fields : List (List ℕ)) (l : List ℕ) :
    nulEnded (field :: fields) ++ l = (field ++ [0]) ++ (nulEnded fields ++ l) := by
  unfold nulEnded
  rw [List.flatMap_cons, List.append_assoc]

theorem nulEnded_head {field field' : List ℕ} {fields fields' : List (List ℕ)} {l l' : List ℕ}
    (hfield : 0 ∉ field) (hfield' : 0 ∉ field')
    (h : nulEnded (field :: fields) ++ l = nulEnded (field' :: fields') ++ l') :
    field = field' ∧ nulEnded fields ++ l = nulEnded fields' ++ l' := by
  rw [nulEnded_cons, nulEnded_cons] at h
  exact readsOff_terminated 0 field field' _ _ hfield hfield' h

theorem zero_notMem_asciiBytes {text : String} (h : text.toList.all isHex = true) : 0 ∉ asciiBytes text := by
  intro hzero
  obtain ⟨c, hc, hcode⟩ := List.mem_map.mp hzero
  have hhex := List.all_eq_true.mp h c hc
  have hnul : c = Char.ofNat 0 := Char.toNat_inj.mp hcode
  rw [hnul] at hhex
  exact absurd hhex (by decide)

theorem asciiBytes_injective : Function.Injective asciiBytes := by
  intro a b h
  exact String.toList_inj.mp (List.map_injective_iff.mpr (fun _ _ hcd => Char.toNat_inj.mp hcd) h)

theorem zero_notMem_executableByte (executable : Bool) : 0 ∉ [executableByte executable] := by
  cases executable <;> decide

theorem executableByte_injective : Function.Injective executableByte := by decide

theorem readsOff_stream : ReadsOff DigestLine.OfDisk DigestLine.stream := by
  intro a b l l' ha hb h
  have hkind : ∀ letter : Char, letter ≠ Char.ofNat 0 → 0 ∉ [letter.toNat] := fun letter hne hzero =>
    hne (Char.toNat_inj.mp (List.mem_singleton.mp hzero).symm)
  have hL := hkind 'L' (by decide)
  have hD := hkind 'D' (by decide)
  have hF := hkind 'F' (by decide)
  cases a with
  | link path target =>
    cases b with
    | link path' target' =>
      obtain ⟨-, h⟩ := nulEnded_head hL hL h
      obtain ⟨hpath, h⟩ := nulEnded_head ha.1.zero_notMem hb.1.zero_notMem h
      obtain ⟨htarget, h⟩ := nulEnded_head ha.2.zero_notMem hb.2.zero_notMem h
      rw [utf8Bytes_inj ha.1 hb.1 hpath, utf8Bytes_inj ha.2 hb.2 htarget]
      exact ⟨rfl, h⟩
    | dir path' => exact absurd (nulEnded_head hL hD h).1 (by decide)
    | file path' executable' sha256' => exact absurd (nulEnded_head hL hF h).1 (by decide)
  | dir path =>
    cases b with
    | link path' target' => exact absurd (nulEnded_head hD hL h).1 (by decide)
    | dir path' =>
      obtain ⟨-, h⟩ := nulEnded_head hD hD h
      obtain ⟨hpath, h⟩ := nulEnded_head (FileText.zero_notMem ha) (FileText.zero_notMem hb) h
      rw [utf8Bytes_inj ha hb hpath]
      exact ⟨rfl, h⟩
    | file path' executable' sha256' => exact absurd (nulEnded_head hD hF h).1 (by decide)
  | file path executable sha256 =>
    cases b with
    | link path' target' => exact absurd (nulEnded_head hF hL h).1 (by decide)
    | dir path' => exact absurd (nulEnded_head hF hD h).1 (by decide)
    | file path' executable' sha256' =>
      obtain ⟨-, h⟩ := nulEnded_head hF hF h
      obtain ⟨hpath, h⟩ := nulEnded_head ha.1.zero_notMem hb.1.zero_notMem h
      obtain ⟨hmode, h⟩ := nulEnded_head (zero_notMem_executableByte _) (zero_notMem_executableByte _) h
      obtain ⟨hsha, h⟩ := nulEnded_head (zero_notMem_asciiBytes ha.2) (zero_notMem_asciiBytes hb.2) h
      rw [utf8Bytes_inj ha.1 hb.1 hpath, executableByte_injective (List.cons.inj hmode).1, asciiBytes_injective hsha]
      exact ⟨rfl, h⟩

theorem stream_ne_nil (line : DigestLine) : line.stream ≠ [] := by
  cases line <;> exact List.cons_ne_nil _ _

/-! ## Entries read back -/

/-- **A path of a payload**: names without a slash, of characters of the file system. -/
def FilePath (path : List PyStr) : Prop :=
  path ≠ [] ∧ ∀ name ∈ path, '/'.toNat ∉ name.codes ∧ FileText name

theorem DiskTree.filePath {ν : Type} (t : DiskTree ν) {e : List PyStr × Entry ν} (h : e ∈ t.entries) : FilePath e.fst :=
  ⟨t.placed e h, fun name hname => ⟨(t.named e h name hname).2.2.2.1, (t.named e h name hname).2.2.2.2⟩⟩

theorem asPosix_inj {p q : List PyStr} (hp : FilePath p) (hq : FilePath q) (h : asPosix p = asPosix q) : p = q := by
  have hsplit : ∀ path : List PyStr, FilePath path →
      List.splitOn '/'.toNat (asPosix path).codes = path.map PyStr.codes := by
    intro path hpath
    refine List.splitOn_intercalate _ (fun codes hcodes => ?_) (by simpa using hpath.1)
    obtain ⟨name, hname, rfl⟩ := List.mem_map.mp hcodes
    exact (hpath.2 name hname).1
  have hcodes : p.map PyStr.codes = q.map PyStr.codes := by rw [← hsplit p hp, ← hsplit q hq, h]
  refine List.map_injective_iff.mpr (fun a b hab => ?_) hcodes
  cases a
  cases b
  exact congrArg PyStr.mk hab

theorem fileText_asPosix {p : List PyStr} (hp : FilePath p) : FileText (asPosix p) := by
  intro c hc
  rcases mem_intercalate hc with rfl | ⟨word, hword, hc⟩
  · decide
  · obtain ⟨name, hname, rfl⟩ := List.mem_map.mp hword
    exact (hp.2 name hname).2 c hc

variable {e : List PyStr × Entry (List ℕ)}

theorem digestLine_ok {env : TransferEnv (List ℕ)}
    (h : digestLine env e = .ok line) :
    line = match e.snd with
      | .symlink target => .link (asPosix e.fst) target
      | .dir => .dir (asPosix e.fst)
      | .file content executable => .file (asPosix e.fst) executable (env.sha256 content) := by
  obtain ⟨p, entry⟩ := e
  cases entry with
  | dir => exact (Except.ok.inj h).symm
  | file content executable => exact (Except.ok.inj h).symm
  | symlink target =>
    have h : (containedSymlinkTarget p target).map (DigestLine.link (asPosix p)) = .ok line := h
    unfold containedSymlinkTarget at h
    split_ifs at h
    · cases h
    · split at h
      · cases h
      · exact (Except.ok.inj h).symm

variable {env : HashedEnv}

theorem ofDisk_of_digestLine (t : DiskTree (List ℕ))
    (he : e ∈ t.entries) (h : digestLine env.toTransferEnv e = .ok line) : line.OfDisk := by
  have hpath := fileText_asPosix (t.filePath he)
  have htarget := t.targets e he
  obtain ⟨p, entry⟩ := e
  rw [digestLine_ok h]
  cases entry with
  | dir => exact hpath
  | file content executable =>
    refine ⟨hpath, ?_⟩
    show (env.sha256 content).toList.all isHex = true
    rw [env.sha256_eq]
    exact env.hex content
  | symlink target => exact ⟨hpath, htarget⟩

variable {t t' : DiskTree (List ℕ)}

theorem digestLine_inj (hfree : Function.Injective env.hexdigest)
    {e e' : List PyStr × Entry (List ℕ)} (he : e ∈ t.entries) (he' : e' ∈ t'.entries)
    (h : digestLine env.toTransferEnv e = .ok line) (h' : digestLine env.toTransferEnv e' = .ok line) : e = e' := by
  have hpath := t.filePath he
  have hpath' := t'.filePath he'
  obtain ⟨p, entry⟩ := e
  obtain ⟨p', entry'⟩ := e'
  have hline := (digestLine_ok h).symm.trans (digestLine_ok h')
  cases entry with
  | dir =>
    cases entry' with
    | dir =>
      obtain rfl := asPosix_inj hpath hpath' (DigestLine.dir.inj hline)
      rfl
    | file content' executable' => cases hline
    | symlink target' => cases hline
  | file content executable =>
    cases entry' with
    | dir => cases hline
    | file content' executable' =>
      obtain ⟨hp, hmode, hsha⟩ := DigestLine.file.inj hline
      rw [env.sha256_eq] at hsha
      obtain rfl := asPosix_inj hpath hpath' hp
      rw [hmode, hfree hsha]
    | symlink target' => cases hline
  | symlink target =>
    cases entry' with
    | dir => cases hline
    | file content' executable' => cases hline
    | symlink target' =>
      obtain ⟨hp, htarget⟩ := DigestLine.link.inj hline
      obtain rfl := asPosix_inj hpath hpath' hp
      rw [htarget]

theorem mem_of_scanned {e : List PyStr × Entry (List ℕ)} {t : DiskTree (List ℕ)} (h : e ∈ scannedEntries t.listed) :
    e ∈ t.entries :=
  (t.mem_listed.mp (mem_scannedEntries.mp h).1).1

theorem scannedEntries_eq (hfree : Function.Injective env.hexdigest)
    (h : (scannedEntries t.listed).mapM (digestLine env.toTransferEnv) = .ok lines)
    (h' : (scannedEntries t'.listed).mapM (digestLine env.toTransferEnv) = .ok lines) :
    scannedEntries t.listed = scannedEntries t'.listed := by
  have hall : ∀ items items' : List (List PyStr × Entry (List ℕ)), (∀ e ∈ items, e ∈ t.entries) →
      (∀ e ∈ items', e ∈ t'.entries) →
      List.Forall₂ (fun e line => digestLine env.toTransferEnv e = .ok line) items lines →
      List.Forall₂ (fun e line => digestLine env.toTransferEnv e = .ok line) items' lines → items = items' := by
    clear h h'
    induction lines with
    | nil =>
      intro items items' _ _ h h'
      cases h
      cases h'
      rfl
    | cons line lines ih =>
      intro items items' hitems hitems' h h'
      cases h with
      | cons hline hrest =>
        cases h' with
        | cons hline' hrest' =>
          obtain ⟨hhead, htail⟩ := List.forall_mem_cons.mp hitems
          obtain ⟨hhead', htail'⟩ := List.forall_mem_cons.mp hitems'
          rw [digestLine_inj hfree hhead hhead' hline hline', ih _ _ htail htail' hrest hrest']
  exact hall _ _ (fun e he => mem_of_scanned he) (fun e he => mem_of_scanned he)
    (forall₂_of_mapM_ok h) (forall₂_of_mapM_ok h')

/-! ## Where the scan comes to -/

/-- **Two payloads agree in what is scanned**: at every path that is not left out, what `rglob` yields
there is the same. -/
def ScannedAlike (t t' : DiskTree (List ℕ)) : Prop :=
  ∀ p, excludedFromBundle p = false → t.listed.find p = t'.listed.find p

/-- **A difference out of sight**: below a directory of one of the two payloads that cannot be listed. -/
def DifferHidden (t t' : DiskTree (List ℕ)) : Prop :=
  ∃ p, excludedFromBundle p = false ∧ (t.hidden p = true ∨ t'.hidden p = true) ∧ t.find p ≠ t'.find p

theorem mem_scanned_iff (t : DiskTree (List ℕ)) {p : List PyStr} (hp : excludedFromBundle p = false)
    (entry : Entry (List ℕ)) : (p, entry) ∈ scannedEntries t.listed ↔ t.listed.find p = some entry :=
  (mem_scannedEntries.trans (and_iff_left hp)).trans PayloadTree.find_eq_some_iff.symm

theorem DiskTree.find_listed (t : DiskTree (List ℕ)) {p : List PyStr} (h : t.hidden p = false) :
    t.listed.find p = t.find p := by
  refine Option.ext fun entry => ?_
  have hmem : (p, entry) ∈ t.listed.entries ↔ (p, entry) ∈ t.entries := t.mem_listed.trans (and_iff_left h)
  exact PayloadTree.find_eq_some_iff.trans (hmem.trans PayloadTree.find_eq_some_iff.symm)

theorem scannedEntries_nodup (t : PayloadTree (List ℕ)) : (scannedEntries t).Nodup := by
  have hentries : t.entries.Nodup := List.Nodup.of_map _ t.nodup
  exact (List.perm_insertionSort _ _).nodup_iff.mpr (hentries.filter _)

/-- **The order of a scan is one**: no two paths are written alike. -/
theorem scannedEntries_congr (h : ScannedAlike t t') : scannedEntries t.listed = scannedEntries t'.listed := by
  have hmem : ∀ e, e ∈ scannedEntries t.listed ↔ e ∈ scannedEntries t'.listed := by
    rintro ⟨p, entry⟩
    cases hp : excludedFromBundle p with
    | true =>
      have hout : ∀ t : PayloadTree (List ℕ), (p, entry) ∉ scannedEntries t := by
        intro t hin
        have hkept := (mem_scannedEntries.mp hin).2
        rw [hp] at hkept
        cases hkept
      exact iff_of_false (hout _) (hout _)
    | false => rw [mem_scanned_iff t hp, mem_scanned_iff t' hp, h p hp]
  have hperm : (scannedEntries t.listed).Perm (scannedEntries t'.listed) :=
    (List.perm_ext_iff_of_nodup (scannedEntries_nodup _) (scannedEntries_nodup _)).mpr hmem
  refine hperm.eq_of_pairwise ?_ (List.pairwise_insertionSort _ _) (List.pairwise_insertionSort _ _)
  intro a b ha hb hab hba
  have hb' := (hmem b).mpr hb
  have hcodes := le_antisymm hab hba
  have hpath : a.fst = b.fst := by
    refine asPosix_inj (t.filePath (mem_of_scanned ha)) (t.filePath (mem_of_scanned hb')) ?_
    exact congrArg PyStr.mk hcodes
  obtain ⟨p, entry⟩ := a
  obtain ⟨q, entry'⟩ := b
  obtain rfl : p = q := hpath
  have hp := (mem_scannedEntries.mp ha).2
  have hfind := (mem_scanned_iff t hp entry).mp ha
  rw [(mem_scanned_iff t hp entry').mp hb'] at hfind
  rw [Option.some.inj hfind]

/-- **Two scanned payloads have one digest** if and only if they agree in what is scanned. -/
theorem scan_eq_iff (hfree : Function.Injective env.hexdigest) {digest digest' : String}
    (h : env.scan t = .ok digest) (h' : env.scan t' = .ok digest') : digest = digest' ↔ ScannedAlike t t' := by
  constructor
  · rintro rfl
    obtain ⟨lines, hlines, h⟩ := bind_eq_ok.mp h
    obtain ⟨pieces, hpieces, h⟩ := bind_eq_ok.mp h
    obtain ⟨lines', hlines', h'⟩ := bind_eq_ok.mp h'
    obtain ⟨pieces', hpieces', h'⟩ := bind_eq_ok.mp h'
    have hstream : payloadDigestDomain ++ pieces.flatten = payloadDigestDomain ++ pieces'.flatten :=
      hfree ((Except.ok.inj h).trans (Except.ok.inj h').symm)
    have hofDisk : ∀ (t : DiskTree (List ℕ)) lines,
        (scannedEntries t.listed).mapM (digestLine env.toTransferEnv) = .ok lines →
        ∀ line ∈ lines, line.OfDisk := by
      intro t lines hlines line hline
      obtain ⟨e, he, hdigest⟩ := exists_of_forall₂ (forall₂_of_mapM_ok hlines).flip hline
      exact ofDisk_of_digestLine t (mem_of_scanned he) hdigest
    have hsame : lines = lines' := by
      refine readsOff_stream.flatMap_injective (fun line _ => stream_ne_nil line) (hofDisk t lines hlines)
        (hofDisk t' lines' hlines') ?_
      rw [← flatten_of_pieces hpieces, ← flatten_of_pieces hpieces']
      exact List.append_cancel_left hstream
    rw [← hsame] at hlines'
    have hentries := scannedEntries_eq hfree hlines hlines'
    intro p hp
    refine Option.ext fun entry => ?_
    rw [← mem_scanned_iff t hp, ← mem_scanned_iff t' hp, hentries]
  · intro halike
    have hscan : env.scan t = env.scan t' := by
      unfold HashedEnv.scan
      rw [scannedEntries_congr halike]
    exact Except.ok.inj (h.symm.trans (hscan.trans h'))

/-- **The payload digest pins a payload down unless a difference hides**: if SHA-256 has no collisions, one
digest of two scanned payloads says that they have the same entry, or none, at every path that is not
left out, if and only if they do not agree in what is scanned and differ below a directory that cannot
be listed. -/
theorem payload_digest_faithful (env : HashedEnv) (hfree : Function.Injective env.hexdigest)
    (t t' : DiskTree (List ℕ)) {digest digest' : String} (h : env.scan t = .ok digest)
    (h' : env.scan t' = .ok digest') :
    (digest = digest' → ∀ p, excludedFromBundle p = false → t.find p = t'.find p)
      ↔ ¬(ScannedAlike t t' ∧ DifferHidden t t') := by
  rw [scan_eq_iff hfree h h']
  constructor
  · rintro hfaithful ⟨halike, p, hp, -, hdiffer⟩
    exact hdiffer (hfaithful halike p hp)
  · intro hnone halike p hp
    by_contra hdiffer
    refine hnone ⟨halike, p, hp, ?_, hdiffer⟩
    by_contra hlisted
    obtain ⟨hlisted, hlisted'⟩ := not_or.mp hlisted
    have hsame := halike p hp
    rw [t.find_listed (Bool.not_eq_true _ ▸ hlisted), t'.find_listed (Bool.not_eq_true _ ▸ hlisted')] at hsame
    exact hdiffer hsame

/-! ## An instance -/

def unaryDigest (bytes : List ℕ) : String := String.ofList (bytes.flatMap fun byte => List.replicate byte 'a' ++ ['0'])

theorem unaryDigest_injective : Function.Injective unaryDigest := by
  intro a b h
  have hread : ReadsOff (fun _ : ℕ => True) fun byte => List.replicate byte 'a' ++ ['0'] := by
    intro m n l l' _ _ heq
    have hnot : ∀ k, '0' ∉ List.replicate k 'a' := fun k hk => absurd (List.eq_of_mem_replicate hk) (by decide)
    obtain ⟨hword, hl⟩ := readsOff_terminated '0' _ _ l l' (hnot m) (hnot n) heq
    exact ⟨by simpa using congrArg List.length hword, hl⟩
  exact hread.flatMap_injective (fun _ _ => by simp) (fun _ _ => trivial) (fun _ _ => trivial)
    (String.ofList_injective h)

def unaryEnv : HashedEnv where
  loads _ := raiseFormat [.lit "cannot read JSON object"]
  isUuid _ := true
  sha256 := unaryDigest
  digestOf lines := unaryDigest (payloadDigestDomain ++ ((lines.mapM DigestLine.bytes).toOption.getD []).flatten)
  treeDigest _ := .ok "digest"
  identitySeed := .ok ()
  copied _ := []
  removed _ := []
  copied_paths _ _ h := absurd h List.not_mem_nil
  copied_manifest _ _ h := absurd h List.not_mem_nil
  removed_entries _ _ h := absurd h List.not_mem_nil
  hexdigest := unaryDigest
  hex bytes := by
    unfold unaryDigest
    rw [String.toList_ofList, List.all_eq_true]
    intro c hc
    obtain ⟨byte, -, hc⟩ := List.mem_flatMap.mp hc
    rcases List.mem_append.mp hc with hc | hc
    · rw [List.eq_of_mem_replicate hc]
      decide
    · rw [List.mem_singleton.mp hc]
      decide
  sha256_eq := rfl
  digestOf_eq lines pieces h := by rw [h]; rfl

/-- **A script in a directory that cannot be listed**, before and after it was patched. -/
def hiddenScript (patched : Bool) : DiskTree (List ℕ) where
  entries := [(["bin"], .dir),
    (["bin", "run"], .file (if patched then [1] else [1, 2, 0]) true)]
  nodup := by decide +revert
  unlisted := [["bin"]]
  placed := by decide +revert
  parents p name e h := by
    simp only [List.mem_cons, List.not_mem_nil, or_false, Prod.mk.injEq] at h
    rcases h with ⟨h, -⟩ | ⟨h, -⟩
    · exact Or.inl (dir_of_concat h)
    · refine Or.inr ?_
      rw [dir_of_concat h]
      exact List.mem_cons_self
  named := by decide +revert
  targets := by decide +revert

def scriptTree : DiskTree (List ℕ) := { hiddenScript false with unlisted := [] }

def triedTree : DiskTree (List ℕ) where
  entries := (["attempts"], .dir) :: scriptTree.entries
  nodup := by decide
  unlisted := []
  placed := by decide
  parents p name e h := by
    rcases List.mem_cons.mp h with h | h
    · exact Or.inl (dir_of_concat (congrArg Prod.fst h))
    · exact (scriptTree.parents p name e h).imp_right (List.mem_cons_of_mem _)
  named := by decide
  targets := by decide

/-- **The two have one digest**, and the script is the same in both. -/
theorem payload_digest_faithful_tried :
    triedTree.find ["bin", "run"]
      = scriptTree.find ["bin", "run"] := by
  have hentries : scannedEntries triedTree.listed = scannedEntries scriptTree.listed := by
    decide +kernel
  have hsame : unaryEnv.scan triedTree = unaryEnv.scan scriptTree := by
    unfold HashedEnv.scan
    rw [hentries]
  have hok : (unaryEnv.scan scriptTree).toOption.isSome = true := by decide +kernel
  obtain ⟨digest, hdigest⟩ := Option.isSome_iff_exists.mp hok
  have hscan := toOption_eq_some.mp hdigest
  refine (payload_digest_faithful unaryEnv unaryDigest_injective triedTree scriptTree (hsame.trans hscan) hscan).mpr
    ?_ rfl _ (by decide)
  -- every directory of both can be listed
  rintro ⟨-, p, -, hhidden | hhidden, -⟩
  · cases hhidden
  · cases hhidden

/-- **Two contents of a script that the scan does not come to** have one digest. -/
theorem hidden_script_unseen : ¬∀ t t' : DiskTree (List ℕ), ∀ digest, unaryEnv.scan t = .ok digest →
    unaryEnv.scan t' = .ok digest → ∀ p, excludedFromBundle p = false → t.find p = t'.find p := by
  intro h
  have hentries : scannedEntries (hiddenScript true).listed = scannedEntries (hiddenScript false).listed := by
    decide +kernel
  have hsame : unaryEnv.scan (hiddenScript true) = unaryEnv.scan (hiddenScript false) := by
    unfold HashedEnv.scan
    rw [hentries]
  have hok : (unaryEnv.scan (hiddenScript false)).toOption.isSome = true := by decide +kernel
  obtain ⟨digest, hdigest⟩ := Option.isSome_iff_exists.mp hok
  have hscan := toOption_eq_some.mp hdigest
  have hfind := h _ _ digest (hsame.trans hscan) hscan ["bin", "run"] (by decide)
  exact absurd hfind (by decide +kernel)
