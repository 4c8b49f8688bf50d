import HttkWorkflow.JobCursors
import HttkWorkflow.RecordRefs

/-!
# The codec of marker names

The path of a marker is the state of its job, so that a state should have one
path. `marker_path` writes it and `Marker.from_path` reads it: the kind, the
placement, and a name of four fields with dots between them.

What is written of valid fields is read back, and no component is longer than
a file name may be. What is read is written as it was if its generation is
without leading zeros and its name within the 213 bytes of the profile
(`marker_codec`). The pattern of the names asks for neither, so that a job of
generation one may be found under the names of generation `1` and `01`.
-/

open Numerals

/-! ## Paths -/

/-- `result.encode("ascii")`, the number of its bytes. -/
def asciiLength (text : PyStr) : Except Exc ℕ :=
  if text.codes.all (· < 128) = true then .ok text.codes.length
  else .error ⟨.unicodeEncode, [.lit "ordinal not in range(128)"]⟩

def markerBasename (jobKey : PyStr) (priority generation : ℕ) (recordRef : PyStr) : Except Exc PyStr := do
  let _ ← parseJobKey jobKey
  if 999 < priority then raiseFormat [.lit "priority must be 0 through 999"]
  else if 2 ^ 64 - 1 < generation then raiseFormat [.lit "generation exceeds unsigned 64-bit range"]
  else
    let result : PyStr := ⟨jobKey.codes ++ '.'.toNat :: 'p'.toNat :: StateMarker.priorityText priority
      ++ '.'.toNat :: 'g'.toNat :: (toBase36 generation).map Char.toNat ++ '.'.toNat :: recordRef.codes⟩
    let length ← asciiLength result
    if 213 < length then raiseFormat [.lit "marker exceeds the core profile 213-byte budget"]
    else .ok result

/-- **`marker_path`**, the components below the state root. -/
def markerPath (kind : StateKind) (placement : List PyStr) (jobKey : PyStr) (priority generation : ℕ)
    (recordRef : PyStr) : Except Exc (List PyStr) :=
  (markerBasename jobKey priority generation recordRef).map fun name => kind.word :: (placement ++ [name])

def StateMarker.path (m : StateMarker) : Except Exc (List PyStr) :=
  markerPath m.kind m.placement m.jobKey.text m.priority m.generation m.recordRef

/-- **`Marker.from_path`**, of the components below the state root. -/
def fromPath (parts : List PyStr) : Option StateMarker :=
  if parts.length < 3 then none
  else do
    let kind ← kindNamed (parts.headD "")
    markerFromPath kind parts.tail.dropLast (parts.getLastD "")

/-- **A valid record reference**: `init`, or what `parse_record_ref` accepts. -/
def ValidRecordRef (recordRef : PyStr) : Prop :=
  recordRef = "init" ∨ ∃ v, parseRecordRefParts recordRef = .ok v

/-- **A marker with valid fields.** -/
structure StateMarker.Valid (m : StateMarker) : Prop where
  placed : m.placement ≠ []
  placement : m.placement.mapM placementPart = .ok m.placement
  priority : m.priority ≤ 999
  generation : m.generation < 2 ^ 64
  recordRef : ValidRecordRef m.recordRef

/-- **A plain name**: its generation is without leading zeros, and it is within the budget. -/
def PlainName (name : PyStr) : Prop := ∀ jobKey priority generation record,
  markerGroups name = some (jobKey, priority, generation, record) →
    Shortest generation ∧ name.codes.length ≤ 213

/-! ## The groups of a name -/

namespace PyStr

theorem codes_of_letters {s : PyStr} {cs : List Char} (h : s.letters = cs) (hcs : ∀ c ∈ cs, c ≠ '\x00') :
    s.codes = cs.map Char.toNat := by
  subst h
  unfold letters at hcs ⊢
  rw [List.map_map]
  refine ((List.map_congr_left fun c hc => ?_).trans (List.map_id _)).symm
  have hletter := hcs _ (List.mem_map_of_mem hc)
  by_cases hvalid : c.isValidChar
  · exact toNat_ofNat hvalid
  · refine absurd ?_ hletter
    unfold Char.ofNat
    rw [dif_neg hvalid]
    rfl

theorem letters_map (cs : List Char) : letters ⟨cs.map Char.toNat⟩ = cs := by
  unfold letters
  rw [List.map_map]
  exact (List.map_congr_left fun c _ => Char.ofNat_toNat c).trans (List.map_id _)

end PyStr

theorem ne_nul_of_isBase36 {c : Char} (h : isBase36 c = true) : c ≠ '\x00' := by
  rintro rfl
  cases h

theorem intercalate_concat {α : Type} {c : α} {parts : List (List α)} (hne : parts ≠ []) (last : List α) :
    [c].intercalate (parts ++ [last]) = [c].intercalate parts ++ c :: last := by
  induction parts with
  | nil => exact absurd rfl hne
  | cons part parts ih =>
    cases parts with
    | nil => simp [List.intercalate]
    | cons next parts =>
      rw [List.cons_append, List.intercalate_cons_of_ne_nil (by simp), ih (List.cons_ne_nil _ _),
        List.intercalate_cons_of_ne_nil (List.cons_ne_nil _ _)]
      simp only [List.append_assoc]

/-- The characters of a record reference. -/
def isRefChar (c : Char) : Bool := isBase36 c || c == '-'

variable {ok : Char → Bool} {text : List Char}

theorem isRefChar_group {letter : Char} {least most : ℕ}
    (hletter : isRefChar letter = true) (hok : ∀ c, ok c = true → isBase36 c = true)
    (h : (refGroup letter ok least most text).isSome = true) : ∀ c ∈ text, isRefChar c = true := by
  obtain ⟨group, hgroup⟩ := Option.isSome_iff_exists.mp h
  obtain ⟨rfl, hall, -⟩ := refGroup_some hgroup
  refine List.forall_mem_cons.mpr ⟨hletter, fun c hc => ?_⟩
  unfold isRefChar
  rw [hok c (List.all_eq_true.mp hall c hc), Bool.true_or]

theorem isRefChar_of_isMarkerRecord {record : PyStr} (h : isMarkerRecord record = true) :
    ∀ c ∈ record.letters, isRefChar c = true := by
  have hwhole : ['-'].intercalate (record.letters.splitOn '-') = record.letters := List.intercalate_splitOn '-'
  have hpieces : ∀ piece ∈ record.letters.splitOn '-', ∀ c ∈ piece, isRefChar c = true := by
    unfold isMarkerRecord at h
    split at h
    · rename_i init hsplit
      rw [hsplit]
      obtain rfl : init = "init".toList := of_decide_eq_true h
      have hinit : "init".toList.all isRefChar = true := by decide
      exact List.forall_mem_singleton.mpr (List.all_eq_true.mp hinit)
    · rename_i w s o l c hsplit
      rw [hsplit]
      simp only [Bool.and_eq_true] at h
      obtain ⟨⟨⟨⟨hw, hs⟩, ho⟩, hl⟩, hc⟩ := h
      simp only [List.forall_mem_cons]
      exact ⟨isRefChar_group (by decide) (fun _ => isBase36_of_isHex) hw,
        isRefChar_group (by decide) (fun _ => id) hs, isRefChar_group (by decide) (fun _ => id) ho,
        isRefChar_group (by decide) (fun _ => id) hl,
        isRefChar_group (by decide) (fun _ => isBase36_of_isHex) hc, List.forall_mem_nil _⟩
    · cases h
  intro c hc
  rw [← hwhole] at hc
  rcases mem_intercalate hc with rfl | ⟨piece, hpiece, hmem⟩
  · rfl
  · exact hpieces piece hpiece c hmem

theorem codes_of_isMarkerRecord {record : PyStr} (h : isMarkerRecord record = true) :
    record.codes = record.letters.map Char.toNat ∧ ∀ c ∈ record.codes, c < 128 ∧ c ≠ '.'.toNat := by
  have hchars := isRefChar_of_isMarkerRecord h
  have hplain : ∀ c, isRefChar c = true → c ≠ '\x00' ∧ c.toNat < 128 ∧ c.toNat ≠ '.'.toNat := by
    intro c hc
    unfold isRefChar isBase36 at hc
    simp only [Bool.or_eq_true, Bool.and_eq_true, decide_eq_true_eq, beq_iff_eq, Char.le_def,
      UInt32.le_iff_toNat_le] at hc
    have h0 : '0'.val.toNat = 48 := rfl
    have h9 : '9'.val.toNat = 57 := rfl
    have ha : 'a'.val.toNat = 97 := rfl
    have hz : 'z'.val.toNat = 122 := rfl
    have hdot : '.'.toNat = 46 := rfl
    have hnul : '\x00'.val.toNat = 0 := rfl
    rcases hc with hc | rfl
    · refine ⟨?_, ?_, ?_⟩
      · rintro rfl
        omega
      · simp only [Char.toNat]
        omega
      · simp only [Char.toNat] at hdot ⊢
        omega
    · decide
  have hcodes := PyStr.codes_of_letters (s := record) rfl fun c hc => (hplain c (hchars c hc)).1
  refine ⟨hcodes, fun c hc => ?_⟩
  rw [hcodes] at hc
  obtain ⟨d, hd, rfl⟩ := List.mem_map.mp hc
  exact (hplain d (hchars d hd)).2

/-- **A name that matches `_MARKER_PATTERN`**, with its groups. -/
structure NameMatch (name jobKey : PyStr) (priority generation : List Char) (record : PyStr) : Prop where
  name : name.codes = jobKey.codes ++ '.'.toNat :: (('p' :: priority).map Char.toNat
    ++ '.'.toNat :: (('g' :: generation).map Char.toNat ++ '.'.toNat :: record.codes))
  priority : priority.all Char.isDigit = true ∧ priority.length = 3
  generation : generation.all isBase36 = true ∧ 1 ≤ generation.length
  record : isMarkerRecord record = true

variable {name jobKey record : PyStr} {priority generation : List Char}

theorem dot_notMem_digits {letter : Char} (hletter : letter ≠ '.')
    (hdot : ok '.' = false) (hok : text.all ok = true) : '.'.toNat ∉ (letter :: text).map Char.toNat := by
  intro h
  obtain ⟨c, hc, heq⟩ := List.mem_map.mp h
  obtain rfl := Char.toNat_inj.mp heq
  rcases List.mem_cons.mp hc with h | h
  · exact hletter h.symm
  · rw [List.all_eq_true.mp hok _ h] at hdot
    cases hdot

theorem NameMatch.split (h : NameMatch name jobKey priority generation record) :
    name.split '.' = jobKey.split '.' ++ [⟨('p' :: priority).map Char.toNat⟩, ⟨('g' :: generation).map Char.toNat⟩,
      record] := by
  have hp : '.'.toNat ∉ ('p' :: priority).map Char.toNat :=
    dot_notMem_digits (by decide) (by decide) h.priority.1
  have hg : '.'.toNat ∉ ('g' :: generation).map Char.toNat :=
    dot_notMem_digits (by decide) (by decide) h.generation.1
  have hr : '.'.toNat ∉ record.codes := fun hmem => ((codes_of_isMarkerRecord h.record).2 _ hmem).2 rfl
  unfold PyStr.split
  rw [h.name, List.splitOn_append_cons_self, List.splitOn_append_cons_self, List.splitOn_append_cons_self,
    List.splitOn_eq_singleton hp, List.splitOn_eq_singleton hg, List.splitOn_eq_singleton hr, List.map_append]
  rfl

theorem markerGroups_some : markerGroups name = some (jobKey, priority, generation, record)
    ↔ NameMatch name jobKey priority generation record := by
  constructor
  · intro h
    unfold markerGroups at h
    split at h
    · rename_i record' generation' priority' part parts hsplit
      obtain ⟨g, hg, h⟩ := Option.bind_eq_some_iff.mp h
      obtain ⟨p, hp, h⟩ := Option.bind_eq_some_iff.mp h
      split_ifs at h with hrecord
      simp only [Option.some.injEq, Prod.mk.injEq] at h
      obtain ⟨rfl, rfl, rfl, rfl⟩ := h
      obtain ⟨hpletters, hpall, hpleast, hpmost⟩ := refGroup_some hp
      obtain ⟨hgletters, hgall, hgleast, -⟩ := refGroup_some hg
      have hpcodes : priority'.codes = ('p' :: p).map Char.toNat := by
        refine PyStr.codes_of_letters hpletters (List.forall_mem_cons.mpr ⟨by decide, fun c hc => ?_⟩)
        rintro rfl
        cases List.all_eq_true.mp hpall _ hc
      have hgcodes : generation'.codes = ('g' :: g).map Char.toNat := PyStr.codes_of_letters hgletters
        (List.forall_mem_cons.mpr ⟨by decide, fun c hc => ne_nul_of_isBase36 (List.all_eq_true.mp hgall c hc)⟩)
      have hparts : name.split '.' = (part :: parts).reverse ++ [priority'] ++ [generation'] ++ [record'] := by
        rw [← List.reverse_reverse (name.split '.'), hsplit]
        simp
      have hcodes : name.codes.splitOn '.'.toNat
          = ((part :: parts).reverse.map PyStr.codes ++ [priority'.codes] ++ [generation'.codes]) ++ [record'.codes] := by
        have hmap := congrArg (List.map PyStr.codes) hparts
        unfold PyStr.split at hmap
        rw [List.map_map, show PyStr.codes ∘ PyStr.mk = id from rfl, List.map_id] at hmap
        simpa using hmap
      refine ⟨?_, ⟨hpall, le_antisymm hpmost hpleast⟩, ⟨hgall, hgleast⟩, hrecord⟩
      have hne : (part :: parts).reverse.map PyStr.codes ≠ [] := by simp
      have hwhole : ['.'.toNat].intercalate (name.codes.splitOn '.'.toNat) = name.codes := List.intercalate_splitOn _
      rw [← hwhole, hcodes, intercalate_concat (by simp), intercalate_concat (by simp), intercalate_concat hne,
        hpcodes, hgcodes]
      simp only [List.append_assoc, List.cons_append]
      rfl
    · cases h
  · intro h
    have hne : jobKey.codes.splitOn '.'.toNat ≠ [] := List.splitOn_ne_nil _ _
    obtain ⟨last, rest, hkey⟩ : ∃ last rest, (jobKey.split '.').reverse = last :: rest := by
      refine List.exists_cons_of_ne_nil fun hnil => hne ?_
      exact List.map_eq_nil_iff.mp (List.reverse_eq_nil_iff.mp hnil)
    unfold markerGroups
    rw [h.split]
    simp only [List.reverse_append, List.reverse_cons, List.reverse_nil, List.nil_append, List.cons_append, hkey]
    have hg : refGroup 'g' isBase36 1 (('g' :: generation).map Char.toNat).length
        (PyStr.letters ⟨('g' :: generation).map Char.toNat⟩) = some generation := by
      rw [PyStr.letters_map]
      exact refGroup_eq_some h.generation.1 h.generation.2 (by simp)
    have hp : refGroup 'p' Char.isDigit 3 3 (PyStr.letters ⟨('p' :: priority).map Char.toNat⟩) = some priority := by
      rw [PyStr.letters_map]
      exact refGroup_eq_some h.priority.1 h.priority.2.ge h.priority.2.le
    have hjoin : PyStr.join "." (rest.reverse ++ [last]) = jobKey := by
      rw [← List.reverse_cons, ← hkey, List.reverse_reverse]
      refine congrArg PyStr.mk ?_
      unfold PyStr.split
      rw [List.map_map]
      exact (congrArg _ (List.map_id _)).trans (List.intercalate_splitOn '.'.toNat)
    rw [hg, hp]
    simp only [Option.bind_eq_bind, Option.bind_some, if_pos h.record, hjoin]

/-! ## Job keys and priorities -/

theorem ValidJobKey.ascii (key : ValidJobKey) : (∀ c ∈ key.text.codes, c < 128) ∧ key.text.codes.length ≤ 86 := by
  have huuid : ∀ t : PyStr, isUuidText t = true → ∀ c ∈ t.codes, c < 128 := by
    intro t ht c hc
    unfold isUuidText at ht
    have hall := (of_decide_eq_true ht).2
    have hwhole : ['-'.toNat].intercalate (t.codes.splitOn '-'.toNat) = t.codes := List.intercalate_splitOn _
    rw [← hwhole] at hc
    rcases mem_intercalate hc with rfl | ⟨piece, hpiece, hmem⟩
    · decide
    · have hgroup := List.all_eq_true.mp hall ⟨piece⟩ (List.mem_map_of_mem hpiece)
      have hcode := List.all_eq_true.mp hgroup c hmem
      simp only [Bool.or_eq_true, Bool.and_eq_true, decide_eq_true_eq] at hcode
      omega
  have hlabel : ∀ t : PyStr, isLabel t = true → (∀ c ∈ t.codes, c < 128) ∧ t.codes.length ≤ 48 := by
    intro t ht
    unfold isLabel at ht
    cases hcodes : t.codes with
    | nil => exact ⟨List.forall_mem_nil _, Nat.zero_le _⟩
    | cons head rest =>
      rw [hcodes] at ht
      simp only [Bool.and_eq_true, decide_eq_true_eq, List.all_eq_true] at ht
      obtain ⟨⟨⟨hhead, hrest⟩, hlength⟩, -⟩ := ht
      have htail : ∀ c, isLabelTail c = true → c < 128 := by
        intro c hc
        simp only [isLabelTail, isLabelHead, Bool.or_eq_true, Bool.and_eq_true, decide_eq_true_eq, beq_iff_eq] at hc
        omega
      refine ⟨List.forall_mem_cons.mpr ⟨htail head ?_, fun c hc => htail c (hrest c hc)⟩, ?_⟩
      · unfold isLabelTail
        rw [hhead]
        rfl
      · rw [List.length_cons]
        omega
  have hparsed := key.parsed
  unfold parseJobKey at hparsed
  simp only at hparsed
  split_ifs at hparsed with hid hlength hhyphens
  · cases hparsed
  · have hwhole : key.text.codes.drop (key.text.codes.length - 36) = key.text.codes := by
      rw [hlength]
      rfl
    rw [hwhole, Bool.not_eq_false] at hid
    exact ⟨huuid key.text hid, by omega⟩
  · cases hparsed
  · obtain ⟨tag, htag, -⟩ := bind_eq_ok.mp hparsed
    obtain ⟨text, htext, htag⟩ := bind_eq_ok.mp htag
    have hplain : isLabel text = true := by
      by_contra hnot
      rw [if_neg hnot] at htag
      cases htag
    have hgiven : text = ⟨key.text.codes.take (key.text.codes.length - 38)⟩ := by
      unfold requireString at htext
      simp only at htext
      split_ifs at htext
      · cases htext
      · exact (Except.ok.inj htext).symm
    obtain ⟨hascii, hshort⟩ := hlabel text hplain
    rw [hgiven] at hascii hshort
    have hhyphens := not_not.mp hhyphens
    have hsplit : key.text.codes = key.text.codes.take (key.text.codes.length - 38)
        ++ ((key.text.codes.drop (key.text.codes.length - 38)).take
            (key.text.codes.length - 36 - (key.text.codes.length - 38))
          ++ key.text.codes.drop (key.text.codes.length - 36)) := by
      have hdrop : key.text.codes.drop (key.text.codes.length - 36)
          = (key.text.codes.drop (key.text.codes.length - 38)).drop
            (key.text.codes.length - 36 - (key.text.codes.length - 38)) := by
        rw [List.drop_drop]
        congr 1
        omega
      rw [hdrop, List.take_append_drop, List.take_append_drop]
    refine ⟨fun c hc => ?_, ?_⟩
    · rw [hsplit, hhyphens] at hc
      rcases List.mem_append.mp hc with hc | hc
      · exact hascii c hc
      · rcases List.mem_append.mp hc with hc | hc
        · have hhyphen : ∀ c ∈ ['-'.toNat, '-'.toNat], c < 128 := by decide
          exact hhyphen c hc
        · exact huuid _ (Bool.not_eq_false _ ▸ hid) c hc
    · simp only [List.length_take] at hshort
      omega

/-- The number three digits stand for. -/
def priorityOf (priority : List Char) : ℕ := Nat.ofDigits 10 (priority.reverse.map digitValue)

theorem digit_toNat {c : Char} (h : c.isDigit = true) : 48 ≤ c.toNat ∧ c.toNat ≤ 57 ∧ digitValue c = c.toNat - 48 := by
  unfold Char.isDigit at h
  simp only [Bool.and_eq_true, decide_eq_true_eq, ge_iff_le, UInt32.le_iff_toNat_le] at h
  have h9 : '9'.toNat = 57 := rfl
  have h0 : '0'.toNat = 48 := rfl
  obtain ⟨hlow, hhigh⟩ : 48 ≤ c.toNat ∧ c.toNat ≤ 57 := h
  refine ⟨hlow, hhigh, ?_⟩
  unfold digitValue
  rw [if_pos (by omega), h0]

theorem priorityText_priorityOf {priority : List Char} (h : priority.all Char.isDigit = true ∧ priority.length = 3) :
    StateMarker.priorityText (priorityOf priority) = priority.map Char.toNat ∧ priorityOf priority ≤ 999 := by
  obtain ⟨a, b, c, rfl⟩ := List.length_eq_three.mp h.2
  simp only [List.all_cons, List.all_nil, Bool.and_true, Bool.and_eq_true] at h
  obtain ⟨halow, hahigh, ha⟩ := digit_toNat h.1.1
  obtain ⟨hblow, hbhigh, hb⟩ := digit_toNat h.1.2.1
  obtain ⟨hclow, hchigh, hc⟩ := digit_toNat h.1.2.2
  have hvalue : priorityOf [a, b, c] = 100 * (a.toNat - 48) + 10 * (b.toNat - 48) + (c.toNat - 48) := by
    simp only [priorityOf, List.reverse_cons, List.reverse_nil, List.nil_append, List.cons_append, List.map_cons,
      List.map_nil, Nat.ofDigits_cons, Nat.ofDigits_nil, ha, hb, hc]
    ring
  rw [hvalue]
  unfold StateMarker.priorityText
  refine ⟨?_, by omega⟩
  simp only [List.map_cons, List.map_nil, List.cons.injEq, and_true]
  omega

theorem exists_priority {n : ℕ} (h : n ≤ 999) : ∃ priority : List Char,
    (priority.all Char.isDigit = true ∧ priority.length = 3)
      ∧ StateMarker.priorityText n = priority.map Char.toNat ∧ priorityOf priority = n := by
  have hdigit : ∀ d < 10, (Char.ofNat (d + 0x30)).isDigit = true ∧ (Char.ofNat (d + 0x30)).toNat = d + 0x30
      ∧ digitValue (Char.ofNat (d + 0x30)) = d := by decide
  obtain ⟨hadigit, hatext, havalue⟩ := hdigit (n / 100 % 10) (Nat.mod_lt _ (by decide))
  obtain ⟨hbdigit, hbtext, hbvalue⟩ := hdigit (n / 10 % 10) (Nat.mod_lt _ (by decide))
  obtain ⟨hcdigit, hctext, hcvalue⟩ := hdigit (n % 10) (Nat.mod_lt _ (by decide))
  refine ⟨[Char.ofNat (n / 100 % 10 + 0x30), Char.ofNat (n / 10 % 10 + 0x30), Char.ofNat (n % 10 + 0x30)],
    ⟨?_, rfl⟩, ?_, ?_⟩
  · simp only [List.all_cons, List.all_nil, hadigit, hbdigit, hcdigit, Bool.and_self]
  · simp only [StateMarker.priorityText, List.map_cons, List.map_nil, hatext, hbtext, hctext]
  · simp only [priorityOf, List.reverse_cons, List.reverse_nil, List.nil_append, List.cons_append, List.map_cons,
      List.map_nil, Nat.ofDigits_cons, Nat.ofDigits_nil, havalue, hbvalue, hcvalue]
    omega

/-! ## Paths read and written -/

theorem kindNamed_some {word : PyStr} {kind : StateKind} : kindNamed word = some kind ↔ word = kind.word := by
  constructor
  · intro h
    have hfound := List.find?_some (p := fun kind => decide (StateKind.word kind = word)) h
    exact (of_decide_eq_true hfound).symm
  · rintro rfl
    cases kind <;> decide

variable {m : StateMarker} {parts : List PyStr}

/-- **The paths that are accepted**, with what is read of them. -/
theorem fromPath_some : fromPath parts = some m ↔
    ∃ name priority generation, parts = m.kind.word :: (m.placement ++ [name]) ∧ m.placement ≠ []
      ∧ m.placement.mapM placementPart = .ok m.placement
      ∧ NameMatch name m.jobKey.text priority generation m.recordRef
      ∧ m.priority = priorityOf priority ∧ m.generation = ofBase36 generation ∧ m.generation < 2 ^ 64 := by
  constructor
  · intro h
    unfold fromPath at h
    split_ifs at h with hlength
    obtain ⟨kind, hkind, h⟩ := Option.bind_eq_some_iff.mp h
    have hword := kindNamed_some.mp hkind
    obtain ⟨first, rest, rfl⟩ := List.exists_cons_of_ne_nil (l := parts) (by rintro rfl; exact hlength (by decide))
    obtain rfl : first = kind.word := hword
    have hrest : rest ≠ [] := by
      rintro rfl
      exact hlength (by simp)
    have hlast : (kind.word :: rest).getLastD "" = rest.getLast hrest := by
      rw [List.getLastD_eq_getLast?, List.getLast?_cons, Option.getD_some,
        List.getLast?_eq_getLast_of_ne_nil hrest, Option.getD_some]
    rw [hlast, List.tail_cons] at h
    unfold markerFromPath at h
    split_ifs at h with hplaced
    split at h
    · rename_i placement jobKey priority generation record hplacement hgroups
      obtain rfl := (mapM_placementPart hplacement).1
      split at h
      · rename_i tag id hparsed
        split_ifs at h with hgeneration
        obtain rfl := Option.some.inj h
        refine ⟨rest.getLast hrest, priority, generation, ?_, hplaced, hplacement, markerGroups_some.mp hgroups, rfl, rfl,
          ?_⟩
        · rw [List.dropLast_append_getLast hrest]
        · show ofBase36 generation < 2 ^ 64
          omega
      · cases h
    · cases h
  · rintro ⟨name, priority, generation, rfl, hplaced, hplacement, hname, hpriority, hgeneration, hsmall⟩
    obtain ⟨kind, placement, ⟨text, tag, id, hparsed⟩, p, g, r⟩ := m
    obtain rfl : p = priorityOf priority := hpriority
    obtain rfl : g = ofBase36 generation := hgeneration
    have hlong : ¬(kind.word :: (placement ++ [name])).length < 3 := by
      have hpos := List.length_pos_iff.mpr hplaced
      simp only [List.length_cons, List.length_append, List.length_nil] at hpos ⊢
      omega
    unfold fromPath
    rw [if_neg hlong, List.headD_cons, kindNamed_some.mpr rfl, Option.bind_eq_bind, Option.bind_some, List.tail_cons,
      List.dropLast_concat]
    have hlast : (kind.word :: (placement ++ [name])).getLastD "" = name := by
      rw [← List.cons_append, List.getLastD_concat]
    rw [hlast]
    unfold markerFromPath
    rw [if_neg hplaced]
    simp only at hplacement hname
    simp only [hplacement, markerGroups_some.mpr hname]
    split
    · rename_i tag' id' hparsed'
      obtain ⟨rfl, rfl⟩ := Prod.mk.inj (Except.ok.inj (hparsed.symm.trans hparsed'))
      rw [if_neg (by simp only at hsmall; omega)]
      rfl
    · rename_i hfails
      exact absurd (hparsed.symm.trans hfails) (by simp)

/-- **The path of a marker**, if it has one. -/
theorem path_ok : m.path = .ok parts ↔
    m.priority ≤ 999 ∧ m.generation < 2 ^ 64 ∧ m.basename.codes.all (· < 128) = true
      ∧ m.basename.codes.length ≤ 213 ∧ parts = m.kind.word :: (m.placement ++ [m.basename]) := by
  have hbasename : (⟨m.jobKey.text.codes ++ '.'.toNat :: 'p'.toNat :: StateMarker.priorityText m.priority
      ++ '.'.toNat :: 'g'.toNat :: (toBase36 m.generation).map Char.toNat ++ '.'.toNat :: m.recordRef.codes⟩ : PyStr)
        = m.basename := by
    unfold StateMarker.basename StateMarker.generationText
    simp only [List.append_assoc, List.cons_append, List.nil_append]
  unfold StateMarker.path markerPath markerBasename
  rw [m.jobKey.parsed]
  simp only [hbasename, bind, Except.bind]
  by_cases hpriority : 999 < m.priority
  · rw [if_pos hpriority]
    constructor
    · intro h
      cases h
    · intro h
      omega
  · rw [if_neg hpriority]
    by_cases hgeneration : 2 ^ 64 - 1 < m.generation
    · rw [if_pos hgeneration]
      constructor
      · intro h
        cases h
      · intro h
        omega
    · rw [if_neg hgeneration]
      unfold asciiLength
      by_cases hascii : m.basename.codes.all (· < 128) = true
      · rw [if_pos hascii]
        simp only
        by_cases hlength : 213 < m.basename.codes.length
        · rw [if_pos hlength]
          constructor
          · intro h
            cases h
          · intro h
            omega
        · rw [if_neg hlength]
          constructor
          · intro h
            exact ⟨by omega, by omega, hascii, by omega, (Except.ok.inj h).symm⟩
          · rintro ⟨-, -, -, -, rfl⟩
            rfl
      · rw [if_neg hascii]
        constructor
        · intro h
          cases h
        · intro h
          exact absurd h.2.2.1 hascii

/-! ## The codec -/

theorem NameMatch.basename (h : NameMatch name m.jobKey.text priority generation m.recordRef)
    (hpriority : m.priority = priorityOf priority) (hgeneration : m.generation = ofBase36 generation) :
    m.basename = name ↔ Shortest generation := by
  have hnumeral := toBase36_ofBase36 h.generation.1 h.generation.2
  have hcodes : m.basename.codes = m.jobKey.text.codes ++ '.'.toNat :: (('p' :: priority).map Char.toNat
      ++ '.'.toNat :: (('g' :: toBase36 (ofBase36 generation)).map Char.toNat ++ '.'.toNat :: m.recordRef.codes)) := by
    unfold StateMarker.basename StateMarker.generationText
    rw [hpriority, hgeneration, (priorityText_priorityOf h.priority).1]
    simp only [List.append_assoc, List.cons_append, List.nil_append, List.map_cons]
  rw [← hnumeral]
  constructor
  · rintro rfl
    have hname := hcodes.symm.trans h.name
    simp only [List.append_cancel_left_eq, List.cons.injEq, true_and, List.map_cons, List.append_cancel_right_eq,
      List.cons_append] at hname
    exact List.map_injective_iff.mpr (fun c d hcd => Char.toNat_inj.mp hcd) hname
  · intro hshort
    rw [hshort] at hcodes
    exact congrArg PyStr.mk (hcodes.trans h.name.symm)

theorem NameMatch.ascii {key : ValidJobKey} (h : NameMatch name key.text priority generation record) :
    name.codes.all (· < 128) = true := by
  have hdigits : ∀ (letter : Char) (text : List Char), letter.toNat < 128 →
      (∀ c ∈ text, c.toNat < 128) → ∀ c ∈ (letter :: text).map Char.toNat, c < 128 := by
    intro letter text hletter htext c hc
    obtain ⟨d, hd, rfl⟩ := List.mem_map.mp hc
    rcases List.mem_cons.mp hd with rfl | hd
    · exact hletter
    · exact htext d hd
  have hpriority : ∀ c ∈ priority, c.toNat < 128 := fun c hc => by
    have hdigit := digit_toNat (List.all_eq_true.mp h.priority.1 c hc)
    omega
  have hgeneration : ∀ c ∈ generation, c.toNat < 128 := by
    intro c hc
    have hbase := List.all_eq_true.mp h.generation.1 c hc
    unfold isBase36 at hbase
    simp only [Bool.or_eq_true, Bool.and_eq_true, decide_eq_true_eq, Char.le_def, UInt32.le_iff_toNat_le] at hbase
    have h9 : '9'.val.toNat = 57 := rfl
    have hz : 'z'.val.toNat = 122 := rfl
    simp only [Char.toNat]
    omega
  refine List.all_eq_true.mpr fun c hc => decide_eq_true ?_
  rw [h.name] at hc
  rcases List.mem_append.mp hc with hc | hc
  · exact key.ascii.1 c hc
  · rcases List.mem_cons.mp hc with rfl | hc
    · decide
    · rcases List.mem_append.mp hc with hc | hc
      · exact hdigits 'p' priority (by decide) hpriority c hc
      · rcases List.mem_cons.mp hc with rfl | hc
        · decide
        · rcases List.mem_append.mp hc with hc | hc
          · exact hdigits 'g' generation (by decide) hgeneration c hc
          · rcases List.mem_cons.mp hc with rfl | hc
            · decide
            · exact ((codes_of_isMarkerRecord h.record).2 c hc).1

theorem path_of_fromPath (h : fromPath parts = some m) :
    m.path = .ok parts ↔ PlainName (parts.getLastD "") := by
  obtain ⟨name, priority, generation, rfl, -, -, hname, hpriority, hgeneration, hsmall⟩ := fromPath_some.mp h
  have hlast : (m.kind.word :: (m.placement ++ [name])).getLastD "" = name := by
    rw [← List.cons_append, List.getLastD_concat]
  have hbasename := hname.basename hpriority hgeneration
  rw [hlast, path_ok]
  constructor
  · rintro ⟨-, -, -, hlength, hparts⟩
    have hsame : name = m.basename := by
      have hconcat := (List.cons.inj hparts).2
      exact List.singleton_inj.mp (List.append_cancel_left hconcat)
    intro jobKey priority' generation' record hgroups
    have hgroups' := markerGroups_some.mpr hname
    rw [hgroups'] at hgroups
    simp only [Option.some.injEq, Prod.mk.injEq] at hgroups
    obtain ⟨-, -, rfl, -⟩ := hgroups
    exact ⟨hbasename.mp hsame.symm, hsame ▸ hlength⟩
  · intro hplain
    obtain ⟨hshort, hlength⟩ := hplain _ _ _ _ (markerGroups_some.mpr hname)
    have hsame := hbasename.mpr hshort
    rw [hsame]
    exact ⟨hpriority ▸ (priorityText_priorityOf hname.priority).2, hsmall, hname.ascii, hlength, rfl⟩

theorem ValidRecordRef.marked {recordRef : PyStr} (h : ValidRecordRef recordRef) :
    isMarkerRecord recordRef = true ∧ recordRef.codes.length ≤ 106 := by
  obtain rfl | ⟨v, hv⟩ := h
  · decide
  · obtain ⟨text, writer, segment, offset, length, checksum, rfl, hmatch, -⟩ := parseRecordRefParts_ok.mp hv
    constructor
    · unfold isMarkerRecord
      simp only [PyStr.letters_map, hmatch.splitOn]
      rw [refGroup_eq_some hmatch.writer.1 hmatch.writer.2.ge hmatch.writer.2.le,
        refGroup_eq_some hmatch.segment.1 hmatch.segment.2.1 (by simp),
        refGroup_eq_some hmatch.offset.1 hmatch.offset.2.1 (by simp),
        refGroup_eq_some hmatch.length.1 hmatch.length.2.1 (by simp),
        refGroup_eq_some hmatch.checksum.1 hmatch.checksum.2.ge hmatch.checksum.2.le]
      rfl
    · have hlength : text.length = 9 + writer.length + segment.length + offset.length + length.length
          + checksum.length := by
        rw [hmatch.text]
        simp [List.intercalate]
        omega
      have hw := hmatch.writer.2
      have hs := hmatch.segment.2.2
      have ho := hmatch.offset.2.2
      have hl := hmatch.length.2.2
      have hc := hmatch.checksum.2
      rw [List.length_map]
      omega

theorem utf8Bytes_of_ascii {t : PyStr} (h : t.codes.all (· < 128) = true) : t.utf8Bytes = t.codes.length := by
  unfold PyStr.utf8Bytes
  have hone : t.codes.map PyStr.codeBytes = t.codes.map fun _ => 1 := by
    refine List.map_congr_left fun c hc => ?_
    have hsmall := of_decide_eq_true (List.all_eq_true.mp h c hc)
    exact if_pos hsmall
  rw [hone]
  simp

theorem utf8Bytes_of_placementPart {part p : PyStr} (h : placementPart part = .ok p) : part.utf8Bytes ≤ 255 := by
  unfold placementPart at h
  split_ifs at h
  · cases h
  · obtain ⟨length, hlength, h⟩ := bind_eq_ok.mp h
    unfold utf8Length at hlength
    split_ifs at hlength
    obtain rfl := Except.ok.inj hlength
    split_ifs at h with hlong
    · cases h
    · omega

theorem StateMarker.Valid.roundTrip (h : m.Valid) :
    ∃ parts, m.path = .ok parts ∧ fromPath parts = some m ∧ ∀ part ∈ parts, part.utf8Bytes ≤ 255 := by
  obtain ⟨hrecord, hreference⟩ := h.recordRef.marked
  obtain ⟨priority, hdigits, htext, hpriority⟩ := exists_priority h.priority
  have hname : NameMatch m.basename m.jobKey.text priority (toBase36 m.generation) m.recordRef := by
    refine ⟨?_, hdigits, ⟨toBase36_all _, toBase36_pos _⟩, hrecord⟩
    unfold StateMarker.basename StateMarker.generationText
    rw [htext]
    simp only [List.append_assoc, List.cons_append, List.nil_append, List.map_cons]
  have hlength : m.basename.codes.length ≤ 213 := by
    have hkey := m.jobKey.ascii.2
    have hgeneration : (toBase36 m.generation).length ≤ 13 := length_toBase36_le (lt_trans h.generation (by norm_num))
    have hthree := hdigits.2
    rw [hname.name]
    simp only [List.length_append, List.length_cons, List.length_map]
    omega
  refine ⟨m.kind.word :: (m.placement ++ [m.basename]), ?_, ?_, ?_⟩
  · exact path_ok.mpr ⟨h.priority, h.generation, hname.ascii, hlength, rfl⟩
  · exact fromPath_some.mpr ⟨m.basename, priority, toBase36 m.generation, rfl, h.placed, h.placement, hname,
      hpriority.symm, (ofBase36_toBase36 _).symm, h.generation⟩
  · refine List.forall_mem_cons.mpr ⟨?_, fun part hpart => ?_⟩
    · cases m.kind <;> decide
    · rcases List.mem_append.mp hpart with hpart | hpart
      · obtain ⟨p, hp⟩ := mapM_returns.mp ⟨_, h.placement⟩ part hpart
        exact utf8Bytes_of_placementPart hp
      · rw [List.mem_singleton.mp hpart, utf8Bytes_of_ascii hname.ascii]
        omega

/-- **The codec of marker names.** What is written of a valid marker is read back, and no component is longer than 255
bytes; what is read is written as it was if and only if its name is plain; and plain paths are told apart by their
markers. -/
theorem marker_codec (m : StateMarker) (parts parts' : List PyStr) :
    (m.Valid →
      ∃ written, m.path = .ok written ∧ fromPath written = some m ∧ ∀ part ∈ written, part.utf8Bytes ≤ 255)
    ∧ (fromPath parts = some m →
      (m.path = .ok parts ↔ PlainName (parts.getLastD "")))
    ∧ (PlainName (parts.getLastD "") → PlainName (parts'.getLastD "") →
      fromPath parts = some m → fromPath parts' = some m → parts = parts') := by
  refine ⟨fun hm => hm.roundTrip, fun h => path_of_fromPath h, fun hplain hplain' h h' => ?_⟩
  have hpath := (path_of_fromPath h).mpr hplain
  have hpath' := (path_of_fromPath h').mpr hplain'
  exact Except.ok.inj (hpath.symm.trans hpath')

namespace PaddedGeneration

def key : ValidJobKey where
  text := "01234567-89ab-cdef-0123-456789abcdef"
  tag := none
  id := "01234567-89ab-cdef-0123-456789abcdef"
  parsed := rfl

def marker : StateMarker := ⟨.ready, ["p"], key, 500, 1, "init"⟩

def padded : List PyStr :=
  ["ready", "p", "01234567-89ab-cdef-0123-456789abcdef.p500.g01.init"]

def plain : List PyStr :=
  ["ready", "p", "01234567-89ab-cdef-0123-456789abcdef.p500.g1.init"]

theorem fromPath_padded : fromPath padded = some marker := by
  refine fromPath_some.mpr ⟨_, "500".toList, "01".toList, rfl, by decide, rfl, ?_, by decide, by decide, by decide⟩
  exact ⟨by decide, by decide, by decide, by decide⟩

end PaddedGeneration

/-- A job that is ready, at generation one. -/
theorem marker_codec_ready : ∃ parts, PaddedGeneration.marker.path = .ok parts
    ∧ fromPath parts = some PaddedGeneration.marker ∧ ∀ part ∈ parts, part.utf8Bytes ≤ 255 :=
  (marker_codec PaddedGeneration.marker [] []).1 ⟨by decide, rfl, by decide, by decide, Or.inl rfl⟩

/-- **A generation with a zero in front is accepted**, and denotes the same state as the one without. -/
theorem padded_generation_accepted :
    ¬((∀ parts m, fromPath parts = some m → m.path = .ok parts)
      ∧ ∀ parts parts' m, fromPath parts = some m → fromPath parts' = some m → parts = parts') := by
  rintro ⟨hwritten, -⟩
  have hpath := path_ok.mp (hwritten _ _ PaddedGeneration.fromPath_padded)
  have hparts : PaddedGeneration.padded = PaddedGeneration.plain := hpath.2.2.2.2.trans (by decide)
  revert hparts
  decide
