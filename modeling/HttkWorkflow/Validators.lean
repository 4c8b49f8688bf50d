import HttkWorkflow.Errors

/-!
# Validators of protocol values

The checks every reader of a protocol document shares. Each takes the value
a member has, absent members being `none`, and the name that the message of
its `FormatError` begins with.
-/

/-- **`require_string`**: a nonempty string. -/
def requireString (value : Option Json) (name : String) : Except Exc PyStr :=
  match value with
  | some (.str t) =>
    if t.codes = [] then raiseFormat [.lit name, .lit " must be a nonempty string"] else .ok t
  | _ => raiseFormat [.lit name, .lit " must be a nonempty string"]

/-- A lowercase letter or a digit, of ASCII. -/
def isLabelHead (c : Nat) : Bool := (0x61 ≤ c && c ≤ 0x7A) || (0x30 ≤ c && c ≤ 0x39)

/-- A label character: also a dot, an underscore or a hyphen. -/
def isLabelTail (c : Nat) : Bool := isLabelHead c || c == 0x2E || c == 0x5F || c == 0x2D

/-- Whether two hyphens stand next to each other. -/
def hasDoubleHyphen : List Nat → Bool
  | a :: b :: rest => (a == 0x2D && b == 0x2D) || hasDoubleHyphen (b :: rest)
  | _ => false

/-- `_LABEL_PATTERN`, a head and up to 47 more characters, without `--`. -/
def isLabel (t : PyStr) : Bool :=
  match t.codes with
  | [] => false
  | c :: rest => isLabelHead c && rest.all isLabelTail && rest.length ≤ 47 && !hasDoubleHyphen t.codes

/-- **`validate_label`**: one protocol label. -/
def validateLabel (value : Option Json) (name : String) : Except Exc PyStr := do
  let text ← requireString value name
  if isLabel text then .ok text
  else raiseFormat [.lit name, .lit " has invalid component syntax"]

/-- **`require_mapping`**: an object. -/
def requireMapping (value : Option Json) (name : String) : Except Exc (List (PyStr × Json)) :=
  match value with
  | some (.obj members) => .ok members
  | _ => raiseFormat [.lit name, .lit " must be an object"]

/-- **`require_int`**: an integer within bounds; a boolean is none. -/
def requireInt (value : Option Json) (name : String) (minimum : Int) (maximum : Option Int) :
    Except Exc Int :=
  match value with
  | some (.int n) =>
    if n < minimum ∨ maximum.any (n > ·) then
      match maximum with
      | some limit => raiseFormat
          [.lit name, .lit " must be ", .num minimum, .lit "..", .num limit]
      | none => raiseFormat [.lit name, .lit " must be ", .num minimum, .lit " or greater"]
    else .ok n
  | _ => raiseFormat [.lit name, .lit " must be an integer"]

/-- `len(text.encode("utf-8"))`, which a lone surrogate does not survive. -/
def utf8Length (text : PyStr) : Except Exc Nat :=
  if text.encodable then .ok text.utf8Bytes
  else .error ⟨.unicodeEncode, [.lit "surrogates not allowed"]⟩

/-- **`validate_step`**: a step name of at most 128 bytes, without a slash
and without NUL. -/
def validateStep (value : Option Json) (name : String) : Except Exc PyStr := do
  let text ← requireString value name
  let length ← utf8Length text
  if length > 128 ∨ text.contains '/' ∨ text.codes.contains 0 then
    raiseFormat [.lit name, .lit " is not a valid step name"]
  else .ok text

def validateResource (name : String) (entry : PyStr × Json) : Except Exc (PyStr × Json) := do
  let label ← validateLabel (some (.str entry.fst)) (name ++ " key")
  match entry.snd with
  | .int n =>
    if n < 0 then raiseFormat [.lit name, .lit ".", .raw label, .lit " must be non-negative"]
    else .ok (label, .int n)
  | _ => raiseFormat [.lit name, .lit ".", .raw label, .lit " must be an integer"]

/-- **`validate_resources`**: labels with non-negative integers. -/
def validateResources (value : Option Json) (name : String) : Except Exc (List (PyStr × Json)) := do
  (← requireMapping value name).mapM (validateResource name)

/-- `character.isspace()`. -/
def isSpace (c : Nat) : Bool :=
  (0x09 ≤ c && c ≤ 0x0D) || (0x1C ≤ c && c ≤ 0x20) || c == 0x85 || c == 0xA0 || c == 0x1680
    || (0x2000 ≤ c && c ≤ 0x200A) || c == 0x2028 || c == 0x2029 || c == 0x202F || c == 0x205F
    || c == 0x3000

/-- **`Failure`**: one structured failure record. -/
structure Failure where
  code : PyStr
  message : PyStr
  details : Option (List (PyStr × Json))
  /-- Whether repeating the attempt may help. -/
  retryable : Bool

def Failure.asMapping (failure : Failure) : Json :=
  let details : List (PyStr × Json) := match failure.details with
    | some d => [("details", .obj d)]
    | none => []
  let retryable : List (PyStr × Json) := if failure.retryable then [("retryable", .bool true)] else []
  .obj (("code", .str failure.code) :: ("message", .str failure.message) :: (details ++ retryable))

def failureMembers : List PyStr := ["code", "message", "details", "retryable"]

/-- The names of a mapping that a failure does not have, sorted, with commas
between them. -/
def unsupportedMembers (members : List (PyStr × Json)) : Message :=
  (((members.map Prod.fst).filter (· ∉ failureMembers)).mergeSort
    (fun a b => decide (a.codes ≤ b.codes))).map MessagePart.raw |>.intersperse (.lit ", ")

/-- **`validate_failure`**: one published failure object. -/
def validateFailure (value : Option Json) (name : String) : Except Exc Failure := do
  let members ← requireMapping value name
  let unsupported := unsupportedMembers members
  if unsupported.isEmpty = false then
    raiseFormat ([.lit name, .lit " has unsupported members: "] ++ unsupported)
  else
  let code ← requireString (Json.get members "code") (name ++ ".code")
  let length ← utf8Length code
  if length > 128 ∨ code.codes.contains 0 ∨ code.codes.any isSpace then
    raiseFormat [.lit name, .lit ".code must be one short token without whitespace"]
  else
  let message ← requireString (Json.get members "message") (name ++ ".message")
  let details ← match Json.get members "details" with
    | none | some .null => .ok none
    | value => (requireMapping value (name ++ ".details")).map some
  match Json.get members "retryable" with
  | none => .ok ⟨code, message, details, false⟩
  | some (.bool retryable) => .ok ⟨code, message, details, retryable⟩
  | _ => raiseFormat [.lit name, .lit ".retryable must be a boolean"]

/-- **`canonical_uuid`**: a UUID as `str` prints it. `uuid` is
`str(uuid.UUID(text))`, where that parses. -/
def canonicalUuid (uuid : PyStr → Option PyStr) (value : Option Json) (name : String) :
    Except Exc PyStr := do
  let text ← requireString value name
  match uuid text with
  | none => raiseFormat [.lit name, .lit " must be a UUID"]
  | some canonical =>
    if text ≠ canonical then
      raiseFormat [.lit name, .lit " must use lowercase canonical UUID syntax"]
    else .ok canonical

def unsafePathComponents : List PyStr := ["", ".", "..", ".httk-workspace"]

def placementPart (part : PyStr) : Except Exc PyStr := do
  if part ∈ unsafePathComponents ∨ part.codes.contains 0 then
    raiseFormat [.lit "invalid placement component: ", .repr (some (.str part))]
  else
    let length ← utf8Length part
    if length > 255 then
      raiseFormat [.lit "placement component is too long: ", .repr (some (.str part))]
    else .ok part

/-- **`normalize_placement`**: a relative path without unsafe components, as
`PurePosixPath` splits it. -/
def normalizePlacement (value : PyStr) : Except Exc (List PyStr) :=
  let parts := (value.split '/').filter fun t => t.codes ≠ [] ∧ t ≠ PyStr.ofString "."
  if value.codes.head? = some '/'.toNat ∨ parts = [] then
    raiseFormat [.lit "placement must be a nonempty relative POSIX path"]
  else parts.mapM placementPart

/-! ## What the validators ensure -/

section Ensures

variable {value : Option Json} {name : String}

theorem ensures_requireString : Ensures (requireString value name) fun t => value = some (.str t) := by
  unfold requireString
  split
  · split_ifs
    · exact ensures_raiseFormat rfl
    · exact rfl
  · exact ensures_raiseFormat rfl

theorem ensures_requireMapping : Ensures (requireMapping value name) fun members => value = some (.obj members) := by
  unfold requireMapping
  split
  · exact rfl
  · exact ensures_raiseFormat rfl

theorem ensures_requireInt {minimum : Int} {maximum : Option Int} :
    Ensures (requireInt value name minimum maximum) fun n => value = some (.int n) := by
  unfold requireInt
  split
  · split_ifs
    · split
      · exact ensures_raiseFormat rfl
      · exact ensures_raiseFormat rfl
    · exact rfl
  · exact ensures_raiseFormat rfl

theorem encodable_of_isLabel {t : PyStr} (h : isLabel t = true) : t.encodable = true := by
  have htail : ∀ c, isLabelTail c = true → PyStr.isSurrogate c = false := by
    intro c hc
    simp only [isLabelTail, isLabelHead, Bool.or_eq_true, Bool.and_eq_true, decide_eq_true_eq, beq_iff_eq] at hc
    simp only [PyStr.isSurrogate, Bool.and_eq_false_iff, decide_eq_false_iff_not]
    omega
  unfold PyStr.encodable
  rw [List.all_eq_true]
  intro c hc
  rw [Bool.not_eq_true']
  refine htail c ?_
  unfold isLabel at h
  cases hcodes : t.codes with
  | nil =>
    rw [hcodes] at hc
    cases hc
  | cons d rest =>
    rw [hcodes] at h hc
    simp only [Bool.and_eq_true, List.all_eq_true] at h
    rcases List.mem_cons.mp hc with rfl | hc
    · simp [isLabelTail, h.1.1.1]
    · exact h.1.1.2 c hc

theorem ensures_validateLabel : Ensures (validateLabel value name) (·.encodable = true) := by
  refine ensures_requireString.bind fun text _ => ?_
  split_ifs with hlabel
  · exact encodable_of_isLabel hlabel
  · exact ensures_raiseFormat rfl

/-- **A member that encodes where it is a string.** -/
def Encodes (value : Option Json) : Prop := ∀ t, value = some (.str t) → t.encodable = true

theorem ensures_validateStep (h : Encodes value) : Ensures (validateStep value name) (·.encodable = true) := by
  refine ensures_requireString.bind fun text htext => ?_
  unfold utf8Length
  rw [if_pos (h text htext)]
  show Ensures (if _ then _ else _) _
  split_ifs
  · exact ensures_raiseFormat rfl
  · exact h text htext

theorem encodable_of_validateFailure {f : Failure} (h : validateFailure value name = .ok f) :
    f.code.encodable = true := by
  unfold validateFailure at h
  obtain ⟨members, -, h⟩ := bind_eq_ok.mp h
  simp only at h
  split_ifs at h
  · cases h
  · obtain ⟨code, -, h⟩ := bind_eq_ok.mp h
    obtain ⟨length, hlength, h⟩ := bind_eq_ok.mp h
    split_ifs at h
    · cases h
    · obtain ⟨message, -, h⟩ := bind_eq_ok.mp h
      have hcode : code.encodable = true := by
        unfold utf8Length at hlength
        split_ifs at hlength with hencodes
        exact hencodes
      split at h
      all_goals
        obtain ⟨details, -, h⟩ := bind_eq_ok.mp h
        split at h
        · rw [← Except.ok.inj h]
          exact hcode
        · rw [← Except.ok.inj h]
          exact hcode
        · cases h

theorem ensures_validateResources (depth : Nat) : Ensures (validateResources value name)
    fun resources => ∀ e ∈ resources, e.fst.encodable = true ∧ e.snd.storable depth = true := by
  refine ensures_requireMapping.bind fun members _ => ensures_mapM fun entry _ => ?_
  refine ensures_validateLabel.bind fun label hlabel => ?_
  have hmessage : ∀ rest : String, Message.encodable [.lit name, .lit ".", .raw label, .lit rest] = true := by
    intro rest
    simp [Message.encodable, MessagePart.encodable, hlabel]
  split
  · split_ifs
    · exact ensures_raiseFormat (hmessage _)
    · exact ⟨hlabel, rfl⟩
  · exact ensures_raiseFormat (hmessage _)

theorem ensures_canonicalUuid {uuid : PyStr → Option PyStr} : Ensures (canonicalUuid uuid value name)
    fun t => value = some (.str t) := by
  refine ensures_requireString.bind fun text htext => ?_
  split
  · exact ensures_raiseFormat rfl
  · split_ifs with hsame
    · exact ensures_raiseFormat rfl
    · rw [← not_not.mp hsame]
      exact htext

theorem subset_of_mem_splitOnP {p : Nat → Bool} {codes piece : List Nat}
    (h : piece ∈ codes.splitOnP p) : piece ⊆ codes := by
  induction codes generalizing piece with
  | nil =>
    rw [List.splitOnP_nil] at h
    rw [List.mem_singleton.mp h]
    exact List.Subset.refl _
  | cons c codes ih =>
    rw [List.splitOnP_cons_eq_if_modifyHead] at h
    split_ifs at h
    · rcases List.mem_cons.mp h with rfl | h
      · exact List.nil_subset _
      · exact List.subset_cons_of_subset c (ih h)
    · cases hpieces : codes.splitOnP p with
      | nil => exact absurd hpieces (List.splitOnP_ne_nil p codes)
      | cons first rest =>
        rw [hpieces, List.modifyHead_cons] at h
        rcases List.mem_cons.mp h with rfl | h
        · exact List.cons_subset_cons c (ih (hpieces ▸ List.mem_cons_self))
        · exact List.subset_cons_of_subset c (ih (hpieces ▸ List.mem_cons_of_mem _ h))

theorem encodable_of_mem_split {t part : PyStr} {c : Char} (h : t.encodable = true)
    (hpart : part ∈ t.split c) : part.encodable = true := by
  unfold PyStr.split at hpart
  obtain ⟨codes, hcodes, rfl⟩ := List.mem_map.mp hpart
  unfold PyStr.encodable at h ⊢
  rw [List.all_eq_true] at h ⊢
  intro d hd
  exact h d (subset_of_mem_splitOnP hcodes hd)

theorem ensures_normalizePlacement {text : PyStr} (h : text.encodable = true) :
    Ensures (normalizePlacement text) fun _ => True := by
  unfold normalizePlacement
  simp only
  split_ifs
  · exact ensures_raiseFormat rfl
  · refine (ensures_mapM (Q := fun _ => True) fun part hpart => ?_).imp fun _ _ => trivial
    have hencodes := encodable_of_mem_split h (List.mem_filter.mp hpart).1
    unfold placementPart utf8Length
    rw [if_pos hencodes]
    split_ifs
    · exact ensures_raiseFormat rfl
    · show Ensures (if _ then _ else _) _
      split_ifs
      · exact ensures_raiseFormat rfl
      · trivial

end Ensures
