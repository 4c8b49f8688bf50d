import Mathlib.Algebra.GroupWithZero.Nat
import Mathlib.Data.List.Basic
import Mathlib.Data.List.Lex

/-!
# Python values as JSON documents carry them

What a process of another user writes into a JSON file reaches the code
as a Python value, and the differences between that value and its Lean
namesake are exactly what the error paths turn on. A Python string may
hold lone surrogates, which no encoding accepts; a number may be a float,
infinite or not a number; and `==` compares `True`, `1` and `1.0` as
equal. The types here keep those differences and nothing else.

`PyStr` is a sequence of code points, so that encoding it can fail.
`Json` is the value `json.loads` returns, an object being the list of its
members in insertion order. `Dict` is a dictionary with the lemmas its
users need to never unfold it.
-/

/-- **A Python `str`**: a sequence of code points, surrogates included. -/
structure PyStr where
  /-- The code points, in order. -/
  codes : List Nat
deriving DecidableEq, Repr

-- Named here, so that all later definitions decide membership with the same ones.
instance lawfulBEq_chars : LawfulBEq (List Char) := inferInstance
instance : LawfulBEq (List PyStr) := inferInstance
instance : LawfulBEq (List PyStr × PyStr) := inferInstance

namespace PyStr

/-- A well-formed string, as the sequence of its code points. -/
def ofString (s : String) : PyStr := ⟨s.toList.map Char.toNat⟩

instance : Coe String PyStr := ⟨ofString⟩

theorem ofString_injective : Function.Injective ofString := by
  intro a b h
  have h' : a.toList.map Char.toNat = b.toList.map Char.toNat := congrArg codes h
  have hinj : Function.Injective Char.toNat := fun c d hcd => Char.toNat_inj.mp hcd
  exact String.toList_inj.mp (List.map_injective_iff.mpr hinj h')

@[simp] theorem ofString_inj {a b : String} : ofString a = ofString b ↔ a = b :=
  ofString_injective.eq_iff

/-- A UTF-16 surrogate code point, which no Unicode encoding accepts. -/
def isSurrogate (c : Nat) : Bool := 0xD800 ≤ c && c ≤ 0xDFFF

/-- **Whether `encode("utf-8")` succeeds.** -/
def encodable (s : PyStr) : Bool := s.codes.all fun c => !isSurrogate c

@[simp] theorem encodable_ofString (s : String) : (ofString s).encodable = true := by
  unfold encodable ofString
  rw [List.all_eq_true]
  intro c hc
  obtain ⟨ch, -, rfl⟩ := List.mem_map.mp hc
  have hv := ch.valid
  simp only [isSurrogate, Bool.not_eq_true', Bool.and_eq_false_iff, decide_eq_false_iff_not]
  unfold Char.toNat
  rcases hv with h | ⟨h, -⟩
  · exact Or.inl (by omega)
  · exact Or.inr (by omega)

/-- Strings are compared by their code points. -/
instance : LinearOrder PyStr := LinearOrder.lift' codes fun a b h => by
  cases a
  cases b
  exact congrArg mk h

/-- Whether a code point occurs in the string, as `in` tests it. -/
def contains (s : PyStr) (c : Char) : Bool := s.codes.contains c.toNat

/-- Splitting at one code point, empty pieces kept, as `str.split` does. -/
def split (s : PyStr) (c : Char) : List PyStr :=
  (s.codes.splitOn c.toNat).map PyStr.mk

/-- How many bytes the UTF-8 encoding of one code point takes. -/
def codeBytes (c : Nat) : Nat :=
  if c < 0x80 then 1 else if c < 0x800 then 2 else if c < 0x10000 then 3 else 4

/-- The length of the UTF-8 encoding. -/
def utf8Bytes (s : PyStr) : Nat := (s.codes.map codeBytes).sum

/-- Concatenation. -/
def append (a b : PyStr) : PyStr := ⟨a.codes ++ b.codes⟩

instance : Append PyStr := ⟨append⟩

end PyStr

/-- **A Python `float`**, which may be no number at all. -/
inductive PyFloat where
  | nan
  | inf (negative : Bool)
  | finite (q : Rat)
deriving DecidableEq, Repr

/-- **A decoded JSON value.** An object lists its members in insertion
order, each name once. -/
inductive Json where
  | null
  | bool (b : Bool)
  | int (n : Int)
  | float (x : PyFloat)
  | str (s : PyStr)
  | arr (items : List Json)
  | obj (members : List (PyStr × Json))
deriving Repr

namespace Json

/-- `value.get(name)` on an object, `None` for an absent member. -/
def get (members : List (PyStr × Json)) (name : String) : Option Json :=
  members.lookup (PyStr.ofString name)

/-- **Python's `value == n`** for a JSON value and an integer: booleans are
integers, and a float compares by value. -/
def eqInt : Json → Int → Bool
  | .bool b, n => (if b then 1 else 0) == n
  | .int m, n => m == n
  | .float (.finite q), n => q == (n : Rat)
  | _, _ => false

/-- An absent member reads as `None`, which is equal to no number. -/
def optEqInt (value : Option Json) (n : Int) : Bool :=
  (value.map (eqInt · n)).getD false

/-- Python's `value == text` for a JSON value and a string. -/
def eqStr : Json → PyStr → Bool
  | .str s, t => s == t
  | _, _ => false

/-- An absent member reads as `None`, which is equal to no string. -/
def optEqStr (value : Option Json) (t : PyStr) : Bool :=
  (value.map (eqStr · t)).getD false

@[simp] theorem eqStr_iff {j : Json} {t : PyStr} : j.eqStr t = true ↔ j = .str t := by
  cases j <;> simp [eqStr]

@[simp] theorem optEqStr_iff {value : Option Json} {t : PyStr} : optEqStr value t = true ↔ value = some (.str t) := by
  cases value <;> simp [optEqStr]

/-- **`bool(value)`**: the truth value of a JSON value. -/
def truthy : Json → Bool
  | .null => false
  | .bool b => b
  | .int n => n != 0
  | .float (.finite q) => q != 0
  | .float _ => true
  | .str s => !s.codes.isEmpty
  | .arr items => !items.isEmpty
  | .obj members => !members.isEmpty

/-! ## What the JSON functions take

`json.loads` refuses a number of more than 4300 digits and a value nested
too deep, and `json.dumps` a string that does not encode and, again, a value
nested too deep. The depth is the interpreter's. -/

mutual

/-- Whether every integer of a value has at most 4300 digits. -/
def numbersFit : Json → Bool
  | .int n => n.natAbs < 10 ^ 4300
  | .arr items => itemsFit items
  | .obj members => membersFit members
  | _ => true

def itemsFit : List Json → Bool
  | [] => true
  | item :: items => item.numbersFit && itemsFit items

def membersFit : List (PyStr × Json) → Bool
  | [] => true
  | (_, value) :: members => value.numbersFit && membersFit members

end

mutual

def nests (depth : Nat) : Json → Bool
  | .arr items => depth ≠ 0 && itemsNest (depth - 1) items
  | .obj members => depth ≠ 0 && membersNest (depth - 1) members
  | _ => true

def itemsNest (depth : Nat) : List Json → Bool
  | [] => true
  | item :: items => item.nests depth && itemsNest depth items

def membersNest (depth : Nat) : List (PyStr × Json) → Bool
  | [] => true
  | (_, value) :: members => value.nests depth && membersNest depth members

end

mutual

/-- **Whether a value can be stored**: every string of it encodes, and it is
nested at most a depth. -/
def storable (depth : Nat) : Json → Bool
  | .str s => s.encodable
  | .arr items => depth ≠ 0 && storableItems (depth - 1) items
  | .obj members => depth ≠ 0 && storableMembers (depth - 1) members
  | _ => true

def storableItems (depth : Nat) : List Json → Bool
  | [] => true
  | item :: items => item.storable depth && storableItems depth items

/-- The same for every name and every value of an object. -/
def storableMembers (depth : Nat) : List (PyStr × Json) → Bool
  | [] => true
  | (name, value) :: members =>
    name.encodable && value.storable depth && storableMembers depth members

end

variable {depth : Nat} {items : List Json}

theorem storableItems_iff : storableItems depth items = true ↔ ∀ item ∈ items, item.storable depth = true := by
  induction items with
  | nil => simp [storableItems]
  | cons item items ih => simp [storableItems, ih]

variable {members : List (PyStr × Json)}

theorem storableMembers_iff : storableMembers depth members = true
      ↔ ∀ e ∈ members, e.fst.encodable = true ∧ e.snd.storable depth = true := by
  induction members with
  | nil => simp [storableMembers]
  | cons e members ih => simp [storableMembers, ih]

@[simp] theorem storable_arr : (Json.arr items).storable depth = true
      ↔ depth ≠ 0 ∧ ∀ item ∈ items, item.storable (depth - 1) = true := by
  rw [storable, Bool.and_eq_true, storableItems_iff, decide_eq_true_iff]

@[simp] theorem storable_obj : (Json.obj members).storable depth = true
      ↔ depth ≠ 0 ∧ ∀ e ∈ members, e.fst.encodable = true ∧ e.snd.storable (depth - 1) = true := by
  rw [storable, Bool.and_eq_true, storableMembers_iff, decide_eq_true_iff]

@[simp] theorem storable_str {s : PyStr} : (Json.str s).storable depth = true ↔ s.encodable = true := by rw [storable]

@[simp] theorem storable_null : Json.null.storable depth = true := rfl

@[simp] theorem storable_bool {b : Bool} : (Json.bool b).storable depth = true := rfl

@[simp] theorem storable_int {n : Int} : (Json.int n).storable depth = true := rfl

mutual

theorem storable_succ {depth : Nat} : ∀ {value : Json}, value.storable depth = true →
    value.storable (depth + 1) = true
  | .arr items, h => by
    obtain ⟨hdepth, hitems⟩ := storable_arr.mp h
    obtain ⟨d, rfl⟩ := Nat.exists_eq_succ_of_ne_zero hdepth
    exact storable_arr.mpr ⟨d.succ.succ_ne_zero, storableItems_iff.mp
      (storableItems_succ (storableItems_iff.mpr hitems))⟩
  | .obj members, h => by
    obtain ⟨hdepth, hmembers⟩ := storable_obj.mp h
    obtain ⟨d, rfl⟩ := Nat.exists_eq_succ_of_ne_zero hdepth
    exact storable_obj.mpr ⟨d.succ.succ_ne_zero, storableMembers_iff.mp
      (storableMembers_succ (storableMembers_iff.mpr hmembers))⟩
  | .str _, h => by rw [storable_str] at h ⊢; exact h
  | .null, _ => rfl
  | .bool _, _ => rfl
  | .int _, _ => rfl
  | .float _, _ => rfl

theorem storableItems_succ {depth : Nat} : ∀ {items : List Json},
    storableItems depth items = true → storableItems (depth + 1) items = true
  | [], _ => rfl
  | item :: items, h => by
    obtain ⟨hitem, hitems⟩ := (Bool.and_eq_true _ _).mp (by rwa [storableItems] at h)
    rw [storableItems, storable_succ hitem, storableItems_succ hitems]
    rfl

theorem storableMembers_succ {depth : Nat} : ∀ {members : List (PyStr × Json)},
    storableMembers depth members = true → storableMembers (depth + 1) members = true
  | [], _ => rfl
  | (name, value) :: members, h => by
    rw [storableMembers, Bool.and_eq_true, Bool.and_eq_true] at h
    obtain ⟨⟨hname, hvalue⟩, hmembers⟩ := h
    rw [storableMembers, hname, storable_succ hvalue, storableMembers_succ hmembers]
    rfl

end

theorem storable_get {name : String} {value : Json}
    (h : ∀ e ∈ members, e.fst.encodable = true ∧ e.snd.storable depth = true)
    (hget : get members name = some value) : value.storable depth = true := by
  obtain ⟨before, after, hsplit, -⟩ := List.lookup_eq_some_iff.mp hget
  refine (h (PyStr.ofString name, value) ?_).2
  rw [hsplit]
  exact List.mem_append_right _ List.mem_cons_self

theorem itemsNest_iff : itemsNest depth items = true ↔ ∀ item ∈ items, item.nests depth = true := by
  induction items with
  | nil => simp [itemsNest]
  | cons item items ih => simp [itemsNest, ih]

theorem membersNest_iff : membersNest depth members = true ↔ ∀ e ∈ members, e.snd.nests depth = true := by
  induction members with
  | nil => simp [membersNest]
  | cons e members ih => simp [membersNest, ih]

@[simp] theorem nests_arr : (Json.arr items).nests depth = true
      ↔ depth ≠ 0 ∧ ∀ item ∈ items, item.nests (depth - 1) = true := by
  rw [nests, Bool.and_eq_true, itemsNest_iff, decide_eq_true_iff]

@[simp] theorem nests_obj : (Json.obj members).nests depth = true
      ↔ depth ≠ 0 ∧ ∀ e ∈ members, e.snd.nests (depth - 1) = true := by
  rw [nests, Bool.and_eq_true, membersNest_iff, decide_eq_true_iff]

@[simp] theorem nests_str {s : PyStr} : (Json.str s).nests depth = true := rfl

@[simp] theorem nests_null : Json.null.nests depth = true := rfl

@[simp] theorem nests_bool {b : Bool} : (Json.bool b).nests depth = true := rfl

@[simp] theorem nests_int {n : Int} : (Json.int n).nests depth = true := rfl

mutual

theorem nests_succ {depth : Nat} : ∀ {value : Json}, value.nests depth = true → value.nests (depth + 1) = true
  | .arr items, h => by
    obtain ⟨hdepth, hitems⟩ := nests_arr.mp h
    obtain ⟨d, rfl⟩ := Nat.exists_eq_succ_of_ne_zero hdepth
    exact nests_arr.mpr ⟨d.succ.succ_ne_zero, itemsNest_iff.mp (itemsNest_succ (itemsNest_iff.mpr hitems))⟩
  | .obj members, h => by
    obtain ⟨hdepth, hmembers⟩ := nests_obj.mp h
    obtain ⟨d, rfl⟩ := Nat.exists_eq_succ_of_ne_zero hdepth
    exact nests_obj.mpr ⟨d.succ.succ_ne_zero, membersNest_iff.mp (membersNest_succ (membersNest_iff.mpr hmembers))⟩
  | .str _, _ => rfl
  | .null, _ => rfl
  | .bool _, _ => rfl
  | .int _, _ => rfl
  | .float _, _ => rfl

theorem itemsNest_succ {depth : Nat} : ∀ {items : List Json},
    itemsNest depth items = true → itemsNest (depth + 1) items = true
  | [], _ => rfl
  | item :: items, h => by
    obtain ⟨hitem, hitems⟩ := (Bool.and_eq_true _ _).mp (by rwa [itemsNest] at h)
    rw [itemsNest, nests_succ hitem, itemsNest_succ hitems]
    rfl

theorem membersNest_succ {depth : Nat} : ∀ {members : List (PyStr × Json)},
    membersNest depth members = true → membersNest (depth + 1) members = true
  | [], _ => rfl
  | (_, value) :: members, h => by
    obtain ⟨hvalue, hmembers⟩ := (Bool.and_eq_true _ _).mp (by rwa [membersNest] at h)
    rw [membersNest, nests_succ hvalue, membersNest_succ hmembers]
    rfl

end

mutual

theorem nests_of_storable {depth : Nat} : ∀ {value : Json}, value.storable depth = true → value.nests depth = true
  | .arr _, h => nests_arr.mpr ⟨(storable_arr.mp h).1, itemsNest_iff.mp
      (itemsNest_of_storable (storableItems_iff.mpr (storable_arr.mp h).2))⟩
  | .obj _, h => nests_obj.mpr ⟨(storable_obj.mp h).1, membersNest_iff.mp
      (membersNest_of_storable (storableMembers_iff.mpr (storable_obj.mp h).2))⟩
  | .str _, _ => rfl
  | .null, _ => rfl
  | .bool _, _ => rfl
  | .int _, _ => rfl
  | .float _, _ => rfl

theorem itemsNest_of_storable {depth : Nat} : ∀ {items : List Json},
    storableItems depth items = true → itemsNest depth items = true
  | [], _ => rfl
  | item :: items, h => by
    obtain ⟨hitem, hitems⟩ := (Bool.and_eq_true _ _).mp (by rwa [storableItems] at h)
    rw [itemsNest, nests_of_storable hitem, itemsNest_of_storable hitems]
    rfl

theorem membersNest_of_storable {depth : Nat} : ∀ {members : List (PyStr × Json)},
    storableMembers depth members = true → membersNest depth members = true
  | [], _ => rfl
  | (name, value) :: members, h => by
    rw [storableMembers, Bool.and_eq_true, Bool.and_eq_true] at h
    obtain ⟨⟨-, hvalue⟩, hmembers⟩ := h
    rw [membersNest, nests_of_storable hvalue, membersNest_of_storable hmembers]
    rfl

end

theorem nests_get {name : String} {value : Json}
    (h : (Json.obj members).nests (depth + 1) = true) (hget : get members name = some value) :
    value.nests depth = true := by
  obtain ⟨before, after, hsplit, -⟩ := List.lookup_eq_some_iff.mp hget
  refine (nests_obj.mp h).2 (PyStr.ofString name, value) ?_
  rw [hsplit]
  exact List.mem_append_right _ List.mem_cons_self

end Json

/-- **A dictionary**, each key looked up at its first entry. -/
abbrev Dict (κ β : Type) := List (κ × β)

namespace Dict

variable {κ β : Type} [DecidableEq κ]

/-- `d.get(key)`. -/
def get (d : Dict κ β) (key : κ) : Option β := d.lookup key

/-- `d[key] = value`. -/
def set (d : Dict κ β) (key : κ) (value : β) : Dict κ β :=
  (key, value) :: d.filter (fun e => e.fst ≠ key)

/-- `d[key] = value`, for a dictionary whose order is read: a key stays where it was first set. -/
def assign (d : Dict κ β) (key : κ) (value : β) : Dict κ β :=
  if key ∈ d.map Prod.fst then d.map fun e => if e.fst = key then (key, value) else e
  else d ++ [(key, value)]

/-- The entries whose key is in a list of names. -/
def select (d : Dict κ β) (names : List κ) : Dict κ β :=
  d.filter (fun e => e.fst ∈ names)

/-- The entries whose key is not in a list of names. -/
def without (d : Dict κ β) (names : List κ) : Dict κ β :=
  d.filter (fun e => e.fst ∉ names)

/-- Set several entries, from left to right. -/
def update (d : Dict κ β) (entries : List (κ × β)) : Dict κ β :=
  entries.foldl (fun d e => d.set e.fst e.snd) d

theorem forall_assign {P : β → Prop} {d : Dict κ β} {key : κ} {value : β} (h : ∀ e ∈ d, P e.snd)
    (hvalue : P value) : ∀ e ∈ d.assign key value, P e.snd := by
  unfold assign
  split_ifs
  · refine List.forall_mem_map.mpr fun e he => ?_
    split_ifs
    · exact hvalue
    · exact h e he
  · exact List.forall_mem_append.mpr ⟨h, List.forall_mem_singleton.mpr hvalue⟩

theorem get_filter (d : Dict κ β) (p : κ → Prop) [DecidablePred p] (key : κ) :
    get (d.filter fun e => p e.fst) key = if p key then get d key else none := by
  unfold get
  induction d with
  | nil => simp
  | cons e d ih =>
    obtain ⟨k, v⟩ := e
    by_cases hk : key = k
    · subst hk
      by_cases hp : p key <;> simp [hp, ih]
    · have hbeq : (key == k) = false := beq_eq_false_iff_ne.mpr hk
      by_cases hp : p k <;> simp [hp, List.lookup_cons, hbeq, ih]

@[simp] theorem get_nil (key : κ) : get ([] : Dict κ β) key = none := rfl

theorem get_cons (e : κ × β) (d : Dict κ β) (key : κ) :
    get (e :: d) key = if key = e.fst then some e.snd else get d key := by
  unfold get
  rw [List.lookup_cons]
  by_cases h : key = e.fst
  · simp [h]
  · simp [h, beq_eq_false_iff_ne.mpr h]

variable {d : Dict κ β} {key : κ}

theorem mem_of_get {value : β} (h : get d key = some value) : (key, value) ∈ d := by
  obtain ⟨before, after, rfl, -⟩ := List.lookup_eq_some_iff.mp h
  exact List.mem_append_right _ List.mem_cons_self

theorem get_of_mem (h : key ∈ d.map Prod.fst) : ∃ value, get d key = some value := by
  obtain ⟨e, he, rfl⟩ := List.mem_map.mp h
  exact Option.isSome_iff_exists.mp (List.lookup_isSome_iff.mpr ⟨e, he, beq_self_eq_true _⟩)

theorem get_eq_some_iff (hnodup : (d.map Prod.fst).Nodup) {value : β} :
    get d key = some value ↔ (key, value) ∈ d := by
  refine ⟨mem_of_get, fun h => ?_⟩
  induction d with
  | nil => cases h
  | cons e d ih =>
    obtain ⟨he, hnodup⟩ := List.nodup_cons.mp hnodup
    rw [get_cons]
    rcases List.mem_cons.mp h with rfl | h
    · exact if_pos rfl
    · rw [if_neg fun hkey => he (List.mem_map.mpr ⟨_, h, hkey⟩)]
      exact ih hnodup h

@[simp] theorem get_set (d : Dict κ β) (key key' : κ) (value : β) :
    get (d.set key value) key' = if key' = key then some value else get d key' := by
  by_cases h : key' = key
  · subst h
    simp [get, set]
  · have hbeq : (key' == key) = false := beq_eq_false_iff_ne.mpr h
    have hf := get_filter d (fun k => k ≠ key) key'
    simp only [ne_eq, h, not_false_eq_true, if_true] at hf
    simp only [set, get, List.lookup_cons, hbeq, if_neg h] at hf ⊢
    exact hf

@[simp] theorem get_select (d : Dict κ β) (names : List κ) (key : κ) :
    get (d.select names) key = if key ∈ names then get d key else none :=
  get_filter d (· ∈ names) key

@[simp] theorem get_without (d : Dict κ β) (names : List κ) (key : κ) :
    get (d.without names) key = if key ∈ names then none else get d key := by
  have h := get_filter d (· ∉ names) key
  simp only [ite_not] at h
  exact h

@[simp] theorem update_nil (d : Dict κ β) : d.update [] = d := rfl

@[simp] theorem update_cons (d : Dict κ β) (e : κ × β) (es : List (κ × β)) :
    d.update (e :: es) = (d.set e.fst e.snd).update es := rfl

end Dict
