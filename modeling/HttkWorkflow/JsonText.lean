import HttkWorkflow.PyValue

/-!
# JSON values compared and written down

Equality of JSON values is decidable, by their structure, and a value has a
compact text: what `json_bytes` makes of one whose strings need no escapes
and whose objects list their members in order.
-/

namespace Json

mutual

/-- **Equality of two values**, by what they are built of. -/
def decEq : (a b : Json) → Decidable (a = b)
  | .null, b => match b with
    | .null => isTrue rfl
    | .bool _ | .int _ | .float _ | .str _ | .arr _ | .obj _ => isFalse (fun h => by cases h)
  | .bool x, b => match b with
    | .bool y => if h : x = y then isTrue (h ▸ rfl) else isFalse (fun e => h (by cases e; rfl))
    | .null | .int _ | .float _ | .str _ | .arr _ | .obj _ => isFalse (fun h => by cases h)
  | .int x, b => match b with
    | .int y => if h : x = y then isTrue (h ▸ rfl) else isFalse (fun e => h (by cases e; rfl))
    | .null | .bool _ | .float _ | .str _ | .arr _ | .obj _ => isFalse (fun h => by cases h)
  | .float x, b => match b with
    | .float y => if h : x = y then isTrue (h ▸ rfl) else isFalse (fun e => h (by cases e; rfl))
    | .null | .bool _ | .int _ | .str _ | .arr _ | .obj _ => isFalse (fun h => by cases h)
  | .str x, b => match b with
    | .str y => if h : x = y then isTrue (h ▸ rfl) else isFalse (fun e => h (by cases e; rfl))
    | .null | .bool _ | .int _ | .float _ | .arr _ | .obj _ => isFalse (fun h => by cases h)
  | .arr x, b => match b with
    | .arr y => match decEqItems x y with
      | isTrue h => isTrue (h ▸ rfl)
      | isFalse h => isFalse (fun e => h (by cases e; rfl))
    | .null | .bool _ | .int _ | .float _ | .str _ | .obj _ => isFalse (fun h => by cases h)
  | .obj x, b => match b with
    | .obj y => match decEqMembers x y with
      | isTrue h => isTrue (h ▸ rfl)
      | isFalse h => isFalse (fun e => h (by cases e; rfl))
    | .null | .bool _ | .int _ | .float _ | .str _ | .arr _ => isFalse (fun h => by cases h)

def decEqItems : (a b : List Json) → Decidable (a = b)
  | [], [] => isTrue rfl
  | [], _ :: _ => isFalse (fun h => by cases h)
  | _ :: _, [] => isFalse (fun h => by cases h)
  | a :: as, b :: bs => match decEq a b, decEqItems as bs with
    | isTrue h, isTrue h' => isTrue (by rw [h, h'])
    | isFalse h, _ => isFalse (fun e => h (by cases e; rfl))
    | _, isFalse h => isFalse (fun e => h (by cases e; rfl))

def decEqMembers : (a b : List (PyStr × Json)) → Decidable (a = b)
  | [], [] => isTrue rfl
  | [], _ :: _ => isFalse (fun h => by cases h)
  | _ :: _, [] => isFalse (fun h => by cases h)
  | (k, a) :: as, (k', b) :: bs => match decEq a b, decEqMembers as bs with
    | isTrue h, isTrue h' =>
      if hk : k = k' then isTrue (by rw [h, h', hk]) else isFalse (fun e => hk (by cases e; rfl))
    | isFalse h, _ => isFalse (fun e => h (by cases e; rfl))
    | _, isFalse h => isFalse (fun e => h (by cases e; rfl))

end

instance : DecidableEq Json := decEq

def codesOf (text : String) : List Nat := text.toList.map Char.toNat

mutual

/-- **The compact text of a value.** -/
def text : Json → List Nat
  | .null => codesOf "null"
  | .bool b => codesOf (if b then "true" else "false")
  | .int n => codesOf (toString n)
  | .float (.finite q) => codesOf (toString q)
  | .float (.inf negative) => codesOf (if negative then "-Infinity" else "Infinity")
  | .float .nan => codesOf "NaN"
  | .str s => '"'.toNat :: s.codes ++ ['"'.toNat]
  | .arr items => '['.toNat :: itemsText items ++ [']'.toNat]
  | .obj members => '\x7b'.toNat :: membersText members ++ ['\x7d'.toNat]

def itemsText : List Json → List Nat
  | [] => []
  | [item] => item.text
  | item :: items => item.text ++ ','.toNat :: itemsText items

def membersText : List (PyStr × Json) → List Nat
  | [] => []
  | [(name, value)] => '"'.toNat :: name.codes ++ ['"'.toNat, ':'.toNat] ++ value.text
  | (name, value) :: members =>
    '"'.toNat :: name.codes ++ ['"'.toNat, ':'.toNat] ++ value.text ++ ','.toNat :: membersText members

end

end Json
