import Workplan.Number
import Workplan.SortedMap

/-! The dynamic values that definitions carry and steps exchange: null, booleans, numbers, strings,
lists and maps. The entries of a map stand in ascending key order wherever this library builds one
(`Value.ofEntries`). -/
namespace Workplan
set_option autoImplicit false

/-- A value of a workflow. -/
inductive Value where
  | null
  | bool (b : Bool)
  | number (n : Number)
  | string (s : String)
  | list (items : List Value)
  | map (entries : List (String × Value))
deriving Repr

namespace Value

instance : Inhabited Value := ⟨.null⟩

/-! ## Equality -/

mutual

def decEq : (v w : Value) → Decidable (v = w)
  | .null, .null => isTrue rfl
  | .bool a, .bool b =>
    if h : a = b then isTrue (h ▸ rfl) else isFalse fun e => h (Value.bool.inj e)
  | .number a, .number b =>
    if h : a = b then isTrue (h ▸ rfl) else isFalse fun e => h (Value.number.inj e)
  | .string a, .string b =>
    if h : a = b then isTrue (h ▸ rfl) else isFalse fun e => h (Value.string.inj e)
  | .list a, .list b =>
    match decEqList a b with
    | isTrue h => isTrue (h ▸ rfl)
    | isFalse h => isFalse fun e => h (Value.list.inj e)
  | .map a, .map b =>
    match decEqEntries a b with
    | isTrue h => isTrue (h ▸ rfl)
    | isFalse h => isFalse fun e => h (Value.map.inj e)
  | .null, .bool _ | .null, .number _ | .null, .string _ | .null, .list _ | .null, .map _
  | .bool _, .null | .bool _, .number _ | .bool _, .string _ | .bool _, .list _ | .bool _, .map _
  | .number _, .null | .number _, .bool _ | .number _, .string _ | .number _, .list _
  | .number _, .map _ | .string _, .null | .string _, .bool _ | .string _, .number _
  | .string _, .list _ | .string _, .map _ | .list _, .null | .list _, .bool _
  | .list _, .number _ | .list _, .string _ | .list _, .map _ | .map _, .null | .map _, .bool _
  | .map _, .number _ | .map _, .string _ | .map _, .list _ => isFalse (by simp)

def decEqList : (vs ws : List Value) → Decidable (vs = ws)
  | [], [] => isTrue rfl
  | [], _ :: _ | _ :: _, [] => isFalse (by simp)
  | v :: vs, w :: ws =>
    match decEq v w, decEqList vs ws with
    | isTrue h, isTrue hs => isTrue (h ▸ hs ▸ rfl)
    | isFalse h, _ => isFalse fun e => h (List.cons.inj e).1
    | _, isFalse h => isFalse fun e => h (List.cons.inj e).2

def decEqEntries : (vs ws : List (String × Value)) → Decidable (vs = ws)
  | [], [] => isTrue rfl
  | [], _ :: _ | _ :: _, [] => isFalse (by simp)
  | (k, v) :: vs, (k', w) :: ws =>
    if hk : k = k' then
      match decEq v w, decEqEntries vs ws with
      | isTrue h, isTrue hs => isTrue (hk ▸ h ▸ hs ▸ rfl)
      | isFalse h, _ => isFalse fun e => h (Prod.mk.inj (List.cons.inj e).1).2
      | _, isFalse h => isFalse fun e => h (List.cons.inj e).2
    else isFalse fun e => hk (Prod.mk.inj (List.cons.inj e).1).1

end

instance : DecidableEq Value := decEq

/-! ## Building and reading -/

/-- The map of a list of entries, in ascending key order; of two entries with one key the later
counts. -/
def ofEntries (entries : List (String × Value)) : Value := .map (SortedMap.ofList entries).toList

/-- The whole number `n`; beyond 64 bits only the low ones are kept. -/
def ofNat (n : Nat) : Value := .number (Number.ofNat n)

def field? (key : String) : Value → Option Value
  | .map entries => Entries.get? key entries
  | _ => none

def toString? : Value → Option String
  | .string s => some s
  | _ => none

/-- The number of a value that is a whole number and not negative. -/
def toNat? : Value → Option Nat
  | .number n => n.toNat?
  | _ => none

/-- The name of a value's type, as messages give it. -/
def typeName : Value → String
  | .null => "null"
  | .bool _ => "bool"
  | .number _ => "number"
  | .string _ => "string"
  | .list _ => "list"
  | .map _ => "map"

end Value

end Workplan
