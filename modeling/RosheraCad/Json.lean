import Mathlib.Data.Rat.Defs

/-!
# JSON values

Objects list their entries in ascending key order, so two values are equal exactly when their trees
are. A number keeps the form it was written in: an unsigned integer, a negative integer and a float
are never equal to one another.
-/

namespace RosheraCad

inductive JsonNumber
  | posInt (n : ℕ)
  | negInt (n : ℤ)
  | float (x : ℚ)
  deriving DecidableEq

/-- A JSON value. -/
inductive Json
  | null
  | bool (b : Bool)
  | number (n : JsonNumber)
  | string (s : String)
  | array (items : List Json)
  | object (entries : List (String × Json))

namespace Json

mutual

def decEq : (a b : Json) → Decidable (a = b)
  | .null, .null => isTrue rfl
  | .bool x, .bool y => decidable_of_iff (x = y) (by simp)
  | .number x, .number y => decidable_of_iff (x = y) (by simp)
  | .string x, .string y => decidable_of_iff (x = y) (by simp)
  | .array x, .array y =>
    have := decEqItems x y
    decidable_of_iff (x = y) (by simp)
  | .object x, .object y =>
    have := decEqEntries x y
    decidable_of_iff (x = y) (by simp)
  | .null, .bool _ | .null, .number _ | .null, .string _ | .null, .array _ | .null, .object _
  | .bool _, .null | .bool _, .number _ | .bool _, .string _ | .bool _, .array _
  | .bool _, .object _ | .number _, .null | .number _, .bool _ | .number _, .string _
  | .number _, .array _ | .number _, .object _ | .string _, .null | .string _, .bool _
  | .string _, .number _ | .string _, .array _ | .string _, .object _ | .array _, .null
  | .array _, .bool _ | .array _, .number _ | .array _, .string _ | .array _, .object _
  | .object _, .null | .object _, .bool _ | .object _, .number _ | .object _, .string _
  | .object _, .array _ => isFalse (by simp)

def decEqItems : (a b : List Json) → Decidable (a = b)
  | [], [] => isTrue rfl
  | [], _ :: _ | _ :: _, [] => isFalse (by simp)
  | a :: as, b :: bs =>
    have := decEq a b
    have := decEqItems as bs
    decidable_of_iff (a = b ∧ as = bs) (by simp)

def decEqEntries : (a b : List (String × Json)) → Decidable (a = b)
  | [], [] => isTrue rfl
  | [], _ :: _ | _ :: _, [] => isFalse (by simp)
  | (k, a) :: as, (l, b) :: bs =>
    have := decEq a b
    have := decEqEntries as bs
    decidable_of_iff (k = l ∧ a = b ∧ as = bs) (by simp [and_assoc])

end

instance : DecidableEq Json := decEq

/-! ## Reading a value -/

def get? : Json → String → Option Json
  | .object entries, key => entries.lookup key
  | _, _ => none

def asArray? : Json → Option (List Json)
  | .array items => some items
  | _ => none

def asStr? : Json → Option String
  | .string s => some s
  | _ => none

def isNumber : Json → Bool
  | .number _ => true
  | _ => false

def asF64? : Json → Option ℚ
  | .number (.posInt n) => some n
  | .number (.negInt n) => some n
  | .number (.float x) => some x
  | _ => none

def asU64? : Json → Option ℕ
  | .number (.posInt n) => some n
  | _ => none

def ofStrings (xs : List String) : Json := .array (xs.map .string)

@[simp] theorem asU64?_posInt (n : ℕ) : (number (.posInt n)).asU64? = some n := rfl

@[simp] theorem get?_object (entries : List (String × Json)) (key : String) :
    (object entries).get? key = entries.lookup key := rfl

end Json

end RosheraCad
