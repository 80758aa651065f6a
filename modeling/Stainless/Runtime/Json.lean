import Mathlib

/-!
# JSON values as trees

A `Var` read as a tree, with exact integers: what the typed code does with JSON does not depend on
which aggregates are shared.
-/

namespace Stainless.Runtime

inductive Json
  | null
  | bool (value : Bool)
  | number (value : Int)
  | string (value : String)
  | array (values : List Json)
  | object (fields : List (String × Json))

namespace Json

/-! ## 1. Readings -/

def isNull : Json → Bool
  | null => true
  | _ => false

def isString : Json → Bool
  | string _ => true
  | _ => false

/-- An object member, or null when it is unavailable. -/
def field (name : String) : Json → Json
  | object fields => (fields.lookup name).getD null
  | _ => null

/-- An array element, or null when it is unavailable. -/
def index (i : Nat) : Json → Json
  | array values => values.getD i null
  | _ => null

/-- The elements that a range loop visits; only an array has some. -/
def arraySnapshot : Json → Option (List Json)
  | array values => some values
  | _ => none

mutual

/-- JavaScript's `String(value)`. -/
def toStringValue : Json → String
  | null => "null"
  | bool value => toString value
  | number value => toString value
  | string value => value
  | array values => ",".intercalate (elementTexts values)
  | object _ => "[object Object]"

/-- In an array, null is empty. -/
def elementTexts : List Json → List String
  | [] => []
  | null :: values => "" :: elementTexts values
  | value :: values => toStringValue value :: elementTexts values

end

/-- The integer part of JavaScript's `Number(value)`; `ofText` reads a text. -/
def integer (ofText : String → Int) : Json → Int
  | null => 0
  | bool value => if value then 1 else 0
  | number value => value
  | string value => ofText value
  | array values => ofText (toStringValue (array values))
  | object _ => 0

/-- `u32(value)`. -/
def toU32 (ofText : String → Int) (value : Json) : Nat := (value.integer ofText % 2 ^ 32).toNat

/-- `u64(value)`. -/
def toU64 (ofText : String → Int) (value : Json) : Nat := (value.integer ofText % 2 ^ 64).toNat

/-! ## 2. What is read back -/

variable (ofText : String → Int)

@[simp] theorem toStringValue_string (value : String) : toStringValue (string value) = value := by
  rw [toStringValue]

theorem field_cons (name key : String) (value : Json) (fields : List (String × Json)) :
    field name (object ((key, value) :: fields)) =
      if name = key then value else field name (object fields) := by
  show (List.lookup name ((key, value) :: fields)).getD null = _
  unfold List.lookup
  by_cases hname : name = key
  · rw [if_pos hname, beq_iff_eq.mpr hname]
    rfl
  · rw [if_neg hname, beq_eq_false_iff_ne.mpr hname]
    rfl

theorem toU32_number {n : Nat} (h : n < 2 ^ 32) : toU32 ofText (number n) = n := by
  show ((n : Int) % 2 ^ 32).toNat = n
  omega

theorem toU64_number {n : Nat} (h : n < 2 ^ 64) : toU64 ofText (number n) = n := by
  show ((n : Int) % 2 ^ 64).toNat = n
  omega

theorem toU64_bool (value : Bool) : decide (toU64 ofText (bool value) ≠ 0) = value := by
  cases value with
  | false => rfl
  | true => rfl

end Json

end Stainless.Runtime
