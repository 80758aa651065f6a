import Mathlib.Data.List.Lex
import Mathlib.Order.Lattice

/-!
# Escaped byte strings

Zero bytes are escaped by a zero and 255, so that a zero and a smaller byte can end a string.  Ended
strings are compared as the strings are, whatever follows them.
-/

namespace Reasoning

/-! ## 1. Strings that differ -/

/-- The strings differ at some place, and `left` has the smaller byte there. -/
inductive Precedes : List UInt8 → List UInt8 → Prop where
  | head {a b : UInt8} (left right : List UInt8) (h : a < b) : Precedes (a :: left) (b :: right)
  | tail (a : UInt8) {left right : List UInt8} (h : Precedes left right) : Precedes (a :: left) (a :: right)

theorem Precedes.append {left right : List UInt8} (h : Precedes left right) (more rest : List UInt8) :
    Precedes (left ++ more) (right ++ rest) := by
  induction h with
  | head left right h => exact .head _ _ h
  | tail a _ ih => exact .tail a ih

theorem Precedes.prepend (pre : List UInt8) {left right : List UInt8} (h : Precedes left right) :
    Precedes (pre ++ left) (pre ++ right) := by
  induction pre with
  | nil => exact h
  | cons a pre ih => exact .tail a ih

theorem Precedes.lt {left right : List UInt8} (h : Precedes left right) : left < right := by
  induction h with
  | head left right h => exact List.Lex.rel h
  | tail a _ ih => exact List.Lex.cons ih

/-! ## 2. Escaping -/

def escapeByte (byte : UInt8) : List UInt8 := if byte = 0 then [0, 255] else [byte]

/-- Every zero byte becomes the two bytes 0 and 255. -/
def escape (bytes : List UInt8) : List UInt8 := bytes.flatMap escapeByte

@[simp] theorem escape_nil : escape [] = [] := rfl

@[simp] theorem escape_cons (byte : UInt8) (bytes : List UInt8) :
    escape (byte :: bytes) = escapeByte byte ++ escape bytes := rfl

@[simp] theorem escape_append (bytes more : List UInt8) :
    escape (bytes ++ more) = escape bytes ++ escape more := List.flatMap_append

theorem escapeByte_zero : escapeByte 0 = [0, 255] := rfl

theorem escapeByte_of_ne {byte : UInt8} (h : byte ≠ 0) : escapeByte byte = [byte] := if_neg h

/-- A string that ends is below every longer one. -/
theorem precedes_mark {mark : UInt8} (hmark : mark < 255) (byte : UInt8) (rest : List UInt8) :
    Precedes [0, mark] (escapeByte byte ++ rest) := by
  by_cases h : byte = 0
  · rw [h, escapeByte_zero]
    exact .tail 0 (.head _ _ hmark)
  · rw [escapeByte_of_ne h]
    exact .head _ _ (UInt8.pos_iff_ne_zero.mpr h)

theorem precedes_escapeByte {a b : UInt8} (h : a < b) (left right : List UInt8) :
    Precedes (escapeByte a ++ left) (escapeByte b ++ right) := by
  have hb : b ≠ 0 := by
    rintro rfl
    exact absurd h (UInt8.not_lt.mpr UInt8.zero_le)
  rw [escapeByte_of_ne hb]
  by_cases ha : a = 0
  · rw [ha] at h ⊢
    exact .head _ _ h
  · rw [escapeByte_of_ne ha]
    exact .head _ _ h

/-- Ended strings order as the strings do. -/
theorem precedes_escape {mark : UInt8} (hmark : mark < 255) {left right : List UInt8}
    (h : left < right) : Precedes (escape left ++ [0, mark]) (escape right ++ [0, mark]) := by
  induction right generalizing left with
  | nil => cases h
  | cons b right ih =>
      cases h with
      | nil =>
          rw [escape_cons, List.append_assoc]
          exact precedes_mark hmark b _
      | rel h =>
          rw [escape_cons, escape_cons, List.append_assoc, List.append_assoc]
          exact precedes_escapeByte h _ _
      | cons h =>
          rw [escape_cons, escape_cons, List.append_assoc, List.append_assoc]
          exact (ih h).prepend _

end Reasoning
