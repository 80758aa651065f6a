import Mathlib.Data.List.Induction
import Mathlib.Tactic.Ring

/-!
# Byte strings

Fixed-width big-endian numbers and windows into byte strings.
-/

namespace Reasoning

/-- The `width` low-order bytes of `n`, most significant byte first. -/
def toBigEndian : Nat → Nat → List UInt8
  | 0, _ => []
  | width + 1, n => toBigEndian width (n / 256) ++ [UInt8.ofNat n]

/-- The number a byte string denotes, most significant byte first. -/
def ofBigEndian (bytes : List UInt8) : Nat :=
  bytes.foldl (fun acc b ↦ acc * 256 + b.toNat) 0

@[simp] theorem toBigEndian_length (width n : Nat) : (toBigEndian width n).length = width := by
  induction width generalizing n with
  | zero => rfl
  | succ width ih => simp [toBigEndian, ih]

@[simp] theorem ofBigEndian_nil : ofBigEndian [] = 0 := rfl

theorem ofBigEndian_concat (bytes : List UInt8) (b : UInt8) :
    ofBigEndian (bytes ++ [b]) = ofBigEndian bytes * 256 + b.toNat := by
  simp [ofBigEndian]

theorem ofBigEndian_lt (bytes : List UInt8) : ofBigEndian bytes < 256 ^ bytes.length := by
  induction bytes using List.reverseRecOn with
  | nil => simp
  | append_singleton bytes b ih =>
      have hb : b.toNat < 256 := UInt8.toNat_lt b
      rw [ofBigEndian_concat, List.length_append, List.length_singleton, pow_succ]
      omega

/-- Decoding undoes encoding up to the field width. -/
theorem ofBigEndian_toBigEndian (width n : Nat) : ofBigEndian (toBigEndian width n) = n % 256 ^ width := by
  induction width generalizing n with
  | zero => simp [toBigEndian, Nat.mod_one]
  | succ width ih =>
      rw [toBigEndian, ofBigEndian_concat, ih, pow_succ, Nat.mul_comm (256 ^ width) 256,
        Nat.mod_mul, UInt8.toNat_ofNat']
      ring

theorem ofBigEndian_toBigEndian_of_lt {width n : Nat} (h : n < 256 ^ width) :
    ofBigEndian (toBigEndian width n) = n := by
  rw [ofBigEndian_toBigEndian, Nat.mod_eq_of_lt h]

/-- Encoding undoes decoding at the width of the field. -/
theorem toBigEndian_ofBigEndian (bytes : List UInt8) :
    toBigEndian bytes.length (ofBigEndian bytes) = bytes := by
  induction bytes using List.reverseRecOn with
  | nil => rfl
  | append_singleton bytes b ih =>
      have hb : b.toNat < 256 := UInt8.toNat_lt b
      have hhigh : (ofBigEndian bytes * 256 + b.toNat) / 256 = ofBigEndian bytes := by omega
      have hlow : UInt8.ofNat (ofBigEndian bytes * 256 + b.toNat) = b := by
        apply UInt8.toNat.inj
        rw [UInt8.toNat_ofNat']
        omega
      rw [ofBigEndian_concat, List.length_append, List.length_singleton, toBigEndian, hhigh, hlow, ih]

/-- The window of `length` bytes at `offset`, shorter at the end of the string. -/
def slice (bytes : List UInt8) (offset length : Nat) : List UInt8 :=
  (bytes.drop offset).take length

theorem slice_length (bytes : List UInt8) (offset length : Nat)
    (h : offset + length ≤ bytes.length) : (slice bytes offset length).length = length := by
  simp only [slice, List.length_take, List.length_drop]
  omega

theorem slice_append_left (left right : List UInt8) (offset length : Nat)
    (h : offset + length ≤ left.length) :
    slice (left ++ right) offset length = slice left offset length := by
  rw [slice, slice, List.drop_append_of_le_length (by omega),
    List.take_append_of_le_length (by rw [List.length_drop]; omega)]

theorem slice_append_right (left right : List UInt8) (offset length : Nat)
    (h : left.length ≤ offset) :
    slice (left ++ right) offset length = slice right (offset - left.length) length := by
  rw [slice, slice, List.drop_append, List.drop_eq_nil_of_le h, List.nil_append]

/-- A window that lies in a prefix does not see what follows the prefix. -/
theorem slice_isPrefix {pre bytes : List UInt8} (hp : pre <+: bytes) (offset length : Nat)
    (h : offset + length ≤ pre.length) : slice bytes offset length = slice pre offset length := by
  obtain ⟨rest, rfl⟩ := hp
  exact slice_append_left pre rest offset length h

theorem slice_take (bytes : List UInt8) (n offset length : Nat)
    (h : offset + length ≤ n) : slice (bytes.take n) offset length = slice bytes offset length := by
  rw [slice, slice, List.drop_take, List.take_take, Nat.min_eq_left (by omega)]

theorem slice_all (bytes : List UInt8) : slice bytes 0 bytes.length = bytes := by
  rw [slice, List.drop_zero, List.take_length]

/-- Two windows that touch are one window. -/
theorem slice_glue (bytes : List UInt8) (offset length more : Nat) :
    slice bytes offset length ++ slice bytes (offset + length) more =
      slice bytes offset (length + more) := by
  rw [slice, slice, slice, List.take_add, List.drop_drop]

theorem slice_slice (bytes : List UInt8) {start size offset length : Nat}
    (h : offset + length ≤ size) :
    slice (slice bytes start size) offset length = slice bytes (start + offset) length := by
  rw [slice, slice, slice, List.drop_take, List.take_take, List.drop_drop,
    Nat.min_eq_left (by omega)]

/-- The whole middle component of an append. -/
theorem slice_middle (left mid right : List UInt8) :
    slice (left ++ mid ++ right) left.length mid.length = mid := by
  rw [List.append_assoc, slice_append_right _ _ _ _ le_rfl, Nat.sub_self, slice,
    List.drop_zero, List.take_left']
  rfl

theorem slice_eq_middle (before after : List UInt8) {bytes mid : List UInt8} {offset : Nat}
    (hb : bytes = before ++ mid ++ after) (ho : before.length = offset) :
    slice bytes offset mid.length = mid := by
  subst hb ho
  exact slice_middle before mid after

end Reasoning
