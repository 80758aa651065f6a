import Stainless.Reasoning.Rounding
import Stainless.Runtime.Var

/-!
# Integers from JSON numbers

A number is read in `binary64`, and its integer part is reduced to the width of the target there: by
a remainder and, below zero, by adding the modulus.  The sum is rounded, so the reduction is exact
only where the sum has few significant bits.
-/

open Reasoning

namespace Stainless.Runtime

/-! ## 1. `binary64` -/

/-- A value of `f64`, without the sign of zero. -/
inductive Binary64
  | nan
  | infinity (negative : Bool)
  | finite (value : Rat)
deriving DecidableEq

namespace Binary64

def precision : Nat := 53

/-- `f64::trunc`. -/
def trunc (value : Rat) : Int := if value < 0 then value.ceil else value.floor

/-- `f64::rem_euclid` of integers: the remainder is exact, the sum is rounded. -/
def remEuclid (value modulus : Int) : Int :=
  let rest := value.tmod modulus
  if rest < 0 then roundInt precision (rest + modulus) else rest

end Binary64

def maximumU128 : Nat := 2 ^ 128 - 1

/-- A saturating cast. -/
def asU128 (value : Int) : Nat := min value.toNat maximumU128

/-- `u128::cast_signed`. -/
def castSigned (value : Nat) : Int := if value ≥ 2 ^ 127 then value - 2 ^ 128 else value

def unsignedInteger (value : Binary64) (bits : Nat) : Nat :=
  match value with
  | .nan => 0
  | .infinity _ => 0
  | .finite value =>
      if value = 0 then 0 else asU128 (Binary64.remEuclid (Binary64.trunc value) (2 ^ bits))

def signedInteger (value : Binary64) (bits : Nat) : Int :=
  let unsigned := unsignedInteger value bits
  let sign := 2 ^ (bits - 1)
  if unsigned ≥ sign then
    if bits = 128 then -((maximumU128 - unsigned : Nat) : Int) - 1
    -- `wrapping_sub` in `u128`
    else castSigned ((unsigned + 2 ^ 128 - 2 ^ bits) % 2 ^ 128)
  else unsigned

/-! ## 2. Conversions of a value -/

/-- What `serde_json` and the standard library make of text. -/
structure FloatText where
  asF64 : Number → Option Binary64
  trim : String → String
  parse : String → Option Binary64

namespace Var

def jsStringNumber (floats : FloatText) (value : String) : Binary64 :=
  if (floats.trim value).isEmpty then .finite 0
  else (floats.parse (floats.trim value)).getD .nan

/-- `none` is an array that nests deeper than the budget. -/
def jsNumber (floats : FloatText) (h : Heap) (budget : Nat) (value : Var) : Option Binary64 :=
  match value with
  | .null => some (.finite 0)
  | .bool value => some (.finite (if value then 1 else 0))
  | .number value => some ((floats.asF64 value).getD .nan)
  | .string value => some (jsStringNumber floats value)
  | .array index => (toStringValue h budget (.array index)).map (jsStringNumber floats)
  | .object _ => some .nan

section Conversions

variable (floats : FloatText) (h : Heap) (budget : Nat) (value : Var)

/-- `signed_integer` and the cast to the width. -/
def toSigned (bits : Nat) : Option Int :=
  (value.jsNumber floats h budget).map fun value ↦ (signedInteger value bits).bmod (2 ^ bits)

/-- `unsigned_integer` and the cast to the width. -/
def toUnsigned (bits : Nat) : Option Nat :=
  (value.jsNumber floats h budget).map fun value ↦ unsignedInteger value bits % 2 ^ bits

def toI8 : Option Int := value.toSigned floats h budget 8

def toI16 : Option Int := value.toSigned floats h budget 16

def toI32 : Option Int := value.toSigned floats h budget 32

def toI64 : Option Int := value.toSigned floats h budget 64

/-- No cast follows. -/
def toI128 : Option Int :=
  (value.jsNumber floats h budget).map fun value ↦ signedInteger value 128

def toU8 : Option Nat := value.toUnsigned floats h budget 8

def toU16 : Option Nat := value.toUnsigned floats h budget 16

def toU32 : Option Nat := value.toUnsigned floats h budget 32

def toU64 : Option Nat := value.toUnsigned floats h budget 64

/-- No cast follows. -/
def toU128 : Option Nat :=
  (value.jsNumber floats h budget).map fun value ↦ unsignedInteger value 128

end Conversions

end Var

/-! ## 3. The unsigned residue -/

namespace Binary64

theorem trunc_intCast (n : Int) : trunc n = n := by
  unfold trunc
  by_cases h : (n : Rat) < 0
  · rw [if_pos h, Rat.ceil_intCast]
  · rw [if_neg h, Rat.floor_intCast]

end Binary64

theorem asU128_of_le {value : Int} (h : value.toNat ≤ maximumU128) : asU128 value = value.toNat :=
  Nat.min_eq_left h

theorem unsignedInteger_intCast (n : Int) (bits : Nat) :
    unsignedInteger (.finite n) bits = asU128 (Binary64.remEuclid n (2 ^ bits)) := by
  unfold unsignedInteger
  simp only
  by_cases hzero : (n : Rat) = 0
  · have hn : n = 0 := by exact_mod_cast hzero
    subst hn
    rw [if_pos hzero]
    simp [Binary64.remEuclid, asU128]
  · rw [if_neg hzero, Binary64.trunc_intCast]

theorem remEuclid_nonneg {n : Int} (hn : 0 ≤ n) (bits : Nat) :
    Binary64.remEuclid n (2 ^ bits) = n % 2 ^ bits := by
  have hpow : (2 : Int) ^ bits ≠ 0 := Int.pow_ne_zero (by decide)
  unfold Binary64.remEuclid
  simp only
  rw [Int.tmod_eq_emod_of_nonneg hn, if_neg (Int.not_lt.mpr (Int.emod_nonneg n hpow))]

/-- Below zero the sum of the remainder and the modulus is the residue, rounded. -/
theorem remEuclid_neg {n : Int} (hn : n < 0) (bits : Nat) :
    Binary64.remEuclid n (2 ^ bits) = roundNat 53 (n % 2 ^ bits).toNat := by
  have hpow : (0 : Int) < 2 ^ bits := Int.pow_pos (by decide)
  have hresidue := Int.emod_nonneg n (Int.ne_of_gt hpow)
  unfold Binary64.remEuclid
  simp only
  by_cases hdvd : (2 : Int) ^ bits ∣ n
  · rw [Int.tmod_eq_zero_of_dvd hdvd, Int.emod_eq_zero_of_dvd hdvd]
    rfl
  · have hless := Int.emod_lt_of_pos n hpow
    have hrest : n.tmod (2 ^ bits) = n % 2 ^ bits - 2 ^ bits := by
      have hor : ¬ (0 ≤ n ∨ (2 : Int) ^ bits ∣ n) := by
        rintro (hn' | hdvd')
        · omega
        · exact hdvd hdvd'
      rw [Int.tmod_eq_emod, if_neg hor]
      omega
    rw [hrest, if_pos (by omega), Int.sub_add_cancel, roundInt, if_neg (Int.not_lt.mpr hresidue)]
    congr 2
    omega

theorem unsignedInteger_nonneg {n : Int} (hn : 0 ≤ n) (hbound : n.natAbs ≤ 2 ^ 53) (bits : Nat) :
    unsignedInteger (.finite n) bits = (n % 2 ^ bits).toNat := by
  obtain ⟨value, rfl⟩ := Int.eq_ofNat_of_zero_le hn
  have hresidue : (value : Int) % 2 ^ bits = (value % 2 ^ bits : Nat) := by push_cast; rfl
  have hle := Nat.mod_le value (2 ^ bits)
  have hmax : 2 ^ 53 ≤ maximumU128 := by decide
  rw [unsignedInteger_intCast, remEuclid_nonneg hn, hresidue]
  exact asU128_of_le (by omega)

theorem unsignedInteger_neg {n : Int} (hn : n < 0) (bits : Nat) :
    unsignedInteger (.finite n) bits = min (roundNat 53 (n % 2 ^ bits).toNat) maximumU128 := by
  rw [unsignedInteger_intCast, remEuclid_neg hn]
  rfl

/-! ## 4. Where the residue survives -/

inductive Width
  | w8 | w16 | w32 | w64 | w128

namespace Width

def bits : Width → Nat
  | .w8 => 8
  | .w16 => 16
  | .w32 => 32
  | .w64 => 64
  | .w128 => 128

def toSigned (floats : FloatText) (h : Heap) (budget : Nat) (value : Var) : Width → Option Int
  | .w8 => value.toI8 floats h budget
  | .w16 => value.toI16 floats h budget
  | .w32 => value.toI32 floats h budget
  | .w64 => value.toI64 floats h budget
  | .w128 => value.toI128 floats h budget

def toUnsigned (floats : FloatText) (h : Heap) (budget : Nat) (value : Var) : Width → Option Nat
  | .w8 => value.toU8 floats h budget
  | .w16 => value.toU16 floats h budget
  | .w32 => value.toU32 floats h budget
  | .w64 => value.toU64 floats h budget
  | .w128 => value.toU128 floats h budget

/-- The sum below zero has at most 53 significant bits, or is cut off at the right value. -/
def Survives (width : Width) (n : Int) : Prop :=
  0 ≤ n ∨ width.bits ≤ 32 ∨ (width.bits = 64 ∧ 2048 ∣ n) ∨ (width.bits = 128 ∧ n = -1)

end Width

theorem unsignedInteger_le {n : Int} (hbound : n.natAbs ≤ 2 ^ 53) (width : Width) :
    unsignedInteger (.finite n) width.bits ≤ 2 ^ width.bits ∧
      unsignedInteger (.finite n) width.bits ≤ maximumU128 := by
  have hpow : (0 : Int) < 2 ^ width.bits := Int.pow_pos (by decide)
  have hresidue : (n % 2 ^ width.bits).toNat < 2 ^ width.bits := by
    have hless := Int.emod_lt_of_pos n hpow
    have hcast : ((2 ^ width.bits : Nat) : Int) = 2 ^ width.bits := by push_cast; rfl
    have := Int.emod_nonneg n (Int.ne_of_gt hpow)
    omega
  constructor
  · by_cases hn : 0 ≤ n
    · rw [unsignedInteger_nonneg hn hbound]
      exact Nat.le_of_lt hresidue
    · rw [unsignedInteger_neg (by omega)]
      exact Nat.le_trans (Nat.min_le_left _ _) (roundNat_le_pow hresidue)
  · rw [unsignedInteger_intCast]
    exact Nat.min_le_right _ _

theorem residue_narrow {n : Int} (hn : n < 0) {bits : Nat} (hbits : bits ≤ 53) :
    unsignedInteger (.finite n) bits = (n % 2 ^ bits).toNat := by
  have hpow : (0 : Int) < 2 ^ bits := Int.pow_pos (by decide)
  have hcast : ((2 ^ bits : Nat) : Int) = 2 ^ bits := by push_cast; rfl
  have hless := Int.emod_lt_of_pos n hpow
  have hnonneg := Int.emod_nonneg n (Int.ne_of_gt hpow)
  have hrange : 2 ^ bits ≤ 2 ^ 53 := Nat.pow_le_pow_right (by decide) hbits
  have hmax : 2 ^ 53 ≤ maximumU128 := by decide
  rw [unsignedInteger_neg hn, roundNat_of_lt (show (n % 2 ^ bits).toNat < 2 ^ 53 by omega)]
  exact Nat.min_eq_left (by omega)

theorem residue_64 {n : Int} (hn : n < 0) (hbound : n.natAbs ≤ 2 ^ 53) :
    (unsignedInteger (.finite n) 64 : Int) % 2 ^ 64 = n % 2 ^ 64 ↔ 2048 ∣ n := by
  have hresidue : (n % 2 ^ 64).toNat = 2 ^ (63 + 1) - n.natAbs := by omega
  have hself : roundNat 53 (2 ^ (63 + 1) - n.natAbs) = 2 ^ (63 + 1) - n.natAbs ↔ 2048 ∣ n := by
    rw [roundNat_eq_self_iff, lowBits_below_pow (by omega) (by omega)]
    omega
  have hround : roundNat 53 (2 ^ (63 + 1) - n.natAbs) ≤ 2 ^ 64 := roundNat_le_pow (by omega)
  have hmax : 2 ^ 64 ≤ maximumU128 := by decide
  rw [unsignedInteger_neg hn, hresidue, ← hself, Nat.min_eq_left (by omega)]
  omega

/-- The sum is the modulus itself, which the cast cuts off. -/
theorem residue_128 {n : Int} (hn : n < 0) (hbound : n.natAbs ≤ 2 ^ 53) :
    (unsignedInteger (.finite n) 128 : Int) % 2 ^ 128 = n % 2 ^ 128 ↔ n = -1 := by
  have hresidue : (n % 2 ^ 128).toNat = 2 ^ (127 + 1) - n.natAbs := by omega
  rw [unsignedInteger_neg hn, hresidue, roundNat_below_pow (by omega) (by decide) (by omega)]
  have hcut : min (2 ^ (127 + 1)) maximumU128 = 2 ^ 128 - 1 := by decide
  rw [hcut]
  omega

theorem residue_iff {n : Int} (hbound : n.natAbs ≤ 2 ^ 53) (width : Width) :
    (unsignedInteger (.finite n) width.bits : Int) % 2 ^ width.bits = n % 2 ^ width.bits ↔
      width.Survives n := by
  have hpow : (0 : Int) < 2 ^ width.bits := Int.pow_pos (by decide)
  have hexact : unsignedInteger (.finite n) width.bits = (n % 2 ^ width.bits).toNat →
      (unsignedInteger (.finite n) width.bits : Int) % 2 ^ width.bits = n % 2 ^ width.bits := by
    intro h
    rw [h, Int.toNat_of_nonneg (Int.emod_nonneg n (Int.ne_of_gt hpow)), Int.emod_emod]
  by_cases hn : 0 ≤ n
  · exact iff_of_true (hexact (unsignedInteger_nonneg hn hbound _)) (.inl hn)
  · have hneg : n < 0 := by omega
    cases width with
    | w8 => exact iff_of_true (hexact (residue_narrow hneg (by decide))) (.inr (.inl (by decide)))
    | w16 => exact iff_of_true (hexact (residue_narrow hneg (by decide))) (.inr (.inl (by decide)))
    | w32 => exact iff_of_true (hexact (residue_narrow hneg (by decide))) (.inr (.inl (by decide)))
    | w64 =>
        refine (residue_64 hneg hbound).trans ?_
        simp [Width.Survives, Width.bits, hn]
    | w128 =>
        refine (residue_128 hneg hbound).trans ?_
        simp [Width.Survives, Width.bits, hn]

/-! ## 5. The conversions -/

theorem castSigned_wrapped {unsigned bits : Nat} (hbits : bits ≤ 127) (hle : unsigned ≤ 2 ^ bits) :
    castSigned ((unsigned + 2 ^ 128 - 2 ^ bits) % 2 ^ 128) = (unsigned : Int) - 2 ^ bits := by
  have hpow : 2 ^ bits ≤ 2 ^ 127 := Nat.pow_le_pow_right (by decide) hbits
  have hcast : ((2 ^ bits : Nat) : Int) = 2 ^ bits := by push_cast; rfl
  unfold castSigned
  rw [← hcast]
  generalize 2 ^ bits = modulus at *
  by_cases hfull : unsigned = modulus
  · subst hfull
    rw [Nat.add_sub_cancel_left, Nat.mod_self, if_neg (by decide)]
    omega
  · rw [Nat.mod_eq_of_lt (by omega), if_pos (by omega)]
    omega

/-- The signed integer is congruent to the unsigned one. -/
theorem signedInteger_emod {n : Int} (hbound : n.natAbs ≤ 2 ^ 53) (width : Width) :
    signedInteger (.finite n) width.bits % 2 ^ width.bits =
      (unsignedInteger (.finite n) width.bits : Int) % 2 ^ width.bits := by
  obtain ⟨hle, hmax⟩ := unsignedInteger_le hbound width
  unfold signedInteger
  simp only
  generalize unsignedInteger (.finite n) width.bits = unsigned at *
  by_cases hsign : unsigned ≥ 2 ^ (width.bits - 1)
  · rw [if_pos hsign]
    by_cases hwide : width.bits = 128
    · have hmax' : maximumU128 = 2 ^ 128 - 1 := rfl
      rw [if_pos hwide, hwide]
      omega
    · have hbits : width.bits ≤ 127 := by
        cases width with
        | w128 => exact absurd rfl hwide
        | _ => decide
      rw [if_neg hwide, castSigned_wrapped hbits hle, Int.sub_emod_right]
  · rw [if_neg hsign]

theorem signedInteger_range (n : Int) :
    -(2 ^ 127) ≤ signedInteger (.finite n) 128 ∧ signedInteger (.finite n) 128 < 2 ^ 127 := by
  have hmax : unsignedInteger (.finite n) 128 ≤ maximumU128 := by
    rw [unsignedInteger_intCast]
    exact Nat.min_le_right _ _
  have hmax' : maximumU128 = 2 ^ 128 - 1 := rfl
  unfold signedInteger
  simp only
  generalize unsignedInteger (.finite n) 128 = unsigned at *
  by_cases hsign : unsigned ≥ 2 ^ (128 - 1)
  · rw [if_pos hsign, if_pos trivial]
    omega
  · rw [if_neg hsign]
    omega

/-- A residue of a width is the balanced one of exactly the numbers congruent to it. -/
theorem bmod_eq_iff_emod {a b : Int} (m : Nat) : a.bmod m = b.bmod m ↔ a % m = b % m := by
  constructor
  · intro h
    rw [← Int.bmod_emod, h, Int.bmod_emod]
  · intro h
    rw [← Int.emod_bmod, h, Int.emod_bmod]

section Held

variable {floats : FloatText} {number : Number} {n : Int} (h : Heap) (budget : Nat)

theorem toSigned_held (hheld : floats.asF64 number = some (.finite n)) (hbound : n.natAbs ≤ 2 ^ 53)
    (width : Width) : width.toSigned floats h budget (.number number) =
      some ((unsignedInteger (.finite n) width.bits : Int).bmod (2 ^ width.bits)) := by
  have hcast : ((2 ^ width.bits : Nat) : Int) = 2 ^ width.bits := by push_cast; rfl
  have hnumber : (Var.number number).jsNumber floats h budget = some (.finite n) := by
    show some ((floats.asF64 number).getD .nan) = _
    rw [hheld, Option.getD_some]
  have hbmod : (signedInteger (.finite n) width.bits).bmod (2 ^ width.bits) =
      (unsignedInteger (.finite n) width.bits : Int).bmod (2 ^ width.bits) :=
    (bmod_eq_iff_emod _).mpr (by rw [hcast]; exact signedInteger_emod hbound width)
  cases width with
  | w128 =>
      rw [Width.toSigned, Var.toI128, hnumber, Option.map_some, ← hbmod]
      obtain ⟨hlow, hhigh⟩ := signedInteger_range n
      refine congrArg some ?_
      show signedInteger (.finite n) 128 = (signedInteger (.finite n) 128).bmod (2 ^ 128)
      exact (Int.bmod_eq_of_le (by omega) (by omega)).symm
  | _ =>
      simp only [Width.toSigned, Var.toI8, Var.toI16, Var.toI32, Var.toI64, Var.toSigned, hnumber,
        Option.map_some]
      exact congrArg some hbmod

theorem toUnsigned_held (hheld : floats.asF64 number = some (.finite n))
    (hbound : n.natAbs ≤ 2 ^ 53) (width : Width) :
    width.toUnsigned floats h budget (.number number) =
      some (unsignedInteger (.finite n) width.bits % 2 ^ width.bits) := by
  have hnumber : (Var.number number).jsNumber floats h budget = some (.finite n) := by
    show some ((floats.asF64 number).getD .nan) = _
    rw [hheld, Option.getD_some]
  cases width with
  | w128 =>
      have hmax := (unsignedInteger_le hbound .w128).2
      have hmax' : maximumU128 < 2 ^ 128 := by decide
      rw [Width.toUnsigned, Var.toU128, hnumber, Option.map_some]
      exact congrArg some (Nat.mod_eq_of_lt (Nat.lt_of_le_of_lt hmax hmax')).symm
  | _ =>
      simp only [Width.toUnsigned, Var.toU8, Var.toU16, Var.toU32, Var.toU64, Var.toUnsigned, hnumber,
        Option.map_some]
      rfl

/-- A number is converted to its residue where the sum in `binary64` is exact, and nowhere else:
never below zero in 64 and 128 bits, but for the multiples of 2048 and for -1. -/
theorem conversions_modular_iff (hheld : floats.asF64 number = some (.finite n))
    (hbound : n.natAbs ≤ 2 ^ 53) (width : Width) :
    (width.toSigned floats h budget (.number number) = some (n.bmod (2 ^ width.bits)) ↔
      width.Survives n) ∧
    (width.toUnsigned floats h budget (.number number) = some (n % 2 ^ width.bits).toNat ↔
      width.Survives n) := by
  have hcast : ((2 ^ width.bits : Nat) : Int) = 2 ^ width.bits := by push_cast; rfl
  have hpow : (0 : Int) < 2 ^ width.bits := Int.pow_pos (by decide)
  rw [toSigned_held h budget hheld hbound, toUnsigned_held h budget hheld hbound,
    ← residue_iff hbound, Option.some.injEq, Option.some.injEq, bmod_eq_iff_emod, hcast]
  refine ⟨Iff.rfl, ?_⟩
  have hnonneg := Int.emod_nonneg n (Int.ne_of_gt hpow)
  have hmod : ((unsignedInteger (.finite n) width.bits % 2 ^ width.bits : Nat) : Int) =
      (unsignedInteger (.finite n) width.bits : Int) % 2 ^ width.bits := by push_cast; rfl
  rw [← hmod]
  omega

end Held

/-! ## 6. Minus one -/

/-- What the parser makes of the text below. -/
def minusOneText : FloatText where
  asF64 number := if number.text = "-1" then some (.finite (-1 : Int)) else none
  trim value := value
  parse _ := none

/-- The 32 bit conversions of -1 are its residues. -/
theorem minus_one_32 :
    (Width.w32.toSigned minusOneText Heap.empty 1 (.number ⟨"-1"⟩) = some ((-1 : Int).bmod (2 ^ 32)) ↔
      Width.w32.Survives (-1)) ∧
    (Width.w32.toUnsigned minusOneText Heap.empty 1 (.number ⟨"-1"⟩) =
      some ((-1 : Int) % 2 ^ 32).toNat ↔ Width.w32.Survives (-1)) :=
  conversions_modular_iff Heap.empty 1 (by rfl) (by decide) .w32

/-- The 64 bit conversions of -1 are 0, not -1 and 2^64 - 1. -/
theorem minus_one_64 :
    (Var.number ⟨"-1"⟩).toI64 minusOneText Heap.empty 1 = some 0 ∧
    (Var.number ⟨"-1"⟩).toU64 minusOneText Heap.empty 1 = some 0 ∧
    (-1 : Int).bmod (2 ^ 64) = -1 ∧ ((-1 : Int) % 2 ^ 64).toNat = 2 ^ 64 - 1 := by
  decide +kernel

end Stainless.Runtime
