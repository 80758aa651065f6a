import Mathlib.Data.Nat.Log
import Mathlib.Tactic.Ring

/-!
# Rounding to a number of significant bits

The nearest integer whose leading `precision` bits are its only ones; of two that are equally near,
the one whose last bit is even.
-/

namespace Reasoning

/-- The bits of a number below its first `precision` ones. -/
def lowBits (precision value : Nat) : Nat := Nat.log2 value + 1 - precision

def roundNat (precision value : Nat) : Nat :=
  let unit := 2 ^ lowBits precision value
  let quotient := value / unit
  let rest := value % unit
  if 2 * rest > unit ∨ (2 * rest = unit ∧ quotient % 2 = 1) then (quotient + 1) * unit
  else quotient * unit

def roundInt (precision : Nat) (value : Int) : Int :=
  if value < 0 then -(roundNat precision value.natAbs : Int) else roundNat precision value.natAbs

variable {precision value : Nat}

theorem roundNat_eq_self_iff :
    roundNat precision value = value ↔ 2 ^ lowBits precision value ∣ value := by
  have hunit : 0 < 2 ^ lowBits precision value := Nat.pow_pos (by decide)
  have hparts := Nat.div_add_mod value (2 ^ lowBits precision value)
  have hrest := Nat.mod_lt value hunit
  unfold roundNat
  simp only
  generalize 2 ^ lowBits precision value = unit at *
  constructor
  · intro h
    by_cases hup : 2 * (value % unit) > unit ∨
        (2 * (value % unit) = unit ∧ value / unit % 2 = 1)
    · rw [if_pos hup] at h
      exact ⟨value / unit + 1, by rw [Nat.mul_comm]; exact h.symm⟩
    · rw [if_neg hup] at h
      exact ⟨value / unit, by rw [Nat.mul_comm]; exact h.symm⟩
  · intro h
    have hzero : value % unit = 0 := Nat.mod_eq_zero_of_dvd h
    rw [hzero, if_neg (by omega), Nat.div_mul_cancel h]

/-- A number of at most `precision` bits is kept. -/
theorem roundNat_of_lt (h : value < 2 ^ precision) : roundNat precision value = value := by
  refine roundNat_eq_self_iff.mpr ?_
  by_cases hzero : value = 0
  · rw [hzero]
    exact Nat.dvd_zero _
  · have hlog := (Nat.log2_lt hzero).mpr h
    have hlow : lowBits precision value = 0 := by
      unfold lowBits
      omega
    rw [hlow]
    exact Nat.one_dvd value

theorem lowBits_below_pow {bits k : Nat} (hpos : 0 < k) (hk : k ≤ 2 ^ bits) :
    lowBits precision (2 ^ (bits + 1) - k) = bits + 1 - precision := by
  have hdouble : 2 ^ (bits + 1) = 2 ^ bits + 2 ^ bits := by rw [Nat.pow_succ, Nat.mul_two]
  have hunit : 0 < 2 ^ bits := Nat.pow_pos (by decide)
  have hlog : Nat.log2 (2 ^ (bits + 1) - k) = bits :=
    (Nat.log2_eq_iff (by omega)).mpr ⟨by omega, by omega⟩
  rw [lowBits, hlog]

/-- A number nearer to the power of two above it than half its last significant bit. -/
theorem roundNat_below_pow {bits k : Nat} (hpos : 0 < k) (hprecision : precision ≤ bits)
    (hk : 2 * k < 2 ^ (bits + 1 - precision)) :
    roundNat precision (2 ^ (bits + 1) - k) = 2 ^ (bits + 1) := by
  have hpow : 2 ^ (bits + 1) = 2 ^ precision * 2 ^ (bits + 1 - precision) := by
    rw [← Nat.pow_add, Nat.add_sub_cancel' (by omega)]
  have hle : 2 ^ (bits + 1 - precision) ≤ 2 ^ (bits + 1) := Nat.pow_le_pow_right (by decide) (by omega)
  have hdouble : 2 ^ (bits + 1) = 2 ^ bits + 2 ^ bits := by rw [Nat.pow_succ, Nat.mul_two]
  unfold roundNat
  simp only
  rw [lowBits_below_pow hpos (by omega), hpow]
  have hprec : 0 < 2 ^ precision := Nat.pow_pos (by decide)
  generalize 2 ^ precision = top at hprec ⊢
  generalize 2 ^ (bits + 1 - precision) = unit at hk ⊢
  obtain ⟨quotient, rfl⟩ : ∃ quotient, top = quotient + 1 := ⟨top - 1, by omega⟩
  have hvalue : (quotient + 1) * unit - k = unit * quotient + (unit - k) := by
    have hring : (quotient + 1) * unit = unit * quotient + unit := by ring
    omega
  have hunit : 0 < unit := by omega
  have hquotient : ((quotient + 1) * unit - k) / unit = quotient := by
    rw [hvalue, Nat.mul_add_div hunit, Nat.div_eq_of_lt (by omega), Nat.add_zero]
  have hrest : ((quotient + 1) * unit - k) % unit = unit - k := by
    rw [hvalue, Nat.mul_add_mod, Nat.mod_eq_of_lt (by omega)]
  rw [hquotient, hrest, if_pos (.inl (by omega))]

/-- Rounding does not pass a power of two. -/
theorem roundNat_le_pow {bits : Nat} (h : value < 2 ^ bits) : roundNat precision value ≤ 2 ^ bits := by
  by_cases hzero : value = 0
  · rw [hzero, roundNat_eq_self_iff.mpr (Nat.dvd_zero _)]
    exact Nat.zero_le _
  · have hlog := (Nat.log2_lt hzero).mpr h
    have hlow : lowBits precision value ≤ bits := by
      unfold lowBits
      omega
    obtain ⟨units, hunits⟩ := Nat.pow_dvd_pow 2 hlow
    have hnext : (value / 2 ^ lowBits precision value + 1) * 2 ^ lowBits precision value ≤ 2 ^ bits := by
      rw [hunits, Nat.mul_comm]
      refine Nat.mul_le_mul_left _ (Nat.div_lt_of_lt_mul ?_)
      rwa [← hunits]
    unfold roundNat
    simp only
    by_cases hup : 2 * (value % 2 ^ lowBits precision value) > 2 ^ lowBits precision value ∨
        (2 * (value % 2 ^ lowBits precision value) = 2 ^ lowBits precision value ∧
          value / 2 ^ lowBits precision value % 2 = 1)
    · rw [if_pos hup]
      exact hnext
    · rw [if_neg hup]
      exact Nat.le_trans (Nat.mul_le_mul_right _ (Nat.le_succ _)) hnext

end Reasoning
