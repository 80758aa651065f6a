import Mathlib.Tactic.Ring

/-!
# Positional numerals

What a text of digits denotes in a base of at most sixteen, and the shortest text that denotes a
number.
-/

namespace Reasoning

/-! ## 1. Reading -/

/-- The digit that a character stands for: `0` to `9`, then `a` to `f`. -/
def digitOf (c : Char) : Option Nat :=
  if 48 ≤ c.toNat ∧ c.toNat ≤ 57 then some (c.toNat - 48)
  else if 97 ≤ c.toNat ∧ c.toNat ≤ 102 then some (c.toNat - 87)
  else none

/-- Digits read after the ones that denote `value`. -/
def readDigits (base : Nat) : Nat → List Char → Option Nat
  | value, [] => some value
  | value, c :: cs => do
      let digit ← digitOf c
      if digit < base then readDigits base (value * base + digit) cs else none

/-- The number that a text denotes, if it is a numeral of the base. -/
def numeralValue (base : Nat) (text : List Char) : Option Nat :=
  if text.isEmpty then none else readDigits base 0 text

structure IsShortestNumeral (base value : Nat) (text : List Char) : Prop where
  denotes : numeralValue base text = some value
  least : ∀ other, numeralValue base other = some value → text.length ≤ other.length

variable {base : Nat}

theorem readDigits_cons {value digit : Nat} {c : Char} {cs : List Char} (hc : digitOf c = some digit)
    (hdigit : digit < base) :
    readDigits base value (c :: cs) = readDigits base (value * base + digit) cs := by
  rw [readDigits, hc]
  exact if_pos hdigit

theorem readDigits_cons_some {value result : Nat} {c : Char} {cs : List Char}
    (h : readDigits base value (c :: cs) = some result) :
    ∃ digit, digitOf c = some digit ∧ digit < base ∧
      readDigits base (value * base + digit) cs = some result := by
  rw [readDigits] at h
  cases hc : digitOf c with
  | none =>
      rw [hc] at h
      cases h
  | some digit =>
      rw [hc] at h
      by_cases hdigit : digit < base
      · exact ⟨digit, rfl, hdigit, by rwa [Option.bind_eq_bind, Option.bind_some, if_pos hdigit] at h⟩
      · rw [Option.bind_eq_bind, Option.bind_some, if_neg hdigit] at h
        cases h

theorem readDigits_append (value : Nat) (text rest : List Char) :
    readDigits base value (text ++ rest) =
      (readDigits base value text).bind fun value ↦ readDigits base value rest := by
  induction text generalizing value with
  | nil => rfl
  | cons c cs ih =>
      rw [List.cons_append, readDigits, readDigits]
      cases digitOf c with
      | none => rfl
      | some digit =>
          simp only [Option.bind_eq_bind, Option.bind_some]
          by_cases hdigit : digit < base
          · rw [if_pos hdigit, if_pos hdigit, ih]
          · rw [if_neg hdigit, if_neg hdigit]
            rfl

/-- More digits never denote less. -/
theorem le_of_readDigits {value result : Nat} {text : List Char}
    (h : readDigits base value text = some result) : value ≤ result := by
  induction text generalizing value with
  | nil => exact Nat.le_of_eq (Option.some.inj h)
  | cons c cs ih =>
      obtain ⟨digit, -, hdigit, hrest⟩ := readDigits_cons_some h
      have hpos : 0 < base := by omega
      have hvalue : value ≤ value * base := Nat.le_mul_of_pos_right value hpos
      have hle := ih hrest
      omega

theorem readDigits_lt {value result : Nat} {text : List Char}
    (h : readDigits base value text = some result) :
    result < (value + 1) * base ^ text.length := by
  induction text generalizing value with
  | nil =>
      have hresult : value = result := Option.some.inj h
      simp only [List.length_nil, Nat.pow_zero, Nat.mul_one]
      omega
  | cons c cs ih =>
      obtain ⟨digit, -, hdigit, hrest⟩ := readDigits_cons_some h
      calc result < (value * base + digit + 1) * base ^ cs.length := ih hrest
        _ ≤ ((value + 1) * base) * base ^ cs.length := by
            refine Nat.mul_le_mul_right _ ?_
            have hring : (value + 1) * base = value * base + base := by ring
            omega
        _ = (value + 1) * base ^ (c :: cs).length := by
            rw [List.length_cons, Nat.pow_succ]
            ring

/-! ## 2. Writing -/

theorem digitOf_digitChar {digit : Nat} (h : digit < 16) : digitOf (Nat.digitChar digit) = some digit := by
  have hall : ∀ digit < 16, digitOf (Nat.digitChar digit) = some digit := by decide
  exact hall digit h

theorem readDigits_toDigits (hbase : 1 < base) (hdigits : base ≤ 16) (value : Nat) :
    readDigits base 0 (Nat.toDigits base value) = some value := by
  induction value using Nat.strong_induction_on with
  | h value ih =>
      have hpos : 0 < base := by omega
      have hmod : value % base < base := Nat.mod_lt value hpos
      by_cases hlt : value < base
      · rw [Nat.toDigits_of_lt_base hlt, readDigits_cons (digitOf_digitChar (by omega)) hlt,
          Nat.zero_mul, Nat.zero_add]
        rfl
      · rw [Nat.toDigits_of_base_le hbase (by omega), readDigits_append,
          ih (value / base) (Nat.div_lt_self (by omega) hbase), Option.bind_some,
          readDigits_cons (digitOf_digitChar (by omega)) hmod, Nat.mul_comm, Nat.div_add_mod]
        rfl

theorem toDigits_shortest (hbase : 1 < base) (hdigits : base ≤ 16) (value : Nat) :
    IsShortestNumeral base value (Nat.toDigits base value) where
  denotes := by
    rw [numeralValue, if_neg (by simp)]
    exact readDigits_toDigits hbase hdigits value
  least := fun other hother ↦ by
    cases other with
    | nil => cases hother
    | cons c cs =>
        have hvalue : readDigits base 0 (c :: cs) = some value := hother
        have hlt := readDigits_lt hvalue
        rw [Nat.zero_add, Nat.one_mul] at hlt
        exact (Nat.length_toDigits_le_iff hbase (Nat.zero_lt_succ _)).mpr hlt

end Reasoning
