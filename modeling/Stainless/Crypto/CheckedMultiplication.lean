import Stainless.Crypto.WideMultiplication
import Stainless.Reasoning.MachineWord

/-!
# The wide multiplication in machine arithmetic

Every sum, difference and doubling of `mul_div_floor` is one of `u128` and may leave the range.  None
does: over the machine numbers the function throws and returns what it does over the unbounded ones,
and it returns whenever the rounded quotient is a `u128`.
-/

namespace Stainless.Crypto

open Reasoning

abbrev U128 := Word maximum

namespace U128

def zero : U128 := ⟨0, Nat.zero_le _⟩

def one : U128 := ⟨1, by decide⟩

def top : U128 := ⟨maximum, Nat.le_refl _⟩

/-- `value / 2`. -/
def half (a : U128) : U128 := ⟨a.value / 2, Nat.le_trans (Nat.div_le_self _ _) a.inRange⟩

end U128

/-! ## 1. The function over `u128` -/

namespace Checked

/-- `number += addend` for a quotient and a remainder of `divisor`. -/
def addWide (divisor : U128) (number addend : U128 × U128) :
    Except (Failure String) (U128 × U128) := do
  let room ← U128.top.sub addend.1
  if number.1.value > room.value then
    throw (.thrown "mul_div_floor(): quotient overflow")
  let quotient ← number.1.add addend.1
  let gap ← divisor.sub addend.2
  if number.2.value ≥ gap.value then
    let remainder ← number.2.sub gap
    if quotient = U128.top then
      throw (.thrown "mul_div_floor(): quotient overflow")
    let quotient ← quotient.add U128.one
    return (quotient, remainder)
  else
    let remainder ← number.2.add addend.2
    return (quotient, remainder)

def mulDivLoop (divisor multiplier : U128) (unit result : U128 × U128) :
    Except (Failure String) U128 :=
  if multiplier.value = 0 then return result.1
  else do
    let result ← (if multiplier.value % 2 = 1 then addWide divisor result unit else pure result)
    let unit ← (if multiplier.half.value > 0 then addWide divisor unit unit else pure unit)
    mulDivLoop divisor multiplier.half unit result
termination_by multiplier.value
decreasing_by show multiplier.value / 2 < multiplier.value; omega

def mulDivFloor (left right divisor : U128) : Except (Failure String) U128 :=
  if divisor.value = 0 then throw (.thrown "wide multiplication divides by zero")
  else do
    let unitQuotient ← left.div divisor
    let unitRemainder ← left.mod divisor
    mulDivLoop divisor right (unitQuotient, unitRemainder) (U128.zero, U128.zero)

end Checked

/-! ## 2. No operation leaves the range -/

def plain (number : U128 × U128) : Nat × Nat := (number.1.value, number.2.value)

/-- A machine computation throws and returns what the unbounded one does. -/
def Agrees {α β : Type} (f : α → β) (checked : Except (Failure String) α)
    (exact : Except String β) : Prop :=
  checked.map f = exact.mapError .thrown

namespace Agrees

variable {α α' β β' : Type} {f : α → β} {g : α' → β'}

theorem ok (a : α) : Agrees f (.ok a) (.ok (f a)) := rfl

theorem thrown (message : String) : Agrees f (.error (.thrown message)) (.error message) := rfl

theorem bind {x : Except (Failure String) α} {y : Except String β}
    {k : α → Except (Failure String) α'} {l : β → Except String β'} (h : Agrees f x y)
    (hnext : ∀ a, y = .ok (f a) → Agrees g (k a) (l (f a))) : Agrees g (x >>= k) (y >>= l) := by
  cases x with
  | error failure =>
      cases y with
      | error message => exact congrArg Except.error (Except.error.inj h)
      | ok b => cases h
  | ok a =>
      cases y with
      | error message => cases h
      | ok b =>
          have hb : f a = b := Except.ok.inj h
          subst hb
          exact hnext a rfl

theorem ite {c : Prop} [Decidable c] {x x' : Except (Failure String) α} {y y' : Except String β}
    (hthen : c → Agrees f x y) (helse : ¬ c → Agrees f x' y') :
    Agrees f (if c then x else x') (if c then y else y') := by
  by_cases hc : c
  · rw [if_pos hc, if_pos hc]
    exact hthen hc
  · rw [if_neg hc, if_neg hc]
    exact helse hc

theorem returned {x : Except (Failure String) α} {b : β} (h : Agrees f x (.ok b)) :
    ∃ a, x = .ok a ∧ f a = b := by
  cases x with
  | error failure => cases h
  | ok a => exact ⟨a, rfl, Except.ok.inj h⟩

theorem threw {x : Except (Failure String) α} {message : String}
    (h : Agrees f x (.error message)) : x = .error (.thrown message) := by
  cases x with
  | error failure => exact congrArg Except.error (Except.error.inj h)
  | ok a => cases h

end Agrees

theorem Checked.addWide_agrees {divisor : U128} {number addend : U128 × U128}
    (hnumber : number.2.value < divisor.value) (haddend : addend.2.value < divisor.value) :
    Agrees plain (Checked.addWide divisor number addend)
      (Crypto.addWide divisor.value (plain number) (plain addend)) := by
  obtain ⟨q, r⟩ := number
  obtain ⟨q', r'⟩ := addend
  have hroom : q'.value ≤ U128.top.value := q'.inRange
  have hlimit : divisor.value ≤ maximum := divisor.inRange
  simp only at hnumber haddend
  unfold Checked.addWide Crypto.addWide
  simp only [Word.sub_ok hroom, Word.sub_ok (Nat.le_of_lt haddend), plain, bind, Except.bind]
  by_cases hover : q.value > maximum - q'.value
  · simp only [U128.top, hover, if_true]
    exact Agrees.thrown _
  · have hsum : q.value + q'.value ≤ maximum := by
      have : q'.value ≤ maximum := q'.inRange
      omega
    simp only [U128.top, hover, if_false, Word.add_ok hsum, Word.mk.injEq, pure, Except.pure]
    by_cases hcarry : r.value ≥ divisor.value - r'.value
    · by_cases hmax : q.value + q'.value = maximum
      · simp only [hcarry, hmax, if_true]
        rw [Word.sub_ok hcarry]
        exact Agrees.thrown _
      · simp only [hcarry, hmax, if_true, if_false]
        rw [Word.sub_ok hcarry, Word.add_ok (show q.value + q'.value + 1 ≤ maximum by omega)]
        exact Agrees.ok _
    · simp only [hcarry, if_false]
      rw [Word.add_ok (show r.value + r'.value ≤ maximum by omega)]
      exact Agrees.ok _

theorem Checked.addWide_if_agrees {divisor : U128} {number addend : U128 × U128} {c : Prop}
    [Decidable c] (hnumber : number.2.value < divisor.value)
    (haddend : addend.2.value < divisor.value) :
    Agrees plain (if c then Checked.addWide divisor number addend else pure number)
      (if c then Crypto.addWide divisor.value (plain number) (plain addend)
        else pure (plain number)) :=
  Agrees.ite (fun _ ↦ Checked.addWide_agrees hnumber haddend) (fun _ ↦ Agrees.ok number)

theorem Checked.mulDivLoop_agrees {divisor : U128} (multiplier : U128) {unit result : U128 × U128}
    (hunit : unit.2.value < divisor.value) (hresult : result.2.value < divisor.value) :
    Agrees Word.value (Checked.mulDivLoop divisor multiplier unit result)
      (Crypto.mulDivLoop divisor.value multiplier.value (plain unit) (plain result)) := by
  induction hn : multiplier.value using Nat.strong_induction_on
    generalizing multiplier unit result with
  | h n ih =>
      by_cases hzero : multiplier.value = 0
      · rw [Checked.mulDivLoop, if_pos hzero, Crypto.mulDivLoop, if_pos (hn ▸ hzero)]
        exact Agrees.ok result.1
      · subst hn
        rw [Checked.mulDivLoop, if_neg hzero, mulDivLoop_step hzero]
        refine Agrees.bind (Checked.addWide_if_agrees (c := multiplier.value % 2 = 1) hresult hunit)
          fun result' hadd ↦ ?_
        refine Agrees.bind (Checked.addWide_if_agrees (c := multiplier.value / 2 > 0) hunit hunit)
          fun unit' hdouble ↦ ?_
        -- the remainders stay below the divisor, and the bits left are fewer
        obtain ⟨-, hresult'⟩ := addWide_if_ok hresult hunit hadd
        obtain ⟨-, hunit'⟩ := addWide_if_ok hunit hunit hdouble
        have hless : multiplier.half.value < multiplier.value :=
          Nat.div_lt_self (Nat.pos_of_ne_zero hzero) (by decide)
        exact ih multiplier.half.value hless multiplier.half hunit' hresult' rfl

theorem Checked.mulDivFloor_agrees (left right divisor : U128) :
    Agrees Word.value (Checked.mulDivFloor left right divisor)
      (Crypto.mulDivFloor left.value right.value divisor.value) := by
  by_cases hzero : divisor.value = 0
  · rw [Checked.mulDivFloor, if_pos hzero, Crypto.mulDivFloor, if_pos hzero]
    exact Agrees.thrown _
  · have hpos : 0 < divisor.value := Nat.pos_of_ne_zero hzero
    rw [Checked.mulDivFloor, if_neg hzero, Crypto.mulDivFloor, if_neg hzero,
      Word.div_ok hzero, Word.mod_ok hzero]
    exact Checked.mulDivLoop_agrees right (Nat.mod_lt _ hpos) hpos

/-! ## 3. No test fires early -/

theorem addWide_returns {divisor : Nat} {number addend : Nat × Nat} (hnumber : number.2 < divisor)
    (haddend : addend.2 < divisor)
    (hfits : (wideValue divisor number + wideValue divisor addend) / divisor ≤ maximum) :
    ∃ sum, addWide divisor number addend = .ok sum := by
  obtain ⟨q, r⟩ := number
  obtain ⟨q', r'⟩ := addend
  simp only [wideValue] at hnumber haddend hfits
  have hpos : 0 < divisor := by omega
  have hring : q * divisor + r + (q' * divisor + r') = (r + r') + (q + q') * divisor := by ring
  rw [hring, Nat.add_mul_div_right _ _ hpos] at hfits
  have hquotients : q + q' ≤ maximum := Nat.le_trans (Nat.le_add_left _ _) hfits
  have hover : ¬ q > maximum - q' := by omega
  unfold addWide
  by_cases hcarry : r ≥ divisor - r'
  · -- the carry is the quotient of the remainders
    have hone : 1 ≤ (r + r') / divisor := (Nat.le_div_iff_mul_le hpos).mpr (by omega)
    have hmax : ¬ q + q' = maximum := by omega
    simp only [hover, hcarry, hmax, if_true, if_false]
    exact ⟨_, rfl⟩
  · simp only [hover, hcarry, if_false]
    exact ⟨_, rfl⟩

theorem addWide_if_returns {divisor : Nat} {number addend : Nat × Nat} {c : Prop} [Decidable c]
    (hnumber : number.2 < divisor) (haddend : addend.2 < divisor)
    (hfits : (wideValue divisor number + (if c then wideValue divisor addend else 0)) / divisor ≤
      maximum) :
    ∃ sum, (if c then addWide divisor number addend else pure number) = .ok sum := by
  by_cases hc : c
  · rw [if_pos hc] at hfits ⊢
    exact addWide_returns hnumber haddend hfits
  · rw [if_neg hc]
    exact ⟨number, rfl⟩

/-- A unit is doubled only where a bit above the last one will add it. -/
theorem doubled_le {multiplier : Nat} (hpos : multiplier ≠ 0) (unit : Nat) :
    unit + (if multiplier / 2 > 0 then unit else 0) ≤ multiplier * unit := by
  by_cases hhalf : multiplier / 2 > 0
  · rw [if_pos hhalf, ← Nat.two_mul]
    exact Nat.mul_le_mul_right unit (by omega)
  · rw [if_neg hhalf, Nat.add_zero]
    exact Nat.le_mul_of_pos_left unit (Nat.pos_of_ne_zero hpos)

theorem mulDivLoop_returns {divisor : Nat} (multiplier : Nat) {unit result : Nat × Nat}
    (hunit : unit.2 < divisor) (hresult : result.2 < divisor)
    (hfits : (wideValue divisor result + multiplier * wideValue divisor unit) / divisor ≤ maximum) :
    ∃ quotient, mulDivLoop divisor multiplier unit result = .ok quotient := by
  induction multiplier using Nat.strong_induction_on generalizing unit result with
  | h multiplier ih =>
      by_cases hzero : multiplier = 0
      · rw [mulDivLoop, if_pos hzero]
        exact ⟨_, rfl⟩
      · have hsplit := bits_split multiplier (wideValue divisor unit)
        -- a part of the product has a quotient that is no larger
        have hpart : ∀ part, part ≤ wideValue divisor result + multiplier * wideValue divisor unit →
            part / divisor ≤ maximum := fun part hpart ↦
          Nat.le_trans (Nat.div_le_div_right hpart) hfits
        obtain ⟨result', hadd⟩ := addWide_if_returns (c := multiplier % 2 = 1) hresult hunit
          (hpart _ (by omega))
        obtain ⟨unit', hdouble⟩ := addWide_if_returns (c := multiplier / 2 > 0) hunit hunit
          (hpart _ (Nat.le_trans (doubled_le hzero _) (Nat.le_add_left _ _)))
        obtain ⟨hsum, hresult'⟩ := addWide_if_ok hresult hunit hadd
        obtain ⟨htwice, hunit'⟩ := addWide_if_ok hunit hunit hdouble
        rw [mulDivLoop_step hzero, hadd]
        show ∃ quotient, ((if multiplier / 2 > 0 then addWide divisor unit unit else pure unit) >>= _) =
          Except.ok quotient
        rw [hdouble]
        refine ih (multiplier / 2) (by omega) hunit' hresult' (hpart _ ?_)
        rw [hsum, htwice]
        omega

theorem mulDivFloor_returns {left right divisor : Nat} (hzero : divisor ≠ 0)
    (hfits : left * right / divisor ≤ maximum) :
    ∃ quotient, mulDivFloor left right divisor = .ok quotient := by
  have hpos : 0 < divisor := Nat.pos_of_ne_zero hzero
  rw [mulDivFloor, if_neg hzero]
  refine mulDivLoop_returns right (Nat.mod_lt left hpos) hpos ?_
  rw [wideValue_unit, wideValue, Nat.zero_mul, Nat.zero_add, Nat.zero_add, Nat.mul_comm]
  exact hfits

/-! ## 4. The rounded quotient -/

/-- Where the quotient is a `u128` it is returned.  Everywhere else a decimal error is thrown: no
operation of `u128` leaves its range. -/
theorem mulDivFloor_exact (left right divisor : U128) :
    Checked.mulDivFloor left right divisor =
      if h : divisor.value ≠ 0 ∧ left.value * right.value / divisor.value ≤ maximum then
        .ok ⟨left.value * right.value / divisor.value, h.2⟩
      else if divisor.value = 0 then .error (.thrown "wide multiplication divides by zero")
      else .error (.thrown "mul_div_floor(): quotient overflow") := by
  have hagrees := Checked.mulDivFloor_agrees left right divisor
  by_cases hzero : divisor.value = 0
  · rw [dif_neg (fun h ↦ h.1 hzero), if_pos hzero, Checked.mulDivFloor, if_pos hzero]
    rfl
  · rw [if_neg hzero]
    cases hexact : Crypto.mulDivFloor left.value right.value divisor.value with
    | ok quotient =>
        rw [hexact, mulDivFloor_ok hexact] at hagrees
        obtain ⟨result, hresult, hvalue⟩ := hagrees.returned
        -- what is returned is a `u128`
        rw [hresult, dif_pos ⟨hzero, hvalue ▸ result.inRange⟩]
        exact congrArg Except.ok (Word.ext hvalue)
    | error message =>
        rw [hexact, mulDivFloor_nonzero_error hzero hexact] at hagrees
        have hlarge : ¬ left.value * right.value / divisor.value ≤ maximum := by
          intro hfits
          obtain ⟨quotient, hreturns⟩ := mulDivFloor_returns hzero hfits
          rw [hexact] at hreturns
          cases hreturns
        rw [dif_neg (fun h ↦ hlarge h.2)]
        exact hagrees.threw

end Stainless.Crypto
