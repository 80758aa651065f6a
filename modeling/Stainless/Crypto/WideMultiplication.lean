import Stainless.Crypto.Crypto
import Mathlib.Tactic.Ring

/-!
# The wide multiplication is exact

`mul_div_floor` keeps a number as a quotient and a remainder of the divisor and doubles it along the
bits of the multiplier.  What it returns is the rounded quotient of the whole product.
-/

namespace Stainless.Crypto

/-- The number that a quotient and a remainder stand for. -/
def wideValue (divisor : Nat) (number : Nat × Nat) : Nat := number.1 * divisor + number.2

theorem addWide_ok {divisor : Nat} {number addend sum : Nat × Nat} (hnumber : number.2 < divisor)
    (haddend : addend.2 < divisor) (h : addWide divisor number addend = .ok sum) :
    wideValue divisor sum = wideValue divisor number + wideValue divisor addend ∧
      sum.2 < divisor := by
  obtain ⟨q, r⟩ := number
  obtain ⟨q', r'⟩ := addend
  simp only [wideValue] at hnumber haddend ⊢
  unfold addWide at h
  by_cases hover : q > maximum - q'
  · simp [hover, throw, throwThe, MonadExceptOf.throw, bind, Except.bind] at h
  · by_cases hcarry : r ≥ divisor - r'
    · by_cases hmax : q + q' = maximum
      · simp [hover, hcarry, hmax, throw, throwThe, MonadExceptOf.throw, bind, Except.bind] at h
      · simp [hover, hcarry, hmax, pure, Except.pure] at h
        obtain rfl := h
        constructor
        · have hring : (q + q' + 1) * divisor = q * divisor + q' * divisor + divisor := by ring
          show (q + q' + 1) * divisor + (r - (divisor - r')) = _
          omega
        · show r - (divisor - r') < divisor
          omega
    · simp [hover, hcarry, pure, Except.pure] at h
      obtain rfl := h
      constructor
      · have hring : (q + q') * divisor = q * divisor + q' * divisor := by ring
        show (q + q') * divisor + (r + r') = _
        omega
      · show r + r' < divisor
        omega

private theorem ok_of_bind {α β : Type} {x : Except String α} {f : α → Except String β} {b : β}
    (h : (x >>= f) = .ok b) : ∃ a, x = .ok a ∧ f a = .ok b := by
  cases x with
  | error message => cases h
  | ok a => exact ⟨a, rfl, h⟩

/-- One bit of the multiplier: a number is added or left as it is. -/
theorem addWide_if_ok {divisor : Nat} {number addend sum : Nat × Nat} {c : Prop} [Decidable c]
    (hnumber : number.2 < divisor) (haddend : addend.2 < divisor)
    (h : (if c then addWide divisor number addend else pure number) = .ok sum) :
    wideValue divisor sum = wideValue divisor number + (if c then wideValue divisor addend else 0) ∧
      sum.2 < divisor := by
  by_cases hc : c
  · rw [if_pos hc] at h ⊢
    exact addWide_ok hnumber haddend h
  · rw [if_neg hc] at h ⊢
    obtain rfl := Except.ok.inj h
    exact ⟨rfl, hnumber⟩

theorem mulDivLoop_step {divisor multiplier : Nat} (hpos : multiplier ≠ 0) (unit result : Nat × Nat) :
    mulDivLoop divisor multiplier unit result =
      (if multiplier % 2 = 1 then addWide divisor result unit else pure result) >>= fun result ↦
        (if multiplier / 2 > 0 then addWide divisor unit unit else pure unit) >>= fun unit ↦
          mulDivLoop divisor (multiplier / 2) unit result := by
  rw [mulDivLoop, if_neg hpos]
  by_cases hodd : multiplier % 2 = 1
  · by_cases hhalf : multiplier / 2 > 0
    · simp only [hodd, hhalf, if_true]
    · simp only [hodd, hhalf, if_true, if_false]
  · by_cases hhalf : multiplier / 2 > 0
    · simp only [hodd, hhalf, if_true, if_false]
    · simp only [hodd, hhalf, if_false]

/-- The last bit weighs one unit, and the bits above it, if there are any, weigh doubled units. -/
theorem bits_split (multiplier unit : Nat) :
    (if multiplier % 2 = 1 then unit else 0) +
        multiplier / 2 * (unit + (if multiplier / 2 > 0 then unit else 0)) = multiplier * unit := by
  have hhigh : multiplier / 2 * (unit + (if multiplier / 2 > 0 then unit else 0)) =
      multiplier / 2 * (unit + unit) := by
    by_cases hhalf : multiplier / 2 > 0
    · rw [if_pos hhalf]
    · rw [show multiplier / 2 = 0 by omega, Nat.zero_mul, Nat.zero_mul]
  have hlow : (if multiplier % 2 = 1 then unit else 0) = multiplier % 2 * unit := by
    by_cases hodd : multiplier % 2 = 1
    · rw [if_pos hodd, hodd, Nat.one_mul]
    · rw [if_neg hodd, show multiplier % 2 = 0 by omega, Nat.zero_mul]
  rw [hhigh, hlow]
  calc multiplier % 2 * unit + multiplier / 2 * (unit + unit)
      = (2 * (multiplier / 2) + multiplier % 2) * unit := by ring
    _ = multiplier * unit := by rw [Nat.div_add_mod]

theorem mulDivLoop_ok {divisor : Nat} (multiplier : Nat) {unit result : Nat × Nat} {quotient : Nat}
    (hunit : unit.2 < divisor) (hresult : result.2 < divisor)
    (h : mulDivLoop divisor multiplier unit result = .ok quotient) :
    quotient = (wideValue divisor result + multiplier * wideValue divisor unit) / divisor := by
  induction multiplier using Nat.strong_induction_on generalizing unit result with
  | h multiplier ih =>
      by_cases hzero : multiplier = 0
      · rw [mulDivLoop, if_pos hzero] at h
        obtain rfl := Except.ok.inj h
        rw [hzero, Nat.zero_mul, Nat.add_zero, wideValue, Nat.mul_comm,
          Nat.mul_add_div (by omega), Nat.div_eq_of_lt hresult, Nat.add_zero]
      · rw [mulDivLoop_step hzero] at h
        obtain ⟨result', hadd, h⟩ := ok_of_bind h
        obtain ⟨unit', hdouble, h⟩ := ok_of_bind h
        obtain ⟨hsum, hresult'⟩ := addWide_if_ok hresult hunit hadd
        obtain ⟨htwice, hunit'⟩ := addWide_if_ok hunit hunit hdouble
        rw [ih (multiplier / 2) (by omega) hunit' hresult' h, hsum, htwice, Nat.add_assoc,
          bits_split]

theorem wideValue_unit (left divisor : Nat) :
    wideValue divisor (left / divisor, left % divisor) = left := by
  show left / divisor * divisor + left % divisor = left
  rw [Nat.mul_comm]
  exact Nat.div_add_mod left divisor

theorem mulDivFloor_ok {left right divisor quotient : Nat}
    (h : mulDivFloor left right divisor = .ok quotient) : quotient = left * right / divisor := by
  by_cases hzero : divisor = 0
  · rw [mulDivFloor, if_pos hzero] at h
    cases h
  · rw [mulDivFloor, if_neg hzero] at h
    have hpos : 0 < divisor := Nat.pos_of_ne_zero hzero
    rw [mulDivLoop_ok right (Nat.mod_lt left hpos) hpos h]
    rw [wideValue_unit, wideValue, Nat.zero_mul, Nat.zero_add, Nat.zero_add, Nat.mul_comm]

/-! ## Failures -/

theorem addWide_error {divisor : Nat} {number addend : Nat × Nat} {message : String}
    (h : addWide divisor number addend = .error message) :
    message = "mul_div_floor(): quotient overflow" := by
  unfold addWide at h
  by_cases hover : number.1 > maximum - addend.1
  · simp [hover, throw, throwThe, MonadExceptOf.throw, bind, Except.bind] at h
    exact h.symm
  · by_cases hcarry : number.2 ≥ divisor - addend.2
    · by_cases hmax : number.1 + addend.1 = maximum
      · simp [hover, hcarry, hmax, throw, throwThe, MonadExceptOf.throw, bind, Except.bind] at h
        exact h.symm
      · simp [hover, hcarry, hmax, pure, Except.pure] at h
    · simp [hover, hcarry, pure, Except.pure] at h

private theorem error_of_bind {α β : Type} {x : Except String α} {f : α → Except String β}
    {message : String} (h : (x >>= f) = .error message) :
    x = .error message ∨ ∃ a, x = .ok a ∧ f a = .error message := by
  cases x with
  | error message' =>
      cases h
      exact .inl rfl
  | ok a => exact .inr ⟨a, rfl, h⟩

private theorem addWide_if_error {divisor : Nat} {number addend : Nat × Nat} {c : Prop}
    [Decidable c] {message : String}
    (h : (if c then addWide divisor number addend else pure number) = .error message) :
    message = "mul_div_floor(): quotient overflow" := by
  by_cases hc : c
  · rw [if_pos hc] at h
    exact addWide_error h
  · rw [if_neg hc] at h
    cases h

theorem mulDivLoop_error {divisor : Nat} (multiplier : Nat) {unit result : Nat × Nat}
    {message : String} (h : mulDivLoop divisor multiplier unit result = .error message) :
    message = "mul_div_floor(): quotient overflow" := by
  induction multiplier using Nat.strong_induction_on generalizing unit result with
  | h multiplier ih =>
      by_cases hzero : multiplier = 0
      · rw [mulDivLoop, if_pos hzero] at h
        cases h
      · rw [mulDivLoop_step hzero] at h
        rcases error_of_bind h with hadd | ⟨result', -, h⟩
        · exact addWide_if_error hadd
        · rcases error_of_bind h with hdouble | ⟨unit', -, h⟩
          · exact addWide_if_error hdouble
          · exact ih (multiplier / 2) (by omega) h

theorem mulDivFloor_nonzero_error {left right divisor : Nat} {message : String}
    (hzero : divisor ≠ 0) (h : mulDivFloor left right divisor = .error message) :
    message = "mul_div_floor(): quotient overflow" := by
  rw [mulDivFloor, if_neg hzero] at h
  exact mulDivLoop_error right h

theorem mulDivFloor_error {left right divisor : Nat} {message : String}
    (h : mulDivFloor left right divisor = .error message) :
    message = "mul_div_floor(): quotient overflow" ∨
      message = "wide multiplication divides by zero" := by
  by_cases hzero : divisor = 0
  · rw [mulDivFloor, if_pos hzero] at h
    exact .inr (Except.error.inj h).symm
  · exact .inl (mulDivFloor_nonzero_error hzero h)

end Stainless.Crypto
