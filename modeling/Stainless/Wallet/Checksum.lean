import Stainless.Reasoning.Radix
import Stainless.Wallet.Wallet

/-!
# The checksum register

One step of the register is a linear map of its 30 bits, plus the symbol.  The map is injective, so
one changed symbol changes what the register ends with, and the six symbols at the end can be chosen
for any value of it.
-/

open Reasoning

namespace Stainless.Wallet

/-! ## 1. One step -/

theorem xor_cancel {a b c : Nat} (h : a ^^^ c = b ^^^ c) : a = b := by
  have hback : ∀ x : Nat, x ^^^ c ^^^ c = x := by
    intro x
    rw [Nat.xor_assoc, Nat.xor_self, Nat.xor_zero]
  rw [← hback a, h, hback b]

/-- What the five bits above the register add to it. -/
def feedback (top : Nat) : Nat := addGenerators top 1 generators 0

/-- A step with the symbol 0. -/
def advance (checksum : Nat) : Nat := checksum % 2 ^ 25 * 32 ^^^ feedback (checksum / 2 ^ 25)

theorem addGenerators_xor (top bit : Nat) (rest : List Nat) (checksum other : Nat) :
    addGenerators top bit rest (checksum ^^^ other) = addGenerators top bit rest checksum ^^^ other := by
  induction rest generalizing bit checksum with
  | nil => rfl
  | cons generator rest ih =>
      rw [addGenerators, addGenerators]
      by_cases hbit : top / bit % 2 ≠ 0
      · rw [if_pos hbit, if_pos hbit, ← ih, Nat.xor_assoc, Nat.xor_assoc, Nat.xor_comm other]
      · rw [if_neg hbit, if_neg hbit, ih]

theorem polymodStep_eq (checksum value : Nat) :
    polymodStep checksum value = advance checksum ^^^ value := by
  have hzero := addGenerators_xor (checksum / 33554432) 1 generators 0
    (checksum % 33554432 * 32 ^^^ value)
  rw [Nat.zero_xor] at hzero
  show addGenerators _ 1 generators _ = _
  rw [hzero, Nat.xor_comm, advance, feedback, Nat.xor_assoc, Nat.xor_assoc, Nat.xor_comm value]
  rfl

theorem feedback_xor {a b : Nat} (ha : a < 32) (hb : b < 32) :
    feedback (a ^^^ b) = feedback a ^^^ feedback b := by
  have hall : ∀ a < 32, ∀ b < 32, feedback (a ^^^ b) = feedback a ^^^ feedback b := by
    decide +kernel
  exact hall a ha b hb

theorem feedback_lt {top : Nat} (h : top < 32) : feedback top < 2 ^ 30 := by
  have hall : ∀ top < 32, feedback top < 2 ^ 30 := by decide +kernel
  exact hall top h

/-- The low bits of the feedback tell which bits went out. -/
theorem feedback_injective {a b : Nat} (ha : a < 32) (hb : b < 32)
    (h : feedback a % 32 = feedback b % 32) : a = b := by
  have hall : ∀ a < 32, ∀ b < 32, feedback a % 32 = feedback b % 32 → a = b := by decide +kernel
  exact hall a ha b hb h

theorem top_lt {checksum : Nat} (h : checksum < 2 ^ 30) : checksum / 2 ^ 25 < 32 := by omega

theorem advance_lt {checksum : Nat} (h : checksum < 2 ^ 30) : advance checksum < 2 ^ 30 :=
  Nat.xor_lt_two_pow (by omega) (feedback_lt (top_lt h))

theorem advance_xor {a b : Nat} (ha : a < 2 ^ 30) (hb : b < 2 ^ 30) :
    advance (a ^^^ b) = advance a ^^^ advance b := by
  have hshift : ∀ a b : Nat, (a ^^^ b) * 32 = a * 32 ^^^ b * 32 := by
    intro a b
    have := Nat.shiftLeft_xor_distrib (a := a) (b := b) (i := 5)
    rwa [Nat.shiftLeft_eq, Nat.shiftLeft_eq, Nat.shiftLeft_eq] at this
  unfold advance
  rw [Nat.xor_mod_two_pow, Nat.xor_div_two_pow, hshift, feedback_xor (top_lt ha) (top_lt hb)]
  rw [Nat.xor_assoc, Nat.xor_assoc, ← Nat.xor_assoc (b % 2 ^ 25 * 32),
    Nat.xor_comm (b % 2 ^ 25 * 32) (feedback (a / 2 ^ 25)), Nat.xor_assoc]

theorem advance_small {checksum : Nat} (h : checksum < 2 ^ 25) : advance checksum = checksum * 32 := by
  rw [advance, Nat.mod_eq_of_lt h, Nat.div_eq_of_lt h]
  exact Nat.xor_zero _

theorem advance_injective {a b : Nat} (ha : a < 2 ^ 30) (hb : b < 2 ^ 30)
    (h : advance a = advance b) : a = b := by
  have hlow : ∀ checksum, advance checksum % 2 ^ 5 = feedback (checksum / 2 ^ 25) % 2 ^ 5 := by
    intro checksum
    rw [advance, Nat.xor_mod_two_pow, show checksum % 2 ^ 25 * 32 % 2 ^ 5 = 0 by omega, Nat.zero_xor]
  have htop : a / 2 ^ 25 = b / 2 ^ 25 := by
    refine feedback_injective (top_lt ha) (top_lt hb) ?_
    have := hlow a
    rw [h, hlow b] at this
    exact this.symm
  have hshifted : a % 2 ^ 25 * 32 = b % 2 ^ 25 * 32 := by
    unfold advance at h
    rw [htop] at h
    exact xor_cancel h
  omega

/-! ## 2. Runs -/

theorem polymodStep_lt {checksum value : Nat} (h : checksum < 2 ^ 30) (hvalue : value < 32) :
    polymodStep checksum value < 2 ^ 30 := by
  rw [polymodStep_eq]
  exact Nat.xor_lt_two_pow (advance_lt h) (by omega)

theorem polymod_lt {values : List Nat} (h : ∀ value ∈ values, value < 32) {checksum : Nat}
    (hchecksum : checksum < 2 ^ 30) : values.foldl polymodStep checksum < 2 ^ 30 := by
  induction values generalizing checksum with
  | nil => exact hchecksum
  | cons value values ih =>
      obtain ⟨hvalue, hvalues⟩ := List.forall_mem_cons.mp h
      exact ih hvalues (polymodStep_lt hchecksum hvalue)

/-- The symbols that follow keep two registers apart. -/
theorem polymod_injective {values : List Nat} (h : ∀ value ∈ values, value < 32) {a b : Nat}
    (ha : a < 2 ^ 30) (hb : b < 2 ^ 30)
    (heq : values.foldl polymodStep a = values.foldl polymodStep b) : a = b := by
  induction values generalizing a b with
  | nil => exact heq
  | cons value values ih =>
      obtain ⟨hvalue, hvalues⟩ := List.forall_mem_cons.mp h
      have hstep := ih hvalues (polymodStep_lt ha hvalue) (polymodStep_lt hb hvalue) heq
      rw [polymodStep_eq, polymodStep_eq] at hstep
      exact advance_injective ha hb (xor_cancel hstep)

/-- Two lists that differ in one symbol have different checksums. -/
theorem polymod_changed {front back : List Nat} {value value' : Nat}
    (hfront : ∀ value ∈ front, value < 32) (hback : ∀ value ∈ back, value < 32)
    (hvalue : value < 32) (hvalue' : value' < 32) (hne : value ≠ value') :
    bech32Polymod (front ++ value :: back) ≠ bech32Polymod (front ++ value' :: back) := by
  intro heq
  rw [bech32Polymod, bech32Polymod, List.foldl_append, List.foldl_append, List.foldl_cons,
    List.foldl_cons] at heq
  have hregister := polymod_lt hfront (show 1 < 2 ^ 30 by decide)
  have hstep := polymod_injective hback (polymodStep_lt hregister hvalue)
    (polymodStep_lt hregister hvalue') heq
  rw [polymodStep_eq, polymodStep_eq, Nat.xor_comm, Nat.xor_comm (advance _)] at hstep
  exact hne (xor_cancel hstep)

theorem shifted_xor {shifted value : Nat} (h : value < 32) :
    shifted * 32 ^^^ value = shifted * 32 + value := by
  have hquotient : (shifted * 32 ^^^ value) / 2 ^ 5 = shifted := by
    rw [Nat.xor_div_two_pow, show shifted * 32 / 2 ^ 5 = shifted by omega,
      show value / 2 ^ 5 = 0 by omega, Nat.xor_zero]
  have hrest : (shifted * 32 ^^^ value) % 2 ^ 5 = value := by
    rw [Nat.xor_mod_two_pow, show shifted * 32 % 2 ^ 5 = 0 by omega, Nat.zero_xor]
    omega
  omega

/-- Up to six symbols at the end go into the register as they are. -/
theorem polymod_tail {tail : List Nat} (h : ∀ value ∈ tail, value < 32) {checksum : Nat}
    (before k : Nat) (hchecksum : checksum < 2 ^ 30) (hbefore : before < 32 ^ k) (hk : k + tail.length ≤ 6) :
    tail.foldl polymodStep (checksum ^^^ before) =
      (List.replicate tail.length 0).foldl polymodStep checksum ^^^
        tail.foldl (fun value digit ↦ value * 32 + digit) before := by
  induction tail generalizing checksum before k with
  | nil => rfl
  | cons value tail ih =>
      obtain ⟨hvalue, htail⟩ := List.forall_mem_cons.mp h
      rw [List.length_cons] at hk
      have hpow : 32 ^ k ≤ 32 ^ 5 := Nat.pow_le_pow_right (by decide) (by omega)
      have hstep : polymodStep (checksum ^^^ before) value =
          polymodStep checksum 0 ^^^ (before * 32 + value) := by
        rw [polymodStep_eq, polymodStep_eq, Nat.xor_zero, advance_xor hchecksum (by omega),
          advance_small (show before < 2 ^ 25 by omega), Nat.xor_assoc, shifted_xor hvalue]
      rw [List.foldl_cons, hstep, List.length_cons, List.replicate_succ, List.foldl_cons,
        List.foldl_cons]
      refine ih htail _ (k + 1) (polymodStep_lt hchecksum (by decide)) ?_ (by omega)
      rw [Nat.pow_succ]
      omega

/-- A checksum of six symbols is added to the one of six zeros. -/
theorem polymod_checksum {values tail : List Nat} (hvalues : ∀ value ∈ values, value < 32)
    (htail : ∀ value ∈ tail, value < 32) (hlength : tail.length = 6) :
    bech32Polymod (values ++ tail) =
      bech32Polymod (values ++ List.replicate 6 0) ^^^ packed 32 tail := by
  have hregister := polymod_lt hvalues (show 1 < 2 ^ 30 by decide)
  have h := polymod_tail htail 0 0 hregister (by decide) (by omega)
  rw [Nat.xor_zero, hlength] at h
  rw [bech32Polymod, bech32Polymod, List.foldl_append, List.foldl_append, h]
  rfl

end Stainless.Wallet
