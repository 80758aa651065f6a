import Mathlib.Data.Nat.Digits.Lemmas

/-!
# Numbers in a base, most significant digit first

Lists of digits of one length are the numbers below a power of the base.
-/

namespace Reasoning

def packed (base : Nat) (digits : List Nat) : Nat := digits.foldl (fun value digit ↦ value * base + digit) 0

variable {base : Nat}

theorem packed_append_singleton (digits : List Nat) (digit : Nat) :
    packed base (digits ++ [digit]) = packed base digits * base + digit := by
  rw [packed, List.foldl_append]
  rfl

theorem packed_eq_ofDigits (digits : List Nat) :
    packed base digits = Nat.ofDigits base digits.reverse := by
  induction digits using List.reverseRecOn with
  | nil => rfl
  | append_singleton digits digit ih =>
      rw [packed_append_singleton, ih, List.reverse_append, List.reverse_singleton,
        List.singleton_append, Nat.ofDigits_cons, Nat.mul_comm, Nat.add_comm]

theorem packed_lt (hbase : 1 < base) {digits : List Nat} (h : ∀ digit ∈ digits, digit < base) :
    packed base digits < base ^ digits.length := by
  have hlt := Nat.ofDigits_lt_base_pow_length hbase (l := digits.reverse)
    fun digit hdigit ↦ h digit (List.mem_reverse.mp hdigit)
  rwa [List.length_reverse, ← packed_eq_ofDigits] at hlt

theorem packed_injective (hbase : 1 < base) {digits digits' : List Nat}
    (hlength : digits.length = digits'.length) (h : ∀ digit ∈ digits, digit < base)
    (h' : ∀ digit ∈ digits', digit < base) (heq : packed base digits = packed base digits') :
    digits = digits' := by
  rw [packed_eq_ofDigits, packed_eq_ofDigits] at heq
  refine List.reverse_injective (Nat.ofDigits_inj_of_len_eq hbase ?_ ?_ ?_ heq)
  · rw [List.length_reverse, List.length_reverse, hlength]
  · exact fun digit hdigit ↦ h digit (List.mem_reverse.mp hdigit)
  · exact fun digit hdigit ↦ h' digit (List.mem_reverse.mp hdigit)

/-- The digits of a number, leading zeros included. -/
theorem exists_packed (hbase : 0 < base) (length : Nat) {value : Nat} (h : value < base ^ length) :
    ∃ digits, digits.length = length ∧ (∀ digit ∈ digits, digit < base) ∧
      packed base digits = value := by
  induction length generalizing value with
  | zero =>
      have hzero : value = 0 := by simpa using h
      exact ⟨[], rfl, by simp, hzero.symm⟩
  | succ length ih =>
      have hquotient : value / base < base ^ length := by
        rw [Nat.pow_succ] at h
        exact Nat.div_lt_of_lt_mul (Nat.mul_comm _ _ ▸ h)
      obtain ⟨digits, hlength, hdigits, hpacked⟩ := ih hquotient
      refine ⟨digits ++ [value % base], by simp [hlength], ?_, ?_⟩
      · intro digit hdigit
        rcases List.mem_append.mp hdigit with hfront | hlast
        · exact hdigits digit hfront
        · rw [List.mem_singleton.mp hlast]
          exact Nat.mod_lt value hbase
      · rw [packed_append_singleton, hpacked, Nat.mul_comm, Nat.div_add_mod]

end Reasoning
