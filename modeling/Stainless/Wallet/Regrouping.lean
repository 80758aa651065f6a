import Stainless.Reasoning.Radix
import Stainless.Wallet.Wallet

/-!
# Bytes and symbols

Writer and checker keep the bits that do not fill a symbol or a byte in an accumulator.  Read as
numbers, the symbols of a digest are the digest shifted by the four bits of padding.
-/

open Reasoning

namespace Stainless.Wallet

theorem powerOfTwo_eq (exponent : Nat) : powerOfTwo exponent = 2 ^ exponent := by
  induction exponent with
  | zero => rfl
  | succ exponent ih =>
      rw [powerOfTwo, List.range_succ, List.foldl_append, Nat.pow_succ, ← ih]
      rfl

/-! ## 1. The writer -/

/-- The symbols and the bits left over are the number written so far, which has `count` bits. -/
structure Regrouped (value count : Nat) (state : Regrouping) : Prop where
  number : packed 32 state.result * 2 ^ state.bits + state.accumulator % 2 ^ state.bits = value
  count_eq : state.result.length * 5 + state.bits = count
  symbols : ∀ symbol ∈ state.result, symbol < 32

theorem Regrouped.takeSymbol {value count : Nat} {state : Regrouping}
    (h : Regrouped value count state) : Regrouped value count state.takeSymbol := by
  unfold Regrouping.takeSymbol
  by_cases hbits : state.bits ≥ 5
  · rw [if_pos hbits]
    obtain ⟨rest, hrest⟩ : ∃ rest, state.bits = rest + 5 := ⟨state.bits - 5, by omega⟩
    have hnumber := h.number
    have hcount := h.count_eq
    rw [hrest] at hnumber hcount
    refine ⟨?_, ?_, ?_⟩
    · simp only [hrest, Nat.add_sub_cancel]
      rw [packed_append_singleton, powerOfTwo_eq, ← hnumber, Nat.pow_add, Nat.mod_mul]
      ring
    · simp only [hrest, Nat.add_sub_cancel, List.length_append, List.length_singleton]
      omega
    · intro symbol hsymbol
      rcases List.mem_append.mp hsymbol with hfront | hlast
      · exact h.symbols symbol hfront
      · rw [List.mem_singleton.mp hlast]
        exact Nat.mod_lt _ (by decide)
  · rw [if_neg hbits]
    exact h

theorem takeSymbol_bits (state : Regrouping) :
    state.takeSymbol.bits = if state.bits ≥ 5 then state.bits - 5 else state.bits := by
  unfold Regrouping.takeSymbol
  by_cases hbits : state.bits ≥ 5
  · rw [if_pos hbits, if_pos hbits]
  · rw [if_neg hbits, if_neg hbits]

theorem Regrouped.pushByte {value count : Nat} {state : Regrouping}
    (h : Regrouped value count state) (haccumulator : state.accumulator < 2 ^ state.bits)
    (hbits : state.bits < 5) (byte : UInt8) :
    Regrouped (value * 256 + byte.toNat) (count + 8) (state.pushByte byte) ∧
      (state.pushByte byte).accumulator < 2 ^ (state.pushByte byte).bits ∧
      (state.pushByte byte).bits < 5 := by
  have hbyte : byte.toNat < 256 := byte.toNat_lt
  have hnumber := h.number
  rw [Nat.mod_eq_of_lt haccumulator] at hnumber
  have hshifted : state.accumulator * 256 + byte.toNat < 2 ^ (state.bits + 8) := by
    rw [Nat.pow_add]
    omega
  have hpushed : Regrouped (value * 256 + byte.toNat) (count + 8)
      { state with
        accumulator := state.accumulator * 256 + byte.toNat
        bits := state.bits + 8 } := by
    refine ⟨?_, ?_, h.symbols⟩
    · show packed 32 state.result * 2 ^ (state.bits + 8) +
        (state.accumulator * 256 + byte.toNat) % 2 ^ (state.bits + 8) = _
      rw [Nat.mod_eq_of_lt hshifted, ← hnumber, Nat.pow_add]
      ring
    · show state.result.length * 5 + (state.bits + 8) = _
      have := h.count_eq
      omega
  have htaken := hpushed.takeSymbol.takeSymbol
  unfold Regrouping.pushByte
  simp only
  refine ⟨⟨?_, htaken.count_eq, htaken.symbols⟩, ?_, ?_⟩
  · simp only [powerOfTwo_eq, Nat.mod_mod]
    exact htaken.number
  · simp only [powerOfTwo_eq]
    exact Nat.mod_lt _ (Nat.pow_pos (by decide))
  · have hfirst : state.bits + 8 ≥ 5 := by omega
    simp only [takeSymbol_bits, if_pos hfirst]
    by_cases hsecond : state.bits + 8 - 5 ≥ 5
    · rw [if_pos hsecond]
      omega
    · rw [if_neg hsecond]
      omega

theorem pushBytes_regrouped (bytes : List UInt8) :
    Regrouped (packed 256 (bytes.map UInt8.toNat)) (bytes.length * 8)
        (bytes.foldl Regrouping.pushByte ⟨[], 0, 0⟩) ∧
      (bytes.foldl Regrouping.pushByte ⟨[], 0, 0⟩).accumulator <
        2 ^ (bytes.foldl Regrouping.pushByte ⟨[], 0, 0⟩).bits ∧
      (bytes.foldl Regrouping.pushByte ⟨[], 0, 0⟩).bits < 5 := by
  induction bytes using List.reverseRecOn with
  | nil => exact ⟨⟨rfl, rfl, by simp⟩, by decide, by decide⟩
  | append_singleton bytes byte ih =>
      obtain ⟨hregrouped, haccumulator, hbits⟩ := ih
      have hstep := hregrouped.pushByte haccumulator hbits byte
      rw [List.foldl_append, List.foldl_cons, List.foldl_nil, List.map_append, List.map_singleton,
        packed_append_singleton, List.length_append, List.length_singleton, Nat.add_mul, Nat.one_mul]
      exact hstep

/-- The symbols of a digest: its bits and four zeros. -/
theorem convertEightToFive_digest {digest : List UInt8} (h : digest.length = 32) :
    (convertEightToFive digest).length = 52 ∧ (∀ symbol ∈ convertEightToFive digest, symbol < 32) ∧
      packed 32 (convertEightToFive digest) = packed 256 (digest.map UInt8.toNat) * 16 := by
  obtain ⟨hregrouped, haccumulator, hbits⟩ := pushBytes_regrouped digest
  have hcount := hregrouped.count_eq
  rw [h] at hcount
  have hone : (digest.foldl Regrouping.pushByte ⟨[], 0, 0⟩).bits = 1 := by omega
  unfold convertEightToFive
  simp only
  generalize digest.foldl Regrouping.pushByte ⟨[], 0, 0⟩ = state at *
  have hnumber := hregrouped.number
  rw [hone] at haccumulator hnumber
  rw [hone, if_pos (by decide), powerOfTwo_eq]
  refine ⟨?_, ?_, ?_⟩
  · rw [List.length_append, List.length_singleton]
    omega
  · intro symbol hsymbol
    rcases List.mem_append.mp hsymbol with hfront | hlast
    · exact hregrouped.symbols symbol hfront
    · rw [List.mem_singleton.mp hlast]
      exact Nat.mod_lt _ (by decide)
  · rw [packed_append_singleton, ← hnumber]
    omega

/-! ## 2. The checker -/

/-- The bits of the symbols read so far: whole bytes, counted, and the ones left over. -/
structure Counted (values : List Nat) (state : Counting) : Prop where
  accumulator_eq : state.accumulator = packed 32 values % 2 ^ state.bits
  count_eq : state.outputLength * 8 + state.bits = values.length * 5
  bits_lt : state.bits < 8

theorem Counted.pushSymbol {values : List Nat} {state : Counting} (h : Counted values state)
    {value : Nat} (hvalue : value < 32) : Counted (values ++ [value]) (state.pushSymbol value) := by
  have hpow : 0 < 2 ^ state.bits := Nat.pow_pos (by decide)
  have hrest := Nat.mod_lt (packed 32 values) hpow
  have hshifted : state.accumulator * 32 + value =
      packed 32 (values ++ [value]) % 2 ^ (state.bits + 5) := by
    have hparts := Nat.div_add_mod (packed 32 values) (2 ^ state.bits)
    rw [packed_append_singleton, h.accumulator_eq, Nat.pow_add]
    conv_rhs => rw [← hparts]
    generalize packed 32 values % 2 ^ state.bits = rest at *
    generalize packed 32 values / 2 ^ state.bits = quotient at *
    have hring : (2 ^ state.bits * quotient + rest) * 32 + value =
        2 ^ state.bits * 2 ^ 5 * quotient + (rest * 32 + value) := by ring
    rw [hring, Nat.mul_add_mod, Nat.mod_eq_of_lt (by omega)]
  have hcount := h.count_eq
  have hbits := h.bits_lt
  unfold Counting.pushSymbol
  simp only
  by_cases hfull : state.bits + 5 ≥ 8
  · rw [if_pos hfull]
    refine ⟨?_, ?_, ?_⟩
    · simp only
      rw [powerOfTwo_eq, hshifted]
      exact Nat.mod_mod_of_dvd _ (Nat.pow_dvd_pow 2 (by omega))
    · simp only [List.length_append, List.length_singleton]
      omega
    · simp only
      omega
  · rw [if_neg hfull]
    refine ⟨hshifted, ?_, ?_⟩
    · simp only [List.length_append, List.length_singleton]
      omega
    · simp only
      omega

theorem pushSymbols_counted {values : List Nat} (h : ∀ value ∈ values, value < 32) :
    Counted values (values.foldl Counting.pushSymbol ⟨0, 0, 0⟩) := by
  induction values using List.reverseRecOn with
  | nil => exact ⟨rfl, rfl, by decide⟩
  | append_singleton values value ih =>
      rw [List.foldl_append, List.foldl_cons, List.foldl_nil]
      exact (ih fun value hvalue ↦ h value (List.mem_append_left _ hvalue)).pushSymbol
        (h value (List.mem_append_right _ (List.mem_singleton_self value)))

/-- Of 52 symbols the checker counts 32 bytes and keeps four bits. -/
theorem pushSymbols_payload {payload : List Nat} (h : ∀ value ∈ payload, value < 32)
    (hlength : payload.length = 52) :
    payload.foldl Counting.pushSymbol ⟨0, 0, 0⟩ = ⟨packed 32 payload % 16, 4, 32⟩ := by
  have hcounted := pushSymbols_counted h
  generalize payload.foldl Counting.pushSymbol ⟨0, 0, 0⟩ = state at *
  obtain ⟨accumulator, bits, outputLength⟩ := state
  obtain ⟨haccumulator, hcount, hbits⟩ := hcounted
  simp only at haccumulator hcount hbits
  rw [hlength] at hcount
  have hfour : bits = 4 := by omega
  have hbytes : outputLength = 32 := by omega
  rw [haccumulator, hfour, hbytes]
  rfl

end Stainless.Wallet
