import Stainless.Crypto.CheckedMultiplication
import Stainless.Reasoning.Numerals

/-!
# Integers as text

The decimal reader, which tests the range before it takes a digit, and the two printers, which walk
down the powers of the base.  All of them compute in `u128`.
-/

namespace Stainless.Crypto

open Reasoning

/-! ## 1. The reader -/

namespace U128

def ten : U128 := ⟨10, by decide⟩

def sixteen : U128 := ⟨16, by decide⟩

end U128

/-- `u128(byte)`. -/
def wide (byte : UInt8) : U128 := ⟨byte.toNat, Nat.le_trans (Nat.le_of_lt byte.toNat_lt) (by decide)⟩

/-- One pass of the loop of `parse_decimal_u128`. -/
def parseDigit (value : U128) (byte : UInt8) : Except (Failure String) U128 := do
  if byte < 48 ∨ byte > 57 then
    throw (.thrown "decimal string contains a non-digit")
  let digit := wide (byte - 48)
  let room ← U128.top.sub digit
  let limit ← room.div U128.ten
  if value.value > limit.value then
    throw (.thrown "decimal string exceeds the u128 range")
  let shifted ← value.mul U128.ten
  shifted.add digit

def parseDecimalU128 (source : String) : Except (Failure String) U128 :=
  if (bytes source).isEmpty then throw (.thrown "decimal string cannot be empty")
  else (bytes source).foldlM parseDigit U128.zero

/-! ## 2. The printers -/

def hexDigit (value : Nat) : String :=
  match value with
  | 0 => "0"
  | 1 => "1"
  | 2 => "2"
  | 3 => "3"
  | 4 => "4"
  | 5 => "5"
  | 6 => "6"
  | 7 => "7"
  | 8 => "8"
  | 9 => "9"
  | 10 => "a"
  | 11 => "b"
  | 12 => "c"
  | 13 => "d"
  | 14 => "e"
  | 15 => "f"
  | _ => ""

structure Printing where
  encoded : String
  divisor : U128
  started : Bool

def printDigit (base : U128) (positions : Nat) (value : U128) (printing : Printing) (i : Nat) :
    Except (Failure String) Printing := do
  let quotient ← value.div printing.divisor
  let digit ← quotient.mod base
  let printing :=
    if digit.value ≠ 0 ∨ printing.started ∨ i = positions - 1 then
      { printing with encoded := printing.encoded ++ hexDigit digit.value, started := true }
    else printing
  if printing.divisor.value > 1 then
    let divisor ← printing.divisor.div base
    return { printing with divisor }
  else
    return printing

/-- The loops of the printers, which differ in the base, the positions and the text in front. -/
def printUint (base : U128) (positions : Nat) (front : String) (value : U128) :
    Except (Failure String) String := do
  let divisor ← (List.range' 1 (positions - 1)).foldlM (fun divisor _ ↦ divisor.mul base) U128.one
  let printing ← (List.range' 0 positions).foldlM (printDigit base positions value)
    ⟨front, divisor, false⟩
  return printing.encoded

def uintDecimal (value : U128) : Except (Failure String) String := printUint U128.ten 39 "" value

def uintHex (value : U128) : Except (Failure String) String := printUint U128.sixteen 32 "0x" value

/-! ## 3. What the reader accepts -/

theorem bytes_eq (source : String) : bytes source = source.toList.flatMap String.utf8EncodeChar := by
  rw [bytes, String.toUTF8_eq_toByteArray, ← String.utf8Encode_toList, List.utf8Encode,
    List.toList_data_toByteArray]

theorem utf8EncodeChar_ascii {c : Char} (h : c.toNat < 128) :
    String.utf8EncodeChar c = [UInt8.ofNat c.toNat] := by
  have hle : c.val.toNat ≤ 127 := Nat.le_of_lt_succ h
  simp only [String.utf8EncodeChar, hle, if_true]
  rfl

/-- The bytes of a character outside ASCII are not those of ASCII characters. -/
theorem utf8EncodeChar_high {c : Char} (h : 128 ≤ c.toNat) :
    ∃ byte rest, String.utf8EncodeChar c = byte :: rest ∧ 128 ≤ byte.toNat := by
  have hv : ¬ c.val.toNat ≤ 127 := Nat.not_le.mpr h
  unfold String.utf8EncodeChar
  simp only [hv, if_false]
  by_cases htwo : c.val.toNat ≤ 2047
  · rw [if_pos htwo]
    refine ⟨_, _, rfl, ?_⟩
    rw [UInt8.toNat_ofNat']
    omega
  · rw [if_neg htwo]
    by_cases hthree : c.val.toNat ≤ 65535
    · rw [if_pos hthree]
      refine ⟨_, _, rfl, ?_⟩
      rw [UInt8.toNat_ofNat']
      omega
    · rw [if_neg hthree]
      refine ⟨_, _, rfl, ?_⟩
      rw [UInt8.toNat_ofNat']
      omega

/-- What the reader makes of a text that denotes a number or nothing. -/
def Reads (outcome : Except (Failure String) U128) (denoted : Option Nat) : Prop :=
  match outcome with
  | .ok value => denoted = some value.value
  | .error (.thrown _) => ∀ number, denoted = some number → maximum < number
  | .error .arithmetic => False

theorem digitOf_ten {c : Char} {digit : Nat} (hc : digitOf c = some digit) (hdigit : digit < 10) :
    c.toNat = digit + 48 := by
  unfold digitOf at hc
  by_cases hlow : 48 ≤ c.toNat ∧ c.toNat ≤ 57
  · rw [if_pos hlow] at hc
    have := Option.some.inj hc
    omega
  · rw [if_neg hlow] at hc
    by_cases hletter : 97 ≤ c.toNat ∧ c.toNat ≤ 102
    · rw [if_pos hletter] at hc
      have := Option.some.inj hc
      omega
    · rw [if_neg hletter] at hc
      cases hc

/-- The byte of a decimal digit. -/
theorem digit_byte {digit : Nat} (hdigit : digit < 10) :
    ¬ (UInt8.ofNat (digit + 48) < 48 ∨ UInt8.ofNat (digit + 48) > 57) ∧
      (UInt8.ofNat (digit + 48) - 48).toNat = digit := by
  have hall : ∀ digit < 10, ¬ (UInt8.ofNat (digit + 48) < 48 ∨ UInt8.ofNat (digit + 48) > 57) ∧
      (UInt8.ofNat (digit + 48) - 48).toNat = digit := by decide
  exact hall digit hdigit

/-- The guard is the range of the next value. -/
theorem parseDigit_digit (value : U128) {digit : Nat} (hdigit : digit < 10) :
    parseDigit value (UInt8.ofNat (digit + 48)) =
      if h : value.value * 10 + digit ≤ maximum then .ok ⟨value.value * 10 + digit, h⟩
      else .error (.thrown "decimal string exceeds the u128 range") := by
  obtain ⟨hguard, hbyte⟩ := digit_byte hdigit
  have hmax : digit ≤ maximum := Nat.le_trans (Nat.le_of_lt hdigit) (by decide)
  have hwide : wide (UInt8.ofNat (digit + 48) - 48) = ⟨digit, hmax⟩ := Word.ext hbyte
  have hroom : value.value > (maximum - digit) / 10 ↔ ¬ value.value * 10 + digit ≤ maximum := by
    omega
  unfold parseDigit
  rw [if_neg hguard, hwide]
  simp only [Word.sub_ok (a := U128.top) (b := ⟨digit, hmax⟩) hmax,
    Word.div_ok (b := U128.ten) (by decide), bind, Except.bind]
  show (if value.value > (maximum - digit) / 10 then _ else _) = _
  by_cases hfits : value.value * 10 + digit ≤ maximum
  · rw [if_neg (fun h ↦ hroom.mp h hfits), dif_pos hfits]
    simp only [Word.mul_ok (show value.value * U128.ten.value ≤ maximum from
      Nat.le_trans (Nat.le_add_right _ _) hfits)]
    exact Word.add_ok hfits
  · rw [if_pos (hroom.mpr hfits), dif_neg hfits]
    rfl

theorem parseDigit_other {value : U128} {byte : UInt8} (h : byte < 48 ∨ byte > 57) :
    parseDigit value byte = .error (.thrown "decimal string contains a non-digit") := by
  unfold parseDigit
  rw [if_pos h]
  rfl

/-- A character that is no decimal digit is refused at its first byte. -/
theorem parse_other (value : U128) {c : Char} (hc : ∀ digit, digitOf c = some digit → ¬ digit < 10)
    (rest : List UInt8) :
    (String.utf8EncodeChar c ++ rest).foldlM parseDigit value =
      .error (.thrown "decimal string contains a non-digit") := by
  by_cases hascii : c.toNat < 128
  · have hbyte : UInt8.ofNat c.toNat < 48 ∨ UInt8.ofNat c.toNat > 57 := by
      have hrange : ¬ (48 ≤ c.toNat ∧ c.toNat ≤ 57) := by
        intro hdigit
        exact hc (c.toNat - 48) (by rw [digitOf, if_pos hdigit]) (by omega)
      rw [UInt8.lt_iff_toNat_lt, GT.gt, UInt8.lt_iff_toNat_lt, UInt8.toNat_ofNat']
      simp only [UInt8.reduceToNat]
      omega
    rw [utf8EncodeChar_ascii hascii, List.singleton_append, List.foldlM_cons, parseDigit_other hbyte]
    rfl
  · obtain ⟨byte, others, hbytes, hhigh⟩ := utf8EncodeChar_high (Nat.le_of_not_lt hascii)
    have hbyte : byte > 57 := by
      rw [GT.gt, UInt8.lt_iff_toNat_lt]
      simp only [UInt8.reduceToNat]
      omega
    rw [hbytes, List.cons_append, List.foldlM_cons, parseDigit_other (.inr hbyte)]
    rfl

theorem parse_reads (value : U128) (text : List Char) :
    Reads ((text.flatMap String.utf8EncodeChar).foldlM parseDigit value)
      (readDigits 10 value.value text) := by
  induction text generalizing value with
  | nil => exact rfl
  | cons c cs ih =>
      rw [List.flatMap_cons]
      by_cases hc : ∃ digit, digitOf c = some digit ∧ digit < 10
      · obtain ⟨digit, hc, hdigit⟩ := hc
        have hcode := digitOf_ten hc hdigit
        rw [utf8EncodeChar_ascii (by omega), hcode, List.singleton_append, List.foldlM_cons,
          parseDigit_digit value hdigit, readDigits_cons hc hdigit]
        by_cases hfits : value.value * 10 + digit ≤ maximum
        · rw [dif_pos hfits]
          exact ih ⟨value.value * 10 + digit, hfits⟩
        · -- the digits that follow only make the number larger
          rw [dif_neg hfits]
          intro number hnumber
          have hle := le_of_readDigits hnumber
          omega
      · have hother : ∀ digit, digitOf c = some digit → ¬ digit < 10 :=
          fun digit hdigit hlt ↦ hc ⟨digit, hdigit, hlt⟩
        rw [parse_other value hother]
        intro number hnumber
        obtain ⟨digit, hdigit, hlt, -⟩ := readDigits_cons_some hnumber
        exact absurd hlt (hother digit hdigit)

theorem parseDecimalU128_reads (source : String) :
    Reads (parseDecimalU128 source) (numeralValue 10 source.toList) := by
  have hbytes := bytes_eq source
  unfold parseDecimalU128 numeralValue
  cases htext : source.toList with
  | nil =>
      rw [htext] at hbytes
      rw [hbytes]
      exact fun number hnumber ↦ by cases hnumber
  | cons c cs =>
      rw [htext] at hbytes
      have hne : ¬ (bytes source).isEmpty := by
        rw [hbytes]
        simp
      rw [if_neg hne, hbytes]
      exact parse_reads U128.zero (c :: cs)

/-! ## 4. What the printers write -/

theorem hexDigit_eq {digit : Nat} (h : digit < 16) :
    hexDigit digit = String.ofList [Nat.digitChar digit] := by
  have hall : ∀ digit < 16, hexDigit digit = String.ofList [Nat.digitChar digit] := by decide
  exact hall digit h

/-- The digits of a number without leading zeros, so none for zero. -/
def leadingDigits (base value : Nat) : List Char := if value = 0 then [] else Nat.toDigits base value

theorem toDigits_eq_leadingDigits {base : Nat} (hbase : 1 < base) (value : Nat) :
    Nat.toDigits base value = leadingDigits base (value / base) ++ [Nat.digitChar (value % base)] := by
  unfold leadingDigits
  by_cases hlt : value < base
  · rw [Nat.div_eq_of_lt hlt, if_pos rfl, Nat.mod_eq_of_lt hlt, Nat.toDigits_of_lt_base hlt]
    rfl
  · have hquotient : value / base ≠ 0 := by
      have := Nat.div_pos (Nat.le_of_not_lt hlt) (by omega : 0 < base)
      omega
    rw [if_neg hquotient, Nat.toDigits_of_base_le hbase (Nat.le_of_not_lt hlt)]

theorem divisor_loop (base : U128) {divisor : U128} (positions : List Nat)
    (hfits : divisor.value * base.value ^ positions.length ≤ maximum) (hbase : 0 < base.value) :
    positions.foldlM (fun divisor _ ↦ divisor.mul base) divisor =
      (.ok ⟨divisor.value * base.value ^ positions.length, hfits⟩ : Except (Failure String) U128) := by
  induction positions generalizing divisor with
  | nil =>
      exact congrArg Except.ok (Word.ext (by simp))
  | cons i is ih =>
      have hpow : divisor.value * base.value ^ (i :: is).length =
          divisor.value * base.value * base.value ^ is.length := by
        rw [List.length_cons, Nat.pow_succ]
        ring
      have hstep : divisor.value * base.value ≤ maximum := by
        refine Nat.le_trans ?_ (hpow ▸ hfits)
        exact Nat.le_mul_of_pos_right _ (Nat.pow_pos hbase)
      rw [List.foldlM_cons, Word.mul_ok hstep]
      refine (ih (hpow ▸ hfits)).trans ?_
      exact congrArg Except.ok (Word.ext hpow.symm)

/-- The state before a position of weight `base ^ k`: the digits above it are written. -/
def Printed (front : String) (base value : Nat) (k : Nat) (printing : Printing) : Prop :=
  printing.encoded = front ++ String.ofList (leadingDigits base (value / base ^ (k + 1))) ∧
    printing.divisor.value = base ^ k ∧ (printing.started = true ↔ value / base ^ (k + 1) ≠ 0)

theorem printDigit_last {front : String} {base value : U128} (positions : Nat) {printing : Printing}
    (hbase : 1 < base.value) (hdigits : base.value ≤ 16)
    (h : Printed front base.value value.value 0 printing) :
    ∃ last, printDigit base positions value printing (positions - 1) = .ok last ∧
      last.encoded = front ++ String.ofList (Nat.toDigits base.value value.value) := by
  obtain ⟨hencoded, hdivisor, -⟩ := h
  have hone : printing.divisor.value = 1 := by rw [hdivisor, Nat.pow_zero]
  have hmod : value.value % base.value < 16 := by
    have := Nat.mod_lt value.value (show base.value > 0 by omega)
    omega
  unfold printDigit
  simp only [Word.div_ok (a := value) (b := printing.divisor) (by omega),
    Word.mod_ok (b := base) (by omega), bind, Except.bind, hone, Nat.div_one, or_true, if_true,
    Nat.lt_irrefl, if_false]
  refine ⟨_, rfl, ?_⟩
  show printing.encoded ++ hexDigit (value.value % base.value) = _
  rw [hexDigit_eq hmod, hencoded, String.append_assoc, ← String.ofList_append, Nat.zero_add, Nat.pow_one]
  rw [← toDigits_eq_leadingDigits hbase]

theorem printDigit_next {front : String} {base value : U128} (positions : Nat) {i k : Nat}
    {printing : Printing} (hbase : 1 < base.value) (hdigits : base.value ≤ 16)
    (hi : i ≠ positions - 1) (h : Printed front base.value value.value (k + 1) printing) :
    ∃ next, printDigit base positions value printing i = .ok next ∧
      Printed front base.value value.value k next := by
  obtain ⟨hencoded, hdivisor, hstarted⟩ := h
  have hpos : 0 < base.value := by omega
  have hpow : 0 < base.value ^ k := Nat.pow_pos hpos
  have hmore : printing.divisor.value > 1 := by
    rw [hdivisor, Nat.pow_succ]
    exact Nat.lt_of_lt_of_le hbase (Nat.le_mul_of_pos_left _ hpow)
  have hdiv : printing.divisor.value / base.value = base.value ^ k := by
    rw [hdivisor, Nat.pow_succ, Nat.mul_div_cancel _ hpos]
  -- the quotient at this position has one more digit than the one before
  have hquotient : value.value / base.value ^ (k + 1 + 1) =
      value.value / base.value ^ (k + 1) / base.value := by
    rw [Nat.pow_succ _ (k + 1), Nat.div_div_eq_div_mul]
  have hmod : value.value / base.value ^ (k + 1) % base.value < 16 :=
    Nat.lt_of_lt_of_le (Nat.mod_lt _ hpos) hdigits
  unfold printDigit
  simp only [Word.div_ok (a := value) (b := printing.divisor) (by omega),
    Word.mod_ok (b := base) (by omega), bind, Except.bind, hi, or_false]
  rw [hdivisor]
  rw [hquotient] at hencoded hstarted
  unfold Printed
  generalize value.value / base.value ^ (k + 1) = quotient at hencoded hstarted hmod ⊢
  have hparts := Nat.div_add_mod quotient base.value
  by_cases hshown : quotient % base.value ≠ 0 ∨ printing.started = true
  · have hquotient : quotient ≠ 0 := by
      rintro rfl
      rcases hshown with hdigit | hbefore
      · exact hdigit (Nat.zero_mod _)
      · exact hstarted.mp hbefore (Nat.zero_div _)
    rw [if_pos hshown]
    simp only [hmore, if_true, Word.div_ok (a := printing.divisor) (b := base) (by omega)]
    refine ⟨_, rfl, ?_, hdiv, iff_of_true rfl hquotient⟩
    show printing.encoded ++ hexDigit (quotient % base.value) = _
    rw [hexDigit_eq hmod, hencoded, String.append_assoc, ← String.ofList_append,
      ← toDigits_eq_leadingDigits hbase, leadingDigits, if_neg hquotient]
  · have hquotient : quotient = 0 := by
      have hdigit : quotient % base.value = 0 := by
        by_contra hdigit
        exact hshown (.inl hdigit)
      have habove : quotient / base.value = 0 := by
        by_contra habove
        exact hshown (.inr (hstarted.mpr habove))
      rw [habove, hdigit] at hparts
      omega
    rw [if_neg hshown]
    simp only [hmore, if_true, Word.div_ok (a := printing.divisor) (b := base) (by omega)]
    subst hquotient
    rw [Nat.zero_div] at hencoded hstarted
    exact ⟨_, rfl, hencoded, hdiv, hstarted⟩

theorem printDigits_ok {front : String} {base value : U128} (positions k : Nat)
    {printing : Printing} (hbase : 1 < base.value) (hdigits : base.value ≤ 16)
    (hk : k < positions) (h : Printed front base.value value.value k printing) :
    ∃ last, (List.range' (positions - 1 - k) (k + 1)).foldlM (printDigit base positions value)
        printing = .ok last ∧
      last.encoded = front ++ String.ofList (Nat.toDigits base.value value.value) := by
  induction k generalizing printing with
  | zero =>
      obtain ⟨last, hlast, hencoded⟩ := printDigit_last positions hbase hdigits h
      exact ⟨last, by rw [List.range'_one, List.foldlM_cons, Nat.sub_zero, hlast]; rfl, hencoded⟩
  | succ k ih =>
      obtain ⟨next, hnext, hprinted⟩ :=
        printDigit_next positions (i := positions - 1 - (k + 1)) hbase hdigits (by omega) h
      obtain ⟨last, hlast, hencoded⟩ := ih (by omega) hprinted
      refine ⟨last, ?_, hencoded⟩
      rw [List.range'_succ, List.foldlM_cons, hnext, show positions - 1 - (k + 1) + 1 = positions - 1 - k by omega]
      exact hlast

theorem printUint_ok (base : U128) (positions : Nat) (front : String) (value : U128)
    (hbase : 1 < base.value) (hdigits : base.value ≤ 16) (hpositions : 0 < positions)
    (hfits : base.value ^ (positions - 1) ≤ maximum) (hrange : maximum < base.value ^ positions) :
    printUint base positions front value =
      .ok (front ++ String.ofList (Nat.toDigits base.value value.value)) := by
  have hlength : (List.range' 1 (positions - 1)).length = positions - 1 := List.length_range'
  have hzero : value.value / base.value ^ (positions - 1 + 1) = 0 := by
    rw [Nat.sub_add_cancel hpositions]
    exact Nat.div_eq_of_lt (Nat.lt_of_le_of_lt value.inRange hrange)
  unfold printUint
  rw [divisor_loop base _ (by rwa [hlength, U128.one, Nat.one_mul]) (by omega)]
  have hprinted : Printed front base.value value.value (positions - 1)
      ⟨front, ⟨U128.one.value * base.value ^ (List.range' 1 (positions - 1)).length, by
        rwa [hlength, U128.one, Nat.one_mul]⟩, false⟩ := by
    refine ⟨?_, ?_, ?_⟩
    · rw [hzero]
      exact (String.append_empty).symm
    · show U128.one.value * _ = _
      rw [hlength, U128.one, Nat.one_mul]
    · exact iff_of_false Bool.false_ne_true (fun hne ↦ hne hzero)
  obtain ⟨last, hlast, hencoded⟩ :=
    printDigits_ok positions (positions - 1) hbase hdigits (by omega) hprinted
  rw [Nat.sub_self, Nat.sub_add_cancel hpositions] at hlast
  show ((List.range' 0 positions).foldlM (printDigit base positions value) _ >>= _) = _
  rw [hlast]
  exact congrArg Except.ok hencoded

theorem uintDecimal_eq (value : U128) : uintDecimal value = .ok (decimal value.value) := by
  have h := printUint_ok U128.ten 39 "" value (by decide) (by decide)
    (by decide) (by decide) (by decide)
  rw [uintDecimal, h, String.empty_append]
  rfl

theorem uintHex_eq (value : U128) :
    uintHex value = .ok ("0x" ++ String.ofList (Nat.toDigits 16 value.value)) :=
  printUint_ok U128.sixteen 32 "0x" value (by decide) (by decide)
    (by decide) (by decide) (by decide)

/-! ## 5. Reader and printers -/

theorem Reads.ok_iff {outcome : Except (Failure String) U128} {denoted : Option Nat}
    (h : Reads outcome denoted) (value : U128) :
    outcome = .ok value ↔ denoted = some value.value := by
  constructor
  · intro hok
    rwa [hok] at h
  · intro hdenoted
    cases outcome with
    | ok result =>
        have hsome : denoted = some result.value := h
        rw [hdenoted] at hsome
        exact congrArg Except.ok (Word.ext (Option.some.inj hsome).symm)
    | error failure =>
        cases failure with
        | thrown message => exact absurd (h value.value hdenoted) (Nat.not_lt.mpr value.inRange)
        | arithmetic => exact h.elim

theorem decimal_shortest (value : Nat) : IsShortestNumeral 10 value (decimal value).toList := by
  rw [decimal, Nat.toString_eq_repr, Nat.toList_repr]
  exact toDigits_shortest (by decide) (by decide) value

theorem parse_decimal (value : U128) : parseDecimalU128 (decimal value.value) = .ok value :=
  ((parseDecimalU128_reads _).ok_iff value).mpr (decimal_shortest value.value).denotes

/-- The reader returns exactly the numbers of `u128` that a decimal numeral denotes and throws its
error elsewhere.  The printers write the shortest numeral, in lower case and after `0x` for the
hexadecimal one, and the reader takes the decimal one back. -/
theorem integer_texts :
    (∀ source value, parseDecimalU128 source = .ok value ↔
      numeralValue 10 source.toList = some value.value) ∧
    (∀ source, parseDecimalU128 source ≠ .error .arithmetic) ∧
    (∀ value, ∃ text, uintDecimal value = .ok text ∧
      IsShortestNumeral 10 value.value text.toList ∧ parseDecimalU128 text = .ok value) ∧
    (∀ value, ∃ digits, uintHex value = .ok ("0x" ++ digits) ∧
      IsShortestNumeral 16 value.value digits.toList) := by
  refine ⟨fun source ↦ (parseDecimalU128_reads source).ok_iff, fun source harithmetic ↦ ?_,
    fun value ↦ ⟨decimal value.value, uintDecimal_eq value, decimal_shortest value.value,
      parse_decimal value⟩, fun value ↦ ⟨_, uintHex_eq value, ?_⟩⟩
  · have hreads := parseDecimalU128_reads source
    rw [harithmetic] at hreads
    exact hreads
  · rw [String.toList_ofList]
    exact toDigits_shortest (by decide) (by decide) value.value

end Stainless.Crypto
