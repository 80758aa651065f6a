/-!
# Cryptographic helpers

Hexadecimal text, decimal text and the wide multiplication.  The hash and the signature scheme are
parameters.
-/

namespace Stainless.Crypto

/-! ## 1. The native part -/

structure Native where
  sha256 : List UInt8 → String
  verify : (hash publicKey signature : String) → Bool

/-- The bytes of a text. -/
def bytes (source : String) : List UInt8 := source.toUTF8.data.toList

/-! ## 2. Hexadecimal text -/

def hexValue (value : UInt8) : UInt8 :=
  if value ≥ 48 ∧ value ≤ 57 then value - 48
  else if value ≥ 65 ∧ value ≤ 70 then value - 55
  else if value ≥ 97 ∧ value ≤ 102 then value - 87
  else 255

def decodeNibbles : List UInt8 → Option (List UInt8)
  | [] => some []
  | [_] => none
  | high :: low :: rest =>
      if hexValue high = 255 ∨ hexValue low = 255 then none
      else (decodeNibbles rest).map ((hexValue high * 16 + hexValue low) :: ·)

/-- A text with another character or of odd length decodes to no bytes. -/
def decodeHex (source : String) : List UInt8 := (decodeNibbles (bytes source)).getD []

def isHex (source : String) (byteLength : Nat) : Bool :=
  source.utf8ByteSize = byteLength * 2 && (decodeHex source).length = byteLength

def sha256Text (native : Native) (source : String) : String := native.sha256 (bytes source)

def sha256Hex (native : Native) (source : String) : String :=
  if source.utf8ByteSize ≠ (decodeHex source).length * 2 then ""
  else native.sha256 (decodeHex source)

/-! ## 3. Numbers -/

/-- The shortest decimal text of a number. -/
def decimal (value : Nat) : String := toString value

def maximum : Nat := 340282366920938463463374607431768211455

/-- Adds `quotient * divisor + remainder` to a number in the same form. -/
def addWide (divisor : Nat) (number addend : Nat × Nat) : Except String (Nat × Nat) := do
  if number.1 > maximum - addend.1 then
    throw "mul_div_floor(): quotient overflow"
  if number.2 ≥ divisor - addend.2 then
    if number.1 + addend.1 = maximum then
      throw "mul_div_floor(): quotient overflow"
    return (number.1 + addend.1 + 1, number.2 - (divisor - addend.2))
  else
    return (number.1 + addend.1, number.2 + addend.2)

def mulDivLoop (divisor multiplier : Nat) (unit result : Nat × Nat) : Except String Nat :=
  if multiplier = 0 then return result.1
  else do
    let result ← if multiplier % 2 = 1 then addWide divisor result unit else pure result
    let unit ← if multiplier / 2 > 0 then addWide divisor unit unit else pure unit
    mulDivLoop divisor (multiplier / 2) unit result
termination_by multiplier
decreasing_by omega

def mulDivFloor (left right divisor : Nat) : Except String Nat :=
  if divisor = 0 then throw "wide multiplication divides by zero"
  else mulDivLoop divisor right (left / divisor, left % divisor) (0, 0)

end Stainless.Crypto
