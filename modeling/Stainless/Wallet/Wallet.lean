import Stainless.Crypto.Crypto

/-!
# Wallet addresses

An address is the checksummed text of a 32 byte digest.  The writer regroups the digest in symbols of
five bits and appends six symbols of checksum; the checker is written apart from it and counts the
bytes without building them.
-/

open Stainless.Crypto

namespace Stainless.Wallet

/-- The signature library: which keys are points of the curve. -/
structure Native extends Crypto.Native where
  publicKeyValid : List UInt8 → Bool

def powerOfTwo (exponent : Nat) : Nat := (List.range exponent).foldl (fun value _ ↦ value * 2) 1

/-! ## 1. Symbols of five bits -/

structure Regrouping where
  result : List Nat
  accumulator : Nat
  bits : Nat

namespace Regrouping

/-- `if (bits >= 5)`: takes the symbol above the bits that stay. -/
def takeSymbol (state : Regrouping) : Regrouping :=
  if state.bits ≥ 5 then
    { state with
      bits := state.bits - 5
      result := state.result ++ [state.accumulator / powerOfTwo (state.bits - 5) % 32] }
  else state

def pushByte (state : Regrouping) (byte : UInt8) : Regrouping :=
  let state := { state with
    accumulator := state.accumulator * 256 + byte.toNat
    bits := state.bits + 8 }
  let state := state.takeSymbol.takeSymbol
  { state with accumulator := state.accumulator % powerOfTwo state.bits }

end Regrouping

def convertEightToFive (bytes : List UInt8) : List Nat :=
  let state := bytes.foldl Regrouping.pushByte ⟨[], 0, 0⟩
  if state.bits > 0 then
    state.result ++ [state.accumulator * powerOfTwo (5 - state.bits) % 32]
  else state.result

/-! ## 2. The alphabet -/

def alphabet : String := "qpzry9x8gf2tvdw0s3jn54khce6mua7l"

def bech32ValueFrom (value : UInt8) (index : Nat) : List UInt8 → Nat
  | [] => 255
  | character :: rest => if character = value then index else bech32ValueFrom value (index + 1) rest

def bech32Value (value : UInt8) : Nat := bech32ValueFrom value 0 (bytes alphabet)

def bech32Character (value : Nat) : String :=
  match value with
  | 0 => "q" | 1 => "p" | 2 => "z" | 3 => "r"
  | 4 => "y" | 5 => "9" | 6 => "x" | 7 => "8"
  | 8 => "g" | 9 => "f" | 10 => "2" | 11 => "t"
  | 12 => "v" | 13 => "d" | 14 => "w" | 15 => "0"
  | 16 => "s" | 17 => "3" | 18 => "j" | 19 => "n"
  | 20 => "5" | 21 => "4" | 22 => "k" | 23 => "h"
  | 24 => "c" | 25 => "e" | 26 => "6" | 27 => "m"
  | 28 => "u" | 29 => "a" | 30 => "7" | 31 => "l"
  | _ => ""

/-! ## 3. The checksum -/

def bech32Prefix : List Nat := [3, 3, 3, 0, 13, 13, 24]

def generators : List Nat := [996825010, 642813549, 513874426, 1027748829, 705979059]

/-- The loop over the generators, with the weight of the bit of `top` it has reached. -/
def addGenerators (top : Nat) : Nat → List Nat → Nat → Nat
  | _, [], checksum => checksum
  | bit, generator :: rest, checksum =>
      addGenerators top (bit * 2) rest
        (if top / bit % 2 ≠ 0 then checksum ^^^ generator else checksum)

def polymodStep (checksum value : Nat) : Nat :=
  addGenerators (checksum / 33554432) 1 generators (checksum % 33554432 * 32 ^^^ value)

def bech32Polymod (values : List Nat) : Nat := values.foldl polymodStep 1

/-! ## 4. Writer and checker -/

def checksumConstant : Nat := 734539939

/-- `checksum / power_of_two(5 * (5 - i)) % 32` for the six positions. -/
def checksumSymbols (checksum : Nat) : List Nat :=
  (List.range 6).map fun i ↦ checksum / powerOfTwo (5 * (5 - i)) % 32

/-- The address that `address_from_public_key` builds from the bytes of a digest. -/
def addressText (digest : List UInt8) : String :=
  let data := convertEightToFive digest
  let checksum := bech32Polymod (bech32Prefix ++ data ++ List.replicate 6 0) ^^^ checksumConstant
  (data ++ checksumSymbols checksum).foldl (fun address value ↦ address ++ bech32Character value) "mmx1"

def addressFromPublicKey (native : Native) (publicKey : String) : String :=
  if !native.publicKeyValid (decodeHex publicKey) then ""
  else
    let digest := decodeHex (sha256Hex native.toNative publicKey)
    if digest.length ≠ 32 then "" else addressText digest

/-- The symbols of the characters, unless one is not in the alphabet. -/
def addressValues : List UInt8 → Option (List Nat)
  | [] => some []
  | character :: rest =>
      if bech32Value character = 255 then none
      else (addressValues rest).map (bech32Value character :: ·)

structure Counting where
  accumulator : Nat
  bits : Nat
  outputLength : Nat

def Counting.pushSymbol (state : Counting) (value : Nat) : Counting :=
  let accumulator := state.accumulator * 32 + value
  let bits := state.bits + 5
  if bits ≥ 8 then ⟨accumulator % powerOfTwo (bits - 8), bits - 8, state.outputLength + 1⟩
  else ⟨accumulator, bits, state.outputLength⟩

def validateAddress (address : String) : Bool :=
  if address = "MMX" then true
  else
    let characters := bytes address
    if characters.length ≠ 62 ∨ characters.take 4 ≠ [109, 109, 120, 49] then false
    else
      match addressValues (characters.drop 4) with
      | none => false
      | some symbols =>
          let values := bech32Prefix ++ symbols
          if bech32Polymod values ≠ checksumConstant then false
          else
            let payload := (values.take (values.length - 6)).drop 7
            let state := payload.foldl Counting.pushSymbol ⟨0, 0, 0⟩
            state.outputLength = 32 && state.bits < 5 && state.accumulator = 0

end Stainless.Wallet
