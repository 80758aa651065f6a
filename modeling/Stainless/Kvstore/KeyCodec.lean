import Stainless.Kvstore.Record
import Stainless.Reasoning.Escaping

/-!
# Key codecs

The codecs of table keys: fixed-width integers, strings and vectors of any codec, and the keys that
the JSON tables put together from them.
-/

open Reasoning

namespace Stainless.Kvstore

structure Encoded where
  valid : Bool
  bytes : Bytes
  deriving DecidableEq, Repr

structure Decoded (T : Type) where
  valid : Bool
  value : T
  deriving DecidableEq, Repr

/-- A decoded value and the offset behind its bytes. -/
structure DecodedAt (T : Type) where
  valid : Bool
  offset : Nat
  value : T
  deriving DecidableEq, Repr

structure KeyCodec (T : Type) where
  encode : T → Encoded
  decode : Bytes → Nat → DecodedAt T

namespace Codecs

/-! ## 1. Integers -/

/-- `BigEndian::read` at an offset, in the width of the type. -/
def decodeFixedAt (width : Nat) (bytes : Bytes) (offset : Nat) : DecodedAt Nat :=
  if offset + width ≤ bytes.length then
    ⟨true, offset + width, ofBigEndian (slice bytes offset width)⟩
  else ⟨false, offset, 0⟩

/-- The codec of an unsigned integer type of `width` bytes. -/
def fixedKey {T : Type} (width : Nat) (toNat : T → Nat) (ofNat : Nat → T) : KeyCodec T where
  encode value := ⟨true, toBigEndian width (toNat value)⟩
  decode bytes offset :=
    let decoded := decodeFixedAt width bytes offset
    ⟨decoded.valid, decoded.offset, ofNat decoded.value⟩

def u8Key : KeyCodec UInt8 := fixedKey 1 UInt8.toNat UInt8.ofNat

def u16Key : KeyCodec UInt16 := fixedKey 2 UInt16.toNat UInt16.ofNat

def u32Key : KeyCodec UInt32 := fixedKey 4 UInt32.toNat UInt32.ofNat

def u64Key : KeyCodec UInt64 := fixedKey 8 UInt64.toNat UInt64.ofNat

def u128Key : KeyCodec (BitVec 128) := fixedKey 16 BitVec.toNat (BitVec.ofNat 128)

end Codecs

/-! ## 2. The scan of an escaped string -/

/-- The local variables of the decoders that scan; `element` is the string that is unescaped. -/
structure Scan (T : Type) where
  position : Nat
  next : Nat
  escaped : Bool
  finished : Bool
  valid : Bool
  values : List T
  element : Bytes

namespace Scan

variable {T : Type}

def start (offset : Nat) : Scan T where
  position := 0
  next := offset
  escaped := false
  finished := false
  valid := true
  values := []
  element := []

/-- A byte of the string; `mark` is the branch for a byte other than 255 behind a zero. -/
def read (mark : UInt8 → Scan T → Scan T) (s : Scan T) (byte : UInt8) : Scan T :=
  let s := { s with next := s.position + 1 }
  if ¬s.escaped then
    if byte = 0 then { s with escaped := true } else { s with element := s.element ++ [byte] }
  else
    let s := { s with escaped := false }
    if byte = 255 then { s with element := s.element ++ [0] } else mark byte s

/-- One iteration of `for (const u8& byte : bytes)`. -/
def step (mark : UInt8 → Scan T → Scan T) (offset : Nat) (s : Scan T) (byte : UInt8) : Scan T :=
  let s := if s.position ≥ offset ∧ ¬s.finished ∧ s.valid then s.read mark byte else s
  { s with position := s.position + 1 }

def run (mark : UInt8 → Scan T → Scan T) (bytes : Bytes) (offset : Nat) : Scan T :=
  bytes.foldl (step mark offset) (start offset)

end Scan

/-! ## 3. Strings -/

namespace Codecs

def intoBytes (s : String) : Bytes := s.toByteArray.data.toList

def fromUtf8 (bytes : Bytes) : Option String := String.fromUTF8? bytes.toByteArray

/-- The loop that escapes the zero bytes of `bytes` behind `out`. -/
def pushEscaped (out bytes : Bytes) : Bytes :=
  bytes.foldl (fun out byte ↦ if byte = 0 then out ++ [0] ++ [255] else out ++ [byte]) out

/-- Behind a zero, the string decoder knows only the end of the string. -/
def stringMark (byte : UInt8) (s : Scan Empty) : Scan Empty :=
  if byte = 0 then { s with finished := true } else { s with valid := false }

def stringKey : KeyCodec String where
  encode value := ⟨true, pushEscaped [] (intoBytes value) ++ [0] ++ [0]⟩
  decode bytes offset :=
    let s := Scan.run stringMark bytes offset
    if s.valid ∧ s.finished then
      match fromUtf8 s.element with
      | some value => ⟨true, s.next, value⟩
      | none => ⟨false, offset, ""⟩
    else ⟨false, offset, ""⟩

end Codecs

/-! ## 4. Vectors -/

namespace KeyCodec

variable {T : Type}

def encodeElements (encodeElement : T → Encoded) (bytes : Bytes) : List T → Encoded
  | [] => ⟨true, bytes ++ [0] ++ [0]⟩
  | value :: values =>
      let element := encodeElement value
      if ¬element.valid then ⟨false, []⟩
      else encodeElements encodeElement (Codecs.pushEscaped bytes element.bytes ++ [0] ++ [1]) values

/-- Behind a zero, 1 ends an element and another zero the vector. -/
def vecMark (decodeElement : Bytes → Nat → DecodedAt T) (byte : UInt8) (s : Scan T) : Scan T :=
  if byte = 1 then
    let element := decodeElement s.element 0
    if ¬element.valid ∨ element.offset ≠ s.element.length then { s with valid := false }
    else { s with values := s.values ++ [element.value], element := [] }
  else if byte = 0 ∧ s.element = [] then { s with finished := true }
  else { s with valid := false }

def vec (codec : KeyCodec T) : KeyCodec (List T) where
  encode := encodeElements codec.encode []
  decode bytes offset :=
    let s := Scan.run (vecMark codec.decode) bytes offset
    if s.valid ∧ s.finished then ⟨true, s.next, s.values⟩ else ⟨false, offset, []⟩

end KeyCodec

/-! ## 5. The key types -/

inductive KeyType where
  | u8
  | u16
  | u32
  | u64
  | u128
  | string
  | vec (element : KeyType)
  deriving DecidableEq, Repr

def KeyType.Value : KeyType → Type
  | .u8 => UInt8
  | .u16 => UInt16
  | .u32 => UInt32
  | .u64 => UInt64
  | .u128 => BitVec 128
  | .string => String
  | .vec element => List element.Value

def KeyType.codec : (t : KeyType) → KeyCodec t.Value
  | .u8 => Codecs.u8Key
  | .u16 => Codecs.u16Key
  | .u32 => Codecs.u32Key
  | .u64 => Codecs.u64Key
  | .u128 => Codecs.u128Key
  | .string => Codecs.stringKey
  | .vec element => element.codec.vec

/-! ## 6. The keys of the JSON tables -/

/-- The two callbacks that a `Table` is constructed with for its keys. -/
structure TableKey (K : Type) where
  encodeKey : K → Encoded
  decodeKey : Bytes → Decoded K

variable {K1 K2 K3 : Type}

def jsonTable1 (codec : KeyCodec K1) : TableKey K1 where
  encodeKey := codec.encode
  decodeKey bytes :=
    let decoded := codec.decode bytes 0
    ⟨decoded.valid && decoded.offset == bytes.length, decoded.value⟩

def jsonTable2 (firstCodec : KeyCodec K1) (secondCodec : KeyCodec K2) : TableKey (K1 × K2) where
  encodeKey key :=
    let first := firstCodec.encode key.1
    let second := secondCodec.encode key.2
    if ¬first.valid ∨ ¬second.valid then ⟨false, []⟩
    else ⟨true, first.bytes ++ second.bytes⟩
  decodeKey bytes :=
    let first := firstCodec.decode bytes 0
    let second := secondCodec.decode bytes first.offset
    ⟨first.valid && second.valid && second.offset == bytes.length, (first.value, second.value)⟩

def jsonTable3 (firstCodec : KeyCodec K1) (secondCodec : KeyCodec K2) (thirdCodec : KeyCodec K3) :
    TableKey (K1 × K2 × K3) where
  encodeKey key :=
    let first := firstCodec.encode key.1
    let second := secondCodec.encode key.2.1
    let third := thirdCodec.encode key.2.2
    if ¬first.valid ∨ ¬second.valid ∨ ¬third.valid then ⟨false, []⟩
    else ⟨true, first.bytes ++ second.bytes ++ third.bytes⟩
  decodeKey bytes :=
    let first := firstCodec.decode bytes 0
    let second := secondCodec.decode bytes first.offset
    let third := thirdCodec.decode bytes second.offset
    ⟨first.valid && second.valid && third.valid && third.offset == bytes.length,
      (first.value, second.value, third.value)⟩

end Stainless.Kvstore
