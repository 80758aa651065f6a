import Stainless.Reasoning.Bytes

/-!
# Index WAL records

The index WAL is a sequence of length-framed, checksummed records.  An insert record locates one
value in the data WAL; a commit marker fixes a version and the committed data-WAL length.
-/

open Reasoning

namespace Stainless.Kvstore

abbrev Bytes := List UInt8

/-- The exceptions that the raw table functions throw; `io` is any `stainless::IoError`.  A panic is
none of them, and no handler catches it. -/
inductive TableError where
  | io
  | indexCorrupt (message : String)
  | valueTooLarge (message : String)
  | panicked (message : String)
  deriving DecidableEq, Repr

/-- `if (c) { throw e; }` -/
def throwIf {m : Type → Type} [Monad m] [MonadExcept TableError m] (c : Prop) [Decidable c]
    (e : TableError) : m Unit :=
  if c then throw e else pure ()

theorem throwIf_of {c : Prop} [Decidable c] (h : c) (e : TableError) :
    throwIf (m := Except TableError) c e = .error e := if_pos h

theorem throwIf_of_not {c : Prop} [Decidable c] (h : ¬c) (e : TableError) :
    throwIf (m := Except TableError) c e = .ok () := if_neg h

theorem ok_bind {α β : Type} (a : α) (f : α → Except TableError β) : (Except.ok a >>= f) = f a := rfl

theorem error_bind {α β : Type} (e : TableError) (f : α → Except TableError β) :
    (Except.error e >>= f) = .error e := rfl

inductive RecordKind where
  | insert
  | commit
  deriving DecidableEq, Repr

def RecordKind.toByte : RecordKind → UInt8
  | .insert => 0
  | .commit => 1

def RecordKind.ofByte? (b : UInt8) : Option RecordKind :=
  if b = 0 then some .insert else if b = 1 then some .commit else none

/-- Where a value lies in the data WAL, under the key and the version it was written at. -/
structure InsertRecord where
  version : UInt32
  offset : Nat
  length : Nat
  key : Bytes
  deriving DecidableEq, Repr

structure CommitRecord where
  version : UInt32
  dataLen : Nat
  deriving DecidableEq, Repr

/-! ## Checksums -/

def recordChecksumStep (sums : Nat × Nat) (byte : UInt8) : Nat × Nat :=
  let sum := (sums.1 + byte.toNat) % 65521
  (sum, (sums.2 + sum) % 65521)

def recordChecksumRange (record : Bytes) (first last : Nat) : Nat :=
  let sums := (slice record first (last - first)).foldl recordChecksumStep (1, 0)
  sums.2 * 65536 + sums.1

def recordChecksum (payload : Bytes) : Nat := recordChecksumRange payload 0 payload.length

/-! ## Writing records -/

/-- `BigEndian::write_u32` of a `usize`: a length that does not fit the field is refused. -/
def writeUsizeU32 (value : Nat) : Except TableError Bytes :=
  if value < 2 ^ 32 then .ok (toBigEndian 4 value) else .error .io

def InsertRecord.payload (r : InsertRecord) : Bytes :=
  RecordKind.insert.toByte :: (toBigEndian 4 r.version.toNat ++ toBigEndian 8 r.offset ++
    toBigEndian 4 r.length ++ toBigEndian 8 r.key.length ++ r.key)

def InsertRecord.write (r : InsertRecord) : Except TableError Bytes := do
  let payload := r.payload
  let checksum := recordChecksum payload
  let size ← writeUsizeU32 (payload.length + 8)
  return size ++ payload ++ toBigEndian 4 checksum

def CommitRecord.payload (r : CommitRecord) : Bytes :=
  RecordKind.commit.toByte :: (toBigEndian 4 r.version.toNat ++ toBigEndian 8 r.dataLen)

def CommitRecord.write (r : CommitRecord) : Bytes :=
  toBigEndian 4 21 ++ r.payload ++ toBigEndian 4 (recordChecksum r.payload)

def dataPayload (version : UInt32) (valueLength key value : Bytes) : Bytes :=
  RecordKind.insert.toByte :: (toBigEndian 4 version.toNat ++ toBigEndian 8 key.length ++
    valueLength ++ key ++ value)

/-- A record of the data WAL: the value is stored behind its version, key and lengths. -/
def makeDataRecord (version : UInt32) (key value : Bytes) : Except TableError Bytes := do
  let valueLength ← writeUsizeU32 value.length
  let payload := dataPayload version valueLength key value
  let checksum := recordChecksum payload
  let size ← writeUsizeU32 (payload.length + 8)
  return size ++ payload ++ toBigEndian 4 checksum

/-! ## Reading records -/

/-- Decodes the big-endian field of `width` bytes at `offset`; `message` is thrown when the field
does not lie inside the string. -/
def decodeAt (width : Nat) (message : String) (bytes : Bytes) (offset : Nat) :
    Except TableError Nat :=
  if offset + width ≤ bytes.length then .ok (ofBigEndian (slice bytes offset width))
  else .error (.indexCorrupt message)

def decodeU8At (bytes : Bytes) (offset : Nat) : Except TableError Nat :=
  decodeAt 1 "invalid index WAL u8 field" bytes offset

def decodeU32At (bytes : Bytes) (offset : Nat) : Except TableError Nat :=
  decodeAt 4 "invalid index WAL u32 field" bytes offset

def decodeU64At (bytes : Bytes) (offset : Nat) : Except TableError Nat :=
  decodeAt 8 "invalid index WAL u64 field" bytes offset

def indexRecordKind (record : Bytes) : Except TableError RecordKind := do
  let byte ← decodeU8At record 4
  match RecordKind.ofByte? (UInt8.ofNat byte) with
  | some kind => return kind
  | none => throw (.indexCorrupt "unknown index WAL record kind")

def InsertRecord.read (record : Bytes) : Except TableError InsertRecord := do
  let recordSize ← decodeU32At record 0
  let kind ← indexRecordKind record
  throwIf (kind ≠ .insert ∨ recordSize < 33 ∨ recordSize ≠ record.length)
    (.indexCorrupt "invalid index WAL insert record")
  let keyLength ← decodeU64At record 21
  throwIf (recordSize ≠ 33 + keyLength) (.indexCorrupt "invalid index WAL key length")
  return {
    version := UInt32.ofNat (← decodeU32At record 5)
    offset := ← decodeU64At record 9
    length := ← decodeU32At record 17
    key := slice record 29 (record.length - 4 - 29) }

/-! The sum `33 + key_length` of `InsertRecord.read` overflows for a length near the greatest `u64`.  A
program that is built without overflow checks wraps it, and the length is refused all the same; with
the checks it panics. -/

def addU64 (overflowChecks : Bool) (left right : Nat) : Except TableError Nat :=
  if left + right < 2 ^ 64 then .ok (left + right)
  else if overflowChecks then .error (.panicked "attempt to add with overflow")
  else .ok ((left + right) % 2 ^ 64)

def subUsize (overflowChecks : Bool) (left right : Nat) : Except TableError Nat :=
  if right ≤ left then .ok (left - right)
  else if overflowChecks then .error (.panicked "attempt to subtract with overflow")
  else .ok (left + 2 ^ 64 - right)

def copyRange (bytes : Bytes) (first last : Nat) : Except TableError Bytes :=
  if first ≤ last ∧ last ≤ bytes.length then .ok (slice bytes first (last - first))
  else .error (.panicked "Stainless Vec::copy_range bounds are invalid")

/-- `InsertRecord.read` with its panics, as built with or without overflow checks. -/
def InsertRecord.readChecked (overflowChecks : Bool) (record : Bytes) :
    Except TableError InsertRecord := do
  let recordSize ← decodeU32At record 0
  let kind ← indexRecordKind record
  throwIf (kind ≠ .insert ∨ recordSize < 33 ∨ recordSize ≠ record.length)
    (.indexCorrupt "invalid index WAL insert record")
  let keyLength ← decodeU64At record 21
  let expectedSize ← addU64 overflowChecks 33 keyLength
  throwIf (recordSize ≠ expectedSize) (.indexCorrupt "invalid index WAL key length")
  let last ← subUsize overflowChecks record.length 4
  let key ← copyRange record 29 last
  return {
    version := UInt32.ofNat (← decodeU32At record 5)
    offset := ← decodeU64At record 9
    length := ← decodeU32At record 17
    key }

def CommitRecord.read (record : Bytes) : Except TableError CommitRecord := do
  throwIf (record.length ≠ 21) (.indexCorrupt "invalid index WAL commit record")
  let recordSize ← decodeU32At record 0
  throwIf (recordSize ≠ 21) (.indexCorrupt "invalid index WAL commit record")
  let kind ← indexRecordKind record
  throwIf (kind ≠ .commit) (.indexCorrupt "invalid index WAL commit record")
  return { version := UInt32.ofNat (← decodeU32At record 5), dataLen := ← decodeU64At record 9 }

end Stainless.Kvstore
