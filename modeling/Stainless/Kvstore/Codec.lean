import Stainless.Kvstore.Record
import Stainless.Reasoning.RunningSums

/-!
# Record codec

What the readers make of a written record.
-/

open Reasoning

namespace Stainless.Kvstore

/-- A record of the index WAL. -/
inductive IndexRecord where
  | insert (record : InsertRecord)
  | commit (record : CommitRecord)
  deriving DecidableEq, Repr

namespace IndexRecord

def payload : IndexRecord → Bytes
  | .insert r => r.payload
  | .commit r => r.payload

/-- The bytes of a record in the file. -/
def encode (r : IndexRecord) : Bytes :=
  toBigEndian 4 (r.payload.length + 8) ++ r.payload ++ toBigEndian 4 (recordChecksum r.payload)

def size : IndexRecord → Nat
  | .insert r => 33 + r.key.length
  | .commit _ => 21

/-- Every field fits its place in the record. -/
def Valid : IndexRecord → Prop
  | .insert r => 33 + r.key.length < 2 ^ 32 ∧ r.offset < 2 ^ 64 ∧ r.length < 2 ^ 32
  | .commit r => r.dataLen < 2 ^ 64

theorem payload_length (r : IndexRecord) : r.payload.length + 8 = r.size := by
  cases r with
  | insert r =>
      simp [payload, InsertRecord.payload, size]
      omega
  | commit r => simp [payload, CommitRecord.payload, size]

theorem encode_length (r : IndexRecord) : r.encode.length = r.size := by
  have h := r.payload_length
  simp only [encode, List.length_append, toBigEndian_length]
  omega

theorem size_pos (r : IndexRecord) : 21 ≤ r.size := by
  cases r <;> simp [size]
  omega

theorem Valid.size_lt {r : IndexRecord} (h : r.Valid) : r.size < 2 ^ 32 := by
  cases r with
  | insert r => exact h.1
  | commit r => simp [size]

end IndexRecord

theorem recordChecksumStep_lt (sums : Nat × Nat) (b : UInt8) :
    (recordChecksumStep sums b).1 < 65521 ∧ (recordChecksumStep sums b).2 < 65521 :=
  ⟨Nat.mod_lt _ (by decide), Nat.mod_lt _ (by decide)⟩

theorem foldl_recordChecksumStep (sums : Nat × Nat) (bytes : Bytes) :
    bytes.foldl recordChecksumStep sums =
      (bytes.map UInt8.toNat).foldl (runningSums 65521) sums := by
  rw [List.foldl_map]
  rfl

theorem foldl_recordChecksumStep_lt (bytes : Bytes) :
    (bytes.foldl recordChecksumStep (1, 0)).1 < 65521 ∧
      (bytes.foldl recordChecksumStep (1, 0)).2 < 65521 := by
  rw [foldl_recordChecksumStep]
  exact foldl_runningSums_lt (by decide) (by decide) _

theorem recordChecksumRange_lt (record : Bytes) (first last : Nat) :
    recordChecksumRange record first last < 2 ^ 32 := by
  have hsums := foldl_recordChecksumStep_lt (slice record first (last - first))
  simp only [recordChecksumRange]
  omega

/-! ## The writers frame their payload -/

theorem InsertRecord.write_eq (r : InsertRecord) :
    r.write = if 33 + r.key.length < 2 ^ 32 then .ok (IndexRecord.insert r).encode
      else .error .io := by
  have hlen : r.payload.length + 8 = 33 + r.key.length := (IndexRecord.insert r).payload_length
  simp only [InsertRecord.write, writeUsizeU32, hlen, IndexRecord.encode, IndexRecord.payload]
  split
  · rfl
  · rfl

theorem CommitRecord.write_eq (r : CommitRecord) : r.write = (IndexRecord.commit r).encode := by
  have hlen : r.payload.length + 8 = 21 := (IndexRecord.commit r).payload_length
  rw [CommitRecord.write, IndexRecord.encode, IndexRecord.payload, hlen]

/-- A data record holds its value behind 21 bytes and the key, and four bytes follow. -/
theorem makeDataRecord_ok {version : UInt32} {key value bytes : Bytes}
    (h : makeDataRecord version key value = .ok bytes) :
    bytes.length = 25 + key.length + value.length ∧
      slice bytes (21 + key.length) value.length = value ∧ value.length < 2 ^ 32 := by
  unfold makeDataRecord writeUsizeU32 at h
  split at h
  · rename_i hvalue
    simp only [ok_bind] at h
    split at h
    · rw [ok_bind] at h
      cases h
      refine ⟨by simp [dataPayload]; omega, ?_, hvalue⟩
      refine slice_eq_middle (toBigEndian 4
        ((dataPayload version (toBigEndian 4 value.length) key value).length + 8) ++
          RecordKind.insert.toByte :: (toBigEndian 4 version.toNat ++ toBigEndian 8 key.length ++
          toBigEndian 4 value.length ++ key)) (toBigEndian 4 (recordChecksum
          (dataPayload version (toBigEndian 4 value.length) key value))) ?_ ?_
      · simp only [dataPayload, List.append_assoc, List.cons_append]
      · simp only [List.length_append, List.length_cons, toBigEndian_length]
        omega
    · cases h
  · cases h

/-! ## Reading fields back -/

theorem decodeAt_field (before after : Bytes) {width n : Nat} {message : String} {bytes : Bytes}
    {offset : Nat} (hb : bytes = before ++ toBigEndian width n ++ after)
    (ho : before.length = offset) (hn : n < 256 ^ width) :
    decodeAt width message bytes offset = .ok n := by
  subst hb ho
  have hslice := slice_middle before (toBigEndian width n) after
  rw [toBigEndian_length] at hslice
  rw [decodeAt, if_pos (by simp), hslice, ofBigEndian_toBigEndian_of_lt hn]

/-- A record followed by anything starts with its own size. -/
theorem decodeU32At_size (r : IndexRecord) (hv : r.Valid) (rest : Bytes) :
    decodeU32At (r.encode ++ rest) 0 = .ok r.size := by
  apply decodeAt_field [] (r.payload ++ toBigEndian 4 (recordChecksum r.payload)
    ++ rest)
  · simp only [IndexRecord.encode, r.payload_length, List.nil_append, List.append_assoc]
  · rfl
  · exact hv.size_lt

theorem decodeU32At_size_self (r : IndexRecord) (hv : r.Valid) :
    decodeU32At r.encode 0 = .ok r.size := by
  simpa using decodeU32At_size r hv []

theorem indexRecordKind_insert (r : InsertRecord) :
    indexRecordKind (IndexRecord.insert r).encode = .ok .insert := by
  have hb : decodeU8At (IndexRecord.insert r).encode 4 = .ok 0 := by
    refine decodeAt_field
      (toBigEndian 4 ((IndexRecord.insert r).payload.length + 8))
      ((IndexRecord.insert r).payload.tail ++
        toBigEndian 4 (recordChecksum (IndexRecord.insert r).payload)) ?_ ?_ ?_
    · simp [IndexRecord.encode, IndexRecord.payload, InsertRecord.payload, toBigEndian,
        RecordKind.toByte]
    · simp
    · decide
  simp only [indexRecordKind, hb, bind, Except.bind]
  rfl

theorem indexRecordKind_commit (r : CommitRecord) :
    indexRecordKind (IndexRecord.commit r).encode = .ok .commit := by
  have hb : decodeU8At (IndexRecord.commit r).encode 4 = .ok 1 := by
    refine decodeAt_field
      (toBigEndian 4 ((IndexRecord.commit r).payload.length + 8))
      ((IndexRecord.commit r).payload.tail ++
        toBigEndian 4 (recordChecksum (IndexRecord.commit r).payload)) ?_ ?_ ?_
    · simp [IndexRecord.encode, IndexRecord.payload, CommitRecord.payload, toBigEndian,
        RecordKind.toByte]
    · simp
    · decide
  simp only [indexRecordKind, hb, bind, Except.bind]
  rfl

private theorem insert_encode (r : InsertRecord) :
    (IndexRecord.insert r).encode = toBigEndian 4 (33 + r.key.length) ++ [0] ++
      toBigEndian 4 r.version.toNat ++ toBigEndian 8 r.offset ++ toBigEndian 4 r.length ++
      toBigEndian 8 r.key.length ++ r.key ++ toBigEndian 4 (recordChecksum r.payload) := by
  have hp := (IndexRecord.insert r).payload_length
  simp only [IndexRecord.encode, hp, IndexRecord.size]
  simp [IndexRecord.payload, InsertRecord.payload, RecordKind.toByte]

theorem InsertRecord.read_encode (r : InsertRecord) (hv : (IndexRecord.insert r).Valid) :
    InsertRecord.read (IndexRecord.insert r).encode = .ok r := by
  have he := insert_encode r
  have hlen : (IndexRecord.insert r).encode.length = 33 + r.key.length :=
    IndexRecord.encode_length _
  have hsize := decodeU32At_size_self _ hv
  rw [IndexRecord.size] at hsize
  have hkeyLength : decodeU64At (IndexRecord.insert r).encode 21 = .ok r.key.length := by
    apply decodeAt_field
      (toBigEndian 4 (33 + r.key.length) ++ [0] ++ toBigEndian 4 r.version.toNat ++
        toBigEndian 8 r.offset ++ toBigEndian 4 r.length)
      (r.key ++ toBigEndian 4 (recordChecksum r.payload))
    · rw [he]; simp only [List.append_assoc]
    · simp
    · have h := hv.1
      omega
  have hversion : decodeU32At (IndexRecord.insert r).encode 5 = .ok r.version.toNat := by
    apply decodeAt_field (toBigEndian 4 (33 + r.key.length) ++ [0])
      (toBigEndian 8 r.offset ++ toBigEndian 4 r.length ++ toBigEndian 8 r.key.length ++
        r.key ++ toBigEndian 4 (recordChecksum r.payload))
    · rw [he]; simp only [List.append_assoc]
    · simp
    · exact r.version.toNat_lt
  have hoffset : decodeU64At (IndexRecord.insert r).encode 9 = .ok r.offset := by
    apply decodeAt_field
      (toBigEndian 4 (33 + r.key.length) ++ [0] ++ toBigEndian 4 r.version.toNat)
      (toBigEndian 4 r.length ++ toBigEndian 8 r.key.length ++ r.key ++
        toBigEndian 4 (recordChecksum r.payload))
    · rw [he]; simp only [List.append_assoc]
    · simp
    · exact hv.2.1
  have hlength : decodeU32At (IndexRecord.insert r).encode 17 = .ok r.length := by
    apply decodeAt_field (toBigEndian 4 (33 + r.key.length) ++ [0] ++
        toBigEndian 4 r.version.toNat ++ toBigEndian 8 r.offset)
      (toBigEndian 8 r.key.length ++ r.key ++ toBigEndian 4 (recordChecksum r.payload))
    · rw [he]; simp only [List.append_assoc]
    · simp
    · exact hv.2.2
  have hkey : slice (IndexRecord.insert r).encode 29
      ((IndexRecord.insert r).encode.length - 4 - 29) = r.key := by
    rw [hlen, show 33 + r.key.length - 4 - 29 = r.key.length by omega, he]
    have h := slice_middle (toBigEndian 4 (33 + r.key.length) ++ [0] ++
      toBigEndian 4 r.version.toNat ++ toBigEndian 8 r.offset ++ toBigEndian 4 r.length ++
      toBigEndian 8 r.key.length) r.key (toBigEndian 4 (recordChecksum r.payload))
    simpa using h
  have hguard : ¬(33 + r.key.length < 33 ∨
      33 + r.key.length ≠ (IndexRecord.insert r).encode.length) := by
    rw [hlen]
    simp
  simp only [InsertRecord.read, hsize, indexRecordKind_insert, throwIf, hkeyLength,
    hversion, hoffset, hlength, hkey, bind, Except.bind, pure, Except.pure, UInt32.ofNat_toNat,
    ne_eq, not_true_eq_false, false_or, if_false]
  rw [if_neg hguard]

theorem CommitRecord.read_encode (r : CommitRecord) (hv : (IndexRecord.commit r).Valid) :
    CommitRecord.read (IndexRecord.commit r).encode = .ok r := by
  have he : (IndexRecord.commit r).encode = toBigEndian 4 21 ++ [1] ++
      toBigEndian 4 r.version.toNat ++ toBigEndian 8 r.dataLen ++
      toBigEndian 4 (recordChecksum r.payload) := by
    have hp := (IndexRecord.commit r).payload_length
    simp only [IndexRecord.encode, hp, IndexRecord.size]
    simp [IndexRecord.payload, CommitRecord.payload, RecordKind.toByte]
  have hlen : (IndexRecord.commit r).encode.length = 21 := IndexRecord.encode_length _
  have hsize := decodeU32At_size_self _ hv
  rw [IndexRecord.size] at hsize
  have hversion : decodeU32At (IndexRecord.commit r).encode 5 = .ok r.version.toNat := by
    apply decodeAt_field (toBigEndian 4 21 ++ [1])
      (toBigEndian 8 r.dataLen ++ toBigEndian 4 (recordChecksum r.payload))
    · rw [he]; simp only [List.append_assoc]
    · simp
    · exact r.version.toNat_lt
  have hdataLen : decodeU64At (IndexRecord.commit r).encode 9 = .ok r.dataLen := by
    apply decodeAt_field (toBigEndian 4 21 ++ [1] ++ toBigEndian 4 r.version.toNat)
      (toBigEndian 4 (recordChecksum r.payload))
    · rw [he]
    · simp
    · exact hv
  simp only [CommitRecord.read, hlen, hsize, indexRecordKind_commit, hversion, hdataLen, throwIf,
    bind, Except.bind, pure, Except.pure, UInt32.ofNat_toNat, ne_eq, not_true_eq_false, if_false]

end Stainless.Kvstore
