import Stainless.Kvstore.Codec
import Stainless.Kvstore.Reads

/-!
# Checksums

A payload between its size and four bytes is read as a record if the four bytes hold its checksum.  The
checksum tells a payload from one that differs in one byte, and no step of it leaves `u32`.
-/

open Reasoning Stainless.Runtime

namespace Stainless.Kvstore

/-! ## 1. The sums -/

theorem recordChecksum_eq (payload : Bytes) : recordChecksum payload =
    (payload.foldl recordChecksumStep (1, 0)).2 * 65536 +
      (payload.foldl recordChecksumStep (1, 0)).1 := by
  rw [recordChecksum, recordChecksumRange, Nat.sub_zero, slice_all]

/-- The first sum is in the lower half of the checksum. -/
theorem recordChecksum_fst (payload : Bytes) :
    recordChecksum payload % 65536 = (payload.foldl recordChecksumStep (1, 0)).1 := by
  have hlt := (foldl_recordChecksumStep_lt payload).1
  rw [recordChecksum_eq]
  omega

theorem recordChecksum_detect {x y : UInt8} (hne : x ≠ y) (front back : Bytes) :
    recordChecksum (front ++ x :: back) ≠ recordChecksum (front ++ y :: back) := by
  have hx := x.toNat_lt
  have hy := y.toNat_lt
  intro heq
  have hfst := congrArg (· % 65536) heq
  simp only [recordChecksum_fst, foldl_recordChecksumStep, List.map_append, List.map_cons] at hfst
  exact runningSums_detect (by omega) (by omega) (fun h ↦ hne (UInt8.toNat.inj h)) _ _ _ hfst

/-- The checksum of a payload with another byte at a place. -/
theorem recordChecksum_set {payload : Bytes} {i : Nat} {byte : UInt8} (hi : i < payload.length)
    (hne : byte ≠ payload[i]) : recordChecksum (payload.set i byte) ≠ recordChecksum payload := by
  have hsplit : payload = payload.take i ++ payload[i] :: payload.drop (i + 1) := by
    rw [List.getElem_cons_drop, List.take_append_drop]
  rw [List.set_eq_take_append_cons_drop, if_pos hi,
    show recordChecksum payload = _ from congrArg recordChecksum hsplit]
  exact recordChecksum_detect hne _ _

/-! ## 2. The sums in `u32` -/

/-- The result of an operation on `u32`: with overflow checks one that does not fit panics, without them
it wraps. -/
def fitU32 (overflowChecks : Bool) (message : String) (result : Nat) : Except TableError Nat :=
  if result < 2 ^ 32 then .ok result
  else if overflowChecks then .error (.panicked message)
  else .ok (result % 2 ^ 32)

def addU32 (overflowChecks : Bool) (left right : Nat) : Except TableError Nat :=
  fitU32 overflowChecks "attempt to add with overflow" (left + right)

def mulU32 (overflowChecks : Bool) (left right : Nat) : Except TableError Nat :=
  fitU32 overflowChecks "attempt to multiply with overflow" (left * right)

/-- `recordChecksumStep` in `u32`. -/
def recordChecksumStepU32 (overflowChecks : Bool) (sums : Nat × Nat) (byte : UInt8) :
    Except TableError (Nat × Nat) := do
  let sum := (← addU32 overflowChecks sums.1 byte.toNat) % 65521
  let weightedSum := (← addU32 overflowChecks sums.2 sum) % 65521
  return (sum, weightedSum)

/-- `record_checksum_range` in `u32`. -/
def recordChecksumRangeU32 (overflowChecks : Bool) (record : Bytes) (first last : Nat) :
    Except TableError Nat := do
  let sums ← (slice record first (last - first)).foldlM (recordChecksumStepU32 overflowChecks) (1, 0)
  addU32 overflowChecks (← mulU32 overflowChecks sums.2 65536) sums.1

theorem addU32_of_lt {overflowChecks : Bool} {left right : Nat} (h : left + right < 2 ^ 32) :
    addU32 overflowChecks left right = .ok (left + right) := if_pos h

theorem mulU32_of_lt {overflowChecks : Bool} {left right : Nat} (h : left * right < 2 ^ 32) :
    mulU32 overflowChecks left right = .ok (left * right) := if_pos h

theorem recordChecksumStepU32_eq (overflowChecks : Bool) {sums : Nat × Nat} (byte : UInt8)
    (hsums : sums.1 < 65521 ∧ sums.2 < 65521) :
    recordChecksumStepU32 overflowChecks sums byte = .ok (recordChecksumStep sums byte) := by
  have hbyte := byte.toNat_lt
  have hmod := Nat.mod_lt (sums.1 + byte.toNat) (show 0 < 65521 by decide)
  have hsum : addU32 overflowChecks sums.1 byte.toNat = .ok _ := addU32_of_lt (by omega)
  have hweighted : addU32 overflowChecks sums.2 ((sums.1 + byte.toNat) % 65521) = .ok _ :=
    addU32_of_lt (by omega)
  simp only [recordChecksumStepU32, hsum, ok_bind, hweighted]
  rfl

theorem foldlM_recordChecksumStepU32 (overflowChecks : Bool) {sums : Nat × Nat} (bytes : Bytes)
    (hsums : sums.1 < 65521 ∧ sums.2 < 65521) :
    bytes.foldlM (recordChecksumStepU32 overflowChecks) sums =
      .ok (bytes.foldl recordChecksumStep sums) := by
  induction bytes generalizing sums with
  | nil => rfl
  | cons byte bytes ih =>
      rw [List.foldlM_cons, recordChecksumStepU32_eq overflowChecks byte hsums, ok_bind,
        ih (recordChecksumStep_lt sums byte), List.foldl_cons]

/-- No step of the checksum overflows. -/
theorem recordChecksumRangeU32_eq (overflowChecks : Bool) (record : Bytes) (first last : Nat) :
    recordChecksumRangeU32 overflowChecks record first last =
      .ok (recordChecksumRange record first last) := by
  have hsums := foldl_recordChecksumStep_lt (slice record first (last - first))
  rw [recordChecksumRangeU32, foldlM_recordChecksumStepU32 overflowChecks _ (by decide), ok_bind,
    mulU32_of_lt (by omega), ok_bind, addU32_of_lt (by omega)]
  rfl

/-! ## 3. Framed payloads -/

/-- The size field is the first four bytes of a record. -/
theorem decodeU32At_header (bytes : Bytes) (h : 4 ≤ bytes.length) :
    decodeU32At (slice bytes 0 4) 0 = decodeU32At bytes 0 := by
  simp [decodeU32At, decodeAt, slice, h, List.take_take]

/-- A payload between its size and some bytes. -/
def frame (payload sum : Bytes) : Bytes := toBigEndian 4 (payload.length + 8) ++ payload ++ sum

theorem frame_length {payload sum : Bytes} (hsum : sum.length = 4) :
    (frame payload sum).length = payload.length + 8 := by
  simp only [frame, List.length_append, toBigEndian_length]
  omega

section Frame

variable {payload sum : Bytes} (hlong : 13 ≤ payload.length) (hfits : payload.length + 8 < 2 ^ 32)
  (hsum : sum.length = 4)
include hlong hfits hsum

/-- The framed read of a payload, wherever it stands in the file. -/
theorem recordAt_frame (before after : Bytes) (fileLen : Nat) :
    recordAt (before ++ frame payload sum ++ after) before.length fileLen =
      if fileLen < before.length + 4 then .error (.indexCorrupt "truncated index WAL record header")
      else if fileLen < before.length + (payload.length + 8) then
        .error (.indexCorrupt "invalid index WAL record size")
      else if recordChecksum payload ≠ ofBigEndian sum then
        .error (.indexCorrupt "index WAL checksum mismatch")
      else .ok (frame payload sum) := by
  have hlen : (frame payload sum).length = payload.length + 8 := frame_length hsum
  have hrecord : slice (before ++ frame payload sum ++ after) before.length (payload.length + 8) =
      frame payload sum := by
    rw [← hlen]
    exact slice_middle before (frame payload sum) after
  have hsize : decodeU32At (frame payload sum) 0 = .ok (payload.length + 8) := by
    apply decodeAt_field [] (payload ++ sum)
    · rw [frame, List.nil_append, List.append_assoc]
    · rfl
    · exact hfits
  have hheader : preadContent (before ++ frame payload sum ++ after) before.length 4 =
      .ok (slice (frame payload sum) 0 4) := by
    rw [preadContent_of_le (by simp [hlen]; omega), slice_append_left _ _ _ _ (by simp [hlen]),
      slice_append_right _ _ _ _ (by simp), Nat.sub_self]
  have hread : preadContent (before ++ frame payload sum ++ after) before.length
      (payload.length + 8) = .ok (frame payload sum) := by
    rw [preadContent_of_le (by simp [hlen]), hrecord]
  have hstored : decodeU32At (frame payload sum) (payload.length + 4) = .ok (ofBigEndian sum) := by
    have hlast : slice (frame payload sum) (payload.length + 4) sum.length = sum := by
      apply slice_eq_middle (toBigEndian 4 (payload.length + 8) ++ payload) []
      · rw [List.append_nil, frame]
      · simp only [List.length_append, toBigEndian_length]
        omega
    rw [hsum] at hlast
    rw [decodeU32At, decodeAt, if_pos (by omega), hlast]
  have hcovered : recordChecksumRange (frame payload sum) 4 (payload.length + 4) =
      recordChecksum payload := by
    have hmiddle := slice_middle (toBigEndian 4 (payload.length + 8)) payload sum
    rw [toBigEndian_length] at hmiddle
    rw [recordChecksum, recordChecksumRange, recordChecksumRange, Nat.sub_zero, slice_all,
      Nat.add_sub_cancel, frame, hmiddle]
  by_cases hshort : fileLen < before.length + 4
  · rw [if_pos hshort, recordAt, throwIf_of (by omega), error_bind]
  · rw [if_neg hshort, recordAt, throwIf_of_not (by omega), ok_bind, hheader, ok_bind,
      decodeU32At_header _ (by omega), hsize, ok_bind]
    by_cases hcut : fileLen < before.length + (payload.length + 8)
    · rw [if_pos hcut, throwIf_of (by omega), error_bind]
    · rw [if_neg hcut, throwIf_of_not (by omega), ok_bind, hread, ok_bind, hsize, ok_bind,
        throwIf_of_not (by simp), ok_bind, hlen]
      dsimp only
      rw [show payload.length + 8 - 4 = payload.length + 4 by omega, hstored, ok_bind, hcovered]
      by_cases hne : recordChecksum payload ≠ ofBigEndian sum
      · rw [if_pos hne, throwIf_of hne, error_bind]
      · rw [if_neg hne, throwIf_of_not hne, ok_bind]
        rfl

end Frame

/-! ## 4. Damaged records -/

/-- `write` of a record of either kind. -/
def IndexRecord.write : IndexRecord → Except TableError Bytes
  | .insert r => r.write
  | .commit r => .ok r.write

theorem IndexRecord.write_ok {r : IndexRecord} {record : Bytes} (h : r.write = .ok record) :
    record = frame r.payload (toBigEndian 4 (recordChecksum r.payload)) ∧
      13 ≤ r.payload.length ∧ r.payload.length + 8 < 2 ^ 32 := by
  have hsize := r.payload_length
  have hlong := r.size_pos
  cases r with
  | insert r =>
      have hwrite : r.write = .ok record := h
      rw [InsertRecord.write_eq] at hwrite
      split at hwrite
      case isTrue hfits =>
          cases hwrite
          refine ⟨rfl, by omega, ?_⟩
          rw [hsize]
          exact hfits
      case isFalse => cases hwrite
  | commit r =>
      have hwrite : r.write = record := Except.ok.inj h
      rw [CommitRecord.write_eq] at hwrite
      refine ⟨hwrite.symm, by omega, ?_⟩
      rw [hsize]
      exact show 21 < 2 ^ 32 by decide

/-- Other bytes denote another number. -/
theorem ofBigEndian_set {bytes : Bytes} {i : Nat} {byte : UInt8} (hi : i < bytes.length)
    (hne : byte ≠ bytes[i]) : ofBigEndian (bytes.set i byte) ≠ ofBigEndian bytes := by
  intro heq
  have hset := toBigEndian_ofBigEndian (bytes.set i byte)
  rw [heq, List.length_set, toBigEndian_ofBigEndian] at hset
  have hbyte := congrArg (·[i]?) hset
  simp only [List.getElem?_set_self hi, List.getElem?_eq_getElem hi, Option.some.injEq] at hbyte
  exact hne hbyte.symm

/-- A byte behind the size lies in the payload or in the bytes behind it. -/
theorem frame_set {payload sum : Bytes} {position : Nat} (byte : UInt8) (h : 4 ≤ position) :
    (frame payload sum).set position byte =
      if position < payload.length + 4 then frame (payload.set (position - 4) byte) sum
      else frame payload (sum.set (position - (payload.length + 4)) byte) := by
  have hsplit : (frame payload sum).set position byte =
      toBigEndian 4 (payload.length + 8) ++ (payload ++ sum).set (position - 4) byte := by
    rw [frame, List.append_assoc, List.set_append, if_neg (by rw [toBigEndian_length]; omega),
      toBigEndian_length]
  rw [hsplit, List.set_append]
  by_cases hpayload : position < payload.length + 4
  · rw [if_pos (by omega), if_pos hpayload, frame, List.length_set, List.append_assoc]
  · rw [if_neg (by omega), if_neg hpayload, frame, List.append_assoc,
      show position - 4 - payload.length = position - (payload.length + 4) by omega]

/-- The byte at a place behind the size. -/
theorem frame_getElem? {payload sum : Bytes} {position : Nat} (h : 4 ≤ position) :
    (frame payload sum)[position]? =
      if position < payload.length + 4 then payload[position - 4]?
      else sum[position - (payload.length + 4)]? := by
  rw [frame, List.append_assoc, List.getElem?_append_right (by rw [toBigEndian_length]; omega),
    toBigEndian_length, List.getElem?_append]
  by_cases hpayload : position < payload.length + 4
  · rw [if_pos (by omega), if_pos hpayload]
  · rw [if_neg (by omega), if_neg hpayload,
      show position - 4 - payload.length = position - (payload.length + 4) by omega]

/-- A record with another byte behind its size does not hold the checksum of its payload. -/
theorem frame_damaged {payload : Bytes} {position : Nat} {byte : UInt8} (h : 4 ≤ position)
    (hlt : position < payload.length + 8)
    (hne : (frame payload (toBigEndian 4 (recordChecksum payload)))[position]? ≠ some byte) :
    ∃ payload' sum, (frame payload (toBigEndian 4 (recordChecksum payload))).set position byte =
        frame payload' sum ∧ payload'.length = payload.length ∧ sum.length = 4 ∧
      recordChecksum payload' ≠ ofBigEndian sum := by
  have hchecksum : recordChecksum payload < 256 ^ 4 := recordChecksumRange_lt _ _ _
  rw [frame_getElem? h] at hne
  rw [frame_set byte h]
  by_cases hpayload : position < payload.length + 4
  · have hi : position - 4 < payload.length := by omega
    rw [if_pos hpayload, List.getElem?_eq_getElem hi] at hne
    refine ⟨payload.set (position - 4) byte, toBigEndian 4 (recordChecksum payload), if_pos hpayload,
      List.length_set, toBigEndian_length _ _, ?_⟩
    rw [ofBigEndian_toBigEndian_of_lt hchecksum]
    exact recordChecksum_set hi fun heq ↦ hne (by rw [heq])
  · have hi : position - (payload.length + 4) < (toBigEndian 4 (recordChecksum payload)).length := by
      rw [toBigEndian_length]
      omega
    rw [if_neg hpayload, List.getElem?_eq_getElem hi] at hne
    refine ⟨payload, (toBigEndian 4 (recordChecksum payload)).set (position - (payload.length + 4)) byte,
      if_neg hpayload, rfl, by rw [List.length_set, toBigEndian_length], ?_⟩
    have hother : ofBigEndian ((toBigEndian 4 (recordChecksum payload)).set _ byte) ≠ _ :=
      ofBigEndian_set hi fun heq ↦ hne (by rw [heq])
    rw [ofBigEndian_toBigEndian_of_lt hchecksum] at hother
    exact hother.symm

/-- With one byte of its payload or of its checksum changed, a written record is refused wherever it
stands in the index WAL, as one whose checksum is wrong if the file holds all of it; and the checksum
of no payload leaves `u32`. -/
theorem recordChecksum_detects :
    (∀ (r : IndexRecord) (record : Bytes) (position : Nat) (byte : UInt8) (t : Table)
      (before after : Bytes) (fileLen : Nat),
      r.write = .ok record → 4 ≤ position → position < record.length →
      record[position]? ≠ some byte →
      t.indexLog.content = before ++ record.set position byte ++ after →
      ∃ message,
        (t.call .none (readIndexRecordAt before.length fileLen)).result = .error (.indexCorrupt message) ∧
        (before.length + record.length ≤ fileLen → message = "index WAL checksum mismatch")) ∧
    ∀ (overflowChecks : Bool) (payload : Bytes),
      recordChecksumRangeU32 overflowChecks payload 0 payload.length = .ok (recordChecksum payload) := by
  constructor
  · intro r record position byte t before after fileLen hwrite hposition hlt hne hcontent
    have ⟨hrecord, hlong, hfits⟩ := IndexRecord.write_ok hwrite
    have hlen : record.length = r.payload.length + 8 := by
      rw [hrecord, frame_length (toBigEndian_length _ _)]
    rw [hlen] at hlt
    rw [hrecord] at hne hcontent
    have ⟨payload, sum, hset, hpayload, hsum, hmismatch⟩ := frame_damaged hposition hlt hne
    rw [(readIndexRecordAt_reads before.length fileLen).result, hcontent, hset,
      recordAt_frame (by omega) (by omega) hsum, hpayload, hlen]
    by_cases hshort : fileLen < before.length + 4
    · exact ⟨_, if_pos hshort, fun hfile ↦ by omega⟩
    · rw [if_neg hshort]
      by_cases hcut : fileLen < before.length + (r.payload.length + 8)
      · exact ⟨_, if_pos hcut, fun hfile ↦ by omega⟩
      · rw [if_neg hcut]
        exact ⟨_, if_pos hmismatch, fun _ ↦ rfl⟩
  · intro overflowChecks payload
    exact recordChecksumRangeU32_eq overflowChecks payload 0 payload.length

/-- A marker whose kind was overwritten. -/
theorem recordChecksum_detects_marker : ∃ message,
    (((⟨.ofBytes [], .ofBytes ((CommitRecord.write ⟨1, 2⟩).set 4 7), initialState⟩ : Table).call .none
      (readIndexRecordAt 0 21)).result = .error (.indexCorrupt message)) ∧
    (0 + 21 ≤ 21 → message = "index WAL checksum mismatch") :=
  recordChecksum_detects.1 (.commit ⟨1, 2⟩) (CommitRecord.write ⟨1, 2⟩) 4 7
    ⟨.ofBytes [], .ofBytes ((CommitRecord.write ⟨1, 2⟩).set 4 7), initialState⟩ [] [] 21 rfl (by decide)
    (by decide) (by decide) (by rw [List.nil_append, List.append_nil]; rfl)

end Stainless.Kvstore
