import Stainless.Kvstore.Log

/-!
# Record framing

The byte strings that `read_index_record_at` lets through, and what the two readers make of them: a
record that is read is the encoding of what is read.
-/

open Reasoning

namespace Stainless.Kvstore

/-! ## 1. Inverting the readers -/

theorem bind_ok {α β : Type} {x : Except TableError α} {f : α → Except TableError β} {b : β} :
    (x >>= f) = .ok b ↔ ∃ a, x = .ok a ∧ f a = .ok b := by
  cases x with
  | error e => simp [error_bind]
  | ok a => simp [ok_bind]

theorem throwIf_ok {c : Prop} [Decidable c] {e : TableError} {u : Unit} :
    throwIf (m := Except TableError) c e = .ok u ↔ ¬c := by
  by_cases hc : c
  · rw [throwIf_of hc]
    simp [hc]
  · rw [throwIf_of_not hc]
    simp [hc]

theorem decodeAt_ok {width : Nat} {message : String} {bytes : Bytes} {offset n : Nat} :
    decodeAt width message bytes offset = .ok n ↔
      offset + width ≤ bytes.length ∧ n < 256 ^ width ∧
        slice bytes offset width = toBigEndian width n := by
  by_cases hfits : offset + width ≤ bytes.length
  · have hlen := slice_length bytes offset width hfits
    have hlt := ofBigEndian_lt (slice bytes offset width)
    have hback := toBigEndian_ofBigEndian (slice bytes offset width)
    rw [hlen] at hlt hback
    rw [decodeAt, if_pos hfits, Except.ok.injEq]
    constructor
    · rintro rfl
      exact ⟨hfits, hlt, hback.symm⟩
    · rintro ⟨-, hn, hslice⟩
      rw [hslice, ofBigEndian_toBigEndian_of_lt hn]
  · simp [decodeAt, hfits]

theorem preadContent_ok {content bytes : Bytes} {offset length : Nat} (hpos : 0 < length) :
    preadContent content offset length = .ok bytes ↔
      offset + length ≤ content.length ∧ slice content offset length = bytes := by
  rw [preadContent, if_neg (by omega)]
  by_cases hfits : offset + length ≤ content.length
  · simp [hfits]
  · simp [hfits]

theorem indexRecordKind_ok {record : Bytes} {kind : RecordKind} :
    indexRecordKind record = .ok kind ↔ slice record 4 1 = [kind.toByte] := by
  rw [indexRecordKind, bind_ok]
  constructor
  · rintro ⟨byte, hbyte, hkind⟩
    obtain ⟨-, -, hslice⟩ := decodeAt_ok.mp hbyte
    rw [hslice]
    simp only [toBigEndian, List.nil_append, List.cons.injEq, and_true]
    generalize UInt8.ofNat byte = b at hkind
    by_cases h0 : b = 0
    · subst h0
      cases hkind
      rfl
    · by_cases h1 : b = 1
      · subst h1
        cases hkind
        rfl
      · simp [RecordKind.ofByte?, h0, h1] at hkind
  · intro hslice
    have hlen := congrArg List.length hslice
    simp only [slice, List.length_take, List.length_drop, List.length_singleton] at hlen
    refine ⟨kind.toByte.toNat, decodeAt_ok.mpr ⟨by omega, kind.toByte.toNat_lt, ?_⟩, ?_⟩
    · rw [hslice]
      simp [toBigEndian]
    · cases kind with
      | insert => rfl
      | commit => rfl

/-! ## 2. Framed records -/

/-- A record whose first field is its length and whose last is the checksum of what lies between. -/
structure Framed (record : Bytes) : Prop where
  long : 21 ≤ record.length
  fits : record.length < 2 ^ 32
  size : slice record 0 4 = toBigEndian 4 record.length
  checksum : slice record (record.length - 4) 4 =
    toBigEndian 4 (recordChecksumRange record 4 (record.length - 4))

/-- The read lets exactly the framed records through that lie whole in the file. -/
theorem recordAt_ok {content record : Bytes} {start fileLen : Nat} :
    recordAt content start fileLen = .ok record ↔
      Framed record ∧ slice content start record.length = record ∧
        start + record.length ≤ content.length ∧ start + record.length ≤ fileLen := by
  simp only [recordAt, bind_ok, throwIf_ok, exists_const, decodeU32At, decodeAt_ok]
  constructor
  · rintro ⟨hstart, header, hheader, size, ⟨-, hlt, hsize⟩, hbounds, read, hread, framed,
      ⟨-, -, hframe⟩, hsame, sum, ⟨-, -, hsum⟩, hchecksum, hok⟩
    obtain rfl : read = record := Except.ok.inj hok
    obtain ⟨hwhole, hslice⟩ := (preadContent_ok (by omega)).mp hread
    have hlen : read.length = size := by
      rw [← hslice, slice_length _ _ _ hwhole]
    rw [not_not] at hsame hchecksum
    subst hsame hchecksum hlen
    exact ⟨⟨by omega, by simpa using hlt, hframe, hsum⟩, hslice, hwhole, by omega⟩
  · rintro ⟨hframed, hslice, hwhole, hfile⟩
    have hlong := hframed.long
    have hfits : record.length < 256 ^ 4 := by simpa using hframed.fits
    have hheader : slice (slice content start 4) 0 4 = toBigEndian 4 record.length := by
      have hsame : slice (slice content start record.length) 0 4 = slice content (start + 0) 4 :=
        slice_slice _ (by omega)
      rw [hslice, hframed.size] at hsame
      rw [hsame, slice_slice _ (by omega)]
    have hheaderLen := slice_length content start 4 (by omega)
    exact ⟨by omega, slice content start 4, (preadContent_ok (by omega)).mpr ⟨by omega, rfl⟩,
      record.length, ⟨by omega, hfits, hheader⟩, by omega, record,
      (preadContent_ok (by omega)).mpr ⟨hwhole, hslice⟩, record.length,
      ⟨by omega, hfits, hframed.size⟩, not_not.mpr rfl,
      recordChecksumRange record 4 (record.length - 4),
      ⟨by omega, recordChecksumRange_lt _ _ _, hframed.checksum⟩, not_not.mpr rfl, rfl⟩

theorem IndexRecord.framed {r : IndexRecord} (hv : r.Valid) : Framed r.encode := by
  have hread : recordAt r.encode (logSize []) r.size = .ok r.encode :=
    recordAt_encode hv (by simp) (by simp)
  exact (recordAt_ok.mp hread).1

/-- A frame around a payload. -/
theorem Framed.eq_encode {record : Bytes} (h : Framed record) {r : IndexRecord}
    (hp : slice record 4 (record.length - 8) = r.payload) : record = r.encode := by
  have hlong := h.long
  have hlen := slice_length record 4 (record.length - 8) (by omega)
  rw [hp] at hlen
  have hsum : recordChecksumRange record 4 (record.length - 4) = recordChecksum r.payload := by
    rw [recordChecksum, recordChecksumRange, recordChecksumRange, Nat.sub_zero, slice_all, ← hp]
    congr 2
  have hsize : r.payload.length + 8 = record.length := by omega
  calc record
      = slice record 0 4 ++ slice record 4 (record.length - 8) ++ slice record (record.length - 4) 4 := by
        rw [show record.length - 4 = 0 + (4 + (record.length - 8)) by omega]
        rw [show slice record 4 (record.length - 8) = slice record (0 + 4) (record.length - 8) by simp,
          slice_glue, slice_glue, show 4 + (record.length - 8) + 4 = record.length by omega, slice_all]
    _ = r.encode := by
        rw [h.size, hp, h.checksum, hsum, IndexRecord.encode, hsize]

/-! ## 3. What the readers decode -/

/-- The field of `width` bytes at `offset`, and the rest of the record behind it. -/
private theorem slice_field {record : Bytes} {offset width n : Nat} (rest : Nat)
    (h : slice record offset width = toBigEndian width n) :
    slice record offset (width + rest) = toBigEndian width n ++ slice record (offset + width) rest := by
  rw [← slice_glue, h]

theorem addU64_ok {overflowChecks : Bool} {left right sum : Nat}
    (h : addU64 overflowChecks left right = .ok sum) : sum = (left + right) % 2 ^ 64 := by
  by_cases hfits : left + right < 2 ^ 64
  · rw [addU64, if_pos hfits] at h
    rw [Nat.mod_eq_of_lt hfits]
    exact (Except.ok.inj h).symm
  · rw [addU64, if_neg hfits] at h
    cases overflowChecks with
    | true => cases h
    | false => exact (Except.ok.inj h).symm

/-- What is read from a framed record is what the record encodes. -/
theorem InsertRecord.readChecked_ok {overflowChecks : Bool} {record : Bytes} {r : InsertRecord}
    (hframed : Framed record) (h : InsertRecord.readChecked overflowChecks record = .ok r) :
    record = (IndexRecord.insert r).encode ∧ (IndexRecord.insert r).Valid := by
  have hfits := hframed.fits
  simp only [readChecked, bind_ok, throwIf_ok, exists_const, decodeU32At, decodeU64At, decodeAt_ok,
    indexRecordKind_ok] at h
  obtain ⟨size, -, kind, hkind, hguard, keyLength, ⟨-, hlt, hkeyLength⟩, expected, hadd, hexpected,
    last, hlast, key, hkey, version, ⟨-, hversionLt, hversion⟩, offset, ⟨-, hoffsetLt, hoffset⟩,
    length, ⟨-, hlengthLt, hlength⟩, hr⟩ := h
  obtain ⟨rfl, hlong, rfl⟩ : kind = .insert ∧ 33 ≤ size ∧ size = record.length := by
    simpa only [not_or, not_not, not_lt, ne_eq] using hguard
  -- a wrapped sum is below 33, so the length field is the length of the key
  have hsum := addU64_ok hadd
  have hkeyLen : record.length = 33 + keyLength := by omega
  obtain rfl : record.length - 4 = last := by
    rw [subUsize, if_pos (by omega)] at hlast
    exact Except.ok.inj hlast
  obtain rfl : slice record 29 keyLength = key := by
    rw [copyRange, if_pos (by omega), show record.length - 4 - 29 = keyLength by omega] at hkey
    exact Except.ok.inj hkey
  have hlen := slice_length record 29 keyLength (by omega)
  obtain rfl := Except.ok.inj hr
  refine ⟨hframed.eq_encode ?_, ?_⟩
  · have hnat : (UInt32.ofNat version).toNat = version := by
      rw [UInt32.toNat_ofNat']
      omega
    rw [show record.length - 8 = 1 + (4 + (8 + (4 + (8 + keyLength)))) by omega, ← slice_glue, hkind,
      slice_field _ hversion, slice_field _ hoffset, slice_field _ hlength, slice_field _ hkeyLength]
    simp only [IndexRecord.payload, InsertRecord.payload, hnat, hlen, List.append_assoc,
      List.cons_append, List.nil_append]
  · show 33 + (slice record 29 keyLength).length < 2 ^ 32 ∧ offset < 2 ^ 64 ∧ length < 2 ^ 32
    omega

theorem CommitRecord.read_ok {record : Bytes} {c : CommitRecord} (hframed : Framed record)
    (h : CommitRecord.read record = .ok c) :
    record = (IndexRecord.commit c).encode ∧ (IndexRecord.commit c).Valid := by
  simp only [read, bind_ok, throwIf_ok, exists_const, decodeU32At, decodeU64At, decodeAt_ok,
    indexRecordKind_ok] at h
  obtain ⟨hlen, size, -, -, kind, hkind, hguard, version, ⟨-, hversionLt, hversion⟩, dataLen,
    ⟨-, hdataLenLt, hdataLen⟩, hc⟩ := h
  rw [not_not] at hlen hguard
  subst hguard
  obtain rfl := Except.ok.inj hc
  refine ⟨hframed.eq_encode ?_, show dataLen < 2 ^ 64 by omega⟩
  have hnat : (UInt32.ofNat version).toNat = version := by
    rw [UInt32.toNat_ofNat']
    omega
  have hpayload : slice record 4 13 = slice record 4 1 ++ (slice record 5 4 ++ slice record 9 8) := by
    rw [slice_glue, slice_glue]
  rw [hlen, hpayload, hkind, hversion, hdataLen]
  simp only [IndexRecord.payload, CommitRecord.payload, hnat, List.cons_append, List.nil_append]

theorem InsertRecord.readChecked_kind {overflowChecks : Bool} {record : Bytes} {r : InsertRecord}
    (h : InsertRecord.readChecked overflowChecks record = .ok r) :
    indexRecordKind record = .ok .insert := by
  simp only [readChecked, bind_ok, throwIf_ok, exists_const] at h
  obtain ⟨size, -, kind, hkind, hguard, -⟩ := h
  rw [not_or, not_not] at hguard
  rw [hkind, hguard.1]

theorem CommitRecord.read_kind {record : Bytes} {c : CommitRecord}
    (h : CommitRecord.read record = .ok c) : indexRecordKind record = .ok .commit := by
  simp only [read, bind_ok, throwIf_ok, exists_const] at h
  obtain ⟨-, size, -, -, kind, hkind, hguard, -⟩ := h
  rw [not_not] at hguard
  rw [hkind, hguard]

/-! ## 4. What the readers refuse -/

/-- A call of a reader that comes back: it returns or throws `IndexCorrupt`. -/
def NoPanic {α : Type} : Except TableError α → Prop
  | .ok _ => True
  | .error (.indexCorrupt _) => True
  | .error _ => False

instance NoPanic.decidable {α : Type} : (x : Except TableError α) → Decidable (NoPanic x)
  | .ok _ => .isTrue trivial
  | .error (.indexCorrupt _) => .isTrue trivial
  | .error .io => .isFalse id
  | .error (.valueTooLarge _) => .isFalse id
  | .error (.panicked _) => .isFalse id

theorem NoPanic.bind {α β : Type} {x : Except TableError α} {f : α → Except TableError β}
    (hx : NoPanic x) (hf : ∀ a, x = .ok a → NoPanic (f a)) : NoPanic (x >>= f) := by
  cases x with
  | ok a => exact hf a rfl
  | error e =>
      cases e with
      | indexCorrupt message => trivial
      | io => exact hx
      | valueTooLarge message => exact hx
      | panicked message => exact hx

theorem NoPanic.of_bind {α β : Type} {x : Except TableError α} {f : α → Except TableError β}
    (h : NoPanic (x >>= f)) : NoPanic x := by
  cases x with
  | ok a => trivial
  | error e =>
      cases e with
      | indexCorrupt message => trivial
      | io => exact h
      | valueTooLarge message => exact h
      | panicked message => exact h

theorem NoPanic.cases {α : Type} {x : Except TableError α} (h : NoPanic x) :
    (∃ a, x = .ok a) ∨ ∃ message, x = .error (.indexCorrupt message) := by
  cases x with
  | ok a => exact .inl ⟨a, rfl⟩
  | error e =>
      cases e with
      | indexCorrupt message => exact .inr ⟨message, rfl⟩
      | io => exact h.elim
      | valueTooLarge message => exact h.elim
      | panicked message => exact h.elim

theorem NoPanic.throwIf {c : Prop} [Decidable c] {message : String} :
    NoPanic (Kvstore.throwIf (m := Except TableError) c (.indexCorrupt message)) := by
  by_cases hc : c
  · rw [throwIf_of hc]
    trivial
  · rw [throwIf_of_not hc]
    trivial

theorem NoPanic.decodeAt {width : Nat} {message : String} {bytes : Bytes} {offset : Nat} :
    NoPanic (Kvstore.decodeAt width message bytes offset) := by
  by_cases hfits : offset + width ≤ bytes.length
  · rw [Kvstore.decodeAt, if_pos hfits]
    trivial
  · rw [Kvstore.decodeAt, if_neg hfits]
    trivial

theorem NoPanic.indexRecordKind {record : Bytes} : NoPanic (Kvstore.indexRecordKind record) := by
  apply NoPanic.decodeAt.bind
  intro byte _
  cases RecordKind.ofByte? (UInt8.ofNat byte) with
  | some kind => trivial
  | none => trivial

theorem CommitRecord.read_noPanic (record : Bytes) : NoPanic (CommitRecord.read record) :=
  NoPanic.throwIf.bind fun _ _ ↦ NoPanic.decodeAt.bind fun _ _ ↦ NoPanic.throwIf.bind fun _ _ ↦
    NoPanic.indexRecordKind.bind fun _ _ ↦ NoPanic.throwIf.bind fun _ _ ↦
    NoPanic.decodeAt.bind fun _ _ ↦ NoPanic.decodeAt.bind fun _ _ ↦ trivial

/-- An insert record whose field for the key length does not make `33 + key_length` overflow. -/
def KeyLengthFits (record : Bytes) : Prop :=
  slice record 4 1 = [RecordKind.insert.toByte] → 33 ≤ record.length →
    33 + ofBigEndian (slice record 21 8) < 2 ^ 64

instance (record : Bytes) : Decidable (KeyLengthFits record) :=
  inferInstanceAs (Decidable (_ → _ → _))

/-- The reader panics on a framed record exactly when the checked sum overflows. -/
theorem InsertRecord.readChecked_noPanic {overflowChecks : Bool} {record : Bytes}
    (hframed : Framed record) :
    NoPanic (InsertRecord.readChecked overflowChecks record) ↔
      (overflowChecks = true → KeyLengthFits record) := by
  have hsize : decodeU32At record 0 = .ok record.length :=
    decodeAt_ok.mpr ⟨by have := hframed.long; omega, by simpa using hframed.fits, hframed.size⟩
  rw [readChecked, hsize, ok_bind]
  constructor
  · intro h hchecks hkind hlong
    rw [indexRecordKind_ok.mpr hkind, ok_bind, throwIf_of_not (by simpa using hlong), ok_bind,
      decodeU64At, Kvstore.decodeAt, if_pos (by omega), ok_bind] at h
    by_contra hover
    rw [addU64, if_neg hover, hchecks] at h
    exact h
  · intro hfits
    apply NoPanic.indexRecordKind.bind
    intro kind hkind
    apply NoPanic.throwIf.bind
    intro _ hguard
    have hguard := throwIf_ok.mp hguard
    simp only [not_or, not_not, not_lt, ne_eq] at hguard
    obtain ⟨rfl, hlong, -⟩ := hguard
    apply NoPanic.decodeAt.bind
    intro keyLength hkeyLength
    obtain ⟨-, hlt, hslice⟩ := decodeAt_ok.mp hkeyLength
    have hfits : overflowChecks = true → 33 + keyLength < 2 ^ 64 := by
      intro hchecks
      have h := hfits hchecks (indexRecordKind_ok.mp hkind) hlong
      rwa [hslice, ofBigEndian_toBigEndian_of_lt hlt] at h
    have hadd : NoPanic (addU64 overflowChecks 33 keyLength) := by
      by_cases hover : 33 + keyLength < 2 ^ 64
      · rw [addU64, if_pos hover]
        trivial
      · cases overflowChecks with
        | true => exact absurd (hfits rfl) hover
        | false =>
            rw [addU64, if_neg hover]
            trivial
    apply hadd.bind
    intro expected _
    apply NoPanic.throwIf.bind
    intro _ _
    -- `33 ≤ record.len()` keeps the copied range inside the record
    rw [subUsize, if_pos (by omega), ok_bind, copyRange, if_pos (by omega), ok_bind]
    exact NoPanic.decodeAt.bind fun _ _ ↦ NoPanic.decodeAt.bind fun _ _ ↦
      NoPanic.decodeAt.bind fun _ _ ↦ trivial

/-- Without an overflow the checks change nothing. -/
theorem InsertRecord.readChecked_eq_read {overflowChecks : Bool} {record : Bytes}
    (h : overflowChecks = true → KeyLengthFits record) :
    InsertRecord.readChecked overflowChecks record = InsertRecord.read record := by
  rw [readChecked, read]
  cases hsize : decodeU32At record 0 with
  | error e => rfl
  | ok size =>
      rw [ok_bind, ok_bind]
      cases hkind : indexRecordKind record with
      | error e => rfl
      | ok kind =>
          rw [ok_bind, ok_bind]
          by_cases hguard : kind ≠ .insert ∨ size < 33 ∨ size ≠ record.length
          · rw [throwIf_of hguard, error_bind, error_bind]
          · rw [throwIf_of_not hguard, ok_bind, ok_bind]
            simp only [not_or, not_not, not_lt, ne_eq] at hguard
            obtain ⟨rfl, hlong, rfl⟩ := hguard
            cases hkeyLength : decodeU64At record 21 with
            | error e => rfl
            | ok keyLength =>
                obtain ⟨-, hlt, hslice⟩ := decodeAt_ok.mp hkeyLength
                have hfits := decodeAt_ok.mp hsize
                rw [ok_bind, ok_bind]
                have hadd : addU64 overflowChecks 33 keyLength =
                    .ok ((33 + keyLength) % 2 ^ 64) := by
                  by_cases hover : 33 + keyLength < 2 ^ 64
                  · rw [addU64, if_pos hover, Nat.mod_eq_of_lt hover]
                  · cases overflowChecks with
                    | true =>
                        have hover' := h rfl (indexRecordKind_ok.mp hkind) hlong
                        rw [hslice, ofBigEndian_toBigEndian_of_lt hlt] at hover'
                        exact absurd hover' hover
                    | false => rw [addU64, if_neg hover, if_neg Bool.false_ne_true]
                rw [hadd, ok_bind]
                by_cases hsum : record.length ≠ 33 + keyLength
                · rw [throwIf_of hsum, throwIf_of (by omega), error_bind, error_bind]
                · rw [throwIf_of_not hsum, throwIf_of_not (by omega), ok_bind, ok_bind, subUsize,
                    if_pos (by omega), ok_bind, copyRange, if_pos (by omega), ok_bind]

theorem InsertRecord.readChecked_false (record : Bytes) :
    InsertRecord.readChecked false record = InsertRecord.read record :=
  readChecked_eq_read (fun h ↦ absurd h Bool.false_ne_true)

theorem keyLengthFits_of_read {record : Bytes} {r : InsertRecord}
    (h : InsertRecord.read record = .ok r) : KeyLengthFits record := by
  simp only [InsertRecord.read, bind_ok, throwIf_ok, exists_const, decodeU32At, decodeU64At,
    decodeAt_ok] at h
  obtain ⟨size, ⟨-, hlt, -⟩, -, -, -, keyLength, ⟨-, hkeyLt, hslice⟩, hsum, -⟩ := h
  intro _ _
  rw [hslice, ofBigEndian_toBigEndian_of_lt hkeyLt]
  omega

theorem InsertRecord.readChecked_encode (overflowChecks : Bool) {r : InsertRecord}
    (hv : (IndexRecord.insert r).Valid) :
    InsertRecord.readChecked overflowChecks (IndexRecord.insert r).encode = .ok r := by
  have hread := InsertRecord.read_encode r hv
  rw [readChecked_eq_read fun _ ↦ keyLengthFits_of_read hread, hread]

/-! ## 5. Writing and reading -/

/-- The bytes are what the framed read returns wherever they stand in the index WAL. -/
def ReadBack (record : Bytes) : Prop :=
  ∀ (t : Table) (before after : Bytes) (fileLen : Nat),
    t.indexLog.content = before ++ record ++ after → before.length + record.length ≤ fileLen →
    (t.call .none (readIndexRecordAt before.length fileLen)).result = .ok record

theorem Framed.readBack {record : Bytes} (h : Framed record) : ReadBack record := by
  intro t before after fileLen hcontent hfile
  rw [(readIndexRecordAt_reads before.length fileLen).result, recordAt_ok, hcontent]
  refine ⟨h, slice_middle before record after, ?_, hfile⟩
  simp only [List.length_append]
  omega

/-- What is written is read back wherever it stands, what is read is the encoding of what it is read
as, under one reader only; and both readers return or throw `IndexCorrupt`, without an overflow, if
and only if the key length of the record is one that `33 + key_length` can hold. -/
theorem index_records_codec (overflowChecks : Bool) :
    (∀ r : InsertRecord, (IndexRecord.insert r).Valid → ∃ record, r.write = .ok record ∧
      InsertRecord.readChecked overflowChecks record = .ok r ∧ ReadBack record) ∧
    (∀ c : CommitRecord, (IndexRecord.commit c).Valid →
      CommitRecord.read c.write = .ok c ∧ ReadBack c.write) ∧
    ∀ (t : Table) (start fileLen : Nat) (record : Bytes),
      (t.call .none (readIndexRecordAt start fileLen)).result = .ok record →
      (∀ r, InsertRecord.readChecked overflowChecks record = .ok r → r.write = .ok record) ∧
      (∀ c, CommitRecord.read record = .ok c → c.write = record) ∧
      (∀ r c, ¬(InsertRecord.readChecked overflowChecks record = .ok r ∧
        CommitRecord.read record = .ok c)) ∧
      (NoPanic (InsertRecord.readChecked true record) ∧ NoPanic (CommitRecord.read record) ↔
        KeyLengthFits record) := by
  refine ⟨fun r hv ↦ ?_, fun c hv ↦ ?_, fun t start fileLen record hrecord ↦ ?_⟩
  · exact ⟨(IndexRecord.insert r).encode, by rw [InsertRecord.write_eq, if_pos hv.1],
      InsertRecord.readChecked_encode overflowChecks hv, (IndexRecord.framed hv).readBack⟩
  · rw [CommitRecord.write_eq]
    exact ⟨CommitRecord.read_encode c hv, (IndexRecord.framed hv).readBack⟩
  · rw [(readIndexRecordAt_reads start fileLen).result, recordAt_ok] at hrecord
    have hframed := hrecord.1
    refine ⟨fun r hr ↦ ?_, fun c hc ↦ ?_, fun r c ⟨hr, hc⟩ ↦ ?_, ?_⟩
    · obtain ⟨rfl, hv⟩ := InsertRecord.readChecked_ok hframed hr
      rw [InsertRecord.write_eq, if_pos hv.1]
    · obtain ⟨rfl, -⟩ := CommitRecord.read_ok hframed hc
      exact CommitRecord.write_eq c
    · have hkind := InsertRecord.readChecked_kind hr
      rw [CommitRecord.read_kind hc] at hkind
      cases hkind
    · rw [InsertRecord.readChecked_noPanic hframed]
      have hcommit := CommitRecord.read_noPanic record
      constructor
      · exact fun h ↦ h.1 rfl
      · exact fun h ↦ ⟨fun _ ↦ h, hcommit⟩

/-- A framed insert record of 33 bytes that names the greatest key length. -/
def overflowingRecord : Bytes :=
  let payload := RecordKind.insert.toByte :: (toBigEndian 16 0 ++ toBigEndian 8 (2 ^ 64 - 1))
  toBigEndian 4 33 ++ payload ++ toBigEndian 4 (recordChecksum payload)

theorem index_records_codec_fails :
    ((⟨.ofBytes [], .ofBytes overflowingRecord, initialState⟩ : Table).call .none
      (readIndexRecordAt 0 33)).result = .ok overflowingRecord ∧
    InsertRecord.readChecked true overflowingRecord =
      .error (.panicked "attempt to add with overflow") := by
  constructor
  · rw [(readIndexRecordAt_reads 0 33).result]
    decide +kernel
  · decide +kernel

/-- A marker at the start of the index WAL. -/
theorem index_records_codec_marker :
    CommitRecord.read (CommitRecord.write ⟨1, 2⟩) = .ok ⟨1, 2⟩ ∧
      CommitRecord.write ⟨1, 2⟩ = (IndexRecord.commit ⟨1, 2⟩).encode :=
  ⟨((index_records_codec true).2.1 ⟨1, 2⟩ (show 2 < 2 ^ 64 by decide)).1, CommitRecord.write_eq _⟩

end Stainless.Kvstore
