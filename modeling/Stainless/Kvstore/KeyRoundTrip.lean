import Stainless.Kvstore.KeyCodec

/-!
# Keys are read back

A codec reads what it wrote wherever it stands, and reads nothing else.  The law passes from the
elements to the vectors.
-/

open Reasoning

namespace Stainless.Kvstore

/-- The codec reads its encodings in front of anything, and what it reads is an encoding. -/
structure KeyCodec.Lawful {T : Type} (codec : KeyCodec T) : Prop where
  valid : ∀ value, (codec.encode value).valid = true
  decode_encode : ∀ value before after,
    codec.decode (before ++ (codec.encode value).bytes ++ after) before.length =
      ⟨true, before.length + (codec.encode value).bytes.length, value⟩
  encode_decode : ∀ bytes offset next value, codec.decode bytes offset = ⟨true, next, value⟩ →
    offset ≤ next ∧ next ≤ bytes.length ∧
      slice bytes offset (next - offset) = (codec.encode value).bytes

/-! ## 1. Integers -/

namespace Codecs

theorem fixedKey_lawful {T : Type} {width : Nat} {toNat : T → Nat} {ofNat : Nat → T}
    (hlt : ∀ value, toNat value < 256 ^ width) (hback : ∀ value, ofNat (toNat value) = value)
    (hfield : ∀ n < 256 ^ width, toNat (ofNat n) = n) : (fixedKey width toNat ofNat).Lawful where
  valid _ := rfl
  decode_encode value before after := by
    have hslice := slice_middle before (toBigEndian width (toNat value)) after
    rw [toBigEndian_length] at hslice
    have hfits : before.length + width ≤ (before ++ toBigEndian width (toNat value) ++ after).length := by
      simp only [List.length_append, toBigEndian_length]
      omega
    simp only [fixedKey, decodeFixedAt, if_pos hfits, hslice,
      ofBigEndian_toBigEndian_of_lt (hlt value), hback, toBigEndian_length]
  encode_decode bytes offset next value h := by
    by_cases hfits : offset + width ≤ bytes.length
    · simp only [fixedKey, decodeFixedAt, if_pos hfits, DecodedAt.mk.injEq, true_and] at h
      obtain ⟨rfl, rfl⟩ := h
      have hlen := slice_length bytes offset width hfits
      have hnum := ofBigEndian_lt (slice bytes offset width)
      have hbytes := toBigEndian_ofBigEndian (slice bytes offset width)
      rw [hlen] at hnum hbytes
      refine ⟨by omega, hfits, ?_⟩
      rw [Nat.add_sub_cancel_left]
      simp only [fixedKey, hfield _ hnum, hbytes]
    · simp [fixedKey, decodeFixedAt, if_neg hfits] at h

theorem u8Key_lawful : u8Key.Lawful :=
  fixedKey_lawful UInt8.toNat_lt (fun _ ↦ UInt8.ofNat_toNat) fun _ h ↦
    UInt8.toNat_ofNat_of_lt' h

theorem u16Key_lawful : u16Key.Lawful :=
  fixedKey_lawful UInt16.toNat_lt (fun _ ↦ UInt16.ofNat_toNat) fun _ h ↦
    UInt16.toNat_ofNat_of_lt' h

theorem u32Key_lawful : u32Key.Lawful :=
  fixedKey_lawful UInt32.toNat_lt (fun _ ↦ UInt32.ofNat_toNat) fun _ h ↦
    UInt32.toNat_ofNat_of_lt' h

theorem u64Key_lawful : u64Key.Lawful :=
  fixedKey_lawful UInt64.toNat_lt (fun _ ↦ UInt64.ofNat_toNat) fun _ h ↦
    UInt64.toNat_ofNat_of_lt' h

theorem u128Key_lawful : u128Key.Lawful :=
  fixedKey_lawful BitVec.isLt
    (fun v ↦ BitVec.eq_of_toNat_eq (by rw [BitVec.toNat_ofNat, Nat.mod_eq_of_lt v.isLt]))
    fun n h ↦ by rw [BitVec.toNat_ofNat, Nat.mod_eq_of_lt (by omega)]

end Codecs

/-! ## 2. Scanning an encoding -/

namespace Scan

variable {T : Type} {mark : UInt8 → Scan T → Scan T} {offset : Nat}

/-- In front of the offset the scan only counts. -/
theorem foldl_skip (before : Bytes) (s : Scan T) (h : s.position + before.length ≤ offset) :
    before.foldl (step mark offset) s = { s with position := s.position + before.length } := by
  induction before generalizing s with
  | nil => rfl
  | cons byte before ih =>
      rw [List.length_cons] at h
      have hstep : step mark offset s byte = { s with position := s.position + 1 } := by
        rw [step, if_neg (by omega)]
      rw [List.foldl_cons, hstep, ih _ (show s.position + 1 + before.length ≤ offset by omega),
        List.length_cons, Nat.add_comm before.length, Nat.add_assoc]

/-- Behind the end of the string it only counts, too. -/
theorem foldl_finished (after : Bytes) (s : Scan T) (h : s.finished = true) :
    after.foldl (step mark offset) s = { s with position := s.position + after.length } := by
  induction after generalizing s with
  | nil => rfl
  | cons byte after ih =>
      have hstep : step mark offset s byte = { s with position := s.position + 1 } := by
        rw [step, if_neg (by simp [h])]
      rw [List.foldl_cons, hstep, ih { s with position := s.position + 1 } h, List.length_cons,
        Nat.add_comm after.length, Nat.add_assoc]

/-- The scan inside a string, in front of a byte that is not escaped. -/
def ready (position next : Nat) (values : List T) (element : Bytes) : Scan T where
  position := position
  next := next
  escaped := false
  finished := false
  valid := true
  values := values
  element := element

theorem foldl_escapeByte {position : Nat} (h : offset ≤ position) (next : Nat) (values : List T)
    (element : Bytes) (byte : UInt8) :
    (escapeByte byte).foldl (step mark offset) (ready position next values element) =
      ready (position + (escapeByte byte).length) (position + (escapeByte byte).length) values
        (element ++ [byte]) := by
  have h' : offset ≤ position + 1 := by omega
  by_cases hbyte : byte = 0
  · rw [hbyte, escapeByte_zero]
    simp [step, read, ready, h, h']
  · rw [escapeByte_of_ne hbyte]
    simp [step, read, ready, h, hbyte]

theorem foldl_escape (mark : UInt8 → Scan T → Scan T) (bytes : Bytes) {position : Nat} (h : offset ≤ position) (next : Nat)
    (values : List T) (element : Bytes) : ∃ next',
    (escape bytes).foldl (step mark offset) (ready position next values element) =
      ready (position + (escape bytes).length) next' values (element ++ bytes) := by
  induction bytes generalizing position next element with
  | nil => exact ⟨next, by simp⟩
  | cons byte bytes ih =>
      obtain ⟨next', hrest⟩ := ih (show offset ≤ position + (escapeByte byte).length by omega)
        (position + (escapeByte byte).length) (element ++ [byte])
      refine ⟨next', ?_⟩
      rw [escape_cons, List.foldl_append, foldl_escapeByte h, hrest, List.length_append,
        Nat.add_assoc, List.append_assoc, List.singleton_append]

/-- The next byte of the scan. -/
def counted (s : Scan T) : Scan T := { s with position := s.position + 1 }

theorem foldl_mark {position : Nat} (h : offset ≤ position) (next : Nat) (values : List T)
    (element : Bytes) {byte : UInt8} (hbyte : byte ≠ 255) :
    [0, byte].foldl (step mark offset) (ready position next values element) =
      (mark byte (ready (position + 1) (position + 2) values element)).counted := by
  have h' : offset ≤ position + 1 := by omega
  simp [step, read, ready, counted, h, h', hbyte]

/-- An escaped string and the mark behind it. -/
theorem foldl_ended (bytes : Bytes) {position : Nat} (h : offset ≤ position) (next : Nat)
    (values : List T) {byte : UInt8} (hbyte : byte ≠ 255) :
    (escape bytes ++ [0, byte]).foldl (step mark offset) (ready position next values []) =
      (mark byte (ready (position + (escape bytes).length + 1)
        (position + (escape bytes).length + 2) values bytes)).counted := by
  obtain ⟨next', hrun⟩ := foldl_escape mark bytes h next values []
  rw [List.foldl_append, hrun, List.nil_append, foldl_mark (by omega) next' values bytes hbyte]

/-- A scan that starts at the end of `before` and ends with `body`. -/
theorem run_body (before after : Bytes) {body : Bytes} {s : Scan T}
    (hbody : body.foldl (step mark before.length) (ready before.length before.length [] []) = s)
    (hfinished : s.finished = true) :
    run mark (before ++ body ++ after) before.length =
      { s with position := s.position + after.length } := by
  have hskip : before.foldl (step mark before.length) (start before.length) =
      ready before.length before.length [] [] := by
    rw [foldl_skip before _ (by show 0 + before.length ≤ _; omega), start, Nat.zero_add]
    rfl
  rw [run, List.foldl_append, List.foldl_append, hskip, hbody, foldl_finished after s hfinished]

/-! ## 3. What a scan has read -/

/-- The strings of a vector, each ended by its mark. -/
def frames (encode : T → Bytes) (values : List T) : Bytes :=
  values.flatMap fun value ↦ escape (encode value) ++ [0, 1]

theorem frames_concat (encode : T → Bytes) (values : List T) (value : T) :
    frames encode (values ++ [value]) = frames encode values ++ (escape (encode value) ++ [0, 1]) := by
  rw [frames, frames, List.flatMap_append, List.flatMap_singleton]

/-- What the branch for a byte behind a zero may do: refuse the byte, end an element that `encode`
gives, or end the string. -/
inductive Marked (encode : T → Bytes) (closes : Bytes → Prop) (byte : UInt8) (s : Scan T) :
    Scan T → Prop where
  | refused : Marked encode closes byte s { s with valid := false }
  | element (value : T) (hbyte : byte = 1) (h : encode value = s.element) :
      Marked encode closes byte s { s with values := s.values ++ [value], element := [] }
  | closed (hbyte : byte = 0) (h : closes s.element) :
      Marked encode closes byte s { s with finished := true }

/-- The bytes behind the offset are the encoding of what was collected. -/
structure Scanned (encode : T → Bytes) (closes : Bytes → Prop) (offset : Nat) (bytes : Bytes)
    (s : Scan T) : Prop where
  position : s.position = bytes.length
  before : bytes.length ≤ offset → s = { start offset with position := bytes.length }
  inside : offset ≤ bytes.length → s.valid = true → s.finished = false →
    bytes.drop offset =
      frames encode s.values ++ escape s.element ++ if s.escaped then [0] else []
  ended : s.valid = true → s.finished = true →
    offset ≤ s.next ∧ s.next ≤ bytes.length ∧ closes s.element ∧
      slice bytes offset (s.next - offset) = frames encode s.values ++ escape s.element ++ [0, 0]

variable {encode : T → Bytes} {closes : Bytes → Prop}

theorem Scanned.passive {bytes : Bytes} {s : Scan T} (h : Scanned encode closes offset bytes s)
    (byte : UInt8) (hpassive : ¬(s.position ≥ offset ∧ ¬s.finished ∧ s.valid)) :
    Scanned encode closes offset (bytes ++ [byte]) { s with position := s.position + 1 } := by
  have hposition := h.position
  have hlen : (bytes ++ [byte]).length = bytes.length + 1 := by simp
  constructor
  case position => rw [hlen, hposition]
  case before =>
    intro hle
    rw [hlen] at hle ⊢
    rw [h.before (by omega)]
  case inside =>
    intro hle hvalid hopen
    rw [hlen] at hle
    have hlast : bytes.length + 1 = offset := by
      by_contra hne
      exact hpassive ⟨by omega, by simpa using hopen, hvalid⟩
    have hs := h.before (by omega)
    rw [hs, List.drop_eq_nil_of_le (by omega)]
    rfl
  case ended =>
    intro hvalid hfinished
    obtain ⟨hoffset, hnext, hcloses, hslice⟩ := h.ended hvalid hfinished
    refine ⟨hoffset, ?_, hcloses, ?_⟩
    · rw [hlen]
      exact Nat.le_succ_of_le hnext
    · rw [slice_append_left _ _ _ _ (by show offset + (s.next - offset) ≤ _; omega)]
      exact hslice

theorem Scanned.active {bytes : Bytes} {s : Scan T} (h : Scanned encode closes offset bytes s)
    (hmark : ∀ byte s, byte ≠ 255 → Marked encode closes byte s (mark byte s))
    (byte : UInt8) (hactive : s.position ≥ offset ∧ ¬s.finished ∧ s.valid) :
    Scanned encode closes offset (bytes ++ [byte])
      { s.read mark byte with position := (s.read mark byte).position + 1 } := by
  obtain ⟨position, next, escaped, finished, valid, values, element⟩ := s
  obtain ⟨hoffset, hopen, hvalid⟩ := hactive
  have hposition := h.position
  have hinside := h.inside
  simp only [Bool.not_eq_true] at hopen
  simp only at hoffset hposition hopen hvalid hinside
  subst hopen hvalid hposition
  have hdrop : (bytes ++ [byte]).drop offset =
      frames encode values ++ escape element ++ (if escaped then [0] else []) ++ [byte] := by
    rw [List.drop_append_of_le_length hoffset, hinside hoffset rfl rfl]
  have hlen : (bytes ++ [byte]).length = bytes.length + 1 := by simp
  have hwhole : slice (bytes ++ [byte]) offset (bytes.length + 1 - offset) =
      (bytes ++ [byte]).drop offset := by
    rw [slice, List.take_of_length_le (by rw [List.length_drop, hlen])]
  -- an open scan that goes on
  have hopen : ∀ (values' : List T) (element' : Bytes) (escaped' : Bool),
      (bytes ++ [byte]).drop offset =
        frames encode values' ++ escape element' ++ (if escaped' then [0] else []) →
      Scanned encode closes offset (bytes ++ [byte])
        ⟨bytes.length + 1, bytes.length + 1, escaped', false, true, values', element'⟩ := by
    intro values' element' escaped' heq
    constructor
    case position => rw [hlen]
    case before => intro hle; rw [hlen] at hle; omega
    case inside => exact fun _ _ _ ↦ heq
    case ended => intro _ hfinished; cases hfinished
  cases escaped with
  | false =>
      rw [if_neg Bool.false_ne_true, List.append_nil] at hdrop
      by_cases hzero : byte = 0
      · simp only [read, hzero, Bool.false_eq_true, not_false_eq_true, if_true] at hopen hdrop ⊢
        exact hopen values element true (by rw [hdrop, if_pos rfl])
      · simp only [read, hzero, Bool.false_eq_true, not_false_eq_true, if_true, if_false]
        refine hopen values (element ++ [byte]) false ?_
        rw [hdrop, escape_append, escape_cons, escape_nil, escapeByte_of_ne hzero, if_neg Bool.false_ne_true]
        simp only [List.append_assoc, List.append_nil]
  | true =>
      rw [if_pos rfl] at hdrop
      by_cases hmax : byte = 255
      · simp only [read, hmax, not_true_eq_false, if_false, if_true] at hopen hdrop ⊢
        refine hopen values (element ++ [0]) false ?_
        rw [hdrop, escape_append, escape_cons, escape_nil, escapeByte_zero, if_neg Bool.false_ne_true]
        simp only [List.append_assoc, List.append_nil, List.cons_append, List.nil_append]
      · simp only [read, hmax, not_true_eq_false, if_false]
        generalize hs : mark byte _ = s'
        have hmarked := hmark byte ⟨bytes.length, bytes.length + 1, false, false, true, values, element⟩ hmax
        rw [hs] at hmarked
        cases hmarked with
        | refused =>
            constructor
            case position => rw [hlen]
            case before => intro hle; rw [hlen] at hle; omega
            case inside => intro _ hvalid; cases hvalid
            case ended => intro hvalid; cases hvalid
        | element value hbyte hvalue =>
            refine hopen (values ++ [value]) [] false ?_
            simp only at hvalue
            rw [hdrop, frames_concat, hvalue, hbyte, if_neg Bool.false_ne_true]
            simp only [List.append_assoc, List.append_nil, List.cons_append, List.nil_append, escape_nil]
        | closed hbyte hcloses =>
            constructor
            case position => rw [hlen]
            case before => intro hle; rw [hlen] at hle; omega
            case inside => intro _ _ hfinished; cases hfinished
            case ended =>
              intro _ _
              refine ⟨by show offset ≤ bytes.length + 1; omega, hlen.ge, hcloses, ?_⟩
              show slice _ _ (bytes.length + 1 - offset) = _
              rw [hwhole, hdrop, hbyte]
              simp only [List.append_assoc, List.cons_append, List.nil_append]

/-- Every scan holds what its bytes encode. -/
theorem scanned_run (hmark : ∀ byte s, byte ≠ 255 → Marked encode closes byte s (mark byte s))
    (bytes : Bytes) (offset : Nat) : Scanned encode closes offset bytes (run mark bytes offset) := by
  induction bytes using List.reverseRecOn with
  | nil =>
      constructor
      case position => rfl
      case before => exact fun _ ↦ rfl
      case inside => intro _ _ _; simp [run, start, frames]
      case ended => intro _ hfinished; cases hfinished
  | append_singleton bytes byte ih =>
      rw [run, List.foldl_concat]
      show Scanned _ _ _ _ (step mark offset (run mark bytes offset) byte)
      rw [step]
      by_cases hactive : (run mark bytes offset).position ≥ offset ∧
          ¬(run mark bytes offset).finished ∧ (run mark bytes offset).valid
      · rw [if_pos hactive]
        exact ih.active hmark byte hactive
      · rw [if_neg hactive]
        exact ih.passive byte hactive

end Scan

/-! ## 4. Strings -/

namespace Codecs

theorem pushEscaped_eq (out bytes : Bytes) : pushEscaped out bytes = out ++ escape bytes := by
  induction bytes generalizing out with
  | nil => rw [escape_nil, List.append_nil]; rfl
  | cons byte bytes ih =>
      rw [pushEscaped, List.foldl_cons]
      show pushEscaped _ bytes = _
      rw [ih, escape_cons]
      by_cases h : byte = 0
      · rw [if_pos h, h, escapeByte_zero]
        simp only [List.append_assoc, List.cons_append, List.nil_append]
      · rw [if_neg h, escapeByte_of_ne h, List.append_assoc]

theorem toByteArray_intoBytes (s : String) : (intoBytes s).toByteArray = s.toByteArray := by
  apply ByteArray.ext
  rw [List.data_toByteArray, intoBytes, Array.toArray_toList]

theorem fromUtf8_intoBytes (s : String) : fromUtf8 (intoBytes s) = some s := by
  rw [fromUtf8, toByteArray_intoBytes, String.fromUTF8?, dif_pos s.isValidUTF8]
  rfl

theorem intoBytes_of_fromUtf8 {bytes : Bytes} {s : String} (h : fromUtf8 bytes = some s) :
    intoBytes s = bytes := by
  rw [fromUtf8, String.fromUTF8?] at h
  split at h
  · obtain rfl := Option.some.inj h
    rw [intoBytes]
    exact List.toList_data_toByteArray
  · cases h

theorem stringMark_marked (byte : UInt8) (s : Scan Empty) :
    Scan.Marked (fun _ ↦ []) (fun _ ↦ True) byte s (stringMark byte s) := by
  by_cases h : byte = 0
  · rw [stringMark, if_pos h]
    exact .closed h trivial
  · rw [stringMark, if_neg h]
    exact .refused

theorem stringKey_lawful : stringKey.Lawful where
  valid _ := rfl
  decode_encode value before after := by
    have hbody : (escape (intoBytes value) ++ [0, 0]).foldl (Scan.step stringMark before.length)
        (Scan.ready before.length before.length [] []) = _ :=
      Scan.foldl_ended (intoBytes value) le_rfl before.length [] (by decide)
    have hrun := Scan.run_body before after hbody rfl
    have hbytes : (stringKey.encode value).bytes = escape (intoBytes value) ++ [0, 0] := by
      simp only [stringKey, pushEscaped_eq, List.nil_append, List.append_assoc, List.cons_append]
    simp only [stringKey] at hbytes ⊢
    rw [hbytes, hrun]
    simp [stringMark, Scan.ready, Scan.counted, fromUtf8_intoBytes, Nat.add_assoc]
  encode_decode bytes offset next value h := by
    have hscan := Scan.scanned_run (fun byte s _ ↦ stringMark_marked byte s) bytes offset
    simp only [stringKey] at h ⊢
    split at h
    · rename_i hended
      cases hutf8 : fromUtf8 (Scan.run stringMark bytes offset).element with
      | none => simp [hutf8] at h
      | some string =>
          simp only [hutf8, DecodedAt.mk.injEq, true_and] at h
          obtain ⟨rfl, rfl⟩ := h
          obtain ⟨hoffset, hnext, -, hslice⟩ := hscan.ended hended.1 hended.2
          have hnone : (Scan.run stringMark bytes offset).values = [] :=
            List.eq_nil_iff_forall_not_mem.mpr fun value ↦ value.elim
          refine ⟨hoffset, hnext, ?_⟩
          rw [hslice, hnone, pushEscaped_eq, intoBytes_of_fromUtf8 hutf8]
          simp only [Scan.frames, List.flatMap_nil, List.nil_append, List.append_assoc,
            List.cons_append]
    · cases h

end Codecs

/-! ## 5. Vectors -/

namespace KeyCodec

variable {T : Type} {codec : KeyCodec T}

def elementBytes (codec : KeyCodec T) (value : T) : Bytes := (codec.encode value).bytes

theorem encodeElements_eq (h : codec.Lawful) (bytes : Bytes) (values : List T) :
    encodeElements codec.encode bytes values =
      ⟨true, bytes ++ Scan.frames codec.elementBytes values ++ [0, 0]⟩ := by
  induction values generalizing bytes with
  | nil => simp [encodeElements, Scan.frames]
  | cons value values ih =>
      have hvalid := h.valid value
      rw [encodeElements, if_neg (by simp [hvalid]), ih, Codecs.pushEscaped_eq]
      simp [Scan.frames, elementBytes]

theorem vec_bytes (h : codec.Lawful) (values : List T) :
    (codec.vec.encode values).bytes = Scan.frames codec.elementBytes values ++ [0, 0] := by
  show (encodeElements codec.encode [] values).bytes = _
  rw [encodeElements_eq h, List.nil_append]

theorem vecMark_marked (h : codec.Lawful) (byte : UInt8) (s : Scan T) :
    Scan.Marked codec.elementBytes (· = []) byte s (vecMark codec.decode byte s) := by
  rw [vecMark]
  by_cases hone : byte = 1
  · rw [if_pos hone]
    dsimp only
    split
    · exact .refused
    · rename_i hwhole
      rw [not_or, not_not, not_not] at hwhole
      cases helement : codec.decode s.element 0 with
      | mk valid next value =>
          rw [helement] at hwhole
          obtain ⟨rfl, rfl⟩ : valid = true ∧ next = s.element.length := hwhole
          obtain ⟨-, -, hslice⟩ := h.encode_decode _ _ _ _ helement
          rw [Nat.sub_zero, slice_all] at hslice
          exact .element value hone hslice.symm
  · rw [if_neg hone]
    split
    · rename_i hclosed
      exact .closed hclosed.1 hclosed.2
    · exact .refused

/-- The element that a scan has before its mark is read as it was written. -/
theorem vecMark_element (h : codec.Lawful) (value : T) {s : Scan T}
    (hs : s.element = codec.elementBytes value) :
    vecMark codec.decode 1 s = { s with values := s.values ++ [value], element := [] } := by
  have hdecode := h.decode_encode value [] []
  simp only [List.nil_append, List.append_nil, List.length_nil, Nat.zero_add] at hdecode
  rw [vecMark, if_pos rfl, hs]
  simp only [elementBytes, hdecode]
  rw [if_neg (by simp)]

theorem foldl_frames (h : codec.Lawful) (values : List T) {offset position : Nat}
    (hposition : offset ≤ position) (next : Nat) (read : List T) : ∃ next',
    (Scan.frames codec.elementBytes values).foldl (Scan.step (vecMark codec.decode) offset)
        (Scan.ready position next read []) =
      Scan.ready (position + (Scan.frames codec.elementBytes values).length) next'
        (read ++ values) [] := by
  induction values generalizing position next read with
  | nil => exact ⟨next, by simp [Scan.frames]⟩
  | cons value values ih =>
      have hframe : (escape (codec.elementBytes value) ++ [0, 1]).foldl
          (Scan.step (vecMark codec.decode) offset) (Scan.ready position next read []) =
          Scan.ready (position + (escape (codec.elementBytes value)).length + 2)
            (position + (escape (codec.elementBytes value)).length + 2) (read ++ [value]) [] := by
        rw [Scan.foldl_ended _ hposition next read (by decide), vecMark_element h value rfl]
        rfl
      have hnext : offset ≤ position + (escape (codec.elementBytes value)).length + 2 := by omega
      obtain ⟨next', hrest⟩ := ih hnext (position + (escape (codec.elementBytes value)).length + 2)
        (read ++ [value])
      refine ⟨next', ?_⟩
      have hcons : Scan.frames codec.elementBytes (value :: values) =
          (escape (codec.elementBytes value) ++ [0, 1]) ++ Scan.frames codec.elementBytes values := rfl
      rw [hcons, List.foldl_append, hframe, hrest]
      simp only [List.length_append, List.length_cons, List.length_nil, List.append_assoc,
        List.singleton_append]
      congr 1
      omega

/-- A vector's codec has the law if the elements' has it. -/
theorem Lawful.vec (h : codec.Lawful) : codec.vec.Lawful where
  valid values := by
    show (encodeElements codec.encode [] values).valid = true
    rw [encodeElements_eq h]
  decode_encode values before after := by
    obtain ⟨next, hframes⟩ := foldl_frames h values (le_refl before.length) before.length []
    have hbody : (Scan.frames codec.elementBytes values ++ [0, 0]).foldl
        (Scan.step (vecMark codec.decode) before.length)
        (Scan.ready before.length before.length [] []) =
        (vecMark codec.decode 0
          (Scan.ready (before.length + (Scan.frames codec.elementBytes values).length + 1)
            (before.length + (Scan.frames codec.elementBytes values).length + 2) values [])).counted := by
      rw [List.foldl_append, hframes, List.nil_append, Scan.foldl_mark (by omega) next _ [] (by decide)]
    have hrun := Scan.run_body before after hbody rfl
    rw [vec_bytes h]
    simp only [KeyCodec.vec] at hrun ⊢
    rw [hrun]
    simp [vecMark, Scan.ready, Scan.counted, Nat.add_assoc]
  encode_decode bytes offset next values hdecode := by
    have hscan := Scan.scanned_run (fun byte s _ ↦ vecMark_marked h byte s) bytes offset
    rw [vec_bytes h]
    simp only [KeyCodec.vec] at hdecode
    split at hdecode
    · rename_i hended
      simp only [DecodedAt.mk.injEq, true_and] at hdecode
      obtain ⟨rfl, rfl⟩ := hdecode
      obtain ⟨hoffset, hnext, hclosed, hslice⟩ := hscan.ended hended.1 hended.2
      refine ⟨hoffset, hnext, ?_⟩
      rw [hslice, hclosed, escape_nil, List.append_nil]
    · cases hdecode

end KeyCodec

/-! ## 6. Key types and tables -/

theorem KeyType.codec_lawful (t : KeyType) : t.codec.Lawful := by
  induction t with
  | u8 => exact Codecs.u8Key_lawful
  | u16 => exact Codecs.u16Key_lawful
  | u32 => exact Codecs.u32Key_lawful
  | u64 => exact Codecs.u64Key_lawful
  | u128 => exact Codecs.u128Key_lawful
  | string => exact Codecs.stringKey_lawful
  | vec element ih => exact ih.vec

/-- The two callbacks of a table are inverse to one another. -/
structure TableKey.Lawful {K : Type} (table : TableKey K) : Prop where
  valid : ∀ key, (table.encodeKey key).valid = true
  decode_encode : ∀ key, table.decodeKey (table.encodeKey key).bytes = ⟨true, key⟩
  encode_decode : ∀ bytes key, table.decodeKey bytes = ⟨true, key⟩ →
    (table.encodeKey key).bytes = bytes

variable {K1 K2 K3 : Type} {first : KeyCodec K1} {second : KeyCodec K2} {third : KeyCodec K3}

/-- A codec at the start of a key. -/
theorem KeyCodec.Lawful.decode_front {T : Type} {codec : KeyCodec T} (h : codec.Lawful) (value : T)
    (after : Bytes) : codec.decode ((codec.encode value).bytes ++ after) 0 =
      ⟨true, (codec.encode value).bytes.length, value⟩ := by
  have hdecode := h.decode_encode value [] after
  rwa [List.nil_append, List.length_nil, Nat.zero_add] at hdecode

theorem jsonTable1_lawful (h : first.Lawful) : (jsonTable1 first).Lawful where
  valid := h.valid
  decode_encode key := by
    have hfirst := h.decode_front key []
    rw [List.append_nil] at hfirst
    simp [jsonTable1, hfirst]
  encode_decode bytes key hdecode := by
    simp only [jsonTable1, Decoded.mk.injEq, Bool.and_eq_true, beq_iff_eq] at hdecode
    obtain ⟨⟨hvalid, hwhole⟩, rfl⟩ := hdecode
    cases hfirst : first.decode bytes 0 with
    | mk valid next value =>
        rw [hfirst] at hvalid hwhole
        simp only at hvalid hwhole
        subst hvalid hwhole
        obtain ⟨-, -, hslice⟩ := h.encode_decode _ _ _ _ hfirst
        rw [Nat.sub_zero, slice_all] at hslice
        exact hslice.symm

theorem jsonTable2_lawful (h1 : first.Lawful) (h2 : second.Lawful) :
    (jsonTable2 first second).Lawful where
  valid key := by
    simp [jsonTable2, h1.valid, h2.valid]
  decode_encode key := by
    have hfirst := h1.decode_front key.1 (second.encode key.2).bytes
    have hsecond := h2.decode_encode key.2 (first.encode key.1).bytes []
    rw [List.append_nil] at hsecond
    simp [jsonTable2, h1.valid, h2.valid, hfirst, hsecond]
  encode_decode bytes key hdecode := by
    simp only [jsonTable2, Decoded.mk.injEq, Bool.and_eq_true, beq_iff_eq] at hdecode
    obtain ⟨⟨⟨hvalid1, hvalid2⟩, hwhole⟩, rfl⟩ := hdecode
    cases hfirst : first.decode bytes 0 with
    | mk valid1 next1 value1 =>
        rw [hfirst] at hvalid1 hvalid2 hwhole
        simp only at hvalid1 hvalid2 hwhole ⊢
        cases hsecond : second.decode bytes next1 with
        | mk valid2 next2 value2 =>
            simp only [hsecond] at hvalid2 hwhole ⊢
            subst hvalid1 hvalid2 hwhole
            obtain ⟨-, hle, hslice1⟩ := h1.encode_decode _ _ _ _ hfirst
            obtain ⟨-, -, hslice2⟩ := h2.encode_decode _ _ _ _ hsecond
            have hglue := slice_glue bytes 0 next1 (bytes.length - next1)
            rw [Nat.zero_add, Nat.add_sub_cancel' hle, slice_all] at hglue
            rw [Nat.sub_zero] at hslice1
            simp [jsonTable2, h1.valid, h2.valid, ← hslice1, ← hslice2, hglue]

theorem jsonTable3_lawful (h1 : first.Lawful) (h2 : second.Lawful) (h3 : third.Lawful) :
    (jsonTable3 first second third).Lawful where
  valid key := by
    simp [jsonTable3, h1.valid, h2.valid, h3.valid]
  decode_encode key := by
    have hfirst := h1.decode_front key.1 ((second.encode key.2.1).bytes ++ (third.encode key.2.2).bytes)
    have hsecond := h2.decode_encode key.2.1 (first.encode key.1).bytes (third.encode key.2.2).bytes
    have hthird := h3.decode_encode key.2.2
      ((first.encode key.1).bytes ++ (second.encode key.2.1).bytes) []
    rw [← List.append_assoc] at hfirst
    rw [List.append_nil, List.length_append] at hthird
    simp only [jsonTable3, h1.valid, h2.valid, h3.valid, not_true_eq_false, or_self, if_false, hfirst,
      hsecond, hthird]
    simp
    omega
  encode_decode bytes key hdecode := by
    simp only [jsonTable3, Decoded.mk.injEq, Bool.and_eq_true, beq_iff_eq] at hdecode
    obtain ⟨⟨⟨⟨hvalid1, hvalid2⟩, hvalid3⟩, hwhole⟩, rfl⟩ := hdecode
    cases hfirst : first.decode bytes 0 with
    | mk valid1 next1 value1 =>
        rw [hfirst] at hvalid1 hvalid2 hvalid3 hwhole
        simp only at hvalid1 hvalid2 hvalid3 hwhole ⊢
        cases hsecond : second.decode bytes next1 with
        | mk valid2 next2 value2 =>
            simp only [hsecond] at hvalid2 hvalid3 hwhole ⊢
            cases hthird : third.decode bytes next2 with
            | mk valid3 next3 value3 =>
                simp only [hthird] at hvalid3 hwhole ⊢
                subst hvalid1 hvalid2 hvalid3 hwhole
                obtain ⟨-, -, hslice1⟩ := h1.encode_decode _ _ _ _ hfirst
                obtain ⟨hle, -, hslice2⟩ := h2.encode_decode _ _ _ _ hsecond
                obtain ⟨hle', -, hslice3⟩ := h3.encode_decode _ _ _ _ hthird
                have hglue := slice_glue bytes 0 next1 (next2 - next1)
                have hglue' := slice_glue bytes 0 next2 (bytes.length - next2)
                rw [Nat.zero_add, Nat.add_sub_cancel' hle] at hglue
                rw [Nat.zero_add, Nat.add_sub_cancel' hle', slice_all] at hglue'
                rw [Nat.sub_zero] at hslice1
                simp only [jsonTable3, h1.valid, h2.valid, h3.valid, not_true_eq_false, or_self,
                  if_false, ← hslice1, ← hslice2, ← hslice3, hglue, hglue']

/-- Every key codec reads its encodings between any bytes and reads nothing but encodings; the keys of
the tables are read back. -/
theorem key_codecs_round_trip :
    (∀ (t : KeyType) (value : t.Value) (before after : Bytes),
      t.codec.decode (before ++ (t.codec.encode value).bytes ++ after) before.length =
        ⟨true, before.length + (t.codec.encode value).bytes.length, value⟩) ∧
    (∀ (t : KeyType) (bytes : Bytes) (offset next : Nat) (value : t.Value),
      t.codec.decode bytes offset = ⟨true, next, value⟩ →
        offset ≤ next ∧ next ≤ bytes.length ∧
          slice bytes offset (next - offset) = (t.codec.encode value).bytes) ∧
    (∀ t1 : KeyType, (jsonTable1 t1.codec).Lawful) ∧
    (∀ t1 t2 : KeyType, (jsonTable2 t1.codec t2.codec).Lawful) ∧
    ∀ t1 t2 t3 : KeyType, (jsonTable3 t1.codec t2.codec t3.codec).Lawful :=
  ⟨fun t ↦ t.codec_lawful.decode_encode, fun t ↦ t.codec_lawful.encode_decode,
    fun t1 ↦ jsonTable1_lawful t1.codec_lawful,
    fun t1 t2 ↦ jsonTable2_lawful t1.codec_lawful t2.codec_lawful,
    fun t1 t2 t3 ↦ jsonTable3_lawful t1.codec_lawful t2.codec_lawful t3.codec_lawful⟩

theorem key_codecs_round_trip_vec : slice [99, 5, 0, 1, 0, 0] 1 5 =
    ((KeyType.vec .u8).codec.encode [(5 : UInt8)]).bytes :=
  (key_codecs_round_trip.2.1 (.vec .u8) [99, 5, 0, 1, 0, 0] 1 6 [(5 : UInt8)] rfl).2.2

end Stainless.Kvstore
