import Stainless.Kvstore.KeyRoundTrip
import Stainless.Kvstore.Ranges
import Mathlib.Data.Prod.Lex

/-!
# Keys keep their order

Two encodings differ at a byte that decides as the keys do, so that nothing that follows them matters.
Tuples of keys and ranges of keys are therefore compared by their encodings.
-/

open Reasoning Stainless.Runtime Std

namespace Stainless.Kvstore

/-! ## 1. Encodings that decide -/

/-- Encodings of different values differ at a byte, and in the order `lt` of the values. -/
structure OrderedBy {T : Type} (encode : T → Bytes) (lt : T → T → Prop) : Prop where
  precedes : ∀ a b, lt a b → Precedes (encode a) (encode b)
  total : ∀ a b, lt a b ∨ a = b ∨ lt b a

theorem compare_of_precedes {left right : Bytes} (h : Precedes left right) : compare left right = .lt := by
  induction h with
  | head left right h =>
      show List.compareLex compare _ _ = _
      rw [List.compareLex_cons_cons, compare_eq_lt.mpr h]
      rfl
  | tail a _ ih =>
      show List.compareLex compare _ _ = _
      rw [List.compareLex_cons_cons, ReflOrd.compare_self]
      exact ih

namespace OrderedBy

variable {T U : Type} {encode : T → Bytes} {lt : T → T → Prop} {encode' : U → Bytes}
  {lt' : U → U → Prop}

theorem lt_iff (h : OrderedBy encode lt) (a b : T) : encode a < encode b ↔ lt a b := by
  constructor
  · intro hlt
    rcases h.total a b with hab | rfl | hba
    · exact hab
    · exact absurd hlt (List.lt_irrefl _)
    · exact absurd hlt (List.lt_asymm (h.precedes b a hba).lt)
  · exact fun hab ↦ (h.precedes a b hab).lt

theorem isLE_iff (h : OrderedBy encode lt) (a b : T) :
    (compare (encode a) (encode b)).isLE ↔ ¬lt b a := by
  constructor
  · intro hle hba
    have hswap : compare (encode a) (encode b) = (compare (encode b) (encode a)).swap :=
      OrientedCmp.eq_swap
    rw [hswap, compare_of_precedes (h.precedes b a hba)] at hle
    cases hle
  · intro hba
    rcases h.total a b with hab | rfl | hba'
    · rw [compare_of_precedes (h.precedes a b hab)]
      rfl
    · rw [ReflOrd.compare_self]
      rfl
    · exact absurd hba' hba

/-- A range of encodings holds exactly the encodings of the keys of the range. -/
theorem between_iff (h : OrderedBy encode lt) (lower upper key : T) :
    Between (encode lower) (encode upper) (encode key) ↔ ¬lt key lower ∧ ¬lt upper key := by
  rw [Between, h.isLE_iff, h.isLE_iff]

theorem pair (h : OrderedBy encode lt) (h' : OrderedBy encode' lt') :
    OrderedBy (fun key : T × U ↦ encode key.1 ++ encode' key.2) (Prod.Lex lt lt') where
  precedes a b hlt := by
    cases hlt with
    | left _ _ hab => exact (h.precedes _ _ hab).append _ _
    | right _ hab => exact (h'.precedes _ _ hab).prepend _
  total a b := by
    obtain ⟨a1, a2⟩ := a
    obtain ⟨b1, b2⟩ := b
    rcases h.total a1 b1 with hab | rfl | hba
    · exact .inl (.left _ _ hab)
    · rcases h'.total a2 b2 with hab | rfl | hba
      · exact .inl (.right _ hab)
      · exact .inr (.inl rfl)
      · exact .inr (.inr (.right _ hba))
    · exact .inr (.inr (.left _ _ hba))

end OrderedBy

/-! ## 2. Integers and strings -/

theorem precedes_toBigEndian {width m n : Nat} (hlt : m < n) (hn : n < 256 ^ width) :
    Precedes (toBigEndian width m) (toBigEndian width n) := by
  induction width generalizing m n with
  | zero => omega
  | succ width ih =>
      rw [toBigEndian, toBigEndian]
      rw [pow_succ] at hn
      by_cases hhigh : m / 256 < n / 256
      · exact (ih hhigh (by omega)).append _ _
      · have hsame : m / 256 = n / 256 := by omega
        rw [hsame]
        refine Precedes.prepend _ (.head _ _ ?_)
        rw [UInt8.lt_iff_toNat_lt, UInt8.toNat_ofNat', UInt8.toNat_ofNat']
        omega

theorem orderedBy_fixedKey {T : Type} {width : Nat} {toNat : T → Nat} {ofNat : Nat → T}
    (hlt : ∀ value, toNat value < 256 ^ width) (hinj : ∀ a b, toNat a = toNat b → a = b) :
    OrderedBy (Codecs.fixedKey width toNat ofNat).elementBytes fun a b ↦ toNat a < toNat b where
  precedes _ b hab := precedes_toBigEndian hab (hlt b)
  total a b := by
    rcases Nat.lt_trichotomy (toNat a) (toNat b) with h | h | h
    · exact .inl h
    · exact .inr (.inl (hinj a b h))
    · exact .inr (.inr h)

/-- Rust compares strings by their bytes. -/
def stringLt (a b : String) : Prop := Codecs.intoBytes a < Codecs.intoBytes b

theorem orderedBy_stringKey : OrderedBy Codecs.stringKey.elementBytes stringLt where
  precedes a b hab := by
    have h := precedes_escape (show (0 : UInt8) < 255 by decide) hab
    simpa [KeyCodec.elementBytes, Codecs.stringKey, Codecs.pushEscaped_eq] using h
  total a b := by
    rcases lt_trichotomy (Codecs.intoBytes a) (Codecs.intoBytes b) with h | h | h
    · exact .inl h
    · refine .inr (.inl ?_)
      have hutf8 := Codecs.fromUtf8_intoBytes a
      rw [h, Codecs.fromUtf8_intoBytes] at hutf8
      exact (Option.some.inj hutf8).symm
    · exact .inr (.inr h)

/-! ## 3. Vectors -/

/-- The end of a vector is below every element. -/
theorem precedes_end (element rest : Bytes) : Precedes [0, 0] (escape element ++ [0, 1] ++ rest) := by
  cases element with
  | nil => exact .tail 0 (.head _ _ (by decide))
  | cons byte element =>
      rw [escape_cons, List.append_assoc, List.append_assoc]
      exact precedes_mark (by decide) byte _

theorem precedes_frames {T : Type} {encode : T → Bytes} {lt : T → T → Prop}
    (h : OrderedBy encode lt) {a b : List T} (hab : List.Lex lt a b) :
    Precedes (Scan.frames encode a ++ [0, 0]) (Scan.frames encode b ++ [0, 0]) := by
  induction hab with
  | @nil b bs =>
      have hend := precedes_end (encode b) (Scan.frames encode bs ++ [0, 0])
      simpa [Scan.frames] using hend
  | @rel a as b bs hlt =>
      have hfirst := precedes_escape (show (1 : UInt8) < 255 by decide) (h.precedes a b hlt).lt
      have hrest := hfirst.append (Scan.frames encode as ++ [0, 0]) (Scan.frames encode bs ++ [0, 0])
      simpa [Scan.frames] using hrest
  | @cons a as bs _ ih =>
      have hrest := ih.prepend (escape (encode a) ++ [0, 1])
      simpa [Scan.frames] using hrest

theorem lex_total {T : Type} {lt : T → T → Prop} (h : ∀ a b, lt a b ∨ a = b ∨ lt b a)
    (a b : List T) : List.Lex lt a b ∨ a = b ∨ List.Lex lt b a := by
  induction a generalizing b with
  | nil =>
      cases b with
      | nil => exact .inr (.inl rfl)
      | cons b bs => exact .inl .nil
  | cons a as ih =>
      cases b with
      | nil => exact .inr (.inr .nil)
      | cons b bs =>
          rcases h a b with hab | rfl | hba
          · exact .inl (.rel hab)
          · rcases ih bs with hab | rfl | hba
            · exact .inl (.cons hab)
            · exact .inr (.inl rfl)
            · exact .inr (.inr (.cons hba))
          · exact .inr (.inr (.rel hba))

theorem orderedBy_vec {T : Type} {codec : KeyCodec T} {lt : T → T → Prop} (hlawful : codec.Lawful)
    (h : OrderedBy codec.elementBytes lt) : OrderedBy codec.vec.elementBytes (List.Lex lt) where
  precedes a b hab := by
    rw [KeyCodec.elementBytes, KeyCodec.elementBytes, KeyCodec.vec_bytes hlawful,
      KeyCodec.vec_bytes hlawful]
    exact precedes_frames h hab
  total := lex_total h.total

/-! ## 4. Key types and tables -/

/-- The order of a key type: numeric, by bytes, or lexicographic. -/
def KeyType.lt : (t : KeyType) → t.Value → t.Value → Prop
  | .u8 => fun a b ↦ UInt8.toNat a < UInt8.toNat b
  | .u16 => fun a b ↦ UInt16.toNat a < UInt16.toNat b
  | .u32 => fun a b ↦ UInt32.toNat a < UInt32.toNat b
  | .u64 => fun a b ↦ UInt64.toNat a < UInt64.toNat b
  | .u128 => fun a b ↦ BitVec.toNat a < BitVec.toNat b
  | .string => stringLt
  | .vec element => List.Lex element.lt

theorem KeyType.orderedBy (t : KeyType) : OrderedBy t.codec.elementBytes t.lt := by
  induction t with
  | u8 => exact orderedBy_fixedKey UInt8.toNat_lt fun _ _ ↦ UInt8.toNat.inj
  | u16 => exact orderedBy_fixedKey UInt16.toNat_lt fun _ _ ↦ UInt16.toNat.inj
  | u32 => exact orderedBy_fixedKey UInt32.toNat_lt fun _ _ ↦ UInt32.toNat.inj
  | u64 => exact orderedBy_fixedKey UInt64.toNat_lt fun _ _ ↦ UInt64.toNat.inj
  | u128 => exact orderedBy_fixedKey BitVec.isLt fun _ _ ↦ BitVec.eq_of_toNat_eq
  | string => exact orderedBy_stringKey
  | vec element ih => exact orderedBy_vec element.codec_lawful ih

def TableKey.keyBytes {K : Type} (table : TableKey K) (key : K) : Bytes := (table.encodeKey key).bytes

theorem jsonTable2_orderedBy (t1 t2 : KeyType) :
    OrderedBy (jsonTable2 t1.codec t2.codec).keyBytes (Prod.Lex t1.lt t2.lt) := by
  have hbytes : (jsonTable2 t1.codec t2.codec).keyBytes = fun key ↦
      t1.codec.elementBytes key.1 ++ t2.codec.elementBytes key.2 := by
    funext key
    simp [TableKey.keyBytes, jsonTable2, t1.codec_lawful.valid, t2.codec_lawful.valid,
      KeyCodec.elementBytes]
  rw [hbytes]
  exact t1.orderedBy.pair t2.orderedBy

theorem jsonTable3_orderedBy (t1 t2 t3 : KeyType) :
    OrderedBy (jsonTable3 t1.codec t2.codec t3.codec).keyBytes
      (Prod.Lex t1.lt (Prod.Lex t2.lt t3.lt)) := by
  have hbytes : (jsonTable3 t1.codec t2.codec t3.codec).keyBytes = fun key ↦
      t1.codec.elementBytes key.1 ++
        (t2.codec.elementBytes key.2.1 ++ t3.codec.elementBytes key.2.2) := by
    funext key
    simp [TableKey.keyBytes, jsonTable3, t1.codec_lawful.valid, t2.codec_lawful.valid,
      t3.codec_lawful.valid, KeyCodec.elementBytes]
  rw [hbytes]
  exact t1.orderedBy.pair (t2.orderedBy.pair t3.orderedBy)

/-- Keys and tuples of keys compare as their encodings do, and a range of encodings holds exactly the
encodings of the keys between its ends. -/
theorem key_codecs_ordered :
    (∀ (t : KeyType) (a b : t.Value),
      (t.codec.encode a).bytes < (t.codec.encode b).bytes ↔ t.lt a b) ∧
    (∀ (t1 t2 : KeyType) (a b : t1.Value × t2.Value),
      ((jsonTable2 t1.codec t2.codec).encodeKey a).bytes <
          ((jsonTable2 t1.codec t2.codec).encodeKey b).bytes ↔ Prod.Lex t1.lt t2.lt a b) ∧
    (∀ (t1 t2 t3 : KeyType) (a b : t1.Value × t2.Value × t3.Value),
      ((jsonTable3 t1.codec t2.codec t3.codec).encodeKey a).bytes <
          ((jsonTable3 t1.codec t2.codec t3.codec).encodeKey b).bytes ↔
        Prod.Lex t1.lt (Prod.Lex t2.lt t3.lt) a b) ∧
    (∀ (t : KeyType) (lower upper key : t.Value),
      Between (t.codec.encode lower).bytes (t.codec.encode upper).bytes (t.codec.encode key).bytes ↔
        ¬t.lt key lower ∧ ¬t.lt upper key) ∧
    (∀ (t1 t2 : KeyType) (lower upper key : t1.Value × t2.Value),
      Between ((jsonTable2 t1.codec t2.codec).encodeKey lower).bytes
          ((jsonTable2 t1.codec t2.codec).encodeKey upper).bytes
          ((jsonTable2 t1.codec t2.codec).encodeKey key).bytes ↔
        ¬Prod.Lex t1.lt t2.lt key lower ∧ ¬Prod.Lex t1.lt t2.lt upper key) ∧
    ∀ (t1 t2 t3 : KeyType) (lower upper key : t1.Value × t2.Value × t3.Value),
      Between ((jsonTable3 t1.codec t2.codec t3.codec).encodeKey lower).bytes
          ((jsonTable3 t1.codec t2.codec t3.codec).encodeKey upper).bytes
          ((jsonTable3 t1.codec t2.codec t3.codec).encodeKey key).bytes ↔
        ¬Prod.Lex t1.lt (Prod.Lex t2.lt t3.lt) key lower ∧
          ¬Prod.Lex t1.lt (Prod.Lex t2.lt t3.lt) upper key :=
  ⟨fun t ↦ t.orderedBy.lt_iff, fun t1 t2 ↦ (jsonTable2_orderedBy t1 t2).lt_iff,
    fun t1 t2 t3 ↦ (jsonTable3_orderedBy t1 t2 t3).lt_iff, fun t ↦ t.orderedBy.between_iff,
    fun t1 t2 ↦ (jsonTable2_orderedBy t1 t2).between_iff,
    fun t1 t2 t3 ↦ (jsonTable3_orderedBy t1 t2 t3).between_iff⟩

end Stainless.Kvstore
