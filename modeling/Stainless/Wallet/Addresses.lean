import Stainless.Crypto.DecimalText
import Stainless.Wallet.Checksum
import Stainless.Wallet.Regrouping

/-!
# Addresses and digests

The checker accepts exactly the addresses that the writer builds, one for each digest, and no address
with one character changed.
-/

open Reasoning
open Stainless.Crypto

namespace Stainless.Wallet

/-! ## 1. Characters -/

/-- The bytes of a symbol's character. -/
def symbolBytes (value : Nat) : List UInt8 := bytes (bech32Character value)

theorem bytes_append (a b : String) : bytes (a ++ b) = bytes a ++ bytes b := by
  rw [bytes_eq, bytes_eq, bytes_eq, String.toList_append, List.flatMap_append]

theorem bytes_injective {a b : String} (h : bytes a = bytes b) : a = b := by
  have hdata : a.toByteArray.data = b.toByteArray.data := Array.toList_inj.mp h
  exact String.toByteArray_inj.mp (ByteArray.ext hdata)

theorem addressValues_symbols {symbols : List Nat} (h : ∀ symbol ∈ symbols, symbol < 32) :
    addressValues (symbols.flatMap symbolBytes) = some symbols := by
  have hall : ∀ symbol < 32, ∃ byte, symbolBytes symbol = [byte] ∧ bech32Value byte = symbol := by
    have hvalues : ∀ symbol < 32, (symbolBytes symbol).map bech32Value = [symbol] := by
      decide +kernel
    intro symbol hsymbol
    obtain ⟨byte, hbyte, hvalue⟩ := List.map_eq_singleton_iff.mp (hvalues symbol hsymbol)
    exact ⟨byte, hbyte, hvalue⟩
  induction symbols with
  | nil => rfl
  | cons symbol symbols ih =>
      obtain ⟨hsymbol, hsymbols⟩ := List.forall_mem_cons.mp h
      obtain ⟨byte, hbytes, hvalue⟩ := hall symbol hsymbol
      rw [List.flatMap_cons, hbytes, List.singleton_append, addressValues, hvalue,
        if_neg (by omega), ih hsymbols]
      rfl

/-- A byte of the alphabet is the character of its symbol. -/
theorem bech32Value_symbol (byte : UInt8) (h : bech32Value byte ≠ 255) :
    bech32Value byte < 32 ∧ symbolBytes (bech32Value byte) = [byte] := by
  have hall : ∀ code < 256, bech32Value (UInt8.ofNat code) ≠ 255 →
      bech32Value (UInt8.ofNat code) < 32 ∧
        symbolBytes (bech32Value (UInt8.ofNat code)) = [UInt8.ofNat code] := by decide +kernel
  have hbyte := hall byte.toNat byte.toNat_lt
  rw [UInt8.ofNat_toNat] at hbyte
  exact hbyte h

theorem addressValues_some {characters : List UInt8} {symbols : List Nat}
    (h : addressValues characters = some symbols) :
    (∀ symbol ∈ symbols, symbol < 32) ∧ characters = symbols.flatMap symbolBytes ∧
      symbols.length = characters.length := by
  induction characters generalizing symbols with
  | nil =>
      obtain rfl := Option.some.inj h
      exact ⟨by simp, rfl, rfl⟩
  | cons character rest ih =>
      rw [addressValues] at h
      by_cases hunknown : bech32Value character = 255
      · rw [if_pos hunknown] at h
        cases h
      · rw [if_neg hunknown] at h
        obtain ⟨others, hothers, rfl⟩ := Option.map_eq_some_iff.mp h
        obtain ⟨hsymbols, hbytes, hlength⟩ := ih hothers
        obtain ⟨hsymbol, hcharacter⟩ := bech32Value_symbol character hunknown
        refine ⟨List.forall_mem_cons.mpr ⟨hsymbol, hsymbols⟩, ?_, ?_⟩
        · rw [List.flatMap_cons, hcharacter, ← hbytes]
          rfl
        · rw [List.length_cons, List.length_cons, hlength]

/-- The symbol of a character. -/
def symbolOf (c : Char) : Nat := bech32Value (UInt8.ofNat c.toNat)

/-- A text whose bytes are all in the alphabet is one of ASCII characters. -/
theorem addressValues_chars {text : List Char} {symbols : List Nat}
    (h : addressValues (text.flatMap String.utf8EncodeChar) = some symbols) :
    symbols = text.map symbolOf ∧ ∀ c ∈ text, c.toNat < 128 ∧ symbolOf c ≠ 255 := by
  have hhigh : ∀ byte : UInt8, 128 ≤ byte.toNat → bech32Value byte = 255 := by
    intro byte hbyte
    have hall : ∀ code < 256, 128 ≤ code → bech32Value (UInt8.ofNat code) = 255 := by decide +kernel
    have := hall byte.toNat byte.toNat_lt hbyte
    rwa [UInt8.ofNat_toNat] at this
  induction text generalizing symbols with
  | nil =>
      obtain rfl := Option.some.inj h
      exact ⟨rfl, by simp⟩
  | cons c cs ih =>
      rw [List.flatMap_cons] at h
      by_cases hascii : c.toNat < 128
      · rw [utf8EncodeChar_ascii hascii, List.singleton_append, addressValues, ← symbolOf] at h
        by_cases hunknown : symbolOf c = 255
        · rw [if_pos hunknown] at h
          cases h
        · rw [if_neg hunknown] at h
          obtain ⟨others, hothers, rfl⟩ := Option.map_eq_some_iff.mp h
          obtain ⟨rfl, hchars⟩ := ih hothers
          exact ⟨rfl, List.forall_mem_cons.mpr ⟨⟨hascii, hunknown⟩, hchars⟩⟩
      · obtain ⟨byte, others, hbytes, hbyte⟩ := utf8EncodeChar_high (Nat.le_of_not_lt hascii)
        rw [hbytes, List.cons_append, addressValues, if_pos (hhigh byte hbyte)] at h
        cases h

theorem symbolOf_injective {c c' : Char} (hc : c.toNat < 128 ∧ symbolOf c ≠ 255)
    (hc' : c'.toNat < 128 ∧ symbolOf c' ≠ 255) (h : symbolOf c = symbolOf c') : c = c' := by
  have hbyte := (bech32Value_symbol _ hc.2).2
  have hbyte' := (bech32Value_symbol _ hc'.2).2
  unfold symbolOf at h
  rw [h, hbyte', List.singleton_inj] at hbyte
  have hcode := congrArg UInt8.toNat hbyte
  rw [UInt8.toNat_ofNat', UInt8.toNat_ofNat'] at hcode
  exact Char.toNat_inj.mp (by omega)

/-! ## 2. What the checker accepts -/

theorem bech32Prefix_lt : ∀ value ∈ bech32Prefix, value < 32 := by decide

/-- The parts of an address: 52 symbols of payload and six of checksum. -/
structure Accepted (address : String) (data tail : List Nat) : Prop where
  data_length : data.length = 52
  tail_length : tail.length = 6
  data_lt : ∀ symbol ∈ data, symbol < 32
  tail_lt : ∀ symbol ∈ tail, symbol < 32
  bytes_eq : bytes address = [109, 109, 120, 49] ++ (data ++ tail).flatMap symbolBytes
  checksum_eq : bech32Polymod (bech32Prefix ++ data ++ tail) = checksumConstant
  padding_eq : packed 32 data % 16 = 0

theorem symbolBytes_length {symbols : List Nat} (h : ∀ symbol ∈ symbols, symbol < 32) :
    (symbols.flatMap symbolBytes).length = symbols.length :=
  (addressValues_some (addressValues_symbols h)).2.2.symm

theorem accepted_payload {data tail : List Nat} (hdata : data.length = 52) (htail : tail.length = 6) :
    ((bech32Prefix ++ (data ++ tail)).take ((bech32Prefix ++ (data ++ tail)).length - 6)).drop 7 =
      data := by
  have hlength : (bech32Prefix ++ (data ++ tail)).length - 6 = (bech32Prefix ++ data).length := by
    have hprefix : bech32Prefix.length = 7 := rfl
    simp only [List.length_append]
    omega
  rw [hlength, ← List.append_assoc, List.take_left]
  rfl

theorem Accepted.validate {address : String} {data tail : List Nat} (h : Accepted address data tail) :
    validateAddress address = true := by
  have hsymbols : ∀ symbol ∈ data ++ tail, symbol < 32 := by
    intro symbol hsymbol
    rcases List.mem_append.mp hsymbol with hfront | hback
    · exact h.data_lt symbol hfront
    · exact h.tail_lt symbol hback
  have hlength : (bytes address).length = 62 := by
    rw [h.bytes_eq, List.length_append, symbolBytes_length hsymbols, List.length_append,
      h.data_length, h.tail_length]
    rfl
  have htake : (bytes address).take 4 = [109, 109, 120, 49] := by
    rw [h.bytes_eq]
    rfl
  have hdrop : (bytes address).drop 4 = (data ++ tail).flatMap symbolBytes := by
    rw [h.bytes_eq]
    rfl
  unfold validateAddress
  by_cases hmmx : address = "MMX"
  · rw [if_pos hmmx]
  · simp only [hmmx, if_false, hlength, htake, hdrop, addressValues_symbols hsymbols]
    rw [if_neg (by simp), if_neg (by rw [← List.append_assoc]; exact not_not.mpr h.checksum_eq),
      accepted_payload h.data_length h.tail_length, pushSymbols_payload h.data_lt h.data_length,
      h.padding_eq]
    rfl

theorem accepted_of_validate {address : String} (hmmx : address ≠ "MMX")
    (h : validateAddress address = true) : ∃ data tail, Accepted address data tail := by
  unfold validateAddress at h
  simp only [hmmx, if_false] at h
  by_cases hshape : (bytes address).length ≠ 62 ∨ (bytes address).take 4 ≠ [109, 109, 120, 49]
  · rw [if_pos hshape] at h
    cases h
  · rw [if_neg hshape] at h
    obtain ⟨hlength, htake⟩ := not_or.mp hshape
    rw [not_not] at hlength htake
    cases hvalues : addressValues ((bytes address).drop 4) with
    | none =>
        rw [hvalues] at h
        cases h
    | some symbols =>
        rw [hvalues] at h
        obtain ⟨hsymbols, hbytes, hcount⟩ := addressValues_some hvalues
        rw [List.length_drop, hlength] at hcount
        have hparts : symbols.take 52 ++ symbols.drop 52 = symbols := List.take_append_drop 52 symbols
        have hdata : (symbols.take 52).length = 52 := by
          rw [List.length_take]
          omega
        have htail : (symbols.drop 52).length = 6 := by
          rw [List.length_drop]
          omega
        have hdata_lt : ∀ symbol ∈ symbols.take 52, symbol < 32 :=
          fun symbol hsymbol ↦ hsymbols symbol (List.mem_of_mem_take hsymbol)
        have htail_lt : ∀ symbol ∈ symbols.drop 52, symbol < 32 :=
          fun symbol hsymbol ↦ hsymbols symbol (List.mem_of_mem_drop hsymbol)
        simp only at h
        rw [← hparts] at h
        by_cases hchecksum : bech32Polymod (bech32Prefix ++ (symbols.take 52 ++ symbols.drop 52)) ≠
            checksumConstant
        · rw [if_pos hchecksum] at h
          cases h
        · rw [if_neg hchecksum, accepted_payload hdata htail,
            pushSymbols_payload hdata_lt hdata] at h
          refine ⟨symbols.take 52, symbols.drop 52, hdata, htail, hdata_lt, htail_lt, ?_, ?_, ?_⟩
          · rw [hparts, ← hbytes, ← htake, List.take_append_drop]
          · rw [List.append_assoc]
            exact not_not.mp hchecksum
          · simpa using h

/-! ## 3. What the writer builds -/

theorem checksumSymbols_packed {checksum : Nat} (h : checksum < 2 ^ 30) :
    packed 32 (checksumSymbols checksum) = checksum := by
  have hsymbols : checksumSymbols checksum = [checksum / 2 ^ 25 % 32, checksum / 2 ^ 20 % 32,
      checksum / 2 ^ 15 % 32, checksum / 2 ^ 10 % 32, checksum / 2 ^ 5 % 32, checksum / 2 ^ 0 % 32] := by
    simp only [checksumSymbols, powerOfTwo_eq]
    rfl
  rw [hsymbols]
  simp only [packed, List.foldl_cons, List.foldl_nil]
  omega

theorem checksumSymbols_lt (checksum : Nat) : ∀ symbol ∈ checksumSymbols checksum, symbol < 32 := by
  intro symbol hsymbol
  obtain ⟨i, -, rfl⟩ := List.mem_map.mp hsymbol
  exact Nat.mod_lt _ (by decide)

/-- The number that the six symbols of checksum stand for. -/
def checksumOf (data : List Nat) : Nat :=
  bech32Polymod (bech32Prefix ++ data ++ List.replicate 6 0) ^^^ checksumConstant

theorem prefixed_lt {data : List Nat} (h : ∀ symbol ∈ data, symbol < 32) :
    ∀ symbol ∈ bech32Prefix ++ data, symbol < 32 := by
  intro symbol hsymbol
  rcases List.mem_append.mp hsymbol with hprefix | hdata
  · exact bech32Prefix_lt symbol hprefix
  · exact h symbol hdata

theorem checksumOf_lt {data : List Nat} (h : ∀ symbol ∈ data, symbol < 32) :
    checksumOf data < 2 ^ 30 := by
  refine Nat.xor_lt_two_pow (polymod_lt ?_ (by decide)) (by decide)
  intro symbol hsymbol
  rcases List.mem_append.mp hsymbol with hfront | hzero
  · exact prefixed_lt h symbol hfront
  · rw [List.eq_of_mem_replicate hzero]
    decide

/-- The checksum holds for the symbols that the writer appends, and for no others. -/
theorem checksum_iff {data tail : List Nat} (hdata : ∀ symbol ∈ data, symbol < 32)
    (htail : ∀ symbol ∈ tail, symbol < 32) (hlength : tail.length = 6) :
    bech32Polymod (bech32Prefix ++ data ++ tail) = checksumConstant ↔
      tail = checksumSymbols (checksumOf data) := by
  rw [polymod_checksum (prefixed_lt hdata) htail hlength]
  have hpacked := checksumSymbols_packed (checksumOf_lt hdata)
  constructor
  · intro h
    refine packed_injective (by decide) (by rw [hlength]; rfl) htail
      (checksumSymbols_lt _) ?_
    rw [hpacked, checksumOf, ← h, ← Nat.xor_assoc, Nat.xor_self, Nat.zero_xor]
  · intro h
    rw [h, hpacked, checksumOf, ← Nat.xor_assoc, Nat.xor_self, Nat.zero_xor]

theorem addressText_bytes (digest : List UInt8) :
    bytes (addressText digest) = [109, 109, 120, 49] ++
      (convertEightToFive digest ++ checksumSymbols (checksumOf (convertEightToFive digest))).flatMap
        symbolBytes := by
  have hfold : ∀ (symbols : List Nat) (start : String),
      bytes (symbols.foldl (fun address value ↦ address ++ bech32Character value) start) =
        bytes start ++ symbols.flatMap symbolBytes := by
    intro symbols
    induction symbols with
    | nil => exact fun start ↦ (List.append_nil _).symm
    | cons symbol symbols ih =>
        intro start
        rw [List.foldl_cons, ih, bytes_append, List.append_assoc, List.flatMap_cons]
        rfl
  have hmmx1 : bytes "mmx1" = [109, 109, 120, 49] := by decide +kernel
  rw [← hmmx1]
  exact hfold _ "mmx1"

theorem addressText_accepted {digest : List UInt8} (h : digest.length = 32) :
    Accepted (addressText digest) (convertEightToFive digest)
      (checksumSymbols (checksumOf (convertEightToFive digest))) := by
  obtain ⟨hlength, hsymbols, hpacked⟩ := convertEightToFive_digest h
  refine ⟨hlength, rfl, hsymbols, checksumSymbols_lt _, addressText_bytes digest,
    (checksum_iff hsymbols (checksumSymbols_lt _) rfl).mpr rfl, ?_⟩
  rw [hpacked]
  exact Nat.mul_mod_left _ 16

theorem digest_of_data {data : List Nat} (hlength : data.length = 52)
    (hdata : ∀ symbol ∈ data, symbol < 32) (hpadding : packed 32 data % 16 = 0) :
    ∃ digest : List UInt8, digest.length = 32 ∧ convertEightToFive digest = data := by
  have hlt := packed_lt (by decide) hdata
  rw [hlength] at hlt
  have hnumber : packed 32 data / 16 < 256 ^ 32 := by omega
  obtain ⟨digits, hdigits, hbytes, hpacked⟩ := exists_packed (by decide) 32 hnumber
  have hdigest : (digits.map UInt8.ofNat).map UInt8.toNat = digits := by
    rw [List.map_map]
    refine (List.map_congr_left fun digit hdigit ↦ ?_).trans (List.map_id digits)
    exact UInt8.toNat_ofNat_of_lt' (hbytes digit hdigit)
  have hcount : (digits.map UInt8.ofNat).length = 32 := by rw [List.length_map, hdigits]
  obtain ⟨hsymbols, hsymbols_lt, hvalue⟩ := convertEightToFive_digest hcount
  refine ⟨digits.map UInt8.ofNat, hcount, ?_⟩
  refine packed_injective (by decide) (hsymbols.trans hlength.symm) hsymbols_lt hdata ?_
  rw [hvalue, hdigest, hpacked]
  omega

theorem convertEightToFive_injective {digest digest' : List UInt8} (h : digest.length = 32)
    (h' : digest'.length = 32) (heq : convertEightToFive digest = convertEightToFive digest') :
    digest = digest' := by
  have hpacked := (convertEightToFive_digest h).2.2
  rw [heq, (convertEightToFive_digest h').2.2] at hpacked
  have hbyte : ∀ digest : List UInt8, ∀ value ∈ digest.map UInt8.toNat, value < 256 := by
    intro digest value hvalue
    obtain ⟨byte, -, rfl⟩ := List.mem_map.mp hvalue
    exact byte.toNat_lt
  have hnumbers : digest.map UInt8.toNat = digest'.map UInt8.toNat := by
    refine packed_injective (by decide) ?_ (hbyte digest) (hbyte digest') (by omega)
    rw [List.length_map, List.length_map, h, h']
  exact (List.map_inj_right fun _ _ ↦ UInt8.toNat_inj.mp).mp hnumbers

/-! ## 4. Addresses -/

theorem eq_addressText {address : String} {data tail : List Nat} (h : Accepted address data tail)
    {digest : List UInt8} (hdigest : convertEightToFive digest = data) :
    addressText digest = address := by
  refine bytes_injective ?_
  have htail := (checksum_iff h.data_lt h.tail_lt h.tail_length).mp h.checksum_eq
  rw [addressText_bytes, h.bytes_eq, hdigest, ← htail]

theorem data_of_addressText {digest digest' : List UInt8} (h : digest.length = 32)
    (h' : digest'.length = 32) (heq : addressText digest = addressText digest') :
    digest = digest' := by
  have haccepted := addressText_accepted h
  have haccepted' := addressText_accepted h'
  have hsymbols : ∀ {digest data tail}, Accepted (addressText digest) data tail →
      addressValues ((bytes (addressText digest)).drop 4) = some (data ++ tail) := by
    intro digest data tail haccepted
    rw [haccepted.bytes_eq]
    refine addressValues_symbols fun symbol hsymbol ↦ ?_
    rcases List.mem_append.mp hsymbol with hdata | htail
    · exact haccepted.data_lt symbol hdata
    · exact haccepted.tail_lt symbol htail
  have hvalues := hsymbols haccepted
  rw [heq, hsymbols haccepted', Option.some.injEq] at hvalues
  have hdata := List.append_inj_left hvalues
    (haccepted'.data_length.trans haccepted.data_length.symm)
  exact convertEightToFive_injective h h' hdata.symm

/-- An accepted address as characters: a checksum over the symbols after `mmx1`. -/
theorem accepted_symbols {text : List Char} {data tail : List Nat}
    (h : Accepted (String.ofList ("mmx1".toList ++ text)) data tail) :
    bech32Polymod (bech32Prefix ++ text.map symbolOf) = checksumConstant ∧
      ∀ c ∈ text, c.toNat < 128 ∧ symbolOf c ≠ 255 := by
  have hmmx1 : "mmx1".toList.flatMap String.utf8EncodeChar = [109, 109, 120, 49] := by decide +kernel
  have hbytes := h.bytes_eq
  rw [bytes_eq, String.toList_ofList, List.flatMap_append, hmmx1] at hbytes
  have hrest := List.append_cancel_left hbytes
  have hsymbols : ∀ symbol ∈ data ++ tail, symbol < 32 := by
    intro symbol hsymbol
    rcases List.mem_append.mp hsymbol with hdata | htail
    · exact h.data_lt symbol hdata
    · exact h.tail_lt symbol htail
  have hvalues := addressValues_symbols hsymbols
  rw [← hrest] at hvalues
  obtain ⟨hmap, hchars⟩ := addressValues_chars hvalues
  rw [← hmap, ← List.append_assoc]
  exact ⟨h.checksum_eq, hchars⟩

theorem changed_rejected {front back : List Char} {c c' : Char} (hne : c' ≠ c)
    (h : validateAddress (String.ofList ("mmx1".toList ++ (front ++ c :: back))) = true) :
    validateAddress (String.ofList ("mmx1".toList ++ (front ++ c' :: back))) = false := by
  have hmmx : ∀ text : List Char, String.ofList ("mmx1".toList ++ text) ≠ "MMX" := by
    intro text heq
    have := congrArg String.toList heq
    rw [String.toList_ofList] at this
    have hfirst : some 'm' = some 'M' := congrArg List.head? this
    exact absurd hfirst (by decide)
  by_contra hvalid
  rw [Bool.not_eq_false] at hvalid
  obtain ⟨data, tail, haccepted⟩ := accepted_of_validate (hmmx _) h
  obtain ⟨data', tail', haccepted'⟩ := accepted_of_validate (hmmx _) hvalid
  obtain ⟨hchecksum, hchars⟩ := accepted_symbols haccepted
  obtain ⟨hchecksum', hchars'⟩ := accepted_symbols haccepted'
  -- the two texts have one checksum but differ in one symbol
  have hc := hchars c (by simp)
  have hc' := hchars' c' (by simp)
  have hsymbol : ∀ {c : Char}, symbolOf c ≠ 255 → symbolOf c < 32 :=
    fun hknown ↦ (bech32Value_symbol _ hknown).1
  have hlist : ∀ {text : List Char}, (∀ c ∈ text, c.toNat < 128 ∧ symbolOf c ≠ 255) →
      ∀ symbol ∈ text.map symbolOf, symbol < 32 := by
    intro text htext symbol hmem
    obtain ⟨c, hc, rfl⟩ := List.mem_map.mp hmem
    exact hsymbol (htext c hc).2
  rw [List.map_append, List.map_cons, ← List.append_assoc] at hchecksum hchecksum'
  refine polymod_changed (prefixed_lt (hlist fun c hc ↦ hchars c (by simp [hc])))
    (hlist fun c hc ↦ hchars c (by simp [hc])) (hsymbol hc.2) (hsymbol hc'.2) ?_
    (hchecksum.trans hchecksum'.symm)
  exact fun heq ↦ hne (symbolOf_injective hc hc' heq).symm

/-- The checker accepts the address of every digest.  All it accepts but the name of the coin is the
address of one digest, and no longer accepted with one character changed. -/
theorem addresses_checked :
    (∀ digest : List UInt8, digest.length = 32 → validateAddress (addressText digest) = true) ∧
    (∀ address, address ≠ "MMX" → validateAddress address = true →
      ∃! digest : List UInt8, digest.length = 32 ∧ addressText digest = address) ∧
    (∀ (front back : List Char) (c c' : Char), c' ≠ c →
      validateAddress (String.ofList ("mmx1".toList ++ (front ++ c :: back))) = true →
      validateAddress (String.ofList ("mmx1".toList ++ (front ++ c' :: back))) = false) := by
  refine ⟨fun digest h ↦ (addressText_accepted h).validate, fun address hmmx h ↦ ?_,
    fun front back c c' hne h ↦ changed_rejected hne h⟩
  obtain ⟨data, tail, haccepted⟩ := accepted_of_validate hmmx h
  obtain ⟨digest, hlength, hdigest⟩ :=
    digest_of_data haccepted.data_length haccepted.data_lt haccepted.padding_eq
  refine ⟨digest, ⟨hlength, eq_addressText haccepted hdigest⟩, ?_⟩
  rintro digest' ⟨hlength', haddress⟩
  exact data_of_addressText hlength' hlength
    (haddress.trans (eq_addressText haccepted hdigest).symm)

/-- The writer builds the address of the digest of a valid key. -/
theorem addressFromPublicKey_digest (native : Native) {publicKey : String}
    (hvalid : native.publicKeyValid (decodeHex publicKey) = true)
    (hdigest : (decodeHex (sha256Hex native.toNative publicKey)).length = 32) :
    addressFromPublicKey native publicKey =
      addressText (decodeHex (sha256Hex native.toNative publicKey)) := by
  unfold addressFromPublicKey
  rw [hvalid, if_neg (by simp)]
  exact if_neg (by rw [not_not]; exact hdigest)

end Stainless.Wallet
