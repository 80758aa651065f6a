import Stainless.Kvstore.AscendingLogs
import Stainless.Kvstore.KeyOrder
import Stainless.Kvstore.RangeRuns

/-!
# Typed tables

`Table` puts codecs in front of the byte-oriented table.  Over whole runs it is a sorted map with
versions: the bytes of the table are the image of that map, and so are those of its history.
-/

open Reasoning Stainless.Runtime

namespace Stainless.Kvstore

/-- The codecs that a `Table` is constructed with. -/
structure TableCodecs (K V : Type) extends TableKey K where
  encodeValue : V → Encoded
  decodeValue : Bytes → Decoded V

inductive TypedError where
  | codec (message : String)
  | table (error : TableError)
  deriving DecidableEq, Repr

abbrev TypedM := EStateM TypedError Handle

namespace TypedTable

/-! ## 1. Calls -/

variable {K V α : Type}

/-- A call of the base class. -/
def base (m : TableM α) : TypedM α := fun h ↦
  match m h with
  | .ok a h' => .ok a h'
  | .error e h' => .error (.table e) h'

def throwUnless (c : Bool) (message : String) : TypedM Unit :=
  if c then pure () else throw (.codec message)

theorem throwUnless_of {c : Bool} (h : c = true) (message : String) : throwUnless c message = pure () :=
  if_pos h

theorem throwUnless_of_not {c : Bool} (h : ¬c = true) (message : String) :
    throwUnless c message = throw (.codec message) :=
  if_neg h

def insert (codecs : TableCodecs K V) (key : K) (value : V) : TypedM Unit := do
  let keyBytes := codecs.encodeKey key
  throwUnless keyBytes.valid "key encoding failed"
  let valueBytes := codecs.encodeValue value
  throwUnless valueBytes.valid "value encoding failed"
  base (RawTable.insert keyBytes.bytes valueBytes.bytes)

/-- `none` is the result `false`, which leaves the reference as it is. -/
def find (codecs : TableCodecs K V) (key : K) : TypedM (Option V) := do
  let keyBytes := codecs.encodeKey key
  throwUnless keyBytes.valid "key encoding failed"
  match ← base (RawTable.find keyBytes.bytes) with
  | none => return none
  | some present =>
      let decoded := codecs.decodeValue present
      throwUnless decoded.valid "value decoding failed"
      return some decoded.value

/-- The loop over the entries of a range. -/
def decodeEntries (codecs : TableCodecs K V) : List (Bytes × Bytes) → TypedM (List (K × V))
  | [] => return []
  | entry :: entries => do
      let decodedKey := codecs.decodeKey entry.1
      let decodedValue := codecs.decodeValue entry.2
      throwUnless (decodedKey.valid && decodedValue.valid) "range decoding failed"
      return (decodedKey.value, decodedValue.value) :: (← decodeEntries codecs entries)

/-- The three range reads differ in the read of the base class only. -/
def readRange (codecs : TableCodecs K V) (read : Bytes → Bytes → TableM (List (Bytes × Bytes)))
    (lower upper : K) : TypedM (List (K × V)) := do
  let lowerBytes := codecs.encodeKey lower
  let upperBytes := codecs.encodeKey upper
  throwUnless (lowerBytes.valid && upperBytes.valid) "range key encoding failed"
  decodeEntries codecs (← base (read lowerBytes.bytes upperBytes.bytes))

def findRange (codecs : TableCodecs K V) (lower upper : K) : TypedM (List (K × V)) :=
  readRange codecs RawTable.findRange lower upper

def findRangeFirst (codecs : TableCodecs K V) (lower upper : K) (count : Nat) : TypedM (List (K × V)) :=
  readRange codecs (fun lower upper ↦ RawTable.findRangeFirst lower upper count) lower upper

def findRangeLast (codecs : TableCodecs K V) (lower upper : K) (count : Nat) : TypedM (List (K × V)) :=
  readRange codecs (fun lower upper ↦ RawTable.findRangeLast lower upper count) lower upper

/-! ## 2. Runs -/

/-- A call that changes the table. -/
inductive Call (K V : Type) where
  | insert (key : K) (value : V)
  | commit (version : UInt32)
  | revert (version : UInt32)
  | recover
  deriving DecidableEq, Repr

/-- As for the byte-oriented table, `insert` and `recover` count as `true`. -/
def Call.run (codecs : TableCodecs K V) : Call K V → TypedM Bool
  | .insert key value => do
      TypedTable.insert codecs key value
      return true
  | .commit version => base (RawTable.commit version)
  | .revert version => base (RawTable.revert version)
  | .recover => do
      base RawTable.recover
      return true

/-- The result of a call and the table it leaves. -/
def outcome (m : TypedM α) (t : Table) : Except TypedError α × Table :=
  match m ⟨t, .none⟩ with
  | .ok a h => (.ok a, h.toTable)
  | .error e h => (.error e, h.toTable)

def step (codecs : TableCodecs K V) (t : Table) (c : Call K V) : Table := (outcome (c.run codecs) t).2

/-- The call of the base class, if the codecs let it through. -/
def Call.raw (codecs : TableCodecs K V) : Call K V → Option Kvstore.Call
  | .insert key value =>
      if (codecs.encodeKey key).valid ∧ (codecs.encodeValue value).valid then
        some (.insert (codecs.encodeKey key).bytes (codecs.encodeValue value).bytes)
      else none
  | .commit version => some (.commit version)
  | .revert version => some (.revert version)
  | .recover => some .recover

/-- The base class has no I/O error and reverts cleanly. -/
def CleanStep (codecs : TableCodecs K V) (t : Table) (c : Call K V) : Prop :=
  ∀ raw, c.raw codecs = some raw → Kvstore.CleanStep t raw

instance (codecs : TableCodecs K V) (t : Table) (c : Call K V) : Decidable (CleanStep codecs t c) :=
  inferInstanceAs (Decidable (∀ raw, c.raw codecs = some raw → Kvstore.CleanStep t raw))

theorem outcome_base (m : TableM α) (t : Table) :
    outcome (base m) t = ((t.call .none m).result.mapError .table, (t.call .none m).table) := by
  rw [outcome, base, Table.call]
  cases m ⟨t, .none⟩ with
  | ok a h => rfl
  | error e h => rfl

theorem outcome_of_raw {codecs : TableCodecs K V} {c : Call K V} {raw : Kvstore.Call}
    (h : c.raw codecs = some raw) (t : Table) :
    outcome (c.run codecs) t = ((t.outcome raw).result.mapError .table, t.step raw) := by
  cases c with
  | insert key value =>
      rw [Call.raw] at h
      split at h
      case isTrue hvalid =>
        cases h
        have hrun : Call.run codecs (.insert key value) = base (Kvstore.Call.run (.insert
            (codecs.encodeKey key).bytes (codecs.encodeValue value).bytes)) := by
          rw [Call.run, insert]
          dsimp only
          rw [throwUnless_of hvalid.1, throwUnless_of hvalid.2]
          funext s
          simp only [base, Kvstore.Call.run, bind, EStateM.bind, pure, EStateM.pure]
          cases RawTable.insert (codecs.encodeKey key).bytes (codecs.encodeValue value).bytes s with
          | ok a s' => rfl
          | error e s' => rfl
        rw [hrun, outcome_base]
        rfl
      case isFalse => cases h
  | commit version =>
      cases h
      exact outcome_base _ t
  | revert version =>
      cases h
      exact outcome_base _ t
  | recover =>
      cases h
      have hrun : Call.run codecs .recover = base (Kvstore.Call.run .recover) := by
        funext s
        simp only [Call.run, base, Kvstore.Call.run, bind, EStateM.bind, pure, EStateM.pure]
        cases RawTable.recover s with
        | ok a s' => rfl
        | error e s' => rfl
      rw [hrun, outcome_base]
      rfl

/-- A call that the codecs refuse fails, and leaves the table as it is. -/
theorem outcome_of_refused {codecs : TableCodecs K V} {c : Call K V} (h : c.raw codecs = none) (t : Table) :
    (∃ message, (outcome (c.run codecs) t).1 = .error (.codec message)) ∧ step codecs t c = t := by
  cases c with
  | insert key value =>
      rw [Call.raw] at h
      split at h
      case isTrue => cases h
      case isFalse hvalid =>
        rw [step, Call.run, insert]
        dsimp only
        by_cases hkey : (codecs.encodeKey key).valid = true
        · have hvalue : ¬(codecs.encodeValue value).valid = true := fun hvalue ↦ hvalid ⟨hkey, hvalue⟩
          rw [throwUnless_of hkey, throwUnless_of_not hvalue]
          exact ⟨⟨_, rfl⟩, rfl⟩
        · rw [throwUnless_of_not hkey]
          exact ⟨⟨_, rfl⟩, rfl⟩
  | commit version => cases h
  | revert version => cases h
  | recover => cases h

end TypedTable

/-! ## 3. The byte-oriented table as a store with versions -/

/-- What a call that returns true does to the answers of `find`. -/
def Call.edit : Call → Edit View
  | .insert key value => .update fun view key' ↦ if key = key' then .ok (some value) else view key'
  | .commit version => .commit version
  | .revert version => .revert version
  | .recover => .rollback

/-- The log of the table gives the answers and the history of a store. -/
def Holds (v : Versions View) (t : Table) : Prop := ∃ log, Follows v.marks log t ∧ t.view = v.live

theorem holds_created : Holds ⟨emptyView, []⟩ Table.created := by
  refine ⟨[], ⟨agrees_created, chronological_nil, rfl⟩, ?_⟩
  rw [agrees_created.view_eq, viewOf_nil]
  rfl

section

variable {v : Versions View} {log : List IndexRecord} {t : Table} {c : Call}

theorem viewOf_committed (data : Bytes) (log : List IndexRecord) :
    viewOf data (committed log) = Versions.committed emptyView (marksOf data log) := by
  induction log using List.reverseRecOn with
  | nil => exact viewOf_nil data
  | append_singleton log r ih =>
      cases r with
      | insert i => rw [committed_insert, marksOf_insert, ih]
      | commit m => rw [committed_commit, marksOf_commit, Versions.committed, List.getLast?_concat]

theorem Holds.current (h : Holds v t) : t.state.currentVersion = Mark.last v.marks := by
  obtain ⟨log, hf, -⟩ := h
  rw [hf.version, hf.marks, last_marksOf]

/-- One call edits the store. -/
theorem Holds.step (h : Holds v t) (hc : CleanStep t c) :
    Holds (if (t.outcome c).result = .ok true then v.apply emptyView c.edit else v) (t.step c) := by
  obtain ⟨log, hf, hview⟩ := h
  obtain ⟨log', adv⟩ := hf.toSettled.advance c hc.1
  have hnext := hf.advanced hc.2 adv
  refine ⟨log', ?_⟩
  unfold history at hnext
  generalize (t.outcome c).result = r at *
  generalize t.step c = t' at *
  cases adv with
  | idle _ hr =>
      rw [if_neg hr] at hnext ⊢
      exact ⟨hnext, hview⟩
  | @inserted key value bytes hbytes =>
      rw [if_pos rfl] at hnext ⊢
      refine ⟨hnext, funext fun key' ↦ ?_⟩
      rw [hf.view_inserted hbytes hnext.toAgrees (hf.inserted_content bytes), hview]
      rfl
  | @committed version hversion =>
      rw [if_pos rfl] at hnext ⊢
      dsimp only at hnext
      rw [hf.version] at hversion
      -- a marker changes no answer
      have hsame := hnext.view_eq
      dsimp only at hsame
      rw [hf.committedData_content, Table.newMarker, viewOf_commit hf.chronological hversion, ← hf.view_eq] at hsame
      rw [hsame] at hnext
      rw [Call.edit, Versions.apply]
      dsimp only
      rw [← hview]
      exact ⟨hnext, hsame⟩
  | reverted hsplit hversion =>
      rw [if_pos rfl] at hnext ⊢
      dsimp only at hnext
      obtain ⟨-, hboundary, -⟩ := hsplit.boundary_marks hf (hc.2 hversion).2 hnext.toAgrees
        (hsplit.data_content hf.toBacked)
      have hboundary' : Mark.boundary emptyView _ v.marks = some _ := hboundary
      rw [Call.edit, Versions.apply, hboundary']
      exact ⟨hnext, rfl⟩
  | recovered =>
      rw [if_pos rfl] at hnext ⊢
      refine ⟨hnext, ?_⟩
      rw [hnext.view_eq]
      dsimp only
      rw [hf.toBacked.trim_data_content, Call.edit, Versions.apply]
      dsimp only
      obtain ⟨hextent, hfits⟩ := hf.committed_fits
      rw [hf.marks, ← viewOf_committed, ← (replay_committed log).2.2, viewOf_take hextent hfits]

end

/-! ## 4. The map of a typed table -/

theorem OrderedBy.of_compare {T : Type} {encode : T → Bytes} {lt : T → T → Prop} (h : OrderedBy encode lt)
    {a b : T} (hlt : compare (encode a) (encode b) = .lt) : lt a b := by
  rcases h.total a b with hab | rfl | hba
  · exact hab
  · rw [Std.ReflOrd.compare_self] at hlt
    cases hlt
  · exact absurd hba ((h.isLE_iff a b).mp (by rw [hlt]; rfl))

variable {K V : Type}

/-- A value that can be written. -/
abbrev TableCodecs.Storable (codecs : TableCodecs K V) : Type :=
  { value : V // (codecs.encodeValue value).valid = true }

/-- Keys are read back and compare as their bytes, and values that can be written are read back. -/
structure TableCodecs.Lawful (codecs : TableCodecs K V) (lt : K → K → Prop) : Prop where
  key : codecs.toTableKey.Lawful
  ordered : OrderedBy codecs.toTableKey.keyBytes lt
  value : ∀ value, (codecs.encodeValue value).valid = true →
    codecs.decodeValue (codecs.encodeValue value).bytes = ⟨true, value⟩

namespace TypedTable

variable {codecs : TableCodecs K V} {lt : K → K → Prop} {t : Table}

/-- The answers in bytes that stand for a map. -/
def stored (codecs : TableCodecs K V) (map : K → Option codecs.Storable) : View := fun bytes ↦
  let key := codecs.decodeKey bytes
  if key.valid then .ok ((map key.value).map fun value ↦ (codecs.encodeValue value.val).bytes)
  else .ok none

/-- What a call that succeeds does to the map. -/
def Call.edit [DecidableEq K] (codecs : TableCodecs K V) : Call K V → Edit (K → Option codecs.Storable)
  | .insert key value =>
      .update fun map key' ↦
        if key = key' then
          if h : (codecs.encodeValue value).valid = true then some ⟨value, h⟩ else none
        else map key'
  | .commit version => .commit version
  | .revert version => .revert version
  | .recover => .rollback

/-- The store of the versioned map after one more call. -/
def note [DecidableEq K] (codecs : TableCodecs K V) (v : Versions (K → Option codecs.Storable)) (t : Table)
    (c : Call K V) : Versions (K → Option codecs.Storable) :=
  if (outcome (c.run codecs) t).1 = .ok true then v.apply (fun _ ↦ none) (c.edit codecs) else v

theorem stored_none (codecs : TableCodecs K V) : stored codecs (fun _ ↦ none) = emptyView := by
  funext bytes
  rw [stored, emptyView]
  split <;> rfl

theorem stored_key (h : codecs.Lawful lt) (map : K → Option codecs.Storable) (key : K) :
    stored codecs map (codecs.encodeKey key).bytes =
      .ok ((map key).map fun value ↦ (codecs.encodeValue value.val).bytes) := by
  rw [stored, h.key.decode_encode]
  rfl

/-- What is found under some bytes was stored under the key that they encode. -/
theorem stored_some (h : codecs.Lawful lt) {map : K → Option codecs.Storable} {bytes found : Bytes}
    (hfound : stored codecs map bytes = .ok (some found)) :
    ∃ key value, (codecs.encodeKey key).bytes = bytes ∧ map key = some value ∧
      (codecs.encodeValue value.val).bytes = found := by
  rw [stored] at hfound
  split at hfound
  case isTrue hvalid =>
    injection hfound with hfound
    obtain ⟨value, hvalue, rfl⟩ := Option.map_eq_some_iff.mp hfound
    refine ⟨_, value, h.key.encode_decode bytes (codecs.decodeKey bytes).value ?_, hvalue, rfl⟩
    rw [← hvalid]
  case isFalse => cases hfound

theorem edit_maps [DecidableEq K] (h : codecs.Lawful lt) {c : Call K V} {raw : Kvstore.Call}
    (hraw : c.raw codecs = some raw) (map : K → Option codecs.Storable) :
    Edit.Maps (stored codecs) map (c.edit codecs) raw.edit := by
  cases c with
  | insert key value =>
      rw [Call.raw] at hraw
      split at hraw
      case isTrue hvalid =>
        cases hraw
        refine .update (funext fun bytes ↦ ?_)
        by_cases hbytes : (codecs.encodeKey key).bytes = bytes
        · rw [if_pos hbytes, ← hbytes, stored_key h, if_pos rfl, dif_pos hvalid.2]
          rfl
        · rw [if_neg hbytes, stored, stored]
          by_cases hkey : (codecs.decodeKey bytes).valid = true
          · -- another key was decoded, for these bytes are not those of the key
            have hother : key ≠ (codecs.decodeKey bytes).value := by
              intro heq
              refine hbytes (h.key.encode_decode bytes key ?_)
              rw [heq, ← hkey]
            rw [if_pos hkey, if_pos hkey, if_neg hother]
          · rw [if_neg hkey, if_neg hkey]
      case isFalse => cases hraw
  | commit version =>
      cases hraw
      exact .commit version
  | revert version =>
      cases hraw
      exact .revert version
  | recover =>
      cases hraw
      exact .rollback

theorem mapError_ok_iff {r : Except TableError Bool} :
    r.mapError TypedError.table = .ok true ↔ r = .ok true := by
  cases r with
  | ok b => simp [Except.mapError]
  | error e => simp [Except.mapError]

theorem holds_step [DecidableEq K] (h : codecs.Lawful lt) {v : Versions (K → Option codecs.Storable)}
    {c : Call K V} (hv : Holds (v.map (stored codecs)) t) (hc : CleanStep codecs t c) :
    Holds ((note codecs v t c).map (stored codecs)) (step codecs t c) := by
  rw [note]
  cases hraw : c.raw codecs with
  | none =>
      obtain ⟨⟨message, herror⟩, hsame⟩ := outcome_of_refused hraw t
      rw [herror, if_neg nofun, hsame]
      exact hv
  | some raw =>
      have hnext := hv.step (hc raw hraw)
      rw [step, outcome_of_raw hraw]
      dsimp only
      by_cases hok : (t.outcome raw).result = .ok true
      · rw [if_pos hok] at hnext
        rw [if_pos (mapError_ok_iff.mpr hok), ← Versions.apply_map (edit_maps h hraw v.live), stored_none]
        exact hnext
      · rw [if_neg hok] at hnext
        rw [if_neg fun hmapped ↦ hok (mapError_ok_iff.mp hmapped)]
        exact hnext

/-! ## 5. Reads -/

section

variable {α β : Type} {map : K → Option codecs.Storable}

theorem outcome_bind {m : TableM α} {k : α → TypedM β} {a : α} {b : β}
    (hm : (t.call .none m).result = .ok a) (hk : k a = pure b) : (outcome (base m >>= k) t).1 = .ok b := by
  rw [Table.call] at hm
  simp only [outcome, bind, EStateM.bind, base]
  cases hrun : m ⟨t, .none⟩ with
  | ok a' h =>
      rw [hrun] at hm
      cases hm
      dsimp only
      rw [hk]
      rfl
  | error e h =>
      rw [hrun] at hm
      cases hm

theorem find_eq (h : codecs.Lawful lt) (hview : t.view = stored codecs map) (key : K) :
    (outcome (find codecs key) t).1 = .ok ((map key).map Subtype.val) := by
  have hread := congrFun hview (codecs.encodeKey key).bytes
  rw [stored_key h] at hread
  rw [find]
  dsimp only
  rw [throwUnless_of (h.key.valid key), pure_bind]
  refine outcome_bind hread ?_
  cases map key with
  | none => rfl
  | some value =>
      dsimp only [Option.map_some]
      rw [h.value value.val value.property, throwUnless_of rfl, pure_bind]

/-- A stored entry, as the loop of a range read returns it. -/
def decodeEntry (codecs : TableCodecs K V) (entry : Bytes × Bytes) : K × V :=
  ((codecs.decodeKey entry.1).value, (codecs.decodeValue entry.2).value)

/-- The entry is that of a key and its value. -/
def Stored (codecs : TableCodecs K V) (map : K → Option codecs.Storable) (entry : Bytes × Bytes) : Prop :=
  ∃ key value, entry = ((codecs.encodeKey key).bytes, (codecs.encodeValue value.val).bytes) ∧
    map key = some value

theorem Stored.decodes (h : codecs.Lawful lt) {entry : Bytes × Bytes} (he : Stored codecs map entry) :
    (codecs.decodeKey entry.1).valid = true ∧ (codecs.decodeValue entry.2).valid = true ∧
      codecs.toTableKey.keyBytes (decodeEntry codecs entry).1 = entry.1 ∧
      (map (decodeEntry codecs entry).1).map Subtype.val = some (decodeEntry codecs entry).2 := by
  obtain ⟨key, value, rfl, hvalue⟩ := he
  rw [decodeEntry, h.key.decode_encode, h.value value.val value.property]
  refine ⟨rfl, rfl, rfl, ?_⟩
  dsimp only
  rw [hvalue]
  rfl

theorem decodeEntries_eq (h : codecs.Lawful lt) {entries : List (Bytes × Bytes)}
    (hall : ∀ entry ∈ entries, Stored codecs map entry) :
    decodeEntries codecs entries = pure (entries.map (decodeEntry codecs)) := by
  induction entries with
  | nil => rfl
  | cons entry entries ih =>
      obtain ⟨hkey, hvalue, -⟩ := (hall entry List.mem_cons_self).decodes h
      rw [decodeEntries]
      rw [throwUnless_of (by rw [hkey, hvalue]; rfl), pure_bind,
        ih fun e he ↦ hall e (List.mem_cons_of_mem _ he), pure_bind]
      rfl

theorem readRange_eq (h : codecs.Lawful lt) {read : Bytes → Bytes → TableM (List (Bytes × Bytes))}
    {lower upper : K} {entries : List (Bytes × Bytes)}
    (hread : (t.call .none (read (codecs.encodeKey lower).bytes (codecs.encodeKey upper).bytes)).result =
      .ok entries) (hall : ∀ entry ∈ entries, Stored codecs map entry) :
    (outcome (readRange codecs read lower upper) t).1 = .ok (entries.map (decodeEntry codecs)) := by
  rw [readRange]
  rw [throwUnless_of (by rw [h.key.valid lower, h.key.valid upper]; rfl), pure_bind]
  exact outcome_bind hread (decodeEntries_eq h hall)

/-- The three range reads list the map between two keys, in the order of the keys. -/
theorem ranges_eq (h : codecs.Lawful lt) {v : Versions (K → Option codecs.Storable)}
    (hv : Holds (v.map (stored codecs)) t) (lower upper : K) (count : Nat) :
    ∃ found, (outcome (findRange codecs lower upper) t).1 = .ok found ∧
      found.Pairwise (fun a b ↦ lt a.1 b.1) ∧
      (∀ key value, (key, value) ∈ found ↔
        (¬lt key lower ∧ ¬lt upper key) ∧ (v.live key).map Subtype.val = some value) ∧
      (outcome (findRangeFirst codecs lower upper count) t).1 = .ok (found.take count) ∧
      (outcome (findRangeLast codecs lower upper count) t).1 = .ok (found.reverse.take count) := by
  obtain ⟨log, hf, hview⟩ := hv
  have hview' : t.view = stored codecs v.live := hview
  have hs : t.state.NoneHidden := by
    intro k version hk
    rw [hf.indexEq] at hk
    rw [hf.version]
    exact hf.chronological.noneHidden k version hk
  obtain ⟨entries, hrange, hsorted, hmem, hfirst, hlast⟩ := hf.toBacked.ranges hs
    (codecs.encodeKey lower).bytes (codecs.encodeKey upper).bytes count
  have hall : ∀ entry ∈ entries, Stored codecs v.live entry := by
    intro entry hentry
    have hfound := ((hmem entry.1 entry.2).mp hentry).2
    rw [hview'] at hfound
    obtain ⟨key, value, hkey, hvalue, hbytes⟩ := stored_some h hfound
    exact ⟨key, value, by rw [hkey, hbytes], hvalue⟩
  refine ⟨entries.map (decodeEntry codecs), readRange_eq h hrange hall, ?_, fun key value ↦ ?_, ?_, ?_⟩
  · rw [List.pairwise_map]
    refine hsorted.imp_of_mem fun {a b} ha hb hlt ↦ ?_
    obtain ⟨-, -, ha, -⟩ := (hall a ha).decodes h
    obtain ⟨-, -, hb, -⟩ := (hall b hb).decodes h
    rw [← ha, ← hb] at hlt
    exact h.ordered.of_compare hlt
  · rw [List.mem_map, ← h.ordered.between_iff]
    constructor
    · rintro ⟨entry, hentry, hdecoded⟩
      obtain ⟨-, -, hkey, hvalue⟩ := (hall entry hentry).decodes h
      rw [hdecoded] at hkey hvalue
      refine ⟨?_, hvalue⟩
      rw [hkey]
      exact ((hmem entry.1 entry.2).mp hentry).1
    · rintro ⟨hbetween, hvalue⟩
      obtain ⟨value, hlive, rfl⟩ := Option.map_eq_some_iff.mp hvalue
      refine ⟨((codecs.encodeKey key).bytes, (codecs.encodeValue value.val).bytes),
        (hmem _ _).mpr ⟨hbetween, ?_⟩, ?_⟩
      · rw [hview', stored_key h, hlive]
        rfl
      · rw [decodeEntry, h.key.decode_encode, h.value value.val value.property]
  · rw [← List.map_take]
    exact readRange_eq h hfirst fun entry hentry ↦ hall entry (List.mem_of_mem_take hentry)
  · rw [← List.map_reverse, ← List.map_take]
    exact readRange_eq h hlast fun entry hentry ↦ hall entry (List.mem_reverse.mp (List.mem_of_mem_take hentry))

end

/-! ## 6. Runs -/

theorem holds_run [DecidableEq K] (h : codecs.Lawful lt) {calls : List (Call K V)}
    (hrun : Meets (step codecs) (CleanStep codecs) Table.created calls) :
    Holds ((run (watch (step codecs) (note codecs)) (Table.created, ⟨fun _ ↦ none, []⟩) calls).2.map (stored codecs))
      (run (step codecs) Table.created calls) := by
  rw [← run_watch_fst (note codecs) Table.created ⟨fun _ ↦ none, []⟩ calls]
  refine (hrun.watch (note codecs) ⟨fun _ ↦ none, []⟩).invariant
    (I := fun p ↦ Holds (p.2.map (stored codecs)) p.1) ?_ fun p c hp hc ↦ holds_step h hp hc
  rw [Versions.map, stored_none]
  exact holds_created

/-- A typed table is a sorted map with versions, over every run without I/O errors and without unclean
reverts: all its reads answer from that map, no stored entry fails to decode, and the ranges come in
the order of the keys. -/
theorem typed_table_is_versioned_map [DecidableEq K] (h : codecs.Lawful lt) (calls : List (Call K V))
    (hrun : Meets (step codecs) (CleanStep codecs) Table.created calls) :
    let t := run (step codecs) Table.created calls
    let v := (run (watch (step codecs) (note codecs)) (Table.created, ⟨fun _ ↦ none, []⟩) calls).2
    t.state.currentVersion = Mark.last v.marks ∧
      (∀ key, (outcome (find codecs key) t).1 = .ok ((v.live key).map Subtype.val)) ∧
      ∀ lower upper count, ∃ found, (outcome (findRange codecs lower upper) t).1 = .ok found ∧
        found.Pairwise (fun a b ↦ lt a.1 b.1) ∧
        (∀ key value, (key, value) ∈ found ↔
          (¬lt key lower ∧ ¬lt upper key) ∧ (v.live key).map Subtype.val = some value) ∧
        (outcome (findRangeFirst codecs lower upper count) t).1 = .ok (found.take count) ∧
        (outcome (findRangeLast codecs lower upper count) t).1 = .ok (found.reverse.take count) := by
  have hv := holds_run h hrun
  refine ⟨hv.current.trans (Mark.last_map _ _), fun key ↦ ?_, fun lower upper count ↦ ranges_eq h hv lower upper count⟩
  obtain ⟨log, -, hview⟩ := hv
  exact find_eq h hview key

/-- Keys of a number and a list of strings, with numbers as values. -/
private def counters : TableCodecs (UInt8 × List String) UInt64 where
  toTableKey := jsonTable2 (KeyType.codec .u8) (KeyType.codec (.vec .string))
  encodeValue := Codecs.u64Key.encode
  decodeValue := (jsonTable1 Codecs.u64Key).decodeKey

private theorem counters_lawful :
    counters.Lawful (Prod.Lex (KeyType.lt .u8) (KeyType.lt (.vec .string))) where
  key := jsonTable2_lawful (KeyType.codec_lawful .u8) (KeyType.codec_lawful (.vec .string))
  ordered := jsonTable2_orderedBy .u8 (.vec .string)
  value value _ := (jsonTable1_lawful Codecs.u64Key_lawful).decode_encode value

private def counted : List (Call (UInt8 × List String) UInt64) :=
  [.insert (1, ["a"]) 7, .commit 1, .insert (1, ["a", "b"]) 8, .insert (1, ["a"]) 9, .commit 3,
    .insert (2, []) 1, .revert 2, .insert (0, ["c"]) 4]

private theorem counted_clean : Meets (step counters) (CleanStep counters) Table.created counted := by
  decide +kernel

theorem typed_table_is_versioned_map_counted :
    let t := run (step counters) Table.created counted
    let v := (run (watch (step counters) (note counters)) (Table.created, ⟨fun _ ↦ none, []⟩) counted).2
    t.state.currentVersion = Mark.last v.marks ∧
      (∀ key, (outcome (find counters key) t).1 = .ok ((v.live key).map Subtype.val)) ∧
      ∀ lower upper count, ∃ found, (outcome (findRange counters lower upper) t).1 = .ok found ∧
        found.Pairwise (fun a b ↦ Prod.Lex (KeyType.lt .u8) (KeyType.lt (.vec .string)) a.1 b.1) ∧
        (∀ key value, (key, value) ∈ found ↔
          (¬Prod.Lex (KeyType.lt .u8) (KeyType.lt (.vec .string)) key lower ∧
              ¬Prod.Lex (KeyType.lt .u8) (KeyType.lt (.vec .string)) upper key) ∧
            (v.live key).map Subtype.val = some value) ∧
        (outcome (findRangeFirst counters lower upper count) t).1 = .ok (found.take count) ∧
        (outcome (findRangeLast counters lower upper count) t).1 = .ok (found.reverse.take count) :=
  typed_table_is_versioned_map counters_lawful counted counted_clean

example : (outcome (findRange counters (0, []) (1, ["a", "b"])) (run (step counters) Table.created counted)).1 =
    .ok [((0, ["c"]), 4), ((1, ["a"]), 9), ((1, ["a", "b"]), 8)] := by
  decide +kernel

end TypedTable

end Stainless.Kvstore
