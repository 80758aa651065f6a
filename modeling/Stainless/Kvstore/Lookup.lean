import Stainless.Kvstore.Runs

/-!
# Point reads

`find` takes the entry of the greatest version at or below the current one.
-/

open Reasoning Stainless.Runtime Std

namespace Stainless.Kvstore

/-! ## The order of compound keys -/

theorem indexKey_lt_iff {k k' : Bytes} {v v' : UInt32} :
    compare ((k, v) : IndexKey) (k', v') = .lt ↔ compare k k' = .lt ∨ k = k' ∧ v < v' := by
  change (compare k k').then (compare v v') = .lt ↔ _
  rw [Ordering.then_eq_lt, LawfulEqOrd.compare_eq_iff_eq, compare_eq_lt (a := v)]

theorem indexKey_isLE_iff {k k' : Bytes} {v v' : UInt32} :
    (compare ((k, v) : IndexKey) (k', v')).isLE ↔ compare k k' = .lt ∨ k = k' ∧ v ≤ v' := by
  rw [Ordering.isLE_iff_eq_lt_or_eq_eq, indexKey_lt_iff, LawfulEqOrd.compare_eq_iff_eq,
    Prod.mk.injEq, or_assoc, ← and_or_left]
  refine or_congr Iff.rfl (and_congr Iff.rfl ?_)
  rw [← compare_eq_lt, ← LawfulEqOrd.compare_eq_iff_eq (a := v) (b := v'),
    ← Ordering.isLE_iff_eq_lt_or_eq_eq, isLE_compare]

theorem keyLt_irrefl (k : Bytes) : compare k k ≠ .lt := by
  rw [ReflOrd.compare_self]
  decide

theorem keyLt_trans {a b c : Bytes} (h : compare a b = .lt) (h' : compare b c = .lt) :
    compare a c = .lt := TransCmp.lt_trans h h'

theorem keyLe_iff {a b : Bytes} : (compare a b).isLE ↔ compare a b = .lt ∨ a = b := by
  rw [Ordering.isLE_iff_eq_lt_or_eq_eq, LawfulEqOrd.compare_eq_iff_eq]

/-- The interval that `find` reads holds the key at the versions up to the current one. -/
theorem point_range_iff {key k : Bytes} {v version : UInt32} :
    ((compare ((key, 0) : IndexKey) (k, v)).isLE && (compare ((k, v) : IndexKey) (key, version)).isLE)
      = true ↔ k = key ∧ v ≤ version := by
  rw [Bool.and_eq_true, indexKey_isLE_iff, indexKey_isLE_iff]
  constructor
  · rintro ⟨h | ⟨h, -⟩, h' | ⟨h', hv⟩⟩
    · exact absurd (keyLt_trans h h') (keyLt_irrefl _)
    · rw [h'] at h
      exact absurd h (keyLt_irrefl _)
    · rw [h] at h'
      exact absurd h' (keyLt_irrefl _)
    · exact ⟨h', hv⟩
  · rintro ⟨rfl, hv⟩
    exact ⟨.inr ⟨rfl, UInt32.zero_le⟩, .inr ⟨rfl, hv⟩⟩

/-! ## The entry that is read -/

/-- The entry of a key at its greatest version up to the current one. -/
def StoreState.latest (s : StoreState) (key : Bytes) : Option IndexEntry :=
  (s.index.withLastInRange (key, 0) (key, s.currentVersion)).map Prod.snd

/-- `e` is the entry of `key` at the greatest version up to the current one. -/
def StoreState.IsLatest (s : StoreState) (key : Bytes) (e : IndexEntry) : Prop :=
  ∃ v ≤ s.currentVersion, s.index[((key, v) : IndexKey)]? = some e ∧
    ∀ (v' : UInt32) (e' : IndexEntry), v' ≤ s.currentVersion →
      s.index[((key, v') : IndexKey)]? = some e' → v' ≤ v

theorem StoreState.IsLatest.unique {s : StoreState} {key : Bytes} {e e' : IndexEntry}
    (h : s.IsLatest key e) (h' : s.IsLatest key e') : e = e' := by
  obtain ⟨v, hv, he, hmax⟩ := h
  obtain ⟨v', hv', he', hmax'⟩ := h'
  have heq := UInt32.le_antisymm (hmax' v e hv he) (hmax v' e' hv' he')
  subst heq
  rw [he] at he'
  exact Option.some.inj he'

theorem StoreState.latest_eq_none {s : StoreState} {key : Bytes} (h : s.latest key = none)
    {v : UInt32} (hv : v ≤ s.currentVersion) : s.index[((key, v) : IndexKey)]? = none := by
  rw [latest, OrderedMap.withLastInRange, OrderedMap.withRange_eq_filter, Option.map_eq_none_iff,
    List.getLast?_eq_none_iff] at h
  cases he : s.index[((key, v) : IndexKey)]? with
  | none => rfl
  | some e =>
      have hp := OrderedMap.filter_eq_nil (e := ((key, v), e)) h he
      rw [point_range_iff.mpr ⟨rfl, hv⟩] at hp
      cases hp

theorem StoreState.isLatest_of_latest {s : StoreState} {key : Bytes} {e : IndexEntry}
    (h : s.latest key = some e) : s.IsLatest key e := by
  rw [latest, OrderedMap.withLastInRange, OrderedMap.withRange_eq_filter,
    Option.map_eq_some_iff] at h
  obtain ⟨⟨⟨k, v⟩, e'⟩, hlast, rfl⟩ := h
  obtain ⟨hmem, hp, hmax⟩ := OrderedMap.getLast?_filter_eq_some hlast
  obtain ⟨rfl, hv⟩ := point_range_iff.mp hp
  refine ⟨v, hv, hmem, fun v' e'' hv' he'' ↦ ?_⟩
  have hle := hmax ((k, v'), e'') he'' (point_range_iff.mpr ⟨rfl, hv'⟩)
  rcases indexKey_isLE_iff.mp hle with hlt | ⟨-, hle⟩
  · exact absurd hlt (keyLt_irrefl k)
  · exact hle

theorem StoreState.latest_eq_some_iff {s : StoreState} {key : Bytes} {e : IndexEntry} :
    s.latest key = some e ↔ s.IsLatest key e := by
  refine ⟨isLatest_of_latest, fun h ↦ ?_⟩
  cases hl : s.latest key with
  | none =>
      obtain ⟨v, hv, he, -⟩ := h
      rw [latest_eq_none hl hv] at he
      cases he
  | some e' => rw [(isLatest_of_latest hl).unique h]

/-! ## find -/

/-- `find` as a function of the state and the content of the data WAL. -/
def StoreState.lookup (s : StoreState) (data key : Bytes) : Except TableError (Option Bytes) :=
  match s.latest key with
  | none => .ok none
  | some e => some <$> preadContent data e.offset e.length

theorem StoreState.lookup_congr {s s' : StoreState} (hi : s.index = s'.index)
    (hv : s.currentVersion = s'.currentVersion) (data key : Bytes) :
    s.lookup data key = s'.lookup data key := by
  rw [lookup, lookup, latest, latest, hi, hv]

theorem find_reads (key : Bytes) :
    ReadsAs (RawTable.find key) fun t ↦ t.state.lookup t.dataLog.content key := by
  unfold RawTable.find
  refine .get (g := fun t₀ t ↦ t₀.state.lookup t.dataLog.content key) fun h ↦ ?_
  simp only [StoreState.lookup, StoreState.latest]
  cases h.state.index.withLastInRange (key, 0) (key, h.state.currentVersion) with
  | none => exact .pure none
  | some found =>
      exact .bind (preadExact_reads .data found.2.offset found.2.length) fun value ↦
        .pure (some value)

/-- What `find` answers. -/
def Table.view (t : Table) (key : Bytes) : Except TableError (Option Bytes) :=
  (t.call .none (RawTable.find key)).result

theorem Table.view_eq (t : Table) (key : Bytes) :
    t.view key = t.state.lookup t.dataLog.content key := (find_reads key).result t

end Stainless.Kvstore
