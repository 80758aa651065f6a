import Stainless.Kvstore.Lookup

/-!
# Range reads

The three range reads list what `find` sees, as long as no entry carries a version above the current
one.
-/

open Reasoning Stainless.Runtime Std

namespace Stainless.Kvstore

/-- Every entry is at or below the current version. -/
def StoreState.NoneHidden (s : StoreState) : Prop :=
  ∀ (k : Bytes) (v : UInt32), s.index[((k, v) : IndexKey)]? ≠ none → v ≤ s.currentVersion

/-- The entries that `find` sees from `lower` to `upper`, in ascending key order. -/
structure Visible (s : StoreState) (within : Bytes → Prop) (entries : List (Bytes × IndexEntry)) :
    Prop where
  sorted : entries.Pairwise fun a b ↦ compare a.1 b.1 = .lt
  mem : ∀ key e, (key, e) ∈ entries ↔ within key ∧ s.latest key = some e

def Between (lower upper key : Bytes) : Prop := (compare lower key).isLE ∧ (compare key upper).isLE

/-! ## The coalescing scan -/

/-- The last entry of every run of equal keys. -/
def lastEntries : List (IndexKey × IndexEntry) → List (Bytes × IndexEntry)
  | [] => []
  | [a] => [(a.1.1, a.2)]
  | a :: b :: rest =>
      if a.1.1 = b.1.1 then lastEntries (b :: rest) else (a.1.1, a.2) :: lastEntries (b :: rest)

theorem foldl_coalesce (done : List (Bytes × IndexEntry)) (a : IndexKey × IndexEntry)
    (entries : List (IndexKey × IndexEntry)) :
    let acc := entries.foldl RawTable.coalesce (done, some (a.1.1, a.2))
    acc.1 ++ acc.2.toList = done ++ lastEntries (a :: entries) := by
  induction entries generalizing done a with
  | nil => rfl
  | cons b entries ih =>
      rw [List.foldl_cons, lastEntries]
      by_cases h : a.1.1 = b.1.1
      · have hstep : RawTable.coalesce (done, some (a.1.1, a.2)) b = (done, some (b.1.1, b.2)) := by
          simp [RawTable.coalesce, h]
        rw [hstep, if_pos h]
        exact ih done b
      · have hstep : RawTable.coalesce (done, some (a.1.1, a.2)) b =
            (done ++ [(a.1.1, a.2)], some (b.1.1, b.2)) := by
          simp [RawTable.coalesce, h]
        rw [hstep, if_neg h]
        have hrest := ih (done ++ [(a.1.1, a.2)]) b
        simpa using hrest

theorem coalesce_eq_lastEntries (entries : List (IndexKey × IndexEntry)) :
    let acc := entries.foldl RawTable.coalesce ([], none)
    acc.1 ++ acc.2.toList = lastEntries entries := by
  cases entries with
  | nil => rfl
  | cons a entries => exact foldl_coalesce [] a entries

theorem mem_lastEntries_cons {a b : IndexKey × IndexEntry} {rest : List (IndexKey × IndexEntry)}
    {x : Bytes × IndexEntry} : x ∈ lastEntries (a :: b :: rest) ↔
      a.1.1 ≠ b.1.1 ∧ x = (a.1.1, a.2) ∨ x ∈ lastEntries (b :: rest) := by
  rw [lastEntries]
  split
  · rename_i h
    simp [h]
  · rename_i h
    simp [h]

/-- Behind a run of equal keys only greater keys follow. -/
private theorem key_lt_of_ne {a b : IndexKey × IndexEntry} {rest : List (IndexKey × IndexEntry)}
    (h : (a :: b :: rest).Pairwise fun a b ↦ compare a.1 b.1 = .lt) (hne : a.1.1 ≠ b.1.1) :
    ∀ x ∈ b :: rest, compare a.1.1 x.1.1 = .lt := by
  obtain ⟨ha, hrest⟩ := List.pairwise_cons.mp h
  have hab := (indexKey_lt_iff.mp (ha b List.mem_cons_self)).resolve_right fun h ↦ hne h.1
  intro x hx
  rcases List.mem_cons.mp hx with rfl | hx
  · exact hab
  · rcases indexKey_lt_iff.mp ((List.pairwise_cons.mp hrest).1 x hx) with hlt | ⟨heq, -⟩
    · exact keyLt_trans hab hlt
    · rwa [← heq]

/-- In ascending order the scan keeps the greatest version of every key. -/
theorem mem_lastEntries {entries : List (IndexKey × IndexEntry)}
    (h : entries.Pairwise fun a b ↦ compare a.1 b.1 = .lt) (key : Bytes) (e : IndexEntry) :
    (key, e) ∈ lastEntries entries ↔ ∃ v, ((key, v), e) ∈ entries ∧
      ∀ v' e', ((key, v'), e') ∈ entries → v' ≤ v := by
  induction entries with
  | nil => simp [lastEntries]
  | cons a rest ih =>
      obtain ⟨ha, hrest⟩ := List.pairwise_cons.mp h
      have ih := ih hrest
      cases rest with
      | nil =>
          rw [lastEntries, List.mem_singleton]
          constructor
          · rintro ⟨rfl, rfl⟩
            refine ⟨a.1.2, List.mem_singleton.mpr rfl, fun v' e' hin ↦ ?_⟩
            rw [← List.mem_singleton.mp hin]
            exact UInt32.le_refl _
          · rintro ⟨v, hin, -⟩
            rw [← List.mem_singleton.mp hin]
      | cons b rest =>
          rw [mem_lastEntries_cons, ih]
          constructor
          · rintro (⟨hne, hx⟩ | ⟨v, hin, hmax⟩)
            · -- the entry ends its run: nothing behind it has its key
              cases hx
              refine ⟨a.1.2, List.mem_cons_self, fun v' e' hin ↦ ?_⟩
              rcases List.mem_cons.mp hin with heq | hin
              · rw [← heq]
                exact UInt32.le_refl _
              · exact absurd (key_lt_of_ne h hne _ hin) (keyLt_irrefl _)
            · refine ⟨v, List.mem_cons_of_mem _ hin, fun v' e' hin' ↦ ?_⟩
              rcases List.mem_cons.mp hin' with heq | hin'
              · subst heq
                rcases indexKey_lt_iff.mp (ha _ hin) with hlt | ⟨-, hlt⟩
                · exact absurd hlt (keyLt_irrefl _)
                · exact UInt32.le_of_lt hlt
              · exact hmax v' e' hin'
          · rintro ⟨v, hin, hmax⟩
            rcases List.mem_cons.mp hin with heq | hin
            · subst heq
              refine .inl ⟨fun hkey ↦ ?_, rfl⟩
              have hb : ((key, b.1.2), b.2) ∈ ((key, v), e) :: b :: rest := by
                rw [show key = b.1.1 from hkey]
                exact List.mem_cons_of_mem _ List.mem_cons_self
              rcases indexKey_lt_iff.mp (ha b List.mem_cons_self) with hlt | ⟨-, hlt⟩
              · rw [← hkey] at hlt
                exact keyLt_irrefl _ hlt
              · exact UInt32.not_le.mpr hlt (hmax _ _ hb)
            · exact .inr ⟨v, hin, fun v' e' hin' ↦ hmax v' e' (List.mem_cons_of_mem _ hin')⟩

theorem lastEntries_sorted {entries : List (IndexKey × IndexEntry)}
    (h : entries.Pairwise fun a b ↦ compare a.1 b.1 = .lt) :
    (lastEntries entries).Pairwise fun a b ↦ compare a.1 b.1 = .lt := by
  induction entries with
  | nil => exact List.Pairwise.nil
  | cons a rest ih =>
      have ih := ih (List.pairwise_cons.mp h).2
      cases rest with
      | nil => exact List.pairwise_singleton _ _
      | cons b rest =>
          rw [lastEntries]
          split
          · exact ih
          · rename_i hne
            refine List.pairwise_cons.mpr ⟨fun x hx ↦ ?_, ih⟩
            obtain ⟨v, hin, -⟩ := (mem_lastEntries (List.pairwise_cons.mp h).2 x.1 x.2).mp hx
            exact key_lt_of_ne h hne _ hin

/-! ## Entries of a range -/

variable {s : StoreState}

/-- Without hidden entries the compound interval of a range is the interval of its keys. -/
theorem range_iff (h : s.NoneHidden) {lower upper k : Bytes} {v : UInt32} {e : IndexEntry}
    (he : s.index[((k, v) : IndexKey)]? = some e) :
    ((compare ((lower, 0) : IndexKey) (k, v)).isLE &&
        (compare ((k, v) : IndexKey) (upper, s.currentVersion)).isLE) = true ↔
      Between lower upper k := by
  have hv : v ≤ s.currentVersion := h k v (by rw [he]; exact Option.some_ne_none _)
  rw [Bool.and_eq_true, indexKey_isLE_iff, indexKey_isLE_iff, Between, keyLe_iff, keyLe_iff]
  have h0 : (0 : UInt32) ≤ v := UInt32.zero_le
  tauto

/-- Without hidden entries the latest entry of a key is the one at its greatest version. -/
theorem latest_iff (h : s.NoneHidden) {key : Bytes} {e : IndexEntry} :
    s.latest key = some e ↔ ∃ v, s.index[((key, v) : IndexKey)]? = some e ∧
      ∀ (v' : UInt32) (e' : IndexEntry), s.index[((key, v') : IndexKey)]? = some e' → v' ≤ v := by
  rw [StoreState.latest_eq_some_iff]
  constructor
  · rintro ⟨v, -, he, hmax⟩
    exact ⟨v, he, fun v' e' he' ↦ hmax v' e' (h key v' (by rw [he']; exact Option.some_ne_none _)) he'⟩
  · rintro ⟨v, he, hmax⟩
    exact ⟨v, h key v (by rw [he]; exact Option.some_ne_none _), he, fun v' e' _ he' ↦ hmax v' e' he'⟩

/-- The entries that `find_range` collects. -/
def StoreState.rangeEntries (s : StoreState) (lower upper : Bytes) : List (Bytes × IndexEntry) :=
  lastEntries (s.index.withRange (lower, 0) (upper, s.currentVersion))

theorem visible_rangeEntries (h : s.NoneHidden) (lower upper : Bytes) :
    Visible s (Between lower upper) (s.rangeEntries lower upper) := by
  have hsorted : (s.index.withRange (lower, 0) (upper, s.currentVersion)).Pairwise
      fun a b ↦ compare a.1 b.1 = .lt := by
    rw [OrderedMap.withRange_eq_filter]
    exact (OrderedMap.toList_sorted s.index).filter _
  have hmem (k : Bytes) (v : UInt32) (e : IndexEntry) :
      ((k, v), e) ∈ s.index.withRange (lower, 0) (upper, s.currentVersion) ↔
        s.index[((k, v) : IndexKey)]? = some e ∧ Between lower upper k := by
    rw [OrderedMap.withRange_eq_filter, List.mem_filter, OrderedMap.mem_toList_iff]
    exact and_congr_right fun he ↦ range_iff h he
  refine ⟨lastEntries_sorted hsorted, fun key e ↦ ?_⟩
  rw [StoreState.rangeEntries, mem_lastEntries hsorted, latest_iff h]
  simp only [hmem]
  constructor
  · rintro ⟨v, ⟨he, hb⟩, hmax⟩
    exact ⟨hb, v, he, fun v' e' he' ↦ hmax v' e' ⟨he', hb⟩⟩
  · rintro ⟨hb, v, he, hmax⟩
    exact ⟨v, ⟨he, hb⟩, fun v' e' he' ↦ hmax v' e' he'.1⟩

/-! ## The walks -/

namespace Visible

variable {within within' : Bytes → Prop} {entries : List (Bytes × IndexEntry)}

theorem congr (h : Visible s within entries) (hw : ∀ key, within key ↔ within' key) :
    Visible s within' entries :=
  ⟨h.sorted, fun key e ↦ (h.mem key e).trans (and_congr_left' (hw key))⟩

theorem tail {a : Bytes × IndexEntry} (h : Visible s within (a :: entries)) :
    Visible s (fun key ↦ within key ∧ compare a.1 key = .lt) entries := by
  obtain ⟨ha, hsorted⟩ := List.pairwise_cons.mp h.sorted
  refine ⟨hsorted, fun key e ↦ ⟨fun hin ↦ ?_, fun ⟨⟨hw, hlt⟩, he⟩ ↦ ?_⟩⟩
  · obtain ⟨hw, he⟩ := (h.mem key e).mp (List.mem_cons_of_mem _ hin)
    exact ⟨⟨hw, ha (key, e) hin⟩, he⟩
  · rcases List.mem_cons.mp ((h.mem key e).mpr ⟨hw, he⟩) with rfl | hin
    · exact absurd hlt (keyLt_irrefl _)
    · exact hin

theorem front {a : Bytes × IndexEntry} (h : Visible s within (entries ++ [a])) :
    Visible s (fun key ↦ within key ∧ compare key a.1 = .lt) entries := by
  obtain ⟨hsorted, -, ha⟩ := List.pairwise_append.mp h.sorted
  refine ⟨hsorted, fun key e ↦ ⟨fun hin ↦ ?_, fun ⟨⟨hw, hlt⟩, he⟩ ↦ ?_⟩⟩
  · obtain ⟨hw, he⟩ := (h.mem key e).mp (List.mem_append_left _ hin)
    exact ⟨⟨hw, ha (key, e) hin a (List.mem_singleton.mpr rfl)⟩, he⟩
  · rcases List.mem_append.mp ((h.mem key e).mpr ⟨hw, he⟩) with hin | hin
    · exact hin
    · rw [← List.mem_singleton.mp hin] at hlt
      exact absurd hlt (keyLt_irrefl _)

variable {p : IndexKey × IndexEntry → Bool}

/-- An entry in range means a visible key. -/
private theorem exists_mem (h : Visible s within entries) (hs : s.NoneHidden) {k : Bytes}
    {v : UInt32} {e : IndexEntry} (he : s.index[((k, v) : IndexKey)]? = some e) (hw : within k) :
    ∃ e', (k, e') ∈ entries := by
  cases hl : s.latest k with
  | none =>
      have hv := hs k v (by rw [he]; exact Option.some_ne_none _)
      rw [StoreState.latest_eq_none hl hv] at he
      cases he
  | some e' => exact ⟨e', (h.mem k e').mpr ⟨hw, hl⟩⟩

private theorem exists_entry (h : Visible s within entries) {a : Bytes × IndexEntry}
    (ha : a ∈ entries) : within a.1 ∧ ∃ v, s.index[((a.1, v) : IndexKey)]? = some a.2 := by
  obtain ⟨hw, hl⟩ := (h.mem a.1 a.2).mp ha
  obtain ⟨v, -, he, -⟩ := StoreState.latest_eq_some_iff.mp hl
  exact ⟨hw, v, he⟩

/-- The first entry in range has the first visible key. -/
theorem of_head? (h : Visible s within entries) (hs : s.NoneHidden)
    (hp : ∀ k v e, s.index[((k, v) : IndexKey)]? = some e → (p ((k, v), e) = true ↔ within k)) :
    match (s.index.toList.filter p).head? with
    | none => entries = []
    | some found => ∃ e rest, entries = (found.1.1, e) :: rest := by
  split
  · rename_i hnone
    cases entries with
    | nil => rfl
    | cons a rest =>
        obtain ⟨hw, v, he⟩ := h.exists_entry List.mem_cons_self
        have hf := OrderedMap.filter_eq_nil (e := ((a.1, v), a.2))
          (List.head?_eq_none_iff.mp hnone) he
        rw [(hp a.1 v a.2 he).mpr hw] at hf
        cases hf
  · rename_i found hfound
    obtain ⟨⟨k, v⟩, e₀⟩ := found
    obtain ⟨hmem, hpx, hmin⟩ := OrderedMap.head?_filter_eq_some hfound
    obtain ⟨e', hin⟩ := h.exists_mem hs hmem ((hp k v e₀ hmem).mp hpx)
    cases entries with
    | nil => exact absurd hin List.not_mem_nil
    | cons a rest =>
        refine ⟨a.2, rest, ?_⟩
        obtain ⟨hw, va, ha⟩ := h.exists_entry List.mem_cons_self
        have hle := hmin ((a.1, va), a.2) ha ((hp a.1 va a.2 ha).mpr hw)
        rcases List.mem_cons.mp hin with rfl | hin
        · rfl
        · have hlt := (List.pairwise_cons.mp h.sorted).1 _ hin
          rcases indexKey_isLE_iff.mp hle with hlt' | ⟨rfl, -⟩
          · exact absurd (keyLt_trans hlt hlt') (keyLt_irrefl _)
          · rfl

/-- The last entry in range is the last visible one. -/
theorem of_getLast? (h : Visible s within entries) (hs : s.NoneHidden)
    (hp : ∀ k v e, s.index[((k, v) : IndexKey)]? = some e → (p ((k, v), e) = true ↔ within k)) :
    match (s.index.toList.filter p).getLast? with
    | none => entries = []
    | some found => ∃ rest, entries = rest ++ [(found.1.1, found.2)] := by
  split
  · rename_i hnone
    cases entries with
    | nil => rfl
    | cons a rest =>
        obtain ⟨hw, v, he⟩ := h.exists_entry List.mem_cons_self
        have hf := OrderedMap.filter_eq_nil (e := ((a.1, v), a.2))
          (List.getLast?_eq_none_iff.mp hnone) he
        rw [(hp a.1 v a.2 he).mpr hw] at hf
        cases hf
  · rename_i found hfound
    obtain ⟨⟨k, v⟩, e₀⟩ := found
    obtain ⟨hmem, hpx, hmax⟩ := OrderedMap.getLast?_filter_eq_some hfound
    have hwk := (hp k v e₀ hmem).mp hpx
    have hlatest : s.latest k = some e₀ := by
      refine (latest_iff hs).mpr ⟨v, hmem, fun v' e' he' ↦ ?_⟩
      have hle := hmax ((k, v'), e') he' ((hp k v' e' he').mpr hwk)
      rcases indexKey_isLE_iff.mp hle with hlt | ⟨-, hle⟩
      · exact absurd hlt (keyLt_irrefl _)
      · exact hle
    have hin := (h.mem k e₀).mpr ⟨hwk, hlatest⟩
    rcases List.eq_nil_or_concat entries with rfl | ⟨rest, a, rfl⟩
    · exact absurd hin List.not_mem_nil
    · rw [List.concat_eq_append] at *
      refine ⟨rest, ?_⟩
      have ha : a ∈ rest ++ [a] := List.mem_append_right _ (List.mem_singleton.mpr rfl)
      obtain ⟨hw, va, hea⟩ := h.exists_entry ha
      have hle := hmax ((a.1, va), a.2) hea ((hp a.1 va a.2 hea).mpr hw)
      rcases List.mem_append.mp hin with hin | hin
      · have hlt := (List.pairwise_append.mp h.sorted).2.2 _ hin a (List.mem_singleton.mpr rfl)
        rcases indexKey_isLE_iff.mp hle with hlt' | ⟨heq, -⟩
        · exact absurd (keyLt_trans hlt hlt') (keyLt_irrefl _)
        · rw [heq] at hlt
          exact absurd hlt (keyLt_irrefl _)
      · rw [← List.mem_singleton.mp hin]

end Visible

/-- The keys that a walk upwards still has to report: at or above its bound when it starts there,
above it afterwards. -/
def Above (includeLower : Bool) (lower upper key : Bytes) : Prop :=
  (if includeLower then (compare lower key).isLE = true else compare lower key = .lt) ∧
    (compare key upper).isLE

def Below (includeUpper : Bool) (lower upper key : Bytes) : Prop :=
  (compare lower key).isLE ∧
    (if includeUpper then (compare key upper).isLE = true else compare key upper = .lt)

private theorem above_iff (h : s.NoneHidden) {lower upper k : Bytes} {v : UInt32} {e : IndexEntry}
    (he : s.index[((k, v) : IndexKey)]? = some e) :
    ((compare ((lower, s.currentVersion) : IndexKey) (k, v)).isLT &&
        (compare ((k, v) : IndexKey) (upper, s.currentVersion)).isLE) = true ↔
      Above false lower upper k := by
  have hv : v ≤ s.currentVersion := h k v (by rw [he]; exact Option.some_ne_none _)
  have hnot : ¬s.currentVersion < v := UInt32.not_lt.mpr hv
  rw [Bool.and_eq_true, Ordering.isLT_iff_eq_lt, indexKey_lt_iff, indexKey_isLE_iff, Above,
    if_neg Bool.false_ne_true, keyLe_iff]
  tauto

private theorem below_iff {lower upper k : Bytes} {v : UInt32} :
    ((compare ((lower, 0) : IndexKey) (k, v)).isLE &&
        (compare ((k, v) : IndexKey) (upper, 0)).isLT) = true ↔ Below false lower upper k := by
  have h0 : (0 : UInt32) ≤ v := UInt32.zero_le
  have hnot : ¬v < 0 := UInt32.not_lt_zero
  rw [Bool.and_eq_true, Ordering.isLT_iff_eq_lt, indexKey_lt_iff, indexKey_isLE_iff, Below,
    if_neg Bool.false_ne_true, keyLe_iff]
  tauto

/-- The walk upwards reports the visible entries in order. -/
theorem rangeFirstEntries_eq (h : s.NoneHidden) {lower upper : Bytes} (includeLower : Bool)
    {entries : List (Bytes × IndexEntry)}
    (hv : Visible s (Above includeLower lower upper) entries) (count : Nat) :
    RawTable.rangeFirstEntries s.index s.currentVersion (upper, s.currentVersion) count includeLower
      (lower, if includeLower then 0 else s.currentVersion) = entries.take count := by
  induction count generalizing lower includeLower entries with
  | zero => rfl
  | succ count ih =>
      have hfirst : match (if includeLower then
            s.index.withFirstInRange (lower, if includeLower then 0 else s.currentVersion)
              (upper, s.currentVersion)
          else s.index.withFirstAfter (lower, if includeLower then 0 else s.currentVersion)
              (upper, s.currentVersion)) with
          | none => entries = []
          | some found => ∃ e rest, entries = (found.1.1, e) :: rest := by
        cases includeLower with
        | true =>
            simp only [if_true]
            rw [OrderedMap.withFirstInRange, OrderedMap.withRange_eq_filter]
            exact hv.of_head? h fun k v e he ↦ range_iff h he
        | false =>
            simp only [Bool.false_eq_true, if_false]
            rw [OrderedMap.withFirstAfter_eq_filter]
            exact hv.of_head? h fun k v e he ↦ above_iff h he
      rw [RawTable.rangeFirstEntries]
      split at hfirst
      · rename_i hnone
        rw [hnone, hfirst]
        rfl
      · rename_i found hsome
        obtain ⟨e, rest, rfl⟩ := hfirst
        have hlatest := ((hv.mem found.1.1 e).mp List.mem_cons_self).2
        obtain ⟨x, hlast, hx⟩ := Option.map_eq_some_iff.mp hlatest
        rw [hsome]
        dsimp only
        rw [hlast]
        dsimp only
        rw [List.take_succ_cons, hx]
        congr 1
        refine ih false (hv.tail.congr fun key ↦ ?_)
        have hfound := ((hv.mem found.1.1 e).mp List.mem_cons_self).1
        rw [Above] at hfound
        simp only [Above, Bool.false_eq_true, if_false]
        constructor
        · rintro ⟨⟨-, hu⟩, hlt⟩
          exact ⟨hlt, hu⟩
        · rintro ⟨hlt, hu⟩
          refine ⟨⟨?_, hu⟩, hlt⟩
          cases includeLower with
          | true => exact Ordering.isLE_of_eq_lt (TransCmp.lt_of_isLE_of_lt hfound.1 hlt)
          | false => exact keyLt_trans hfound.1 hlt

/-- The walk downwards reports the visible entries in reverse. -/
theorem rangeLastEntries_eq (h : s.NoneHidden) {lower upper : Bytes} (includeUpper : Bool)
    {entries : List (Bytes × IndexEntry)}
    (hv : Visible s (Below includeUpper lower upper) entries) (count : Nat) :
    RawTable.rangeLastEntries s.index (lower, 0) count includeUpper
      (upper, if includeUpper then s.currentVersion else 0) = entries.reverse.take count := by
  induction count generalizing upper includeUpper entries with
  | zero => rfl
  | succ count ih =>
      have hlast : match (if includeUpper then
            s.index.withLastInRange (lower, 0) (upper, if includeUpper then s.currentVersion else 0)
          else s.index.withLastBefore (lower, 0)
            (upper, if includeUpper then s.currentVersion else 0)) with
          | none => entries = []
          | some found => ∃ rest, entries = rest ++ [(found.1.1, found.2)] := by
        cases includeUpper with
        | true =>
            simp only [if_true]
            rw [OrderedMap.withLastInRange, OrderedMap.withRange_eq_filter]
            exact hv.of_getLast? h fun k v e he ↦ range_iff h he
        | false =>
            simp only [Bool.false_eq_true, if_false]
            rw [OrderedMap.withLastBefore_eq_filter]
            exact hv.of_getLast? h fun k v e he ↦ below_iff
      rw [RawTable.rangeLastEntries]
      split at hlast
      · rename_i hnone
        rw [hnone, hlast]
        rfl
      · rename_i found hsome
        obtain ⟨rest, rfl⟩ := hlast
        rw [hsome]
        dsimp only
        rw [List.reverse_append, List.reverse_singleton, List.singleton_append, List.take_succ_cons]
        congr 1
        refine ih false (hv.front.congr fun key ↦ ?_)
        have hfound := ((hv.mem found.1.1 found.2).mp
          (List.mem_append_right _ (List.mem_singleton.mpr rfl))).1
        rw [Below] at hfound
        simp only [Below, Bool.false_eq_true, if_false]
        constructor
        · rintro ⟨⟨hl, -⟩, hlt⟩
          exact ⟨hl, hlt⟩
        · rintro ⟨hl, hlt⟩
          refine ⟨⟨hl, ?_⟩, hlt⟩
          cases includeUpper with
          | true => exact Ordering.isLE_of_eq_lt (TransCmp.lt_of_lt_of_isLE hlt hfound.2)
          | false => exact keyLt_trans hlt hfound.2

/-! ## The calls -/

/-- The values of some entries, in their order. -/
def readEntries (data : Bytes) : List (Bytes × IndexEntry) → Except TableError (List (Bytes × Bytes))
  | [] => .ok []
  | entry :: entries => do
      let value ← preadContent data entry.2.offset entry.2.length
      return (entry.1, value) :: (← readEntries data entries)

theorem readKeyValues_reads (entries : List (Bytes × IndexEntry)) :
    ReadsAs (RawTable.readKeyValues entries) fun t ↦ readEntries t.dataLog.content entries := by
  induction entries with
  | nil => exact .pure []
  | cons entry entries ih =>
      exact .bind (preadExact_reads .data entry.2.offset entry.2.length) fun value ↦
        .bind ih fun values ↦ .pure _

/-- The value at an entry that lies inside the data WAL. -/
def valueAt (data : Bytes) (e : IndexEntry) : Bytes := slice data e.offset e.length

theorem readEntries_of_le {data : Bytes} {entries : List (Bytes × IndexEntry)}
    (h : ∀ a ∈ entries, a.2.offset + a.2.length ≤ data.length) :
    readEntries data entries = .ok (entries.map fun a ↦ (a.1, valueAt data a.2)) := by
  induction entries with
  | nil => rfl
  | cons a entries ih =>
      rw [readEntries, preadContent_of_le (h a List.mem_cons_self), ok_bind,
        ih fun b hb ↦ h b (List.mem_cons_of_mem _ hb), ok_bind]
      rfl

theorem findRange_reads (lower upper : Bytes) :
    ReadsAs (RawTable.findRange lower upper) fun t ↦
      readEntries t.dataLog.content (t.state.rangeEntries lower upper) := by
  refine .get (g := fun t₀ t ↦ readEntries t.dataLog.content (t₀.state.rangeEntries lower upper))
    fun h ↦ ?_
  rw [StoreState.rangeEntries, ← coalesce_eq_lastEntries]
  exact readKeyValues_reads _

theorem findRangeFirst_reads (lower upper : Bytes) (count : Nat) :
    ReadsAs (RawTable.findRangeFirst lower upper count) fun t ↦
      readEntries t.dataLog.content (RawTable.rangeFirstEntries t.state.index t.state.currentVersion
        (upper, t.state.currentVersion) count true (lower, 0)) :=
  .get (g := fun t₀ t ↦ readEntries t.dataLog.content (RawTable.rangeFirstEntries t₀.state.index
    t₀.state.currentVersion (upper, t₀.state.currentVersion) count true (lower, 0)))
    fun _ ↦ readKeyValues_reads _

theorem findRangeLast_reads (lower upper : Bytes) (count : Nat) :
    ReadsAs (RawTable.findRangeLast lower upper count) fun t ↦
      readEntries t.dataLog.content (RawTable.rangeLastEntries t.state.index (lower, 0) count true
        (upper, t.state.currentVersion)) :=
  .get (g := fun t₀ t ↦ readEntries t.dataLog.content (RawTable.rangeLastEntries t₀.state.index
    (lower, 0) count true (upper, t₀.state.currentVersion))) fun _ ↦ readKeyValues_reads _

def Table.range (t : Table) (lower upper : Bytes) : Except TableError (List (Bytes × Bytes)) :=
  (t.call .none (RawTable.findRange lower upper)).result

def Table.rangeFirst (t : Table) (lower upper : Bytes) (count : Nat) :
    Except TableError (List (Bytes × Bytes)) :=
  (t.call .none (RawTable.findRangeFirst lower upper count)).result

def Table.rangeLast (t : Table) (lower upper : Bytes) (count : Nat) :
    Except TableError (List (Bytes × Bytes)) :=
  (t.call .none (RawTable.findRangeLast lower upper count)).result

/-! ## Where the entries come from -/

/-- The location is that of an entry of the key, at whatever version. -/
def StoreState.Locates (s : StoreState) (a : Bytes × IndexEntry) : Prop :=
  ∃ v : UInt32, s.index[((a.1, v) : IndexKey)]? = some a.2

theorem StoreState.locates_of_latest {s : StoreState} {key : Bytes} {e : IndexEntry}
    (h : s.latest key = some e) : s.Locates (key, e) := by
  obtain ⟨v, -, he, -⟩ := latest_eq_some_iff.mp h
  exact ⟨v, he⟩

theorem rangeEntries_locates (s : StoreState) (lower upper : Bytes) :
    ∀ a ∈ s.rangeEntries lower upper, s.Locates a := by
  intro a ha
  rw [StoreState.rangeEntries, OrderedMap.withRange_eq_filter] at ha
  obtain ⟨v, hv, -⟩ := (mem_lastEntries ((OrderedMap.toList_sorted _).filter _) a.1 a.2).mp ha
  exact ⟨v, (OrderedMap.mem_toList_iff _ _).mp (List.mem_filter.mp hv).1⟩

theorem rangeFirstEntries_locates (s : StoreState) (indexUpper : IndexKey) (count : Nat)
    (includeLower : Bool) (indexLower : IndexKey) :
    ∀ a ∈ RawTable.rangeFirstEntries s.index s.currentVersion indexUpper count includeLower
      indexLower, s.Locates a := by
  induction count generalizing includeLower indexLower with
  | zero => exact fun a ha ↦ absurd ha List.not_mem_nil
  | succ count ih =>
      intro a ha
      rw [RawTable.rangeFirstEntries] at ha
      split at ha
      · exact absurd ha List.not_mem_nil
      · split at ha
        · exact absurd ha List.not_mem_nil
        · rename_i hlast
          rcases List.mem_cons.mp ha with rfl | ha
          · exact StoreState.locates_of_latest (Option.map_eq_some_iff.mpr ⟨_, hlast, rfl⟩)
          · exact ih _ _ a ha

theorem rangeLastEntries_locates (s : StoreState) (indexLower : IndexKey) (count : Nat)
    (includeUpper : Bool) (indexUpper : IndexKey) :
    ∀ a ∈ RawTable.rangeLastEntries s.index indexLower count includeUpper indexUpper,
      s.Locates a := by
  induction count generalizing includeUpper indexUpper with
  | zero => exact fun a ha ↦ absurd ha List.not_mem_nil
  | succ count ih =>
      intro a ha
      rw [RawTable.rangeLastEntries] at ha
      split at ha
      · exact absurd ha List.not_mem_nil
      · rename_i indexKey location hfound
        rcases List.mem_cons.mp ha with rfl | ha
        · refine ⟨indexKey.2, ?_⟩
          split at hfound
          · rw [OrderedMap.withLastInRange, OrderedMap.withRange_eq_filter] at hfound
            exact (OrderedMap.getLast?_filter_eq_some hfound).1
          · rw [OrderedMap.withLastBefore_eq_filter] at hfound
            exact (OrderedMap.getLast?_filter_eq_some hfound).1
        · exact ih _ _ a ha

end Stainless.Kvstore
