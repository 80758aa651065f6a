import Stainless.Kvstore.IoFailure
import Stainless.Kvstore.Ranges

/-!
# Range reads after runs

The three range reads agree with `find` as long as no revert keeps an insertion made at a version
above the one it goes back to.
-/

open Reasoning Stainless.Runtime

namespace Stainless.Kvstore

/-! ## One table -/

variable {log : List IndexRecord} {t : Table}

/-- Every entry in memory lies inside the data WAL. -/
theorem Backed.entry_le (h : Backed log t) {k : IndexKey} {e : IndexEntry}
    (he : t.state.index[k]? = some e) : e.offset + e.length ≤ t.dataLog.content.length := by
  obtain ⟨i, hi, -, rfl⟩ := exists_of_replay_index (h.entries k e he)
  exact (h.inside _ hi).trans h.dataLen

theorem Backed.latest_le (h : Backed log t) {key : Bytes} {e : IndexEntry}
    (he : t.state.latest key = some e) : e.offset + e.length ≤ t.dataLog.content.length := by
  obtain ⟨v, -, hv, -⟩ := StoreState.latest_eq_some_iff.mp he
  exact h.entry_le hv

/-- `find` does not fail, and answers with the bytes at the latest entry. -/
theorem Backed.view_eq (h : Backed log t) (key : Bytes) :
    t.view key = .ok ((t.state.latest key).map (valueAt t.dataLog.content)) := by
  rw [Table.view_eq, StoreState.lookup]
  cases he : t.state.latest key with
  | none => rfl
  | some e =>
      dsimp only
      rw [preadContent_of_le (h.latest_le he)]
      rfl

/-- The range reads list what `find` sees. -/
theorem Backed.ranges (h : Backed log t) (hs : t.state.NoneHidden) (lower upper : Bytes)
    (count : Nat) :
    ∃ found, t.range lower upper = .ok found ∧
      found.Pairwise (fun a b ↦ compare a.1 b.1 = .lt) ∧
      (∀ key value, (key, value) ∈ found ↔
        Between lower upper key ∧ t.view key = .ok (some value)) ∧
      t.rangeFirst lower upper count = .ok (found.take count) ∧
      t.rangeLast lower upper count = .ok (found.reverse.take count) := by
  have hvisible := visible_rangeEntries hs lower upper
  have hfirst := rangeFirstEntries_eq hs true hvisible count
  have hlast := rangeLastEntries_eq hs true hvisible count
  simp only [if_true] at hfirst hlast
  rw [Table.range, Table.rangeFirst, Table.rangeLast, (findRange_reads _ _).result,
    (findRangeFirst_reads _ _ _).result, (findRangeLast_reads _ _ _).result, hfirst, hlast]
  generalize t.state.rangeEntries lower upper = entries at *
  have hle : ∀ a ∈ entries, a.2.offset + a.2.length ≤ t.dataLog.content.length :=
    fun a ha ↦ h.latest_le ((hvisible.mem a.1 a.2).mp ha).2
  rw [readEntries_of_le hle, readEntries_of_le fun a ha ↦ hle a (List.mem_of_mem_take ha),
    readEntries_of_le fun a ha ↦ hle a (List.mem_reverse.mp (List.mem_of_mem_take ha))]
  refine ⟨_, rfl, ?_, fun key value ↦ ?_, ?_, ?_⟩
  · exact List.pairwise_map.mpr hvisible.sorted
  · rw [h.view_eq, List.mem_map]
    simp only [Except.ok.injEq, Option.map_eq_some_iff, Prod.mk.injEq]
    constructor
    · rintro ⟨a, ha, rfl, rfl⟩
      obtain ⟨hw, he⟩ := (hvisible.mem a.1 a.2).mp ha
      exact ⟨hw, a.2, he, rfl⟩
    · rintro ⟨hw, e, he, rfl⟩
      exact ⟨(key, e), (hvisible.mem key e).mpr ⟨hw, he⟩, rfl, rfl⟩
  · rw [List.map_take]
  · rw [List.map_take, List.map_reverse]

/-! ## Runs -/

/-- No insertion in front of the boundary was made at a version above the one to go back to. -/
def Table.KeepsBelow (t : Table) (version : UInt32) : Prop :=
  ∀ k ∈ insertedKeys (t.keptRecords version), k.2 ≤ version

instance (t : Table) (version : UInt32) : Decidable (t.KeepsBelow version) :=
  inferInstanceAs (Decidable (∀ k ∈ insertedKeys _, k.2 ≤ version))

/-- A revert goes below no insertion that it keeps and does not fail while it cuts the index WAL; a
table is closed and opened again without a failure and without leftovers of a failed call. -/
def RangeStep (t : Table) (a : Attempt) : Prop :=
  match a.call with
  | .revert version => (version ≤ t.state.currentVersion → t.KeepsBelow version) ∧ t.SafeFault a
  | .recover => a.fault = .none ∧ t.indexLog.content.length = t.state.indexLen
  | _ => True

instance (t : Table) : ∀ a, Decidable (RangeStep t a)
  | ⟨.insert _ _, _⟩ => inferInstanceAs (Decidable True)
  | ⟨.commit _, _⟩ => inferInstanceAs (Decidable True)
  | ⟨.revert _, _⟩ => inferInstanceAs (Decidable (_ ∧ _))
  | ⟨.recover, _⟩ => inferInstanceAs (Decidable (_ ∧ _))

/-- No insertion of the log is above the version in memory, and that one is not above the version on
disk. -/
structure Ordered (log : List IndexRecord) (t : Table) : Prop extends Backed log t where
  inserted : ∀ k ∈ insertedKeys log, k.2 ≤ t.state.currentVersion
  version : t.state.currentVersion ≤ (replay log).currentVersion

theorem Ordered.noneHidden (h : Ordered log t) : t.state.NoneHidden := by
  intro k v hk
  by_contra hv
  apply hk
  cases he : t.state.index[((k, v) : IndexKey)]? with
  | none => rfl
  | some e =>
      obtain ⟨i, hi, heq, -⟩ := exists_of_replay_index (h.entries _ e he)
      exact absurd (h.inserted (k, v) (List.mem_filterMap.mpr ⟨_, hi, congrArg some heq⟩)) hv

private theorem Change.ordered {a : Attempt} {log' : List IndexRecord} {t' : Table}
    (h : Ordered log t) (hb : Backed log' t') (hc : Change log t a log' t'.state)
    (hclean : ∀ version, a.call = .revert version → version ≤ t.state.currentVersion →
      t.KeepsBelow version) : Ordered log' t' := by
  generalize hs : t'.state = s at hc
  refine ⟨hb, ?_, ?_⟩
  · rw [hs]
    cases hc with
    | idle => exact h.inserted
    | inserted =>
        intro k hk
        rw [insertedKeys_append] at hk
        rcases List.mem_append.mp hk with hk | hk
        · exact h.inserted k hk
        · rw [List.mem_singleton.mp hk]
          exact UInt32.le_refl _
    | unsynced =>
        intro k hk
        rw [insertedKeys_append] at hk
        exact h.inserted k ((List.mem_append.mp hk).resolve_right List.not_mem_nil)
    | committed hversion =>
        intro k hk
        rw [insertedKeys_append] at hk
        exact UInt32.le_trans
          (h.inserted k ((List.mem_append.mp hk).resolve_right List.not_mem_nil)) hversion
    | @reverted version _ kept rest dataLen hsplit hversion =>
        intro k hk
        refine hclean version rfl hversion k ?_
        rw [(hsplit.records_eq h.toBacked).1]
        rw [Table.rewound] at hk
        split at hk
        · exact hk
        · rw [insertedKeys_append] at hk
          exact (List.mem_append.mp hk).resolve_right List.not_mem_nil
  · rw [hs]
    cases hc with
    | idle => exact h.version
    | inserted =>
        rw [replay_concat]
        exact h.version
    | unsynced hversion =>
        rw [replay_concat]
        exact hversion
    | committed =>
        rw [replay_concat]
        exact UInt32.le_refl _
    | reverted hsplit =>
        rw [hsplit.replay_rewound.1]
        exact UInt32.le_refl _

theorem Ordered.recovered (h : Ordered log t)
    (hlen : t.indexLog.content.length = t.state.indexLen) :
    Ordered (committed log) (t.step .recover) := by
  have hindex : t.indexLog.content = encodeLog log := by
    rw [← h.take_content, ← hlen, List.take_length]
  rw [(recover_call h.toBacked hindex).2]
  refine ⟨h.toBacked.recovered, fun k hk ↦ ?_, UInt32.le_refl _⟩
  obtain ⟨r, hr, hk⟩ := List.mem_filterMap.mp hk
  have hin := h.inserted k (List.mem_filterMap.mpr ⟨r, (committed_isPrefix log).subset hr, hk⟩)
  rw [(replay_committed log).2.1]
  exact UInt32.le_trans hin h.version

theorem Ordered.step (h : Ordered log t) {a : Attempt} (ha : RangeStep t a) :
    ∃ log', Ordered log' (t.stepAttempt a) := by
  obtain ⟨call, fault⟩ := a
  cases call with
  | insert key value =>
      obtain ⟨log', hb, hc⟩ := h.change (a := ⟨.insert key value, fault⟩) (by simp) trivial
      exact ⟨log', hc.ordered h hb fun v hv ↦ by cases hv⟩
  | commit version =>
      obtain ⟨log', hb, hc⟩ := h.change (a := ⟨.commit version, fault⟩) (by simp) trivial
      exact ⟨log', hc.ordered h hb fun v hv ↦ by cases hv⟩
  | revert version =>
      obtain ⟨log', hb, hc⟩ := h.change (a := ⟨.revert version, fault⟩) (by simp) ha.2
      exact ⟨log', hc.ordered h hb fun v hv ↦ by cases hv; exact ha.1⟩
  | recover =>
      obtain ⟨hfault, hlen⟩ : fault = .none ∧ _ := ha
      subst hfault
      exact ⟨_, h.recovered hlen⟩

theorem exists_ordered {attempts : List Attempt}
    (h : Meets Table.stepAttempt RangeStep Table.created attempts) :
    ∃ log, Ordered log (run Table.stepAttempt Table.created attempts) := by
  refine h.invariant (I := fun t ↦ ∃ log, Ordered log t)
    ⟨[], settled_created.toBacked, fun k hk ↦ absurd hk List.not_mem_nil, ?_⟩
    fun _ _ ⟨_, ho⟩ ha ↦ ho.step ha
  rw [settled_created.version]
  exact UInt32.le_refl _

/-- After every such run `find` answers, and the range reads list what it answers. -/
theorem range_reads_agree (attempts : List Attempt)
    (hrun : Meets Table.stepAttempt RangeStep Table.created attempts) (lower upper : Bytes)
    (count : Nat) :
    let t := run Table.stepAttempt Table.created attempts
    (∀ key, ∃ value, t.view key = .ok value) ∧
      ∃ found, t.range lower upper = .ok found ∧
        found.Pairwise (fun a b ↦ compare a.1 b.1 = .lt) ∧
        (∀ key value, (key, value) ∈ found ↔
          Between lower upper key ∧ t.view key = .ok (some value)) ∧
        t.rangeFirst lower upper count = .ok (found.take count) ∧
        t.rangeLast lower upper count = .ok (found.reverse.take count) := by
  obtain ⟨log, h⟩ := exists_ordered hrun
  exact ⟨fun key ↦ ⟨_, h.toBacked.view_eq key⟩,
    h.toBacked.ranges h.noneHidden lower upper count⟩

/-- A revert to a skipped version, a failed insertion and a reopened table. -/
private def reopened : List Attempt :=
  [⟨.insert [7] [1], .none⟩, ⟨.commit 1, .none⟩, ⟨.insert [7] [2], .none⟩, ⟨.insert [] [3], .none⟩,
    ⟨.commit 3, .none⟩, ⟨.revert 2, .none⟩, ⟨.insert [8] [4], .change 0 1⟩, ⟨.recover, .none⟩]

theorem range_reads_agree_reopened :
    let t := run Table.stepAttempt Table.created reopened
    (∀ key, ∃ value, t.view key = .ok value) ∧
      ∃ found, t.range [] [9] = .ok found ∧
        found.Pairwise (fun a b ↦ compare a.1 b.1 = .lt) ∧
        (∀ key value, (key, value) ∈ found ↔
          Between [] [9] key ∧ t.view key = .ok (some value)) ∧
        t.rangeFirst [] [9] 1 = .ok (found.take 1) ∧
        t.rangeLast [] [9] 1 = .ok (found.reverse.take 1) :=
  range_reads_agree reopened (by decide +kernel) [] [9] 1

/-- Version 3 is committed twice, so going back to version 2 keeps what was inserted in between. -/
private def committedTwice : List Call :=
  [.commit 1, .commit 3, .insert [7] [1], .commit 3, .revert 2]

/-- The kept entry is above the current version: `find` does not see it and `find_range` does. -/
theorem range_reads_agree_fails :
    ¬∀ calls : List Call, Meets Table.step NoIoError Table.created calls →
      ∀ (lower upper : Bytes) (found : List (Bytes × Bytes)),
        (run Table.step Table.created calls).range lower upper = .ok found →
        ∀ key value, (key, value) ∈ found →
          (run Table.step Table.created calls).view key = .ok (some value) := by
  intro h
  exact absurd (h committedTwice (by decide +kernel) [] [9] [([7], [1])] (by decide +kernel)
    [7] [1] (by decide)) (by decide +kernel)

end Stainless.Kvstore
