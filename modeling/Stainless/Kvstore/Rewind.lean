import Stainless.Kvstore.Backed

/-!
# Going back in the log

`revert` splits the log at the marker that the version index gives, and the table it leaves is backed
by the first part.
-/

open Reasoning Stainless.Runtime

namespace Stainless.Kvstore

/-! ## What revert reads -/

/-- The log splits where `revert version` cuts it, with this data length committed there. -/
structure RevertSplit (log : List IndexRecord) (t : Table) (version : UInt32) (dataLen : Nat)
    (kept rest : List IndexRecord) : Prop where
  log_eq : log = kept ++ rest
  own : t.exact version = true →
    version = 0 ∧ kept = [] ∧ dataLen = 0 ∨
      version ≠ 0 ∧ ∃ pre, kept = pre ++ [.commit ⟨version, dataLen⟩] ∧
        t.state.versionIndex[version]? = some (logSize pre)
  successor : t.exact version = false →
    ∃ next post, rest = .commit ⟨next, dataLen⟩ :: post ∧ version < next ∧
      t.state.versionIndex[next]? = some (logSize kept) ∧
      ∀ (v : UInt32) (offset : Nat), t.state.versionIndex[v]? = some offset → version ≤ v → next ≤ v

theorem maxVersion_le (v : UInt32) : v ≤ Limits.maxVersion := by
  rw [UInt32.le_iff_toNat_le]
  have h := v.toNat_lt
  change v.toNat ≤ 4294967295
  omega

theorem markerOffset_cases (guard : StoreState) (version : UInt32) :
    (∃ offset, RawTable.markerOffset guard version = .ok offset ∧
      guard.versionIndex[version]? = some offset) ∨
    (guard.versionIndex[version]? = none ∧
      ((∃ e, RawTable.markerOffset guard version = .error e) ∧
          (∀ (v : UInt32) (offset : Nat), guard.versionIndex[v]? = some offset → ¬version ≤ v) ∨
        ∃ next offset, RawTable.markerOffset guard version = .ok offset ∧ version < next ∧
          guard.versionIndex[next]? = some offset ∧
          ∀ (v : UInt32) (offset : Nat), guard.versionIndex[v]? = some offset → version ≤ v →
            next ≤ v)) := by
  cases hown : guard.versionIndex[version]? with
  | some offset => exact .inl ⟨offset, by simp only [RawTable.markerOffset, hown], rfl⟩
  | none =>
      refine .inr ⟨rfl, ?_⟩
      have hrange (e : UInt32 × Nat) : ((compare version e.1).isLE &&
          (compare e.1 Limits.maxVersion).isLE) = true ↔ version ≤ e.1 := by
        rw [Bool.and_eq_true, Std.isLE_compare, Std.isLE_compare]
        exact and_iff_left (maxVersion_le e.1)
      cases hnext : guard.versionIndex.withFirstInRange version Limits.maxVersion with
      | none =>
          refine .inl ⟨⟨_, by simp only [RawTable.markerOffset, hown, hnext]; rfl⟩, ?_⟩
          intro v offset hv hle
          rw [OrderedMap.withFirstInRange, OrderedMap.withRange_eq_filter,
            List.head?_eq_none_iff] at hnext
          have hp := OrderedMap.filter_eq_nil (e := (v, offset)) hnext hv
          rw [(hrange (v, offset)).mpr hle] at hp
          cases hp
      | some found =>
          obtain ⟨next, offset⟩ := found
          refine .inr ⟨next, offset, by simp only [RawTable.markerOffset, hown, hnext], ?_⟩
          rw [OrderedMap.withFirstInRange, OrderedMap.withRange_eq_filter] at hnext
          obtain ⟨hmem, hp, hleast⟩ := OrderedMap.head?_filter_eq_some hnext
          have hle := (hrange (next, offset)).mp hp
          refine ⟨UInt32.lt_of_le_of_ne hle ?_, hmem, fun v offset' hv hv' ↦ ?_⟩
          · rintro rfl
            rw [hown] at hmem
            cases hmem
          · exact Std.isLE_compare.mp (hleast (v, offset') hv ((hrange (v, offset')).mpr hv'))

theorem discardRecord_encode (found : RawTable.Discarded) {r : IndexRecord} (hv : r.Valid) :
    RawTable.discardRecord found r.encode =
      .ok ⟨found.removed ++ insertedKeys [r], found.removedVersions ++ committedVersions [r]⟩ := by
  cases r with
  | insert i =>
      rw [RawTable.discardRecord, indexRecordKind_insert, ok_bind]
      dsimp only
      rw [InsertRecord.read_encode i hv, ok_bind]
      simp [insertedKeys, committedVersions, IndexRecord.indexKey?, IndexRecord.commitVersion?,
        pure, Except.pure]
  | commit m =>
      rw [RawTable.discardRecord, indexRecordKind_commit, ok_bind]
      dsimp only
      rw [CommitRecord.read_encode m hv, ok_bind]
      simp [insertedKeys, committedVersions, IndexRecord.indexKey?, IndexRecord.commitVersion?,
        pure, Except.pure]

/-- The scan collects what the suffix names. -/
theorem scanContent_encode {content : Bytes} {pre rest : List IndexRecord} {budget : Nat}
    {found : RawTable.Discarded} (hv : ∀ r ∈ rest, r.Valid)
    (hp : encodeLog (pre ++ rest) <+: content) (hb : rest.length ≤ budget) :
    RawTable.scanContent content (logSize (pre ++ rest)) budget (logSize pre) found =
      .ok ⟨found.removed ++ insertedKeys rest, found.removedVersions ++ committedVersions rest⟩ := by
  induction rest generalizing pre budget found with
  | nil =>
      rw [List.append_nil]
      cases budget with
      | zero => simp [RawTable.scanContent, insertedKeys, committedVersions, pure, Except.pure]
      | succ budget =>
          simp [RawTable.scanContent, insertedKeys, committedVersions, pure, Except.pure]
  | cons r rest ih =>
      cases budget with
      | zero => simp at hb
      | succ budget =>
          have hr := hv r List.mem_cons_self
          have hpos := r.size_pos
          rw [List.append_cons] at hp ⊢
          have hrp := (encodeLog_isPrefix (List.prefix_append (pre ++ [r]) rest)).trans hp
          have hsize : logSize (pre ++ [r]) ≤ logSize (pre ++ [r] ++ rest) := by simp
          have hoffset : logSize pre + r.size = logSize (pre ++ [r]) := by simp
          have hkeys : insertedKeys (r :: rest) = insertedKeys [r] ++ insertedKeys rest :=
            insertedKeys_append [r] rest
          have hversions : committedVersions (r :: rest) =
            committedVersions [r] ++ committedVersions rest := committedVersions_append [r] rest
          rw [RawTable.scanContent, if_pos (by omega), recordAt_encode hr hrp hsize, ok_bind,
            r.encode_length, discardRecord_encode found hr, ok_bind, hoffset,
            ih (fun s hs ↦ hv s (List.mem_cons_of_mem _ hs)) hp (by simpa using hb), hkeys, hversions,
            List.append_assoc, List.append_assoc]

/-- The plan of a revert of a backed table: either no version at or above is indexed, or the log is
split at the indexed marker. -/
theorem Backed.revertPlan_cases {log : List IndexRecord} {t : Table} (h : Backed log t)
    (version : UInt32) :
    ((∃ e, t.revertPlan version = .error e) ∧
      ∀ (v : UInt32) (offset : Nat), t.state.versionIndex[v]? = some offset → ¬version ≤ v) ∨
    ∃ kept rest dataLen,
      t.revertPlan version =
        .ok ⟨logSize kept, dataLen, ⟨insertedKeys rest, committedVersions rest⟩⟩ ∧
      RevertSplit log t version dataLen kept rest := by
  -- once the boundary is found, the scan collects what stands behind it
  have hscan {kept rest : List IndexRecord} (hlog : log = kept ++ rest) {dataLen : Nat}
      (hboundary : RawTable.boundaryContent t.indexLog.content t.state version =
        .ok (logSize kept, dataLen)) :
      t.revertPlan version =
        .ok ⟨logSize kept, dataLen, ⟨insertedKeys rest, committedVersions rest⟩⟩ := by
    have henc := h.encoded
    have hvalid := h.valid
    have hlen := h.indexLen
    subst hlog
    rw [Table.revertPlan, hboundary, ok_bind]
    dsimp only
    rw [hlen, scanContent_encode (fun r hr ↦ hvalid r (List.mem_append_right _ hr)) henc
      ((length_le_logSize rest).trans (by simp)), ok_bind]
    rfl
  have hmarker {v : UInt32} {offset dataLen : Nat} (hm : MarkerAt log v offset dataLen) :
      ∃ markerBytes, recordAt t.indexLog.content offset t.state.indexLen = .ok markerBytes ∧
        markerBytes.length = 21 ∧ CommitRecord.read markerBytes = .ok ⟨v, dataLen⟩ := by
    obtain ⟨pre, post, heq, rfl⟩ := hm
    have hv : (IndexRecord.commit ⟨v, dataLen⟩).Valid := h.valid _ (by rw [heq]; simp)
    have hp : pre ++ [.commit ⟨v, dataLen⟩] <+: log := ⟨post, by rw [heq]; simp⟩
    have hsize : logSize (pre ++ [IndexRecord.commit ⟨v, dataLen⟩]) ≤ t.state.indexLen := by
      rw [h.indexLen, heq]
      simp
    exact ⟨_, recordAt_encode hv ((encodeLog_isPrefix hp).trans h.encoded) hsize,
      IndexRecord.encode_length _, CommitRecord.read_encode _ hv⟩
  rcases markerOffset_cases t.state version with ⟨offset, hoffset, hown⟩ |
    ⟨hown, ⟨⟨e, he⟩, hnone⟩ | ⟨next, offset, hoffset, hlt, hnext, hleast⟩⟩
  · -- the version has an entry of its own
    have hexact : t.exact version = true := by rw [Table.exact, hown]; rfl
    have hisSome : t.state.versionIndex[version]?.isSome = true := hexact
    right
    -- version 0 is in front of all records
    by_cases h0 : version = 0
    · refine ⟨[], log, 0, hscan rfl ?_, ⟨rfl, fun _ ↦ .inl ⟨h0, rfl, rfl⟩, fun hx ↦ ?_⟩⟩
      · rw [RawTable.boundaryContent, hoffset, ok_bind,
          if_neg fun hc ↦ hc.elim (fun hn ↦ hn h0) fun hn ↦ hn hisSome]
        rfl
      · rw [hexact] at hx
        cases hx
    · obtain ⟨hv0, -⟩ | ⟨dataLen, hm⟩ := h.markers version offset hown
      · exact absurd hv0 h0
      obtain ⟨markerBytes, hread, hlen, hcommit⟩ := hmarker hm
      obtain ⟨pre, post, heq, rfl⟩ := hm
      refine ⟨pre ++ [.commit ⟨version, dataLen⟩], post, dataLen, hscan (by rw [heq]; simp) ?_,
        ⟨by rw [heq]; simp, fun _ ↦ .inr ⟨h0, pre, rfl, hown⟩, fun hx ↦ ?_⟩⟩
      · rw [RawTable.boundaryContent, hoffset, ok_bind, if_pos (.inl h0), hread, ok_bind, hcommit,
          ok_bind, throwIf_of_not (by simp [hisSome]), ok_bind, if_pos hisSome, hlen]
        simp [IndexRecord.size, pure, Except.pure]
      · rw [hexact] at hx
        cases hx
  · -- no version to go back to is indexed
    left
    refine ⟨⟨e, ?_⟩, hnone⟩
    rw [Table.revertPlan, RawTable.boundaryContent, he]
    rfl
  · -- the least successor decides
    have hexact : t.exact version = false := by rw [Table.exact, hown]; rfl
    have hisSome : t.state.versionIndex[version]?.isSome = false := hexact
    right
    obtain ⟨hv0, -⟩ | ⟨dataLen, hm⟩ := h.markers next offset hnext
    · rw [hv0] at hlt
      exact absurd hlt (UInt32.not_lt_zero)
    obtain ⟨markerBytes, hread, hlen, hcommit⟩ := hmarker hm
    obtain ⟨pre, post, heq, rfl⟩ := hm
    have hnot : ¬next ≤ version := UInt32.not_le.mpr hlt
    refine ⟨pre, .commit ⟨next, dataLen⟩ :: post, dataLen, hscan heq ?_,
      ⟨heq, fun hx ↦ ?_, fun _ ↦ ⟨next, post, rfl, hlt, hnext, hleast⟩⟩⟩
    · rw [RawTable.boundaryContent, hoffset, ok_bind, if_pos (.inr (by simp [hisSome])), hread,
        ok_bind, hcommit, ok_bind, throwIf_of_not (by simp [hisSome, hnot]), ok_bind,
        if_neg (by simp [hisSome])]
      rfl
    · rw [hexact] at hx
      cases hx

/-! ## What revert leaves -/

/-- The plan that the split stands for. -/
def splitPlan (kept rest : List IndexRecord) (dataLen : Nat) : RevertPlan :=
  ⟨logSize kept, dataLen, ⟨insertedKeys rest, committedVersions rest⟩⟩

/-- The log that revert leaves: a version without an entry of its own gets a marker. -/
def Table.rewound (t : Table) (version : UInt32) (kept : List IndexRecord) (dataLen : Nat) :
    List IndexRecord :=
  if t.exact version then kept else kept ++ [.commit ⟨version, dataLen⟩]

namespace RevertSplit

variable {log kept rest : List IndexRecord} {t : Table} {version : UInt32} {dataLen : Nat}

theorem kept_prefix (s : RevertSplit log t version dataLen kept rest) : kept <+: log :=
  ⟨rest, s.log_eq.symm⟩

/-- The committed data length covers the kept records and lies inside the tracked data. -/
theorem dataLen_bounds (s : RevertSplit log t version dataLen kept rest) (h : Backed log t) :
    (∀ r ∈ kept, r.extent ≤ dataLen) ∧ dataLen ≤ t.state.dataLen := by
  have hlog := s.log_eq
  have hnested := h.nested
  have hinside := h.inside
  cases hx : t.exact version with
  | true =>
      rcases s.own hx with ⟨-, rfl, rfl⟩ | ⟨-, pre, rfl, -⟩
      · exact ⟨fun r hr ↦ absurd hr List.not_mem_nil, Nat.zero_le _⟩
      · have hm := hinside (.commit ⟨version, dataLen⟩) (by rw [hlog]; simp)
        rw [hlog] at hnested
        have hpre := (List.pairwise_append.mp (List.pairwise_append.mp hnested).1).2.2
        refine ⟨fun r hr ↦ ?_, hm⟩
        rcases List.mem_append.mp hr with hr | hr
        · exact hpre r hr _ (List.mem_singleton.mpr rfl) rfl
        · rw [List.mem_singleton.mp hr]
          exact le_rfl
  | false =>
      obtain ⟨next, post, rfl, -⟩ := s.successor hx
      have hm := hinside (.commit ⟨next, dataLen⟩) (by rw [hlog]; simp)
      rw [hlog] at hnested
      exact ⟨fun r hr ↦ (List.pairwise_append.mp hnested).2.2 r hr _ List.mem_cons_self rfl, hm⟩

/-- The marker that revert writes is no longer than what it cut off. -/
theorem logSize_rewound_le (s : RevertSplit log t version dataLen kept rest) :
    logSize (t.rewound version kept dataLen) ≤ logSize log := by
  rw [s.log_eq, logSize_append, Table.rewound]
  split
  · exact Nat.le_add_right _ _
  · rename_i hx
    obtain ⟨next, post, rfl, -⟩ := s.successor (by simpa using hx)
    simp [IndexRecord.size]

theorem rewound_of_exact (hx : t.exact version = true) :
    t.rewound version kept dataLen = kept := if_pos hx

theorem rewound_of_not_exact (hx : t.exact version = false) :
    t.rewound version kept dataLen = kept ++ [.commit ⟨version, dataLen⟩] :=
  if_neg (by simp [hx])

/-- The index WAL once it is cut at the boundary. -/
theorem cut_content (s : RevertSplit log t version dataLen kept rest) (h : Backed log t) :
    (t.indexLog.issue (.resize (logSize kept))).content = encodeLog kept := by
  rw [DurableFile.content_issue, FileOp.apply, ← encodeLog_length,
    resize_prefix ((encodeLog_isPrefix s.kept_prefix).trans h.encoded)]

theorem marked_content (s : RevertSplit log t version dataLen kept rest) (h : Backed log t)
    (bytes : Bytes) :
    ((t.indexLog.issue (.resize (logSize kept))).issue (.write (logSize kept) bytes)).content =
      encodeLog kept ++ bytes := by
  rw [DurableFile.content_issue, FileOp.apply, s.cut_content h, ← encodeLog_length, overwrite_end]

/-- The index WAL with its new end encodes the log that revert leaves. -/
theorem revertedIndex_content (s : RevertSplit log t version dataLen kept rest)
    (h : Backed log t) :
    (t.revertedIndex version (splitPlan kept rest dataLen)).content =
      encodeLog (t.rewound version kept dataLen) := by
  cases hx : t.exact version with
  | true =>
      rw [Table.revertedIndex, if_pos hx, rewound_of_exact hx]
      exact s.cut_content h
  | false =>
      rw [Table.revertedIndex, if_neg (by simp [hx]), rewound_of_not_exact hx,
        DurableFile.content_issue, FileOp.apply]
      have hmarked := s.marked_content h (IndexRecord.commit ⟨version, dataLen⟩).encode
      have hsize : logSize kept + 21 =
          (encodeLog kept ++ (IndexRecord.commit ⟨version, dataLen⟩).encode).length := by
        rw [List.length_append, encodeLog_length, IndexRecord.encode_length]
        rfl
      change resize ((t.indexLog.issue (.resize (logSize kept))).issue
        (.write (logSize kept) (IndexRecord.commit ⟨version, dataLen⟩).encode)).content
        (logSize kept + 21) = _
      rw [hmarked, hsize, resize_self]
      simp

/-- The data WAL is cut at the length that the marker commits. -/
theorem data_content (s : RevertSplit log t version dataLen kept rest) (h : Backed log t) :
    (t.dataLog.issue (.resize dataLen)).sync.content = t.dataLog.content.take dataLen := by
  rw [DurableFile.content_sync, DurableFile.content_issue, FileOp.apply,
    resize_of_le ((s.dataLen_bounds h).2.trans h.dataLen)]

theorem revertedState_index (t : Table) (version : UInt32) (kept rest : List IndexRecord)
    (dataLen : Nat) (k : IndexKey) :
    (t.revertedState version (splitPlan kept rest dataLen)).index[k]? =
      if k ∈ insertedKeys rest then none else t.state.index[k]? :=
  OrderedMap.getElem?_foldl_erase (insertedKeys rest) t.state.index k

theorem revertedState_versionIndex (t : Table) (version : UInt32) (kept rest : List IndexRecord)
    (dataLen : Nat) (v : UInt32) :
    (t.revertedState version (splitPlan kept rest dataLen)).versionIndex[v]? =
      if t.exact version = false ∧ version = v then some (logSize kept)
      else if v ∈ committedVersions rest then none else t.state.versionIndex[v]? := by
  have herase := OrderedMap.getElem?_foldl_erase (committedVersions rest) t.state.versionIndex v
  cases hx : t.exact version with
  | true =>
      simp only [Table.revertedState, RawTable.revertState, splitPlan, hx, if_true, herase]
      simp
  | false =>
      simp only [Table.revertedState, RawTable.revertState, splitPlan, hx, Bool.false_eq_true,
        if_false, OrderedMap.getElem?_insert, herase, true_and]

theorem revertedState_indexLen (t : Table) (version : UInt32) (kept rest : List IndexRecord)
    (dataLen : Nat) :
    (t.revertedState version (splitPlan kept rest dataLen)).indexLen =
      logSize (t.rewound version kept dataLen) := by
  cases hx : t.exact version with
  | true =>
      rw [rewound_of_exact hx]
      simp [Table.revertedState, RawTable.revertState, splitPlan, hx]
  | false =>
      rw [rewound_of_not_exact hx]
      simp [Table.revertedState, RawTable.revertState, splitPlan, hx, IndexRecord.size]

/-- The log that revert leaves ends with a marker of the version, or is empty at version 0. -/
theorem rewound_cases (s : RevertSplit log t version dataLen kept rest) :
    t.rewound version kept dataLen = [] ∧ version = 0 ∧ dataLen = 0 ∨
      ∃ pre, t.rewound version kept dataLen = pre ++ [.commit ⟨version, dataLen⟩] := by
  cases hx : t.exact version with
  | true =>
      rw [rewound_of_exact hx]
      rcases s.own hx with ⟨h0, hk, hd⟩ | ⟨-, pre, hk, -⟩
      · exact .inl ⟨hk, h0, hd⟩
      · exact .inr ⟨pre, hk⟩
  | false => exact .inr ⟨kept, rewound_of_not_exact hx⟩

theorem committed_rewound (s : RevertSplit log t version dataLen kept rest) :
    committed (t.rewound version kept dataLen) = t.rewound version kept dataLen := by
  rcases s.rewound_cases with ⟨h, -, -⟩ | ⟨pre, h⟩
  · rw [h, committed_nil]
  · rw [h, committed_commit]

theorem replay_rewound (s : RevertSplit log t version dataLen kept rest) :
    (replay (t.rewound version kept dataLen)).currentVersion = version ∧
      (replay (t.rewound version kept dataLen)).dataLen = dataLen := by
  rcases s.rewound_cases with ⟨h, rfl, rfl⟩ | ⟨pre, h⟩
  · rw [h]
    exact ⟨rfl, rfl⟩
  · rw [h, replay_concat]
    exact ⟨rfl, rfl⟩

end RevertSplit

/-- The table that revert leaves is backed by the log in front of the boundary. -/
theorem Backed.reverted {log kept rest : List IndexRecord} {t : Table} {version : UInt32}
    {dataLen : Nat} (h : Backed log t) (s : RevertSplit log t version dataLen kept rest)
    {dataLog indexLog : DurableFile}
    (hindex : indexLog.content = encodeLog (t.rewound version kept dataLen))
    (hdataLen : dataLen ≤ dataLog.content.length) (hdata : dataLog.content.length ≤ maxFileLen) :
    Backed (t.rewound version kept dataLen)
      ⟨dataLog, indexLog, t.revertedState version (splitPlan kept rest dataLen)⟩ := by
  have hbounds := s.dataLen_bounds h
  have hkept : ∀ r ∈ kept, r ∈ log := fun r hr ↦ s.kept_prefix.subset hr
  have hmax : maxFileLen < 2 ^ 64 := by decide
  -- the only new record is the marker of a version that had none
  have hrewound : ∀ r ∈ t.rewound version kept dataLen,
      r ∈ kept ∨ r = .commit ⟨version, dataLen⟩ := by
    intro r hr
    rw [Table.rewound] at hr
    split at hr
    · exact .inl hr
    · simpa using hr
  constructor
  case encoded => rw [hindex]
  case indexLen => exact RevertSplit.revertedState_indexLen t version kept rest dataLen
  case indexFile =>
    rw [hindex, encodeLog_length]
    exact s.logSize_rewound_le.trans (h.logSize_le.trans h.indexFile)
  case dataLen => exact hdataLen
  case dataFile => exact hdata
  case valid =>
    intro r hr
    rcases hrewound r hr with hr | rfl
    · exact h.valid r (hkept r hr)
    · exact lt_of_le_of_lt (hdataLen.trans hdata) hmax
  case inside =>
    intro r hr
    rcases hrewound r hr with hr | rfl
    · exact hbounds.1 r hr
    · exact le_rfl
  case nested =>
    have hnested := h.nested.sublist s.kept_prefix.sublist
    rw [Table.rewound]
    split
    · exact hnested
    · refine List.pairwise_append.mpr ⟨hnested, List.pairwise_singleton _ _, ?_⟩
      intro r hr m hm _
      rw [List.mem_singleton.mp hm]
      exact hbounds.1 r hr
  case markers =>
    intro v offset hv
    rw [RevertSplit.revertedState_versionIndex] at hv
    -- an entry points to the new marker or to one that is left
    split at hv
    · rename_i hnew
      cases hv
      rw [RevertSplit.rewound_of_not_exact hnew.1, hnew.2]
      exact .inr ⟨dataLen, .concat kept v dataLen⟩
    · split at hv
      · cases hv
      · rename_i hrest
        rcases h.markers v offset hv with h0 | ⟨d, hm⟩
        · exact .inl h0
        · rw [s.log_eq] at hm
          have hm := hm.of_append hrest
          refine .inr ⟨d, ?_⟩
          rw [Table.rewound]
          split
          · exact hm
          · exact hm.append _
  case entries =>
    intro k e hk
    rw [RevertSplit.revertedState_index] at hk
    split at hk
    · cases hk
    · rename_i hrest
      have he := h.entries k e hk
      rw [s.log_eq, replay_index_append hrest] at he
      rw [Table.rewound]
      split
      · exact he
      · rw [replay_concat]
        exact he

end Stainless.Kvstore
