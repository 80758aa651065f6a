import Stainless.Kvstore.CrashRevert

/-!
# Tables that are opened again

A table that is opened on what a crash left is again a table that agrees with its log, so that its
life goes on.
-/

open Reasoning Stainless.Runtime

namespace Stainless.Kvstore

theorem durable_trim_ofBytes (bytes : Bytes) (size : Nat) :
    (RawTable.trim (.ofBytes bytes) size).durable = (RawTable.trim (.ofBytes bytes) size).content := by
  unfold RawTable.trim
  split
  · rfl
  · rfl

/-- The size of a prefix tells it. -/
theorem eq_of_isPrefix_of_logSize_eq {log front front' : List IndexRecord} (h : front <+: log)
    (h' : front' <+: log) (hsize : logSize front = logSize front') : front = front' := by
  rcases List.prefix_or_prefix_of_prefix h h' with hp | hp
  · obtain ⟨rest, rfl⟩ := hp
    rw [logSize_append] at hsize
    have hlen := length_le_logSize rest
    have hnil : rest = [] := List.length_eq_zero_iff.mp (by omega)
    rw [hnil, List.append_nil]
  · obtain ⟨rest, rfl⟩ := hp
    rw [logSize_append] at hsize
    have hlen := length_le_logSize rest
    have hnil : rest = [] := List.length_eq_zero_iff.mp (by omega)
    rw [hnil, List.append_nil]

section

variable {base log kept more : List IndexRecord} {t t' : Table} {data index content : Bytes}

/-- A table that opens to the state of a log agrees with that log. -/
theorem ReopensTo.agrees (h : ReopensTo data index content kept) (hr : Remains base log data index)
    (hkept : kept <+: log) (hc : committed kept = kept)
    (hextent : ∀ r ∈ kept, r.extent ≤ (replay kept).dataLen)
    (hfits : (replay kept).dataLen ≤ content.length) (hmax : content.length ≤ maxFileLen)
    (hnested : kept.Pairwise fun r s ↦ s.isInsert = false → r.extent ≤ s.extent) :
    Agrees kept (Table.reopened data index).table := by
  obtain ⟨recs, hbase, hlog, hread, hopen⟩ := RawTable.recoverContent_prefix
    data.length index hr.valid hr.part hr.front hr.readable hr.covered
  have hsize : logSize (committed recs) ≤ maxFileLen := by
    have hlen := ((encodeLog_isPrefix (committed_isPrefix recs)).trans hread).length_le
    rw [encodeLog_length] at hlen
    exact hlen.trans hr.length
  obtain ⟨-, htable⟩ := open_ofLog (.ofBytes data) (.ofBytes index) hopen
    (replay_dataLen_le fun r hrec ↦ hr.fits r (hlog.subset hrec)) hsize
  have hstate := h.state
  have hcontent := h.content
  rw [Table.reopened, htable] at hstate hcontent ⊢
  dsimp only at hstate hcontent
  -- the recovered log is the one whose state was opened
  have hrecs : committed recs = kept := by
    refine eq_of_isPrefix_of_logSize_eq ((committed_isPrefix recs).trans hlog) hkept ?_
    rw [← replay_indexLen, ← replay_indexLen, hstate]
  have hsub := hkept.subset
  have hindex : (RawTable.trim (.ofBytes index) (logSize (committed recs))).content = encodeLog kept := by
    have hpre := (encodeLog_isPrefix (committed_isPrefix recs)).trans hread
    rw [RawTable.trim_content, ← encodeLog_length, DurableFile.content_ofBytes, resize_prefix hpre, hrecs]
  have hdata : (RawTable.trim (.ofBytes data) (replay recs).dataLen).content.length =
      (replay kept).dataLen := by
    rw [hcontent, List.length_take, Nat.min_eq_left hfits]
  rw [hrecs] at hindex ⊢
  have hbacked : Backed kept ⟨RawTable.trim (.ofBytes data) (replay recs).dataLen,
      RawTable.trim (.ofBytes index) (logSize kept), replay kept⟩ := by
    constructor
    case encoded => rw [hindex]
    case indexLen => exact replay_indexLen kept
    case indexFile =>
      rw [hindex, encodeLog_length, ← hrecs]
      exact hsize
    case dataLen => exact hdata.ge
    case dataFile => exact hdata.le.trans (hfits.trans hmax)
    case valid => exact fun r hrec ↦ hr.valid r (hsub hrec)
    case inside => exact hextent
    case nested => exact hnested
    case markers => exact fun v offset hv ↦ replay_markers kept hv
    case entries => exact fun k e hk ↦ hk
  refine ⟨⟨hbacked, hindex, hdata, rfl, trim_grows (DurableFile.grows_ofBytes _) _,
    trim_grows (DurableFile.grows_ofBytes _) _, ?_, ?_⟩, rfl, rfl⟩
  · dsimp only
    rw [durable_trim_ofBytes, hindex, hc]
  · dsimp only
    rw [durable_trim_ofBytes]
    exact hdata.ge

theorem Unmarked.remains (hu : Unmarked log more t t') (h : Settled log t)
    (hd : t'.dataLog.Image data) (hi : t'.indexLog.Image index) :
    Remains (Kvstore.committed log) (log ++ more) data index := by
  obtain ⟨-, hcovered⟩ := h.data_image hu.dataGrows hu.dataDurable hd
  obtain ⟨hdurable, hpart⟩ := hu.index.grows index hi
  constructor
  case valid => exact fun r hr ↦ (List.mem_append.mp hr).elim (h.valid r) fun hr ↦ (hu.valid r hr).1
  case fits => exact fun r hr ↦ (List.mem_append.mp hr).elim (h.inside_max r) fun hr ↦ (hu.valid r hr).2
  case front => exact (committed_isPrefix log).trans (List.prefix_append _ _)
  case readable => exact hu.index.durable.trans hdurable
  case part => exact hpart.trans hu.index.content
  case length => exact hpart.length_le.trans hu.index.length
  case covered => exact hcovered

theorem Marked.remains {version : UInt32} (hm : Marked log t version t') (h : Settled log t)
    (hi : t'.indexLog.Image index) :
    Remains (committed log) (log ++ [t.newMarker version]) t.dataLog.content index := by
  obtain ⟨hdurable, hpart⟩ := hm.index.grows index hi
  have hmarked := h.marked_fits version
  constructor
  case valid =>
    intro r hr
    rcases List.mem_append.mp hr with hr | hr
    · exact h.valid r hr
    · rw [List.mem_singleton.mp hr]
      have hmax : maxFileLen < 2 ^ 64 := by decide
      exact lt_of_le_of_lt (h.dataLen.trans h.dataFile) hmax
  case fits => exact fun r hr ↦ (hmarked.1 r hr).trans (hmarked.2.trans h.dataFile)
  case front => exact (committed_isPrefix log).trans (List.prefix_append _ _)
  case readable => exact hm.index.durable.trans hdurable
  case part => exact hpart.trans hm.index.content
  case length => exact hpart.length_le.trans hm.index.length
  case covered => exact fun r hr ↦ (h.committed_fits.1 r hr).trans h.committed_fits.2

/-- In front of a marker: the table that is opened agrees with the committed log. -/
theorem Unmarked.reopen_agrees (hu : Unmarked log more t t') (h : Settled log t)
    (hd : t'.dataLog.Image data) (hi : t'.indexLog.Image index) :
    (Table.reopened data index).result = .ok () ∧
      Agrees (Kvstore.committed log) (Table.reopened data index).table ∧
      (Table.reopened data index).table.dataLog.content =
        t.dataLog.content.take (replay (Kvstore.committed log)).dataLen := by
  have ho := hu.reopen h hd hi
  refine ⟨ho.result, ho.agrees (hu.remains h hd hi) ?_ (committed_committed log) h.committed_fits.1
    h.committed_fits.2 h.dataFile (h.nested.sublist (committed_isPrefix log).sublist), ho.content⟩
  exact (committed_isPrefix log).trans (List.prefix_append _ _)

/-- Behind the sync of the data WAL: it agrees with the committed log or with the marked one. -/
theorem Marked.reopen_agrees {version : UInt32} (hm : Marked log t version t') (h : Settled log t)
    (hd : t'.dataLog.Image data) (hi : t'.indexLog.Image index) :
    ∃ kept, (kept = committed log ∨ kept = log ++ [t.newMarker version]) ∧
      (Table.reopened data index).result = .ok () ∧
      Agrees kept (Table.reopened data index).table ∧
      (Table.reopened data index).table.dataLog.content = t.dataLog.content.take (replay kept).dataLen := by
  have hdata : data = t.dataLog.content := by
    rw [hm.data] at hd
    rw [DurableFile.image_of_sync hd, ← h.committedData_content]
    rfl
  have hr := hm.remains h hi
  rw [← hdata] at hr
  rcases hm.reopen h hd hi with ho | ⟨-, ho⟩
  · exact ⟨_, .inl rfl, ho.result, ho.agrees hr ((committed_isPrefix log).trans (List.prefix_append _ _))
      (committed_committed log) h.committed_fits.1 h.committed_fits.2 h.dataFile
      (h.nested.sublist (committed_isPrefix log).sublist), ho.content⟩
  · obtain ⟨hextent, hfits⟩ := h.marked_fits version
    refine ⟨_, .inr rfl, ho.result, ho.agrees hr List.prefix_rfl ?_ hextent hfits h.dataFile ?_, ho.content⟩
    · rw [Table.newMarker, committed_commit]
    · refine List.pairwise_append.mpr ⟨h.nested, List.pairwise_singleton _ _, fun r hrec m hmem _ ↦ ?_⟩
      rw [List.mem_singleton.mp hmem]
      exact h.inside r hrec

/-! ## Stops inside a revert -/

variable {rest : List IndexRecord} {version : UInt32} {dataLen : Nat}

theorem RevertSplit.remains (s : RevertSplit log t version dataLen kept rest) (h : Settled log t)
    (hi : Torn t version kept dataLen index) (hdata : t.dataLog.content.take dataLen <+: data) :
    Remains (committed kept) (t.rewound version kept dataLen) data index := by
  obtain ⟨hextent, hle⟩ := s.dataLen_bounds h.toBacked
  have hfits := hle.trans h.dataLen
  have hlen := hdata.length_le
  rw [List.length_take, Nat.min_eq_left hfits] at hlen
  have hfront : kept <+: t.rewound version kept dataLen := by
    rw [Table.rewound]
    split
    · exact List.prefix_rfl
    · exact List.prefix_append _ _
  constructor
  case valid => exact fun r hr ↦ (s.rewound_fits h r hr).1
  case fits => exact fun r hr ↦ (s.rewound_fits h r hr).2.trans (hfits.trans h.dataFile)
  case front => exact (committed_isPrefix kept).trans hfront
  case readable => exact (encodeLog_isPrefix (committed_isPrefix kept)).trans hi.1
  case part => exact hi.2
  case length =>
    refine hi.2.length_le.trans ?_
    rw [encodeLog_length]
    exact s.logSize_rewound_le.trans (h.logSize_le.trans h.indexFile)
  case covered => exact fun r hr ↦ (hextent r ((committed_isPrefix kept).subset hr)).trans hlen

/-- Opening what is torn gives the log that the revert leaves, or what is kept without the marker. -/
theorem RevertSplit.reopen_torn (s : RevertSplit log t version dataLen kept rest) (h : Settled log t)
    (hi : Torn t version kept dataLen index) (hdata : t.dataLog.content.take dataLen <+: data) :
    ReopensTo data index t.dataLog.content (t.rewound version kept dataLen) ∨
      t.exact version = false ∧ ReopensTo data index t.dataLog.content (committed kept) := by
  obtain ⟨hextent, hle⟩ := s.dataLen_bounds h.toBacked
  have hfits := hle.trans h.dataLen
  have hn := s.replay_rewound.2
  obtain ⟨recs, hbase, hlog, -, hresult, hstate, hcontent⟩ := (s.remains h hi hdata).open
  -- what is read is the whole log, or it lies in what is kept
  have hread : recs = t.rewound version kept dataLen ∨ t.exact version = false ∧ recs <+: kept := by
    cases hx : t.exact version with
    | true =>
        have hcommitted := s.committed_rewound
        rw [RevertSplit.rewound_of_exact hx] at hlog hcommitted ⊢
        rw [hcommitted] at hbase
        exact .inl (hlog.eq_of_length (Nat.le_antisymm hlog.length_le hbase.length_le))
    | false =>
        rw [RevertSplit.rewound_of_not_exact hx] at hlog ⊢
        exact (List.prefix_concat_iff.mp hlog).imp id fun hlog ↦ ⟨rfl, hlog⟩
  rcases hread with rfl | ⟨hx, hkept⟩
  · left
    rw [s.committed_rewound] at hstate
    refine ⟨hresult, hstate, ?_⟩
    have hlen : (t.dataLog.content.take dataLen).length = dataLen := by
      rw [List.length_take, Nat.min_eq_left hfits]
    rw [hcontent, hn]
    nth_rewrite 1 [← hlen]
    exact resize_prefix hdata
  · right
    have hrecs : committed recs = committed kept := committed_eq_of_between hbase hkept
    have hdataLen : (replay recs).dataLen = (replay (committed kept)).dataLen := by
      rw [← (replay_committed recs).2.2, hrecs]
    have hshort : (replay (committed kept)).dataLen ≤ dataLen := by
      rw [(replay_committed kept).2.2]
      exact replay_dataLen_le hextent
    have hlen : (t.dataLog.content.take (replay (committed kept)).dataLen).length =
        (replay (committed kept)).dataLen := by
      rw [List.length_take, Nat.min_eq_left (hshort.trans hfits)]
    refine ⟨hx, hresult, hrecs ▸ hstate, ?_⟩
    rw [hcontent, hdataLen]
    nth_rewrite 1 [← hlen]
    exact resize_prefix ((List.take_prefix_take_left hshort).trans hdata)

/-- The table that is opened agrees with its log. -/
theorem RevertSplit.torn_agrees (s : RevertSplit log t version dataLen kept rest) (h : Settled log t)
    (hi : Torn t version kept dataLen index) (hdata : t.dataLog.content.take dataLen <+: data) :
    ∃ front, (front = t.rewound version kept dataLen ∨ t.exact version = false ∧ front = committed kept) ∧
      committed front = front ∧ (Table.reopened data index).result = .ok () ∧
      Agrees front (Table.reopened data index).table ∧
      (Table.reopened data index).table.dataLog.content =
        t.dataLog.content.take (replay front).dataLen := by
  obtain ⟨hextent, hle⟩ := s.dataLen_bounds h.toBacked
  have hfits := hle.trans h.dataLen
  have hr := s.remains h hi hdata
  have hnested := h.nested.sublist s.kept_prefix.sublist
  rcases s.reopen_torn h hi hdata with ho | ⟨hx, ho⟩
  · have hn := s.replay_rewound.2
    refine ⟨_, .inl rfl, s.committed_rewound, ho.result,
      ho.agrees hr List.prefix_rfl s.committed_rewound ?_ ?_ h.dataFile ?_, ho.content⟩
    · rw [hn]
      exact fun r hr ↦ (s.rewound_fits h r hr).2
    · rwa [hn]
    · rw [Table.rewound]
      split
      · exact hnested
      · refine List.pairwise_append.mpr ⟨hnested, List.pairwise_singleton _ _, fun r hr m hm _ ↦ ?_⟩
        rw [List.mem_singleton.mp hm]
        exact hextent r hr
  · have hn := (replay_committed kept).2.2
    refine ⟨_, .inr ⟨hx, rfl⟩, committed_committed kept, ho.result,
      ho.agrees hr hr.front (committed_committed kept) ?_ ?_ h.dataFile ?_, ho.content⟩
    · rw [hn]
      exact committed_extent hnested
    · rw [hn]
      exact (replay_dataLen_le hextent).trans hfits
    · exact hnested.sublist (committed_isPrefix kept).sublist

end

end Stainless.Kvstore
