import Stainless.Kvstore.Outcomes
import Stainless.Kvstore.Recover

/-!
# The log behind a table

The tracked part of the index WAL is the encoding of a log, and what the table holds in memory comes
from that log.  This survives every call and almost every I/O error.
-/

open Reasoning Stainless.Runtime

namespace Stainless.Kvstore

/-- A marker of `version` lies at `offset` in the encoded log. -/
def MarkerAt (log : List IndexRecord) (version : UInt32) (offset dataLen : Nat) : Prop :=
  ∃ pre post, log = pre ++ .commit ⟨version, dataLen⟩ :: post ∧ offset = logSize pre

theorem MarkerAt.append {log : List IndexRecord} {version : UInt32} {offset dataLen : Nat}
    (h : MarkerAt log version offset dataLen) (more : List IndexRecord) :
    MarkerAt (log ++ more) version offset dataLen := by
  obtain ⟨pre, post, rfl, ho⟩ := h
  exact ⟨pre, post ++ more, by simp, ho⟩

theorem MarkerAt.concat (log : List IndexRecord) (version : UInt32) (dataLen : Nat) :
    MarkerAt (log ++ [.commit ⟨version, dataLen⟩]) version (logSize log) dataLen :=
  ⟨log, [], rfl, rfl⟩

theorem MarkerAt.mem {log : List IndexRecord} {version : UInt32} {offset dataLen : Nat}
    (h : MarkerAt log version offset dataLen) : version ∈ committedVersions log := by
  obtain ⟨pre, post, rfl, -⟩ := h
  simp [committedVersions, IndexRecord.commitVersion?]

/-- A marker whose version the end of the log does not name lies in front of that end. -/
theorem MarkerAt.of_append {kept rest : List IndexRecord} {version : UInt32} {offset dataLen : Nat}
    (h : MarkerAt (kept ++ rest) version offset dataLen) (hv : version ∉ committedVersions rest) :
    MarkerAt kept version offset dataLen := by
  obtain ⟨pre, post, heq, ho⟩ := h
  rcases List.append_eq_append_iff.mp heq with ⟨mid, rfl, hrest⟩ | ⟨mid, hkept, hrest⟩
  · exfalso
    apply hv
    rw [hrest]
    simp [committedVersions, IndexRecord.commitVersion?]
  · cases mid with
    | nil =>
        exfalso
        apply hv
        rw [List.nil_append] at hrest
        rw [← hrest]
        simp [committedVersions, IndexRecord.commitVersion?]
    | cons r mid =>
        rw [List.cons_append, List.cons.injEq] at hrest
        exact ⟨pre, mid, by rw [hkept, hrest.1], ho⟩

structure Backed (log : List IndexRecord) (t : Table) : Prop where
  encoded : encodeLog log <+: t.indexLog.content
  indexLen : t.state.indexLen = logSize log
  indexFile : t.indexLog.content.length ≤ maxFileLen
  dataLen : t.state.dataLen ≤ t.dataLog.content.length
  dataFile : t.dataLog.content.length ≤ maxFileLen
  valid : ∀ r ∈ log, r.Valid
  inside : ∀ r ∈ log, r.extent ≤ t.state.dataLen
  nested : log.Pairwise fun r s ↦ s.isInsert = false → r.extent ≤ s.extent
  markers : ∀ (version : UInt32) (offset : Nat), t.state.versionIndex[version]? = some offset →
    version = 0 ∧ offset = 0 ∨ ∃ dataLen, MarkerAt log version offset dataLen
  entries : ∀ (k : IndexKey) (e : IndexEntry), t.state.index[k]? = some e → (replay log).index[k]? = some e

namespace Backed

variable {log : List IndexRecord} {t : Table}

theorem logSize_le (h : Backed log t) : logSize log ≤ t.indexLog.content.length := by
  rw [← encodeLog_length]
  exact h.encoded.length_le

theorem take_content (h : Backed log t) :
    t.indexLog.content.take t.state.indexLen = encodeLog log := by
  rw [h.indexLen, ← encodeLog_length, ← List.prefix_iff_eq_take.mp h.encoded]

/-- Other files do as well, as long as they hold the log and the tracked data. -/
theorem withFiles (h : Backed log t) {dataLog indexLog : DurableFile}
    (hencoded : encodeLog log <+: indexLog.content) (hindex : indexLog.content.length ≤ maxFileLen)
    (hdataLen : t.state.dataLen ≤ dataLog.content.length)
    (hdata : dataLog.content.length ≤ maxFileLen) : Backed log ⟨dataLog, indexLog, t.state⟩ where
  encoded := hencoded
  indexLen := h.indexLen
  indexFile := hindex
  dataLen := hdataLen
  dataFile := hdata
  valid := h.valid
  inside := h.inside
  nested := h.nested
  markers := h.markers
  entries := h.entries

/-! ## Insert -/

private theorem length_overwrite_le {content part : Bytes} {offset : Nat}
    (ho : offset ≤ content.length) (hc : content.length ≤ maxFileLen)
    (hp : part.length ≤ maxFileLen - offset) :
    (overwrite content offset part).length ≤ maxFileLen := by
  rw [overwrite_length ho]
  omega

theorem write_data (h : Backed log t) (part : Bytes)
    (hp : part.length ≤ maxFileLen - t.state.dataLen) :
    Backed log { t with dataLog := t.dataLog.issue (.write t.state.dataLen part) } := by
  refine h.withFiles h.encoded h.indexFile ?_ ?_
  · rw [DurableFile.content_issue]
    exact h.dataLen.trans (le_overwrite_length _ _ _)
  · rw [DurableFile.content_issue]
    exact length_overwrite_le h.dataLen h.dataFile hp

/-- Bytes written behind the tracked end of the index WAL do not count. -/
theorem write_index (h : Backed log t) (part : Bytes)
    (hp : part.length ≤ maxFileLen - t.state.indexLen) :
    Backed log { t with indexLog := t.indexLog.issue (.write t.state.indexLen part) } := by
  refine h.withFiles ?_ ?_ h.dataLen h.dataFile
  · rw [DurableFile.content_issue, FileOp.apply, h.indexLen, ← encodeLog_length]
    exact prefix_overwrite h.encoded part
  · rw [DurableFile.content_issue]
    exact length_overwrite_le (h.indexLen.le.trans h.logSize_le) h.indexFile hp

theorem valid_newRecord {key value bytes : Bytes}
    (hbytes : makeDataRecord t.state.currentVersion key value = .ok bytes)
    (hdata : t.state.dataLen + bytes.length ≤ maxFileLen) (hkey : 33 + key.length < 2 ^ 32) :
    (IndexRecord.insert (t.newRecord key value)).Valid := by
  obtain ⟨hlen, -, hvalue⟩ := makeDataRecord_ok hbytes
  have hmax : maxFileLen < 2 ^ 64 := by decide
  refine ⟨hkey, ?_, hvalue⟩
  change t.state.dataLen + 21 + key.length < 2 ^ 64
  omega

theorem insert_done (h : Backed log t) {key value bytes : Bytes}
    (hbytes : makeDataRecord t.state.currentVersion key value = .ok bytes)
    (hdata : t.state.dataLen + bytes.length ≤ maxFileLen) (hkey : 33 + key.length < 2 ^ 32)
    (hindex : t.state.indexLen + (33 + key.length) ≤ maxFileLen) :
    Backed (log ++ [.insert (t.newRecord key value)])
      { dataLog := t.dataLog.issue (.write t.state.dataLen bytes)
        indexLog := t.indexLog.issue
          (.write t.state.indexLen (IndexRecord.insert (t.newRecord key value)).encode)
        state := { t.state with
          dataLen := t.state.dataLen + bytes.length
          indexLen := t.state.indexLen + (33 + key.length)
          index := t.state.index.insert (key, t.state.currentVersion)
            ⟨t.state.dataLen + 21 + key.length, value.length⟩ } } where
  encoded := by
    rw [DurableFile.content_issue, FileOp.apply, h.indexLen, ← encodeLog_length, encodeLog_append,
      encodeLog_cons, encodeLog_nil, List.append_nil]
    exact append_prefix_overwrite h.encoded _
  indexLen := by
    simp [h.indexLen, IndexRecord.size, Table.newRecord]
  indexFile := by
    rw [DurableFile.content_issue]
    refine length_overwrite_le (h.indexLen.le.trans h.logSize_le) h.indexFile ?_
    rw [IndexRecord.encode_length]
    change 33 + key.length ≤ maxFileLen - t.state.indexLen
    omega
  dataLen := by
    rw [DurableFile.content_issue, FileOp.apply, overwrite_length h.dataLen]
    exact Nat.le_max_right _ _
  dataFile := by
    rw [DurableFile.content_issue]
    exact length_overwrite_le h.dataLen h.dataFile (by omega)
  valid := by
    intro r hr
    rcases List.mem_append.mp hr with hr | hr
    · exact h.valid r hr
    · rw [List.mem_singleton.mp hr]
      exact valid_newRecord hbytes hdata hkey
  inside := by
    intro r hr
    obtain ⟨hlen, -, -⟩ := makeDataRecord_ok hbytes
    rcases List.mem_append.mp hr with hr | hr
    · exact (h.inside r hr).trans (Nat.le_add_right _ _)
    · rw [List.mem_singleton.mp hr]
      change t.state.dataLen + 21 + key.length + value.length ≤ t.state.dataLen + bytes.length
      omega
  nested := by
    refine List.pairwise_append.mpr ⟨h.nested, List.pairwise_singleton _ _, ?_⟩
    intro r _ s hs hc
    rw [List.mem_singleton.mp hs] at hc
    cases hc
  -- the markers in front stay where they are
  markers := by
    intro version offset hv
    rcases h.markers version offset hv with h0 | ⟨dataLen, hm⟩
    · exact .inl h0
    · exact .inr ⟨dataLen, hm.append _⟩
  entries := by
    intro k e hk
    rw [OrderedMap.getElem?_insert] at hk
    rw [replay_index_concat_insert]
    by_cases heq : (key, t.state.currentVersion) = k
    · rw [if_pos heq] at hk
      exact (if_pos heq).trans hk
    · rw [if_neg heq] at hk
      exact (if_neg heq).trans (h.entries k e hk)

/-! ## Commit -/

@[simp] theorem committedData_content (h : Backed log t) :
    t.committedData.content = t.dataLog.content.take t.state.dataLen := by
  rw [Table.committedData, DurableFile.content_sync, DurableFile.content_issue, FileOp.apply,
    resize_of_le h.dataLen]

theorem committedData_length (h : Backed log t) :
    t.committedData.content.length = t.state.dataLen := by
  rw [h.committedData_content, List.length_take, Nat.min_eq_left h.dataLen]

theorem cutIndex_content (h : Backed log t) : t.cutIndex.content = encodeLog log := by
  rw [Table.cutIndex, DurableFile.content_issue, FileOp.apply, h.indexLen, ← encodeLog_length,
    resize_prefix h.encoded]

theorem markedIndex_content (h : Backed log t) (version : UInt32) :
    (t.markedIndex version).content = encodeLog (log ++ [t.newMarker version]) := by
  rw [Table.markedIndex, DurableFile.content_issue, FileOp.apply, h.cutIndex_content, h.indexLen,
    ← encodeLog_length, overwrite_end, encodeLog_append, encodeLog_cons, encodeLog_nil,
    List.append_nil]

theorem marked_length (log : List IndexRecord) (version : UInt32) :
    (encodeLog (log ++ [t.newMarker version])).length = logSize log + 21 := by
  rw [encodeLog_length, logSize_append]
  rfl

/-- Cutting the marked index WAL at its own end changes nothing. -/
theorem markedIndex_resize_content (h : Backed log t) (version : UInt32) :
    ((t.markedIndex version).issue (.resize (t.state.indexLen + 21))).content =
      encodeLog (log ++ [t.newMarker version]) := by
  rw [DurableFile.content_issue, FileOp.apply, h.markedIndex_content, h.indexLen,
    ← marked_length (t := t) log version, resize_self]

theorem committed_data (h : Backed log t) :
    Backed log { t with dataLog := t.committedData } :=
  h.withFiles h.encoded h.indexFile h.committedData_length.ge
    (h.committedData_length.le.trans (h.dataLen.trans h.dataFile))

theorem commit_cutIndex (h : Backed log t) :
    Backed log { t with dataLog := t.committedData, indexLog := t.cutIndex } := by
  refine h.committed_data.withFiles ?_ ?_ h.committed_data.dataLen h.committed_data.dataFile
  · rw [h.cutIndex_content]
  · rw [h.cutIndex_content, encodeLog_length]
    exact h.logSize_le.trans h.indexFile

/-- The marker in the file: the log is longer, whether or not the versions know of it yet. -/
theorem commit_marked (h : Backed log t) {version : UInt32} (indexLog : DurableFile)
    (versionIndex : VersionIndex) (currentVersion : UInt32)
    (hindex : indexLog.content = encodeLog (log ++ [t.newMarker version]))
    (hfile : t.state.indexLen + 21 ≤ maxFileLen)
    (hversions : ∀ (v : UInt32) (offset : Nat), versionIndex[v]? = some offset →
      v = version ∧ offset = t.state.indexLen ∨ t.state.versionIndex[v]? = some offset) :
    Backed (log ++ [t.newMarker version])
      ⟨t.committedData, indexLog, { t.state with
        indexLen := t.state.indexLen + 21
        versionIndex := versionIndex
        currentVersion := currentVersion }⟩ where
  encoded := by rw [hindex]
  indexLen := by
    rw [logSize_append, ← h.indexLen]
    rfl
  indexFile := by
    rw [hindex, marked_length, ← h.indexLen]
    exact hfile
  dataLen := h.committedData_length.ge
  dataFile := h.committedData_length.le.trans (h.dataLen.trans h.dataFile)
  valid := by
    intro r hr
    rcases List.mem_append.mp hr with hr | hr
    · exact h.valid r hr
    · rw [List.mem_singleton.mp hr]
      have hmax : maxFileLen < 2 ^ 64 := by decide
      exact lt_of_le_of_lt (h.dataLen.trans h.dataFile) hmax
  inside := by
    intro r hr
    rcases List.mem_append.mp hr with hr | hr
    · exact h.inside r hr
    · rw [List.mem_singleton.mp hr]
      exact le_rfl
  nested := by
    refine List.pairwise_append.mpr ⟨h.nested, List.pairwise_singleton _ _, ?_⟩
    intro r hr s hs _
    rw [List.mem_singleton.mp hs]
    exact h.inside r hr
  markers := by
    intro v offset hv
    -- the new entry of the version index points to the new marker
    rcases hversions v offset hv with ⟨rfl, rfl⟩ | hv
    · refine .inr ⟨t.state.dataLen, ?_⟩
      rw [h.indexLen]
      exact .concat log v t.state.dataLen
    · rcases h.markers v offset hv with h0 | ⟨dataLen, hm⟩
      · exact .inl h0
      · exact .inr ⟨dataLen, hm.append _⟩
  entries := by
    intro k e hk
    rw [replay_concat]
    exact h.entries k e hk

end Backed

end Stainless.Kvstore
