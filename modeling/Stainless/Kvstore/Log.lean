import Mathlib
import Stainless.Kvstore.Checksum

/-!
# The index log

The records of an index WAL as a list: how the list lies in the file, and the state that replaying
it gives.
-/

open Reasoning Stainless.Runtime

namespace Stainless.Kvstore

/-! ## Records in the file -/

def encodeLog (log : List IndexRecord) : Bytes := log.flatMap IndexRecord.encode

def logSize (log : List IndexRecord) : Nat := (log.map IndexRecord.size).sum

@[simp] theorem encodeLog_nil : encodeLog [] = [] := rfl

@[simp] theorem encodeLog_cons (r : IndexRecord) (log : List IndexRecord) :
    encodeLog (r :: log) = r.encode ++ encodeLog log := rfl

@[simp] theorem encodeLog_append (log more : List IndexRecord) :
    encodeLog (log ++ more) = encodeLog log ++ encodeLog more := List.flatMap_append

@[simp] theorem logSize_nil : logSize [] = 0 := rfl

@[simp] theorem logSize_cons (r : IndexRecord) (log : List IndexRecord) :
    logSize (r :: log) = r.size + logSize log := by
  simp [logSize]

@[simp] theorem logSize_append (log more : List IndexRecord) :
    logSize (log ++ more) = logSize log + logSize more := by
  simp [logSize]

@[simp] theorem encodeLog_length (log : List IndexRecord) :
    (encodeLog log).length = logSize log := by
  induction log with
  | nil => rfl
  | cons r log ih => simp [ih, r.encode_length]

theorem length_le_logSize (log : List IndexRecord) : log.length ≤ logSize log := by
  induction log with
  | nil => exact le_rfl
  | cons r log ih =>
      have hr := r.size_pos
      simp only [List.length_cons, logSize_cons]
      omega

theorem encodeLog_isPrefix {log more : List IndexRecord} (h : log <+: more) :
    encodeLog log <+: encodeLog more := by
  obtain ⟨rest, rfl⟩ := h
  rw [encodeLog_append]
  exact List.prefix_append _ _

/-- The framed read of a record that lies whole in the file. -/
theorem recordAt_encode {content : Bytes} {pre : List IndexRecord} {r : IndexRecord}
    {fileLen : Nat} (hv : r.Valid) (hp : encodeLog (pre ++ [r]) <+: content)
    (hf : logSize (pre ++ [r]) ≤ fileLen) :
    recordAt content (logSize pre) fileLen = .ok r.encode := by
  obtain ⟨rest, rfl⟩ := hp
  have hsize := r.payload_length
  have hlong := r.size_pos
  have hlt := hv.size_lt
  have hchecksum : recordChecksum r.payload < 256 ^ 4 := recordChecksumRange_lt _ _ _
  simp only [logSize_append, logSize_cons, logSize_nil, Nat.add_zero] at hf
  simp only [encodeLog_append, encodeLog_cons, encodeLog_nil, List.append_nil]
  have hframe : recordAt (encodeLog pre ++ r.encode ++ rest) (encodeLog pre).length fileLen = _ :=
    recordAt_frame (by omega) (by omega) (toBigEndian_length 4 (recordChecksum r.payload))
      (encodeLog pre) rest fileLen
  rw [encodeLog_length, if_neg (by omega), if_neg (by omega),
    if_neg (not_not.mpr (ofBigEndian_toBigEndian_of_lt hchecksum).symm)] at hframe
  exact hframe

/-- A record that the end of the file cuts is reported as corrupt. -/
theorem recordAt_truncated (pre : List IndexRecord) {r : IndexRecord} {part : Bytes}
    (hv : r.Valid) (hp : part <+: r.encode) (hlt : part.length < r.size) :
    ∃ message, recordAt (encodeLog pre ++ part) (logSize pre) (encodeLog pre ++ part).length =
      .error (.indexCorrupt message) := by
  have hlen : (encodeLog pre ++ part).length = logSize pre + part.length := by simp
  by_cases h4 : part.length < 4
  · refine ⟨"truncated index WAL record header", ?_⟩
    rw [recordAt, throwIf_of (by omega), error_bind]
  · refine ⟨"invalid index WAL record size", ?_⟩
    have hheader : preadContent (encodeLog pre ++ part) (logSize pre) 4 =
        .ok (slice part 0 4) := by
      rw [preadContent_of_le (by omega), slice_append_right _ _ _ _ (by simp), encodeLog_length,
        Nat.sub_self]
    have hpart : slice part 0 4 = slice r.encode 0 4 :=
      (slice_isPrefix hp 0 4 (by omega)).symm
    have hsize : decodeU32At (slice part 0 4) 0 = .ok r.size := by
      have h4 : 4 ≤ r.encode.length := by rw [r.encode_length]; omega
      rw [hpart, decodeU32At_header _ h4, decodeU32At_size_self r hv]
    rw [recordAt, throwIf_of_not (by omega), ok_bind, hheader, ok_bind, hsize, ok_bind,
      throwIf_of (by omega), error_bind]

/-! ## Replay -/

def IndexRecord.isInsert : IndexRecord → Bool
  | .insert _ => true
  | .commit _ => false

/-- The end of the part of the data WAL that a record refers to. -/
def IndexRecord.extent : IndexRecord → Nat
  | .insert r => r.offset + r.length
  | .commit m => m.dataLen

/-- The effect of one record on the state; the record is appended at the end of the index WAL. -/
def replayStep (s : StoreState) (r : IndexRecord) : StoreState :=
  match r with
  | .insert i => { s with
      index := s.index.insert (i.key, i.version) ⟨i.offset, i.length⟩
      indexLen := s.indexLen + r.size }
  | .commit m => { s with
      versionIndex := s.versionIndex.insert m.version s.indexLen
      currentVersion := m.version
      dataLen := m.dataLen
      indexLen := s.indexLen + r.size }

/-- The state that a log stands for; its data length is the last committed one. -/
def replay (log : List IndexRecord) : StoreState := log.foldl replayStep initialState

@[simp] theorem replay_nil : replay [] = initialState := rfl

@[simp] theorem replay_concat (log : List IndexRecord) (r : IndexRecord) :
    replay (log ++ [r]) = replayStep (replay log) r := by
  simp [replay]

@[simp] theorem replay_indexLen (log : List IndexRecord) : (replay log).indexLen = logSize log := by
  induction log using List.reverseRecOn with
  | nil => rfl
  | append_singleton log r ih =>
      rw [replay_concat, logSize_append, logSize_cons, logSize_nil, ← ih]
      cases r <;> rfl

/-- The log up to its last commit marker. -/
def committed (log : List IndexRecord) : List IndexRecord := log.rdropWhile IndexRecord.isInsert

@[simp] theorem committed_nil : committed [] = [] := rfl

@[simp] theorem committed_insert (log : List IndexRecord) (i : InsertRecord) :
    committed (log ++ [.insert i]) = committed log :=
  List.rdropWhile_concat_pos _ _ _ rfl

@[simp] theorem committed_commit (log : List IndexRecord) (m : CommitRecord) :
    committed (log ++ [.commit m]) = log ++ [.commit m] :=
  List.rdropWhile_concat_neg _ _ _ (by simp [IndexRecord.isInsert])

theorem committed_isPrefix (log : List IndexRecord) : committed log <+: log :=
  List.rdropWhile_prefix _ log

/-- Every log between the committed part and the whole has the same committed part. -/
theorem committed_eq_of_between {log mid : List IndexRecord} (hb : committed log <+: mid)
    (hm : mid <+: log) : committed mid = committed log := by
  induction log using List.reverseRecOn with
  | nil => simp_all
  | append_singleton log r ih =>
      rcases List.prefix_concat_iff.mp hm with rfl | hmid
      · rfl
      · cases r with
        | insert i =>
            rw [committed_insert] at hb ⊢
            exact ih hb hmid
        | commit m =>
            have h := (hb.trans hmid).length_le
            rw [committed_commit, List.length_append, List.length_singleton] at h
            omega

theorem committed_committed (log : List IndexRecord) : committed (committed log) = committed log :=
  committed_eq_of_between List.prefix_rfl (committed_isPrefix log)

/-- Uncommitted records change neither the versions nor the committed data length. -/
theorem replay_committed (log : List IndexRecord) :
    (replay (committed log)).versionIndex = (replay log).versionIndex ∧
      (replay (committed log)).currentVersion = (replay log).currentVersion ∧
      (replay (committed log)).dataLen = (replay log).dataLen := by
  induction log using List.reverseRecOn with
  | nil => exact ⟨rfl, rfl, rfl⟩
  | append_singleton log r ih =>
      cases r with
      | insert i =>
          rw [committed_insert, replay_concat]
          exact ih
      | commit m =>
          rw [committed_commit]
          exact ⟨rfl, rfl, rfl⟩

theorem replay_dataLen_le {log : List IndexRecord} {n : Nat} (h : ∀ r ∈ log, r.extent ≤ n) :
    (replay log).dataLen ≤ n := by
  induction log using List.reverseRecOn with
  | nil => exact Nat.zero_le _
  | append_singleton log r ih =>
      rw [replay_concat]
      cases r with
      | insert i => exact ih fun r hr ↦ h r (List.mem_append_left _ hr)
      | commit m => exact h (.commit m) (by simp)

/-! ## What a log names -/

def IndexRecord.indexKey? : IndexRecord → Option IndexKey
  | .insert i => some (i.key, i.version)
  | .commit _ => none

def IndexRecord.commitVersion? : IndexRecord → Option UInt32
  | .insert _ => none
  | .commit m => some m.version

def insertedKeys (log : List IndexRecord) : List IndexKey := log.filterMap IndexRecord.indexKey?

def committedVersions (log : List IndexRecord) : List UInt32 :=
  log.filterMap IndexRecord.commitVersion?

@[simp] theorem insertedKeys_append (log more : List IndexRecord) :
    insertedKeys (log ++ more) = insertedKeys log ++ insertedKeys more := List.filterMap_append

@[simp] theorem committedVersions_append (log more : List IndexRecord) :
    committedVersions (log ++ more) = committedVersions log ++ committedVersions more :=
  List.filterMap_append

theorem replay_index_concat_insert (log : List IndexRecord) (i : InsertRecord) (k : IndexKey) :
    (replay (log ++ [.insert i])).index[k]? =
      if (i.key, i.version) = k then some ⟨i.offset, i.length⟩ else (replay log).index[k]? := by
  rw [replay_concat, replayStep, OrderedMap.getElem?_insert]

theorem replay_versionIndex_concat_commit (log : List IndexRecord) (m : CommitRecord)
    (v : UInt32) :
    (replay (log ++ [.commit m])).versionIndex[v]? =
      if m.version = v then some (logSize log) else (replay log).versionIndex[v]? := by
  rw [replay_concat, replayStep, OrderedMap.getElem?_insert, replay_indexLen]

/-- A key that the end of a log does not insert has the entry of the part before. -/
theorem replay_index_append {log more : List IndexRecord} {k : IndexKey}
    (hk : k ∉ insertedKeys more) : (replay (log ++ more)).index[k]? = (replay log).index[k]? := by
  induction more using List.reverseRecOn with
  | nil => rw [List.append_nil]
  | append_singleton more r ih =>
      rw [insertedKeys_append, List.mem_append, not_or] at hk
      rw [← List.append_assoc]
      cases r with
      | insert i =>
          have hne : (i.key, i.version) ≠ k := by
            rintro rfl
            exact hk.2 (List.mem_singleton.mpr rfl)
          rw [replay_index_concat_insert, if_neg hne, ih hk.1]
      | commit m => rw [replay_concat, replayStep, ih hk.1]

theorem replay_versionIndex_append {log more : List IndexRecord} {v : UInt32}
    (hv : v ∉ committedVersions more) :
    (replay (log ++ more)).versionIndex[v]? = (replay log).versionIndex[v]? := by
  induction more using List.reverseRecOn with
  | nil => rw [List.append_nil]
  | append_singleton more r ih =>
      rw [committedVersions_append, List.mem_append, not_or] at hv
      rw [← List.append_assoc]
      cases r with
      | insert i => rw [replay_concat, replayStep, ih hv.1]
      | commit m =>
          have hne : m.version ≠ v := by
            rintro rfl
            exact hv.2 (List.mem_singleton.mpr rfl)
          rw [replay_versionIndex_concat_commit, if_neg hne, ih hv.1]

/-- Only inserted keys have an entry. -/
theorem replay_index_eq_none {log : List IndexRecord} {k : IndexKey} (hk : k ∉ insertedKeys log) :
    (replay log).index[k]? = none := by
  rw [← List.nil_append log, replay_index_append hk, replay_nil]
  exact Std.ExtTreeMap.getElem?_empty

theorem replay_versionIndex_eq_none {log : List IndexRecord} {v : UInt32}
    (hv : v ∉ committedVersions log) (h0 : v ≠ 0) : (replay log).versionIndex[v]? = none := by
  rw [← List.nil_append log, replay_versionIndex_append hv, replay_nil, initialState,
    OrderedMap.getElem?_insert, if_neg h0.symm]
  exact Std.ExtTreeMap.getElem?_empty

/-- Every inserted key has an entry, and every committed version as well as version 0 has one. -/
theorem replay_index_ne_none {log : List IndexRecord} {k : IndexKey} (hk : k ∈ insertedKeys log) :
    (replay log).index[k]? ≠ none := by
  induction log using List.reverseRecOn with
  | nil => exact absurd hk List.not_mem_nil
  | append_singleton log r ih =>
      rw [insertedKeys_append, List.mem_append] at hk
      cases r with
      | insert i =>
          rw [replay_index_concat_insert]
          split
          · exact Option.some_ne_none _
          · rename_i hne
            exact ih (hk.resolve_right fun h ↦ hne (List.mem_singleton.mp h).symm)
      | commit m =>
          rw [replay_concat, replayStep]
          exact ih (hk.resolve_right List.not_mem_nil)

/-- An entry comes from an insertion in the log. -/
theorem exists_of_replay_index {log : List IndexRecord} {k : IndexKey} {e : IndexEntry}
    (h : (replay log).index[k]? = some e) :
    ∃ i : InsertRecord, .insert i ∈ log ∧ (i.key, i.version) = k ∧ e = ⟨i.offset, i.length⟩ := by
  induction log using List.reverseRecOn with
  | nil =>
      rw [replay_index_eq_none (List.not_mem_nil)] at h
      cases h
  | append_singleton log r ih =>
      cases r with
      | insert i =>
          rw [replay_index_concat_insert] at h
          split at h
          · rename_i hk
            cases h
            exact ⟨i, by simp, hk, rfl⟩
          · obtain ⟨i', hi, hk, he⟩ := ih h
            exact ⟨i', List.mem_append_left _ hi, hk, he⟩
      | commit m =>
          rw [replay_concat] at h
          obtain ⟨i', hi, hk, he⟩ := ih h
          exact ⟨i', List.mem_append_left _ hi, hk, he⟩

theorem replay_versionIndex_ne_none {log : List IndexRecord} {v : UInt32}
    (hv : v = 0 ∨ v ∈ committedVersions log) : (replay log).versionIndex[v]? ≠ none := by
  induction log using List.reverseRecOn with
  | nil =>
      rw [hv.resolve_right List.not_mem_nil, replay_nil, initialState, OrderedMap.getElem?_insert,
        if_pos rfl]
      exact Option.some_ne_none _
  | append_singleton log r ih =>
      rw [committedVersions_append, List.mem_append] at hv
      cases r with
      | insert i =>
          rw [replay_concat, replayStep]
          exact ih (hv.imp id fun h ↦ h.resolve_right List.not_mem_nil)
      | commit m =>
          rw [replay_versionIndex_concat_commit]
          split
          · exact Option.some_ne_none _
          · rename_i hne
            exact ih (hv.imp id fun h ↦ h.resolve_right fun h ↦ hne (List.mem_singleton.mp h).symm)

/-! ## Parsing -/

def decodeRecord (record : Bytes) : Except TableError IndexRecord := do
  match ← indexRecordKind record with
  | .insert => return .insert (← InsertRecord.read record)
  | .commit => return .commit (← CommitRecord.read record)

/-- The records readable from `offset` on. -/
def decodeFrom (content : Bytes) : Nat → Nat → List IndexRecord
  | 0, _ => []
  | budget + 1, offset =>
      match recordAt content offset content.length >>= decodeRecord with
      | .ok r => r :: decodeFrom content budget (offset + r.size)
      | .error _ => []

def decodeLog (content : Bytes) : List IndexRecord := decodeFrom content content.length 0

theorem decodeRecord_encode {r : IndexRecord} (hv : r.Valid) : decodeRecord r.encode = .ok r := by
  cases r with
  | insert i =>
      rw [decodeRecord, indexRecordKind_insert, ok_bind]
      dsimp only
      rw [InsertRecord.read_encode i hv, ok_bind]
      rfl
  | commit m =>
      rw [decodeRecord, indexRecordKind_commit, ok_bind]
      dsimp only
      rw [CommitRecord.read_encode m hv, ok_bind]
      rfl

private theorem decodeFrom_encodeLog (pre : List IndexRecord) {todo : List IndexRecord} (hv : ∀ r ∈ todo, r.Valid)
    {budget : Nat} (hb : todo.length ≤ budget) :
    decodeFrom (encodeLog (pre ++ todo)) budget (logSize pre) = todo := by
  induction todo generalizing pre budget with
  | nil =>
      cases budget with
      | zero => rfl
      | succ budget =>
          rw [decodeFrom, recordAt, throwIf_of (by simp), error_bind, error_bind]
  | cons r todo ih =>
      cases budget with
      | zero => simp at hb
      | succ budget =>
          have hr := hv r List.mem_cons_self
          have hp : pre ++ [r] <+: pre ++ r :: todo := ⟨todo, by simp⟩
          have hp := encodeLog_isPrefix hp
          have hlen : logSize (pre ++ [r]) ≤ (encodeLog (pre ++ r :: todo)).length :=
            (encodeLog_length _).symm.le.trans hp.length_le
          rw [decodeFrom, recordAt_encode hr hp hlen, ok_bind, decodeRecord_encode hr]
          dsimp only
          rw [show logSize pre + r.size = logSize (pre ++ [r]) by simp, List.append_cons,
            ih _ (fun s hs ↦ hv s (List.mem_cons_of_mem _ hs)) (by simpa using hb)]

/-- Parsing an encoded log gives the log back. -/
theorem decodeLog_encodeLog {log : List IndexRecord} (hv : ∀ r ∈ log, r.Valid) :
    decodeLog (encodeLog log) = log := by
  refine decodeFrom_encodeLog [] hv ?_
  rw [encodeLog_length]
  exact length_le_logSize log

/-- The records of a log in front of an offset, and those behind it. -/
def splitLog : List IndexRecord → Nat → List IndexRecord × List IndexRecord
  | [], _ => ([], [])
  | r :: log, offset =>
      if offset < r.size then ([], r :: log)
      else
        let parts := splitLog log (offset - r.size)
        (r :: parts.1, parts.2)

theorem splitLog_append (kept rest : List IndexRecord) :
    splitLog (kept ++ rest) (logSize kept) = (kept, rest) := by
  induction kept with
  | nil =>
      cases rest with
      | nil => rfl
      | cons r rest =>
          have hr := r.size_pos
          rw [List.nil_append, splitLog, if_pos (by rw [logSize_nil]; omega)]
  | cons r kept ih =>
      rw [List.cons_append, splitLog, logSize_cons, if_neg (by omega), Nat.add_sub_cancel_left, ih]

end Stainless.Kvstore
