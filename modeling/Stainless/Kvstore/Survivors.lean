import Stainless.Kvstore.RangeRuns

/-!
# Surviving insertions

An observer notes every insertion of a run and forgets it when its record leaves the index WAL.  Every
entry in memory locates the value of the last insertion that is still noted.
-/

open Reasoning Stainless.Runtime

namespace Stainless.Kvstore

/-- An insertion, with the end of its record in the index WAL. -/
structure Insertion where
  key : Bytes
  value : Bytes
  version : UInt32
  stop : Nat
  deriving DecidableEq, Repr

/-- The insertions that survive a call: those whose record lies in the tracked index WAL afterwards,
and the call itself if it inserts. -/
def survivors (notes : List Insertion) (t : Table) (c : Call) : List Insertion :=
  let t' := t.step c
  let kept := notes.filter fun i ↦ i.stop ≤ t'.state.indexLen
  match c with
  | .insert key value =>
      if (t.outcome c).result = .ok true then
        kept ++ [⟨key, value, t.state.currentVersion, t'.state.indexLen⟩]
      else kept
  | _ => kept

/-- The value of the most recent insertion of a key at a version. -/
def lastValue (notes : List Insertion) (k : IndexKey) : Option Bytes :=
  ((notes.filter fun i ↦ (i.key, i.version) = k).getLast?).map Insertion.value

/-! ## The insertions of a log -/

/-- The insertions of a log whose records start at `start`, with the values that the data WAL holds
for them. -/
def insertionsFrom (data : Bytes) : Nat → List IndexRecord → List Insertion
  | _, [] => []
  | start, .insert i :: log =>
      ⟨i.key, slice data i.offset i.length, i.version, start + (33 + i.key.length)⟩ ::
        insertionsFrom data (start + (33 + i.key.length)) log
  | start, .commit _ :: log => insertionsFrom data (start + 21) log

def insertions (data : Bytes) (log : List IndexRecord) : List Insertion := insertionsFrom data 0 log

theorem insertionsFrom_append (data : Bytes) (start : Nat) (log more : List IndexRecord) :
    insertionsFrom data start (log ++ more) =
      insertionsFrom data start log ++ insertionsFrom data (start + logSize log) more := by
  induction log generalizing start with
  | nil => rfl
  | cons r log ih =>
      rw [logSize_cons, ← Nat.add_assoc]
      cases r with
      | insert i =>
          rw [List.cons_append, insertionsFrom, insertionsFrom, ih, List.cons_append]
          rfl
      | commit m =>
          rw [List.cons_append, insertionsFrom, insertionsFrom, ih]
          rfl

theorem insertions_append (data : Bytes) (log more : List IndexRecord) :
    insertions data (log ++ more) = insertions data log ++ insertionsFrom data (logSize log) more := by
  rw [insertions, insertionsFrom_append, Nat.zero_add]
  rfl

@[simp] theorem insertions_commit (data : Bytes) (log : List IndexRecord) (m : CommitRecord) :
    insertions data (log ++ [.commit m]) = insertions data log := by
  rw [insertions_append]
  exact List.append_nil _

theorem insertionsFrom_stop {data : Bytes} (start : Nat) (log : List IndexRecord) :
    ∀ i ∈ insertionsFrom data start log, start + 33 ≤ i.stop ∧ i.stop ≤ start + logSize log := by
  induction log generalizing start with
  | nil => exact fun i hi ↦ absurd hi List.not_mem_nil
  | cons r log ih =>
      intro i hi
      rw [logSize_cons]
      cases r with
      | insert first =>
          have hsize : (IndexRecord.insert first).size = 33 + first.key.length := rfl
          rcases List.mem_cons.mp hi with rfl | hi
          · dsimp only
            omega
          · have := ih _ i hi
            omega
      | commit m =>
          have hsize : (IndexRecord.commit m).size = 21 := rfl
          have := ih _ i hi
          omega

/-- Only the data that the records refer to matters. -/
theorem insertionsFrom_take {data : Bytes} {n start : Nat} {log : List IndexRecord}
    (h : ∀ r ∈ log, r.extent ≤ n) :
    insertionsFrom (data.take n) start log = insertionsFrom data start log := by
  induction log generalizing start with
  | nil => rfl
  | cons r log ih =>
      have ih := @ih
      cases r with
      | insert i =>
          rw [insertionsFrom, insertionsFrom, ih fun r hr ↦ h r (List.mem_cons_of_mem _ hr),
            slice_take _ _ _ _ (h _ List.mem_cons_self)]
      | commit m =>
          rw [insertionsFrom, insertionsFrom, ih fun r hr ↦ h r (List.mem_cons_of_mem _ hr)]

/-- An index WAL that ends behind the first records keeps exactly their insertions. -/
theorem filter_insertions {data : Bytes} {log more whole : List IndexRecord} {n : Nat}
    (hwhole : log ++ more = whole) (hlog : logSize log ≤ n)
    (hmore : ∀ i ∈ insertionsFrom data (logSize log) more, n < i.stop) :
    (insertions data whole).filter (fun i ↦ i.stop ≤ n) = insertions data log := by
  rw [← hwhole, insertions_append, List.filter_append, List.filter_eq_self.mpr, List.filter_eq_nil_iff.mpr,
    List.append_nil]
  · intro i hi
    have := hmore i hi
    simpa using this
  · intro i hi
    have := (insertionsFrom_stop _ _ i hi).2
    rw [Nat.zero_add] at this
    exact decide_eq_true (this.trans hlog)

theorem lastValue_concat (notes : List Insertion) (i : Insertion) (k : IndexKey) :
    lastValue (notes ++ [i]) k = if (i.key, i.version) = k then some i.value else lastValue notes k := by
  rw [lastValue, List.filter_append]
  split
  · rename_i h
    rw [List.filter_cons_of_pos (by simpa using h), List.filter_nil, List.getLast?_concat]
    rfl
  · rename_i h
    rw [List.filter_cons_of_neg (by simpa using h), List.filter_nil, List.append_nil]
    rfl

/-- An entry of a log locates the value of its last insertion. -/
theorem lastValue_insertions (data : Bytes) (log : List IndexRecord) (k : IndexKey) :
    lastValue (insertions data log) k = (replay log).index[k]?.map (valueAt data) := by
  induction log using List.reverseRecOn with
  | nil =>
      rw [replay_index_eq_none (List.not_mem_nil)]
      rfl
  | append_singleton log r ih =>
      cases r with
      | insert i =>
          rw [insertions_append, insertionsFrom, insertionsFrom, lastValue_concat,
            replay_index_concat_insert]
          split
          · rfl
          · exact ih
      | commit m =>
          rw [insertions_commit, replay_concat]
          exact ih

/-! ## One call -/

variable {log log' : List IndexRecord} {t t' : Table}

private theorem filter_all (data : Bytes) {n : Nat} (hlog : logSize log ≤ n) :
    (insertions data log).filter (fun i ↦ i.stop ≤ n) = insertions data log :=
  filter_insertions (List.append_nil log) hlog fun _ hi ↦ absurd hi List.not_mem_nil

theorem Settled.insertions_inserted (h : Settled log t) {key value bytes : Bytes}
    (hbytes : makeDataRecord t.state.currentVersion key value = .ok bytes) :
    insertions (t.dataLog.issue (.write t.state.dataLen bytes)).content
        (log ++ [.insert (t.newRecord key value)]) =
      insertions t.dataLog.content log ++
        [⟨key, value, t.state.currentVersion, logSize log + (33 + key.length)⟩] := by
  obtain ⟨hlen, hvalue, -⟩ := makeDataRecord_ok hbytes
  have hold : insertions (t.dataLog.content ++ bytes) log = insertions t.dataLog.content log := by
    have htake : (t.dataLog.content ++ bytes).take t.state.dataLen = t.dataLog.content := by
      rw [← h.data, List.take_left']
      rfl
    calc insertions (t.dataLog.content ++ bytes) log
        = insertions ((t.dataLog.content ++ bytes).take t.state.dataLen) log :=
          (insertionsFrom_take h.inside).symm
      _ = insertions t.dataLog.content log := by rw [htake]
  have hnew : slice (t.dataLog.content ++ bytes) (t.state.dataLen + 21 + key.length) value.length =
      value := by
    rw [slice_append_right _ _ _ _ (by rw [h.data]; omega), h.data,
      show t.state.dataLen + 21 + key.length - t.state.dataLen = 21 + key.length by omega, hvalue]
  rw [h.inserted_content, insertions_append, hold, insertionsFrom, insertionsFrom]
  simp only [Table.newRecord, hnew]

/-- The notes follow the log. -/
theorem Advance.survivors {c : Call} (h : Settled log t)
    (a : Advance log t c (t.outcome c).result log' (t.step c)) :
    survivors (insertions t.dataLog.content log) t c =
      insertions (t.step c).dataLog.content log' := by
  have hlen := (a.settled h).indexLen
  unfold Kvstore.survivors
  generalize (t.outcome c).result = r at *
  generalize t.step c = t' at *
  cases a with
  | idle _ hr' =>
      have hkept := filter_all t.dataLog.content hlen.ge
      cases c with
      | insert key value =>
          dsimp only
          rw [if_neg hr', hkept]
      | _ => exact hkept
  | @inserted key value bytes hbytes =>
      have hkept := filter_all t.dataLog.content
        (show logSize log ≤ t.state.indexLen + (33 + key.length) by
          rw [h.indexLen]; exact Nat.le_add_right _ _)
      dsimp only
      rw [if_pos rfl, hkept, h.insertions_inserted hbytes, h.indexLen]
  | @committed version =>
      dsimp only
      rw [h.committedData_content, Table.newMarker, insertions_commit]
      exact filter_all _ (by rw [h.indexLen]; exact Nat.le_add_right _ _)
  | @reverted version kept rest dataLen hsplit hversion =>
      have hbounds := hsplit.dataLen_bounds h.toBacked
      have hdata := hsplit.data_content h.toBacked
      have htake : insertions (t.dataLog.content.take dataLen) kept =
        insertions t.dataLog.content kept := insertionsFrom_take hbounds.1
      dsimp only
      rw [hdata, RevertSplit.revertedState_indexLen]
      cases hx : t.exact version with
      | true =>
          rw [RevertSplit.rewound_of_exact hx, htake]
          refine filter_insertions hsplit.log_eq.symm le_rfl fun i hi ↦ ?_
          have := (insertionsFrom_stop _ _ i hi).1
          omega
      | false =>
          obtain ⟨next, post, rfl, -⟩ := hsplit.successor hx
          rw [RevertSplit.rewound_of_not_exact hx, insertions_commit, htake]
          refine filter_insertions hsplit.log_eq.symm (by simp) fun i hi ↦ ?_
          have := (insertionsFrom_stop (logSize kept + 21) post i hi).1
          simp only [logSize_append, logSize_cons, logSize_nil, IndexRecord.size]
          omega
  | recovered =>
      obtain ⟨more, hmore⟩ := committed_isPrefix log
      have hextent := committed_extent h.nested
      dsimp only
      have htake : insertions (t.dataLog.content.take (replay log).dataLen) (Kvstore.committed log) =
        insertions t.dataLog.content (Kvstore.committed log) := insertionsFrom_take hextent
      rw [h.toBacked.trim_data_content, htake, replay_indexLen]
      refine filter_insertions hmore le_rfl fun i hi ↦ ?_
      have := (insertionsFrom_stop _ _ i hi).1
      omega

/-! ## Runs -/

/-- The table and the notes after some calls. -/
def observed (calls : List Call) : Table × List Insertion :=
  run (watch Table.step survivors) (Table.created, []) calls

theorem exists_insertions {calls : List Call}
    (h : Meets Table.step NoIoError Table.created calls) :
    ∃ log, Settled log (observed calls).1 ∧
      (observed calls).2 = insertions (observed calls).1.dataLog.content log := by
  refine (h.watch survivors []).invariant
    (I := fun p ↦ ∃ log, Settled log p.1 ∧ p.2 = insertions p.1.dataLog.content log)
    ⟨[], settled_created, rfl⟩ ?_
  rintro ⟨t, notes⟩ c ⟨log, hs, hnotes⟩ hio
  have hs : Settled log t := hs
  have hnotes : notes = insertions t.dataLog.content log := hnotes
  obtain ⟨log', ha⟩ := hs.advance c hio
  refine ⟨log', ha.settled hs, ?_⟩
  change survivors notes t c = _
  rw [hnotes]
  exact ha.survivors hs

/-- The value is that of the last noted insertion of the key at some version. -/
def Noted (notes : List Insertion) (a : Bytes × Bytes) : Prop :=
  ∃ version : UInt32, lastValue notes (a.1, version) = some a.2

/-- Every entry of the table locates the value of the last surviving insertion of its key and
version, so no read fails and every read answers with such a value. -/
theorem entries_locate_survivors (calls : List Call)
    (hrun : Meets Table.step NoIoError Table.created calls) :
    let t := (observed calls).1
    let notes := (observed calls).2
    (∀ (k : IndexKey) (e : IndexEntry), t.state.index[k]? = some e →
      e.offset + e.length ≤ t.state.dataLen ∧
        lastValue notes k = some (slice t.dataLog.content e.offset e.length)) ∧
    (∀ key, ∃ found, t.view key = .ok found ∧ ∀ value ∈ found, Noted notes (key, value)) ∧
    (∀ lower upper, ∃ found, t.range lower upper = .ok found ∧ ∀ a ∈ found, Noted notes a) ∧
    (∀ lower upper count, ∃ found, t.rangeFirst lower upper count = .ok found ∧
      ∀ a ∈ found, Noted notes a) ∧
    ∀ lower upper count, ∃ found, t.rangeLast lower upper count = .ok found ∧
      ∀ a ∈ found, Noted notes a := by
  obtain ⟨log, h, hnotes⟩ := exists_insertions hrun
  rw [hnotes]
  generalize (observed calls).1 = t at *
  have hentry (k : IndexKey) (e : IndexEntry) (he : t.state.index[k]? = some e) :
      e.offset + e.length ≤ t.state.dataLen ∧
        lastValue (insertions t.dataLog.content log) k =
          some (slice t.dataLog.content e.offset e.length) := by
    refine ⟨h.data ▸ h.toBacked.entry_le he, ?_⟩
    rw [lastValue_insertions, h.entries k e he]
    rfl
  -- what is read at entries of the table is noted
  have hread (entries : List (Bytes × IndexEntry)) (hin : ∀ a ∈ entries, t.state.Locates a) :
      ∃ found, readEntries t.dataLog.content entries = .ok found ∧
        ∀ a ∈ found, Noted (insertions t.dataLog.content log) a := by
    refine ⟨_, readEntries_of_le fun a ha ↦ ?_, fun a ha ↦ ?_⟩
    · obtain ⟨v, hv⟩ := hin a ha
      exact h.toBacked.entry_le hv
    · obtain ⟨b, hb, rfl⟩ := List.mem_map.mp ha
      obtain ⟨v, hv⟩ := hin b hb
      exact ⟨v, (hentry _ _ hv).2⟩
  refine ⟨hentry, fun key ↦ ⟨_, h.toBacked.view_eq key, fun value hv ↦ ?_⟩, fun lower upper ↦ ?_,
    fun lower upper count ↦ ?_, fun lower upper count ↦ ?_⟩
  · obtain ⟨e, he, rfl⟩ := Option.map_eq_some_iff.mp hv
    obtain ⟨v, hv⟩ := StoreState.locates_of_latest he
    exact ⟨v, (hentry _ _ hv).2⟩
  · rw [Table.range, (findRange_reads _ _).result]
    exact hread _ (rangeEntries_locates _ _ _)
  · rw [Table.rangeFirst, (findRangeFirst_reads _ _ _).result]
    exact hread _ (rangeFirstEntries_locates _ _ _ _ _)
  · rw [Table.rangeLast, (findRangeLast_reads _ _ _).result]
    exact hread _ (rangeLastEntries_locates _ _ _ _ _)

/-- One pair is inserted twice in front of the boundary and once behind it, and the table is opened
again. -/
private def rewritten : List Call :=
  [.commit 1, .insert [7] [1], .insert [7] [2, 2], .commit 1, .insert [7] [3], .commit 4, .insert [7] [4],
    .revert 1, .recover, .insert [8] [5]]

theorem entries_locate_survivors_rewritten :
    let t := (observed rewritten).1
    let notes := (observed rewritten).2
    (∀ (k : IndexKey) (e : IndexEntry), t.state.index[k]? = some e →
      e.offset + e.length ≤ t.state.dataLen ∧
        lastValue notes k = some (slice t.dataLog.content e.offset e.length)) ∧
    (∀ key, ∃ found, t.view key = .ok found ∧ ∀ value ∈ found, Noted notes (key, value)) ∧
    (∀ lower upper, ∃ found, t.range lower upper = .ok found ∧ ∀ a ∈ found, Noted notes a) ∧
    (∀ lower upper count, ∃ found, t.rangeFirst lower upper count = .ok found ∧
      ∀ a ∈ found, Noted notes a) ∧
    ∀ lower upper count, ∃ found, t.rangeLast lower upper count = .ok found ∧
      ∀ a ∈ found, Noted notes a :=
  entries_locate_survivors rewritten (by decide +kernel)

end Stainless.Kvstore
