import Stainless.Kvstore.Ensures
import Stainless.Kvstore.Framing

/-!
# Recovery

What `recover` makes of two files: it replays the records that lie whole in the index WAL and inside
the data WAL, and takes back those behind the last marker.
-/

open Reasoning Stainless.Runtime

namespace Stainless.Kvstore

namespace RawTable

/-! ## The loop as a function of the index WAL -/

def dropCorrupt {α : Type} : Except TableError (Option α) → Except TableError (Option α)
  | .error (.indexCorrupt _) => .ok none
  | result => result

def recoverContent (overflowChecks : Bool) (dataFileLen indexFileLen : Nat) (content : Bytes) :
    Nat → Recovery → Except TableError Recovery
  | 0, r => .ok r
  | budget + 1, r =>
      if r.offset < indexFileLen then do
        let next ← dropCorrupt do
          let record ← recordAt content r.offset indexFileLen
          replayRecord overflowChecks dataFileLen r record
        match next with
        | some next => recoverContent overflowChecks dataFileLen indexFileLen content budget next
        | none => return r
      else return r

theorem breakOnCorrupt_reads {α : Type} {m : TableM (Option α)}
    {f : Table → Except TableError (Option α)} (hm : ReadsAs m f) :
    ReadsAs (breakOnCorrupt m) fun t ↦ dropCorrupt (f t) := by
  intro h
  obtain ⟨h', ha, hr | ⟨hf, hr⟩⟩ := hm h
  · refine ⟨h', ha, .inl ?_⟩
    dsimp only
    rw [breakOnCorrupt, hr]
    cases f h.toTable with
    | ok a => rfl
    | error e => cases e <;> rfl
  · exact ⟨h', ha, .inr ⟨hf, by rw [breakOnCorrupt, hr]⟩⟩

theorem recoverLoop_reads (overflowChecks : Bool) (dataFileLen indexFileLen budget : Nat)
    (r : Recovery) :
    ReadsAs (recoverLoop overflowChecks dataFileLen indexFileLen budget r) fun t ↦
      recoverContent overflowChecks dataFileLen indexFileLen t.indexLog.content budget r := by
  induction budget generalizing r with
  | zero => exact .pure r
  | succ budget ih =>
      simp only [recoverLoop, recoverContent]
      split
      · refine ReadsAs.bind (breakOnCorrupt_reads
          (.bind (readIndexRecordAt_reads _ _) fun record ↦ .liftExcept _)) fun next ↦ ?_
        cases next with
        | none => exact .pure r
        | some next => exact ih next
      · exact .pure r

/-! ## The loop on an encoded log -/

/-- The replay of one record, with the undo information of an insertion. -/
def Recovery.add (r : Recovery) (record : IndexRecord) : Recovery :=
  match record with
  | .insert i => { r with
      pending := r.pending ++ [⟨i.key, i.version, r.working[(i.key, i.version)]?⟩]
      working := r.working.insert (i.key, i.version) ⟨i.offset, i.length⟩
      offset := r.offset + record.size }
  | .commit m => { r with
      pending := []
      recoveredVersionIndex := r.recoveredVersionIndex.insert m.version r.offset
      committedVersion := m.version
      committedDataLen := m.dataLen
      committedIndexLen := r.offset + record.size
      offset := r.offset + record.size }

theorem replayRecord_encode (overflowChecks : Bool) (dataFileLen : Nat) (r : Recovery) {record : IndexRecord}
    (hv : record.Valid) :
    replayRecord overflowChecks dataFileLen r record.encode =
      .ok (if record.extent ≤ dataFileLen then some (r.add record) else none) := by
  have hlen := record.encode_length
  by_cases hfits : record.extent ≤ dataFileLen
  · rw [if_pos hfits]
    cases record with
    | insert i =>
        simp only [IndexRecord.extent] at hfits
        simp only [replayRecord, indexRecordKind_insert, InsertRecord.readChecked_encode _ hv, hlen, bind,
          Except.bind]
        rw [if_neg (by omega)]
        rfl
    | commit m =>
        simp only [IndexRecord.extent] at hfits
        simp only [replayRecord, indexRecordKind_commit, CommitRecord.read_encode m hv, hlen, bind,
          Except.bind]
        rw [if_neg (by omega)]
        rfl
  · rw [if_neg hfits]
    cases record with
    | insert i =>
        simp only [IndexRecord.extent] at hfits
        simp only [replayRecord, indexRecordKind_insert, InsertRecord.readChecked_encode _ hv, bind,
          Except.bind]
        rw [if_pos (by omega)]
        rfl
    | commit m =>
        simp only [IndexRecord.extent] at hfits
        simp only [replayRecord, indexRecordKind_commit, CommitRecord.read_encode m hv, bind,
          Except.bind]
        rw [if_pos (by omega)]
        rfl

/-- The recovery variables after the records of a log. -/
def Recovery.ofLog (log : List IndexRecord) : Recovery := log.foldl Recovery.add .start

@[simp] theorem Recovery.ofLog_concat (log : List IndexRecord) (r : IndexRecord) :
    Recovery.ofLog (log ++ [r]) = (Recovery.ofLog log).add r := by
  simp [ofLog]

/-- The state that `recover` installs. -/
def Recovery.state (r : Recovery) : StoreState where
  index := r.pending.foldr undoPending r.working
  versionIndex := r.recoveredVersionIndex
  currentVersion := r.committedVersion
  dataLen := r.committedDataLen
  indexLen := r.committedIndexLen

/-- Taking back an insertion restores the map. -/
theorem undoPending_insert (working : Index) (i : InsertRecord) (e : IndexEntry) :
    undoPending ⟨i.key, i.version, working[(i.key, i.version)]?⟩
      (working.insert (i.key, i.version) e) = working := by
  apply Std.ExtTreeMap.ext_getElem?
  intro k
  cases h : working[(i.key, i.version)]? with
  | none =>
      rw [undoPending, OrderedMap.getElem?_erase, OrderedMap.getElem?_insert]
      split
      · rename_i hk
        rw [← hk, h]
      · rfl
  | some previous =>
      rw [undoPending, OrderedMap.getElem?_insert, OrderedMap.getElem?_insert]
      split
      · rename_i hk
        rw [← hk, h]
      · rfl

/-- After every record the loop holds the replayed log and the means to undo its uncommitted part. -/
theorem Recovery.ofLog_fields (log : List IndexRecord) :
    (Recovery.ofLog log).offset = logSize log ∧
      (Recovery.ofLog log).working = (replay log).index ∧
      (Recovery.ofLog log).state = replay (committed log) := by
  induction log using List.reverseRecOn with
  | nil => exact ⟨rfl, rfl, rfl⟩
  | append_singleton log r ih =>
      obtain ⟨hoffset, hworking, hstate⟩ := ih
      cases r with
      | insert i =>
          refine ⟨by simp [Recovery.add, hoffset], by simp [Recovery.add, replayStep, hworking], ?_⟩
          rw [committed_insert, ← hstate]
          simp only [ofLog_concat, Recovery.add, Recovery.state, List.foldr_append, List.foldr_cons,
            List.foldr_nil, undoPending_insert]
      | commit m =>
          have hversions := (replay_committed log).1
          rw [← hstate] at hversions
          refine ⟨by simp [Recovery.add, hoffset], by simp [Recovery.add, replayStep, hworking], ?_⟩
          simp only [ofLog_concat, Recovery.add, Recovery.state, committed_commit, replay_concat,
            replayStep, List.foldr_nil, hworking, hoffset, replay_indexLen] at hversions ⊢
          rw [hversions]

theorem Recovery.ofLog_offset (log : List IndexRecord) :
    (Recovery.ofLog log).offset = logSize log := (ofLog_fields log).1

theorem Recovery.ofLog_state (log : List IndexRecord) :
    (Recovery.ofLog log).state = replay (committed log) := (ofLog_fields log).2.2

/-- One more whole record that lies inside the data WAL. -/
theorem recoverContent_step {overflowChecks : Bool} {dataFileLen budget : Nat} {content : Bytes} {pre : List IndexRecord}
    {r : IndexRecord} (hv : r.Valid) (hp : encodeLog (pre ++ [r]) <+: content) :
    recoverContent overflowChecks dataFileLen content.length content (budget + 1) (.ofLog pre) =
      if r.extent ≤ dataFileLen
      then recoverContent overflowChecks dataFileLen content.length content budget (.ofLog (pre ++ [r]))
      else .ok (.ofLog pre) := by
  have hlen := hp.length_le
  have hpos := r.size_pos
  rw [encodeLog_length] at hlen
  have hrecord := recordAt_encode hv hp hlen
  simp only [logSize_append, logSize_cons, logSize_nil, Nat.add_zero] at hlen
  rw [recoverContent, Recovery.ofLog_offset, if_pos (by omega)]
  simp only [hrecord, replayRecord_encode _ _ _ hv, bind, Except.bind, Recovery.ofLog_concat]
  by_cases hfits : r.extent ≤ dataFileLen
  · simp only [if_pos hfits, dropCorrupt]
  · simp only [if_neg hfits, dropCorrupt]
    rfl

theorem recoverContent_whole (overflowChecks : Bool) {dataFileLen : Nat} (budget : Nat) {content : Bytes}
    (pre : List IndexRecord) {base : List IndexRecord} (hv : ∀ r ∈ base, r.Valid)
    (hf : ∀ r ∈ base, r.extent ≤ dataFileLen) (hp : encodeLog (pre ++ base) <+: content) :
    recoverContent overflowChecks dataFileLen content.length content (base.length + budget) (.ofLog pre) =
      recoverContent overflowChecks dataFileLen content.length content budget (.ofLog (pre ++ base)) := by
  induction base generalizing pre with
  | nil => simp
  | cons r base ih =>
      rw [List.append_cons] at hp ⊢
      have hr := (encodeLog_isPrefix (List.prefix_append (pre ++ [r]) base)).trans hp
      rw [List.length_cons, Nat.add_right_comm,
        recoverContent_step (hv r List.mem_cons_self) hr, if_pos (hf r List.mem_cons_self)]
      exact ih _ (fun s hs ↦ hv s (List.mem_cons_of_mem _ hs))
        (fun s hs ↦ hf s (List.mem_cons_of_mem _ hs)) hp

/-- From a whole record on, the loop stops at the first record that is cut or does not fit. -/
theorem recoverContent_resume {overflowChecks : Bool} (dataFileLen budget : Nat) {content : Bytes}
    {pre todo : List IndexRecord} (hv : ∀ r ∈ todo, r.Valid) (hp : encodeLog pre <+: content)
    (hc : content <+: encodeLog (pre ++ todo)) :
    ∃ recs, pre <+: recs ∧ recs <+: pre ++ todo ∧ encodeLog recs <+: content ∧
      recoverContent overflowChecks dataFileLen content.length content budget (.ofLog pre) = .ok (.ofLog recs) := by
  induction todo generalizing pre budget with
  | nil =>
      have hlen := hc.length_le
      rw [List.append_nil, encodeLog_length] at hlen
      refine ⟨pre, List.prefix_rfl, List.prefix_append _ _, hp, ?_⟩
      cases budget with
      | zero => rfl
      | succ budget =>
          rw [recoverContent, Recovery.ofLog_offset, if_neg (by omega)]
          rfl
  | cons r todo ih =>
      have hvr := hv r List.mem_cons_self
      have hstop : ∃ recs, pre <+: recs ∧ recs <+: pre ++ r :: todo ∧ encodeLog recs <+: content ∧
          (.ok (.ofLog pre) : Except TableError Recovery) = .ok (.ofLog recs) :=
        ⟨pre, List.prefix_rfl, List.prefix_append _ _, hp, rfl⟩
      cases budget with
      | zero => exact hstop
      | succ budget =>
          by_cases hwhole : encodeLog (pre ++ [r]) <+: content
          · rw [recoverContent_step hvr hwhole]
            split
            · rw [List.append_cons] at hc ⊢
              obtain ⟨recs, h₁, h₂⟩ := ih budget (fun s hs ↦ hv s (List.mem_cons_of_mem _ hs))
                hwhole hc
              exact ⟨recs, (List.prefix_append pre [r]).trans h₁, h₂⟩
            · exact hstop
          · obtain ⟨part, rfl⟩ := hp
            rw [encodeLog_append, encodeLog_cons] at hc
            have hpart := (List.prefix_append_right_inj _).mp hc
            have hlt : part.length < r.size := by
              by_contra hge
              refine hwhole ?_
              rw [encodeLog_append, encodeLog_cons, encodeLog_nil, List.append_nil]
              refine (List.prefix_append_right_inj _).mpr
                (List.prefix_of_prefix_length_le (List.prefix_append _ _) hpart ?_)
              rw [r.encode_length]
              omega
            have hcut : part <+: r.encode := List.prefix_of_prefix_length_le hpart
              (List.prefix_append _ _) (by rw [r.encode_length]; omega)
            obtain ⟨message, hread⟩ := recordAt_truncated pre hvr hcut hlt
            rw [recoverContent, Recovery.ofLog_offset]
            split
            · simp only [hread, dropCorrupt, bind, Except.bind]
              exact hstop
            · exact hstop

/-- Recovery of a first part of an encoded log keeps every whole record that is backed by the data
WAL up to the first gap. -/
theorem recoverContent_prefix {overflowChecks : Bool} (dataFileLen : Nat) (content : Bytes) {log base : List IndexRecord}
    (hv : ∀ r ∈ log, r.Valid) (hc : content <+: encodeLog log) (hb : base <+: log)
    (hbase : encodeLog base <+: content) (hf : ∀ r ∈ base, r.extent ≤ dataFileLen) :
    ∃ recs, base <+: recs ∧ recs <+: log ∧ encodeLog recs <+: content ∧
      recoverContent overflowChecks dataFileLen content.length content content.length .start =
        .ok (.ofLog recs) := by
  obtain ⟨todo, rfl⟩ := hb
  have hlen := (length_le_logSize base).trans ((encodeLog_length base).symm.le.trans hbase.length_le)
  obtain ⟨budget, hbudget⟩ := Nat.exists_eq_add_of_le hlen
  have hwhole := recoverContent_whole overflowChecks budget []
    (fun r hr ↦ hv r (List.mem_append_left _ hr)) hf hbase
  rw [← hbudget, List.nil_append] at hwhole
  obtain ⟨recs, h₁, h₂, h₃, h₄⟩ := recoverContent_resume dataFileLen
    budget (fun r hr ↦ hv r (List.mem_append_right _ hr)) hbase hc
  exact ⟨recs, h₁, h₂, h₃, hwhole.trans h₄⟩

/-! ## The call -/

/-- A file that is cut at `size` and synced, unless it ends there already. -/
def trim (f : DurableFile) (size : Nat) : DurableFile :=
  if f.content.length ≠ size then (f.issue (.resize size)).sync else f

theorem trim_of_ne {f : DurableFile} {size : Nat} (h : f.content.length ≠ size) :
    trim f size = (f.issue (.resize size)).sync := if_pos h

theorem trim_of_eq {f : DurableFile} {size : Nat} (h : f.content.length = size) :
    trim f size = f := if_neg (by simp [h])

@[simp] theorem trim_content (f : DurableFile) (size : Nat) :
    (trim f size).content = resize f.content size := by
  by_cases h : f.content.length = size
  · rw [trim_of_eq h, ← h, resize_self]
  · rw [trim_of_ne h, DurableFile.content_sync, DurableFile.content_issue, FileOp.apply]

/-- `recover` cuts both files at the lengths of the last marker and installs the replayed state. -/
theorem recover_ensures {overflowChecks : Bool} (t : Table) {r : Recovery}
    (hr : recoverContent overflowChecks t.dataLog.content.length t.indexLog.content.length t.indexLog.content
      t.indexLog.content.length .start = .ok r)
    (hdata : r.committedDataLen ≤ maxFileLen) (hindex : r.committedIndexLen ≤ maxFileLen) :
    Ensures ⟨t, .none⟩ (recoverChecked overflowChecks) fun result h ↦ result = .ok () ∧ h.toTable =
      ⟨trim t.dataLog r.committedDataLen, trim t.indexLog r.committedIndexLen, r.state⟩ := by
  unfold recoverChecked
  refine .bind (.reads_none (fileLen_reads _) (.bind (.reads_none (fileLen_reads _)
    (.bind (.reads_none (recoverLoop_reads _ _ _ _ _) ?_)))))
  have hr' : recoverContent overflowChecks (t.log .data).content.length (t.log .index).content.length
    t.indexLog.content (t.log .index).content.length .start = .ok r := hr
  simp only [hr']
  refine .ite (fun hi ↦ ?_) fun hi ↦ ?_
  · rw [trim_of_ne (f := t.indexLog) hi]
    refine .bind (.setLen_none hindex (.bind (.syncData_none (.ite (fun hd ↦ ?_) fun hd ↦ ?_))))
    · rw [trim_of_ne (f := t.dataLog) hd]
      exact .bind (.setLen_none hdata (.bind (.syncData_none (.modifyState ⟨rfl, rfl⟩))))
    · rw [trim_of_eq (f := t.dataLog) (not_not.mp hd)]
      exact .modifyState ⟨rfl, rfl⟩
  · rw [trim_of_eq (f := t.indexLog) (not_not.mp hi)]
    refine .ite (fun hd ↦ ?_) fun hd ↦ ?_
    · rw [trim_of_ne (f := t.dataLog) hd]
      exact .bind (.setLen_none hdata (.bind (.syncData_none (.modifyState ⟨rfl, rfl⟩))))
    · rw [trim_of_eq (f := t.dataLog) (not_not.mp hd)]
      exact .modifyState ⟨rfl, rfl⟩

end RawTable

/-- Recovery of two files of which the first records of a log are readable. -/
theorem recover_ofLog {overflowChecks : Bool} (t : Table) {recs : List IndexRecord}
    (hr : RawTable.recoverContent overflowChecks t.dataLog.content.length t.indexLog.content.length
      t.indexLog.content t.indexLog.content.length .start = .ok (.ofLog recs))
    (hdata : (replay recs).dataLen ≤ maxFileLen) (hindex : logSize (committed recs) ≤ maxFileLen) :
    Ensures ⟨t, .none⟩ (RawTable.recoverChecked overflowChecks) fun result h ↦ result = .ok () ∧ h.toTable =
      ⟨RawTable.trim t.dataLog (replay recs).dataLen,
        RawTable.trim t.indexLog (logSize (committed recs)), replay (committed recs)⟩ := by
  have hstate := RawTable.Recovery.ofLog_state recs
  have hdataLen : (RawTable.Recovery.ofLog recs).committedDataLen = (replay recs).dataLen := by
    rw [← (replay_committed recs).2.2, ← hstate]
    rfl
  have hindexLen : (RawTable.Recovery.ofLog recs).committedIndexLen = logSize (committed recs) := by
    rw [← replay_indexLen, ← hstate]
    rfl
  have hrun := RawTable.recover_ensures t hr (by rwa [hdataLen]) (by rwa [hindexLen])
  rwa [hdataLen, hindexLen, hstate] at hrun

theorem open_ofLog (dataLog indexLog : DurableFile) {recs : List IndexRecord}
    (hr : RawTable.recoverContent false dataLog.content.length indexLog.content.length indexLog.content
      indexLog.content.length .start = .ok (.ofLog recs))
    (hdata : (replay recs).dataLen ≤ maxFileLen) (hindex : logSize (committed recs) ≤ maxFileLen) :
    (Table.open dataLog indexLog .none).result = .ok () ∧
      (Table.open dataLog indexLog .none).table =
        ⟨RawTable.trim dataLog (replay recs).dataLen,
          RawTable.trim indexLog (logSize (committed recs)), replay (committed recs)⟩ :=
  Ensures.call (Q := fun r t ↦ r = .ok () ∧ t = _)
    (recover_ofLog ⟨dataLog, indexLog, initialState⟩ hr hdata hindex)

end Stainless.Kvstore
