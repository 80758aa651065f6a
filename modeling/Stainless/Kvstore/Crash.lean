import Stainless.Kvstore.TimeTravel

/-!
# Crashes

A crash leaves, of either file, some first part of the operations issued since its last sync.  Opening
the table again gives the state of the last commit or revert that returned, or that of the commit the
crash fell into.
-/

open Reasoning Stainless.Runtime

namespace Stainless.Kvstore

/-- The tables a crash can find: at rest, or inside an insertion or a commit, where one operation is
the last that was issued and perhaps not issued whole. -/
inductive CrashPoint (t : Table) : Option Call → Table → Prop
  | rest : CrashPoint t none t
  | within {c : Call} (hc : c.Writes) (n written : Nat) :
      CrashPoint t (some c) (t.call (.change n written) c.run).table

/-- The table that is opened on what a crash left. -/
def Table.reopened (data index : Bytes) : Outcome Unit :=
  Table.open (.ofBytes data) (.ofBytes index) .none

/-- A state of the table: its version, what `find` answers, and the values inserted by key and
version. -/
structure Snapshot where
  version : UInt32
  view : View
  values : IndexKey → Option Bytes

/-- The table is in that state, and every entry locates the inserted value. -/
structure Snapshot.Shows (s : Snapshot) (t : Table) : Prop where
  version : t.state.currentVersion = s.version
  view : ∀ key, t.view key = s.view key
  values : ∀ (k : IndexKey) (e : IndexEntry), t.state.index[k]? = some e →
    e.offset + e.length ≤ t.dataLog.content.length ∧
      s.values k = some (slice t.dataLog.content e.offset e.length)

/-- The state of a log. -/
def snapshotOf (data : Bytes) (log : List IndexRecord) : Snapshot :=
  ⟨(replay log).currentVersion, viewOf data log, lastValue (insertions data log)⟩

/-! ## Opening what is left -/

theorem snapshotOf_shows {t : Table} {log : List IndexRecord} {data : Bytes} {n : Nat}
    (hstate : t.state = replay log) (hdata : t.dataLog.content = data.take n)
    (hlog : ∀ r ∈ log, r.extent ≤ n) (hn : n ≤ data.length) : (snapshotOf data log).Shows t := by
  refine ⟨by rw [hstate]; rfl, fun key ↦ ?_, fun k e he ↦ ?_⟩
  · rw [Table.view_eq, hstate, hdata]
    exact congrFun (viewOf_take hlog hn) key
  · rw [hstate] at he
    obtain ⟨i, hi, -, rfl⟩ := exists_of_replay_index he
    have hle := hlog _ hi
    simp only [IndexRecord.extent] at hle
    rw [hdata]
    refine ⟨by rw [List.length_take]; dsimp only; omega, ?_⟩
    change lastValue (insertions data log) k = _
    rw [lastValue_insertions, he, slice_take _ _ _ _ hle]
    rfl

/-- Files that hold a part of a log, and at least its committed base with the data of that base. -/
structure Remains (base log : List IndexRecord) (data index : Bytes) : Prop where
  valid : ∀ r ∈ log, r.Valid
  fits : ∀ r ∈ log, r.extent ≤ maxFileLen
  front : base <+: log
  readable : encodeLog base <+: index
  part : index <+: encodeLog log
  length : index.length ≤ maxFileLen
  covered : ∀ r ∈ base, r.extent ≤ data.length

/-- Opening them recovers some log in between. -/
theorem Remains.open {base log : List IndexRecord} {data index : Bytes}
    (h : Remains base log data index) :
    ∃ recs, base <+: recs ∧ recs <+: log ∧ encodeLog recs <+: index ∧
      (Table.reopened data index).result = .ok () ∧
      (Table.reopened data index).table.state = replay (committed recs) ∧
      (Table.reopened data index).table.dataLog.content = resize data (replay recs).dataLen := by
  obtain ⟨recs, hbase, hlog, hread, hr⟩ := RawTable.recoverContent_prefix
    data.length _ h.valid h.part h.front h.readable h.covered
  have hsize : logSize (committed recs) ≤ maxFileLen := by
    have := ((encodeLog_isPrefix (committed_isPrefix recs)).trans hread).length_le
    rw [encodeLog_length] at this
    exact this.trans h.length
  obtain ⟨hresult, htable⟩ := open_ofLog (.ofBytes data) (.ofBytes index)
    hr (replay_dataLen_le fun r hr ↦ h.fits r (hlog.subset hr)) hsize
  refine ⟨recs, hbase, hlog, hread, hresult, ?_, ?_⟩
  · rw [Table.reopened, htable]
  · rw [Table.reopened, htable]
    exact RawTable.trim_content _ _

/-- Opening the files gives the state of a log, with the data that it refers to. -/
structure ReopensTo (data index content : Bytes) (log : List IndexRecord) : Prop where
  result : (Table.reopened data index).result = .ok ()
  state : (Table.reopened data index).table.state = replay log
  content : (Table.reopened data index).table.dataLog.content = content.take (replay log).dataLen

theorem ReopensTo.shows {data index content : Bytes} {log : List IndexRecord}
    (h : ReopensTo data index content log) (hlog : ∀ r ∈ log, r.extent ≤ (replay log).dataLen)
    (hn : (replay log).dataLen ≤ content.length) :
    (snapshotOf content log).Shows (Table.reopened data index).table :=
  snapshotOf_shows h.state h.content hlog hn

/-- What follows the base and holds no marker is dropped. -/
theorem Remains.reopens {base log : List IndexRecord} {data index content : Bytes}
    (h : Remains base log data index) (hbase : committed log = base)
    (hn : (replay base).dataLen ≤ content.length)
    (hdata : content.take (replay base).dataLen <+: data) : ReopensTo data index content base := by
  obtain ⟨recs, hfront, hlog, -, hresult, hstate, hcontent⟩ := h.open
  have hrecs : committed recs = base := by
    rw [← hbase] at hfront ⊢
    exact committed_eq_of_between hfront hlog
  have hdataLen : (replay recs).dataLen = (replay base).dataLen := by
    rw [← (replay_committed recs).2.2, hrecs]
  have hlen : (content.take (replay base).dataLen).length = (replay base).dataLen := by
    rw [List.length_take, Nat.min_eq_left hn]
  refine ⟨hresult, hrecs ▸ hstate, ?_⟩
  rw [hcontent, hdataLen]
  nth_rewrite 1 [← hlen]
  exact resize_prefix hdata

section

variable {log : List IndexRecord} {t : Table}

/-- The committed records lie in the committed data, and that in the file. -/
theorem Settled.committed_fits (h : Settled log t) :
    (∀ r ∈ committed log, r.extent ≤ (replay (committed log)).dataLen) ∧
      (replay (committed log)).dataLen ≤ t.dataLog.content.length := by
  rw [(replay_committed log).2.2]
  exact ⟨committed_extent h.nested, (replay_dataLen_le h.inside).trans h.dataLen⟩

theorem Settled.inside_max (h : Settled log t) : ∀ r ∈ log, r.extent ≤ maxFileLen :=
  fun r hr ↦ (h.inside r hr).trans (h.dataLen.trans h.dataFile)

/-- The data file is whole and the index file may hold one more marker. -/
theorem Settled.reopen_marked {version : UInt32} {index : Bytes} (h : Settled log t)
    (hr : Remains (committed log) (log ++ [t.newMarker version]) t.dataLog.content index) :
    ReopensTo t.dataLog.content index t.dataLog.content (committed log) ∨
      encodeLog (log ++ [t.newMarker version]) <+: index ∧
        ReopensTo t.dataLog.content index t.dataLog.content (log ++ [t.newMarker version]) := by
  obtain ⟨recs, hbase, hlog, hread, hresult, hstate, hcontent⟩ := hr.open
  rcases List.prefix_concat_iff.mp hlog with rfl | hlog
  · right
    rw [Table.newMarker, committed_commit] at hstate
    have hn : (replay (log ++ [t.newMarker version])).dataLen = t.dataLog.content.length := by
      rw [replay_concat, h.data]
      rfl
    refine ⟨hread, hresult, hstate, ?_⟩
    rw [hcontent, hn, resize_self, List.take_length]
  · left
    have hrecs : committed recs = committed log := committed_eq_of_between hbase hlog
    have hdataLen : (replay recs).dataLen = (replay (committed log)).dataLen := by
      rw [← (replay_committed recs).2.2, hrecs]
    refine ⟨hresult, hrecs ▸ hstate, ?_⟩
    rw [hcontent, hdataLen, resize_of_le h.committed_fits.2]

/-- The state of the marked log. -/
theorem Settled.marked_fits (h : Settled log t) (version : UInt32) :
    (∀ r ∈ log ++ [t.newMarker version], r.extent ≤ (replay (log ++ [t.newMarker version])).dataLen) ∧
      (replay (log ++ [t.newMarker version])).dataLen ≤ t.dataLog.content.length := by
  have hn : (replay (log ++ [t.newMarker version])).dataLen = t.state.dataLen := by
    rw [replay_concat]
    rfl
  rw [hn]
  refine ⟨fun r hr ↦ ?_, h.dataLen⟩
  rcases List.mem_append.mp hr with hr | hr
  · exact h.inside r hr
  · rw [List.mem_singleton.mp hr]
    exact le_rfl

/-! ## What a crash leaves -/

/-- What is durable of the data WAL stays, whatever is appended. -/
theorem Settled.data_image (h : Settled log t) {f : DurableFile} (hf : f.Grows)
    (hdurable : f.durable = t.dataLog.durable) {data : Bytes} (hd : f.Image data) :
    t.dataLog.content.take (replay (committed log)).dataLen <+: data ∧
      ∀ r ∈ committed log, r.extent ≤ data.length := by
  obtain ⟨hpre, -⟩ := hf data hd
  rw [hdurable] at hpre
  have hcovered := h.dataDurable
  rw [← (replay_committed log).2.2] at hcovered
  obtain ⟨rest, hrest⟩ := h.dataGrows.durable_prefix
  refine ⟨?_, fun r hr ↦ ?_⟩
  · rw [← hrest, List.take_append_of_le_length hcovered]
    exact (List.take_prefix _ _).trans hpre
  · exact (h.committed_fits.1 r hr).trans (hcovered.trans hpre.length_le)

/-- An index WAL that has only grown since the committed log became durable. -/
structure Tail (log whole : List IndexRecord) (f : DurableFile) : Prop where
  grows : f.Grows
  durable : encodeLog (committed log) <+: f.durable
  content : f.content <+: encodeLog whole
  length : f.content.length ≤ maxFileLen

theorem Settled.tail (h : Settled log t) (more : List IndexRecord) :
    Tail log (log ++ more) t.indexLog where
  grows := h.indexGrows
  durable := h.indexDurable
  content := by
    rw [h.index]
    exact encodeLog_isPrefix (List.prefix_append _ _)
  length := h.indexFile

/-- A record that is written at the end, whole or in part, and a cut at the end keep the shape. -/
theorem Tail.write {r : IndexRecord} {f : DurableFile} {part : Bytes} (h : Tail log (log ++ [r]) f)
    (hf : f.content = encodeLog log) (hpart : part <+: r.encode)
    (hfits : part.length ≤ maxFileLen - logSize log) :
    Tail log (log ++ [r]) (f.issue (.write (logSize log) part)) := by
  have hlen : f.content.length = logSize log := by rw [hf, encodeLog_length]
  have hmax := h.length
  have hcontent : (f.issue (.write (logSize log) part)).content = encodeLog log ++ part := by
    rw [DurableFile.content_issue, FileOp.apply, hf, ← encodeLog_length, overwrite_end]
  refine ⟨?_, h.durable, ?_, ?_⟩
  · rw [← hlen]
    exact h.grows.append part
  · rw [hcontent, encodeLog_append, encodeLog_cons, encodeLog_nil, List.append_nil]
    exact (List.prefix_append_right_inj _).mpr hpart
  · rw [hcontent, List.length_append, encodeLog_length]
    omega

theorem Tail.resize_self {whole : List IndexRecord} {f : DurableFile} {size : Nat}
    (h : Tail log whole f) (hsize : f.content.length = size) :
    Tail log whole (f.issue (.resize size)) := by
  subst hsize
  have hcontent : (f.issue (.resize f.content.length)).content = f.content := by
    rw [DurableFile.content_issue, FileOp.apply, Reasoning.resize_self]
  exact ⟨h.grows.resize_self, h.durable, by rw [hcontent]; exact h.content,
    by rw [hcontent]; exact h.length⟩

theorem Tail.sync {whole : List IndexRecord} {f : DurableFile} (h : Tail log whole f) :
    Tail log whole f.sync :=
  ⟨DurableFile.grows_sync f, h.durable.trans h.grows.durable_prefix, h.content, h.length⟩

/-- The files at a crash point that is not behind a written marker. -/
structure Unmarked (log more : List IndexRecord) (t t' : Table) : Prop where
  valid : ∀ r ∈ more, r.Valid ∧ r.extent ≤ maxFileLen
  committed : Kvstore.committed (log ++ more) = Kvstore.committed log
  index : Tail log (log ++ more) t'.indexLog
  dataGrows : t'.dataLog.Grows
  dataDurable : t'.dataLog.durable = t.dataLog.durable

theorem Settled.unmarked (h : Settled log t) : Unmarked log [] t t :=
  ⟨fun r hr ↦ absurd hr List.not_mem_nil, by rw [List.append_nil], h.tail [], h.dataGrows, rfl⟩

theorem Settled.insert_unmarked (h : Settled log t) {key value : Bytes} {r : Except TableError Unit}
    {t' : Table} (ho : InsertOutcome t key value r t') : ∃ more, Unmarked log more t t' := by
  have hdata (part : Bytes) : (t.dataLog.issue (.write t.state.dataLen part)).Grows := by
    rw [← h.data]
    exact h.dataGrows.append part
  have hindex {bytes part : Bytes}
      (hbytes : makeDataRecord t.state.currentVersion key value = .ok bytes)
      (hfits : t.state.dataLen + bytes.length ≤ maxFileLen) (hkey : 33 + key.length < 2 ^ 32)
      (hpart : part <+: (IndexRecord.insert (t.newRecord key value)).encode)
      (hend : part.length ≤ maxFileLen - t.state.indexLen) (state : StoreState) :
      Unmarked log [.insert (t.newRecord key value)] t
        ⟨t.dataLog.issue (.write t.state.dataLen bytes),
          t.indexLog.issue (.write t.state.indexLen part), state⟩ := by
    obtain ⟨hlen, -, -⟩ := makeDataRecord_ok hbytes
    refine ⟨fun r hr ↦ ?_, committed_insert _ _, ?_, hdata bytes, rfl⟩
    · rw [List.mem_singleton.mp hr]
      refine ⟨Backed.valid_newRecord hbytes hfits hkey, ?_⟩
      change t.state.dataLen + 21 + key.length + value.length ≤ maxFileLen
      omega
    · rw [h.indexLen] at hend ⊢
      exact (h.tail _).write h.index hpart hend
  cases ho with
  | refused => exact ⟨[], h.unmarked⟩
  | dataFailed part =>
      exact ⟨[], { h.unmarked with dataGrows := hdata part, dataDurable := rfl }⟩
  | indexFailed part hbytes hdata hkey hpart hfits =>
      exact ⟨_, hindex hbytes hdata hkey hpart hfits _⟩
  | done hbytes hdata hkey hfits =>
      refine ⟨_, hindex hbytes hdata hkey List.prefix_rfl ?_ _⟩
      rw [IndexRecord.encode_length]
      change 33 + key.length ≤ maxFileLen - t.state.indexLen
      omega

/-- The files at a crash point behind the sync of the data WAL in a commit. -/
structure Marked (log : List IndexRecord) (t : Table) (version : UInt32) (t' : Table) : Prop where
  current : t.state.currentVersion ≤ version
  index : Tail log (log ++ [t.newMarker version]) t'.indexLog
  data : t'.dataLog = t.committedData

theorem Settled.commit_cases (h : Settled log t) {version : UInt32} {r : Except TableError Bool}
    {fault : Fault} {t' : Table} (ho : CommitOutcome t version fault r t') :
    Unmarked log [] t t' ∨ Marked log t version t' := by
  have hcut : Tail log (log ++ [t.newMarker version]) t.cutIndex :=
    (h.tail _).resize_self (by rw [h.index, encodeLog_length, h.indexLen])
  have hmarking {part : Bytes} (hpart : part <+: (t.newMarker version).encode)
      (hfits : part.length ≤ maxFileLen - t.state.indexLen) :
      Tail log (log ++ [t.newMarker version]) (t.cutIndex.issue (.write t.state.indexLen part)) := by
    rw [h.indexLen] at hfits ⊢
    exact hcut.write h.toBacked.cutIndex_content hpart hfits
  have hmarked (hindex : t.state.indexLen + 21 ≤ maxFileLen) :
      Tail log (log ++ [t.newMarker version]) (t.markedIndex version) := by
    refine hmarking List.prefix_rfl ?_
    rw [IndexRecord.encode_length]
    change 21 ≤ _
    omega
  have hended (hindex : t.state.indexLen + 21 ≤ maxFileLen) :
      Tail log (log ++ [t.newMarker version])
        ((t.markedIndex version).issue (.resize (t.state.indexLen + 21))) :=
    (hmarked hindex).resize_self
      (by rw [h.toBacked.markedIndex_content, h.indexLen, Backed.marked_length])
  cases ho with
  | refused => exact .inl h.unmarked
  | dataFailed hf =>
      left
      rcases hf with rfl | rfl
      · exact h.unmarked
      · refine { h.unmarked with dataGrows := ?_, dataDurable := rfl }
        dsimp only
        rw [← h.data]
        exact h.dataGrows.resize_self
  | indexFailed hversion hf =>
      right
      rcases hf with rfl | rfl | ⟨part, hpart, hfits, rfl⟩
      · exact ⟨hversion, h.tail _, rfl⟩
      · exact ⟨hversion, hcut, rfl⟩
      · exact ⟨hversion, hmarking hpart hfits, rfl⟩
  | unsynced hversion hdata hindex hf =>
      right
      rcases hf with rfl | rfl
      · exact ⟨hversion, hmarked hindex, rfl⟩
      · exact ⟨hversion, hended hindex, rfl⟩
  | done hversion hdata hindex => exact .inr ⟨hversion, (hended hindex).sync, rfl⟩

/-- A crash in front of a marker leaves the committed state. -/
theorem Unmarked.reopen {more : List IndexRecord} {t' : Table} (hu : Unmarked log more t t')
    (h : Settled log t) {data index : Bytes} (hd : t'.dataLog.Image data)
    (hi : t'.indexLog.Image index) :
    ReopensTo data index t.dataLog.content (Kvstore.committed log) := by
  obtain ⟨hdata, hcovered⟩ := h.data_image hu.dataGrows hu.dataDurable hd
  obtain ⟨hdurable, hpart⟩ := hu.index.grows index hi
  have hr : Remains (Kvstore.committed log) (log ++ more) data index := by
    refine ⟨?_, ?_, ?_, hu.index.durable.trans hdurable, hpart.trans hu.index.content,
      hpart.length_le.trans hu.index.length, hcovered⟩
    · intro r hr
      exact (List.mem_append.mp hr).elim (h.valid r) fun hr ↦ (hu.valid r hr).1
    · intro r hr
      exact (List.mem_append.mp hr).elim (h.inside_max r) fun hr ↦ (hu.valid r hr).2
    · exact (committed_isPrefix log).trans (List.prefix_append _ _)
  exact hr.reopens hu.committed h.committed_fits.2 hdata

/-- A crash behind the sync of the data WAL leaves the committed state or the marked one. -/
theorem Marked.reopen {version : UInt32} {t' : Table} (hm : Marked log t version t')
    (h : Settled log t) {data index : Bytes} (hd : t'.dataLog.Image data)
    (hi : t'.indexLog.Image index) :
    ReopensTo data index t.dataLog.content (Kvstore.committed log) ∨
      t.state.indexLen + 21 ≤ maxFileLen ∧
        ReopensTo data index t.dataLog.content (log ++ [t.newMarker version]) := by
  have hdata : data = t.dataLog.content := by
    rw [hm.data] at hd
    rw [DurableFile.image_of_sync hd, ← h.committedData_content]
    rfl
  subst hdata
  obtain ⟨hdurable, hpart⟩ := hm.index.grows index hi
  have hlength := hpart.length_le.trans hm.index.length
  have hmarked := h.marked_fits version
  have hr : Remains (Kvstore.committed log) (log ++ [t.newMarker version]) t.dataLog.content index := by
    refine ⟨?_, ?_, ?_, hm.index.durable.trans hdurable, hpart.trans hm.index.content, hlength, ?_⟩
    · intro r hr
      rcases List.mem_append.mp hr with hr | hr
      · exact h.valid r hr
      · rw [List.mem_singleton.mp hr]
        have hmax : maxFileLen < 2 ^ 64 := by decide
        exact lt_of_le_of_lt (h.dataLen.trans h.dataFile) hmax
    · exact fun r hr ↦ (hmarked.1 r hr).trans (hmarked.2.trans h.dataFile)
    · exact (committed_isPrefix log).trans (List.prefix_append _ _)
    · exact fun r hr ↦ (h.committed_fits.1 r hr).trans h.committed_fits.2
  rcases h.reopen_marked hr with hbase | ⟨hread, hmarked⟩
  · exact .inl hbase
  · right
    have := hread.length_le.trans hlength
    rw [Backed.marked_length, ← h.indexLen] at this
    exact ⟨this, hmarked⟩

end

/-! ## Runs -/

/-- The state of the live table, with the insertions that survive in it. -/
def Table.snapshot (t : Table) (notes : List Insertion) : Snapshot :=
  ⟨t.state.currentVersion, t.view, lastValue notes⟩

/-- Notes the surviving insertions, and the state right after a commit or a revert that returns
true. -/
def lastCommit (g : List Insertion × Snapshot) (t : Table) (c : Call) :
    List Insertion × Snapshot :=
  let notes := survivors g.1 t c
  let committed := if (t.outcome c).result = .ok true then (t.step c).snapshot notes else g.2
  match c with
  | .commit _ => (notes, committed)
  | .revert _ => (notes, committed)
  | _ => (notes, g.2)

/-- The table, the surviving insertions and the last committed state after some calls. -/
def committedRun (calls : List Call) : Table × List Insertion × Snapshot :=
  run (watch Table.step lastCommit) (Table.created, [], Table.created.snapshot []) calls

/-- A call that meets no I/O error and discards no shared pair. -/
def PairStep (t : Table) (c : Call) : Prop := NoIoError t c ∧ t.PairCleanCall c

instance (t : Table) (c : Call) : Decidable (PairStep t c) := inferInstanceAs (Decidable (_ ∧ _))

/-- The notes are those of the log, and the committed log gives the last committed state. -/
structure Durable (g : List Insertion × Snapshot) (log : List IndexRecord) (t : Table) : Prop
    extends Settled log t where
  indexEq : t.state.index = (replay log).index
  notes : g.1 = insertions t.dataLog.content log
  last : g.2 = snapshotOf t.dataLog.content (committed log)

section

variable {g : List Insertion × Snapshot} {log log' : List IndexRecord} {t : Table} {c : Call}

theorem Settled.snapshot_eq (h : Settled log t) (hi : t.state.index = (replay log).index) :
    t.snapshot (insertions t.dataLog.content log) = snapshotOf t.dataLog.content log := by
  have hview : t.view = viewOf t.dataLog.content log := by
    funext key
    rw [Table.view_eq, viewOf]
    exact StoreState.lookup_congr hi h.version _ key
  rw [Table.snapshot, snapshotOf, h.version, hview]

theorem snapshotOf_take (data : Bytes) {n : Nat} (hlog : ∀ r ∈ log, r.extent ≤ n)
    (hn : n ≤ data.length) : snapshotOf (data.take n) log = snapshotOf data log := by
  rw [snapshotOf, snapshotOf, viewOf_take hlog hn, insertions, insertionsFrom_take hlog]
  rfl

/-- A call that is neither a commit nor a revert, or does not return true, keeps the committed
state. -/
theorem Durable.last_eq (h : Durable g log t)
    (a : Advance log t c (t.outcome c).result log' (t.step c))
    (hc : (t.outcome c).result = .ok true → (∃ key value, c = .insert key value) ∨ c = .recover) :
    snapshotOf (t.step c).dataLog.content (committed log') = g.2 := by
  rw [h.last]
  obtain ⟨hextent, hle⟩ := h.committed_fits
  generalize (t.outcome c).result = r at *
  generalize t.step c = t' at *
  cases a with
  | idle => rfl
  | @inserted key value bytes =>
      dsimp only
      rw [committed_insert, h.inserted_content]
      have htake := snapshotOf_take (t.dataLog.content ++ bytes)
        (fun r hr ↦ (hextent r hr).trans hle) (by simp)
      rw [List.take_left' rfl] at htake
      exact htake.symm
  | committed => rcases hc rfl with ⟨_, _, h⟩ | h <;> cases h
  | reverted => rcases hc rfl with ⟨_, _, h⟩ | h <;> cases h
  | recovered =>
      dsimp only
      rw [committed_committed, h.toBacked.trim_data_content, ← (replay_committed log).2.2]
      exact snapshotOf_take _ hextent hle

theorem Durable.step (h : Durable g log t) (hc : t.PairCleanCall c)
    (a : Advance log t c (t.outcome c).result log' (t.step c)) :
    Durable (lastCommit g t c) log' (t.step c) := by
  have hs := a.settled h.toSettled
  have hi := a.index_eq h.toSettled hc h.indexEq
  have hnotes : survivors g.1 t c = insertions (t.step c).dataLog.content log' := by
    rw [h.notes]
    exact a.survivors h.toSettled
  have hlast : (t.outcome c).result = .ok true → (∀ key value, c ≠ .insert key value) →
      (t.step c).snapshot (survivors g.1 t c) =
        snapshotOf (t.step c).dataLog.content (committed log') := by
    intro hr hc
    rw [hr] at a
    rw [(a.at_marker hc).1, hnotes]
    exact hs.snapshot_eq hi
  have hkept := h.last_eq a
  cases c with
  | insert key value =>
      exact ⟨hs, hi, hnotes, (hkept fun _ ↦ .inl ⟨_, _, rfl⟩).symm⟩
  | recover => exact ⟨hs, hi, hnotes, (hkept fun _ ↦ .inr rfl).symm⟩
  | commit version =>
      refine ⟨hs, hi, hnotes, ?_⟩
      dsimp only [lastCommit]
      split
      · rename_i hr
        exact hlast hr fun _ _ h ↦ by cases h
      · rename_i hr
        exact (hkept fun h ↦ absurd h hr).symm
  | revert version =>
      refine ⟨hs, hi, hnotes, ?_⟩
      dsimp only [lastCommit]
      split
      · rename_i hr
        exact hlast hr fun _ _ h ↦ by cases h
      · rename_i hr
        exact (hkept fun h ↦ absurd h hr).symm

theorem exists_durable {calls : List Call} (h : Meets Table.step PairStep Table.created calls) :
    ∃ log, Durable (committedRun calls).2 log (run Table.step Table.created calls) := by
  rw [← run_watch_fst lastCommit Table.created ([], Table.created.snapshot []) calls]
  refine (h.watch lastCommit ([], Table.created.snapshot [])).invariant
    (I := fun p ↦ ∃ log, Durable p.2 log p.1)
    ⟨[], settled_created, agrees_created.indexEq, rfl, ?_⟩ ?_
  · exact settled_created.snapshot_eq agrees_created.indexEq
  · rintro p c ⟨log, hp⟩ hc
    obtain ⟨log', ha⟩ := hp.toSettled.advance c hc.1
    exact ⟨log', hp.step hc.2 ha⟩

/-- A commit that fits records the state of the marked log. -/
theorem Durable.committing (h : Durable g log t) {version : UInt32}
    (hversion : t.state.currentVersion ≤ version) (hindex : t.state.indexLen + 21 ≤ maxFileLen) :
    (t.outcome (.commit version)).result = .ok true ∧
      (lastCommit g t (.commit version)).2 =
        snapshotOf t.dataLog.content (log ++ [t.newMarker version]) := by
  have hresult : (t.outcome (.commit version)).result = .ok true :=
    commit_succeeds t hversion (h.dataLen.trans h.dataFile) hindex
  refine ⟨hresult, ?_⟩
  obtain ⟨log', ha⟩ := h.toSettled.advance (.commit version) (by rw [NoIoError, hresult]; simp)
  have hlast := (h.step (c := .commit version) trivial ha).last
  rw [hlast]
  rw [hresult] at ha
  generalize t.step (.commit version) = t' at *
  cases ha with
  | idle _ hr => exact absurd rfl hr
  | committed =>
      dsimp only
      rw [h.committedData_content, Table.newMarker, committed_commit]

end

/-- Wherever a crash falls outside a revert, opening the table again shows the state of the last commit
or revert that returned, or that of the commit it fell into. -/
theorem crash_safe (calls : List Call) (c : Option Call) (crashed : Table) (data index : Bytes)
    (hrun : Meets Table.step PairStep Table.created calls)
    (hcrash : CrashPoint (run Table.step Table.created calls) c crashed)
    (hdata : crashed.dataLog.Image data) (hindex : crashed.indexLog.Image index) :
    let t := run Table.step Table.created calls
    let noted := (committedRun calls).2
    (Table.reopened data index).result = .ok () ∧
      (noted.2.Shows (Table.reopened data index).table ∨
        ∃ version, c = some (.commit version) ∧ (t.outcome (.commit version)).result = .ok true ∧
          (lastCommit noted t (.commit version)).2.Shows (Table.reopened data index).table) := by
  obtain ⟨log, h⟩ := exists_durable hrun
  generalize run Table.step Table.created calls = t at *
  generalize (committedRun calls).2 = g at *
  obtain ⟨hextent, hle⟩ := h.committed_fits
  have hshows (hr : ReopensTo data index t.dataLog.content (committed log)) :
      g.2.Shows (Table.reopened data index).table := by
    rw [h.last]
    exact hr.shows hextent hle
  have hbase {more : List IndexRecord} (hu : Unmarked log more t crashed) :
      (Table.reopened data index).result = .ok () ∧
        g.2.Shows (Table.reopened data index).table :=
    have hr := hu.reopen h.toSettled hdata hindex
    ⟨hr.result, hshows hr⟩
  cases hcrash with
  | rest => exact (hbase h.toSettled.unmarked).imp_right .inl
  | @within c hc n written =>
      cases c with
      | insert key value =>
          obtain ⟨r, ho, -⟩ := insert_call t (.change n written) key value
          obtain ⟨more, hu⟩ := h.toSettled.insert_unmarked ho
          exact (hbase hu).imp_right .inl
      | commit version =>
          have ho : CommitOutcome t version _ _ _ :=
            (commit_outcome ⟨t, .change n written⟩ version).call
          rcases h.toSettled.commit_cases ho with hu | hm
          · exact (hbase hu).imp_right .inl
          · rcases hm.reopen h.toSettled hdata hindex with hr | ⟨hfits, hr⟩
            · exact ⟨hr.result, .inl (hshows hr)⟩
            · obtain ⟨htrue, hlast⟩ := h.committing hm.current hfits
              obtain ⟨hextent, hle⟩ := h.toSettled.marked_fits version
              exact ⟨hr.result, .inr ⟨version, rfl, htrue, by rw [hlast]; exact hr.shows hextent hle⟩⟩
      | revert version => exact hc.elim
      | recover => exact hc.elim

/-- The crash falls into the marker of the second commit. -/
private def torn : Table :=
  ((run Table.step Table.created [.insert [7] [1], .commit 1, .insert [7] [2]]).call (.change 3 5)
    (Call.run (.commit 2))).table

theorem crash_safe_torn :
    let t := run Table.step Table.created [.insert [7] [1], .commit 1, .insert [7] [2]]
    let noted := (committedRun [.insert [7] [1], .commit 1, .insert [7] [2]]).2
    let reopened := Table.reopened torn.dataLog.content torn.indexLog.content
    reopened.result = .ok () ∧
      (noted.2.Shows reopened.table ∨
        ∃ version, some (Call.commit 2) = some (.commit version) ∧
          (t.outcome (.commit version)).result = .ok true ∧
          (lastCommit noted t (.commit version)).2.Shows reopened.table) :=
  crash_safe [.insert [7] [1], .commit 1, .insert [7] [2]] (some (.commit 2)) torn _ _
    (by decide +kernel) (.within (by decide) 3 5) (DurableFile.image_content _)
    (DurableFile.image_content _)

/-- One pair on both sides of the boundary: the revert drops it from the map in memory, and the files
that it leaves show it. -/
theorem crash_safe_fails :
    ¬∀ calls : List Call, .recover ∉ calls → Meets Table.step NoIoError Table.created calls →
      ∀ data index : Bytes, (run Table.step Table.created calls).dataLog.Image data →
        (run Table.step Table.created calls).indexLog.Image index →
        (committedRun calls).2.2.Shows (Table.reopened data index).table := by
  intro h
  have hshows := h [.commit 1, .insert [7] [1], .commit 1, .insert [7] [2], .revert 1] (by decide)
    (by decide +kernel) _ _ (DurableFile.image_content _) (DurableFile.image_content _)
  exact absurd (hshows.view [7]) (by decide +kernel)

end Stainless.Kvstore
