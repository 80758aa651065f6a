import Stainless.Kvstore.Rewind
import Stainless.Reasoning.Runs

/-!
# Runs of calls

A run is a list of calls on a table that starts with two empty files.  One step without an I/O error
either changes nothing or moves the log, and keeps the files exactly as long as they are tracked.
-/

open Reasoning Stainless.Runtime

namespace Stainless.Kvstore

/-- The calls that change a table; `recover` stands for closing it and opening it again. -/
inductive Call where
  | insert (key value : Bytes)
  | commit (version : UInt32)
  | revert (version : UInt32)
  | recover
  deriving DecidableEq, Repr

/-- The calls `insert` and `recover` return nothing, which counts as `true` here. -/
def Call.run : Call → TableM Bool
  | .insert key value => do
      RawTable.insert key value
      return true
  | .commit version => RawTable.commit version
  | .revert version => RawTable.revert version
  | .recover => do
      RawTable.recover
      return true

/-- A table over two empty files. -/
def Table.created : Table := (Table.open (.ofBytes []) (.ofBytes []) .none).table

/-- The outcome of a call that meets no planned failure. -/
def Table.outcome (t : Table) (c : Call) : Outcome Bool := t.call .none c.run

def Table.step (t : Table) (c : Call) : Table := (t.outcome c).table

def NoIoError (t : Table) (c : Call) : Prop := (t.outcome c).result ≠ .error .io

/-! ## The log of a table at rest -/

/-- The files hold the log and the tracked data and nothing behind them, and what the last marker
covers is durable. -/
structure Settled (log : List IndexRecord) (t : Table) : Prop extends Backed log t where
  index : t.indexLog.content = encodeLog log
  data : t.dataLog.content.length = t.state.dataLen
  version : t.state.currentVersion = (replay log).currentVersion
  indexGrows : t.indexLog.Grows
  dataGrows : t.dataLog.Grows
  indexDurable : encodeLog (committed log) <+: t.indexLog.durable
  dataDurable : (replay log).dataLen ≤ t.dataLog.durable.length

/-- What one call does to the log and the table. -/
inductive Advance (log : List IndexRecord) (t : Table) :
    Call → Except TableError Bool → List IndexRecord → Table → Prop
  | idle (c : Call) {r : Except TableError Bool} (hr : r ≠ .ok true) : Advance log t c r log t
  | inserted {key value bytes : Bytes}
      (hbytes : makeDataRecord t.state.currentVersion key value = .ok bytes)
      (hdata : t.state.dataLen + bytes.length ≤ maxFileLen) (hkey : 33 + key.length < 2 ^ 32)
      (hindex : t.state.indexLen + (33 + key.length) ≤ maxFileLen) :
      Advance log t (.insert key value) (.ok true) (log ++ [.insert (t.newRecord key value)])
        { dataLog := t.dataLog.issue (.write t.state.dataLen bytes)
          indexLog := t.indexLog.issue
            (.write t.state.indexLen (IndexRecord.insert (t.newRecord key value)).encode)
          state := { t.state with
            dataLen := t.state.dataLen + bytes.length
            indexLen := t.state.indexLen + (33 + key.length)
            index := t.state.index.insert (key, t.state.currentVersion)
              ⟨t.state.dataLen + 21 + key.length, value.length⟩ } }
  | committed {version : UInt32} (hversion : t.state.currentVersion ≤ version)
      (hindex : t.state.indexLen + 21 ≤ maxFileLen) :
      Advance log t (.commit version) (.ok true) (log ++ [t.newMarker version])
        { dataLog := t.committedData
          indexLog := ((t.markedIndex version).issue (.resize (t.state.indexLen + 21))).sync
          state := { t.state with
            indexLen := t.state.indexLen + 21
            versionIndex := t.state.versionIndex.insert version t.state.indexLen
            currentVersion := version } }
  | reverted {version : UInt32} {kept rest : List IndexRecord} {dataLen : Nat}
      (hsplit : RevertSplit log t version dataLen kept rest)
      (hversion : version ≤ t.state.currentVersion) :
      Advance log t (.revert version) (.ok true) (t.rewound version kept dataLen)
        { dataLog := (t.dataLog.issue (.resize dataLen)).sync
          indexLog := (t.revertedIndex version (splitPlan kept rest dataLen)).sync
          state := t.revertedState version (splitPlan kept rest dataLen) }
  | recovered :
      Advance log t .recover (.ok true) (committed log)
        { dataLog := RawTable.trim t.dataLog (replay log).dataLen
          indexLog := RawTable.trim t.indexLog (logSize (Kvstore.committed log))
          state := replay (Kvstore.committed log) }

/-- The committed records lie inside the data that the last marker covers. -/
theorem committed_extent {log : List IndexRecord}
    (hn : log.Pairwise fun r s ↦ s.isInsert = false → r.extent ≤ s.extent) :
    ∀ r ∈ committed log, r.extent ≤ (replay log).dataLen := by
  induction log using List.reverseRecOn with
  | nil => exact fun r hr ↦ absurd hr List.not_mem_nil
  | append_singleton log r ih =>
      obtain ⟨hlog, -, hlast⟩ := List.pairwise_append.mp hn
      cases r with
      | insert i =>
          rw [committed_insert, replay_concat]
          exact ih hlog
      | commit m =>
          rw [committed_commit, replay_concat]
          intro r hr
          rcases List.mem_append.mp hr with hr | hr
          · exact hlast r hr _ (List.mem_singleton.mpr rfl) rfl
          · rw [List.mem_singleton.mp hr]
            exact le_rfl

/-- Recovery of an index WAL without leftovers reads the whole log. -/
theorem Backed.recoverContent_eq {log : List IndexRecord} {t : Table} (h : Backed log t)
    (hindex : t.indexLog.content = encodeLog log) :
    RawTable.recoverContent false t.dataLog.content.length t.indexLog.content.length t.indexLog.content
      t.indexLog.content.length .start = .ok (.ofLog log) := by
  obtain ⟨recs, hlog, hrecs, -, hr⟩ := RawTable.recoverContent_prefix
    t.dataLog.content.length t.indexLog.content h.valid
    (by rw [hindex]) List.prefix_rfl (by rw [hindex])
    fun r hr ↦ (h.inside r hr).trans h.dataLen
  rw [hr, hrecs.eq_of_length_le hlog.length_le]

theorem insert_call (t : Table) (fault : Fault) (key value : Bytes) :
    ∃ r, InsertOutcome t key value r (t.call fault (Call.run (.insert key value))).table ∧
      (t.call fault (Call.run (.insert key value))).result = r.map fun _ ↦ true := by
  refine Ensures.call (t := t) (f := fault) (m := Call.run (.insert key value))
    (Q := fun r t' ↦ ∃ r₀, InsertOutcome t key value r₀ t' ∧ r = r₀.map fun _ ↦ true)
    (.bind ((insert_outcome ⟨t, fault⟩ key value).mono fun r h' hr ↦ ?_))
  cases r with
  | ok a => exact .pure ⟨_, hr, rfl⟩
  | error e => exact ⟨_, hr, rfl⟩

private theorem logSize_committed_le {log : List IndexRecord} {t : Table} (h : Backed log t) :
    logSize (committed log) ≤ maxFileLen := by
  have hsize := (encodeLog_isPrefix (committed_isPrefix log)).length_le
  rw [encodeLog_length, encodeLog_length] at hsize
  exact hsize.trans (h.logSize_le.trans h.indexFile)

private theorem replay_dataLen_le_max {log : List IndexRecord} {t : Table} (h : Backed log t) :
    (replay log).dataLen ≤ maxFileLen :=
  (replay_dataLen_le h.inside).trans (h.dataLen.trans h.dataFile)

/-- Opening such files gives the state of the committed log. -/
theorem Backed.open_eq {log : List IndexRecord} {t : Table} (h : Backed log t)
    (hindex : t.indexLog.content = encodeLog log) :
    (Table.open t.dataLog t.indexLog .none).result = .ok () ∧
      (Table.open t.dataLog t.indexLog .none).table =
        ⟨RawTable.trim t.dataLog (replay log).dataLen,
          RawTable.trim t.indexLog (logSize (committed log)), replay (committed log)⟩ :=
  open_ofLog _ _ (h.recoverContent_eq hindex) (replay_dataLen_le_max h) (logSize_committed_le h)

theorem recover_call {log : List IndexRecord} {t : Table} (h : Backed log t)
    (hindex : t.indexLog.content = encodeLog log) :
    (t.outcome .recover).result = .ok true ∧ t.step .recover =
      ⟨RawTable.trim t.dataLog (replay log).dataLen,
        RawTable.trim t.indexLog (logSize (committed log)), replay (committed log)⟩ := by
  have hrun := recover_ofLog t (h.recoverContent_eq hindex) (replay_dataLen_le_max h)
    (logSize_committed_le h)
  refine Ensures.call (t := t) (f := .none) (m := Call.run .recover)
    (Q := fun r t' ↦ r = .ok true ∧ t' = _) (.bind (hrun.mono ?_))
  rintro r h' ⟨rfl, ht⟩
  exact .pure ⟨rfl, ht⟩

/-- A call without an I/O error changes nothing or advances the log. -/
theorem Settled.advance {log : List IndexRecord} {t : Table} (h : Settled log t) (c : Call)
    (hio : NoIoError t c) : ∃ log', Advance log t c (t.outcome c).result log' (t.step c) := by
  unfold NoIoError at hio
  cases c with
  | insert key value =>
      have ho : ∃ r, InsertOutcome t key value r (t.step (.insert key value)) ∧
        (t.outcome (.insert key value)).result = r.map fun _ ↦ true := insert_call t .none key value
      obtain ⟨r, ho, hr⟩ := ho
      rw [hr] at hio ⊢
      generalize t.step (.insert key value) = t' at ho ⊢
      cases ho with
      | refused e => exact ⟨log, .idle _ (by simp [Except.map])⟩
      | dataFailed => exact absurd rfl hio
      | indexFailed => exact absurd rfl hio
      | done hbytes hdata hkey hindex => exact ⟨_, .inserted hbytes hdata hkey hindex⟩
  | commit version =>
      have ho : CommitOutcome t version .none (t.outcome (.commit version)).result
        (t.step (.commit version)) := (commit_outcome ⟨t, .none⟩ version).call
      generalize t.step (.commit version) = t' at ho ⊢
      generalize (t.outcome (.commit version)).result = r at ho hio ⊢
      cases ho with
      | refused => exact ⟨log, .idle _ (by simp)⟩
      | dataFailed => exact absurd rfl hio
      | indexFailed => exact absurd rfl hio
      | unsynced => exact absurd rfl hio
      | done hversion hdata hindex => exact ⟨_, .committed hversion hindex⟩
  | revert version =>
      have ho : RevertOutcome t version .none (t.outcome (.revert version)).result
        (t.step (.revert version)) := (revert_outcome ⟨t, .none⟩ version).call
      generalize t.step (.revert version) = t' at ho ⊢
      generalize (t.outcome (.revert version)).result = r at ho hio ⊢
      cases ho with
      | refused => exact ⟨log, .idle _ (by simp)⟩
      | unchanged => exact ⟨log, .idle _ (by simp)⟩
      | cut => exact absurd rfl hio
      | dataFailed => exact absurd rfl hio
      | done hplan hversion =>
          rcases h.revertPlan_cases version with ⟨⟨e, he⟩, -⟩ | ⟨kept, rest, dataLen, hp, hsplit⟩
          · rw [he] at hplan
            cases hplan
          · rw [hp] at hplan
            cases hplan
            exact ⟨_, .reverted hsplit hversion⟩
  | recover =>
      obtain ⟨hr, ht⟩ := recover_call h.toBacked h.index
      rw [hr, ht]
      exact ⟨_, .recovered⟩

/-! ## The files stay settled -/

theorem replay_markers (log : List IndexRecord) {version : UInt32} {offset : Nat}
    (h : (replay log).versionIndex[version]? = some offset) :
    version = 0 ∧ offset = 0 ∨ ∃ dataLen, MarkerAt log version offset dataLen := by
  induction log using List.reverseRecOn with
  | nil =>
      rw [replay_nil, initialState, OrderedMap.getElem?_insert] at h
      split at h
      · rename_i hv
        cases h
        exact .inl ⟨hv.symm, rfl⟩
      · rw [Std.ExtTreeMap.getElem?_empty] at h
        cases h
  | append_singleton log r ih =>
      cases r with
      | insert i =>
          rw [replay_concat] at h
          exact (ih h).imp id fun hmarker ↦ hmarker.imp fun _ hm ↦ hm.append _
      | commit m =>
          rw [replay_versionIndex_concat_commit] at h
          split at h
          · rename_i hv
            cases h
            cases hv
            exact .inr ⟨m.dataLen, .concat log m.version m.dataLen⟩
          · exact (ih h).imp id fun hmarker ↦ hmarker.imp fun _ hm ↦ hm.append _

theorem trim_grows {f : DurableFile} (h : f.Grows) (size : Nat) : (RawTable.trim f size).Grows := by
  unfold RawTable.trim
  split
  · exact DurableFile.grows_sync _
  · exact h

theorem prefix_trim_durable {f : DurableFile} {pre : Bytes} (h : pre <+: f.durable)
    (hc : pre <+: f.content) : pre <+: (RawTable.trim f pre.length).durable := by
  unfold RawTable.trim
  split
  · rw [DurableFile.durable_sync, DurableFile.content_issue, FileOp.apply, resize_prefix hc]
  · exact h

theorem le_trim_durable {f : DurableFile} {size : Nat} (h : size ≤ f.durable.length) :
    size ≤ (RawTable.trim f size).durable.length := by
  unfold RawTable.trim
  split
  · rw [DurableFile.durable_sync, DurableFile.content_issue, FileOp.apply, resize_length]
  · exact h

theorem Backed.trim_data_content {log : List IndexRecord} {t : Table} (h : Backed log t) :
    (RawTable.trim t.dataLog (replay log).dataLen).content =
      t.dataLog.content.take (replay log).dataLen := by
  rw [RawTable.trim_content, resize_of_le ((replay_dataLen_le h.inside).trans h.dataLen)]

theorem Settled.inserted_content {log : List IndexRecord} {t : Table} (h : Settled log t)
    (bytes : Bytes) :
    (t.dataLog.issue (.write t.state.dataLen bytes)).content = t.dataLog.content ++ bytes := by
  rw [DurableFile.content_issue, FileOp.apply, ← h.data, overwrite_end]

theorem Settled.committedData_content {log : List IndexRecord} {t : Table} (h : Settled log t) :
    t.committedData.content = t.dataLog.content := by
  rw [h.toBacked.committedData_content, ← h.data, List.take_length]

/-- What `recover` leaves of the files is backed by the committed log. -/
theorem Backed.recovered {log : List IndexRecord} {t : Table} (h : Backed log t) :
    Backed (committed log)
      ⟨RawTable.trim t.dataLog (replay log).dataLen,
        RawTable.trim t.indexLog (logSize (committed log)), replay (committed log)⟩ := by
  obtain ⟨-, -, hdataLen⟩ := replay_committed log
  have hsub := (committed_isPrefix log).subset
  have hpre := (encodeLog_isPrefix (committed_isPrefix log)).trans h.encoded
  have hindex : (RawTable.trim t.indexLog (logSize (committed log))).content =
      encodeLog (committed log) := by
    rw [RawTable.trim_content, ← encodeLog_length, resize_prefix hpre]
  have hdata : (RawTable.trim t.dataLog (replay log).dataLen).content.length =
      (replay log).dataLen := by
    rw [RawTable.trim_content, resize_length]
  have hle := replay_dataLen_le h.inside
  constructor
  case encoded => rw [hindex]
  case indexLen => exact replay_indexLen _
  case indexFile =>
    rw [hindex]
    exact hpre.length_le.trans h.indexFile
  case dataLen => exact (hdataLen.trans hdata.symm).le
  case dataFile => exact hdata.le.trans (hle.trans (h.dataLen.trans h.dataFile))
  case valid => exact fun r hr ↦ h.valid r (hsub hr)
  case inside =>
    intro r hr
    exact (committed_extent h.nested r hr).trans hdataLen.ge
  case nested => exact h.nested.sublist (committed_isPrefix log).sublist
  case markers => exact fun v offset hv ↦ replay_markers _ hv
  case entries => exact fun k e hk ↦ hk

/-- What `recover` leaves of a settled table is settled on the committed log. -/
theorem Settled.recovered {log : List IndexRecord} {t : Table} (h : Settled log t) :
    Settled (committed log)
      ⟨RawTable.trim t.dataLog (replay log).dataLen,
        RawTable.trim t.indexLog (logSize (committed log)), replay (committed log)⟩ := by
  obtain ⟨-, -, hdataLen⟩ := replay_committed log
  have hpre := (encodeLog_isPrefix (committed_isPrefix log)).trans h.encoded
  constructor
  case toBacked => exact h.toBacked.recovered
  case index => rw [RawTable.trim_content, ← encodeLog_length, resize_prefix hpre]
  case data => rw [RawTable.trim_content, resize_length, hdataLen]
  case version => rfl
  case indexGrows => exact trim_grows h.indexGrows _
  case dataGrows => exact trim_grows h.dataGrows _
  case indexDurable =>
    rw [committed_committed, ← encodeLog_length]
    exact prefix_trim_durable h.indexDurable hpre
  case dataDurable =>
    rw [hdataLen]
    exact le_trim_durable h.dataDurable

/-- Every advance leaves a settled table. -/
theorem Advance.settled {log log' : List IndexRecord} {t t' : Table} {c : Call}
    {r : Except TableError Bool} (h : Settled log t) (a : Advance log t c r log' t') :
    Settled log' t' := by
  -- nothing stands in the file behind the log
  have hindexLen : t.state.indexLen = t.indexLog.content.length := by
    rw [h.index, encodeLog_length, h.indexLen]
  cases a with
  | idle => exact h
  | @inserted key value bytes hbytes hdata hkey hindex =>
      constructor
      case toBacked => exact h.insert_done hbytes hdata hkey hindex
      case index =>
        rw [DurableFile.content_issue, FileOp.apply, hindexLen, overwrite_end, h.index,
          encodeLog_append]
        simp
      case data =>
        rw [h.inserted_content, List.length_append, h.data]
      case version =>
        rw [replay_concat]
        exact h.version
      case indexGrows =>
        dsimp only
        rw [hindexLen]
        exact h.indexGrows.append _
      case dataGrows =>
        dsimp only
        rw [← h.data]
        exact h.dataGrows.append _
      case indexDurable =>
        rw [committed_insert]
        exact h.indexDurable
      case dataDurable =>
        rw [replay_concat]
        exact h.dataDurable
  | @committed version hversion hindex =>
      have hcontent := h.markedIndex_resize_content version
      constructor
      case toBacked =>
        refine h.commit_marked _ _ _ hcontent hindex fun v offset hv ↦ ?_
        rw [OrderedMap.getElem?_insert] at hv
        split at hv
        · rename_i heq
          cases hv
          exact .inl ⟨heq.symm, rfl⟩
        · exact .inr hv
      case index => exact hcontent
      case data => exact h.committedData_length
      case version =>
        rw [replay_concat]
        rfl
      case indexGrows => exact DurableFile.grows_sync _
      case dataGrows => exact DurableFile.grows_sync _
      case indexDurable =>
        rw [Table.newMarker, committed_commit, DurableFile.durable_sync]
        rw [hcontent]
        exact List.prefix_rfl
      case dataDurable =>
        rw [replay_concat]
        exact h.committedData_length.ge
  | @reverted version kept rest dataLen hsplit hversion =>
      have hcontent := hsplit.revertedIndex_content h.toBacked
      obtain ⟨hversion, hdataLen⟩ := hsplit.replay_rewound
      have hle := (hsplit.dataLen_bounds h.toBacked).2
      have hdata : (t.dataLog.issue (.resize dataLen)).content.length = dataLen := by
        rw [DurableFile.content_issue, FileOp.apply, resize_length]
      constructor
      case toBacked =>
        exact h.reverted hsplit hcontent hdata.ge
          (hdata.le.trans (hle.trans (h.dataLen.trans h.dataFile)))
      case index => exact hcontent
      case data => exact hdata
      case version => exact hversion.symm
      case indexGrows => exact DurableFile.grows_sync _
      case dataGrows => exact DurableFile.grows_sync _
      case indexDurable =>
        rw [hsplit.committed_rewound, DurableFile.durable_sync, hcontent]
      case dataDurable =>
        rw [hdataLen]
        exact hdata.ge
  | recovered => exact h.recovered

/-! ## Runs -/

theorem created_eq : Table.created = ⟨.ofBytes [], .ofBytes [], initialState⟩ := by
  have hr : RawTable.recoverContent false 0 0 [] 0 .start = .ok (.ofLog []) := rfl
  exact (open_ofLog (.ofBytes []) (.ofBytes []) hr (Nat.zero_le _) (Nat.zero_le _)).2

theorem settled_created : Settled [] Table.created := by
  rw [created_eq]
  constructor
  case toBacked =>
    constructor
    case encoded => exact List.prefix_rfl
    case indexLen => rfl
    case indexFile => exact Nat.zero_le _
    case dataLen => exact Nat.zero_le _
    case dataFile => exact Nat.zero_le _
    case valid => exact fun r hr ↦ absurd hr List.not_mem_nil
    case inside => exact fun r hr ↦ absurd hr List.not_mem_nil
    case nested => exact List.Pairwise.nil
    case markers => exact fun _ _ hv ↦ replay_markers [] hv
    case entries => exact fun k e hk ↦ hk
  case index => rfl
  case data => rfl
  case version => rfl
  case indexGrows => exact DurableFile.grows_ofBytes _
  case dataGrows => exact DurableFile.grows_ofBytes _
  case indexDurable => exact List.prefix_rfl
  case dataDurable => exact Nat.zero_le _

/-- After every run without I/O errors the table is settled on some log. -/
theorem exists_settled {calls : List Call}
    (h : Meets Table.step NoIoError Table.created calls) :
    ∃ log, Settled log (run Table.step Table.created calls) := by
  refine h.invariant (I := fun t ↦ ∃ log, Settled log t) ⟨[], settled_created⟩ ?_
  rintro t c ⟨log, hs⟩ hio
  obtain ⟨log', ha⟩ := hs.advance c hio
  exact ⟨log', ha.settled hs⟩

/-! ## Where a revert cuts -/

/-- The records of the tracked index WAL. -/
def Table.records (t : Table) : List IndexRecord :=
  decodeLog (t.indexLog.content.take t.state.indexLen)

/-- The boundary that the version index gives for a version: behind its own marker, else in front of
the marker of the least successor. -/
def Table.boundary (t : Table) (version : UInt32) : Nat :=
  match t.state.versionIndex[version]? with
  | some offset => if version = 0 then 0 else offset + 21
  | none =>
      match t.state.versionIndex.withFirstInRange version Limits.maxVersion with
      | some (_, offset) => offset
      | none => t.state.indexLen

/-- The records in front of the boundary of a version. -/
def Table.keptRecords (t : Table) (version : UInt32) : List IndexRecord :=
  (splitLog t.records (t.boundary version)).1

/-- The records that a revert to a version discards. -/
def Table.discardedRecords (t : Table) (version : UInt32) : List IndexRecord :=
  (splitLog t.records (t.boundary version)).2

theorem Backed.records_eq {log : List IndexRecord} {t : Table} (h : Backed log t) :
    t.records = log := by
  rw [Table.records, h.take_content, decodeLog_encodeLog h.valid]

theorem RevertSplit.boundary_eq {log kept rest : List IndexRecord} {t : Table} {version : UInt32}
    {dataLen : Nat} (s : RevertSplit log t version dataLen kept rest) :
    t.boundary version = logSize kept := by
  cases hx : t.exact version with
  | true =>
      obtain ⟨offset, hoffset⟩ := Option.isSome_iff_exists.mp hx
      rcases s.own hx with ⟨rfl, rfl, -⟩ | ⟨h0, pre, rfl, hpre⟩
      · simp only [Table.boundary, hoffset, if_true, logSize_nil]
      · simp only [Table.boundary, hpre, if_neg h0]
        simp [IndexRecord.size]
  | false =>
      have hnone : t.state.versionIndex[version]? = none :=
        Option.isSome_eq_false_iff.mp hx |> Option.isNone_iff_eq_none.mp
      obtain ⟨next, post, -, hlt, hnext, hleast⟩ := s.successor hx
      have hrange (e : UInt32 × Nat) (he : version ≤ e.1) : ((compare version e.1).isLE &&
          (compare e.1 Limits.maxVersion).isLE) = true := by
        rw [Bool.and_eq_true, Std.isLE_compare, Std.isLE_compare]
        exact ⟨he, maxVersion_le e.1⟩
      have hle : version ≤ next := UInt32.le_of_lt hlt
      simp only [Table.boundary, hnone]
      cases hfirst : t.state.versionIndex.withFirstInRange version Limits.maxVersion with
      | none =>
          rw [OrderedMap.withFirstInRange, OrderedMap.withRange_eq_filter,
            List.head?_eq_none_iff] at hfirst
          have hp := OrderedMap.filter_eq_nil (e := (next, logSize kept)) hfirst hnext
          rw [hrange (next, logSize kept) hle] at hp
          cases hp
      | some found =>
          obtain ⟨v, offset⟩ := found
          rw [OrderedMap.withFirstInRange, OrderedMap.withRange_eq_filter] at hfirst
          obtain ⟨hmem, hp, hmin⟩ := OrderedMap.head?_filter_eq_some hfirst
          have hvnext := Std.isLE_compare.mp
            (hmin (next, logSize kept) hnext (hrange (next, logSize kept) hle))
          rw [Bool.and_eq_true, Std.isLE_compare] at hp
          have heq : v = next := UInt32.le_antisymm hvnext (hleast v offset hmem hp.1)
          subst heq
          rw [hmem] at hnext
          cases hnext
          rfl

theorem RevertSplit.records_eq {log kept rest : List IndexRecord} {t : Table} {version : UInt32}
    {dataLen : Nat} (s : RevertSplit log t version dataLen kept rest) (h : Backed log t) :
    t.keptRecords version = kept ∧ t.discardedRecords version = rest := by
  rw [Table.keptRecords, Table.discardedRecords, h.records_eq, s.boundary_eq, s.log_eq,
    splitLog_append]
  exact ⟨rfl, rfl⟩

end Stainless.Kvstore
