import Stainless.Kvstore.Lookup
import Stainless.Kvstore.Agreement

/-!
# I/O errors

A call that fails leaves a table that is still backed by a log, unless it is a revert that fails
between cutting the index WAL and syncing it.  A commit that fails behind its marker leaves a state
that the files do not describe.
-/

open Reasoning Stainless.Runtime

namespace Stainless.Kvstore

/-- A call together with the file operation that fails in it, if any. -/
structure Attempt where
  call : Call
  fault : Fault
  deriving DecidableEq, Repr

def Table.attempt (t : Table) (a : Attempt) : Outcome Bool := t.call a.fault a.call.run

def Table.stepAttempt (t : Table) (a : Attempt) : Table := (t.attempt a).table

/-- A revert does not fail after it has cut records off the index WAL and before that file is synced
with its new end. -/
def Table.SafeFault (t : Table) : Attempt → Prop
  | ⟨.revert version, .change n _⟩ =>
      version ≤ t.state.currentVersion →
        n = 0 ∨ t.revertChanges version ≤ n ∨ t.boundary version = t.state.indexLen
  | _ => True

instance (t : Table) : ∀ a, Decidable (t.SafeFault a)
  | ⟨.revert version, .change n _⟩ =>
      inferInstanceAs (Decidable (version ≤ _ → n = 0 ∨ _ ≤ n ∨ _ = _))
  | ⟨.insert _ _, _⟩ => inferInstanceAs (Decidable True)
  | ⟨.commit _, _⟩ => inferInstanceAs (Decidable True)
  | ⟨.revert _, .none⟩ => inferInstanceAs (Decidable True)
  | ⟨.revert _, .read _⟩ => inferInstanceAs (Decidable True)
  | ⟨.recover, _⟩ => inferInstanceAs (Decidable True)

/-- Nor does a commit fail once its marker is in the index WAL. -/
def Table.SparedFault (t : Table) : Attempt → Prop
  | ⟨.commit version, .change n _⟩ => t.state.currentVersion ≤ version → n ≠ 4 ∧ n ≠ 5
  | a => t.SafeFault a

instance (t : Table) : ∀ a, Decidable (t.SparedFault a)
  | ⟨.commit version, .change n _⟩ => inferInstanceAs (Decidable (_ ≤ version → n ≠ 4 ∧ n ≠ 5))
  | ⟨.commit version, .none⟩ => inferInstanceAs (Decidable (t.SafeFault ⟨.commit version, .none⟩))
  | ⟨.commit version, .read n⟩ =>
      inferInstanceAs (Decidable (t.SafeFault ⟨.commit version, .read n⟩))
  | ⟨.insert key value, fault⟩ =>
      inferInstanceAs (Decidable (t.SafeFault ⟨.insert key value, fault⟩))
  | ⟨.revert version, fault⟩ => inferInstanceAs (Decidable (t.SafeFault ⟨.revert version, fault⟩))
  | ⟨.recover, fault⟩ => inferInstanceAs (Decidable (t.SafeFault ⟨.recover, fault⟩))

theorem Table.SparedFault.safe {t : Table} {a : Attempt} (h : t.SparedFault a) : t.SafeFault a := by
  obtain ⟨call, fault⟩ := a
  cases call with
  | commit version => trivial
  | _ => exact h

/-- What an attempt does to the log and the guarded state, whether it fails or not. -/
inductive Change (log : List IndexRecord) (t : Table) :
    Attempt → List IndexRecord → StoreState → Prop
  | idle (a : Attempt) : Change log t a log t.state
  | inserted {key value bytes : Bytes} {fault : Fault}
      (hbytes : makeDataRecord t.state.currentVersion key value = .ok bytes) :
      Change log t ⟨.insert key value, fault⟩ (log ++ [.insert (t.newRecord key value)])
        { t.state with
          dataLen := t.state.dataLen + bytes.length
          indexLen := t.state.indexLen + (33 + key.length)
          index := t.state.index.insert (key, t.state.currentVersion)
            ⟨t.state.dataLen + 21 + key.length, value.length⟩ }
  | unsynced {version : UInt32} {fault : Fault} (hversion : t.state.currentVersion ≤ version)
      (hfault : ∃ written, fault = .change 4 written ∨ fault = .change 5 written) :
      Change log t ⟨.commit version, fault⟩ (log ++ [t.newMarker version])
        { t.state with indexLen := t.state.indexLen + 21 }
  | committed {version : UInt32} {fault : Fault} (hversion : t.state.currentVersion ≤ version) :
      Change log t ⟨.commit version, fault⟩ (log ++ [t.newMarker version])
        { t.state with
          indexLen := t.state.indexLen + 21
          versionIndex := t.state.versionIndex.insert version t.state.indexLen
          currentVersion := version }
  | reverted {version : UInt32} {fault : Fault} {kept rest : List IndexRecord} {dataLen : Nat}
      (hsplit : RevertSplit log t version dataLen kept rest)
      (hversion : version ≤ t.state.currentVersion) :
      Change log t ⟨.revert version, fault⟩ (t.rewound version kept dataLen)
        (t.revertedState version (splitPlan kept rest dataLen))

variable {log : List IndexRecord} {t : Table}

private theorem insert_change (h : Backed log t) {key value : Bytes} {r : Except TableError Unit}
    {t' : Table} (fault : Fault) (ho : InsertOutcome t key value r t') :
    ∃ log', Backed log' t' ∧ Change log t ⟨.insert key value, fault⟩ log' t'.state := by
  cases ho with
  | refused => exact ⟨log, h, .idle _⟩
  | dataFailed part hfits => exact ⟨log, h.write_data part hfits, .idle _⟩
  | indexFailed part hbytes hdata hkey hpart hfits =>
      exact ⟨log, (h.write_data _ (by omega)).write_index part hfits, .idle _⟩
  | done hbytes hdata hkey hindex =>
      exact ⟨_, h.insert_done hbytes hdata hkey hindex, .inserted hbytes⟩

private theorem commit_change (h : Backed log t) {version : UInt32} {fault : Fault}
    {r : Except TableError Bool} {t' : Table} (ho : CommitOutcome t version fault r t') :
    ∃ log', Backed log' t' ∧ Change log t ⟨.commit version, fault⟩ log' t'.state := by
  cases ho with
  | refused => exact ⟨log, h, .idle _⟩
  | dataFailed hf =>
      refine ⟨log, ?_, .idle _⟩
      rcases hf with rfl | rfl
      · exact h
      · exact h.committed_data.withFiles h.encoded h.indexFile h.committed_data.dataLen
          h.committed_data.dataFile
  | indexFailed _ hf =>
      refine ⟨log, ?_, .idle _⟩
      rcases hf with rfl | rfl | ⟨part, -, hfits, rfl⟩
      · exact h.committed_data
      · exact h.commit_cutIndex
      · exact h.commit_cutIndex.write_index part hfits
  | unsynced hversion hdata hindex hf hfault =>
      refine ⟨_, h.commit_marked _ _ _ ?_ hindex fun v offset hv ↦ .inr hv,
        .unsynced hversion hfault⟩
      rcases hf with rfl | rfl
      · exact h.markedIndex_content version
      · exact h.markedIndex_resize_content version
  | done hversion hdata hindex =>
      refine ⟨_, h.commit_marked _ _ _ (h.markedIndex_resize_content version) hindex fun v offset hv ↦ ?_,
        .committed hversion⟩
      rw [OrderedMap.getElem?_insert] at hv
      split at hv
      · rename_i heq
        cases hv
        exact .inl ⟨heq.symm, rfl⟩
      · exact .inr hv

/-- What revert plans is a split of the log. -/
theorem Backed.split_of_plan (h : Backed log t) {version : UInt32} {plan : RevertPlan}
    (hplan : t.revertPlan version = .ok plan) :
    ∃ kept rest dataLen, plan = splitPlan kept rest dataLen ∧
      RevertSplit log t version dataLen kept rest := by
  rcases h.revertPlan_cases version with ⟨⟨e, he⟩, -⟩ | ⟨kept, rest, dataLen, hp, hs⟩
  · rw [he] at hplan
    cases hplan
  · rw [hp] at hplan
    cases hplan
    exact ⟨kept, rest, dataLen, rfl, hs⟩

/-- A revert that fails on the data WAL is done with the index WAL and the state. -/
theorem Backed.reverted_data (h : Backed log t) {version : UInt32} {kept rest : List IndexRecord}
    {dataLen : Nat} (hs : RevertSplit log t version dataLen kept rest) {f : DurableFile}
    (hf : f = t.dataLog ∨ f = t.dataLog.issue (.resize dataLen)) :
    Backed (t.rewound version kept dataLen)
      { dataLog := f, indexLog := (t.revertedIndex version (splitPlan kept rest dataLen)).sync
        state := t.revertedState version (splitPlan kept rest dataLen) } := by
  have hle := (hs.dataLen_bounds h).2
  refine h.reverted hs (hs.revertedIndex_content h) ?_ ?_
  · rcases hf with rfl | rfl
    · exact hle.trans h.dataLen
    · rw [DurableFile.content_issue, FileOp.apply, resize_length]
  · rcases hf with rfl | rfl
    · exact h.dataFile
    · rw [DurableFile.content_issue, FileOp.apply, resize_length]
      exact hle.trans (h.dataLen.trans h.dataFile)

private theorem revert_change (h : Backed log t) {version : UInt32} {fault : Fault}
    (hsafe : t.SafeFault ⟨.revert version, fault⟩) {r : Except TableError Bool}
    {t' : Table} (ho : RevertOutcome t version fault r t') :
    ∃ log', Backed log' t' ∧ Change log t ⟨.revert version, fault⟩ log' t'.state := by
  cases ho with
  | refused => exact ⟨log, h, .idle _⟩
  | unchanged => exact ⟨log, h, .idle _⟩
  | @cut plan f hplan hversion hf hfault =>
      obtain ⟨kept, rest, dataLen, rfl, hs⟩ := h.split_of_plan hplan
      have hshort : t.exact version = false → logSize kept + 21 ≤ logSize log := fun hx ↦ by
        have hle := hs.logSize_rewound_le
        rw [RevertSplit.rewound_of_not_exact hx, logSize_append] at hle
        exact hle
      rcases hfault with ⟨n, written, rfl, hpos, hlt⟩ | ⟨hx, hlong⟩
      · -- only a cut at the very end is left, and it removes nothing
        rcases hsafe hversion with h0 | hge | hend
        · omega
        · omega
        · rw [hs.boundary_eq, h.indexLen] at hend
          have hfile : f.content = encodeLog kept ∧ kept <+: log := by
            refine ⟨?_, hs.kept_prefix⟩
            cases hf with
            | cut => exact hs.cut_content h
            | marking _ hx => have := hshort hx; omega
            | marked hx => have := hshort hx; omega
          have hkept : kept = log := by
            refine hfile.2.eq_of_length ?_
            have hrest := length_le_logSize rest
            have hlog := hs.log_eq
            rw [hlog, logSize_append] at hend
            rw [hlog, List.length_append]
            omega
          rw [hkept] at hfile
          refine ⟨log, h.withFiles ?_ ?_ h.dataLen h.dataFile, .idle _⟩
          · rw [hfile.1]
          · rw [hfile.1, encodeLog_length]
            exact h.logSize_le.trans h.indexFile
      · have hfit := (hshort hx).trans (h.logSize_le.trans h.indexFile)
        change maxFileLen < logSize kept + 21 at hlong
        omega
  | dataFailed hplan hversion hf =>
      obtain ⟨kept, rest, dataLen, rfl, hs⟩ := h.split_of_plan hplan
      exact ⟨_, h.reverted_data hs hf, .reverted hs hversion⟩
  | done hplan hversion =>
      obtain ⟨kept, rest, dataLen, rfl, hs⟩ := h.split_of_plan hplan
      have hle := (hs.dataLen_bounds h).2
      have hdata : (t.dataLog.issue (.resize dataLen)).content.length = dataLen := by
        rw [DurableFile.content_issue, FileOp.apply, resize_length]
      exact ⟨_, h.reverted hs (hs.revertedIndex_content h) hdata.ge
        (hdata.le.trans (hle.trans (h.dataLen.trans h.dataFile))), .reverted hs hversion⟩

/-- Every attempt with a safe failure leaves a backed table. -/
theorem Backed.change (h : Backed log t) {a : Attempt} (hcall : a.call ≠ .recover)
    (hsafe : t.SafeFault a) :
    ∃ log', Backed log' (t.stepAttempt a) ∧ Change log t a log' (t.stepAttempt a).state := by
  obtain ⟨call, fault⟩ := a
  cases call with
  | insert key value =>
      obtain ⟨r, ho, -⟩ := insert_call t fault key value
      exact insert_change h fault ho
  | commit version => exact commit_change h (commit_outcome ⟨t, fault⟩ version).call
  | revert version => exact revert_change h hsafe (revert_outcome ⟨t, fault⟩ version).call
  | recover => exact absurd rfl hcall

/-! ## Runs with failures -/

/-- An attempt that neither discards a shared pair nor fails in the middle of cutting the index
WAL. -/
def SafeAttempt (t : Table) (a : Attempt) : Prop :=
  a.call ≠ .recover ∧ t.PairCleanCall a.call ∧ t.SafeFault a

instance (t : Table) (a : Attempt) : Decidable (SafeAttempt t a) :=
  inferInstanceAs (Decidable (_ ∧ _ ∧ _))

theorem Change.index_eq {a : Attempt} {log' : List IndexRecord} {s : StoreState} (h : Backed log t)
    (hc : Change log t a log' s) (hclean : t.PairCleanCall a.call)
    (hi : t.state.index = (replay log).index) : s.index = (replay log').index := by
  cases hc with
  | idle => exact hi
  | inserted =>
      rw [replay_concat, replayStep, ← hi]
      rfl
  | unsynced =>
      rw [replay_concat]
      exact hi
  | committed =>
      rw [replay_concat]
      exact hi
  | reverted hsplit hversion => exact (hsplit.index_eq_iff h hi).mpr (hclean hversion)

theorem exists_backed {attempts : List Attempt}
    (h : Meets Table.stepAttempt SafeAttempt Table.created attempts) :
    ∃ log, Backed log (run Table.stepAttempt Table.created attempts) ∧
      (run Table.stepAttempt Table.created attempts).state.index = (replay log).index := by
  refine h.invariant (I := fun t ↦ ∃ log, Backed log t ∧ t.state.index = (replay log).index)
    ⟨[], settled_created.toBacked, agrees_created.indexEq⟩ ?_
  rintro t a ⟨log, hb, hi⟩ ⟨hcall, hclean, hsafe⟩
  obtain ⟨log', hb', hc⟩ := hb.change hcall hsafe
  exact ⟨log', hb', hc.index_eq hb hclean hi⟩

/-- Whatever failed before, after a commit that returns true the reopened table has the version and
the answers of the live one. -/
theorem reopen_after_failures (attempts : List Attempt) (version : UInt32) (fault : Fault)
    (hrun : Meets Table.stepAttempt SafeAttempt Table.created attempts)
    (htrue : ((run Table.stepAttempt Table.created attempts).attempt
      ⟨.commit version, fault⟩).result = .ok true) :
    let t := run Table.stepAttempt Table.created (attempts ++ [⟨.commit version, fault⟩])
    let reopened := Table.open t.dataLog t.indexLog .none
    reopened.result = .ok () ∧
      reopened.table.state.currentVersion = t.state.currentVersion ∧
      ∀ key, reopened.table.view key = t.view key := by
  obtain ⟨log, h, hi⟩ := exists_backed hrun
  rw [run_append, run_cons, run_nil]
  generalize run Table.stepAttempt Table.created attempts = t at *
  have ho : CommitOutcome t version fault (t.attempt ⟨.commit version, fault⟩).result
    (t.stepAttempt ⟨.commit version, fault⟩) := (commit_outcome ⟨t, fault⟩ version).call
  rw [htrue] at ho
  generalize t.stepAttempt ⟨.commit version, fault⟩ = t' at *
  cases ho with
  | done hversion hdata hindex =>
      have hcontent := h.markedIndex_resize_content version
      obtain ⟨hresult, htable⟩ := (h.commit_marked
        ((t.markedIndex version).issue (.resize (t.state.indexLen + 21))).sync
        (t.state.versionIndex.insert version t.state.indexLen) version hcontent hindex fun v offset hv ↦ by
          rw [OrderedMap.getElem?_insert] at hv
          split at hv
          · rename_i heq
            cases hv
            exact .inl ⟨heq.symm, rfl⟩
          · exact .inr hv).open_eq hcontent
      have hlength : t.committedData.content.length =
          (replay (log ++ [t.newMarker version])).dataLen := by
        rw [replay_concat]
        exact h.committedData_length
      rw [RawTable.trim_of_eq hlength, Table.newMarker, committed_commit] at htable
      refine ⟨hresult, ?_, fun key ↦ ?_⟩
      · rw [htable, replay_concat]
        rfl
      · rw [Table.view_eq, Table.view_eq, htable]
        refine StoreState.lookup_congr ?_ ?_ _ key
        · rw [replay_concat]
          exact hi.symm
        · rw [replay_concat]
          rfl

/-! ## The guarded state after a failure -/

/-- Opening the files again gives the state in memory. -/
def Table.Described (t : Table) : Prop :=
  (Table.open t.dataLog t.indexLog .none).result = .ok () ∧
    (Table.open t.dataLog t.indexLog .none).table.state = t.state

/-- An attempt that discards nothing that the kept records name as well and does not fail between
two changes that belong together. -/
def SparedAttempt (t : Table) (a : Attempt) : Prop :=
  a.call ≠ .recover ∧ t.CleanCall a.call ∧ t.SparedFault a

instance (t : Table) (a : Attempt) : Decidable (SparedAttempt t a) :=
  inferInstanceAs (Decidable (_ ∧ _ ∧ _))

theorem SparedAttempt.safe {a : Attempt} (h : SparedAttempt t a) : SafeAttempt t a :=
  ⟨h.1, h.2.1.pairs, h.2.2.safe⟩

/-- The log accounts for both maps in memory. -/
structure Mirrored (log : List IndexRecord) (t : Table) : Prop extends Backed log t where
  indexEq : t.state.index = (replay log).index
  versionIndexEq : t.state.versionIndex = (replay log).versionIndex

theorem Change.versionIndex_eq {a : Attempt} {log' : List IndexRecord} {s : StoreState}
    (h : Backed log t) (hc : Change log t a log' s) (hclean : t.CleanCall a.call)
    (hspared : t.SparedFault a) (hv : t.state.versionIndex = (replay log).versionIndex) :
    s.versionIndex = (replay log').versionIndex := by
  cases hc with
  | idle => exact hv
  | inserted =>
      rw [replay_concat]
      exact hv
  | unsynced hversion hfault =>
      obtain ⟨written, rfl | rfl⟩ := hfault
      · exact absurd rfl (hspared hversion).1
      · exact absurd rfl (hspared hversion).2
  | committed =>
      rw [replay_concat, Table.newMarker, replayStep, replay_indexLen, ← hv, ← h.indexLen]
  | reverted hsplit hversion => exact (hsplit.versionIndex_eq_iff h hv).mpr (hclean hversion).2

theorem Mirrored.step (h : Mirrored log t) {a : Attempt} (ha : SparedAttempt t a) :
    ∃ log', Mirrored log' (t.stepAttempt a) := by
  obtain ⟨hcall, hclean, hspared⟩ := ha
  obtain ⟨log', hb, hc⟩ := h.change hcall hspared.safe
  exact ⟨log', hb, hc.index_eq h.toBacked hclean.pairs h.indexEq,
    hc.versionIndex_eq h.toBacked hclean hspared h.versionIndexEq⟩

private theorem commit_failed {version : UInt32} {fault : Fault} {e : TableError} {t' : Table}
    (hspared : t.SparedFault ⟨.commit version, fault⟩)
    (ho : CommitOutcome t version fault (.error e) t') : t'.state = t.state := by
  cases ho with
  | dataFailed => rfl
  | indexFailed => rfl
  | unsynced hversion hdata hindex hf hfault =>
      obtain ⟨written, rfl | rfl⟩ := hfault
      · exact absurd rfl (hspared hversion).1
      · exact absurd rfl (hspared hversion).2

/-- A revert that installs its state and then fails has written that state to the index WAL. -/
private theorem revert_failed (h : Mirrored log t) {version : UInt32} {fault : Fault}
    {e : TableError} {t' : Table} (hclean : t.CleanCall (.revert version))
    (ho : RevertOutcome t version fault (.error e) t') : t'.state = t.state ∨ t'.Described := by
  cases ho with
  | unchanged => exact .inl rfl
  | cut => exact .inl rfl
  | dataFailed hplan hversion hf =>
      right
      obtain ⟨kept, rest, dataLen, rfl, hs⟩ := h.split_of_plan hplan
      obtain ⟨hpairs, hversions⟩ := hclean hversion
      have hb := h.reverted_data hs hf
      obtain ⟨hresult, htable⟩ := hb.open_eq (hs.revertedIndex_content h.toBacked)
      refine ⟨hresult, ?_⟩
      rw [htable, hs.committed_rewound]
      exact hb.state_eq_replay ((hs.index_eq_iff h.toBacked h.indexEq).mpr hpairs)
        ((hs.versionIndex_eq_iff h.toBacked h.versionIndexEq).mpr hversions)
        hs.replay_rewound.1.symm hs.replay_rewound.2.symm

private theorem insert_failed {key value : Bytes} {r : Except TableError Unit} {t' : Table}
    (ho : InsertOutcome t key value r t') {e : TableError}
    (he : r.map (fun _ ↦ true) = .error e) : t'.state = t.state := by
  cases ho with
  | refused => rfl
  | dataFailed => rfl
  | indexFailed => rfl
  | done => cases he

theorem Mirrored.failed (h : Mirrored log t) {a : Attempt} (ha : SparedAttempt t a)
    {e : TableError} (he : (t.attempt a).result = .error e) :
    (t.stepAttempt a).state = t.state ∨ (t.stepAttempt a).Described := by
  obtain ⟨hcall, hclean, hspared⟩ := ha
  obtain ⟨call, fault⟩ := a
  cases call with
  | insert key value =>
      obtain ⟨r, ho, hr⟩ := insert_call t fault key value
      exact .inl (insert_failed ho (hr.symm.trans he))
  | commit version =>
      have ho : CommitOutcome t version fault (t.attempt ⟨.commit version, fault⟩).result
        (t.stepAttempt ⟨.commit version, fault⟩) := (commit_outcome ⟨t, fault⟩ version).call
      rw [he] at ho
      exact .inl (commit_failed hspared ho)
  | revert version =>
      have ho : RevertOutcome t version fault (t.attempt ⟨.revert version, fault⟩).result
        (t.stepAttempt ⟨.revert version, fault⟩) := (revert_outcome ⟨t, fault⟩ version).call
      rw [he] at ho
      exact revert_failed h hclean ho
  | recover => exact absurd rfl hcall

/-- A call that throws leaves the guarded state as it was or as the files describe it, and after a
commit that returns true the reopened table has the version and the answers of the live one, whatever
failed before. -/
theorem live_table_survives_failures (attempts : List Attempt) (a : Attempt)
    (hrun : Meets Table.stepAttempt SparedAttempt Table.created (attempts ++ [a])) :
    let before := run Table.stepAttempt Table.created attempts
    let t := run Table.stepAttempt Table.created (attempts ++ [a])
    let reopened := Table.open t.dataLog t.indexLog .none
    (∀ e, (before.attempt a).result = .error e → t.state = before.state ∨ t.Described) ∧
      ∀ version, a.call = .commit version → (before.attempt a).result = .ok true →
        reopened.result = .ok () ∧
          reopened.table.state.currentVersion = t.state.currentVersion ∧
          ∀ key, reopened.table.view key = t.view key := by
  obtain ⟨hfront, ha, -⟩ := meets_append.mp hrun
  constructor
  · intro e he
    obtain ⟨log, h⟩ := hfront.invariant (I := fun t ↦ ∃ log, Mirrored log t)
      ⟨[], settled_created.toBacked, agrees_created.indexEq, agrees_created.versionIndexEq⟩
      fun _ _ ⟨_, h⟩ ha ↦ h.step ha
    rw [run_append, run_cons, run_nil]
    exact h.failed ha he
  · obtain ⟨call, fault⟩ := a
    rintro version rfl htrue
    exact reopen_after_failures attempts version fault (hfront.mono fun _ _ ↦ SparedAttempt.safe) htrue

/-- An insertion fails with part of its index record written, a commit before its marker, and a revert
when it cuts the data WAL. -/
private def mishaps : List Attempt :=
  [⟨.insert [7] [1], .change 1 9⟩, ⟨.insert [7] [2], .none⟩, ⟨.commit 1, .change 2 0⟩,
    ⟨.commit 1, .none⟩, ⟨.insert [7] [3], .none⟩, ⟨.commit 3, .none⟩, ⟨.revert 2, .change 4 0⟩]

theorem live_table_survives_failures_mishaps :
    let before := run Table.stepAttempt Table.created mishaps
    let t := run Table.stepAttempt Table.created (mishaps ++ [⟨.commit 4, .none⟩])
    let reopened := Table.open t.dataLog t.indexLog .none
    (∀ e, (before.attempt ⟨.commit 4, .none⟩).result = .error e →
        t.state = before.state ∨ t.Described) ∧
      ∀ version, Call.commit 4 = .commit version →
        (before.attempt ⟨.commit 4, .none⟩).result = .ok true →
        reopened.result = .ok () ∧
          reopened.table.state.currentVersion = t.state.currentVersion ∧
          ∀ key, reopened.table.view key = t.view key :=
  live_table_survives_failures mishaps ⟨.commit 4, .none⟩ (by decide +kernel)

/-- The revert fails when it has cut the index WAL at the marker of version 3 and before it writes
its own. -/
private def brokenRevert : List Attempt :=
  [⟨.commit 1, .none⟩, ⟨.insert [7] [1], .none⟩, ⟨.commit 3, .none⟩, ⟨.revert 2, .change 1 0⟩]

/-- A later commit of the live table marks bytes that recovery cannot read. -/
theorem live_table_survives_failures_fails :
    ¬∀ (attempts : List Attempt) (version : UInt32),
      (∀ a ∈ attempts, a.call ≠ .recover) →
      ((run Table.stepAttempt Table.created attempts).attempt
        ⟨.commit version, .none⟩).result = .ok true →
      let t := run Table.stepAttempt Table.created (attempts ++ [⟨.commit version, .none⟩])
      (Table.open t.dataLog t.indexLog .none).table.state.currentVersion =
        t.state.currentVersion := by
  intro h
  exact absurd (h brokenRevert 4 (by decide) (by decide +kernel)) (by decide +kernel)

end Stainless.Kvstore
