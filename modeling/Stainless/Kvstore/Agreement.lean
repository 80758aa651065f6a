import Stainless.Kvstore.Runs

/-!
# The table in memory and the log on disk

`revert` edits the maps in memory, while recovery replays the log.  They agree as long as no revert
discards an insertion or a marker that the records it keeps name as well.
-/

open Reasoning Stainless.Runtime

namespace Stainless.Kvstore

/-- No (key, version) pair is inserted both in front of the boundary and behind it. -/
def Table.PairClean (t : Table) (version : UInt32) : Prop :=
  ∀ k ∈ insertedKeys (t.discardedRecords version), k ∉ insertedKeys (t.keptRecords version)

/-- No version is committed both in front of the boundary and behind it, where the creation of the
table commits version 0. -/
def Table.VersionClean (t : Table) (version : UInt32) : Prop :=
  ∀ v ∈ committedVersions (t.discardedRecords version),
    v ≠ 0 ∧ v ∉ committedVersions (t.keptRecords version)

instance (t : Table) (version : UInt32) : Decidable (t.PairClean version) :=
  List.decidableBAll (· ∉ _) _

instance (t : Table) (version : UInt32) : Decidable (t.VersionClean version) :=
  List.decidableBAll (fun v ↦ v ≠ 0 ∧ v ∉ _) _

/-- A revert that does something finds both kinds of records apart. -/
def Table.CleanCall (t : Table) : Call → Prop
  | .revert version =>
      version ≤ t.state.currentVersion → t.PairClean version ∧ t.VersionClean version
  | _ => True

/-- The same for the insertions only. -/
def Table.PairCleanCall (t : Table) : Call → Prop
  | .revert version => version ≤ t.state.currentVersion → t.PairClean version
  | _ => True

instance (t : Table) : ∀ c, Decidable (t.CleanCall c)
  | .insert _ _ => inferInstanceAs (Decidable True)
  | .commit _ => inferInstanceAs (Decidable True)
  | .revert version => inferInstanceAs (Decidable (version ≤ _ → _))
  | .recover => inferInstanceAs (Decidable True)

instance (t : Table) : ∀ c, Decidable (t.PairCleanCall c)
  | .insert _ _ => inferInstanceAs (Decidable True)
  | .commit _ => inferInstanceAs (Decidable True)
  | .revert version => inferInstanceAs (Decidable (version ≤ _ → _))
  | .recover => inferInstanceAs (Decidable True)

instance (t : Table) (c : Call) : Decidable (NoIoError t c) :=
  inferInstanceAs (Decidable (_ ≠ _))

theorem Table.CleanCall.pairs {t : Table} {c : Call} (h : t.CleanCall c) : t.PairCleanCall c := by
  cases c with
  | revert version => exact fun hv ↦ (h hv).1
  | _ => trivial

/-! ## One call -/

section

variable {log log' kept rest : List IndexRecord} {t t' : Table} {version : UInt32} {dataLen : Nat}

/-- The index map after a revert is the replayed one exactly when no pair is on both sides. -/
theorem RevertSplit.index_eq_iff (s : RevertSplit log t version dataLen kept rest)
    (h : Backed log t) (hi : t.state.index = (replay log).index) :
    (t.revertedState version (splitPlan kept rest dataLen)).index =
        (replay (t.rewound version kept dataLen)).index ↔ t.PairClean version := by
  obtain ⟨hkept, hrest⟩ := s.records_eq h
  have hrewound : (replay (t.rewound version kept dataLen)).index = (replay kept).index := by
    rw [Table.rewound]
    split
    · rfl
    · rw [replay_concat]
      rfl
  rw [Table.PairClean, hkept, hrest, hrewound]
  constructor
  · intro heq k hk hin
    apply replay_index_ne_none hin
    rw [← heq, revertedState_index, if_pos hk]
  · intro hclean
    apply Std.ExtTreeMap.ext_getElem?
    intro k
    rw [revertedState_index]
    split
    · rename_i hk
      rw [replay_index_eq_none (hclean k hk)]
    · rename_i hk
      rw [hi, s.log_eq, replay_index_append hk]

/-- A version without an entry of its own is not committed in the log. -/
theorem exact_eq_false (hv : t.state.versionIndex = (replay log).versionIndex)
    (hx : t.exact version = false) : version ≠ 0 ∧ version ∉ committedVersions log := by
  have hnone : t.state.versionIndex[version]? = none :=
    Option.isSome_eq_false_iff.mp hx |> Option.isNone_iff_eq_none.mp
  rw [hv] at hnone
  exact ⟨fun h0 ↦ replay_versionIndex_ne_none (.inl h0) hnone,
    fun hin ↦ replay_versionIndex_ne_none (.inr hin) hnone⟩

/-- The version index after a revert is the replayed one exactly when no version is on both
sides. -/
theorem RevertSplit.versionIndex_eq_iff (s : RevertSplit log t version dataLen kept rest)
    (h : Backed log t) (hv : t.state.versionIndex = (replay log).versionIndex) :
    (t.revertedState version (splitPlan kept rest dataLen)).versionIndex =
        (replay (t.rewound version kept dataLen)).versionIndex ↔ t.VersionClean version := by
  obtain ⟨hkept, hrest⟩ := s.records_eq h
  have hnew := fun hx : t.exact version = false ↦ exact_eq_false hv hx
  have hrewound (v : UInt32) : (replay (t.rewound version kept dataLen)).versionIndex[v]? =
      if t.exact version = false ∧ version = v then some (logSize kept)
      else (replay kept).versionIndex[v]? := by
    cases hx : t.exact version with
    | true => simp [rewound_of_exact hx]
    | false =>
        rw [rewound_of_not_exact hx, replay_versionIndex_concat_commit]
        simp
  rw [Table.VersionClean, hkept, hrest]
  constructor
  -- a version that stays in front is indexed, so it cannot be among those that were dropped
  · intro heq v hin
    by_contra hshared
    have hkeep : v = 0 ∨ v ∈ committedVersions kept := by
      by_cases h0 : v = 0
      · exact .inl h0
      · exact .inr (not_not.mp fun hn ↦ hshared ⟨h0, hn⟩)
    have hne : ¬(t.exact version = false ∧ version = v) := by
      rintro ⟨hx, rfl⟩
      refine hkeep.elim (hnew hx).1 fun hk ↦ (hnew hx).2 ?_
      rw [s.log_eq, committedVersions_append]
      exact List.mem_append_left _ hk
    apply replay_versionIndex_ne_none hkeep
    calc (replay kept).versionIndex[v]?
        = (replay (t.rewound version kept dataLen)).versionIndex[v]? :=
          ((hrewound v).trans (if_neg hne)).symm
      _ = none := by rw [← heq, revertedState_versionIndex, if_neg hne, if_pos hin]
  · intro hclean
    apply Std.ExtTreeMap.ext_getElem?
    intro v
    rw [revertedState_versionIndex, hrewound]
    split
    · rfl
    · split
      · rename_i hin
        rw [replay_versionIndex_eq_none (hclean v hin).2 (hclean v hin).1]
      · rename_i hin
        rw [hv, s.log_eq, replay_versionIndex_append hin]

/-- The index map stays the replayed one under calls that discard no shared pair. -/
theorem Advance.index_eq {c : Call} {r : Except TableError Bool} (h : Settled log t)
    (a : Advance log t c r log' t') (hclean : t.PairCleanCall c)
    (hi : t.state.index = (replay log).index) : t'.state.index = (replay log').index := by
  cases a with
  | idle => exact hi
  | inserted =>
      rw [replay_concat, replayStep, ← hi]
      rfl
  | committed =>
      rw [replay_concat]
      exact hi
  | reverted hsplit hversion => exact (hsplit.index_eq_iff h.toBacked hi).mpr (hclean hversion)
  | recovered => rfl

/-- So does the version index, when no shared version is discarded either. -/
theorem Advance.versionIndex_eq {c : Call} {r : Except TableError Bool} (h : Settled log t)
    (a : Advance log t c r log' t') (hclean : t.CleanCall c)
    (hv : t.state.versionIndex = (replay log).versionIndex) :
    t'.state.versionIndex = (replay log').versionIndex := by
  cases a with
  | idle => exact hv
  | inserted =>
      rw [replay_concat]
      exact hv
  | committed =>
      rw [replay_concat, Table.newMarker, replayStep, replay_indexLen, ← hv, ← h.indexLen]
  | reverted hsplit hversion =>
      exact (hsplit.versionIndex_eq_iff h.toBacked hv).mpr (hclean hversion).2
  | recovered => rfl

end

/-! ## Runs -/

/-- A call of a run without I/O errors and without unclean reverts. -/
def CleanStep (t : Table) (c : Call) : Prop := NoIoError t c ∧ t.CleanCall c

instance (t : Table) (c : Call) : Decidable (CleanStep t c) := inferInstanceAs (Decidable (_ ∧ _))

/-- The maps in memory are the replayed ones. -/
structure Agrees (log : List IndexRecord) (t : Table) : Prop extends Settled log t where
  indexEq : t.state.index = (replay log).index
  versionIndexEq : t.state.versionIndex = (replay log).versionIndex

theorem Agrees.advanced {log log' : List IndexRecord} {t t' : Table} {c : Call}
    {r : Except TableError Bool} (h : Agrees log t) (hc : t.CleanCall c)
    (a : Advance log t c r log' t') : Agrees log' t' :=
  ⟨a.settled h.toSettled, a.index_eq h.toSettled hc.pairs h.indexEq,
    a.versionIndex_eq h.toSettled hc h.versionIndexEq⟩

theorem agrees_created : Agrees [] Table.created := by
  refine ⟨settled_created, ?_, ?_⟩
  · rw [created_eq]
    rfl
  · rw [created_eq]
    rfl

theorem exists_agrees {calls : List Call} (h : Meets Table.step CleanStep Table.created calls) :
    ∃ log, Agrees log (run Table.step Table.created calls) :=
  h.invariant (I := fun t ↦ ∃ log, Agrees log t) ⟨[], agrees_created⟩ fun _ c ⟨_, hs⟩ hc ↦
    have ⟨log', ha⟩ := hs.toSettled.advance c hc.1
    ⟨log', hs.advanced hc.2 ha⟩

/-- A call that returns true and is no insertion leaves a log that ends with a marker, and its
replay ends at the tracked data. -/
theorem Advance.at_marker {log log' : List IndexRecord} {t t' : Table} {c : Call}
    (a : Advance log t c (.ok true) log' t') (hc : ∀ key value, c ≠ .insert key value) :
    Kvstore.committed log' = log' ∧ t'.state.dataLen = (replay log').dataLen := by
  cases a with
  | idle _ hr => exact absurd rfl hr
  | inserted => exact absurd rfl (hc _ _)
  | committed =>
      rw [Table.newMarker, committed_commit, replay_concat]
      exact ⟨rfl, rfl⟩
  | reverted hsplit =>
      rw [hsplit.replay_rewound.2]
      exact ⟨hsplit.committed_rewound, rfl⟩
  | recovered => exact ⟨committed_committed log, rfl⟩

/-- A log that accounts for both maps, the version and the data accounts for the whole state. -/
theorem Backed.state_eq_replay {log : List IndexRecord} {t : Table} (h : Backed log t)
    (hi : t.state.index = (replay log).index)
    (hv : t.state.versionIndex = (replay log).versionIndex)
    (hversion : t.state.currentVersion = (replay log).currentVersion)
    (hdata : t.state.dataLen = (replay log).dataLen) : replay log = t.state := by
  have hlen := h.indexLen
  rw [← replay_indexLen] at hlen
  cases hstate : t.state
  simp only [hstate] at hi hv hlen hversion hdata
  rw [hi, hv, hlen, hversion, hdata]

/-- After every commit or revert that returns true, opening the files again rebuilds the guarded
state, exactly when that call is clean; all calls before it are. -/
theorem recover_rebuilds_state (calls : List Call) (c : Call)
    (hrun : Meets Table.step CleanStep Table.created calls)
    (hio : NoIoError (run Table.step Table.created calls) c)
    (hc : ∀ key value, c ≠ .insert key value)
    (htrue : ((run Table.step Table.created calls).outcome c).result = .ok true) :
    let t := run Table.step Table.created (calls ++ [c])
    ((Table.open t.dataLog t.indexLog .none).result = .ok () ∧
      (Table.open t.dataLog t.indexLog .none).table.state = t.state) ↔
        (run Table.step Table.created calls).CleanCall c := by
  obtain ⟨log, hlog⟩ := exists_agrees hrun
  rw [run_append, run_cons, run_nil]
  generalize run Table.step Table.created calls = t at *
  obtain ⟨log', ha⟩ := hlog.advance c hio
  rw [htrue] at ha
  generalize t.step c = t' at *
  have hs := ha.settled hlog.toSettled
  obtain ⟨hcommitted, hdataLen⟩ := ha.at_marker hc
  obtain ⟨hresult, htable⟩ := hs.open_eq hs.index
  rw [hcommitted] at htable
  dsimp only
  rw [htable]
  constructor
  · rintro ⟨-, hstate⟩
    cases ha with
    | idle _ hr => exact absurd rfl hr
    | inserted => exact absurd rfl (hc _ _)
    | committed => trivial
    | reverted hsplit =>
        intro _
        rw [← hsplit.index_eq_iff hlog.toBacked hlog.indexEq,
          ← hsplit.versionIndex_eq_iff hlog.toBacked hlog.versionIndexEq]
        exact ⟨(congrArg StoreState.index hstate).symm,
          (congrArg StoreState.versionIndex hstate).symm⟩
    | recovered => trivial
  · intro hclean
    refine ⟨hresult, ?_⟩
    have hi := ha.index_eq hlog.toSettled hclean.pairs hlog.indexEq
    have hv := ha.versionIndex_eq hlog.toSettled hclean hlog.versionIndexEq
    exact hs.toBacked.state_eq_replay hi hv hs.version hdataLen

/-- A run with a clean revert to a version that was skipped. -/
theorem recover_rebuilds_state_skipped :
    let t := run Table.step Table.created
      ([.commit 1, .insert [7] [1], .commit 3, .insert [7] [2]] ++ [.revert 2])
    (Table.open t.dataLog t.indexLog .none).result = .ok () ∧
      (Table.open t.dataLog t.indexLog .none).table.state = t.state :=
  (recover_rebuilds_state [.commit 1, .insert [7] [1], .commit 3, .insert [7] [2]] (.revert 2)
    (by decide +kernel) (by decide +kernel) (by intro _ _ h; cases h) (by decide +kernel)).mpr
    (by decide +kernel)

/-- One pair inserted in front of the boundary and behind it. -/
private def overwritten : List Call := [.commit 1, .insert [7] [1], .commit 1, .insert [7] [2]]

/-- The revert takes the insertion in front of the boundary with the one behind it, and recovery
brings it back. -/
theorem recover_rebuilds_state_fails :
    ¬∀ (calls : List Call) (c : Call), .recover ∉ calls →
      Meets Table.step NoIoError Table.created (calls ++ [c]) →
      (∀ key value, c ≠ .insert key value) →
      ((run Table.step Table.created calls).outcome c).result = .ok true →
      let t := run Table.step Table.created (calls ++ [c])
      (Table.open t.dataLog t.indexLog .none).table.state = t.state := by
  intro h
  have hstate := h overwritten (.revert 1) (by decide) (by decide +kernel) (by intro _ _ h; cases h)
    (by decide +kernel)
  have hentry : (Table.open (run Table.step Table.created (overwritten ++ [.revert 1])).dataLog
      (run Table.step Table.created (overwritten ++ [.revert 1])).indexLog
        .none).table.state.index[(([7], 1) : IndexKey)]? ≠
      (run Table.step Table.created
        (overwritten ++ [.revert 1])).state.index[(([7], 1) : IndexKey)]? := by
    decide +kernel
  exact hentry (congrArg (fun s : StoreState ↦ s.index[(([7], 1) : IndexKey)]?) hstate)

end Stainless.Kvstore
