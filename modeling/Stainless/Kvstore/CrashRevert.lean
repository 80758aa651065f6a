import Stainless.Kvstore.Crash

/-!
# Crashes inside a revert

A revert to a version with an entry of its own only cuts its files.  One to a version without an entry
cuts off the marker that made the records in front of it durable before it writes its own.
-/

open Reasoning Stainless.Runtime

namespace Stainless.Kvstore

/-! ## Two runs of revert -/

/-- A plan that is not for a read does not disturb the reads. -/
theorem Ensures.reads_keep {α : Type} {h : Handle} {m : TableM α} {f : Table → Except TableError α}
    {Q : Except TableError α → Handle → Prop} (hm : ReadsAs m f) (hf : ∀ n, h.fault ≠ .read n)
    (hq : Q (f h.toTable) h) : Ensures h m Q := by
  refine .reads hm (fun h' ha ↦ ?_) fun _ _ ⟨n, hn⟩ ↦ absurd hn (hf n)
  have heq : h' = h := by
    obtain ⟨t, fault⟩ := h
    obtain ⟨t', fault'⟩ := h'
    have htable : t' = t := ha.table
    subst htable
    cases fault with
    | none => exact congrArg (Handle.mk _) (ha.none rfl)
    | read n => exact absurd rfl (hf n)
    | change n written => exact congrArg (Handle.mk _) (ha.change n written rfl)
  rw [heq]
  exact hq

theorem Table.revertPlan_ok {t : Table} {version : UInt32} {plan : RevertPlan}
    (h : t.revertPlan version = .ok plan) :
    RawTable.boundaryContent t.indexLog.content t.state version =
        .ok (plan.boundary, plan.dataLen) ∧
      RawTable.scanContent t.indexLog.content t.state.indexLen t.state.indexLen plan.boundary
        ⟨[], []⟩ = .ok plan.found := by
  unfold Table.revertPlan at h
  cases hb : RawTable.boundaryContent t.indexLog.content t.state version with
  | error e =>
      rw [hb] at h
      cases h
  | ok b =>
      rw [hb, ok_bind] at h
      cases hs : RawTable.scanContent t.indexLog.content t.state.indexLen t.state.indexLen b.1
          ⟨[], []⟩ with
      | error e =>
          dsimp only at h
          rw [hs] at h
          cases h
      | ok found =>
          dsimp only at h
          rw [hs] at h
          cases h
          exact ⟨rfl, hs⟩

/-- A revert that reads a plan, fits the files and meets no failure returns true. -/
theorem revert_succeeds {t : Table} {version : UInt32} {plan : RevertPlan}
    (hplan : t.revertPlan version = .ok plan) (hversion : version ≤ t.state.currentVersion)
    (hboundary : plan.boundary ≤ maxFileLen)
    (hindex : t.exact version = false → plan.boundary + 21 ≤ maxFileLen)
    (hdata : plan.dataLen ≤ maxFileLen) :
    (t.call .none (RawTable.revert version)).result = .ok true := by
  obtain ⟨hb, hs⟩ := Table.revertPlan_ok hplan
  refine Ensures.call (Q := fun r _ ↦ r = .ok true) ?_
  unfold RawTable.revert
  refine .get (.ite (fun hlt ↦ absurd hversion (UInt32.not_le.mpr hlt)) fun _ ↦ ?_)
  refine .bind (.reads_none (RawTable.revertBoundary_reads _ _) ?_)
  rw [hb]
  refine .bind (.reads_none (RawTable.scanDiscarded_reads _ _ _ _) ?_)
  rw [hs]
  dsimp only
  refine .bind (.setLen_none hboundary ?_)
  cases hexact : t.state.versionIndex[version]?.isSome with
  | true =>
      rw [if_neg (by simp)]
      exact .bind (.syncData_none (.bind (.modifyState (.bind (.setLen_none hdata
        (.bind (.syncData_none (.pure rfl))))))))
  | false =>
      have hlen : (CommitRecord.write ⟨version, plan.dataLen⟩).length = 21 := by
        rw [CommitRecord.write_eq, IndexRecord.encode_length, IndexRecord.size]
      have hne : CommitRecord.write ⟨version, plan.dataLen⟩ ≠ [] := by
        rw [CommitRecord.write_eq]
        exact encode_ne_nil _
      have hend : plan.boundary + (CommitRecord.write ⟨version, plan.dataLen⟩).length ≤ maxFileLen := by
        rw [hlen]
        exact hindex hexact
      rw [if_pos (by simp)]
      exact .bind (.pwriteAll_none hne hend (.bind (.setLen_none hend (.bind (.syncData_none
        (.bind (.modifyState (.bind (.setLen_none hdata (.bind (.syncData_none (.pure rfl))))))))))))

/-- A revert whose marker fails has cut the index WAL. -/
theorem revert_stops {t : Table} {version : UInt32} {plan : RevertPlan}
    (hplan : t.revertPlan version = .ok plan) (hversion : version ≤ t.state.currentVersion)
    (hexact : t.exact version = false) (hboundary : plan.boundary ≤ maxFileLen) :
    ∃ part, (t.call (.change 1 0) (RawTable.revert version)).table = { t with
      indexLog := (t.indexLog.issue (.resize plan.boundary)).issue (.write plan.boundary part) } := by
  obtain ⟨hb, hs⟩ := Table.revertPlan_ok hplan
  have hisSome : t.state.versionIndex[version]?.isSome = false := hexact
  have hne : CommitRecord.write ⟨version, plan.dataLen⟩ ≠ [] := by
    rw [CommitRecord.write_eq]
    exact encode_ne_nil _
  refine Ensures.call (Q := fun _ t' ↦ ∃ part, t' = { t with
    indexLog := (t.indexLog.issue (.resize plan.boundary)).issue (.write plan.boundary part) }) ?_
  unfold RawTable.revert
  refine .get (.ite (fun hlt ↦ absurd hversion (UInt32.not_le.mpr hlt)) fun _ ↦ ?_)
  refine .bind (.reads_keep (RawTable.revertBoundary_reads _ _) (by simp) ?_)
  rw [hb]
  refine .bind (.reads_keep (RawTable.scanDiscarded_reads _ _ _ _) (by simp) ?_)
  rw [hs]
  dsimp only
  refine .bind (.setLen (fun fault hf _ ↦ ?_) (fun h ↦ by omega) fun _ hw ↦ by cases hw)
  cases fault with
  | none => cases hf
  | read n => cases hf
  | change n written =>
      cases hf
      rw [hisSome, if_pos (by simp)]
      refine .bind (.pwriteAll hne (fun fault hf _ ↦ ?_) fun part h' _ _ _ ht ↦ ⟨part, ht⟩)
      cases fault <;> cases hf

/-! ## What a crash leaves -/

/-- Two tables that were opened: the same state over the same data. -/
structure SameOpened (o o' : Outcome Unit) : Prop where
  result : o.result = o'.result
  state : o.table.state = o'.table.state
  content : o.table.dataLog.content = o'.table.dataLog.content

/-- Wherever a crash falls inside `revert version`, opening the table again gives what the files before
the call or the files after it give. -/
def Table.RevertAtomic (t : Table) (version : UInt32) : Prop :=
  let t' := t.step (.revert version)
  ∀ (n written : Nat) (data index : Bytes),
    (t.call (.change n written) (RawTable.revert version)).table.dataLog.Image data →
    (t.call (.change n written) (RawTable.revert version)).table.indexLog.Image index →
    SameOpened (Table.reopened data index)
        (Table.reopened t.dataLog.content t.indexLog.content) ∨
      SameOpened (Table.reopened data index)
        (Table.reopened t'.dataLog.content t'.indexLog.content)

section

variable {log kept rest : List IndexRecord} {t : Table} {version : UInt32} {dataLen : Nat}
  {data index data' index' content : Bytes}

theorem ReopensTo.same (h : ReopensTo data index content log)
    (h' : ReopensTo data' index' content log) :
    SameOpened (Table.reopened data index) (Table.reopened data' index') :=
  ⟨h.result.trans h'.result.symm, h.state.trans h'.state.symm, h.content.trans h'.content.symm⟩

/-- The lengths tell two logs apart. -/
theorem ReopensTo.not_same {log' : List IndexRecord} (h : ReopensTo data index content log)
    (h' : ReopensTo data' index' content log') (hlen : logSize log < logSize log') :
    ¬SameOpened (Table.reopened data index) (Table.reopened data' index') := by
  intro hs
  have heq := congrArg StoreState.indexLen hs.state
  rw [h.state, h'.state, replay_indexLen, replay_indexLen] at heq
  omega

/-- The committed part grows with the log. -/
theorem committed_mono {pre : List IndexRecord} (h : pre <+: log) : committed pre <+: committed log := by
  induction log using List.reverseRecOn with
  | nil => rw [List.prefix_nil.mp h]
  | append_singleton log r ih =>
      rcases List.prefix_concat_iff.mp h with rfl | hp
      · exact List.prefix_rfl
      · cases r with
        | insert i =>
            rw [committed_insert]
            exact ih hp
        | commit m =>
            rw [committed_commit]
            exact ((committed_isPrefix pre).trans hp).trans (List.prefix_append _ _)

/-- Files with exactly one log, and at least the data that its last marker covers. -/
theorem Settled.reopen_exact (h : Settled log t) {whole : List IndexRecord} {n : Nat}
    (hn : (replay whole).dataLen = n) (hwhole : ∀ r ∈ whole, r.Valid ∧ r.extent ≤ n)
    (hsize : logSize whole ≤ maxFileLen) (hfits : n ≤ t.dataLog.content.length)
    (hc : committed whole = whole) (hdata : t.dataLog.content.take n <+: data) :
    ReopensTo data (encodeLog whole) t.dataLog.content whole := by
  subst hn
  have hlen := hdata.length_le
  rw [List.length_take, Nat.min_eq_left hfits] at hlen
  have hr : Remains whole whole data (encodeLog whole) :=
    ⟨fun r hr ↦ (hwhole r hr).1, fun r hr ↦ (hwhole r hr).2.trans (hfits.trans h.dataFile),
      List.prefix_rfl, List.prefix_rfl, List.prefix_rfl, by rwa [encodeLog_length],
      fun r hr ↦ (hwhole r hr).2.trans hlen⟩
  exact hr.reopens hc hfits hdata

theorem RevertSplit.rewound_fits (s : RevertSplit log t version dataLen kept rest) (h : Settled log t) :
    ∀ r ∈ t.rewound version kept dataLen, r.Valid ∧ r.extent ≤ dataLen := by
  obtain ⟨hextent, hle⟩ := s.dataLen_bounds h.toBacked
  have hmax : maxFileLen < 2 ^ 64 := by decide
  have hkept : ∀ r ∈ kept, r.Valid ∧ r.extent ≤ dataLen := fun r hr ↦
    ⟨h.valid r (s.kept_prefix.subset hr), hextent r hr⟩
  intro r hr
  rw [Table.rewound] at hr
  split at hr
  · exact hkept r hr
  · rcases List.mem_append.mp hr with hr | hr
    · exact hkept r hr
    · rw [List.mem_singleton.mp hr]
      exact ⟨lt_of_le_of_lt ((hle.trans h.dataLen).trans h.dataFile) hmax, le_rfl⟩

/-- The log that a revert leaves is whole in its files. -/
theorem RevertSplit.reopen_rewound (s : RevertSplit log t version dataLen kept rest)
    (h : Settled log t) (hdata : t.dataLog.content.take dataLen <+: data) :
    ReopensTo data (encodeLog (t.rewound version kept dataLen)) t.dataLog.content
      (t.rewound version kept dataLen) := by
  have hn := s.replay_rewound.2
  have hfits := (s.dataLen_bounds h.toBacked).2.trans h.dataLen
  have hsize := s.logSize_rewound_le.trans (h.logSize_le.trans h.indexFile)
  exact h.reopen_exact hn (s.rewound_fits h) hsize hfits s.committed_rewound hdata

/-- A revert without failure leaves files that open to its log. -/
theorem RevertSplit.reopen_after (s : RevertSplit log t version dataLen kept rest)
    (h : Settled log t) (hplan : t.revertPlan version = .ok (splitPlan kept rest dataLen))
    (hversion : version ≤ t.state.currentVersion) :
    ReopensTo (t.step (.revert version)).dataLog.content (t.step (.revert version)).indexLog.content
      t.dataLog.content (t.rewound version kept dataLen) := by
  have hle := (s.dataLen_bounds h.toBacked).2
  have hmax := s.logSize_rewound_le.trans (h.logSize_le.trans h.indexFile)
  have hkept : logSize kept ≤ maxFileLen := by
    have := (encodeLog_isPrefix s.kept_prefix).length_le
    rw [encodeLog_length, encodeLog_length] at this
    exact this.trans (h.logSize_le.trans h.indexFile)
  have hresult : (t.outcome (.revert version)).result = .ok true := by
    refine revert_succeeds hplan hversion hkept (fun hx ↦ ?_) (hle.trans (h.dataLen.trans h.dataFile))
    rw [RevertSplit.rewound_of_not_exact hx, logSize_append] at hmax
    exact hmax
  have ho : RevertOutcome t version .none (t.outcome (.revert version)).result
    (t.step (.revert version)) := (revert_outcome ⟨t, .none⟩ version).call
  rw [hresult] at ho
  generalize t.step (.revert version) = t' at *
  cases ho with
  | done hplan' =>
      rw [hplan] at hplan'
      cases hplan'
      change ReopensTo (t.dataLog.issue (.resize dataLen)).sync.content
        (t.revertedIndex version (splitPlan kept rest dataLen)).content _ _
      rw [s.revertedIndex_content h.toBacked]
      refine s.reopen_rewound h ?_
      rw [s.data_content h.toBacked]

/-- What a revert goes back to is covered by the last marker. -/
theorem RevertSplit.dataLen_le_committed (s : RevertSplit log t version dataLen kept rest)
    (h : Settled log t) : dataLen ≤ (replay (committed log)).dataLen := by
  have hmarker (front : List IndexRecord) (v : UInt32) (hp : front ++ [.commit ⟨v, dataLen⟩] <+: log) :
      dataLen ≤ (replay (committed log)).dataLen := by
    have hcommitted := committed_mono hp
    rw [committed_commit] at hcommitted
    exact h.committed_fits.1 _ (hcommitted.subset (List.mem_append_right _ List.mem_cons_self))
  cases hx : t.exact version with
  | true =>
      rcases s.own hx with ⟨-, -, rfl⟩ | ⟨-, pre, hkept, -⟩
      · exact Nat.zero_le _
      · exact hmarker pre version (hkept ▸ s.kept_prefix)
  | false =>
      obtain ⟨next, post, hrest, -⟩ := s.successor hx
      exact hmarker kept next ⟨post, by rw [s.log_eq, hrest]; simp⟩

/-- The data that a revert keeps survives every stop. -/
theorem RevertSplit.data_survives (s : RevertSplit log t version dataLen kept rest) (h : Settled log t)
    (hd : t.dataLog.Image data) : t.dataLog.content.take dataLen <+: data :=
  (List.take_prefix_take_left (s.dataLen_le_committed h)).trans (h.data_image h.dataGrows rfl hd).1

theorem Settled.reopen_before (h : Settled log t) :
    ReopensTo t.dataLog.content t.indexLog.content t.dataLog.content (committed log) :=
  h.unmarked.reopen h (DurableFile.image_content _) (DurableFile.image_content _)

variable {t' : Table} {f : DurableFile}

/-- The index WAL holds what a revert keeps, and a part of its marker. -/
def Torn (t : Table) (version : UInt32) (kept : List IndexRecord) (dataLen : Nat) (index : Bytes) : Prop :=
  encodeLog kept <+: index ∧ index <+: encodeLog (t.rewound version kept dataLen)

theorem torn_marking {part : Bytes} (hexact : t.exact version = false)
    (hpart : part <+: (IndexRecord.commit ⟨version, dataLen⟩).encode) :
    Torn t version kept dataLen (encodeLog kept ++ part) := by
  rw [Torn, RevertSplit.rewound_of_not_exact hexact, encodeLog_append, encodeLog_cons, encodeLog_nil,
    List.append_nil]
  exact ⟨List.prefix_append _ _, (List.prefix_append_right_inj _).mpr hpart⟩

theorem torn_kept (t : Table) (version : UInt32) (kept : List IndexRecord) (dataLen : Nat) :
    Torn t version kept dataLen (encodeLog kept) := by
  refine ⟨List.prefix_rfl, ?_⟩
  rw [Table.rewound]
  split
  · exact List.prefix_rfl
  · exact encodeLog_isPrefix (List.prefix_append _ _)

theorem torn_rewound (t : Table) (version : UInt32) (kept : List IndexRecord) (dataLen : Nat) :
    Torn t version kept dataLen (encodeLog (t.rewound version kept dataLen)) :=
  ⟨(torn_kept t version kept dataLen).2, List.prefix_rfl⟩

theorem RevertSplit.image_cut (s : RevertSplit log t version dataLen kept rest) (h : Backed log t)
    (hi : (t.indexLog.issue (.resize (logSize kept))).Image index) :
    t.indexLog.Image index ∨ Torn t version kept dataLen index := by
  rcases DurableFile.image_issue_cases hi with hi | hindex | ⟨_, _, _, hop, -⟩
  · exact .inl hi
  · rw [hindex, ← DurableFile.content_issue, s.cut_content h]
    exact .inr (torn_kept t version kept dataLen)
  · cases hop

theorem RevertSplit.image_marking (s : RevertSplit log t version dataLen kept rest) (h : Backed log t)
    {part : Bytes} (hexact : t.exact version = false)
    (hpart : part <+: (IndexRecord.commit ⟨version, dataLen⟩).encode)
    (hi : ((t.indexLog.issue (.resize (logSize kept))).issue (.write (logSize kept) part)).Image index) :
    t.indexLog.Image index ∨ Torn t version kept dataLen index := by
  rcases DurableFile.image_issue_cases hi with hi | hindex | ⟨offset, bytes, n, hop, hindex⟩
  · exact s.image_cut h hi
  · rw [hindex, ← DurableFile.content_issue, s.marked_content h]
    exact .inr (torn_marking hexact hpart)
  · cases hop
    rw [hindex, s.cut_content h, ← encodeLog_length, overwrite_end]
    exact .inr (torn_marking hexact ((List.take_prefix _ _).trans hpart))

theorem RevertSplit.image_file (s : RevertSplit log t version dataLen kept rest) (h : Backed log t)
    (hf : RevertFile t version (splitPlan kept rest dataLen) f) (hi : f.Image index) :
    t.indexLog.Image index ∨ Torn t version kept dataLen index := by
  cases hf with
  | cut => exact s.image_cut h hi
  | marking part hexact hpart => exact s.image_marking h hexact hpart hi
  | marked hexact =>
      rcases DurableFile.image_issue_cases hi with hi | hindex | ⟨_, _, _, hop, -⟩
      · exact s.image_marking h hexact List.prefix_rfl hi
      · have hcontent := s.revertedIndex_content h
        rw [Table.revertedIndex, if_neg (by simp [hexact]), DurableFile.content_issue] at hcontent
        rw [hindex, hcontent]
        exact .inr (torn_rewound t version kept dataLen)
      · cases hop

/-- In front of the cut the files are as they were; behind it the data that is kept is there. -/
theorem RevertSplit.stopped (s : RevertSplit log t version dataLen kept rest) (h : Settled log t)
    (hplan : t.revertPlan version = .ok (splitPlan kept rest dataLen)) {fault : Fault}
    {r : Except TableError Bool} (ho : RevertOutcome t version fault r t') (hd : t'.dataLog.Image data)
    (hi : t'.indexLog.Image index) :
    t.dataLog.Image data ∧ t.indexLog.Image index ∨
      Torn t version kept dataLen index ∧ t.dataLog.content.take dataLen <+: data := by
  have hcontent := s.revertedIndex_content h.toBacked
  have hsynced (hi : (t.revertedIndex version (splitPlan kept rest dataLen)).sync.Image index) :
      Torn t version kept dataLen index := by
    rw [DurableFile.image_of_sync hi, hcontent]
    exact torn_rewound t version kept dataLen
  cases ho with
  | refused => exact .inl ⟨hd, hi⟩
  | unchanged => exact .inl ⟨hd, hi⟩
  | cut hplan' _ hf =>
      rw [hplan] at hplan'
      cases hplan'
      exact (s.image_file h.toBacked hf hi).imp (fun hi ↦ ⟨hd, hi⟩) fun hi ↦ ⟨hi, s.data_survives h hd⟩
  | dataFailed hplan' _ hf =>
      rw [hplan] at hplan'
      cases hplan'
      refine .inr ⟨hsynced hi, ?_⟩
      rcases hf with rfl | rfl
      · exact s.data_survives h hd
      · rcases DurableFile.image_issue_cases hd with hd | hdata | ⟨_, _, _, hop, -⟩
        · exact s.data_survives h hd
        · rw [hdata, ← s.data_content h.toBacked, DurableFile.content_sync, DurableFile.content_issue]
          exact List.prefix_rfl
        · cases hop
  | done hplan' =>
      rw [hplan] at hplan'
      cases hplan'
      refine .inr ⟨hsynced hi, ?_⟩
      rw [DurableFile.image_of_sync hd]
      exact (s.data_content h.toBacked).symm ▸ List.prefix_rfl

/-- A revert to a version with an entry of its own is atomic. -/
theorem RevertSplit.atomic (s : RevertSplit log t version dataLen kept rest) (h : Settled log t)
    (hplan : t.revertPlan version = .ok (splitPlan kept rest dataLen))
    (hversion : version ≤ t.state.currentVersion) (hx : t.exact version = true) :
    t.RevertAtomic version := by
  intro n written data index hd hi
  have ho : RevertOutcome t version _ _ _ := (revert_outcome ⟨t, .change n written⟩ version).call
  rcases s.stopped h hplan ho hd hi with ⟨hd, hi⟩ | ⟨⟨hkept, hindex⟩, hdata⟩
  · exact .inl ((h.unmarked.reopen h hd hi).same h.reopen_before)
  · -- no marker is written, so the index WAL is cut or as it was
    right
    rw [RevertSplit.rewound_of_exact hx] at hindex
    have heq : index = encodeLog (t.rewound version kept dataLen) := by
      rw [RevertSplit.rewound_of_exact hx]
      exact hindex.eq_of_length (Nat.le_antisymm hindex.length_le hkept.length_le)
    rw [heq]
    exact (s.reopen_rewound h hdata).same (s.reopen_after h hplan hversion)

/-- A revert that changes nothing is atomic. -/
theorem Settled.atomic_of_idle (h : Settled log t)
    (hidle : ∀ plan, t.revertPlan version = .ok plan → t.state.currentVersion < version) :
    t.RevertAtomic version := by
  intro n written data index hd hi
  obtain ⟨r, ho⟩ : ∃ r, RevertOutcome t version (.change n written) r
      (t.call (.change n written) (RawTable.revert version)).table :=
    ⟨_, (revert_outcome ⟨t, .change n written⟩ version).call⟩
  generalize (t.call (.change n written) (RawTable.revert version)).table = crashed at *
  cases ho with
  | refused => exact .inl ((h.unmarked.reopen h hd hi).same h.reopen_before)
  | unchanged => exact .inl ((h.unmarked.reopen h hd hi).same h.reopen_before)
  | cut hplan hversion => exact absurd hversion (UInt32.not_le.mpr (hidle _ hplan))
  | dataFailed hplan hversion => exact absurd hversion (UInt32.not_le.mpr (hidle _ hplan))
  | done hplan hversion => exact absurd hversion (UInt32.not_le.mpr (hidle _ hplan))

/-- A revert to a version without an entry is not: when only the cut has reached the disk, the marker
that committed the end of what is kept is gone. -/
theorem RevertSplit.not_atomic (s : RevertSplit log t version dataLen kept rest) (h : Settled log t)
    (hplan : t.revertPlan version = .ok (splitPlan kept rest dataLen))
    (hversion : version ≤ t.state.currentVersion) (hx : t.exact version = false) :
    ¬t.RevertAtomic version := by
  intro hatomic
  obtain ⟨next, post, hrest, -⟩ := s.successor hx
  have hprefix : kept ++ [.commit ⟨next, dataLen⟩] <+: log := ⟨post, by rw [s.log_eq, hrest]; simp⟩
  have hsizes : logSize (committed kept) ≤ logSize kept ∧ logSize kept + 21 ≤ logSize (committed log) := by
    have h₁ := (encodeLog_isPrefix (committed_isPrefix kept)).length_le
    have h₂ := committed_mono hprefix
    rw [committed_commit] at h₂
    have h₂ := (encodeLog_isPrefix h₂).length_le
    rw [encodeLog_length, encodeLog_length] at h₁ h₂
    rw [logSize_append] at h₂
    exact ⟨h₁, h₂⟩
  have hmax : logSize kept ≤ maxFileLen := by
    have := (encodeLog_isPrefix s.kept_prefix).length_le
    rw [encodeLog_length, encodeLog_length] at this
    exact this.trans (h.logSize_le.trans h.indexFile)
  have hcrash : ReopensTo t.dataLog.content (encodeLog kept) t.dataLog.content (committed kept) := by
    have hkept : ∀ r ∈ kept, r ∈ log := fun r hr ↦ s.kept_prefix.subset hr
    have hn : (replay (committed kept)).dataLen ≤ t.dataLog.content.length := by
      rw [(replay_committed kept).2.2]
      exact (replay_dataLen_le fun r hr ↦ h.inside r (hkept r hr)).trans h.dataLen
    have hr : Remains (committed kept) kept t.dataLog.content (encodeLog kept) :=
      ⟨fun r hr ↦ h.valid r (hkept r hr), fun r hr ↦ h.inside_max r (hkept r hr),
        committed_isPrefix kept, encodeLog_isPrefix (committed_isPrefix kept), List.prefix_rfl,
        by rwa [encodeLog_length],
        fun r hr ↦ (h.inside r (hkept r ((committed_isPrefix kept).subset hr))).trans h.dataLen⟩
    exact hr.reopens rfl hn (List.take_prefix _ _)
  obtain ⟨part, htable⟩ := revert_stops hplan hversion hx hmax
  have hatomic := hatomic 1 0 t.dataLog.content (encodeLog kept)
  rw [htable, ← s.cut_content h.toBacked] at hatomic
  rcases hatomic (DurableFile.image_content _)
    (DurableFile.image_issue (DurableFile.image_content _) _) with hs | hs
  · rw [s.cut_content h.toBacked] at hs
    exact hcrash.not_same h.reopen_before (by omega) hs
  · rw [s.cut_content h.toBacked] at hs
    refine hcrash.not_same (s.reopen_after h hplan hversion) ?_ hs
    rw [RevertSplit.rewound_of_not_exact hx, logSize_append]
    simp only [logSize_cons, logSize_nil, IndexRecord.size]
    omega

end

/-- A revert is atomic under crashes exactly when it is refused, goes to a version with an entry of its
own, or finds no indexed version to go by. -/
theorem revert_atomic_iff (calls : List Call) (version : UInt32)
    (hrun : Meets Table.step NoIoError Table.created calls) :
    let t := run Table.step Table.created calls
    t.RevertAtomic version ↔ t.state.currentVersion < version ∨ t.exact version = true ∨
      ∀ (v : UInt32) (offset : Nat), t.state.versionIndex[v]? = some offset → ¬version ≤ v := by
  obtain ⟨log, h⟩ := exists_settled hrun
  generalize run Table.step Table.created calls = t at *
  dsimp only
  rcases h.revertPlan_cases version with ⟨⟨e, he⟩, hnone⟩ | ⟨kept, rest, dataLen, hplan, s⟩
  · refine ⟨fun _ ↦ .inr (.inr hnone), fun _ ↦ h.atomic_of_idle fun plan hp ↦ ?_⟩
    rw [he] at hp
    cases hp
  · by_cases hversion : version ≤ t.state.currentVersion
    · cases hx : t.exact version with
      | true => exact ⟨fun _ ↦ .inr (.inl rfl), fun _ ↦ s.atomic h hplan hversion hx⟩
      | false =>
          refine ⟨fun ha ↦ absurd ha (s.not_atomic h hplan hversion hx), fun hcond ↦ ?_⟩
          rcases hcond with hlt | hfalse | hnone
          · exact absurd hversion (UInt32.not_le.mpr hlt)
          · cases hfalse
          · obtain ⟨next, post, -, hlt, hnext, -⟩ := s.successor hx
            exact absurd (UInt32.le_of_lt hlt) (hnone next _ hnext)
    · have hlt := UInt32.not_le.mp hversion
      exact ⟨fun _ ↦ .inl hlt, fun _ ↦ h.atomic_of_idle fun _ _ ↦ hlt⟩

theorem revert_atomic_iff_exact :
    (run Table.step Table.created
      [.commit 1, .insert [7] [1], .commit 3, .insert [7] [2]]).RevertAtomic 1 :=
  (revert_atomic_iff [.commit 1, .insert [7] [1], .commit 3, .insert [7] [2]] 1
    (by decide +kernel)).mpr (.inr (.inl (by decide +kernel)))

/-- Going back to the skipped version 2, the crash falls between the cut and the new marker: version 1
is recovered, without the value that the marker of version 3 had committed. -/
theorem revert_atomic_fails :
    ¬∀ (calls : List Call) (version : UInt32), .recover ∉ calls →
      Meets Table.step NoIoError Table.created calls →
      (run Table.step Table.created calls).RevertAtomic version := by
  intro h
  rcases h [.commit 1, .insert [7] [1], .commit 3] 2 (by decide) (by decide +kernel) 1 0 _ _
    (DurableFile.image_content _) (DurableFile.image_content _) with hs | hs
  · exact absurd (congrArg StoreState.currentVersion hs.state) (by decide +kernel)
  · exact absurd (congrArg StoreState.currentVersion hs.state) (by decide +kernel)

end Stainless.Kvstore
