import Stainless.Kvstore.Reopened
import Stainless.Reasoning.Versions

/-!
# Tables with ascending versions

When every commit has a version above all earlier ones, no revert is unclean: what the log keeps and
what it discards share neither a pair nor a version.  So `revert` goes back to the boundary of any
version up to the current one.
-/

open Reasoning Stainless.Runtime

namespace Stainless.Kvstore

/-! ## 1. Versions along a log -/

theorem marksFrom_versions (data : Bytes) (pre log : List IndexRecord) :
    (marksFrom data pre log).map Mark.version = committedVersions log := by
  induction log generalizing pre with
  | nil => rfl
  | cons r log ih =>
      cases r with
      | insert i => exact ih _
      | commit m => exact congrArg (List.cons m.version) (ih _)

theorem last_marksOf (data : Bytes) (log : List IndexRecord) :
    Mark.last (marksOf data log) = (replay log).currentVersion := by
  induction log using List.reverseRecOn with
  | nil => rfl
  | append_singleton log r ih =>
      cases r with
      | insert i =>
          rw [marksOf_insert, ih, replay_concat]
          rfl
      | commit m =>
          rw [marksOf_commit, Mark.last_concat, replay_concat]
          rfl

/-- What is inserted behind a place carries at least the version that is current there. -/
theorem Chronological.le_inserted {pre rest : List IndexRecord} (h : Chronological (pre ++ rest)) :
    (replay pre).currentVersion ≤ (replay (pre ++ rest)).currentVersion ∧
      ∀ k ∈ insertedKeys rest, (replay pre).currentVersion ≤ k.2 := by
  induction rest using List.reverseRecOn with
  | nil =>
      rw [List.append_nil]
      exact ⟨UInt32.le_refl _, fun k hk ↦ absurd hk List.not_mem_nil⟩
  | append_singleton rest r ih =>
      rw [← List.append_assoc] at h ⊢
      obtain ⟨hcurrent, hkeys⟩ := ih (h.of_prefix (List.prefix_append _ _))
      refine ⟨UInt32.le_trans hcurrent (current_le h.last), fun k hk ↦ ?_⟩
      rw [insertedKeys_append] at hk
      rcases List.mem_append.mp hk with hk | hk
      · exact hkeys k hk
      · cases r with
        | insert i =>
            have hversion : i.version = (replay (pre ++ rest)).currentVersion := h.last
            rw [List.mem_singleton.mp hk]
            dsimp only
            rw [hversion]
            exact hcurrent
        | commit m => exact absurd hk List.not_mem_nil

/-- Versions only go up, from 0 on. -/
structure Rising (log : List IndexRecord) : Prop where
  chronological : Chronological log
  ascending : (committedVersions log).Pairwise (· < ·)
  positive : ∀ v ∈ committedVersions log, 0 < v

theorem rising_iff (data : Bytes) (log : List IndexRecord) :
    Rising log ↔ Chronological log ∧ Mark.Ascending (marksOf data log) := by
  have hversions : (marksOf data log).map Mark.version = committedVersions log :=
    marksFrom_versions data [] log
  rw [Mark.Ascending, ← List.pairwise_map (f := Mark.version) (R := (· < ·)), hversions]
  constructor
  · intro h
    refine ⟨h.chronological, h.ascending, fun m hm ↦ h.positive _ ?_⟩
    rw [← hversions]
    exact List.mem_map_of_mem hm
  · intro h
    refine ⟨h.1, h.2.1, fun v hv ↦ ?_⟩
    rw [← hversions] at hv
    obtain ⟨m, hm, rfl⟩ := List.mem_map.mp hv
    exact h.2.2 m hm

/-- In front of a marker the current version is below its version. -/
theorem Rising.current_lt {pre : List IndexRecord} {m : CommitRecord} {post : List IndexRecord}
    (h : Rising (pre ++ .commit m :: post)) : (replay pre).currentVersion < m.version := by
  have hversions : committedVersions (pre ++ .commit m :: post) =
      committedVersions pre ++ m.version :: committedVersions post := committedVersions_append pre _
  rcases current_mem pre with h0 | hin
  · rw [h0]
    exact h.positive _ (by rw [hversions]; simp)
  · have hpairs := h.ascending
    rw [hversions] at hpairs
    exact (List.pairwise_append.mp hpairs).2.2 _ hin _ List.mem_cons_self

/-! ## 2. Reverts are clean -/

section

variable {log kept rest : List IndexRecord} {t : Table} {version : UInt32} {dataLen : Nat}

theorem RevertSplit.versionClean (s : RevertSplit log t version dataLen kept rest) (h : Backed log t)
    (hlog : Rising log) : t.VersionClean version := by
  obtain ⟨hkept, hrest⟩ := s.records_eq h
  have hpairs := hlog.ascending
  have hpositive := hlog.positive
  rw [s.log_eq, committedVersions_append] at hpairs hpositive
  rw [Table.VersionClean, hkept, hrest]
  intro v hv
  constructor
  · exact (UInt32.ne_of_lt (hpositive v (List.mem_append_right _ hv))).symm
  · intro hin
    exact absurd ((List.pairwise_append.mp hpairs).2.2 v hin v hv) (UInt32.lt_irrefl v)

theorem RevertSplit.pairClean (s : RevertSplit log t version dataLen kept rest) (h : Backed log t)
    (hlog : Rising log) : t.PairClean version := by
  obtain ⟨hkept, hrest⟩ := s.records_eq h
  have heq := s.log_eq
  rw [Table.PairClean, hkept, hrest]
  -- a marker lies between what is kept and what is inserted behind it
  suffices hbetween : ∀ pre m post, log = pre ++ .commit m :: post →
      insertedKeys kept = insertedKeys pre → insertedKeys rest = insertedKeys post →
      ∀ k ∈ insertedKeys rest, k ∉ insertedKeys kept by
    cases hx : t.exact version with
    | true =>
        rcases s.own hx with ⟨-, hnil, -⟩ | ⟨-, pre, hpre, -⟩
        · rw [hnil]
          exact fun k _ hin ↦ absurd hin List.not_mem_nil
        · refine hbetween pre ⟨version, dataLen⟩ rest ?_ ?_ rfl
          · rw [heq, hpre]
            simp
          · rw [hpre, insertedKeys_append]
            exact List.append_nil _
    | false =>
        obtain ⟨next, post, hpost, -⟩ := s.successor hx
        refine hbetween kept ⟨next, dataLen⟩ post ?_ rfl ?_
        · rw [heq, hpost]
        · rw [hpost]
          rfl
  intro pre m post hsplit hfront hback k hk hin
  rw [hsplit] at hlog
  rw [hfront] at hin
  rw [hback] at hk
  have hbelow : k.2 ≤ (replay pre).currentVersion :=
    (hlog.chronological.of_prefix (List.prefix_append _ _)).inserted_le k hin
  have habove : m.version ≤ k.2 := by
    have hafter := hlog.chronological
    rw [List.append_cons] at hafter
    have hle := hafter.le_inserted.2 k hk
    rw [replay_concat] at hle
    exact hle
  have hlt := UInt32.lt_of_le_of_lt hbelow hlog.current_lt
  exact absurd (UInt32.lt_of_lt_of_le hlt habove) (UInt32.lt_irrefl _)

end

/-! ## 3. Calls on one table -/

/-- The log of the table gives its history, whose versions go up. -/
def Keeps (marks : List (Mark View)) (t : Table) : Prop := ∃ log, Follows marks log t ∧ Mark.Ascending marks

section

variable {marks : List (Mark View)} {log : List IndexRecord} {t : Table} {version : UInt32}

theorem Follows.rising (h : Follows marks log t) (hmarks : Mark.Ascending marks) : Rising log := by
  rw [h.marks] at hmarks
  exact (rising_iff _ _).mpr ⟨h.chronological, hmarks⟩

theorem Keeps.ascending (h : Keeps marks t) : Mark.Ascending marks := by
  obtain ⟨log, -, hmarks⟩ := h
  exact hmarks

theorem Keeps.current (h : Keeps marks t) : t.state.currentVersion = Mark.last marks := by
  obtain ⟨log, hf, -⟩ := h
  rw [hf.version, hf.marks, last_marksOf]

theorem keeps_created : Keeps [] Table.created :=
  ⟨[], ⟨agrees_created, chronological_nil, rfl⟩, Mark.ascending_nil⟩

theorem Keeps.insert (h : Keeps marks t) {key value : Bytes} (hio : NoIoError t (.insert key value)) :
    Keeps marks (t.step (.insert key value)) := by
  obtain ⟨log, hf, hmarks⟩ := h
  obtain ⟨log', ha⟩ := hf.toSettled.advance (.insert key value) hio
  have hnext := hf.advanced (c := .insert key value) trivial ha
  have hsame : history marks t (.insert key value) = marks := by
    unfold history
    split <;> rfl
  rw [hsame] at hnext
  exact ⟨log', hnext, hmarks⟩

/-- A commit of a higher version changes no answer. -/
theorem Keeps.commit (h : Keeps marks t) (hversion : Mark.last marks < version)
    (hio : NoIoError t (.commit version)) :
    (t.outcome (.commit version)).result = .ok true ∧
      (t.step (.commit version)).view = t.view ∧
      Keeps (marks ++ [⟨version, t.view, t.view⟩]) (t.step (.commit version)) := by
  have hcurrent := h.current
  obtain ⟨log, hf, hmarks⟩ := h
  obtain ⟨log', ha⟩ := hf.toSettled.advance (.commit version) hio
  have hnext := hf.advanced (c := .commit version) trivial ha
  have hresult : (t.outcome (.commit version)).result = .ok true := by
    have ho : CommitOutcome t version .none (t.outcome (.commit version)).result
      (t.step (.commit version)) := (commit_outcome ⟨t, .none⟩ version).call
    unfold NoIoError at hio
    generalize (t.outcome (.commit version)).result = r at ho hio
    generalize t.step (.commit version) = t' at ho
    cases ho with
    | refused hlt =>
        rw [hcurrent] at hlt
        exact absurd (UInt32.lt_trans hversion hlt) (UInt32.lt_irrefl _)
    | dataFailed => exact absurd rfl hio
    | indexFailed => exact absurd rfl hio
    | unsynced => exact absurd rfl hio
    | done => rfl
  have hview : (t.step (.commit version)).view = t.view := by
    rw [hnext.view_eq, hf.view_eq]
    rw [hresult] at ha
    generalize t.step (.commit version) = t' at ha ⊢
    cases ha with
    | idle _ hr => exact absurd rfl hr
    | committed hle =>
        dsimp only
        rw [hf.committedData_content, Table.newMarker, viewOf_commit hf.chronological]
        rw [← hf.version]
        exact hle
  have hhistory : history marks t (.commit version) = marks ++ [⟨version, t.view, t.view⟩] := by
    unfold history
    rw [if_pos hresult]
    dsimp only
    rw [hview]
  rw [hhistory] at hnext
  exact ⟨hresult, hview, log', hnext, hmarks.concat hversion⟩

/-- What `find` answers when a table is created. -/
def emptyView : View := fun _ ↦ .ok none

/-- The current version is indexed, so there is a place to go back to. -/
theorem Follows.exists_split (hf : Follows marks log t) (hversion : version ≤ t.state.currentVersion) :
    ∃ kept rest dataLen, t.revertPlan version = .ok (splitPlan kept rest dataLen) ∧
      RevertSplit log t version dataLen kept rest := by
  rcases hf.revertPlan_cases version with ⟨-, hnone⟩ | hsplit
  · exfalso
    have hindexed : t.state.versionIndex[t.state.currentVersion]? ≠ none := by
      rw [hf.versionIndexEq, hf.version]
      exact replay_versionIndex_ne_none (current_mem log)
    obtain ⟨offset, hoffset⟩ := Option.ne_none_iff_exists'.mp hindexed
    exact hnone _ _ hoffset hversion
  · exact hsplit

theorem Keeps.cleanCall (h : Keeps marks t) : t.CleanCall (.revert version) := by
  intro hversion
  obtain ⟨log, hf, hmarks⟩ := h
  obtain ⟨kept, rest, dataLen, -, hsplit⟩ := hf.exists_split hversion
  have hrising := hf.rising hmarks
  exact ⟨hsplit.pairClean hf.toBacked hrising, hsplit.versionClean hf.toBacked hrising⟩

/-- `revert` takes the table to the boundary of a version. -/
theorem Keeps.revert (h : Keeps marks t) {view : View} {kept : List (Mark View)}
    (hcut : Mark.Cut emptyView version marks view kept) :
    (t.outcome (.revert version)).result = .ok true ∧ (t.step (.revert version)).view = view ∧
      Keeps kept (t.step (.revert version)) := by
  -- a mark of the version, or one in front of it, is left
  have hversion : version ≤ t.state.currentVersion := by
    rw [h.current]
    exact hcut.le_last h.ascending
  have hclean : t.CleanCall (.revert version) := h.cleanCall
  obtain ⟨log, hf, hmarks⟩ := h
  obtain ⟨kept', rest, dataLen, hplan, hsplit⟩ := hf.exists_split hversion
  have hresult : (t.outcome (.revert version)).result = .ok true := by
    -- the files only get shorter, and a marker in place of records fits where they were
    have hsize := hsplit.logSize_rewound_le.trans (hf.logSize_le.trans hf.indexFile)
    have hle := (hsplit.dataLen_bounds hf.toBacked).2
    have hkept := (encodeLog_isPrefix hsplit.kept_prefix).length_le
    rw [encodeLog_length, encodeLog_length] at hkept
    refine revert_succeeds hplan hversion (hkept.trans (hf.logSize_le.trans hf.indexFile)) (fun hx ↦ ?_)
      (hle.trans (hf.dataLen.trans hf.dataFile))
    rw [RevertSplit.rewound_of_not_exact hx, logSize_append] at hsize
    exact hsize
  obtain ⟨log', ha⟩ := hf.toSettled.advance (.revert version) (by rw [NoIoError, hresult]; simp)
  have hnext := hf.advanced hclean ha
  have hview : (t.step (.revert version)).view = view := by
    have ht' := hf.toAgrees.advanced hclean ha
    rw [hresult] at ha
    generalize t.step (.revert version) = t' at *
    cases ha with
    | idle _ hr => exact absurd rfl hr
    | reverted hsplit =>
        obtain ⟨-, hboundary, -⟩ := hsplit.boundary_marks hf (hclean hversion).2 ht'
          (hsplit.data_content hf.toBacked)
        have heq := hcut.boundary_eq
        rw [boundaryView] at hboundary
        exact Option.some.inj (hboundary.symm.trans heq)
  have hhistory : history marks t (.revert version) = kept := by
    unfold history
    rw [if_pos hresult]
    dsimp only
    rw [hview]
    exact hcut.surviving_eq
  rw [hhistory] at hnext
  exact ⟨hresult, hview, log', hnext, hcut.ascending hmarks⟩

theorem Table.commit_refused (hversion : version < t.state.currentVersion) :
    (t.outcome (.commit version)).result = .ok false ∧ t.step (.commit version) = t := by
  refine Ensures.call (Q := fun r t' ↦ r = .ok false ∧ t' = t) ?_
  rw [Call.run, RawTable.commit]
  exact .get (.ite (fun _ ↦ .pure ⟨rfl, rfl⟩) fun hle ↦ absurd hversion hle)

theorem Table.revert_refused (hversion : t.state.currentVersion < version) :
    (t.outcome (.revert version)).result = .ok false ∧ t.step (.revert version) = t := by
  refine Ensures.call (Q := fun r t' ↦ r = .ok false ∧ t' = t) ?_
  rw [Call.run, RawTable.revert]
  exact .get (.ite (fun _ ↦ .pure ⟨rfl, rfl⟩) fun hle ↦ absurd hversion hle)

/-- Whatever fails, a revert to such a version touches no file. -/
theorem Table.revert_untouched {fault : Fault} (hversion : t.state.currentVersion < version) :
    (t.call fault (Call.run (.revert version))).table = t := by
  refine Ensures.call (Q := fun _ t' ↦ t' = t) ?_
  rw [Call.run, RawTable.revert]
  exact .get (.ite (fun _ ↦ .pure rfl) fun hle ↦ absurd hversion hle)

/-! ## 4. Tables that are opened again -/

/-- The table shows nothing but what is committed. -/
structure Rests (marks : List (Mark View)) (t : Table) : Prop where
  keeps : Keeps marks t
  view : Mark.Cut emptyView (Mark.last marks) marks t.view marks

theorem Rests.view_eq (h : Rests marks t) : t.view = Versions.committed emptyView marks :=
  h.view.state_eq

/-- A table whose log ends with a marker rests. -/
theorem Follows.rests (hf : Follows marks log t) (hmarks : Mark.Ascending marks)
    (hc : committed log = log) : Rests marks t := by
  refine ⟨⟨log, hf, hmarks⟩, ?_⟩
  obtain ⟨view, hcut⟩ := hmarks.cut_last emptyView
  have hrising := hf.rising hmarks
  suffices hview : t.view = view by
    rw [hview]
    exact hcut
  rw [hf.view_eq]
  rw [hf.marks] at hcut
  rcases List.eq_nil_or_concat log with rfl | ⟨front, r, rfl⟩
  · have heq := hcut.boundary_eq
    rw [viewOf_nil]
    exact Option.some.inj heq
  · rw [List.concat_eq_append] at hcut hc hrising ⊢
    cases r with
    | insert i =>
        have hlen := (committed_isPrefix front).length_le
        rw [committed_insert] at hc
        rw [hc, List.length_append] at hlen
        simp at hlen
    | commit m =>
        have heq := hcut.boundary_eq
        rw [marksOf_commit, Mark.last_concat,
          Mark.boundary_own rfl fun x hx ↦ absurd hx List.not_mem_nil] at heq
        exact Option.some.inj heq

/-- So does a table that agrees with such a log over the first part of some data. -/
theorem Agrees.rests {content : Bytes} (ha : Agrees log t) (hmarks : Mark.Ascending (marksOf content log))
    (hchron : Chronological log) (hc : committed log = log)
    (hcontent : t.dataLog.content = content.take (replay log).dataLen)
    (hextent : ∀ r ∈ log, r.extent ≤ (replay log).dataLen)
    (hfits : (replay log).dataLen ≤ content.length) : Rests (marksOf content log) t := by
  have hf : Follows (marksOf content log) log t :=
    ⟨ha, hchron, by rw [hcontent, marksOf_take hextent hfits]⟩
  exact hf.rests hmarks hc

theorem Follows.rests_unmarked {more : List IndexRecord} {t' : Table} {data index : Bytes}
    (hf : Follows marks log t) (hmarks : Mark.Ascending marks) (hu : Unmarked log more t t')
    (hd : t'.dataLog.Image data) (hi : t'.indexLog.Image index) :
    (Table.reopened data index).result = .ok () ∧ Rests marks (Table.reopened data index).table := by
  obtain ⟨hresult, hagrees, hcontent⟩ := hu.reopen_agrees hf.toSettled hd hi
  obtain ⟨hextent, hfits⟩ := hf.committed_fits
  have heq : marksOf t.dataLog.content (committed log) = marks := by rw [marksOf_committed, hf.marks]
  refine ⟨hresult, ?_⟩
  rw [← heq] at hmarks ⊢
  exact hagrees.rests hmarks (hf.chronological.of_prefix (committed_isPrefix log)) (committed_committed log)
    hcontent hextent hfits

/-- A crash at rest or inside an insertion loses what is not committed, and nothing else. -/
theorem Keeps.reopened (h : Keeps marks t) {data index : Bytes} (hd : t.dataLog.Image data)
    (hi : t.indexLog.Image index) :
    (Table.reopened data index).result = .ok () ∧ Rests marks (Table.reopened data index).table := by
  obtain ⟨log, hf, hmarks⟩ := h
  exact hf.rests_unmarked hmarks hf.toSettled.unmarked hd hi

theorem Keeps.reopened_insert (h : Keeps marks t) (key value : Bytes) (n written : Nat)
    {data index : Bytes}
    (hd : (t.call (.change n written) (Call.run (.insert key value))).table.dataLog.Image data)
    (hi : (t.call (.change n written) (Call.run (.insert key value))).table.indexLog.Image index) :
    (Table.reopened data index).result = .ok () ∧ Rests marks (Table.reopened data index).table := by
  obtain ⟨log, hf, hmarks⟩ := h
  obtain ⟨r, ho, -⟩ := insert_call t (.change n written) key value
  obtain ⟨more, hu⟩ := hf.toSettled.insert_unmarked ho
  exact hf.rests_unmarked hmarks hu hd hi

/-- A crash inside a commit loses it or keeps it. -/
theorem Keeps.reopened_commit (h : Keeps marks t) (hversion : Mark.last marks < version) (n written : Nat)
    {data index : Bytes}
    (hd : (t.call (.change n written) (Call.run (.commit version))).table.dataLog.Image data)
    (hi : (t.call (.change n written) (Call.run (.commit version))).table.indexLog.Image index) :
    (Table.reopened data index).result = .ok () ∧
      (Rests marks (Table.reopened data index).table ∨
        Rests (marks ++ [⟨version, t.view, t.view⟩]) (Table.reopened data index).table) := by
  obtain ⟨log, hf, hmarks⟩ := h
  have ho : CommitOutcome t version _ _ _ := (commit_outcome ⟨t, .change n written⟩ version).call
  rcases hf.toSettled.commit_cases ho with hu | hm
  · exact (hf.rests_unmarked hmarks hu hd hi).imp_right .inl
  · obtain ⟨kept, hkept, hresult, hagrees, hcontent⟩ := hm.reopen_agrees hf.toSettled hd hi
    refine ⟨hresult, ?_⟩
    rcases hkept with rfl | rfl
    · left
      obtain ⟨hextent, hfits⟩ := hf.committed_fits
      have heq : marksOf t.dataLog.content (committed log) = marks := by rw [marksOf_committed, hf.marks]
      rw [← heq] at hmarks ⊢
      exact hagrees.rests hmarks (hf.chronological.of_prefix (committed_isPrefix log))
        (committed_committed log) hcontent hextent hfits
    · right
      obtain ⟨hextent, hfits⟩ := hf.toSettled.marked_fits version
      have hcurrent : (replay log).currentVersion ≤ version := by
        rw [← last_marksOf t.dataLog.content, ← hf.marks]
        exact UInt32.le_of_lt hversion
      have heq : marksOf t.dataLog.content (log ++ [t.newMarker version]) =
          marks ++ [⟨version, t.view, t.view⟩] := by
        rw [Table.newMarker, marksOf_commit, viewOf_commit hf.chronological hcurrent, ← hf.marks,
          ← hf.view_eq]
      have hnext := hmarks.concat (m := ⟨version, t.view, t.view⟩) hversion
      rw [← heq] at hnext ⊢
      exact hagrees.rests hnext (hf.chronological.concat hcurrent)
        (by rw [Table.newMarker, committed_commit]) hcontent hextent hfits

/-! ## 5. Tables that stop inside a revert -/

section

variable {kept : List (Mark View)} {view : View} {keptLog rest : List IndexRecord} {dataLen : Nat}
  {t' : Table}

/-- The log that a revert leaves has the history that is left. -/
theorem RevertSplit.follows_rewound (s : RevertSplit log t version dataLen keptLog rest)
    (h : Follows marks log t) (hclean : t.VersionClean version) (hcut : Mark.Cut emptyView version marks view kept)
    (ha : Agrees (t.rewound version keptLog dataLen) t')
    (hdata : t'.dataLog.content = t.dataLog.content.take dataLen) :
    Follows kept (t.rewound version keptLog dataLen) t' := by
  obtain ⟨hchron, hboundary, hsurviving⟩ := s.boundary_marks h hclean ha hdata
  have hview : t'.view = view := Option.some.inj (hboundary.symm.trans hcut.boundary_eq)
  rw [hview, hcut.surviving_eq] at hsurviving
  exact ⟨ha, hchron, hsurviving⟩

/-- Without the marker of the version its commit is missing. -/
theorem RevertSplit.follows_kept (s : RevertSplit log t version dataLen keptLog rest)
    (h : Follows marks log t) (hclean : t.VersionClean version) (hx : t.exact version = false)
    (hcut : Mark.Cut emptyView version marks view kept) (ha : Agrees (committed keptLog) t')
    (hdata : t'.dataLog.content = t.dataLog.content.take (replay (committed keptLog)).dataLen) :
    Follows kept.dropLast (committed keptLog) t' := by
  obtain ⟨hzero, hnone⟩ := exact_eq_false h.versionIndexEq hx
  have hle := s.kept_le h.toAgrees h.chronological hx hclean
  have hnested := h.nested.sublist s.kept_prefix.sublist
  have hextent : ∀ r ∈ committed keptLog, r.extent ≤ (replay (committed keptLog)).dataLen := by
    rw [(replay_committed keptLog).2.2]
    exact committed_extent hnested
  have hfits : (replay (committed keptLog)).dataLen ≤ t.dataLog.content.length := by
    obtain ⟨hkept, hlen⟩ := s.dataLen_bounds h.toBacked
    rw [(replay_committed keptLog).2.2]
    exact (replay_dataLen_le hkept).trans (hlen.trans h.dataLen)
  have hchron := h.chronological.of_prefix ((committed_isPrefix keptLog).trans s.kept_prefix)
  refine ⟨ha, hchron, ?_⟩
  rw [hdata, marksOf_take hextent hfits, marksOf_committed]
  obtain ⟨next, post, hrest, hlt, -⟩ := s.successor hx
  rw [s.log_eq, hrest] at hnone
  have hsurviving : Mark.surviving version
      (marksOf t.dataLog.content (keptLog ++ .commit ⟨next, dataLen⟩ :: post)) view = _ :=
    (boundary_successor view hzero hnone hle hlt).2
  rw [← hrest, ← s.log_eq, ← h.marks, hcut.surviving_eq] at hsurviving
  rw [hsurviving, List.dropLast_concat]

end

/-- A stop inside a revert loses it or keeps it, or the commit at the boundary that it wrote is
missing. -/
theorem Keeps.reopened_revert (h : Keeps marks t) {view : View} {kept : List (Mark View)}
    (hcut : Mark.Cut emptyView version marks view kept) (n written : Nat) {data index : Bytes}
    (hd : (t.call (.change n written) (Call.run (.revert version))).table.dataLog.Image data)
    (hi : (t.call (.change n written) (Call.run (.revert version))).table.indexLog.Image index) :
    (Table.reopened data index).result = .ok () ∧
      (Rests marks (Table.reopened data index).table ∨ Rests kept (Table.reopened data index).table ∨
        (version ≠ 0 ∧ ∀ m ∈ marks, m.version ≠ version) ∧
          Rests kept.dropLast (Table.reopened data index).table) := by
  have hversion : version ≤ t.state.currentVersion := by
    rw [h.current]
    exact hcut.le_last h.ascending
  have hclean : t.PairClean version ∧ t.VersionClean version := h.cleanCall hversion
  obtain ⟨log, hf, hmarks⟩ := h
  obtain ⟨keptLog, rest, dataLen, hplan, hsplit⟩ := hf.exists_split hversion
  have ho : RevertOutcome t version _ _ _ := (revert_outcome ⟨t, .change n written⟩ version).call
  have hkept := hcut.ascending hmarks
  rcases hsplit.stopped hf.toSettled hplan ho hd hi with ⟨hd, hi⟩ | ⟨htorn, hdata⟩
  · exact (hf.rests_unmarked hmarks hf.toSettled.unmarked hd hi).imp_right .inl
  obtain ⟨front, hfront, hc, hresult, ha, hcontent⟩ := hsplit.torn_agrees hf.toSettled htorn hdata
  refine ⟨hresult, .inr ?_⟩
  rcases hfront with rfl | ⟨hx, rfl⟩
  · left
    rw [hsplit.replay_rewound.2] at hcontent
    exact (hsplit.follows_rewound hf hclean.2 hcut ha hcontent).rests hkept hc
  · right
    obtain ⟨hzero, hnone⟩ := exact_eq_false hf.versionIndexEq hx
    refine ⟨⟨hzero, fun m hm heq ↦ hnone ?_⟩, ?_⟩
    · rw [hf.marks] at hm
      rw [← heq]
      exact marksFrom_version hm
    · exact (hsplit.follows_kept hf hclean.2 hx hcut ha hcontent).rests hkept.dropLast hc

end

end Stainless.Kvstore
