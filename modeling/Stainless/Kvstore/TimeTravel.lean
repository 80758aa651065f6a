import Stainless.Kvstore.History
import Stainless.Kvstore.Survivors
import Stainless.Reasoning.Marks

/-!
# Time travel

After a revert `find` answers as it did at the boundary of the version, and what the revert discarded
does not come back.
-/

open Reasoning Stainless.Runtime

namespace Stainless.Kvstore

/-- What `find` answered at the boundary of a version.  The creation of the table is that of version
0. -/
def boundaryView (version : UInt32) (marks : List (Mark View)) : Option View :=
  Mark.boundary (fun _ ↦ .ok none) version marks

/-- The history after one more call. -/
def history (marks : List (Mark View)) (t : Table) (c : Call) : List (Mark View) :=
  let t' := t.step c
  if (t.outcome c).result = .ok true then
    match c with
    | .commit version => marks ++ [⟨version, t.view, t'.view⟩]
    | .revert version => Mark.surviving version marks t'.view
    | _ => marks
  else marks

/-! ## The marks of a log -/

/-- The marks of the records behind `pre`. -/
def marksFrom (data : Bytes) : List IndexRecord → List IndexRecord → List (Mark View)
  | _, [] => []
  | pre, .insert i :: log => marksFrom data (pre ++ [.insert i]) log
  | pre, .commit m :: log =>
      ⟨m.version, viewOf data pre, viewOf data (pre ++ [.commit m])⟩ ::
        marksFrom data (pre ++ [.commit m]) log

theorem marksFrom_append (data : Bytes) (pre log more : List IndexRecord) :
    marksFrom data pre (log ++ more) = marksFrom data pre log ++ marksFrom data (pre ++ log) more := by
  induction log generalizing pre with
  | nil =>
      rw [List.append_nil]
      rfl
  | cons r log ih =>
      rw [List.append_cons pre r log]
      cases r with
      | insert i => exact ih _
      | commit m => exact congrArg (List.cons _) (ih _)

def marksOf (data : Bytes) (log : List IndexRecord) : List (Mark View) := marksFrom data [] log

theorem marksOf_append (data : Bytes) (log more : List IndexRecord) :
    marksOf data (log ++ more) = marksOf data log ++ marksFrom data log more :=
  marksFrom_append data [] log more

@[simp] theorem marksOf_insert (data : Bytes) (log : List IndexRecord) (i : InsertRecord) :
    marksOf data (log ++ [.insert i]) = marksOf data log := by
  rw [marksOf_append]
  exact List.append_nil _

theorem marksOf_commit (data : Bytes) (log : List IndexRecord) (m : CommitRecord) :
    marksOf data (log ++ [.commit m]) =
      marksOf data log ++ [⟨m.version, viewOf data log, viewOf data (log ++ [.commit m])⟩] :=
  marksOf_append data log [.commit m]

theorem marksFrom_version {data : Bytes} {pre log : List IndexRecord} {m : Mark View}
    (h : m ∈ marksFrom data pre log) : m.version ∈ committedVersions log := by
  induction log generalizing pre with
  | nil => exact absurd h List.not_mem_nil
  | cons r log ih =>
      cases r with
      | insert i => exact ih h
      | commit c =>
          rcases List.mem_cons.mp h with rfl | h
          · exact List.mem_cons_self
          · exact List.mem_cons_of_mem _ (ih h)

theorem marksOf_take {data : Bytes} {log : List IndexRecord} {n : Nat}
    (hlog : ∀ r ∈ log, r.extent ≤ n) (hn : n ≤ data.length) :
    marksOf (data.take n) log = marksOf data log := by
  induction log using List.reverseRecOn with
  | nil => rfl
  | append_singleton log r ih =>
      have hfront : ∀ s ∈ log, s.extent ≤ n := fun s hs ↦ hlog s (List.mem_append_left _ hs)
      cases r with
      | insert i => rw [marksOf_insert, marksOf_insert, ih hfront]
      | commit m =>
          rw [marksOf_commit, marksOf_commit, ih hfront, viewOf_take hfront hn, viewOf_take hlog hn]

theorem marksOf_append_data {data : Bytes} {log : List IndexRecord}
    (hlog : ∀ r ∈ log, r.extent ≤ data.length) (more : Bytes) :
    marksOf (data ++ more) log = marksOf data log := by
  have h : marksOf ((data ++ more).take data.length) log = marksOf (data ++ more) log :=
    marksOf_take hlog (by simp)
  rw [List.take_left' rfl] at h
  exact h.symm

/-- Uncommitted records leave no mark. -/
theorem marksOf_committed (data : Bytes) (log : List IndexRecord) :
    marksOf data (committed log) = marksOf data log := by
  induction log using List.reverseRecOn with
  | nil => rfl
  | append_singleton log r ih =>
      cases r with
      | insert i => rw [committed_insert, ih, marksOf_insert]
      | commit m => rw [committed_commit]

/-! ## Where a clean revert goes -/

section

variable {log kept rest : List IndexRecord} {t : Table} {version : UInt32} {dataLen : Nat}

/-- The marks around the boundary of a version with an entry of its own. -/
theorem boundary_own {data : Bytes} (dataLen : Nat) (view : View)
    (hmark : version = 0 ∧ kept = [] ∨ ∃ pre, kept = pre ++ [.commit ⟨version, dataLen⟩])
    (hrest : version ∉ committedVersions rest) :
    boundaryView version (marksOf data (kept ++ rest)) = some (viewOf data kept) ∧
      Mark.surviving version (marksOf data (kept ++ rest)) view = marksOf data kept := by
  have hlater : ∀ m ∈ marksFrom data kept rest, m.version ≠ version := fun m hm heq ↦
    hrest (heq ▸ marksFrom_version hm)
  rcases hmark with ⟨rfl, rfl⟩ | ⟨pre, rfl⟩
  · rw [viewOf_nil]
    exact ⟨Mark.boundary_creation hlater, Mark.surviving_creation hlater view⟩
  · rw [marksOf_append, marksOf_commit, List.append_assoc, List.singleton_append]
    exact ⟨Mark.boundary_own rfl hlater, Mark.surviving_own rfl hlater view⟩

/-- The marks around the boundary of a version without one. -/
theorem boundary_successor {data : Bytes} (view : View) {next : UInt32} {post : List IndexRecord}
    (hzero : version ≠ 0)
    (hnone : version ∉ committedVersions (kept ++ .commit ⟨next, dataLen⟩ :: post))
    (hkept : ∀ v ∈ committedVersions kept, v ≤ version) (hnext : version < next) :
    boundaryView version (marksOf data (kept ++ .commit ⟨next, dataLen⟩ :: post)) =
        some (viewOf data kept) ∧
      Mark.surviving version (marksOf data (kept ++ .commit ⟨next, dataLen⟩ :: post)) view =
        marksOf data kept ++ [⟨version, view, view⟩] := by
  rw [committedVersions_append, List.mem_append, not_or] at hnone
  have hfront : ∀ m ∈ marksOf data kept, m.version < version := by
    intro m hm
    have hin := marksFrom_version hm
    exact UInt32.lt_of_le_of_ne (hkept _ hin) fun heq ↦ hnone.1 (heq ▸ hin)
  have hlater : ∀ m ∈ marksFrom data (kept ++ [.commit ⟨next, dataLen⟩]) post,
      m.version ≠ version := fun m hm heq ↦
    hnone.2 (List.mem_cons_of_mem _ (heq ▸ marksFrom_version hm))
  rw [marksOf_append]
  exact ⟨Mark.boundary_successor hzero hfront hnext hlater,
    Mark.surviving_successor hzero hfront hnext hlater view⟩

end

/-! ## Runs -/

/-- The log of the table is in order, and its marks are the history. -/
structure Follows (marks : List (Mark View)) (log : List IndexRecord) (t : Table) : Prop
    extends Agrees log t where
  chronological : Chronological log
  marks : marks = marksOf t.dataLog.content log

section

variable {marks : List (Mark View)} {log log' kept rest : List IndexRecord} {t t' : Table} {c : Call}
  {version : UInt32} {dataLen : Nat}

theorem current_mem (log : List IndexRecord) :
    (replay log).currentVersion = 0 ∨ (replay log).currentVersion ∈ committedVersions log := by
  induction log using List.reverseRecOn with
  | nil => exact .inl rfl
  | append_singleton log r ih =>
      rw [replay_concat, committedVersions_append]
      cases r with
      | insert i => exact ih.imp id (List.mem_append_left _)
      | commit m => exact .inr (List.mem_append_right _ List.mem_cons_self)

/-- In front of a successor's marker that is the only one of its version there is nothing above the
version that is gone back to. -/
theorem RevertSplit.kept_le (s : RevertSplit log t version dataLen kept rest) (h : Agrees log t)
    (hlog : Chronological log) (hx : t.exact version = false) (hclean : t.VersionClean version) :
    ∀ v ∈ committedVersions kept, v ≤ version := by
  obtain ⟨hkept, hrest⟩ := s.records_eq h.toBacked
  obtain ⟨next, post, heq, hlt, -, hleast⟩ := s.successor hx
  rw [Table.VersionClean, hkept, hrest, heq] at hclean
  have hlast := hlog kept (.commit ⟨next, dataLen⟩) post (by rw [s.log_eq, heq])
  intro v hv
  by_contra hle
  have hin : v ∈ committedVersions log := by
    rw [s.log_eq, committedVersions_append]
    exact List.mem_append_left _ hv
  obtain ⟨offset, hoffset⟩ := Option.ne_none_iff_exists'.mp (replay_versionIndex_ne_none (.inr hin))
  rw [← h.versionIndexEq] at hoffset
  have hnext := hleast v offset hoffset (UInt32.le_of_lt (UInt32.not_le.mp hle))
  have hv' := (hlog.of_prefix s.kept_prefix).committed_le v hv
  have heqv := UInt32.le_antisymm hnext (UInt32.le_trans hv' hlast)
  exact (hclean next List.mem_cons_self).2 (heqv ▸ hv)

/-- A clean revert goes to the boundary of its version. -/
theorem RevertSplit.boundary_marks (s : RevertSplit log t version dataLen kept rest)
    (h : Follows marks log t) (hclean : t.VersionClean version)
    (ht' : Agrees (t.rewound version kept dataLen) t')
    (hdata : t'.dataLog.content = t.dataLog.content.take dataLen) :
    Chronological (t.rewound version kept dataLen) ∧
      boundaryView version marks = some t'.view ∧
      Mark.surviving version marks t'.view =
        marksOf t'.dataLog.content (t.rewound version kept dataLen) := by
  obtain ⟨hkeptRecords, hrestRecords⟩ := s.records_eq h.toBacked
  obtain ⟨hextent, hle⟩ := s.dataLen_bounds h.toBacked
  have hfits := hle.trans h.dataLen
  have hchron := h.chronological.of_prefix s.kept_prefix
  have hview := viewOf_take hextent hfits
  have hmarks := marksOf_take hextent hfits
  rw [h.marks, ht'.view_eq, hdata]
  cases hx : t.exact version with
  | true =>
      rw [RevertSplit.rewound_of_exact hx, hview, hmarks, s.log_eq]
      have hversion := hclean
      rw [Table.VersionClean, hkeptRecords, hrestRecords] at hversion
      rcases s.own hx with ⟨h0, hk, -⟩ | ⟨-, pre, hk, -⟩
      · exact ⟨hchron, boundary_own dataLen _ (.inl ⟨h0, hk⟩)
          fun hin ↦ (hversion version hin).1 h0⟩
      · refine ⟨hchron, boundary_own dataLen _ (.inr ⟨pre, hk⟩) fun hin ↦ (hversion version hin).2 ?_⟩
        rw [hk, committedVersions_append]
        exact List.mem_append_right _ List.mem_cons_self
  | false =>
      obtain ⟨hzero, hnone⟩ := exact_eq_false h.versionIndexEq hx
      have hkept := s.kept_le h.toAgrees h.chronological hx hclean
      obtain ⟨next, post, rfl, hlt, -⟩ := s.successor hx
      have hcurrent : (replay kept).currentVersion ≤ version := by
        rcases current_mem kept with h0 | hin
        · rw [h0]
          exact UInt32.zero_le
        · exact hkept _ hin
      have hnone' := hnone
      rw [s.log_eq] at hnone'
      rw [RevertSplit.rewound_of_not_exact hx, viewOf_commit hchron hcurrent, hview, marksOf_commit,
        viewOf_commit hchron hcurrent, hview, hmarks, s.log_eq]
      exact ⟨hchron.concat hcurrent, boundary_successor _ hzero hnone' hkept hlt⟩

theorem Follows.advanced (h : Follows marks log t) (hc : t.CleanCall c)
    (a : Advance log t c (t.outcome c).result log' (t.step c)) :
    Follows (history marks t c) log' (t.step c) := by
  have ht' := h.toAgrees.advanced hc a
  suffices hboth : Chronological log' ∧
      history marks t c = marksOf (t.step c).dataLog.content log' from ⟨ht', hboth.1, hboth.2⟩
  unfold history
  generalize (t.outcome c).result = r at *
  generalize t.step c = t' at *
  cases a with
  | idle _ hr =>
      rw [if_neg hr]
      exact ⟨h.chronological, h.marks⟩
  | @inserted key value bytes =>
      refine ⟨h.chronological.concat h.version, ?_⟩
      dsimp only
      rw [if_pos rfl, marksOf_insert, h.inserted_content,
        marksOf_append_data (by rw [h.data]; exact h.inside), h.marks]
  | @committed version hversion =>
      refine ⟨h.chronological.concat (by rw [← h.version]; exact hversion), ?_⟩
      rw [if_pos rfl, ht'.view_eq, h.toAgrees.view_eq]
      dsimp only
      rw [h.committedData_content, Table.newMarker, marksOf_commit, h.marks]
  | reverted hsplit hversion =>
      obtain ⟨hchron, -, hmarks⟩ := hsplit.boundary_marks h (hc hversion).2 ht'
        (hsplit.data_content h.toBacked)
      rw [if_pos rfl]
      exact ⟨hchron, hmarks⟩
  | recovered =>
      refine ⟨h.chronological.of_prefix (committed_isPrefix log), ?_⟩
      dsimp only
      rw [if_pos rfl, h.toBacked.trim_data_content, marksOf_take (committed_extent h.nested)
        ((replay_dataLen_le h.inside).trans h.dataLen), marksOf_committed, h.marks]

end

/-! ## What is read later -/

/-- The insertions noted so far, oldest first. -/
def written (notes : List (Bytes × Bytes)) (t : Table) (c : Call) : List (Bytes × Bytes) :=
  match c with
  | .insert key value =>
      if (t.outcome c).result = .ok true then notes ++ [(key, value)] else notes
  | _ => notes

/-- The last noted value of a key, else what `view` answers. -/
def answer (view : View) (notes : List (Bytes × Bytes)) : View := fun key ↦
  match (notes.filter fun a ↦ a.1 = key).getLast? with
  | some a => .ok (some a.2)
  | none => view key

theorem answer_concat (view : View) (notes : List (Bytes × Bytes)) (key value key' : Bytes) :
    answer view (notes ++ [(key, value)]) key' =
      if key = key' then .ok (some value) else answer view notes key' := by
  rw [answer, List.filter_append]
  split
  · rename_i h
    split
    · rename_i hkey
      rw [List.filter_cons_of_pos (by simpa using hkey), List.filter_nil,
        List.getLast?_concat] at h
      cases h
      rfl
    · rename_i hkey
      rw [List.filter_cons_of_neg (by simpa using hkey), List.filter_nil, List.append_nil] at h
      rw [answer, h]
  · rename_i h
    rw [List.getLast?_eq_none_iff, List.append_eq_nil_iff] at h
    obtain ⟨hnotes, hlast⟩ := h
    have hkey : key ≠ key' := by
      rintro rfl
      simp at hlast
    rw [if_neg hkey, answer, hnotes]
    rfl

/-- An insertion or a commit. -/
def Call.Writes : Call → Prop
  | .insert _ _ => True
  | .commit _ => True
  | _ => False

instance : ∀ c : Call, Decidable c.Writes
  | .insert _ _ => inferInstanceAs (Decidable True)
  | .commit _ => inferInstanceAs (Decidable True)
  | .revert _ => inferInstanceAs (Decidable False)
  | .recover => inferInstanceAs (Decidable False)

/-- The log of the table is in order, and `find` answers as `view` and the notes since say. -/
def Answers (view : View) (notes : List (Bytes × Bytes)) (t : Table) : Prop :=
  (∃ log, Agrees log t ∧ Chronological log) ∧ t.view = answer view notes

theorem Agrees.view_inserted {log : List IndexRecord} {t t' : Table} (h : Agrees log t)
    {key value bytes : Bytes} (hbytes : makeDataRecord t.state.currentVersion key value = .ok bytes)
    (ht' : Agrees (log ++ [.insert (t.newRecord key value)]) t')
    (hdata : t'.dataLog.content = t.dataLog.content ++ bytes) (key' : Bytes) :
    t'.view key' = if key = key' then .ok (some value) else t.view key' := by
  obtain ⟨hlen, hvalue, -⟩ := makeDataRecord_ok hbytes
  have hpread : preadContent (t.dataLog.content ++ bytes) (t.state.dataLen + 21 + key.length)
      value.length = .ok value := by
    rw [preadContent_of_le (by rw [List.length_append, h.data]; omega),
      slice_append_right _ _ _ _ (by rw [h.data]; omega), h.data,
      show t.state.dataLen + 21 + key.length - t.state.dataLen = 21 + key.length by omega, hvalue]
  rw [ht'.view_eq, h.view_eq, hdata, viewOf_insert h.version]
  simp only [Table.newRecord]
  rw [hpread, viewOf_append_data (by rw [h.data]; exact h.inside)]
  rfl

theorem Answers.step {view : View} {notes : List (Bytes × Bytes)} {t : Table} {c : Call}
    (h : Answers view notes t) (hc : CleanStep t c) (hw : c.Writes) :
    Answers view (written notes t c) (t.step c) := by
  obtain ⟨⟨log, ha, hlog⟩, hview⟩ := h
  obtain ⟨log', adv⟩ := ha.toSettled.advance c hc.1
  have ht' := ha.advanced hc.2 adv
  unfold written
  generalize (t.outcome c).result = r at *
  generalize t.step c = t' at *
  cases adv with
  | idle _ hr =>
      cases c with
      | insert key value =>
          dsimp only
          rw [if_neg hr]
          exact ⟨⟨_, ha, hlog⟩, hview⟩
      | _ => exact ⟨⟨_, ha, hlog⟩, hview⟩
  | @inserted key value bytes hbytes =>
      refine ⟨⟨_, ht', hlog.concat ha.version⟩, ?_⟩
      funext key'
      dsimp only
      rw [if_pos rfl, answer_concat, ha.view_inserted hbytes ht' (ha.inserted_content bytes), hview]
  | committed hversion =>
      rw [ha.version] at hversion
      refine ⟨⟨_, ht', hlog.concat hversion⟩, ?_⟩
      rw [← hview, ht'.view_eq, ha.view_eq]
      dsimp only
      rw [ha.committedData_content, Table.newMarker, viewOf_commit hlog hversion]
  | reverted => exact hw.elim
  | recovered => exact hw.elim

theorem Answers.run {view : View} {notes : List (Bytes × Bytes)} {t : Table} {calls : List Call}
    (h : Answers view notes t) (hrun : Meets Table.step CleanStep t calls)
    (hw : ∀ c ∈ calls, c.Writes) :
    Answers view (run (watch Table.step written) (t, notes) calls).2
      (run (watch Table.step written) (t, notes) calls).1 := by
  induction calls generalizing t notes with
  | nil => exact h
  | cons c calls ih =>
      exact ih (h.step hrun.1 (hw c List.mem_cons_self)) hrun.2
        fun c hc ↦ hw c (List.mem_cons_of_mem _ hc)

/-- The range reads return nothing that `find` does not answer. -/
theorem Answers.range_reads {view : View} {notes : List (Bytes × Bytes)} {t : Table}
    (h : Answers view notes t) (lower upper : Bytes) (count : Nat) {found : List (Bytes × Bytes)}
    (hfound : t.range lower upper = .ok found ∨ t.rangeFirst lower upper count = .ok found ∨
      t.rangeLast lower upper count = .ok found) :
    ∀ a ∈ found, t.view a.1 = .ok (some a.2) := by
  obtain ⟨⟨log, ha, hlog⟩, -⟩ := h
  have hs : t.state.NoneHidden := by
    intro k v hk
    rw [ha.indexEq] at hk
    rw [ha.version]
    exact hlog.noneHidden k v hk
  obtain ⟨whole, hrange, -, hmem, hfirst, hlast⟩ := ha.toBacked.ranges hs lower upper count
  have hin : ∀ a ∈ found, a ∈ whole := by
    intro a hin
    rcases hfound with h | h | h
    · rw [hrange] at h
      cases h
      exact hin
    · rw [hfirst] at h
      cases h
      exact List.mem_of_mem_take hin
    · rw [hlast] at h
      cases h
      exact List.mem_reverse.mp (List.mem_of_mem_take hin)
  exact fun a hin' ↦ ((hmem a.1 a.2).mp (hin a hin')).2

theorem exists_follows {calls : List Call} (h : Meets Table.step CleanStep Table.created calls) :
    ∃ log, Follows (run (watch Table.step history) (Table.created, []) calls).2 log
      (run Table.step Table.created calls) := by
  rw [← run_watch_fst history Table.created [] calls]
  refine (h.watch history []).invariant (I := fun p ↦ ∃ log, Follows p.2 log p.1)
    ⟨[], agrees_created, chronological_nil, rfl⟩ ?_
  rintro p c ⟨log, hf⟩ hc
  obtain ⟨log', ha⟩ := hf.toSettled.advance c hc.1
  exact ⟨log', hf.advanced hc.2 ha⟩

/-- A revert that returns true takes every key back to the boundary of the version, and insertions and
commits that follow show nothing but their own values and what was there at that boundary. -/
theorem revert_is_time_travel (calls more : List Call) (version : UInt32)
    (hrun : Meets Table.step CleanStep Table.created (calls ++ .revert version :: more))
    (hmore : ∀ c ∈ more, c.Writes)
    (htrue : ((run Table.step Table.created calls).outcome (.revert version)).result = .ok true) :
    let t := run Table.step Table.created (calls ++ [.revert version])
    let later := run (watch Table.step written) (t, []) more
    ∃ view, boundaryView version (run (watch Table.step history) (Table.created, []) calls).2 =
        some view ∧
      (∀ key, t.view key = view key) ∧
      (∀ key, later.1.view key = answer view later.2 key) ∧
      ∀ lower upper count found, (later.1.range lower upper = .ok found ∨
          later.1.rangeFirst lower upper count = .ok found ∨
          later.1.rangeLast lower upper count = .ok found) →
        ∀ a ∈ found, later.1.view a.1 = .ok (some a.2) := by
  obtain ⟨hcalls, hrevert, hlater⟩ := meets_append.mp hrun
  obtain ⟨log, h⟩ := exists_follows hcalls
  rw [run_append, run_cons, run_nil]
  generalize (run (watch Table.step history) (Table.created, []) calls).2 = marks at *
  generalize run Table.step Table.created calls = t₀ at *
  obtain ⟨log', adv⟩ := h.toSettled.advance _ hrevert.1
  have ht := h.toAgrees.advanced hrevert.2 adv
  rw [htrue] at adv
  generalize t₀.step (.revert version) = t at *
  cases adv with
  | idle _ hr => exact absurd rfl hr
  | reverted hsplit hversion =>
      obtain ⟨hlog, hboundary, -⟩ := hsplit.boundary_marks h (hrevert.2 hversion).2 ht
        (hsplit.data_content h.toBacked)
      have hstart : Answers _ [] _ := ⟨⟨_, ht, hlog⟩, rfl⟩
      have hend := hstart.run hlater hmore
      exact ⟨_, hboundary, fun key ↦ rfl, fun key ↦ congrFun hend.2 key,
        fun lower upper count found hfound ↦ hend.range_reads lower upper count hfound⟩

/-- A revert to a skipped version, and later another one to a version with a commit. -/
private def travelled : List Call :=
  [.commit 1, .insert [7] [1], .commit 3, .insert [7] [2], .revert 2, .insert [8] [3], .commit 4]

theorem revert_is_time_travel_travelled :
    let t := run Table.step Table.created (travelled ++ [.revert 2])
    let later := run (watch Table.step written) (t, []) [.insert [8] [9], .commit 5]
    ∃ view, boundaryView 2 (run (watch Table.step history) (Table.created, []) travelled).2 =
        some view ∧
      (∀ key, t.view key = view key) ∧
      (∀ key, later.1.view key = answer view later.2 key) ∧
      ∀ lower upper count found, (later.1.range lower upper = .ok found ∨
          later.1.rangeFirst lower upper count = .ok found ∨
          later.1.rangeLast lower upper count = .ok found) →
        ∀ a ∈ found, later.1.view a.1 = .ok (some a.2) :=
  revert_is_time_travel travelled [.insert [8] [9], .commit 5] 2 (by decide +kernel)
    (by decide) (by decide +kernel)

/-- Right after the second commit of version 1 the key had its first value; the revert to version 1
takes it away. -/
theorem revert_is_time_travel_fails :
    ¬∀ (calls : List Call) (version : UInt32), .recover ∉ calls →
      Meets Table.step NoIoError Table.created (calls ++ [.revert version]) →
      ((run Table.step Table.created calls).outcome (.revert version)).result = .ok true →
      ∃ view, boundaryView version (run (watch Table.step history) (Table.created, []) calls).2 =
          some view ∧
        ∀ key, (run Table.step Table.created (calls ++ [.revert version])).view key = view key := by
  intro h
  obtain ⟨view, hboundary, hview⟩ := h
    [.commit 1, .insert [7] [1], .commit 1, .insert [7] [2]] 1 (by decide) (by decide +kernel)
    (by decide +kernel)
  have hbefore : (boundaryView 1 (run (watch Table.step history) (Table.created, [])
      [.commit 1, .insert [7] [1], .commit 1, .insert [7] [2]]).2).map (fun view ↦ view [7]) =
      some (.ok (some [1])) := by
    decide +kernel
  have hafter : (run Table.step Table.created
      ([.commit 1, .insert [7] [1], .commit 1, .insert [7] [2]] ++ [.revert 1])).view [7] =
      .ok none := by
    decide +kernel
  rw [hboundary, Option.map_some, ← hview, hafter] at hbefore
  cases hbefore

end Stainless.Kvstore
