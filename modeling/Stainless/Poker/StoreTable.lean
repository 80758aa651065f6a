import Stainless.Kvstore.TypedTable
import Stainless.Poker.Store

/-!
# The table behind a store

The table behind a store keeps one value under one key.  As long as every commit has a version of its
own, as those of the dealer have, the store goes through every run of the table: both give the same
answers, `find` finds what the store shows, and a restart finds what the store kept.
-/

open Reasoning Stainless.Runtime Stainless.Kvstore

namespace Stainless.Poker.Store

variable {α : Type}

/-! ## 1. Calls as edits -/

def versions (s : Store α) : Versions (Option α) := ⟨s.shown, s.marks⟩

theorem versions_commit {s : Store α} {version : UInt32} (h : s.currentVersion ≤ version) :
    (s.commit version).1 = true ∧
      (s.commit version).2.versions = s.versions.apply none (.commit version) := by
  rw [commit, if_neg (UInt32.not_lt.mpr h)]
  exact ⟨rfl, rfl⟩

theorem Settled.commit {s : Store α} (h : s.Settled) (version : UInt32) : (s.commit version).2.Settled := by
  unfold Store.commit
  split
  · exact h
  · constructor
    case disk =>
      rw [extended_of_whole h.whole, h.disk]
    case currentVersion =>
      dsimp only
      rw [lastMark_append]
      rfl
    case whole => exact h.whole

theorem lastMark_fst (marks : List (Mark (Option α))) : (lastMark marks).1 = Mark.last marks := by
  rw [lastMark, Mark.last]
  cases marks.getLast? with
  | some m => rfl
  | none => rfl

theorem lastMark_snd (marks : List (Mark (Option α))) :
    (lastMark marks).2 = Versions.committed none marks := by
  rw [lastMark, Versions.committed]
  cases marks.getLast? with
  | some m => rfl
  | none => rfl

theorem Settled.last {s : Store α} (h : s.Settled) : s.currentVersion = Mark.last s.marks :=
  h.currentVersion.trans (lastMark_fst s.marks)

theorem Settled.revert_cut {s : Store α} {version : UInt32} {state : Option α} {kept : List (Mark (Option α))}
    (h : s.Settled) (hmarks : Mark.Ascending s.marks) (hcut : Mark.Cut none version s.marks state kept) :
    s.revert version = some (true, ⟨version, state, kept, kept, none⟩) := by
  have hversion := hcut.le_last hmarks
  rw [← h.last] at hversion
  rw [revert_of_whole h.whole, if_neg (UInt32.not_lt.mpr hversion), hcut.boundary_eq]
  dsimp only
  rw [h.cutDisk, hcut.surviving_eq]

theorem revertFailed_cut {s reverted : Store α} {version : UInt32}
    (h : s.revert version = some (true, reverted)) :
    s.revertFailed version .cut = some { s with
      disk := s.tornDisk version reverted.shown false
      gap := some s.marks.length } := by
  simp only [revertFailed, h]
  rfl

/-- When the marker of a version without a commit is missing, the disk ends in front of it. -/
theorem Settled.tornDisk_cut {s : Store α} {version : UInt32} {state : Option α}
    {kept : List (Mark (Option α))} (h : s.Settled) (hzero : version ≠ 0)
    (hnone : ∀ m ∈ s.marks, m.version ≠ version) (hcut : Mark.Cut none version s.marks state kept) :
    s.tornDisk version state false = kept.dropLast := by
  have hnot : ¬((false = true) ∨ s.gap.isSome = true ∨ (s.marks.any fun m ↦ m.version = version) = true) := by
    rw [h.whole]
    simpa using hnone
  rw [tornDisk, if_neg hnot, h.disk]
  generalize s.marks = marks at hnone hcut
  cases hcut with
  | creation h0 => exact absurd h0 hzero
  | own _ hm => exact absurd hm (hnone _ (by simp))
  | successor _ hfront hm =>
      rw [List.dropLast_concat, List.takeWhile_append_of_pos]
      · simp [UInt32.not_le.mpr hm]
      · intro x hx
        simpa [hzero] using UInt32.le_of_lt (hfront x hx)

/-! ## 2. The bytes of the table -/

/-- What `find` answers in a table that shows a value. -/
def found (encode : α → Bytes) (shown : Option α) : Except TableError (Option Bytes) :=
  .ok (shown.map encode)

/-- The table keeps the values of the store under a key. -/
structure KeptIn (encode : α → Bytes) (key : Bytes) (s : Store α) (t : Kvstore.Table) : Prop where
  settled : s.Settled
  ascending : Mark.Ascending s.marks
  table : ∃ v, Holds v t ∧ v.map (fun view ↦ view key) = s.versions.map (found encode)

section

variable {encode : α → Bytes} {key : Bytes} {s : Store α} {t : Kvstore.Table}

theorem KeptIn.keeps (h : KeptIn encode key s t) :
    ∃ views, Kvstore.Keeps views t ∧
      views.map (Mark.map fun view ↦ view key) = s.marks.map (Mark.map (found encode)) := by
  obtain ⟨v, ⟨log, hf, -⟩, hv⟩ := h.table
  have hmarks := congrArg Versions.marks hv
  refine ⟨v.marks, ⟨log, hf, ?_⟩, hmarks⟩
  rw [← Mark.ascending_map_iff fun view : View ↦ view key]
  have hasc := (Mark.ascending_map_iff (found encode)).mpr h.ascending
  have heq : v.marks.map (Mark.map fun view ↦ view key) = s.marks.map (Mark.map (found encode)) := hmarks
  rwa [heq]

theorem KeptIn.current (h : KeptIn encode key s t) : s.currentVersion = t.state.currentVersion := by
  obtain ⟨views, hkeeps, hmarks⟩ := h.keeps
  rw [h.settled.last, hkeeps.current, ← Mark.last_map (found encode), ← hmarks, Mark.last_map]

theorem KeptIn.find (h : KeptIn encode key s t) : t.view key = found encode s.shown := by
  obtain ⟨v, ⟨log, -, hview⟩, hv⟩ := h.table
  rw [hview]
  exact congrArg Versions.live hv

/-- A call of the table that returns true and the edit of the store that has the same effect on the
key. -/
theorem KeptIn.edited (h : KeptIn encode key s t) {c : Call} (hc : CleanStep t c)
    (hok : (t.outcome c).result = .ok true) {e : Edit (Option α)} {e' : Edit (Except TableError (Option Bytes))}
    (htable : ∀ view, Edit.Maps (fun view : View ↦ view key) view c.edit e')
    (hstore : Edit.Maps (found encode) s.shown e e') {s' : Store α} (hs : s'.versions = s.versions.apply none e)
    (hsettled : s'.Settled) (hmarks : Mark.Ascending s'.marks) : KeptIn encode key s' (t.step c) := by
  refine ⟨hsettled, hmarks, ?_⟩
  obtain ⟨v, hholds, hv⟩ := h.table
  have hnext := hholds.step hc
  rw [if_pos hok] at hnext
  refine ⟨_, hnext, ?_⟩
  rw [hs, ← Versions.apply_map (htable v.live), hv, ← Versions.apply_map hstore]
  rfl

theorem KeptIn.insert (h : KeptIn encode key s t) (value : α)
    (hok : (t.outcome (.insert key (encode value))).result = .ok true) :
    KeptIn encode key (s.insert value) (t.step (.insert key (encode value))) := by
  have hc : CleanStep t (.insert key (encode value)) := ⟨by rw [NoIoError, hok]; simp, trivial⟩
  have hstore : Edit.Maps (found encode) s.shown (.update fun _ ↦ some value)
      (.update fun _ ↦ .ok (some (encode value))) := .update rfl
  exact h.edited hc hok (fun _ ↦ .update (if_pos rfl).symm) hstore rfl (h.settled.insert value) h.ascending

theorem KeptIn.commit (h : KeptIn encode key s t) {version : UInt32} {answer : Bool}
    (hown : version ≠ t.state.currentVersion) (hok : (t.outcome (.commit version)).result = .ok answer) :
    (s.commit version).1 = answer ∧ KeptIn encode key (s.commit version).2 (t.step (.commit version)) := by
  have hio : NoIoError t (.commit version) := by rw [NoIoError, hok]; simp
  have hcurrent := h.current
  by_cases hversion : version < s.currentVersion
  · have hrefused : s.commit version = (false, s) := by rw [Store.commit, if_pos hversion]
    rw [hcurrent] at hversion
    obtain ⟨hresult, hsame⟩ := Kvstore.Table.commit_refused hversion
    rw [hok] at hresult
    cases hresult
    rw [hrefused, hsame]
    exact ⟨rfl, h⟩
  · have hle := UInt32.not_lt.mp hversion
    have hlt : s.currentVersion < version := UInt32.lt_of_le_of_ne hle (by rw [hcurrent]; exact hown.symm)
    obtain ⟨hanswer, hversions⟩ := versions_commit hle
    have hmarks : Mark.Ascending (s.commit version).2.marks := by
      rw [Store.commit, if_neg hversion]
      rw [h.settled.last] at hlt
      exact h.ascending.concat hlt
    obtain ⟨views, hkeeps, -⟩ := h.keeps
    rw [hcurrent, hkeeps.current] at hlt
    have htrue := (hkeeps.commit hlt hio).1
    rw [hok] at htrue
    cases htrue
    exact ⟨hanswer, h.edited ⟨hio, trivial⟩ hok (fun _ ↦ .commit version) (.commit version) hversions
      (h.settled.commit version) hmarks⟩

theorem KeptIn.revert (h : KeptIn encode key s t) (version : UInt32) :
    ∃ answer s', (t.outcome (.revert version)).result = .ok answer ∧ s.revert version = some (answer, s') ∧
      KeptIn encode key s' (t.step (.revert version)) := by
  have hcurrent := h.current
  -- both refuse a version that is not reached yet
  by_cases hversion : s.currentVersion < version
  · have hrefused : s.revert version = some (false, s) := by
      rw [revert_of_whole h.settled.whole, if_pos hversion]
    rw [hcurrent] at hversion
    obtain ⟨hresult, hsame⟩ := Kvstore.Table.revert_refused hversion
    rw [hsame]
    exact ⟨false, s, hresult, hrefused, h⟩
  · have hle := UInt32.not_lt.mp hversion
    obtain ⟨views, hkeeps, -⟩ := h.keeps
    -- the cuts of both histories are at the same place, since their marks have the same versions
    obtain ⟨state, keptMarks, hstore⟩ := h.ascending.exists_cut none (by rwa [← h.settled.last])
    have hrevert := h.settled.revert_cut h.ascending hstore
    rw [hcurrent, hkeeps.current] at hle
    obtain ⟨view, kept, hcut⟩ := hkeeps.ascending.exists_cut emptyView hle
    have hok := (hkeeps.revert hcut).1
    have hc : CleanStep t (.revert version) := ⟨by rw [NoIoError, hok]; simp, hkeeps.cleanCall⟩
    refine ⟨true, _, hok, hrevert, h.edited hc hok (fun _ ↦ .revert version) (.revert version) ?_
      (h.settled.revert hrevert).1 (hstore.ascending h.ascending)⟩
    have hboundary : Mark.boundary none version s.versions.marks = some state := hstore.boundary_eq
    have hsurviving : Mark.surviving version s.versions.marks state = keptMarks := hstore.surviving_eq
    rw [Versions.apply, hboundary]
    dsimp only
    rw [hsurviving]
    rfl

/-! ## 3. Restarts -/

/-- A table that rests shows what the store finds when it is opened again. -/
theorem KeptIn.of_rests {views : List (Mark View)} (hr : Rests views t) (hmarks : Mark.Ascending s.disk)
    (heq : views.map (Mark.map fun view ↦ view key) = s.disk.map (Mark.map (found encode))) :
    KeptIn encode key s.reopen t := by
  refine ⟨settled_reopen s, hmarks, ⟨t.view, views⟩, ?_, ?_⟩
  · obtain ⟨log, hf, -⟩ := hr.keeps
    exact ⟨log, hf, rfl⟩
  -- an opened table answers what its last mark says
  · have hlive : t.view key = found encode (lastMark s.disk).2 := by
      calc t.view key
          = Versions.committed (emptyView key) (views.map (Mark.map fun view ↦ view key)) := by
            rw [hr.view_eq, ← Versions.committed_map fun view : View ↦ view key]
        _ = Versions.committed (found encode none) (s.disk.map (Mark.map (found encode))) := by
            rw [heq]
            rfl
        _ = found encode (lastMark s.disk).2 := by
            rw [Versions.committed_map, lastMark_snd]
    change Versions.mk (t.view key) (views.map _) = ⟨found encode (lastMark s.disk).2, s.disk.map _⟩
    rw [hlive, heq]

theorem KeptIn.disk (h : KeptIn encode key s t) :
    ∃ views, Kvstore.Keeps views t ∧ Mark.Ascending s.disk ∧
      views.map (Mark.map fun view ↦ view key) = s.disk.map (Mark.map (found encode)) := by
  rw [h.settled.disk]
  obtain ⟨views, hkeeps, hmarks⟩ := h.keeps
  exact ⟨views, hkeeps, h.ascending, hmarks⟩

variable {data index : Bytes}

theorem KeptIn.stop (h : KeptIn encode key s t) (hd : t.dataLog.Image data) (hi : t.indexLog.Image index) :
    KeptIn encode key s.reopen (Kvstore.Table.reopened data index).table := by
  obtain ⟨views, hkeeps, hasc, hmarks⟩ := h.disk
  exact .of_rests (hkeeps.reopened hd hi).2 hasc hmarks

theorem KeptIn.stop_inserting (h : KeptIn encode key s t) (value : α) {n written : Nat}
    (hd : (t.call (.change n written) (Call.run (.insert key (encode value)))).table.dataLog.Image data)
    (hi : (t.call (.change n written) (Call.run (.insert key (encode value)))).table.indexLog.Image index) :
    KeptIn encode key (s.insert value).reopen (Kvstore.Table.reopened data index).table := by
  obtain ⟨views, hkeeps, hasc, hmarks⟩ := h.disk
  exact .of_rests (hkeeps.reopened_insert key (encode value) n written hd hi).2 hasc hmarks

/-- A stop inside a commit leaves the store as a failed commit leaves it. -/
theorem KeptIn.stop_committing (h : KeptIn encode key s t) {version : UInt32}
    (hversion : t.state.currentVersion < version) {n written : Nat}
    (hd : (t.call (.change n written) (Call.run (.commit version))).table.dataLog.Image data)
    (hi : (t.call (.change n written) (Call.run (.commit version))).table.indexLog.Image index) :
    ∃ reach, KeptIn encode key (s.commitFailed version reach).reopen (Kvstore.Table.reopened data index).table := by
  obtain ⟨views, hkeeps, hasc, hmarks⟩ := h.disk
  have hlast := hversion
  rw [hkeeps.current] at hlast
  -- the marker is not on disk or it is
  rcases (hkeeps.reopened_commit hlast n written hd hi).2 with hr | hr
  · exact ⟨.nowhere, .of_rests hr hasc hmarks⟩
  · have hcurrent := h.current
    rw [← hcurrent] at hversion
    have hdisk : (s.commitFailed version .marked).disk = s.disk ++ [s.mark version] := by
      rw [commitFailed, if_pos ⟨.inl rfl, UInt32.le_of_lt hversion⟩]
      exact extended_of_whole h.settled.whole _
    refine ⟨.marked, .of_rests hr ?_ ?_⟩
    · rw [hdisk]
      refine hasc.concat ?_
      rw [h.settled.last] at hversion
      rw [h.settled.disk]
      exact hversion
    · rw [hdisk, List.map_append, List.map_append, hmarks]
      simp only [List.map_cons, List.map_nil, Mark.map, mark, h.find]

/-- A stop inside a revert leaves the store as it was or as a failed revert leaves it. -/
theorem KeptIn.stop_reverting (h : KeptIn encode key s t) {version : UInt32} {n written : Nat}
    (hd : (t.call (.change n written) (Call.run (.revert version))).table.dataLog.Image data)
    (hi : (t.call (.change n written) (Call.run (.revert version))).table.indexLog.Image index) :
    KeptIn encode key s.reopen (Kvstore.Table.reopened data index).table ∨
      ∃ reach s', s.revertFailed version reach = some s' ∧
        KeptIn encode key s'.reopen (Kvstore.Table.reopened data index).table := by
  by_cases hversion : s.currentVersion < version
  · left
    rw [h.current] at hversion
    rw [Kvstore.Table.revert_untouched hversion] at hd hi
    exact h.stop hd hi
  · have hle := UInt32.not_lt.mp hversion
    rw [h.settled.last] at hle
    obtain ⟨views, hkeeps, hasc, hmarks⟩ := h.disk
    rw [h.settled.disk] at hmarks
    obtain ⟨state, keptMarks, hstore⟩ := h.ascending.exists_cut none hle
    rw [← Mark.last_map (found encode), ← hmarks, Mark.last_map] at hle
    obtain ⟨view, kept, hcut⟩ := hkeeps.ascending.exists_cut emptyView hle
    have hrevert := h.settled.revert_cut h.ascending hstore
    have hkept : kept.map (Mark.map fun view ↦ view key) = keptMarks.map (Mark.map (found encode)) := by
      have hseen := hcut.map fun view : View ↦ view key
      rw [hmarks] at hseen
      exact (hseen.unique (hstore.map (found encode))).2
    have hkeptAsc := hstore.ascending h.ascending
    -- on disk is the table as it was, the reverted one, or that one without its marker
    rcases (hkeeps.reopened_revert hcut n written hd hi).2 with hr | hr | ⟨⟨hzero, hnone⟩, hr⟩
    · exact .inl (.of_rests hr hasc (by rw [h.settled.disk]; exact hmarks))
    · right
      exact ⟨.table, _, by rw [revertFailed, hrevert], .of_rests hr hkeptAsc hkept⟩
    · right
      have hnone' : ∀ m ∈ s.marks, m.version ≠ version := by
        intro m hm
        have hin : Mark.map (found encode) m ∈ views.map (Mark.map fun view ↦ view key) := by
          rw [hmarks]
          exact List.mem_map_of_mem hm
        obtain ⟨x, hx, heq⟩ := List.mem_map.mp hin
        have hsame : x.version = m.version := congrArg Mark.version heq
        rw [← hsame]
        exact hnone x hx
      have hdisk := h.settled.tornDisk_cut hzero hnone' hstore
      refine ⟨.cut, _, revertFailed_cut hrevert, .of_rests hr ?_ ?_⟩
      · dsimp only
        rw [hdisk]
        exact hkeptAsc.dropLast
      · dsimp only
        rw [hdisk, List.map_dropLast, List.map_dropLast, hkept]

end

/-! ## 4. Runs -/

/-- What is seen of the table and of the store. -/
inductive Seen (α : Type)
  | inserted (value : α)
  | committed (version : UInt32) (answer : Bool)
  | reverted (version : UInt32) (answer : Bool)
  | stopped
  | stoppedInserting (value : α)
  | stoppedCommitting (version : UInt32)
  | stoppedReverting (version : UInt32)

/-- A call on the table, or a stop at rest or inside a call and the restart after it.  A commit has a
version of its own. -/
inductive TableStep (encode : α → Bytes) (key : Bytes) : Kvstore.Table → Seen α → Kvstore.Table → Prop
  | inserted {t : Kvstore.Table} {value : α} (h : (t.outcome (.insert key (encode value))).result = .ok true) :
      TableStep encode key t (.inserted value) (t.step (.insert key (encode value)))
  | committed {t : Kvstore.Table} {version : UInt32} {answer : Bool} (hown : version ≠ t.state.currentVersion)
      (h : (t.outcome (.commit version)).result = .ok answer) :
      TableStep encode key t (.committed version answer) (t.step (.commit version))
  | reverted {t : Kvstore.Table} {version : UInt32} {answer : Bool}
      (h : (t.outcome (.revert version)).result = .ok answer) :
      TableStep encode key t (.reverted version answer) (t.step (.revert version))
  | stopped {t : Kvstore.Table} {data index : Bytes} (hd : t.dataLog.Image data) (hi : t.indexLog.Image index) :
      TableStep encode key t .stopped (Kvstore.Table.reopened data index).table
  | stoppedInserting {t : Kvstore.Table} {value : α} {n written : Nat} {data index : Bytes}
      (hd : (t.call (.change n written) (Call.run (.insert key (encode value)))).table.dataLog.Image data)
      (hi : (t.call (.change n written) (Call.run (.insert key (encode value)))).table.indexLog.Image index) :
      TableStep encode key t (.stoppedInserting value) (Kvstore.Table.reopened data index).table
  | stoppedCommitting {t : Kvstore.Table} {version : UInt32} {n written : Nat} {data index : Bytes}
      (hown : t.state.currentVersion < version)
      (hd : (t.call (.change n written) (Call.run (.commit version))).table.dataLog.Image data)
      (hi : (t.call (.change n written) (Call.run (.commit version))).table.indexLog.Image index) :
      TableStep encode key t (.stoppedCommitting version) (Kvstore.Table.reopened data index).table
  | stoppedReverting {t : Kvstore.Table} {version : UInt32} {n written : Nat} {data index : Bytes}
      (hd : (t.call (.change n written) (Call.run (.revert version))).table.dataLog.Image data)
      (hi : (t.call (.change n written) (Call.run (.revert version))).table.indexLog.Image index) :
      TableStep encode key t (.stoppedReverting version) (Kvstore.Table.reopened data index).table

/-- The same in the store. -/
inductive Step : Store α → Seen α → Store α → Prop
  | inserted {s : Store α} {value : α} : Step s (.inserted value) (s.insert value)
  | committed {s s' : Store α} {version : UInt32} {answer : Bool} (h : s.commit version = (answer, s')) :
      Step s (.committed version answer) s'
  | reverted {s s' : Store α} {version : UInt32} {answer : Bool} (h : s.revert version = some (answer, s')) :
      Step s (.reverted version answer) s'
  | stopped {s : Store α} : Step s .stopped s.reopen
  | stoppedInserting {s : Store α} {value : α} : Step s (.stoppedInserting value) (s.insert value).reopen
  | stoppedCommitting {s : Store α} {version : UInt32} (reach : Reach) :
      Step s (.stoppedCommitting version) (s.commitFailed version reach).reopen
  | notReverted {s : Store α} {version : UInt32} : Step s (.stoppedReverting version) s.reopen
  | stoppedReverting {s s' : Store α} {version : UInt32} {reach : Reach}
      (h : s.revertFailed version reach = some s') : Step s (.stoppedReverting version) s'.reopen

theorem keptIn_created (encode : α → Bytes) (key : Bytes) : KeptIn encode key created Kvstore.Table.created :=
  ⟨⟨rfl, rfl, rfl⟩, Mark.ascending_nil, ⟨emptyView, []⟩, holds_created, rfl⟩

theorem KeptIn.step {encode : α → Bytes} {key : Bytes} {s : Store α} {t t' : Kvstore.Table} {seen : Seen α}
    (h : KeptIn encode key s t) (hstep : TableStep encode key t seen t') :
    ∃ s', Step s seen s' ∧ KeptIn encode key s' t' := by
  cases hstep with
  | inserted hok => exact ⟨_, .inserted, h.insert _ hok⟩
  | committed hown hok =>
      obtain ⟨hanswer, hnext⟩ := h.commit hown hok
      exact ⟨_, .committed (Prod.ext hanswer rfl), hnext⟩
  | @reverted version answer hok =>
      obtain ⟨answer', s', hresult, hrevert, hnext⟩ := h.revert version
      rw [hok] at hresult
      cases hresult
      exact ⟨s', .reverted hrevert, hnext⟩
  | stopped hd hi => exact ⟨_, .stopped, h.stop hd hi⟩
  | stoppedInserting hd hi => exact ⟨_, .stoppedInserting, h.stop_inserting _ hd hi⟩
  | stoppedCommitting hown hd hi =>
      obtain ⟨reach, hnext⟩ := h.stop_committing hown hd hi
      exact ⟨_, .stoppedCommitting reach, hnext⟩
  | stoppedReverting hd hi =>
      rcases h.stop_reverting hd hi with hnext | ⟨reach, s', hfailed, hnext⟩
      · exact ⟨_, .notReverted, hnext⟩
      · exact ⟨_, .stoppedReverting hfailed, hnext⟩

/-- The store goes through every run of the table with the same answers, and shows what `find` finds. -/
theorem shows_table {encode : α → Bytes} {key : Bytes} {seen : List (Seen α)} {t : Kvstore.Table}
    (h : Trace (TableStep encode key) Kvstore.Table.created seen t) :
    ∃ s, Trace Step created seen s ∧ s.currentVersion = t.state.currentVersion ∧
      t.view key = .ok (s.shown.map encode) := by
  have hstep (t : Kvstore.Table) (s : Store α) (a : Seen α) (t' : Kvstore.Table) (hkept : KeptIn encode key s t)
      (hstep : TableStep encode key t a t') : ∃ s', Step s a s' ∧ KeptIn encode key s' t' := hkept.step hstep
  obtain ⟨s, htrace, hkept⟩ := h.simulated hstep (keptIn_created encode key)
  exact ⟨s, htrace, hkept.current, hkept.find⟩

end Stainless.Poker.Store
