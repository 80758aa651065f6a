import Stainless.Kvstore.Database

/-!
# Runs of a database

However often the process stops and wherever it does, the tables have one history in common up to the
least of their versions, and `recover` takes all of them there.
-/

open Reasoning Stainless.Runtime

namespace Stainless.Kvstore.Database

/-! ## 1. The loops -/

theorem eachTable_ok {body : Table → Outcome Bool} {tables : List Table}
    (h : ∀ t ∈ tables, (body t).result = .ok true) :
    eachTable body tables = ⟨.ok true, tables.map fun t ↦ (body t).table⟩ := by
  induction tables with
  | nil => rfl
  | cons t tables ih =>
      have ht := h t List.mem_cons_self
      rw [eachTable, ih fun t ht ↦ h t (List.mem_cons_of_mem _ ht)]
      cases hbody : body t with
      | mk result table =>
          rw [hbody] at ht
          cases ht
          simp [hbody]

/-- A loop without an I/O error whose calls know no other failure runs to its end. -/
theorem eachTable_all {body : Table → Outcome Bool} {tables : List Table}
    (hio : (eachTable body tables).result ≠ .error .io)
    (h : ∀ t ∈ tables, (body t).result ≠ .error .io → (body t).result = .ok true) :
    ∀ t ∈ tables, (body t).result = .ok true := by
  induction tables with
  | nil => exact fun t ht ↦ absurd ht List.not_mem_nil
  | cons t tables ih =>
      have hfirst := h t List.mem_cons_self
      rw [eachTable] at hio
      cases hbody : body t with
      | mk result table =>
          rw [hbody] at hio hfirst
          have hresult : result = .ok true := by
            refine hfirst fun herr ↦ ?_
            dsimp only at herr
            subst herr
            exact hio rfl
          subst hresult
          rw [List.forall_mem_cons]
          exact ⟨by rw [hbody], ih hio fun t ht ↦ h t (List.mem_cons_of_mem _ ht)⟩

theorem handle_getElem? {body : Table → Outcome Bool} {tables : List Table} {handled : Nat}
    (h : ∀ t ∈ tables.take handled, (body t).result = .ok true) (i : Nat) :
    (handle body handled tables)[i]? =
      if i < handled then tables[i]?.map fun t ↦ (body t).table else tables[i]? := by
  rw [handle, eachTable_ok h, List.getElem?_append]
  simp only [List.length_map, List.length_take, List.getElem?_map, List.getElem?_take, List.getElem?_drop]
  by_cases hi : i < handled
  · by_cases hlen : i < tables.length
    · rw [if_pos (by omega), if_pos hi, if_pos hi]
    · rw [if_neg (by omega), if_pos hi, List.getElem?_eq_none (by omega), List.getElem?_eq_none (by omega)]
      rfl
  · rw [if_neg (by omega), if_neg hi]
    by_cases hlen : handled ≤ tables.length
    · rw [Nat.min_eq_left hlen, show handled + (i - handled) = i by omega]
    · rw [List.getElem?_eq_none (by omega), List.getElem?_eq_none (by omega)]

/-- The fold of `current_version` finds the least version. -/
theorem leastVersion_spec {tables : List Table} (hne : tables ≠ []) :
    (∀ t ∈ tables, leastVersion tables ≤ t.state.currentVersion) ∧
      ∃ t ∈ tables, t.state.currentVersion = leastVersion tables := by
  suffices hfold : ∀ (tables : List Table) (start : UInt32),
      let least := tables.foldl (fun version table ↦
        if table.state.currentVersion < version then table.state.currentVersion else version) start
      least ≤ start ∧ (∀ t ∈ tables, least ≤ t.state.currentVersion) ∧
        (least = start ∨ ∃ t ∈ tables, t.state.currentVersion = least) by
    obtain ⟨-, hle, hattained⟩ := hfold tables Limits.maxVersion
    refine ⟨hle, ?_⟩
    rcases hattained with heq | hattained
    · -- all versions are the greatest one
      obtain ⟨t, ht⟩ := List.exists_mem_of_ne_nil tables hne
      have hmax := hle t ht
      rw [heq] at hmax
      exact ⟨t, ht, (UInt32.le_antisymm (maxVersion_le _) hmax).trans heq.symm⟩
    · exact hattained
  intro tables
  induction tables with
  | nil => exact fun start ↦ ⟨UInt32.le_refl _, fun t ht ↦ absurd ht List.not_mem_nil, .inl rfl⟩
  | cons t tables ih =>
      intro start
      rw [List.foldl_cons]
      dsimp only
      split
      · rename_i hlt
        obtain ⟨hstart, hle, hattained⟩ := ih t.state.currentVersion
        refine ⟨UInt32.le_trans hstart (UInt32.le_of_lt hlt), List.forall_mem_cons.mpr ⟨hstart, hle⟩, .inr ?_⟩
        rcases hattained with heq | ⟨u, hu, heq⟩
        · exact ⟨t, List.mem_cons_self, heq.symm⟩
        · exact ⟨u, List.mem_cons_of_mem _ hu, heq⟩
      · rename_i hge
        obtain ⟨hstart, hle, hattained⟩ := ih start
        refine ⟨hstart, List.forall_mem_cons.mpr ⟨UInt32.le_trans hstart (UInt32.not_lt.mp hge), hle⟩, ?_⟩
        exact hattained.imp id fun ⟨u, hu, heq⟩ ↦ ⟨u, List.mem_cons_of_mem _ hu, heq⟩

/-! ## 2. What the tables have in common -/

/-- What the commits of the database are for one table. -/
abbrev tableMarks (marks : List (Mark Views)) (i : Nat) : List (Mark View) :=
  marks.map (Mark.map fun views ↦ views i)

/-- The table's own history leads back to that of the database. -/
def Shares (marks : List (Mark Views)) (i : Nat) (own : List (Mark View)) : Prop :=
  ∃ view, Mark.Cut emptyView (Mark.last marks) own view (tableMarks marks i)

/-- Every table has a history of its own, all lead back to that of the database, and one table is no
further. -/
structure Sound (P : List (Mark View) → Table → Prop) (marks : List (Mark Views)) (tables : List Table) :
    Prop where
  ascending : Mark.Ascending marks
  table : ∀ (i : Nat) (t : Table), tables[i]? = some t → ∃ own, P own t ∧ Shares marks i own
  least : tables ≠ [] →
    ∃ (i : Nat) (t : Table), tables[i]? = some t ∧ t.state.currentVersion = Mark.last marks
  empty : tables = [] → marks = []

section

variable {marks : List (Mark Views)} {tables : List Table} {i : Nat} {t : Table} {own : List (Mark View)}
  {version : UInt32}

theorem ascending_tableMarks (h : Mark.Ascending marks) (i : Nat) : Mark.Ascending (tableMarks marks i) :=
  (Mark.ascending_map_iff _).mpr h

theorem shares_tableMarks (h : Mark.Ascending marks) (i : Nat) : Shares marks i (tableMarks marks i) := by
  obtain ⟨view, hcut⟩ := (ascending_tableMarks h i).cut_last emptyView
  rw [Mark.last_map] at hcut
  exact ⟨view, hcut⟩

/-- A table that is at the version of the database has its history. -/
theorem Shares.eq_of_last (h : Shares marks i own) (hown : Mark.Ascending own)
    (hlast : Mark.last own = Mark.last marks) : own = tableMarks marks i := by
  obtain ⟨view, hcut⟩ := h
  obtain ⟨view', hcut'⟩ := hown.cut_last emptyView
  rw [hlast] at hcut'
  exact hcut'.rewind_eq.symm.trans hcut.rewind_eq

/-- Going back with the database. -/
theorem Shares.back (h : Shares marks i own) {state : Views} {kept : List (Mark Views)}
    (hcut : Mark.Cut creation version marks state kept) (hle : version ≤ Mark.last marks) :
    Mark.Cut emptyView version own (state i) (tableMarks kept i) := by
  obtain ⟨view, hown⟩ := h
  exact hown.trans (hcut.map fun views ↦ views i) hle

theorem Sound.last_le (hs : Sound Keeps marks tables) (ht : tables[i]? = some t) :
    Mark.last marks ≤ t.state.currentVersion := by
  obtain ⟨own, hkeeps, view, hcut⟩ := hs.table i t ht
  rw [hkeeps.current]
  exact hcut.le_last hkeeps.ascending

theorem Sound.leastVersion_eq (hs : Sound Keeps marks tables) (hne : tables ≠ []) :
    leastVersion tables = Mark.last marks := by
  obtain ⟨hle, t, ht, hleast⟩ := leastVersion_spec hne
  obtain ⟨i, u, hu, hlast⟩ := hs.least hne
  refine UInt32.le_antisymm ?_ ?_
  · rw [← hlast]
    exact hle u (List.mem_of_getElem? hu)
  · obtain ⟨j, hj⟩ := List.mem_iff_getElem?.mp ht
    rw [← hleast]
    exact hs.last_le hj

theorem Sound.mono {P Q : List (Mark View) → Table → Prop} (hs : Sound P marks tables)
    (h : ∀ own t, P own t → Q own t) : Sound Q marks tables where
  ascending := hs.ascending
  table i t ht := by
    obtain ⟨own, hp, hshares⟩ := hs.table i t ht
    exact ⟨own, h own t hp, hshares⟩
  least := hs.least
  empty := hs.empty

theorem sound_created (n : Nat) : Sound Keeps [] (List.replicate n Table.created) where
  ascending := Mark.ascending_nil
  table i t ht := by
    have hcreated : t = Table.created := List.eq_of_mem_replicate (List.mem_of_getElem? ht)
    subst hcreated
    exact ⟨[], keeps_created, shares_tableMarks Mark.ascending_nil i⟩
  least hne := by
    cases n with
    | zero => exact absurd rfl hne
    | succ n => exact ⟨0, Table.created, by simp [List.replicate_succ], keeps_created.current⟩
  empty _ := rfl

end

theorem views_eq {tables : List Table} {i : Nat} {t : Table} (h : tables[i]? = some t) : views tables i = t.view := by
  rw [views, h]

theorem tableMarks_concat (marks : List (Mark Views)) (m : Mark Views) (i : Nat) :
    tableMarks (marks ++ [m]) i = tableMarks marks i ++ [⟨m.version, m.before i, m.after i⟩] := by
  rw [tableMarks, List.map_append]
  rfl

theorem eachTable_tables {body : Table → Outcome Bool} {tables : List Table} :
    (eachTable body tables).tables = handle body tables.length tables := by
  rw [handle, List.take_length, List.drop_length, List.append_nil]

theorem handle_length {body : Table → Outcome Bool} {tables : List Table} {handled : Nat}
    (h : ∀ t ∈ tables.take handled, (body t).result = .ok true) :
    (handle body handled tables).length = tables.length := by
  rw [handle, eachTable_ok h, List.length_append, List.length_map, List.length_take, List.length_drop]
  omega

/-! ## 3. One call -/

section

variable {marks : List (Mark Views)} {tables : List Table} {version : UInt32}

theorem Sound.insert (hs : Sound Keeps marks tables) (i : Nat) (key value : Bytes)
    (hio : ∀ t, tables[i]? = some t → NoIoError t (.insert key value)) :
    Sound Keeps marks (tables.modify i (·.step (.insert key value))) := by
  have hget (j : Nat) (t' : Table) (h : (tables.modify i (·.step (.insert key value)))[j]? = some t') :
      ∃ t, tables[j]? = some t ∧ ∀ own, Keeps own t → Keeps own t' := by
    rw [List.getElem?_modify] at h
    obtain ⟨t, ht, rfl⟩ := Option.map_eq_some_iff.mp h
    refine ⟨t, ht, fun own hkeeps ↦ ?_⟩
    split
    · rename_i hij
      subst hij
      exact hkeeps.insert (hio t ht)
    · exact hkeeps
  constructor
  case ascending => exact hs.ascending
  case table =>
    intro j t' ht'
    obtain ⟨t, ht, hkeep⟩ := hget j t' ht'
    obtain ⟨own, hkeeps, hshares⟩ := hs.table j t ht
    exact ⟨own, hkeep own hkeeps, hshares⟩
  case least =>
    intro hne
    have hne' : tables ≠ [] := by
      rintro rfl
      exact hne (by simp)
    obtain ⟨j, t, ht, hlast⟩ := hs.least hne'
    have hlt := (List.getElem?_eq_some_iff.mp ht).1
    obtain ⟨t', ht'⟩ : ∃ t', (tables.modify i (·.step (.insert key value)))[j]? = some t' :=
      ⟨_, List.getElem?_eq_getElem (by rw [List.length_modify]; exact hlt)⟩
    obtain ⟨u, hu, hkeep⟩ := hget j t' ht'
    rw [ht] at hu
    cases hu
    obtain ⟨own, hkeeps, -⟩ := hs.table j t ht
    refine ⟨j, t', ht', ?_⟩
    rw [(hkeep own hkeeps).current, ← hkeeps.current, hlast]
  case empty =>
    intro hnil
    have hlen := congrArg List.length hnil
    rw [List.length_modify] at hlen
    exact hs.empty (List.length_eq_zero_iff.mp hlen)

/-- A commit is let through when the tables are together. -/
theorem Sound.together (hs : Sound Keeps marks tables) (hmay : mayCommit tables version = true) :
    tables ≠ [] ∧ Mark.last marks < version ∧
      ∀ (i : Nat) (t : Table), tables[i]? = some t → Keeps (tableMarks marks i) t := by
  cases tables with
  | nil => cases hmay
  | cons first rest =>
      rw [mayCommit, Bool.and_eq_true, List.all_eq_true, Bool.not_eq_true', decide_eq_false_iff_not] at hmay
      obtain ⟨hall, hlt⟩ := hmay
      have hsame : ∀ t ∈ first :: rest, t.state.currentVersion = first.state.currentVersion :=
        List.forall_mem_cons.mpr ⟨rfl, fun t ht ↦ by simpa using hall t ht⟩
      obtain ⟨j, u, hu, hlast⟩ := hs.least (List.cons_ne_nil _ _)
      have hfirst : first.state.currentVersion = Mark.last marks := by
        rw [← hsame u (List.mem_of_getElem? hu), hlast]
      rw [hfirst] at hlt
      refine ⟨List.cons_ne_nil _ _, UInt32.not_le.mp hlt, fun i t ht ↦ ?_⟩
      obtain ⟨own, hkeeps, hshares⟩ := hs.table i t ht
      have hown : Mark.last own = Mark.last marks := by
        rw [← hkeeps.current, hsame t (List.mem_of_getElem? ht), hfirst]
      rw [← hshares.eq_of_last hkeeps.ascending hown]
      exact hkeeps

/-- Every table commits. -/
theorem Sound.commits (hs : Sound Keeps marks tables) (hmay : mayCommit tables version = true)
    {front : List Table} (hfront : ∀ t ∈ front, t ∈ tables)
    (hio : (eachTable (·.outcome (.commit version)) front).result ≠ .error .io) :
    ∀ t ∈ front, (t.outcome (.commit version)).result = .ok true := by
  obtain ⟨-, hlt, hkeeps⟩ := hs.together hmay
  refine eachTable_all hio fun t ht hok ↦ ?_
  obtain ⟨i, hi⟩ := List.mem_iff_getElem?.mp (hfront t ht)
  exact ((hkeeps i t hi).commit (by rwa [Mark.last_map]) hok).1

theorem Sound.commit (hs : Sound Keeps marks tables) (hio : (commit tables version).result ≠ .error .io) :
    Sound Keeps (history marks tables (.commit version)) (commit tables version).tables := by
  change Sound Keeps (if (Database.commit tables version).result = .ok true then
    marks ++ [⟨version, views tables, views (Database.commit tables version).tables⟩] else marks) _
  unfold Database.commit at hio ⊢
  by_cases hmay : mayCommit tables version = true
  · obtain ⟨hne, hlt, hkeeps⟩ := hs.together hmay
    rw [if_pos hmay] at hio ⊢
    have hall := hs.commits hmay (fun t ht ↦ ht) hio
    rw [eachTable_ok hall]
    dsimp only
    rw [if_pos rfl]
    have htable (i : Nat) (t' : Table)
        (ht' : (tables.map fun t ↦ (t.outcome (.commit version)).table)[i]? = some t') :
        Keeps (tableMarks (marks ++ [⟨version, views tables,
          views (tables.map fun t ↦ (t.outcome (.commit version)).table)⟩]) i) t' := by
      have hview := views_eq ht'
      rw [List.getElem?_map] at ht'
      obtain ⟨t, ht, rfl⟩ := Option.map_eq_some_iff.mp ht'
      have hresult := hall t (List.mem_of_getElem? ht)
      obtain ⟨-, hsame, hnext⟩ := (hkeeps i t ht).commit (by rwa [Mark.last_map])
        (by rw [NoIoError, hresult]; simp)
      rw [tableMarks_concat]
      dsimp only
      rw [hview, views_eq ht]
      rw [← hsame] at hnext
      nth_rewrite 1 [hsame] at hnext
      exact hnext
    constructor
    case ascending => exact hs.ascending.concat hlt
    case table =>
      intro i t' ht'
      exact ⟨_, htable i t' ht', shares_tableMarks (hs.ascending.concat hlt) i⟩
    case least =>
      intro hne'
      obtain ⟨t', ht'⟩ := List.exists_mem_of_ne_nil _ hne'
      obtain ⟨i, hi⟩ := List.mem_iff_getElem?.mp ht'
      exact ⟨i, t', hi, by rw [(htable i t' hi).current, Mark.last_map]⟩
    case empty => exact fun hnil ↦ absurd (List.map_eq_nil_iff.mp hnil) hne
  · rw [if_neg hmay, if_neg (by simp)]
    exact hs

/-- A revert is let through up to the version of the database. -/
theorem Sound.reverts (hs : Sound Keeps marks tables) (hmay : mayRevert tables version = true) :
    tables ≠ [] ∧ ∃ state kept, Mark.Cut creation version marks state kept ∧
      version ≤ Mark.last marks ∧
      ∀ (i : Nat) (t : Table), tables[i]? = some t →
        (t.outcome (.revert version)).result = .ok true ∧ (t.step (.revert version)).view = state i ∧
          Keeps (tableMarks kept i) (t.step (.revert version)) := by
  rw [mayRevert, Bool.and_eq_true, Bool.not_eq_true', List.all_eq_true, List.isEmpty_eq_false_iff] at hmay
  obtain ⟨hne, hall⟩ := hmay
  obtain ⟨j, u, hu, hlast⟩ := hs.least hne
  have hle : version ≤ Mark.last marks := by
    have hu' := hall u (List.mem_of_getElem? hu)
    rw [Bool.not_eq_true', decide_eq_false_iff_not, hlast] at hu'
    exact UInt32.not_lt.mp hu'
  obtain ⟨state, kept, hcut⟩ := hs.ascending.exists_cut creation hle
  refine ⟨hne, state, kept, hcut, hle, fun i t ht ↦ ?_⟩
  obtain ⟨own, hkeeps, hshares⟩ := hs.table i t ht
  exact hkeeps.revert (hshares.back hcut hle)

/-- Once the first table is reverted the database is. -/
theorem Sound.revert_handled (hs : Sound Keeps marks tables) (hmay : mayRevert tables version = true)
    {handled : Nat} (hpos : 0 < handled) :
    Sound Keeps (Mark.rewind creation version marks)
      (handle (·.outcome (.revert version)) handled tables) := by
  obtain ⟨hne, state, kept, hcut, hle, hall⟩ := hs.reverts hmay
  have hok : ∀ t ∈ tables.take handled, (t.outcome (.revert version)).result = .ok true := by
    intro t ht
    obtain ⟨i, hi⟩ := List.mem_iff_getElem?.mp (List.mem_of_mem_take ht)
    exact (hall i t hi).1
  have hkept := hcut.ascending hs.ascending
  rw [hcut.rewind_eq]
  constructor
  case ascending => exact hkept
  case table =>
    intro i t' ht'
    rw [handle_getElem? hok] at ht'
    split at ht'
    · obtain ⟨t, ht, rfl⟩ := Option.map_eq_some_iff.mp ht'
      exact ⟨_, (hall i t ht).2.2, shares_tableMarks hkept i⟩
    · obtain ⟨own, hkeeps, hshares⟩ := hs.table i t' ht'
      refine ⟨own, hkeeps, state i, ?_⟩
      rw [hcut.last_eq]
      exact hshares.back hcut hle
  case least =>
    intro _
    obtain ⟨t, ht⟩ : ∃ t, tables[0]? = some t :=
      ⟨_, List.getElem?_eq_getElem (List.length_pos_iff.mpr hne)⟩
    refine ⟨0, _, by rw [handle_getElem? hok, if_pos hpos, ht]; rfl, ?_⟩
    exact (hall 0 t ht).2.2.current.trans (Mark.last_map _ _)
  case empty =>
    intro hnil
    have hlen := congrArg List.length hnil
    rw [handle_length hok] at hlen
    exact absurd (List.length_eq_zero_iff.mp hlen) hne

theorem Sound.revert (hs : Sound Keeps marks tables) (version : UInt32) :
    Sound Keeps (history marks tables (.revert version)) (revert tables version).tables := by
  change Sound Keeps (if (Database.revert tables version).result = .ok true then
    Mark.rewind creation version marks else marks) _
  unfold Database.revert
  by_cases hmay : mayRevert tables version = true
  · rw [if_pos hmay]
    obtain ⟨hne, state, kept, hcut, hle, hall⟩ := hs.reverts hmay
    have hok : ∀ t ∈ tables, (t.outcome (.revert version)).result = .ok true := by
      intro t ht
      obtain ⟨i, hi⟩ := List.mem_iff_getElem?.mp ht
      exact (hall i t hi).1
    have hresult : (eachTable (·.outcome (.revert version)) tables).result = .ok true := by
      rw [eachTable_ok hok]
    rw [if_pos hresult, eachTable_tables]
    exact hs.revert_handled hmay (List.length_pos_iff.mpr hne)
  · rw [if_neg hmay, if_neg (by simp)]
    exact hs

/-- `recover` takes a table to the version of the database. -/
theorem Sound.recovers (hs : Sound Keeps marks tables) {i : Nat} {t : Table} (ht : tables[i]? = some t) :
    (recoverTable (leastVersion tables) t).result = .ok true ∧
      Keeps (tableMarks marks i) (recoverTable (leastVersion tables) t).table ∧
      ((recoverTable (leastVersion tables) t).table = t ∨
        Mark.Cut emptyView (Mark.last marks) (tableMarks marks i)
          (recoverTable (leastVersion tables) t).table.view (tableMarks marks i)) := by
  have hne : tables ≠ [] := by
    rintro rfl
    simp at ht
  obtain ⟨own, hkeeps, hshares⟩ := hs.table i t ht
  rw [hs.leastVersion_eq hne, recoverTable]
  split
  · obtain ⟨view, hcut⟩ := hshares
    obtain ⟨hresult, hview, hnext⟩ := hkeeps.revert hcut
    obtain ⟨state, hlast⟩ := hs.ascending.cut_last creation
    have hback := hlast.map fun views ↦ views i
    refine ⟨by dsimp only; rw [hresult]; rfl, hnext, .inr ?_⟩
    have heq : view = state i := by
      have hown := (hcut.trans hback (UInt32.le_refl _)).boundary_eq
      exact Option.some.inj (hcut.boundary_eq.symm.trans hown)
    dsimp only
    rw [← Table.step, hview, heq]
    exact hback
  · rename_i hge
    have hown : Mark.last own = Mark.last marks := by
      rw [← hkeeps.current]
      exact UInt32.le_antisymm (UInt32.not_lt.mp hge) (hs.last_le ht)
    rw [hshares.eq_of_last hkeeps.ascending hown] at hkeeps
    exact ⟨rfl, hkeeps, .inl rfl⟩

theorem Sound.recover_handled (hs : Sound Keeps marks tables) (handled : Nat) :
    Sound Keeps marks (handle (recoverTable (leastVersion tables)) handled tables) := by
  have hok : ∀ t ∈ tables.take handled, (recoverTable (leastVersion tables) t).result = .ok true := by
    intro t ht
    obtain ⟨i, hi⟩ := List.mem_iff_getElem?.mp (List.mem_of_mem_take ht)
    exact (hs.recovers hi).1
  constructor
  case ascending => exact hs.ascending
  case table =>
    intro i t' ht'
    rw [handle_getElem? hok] at ht'
    split at ht'
    · obtain ⟨t, ht, rfl⟩ := Option.map_eq_some_iff.mp ht'
      exact ⟨_, (hs.recovers ht).2.1, shares_tableMarks hs.ascending i⟩
    · exact hs.table i t' ht'
  case least =>
    intro hne
    have hne' : tables ≠ [] := by
      rintro rfl
      have hlen := handle_length hok
      exact hne (List.length_eq_zero_iff.mp hlen)
    obtain ⟨i, t, ht, hlast⟩ := hs.least hne'
    by_cases hi : i < handled
    · refine ⟨i, _, by rw [handle_getElem? hok, if_pos hi, ht]; rfl, ?_⟩
      rw [(hs.recovers ht).2.1.current, Mark.last_map]
    · exact ⟨i, t, by rw [handle_getElem? hok, if_neg hi, ht], hlast⟩
  case empty =>
    intro hnil
    have hlen := congrArg List.length hnil
    rw [handle_length hok] at hlen
    exact hs.empty (List.length_eq_zero_iff.mp hlen)

theorem Sound.recover (hs : Sound Keeps marks tables) : Sound Keeps marks (recover tables).tables := by
  unfold Database.recover
  split
  · exact hs
  · dsimp only
    rw [eachTable_tables]
    exact hs.recover_handled tables.length

end

/-! ## 4. Stopping and opening again -/

theorem forall₂_getElem? {α β : Type} {R : α → β → Prop} {l : List α} {l' : List β} (h : List.Forall₂ R l l') :
    l.length = l'.length ∧ ∀ (i : Nat) (a : α) (b : β), l[i]? = some a → l'[i]? = some b → R a b := by
  rw [List.forall₂_iff_get] at h
  refine ⟨h.1, fun i a b ha hb ↦ ?_⟩
  obtain ⟨hi, rfl⟩ := List.getElem?_eq_some_iff.mp ha
  obtain ⟨hi', rfl⟩ := List.getElem?_eq_some_iff.mp hb
  exact h.2 i hi hi'

/-- All tables open, and show what is committed. -/
structure Reopens (marks : List (Mark Views)) (left : List Files) : Prop where
  result : ∀ files ∈ left, files.open.result = .ok ()
  sound : Sound Rests marks (left.map fun files ↦ files.open.table)

section

variable {marks : List (Mark Views)} {tables : List Table} {left : List Files} {version : UInt32}

/-- Opening tables that keep their histories. -/
theorem Sound.reopens (hs : Sound Keeps marks tables) (hlen : tables.length = left.length)
    (hopen : ∀ (i : Nat) (t : Table) (files : Files) (own : List (Mark View)), tables[i]? = some t →
      left[i]? = some files → Keeps own t → files.open.result = .ok () ∧ Rests own files.open.table) :
    Reopens marks left := by
  have hback (i : Nat) (files : Files) (hfiles : left[i]? = some files) : ∃ t, tables[i]? = some t := by
    have hlt := (List.getElem?_eq_some_iff.mp hfiles).1
    exact ⟨_, List.getElem?_eq_getElem (by omega)⟩
  constructor
  case result =>
    intro files hmem
    obtain ⟨i, hfiles⟩ := List.mem_iff_getElem?.mp hmem
    obtain ⟨t, ht⟩ := hback i files hfiles
    obtain ⟨own, hkeeps, -⟩ := hs.table i t ht
    exact (hopen i t files own ht hfiles hkeeps).1
  case sound =>
    constructor
    case ascending => exact hs.ascending
    case table =>
      intro i t' ht'
      rw [List.getElem?_map] at ht'
      obtain ⟨files, hfiles, rfl⟩ := Option.map_eq_some_iff.mp ht'
      obtain ⟨t, ht⟩ := hback i files hfiles
      obtain ⟨own, hkeeps, hshares⟩ := hs.table i t ht
      exact ⟨own, (hopen i t files own ht hfiles hkeeps).2, hshares⟩
    case least =>
      intro hne
      have hne' : tables ≠ [] := by
        rintro rfl
        rw [List.length_nil] at hlen
        exact hne (by rw [List.length_eq_zero_iff.mp hlen.symm]; rfl)
      obtain ⟨i, t, ht, hlast⟩ := hs.least hne'
      have hlt := (List.getElem?_eq_some_iff.mp ht).1
      have hfiles : left[i]? = some left[i] := List.getElem?_eq_getElem (by omega)
      obtain ⟨own, hkeeps, -⟩ := hs.table i t ht
      refine ⟨i, left[i].open.table, by rw [List.getElem?_map, hfiles]; rfl, ?_⟩
      rw [(hopen i t left[i] own ht hfiles hkeeps).2.keeps.current, ← hkeeps.current, hlast]
    case empty =>
      intro hnil
      have hzero := congrArg List.length hnil
      rw [List.length_map, ← hlen] at hzero
      exact hs.empty (List.length_eq_zero_iff.mp hzero)

/-- What a crash can leave of the files of each table. -/
abbrev Left (tables : List Table) (left : List Files) : Prop :=
  List.Forall₂ (fun table files ↦ table.dataLog.Image files.data ∧ table.indexLog.Image files.index)
    tables left

theorem Sound.reopens_idle (hs : Sound Keeps marks tables) (hleft : Left tables left) :
    Reopens marks left := by
  obtain ⟨hlen, himage⟩ := forall₂_getElem? hleft
  refine hs.reopens hlen fun i t files own ht hfiles hkeeps ↦ ?_
  obtain ⟨hd, hi⟩ := himage i t files ht hfiles
  exact hkeeps.reopened hd hi

theorem Sound.reopens_insert (hs : Sound Keeps marks tables) {i n written : Nat} {key value : Bytes}
    (hleft : Left (stopped tables (.insert i key value n written)) left) : Reopens marks left := by
  obtain ⟨hlen, himage⟩ := forall₂_getElem? hleft
  rw [stopped, List.length_modify] at hlen
  refine hs.reopens hlen fun j t files own ht hfiles hkeeps ↦ ?_
  obtain ⟨hd, hi⟩ := himage j _ files (by rw [stopped, List.getElem?_modify, ht]; rfl) hfiles
  dsimp only at hd hi
  by_cases hij : i = j
  · rw [if_pos hij] at hd hi
    exact hkeeps.reopened_insert key value n written hd hi
  · rw [if_neg hij] at hd hi
    exact hkeeps.reopened hd hi

/-- In a commit every table has the version or has it not. -/
theorem Sound.reopens_commit (hs : Sound Keeps marks tables) {handled : Nat} {fault : Option (Nat × Nat)}
    (hclean : (Stop.commit version handled fault).Clean tables)
    (hleft : Left (stopped tables (.commit version handled fault)) left) :
    Reopens (history marks tables (.restart (.commit version handled fault) left)) left := by
  change Reopens (if mayCommit tables version ∧
    ∀ files ∈ left, files.open.table.state.currentVersion = version then
      marks ++ [⟨version, views tables, views tables⟩] else marks) left
  by_cases hmay : mayCommit tables version = true
  case neg =>
    rw [stopped, if_neg hmay] at hleft
    rw [if_neg fun h ↦ hmay h.1]
    exact hs.reopens_idle hleft
  obtain ⟨hne, hlt, hkeeps⟩ := hs.together hmay
  have hok := hs.commits hmay (fun t ht ↦ List.mem_of_mem_take ht) hclean
  obtain ⟨hlen, himage⟩ := forall₂_getElem? hleft
  rw [stopped, if_pos hmay, List.length_modify, handle_length hok] at hlen
  -- each table, wherever the process stopped
  have hopen (i : Nat) (t : Table) (files : Files) (ht : tables[i]? = some t) (hfiles : left[i]? = some files) :
      files.open.result = .ok () ∧ (Rests (tableMarks marks i) files.open.table ∨
        Rests (tableMarks (marks ++ [⟨version, views tables, views tables⟩]) i) files.open.table) := by
    have hkeep := hkeeps i t ht
    have hlt' : Mark.last (tableMarks marks i) < version := by rwa [Mark.last_map]
    rw [tableMarks_concat]
    dsimp only
    rw [views_eq ht]
    have hat := himage i
    rw [stopped, if_pos hmay, List.getElem?_modify, handle_getElem? hok, ht] at hat
    by_cases hi : i < handled
    · rw [if_pos hi] at hat
      obtain ⟨hd, hx⟩ := hat _ files rfl hfiles
      dsimp only at hd hx
      rw [if_neg (by omega)] at hd hx
      have hresult : (t.outcome (.commit version)).result = .ok true := by
        refine hok t (List.mem_of_getElem? (i := i) ?_)
        rw [List.getElem?_take, if_pos hi, ht]
      obtain ⟨-, -, hnext⟩ := hkeep.commit hlt' (by rw [NoIoError, hresult]; simp)
      exact (hnext.reopened hd hx).imp_right .inr
    · rw [if_neg hi] at hat
      obtain ⟨hd, hx⟩ := hat _ files rfl hfiles
      dsimp only at hd hx
      by_cases heq : handled = i
      · rw [if_pos heq] at hd hx
        unfold tear at hd hx
        cases fault with
        | none => exact (hkeep.reopened hd hx).imp_right .inl
        | some fault => exact hkeep.reopened_commit hlt' fault.1 fault.2 hd hx
      · rw [if_neg heq] at hd hx
        exact (hkeep.reopened hd hx).imp_right .inl
  have hback (i : Nat) (files : Files) (hfiles : left[i]? = some files) : ∃ t, tables[i]? = some t := by
    have hi := (List.getElem?_eq_some_iff.mp hfiles).1
    exact ⟨_, List.getElem?_eq_getElem (by omega)⟩
  have hresult : ∀ files ∈ left, files.open.result = .ok () := by
    intro files hmem
    obtain ⟨i, hfiles⟩ := List.mem_iff_getElem?.mp hmem
    obtain ⟨t, ht⟩ := hback i files hfiles
    exact (hopen i t files ht hfiles).1
  have hnil (h : left.map (fun files ↦ files.open.table) = []) : tables = [] := by
    have hzero := congrArg List.length h
    rw [List.length_map, ← hlen] at hzero
    exact List.length_eq_zero_iff.mp hzero
  have hnext := hs.ascending.concat (m := ⟨version, views tables, views tables⟩) hlt
  refine ⟨hresult, ?_⟩
  by_cases hall : ∀ files ∈ left, files.open.table.state.currentVersion = version
  · -- the commit reached all tables
    rw [if_pos ⟨hmay, hall⟩]
    have hrests (i : Nat) (t' : Table) (ht' : (left.map fun files ↦ files.open.table)[i]? = some t') :
        Rests (tableMarks (marks ++ [⟨version, views tables, views tables⟩]) i) t' := by
      rw [List.getElem?_map] at ht'
      obtain ⟨files, hfiles, rfl⟩ := Option.map_eq_some_iff.mp ht'
      obtain ⟨t, ht⟩ := hback i files hfiles
      rcases (hopen i t files ht hfiles).2 with hr | hr
      · have hcurrent := hr.keeps.current
        rw [hall files (List.mem_of_getElem? hfiles), Mark.last_map] at hcurrent
        rw [hcurrent] at hlt
        exact absurd hlt (UInt32.lt_irrefl _)
      · exact hr
    constructor
    case ascending => exact hnext
    case table => exact fun i t' ht' ↦ ⟨_, hrests i t' ht', shares_tableMarks hnext i⟩
    case least =>
      intro hne'
      obtain ⟨t', ht'⟩ := List.exists_mem_of_ne_nil _ hne'
      obtain ⟨i, hi⟩ := List.mem_iff_getElem?.mp ht'
      exact ⟨i, t', hi, (hrests i t' hi).keeps.current.trans (Mark.last_map _ _)⟩
    case empty => exact fun h ↦ absurd (hnil h) hne
  · -- some table is without it
    rw [if_neg fun h ↦ hall h.2]
    constructor
    case ascending => exact hs.ascending
    case table =>
      intro i t' ht'
      rw [List.getElem?_map] at ht'
      obtain ⟨files, hfiles, rfl⟩ := Option.map_eq_some_iff.mp ht'
      obtain ⟨t, ht⟩ := hback i files hfiles
      rcases (hopen i t files ht hfiles).2 with hr | hr
      · exact ⟨_, hr, shares_tableMarks hs.ascending i⟩
      · obtain ⟨view, hcut⟩ := shares_tableMarks hs.ascending i
        refine ⟨_, hr, view, ?_⟩
        rw [tableMarks_concat]
        exact hcut.concat hlt
    case least =>
      intro _
      rw [not_forall] at hall
      obtain ⟨files, hall⟩ := hall
      rw [Classical.not_imp] at hall
      obtain ⟨hmem, hother⟩ := hall
      obtain ⟨i, hfiles⟩ := List.mem_iff_getElem?.mp hmem
      obtain ⟨t, ht⟩ := hback i files hfiles
      refine ⟨i, _, by rw [List.getElem?_map, hfiles]; rfl, ?_⟩
      rcases (hopen i t files ht hfiles).2 with hr | hr
      · exact hr.keeps.current.trans (Mark.last_map _ _)
      · exact absurd (hr.keeps.current.trans (by rw [Mark.last_map, Mark.last_concat])) hother
    case empty => exact fun h ↦ absurd (hnil h) hne

theorem Sound.restart (hs : Sound Keeps marks tables) {stop : Stop}
    (h : Allowed tables (.restart stop left)) :
    Reopens (history marks tables (.restart stop left)) left := by
  obtain ⟨hclean, hleft⟩ := h
  cases stop with
  | idle => exact hs.reopens_idle hleft
  | insert i key value n written => exact hs.reopens_insert hleft
  | commit version handled fault => exact hs.reopens_commit hclean hleft
  | revert version handled =>
      change Reopens (if mayRevert tables version ∧ 0 < handled then Mark.rewind creation version marks
        else marks) left
      rw [stopped] at hleft
      by_cases hmay : mayRevert tables version = true
      · rw [if_pos hmay] at hleft
        by_cases hpos : 0 < handled
        · rw [if_pos ⟨hmay, hpos⟩]
          exact (hs.revert_handled hmay hpos).reopens_idle hleft
        · rw [if_neg fun h ↦ hpos h.2]
          have hzero : handled = 0 := by omega
          subst hzero
          exact hs.reopens_idle hleft
      · rw [if_neg hmay] at hleft
        rw [if_neg fun h ↦ hmay h.1]
        exact hs.reopens_idle hleft
  | recover handled => exact (hs.recover_handled handled).reopens_idle hleft

theorem Sound.step (hs : Sound Keeps marks tables) {a : Action} (h : Allowed tables a) :
    Sound Keeps (history marks tables a) (step tables a) := by
  cases a with
  | insert i key value => exact hs.insert i key value h
  | commit version => exact hs.commit h
  | revert version => exact hs.revert version
  | recover => exact hs.recover
  | restart stop left => exact (hs.restart h).sound.mono fun own t hrests ↦ hrests.keeps

end

/-! ## 5. Recovery -/

/-- The tables and the commits of the database after some actions on `n` new tables. -/
def databaseRun (n : Nat) (actions : List Action) : List Table × List (Mark Views) :=
  run (watch step history) (List.replicate n Table.created, []) actions

theorem sound_run {n : Nat} {actions : List Action}
    (h : Meets step Allowed (List.replicate n Table.created) actions) :
    Sound Keeps (databaseRun n actions).2 (run step (List.replicate n Table.created) actions) := by
  rw [← run_watch_fst history _ [] actions]
  exact (h.watch history []).invariant (I := fun p ↦ Sound Keeps p.2 p.1) (sound_created n)
    fun p a hs ha ↦ hs.step ha

/-- Wherever the process stops, all tables open again, and `recover` returns the least of their
versions.  It takes all tables to that version, and to what they answered at the boundary of that
version in the one history of the database. -/
theorem recovers_together (n : Nat) (actions : List Action) (stop : Stop) (left : List Files)
    (h : Meets step Allowed (List.replicate n Table.created) (actions ++ [.restart stop left])) :
    let marks := (databaseRun n (actions ++ [.restart stop left])).2
    let opened := run step (List.replicate n Table.created) (actions ++ [.restart stop left])
    let recovered := recover opened
    (∀ files ∈ left, files.open.result = .ok ()) ∧
      recovered.result = .ok (currentVersion opened) ∧ currentVersion opened = Mark.last marks ∧
      ∃ state, Mark.boundary creation (currentVersion opened) marks = some state ∧
        ∀ (i : Nat) (t : Table), recovered.tables[i]? = some t →
          t.state.currentVersion = currentVersion opened ∧ ∀ key, t.view key = state i key := by
  -- the restart leaves the tables at rest, each with its own history of the shared one
  obtain ⟨hactions, hrestart, -⟩ := meets_append.mp h
  have hs := sound_run hactions
  have hmarks : (databaseRun n (actions ++ [.restart stop left])).2 =
      history (databaseRun n actions).2 (run step (List.replicate n Table.created) actions)
        (.restart stop left) := by
    rw [← run_watch_fst history _ [] actions, databaseRun, run_append]
    rfl
  rw [hmarks, run_append]
  generalize run step (List.replicate n Table.created) actions = tables at *
  have ho := hs.restart hrestart
  generalize history (databaseRun n actions).2 tables (.restart stop left) = marks at *
  rw [run_cons, run_nil, step]
  have hrests := ho.sound
  generalize left.map (fun files ↦ files.open.table) = opened at hrests ⊢
  have hkeeps : Sound Keeps marks opened := hrests.mono fun own t hr ↦ hr.keeps
  obtain ⟨state, hlast⟩ := hrests.ascending.cut_last creation
  by_cases hne : opened = []
  · subst hne
    rw [hrests.empty rfl]
    exact ⟨ho.result, rfl, rfl, creation, rfl, fun i t ht ↦ by cases ht⟩
  have hempty : opened.isEmpty = false := List.isEmpty_eq_false_iff.mpr hne
  have hcurrent : currentVersion opened = Mark.last marks := by
    rw [currentVersion, hempty]
    exact hkeeps.leastVersion_eq hne
  -- no table refuses the least version
  have hok : ∀ t ∈ opened, (recoverTable (leastVersion opened) t).result = .ok true := by
    intro t ht
    obtain ⟨i, hi⟩ := List.mem_iff_getElem?.mp ht
    exact (hkeeps.recovers hi).1
  have hrecover : recover opened =
      ⟨.ok (currentVersion opened), opened.map fun t ↦ (recoverTable (leastVersion opened) t).table⟩ := by
    rw [recover, currentVersion, hempty]
    dsimp only
    rw [eachTable_ok hok]
    rfl
  dsimp only
  rw [hrecover]
  refine ⟨ho.result, rfl, hcurrent, state, by rw [hcurrent]; exact hlast.boundary_eq, fun i t' ht' ↦ ?_⟩
  rw [List.getElem?_map] at ht'
  obtain ⟨t, ht, rfl⟩ := Option.map_eq_some_iff.mp ht'
  obtain ⟨-, hkeep, hview⟩ := hkeeps.recovers ht
  have hversion := hkeep.current
  rw [Mark.last_map] at hversion
  refine ⟨hversion.trans hcurrent.symm, fun key ↦ ?_⟩
  have hboundary := (hlast.map fun views ↦ views i).boundary_eq
  suffices hcut : Mark.Cut emptyView (Mark.last marks) (tableMarks marks i)
      (recoverTable (leastVersion opened) t).table.view (tableMarks marks i) by
    exact congrFun (Option.some.inj (hcut.boundary_eq.symm.trans hboundary)) key
  rcases hview with hsame | hcut
  · -- a table that is not reverted was opened there
    rw [hsame] at hversion ⊢
    obtain ⟨own, hrest, hshares⟩ := hrests.table i t ht
    have hown : Mark.last own = Mark.last marks := by rw [← hrest.keeps.current, hversion]
    have hcut := hrest.view
    rw [hown, hshares.eq_of_last hrest.keeps.ascending hown] at hcut
    exact hcut
  · exact hcut

/-- Two tables with a commit, and one insertion after it. -/
private def committedOnce : List Action :=
  [.insert 0 [7] [1], .insert 1 [8] [2], .commit 1, .insert 0 [7] [3]]

/-- The second commit reaches the first table, and is torn inside the marker of the second one. -/
private def tornCommit : Stop := .commit 2 1 (some (3, 5))

private def tornFiles : List Files :=
  present (stopped (run step (List.replicate 2 Table.created) committedOnce) tornCommit)

private theorem tornRun_allowed :
    Meets step Allowed (List.replicate 2 Table.created) (committedOnce ++ [.restart tornCommit tornFiles]) := by
  refine meets_append.mpr ⟨⟨?_, ?_, ?_, ?_, trivial⟩, ⟨?_, present_left _⟩, trivial⟩
  · change ∀ t, _ → NoIoError t _
    decide +kernel
  · change ∀ t, _ → NoIoError t _
    decide +kernel
  · change (commit _ _).result ≠ _
    decide +kernel
  · change ∀ t, _ → NoIoError t _
    decide +kernel
  · change (eachTable _ _).result ≠ _
    decide +kernel

theorem recovers_together_torn :
    let marks := (databaseRun 2 (committedOnce ++ [.restart tornCommit tornFiles])).2
    let opened := run step (List.replicate 2 Table.created) (committedOnce ++ [.restart tornCommit tornFiles])
    let recovered := recover opened
    (∀ files ∈ tornFiles, files.open.result = .ok ()) ∧
      recovered.result = .ok (currentVersion opened) ∧ currentVersion opened = Mark.last marks ∧
      ∃ state, Mark.boundary creation (currentVersion opened) marks = some state ∧
        ∀ (i : Nat) (t : Table), recovered.tables[i]? = some t →
          t.state.currentVersion = currentVersion opened ∧ ∀ key, t.view key = state i key := by
  exact recovers_together 2 committedOnce tornCommit tornFiles tornRun_allowed

example :
    let opened := run step (List.replicate 2 Table.created) (committedOnce ++ [.restart tornCommit tornFiles])
    opened.map (·.state.currentVersion) = [2, 1] ∧
      (recover opened).tables.map (fun t ↦ t.view [7]) = [.ok (some [1]), .ok none] := by
  decide +kernel

/-- Whatever has happened, a revert of the database fails for no version up to the least one, and takes
all tables to what they answered at one moment. -/
theorem reverts_together (n : Nat) (actions : List Action)
    (h : Meets step Allowed (List.replicate n Table.created) actions) (version : UInt32) :
    let marks := (databaseRun n actions).2
    let tables := run step (List.replicate n Table.created) actions
    let reverted := revert tables version
    reverted.result = .ok (decide (tables ≠ [] ∧ version ≤ currentVersion tables)) ∧
      (tables ≠ [] → version ≤ currentVersion tables →
        ∃ state, Mark.boundary creation version marks = some state ∧
          ∀ (i : Nat) (t : Table), reverted.tables[i]? = some t →
            t.state.currentVersion = version ∧ ∀ key, t.view key = state i key) := by
  have hs := sound_run h
  generalize run step (List.replicate n Table.created) actions = tables at *
  generalize (databaseRun n actions).2 = marks at *
  dsimp only
  have hcurrent (hne : tables ≠ []) : currentVersion tables = leastVersion tables := by
    rw [currentVersion, List.isEmpty_eq_false_iff.mpr hne]
    rfl
  have hmay : mayRevert tables version = true ↔ tables ≠ [] ∧ version ≤ currentVersion tables := by
    rw [mayRevert, Bool.and_eq_true, Bool.not_eq_true', List.all_eq_true, List.isEmpty_eq_false_iff]
    refine and_congr_right fun hne ↦ ?_
    obtain ⟨hle, t, ht, hleast⟩ := leastVersion_spec hne
    rw [hcurrent hne]
    constructor
    · intro hall
      have hv := hall t ht
      rw [Bool.not_eq_true', decide_eq_false_iff_not, hleast] at hv
      exact UInt32.not_lt.mp hv
    · intro hv u hu
      rw [Bool.not_eq_true', decide_eq_false_iff_not]
      exact UInt32.not_lt.mpr (UInt32.le_trans hv (hle u hu))
  unfold revert
  by_cases hv : mayRevert tables version = true
  · rw [if_pos hv]
    obtain ⟨hne, state, kept, hcut, -, hall⟩ := hs.reverts hv
    have hok : ∀ t ∈ tables, (t.outcome (.revert version)).result = .ok true := by
      intro t ht
      obtain ⟨i, hi⟩ := List.mem_iff_getElem?.mp ht
      exact (hall i t hi).1
    rw [eachTable_ok hok]
    refine ⟨by rw [decide_eq_true (hmay.mp hv)], fun _ _ ↦ ⟨state, hcut.boundary_eq, fun i t' ht' ↦ ?_⟩⟩
    rw [List.getElem?_map] at ht'
    obtain ⟨t, ht, rfl⟩ := Option.map_eq_some_iff.mp ht'
    obtain ⟨-, hview, hkeeps⟩ := hall i t ht
    refine ⟨hkeeps.current.trans ?_, congrFun hview⟩
    rw [Mark.last_map, hcut.last_eq]
  · rw [if_neg hv]
    refine ⟨by rw [decide_eq_false fun hc ↦ hv (hmay.mpr hc)], fun hne hle ↦ ?_⟩
    exact absurd (hmay.mpr ⟨hne, hle⟩) hv

theorem reverts_together_torn :
    let marks := (databaseRun 2 (committedOnce ++ [.restart tornCommit tornFiles])).2
    let tables := run step (List.replicate 2 Table.created) (committedOnce ++ [.restart tornCommit tornFiles])
    let reverted := revert tables 0
    reverted.result = .ok (decide (tables ≠ [] ∧ 0 ≤ currentVersion tables)) ∧
      (tables ≠ [] → 0 ≤ currentVersion tables →
        ∃ state, Mark.boundary creation 0 marks = some state ∧
          ∀ (i : Nat) (t : Table), reverted.tables[i]? = some t →
            t.state.currentVersion = 0 ∧ ∀ key, t.view key = state i key) := by
  intro marks tables reverted
  have h := reverts_together 2 (committedOnce ++ [.restart tornCommit tornFiles]) tornRun_allowed 0
  refine ⟨h.1.trans ?_, h.2⟩
  congr 1

end Stainless.Kvstore.Database
