import Stainless.Reasoning.Marks

/-!
# Stores with one entry

The dealer keeps the chain, the pending tables and the hands in one table each, under one key.  Such a
table is what its key shows and the history of its commits; the history on the disk is what a restart
finds.  A revert that fails behind the cut of the index file leaves an open table that does not know of
the cut: what it commits later lies behind a hole.
-/

open Reasoning

namespace Stainless.Poker

structure Store (α : Type) where
  currentVersion : UInt32
  shown : Option α
  marks : List (Mark (Option α))
  /-- The commits that a restart finds. -/
  disk : List (Mark (Option α))
  /-- The index file has a hole behind this many of the marks, or in front of it. -/
  gap : Option Nat
deriving DecidableEq

/-- How far an operation came that failed. -/
inductive Reach
  | nowhere
  /-- The index file was cut. -/
  | cut
  /-- The new marker was written to the index file. -/
  | marked
  /-- The index file and the state of the open table were changed. -/
  | table
deriving DecidableEq

/-- How an operation on a store ends.  A `failed` operation throws. -/
inductive Fate
  | done
  | failed (reach : Reach)
deriving DecidableEq

namespace Store

variable {α : Type}

def created : Store α := ⟨0, none, [], [], none⟩

/-- The version and the value that the last commit of a history leaves. -/
def lastMark (marks : List (Mark (Option α))) : UInt32 × Option α :=
  match marks.getLast? with
  | some m => (m.version, m.after)
  | none => (0, none)

/-- The process stops and opens the store again. -/
def reopen (s : Store α) : Store α :=
  { currentVersion := (lastMark s.disk).1
    shown := (lastMark s.disk).2
    marks := s.disk
    disk := s.disk
    gap := none }

/-- What a restart would find. -/
def durable (s : Store α) : Option α := (lastMark s.disk).2

def mark (s : Store α) (version : UInt32) : Mark (Option α) := ⟨version, s.shown, s.shown⟩

/-! ## Operations that succeed -/

def insert (s : Store α) (value : α) : Store α := { s with shown := some value }

/-- The history on the disk with one more commit, which recovery does not reach behind a hole. -/
def extended (s : Store α) (m : Mark (Option α)) : List (Mark (Option α)) :=
  if s.gap.isSome then s.disk else s.disk ++ [m]

def commit (s : Store α) (version : UInt32) : Bool × Store α :=
  if version < s.currentVersion then (false, s)
  else
    (true,
      { s with
        currentVersion := version
        marks := s.marks ++ [s.mark version]
        disk := s.extended (s.mark version) })

/-- The part of the history on the disk that is left of a revert. -/
def cutDisk (s : Store α) (version : UInt32) (state : Option α) : List (Mark (Option α)) :=
  if s.gap.isSome then s.disk
  else if s.marks.any fun m ↦ m.version = version then s.disk.rdropWhile fun m ↦ m.version ≠ version
  else if version = 0 then []
  else s.disk.takeWhile (fun m ↦ m.version ≤ version) ++ [⟨version, state, state⟩]

/-- The records from the boundary of a version on do not lie behind the hole. -/
def blocked (s : Store α) (version : UInt32) : Bool :=
  match s.gap with
  | none => false
  | some k =>
      if s.marks.any fun m ↦ m.version = version then
        !(s.marks.drop k).any fun m ↦ m.version = version
      else
        version = 0 || (s.marks.take k).any fun m ↦ version < m.version

/-- `none` is the exception for a version without a boundary or with one that cannot be read. -/
def revert (s : Store α) (version : UInt32) : Option (Bool × Store α) :=
  if version > s.currentVersion then some (false, s)
  else if s.blocked version then none
  else
    match Mark.boundary none version s.marks with
    | none => none
    | some state =>
        some (true,
          { currentVersion := version
            shown := state
            marks := Mark.surviving version s.marks state
            disk := s.cutDisk version state
            gap := s.gap })

/-! ## Operations that fail -/

/-- A commit that fails leaves the open table as it was; its mark may be on the disk. -/
def commitFailed (s : Store α) (version : UInt32) (reach : Reach) : Store α :=
  if (reach = .marked ∨ reach = .table) ∧ s.currentVersion ≤ version then
    { s with disk := s.extended (s.mark version) }
  else s

/-- The history on the disk when the index file is cut at the boundary of a version: a version without a
commit has one only when its marker was written. -/
def tornDisk (s : Store α) (version : UInt32) (state : Option α) (marked : Bool) :
    List (Mark (Option α)) :=
  if marked ∨ s.gap.isSome ∨ s.marks.any (fun m ↦ m.version = version) then s.cutDisk version state
  else s.disk.takeWhile (fun m ↦ m.version ≤ version ∧ version ≠ 0)

/-- What a revert leaves that fails behind the cut of the index file: the open table is as it was, or it
was reverted too.  `none` is a failure in front of the cut. -/
def revertFailed (s : Store α) (version : UInt32) : Reach → Option (Store α)
  | .nowhere => none
  | .table =>
      match s.revert version with
      | some (true, s) => some s
      | _ => none
  | reach =>
      match s.revert version with
      | some (true, reverted) =>
          some { s with
            disk := s.tornDisk version reverted.shown (reach = .marked)
            gap := some s.marks.length }
      | _ => none

/-! ## What the operations leave -/

/-- The value is inserted and committed. -/
def saved (s : Store α) (value : α) (version : UInt32) : Store α :=
  { currentVersion := version
    shown := some value
    marks := s.marks ++ [⟨version, some value, some value⟩]
    disk := s.extended ⟨version, some value, some value⟩
    gap := s.gap }

/-- What is left when inserting or committing the value fails: nothing but perhaps the mark on the
disk. -/
structure FailedToSave (s : Store α) (value : α) (version : UInt32) (s' : Store α) : Prop where
  currentVersion : s'.currentVersion = s.currentVersion
  marks : s'.marks = s.marks
  disk : s'.disk = s.disk ∨ s'.disk = s.extended ⟨version, some value, some value⟩
  gap : s'.gap = s.gap

theorem failedToSave_refl (s : Store α) (value : α) (version : UInt32) :
    FailedToSave s value version s :=
  ⟨rfl, rfl, .inl rfl, rfl⟩

theorem failedToSave_insert (s : Store α) (value : α) (version : UInt32) :
    FailedToSave s value version (s.insert value) :=
  ⟨rfl, rfl, .inl rfl, rfl⟩

theorem failedToSave_commit (s : Store α) (value : α) (version : UInt32) (reach : Reach) :
    FailedToSave s value version ((s.insert value).commitFailed version reach) := by
  unfold commitFailed
  by_cases h : (reach = .marked ∨ reach = .table) ∧ (s.insert value).currentVersion ≤ version
  · rw [if_pos h]
    exact ⟨rfl, rfl, .inr rfl, rfl⟩
  · rw [if_neg h]
    exact failedToSave_insert s value version

theorem lastMark_append (marks : List (Mark (Option α))) (m : Mark (Option α)) :
    lastMark (marks ++ [m]) = (m.version, m.after) := by
  rw [lastMark, List.getLast?_concat]

theorem commit_refused {s : Store α} {version : UInt32} (h : (s.commit version).1 = false) :
    (s.commit version).2 = s := by
  unfold commit at *
  by_cases hversion : version < s.currentVersion
  · rw [if_pos hversion]
  · rw [if_neg hversion] at h
    exact Bool.noConfusion h

theorem failedToSave_refused {s : Store α} {value : α} {version : UInt32}
    (h : ((s.insert value).commit version).1 = false) :
    FailedToSave s value version ((s.insert value).commit version).2 := by
  rw [commit_refused h]
  exact failedToSave_insert s value version

theorem commit_insert {s : Store α} {value : α} {version : UInt32}
    (h : ((s.insert value).commit version).1 ≠ false) :
    ((s.insert value).commit version).2 = s.saved value version := by
  unfold commit at *
  by_cases hversion : version < (s.insert value).currentVersion
  · rw [if_pos hversion] at h
    exact absurd rfl h
  · rw [if_neg hversion]
    rfl

theorem extended_of_whole {s : Store α} (h : s.gap = none) (m : Mark (Option α)) :
    s.extended m = s.disk ++ [m] := by
  rw [extended, h]
  rfl

/-- A store whose open table is what a restart finds. -/
structure Settled (s : Store α) : Prop where
  disk : s.disk = s.marks
  currentVersion : s.currentVersion = (lastMark s.marks).1
  whole : s.gap = none

theorem settled_reopen (s : Store α) : s.reopen.Settled := ⟨rfl, rfl, rfl⟩

theorem Settled.insert {s : Store α} (h : s.Settled) (value : α) : (s.insert value).Settled :=
  ⟨h.disk, h.currentVersion, h.whole⟩

theorem Settled.saved {s : Store α} (h : s.Settled) (value : α) (version : UInt32) :
    (s.saved value version).Settled where
  disk := by rw [Store.saved, extended_of_whole h.whole, h.disk]
  currentVersion := by rw [Store.saved, lastMark_append]
  whole := h.whole

/-- Without a hole every boundary can be read. -/
theorem revert_of_whole {s : Store α} (h : s.gap = none) (version : UInt32) :
    s.revert version = if version > s.currentVersion then some (false, s)
      else
        match Mark.boundary none version s.marks with
        | none => none
        | some state => some (true, ⟨version, state, Mark.surviving version s.marks state,
            s.cutDisk version state, none⟩) := by
  have hblocked : s.blocked version = false := by rw [blocked, h]
  rw [revert, hblocked, h]
  rfl

/-- The cut of a settled store is that of its history. -/
theorem Settled.cutDisk {s : Store α} (h : s.Settled) (version : UInt32) (state : Option α) :
    s.cutDisk version state = Mark.surviving version s.marks state := by
  rw [Store.cutDisk, h.whole, h.disk]
  rfl

/-- A revert to a version with a commit goes back to right behind it. -/
theorem revert_own {s s' : Store α} {front later : List (Mark (Option α))} {m : Mark (Option α)}
    {reverted : Bool} (h : s.Settled) (hmarks : s.marks = front ++ m :: later)
    (hlater : ∀ x ∈ later, x.version ≠ m.version)
    (hrevert : s.revert m.version = some (reverted, s')) :
    (reverted = false ∧ s' = s) ∨
      (reverted = true ∧ s' = ⟨m.version, m.after, front ++ [m], front ++ [m], none⟩) := by
  rw [revert_of_whole h.whole] at hrevert
  by_cases hversion : m.version > s.currentVersion
  · rw [if_pos hversion] at hrevert
    cases hrevert
    exact .inl ⟨rfl, rfl⟩
  · have hboundary : Mark.boundary none m.version s.marks = some m.after := by
      rw [hmarks, Mark.boundary_own rfl hlater]
    rw [if_neg hversion, hboundary] at hrevert
    dsimp only at hrevert
    rw [h.cutDisk, hmarks, Mark.surviving_own rfl hlater] at hrevert
    cases hrevert
    exact .inr ⟨rfl, rfl⟩

/-- The history that is left of a revert ends with the state it arrived at. -/
theorem lastMark_surviving {marks : List (Mark (Option α))} {version : UInt32} {state : Option α}
    (h : Mark.boundary none version marks = some state) :
    lastMark (Mark.surviving version marks state) = (version, state) := by
  cases hown : marks.reverse.find? fun m ↦ m.version = version with
  | some m =>
      have ⟨hm, after, before, hreverse, hafter⟩ := List.find?_eq_some_iff_append.mp hown
      have hmarks : marks = before.reverse ++ m :: after.reverse := by
        rw [← List.reverse_reverse marks, hreverse, List.reverse_append, List.reverse_cons,
          List.append_assoc]
        rfl
      have hversion : m.version = version := of_decide_eq_true hm
      have hlater : ∀ x ∈ after.reverse, x.version ≠ version := by
        intro x hx
        simpa using hafter x (List.mem_reverse.mp hx)
      rw [hmarks, Mark.boundary_own hversion hlater] at h
      rw [hmarks, Mark.surviving_own hversion hlater, lastMark_append, hversion, Option.some.inj h]
  | none =>
      have hnone : ∀ m ∈ marks, m.version ≠ version := by
        intro m hm
        simpa using List.find?_eq_none.mp hown m (List.mem_reverse.mpr hm)
      rw [Mark.boundary, hown] at h
      dsimp only at h
      rw [Mark.surviving, if_neg (Mark.any_eq_false hnone)]
      by_cases hzero : version = 0
      · rw [if_pos hzero] at h ⊢
        cases h
        rw [hzero]
        rfl
      · rw [if_neg hzero, lastMark_append]

/-- What is left on the disk when the revert to a version with a commit is torn. -/
theorem tornDisk_own {s : Store α} {front later : List (Mark (Option α))} {m : Mark (Option α)}
    (h : s.Settled) (hmarks : s.marks = front ++ m :: later)
    (hlater : ∀ x ∈ later, x.version ≠ m.version) (state : Option α) (marked : Bool) :
    s.tornDisk m.version state marked = front ++ [m] := by
  rw [tornDisk, if_pos (.inr (.inr (by simp [hmarks]))), h.cutDisk, hmarks,
    Mark.surviving_own rfl hlater]

/-- Behind the cut of the file the open table is reverted too, or it is as it was. -/
theorem revertFailed_cases {s s' : Store α} {version : UInt32} {reach : Reach}
    (h : s.revertFailed version reach = some s') :
    ∃ reverted, s.revert version = some (true, reverted) ∧ (s' = reverted ∨ ∃ marked,
      s' = { s with
        disk := s.tornDisk version reverted.shown marked
        gap := some s.marks.length }) := by
  have hreverts {f : Store α → Store α} (h : (match s.revert version with
      | some (true, reverted) => some (f reverted)
      | _ => none) = some s') :
      ∃ reverted, s.revert version = some (true, reverted) ∧ s' = f reverted := by
    split at h
    · rename_i reverted hr
      cases h
      exact ⟨reverted, hr, rfl⟩
    · cases h
  cases reach with
  | nowhere => cases h
  | table =>
      have ⟨reverted, hr, hs⟩ := hreverts (f := id) h
      exact ⟨reverted, hr, .inl hs⟩
  | cut =>
      have ⟨reverted, hr, hs⟩ := hreverts h
      exact ⟨reverted, hr, .inr ⟨_, hs⟩⟩
  | marked =>
      have ⟨reverted, hr, hs⟩ := hreverts h
      exact ⟨reverted, hr, .inr ⟨_, hs⟩⟩

/-- After a revert of a settled store a restart finds what it shows. -/
theorem Settled.revert {s s' : Store α} {version : UInt32} (h : s.Settled)
    (hrevert : s.revert version = some (true, s')) : s'.Settled ∧ s'.durable = s'.shown := by
  rw [revert_of_whole h.whole] at hrevert
  by_cases hgreater : version > s.currentVersion
  · rw [if_pos hgreater] at hrevert
    cases hrevert
  rw [if_neg hgreater] at hrevert
  cases hboundary : Mark.boundary none version s.marks with
  | none =>
      rw [hboundary] at hrevert
      cases hrevert
  | some state =>
      rw [hboundary] at hrevert
      dsimp only at hrevert
      rw [h.cutDisk] at hrevert
      cases hrevert
      have hlast := lastMark_surviving hboundary
      exact ⟨⟨rfl, by rw [hlast], rfl⟩, by rw [durable, hlast]⟩

theorem durable_saved {s : Store α} (h : s.gap = none) (value : α) (version : UInt32) :
    (s.saved value version).durable = some value := by
  rw [durable, Store.saved, extended_of_whole h, lastMark_append]

theorem FailedToSave.durable {s s' : Store α} {value : α} {version : UInt32}
    (h : s.FailedToSave value version s') (hwhole : s.gap = none) :
    s'.durable = s.durable ∨ s'.durable = some value := by
  rcases h.disk with hdisk | hdisk
  · left
    rw [Store.durable, hdisk]
    rfl
  · right
    rw [Store.durable, hdisk, extended_of_whole hwhole, lastMark_append]

end Store

end Stainless.Poker
