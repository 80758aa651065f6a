import Mathlib.Data.List.DropRight
import Mathlib.Data.List.Basic

/-!
# Histories with versions

A history is the list of its commits, each with the state right before and right after it.  Going back
to a version goes to the boundary of that version, and keeps the marks in front of it.
-/

namespace Reasoning

/-- A commit of a version. -/
structure Mark (β : Type) where
  version : UInt32
  before : β
  after : β
deriving DecidableEq

namespace Mark

variable {β : Type}

/-- The state at the boundary of a version: right after its last commit, else at the creation for
version 0, else right before the first commit of a greater version. -/
def boundary (creation : β) (version : UInt32) (marks : List (Mark β)) : Option β :=
  match marks.reverse.find? fun m ↦ m.version = version with
  | some m => some m.after
  | none =>
      if version = 0 then some creation
      else (marks.find? fun m ↦ version < m.version).map Mark.before

/-- The marks that are left when the history goes back to a version and arrives at `state`.  A version
without a commit is committed there. -/
def surviving (version : UInt32) (marks : List (Mark β)) (state : β) : List (Mark β) :=
  if marks.any fun m ↦ m.version = version then marks.rdropWhile fun m ↦ m.version ≠ version
  else if version = 0 then []
  else marks.takeWhile (fun m ↦ m.version ≤ version) ++ [⟨version, state, state⟩]

/-- The history goes back to the boundary of a version, if there is one. -/
def rewind (creation : β) (version : UInt32) (marks : List (Mark β)) : List (Mark β) :=
  match boundary creation version marks with
  | some state => surviving version marks state
  | none => marks

variable {creation : β} {version : UInt32} {marks front later : List (Mark β)} {m : Mark β}

/-! ## The three places of a boundary -/

theorem any_eq_false (h : ∀ m ∈ marks, m.version ≠ version) :
    ¬(marks.any fun m ↦ m.version = version) = true := by
  rw [Bool.not_eq_true, List.any_eq_false]
  intro m hm
  simpa using h m hm

theorem find?_eq_none (h : ∀ m ∈ marks, m.version ≠ version) :
    (marks.reverse.find? fun m ↦ m.version = version) = none := by
  rw [List.find?_eq_none]
  intro m hm
  simpa using h m (List.mem_reverse.mp hm)

theorem boundary_own (hm : m.version = version) (hlater : ∀ m ∈ later, m.version ≠ version) :
    boundary creation version (front ++ m :: later) = some m.after := by
  rw [boundary, List.reverse_append, List.reverse_cons, List.append_assoc, List.find?_append,
    find?_eq_none hlater]
  simp [hm]

theorem surviving_own (hm : m.version = version) (hlater : ∀ m ∈ later, m.version ≠ version)
    (state : β) : surviving version (front ++ m :: later) state = front ++ [m] := by
  rw [surviving, if_pos (by simp [hm]), List.append_cons, List.rdropWhile, List.reverse_append,
    List.dropWhile_append_of_pos]
  · simp [hm]
  · intro m hm
    simpa using hlater m (List.mem_reverse.mp hm)

theorem boundary_creation (h : ∀ m ∈ marks, m.version ≠ 0) :
    boundary creation 0 marks = some creation := by
  rw [boundary, find?_eq_none h]
  rfl

theorem surviving_creation (h : ∀ m ∈ marks, m.version ≠ 0) (state : β) :
    surviving 0 marks state = [] := by
  rw [surviving, if_neg (any_eq_false h), if_pos rfl]

theorem boundary_successor (hzero : version ≠ 0) (hfront : ∀ m ∈ front, m.version < version)
    (hm : version < m.version) (hlater : ∀ m ∈ later, m.version ≠ version) :
    boundary creation version (front ++ m :: later) = some m.before := by
  have hnone : ∀ x ∈ front ++ m :: later, x.version ≠ version := by
    intro x hx
    rcases List.mem_append.mp hx with hx | hx
    · exact UInt32.ne_of_lt (hfront x hx)
    · rcases List.mem_cons.mp hx with rfl | hx
      · exact (UInt32.ne_of_lt hm).symm
      · exact hlater x hx
  rw [boundary, find?_eq_none hnone]
  dsimp only
  rw [if_neg hzero, List.find?_append, List.find?_eq_none.mpr]
  · simp [hm]
  · intro x hx
    simpa using UInt32.not_lt.mpr (UInt32.le_of_lt (hfront x hx))

theorem surviving_successor (hzero : version ≠ 0) (hfront : ∀ m ∈ front, m.version < version)
    (hm : version < m.version) (hlater : ∀ m ∈ later, m.version ≠ version) (state : β) :
    surviving version (front ++ m :: later) state = front ++ [⟨version, state, state⟩] := by
  have hnone : ∀ x ∈ front ++ m :: later, x.version ≠ version := by
    intro x hx
    rcases List.mem_append.mp hx with hx | hx
    · exact UInt32.ne_of_lt (hfront x hx)
    · rcases List.mem_cons.mp hx with rfl | hx
      · exact (UInt32.ne_of_lt hm).symm
      · exact hlater x hx
  rw [surviving, if_neg (any_eq_false hnone), if_neg hzero, List.takeWhile_append_of_pos]
  · simp [UInt32.not_le.mpr hm]
  · intro x hx
    simpa using UInt32.le_of_lt (hfront x hx)

/-! ## Histories whose versions go up -/

/-- The version of the last commit, 0 before the first one. -/
def last (marks : List (Mark β)) : UInt32 :=
  match marks.getLast? with
  | some m => m.version
  | none => 0

@[simp] theorem last_nil : last ([] : List (Mark β)) = 0 := rfl

@[simp] theorem last_concat (marks : List (Mark β)) (m : Mark β) : last (marks ++ [m]) = m.version := by
  rw [last, List.getLast?_concat]

/-- Every commit has a version above all earlier ones and above 0. -/
def Ascending (marks : List (Mark β)) : Prop :=
  marks.Pairwise (fun x y ↦ x.version < y.version) ∧ ∀ m ∈ marks, 0 < m.version

theorem ascending_nil : Ascending ([] : List (Mark β)) := ⟨.nil, fun _ h ↦ absurd h List.not_mem_nil⟩

theorem ascending_concat_iff :
    Ascending (marks ++ [m]) ↔
      Ascending marks ∧ (∀ x ∈ marks, x.version < m.version) ∧ 0 < m.version := by
  simp only [Ascending, List.pairwise_append, List.pairwise_singleton, List.mem_singleton, List.mem_append]
  grind

theorem Ascending.le_last (h : Ascending marks) : ∀ x ∈ marks, x.version ≤ last marks := by
  intro x hx
  rcases List.eq_nil_or_concat marks with rfl | ⟨front, m, rfl⟩
  · exact absurd hx List.not_mem_nil
  · rw [List.concat_eq_append] at h hx ⊢
    rw [last_concat]
    rcases List.mem_append.mp hx with hx | hx
    · exact UInt32.le_of_lt ((ascending_concat_iff.mp h).2.1 x hx)
    · rw [List.mem_singleton.mp hx]
      exact UInt32.le_refl _

theorem Ascending.concat (h : Ascending marks) (hm : last marks < m.version) : Ascending (marks ++ [m]) :=
  ascending_concat_iff.mpr ⟨h, fun x hx ↦ UInt32.lt_of_le_of_lt (h.le_last x hx) hm,
    UInt32.lt_of_le_of_lt UInt32.zero_le hm⟩

theorem Ascending.dropLast (h : Ascending marks) : Ascending marks.dropLast :=
  ⟨h.1.sublist (List.dropLast_sublist marks), fun m hm ↦ h.2 m (List.dropLast_subset marks hm)⟩

/-- The same commit, as far as `f` sees the states. -/
def map {γ : Type} (f : β → γ) (m : Mark β) : Mark γ := ⟨m.version, f m.before, f m.after⟩

theorem last_map {γ : Type} (f : β → γ) (marks : List (Mark β)) : last (marks.map (map f)) = last marks := by
  rcases List.eq_nil_or_concat marks with rfl | ⟨front, m, rfl⟩
  · rfl
  · rw [List.concat_eq_append, List.map_append, List.map_cons, List.map_nil, last_concat, last_concat]
    rfl

theorem ascending_map_iff {γ : Type} (f : β → γ) : Ascending (marks.map (map f)) ↔ Ascending marks := by
  simp [Ascending, List.pairwise_map, map]

/-- Going back to a version arrives at a state and keeps some marks: the three places of a boundary. -/
inductive Cut (creation : β) (version : UInt32) : List (Mark β) → β → List (Mark β) → Prop
  | creation {marks : List (Mark β)} (hzero : version = 0) (hlater : ∀ m ∈ marks, version < m.version) :
      Cut creation version marks creation []
  | own {front later : List (Mark β)} {m : Mark β} (hfront : ∀ x ∈ front, x.version < version)
      (hm : m.version = version) (hlater : ∀ x ∈ later, version < x.version) :
      Cut creation version (front ++ m :: later) m.after (front ++ [m])
  | successor {front later : List (Mark β)} {m : Mark β} (hzero : version ≠ 0)
      (hfront : ∀ x ∈ front, x.version < version) (hm : version < m.version)
      (hlater : ∀ x ∈ later, version < x.version) :
      Cut creation version (front ++ m :: later) m.before (front ++ [⟨version, m.before, m.before⟩])

namespace Cut

variable {state : β} {kept : List (Mark β)}

theorem boundary_eq (h : Cut creation version marks state kept) :
    boundary creation version marks = some state := by
  cases h with
  | creation hzero hlater =>
      subst hzero
      exact boundary_creation fun m hm ↦ (UInt32.ne_of_lt (hlater m hm)).symm
  | own _ hm hlater => exact boundary_own hm fun x hx ↦ (UInt32.ne_of_lt (hlater x hx)).symm
  | successor hzero hfront hm hlater =>
      exact boundary_successor hzero hfront hm fun x hx ↦ (UInt32.ne_of_lt (hlater x hx)).symm

theorem surviving_eq (h : Cut creation version marks state kept) : surviving version marks state = kept := by
  cases h with
  | creation hzero hlater =>
      subst hzero
      exact surviving_creation (fun m hm ↦ (UInt32.ne_of_lt (hlater m hm)).symm) _
  | own _ hm hlater => exact surviving_own hm (fun x hx ↦ (UInt32.ne_of_lt (hlater x hx)).symm) _
  | successor hzero hfront hm hlater =>
      exact surviving_successor hzero hfront hm (fun x hx ↦ (UInt32.ne_of_lt (hlater x hx)).symm) _

theorem rewind_eq (h : Cut creation version marks state kept) : rewind creation version marks = kept := by
  rw [rewind, h.boundary_eq]
  exact h.surviving_eq

theorem unique {state' : β} {kept' : List (Mark β)} (h : Cut creation version marks state kept)
    (h' : Cut creation version marks state' kept') : state = state' ∧ kept = kept' := by
  have hstate : state = state' := Option.some.inj (h.boundary_eq.symm.trans h'.boundary_eq)
  subst hstate
  exact ⟨rfl, h.surviving_eq.symm.trans h'.surviving_eq⟩

theorem last_eq (h : Cut creation version marks state kept) : last kept = version := by
  cases h with
  | creation hzero => exact hzero.symm
  | own _ hm => rw [last_concat, hm]
  | successor => exact last_concat _ _

theorem le_last (h : Cut creation version marks state kept) (hmarks : Ascending marks) : version ≤ last marks := by
  cases h with
  | creation hzero => rw [hzero]; exact UInt32.zero_le
  | own _ hm => rw [← hm]; exact hmarks.le_last _ (by simp)
  | @successor front later m _ _ hm =>
      exact UInt32.le_trans (UInt32.le_of_lt hm) (hmarks.le_last m (by simp))

theorem ascending (h : Cut creation version marks state kept) (hmarks : Ascending marks) : Ascending kept := by
  cases h with
  | creation => exact ascending_nil
  | @own front later m =>
      rw [List.append_cons] at hmarks
      exact ⟨(List.pairwise_append.mp hmarks.1).1, fun x hx ↦ hmarks.2 x (List.mem_append_left _ hx)⟩
  | @successor front later m hzero hfront =>
      refine ascending_concat_iff.mpr ⟨⟨?_, fun x hx ↦ hmarks.2 x (List.mem_append_left _ hx)⟩, hfront, ?_⟩
      · exact (List.pairwise_append.mp hmarks.1).1
      · exact UInt32.lt_of_le_of_ne UInt32.zero_le (Ne.symm hzero)

/-- Going back in two stages is going back at once. -/
theorem trans {older : UInt32} {state' : β} {kept' : List (Mark β)} (h : Cut creation version marks state kept)
    (h' : Cut creation older kept state' kept') (hle : older ≤ version) :
    Cut creation older marks state' kept' := by
  have hbehind {later : List (Mark β)} (hlater : ∀ x ∈ later, version < x.version) :
      ∀ x ∈ later, older < x.version := fun x hx ↦ UInt32.lt_of_le_of_lt hle (hlater x hx)
  have hboth {later later' : List (Mark β)} (h : ∀ x ∈ later, older < x.version)
      (h' : ∀ x ∈ later', older < x.version) : ∀ x ∈ later ++ later', older < x.version := fun x hx ↦
    (List.mem_append.mp hx).elim (h x) (h' x)
  cases h with
  | creation hzero hlater =>
      generalize hk : ([] : List (Mark β)) = k at h'
      cases h' with
      | creation hzero' => exact .creation hzero' (hbehind hlater)
      | own => simp at hk
      | successor => simp at hk
  | @own front later m hfront hm hlater =>
      generalize hk : front ++ [m] = k at h'
      rw [List.append_cons, hk]
      cases h' with
      | creation hzero hlater' => exact .creation hzero (hboth hlater' (hbehind hlater))
      | own hfront' hm' hlater' =>
          rw [List.append_assoc, List.cons_append]
          exact .own hfront' hm' (hboth hlater' (hbehind hlater))
      | successor hzero hfront' hm' hlater' =>
          rw [List.append_assoc, List.cons_append]
          exact .successor hzero hfront' hm' (hboth hlater' (hbehind hlater))
  | @successor front later m hzero hfront hm hlater =>
      have hnext : ∀ x ∈ m :: later, older < x.version :=
        List.forall_mem_cons.mpr ⟨UInt32.lt_of_le_of_lt hle hm, hbehind hlater⟩
      generalize hk : front ++ [⟨version, m.before, m.before⟩] = k at h'
      cases h' with
      | creation hzero' hlater' =>
          subst hk
          exact .creation hzero' (hboth (fun x hx ↦ hlater' x (List.mem_append_left _ hx)) hnext)
      | @own front' later' m' hfront' hm' hlater' =>
          rcases List.eq_nil_or_concat later' with rfl | ⟨later', x, rfl⟩
          · -- the version that is gone back to is the one without a commit of its own
            obtain ⟨rfl, hlast⟩ := List.append_inj' hk rfl
            cases hlast
            subst hm'
            exact .successor hzero hfront hm hlater
          · rw [List.concat_eq_append, ← List.cons_append, ← List.append_assoc] at hk
            obtain ⟨rfl, -⟩ := List.append_inj' hk rfl
            rw [List.append_assoc, List.cons_append]
            exact .own hfront' hm'
              (hboth (fun x hx ↦ hlater' x (by rw [List.concat_eq_append]; simp [hx])) hnext)
      | @successor front' later' m' hzero' hfront' hm' hlater' =>
          rcases List.eq_nil_or_concat later' with rfl | ⟨later', x, rfl⟩
          · obtain ⟨rfl, hlast⟩ := List.append_inj' hk rfl
            cases hlast
            exact .successor hzero' hfront' (UInt32.lt_of_le_of_lt hle hm) (hbehind hlater)
          · rw [List.concat_eq_append, ← List.cons_append, ← List.append_assoc] at hk
            obtain ⟨rfl, -⟩ := List.append_inj' hk rfl
            rw [List.append_assoc, List.cons_append]
            exact .successor hzero' hfront' hm'
              (hboth (fun x hx ↦ hlater' x (by rw [List.concat_eq_append]; simp [hx])) hnext)

/-- What is seen of a history goes back with it. -/
theorem map {γ : Type} (f : β → γ) (h : Cut creation version marks state kept) :
    Cut (f creation) version (marks.map (Mark.map f)) (f state) (kept.map (Mark.map f)) := by
  cases h with
  | creation hzero hlater => exact .creation hzero (by simpa [Mark.map] using hlater)
  | own hfront hm hlater =>
      rw [List.map_append, List.map_append, List.map_cons]
      exact .own (m := Mark.map f _) (by simpa [Mark.map] using hfront) hm
        (by simpa [Mark.map] using hlater)
  | successor hzero hfront hm hlater =>
      rw [List.map_append, List.map_append, List.map_cons]
      exact .successor (m := Mark.map f _) hzero (by simpa [Mark.map] using hfront) hm
        (by simpa [Mark.map] using hlater)

/-- A later commit changes nothing about the way back. -/
theorem concat (h : Cut creation version marks state kept) (hm : version < m.version) :
    Cut creation version (marks ++ [m]) state kept := by
  have hmore {later : List (Mark β)} (hlater : ∀ x ∈ later, version < x.version) :
      ∀ x ∈ later ++ [m], version < x.version := by
    intro x hx
    rcases List.mem_append.mp hx with hx | hx
    · exact hlater x hx
    · rw [List.mem_singleton.mp hx]
      exact hm
  cases h with
  | creation hzero hlater => exact .creation hzero (hmore hlater)
  | own hfront hown hlater =>
      rw [List.append_assoc, List.cons_append]
      exact .own hfront hown (hmore hlater)
  | successor hzero hfront hnext hlater =>
      rw [List.append_assoc, List.cons_append]
      exact .successor hzero hfront hnext (hmore hlater)

end Cut

/-- The history is at the boundary of its last version. -/
theorem Ascending.cut_last (creation : β) (h : Ascending marks) :
    ∃ state, Cut creation (last marks) marks state marks := by
  rcases List.eq_nil_or_concat marks with rfl | ⟨front, m, rfl⟩
  · exact ⟨_, .creation rfl fun x hx ↦ absurd hx List.not_mem_nil⟩
  · rw [List.concat_eq_append] at h ⊢
    rw [last_concat]
    exact ⟨_, .own (ascending_concat_iff.mp h).2.1 rfl fun x hx ↦ absurd hx List.not_mem_nil⟩

/-- There is a way back to every version up to the last one. -/
theorem Ascending.exists_cut (creation : β) (h : Ascending marks) (hv : version ≤ last marks) :
    ∃ state kept, Cut creation version marks state kept := by
  induction marks using List.reverseRecOn with
  | nil =>
      rw [last_nil] at hv
      exact ⟨_, _, .creation (UInt32.le_antisymm hv UInt32.zero_le) fun x hx ↦ absurd hx List.not_mem_nil⟩
  | append_singleton front m ih =>
      obtain ⟨hfront, hbelow, hpos⟩ := ascending_concat_iff.mp h
      rw [last_concat] at hv
      by_cases hold : version ≤ last front
      · -- the last mark lies behind the boundary
        obtain ⟨state, kept, hcut⟩ := ih hfront hold
        refine ⟨state, kept, hcut.concat (UInt32.lt_of_le_of_lt hold ?_)⟩
        rcases List.eq_nil_or_concat front with rfl | ⟨front, x, rfl⟩
        · exact hpos
        · rw [List.concat_eq_append] at hbelow ⊢
          rw [last_concat]
          exact hbelow x (by simp)
      · have hover : ∀ x ∈ front, x.version < version := fun x hx ↦
          UInt32.lt_of_le_of_lt (hfront.le_last x hx) (UInt32.not_le.mp hold)
        by_cases heq : m.version = version
        · exact ⟨_, _, .own hover heq fun x hx ↦ absurd hx List.not_mem_nil⟩
        · refine ⟨_, _, .successor ?_ hover (UInt32.lt_of_le_of_ne hv (Ne.symm heq))
            fun x hx ↦ absurd hx List.not_mem_nil⟩
          rintro rfl
          exact hold UInt32.zero_le

end Mark

end Reasoning
