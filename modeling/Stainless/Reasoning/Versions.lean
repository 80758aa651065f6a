import Stainless.Reasoning.Marks

/-!
# Stores with versions

What a store with versions is for: a state that is edited, the history of its commits, and the ways
back.  A store whose states are the images of another one's under a function behaves as that one does.
-/

namespace Reasoning

/-- A state, and the commits that can be gone back to. -/
structure Versions (β : Type) where
  live : β
  marks : List (Mark β)

/-- What is done to the store. -/
inductive Edit (β : Type) where
  | update (f : β → β)
  | commit (version : UInt32)
  | revert (version : UInt32)
  | rollback

namespace Versions

variable {α β : Type}

/-- The state at the last commit, else at the creation. -/
def committed (creation : β) (marks : List (Mark β)) : β :=
  match marks.getLast? with
  | some m => m.after
  | none => creation

def apply (creation : β) (v : Versions β) : Edit β → Versions β
  | .update f => { v with live := f v.live }
  | .commit version => { v with marks := v.marks ++ [⟨version, v.live, v.live⟩] }
  | .revert version =>
      match Mark.boundary creation version v.marks with
      | some state => ⟨state, Mark.surviving version v.marks state⟩
      | none => v
  | .rollback => { v with live := committed creation v.marks }

/-- The store, as far as `f` sees its states. -/
def map (f : α → β) (v : Versions α) : Versions β := ⟨f v.live, v.marks.map (Mark.map f)⟩

end Versions

/-- The boundary of the last version is the last commit. -/
theorem Mark.Cut.state_eq {β : Type} {creation state : β} {marks kept : List (Mark β)}
    (h : Mark.Cut creation (Mark.last marks) marks state kept) :
    state = Versions.committed creation marks := by
  have hboundary := h.boundary_eq
  rcases List.eq_nil_or_concat marks with rfl | ⟨front, m, rfl⟩
  · exact (Option.some.inj hboundary).symm
  · rw [List.concat_eq_append] at hboundary ⊢
    rw [Mark.last_concat, Mark.boundary_own rfl fun x hx ↦ absurd hx List.not_mem_nil] at hboundary
    rw [Versions.committed, List.getLast?_concat]
    exact (Option.some.inj hboundary).symm

/-! ## Images -/

section

variable {α β : Type} (f : α → β) (creation : α) (version : UInt32) (marks : List (Mark α))

theorem Mark.boundary_map :
    Mark.boundary (f creation) version (marks.map (Mark.map f)) =
      (Mark.boundary creation version marks).map f := by
  have hown : ((fun m : Mark β ↦ decide (m.version = version)) ∘ Mark.map f) =
      fun m ↦ decide (m.version = version) := rfl
  have hnext : ((fun m : Mark β ↦ decide (version < m.version)) ∘ Mark.map f) =
      fun m ↦ decide (version < m.version) := rfl
  rw [boundary, boundary, ← List.map_reverse, List.find?_map, List.find?_map, hown, hnext]
  cases marks.reverse.find? fun m ↦ decide (m.version = version) with
  | some m => rfl
  | none =>
      dsimp only [Option.map_none]
      by_cases hzero : version = 0
      · rw [if_pos hzero, if_pos hzero]
        rfl
      · rw [if_neg hzero, if_neg hzero, Option.map_map, Option.map_map]
        rfl

theorem Mark.surviving_map (state : α) :
    Mark.surviving version (marks.map (Mark.map f)) (f state) =
      (Mark.surviving version marks state).map (Mark.map f) := by
  have hown : ((fun m : Mark β ↦ decide (m.version = version)) ∘ Mark.map f) =
      fun m ↦ decide (m.version = version) := rfl
  have hother : ((fun m : Mark β ↦ decide (m.version ≠ version)) ∘ Mark.map f) =
      fun m ↦ decide (m.version ≠ version) := rfl
  have hfront : ((fun m : Mark β ↦ decide (m.version ≤ version)) ∘ Mark.map f) =
      fun m ↦ decide (m.version ≤ version) := rfl
  rw [surviving, surviving, List.any_map, hown]
  by_cases hany : (marks.any fun m ↦ decide (m.version = version)) = true
  · rw [if_pos hany, if_pos hany, List.rdropWhile, List.rdropWhile, ← List.map_reverse,
      List.dropWhile_map, hother, ← List.map_reverse]
  · rw [if_neg hany, if_neg hany]
    by_cases hzero : version = 0
    · rw [if_pos hzero, if_pos hzero]
      rfl
    · rw [if_neg hzero, if_neg hzero, List.takeWhile_map, hfront, List.map_append]
      rfl

theorem Versions.committed_map :
    Versions.committed (f creation) (marks.map (Mark.map f)) = f (Versions.committed creation marks) := by
  rw [committed, committed, List.getLast?_map]
  cases marks.getLast? with
  | some m => rfl
  | none => rfl

/-- Edits that agree on a state have images that agree. -/
inductive Edit.Maps (live : α) : Edit α → Edit β → Prop
  | update {g : α → α} {g' : β → β} (h : g' (f live) = f (g live)) : Maps live (.update g) (.update g')
  | commit (version : UInt32) : Maps live (.commit version) (.commit version)
  | revert (version : UInt32) : Maps live (.revert version) (.revert version)
  | rollback : Maps live .rollback .rollback

variable {f creation}

theorem Versions.apply_map {v : Versions α} {e : Edit α} {e' : Edit β} (h : Edit.Maps f v.live e e') :
    (v.map f).apply (f creation) e' = (v.apply creation e).map f := by
  cases h with
  | update h =>
      rw [apply, apply, map, map]
      dsimp only
      rw [h]
  | commit version =>
      rw [apply, apply, map, map]
      dsimp only
      rw [List.map_append]
      rfl
  | revert version =>
      rw [apply, apply, map]
      dsimp only
      rw [Mark.boundary_map]
      cases Mark.boundary creation version v.marks with
      | none => rfl
      | some state =>
          dsimp only [Option.map_some]
          rw [Mark.surviving_map]
          rfl
  | rollback =>
      rw [apply, apply, map, map]
      dsimp only
      rw [committed_map]

end

end Reasoning
