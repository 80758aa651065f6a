import Mathlib.Logic.Relation
import Mathlib.Order.WellFoundedSet

/-!
# Acyclic relations and a search for a node

Edges that leave one node, and a depth-first search that keeps a set of visited nodes and stops at
its target.
-/

open Relation

namespace Reasoning

/-! ## Acyclic relations -/

section Acyclic

variable {α : Type} {r r' : α → α → Prop} {t : α}

/-- Nothing reaches itself. -/
def Acyclic (r : α → α → Prop) : Prop := ∀ a, ¬TransGen r a a

/-- A path to `t` need not use the edges that leave `t`. -/
theorem reaches_avoiding {a : α} (h : ReflTransGen r a t)
    (hr : ∀ x y, x ≠ t → r x y → r' x y) : ReflTransGen r' a t := by
  induction h using ReflTransGen.head_induction_on with
  | refl => exact .refl
  | @head b c hbc _ ih =>
      by_cases hb : b = t
      · subst hb
        exact .refl
      · exact .head (hr b c hb hbc) ih

/-- A path whose edges are old ones or leave `t` is an old path or goes through `t`. -/
private theorem path_cases {a b : α} (hr : ∀ x y, r' x y → r x y ∨ x = t)
    (h : TransGen r' a b) :
    TransGen r a b ∨ ReflTransGen r' a t ∧ ∃ y, r' t y ∧ ReflTransGen r' y b := by
  induction h using TransGen.head_induction_on with
  | @single a hab =>
      rcases hr a b hab with hold | rfl
      · exact .inl (.single hold)
      · exact .inr ⟨.refl, b, hab, .refl⟩
  | @head a c hac hcb ih =>
      rcases hr a c hac with hold | rfl
      · rcases ih with hpath | ⟨hct, y, hty, hyb⟩
        · exact .inl (.head hold hpath)
        · exact .inr ⟨.head hac hct, y, hty, hyb⟩
      · exact .inr ⟨.refl, c, hac, hcb.to_reflTransGen⟩

/-- New edges that leave `t` close no cycle if none of their ends reached `t` before. -/
theorem Acyclic.add (h : Acyclic r) (hr : ∀ x y, r' x y → r x y ∨ x = t ∧ ¬ReflTransGen r y t) :
    Acyclic r' := by
  have hfrom : ∀ x y, r' x y → r x y ∨ x = t := fun x y hxy ↦ (hr x y hxy).imp_right And.left
  -- a step out of `t` leads to a node that does not come back
  have hout : ∀ y, r' t y → ¬ReflTransGen r' y t := by
    intro y hty hback
    have hold : ReflTransGen r y t :=
      reaches_avoiding hback fun x z hx hxz ↦ (hfrom x z hxz).resolve_right hx
    rcases hr t y hty with hr | ⟨-, hno⟩
    · exact h t (.head' hr hold)
    · exact hno hold
  intro a ha
  rcases path_cases hfrom ha with hold | ⟨hat, y, hty, hya⟩
  · exact h a hold
  · exact hout y hty (hya.trans hat)

/-- An edge from `t` to a node that reached `t` closes a cycle, whatever else leaves `t`. -/
theorem not_acyclic_of_reaches {b : α} (hr : ∀ x y, x ≠ t → r x y → r' x y) (hb : r' t b)
    (h : ReflTransGen r b t) : ¬Acyclic r' :=
  fun hacyclic ↦ hacyclic t (.head' hb (reaches_avoiding h hr))

/-- Along the edges of an acyclic relation with finitely many sources one comes to an end. -/
theorem Acyclic.wellFounded (h : Acyclic r) {s : Set α} (hs : s.Finite)
    (hsource : ∀ x y, r x y → x ∈ s) : WellFounded (flip r) := by
  have hstrict : IsStrictOrder α (flip (TransGen r)) :=
    { irrefl := fun a ha ↦ h a ha
      trans := fun _ _ _ hab hbc ↦ hbc.trans hab }
  have hwf : s.WellFoundedOn (flip (TransGen r)) := hs.wellFoundedOn
  refine ⟨fun a ↦ ?_⟩
  -- first the sources, by induction; a node that is no source has no successor
  have hsources : ∀ a ∈ s, Acc (flip r) a := by
    intro a ha
    refine hwf.induction ha fun a _ ih ↦ ⟨a, fun b hab ↦ ?_⟩
    by_cases hb : b ∈ s
    · exact ih b hb (.single hab)
    · exact ⟨b, fun c hbc ↦ absurd (hsource b c hbc) hb⟩
  by_cases ha : a ∈ s
  · exact hsources a ha
  · exact ⟨a, fun b hab ↦ absurd (hsource a b hab) ha⟩

end Acyclic

/-! ## Depth-first search -/

section Search

variable {α ν : Type}

/-- `Iterator::any` of a search that carries the visited nodes along. -/
def anyVisited (search : ν → List α → Option (Bool × List α)) :
    List ν → List α → Option (Bool × List α)
  | [], visited => some (false, visited)
  | v :: vs, visited =>
      match search v visited with
      | none => none
      | some (true, visited) => some (true, visited)
      | some (false, visited) => anyVisited search vs visited

variable {node? : ν → Option α} {children : α → List ν} {target : α}

/-- The graph that is searched. -/
def Points (node? : ν → Option α) (children : α → List ν) (a b : α) : Prop :=
  ∃ v ∈ children a, node? v = some b

/-- `visited'` extends `visited` by nodes other than the target whose successors it has all. -/
structure Explored (node? : ν → Option α) (children : α → List ν) (target : α)
    (visited visited' : List α) : Prop where
  subset : visited ⊆ visited'
  closed : ∀ a ∈ visited', a ∈ visited ∨ a ≠ target ∧ ∀ b, Points node? children a b → b ∈ visited'

theorem Explored.refl (visited : List α) : Explored node? children target visited visited :=
  ⟨fun _ ↦ id, fun _ ha ↦ .inl ha⟩

theorem Explored.trans {u v w : List α} (h : Explored node? children target u v)
    (h' : Explored node? children target v w) : Explored node? children target u w := by
  refine ⟨fun a ha ↦ h'.subset (h.subset ha), fun a ha ↦ ?_⟩
  rcases h'.closed a ha with hv | hnew
  · rcases h.closed a hv with hu | ⟨hne, hsucc⟩
    · exact .inl hu
    · exact .inr ⟨hne, fun b hb ↦ h'.subset (hsucc b hb)⟩
  · exact .inr hnew

private theorem anyVisited_false {find : ν → List α → Option (Bool × List α)}
    (hfind : ∀ v u w, find v u = some (false, w) →
      Explored node? children target u w ∧ ∀ b, node? v = some b → b ∈ w)
    {vs : List ν} {u w : List α} (h : anyVisited find vs u = some (false, w)) :
    Explored node? children target u w ∧ ∀ v ∈ vs, ∀ b, node? v = some b → b ∈ w := by
  induction vs generalizing u with
  | nil =>
      simp only [anyVisited, Option.some.injEq, Prod.mk.injEq, true_and] at h
      subst h
      exact ⟨.refl u, fun v hv ↦ absurd hv List.not_mem_nil⟩
  | cons v vs ih =>
      rw [anyVisited] at h
      split at h
      · cases h
      · cases h
      · rename_i u' hu'
        have ⟨hfirst, hroot⟩ := hfind v u u' hu'
        have ⟨hrest, hroots⟩ := ih h
        refine ⟨hfirst.trans hrest, fun v' hv' b hb ↦ ?_⟩
        rcases List.mem_cons.mp hv' with rfl | hv'
        · exact hrest.subset (hroot b hb)
        · exact hroots v' hv' b hb

private theorem anyVisited_true {find : ν → List α → Option (Bool × List α)} {vs : List ν}
    {u w : List α} (h : anyVisited find vs u = some (true, w)) :
    ∃ v ∈ vs, ∃ u', find v u' = some (true, w) := by
  induction vs generalizing u with
  | nil => cases h
  | cons v vs ih =>
      rw [anyVisited] at h
      split at h
      · cases h
      · rename_i w' hv
        simp only [Option.some.injEq, Prod.mk.injEq, true_and] at h
        subst h
        exact ⟨v, List.mem_cons_self, u, hv⟩
      · have ⟨v', hv', hfound⟩ := ih h
        exact ⟨v', List.mem_cons_of_mem v hv', hfound⟩

private theorem anyVisited_isSome {find : ν → List α → Option (Bool × List α)} {vs : List ν}
    {u : List α} {P : List α → Prop} (hu : P u)
    (hfind : ∀ v ∈ vs, ∀ u, P u → ∃ found w, find v u = some (found, w) ∧ P w) :
    ∃ found w, anyVisited find vs u = some (found, w) ∧ P w := by
  induction vs generalizing u with
  | nil => exact ⟨false, u, rfl, hu⟩
  | cons v vs ih =>
      have ⟨found, w, hv, hw⟩ := hfind v List.mem_cons_self u hu
      cases found with
      | true => exact ⟨true, w, by rw [anyVisited, hv], hw⟩
      | false =>
          have ⟨found, w', hvs, hw'⟩ :=
            ih hw fun v' hv' ↦ hfind v' (List.mem_cons_of_mem v hv')
          exact ⟨found, w', by rw [anyVisited, hv]; exact hvs, hw'⟩

variable [DecidableEq α]

/-- Searches for `target` from a value that stands for at most one node.  `none` is a search that
ran out of its budget of nested calls. -/
def search (node? : ν → Option α) (children : α → List ν) (target : α) :
    Nat → ν → List α → Option (Bool × List α)
  | 0, _, _ => none
  | budget + 1, value, visited =>
      match node? value with
      | none => some (false, visited)
      | some id =>
          if id = target then some (true, visited)
          else if id ∈ visited then some (false, visited)
          else anyVisited (search node? children target budget) (children id) (id :: visited)

/-- A search that fails has visited a closed set without the target. -/
theorem search_false {budget : Nat} {v : ν} {u w : List α}
    (h : search node? children target budget v u = some (false, w)) :
    Explored node? children target u w ∧ ∀ b, node? v = some b → b ∈ w := by
  induction budget generalizing v u w with
  | zero => cases h
  | succ budget ih =>
      rw [search] at h
      split at h
      · rename_i hnode
        simp only [Option.some.injEq, Prod.mk.injEq, true_and] at h
        subst h
        exact ⟨.refl u, fun b hb ↦ by rw [hnode] at hb; cases hb⟩
      · rename_i id hnode
        have hsame : ∀ b, node? v = some b → b = id := fun b hb ↦ by
          rw [hnode] at hb
          exact (Option.some.inj hb).symm
        split at h
        · cases h
        · rename_i hne
          split at h
          · rename_i hmem
            simp only [Option.some.injEq, Prod.mk.injEq, true_and] at h
            subst h
            exact ⟨.refl u, fun b hb ↦ hsame b hb ▸ hmem⟩
          · have ⟨hexplored, hroots⟩ := anyVisited_false (fun v u w ↦ ih) h
            have hid : id ∈ w := hexplored.subset List.mem_cons_self
            refine ⟨⟨fun a ha ↦ hexplored.subset (List.mem_cons_of_mem id ha), fun a ha ↦ ?_⟩,
              fun b hb ↦ hsame b hb ▸ hid⟩
            -- `id` itself is new: its successors are the values just searched
            rcases hexplored.closed a ha with hu | hnew
            · rcases List.mem_cons.mp hu with rfl | hu
              · exact .inr ⟨hne, fun b ⟨v', hv', hb⟩ ↦ hroots v' hv' b hb⟩
              · exact .inl hu
            · exact .inr hnew

/-- The target is not reachable when the search fails. -/
theorem not_reaches_of_search {budget : Nat} {v : ν} {w : List α}
    (h : search node? children target budget v [] = some (false, w)) {a : α}
    (ha : node? v = some a) : ¬ReflTransGen (Points node? children) a target := by
  have ⟨hexplored, hroot⟩ := search_false h
  have hclosed : ∀ a ∈ w, a ≠ target ∧ ∀ b, Points node? children a b → b ∈ w := fun a ha ↦
    (hexplored.closed a ha).resolve_left List.not_mem_nil
  intro hpath
  have hin : ∀ b, ReflTransGen (Points node? children) a b → b ∈ w := by
    intro b hb
    induction hb with
    | refl => exact hroot a ha
    | @tail b c _ hbc ih => exact (hclosed b ih).2 c hbc
  exact (hclosed target (hin target hpath)).1 rfl

/-- A search that succeeds started at a value that reaches the target. -/
theorem reaches_of_search {budget : Nat} {v : ν} {u w : List α}
    (h : search node? children target budget v u = some (true, w)) :
    ∃ a, node? v = some a ∧ ReflTransGen (Points node? children) a target := by
  induction budget generalizing v u with
  | zero => cases h
  | succ budget ih =>
      rw [search] at h
      split at h
      · cases h
      · rename_i id hnode
        split at h
        · rename_i heq
          subst heq
          exact ⟨id, hnode, .refl⟩
        · split at h
          · cases h
          · have ⟨v', hv', u', hfound⟩ := anyVisited_true h
            have ⟨b, hb, hpath⟩ := ih hfound
            exact ⟨id, hnode, .head ⟨v', hv', hb⟩ hpath⟩

/-! The search nests at most as deep as there are nodes left to visit. -/

private theorem search_visited {nodes : Finset α}
    (hnodes : ∀ a b, Points node? children a b → b ∈ nodes) {budget : Nat} {v : ν} {u : List α}
    (hv : ∀ a, node? v = some a → a ∈ nodes) (hu : (nodes \ u.toFinset).card < budget) :
    ∃ found w, search node? children target budget v u = some (found, w) ∧ u ⊆ w := by
  induction budget generalizing v u with
  | zero => exact absurd hu (Nat.not_lt_zero _)
  | succ budget ih =>
      rw [search]
      split
      · exact ⟨false, u, rfl, List.Subset.refl u⟩
      · rename_i id hnode
        split
        · exact ⟨true, u, rfl, List.Subset.refl u⟩
        · split
          · exact ⟨false, u, rfl, List.Subset.refl u⟩
          · rename_i hmem
            have hid := hv id hnode
            -- visiting `id` leaves one node less
            have hcard : (nodes \ (id :: u).toFinset).card < budget := by
              have hlt : nodes \ (id :: u).toFinset ⊂ nodes \ u.toFinset := by
                refine Finset.ssubset_iff_of_subset ?_ |>.mpr ⟨id, ?_, ?_⟩
                · refine Finset.sdiff_subset_sdiff le_rfl fun a ha ↦ ?_
                  rw [List.mem_toFinset] at ha ⊢
                  exact List.mem_cons_of_mem id ha
                · rw [Finset.mem_sdiff, List.mem_toFinset]
                  exact ⟨hid, hmem⟩
                · rw [Finset.mem_sdiff, List.mem_toFinset]
                  exact fun h ↦ h.2 List.mem_cons_self
              have := Finset.card_lt_card hlt
              omega
            have hchildren : ∀ v' ∈ children id, ∀ u', id :: u ⊆ u' →
                ∃ found w, search node? children target budget v' u' = some (found, w) ∧
                  id :: u ⊆ w := by
              intro v' hv' u' hu'
              have hle : (nodes \ u'.toFinset).card ≤ (nodes \ (id :: u).toFinset).card := by
                refine Finset.card_le_card (Finset.sdiff_subset_sdiff le_rfl fun a ha ↦ ?_)
                rw [List.mem_toFinset] at ha ⊢
                exact hu' ha
              have ⟨found, w, hfound, hsub⟩ :=
                ih (v := v') (u := u') (fun a ha ↦ hnodes id a ⟨v', hv', ha⟩) (by omega)
              exact ⟨found, w, hfound, fun a ha ↦ hsub (hu' ha)⟩
            have ⟨found, w, hw, hsub⟩ := anyVisited_isSome (List.Subset.refl (id :: u)) hchildren
            exact ⟨found, w, hw, fun a ha ↦ hsub (List.mem_cons_of_mem id ha)⟩

/-- With a budget above the number of nodes the search does not run out. -/
theorem search_isSome {nodes : Finset α} (hnodes : ∀ a b, Points node? children a b → b ∈ nodes)
    {budget : Nat} {v : ν} (hv : ∀ a, node? v = some a → a ∈ nodes) (hbudget : nodes.card < budget) :
    ∃ found w, search node? children target budget v [] = some (found, w) := by
  have hcard : (nodes \ ([] : List α).toFinset).card < budget := by simpa using hbudget
  obtain ⟨found, w, h, -⟩ := search_visited hnodes hv hcard
  exact ⟨found, w, h⟩

end Search

end Reasoning
