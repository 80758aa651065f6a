import Mathlib.Data.Finset.Union
import Stainless.Reasoning.Runs
import Stainless.Runtime.Var

/-!
# The graph of the aggregates

An aggregate points to the aggregates stored in it.  Every operation rewrites the contents of at most
one aggregate, and a value is stored in an aggregate only after the search has shown that it does not
lead back there.
-/

open Reasoning Relation

namespace Stainless.Runtime

/-! ## Well-formed heaps -/

namespace Heap

/-- One aggregate is stored in another. -/
def Contains (h : Heap) : AggregateId → AggregateId → Prop := Points Var.aggregateId? h.children

def Allocated (h : Heap) : AggregateId → Prop
  | .array i => i < h.arrays.length
  | .object i => i < h.objects.length

/-- A value that is no dangling handle. -/
def Knows (h : Heap) (v : Var) : Prop := ∀ id, v.aggregateId? = some id → h.Allocated id

structure WellFormed (h : Heap) : Prop where
  known : ∀ id, ∀ v ∈ h.children id, h.Knows v
  acyclic : Acyclic h.Contains

theorem knows_null (h : Heap) : h.Knows .null := fun _ hid ↦ by cases hid

theorem WellFormed.contains_allocated {h : Heap} (hw : h.WellFormed) {a b : AggregateId}
    (hab : h.Contains a b) : h.Allocated b := by
  have ⟨v, hv, hb⟩ := hab
  exact hw.known a v hv b hb

theorem children_of_not_allocated {h : Heap} {id : AggregateId} (hid : ¬h.Allocated id) :
    h.children id = [] := by
  cases id with
  | array i =>
      have hnone : h.arrays[i]? = none := List.getElem?_eq_none (Nat.le_of_not_lt hid)
      rw [children, readArray, hnone]
      rfl
  | object i =>
      have hnone : h.objects[i]? = none := List.getElem?_eq_none (Nat.le_of_not_lt hid)
      rw [children, readObject, hnone]
      rfl

/-- What is reached from an allocated aggregate is allocated. -/
theorem WellFormed.reaches_allocated {h : Heap} (hw : h.WellFormed) {a b : AggregateId}
    (ha : h.Allocated a) (hab : ReflTransGen h.Contains a b) : h.Allocated b := by
  induction hab with
  | refl => exact ha
  | tail _ hbc _ => exact hw.contains_allocated hbc

/-! ### The set of aggregates -/

def ids (h : Heap) : Finset AggregateId :=
  (Finset.range h.arrays.length).image .array ∪ (Finset.range h.objects.length).image .object

theorem mem_ids {h : Heap} {id : AggregateId} : id ∈ h.ids ↔ h.Allocated id := by
  cases id with
  | array i => simp [ids, Allocated]
  | object i => simp [ids, Allocated]

theorem card_ids_le (h : Heap) : h.ids.card ≤ h.aggregates := by
  have hunion := Finset.card_union_le ((Finset.range h.arrays.length).image AggregateId.array)
    ((Finset.range h.objects.length).image AggregateId.object)
  have harrays := Finset.card_image_le (s := Finset.range h.arrays.length) (f := AggregateId.array)
  have hobjects := Finset.card_image_le (s := Finset.range h.objects.length) (f := AggregateId.object)
  rw [Finset.card_range] at harrays hobjects
  rw [ids, aggregates]
  omega

/-- Following the handles of an acyclic heap comes to an end. -/
theorem WellFormed.wellFounded {h : Heap} (hw : h.WellFormed) : WellFounded (flip h.Contains) := by
  refine hw.acyclic.wellFounded h.ids.finite_toSet fun a b hab ↦ ?_
  rw [Finset.mem_coe, mem_ids]
  by_contra hna
  have ⟨v, hv, _⟩ := hab
  rw [children_of_not_allocated hna] at hv
  cases hv

end Heap

/-! ## Rewriting one aggregate -/

/-- `h'` is `h` with other contents of `target`: values that were there, scalars, and `stored`. -/
structure Rewrites (h h' : Heap) (target : AggregateId) (stored : List Var) : Prop where
  frame : ∀ id, id ≠ target → h'.children id = h.children id
  contents : ∀ v ∈ h'.children target,
    v ∈ h.children target ∨ v.aggregateId? = none ∨ v ∈ stored
  stores : ∀ v ∈ stored, v ∈ h'.children target
  allocated : ∀ id, h.Allocated id → h'.Allocated id

/-- A value leads to an aggregate. -/
def Heap.LeadsTo (h : Heap) (v : Var) (target : AggregateId) : Prop :=
  ∃ id, v.aggregateId? = some id ∧ ReflTransGen h.Contains id target

namespace Rewrites

variable {h h' : Heap} {target : AggregateId} {stored : List Var}

theorem knows (hr : Rewrites h h' target stored) {v : Var} (hv : h.Knows v) : h'.Knows v :=
  fun id hid ↦ hr.allocated id (hv id hid)

theorem contains_ne (hr : Rewrites h h' target stored) {a b : AggregateId} (ha : a ≠ target) :
    h'.Contains a b ↔ h.Contains a b := by
  rw [Heap.Contains, Heap.Contains, Points, Points, hr.frame a ha]

/-- Storing values that do not lead to the target keeps the heap well formed. -/
theorem wellFormed (hr : Rewrites h h' target stored) (hw : h.WellFormed)
    (hknown : ∀ v ∈ stored, h.Knows v) (hsafe : ∀ v ∈ stored, ¬h.LeadsTo v target) :
    h'.WellFormed := by
  constructor
  · intro id v hv
    by_cases hid : id = target
    · subst hid
      rcases hr.contents v hv with hold | hscalar | hnew
      · exact hr.knows (hw.known id v hold)
      · intro id' hid'
        rw [hscalar] at hid'
        cases hid'
      · exact hr.knows (hknown v hnew)
    · rw [hr.frame id hid] at hv
      exact hr.knows (hw.known id v hv)
  · refine hw.acyclic.add (t := target) fun a b hab ↦ ?_
    by_cases ha : a = target
    · subst ha
      have ⟨v, hv, hb⟩ := hab
      rcases hr.contents v hv with hold | hscalar | hnew
      · exact .inl ⟨v, hold, hb⟩
      · rw [hscalar] at hb
        cases hb
      · exact .inr ⟨rfl, fun hpath ↦ hsafe v hnew ⟨b, hb, hpath⟩⟩
    · exact .inl ((hr.contains_ne ha).mp hab)

/-- Storing a value that leads to the target closes a cycle. -/
theorem not_acyclic (hr : Rewrites h h' target stored) {v : Var} (hv : v ∈ stored)
    (hleads : h.LeadsTo v target) : ¬Acyclic h'.Contains := by
  have ⟨b, hb, hpath⟩ := hleads
  exact not_acyclic_of_reaches (fun x y hx hxy ↦ (hr.contains_ne hx).mpr hxy)
    ⟨v, hr.stores v hv, hb⟩ hpath

end Rewrites

/-! ### The two kinds of contents -/

namespace Heap

variable {h : Heap} {stored : List Var}

theorem children_writeArray {i : Nat} (hi : i < h.arrays.length) (values : List Var) :
    (h.writeArray i values).children (.array i) = values := by
  rw [children, readArray, writeArray, List.getElem?_set_self hi]
  rfl

theorem children_writeObject {i : Nat} (hi : i < h.objects.length)
    (fields : OrderedMap String Var) :
    (h.writeObject i fields).children (.object i) = fields.values := by
  rw [children, readObject, writeObject, List.getElem?_set_self hi]
  rfl

theorem rewrites_writeArray {i : Nat} {values : List Var} (hi : i < h.arrays.length)
    (hvalues : ∀ v ∈ values, v ∈ h.readArray i ∨ v.aggregateId? = none ∨ v ∈ stored)
    (hstored : ∀ v ∈ stored, v ∈ values) :
    Rewrites h (h.writeArray i values) (.array i) stored := by
  constructor
  · intro id hid
    cases id with
    | array j =>
        have hne : i ≠ j := fun hij ↦ hid (hij ▸ rfl)
        simp only [children, readArray, writeArray, List.getElem?_set_ne hne]
    | object j => rfl
  · rw [children_writeArray hi]
    exact hvalues
  · rw [children_writeArray hi]
    exact hstored
  · intro id hid
    cases id with
    | array j => simpa [Allocated, writeArray] using hid
    | object j => exact hid

theorem rewrites_writeObject {i : Nat} {fields : OrderedMap String Var}
    (hi : i < h.objects.length)
    (hfields : ∀ (k : String) (v : Var), fields[k]? = some v →
      (h.readObject i)[k]? = some v ∨ v ∈ stored)
    (hstored : ∀ v ∈ stored, ∃ k : String, fields[k]? = some v) :
    Rewrites h (h.writeObject i fields) (.object i) stored := by
  constructor
  · intro id hid
    cases id with
    | array j => rfl
    | object j =>
        have hne : i ≠ j := fun hij ↦ hid (hij ▸ rfl)
        simp only [children, readObject, writeObject, List.getElem?_set_ne hne]
  · rw [children_writeObject hi]
    intro v hv
    have ⟨k, hk⟩ := (OrderedMap.mem_values fields v).mp hv
    rcases hfields k v hk with hold | hnew
    · exact .inl ((OrderedMap.mem_values _ v).mpr ⟨k, hold⟩)
    · exact .inr (.inr hnew)
  · rw [children_writeObject hi]
    exact fun v hv ↦ (OrderedMap.mem_values fields v).mpr (hstored v hv)
  · intro id hid
    cases id with
    | array j => exact hid
    | object j => simpa [Allocated, writeObject] using hid

end Heap

end Stainless.Runtime
