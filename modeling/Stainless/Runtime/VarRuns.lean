import Stainless.Runtime.VarOperations

/-!
# Programs over JSON values

Every run of operations keeps the heap acyclic, so every conversion of a value comes to an end.
-/

open Reasoning Relation

namespace Stainless.Runtime

/-! ## 1. Runs -/

/-- The heap is well formed and what the program holds is in it. -/
structure Program.Sound (p : Program) : Prop where
  heap : p.heap.WellFormed
  held : ∀ v ∈ p.held, p.heap.Knows v

theorem Program.Sound.value {p : Program} (hp : p.Sound) (slot : Nat) :
    p.heap.Knows (p.value slot) :=
  knows_getD fun w hw ↦ hp.held w (List.mem_of_getElem? hw)

theorem Keeps.bind_pure {h : Heap} {α : Type} {values : α → List Var} {x : VarM α}
    (hx : Keeps h values (x h)) (f : α → List Var) (hf : ∀ a, ∀ v ∈ f a, v ∈ values a) :
    Keeps h (fun vs ↦ vs) ((x >>= fun a ↦ (pure (f a) : VarM (List Var))) h) := by
  show Keeps h (fun vs ↦ vs) (EStateM.bind x _ h)
  unfold EStateM.bind
  cases hresult : x h with
  | ok a h' =>
      rw [hresult] at hx
      cases hx with
      | done _ _ hw hknows hreturns => exact .done _ h' hw hknows fun v hv ↦ hreturns v (hf a v hv)
  | error e h' =>
      rw [hresult] at hx
      cases hx
      exact .failed e

/-- What one operation does; one case for each operation. -/
theorem Op.call_keeps {p : Program} (hp : p.Sound) (op : Op) :
    Keeps p.heap (fun vs ↦ vs) (op.call p p.heap) := by
  have hw := hp.heap
  cases op with
  | scalar value =>
      apply keeps_read hw
      intro v hv
      rw [List.mem_singleton] at hv
      subst hv
      cases value <;> exact fun id hid ↦ by cases hid
  | array elements =>
      refine (newArray_keeps hw fun v hv ↦ ?_).bind_pure _ fun _ _ hv ↦ hv
      have ⟨slot, _, heq⟩ := List.mem_map.mp hv
      exact heq ▸ hp.value slot
  | object fields =>
      refine (newObject_keeps hw fun v hv ↦ ?_).bind_pure _ fun _ _ hv ↦ hv
      rw [List.map_map] at hv
      have ⟨f, _, heq⟩ := List.mem_map.mp hv
      exact heq ▸ hp.value f.2
  | clone self => exact keeps_read hw fun v hv ↦ List.mem_singleton.mp hv ▸ hp.value self
  | field self name => exact (field_keeps hw _ name).bind_pure _ fun _ _ hv ↦ hv
  | index self i => exact (index_keeps hw _ i).bind_pure _ fun _ _ hv ↦ hv
  | arraySnapshot self => exact arraySnapshot_keeps hw _
  | setField self name value =>
      exact (mutation_keeps hw (.setField name) (hp.value self) (hp.value value)).bind_pure _
        fun _ _ hv ↦ hv
  | setIndex self i value =>
      exact (mutation_keeps hw (.setIndex i) (hp.value self) (hp.value value)).bind_pure _
        fun _ _ hv ↦ hv
  | push self value =>
      exact (mutation_keeps hw .push (hp.value self) (hp.value value)).bind_pure _ fun _ _ hv ↦ hv
  | pop self => exact (pop_keeps hw (hp.value self)).bind_pure _ fun _ _ hv ↦ hv
  | insert self i value =>
      exact (mutation_keeps hw (.insert i) (hp.value self) (hp.value value)).bind_pure _
        fun _ _ hv ↦ hv
  | removeIndex self i =>
      exact (removeIndex_keeps hw (hp.value self) i).bind_pure _ fun _ _ hv ↦ hv
  | removeField self name =>
      exact (removeField_keeps hw (hp.value self) name).bind_pure _ fun _ _ hv ↦ hv
  | clear self => exact (clear_keeps hw (hp.value self)).bind_pure _ fun _ _ hv ↦ hv

theorem Program.Sound.step {p : Program} (hp : p.Sound) (op : Op) : (p.step op).Sound := by
  have hkeeps := op.call_keeps hp
  unfold Program.step
  cases hresult : op.call p p.heap with
  | ok values h' =>
      rw [hresult] at hkeeps
      cases hkeeps with
      | done _ _ hw hknows hreturns =>
          constructor
          · exact hw
          · intro v hv
            cases List.mem_append.mp hv with
            | inl hold => exact hknows v (hp.held v hold)
            | inr hnew => exact hreturns v hnew
  | error e h' =>
      rw [hresult] at hkeeps
      cases hkeeps
      exact hp

theorem Program.sound_start : Program.start.Sound := by
  constructor
  · constructor
    · intro id v hv
      cases id <;> simp [Program.start, Heap.empty, Heap.children, Heap.readArray, Heap.readObject,
        OrderedMap.values] at hv
    · intro a ha
      -- the first edge of a cycle would need an aggregate
      obtain ⟨b, hab, _⟩ := TransGen.head'_iff.mp ha
      obtain ⟨v, hv, _⟩ := hab
      cases a <;> simp [Program.start, Heap.empty, Heap.children, Heap.readArray, Heap.readObject,
        OrderedMap.values] at hv
  · exact fun v hv ↦ absurd hv List.not_mem_nil

theorem Program.sound_run (ops : List Op) : (run Program.step .start ops).Sound := by
  have hinv : ∀ p : Program, p.Sound → (run Program.step p ops).Sound := by
    induction ops with
    | nil => exact fun p hp ↦ hp
    | cons op ops ih => exact fun p hp ↦ ih _ (hp.step op)
  exact hinv _ Program.sound_start

/-! ## 2. Conversions -/

/-- The conversion has a result once its budget is large enough. -/
def Ends {β : Type} (convert : Nat → Option β) : Prop :=
  ∃ result budget, ∀ n ≥ budget, convert n = some result

theorem Ends.map {β γ : Type} {convert : Nat → Option β} (h : Ends convert) (f : β → γ) :
    Ends fun n ↦ (convert n).map f := by
  have ⟨result, budget, hresult⟩ := h
  use f result, budget
  intro n hn
  show (convert n).map f = some (f result)
  rw [hresult n hn]
  rfl

theorem Ends.succ {β : Type} {convert : Nat → Option β} (h : Ends fun n ↦ convert (n + 1)) :
    Ends convert := by
  have ⟨result, budget, hresult⟩ := h
  use result, budget + 1
  intro n hn
  cases n with
  | zero => exact absurd hn (Nat.not_succ_le_zero budget)
  | succ n => exact hresult n (Nat.le_of_succ_le_succ hn)

theorem Ends.pure {β : Type} (result : β) : Ends fun _ ↦ some result := ⟨result, 0, fun _ _ ↦ rfl⟩

/-- A list is converted when all its elements are. -/
theorem Ends.mapM {α β : Type} {convert : Nat → α → Option β} {xs : List α}
    (h : ∀ x ∈ xs, Ends fun n ↦ convert n x) : Ends fun n ↦ xs.mapM (convert n) := by
  induction xs with
  | nil => exact .pure []
  | cons x xs ih =>
      have ⟨y, b, hy⟩ := h x List.mem_cons_self
      have ⟨ys, b', hys⟩ := ih fun x hx ↦ h x (List.mem_cons_of_mem _ hx)
      use y :: ys, max b b'
      intro n hn
      have hx : convert n x = some y := hy n (le_of_max_le_left hn)
      have hxs : xs.mapM (convert n) = some ys := hys n (le_of_max_le_right hn)
      show (x :: xs).mapM (convert n) = some (y :: ys)
      rw [List.mapM_cons, hx, hxs]
      rfl

/-- A conversion that ends on the values stored in an aggregate ends on every value. -/
theorem ends_of_children {h : Heap} (hw : h.WellFormed) {β : Type} {convert : Nat → Var → Option β}
    (hscalar : ∀ v : Var, v.aggregateId? = none → Ends fun n ↦ convert n v)
    (hnode : ∀ v id, v.aggregateId? = some id →
      (∀ w ∈ h.children id, Ends fun n ↦ convert n w) → Ends fun n ↦ convert n v)
    (v : Var) : Ends fun n ↦ convert n v := by
  have hids : ∀ id, ∀ v : Var, v.aggregateId? = some id → Ends fun n ↦ convert n v := by
    intro id
    -- along the edges of the acyclic heap
    induction id using hw.wellFounded.induction with
    | _ id ih =>
        intro v hv
        apply hnode v id hv
        intro w hmem
        cases hchild : w.aggregateId? with
        | none => exact hscalar w hchild
        | some child => exact ih child ⟨w, hmem, hchild⟩ w hchild
  cases hv : v.aggregateId? with
  | none => exact hscalar v hv
  | some id => exact hids id v hv

theorem toValue_ends {h : Heap} (hw : h.WellFormed) (v : Var) : Ends fun n ↦ v.toValue h n := by
  apply ends_of_children hw
  · intro v hv
    apply Ends.succ
    cases v <;> first | exact .pure _ | cases hv
  · intro v id hv hchildren
    apply Ends.succ
    cases v with
    | array i =>
        cases hv
        exact (Ends.mapM hchildren).map Value.array
    | object i =>
        cases hv
        refine (Ends.mapM fun field hfield ↦ ?_).map Value.object
        exact (hchildren field.2 (List.mem_map_of_mem hfield)).map (field.1, ·)
    | null | bool | number | string => cases hv

theorem toStringValue_ends {h : Heap} (hw : h.WellFormed) (v : Var) :
    Ends fun n ↦ v.toStringValue h n := by
  apply ends_of_children hw
  · intro v hv
    apply Ends.succ
    cases v <;> first | exact .pure _ | cases hv
  · intro v id hv hchildren
    apply Ends.succ
    cases v with
    | array i =>
        cases hv
        refine (Ends.mapM fun w hmem ↦ ?_).map _
        cases w with
        | null => exact .pure ""
        | bool | number | string | array | object => exact hchildren _ hmem
    | object i => exact .pure _
    | null | bool | number | string => cases hv

/-! ## 3. Values never form a cycle -/

/-- A mutation is rejected for a cycle exactly when its store would leave one behind; otherwise it
is the store, and an error of the store is another one and has no effect. -/
structure Mutation.Guarded (m : Mutation) (h : Heap) (self value : Var) : Prop where
  rejected : ∀ id, m.target? self = some id → h.Closes id value →
    m.run self value h = .error .cycle h
  admitted : (∀ id, m.target? self = some id → ¬h.Closes id value) →
    m.run self value h = m.unchecked self value h
  closes : ∀ id h', m.target? self = some id → m.unchecked self value h = .ok () h' →
    (h.Closes id value ↔ ¬Acyclic h'.Contains)
  fails : ∀ e h', m.unchecked self value h = .error e h' → h' = h ∧ e ≠ .cycle

theorem Mutation.unchecked_fails {h : Heap} {m : Mutation} {self value : Var} (hself : h.Knows self)
    {e : JsonError} {h' : Heap} (hfails : m.unchecked self value h = .error e h') :
    h' = h ∧ e ≠ .cycle := by
  cases hid : m.target? self with
  | none => cases m <;> cases self <;> cases hid <;> cases hfails <;> exact ⟨rfl, by decide⟩
  | some id =>
      have hstores := stores_unchecked value hself hid
      rw [hfails] at hstores
      cases hstores with
      | failed _ hother => exact ⟨rfl, hother⟩

/-- In every state of a program the aggregates form no cycle, a storing mutation of any two values it
holds fails for a cycle exactly when it would close one, and all conversions end. -/
theorem values_never_cyclic (render : Value → String) (ops : List Op) :
    let p := run Program.step .start ops
    Acyclic p.heap.Contains ∧
    (∀ m : Mutation, ∀ self ∈ p.held, ∀ value ∈ p.held, m.Guarded p.heap self value) ∧
    (∀ (op : Op) e h, op.call p p.heap = .error e h → h = p.heap) ∧
    ∀ value ∈ p.held,
      (Ends fun n ↦ value.toValue p.heap n) ∧
      (Ends fun n ↦ value.toJson render p.heap n) ∧
      Ends fun n ↦ value.toStringValue p.heap n := by
  intro p
  have hp : p.Sound := Program.sound_run ops
  have hw := hp.heap
  refine ⟨hw.acyclic, ?_, ?_, ?_⟩
  · intro m self hself value hvalue
    have hself := hp.held self hself
    have hvalue := hp.held value hvalue
    constructor
    · exact fun id hid hcloses ↦ Mutation.run_of_closes hw hvalue hid hcloses
    · exact fun hsafe ↦ Mutation.run_of_not_closes hw hvalue hsafe
    · exact fun id h' hid hstore ↦ Mutation.closes_iff_not_acyclic hw hself hvalue hid hstore
    · exact fun e h' hfails ↦ Mutation.unchecked_fails hself hfails
  · intro op e h herror
    have hkeeps := op.call_keeps hp
    rw [herror] at hkeeps
    cases hkeeps
    rfl
  · intro value _
    exact ⟨toValue_ends hw value, (toValue_ends hw value).map render, toStringValue_ends hw value⟩

end Stainless.Runtime
