import Stainless.Runtime.VarGraph

/-!
# Operations on JSON values

The search before a store finds out whether the stored value leads back to the receiver, so every
operation keeps the heap acyclic or fails without an effect.
-/

open Reasoning Relation

namespace Stainless.Runtime

/-! ## 1. The search before a store -/

theorem containsAggregate_eq_search (h : Heap) (target : AggregateId) (budget : Nat) (v : Var)
    (visited : List AggregateId) :
    Var.containsAggregate h target budget v visited =
      search Var.aggregateId? h.children target budget v visited := by
  induction budget generalizing v visited with
  | zero => rfl
  | succ budget ih =>
      have hsame : Var.containsAggregate h target budget =
          search Var.aggregateId? h.children target budget :=
        funext fun v ↦ funext fun visited ↦ ih v visited
      unfold Var.containsAggregate search
      rw [hsame]
      cases v <;> rfl

/-- Pointing `id` at a value as well closes a cycle. -/
def Heap.Closes (h : Heap) (id : AggregateId) (v : Var) : Prop :=
  ¬Acyclic fun a b ↦ h.Contains a b ∨ a = id ∧ v.aggregateId? = some b

theorem Heap.WellFormed.closes_iff {h : Heap} (hw : h.WellFormed) (id : AggregateId) (v : Var) :
    h.Closes id v ↔ h.LeadsTo v id := by
  constructor
  · intro hcloses
    by_contra hsafe
    apply hcloses
    refine hw.acyclic.add (t := id) fun a b hab ↦ ?_
    cases hab with
    | inl hold => exact .inl hold
    | inr hnew => exact .inr ⟨hnew.1, fun hpath ↦ hsafe ⟨b, hnew.2, hpath⟩⟩
  · intro hleads
    have ⟨b, hb, hpath⟩ := hleads
    exact not_acyclic_of_reaches (fun x y _ hxy ↦ .inl hxy) (.inr ⟨rfl, hb⟩) hpath

/-- The budget of the search is enough: it ends, and it finds what there is to find. -/
theorem Heap.WellFormed.containsAggregate_eq {h : Heap} (hw : h.WellFormed) (id : AggregateId)
    {v : Var} (hv : h.Knows v) :
    ∃ found visited, Var.containsAggregate h id (h.aggregates + 1) v [] = some (found, visited) ∧
      (found = true ↔ h.LeadsTo v id) := by
  have hnodes : ∀ a b, h.Contains a b → b ∈ h.ids := fun a b hab ↦
    Heap.mem_ids.mpr (hw.contains_allocated hab)
  have hroot : ∀ a, v.aggregateId? = some a → a ∈ h.ids := fun a ha ↦ Heap.mem_ids.mpr (hv a ha)
  have hbudget : h.ids.card < h.aggregates + 1 := Nat.lt_succ_of_le h.card_ids_le
  have ⟨found, visited, hsearch⟩ : ∃ found visited,
      search Var.aggregateId? h.children id (h.aggregates + 1) v [] = some (found, visited) :=
    search_isSome hnodes hroot hbudget
  use found, visited
  rw [containsAggregate_eq_search]
  use hsearch
  cases found with
  | true => exact ⟨fun _ ↦ reaches_of_search hsearch, fun _ ↦ rfl⟩
  | false =>
      constructor
      · intro hfalse
        cases hfalse
      · intro hleads
        have ⟨a, ha, hpath⟩ := hleads
        exact absurd hpath (not_reaches_of_search hsearch ha)

theorem rejectCycle_of_leadsTo {h : Heap} (hw : h.WellFormed) {id : AggregateId} {v : Var}
    (hv : h.Knows v) (hleads : h.LeadsTo v id) : Var.rejectCycle id v h = .error .cycle h := by
  obtain ⟨found, visited, hfound, hiff⟩ := hw.containsAggregate_eq id hv
  rw [hiff.mpr hleads] at hfound
  unfold Var.rejectCycle
  simp only [bind, EStateM.bind, get, getThe, MonadStateOf.get]
  delta EStateM.get
  simp only [hfound]
  rfl

theorem rejectCycle_of_not_leadsTo {h : Heap} (hw : h.WellFormed) {id : AggregateId} {v : Var}
    (hv : h.Knows v) (hsafe : ¬h.LeadsTo v id) : Var.rejectCycle id v h = .ok () h := by
  obtain ⟨found, visited, hfound, hiff⟩ := hw.containsAggregate_eq id hv
  have hfalse : found = false := Bool.eq_false_iff.mpr fun htrue ↦ hsafe (hiff.mp htrue)
  rw [hfalse] at hfound
  unfold Var.rejectCycle
  simp only [bind, EStateM.bind, get, getThe, MonadStateOf.get]
  delta EStateM.get
  simp only [hfound]
  rfl

/-! ## 2. The mutations that store a value -/

/-- A mutation that stores a value, without its receiver and the value. -/
inductive Mutation
  | setField (name : String)
  | setIndex (index : Nat)
  | push
  | insert (index : Nat)

namespace Mutation

def run (self value : Var) : Mutation → VarM Unit
  | setField name => self.setField name value
  | setIndex index => self.setIndex index value
  | push => self.push value
  | insert index => self.insert index value

/-- The aggregate that is stored into; `none` when the receiver is of another kind. -/
def target? (self : Var) : Mutation → Option AggregateId
  | setField _ =>
      match self with
      | .object i => some (.object i)
      | _ => none
  | setIndex _ | push | insert _ =>
      match self with
      | .array i => some (.array i)
      | _ => none

/-- The mutation without its search for a cycle. -/
def unchecked (self value : Var) : Mutation → VarM Unit
  | setField name =>
      match self with
      | .object i => Var.storeField i name value
      | _ => throw (.mutation "member assignment requires an object")
  | setIndex index =>
      match self with
      | .array i => Var.storeIndex i index value
      | _ => throw (.mutation "indexed assignment requires an array")
  | push =>
      match self with
      | .array i => Var.storePush i value
      | _ => throw (.mutation "push requires an array")
  | insert index =>
      match self with
      | .array i => Var.storeInsert i index value
      | _ => throw (.mutation "insert requires an array")

variable {m : Mutation} {self value : Var} {h : Heap} {id : AggregateId}

/-- A mutation is the search and then the store. -/
theorem run_eq (hid : m.target? self = some id) :
    m.run self value = (do Var.rejectCycle id value; m.unchecked self value) := by
  cases m <;> cases self <;> cases hid <;> rfl

theorem run_eq_unchecked (hid : m.target? self = none) :
    m.run self value = m.unchecked self value := by
  cases m <;> cases self <;> first | rfl | cases hid

theorem aggregateId?_of_target? (hid : m.target? self = some id) :
    self.aggregateId? = some id := by
  cases m <;> cases self <;> cases hid <;> rfl

/-! ### What a store does -/

/-- A store rewrites the receiver, or fails without an effect for another reason than a cycle. -/
inductive Stores (h : Heap) (id : AggregateId) (value : Var) : EStateM.Result JsonError Heap Unit → Prop
  | done (h' : Heap) (rewrites : Rewrites h h' id [value]) : Stores h id value (.ok () h')
  | failed (e : JsonError) (other : e ≠ .cycle) : Stores h id value (.error e h)

theorem stores_field {i : Nat} (hi : i < h.objects.length) (name : String) :
    Stores h (.object i) value (Var.storeField i name value h) := by
  apply Stores.done
  apply Heap.rewrites_writeObject hi
  · intro k v hk
    rw [OrderedMap.getElem?_insert] at hk
    by_cases hname : name = k
    · rw [if_pos hname, Option.some.injEq] at hk
      exact .inr (List.mem_singleton.mpr hk.symm)
    · rw [if_neg hname] at hk
      exact .inl hk
  · intro v hv
    rw [List.mem_singleton] at hv
    subst hv
    exact ⟨name, by rw [OrderedMap.getElem?_insert, if_pos rfl]⟩

theorem stores_push {i : Nat} (hi : i < h.arrays.length) :
    Stores h (.array i) value (Var.storePush i value h) := by
  apply Stores.done
  apply Heap.rewrites_writeArray hi
  · intro v hv
    cases List.mem_append.mp hv with
    | inl hold => exact .inl hold
    | inr hnew => exact .inr (.inr hnew)
  · intro v hv
    exact List.mem_append.mpr (.inr hv)

/-- Writing one element of an array that is extended by nulls. -/
theorem rewrites_set {i index : Nat} (hi : i < h.arrays.length) {values : List Var}
    (hindex : index < values.length)
    (hvalues : ∀ v ∈ values, v ∈ h.readArray i ∨ v = .null) :
    Rewrites h (h.writeArray i (values.set index value)) (.array i) [value] := by
  apply Heap.rewrites_writeArray hi
  · intro v hv
    cases List.mem_or_eq_of_mem_set hv with
    | inl hold =>
        cases hvalues v hold with
        | inl hread => exact .inl hread
        | inr hnull => exact .inr (.inl (by rw [hnull]; rfl))
    | inr hnew => exact .inr (.inr (List.mem_singleton.mpr hnew))
  · intro v hv
    rw [List.mem_singleton] at hv
    subst hv
    exact List.mem_set hindex v

theorem stores_index {i : Nat} (hi : i < h.arrays.length) (index : Nat) :
    Stores h (.array i) value (Var.storeIndex i index value h) := by
  show Stores h (.array i) value
    ((if index ≥ (h.readArray i).length then _ else _ : VarM Unit) h)
  by_cases hend : index ≥ (h.readArray i).length
  · rw [if_pos hend]
    by_cases hmax : index ≥ Var.usizeMax
    · rw [if_pos hmax]
      exact .failed _ (by decide)
    · rw [if_neg hmax]
      apply Stores.done
      apply rewrites_set hi
      · rw [List.length_append, List.length_replicate]
        omega
      · intro v hv
        cases List.mem_append.mp hv with
        | inl hold => exact .inl hold
        | inr hnull => exact .inr (List.eq_of_mem_replicate hnull)
  · rw [if_neg hend]
    apply Stores.done
    exact rewrites_set hi (Nat.lt_of_not_le hend) fun v hv ↦ .inl hv

theorem stores_insert {i : Nat} (hi : i < h.arrays.length) (index : Nat) :
    Stores h (.array i) value (Var.storeInsert i index value h) := by
  show Stores h (.array i) value
    ((if index > (h.readArray i).length then _ else _ : VarM Unit) h)
  by_cases hend : index > (h.readArray i).length
  · rw [if_pos hend]
    apply Stores.failed
    intro heq
    have hmessage := congrArg (fun e ↦ e.message.toList.head?) heq
    simp only [JsonError.mutation, JsonError.cycle, String.toList_append, List.append_assoc] at hmessage
    change some 'a' = some 'm' at hmessage
    cases hmessage
  · rw [if_neg hend]
    apply Stores.done
    have hle : index ≤ (h.readArray i).length := Nat.le_of_not_lt hend
    apply Heap.rewrites_writeArray hi
    · intro v hv
      cases (List.mem_insertIdx hle).mp hv with
      | inl hnew => exact .inr (.inr (List.mem_singleton.mpr hnew))
      | inr hold => exact .inl hold
    · intro v hv
      exact (List.mem_insertIdx hle).mpr (.inl (List.mem_singleton.mp hv))

theorem stores_unchecked (value : Var) (hself : h.Knows self) (hid : m.target? self = some id) :
    Stores h id value (m.unchecked self value h) := by
  have hi : h.Allocated id := hself id (aggregateId?_of_target? hid)
  cases m with
  | setField name =>
      cases self <;> cases hid
      exact stores_field hi name
  | setIndex index =>
      cases self <;> cases hid
      exact stores_index hi index
  | push =>
      cases self <;> cases hid
      exact stores_push hi
  | insert index =>
      cases self <;> cases hid
      exact stores_insert hi index

theorem run_of_closes (hw : h.WellFormed) (hvalue : h.Knows value) (hid : m.target? self = some id)
    (hcloses : h.Closes id value) : m.run self value h = .error .cycle h := by
  rw [run_eq hid]
  show EStateM.bind (Var.rejectCycle id value) _ h = _
  unfold EStateM.bind
  rw [rejectCycle_of_leadsTo hw hvalue ((hw.closes_iff id value).mp hcloses)]

theorem run_of_not_closes (hw : h.WellFormed) (hvalue : h.Knows value)
    (hsafe : ∀ id, m.target? self = some id → ¬h.Closes id value) :
    m.run self value h = m.unchecked self value h := by
  cases hid : m.target? self with
  | none => rw [run_eq_unchecked hid]
  | some id =>
      rw [run_eq hid]
      show EStateM.bind (Var.rejectCycle id value) _ h = _
      unfold EStateM.bind
      have hno : ¬h.LeadsTo value id := fun hleads ↦ hsafe id hid ((hw.closes_iff id value).mpr hleads)
      rw [rejectCycle_of_not_leadsTo hw hvalue hno]

/-- The store alone leaves a cycle behind exactly when the mutation is rejected. -/
theorem closes_iff_not_acyclic (hw : h.WellFormed) (hself : h.Knows self) (hvalue : h.Knows value)
    (hid : m.target? self = some id) {h' : Heap} (hstore : m.unchecked self value h = .ok () h') :
    h.Closes id value ↔ ¬Acyclic h'.Contains := by
  have hstores := stores_unchecked value hself hid
  rw [hstore] at hstores
  cases hstores with
  | done _ hrewrites =>
      rw [hw.closes_iff]
      constructor
      · exact fun hleads ↦ hrewrites.not_acyclic (List.mem_singleton.mpr rfl) hleads
      · intro hcyclic
        by_contra hsafe
        apply hcyclic
        refine (hrewrites.wellFormed hw ?_ ?_).acyclic
        · intro v hv
          rw [List.mem_singleton.mp hv]
          exact hvalue
        · intro v hv
          rw [List.mem_singleton.mp hv]
          exact hsafe

end Mutation

/-! ## 3. One operation -/

/-- An operation keeps the heap well formed and returns values of it, or fails without an effect. -/
inductive Keeps (h : Heap) {α : Type} (values : α → List Var) : EStateM.Result JsonError Heap α → Prop
  | done (a : α) (h' : Heap) (wellFormed : h'.WellFormed) (knows : ∀ v, h.Knows v → h'.Knows v)
      (returns : ∀ v ∈ values a, h'.Knows v) : Keeps h values (.ok a h')
  | failed (e : JsonError) : Keeps h values (.error e h)

section Operations

variable {h : Heap}

theorem keeps_read {α : Type} {values : α → List Var} (hw : h.WellFormed) {a : α}
    (ha : ∀ v ∈ values a, h.Knows v) : Keeps h values (.ok a h) :=
  .done a h hw (fun _ hv ↦ hv) ha

theorem keeps_rewrite {α : Type} {values : α → List Var} (hw : h.WellFormed) {h' : Heap}
    {id : AggregateId} {stored : List Var} (hr : Rewrites h h' id stored)
    (hknown : ∀ v ∈ stored, h.Knows v) (hsafe : ∀ v ∈ stored, ¬h.LeadsTo v id) {a : α}
    (ha : ∀ v ∈ values a, h.Knows v ∨ h'.Knows v) : Keeps h values (.ok a h') := by
  apply Keeps.done
  · exact hr.wellFormed hw hknown hsafe
  · exact fun v hv ↦ hr.knows hv
  · intro v hv
    cases ha v hv with
    | inl hold => exact hr.knows hold
    | inr hnew => exact hnew

/-- What removes values from an aggregate closes no cycle. -/
theorem keeps_removal {α : Type} {values : α → List Var} (hw : h.WellFormed) {h' : Heap}
    {id : AggregateId} (hr : Rewrites h h' id []) {a : α} (ha : ∀ v ∈ values a, h.Knows v) :
    Keeps h values (.ok a h') :=
  keeps_rewrite hw hr (fun _ hv ↦ absurd hv List.not_mem_nil) (fun _ hv ↦ absurd hv List.not_mem_nil)
    fun v hv ↦ .inl (ha v hv)

/-! ### Construction -/

/-- Nothing that is allocated leads to an aggregate that is not. -/
theorem not_leadsTo_fresh (hw : h.WellFormed) {id : AggregateId} (hid : ¬h.Allocated id) {v : Var}
    (hv : h.Knows v) : ¬h.LeadsTo v id := by
  intro hleads
  have ⟨a, ha, hpath⟩ := hleads
  exact hid (hw.reaches_allocated (hv a ha) hpath)

theorem newArray_keeps (hw : h.WellFormed) {values : List Var} (hvalues : ∀ v ∈ values, h.Knows v) :
    Keeps h (fun v ↦ [v]) (Var.newArray values h) := by
  let h' : Heap := { h with arrays := h.arrays ++ [values] }
  have hnew : h'.children (.array h.arrays.length) = values := by
    simp [h', Heap.children, Heap.readArray]
  have hr : Rewrites h h' (.array h.arrays.length) values := by
    constructor
    · intro id hid
      cases id with
      | array i =>
          have hne : i ≠ h.arrays.length := fun hi ↦ hid (hi ▸ rfl)
          simp only [h', Heap.children, Heap.readArray, List.getElem?_append]
          split
          · rfl
          · rename_i hge
            have hend : [values][i - h.arrays.length]? = none :=
              List.getElem?_eq_none (by rw [List.length_singleton]; omega)
            rw [hend, List.getElem?_eq_none (Nat.le_of_not_lt hge)]
      | object i => rfl
    · rw [hnew]
      exact fun v hv ↦ .inr (.inr hv)
    · rw [hnew]
      exact fun v hv ↦ hv
    · intro id hid
      cases id with
      | array i =>
          show i < (h.arrays ++ [values]).length
          rw [List.length_append]
          exact Nat.lt_add_right 1 hid
      | object i => exact hid
  have hfresh : ¬h.Allocated (.array h.arrays.length) := Nat.lt_irrefl _
  refine keeps_rewrite hw hr hvalues (fun v hv ↦ not_leadsTo_fresh hw hfresh (hvalues v hv)) ?_
  intro v hv
  rw [List.mem_singleton] at hv
  subst hv
  right
  intro id hid
  cases hid
  show h.arrays.length < (h.arrays ++ [values]).length
  rw [List.length_append, List.length_singleton]
  exact Nat.lt_succ_self _

/-- The fields that are collected come from the list. -/
theorem foldl_insert_values (fields : List (String × Var)) (m : OrderedMap String Var) (k : String)
    (v : Var)
    (hv : (fields.foldl (fun m field ↦ m.insert field.1 field.2) m)[k]? = some v) :
    m[k]? = some v ∨ v ∈ fields.map Prod.snd := by
  induction fields generalizing m with
  | nil => exact .inl hv
  | cons field fields ih =>
      rw [List.map_cons, List.mem_cons]
      cases ih _ hv with
      | inl hfirst =>
          rw [OrderedMap.getElem?_insert] at hfirst
          split at hfirst
          · exact .inr (.inl (Option.some.inj hfirst).symm)
          · exact .inl hfirst
      | inr hrest => exact .inr (.inr hrest)

theorem newObject_keeps (hw : h.WellFormed) {fields : List (String × Var)}
    (hfields : ∀ v ∈ fields.map Prod.snd, h.Knows v) :
    Keeps h (fun v ↦ [v]) (Var.newObject fields h) := by
  let object : OrderedMap String Var :=
    fields.foldl (fun m field ↦ m.insert field.1 field.2) ∅
  let h' : Heap := { h with objects := h.objects ++ [object] }
  have hnew : h'.children (.object h.objects.length) = object.values := by
    simp [h', Heap.children, Heap.readObject]
  have hvalues : ∀ v ∈ object.values, h.Knows v := by
    intro v hv
    obtain ⟨k, hk⟩ := (OrderedMap.mem_values object v).mp hv
    cases foldl_insert_values fields ∅ k v hk with
    | inl hempty => simp at hempty
    | inr hlisted => exact hfields v hlisted
  have hr : Rewrites h h' (.object h.objects.length) object.values := by
    constructor
    · intro id hid
      cases id with
      | array i => rfl
      | object i =>
          have hne : i ≠ h.objects.length := fun hi ↦ hid (hi ▸ rfl)
          simp only [h', Heap.children, Heap.readObject, List.getElem?_append]
          split
          · rfl
          · rename_i hge
            have hend : [object][i - h.objects.length]? = none :=
              List.getElem?_eq_none (by rw [List.length_singleton]; omega)
            rw [hend, List.getElem?_eq_none (Nat.le_of_not_lt hge)]
    · rw [hnew]
      exact fun v hv ↦ .inr (.inr hv)
    · rw [hnew]
      exact fun v hv ↦ hv
    · intro id hid
      cases id with
      | array i => exact hid
      | object i =>
          show i < (h.objects ++ [object]).length
          rw [List.length_append]
          exact Nat.lt_add_right 1 hid
  have hfresh : ¬h.Allocated (.object h.objects.length) := Nat.lt_irrefl _
  refine keeps_rewrite hw hr hvalues (fun v hv ↦ not_leadsTo_fresh hw hfresh (hvalues v hv)) ?_
  intro v hv
  rw [List.mem_singleton] at hv
  subst hv
  right
  intro id hid
  cases hid
  show h.objects.length < (h.objects ++ [object]).length
  rw [List.length_append, List.length_singleton]
  exact Nat.lt_succ_self _

/-! ### Access -/

theorem knows_getD {v : Option Var} (hv : ∀ w, v = some w → h.Knows w) : h.Knows (v.getD .null) := by
  cases v with
  | none => exact h.knows_null
  | some w => exact hv w rfl

theorem field_keeps (hw : h.WellFormed) (self : Var) (name : String) :
    Keeps h (fun v ↦ [v]) (self.field name h) := by
  cases self with
  | object i =>
      apply keeps_read hw
      intro v hv
      rw [List.mem_singleton] at hv
      subst hv
      exact knows_getD fun w hread ↦
        hw.known (.object i) w ((OrderedMap.mem_values _ w).mpr ⟨name, hread⟩)
  | null | bool | number | string | array =>
      exact keeps_read hw fun v hv ↦ List.mem_singleton.mp hv ▸ h.knows_null

theorem index_keeps (hw : h.WellFormed) (self : Var) (index : Nat) :
    Keeps h (fun v ↦ [v]) (self.index index h) := by
  cases self with
  | array i =>
      apply keeps_read hw
      intro v hv
      rw [List.mem_singleton] at hv
      subst hv
      exact knows_getD fun w hread ↦ hw.known (.array i) w (List.mem_of_getElem? hread)
  | null | bool | number | string | object =>
      exact keeps_read hw fun v hv ↦ List.mem_singleton.mp hv ▸ h.knows_null

theorem arraySnapshot_keeps (hw : h.WellFormed) (self : Var) :
    Keeps h (fun vs ↦ vs) (self.arraySnapshot h) := by
  cases self with
  | array i => exact keeps_read hw fun v hv ↦ hw.known (.array i) v hv
  | null | bool | number | string | object => exact .failed _

/-! ### Mutation -/

theorem mutation_keeps (hw : h.WellFormed) (m : Mutation) {self value : Var} (hself : h.Knows self)
    (hvalue : h.Knows value) : Keeps h (fun _ ↦ []) (m.run self value h) := by
  cases hid : m.target? self with
  | none =>
      -- the receiver is of another kind
      rw [Mutation.run_eq_unchecked hid]
      cases m <;> cases self <;> first | exact .failed _ | cases hid
  | some id =>
      by_cases hcloses : h.Closes id value
      · rw [Mutation.run_of_closes hw hvalue hid hcloses]
        exact .failed _
      · have hsafe : ∀ id', m.target? self = some id' → ¬h.Closes id' value := by
          intro id' hid'
          rw [hid, Option.some.injEq] at hid'
          exact hid' ▸ hcloses
        rw [Mutation.run_of_not_closes hw hvalue hsafe]
        have hstores := Mutation.stores_unchecked value hself hid
        generalize m.unchecked self value h = result at hstores
        cases hstores with
        | done h' hrewrites =>
            rw [hw.closes_iff] at hcloses
            refine keeps_rewrite hw hrewrites ?_ ?_ fun v hv ↦ absurd hv List.not_mem_nil
            · intro v hv
              rw [List.mem_singleton.mp hv]
              exact hvalue
            · intro v hv
              rw [List.mem_singleton.mp hv]
              exact hcloses
        | failed e _ => exact .failed e

theorem pop_keeps (hw : h.WellFormed) {self : Var} (hself : h.Knows self) :
    Keeps h (fun v ↦ [v]) (self.pop h) := by
  cases self with
  | array i =>
      have hi : i < h.arrays.length := hself (.array i) rfl
      apply keeps_removal hw
      · exact Heap.rewrites_writeArray hi (fun v hv ↦ .inl (List.mem_of_mem_dropLast hv))
          fun v hv ↦ absurd hv List.not_mem_nil
      · intro v hv
        rw [List.mem_singleton] at hv
        subst hv
        exact knows_getD fun w hlast ↦ hw.known (.array i) w (List.mem_of_getLast? hlast)
  | null | bool | number | string | object => exact .failed _

theorem removeIndex_keeps (hw : h.WellFormed) {self : Var} (hself : h.Knows self) (index : Nat) :
    Keeps h (fun v ↦ [v]) (self.removeIndex index h) := by
  cases self with
  | array i =>
      have hi : i < h.arrays.length := hself (.array i) rfl
      show Keeps h (fun v ↦ [v]) ((if index ≥ (h.readArray i).length then _ else _ : VarM Var) h)
      by_cases hend : index ≥ (h.readArray i).length
      · rw [if_pos hend]
        exact .failed _
      · rw [if_neg hend]
        apply keeps_removal hw
        · exact Heap.rewrites_writeArray hi (fun v hv ↦ .inl (List.mem_of_mem_eraseIdx hv))
            fun v hv ↦ absurd hv List.not_mem_nil
        · intro v hv
          rw [List.mem_singleton] at hv
          subst hv
          exact knows_getD fun w hread ↦ hw.known (.array i) w (List.mem_of_getElem? hread)
  | null | bool | number | string | object => exact .failed _

theorem removeField_keeps (hw : h.WellFormed) {self : Var} (hself : h.Knows self) (name : String) :
    Keeps h (fun v ↦ [v]) (self.removeField name h) := by
  cases self with
  | object i =>
      have hi : i < h.objects.length := hself (.object i) rfl
      apply keeps_removal hw
      · apply Heap.rewrites_writeObject hi
        · intro k v hk
          rw [OrderedMap.getElem?_erase] at hk
          split at hk
          · cases hk
          · exact .inl hk
        · exact fun v hv ↦ absurd hv List.not_mem_nil
      · intro v hv
        rw [List.mem_singleton] at hv
        subst hv
        exact knows_getD fun w hread ↦
          hw.known (.object i) w ((OrderedMap.mem_values _ w).mpr ⟨name, hread⟩)
  | null | bool | number | string | array => exact .failed _

theorem clear_keeps (hw : h.WellFormed) {self : Var} (hself : h.Knows self) :
    Keeps h (fun _ ↦ []) (self.clear h) := by
  cases self with
  | array i =>
      have hi : i < h.arrays.length := hself (.array i) rfl
      apply keeps_removal hw
      · exact Heap.rewrites_writeArray hi (fun v hv ↦ absurd hv List.not_mem_nil)
          fun v hv ↦ absurd hv List.not_mem_nil
      · exact fun v hv ↦ absurd hv List.not_mem_nil
  | object i =>
      have hi : i < h.objects.length := hself (.object i) rfl
      apply keeps_removal hw
      · apply Heap.rewrites_writeObject hi
        · intro k v hk
          simp at hk
        · exact fun v hv ↦ absurd hv List.not_mem_nil
      · exact fun v hv ↦ absurd hv List.not_mem_nil
  | null | bool | number | string => exact .failed _

end Operations

end Stainless.Runtime
