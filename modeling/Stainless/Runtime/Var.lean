import Stainless.Reasoning.Graphs
import Stainless.Runtime.OrderedMap

/-!
# JSON values

`Var` is a JSON value whose arrays and objects are shared: a clone of an aggregate is another handle
of the same contents.  The contents live in a heap; an aggregate is the index of its contents there.
The mutation lock makes every operation one step of the heap.
-/

open Reasoning

namespace Stainless.Runtime

/-! ## Values and the heap -/

/-- A JSON number is kept as its text. -/
structure Number where
  text : String
deriving DecidableEq

inductive Var
  | null
  | bool (value : Bool)
  | number (value : Number)
  | string (value : String)
  | array (index : Nat)
  | object (index : Nat)
deriving DecidableEq

/-- The identity of an aggregate, the address that `aggregate_id` reads. -/
inductive AggregateId
  | array (index : Nat)
  | object (index : Nat)
deriving DecidableEq

/-- The contents of all arrays and objects. -/
structure Heap where
  arrays : List (List Var)
  objects : List (OrderedMap String Var)

namespace Heap

def empty : Heap := ⟨[], []⟩

def readArray (h : Heap) (index : Nat) : List Var := h.arrays[index]?.getD []

def readObject (h : Heap) (index : Nat) : OrderedMap String Var := h.objects[index]?.getD ∅

def writeArray (h : Heap) (index : Nat) (values : List Var) : Heap :=
  { h with arrays := h.arrays.set index values }

def writeObject (h : Heap) (index : Nat) (fields : OrderedMap String Var) : Heap :=
  { h with objects := h.objects.set index fields }

/-- The values stored in an aggregate. -/
def children (h : Heap) : AggregateId → List Var
  | .array index => h.readArray index
  | .object index => (h.readObject index).values

def aggregates (h : Heap) : Nat := h.arrays.length + h.objects.length

end Heap

/-! ## Errors -/

inductive JsonOperation
  | read
  | parse
  | mutation
deriving DecidableEq

structure JsonError where
  operation : JsonOperation
  message : String
deriving DecidableEq

def JsonError.mutation (message : String) : JsonError := ⟨.mutation, message⟩

/-- What `reject_cycle` throws. -/
def JsonError.cycle : JsonError := .mutation "mutation would create a reference cycle"

abbrev VarM := EStateM JsonError Heap

namespace Var

def aggregateId? : Var → Option AggregateId
  | .array index => some (.array index)
  | .object index => some (.object index)
  | .null | .bool _ | .number _ | .string _ => none

/-! ## The search for a cycle -/

/-- Whether `value` contains the aggregate `target`, and the visited aggregates.  Every nested call
visits one more aggregate; `none` is a search that nests deeper than its budget. -/
def containsAggregate (h : Heap) (target : AggregateId) :
    Nat → Var → List AggregateId → Option (Bool × List AggregateId)
  | 0, _, _ => none
  | budget + 1, value, visited =>
      match value with
      | .array index =>
          let id := .array index
          if id = target then some (true, visited)
          else if id ∈ visited then some (false, visited)
          else anyVisited (containsAggregate h target budget) (h.readArray index) (id :: visited)
      | .object index =>
          let id := .object index
          if id = target then some (true, visited)
          else if id ∈ visited then some (false, visited)
          else anyVisited (containsAggregate h target budget) (h.readObject index).values
            (id :: visited)
      | .null | .bool _ | .number _ | .string _ => some (false, visited)

def rejectCycle (target : AggregateId) (value : Var) : VarM Unit := do
  let h ← get
  match containsAggregate h target (h.aggregates + 1) value [] with
  | some (true, _) => throw .cycle
  | some (false, _) | none => return

/-! ## Construction and access -/

def newArray (values : List Var) : VarM Var := do
  let h ← get
  set { h with arrays := h.arrays ++ [values] }
  return .array h.arrays.length

/-- A later duplicate key replaces an earlier one. -/
def newObject (fields : List (String × Var)) : VarM Var := do
  let h ← get
  let object := fields.foldl (fun m field ↦ m.insert field.1 field.2) ∅
  set { h with objects := h.objects ++ [object] }
  return .object h.objects.length

def field (self : Var) (name : String) : VarM Var := do
  match self with
  | .object i => return ((← get).readObject i)[name]?.getD .null
  | _ => return .null

def index (self : Var) (index : Nat) : VarM Var := do
  match self with
  | .array i => return ((← get).readArray i)[index]?.getD .null
  | _ => return .null

def arraySnapshot (self : Var) : VarM (List Var) := do
  match self with
  | .array i => return (← get).readArray i
  | _ => throw (.mutation "range iteration requires an array")

/-! ## Mutation -/

def usizeMax : Nat := 2 ^ 64 - 1

/-- `write_lock(object).insert(name, value)`. -/
def storeField (object : Nat) (name : String) (value : Var) : VarM Unit :=
  modify fun h ↦ h.writeObject object ((h.readObject object).insert name value)

/-- Extends an array with nulls when the index is beyond its end, and writes the element. -/
def storeIndex (array index : Nat) (value : Var) : VarM Unit := do
  let values := (← get).readArray array
  if index ≥ values.length then
    if index ≥ usizeMax then
      throw (.mutation "array index exceeds addressable length")
    let values := values ++ List.replicate (index + 1 - values.length) .null
    modify fun h ↦ h.writeArray array (values.set index value)
  else
    modify fun h ↦ h.writeArray array (values.set index value)

def storePush (array : Nat) (value : Var) : VarM Unit :=
  modify fun h ↦ h.writeArray array (h.readArray array ++ [value])

def storeInsert (array index : Nat) (value : Var) : VarM Unit := do
  let values := (← get).readArray array
  if index > values.length then
    throw (.mutation s!"array insert index {index} exceeds length {values.length}")
  modify fun h ↦ h.writeArray array (values.insertIdx index value)

def setField (self : Var) (name : String) (value : Var) : VarM Unit := do
  match self with
  | .object i =>
      rejectCycle (.object i) value
      storeField i name value
  | _ => throw (.mutation "member assignment requires an object")

def setIndex (self : Var) (index : Nat) (value : Var) : VarM Unit := do
  match self with
  | .array i =>
      rejectCycle (.array i) value
      storeIndex i index value
  | _ => throw (.mutation "indexed assignment requires an array")

def push (self value : Var) : VarM Unit := do
  match self with
  | .array i =>
      rejectCycle (.array i) value
      storePush i value
  | _ => throw (.mutation "push requires an array")

def pop (self : Var) : VarM Var := do
  match self with
  | .array i =>
      let values := (← get).readArray i
      modify fun h ↦ h.writeArray i values.dropLast
      return values.getLast?.getD .null
  | _ => throw (.mutation "pop requires an array")

def insert (self : Var) (index : Nat) (value : Var) : VarM Unit := do
  match self with
  | .array i =>
      rejectCycle (.array i) value
      storeInsert i index value
  | _ => throw (.mutation "insert requires an array")

def removeIndex (self : Var) (index : Nat) : VarM Var := do
  match self with
  | .array i =>
      let values := (← get).readArray i
      if index ≥ values.length then
        throw (.mutation s!"array remove index {index} exceeds length {values.length}")
      modify fun h ↦ h.writeArray i (values.eraseIdx index)
      return values[index]?.getD .null
  | _ => throw (.mutation "indexed remove requires an array")

def removeField (self : Var) (name : String) : VarM Var := do
  match self with
  | .object i =>
      let fields := (← get).readObject i
      modify fun h ↦ h.writeObject i (fields.erase name)
      return fields[name]?.getD .null
  | _ => throw (.mutation "member remove requires an object")

def clear (self : Var) : VarM Unit := do
  match self with
  | .array i => modify fun h ↦ h.writeArray i []
  | .object i => modify fun h ↦ h.writeObject i ∅
  | _ => throw (.mutation "clear requires an array or object")

/-! ## Conversion -/

end Var

/-- A document of `serde_json`: a tree. -/
inductive Value
  | null
  | bool (value : Bool)
  | number (value : Number)
  | string (value : String)
  | array (values : List Value)
  | object (fields : List (String × Value))

namespace Var

/-- Follows the handles of a value.  `none` is a value that nests deeper than the budget. -/
def toValue (h : Heap) : Nat → Var → Option Value
  | 0, _ => none
  | budget + 1, value =>
      match value with
      | .null => some .null
      | .bool value => some (.bool value)
      | .number value => some (.number value)
      | .string value => some (.string value)
      | .array i => ((h.readArray i).mapM (toValue h budget)).map .array
      | .object i =>
          ((h.readObject i).toList.mapM fun field ↦
            (toValue h budget field.2).map (field.1, ·)).map .object

/-- `to_value().to_string()`; `render` is the serializer of `serde_json`. -/
def toJson (render : Value → String) (h : Heap) (budget : Nat) (value : Var) : Option String :=
  (toValue h budget value).map render

def jsArrayElementString (toStringValue : Var → Option String) : Var → Option String
  | .null => some ""
  | value => toStringValue value

def toStringValue (h : Heap) : Nat → Var → Option String
  | 0, _ => none
  | budget + 1, value =>
      match value with
      | .null => some "null"
      | .bool value => some (if value then "true" else "false")
      | .number value => some value.text
      | .string value => some value
      | .array i =>
          ((h.readArray i).mapM (jsArrayElementString (toStringValue h budget))).map
            (String.intercalate ",")
      | .object _ => some "[object Object]"

end Var

/-! ## Programs over values -/

/-- A heap and the handles a program holds. -/
structure Program where
  heap : Heap
  held : List Var

def Program.start : Program := ⟨.empty, []⟩

def Program.value (p : Program) (slot : Nat) : Var := p.held[slot]?.getD .null

inductive Scalar
  | null
  | bool (value : Bool)
  | number (value : Number)
  | string (value : String)

def Scalar.toVar : Scalar → Var
  | .null => .null
  | .bool value => .bool value
  | .number value => .number value
  | .string value => .string value

/-- The operations of a program; a `Nat` that names a value is a slot of `held`. -/
inductive Op
  | scalar (value : Scalar)
  | array (elements : List Nat)
  | object (fields : List (String × Nat))
  | clone (self : Nat)
  | field (self : Nat) (name : String)
  | index (self index : Nat)
  | arraySnapshot (self : Nat)
  | setField (self : Nat) (name : String) (value : Nat)
  | setIndex (self index value : Nat)
  | push (self value : Nat)
  | pop (self : Nat)
  | insert (self index value : Nat)
  | removeIndex (self index : Nat)
  | removeField (self : Nat) (name : String)
  | clear (self : Nat)

/-- Runs an operation and gives the values it returns. -/
def Op.call (p : Program) : Op → VarM (List Var)
  | .scalar value => return [value.toVar]
  | .array elements => return [← Var.newArray (elements.map p.value)]
  | .object fields => return [← Var.newObject (fields.map fun f ↦ (f.1, p.value f.2))]
  | .clone self => return [p.value self]
  | .field self name => return [← (p.value self).field name]
  | .index self i => return [← (p.value self).index i]
  | .arraySnapshot self => (p.value self).arraySnapshot
  | .setField self name value => do
      (p.value self).setField name (p.value value)
      return []
  | .setIndex self i value => do
      (p.value self).setIndex i (p.value value)
      return []
  | .push self value => do
      (p.value self).push (p.value value)
      return []
  | .pop self => return [← (p.value self).pop]
  | .insert self i value => do
      (p.value self).insert i (p.value value)
      return []
  | .removeIndex self i => return [← (p.value self).removeIndex i]
  | .removeField self name => return [← (p.value self).removeField name]
  | .clear self => do
      (p.value self).clear
      return []

/-- The program holds what the operation returns; an error leaves it with what it held. -/
def Program.step (p : Program) (op : Op) : Program :=
  match op.call p p.heap with
  | .ok values heap => ⟨heap, p.held ++ values⟩
  | .error _ heap => ⟨heap, p.held⟩

end Stainless.Runtime
