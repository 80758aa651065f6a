/-!
# Types of the compiler

The resolved types of Stainless, and the substitution of generic arguments.
-/

namespace Stainless.Compiler

/-! ## 1. Types -/

inductive PointerKind
  | unique | uniqueNullable | shared | sharedNullable | weak | atomic | atomicNullable
deriving DecidableEq

inductive StoredFunctionKind
  | shared | mutable
deriving DecidableEq

inductive CallbackKind
  | fn | fnMut | fnOnce | functionPointer
deriving DecidableEq

inductive CallbackEscape
  | call | static | thread | scoped
deriving DecidableEq

/-- The types of numbers, characters and truth values. -/
inductive Scalar
  | bool | char
  | i8 | i16 | i32 | i64 | i128 | isize
  | u8 | u16 | u32 | u64 | u128 | usize
  | f32 | f64
deriving DecidableEq

inductive TypeRef
  | error
  | void
  | scalar (type : Scalar)
  | parameter (name : String)
  | constUsize (value : Nat)
  | constParameter (name : String)
  | array (element length : TypeRef)
  | tuple (elements : List TypeRef)
  | native (path : String) (arguments : List TypeRef)
  | callback (isAsync : Bool) (kind : CallbackKind) (escape : CallbackEscape)
      (parameters : List TypeRef) (returnType : TypeRef)
  | function (kind : StoredFunctionKind) (parameters : List TypeRef) (returnType : TypeRef)
  | pointer (kind : PointerKind) (target : TypeRef)
  | mutex (target : TypeRef)
  | mutexGuard (target : TypeRef)
  | rwLock (target : TypeRef)
  | rwLockReadGuard (target : TypeRef)
  | rwLockWriteGuard (target : TypeRef)
  | condition
  | threadHandle (target : TypeRef)
  | threadScope
  | scopedThreadHandle (target : TypeRef)
  | «struct» (path : List String) (arguments : List TypeRef)
  | «class» (path : List String) (arguments : List TypeRef)
  | interface (path : List String) (arguments : List TypeRef)
  | reference (mutable : Bool) (target : TypeRef)

namespace TypeRef

mutual

/-- Whether two types are the same, constructor by constructor. -/
def same : TypeRef → TypeRef → Bool
  | error, other => match other with | error => true | _ => false
  | void, other => match other with | void => true | _ => false
  | scalar type, other => match other with | scalar type' => type = type' | _ => false
  | parameter name, other => match other with | parameter name' => name = name' | _ => false
  | constUsize value, other => match other with | constUsize value' => value = value' | _ => false
  | constParameter name, other =>
      match other with | constParameter name' => name = name' | _ => false
  | array element length, other =>
      match other with
      | array element' length' => same element element' && same length length'
      | _ => false
  | tuple elements, other => match other with | tuple elements' => sameAll elements elements' | _ => false
  | native path arguments, other =>
      match other with
      | native path' arguments' => path = path' && sameAll arguments arguments'
      | _ => false
  | callback isAsync kind escape parameters returnType, other =>
      match other with
      | callback isAsync' kind' escape' parameters' returnType' =>
          (isAsync, kind, escape) = (isAsync', kind', escape') && sameAll parameters parameters' &&
            same returnType returnType'
      | _ => false
  | function kind parameters returnType, other =>
      match other with
      | function kind' parameters' returnType' =>
          kind = kind' && sameAll parameters parameters' && same returnType returnType'
      | _ => false
  | pointer kind target, other =>
      match other with | pointer kind' target' => kind = kind' && same target target' | _ => false
  | mutex target, other => match other with | mutex target' => same target target' | _ => false
  | mutexGuard target, other =>
      match other with | mutexGuard target' => same target target' | _ => false
  | rwLock target, other => match other with | rwLock target' => same target target' | _ => false
  | rwLockReadGuard target, other =>
      match other with | rwLockReadGuard target' => same target target' | _ => false
  | rwLockWriteGuard target, other =>
      match other with | rwLockWriteGuard target' => same target target' | _ => false
  | condition, other => match other with | condition => true | _ => false
  | threadHandle target, other =>
      match other with | threadHandle target' => same target target' | _ => false
  | threadScope, other => match other with | threadScope => true | _ => false
  | scopedThreadHandle target, other =>
      match other with | scopedThreadHandle target' => same target target' | _ => false
  | «struct» path arguments, other =>
      match other with
      | «struct» path' arguments' => path = path' && sameAll arguments arguments'
      | _ => false
  | «class» path arguments, other =>
      match other with
      | «class» path' arguments' => path = path' && sameAll arguments arguments'
      | _ => false
  | interface path arguments, other =>
      match other with
      | interface path' arguments' => path = path' && sameAll arguments arguments'
      | _ => false
  | reference mutable target, other =>
      match other with | reference mutable' target' => mutable = mutable' && same target target' | _ => false

def sameAll : List TypeRef → List TypeRef → Bool
  | [], others => match others with | [] => true | _ => false
  | type :: types, others =>
      match others with
      | other :: others => same type other && sameAll types others
      | _ => false

end

mutual

theorem same_iff (type other : TypeRef) : same type other = true ↔ type = other := by
  cases type <;> unfold same <;> split
  -- first the same constructor, then all others
  all_goals
    first
    | simp [same_iff, sameAll_iff, and_assoc]; done
    | refine ⟨nofun, ?_⟩
      rintro rfl
      grind

theorem sameAll_iff (types others : List TypeRef) : sameAll types others = true ↔ types = others := by
  cases types with
  | nil => cases others <;> simp [sameAll]
  | cons type types => cases others <;> simp [sameAll, same_iff, sameAll_iff]

end

instance : DecidableEq TypeRef := fun type other ↦ decidable_of_iff _ (same_iff type other)

/-! ## 2. Parts of a type -/

/-- `canonical_ref`: the type behind an outer reference. -/
def canonicalRef : TypeRef → TypeRef
  | reference _ target => target
  | type => type

def userArguments : TypeRef → Option (List TypeRef)
  | «struct» _ arguments | «class» _ arguments | interface _ arguments => some arguments
  | _ => none

def userTypePathSegments (type : TypeRef) : Option (List String) :=
  match type.canonicalRef with
  | «struct» path _ | «class» path _ | interface path _ => some path
  | _ => none

def userTypeArguments (type : TypeRef) : List TypeRef :=
  match type.canonicalRef with
  | «struct» _ arguments | «class» _ arguments | interface _ arguments => arguments
  | _ => []

/-! ## 3. Substitution -/

/-- The parameters with their arguments; a later parameter replaces an earlier one of its name. -/
def substitutions (parameters : List String) (arguments : List TypeRef) (name : String) :
    Option TypeRef :=
  (parameters.zip arguments).reverse.lookup name

mutual

def substitute (substitutions : String → Option TypeRef) : TypeRef → TypeRef
  | parameter name => (substitutions name).getD error
  | constParameter name => (substitutions name).getD error
  | array element length =>
      array (substitute substitutions element) (substitute substitutions length)
  | native path arguments => native path (substituteAll substitutions arguments)
  | tuple elements => tuple (substituteAll substitutions elements)
  | callback isAsync kind escape parameters returnType =>
      callback isAsync kind escape (substituteAll substitutions parameters)
        (substitute substitutions returnType)
  | function kind parameters returnType =>
      function kind (substituteAll substitutions parameters) (substitute substitutions returnType)
  | pointer kind target => pointer kind (substitute substitutions target)
  | mutex target => mutex (substitute substitutions target)
  | mutexGuard target => mutexGuard (substitute substitutions target)
  | rwLock target => rwLock (substitute substitutions target)
  | rwLockReadGuard target => rwLockReadGuard (substitute substitutions target)
  | rwLockWriteGuard target => rwLockWriteGuard (substitute substitutions target)
  | threadHandle target => threadHandle (substitute substitutions target)
  | scopedThreadHandle target => scopedThreadHandle (substitute substitutions target)
  | «struct» path arguments => «struct» path (substituteAll substitutions arguments)
  | «class» path arguments => «class» path (substituteAll substitutions arguments)
  | interface path arguments => interface path (substituteAll substitutions arguments)
  | reference mutable target => reference mutable (substitute substitutions target)
  | error => error
  | void => void
  | scalar type => scalar type
  | constUsize value => constUsize value
  | condition => condition
  | threadScope => threadScope

def substituteAll (substitutions : String → Option TypeRef) : List TypeRef → List TypeRef
  | [] => []
  | type :: types => substitute substitutions type :: substituteAll substitutions types

end

end TypeRef

end Stainless.Compiler
