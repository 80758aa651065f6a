import Stainless.Compiler.TypeRef
import Stainless.Reasoning.GuardedSearch

/-!
# Walks over the declarations of a program

What the resolver looks up along the bases of a type, and what it asks of all parts of a type.  A loop
or recursion of the resolver has a bound on its passes here, and gives `none` where the bound is met.
-/

open Reasoning

namespace Stainless.Compiler

/-! ## 1. Declarations -/

inductive UserTypeKind
  | «struct» | «class» | interface
deriving DecidableEq

structure FieldSymbol where
  name : String
  isPublic : Bool := true
  type : TypeRef
deriving DecidableEq

/-- A base, one of `n` declared types. -/
structure UserTypeBase (n : Nat) where
  «structure» : Fin n
  arguments : List TypeRef := []

structure StructSymbol (n : Nat) where
  path : List String
  typeParameters : List String := []
  kind : UserTypeKind := .struct
  /-- `enum_repr.is_some()`. -/
  isEnum : Bool := false
  base : Option (UserTypeBase n) := none
  fields : List FieldSymbol := []

instance two_neZero : @NeZero Nat Zero.ofOfNat0 2 := Nat.instNeZeroSucc

/-- The declarations that the passes before the bodies collect. -/
structure Declarations where
  count : Nat
  structs : Fin count → StructSymbol count
  structByPath : List String → Option (Fin count)
  functionSets : List String → Option (List Nat) := fun _ ↦ none
  /-- A declared type is found under its path. -/
  structByPath_path : ∀ id, structByPath (structs id).path = some id

def userType {n : Nat} (symbol : StructSymbol n) (arguments : List TypeRef) : TypeRef :=
  match symbol.kind with
  | .struct => .struct symbol.path arguments
  | .class => .class symbol.path arguments
  | .interface => .interface symbol.path arguments

def userTypeSubstitutions {n : Nat} (symbol : StructSymbol n) (type : TypeRef) :
    String → Option TypeRef :=
  TypeRef.substitutions symbol.typeParameters (type.userArguments.getD [])

def baseFieldName {n : Nat} (symbol : StructSymbol n) : String :=
  "__stainless_base_" ++ symbol.path.getLast?.getD "missing"

namespace Declarations

variable (decls : Declarations)

abbrev StructId := Fin decls.count

def base (id : decls.StructId) : Option decls.StructId := (decls.structs id).base.map (·.structure)

/-! ## 2. Walks along the bases -/

/-- The walk of `validate_struct_cycles` from one type; `true` reports a cycle. -/
def validateStructCycle : Nat → List decls.StructId → decls.StructId → Option Bool
  | 0, _, _ => none
  | fuel + 1, seen, id =>
      if id ∈ seen then some true
      else
        match decls.base id with
        | none => some false
        | some base => validateStructCycle fuel (id :: seen) base

def exceptionCovers : Nat → decls.StructId → decls.StructId → Option Bool
  | 0, _, _ => none
  | fuel + 1, base, id =>
      if id = base then some true
      else
        match (decls.structs id).base with
        | none => some false
        | some next => exceptionCovers fuel base next.structure

def findBaseBySuffix : Nat → decls.StructId → List String → Option (Option decls.StructId)
  | 0, _, _ => none
  | fuel + 1, id, suffix =>
      if suffix.isSuffixOf (decls.structs id).path then some (some id)
      else
        match (decls.structs id).base with
        | none => some none
        | some base => findBaseBySuffix fuel base.structure suffix

/-- The loop of `base_projection_path`. -/
def baseProjectionPath : Nat → decls.StructId → decls.StructId → List String →
    Option (Option (List String))
  | 0, _, _, _ => none
  | fuel + 1, current, base, path =>
      if current = base then some (some path)
      else
        match (decls.structs current).base with
        | none => some none
        | some next =>
            baseProjectionPath fuel next.structure base
              (path ++ [baseFieldName (decls.structs next.structure)])

/-- The type of a base at the arguments of the derived type. -/
def baseType (id : decls.StructId) (type : TypeRef) (base : UserTypeBase decls.count) : TypeRef :=
  userType (decls.structs base.structure)
    (base.arguments.map (TypeRef.substitute (userTypeSubstitutions (decls.structs id) type)))

/-- The loop of `project_user_type_to_base`. -/
def projectLoop : Nat → decls.StructId → TypeRef → decls.StructId → Option (Option TypeRef)
  | 0, _, _, _ => none
  | fuel + 1, current, currentType, target =>
      if current = target then some (some currentType)
      else
        match (decls.structs current).base with
        | none => some none
        | some base =>
            projectLoop fuel base.structure (decls.baseType current currentType base) target

def projectUserTypeToBase (fuel : Nat) (derived : TypeRef) (target : decls.StructId) :
    Option (Option TypeRef) :=
  match derived.canonicalRef.userTypePathSegments.bind decls.structByPath with
  | none => some none
  | some current => decls.projectLoop fuel current derived.canonicalRef target

/-- The candidates of a member that is declared for `id` itself. -/
def directMembers (id : decls.StructId) (name : String) : List Nat :=
  (decls.functionSets ((decls.structs id).path ++ [name])).getD []

def lookupClassMemberSet : Nat → decls.StructId → TypeRef → String →
    Option (Option (decls.StructId × TypeRef × List Nat))
  | 0, _, _, _ => none
  | fuel + 1, current, currentType, name =>
      let candidates := decls.directMembers current name
      if !candidates.isEmpty then some (some (current, currentType, candidates))
      else
        match (decls.structs current).base with
        | none => some none
        | some base =>
            lookupClassMemberSet fuel base.structure (decls.baseType current currentType base) name

/-! ## 3. Fields -/

structure StructFieldLookup where
  type : TypeRef
  accessPath : List String
  owner : decls.StructId
  isPublic : Bool

/-- The field that is declared for `id` itself. -/
def directField (id : decls.StructId) (name : String) : Option FieldSymbol :=
  (decls.structs id).fields.find? fun field ↦ field.name = name

/-- `substitutions` of the loops of `lookup_struct_field`. -/
def fieldSubstitutions (id : decls.StructId) (arguments : List TypeRef) : String → Option TypeRef :=
  TypeRef.substitutions (decls.structs id).typeParameters arguments

def fieldLookup (id : decls.StructId) (arguments : List TypeRef) (accessPath : List String)
    (field : FieldSymbol) : decls.StructFieldLookup :=
  { type := TypeRef.substitute (decls.fieldSubstitutions id arguments) field.type
    accessPath := accessPath ++ [field.name]
    owner := id
    isPublic := field.isPublic }

/-- The loop for a plain name: the fields of that name along all bases. -/
def fieldMatches : Nat → decls.StructId → List TypeRef → String → List String →
    List decls.StructFieldLookup → Option (List decls.StructFieldLookup)
  | 0, _, _, _, _, _ => none
  | fuel + 1, id, arguments, name, accessPath, found =>
      let found :=
        match decls.directField id name with
        | some field => found ++ [decls.fieldLookup id arguments accessPath field]
        | none => found
      match (decls.structs id).base with
      | none => some found
      | some base =>
          fieldMatches fuel base.structure
            (base.arguments.map (TypeRef.substitute (decls.fieldSubstitutions id arguments))) name
            (accessPath ++ [baseFieldName (decls.structs base.structure)]) found

/-- The loop for a qualified name: the first field of that name. -/
def fieldFrom : Nat → decls.StructId → List TypeRef → String → List String →
    Option (Option decls.StructFieldLookup)
  | 0, _, _, _, _ => none
  | fuel + 1, id, arguments, name, accessPath =>
      match decls.directField id name with
      | some field => some (some (decls.fieldLookup id arguments accessPath field))
      | none =>
          match (decls.structs id).base with
          | none => some none
          | some base =>
              fieldFrom fuel base.structure
                (base.arguments.map (TypeRef.substitute (decls.fieldSubstitutions id arguments))) name
                (accessPath ++ [baseFieldName (decls.structs base.structure)])

/-- `requested` is the qualification with the name of the field at its end. -/
def lookupStructField (fuel : Nat) («structure» : decls.StructId) (arguments : List TypeRef)
    (requested : List String) : Option (Option decls.StructFieldLookup) :=
  match requested.getLast? with
  | none => some none
  | some name => do
      let qualification := requested.dropLast
      if qualification.isEmpty then
        let found ← decls.fieldMatches fuel «structure» arguments name [] []
        return if found.length = 1 then found.head? else none
      else
        let some target ← decls.findBaseBySuffix fuel «structure» qualification | return none
        let some accessPath ← decls.baseProjectionPath fuel «structure» target [] | return none
        let some targetType ← decls.projectUserTypeToBase fuel
          (userType (decls.structs «structure») arguments) target | return none
        decls.fieldFrom fuel target targetType.userTypeArguments name accessPath

/-! ## 4. What holds of all parts of a type -/

def cloneableNative (path : String) : Bool :=
  path ∈ ["rust::String", "rust::Vec", "rust::List", "rust::Map", "rust::MultiMap", "rust::Queue",
    "rust::Set", "rust::Option", "rust::Result", "rust::stainless_runtime::Var"]

/-- The base of `id` at the arguments of `id`. -/
def baseArguments (id : decls.StructId) (arguments : List TypeRef)
    (base : UserTypeBase decls.count) : List TypeRef :=
  base.arguments.map (TypeRef.substitute (decls.fieldSubstitutions id arguments))

/-- The type of a field of `id` at the arguments of `id`. -/
def fieldType (id : decls.StructId) (arguments : List TypeRef) (field : FieldSymbol) : TypeRef :=
  TypeRef.substitute (decls.fieldSubstitutions id arguments) field.type

mutual

def structureIsCloneable : Nat → decls.StructId → List TypeRef →
    List (decls.StructId × List TypeRef) → Option Bool
  | 0, _, _, _ => none
  | fuel + 1, id, arguments, visiting =>
      if (id, arguments) ∈ visiting then some true
      else if (decls.structs id).kind ≠ .struct then some false
      else if (decls.structs id).isEnum then some true
      else do
        let visiting := (id, arguments) :: visiting
        let baseIsCloneable ←
          match (decls.structs id).base with
          | none => pure true
          | some base =>
              structureIsCloneable fuel base.structure (decls.baseArguments id arguments base) visiting
        if baseIsCloneable then
          (decls.structs id).fields.allM fun field ↦
            typeIsCloneable fuel (decls.fieldType id arguments field) visiting
        else return false

def typeIsCloneable : Nat → TypeRef → List (decls.StructId × List TypeRef) → Option Bool
  | 0, _, _ => none
  | fuel + 1, type, visiting =>
      match type.canonicalRef with
      | .scalar _ => some true
      | .reference _ _ => some true
      | .tuple elements => elements.allM fun element ↦ typeIsCloneable fuel element visiting
      | .array element _ => typeIsCloneable fuel element visiting
      | .native path arguments =>
          if cloneableNative path then
            arguments.allM fun argument ↦ typeIsCloneable fuel argument visiting
          else some false
      | .struct path arguments =>
          match decls.structByPath path with
          | none => some false
          | some id => structureIsCloneable fuel id arguments visiting
      | .pointer kind _ => some (kind ∈ [.shared, .sharedNullable, .weak])
      | .function kind _ _ => some (kind = .shared)
      | _ => some false

end

def threadNative (path : String) : Bool :=
  path ∈ ["rust::String", "rust::Vec", "rust::List", "rust::Map", "rust::MultiMap", "rust::Queue",
    "rust::Set", "rust::Option", "rust::Result", "rust::std::fs::File", "rust::std::fs::OpenOptions",
    "rust::stainless_runtime::Var"]

/-- `thread_auto_trait`: whether a value may be sent to another thread, or with `sync` be shared. -/
def threadAutoTrait : Nat → TypeRef → Bool → List (Bool × TypeRef) → Option Bool
  | 0, _, _, _ => none
  | fuel + 1, type, sync, visiting =>
      if (sync, type.canonicalRef) ∈ visiting then some true
      else
        let visiting := (sync, type.canonicalRef) :: visiting
        match type.canonicalRef with
        | .void | .scalar _ | .condition | .interface _ _ => some true
        | .tuple elements => elements.allM fun element ↦ threadAutoTrait fuel element sync visiting
        | .array element _ => threadAutoTrait fuel element sync visiting
        | .struct path arguments | .class path arguments =>
            match decls.structByPath path with
            | none => some false
            | some id => do
                let baseHolds ←
                  match (decls.structs id).base with
                  | none => pure true
                  | some base =>
                      threadAutoTrait fuel
                        (TypeRef.substitute (decls.fieldSubstitutions id arguments)
                          (userType (decls.structs base.structure) base.arguments)) sync visiting
                if baseHolds then
                  (decls.structs id).fields.allM fun field ↦
                    threadAutoTrait fuel (decls.fieldType id arguments field) sync visiting
                else return false
        | .native path arguments =>
            if threadNative path then
              arguments.allM fun argument ↦ threadAutoTrait fuel argument sync visiting
            else some false
        | .pointer kind target =>
            match kind with
            | .unique | .uniqueNullable => threadAutoTrait fuel target sync visiting
            | _ => do
                if ← threadAutoTrait fuel target false visiting then
                  threadAutoTrait fuel target true visiting
                else return false
        | .mutex target => threadAutoTrait fuel target false visiting
        | .rwLock target => do
            if ← threadAutoTrait fuel target false visiting then
              if sync then threadAutoTrait fuel target true visiting else return true
            else return false
        | .threadHandle target => threadAutoTrait fuel target sync visiting
        | _ => some false

end Declarations

end Stainless.Compiler
