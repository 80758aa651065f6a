import Stainless.Compiler.Declarations

/-!
# Questions of all parts of a type

Whether a type can be cloned, sent or shared is asked of its base, its fields and its arguments.  Each
recursion is a search guarded by its path, and ends exactly where no chain of ever new instances goes
on forever.
-/

open Reasoning

namespace Stainless.Compiler

namespace Declarations

variable {decls : Declarations}

/-! ## 1. Cloning -/

section Cloneable

variable (decls)

/-- What `structure_is_cloneable` is asked of (left) and what `type_is_cloneable` is (right). -/
abbrev CloneNode := (decls.StructId × List TypeRef) ⊕ TypeRef

/-- The parts of a type that have to be cloneable. -/
def cloneParts : TypeRef → List decls.CloneNode
  | .tuple elements => elements.map .inr
  | .array element _ => [.inr element]
  | .native _ arguments => arguments.map .inr
  | .struct path arguments => (decls.structByPath path).toList.map fun id ↦ .inl (id, arguments)
  | _ => []

/-- What a type has to be itself. -/
def cloneHolds : TypeRef → Bool
  | .scalar _ | .reference _ _ | .tuple _ | .array _ _ => true
  | .native path _ => cloneableNative path
  | .struct path _ => (decls.structByPath path).isSome
  | .pointer kind _ => kind ∈ [.shared, .sharedNullable, .weak]
  | .function kind _ _ => kind = .shared
  | _ => false

/-- The instances and types that `structure_is_cloneable` goes through. -/
def cloneSearch : PathSearch decls.CloneNode where
  holds
    | .inl (id, _) => (decls.structs id).kind = .struct
    | .inr type => decls.cloneHolds type.canonicalRef
  guarded := Sum.isLeft
  children
    | .inl (id, arguments) =>
        if (decls.structs id).isEnum then []
        else
          ((decls.structs id).base.toList.map fun base ↦
              .inl (base.structure, decls.baseArguments id arguments base)) ++
            (decls.structs id).fields.map fun field ↦ .inr (decls.fieldType id arguments field)
    | .inr type => decls.cloneParts type.canonicalRef

end Cloneable

theorem allM_map {α β : Type} (f : β → Option Bool) (g : α → β) (l : List α) :
    (l.map g).allM f = l.allM fun a ↦ f (g a) := by
  induction l with
  | nil => rfl
  | cons a l ih =>
      rw [List.map_cons, List.allM, List.allM]
      cases f (g a) with
      | none => rfl
      | some b =>
          cases b with
          | false => rfl
          | true => exact ih

theorem allM_singleton {α : Type} (f : α → Option Bool) (a : α) : [a].allM f = f a := by
  rw [List.allM]
  cases f a with
  | none => rfl
  | some b =>
      cases b with
      | false => rfl
      | true => rfl

/-- One pass for an instance of a declared type. -/
theorem structureIsCloneable_step {fuel : Nat}
    (hstructure : ∀ id arguments visiting, decls.structureIsCloneable fuel id arguments visiting =
      decls.cloneSearch.search fuel (.inl (id, arguments)) (visiting.map .inl))
    (htype : ∀ type visiting, decls.typeIsCloneable fuel type visiting =
      decls.cloneSearch.search fuel (.inr type) (visiting.map .inl))
    (id : decls.StructId) (arguments : List TypeRef)
    (visiting : List (decls.StructId × List TypeRef)) :
    decls.structureIsCloneable (fuel + 1) id arguments visiting =
      decls.cloneSearch.search (fuel + 1) (.inl (id, arguments)) (visiting.map .inl) := by
  have hguard : (decls.cloneSearch.guarded (.inl (id, arguments)) = true ∧
      (.inl (id, arguments) : decls.CloneNode) ∈ visiting.map Sum.inl) ↔ (id, arguments) ∈ visiting := by
    simp [cloneSearch]
  rw [structureIsCloneable]
  -- a type that is visited already counts as cloneable, on both sides
  by_cases hmem : (id, arguments) ∈ visiting
  · rw [if_pos hmem, PathSearch.search_guarded fuel (hguard.mpr hmem)]
  · rw [if_neg hmem]
    by_cases hkind : (decls.structs id).kind = .struct
    · have hholds : decls.cloneSearch.holds (.inl (id, arguments)) = true := decide_eq_true hkind
      rw [if_neg (not_not_intro hkind), PathSearch.search_children fuel (mt hguard.mp hmem) hholds]
      show _ = List.allM _ (if (decls.structs id).isEnum then _ else _)
      by_cases henum : (decls.structs id).isEnum = true
      · rw [if_pos henum, if_pos henum]
        rfl
      · rw [if_neg henum, if_neg henum]
        have hfields : ((decls.structs id).fields.map fun field ↦
            (.inr (decls.fieldType id arguments field) : decls.CloneNode)).allM
              (fun node ↦ decls.cloneSearch.search fuel node
                (.inl (id, arguments) :: visiting.map .inl)) =
            (decls.structs id).fields.allM fun field ↦
              decls.typeIsCloneable fuel (decls.fieldType id arguments field)
                ((id, arguments) :: visiting) := by
          rw [allM_map]
          simp only [htype, List.map_cons]
        show _ = List.allM (fun node ↦ decls.cloneSearch.search fuel node
          ((.inl (id, arguments) : decls.CloneNode) :: visiting.map .inl)) _
        -- the base comes before the fields
        cases hbase : (decls.structs id).base with
        | none =>
            show List.allM _ _ = List.allM _ ([] ++ _)
            rw [List.nil_append, hfields]
        | some base =>
            show (decls.structureIsCloneable fuel base.structure _ _ >>= _) = List.allM _
              ((.inl (base.structure, decls.baseArguments id arguments base) : decls.CloneNode) :: _)
            rw [hstructure, List.map_cons, List.allM]
            cases decls.cloneSearch.search fuel
                (.inl (base.structure, decls.baseArguments id arguments base))
                ((.inl (id, arguments) : decls.CloneNode) :: visiting.map .inl) with
            | none => rfl
            | some b =>
                cases b with
                | false => rfl
                | true => exact hfields.symm
    · have hholds : decls.cloneSearch.holds (.inl (id, arguments)) = false := decide_eq_false hkind
      rw [if_pos hkind, PathSearch.search_refused fuel (mt hguard.mp hmem) hholds]

/-- One pass for a type. -/
theorem typeIsCloneable_step {fuel : Nat}
    (hstructure : ∀ id arguments visiting, decls.structureIsCloneable fuel id arguments visiting =
      decls.cloneSearch.search fuel (.inl (id, arguments)) (visiting.map .inl))
    (htype : ∀ type visiting, decls.typeIsCloneable fuel type visiting =
      decls.cloneSearch.search fuel (.inr type) (visiting.map .inl))
    (type : TypeRef) (visiting : List (decls.StructId × List TypeRef)) :
    decls.typeIsCloneable (fuel + 1) type visiting =
      decls.cloneSearch.search (fuel + 1) (.inr type) (visiting.map .inl) := by
  have hfresh : ¬(decls.cloneSearch.guarded (.inr type) = true ∧
      (.inr type : decls.CloneNode) ∈ visiting.map Sum.inl) := fun h ↦ Bool.false_ne_true h.1
  have hparts : ∀ types : List TypeRef,
      (types.map (Sum.inr : TypeRef → decls.CloneNode)).allM
        (fun node ↦ decls.cloneSearch.search fuel node (visiting.map .inl)) =
      types.allM fun type ↦ decls.typeIsCloneable fuel type visiting := by
    intro types
    rw [allM_map]
    simp only [htype]
  have hholds : decls.cloneSearch.holds (.inr type) = decls.cloneHolds type.canonicalRef := rfl
  have hchildren : decls.cloneSearch.children (.inr type) = decls.cloneParts type.canonicalRef := rfl
  rw [typeIsCloneable, PathSearch.search, if_neg hfresh, hholds, hchildren]
  show _ = if _ then List.allM (fun node ↦
    decls.cloneSearch.search fuel node (visiting.map .inl)) _ else _
  -- a type asks for its parts or for its definition, or is decided at once
  cases type.canonicalRef with
  | tuple elements => exact (hparts elements).symm
  | array element length =>
      exact (htype element visiting).trans (allM_singleton
        (fun node ↦ decls.cloneSearch.search fuel node (visiting.map .inl)) (.inr element)).symm
  | native path arguments =>
      show (if cloneableNative path = true then _ else _) = if cloneableNative path = true then _ else _
      rw [← hparts arguments]
      rfl
  | «struct» path arguments =>
      rw [show decls.cloneHolds (.struct path arguments) = (decls.structByPath path).isSome from rfl,
        show decls.cloneParts (.struct path arguments) =
          (decls.structByPath path).toList.map fun id ↦ .inl (id, arguments) from rfl]
      dsimp only
      cases decls.structByPath path with
      | none => rfl
      | some id =>
          exact (hstructure id arguments visiting).trans (allM_singleton
            (fun node ↦ decls.cloneSearch.search fuel node (visiting.map .inl))
            (.inl (id, arguments))).symm
  | pointer kind target =>
      show some (decide _) = if decide _ = true then some true else some false
      cases decide (kind ∈ [.shared, .sharedNullable, .weak]) with
      | false => rfl
      | true => rfl
  | function kind parameters returnType =>
      show some (decide _) = if decide _ = true then some true else some false
      cases decide (kind = StoredFunctionKind.shared) with
      | false => rfl
      | true => rfl
  | _ => rfl

/-- Both recursions together are one search guarded by its path. -/
theorem isCloneable_eq (fuel : Nat) :
    (∀ id arguments visiting, decls.structureIsCloneable fuel id arguments visiting =
      decls.cloneSearch.search fuel (.inl (id, arguments)) (visiting.map .inl)) ∧
    ∀ type visiting, decls.typeIsCloneable fuel type visiting =
      decls.cloneSearch.search fuel (.inr type) (visiting.map .inl) := by
  induction fuel with
  | zero => exact ⟨fun _ _ _ ↦ rfl, fun _ _ ↦ rfl⟩
  | succ fuel ih =>
      exact ⟨structureIsCloneable_step ih.1 ih.2, typeIsCloneable_step ih.1 ih.2⟩

/-! ## 2. Threads -/

section Threads

variable (decls)

/-- What `thread_auto_trait` is asked of: a type, and whether it is to be shared. -/
abbrev ThreadNode := Bool × TypeRef

/-- What a type has to be itself. -/
def threadHolds : TypeRef → Bool
  | .void | .scalar _ | .condition | .interface _ _ | .tuple _ | .array _ _ => true
  | .struct path _ | .class path _ => (decls.structByPath path).isSome
  | .native path _ => threadNative path
  | .pointer _ _ | .mutex _ | .rwLock _ | .threadHandle _ => true
  | _ => false

/-- The base and the fields of an instance. -/
def memberTypes (id : decls.StructId) (arguments : List TypeRef) : List TypeRef :=
  ((decls.structs id).base.toList.map fun base ↦
      TypeRef.substitute (decls.fieldSubstitutions id arguments)
        (userType (decls.structs base.structure) base.arguments)) ++
    (decls.structs id).fields.map (decls.fieldType id arguments)

def instanceParts (sync : Bool) (path : List String) (arguments : List TypeRef) :
    List (Bool × TypeRef) :=
  match decls.structByPath path with
  | none => []
  | some id => (decls.memberTypes id arguments).map (sync, ·)

/-- The parts that a type is asked for, each with the question. -/
def threadParts (sync : Bool) : TypeRef → List (Bool × TypeRef)
  | .tuple elements => elements.map (sync, ·)
  | .array element _ => [(sync, element)]
  | .struct path arguments | .class path arguments => decls.instanceParts sync path arguments
  | .native _ arguments => arguments.map (sync, ·)
  | .pointer kind target =>
      match kind with
      | .unique | .uniqueNullable => [(sync, target)]
      | _ => [(false, target), (true, target)]
  | .mutex target => [(false, target)]
  | .rwLock target => if sync then [(false, target), (true, target)] else [(false, target)]
  | .threadHandle target => [(sync, target)]
  | _ => []

/-- The types that `thread_auto_trait` goes through. -/
def threadSearch : PathSearch ThreadNode where
  holds node := decls.threadHolds node.2
  guarded _ := true
  children node := (decls.threadParts node.1 node.2).map fun part ↦ (part.1, part.2.canonicalRef)

end Threads

/-- Two questions, the second only if the first holds. -/
theorem allM_pair {α : Type} (f : α → Option Bool) (a b : α) :
    [a, b].allM f = f a >>= fun first ↦ if first then f b else pure false := by
  rw [List.allM]
  cases f a with
  | none => rfl
  | some first =>
      cases first with
      | false => rfl
      | true => exact allM_singleton f b

/-- The members of an instance in order. -/
theorem members_allM (f : TypeRef → Option Bool) (id : decls.StructId) (arguments : List TypeRef) :
    (decls.memberTypes id arguments).allM f = do
      let baseHolds ←
        match (decls.structs id).base with
        | none => pure true
        | some base =>
            f (TypeRef.substitute (decls.fieldSubstitutions id arguments)
              (userType (decls.structs base.structure) base.arguments))
      if baseHolds then
        (decls.structs id).fields.allM fun field ↦ f (decls.fieldType id arguments field)
      else return false := by
  rw [memberTypes]
  cases (decls.structs id).base with
  | none => exact allM_map f _ _
  | some base =>
      show List.allM f (TypeRef.substitute _ _ :: List.map _ _) = _
      rw [List.allM, allM_map]
      show (f _ >>= _) = f _ >>= _
      congr 1
      funext holds
      cases holds with
      | false => rfl
      | true => rfl

theorem instance_allM (f : ThreadNode → Option Bool) (sync : Bool) (path : List String)
    (arguments : List TypeRef) :
    (if (decls.structByPath path).isSome = true then
      (decls.instanceParts sync path arguments).allM f else some false) =
    match decls.structByPath path with
    | none => some false
    | some id => do
        let baseHolds ←
          match (decls.structs id).base with
          | none => pure true
          | some base =>
              f (sync, TypeRef.substitute (decls.fieldSubstitutions id arguments)
                (userType (decls.structs base.structure) base.arguments))
        if baseHolds then
          (decls.structs id).fields.allM fun field ↦ f (sync, decls.fieldType id arguments field)
        else return false := by
  rw [instanceParts]
  cases decls.structByPath path with
  | none => rfl
  | some id =>
      show List.allM _ (List.map _ _) = _
      rw [allM_map]
      exact members_allM (fun type ↦ f (sync, type)) id arguments

theorem threadAutoTrait_eq (fuel : Nat) (type : TypeRef) (sync : Bool)
    (visiting : List (Bool × TypeRef)) :
    decls.threadAutoTrait fuel type sync visiting =
      decls.threadSearch.search fuel (sync, type.canonicalRef) visiting := by
  induction fuel generalizing type sync visiting with
  | zero => rfl
  | succ fuel ih =>
      have hguard : (decls.threadSearch.guarded (sync, type.canonicalRef) = true ∧
          (sync, type.canonicalRef) ∈ visiting) ↔ (sync, type.canonicalRef) ∈ visiting :=
        and_iff_right rfl
      rw [threadAutoTrait]
      by_cases hmem : (sync, type.canonicalRef) ∈ visiting
      · rw [if_pos hmem, PathSearch.search_guarded fuel (hguard.mpr hmem)]
      · rw [if_neg hmem, PathSearch.search, if_neg (mt hguard.mp hmem)]
        generalize hpath : (sync, type.canonicalRef) :: visiting = path
        have hextend : decls.threadSearch.extend (sync, type.canonicalRef) visiting = path := hpath
        -- the parts in order
        have hparts : ∀ parts : List (Bool × TypeRef),
            (parts.map fun part ↦ (part.1, part.2.canonicalRef)).allM
              (fun node ↦ decls.threadSearch.search fuel node path) =
            parts.allM fun part ↦ decls.threadAutoTrait fuel part.2 part.1 path := by
          intro parts
          rw [allM_map]
          simp only [ih]
        show _ = if decls.threadHolds type.canonicalRef = true then
          ((decls.threadParts sync type.canonicalRef).map fun part ↦
            (part.1, part.2.canonicalRef)).allM _ else _
        rw [hextend, hparts]
        cases type.canonicalRef with
        | tuple elements =>
            exact (allM_map (fun part ↦ decls.threadAutoTrait fuel part.2 part.1 path)
              (sync, ·) elements).symm
        | array element length =>
            exact (allM_singleton (fun part : ThreadNode ↦
              decls.threadAutoTrait fuel part.2 part.1 path) (sync, element)).symm
        | «struct» name arguments =>
            rw [show decls.threadHolds (.struct name arguments) = (decls.structByPath name).isSome
                from rfl,
              show decls.threadParts sync (.struct name arguments) =
                decls.instanceParts sync name arguments from rfl]
            exact (instance_allM (fun part ↦ decls.threadAutoTrait fuel part.2 part.1 path) sync name
              arguments).symm
        | «class» name arguments =>
            rw [show decls.threadHolds (.class name arguments) = (decls.structByPath name).isSome
                from rfl,
              show decls.threadParts sync (.class name arguments) =
                decls.instanceParts sync name arguments from rfl]
            exact (instance_allM (fun part ↦ decls.threadAutoTrait fuel part.2 part.1 path) sync name
              arguments).symm
        | native name arguments =>
            show (if threadNative name = true then _ else _) = if threadNative name = true then _ else _
            rw [← allM_map (fun part ↦ decls.threadAutoTrait fuel part.2 part.1 path) (sync, ·) arguments]
            rfl
        | pointer kind target =>
            have hone := allM_singleton (fun part : ThreadNode ↦
              decls.threadAutoTrait fuel part.2 part.1 path) (sync, target)
            have hboth := allM_pair (fun part : ThreadNode ↦
              decls.threadAutoTrait fuel part.2 part.1 path) (false, target) (true, target)
            cases kind with
            | unique => exact hone.symm
            | uniqueNullable => exact hone.symm
            | _ => exact hboth.symm
        | mutex target =>
            exact (allM_singleton (fun part : ThreadNode ↦
              decls.threadAutoTrait fuel part.2 part.1 path) (false, target)).symm
        | rwLock target =>
            have hone := allM_singleton (fun part : ThreadNode ↦
              decls.threadAutoTrait fuel part.2 part.1 path) (false, target)
            have hboth := allM_pair (fun part : ThreadNode ↦
              decls.threadAutoTrait fuel part.2 part.1 path) (false, target) (true, target)
            cases sync with
            | true => exact hboth.symm
            | false =>
                refine Eq.trans ?_ hone.symm
                show (decls.threadAutoTrait fuel target false path >>= _) = _
                cases decls.threadAutoTrait fuel target false path with
                | none => rfl
                | some holds =>
                    cases holds with
                    | false => rfl
                    | true => rfl
        | threadHandle target =>
            exact (allM_singleton (fun part : ThreadNode ↦
              decls.threadAutoTrait fuel part.2 part.1 path) (sync, target)).symm
        | _ => rfl

end Declarations

end Stainless.Compiler
