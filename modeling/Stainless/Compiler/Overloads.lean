import Stainless.Compiler.Declarations
import Stainless.Reasoning.Choice

/-!
# Overload resolution

What a call of a free function, of a member function and of a constructor selects among the declared
parameter lists.
-/

open Reasoning

namespace Stainless.Compiler

namespace Overloads

/-! ## 1. Types and categories -/

inductive ValueCategory
  | mutablePlace | sharedPlace | temporary
deriving DecidableEq

inductive NullState
  | null | nonNull | unknown
deriving DecidableEq

structure ExpressionInfo where
  type : TypeRef
  category : ValueCategory
deriving DecidableEq

def temporary (type : TypeRef) : ExpressionInfo := ⟨type, .temporary⟩

def errorInfo : ExpressionInfo := temporary .error

def isReference : TypeRef → Bool
  | .reference _ _ => true
  | _ => false

def automaticPointee (type : TypeRef) : TypeRef :=
  match type.canonicalRef with
  | .pointer .unique target | .pointer .shared target => target.canonicalRef
  | .mutexGuard target | .rwLockReadGuard target | .rwLockWriteGuard target => target.canonicalRef
  | target => target

def isSharedOwner (type : TypeRef) : Bool :=
  match type.canonicalRef with
  | .pointer .shared _ | .pointer .sharedNullable _ => true
  | _ => false

def pointeeCategory (type : TypeRef) (category : ValueCategory) : ValueCategory :=
  match isSharedOwner type, type.canonicalRef with
  | true, _ | _, .rwLockReadGuard _ => .sharedPlace
  | _, _ => category

def optionalValueType (type : TypeRef) : Option TypeRef :=
  match type.canonicalRef with
  | .native path [value] => if path = "rust::Option" then some value else none
  | _ => none

def isStringType : TypeRef → Bool
  | .native path arguments | .reference _ (.native path arguments) =>
      path = "rust::String" && arguments = []
  | .reference _ (.reference _ target) => isStringType target
  | _ => false

def isJsonVar (type : TypeRef) : Bool := type = .native "rust::stainless_runtime::Var" []

def isInteger : TypeRef → Bool
  | .scalar type =>
      type ∈ [Scalar.i8, .i16, .i32, .i64, .i128, .isize, .u8, .u16, .u32, .u64, .u128, .usize]
  | _ => false

/-- The sign and the width of an integer of fixed width. -/
def fixedWidthIntegerLayout (type : TypeRef) : Option (Bool × Nat) :=
  match type.canonicalRef with
  | .scalar .i8 => some (true, 8)
  | .scalar .i16 => some (true, 16)
  | .scalar .i32 => some (true, 32)
  | .scalar .i64 => some (true, 64)
  | .scalar .i128 => some (true, 128)
  | .scalar .u8 => some (false, 8)
  | .scalar .u16 => some (false, 16)
  | .scalar .u32 => some (false, 32)
  | .scalar .u64 => some (false, 64)
  | .scalar .u128 => some (false, 128)
  | _ => none

def isNonNarrowingSameSignedInteger (source target : TypeRef) : Bool :=
  match fixedWidthIntegerLayout source, fixedWidthIntegerLayout target with
  | some (sourceSigned, sourceBits), some (targetSigned, targetBits) =>
      sourceSigned = targetSigned && sourceBits ≤ targetBits
  | _, _ => false

/-! ## 2. Binding conversions -/

/-- The declarations with their interfaces and enumerations, and how many passes a walk over them has. -/
structure Program where
  decls : Declarations
  interfaces : decls.StructId → List decls.StructId := fun _ ↦ []
  interfaceImplementations : List (decls.StructId × decls.StructId) := []
  enumRepr : decls.StructId → Option TypeRef := fun _ ↦ none
  fuel : Nat

namespace Program

variable (program : Program)

def projectUserTypeToBase (derived : TypeRef) (target : program.decls.StructId) : Option TypeRef :=
  (program.decls.projectUserTypeToBase program.fuel derived target).join

def threadAutoTrait (type : TypeRef) (sync : Bool) : Bool :=
  (program.decls.threadAutoTrait program.fuel type sync []).getD false

def classImplementsInterface («class» interface : program.decls.StructId) : Bool :=
  program.interfaceImplementations.any fun implementation ↦
    implementation.1 = «class» && implementation.2 = interface

def resolvedStructureType (id : program.decls.StructId) : TypeRef :=
  userType (program.decls.structs id) ((program.decls.structs id).typeParameters.map .parameter)

def classSupportsInterfaceObject («class» : program.decls.StructId) : Bool :=
  program.threadAutoTrait (program.resolvedStructureType «class») false &&
    program.threadAutoTrait (program.resolvedStructureType «class») true

/-- `interface_inherits_path_inner`, with the interfaces visited so far. -/
def interfaceInheritsPathInner : Nat → program.decls.StructId → List String →
    List program.decls.StructId → Bool × List program.decls.StructId
  | 0, _, _, visited => (false, visited)
  | fuel + 1, interface, expected, visited =>
      if interface ∈ visited then (false, visited)
      else
        (program.interfaces interface).foldl
          (fun (found, visited) base ↦
            if found then (found, visited)
            else if (program.decls.structs base).path = expected then (true, visited)
            else interfaceInheritsPathInner fuel base expected visited)
          (false, interface :: visited)

def interfaceInheritsPath (interface : program.decls.StructId) (expected : List String) : Bool :=
  (program.interfaceInheritsPathInner program.fuel interface expected []).1

def isDerivedReferenceBinding (expected actual : TypeRef) : Bool :=
  match expected with
  | .reference _ expectedTarget =>
      match expectedTarget.canonicalRef with
      | .interface expectedPath _ =>
          match automaticPointee actual with
          | .class actualPath _ =>
              match program.decls.structByPath actualPath, program.decls.structByPath expectedPath with
              | some «class», some interface =>
                  program.classImplementsInterface «class» interface &&
                    program.classSupportsInterfaceObject «class»
              | _, _ => false
          | .interface actualPath _ =>
              actualPath = expectedPath ||
                (program.decls.structByPath actualPath).any fun actual ↦
                  program.interfaceInheritsPath actual expectedPath
          | _ => false
      | .struct expectedPath _ =>
          match automaticPointee actual with
          | .struct actualPath _ => derives expectedTarget expectedPath actualPath
          | _ => false
      | .class expectedPath _ =>
          match automaticPointee actual with
          | .class actualPath _ => derives expectedTarget expectedPath actualPath
          | _ => false
      | _ => false
  | _ => false
where
  /-- The part for a struct and a struct, or a class and a class. -/
  derives (expectedTarget : TypeRef) (expectedPath actualPath : List String) : Bool :=
    if expectedPath = actualPath ∧ expectedTarget.canonicalRef = automaticPointee actual then true
    else
      match program.decls.structByPath expectedPath with
      | none => false
      | some expectedId =>
          (program.projectUserTypeToBase (automaticPointee actual) expectedId).any fun projected ↦
            projected.canonicalRef = expectedTarget.canonicalRef

def enumRepresentation (type : TypeRef) : Option TypeRef :=
  match type.canonicalRef with
  | .struct path _ => (program.decls.structByPath path).bind program.enumRepr
  | _ => none

def isEnumIntegerBinding (expected actual : TypeRef) : Bool :=
  (program.enumRepresentation actual).any fun representation ↦
    isNonNarrowingSameSignedInteger representation expected.canonicalRef

def isInterfaceOwnerBinding (expected actual : TypeRef) : Bool :=
  match expected.canonicalRef, actual.canonicalRef with
  | .pointer expectedKind expectedTarget, .pointer actualKind actualTarget =>
      if expectedKind ≠ actualKind ∨
          expectedKind ∉ [.unique, .uniqueNullable, .shared, .sharedNullable] then false
      else
        match expectedTarget.canonicalRef, actualTarget.canonicalRef with
        | .interface interface _, .class «class» _ =>
            match program.decls.structByPath «class», program.decls.structByPath interface with
            | some «class», some interface =>
                program.classImplementsInterface «class» interface &&
                  program.classSupportsInterfaceObject «class»
            | _, _ => false
        | _, _ => false
  | _, _ => false

def isClassOwnerBinding (expected actual : TypeRef) : Bool :=
  match expected.canonicalRef, actual.canonicalRef with
  | .pointer expectedKind expectedTarget, .pointer actualKind actualTarget =>
      if expectedKind ≠ actualKind ∨ expectedKind ∉ [.shared, .sharedNullable] then false
      else
        match expectedTarget.canonicalRef, actualTarget.canonicalRef with
        | .class expectedPath _, .class actualPath _ =>
            if expectedPath = actualPath then false
            else
              match program.decls.structByPath expectedPath with
              | none => false
              | some expectedId =>
                  (program.projectUserTypeToBase actualTarget expectedId).any fun projected ↦
                    projected.canonicalRef = expectedTarget.canonicalRef
        | _, _ => false
  | _, _ => false

end Program

def isSharedToWeakBinding (expected actual : TypeRef) : Bool :=
  match expected.canonicalRef, actual.canonicalRef with
  | .pointer .weak expectedTarget, .pointer .shared actualTarget =>
      expectedTarget.canonicalRef = actualTarget.canonicalRef
  | _, _ => false

def isOptionalValueBinding (expected actual : TypeRef) : Bool :=
  (optionalValueType expected).any fun value ↦ value.canonicalRef = actual.canonicalRef

def isJsonStringBinding (expected actual : TypeRef) : Bool :=
  let expectsString := isStringType expected ||
    !isReference expected && (optionalValueType expected).any isStringType
  let mutableReference := match expected with | .reference true _ => true | _ => false
  !mutableReference && expectsString && isJsonVar actual.canonicalRef

/-! ## 3. Arguments -/

/-- An expression as far as its integer literals are looked at: a literal has its suffix and its
magnitude, where that can be read. -/
inductive Expression (Form : Type)
  | integer (suffix : Option Scalar) (magnitude : Option Nat)
  | parenthesized (inner : Expression Form)
  | other (form : Form)
deriving DecidableEq

/-- What the resolver finds out about the other forms of expressions, and their effect on the context. -/
structure Forms (Form Context : Type) where
  resolve : Form → Option TypeRef → Context → ExpressionInfo × Context
  nullState : Form → Context → NullState

variable {Form Context : Type}

def isUnsuffixedIntegerLiteral : Expression Form → Bool
  | .integer suffix _ => suffix.isNone
  | .parenthesized inner => isUnsuffixedIntegerLiteral inner
  | .other _ => false

def defaultPositiveIntegerType (magnitude : Option Nat) : TypeRef :=
  match magnitude with
  | none => .scalar .u64
  | some value => if 2 ^ 32 - 1 < value then .scalar .u64 else .scalar .u32

/-- `literal_type` of an integer. -/
def literalType (suffix : Option Scalar) (magnitude : Option Nat) (expected : Option TypeRef) :
    TypeRef :=
  match suffix with
  | some type => .scalar type
  | none => (expected.filter isInteger).getD (defaultPositiveIntegerType magnitude)

variable (forms : Forms Form Context)

def resolveExpression : Expression Form → Option TypeRef → Context → ExpressionInfo × Context
  | .integer suffix magnitude, expected, context =>
      let literalExpected := (expected.bind optionalValueType).or expected
      (temporary (literalType suffix magnitude literalExpected), context)
  | .parenthesized inner, expected, context => resolveExpression inner expected context
  | .other form, expected, context => forms.resolve form expected context

/-- The arguments one after the other, each in the context that the one before it leaves. -/
def resolveArguments : List (Expression Form) → Option (List TypeRef) → Context →
    List ExpressionInfo × Context
  | [], _, context => ([], context)
  | argument :: arguments, expected, context =>
      let (info, next) := resolveExpression forms argument (expected.bind List.head?) context
      let (infos, final) := resolveArguments arguments (expected.map List.tail) next
      (info :: infos, final)

def expressionNullState : Expression Form → Context → NullState
  | .integer _ _, _ => .unknown
  | .parenthesized inner, context => expressionNullState inner context
  | .other form, context => forms.nullState form context

def adjustedBindingActual (expected : TypeRef) (actual : ExpressionInfo) (expression : Expression Form)
    (context : Context) : ExpressionInfo :=
  if isReference expected = false ∨ expressionNullState forms expression context ≠ .nonNull then actual
  else
    match actual.type.canonicalRef with
    | .pointer .uniqueNullable target =>
        ⟨.pointer .unique target, pointeeCategory actual.type actual.category⟩
    | .pointer .sharedNullable target =>
        ⟨.pointer .shared target, pointeeCategory actual.type actual.category⟩
    | _ => actual

def adaptRustResult (expected : TypeRef) (actual : ExpressionInfo) : ExpressionInfo :=
  if isReference expected then actual
  else
    match actual.type.canonicalRef with
    | .native path [valueType, _] =>
        if path ≠ "rust::Result" ∨ expected.canonicalRef ≠ valueType.canonicalRef then actual
        else if actual.category ≠ .temporary then errorInfo
        else temporary expected.canonicalRef
    | _ => actual

/-! ## 4. The three routines -/

/-- What becomes of a call: a candidate is selected for arguments of certain types, a value is
initialized from one of a certain type, or an error is reported with the candidates that it shows. -/
inductive Outcome
  | selected (parameters : List TypeRef) (actual : List ExpressionInfo)
  | initialized (source : TypeRef)
  | rejected (code : String) (shown : List (List TypeRef)) (actual : List ExpressionInfo)
deriving DecidableEq

/-- The argument types for which the candidates of one name are looked through. -/
def canonicalTypes (parameters : List TypeRef) : List TypeRef := parameters.map TypeRef.canonicalRef

def actualTypes (actual : List ExpressionInfo) : List TypeRef :=
  actual.map fun argument ↦ argument.type.canonicalRef

variable (program : Program)

/-- The conversions that every routine allows at one position; `single` allows those of a call with only
one candidate. -/
def converts (single : Bool) (expected actual : TypeRef) : Bool :=
  program.isDerivedReferenceBinding expected actual || program.isInterfaceOwnerBinding expected actual ||
    program.isClassOwnerBinding expected actual || isSharedToWeakBinding expected actual ||
      single && (program.isEnumIntegerBinding expected actual || isOptionalValueBinding expected actual ||
        isJsonStringBinding expected actual)

/-- The arguments have the canonical types of the parameters. -/
def exactly (actual : List ExpressionInfo) (parameterTypes : List TypeRef) : Bool :=
  canonicalTypes parameterTypes = actualTypes actual

/-- Every argument converts to its parameter. -/
def converting (single : Bool) (actual : List ExpressionInfo) (arguments : List (Expression Form))
    (context : Context) (parameterTypes : List TypeRef) : Bool :=
  ((parameterTypes.zip actual).zip arguments).all fun ((parameter, argument), syntaxNode) ↦
    let adjusted := adjustedBindingActual forms parameter argument syntaxNode context
    converts program single parameter adjusted.type

/-- The candidates whose parameters are integers wherever an argument is a literal without suffix, or
all where there is none. -/
def integerLiteralCandidates (parameterTypes : List TypeRef → List TypeRef)
    (candidates : List (List TypeRef)) (arguments : List (Expression Form)) : List (List TypeRef) :=
  let fitting := candidates.filter fun parameters ↦
    ((parameterTypes parameters).zip arguments).all fun (parameter, argument) ↦
      !isUnsuffixedIntegerLiteral argument || isInteger parameter.canonicalRef
  if fitting.isEmpty then candidates else fitting

/-- The parameter types of the only candidate. -/
def contextualParameters (parameterTypes : List TypeRef → List TypeRef)
    (candidates : List (List TypeRef)) : Option (List TypeRef) :=
  (sole candidates).map fun parameters ↦ canonicalTypes (parameterTypes parameters)

def resolveStainlessCall (candidates : List (List TypeRef)) (arguments : List (Expression Form))
    (context : Context) : Outcome :=
  if candidates.isEmpty then .rejected "RES017" [] []
  else
    let arityCandidates := candidates.filter fun parameters ↦ parameters.length = arguments.length
    if arityCandidates.isEmpty then .rejected "RES018" [] []
    else
      let arityCandidates := integerLiteralCandidates id arityCandidates arguments
      let (actual, context) :=
        resolveArguments forms arguments (contextualParameters id arityCandidates) context
      -- a position may have the exact type or convert, here only
      let compatible := shortlist (exactly actual)
        (fun parameters ↦
          ((parameters.zip actual).zip arguments).all fun ((parameter, argument), syntaxNode) ↦
            let adjusted := adjustedBindingActual forms parameter argument syntaxNode context
            decide (parameter.canonicalRef = argument.type.canonicalRef) ||
              converts program (arityCandidates.length = 1) parameter adjusted.type)
        arityCandidates
      match compatible with
      | [parameters] => .selected parameters actual
      | [] => .rejected "RES019" arityCandidates actual
      | _ => .rejected "RES019" compatible actual

/-- The candidates are those of the type that declares the member; `substitutions` are its arguments. -/
def resolveStructMethod (substitutions : String → Option TypeRef) (candidates : List (List TypeRef))
    (arguments : List (Expression Form)) (context : Context) : Outcome :=
  let parameterTypes := TypeRef.substituteAll substitutions
  let candidates := candidates.filter fun parameters ↦ parameters.length = arguments.length
  if candidates.isEmpty then .rejected "RES049" [] []
  else
    let (actual, context) :=
      resolveArguments forms arguments (contextualParameters parameterTypes candidates) context
    let compatible := shortlist (fun parameters ↦ exactly actual (parameterTypes parameters))
      (fun parameters ↦ converting forms program (candidates.length = 1) actual arguments context
        (parameterTypes parameters))
      candidates
    match compatible with
    | [parameters] => .selected parameters actual
    | _ => .rejected "RES019" [] actual

/-- `resolve_direct_initialization`. -/
def resolveDirectInitialization (target : TypeRef) (argument : Expression Form) (context : Context) :
    Outcome :=
  let expected := target.canonicalRef
  let (resolved, _) := resolveExpression forms argument (some expected) context
  let actual := adaptRustResult target resolved
  if actual.type.canonicalRef = expected then .initialized resolved.type.canonicalRef
  else .rejected "RES028" [] [actual]

/-- Of a struct or a class; enumerations have a routine of their own, and interfaces no constructor. -/
def resolveUserConstructor (structureType : TypeRef) (isClass : Bool)
    (substitutions : String → Option TypeRef) (candidates : List (List TypeRef))
    (arguments : List (Expression Form)) (context : Context) : Outcome :=
  let parameterTypes := TypeRef.substituteAll substitutions
  let arityCandidates := candidates.filter fun parameters ↦ parameters.length = arguments.length
  if arityCandidates.isEmpty then
    match arguments with
    | [argument] => resolveDirectInitialization forms structureType argument context
    | _ => .rejected "RES059" [] []
  else
    let arityCandidates := integerLiteralCandidates parameterTypes arityCandidates arguments
    let (actual, context) :=
      resolveArguments forms arguments (contextualParameters parameterTypes arityCandidates) context
    let compatible := shortlist (fun parameters ↦ exactly actual (parameterTypes parameters))
      (fun parameters ↦ converting forms program (arityCandidates.length = 1) actual arguments context
        (parameterTypes parameters))
      arityCandidates
    match compatible with
    | [parameters] => .selected parameters actual
    | [] =>
        match actual with
        | [argument] =>
            if argument.type.canonicalRef = structureType then
              if isClass then .rejected "RES119" [] actual
              else .initialized argument.type.canonicalRef
            else .rejected "RES060" arityCandidates actual
        | _ => .rejected "RES060" arityCandidates actual
    | _ => .rejected "RES060" compatible actual

end Overloads

end Stainless.Compiler
