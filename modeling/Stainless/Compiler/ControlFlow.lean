import Stainless.Compiler.Exceptions

/-!
# Control flow of a body

The statements of a function or constructor body over expressions `E`, whose inside is left open, and
exception structs `T`; the checks of the front end on them; and the syntactic tests for completion.
-/

namespace Stainless.Compiler

/-! ## 1. Statements -/

/-- `isConst` and `isReference` are of the written type; it is `none` when it names no struct. -/
structure CatchBinding (T : Type) where
  name : String
  type : Option T
  isConst : Bool := true
  isReference : Bool := true

inductive ForInitializer (E : Type)
  | localDeclaration (name : String) (initializer : E)
  | expression (expression : E)

mutual

inductive Statement (T E : Type)
  | block (statements : List (Statement T E))
  /-- Without a written initializer, `initializer` is the call of the default constructor. -/
  | localDeclaration (name : String) (initializer : E)
  | returnStatement (value : Option E)
  | throwStatement (value : Option E)
  | tryStatement (body : List (Statement T E)) (catches : List (CatchClause T E))
  | ifStatement (condition : E) (thenBranch : Statement T E) (elseBranch : Option (Statement T E))
  | whileStatement (condition : E) (body : Statement T E)
  | classicFor (initializer : Option (ForInitializer E)) (condition update : Option E)
      (body : Statement T E)
  | rangeFor (bindings : List String) (iterable : E) (body : Statement T E)
  | breakStatement
  | continueStatement
  | expression (expression : E)
  /-- A lone semicolon. -/
  | empty

/-- Without a binding, `catch (...)`. -/
inductive CatchClause (T E : Type)
  | mk (binding : Option (CatchBinding T)) (body : List (Statement T E))

end

/-- What is emitted for a body besides its statements. -/
inductive BodyKind (E : Type)
  /-- `hasReceiver` for a member function. -/
  | function (returnsVoid hasReceiver : Bool)
  /-- `initialization` builds the object from the field and base initializers. -/
  | constructor (initialization : E)

/-- A function or constructor with a body. -/
structure Definition (T E : Type) where
  kind : BodyKind E
  throws : List T
  body : List (Statement T E)

/-- `return_type.is_void()`, as `validate` passes it on. -/
def BodyKind.returnsVoid {E : Type} : BodyKind E → Bool
  | .function returnsVoid _ => returnsVoid
  | .constructor _ => true

/-- What the resolver knows of an expression. -/
structure Signatures (T E : Type) where
  /-- The exceptions that the calls of the expression declare. -/
  effects : E → List T
  /-- The struct of which the expression is a value. -/
  structType : E → Option T

/-! ## 2. Structural checks -/

inductive Code
  | sem005 | sem006 | sem007 | sem008 | sem011 | sem012 | sem013
  | res074 | res075 | res076 | res077
  | hir003
deriving DecidableEq

section Checks

variable {T E : Type}

mutual

def validateStatement (returnsVoid : Bool) (loopDepth catchDepth : Nat) : Statement T E → List Code
  | .block statements => validateBlock returnsVoid loopDepth catchDepth statements
  | .returnStatement value =>
      match returnsVoid, value.isSome with
      | true, true => [.sem005]
      | false, false => [.sem006]
      | _, _ => []
  | .throwStatement none => if catchDepth = 0 then [.sem011] else []
  | .tryStatement body catches =>
      validateBlock returnsVoid loopDepth catchDepth body ++
        validateCatches returnsVoid loopDepth catchDepth catches
  | .ifStatement _ thenBranch none => validateStatement returnsVoid loopDepth catchDepth thenBranch
  | .ifStatement _ thenBranch (some elseBranch) =>
      validateStatement returnsVoid loopDepth catchDepth thenBranch ++
        validateStatement returnsVoid loopDepth catchDepth elseBranch
  | .whileStatement _ body => validateStatement returnsVoid (loopDepth + 1) catchDepth body
  | .classicFor _ _ _ body => validateStatement returnsVoid (loopDepth + 1) catchDepth body
  | .rangeFor _ _ body => validateStatement returnsVoid (loopDepth + 1) catchDepth body
  | .breakStatement => if loopDepth = 0 then [.sem007] else []
  | .continueStatement => if loopDepth = 0 then [.sem008] else []
  | .localDeclaration _ _ | .throwStatement (some _) | .expression _ | .empty => []

def validateBlock (returnsVoid : Bool) (loopDepth catchDepth : Nat) :
    List (Statement T E) → List Code
  | [] => []
  | statement :: rest =>
      validateStatement returnsVoid loopDepth catchDepth statement ++
        validateBlock returnsVoid loopDepth catchDepth rest

def validateCatches (returnsVoid : Bool) (loopDepth catchDepth : Nat) :
    List (CatchClause T E) → List Code
  | [] => []
  | .mk binding body :: rest =>
      (match binding with
        | some binding => if !binding.isConst || !binding.isReference then [.sem012] else []
        | none => if rest.isEmpty then [] else [.sem013]) ++
        validateBlock returnsVoid loopDepth (catchDepth + 1) body ++
        validateCatches returnsVoid loopDepth catchDepth rest

end

/-! ## 3. Checked effects -/

variable [DecidableEq T] (hierarchy : ExceptionHierarchy T) (signatures : Signatures T E)

/-- The part of `FunctionContext` that checked exceptions read. -/
structure FunctionContext (T : Type) where
  declaredThrows : List T
  /-- The handlers of the enclosing `try` bodies. -/
  handledThrows : List (List T) := []
  currentCatch : Option T := none

def handles (context : FunctionContext T) (thrown : T) : Bool :=
  context.handledThrows.any fun catches ↦ catches.any fun caught ↦
    hierarchy.exceptionCovers caught thrown

def declares (context : FunctionContext T) (thrown : T) : Bool :=
  context.declaredThrows.any fun allowed ↦ hierarchy.exceptionCovers allowed thrown

def validateCheckedEffect (context : FunctionContext T) (thrown : T) : List Code :=
  if !handles hierarchy context thrown && !declares hierarchy context thrown then [.res075] else []

/-- The effects of the calls in an expression. -/
def resolveExpression (context : FunctionContext T) (expression : E) : List Code :=
  (signatures.effects expression).flatMap (validateCheckedEffect hierarchy context)

def resolveOptional (context : FunctionContext T) : Option E → List Code
  | none => []
  | some expression => resolveExpression hierarchy signatures context expression

def resolveInitializer (context : FunctionContext T) : Option (ForInitializer E) → List Code
  | none => []
  | some (.localDeclaration _ initializer) =>
      resolveExpression hierarchy signatures context initializer
  | some (.expression expression) => resolveExpression hierarchy signatures context expression

def resolveThrowStatement (context : FunctionContext T) : Option E → List Code
  | some value =>
      resolveExpression hierarchy signatures context value ++
        match signatures.structType value with
        | none => [.res074]
        | some thrown =>
            if hierarchy.isExceptionStruct thrown then validateCheckedEffect hierarchy context thrown
            else [.res074]
  | none =>
      match context.currentCatch with
      | none => []
      | some thrown => validateCheckedEffect hierarchy context thrown

/-- The type that a handler catches; `none` for a type that is no exception struct. -/
def caughtType : CatchClause T E → Option T
  | .mk none _ => some hierarchy.root
  | .mk (some binding) _ => binding.type.filter hierarchy.isExceptionStruct

/-- The checks on the handlers, in source order; `earlier` are the types before them. -/
def resolveCaughtTypes : List T → List (CatchClause T E) → List Code
  | _, [] => []
  | earlier, clause :: rest =>
      match caughtType hierarchy clause with
      | none => .res076 :: resolveCaughtTypes earlier rest
      | some caught =>
          (if earlier.any fun previous ↦ hierarchy.exceptionCovers previous caught then [.res077]
            else []) ++ resolveCaughtTypes (earlier ++ [caught]) rest

mutual

def resolveStatement (context : FunctionContext T) : Statement T E → List Code
  | .block statements => resolveBlock context statements
  | .localDeclaration _ initializer => resolveExpression hierarchy signatures context initializer
  | .returnStatement value => resolveOptional hierarchy signatures context value
  | .throwStatement value => resolveThrowStatement hierarchy signatures context value
  | .tryStatement body catches =>
      let caught := catches.filterMap (caughtType hierarchy)
      resolveCaughtTypes hierarchy [] catches ++
        resolveBlock { context with handledThrows := caught :: context.handledThrows } body ++
        resolveCatches context catches
  | .ifStatement condition thenBranch none =>
      resolveExpression hierarchy signatures context condition ++ resolveStatement context thenBranch
  | .ifStatement condition thenBranch (some elseBranch) =>
      resolveExpression hierarchy signatures context condition ++
        resolveStatement context thenBranch ++ resolveStatement context elseBranch
  | .whileStatement condition body =>
      resolveExpression hierarchy signatures context condition ++ resolveStatement context body
  | .classicFor initializer condition update body =>
      resolveInitializer hierarchy signatures context initializer ++
        resolveOptional hierarchy signatures context condition ++
        resolveOptional hierarchy signatures context update ++ resolveStatement context body
  | .rangeFor _ iterable body =>
      resolveExpression hierarchy signatures context iterable ++ resolveStatement context body
  | .expression expression => resolveExpression hierarchy signatures context expression
  | .breakStatement | .continueStatement | .empty => []

def resolveBlock (context : FunctionContext T) : List (Statement T E) → List Code
  | [] => []
  | statement :: rest => resolveStatement context statement ++ resolveBlock context rest

def resolveCatches (context : FunctionContext T) : List (CatchClause T E) → List Code
  | [] => []
  | .mk binding body :: rest =>
      let caught := caughtType hierarchy (.mk binding body : CatchClause T E)
      resolveBlock { context with currentCatch := caught.or (some hierarchy.root) } body ++
        resolveCatches context rest

end

def resolveKind (context : FunctionContext T) : BodyKind E → List Code
  | .function _ _ => []
  | .constructor initialization => resolveExpression hierarchy signatures context initialization

/-- The diagnostics of the front end on a body. -/
def Definition.diagnostics (definition : Definition T E) : List Code :=
  let context : FunctionContext T := { declaredThrows := definition.throws }
  validateBlock definition.kind.returnsVoid 0 0 definition.body ++
    resolveKind hierarchy signatures context definition.kind ++
    resolveBlock hierarchy signatures context definition.body

def Definition.Accepted (definition : Definition T E) : Prop :=
  definition.diagnostics hierarchy signatures = []

end Checks

/-! ## 4. Syntactic completion -/

section Completion

variable {T E : Type}

-- both tests look at the last statement of a block only

mutual

def statementMayFallThrough : Statement T E → Bool
  | .returnStatement _ | .throwStatement _ | .breakStatement | .continueStatement => false
  | .block statements => blockMayFallThrough statements
  | .ifStatement _ _ none => true
  | .ifStatement _ thenBranch (some elseBranch) =>
      statementMayFallThrough thenBranch || statementMayFallThrough elseBranch
  | .tryStatement body catches => blockMayFallThrough body || catchesMayFallThrough catches
  | .localDeclaration _ _ | .whileStatement _ _ | .classicFor _ _ _ _ | .rangeFor _ _ _
  | .expression _ | .empty => true

def blockMayFallThrough : List (Statement T E) → Bool
  | [] => true
  | [statement] => statementMayFallThrough statement
  | _ :: statement :: rest => blockMayFallThrough (statement :: rest)

def catchesMayFallThrough : List (CatchClause T E) → Bool
  | [] => false
  | .mk _ body :: rest => blockMayFallThrough body || catchesMayFallThrough rest

end

mutual

def statementDefinitelyReturns : Statement T E → Bool
  | .returnStatement _ | .throwStatement _ => true
  | .block statements => blockDefinitelyReturns statements
  | .tryStatement body catches => blockDefinitelyReturns body && catchesDefinitelyReturn catches
  | .ifStatement _ _ none => false
  | .ifStatement _ thenBranch (some elseBranch) =>
      statementDefinitelyReturns thenBranch && statementDefinitelyReturns elseBranch
  | .localDeclaration _ _ | .whileStatement _ _ | .classicFor _ _ _ _ | .rangeFor _ _ _
  | .breakStatement | .continueStatement | .expression _ | .empty => false

def blockDefinitelyReturns : List (Statement T E) → Bool
  | [] => false
  | [statement] => statementDefinitelyReturns statement
  | _ :: statement :: rest => blockDefinitelyReturns (statement :: rest)

def catchesDefinitelyReturn : List (CatchClause T E) → Bool
  | [] => true
  | .mk _ body :: rest => blockDefinitelyReturns body && catchesDefinitelyReturn rest

end

mutual

/-- What definitely returns does not fall through. -/
theorem not_statementMayFallThrough : ∀ statement : Statement T E,
    statementDefinitelyReturns statement = true → statementMayFallThrough statement = false
  | .returnStatement _, _ | .throwStatement _, _ => rfl
  | .block statements, h => not_blockMayFallThrough statements h
  | .tryStatement body catches, h => by
      rw [statementDefinitelyReturns, Bool.and_eq_true] at h
      rw [statementMayFallThrough, not_blockMayFallThrough body h.1,
        not_catchesMayFallThrough catches h.2]
      rfl
  | .ifStatement _ thenBranch (some elseBranch), h => by
      rw [statementDefinitelyReturns, Bool.and_eq_true] at h
      rw [statementMayFallThrough, not_statementMayFallThrough thenBranch h.1,
        not_statementMayFallThrough elseBranch h.2]
      rfl

theorem not_blockMayFallThrough : ∀ statements : List (Statement T E),
    blockDefinitelyReturns statements = true → blockMayFallThrough statements = false
  | [statement], h => not_statementMayFallThrough statement h
  | _ :: statement :: rest, h => not_blockMayFallThrough (statement :: rest) h

theorem not_catchesMayFallThrough : ∀ catches : List (CatchClause T E),
    catchesDefinitelyReturn catches = true → catchesMayFallThrough catches = false
  | [], _ => rfl
  | .mk _ body :: rest, h => by
      rw [catchesDefinitelyReturn, Bool.and_eq_true] at h
      rw [catchesMayFallThrough, not_blockMayFallThrough body h.1, not_catchesMayFallThrough rest h.2]
      rfl

end

end Completion

end Stainless.Compiler
