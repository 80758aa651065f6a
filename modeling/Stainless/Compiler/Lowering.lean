import Stainless.Compiler.ControlFlow

/-!
# Lowering to HIR

The statements of the backend and the lowering of a body to them.  Labels and error names are the
indexes in their texts.  A step gives `error none` where the lowerer returns nothing and reports
nothing.
-/

namespace Stainless.Compiler

/-! ## 1. HIR -/

namespace Hir

inductive ExceptionTarget
  /-- Return `Err` from the current function. -/
  | function
  /-- Leave the block `'__stainless_try_{index}` with `Err`. -/
  | «try» (index : Nat)
  | unreachable
deriving DecidableEq

/-- A lowered expression: its throwing calls propagate to the target. -/
structure Expression (E : Type) where
  expression : E
  target : ExceptionTarget

inductive ExceptionValue (E : Type)
  | new (value : Expression E)
  /-- `__stainless_error_{index}` -/
  | existing (index : Nat)

inductive ReturnValue (E : Type)
  | expression (value : Expression E)
  /-- `__stainless_constructed` -/
  | constructed
  /-- `__stainless_self` -/
  | receiver

inductive ForInitializer (E : Type)
  | localDeclaration (name : String) (initializer : Expression E)
  | expression (expression : Expression E)

mutual

inductive Statement (T E : Type)
  | block (statements : List (Statement T E))
  | localDeclaration (name : String) (initializer : Expression E)
  /-- The bindings of the object under construction and of the receiver. -/
  | construct (initialization : Expression E)
  /-- `success` for a value that is wrapped in `Ok`. -/
  | returnStatement (success : Bool) (value : Option (ReturnValue E))
  | throwStatement (value : ExceptionValue E) (target : ExceptionTarget)
  | tryStatement (label errorName : Nat) (body : List (Statement T E)) (bodyFallsThrough : Bool)
      (catches : List (Catch T E)) (diverges : Bool) (unmatchedTarget : ExceptionTarget)
  | ifStatement (condition : Expression E) (thenBranch : List (Statement T E))
      (elseBranch : Option (Statement T E))
  | whileStatement (label : Nat) (condition : Expression E) (body : List (Statement T E))
  | classicFor (label : Nat) (initializer : Option (ForInitializer E))
      (condition update : Option (Expression E)) (body : List (Statement T E))
  | rangeFor (label : Nat) (bindings : List String) (iterable : Expression E)
      (body : List (Statement T E))
  | breakStatement (label : Nat)
  | continueStatement (label : Nat)
  | expression (expression : Expression E)

inductive Catch (T E : Type)
  | mk (binding : Option (T × String)) (body : List (Statement T E))

end

end Hir

/-! ## 2. The lowerer -/

/-- The fields of `Lowerer` that control flow reads. -/
structure Lowerer where
  tryIndex : Nat
  loopIndex : Nat
  exceptionTarget : Hir.ExceptionTarget := .function
  caughtError : Option Nat := none
  /-- The innermost loop is first. -/
  loopLabels : List Nat := []
  currentThrowing : Bool
  currentConstructor : Bool := false
  currentFluentReceiver : Bool := false

/-- Nothing is lowered: with a diagnostic, or silently. -/
abbrev Lowered := Except (Option Code)

namespace Lowerer

variable {T E : Type}

def lowerExpression (lowerer : Lowerer) (expression : E) : Hir.Expression E :=
  { expression, target := lowerer.exceptionTarget }

def lowerInitializer (lowerer : Lowerer) : ForInitializer E → Hir.ForInitializer E
  | .localDeclaration name initializer =>
      .localDeclaration name (lowerer.lowerExpression initializer)
  | .expression expression => .expression (lowerer.lowerExpression expression)

def returnValue (lowerer : Lowerer) : Option E → Option (Hir.ReturnValue E)
  | some value => some (.expression (lowerer.lowerExpression value))
  | none =>
      if lowerer.currentConstructor then some .constructed
      else if lowerer.currentFluentReceiver then some .receiver
      else none

def lowerLoopJump (lowerer : Lowerer) (jump : Nat → Hir.Statement T E) : Lowered (Hir.Statement T E × Lowerer) :=
  match lowerer.loopLabels with
  | [] => .error (some .hir003)
  | label :: _ => .ok (jump label, lowerer)

/-- `statement_as_block` after `lower_statement`: a block lowers to a block, and nothing else does. -/
def asBlock : Hir.Statement T E → List (Hir.Statement T E)
  | .block statements => statements
  | statement => [statement]

def pushLabel (lowerer : Lowerer) (label : Nat) : Lowerer :=
  { lowerer with loopLabels := label :: lowerer.loopLabels }

def popLabel (lowerer : Lowerer) : Lowerer := { lowerer with loopLabels := lowerer.loopLabels.tail }

/-- Takes the index of the next loop. -/
def nextLoop (lowerer : Lowerer) : Lowerer := { lowerer with loopIndex := lowerer.loopIndex + 1 }

/-- Where an exception goes that no handler of a `try` takes. -/
def unmatchedTarget (lowerer : Lowerer) : Hir.ExceptionTarget :=
  if !lowerer.currentThrowing && lowerer.exceptionTarget = .function then .unreachable
  else lowerer.exceptionTarget

/-- The lowerer for the body of a `try`. -/
def enterTry (lowerer : Lowerer) : Lowerer :=
  { lowerer with
    tryIndex := lowerer.tryIndex + 1
    exceptionTarget := .try lowerer.tryIndex
    caughtError := none }

mutual

def lowerStatement : Statement T E → Lowerer → Lowered (Hir.Statement T E × Lowerer)
  | .block statements, lowerer => do
      let (statements, lowerer) ← lowerBlock statements lowerer
      pure (.block statements, lowerer)
  | .localDeclaration name initializer, lowerer =>
      pure (.localDeclaration name (lowerer.lowerExpression initializer), lowerer)
  | .returnStatement value, lowerer =>
      pure (.returnStatement lowerer.currentThrowing (lowerer.returnValue value), lowerer)
  | .throwStatement (some value), lowerer =>
      pure (.throwStatement (.new (lowerer.lowerExpression value)) lowerer.exceptionTarget, lowerer)
  | .throwStatement none, lowerer =>
      match lowerer.caughtError with
      | none => throw none
      | some errorName =>
          pure (.throwStatement (.existing errorName) lowerer.exceptionTarget, lowerer)
  | .tryStatement body catches, lowerer => do
      let index := lowerer.tryIndex
      let previousTarget := lowerer.exceptionTarget
      let previousCaught := lowerer.caughtError
      let unmatchedTarget := lowerer.unmatchedTarget
      let (hirBody, lowerer) ← lowerBlock body lowerer.enterTry
      let lowerer := { lowerer with exceptionTarget := previousTarget, caughtError := previousCaught }
      let (hirCatches, lowerer) ← lowerCatches index catches lowerer
      pure (.tryStatement index index hirBody (blockMayFallThrough body) hirCatches
        (blockDefinitelyReturns body && catchesDefinitelyReturn catches) unmatchedTarget, lowerer)
  | .ifStatement condition thenBranch none, lowerer => do
      let hirCondition := lowerer.lowerExpression condition
      let (thenBranch, lowerer) ← lowerStatement thenBranch lowerer
      pure (.ifStatement hirCondition (asBlock thenBranch) none, lowerer)
  | .ifStatement condition thenBranch (some elseBranch), lowerer => do
      let hirCondition := lowerer.lowerExpression condition
      let (thenBranch, lowerer) ← lowerStatement thenBranch lowerer
      let (elseBranch, lowerer) ← lowerStatement elseBranch lowerer
      pure (.ifStatement hirCondition (asBlock thenBranch) (some elseBranch), lowerer)
  | .whileStatement condition body, lowerer => do
      let label := lowerer.loopIndex
      let lowerer := lowerer.nextLoop
      let hirCondition := lowerer.lowerExpression condition
      let (body, lowerer) ← lowerStatement body (lowerer.pushLabel label)
      pure (.whileStatement label hirCondition (asBlock body), lowerer.popLabel)
  | .classicFor initializer condition update body, lowerer => do
      let label := lowerer.loopIndex
      let lowerer := lowerer.nextLoop
      let hirInitializer := initializer.map lowerer.lowerInitializer
      let hirCondition := condition.map lowerer.lowerExpression
      let hirUpdate := update.map lowerer.lowerExpression
      let (body, lowerer) ← lowerStatement body (lowerer.pushLabel label)
      pure (.classicFor label hirInitializer hirCondition hirUpdate (asBlock body), lowerer.popLabel)
  | .rangeFor bindings iterable body, lowerer => do
      let label := lowerer.loopIndex
      let lowerer := lowerer.nextLoop
      let hirIterable := lowerer.lowerExpression iterable
      let (body, lowerer) ← lowerStatement body (lowerer.pushLabel label)
      pure (.rangeFor label bindings hirIterable (asBlock body), lowerer.popLabel)
  | .breakStatement, lowerer => lowerer.lowerLoopJump .breakStatement
  | .continueStatement, lowerer => lowerer.lowerLoopJump .continueStatement
  | .expression expression, lowerer => pure (.expression (lowerer.lowerExpression expression), lowerer)
  | .empty, _ => throw none

def lowerBlock : List (Statement T E) → Lowerer → Lowered (List (Hir.Statement T E) × Lowerer)
  | [], lowerer => pure ([], lowerer)
  | .empty :: rest, lowerer => lowerBlock rest lowerer
  | statement :: rest, lowerer => do
      let (statement, lowerer) ← lowerStatement statement lowerer
      let (rest, lowerer) ← lowerBlock rest lowerer
      pure (statement :: rest, lowerer)

/-- The handlers of the `try` with the index. -/
def lowerCatches (index : Nat) : List (CatchClause T E) → Lowerer → Lowered (List (Hir.Catch T E) × Lowerer)
  | [], lowerer => pure ([], lowerer)
  | .mk none body :: rest, lowerer => do
      let previousCaught := lowerer.caughtError
      let (body, lowerer) ← lowerBlock body { lowerer with caughtError := some index }
      let (rest, lowerer) ← lowerCatches index rest { lowerer with caughtError := previousCaught }
      pure (.mk none body :: rest, lowerer)
  | .mk (some binding) body :: rest, lowerer =>
      match binding.type with
      | none => throw none
      | some type => do
          let previousCaught := lowerer.caughtError
          let (body, lowerer) ← lowerBlock body { lowerer with caughtError := some index }
          let (rest, lowerer) ← lowerCatches index rest { lowerer with caughtError := previousCaught }
          pure (.mk (some (type, binding.name)) body :: rest, lowerer)

end

end Lowerer

/-! ## 3. Functions and constructors -/

namespace Definition

variable {T E : Type}

def isFluent (definition : Definition T E) : Bool :=
  match definition.kind with
  | .function returnsVoid hasReceiver => returnsVoid && hasReceiver
  | .constructor _ => false

def isConstructor (definition : Definition T E) : Bool :=
  match definition.kind with
  | .function _ _ => false
  | .constructor _ => true

def throwing (definition : Definition T E) : Bool := !definition.throws.isEmpty

/-- The lowerer at the start of a body; the indexes run on from the bodies before it. -/
def lowerer (definition : Definition T E) (tryIndex loopIndex : Nat) : Lowerer :=
  { tryIndex, loopIndex
    currentThrowing := definition.throwing
    currentConstructor := definition.isConstructor
    currentFluentReceiver := definition.isFluent }

/-- The statements after the body. -/
def completion (definition : Definition T E) : List (Hir.Statement T E) :=
  match definition.kind with
  | .constructor _ => [.returnStatement definition.throwing (some .constructed)]
  | .function returnsVoid _ =>
      if definition.isFluent && !blockDefinitelyReturns definition.body then
        [.returnStatement definition.throwing (some .receiver)]
      else if definition.throwing && returnsVoid && !blockDefinitelyReturns definition.body then
        [.returnStatement true none]
      else []

/-- The statements before the body. -/
def construction (definition : Definition T E) (lowerer : Lowerer) : List (Hir.Statement T E) :=
  match definition.kind with
  | .constructor initialization => [.construct (lowerer.lowerExpression initialization)]
  | .function _ _ => []

/-- `lower_function` and `lower_constructor`. -/
def lower (definition : Definition T E) (tryIndex loopIndex : Nat) :
    Lowered (List (Hir.Statement T E) × Lowerer) := do
  let lowerer := definition.lowerer tryIndex loopIndex
  let construction := definition.construction lowerer
  let (body, lowerer) ← Lowerer.lowerBlock definition.body lowerer
  pure (construction ++ body ++ definition.completion, lowerer)

end Definition

end Stainless.Compiler
