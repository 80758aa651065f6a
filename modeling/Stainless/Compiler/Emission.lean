import Stainless.Compiler.Lowering
import Stainless.Compiler.SourceRuns

/-!
# Emitted Rust

The Rust statements that the code generator writes for HIR, their meaning, and the type check on
labelled blocks.  The meaning takes the same machine as the source does.
-/

open Reasoning

namespace Stainless.Compiler

open Hir (ExceptionTarget ReturnValue)

/-! ## 1. Rust statements -/

namespace Rust

inductive Error (E : Type)
  /-- `Box::new(#value) as crate::__StainlessExceptionBox` -/
  | boxed (value : Hir.Expression E)
  /-- `__stainless_error_{index}` -/
  | named (index : Nat)

inductive Statement (T E : Type)
  | block (statements : List (Statement T E))
  /-- `let #name = #initializer;` -/
  | localDeclaration (name : String) (initializer : Hir.Expression E)
  /-- `let mut __stainless_constructed = ..; let __stainless_self = &mut __stainless_constructed;` -/
  | construct (initialization : Hir.Expression E)
  /-- `return #value;`, or `return Ok(#value);` -/
  | returnStatement (success : Bool) (value : Option (ReturnValue E))
  /-- `return Err(#error);` -/
  | returnErr (error : Error E)
  /-- `break #label Ok(());` -/
  | breakOk (label : Nat)
  /-- `break #label Err(#error);` -/
  | breakErr (label : Nat) (error : Error E)
  /-- `unreachable!(..);` -/
  | unreachable
  /-- `let result = #label: { #body };`, and then `match result { Ok(()) => unreachable!(..), Err(name) =>
  { #handlers } }` where `exhaustive`, `if let Err(name) = result { #handlers }` otherwise. -/
  | tryBlock (label : Nat) (body : List (Statement T E)) (exhaustive : Bool) (name : Nat)
      (handlers : List (Statement T E))
  /-- `if let Some(#binding) = __stainless_project(&*#error, #type) { #caught } else { #otherwise }` -/
  | ifProject (type : T) (binding : String) (error : Nat) (caught otherwise : List (Statement T E))
  | ifStatement (condition : Hir.Expression E) (thenBranch : List (Statement T E))
      (elseBranch : Option (Statement T E))
  /-- `#label: while #condition { #body }` -/
  | whileLoop (label : Nat) (condition : Hir.Expression E) (body : List (Statement T E))
  /-- `#label: loop { if first { first = false; } else { #update; } if !(#condition) { break #label; }
  #body }`, with `let mut first = true;` before it; without an update there is no flag. -/
  | loop (label : Nat) (update condition : Option (Hir.Expression E)) (body : List (Statement T E))
  /-- `#label: for #bindings in #iterable { #body }` -/
  | forLoop (label : Nat) (bindings : List String) (iterable : Hir.Expression E)
      (body : List (Statement T E))
  | breakLoop (label : Nat)
  | continueLoop (label : Nat)
  /-- `#expression;` -/
  | expression (expression : Hir.Expression E)

end Rust

/-! ## 2. Code generation -/

namespace Codegen

variable {T E : Type}

def exceptionPropagation : ExceptionTarget → Rust.Error E → Rust.Statement T E
  | .function, error => .returnErr error
  | .try label, error => .breakErr label error
  | .unreachable, _ => .unreachable

def throwStatement : Hir.ExceptionValue E → ExceptionTarget → Rust.Statement T E
  | .new value, target => exceptionPropagation target (.boxed value)
  | .existing name, target => exceptionPropagation target (.named name)

def forInitializer : Hir.ForInitializer E → Rust.Statement T E
  | .localDeclaration name initializer => .localDeclaration name initializer
  | .expression expression => .expression expression

/-- Only another `if` and a block stand behind `else` without braces of their own. -/
def elseBranch : Hir.Statement T E → Rust.Statement T E → Rust.Statement T E
  | .ifStatement _ _ _, emitted | .block _, emitted => emitted
  | _, emitted => .block [emitted]

mutual

def statement : Hir.Statement T E → Rust.Statement T E
  | .block statements => .block (block statements)
  | .localDeclaration name initializer => .localDeclaration name initializer
  | .construct initialization => .construct initialization
  | .returnStatement success value => .returnStatement success value
  | .throwStatement value target => throwStatement value target
  | .tryStatement label errorName body bodyFallsThrough catches diverges unmatchedTarget =>
      .tryBlock label (.block (block body) :: if bodyFallsThrough then [.breakOk label] else [])
        diverges errorName (handlers errorName unmatchedTarget catches)
  | .ifStatement condition thenBranch none => .ifStatement condition (block thenBranch) none
  | .ifStatement condition thenBranch (some other) =>
      .ifStatement condition (block thenBranch) (some (elseBranch other (statement other)))
  | .whileStatement label condition body => .whileLoop label condition (block body)
  | .classicFor label initializer condition update body =>
      .block ((initializer.map forInitializer).toList ++ [.loop label update condition (block body)])
  | .rangeFor label bindings iterable body => .forLoop label bindings iterable (block body)
  | .breakStatement label => .breakLoop label
  | .continueStatement label => .continueLoop label
  | .expression expression => .expression expression

def block : List (Hir.Statement T E) → List (Rust.Statement T E)
  | [] => []
  | first :: rest => statement first :: block rest

/-- The loop of `try_statement` over the handlers, from the last to the first. -/
def handlers (errorName : Nat) (unmatchedTarget : ExceptionTarget) :
    List (Hir.Catch T E) → List (Rust.Statement T E)
  | [] => [exceptionPropagation unmatchedTarget (.named errorName)]
  | .mk none body :: _ => [.block (block body)]
  | .mk (some (type, binding)) body :: rest =>
      [.ifProject type binding errorName [.block (block body)]
        (handlers errorName unmatchedTarget rest)]

end

@[simp] theorem block_append (first second : List (Hir.Statement T E)) :
    block (first ++ second) = block first ++ block second := by
  induction first with
  | nil => rfl
  | cons head rest ih =>
      rw [List.cons_append, block, block, ih]
      rfl

end Codegen

/-! ## 3. Types of blocks -/

namespace Rust

variable {T E : Type}

mutual

/-- The statement has type `!` at the end of a block; for what is written at the end of a labelled block
without `break #label Ok(());`. -/
def Statement.never : Statement T E → Bool
  | .returnStatement _ _ | .returnErr _ | .breakOk _ | .breakErr _ _ | .unreachable | .breakLoop _
  | .continueLoop _ => true
  | .block statements => blockNever statements
  | .tryBlock _ _ exhaustive _ handlers => exhaustive && blockNever handlers
  | .ifProject _ _ _ caught otherwise => blockNever caught && blockNever otherwise
  | .ifStatement _ _ none => false
  | .ifStatement _ thenBranch (some elseBranch) => blockNever thenBranch && elseBranch.never
  | .localDeclaration _ _ | .construct _ | .whileLoop _ _ _ | .loop _ _ _ _ | .forLoop _ _ _ _
  | .expression _ => false

def blockNever : List (Statement T E) → Bool
  | [] => false
  | [statement] => statement.never
  | _ :: statement :: rest => blockNever (statement :: rest)

end

mutual

/-- The end of every labelled block has the type of the block or `!`. -/
def Statement.typed : Statement T E → Bool
  | .tryBlock _ body _ _ handlers => blockNever body && blockTyped body && blockTyped handlers
  | .block statements => blockTyped statements
  | .ifProject _ _ _ caught otherwise => blockTyped caught && blockTyped otherwise
  | .ifStatement _ thenBranch none => blockTyped thenBranch
  | .ifStatement _ thenBranch (some elseBranch) => blockTyped thenBranch && elseBranch.typed
  | .whileLoop _ _ body | .loop _ _ _ body | .forLoop _ _ _ body => blockTyped body
  | .returnStatement _ _ | .returnErr _ | .breakOk _ | .breakErr _ _ | .unreachable | .breakLoop _
  | .continueLoop _ | .localDeclaration _ _ | .construct _ | .expression _ => true

def blockTyped : List (Statement T E) → Bool
  | [] => true
  | statement :: rest => statement.typed && blockTyped rest

end

@[simp] theorem blockTyped_append (first second : List (Statement T E)) :
    blockTyped (first ++ second) = (blockTyped first && blockTyped second) := by
  induction first with
  | nil => rfl
  | cons head rest ih =>
      show (head.typed && blockTyped (rest ++ second)) = _
      rw [ih, ← Bool.and_assoc]
      rfl

/-! ## 4. Meaning -/

variable {V F σ X : Type}

inductive Value (V : Type)
  | unit
  | value (v : V)
  | constructed
  | receiver

/-- What a `return` hands to the caller. -/
inductive Returned (V X : Type)
  | plain (value : Value V)
  | ok (value : Value V)
  | err (exception : X)

inductive Flow (V X : Type)
  | normal
  | broke (label : Nat)
  | continued (label : Nat)
  /-- `break #label Ok(())` and `break #label Err(..)`. -/
  | left (label : Nat) (error : Option X)
  | returned (value : Returned V X)
  | panicked
  /-- No Rust program: a name without a binding, a block without its value. -/
  | stuck
  | exhausted

/-- Where the propagation of an exception leads. -/
def Flow.propagate (exception : X) : ExceptionTarget → Flow V X
  | .function => .returned (.err exception)
  | .try label => .left label (some exception)
  | .unreachable => .panicked

def Returned.of (success : Bool) (value : Value V) : Returned V X :=
  if success then .ok value else .plain value

/-- What follows the evaluation of an expression, where it gives a value. -/
def Flow.after (target : ExceptionTarget) (result : Except X V × σ) (next : V → σ → Flow V X × σ) :
    Flow V X × σ :=
  match result with
  | (.ok v, t) => next v t
  | (.error exception, t) => (.propagate exception target, t)

/-- The end of the body of the loop with the label. -/
def Flow.endsPass {α : Type} (label : Nat) (state : σ → α) : Flow V X × σ → Pass α (Flow V X × σ)
  | (.normal, t) => .again (state t)
  | (.continued other, t) => if other = label then .again (state t) else .done (.continued other, t)
  | (.broke other, t) => if other = label then .done (.normal, t) else .done (.broke other, t)
  | (flow, t) => .done (flow, t)

def Statement.localNames : Statement T E → Nat
  | .localDeclaration _ _ => 1
  | _ => 0

end Rust

namespace Machine

variable {T E V F σ : Type} [DecidableEq T]
variable {hierarchy : ExceptionHierarchy T} {signatures : Signatures T E}
variable (m : Machine hierarchy signatures V F σ)

/-- The results of Rust statements on this machine. -/
abbrev RustResult (_ : Machine hierarchy signatures V F σ) : Type :=
  Rust.Flow V (ExceptionObject hierarchy F) × σ

def rustAfter (expression : Hir.Expression E) (s : σ) (next : V → σ → m.RustResult) : m.RustResult :=
  Rust.Flow.after expression.target (m.evaluate expression.expression s) next

def rustLeaving (names : Nat) (result : m.RustResult) : m.RustResult :=
  (result.1, m.leave names result.2)

def rustReturn (success : Bool) (s : σ) : Option (ReturnValue E) → m.RustResult
  | none => (.returned (.of success .unit), s)
  | some .constructed => (.returned (.of success .constructed), s)
  | some .receiver => (.returned (.of success .receiver), s)
  | some (.expression value) => m.rustAfter value s fun v t ↦ (.returned (.of success (.value v)), t)

/-- Evaluates an error and goes on with it. -/
def rustError (errors : List (Nat × ExceptionObject hierarchy F)) (error : Rust.Error E) (s : σ)
    (next : ExceptionObject hierarchy F → Rust.Flow V (ExceptionObject hierarchy F)) : m.RustResult :=
  match error with
  | .boxed value => m.rustAfter value s fun v t ↦ (next (m.newException value.expression v), t)
  | .named name =>
      match errors.lookup name with
      | some exception => (next exception, s)
      | none => (.stuck, s)

/-- One pass of a loop from its condition on. -/
def rustChecked {α : Type} (label : Nat) (state : σ → α) (condition : Option (Hir.Expression E))
    (body : σ → m.RustResult) (s : σ) : Pass α m.RustResult :=
  match condition with
  | none => Rust.Flow.endsPass label state (body s)
  | some condition =>
      match m.evaluate condition.expression s with
      | (.error exception, t) => .done (.propagate exception condition.target, t)
      | (.ok v, t) =>
          if m.truth v then Rust.Flow.endsPass label state (body t) else .done (.normal, t)

/-- One pass of a `loop`; the flag is `first`. -/
def rustLoopPass (label : Nat) (update condition : Option (Hir.Expression E))
    (body : σ → m.RustResult) : Bool × σ → Pass (Bool × σ) m.RustResult
  | (true, s) => m.rustChecked label (Prod.mk false) condition body s
  | (false, s) =>
      match update with
      | none => m.rustChecked label (Prod.mk false) condition body s
      | some update =>
          match m.evaluate update.expression s with
          | (.error exception, t) => .done (.propagate exception update.target, t)
          | (.ok _, t) => m.rustChecked label (Prod.mk false) condition body t

def rustRangePass (label : Nat) (bindings : List String) (body : σ → m.RustResult) :
    V × σ → Pass (V × σ) m.RustResult
  | (range, s) =>
      match m.advance bindings range s with
      | none => .done (.normal, s)
      | some (rest, t) =>
          Rust.Flow.endsPass label (Prod.mk rest) (m.rustLeaving bindings.length (body t))

mutual

/-- `errors` are the error names in scope. -/
def run (fuel : Nat) (errors : List (Nat × ExceptionObject hierarchy F)) :
    Rust.Statement T E → σ → m.RustResult
  | .block statements, s => runBlock fuel errors statements 0 s
  | .localDeclaration name initializer, s =>
      m.rustAfter initializer s fun v t ↦ (.normal, m.declare name v t)
  | .construct initialization, s => m.rustAfter initialization s fun v t ↦ (.normal, m.construct v t)
  | .returnStatement success value, s => m.rustReturn success s value
  | .returnErr error, s => m.rustError errors error s fun exception ↦ .returned (.err exception)
  | .breakOk label, s => (.left label none, s)
  | .breakErr label error, s => m.rustError errors error s fun exception ↦ .left label (some exception)
  | .unreachable, s => (.panicked, s)
  | .tryBlock label body exhaustive name handlers, s =>
      match runBlock fuel errors body 0 s with
      | (.normal, t) => (.stuck, t)
      | (.left other error, t) =>
          if other = label then
            match error with
            | none => if exhaustive then (.panicked, t) else (.normal, t)
            | some exception => runBlock fuel ((name, exception) :: errors) handlers 0 t
          else (.left other error, t)
      | result => result
  | .ifProject type binding error caught otherwise, s =>
      match errors.lookup error with
      | none => (.stuck, s)
      | some exception =>
          match exception.project type with
          | some part =>
              m.rustLeaving 1 (runBlock fuel errors caught 0 (m.declareCaught binding part s))
          | none => runBlock fuel errors otherwise 0 s
  | .ifStatement condition thenBranch none, s =>
      m.rustAfter condition s fun v t ↦
        if m.truth v then runBlock fuel errors thenBranch 0 t else (.normal, t)
  | .ifStatement condition thenBranch (some elseBranch), s =>
      m.rustAfter condition s fun v t ↦
        if m.truth v then runBlock fuel errors thenBranch 0 t else run fuel errors elseBranch t
  | .whileLoop label condition body, s =>
      repeatPasses
        (m.rustChecked label id (some condition) fun t ↦ runBlock fuel errors body 0 t)
        (Prod.mk .exhausted) fuel s
  | .loop label update condition body, s =>
      repeatPasses (m.rustLoopPass label update condition fun t ↦ runBlock fuel errors body 0 t)
        (fun state ↦ (.exhausted, state.2)) fuel (true, s)
  | .forLoop label bindings iterable body, s =>
      m.rustAfter iterable s fun range t ↦
        repeatPasses (m.rustRangePass label bindings fun u ↦ runBlock fuel errors body 0 u)
          (fun state ↦ (.exhausted, state.2)) fuel (range, t)
  | .breakLoop label, s => (.broke label, s)
  | .continueLoop label, s => (.continued label, s)
  | .expression expression, s => m.rustAfter expression s fun _ t ↦ (.normal, t)

def runBlock (fuel : Nat) (errors : List (Nat × ExceptionObject hierarchy F)) :
    List (Rust.Statement T E) → Nat → σ → m.RustResult
  | [], names, s => (.normal, m.leave names s)
  | statement :: rest, names, s =>
      match run fuel errors statement s with
      | (.normal, t) => runBlock fuel errors rest (names + statement.localNames) t
      | (flow, t) => (flow, m.leave names t)

end

/-! ## 5. Single statements -/

section Equations

variable (fuel : Nat) (errors : List (Nat × ExceptionObject hierarchy F)) (s : σ)

theorem runBlock_nil (names : Nat) :
    m.runBlock fuel errors ([] : List (Rust.Statement T E)) names s = (.normal, m.leave names s) := rfl

theorem runBlock_cons (first : Rust.Statement T E) (rest : List (Rust.Statement T E)) (names : Nat) :
    m.runBlock fuel errors (first :: rest) names s =
      match m.run fuel errors first s with
      | (.normal, t) => m.runBlock fuel errors rest (names + first.localNames) t
      | (flow, t) => (flow, m.leave names t) := rfl

theorem run_block (statements : List (Rust.Statement T E)) :
    m.run fuel errors (.block statements) s = m.runBlock fuel errors statements 0 s := rfl

theorem run_localDeclaration (name : String) (initializer : Hir.Expression E) :
    m.run fuel errors (.localDeclaration name initializer : Rust.Statement T E) s =
      m.rustAfter initializer s fun v t ↦ (.normal, m.declare name v t) := rfl

theorem run_expression (expression : Hir.Expression E) :
    m.run fuel errors (.expression expression : Rust.Statement T E) s =
      m.rustAfter expression s fun _ t ↦ (.normal, t) := rfl

theorem run_returnErr (error : Rust.Error E) :
    m.run fuel errors (.returnErr error : Rust.Statement T E) s =
      m.rustError errors error s fun exception ↦ .returned (.err exception) := rfl

theorem run_breakOk (label : Nat) :
    m.run fuel errors (.breakOk label : Rust.Statement T E) s = (.left label none, s) := rfl

theorem run_breakErr (label : Nat) (error : Rust.Error E) :
    m.run fuel errors (.breakErr label error : Rust.Statement T E) s =
      m.rustError errors error s fun exception ↦ .left label (some exception) := rfl

theorem run_tryBlock (label : Nat) (body : List (Rust.Statement T E)) (exhaustive : Bool) (name : Nat)
    (handlers : List (Rust.Statement T E)) :
    m.run fuel errors (.tryBlock label body exhaustive name handlers) s =
      match m.runBlock fuel errors body 0 s with
      | (.normal, t) => (.stuck, t)
      | (.left other error, t) =>
          if other = label then
            match error with
            | none => if exhaustive then (.panicked, t) else (.normal, t)
            | some exception => m.runBlock fuel ((name, exception) :: errors) handlers 0 t
          else (.left other error, t)
      | result => result := rfl

theorem run_ifProject (type : T) (binding : String) (error : Nat)
    (caught otherwise : List (Rust.Statement T E)) :
    m.run fuel errors (.ifProject type binding error caught otherwise) s =
      match errors.lookup error with
      | none => (.stuck, s)
      | some exception =>
          match exception.project type with
          | some part =>
              m.rustLeaving 1 (m.runBlock fuel errors caught 0 (m.declareCaught binding part s))
          | none => m.runBlock fuel errors otherwise 0 s := rfl

end Equations

end Machine

end Stainless.Compiler
