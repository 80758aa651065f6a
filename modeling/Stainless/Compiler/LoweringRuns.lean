import Stainless.Compiler.Emission

/-!
# Runs of lowered statements

What is emitted for a statement runs as the statement does, in lockstep: the same stores, and the ends
that the labels and targets of the lowerer stand for.  One lemma for each construct.
-/

open Reasoning

namespace Stainless.Compiler

variable {T E V F σ : Type}

/-! ## 1. Bodies that are lowered -/

mutual

/-- No piece of the statement lowers to nothing: no lone `;` is a branch or a loop body, and the nearest
handler or `try` body around a bare `throw;` is a handler.  `caught` says this of the place of the
statement. -/
def statementLowerable (caught : Bool) : Statement T E → Bool
  | .empty => false
  | .throwStatement none => caught
  | .block statements => blockLowerable caught statements
  | .tryStatement body catches => blockLowerable false body && catchesLowerable catches
  | .ifStatement _ thenBranch none => statementLowerable caught thenBranch
  | .ifStatement _ thenBranch (some elseBranch) =>
      statementLowerable caught thenBranch && statementLowerable caught elseBranch
  | .whileStatement _ body | .classicFor _ _ _ body | .rangeFor _ _ body =>
      statementLowerable caught body
  | .localDeclaration _ _ | .returnStatement _ | .throwStatement (some _) | .breakStatement
  | .continueStatement | .expression _ => true

def blockLowerable (caught : Bool) : List (Statement T E) → Bool
  | [] => true
  | .empty :: rest => blockLowerable caught rest
  | statement :: rest => statementLowerable caught statement && blockLowerable caught rest

def catchesLowerable : List (CatchClause T E) → Bool
  | [] => true
  | .mk _ body :: rest => blockLowerable true body && catchesLowerable rest

end

mutual

/-- The statement does not end, through blocks and branches, in a `try` without a value.  For a statement
that does not fall through. -/
def statementEndTyped : Statement T E → Bool
  | .block statements => blockEndTyped statements
  | .ifStatement _ thenBranch (some elseBranch) =>
      statementEndTyped thenBranch && statementEndTyped elseBranch
  | .tryStatement body catches => blockDefinitelyReturns body && catchesDefinitelyReturn catches
  | .ifStatement _ _ none | .localDeclaration _ _ | .returnStatement _ | .throwStatement _
  | .whileStatement _ _ | .classicFor _ _ _ _ | .rangeFor _ _ _ | .breakStatement
  | .continueStatement | .expression _ | .empty => true

def blockEndTyped : List (Statement T E) → Bool
  | [] => true
  | [statement] => statementEndTyped statement
  | _ :: statement :: rest => blockEndTyped (statement :: rest)

end

mutual

/-- Every `try` body that does not fall through has an end with a type. -/
def statementTyped : Statement T E → Bool
  | .block statements => blockTyped statements
  | .tryStatement body catches =>
      (blockMayFallThrough body || blockEndTyped body) && blockTyped body && catchesTyped catches
  | .ifStatement _ thenBranch none => statementTyped thenBranch
  | .ifStatement _ thenBranch (some elseBranch) =>
      statementTyped thenBranch && statementTyped elseBranch
  | .whileStatement _ body | .classicFor _ _ _ body | .rangeFor _ _ body => statementTyped body
  | .localDeclaration _ _ | .returnStatement _ | .throwStatement _ | .breakStatement
  | .continueStatement | .expression _ | .empty => true

def blockTyped : List (Statement T E) → Bool
  | [] => true
  | statement :: rest => statementTyped statement && blockTyped rest

def catchesTyped : List (CatchClause T E) → Bool
  | [] => true
  | .mk _ body :: rest => blockTyped body && catchesTyped rest

end

mutual

theorem statementEndTyped_of_definitelyReturns : ∀ statement : Statement T E,
    statementDefinitelyReturns statement = true → statementEndTyped statement = true
  | .returnStatement _, _ | .throwStatement _, _ => rfl
  | .block statements, h => blockEndTyped_of_definitelyReturns statements h
  | .tryStatement _ _, h => h
  | .ifStatement _ thenBranch (some elseBranch), h => by
      rw [statementDefinitelyReturns, Bool.and_eq_true] at h
      rw [statementEndTyped, statementEndTyped_of_definitelyReturns thenBranch h.1,
        statementEndTyped_of_definitelyReturns elseBranch h.2]
      rfl

theorem blockEndTyped_of_definitelyReturns : ∀ statements : List (Statement T E),
    blockDefinitelyReturns statements = true → blockEndTyped statements = true
  | [statement], h => statementEndTyped_of_definitelyReturns statement h
  | _ :: statement :: rest, h => blockEndTyped_of_definitelyReturns (statement :: rest) h

end

/-! ## 2. The lowerer around a statement -/

namespace Lowerer

variable {X : Type}

/-- Lowering a statement leaves all but the indexes as they were. -/
def SameFrame (before after : Lowerer) : Prop :=
  after = { before with tryIndex := after.tryIndex, loopIndex := after.loopIndex }

theorem SameFrame.refl (lowerer : Lowerer) : SameFrame lowerer lowerer := rfl

theorem SameFrame.trans {first second third : Lowerer} (h : SameFrame first second)
    (h' : SameFrame second third) : SameFrame first third := by
  unfold SameFrame at *
  rw [h', h]

/-- What a `return` of the body hands to the caller. -/
def returned (lowerer : Lowerer) (value : Option V) : Rust.Returned V X :=
  .of lowerer.currentThrowing
    (match value with
      | some v => .value v
      | none =>
          if lowerer.currentConstructor then .constructed
          else if lowerer.currentFluentReceiver then .receiver
          else .unit)

/-- What an end of a statement has become. -/
def flow (lowerer : Lowerer) : Flow V X → Rust.Flow V X
  | .normal => .normal
  | .broke =>
      match lowerer.loopLabels with
      | [] => .stuck
      | label :: _ => .broke label
  | .continued =>
      match lowerer.loopLabels with
      | [] => .stuck
      | label :: _ => .continued label
  | .returned value => .returned (lowerer.returned value)
  | .raised exception => .propagate exception lowerer.exceptionTarget
  | .stuck => .stuck
  | .exhausted => .exhausted

def result (lowerer : Lowerer) (ended : Flow V X × σ) : Rust.Flow V X × σ :=
  (lowerer.flow ended.1, ended.2)

theorem SameFrame.flow {before after : Lowerer} (h : SameFrame before after) :
    (after.flow : Flow V X → Rust.Flow V X) = before.flow := by
  rw [h]
  rfl

theorem flow_ne_normal (lowerer : Lowerer) {ended : Flow V X} (h : ended ≠ .normal) :
    lowerer.flow ended ≠ .normal := by
  cases ended with
  | normal => exact absurd rfl h
  | broke => cases hlabels : lowerer.loopLabels <;> simp [flow, hlabels]
  | continued => cases hlabels : lowerer.loopLabels <;> simp [flow, hlabels]
  | raised exception => cases htarget : lowerer.exceptionTarget <;> simp [flow, htarget, Rust.Flow.propagate]
  | returned value => simp [flow]
  | stuck => simp [flow]
  | exhausted => simp [flow]

/-- The end of a loop body, under the label that the lowerer has pushed for it. -/
theorem endsPass_eq {α : Type} (lowerer : Lowerer) (label : Nat) (state : σ → α)
    (ended : Flow V X × σ) :
    Rust.Flow.endsPass label state ((lowerer.pushLabel label).result ended) =
      (Flow.endsPass state ended).map id lowerer.result := by
  obtain ⟨flow, t⟩ := ended
  cases flow with
  | normal => rfl
  | broke => simp [Lowerer.result, Lowerer.flow, Lowerer.pushLabel, Rust.Flow.endsPass, Flow.endsPass]
  | continued => simp [Lowerer.result, Lowerer.flow, Lowerer.pushLabel, Rust.Flow.endsPass, Flow.endsPass]
  | returned value => rfl
  | raised exception =>
      show Rust.Flow.endsPass label state (.propagate exception lowerer.exceptionTarget, t) =
        .done (.propagate exception lowerer.exceptionTarget, t)
      cases lowerer.exceptionTarget <;> rfl
  | stuck => rfl
  | exhausted => rfl

variable {hierarchy : ExceptionHierarchy T}

/-- The analysis and the lowering see the same surroundings of a statement. -/
structure Fits (lowerer : Lowerer) (loopDepth : Nat) (context : FunctionContext T) : Prop where
  labels : loopDepth ≠ 0 → lowerer.loopLabels ≠ []
  reachable : lowerer.exceptionTarget ≠ .unreachable
  handled : lowerer.exceptionTarget = .function → context.handledThrows = []
  declared : lowerer.currentThrowing = false → context.declaredThrows = []

/-- The error name of the lowerer stands for the handled exception. -/
def Sees (lowerer : Lowerer) (errors : List (Nat × ExceptionObject hierarchy F))
    (handling : Option (ExceptionObject hierarchy F)) : Prop :=
  ∀ name, lowerer.caughtError = some name →
    ∃ exception, handling = some exception ∧ errors.lookup name = some exception

theorem SameFrame.fits {before after : Lowerer} (h : SameFrame before after) {loopDepth : Nat}
    {context : FunctionContext T} (hfits : before.Fits loopDepth context) :
    after.Fits loopDepth context := by
  rw [h]
  exact ⟨hfits.labels, hfits.reachable, hfits.handled, hfits.declared⟩

theorem SameFrame.sees {before after : Lowerer} (h : SameFrame before after)
    {errors : List (Nat × ExceptionObject hierarchy F)}
    {handling : Option (ExceptionObject hierarchy F)} (hsees : before.Sees errors handling) :
    after.Sees errors handling := by
  rw [h]
  exact hsees

end Lowerer

/-! ## 3. Expressions, blocks and passes -/

namespace Machine

variable [DecidableEq T] {hierarchy : ExceptionHierarchy T} {signatures : Signatures T E}
variable (m : Machine hierarchy signatures V F σ)

theorem rustAfter_eq (lowerer : Lowerer) (e : E) (s : σ)
    {next : V → σ → Flow V (ExceptionObject hierarchy F) × σ} {next' : V → σ → m.RustResult}
    (hnext : ∀ v t, next' v t = lowerer.result (next v t)) :
    m.rustAfter (lowerer.lowerExpression e) s next' =
      lowerer.result (Flow.after (m.evaluate e s) next) := by
  show Rust.Flow.after lowerer.exceptionTarget (m.evaluate e s) next' = _
  generalize m.evaluate e s = value
  obtain ⟨value, t⟩ := value
  cases value with
  | ok v => exact hnext v t
  | error exception => rfl

theorem runBlock_normal {fuel : Nat} {errors : List (Nat × ExceptionObject hierarchy F)}
    {first : Rust.Statement T E} {rest : List (Rust.Statement T E)} {names : Nat} {s t : σ}
    (h : m.run fuel errors first s = (.normal, t)) :
    m.runBlock fuel errors (first :: rest) names s =
      m.runBlock fuel errors rest (names + first.localNames) t := by
  rw [runBlock_cons, h]

theorem runBlock_ended {fuel : Nat} {errors : List (Nat × ExceptionObject hierarchy F)}
    {first : Rust.Statement T E} {rest : List (Rust.Statement T E)} {names : Nat} {s t : σ}
    {flow : Rust.Flow V (ExceptionObject hierarchy F)} (h : m.run fuel errors first s = (flow, t))
    (hflow : flow ≠ .normal) :
    m.runBlock fuel errors (first :: rest) names s = (flow, m.leave names t) := by
  rw [runBlock_cons, h]
  split
  · rename_i heq
    cases heq
    exact absurd rfl hflow
  · rename_i heq
    cases heq
    rfl

/-- The last statement of a block, where it adds no name. -/
theorem runBlock_last {fuel : Nat} {errors : List (Nat × ExceptionObject hierarchy F)}
    {last : Rust.Statement T E} (hlast : last.localNames = 0) (names : Nat) (s : σ) :
    m.runBlock fuel errors [last] names s = m.rustLeaving names (m.run fuel errors last s) := by
  cases hrun : m.run fuel errors last s with
  | mk flow t =>
      by_cases hnormal : flow = .normal
      · rw [hnormal] at hrun
        rw [m.runBlock_normal hrun, hlast, hnormal, runBlock_nil]
        rfl
      · rw [m.runBlock_ended hrun hnormal]
        rfl

theorem runBlock_singleton {fuel : Nat} {errors : List (Nat × ExceptionObject hierarchy F)}
    {only : Rust.Statement T E} (honly : only.localNames = 0) (s : σ) :
    m.runBlock fuel errors [only] 0 s = m.run fuel errors only s := by
  rw [m.runBlock_last honly, rustLeaving, m.leave_zero]

/-- A declaration before the last statement: the name ends with the block. -/
theorem runBlock_declaration {fuel : Nat} {errors : List (Nat × ExceptionObject hierarchy F)}
    (name : String) (initializer : Hir.Expression E) {last : Rust.Statement T E}
    (hlast : last.localNames = 0) (s : σ) :
    m.runBlock fuel errors [.localDeclaration name initializer, last] 0 s =
      m.rustAfter initializer s fun v t ↦
        m.rustLeaving 1 (m.run fuel errors last (m.declare name v t)) := by
  cases heval : m.evaluate initializer.expression s with
  | mk value t =>
      cases value with
      | ok v =>
          have hrun : m.run fuel errors (.localDeclaration name initializer) s =
              (.normal, m.declare name v t) := by
            rw [run_localDeclaration, rustAfter, heval]
            rfl
          rw [m.runBlock_normal hrun, rustAfter, heval]
          exact m.runBlock_last hlast 1 _
      | error exception =>
          have hrun : m.run fuel errors (.localDeclaration name initializer) s =
              (.propagate exception initializer.target, t) := by
            rw [run_localDeclaration, rustAfter, heval]
            rfl
          rw [m.runBlock_ended hrun (by cases initializer.target <;> simp [Rust.Flow.propagate]),
            m.leave_zero, rustAfter, heval]
          rfl

theorem runBlock_expression {fuel : Nat} {errors : List (Nat × ExceptionObject hierarchy F)}
    (expression : Hir.Expression E) {last : Rust.Statement T E} (hlast : last.localNames = 0) (s : σ) :
    m.runBlock fuel errors [.expression expression, last] 0 s =
      m.rustAfter expression s fun _ t ↦ m.run fuel errors last t := by
  cases heval : m.evaluate expression.expression s with
  | mk value t =>
      cases value with
      | ok v =>
          have hrun : m.run fuel errors (.expression expression) s = (.normal, t) := by
            rw [run_expression, rustAfter, heval]
            rfl
          rw [m.runBlock_normal hrun, rustAfter, heval]
          exact m.runBlock_singleton hlast t
      | error exception =>
          have hrun : m.run fuel errors (.expression expression) s =
              (.propagate exception expression.target, t) := by
            rw [run_expression, rustAfter, heval]
            rfl
          rw [m.runBlock_ended hrun (by cases expression.target <;> simp [Rust.Flow.propagate]),
            m.leave_zero, rustAfter, heval]
          rfl

theorem runBlock_block {fuel : Nat} {errors : List (Nat × ExceptionObject hierarchy F)}
    (statements : List (Rust.Statement T E)) (s : σ) :
    m.runBlock fuel errors [.block statements] 0 s = m.runBlock fuel errors statements 0 s := by
  rw [m.runBlock_singleton rfl, run_block]

/-- A lowered statement as a block of its own. -/
theorem runBlock_asBlock {fuel : Nat} {errors : List (Nat × ExceptionObject hierarchy F)}
    {lowerer : Lowerer} {source : Statement T E} {lowered : Hir.Statement T E} {s : σ}
    {ended : Flow V (ExceptionObject hierarchy F) × σ}
    (hnames : (Codegen.statement lowered).localNames = source.localNames)
    (hruns : m.run fuel errors (Codegen.statement lowered) s = lowerer.result ended) :
    m.runBlock fuel errors (Codegen.block (Lowerer.asBlock lowered)) 0 s =
      lowerer.result (m.inScope source ended) := by
  have hsingleton : m.runBlock fuel errors [Codegen.statement lowered] 0 s =
      lowerer.result (m.inScope source ended) := by
    obtain ⟨flow, t⟩ := ended
    by_cases hnormal : flow = .normal
    · rw [hnormal] at hruns ⊢
      rw [m.runBlock_normal hruns, hnames, Nat.zero_add, runBlock_nil]
      rfl
    · rw [m.runBlock_ended hruns (lowerer.flow_ne_normal hnormal), m.leave_zero]
      unfold inScope
      split
      · rename_i heq
        cases heq
        exact absurd rfl hnormal
      · rfl
  cases lowered with
  | block statements =>
      rw [Codegen.statement, m.runBlock_block] at hsingleton
      exact hsingleton
  | _ => exact hsingleton

theorem run_elseBranch {fuel : Nat} {errors : List (Nat × ExceptionObject hierarchy F)}
    {lowerer : Lowerer} {source : Statement T E} {lowered : Hir.Statement T E} {s : σ}
    {ended : Flow V (ExceptionObject hierarchy F) × σ}
    (hnames : (Codegen.statement lowered).localNames = source.localNames)
    (hruns : m.run fuel errors (Codegen.statement lowered) s = lowerer.result ended) :
    m.run fuel errors (Codegen.elseBranch lowered (Codegen.statement lowered)) s =
      lowerer.result (m.inScope source ended) := by
  have hblock := m.runBlock_asBlock hnames hruns
  cases lowered with
  | block statements => exact hblock
  | ifStatement condition thenBranch other =>
      -- an `if` adds no name, with or without braces
      rw [Codegen.elseBranch]
      have hsingleton := hblock
      rw [Lowerer.asBlock, Codegen.block, Codegen.block] at hsingleton
      rw [← hsingleton, m.runBlock_singleton (by cases other <;> rfl)]
      intro statements h
      cases h
  | _ => exact hblock

/-! ## 4. Loops -/

theorem rustChecked_eq {α : Type} (lowerer : Lowerer) (label : Nat) (state : σ → α)
    (condition : Option E) {body : σ → Flow V (ExceptionObject hierarchy F) × σ}
    {body' : σ → m.RustResult} (hbody : ∀ t, body' t = (lowerer.pushLabel label).result (body t))
    (s : σ) :
    m.rustChecked label state (condition.map lowerer.lowerExpression) body' s =
      (m.checked condition body s).map state lowerer.result := by
  have hpass : ∀ t, Rust.Flow.endsPass label state (body' t) =
      (Flow.endsPass id (body t)).map state lowerer.result := by
    intro t
    rw [hbody, lowerer.endsPass_eq]
    generalize body t = ended
    obtain ⟨flow, u⟩ := ended
    cases flow <;> rfl
  cases condition with
  | none => exact hpass s
  | some condition =>
      simp only [rustChecked, checked, Option.map_some, Lowerer.lowerExpression]
      generalize m.evaluate condition s = value
      obtain ⟨value, t⟩ := value
      cases value with
      | error exception => rfl
      | ok v =>
          by_cases htruth : m.truth v = true
          · simp only [htruth, if_true]
            exact hpass t
          · simp only [htruth, Bool.false_eq_true, if_false]
            rfl

theorem run_whileLoop {fuel : Nat} {errors : List (Nat × ExceptionObject hierarchy F)}
    (lowerer : Lowerer) (label : Nat) (condition : E) {statements : List (Rust.Statement T E)}
    {body : σ → Flow V (ExceptionObject hierarchy F) × σ}
    (hbody : ∀ t, m.runBlock fuel errors statements 0 t = (lowerer.pushLabel label).result (body t))
    (s : σ) :
    m.run fuel errors (.whileLoop label (lowerer.lowerExpression condition) statements) s =
      lowerer.result (repeatPasses (m.checked (some condition) body) (Prod.mk .exhausted) fuel s) := by
  exact repeatPasses_map id lowerer.result
    (fun t ↦ m.rustChecked_eq lowerer label id (some condition) hbody t) (fun _ ↦ rfl) fuel s

theorem run_loop {fuel : Nat} {errors : List (Nat × ExceptionObject hierarchy F)}
    (lowerer : Lowerer) (label : Nat) (update condition : Option E)
    {statements : List (Rust.Statement T E)} {body : σ → Flow V (ExceptionObject hierarchy F) × σ}
    (hbody : ∀ t, m.runBlock fuel errors statements 0 t = (lowerer.pushLabel label).result (body t))
    (s : σ) :
    m.run fuel errors (.loop label (update.map lowerer.lowerExpression)
        (condition.map lowerer.lowerExpression) statements) s =
      lowerer.result (repeatAfter (m.checked condition body)
        (m.updated update (m.checked condition body)) (Prod.mk .exhausted) fuel s) := by
  have hchecked := m.rustChecked_eq lowerer label (Prod.mk false) condition hbody
  refine repeatPasses_flag lowerer.result hchecked (fun t ↦ ?_) (fun _ _ ↦ rfl) fuel s
  -- a pass that is not the first: the update comes before the condition
  cases update with
  | none => exact hchecked t
  | some update =>
      simp only [rustLoopPass, updated, Option.map_some, Lowerer.lowerExpression]
      generalize m.evaluate update t = value
      obtain ⟨value, u⟩ := value
      cases value with
      | error exception => rfl
      | ok v => exact hchecked u

theorem run_forLoop {fuel : Nat} {errors : List (Nat × ExceptionObject hierarchy F)}
    (lowerer : Lowerer) (label : Nat) (bindings : List String) (iterable : E)
    {statements : List (Rust.Statement T E)} {body : σ → Flow V (ExceptionObject hierarchy F) × σ}
    (hbody : ∀ t, m.runBlock fuel errors statements 0 t = (lowerer.pushLabel label).result (body t))
    (s : σ) :
    m.run fuel errors (.forLoop label bindings (lowerer.lowerExpression iterable) statements) s =
      lowerer.result (Flow.after (m.evaluate iterable s) fun range t ↦
        repeatPasses (m.rangePass bindings body) (fun state ↦ (.exhausted, state.2)) fuel (range, t)) := by
  have hpass : ∀ state : V × σ,
      m.rustRangePass label bindings (fun u ↦ m.runBlock fuel errors statements 0 u) state =
        (m.rangePass bindings body state).map id lowerer.result := by
    intro state
    obtain ⟨range, u⟩ := state
    rw [rustRangePass, rangePass]
    cases m.advance bindings range u with
    | none => rfl
    | some next =>
        have hleaving : m.rustLeaving bindings.length (m.runBlock fuel errors statements 0 next.2) =
            (lowerer.pushLabel label).result (m.leaving bindings.length (body next.2)) := by
          rw [hbody]
          rfl
        show Rust.Flow.endsPass label (Prod.mk next.1) (m.rustLeaving bindings.length _) = _
        rw [hleaving]
        exact lowerer.endsPass_eq label (Prod.mk next.1) _
  exact m.rustAfter_eq lowerer iterable s fun range t ↦
    repeatPasses_map id lowerer.result hpass (fun _ ↦ rfl) fuel (range, t)

/-! ## 5. Exceptions -/

theorem run_rethrow {fuel : Nat} {errors : List (Nat × ExceptionObject hierarchy F)}
    (target : Hir.ExceptionTarget) {name : Nat} {exception : ExceptionObject hierarchy F}
    (hname : errors.lookup name = some exception) (s : σ) :
    m.run fuel errors (Codegen.exceptionPropagation target (.named name) : Rust.Statement T E) s =
      (.propagate exception target, s) := by
  have herror : ∀ next : ExceptionObject hierarchy F → Rust.Flow V (ExceptionObject hierarchy F),
      m.rustError errors (.named name) s next = (next exception, s) := by
    intro next
    rw [rustError, hname]
  cases target with
  | function => exact herror _
  | «try» label => exact herror _
  | unreachable => rfl

theorem run_throw {fuel : Nat} {errors : List (Nat × ExceptionObject hierarchy F)}
    {lowerer : Lowerer} (hreachable : lowerer.exceptionTarget ≠ .unreachable) (value : E) (s : σ) :
    m.run fuel errors (Codegen.throwStatement (.new (lowerer.lowerExpression value))
        lowerer.exceptionTarget : Rust.Statement T E) s =
      lowerer.result (Flow.after (m.evaluate value s) fun v t ↦
        (.raised (m.newException value v), t)) := by
  rw [Codegen.throwStatement]
  cases htarget : lowerer.exceptionTarget with
  | unreachable => exact absurd htarget hreachable
  | function =>
      rw [Codegen.exceptionPropagation, run_returnErr, rustError]
      exact m.rustAfter_eq lowerer value s fun v t ↦ by
        rw [Lowerer.result, Lowerer.flow, htarget]
        rfl
  | «try» index =>
      rw [Codegen.exceptionPropagation, run_breakErr, rustError]
      exact m.rustAfter_eq lowerer value s fun v t ↦ by
        rw [Lowerer.result, Lowerer.flow, htarget]
        rfl

/-- The `unreachable!` arm stands where no exception is left over. -/
theorem propagate_unmatchedTarget {lowerer : Lowerer} {loopDepth : Nat} {context : FunctionContext T}
    {exception : ExceptionObject hierarchy F} (hfits : lowerer.Fits loopDepth context)
    (hraisable : Raisable { context with handledThrows := [] :: context.handledThrows } exception) :
    (.propagate exception lowerer.unmatchedTarget : Rust.Flow V _) =
      .propagate exception lowerer.exceptionTarget := by
  unfold Lowerer.unmatchedTarget
  split
  · rename_i hcondition
    simp only [Bool.and_eq_true, Bool.not_eq_true', decide_eq_true_eq] at hcondition
    exfalso
    cases hraisable with
    | inl hhandled => simp [handles, hfits.handled hcondition.2] at hhandled
    | inr hdeclared => simp [declares, hfits.declared hcondition.1] at hdeclared
  · rfl

/-- A `try` runs its body for the label, and its handlers for what has left the body. -/
theorem run_tryStatement {fuel : Nat} {errors : List (Nat × ExceptionObject hierarchy F)}
    {lowerer : Lowerer} {handling : Option (ExceptionObject hierarchy F)}
    {body : List (Statement T E)} {catches : List (CatchClause T E)}
    {hirBody : List (Hir.Statement T E)} {hirCatches : List (Hir.Catch T E)} {s : σ}
    (hbody : m.runBlock fuel errors (Codegen.block hirBody) 0 s =
      lowerer.enterTry.result (m.execBlock fuel handling body 0 s))
    (hcatches : ∀ exception t, m.execBlock fuel handling body 0 s = (.raised exception, t) →
      m.runBlock fuel ((lowerer.tryIndex, exception) :: errors)
          (Codegen.handlers lowerer.tryIndex lowerer.unmatchedTarget hirCatches) 0 t =
        lowerer.result (m.execCatches fuel catches exception t)) :
    m.run fuel errors (Codegen.statement (.tryStatement lowerer.tryIndex lowerer.tryIndex hirBody
        (blockMayFallThrough body) hirCatches
        (blockDefinitelyReturns body && catchesDefinitelyReturn catches) lowerer.unmatchedTarget)) s =
      lowerer.result (m.exec fuel handling (.tryStatement body catches) s) := by
  have hfalls := m.execBlock_ne_normal fuel body handling 0 s
  rw [exec, Codegen.statement, run_tryBlock]
  cases hexec : m.execBlock fuel handling body 0 s with
  | mk flow t =>
      have hfirst : m.run fuel errors (.block (Codegen.block hirBody)) s =
          (lowerer.enterTry.flow flow, t) := by
        rw [run_block, hbody, hexec]
        rfl
      have hended : flow ≠ .normal → ∀ rest, m.runBlock fuel errors
          (.block (Codegen.block hirBody) :: rest) 0 s = (lowerer.enterTry.flow flow, t) := by
        intro hne rest
        rw [m.runBlock_ended hfirst (lowerer.enterTry.flow_ne_normal hne), m.leave_zero]
      cases flow with
      | normal =>
          -- the body may fall through, so `break Ok(())` follows it, and nothing is unreachable
          rw [hexec] at hfalls
          have hthrough : blockMayFallThrough body = true := by
            by_contra hnot
            exact hfalls (by simpa using hnot) rfl
          have hreturns : blockDefinitelyReturns body = false := by
            by_contra hreturns
            rw [not_blockMayFallThrough body (by simpa using hreturns)] at hthrough
            cases hthrough
          have hleft : m.runBlock fuel errors
              [.block (Codegen.block hirBody), .breakOk lowerer.tryIndex] 0 s =
                (.left lowerer.tryIndex none, t) := by
            rw [m.runBlock_normal hfirst]
            exact (m.runBlock_singleton rfl t).trans (m.run_breakOk fuel errors t _)
          rw [hthrough, if_pos rfl, hreturns, hleft]
          simp [Lowerer.result, Lowerer.flow]
      | raised exception =>
          rw [hended (by simp)]
          simp only [Lowerer.flow, Lowerer.enterTry, Rust.Flow.propagate, if_true]
          exact hcatches exception t hexec
      | broke =>
          rw [hended (by simp)]
          cases hlabels : lowerer.loopLabels <;>
            simp [Lowerer.flow, Lowerer.result, Lowerer.enterTry, hlabels]
      | continued =>
          rw [hended (by simp)]
          cases hlabels : lowerer.loopLabels <;>
            simp [Lowerer.flow, Lowerer.result, Lowerer.enterTry, hlabels]
      | returned value =>
          rw [hended (by simp)]
          rfl
      | stuck =>
          rw [hended (by simp)]
          rfl
      | exhausted =>
          rw [hended (by simp)]
          rfl

end Machine

end Stainless.Compiler
