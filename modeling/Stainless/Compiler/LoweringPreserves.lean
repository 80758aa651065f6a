import Stainless.Compiler.LoweringRuns

/-!
# Lowering preserves control flow

Every accepted body whose pieces all lower to something is lowered, and runs as before.
-/

open Reasoning

namespace Stainless.Compiler

variable {T E V F σ : Type} [DecidableEq T]
variable {hierarchy : ExceptionHierarchy T} {signatures : Signatures T E}

/-! ## 1. What is shown of lowered pieces -/

/-- The handling of exceptions that a piece is run in, for the source and for what is emitted. -/
structure Surroundings (lowerer : Lowerer) (catchDepth : Nat) (context : FunctionContext T)
    (errors : List (Nat × ExceptionObject hierarchy F))
    (handling : Option (ExceptionObject hierarchy F)) : Prop where
  sees : lowerer.Sees errors handling
  handling : Handling catchDepth context handling

structure StatementLowered (m : Machine hierarchy signatures V F σ) (fuel : Nat) (lowerer : Lowerer)
    (catchDepth : Nat) (context : FunctionContext T) (source : Statement T E)
    (lowered : Hir.Statement T E) : Prop where
  names : (Codegen.statement lowered).localNames = source.localNames
  never : statementMayFallThrough source = false →
    (Codegen.statement lowered).never = statementEndTyped source
  typed : (Codegen.statement lowered).typed = statementTyped source
  runs : ∀ {errors handling}, Surroundings lowerer catchDepth context errors handling → ∀ s,
    m.run fuel errors (Codegen.statement lowered) s = lowerer.result (m.exec fuel handling source s)

structure BlockLowered (m : Machine hierarchy signatures V F σ) (fuel : Nat) (lowerer : Lowerer)
    (catchDepth : Nat) (context : FunctionContext T) (source : List (Statement T E))
    (lowered : List (Hir.Statement T E)) : Prop where
  nil : source = [] → lowered = []
  ne_nil : blockMayFallThrough source = false → lowered ≠ []
  never : blockMayFallThrough source = false →
    Rust.blockNever (Codegen.block lowered) = blockEndTyped source
  typed : Rust.blockTyped (Codegen.block lowered) = blockTyped source
  runs : ∀ {errors handling}, Surroundings lowerer catchDepth context errors handling → ∀ names s,
    m.runBlock fuel errors (Codegen.block lowered) names s =
      lowerer.result (m.execBlock fuel handling source names s)

/-- The handlers of the `try` with the index. -/
structure CatchesLowered (m : Machine hierarchy signatures V F σ) (fuel : Nat) (lowerer : Lowerer)
    (context : FunctionContext T) (index : Nat) (source : List (CatchClause T E))
    (lowered : List (Hir.Catch T E)) : Prop where
  never : catchesDefinitelyReturn source = true →
    Rust.blockNever (Codegen.handlers index lowerer.unmatchedTarget lowered) = true
  typed : Rust.blockTyped (Codegen.handlers index lowerer.unmatchedTarget lowered) =
    catchesTyped source
  runs : ∀ {exception}, Raisable { context with
      handledThrows := source.filterMap (caughtType hierarchy) :: context.handledThrows } exception →
    ∀ errors s, m.runBlock fuel ((index, exception) :: errors)
        (Codegen.handlers index lowerer.unmatchedTarget lowered) 0 s =
      lowerer.result (m.execCatches fuel source exception s)

omit [DecidableEq T] in
theorem blockNever_asBlock (lowered : Hir.Statement T E) :
    Rust.blockNever (Codegen.block (Lowerer.asBlock lowered)) = (Codegen.statement lowered).never := by
  cases lowered <;> rfl

omit [DecidableEq T] in
theorem blockTyped_asBlock (lowered : Hir.Statement T E) :
    Rust.blockTyped (Codegen.block (Lowerer.asBlock lowered)) = (Codegen.statement lowered).typed := by
  cases lowered with
  | block statements => rfl
  | _ => exact Bool.and_true _

omit [DecidableEq T] in
theorem never_elseBranch (lowered : Hir.Statement T E) :
    (Codegen.elseBranch lowered (Codegen.statement lowered)).never =
      (Codegen.statement lowered).never := by
  cases lowered <;> rfl

omit [DecidableEq T] in
theorem typed_elseBranch (lowered : Hir.Statement T E) :
    (Codegen.elseBranch lowered (Codegen.statement lowered)).typed =
      (Codegen.statement lowered).typed := by
  have hbraces : ∀ emitted : Rust.Statement T E,
      (Rust.Statement.block [emitted]).typed = emitted.typed := fun _ ↦ Bool.and_true _
  cases lowered with
  | block statements => rfl
  | ifStatement condition thenBranch other => rfl
  | _ => exact hbraces _

/-! ## 2. The constructs -/

section Constructs

variable {m : Machine hierarchy signatures V F σ} {fuel : Nat} {lowerer : Lowerer} {catchDepth : Nat}
variable {context : FunctionContext T}

theorem Surroundings.of_frame {before after : Lowerer} (hframe : before.SameFrame after)
    {errors : List (Nat × ExceptionObject hierarchy F)}
    {handling : Option (ExceptionObject hierarchy F)}
    (h : Surroundings before catchDepth context errors handling) :
    Surroundings after catchDepth context errors handling :=
  ⟨hframe.sees h.sees, h.handling⟩

/-- The indexes of the lowerer are of no concern to what it has lowered. -/
theorem StatementLowered.of_frame {before after : Lowerer} (hframe : before.SameFrame after)
    {source : Statement T E} {lowered : Hir.Statement T E}
    (h : StatementLowered m fuel after catchDepth context source lowered) :
    StatementLowered m fuel before catchDepth context source lowered where
  names := h.names
  never := h.never
  typed := h.typed
  runs := fun hsurroundings s ↦ by
    rw [h.runs (hsurroundings.of_frame hframe)]
    unfold Lowerer.result
    rw [hframe.flow]

theorem BlockLowered.of_frame {before after : Lowerer} (hframe : before.SameFrame after)
    {source : List (Statement T E)} {lowered : List (Hir.Statement T E)}
    (h : BlockLowered m fuel after catchDepth context source lowered) :
    BlockLowered m fuel before catchDepth context source lowered where
  nil := h.nil
  ne_nil := h.ne_nil
  never := h.never
  typed := h.typed
  runs := fun hsurroundings names s ↦ by
    rw [h.runs (hsurroundings.of_frame hframe)]
    unfold Lowerer.result
    rw [hframe.flow]

theorem CatchesLowered.of_frame {before after : Lowerer} (hframe : before.SameFrame after)
    {index : Nat} {source : List (CatchClause T E)} {lowered : List (Hir.Catch T E)}
    (h : CatchesLowered m fuel after context index source lowered) :
    CatchesLowered m fuel before context index source lowered := by
  have htarget : after.unmatchedTarget = before.unmatchedTarget := by
    rw [show after = _ from hframe]
    rfl
  obtain ⟨hnever, htyped, hruns⟩ := h
  rw [htarget] at hnever htyped
  refine ⟨hnever, htyped, fun hraisable errors s ↦ ?_⟩
  have hrun := hruns hraisable errors s
  unfold Lowerer.result at hrun
  rw [htarget, hframe.flow] at hrun
  exact hrun

theorem StatementLowered.block {source : List (Statement T E)} {lowered : List (Hir.Statement T E)}
    (h : BlockLowered m fuel lowerer catchDepth context source lowered) :
    StatementLowered m fuel lowerer catchDepth context (.block source) (.block lowered) where
  names := rfl
  never := h.never
  typed := h.typed
  runs := fun hsurroundings s ↦ by
    exact h.runs hsurroundings 0 s

theorem StatementLowered.ifThen (condition : E) {thenBranch : Statement T E}
    {hirThen : Hir.Statement T E}
    (h : StatementLowered m fuel lowerer catchDepth context thenBranch hirThen) :
    StatementLowered m fuel lowerer catchDepth context (.ifStatement condition thenBranch none)
      (.ifStatement (lowerer.lowerExpression condition) (Lowerer.asBlock hirThen) none) where
  names := rfl
  never := fun hthrough ↦ by cases hthrough
  typed := (blockTyped_asBlock hirThen).trans h.typed
  runs := fun hsurroundings s ↦ by
    refine m.rustAfter_eq lowerer condition s fun v t ↦ ?_
    split
    · exact m.runBlock_asBlock h.names (h.runs hsurroundings t)
    · rfl

theorem StatementLowered.ifElse (condition : E) {thenBranch elseBranch : Statement T E}
    {hirThen hirElse : Hir.Statement T E}
    (hthen : StatementLowered m fuel lowerer catchDepth context thenBranch hirThen)
    (helse : StatementLowered m fuel lowerer catchDepth context elseBranch hirElse) :
    StatementLowered m fuel lowerer catchDepth context
      (.ifStatement condition thenBranch (some elseBranch))
      (.ifStatement (lowerer.lowerExpression condition) (Lowerer.asBlock hirThen)
        (some hirElse)) where
  names := rfl
  never := fun hthrough ↦ by
    rw [statementMayFallThrough, Bool.or_eq_false_iff] at hthrough
    show (Rust.blockNever (Codegen.block (Lowerer.asBlock hirThen)) &&
      (Codegen.elseBranch hirElse (Codegen.statement hirElse)).never) = _
    rw [blockNever_asBlock, never_elseBranch, hthen.never hthrough.1, helse.never hthrough.2]
    rfl
  typed := by
    show (Rust.blockTyped (Codegen.block (Lowerer.asBlock hirThen)) &&
      (Codegen.elseBranch hirElse (Codegen.statement hirElse)).typed) = _
    rw [blockTyped_asBlock, typed_elseBranch, hthen.typed, helse.typed]
    rfl
  runs := fun hsurroundings s ↦ by
    refine m.rustAfter_eq lowerer condition s fun v t ↦ ?_
    split
    · exact m.runBlock_asBlock hthen.names (hthen.runs hsurroundings t)
    · exact m.run_elseBranch helse.names (helse.runs hsurroundings t)

/-- The body of a loop is lowered under the label of the loop. -/
theorem StatementLowered.whileStatement (label : Nat) (condition : E) {body : Statement T E}
    {hirBody : Hir.Statement T E}
    (h : StatementLowered m fuel (lowerer.pushLabel label) catchDepth context body hirBody) :
    StatementLowered m fuel lowerer catchDepth context (.whileStatement condition body)
      (.whileStatement label (lowerer.lowerExpression condition) (Lowerer.asBlock hirBody)) where
  names := rfl
  never := fun hthrough ↦ by cases hthrough
  typed := (blockTyped_asBlock hirBody).trans h.typed
  runs := fun hsurroundings s ↦ by
    exact m.run_whileLoop lowerer label condition (fun t ↦ m.runBlock_asBlock h.names
      (h.runs ⟨hsurroundings.sees, hsurroundings.handling⟩ t)) s

theorem StatementLowered.rangeFor (label : Nat) (bindings : List String) (iterable : E)
    {body : Statement T E} {hirBody : Hir.Statement T E}
    (h : StatementLowered m fuel (lowerer.pushLabel label) catchDepth context body hirBody) :
    StatementLowered m fuel lowerer catchDepth context (.rangeFor bindings iterable body)
      (.rangeFor label bindings (lowerer.lowerExpression iterable) (Lowerer.asBlock hirBody)) where
  names := rfl
  never := fun hthrough ↦ by cases hthrough
  typed := (blockTyped_asBlock hirBody).trans h.typed
  runs := fun hsurroundings s ↦ by
    exact m.run_forLoop lowerer label bindings iterable (fun t ↦ m.runBlock_asBlock h.names
      (h.runs ⟨hsurroundings.sees, hsurroundings.handling⟩ t)) s

theorem StatementLowered.classicFor (label : Nat) (initializer : Option (ForInitializer E))
    (condition update : Option E) {body : Statement T E} {hirBody : Hir.Statement T E}
    (h : StatementLowered m fuel (lowerer.pushLabel label) catchDepth context body hirBody) :
    StatementLowered m fuel lowerer catchDepth context (.classicFor initializer condition update body)
      (.classicFor label (initializer.map lowerer.lowerInitializer)
        (condition.map lowerer.lowerExpression) (update.map lowerer.lowerExpression)
        (Lowerer.asBlock hirBody)) where
  names := rfl
  never := fun hthrough ↦ by cases hthrough
  typed := by
    have hinitializer : Rust.blockTyped ((initializer.map lowerer.lowerInitializer).map
        Codegen.forInitializer : Option (Rust.Statement T E)).toList = true := by
      cases initializer with
      | none => rfl
      | some initializer => cases initializer <;> rfl
    show Rust.blockTyped (_ ++ [_]) = _
    rw [Rust.blockTyped_append, hinitializer, Bool.true_and]
    show (Rust.blockTyped (Codegen.block (Lowerer.asBlock hirBody)) && true) = _
    rw [Bool.and_true, blockTyped_asBlock, h.typed]
    rfl
  runs := fun {errors handling} hsurroundings s ↦ by
    have hloop : ∀ t, m.run fuel errors (.loop label (update.map lowerer.lowerExpression)
        (condition.map lowerer.lowerExpression) (Codegen.block (Lowerer.asBlock hirBody))) t = _ :=
      fun t ↦ m.run_loop lowerer label update condition (fun u ↦ m.runBlock_asBlock h.names
        (h.runs ⟨hsurroundings.sees, hsurroundings.handling⟩ u)) t
    cases initializer with
    | none => exact (m.runBlock_singleton rfl s).trans (hloop s)
    | some initializer =>
        cases initializer with
        | localDeclaration name initializer =>
            -- the scope of the name ends with the loop, however the loop ends
            refine (m.runBlock_declaration name (lowerer.lowerExpression initializer) rfl s).trans ?_
            refine m.rustAfter_eq lowerer initializer s fun v t ↦ ?_
            rw [hloop]
            rfl
        | expression expression =>
            refine (m.runBlock_expression (lowerer.lowerExpression expression) rfl s).trans ?_
            exact m.rustAfter_eq lowerer expression s fun _ t ↦ hloop t

/-- A jump of the innermost loop. -/
theorem StatementLowered.breakStatement {label : Nat} {rest : List Nat}
    (hlabels : lowerer.loopLabels = label :: rest) :
    StatementLowered m fuel lowerer catchDepth context (.breakStatement : Statement T E)
      (.breakStatement label) where
  names := rfl
  never := fun _ ↦ rfl
  typed := rfl
  runs := fun _ s ↦ by
    rw [Lowerer.result, Machine.exec, Lowerer.flow, hlabels]
    rfl

theorem StatementLowered.continueStatement {label : Nat} {rest : List Nat}
    (hlabels : lowerer.loopLabels = label :: rest) :
    StatementLowered m fuel lowerer catchDepth context (.continueStatement : Statement T E)
      (.continueStatement label) where
  names := rfl
  never := fun _ ↦ rfl
  typed := rfl
  runs := fun _ s ↦ by
    rw [Lowerer.result, Machine.exec, Lowerer.flow, hlabels]
    rfl

theorem StatementLowered.returnStatement (value : Option E) :
    StatementLowered m fuel lowerer catchDepth context (.returnStatement value : Statement T E)
      (.returnStatement lowerer.currentThrowing (lowerer.returnValue value)) where
  names := rfl
  never := fun _ ↦ rfl
  typed := rfl
  runs := fun _ s ↦ by
    cases value with
    | none =>
        show m.rustReturn lowerer.currentThrowing s (lowerer.returnValue none) =
          (.returned (lowerer.returned none), s)
        rw [Lowerer.returned, Lowerer.returnValue]
        by_cases hconstructor : lowerer.currentConstructor = true
        · rw [if_pos hconstructor, if_pos hconstructor]
          rfl
        · rw [if_neg hconstructor, if_neg hconstructor]
          by_cases hfluent : lowerer.currentFluentReceiver = true
          · rw [if_pos hfluent, if_pos hfluent]
            rfl
          · rw [if_neg hfluent, if_neg hfluent]
            rfl
    | some value => exact m.rustAfter_eq lowerer value s fun v t ↦ rfl

theorem StatementLowered.throwStatement (hreachable : lowerer.exceptionTarget ≠ .unreachable)
    (value : E) :
    StatementLowered m fuel lowerer catchDepth context (.throwStatement (some value) : Statement T E)
      (.throwStatement (.new (lowerer.lowerExpression value)) lowerer.exceptionTarget) where
  names := by
    cases htarget : lowerer.exceptionTarget <;> rfl
  never := fun _ ↦ by
    cases htarget : lowerer.exceptionTarget <;> rfl
  typed := by
    cases htarget : lowerer.exceptionTarget <;> rfl
  runs := fun _ s ↦ by
    exact m.run_throw hreachable value s

/-- A bare `throw;` raises the exception that the error name of the lowerer stands for. -/
theorem StatementLowered.rethrow {errorName : Nat} (hcaught : lowerer.caughtError = some errorName) :
    StatementLowered m fuel lowerer catchDepth context (.throwStatement none : Statement T E)
      (.throwStatement (.existing errorName) lowerer.exceptionTarget) where
  names := by
    cases htarget : lowerer.exceptionTarget <;> rfl
  never := fun _ ↦ by
    cases htarget : lowerer.exceptionTarget <;> rfl
  typed := by
    cases htarget : lowerer.exceptionTarget <;> rfl
  runs := fun hsurroundings s ↦ by
    obtain ⟨exception, rfl, hname⟩ := hsurroundings.sees errorName hcaught
    exact m.run_rethrow lowerer.exceptionTarget hname s

theorem StatementLowered.localDeclaration (name : String) (initializer : E) :
    StatementLowered m fuel lowerer catchDepth context
      (.localDeclaration name initializer : Statement T E)
      (.localDeclaration name (lowerer.lowerExpression initializer)) where
  names := rfl
  never := fun hthrough ↦ by cases hthrough
  typed := rfl
  runs := fun _ s ↦ by
    exact m.rustAfter_eq lowerer initializer s fun _ _ ↦ rfl

theorem StatementLowered.expression (expression : E) :
    StatementLowered m fuel lowerer catchDepth context (.expression expression : Statement T E)
      (.expression (lowerer.lowerExpression expression)) where
  names := rfl
  never := fun hthrough ↦ by cases hthrough
  typed := rfl
  runs := fun _ s ↦ by
    exact m.rustAfter_eq lowerer expression s fun _ _ ↦ rfl

/-! ## 3. Blocks and handlers -/

theorem BlockLowered.empty :
    BlockLowered m fuel lowerer catchDepth context ([] : List (Statement T E)) [] where
  nil := fun _ ↦ rfl
  ne_nil := fun hthrough ↦ by cases hthrough
  never := fun hthrough ↦ by cases hthrough
  typed := rfl
  runs := fun _ _ _ ↦ rfl

/-- A lone semicolon in a block is skipped. -/
theorem BlockLowered.skip {rest : List (Statement T E)} {hirRest : List (Hir.Statement T E)}
    (h : BlockLowered m fuel lowerer catchDepth context rest hirRest) :
    BlockLowered m fuel lowerer catchDepth context (.empty :: rest) hirRest := by
  have hthrough : blockMayFallThrough (.empty :: rest) = false → blockMayFallThrough rest = false := by
    intro hthrough
    cases rest with
    | nil => cases hthrough
    | cons statement rest => exact hthrough
  have hend : blockMayFallThrough rest = false → blockEndTyped rest = blockEndTyped (.empty :: rest) := by
    intro hrest
    cases rest with
    | nil => cases hrest
    | cons statement rest => rfl
  exact
    { nil := fun hnil ↦ by cases hnil
      ne_nil := fun hfalls ↦ h.ne_nil (hthrough hfalls)
      never := fun hfalls ↦ (h.never (hthrough hfalls)).trans (hend (hthrough hfalls))
      typed := h.typed
      runs := fun hsurroundings names s ↦ by
        rw [h.runs hsurroundings]
        rfl }

theorem BlockLowered.cons {first : Statement T E} {rest : List (Statement T E)}
    {hirFirst : Hir.Statement T E} {hirRest : List (Hir.Statement T E)}
    (hfirst : StatementLowered m fuel lowerer catchDepth context first hirFirst)
    (hrest : BlockLowered m fuel lowerer catchDepth context rest hirRest) :
    BlockLowered m fuel lowerer catchDepth context (first :: rest) (hirFirst :: hirRest) where
  nil := fun hnil ↦ by cases hnil
  ne_nil := fun _ hnil ↦ by cases hnil
  never := fun hthrough ↦ by
    cases rest with
    | nil =>
        rw [hrest.nil rfl]
        exact hfirst.never hthrough
    | cons second rest =>
        -- the end of the block is the end of the rest
        have hnever := hrest.never hthrough
        cases hirRest with
        | nil => exact absurd rfl (hrest.ne_nil hthrough)
        | cons hirSecond hirRest => exact hnever
  typed := by
    show ((Codegen.statement hirFirst).typed && Rust.blockTyped (Codegen.block hirRest)) = _
    rw [hfirst.typed, hrest.typed]
    rfl
  runs := fun {errors handling} hsurroundings names s ↦ by
    have hrun := hfirst.runs hsurroundings s
    show m.runBlock fuel errors (Codegen.statement hirFirst :: Codegen.block hirRest) names s = _
    rw [Machine.execBlock]
    cases hexec : m.exec fuel handling first s with
    | mk flow t =>
        rw [hexec] at hrun
        by_cases hnormal : flow = .normal
        · rw [hnormal] at hrun ⊢
          rw [m.runBlock_normal hrun, hfirst.names]
          exact hrest.runs hsurroundings _ t
        · rw [m.runBlock_ended hrun (lowerer.flow_ne_normal hnormal)]
          split
          · rename_i heq
            cases heq
            exact absurd rfl hnormal
          · rename_i heq
            cases heq
            rfl

theorem CatchesLowered.empty {loopDepth : Nat} (hfits : lowerer.Fits loopDepth context) (index : Nat) :
    CatchesLowered m fuel lowerer context index ([] : List (CatchClause T E)) [] where
  never := fun _ ↦ by
    show Rust.blockNever [Codegen.exceptionPropagation _ _] = true
    cases lowerer.unmatchedTarget <;> rfl
  typed := by
    show Rust.blockTyped [Codegen.exceptionPropagation _ _] = true
    cases lowerer.unmatchedTarget <;> rfl
  runs := fun {exception} hraisable errors s ↦ by
    have hnames : ∀ target : Hir.ExceptionTarget,
        (Codegen.exceptionPropagation target (.named index) : Rust.Statement T E).localNames = 0 := by
      intro target
      cases target <;> rfl
    have hname : List.lookup index ((index, exception) :: errors) = some exception := by simp
    show m.runBlock fuel _ [Codegen.exceptionPropagation lowerer.unmatchedTarget _] 0 s =
      (.propagate exception lowerer.exceptionTarget, s)
    rw [m.runBlock_singleton (hnames _), m.run_rethrow _ hname,
      Machine.propagate_unmatchedTarget hfits hraisable]

/-- Inside a handler of the `try` with the index. -/
def handlerLowerer (lowerer : Lowerer) (index : Nat) : Lowerer :=
  { lowerer with caughtError := some index }

omit [DecidableEq T] in
theorem handlerLowerer_sees (lowerer : Lowerer) (index : Nat)
    (exception : ExceptionObject hierarchy F) (errors : List (Nat × ExceptionObject hierarchy F)) :
    (handlerLowerer lowerer index).Sees ((index, exception) :: errors) (some exception) := by
  intro name hname
  cases hname
  exact ⟨exception, rfl, by simp⟩

theorem CatchesLowered.catchAll {index : Nat} {body : List (Statement T E)}
    {hirBody : List (Hir.Statement T E)} {hirRest : List (Hir.Catch T E)}
    (hbody : BlockLowered m fuel (handlerLowerer lowerer index) (catchDepth + 1)
      { context with currentCatch := some hierarchy.root } body hirBody) :
    CatchesLowered m fuel lowerer context index [.mk none body] (.mk none hirBody :: hirRest) where
  never := fun hreturns ↦ by
    rw [catchesDefinitelyReturn, Bool.and_eq_true] at hreturns
    have hnever := hbody.never (not_blockMayFallThrough body hreturns.1)
    rw [blockEndTyped_of_definitelyReturns body hreturns.1] at hnever
    exact hnever
  typed := by
    show (Rust.blockTyped (Codegen.block hirBody) && true) = _
    rw [hbody.typed]
    rfl
  runs := fun {exception} _ errors s ↦ by
    have hhandling : Handling (catchDepth + 1)
        { context with currentCatch := some hierarchy.root } (some exception) := by
      refine ⟨fun _ ↦ rfl, fun h ↦ ?_⟩
      cases h
      exact ⟨hierarchy.root, rfl, exception.root_covers⟩
    show m.runBlock fuel _ [.block (Codegen.block hirBody)] 0 s = _
    rw [m.runBlock_block]
    exact hbody.runs ⟨handlerLowerer_sees lowerer index exception errors, hhandling⟩ 0 s

theorem CatchesLowered.typedCatch {index : Nat} {binding : CatchBinding T} {type : T}
    {body : List (Statement T E)} {rest : List (CatchClause T E)}
    {hirBody : List (Hir.Statement T E)} {hirRest : List (Hir.Catch T E)}
    (htype : binding.type = some type)
    (hbody : BlockLowered m fuel (handlerLowerer lowerer index) (catchDepth + 1)
      { context with currentCatch :=
        (caughtType hierarchy (CatchClause.mk (some binding) body)).or (some hierarchy.root) }
      body hirBody)
    (hrest : CatchesLowered m fuel lowerer context index rest hirRest) :
    CatchesLowered m fuel lowerer context index (.mk (some binding) body :: rest)
      (.mk (some (type, binding.name)) hirBody :: hirRest) where
  never := fun hreturns ↦ by
    rw [catchesDefinitelyReturn, Bool.and_eq_true] at hreturns
    have hnever := hbody.never (not_blockMayFallThrough body hreturns.1)
    rw [blockEndTyped_of_definitelyReturns body hreturns.1] at hnever
    show (Rust.blockNever (Codegen.block hirBody) && Rust.blockNever (Codegen.handlers _ _ hirRest)) = true
    rw [hnever, hrest.never hreturns.2]
    rfl
  typed := by
    show (((Rust.blockTyped (Codegen.block hirBody) && true) &&
      Rust.blockTyped (Codegen.handlers _ _ hirRest)) && true) = _
    rw [Bool.and_true, Bool.and_true, hbody.typed, hrest.typed]
    rfl
  runs := fun {exception} hraisable errors s ↦ by
    have hlookup : List.lookup index ((index, exception) :: errors) = some exception := by simp
    show m.runBlock fuel _ [.ifProject type binding.name index [.block (Codegen.block hirBody)] _] 0 s = _
    rw [m.runBlock_singleton rfl, m.run_ifProject, hlookup]
    dsimp only
    rw [exception.project_eq, Machine.execCatches]
    -- the projection in Rust succeeds exactly where the clause covers the exception
    by_cases hcovers : hierarchy.exceptionCovers type exception.type = true
    · have hstore : m.catchStore binding exception s =
          some (m.declareCaught binding.name (exception.basePart type) s) := by
        rw [Machine.catchStore, htype]
        exact if_pos hcovers
      have hsurroundings : Surroundings (handlerLowerer lowerer index) (catchDepth + 1)
          { context with currentCatch :=
            (caughtType hierarchy (CatchClause.mk (some binding) body)).or (some hierarchy.root) }
          ((index, exception) :: errors) (some exception) :=
        ⟨handlerLowerer_sees lowerer index exception errors, m.handling_of_catchStore hstore⟩
      rw [if_pos hcovers, hstore]
      show m.rustLeaving 1 (m.runBlock fuel _ [.block (Codegen.block hirBody)] 0 _) = _
      rw [m.runBlock_block, hbody.runs hsurroundings]
      rfl
    · have hstore : m.catchStore binding exception s = none := by
        rw [Machine.catchStore, htype]
        exact if_neg hcovers
      rw [if_neg hcovers, hstore]
      exact hrest.runs (m.raisable_of_not_caught hstore hraisable) errors s

theorem StatementLowered.tryStatement {body : List (Statement T E)} {catches : List (CatchClause T E)}
    {hirBody : List (Hir.Statement T E)} {hirCatches : List (Hir.Catch T E)}
    (hbody : BlockLowered m fuel lowerer.enterTry catchDepth { context with
      handledThrows := catches.filterMap (caughtType hierarchy) :: context.handledThrows } body hirBody)
    (hcatches : CatchesLowered m fuel lowerer context lowerer.tryIndex catches hirCatches)
    (hraised : ∀ {handling}, Handling catchDepth context handling → ∀ {s exception t},
      m.execBlock fuel handling body 0 s = (.raised exception, t) → Raisable { context with
        handledThrows := catches.filterMap (caughtType hierarchy) :: context.handledThrows } exception) :
    StatementLowered m fuel lowerer catchDepth context (.tryStatement body catches)
      (.tryStatement lowerer.tryIndex lowerer.tryIndex hirBody (blockMayFallThrough body) hirCatches
        (blockDefinitelyReturns body && catchesDefinitelyReturn catches) lowerer.unmatchedTarget) where
  names := rfl
  never := fun _ ↦ by
    show (_ && Rust.blockNever (Codegen.handlers _ _ hirCatches)) =
      (blockDefinitelyReturns body && catchesDefinitelyReturn catches)
    by_cases hreturn : catchesDefinitelyReturn catches = true
    · rw [hcatches.never hreturn, Bool.and_true]
    · rw [Bool.not_eq_true] at hreturn
      rw [hreturn, Bool.and_false]
      rfl
  typed := by
    show (Rust.blockNever (.block (Codegen.block hirBody) :: _) &&
      (Rust.blockTyped (Codegen.block hirBody) && Rust.blockTyped (ite _ _ _)) &&
        Rust.blockTyped (Codegen.handlers _ _ hirCatches)) =
      ((blockMayFallThrough body || blockEndTyped body) && blockTyped body && catchesTyped catches)
    rw [hbody.typed, hcatches.typed]
    by_cases hthrough : blockMayFallThrough body = true
    · rw [hthrough, if_pos rfl]
      show (true && (blockTyped body && true) && _) = _
      rw [Bool.and_true, Bool.true_or]
    -- a body without a way through ends in a value of any type
    · rw [Bool.not_eq_true] at hthrough
      rw [hthrough]
      show (Rust.blockNever (Codegen.block hirBody) && (blockTyped body && true) && _) = _
      rw [hbody.never hthrough, Bool.and_true, Bool.false_or]
  runs := fun {errors handling} hsurroundings s ↦ by
    have hinner : Surroundings lowerer.enterTry catchDepth { context with
          handledThrows := catches.filterMap (caughtType hierarchy) :: context.handledThrows }
        errors handling :=
      ⟨fun _ hname ↦ (by cases hname), hsurroundings.handling.isSome, hsurroundings.handling.caught⟩
    exact m.run_tryStatement (hbody.runs hinner 0 s) fun exception t hexec ↦
      hcatches.runs (hraised hsurroundings.handling hexec) errors t

end Constructs

/-! ## 4. Every piece -/

section Pieces

omit [DecidableEq T] in
theorem lowerBlock_cons {first : Statement T E} (hfirst : first ≠ .empty) (rest : List (Statement T E))
    (lowerer : Lowerer) :
    Lowerer.lowerBlock (first :: rest) lowerer = (do
      let (first, lowerer) ← Lowerer.lowerStatement first lowerer
      let (rest, lowerer) ← Lowerer.lowerBlock rest lowerer
      pure (first :: rest, lowerer)) := by
  cases first with
  | empty => exact absurd rfl hfirst
  | _ => rfl

omit [DecidableEq T] in
theorem blockLowerable_cons {first : Statement T E} (hfirst : first ≠ .empty)
    (rest : List (Statement T E)) (caught : Bool) :
    blockLowerable caught (first :: rest) =
      (statementLowerable caught first && blockLowerable caught rest) := by
  cases first with
  | empty => exact absurd rfl hfirst
  | _ => rfl

omit [DecidableEq T] in
theorem Lowerer.Fits.pushLabel {lowerer : Lowerer} {loopDepth : Nat} {context : FunctionContext T}
    (h : lowerer.Fits loopDepth context) :
    (lowerer.nextLoop.pushLabel lowerer.loopIndex).Fits (loopDepth + 1) context :=
  ⟨fun _ hnil ↦ (by cases hnil), h.reachable, h.handled, h.declared⟩

omit [DecidableEq T] in
theorem Lowerer.Fits.enterTry {lowerer : Lowerer} {loopDepth : Nat} {context : FunctionContext T}
    (h : lowerer.Fits loopDepth context) (caught : List T) :
    lowerer.enterTry.Fits loopDepth
      { context with handledThrows := caught :: context.handledThrows } :=
  ⟨h.labels, fun htarget ↦ (by cases htarget), fun htarget ↦ (by cases htarget), h.declared⟩

omit [DecidableEq T] in
theorem Lowerer.Fits.handler {lowerer : Lowerer} {loopDepth : Nat} {context : FunctionContext T}
    (h : lowerer.Fits loopDepth context) (index : Nat) (caught : Option T) :
    (handlerLowerer lowerer index).Fits loopDepth { context with currentCatch := caught } :=
  ⟨h.labels, h.reachable, h.handled, h.declared⟩

omit [DecidableEq T] in
theorem Lowerer.SameFrame.nextLoop (lowerer : Lowerer) (label : Nat) :
    (lowerer.pushLabel label).SameFrame (lowerer.nextLoop.pushLabel label) := rfl

/-- The label of a loop is popped after its body. -/
theorem Lowerer.SameFrame.popLabel {lowerer after : Lowerer}
    (h : (lowerer.nextLoop.pushLabel lowerer.loopIndex).SameFrame after) :
    lowerer.SameFrame after.popLabel := by
  unfold SameFrame at *
  rw [h]
  rfl

/-- The target and the error name around a `try` are given back after its body. -/
theorem Lowerer.SameFrame.restored {lowerer after : Lowerer} (h : lowerer.enterTry.SameFrame after) :
    lowerer.SameFrame { after with
      exceptionTarget := lowerer.exceptionTarget, caughtError := lowerer.caughtError } := by
  unfold SameFrame at *
  rw [h]
  rfl

theorem Lowerer.SameFrame.caughtError {lowerer after : Lowerer} (h : lowerer.SameFrame after) :
    after.caughtError = lowerer.caughtError := by
  rw [show after = _ from h]

/-- The error name of a handler is given back after its body. -/
theorem Lowerer.SameFrame.handler {lowerer after : Lowerer} {index : Nat}
    (h : (handlerLowerer lowerer index).SameFrame after) :
    lowerer.SameFrame { after with caughtError := lowerer.caughtError } := by
  unfold SameFrame at *
  rw [h]
  rfl

omit [DecidableEq T] in
theorem lowerCatches_catchAll (index : Nat) (body : List (Statement T E))
    (rest : List (CatchClause T E)) (lowerer : Lowerer) :
    Lowerer.lowerCatches index (.mk none body :: rest) lowerer = (do
      let (body, after) ← Lowerer.lowerBlock body (handlerLowerer lowerer index)
      let (rest, last) ← Lowerer.lowerCatches index rest
        { after with caughtError := lowerer.caughtError }
      pure (.mk none body :: rest, last)) := rfl

omit [DecidableEq T] in
theorem lowerCatches_typed {index : Nat} {binding : CatchBinding T} {type : T}
    (htype : binding.type = some type) (body : List (Statement T E)) (rest : List (CatchClause T E))
    (lowerer : Lowerer) :
    Lowerer.lowerCatches index (.mk (some binding) body :: rest) lowerer = (do
      let (body, after) ← Lowerer.lowerBlock body (handlerLowerer lowerer index)
      let (rest, last) ← Lowerer.lowerCatches index rest
        { after with caughtError := lowerer.caughtError }
      pure (.mk (some (type, binding.name)) body :: rest, last)) := by
  rw [Lowerer.lowerCatches, htype]
  rfl

/-- An accepted handler names an exception struct. -/
theorem type_of_resolveCaughtTypes {earlier : List T} {binding : CatchBinding T}
    {body : List (Statement T E)} {rest : List (CatchClause T E)}
    (h : resolveCaughtTypes hierarchy earlier (.mk (some binding) body :: rest) = []) :
    ∃ type, binding.type = some type ∧
      resolveCaughtTypes hierarchy (earlier ++ [type]) rest = [] := by
  rw [resolveCaughtTypes] at h
  split at h
  · cases h
  · rename_i caught hcaught
    have htype : binding.type = some caught := (Option.filter_eq_some_iff.mp hcaught).1
    exact ⟨caught, htype, (List.append_eq_nil_iff.mp h).2⟩

variable (m : Machine hierarchy signatures V F σ) (fuel : Nat) {returnsVoid : Bool}

mutual

theorem lowerStatement_ok : ∀ (source : Statement T E) {lowerer : Lowerer}
    {loopDepth catchDepth : Nat} {context : FunctionContext T}, lowerer.Fits loopDepth context →
    validateStatement returnsVoid loopDepth catchDepth source = [] →
    resolveStatement hierarchy signatures context source = [] →
    statementLowerable lowerer.caughtError.isSome source = true →
      ∃ lowered after, Lowerer.lowerStatement source lowerer = .ok (lowered, after) ∧
        lowerer.SameFrame after ∧
        StatementLowered m fuel lowerer catchDepth context source lowered
  | .block statements, lowerer, _, _, _, hfits, hvalid, hresolved, hlowerable => by
      obtain ⟨lowered, after, hlower, hframe, hblock⟩ :=
        lowerBlock_ok statements hfits hvalid hresolved hlowerable
      exact ⟨_, after, by rw [Lowerer.lowerStatement, hlower]; rfl, hframe, .block hblock⟩
  | .localDeclaration name initializer, lowerer, _, _, _, _, _, _, _ =>
      ⟨_, _, rfl, .refl lowerer, .localDeclaration name initializer⟩
  | .returnStatement value, lowerer, _, _, _, _, _, _, _ =>
      ⟨_, _, rfl, .refl lowerer, .returnStatement value⟩
  | .throwStatement (some value), lowerer, _, _, _, hfits, _, _, _ =>
      ⟨_, _, rfl, .refl lowerer, .throwStatement hfits.reachable value⟩
  | .throwStatement none, lowerer, _, _, _, _, _, _, hlowerable => by
      obtain ⟨errorName, hcaught⟩ := Option.isSome_iff_exists.mp hlowerable
      exact ⟨_, _, by rw [Lowerer.lowerStatement, hcaught]; rfl, .refl lowerer, .rethrow hcaught⟩
  | .tryStatement body catches, lowerer, _, _, context, hfits, hvalid, hresolved, hlowerable => by
      rw [validateStatement, List.append_eq_nil_iff] at hvalid
      rw [resolveStatement, List.append_eq_nil_iff, List.append_eq_nil_iff] at hresolved
      rw [statementLowerable, Bool.and_eq_true] at hlowerable
      obtain ⟨hirBody, after, hlower, hframe, hbody⟩ := lowerBlock_ok body (hfits.enterTry _) hvalid.1
        hresolved.1.2 hlowerable.1
      -- the target and the caught error are put back before the clauses are lowered
      obtain ⟨hirCatches, last, hlower', hframe', hcatches⟩ := lowerCatches_ok lowerer.tryIndex catches
        (hframe.restored.fits hfits) hvalid.2 hresolved.1.1 hresolved.2 hlowerable.2
      refine ⟨_, last, ?_, hframe.restored.trans hframe',
        .tryStatement hbody (hcatches.of_frame hframe.restored) ?_⟩
      · rw [Lowerer.lowerStatement]
        show (do
          let (hirBody, after) ← Lowerer.lowerBlock body lowerer.enterTry
          _) = _
        rw [hlower]
        show (do
          let (hirCatches, last) ← Lowerer.lowerCatches lowerer.tryIndex catches
            { after with
              exceptionTarget := lowerer.exceptionTarget, caughtError := lowerer.caughtError }
          _) = _
        rw [hlower']
        rfl
      -- what leaves the body is an exception that the resolver has seen there
      · intro handling hhandling s exception t hexec
        have hinner : Handling _ { context with
            handledThrows := catches.filterMap (caughtType hierarchy) :: context.handledThrows } handling :=
          ⟨hhandling.isSome, hhandling.caught⟩
        have hallowed := m.execBlock_allowed fuel body 0 s hinner hvalid.1 hresolved.1.2
        rw [hexec] at hallowed
        exact hallowed
  | .ifStatement condition thenBranch none, lowerer, _, _, _, hfits, hvalid, hresolved, hlowerable => by
      rw [resolveStatement, List.append_eq_nil_iff] at hresolved
      obtain ⟨hirThen, after, hlower, hframe, hthen⟩ :=
        lowerStatement_ok thenBranch hfits hvalid hresolved.2 hlowerable
      exact ⟨_, after, by rw [Lowerer.lowerStatement, hlower]; rfl, hframe, .ifThen condition hthen⟩
  | .ifStatement condition thenBranch (some elseBranch), lowerer, _, _, _, hfits, hvalid, hresolved,
      hlowerable => by
      rw [validateStatement, List.append_eq_nil_iff] at hvalid
      rw [resolveStatement, List.append_eq_nil_iff, List.append_eq_nil_iff] at hresolved
      rw [statementLowerable, Bool.and_eq_true] at hlowerable
      obtain ⟨hirThen, middle, hlower, hframe, hthen⟩ :=
        lowerStatement_ok thenBranch hfits hvalid.1 hresolved.1.2 hlowerable.1
      obtain ⟨hirElse, after, hlower', hframe', helse⟩ :=
        lowerStatement_ok elseBranch (hframe.fits hfits) hvalid.2 hresolved.2
          (by rw [hframe.caughtError]; exact hlowerable.2)
      refine ⟨_, after, ?_, hframe.trans hframe', .ifElse condition hthen (helse.of_frame hframe)⟩
      rw [Lowerer.lowerStatement, hlower]
      show (do
        let (elseBranch, after) ← Lowerer.lowerStatement elseBranch middle
        _) = _
      rw [hlower']
      rfl
  | .whileStatement condition body, lowerer, _, _, _, hfits, hvalid, hresolved, hlowerable => by
      rw [resolveStatement, List.append_eq_nil_iff] at hresolved
      obtain ⟨hirBody, after, hlower, hframe, hbody⟩ :=
        lowerStatement_ok body hfits.pushLabel hvalid hresolved.2 hlowerable
      refine ⟨_, after.popLabel, ?_, hframe.popLabel,
        .whileStatement lowerer.loopIndex condition (hbody.of_frame (.nextLoop lowerer _))⟩
      rw [Lowerer.lowerStatement, hlower]
      rfl
  | .classicFor initializer condition update body, lowerer, _, _, _, hfits, hvalid, hresolved,
      hlowerable => by
      rw [resolveStatement, List.append_eq_nil_iff] at hresolved
      obtain ⟨hirBody, after, hlower, hframe, hbody⟩ :=
        lowerStatement_ok body hfits.pushLabel hvalid hresolved.2 hlowerable
      refine ⟨_, after.popLabel, ?_, hframe.popLabel,
        .classicFor lowerer.loopIndex initializer condition update (hbody.of_frame (.nextLoop lowerer _))⟩
      rw [Lowerer.lowerStatement, hlower]
      rfl
  | .rangeFor bindings iterable body, lowerer, _, _, _, hfits, hvalid, hresolved, hlowerable => by
      rw [resolveStatement, List.append_eq_nil_iff] at hresolved
      obtain ⟨hirBody, after, hlower, hframe, hbody⟩ :=
        lowerStatement_ok body hfits.pushLabel hvalid hresolved.2 hlowerable
      refine ⟨_, after.popLabel, ?_, hframe.popLabel,
        .rangeFor lowerer.loopIndex bindings iterable (hbody.of_frame (.nextLoop lowerer _))⟩
      rw [Lowerer.lowerStatement, hlower]
      rfl
  | .breakStatement, lowerer, loopDepth, _, _, hfits, hvalid, _, _ => by
      -- the validator lets a jump stand in a loop only, and there a label is open
      have hdepth : loopDepth ≠ 0 := fun hzero ↦ by
        rw [validateStatement, if_pos hzero] at hvalid
        cases hvalid
      cases hlabels : lowerer.loopLabels with
      | nil => exact absurd hlabels (hfits.labels hdepth)
      | cons label rest =>
          exact ⟨_, lowerer, by rw [Lowerer.lowerStatement, Lowerer.lowerLoopJump, hlabels],
            .refl lowerer, .breakStatement hlabels⟩
  | .continueStatement, lowerer, loopDepth, _, _, hfits, hvalid, _, _ => by
      have hdepth : loopDepth ≠ 0 := fun hzero ↦ by
        rw [validateStatement, if_pos hzero] at hvalid
        cases hvalid
      cases hlabels : lowerer.loopLabels with
      | nil => exact absurd hlabels (hfits.labels hdepth)
      | cons label rest =>
          exact ⟨_, lowerer, by rw [Lowerer.lowerStatement, Lowerer.lowerLoopJump, hlabels],
            .refl lowerer, .continueStatement hlabels⟩
  | .expression expression, lowerer, _, _, _, _, _, _, _ =>
      ⟨_, _, rfl, .refl lowerer, .expression expression⟩

theorem lowerBlock_ok : ∀ (source : List (Statement T E)) {lowerer : Lowerer}
    {loopDepth catchDepth : Nat} {context : FunctionContext T}, lowerer.Fits loopDepth context →
    validateBlock returnsVoid loopDepth catchDepth source = [] →
    resolveBlock hierarchy signatures context source = [] →
    blockLowerable lowerer.caughtError.isSome source = true →
      ∃ lowered after, Lowerer.lowerBlock source lowerer = .ok (lowered, after) ∧
        lowerer.SameFrame after ∧ BlockLowered m fuel lowerer catchDepth context source lowered
  | [], lowerer, _, _, _, _, _, _, _ => ⟨_, _, rfl, .refl lowerer, .empty⟩
  | first :: rest, lowerer, _, _, _, hfits, hvalid, hresolved, hlowerable => by
      rw [validateBlock, List.append_eq_nil_iff] at hvalid
      rw [resolveBlock, List.append_eq_nil_iff] at hresolved
      by_cases hempty : first = .empty
      · rw [hempty] at hlowerable ⊢
        obtain ⟨lowered, after, hlower, hframe, hrest⟩ :=
          lowerBlock_ok rest hfits hvalid.2 hresolved.2 hlowerable
        exact ⟨lowered, after, hlower, hframe, hrest.skip⟩
      · rw [blockLowerable_cons hempty, Bool.and_eq_true] at hlowerable
        obtain ⟨hirFirst, middle, hlower, hframe, hfirst⟩ :=
          lowerStatement_ok first hfits hvalid.1 hresolved.1 hlowerable.1
        obtain ⟨hirRest, after, hlower', hframe', hrest⟩ :=
          lowerBlock_ok rest (hframe.fits hfits) hvalid.2 hresolved.2
            (by rw [hframe.caughtError]; exact hlowerable.2)
        refine ⟨_, after, ?_, hframe.trans hframe', .cons hfirst (hrest.of_frame hframe)⟩
        rw [lowerBlock_cons hempty, hlower]
        show (do
          let (rest, after) ← Lowerer.lowerBlock rest middle
          _) = _
        rw [hlower']
        rfl

theorem lowerCatches_ok (index : Nat) : ∀ (source : List (CatchClause T E)) {lowerer : Lowerer}
    {loopDepth catchDepth : Nat} {context : FunctionContext T} {earlier : List T},
    lowerer.Fits loopDepth context →
    validateCatches returnsVoid loopDepth catchDepth source = [] →
    resolveCaughtTypes hierarchy earlier source = [] →
    resolveCatches hierarchy signatures context source = [] →
    catchesLowerable source = true →
      ∃ lowered after, Lowerer.lowerCatches index source lowerer = .ok (lowered, after) ∧
        lowerer.SameFrame after ∧ CatchesLowered m fuel lowerer context index source lowered
  | [], lowerer, _, _, _, _, hfits, _, _, _, _ => ⟨_, _, rfl, .refl lowerer, .empty hfits index⟩
  | .mk none body :: rest, lowerer, _, _, _, _, hfits, hvalid, _, hresolved, hlowerable => by
      rw [validateCatches, List.append_eq_nil_iff, List.append_eq_nil_iff] at hvalid
      rw [resolveCatches, List.append_eq_nil_iff] at hresolved
      rw [catchesLowerable, Bool.and_eq_true] at hlowerable
      obtain ⟨hirBody, after, hlower, hframe, hbody⟩ := lowerBlock_ok body (hfits.handler index _)
        hvalid.1.2 hresolved.1 hlowerable.1
      -- `catch (...)` is the last handler
      have hlast : rest = [] := by
        by_contra hrest
        have hcheck := hvalid.1.1
        simp [hrest] at hcheck
      rw [hlast]
      refine ⟨[.mk none hirBody], _, ?_, hframe.handler, .catchAll hbody⟩
      rw [lowerCatches_catchAll, hlower]
      rfl
  | .mk (some binding) body :: rest, lowerer, _, _, _, _, hfits, hvalid, htypes, hresolved,
      hlowerable => by
      rw [validateCatches, List.append_eq_nil_iff, List.append_eq_nil_iff] at hvalid
      rw [resolveCatches, List.append_eq_nil_iff] at hresolved
      rw [catchesLowerable, Bool.and_eq_true] at hlowerable
      obtain ⟨type, htype, hrestTypes⟩ := type_of_resolveCaughtTypes htypes
      obtain ⟨hirBody, after, hlower, hframe, hbody⟩ := lowerBlock_ok body (hfits.handler index _)
        hvalid.1.2 hresolved.1 hlowerable.1
      obtain ⟨hirRest, last, hlower', hframe', hrest⟩ := lowerCatches_ok index rest
        (hframe.handler.fits hfits) hvalid.2 hrestTypes hresolved.2 hlowerable.2
      refine ⟨_, last, ?_, hframe.handler.trans hframe',
        .typedCatch htype hbody (hrest.of_frame hframe.handler)⟩
      rw [lowerCatches_typed htype, hlower]
      show (do
        let (rest, last) ← Lowerer.lowerCatches index rest
          { after with caughtError := lowerer.caughtError }
        _) = _
      rw [hlower']
      rfl

end

include m fuel

mutual

/-- A piece that lowers to nothing leaves nothing of the statement, and no diagnostic. -/
theorem lowerStatement_none : ∀ (source : Statement T E) {lowerer : Lowerer}
    {loopDepth catchDepth : Nat} {context : FunctionContext T}, lowerer.Fits loopDepth context →
    validateStatement returnsVoid loopDepth catchDepth source = [] →
    resolveStatement hierarchy signatures context source = [] →
    statementLowerable lowerer.caughtError.isSome source = false →
      Lowerer.lowerStatement source lowerer = .error none
  | .empty, _, _, _, _, _, _, _, _ => rfl
  | .throwStatement none, lowerer, _, _, _, _, _, _, hlowerable => by
      rw [statementLowerable, Option.isSome_eq_false_iff, Option.isNone_iff_eq_none] at hlowerable
      rw [Lowerer.lowerStatement, hlowerable]
      rfl
  | .block statements, _, _, _, _, hfits, hvalid, hresolved, hlowerable => by
      rw [Lowerer.lowerStatement, lowerBlock_none statements hfits hvalid hresolved hlowerable]
      rfl
  | .tryStatement body catches, lowerer, _, _, _, hfits, hvalid, hresolved, hlowerable => by
      rw [validateStatement, List.append_eq_nil_iff] at hvalid
      rw [resolveStatement, List.append_eq_nil_iff, List.append_eq_nil_iff] at hresolved
      rw [statementLowerable, Bool.and_eq_false_iff] at hlowerable
      rw [Lowerer.lowerStatement]
      show (do
        let (hirBody, after) ← Lowerer.lowerBlock body lowerer.enterTry
        _) = _
      -- either the body cannot be lowered, or one of the clauses behind it
      by_cases hbody : blockLowerable false body = true
      · obtain ⟨hirBody, after, hlower, hframe, _⟩ := lowerBlock_ok m fuel body (hfits.enterTry _)
          hvalid.1 hresolved.1.2 hbody
        rw [hlower]
        show (do
          let (hirCatches, last) ← Lowerer.lowerCatches lowerer.tryIndex catches
            { after with
              exceptionTarget := lowerer.exceptionTarget, caughtError := lowerer.caughtError }
          _) = _
        rw [lowerCatches_none lowerer.tryIndex catches (hframe.restored.fits hfits) hvalid.2
          hresolved.1.1 hresolved.2 (hlowerable.resolve_left (by rw [hbody]; simp))]
        rfl
      · rw [lowerBlock_none body (hfits.enterTry _) hvalid.1 hresolved.1.2 (Bool.eq_false_iff.mpr hbody)]
        rfl
  | .ifStatement _ thenBranch none, _, _, _, _, hfits, hvalid, hresolved, hlowerable => by
      rw [resolveStatement, List.append_eq_nil_iff] at hresolved
      rw [Lowerer.lowerStatement, lowerStatement_none thenBranch hfits hvalid hresolved.2 hlowerable]
      rfl
  | .ifStatement _ thenBranch (some elseBranch), lowerer, _, _, _, hfits, hvalid, hresolved,
      hlowerable => by
      rw [validateStatement, List.append_eq_nil_iff] at hvalid
      rw [resolveStatement, List.append_eq_nil_iff, List.append_eq_nil_iff] at hresolved
      rw [statementLowerable, Bool.and_eq_false_iff] at hlowerable
      rw [Lowerer.lowerStatement]
      -- the second branch is looked at only where the first one is lowered
      by_cases hthen : statementLowerable lowerer.caughtError.isSome thenBranch = true
      · obtain ⟨hirThen, middle, hlower, hframe, _⟩ :=
          lowerStatement_ok m fuel thenBranch hfits hvalid.1 hresolved.1.2 hthen
        rw [hlower]
        show (do
          let (elseBranch, after) ← Lowerer.lowerStatement elseBranch middle
          _) = _
        rw [lowerStatement_none elseBranch (hframe.fits hfits) hvalid.2 hresolved.2 (by
          rw [hframe.caughtError]
          exact hlowerable.resolve_left (by rw [hthen]; simp))]
        rfl
      · rw [lowerStatement_none thenBranch hfits hvalid.1 hresolved.1.2 (Bool.eq_false_iff.mpr hthen)]
        rfl
  | .whileStatement _ body, _, _, _, _, hfits, hvalid, hresolved, hlowerable => by
      rw [resolveStatement, List.append_eq_nil_iff] at hresolved
      rw [Lowerer.lowerStatement, lowerStatement_none body hfits.pushLabel hvalid hresolved.2 hlowerable]
      rfl
  | .classicFor _ _ _ body, _, _, _, _, hfits, hvalid, hresolved, hlowerable => by
      rw [resolveStatement, List.append_eq_nil_iff] at hresolved
      rw [Lowerer.lowerStatement, lowerStatement_none body hfits.pushLabel hvalid hresolved.2 hlowerable]
      rfl
  | .rangeFor _ _ body, _, _, _, _, hfits, hvalid, hresolved, hlowerable => by
      rw [resolveStatement, List.append_eq_nil_iff] at hresolved
      rw [Lowerer.lowerStatement, lowerStatement_none body hfits.pushLabel hvalid hresolved.2 hlowerable]
      rfl

theorem lowerBlock_none : ∀ (source : List (Statement T E)) {lowerer : Lowerer}
    {loopDepth catchDepth : Nat} {context : FunctionContext T}, lowerer.Fits loopDepth context →
    validateBlock returnsVoid loopDepth catchDepth source = [] →
    resolveBlock hierarchy signatures context source = [] →
    blockLowerable lowerer.caughtError.isSome source = false →
      Lowerer.lowerBlock source lowerer = .error none
  | first :: rest, lowerer, _, _, _, hfits, hvalid, hresolved, hlowerable => by
      rw [validateBlock, List.append_eq_nil_iff] at hvalid
      rw [resolveBlock, List.append_eq_nil_iff] at hresolved
      by_cases hempty : first = .empty
      · rw [hempty] at hlowerable ⊢
        exact lowerBlock_none rest hfits hvalid.2 hresolved.2 hlowerable
      · rw [blockLowerable_cons hempty, Bool.and_eq_false_iff] at hlowerable
        rw [lowerBlock_cons hempty]
        by_cases hfirst : statementLowerable lowerer.caughtError.isSome first = true
        · obtain ⟨hirFirst, middle, hlower, hframe, _⟩ :=
            lowerStatement_ok m fuel first hfits hvalid.1 hresolved.1 hfirst
          rw [hlower]
          show (do
            let (rest, after) ← Lowerer.lowerBlock rest middle
            _) = _
          rw [lowerBlock_none rest (hframe.fits hfits) hvalid.2 hresolved.2 (by
            rw [hframe.caughtError]
            exact hlowerable.resolve_left (by rw [hfirst]; simp))]
          rfl
        · rw [lowerStatement_none first hfits hvalid.1 hresolved.1 (Bool.eq_false_iff.mpr hfirst)]
          rfl

theorem lowerCatches_none (index : Nat) : ∀ (source : List (CatchClause T E)) {lowerer : Lowerer}
    {loopDepth catchDepth : Nat} {context : FunctionContext T} {earlier : List T},
    lowerer.Fits loopDepth context →
    validateCatches returnsVoid loopDepth catchDepth source = [] →
    resolveCaughtTypes hierarchy earlier source = [] →
    resolveCatches hierarchy signatures context source = [] →
    catchesLowerable source = false → Lowerer.lowerCatches index source lowerer = .error none
  | .mk none body :: rest, lowerer, _, _, _, _, hfits, hvalid, htypes, hresolved, hlowerable => by
      rw [validateCatches, List.append_eq_nil_iff, List.append_eq_nil_iff] at hvalid
      rw [resolveCatches, List.append_eq_nil_iff] at hresolved
      rw [resolveCaughtTypes] at htypes
      rw [catchesLowerable, Bool.and_eq_false_iff] at hlowerable
      rw [lowerCatches_catchAll]
      -- either the clause itself cannot be lowered, or a later one
      by_cases hbody : blockLowerable true body = true
      · obtain ⟨hirBody, after, hlower, hframe, _⟩ := lowerBlock_ok m fuel body
          (hfits.handler index _) hvalid.1.2 hresolved.1 hbody
        rw [hlower]
        show (do
          let (rest, last) ← Lowerer.lowerCatches index rest
            { after with caughtError := lowerer.caughtError }
          _) = _
        rw [lowerCatches_none index rest (hframe.handler.fits hfits) hvalid.2
          (List.append_eq_nil_iff.mp htypes).2 hresolved.2
          (hlowerable.resolve_left (by rw [hbody]; simp))]
        rfl
      · rw [lowerBlock_none body (hfits.handler index _) hvalid.1.2 hresolved.1 (Bool.eq_false_iff.mpr hbody)]
        rfl
  | .mk (some binding) body :: rest, lowerer, _, _, _, _, hfits, hvalid, htypes, hresolved,
      hlowerable => by
      rw [validateCatches, List.append_eq_nil_iff, List.append_eq_nil_iff] at hvalid
      rw [resolveCatches, List.append_eq_nil_iff] at hresolved
      rw [catchesLowerable, Bool.and_eq_false_iff] at hlowerable
      obtain ⟨type, htype, hrestTypes⟩ := type_of_resolveCaughtTypes htypes
      rw [lowerCatches_typed htype]
      by_cases hbody : blockLowerable true body = true
      · obtain ⟨hirBody, after, hlower, hframe, _⟩ := lowerBlock_ok m fuel body
          (hfits.handler index _) hvalid.1.2 hresolved.1 hbody
        rw [hlower]
        show (do
          let (rest, last) ← Lowerer.lowerCatches index rest
            { after with caughtError := lowerer.caughtError }
          _) = _
        rw [lowerCatches_none index rest (hframe.handler.fits hfits) hvalid.2 hrestTypes hresolved.2
          (hlowerable.resolve_left (by rw [hbody]; simp))]
        rfl
      · rw [lowerBlock_none body (hfits.handler index _) hvalid.1.2 hresolved.1 (Bool.eq_false_iff.mpr hbody)]
        rfl

end

end Pieces

end Stainless.Compiler
