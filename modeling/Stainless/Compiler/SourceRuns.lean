import Stainless.Compiler.ControlFlow
import Stainless.Reasoning.Passes

/-!
# Runs of a body

The meaning of the statements in source terms.  A machine says what expressions and declarations do to
the store; a run is bounded in the passes of each loop, and keeps the store where it meets the bound.
-/

open Reasoning

namespace Stainless.Compiler

variable {T E V F σ : Type} [DecidableEq T]

/-! ## 1. Machines -/

/-- What the parts of a body that are no control flow do. -/
structure Machine (hierarchy : ExceptionHierarchy T) (signatures : Signatures T E) (V F σ : Type) where
  evaluate : E → σ → Except (ExceptionObject hierarchy F) V × σ
  /-- The value as a condition. -/
  truth : V → Bool
  /-- The allocation of a thrown value. -/
  newException : E → V → ExceptionObject hierarchy F
  /-- The next element of a range, bound to the names, and the rest of the range. -/
  advance : List String → V → σ → Option (V × σ)
  declare : String → V → σ → σ
  /-- Binds the name of a handler to a part of the exception. -/
  declareCaught : String → List (T × F) → σ → σ
  /-- Makes the object under construction the receiver. -/
  construct : V → σ → σ
  /-- The end of the scope of the last `n` names. -/
  leave : Nat → σ → σ
  leave_zero : ∀ s, leave 0 s = s
  /-- A call raises what its callee declares, or what is derived from that. -/
  evaluate_declared : ∀ {e s exception}, (evaluate e s).1 = .error exception →
    ∃ declared ∈ signatures.effects e, hierarchy.exceptionCovers declared exception.type = true
  newException_type : ∀ {e v type}, signatures.structType e = some type →
    (newException e v).type = type

/-- How a statement ends. -/
inductive Flow (V X : Type)
  | normal
  | broke
  | continued
  | returned (value : Option V)
  | raised (exception : X)
  /-- A bare `throw;` without a handled exception. -/
  | stuck
  /-- A loop met the bound on its passes. -/
  | exhausted

variable {X : Type}

/-- What follows the evaluation of an expression, where it gives a value. -/
def Flow.after (result : Except X V × σ) (next : V → σ → Flow V X × σ) : Flow V X × σ :=
  match result with
  | (.ok v, t) => next v t
  | (.error exception, t) => (.raised exception, t)

theorem Flow.after_rule {P : Flow V X → Prop} {result : Except X V × σ}
    {next : V → σ → Flow V X × σ} (hok : ∀ v t, result = (.ok v, t) → P (next v t).1)
    (herror : ∀ exception t, result = (.error exception, t) → P (.raised exception)) :
    P (Flow.after result next).1 := by
  obtain ⟨value, t⟩ := result
  cases value with
  | ok v => exact hok v t rfl
  | error exception => exact herror exception t rfl

/-- The end of the body of a loop. -/
def Flow.endsPass {α : Type} (state : σ → α) : Flow V X × σ → Pass α (Flow V X × σ)
  | (.normal, t) => .again (state t)
  | (.continued, t) => .again (state t)
  | (.broke, t) => .done (.normal, t)
  | (flow, t) => .done (flow, t)

/-- The names that a statement adds to its scope. -/
def Statement.localNames : Statement T E → Nat
  | .localDeclaration _ _ => 1
  | _ => 0

namespace Machine

variable {hierarchy : ExceptionHierarchy T} {signatures : Signatures T E}
variable (m : Machine hierarchy signatures V F σ)

/-! ## 2. Statements -/

def leaving (names : Nat) (result : Flow V (ExceptionObject hierarchy F) × σ) :
    Flow V (ExceptionObject hierarchy F) × σ :=
  (result.1, m.leave names result.2)

/-- A statement that stands for a block of its own. -/
def inScope (statement : Statement T E) :
    Flow V (ExceptionObject hierarchy F) × σ → Flow V (ExceptionObject hierarchy F) × σ
  | (.normal, t) => (.normal, m.leave statement.localNames t)
  | result => result

theorem inScope_ne_normal {statement : Statement T E}
    {result : Flow V (ExceptionObject hierarchy F) × σ} (h : result.1 ≠ .normal) :
    (m.inScope statement result).1 ≠ .normal := by
  unfold inScope
  split
  · exact absurd rfl h
  · exact h

/-- One pass of a loop from its condition on. -/
def checked (condition : Option E) (body : σ → Flow V (ExceptionObject hierarchy F) × σ) (s : σ) :
    Pass σ (Flow V (ExceptionObject hierarchy F) × σ) :=
  match condition with
  | none => Flow.endsPass id (body s)
  | some condition =>
      match m.evaluate condition s with
      | (.error exception, t) => .done (.raised exception, t)
      | (.ok v, t) => if m.truth v then Flow.endsPass id (body t) else .done (.normal, t)

/-- One pass of a classic `for` that is not the first. -/
def updated (update : Option E) (pass : σ → Pass σ (Flow V (ExceptionObject hierarchy F) × σ)) (s : σ) :
    Pass σ (Flow V (ExceptionObject hierarchy F) × σ) :=
  match update with
  | none => pass s
  | some update =>
      match m.evaluate update s with
      | (.error exception, t) => .done (.raised exception, t)
      | (.ok _, t) => pass t

def rangePass (bindings : List String) (body : σ → Flow V (ExceptionObject hierarchy F) × σ) :
    V × σ → Pass (V × σ) (Flow V (ExceptionObject hierarchy F) × σ)
  | (range, s) =>
      match m.advance bindings range s with
      | none => .done (.normal, s)
      | some (rest, t) => Flow.endsPass (Prod.mk rest) (m.leaving bindings.length (body t))

/-- The store in which a typed handler runs; `none` when it is not for this exception. -/
def catchStore (binding : CatchBinding T) (exception : ExceptionObject hierarchy F) (s : σ) :
    Option σ :=
  match binding.type with
  | none => none
  | some type =>
      if hierarchy.exceptionCovers type exception.type
      then some (m.declareCaught binding.name (exception.basePart type) s) else none

mutual

/-- `handling` is the exception of the innermost enclosing handler. -/
def exec (fuel : Nat) (handling : Option (ExceptionObject hierarchy F)) :
    Statement T E → σ → Flow V (ExceptionObject hierarchy F) × σ
  | .block statements, s => execBlock fuel handling statements 0 s
  | .localDeclaration name initializer, s =>
      Flow.after (m.evaluate initializer s) fun v t ↦ (.normal, m.declare name v t)
  | .returnStatement none, s => (.returned none, s)
  | .returnStatement (some value), s =>
      Flow.after (m.evaluate value s) fun v t ↦ (.returned (some v), t)
  | .throwStatement none, s =>
      match handling with
      | none => (.stuck, s)
      | some exception => (.raised exception, s)
  | .throwStatement (some value), s =>
      Flow.after (m.evaluate value s) fun v t ↦ (.raised (m.newException value v), t)
  | .tryStatement body catches, s =>
      match execBlock fuel handling body 0 s with
      | (.raised exception, t) => execCatches fuel catches exception t
      | result => result
  | .ifStatement condition thenBranch none, s =>
      Flow.after (m.evaluate condition s) fun v t ↦
        if m.truth v then m.inScope thenBranch (exec fuel handling thenBranch t) else (.normal, t)
  | .ifStatement condition thenBranch (some elseBranch), s =>
      Flow.after (m.evaluate condition s) fun v t ↦
        if m.truth v then m.inScope thenBranch (exec fuel handling thenBranch t)
        else m.inScope elseBranch (exec fuel handling elseBranch t)
  | .whileStatement condition body, s =>
      repeatPasses (m.checked (some condition) fun t ↦ m.inScope body (exec fuel handling body t))
        (Prod.mk .exhausted) fuel s
  | .classicFor initializer condition update body, s =>
      let pass := m.checked condition fun t ↦ m.inScope body (exec fuel handling body t)
      let loop := repeatAfter pass (m.updated update pass) (Prod.mk .exhausted) fuel
      match initializer with
      | none => loop s
      | some (.localDeclaration name initializer) =>
          Flow.after (m.evaluate initializer s) fun v t ↦ m.leaving 1 (loop (m.declare name v t))
      | some (.expression expression) => Flow.after (m.evaluate expression s) fun _ t ↦ loop t
  | .rangeFor bindings iterable body, s =>
      Flow.after (m.evaluate iterable s) fun range t ↦
        repeatPasses (m.rangePass bindings fun u ↦ m.inScope body (exec fuel handling body u))
          (fun state ↦ (.exhausted, state.2)) fuel (range, t)
  | .breakStatement, s => (.broke, s)
  | .continueStatement, s => (.continued, s)
  | .expression expression, s => Flow.after (m.evaluate expression s) fun _ t ↦ (.normal, t)
  | .empty, s => (.normal, s)

/-- `names` counts the names of this block so far. -/
def execBlock (fuel : Nat) (handling : Option (ExceptionObject hierarchy F)) :
    List (Statement T E) → Nat → σ → Flow V (ExceptionObject hierarchy F) × σ
  | [], names, s => (.normal, m.leave names s)
  | statement :: rest, names, s =>
      match exec fuel handling statement s with
      | (.normal, t) => execBlock fuel handling rest (names + statement.localNames) t
      | (flow, t) => (flow, m.leave names t)

/-- The first handler for the exception, in source order. -/
def execCatches (fuel : Nat) :
    List (CatchClause T E) → ExceptionObject hierarchy F → σ →
      Flow V (ExceptionObject hierarchy F) × σ
  | [], exception, s => (.raised exception, s)
  | .mk none body :: _, exception, s => execBlock fuel (some exception) body 0 s
  | .mk (some binding) body :: rest, exception, s =>
      match m.catchStore binding exception s with
      | some t => m.leaving 1 (execBlock fuel (some exception) body 0 t)
      | none => execCatches fuel rest exception s

end

/-! ## 3. What does not fall through -/

mutual

theorem exec_ne_normal (fuel : Nat) : ∀ (statement : Statement T E)
    (handling : Option (ExceptionObject hierarchy F)) (s : σ),
    statementMayFallThrough statement = false → (m.exec fuel handling statement s).1 ≠ .normal
  | .returnStatement none, handling, s, _ => by simp [exec]
  | .returnStatement (some value), handling, s, _ => by
      rw [exec]
      exact Flow.after_rule (P := (· ≠ .normal)) (by simp) (by simp)
  | .throwStatement none, handling, s, _ => by
      cases handling <;> simp [exec]
  | .throwStatement (some value), handling, s, _ => by
      rw [exec]
      exact Flow.after_rule (P := (· ≠ .normal)) (by simp) (by simp)
  | .breakStatement, handling, s, _ => by simp [exec]
  | .continueStatement, handling, s, _ => by simp [exec]
  | .block statements, handling, s, h => execBlock_ne_normal fuel statements handling 0 s h
  | .ifStatement condition thenBranch (some elseBranch), handling, s, h => by
      rw [statementMayFallThrough, Bool.or_eq_false_iff] at h
      rw [exec]
      apply Flow.after_rule (P := (· ≠ .normal))
      · intro v t _
        split
        · exact inScope_ne_normal m (exec_ne_normal fuel thenBranch handling t h.1)
        · exact inScope_ne_normal m (exec_ne_normal fuel elseBranch handling t h.2)
      · simp
  | .tryStatement body catches, handling, s, h => by
      rw [statementMayFallThrough, Bool.or_eq_false_iff] at h
      rw [exec]
      split
      · rename_i exception t _
        exact execCatches_ne_normal fuel catches exception t h.2
      · exact execBlock_ne_normal fuel body handling 0 s h.1

theorem execBlock_ne_normal (fuel : Nat) : ∀ (statements : List (Statement T E))
    (handling : Option (ExceptionObject hierarchy F)) (names : Nat) (s : σ),
    blockMayFallThrough statements = false →
      (m.execBlock fuel handling statements names s).1 ≠ .normal
  | [statement], handling, names, s, h => by
      have hstatement := exec_ne_normal fuel statement handling s h
      rw [execBlock]
      split
      · rename_i t hnormal
        exact absurd (by rw [hnormal]) hstatement
      · rename_i flow t hne hflow
        intro hnormal
        rw [hflow] at hstatement
        exact hstatement hnormal
  | first :: statement :: rest, handling, names, s, h => by
      rw [execBlock]
      split
      · exact execBlock_ne_normal fuel (statement :: rest) handling _ _ h
      · rename_i flow t hne hflow
        exact hne

theorem execCatches_ne_normal (fuel : Nat) : ∀ (catches : List (CatchClause T E))
    (exception : ExceptionObject hierarchy F) (s : σ), catchesMayFallThrough catches = false →
      (m.execCatches fuel catches exception s).1 ≠ .normal
  | [], exception, s, _ => by simp [execCatches]
  | .mk none body :: rest, exception, s, h => by
      rw [catchesMayFallThrough, Bool.or_eq_false_iff] at h
      exact execBlock_ne_normal fuel body _ 0 s h.1
  | .mk (some binding) body :: rest, exception, s, h => by
      rw [catchesMayFallThrough, Bool.or_eq_false_iff] at h
      rw [execCatches]
      split
      · rename_i t _
        exact execBlock_ne_normal fuel body _ 0 t h.1
      · exact execCatches_ne_normal fuel rest exception s h.2

end

/-! ## 4. How accepted statements end -/

end Machine

section Allowed

variable {hierarchy : ExceptionHierarchy T} {signatures : Signatures T E}

/-- The exception has a handler around the statement, or the function declares it. -/
def Raisable (context : FunctionContext T) (exception : ExceptionObject hierarchy F) : Prop :=
  handles hierarchy context exception.type = true ∨ declares hierarchy context exception.type = true

/-- The ends that the checks leave to a statement. -/
def Allowed (loopDepth : Nat) (context : FunctionContext T) :
    Flow V (ExceptionObject hierarchy F) → Prop
  | .normal | .returned _ | .exhausted => True
  | .broke | .continued => loopDepth ≠ 0
  | .raised exception => Raisable context exception
  | .stuck => False

/-- What a handler catches is of no concern to what surrounds it. -/
theorem Allowed.of_currentCatch {loopDepth : Nat} {context : FunctionContext T} {caught : Option T}
    {flow : Flow V (ExceptionObject hierarchy F)}
    (h : Allowed loopDepth { context with currentCatch := caught } flow) :
    Allowed loopDepth context flow := by
  cases flow <;> exact h

/-- The handled exception, as the checks see it. -/
structure Handling (catchDepth : Nat) (context : FunctionContext T)
    (handling : Option (ExceptionObject hierarchy F)) : Prop where
  isSome : catchDepth ≠ 0 → handling.isSome = true
  caught : ∀ {exception}, handling = some exception →
    ∃ type, context.currentCatch = some type ∧
      hierarchy.exceptionCovers type exception.type = true

theorem raisable_of_checked {context : FunctionContext T} {exception : ExceptionObject hierarchy F}
    {thrown : T} (hchecked : validateCheckedEffect hierarchy context thrown = [])
    (hthrown : hierarchy.exceptionCovers thrown exception.type = true) :
    Raisable context exception := by
  have hcovered : handles hierarchy context thrown = true ∨ declares hierarchy context thrown = true := by
    by_cases hhandled : handles hierarchy context thrown = true
    · exact .inl hhandled
    · right
      by_contra hdeclared
      simp [validateCheckedEffect, hhandled, hdeclared] at hchecked
  cases hcovered with
  | inl hhandled =>
      simp only [handles, List.any_eq_true] at hhandled
      obtain ⟨catches, hcatches, caught, hmem, hcovers⟩ := hhandled
      left
      simp only [handles, List.any_eq_true]
      exact ⟨catches, hcatches, caught, hmem, hierarchy.exceptionCovers_trans hthrown hcovers⟩
  | inr hdeclared =>
      simp only [declares, List.any_eq_true] at hdeclared
      obtain ⟨allowed, hmem, hcovers⟩ := hdeclared
      right
      simp only [declares, List.any_eq_true]
      exact ⟨allowed, hmem, hierarchy.exceptionCovers_trans hthrown hcovers⟩

namespace Machine

variable (m : Machine hierarchy signatures V F σ)

theorem raisable_of_evaluate {context : FunctionContext T} {e : E} {s t : σ}
    {exception : ExceptionObject hierarchy F}
    (hresolved : resolveExpression hierarchy signatures context e = [])
    (heval : m.evaluate e s = (.error exception, t)) : Raisable context exception := by
  obtain ⟨declared, hmem, hcovers⟩ := m.evaluate_declared (e := e) (s := s) (by rw [heval])
  refine raisable_of_checked ?_ hcovers
  exact List.flatMap_eq_nil_iff.mp hresolved declared hmem

theorem after_allowed {loopDepth : Nat} {context : FunctionContext T} {e : E} {s : σ}
    {next : V → σ → Flow V (ExceptionObject hierarchy F) × σ}
    (hresolved : resolveExpression hierarchy signatures context e = [])
    (hnext : ∀ v t, Allowed loopDepth context (next v t).1) :
    Allowed loopDepth context (Flow.after (m.evaluate e s) next).1 := by
  apply Flow.after_rule (P := Allowed loopDepth context)
  · exact fun v t _ ↦ hnext v t
  · exact fun exception t heval ↦ m.raisable_of_evaluate hresolved heval

theorem inScope_allowed {loopDepth : Nat} {context : FunctionContext T} {statement : Statement T E}
    {result : Flow V (ExceptionObject hierarchy F) × σ} (h : Allowed loopDepth context result.1) :
    Allowed loopDepth context (m.inScope statement result).1 := by
  unfold inScope
  split
  · trivial
  · exact h

/-- A loop takes `break` and `continue` from its body, and nothing else. -/
theorem endsPass_allowed {α : Type} {loopDepth : Nat} {context : FunctionContext T} {state : σ → α}
    {result b : Flow V (ExceptionObject hierarchy F) × σ}
    (hresult : Allowed (loopDepth + 1) context result.1) (hdone : Flow.endsPass state result = .done b) :
    Allowed loopDepth context b.1 := by
  obtain ⟨flow, t⟩ := result
  cases flow with
  | normal => cases hdone
  | continued => cases hdone
  | broke =>
      cases hdone
      trivial
  | returned value =>
      cases hdone
      trivial
  | raised exception =>
      cases hdone
      exact hresult
  | stuck => exact hresult.elim
  | exhausted =>
      cases hdone
      trivial

theorem checked_allowed {loopDepth : Nat} {context : FunctionContext T} {condition : Option E}
    {body : σ → Flow V (ExceptionObject hierarchy F) × σ} {s : σ}
    {b : Flow V (ExceptionObject hierarchy F) × σ}
    (hcondition : resolveOptional hierarchy signatures context condition = [])
    (hbody : ∀ t, Allowed (loopDepth + 1) context (body t).1)
    (hdone : m.checked condition body s = .done b) : Allowed loopDepth context b.1 := by
  unfold checked at hdone
  split at hdone
  · exact endsPass_allowed (hbody s) hdone
  · split at hdone
    · rename_i exception t heval
      cases hdone
      exact m.raisable_of_evaluate hcondition heval
    · rename_i v t _
      split at hdone
      · exact endsPass_allowed (hbody t) hdone
      · cases hdone
        trivial

theorem updated_allowed {loopDepth : Nat} {context : FunctionContext T} {update : Option E}
    {pass : σ → Pass σ (Flow V (ExceptionObject hierarchy F) × σ)} {s : σ}
    {b : Flow V (ExceptionObject hierarchy F) × σ}
    (hupdate : resolveOptional hierarchy signatures context update = [])
    (hpass : ∀ t b, pass t = .done b → Allowed loopDepth context b.1)
    (hdone : m.updated update pass s = .done b) : Allowed loopDepth context b.1 := by
  unfold updated at hdone
  split at hdone
  · exact hpass s b hdone
  · split at hdone
    · rename_i exception t heval
      cases hdone
      exact m.raisable_of_evaluate hupdate heval
    · rename_i t _
      exact hpass t b hdone

theorem rangePass_allowed {loopDepth : Nat} {context : FunctionContext T} {bindings : List String}
    {body : σ → Flow V (ExceptionObject hierarchy F) × σ} {state : V × σ}
    {b : Flow V (ExceptionObject hierarchy F) × σ}
    (hbody : ∀ t, Allowed (loopDepth + 1) context (body t).1)
    (hdone : m.rangePass bindings body state = .done b) : Allowed loopDepth context b.1 := by
  obtain ⟨range, s⟩ := state
  rw [rangePass] at hdone
  split at hdone
  · cases hdone
    trivial
  · rename_i t _
    have hleft : Allowed (loopDepth + 1) context (m.leaving bindings.length (body t)).1 := hbody t
    exact endsPass_allowed hleft hdone

/-- An exception for which a `try` has no handler is left to what surrounds the `try`. -/
theorem raisable_of_not_caught {context : FunctionContext T} {binding : CatchBinding T}
    {body : List (Statement T E)} {rest : List (CatchClause T E)}
    {exception : ExceptionObject hierarchy F} {s : σ}
    (hmiss : m.catchStore binding exception s = none)
    (hraisable : Raisable { context with
      handledThrows := (CatchClause.mk (some binding) body :: rest).filterMap (caughtType hierarchy) ::
        context.handledThrows } exception) :
    Raisable { context with
      handledThrows := rest.filterMap (caughtType hierarchy) :: context.handledThrows } exception := by
  cases hraisable with
  | inr hdeclared => exact .inr hdeclared
  | inl hhandled =>
      left
      simp only [handles, List.any_cons, Bool.or_eq_true] at hhandled ⊢
      cases hhandled with
      | inr houter => exact .inr houter
      | inl hhere =>
          left
          simp only [List.any_eq_true, List.mem_filterMap] at hhere ⊢
          obtain ⟨caught, ⟨clause, hclause, hcaught⟩, hcovers⟩ := hhere
          refine ⟨caught, ⟨clause, ?_, hcaught⟩, hcovers⟩
          rcases List.mem_cons.mp hclause with rfl | hrest
          · -- the first handler would have caught the exception
            exfalso
            have htype : binding.type = some caught := (Option.filter_eq_some_iff.mp hcaught).1
            unfold catchStore at hmiss
            rw [htype] at hmiss
            simp [hcovers] at hmiss
          · exact hrest

/-- The exception that a handler runs for, as the checks see it. -/
theorem handling_of_catchStore {context : FunctionContext T} {catchDepth : Nat}
    {binding : CatchBinding T} {body : List (Statement T E)}
    {exception : ExceptionObject hierarchy F} {s t : σ}
    (hcatch : m.catchStore binding exception s = some t) :
    Handling (catchDepth + 1)
      { context with currentCatch :=
        (caughtType hierarchy (CatchClause.mk (some binding) body)).or (some hierarchy.root) }
      (some exception) := by
  refine ⟨fun _ ↦ rfl, fun h ↦ ?_⟩
  cases h
  unfold catchStore at hcatch
  split at hcatch
  · cases hcatch
  · rename_i type htype
    split at hcatch
    · rename_i hcovers
      by_cases hexception : hierarchy.isExceptionStruct type = true
      · refine ⟨type, ?_, hcovers⟩
        simp [caughtType, htype, Option.filter, hexception]
      · refine ⟨hierarchy.root, ?_, exception.root_covers⟩
        simp [caughtType, htype, Option.filter, hexception]
    · cases hcatch

mutual

theorem exec_allowed (fuel : Nat) {returnsVoid : Bool} : ∀ (statement : Statement T E)
    {loopDepth catchDepth : Nat} {context : FunctionContext T}
    {handling : Option (ExceptionObject hierarchy F)} (s : σ),
    Handling catchDepth context handling →
    validateStatement returnsVoid loopDepth catchDepth statement = [] →
    resolveStatement hierarchy signatures context statement = [] →
      Allowed loopDepth context (m.exec fuel handling statement s).1
  | .block statements, _, _, _, _, s, hhandling, hvalid, hresolved =>
      execBlock_allowed fuel statements 0 s hhandling hvalid hresolved
  | .localDeclaration _ _, _, _, _, _, s, _, _, hresolved => by
      rw [exec]
      exact m.after_allowed hresolved fun _ _ ↦ trivial
  | .returnStatement none, _, _, _, _, s, _, _, _ => trivial
  | .returnStatement (some _), _, _, _, _, s, _, _, hresolved => by
      rw [exec]
      exact m.after_allowed hresolved fun _ _ ↦ trivial
  | .throwStatement none, _, catchDepth, context, handling, s, hhandling, hvalid, hresolved => by
      -- a bare throw stands in a handler, which knows the exception and its type
      have hdepth : catchDepth ≠ 0 := by
        intro hzero
        rw [validateStatement, if_pos hzero] at hvalid
        cases hvalid
      obtain ⟨exception, rfl⟩ := Option.isSome_iff_exists.mp (hhandling.isSome hdepth)
      obtain ⟨type, hcurrent, hcovers⟩ := hhandling.caught rfl
      rw [resolveStatement, resolveThrowStatement, hcurrent] at hresolved
      exact raisable_of_checked hresolved hcovers
  | .throwStatement (some value), _, _, context, _, s, _, _, hresolved => by
      rw [resolveStatement, resolveThrowStatement, List.append_eq_nil_iff] at hresolved
      rw [exec]
      refine m.after_allowed hresolved.1 fun v t ↦ ?_
      have hthrown := hresolved.2
      split at hthrown
      · cases hthrown
      · rename_i thrown htype
        split at hthrown
        · refine raisable_of_checked hthrown ?_
          rw [m.newException_type htype, ExceptionHierarchy.exceptionCovers_iff]
          exact .refl
        · cases hthrown
  | .tryStatement body catches, loopDepth, _, context, handling, s, hhandling, hvalid, hresolved => by
      rw [validateStatement, List.append_eq_nil_iff] at hvalid
      rw [resolveStatement, List.append_eq_nil_iff, List.append_eq_nil_iff] at hresolved
      have hbody : Allowed loopDepth { context with
            handledThrows := catches.filterMap (caughtType hierarchy) :: context.handledThrows }
          (m.execBlock fuel handling body 0 s).1 :=
        execBlock_allowed fuel body 0 s ⟨hhandling.isSome, hhandling.caught⟩ hvalid.1 hresolved.1.2
      rw [exec]
      -- only an exception goes on to the clauses
      split
      · rename_i exception t heq
        rw [heq] at hbody
        exact execCatches_allowed fuel catches t hvalid.2 hresolved.2 hbody
      · rename_i hne
        revert hbody hne
        cases m.execBlock fuel handling body 0 s with
        | mk flow t =>
            intro hbody hne
            cases flow with
            | raised exception => exact absurd rfl (hne exception t)
            | normal => trivial
            | returned value => trivial
            | exhausted => trivial
            | broke => exact hbody
            | continued => exact hbody
            | stuck => exact hbody
  | .ifStatement _ thenBranch none, _, _, _, _, s, hhandling, hvalid, hresolved => by
      rw [resolveStatement, List.append_eq_nil_iff] at hresolved
      rw [exec]
      refine m.after_allowed hresolved.1 fun v t ↦ ?_
      split
      · exact m.inScope_allowed (exec_allowed fuel thenBranch t hhandling hvalid hresolved.2)
      · trivial
  | .ifStatement _ thenBranch (some elseBranch), _, _, _, _, s, hhandling, hvalid, hresolved => by
      rw [validateStatement, List.append_eq_nil_iff] at hvalid
      rw [resolveStatement, List.append_eq_nil_iff, List.append_eq_nil_iff] at hresolved
      rw [exec]
      refine m.after_allowed hresolved.1.1 fun v t ↦ ?_
      split
      · exact m.inScope_allowed (exec_allowed fuel thenBranch t hhandling hvalid.1 hresolved.1.2)
      · exact m.inScope_allowed (exec_allowed fuel elseBranch t hhandling hvalid.2 hresolved.2)
  | .whileStatement condition body, loopDepth, _, context, _, s, hhandling, hvalid, hresolved => by
      rw [resolveStatement, List.append_eq_nil_iff] at hresolved
      rw [exec]
      -- nothing has to be known of the states between two passes
      refine repeatPasses_rule (I := fun _ ↦ True)
        (Q := fun b : Flow V (ExceptionObject hierarchy F) × σ ↦ Allowed loopDepth context b.1)
        (fun _ _ _ _ ↦ trivial) (fun t b _ hdone ↦ ?_) (by intros; trivial) fuel trivial
      have hcondition : resolveOptional hierarchy signatures context (some condition) = [] :=
        hresolved.1
      exact m.checked_allowed hcondition
        (fun u ↦ m.inScope_allowed (exec_allowed fuel body u hhandling hvalid hresolved.2)) hdone
  | .classicFor initializer condition update body, loopDepth, _, context, handling, s, hhandling,
      hvalid, hresolved => by
      rw [resolveStatement, List.append_eq_nil_iff, List.append_eq_nil_iff,
        List.append_eq_nil_iff] at hresolved
      have ⟨⟨⟨hinitializer, hcondition⟩, hupdate⟩, hbody⟩ := hresolved
      let pass := m.checked condition fun t ↦ m.inScope body (m.exec fuel handling body t)
      have hpass : ∀ t b, pass t = .done b → Allowed loopDepth context b.1 := fun t b hdone ↦
        m.checked_allowed hcondition
          (fun u ↦ m.inScope_allowed (exec_allowed fuel body u hhandling hvalid hbody)) hdone
      have hloop : ∀ t, Allowed loopDepth context
          (repeatAfter pass (m.updated update pass) (Prod.mk Flow.exhausted) fuel t).1 := fun t ↦
        repeatAfter_rule (I := fun _ ↦ True)
          (Q := fun b : Flow V (ExceptionObject hierarchy F) × σ ↦ Allowed loopDepth context b.1)
          (fun _ _ _ _ ↦ trivial) (fun u b _ hdone ↦ hpass u b hdone) (fun _ _ _ _ ↦ trivial)
          (fun u b _ hdone ↦ m.updated_allowed hupdate hpass hdone) (by intros; trivial) fuel trivial
      cases initializer with
      | none =>
          rw [exec]
          exact hloop s
      | some initializer =>
          cases initializer with
          | localDeclaration name initializer =>
              rw [exec]
              exact m.after_allowed hinitializer fun v t ↦ hloop (m.declare name v t)
          | expression expression =>
              rw [exec]
              exact m.after_allowed hinitializer fun _ t ↦ hloop t
  | .rangeFor bindings _ body, loopDepth, _, context, _, s, hhandling, hvalid, hresolved => by
      rw [resolveStatement, List.append_eq_nil_iff] at hresolved
      rw [exec]
      refine m.after_allowed hresolved.1 fun range t ↦ ?_
      refine repeatPasses_rule (I := fun _ ↦ True)
        (Q := fun b : Flow V (ExceptionObject hierarchy F) × σ ↦ Allowed loopDepth context b.1)
        (fun _ _ _ _ ↦ trivial) (fun state b _ hdone ↦ ?_) (by intros; trivial) fuel trivial
      exact m.rangePass_allowed
        (fun u ↦ m.inScope_allowed (exec_allowed fuel body u hhandling hvalid hresolved.2)) hdone
  | .breakStatement, loopDepth, _, _, _, s, _, hvalid, _ => by
      -- the validator lets no jump stand outside of a loop
      intro hzero
      rw [validateStatement, if_pos hzero] at hvalid
      cases hvalid
  | .continueStatement, loopDepth, _, _, _, s, _, hvalid, _ => by
      intro hzero
      rw [validateStatement, if_pos hzero] at hvalid
      cases hvalid
  | .expression _, _, _, _, _, s, _, _, hresolved => by
      rw [exec]
      exact m.after_allowed hresolved fun _ _ ↦ trivial
  | .empty, _, _, _, _, s, _, _, _ => trivial

theorem execBlock_allowed (fuel : Nat) {returnsVoid : Bool} : ∀ (statements : List (Statement T E))
    {loopDepth catchDepth : Nat} {context : FunctionContext T}
    {handling : Option (ExceptionObject hierarchy F)} (names : Nat) (s : σ),
    Handling catchDepth context handling →
    validateBlock returnsVoid loopDepth catchDepth statements = [] →
    resolveBlock hierarchy signatures context statements = [] →
      Allowed loopDepth context (m.execBlock fuel handling statements names s).1
  | [], _, _, _, _, _, _, _, _, _ => trivial
  | statement :: rest, _, _, _, _, names, s, hhandling, hvalid, hresolved => by
      rw [validateBlock, List.append_eq_nil_iff] at hvalid
      rw [resolveBlock, List.append_eq_nil_iff] at hresolved
      have hstatement := exec_allowed fuel statement s hhandling hvalid.1 hresolved.1
      rw [execBlock]
      split
      · exact execBlock_allowed fuel rest _ _ hhandling hvalid.2 hresolved.2
      · rename_i flow t _ heq
        rw [heq] at hstatement
        exact hstatement

theorem execCatches_allowed (fuel : Nat) {returnsVoid : Bool} : ∀ (catches : List (CatchClause T E))
    {loopDepth catchDepth : Nat} {context : FunctionContext T}
    {exception : ExceptionObject hierarchy F} (s : σ),
    validateCatches returnsVoid loopDepth catchDepth catches = [] →
    resolveCatches hierarchy signatures context catches = [] →
    Raisable { context with
      handledThrows := catches.filterMap (caughtType hierarchy) :: context.handledThrows } exception →
      Allowed loopDepth context (m.execCatches fuel catches exception s).1
  | [], _, _, _, _, _, _, _, hraisable => hraisable
  | .mk none body :: _, _, catchDepth, context, exception, s, hvalid, hresolved, _ => by
      rw [validateCatches, List.append_eq_nil_iff, List.append_eq_nil_iff] at hvalid
      rw [resolveCatches, List.append_eq_nil_iff] at hresolved
      rw [execCatches]
      have hhandling : Handling (catchDepth + 1) { context with
            currentCatch := (caughtType hierarchy (CatchClause.mk none body)).or (some hierarchy.root) }
          (some exception) := by
        refine ⟨fun _ ↦ rfl, fun h ↦ ?_⟩
        cases h
        exact ⟨hierarchy.root, rfl, exception.root_covers⟩
      exact (execBlock_allowed fuel body 0 s hhandling hvalid.1.2 hresolved.1).of_currentCatch
  | .mk (some binding) body :: rest, _, _, _, _, s, hvalid, hresolved, hraisable => by
      rw [validateCatches, List.append_eq_nil_iff, List.append_eq_nil_iff] at hvalid
      rw [resolveCatches, List.append_eq_nil_iff] at hresolved
      rw [execCatches]
      split
      · rename_i t hcatch
        exact (execBlock_allowed fuel body 0 t (m.handling_of_catchStore hcatch) hvalid.1.2
          hresolved.1).of_currentCatch
      · rename_i hmiss
        exact execCatches_allowed fuel rest s hvalid.2 hresolved.2
          (m.raisable_of_not_caught hmiss hraisable)

end

end Machine

end Allowed

end Stainless.Compiler
