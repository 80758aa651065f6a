import Stainless.Compiler.LoweringPreserves

/-!
# Transpiled bodies

Whole functions and constructors: how a caller sees their ends in the source and in the emitted Rust,
and when the two are the same.
-/

open Reasoning

namespace Stainless.Compiler

variable {T E V F σ X : Type}

/-! ## 1. Ends of a function -/

/-- How a function or constructor ends. -/
inductive Outcome (V X : Type)
  | completed (value : Option V)
  | raised (exception : X)
  /-- The body ends without the value that its caller expects. -/
  | missing
  | stuck
  | exhausted

namespace Definition

variable (definition : Definition T E)

def finish : Flow V X → Outcome V X
  | .normal => if definition.kind.returnsVoid then .completed none else .missing
  | .returned value => .completed value
  | .raised exception => .raised exception
  | .broke | .continued | .stuck => .stuck
  | .exhausted => .exhausted

/-- What the caller gets: a completed constructor gives the object, a fluent member its receiver. -/
def handsBack (value : Option V) : Rust.Returned V X :=
  .of definition.throwing
    (match value with
      | some v => .value v
      | none =>
          if definition.isConstructor then .constructed
          else if definition.isFluent then .receiver
          else .unit)

end Definition

namespace Rust

inductive Outcome (V X : Type)
  | returned (value : Returned V X)
  /-- The end of the body is reached without a value. -/
  | missing
  | panicked
  | stuck
  | exhausted

/-- An emitted function; `unit` when it has no return type written, or `()` as the type of `Ok`. -/
structure Function (T E : Type) where
  throws : Bool
  unit : Bool
  body : List (Statement T E)

/-- The value is of the type `Result`. -/
def Returned.isResult : Returned V X → Bool
  | .plain _ => false
  | .ok _ | .err _ => true

def Function.finish (function : Function T E) : Flow V X → Outcome V X
  | .normal => if function.unit && !function.throws then .returned (.plain .unit) else .missing
  | .returned value => if value.isResult = function.throws then .returned value else .stuck
  | .panicked => .panicked
  | .exhausted => .exhausted
  | .broke _ | .continued _ | .left _ _ | .stuck => .stuck

end Rust

/-- How the end of a body shows in Rust. -/
def Definition.convention (definition : Definition T E) : Outcome V X → Rust.Outcome V X
  | .completed value => .returned (definition.handsBack value)
  | .raised exception => .returned (.err exception)
  | .missing => .missing
  | .stuck => .stuck
  | .exhausted => .exhausted

/-! ## 2. Runs of a function -/

/-- `lower_function` or `lower_constructor`, and the generated function. -/
def Definition.transpile (definition : Definition T E) (tryIndex loopIndex : Nat) :
    Lowered (Rust.Function T E) := do
  let (body, _) ← definition.lower tryIndex loopIndex
  pure
    { throws := definition.throwing
      unit := definition.kind.returnsVoid && !definition.isFluent && !definition.isConstructor
      body := Codegen.block body }

namespace Machine

variable [DecidableEq T] {hierarchy : ExceptionHierarchy T} {signatures : Signatures T E}
variable (m : Machine hierarchy signatures V F σ)

def runDefinition (definition : Definition T E) (fuel : Nat) (s : σ) :
    Outcome V (ExceptionObject hierarchy F) × σ :=
  let ended :=
    match definition.kind with
    | .function _ _ => m.execBlock fuel none definition.body 0 s
    | .constructor initialization =>
        Flow.after (m.evaluate initialization s) fun v t ↦
          m.execBlock fuel none definition.body 0 (m.construct v t)
  (definition.finish ended.1, ended.2)

def runFunction (function : Rust.Function T E) (fuel : Nat) (s : σ) :
    Rust.Outcome V (ExceptionObject hierarchy F) × σ :=
  let ended := m.runBlock fuel [] function.body 0 s
  (function.finish ended.1, ended.2)

/-! ## 3. Around the body -/

/-- A `return` of a ready value at the end of a block. -/
theorem runBlock_append_return {fuel : Nat} {errors : List (Nat × ExceptionObject hierarchy F)}
    {last : Rust.Statement T E} {value : Rust.Returned V (ExceptionObject hierarchy F)}
    (hlast : ∀ s, m.run fuel errors last s = (.returned value, s))
    (statements : List (Rust.Statement T E)) (names : Nat) (s : σ) :
    m.runBlock fuel errors (statements ++ [last]) names s =
      match m.runBlock fuel errors statements names s with
      | (.normal, t) => (.returned value, t)
      | ended => ended := by
  induction statements generalizing names s with
  | nil =>
      rw [List.nil_append, m.runBlock_ended (hlast s) (by simp), runBlock]
  | cons first rest ih =>
      rw [List.cons_append]
      cases hrun : m.run fuel errors first s with
      | mk flow t =>
          by_cases hnormal : flow = .normal
          · rw [hnormal] at hrun
            rw [m.runBlock_normal hrun, m.runBlock_normal hrun]
            exact ih _ t
          · rw [m.runBlock_ended hrun hnormal, m.runBlock_ended hrun hnormal]
            cases flow with
            | normal => exact absurd rfl hnormal
            | _ => rfl

theorem runBlock_construct {fuel : Nat} {errors : List (Nat × ExceptionObject hierarchy F)}
    (initialization : Hir.Expression E) (rest : List (Rust.Statement T E)) (s : σ) :
    m.runBlock fuel errors (.construct initialization :: rest) 0 s =
      m.rustAfter initialization s fun v t ↦ m.runBlock fuel errors rest 0 (m.construct v t) := by
  cases heval : m.evaluate initialization.expression s with
  | mk value t =>
      cases value with
      | ok v =>
          have hrun : m.run fuel errors (.construct initialization) s =
              (.normal, m.construct v t) := by
            rw [run, rustAfter, heval]
            rfl
          rw [m.runBlock_normal hrun, rustAfter, heval]
          rfl
      | error exception =>
          have hrun : m.run fuel errors (.construct initialization) s =
              (.propagate exception initialization.target, t) := by
            rw [run, rustAfter, heval]
            rfl
          rw [m.runBlock_ended hrun (by cases initialization.target <;> simp [Rust.Flow.propagate]),
            m.leave_zero, rustAfter, heval]
          rfl

end Machine

/-! ## 4. The whole function -/

section Preservation

variable [DecidableEq T] {hierarchy : ExceptionHierarchy T} {signatures : Signatures T E}
variable (m : Machine hierarchy signatures V F σ) (definition : Definition T E)

/-- A diagnostic is reported, or the function is emitted, its labelled blocks have their types, and it
runs as the definition does. -/
def Definition.Preserved (tryIndex loopIndex : Nat) : Prop :=
  (∃ code, definition.transpile tryIndex loopIndex = .error (some code)) ∨
    ∃ function, definition.transpile tryIndex loopIndex = .ok function ∧
      Rust.blockTyped function.body = true ∧
      ∀ fuel s, (m.runDefinition definition fuel s).1 ≠ .stuck ∧
        m.runFunction function fuel s =
          (definition.convention (m.runDefinition definition fuel s).1,
            (m.runDefinition definition fuel s).2)

variable {m definition}

omit [DecidableEq T] in
theorem fits_start (tryIndex loopIndex : Nat) :
    (definition.lowerer tryIndex loopIndex).Fits 0 { declaredThrows := definition.throws } := by
  refine ⟨fun h ↦ absurd rfl h, fun h ↦ (by cases h), fun _ ↦ rfl, fun h ↦ ?_⟩
  have hempty : definition.throws.isEmpty = true := by
    simpa [Definition.lowerer, Definition.throwing] using h
  exact List.isEmpty_iff.mp hempty

omit [DecidableEq T] in
theorem isResult_handsBack (value : Option V) :
    (definition.handsBack value : Rust.Returned V X).isResult = definition.throwing := by
  unfold Definition.handsBack Rust.Returned.of
  cases definition.throwing <;> rfl

/-- An exception leaves the body only where the function declares it. -/
theorem throwing_of_raisable {exception : ExceptionObject hierarchy F}
    (h : Raisable { declaredThrows := definition.throws } exception) : definition.throwing = true := by
  cases h with
  | inl hhandled => simp [handles] at hhandled
  | inr hdeclared =>
      unfold Definition.throwing
      cases hthrows : definition.throws with
      | nil => simp [declares, hthrows] at hdeclared
      | cons first rest => rfl

/-- The emitted function, as it is put together around the lowered body. -/
def Definition.assembled (definition : Definition T E) (lowerer : Lowerer)
    (body : List (Hir.Statement T E)) : Rust.Function T E :=
  { throws := definition.throwing
    unit := definition.kind.returnsVoid && !definition.isFluent && !definition.isConstructor
    body := Codegen.block (definition.construction lowerer ++ body ++ definition.completion) }

omit [DecidableEq T] in
theorem transpile_of_lowered {tryIndex loopIndex : Nat} {body : List (Hir.Statement T E)}
    {after : Lowerer}
    (h : Lowerer.lowerBlock definition.body (definition.lowerer tryIndex loopIndex) =
      .ok (body, after)) :
    definition.transpile tryIndex loopIndex =
      .ok (definition.assembled (definition.lowerer tryIndex loopIndex) body) := by
  unfold Definition.transpile Definition.lower
  dsimp only
  rw [h]
  rfl

omit [DecidableEq T] in
theorem blockTyped_assembled (lowerer : Lowerer) (body : List (Hir.Statement T E)) :
    Rust.blockTyped (definition.assembled lowerer body).body = Rust.blockTyped (Codegen.block body) := by
  have hconstruction : Rust.blockTyped (Codegen.block (definition.construction lowerer)) = true := by
    unfold Definition.construction
    cases definition.kind <;> rfl
  have hcompletion : Rust.blockTyped (Codegen.block definition.completion) = true := by
    unfold Definition.completion
    cases definition.kind with
    | constructor initialization => rfl
    | function returnsVoid hasReceiver =>
        show Rust.blockTyped (Codegen.block (ite _ _ (ite _ _ _))) = true
        split
        · rfl
        · split <;> rfl
  show Rust.blockTyped (Codegen.block (_ ++ body ++ _)) = _
  rw [Codegen.block_append, Codegen.block_append, Rust.blockTyped_append, Rust.blockTyped_append,
    hconstruction, hcompletion, Bool.true_and, Bool.and_true]

/-- What the statements after the body lead to. -/
def Definition.completionFlow (definition : Definition T E) : Rust.Flow V X :=
  match definition.kind with
  | .constructor _ => .returned (.of definition.throwing .constructed)
  | .function returnsVoid _ =>
      if definition.isFluent && !blockDefinitelyReturns definition.body then
        .returned (.of definition.throwing .receiver)
      else if definition.throwing && returnsVoid && !blockDefinitelyReturns definition.body then
        .returned (.of true .unit)
      else .normal

theorem runBlock_completion {fuel : Nat} {errors : List (Nat × ExceptionObject hierarchy F)}
    (statements : List (Rust.Statement T E)) (names : Nat) (s : σ) :
    m.runBlock fuel errors (statements ++ Codegen.block definition.completion) names s =
      match m.runBlock fuel errors statements names s with
      | (.normal, t) => (definition.completionFlow, t)
      | ended => ended := by
  have hnothing : m.runBlock fuel errors (statements ++ Codegen.block []) names s =
      match m.runBlock fuel errors statements names s with
      | (.normal, t) => (.normal, t)
      | ended => ended := by
    rw [Codegen.block, List.append_nil]
    split
    · rename_i heq
      exact heq
    · rfl
  unfold Definition.completion Definition.completionFlow
  cases definition.kind with
  | constructor initialization =>
      show m.runBlock fuel errors
        (statements ++ [.returnStatement definition.throwing (some .constructed)]) names s = _
      exact m.runBlock_append_return (fun t ↦ by rw [Machine.run]; rfl) statements names s
  | function returnsVoid hasReceiver =>
      dsimp only
      split
      · show m.runBlock fuel errors
          (statements ++ [.returnStatement definition.throwing (some .receiver)]) names s = _
        exact m.runBlock_append_return (fun t ↦ by rw [Machine.run]; rfl) statements names s
      · split
        · show m.runBlock fuel errors (statements ++ [.returnStatement true none]) names s = _
          exact m.runBlock_append_return (fun t ↦ by rw [Machine.run]; rfl) statements names s
        · exact hnothing

omit [DecidableEq T] in
/-- The end of the body without a `return`. -/
theorem finish_completionFlow (lowerer : Lowerer) (body : List (Hir.Statement T E))
    (hreturns : blockDefinitelyReturns definition.body = false) :
    (definition.assembled lowerer body).finish (definition.completionFlow : Rust.Flow V X) =
      definition.convention (definition.finish (.normal : Flow V X)) := by
  unfold Definition.completionFlow Definition.finish Definition.assembled Definition.convention
  unfold Definition.handsBack Definition.isConstructor Definition.isFluent
  cases definition.kind with
  | constructor initialization =>
      cases definition.throwing <;> rfl
  | function returnsVoid hasReceiver =>
      rw [hreturns]
      cases returnsVoid <;> cases hasReceiver <;> cases definition.throwing <;> rfl

/-- From the start of the body on. -/
theorem runBody_eq {fuel tryIndex loopIndex : Nat} {body : List (Hir.Statement T E)} {s : σ}
    (hbody : m.runBlock fuel [] (Codegen.block body) 0 s =
      (definition.lowerer tryIndex loopIndex).result (m.execBlock fuel none definition.body 0 s))
    (hallowed : Allowed 0 { declaredThrows := definition.throws }
      (m.execBlock fuel none definition.body 0 s).1) :
    definition.finish (m.execBlock fuel none definition.body 0 s).1 ≠ .stuck ∧
      (definition.assembled (definition.lowerer tryIndex loopIndex) body).finish
          (m.runBlock fuel [] (Codegen.block (body ++ definition.completion)) 0 s).1 =
        definition.convention (definition.finish (m.execBlock fuel none definition.body 0 s).1) ∧
      (m.runBlock fuel [] (Codegen.block (body ++ definition.completion)) 0 s).2 =
        (m.execBlock fuel none definition.body 0 s).2 := by
  have hfalls := m.execBlock_ne_normal fuel definition.body none 0 s
  rw [Codegen.block_append, runBlock_completion, hbody]
  revert hallowed hfalls
  cases m.execBlock fuel none definition.body 0 s with
  | mk flow t =>
      intro hallowed hfalls
      cases flow with
      | normal =>
          have hreturns : blockDefinitelyReturns definition.body = false := by
            by_contra hreturns
            exact hfalls (not_blockMayFallThrough _ (by simpa using hreturns)) rfl
          refine ⟨?_, finish_completionFlow _ _ hreturns, rfl⟩
          unfold Definition.finish
          dsimp only
          split <;> simp
      | broke => exact absurd rfl hallowed
      | continued => exact absurd rfl hallowed
      | stuck => exact hallowed.elim
      | returned value =>
          refine ⟨by simp [Definition.finish], ?_, rfl⟩
          exact if_pos (isResult_handsBack value)
      | raised exception =>
          refine ⟨by simp [Definition.finish], ?_, rfl⟩
          exact if_pos (throwing_of_raisable hallowed).symm
      | exhausted => exact ⟨by simp [Definition.finish], rfl, rfl⟩

/-- A function or constructor around a lowered body. -/
theorem runFunction_eq {fuel tryIndex loopIndex : Nat} {body : List (Hir.Statement T E)}
    (haccepted : definition.Accepted hierarchy signatures)
    (hbody : BlockLowered m fuel (definition.lowerer tryIndex loopIndex) 0
      { declaredThrows := definition.throws } definition.body body) (s : σ) :
    (m.runDefinition definition fuel s).1 ≠ .stuck ∧
      m.runFunction (definition.assembled (definition.lowerer tryIndex loopIndex) body) fuel s =
        (definition.convention (m.runDefinition definition fuel s).1,
          (m.runDefinition definition fuel s).2) := by
  have ⟨hfront, hresolved⟩ := List.append_eq_nil_iff.mp haccepted
  have ⟨hvalid, hkind⟩ := List.append_eq_nil_iff.mp hfront
  have hhandling : Handling 0 { declaredThrows := definition.throws }
      (none : Option (ExceptionObject hierarchy F)) := ⟨fun h ↦ absurd rfl h, fun h ↦ by cases h⟩
  have hsees : (definition.lowerer tryIndex loopIndex).Sees []
      (none : Option (ExceptionObject hierarchy F)) := fun _ hname ↦ by cases hname
  have hfrom := fun t ↦ runBody_eq (hbody.runs ⟨hsees, hhandling⟩ 0 t)
    (m.execBlock_allowed fuel definition.body 0 t hhandling hvalid hresolved)
  have hassembled : (definition.assembled (definition.lowerer tryIndex loopIndex) body).body =
      Codegen.block (definition.construction (definition.lowerer tryIndex loopIndex)) ++
        Codegen.block (body ++ definition.completion) := by
    rw [← Codegen.block_append, ← List.append_assoc]
    rfl
  unfold Machine.runDefinition Machine.runFunction
  rw [hassembled]
  cases hform : definition.kind with
  | function returnsVoid hasReceiver =>
      have hconstruction : definition.construction (definition.lowerer tryIndex loopIndex) = [] := by
        rw [Definition.construction, hform]
      rw [hconstruction]
      have ⟨hstuck, hfinish, hstore⟩ := hfrom s
      exact ⟨hstuck, Prod.ext hfinish hstore⟩
  | constructor initialization =>
      have hconstruction : Codegen.block (definition.construction
            (definition.lowerer tryIndex loopIndex)) ++ Codegen.block (body ++ definition.completion) =
          .construct ((definition.lowerer tryIndex loopIndex).lowerExpression initialization) ::
            Codegen.block (body ++ definition.completion) := by
        rw [Definition.construction, hform]
        rfl
      rw [hconstruction, m.runBlock_construct]
      unfold Machine.rustAfter Rust.Flow.after Flow.after
      rw [hform] at hkind
      dsimp only [Lowerer.lowerExpression]
      cases heval : m.evaluate initialization s with
      | mk value t =>
          cases value with
          | ok v =>
              have ⟨hstuck, hfinish, hstore⟩ := hfrom (m.construct v t)
              exact ⟨hstuck, Prod.ext hfinish hstore⟩
          | error exception =>
              -- an initializer raises before the body starts
              have hthrowing := throwing_of_raisable (m.raisable_of_evaluate hkind heval)
              refine ⟨by simp [Definition.finish], Prod.ext ?_ rfl⟩
              exact if_pos hthrowing.symm

/-- An accepted body is preserved exactly when each of its pieces lowers to something and the end of
each labelled block has a type. -/
theorem preserved_iff (m : Machine hierarchy signatures V F σ) (definition : Definition T E)
    (haccepted : definition.Accepted hierarchy signatures) (tryIndex loopIndex : Nat) :
    definition.Preserved m tryIndex loopIndex ↔
      blockLowerable false definition.body = true ∧ blockTyped definition.body = true := by
  have ⟨hfront, hresolved⟩ := List.append_eq_nil_iff.mp haccepted
  have ⟨hvalid, _⟩ := List.append_eq_nil_iff.mp hfront
  have hfits : (definition.lowerer tryIndex loopIndex).Fits 0
      { declaredThrows := definition.throws } := fits_start tryIndex loopIndex
  by_cases hlowerable : blockLowerable false definition.body = true
  · -- the same function is lowered whatever the bound on the passes
    have hlowered := fun fuel ↦ lowerBlock_ok m fuel definition.body hfits hvalid hresolved hlowerable
    obtain ⟨body, after, hlower, _, hbody⟩ := hlowered 0
    have htranspile := transpile_of_lowered hlower
    have htyped : Rust.blockTyped
        (definition.assembled (definition.lowerer tryIndex loopIndex) body).body =
          blockTyped definition.body := by
      rw [blockTyped_assembled, hbody.typed]
    constructor
    · rintro (⟨code, hcode⟩ | ⟨function, hfunction, hblock, _⟩)
      · rw [htranspile] at hcode
        cases hcode
      · rw [htranspile] at hfunction
        cases hfunction
        exact ⟨hlowerable, htyped ▸ hblock⟩
    · rintro ⟨_, hblock⟩
      refine .inr ⟨_, htranspile, htyped.trans hblock, fun fuel s ↦ ?_⟩
      obtain ⟨body', after', hlower', _, hbody'⟩ := hlowered fuel
      rw [hlower] at hlower'
      cases hlower'
      exact runFunction_eq haccepted hbody' s
  · rw [Bool.not_eq_true] at hlowerable
    have hnone : definition.transpile tryIndex loopIndex = .error none := by
      unfold Definition.transpile Definition.lower
      dsimp only
      rw [lowerBlock_none m 0 definition.body hfits hvalid hresolved hlowerable]
      rfl
    constructor
    · rintro (⟨code, hcode⟩ | ⟨function, hfunction, _⟩)
      · rw [hnone] at hcode
        cases hcode
      · rw [hnone] at hfunction
        cases hfunction
    · rintro ⟨htrue, _⟩
      rw [hlowerable] at htrue
      cases htrue

end Preservation

/-! ## 5. Small bodies -/

/-- Only `stainless::Exception`. -/
def rootOnly : ExceptionHierarchy Unit where
  base := fun _ ↦ none
  root := ()
  root_base := rfl
  height := fun _ ↦ 0
  base_height := fun h ↦ by cases h

/-- `read()` may raise; other expressions are constants. -/
def readSignatures : Signatures Unit String where
  effects := fun expression ↦ if expression = "read()" then [()] else []
  structType := fun _ ↦ none

def rootException : ExceptionObject rootOnly Unit where
  type := ()
  fields := ()
  embedded := []
  lineage := rfl

/-- The store counts how often `read()` still raises. -/
def readMachine : Machine rootOnly readSignatures Bool Unit Nat where
  evaluate := fun expression s ↦
    if expression = "read()" then
      match s with
      | 0 => (.ok true, 0)
      | s + 1 => (.error rootException, s)
    else (.ok true, s)
  truth := id
  newException := fun _ _ ↦ rootException
  advance := fun _ _ _ ↦ none
  declare := fun _ _ s ↦ s
  declareCaught := fun _ _ s ↦ s
  construct := fun _ s ↦ s
  leave := fun _ s ↦ s
  leave_zero := fun _ ↦ rfl
  evaluate_declared := by
    intro e s exception h
    refine ⟨(), ?_, rfl⟩
    by_cases hread : e = "read()"
    · simp [readSignatures, hread]
    · simp [hread] at h
  newException_type := fun h ↦ by cases h

/-- `void poll() { while (true) { try { read(); break; } catch (...) { continue; } } }` -/
def poll : Definition Unit String where
  kind := .function true false
  throws := []
  body := [.whileStatement "true" (.block [.tryStatement
    [.expression "read()", .breakStatement]
    [.mk none [.continueStatement]]])]

theorem poll_preserved : poll.Preserved readMachine 0 0 :=
  (preserved_iff readMachine poll rfl 0 0).mpr ⟨rfl, rfl⟩

/-- `bool check(bool c) { if (c) ; return true; }` -/
def loneSemicolon : Definition Unit String where
  kind := .function false false
  throws := []
  body := [.ifStatement "c" .empty none, .returnStatement (some "true")]

/-- The function is dropped without a diagnostic. -/
theorem accepted_body_dropped :
    ¬∀ definition : Definition Unit String, definition.Accepted rootOnly readSignatures →
      definition.Preserved readMachine 0 0 := by
  intro h
  have hnone : loneSemicolon.transpile 0 0 = .error none := rfl
  rcases h loneSemicolon rfl with ⟨code, hcode⟩ | ⟨function, hfunction, _⟩
  · rw [hnone] at hcode
    cases hcode
  · rw [hnone] at hfunction
    cases hfunction

-- a bare `throw;` in a `try` body inside a handler is dropped in the same way
example : (({ kind := .function true false, throws := [], body := [.tryStatement [.expression "read()"]
    [.mk none [.tryStatement [.throwStatement none] [.mk none []]]]] } :
      Definition Unit String).transpile 0 0) = .error none := rfl

end Stainless.Compiler
