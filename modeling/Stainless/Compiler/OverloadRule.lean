import Stainless.Compiler.Overloads

/-!
# One overload rule

A set of parameter lists is declared as free functions, as member functions and as constructors.  The
three routines follow one rule exactly where the arguments do not mix exact types with conversions, and
no conversion decides between several candidates.
-/

open Reasoning

namespace Stainless.Compiler

namespace Overloads

/-! ## 1. Sets of overloads -/

/-- The parameter lists of one name.  Declarations that agree in their canonical types are one function,
and no type parameter occurs.  A type without any declared constructor is left out: it gets one. -/
structure OverloadSet where
  parameterLists : List (List TypeRef)
  declared : parameterLists ≠ []
  distinct : (parameterLists.map canonicalTypes).Nodup
  closed : ∀ parameters ∈ parameterLists,
    TypeRef.substituteAll (TypeRef.substitutions [] []) parameters = parameters

/-- A struct or a class without type parameters. -/
structure PlainType where
  path : List String
  isClass : Bool

def PlainType.type (owner : PlainType) : TypeRef :=
  if owner.isClass then .class owner.path [] else .struct owner.path []

theorem PlainType.canonicalRef_type (owner : PlainType) : owner.type.canonicalRef = owner.type := by
  rw [type]
  split
  · rfl
  · rfl

theorem PlainType.native_ne_type (owner : PlainType) (path : String) (arguments : List TypeRef) :
    TypeRef.native path arguments ≠ owner.type := by
  intro hequal
  rw [type] at hequal
  split at hequal
  · cases hequal
  · cases hequal

/-- A set of parameter lists, and arguments for it in some context. -/
structure Call (Form Context : Type) where
  forms : Forms Form Context
  program : Program
  owner : PlainType
  overloads : OverloadSet
  arguments : List (Expression Form)
  context : Context

namespace Call

variable {Form Context : Type} (call : Call Form Context)

/-- The set as free functions. -/
def free : Outcome :=
  resolveStainlessCall call.forms call.program call.overloads.parameterLists call.arguments call.context

/-- The set as member functions of the owner. -/
def member : Outcome :=
  resolveStructMethod call.forms call.program (TypeRef.substitutions [] [])
    call.overloads.parameterLists call.arguments call.context

/-- The set as constructors of the owner. -/
def construction : Outcome :=
  resolveUserConstructor call.forms call.program call.owner.type call.owner.isClass
    (TypeRef.substitutions [] []) call.overloads.parameterLists call.arguments call.context

/-- The candidates with the right number of parameters. -/
def candidates : List (List TypeRef) :=
  call.overloads.parameterLists.filter fun parameters ↦ parameters.length = call.arguments.length

/-- The candidates that the literals among the arguments leave. -/
def fitting : List (List TypeRef) := integerLiteralCandidates id call.candidates call.arguments

/-- The arguments with what is expected of them, and the context after them. -/
def resolved (expected : Option (List TypeRef)) : List ExpressionInfo × Context :=
  resolveArguments call.forms call.arguments expected call.context

/-- The arguments with the types of the parameters expected where only one candidate is left. -/
def resolvedFor (candidates : List (List TypeRef)) : List ExpressionInfo × Context :=
  call.resolved (contextualParameters id candidates)

/-- Every argument converts to its parameter. -/
def converting (single : Bool) (actual : List ExpressionInfo × Context) (parameters : List TypeRef) :
    Bool :=
  Overloads.converting call.forms call.program single actual.1 call.arguments actual.2 parameters

/-- Every argument has the canonical type of its parameter or converts to it. -/
def acceptable (single : Bool) (actual : List ExpressionInfo × Context) (parameters : List TypeRef) :
    Bool :=
  ((parameters.zip actual.1).zip call.arguments).all fun ((parameter, argument), syntaxNode) ↦
    decide (parameter.canonicalRef = argument.type.canonicalRef) ||
      converts call.program single parameter
        (adjustedBindingActual call.forms parameter argument syntaxNode actual.2).type

/-- The argument is a temporary native result of the owner's type. -/
def IsNativeResult (argument : Expression Form) : Prop :=
  let resolved := (resolveExpression call.forms argument (some call.owner.type) call.context).1
  resolved.category = .temporary ∧ ∃ value failure,
    resolved.type.canonicalRef = .native "rust::Result" [value, failure] ∧
      value.canonicalRef = call.owner.type

end Call

/-- Two routines select the same parameter list, or both reject the call. -/
def Outcome.Agrees : Outcome → Outcome → Prop
  | .selected parameters _, .selected parameters' _ => parameters = parameters'
  | .rejected _ _ _, .rejected _ _ _ => True
  | _, _ => False

/-- The three declarations of one set follow one rule. -/
structure OneRule {Form Context : Type} (call : Call Form Context) : Prop where
  members : call.free.Agrees call.member
  /-- But for the copy construction of a value from itself. -/
  constructors : call.construction = .initialized call.owner.type ∨ call.free.Agrees call.construction
  /-- No conversion selects among several candidates. -/
  exact : 1 < call.candidates.length → ∀ outcome ∈ [call.free, call.member, call.construction],
    ∀ parameters actual, outcome = .selected parameters actual →
      canonicalTypes parameters = actualTypes actual
  /-- The only candidate is selected for all arguments that have the type or convert. -/
  accepts : ∀ parameters, call.candidates = [parameters] →
    call.acceptable true (call.resolvedFor [parameters]) parameters = true →
      ∀ outcome ∈ [call.free, call.member, call.construction],
        ∃ actual, outcome = .selected parameters actual

/-- Exact types and conversions are not mixed where there is one candidate, and no conversion decides
where there are several. -/
def Uniform {Form Context : Type} (call : Call Form Context) : Prop :=
  match call.candidates with
  | [] => ∀ argument, call.arguments = [argument] → ¬call.IsNativeResult argument
  | [parameters] =>
      call.acceptable true (call.resolvedFor [parameters]) parameters = true →
        exactly (call.resolvedFor [parameters]).1 parameters = true ∨
          call.converting true (call.resolvedFor [parameters]) parameters = true
  | candidates =>
      (∃ parameters ∈ candidates, exactly (call.resolved none).1 parameters = true ∧
        exactly (call.resolvedFor call.fitting).1 parameters = true) ∨
      (∀ parameters ∈ candidates, exactly (call.resolved none).1 parameters = false) ∧
        (∀ parameters ∈ call.fitting,
          exactly (call.resolvedFor call.fitting).1 parameters = false) ∧
        (candidates.filter (call.converting false (call.resolved none))).length ≠ 1 ∧
        (call.fitting.filter
          (call.acceptable (call.fitting.length = 1) (call.resolvedFor call.fitting))).length ≠ 1 ∧
        (call.fitting.filter
          (call.converting (call.fitting.length = 1) (call.resolvedFor call.fitting))).length ≠ 1

/-! ## 2. Positions -/

variable {Form Context : Type}

section Positions

variable (forms : Forms Form Context)

/-- An integer literal without suffix has an integer type where nothing is expected of it. -/
theorem literal_isInteger {argument : Expression Form}
    (h : isUnsuffixedIntegerLiteral argument = true) (context : Context) :
    isInteger (resolveExpression forms argument none context).1.type.canonicalRef = true := by
  induction argument with
  | integer suffix magnitude =>
      cases suffix with
      | some type => cases h
      | none =>
          show isInteger (defaultPositiveIntegerType magnitude).canonicalRef = true
          cases magnitude with
          | none => decide
          | some value =>
              rw [defaultPositiveIntegerType]
              by_cases hvalue : 2 ^ 32 - 1 < value
              · rw [if_pos hvalue]
                decide
              · rw [if_neg hvalue]
                decide
  | parenthesized inner ih => exact ih h
  | other form => cases h

/-- Exact types are integers wherever an argument is a literal. -/
theorem exactly_literals (arguments : List (Expression Form)) :
    ∀ (context : Context) (parameters : List TypeRef),
      exactly (resolveArguments forms arguments none context).1 parameters = true →
        ((parameters.zip arguments).all fun (parameter, argument) ↦
          !isUnsuffixedIntegerLiteral argument || isInteger parameter.canonicalRef) = true := by
  induction arguments with
  | nil =>
      intro context parameters _
      rw [List.zip_nil_right]
      rfl
  | cons argument arguments ih =>
      intro context parameters hexact
      cases parameters with
      | nil => rfl
      | cons parameter parameters =>
          have hlists := List.cons.inj (of_decide_eq_true hexact)
          rw [List.zip_cons_cons, List.all_cons, Bool.and_eq_true]
          refine ⟨?_, ih _ parameters (decide_eq_true hlists.2)⟩
          show (!isUnsuffixedIntegerLiteral argument || isInteger parameter.canonicalRef) = true
          cases hliteral : isUnsuffixedIntegerLiteral argument with
          | false => rfl
          | true =>
              rw [hlists.1]
              exact literal_isInteger forms hliteral context

end Positions

/-- Two parameter lists that both fit exactly agree in their canonical types. -/
theorem exactly_unique {actual : List ExpressionInfo} {parameters parameters' : List TypeRef}
    (h : exactly actual parameters = true) (h' : exactly actual parameters' = true) :
    canonicalTypes parameters = canonicalTypes parameters' :=
  (of_decide_eq_true h).trans (of_decide_eq_true h').symm

namespace Call

variable (call : Call Form Context)

theorem acceptable_of_exactly {single : Bool} {actual : List ExpressionInfo × Context}
    {parameters : List TypeRef} (h : exactly actual.1 parameters = true) :
    call.acceptable single actual parameters = true := by
  have hpositions : ∀ (parameters : List TypeRef) (infos : List ExpressionInfo),
      canonicalTypes parameters = actualTypes infos →
        ∀ pair ∈ parameters.zip infos, pair.1.canonicalRef = pair.2.type.canonicalRef := by
    intro parameters
    induction parameters with
    | nil =>
        intro infos _ pair hpair
        exact absurd hpair List.not_mem_nil
    | cons parameter parameters ih =>
        intro infos hequal pair hpair
        cases infos with
        | nil => exact absurd hpair List.not_mem_nil
        | cons info infos =>
            have hlists := List.cons.inj hequal
            cases List.mem_cons.mp hpair with
            | inl hhead =>
                rw [hhead]
                exact hlists.1
            | inr htail => exact ih infos hlists.2 pair htail
  rw [acceptable, List.all_eq_true]
  intro ((parameter, argument), syntaxNode) hmem
  have hequal : parameter.canonicalRef = argument.type.canonicalRef :=
    hpositions parameters actual.1 (of_decide_eq_true h) (parameter, argument) (List.of_mem_zip hmem).1
  show (decide (parameter.canonicalRef = argument.type.canonicalRef) || _) = true
  rw [decide_eq_true hequal, Bool.true_or]

theorem acceptable_of_converting {single : Bool} {actual : List ExpressionInfo × Context}
    {parameters : List TypeRef} (h : call.converting single actual parameters = true) :
    call.acceptable single actual parameters = true := by
  rw [converting, Overloads.converting, List.all_eq_true] at h
  rw [acceptable, List.all_eq_true]
  intro ((parameter, argument), syntaxNode) hmem
  have hconverts : converts call.program single parameter
      (adjustedBindingActual call.forms parameter argument syntaxNode actual.2).type = true := h _ hmem
  show (_ || converts _ _ _ _) = true
  rw [hconverts, Bool.or_true]

/-! ## 3. Candidates -/

theorem mem_candidates {parameters : List TypeRef} (h : parameters ∈ call.candidates) :
    parameters ∈ call.overloads.parameterLists := List.mem_of_mem_filter h

theorem fitting_sublist : call.fitting.Sublist call.candidates := by
  rw [fitting, integerLiteralCandidates]
  split
  · exact List.Sublist.refl _
  · exact List.filter_sublist

theorem candidates_nodup : call.candidates.Nodup := (call.overloads.distinct.of_map _).filter _

theorem fitting_ne_nil (h : call.candidates ≠ []) : call.fitting ≠ [] := by
  rw [fitting, integerLiteralCandidates]
  split
  · exact h
  · rename_i hnonempty
    exact fun hnil ↦ hnonempty (List.isEmpty_iff.mpr hnil)

theorem eq_of_exactly {actual : List ExpressionInfo} {parameters parameters' : List TypeRef}
    (hmem : parameters ∈ call.candidates) (hmem' : parameters' ∈ call.candidates)
    (h : exactly actual parameters = true) (h' : exactly actual parameters' = true) :
    parameters = parameters' :=
  List.inj_on_of_nodup_map call.overloads.distinct (call.mem_candidates hmem)
    (call.mem_candidates hmem') (exactly_unique h h')

/-- A candidate with exactly the types that the arguments have by themselves is never left out. -/
theorem mem_fitting {parameters : List TypeRef} (hmem : parameters ∈ call.candidates)
    (h : exactly (call.resolved none).1 parameters = true) : parameters ∈ call.fitting := by
  rw [fitting, integerLiteralCandidates]
  split
  · exact hmem
  · exact List.mem_filter.mpr ⟨hmem, exactly_literals call.forms call.arguments call.context _ h⟩

theorem substitute_candidate {parameters : List TypeRef} (h : parameters ∈ call.candidates) :
    TypeRef.substituteAll (TypeRef.substitutions [] []) parameters = parameters :=
  call.overloads.closed parameters (call.mem_candidates h)

end Call

/-! ## 4. What the routines choose -/

/-- The outcome of a routine that makes a choice among the candidates of some arguments. -/
inductive Follows (actual : List ExpressionInfo) : Option (List TypeRef) → Outcome → Prop
  | selected (parameters : List TypeRef) : Follows actual (some parameters) (.selected parameters actual)
  | rejected (code : String) (shown : List (List TypeRef)) (infos : List ExpressionInfo) :
      Follows actual none (.rejected code shown infos)

theorem Follows.agrees_iff {actual actual' : List ExpressionInfo} {choice choice' : Option (List TypeRef)}
    {outcome outcome' : Outcome} (h : Follows actual choice outcome)
    (h' : Follows actual' choice' outcome') : outcome.Agrees outcome' ↔ choice = choice' := by
  cases h with
  | selected parameters =>
      cases h' with
      | selected parameters' => exact Option.some_inj.symm
      | rejected code shown infos => exact ⟨False.elim, fun h ↦ nomatch h⟩
  | rejected code shown infos =>
      cases h' with
      | selected parameters' => exact ⟨False.elim, fun h ↦ nomatch h⟩
      | rejected code' shown' infos' => exact ⟨fun _ ↦ rfl, fun _ ↦ trivial⟩

theorem Follows.selected_iff {actual infos : List ExpressionInfo} {choice : Option (List TypeRef)}
    {outcome : Outcome} (h : Follows actual choice outcome) (parameters : List TypeRef) :
    outcome = .selected parameters infos ↔ choice = some parameters ∧ infos = actual := by
  cases h with
  | selected parameters' =>
      rw [Outcome.selected.injEq, Option.some_inj]
      exact and_congr_right fun _ ↦ eq_comm
  | rejected code shown infos' => exact ⟨fun h ↦ (nomatch h), fun h ↦ (nomatch h.1)⟩

namespace Call

variable (call : Call Form Context)

/-- What the routine for free functions chooses. -/
def freeChoice : Option (List TypeRef) :=
  sole (shortlist (exactly (call.resolvedFor call.fitting).1)
    (call.acceptable (call.fitting.length = 1) (call.resolvedFor call.fitting)) call.fitting)

/-- What the routine for member functions chooses. -/
def memberChoice : Option (List TypeRef) :=
  sole (shortlist (exactly (call.resolvedFor call.candidates).1)
    (call.converting (call.candidates.length = 1) (call.resolvedFor call.candidates)) call.candidates)

/-- What the routine for constructors chooses. -/
def constructorChoice : Option (List TypeRef) :=
  sole (shortlist (exactly (call.resolvedFor call.fitting).1)
    (call.converting (call.fitting.length = 1) (call.resolvedFor call.fitting)) call.fitting)

/-- The routine that shows all candidates where none is compatible. -/
theorem follows_of_shortlist (actual : List ExpressionInfo) (shown compatible : List (List TypeRef)) :
    Follows actual (sole compatible) (match compatible with
      | [parameters] => .selected parameters actual
      | [] => .rejected "RES019" shown actual
      | _ => .rejected "RES019" compatible actual) := by
  cases compatible with
  | nil => exact .rejected _ _ _
  | cons parameters more =>
      cases more with
      | nil => exact .selected _
      | cons parameters' more => exact .rejected _ _ _

theorem free_follows (h : call.candidates ≠ []) :
    Follows (call.resolvedFor call.fitting).1 call.freeChoice call.free := by
  have hsome : call.overloads.parameterLists.isEmpty = false := by
    rw [List.isEmpty_eq_false_iff]
    intro hnil
    rw [candidates, hnil] at h
    exact h rfl
  have hcandidates : call.candidates.isEmpty = false := List.isEmpty_eq_false_iff.mpr h
  rw [free, resolveStainlessCall, if_neg (by rw [hsome]; exact Bool.false_ne_true)]
  show Follows _ _ (if call.candidates.isEmpty = true then _ else _)
  rw [if_neg (by rw [hcandidates]; exact Bool.false_ne_true)]
  rw [freeChoice]
  exact follows_of_shortlist _ _ _

/-- A routine that reports the same error for no candidate and for several. -/
theorem follows_of_match (actual : List ExpressionInfo) (compatible : List (List TypeRef))
    (code : String) :
    Follows actual (sole compatible)
      (match compatible with
        | [parameters] => .selected parameters actual
        | _ => .rejected code [] actual) := by
  match compatible with
  | [] => exact .rejected _ _ _
  | [parameters] => exact .selected _
  | parameters :: parameters' :: more => exact .rejected _ _ _

/-- The routine that also takes a single argument of the owner's type. -/
theorem follows_of_copy (actual : List ExpressionInfo) (compatible shown : List (List TypeRef))
    (owner : TypeRef) (isClass : Bool) {outcome : Outcome}
    (h : outcome = match compatible with
      | [parameters] => .selected parameters actual
      | [] =>
          match actual with
          | [argument] =>
              if argument.type.canonicalRef = owner then
                if isClass then .rejected "RES119" [] actual
                else .initialized argument.type.canonicalRef
              else .rejected "RES060" shown actual
          | _ => .rejected "RES060" shown actual
      | _ => .rejected "RES060" compatible actual) :
    outcome = .initialized owner ∧ sole compatible = none ∨ Follows actual (sole compatible) outcome := by
  match compatible with
  | [parameters] =>
      rw [h]
      exact .inr (.selected _)
  | parameters :: parameters' :: more =>
      rw [h]
      exact .inr (.rejected _ _ _)
  | [] =>
      match actual with
      | [] =>
          rw [h]
          exact .inr (.rejected _ _ _)
      | argument :: argument' :: more =>
          rw [h]
          exact .inr (.rejected _ _ _)
      | [argument] =>
          have houtcome : outcome =
              if argument.type.canonicalRef = owner then
                if isClass then .rejected "RES119" [] [argument]
                else .initialized argument.type.canonicalRef
              else .rejected "RES060" shown [argument] := h
          by_cases hcopy : argument.type.canonicalRef = owner
          -- a data type takes a value of its own type without a constructor, a class does not
          · rw [if_pos hcopy, hcopy] at houtcome
            cases isClass with
            | true =>
                rw [houtcome]
                exact .inr (.rejected _ _ _)
            | false => exact .inl ⟨houtcome, rfl⟩
          · rw [if_neg hcopy] at houtcome
            rw [houtcome]
            exact .inr (.rejected _ _ _)

/-! The arguments of the owner change none of the types. -/

section Closed

variable {candidates : List (List TypeRef)} {f : List TypeRef → List TypeRef}

theorem contextualParameters_closed (h : ∀ parameters ∈ candidates, f parameters = parameters) :
    contextualParameters f candidates = contextualParameters id candidates := by
  rw [contextualParameters, contextualParameters]
  cases hsole : sole candidates with
  | none => rfl
  | some parameters =>
      have hmem : parameters ∈ candidates := by
        rw [sole_eq_some.mp hsole]
        exact List.mem_singleton_self parameters
      rw [Option.map_some, Option.map_some, h parameters hmem]
      rfl

theorem integerLiteralCandidates_closed (h : ∀ parameters ∈ candidates, f parameters = parameters)
    (arguments : List (Expression Form)) :
    integerLiteralCandidates f candidates arguments = integerLiteralCandidates id candidates arguments := by
  have hfilter : (candidates.filter fun parameters ↦
      ((f parameters).zip arguments).all fun (parameter, argument) ↦
        !isUnsuffixedIntegerLiteral argument || isInteger parameter.canonicalRef) =
      candidates.filter fun parameters ↦
        (parameters.zip arguments).all fun (parameter, argument) ↦
          !isUnsuffixedIntegerLiteral argument || isInteger parameter.canonicalRef :=
    List.filter_congr fun parameters hmem ↦ by rw [h parameters hmem]
  rw [integerLiteralCandidates, hfilter]
  rfl

end Closed

theorem member_follows (h : call.candidates ≠ []) :
    Follows (call.resolvedFor call.candidates).1 call.memberChoice call.member := by
  have hclosed : ∀ parameters ∈ call.candidates,
      TypeRef.substituteAll (TypeRef.substitutions [] []) parameters = parameters :=
    fun _ hmem ↦ call.substitute_candidate hmem
  have hcandidates : ¬call.candidates.isEmpty = true := fun hempty ↦ h (List.isEmpty_iff.mp hempty)
  have hlist : shortlist
      (fun parameters ↦ exactly (call.resolvedFor call.candidates).1
        (TypeRef.substituteAll (TypeRef.substitutions [] []) parameters))
      (fun parameters ↦ call.converting (call.candidates.length = 1) (call.resolvedFor call.candidates)
        (TypeRef.substituteAll (TypeRef.substitutions [] []) parameters)) call.candidates =
      shortlist (exactly (call.resolvedFor call.candidates).1)
        (call.converting (call.candidates.length = 1) (call.resolvedFor call.candidates))
        call.candidates :=
    shortlist_congr (fun parameters hmem ↦ by rw [hclosed parameters hmem])
      (fun parameters hmem ↦ by rw [hclosed parameters hmem])
  rw [memberChoice, ← hlist, resolvedFor, ← contextualParameters_closed hclosed, member,
    resolveStructMethod]
  show Follows _ _ (if call.candidates.isEmpty = true then _ else _)
  rw [if_neg hcandidates]
  exact follows_of_match _ _ _

/-- The routine for constructors, but for the copy construction. -/
theorem construction_follows (h : call.candidates ≠ []) :
    call.construction = .initialized call.owner.type ∧ call.constructorChoice = none ∨
      Follows (call.resolvedFor call.fitting).1 call.constructorChoice call.construction := by
  have hclosed : ∀ parameters ∈ call.candidates,
      TypeRef.substituteAll (TypeRef.substitutions [] []) parameters = parameters :=
    fun _ hmem ↦ call.substitute_candidate hmem
  have hfitting : ∀ parameters ∈ call.fitting,
      TypeRef.substituteAll (TypeRef.substitutions [] []) parameters = parameters :=
    fun parameters hmem ↦ hclosed parameters (call.fitting_sublist.subset hmem)
  have hcandidates : ¬call.candidates.isEmpty = true := fun hempty ↦ h (List.isEmpty_iff.mp hempty)
  have hliterals : integerLiteralCandidates (TypeRef.substituteAll (TypeRef.substitutions [] []))
      call.candidates call.arguments = call.fitting :=
    integerLiteralCandidates_closed hclosed call.arguments
  have hlist : shortlist
      (fun parameters ↦ exactly (call.resolvedFor call.fitting).1
        (TypeRef.substituteAll (TypeRef.substitutions [] []) parameters))
      (fun parameters ↦ call.converting (call.fitting.length = 1) (call.resolvedFor call.fitting)
        (TypeRef.substituteAll (TypeRef.substitutions [] []) parameters)) call.fitting =
      shortlist (exactly (call.resolvedFor call.fitting).1)
        (call.converting (call.fitting.length = 1) (call.resolvedFor call.fitting)) call.fitting :=
    shortlist_congr (fun parameters hmem ↦ by rw [hfitting parameters hmem])
      (fun parameters hmem ↦ by rw [hfitting parameters hmem])
  rw [constructorChoice, ← hlist, resolvedFor, ← contextualParameters_closed hfitting, ← hliterals,
    construction]
  unfold resolveUserConstructor
  show (if call.candidates.isEmpty = true then _ else _) = Outcome.initialized call.owner.type ∧ _ ∨
    Follows _ _ (if call.candidates.isEmpty = true then _ else _)
  rw [if_neg hcandidates]
  exact follows_of_copy _ _ _ _ _ rfl

/-! ## 5. No candidate -/

/-- Without a candidate of the right number of parameters, only a constructor may still take its single
argument. -/
theorem rejected_of_nil (h : call.candidates = []) :
    (∃ code, call.free = .rejected code [] []) ∧ (∃ code, call.member = .rejected code [] []) := by
  have hcandidates : call.candidates.isEmpty = true := List.isEmpty_iff.mpr h
  constructor
  · rw [free, resolveStainlessCall]
    by_cases hempty : call.overloads.parameterLists.isEmpty = true
    · exact ⟨_, if_pos hempty⟩
    · rw [if_neg hempty]
      exact ⟨_, if_pos hcandidates⟩
  · rw [member, resolveStructMethod]
    exact ⟨_, if_pos hcandidates⟩

theorem construction_of_nil (h : call.candidates = []) : call.construction =
    match call.arguments with
    | [argument] =>
        resolveDirectInitialization call.forms call.owner.type argument call.context
    | _ => .rejected "RES059" [] [] := by
  rw [construction]
  unfold resolveUserConstructor
  exact if_pos (List.isEmpty_iff.mpr h)

/-- Direct initialization takes a value of the type, or adapts a native result of it. -/
theorem adaptRustResult_iff (owner : PlainType) (info : ExpressionInfo) :
    (adaptRustResult owner.type info).type.canonicalRef = owner.type ↔
      info.type.canonicalRef = owner.type ∨
        info.category = .temporary ∧ ∃ value failure,
          info.type.canonicalRef = .native "rust::Result" [value, failure] ∧
            value.canonicalRef = owner.type := by
  -- a constructed type is no reference and no error
  have hreference : ¬isReference owner.type = true := by
    rw [PlainType.type]
    split
    · exact Bool.false_ne_true
    · exact Bool.false_ne_true
  have herror : errorInfo.type.canonicalRef ≠ owner.type := by
    intro hequal
    rw [PlainType.type] at hequal
    split at hequal
    · cases hequal
    · cases hequal
  rw [adaptRustResult, if_neg hreference]
  split
  · rename_i path value failure htype
    rw [owner.canonicalRef_type]
    -- another native type, and the result of another type, stay what they are
    by_cases hother : path ≠ "rust::Result" ∨ owner.type ≠ value.canonicalRef
    · rw [if_pos hother, htype]
      refine ⟨fun h ↦ absurd h (owner.native_ne_type _ _), fun h ↦ h.elim (fun h ↦ h) ?_⟩
      rintro ⟨_, value', failure', hsame, hvalue⟩
      cases hsame
      exact absurd hvalue (hother.elim (absurd rfl) fun hne hequal ↦ hne hequal.symm)
    · rw [if_neg hother]
      have ⟨hpath, hvalue⟩ := not_or.mp hother
      -- only a temporary result is adapted
      by_cases hcategory : info.category ≠ .temporary
      · rw [if_pos hcategory]
        refine ⟨fun h ↦ absurd h herror, fun h ↦ h.elim (fun h ↦ ?_) fun h ↦ absurd h.1 hcategory⟩
        exact absurd (htype.symm.trans h) (owner.native_ne_type _ _)
      · rw [if_neg hcategory]
        refine ⟨fun _ ↦ .inr ⟨not_not.mp hcategory, value, failure, ?_, (not_not.mp hvalue).symm⟩, fun _ ↦ ?_⟩
        · rw [htype, not_not.mp hpath]
        · exact owner.canonicalRef_type
  · rename_i hother
    refine ⟨fun h ↦ .inl h, fun h ↦ h.elim (fun h ↦ h) ?_⟩
    rintro ⟨_, value, failure, htype, _⟩
    exact absurd htype (hother _ _ _)

theorem oneRule_nil (h : call.candidates = []) : OneRule call ↔
    ∀ argument, call.arguments = [argument] → ¬call.IsNativeResult argument := by
  have ⟨⟨freeCode, hfree⟩, memberCode, hmember⟩ := call.rejected_of_nil h
  have hconstruction := call.construction_of_nil h
  -- without a candidate only the construction can differ from the other routines
  have hrule : OneRule call ↔ call.construction = .initialized call.owner.type ∨
      call.free.Agrees call.construction := by
    refine ⟨fun hrule ↦ hrule.constructors, fun hconstructors ↦ ⟨?_, hconstructors, ?_, ?_⟩⟩
    · rw [hfree, hmember]
      trivial
    · intro hlength
      rw [h] at hlength
      exact absurd hlength (by decide)
    · intro parameters hsingle
      rw [h] at hsingle
      cases hsingle
  rw [hrule, hfree, hconstruction]
  match harguments : call.arguments with
  | [] => exact ⟨fun _ argument h ↦ (nomatch h), fun _ ↦ .inr trivial⟩
  | argument :: argument' :: more => exact ⟨fun _ argument h ↦ (nomatch h), fun _ ↦ .inr trivial⟩
  | [argument] =>
      have hadapt := adaptRustResult_iff call.owner
        (resolveExpression call.forms argument (some call.owner.type) call.context).1
      have hdirect : resolveDirectInitialization call.forms call.owner.type argument call.context =
          if (adaptRustResult call.owner.type (resolveExpression call.forms argument
              (some call.owner.type) call.context).1).type.canonicalRef = call.owner.type then
            .initialized (resolveExpression call.forms argument (some call.owner.type)
              call.context).1.type.canonicalRef
          else .rejected "RES028" [] [adaptRustResult call.owner.type (resolveExpression call.forms
            argument (some call.owner.type) call.context).1] := by
        rw [resolveDirectInitialization, call.owner.canonicalRef_type]
      show (resolveDirectInitialization _ _ _ _ = _ ∨
        Outcome.Agrees _ (resolveDirectInitialization _ _ _ _)) ↔ _
      rw [hdirect]
      by_cases htaken : (adaptRustResult call.owner.type (resolveExpression call.forms argument
          (some call.owner.type) call.context).1).type.canonicalRef = call.owner.type
      · rw [if_pos htaken]
        cases hadapt.mp htaken with
        | inl hsame =>
            rw [hsame]
            refine ⟨fun _ argument' hargument ↦ ?_, fun _ ↦ .inl rfl⟩
            cases hargument
            intro hnative
            have ⟨_, value, failure, htype, _⟩ := hnative
            exact call.owner.native_ne_type _ _ (htype.symm.trans hsame)
        | inr hnative =>
            refine ⟨fun hagree ↦ ?_, fun hnone ↦ absurd hnative (hnone argument rfl)⟩
            have ⟨_, value, failure, htype, _⟩ := hnative
            rw [htype] at hagree
            cases hagree with
            | inl hsame => exact absurd (Outcome.initialized.inj hsame) (call.owner.native_ne_type _ _)
            | inr hfalse => exact hfalse.elim
      · rw [if_neg htaken]
        refine ⟨fun _ argument' hargument hnative ↦ ?_, fun _ ↦ .inr trivial⟩
        cases hargument
        exact htaken (hadapt.mpr (.inr hnative))

/-- Where all routines make one choice, this is all that the rule asks of it. -/
theorem oneRule_of_follows {choice : Option (List TypeRef)} {actual actual' : List ExpressionInfo}
    (hfree : Follows actual choice call.free) (hmember : Follows actual' choice call.member)
    (hconstruction : call.construction = .initialized call.owner.type ∧ choice = none ∨
      Follows actual choice call.construction)
    (hexact : 1 < call.candidates.length → ∀ parameters, choice = some parameters →
      canonicalTypes parameters = actualTypes actual ∧ canonicalTypes parameters = actualTypes actual')
    (haccepts : ∀ parameters, call.candidates = [parameters] →
      call.acceptable true (call.resolvedFor [parameters]) parameters = true →
        choice = some parameters) : OneRule call where
  members := (hfree.agrees_iff hmember).mpr rfl
  constructors := hconstruction.imp And.left fun h ↦ (hfree.agrees_iff h).mpr rfl
  exact hmany outcome hmem parameters infos houtcome := by
    rw [List.mem_cons, List.mem_cons, List.mem_singleton] at hmem
    rcases hmem with rfl | rfl | rfl
    · have ⟨hchoice, hinfos⟩ := (hfree.selected_iff parameters).mp houtcome
      rw [hinfos]
      exact (hexact hmany parameters hchoice).1
    · have ⟨hchoice, hinfos⟩ := (hmember.selected_iff parameters).mp houtcome
      rw [hinfos]
      exact (hexact hmany parameters hchoice).2
    · cases hconstruction with
      | inl hcopy =>
          rw [hcopy.1] at houtcome
          cases houtcome
      | inr hfollows =>
          have ⟨hchoice, hinfos⟩ := (hfollows.selected_iff parameters).mp houtcome
          rw [hinfos]
          exact (hexact hmany parameters hchoice).1
  accepts parameters hsingle hacceptable outcome hmem := by
    have hchoice := haccepts parameters hsingle hacceptable
    rw [List.mem_cons, List.mem_cons, List.mem_singleton] at hmem
    rcases hmem with rfl | rfl | rfl
    · exact ⟨_, (hfree.selected_iff parameters).mpr ⟨hchoice, rfl⟩⟩
    · exact ⟨_, (hmember.selected_iff parameters).mpr ⟨hchoice, rfl⟩⟩
    · cases hconstruction with
      | inl hcopy =>
          rw [hcopy.2] at hchoice
          cases hchoice
      | inr hfollows => exact ⟨_, (hfollows.selected_iff parameters).mpr ⟨hchoice, rfl⟩⟩

/-! ## 6. One candidate -/

theorem fitting_single {parameters : List TypeRef} (h : call.candidates = [parameters]) :
    call.fitting = [parameters] := by
  have hsublist : call.fitting.Sublist [parameters] := h ▸ call.fitting_sublist
  cases List.sublist_singleton.mp hsublist with
  | inl hnil => exact absurd hnil (call.fitting_ne_nil (by rw [h]; exact List.cons_ne_nil _ _))
  | inr hsingle => exact hsingle

theorem sole_single {exact loose : List TypeRef → Bool} (parameters : List TypeRef) :
    sole (shortlist exact loose [parameters]) =
      if exact parameters = true ∨ loose parameters = true then some parameters else none := by
  by_cases h : exact parameters = true ∨ loose parameters = true
  · rw [if_pos h, sole_shortlist_single.mpr h]
  · rw [if_neg h]
    cases hsole : sole (shortlist exact loose [parameters]) with
    | none => rfl
    | some parameters' =>
        have hsame := List.mem_singleton.mp (mem_of_sole_shortlist hsole)
        rw [hsame] at hsole
        exact absurd (sole_shortlist_single.mp hsole) h

theorem oneRule_single {parameters : List TypeRef} (h : call.candidates = [parameters]) :
    OneRule call ↔
      (call.acceptable true (call.resolvedFor [parameters]) parameters = true →
        exactly (call.resolvedFor [parameters]).1 parameters = true ∨
          call.converting true (call.resolvedFor [parameters]) parameters = true) := by
  have hsome : call.candidates ≠ [] := by
    rw [h]
    exact List.cons_ne_nil _ _
  have hfitting := call.fitting_single h
  have hfree := call.free_follows hsome
  have hmember := call.member_follows hsome
  have hconstruction := call.construction_follows hsome
  rw [freeChoice, hfitting] at hfree
  rw [memberChoice, h] at hmember
  rw [constructorChoice, hfitting] at hconstruction
  simp only [List.length_singleton, decide_true, sole_single] at hfree hmember hconstruction
  generalize hactual : call.resolvedFor [parameters] = actual at hfree hmember hconstruction ⊢
  -- what the members and the constructors take, the free functions take too
  have hloose : exactly actual.1 parameters = true ∨ call.converting true actual parameters = true →
      call.acceptable true actual parameters = true :=
    fun h ↦ h.elim call.acceptable_of_exactly call.acceptable_of_converting
  constructor
  · intro hrule hacceptable
    have ⟨infos, hselected⟩ := hrule.accepts parameters h (by rw [hactual]; exact hacceptable)
      call.member (List.mem_cons_of_mem _ List.mem_cons_self)
    have hchoice := ((hmember.selected_iff parameters).mp hselected).1
    by_contra hneither
    rw [if_neg hneither] at hchoice
    cases hchoice
  · intro hpure
    have hnotMany : ¬1 < call.candidates.length := by
      rw [h]
      exact Nat.lt_irrefl 1
    by_cases hacceptable : call.acceptable true actual parameters = true
    · rw [if_pos (.inr hacceptable)] at hfree
      rw [if_pos (hpure hacceptable)] at hmember hconstruction
      refine call.oneRule_of_follows hfree hmember hconstruction (fun hmany ↦ absurd hmany hnotMany) ?_
      intro parameters' hsingle _
      rw [h] at hsingle
      exact congrArg some (List.singleton_inj.mp hsingle)
    · have hneither := mt hloose hacceptable
      rw [if_neg hneither] at hmember hconstruction
      rw [if_neg (fun h ↦ h.elim (fun h ↦ hneither (.inl h)) hacceptable)] at hfree
      refine call.oneRule_of_follows hfree hmember hconstruction (fun hmany ↦ absurd hmany hnotMany) ?_
      intro parameters' hsingle hacceptable'
      rw [h] at hsingle
      rw [← List.singleton_inj.mp hsingle, hactual] at hacceptable'
      exact absurd hacceptable' hacceptable

/-! ## 7. Several candidates -/

theorem shortlist_exactly {actual : List ExpressionInfo} {loose : List TypeRef → Bool}
    {candidates : List (List TypeRef)} (hsublist : candidates.Sublist call.candidates)
    {parameters : List TypeRef} (hmem : parameters ∈ candidates)
    (h : exactly actual parameters = true) :
    sole (shortlist (exactly actual) loose candidates) = some parameters := by
  have hlist : shortlist (exactly actual) loose candidates = [parameters] :=
    shortlist_of_exact (call.candidates_nodup.sublist hsublist) hmem h fun parameters' hmem' h' ↦
      call.eq_of_exactly (hsublist.subset hmem') (hsublist.subset hmem) h' h
  rw [hlist]
  rfl

/-- Without a context each argument has its own type. -/
theorem resolvedFor_candidates (h : 1 < call.candidates.length) :
    call.resolvedFor call.candidates = call.resolved none := by
  have hsole : sole call.candidates = none := sole_none_iff.mpr (by omega)
  rw [resolvedFor, contextualParameters, hsole]
  rfl

theorem memberChoice_several (h : 1 < call.candidates.length) : call.memberChoice =
    sole (shortlist (exactly (call.resolved none).1) (call.converting false (call.resolved none))
      call.candidates) := by
  have hlength : decide (call.candidates.length = 1) = false := decide_eq_false (by omega)
  rw [memberChoice, call.resolvedFor_candidates h, hlength]

/-- A routine that chooses among several candidates by the rule, and none that is exact, finds no single
candidate that fits loosely. -/
theorem length_ne_one {exact loose : List TypeRef → Bool} {candidates : List (List TypeRef)}
    (hnone : ∀ parameters ∈ candidates, exact parameters = false)
    (h : ∀ parameters, sole (shortlist exact loose candidates) = some parameters →
      exact parameters = true) : (candidates.filter loose).length ≠ 1 := by
  rw [← sole_none_iff, ← shortlist_of_none hnone]
  cases hsole : sole (shortlist exact loose candidates) with
  | none => rfl
  | some parameters =>
      have hexact := h parameters hsole
      rw [hnone parameters (mem_of_sole_shortlist hsole)] at hexact
      cases hexact

theorem sole_none {exact loose : List TypeRef → Bool} {candidates : List (List TypeRef)}
    (hnone : ∀ parameters ∈ candidates, exact parameters = false)
    (h : (candidates.filter loose).length ≠ 1) : sole (shortlist exact loose candidates) = none := by
  rw [shortlist_of_none hnone]
  exact sole_none_iff.mpr h

theorem oneRule_several (h : 1 < call.candidates.length) : OneRule call ↔
    (∃ parameters ∈ call.candidates, exactly (call.resolved none).1 parameters = true ∧
        exactly (call.resolvedFor call.fitting).1 parameters = true) ∨
      (∀ parameters ∈ call.candidates, exactly (call.resolved none).1 parameters = false) ∧
        (∀ parameters ∈ call.fitting,
          exactly (call.resolvedFor call.fitting).1 parameters = false) ∧
        (call.candidates.filter (call.converting false (call.resolved none))).length ≠ 1 ∧
        (call.fitting.filter
          (call.acceptable (call.fitting.length = 1) (call.resolvedFor call.fitting))).length ≠ 1 ∧
        (call.fitting.filter
          (call.converting (call.fitting.length = 1) (call.resolvedFor call.fitting))).length ≠ 1 := by
  have hsome : call.candidates ≠ [] := by
    intro hnil
    rw [hnil] at h
    exact absurd h (by decide)
  have hfree := call.free_follows hsome
  have hmember := call.member_follows hsome
  have hconstruction := call.construction_follows hsome
  rw [call.resolvedFor_candidates h] at hmember
  have hsingle : ∀ parameters, call.candidates ≠ [parameters] := by
    intro parameters hequal
    rw [hequal] at h
    exact Nat.lt_irrefl 1 h
  constructor
  · intro hrule
    have hagree : call.freeChoice = call.memberChoice := (hfree.agrees_iff hmember).mp hrule.members
    -- with several candidates a choice is an exact one, by the rule
    have hexactFree : ∀ parameters, call.freeChoice = some parameters →
        exactly (call.resolvedFor call.fitting).1 parameters = true := fun parameters hchoice ↦
      decide_eq_true (hrule.exact h call.free List.mem_cons_self parameters _
        ((hfree.selected_iff parameters).mpr ⟨hchoice, rfl⟩))
    have hexactMember : ∀ parameters, call.memberChoice = some parameters →
        exactly (call.resolved none).1 parameters = true := fun parameters hchoice ↦
      decide_eq_true (hrule.exact h call.member (List.mem_cons_of_mem _ List.mem_cons_self) parameters _
        ((hmember.selected_iff parameters).mpr ⟨hchoice, rfl⟩))
    have hexactConstructor : ∀ parameters, call.constructorChoice = some parameters →
        exactly (call.resolvedFor call.fitting).1 parameters = true := by
      intro parameters hchoice
      cases hconstruction with
      | inl hcopy =>
          rw [hcopy.2] at hchoice
          cases hchoice
      | inr hfollows =>
          exact decide_eq_true (hrule.exact h call.construction
            (List.mem_cons_of_mem _ (List.mem_cons_of_mem _ List.mem_cons_self)) parameters _
            ((hfollows.selected_iff parameters).mpr ⟨hchoice, rfl⟩))
    -- the members resolve the arguments without a type in mind, the others with the fitting ones
    by_cases hplain : ∃ parameters ∈ call.candidates, exactly (call.resolved none).1 parameters = true
    · have ⟨parameters, hmem, hexact⟩ := hplain
      have hchoice : call.memberChoice = some parameters := by
        rw [call.memberChoice_several h]
        exact call.shortlist_exactly (List.Sublist.refl _) hmem hexact
      exact .inl ⟨parameters, hmem, hexact, hexactFree parameters (hagree.trans hchoice)⟩
    · have hnone : ∀ parameters ∈ call.candidates,
          exactly (call.resolved none).1 parameters = false := fun parameters hmem ↦
        Bool.eq_false_iff.mpr fun hexact ↦ hplain ⟨parameters, hmem, hexact⟩
      have hmemberNone : call.memberChoice = none := by
        cases hchoice : call.memberChoice with
        | none => rfl
        | some parameters =>
            have hmem : parameters ∈ call.candidates := mem_of_sole_shortlist hchoice
            exact absurd ⟨parameters, hmem, hexactMember parameters hchoice⟩ hplain
      have hfittingNone : ∀ parameters ∈ call.fitting,
          exactly (call.resolvedFor call.fitting).1 parameters = false := by
        intro parameters hmem
        rw [Bool.eq_false_iff]
        intro hexact
        have hchoice : call.freeChoice = some parameters :=
          call.shortlist_exactly call.fitting_sublist hmem hexact
        rw [hagree, hmemberNone] at hchoice
        cases hchoice
      refine .inr ⟨hnone, hfittingNone, ?_, length_ne_one hfittingNone hexactFree,
        length_ne_one hfittingNone hexactConstructor⟩
      rw [call.memberChoice_several h] at hexactMember
      exact length_ne_one hnone hexactMember
  · intro hcases
    cases hcases with
    | inl hexact =>
        have ⟨parameters, hmem, hplain, hcontext⟩ := hexact
        have hfitting := call.mem_fitting hmem hplain
        have hfreeChoice : call.freeChoice = some parameters :=
          call.shortlist_exactly call.fitting_sublist hfitting hcontext
        have hmemberChoice : call.memberChoice = some parameters := by
          rw [call.memberChoice_several h]
          exact call.shortlist_exactly (List.Sublist.refl _) hmem hplain
        have hconstructorChoice : call.constructorChoice = some parameters :=
          call.shortlist_exactly call.fitting_sublist hfitting hcontext
        rw [hfreeChoice] at hfree
        rw [hmemberChoice] at hmember
        rw [hconstructorChoice] at hconstruction
        -- all three choose the same candidate, and exactly
        refine call.oneRule_of_follows hfree hmember hconstruction ?_
          fun parameters' hequal ↦ absurd hequal (hsingle parameters')
        intro _ parameters' hsame
        cases hsame
        exact ⟨of_decide_eq_true hcontext, of_decide_eq_true hplain⟩
    | inr hnone =>
        have ⟨hplain, hcontext, hconverting, hacceptable, hconvertingFitting⟩ := hnone
        have hfreeChoice : call.freeChoice = none := sole_none hcontext hacceptable
        have hmemberChoice : call.memberChoice = none := by
          rw [call.memberChoice_several h]
          exact sole_none hplain hconverting
        have hconstructorChoice : call.constructorChoice = none := sole_none hcontext hconvertingFitting
        -- all three refuse
        rw [hfreeChoice] at hfree
        rw [hmemberChoice] at hmember
        rw [hconstructorChoice] at hconstruction
        exact call.oneRule_of_follows hfree hmember hconstruction (fun _ _ hsame ↦ (nomatch hsame))
          fun parameters' hequal ↦ absurd hequal (hsingle parameters')

/-! ## 8. The rule -/

/-- The three routines follow one rule exactly where exact types and conversions are not mixed, and no
conversion decides between several candidates. -/
theorem oneRule_iff_uniform : OneRule call ↔ Uniform call := by
  match hcandidates : call.candidates with
  | [] =>
      rw [Uniform, hcandidates]
      exact call.oneRule_nil hcandidates
  | [parameters] =>
      rw [Uniform, hcandidates]
      exact call.oneRule_single hcandidates
  | parameters :: parameters' :: more =>
      have hmany : 1 < call.candidates.length := by
        rw [hcandidates, List.length_cons, List.length_cons]
        omega
      rw [Uniform, call.oneRule_several hmany, hcandidates]

end Call

/-! ## 9. A call that mixes -/

/-- `struct Base {}` and `struct Derived : Base {}`. -/
def baseAndDerived : Declarations where
  count := 2
  structs id := if id = 0 then { path := ["Base"] } else { path := ["Derived"], base := some { «structure» := 0 } }
  structByPath path := if path = ["Base"] then some 0 else if path = ["Derived"] then some 1 else none
  structByPath_path := by decide

/-- `f(i32, const Base&)` with an `i32` and a `Derived`. -/
def mixedCall : Call Bool Unit where
  forms :=
    { resolve := fun derived _ context ↦
        (if derived then ⟨.struct ["Derived"] [], .mutablePlace⟩ else temporary (.scalar .i32), context)
      nullState := fun _ _ ↦ .unknown }
  program := { decls := baseAndDerived, fuel := 3 }
  owner := { path := ["Owner"], isClass := false }
  overloads :=
    { parameterLists := [[.scalar .i32, .reference false (.struct ["Base"] [])]]
      declared := by decide
      distinct := by decide
      closed := by decide }
  arguments := [.other false, .other true]
  context := ()

/-- The free function takes the call that the member function rejects. -/
theorem mixedCall_divides : ¬OneRule mixedCall := by
  intro hrule
  have hfree : mixedCall.free = .selected [.scalar .i32, .reference false (.struct ["Base"] [])]
      [temporary (.scalar .i32), ⟨.struct ["Derived"] [], .mutablePlace⟩] := by decide +kernel
  have hmember : mixedCall.member = .rejected "RES019" []
      [temporary (.scalar .i32), ⟨.struct ["Derived"] [], .mutablePlace⟩] := by decide +kernel
  have hagrees := hrule.members
  rw [hfree, hmember] at hagrees
  exact hagrees

end Overloads

end Stainless.Compiler
