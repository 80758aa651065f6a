import Mathlib
import Stainless.Reasoning.Budgets
import Stainless.Syntax.Expressions

/-!
# Precedence

The parser groups the tokens of an expression as its parentheses and its precedences say.
-/

open Reasoning

namespace Stainless.Syntax

open Source (SyntaxKind Token Tree)

namespace Parser

/-! ## 1. The state behind some trees -/

/-- The parser when it has put these trees behind the others and has these tokens left. -/
def after (parser : Parser) (trees : List Tree) (rest : List Token) : Parser :=
  { parser with tokens := rest, children := parser.children ++ trees }

@[simp] theorem after_tokens (parser : Parser) (trees : List Tree) (rest : List Token) :
    (parser.after trees rest).tokens = rest := rfl

@[simp] theorem after_after (parser : Parser) (trees trees' : List Tree) (rest rest' : List Token) :
    (parser.after trees rest).after trees' rest' = parser.after (trees ++ trees') rest' := by
  simp [after]

theorem after_nil (parser : Parser) : parser.after [] parser.tokens = parser := by
  simp [after]

theorem bump_eq {parser : Parser} {token : Token} {tokens : List Token}
    (h : parser.tokens = token :: tokens) : parser.bump = parser.after [.token token] tokens := by
  simp only [bump, h, after]

theorem isAt_eq {parser : Parser} {token : Token} {tokens : List Token}
    (h : parser.tokens = token :: tokens) (kind : SyntaxKind) :
    parser.isAt kind = decide (token.kind = kind) := by
  simp [isAt, current, nth, h]

theorem atAny_eq {parser : Parser} {token : Token} {tokens : List Token}
    (h : parser.tokens = token :: tokens) (kinds : List SyntaxKind) :
    parser.atAny kinds = kinds.contains token.kind := by
  simp [atAny, current, nth, h]

theorem expect_eq {parser : Parser} {token : Token} {tokens : List Token}
    (h : parser.tokens = token :: tokens) {kind : SyntaxKind} (hkind : token.kind = kind) (message : String) :
    parser.expect kind message = parser.after [.token token] tokens := by
  rw [expect, isAt_eq h, hkind, decide_eq_true rfl, if_pos rfl, bump_eq h]

theorem expect_after (parser : Parser) (trees : List Tree) (token : Token) (tokens : List Token)
    (kind : SyntaxKind) (hkind : token.kind = kind) (message : String) :
    (parser.after trees (token :: tokens)).expect kind message =
      parser.after (trees ++ [.token token]) tokens := by
  rw [expect_eq (after_tokens _ _ _) hkind, after_after]

/-- A node around what stands behind a checkpoint. -/
theorem finish_startNodeAt (parser : Parser) (front trees : List Tree) (kind : SyntaxKind)
    (tokens rest : List Token) :
    (((parser.after front tokens).startNodeAt parser.checkpoint kind).after trees rest).finish =
      parser.after [.node kind (front ++ trees)] rest := by
  simp [after, startNodeAt, finish, checkpoint]

theorem finish_start (parser : Parser) (trees : List Tree) (kind : SyntaxKind) (rest : List Token) :
    ((parser.start kind).after trees rest).finish = parser.after [.node kind trees] rest := by
  simp [after, start, finish]

theorem segments_eq {message : String} {left : Nat} {parser : Parser} (names : List String) {rest : List Token}
    (htokens : parser.tokens = segmentTokens names ++ rest) (hleft : parser.tokens.length ≤ left)
    (hrest : ∀ token tokens, rest = token :: tokens → token.kind ≠ .colonColon) :
    segments message left parser = parser.after ((segmentTokens names).map .token) rest := by
  induction names generalizing parser left with
  | nil =>
      have hstop : parser.isAt .colonColon = false := by
        cases rest with
        | nil => simp [isAt, current, nth, htokens, segmentTokens]
        | cons token tokens =>
            rw [isAt_eq htokens, decide_eq_false (hrest token tokens rfl)]
      have hsame : parser.after [] rest = parser := by
        have htokens : parser.tokens = rest := htokens
        rw [← htokens, after_nil]
      cases left with
      | zero => exact hsame.symm
      | succ left =>
          rw [segments, hstop]
          exact hsame.symm
  | cons name names ih =>
      have htokens : parser.tokens =
          ⟨.colonColon, "::"⟩ :: ⟨.identifier, name⟩ :: (segmentTokens names ++ rest) := htokens
      cases left with
      | zero =>
          rw [htokens] at hleft
          cases hleft
      | succ left =>
          have hlength : (segmentTokens names ++ rest).length ≤ left := by
            rw [htokens] at hleft
            simp only [List.length_cons] at hleft
            omega
          rw [segments, isAt_eq htokens, decide_eq_true rfl, if_pos rfl, bump_eq htokens,
            expect_eq (after_tokens _ _ _) rfl, after_after, ih (after_tokens _ _ _) (by simpa using hlength),
            after_after]
          rfl

theorem parseSegments_eq {message : String} {parser : Parser} (names : List String) {rest : List Token}
    (htokens : parser.tokens = segmentTokens names ++ rest)
    (hrest : ∀ token tokens, rest = token :: tokens → token.kind ≠ .colonColon) :
    parser.parseSegments message = parser.after ((segmentTokens names).map .token) rest :=
  segments_eq names htokens (Nat.le_refl _) hrest

/-! ## 2. Where an operand ends -/

/-- The tokens go on with nothing that belongs to an operand. -/
def stops : List Token → Bool
  | [] => true
  | token :: tokens =>
      !([SyntaxKind.lParen, .dot, .lBracket, .plusPlus, .minusMinus, .lBrace, .colonColon].contains
          token.kind) &&
        !(token.kind = .bang && tokens.head?.map Token.kind = some .lParen)

variable (statements : Statements)

theorem parsePostfix_stops {parser : Parser} (h : stops parser.tokens = true) (checkpoint : Nat)
    (aggregateAllowed : Bool) :
    Yields (fun budget ↦ parsePostfix statements budget checkpoint aggregateAllowed parser) parser := by
  refine (yields_some parser).succ fun budget ↦ ?_
  rw [parsePostfix]
  cases htokens : parser.tokens with
  | nil => simp [isAt, atAny, current, nth, htokens]
  | cons token tokens =>
      rw [htokens] at h
      simp only [stops, List.contains_cons, List.contains_nil, Bool.or_false, Bool.and_eq_true,
        Bool.not_eq_true', Bool.or_eq_false_iff, beq_eq_false_iff_ne, Bool.and_eq_false_iff,
        decide_eq_false_iff_not] at h
      obtain ⟨⟨hlParen, hdot, hlBracket, hplus, hminus, hlBrace, _⟩, hmacro⟩ := h
      have hnth : parser.nth 1 = tokens.head?.map Token.kind := by
        rw [nth, htokens, List.getElem?_cons_succ, List.head?_eq_getElem?]
      simp only [isAt_eq htokens, atAny_eq htokens, hnth, decide_eq_false hlParen, decide_eq_false hdot,
        decide_eq_false hlBracket, decide_eq_false hlBrace, List.contains_cons, List.contains_nil,
        beq_eq_false_iff_ne.mpr hplus, beq_eq_false_iff_ne.mpr hminus, Bool.or_self, Bool.false_and]
      cases hmacro with
      | inl hbang => simp [hbang]
      | inr hhead => simp [hhead]

theorem parseInfix_stops {parser : Parser} {minimum : Nat}
    (h : ∀ powers, parser.current.bind infixBindingPower = some powers → powers.1 < minimum)
    (checkpoint : Nat) :
    Yields (fun budget ↦ parseInfix statements budget checkpoint minimum parser) parser := by
  refine (yields_some parser).succ fun budget ↦ ?_
  rw [parseInfix]
  cases hpowers : parser.current.bind infixBindingPower with
  | none => rfl
  | some powers =>
      have hlt := h powers hpowers
      exact if_pos hlt

/-! ## 3. What parses -/

def headKind (tokens : List Token) : Option SyntaxKind := tokens.head?.map Token.kind

theorem current_eq (parser : Parser) : parser.current = headKind parser.tokens := by
  simp [current, nth, headKind, List.head?_eq_getElem?]

/-- The powers below which operators can follow an expression. -/
def bound : Expression → Nat
  | .binary operator _ _ => operator.rightLevel
  | _ => postfixLevel

/-- What stands behind an expression belongs to nothing in it. -/
structure Follows (expression : Expression) (rest : List Token) : Prop where
  stops : stops rest = true
  powers : ∀ powers, (headKind rest).bind infixBindingPower = some powers → powers.1 < bound expression
  notLess : expression.endsInName = true → headKind rest ≠ some .less

/-- An operand is read, and then what follows it. -/
def OperandParses (operand : Expression) : Prop :=
  ∀ (parser result : Parser) (rest : List Token) (aggregateAllowed : Bool),
    parser.tokens = operand.tokens ++ rest → headKind rest ≠ some .colonColon →
    (operand.endsInName = true → headKind rest ≠ some .less) →
    (∀ aggregateAllowed, Yields (fun budget ↦ parsePostfix statements budget parser.checkpoint aggregateAllowed
      (parser.after [operand.tree] rest)) result) →
    Yields (fun budget ↦ parsePrefixOrPrimary statements budget parser >>=
      parsePostfix statements budget parser.checkpoint aggregateAllowed) result

/-- An expression is read, and then the operators that follow it. -/
def ExpressionParses (expression : Expression) : Prop :=
  ∀ (parser result : Parser) (rest : List Token) (minimum : Nat),
    parser.tokens = expression.tokens ++ rest → Follows expression rest → minimum ≤ expression.level →
    Yields (fun budget ↦ parseInfix statements budget parser.checkpoint minimum
      (parser.after [expression.tree] rest)) result →
    Yields (fun budget ↦ parseExpressionBp statements budget minimum parser) result

variable {statements}

theorem operandParses_of_yields {operand : Expression}
    (h : ∀ (parser : Parser) (rest : List Token), parser.tokens = operand.tokens ++ rest →
      headKind rest ≠ some .colonColon → (operand.endsInName = true → headKind rest ≠ some .less) →
      Yields (fun budget ↦ parsePrefixOrPrimary statements budget parser) (parser.after [operand.tree] rest)) :
    OperandParses statements operand := by
  intro parser result rest aggregateAllowed htokens hrest hless hnext
  exact (h parser rest htokens hrest hless).bind (hnext aggregateAllowed)

/-- A primary expression begins with none of the prefix operators. -/
theorem parsePrefixOrPrimary_primary {parser result : Parser} {token : Token} {tokens : List Token}
    (htokens : parser.tokens = token :: tokens)
    (hkind : [SyntaxKind.plus, .minus, .bang, .tilde, .plusPlus, .minusMinus].contains token.kind = false)
    (h : Yields (fun budget ↦ parsePrimary statements budget parser) result) :
    Yields (fun budget ↦ parsePrefixOrPrimary statements budget parser) result := by
  refine h.succ fun budget ↦ ?_
  rw [parsePrefixOrPrimary, atAny_eq htokens, hkind]
  rfl

theorem literal_parses (value : Literal) : OperandParses statements (.literal value) := by
  apply operandParses_of_yields
  intro parser rest htokens _ _
  have htokens : parser.tokens = value.token :: rest := htokens
  apply parsePrefixOrPrimary_primary htokens (by cases value <;> rfl)
  refine (yields_some _).succ fun budget ↦ ?_
  have hliteral : parser.current.any SyntaxKind.isLiteral = true := by
    rw [current_eq, htokens]
    cases value <;> rfl
  have hstart : (parser.start .literalExpression).tokens = value.token :: rest := htokens
  rw [parsePrimary, hliteral, if_pos rfl, bump_eq hstart, finish_start]
  rfl

theorem name_parses (head : NameHead) (names : List String) :
    OperandParses statements (.name head names) := by
  apply operandParses_of_yields
  intro parser rest htokens hrest hless
  have htokens : parser.tokens = head.token :: (segmentTokens names ++ rest) := htokens
  apply parsePrefixOrPrimary_primary htokens (by cases head <;> rfl)
  refine (yields_some _).succ fun budget ↦ ?_
  have hliteral : parser.current.any SyntaxKind.isLiteral = false := by
    rw [current_eq, htokens]
    cases head <;> rfl
  have hname : parser.atAny [.identifier, .moveKw] = true := by
    rw [atAny_eq htokens]
    cases head <;> rfl
  have hstart : (parser.start .nameExpression).tokens = head.token :: (segmentTokens names ++ rest) := htokens
  have hsegments : ((parser.start .nameExpression).bump).parseSegments "expected a name after `::`" =
      (parser.start .nameExpression).after (.token head.token :: (segmentTokens names).map .token) rest := by
    rw [bump_eq hstart, parseSegments_eq names (after_tokens _ _ _), after_after]
    · rfl
    · intro token tokens heq hkind
      rw [heq] at hrest
      exact hrest (congrArg some hkind)
  have hnotLess : ((parser.start .nameExpression).after
      (.token head.token :: (segmentTokens names).map .token) rest).isAt .less = false := by
    rw [isAt, current_eq]
    exact decide_eq_false (hless rfl)
  rw [parsePrimary, hliteral, hname, hsegments]
  simp only [hnotLess, Bool.false_and]
  exact congrArg some (finish_start _ _ _ _)

theorem stops_of_kind {token : Token} (tokens : List Token)
    (h : [SyntaxKind.lParen, .dot, .lBracket, .plusPlus, .minusMinus, .lBrace, .colonColon, .bang].contains
      token.kind = false) : stops (token :: tokens) = true := by
  simp only [List.contains_cons, List.contains_nil, Bool.or_false, Bool.or_eq_false_iff,
    beq_eq_false_iff_ne] at h
  simp [stops, h]

/-- What ends an expression inside another one. -/
def closes : SyntaxKind → Bool
  | .rParen | .rBracket | .comma => true
  | _ => false

theorem closes_cases {kind : SyntaxKind} (h : closes kind = true) :
    kind = .rParen ∨ kind = .rBracket ∨ kind = .comma := by
  cases kind <;> first | cases h; done | simp

theorem infixBindingPower_of_closes {kind : SyntaxKind} (h : closes kind = true) :
    infixBindingPower kind = none := by
  cases closes_cases h with
  | inl hkind => rw [hkind]; rfl
  | inr hkind =>
      cases hkind with
      | inl hkind => rw [hkind]; rfl
      | inr hkind => rw [hkind]; rfl

theorem follows_of_closes (expression : Expression) {token : Token} (tokens : List Token)
    (h : closes token.kind = true) : Follows expression (token :: tokens) where
  stops := by
    apply stops_of_kind
    rcases closes_cases h with hkind | hkind | hkind <;> rw [hkind] <;> rfl
  powers := fun powers (hpowers : infixBindingPower token.kind = some powers) ↦ by
    rw [infixBindingPower_of_closes h] at hpowers
    cases hpowers
  notLess := fun _ hless ↦ by
    rw [Option.some.inj hless] at h
    cases h

/-- An expression between brackets or commas. -/
theorem ExpressionParses.inner {expression : Expression} (h : ExpressionParses statements expression)
    {parser : Parser} (token : Token) (rest : List Token)
    (htokens : parser.tokens = expression.tokens ++ token :: rest) (hcloses : closes token.kind = true) :
    Yields (fun budget ↦ parseExpressionBp statements budget 0 parser)
      (parser.after [expression.tree] (token :: rest)) := by
  refine h parser _ (token :: rest) 0 htokens (follows_of_closes expression rest hcloses) (Nat.zero_le _)
    (parseInfix_stops statements ?_ _)
  intro powers hpowers
  rw [current_eq, after_tokens] at hpowers
  have hpowers : infixBindingPower token.kind = some powers := hpowers
  rw [infixBindingPower_of_closes hcloses] at hpowers
  cases hpowers

theorem parenthesized_parses {inner : Expression} (h : ExpressionParses statements inner) :
    OperandParses statements (.parenthesized inner) := by
  apply operandParses_of_yields
  intro parser rest htokens _ _
  have htokens : parser.tokens = lParen :: (inner.tokens ++ rParen :: rest) := by
    rw [htokens, Expression.tokens]
    simp
  apply parsePrefixOrPrimary_primary htokens rfl
  have hstart : (parser.start .parenthesizedExpression).tokens =
      lParen :: (inner.tokens ++ rParen :: rest) := htokens
  have hinner := h.inner rParen rest (after_tokens (parser.start .parenthesizedExpression) [.token lParen] _) rfl
  have hnode : Yields (fun budget ↦
      parseExpressionBp statements budget 0 (parser.start .parenthesizedExpression).bump >>= fun parser ↦
        some (parser.expect .rParen "expected `)`").finish)
      (parser.after [(Expression.parenthesized inner).tree] rest) := by
    rw [bump_eq hstart]
    refine hinner.bind ?_
    rw [after_after, expect_after _ _ rParen rest .rParen rfl, finish_start]
    exact yields_some _
  refine hnode.succ fun budget ↦ ?_
  have hliteral : parser.current.any SyntaxKind.isLiteral = false := by
    rw [current_eq, htokens]
    rfl
  rw [parsePrimary, hliteral, atAny_eq htokens, isAt_eq htokens]
  rfl

/-! ## 4. What follows an operand -/

/-- One postfix form around what stands behind the checkpoint. -/
theorem postfix_parses {operand whole : Expression} (first : Token) (more : List Token)
    (hoperand : OperandParses statements operand) (htokens : whole.tokens = operand.tokens ++ first :: more)
    (hcolon : first.kind ≠ .colonColon) (hless : first.kind ≠ .less)
    (hsuffix : ∀ (parser result : Parser) (rest : List Token) (aggregateAllowed : Bool),
      headKind rest ≠ some .colonColon →
      Yields (fun budget ↦ parsePostfix statements budget parser.checkpoint false
        (parser.after [whole.tree] rest)) result →
      Yields (fun budget ↦ parsePostfix statements budget parser.checkpoint aggregateAllowed
        (parser.after [operand.tree] (first :: (more ++ rest)))) result) :
    OperandParses statements whole := by
  intro parser result rest aggregateAllowed hparser hrest _ hnext
  refine hoperand parser result (first :: (more ++ rest)) aggregateAllowed ?_ ?_ ?_ fun aggregateAllowed' ↦ ?_
  · rw [hparser, htokens, List.append_assoc]
    rfl
  · exact fun h ↦ hcolon (Option.some.inj h)
  · exact fun _ h ↦ hless (Option.some.inj h)
  · exact hsuffix parser result rest aggregateAllowed' hrest (hnext false)

theorem postfixed_parses {operand : Expression} (operator : PostfixOperator)
    (h : OperandParses statements operand) : OperandParses statements (.postfixed operand operator) := by
  apply postfix_parses operator.token [] h rfl
  · cases operator <;> decide
  · cases operator <;> decide
  · intro parser result rest aggregateAllowed _ hnext
    refine hnext.succ fun budget ↦ ?_
    have htokens : (parser.after [operand.tree] (operator.token :: rest)).tokens = operator.token :: rest := rfl
    have hstart : ((parser.after [operand.tree] (operator.token :: rest)).startNodeAt parser.checkpoint
        .postfixExpression).tokens = operator.token :: rest := rfl
    rw [List.nil_append, parsePostfix, isAt_eq htokens, isAt_eq htokens, isAt_eq htokens, isAt_eq htokens,
      isAt_eq htokens, atAny_eq htokens, bump_eq hstart, finish_startNodeAt]
    cases operator <;> rfl

theorem await_parses {base : Expression} (h : OperandParses statements base) :
    OperandParses statements (.await base) := by
  apply postfix_parses dot [awaitKw] h rfl (by decide) (by decide)
  intro parser result rest aggregateAllowed _ hnext
  refine hnext.succ fun budget ↦ ?_
  have htokens : (parser.after [base.tree] (dot :: awaitKw :: rest)).tokens = dot :: awaitKw :: rest := rfl
  have hstart : ((parser.after [base.tree] (dot :: awaitKw :: rest)).startNodeAt parser.checkpoint
      .awaitExpression).tokens = dot :: awaitKw :: rest := rfl
  have hnth : (parser.after [base.tree] (dot :: awaitKw :: rest)).nth 1 = some .awaitKw := rfl
  show parsePostfix statements (budget + 1) parser.checkpoint aggregateAllowed
    (parser.after [base.tree] (dot :: awaitKw :: rest)) = _
  rw [parsePostfix, isAt_eq htokens, isAt_eq htokens, isAt_eq htokens, isAt_eq htokens, hnth,
    bump_eq hstart, bump_eq (after_tokens _ _ _), after_after, finish_startNodeAt]
  rfl

/-- The name or the position behind a dot. -/
theorem member_eq {parser : Parser} (member : Member) {rest : List Token}
    (htokens : parser.tokens = member.tokens ++ rest) (hrest : headKind rest ≠ some .colonColon) :
    (if parser.isAt .integer then parser.bump
      else parser.expect .identifier "expected a member name after `.`").parseSegments
        "expected a member name after `::`" = parser.after (member.tokens.map .token) rest := by
  have hcolon : ∀ token tokens, rest = token :: tokens → token.kind ≠ .colonColon := by
    intro token tokens heq hkind
    rw [heq] at hrest
    exact hrest (congrArg some hkind)
  cases member with
  | name text names =>
      have htext : parser.tokens = ⟨.identifier, text⟩ :: (segmentTokens names ++ rest) := htokens
      rw [isAt_eq htext, if_neg (by simp), expect_eq htext rfl,
        parseSegments_eq names (after_tokens _ _ _) hcolon, after_after]
      rfl
  | position text names =>
      have htext : parser.tokens = ⟨.integer, text⟩ :: (segmentTokens names ++ rest) := htokens
      rw [isAt_eq htext, if_pos (by simp), bump_eq htext,
        parseSegments_eq names (after_tokens _ _ _) hcolon, after_after]
      rfl

theorem field_parses {base : Expression} (member : Member) (h : OperandParses statements base) :
    OperandParses statements (.field base member) := by
  apply postfix_parses dot member.tokens h rfl (by decide) (by decide)
  intro parser result rest aggregateAllowed hcolon hnext
  refine hnext.succ fun budget ↦ ?_
  have htokens : (parser.after [base.tree] (dot :: (member.tokens ++ rest))).tokens =
      dot :: (member.tokens ++ rest) := rfl
  have hstart : ((parser.after [base.tree] (dot :: (member.tokens ++ rest))).startNodeAt parser.checkpoint
      .fieldExpression).tokens = dot :: (member.tokens ++ rest) := rfl
  have hnth : (parser.after [base.tree] (dot :: (member.tokens ++ rest))).nth 1 ≠ some .awaitKw := by
    cases member <;> simp [nth, after, Member.tokens]
  rw [parsePostfix, isAt_eq htokens, isAt_eq htokens, isAt_eq htokens, isAt_eq htokens, if_neg (by simp [dot]),
    if_neg (by simp [dot]), if_neg (by simp [dot]), if_pos (by simp [dot]), if_neg hnth, bump_eq hstart]
  simp only []
  rw [member_eq member (after_tokens _ _ _) hcolon, after_after, finish_startNodeAt]
  rfl

/-- The arguments of a call, up to the parenthesis. -/
theorem arguments_parse {arguments : List Expression}
    (h : ∀ argument ∈ arguments, ExpressionParses statements argument)
    (hstarts : ∀ argument ∈ arguments, ∃ token tokens, argument.tokens = token :: tokens ∧
      token.kind ≠ .rParen) (parser : Parser) (rest : List Token)
    (htokens : parser.tokens = Expression.argumentTokens arguments ++ rParen :: rest) :
    Yields (fun budget ↦ parseExpressions statements budget .rParen parser)
      (parser.after (Expression.argumentTrees arguments) (rParen :: rest)) := by
  induction arguments generalizing parser with
  | nil =>
      have htokens : parser.tokens = rParen :: rest := htokens
      refine (yields_some _).succ fun budget ↦ ?_
      rw [parseExpressions, isAt_eq htokens, if_pos (by simp [rParen])]
      exact congrArg some (by rw [Expression.argumentTrees, ← htokens, after_nil])
  | cons argument arguments ih =>
      obtain ⟨token, tokens, hargument, hkind⟩ := hstarts argument List.mem_cons_self
      have hparses := h argument List.mem_cons_self
      have hopen {more : List Token} (hparser : parser.tokens = argument.tokens ++ more) (budget : Nat) :
          parseExpressions statements (budget + 1) .rParen parser =
            parseExpressionBp statements budget 0 parser >>= fun parser ↦
              if parser.isAt .comma then parseExpressions statements budget .rParen parser.bump
              else some parser := by
        have hhead : parser.tokens = token :: (tokens ++ more) := by rw [hparser, hargument]; rfl
        rw [parseExpressions, isAt_eq hhead, if_neg]
        simp [atEnd, current_eq, hhead, headKind, hkind]
      cases arguments with
      | nil =>
          have htokens : parser.tokens = argument.tokens ++ rParen :: rest := by
            rw [htokens, Expression.argumentTokens]
          refine ((hparses.inner rParen rest htokens rfl).bind ?_).succ (hopen htokens)
          have hcomma : (parser.after [argument.tree] (rParen :: rest)).isAt .comma = false := rfl
          simp only [hcomma]
          exact yields_some _
      | cons second arguments =>
          have hrest : parser.tokens = argument.tokens ++
              comma :: (Expression.argumentTokens (second :: arguments) ++ rParen :: rest) := by
            rw [htokens, Expression.argumentTokens, List.append_assoc]
            · rfl
            · simp
          refine ((hparses.inner comma _ hrest rfl).bind ?_).succ (hopen hrest)
          have hcomma : (parser.after [argument.tree] (comma ::
            (Expression.argumentTokens (second :: arguments) ++ rParen :: rest))).isAt .comma = true := rfl
          simp only [hcomma, if_true]
          rw [bump_eq (after_tokens _ _ _), after_after]
          have hnext := ih (fun argument hmem ↦ h argument (List.mem_cons_of_mem _ hmem))
            (fun argument hmem ↦ hstarts argument (List.mem_cons_of_mem _ hmem))
            (parser.after ([argument.tree] ++ [.token comma])
              (Expression.argumentTokens (second :: arguments) ++ rParen :: rest)) rfl
          rw [after_after] at hnext
          exact hnext

/-- The arguments with their parentheses. -/
theorem argumentList_parses {arguments : List Expression}
    (h : ∀ argument ∈ arguments, ExpressionParses statements argument)
    (hstarts : ∀ argument ∈ arguments, ∃ token tokens, argument.tokens = token :: tokens ∧
      token.kind ≠ .rParen) (parser : Parser) (rest : List Token)
    (htokens : parser.tokens = lParen :: (Expression.argumentTokens arguments ++ rParen :: rest)) :
    Yields (fun budget ↦ parseArgumentList statements budget parser)
      (parser.after [.node .argumentList
        (.token lParen :: (Expression.argumentTrees arguments ++ [.token rParen]))] rest) := by
  have hstart : (parser.start .argumentList).tokens =
      lParen :: (Expression.argumentTokens arguments ++ rParen :: rest) := htokens
  have hlist : Yields (fun budget ↦
      parseExpressions statements budget .rParen (parser.start .argumentList).bump >>= fun parser ↦
        some (parser.expect .rParen "expected `)` after arguments").finish)
      (parser.after [.node .argumentList
        (.token lParen :: (Expression.argumentTrees arguments ++ [.token rParen]))] rest) := by
    rw [bump_eq hstart]
    refine (arguments_parse h hstarts _ rest (after_tokens _ _ _)).bind ?_
    rw [after_after, expect_after _ _ rParen rest .rParen rfl, finish_start]
    exact yields_some _
  exact hlist.succ fun budget ↦ by
    rw [parseArgumentList]
    rfl

theorem call_parses {callee : Expression} {arguments : List Expression}
    (hcallee : OperandParses statements callee)
    (h : ∀ argument ∈ arguments, ExpressionParses statements argument)
    (hstarts : ∀ argument ∈ arguments, ∃ token tokens, argument.tokens = token :: tokens ∧
      token.kind ≠ .rParen) : OperandParses statements (.call callee arguments) := by
  apply postfix_parses lParen (Expression.argumentTokens arguments ++ [rParen]) hcallee rfl (by decide)
    (by decide)
  intro parser result rest aggregateAllowed _ hnext
  rw [List.append_assoc]
  have htokens : (parser.after [callee.tree]
      (lParen :: (Expression.argumentTokens arguments ++ ([rParen] ++ rest)))).tokens =
      lParen :: (Expression.argumentTokens arguments ++ rParen :: rest) := rfl
  have hlist := argumentList_parses h hstarts ((parser.after [callee.tree] (lParen ::
    (Expression.argumentTokens arguments ++ ([rParen] ++ rest)))).startNodeAt parser.checkpoint .callExpression)
    rest htokens
  have hnode : Yields (fun budget ↦ parseArgumentList statements budget ((parser.after [callee.tree] (lParen ::
      (Expression.argumentTokens arguments ++ ([rParen] ++ rest)))).startNodeAt parser.checkpoint
        .callExpression) >>= fun tail ↦ parsePostfix statements budget parser.checkpoint false tail.finish)
      result := by
    refine hlist.bind ?_
    rw [finish_startNodeAt]
    exact hnext
  refine hnode.succ fun budget ↦ ?_
  rw [parsePostfix, isAt_eq htokens, isAt_eq htokens]
  rfl

theorem macroCall_parses {callee : Expression} {arguments : List Expression}
    (hcallee : OperandParses statements callee)
    (h : ∀ argument ∈ arguments, ExpressionParses statements argument)
    (hstarts : ∀ argument ∈ arguments, ∃ token tokens, argument.tokens = token :: tokens ∧
      token.kind ≠ .rParen) : OperandParses statements (.macroCall callee arguments) := by
  apply postfix_parses bang (lParen :: (Expression.argumentTokens arguments ++ [rParen])) hcallee rfl
    (by decide) (by decide)
  intro parser result rest aggregateAllowed _ hnext
  rw [List.cons_append, List.append_assoc]
  have htokens : (parser.after [callee.tree]
      (bang :: lParen :: (Expression.argumentTokens arguments ++ ([rParen] ++ rest)))).tokens =
      bang :: lParen :: (Expression.argumentTokens arguments ++ rParen :: rest) := rfl
  have hstart : ((parser.after [callee.tree] (bang :: lParen ::
      (Expression.argumentTokens arguments ++ ([rParen] ++ rest)))).startNodeAt parser.checkpoint
        .macroCallExpression).tokens =
      bang :: lParen :: (Expression.argumentTokens arguments ++ rParen :: rest) := rfl
  have hlist := argumentList_parses h hstarts
    (((parser.after [callee.tree] (bang :: lParen ::
      (Expression.argumentTokens arguments ++ ([rParen] ++ rest)))).startNodeAt parser.checkpoint
        .macroCallExpression).after [.token bang]
        (lParen :: (Expression.argumentTokens arguments ++ rParen :: rest))) rest rfl
  have hnode : Yields (fun budget ↦ parseArgumentList statements budget
      ((parser.after [callee.tree] (bang :: lParen ::
        (Expression.argumentTokens arguments ++ ([rParen] ++ rest)))).startNodeAt parser.checkpoint
          .macroCallExpression).bump >>= fun tail ↦
        parsePostfix statements budget parser.checkpoint false tail.finish) result := by
    rw [bump_eq hstart]
    refine hlist.bind ?_
    rw [after_after, finish_startNodeAt]
    exact hnext
  refine hnode.succ fun budget ↦ ?_
  rw [parsePostfix, isAt_eq htokens]
  rfl

theorem index_parses {base position : Expression} (hbase : OperandParses statements base)
    (h : ExpressionParses statements position) : OperandParses statements (.index base position) := by
  apply postfix_parses lBracket (position.tokens ++ [rBracket]) hbase rfl (by decide) (by decide)
  intro parser result rest aggregateAllowed _ hnext
  rw [List.append_assoc]
  have htokens : (parser.after [base.tree] (lBracket :: (position.tokens ++ ([rBracket] ++ rest)))).tokens =
      lBracket :: (position.tokens ++ rBracket :: rest) := rfl
  have hstart : ((parser.after [base.tree]
      (lBracket :: (position.tokens ++ ([rBracket] ++ rest)))).startNodeAt parser.checkpoint
        .indexExpression).tokens = lBracket :: (position.tokens ++ rBracket :: rest) := rfl
  have hnode : Yields (fun budget ↦ parseExpressionBp statements budget 0 ((parser.after [base.tree]
      (lBracket :: (position.tokens ++ ([rBracket] ++ rest)))).startNodeAt parser.checkpoint
        .indexExpression).bump >>= fun tail ↦ parsePostfix statements budget parser.checkpoint false
          (tail.expect .rBracket "expected `]` after index").finish) result := by
    rw [bump_eq hstart]
    refine (h.inner rBracket rest (after_tokens _ _ _) rfl).bind ?_
    rw [after_after, expect_after _ _ rBracket rest .rBracket rfl, finish_startNodeAt]
    exact hnext
  refine hnode.succ fun budget ↦ ?_
  rw [parsePostfix, isAt_eq htokens, isAt_eq htokens, isAt_eq htokens, isAt_eq htokens, isAt_eq htokens]
  rfl

/-! ## 5. Expressions -/

/-- An expression that is read before the loop over the infix operators begins. -/
theorem expression_of_head {expression : Expression}
    (h : ∀ (parser : Parser) (rest : List Token) (aggregateAllowed : Bool),
      parser.tokens = expression.tokens ++ rest → Follows expression rest →
      Yields (fun budget ↦ parsePrefixOrPrimary statements budget parser >>=
        parsePostfix statements budget parser.checkpoint aggregateAllowed)
        (parser.after [expression.tree] rest)) :
    ExpressionParses statements expression := by
  intro parser result rest minimum htokens hfollows _ hoperator
  have hall : Yields (fun budget ↦ (parsePrefixOrPrimary statements budget parser >>=
      parsePostfix statements budget parser.checkpoint (parser.isAt .identifier)) >>= fun whole ↦
        parseInfix statements budget parser.checkpoint minimum whole) result :=
    (h parser rest (parser.isAt .identifier) htokens hfollows).bind hoperator
  refine hall.succ fun budget ↦ ?_
  rw [parseExpressionBp]
  exact (Option.bind_assoc _ _ _).symm

theorem Follows.notColonColon {expression : Expression} {rest : List Token} (h : Follows expression rest) :
    headKind rest ≠ some .colonColon := by
  have hstops := h.stops
  cases rest with
  | nil => exact fun h ↦ nomatch h
  | cons token tokens =>
      intro hkind
      have hkind : token.kind = .colonColon := Option.some.inj hkind
      simp [Parser.stops, hkind] at hstops

theorem OperandParses.expression {operand : Expression} (h : OperandParses statements operand) :
    ExpressionParses statements operand := by
  apply expression_of_head
  intro parser rest aggregateAllowed htokens hfollows
  exact h parser _ rest aggregateAllowed htokens hfollows.notColonColon hfollows.notLess
    fun _ ↦ parsePostfix_stops statements hfollows.stops _ _

/-- The powers of the binary operators are all below that of the prefix operators. -/
theorem infixBindingPower_lt {kind : SyntaxKind} {powers : Nat × Nat} (h : infixBindingPower kind = some powers) :
    powers.1 < prefixLevel := by
  unfold infixBindingPower at h
  split at h <;> cases h <;> decide

theorem prefixed_parses (operator : PrefixOperator) {operand : Expression}
    (h : ExpressionParses statements operand) (hlevel : prefixLevel ≤ operand.level)
    (hbound : prefixLevel ≤ bound operand) :
    ExpressionParses statements (.prefixed operator operand) := by
  apply expression_of_head
  intro parser rest aggregateAllowed htokens hfollows
  have htokens : parser.tokens = operator.token :: (operand.tokens ++ rest) := htokens
  have hstart : (parser.start .prefixExpression).tokens = operator.token :: (operand.tokens ++ rest) := htokens
  have hpowers (powers : Nat × Nat) (hpowers : (headKind rest).bind infixBindingPower = some powers) :
      powers.1 < prefixLevel := by
    have ⟨kind, _, hkind⟩ := Option.bind_eq_some_iff.mp hpowers
    exact infixBindingPower_lt hkind
  have hoperand : Yields (fun budget ↦ parseExpressionBp statements budget prefixLevel
      ((parser.start .prefixExpression).after [.token operator.token] (operand.tokens ++ rest)))
      (((parser.start .prefixExpression).after [.token operator.token] (operand.tokens ++ rest)).after
        [operand.tree] rest) := by
    refine h _ _ rest prefixLevel (after_tokens _ _ _) ⟨hfollows.stops, fun powers hp ↦ ?_, hfollows.notLess⟩
      hlevel (parseInfix_stops statements (fun powers hp ↦ ?_) _)
    · exact Nat.lt_of_lt_of_le (hpowers powers hp) hbound
    · rw [current_eq, after_after, after_tokens] at hp
      exact hpowers powers hp
  have hhead : Yields (fun budget ↦ parsePrefixOrPrimary statements budget parser)
      (parser.after [(Expression.prefixed operator operand).tree] rest) := by
    have hnode : Yields (fun budget ↦ parseExpressionBp statements budget 11
        (parser.start .prefixExpression).bump >>= fun parser ↦ some parser.finish)
        (parser.after [(Expression.prefixed operator operand).tree] rest) := by
      rw [bump_eq hstart]
      refine hoperand.bind ?_
      rw [after_after, finish_start]
      exact yields_some _
    refine hnode.succ fun budget ↦ ?_
    rw [parsePrefixOrPrimary, atAny_eq htokens]
    cases operator <;> rfl
  exact hhead.bind (parsePostfix_stops statements hfollows.stops _ _)

theorem infixBindingPower_operator (operator : BinaryOperator) :
    infixBindingPower operator.token.kind = some (operator.level, operator.rightLevel) := by
  cases operator <;> rfl

/-- An operand of the level that its place needs is not continued by the operator. -/
theorem level_lt_bound {operator : BinaryOperator} {left : Expression}
    (h : operator.leftLevel ≤ left.level) : operator.level < bound left := by
  have hpositive : ∀ operator : BinaryOperator, 1 ≤ operator.level ∧ operator.level ≤ 10 := by
    intro operator
    cases operator <;> decide
  have hoperator := hpositive operator
  unfold BinaryOperator.leftLevel at h
  cases left with
  | binary inner _ _ =>
      have hinner := hpositive inner
      simp only [Expression.level] at h
      simp only [bound, BinaryOperator.rightLevel]
      split <;> split at h <;> omega
  | _ =>
      simp only [bound, postfixLevel]
      omega

theorem level_le_bound (expression : Expression) : expression.level ≤ bound expression := by
  cases expression with
  | binary operator _ _ =>
      show operator.level ≤ operator.rightLevel
      cases operator <;> decide
  | prefixed =>
      show prefixLevel ≤ postfixLevel
      decide
  | _ => exact Nat.le_refl _

theorem binary_parses (operator : BinaryOperator) {left right : Expression}
    (hleft : ExpressionParses statements left) (hright : ExpressionParses statements right)
    (hleftLevel : operator.leftLevel ≤ left.level) (hrightLevel : operator.rightLevel ≤ right.level)
    (hless : left.endsInName = true → operator ≠ .less) :
    ExpressionParses statements (.binary operator left right) := by
  intro parser result rest minimum htokens hfollows hminimum hoperator
  have htokens : parser.tokens = left.tokens ++ operator.token :: (right.tokens ++ rest) := by
    rw [htokens, Expression.tokens, List.append_assoc]
    rfl
  have hlevels : operator.level ≤ operator.leftLevel := by cases operator <;> decide
  have hbehindLeft : Follows left (operator.token :: (right.tokens ++ rest)) := {
    stops := stops_of_kind _ (by cases operator <;> rfl)
    powers := fun powers hpowers ↦ by
      have hpowers : infixBindingPower operator.token.kind = some powers := hpowers
      rw [infixBindingPower_operator] at hpowers
      cases hpowers
      exact level_lt_bound hleftLevel
    notLess := fun hname hkind ↦ by
      apply hless hname
      have hkind : operator.token.kind = .less := Option.some.inj hkind
      cases operator <;> first | rfl | cases hkind }
  have hbehindRight : Follows right rest := {
    stops := hfollows.stops
    powers := fun powers hpowers ↦
      Nat.lt_of_lt_of_le (hfollows.powers powers hpowers) (Nat.le_trans hrightLevel (level_le_bound right))
    notLess := hfollows.notLess }
  have hminimum : minimum ≤ operator.level := hminimum
  apply hleft parser result (operator.token :: (right.tokens ++ rest)) minimum htokens hbehindLeft (by omega)
  have hstart : ((parser.after [left.tree] (operator.token :: (right.tokens ++ rest))).startNodeAt
      parser.checkpoint .binaryExpression).tokens = operator.token :: (right.tokens ++ rest) := rfl
  have hnode : Yields (fun budget ↦ parseExpressionBp statements budget operator.rightLevel
      ((parser.after [left.tree] (operator.token :: (right.tokens ++ rest))).startNodeAt
        parser.checkpoint .binaryExpression).bump >>= fun tail ↦
          parseInfix statements budget parser.checkpoint minimum tail.finish) result := by
    rw [bump_eq hstart]
    have hoperand := hright _ _ rest operator.rightLevel (after_tokens
      ((parser.after [left.tree] (operator.token :: (right.tokens ++ rest))).startNodeAt
        parser.checkpoint .binaryExpression) [.token operator.token] (right.tokens ++ rest)) hbehindRight hrightLevel
      (parseInfix_stops statements (fun powers hpowers ↦ by
        rw [current_eq, after_after, after_tokens] at hpowers
        exact hfollows.powers powers hpowers) _)
    refine hoperand.bind ?_
    rw [after_after, finish_startNodeAt]
    exact hoperator
  refine hnode.succ fun budget ↦ ?_
  have hcurrent : (parser.after [left.tree] (operator.token :: (right.tokens ++ rest))).current.bind
      infixBindingPower = some (operator.level, operator.rightLevel) := infixBindingPower_operator operator
  rw [parseInfix, hcurrent]
  exact if_neg (by omega)

/-! ## 6. All expressions -/

/-- No expression begins with a closing parenthesis. -/
theorem tokens_head (expression : Expression) :
    ∃ token tokens, expression.tokens = token :: tokens ∧ token.kind ≠ .rParen := by
  have hsuffix {base : Expression} {more : List Token}
      (h : ∃ token tokens, base.tokens = token :: tokens ∧ token.kind ≠ .rParen) :
      ∃ token tokens, base.tokens ++ more = token :: tokens ∧ token.kind ≠ .rParen := by
    have ⟨token, tokens, htokens, hkind⟩ := h
    exact ⟨token, tokens ++ more, by rw [htokens]; rfl, hkind⟩
  cases expression with
  | name head names => exact ⟨_, _, rfl, by cases head <;> exact SyntaxKind.noConfusion⟩
  | literal value => exact ⟨_, _, rfl, by cases value <;> exact SyntaxKind.noConfusion⟩
  | parenthesized inner => exact ⟨_, _, rfl, by decide⟩
  | prefixed operator operand => exact ⟨_, _, rfl, by cases operator <;> decide⟩
  | field base => exact hsuffix (tokens_head base)
  | await base => exact hsuffix (tokens_head base)
  | call callee => exact hsuffix (tokens_head callee)
  | macroCall callee => exact hsuffix (tokens_head callee)
  | index base => exact hsuffix (tokens_head base)
  | postfixed operand => exact hsuffix (tokens_head operand)
  | binary _ left => exact hsuffix (tokens_head left)
  termination_by sizeOf expression

theorem of_mem {arguments : List Expression} {argument : Expression} (hmem : argument ∈ arguments) :
    (Expression.allGrouped arguments = true → argument.grouped = true) ∧
      (Expression.lessAvoidsAll Expression.endsInName arguments = true → argument.noLessBehindName = true) := by
  induction arguments with
  | nil => cases hmem
  | cons first arguments ih =>
      rw [Expression.allGrouped, Expression.lessAvoidsAll, Bool.and_eq_true, Bool.and_eq_true]
      cases List.mem_cons.mp hmem with
      | inl hsame =>
          rw [hsame]
          exact ⟨And.left, And.left⟩
      | inr hrest => exact ⟨fun h ↦ (ih hrest).1 h.2, fun h ↦ (ih hrest).2 h.2⟩

/-- Operands of the level of postfix forms are read by the loop over these, all other expressions by the loop
over the infix operators. -/
theorem grouped_step (expression : Expression) (hgrouped : expression.grouped = true)
    (hless : expression.noLessBehindName = true)
    (ih : ∀ part, sizeOf part < sizeOf expression → part.grouped = true → part.noLessBehindName = true →
      (postfixLevel ≤ part.level → OperandParses statements part) ∧ ExpressionParses statements part) :
    (postfixLevel ≤ expression.level → OperandParses statements expression) ∧
      ExpressionParses statements expression := by
  have hoperand (h : OperandParses statements expression) :
      (postfixLevel ≤ expression.level → OperandParses statements expression) ∧
        ExpressionParses statements expression := ⟨fun _ ↦ h, h.expression⟩
  -- parts are smaller; behind a name, `<` is no operator
  cases expression with
  | name head names => exact hoperand (name_parses head names)
  | literal value => exact hoperand (literal_parses value)
  | parenthesized inner => exact hoperand (parenthesized_parses (ih inner (by decreasing_tactic) hgrouped hless).2)
  | prefixed operator operand =>
      simp only [Expression.grouped, Bool.and_eq_true, decide_eq_true_eq] at hgrouped
      have hinner := ih operand (by decreasing_tactic) hgrouped.2 hless
      refine ⟨fun h ↦ absurd h (by show ¬postfixLevel ≤ prefixLevel; decide), ?_⟩
      exact prefixed_parses operator hinner.2 hgrouped.1 (Nat.le_trans hgrouped.1 (level_le_bound operand))
  | field base member =>
      simp only [Expression.grouped, Bool.and_eq_true, decide_eq_true_eq] at hgrouped
      exact hoperand (field_parses member ((ih base (by decreasing_tactic) hgrouped.2 hless).1 hgrouped.1))
  | await base =>
      simp only [Expression.grouped, Bool.and_eq_true, decide_eq_true_eq] at hgrouped
      exact hoperand (await_parses ((ih base (by decreasing_tactic) hgrouped.2 hless).1 hgrouped.1))
  | call callee arguments =>
      simp only [Expression.grouped, Bool.and_eq_true, decide_eq_true_eq] at hgrouped
      simp only [Expression.noLessBehindName, Expression.lessAvoids, Bool.and_eq_true] at hless
      refine hoperand (call_parses ((ih callee (by decreasing_tactic) hgrouped.1.2 hless.1).1 hgrouped.1.1)
        (fun argument hmem ↦ ?_) fun argument _ ↦ tokens_head argument)
      have hlt := List.sizeOf_lt_of_mem hmem
      exact (ih argument (by simp; omega) ((of_mem hmem).1 hgrouped.2) ((of_mem hmem).2 hless.2)).2
  | macroCall callee arguments =>
      simp only [Expression.grouped, Bool.and_eq_true, decide_eq_true_eq] at hgrouped
      simp only [Expression.noLessBehindName, Expression.lessAvoids, Bool.and_eq_true] at hless
      refine hoperand (macroCall_parses ((ih callee (by decreasing_tactic) hgrouped.1.2 hless.1).1 hgrouped.1.1)
        (fun argument hmem ↦ ?_) fun argument _ ↦ tokens_head argument)
      have hlt := List.sizeOf_lt_of_mem hmem
      exact (ih argument (by simp; omega) ((of_mem hmem).1 hgrouped.2) ((of_mem hmem).2 hless.2)).2
  | index base position =>
      simp only [Expression.grouped, Bool.and_eq_true, decide_eq_true_eq] at hgrouped
      simp only [Expression.noLessBehindName, Expression.lessAvoids, Bool.and_eq_true] at hless
      exact hoperand (index_parses ((ih base (by decreasing_tactic) hgrouped.1.2 hless.1).1 hgrouped.1.1)
        (ih position (by decreasing_tactic) hgrouped.2 hless.2).2)
  | postfixed operand operator =>
      simp only [Expression.grouped, Bool.and_eq_true, decide_eq_true_eq] at hgrouped
      exact hoperand (postfixed_parses operator ((ih operand (by decreasing_tactic) hgrouped.2 hless).1 hgrouped.1))
  | binary operator left right =>
      simp only [Expression.grouped, Bool.and_eq_true, decide_eq_true_eq] at hgrouped
      simp only [Expression.noLessBehindName, Expression.lessAvoids, Bool.and_eq_true, Bool.not_eq_true', Bool.and_eq_false_iff,
        decide_eq_false_iff_not] at hless
      refine ⟨fun h ↦ absurd h ?_, ?_⟩
      · show ¬postfixLevel ≤ operator.level
        cases operator <;> decide
      · refine binary_parses operator (ih left (by decreasing_tactic) hgrouped.1.2 hless.1.2).2
          (ih right (by decreasing_tactic) hgrouped.2.2 hless.2).2 hgrouped.1.1 hgrouped.2.1 fun hname ↦ ?_
        cases hless.1.1 with
        | inl hother => exact hother
        | inr hno => rw [hname] at hno; cases hno

theorem grouped_parses (expression : Expression) (hgrouped : expression.grouped = true)
    (hless : expression.noLessBehindName = true) :
    (postfixLevel ≤ expression.level → OperandParses statements expression) ∧
      ExpressionParses statements expression :=
  grouped_step expression hgrouped hless fun part _ ↦ grouped_parses part
  termination_by sizeOf expression

end Parser

/-! ## 7. Printing -/

namespace Expression

theorem le_level_enclose (needed : Nat) (expression : Expression) (h : needed ≤ postfixLevel) :
    needed ≤ (expression.enclose needed).level := by
  unfold enclose
  split
  · exact h
  · omega

theorem grouped_enclose (needed : Nat) (expression : Expression) :
    (expression.enclose needed).grouped = expression.grouped := by
  unfold enclose
  split <;> rfl

theorem strip_enclose (needed : Nat) (expression : Expression) :
    (expression.enclose needed).strip = expression.strip := by
  unfold enclose
  split <;> rfl

theorem leftLevel_le (operator : BinaryOperator) : operator.leftLevel ≤ postfixLevel := by
  cases operator <;> decide

theorem rightLevel_le (operator : BinaryOperator) : operator.rightLevel ≤ postfixLevel := by
  cases operator <;> decide

mutual

theorem grouped_parenthesize (expression : Expression) : expression.parenthesize.grouped = true := by
  have hprefix : prefixLevel ≤ postfixLevel := by decide
  cases expression with
  | name | literal => rfl
  | parenthesized inner => exact grouped_parenthesize inner
  | prefixed operator operand =>
      simp [parenthesize, grouped, le_level_enclose _ _ hprefix, grouped_enclose, grouped_parenthesize operand]
  | field base | await base | postfixed base =>
      simp [parenthesize, grouped, le_level_enclose, grouped_enclose, grouped_parenthesize base]
  | call callee arguments | macroCall callee arguments =>
      simp [parenthesize, grouped, le_level_enclose, grouped_enclose, grouped_parenthesize callee,
        allGrouped_parenthesizeAll arguments]
  | index base position =>
      simp [parenthesize, grouped, le_level_enclose, grouped_enclose, grouped_parenthesize base,
        grouped_parenthesize position]
  | binary operator left right =>
      simp [parenthesize, grouped, le_level_enclose _ _ (leftLevel_le operator),
        le_level_enclose _ _ (rightLevel_le operator), grouped_enclose, grouped_parenthesize left,
        grouped_parenthesize right]

theorem allGrouped_parenthesizeAll (arguments : List Expression) :
    allGrouped (parenthesizeAll arguments) = true := by
  cases arguments with
  | nil => rfl
  | cons argument arguments =>
      simp [parenthesizeAll, allGrouped, grouped_parenthesize argument, allGrouped_parenthesizeAll arguments]

end

mutual

theorem strip_parenthesize (expression : Expression) : expression.parenthesize.strip = expression.strip := by
  cases expression with
  | name | literal => rfl
  | parenthesized inner => simp [parenthesize, strip, strip_parenthesize inner]
  | prefixed operator base | field base | await base | postfixed base =>
      simp [parenthesize, strip, strip_enclose, strip_parenthesize base]
  | call callee arguments | macroCall callee arguments =>
      simp [parenthesize, strip, strip_enclose, strip_parenthesize callee, stripAll_parenthesizeAll arguments]
  | index base position =>
      simp [parenthesize, strip, strip_enclose, strip_parenthesize base, strip_parenthesize position]
  | binary operator left right =>
      simp [parenthesize, strip, strip_enclose, strip_parenthesize left, strip_parenthesize right]

theorem stripAll_parenthesizeAll (arguments : List Expression) :
    stripAll (parenthesizeAll arguments) = stripAll arguments := by
  cases arguments with
  | nil => rfl
  | cons argument arguments =>
      simp [parenthesizeAll, stripAll, strip_parenthesize argument, stripAll_parenthesizeAll arguments]

end

end Expression

namespace Expression

theorem enclose_of_le {needed : Nat} {expression : Expression} (h : needed ≤ expression.level) :
    expression.enclose needed = expression :=
  if_neg (Nat.not_lt.mpr h)

mutual

/-- No parentheses are added where none are needed. -/
theorem parenthesize_grouped (expression : Expression) (h : expression.grouped = true) :
    expression.parenthesize = expression := by
  cases expression with
  | name | literal => rfl
  | parenthesized inner => rw [parenthesize, parenthesize_grouped inner h]
  | prefixed operator base | field base | await base | postfixed base =>
      simp only [grouped, Bool.and_eq_true, decide_eq_true_eq] at h
      rw [parenthesize, parenthesize_grouped base h.2, enclose_of_le h.1]
  | call callee arguments | macroCall callee arguments =>
      simp only [grouped, Bool.and_eq_true, decide_eq_true_eq] at h
      rw [parenthesize, parenthesize_grouped callee h.1.2, enclose_of_le h.1.1,
        parenthesizeAll_grouped arguments h.2]
  | index base position =>
      simp only [grouped, Bool.and_eq_true, decide_eq_true_eq] at h
      rw [parenthesize, parenthesize_grouped base h.1.2, enclose_of_le h.1.1, parenthesize_grouped position h.2]
  | binary operator left right =>
      simp only [grouped, Bool.and_eq_true, decide_eq_true_eq] at h
      rw [parenthesize, parenthesize_grouped left h.1.2, enclose_of_le h.1.1, parenthesize_grouped right h.2.2,
        enclose_of_le h.2.1]

theorem parenthesizeAll_grouped (arguments : List Expression) (h : allGrouped arguments = true) :
    parenthesizeAll arguments = arguments := by
  cases arguments with
  | nil => rfl
  | cons argument arguments =>
      rw [allGrouped, Bool.and_eq_true] at h
      rw [parenthesizeAll, parenthesize_grouped argument h.1, parenthesizeAll_grouped arguments h.2]

end

end Expression

theorem Parser.parenthesize_parses (statements : Parser.Statements) (expression : Expression)
    (hless : expression.parenthesize.noLessBehindName = true) (parser : Parser) (rest : List Token)
    (htokens : parser.tokens = expression.parenthesize.tokens ++ rest) (hstops : Parser.stops rest = true)
    (hoperator : (Parser.headKind rest).bind Parser.infixBindingPower = none) :
    Yields (fun budget ↦ Parser.parseExpression statements budget parser)
      (parser.after [expression.parenthesize.tree] rest) := by
  have hparses : Parser.ExpressionParses statements expression.parenthesize :=
    (Parser.grouped_parses _ (Expression.grouped_parenthesize expression) hless).2
  have hfollows : Parser.Follows expression.parenthesize rest := {
    stops := hstops
    powers := fun powers hpowers ↦ by
      rw [hoperator] at hpowers
      cases hpowers
    notLess := fun _ hkind ↦ by
      rw [hkind] at hoperator
      cases hoperator }
  refine hparses parser _ rest 0 htokens hfollows (Nat.zero_le _) (Parser.parseInfix_stops statements ?_ _)
  intro powers hpowers
  rw [Parser.current_eq, Parser.after_tokens, hoperator] at hpowers
  cases hpowers

/-- The tokens of an expression, with the fewest parentheses, are read as that expression; the tree has nodes
for the parentheses, and nothing else is added. -/
theorem parse_printed (statements : Parser.Statements) (expression : Expression)
    (hless : expression.parenthesize.noLessBehindName = true) (parser : Parser) (rest : List Token)
    (htokens : parser.tokens = expression.parenthesize.tokens ++ rest) (hstops : Parser.stops rest = true)
    (hoperator : (Parser.headKind rest).bind Parser.infixBindingPower = none) :
    Yields (fun budget ↦ Parser.parseExpression statements budget parser)
        (parser.after [expression.parenthesize.tree] rest) ∧
      expression.parenthesize.strip = expression.strip ∧
      (expression.grouped = true → expression.parenthesize = expression) :=
  ⟨Parser.parenthesize_parses statements expression hless parser rest htokens hstops hoperator,
    Expression.strip_parenthesize expression, Expression.parenthesize_grouped expression⟩

def variableNamed (text : String) : Expression := .name (.identifier text) []

/-- `-(a + b) * c == d.e(f)[0]` -/
def equation : Expression :=
  .binary .equal
    (.binary .multiply (.prefixed .minus (.binary .add (variableNamed "a") (variableNamed "b")))
      (variableNamed "c"))
    (.index (.call (.field (variableNamed "d") (.name "e" [])) [variableNamed "f"]) (.literal (.integer "0")))

theorem parse_equation :
    Yields (fun budget ↦ Parser.parseExpression ⟨fun _ ↦ none⟩ budget { tokens := equation.parenthesize.tokens })
        (Parser.after { tokens := equation.parenthesize.tokens } [equation.parenthesize.tree] []) ∧
      equation.parenthesize.strip = equation.strip ∧
      (equation.grouped = true → equation.parenthesize = equation) :=
  parse_printed ⟨fun _ ↦ none⟩ equation (by decide) { tokens := equation.parenthesize.tokens } []
    (List.append_nil _).symm rfl rfl

/-! ## 8. A name before `<` -/

/-- `a + b < c > (d)` -/
def comparison : Expression :=
  .binary .greater
    (.binary .less (.binary .add (variableNamed "a") (variableNamed "b")) (variableNamed "c"))
    (.parenthesized (variableNamed "d"))

/-- What is read instead: a sum with a call of `b<c>`. -/
def genericCall : Tree :=
  .node .binaryExpression [(variableNamed "a").tree, .token ⟨.plus, "+"⟩,
    .node .callExpression [
      .node .nameExpression [.token ⟨.identifier, "b"⟩,
        .node .genericArgumentList [.token ⟨.less, "<"⟩, .node .typeReference [.token ⟨.identifier, "c"⟩],
          .token ⟨.greater, ">"⟩]],
      .node .argumentList [.token lParen, (variableNamed "d").tree, .token rParen]]]

theorem comparison_yields (statements : Parser.Statements) :
    Yields (fun budget ↦ Parser.parseExpression statements budget { tokens := comparison.tokens })
      (Parser.after { tokens := comparison.tokens } [genericCall] []) := by
  have hdeep (budget : Nat) :
      Parser.parseExpression statements (budget + 40) { tokens := comparison.tokens } =
        some (Parser.after { tokens := comparison.tokens } [genericCall] []) := by
    cbv
  refine ⟨40, fun budget hbudget ↦ ?_⟩
  obtain ⟨more, hmore⟩ := Nat.exists_eq_add_of_le' hbudget
  rw [hmore]
  exact hdeep more

/-- Nothing is compared with a bare name here, but the name before `<` is read with generic arguments. -/
theorem comparison_misread :
    ¬∀ (statements : Parser.Statements) (expression : Expression), expression.lessAvoids Expression.isName = true →
      Yields (fun budget ↦ Parser.parseExpression statements budget { tokens := expression.parenthesize.tokens })
        (Parser.after { tokens := expression.parenthesize.tokens } [expression.parenthesize.tree] []) := by
  intro h
  have hread := h ⟨fun _ ↦ none⟩ comparison (by decide)
  have hsame : comparison.parenthesize = comparison := Expression.parenthesize_grouped comparison (by decide)
  rw [hsame] at hread
  have hequal := hread.unique (comparison_yields ⟨fun _ ↦ none⟩)
  have htree : [comparison.tree] = [genericCall] := congrArg Parser.children hequal
  simp [comparison, Expression.tree, genericCall, BinaryOperator.token] at htree

end Stainless.Syntax
