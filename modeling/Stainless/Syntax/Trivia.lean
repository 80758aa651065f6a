import Stainless.Syntax.Lexing
import Stainless.Syntax.SideBySide

/-!
# Blanks and comments do not matter

Every routine of the parser builds the same trees on both sides, but for the blanks and comments.
-/

namespace Stainless.Syntax.Source

open Reasoning

variable {budget budget' : Nat}

/-! ## 1. What the parser looks ahead for -/

theorem sees_switchPatternAlternativeStartsHere : Sees (·.switchPatternAlternativeStartsHere) :=
  (sees_current.map fun current ↦ current.any SyntaxKind.isLiteral).or
    ((sees_isAt .identifier).and ((sees_nth 1).map fun kind ↦ decide (kind = some .colonColon)))

theorem sees_genericArgumentsAreFollowedByConstruction : Sees (·.genericArgumentsAreFollowedByConstruction) := by
  intro parser parser' h
  show parser.genericArgumentsAreFollowedByConstruction = parser'.genericArgumentsAreFollowedByConstruction
  unfold Parser.genericArgumentsAreFollowedByConstruction
  rw [ahead_congr h]

theorem sees_looksLikeLambda : Sees (·.looksLikeLambda) :=
  (sees_isAt .lBracket).and (sees_ahead.map fun kinds ↦ Parser.lambdaAfter kinds 0)

theorem sees_looksLikeDeclaration : Sees (·.looksLikeDeclaration) := by
  intro parser parser' h
  show parser.looksLikeDeclaration = parser'.looksLikeDeclaration
  unfold Parser.looksLikeDeclaration
  rw [ahead_congr h]

theorem sees_forClauseIsRange : Sees (·.forClauseIsRange) := sees_ahead.map fun kinds ↦ Parser.rangeAfter kinds 0

theorem sees_structMemberIsFunction : Sees (·.structMemberIsFunction) :=
  sees_ahead.map fun kinds ↦ Parser.memberFunctionAfter kinds 0

theorem sees_looksLikeConstructor : Sees (·.looksLikeConstructor) := by
  intro parser parser' h
  show parser.looksLikeConstructor = parser'.looksLikeConstructor
  unfold Parser.looksLikeConstructor
  rw [ahead_congr h]

theorem sees_constructorNodeKind : Sees (·.constructorNodeKind) := sees_ahead.map fun kinds ↦
  if Parser.bodyAfter kinds 0 then SyntaxKind.constructorDefinition else SyntaxKind.constructorDeclaration

theorem sees_functionNodeKind : Sees (·.functionNodeKind) := sees_ahead.map fun kinds ↦
  if Parser.bodyAfter kinds 0 then SyntaxKind.functionDefinition else SyntaxKind.functionDeclaration

theorem sees_word (word : String) : Sees fun parser ↦ parser.isAt .identifier && parser.currentText = some word :=
  (sees_isAt .identifier).and (sees_currentText.map fun text ↦ decide (text = some word))

theorem sees_staticConstant : Sees (·.staticConstant) :=
  (sees_word "static").and ((sees_nth 1).map fun kind ↦ decide (kind = some .constKw))

section

variable [Rowan]

/-! ## 2. Types and names -/

theorem alike_parseGenericArguments {parseType parseType' : Parse Unit} (h : Alike 0 0 parseType parseType') :
    Alike 0 1 (parseGenericArguments parseType budget) (parseGenericArguments parseType' budget') :=
  .start (.next .bump (.next (.commaSeparated (.whether (sees_isAt _) (.start (.next .bump .last)) h) _ _)
    (.moved .expect .last)))

theorem alike_parseFunctionTypeArguments {parseType parseType' : Parse Unit} (h : Alike 0 0 parseType parseType') :
    Alike 0 1 (parseFunctionTypeArguments parseType budget) (parseFunctionTypeArguments parseType' budget') :=
  .start (.next .bump (.start (.next h (.next .expected (.next (.commaSeparated h _ _)
    (.next .expected (.finish (.moved .expect .last))))))))

theorem alike_parseNamedType {parseType parseType' : Parse Unit} (h : Alike 0 0 parseType parseType') :
    Alike 0 0 (parseNamedType parseType budget) (parseNamedType parseType' budget') := by
  refine .read fun parser parser' hsame ↦ ?_
  rw [currentText_congr hsame]
  exact .next .bump (.next (.segments .expected _ _) (.either
    (.whether (sees_isAt _) (alike_parseFunctionTypeArguments h).weaken .error)
    (.provided (sees_isAt _) (alike_parseGenericArguments h).weaken)))

theorem alike_parseType : ∀ (budget budget' : Nat) (allowAuto : Bool),
    Alike 0 0 (parseType budget allowAuto) (parseType budget' allowAuto) :=
  budgets (fun _ _ ↦ .throw_left) (fun _ h _ ↦ (h _).throw_right) fun _ _ ih _ ↦
    .start (.next .eat (.whether ((sees_const _).and (sees_isAt _)) (.next .bump (.next .eat .last))
    (.next (.whether (sees_isAt _) (alike_parseNamedType (ih _ false))
      (.next .error (.provided (sees_atAny _).not .bump))) (.next .eat .last))))

theorem alike_parseQualifiedName {message : String} :
    Alike 0 1 (parseQualifiedName budget message) (parseQualifiedName budget' message) :=
  have harguments : Alike 0 0 _ _ := (alike_parseGenericArguments (alike_parseType budget budget' false)).weaken
  .moved .expect (.next (.provided (sees_isAt _) harguments)
    (.segments (.next .expected (.provided (sees_isAt _) harguments)) _ _))

theorem alike_genericParameters : ∀ (budget budget' : Nat) (sawConstParameter : Bool),
    Alike 0 0 (genericParameters budget sawConstParameter) (genericParameters budget' sawConstParameter) := by
  refine budgets ?_ ?_ ?_
  · exact fun _ _ ↦ .throw_left
  · exact fun _ h saw ↦ (h saw).throw_right
  intro _ _ ih saw
  refine .whether (sees_atEnd.or (sees_isAt _)) .nothing (.start (.read fun parser parser' hsame ↦ ?_))
  rw [nth_congr hsame]
  refine .next (.provided ((sees_const _).and (sees_currentText.map fun text ↦ decide (text ≠ some "usize"))) .error)
    (.next (.provided (sees_const _) .error) (.next .expected (.read fun parser parser' hsame ↦ ?_)))
  rw [isAt_congr hsame]
  exact .next .eat (.finish (.provided (sees_isAt _) (.next .bump (ih _ _))))

theorem alike_parseGenericParameters : Alike 0 1 (parseGenericParameters budget) (parseGenericParameters budget') :=
  .start (.next .bump (.next (.provided (sees_isAt _) .error) (.next (alike_genericParameters _ _ _)
    (.moved .expect .last))))

theorem alike_parseParameterList : Alike 0 1 (parseParameterList budget) (parseParameterList budget') :=
  .start (.moved .expect (.next
    (.commaSeparated (.start (.next (alike_parseType _ _ _) (.next .expected .last))) _ _)
    (.next .expected .last)))

theorem alike_parseThrowsClause : Alike 0 0 (parseThrowsClause budget) (parseThrowsClause budget') :=
  .start (.next .bump (.next (.commaChained (alike_parseType _ _ _) _ _) .last))

/-! ## 3. Recovery -/

omit [Rowan] in
theorem alike_bumpUntil (kinds : List SyntaxKind) : Alike 0 0 (bumpUntil kinds budget) (bumpUntil kinds budget') :=
  .repeatUntil (sees_atEnd.or (sees_atAny _)) .bump _ _

theorem alike_recoverStatement {message : String} :
    Alike 0 1 (recoverStatement budget message) (recoverStatement budget' message) :=
  .start (.moved .error (.next (alike_bumpUntil _) (.next .eat .last)))

omit [Rowan] in
theorem alike_skipItem : ∀ budget budget' braceDepth : Nat,
    Alike 0 0 (skipItem budget braceDepth) (skipItem budget' braceDepth) := by
  refine budgets ?_ ?_ ?_
  · exact fun _ _ ↦ .throw_left
  · exact fun _ h depth ↦ (h depth).throw_right
  intro _ _ ih depth
  refine .read fun parser parser' hsame ↦ ?_
  rw [current_congr hsame]
  split
  case h_1 => exact .nothing
  case h_2 => exact .next .bump (ih _ _)
  case h_3 => exact .either .nothing (.next .bump (ih _ _))
  case h_4 => exact .either .bump (.next .bump (ih _ _))
  case h_5 => exact .next .bump (ih _ _)

theorem alike_recoverItem {message : String} :
    Alike 0 1 (recoverItem budget message) (recoverItem budget' message) :=
  .start (.moved .error (.next (alike_skipItem _ _ _) .last))

/-! ## 4. Expressions -/

omit [Rowan] in
theorem significant_of_current {parser : Parser} (h : parser.current = none) : parser.significant = [] :=
  atEnd_iff.mp (by rw [Parser.atEnd, h]; rfl)

/-- What the calls of one another do: an expression takes a token, and so does a statement that finds one. -/
structure Nested.Alike (nested nested' : Nested) : Prop where
  expression : ∀ minimumBindingPower,
    Source.Alike 0 1 (nested.parseExpressionBp minimumBindingPower) (nested'.parseExpressionBp minimumBindingPower)
  statement : Source.Alike 0 0 nested.parseStatement nested'.parseStatement
  statementTakes : AlikeIf (· ≠ []) 0 1 nested.parseStatement nested'.parseStatement

namespace Nested.Alike

open Source.Alike

variable {nested nested' : Nested}

omit [Rowan] in
theorem parseExpression (h : nested.Alike nested') : Source.Alike 0 1 nested.parseExpression nested'.parseExpression :=
  h.expression 0

omit [Rowan] in
theorem someExpression (h : nested.Alike nested') : Source.Alike 0 0 nested.parseExpression nested'.parseExpression :=
  h.parseExpression.weaken

theorem parseArgumentList (h : nested.Alike nested') :
    Source.Alike 0 1 nested.parseArgumentList nested'.parseArgumentList :=
  .start (.next .bump (.next (.commaSeparated h.someExpression _ _) (.moved .expect .last)))

theorem parseInitializerList (h : nested.Alike nested') :
    Source.Alike 0 1 nested.parseInitializerList nested'.parseInitializerList :=
  .start (.next .bump (.next (.commaSeparated h.someExpression _ _) (.moved .expect .last)))

theorem parseSwitchPatternAlternative :
    Source.Alike 0 0 nested.parseSwitchPatternAlternative nested'.parseSwitchPatternAlternative :=
  .whether (sees_current.map fun current ↦ current.any SyntaxKind.isLiteral) (.start (.next .bump .last))
    (.start (.next alike_parseQualifiedName.weaken .last))

theorem patternAlternatives : ∀ budget budget' : Nat,
    Source.Alike 0 0 (nested.patternAlternatives budget) (nested'.patternAlternatives budget') :=
  budgets (fun _ ↦ .throw_left) (fun _ h ↦ h.throw_right) fun _ _ ih ↦
    .provided (sees_isAt _) (.next .bump (.whether sees_switchPatternAlternativeStartsHere
      (.next parseSwitchPatternAlternative (ih _)) .error))

theorem parseSwitchArm (h : nested.Alike nested') : Source.Alike 0 0 nested.parseSwitchArm nested'.parseSwitchArm :=
  .start (.start (.next
    (.whether (sees_isAt _) .bump (.whether sees_switchPatternAlternativeStartsHere
      (.next parseSwitchPatternAlternative (patternAlternatives _ _))
      (.next .error (.provided (sees_atEnd.not.and (sees_atAny _).not) .bump))))
    (.finish (.next .expected (.next h.someExpression .last)))))

theorem parseSwitchExpression (h : nested.Alike nested') :
    Source.Alike 0 1 nested.parseSwitchExpression nested'.parseSwitchExpression :=
  .start (.next .bump (.moved .expect (.next h.someExpression (.next .expected (.next .expected
    (.next (.commaSeparated h.parseSwitchArm _ _) (.next .expected .last)))))))

theorem parseLambdaCapture (h : nested.Alike nested') :
    Source.Alike 0 0 nested.parseLambdaCapture nested'.parseLambdaCapture := by
  refine .start (.read fun parser parser' hsame ↦ ?_)
  rw [isAt_congr hsame]
  exact .next .eat (.next .expected (.next
    (.provided (sees_isAt _) (.next .bump (.next (.provided (sees_const _) .error) h.someExpression))) .last))

theorem parseCaptureList (h : nested.Alike nested') :
    Source.Alike 0 1 nested.parseCaptureList nested'.parseCaptureList :=
  .start (.moved .expect (.next (.commaSeparated h.parseLambdaCapture _ _) (.next .expected .last)))

theorem blockPass (h : nested.Alike nested') : AlikeIf (· ≠ []) 0 1 nested.blockPass nested'.blockPass :=
  .progress h.statementTakes alike_recoverStatement.weaken

theorem parseBlock (h : nested.Alike nested') : Source.Alike 0 1 nested.parseBlock nested'.parseBlock :=
  .start (.moved .expect (.next
    (.repeatBefore (sees_atEnd.or (sees_isAt _)) (fun _ hstop ↦ (Bool.or_eq_false_iff.mp hstop).1) h.blockPass _ _)
    (.next .expected .last)))

theorem parseLambdaExpression (h : nested.Alike nested') :
    Source.Alike 0 1 nested.parseLambdaExpression nested'.parseLambdaExpression :=
  .start (.moved h.parseCaptureList (.next alike_parseParameterList.weaken (.next .eat (.next .eat
    (.next h.parseBlock.weaken .last)))))

theorem parseJsonArrayExpression (h : nested.Alike nested') :
    Source.Alike 0 1 nested.parseJsonArrayExpression nested'.parseJsonArrayExpression :=
  .start (.moved .expect (.next (.commaSeparated h.someExpression _ _) (.next .expected .last)))

theorem parseJsonMember (h : nested.Alike nested') : Source.Alike 0 0 nested.parseJsonMember nested'.parseJsonMember :=
  .start (.next (.whether (sees_atAny _) .bump
      (.next .error (.provided (sees_atEnd.not.and (sees_isAt _).not) .bump)))
    (.next .expected (.next h.someExpression .last)))

theorem parseJsonObjectExpression (h : nested.Alike nested') :
    Source.Alike 0 1 nested.parseJsonObjectExpression nested'.parseJsonObjectExpression :=
  .start (.moved .expect (.next (.commaSeparated h.parseJsonMember _ _) (.next .expected .last)))

theorem genericArguments : Source.Alike 0 0
    (provided (fun parser ↦ parser.isAt .less && parser.genericArgumentsAreFollowedByConstruction)
      (parseGenericArguments (parseType nested.budget false) nested.budget))
    (provided (fun parser ↦ parser.isAt .less && parser.genericArgumentsAreFollowedByConstruction)
      (parseGenericArguments (parseType nested'.budget false) nested'.budget)) :=
  .provided ((sees_isAt _).and sees_genericArgumentsAreFollowedByConstruction)
    (alike_parseGenericArguments (alike_parseType _ _ _)).weaken

theorem parsePrimary (h : nested.Alike nested') : Source.Alike 0 1 nested.parsePrimary nested'.parsePrimary := by
  refine .read fun parser parser' hsame ↦ ?_
  have hthere (hend : parser.atEnd = false) (tokens : List Token) (htokens : True ∧ tokens = parser.significant) :
      tokens ≠ [] := by
    rintro rfl
    rw [atEnd_iff.mpr htokens.2.symm] at hend
    cases hend
  rw [current_congr hsame, atAny_congr hsame, isAt_congr hsame, isAt_congr hsame, isAt_congr hsame, isAt_congr hsame,
    show parser'.looksLikeLambda = parser.looksLikeLambda from sees_looksLikeLambda _ _ hsame]
  -- a literal or a name is a token; what else begins here expects one
  refine .ite (fun hliteral ↦ ?_) fun _ ↦ .ite (fun hname ↦ ?_) fun _ ↦ Source.Alike.cond (.either ?_
    (.either h.parseSwitchExpression (.either h.parseLambdaExpression (.either h.parseJsonArrayExpression
      (.either h.parseJsonObjectExpression ?_)))))
  · refine .start (.moved (.bumpOne (hthere ?_)) .last)
    rw [Parser.atEnd]
    cases hcurrent : parser.current with
    | none =>
        rw [hcurrent] at hliteral
        cases hliteral
    | some kind => rfl
  · exact .start (.moved (.bumpOne (hthere (atEnd_of_atAny hname))) (.next (.segments .expected _ _)
      (.next genericArguments .last)))
  · exact .start (.next .bump (.next h.someExpression (.moved .expect .last)))
  · exact .start (.moved .error (.next (.provided (sees_atEnd.not.and (sees_atAny _).not) .bump) .last))

theorem parsePrefixOrPrimary (h : nested.Alike nested') :
    Source.Alike 0 1 nested.parsePrefixOrPrimary nested'.parsePrefixOrPrimary :=
  .whether (sees_atAny _) (.start (.next .bump (.moved (h.expression 11) .last))) h.parsePrimary

omit [Rowan] in
theorem parseMember : Source.Alike 0 0 nested.parseMember nested'.parseMember :=
  .next .bump (.next (.whether (sees_isAt _) .bump .expected) (.segments .expected _ _))

variable {sides : Sides} {left : Nat}

theorem parsePostfix (h : nested.Alike nested') : ∀ (passes passes' : Nat) (aggregateAllowed : Bool),
    sides.Ends 0 left (nested.parsePostfix sides.before.length passes aggregateAllowed)
      (nested'.parsePostfix sides.before'.length passes' aggregateAllowed) := by
  refine budgets ?_ ?_ ?_
  · exact fun _ _ ↦ Lockstep.throw_left
  · exact fun _ h aggregateAllowed ↦ Lockstep.throw_right (h aggregateAllowed)
  intro passes passes' ih aggregateAllowed
  refine .read fun parser parser' hsame ↦ ?_
  rw [isAt_congr hsame, isAt_congr hsame, isAt_congr hsame, isAt_congr hsame, isAt_congr hsame, nth_congr hsame,
    atAny_congr hsame]
  refine .either ?_ (.either ?_ (.either ?_ (.either (.either ?_ ?_) (.either ?_ (.either ?_ .nothing)))))
  · exact .startNodeAt (.next .bump (.next h.parseArgumentList.weaken (.finish (ih _ _))))
  · exact .startNodeAt (.next h.parseArgumentList.weaken (.finish (ih _ _)))
  · exact .startNodeAt (.next h.parseInitializerList.weaken (.finish (ih _ _)))
  · exact .startNodeAt (.next .bump (.next .bump (.finish (ih _ _))))
  · exact .startNodeAt (.next parseMember (.finish (ih _ _)))
  · exact .startNodeAt (.next .bump (.next h.someExpression (.next .expected (.finish (ih _ _)))))
  · exact .startNodeAt (.next .bump (.finish (ih _ _)))

theorem parseInfix (h : nested.Alike nested') (minimumBindingPower : Nat) : ∀ passes passes' : Nat,
    sides.Ends 0 left (nested.parseInfix sides.before.length minimumBindingPower passes)
      (nested'.parseInfix sides.before'.length minimumBindingPower passes') := by
  refine budgets ?_ ?_ ?_
  · exact fun _ ↦ Lockstep.throw_left
  · exact fun _ h ↦ Lockstep.throw_right h
  intro passes passes' ih
  refine .read fun parser parser' hsame ↦ ?_
  rw [current_congr hsame]
  split
  · exact .nothing
  · exact .either .nothing (.startNodeAt (.next .bump (.next (h.expression _).weaken (.finish (ih _)))))

theorem expressionBp (h : nested.Alike nested') (minimumBindingPower : Nat) :
    Source.Alike 0 1 (nested.expressionBp minimumBindingPower) (nested'.expressionBp minimumBindingPower) := by
  refine .next .eatTrivia (.checkpoint fun sides left ↦ ?_)
  -- the operand takes a token, the loops behind it may take none
  have hrest (aggregateAllowed : Bool) : Lockstep Quiet (sides.At 0 left)
      (fun parser parser' ↦ 1 ≤ left ∧ sides.At 0 (left - 1) parser parser')
      (do
        nested.parsePrefixOrPrimary
        nested.parsePostfix sides.before.length nested.budget aggregateAllowed
        nested.parseInfix sides.before.length minimumBindingPower nested.budget)
      (do
        nested'.parsePrefixOrPrimary
        nested'.parsePostfix sides.before'.length nested'.budget aggregateAllowed
        nested'.parseInfix sides.before'.length minimumBindingPower nested'.budget) :=
    (h.parsePrefixOrPrimary.apply sides 0 left).and_then fun _ ↦
      (Lockstep.and_then (h.parsePostfix _ _ _) fun _ ↦ h.parseInfix _ _ _).frame (1 ≤ left)
  refine .read Parser.significant Parser.significant (fun _ _ hat ↦ hat.significant)
    (fun parser ↦ (hrest _).quiet parser) fun parser parser' hsame ↦ ?_
  rw [isAt_congr hsame]
  exact (hrest _).mono (fun _ _ hat ↦ hat.1) fun _ _ hat ↦ hat

/-! ## 5. Statements -/

theorem parseLocalDeclaration (h : nested.Alike nested') :
    Source.Alike 0 1 nested.parseLocalDeclaration nested'.parseLocalDeclaration :=
  .start (.next (alike_parseType _ _ _) (.moved .expect (.next
    (.provided (sees_isAt _) (.next .bump h.someExpression)) (.next .expected .last))))

theorem parseOptionalValue (h : nested.Alike nested') (kind : SyntaxKind) (message : String) :
    Source.Alike 0 1 (nested.parseOptionalValue kind message) (nested'.parseOptionalValue kind message) :=
  .start (.next .bump (.next (.provided (sees_isAt _).not h.someExpression) (.moved .expect .last)))

theorem parseCatchClause (h : nested.Alike nested') :
    Source.Alike 0 0 nested.parseCatchClause nested'.parseCatchClause :=
  .start (.next .bump (.next .expected (.next
    (.whether (sees_isAt _) .bump (.next (alike_parseType _ _ _) .expected))
    (.next .expected (.next h.parseBlock.weaken .last)))))

theorem parseTryStatement (h : nested.Alike nested') :
    Source.Alike 0 1 nested.parseTryStatement nested'.parseTryStatement :=
  .start (.next .bump (.moved h.parseBlock (.next (.provided (sees_isAt _).not .error)
    (.next (.repeatUntil (sees_isAt _).not h.parseCatchClause _ _) .last))))

theorem parseIfStatement (h : nested.Alike nested') :
    Source.Alike 0 1 nested.parseIfStatement nested'.parseIfStatement :=
  .start (.next .bump (.moved .expect (.next h.someExpression (.next .expected (.next h.statement
    (.next (.provided (sees_isAt _) (.start (.next .bump (.next h.statement .last)))) .last))))))

theorem parseWhileStatement (h : nested.Alike nested') :
    Source.Alike 0 1 nested.parseWhileStatement nested'.parseWhileStatement :=
  .start (.next .bump (.moved .expect (.next h.someExpression (.next .expected (.next h.statement .last)))))

theorem parseRangeForClause (h : nested.Alike nested') :
    Source.Alike 0 0 nested.parseRangeForClause nested'.parseRangeForClause :=
  .start (.next (alike_parseType _ _ _) (.next
    (.whether (sees_isAt _) (.next .bump (.next .expected (.next .expected (.next .expected .expected)))) .expected)
    (.next .expected (.next h.someExpression .last))))

theorem parseClassicForClause (h : nested.Alike nested') :
    Source.Alike 0 0 nested.parseClassicForClause nested'.parseClassicForClause :=
  have hcondition (kind : SyntaxKind) : Source.Alike 0 0
      (provided (!·.isAt kind) nested.parseExpression) (provided (!·.isAt kind) nested'.parseExpression) :=
    .provided (sees_isAt kind).not h.someExpression
  .start (.next
    (.whether (sees_isAt _) .bump (.whether sees_looksLikeDeclaration h.parseLocalDeclaration.weaken
      (.next h.someExpression .expected)))
    (.next (hcondition _) (.next .expected (.next (hcondition _) .last))))

theorem parseForStatement (h : nested.Alike nested') :
    Source.Alike 0 1 nested.parseForStatement nested'.parseForStatement :=
  .start (.next .bump (.moved .expect (.next
    (.whether sees_forClauseIsRange h.parseRangeForClause h.parseClassicForClause)
    (.next .expected (.next h.statement .last)))))

theorem parseKeywordStatement {kind : SyntaxKind} :
    Source.Alike 0 1 (Nested.parseKeywordStatement kind) (Nested.parseKeywordStatement kind) :=
  .start (.next .bump (.moved .expect .last))

theorem parseExpressionStatement (h : nested.Alike nested') :
    Source.Alike 0 1 nested.parseExpressionStatement nested'.parseExpressionStatement :=
  .start (.moved h.parseExpression (.next .expected .last))

theorem alikeIf_statement (h : nested.Alike nested') : AlikeIf (· ≠ []) 0 1 nested.statement nested'.statement := by
  refine .read fun parser parser' hsame ↦ ?_
  rw [current_congr hsame, show parser'.looksLikeDeclaration = parser.looksLikeDeclaration from
    sees_looksLikeDeclaration _ _ hsame]
  split
  case h_1 => exact h.parseBlock.cond
  case h_2 => exact (h.parseOptionalValue _ _).cond
  case h_3 => exact (h.parseOptionalValue _ _).cond
  case h_4 => exact h.parseTryStatement.cond
  case h_5 => exact h.parseIfStatement.cond
  case h_6 => exact h.parseWhileStatement.cond
  case h_7 => exact h.parseForStatement.cond
  case h_8 => exact parseKeywordStatement.cond
  case h_9 => exact parseKeywordStatement.cond
  case h_10 => exact .start (.moved (.bumpOne fun _ htokens ↦ htokens.1) .last)
  case h_11 => exact .ite (fun _ ↦ h.parseLocalDeclaration.cond) fun _ ↦ h.parseExpressionStatement.cond
  case h_12 hnone => exact .never fun tokens htokens ↦ htokens.1 (htokens.2.trans (significant_of_current hnone))

theorem statement_at_end (nested : Nested) (parser : Parser) (h : parser.significant = []) :
    nested.statement parser = .ok () parser := by
  have hcurrent : parser.current = none := by
    unfold Parser.current Parser.ahead
    rw [h]
    rfl
  have hreturns : Returns parser nested.statement fun _ t ↦ t = parser := by
    refine .read ?_
    rw [hcurrent]
    exact .pure rfl
  have ⟨_, t, hrun, heq⟩ := returns_iff.mp hreturns
  rw [hrun, heq]

end Nested.Alike

theorem alike_nested : ∀ depth depth' : Nat, (nested depth).Alike (nested depth') := by
  refine budgets ?_ ?_ ?_
  · exact fun _ ↦ ⟨fun _ ↦ .throw_left, .throw_left, .throw_left⟩
  · intro _ h
    exact ⟨fun power ↦ (h.expression power).throw_right, h.statement.throw_right, h.statementTakes.throw_right⟩
  · intro depth depth' ih
    have h := ih depth'
    have hend := Nested.Alike.statement_at_end
    exact ⟨h.expressionBp, h.alikeIf_statement.orNothing (hend _) (hend _), h.alikeIf_statement⟩

/-! ## 6. Items -/

omit [Rowan] in
theorem alike_useDeclarationPath : ∀ budget budget' braceDepth : Nat,
    Alike 0 0 (useDeclarationPath budget braceDepth) (useDeclarationPath budget' braceDepth) := by
  refine budgets ?_ ?_ ?_
  · exact fun _ _ ↦ .throw_left
  · exact fun _ h depth ↦ (h depth).throw_right
  intro _ _ ih depth
  refine .read fun parser parser' hsame ↦ ?_
  rw [current_congr hsame]
  split
  case h_1 => exact .nothing
  case h_2 => exact .next .bump (ih _ _)
  case h_3 => exact .next .bump (ih _ _)
  case h_4 => exact .either (.next .bump .nothing) (.next .bump (ih _ _))
  case h_5 => exact .next .bump (ih _ _)

theorem alikeIf_parseUseDeclaration :
    AlikeIf (· ≠ []) 0 1 (parseUseDeclaration budget) (parseUseDeclaration budget') :=
  .start (.moved (.bumpOne fun _ htokens ↦ htokens) ((alike_useDeclarationPath _ _ _).and_then fun _ ↦
    .either .last (.next .error .last)))

theorem alike_parseEnumVariant : Alike 0 0 parseEnumVariant parseEnumVariant :=
  .start (.next .expected (.next .expected (.next .expected .last)))

theorem alike_parseEnumDefinition : Alike 0 1 (parseEnumDefinition budget) (parseEnumDefinition budget') :=
  .start (.next .bump (.moved .expect (.next .expected (.next (alike_parseType _ _ _) (.next .expected
    (.next (.commaSeparated alike_parseEnumVariant _ _) (.next .expected (.next .expected .last))))))))

theorem alike_parseFieldDeclaration :
    Alike 0 1 (parseFieldDeclaration budget) (parseFieldDeclaration budget') := by
  refine .start (.read fun parser parser' hsame ↦ ?_)
  rw [show parser'.staticConstant = parser.staticConstant from sees_staticConstant _ _ hsame]
  exact .next (.provided (sees_const _) (.next .bump (.provided (sees_isAt _).not .error)))
    (.next (alike_parseType _ _ _) (.moved .expect (.next
      (.whether (sees_isAt _) (.next .bump (alike_nested _ _).someExpression) (.provided (sees_const _) .error))
      (.next .expected .last))))

theorem alike_parseConstructorInitializerList :
    Alike 0 0 (parseConstructorInitializerList budget) (parseConstructorInitializerList budget') :=
  .start (.next .bump (.next (.commaChained (.start (.next alike_parseQualifiedName.weaken
    (.next (alike_nested _ _).parseArgumentList.weaken .last))) _ _) .last))

omit [Rowan] in
theorem alike_parseDefaultOrDelete : Alike 0 0 parseDefaultOrDelete parseDefaultOrDelete :=
  have hword : Sees fun parser : Parser ↦ parser.currentText ≠ some "default" && parser.currentText ≠ some "delete" :=
    sees_currentText.map fun text ↦ decide (text ≠ some "default") && decide (text ≠ some "delete")
  .whether (sees_isAt _) (.next (.provided hword .error) .bump) .error

theorem alike_parseConstructor : Alike 0 1 (parseConstructor budget) (parseConstructor budget') := by
  refine .read fun parser parser' hsame ↦ ?_
  rw [show parser'.constructorNodeKind = parser.constructorNodeKind from sees_constructorNodeKind _ _ hsame]
  -- `= default;` or `= delete;`
  have hdefault {message : String} : Alike 0 0
      (do bump; parseDefaultOrDelete; expect .semicolon message)
      (do bump; parseDefaultOrDelete; expect .semicolon message) :=
    .next .bump (.next alike_parseDefaultOrDelete .expected)
  apply Alike.cond
  apply AlikeIf.start
  refine .moved alike_parseQualifiedName ?_
  refine .next alike_parseParameterList.weaken ?_
  refine .next (.provided (sees_isAt _) alike_parseThrowsClause) ?_
  refine .next (.provided (sees_isAt _) alike_parseConstructorInitializerList) ?_
  refine .next (.whether (sees_isAt _) (alike_nested _ _).parseBlock.weaken ?_) .last
  exact .whether (sees_isAt _) hdefault .expected

theorem alike_parseFunction : Alike 0 1 (parseFunction budget) (parseFunction budget') := by
  refine .read fun parser parser' hsame ↦ ?_
  rw [show parser'.functionNodeKind = parser.functionNodeKind from sees_functionNodeKind _ _ hsame]
  apply AlikeIf.start
  refine .next (.provided (sees_word "static") .bump) ?_
  refine .next .eat ?_
  refine .next (alike_parseType _ _ _) ?_
  refine .moved alike_parseQualifiedName ?_
  refine .next alike_parseParameterList.weaken ?_
  refine .next .eat ?_
  refine .next (.provided (sees_isAt _) alike_parseThrowsClause) ?_
  exact .next (.whether (sees_isAt _) (alike_nested _ _).parseBlock.weaken .expected) .last

theorem alike_parseBase : Alike 0 0 (parseBase budget) (parseBase budget') :=
  .next (.whether (sees_isAt _) (.next .bump .error) .eat) (alike_parseType _ _ _)

theorem alike_parseTypeMember {interface : Bool} :
    Alike 0 1 (parseTypeMember budget interface) (parseTypeMember budget' interface) := by
  refine .read fun parser parser' hsame ↦ ?_
  rw [atAny_congr hsame, atAny_congr hsame,
    show parser'.staticConstant = parser.staticConstant from sees_staticConstant _ _ hsame,
    show parser'.looksLikeConstructor = parser.looksLikeConstructor from sees_looksLikeConstructor _ _ hsame,
    show parser'.structMemberIsFunction = parser.structMemberIsFunction from sees_structMemberIsFunction _ _ hsame]
  exact Alike.cond (.either (.start (.next .bump (.moved .expect .last))) (.either
    (.either alike_parseFieldDeclaration (.either alike_parseFunction (.either alike_parseConstructor
      (.either alike_parseFunction alike_parseFieldDeclaration))))
    alike_recoverStatement))

theorem alike_parseTypeDefinition {nodeKind : SyntaxKind} {declarationKind : String} {interface : Bool} :
    Alike 0 1 (parseTypeDefinition budget nodeKind declarationKind interface)
      (parseTypeDefinition budget' nodeKind declarationKind interface) := by
  have hbases : Alike 0 0 (do bump; commaChained (parseBase budget) budget)
      (do bump; commaChained (parseBase budget') budget') :=
    .next .bump (.commaChained alike_parseBase _ _)
  have hpass : AlikeIf (· ≠ []) 0 1 (typeMemberPass budget interface) (typeMemberPass budget' interface) :=
    .progress alike_parseTypeMember.cond alike_recoverStatement.weaken
  apply AlikeIf.start
  refine .next .bump ?_
  refine .next (.provided (sees_word "sealed") .bump) ?_
  refine .moved .expect ?_
  refine .next (.provided (sees_isAt _) alike_parseGenericParameters.weaken) ?_
  refine .next (.provided (sees_isAt _) hbases) ?_
  refine .next .expected ?_
  -- the members, up to the brace that closes the type
  refine .next (.repeatBefore (sees_atEnd.or (sees_isAt _)) (fun _ hstop ↦ ?_) hpass _ _) ?_
  · exact (Bool.or_eq_false_iff.mp hstop).1
  · exact .next .expected (.next .expected .last)

theorem alike_parseNamespace {parseItems parseItems' : Parse Unit} (h : Alike 0 0 parseItems parseItems') :
    Alike 0 1 (parseNamespace parseItems) (parseNamespace parseItems') :=
  .start (.next .bump (.moved .expect (.next .expected (.next h (.next .expected .last)))))

theorem alikeIf_parseItem {parseItems parseItems' : Parse Unit} (h : Alike 0 0 parseItems parseItems') :
    AlikeIf (· ≠ []) 0 1 (parseItem budget parseItems) (parseItem budget' parseItems') := by
  refine .read fun parser parser' hsame ↦ ?_
  rw [current_congr hsame,
    show parser'.looksLikeConstructor = parser.looksLikeConstructor from sees_looksLikeConstructor _ _ hsame]
  split
  case h_1 => exact (alike_parseNamespace h).cond
  case h_2 => exact alikeIf_parseUseDeclaration.imp fun _ htokens ↦ htokens.1
  case h_3 => exact alike_parseTypeDefinition.cond
  case h_4 => exact alike_parseTypeDefinition.cond
  case h_5 => exact alike_parseTypeDefinition.cond
  case h_6 => exact alike_parseEnumDefinition.cond
  case h_7 => exact .ite (fun _ ↦ alike_parseConstructor.cond) fun _ ↦ alike_parseFunction.cond
  case h_8 => exact alike_parseFunction.cond
  case h_9 => exact alike_parseFunction.cond
  case h_10 => exact alike_recoverItem.cond
  case h_11 hnone => exact .never fun tokens htokens ↦ htokens.1 (htokens.2.trans (significant_of_current hnone))

theorem alikeIf_itemPass {parseItems parseItems' : Parse Unit} (h : Alike 0 0 parseItems parseItems') :
    AlikeIf (· ≠ []) 0 1 (itemPass budget parseItems) (itemPass budget' parseItems') :=
  .progress (alikeIf_parseItem h) alike_recoverItem.weaken

theorem alike_parseItemList : ∀ depth depth' : Nat,
    Alike 0 0 (parseItemList budget depth) (parseItemList budget' depth') :=
  budgets (fun _ ↦ .throw_left) (fun _ h ↦ h.throw_right) fun _ depth' ih ↦
    .repeatBefore (sees_atEnd.or (sees_isAt _)) (fun _ hstop ↦ (Bool.or_eq_false_iff.mp hstop).1)
      (alikeIf_itemPass (ih depth')) _ _

theorem alikeIf_topLevelPass : AlikeIf (· ≠ []) 0 1 topLevelPass topLevelPass :=
  .read fun _ _ _ ↦ (alikeIf_itemPass (alike_parseItemList _ _)).imp fun _ htokens ↦ htokens.1

/-! ## 7. Files -/

variable {entry : Entry} {sides : Sides} {opened left left' : Nat} {parser parser' t : Parser}
variable {tokens tokens' : List Token}

/-- Where the loop over the items of one file ends without a report, that of the other does. -/
theorem topLevel_alike {passes : Nat} (h : sides.At opened left parser parser') (hentry : entry.At 0 left' parser')
    (hrun : topLevel passes parser = .ok () t) (hquiet : Quiet t) :
    ∃ t', topLevel passes parser' = .ok () t' ∧ entry.At 0 left' t' ∧ sides.At opened left t t' := by
  induction passes generalizing parser parser' with
  | zero => cases hrun
  | succ passes ih =>
      cases hend : parser.atEnd with
      | true =>
          have heq : topLevel (passes + 1) parser = .ok () parser := if_pos hend
          rw [heq] at hrun
          cases hrun
          exact ⟨parser', if_pos ((atEnd_congr h.significant).symm.trans hend), hentry, h⟩
      | false =>
          -- both loops make a pass: that of the other file returns in any case
          have hend' := (atEnd_congr h.significant).symm.trans hend
          have ⟨next', hstep', hentry'⟩ := topLevel_step hentry hend'
          have heq : topLevel (passes + 1) parser = (topLevelPass >>= fun _ ↦ topLevel passes) parser :=
            if_neg (show ¬parser.atEnd = true by rw [hend]; decide)
          have ⟨_, next, hpass, hrest⟩ := bind_eq_ok.mp (heq.symm.trans hrun)
          have hloop : Alike 0 0 (topLevel passes) (topLevel passes) :=
            .repeatBefore sees_atEnd (fun _ hfalse ↦ hfalse) alikeIf_topLevelPass _ _
          have hthere : parser.significant ≠ [] := fun hnone ↦ by
            rw [atEnd_iff.mpr hnone] at hend
            cases hend
          have hnextQuiet : Quiet next := (hloop sides 0 0).quiet next () t hrest hquiet
          have ⟨_, _, hnext⟩ := (alikeIf_topLevelPass sides opened left).keeps parser parser' () () next next'
            ⟨h, hthere⟩ hpass hstep'.2 hnextQuiet
          rw [topLevel_succ hstep']
          exact ih (hnext.mono (Nat.sub_le _ _)) hentry' hrest

/-- So many passes parse the file without a report, to these trees but for blanks and comments. -/
def Parses (passes : Nat) (tokens : List Token) (trees : List Tree) : Prop :=
  ∃ parsed, parse passes tokens [] = .ok parsed ∧ parsed.errors = [] ∧ parsed.green.bare = trees

omit [Rowan] in
theorem sides_started (h : solid tokens = solid tokens') :
    Sides.At ⟨tokens, tokens', [(.sourceFile, 0)], [(.sourceFile, 0)], [], []⟩ 0 (solid tokens).length
      (started tokens []) (started tokens' []) where
  significant := h
  rest := rfl
  rest' := rfl
  quiet := rfl
  quiet' := rfl
  trees := rfl
  bases := rfl
  built := ⟨[], rfl⟩
  built' := ⟨[], rfl⟩
  framed := ⟨Nat.le_refl _, trivial⟩
  framed' := ⟨Nat.le_refl _, trivial⟩
  parents := ⟨[], [], rfl, rfl, rfl, .nil⟩
  left := Nat.le_refl _

theorem Parses.of_solid {passes : Nat} {trees : List Tree} (h : Parses passes tokens trees)
    (hsame : solid tokens = solid tokens') : Parses passes tokens' trees := by
  have ⟨parsed, hparse, herrors, htrees⟩ := h
  have hstarted : (fileEntry tokens []).At 0 tokens.length (started tokens []) := at_started
  rcases topLevel_result hstarted passes with ⟨t, hrun, hat, _⟩ | ⟨t, hrun⟩
  · rw [parse_of_topLevel hrun hat] at hparse
    cases hparse
    have hquiet : Quiet t := by
      have hnone : (t.errors.mergeSort fun error error' ↦ error.range.start ≤ error'.range.start) = [] := herrors
      have hperm := List.mergeSort_perm t.errors fun error error' ↦ decide (error.range.start ≤ error'.range.start)
      rw [hnone] at hperm
      exact hperm.symm.eq_nil
    have ⟨t', hrun', hat', hsides⟩ := topLevel_alike (sides_started hsame) at_started hrun hquiet
    refine ⟨_, parse_of_topLevel hrun' hat', ?_, ?_⟩
    · show t'.errors.mergeSort _ = []
      rw [hsides.quiet', List.mergeSort_nil]
    · have htaken := hsides.taken (List.append_nil t.rest).symm (List.append_nil t'.rest).symm hsides.significant
      rw [← htrees, Tree.bare, Tree.bare, htaken.trees]
  · rw [parse_exhausted passes hrun] at hparse
    cases hparse

omit [Rowan] in
theorem solid_solid (tokens : List Token) : solid (solid tokens) = solid tokens := by
  unfold solid
  rw [List.filter_filter]
  exact List.filter_congr fun token _ ↦ Bool.and_self _

/-- Blanks and comments do not matter: a file is parsed without an error if and only if what is left of it
without them is, in as many passes, and then to the same tree but for the blanks and comments in it. -/
theorem trivia_irrelevant (passes : Nat) (tokens : List Token) (trees : List Tree) :
    Parses passes tokens trees ↔ Parses passes (tokens.filter fun token ↦ !token.isTrivia) trees :=
  ⟨fun h ↦ h.of_solid (solid_solid tokens).symm, fun h ↦ h.of_solid (solid_solid tokens)⟩

/-! ## 8. Texts -/

/-- A source file that is parsed without an error can be laid out anew: whatever blanks come between its
tokens in place of its own blanks and comments, it is parsed without an error, to the same tree but for these. -/
theorem reformatting_irrelevant (logos : Logos) {passes : Nat} {source : String} {parsed : Parsed} {layout : Layout}
    (h : parseText logos passes source = some (.ok parsed)) (herrors : parsed.errors = [])
    (htokens : layout.map Prod.fst = parsed.green.tokens.filter fun token ↦ !token.isTrivia) (hspaced : layout.Spaced)
    (hfits : utf8Size layout.letters < 2 ^ 32) :
    ∃ parsed', parseText logos passes (String.ofList layout.letters) = some (.ok parsed') ∧ parsed'.errors = [] ∧
      parsed'.green.bare = parsed.green.bare := by
  unfold parseText at h
  obtain ⟨lexed, hlex, hparse⟩ := Option.map_eq_some_iff.mp h
  rcases parse_cases passes lexed.tokens lexed.errors with ⟨parsed', heq, hfaithful⟩ | heq
  · rw [hparse] at heq
    cases heq
    -- the lexer's errors are among those of the file
    have hlexed : lexed.errors = [] := by
      have ⟨found, hperm, _⟩ := hfaithful.complete
      rw [herrors] at hperm
      exact (List.append_eq_nil_iff.mp hperm.nil_eq.symm).1
    rw [hfaithful.lossless] at htokens
    have ⟨hagain, hsolid⟩ := lex_again logos hlex hlexed htokens hspaced hfits
    have hsame : solid lexed.tokens = solid layout.tokens := htokens.symm.trans hsolid.symm
    have hparses : Parses passes lexed.tokens parsed.green.bare := ⟨parsed, hlexed ▸ hparse, herrors, rfl⟩
    have ⟨parsed', hparse', herrors', htrees⟩ := hparses.of_solid hsame
    refine ⟨parsed', ?_, herrors', htrees⟩
    unfold parseText
    rw [hagain, Option.map_some, hparse']
  · rw [hparse] at heq
    cases heq

/-- Whether the text is parsed without an error, to a tree with these tokens. -/
def parsesAs (logos : Logos) (passes : Nat) (source : String) (tokens : List Token) : Bool :=
  match parseText logos passes source with
  | some (.ok parsed) => parsed.errors.isEmpty && parsed.green.tokens = tokens
  | _ => false

theorem parsesAs_iff {logos : Logos} {passes : Nat} {source : String} {tokens : List Token} :
    parsesAs logos passes source tokens = true ↔ ∃ parsed, parseText logos passes source = some (.ok parsed) ∧
      parsed.errors = [] ∧ parsed.green.tokens = tokens := by
  unfold parsesAs
  constructor
  · intro h
    split at h
    · rename_i parsed hparse
      rw [Bool.and_eq_true, List.isEmpty_iff, decide_eq_true_eq] at h
      exact ⟨parsed, hparse, h.1, h.2⟩
    · cases h
  · rintro ⟨parsed, hparse, herrors, htokens⟩
    rw [hparse, Bool.and_eq_true, List.isEmpty_iff, decide_eq_true_eq]
    exact ⟨herrors, htokens⟩

end

/-- `i32 f(){return 1;}// one` -/
def oneFunction : List Token :=
  [⟨.identifier, "i32"⟩, ⟨.whitespace, " "⟩, ⟨.identifier, "f"⟩, ⟨.lParen, "("⟩, ⟨.rParen, ")"⟩, ⟨.lBrace, "\x7b"⟩,
    ⟨.returnKw, "return"⟩, ⟨.whitespace, " "⟩, ⟨.integer, "1"⟩, ⟨.semicolon, ";"⟩, ⟨.rBrace, "\x7d"⟩,
    ⟨.lineComment, "// one"⟩]

/-- The same with a token on each line. -/
def oneFunctionLines : Layout := (oneFunction.filter fun token ↦ !token.isTrivia).map fun token ↦ (token, ['\n'])

local instance rowanStack : Rowan := stack

theorem reformatting_irrelevant_function :
    ∃ parsed parsed', parseText oneLetter 2 "i32 f()\x7breturn 1;\x7d// one" = some (.ok parsed) ∧
      parseText oneLetter 2 (String.ofList oneFunctionLines.letters) = some (.ok parsed') ∧ parsed'.errors = [] ∧
      parsed'.green.bare = parsed.green.bare := by
  have ⟨parsed, hparse, herrors, htokens⟩ := parsesAs_iff.mp
    (by decide +kernel : parsesAs oneLetter 2 "i32 f()\x7breturn 1;\x7d// one" oneFunction = true)
  have hlines : oneFunctionLines.map Prod.fst = parsed.green.tokens.filter fun token ↦ !token.isTrivia := by
    rw [htokens]
    decide
  have ⟨parsed', hparse', herrors', htrees⟩ := reformatting_irrelevant oneLetter hparse herrors hlines
    (Layout.spaced_of_all (by decide)) (by decide)
  exact ⟨parsed, parsed', hparse, hparse', herrors', htrees⟩

end Stainless.Syntax.Source
