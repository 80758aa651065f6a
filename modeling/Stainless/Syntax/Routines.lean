import Stainless.Syntax.Lossless

/-!
# The routines of the parser

Every routine keeps what the parser keeps between two steps.  Those that a keyword or a bracket leads to
take a token, so that no loop and no nesting outruns the number of the tokens.
-/

namespace Stainless.Syntax.Source

open Reasoning

variable [Rowan]
variable {entry : Entry} {opened left : Nat} {parser : Parser}

/-! ## 1. Types and names -/

theorem takes_parseGenericArguments {parseType : Parse Unit} {budget : Nat} (h : Handles budget parseType) :
    Takes (budget + 1) (parseGenericArguments parseType budget) :=
  .node (.and_then (.commaSeparated (.whether (.start (.and_then .bump .last)) h) (Nat.le_refl _))
    (.and_then .expect .last))

theorem takes_parseFunctionTypeArguments {parseType : Parse Unit} {budget : Nat} (h : Handles budget parseType) :
    Takes (budget + 1) (parseFunctionTypeArguments parseType budget) :=
  .node (.start (.and_then h (.and_then .expect (.and_then (.commaSeparated h (Nat.le_refl _))
    (.and_then .expect (.finish (.and_then .expect .last)))))))

theorem takes_parseNamedType {parseType : Parse Unit} {budget : Nat} (h : Handles budget parseType) :
    Takes (budget + 1) (parseNamedType parseType budget) := by
  have hgeneric := (takes_parseGenericArguments h).mono (Nat.le_succ _)
  have hfunction := (takes_parseFunctionTypeArguments h).mono (Nat.le_succ _)
  intro entry opened left parser hleft hend hat
  refine ⟨(hat.bump_one hend).1, .read ?_⟩
  refine (Takes.and_then Takes.bump (.and_then (.segments .expect (Nat.le_refl _)) ?_) entry opened left parser hleft
    hend hat).2
  split
  · exact (hfunction.takesAt _).orElse .error
  · exact (hgeneric.takesAt _).provided

theorem handles_parseType (budget : Nat) (allowAuto : Bool) : Handles budget (parseType budget allowAuto) := by
  induction budget generalizing allowAuto with
  | zero => exact closes_zero
  | succ budget ih =>
      have hnamed := (takes_parseNamedType (ih false)).takesAt .identifier
      exact .start (.and_then .eat (.whether (.and_then .bump (.and_then .eat .last))
        (.and_then (hnamed.orElse (.and_then .error (.provided .bump))) (.and_then .eat .last))))

theorem handles_parseQualifiedName (budget : Nat) (message : String) :
    Handles budget (parseQualifiedName budget message) := by
  have hgeneric := (takes_parseGenericArguments (handles_parseType budget false)).mono (Nat.le_succ _)
  exact .and_then .expect (.and_then (hgeneric.takesAt _).provided
    (.segments (.and_then .expect (hgeneric.takesAt _).provided) (Nat.le_refl _)))

theorem handles_genericParameters (budget : Nat) (sawConstParameter : Bool) :
    Handles budget (genericParameters budget sawConstParameter) := by
  induction budget generalizing sawConstParameter with
  | zero => exact closes_zero
  | succ budget ih =>
      have hmore (saw : Bool) : TakesAt .comma (budget + 1) (do bump; genericParameters budget saw) :=
        (Takes.bump.and_then (ih saw)).takesAt _
      exact .whether .nothing (.start (.read fun _ ↦ .and_then (.provided .error) (.and_then (.provided .error)
        (.and_then .expect (.read fun _ ↦ .and_then .eat (.finish (hmore _).provided))))))

theorem takes_parseGenericParameters (budget : Nat) : Takes (budget + 1) (parseGenericParameters budget) :=
  .node (.and_then (.provided .error) (.and_then (handles_genericParameters budget false)
    (.and_then .expect .last)))

theorem handles_parseParameterList (budget : Nat) : Handles budget (parseParameterList budget) :=
  .start (.and_then .expect (.and_then
    (.commaSeparated (.start (.and_then (handles_parseType budget false) (.and_then .expect .last))) (Nat.le_refl _))
    (.and_then .expect .last)))

theorem takes_parseThrowsClause (budget : Nat) : Takes (budget + 1) (parseThrowsClause budget) :=
  .node (.and_then (.commaChained (handles_parseType budget false) (Nat.le_refl _)) .last)

/-! ## 2. Recovery -/

omit [Rowan] in
theorem handles_bumpUntil (kinds : List SyntaxKind) (budget : Nat) : Handles budget (bumpUntil kinds budget) := by
  refine .repeatUntil (fun entry opened left parser _ hstop hat ↦ ?_) (Nat.le_refl _)
  rw [Bool.or_eq_false_iff] at hstop
  exact hat.bump_one hstop.1

omit [Rowan] in
theorem takes_bumpUntil {kinds : List SyntaxKind} {budget : Nat} (h : entry.At opened left parser)
    (hleft : left < budget) (hend : parser.atEnd = false) (hkinds : parser.atAny kinds = false) :
    0 < left ∧ Returns parser (bumpUntil kinds budget) fun _ t ↦ entry.At opened (left - 1) t := by
  have ⟨hpos, hret⟩ := h.bump_one hend
  refine ⟨hpos, ?_⟩
  cases budget with
  | zero => omega
  | succ budget =>
      refine .whether (fun hstop ↦ ?_) fun _ ↦ hret.and_then fun _ t ht ↦
        handles_bumpUntil kinds budget entry opened (left - 1) t (by omega) ht
      rw [hend, hkinds] at hstop
      cases hstop

theorem handles_recoverStatement (budget : Nat) (message : String) : Handles budget (recoverStatement budget message) :=
  .start (.and_then .error (.and_then (handles_bumpUntil _ _) (.and_then .eat .last)))

/-- Recovery takes a token: the semicolon that it looks for, or what stands before it. -/
theorem takes_recoverStatement {budget : Nat} {message : String} (h : entry.At opened left parser)
    (hleft : left < budget) (hend : parser.atEnd = false) (hbrace : parser.isAt .rBrace = false) :
    0 < left ∧ Returns parser (recoverStatement budget message) fun _ t ↦ entry.At opened (left - 1) t := by
  refine ⟨(h.bump_one hend).1, ?_⟩
  refine (h.start .error).and_then fun _ parser₁ h₁ ↦ (h₁.1.error message).and_then fun _ parser₂ h₂ ↦ ?_
  have hsig : parser₂.significant = parser.significant := (significant_congr h₂.2).trans h₁.2
  have hend₂ := (atEnd_congr hsig).trans hend
  have hclose (t : Parser) (ht : entry.At (opened + 1) (left - 1) t) :
      Returns t finish fun _ t ↦ entry.At opened (left - 1) t := ht.finish.mono fun _ _ ht ↦ ht.1
  cases hsemicolon : parser₂.isAt .semicolon with
  | false =>
      have hkinds : parser₂.atAny [.semicolon, .rBrace] = false := by
        have hbrace₂ := (isAt_congr hsig .rBrace).trans hbrace
        unfold Parser.atAny
        unfold Parser.isAt at hsemicolon hbrace₂
        cases hcurrent : parser₂.current with
        | none => rfl
        | some kind =>
            rw [hcurrent] at hsemicolon hbrace₂
            simp_all
      have ⟨_, hret⟩ := takes_bumpUntil h₂.1 hleft hend₂ hkinds
      exact hret.and_then fun _ t ht ↦ (ht.eat .semicolon).and_then fun _ t ht ↦ hclose t ht
  | true =>
      have hlength := h₂.1.left
      have hret := handles_bumpUntil [.semicolon, .rBrace] budget entry _ _ parser₂ (by omega) h₂.1.tight
      refine hret.and_then fun _ t ht ↦ ?_
      rcases h₂.1.same_or_fewer ht with hrest | ⟨_, hfewer⟩
      · have hat := (isAt_congr (significant_congr hrest) .semicolon).trans hsemicolon
        have hone := (ht.bump_one (atEnd_of_isAt hat)).2
        refine Returns.and_then (.provided (fun _ ↦ hone) fun hnot ↦ ?_) fun _ t ht ↦ hclose t (ht.mono (by omega))
        rw [hat] at hnot
        cases hnot
      · exact ((hfewer.mono (by omega)).eat .semicolon).and_then fun _ t ht ↦ hclose t ht

omit [Rowan] in
theorem handles_skipItem (budget braceDepth : Nat) : Handles budget (skipItem budget braceDepth) := by
  induction budget generalizing braceDepth with
  | zero => exact closes_zero
  | succ budget ih =>
      intro entry opened left parser hleft hat
      have hmore (depth : Nat) (hend : parser.atEnd = false) :
          Returns parser (do bump; skipItem budget depth) fun _ parser ↦ entry.At opened left parser :=
        ((Takes.bump.and_then (ih depth)) entry opened left parser hleft hend hat).2.mono
          fun _ _ ht ↦ ht.mono (Nat.sub_le _ _)
      have hend {kind : SyntaxKind} (h : parser.current = some kind) : parser.atEnd = false := by
        rw [Parser.atEnd, h]
        rfl
      refine .read ?_
      split
      case h_1 => exact .pure hat
      case h_2 h => exact hmore _ (hend h)
      case h_3 h =>
        split
        · exact .pure hat
        · exact hmore _ (hend h)
      case h_4 h =>
        split
        · exact hat.bump
        · exact hmore _ (hend h)
      case h_5 h => exact hmore _ (hend h)

omit [Rowan] in
theorem takes_skipItem {budget : Nat} (h : entry.At opened left parser) (hleft : left < budget)
    (hend : parser.atEnd = false) (hbrace : parser.isAt .rBrace = false) :
    0 < left ∧ Returns parser (skipItem budget 0) fun _ t ↦ entry.At opened (left - 1) t := by
  have ⟨hpos, hret⟩ := h.bump_one hend
  refine ⟨hpos, ?_⟩
  cases budget with
  | zero => omega
  | succ budget =>
      have hmore (depth : Nat) : Returns parser (do bump; skipItem budget depth) fun _ t ↦ entry.At opened (left - 1) t :=
        hret.and_then fun _ t ht ↦ handles_skipItem budget depth entry opened (left - 1) t (by omega) ht
      refine .read ?_
      split
      case h_1 hnone =>
        rw [Parser.atEnd, hnone] at hend
        cases hend
      case h_2 => exact hmore _
      case h_3 hat =>
        rw [Parser.isAt, hat] at hbrace
        exact absurd hbrace (by decide)
      case h_4 =>
        rw [if_pos rfl]
        exact hret
      case h_5 => exact hmore _

theorem takes_recoverItem {budget : Nat} {message : String} (h : entry.At opened left parser)
    (hleft : left < budget) (hend : parser.atEnd = false) (hbrace : parser.isAt .rBrace = false) :
    0 < left ∧ Returns parser (recoverItem budget message) fun _ t ↦ entry.At opened (left - 1) t := by
  refine ⟨(h.bump_one hend).1, ?_⟩
  refine (h.start .error).and_then fun _ parser₁ h₁ ↦ (h₁.1.error message).and_then fun _ parser₂ h₂ ↦ ?_
  have hsig : parser₂.significant = parser.significant := (significant_congr h₂.2).trans h₁.2
  have ⟨_, hret⟩ := takes_skipItem h₂.1 hleft ((atEnd_congr hsig).trans hend) ((isAt_congr hsig .rBrace).trans hbrace)
  exact hret.and_then fun _ t ht ↦ ht.finish.mono fun _ _ ht ↦ ht.1

omit [Rowan] in
/-- A pass of a loop that recovers where its routine took nothing. -/
theorem takes_pass {budget : Nat} {routine recover : Parse Unit} (hroutine : Handles budget routine)
    (hrecover : Handles budget recover) (h : entry.At opened left parser) (hleft : left < budget)
    (htakes : ∀ parser', parser'.rest = parser.rest → entry.At opened parser.rest.length parser' →
      0 < parser.rest.length ∧ Returns parser' recover fun _ t ↦ entry.At opened (parser.rest.length - 1) t) :
    0 < left ∧ Returns parser
      (do let previous ← get; routine; provided (·.position = previous.position) recover)
      fun _ t ↦ entry.At opened (left - 1) t := by
  have hlength := h.left
  have hpos := (htakes parser rfl h.tight).1
  refine ⟨by omega, .read ((hroutine entry opened _ parser (by omega) h.tight).and_then fun _ t ht ↦ ?_)⟩
  rcases h.same_or_fewer ht with hrest | ⟨_, hfewer⟩
  · have hposition : t.position = parser.position := (h.position_eq_iff ht).mpr (congrArg List.length hrest)
    refine .provided (fun _ ↦ (htakes t hrest ht).2.mono fun _ _ hu ↦ hu.mono (by omega)) fun hnot ↦ ?_
    exact absurd hposition (of_decide_eq_false hnot)
  · have hfewer : entry.At opened (left - 1) t := hfewer.mono (by omega)
    exact .provided (fun _ ↦ hrecover entry opened (left - 1) t (by omega) hfewer) fun _ ↦ hfewer

theorem handles_recoverItem (budget : Nat) (message : String) : Handles budget (recoverItem budget message) :=
  .start (.and_then .error (.and_then (handles_skipItem _ _) .last))

/-! ## 3. Expressions -/

/-- What the calls of one another can do: fewer than `budget` tokens. -/
structure Nested.Serves (nested : Nested) (budget : Nat) : Prop where
  enough : budget ≤ nested.budget
  expression : ∀ minimumBindingPower, Handles budget (nested.parseExpressionBp minimumBindingPower)
  statement : Handles budget nested.parseStatement

namespace Nested.Serves

variable {nested : Nested} {budget : Nat}

theorem parseType (h : nested.Serves budget) (allowAuto : Bool) :
    Handles budget (Source.parseType nested.budget allowAuto) :=
  (handles_parseType _ _).mono h.enough

omit [Rowan] in
theorem parseExpression (h : nested.Serves budget) : Handles budget nested.parseExpression := h.expression 0

theorem takes_parseArgumentList (h : nested.Serves budget) : Takes (budget + 1) nested.parseArgumentList :=
  .node (.and_then (.commaSeparated h.parseExpression h.enough) (.and_then .expect .last))

theorem handles_parseArgumentList (h : nested.Serves budget) : Handles budget nested.parseArgumentList :=
  .start (.and_then .bump (.and_then (.commaSeparated h.parseExpression h.enough) (.and_then .expect .last)))

theorem takes_parseInitializerList (h : nested.Serves budget) : Takes (budget + 1) nested.parseInitializerList :=
  .node (.and_then (.commaSeparated h.parseExpression h.enough) (.and_then .expect .last))

theorem handles_parseSwitchPatternAlternative (h : nested.Serves budget) :
    Handles budget nested.parseSwitchPatternAlternative :=
  .whether (.start (.and_then .bump .last))
    (.start (.and_then ((handles_parseQualifiedName _ _).mono h.enough) .last))

theorem handles_patternAlternatives (h : nested.Serves budget) {passes bound : Nat} (hpasses : bound ≤ passes)
    (hbound : bound ≤ budget) : Handles bound (nested.patternAlternatives passes) := by
  induction passes generalizing bound with
  | zero =>
      rw [Nat.le_zero.mp hpasses]
      exact closes_zero
  | succ passes ih =>
      cases bound with
      | zero => exact closes_zero
      | succ bound =>
          have halternative : Handles bound nested.parseSwitchPatternAlternative :=
            h.handles_parseSwitchPatternAlternative.mono (by omega)
          have hrest : Handles bound (nested.patternAlternatives passes) := ih (by omega) (by omega)
          exact ((Takes.bump.and_then (.whether (.and_then halternative hrest) .error)).takesAt _).provided

theorem handles_parseSwitchArm (h : nested.Serves budget) : Handles budget nested.parseSwitchArm :=
  .start (.start (.and_then
    (.whether .bump (.whether (.and_then h.handles_parseSwitchPatternAlternative
      (h.handles_patternAlternatives h.enough (Nat.le_refl _)))
      (.and_then .error (.provided .bump))))
    (.finish (.and_then .expect (.and_then h.parseExpression .last)))))

theorem takes_parseSwitchExpression (h : nested.Serves budget) : Takes (budget + 1) nested.parseSwitchExpression :=
  .node (.and_then .expect (.and_then h.parseExpression (.and_then .expect (.and_then .expect
    (.and_then (.commaSeparated h.handles_parseSwitchArm h.enough) (.and_then .expect .last))))))

theorem handles_parseLambdaCapture (h : nested.Serves budget) : Handles budget nested.parseLambdaCapture :=
  .start (.read fun _ ↦ .and_then .eat (.and_then .expect
    (.and_then (.provided (.and_then .bump (.and_then (.provided .error) h.parseExpression))) .last)))

theorem takes_parseCaptureList (h : nested.Serves budget) : TakesAt .lBracket (budget + 1) nested.parseCaptureList :=
  .node .expect (.and_then (.commaSeparated h.handles_parseLambdaCapture h.enough) (.and_then .expect .last))

theorem takes_blockPass (h : nested.Serves budget) (entry : Entry) (opened left : Nat) (parser : Parser)
    (hleft : left < budget) (hstop : (parser.atEnd || parser.isAt .rBrace) = false)
    (hat : entry.At opened left parser) :
    0 < left ∧ Returns parser nested.blockPass fun _ parser ↦ entry.At opened (left - 1) parser := by
  rw [Bool.or_eq_false_iff] at hstop
  have hlength := hat.left
  have hrecover := (handles_recoverStatement nested.budget "parser could not make progress in block").mono h.enough
  refine takes_pass h.statement hrecover hat hleft fun parser' hrest hat' ↦ ?_
  have hsig := significant_congr hrest
  have henough := h.enough
  exact takes_recoverStatement hat' (by omega) ((atEnd_congr hsig).trans hstop.1)
    ((isAt_congr hsig .rBrace).trans hstop.2)

theorem closes_statements (h : nested.Serves budget) :
    Closes 1 budget (do
      repeatUntil .budget (fun parser ↦ parser.atEnd || parser.isAt .rBrace) nested.blockPass nested.budget
      expect .rBrace "expected `\x7d` to close block"
      finish) :=
  .and_then (.repeatUntil h.takes_blockPass h.enough) (.and_then .expect .last)

theorem handles_parseBlock (h : nested.Serves budget) : Handles budget nested.parseBlock :=
  .start (.and_then .expect h.closes_statements)

theorem takes_parseBlock (h : nested.Serves budget) : TakesAt .lBrace (budget + 1) nested.parseBlock :=
  .node .expect h.closes_statements

theorem takes_parseLambdaExpression (h : nested.Serves budget) :
    TakesAt .lBracket (budget + 1) nested.parseLambdaExpression :=
  .node h.takes_parseCaptureList (.and_then ((handles_parseParameterList _).mono h.enough)
    (.and_then .eat (.and_then .eat (.and_then h.handles_parseBlock .last))))

theorem takes_parseJsonArrayExpression (h : nested.Serves budget) :
    TakesAt .lBracket (budget + 1) nested.parseJsonArrayExpression :=
  .node .expect (.and_then (.commaSeparated h.parseExpression h.enough) (.and_then .expect .last))

theorem handles_parseJsonMember (h : nested.Serves budget) : Handles budget nested.parseJsonMember :=
  .start (.and_then (.whether .bump (.and_then .error (.provided .bump)))
    (.and_then .expect (.and_then h.parseExpression .last)))

theorem takes_parseJsonObjectExpression (h : nested.Serves budget) :
    TakesAt .lBrace (budget + 1) nested.parseJsonObjectExpression :=
  .node .expect (.and_then (.commaSeparated h.handles_parseJsonMember h.enough) (.and_then .expect .last))

theorem handles_genericArguments (h : nested.Serves budget) :
    Handles budget (provided (fun parser ↦ parser.isAt .less && parser.genericArgumentsAreFollowedByConstruction)
      (parseGenericArguments (Source.parseType nested.budget false) nested.budget)) := by
  intro entry opened left parser hleft hat
  have henough := h.enough
  refine .provided (fun htest ↦ ?_) fun _ ↦ hat
  rw [Bool.and_eq_true] at htest
  have htakes := takes_parseGenericArguments (handles_parseType nested.budget false)
  have ⟨_, hret⟩ := htakes entry opened left parser (by omega) (atEnd_of_isAt htest.1) hat
  exact hret.mono fun _ _ ht ↦ ht.mono (Nat.sub_le _ _)

theorem handles_parsePrimary (h : nested.Serves budget) : Handles (budget + 1) nested.parsePrimary := by
  intro entry opened left parser hleft hat
  have hatKind {kind : SyntaxKind} {routine : Parse Unit} (hroutine : TakesAt kind (budget + 1) routine)
      (hkind : parser.isAt kind = true) : Returns parser routine fun _ t ↦ entry.At opened left t :=
    (hroutine entry opened left parser hleft hkind hat).2.mono fun _ _ ht ↦ ht.mono (Nat.sub_le _ _)
  refine .read ?_
  split
  case isTrue => exact Closes.start (.and_then .bump .last) entry opened left parser hleft hat
  case isFalse =>
    split
    case isTrue hname =>
      have hnode : Takes (budget + 1) (do
          start .nameExpression
          bump
          segments (expect .identifier "expected a name after `::`") nested.budget
          provided (fun parser ↦ parser.isAt .less && parser.genericArgumentsAreFollowedByConstruction)
            (parseGenericArguments (Source.parseType nested.budget false) nested.budget)
          finish) :=
        .node (.and_then (.segments .expect h.enough) (.and_then h.handles_genericArguments .last))
      have ⟨_, hret⟩ := hnode entry opened left parser hleft (atEnd_of_atAny hname) hat
      exact hret.mono fun _ _ ht ↦ ht.mono (Nat.sub_le _ _)
    case isFalse =>
      split
      case isTrue hparen =>
        exact hatKind (Takes.takesAt (.node (.and_then h.parseExpression (.and_then .expect .last))) .lParen) hparen
      case isFalse =>
        split
        case isTrue hswitch => exact hatKind (h.takes_parseSwitchExpression.takesAt .switchKw) hswitch
        case isFalse =>
          split
          case isTrue hlambda =>
            rw [Bool.and_eq_true] at hlambda
            exact hatKind h.takes_parseLambdaExpression hlambda.1
          case isFalse =>
            split
            case isTrue harray => exact hatKind h.takes_parseJsonArrayExpression harray
            case isFalse =>
              split
              case isTrue hobject => exact hatKind h.takes_parseJsonObjectExpression hobject
              case isFalse =>
                exact Closes.start (.and_then .error (.and_then (.provided .bump) .last)) entry opened left parser
                  hleft hat

theorem handles_parsePrefixOrPrimary (h : nested.Serves budget) : Handles (budget + 1) nested.parsePrefixOrPrimary := by
  intro entry opened left parser hleft hat
  refine .whether (fun hprefix ↦ ?_) fun _ ↦ h.handles_parsePrimary entry opened left parser hleft hat
  have hnode : Takes (budget + 1) (do start .prefixExpression; bump; nested.parseExpressionBp 11; finish) :=
    .node (.and_then (h.expression 11) .last)
  have ⟨_, hret⟩ := hnode entry opened left parser hleft (atEnd_of_atAny hprefix) hat
  exact hret.mono fun _ _ ht ↦ ht.mono (Nat.sub_le _ _)

omit [Rowan] in
theorem takes_parseMember (h : nested.Serves budget) : Takes (budget + 1) nested.parseMember :=
  .and_then .bump (.and_then (.whether .bump .expect) (.segments .expect h.enough))

/-- The nodes of the loop begin where the expression began. -/
theorem returns_parsePostfix (h : nested.Serves budget) (hleads : Leads entry.file entry.before) {passes : Nat}
    (aggregateAllowed : Bool) (hat : entry.At 0 left parser) (hleft : left < budget + 1) (hpasses : left < passes) :
    Returns parser (nested.parsePostfix entry.before.length passes aggregateAllowed) fun _ t ↦ entry.At 0 left t := by
  induction passes generalizing left parser aggregateAllowed with
  | zero => omega
  | succ passes ih =>
      -- a node that took a token is closed, and the loop goes on
      have hclose (t : Parser) (hpos : 0 < left) (ht : entry.At 1 (left - 1) t) :
          Returns t (do finish; nested.parsePostfix entry.before.length passes false) fun _ t ↦ entry.At 0 left t :=
        ht.finish.and_then fun _ u hu ↦
          (ih false hu.1 (by omega) (by omega)).mono fun _ _ hv ↦ hv.mono (Nat.sub_le _ _)
      have hopen {kind node : SyntaxKind} {body rest : Parse Unit} (hbody : TakesAt kind (budget + 1) body)
          (hkind : parser.isAt kind = true)
          (hrest : ∀ t, 0 < left → entry.At 1 (left - 1) t → Returns t rest fun _ t ↦ entry.At 0 left t) :
          Returns parser (do startNodeAt entry.before.length node; body; rest) fun _ t ↦ entry.At 0 left t := by
        refine (hat.startNodeAt hleads node).and_then fun _ t ht ↦ ?_
        have ⟨hpos, hret⟩ := hbody entry 1 left t hleft ((isAt_congr ht.2 kind).trans hkind) ht.1
        exact hret.and_then fun _ u hu ↦ hrest u hpos hu
      have hcall {routine : Parse Unit} (hroutine : Handles budget routine) (t : Parser) (hpos : 0 < left)
          (ht : entry.At 1 (left - 1) t) : Returns t routine fun _ t ↦ entry.At 1 (left - 1) t :=
        hroutine entry 1 (left - 1) t (by omega) ht
      refine .read ?_
      split
      case isTrue hmacro =>
        rw [Bool.and_eq_true] at hmacro
        refine hopen (Takes.bump.takesAt .bang) hmacro.1 fun t hpos ht ↦ ?_
        exact (hcall h.handles_parseArgumentList t hpos ht).and_then fun _ u hu ↦ hclose u hpos hu
      case isFalse =>
        split
        case isTrue hparen => exact hopen (h.takes_parseArgumentList.takesAt .lParen) hparen hclose
        case isFalse =>
          split
          case isTrue hbrace =>
            rw [Bool.and_eq_true] at hbrace
            exact hopen (h.takes_parseInitializerList.takesAt .lBrace) hbrace.1 hclose
          case isFalse =>
            split
            case isTrue hdot =>
              split
              case isTrue =>
                exact hopen (Takes.bump.takesAt .dot) hdot fun t hpos ht ↦
                  ht.bump.and_then fun _ u hu ↦ hclose u hpos hu
              case isFalse => exact hopen (h.takes_parseMember.takesAt .dot) hdot hclose
            case isFalse =>
              split
              case isTrue hbracket =>
                exact hopen (Takes.bump.takesAt .lBracket) hbracket fun t hpos ht ↦
                  (hcall h.parseExpression t hpos ht).and_then fun _ u hu ↦
                    (hu.expect .rBracket _).and_then fun _ v hv ↦ hclose v hpos hv
              case isFalse =>
                split
                case isTrue hstep =>
                  refine (hat.startNodeAt hleads _).and_then fun _ t ht ↦ ?_
                  have ⟨hpos, hret⟩ := ht.1.bump_one ((atEnd_congr ht.2).trans (atEnd_of_atAny hstep))
                  exact hret.and_then fun _ u hu ↦ hclose u hpos hu
                case isFalse => exact .pure hat

theorem returns_parseInfix (h : nested.Serves budget) (hleads : Leads entry.file entry.before)
    (minimumBindingPower : Nat) {passes : Nat} (hat : entry.At 0 left parser) (hleft : left < budget + 1)
    (hpasses : left < passes) :
    Returns parser (nested.parseInfix entry.before.length minimumBindingPower passes) fun _ t ↦
      entry.At 0 left t := by
  induction passes generalizing left parser with
  | zero => omega
  | succ passes ih =>
      refine .read ?_
      cases hpower : infixBindingPower parser.current with
      | none => exact .pure hat
      | some powers =>
          have hend : parser.atEnd = false := by
            rw [Parser.atEnd]
            cases hcurrent : parser.current with
            | none =>
                rw [hcurrent] at hpower
                cases hpower
            | some kind => rfl
          dsimp only
          split
          · exact .pure hat
          · refine (hat.startNodeAt hleads _).and_then fun _ t ht ↦ ?_
            obtain ⟨hpos, hret⟩ := ht.1.bump_one ((atEnd_congr ht.2).trans hend)
            refine hret.and_then fun _ u hu ↦ ?_
            refine (h.expression powers.2 entry 1 (left - 1) u (by omega) hu).and_then fun _ v hv ↦ ?_
            refine hv.finish.and_then fun _ w hw ↦ ?_
            exact (ih hw.1 (by omega) (by omega)).mono fun _ _ hx ↦ hx.mono (Nat.sub_le _ _)

theorem handles_expressionBp (h : nested.Serves budget) (hmore : budget + 1 ≤ nested.budget)
    (minimumBindingPower : Nat) : Handles (budget + 1) (nested.expressionBp minimumBindingPower) := by
  intro entry opened left parser hleft hat
  have hleads := hat.leads_eatTrivia
  refine Returns.and_then (R := fun _ t ↦ t = parser.eatTrivia) (.modify rfl) fun _ parser₁ h₁ ↦ ?_
  subst h₁
  have hat₁ := hat.eatTrivia
  have hin := hat₁.enter
  show Returns parser.eatTrivia
    (do
      nested.parsePrefixOrPrimary
      nested.parsePostfix parser.eatTrivia.children.length nested.budget (parser.eatTrivia.isAt .identifier)
      nested.parseInfix parser.eatTrivia.children.length minimumBindingPower nested.budget) _
  have hrun : Returns parser.eatTrivia
      (do
        nested.parsePrefixOrPrimary
        nested.parsePostfix parser.eatTrivia.children.length nested.budget (parser.eatTrivia.isAt .identifier)
        nested.parseInfix parser.eatTrivia.children.length minimumBindingPower nested.budget)
      fun _ t ↦ (Entry.At.inner entry parser.eatTrivia).At 0 left t :=
    (h.handles_parsePrefixOrPrimary _ 0 left _ hleft hin).and_then fun _ _ ht ↦
      (h.returns_parsePostfix hleads _ ht hleft (by omega)).and_then fun _ _ hu ↦
        h.returns_parseInfix hleads minimumBindingPower hu hleft (by omega)
  exact hrun.mono fun _ _ ht ↦ hat₁.leave ht

/-! ## 4. Statements -/

theorem takes_parseOptionalValue (h : nested.Serves budget) (kind : SyntaxKind) (message : String) :
    Takes (budget + 1) (nested.parseOptionalValue kind message) :=
  .node (.and_then (.provided h.parseExpression) (.and_then .expect .last))

theorem takes_parseCatchClause (h : nested.Serves budget) : Takes (budget + 1) nested.parseCatchClause :=
  .node (.and_then .expect (.and_then (.whether .bump (.and_then (h.parseType false) .expect))
    (.and_then .expect (.and_then h.handles_parseBlock .last))))

theorem takes_parseTryStatement (h : nested.Serves budget) : Takes (budget + 1) nested.parseTryStatement := by
  have hcatches : Handles budget (repeatUntil .budget (!·.isAt .catchKw) nested.parseCatchClause nested.budget) := by
    refine .repeatUntil (fun entry opened left parser hleft hstop hat ↦ ?_) h.enough
    have hcatch : parser.isAt .catchKw = true := by
      rw [Bool.not_eq_false'] at hstop
      exact hstop
    exact h.takes_parseCatchClause entry opened left parser (by omega) (atEnd_of_isAt hcatch) hat
  exact .node (.and_then h.handles_parseBlock (.and_then (.provided .error) (.and_then hcatches .last)))

theorem takes_parseIfStatement (h : nested.Serves budget) : Takes (budget + 1) nested.parseIfStatement :=
  .node (.and_then .expect (.and_then h.parseExpression (.and_then .expect (.and_then h.statement
    (.and_then (.provided (.start (.and_then .bump (.and_then h.statement .last)))) .last)))))

theorem takes_parseWhileStatement (h : nested.Serves budget) : Takes (budget + 1) nested.parseWhileStatement :=
  .node (.and_then .expect (.and_then h.parseExpression (.and_then .expect (.and_then h.statement .last))))

theorem handles_parseRangeForClause (h : nested.Serves budget) : Handles budget nested.parseRangeForClause :=
  .start (.and_then (h.parseType true)
    (.and_then
      (.whether (.and_then .bump (.and_then .expect (.and_then .expect (.and_then .expect .expect)))) .expect)
      (.and_then .expect (.and_then h.parseExpression .last))))

theorem handles_parseLocalDeclaration {bound : Nat} (hexpression : Handles bound nested.parseExpression)
    (hbound : bound ≤ nested.budget) : Handles bound nested.parseLocalDeclaration :=
  .start (.and_then ((handles_parseType _ _).mono hbound) (.and_then .expect
    (.and_then (.provided (.and_then .bump hexpression)) (.and_then .expect .last))))

theorem handles_parseExpressionStatement {bound : Nat} (hexpression : Handles bound nested.parseExpression) :
    Handles bound nested.parseExpressionStatement :=
  .start (.and_then hexpression (.and_then .expect .last))

theorem handles_parseClassicForClause (h : nested.Serves budget) : Handles budget nested.parseClassicForClause :=
  .start (.and_then
    (.whether .bump (.whether (handles_parseLocalDeclaration h.parseExpression h.enough)
      (.and_then h.parseExpression .expect)))
    (.and_then (.provided h.parseExpression) (.and_then .expect
      (.and_then (.provided h.parseExpression) .last))))

theorem takes_parseForStatement (h : nested.Serves budget) : Takes (budget + 1) nested.parseForStatement :=
  .node (.and_then .expect (.and_then (.whether h.handles_parseRangeForClause h.handles_parseClassicForClause)
    (.and_then .expect (.and_then h.statement .last))))

theorem takes_parseKeywordStatement (budget : Nat) (kind : SyntaxKind) :
    Takes (budget + 1) (parseKeywordStatement kind) :=
  .node (.and_then .expect .last)

theorem handles_statement (h : nested.Serves budget) {bound : Nat}
    (hexpression : Handles bound nested.parseExpression) (hbound : bound ≤ budget + 1) (henough : bound ≤ nested.budget) :
    Handles bound nested.statement := by
  intro entry opened left parser hleft hat
  have hled {kind : SyntaxKind} {routine : Parse Unit} (hroutine : TakesAt kind (budget + 1) routine)
      (hcurrent : parser.current = some kind) : Returns parser routine fun _ t ↦ entry.At opened left t :=
    (hroutine entry opened left parser (by omega) (decide_eq_true hcurrent) hat).2.mono
      fun _ _ ht ↦ ht.mono (Nat.sub_le _ _)
  have hempty : Takes (budget + 1) (do start .emptyStatement; bump; finish) := .node .last
  refine .read ?_
  split
  case h_1 hat => exact hled h.takes_parseBlock hat
  case h_2 hat => exact hled ((h.takes_parseOptionalValue _ _).takesAt _) hat
  case h_3 hat => exact hled ((h.takes_parseOptionalValue _ _).takesAt _) hat
  case h_4 hat => exact hled (h.takes_parseTryStatement.takesAt _) hat
  case h_5 hat => exact hled (h.takes_parseIfStatement.takesAt _) hat
  case h_6 hat => exact hled (h.takes_parseWhileStatement.takesAt _) hat
  case h_7 hat => exact hled (h.takes_parseForStatement.takesAt _) hat
  case h_8 hat => exact hled ((takes_parseKeywordStatement _ _).takesAt _) hat
  case h_9 hat => exact hled ((takes_parseKeywordStatement _ _).takesAt _) hat
  case h_10 hat => exact hled (hempty.takesAt _) hat
  case h_11 =>
    split
    · exact handles_parseLocalDeclaration hexpression henough entry opened left parser hleft hat
    · exact handles_parseExpressionStatement hexpression entry opened left parser hleft hat
  case h_12 => exact .pure hat

end Nested.Serves

/-- Two levels are enough for a token: a statement, and the expression that it may begin with. -/
theorem nested_serves (depth : Nat) :
    (∀ minimumBindingPower, Handles (depth / 2) ((nested depth).parseExpressionBp minimumBindingPower)) ∧
      Handles ((depth - 1) / 2) (nested depth).parseStatement := by
  induction depth with
  | zero => exact ⟨fun _ ↦ closes_zero, closes_zero⟩
  | succ depth ih =>
      by_cases hzero : depth = 0
      · subst hzero
        exact ⟨fun _ ↦ closes_zero, closes_zero⟩
      · have hbudget : (nested depth).budget = depth := by cases depth <;> rfl
        have hserves : (nested depth).Serves ((depth - 1) / 2) := {
          enough := by omega
          expression := fun power ↦ (ih.1 power).mono (by omega)
          statement := ih.2 }
        constructor
        · intro power
          exact (hserves.handles_expressionBp (by omega) power).mono (by omega)
        · exact hserves.handles_statement (ih.1 0) (by omega) (by omega)

/-! ## 5. Items -/

section

variable {budget bound : Nat}

omit [Rowan] in
theorem handles_useDeclarationPath (budget braceDepth : Nat) (hat : entry.At opened left parser)
    (hleft : left < budget) : Returns parser (useDeclarationPath budget braceDepth) fun _ t ↦ entry.At opened left t := by
  induction budget generalizing braceDepth left parser with
  | zero => omega
  | succ budget ih =>
      have hmore {kind : SyntaxKind} (depth : Nat) (hcurrent : parser.current = some kind) :
          Returns parser (do bump; useDeclarationPath budget depth) fun _ t ↦ entry.At opened left t := by
        have ⟨hpos, hret⟩ := hat.bump_one (atEnd_of_isAt (decide_eq_true hcurrent))
        exact hret.and_then fun _ t ht ↦ (ih depth ht (by omega)).mono fun _ _ hu ↦ hu.mono (Nat.sub_le _ _)
      refine .read ?_
      split
      case h_1 => exact .pure hat
      case h_2 hcurrent => exact hmore _ hcurrent
      case h_3 hcurrent => exact hmore _ hcurrent
      case h_4 hcurrent =>
        split
        · exact hat.bump.and_then fun _ t ht ↦ .pure ht
        · exact hmore _ hcurrent
      case h_5 hcurrent => exact hmore _ hcurrent

theorem takes_parseUseDeclaration (budget : Nat) : Takes (budget + 1) (parseUseDeclaration budget) := by
  refine .node fun entry opened left parser hleft hat ↦ ?_
  refine (handles_useDeclarationPath budget 0 hat hleft).and_then fun closed t ht ↦ ?_
  cases closed with
  | true => exact ht.finish.mono fun _ _ hu ↦ hu.1
  | false => exact (ht.error _).and_then fun _ u hu ↦ hu.1.finish.mono fun _ _ hv ↦ hv.1

theorem handles_parseEnumVariant : Handles budget parseEnumVariant :=
  .start (.and_then .expect (.and_then .expect (.and_then .expect .last)))

theorem takes_parseEnumDefinition (budget : Nat) : Takes (budget + 1) (parseEnumDefinition budget) :=
  .node (.and_then .expect (.and_then .expect (.and_then (handles_parseType budget false) (.and_then .expect
    (.and_then (.commaSeparated handles_parseEnumVariant (Nat.le_refl _))
      (.and_then .expect (.and_then .expect .last)))))))

/-- What the nested routines of an item can do with its budget. -/
theorem serves_items (hbound : bound ≤ (budget - 1) / 2) : (nested budget).Serves bound where
  enough := by
    have hbudget : (nested budget).budget = budget := by cases budget <;> rfl
    omega
  expression := fun power ↦ ((nested_serves budget).1 power).mono (by omega)
  statement := (nested_serves budget).2.mono hbound

theorem handles_itemType (hbound : bound ≤ (budget - 1) / 2) (allowAuto : Bool) :
    Handles bound (parseType budget allowAuto) :=
  (handles_parseType _ _).mono (by omega)

theorem handles_parseFieldDeclaration (hbound : bound ≤ (budget - 1) / 2) :
    Handles bound (parseFieldDeclaration budget) :=
  .start (.read fun _ ↦ .and_then (.provided (.and_then .bump (.provided .error)))
    (.and_then (handles_itemType hbound false) (.and_then .expect
      (.and_then (.whether (.and_then .bump (serves_items hbound).parseExpression) (.provided .error))
        (.and_then .expect .last)))))

theorem handles_parseConstructorInitializerList (hbound : bound ≤ (budget - 1) / 2) :
    TakesAt .colon bound (parseConstructorInitializerList budget) := by
  have hname : Handles bound (parseQualifiedName budget "expected a base or field initializer name") :=
    (handles_parseQualifiedName _ _).mono (by omega)
  have hlist : Takes (bound + 1) (parseConstructorInitializerList budget) :=
    .node (.and_then (.commaChained
      (.start (.and_then hname (.and_then (serves_items hbound).handles_parseArgumentList .last))) (by omega)) .last)
  exact (hlist.mono (Nat.le_succ _)).takesAt _

omit [Rowan] in
theorem handles_parseDefaultOrDelete : Handles budget parseDefaultOrDelete :=
  .whether (.and_then (.provided .error) .bump) .error

theorem handles_throws (hbound : bound ≤ (budget - 1) / 2) :
    Handles bound (provided (·.isAt .throwsKw) (parseThrowsClause budget)) :=
  (((takes_parseThrowsClause budget).mono (by omega)).takesAt _).provided

theorem handles_parseConstructor (hbound : bound ≤ (budget - 1) / 2) : Handles bound (parseConstructor budget) := by
  have hblock := ((serves_items hbound).takes_parseBlock).mono (Nat.le_succ _)
  exact .read fun _ ↦ .start (.and_then ((handles_parseQualifiedName _ _).mono (by omega))
    (.and_then ((handles_parseParameterList _).mono (by omega)) (.and_then (handles_throws hbound)
      (.and_then (handles_parseConstructorInitializerList hbound).provided
        (.and_then
          (hblock.orElse (.whether (.and_then .bump (.and_then handles_parseDefaultOrDelete .expect)) .expect))
          .last)))))

theorem handles_parseFunction (hbound : bound ≤ (budget - 1) / 2) : Handles bound (parseFunction budget) := by
  have hblock := ((serves_items hbound).takes_parseBlock).mono (Nat.le_succ _)
  exact .read fun _ ↦ .start (.and_then (.provided .bump) (.and_then .eat
    (.and_then (handles_itemType hbound false) (.and_then ((handles_parseQualifiedName _ _).mono (by omega))
      (.and_then ((handles_parseParameterList _).mono (by omega)) (.and_then .eat
        (.and_then (handles_throws hbound) (.and_then (hblock.orElse .expect) .last))))))))

theorem handles_parseBase (hbound : bound ≤ (budget - 1) / 2) : Handles bound (parseBase budget) :=
  .and_then (.whether (.and_then .bump .error) .eat) (handles_itemType hbound false)

theorem handles_parseTypeMember (hbound : bound ≤ (budget - 1) / 2) (interface : Bool) :
    Handles bound (parseTypeMember budget interface) := by
  refine .read fun parser ↦ ?_
  split
  · exact .start (.and_then .bump (.and_then .expect .last))
  · split
    · split
      · exact handles_parseFieldDeclaration hbound
      · split
        · exact handles_parseFunction hbound
        · split
          · exact handles_parseConstructor hbound
          · split
            · exact handles_parseFunction hbound
            · exact handles_parseFieldDeclaration hbound
    · exact (handles_recoverStatement _ _).mono (by omega)

theorem takes_typeMemberPass (hbound : bound ≤ (budget - 1) / 2) (interface : Bool) (entry : Entry) (opened left : Nat)
    (parser : Parser) (hleft : left < bound) (hstop : (parser.atEnd || parser.isAt .rBrace) = false)
    (hat : entry.At opened left parser) :
    0 < left ∧ Returns parser (typeMemberPass budget interface) fun _ parser ↦ entry.At opened (left - 1) parser := by
  rw [Bool.or_eq_false_iff] at hstop
  have hlength := hat.left
  have hrecover : Handles bound
      (recoverStatement budget "parser could not make progress in type declaration") :=
    (handles_recoverStatement _ _).mono (by omega)
  refine takes_pass (handles_parseTypeMember hbound interface) hrecover hat hleft fun parser' hrest hat' ↦ ?_
  have hsig := significant_congr hrest
  exact takes_recoverStatement hat' (by omega) ((atEnd_congr hsig).trans hstop.1)
    ((isAt_congr hsig .rBrace).trans hstop.2)

theorem takes_parseTypeDefinition (hbound : bound ≤ (budget - 1) / 2) (nodeKind : SyntaxKind)
    (declarationKind : String) (interface : Bool) :
    Takes (bound + 1) (parseTypeDefinition budget nodeKind declarationKind interface) := by
  have hparameters : TakesAt .less bound (parseGenericParameters budget) :=
    ((takes_parseGenericParameters budget).mono (by omega)).takesAt _
  have hbases : Handles bound (commaChained (parseBase budget) budget) :=
    .commaChained (handles_parseBase hbound) (by omega)
  have hmembers : Handles bound
      (repeatUntil .budget (fun parser ↦ parser.atEnd || parser.isAt .rBrace) (typeMemberPass budget interface)
        budget) :=
    .repeatUntil (takes_typeMemberPass hbound interface) (by omega)
  exact .node (.and_then (.provided .bump) (.and_then .expect (.and_then hparameters.provided
    (.and_then (.provided (.and_then .bump hbases)) (.and_then .expect
      (.and_then hmembers (.and_then .expect (.and_then .expect .last))))))))

theorem takes_parseNamespace {parseItems : Parse Unit} (h : Handles budget parseItems) :
    Takes (budget + 1) (parseNamespace parseItems) :=
  .node (.and_then .expect (.and_then .expect (.and_then h (.and_then .expect .last))))

/-- An item, where the items of a namespace have fewer tokens. -/
theorem handles_parseItem (hbound : bound ≤ (budget - 1) / 2) {inner : Nat} {parseItems : Parse Unit}
    (hitems : Handles inner parseItems) (hinner : bound ≤ inner + 1) : Handles bound (parseItem budget parseItems) := by
  intro entry opened left parser hleft hat
  have hled {kind : SyntaxKind} {routine : Parse Unit} (hroutine : Takes bound routine)
      (hcurrent : parser.current = some kind) : Returns parser routine fun _ t ↦ entry.At opened left t :=
    (hroutine entry opened left parser hleft (atEnd_of_isAt (decide_eq_true hcurrent)) hat).2.mono
      fun _ _ ht ↦ ht.mono (Nat.sub_le _ _)
  have htype (kind : SyntaxKind) (declarationKind : String) (interface : Bool) :=
    (takes_parseTypeDefinition hbound kind declarationKind interface).mono (Nat.le_succ _)
  have hfunction := handles_parseFunction hbound entry opened left parser hleft hat
  refine .read ?_
  split
  case h_1 hcurrent => exact hled ((takes_parseNamespace hitems).mono hinner) hcurrent
  case h_2 hcurrent => exact hled ((takes_parseUseDeclaration budget).mono (by omega)) hcurrent
  case h_3 hcurrent => exact hled (htype _ _ _) hcurrent
  case h_4 hcurrent => exact hled (htype _ _ _) hcurrent
  case h_5 hcurrent => exact hled (htype _ _ _) hcurrent
  case h_6 hcurrent => exact hled ((takes_parseEnumDefinition budget).mono (by omega)) hcurrent
  case h_7 =>
    split
    · exact handles_parseConstructor hbound entry opened left parser hleft hat
    · exact hfunction
  case h_8 => exact hfunction
  case h_9 => exact hfunction
  case h_10 => exact (handles_recoverItem _ _).mono (by omega) entry opened left parser hleft hat
  case h_11 => exact .pure hat

theorem takes_itemPass (hbound : bound ≤ (budget - 1) / 2) {inner : Nat} {parseItems : Parse Unit}
    (hitems : Handles inner parseItems) (hinner : bound ≤ inner + 1) (entry : Entry) (opened left : Nat)
    (parser : Parser) (hleft : left < bound) (hstop : (parser.atEnd || parser.isAt .rBrace) = false)
    (hat : entry.At opened left parser) :
    0 < left ∧ Returns parser (itemPass budget parseItems) fun _ parser ↦ entry.At opened (left - 1) parser := by
  rw [Bool.or_eq_false_iff] at hstop
  have hlength := hat.left
  have hrecover : Handles bound (recoverItem budget "parser could not make progress") :=
    (handles_recoverItem _ _).mono (by omega)
  refine takes_pass (handles_parseItem hbound hitems hinner) hrecover hat hleft fun parser' hrest hat' ↦ ?_
  have hsig := significant_congr hrest
  exact takes_recoverItem hat' (by omega) ((atEnd_congr hsig).trans hstop.1)
    ((isAt_congr hsig .rBrace).trans hstop.2)

theorem handles_parseItemList {depth : Nat} (hbound : bound ≤ (budget - 1) / 2) (hdepth : bound ≤ depth) :
    Handles bound (parseItemList budget depth) := by
  induction depth generalizing bound with
  | zero =>
      rw [Nat.le_zero.mp hdepth]
      exact closes_zero
  | succ depth ih =>
      have hitems : Handles (bound - 1) (parseItemList budget depth) := ih (by omega) (by omega)
      exact .repeatUntil (takes_itemPass hbound hitems (by omega)) (by omega)

end

end Stainless.Syntax.Source
