import Stainless.Syntax.SourceTree

/-!
# The parser of expressions

The parser works on the tokens that are left, without blanks and comments, and on a tree that it
builds from them.  It never fails: what it does not expect it reports and goes on.
-/

namespace Stainless.Syntax

open Source (SyntaxKind Token Tree)

/-! ## 1. The parser's state -/

/-- The tokens that are left, and `rowan`'s builder: the nodes that are open, each with the number of
children before its own, and the children so far. -/
structure Parser where
  tokens : List Token
  parents : List (SyntaxKind × Nat) := []
  children : List Tree := []
  errors : List String := []

namespace Parser

def nth (parser : Parser) (offset : Nat) : Option SyntaxKind := parser.tokens[offset]?.map Token.kind

def current (parser : Parser) : Option SyntaxKind := parser.nth 0

def currentText (parser : Parser) : Option String := parser.tokens.head?.map Token.text

def isAt (parser : Parser) (kind : SyntaxKind) : Bool := parser.current = some kind

def atAny (parser : Parser) (kinds : List SyntaxKind) : Bool := parser.current.any kinds.contains

def atEnd (parser : Parser) : Bool := parser.current.isNone

def checkpoint (parser : Parser) : Nat := parser.children.length

def start (parser : Parser) (kind : SyntaxKind) : Parser :=
  { parser with parents := (kind, parser.children.length) :: parser.parents }

def startNodeAt (parser : Parser) (checkpoint : Nat) (kind : SyntaxKind) : Parser :=
  { parser with parents := (kind, checkpoint) :: parser.parents }

def finish (parser : Parser) : Parser :=
  match parser.parents with
  | [] => parser
  | (kind, first) :: parents =>
      { parser with
        parents := parents
        children := parser.children.take first ++ [.node kind (parser.children.drop first)] }

def bump (parser : Parser) : Parser :=
  match parser.tokens with
  | [] => parser
  | token :: tokens => { parser with tokens := tokens, children := parser.children ++ [.token token] }

def error (parser : Parser) (message : String) : Parser :=
  { parser with errors := parser.errors ++ [message] }

def eat (parser : Parser) (kind : SyntaxKind) : Parser := if parser.isAt kind then parser.bump else parser

def expect (parser : Parser) (kind : SyntaxKind) (message : String) : Parser :=
  if parser.isAt kind then parser.bump else parser.error message

/-! ## 2. Looking ahead -/

def skipBalancedAngles : List Token → Nat → Nat → Option Nat
  | [], _, _ => none
  | token :: tokens, depth, offset =>
      match token.kind with
      | .less => skipBalancedAngles tokens (depth + 1) (offset + 1)
      | .greater =>
          if depth - 1 = 0 then some (offset + 1)
          else skipBalancedAngles tokens (depth - 1) (offset + 1)
      | _ => skipBalancedAngles tokens depth (offset + 1)

def genericArgumentsAreFollowedByConstruction (parser : Parser) : Bool :=
  match skipBalancedAngles parser.tokens 0 0 with
  | none => false
  | some offset => parser.nth offset = some .lParen || parser.nth offset = some .lBrace

/-- Whether the brackets at hand end before a parenthesis. -/
def lambdaAfter : List Token → Nat → Bool
  | [], _ => false
  | token :: tokens, depth =>
      match token.kind with
      | .lBracket => lambdaAfter tokens (depth + 1)
      | .rBracket =>
          if depth - 1 = 0 then tokens.head?.map Token.kind = some .lParen
          else lambdaAfter tokens (depth - 1)
      | _ => lambdaAfter tokens depth

def looksLikeLambda (parser : Parser) : Bool := parser.isAt .lBracket && lambdaAfter parser.tokens 0

def switchPatternAlternativeStartsHere (parser : Parser) : Bool :=
  parser.current.any SyntaxKind.isLiteral || parser.isAt .identifier && parser.nth 1 = some .colonColon

def infixBindingPower : SyntaxKind → Option (Nat × Nat)
  | .eq | .plusEq | .minusEq | .starEq | .slashEq | .percentEq => some (1, 1)
  | .orOr => some (2, 3)
  | .andAnd => some (3, 4)
  | .pipe => some (4, 5)
  | .caret => some (5, 6)
  | .amp => some (6, 7)
  | .eqEq | .notEq => some (7, 8)
  | .less | .lessEq | .greater | .greaterEq => some (8, 9)
  | .plus | .minus => some (9, 10)
  | .star | .slash | .percent => some (10, 11)
  | _ => none

/-! ## 3. Names and types -/

/-- `while eat(ColonColon) { expect(Identifier) }`, which takes a token each time. -/
def segments (message : String) : Nat → Parser → Parser
  | 0, parser => parser
  | left + 1, parser =>
      if parser.isAt .colonColon then segments message left (parser.bump.expect .identifier message)
      else parser

def parseSegments (parser : Parser) (message : String) : Parser :=
  segments message parser.tokens.length parser

mutual

def parseType : Nat → Bool → Parser → Option Parser
  | 0, _, _ => none
  | budget + 1, allowAuto, parser =>
      let parser := (parser.start .typeReference).eat .constKw
      if allowAuto && parser.isAt .autoKw then some ((parser.bump.eat .amp).finish)
      else if parser.isAt .identifier then
        let isFunctionType :=
          parser.currentText = some "function" || parser.currentText = some "function_mut"
        let parser := parser.bump.parseSegments "expected a type path segment"
        if isFunctionType then
          if parser.isAt .less then do
            let parser ← parseFunctionTypeArguments budget parser
            return (parser.eat .amp).finish
          else
            some (((parser.error
              "expected `<return_type(parameter_types...)>` after stored function type").eat .amp).finish)
        else if parser.isAt .less then do
          let parser ← parseGenericArguments budget parser
          return (parser.eat .amp).finish
        else some ((parser.eat .amp).finish)
      else
        let parser := parser.error "expected a type"
        let parser :=
          if parser.atAny [.identifier, .comma, .rParen, .semicolon] then parser else parser.bump
        some ((parser.eat .amp).finish)

def parseGenericArguments : Nat → Parser → Option Parser
  | 0, _ => none
  | budget + 1, parser => do
      let parser ← genericArguments budget (parser.start .genericArgumentList).bump
      return (parser.expect .greater "expected `>` after generic arguments").finish

def genericArguments : Nat → Parser → Option Parser
  | 0, _ => none
  | budget + 1, parser =>
      if parser.atEnd || parser.isAt .greater then some parser
      else do
        let parser ←
          if parser.isAt .integer then some ((parser.start .typeReference).bump.finish)
          else parseType budget false parser
        if parser.isAt .comma then genericArguments budget parser.bump else some parser

def parseFunctionTypeArguments : Nat → Parser → Option Parser
  | 0, _ => none
  | budget + 1, parser => do
      let parser ← parseType budget false
        ((parser.start .genericArgumentList).bump.start .functionTypeSignature)
      let parser ← functionTypeArguments budget
        (parser.expect .lParen "expected `(` before stored function parameter types")
      let parser := (parser.expect .rParen "expected `)` after stored function parameter types").finish
      return (parser.expect .greater "expected `>` after stored function signature").finish

def functionTypeArguments : Nat → Parser → Option Parser
  | 0, _ => none
  | budget + 1, parser =>
      if parser.atEnd || parser.isAt .rParen then some parser
      else do
        let parser ← parseType budget false parser
        if parser.isAt .comma then functionTypeArguments budget parser.bump else some parser

end

/-- `while eat(ColonColon)` of a qualified name. -/
def qualifiedSegments : Nat → Parser → Option Parser
  | 0, _ => none
  | budget + 1, parser =>
      if parser.isAt .colonColon then do
        let parser := parser.bump.expect .identifier "expected a name after `::`"
        let parser ← if parser.isAt .less then parseGenericArguments budget parser else some parser
        qualifiedSegments budget parser
      else some parser

def parseQualifiedName (budget : Nat) (message : String) (parser : Parser) : Option Parser := do
  let parser := parser.expect .identifier message
  let parser ← if parser.isAt .less then parseGenericArguments budget parser else some parser
  qualifiedSegments budget parser

/-! ## 4. Expressions -/

/-- Lambdas hold statements; how these are parsed is left open. -/
structure Statements where
  parseLambdaExpression : Parser → Option Parser

variable (statements : Statements)

mutual

def parseExpressionBp : Nat → Nat → Parser → Option Parser
  | 0, _, _ => none
  | budget + 1, minimumBindingPower, parser => do
      let checkpoint := parser.checkpoint
      let aggregateAllowed := parser.isAt .identifier
      let parser ← parsePrefixOrPrimary budget parser
      let parser ← parsePostfix budget checkpoint aggregateAllowed parser
      parseInfix budget checkpoint minimumBindingPower parser

/-- The loop of `parse_expression_bp`. -/
def parseInfix : Nat → Nat → Nat → Parser → Option Parser
  | 0, _, _, _ => none
  | budget + 1, checkpoint, minimumBindingPower, parser =>
      match parser.current.bind infixBindingPower with
      | none => some parser
      | some (leftPower, rightPower) =>
          if leftPower < minimumBindingPower then some parser
          else do
            let parser ← parseExpressionBp budget rightPower
              (parser.startNodeAt checkpoint .binaryExpression).bump
            parseInfix budget checkpoint minimumBindingPower parser.finish

def parsePrefixOrPrimary : Nat → Parser → Option Parser
  | 0, _ => none
  | budget + 1, parser =>
      if parser.atAny [.plus, .minus, .bang, .tilde, .plusPlus, .minusMinus] then do
        let parser ← parseExpressionBp budget 11 (parser.start .prefixExpression).bump
        return parser.finish
      else parsePrimary budget parser

def parsePrimary : Nat → Parser → Option Parser
  | 0, _ => none
  | budget + 1, parser =>
      if parser.current.any SyntaxKind.isLiteral then
        some ((parser.start .literalExpression).bump.finish)
      else if parser.atAny [.identifier, .moveKw] then do
        let parser := (parser.start .nameExpression).bump.parseSegments "expected a name after `::`"
        let parser ←
          if parser.isAt .less && parser.genericArgumentsAreFollowedByConstruction then
            parseGenericArguments budget parser
          else some parser
        return parser.finish
      else if parser.isAt .lParen then do
        let parser ← parseExpressionBp budget 0 (parser.start .parenthesizedExpression).bump
        return (parser.expect .rParen "expected `)`").finish
      else if parser.isAt .switchKw then parseSwitchExpression budget parser
      else if parser.isAt .lBracket && parser.looksLikeLambda then statements.parseLambdaExpression parser
      else if parser.isAt .lBracket then do
        let parser := (parser.start .jsonArrayExpression).expect .lBracket "expected `[` before JSON array"
        let parser ← parseExpressions budget .rBracket parser
        return (parser.expect .rBracket "expected `]` after JSON array").finish
      else if parser.isAt .lBrace then do
        let parser := (parser.start .jsonObjectExpression).expect .lBrace "expected `\x7b` before JSON object"
        let parser ← parseJsonMembers budget parser
        return (parser.expect .rBrace "expected `\x7d` after JSON object").finish
      else
        let parser := (parser.start .error).error "expected an expression"
        let parser :=
          if !parser.atEnd && !parser.atAny [.comma, .semicolon, .colon, .rParen, .rBracket, .rBrace] then
            parser.bump
          else parser
        some parser.finish

/-- `while !at_end() && !at(close) { parse_expression(); if !eat(Comma) { break } }` -/
def parseExpressions : Nat → SyntaxKind → Parser → Option Parser
  | 0, _, _ => none
  | budget + 1, close, parser =>
      if parser.atEnd || parser.isAt close then some parser
      else do
        let parser ← parseExpressionBp budget 0 parser
        if parser.isAt .comma then parseExpressions budget close parser.bump else some parser

def parseArgumentList : Nat → Parser → Option Parser
  | 0, _ => none
  | budget + 1, parser => do
      let parser ← parseExpressions budget .rParen (parser.start .argumentList).bump
      return (parser.expect .rParen "expected `)` after arguments").finish

def parseInitializerList : Nat → Parser → Option Parser
  | 0, _ => none
  | budget + 1, parser => do
      let parser ← parseExpressions budget .rBrace (parser.start .initializerList).bump
      return (parser.expect .rBrace "expected `\x7d` after aggregate initializer").finish

def parseJsonMembers : Nat → Parser → Option Parser
  | 0, _ => none
  | budget + 1, parser =>
      if parser.atEnd || parser.isAt .rBrace then some parser
      else do
        let parser := parser.start .jsonMember
        let parser :=
          if parser.atAny [.identifier, .string] then parser.bump
          else
            let parser := parser.error "expected an identifier or string key in JSON object"
            if !parser.atEnd && !parser.isAt .rBrace then parser.bump else parser
        let parser ← parseExpressionBp budget 0 (parser.expect .colon "expected `:` after JSON object key")
        let parser := parser.finish
        if parser.isAt .comma then parseJsonMembers budget parser.bump else some parser

def parseSwitchExpression : Nat → Parser → Option Parser
  | 0, _ => none
  | budget + 1, parser => do
      let parser := (parser.start .switchExpression).bump.expect .lParen "expected `(` after `switch`"
      let parser ← parseExpressionBp budget 0 parser
      let parser := parser.expect .rParen "expected `)` after switch value"
      let parser ← parseSwitchArms budget (parser.expect .lBrace "expected `\x7b` after switch expression")
      return (parser.expect .rBrace "expected `\x7d` after switch arms").finish

def parseSwitchArms : Nat → Parser → Option Parser
  | 0, _ => none
  | budget + 1, parser =>
      if parser.atEnd || parser.isAt .rBrace then some parser
      else do
        let parser := (parser.start .switchArm).start .switchPattern
        let parser ←
          if parser.isAt .elseKw then some parser.bump
          else if parser.switchPatternAlternativeStartsHere then do
            let parser ← parseSwitchPatternAlternative budget parser
            parseAlternatives budget parser
          else
            let parser := parser.error "expected a literal, enum member, or `else` switch pattern"
            some (if !parser.atEnd && !parser.atAny [.fatArrow, .rBrace] then parser.bump else parser)
        let parser := parser.finish.expect .fatArrow "expected `=>` after switch pattern"
        let parser ← parseExpressionBp budget 0 parser
        let parser := parser.finish
        if parser.isAt .comma then parseSwitchArms budget parser.bump else some parser

/-- `while eat(Pipe)` of a switch pattern. -/
def parseAlternatives : Nat → Parser → Option Parser
  | 0, _ => none
  | budget + 1, parser =>
      if parser.isAt .pipe then
        let parser := parser.bump
        if parser.switchPatternAlternativeStartsHere then do
          let parser ← parseSwitchPatternAlternative budget parser
          parseAlternatives budget parser
        else
          some (parser.error "expected a literal or enum member after `|` in switch pattern")
      else some parser

def parseSwitchPatternAlternative : Nat → Parser → Option Parser
  | 0, _ => none
  | budget + 1, parser =>
      if parser.current.any SyntaxKind.isLiteral then
        some ((parser.start .literalExpression).bump.finish)
      else do
        let parser ← parseQualifiedName budget "expected an enum member name" (parser.start .nameExpression)
        return parser.finish

def parsePostfix : Nat → Nat → Bool → Parser → Option Parser
  | 0, _, _, _ => none
  | budget + 1, checkpoint, aggregateAllowed, parser =>
      if parser.isAt .bang && parser.nth 1 = some .lParen then do
        let parser ← parseArgumentList budget (parser.startNodeAt checkpoint .macroCallExpression).bump
        parsePostfix budget checkpoint false parser.finish
      else if parser.isAt .lParen then do
        let parser ← parseArgumentList budget (parser.startNodeAt checkpoint .callExpression)
        parsePostfix budget checkpoint false parser.finish
      else if parser.isAt .lBrace && aggregateAllowed then do
        let parser ← parseInitializerList budget (parser.startNodeAt checkpoint .aggregateExpression)
        parsePostfix budget checkpoint false parser.finish
      else if parser.isAt .dot then
        if parser.nth 1 = some .awaitKw then
          parsePostfix budget checkpoint false
            (parser.startNodeAt checkpoint .awaitExpression).bump.bump.finish
        else
          let parser := (parser.startNodeAt checkpoint .fieldExpression).bump
          let parser :=
            if parser.isAt .integer then parser.bump
            else parser.expect .identifier "expected a member name after `.`"
          parsePostfix budget checkpoint false
            (parser.parseSegments "expected a member name after `::`").finish
      else if parser.isAt .lBracket then do
        let parser ← parseExpressionBp budget 0 (parser.startNodeAt checkpoint .indexExpression).bump
        parsePostfix budget checkpoint false (parser.expect .rBracket "expected `]` after index").finish
      else if parser.atAny [.plusPlus, .minusMinus] then
        parsePostfix budget checkpoint false (parser.startNodeAt checkpoint .postfixExpression).bump.finish
      else some parser

end

def parseExpression (budget : Nat) (parser : Parser) : Option Parser :=
  parseExpressionBp statements budget 0 parser

end Parser

end Stainless.Syntax
