import Stainless.Syntax.SourceTree

/-!
# The parser of source files

Items, statements, expressions and types.  A routine that calls itself through others takes what it
calls as an argument; the budget says how deep such calls may go and how often a loop may run.
-/

namespace Stainless.Syntax.Source

open Reasoning

/-! ## 1. Looking ahead -/

namespace Parser

/-- The kinds behind the bracket that closes the one at hand. -/
def skipBalancedAngles : List SyntaxKind → Nat → Option (List SyntaxKind)
  | [], _ => none
  | .less :: kinds, depth => skipBalancedAngles kinds (depth + 1)
  | .greater :: kinds, depth => if depth - 1 = 0 then some kinds else skipBalancedAngles kinds (depth - 1)
  | _ :: kinds, depth => skipBalancedAngles kinds depth

def genericArgumentsAreFollowedByConstruction (parser : Parser) : Bool :=
  match skipBalancedAngles parser.ahead 0 with
  | some (.lParen :: _) | some (.lBrace :: _) => true
  | _ => false

def lambdaAfter : List SyntaxKind → Nat → Bool
  | [], _ => false
  | .lBracket :: kinds, depth => lambdaAfter kinds (depth + 1)
  | .rBracket :: kinds, depth =>
      if depth - 1 = 0 then kinds.head? = some .lParen else lambdaAfter kinds (depth - 1)
  | _ :: kinds, depth => lambdaAfter kinds depth

def looksLikeLambda (parser : Parser) : Bool := parser.isAt .lBracket && lambdaAfter parser.ahead 0

def switchPatternAlternativeStartsHere (parser : Parser) : Bool :=
  parser.current.any SyntaxKind.isLiteral || parser.isAt .identifier && parser.nth 1 = some .colonColon

/-- `while nth(offset) == ColonColon && nth(offset + 1) == Identifier { offset += 2 }` -/
def skipSegments : List SyntaxKind → List SyntaxKind
  | .colonColon :: .identifier :: kinds => skipSegments kinds
  | kinds => kinds

/-- The name of a local variable and what may stand behind it. -/
def declares : List SyntaxKind → Bool
  | .identifier :: .eq :: _ | .identifier :: .semicolon :: _ | .identifier :: .colon :: _ => true
  | _ => false

def skipKind (kind : SyntaxKind) : List SyntaxKind → List SyntaxKind
  | first :: kinds => if first = kind then kinds else first :: kinds
  | [] => []

def looksLikeDeclaration (parser : Parser) : Bool :=
  match skipKind .constKw parser.ahead with
  | .autoKw :: kinds => declares (skipKind .amp kinds)
  | .identifier :: kinds =>
      let kinds := skipSegments kinds
      if kinds.head? = some .less then
        match skipBalancedAngles kinds 0 with
        | none => false
        | some kinds => declares (skipKind .amp kinds)
      else declares (skipKind .amp kinds)
  | _ => false

def rangeAfter : List SyntaxKind → Nat → Bool
  | [], _ => false
  | kind :: kinds, nesting =>
      match kind with
      | .lParen | .lBracket | .lBrace => rangeAfter kinds (nesting + 1)
      | .rParen => if nesting = 0 then false else rangeAfter kinds (nesting - 1)
      | .semicolon => if nesting = 0 then false else rangeAfter kinds nesting
      | .rBracket | .rBrace => rangeAfter kinds (nesting - 1)
      | .colon => if nesting = 0 then true else rangeAfter kinds nesting
      | _ => rangeAfter kinds nesting

def forClauseIsRange (parser : Parser) : Bool := rangeAfter parser.ahead 0

def memberFunctionAfter : List SyntaxKind → Nat → Bool
  | [], _ => false
  | kind :: kinds, angleDepth =>
      match kind with
      | .less => memberFunctionAfter kinds (angleDepth + 1)
      | .greater => memberFunctionAfter kinds (angleDepth - 1)
      | .lParen => if angleDepth = 0 then true else memberFunctionAfter kinds angleDepth
      | .semicolon | .rBrace => if angleDepth = 0 then false else memberFunctionAfter kinds angleDepth
      | _ => memberFunctionAfter kinds angleDepth

def structMemberIsFunction (parser : Parser) : Bool := memberFunctionAfter parser.ahead 0

/-- Whether a brace or a semicolon comes first outside of parentheses. -/
def bodyAfter : List SyntaxKind → Nat → Bool
  | [], _ => true
  | kind :: kinds, parenDepth =>
      match kind with
      | .lParen => bodyAfter kinds (parenDepth + 1)
      | .rParen => bodyAfter kinds (parenDepth - 1)
      | .lBrace => if parenDepth = 0 then true else bodyAfter kinds parenDepth
      | .semicolon => if parenDepth = 0 then false else bodyAfter kinds parenDepth
      | _ => bodyAfter kinds parenDepth

def constructorNodeKind (parser : Parser) : SyntaxKind :=
  if bodyAfter parser.ahead 0 then .constructorDefinition else .constructorDeclaration

def functionNodeKind (parser : Parser) : SyntaxKind :=
  if bodyAfter parser.ahead 0 then .functionDefinition else .functionDeclaration

/-- The kinds after a name; each round takes its brackets, if it has some, and one more segment. -/
def constructorAfter : Nat → List SyntaxKind → Bool
  | 0, _ => false
  | rounds + 1, kinds =>
      let afterAngles := if kinds.head? = some .less then skipBalancedAngles kinds 0 else some kinds
      match afterAngles with
      | none => false
      | some (.colonColon :: .identifier :: kinds) => constructorAfter rounds kinds
      | some kinds => kinds.head? = some .lParen

def looksLikeConstructor (parser : Parser) : Bool :=
  match parser.ahead with
  | .identifier :: kinds => constructorAfter parser.ahead.length kinds
  | _ => false

def staticConstant (parser : Parser) : Bool :=
  parser.isAt .identifier && parser.currentText = some "static" && parser.nth 1 = some .constKw

end Parser

def infixBindingPower : Option SyntaxKind → Option (Nat × Nat)
  | some .eq | some .plusEq | some .minusEq | some .starEq | some .slashEq | some .percentEq => some (1, 1)
  | some .orOr => some (2, 3)
  | some .andAnd => some (3, 4)
  | some .pipe => some (4, 5)
  | some .caret => some (5, 6)
  | some .amp => some (6, 7)
  | some .eqEq | some .notEq => some (7, 8)
  | some .less | some .lessEq | some .greater | some .greaterEq => some (8, 9)
  | some .plus | some .minus => some (9, 10)
  | some .star | some .slash | some .percent => some (10, 11)
  | _ => none

variable [Rowan]

/-! ## 2. Recovery -/

/-- `while !at_end() && !stop { bump() }` -/
def bumpUntil (kinds : List SyntaxKind) (budget : Nat) : Parse Unit :=
  repeatUntil .budget (fun parser ↦ parser.atEnd || parser.atAny kinds) bump budget

def recoverStatement (budget : Nat) (message : String) : Parse Unit := do
  start .error
  error message
  bumpUntil [.semicolon, .rBrace] budget
  eat .semicolon
  finish

/-- The loop of `recover_item`. -/
def skipItem : Nat → Nat → Parse Unit
  | 0, _ => throw .budget
  | budget + 1, braceDepth => do
      let parser ← get
      match parser.current with
      | none => pure ()
      | some .lBrace => do bump; skipItem budget (braceDepth + 1)
      | some .rBrace => if braceDepth = 0 then pure () else do bump; skipItem budget (braceDepth - 1)
      | some .semicolon => if braceDepth = 0 then bump else do bump; skipItem budget braceDepth
      | some _ => do bump; skipItem budget braceDepth

def recoverItem (budget : Nat) (message : String) : Parse Unit := do
  start .error
  error message
  skipItem budget 0
  finish

/-! ## 3. Types and names -/

/-- `parse_generic_arguments`, over `parse_type(false)`. -/
def parseGenericArguments (parseType : Parse Unit) (budget : Nat) : Parse Unit := do
  start .genericArgumentList
  bump
  commaSeparated .greater
    (whether (·.isAt .integer) (do start .typeReference; bump; finish) parseType) budget
  expect .greater "expected `>` after generic arguments"
  finish

def parseFunctionTypeArguments (parseType : Parse Unit) (budget : Nat) : Parse Unit := do
  start .genericArgumentList
  bump
  start .functionTypeSignature
  parseType
  expect .lParen "expected `(` before stored function parameter types"
  commaSeparated .rParen parseType budget
  expect .rParen "expected `)` after stored function parameter types"
  finish
  expect .greater "expected `>` after stored function signature"
  finish

/-- What `parse_type` does with a name. -/
def parseNamedType (parseType : Parse Unit) (budget : Nat) : Parse Unit := do
  let parser ← get
  let isFunctionType := parser.currentText = some "function" || parser.currentText = some "function_mut"
  bump
  segments (expect .identifier "expected a type path segment") budget
  if isFunctionType then
    whether (·.isAt .less) (parseFunctionTypeArguments parseType budget)
      (error "expected `<return_type(parameter_types...)>` after stored function type")
  else provided (·.isAt .less) (parseGenericArguments parseType budget)

def parseType : Nat → Bool → Parse Unit
  | 0, _ => throw .budget
  | budget + 1, allowAuto => do
      start .typeReference
      eat .constKw
      whether (fun parser ↦ allowAuto && parser.isAt .autoKw)
        (do bump; eat .amp; finish)
        (do
          whether (·.isAt .identifier)
            (parseNamedType (parseType budget false) budget)
            (do
              error "expected a type"
              provided (!·.atAny [.identifier, .comma, .rParen, .semicolon]) bump)
          eat .amp
          finish)

def parseQualifiedName (budget : Nat) (message : String) : Parse Unit := do
  expect .identifier message
  provided (·.isAt .less) (parseGenericArguments (parseType budget false) budget)
  segments (do
    expect .identifier "expected a name after `::`"
    provided (·.isAt .less) (parseGenericArguments (parseType budget false) budget)) budget

/-- The loop of `parse_generic_parameters`. -/
def genericParameters : Nat → Bool → Parse Unit
  | 0, _ => throw .budget
  | budget + 1, sawConstParameter =>
      whether (fun parser ↦ parser.atEnd || parser.isAt .greater) (pure ()) do
        start .genericParameter
        let parser ← get
        let constParameter := parser.nth 1 = some .identifier
        provided (fun parser ↦ constParameter && parser.currentText ≠ some "usize")
          (error "a const generic parameter must have type `usize`")
        provided (fun _ ↦ !constParameter && sawConstParameter)
          (error "generic type parameters must precede const parameters")
        expect .identifier "expected a generic parameter"
        let parser ← get
        let sawConstParameter := sawConstParameter || parser.isAt .identifier
        eat .identifier
        finish
        provided (·.isAt .comma) (do bump; genericParameters budget sawConstParameter)

def parseGenericParameters (budget : Nat) : Parse Unit := do
  start .genericParameterList
  bump
  provided (·.isAt .greater) (error "a generic parameter list cannot be empty")
  genericParameters budget false
  expect .greater "expected `>` after generic parameters"
  finish

def parseParameterList (budget : Nat) : Parse Unit := do
  start .parameterList
  expect .lParen "expected `(` before parameters"
  commaSeparated .rParen (do
    start .parameter
    parseType budget false
    expect .identifier "expected a parameter name"
    finish) budget
  expect .rParen "expected `)` after parameters"
  finish

def parseThrowsClause (budget : Nat) : Parse Unit := do
  start .throwsClause
  bump
  commaChained (parseType budget false) budget
  finish

/-! ## 4. Statements and expressions -/

/-- What the routines below call of one another: `parse_expression_bp` and `parse_statement`, which may
go as deep as the budget says. -/
structure Nested where
  budget : Nat
  parseExpressionBp : Nat → Parse Unit
  parseStatement : Parse Unit

namespace Nested

variable (nested : Nested)

def parseExpression : Parse Unit := nested.parseExpressionBp 0

def parseLocalDeclaration : Parse Unit := do
  start .localDeclaration
  parseType nested.budget true
  expect .identifier "expected a local variable name"
  provided (·.isAt .eq) (do bump; nested.parseExpression)
  expect .semicolon "expected `;` after local declaration"
  finish

/-- A pass of the loop of `parse_block`. -/
def blockPass : Parse Unit := do
  let previous ← get
  nested.parseStatement
  provided (·.position = previous.position)
    (recoverStatement nested.budget "parser could not make progress in block")

def parseBlock : Parse Unit := do
  start .block
  expect .lBrace "expected `\x7b`"
  repeatUntil .budget (fun parser ↦ parser.atEnd || parser.isAt .rBrace) nested.blockPass nested.budget
  expect .rBrace "expected `\x7d` to close block"
  finish

/-- `return` and `throw`. -/
def parseOptionalValue (kind : SyntaxKind) (message : String) : Parse Unit := do
  start kind
  bump
  provided (!·.isAt .semicolon) nested.parseExpression
  expect .semicolon message
  finish

def parseReturnStatement : Parse Unit := nested.parseOptionalValue .returnStatement "expected `;` after return"

def parseThrowStatement : Parse Unit := nested.parseOptionalValue .throwStatement "expected `;` after throw"

def parseCatchClause : Parse Unit := do
  start .catchClause
  bump
  expect .lParen "expected `(` after `catch`"
  whether (·.isAt .ellipsis) bump
    (do
      parseType nested.budget false
      expect .identifier "expected a catch binding name")
  expect .rParen "expected `)` after catch binding"
  nested.parseBlock
  finish

def parseTryStatement : Parse Unit := do
  start .tryStatement
  bump
  nested.parseBlock
  provided (!·.isAt .catchKw) (error "expected at least one `catch` after `try`")
  repeatUntil .budget (!·.isAt .catchKw) nested.parseCatchClause nested.budget
  finish

def parseIfStatement : Parse Unit := do
  start .ifStatement
  bump
  expect .lParen "expected `(` after `if`"
  nested.parseExpression
  expect .rParen "expected `)` after condition"
  nested.parseStatement
  provided (·.isAt .elseKw)
    (do
      start .elseClause
      bump
      nested.parseStatement
      finish)
  finish

def parseWhileStatement : Parse Unit := do
  start .whileStatement
  bump
  expect .lParen "expected `(` after `while`"
  nested.parseExpression
  expect .rParen "expected `)` after while condition"
  nested.parseStatement
  finish

def parseRangeForClause : Parse Unit := do
  start .rangeForClause
  parseType nested.budget true
  whether (·.isAt .lBracket)
    (do
      bump
      expect .identifier "expected a map key binding name"
      expect .comma "expected `,` between map key and value bindings"
      expect .identifier "expected a map value binding name"
      expect .rBracket "expected `]` after map range bindings")
    (expect .identifier "expected a range binding name")
  expect .colon "expected `:` between range binding and expression"
  nested.parseExpression
  finish

def parseClassicForClause : Parse Unit := do
  start .classicForClause
  whether (·.isAt .semicolon) bump
    (whether (·.looksLikeDeclaration) nested.parseLocalDeclaration
      (do
        nested.parseExpression
        expect .semicolon "expected `;` after for initializer"))
  provided (!·.isAt .semicolon) nested.parseExpression
  expect .semicolon "expected `;` after for condition"
  provided (!·.isAt .rParen) nested.parseExpression
  finish

def parseForStatement : Parse Unit := do
  start .forStatement
  bump
  expect .lParen "expected `(` after `for`"
  whether (·.forClauseIsRange) nested.parseRangeForClause nested.parseClassicForClause
  expect .rParen "expected `)` after for clause"
  nested.parseStatement
  finish

def parseKeywordStatement (kind : SyntaxKind) : Parse Unit := do
  start kind
  bump
  expect .semicolon "expected `;`"
  finish

def parseExpressionStatement : Parse Unit := do
  start .expressionStatement
  nested.parseExpression
  expect .semicolon "expected `;` after expression"
  finish

/-- `parse_statement`, one call. -/
def statement : Parse Unit := do
  let parser ← get
  match parser.current with
  | some .lBrace => nested.parseBlock
  | some .returnKw => nested.parseReturnStatement
  | some .throwKw => nested.parseThrowStatement
  | some .tryKw => nested.parseTryStatement
  | some .ifKw => nested.parseIfStatement
  | some .whileKw => nested.parseWhileStatement
  | some .forKw => nested.parseForStatement
  | some .breakKw => parseKeywordStatement .breakStatement
  | some .continueKw => parseKeywordStatement .continueStatement
  | some .semicolon => do start .emptyStatement; bump; finish
  | some _ => if parser.looksLikeDeclaration then nested.parseLocalDeclaration else nested.parseExpressionStatement
  | none => pure ()

def parseArgumentList : Parse Unit := do
  start .argumentList
  bump
  commaSeparated .rParen nested.parseExpression nested.budget
  expect .rParen "expected `)` after arguments"
  finish

def parseInitializerList : Parse Unit := do
  start .initializerList
  bump
  commaSeparated .rBrace nested.parseExpression nested.budget
  expect .rBrace "expected `\x7d` after aggregate initializer"
  finish

def parseSwitchPatternAlternative : Parse Unit :=
  whether (fun parser ↦ parser.current.any SyntaxKind.isLiteral)
    (do start .literalExpression; bump; finish)
    (do
      start .nameExpression
      parseQualifiedName nested.budget "expected an enum member name"
      finish)

/-- `while eat(Pipe)` of a switch pattern. -/
def patternAlternatives : Nat → Parse Unit
  | 0 => throw .budget
  | budget + 1 =>
      provided (·.isAt .pipe) do
        bump
        whether (·.switchPatternAlternativeStartsHere)
          (do nested.parseSwitchPatternAlternative; patternAlternatives budget)
          (error "expected a literal or enum member after `|` in switch pattern")

/-- A pass of the loop of `parse_switch_expression`. -/
def parseSwitchArm : Parse Unit := do
  start .switchArm
  start .switchPattern
  whether (·.isAt .elseKw) bump
    (whether (·.switchPatternAlternativeStartsHere)
      (do nested.parseSwitchPatternAlternative; nested.patternAlternatives nested.budget)
      (do
        error "expected a literal, enum member, or `else` switch pattern"
        provided (fun parser ↦ !parser.atEnd && !parser.atAny [.fatArrow, .rBrace]) bump))
  finish
  expect .fatArrow "expected `=>` after switch pattern"
  nested.parseExpression
  finish

def parseSwitchExpression : Parse Unit := do
  start .switchExpression
  bump
  expect .lParen "expected `(` after `switch`"
  nested.parseExpression
  expect .rParen "expected `)` after switch value"
  expect .lBrace "expected `\x7b` after switch expression"
  commaSeparated .rBrace nested.parseSwitchArm nested.budget
  expect .rBrace "expected `\x7d` after switch arms"
  finish

def parseLambdaCapture : Parse Unit := do
  start .lambdaCapture
  let parser ← get
  let borrowed := parser.isAt .amp
  eat .amp
  expect .identifier "expected a captured binding name"
  provided (·.isAt .eq)
    (do
      bump
      provided (fun _ ↦ borrowed) (error "a borrowed lambda capture cannot have an initializer")
      nested.parseExpression)
  finish

def parseCaptureList : Parse Unit := do
  start .captureList
  expect .lBracket "expected `[` before lambda captures"
  commaSeparated .rBracket nested.parseLambdaCapture nested.budget
  expect .rBracket "expected `]` after lambda captures"
  finish

def parseLambdaExpression : Parse Unit := do
  start .lambdaExpression
  nested.parseCaptureList
  parseParameterList nested.budget
  eat .mutableKw
  eat .asyncKw
  nested.parseBlock
  finish

def parseJsonArrayExpression : Parse Unit := do
  start .jsonArrayExpression
  expect .lBracket "expected `[` before JSON array"
  commaSeparated .rBracket nested.parseExpression nested.budget
  expect .rBracket "expected `]` after JSON array"
  finish

def parseJsonMember : Parse Unit := do
  start .jsonMember
  whether (·.atAny [.identifier, .string]) bump
    (do
      error "expected an identifier or string key in JSON object"
      provided (fun parser ↦ !parser.atEnd && !parser.isAt .rBrace) bump)
  expect .colon "expected `:` after JSON object key"
  nested.parseExpression
  finish

def parseJsonObjectExpression : Parse Unit := do
  start .jsonObjectExpression
  expect .lBrace "expected `\x7b` before JSON object"
  commaSeparated .rBrace nested.parseJsonMember nested.budget
  expect .rBrace "expected `\x7d` after JSON object"
  finish

def parsePrimary : Parse Unit := do
  let parser ← get
  if parser.current.any SyntaxKind.isLiteral then do
    start .literalExpression
    bump
    finish
  else if parser.atAny [.identifier, .moveKw] then do
    start .nameExpression
    bump
    segments (expect .identifier "expected a name after `::`") nested.budget
    provided (fun parser ↦ parser.isAt .less && parser.genericArgumentsAreFollowedByConstruction)
      (parseGenericArguments (parseType nested.budget false) nested.budget)
    finish
  else if parser.isAt .lParen then do
    start .parenthesizedExpression
    bump
    nested.parseExpression
    expect .rParen "expected `)`"
    finish
  else if parser.isAt .switchKw then nested.parseSwitchExpression
  else if parser.isAt .lBracket && parser.looksLikeLambda then nested.parseLambdaExpression
  else if parser.isAt .lBracket then nested.parseJsonArrayExpression
  else if parser.isAt .lBrace then nested.parseJsonObjectExpression
  else do
    start .error
    error "expected an expression"
    provided (fun parser ↦ !parser.atEnd &&
      !parser.atAny [.comma, .semicolon, .colon, .rParen, .rBracket, .rBrace]) bump
    finish

def parsePrefixOrPrimary : Parse Unit :=
  whether (·.atAny [.plus, .minus, .bang, .tilde, .plusPlus, .minusMinus])
    (do
      start .prefixExpression
      bump
      nested.parseExpressionBp 11
      finish)
    nested.parsePrimary

/-- The name after a dot. -/
def parseMember : Parse Unit := do
  bump
  whether (·.isAt .integer) bump (expect .identifier "expected a member name after `.`")
  segments (expect .identifier "expected a member name after `::`") nested.budget

def parsePostfix (checkpoint : Nat) : Nat → Bool → Parse Unit
  | 0, _ => throw .budget
  | budget + 1, aggregateAllowed => do
      let parser ← get
      if parser.isAt .bang && parser.nth 1 = some .lParen then do
        startNodeAt checkpoint .macroCallExpression
        bump
        nested.parseArgumentList
        finish
        parsePostfix checkpoint budget false
      else if parser.isAt .lParen then do
        startNodeAt checkpoint .callExpression
        nested.parseArgumentList
        finish
        parsePostfix checkpoint budget false
      else if parser.isAt .lBrace && aggregateAllowed then do
        startNodeAt checkpoint .aggregateExpression
        nested.parseInitializerList
        finish
        parsePostfix checkpoint budget false
      else if parser.isAt .dot then
        if parser.nth 1 = some .awaitKw then do
          startNodeAt checkpoint .awaitExpression
          bump
          bump
          finish
          parsePostfix checkpoint budget false
        else do
          startNodeAt checkpoint .fieldExpression
          nested.parseMember
          finish
          parsePostfix checkpoint budget false
      else if parser.isAt .lBracket then do
        startNodeAt checkpoint .indexExpression
        bump
        nested.parseExpression
        expect .rBracket "expected `]` after index"
        finish
        parsePostfix checkpoint budget false
      else if parser.atAny [.plusPlus, .minusMinus] then do
        startNodeAt checkpoint .postfixExpression
        bump
        finish
        parsePostfix checkpoint budget false
      else pure ()

/-- The loop of `parse_expression_bp`. -/
def parseInfix (checkpoint minimumBindingPower : Nat) : Nat → Parse Unit
  | 0 => throw .budget
  | budget + 1 => do
      let parser ← get
      match infixBindingPower parser.current with
      | none => pure ()
      | some (leftPower, rightPower) =>
          if leftPower < minimumBindingPower then pure ()
          else do
            startNodeAt checkpoint .binaryExpression
            bump
            nested.parseExpressionBp rightPower
            finish
            parseInfix checkpoint minimumBindingPower budget

/-- `parse_expression_bp`, one call. -/
def expressionBp (minimumBindingPower : Nat) : Parse Unit := do
  eatTrivia
  let checkpoint ← checkpoint
  let parser ← get
  nested.parsePrefixOrPrimary
  nested.parsePostfix checkpoint nested.budget (parser.isAt .identifier)
  nested.parseInfix checkpoint minimumBindingPower nested.budget

end Nested

def nested : Nat → Nested
  | 0 => { budget := 0, parseExpressionBp := fun _ ↦ throw .budget, parseStatement := throw .budget }
  | depth + 1 =>
      { budget := depth + 1
        parseExpressionBp := (nested depth).expressionBp
        parseStatement := (nested depth).statement }

/-! ## 5. Items -/

/-- The loop of `parse_use_declaration`: whether it came to the semicolon. -/
def useDeclarationPath : Nat → Nat → Parse Bool
  | 0, _ => throw .budget
  | budget + 1, braceDepth => do
      let parser ← get
      match parser.current with
      | none => pure false
      | some .lBrace => do bump; useDeclarationPath budget (braceDepth + 1)
      | some .rBrace => do bump; useDeclarationPath budget (braceDepth - 1)
      | some .semicolon =>
          if braceDepth = 0 then do bump; pure true
          else do bump; useDeclarationPath budget braceDepth
      | some _ => do bump; useDeclarationPath budget braceDepth

def parseUseDeclaration (budget : Nat) : Parse Unit := do
  start .useDeclaration
  bump
  let closed ← useDeclarationPath budget 0
  if closed then finish
  else do
    error "expected `;` after use declaration"
    finish

def parseEnumVariant : Parse Unit := do
  start .enumVariant
  expect .identifier "expected an enum member name"
  expect .eq "expected `=` after enum member name"
  expect .integer "expected an integer enum member value"
  finish

def parseEnumDefinition (budget : Nat) : Parse Unit := do
  start .enumDefinition
  bump
  expect .identifier "expected an enum name"
  expect .colon "expected `:` and an enum representation type"
  parseType budget false
  expect .lBrace "expected `\x7b` after enum representation type"
  commaSeparated .rBrace parseEnumVariant budget
  expect .rBrace "expected `\x7d` to close enum"
  expect .semicolon "expected `;` after enum definition"
  finish

def parseFieldDeclaration (budget : Nat) : Parse Unit := do
  start .fieldDeclaration
  let parser ← get
  let isStatic := parser.staticConstant
  provided (fun _ ↦ isStatic)
    (do
      bump
      provided (!·.isAt .constKw) (error "expected `const` after `static`"))
  parseType budget false
  expect .identifier "expected a field name"
  whether (·.isAt .eq) (do bump; (nested budget).parseExpression)
    (provided (fun _ ↦ isStatic) (error "expected an initializer for static constant"))
  expect .semicolon "expected `;` after field declaration"
  finish

def parseConstructorInitializerList (budget : Nat) : Parse Unit := do
  start .constructorInitializerList
  bump
  commaChained (do
    start .constructorInitializer
    parseQualifiedName budget "expected a base or field initializer name"
    (nested budget).parseArgumentList
    finish) budget
  finish

/-- The word behind `=`. -/
def parseDefaultOrDelete : Parse Unit :=
  whether (·.isAt .identifier)
    (do
      provided (fun parser ↦ parser.currentText ≠ some "default" && parser.currentText ≠ some "delete")
        (error "expected `default` or `delete` after `=`")
      bump)
    (error "expected `default` or `delete` after `=`")

def parseConstructor (budget : Nat) : Parse Unit := do
  let parser ← get
  start parser.constructorNodeKind
  parseQualifiedName budget "expected a constructor name"
  parseParameterList budget
  provided (·.isAt .throwsKw) (parseThrowsClause budget)
  provided (·.isAt .colon) (parseConstructorInitializerList budget)
  whether (·.isAt .lBrace) (nested budget).parseBlock
    (whether (·.isAt .eq)
      (do
        bump
        parseDefaultOrDelete
        expect .semicolon "expected `;` after defaulted or deleted constructor")
      (expect .semicolon "expected a constructor body, `= default;`, `= delete;`, or `;`"))
  finish

def parseFunction (budget : Nat) : Parse Unit := do
  let parser ← get
  start parser.functionNodeKind
  provided (fun parser ↦ parser.isAt .identifier && parser.currentText = some "static") bump
  eat .asyncKw
  parseType budget false
  parseQualifiedName budget "expected a function name"
  parseParameterList budget
  eat .constKw
  provided (·.isAt .throwsKw) (parseThrowsClause budget)
  whether (·.isAt .lBrace) (nested budget).parseBlock
    (expect .semicolon "expected a function body or `;` after declaration")
  finish

def parseBase (budget : Nat) : Parse Unit := do
  whether (·.isAt .privateKw)
    (do bump; error "Stainless class and data inheritance is always public")
    (eat .publicKw)
  parseType budget false

/-- What stands in a type: an access label, a constant, a function, a constructor or a field. -/
def parseTypeMember (budget : Nat) (interface : Bool) : Parse Unit := do
  let parser ← get
  if parser.atAny [.publicKw, .privateKw] then do
    start .accessSpecifier
    bump
    expect .colon "expected `:` after access specifier"
    finish
  else if parser.atAny [.identifier, .constKw, .asyncKw] then
    if parser.staticConstant then parseFieldDeclaration budget
    else if interface then parseFunction budget
    else if parser.looksLikeConstructor then parseConstructor budget
    else if parser.structMemberIsFunction then parseFunction budget
    else parseFieldDeclaration budget
  else
    recoverStatement budget
      (if interface then "expected an interface function declaration"
        else "expected a data field or member function declaration")

/-- A pass of the loop of `parse_type_definition`. -/
def typeMemberPass (budget : Nat) (interface : Bool) : Parse Unit := do
  let previous ← get
  parseTypeMember budget interface
  provided (·.position = previous.position)
    (recoverStatement budget "parser could not make progress in type declaration")

def parseTypeDefinition (budget : Nat) (nodeKind : SyntaxKind) (declarationKind : String) (interface : Bool) :
    Parse Unit := do
  start nodeKind
  bump
  provided (fun parser ↦ parser.isAt .identifier && parser.currentText = some "sealed") bump
  expect .identifier ("expected a " ++ declarationKind ++ " name")
  provided (·.isAt .less) (parseGenericParameters budget)
  provided (·.isAt .colon) (do bump; commaChained (parseBase budget) budget)
  expect .lBrace ("expected `\x7b` after " ++ declarationKind ++ " name")
  repeatUntil .budget (fun parser ↦ parser.atEnd || parser.isAt .rBrace) (typeMemberPass budget interface) budget
  expect .rBrace ("expected `\x7d` to close " ++ declarationKind)
  expect .semicolon ("expected `;` after " ++ declarationKind ++ " definition")
  finish

def parseStructDefinition (budget : Nat) : Parse Unit := parseTypeDefinition budget .structDefinition "struct" false

def parseClassDefinition (budget : Nat) : Parse Unit := parseTypeDefinition budget .classDefinition "class" false

def parseInterfaceDefinition (budget : Nat) : Parse Unit :=
  parseTypeDefinition budget .interfaceDefinition "interface" true

/-- `parse_namespace`, over `parse_item_list(Some(RBrace))`. -/
def parseNamespace (parseItems : Parse Unit) : Parse Unit := do
  start .namespaceDefinition
  bump
  expect .identifier "expected a namespace name"
  expect .lBrace "expected `\x7b` after namespace name"
  parseItems
  expect .rBrace "expected `\x7d` to close namespace"
  finish

def parseItem (budget : Nat) (parseItems : Parse Unit) : Parse Unit := do
  let parser ← get
  match parser.current with
  | some .namespaceKw => parseNamespace parseItems
  | some .useKw => parseUseDeclaration budget
  | some .structKw => parseStructDefinition budget
  | some .classKw => parseClassDefinition budget
  | some .interfaceKw => parseInterfaceDefinition budget
  | some .enumKw => parseEnumDefinition budget
  | some .identifier => if parser.looksLikeConstructor then parseConstructor budget else parseFunction budget
  | some .constKw | some .asyncKw => parseFunction budget
  | some _ => recoverItem budget "expected a namespace, use declaration, type, or function"
  | none => pure ()

/-- A pass of the loop of `parse_item_list`. -/
def itemPass (budget : Nat) (parseItems : Parse Unit) : Parse Unit := do
  let previous ← get
  parseItem budget parseItems
  provided (·.position = previous.position) (recoverItem budget "parser could not make progress")

/-- `parse_item_list(Some(RBrace))`, for so many namespaces in one another. -/
def parseItemList (budget : Nat) : Nat → Parse Unit
  | 0 => throw .budget
  | depth + 1 =>
      repeatUntil .budget (fun parser ↦ parser.atEnd || parser.isAt .rBrace)
        (itemPass budget (parseItemList budget depth)) budget

/-! ## 6. Files -/

/-- What the routines may need for so many tokens. -/
def budgetFor (tokens : Nat) : Nat := 2 * tokens + 3

/-- A pass of the loop of `parse_item_list(None)`. -/
def topLevelPass : Parse Unit := do
  let parser ← get
  let budget := budgetFor parser.rest.length
  itemPass budget (parseItemList budget budget)

def parseSourceFile (passes : Nat) : Parse Unit := do
  startNode .sourceFile
  repeatUntil .budget (·.atEnd) topLevelPass passes
  eatRemaining
  finish

structure Parsed where
  green : Tree
  errors : List ParseError

/-- `parse`, after the lexer, with at most so many passes over items at the top. -/
def parse (passes : Nat) (tokens : List Token) (lexErrors : List ParseError) : Except Stop Parsed :=
  match parseSourceFile passes { rest := tokens, errors := lexErrors } with
  | .error stop _ => .error stop
  | .ok _ parser =>
      match parser.children with
      | [.node kind children] =>
          .ok {
            green := .node kind children
            errors := parser.errors.mergeSort fun error error' ↦ error.range.start ≤ error'.range.start }
      | _ => .error .panic

end Stainless.Syntax.Source
