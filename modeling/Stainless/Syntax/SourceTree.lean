import Mathlib.Logic.Function.Iterate
import Stainless.Reasoning.Returning

/-!
# Source files: tokens, trees and the state of the parser

The parser walks over all tokens of a file, blanks and comments too, and hands them to `rowan`'s builder,
which stops the program when nodes are not opened and closed in order.
-/

namespace Stainless.Syntax.Source

open Reasoning

/-! ## 1. Tokens and trees -/

inductive SyntaxKind
  | whitespace | lineComment | blockComment | errorToken | identifier | integer | float | string | character
  | namespaceKw | useKw | returnKw | ifKw | switchKw | elseKw | forKw | constKw | autoKw | trueKw | falseKw
  | nullKw | moveKw | mutableKw | structKw | classKw | interfaceKw | enumKw | publicKw | privateKw | throwsKw
  | throwKw | tryKw | catchKw | whileKw | breakKw | continueKw | modKw | asKw | asyncKw | awaitKw
  | lParen | rParen | lBrace | rBrace | lBracket | rBracket | less | greater | lessEq | greaterEq | eqEq
  | notEq | fatArrow | plus | minus | star | slash | percent | bang | amp | pipe | caret | tilde | andAnd
  | orOr | eq | plusEq | minusEq | starEq | slashEq | percentEq | plusPlus | minusMinus | dot | ellipsis
  | comma | semicolon | colon | colonColon
  | sourceFile | namespaceDefinition | useDeclaration | structDefinition | classDefinition
  | interfaceDefinition | enumDefinition | enumVariant | accessSpecifier | fieldDeclaration
  | constructorDefinition | constructorDeclaration | constructorInitializerList | constructorInitializer
  | functionDefinition | functionDeclaration | parameterList | parameter | typeReference
  | genericParameterList | genericParameter | genericArgumentList | functionTypeSignature | throwsClause
  | block | localDeclaration | returnStatement | throwStatement | tryStatement | catchClause | ifStatement
  | elseClause | whileStatement | forStatement | rangeForClause | classicForClause | breakStatement
  | continueStatement | expressionStatement | emptyStatement | nameExpression | literalExpression
  | parenthesizedExpression | prefixExpression | postfixExpression | awaitExpression | binaryExpression
  | switchExpression | switchArm | switchPattern | callExpression | macroCallExpression | argumentList
  | aggregateExpression | initializerList | jsonArrayExpression | jsonObjectExpression | jsonMember
  | fieldExpression | indexExpression | lambdaExpression | captureList | lambdaCapture | error
deriving DecidableEq

namespace SyntaxKind

def isTrivia : SyntaxKind → Bool
  | whitespace | lineComment | blockComment => true
  | _ => false

def isLiteral : SyntaxKind → Bool
  | integer | float | string | character | trueKw | falseKw | nullKw => true
  | _ => false

end SyntaxKind

/-- A token and its slice of the source.  The lexer leaves nothing out, so a token's range is given by
the tokens before it. -/
structure Token where
  kind : SyntaxKind
  text : String
deriving DecidableEq

namespace Token

def isTrivia (token : Token) : Bool := token.kind.isTrivia

def size (token : Token) : Nat := token.text.utf8ByteSize

end Token

def size : List Token → Nat
  | [] => 0
  | token :: tokens => token.size + size tokens

theorem size_append (tokens tokens' : List Token) : size (tokens ++ tokens') = size tokens + size tokens' := by
  induction tokens with
  | nil => exact (Nat.zero_add _).symm
  | cons token tokens ih => rw [List.cons_append, size, size, ih, Nat.add_assoc]

inductive Tree
  | token (token : Token)
  | node (kind : SyntaxKind) (children : List Tree)

mutual

def Tree.tokens : Tree → List Token
  | .token token => [token]
  | .node _ children => leaves children

def leaves : List Tree → List Token
  | [] => []
  | tree :: trees => tree.tokens ++ leaves trees

end

theorem leaves_append (trees trees' : List Tree) : leaves (trees ++ trees') = leaves trees ++ leaves trees' := by
  induction trees with
  | nil => rfl
  | cons tree trees ih => rw [List.cons_append, leaves, leaves, ih, List.append_assoc]

structure TextRange where
  start : Nat
  stop : Nat
deriving DecidableEq

structure ParseError where
  message : String
  range : TextRange
deriving DecidableEq

/-! ## 2. The parser's state -/

/-- The tokens from `position` on, which start at byte `offset`, and the builder: the nodes that are open,
each with the number of children before its own, and the children so far. -/
structure Parser where
  rest : List Token
  position : Nat := 0
  offset : Nat := 0
  parents : List (SyntaxKind × Nat) := []
  children : List Tree := []
  errors : List ParseError := []

namespace Parser

def significant (parser : Parser) : List Token := parser.rest.filter fun token ↦ !token.isTrivia

def ahead (parser : Parser) : List SyntaxKind := parser.significant.map Token.kind

def nth (parser : Parser) (significantOffset : Nat) : Option SyntaxKind := parser.ahead[significantOffset]?

def current (parser : Parser) : Option SyntaxKind := parser.ahead.head?

def currentText (parser : Parser) : Option String := parser.significant.head?.map Token.text

def isAt (parser : Parser) (kind : SyntaxKind) : Bool := parser.current = some kind

def atAny (parser : Parser) (kinds : List SyntaxKind) : Bool := parser.current.any kinds.contains

def atEnd (parser : Parser) : Bool := parser.current.isNone

def bumpRaw (parser : Parser) : Parser :=
  match parser.rest with
  | [] => parser
  | token :: rest =>
      { parser with
        rest, position := parser.position + 1, offset := parser.offset + token.size
        children := parser.children ++ [.token token] }

/-- The blanks and comments at hand. -/
def trivia (parser : Parser) : List Token := parser.rest.takeWhile Token.isTrivia

def eatTrivia (parser : Parser) : Parser := bumpRaw^[parser.trivia.length] parser

def eatRemaining (parser : Parser) : Parser := bumpRaw^[parser.rest.length] parser

/-- The range of the token at hand, or the end of the source. -/
def range (parser : Parser) : TextRange :=
  let start := parser.offset + size parser.trivia
  ⟨start, start + (parser.significant.head?.map Token.size).getD 0⟩

end Parser

/-! ## 3. What the parser is built from -/

/-- Why the model stops: the builder's assertions, or too small a budget. -/
inductive Stop
  | panic
  | budget
deriving DecidableEq

abbrev Parse := EStateM Stop Parser

def checkpoint : Parse Nat := do return (← get).children.length

/-- The node's children begin behind the first `first` trees. -/
def Parser.opened (parser : Parser) (kind : SyntaxKind) (first : Nat) : Parser :=
  { parser with parents := (kind, first) :: parser.parents }

/-- The trees behind the first `first` become the children of a node. -/
def Parser.closed (parser : Parser) (kind : SyntaxKind) (first : Nat) (parents : List (SyntaxKind × Nat)) : Parser :=
  { parser with
    parents, children := parser.children.take first ++ [.node kind (parser.children.drop first)] }

/-- A node can be opened behind the first `checkpoint` trees. -/
def Parser.Valid (parser : Parser) (checkpoint : Nat) : Prop :=
  checkpoint ≤ parser.children.length ∧ ∀ parent ∈ parser.parents.head?, parent.2 ≤ checkpoint

/-- What the parser relies on of `rowan`'s builder. -/
class Rowan where
  startNode : SyntaxKind → Parse Unit
  startNodeAt : Nat → SyntaxKind → Parse Unit
  finish : Parse Unit
  startNode_eq : ∀ kind, startNode kind = modify fun parser ↦ parser.opened kind parser.children.length
  startNodeAt_opens : ∀ checkpoint kind parser, parser.Valid checkpoint →
    startNodeAt checkpoint kind parser = .ok () (parser.opened kind checkpoint)
  startNodeAt_panics : ∀ checkpoint kind parser, ¬parser.Valid checkpoint →
    startNodeAt checkpoint kind parser = .error .panic parser
  finish_closes : ∀ parser kind first parents, parser.parents = (kind, first) :: parents →
    finish parser = .ok () (parser.closed kind first parents)
  finish_panics : ∀ parser, parser.parents = [] → finish parser = .error .panic parser

export Rowan (startNode startNodeAt finish)

instance (parser : Parser) (checkpoint : Nat) : Decidable (parser.Valid checkpoint) :=
  inferInstanceAs (Decidable (_ ∧ _))

/-- The builder with its stack of open nodes and its list of trees. -/
@[reducible] def stack : Rowan where
  startNode kind := modify fun parser ↦ parser.opened kind parser.children.length
  startNodeAt checkpoint kind := do
    let parser ← get
    if parser.Valid checkpoint then set (parser.opened kind checkpoint) else throw .panic
  finish := do
    let parser ← get
    match parser.parents with
    | [] => throw .panic
    | (kind, first) :: parents => set (parser.closed kind first parents)
  startNode_eq _ := rfl
  startNodeAt_opens checkpoint kind parser h := by
    show (if parser.Valid checkpoint then set (parser.opened kind checkpoint) else throw .panic : Parse Unit) parser = _
    rw [if_pos h]
    rfl
  startNodeAt_panics checkpoint kind parser h := by
    show (if parser.Valid checkpoint then set (parser.opened kind checkpoint) else throw .panic : Parse Unit) parser = _
    rw [if_neg h]
    rfl
  finish_closes parser kind first parents h := by
    obtain ⟨rest, position, offset, parents', children, errors⟩ := parser
    cases h
    rfl
  finish_panics parser h := by
    obtain ⟨rest, position, offset, parents, children, errors⟩ := parser
    cases h
    rfl

variable [Rowan]

def eatTrivia : Parse Unit := modify Parser.eatTrivia

def eatRemaining : Parse Unit := modify Parser.eatRemaining

def start (kind : SyntaxKind) : Parse Unit := do eatTrivia; startNode kind

def bump : Parse Unit := modify fun parser ↦ parser.eatTrivia.bumpRaw

def error (message : String) : Parse Unit :=
  modify fun parser ↦ { parser with errors := parser.errors ++ [⟨message, parser.range⟩] }

def eat (kind : SyntaxKind) : Parse Unit := provided (·.isAt kind) bump

def expect (kind : SyntaxKind) (message : String) : Parse Unit := whether (·.isAt kind) bump (error message)

/-- `while eat(ColonColon) { segment }` -/
def segments (segment : Parse Unit) (budget : Nat) : Parse Unit :=
  repeatUntil .budget (!·.isAt .colonColon) (do bump; segment) budget

/-- `while !at_end() && !at(close) { element; if !eat(Comma) { break } }` -/
def commaSeparated (close : SyntaxKind) (element : Parse Unit) (budget : Nat) : Parse Unit :=
  separated .budget (fun parser ↦ parser.atEnd || parser.isAt close) (·.isAt .comma) element bump budget

/-- `loop { element; if !eat(Comma) { break } }` -/
def commaChained (element : Parse Unit) (budget : Nat) : Parse Unit :=
  chained .budget (·.isAt .comma) element bump budget

end Stainless.Syntax.Source
