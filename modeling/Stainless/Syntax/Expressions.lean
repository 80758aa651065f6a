import Stainless.Syntax.Parser

/-!
# Expressions and their tokens

Expressions as C-style precedence has them: the tokens that they are written with and the syntax tree
that stands for them.
-/

namespace Stainless.Syntax

open Source (SyntaxKind Token Tree)

/-! ## 1. Expressions -/

inductive BinaryOperator
  | assign | addAssign | subtractAssign | multiplyAssign | divideAssign | remainderAssign
  | or | and | bitOr | bitXor | bitAnd | equal | notEqual | less | lessEqual | greater | greaterEqual
  | add | subtract | multiply | divide | remainder
deriving DecidableEq

inductive PrefixOperator
  | plus | minus | not | complement | increment | decrement

inductive PostfixOperator
  | increment | decrement

inductive Literal
  | integer (text : String)
  | float (text : String)
  | string (text : String)
  | character (text : String)
  | true
  | false
  | null

inductive NameHead
  | identifier (text : String)
  | move

inductive Member
  | name (text : String) (segments : List String)
  | position (text : String) (segments : List String)

inductive Expression
  | name (head : NameHead) (segments : List String)
  | literal (value : Literal)
  | parenthesized (inner : Expression)
  | prefixed (operator : PrefixOperator) (operand : Expression)
  | field (base : Expression) (member : Member)
  | await (base : Expression)
  | call (callee : Expression) (arguments : List Expression)
  | macroCall (callee : Expression) (arguments : List Expression)
  | index (base position : Expression)
  | postfixed (operand : Expression) (operator : PostfixOperator)
  | binary (operator : BinaryOperator) (left right : Expression)

/-! ## 2. Tokens -/

def BinaryOperator.token : BinaryOperator → Token
  | assign => ⟨.eq, "="⟩
  | addAssign => ⟨.plusEq, "+="⟩
  | subtractAssign => ⟨.minusEq, "-="⟩
  | multiplyAssign => ⟨.starEq, "*="⟩
  | divideAssign => ⟨.slashEq, "/="⟩
  | remainderAssign => ⟨.percentEq, "%="⟩
  | or => ⟨.orOr, "||"⟩
  | and => ⟨.andAnd, "&&"⟩
  | bitOr => ⟨.pipe, "|"⟩
  | bitXor => ⟨.caret, "^"⟩
  | bitAnd => ⟨.amp, "&"⟩
  | equal => ⟨.eqEq, "=="⟩
  | notEqual => ⟨.notEq, "!="⟩
  | less => ⟨.less, "<"⟩
  | lessEqual => ⟨.lessEq, "<="⟩
  | greater => ⟨.greater, ">"⟩
  | greaterEqual => ⟨.greaterEq, ">="⟩
  | add => ⟨.plus, "+"⟩
  | subtract => ⟨.minus, "-"⟩
  | multiply => ⟨.star, "*"⟩
  | divide => ⟨.slash, "/"⟩
  | remainder => ⟨.percent, "%"⟩

def PrefixOperator.token : PrefixOperator → Token
  | plus => ⟨.plus, "+"⟩
  | minus => ⟨.minus, "-"⟩
  | not => ⟨.bang, "!"⟩
  | complement => ⟨.tilde, "~"⟩
  | increment => ⟨.plusPlus, "++"⟩
  | decrement => ⟨.minusMinus, "--"⟩

def PostfixOperator.token : PostfixOperator → Token
  | increment => ⟨.plusPlus, "++"⟩
  | decrement => ⟨.minusMinus, "--"⟩

def Literal.token : Literal → Token
  | integer text => ⟨.integer, text⟩
  | float text => ⟨.float, text⟩
  | string text => ⟨.string, text⟩
  | character text => ⟨.character, text⟩
  | true => ⟨.trueKw, "true"⟩
  | false => ⟨.falseKw, "false"⟩
  | null => ⟨.nullKw, "null"⟩

def NameHead.token : NameHead → Token
  | identifier text => ⟨.identifier, text⟩
  | move => ⟨.moveKw, "move"⟩

def segmentTokens (segments : List String) : List Token :=
  segments.flatMap fun segment ↦ [⟨.colonColon, "::"⟩, ⟨.identifier, segment⟩]

def Member.tokens : Member → List Token
  | name text segments => ⟨.identifier, text⟩ :: segmentTokens segments
  | position text segments => ⟨.integer, text⟩ :: segmentTokens segments

def lParen : Token := ⟨.lParen, "("⟩
def rParen : Token := ⟨.rParen, ")"⟩
def lBracket : Token := ⟨.lBracket, "["⟩
def rBracket : Token := ⟨.rBracket, "]"⟩
def comma : Token := ⟨.comma, ","⟩
def dot : Token := ⟨.dot, "."⟩
def bang : Token := ⟨.bang, "!"⟩
def awaitKw : Token := ⟨.awaitKw, "await"⟩

namespace Expression

mutual

/-- The tokens of an expression, as it stands. -/
def tokens : Expression → List Token
  | name head segments => head.token :: segmentTokens segments
  | literal value => [value.token]
  | parenthesized inner => lParen :: (inner.tokens ++ [rParen])
  | prefixed operator operand => operator.token :: operand.tokens
  | field base member => base.tokens ++ dot :: member.tokens
  | await base => base.tokens ++ [dot, awaitKw]
  | call callee arguments => callee.tokens ++ lParen :: (argumentTokens arguments ++ [rParen])
  | macroCall callee arguments =>
      callee.tokens ++ bang :: lParen :: (argumentTokens arguments ++ [rParen])
  | index base position => base.tokens ++ lBracket :: (position.tokens ++ [rBracket])
  | postfixed operand operator => operand.tokens ++ [operator.token]
  | binary operator left right => left.tokens ++ operator.token :: right.tokens

def argumentTokens : List Expression → List Token
  | [] => []
  | [argument] => argument.tokens
  | argument :: arguments => argument.tokens ++ comma :: argumentTokens arguments

end

mutual

/-- The syntax tree of an expression. -/
def tree : Expression → Tree
  | name head segments => .node .nameExpression (.token head.token :: (segmentTokens segments).map .token)
  | literal value => .node .literalExpression [.token value.token]
  | parenthesized inner => .node .parenthesizedExpression [.token lParen, inner.tree, .token rParen]
  | prefixed operator operand => .node .prefixExpression [.token operator.token, operand.tree]
  | field base member =>
      .node .fieldExpression (base.tree :: .token dot :: member.tokens.map .token)
  | await base => .node .awaitExpression [base.tree, .token dot, .token awaitKw]
  | call callee arguments =>
      .node .callExpression [callee.tree,
        .node .argumentList (.token lParen :: (argumentTrees arguments ++ [.token rParen]))]
  | macroCall callee arguments =>
      .node .macroCallExpression [callee.tree, .token bang,
        .node .argumentList (.token lParen :: (argumentTrees arguments ++ [.token rParen]))]
  | index base position =>
      .node .indexExpression [base.tree, .token lBracket, position.tree, .token rBracket]
  | postfixed operand operator => .node .postfixExpression [operand.tree, .token operator.token]
  | binary operator left right =>
      .node .binaryExpression [left.tree, .token operator.token, right.tree]

def argumentTrees : List Expression → List Tree
  | [] => []
  | [argument] => [argument.tree]
  | argument :: arguments => argument.tree :: .token comma :: argumentTrees arguments

end

end Expression

/-! ## 3. Precedence -/

/-- The levels of the binary operators, from the loosest on. -/
def BinaryOperator.level : BinaryOperator → Nat
  | assign | addAssign | subtractAssign | multiplyAssign | divideAssign | remainderAssign => 1
  | or => 2
  | and => 3
  | bitOr => 4
  | bitXor => 5
  | bitAnd => 6
  | equal | notEqual => 7
  | less | lessEqual | greater | greaterEqual => 8
  | add | subtract => 9
  | multiply | divide | remainder => 10

/-- The level that a left operand needs: assignments do not group to the left. -/
def BinaryOperator.leftLevel (operator : BinaryOperator) : Nat :=
  if operator.level = 1 then 2 else operator.level

/-- The level that a right operand needs: only assignments group to the right. -/
def BinaryOperator.rightLevel (operator : BinaryOperator) : Nat :=
  if operator.level = 1 then 1 else operator.level + 1

def prefixLevel : Nat := 11
def postfixLevel : Nat := 12

namespace Expression

def level : Expression → Nat
  | binary operator _ _ => operator.level
  | prefixed _ _ => prefixLevel
  | _ => postfixLevel

/-- Parentheses around an expression that binds less tightly than its place needs. -/
def enclose (needed : Nat) (expression : Expression) : Expression :=
  if expression.level < needed then parenthesized expression else expression

mutual

/-- The expression with the fewest parentheses added that its precedences need. -/
def parenthesize : Expression → Expression
  | name head segments => name head segments
  | literal value => literal value
  | parenthesized inner => parenthesized inner.parenthesize
  | prefixed operator operand => prefixed operator (operand.parenthesize.enclose prefixLevel)
  | field base member => field (base.parenthesize.enclose postfixLevel) member
  | await base => await (base.parenthesize.enclose postfixLevel)
  | call callee arguments =>
      call (callee.parenthesize.enclose postfixLevel) (parenthesizeAll arguments)
  | macroCall callee arguments =>
      macroCall (callee.parenthesize.enclose postfixLevel) (parenthesizeAll arguments)
  | index base position => index (base.parenthesize.enclose postfixLevel) position.parenthesize
  | postfixed operand operator => postfixed (operand.parenthesize.enclose postfixLevel) operator
  | binary operator left right =>
      binary operator (left.parenthesize.enclose operator.leftLevel)
        (right.parenthesize.enclose operator.rightLevel)

def parenthesizeAll : List Expression → List Expression
  | [] => []
  | argument :: arguments => argument.parenthesize :: parenthesizeAll arguments

end

mutual

/-- The expression without its parentheses. -/
def strip : Expression → Expression
  | name head segments => name head segments
  | literal value => literal value
  | parenthesized inner => inner.strip
  | prefixed operator operand => prefixed operator operand.strip
  | field base member => field base.strip member
  | await base => await base.strip
  | call callee arguments => call callee.strip (stripAll arguments)
  | macroCall callee arguments => macroCall callee.strip (stripAll arguments)
  | index base position => index base.strip position.strip
  | postfixed operand operator => postfixed operand.strip operator
  | binary operator left right => binary operator left.strip right.strip

def stripAll : List Expression → List Expression
  | [] => []
  | argument :: arguments => argument.strip :: stripAll arguments

end

mutual

/-- Every operand binds as tightly as its place needs. -/
def grouped : Expression → Bool
  | name _ _ | literal _ => true
  | parenthesized inner => inner.grouped
  | prefixed _ operand => prefixLevel ≤ operand.level && operand.grouped
  | field base _ | await base => postfixLevel ≤ base.level && base.grouped
  | call callee arguments | macroCall callee arguments =>
      postfixLevel ≤ callee.level && callee.grouped && allGrouped arguments
  | index base position => postfixLevel ≤ base.level && base.grouped && position.grouped
  | postfixed operand _ => postfixLevel ≤ operand.level && operand.grouped
  | binary operator left right =>
      operator.leftLevel ≤ left.level && left.grouped &&
        (operator.rightLevel ≤ right.level && right.grouped)

def allGrouped : List Expression → Bool
  | [] => true
  | argument :: arguments => argument.grouped && allGrouped arguments

end

def isName : Expression → Bool
  | name _ _ => true
  | _ => false

/-- Whether the last token belongs to a bare name. -/
def endsInName : Expression → Bool
  | name _ _ => true
  | prefixed _ operand => operand.endsInName
  | binary _ _ right => right.endsInName
  | _ => false

mutual

/-- No `<` has a left operand of this kind. -/
def lessAvoids (kind : Expression → Bool) : Expression → Bool
  | name _ _ | literal _ => true
  | parenthesized operand | prefixed _ operand | field operand _ | await operand
  | postfixed operand _ => operand.lessAvoids kind
  | call callee arguments | macroCall callee arguments =>
      callee.lessAvoids kind && lessAvoidsAll kind arguments
  | index base position => base.lessAvoids kind && position.lessAvoids kind
  | binary operator left right =>
      !(operator = .less && kind left) && left.lessAvoids kind && right.lessAvoids kind

def lessAvoidsAll (kind : Expression → Bool) : List Expression → Bool
  | [] => true
  | argument :: arguments => argument.lessAvoids kind && lessAvoidsAll kind arguments

end

/-- No `<` stands directly behind a bare name. -/
def noLessBehindName (expression : Expression) : Bool := expression.lessAvoids endsInName

end Expression

end Stainless.Syntax
