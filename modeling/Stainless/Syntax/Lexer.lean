import Stainless.Reasoning.LongestMatch
import Stainless.Syntax.SourceParser

/-!
# Lexing files

The lexer that `logos` generates takes the longest match of its patterns, and a keyword before an equally
long identifier.  The patterns that begin a comment or a quoted literal hand over to a function that
looks for its end.
-/

namespace Stainless.Syntax.Source

open Reasoning RegularExpression

/-! ## 1. Patterns -/

def text (letters : String) : RegularExpression Char := letters.toList.foldr (fun letter P ↦ .char letter * P) 1

def anyOf (letters : String) : RegularExpression Char := letters.toList.foldr (fun letter P ↦ .char letter + P) 0

def oneOrMore (P : RegularExpression Char) : RegularExpression Char := P * P.star

def optional (P : RegularExpression Char) : RegularExpression Char := 1 + P

def digit : RegularExpression Char := anyOf "0123456789"

def digits : RegularExpression Char := digit * (anyOf "0123456789_").star

/-- `(i8|i16|i32|i64|i128|isize|u8|u16|u32|u64|u128|usize)?` -/
def integerSuffix : RegularExpression Char :=
  optional (text "i8" + text "i16" + text "i32" + text "i64" + text "i128" + text "isize" + text "u8" + text "u16" +
    text "u32" + text "u64" + text "u128" + text "usize")

/-- `[eE][+-]?[0-9][0-9_]*` -/
def exponent : RegularExpression Char := anyOf "eE" * optional (anyOf "+-") * digits

def identifierStart : RegularExpression Char :=
  anyOf "ABCDEFGHIJKLMNOPQRSTUVWXYZabcdefghijklmnopqrstuvwxyz_"

def keywords : List (String × SyntaxKind) :=
  [("namespace", .namespaceKw), ("use", .useKw), ("return", .returnKw), ("if", .ifKw), ("switch", .switchKw),
    ("else", .elseKw), ("for", .forKw), ("const", .constKw), ("auto", .autoKw), ("true", .trueKw),
    ("false", .falseKw), ("nullptr", .nullKw), ("null", .nullKw), ("move", .moveKw), ("mutable", .mutableKw),
    ("struct", .structKw), ("class", .classKw), ("interface", .interfaceKw), ("enum", .enumKw),
    ("public", .publicKw), ("private", .privateKw), ("throws", .throwsKw), ("throw", .throwKw), ("try", .tryKw),
    ("catch", .catchKw), ("while", .whileKw), ("break", .breakKw), ("continue", .continueKw), ("mod", .modKw),
    ("as", .asKw), ("async", .asyncKw), ("await", .awaitKw)]

def punctuation : List (String × SyntaxKind) :=
  [("::", .colonColon), ("<=", .lessEq), (">=", .greaterEq), ("==", .eqEq), ("!=", .notEq), ("=>", .fatArrow),
    ("&&", .andAnd), ("||", .orOr), ("+=", .plusEq), ("-=", .minusEq), ("*=", .starEq), ("/=", .slashEq),
    ("%=", .percentEq), ("++", .plusPlus), ("--", .minusMinus), ("(", .lParen), (")", .rParen), ("\x7b", .lBrace),
    ("\x7d", .rBrace), ("[", .lBracket), ("]", .rBracket), ("<", .less), (">", .greater), ("+", .plus), ("-", .minus),
    ("*", .star), ("/", .slash), ("%", .percent), ("!", .bang), ("&", .amp), ("|", .pipe), ("^", .caret),
    ("~", .tilde), ("=", .eq), ("...", .ellipsis), (".", .dot), (",", .comma), (";", .semicolon), (":", .colon)]

/-- The patterns of `RawToken` without the blanks. -/
def solidPatterns : List (RegularExpression Char × SyntaxKind) :=
  [(text "//", .lineComment), (text "/*", .blockComment)] ++
    (keywords ++ punctuation).map (fun row ↦ (text row.1, row.2)) ++
    [(text "\"", .string), (text "'", .character),
      (text "0" * anyOf "xX" * anyOf "0123456789abcdefABCDEF" * (anyOf "0123456789abcdefABCDEF_").star * integerSuffix,
        .integer),
      (text "0" * anyOf "bB" * anyOf "01" * (anyOf "01_").star * integerSuffix, .integer),
      (text "0" * anyOf "oO" * anyOf "01234567" * (anyOf "01234567_").star * integerSuffix, .integer),
      (digits * integerSuffix, .integer),
      (digits * text "." * digits * optional exponent * optional (text "f"), .float),
      (digits * exponent * optional (text "f"), .float),
      (identifierStart * (identifierStart + digit).star, .identifier)]

def blanks : RegularExpression Char := anyOf " \t\r\n"

/-- The patterns of `RawToken`.  Of two that match equally much the first counts: only a keyword and an
identifier can, and `logos` gives a text more weight than a pattern. -/
def tokenPatterns : List (RegularExpression Char × SyntaxKind) := (oneOrMore blanks, .whitespace) :: solidPatterns

/-! ## 2. Comments and quoted literals -/

def utf8Size (letters : List Char) : Nat := (String.ofList letters).utf8ByteSize

/-- Offsets are 32 bits wide; the lexer panics beyond. -/
def textSize (offset : Nat) : Option Nat := if offset < 2 ^ 32 then some offset else none

def textRange (first stop : Nat) : Option TextRange := do return ⟨← textSize first, ← textSize stop⟩

/-- Where `*/` begins. -/
def findClose : List Char → Option Nat
  | [] => none
  | letter :: rest => if letter = '*' ∧ rest.head? = some '/' then some 0 else (findClose rest).map (· + 1)

/-- The loop of `lex_quoted`: up to where the literal is closed, or where its line ends. -/
def scanQuoted (delimiter : Char) : Bool → List Char → Option (Nat × Bool)
  | _, [] => none
  | true, _ :: rest => (scanQuoted delimiter false rest).map fun found ↦ (found.1 + 1, found.2)
  | false, character :: rest =>
      if character = '\\' then (scanQuoted delimiter true rest).map fun found ↦ (found.1 + 1, found.2)
      else if character = delimiter then some (1, true)
      else if character = '\r' ∨ character = '\n' then some (0, false)
      else (scanQuoted delimiter false rest).map fun found ↦ (found.1 + 1, found.2)

/-- What such a function takes beside the match, and the error it pushes. -/
abbrev Bump := Option (Nat × List ParseError)

def lexLineComment (remainder : List Char) : Bump :=
  some ((remainder.takeWhile fun letter ↦ letter ≠ '\r' ∧ letter ≠ '\n').length, [])

section

variable (first sourceSize : Nat)

def lexBlockComment (remainder : List Char) : Bump :=
  match findClose remainder with
  | some offset => some (offset + 2, [])
  | none => do return (remainder.length, [⟨"unterminated block comment", ← textRange first sourceSize⟩])

def lexQuoted (delimiter : Char) (description : String) (remainder : List Char) : Bump :=
  match scanQuoted delimiter false remainder with
  | some (length, true) => some (length, [])
  | some (length, false) => do
      let range ← textRange first (first + 1 + utf8Size (remainder.take length))
      return (length, [⟨"unterminated " ++ description ++ " literal", range⟩])
  | none => do
      return (remainder.length, [⟨"unterminated " ++ description ++ " literal", ← textRange first sourceSize⟩])

def lexString : List Char → Bump := lexQuoted first sourceSize '"' "string"

def lexCharacter : List Char → Bump := lexQuoted first sourceSize '\'' "character"

/-- The function that the row of a kind names. -/
def callback (kind : SyntaxKind) (remainder : List Char) : Bump :=
  match kind with
  | .lineComment => lexLineComment remainder
  | .blockComment => lexBlockComment first sourceSize remainder
  | .string => lexString first sourceSize remainder
  | .character => lexCharacter first sourceSize remainder
  | _ => some (0, [])

end

/-! ## 3. The loop -/

/-- The generated lexer, as far as its documentation goes: what it chooses where a pattern matches, and that
it reads on where none does. -/
structure Logos where
  choose : List Char → Option (SyntaxKind × Nat)
  chooses : ∀ letters, Chooses tokenPatterns letters (choose letters)
  errorLength : List Char → Nat
  positive : ∀ letters, letters ≠ [] → 0 < errorLength letters
  within : ∀ letters, errorLength letters ≤ letters.length

theorem Logos.choose_eq (logos : Logos) (letters : List Char) : logos.choose letters = munch tokenPatterns letters :=
  (logos.chooses letters).unique (chooses_munch tokenPatterns letters)

structure Lexer where
  remaining : List Char
  offset : Nat := 0
  tokens : List Token := []
  errors : List ParseError := []
  extras : List ParseError := []

namespace Lexer

variable (logos : Logos) (sourceSize : Nat)

/-- The next `length` letters become a token. -/
def push (lexer : Lexer) (kind : SyntaxKind) (length : Nat) : Lexer :=
  let slice := lexer.remaining.take length
  { lexer with
    remaining := lexer.remaining.drop length
    offset := lexer.offset + utf8Size slice
    tokens := lexer.tokens ++ [⟨kind, String.ofList slice⟩] }

/-- A pass of the loop of `lex`. -/
def next (lexer : Lexer) : Option Lexer :=
  match logos.choose lexer.remaining with
  | some (kind, matched) => do
      let (bumped, pushed) ← callback lexer.offset sourceSize kind (lexer.remaining.drop matched)
      let after := lexer.push kind (matched + bumped)
      let _ ← textRange lexer.offset after.offset
      return { after with extras := lexer.extras ++ pushed }
  | none => do
      let length := logos.errorLength lexer.remaining
      let after := lexer.push .errorToken length
      let range ← textRange lexer.offset after.offset
      let message := "unexpected character `" ++ String.ofList (lexer.remaining.take length) ++ "`"
      return { after with errors := lexer.errors ++ [⟨message, range⟩] }

def loop : Nat → Lexer → Option Lexer
  | 0, lexer => if lexer.remaining.isEmpty then some lexer else none
  | passes + 1, lexer =>
      if lexer.remaining.isEmpty then some lexer else (lexer.next logos sourceSize).bind (loop passes)

end Lexer

structure Lexed where
  tokens : List Token
  errors : List ParseError
deriving DecidableEq

/-- `lex`; no result means that the lexer panicked. -/
def lex (logos : Logos) (source : String) : Option Lexed := do
  let lexer ← Lexer.loop logos source.utf8ByteSize source.toList.length { remaining := source.toList }
  return {
    tokens := lexer.tokens
    errors := (lexer.errors ++ lexer.extras).mergeSort fun error error' ↦ error.range.start ≤ error'.range.start }

/-- `parse`: the lexer, then the parser with so many passes. -/
def parseText [Rowan] (logos : Logos) (passes : Nat) (source : String) : Option (Except Stop Parsed) :=
  (lex logos source).map fun lexed ↦ parse passes lexed.tokens lexed.errors

end Stainless.Syntax.Source
