import Mathlib.Data.List.Nodup
import Stainless.Syntax.Lexer
import Stainless.Syntax.SourceFiles

/-!
# What the lexer makes of a file

The tokens are the file cut into pieces, the errors are those of the pieces, and blanks between the tokens
make no difference to them.
-/

open Reasoning RegularExpression

namespace Stainless.Syntax.Source

/-! ## 1. The patterns -/

abbrev blankLetters : List Char := " \t\r\n".toList

theorem letters_solid : ∀ row ∈ solidPatterns, ∀ letter ∈ blankLetters, letter ∉ letters row.1 := by
  have hall : solidPatterns.all (fun row ↦ blankLetters.all fun letter ↦ !(letters row.1).contains letter) = true := by
    decide +kernel
  intro row hrow letter hletter hmem
  have hnot := List.all_eq_true.mp (List.all_eq_true.mp hall row hrow) letter hletter
  rw [List.contains_iff_mem.mpr hmem] at hnot
  cases hnot

theorem matchEpsilon_tokenPatterns : ∀ row ∈ tokenPatterns, row.1.matchEpsilon = false := by
  decide +kernel

theorem kind_tokenPatterns : ∀ row ∈ tokenPatterns, row.2 ≠ .errorToken := by
  decide +kernel

theorem rmatch_text {spelling : String} {word : List Char} :
    (text spelling).rmatch word = true ↔ word = spelling.toList := by
  unfold text
  induction spelling.toList generalizing word with
  | nil => exact one_rmatch_iff word
  | cons letter spelling ih =>
      rw [List.foldr_cons, mul_rmatch_iff]
      constructor
      · rintro ⟨first, second, rfl, hfirst, hsecond⟩
        rw [(char_rmatch_iff letter first).mp hfirst, ih.mp hsecond]
        rfl
      · rintro rfl
        exact ⟨[letter], spelling, rfl, (char_rmatch_iff letter _).mpr rfl, ih.mpr rfl⟩

theorem rmatch_anyOf {choices : String} {letter : Char} (h : letter ∈ choices.toList) :
    (anyOf choices).rmatch [letter] = true := by
  unfold anyOf
  revert h
  induction choices.toList with
  | nil => exact nofun
  | cons choice choices ih =>
      intro h
      rw [List.foldr_cons, add_rmatch_iff]
      cases List.mem_cons.mp h with
      | inl heq => exact .inl ((char_rmatch_iff choice _).mpr (heq ▸ rfl))
      | inr hmem => exact .inr (ih hmem)

theorem rmatch_blanks {word : List Char} (hword : word ≠ []) (hblank : ∀ letter ∈ word, letter ∈ blankLetters) :
    (oneOrMore blanks).rmatch word = true := by
  cases word with
  | nil => exact absurd rfl hword
  | cons letter word =>
      rw [oneOrMore, mul_rmatch_iff]
      refine ⟨[letter], word, rfl, rmatch_anyOf (hblank letter List.mem_cons_self), ?_⟩
      rw [star_rmatch_iff]
      refine ⟨word.map fun letter ↦ [letter], ?_, fun part hpart ↦ ?_⟩
      · exact (List.flatMap_singleton' word).symm
      · have ⟨letter', hmem, heq⟩ := List.mem_map.mp hpart
        rw [← heq]
        exact ⟨List.cons_ne_nil _ _, rmatch_anyOf (hblank letter' (List.mem_cons_of_mem _ hmem))⟩

/-- What the chosen row matches. -/
theorem munch_tokenPatterns {word : List Char} {kind : SyntaxKind} {n : Nat}
    (h : munch tokenPatterns word = some (kind, n)) :
    0 < n ∧ (∃ row ∈ tokenPatterns, row.2 = kind ∧ Matches row.1 word n) ∧
      ∀ row ∈ tokenPatterns, ∀ m, Matches row.1 word m → m ≤ n := by
  have hlongest := longest_munch tokenPatterns word
  rw [h] at hlongest
  have ⟨⟨row, hrow, hkind, hmatch⟩, hmost⟩ := hlongest
  refine ⟨?_, ⟨row, hrow, hkind, hmatch⟩, hmost⟩
  by_contra hzero
  rw [Nat.eq_zero_of_not_pos hzero, matches_zero, matchEpsilon_tokenPatterns row hrow] at hmatch
  cases hmatch

/-- Kinds with one spelling. -/
theorem spelling_of_munch {word : List Char} {kind : SyntaxKind} {spelling : String} {n : Nat}
    (hrow : tokenPatterns.filter (fun row ↦ row.2 = kind) = [(text spelling, kind)])
    (h : munch tokenPatterns word = some (kind, n)) :
    n = spelling.toList.length ∧ word = spelling.toList ++ word.drop n := by
  have ⟨_, ⟨row, hmem, hkind, hmatch⟩, _⟩ := munch_tokenPatterns h
  have hfilter : row ∈ tokenPatterns.filter (fun row ↦ row.2 = kind) :=
    List.mem_filter.mpr ⟨hmem, decide_eq_true hkind⟩
  rw [hrow, List.mem_singleton] at hfilter
  rw [hfilter] at hmatch
  have htake : word.take n = spelling.toList := rmatch_text.mp hmatch.2
  constructor
  · rw [← htake, List.length_take, Nat.min_eq_left hmatch.1]
  · rw [← htake, List.take_append_drop]

/-! ## 2. Where comments and literals end -/

theorem findClose_take {word : List Char} {offset : Nat} (h : findClose word = some offset) :
    offset + 2 ≤ word.length ∧ findClose (word.take (offset + 2)) = some offset := by
  induction word generalizing offset with
  | nil => cases h
  | cons letter rest ih =>
      unfold findClose at h
      split at h
      case isTrue hclose =>
        cases h
        cases rest with
        | nil => cases hclose.2
        | cons letter' rest => exact ⟨by simp, if_pos hclose⟩
      case isFalse hopen =>
        have ⟨found, hfound, heq⟩ := Option.map_eq_some_iff.mp h
        have ⟨hlength, htake⟩ := ih hfound
        subst heq
        refine ⟨Nat.succ_le_succ hlength, ?_⟩
        rw [List.take_succ_cons, findClose, if_neg, htake]
        · rfl
        · rw [List.head?_take, if_neg (by omega)]
          exact hopen

/-- The scan sees nothing behind the literal, and of an open one not even the end of the line. -/
structure Scanned (delimiter : Char) (escaped : Bool) (word : List Char) (length : Nat) (closed : Bool) : Prop where
  within : length ≤ word.length
  closes : closed = true → ∀ rest, scanQuoted delimiter escaped (word.take length ++ rest) = some (length, true)
  opens : closed = false → scanQuoted delimiter escaped (word.take length) = none

/-- A letter that the scan passes over. -/
theorem Scanned.cons {delimiter letter : Char} {escaped escaped' : Bool} {word : List Char} {length : Nat}
    {closed : Bool} (h : Scanned delimiter escaped' word length closed)
    (hpass : ∀ word, scanQuoted delimiter escaped (letter :: word) =
      (scanQuoted delimiter escaped' word).map fun found ↦ (found.1 + 1, found.2)) :
    Scanned delimiter escaped (letter :: word) (length + 1) closed where
  within := Nat.succ_le_succ h.within
  closes := by
    intro hclosed rest
    rw [List.take_succ_cons, List.cons_append, hpass, h.closes hclosed]
    rfl
  opens := by
    intro hopen
    rw [List.take_succ_cons, hpass, h.opens hopen]
    rfl

theorem scanned {delimiter : Char} {escaped : Bool} {word : List Char} {length : Nat} {closed : Bool}
    (h : scanQuoted delimiter escaped word = some (length, closed)) :
    Scanned delimiter escaped word length closed := by
  induction word generalizing escaped length closed with
  | nil => cases escaped <;> cases h
  | cons letter word ih =>
      cases escaped with
      | true =>
          have ⟨found, hfound, heq⟩ := Option.map_eq_some_iff.mp h
          cases heq
          exact (ih hfound).cons fun _ ↦ rfl
      | false =>
          unfold scanQuoted at h
          split at h
          case isTrue hescape =>
            have ⟨found, hfound, heq⟩ := Option.map_eq_some_iff.mp h
            cases heq
            exact (ih hfound).cons fun _ ↦ if_pos hescape
          case isFalse hplain =>
            split at h
            case isTrue hdelimiter =>
              cases h
              refine ⟨by simp, fun _ rest ↦ ?_, nofun⟩
              rw [List.take_succ_cons, List.take_zero, List.singleton_append, scanQuoted, if_neg hplain,
                if_pos hdelimiter]
            case isFalse hother =>
              split at h
              case isTrue =>
                cases h
                exact ⟨Nat.zero_le _, nofun, fun _ ↦ rfl⟩
              case isFalse hline =>
                have ⟨found, hfound, heq⟩ := Option.map_eq_some_iff.mp h
                cases heq
                refine (ih hfound).cons fun word ↦ ?_
                rw [scanQuoted, if_neg hplain, if_neg hother, if_neg hline]

/-! ## 3. The errors of a token -/

def unterminated (delimiter : Char) (description : String) (body : List Char) : Option String :=
  if (scanQuoted delimiter false body).isNone then some ("unterminated " ++ description ++ " literal") else none

/-- What is wrong with a token. -/
def Token.problem (token : Token) : Option String :=
  match token.kind with
  | .errorToken => some ("unexpected character `" ++ token.text ++ "`")
  | .blockComment => if (findClose (token.text.toList.drop 2)).isNone then some "unterminated block comment" else none
  | .string => unterminated '"' "string" (token.text.toList.drop 1)
  | .character => unterminated '\'' "character" (token.text.toList.drop 1)
  | _ => none

/-- The error of a token that begins at byte `first`. -/
def Token.report (first : Nat) (token : Token) : List ParseError :=
  (token.problem.map fun message ↦ ⟨message, ⟨first, first + token.size⟩⟩).toList

def diagnostics : Nat → List Token → List ParseError
  | _, [] => []
  | first, token :: tokens => token.report first ++ diagnostics (first + token.size) tokens

theorem diagnostics_append (first : Nat) (tokens tokens' : List Token) :
    diagnostics first (tokens ++ tokens') = diagnostics first tokens ++ diagnostics (first + size tokens) tokens' := by
  induction tokens generalizing first with
  | nil => rfl
  | cons token tokens ih => rw [List.cons_append, diagnostics, diagnostics, ih, size, List.append_assoc, Nat.add_assoc]

theorem utf8Size_append (slice slice' : List Char) : utf8Size (slice ++ slice') = utf8Size slice + utf8Size slice' := by
  unfold utf8Size
  rw [String.ofList_append, String.utf8ByteSize_append]

theorem textRange_eq_some {first stop : Nat} (hle : first ≤ stop) (hstop : stop < 2 ^ 32) :
    textRange first stop = some ⟨first, stop⟩ := by
  unfold textRange textSize
  rw [if_pos hstop, if_pos (Nat.lt_of_le_of_lt hle hstop)]
  rfl

theorem textRange_eq_none {first stop : Nat} (hstop : 2 ^ 32 ≤ stop) : textRange first stop = none := by
  unfold textRange textSize
  rw [if_neg (Nat.not_lt.mpr hstop)]
  split <;> rfl

/-- What a function behind a row is to do: take the rest of the token and report its error. -/
def Bumped (first : Nat) (token : Token) (bumped : Nat) (result : Bump) : Prop :=
  result = some (bumped, token.report first) ∨ result = none ∧ 2 ^ 32 ≤ first + token.size

theorem bumped_fine {first bumped : Nat} {token : Token} (h : token.problem = none) :
    Bumped first token bumped (some (bumped, [])) := by
  left
  unfold Token.report
  rw [h]
  rfl

theorem bumped_problem {first bumped stop : Nat} {token : Token} {message : String}
    (h : token.problem = some message) (hstop : stop = first + token.size) :
    Bumped first token bumped (do return (bumped, [⟨message, ← textRange first stop⟩])) := by
  subst hstop
  by_cases hfits : first + token.size < 2 ^ 32
  · left
    unfold Token.report
    rw [textRange_eq_some (Nat.le_add_right _ _) hfits, h]
    rfl
  · right
    rw [textRange_eq_none (Nat.not_lt.mp hfits)]
    exact ⟨rfl, Nat.not_lt.mp hfits⟩

variable {first sourceSize : Nat} {kind : SyntaxKind} {remainder : List Char}

theorem bumped_lexBlockComment (hsize : sourceSize = first + utf8Size ('/' :: '*' :: remainder)) :
    ∃ bumped ≤ remainder.length,
      Bumped first ⟨.blockComment, String.ofList ('/' :: '*' :: remainder.take bumped)⟩ bumped
        (lexBlockComment first sourceSize remainder) := by
  have hproblem (slice : List Char) :
      Token.problem ⟨.blockComment, String.ofList ('/' :: '*' :: slice)⟩ =
        if (findClose slice).isNone then some "unterminated block comment" else none := by
    unfold Token.problem
    dsimp only
    rw [String.toList_ofList]
    rfl
  unfold lexBlockComment
  cases hclose : findClose remainder with
  | some offset =>
      have ⟨hlength, htake⟩ := findClose_take hclose
      refine ⟨offset + 2, hlength, bumped_fine ?_⟩
      rw [hproblem, htake]
      rfl
  | none =>
      refine ⟨remainder.length, Nat.le_refl _, ?_⟩
      rw [List.take_length]
      refine bumped_problem ?_ hsize
      rw [hproblem, hclose]
      rfl

theorem bumped_lexQuoted (delimiter : Char) (description : String) (hdelimiter : utf8Size [delimiter] = 1)
    (hproblem : ∀ slice, Token.problem ⟨kind, String.ofList (delimiter :: slice)⟩ =
      unterminated delimiter description slice)
    (hsize : sourceSize = first + utf8Size (delimiter :: remainder)) :
    ∃ bumped ≤ remainder.length,
      Bumped first ⟨kind, String.ofList (delimiter :: remainder.take bumped)⟩ bumped
        (lexQuoted first sourceSize delimiter description remainder) := by
  unfold lexQuoted
  cases hscan : scanQuoted delimiter false remainder with
  | none =>
      refine ⟨remainder.length, Nat.le_refl _, ?_⟩
      rw [List.take_length]
      refine bumped_problem ?_ hsize
      rw [hproblem, unterminated, hscan]
      rfl
  | some found =>
      obtain ⟨length, closed⟩ := found
      have hscanned := scanned hscan
      refine ⟨length, hscanned.within, ?_⟩
      cases closed with
      | true =>
          have hcloses := hscanned.closes rfl []
          rw [List.append_nil] at hcloses
          refine bumped_fine ?_
          rw [hproblem, unterminated, hcloses]
          rfl
      | false =>
          refine bumped_problem ?_ ?_
          · rw [hproblem, unterminated, hscanned.opens rfl]
            rfl
          · show first + 1 + utf8Size (remainder.take length) =
              first + utf8Size ([delimiter] ++ remainder.take length)
            rw [utf8Size_append, hdelimiter, Nat.add_assoc]

theorem problem_string (slice : List Char) :
    Token.problem ⟨.string, String.ofList ('"' :: slice)⟩ = unterminated '"' "string" slice := by
  show unterminated '"' "string" ((String.ofList ('"' :: slice)).toList.drop 1) = _
  rw [String.toList_ofList]
  rfl

theorem problem_character (slice : List Char) :
    Token.problem ⟨.character, String.ofList ('\'' :: slice)⟩ = unterminated '\'' "character" slice := by
  show unterminated '\'' "character" ((String.ofList ('\'' :: slice)).toList.drop 1) = _
  rw [String.toList_ofList]
  rfl

/-- Each row takes a part of what remains, and reports what is wrong with it. -/
theorem bumped_callback {remaining : List Char} {matched : Nat}
    (h : munch tokenPatterns remaining = some (kind, matched)) (hsize : sourceSize = first + utf8Size remaining) :
    ∃ bumped, matched + bumped ≤ remaining.length ∧
      Bumped first ⟨kind, String.ofList (remaining.take (matched + bumped))⟩ bumped
        (callback first sourceSize kind (remaining.drop matched)) := by
  have ⟨_, ⟨row, hrow, hkind, hmatch⟩, _⟩ := munch_tokenPatterns h
  have hsplit (spelling : String)
      (hspelling : tokenPatterns.filter (fun row ↦ row.2 = kind) = [(text spelling, kind)])
      (hbumped : ∀ remainder, sourceSize = first + utf8Size (spelling.toList ++ remainder) →
        ∃ bumped ≤ remainder.length, Bumped first ⟨kind, String.ofList (spelling.toList ++ remainder.take bumped)⟩ bumped
          (callback first sourceSize kind remainder)) :
      ∃ bumped, matched + bumped ≤ remaining.length ∧
        Bumped first ⟨kind, String.ofList (remaining.take (matched + bumped))⟩ bumped
          (callback first sourceSize kind (remaining.drop matched)) := by
    have ⟨hmatched, hremaining⟩ := spelling_of_munch hspelling h
    have ⟨bumped, hle, hresult⟩ := hbumped (remaining.drop matched) (hremaining ▸ hsize)
    rw [List.length_drop] at hle
    have hle' := hmatch.1
    refine ⟨bumped, by omega, ?_⟩
    have htake : remaining.take (matched + bumped) = spelling.toList ++ (remaining.drop matched).take bumped := by
      rw [List.take_add, List.append_cancel_right_eq]
      conv => lhs; rw [hremaining, hmatched]
      exact List.take_left
    rw [htake]
    exact hresult
  by_cases hblock : kind = .blockComment
  · subst hblock
    exact hsplit "/*" rfl fun _ hsize ↦ bumped_lexBlockComment hsize
  by_cases hstring : kind = .string
  · subst hstring
    exact hsplit "\"" rfl fun _ hsize ↦ bumped_lexQuoted '"' "string" (by decide) problem_string hsize
  by_cases hcharacter : kind = .character
  · subst hcharacter
    exact hsplit "'" rfl fun _ hsize ↦ bumped_lexQuoted '\'' "character" (by decide) problem_character hsize
  -- every other token is as it should be
  have hproblem (slice : String) : Token.problem ⟨kind, slice⟩ = none := by
    have herror : kind ≠ .errorToken := hkind ▸ kind_tokenPatterns row hrow
    unfold Token.problem
    split <;> first | rfl | contradiction
  by_cases hline : kind = .lineComment
  · subst hline
    refine ⟨_, ?_, bumped_fine (hproblem _)⟩
    have hle : ((remaining.drop matched).takeWhile fun letter ↦ letter ≠ '\r' ∧ letter ≠ '\n').length ≤
        (remaining.drop matched).length := (List.takeWhile_prefix _).length_le
    rw [List.length_drop] at hle
    have hmatched := hmatch.1
    omega
  · refine ⟨0, hmatch.1, ?_⟩
    have hnone : callback first sourceSize kind (remaining.drop matched) = some (0, []) := by
      unfold callback
      split <;> first | rfl | contradiction
    rw [hnone]
    exact bumped_fine (hproblem _)

/-! ## 4. Tokens with a blank behind them -/

/-- Solid rows match no blank. -/
theorem not_blank_of_matches {row : RegularExpression Char × SyntaxKind} (hrow : row ∈ solidPatterns)
    {word : List Char} {n : Nat} (hmatch : Matches row.1 word n) {letter : Char} (hletter : letter ∈ word.take n) :
    letter ∉ blankLetters :=
  fun hblank ↦ letters_solid row hrow letter hblank (mem_letters hmatch.2 hletter)

theorem blank_of_matches {word : List Char} {n : Nat} (hmatch : Matches (oneOrMore blanks) word n) {letter : Char}
    (hletter : letter ∈ word.take n) : letter ∈ blankLetters := by
  have hmem := mem_letters hmatch.2 hletter
  rw [show letters (oneOrMore blanks) = blankLetters ++ blankLetters from rfl, List.mem_append, or_self] at hmem
  exact hmem

/-- A token is found again when a blank comes behind it. -/
theorem munch_before_blank {word rest rest' : List Char} {matched : Nat} {blank : Char}
    (h : munch tokenPatterns (word ++ rest) = some (kind, matched)) (hkind : kind ≠ .whitespace)
    (hle : matched ≤ word.length) (hblank : blank ∈ blankLetters) :
    munch tokenPatterns (word ++ blank :: rest') = some (kind, matched) ∧
      ∃ letter tail, word = letter :: tail ∧ letter ∉ blankLetters := by
  have ⟨hpositive, ⟨row, hrow, hrowKind, hmatch⟩, hlongest⟩ := munch_tokenPatterns h
  have hsolid : row ∈ solidPatterns := by
    cases List.mem_cons.mp hrow with
    | inl heq =>
        rw [heq] at hrowKind
        exact absurd hrowKind.symm hkind
    | inr hmem => exact hmem
  cases word with
  | nil => exact absurd hle (Nat.not_le.mpr hpositive)
  | cons letter tail =>
      have hletter : letter ∉ blankLetters := by
        refine not_blank_of_matches hsolid hmatch ?_
        rw [show matched = matched - 1 + 1 by omega]
        exact List.mem_cons_self
      refine ⟨?_, letter, tail, rfl, hletter⟩
      rw [← h]
      refine munch_congr fun row' hrow' ↦ longestMatch_congr fun n ↦ ?_
      constructor
      · intro hn
        refine (hn.of_append ?_).append rest
        cases List.mem_cons.mp hrow' with
        | inr hmem => exact hn.before (letters_solid row' hmem blank hblank)
        | inl heq =>
            -- blanks do not begin with this letter
            subst heq
            cases n with
            | zero => exact Nat.zero_le _
            | succ n => exact absurd (blank_of_matches hn List.mem_cons_self) hletter
      · intro hn
        exact (hn.of_append ((hlongest row' hrow' n hn).trans hle)).append _

/-- Blanks between tokens are one token. -/
theorem munch_blanks {word rest : List Char} (hword : word ≠ []) (hblank : ∀ letter ∈ word, letter ∈ blankLetters)
    (hrest : ∀ letter tail, rest = letter :: tail → letter ∉ blankLetters) :
    munch tokenPatterns (word ++ rest) = some (.whitespace, word.length) := by
  have hword' : Matches (oneOrMore blanks) (word ++ rest) word.length :=
    (matches_length (rmatch_blanks hword hblank)).append rest
  have hlongest := longest_munch tokenPatterns (word ++ rest)
  cases hmunch : munch tokenPatterns (word ++ rest) with
  | none =>
      rw [hmunch] at hlongest
      exact absurd hword' (hlongest _ List.mem_cons_self _)
  | some found =>
      obtain ⟨kind, n⟩ := found
      have ⟨hpositive, ⟨row, hrow, hkind, hmatch⟩, hmost⟩ := munch_tokenPatterns hmunch
      have hle : word.length ≤ n := hmost _ List.mem_cons_self _ hword'
      cases List.mem_cons.mp hrow with
      | inr hsolid =>
          cases word with
          | nil => exact absurd rfl hword
          | cons letter tail =>
              have hletter : letter ∈ (letter :: tail ++ rest).take n := by
                rw [show n = n - 1 + 1 by omega]
                exact List.mem_cons_self
              exact absurd (hblank letter List.mem_cons_self) (not_blank_of_matches hsolid hmatch hletter)
      | inl heq =>
          subst heq
          have hge : n ≤ word.length := by
            cases rest with
            | nil =>
                have hn := hmatch.1
                rw [List.append_nil] at hn
                exact hn
            | cons letter tail =>
                refine hmatch.before fun hmem ↦ hrest letter tail rfl ?_
                rw [show letters (oneOrMore blanks) = blankLetters ++ blankLetters from rfl, List.mem_append,
                  or_self] at hmem
                exact hmem
          rw [← hkind, Nat.le_antisymm hge hle]

theorem lexQuoted_before {delimiter : Char} {description : String} {bumped : Nat}
    (h : lexQuoted first sourceSize delimiter description remainder = some (bumped, [])) (first' sourceSize' : Nat)
    (rest : List Char) :
    lexQuoted first' sourceSize' delimiter description (remainder.take bumped ++ rest) = some (bumped, []) := by
  have hreported {range : Option TextRange} {length : Nat} {message : String}
      (hresult : (do return (length, [⟨message, ← range⟩]) : Bump) = some (bumped, [])) : False := by
    cases range <;> cases hresult
  unfold lexQuoted at h
  cases hscan : scanQuoted delimiter false remainder with
  | none =>
      rw [hscan] at h
      exact (hreported h).elim
  | some found =>
      obtain ⟨length, closed⟩ := found
      rw [hscan] at h
      cases closed with
      | false => exact (hreported h).elim
      | true =>
          cases h
          unfold lexQuoted
          rw [(scanned hscan).closes rfl rest]

theorem callback_before {bumped : Nat} (htrivia : kind.isTrivia = false)
    (h : callback first sourceSize kind remainder = some (bumped, [])) (first' sourceSize' : Nat) (rest : List Char) :
    callback first' sourceSize' kind (remainder.take bumped ++ rest) = some (bumped, []) := by
  by_cases hstring : kind = .string
  · subst hstring
    exact lexQuoted_before h first' sourceSize' rest
  by_cases hcharacter : kind = .character
  · subst hcharacter
    exact lexQuoted_before h first' sourceSize' rest
  have hplain (first sourceSize : Nat) (remainder : List Char) :
      callback first sourceSize kind remainder = some (0, []) := by
    unfold callback
    split <;> first | rfl | contradiction
  rw [hplain] at h ⊢
  exact h

/-- A token that the lexer finds again when a blank comes behind it. -/
structure Token.Stands (token : Token) : Prop where
  solid : ∃ letter tail, token.text.toList = letter :: tail ∧ letter ∉ blankLetters
  again : ∀ blank ∈ blankLetters, ∀ first sourceSize rest, ∃ matched bumped,
    munch tokenPatterns (token.text.toList ++ blank :: rest) = some (token.kind, matched) ∧
      matched + bumped = token.text.toList.length ∧
      callback first sourceSize token.kind ((token.text.toList ++ blank :: rest).drop matched) = some (bumped, [])

theorem stands {word rest : List Char} {matched bumped : Nat}
    (hmunch : munch tokenPatterns (word ++ rest) = some (kind, matched)) (hlength : matched + bumped = word.length)
    (hcallback : callback first sourceSize kind ((word ++ rest).drop matched) = some (bumped, []))
    (htrivia : kind.isTrivia = false) : Token.Stands ⟨kind, String.ofList word⟩ := by
  have hkind : kind ≠ .whitespace := fun heq ↦ by
    rw [heq] at htrivia
    cases htrivia
  have hle : matched ≤ word.length := hlength ▸ Nat.le_add_right _ _
  have htext : (String.ofList word).toList = word := String.toList_ofList
  constructor
  · rw [htext]
    have hspace : munch tokenPatterns (word ++ ' ' :: []) = some (kind, matched) ∧
        ∃ letter tail, word = letter :: tail ∧ letter ∉ blankLetters :=
      munch_before_blank hmunch hkind hle (by decide : ' ' ∈ blankLetters)
    exact hspace.2
  · intro blank hblank first' sourceSize' rest'
    refine ⟨matched, bumped, ?_⟩
    rw [htext]
    refine ⟨(munch_before_blank hmunch hkind hle hblank).1, hlength, ?_⟩
    have hagain := callback_before htrivia hcallback first' sourceSize' (blank :: rest')
    rw [List.drop_append_of_le_length hle] at hagain ⊢
    rw [List.take_append_of_le_length (by rw [List.length_drop]; omega),
      List.take_of_length_le (by rw [List.length_drop]; omega)] at hagain
    exact hagain

/-! ## 5. Passes of the loop -/

/-- A pass takes a token, and reports what is wrong with it. -/
structure Pushed (lexer after : Lexer) (token : Token) : Prop where
  remaining : lexer.remaining = token.text.toList ++ after.remaining
  nonempty : token.text ≠ ""
  offset : after.offset = lexer.offset + token.size
  fits : after.offset < 2 ^ 32
  tokens : after.tokens = lexer.tokens ++ [token]
  reports : (after.errors ++ after.extras).Perm (lexer.errors ++ lexer.extras ++ token.report lexer.offset)
  stands : token.problem = none → token.isTrivia = false → token.Stands

variable {logos : Logos} {lexer after : Lexer} {token : Token} {source : String}

theorem pushed_push {length : Nat} {errors extras : List ParseError} (hpositive : 0 < length)
    (hle : length ≤ lexer.remaining.length) (hfits : (lexer.push kind length).offset < 2 ^ 32)
    (hreports : (errors ++ extras).Perm (lexer.errors ++ lexer.extras ++
      Token.report lexer.offset ⟨kind, String.ofList (lexer.remaining.take length)⟩))
    (hstands : Token.problem ⟨kind, String.ofList (lexer.remaining.take length)⟩ = none → kind.isTrivia = false →
      Token.Stands ⟨kind, String.ofList (lexer.remaining.take length)⟩) :
    Pushed lexer { lexer.push kind length with errors, extras }
      ⟨kind, String.ofList (lexer.remaining.take length)⟩ where
  remaining := by
    rw [String.toList_ofList]
    exact (List.take_append_drop length lexer.remaining).symm
  nonempty := by
    intro hempty
    have hlength := congrArg (fun slice ↦ slice.toList.length) hempty
    rw [String.toList_ofList, List.length_take, Nat.min_eq_left hle] at hlength
    exact absurd hlength (Nat.ne_of_gt hpositive)
  offset := rfl
  fits := hfits
  tokens := rfl
  reports := hreports
  stands := hstands

/-- A pass takes a token, or the lexer panics on a file too large. -/
theorem next_cases (hremaining : lexer.remaining ≠ []) (hsize : sourceSize = lexer.offset + utf8Size lexer.remaining) :
    (∃ after token, lexer.next logos sourceSize = some after ∧ Pushed lexer after token) ∨
      lexer.next logos sourceSize = none ∧ 2 ^ 32 ≤ sourceSize := by
  have hlarge {length : Nat} (h : 2 ^ 32 ≤ lexer.offset + utf8Size (lexer.remaining.take length)) :
      2 ^ 32 ≤ sourceSize := by
    have hsplit := congrArg utf8Size (List.take_append_drop length lexer.remaining)
    rw [utf8Size_append] at hsplit
    omega
  unfold Lexer.next
  rw [logos.choose_eq]
  cases hmunch : munch tokenPatterns lexer.remaining with
  | some found =>
      obtain ⟨kind, matched⟩ := found
      have ⟨bumped, hle, hbumped⟩ := bumped_callback hmunch hsize
      have hpositive := (munch_tokenPatterns hmunch).1
      dsimp only
      rcases hbumped with heq | ⟨heq, htoo⟩
      · rw [heq]
        show (∃ after token, (textRange lexer.offset (lexer.push kind (matched + bumped)).offset).bind _ = some after ∧ _) ∨
          (textRange lexer.offset (lexer.push kind (matched + bumped)).offset).bind _ = none ∧ _
        by_cases hfits : (lexer.push kind (matched + bumped)).offset < 2 ^ 32
        · left
          have hrange : textRange lexer.offset (lexer.push kind (matched + bumped)).offset = some _ :=
            textRange_eq_some (Nat.le_add_right _ _) hfits
          rw [hrange]
          refine ⟨_, _, rfl, pushed_push (by omega) hle hfits ?_ fun hproblem htrivia ↦ ?_⟩
          · rw [← List.append_assoc]
            exact .refl _
          · have hsplit := List.take_append_drop (matched + bumped) lexer.remaining
            have hcallback : callback lexer.offset sourceSize kind ((lexer.remaining.take (matched + bumped) ++
                lexer.remaining.drop (matched + bumped)).drop matched) = some (bumped, []) := by
              rw [hsplit, heq, Token.report, hproblem]
              rfl
            rw [← hsplit] at hmunch
            exact stands hmunch (by rw [List.length_take, Nat.min_eq_left hle]) hcallback htrivia
        · right
          rw [textRange_eq_none (Nat.not_lt.mp hfits)]
          exact ⟨rfl, hlarge (Nat.not_lt.mp hfits)⟩
      · right
        rw [heq]
        exact ⟨rfl, hlarge htoo⟩
  | none =>
      have hpositive := logos.positive lexer.remaining hremaining
      have hle := logos.within lexer.remaining
      dsimp only
      by_cases hfits : (lexer.push .errorToken (logos.errorLength lexer.remaining)).offset < 2 ^ 32
      · left
        have hrange : textRange lexer.offset (lexer.push .errorToken (logos.errorLength lexer.remaining)).offset =
            some _ := textRange_eq_some (Nat.le_add_right _ _) hfits
        rw [hrange]
        refine ⟨_, _, rfl, pushed_push hpositive hle hfits ?_ nofun⟩
        rw [List.append_assoc, List.append_assoc]
        exact List.Perm.append_left _ List.perm_append_comm
      · right
        rw [textRange_eq_none (Nat.not_lt.mp hfits)]
        exact ⟨rfl, hlarge (Nat.not_lt.mp hfits)⟩

/-! ## 6. Files -/

/-- What the lexer has done so far. -/
structure Lexer.Covers (source : String) (lexer : Lexer) : Prop where
  text : lexer.tokens.flatMap (fun token ↦ token.text.toList) ++ lexer.remaining = source.toList
  offset : lexer.offset = size lexer.tokens
  fits : lexer.offset < 2 ^ 32
  nonempty : ∀ token ∈ lexer.tokens, token.text ≠ ""
  reports : (lexer.errors ++ lexer.extras).Perm (diagnostics 0 lexer.tokens)
  stands : ∀ token ∈ lexer.tokens, token.problem = none → token.isTrivia = false → token.Stands

theorem utf8Size_toList (text : String) : utf8Size text.toList = text.utf8ByteSize := by
  unfold utf8Size
  rw [String.ofList_toList]

theorem utf8Size_tokens (tokens : List Token) : utf8Size (tokens.flatMap fun token ↦ token.text.toList) = size tokens := by
  induction tokens with
  | nil => rfl
  | cons token tokens ih =>
      rw [List.flatMap_cons, utf8Size_append, ih, utf8Size_toList]
      rfl

theorem Lexer.Covers.size (h : lexer.Covers source) :
    source.utf8ByteSize = lexer.offset + utf8Size lexer.remaining := by
  rw [← utf8Size_toList, ← h.text, utf8Size_append, utf8Size_tokens, h.offset]

theorem Lexer.Covers.next (h : lexer.Covers source) (hpushed : Pushed lexer after token) : after.Covers source where
  text := by
    have htext := h.text
    rw [hpushed.remaining, ← List.append_assoc] at htext
    rw [hpushed.tokens, List.flatMap_append, List.flatMap_singleton]
    exact htext
  offset := by
    rw [hpushed.offset, hpushed.tokens, size_append, h.offset]
    rfl
  fits := hpushed.fits
  nonempty := by
    intro token' hmem
    rw [hpushed.tokens] at hmem
    cases List.mem_append.mp hmem with
    | inl hold => exact h.nonempty token' hold
    | inr hnew => exact List.mem_singleton.mp hnew ▸ hpushed.nonempty
  reports := by
    refine hpushed.reports.trans ?_
    rw [hpushed.tokens, diagnostics_append, h.offset, Nat.zero_add]
    show List.Perm _ (diagnostics 0 lexer.tokens ++ (token.report (Source.size lexer.tokens) ++ []))
    rw [List.append_nil]
    exact h.reports.append_right _
  stands := by
    intro token' hmem
    rw [hpushed.tokens] at hmem
    cases List.mem_append.mp hmem with
    | inl hold => exact h.stands token' hold
    | inr hnew => exact List.mem_singleton.mp hnew ▸ hpushed.stands

theorem loop_cases (logos : Logos) (passes : Nat) (h : lexer.Covers source) (hpasses : lexer.remaining.length ≤ passes) :
    (∃ final, Lexer.loop logos source.utf8ByteSize passes lexer = some final ∧ final.Covers source ∧
        final.remaining = []) ∨
      Lexer.loop logos source.utf8ByteSize passes lexer = none ∧ 2 ^ 32 ≤ source.utf8ByteSize := by
  induction passes generalizing lexer with
  | zero =>
      have hempty := List.eq_nil_of_length_eq_zero (Nat.le_zero.mp hpasses)
      left
      exact ⟨lexer, if_pos (List.isEmpty_iff.mpr hempty), h, hempty⟩
  | succ passes ih =>
      unfold Lexer.loop
      by_cases hempty : lexer.remaining = []
      · left
        exact ⟨lexer, if_pos (List.isEmpty_iff.mpr hempty), h, hempty⟩
      rw [if_neg (by rw [List.isEmpty_iff]; exact hempty)]
      rcases next_cases hempty h.size with ⟨after, token, heq, hpushed⟩ | ⟨heq, hlarge⟩
      · rw [heq]
        refine ih (h.next hpushed) ?_
        have hlength := congrArg List.length hpushed.remaining
        have hpositive : token.text.toList.length ≠ 0 := fun hzero ↦
          hpushed.nonempty (String.toList_inj.mp (List.eq_nil_of_length_eq_zero hzero))
        rw [List.length_append] at hlength
        omega
      · right
        rw [heq]
        exact ⟨rfl, hlarge⟩

/-- What the lexer returns: the file cut into pieces, and the errors of the pieces in order. -/
structure Lexed.Faithful (lexed : Lexed) (source : String) : Prop where
  text : String.join (lexed.tokens.map Token.text) = source
  nonempty : ∀ token ∈ lexed.tokens, token.text ≠ ""
  errors : lexed.errors = diagnostics 0 lexed.tokens
  stands : ∀ token ∈ lexed.tokens, token.problem = none → token.isTrivia = false → token.Stands

theorem mem_report {error : ParseError} (h : error ∈ token.report first) : error.range.start = first := by
  unfold Token.report at h
  rw [Option.mem_toList] at h
  have ⟨message, _, heq⟩ := Option.map_eq_some_iff.mp h
  rw [← heq]

theorem mem_diagnostics {tokens : List Token} {error : ParseError} (h : error ∈ diagnostics first tokens) :
    first ≤ error.range.start := by
  induction tokens generalizing first with
  | nil => cases h
  | cons token tokens ih =>
      cases List.mem_append.mp h with
      | inl hown => exact (mem_report hown).ge
      | inr hlater =>
          have hle := ih hlater
          omega

theorem pairwise_diagnostics {tokens : List Token} (hnonempty : ∀ token ∈ tokens, token.text ≠ "") (first : Nat) :
    (diagnostics first tokens).Pairwise fun error error' ↦ error.range.start < error'.range.start := by
  induction tokens generalizing first with
  | nil => exact .nil
  | cons token tokens ih =>
      refine List.pairwise_append.mpr ⟨?_, ih (fun token' h ↦ hnonempty token' (List.mem_cons_of_mem _ h)) _, ?_⟩
      · -- a token has one error at most
        unfold Token.report
        cases token.problem with
        | none => exact .nil
        | some message => exact List.pairwise_singleton _ _
      · intro error herror error' herror'
        have hfirst := mem_report herror
        have hlater := mem_diagnostics herror'
        have hpositive : token.size ≠ 0 := fun hzero ↦
          hnonempty token List.mem_cons_self (String.utf8ByteSize_eq_zero_iff.mp hzero)
        omega

theorem mergeSort_diagnostics {tokens : List Token} {errors : List ParseError}
    (hnonempty : ∀ token ∈ tokens, token.text ≠ "") (hperm : errors.Perm (diagnostics 0 tokens)) :
    errors.mergeSort (fun error error' ↦ error.range.start ≤ error'.range.start) = diagnostics 0 tokens := by
  have hordered := pairwise_diagnostics hnonempty 0
  refine List.Perm.eq_of_pairwise (fun error error' hmem hmem' hle hge ↦ ?_) (pairwise_mergeSort errors)
    (hordered.imp Nat.le_of_lt) ((List.mergeSort_perm _ _).trans hperm)
  -- no two errors begin at the same place
  have hstarts : ((diagnostics 0 tokens).map fun error ↦ error.range.start).Nodup :=
    List.pairwise_map.mpr (hordered.imp Nat.ne_of_lt)
  exact List.inj_on_of_nodup_map hstarts (hperm.subset (List.mem_mergeSort.mp hmem)) hmem' (Nat.le_antisymm hle hge)

theorem lex_cases (logos : Logos) (source : String) :
    (∃ lexed, lex logos source = some lexed ∧ lexed.Faithful source ∧ source.utf8ByteSize < 2 ^ 32) ∨
      lex logos source = none ∧ 2 ^ 32 ≤ source.utf8ByteSize := by
  have hstart : Lexer.Covers source { remaining := source.toList } :=
    ⟨rfl, rfl, (by decide : (0 : Nat) < 2 ^ 32), nofun, .refl _, nofun⟩
  unfold lex
  rcases loop_cases logos source.toList.length hstart (Nat.le_refl _) with
    ⟨final, hloop, hcovers, hempty⟩ | ⟨hloop, hlarge⟩
  · left
    have hsize := hcovers.size
    rw [hempty] at hsize
    have htext := hcovers.text
    rw [hempty, List.append_nil] at htext
    rw [hloop]
    refine ⟨_, rfl, ⟨?_, hcovers.nonempty, mergeSort_diagnostics hcovers.nonempty hcovers.reports,
      hcovers.stands⟩, hsize ▸ hcovers.fits⟩
    rw [← String.toList_inj, ← htext, String.toList_join, List.flatMap_map]
  · right
    rw [hloop]
    exact ⟨rfl, hlarge⟩

/-- From a text to its tree and back: a file of less than 4 GiB is never refused and the builder never
stops the program; the leaves of the tree spell the file, and the errors are those of the leaves and those
of the parser. -/
theorem parseText_faithful [Rowan] (logos : Logos) (passes : Nat) (source : String) :
    (parseText logos passes source = none ↔ 2 ^ 32 ≤ source.utf8ByteSize) ∧
      parseText logos passes source ≠ some (.error .panic) ∧
      ∀ parsed, parseText logos passes source = some (.ok parsed) →
        String.join (parsed.green.tokens.map Token.text) = source ∧
          (∀ token ∈ parsed.green.tokens, token.text ≠ "") ∧
          ∃ found, parsed.errors.Perm (diagnostics 0 parsed.green.tokens ++ found) ∧
            ∀ error ∈ found, Located parsed.green.tokens error.range := by
  unfold parseText
  rcases lex_cases logos source with ⟨lexed, hlex, hlexed, hfits⟩ | ⟨hlex, hlarge⟩
  · rw [hlex]
    refine ⟨⟨nofun, fun h ↦ absurd hfits (Nat.not_lt.mpr h)⟩, ?_⟩
    rcases parse_cases passes lexed.tokens lexed.errors with ⟨parsed, heq, hparsed⟩ | heq
    · have ⟨found, hperm, hlocated⟩ := hparsed.complete
      rw [Option.map_some, heq]
      refine ⟨nofun, fun parsed' h ↦ ?_⟩
      cases h
      rw [hparsed.lossless, ← hlexed.errors]
      exact ⟨hlexed.text, hlexed.nonempty, found, hperm, hlocated⟩
    · rw [Option.map_some, heq]
      exact ⟨nofun, nofun⟩
  · rw [hlex]
    exact ⟨⟨fun _ ↦ hlarge, fun _ ↦ rfl⟩, nofun, nofun⟩

/-! ## 7. Layouts -/

/-- Tokens and the blanks behind each. -/
abbrev Layout := List (Token × List Char)

namespace Layout

def letters (layout : Layout) : List Char := layout.flatMap fun entry ↦ entry.1.text.toList ++ entry.2

def tokens (layout : Layout) : List Token :=
  layout.flatMap fun entry ↦ [entry.1, ⟨.whitespace, String.ofList entry.2⟩]

/-- Something blank stands behind each token. -/
def Spaced (layout : Layout) : Prop :=
  ∀ entry ∈ layout, entry.2 ≠ [] ∧ ∀ letter ∈ entry.2, letter ∈ blankLetters

end Layout

/-- A pass over the pieces that the lexer takes without an error. -/
theorem next_eq (logos : Logos) {word rest : List Char} {matched bumped : Nat} (hremaining : lexer.remaining = word ++ rest)
    (hmunch : munch tokenPatterns (word ++ rest) = some (kind, matched)) (hlength : matched + bumped = word.length)
    (hcallback : callback lexer.offset sourceSize kind ((word ++ rest).drop matched) = some (bumped, []))
    (hfits : lexer.offset + utf8Size word < 2 ^ 32) :
    lexer.next logos sourceSize = some { lexer with
      remaining := rest, offset := lexer.offset + utf8Size word
      tokens := lexer.tokens ++ [⟨kind, String.ofList word⟩] } := by
  have hpush : lexer.push kind (matched + bumped) = { lexer with
      remaining := rest, offset := lexer.offset + utf8Size word
      tokens := lexer.tokens ++ [⟨kind, String.ofList word⟩] } := by
    unfold Lexer.push
    rw [hlength, hremaining, List.take_left, List.drop_left]
  have hrange : textRange lexer.offset (lexer.push kind (matched + bumped)).offset = some _ :=
    textRange_eq_some (by rw [hpush]; exact Nat.le_add_right _ _) (by rw [hpush]; exact hfits)
  unfold Lexer.next
  rw [logos.choose_eq, hremaining, hmunch]
  dsimp only
  rw [hcallback]
  show (textRange lexer.offset (lexer.push kind (matched + bumped)).offset).bind
    (fun _ ↦ some { lexer.push kind (matched + bumped) with extras := lexer.extras ++ [] }) = _
  rw [hrange, hpush, List.append_nil]
  rfl

theorem loop_succ {passes : Nat} (hremaining : lexer.remaining ≠ []) (hnext : lexer.next logos sourceSize = some after) :
    Lexer.loop logos sourceSize (passes + 1) lexer = Lexer.loop logos sourceSize passes after := by
  show (if lexer.remaining.isEmpty then some lexer else (lexer.next logos sourceSize).bind _) = _
  rw [if_neg (by rw [List.isEmpty_iff]; exact hremaining), hnext]
  rfl

theorem Layout.letters_cons (token : Token) (word : List Char) (layout : Layout) :
    Layout.letters ((token, word) :: layout) = token.text.toList ++ (word ++ layout.letters) :=
  List.append_assoc _ _ _

/-- Behind the blanks a token begins, or the file ends. -/
theorem Layout.solid_letters {layout : Layout} (hstands : ∀ entry ∈ layout, entry.1.Stands) {letter : Char}
    {tail : List Char} (h : layout.letters = letter :: tail) : letter ∉ blankLetters := by
  cases layout with
  | nil => cases h
  | cons entry layout =>
      have ⟨first, rest, htext, hsolid⟩ := (hstands entry List.mem_cons_self).solid
      rw [show entry = (entry.1, entry.2) from rfl, Layout.letters_cons, htext] at h
      cases h
      exact hsolid

theorem loop_layout (layout : Layout) (hstands : ∀ entry ∈ layout, entry.1.Stands) (hspaced : layout.Spaced)
    {passes : Nat} (hremaining : lexer.remaining = layout.letters)
    (hfits : lexer.offset + utf8Size layout.letters < 2 ^ 32) (hpasses : layout.letters.length ≤ passes) :
    Lexer.loop logos sourceSize passes lexer = some { lexer with
      remaining := [], offset := lexer.offset + utf8Size layout.letters
      tokens := lexer.tokens ++ layout.tokens } := by
  induction layout generalizing lexer passes with
  | nil =>
      have hempty : lexer.remaining = [] := hremaining
      have hsame : lexer = { lexer with
          remaining := [], offset := lexer.offset + utf8Size (Layout.letters [])
          tokens := lexer.tokens ++ Layout.tokens [] } := by
        show lexer = { lexer with remaining := [], offset := lexer.offset + 0, tokens := lexer.tokens ++ [] }
        rw [List.append_nil, Nat.add_zero, ← hempty]
      cases passes <;> exact (if_pos (List.isEmpty_iff.mpr hempty)).trans (congrArg some hsame)
  | cons entry layout ih =>
      obtain ⟨token, word⟩ := entry
      have htoken := hstands _ List.mem_cons_self
      have ⟨hword, hblank⟩ := hspaced _ List.mem_cons_self
      rw [Layout.letters_cons] at hremaining hfits hpasses ⊢
      rw [utf8Size_append, utf8Size_append] at hfits ⊢
      have ⟨letter, tail, htext, _⟩ := htoken.solid
      -- the pass that takes the token
      have hfirst : ∃ lexer₁, lexer.next logos sourceSize = some lexer₁ ∧ lexer₁ = { lexer with
          remaining := word ++ Layout.letters layout, offset := lexer.offset + utf8Size token.text.toList
          tokens := lexer.tokens ++ [token] } := by
        cases word with
        | nil => exact absurd rfl hword
        | cons blank blanks =>
            have ⟨matched, bumped, hmunch, hlength, hcallback⟩ :=
              htoken.again blank (hblank blank List.mem_cons_self) lexer.offset sourceSize (blanks ++ Layout.letters layout)
            have hnext := next_eq logos hremaining hmunch hlength hcallback (by omega)
            rw [String.ofList_toList] at hnext
            exact ⟨_, hnext, rfl⟩
      have ⟨lexer₁, hnext₁, heq₁⟩ := hfirst
      -- the pass that takes the blanks behind it
      have hsecond : lexer₁.next logos sourceSize = some { lexer₁ with
          remaining := Layout.letters layout, offset := lexer₁.offset + utf8Size word
          tokens := lexer₁.tokens ++ [⟨.whitespace, String.ofList word⟩] } := by
        have hmunch := munch_blanks hword hblank fun letter tail h ↦
          Layout.solid_letters (fun entry h ↦ hstands entry (List.mem_cons_of_mem _ h)) h
        refine next_eq logos (by rw [heq₁]) hmunch (Nat.add_zero _) rfl ?_
        rw [heq₁]
        show lexer.offset + utf8Size token.text.toList + utf8Size word < 2 ^ 32
        omega
      rw [htext, List.length_append, List.length_cons, List.length_append] at hpasses
      have hwordLength : word.length ≠ 0 := fun hzero ↦ hword (List.eq_nil_of_length_eq_zero hzero)
      obtain ⟨passes, rfl⟩ : ∃ passes', passes = passes' + 1 + 1 := ⟨passes - 2, by omega⟩
      rw [loop_succ (by rw [hremaining, htext]; exact List.cons_ne_nil _ _) hnext₁,
        loop_succ (by rw [heq₁]; exact List.append_ne_nil_of_left_ne_nil hword _) hsecond]
      rw [ih (fun entry h ↦ hstands entry (List.mem_cons_of_mem _ h)) (fun entry h ↦ hspaced entry (List.mem_cons_of_mem _ h))
        rfl (by rw [heq₁]; show lexer.offset + _ + _ + _ < 2 ^ 32; omega) (by omega), heq₁]
      dsimp only
      rw [List.append_assoc, List.append_assoc, Nat.add_assoc, Nat.add_assoc]
      rfl

theorem lex_layout (logos : Logos) {layout : Layout} (hstands : ∀ entry ∈ layout, entry.1.Stands)
    (hspaced : layout.Spaced) (hfits : utf8Size layout.letters < 2 ^ 32) :
    lex logos (String.ofList layout.letters) = some ⟨layout.tokens, []⟩ := by
  unfold lex
  rw [String.toList_ofList, loop_layout layout hstands hspaced rfl (by rw [Nat.zero_add]; exact hfits) (Nat.le_refl _)]
  show some (Lexed.mk layout.tokens ([].mergeSort _)) = _
  rw [List.mergeSort_nil]

theorem problem_of_diagnostics {tokens : List Token} (h : diagnostics first tokens = []) :
    ∀ token ∈ tokens, token.problem = none := by
  induction tokens generalizing first with
  | nil => exact nofun
  | cons token tokens ih =>
      have ⟨hreport, hrest⟩ := List.append_eq_nil_iff.mp h
      intro token' hmem
      cases List.mem_cons.mp hmem with
      | inr hlater => exact ih hrest token' hlater
      | inl heq =>
          subst heq
          unfold Token.report at hreport
          cases hproblem : token'.problem with
          | none => rfl
          | some message =>
              rw [hproblem] at hreport
              cases hreport

theorem Layout.solid_tokens {layout : Layout} (hsolid : ∀ entry ∈ layout, entry.1.isTrivia = false) :
    layout.tokens.filter (fun token ↦ !token.isTrivia) = layout.map Prod.fst := by
  show (layout.flatMap fun entry ↦ [entry.1, ⟨.whitespace, String.ofList entry.2⟩]).filter _ = _
  rw [List.filter_flatMap, ← List.flatMap_singleton' (layout.map Prod.fst), List.flatMap_map]
  refine List.flatMap_congr fun entry hentry ↦ ?_
  rw [List.filter_cons, if_pos (by rw [hsolid entry hentry]; rfl)]
  rfl

/-- The tokens of a file without an error are lexed again, and nothing but the blanks between them. -/
theorem lex_again (logos : Logos) {source : String} {lexed : Lexed} {layout : Layout}
    (h : lex logos source = some lexed) (herrors : lexed.errors = [])
    (htokens : layout.map Prod.fst = lexed.tokens.filter fun token ↦ !token.isTrivia) (hspaced : layout.Spaced)
    (hfits : utf8Size layout.letters < 2 ^ 32) :
    lex logos (String.ofList layout.letters) = some ⟨layout.tokens, []⟩ ∧
      layout.tokens.filter (fun token ↦ !token.isTrivia) = layout.map Prod.fst := by
  rcases lex_cases logos source with ⟨lexed', heq, hfaithful, _⟩ | ⟨heq, _⟩
  · rw [h] at heq
    cases heq
    have hproblem := problem_of_diagnostics (hfaithful.errors.symm.trans herrors)
    have hsolid : ∀ entry ∈ layout, entry.1 ∈ lexed.tokens ∧ entry.1.isTrivia = false := by
      intro entry hentry
      have hmem : entry.1 ∈ layout.map Prod.fst := List.mem_map_of_mem hentry
      rw [htokens, List.mem_filter] at hmem
      exact ⟨hmem.1, Bool.not_eq_true' _ ▸ hmem.2⟩
    have hstands : ∀ entry ∈ layout, entry.1.Stands := fun entry hentry ↦
      hfaithful.stands entry.1 (hsolid entry hentry).1 (hproblem entry.1 (hsolid entry hentry).1) (hsolid entry hentry).2
    exact ⟨lex_layout logos hstands hspaced hfits, Layout.solid_tokens fun entry hentry ↦ (hsolid entry hentry).2⟩
  · rw [h] at heq
    cases heq

/-- Layout does not matter: the tokens of a file that lexes without an error, written down again with any
blanks between them, are lexed as the same tokens. -/
theorem layout_irrelevant (logos : Logos) {source : String} {lexed : Lexed} {layout : Layout}
    (h : lex logos source = some lexed) (herrors : lexed.errors = [])
    (htokens : layout.map Prod.fst = lexed.tokens.filter fun token ↦ !token.isTrivia) (hspaced : layout.Spaced)
    (hfits : utf8Size layout.letters < 2 ^ 32) :
    ∃ lexed', lex logos (String.ofList layout.letters) = some lexed' ∧ lexed'.errors = [] ∧
      lexed'.tokens.filter (fun token ↦ !token.isTrivia) = lexed.tokens.filter fun token ↦ !token.isTrivia := by
  have ⟨hlex, hsolid⟩ := lex_again logos h herrors htokens hspaced hfits
  exact ⟨_, hlex, rfl, hsolid.trans htokens⟩

/-- Where nothing matches, one letter is read. -/
def oneLetter : Logos where
  choose := munch tokenPatterns
  chooses := chooses_munch tokenPatterns
  errorLength letters := min 1 letters.length
  positive letters h := by
    have hlength : letters.length ≠ 0 := fun hzero ↦ h (List.eq_nil_of_length_eq_zero hzero)
    omega
  within _ := Nat.min_le_right _ _

/-- `x+=1;// up` -/
def increment : Lexed :=
  ⟨[⟨.identifier, "x"⟩, ⟨.plusEq, "+="⟩, ⟨.integer, "1"⟩, ⟨.semicolon, ";"⟩, ⟨.lineComment, "// up"⟩], []⟩

/-- The same with a token on each line. -/
def incrementLines : Layout :=
  [(⟨.identifier, "x"⟩, ['\n']), (⟨.plusEq, "+="⟩, ['\n']), (⟨.integer, "1"⟩, ['\n']), (⟨.semicolon, ";"⟩, ['\n'])]

/-- Blanks behind each token, as a test. -/
theorem Layout.spaced_of_all {layout : Layout}
    (h : layout.all (fun entry ↦ !entry.2.isEmpty && entry.2.all blankLetters.contains) = true) : layout.Spaced := by
  intro entry hentry
  have hboth := List.all_eq_true.mp h entry hentry
  rw [Bool.and_eq_true, Bool.not_eq_true'] at hboth
  refine ⟨fun hempty ↦ ?_, fun letter hletter ↦ ?_⟩
  · rw [hempty] at hboth
    cases hboth.1
  · exact List.contains_iff_mem.mp (List.all_eq_true.mp hboth.2 letter hletter)

theorem layout_irrelevant_increment :
    ∃ lexed', lex oneLetter (String.ofList incrementLines.letters) = some lexed' ∧ lexed'.errors = [] ∧
      lexed'.tokens.filter (fun token ↦ !token.isTrivia) =
        increment.tokens.filter fun token ↦ !token.isTrivia :=
  layout_irrelevant oneLetter (by decide +kernel : lex oneLetter "x+=1;// up" = some increment) rfl (by decide)
    (Layout.spaced_of_all (by decide)) (by decide)

end Stainless.Syntax.Source
