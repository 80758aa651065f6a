import Stainless.Syntax.Precedence
import Stainless.Syntax.Trivia

/-!
# Expressions in source files

On tokens without blanks and comments the parser of source files does what the parser of expressions
does.  So it reads an expression back from the tokens that it is written with.
-/

open Reasoning

namespace Stainless.Syntax.Source

/-! ## 1. One state and the other -/

/-- The two parsers have the same in front of them and behind them, and no blanks or comments are left. -/
structure Shows (source : Parser) (parser : Syntax.Parser) : Prop where
  solid : ∀ token ∈ source.rest, token.isTrivia = false
  tokens : source.rest = parser.tokens
  parents : source.parents = parser.parents
  children : source.children = parser.children
  errors : source.errors.map ParseError.message = parser.errors

namespace Shows

variable {source : Parser} {parser : Syntax.Parser}

theorem significant (h : Shows source parser) : source.significant = parser.tokens := by
  rw [← h.tokens, Parser.significant, List.filter_eq_self]
  intro token htoken
  rw [h.solid token htoken]
  rfl

theorem eatTrivia (h : Shows source parser) : source.eatTrivia = source := by
  have hnone : source.trivia = [] := by
    rw [Parser.trivia]
    cases hrest : source.rest with
    | nil => rfl
    | cons token rest =>
        rw [List.takeWhile_cons_of_neg]
        rw [h.solid token (by rw [hrest]; exact List.mem_cons_self)]
        exact Bool.false_ne_true
  rw [Parser.eatTrivia, hnone]
  rfl

theorem ahead (h : Shows source parser) : source.ahead = parser.tokens.map Token.kind := by
  rw [Parser.ahead, h.significant]

theorem nth (h : Shows source parser) (offset : Nat) : source.nth offset = parser.nth offset := by
  rw [Parser.nth, h.ahead, Syntax.Parser.nth, List.getElem?_map]

theorem current (h : Shows source parser) : source.current = parser.current := by
  rw [Parser.current, h.ahead, Syntax.Parser.current, Syntax.Parser.nth, List.head?_eq_getElem?, List.getElem?_map]

theorem isAt (h : Shows source parser) (kind : SyntaxKind) : source.isAt kind = parser.isAt kind := by
  rw [Parser.isAt, h.current, Syntax.Parser.isAt]

theorem atAny (h : Shows source parser) (kinds : List SyntaxKind) : source.atAny kinds = parser.atAny kinds := by
  rw [Parser.atAny, h.current, Syntax.Parser.atAny]

theorem atEnd (h : Shows source parser) : source.atEnd = parser.atEnd := by
  rw [Parser.atEnd, h.current, Syntax.Parser.atEnd]

theorem currentText (h : Shows source parser) : source.currentText = parser.currentText := by
  rw [Parser.currentText, h.significant, Syntax.Parser.currentText]

/-- The one look ahead gives the kinds behind the bracket, the other one their place. -/
theorem skipBalancedAngles_eq (tokens : List Token) (depth offset : Nat) :
    Parser.skipBalancedAngles (tokens.map Token.kind) depth = none ∧
        Syntax.Parser.skipBalancedAngles tokens depth offset = none ∨
      ∃ taken, Parser.skipBalancedAngles (tokens.map Token.kind) depth =
          some ((tokens.drop taken).map Token.kind) ∧
        Syntax.Parser.skipBalancedAngles tokens depth offset = some (offset + taken) := by
  induction tokens generalizing depth offset with
  | nil => exact .inl ⟨rfl, rfl⟩
  | cons token tokens ih =>
      have hbehind {kinds : Option (List SyntaxKind)} {place : Option Nat} (h : kinds = none ∧ place = none ∨
          ∃ taken, kinds = some ((tokens.drop taken).map Token.kind) ∧ place = some (offset + 1 + taken)) :
          kinds = none ∧ place = none ∨ ∃ taken, kinds = some (((token :: tokens).drop taken).map Token.kind) ∧
            place = some (offset + taken) := by
        refine h.imp id fun ⟨taken, hkinds, hplace⟩ ↦ ⟨taken + 1, hkinds, ?_⟩
        rw [hplace, Nat.add_assoc, Nat.add_comm 1]
      rw [List.map_cons, Syntax.Parser.skipBalancedAngles]
      split
      · rename_i hkind
        rw [hkind, Parser.skipBalancedAngles]
        exact hbehind (ih (depth + 1) (offset + 1))
      · rename_i hkind
        rw [hkind, Parser.skipBalancedAngles]
        by_cases hlast : depth - 1 = 0
        · rw [if_pos hlast, if_pos hlast]
          exact .inr ⟨1, rfl, rfl⟩
        · rw [if_neg hlast, if_neg hlast]
          exact hbehind (ih (depth - 1) (offset + 1))
      · rename_i hless hgreater
        rw [Parser.skipBalancedAngles]
        · exact hbehind (ih depth (offset + 1))
        · exact hless
        · exact hgreater

theorem lambdaAfter_eq (tokens : List Token) (depth : Nat) :
    Parser.lambdaAfter (tokens.map Token.kind) depth = Syntax.Parser.lambdaAfter tokens depth := by
  induction tokens generalizing depth with
  | nil => rfl
  | cons token tokens ih =>
      rw [List.map_cons, Syntax.Parser.lambdaAfter]
      split
      · rename_i hkind
        rw [hkind, Parser.lambdaAfter, ih]
      · rename_i hkind
        rw [hkind, Parser.lambdaAfter, ih, List.head?_map]
      · rename_i hopens hcloses
        rw [Parser.lambdaAfter]
        · exact ih depth
        · exact hopens
        · exact hcloses

theorem genericArguments (h : Shows source parser) :
    source.genericArgumentsAreFollowedByConstruction = parser.genericArgumentsAreFollowedByConstruction := by
  rw [Parser.genericArgumentsAreFollowedByConstruction, h.ahead,
    Syntax.Parser.genericArgumentsAreFollowedByConstruction]
  rcases skipBalancedAngles_eq parser.tokens 0 0 with ⟨hkinds, hplace⟩ | ⟨taken, hkinds, hplace⟩
  · rw [hkinds, hplace]
  · rw [hkinds, hplace, Nat.zero_add]
    dsimp only
    have hhead : parser.nth taken = ((parser.tokens.drop taken).map Token.kind).head? := by
      rw [Syntax.Parser.nth, List.head?_map, List.head?_drop]
    rw [hhead]
    cases hkind : (parser.tokens.drop taken).map Token.kind with
    | nil => rfl
    | cons kind kinds => cases kind <;> rfl

theorem looksLikeLambda (h : Shows source parser) : source.looksLikeLambda = parser.looksLikeLambda := by
  rw [Parser.looksLikeLambda, h.isAt, h.ahead, lambdaAfter_eq, Syntax.Parser.looksLikeLambda]

theorem switchPattern (h : Shows source parser) :
    source.switchPatternAlternativeStartsHere = parser.switchPatternAlternativeStartsHere := by
  rw [Parser.switchPatternAlternativeStartsHere, h.current, h.isAt, h.nth,
    Syntax.Parser.switchPatternAlternativeStartsHere]

theorem infixBindingPower (h : Shows source parser) :
    Source.infixBindingPower source.current = parser.current.bind Syntax.Parser.infixBindingPower := by
  rw [h.current]
  cases parser.current with
  | none => rfl
  | some kind => cases kind <;> rfl

end Shows

/-! ## 2. Without blanks and comments -/

section

variable {entry : Entry} {left : Nat} {source : Parser}

/-- The tokens that are left, without blanks and comments, as if nothing around them was open. -/
def Parser.bared (source : Parser) : Parser where
  rest := source.significant
  position := (leaves source.children).length
  offset := size (leaves source.children)
  children := source.children

theorem significant_bared (source : Parser) : source.bared.significant = source.significant :=
  solid_solid source.rest

theorem at_bared (h : entry.At 0 left source) :
    Entry.At ⟨leaves source.children ++ source.significant, [], [], source.children⟩ 0 left source.bared where
  keeps := {
    text := rfl
    position := rfl
    offset := rfl
    errors := ⟨[], rfl, nofun⟩
    tidy := h.keeps.tidy
    framed := trivial
    leads := nofun }
  parents := ⟨[], rfl, rfl, nofun⟩
  children := ⟨[], (List.append_nil _).symm⟩
  framed := trivial
  left := (List.length_filter_le _ _).trans h.left

theorem sides_bared (h : entry.At 0 left source) (hquiet : Quiet source) :
    Sides.At ⟨leaves source.children ++ source.significant, entry.file, [], source.parents, source.children,
      source.children⟩ 0 left source.bared source where
  significant := significant_bared source
  rest := List.drop_left.symm
  rest' := by rw [h.keeps.position, ← h.keeps.text, List.drop_left]
  quiet := rfl
  quiet' := hquiet
  trees := rfl
  bases := rfl
  built := ⟨[], (List.append_nil _).symm⟩
  built' := ⟨[], (List.append_nil _).symm⟩
  framed := trivial
  framed' := h.keeps.framed
  parents := ⟨[], [], rfl, rfl, rfl, .nil⟩
  left := by
    rw [significant_bared]
    exact (List.length_filter_le _ _).trans h.left

theorem shows_bared (source : Parser) :
    Shows source.bared { tokens := source.significant, children := source.children } where
  solid token htoken := by simpa using (List.mem_filter.mp htoken).2
  tokens := rfl
  parents := rfl
  children := rfl
  errors := rfl

end

/-! ## 3. One routine and the other -/

variable {parser next : Syntax.Parser} {routine rest yes no element : Parse Unit} {test : Parser → Bool}
  {result result' : Option Syntax.Parser}

/-- Where both return, they come to the same state. -/
def Agrees (parser : Syntax.Parser) (routine : Parse Unit) (result : Option Syntax.Parser) : Prop :=
  ∀ source source', Shows source parser → routine source = .ok () source' → ∀ next ∈ result, Shows source' next

namespace Agrees

theorem no_result : Agrees parser routine none := by
  intro source source' h hrun next hnext
  cases hnext

theorem nothing : Agrees parser (pure ()) (some parser) := by
  intro source source' h hrun next hnext
  cases hrun
  cases hnext
  exact h

theorem and_then {f : Syntax.Parser → Option Syntax.Parser} (h : Agrees parser routine result)
    (hrest : ∀ next, Agrees next rest (f next)) : Agrees parser (do routine; rest) (result >>= f) := by
  intro source source' hsource hrun last hlast
  obtain ⟨_, middle, hroutine, hrun⟩ := bind_eq_ok.mp hrun
  obtain ⟨next, hnext, hlast⟩ := Option.bind_eq_some_iff.mp hlast
  exact hrest next middle source' (h source middle hsource hroutine next hnext) hrun last hlast

/-- The other parser does its part without a bound. -/
theorem step (h : Agrees parser routine (some next)) (hrest : Agrees next rest result) :
    Agrees parser (do routine; rest) result := by
  intro source source' hsource hrun
  obtain ⟨_, middle, hroutine, hrun⟩ := bind_eq_ok.mp hrun
  exact hrest middle source' (h source middle hsource hroutine next rfl) hrun

theorem grouped (h : Agrees parser (do routine; (do yes; rest)) result) :
    Agrees parser (do (do routine; yes); rest) result := by
  rwa [bind_assoc]

theorem read {k : Parser → Parse Unit} (h : ∀ source, Shows source parser → Agrees parser (k source) result) :
    Agrees parser (get >>= k) result :=
  fun source source' hsource hrun ↦ h source hsource source source' hsource hrun

theorem ite {c : Prop} [Decidable c] (hyes : Agrees parser yes result) (hno : Agrees parser no result') :
    Agrees parser (if c then yes else no) (if c then result else result') := by
  split
  · exact hyes
  · exact hno

theorem ite_then {c : Prop} [Decidable c] (hyes : Agrees parser (do yes; rest) result)
    (hno : Agrees parser (do no; rest) result') :
    Agrees parser ((if c then yes else no) >>= fun _ ↦ rest) (if c then result else result') := by
  split
  · exact hyes
  · exact hno

theorem whether {c : Bool} (htest : ∀ source, Shows source parser → test source = c)
    (hyes : Agrees parser yes result) (hno : Agrees parser no result') :
    Agrees parser (whether test yes no) (if c then result else result') := by
  intro source source' hsource hrun
  rw [Reasoning.whether, htest source hsource] at hrun
  cases c with
  | true => exact hyes source source' hsource hrun
  | false => exact hno source source' hsource hrun

/-- What follows a branch stands in the other parser at the end of each way. -/
theorem whether_then {c : Bool} (htest : ∀ source, Shows source parser → test source = c)
    (hyes : Agrees parser (do yes; rest) result) (hno : Agrees parser (do no; rest) result') :
    Agrees parser (do Reasoning.whether test yes no; rest) (if c then result else result') := by
  intro source source' hsource hrun
  obtain ⟨_, middle, hbranch, hrun⟩ := bind_eq_ok.mp hrun
  rw [Reasoning.whether, htest source hsource] at hbranch
  cases c with
  | true => exact hyes source source' hsource (bind_eq_ok.mpr ⟨(), middle, hbranch, hrun⟩)
  | false => exact hno source source' hsource (bind_eq_ok.mpr ⟨(), middle, hbranch, hrun⟩)

theorem choice {next' : Syntax.Parser} {c : Bool} (htest : ∀ source, Shows source parser → test source = c)
    (hyes : Agrees parser yes (some next)) (hno : Agrees parser no (some next')) :
    Agrees parser (Reasoning.whether test yes no) (some (if c then next else next')) := by
  rw [apply_ite some]
  exact .whether htest hyes hno

theorem provided {c : Bool} (htest : ∀ source, Shows source parser → test source = c)
    (h : Agrees parser routine (some next)) :
    Agrees parser (provided test routine) (some (if c then next else parser)) :=
  .choice htest h nothing

theorem whether_not {c : Bool} (htest : ∀ source, Shows source parser → test source = !c)
    (hno : Agrees parser no result) (hyes : Agrees parser yes result') :
    Agrees parser (Reasoning.whether test yes no) (if c then result else result') := by
  have h := Agrees.whether htest hyes hno
  cases c with
  | true => exact h
  | false => exact h

theorem provided_not {c : Bool} (htest : ∀ source, Shows source parser → test source = !c)
    (h : Agrees parser routine (some next)) :
    Agrees parser (Reasoning.provided test routine) (some (if c then parser else next)) := by
  rw [apply_ite some]
  exact .whether_not htest nothing h

theorem bump : Agrees parser Source.bump (some parser.bump) := by
  intro source source' h hrun next hnext
  cases hrun
  cases hnext
  show Shows source.eatTrivia.bumpRaw _
  rw [h.eatTrivia]
  obtain ⟨rest, position, offset, parents, children, errors⟩ := source
  obtain ⟨tokens, parents', children', errors'⟩ := parser
  obtain ⟨hsolid, rfl, rfl, rfl, rfl⟩ := h
  cases rest with
  | nil => exact ⟨hsolid, rfl, rfl, rfl, rfl⟩
  | cons token rest =>
      exact ⟨fun token' htoken ↦ hsolid token' (List.mem_cons_of_mem _ htoken), rfl, rfl, rfl, rfl⟩

theorem error {message : String} : Agrees parser (Source.error message) (some (parser.error message)) := by
  intro source source' h hrun next hnext
  cases hrun
  cases hnext
  refine ⟨h.solid, h.tokens, h.parents, h.children, ?_⟩
  rw [List.map_append, h.errors]
  rfl

theorem eat {kind : SyntaxKind} : Agrees parser (Source.eat kind) (some (parser.eat kind)) :=
  .provided (fun _ h ↦ h.isAt kind) bump

theorem expect {kind : SyntaxKind} {message : String} :
    Agrees parser (Source.expect kind message) (some (parser.expect kind message)) :=
  .choice (fun _ h ↦ h.isAt kind) bump error

theorem eatTrivia : Agrees parser Source.eatTrivia (some parser) := by
  intro source source' h hrun next hnext
  cases hrun
  cases hnext
  show Shows source.eatTrivia parser
  rw [h.eatTrivia]
  exact h

theorem checkpoint {k : Nat → Parse Unit} (h : Agrees parser (k parser.checkpoint) result) :
    Agrees parser (Source.checkpoint >>= k) result := by
  intro source source' hsource hrun
  have hrun : k source.children.length source = .ok () source' := hrun
  rw [hsource.children] at hrun
  exact h source source' hsource hrun

theorem start [Rowan] {kind : SyntaxKind} : Agrees parser (Source.start kind) (some (parser.start kind)) := by
  intro source source' h hrun next hnext
  have hrun : startNode kind source.eatTrivia = .ok () source' := hrun
  rw [h.eatTrivia, Rowan.startNode_eq] at hrun
  cases hrun
  cases hnext
  refine ⟨h.solid, h.tokens, ?_, h.children, h.errors⟩
  show (kind, source.children.length) :: source.parents = _
  rw [h.parents, h.children]
  rfl

theorem startNodeAt [Rowan] {checkpoint : Nat} {kind : SyntaxKind} :
    Agrees parser (Source.startNodeAt checkpoint kind) (some (parser.startNodeAt checkpoint kind)) := by
  intro source source' h hrun next hnext
  by_cases hvalid : source.Valid checkpoint
  · rw [Rowan.startNodeAt_opens checkpoint kind source hvalid] at hrun
    cases hrun
    cases hnext
    refine ⟨h.solid, h.tokens, ?_, h.children, h.errors⟩
    show (kind, checkpoint) :: source.parents = _
    rw [h.parents]
    rfl
  · rw [Rowan.startNodeAt_panics checkpoint kind source hvalid] at hrun
    cases hrun

theorem finish [Rowan] : Agrees parser Source.finish (some parser.finish) := by
  intro source source' h hrun next hnext
  cases hnext
  obtain ⟨kind, first, parents, hparents, rfl⟩ := finish_eq_ok hrun
  have hopen := h.parents
  rw [hparents] at hopen
  rw [Syntax.Parser.finish, ← hopen]
  refine ⟨h.solid, h.tokens, rfl, ?_, h.errors⟩
  rw [Parser.closed, h.children]

/-! ## 4. Loops -/

theorem tokens_bump (parser : Syntax.Parser) : parser.bump.tokens = parser.tokens.tail := by
  rw [Syntax.Parser.bump]
  cases hnext : parser.tokens with
  | nil => exact hnext
  | cons token tokens => rfl

theorem length_expect_le (parser : Syntax.Parser) (kind : SyntaxKind) (message : String) :
    (parser.expect kind message).tokens.length ≤ parser.tokens.length := by
  rw [Syntax.Parser.expect]
  split
  · rw [tokens_bump, List.length_tail]
    exact Nat.sub_le _ _
  · exact Nat.le_refl _

/-- Every pass takes a token, so that one for each of them is enough. -/
theorem segments {message : String} {left : Nat} (hleft : parser.tokens.length ≤ left) (budget : Nat) :
    Agrees parser (Source.segments (Source.expect .identifier message) budget)
      (some (Syntax.Parser.segments message left parser)) := by
  induction budget generalizing parser left with
  | zero =>
      intro source source' h hrun
      cases hrun
  | succ budget ih =>
      have hstop (source : Parser) (h : Shows source parser) :
          (!source.isAt .colonColon) = !parser.isAt .colonColon := by rw [h.isAt]
      have hloop : Syntax.Parser.segments message left parser =
          if !parser.isAt .colonColon then parser
          else Syntax.Parser.segments message (left - 1) (parser.bump.expect .identifier message) := by
        cases left with
        | zero =>
            have hnil : parser.tokens = [] := List.length_eq_zero_iff.mp (Nat.le_zero.mp hleft)
            have hat : parser.isAt .colonColon = false := by
              rw [Syntax.Parser.isAt, Syntax.Parser.current, Syntax.Parser.nth, hnil]
              rfl
            rw [hat]
            rfl
        | succ left =>
            rw [Syntax.Parser.segments]
            cases parser.isAt .colonColon <;> rfl
      have hfewer : (parser.bump.expect .identifier message).tokens.length ≤ left - 1 :=
        (length_expect_le _ _ _).trans (by rw [tokens_bump, List.length_tail]; omega)
      rw [hloop, apply_ite some]
      exact .whether hstop nothing (.grouped (.step bump (.step expect (ih hfewer))))

theorem parseSegments {message : String} (budget : Nat) :
    Agrees parser (Source.segments (Source.expect .identifier message) budget)
      (some (parser.parseSegments message)) :=
  segments (Nat.le_refl _) budget

/-- `loop` goes on as long as a comma stands behind what a pass has taken. -/
theorem commaLoop {close : SyntaxKind} {loop : Nat → Syntax.Parser → Option Syntax.Parser}
    (hzero : ∀ parser, loop 0 parser = none)
    (hpass : ∀ budget parser rest,
      (∀ next, Agrees next rest (if next.isAt .comma then loop budget next.bump else some next)) →
      Agrees parser (Reasoning.whether (fun parser ↦ parser.atEnd || parser.isAt close) (pure ())
        (do element; rest)) (loop (budget + 1) parser))
    (passes budget : Nat) (parser : Syntax.Parser) :
    Agrees parser (Source.commaSeparated close element passes) (loop budget parser) := by
  induction passes generalizing budget parser with
  | zero =>
      intro source source' hsource hrun
      cases hrun
  | succ passes ih =>
      cases budget with
      | zero =>
          rw [hzero]
          exact no_result
      | succ budget =>
          exact hpass budget parser _ fun next ↦
            .whether (fun _ h ↦ h.isAt .comma) (.step bump (ih budget next.bump)) nothing

theorem commaSeparated {close : SyntaxKind} {part loop : Nat → Syntax.Parser → Option Syntax.Parser}
    (hzero : ∀ parser, loop 0 parser = none)
    (hloop : ∀ budget parser, loop (budget + 1) parser =
      if parser.atEnd || parser.isAt close then some parser
      else part budget parser >>= fun parser ↦
        if parser.isAt .comma then loop budget parser.bump else some parser)
    (h : ∀ budget parser, Agrees parser element (part budget parser)) (passes budget : Nat)
    (parser : Syntax.Parser) : Agrees parser (Source.commaSeparated close element passes) (loop budget parser) := by
  refine commaLoop hzero (fun budget parser rest hrest ↦ ?_) passes budget parser
  rw [hloop]
  exact .whether (fun _ h ↦ by rw [h.atEnd, h.isAt]) nothing ((h budget parser).and_then hrest)

end Agrees

/-! ## 5. Types and names -/

namespace Agrees

variable [Rowan] {type : Parse Unit}

theorem parseGenericArguments
    (h : ∀ budget parser, Agrees parser type (Syntax.Parser.parseType budget false parser))
    (passes budget : Nat) (parser : Syntax.Parser) :
    Agrees parser (Source.parseGenericArguments type passes)
      (Syntax.Parser.parseGenericArguments budget parser) := by
  cases budget with
  | zero => exact no_result
  | succ budget =>
      rw [Syntax.Parser.parseGenericArguments]
      refine .step .start (.step .bump (.and_then ?_ fun next ↦ .step .expect .finish))
      refine commaSeparated (fun parser ↦ by rw [Syntax.Parser.genericArguments])
        (fun budget parser ↦ ?_) (fun budget parser ↦ .whether (fun _ h ↦ h.isAt .integer)
          (.step .start (.step .bump .finish)) (h budget parser)) passes budget _
      rw [Syntax.Parser.genericArguments]
      cases parser.isAt .integer <;> rfl

theorem parseFunctionTypeArguments
    (h : ∀ budget parser, Agrees parser type (Syntax.Parser.parseType budget false parser))
    (passes budget : Nat) (parser : Syntax.Parser) :
    Agrees parser (Source.parseFunctionTypeArguments type passes)
      (Syntax.Parser.parseFunctionTypeArguments budget parser) := by
  cases budget with
  | zero => exact no_result
  | succ budget =>
      rw [Syntax.Parser.parseFunctionTypeArguments]
      refine .step .start (.step .bump (.step .start ((h budget _).and_then fun next ↦ .step .expect ?_)))
      refine .and_then ?_ fun next ↦ .step .expect (.step .finish (.step .expect .finish))
      exact commaSeparated (fun parser ↦ by rw [Syntax.Parser.functionTypeArguments])
        (fun budget parser ↦ by rw [Syntax.Parser.functionTypeArguments]) h passes budget _

/-- The budgets of the two parsers have nothing to do with each other. -/
theorem parseType (allowAuto : Bool) (passes budget : Nat) (parser : Syntax.Parser) :
    Agrees parser (Source.parseType passes allowAuto) (Syntax.Parser.parseType budget allowAuto parser) := by
  induction passes generalizing allowAuto budget parser with
  | zero =>
      intro source source' hsource hrun
      cases hrun
  | succ passes ih =>
      cases budget with
      | zero => 
          rw [Syntax.Parser.parseType]
          exact no_result
      | succ budget =>
          rw [Syntax.Parser.parseType]
          refine .step .start (.step .eat (.whether (fun _ h ↦ by rw [h.isAt])
            (.step .bump (.step .eat .finish)) (.whether_then (fun _ h ↦ h.isAt .identifier) ?_ ?_)))
          · rw [Source.parseNamedType, bind_assoc]
            refine .read fun source h ↦ .grouped (.step .bump (.grouped (.step (.parseSegments passes) ?_)))
            rw [h.currentText]
            refine .ite_then (.whether_then (fun _ h ↦ h.isAt .less) ?_ (.step .error (.step .eat .finish)))
              (.whether_then (fun _ h ↦ h.isAt .less) ?_ (.step .nothing (.step .eat .finish)))
            · exact (parseFunctionTypeArguments (ih false) passes budget _).and_then fun next ↦ .step .eat .finish
            · exact (parseGenericArguments (ih false) passes budget _).and_then fun next ↦ .step .eat .finish
          · exact .grouped (.step .error (.step (.provided_not (fun _ h ↦ by rw [h.atAny]) .bump)
              (.step .eat .finish)))

/-- The arguments that a name may have. -/
theorem arguments_then {f : Syntax.Parser → Option Syntax.Parser} (h : ∀ next, Agrees next rest (f next))
    (passes budget : Nat) (parser : Syntax.Parser) :
    Agrees parser (do
        Reasoning.provided (·.isAt .less) (Source.parseGenericArguments (Source.parseType passes false) passes)
        rest)
      (if parser.isAt .less then Syntax.Parser.parseGenericArguments budget parser >>= f
        else some parser >>= f) :=
  .whether_then (fun _ h ↦ h.isAt .less)
    ((parseGenericArguments (parseType false passes) passes budget parser).and_then h) (.step .nothing (h parser))

theorem qualifiedSegments (left passes budget : Nat) (parser : Syntax.Parser) :
    Agrees parser
      (Source.segments (do
        Source.expect .identifier "expected a name after `::`"
        Reasoning.provided (·.isAt .less) (Source.parseGenericArguments (Source.parseType left false) left)) passes)
      (Syntax.Parser.qualifiedSegments budget parser) := by
  induction passes generalizing budget parser with
  | zero =>
      intro source source' hsource hrun
      cases hrun
  | succ passes ih =>
      cases budget with
      | zero =>
          rw [Syntax.Parser.qualifiedSegments]
          exact no_result
      | succ budget =>
          rw [Syntax.Parser.qualifiedSegments]
          refine .whether_not (fun _ h ↦ by rw [h.isAt]) ?_ nothing
          exact .grouped (.step .bump (.grouped (.step .expect (arguments_then (fun next ↦ ih budget next) left budget _))))

theorem parseQualifiedName {message : String} (passes budget : Nat) (parser : Syntax.Parser) :
    Agrees parser (Source.parseQualifiedName passes message)
      (Syntax.Parser.parseQualifiedName budget message parser) := by
  rw [Syntax.Parser.parseQualifiedName]
  exact .step .expect (arguments_then (fun next ↦ qualifiedSegments passes passes budget next) passes budget _)

end Agrees

/-! ## 6. Expressions -/

variable [Rowan] {statements : Syntax.Parser.Statements} {nested : Nested}

/-- The calls of `parse_expression_bp` in both parsers agree. -/
def Follows (statements : Syntax.Parser.Statements) (nested : Nested) : Prop :=
  ∀ power budget parser,
    Agrees parser (nested.parseExpressionBp power) (Syntax.Parser.parseExpressionBp statements budget power parser)

/-- The lambdas of both parsers, which hold statements, agree. -/
def FollowsLambdas (statements : Syntax.Parser.Statements) (nested : Nested) : Prop :=
  ∀ parser, Agrees parser nested.parseLambdaExpression (statements.parseLambdaExpression parser)

namespace Agrees

omit [Rowan] in
theorem parseExpressions (h : Follows statements nested) {close : SyntaxKind} (passes budget : Nat)
    (parser : Syntax.Parser) :
    Agrees parser (Source.commaSeparated close nested.parseExpression passes)
      (Syntax.Parser.parseExpressions statements budget close parser) :=
  @commaSeparated _ _ _ (fun budget parser ↦ Syntax.Parser.parseExpressions statements budget close parser)
    (fun parser ↦ by rw [Syntax.Parser.parseExpressions])
    (fun budget parser ↦ by rw [Syntax.Parser.parseExpressions]) (h 0) passes budget parser

theorem parseArgumentList (h : Follows statements nested) (budget : Nat) (parser : Syntax.Parser) :
    Agrees parser nested.parseArgumentList (Syntax.Parser.parseArgumentList statements budget parser) := by
  cases budget with
  | zero =>
      rw [Syntax.Parser.parseArgumentList]
      exact no_result
  | succ budget =>
      rw [Syntax.Parser.parseArgumentList]
      exact .step .start (.step .bump ((parseExpressions h _ budget _).and_then fun next ↦ .step .expect .finish))

theorem parseInitializerList (h : Follows statements nested) (budget : Nat) (parser : Syntax.Parser) :
    Agrees parser nested.parseInitializerList (Syntax.Parser.parseInitializerList statements budget parser) := by
  cases budget with
  | zero =>
      rw [Syntax.Parser.parseInitializerList]
      exact no_result
  | succ budget =>
      rw [Syntax.Parser.parseInitializerList]
      exact .step .start (.step .bump ((parseExpressions h _ budget _).and_then fun next ↦ .step .expect .finish))

theorem parseSwitchPatternAlternative (budget : Nat) (parser : Syntax.Parser) :
    Agrees parser nested.parseSwitchPatternAlternative
      (Syntax.Parser.parseSwitchPatternAlternative statements budget parser) := by
  cases budget with
  | zero =>
      rw [Syntax.Parser.parseSwitchPatternAlternative]
      exact no_result
  | succ budget =>
      rw [Syntax.Parser.parseSwitchPatternAlternative]
      exact .whether (fun _ h ↦ by rw [h.current]) (.step .start (.step .bump .finish))
        (.step .start ((parseQualifiedName _ budget _).and_then fun next ↦ .finish))

theorem parseAlternatives (passes budget : Nat) (parser : Syntax.Parser) :
    Agrees parser (nested.patternAlternatives passes)
      (Syntax.Parser.parseAlternatives statements budget parser) := by
  induction passes generalizing budget parser with
  | zero =>
      intro source source' hsource hrun
      cases hrun
  | succ passes ih =>
      cases budget with
      | zero =>
          rw [Syntax.Parser.parseAlternatives]
          exact no_result
      | succ budget =>
          rw [Syntax.Parser.parseAlternatives]
          exact .whether (fun _ h ↦ h.isAt .pipe)
            (.step .bump (.whether (fun _ h ↦ h.switchPattern)
              ((parseSwitchPatternAlternative budget _).and_then fun next ↦ ih budget next) .error)) .nothing

theorem parseSwitchArms (h : Follows statements nested) (passes budget : Nat) (parser : Syntax.Parser) :
    Agrees parser (Source.commaSeparated .rBrace nested.parseSwitchArm passes)
      (Syntax.Parser.parseSwitchArms statements budget parser) := by
  refine commaLoop (fun parser ↦ by rw [Syntax.Parser.parseSwitchArms]) (fun budget parser rest hrest ↦ ?_)
    passes budget parser
  rw [Syntax.Parser.parseSwitchArms, Nested.parseSwitchArm]
  simp only [bind_assoc]
  -- what stands behind the pattern, whichever it is
  have hvalue (parser : Syntax.Parser) :
      Agrees parser (do
          Source.finish
          Source.expect .fatArrow "expected `=>` after switch pattern"
          nested.parseExpression
          Source.finish
          rest)
        (do
          let parser ← Syntax.Parser.parseExpressionBp statements budget 0
            (parser.finish.expect .fatArrow "expected `=>` after switch pattern")
          let parser := parser.finish
          if parser.isAt .comma then Syntax.Parser.parseSwitchArms statements budget parser.bump else some parser) :=
    .step .finish (.step .expect ((h 0 budget _).and_then fun next ↦ .step .finish (hrest _)))
  refine .whether (fun _ h ↦ by rw [h.atEnd, h.isAt]) nothing (.step .start (.step .start ?_))
  refine .whether_then (fun _ h ↦ h.isAt .elseKw) (.step .bump (hvalue _))
    (.whether_then (fun _ h ↦ h.switchPattern) ?_ ?_)
  · exact .grouped ((parseSwitchPatternAlternative budget _).and_then fun next ↦
      (parseAlternatives _ budget next).and_then hvalue)
  · exact .grouped (.step .error (.step (.provided (fun _ h ↦ by rw [h.atEnd, h.atAny]) .bump) (hvalue _)))

theorem parseSwitchExpression (h : Follows statements nested) (budget : Nat) (parser : Syntax.Parser) :
    Agrees parser nested.parseSwitchExpression (Syntax.Parser.parseSwitchExpression statements budget parser) := by
  cases budget with
  | zero =>
      rw [Syntax.Parser.parseSwitchExpression]
      exact no_result
  | succ budget =>
      rw [Syntax.Parser.parseSwitchExpression]
      exact .step .start (.step .bump (.step .expect ((h 0 budget _).and_then fun value ↦ .step .expect
        (.step .expect ((parseSwitchArms h _ budget _).and_then fun next ↦ .step .expect .finish)))))

theorem parseJsonMembers (h : Follows statements nested) (passes budget : Nat) (parser : Syntax.Parser) :
    Agrees parser (Source.commaSeparated .rBrace nested.parseJsonMember passes)
      (Syntax.Parser.parseJsonMembers statements budget parser) := by
  refine commaLoop (fun parser ↦ by rw [Syntax.Parser.parseJsonMembers]) (fun budget parser rest hrest ↦ ?_)
    passes budget parser
  rw [Syntax.Parser.parseJsonMembers, Nested.parseJsonMember]
  simp only [bind_assoc]
  refine .whether (fun _ h ↦ by rw [h.atEnd, h.isAt]) nothing (.step .start (.step ?_
    (.step .expect ((h 0 budget _).and_then fun next ↦ .step .finish (hrest _)))))
  exact .choice (fun _ h ↦ h.atAny _) .bump
    (.step .error (.provided (fun _ h ↦ by rw [h.atEnd, h.isAt]) .bump))

theorem parsePrimary (h : Follows statements nested) (hlambda : FollowsLambdas statements nested) (budget : Nat)
    (parser : Syntax.Parser) :
    Agrees parser nested.parsePrimary (Syntax.Parser.parsePrimary statements budget parser) := by
  cases budget with
  | zero =>
      rw [Syntax.Parser.parsePrimary]
      exact no_result
  | succ budget =>
      rw [Syntax.Parser.parsePrimary]
      refine .read fun source hsource ↦ ?_
      simp only [hsource.current, hsource.atAny, hsource.isAt, hsource.looksLikeLambda]
      refine .ite (.step .start (.step .bump .finish)) (.ite ?_ (.ite ?_ (.ite ?_ (.ite (hlambda parser)
        (.ite ?_ (.ite ?_ ?_))))))
      · refine .step .start (.step .bump (.step (.parseSegments _) ?_))
        exact .whether_then (fun _ h ↦ by rw [h.isAt, h.genericArguments])
          ((parseGenericArguments (parseType false _) _ budget _).and_then fun next ↦ .finish) (.step .nothing .finish)
      · exact .step .start (.step .bump ((h 0 budget _).and_then fun next ↦ .step .expect .finish))
      · exact parseSwitchExpression h budget parser
      · exact .step .start (.step .expect ((parseExpressions h _ budget _).and_then fun next ↦ .step .expect .finish))
      · exact .step .start (.step .expect ((parseJsonMembers h _ budget _).and_then fun next ↦ .step .expect .finish))
      · exact .step .start (.step .error (.step (.provided (fun _ h ↦ by rw [h.atEnd, h.atAny]) .bump) .finish))

theorem parsePrefixOrPrimary (h : Follows statements nested) (hlambda : FollowsLambdas statements nested)
    (budget : Nat) (parser : Syntax.Parser) :
    Agrees parser nested.parsePrefixOrPrimary (Syntax.Parser.parsePrefixOrPrimary statements budget parser) := by
  cases budget with
  | zero =>
      rw [Syntax.Parser.parsePrefixOrPrimary]
      exact no_result
  | succ budget =>
      rw [Syntax.Parser.parsePrefixOrPrimary]
      exact .whether (fun _ h ↦ h.atAny _)
        (.step .start (.step .bump ((h 11 budget _).and_then fun next ↦ .finish)))
        (parsePrimary h hlambda budget parser)

omit [Rowan] in
theorem parseMember : Agrees parser nested.parseMember
    (some ((if parser.bump.isAt .integer then parser.bump.bump
      else parser.bump.expect .identifier "expected a member name after `.`").parseSegments
        "expected a member name after `::`")) :=
  .step .bump (.step (.choice (fun _ h ↦ h.isAt .integer) .bump .expect) (.parseSegments _))

theorem parsePostfix (h : Follows statements nested) (checkpoint passes : Nat) (aggregateAllowed : Bool)
    (budget : Nat) (parser : Syntax.Parser) :
    Agrees parser (nested.parsePostfix checkpoint passes aggregateAllowed)
      (Syntax.Parser.parsePostfix statements budget checkpoint aggregateAllowed parser) := by
  induction passes generalizing aggregateAllowed budget parser with
  | zero =>
      intro source source' hsource hrun
      cases hrun
  | succ passes ih =>
      cases budget with
      | zero =>
          rw [Syntax.Parser.parsePostfix]
          exact no_result
      | succ budget =>
          rw [Syntax.Parser.parsePostfix]
          refine .read fun source hsource ↦ ?_
          simp only [hsource.isAt, hsource.nth, hsource.atAny]
          refine .ite ?_ (.ite ?_ (.ite ?_ (.ite (.ite ?_ ?_) (.ite ?_ (.ite ?_ .nothing)))))
          · exact .step .startNodeAt (.step .bump ((parseArgumentList h budget _).and_then fun next ↦
              .step .finish (ih false budget _)))
          · exact .step .startNodeAt ((parseArgumentList h budget _).and_then fun next ↦
              .step .finish (ih false budget _))
          · exact .step .startNodeAt ((parseInitializerList h budget _).and_then fun next ↦
              .step .finish (ih false budget _))
          · exact .step .startNodeAt (.step .bump (.step .bump (.step .finish (ih false budget _))))
          · exact .step .startNodeAt (.step .parseMember (.step .finish (ih false budget _)))
          · exact .step .startNodeAt (.step .bump ((h 0 budget _).and_then fun next ↦
              .step .expect (.step .finish (ih false budget _))))
          · exact .step .startNodeAt (.step .bump (.step .finish (ih false budget _)))

theorem parseInfix (h : Follows statements nested) (checkpoint minimumBindingPower passes budget : Nat)
    (parser : Syntax.Parser) :
    Agrees parser (nested.parseInfix checkpoint minimumBindingPower passes)
      (Syntax.Parser.parseInfix statements budget checkpoint minimumBindingPower parser) := by
  induction passes generalizing budget parser with
  | zero =>
      intro source source' hsource hrun
      cases hrun
  | succ passes ih =>
      cases budget with
      | zero =>
          rw [Syntax.Parser.parseInfix]
          exact no_result
      | succ budget =>
          rw [Syntax.Parser.parseInfix]
          refine .read fun source hsource ↦ ?_
          rw [hsource.infixBindingPower]
          cases parser.current.bind Syntax.Parser.infixBindingPower with
          | none => exact nothing
          | some powers =>
              exact .ite .nothing (.step .startNodeAt (.step .bump ((h powers.2 budget _).and_then fun next ↦
                .step .finish (ih budget _))))

theorem expressionBp (h : Follows statements nested) (hlambda : FollowsLambdas statements nested)
    (minimumBindingPower budget : Nat) (parser : Syntax.Parser) :
    Agrees parser (nested.expressionBp minimumBindingPower)
      (Syntax.Parser.parseExpressionBp statements budget minimumBindingPower parser) := by
  cases budget with
  | zero =>
      rw [Syntax.Parser.parseExpressionBp]
      exact no_result
  | succ budget =>
      rw [Syntax.Parser.parseExpressionBp]
      refine .step .eatTrivia (.checkpoint (.read fun source hsource ↦ ?_))
      rw [hsource.isAt]
      exact (parsePrefixOrPrimary h hlambda budget parser).and_then fun first ↦
        (parsePostfix h _ _ _ budget first).and_then fun next ↦ parseInfix h _ _ _ budget next

end Agrees

/-- However deep the calls may go, the parsers of expressions agree if those of lambdas do. -/
theorem follows_nested (hlambda : ∀ depth, FollowsLambdas statements (Source.nested depth)) (depth : Nat) :
    Follows statements (Source.nested depth) := by
  induction depth with
  | zero =>
      intro power budget parser source source' hsource hrun
      cases hrun
  | succ depth ih => exact fun power budget parser ↦ .expressionBp ih (hlambda depth) power budget parser

/-! ## 7. Reading an expression back -/

variable {entry : Entry} {left depth : Nat} {source : Parser}

/-- Wherever an expression stands in a file, with the fewest parentheses and with any blanks and comments, the
parser takes it and comes to what stands behind it; it reports nothing, and adds the tree of the expression. -/
theorem parseExpression_printed (hdepth : left < depth / 2) (hat : entry.At 0 left source) (hquiet : Quiet source)
    (expression : Expression) (hless : expression.parenthesize.noLessBehindName = true) (rest : List Token)
    (hsource : source.significant = expression.parenthesize.tokens ++ rest) (hstops : Syntax.Parser.stops rest = true)
    (hoperator : (Syntax.Parser.headKind rest).bind Syntax.Parser.infixBindingPower = none) :
    Returns source (Source.nested depth).parseExpression fun _ parser ↦
      parser.significant = rest ∧ Quiet parser ∧
        bare parser.children = bare (source.children ++ [expression.parenthesize.tree]) := by
  have hserves := (nested_serves depth).1 0
  obtain ⟨_, bared, hbared, -⟩ := returns_iff.mp (hserves _ 0 left source.bared hdepth (at_bared hat))
  obtain ⟨_, parser, hparser, -⟩ := returns_iff.mp (hserves entry 0 left source hdepth hat)
  have ⟨least, hleast⟩ := Syntax.Parser.parenthesize_parses ⟨fun _ ↦ none⟩ expression hless
    { tokens := source.significant, children := source.children } rest hsource hstops hoperator
  have hagrees : Follows ⟨fun _ ↦ none⟩ (Source.nested depth) := follows_nested (fun _ _ ↦ .no_result) depth
  have hshows := hagrees 0 least _ _ _ (shows_bared source) hbared _ (hleast least (Nat.le_refl _))
  have hreported : Quiet bared := List.map_eq_nil_iff.mp hshows.errors
  have ⟨_, hsides⟩ := ((alike_nested depth depth).someExpression.apply _ 0 left).keeps _ _ _ _ _ _
    (sides_bared hat hquiet) hbared hparser hreported
  refine returns_iff.mpr ⟨_, parser, hparser, ?_, hsides.2.quiet', ?_⟩
  · rw [← hsides.2.significant]
    exact hshows.significant
  · rw [← hsides.2.trees, hshows.children]
    rfl

end Stainless.Syntax.Source
