import Mathlib.Data.List.Forall2
import Stainless.Reasoning.Lockstep
import Stainless.Syntax.Lossless

/-!
# What blanks and comments change

The parser on two files with the same tokens but other blanks and comments, side by side.  As long as it
reports nothing it builds the same trees, but for the blanks and comments in them.
-/

open Reasoning

namespace Stainless.Syntax.Source

/-! ## 1. Trees without blanks and comments -/

mutual

def Tree.bare : Tree → List Tree
  | .token token => if token.isTrivia then [] else [.token token]
  | .node kind children => [.node kind (bare children)]

def bare : List Tree → List Tree
  | [] => []
  | tree :: trees => tree.bare ++ bare trees

end

def solid (tokens : List Token) : List Token := tokens.filter fun token ↦ !token.isTrivia

theorem bare_append (trees trees' : List Tree) : bare (trees ++ trees') = bare trees ++ bare trees' := by
  induction trees with
  | nil => rfl
  | cons tree trees ih => rw [List.cons_append, bare, bare, ih, List.append_assoc]

theorem bare_tokens (tokens : List Token) : bare (tokens.map Tree.token) = (solid tokens).map Tree.token := by
  induction tokens with
  | nil => rfl
  | cons token tokens ih =>
      rw [List.map_cons, bare, ih, Tree.bare]
      unfold solid
      rw [List.filter_cons]
      cases token.isTrivia <;> rfl

theorem bare_node (kind : SyntaxKind) (children : List Tree) :
    bare [.node kind children] = [.node kind (bare children)] := by
  rw [bare, bare, Tree.bare, List.append_nil]

theorem solid_cons {token : Token} (h : token.isTrivia = false) (tokens : List Token) :
    solid (token :: tokens) = token :: solid tokens :=
  List.filter_cons_of_pos (by rw [h]; rfl)

theorem solid_trivia (parser : Parser) : solid parser.trivia = [] := by
  unfold solid Parser.trivia
  rw [List.filter_eq_nil_iff]
  intro token hmem
  rw [List.all_eq_true.mp List.all_takeWhile token hmem]
  decide

theorem significant_eq (parser : Parser) : parser.significant = solid (parser.rest.dropWhile Token.isTrivia) :=
  (filter_dropWhile parser.rest).symm

/-- What closing a node that was open does. -/
theorem finish_eq_ok [Rowan] {parser t : Parser} {a : Unit} (h : finish parser = .ok a t) :
    ∃ kind first parents, parser.parents = (kind, first) :: parents ∧ t = parser.closed kind first parents := by
  cases hparents : parser.parents with
  | nil =>
      rw [Rowan.finish_panics parser hparents] at h
      cases h
  | cons node parents =>
      rw [Rowan.finish_closes parser node.1 node.2 parents hparents] at h
      cases h
      exact ⟨node.1, node.2, parents, rfl, rfl⟩

/-- What opening a node at a checkpoint does. -/
theorem startNodeAt_eq_ok [Rowan] {checkpoint : Nat} {kind : SyntaxKind} {parser t : Parser} {a : Unit}
    (h : startNodeAt checkpoint kind parser = .ok a t) (hframed : Framed parser.parents parser.children.length) :
    Framed ((kind, checkpoint) :: parser.parents) parser.children.length ∧
      t = parser.opened kind checkpoint := by
  by_cases hvalid : parser.Valid checkpoint
  · rw [Rowan.startNodeAt_opens checkpoint kind parser hvalid] at h
    cases h
    refine ⟨⟨hvalid.1, ?_⟩, rfl⟩
    -- the node that is open innermost begins no later
    cases hparents : parser.parents with
    | nil => trivial
    | cons parent parents =>
        rw [hparents] at hframed
        exact ⟨hvalid.2 parent (by rw [hparents]; rfl), hframed.2⟩
  · rw [Rowan.startNodeAt_panics checkpoint kind parser hvalid] at h
    cases h

/-! ## 2. Two parsers side by side -/

/-- The two files, and where a routine begins in each: the nodes that are open and the trees there. -/
structure Sides where
  file : List Token
  file' : List Token
  frames : List (SyntaxKind × Nat)
  frames' : List (SyntaxKind × Nat)
  before : List Tree
  before' : List Tree

/-- Nodes that the two sides opened at the same place. -/
structure Sides.Opened (sides : Sides) (parser parser' : Parser) (node node' : SyntaxKind × Nat) : Prop where
  kind : node.1 = node'.1
  first : sides.before.length ≤ node.2
  first' : sides.before'.length ≤ node'.2
  trees : bare (parser.children.take node.2) = bare (parser'.children.take node'.2)

/-- The routine has `opened` nodes of its own open on both sides, nothing is reported yet, and at most
`left` tokens that are no blanks and no comments are left. -/
structure Sides.At (sides : Sides) (opened left : Nat) (parser parser' : Parser) : Prop where
  significant : parser.significant = parser'.significant
  rest : parser.rest = sides.file.drop parser.position
  rest' : parser'.rest = sides.file'.drop parser'.position
  quiet : parser.errors = []
  quiet' : parser'.errors = []
  trees : bare parser.children = bare parser'.children
  bases : bare sides.before = bare sides.before'
  built : ∃ built, parser.children = sides.before ++ built
  built' : ∃ built, parser'.children = sides.before' ++ built
  framed : Framed parser.parents parser.children.length
  framed' : Framed parser'.parents parser'.children.length
  parents : ∃ own own', own.length = opened ∧ parser.parents = own ++ sides.frames ∧
    parser'.parents = own' ++ sides.frames' ∧ List.Forall₂ (sides.Opened parser parser') own own'
  left : parser.significant.length ≤ left

variable {sides : Sides} {opened left : Nat} {parser parser' : Parser}

/-- Nodes stay where they were when trees come behind them. -/
theorem opened_mono {own own' : List (SyntaxKind × Nat)} {next next' : Parser} {bound bound' : Nat}
    (hframed : Framed (own ++ sides.frames) bound) (hframed' : Framed (own' ++ sides.frames') bound')
    (hchildren : ∀ count ≤ bound, next.children.take count = parser.children.take count)
    (hchildren' : ∀ count ≤ bound', next'.children.take count = parser'.children.take count)
    (h : List.Forall₂ (sides.Opened parser parser') own own') :
    List.Forall₂ (sides.Opened next next') own own' := by
  induction h generalizing bound bound' with
  | nil => exact .nil
  | @cons node node' own own' hnode _ ih =>
      -- a node begins before all that comes behind it, and so do the nodes around it
      have hle : node.2 ≤ bound := hframed.1
      have hle' : node'.2 ≤ bound' := hframed'.1
      refine .cons { hnode with trees := ?_ } ?_
      · rw [hchildren _ hle, hchildren' _ hle']
        exact hnode.trees
      · refine ih hframed.2 hframed'.2 (fun count hcount ↦ ?_) fun count hcount ↦ ?_
        · exact hchildren count (Nat.le_trans hcount hle)
        · exact hchildren' count (Nat.le_trans hcount hle')

namespace Sides.At

theorem mono (h : sides.At opened left parser parser') {left' : Nat} (hle : left ≤ left') :
    sides.At opened left' parser parser' :=
  { h with left := Nat.le_trans h.left hle }

/-- Both sides take tokens, the same ones but for blanks and comments. -/
theorem taken (h : sides.At opened left parser parser') {tokens tokens' rest rest' : List Token}
    (hrest : parser.rest = tokens ++ rest) (hrest' : parser'.rest = tokens' ++ rest')
    (hsolid : solid tokens = solid tokens') :
    sides.At opened (left - (solid tokens).length) (parser.taken tokens rest) (parser'.taken tokens' rest') := by
  have ⟨built, hbuilt⟩ := h.built
  have ⟨built', hbuilt'⟩ := h.built'
  have ⟨own, own', hlength, hparents, hparents', hown⟩ := h.parents
  have hsplit : parser.significant = solid tokens ++ solid rest := by
    unfold Parser.significant
    rw [hrest, List.filter_append]
    rfl
  have hsplit' : parser'.significant = solid tokens' ++ solid rest' := by
    unfold Parser.significant
    rw [hrest', List.filter_append]
    rfl
  have hdrop {tokens rest file : List Token} {position : Nat} (h : tokens ++ rest = file.drop position) :
      rest = file.drop (position + tokens.length) := by
    rw [← List.drop_drop, ← h, List.drop_left]
  -- the same tokens were taken, so the same ones are left
  have hlater : solid rest = solid rest' := by
    have heq := h.significant
    rw [hsplit, hsplit', hsolid] at heq
    exact List.append_cancel_left heq
  have hframed := h.framed
  have hframed' := h.framed'
  rw [hparents] at hframed
  rw [hparents'] at hframed'
  have hgrown (trees : List Tree) (tokens : List Token) : trees.length ≤ (trees ++ tokens.map Tree.token).length := by
    rw [List.length_append]
    exact Nat.le_add_right _ _
  constructor
  case significant => exact hlater
  case rest => exact hdrop (hrest ▸ h.rest)
  case rest' => exact hdrop (hrest' ▸ h.rest')
  case quiet => exact h.quiet
  case quiet' => exact h.quiet'
  case trees =>
    show bare (parser.children ++ tokens.map Tree.token) = bare (parser'.children ++ tokens'.map Tree.token)
    rw [bare_append, bare_append, h.trees, bare_tokens, bare_tokens, hsolid]
  case bases => exact h.bases
  case built => exact ⟨built ++ tokens.map Tree.token, by rw [← List.append_assoc, ← hbuilt]; rfl⟩
  case built' => exact ⟨built' ++ tokens'.map Tree.token, by rw [← List.append_assoc, ← hbuilt']; rfl⟩
  case framed => exact h.framed.mono (hgrown _ _)
  case framed' => exact h.framed'.mono (hgrown _ _)
  case parents =>
    refine ⟨own, own', hlength, hparents, hparents', opened_mono hframed hframed' ?_ ?_ hown⟩
    · exact fun count hcount ↦ List.take_append_of_le_length hcount
    · exact fun count hcount ↦ List.take_append_of_le_length hcount
  case left =>
    have hleft := h.left
    rw [hsplit, List.length_append] at hleft
    show (solid rest).length ≤ _
    omega

theorem eatTrivia (h : sides.At opened left parser parser') :
    sides.At opened left parser.eatTrivia parser'.eatTrivia := by
  rw [eatTrivia_eq, eatTrivia_eq]
  have hsolid := (solid_trivia parser).trans (solid_trivia parser').symm
  have htaken := h.taken (trivia_append parser) (trivia_append parser') hsolid
  rw [solid_trivia] at htaken
  exact htaken

/-- Both sides bump: the same token, if one is left. -/
theorem bumped (h : sides.At opened left parser parser') :
    sides.At opened left parser.eatTrivia.bumpRaw parser'.eatTrivia.bumpRaw ∧
      (parser.atEnd = false →
        1 ≤ left ∧ sides.At opened (left - 1) parser.eatTrivia.bumpRaw parser'.eatTrivia.bumpRaw) := by
  have hsame := h.significant
  rw [significant_eq, significant_eq] at hsame
  have hleft := h.left
  rw [significant_eq] at hleft
  have hend : parser.atEnd = true ↔ solid (parser.rest.dropWhile Token.isTrivia) = [] := by
    rw [atEnd_iff, significant_eq]
  have htake (tokens : List Token) (token : Token) (htrivia : token.isTrivia = false) (parser : Parser) :
      solid (parser.trivia ++ [token]) = [token] := by
    unfold solid
    rw [List.filter_append, show parser.trivia.filter _ = [] from solid_trivia parser,
      List.filter_cons_of_pos (by rw [htrivia]; rfl)]
    rfl
  have hrest {parser : Parser} {token : Token} {rest : List Token}
      (hdrop : parser.rest.dropWhile Token.isTrivia = token :: rest) :
      parser.rest = (parser.trivia ++ [token]) ++ rest := by
    rw [List.append_assoc, List.singleton_append, ← hdrop]
    exact trivia_append parser
  cases hdrop : parser.rest.dropWhile Token.isTrivia with
  | nil =>
      -- only blanks and comments are left, and these are taken
      rw [hdrop] at hsame hend
      have hdrop' : parser'.rest.dropWhile Token.isTrivia = [] := by
        cases hdrop' : parser'.rest.dropWhile Token.isTrivia with
        | nil => rfl
        | cons token rest =>
            rw [hdrop', solid_cons (head_dropWhile hdrop')] at hsame
            cases hsame
      constructor
      · have heaten := h.eatTrivia
        rw [eatTrivia_eq, eatTrivia_eq, hdrop, hdrop'] at heaten
        rw [bump_eq_of_nil hdrop, bump_eq_of_nil hdrop']
        exact heaten
      · intro hfalse
        rw [hend.mpr rfl] at hfalse
        cases hfalse
  | cons token rest =>
      rw [hdrop, solid_cons (head_dropWhile hdrop)] at hsame
      rw [hdrop, solid_cons (head_dropWhile hdrop), List.length_cons] at hleft
      cases hdrop' : parser'.rest.dropWhile Token.isTrivia with
      | nil =>
          rw [hdrop'] at hsame
          cases hsame
      | cons token' rest' =>
          rw [hdrop', solid_cons (head_dropWhile hdrop')] at hsame
          have htoken := (List.cons.inj hsame).1
          subst htoken
          have hsolid := htake rest token (head_dropWhile hdrop)
          have htaken := h.taken (hrest hdrop) (hrest hdrop') ((hsolid parser).trans (hsolid parser').symm)
          rw [hsolid] at htaken
          rw [bump_eq_of_cons hdrop, bump_eq_of_cons hdrop']
          exact ⟨htaken.mono (Nat.sub_le _ _), fun _ ↦ ⟨by omega, htaken⟩⟩

/-- Both sides open a node. -/
theorem pushed (h : sides.At opened left parser parser') {kind : SyntaxKind} {first first' : Nat}
    (hfirst : sides.before.length ≤ first) (hfirst' : sides.before'.length ≤ first')
    (hframed : Framed ((kind, first) :: parser.parents) parser.children.length)
    (hframed' : Framed ((kind, first') :: parser'.parents) parser'.children.length)
    (htrees : bare (parser.children.take first) = bare (parser'.children.take first')) :
    sides.At (opened + 1) left { parser with parents := (kind, first) :: parser.parents }
      { parser' with parents := (kind, first') :: parser'.parents } := by
  have ⟨own, own', hlength, hparents, hparents', hown⟩ := h.parents
  exact { h with
    framed := hframed
    framed' := hframed'
    parents := by
      refine ⟨(kind, first) :: own, (kind, first') :: own', by rw [List.length_cons, hlength], ?_, ?_, ?_⟩
      · show (kind, first) :: parser.parents = _
        rw [hparents]
        rfl
      · show (kind, first') :: parser'.parents = _
        rw [hparents']
        rfl
      · exact .cons ⟨rfl, hfirst, hfirst', htrees⟩ (hown.imp fun _ _ hnode ↦ { hnode with }) }

/-- Both sides close their innermost node. -/
theorem finished [Rowan] (h : sides.At (opened + 1) left parser parser') {t t' : Parser} (hrun : finish parser = .ok () t)
    (hrun' : finish parser' = .ok () t') : sides.At opened left t t' := by
  have ⟨own, own', hlength, hparents, hparents', hown⟩ := h.parents
  cases hown with
  | nil => cases hlength
  | @cons node node' own own' hnode hown =>
      obtain ⟨kind, first⟩ := node
      obtain ⟨kind', first'⟩ := node'
      cases hnode.kind
      rw [List.cons_append] at hparents hparents'
      have ⟨kind₁, first₁, parents, heq, ht⟩ := finish_eq_ok hrun
      have ⟨kind₂, first₂, parents', heq', ht'⟩ := finish_eq_ok hrun'
      rw [hparents] at heq
      rw [hparents'] at heq'
      cases heq
      cases heq'
      rw [ht, ht']
      have hframed := h.framed
      have hframed' := h.framed'
      rw [hparents] at hframed
      rw [hparents'] at hframed'
      have htrees : bare (parser.children.take first) = bare (parser'.children.take first') := hnode.trees
      -- the trees behind the place where the node was opened
      have hinside : bare (parser.children.drop first) = bare (parser'.children.drop first') := by
        have hall := h.trees
        rw [← List.take_append_drop first parser.children, ← List.take_append_drop first' parser'.children,
          bare_append, bare_append, htrees] at hall
        exact List.append_cancel_left hall
      have hkept {children : List Tree} {first : Nat} (hle : first ≤ children.length) (node : Tree) (count : Nat)
          (hcount : count ≤ first) : (children.take first ++ [node]).take count = children.take count := by
        rw [List.take_append_of_le_length (by rw [List.length_take_of_le hle]; exact hcount), List.take_take,
          Nat.min_eq_left hcount]
      have hlong {children : List Tree} {first : Nat} (hle : first ≤ children.length) (node : Tree) :
          first ≤ (children.take first ++ [node]).length := by
        rw [List.length_append, List.length_take_of_le hle]
        exact Nat.le_add_right _ _
      have hbuilt {children before : List Tree} {first : Nat} (hbuilt : ∃ built, children = before ++ built)
          (hfirst : before.length ≤ first) (node : Tree) :
          ∃ built, children.take first ++ [node] = before ++ built := by
        have ⟨built, heq⟩ := hbuilt
        refine ⟨built.take (first - before.length) ++ [node], ?_⟩
        rw [heq, List.take_append, List.take_of_length_le hfirst, List.append_assoc]
      exact { h with
        trees := by
          show bare (_ ++ [_]) = bare (_ ++ [_])
          rw [bare_append, bare_append, bare_node, bare_node, htrees, hinside]
        built := hbuilt h.built hnode.first _
        built' := hbuilt h.built' hnode.first' _
        framed := hframed.2.mono (hlong hframed.1 _)
        framed' := hframed'.2.mono (hlong hframed'.1 _)
        parents := ⟨own, own', Nat.succ.inj hlength, rfl, rfl,
          opened_mono hframed.2 hframed'.2 (hkept hframed.1 _) (hkept hframed'.1 _) hown⟩ }

/-- A routine inside of this one, which begins where this one stands. -/
def inner (sides : Sides) (parser parser' : Parser) : Sides :=
  { sides with
    frames := parser.parents, frames' := parser'.parents, before := parser.children, before' := parser'.children }

theorem enter (h : sides.At opened left parser parser') : (inner sides parser parser').At 0 left parser parser' :=
  { h with
    bases := h.trees
    built := ⟨[], (List.append_nil _).symm⟩
    built' := ⟨[], (List.append_nil _).symm⟩
    parents := ⟨[], [], rfl, rfl, rfl, .nil⟩ }

theorem leave (h : sides.At opened left parser parser') {left' : Nat} {t t' : Parser}
    (h' : (inner sides parser parser').At 0 left' t t') : sides.At opened left' t t' := by
  have ⟨built, hbuilt⟩ := h.built
  have ⟨built', hbuilt'⟩ := h.built'
  have ⟨inside, hinside⟩ := h'.built
  have ⟨inside', hinside'⟩ := h'.built'
  have ⟨own, own', hlength, hparents, hparents', hown⟩ := h.parents
  have ⟨opened₁, opened₁', hlength₁, hparents₁, hparents₁', hown₁⟩ := h'.parents
  -- the routine inside has closed what it opened
  rw [List.eq_nil_of_length_eq_zero hlength₁] at hparents₁ hown₁
  cases hown₁
  have hframed := h.framed
  have hframed' := h.framed'
  rw [hparents] at hframed
  rw [hparents'] at hframed'
  exact { h' with
    bases := h.bases
    built := ⟨built ++ inside, by rw [hinside, ← List.append_assoc, ← hbuilt]; rfl⟩
    built' := ⟨built' ++ inside', by rw [hinside', ← List.append_assoc, ← hbuilt']; rfl⟩
    parents := by
      refine ⟨own, own', hlength, hparents₁.trans hparents, hparents₁'.trans hparents', ?_⟩
      refine opened_mono hframed hframed' (fun count hcount ↦ ?_) (fun count hcount ↦ ?_) hown
      · rw [hinside]
        exact List.take_append_of_le_length hcount
      · rw [hinside']
        exact List.take_append_of_le_length hcount }

/-- Tokens were taken on one side, so the position moved on both. -/
theorem position_ne (h : sides.At opened left parser parser') {opened' left' : Nat} {t t' : Parser}
    (h' : sides.At opened' left' t t') (hless : t.significant.length < parser.significant.length) :
    t.position ≠ parser.position ∧ t'.position ≠ parser'.position := by
  constructor
  · intro heq
    have hrest : t.rest = parser.rest := by rw [h.rest, h'.rest, heq]
    rw [Parser.significant, hrest] at hless
    exact absurd hless (Nat.lt_irrefl _)
  · intro heq
    have hrest : t'.rest = parser'.rest := by rw [h.rest', h'.rest', heq]
    rw [h.significant, h'.significant, Parser.significant, hrest] at hless
    exact absurd hless (Nat.lt_irrefl _)

end Sides.At

/-! ## 3. Routines -/

def Quiet (parser : Parser) : Prop := parser.errors = []

/-- What a routine sees of a parser are the tokens that are no blanks and no comments. -/
def Sees {β : Type} (see : Parser → β) : Prop :=
  ∀ parser parser', parser.significant = parser'.significant → see parser = see parser'

/-- Where the tokens satisfy `P`, side by side the routines close `count` nodes that were open and every
node that they open, and take `taken` tokens or more. -/
def AlikeIf (P : List Token → Prop) (count taken : Nat) {α : Type} (routine routine' : Parse α) : Prop :=
  ∀ (sides : Sides) (opened left : Nat),
    Lockstep Quiet (fun parser parser' ↦ sides.At (opened + count) left parser parser' ∧ P parser.significant)
      (fun parser parser' ↦ taken ≤ left ∧ sides.At opened (left - taken) parser parser') routine routine'

abbrev Alike (count taken : Nat) {α : Type} (routine routine' : Parse α) : Prop :=
  AlikeIf (fun _ ↦ True) count taken routine routine'

section

variable {α : Type} {P : List Token → Prop} {count taken : Nat} {kind : SyntaxKind} {message : String}
variable {test test' : Parser → Bool}
variable {routine routine' rest rest' yes yes' no no' element element' pass pass' recover recover' : Parse Unit}

/-! ### What routines see -/

theorem sees_of {β : Type} (see : List Token → β) : Sees fun parser ↦ see parser.significant :=
  fun _ _ h ↦ congrArg see h

theorem sees_isAt (kind : SyntaxKind) : Sees (·.isAt kind) := fun _ _ h ↦ isAt_congr h kind

theorem sees_atEnd : Sees (·.atEnd) := fun _ _ h ↦ atEnd_congr h

theorem sees_const {β : Type} (value : β) : Sees fun _ ↦ value := fun _ _ _ ↦ rfl

theorem sees_ahead : Sees (·.ahead) := sees_of fun tokens ↦ tokens.map Token.kind

theorem sees_currentText : Sees (·.currentText) := sees_of fun tokens ↦ tokens.head?.map Token.text

theorem Sees.map {β γ : Type} {see : Parser → β} (h : Sees see) (f : β → γ) : Sees fun parser ↦ f (see parser) :=
  fun parser parser' hsame ↦ congrArg f (h parser parser' hsame)

theorem sees_current : Sees (·.current) := sees_ahead.map List.head?

theorem sees_atAny (kinds : List SyntaxKind) : Sees (·.atAny kinds) :=
  sees_current.map fun current ↦ current.any kinds.contains

theorem sees_nth (offset : Nat) : Sees (·.nth offset) := sees_ahead.map fun kinds ↦ kinds[offset]?

theorem Sees.not (h : Sees test) : Sees fun parser ↦ !test parser := h.map Bool.not

theorem Sees.or (h : Sees test) (h' : Sees test') : Sees fun parser ↦ test parser || test' parser :=
  fun parser parser' hsame ↦ congrArg₂ Bool.or (h parser parser' hsame) (h' parser parser' hsame)

theorem Sees.and (h : Sees test) (h' : Sees test') : Sees fun parser ↦ test parser && test' parser :=
  fun parser parser' hsame ↦ congrArg₂ Bool.and (h parser parser' hsame) (h' parser parser' hsame)

theorem current_congr {parser parser' : Parser} (h : parser'.significant = parser.significant) :
    parser'.current = parser.current := sees_current parser' parser h

theorem currentText_congr {parser parser' : Parser} (h : parser'.significant = parser.significant) :
    parser'.currentText = parser.currentText := sees_currentText parser' parser h

theorem ahead_congr {parser parser' : Parser} (h : parser'.significant = parser.significant) :
    parser'.ahead = parser.ahead := sees_ahead parser' parser h

theorem nth_congr {parser parser' : Parser} (h : parser'.significant = parser.significant) (offset : Nat) :
    parser'.nth offset = parser.nth offset := sees_nth offset parser' parser h

/-! ### Sequences -/

theorem AlikeIf.imp {P' : List Token → Prop} {routine routine' : Parse α} (h : AlikeIf P count taken routine routine')
    (himp : ∀ tokens, P' tokens → P tokens) : AlikeIf P' count taken routine routine' :=
  fun sides opened left ↦ (h sides opened left).mono (fun _ _ hat ↦ ⟨hat.1, himp _ hat.2⟩) fun _ _ hat ↦ hat

theorem Alike.cond {routine routine' : Parse α} (h : Alike count taken routine routine') :
    AlikeIf P count taken routine routine' := h.imp fun _ _ ↦ trivial

theorem Alike.apply {routine routine' : Parse α} (h : Alike count taken routine routine') (sides : Sides)
    (opened left : Nat) : Lockstep Quiet (sides.At (opened + count) left)
      (fun parser parser' ↦ taken ≤ left ∧ sides.At opened (left - taken) parser parser') routine routine' :=
  (h sides opened left).mono (fun _ _ hat ↦ ⟨hat, trivial⟩) fun _ _ hat ↦ hat

namespace AlikeIf

theorem weaken {routine routine' : Parse α} (h : AlikeIf P count 1 routine routine') :
    AlikeIf P count 0 routine routine' :=
  fun sides opened left ↦
    (h sides opened left).mono (fun _ _ hat ↦ hat) fun _ _ hat ↦ ⟨Nat.zero_le _, hat.2.mono (Nat.sub_le _ _)⟩

theorem nothing {value : α} : AlikeIf P 0 0 (pure value : Parse α) (pure value) :=
  fun _ _ _ ↦ .pure fun _ _ hat ↦ ⟨Nat.zero_le _, hat.1⟩

/-- Nothing is done where there is nothing. -/
theorem never {value : α} (hP : ∀ tokens, ¬P tokens) :
    AlikeIf P count taken (pure value : Parse α) (pure value) :=
  fun _ _ _ ↦ .pure fun _ _ hat ↦ (hP _ hat.2).elim

theorem and_then {β : Type} {k k' : α → Parse β} {routine routine' : Parse α} (h : AlikeIf P 0 0 routine routine')
    (hrest : ∀ a, Alike count taken (k a) (k' a)) : AlikeIf P count taken (routine >>= k) (routine' >>= k') :=
  fun sides opened left ↦
    (h sides (opened + count) left).and_then fun a ↦
      ((hrest a).apply sides opened left).mono (fun _ _ hat ↦ hat.2) fun _ _ hat ↦ hat

theorem next {rest rest' : Parse α} (h : AlikeIf P 0 0 routine routine') (hrest : Alike count taken rest rest') :
    AlikeIf P count taken (do routine; rest) (do routine'; rest') :=
  h.and_then fun _ ↦ hrest

/-- A first statement that takes a token. -/
theorem moved (h : AlikeIf P 0 1 routine routine') (hrest : Alike count 0 rest rest') :
    AlikeIf P count 1 (do routine; rest) (do routine'; rest') :=
  fun sides opened left ↦
    (h sides (opened + count) left).and_then fun _ ↦
      ((hrest.apply sides opened (left - 1)).frame (1 ≤ left)).mono (fun _ _ hat ↦ hat) fun _ _ hat ↦ ⟨hat.1, hat.2.2⟩

theorem throw_left {routine' : Parse α} {stop : Stop} : AlikeIf P count taken (throw stop) routine' :=
  fun _ _ _ ↦ .throw_left

theorem throw_right {routine routine' : Parse α} {stop : Stop} (h : AlikeIf P count taken routine routine') :
    AlikeIf P count taken routine (throw stop) :=
  fun sides opened left ↦ (h sides opened left).throw_right

/-- A routine that looks at the tokens first. -/
theorem read {program program' : Parser → Parse α}
    (h : ∀ parser parser', parser'.significant = parser.significant →
      AlikeIf (fun tokens ↦ P tokens ∧ tokens = parser.significant) count taken (program parser) (program' parser')) :
    AlikeIf P count taken (get >>= program) (get >>= program') := by
  intro sides opened left
  refine .read Parser.significant Parser.significant (fun _ _ hat ↦ hat.1.significant)
    (fun parser a t ↦ (h parser parser rfl sides opened left).quiet parser a t) fun parser parser' hsame ↦ ?_
  refine (h parser parser' hsame.symm sides opened left).mono (fun t t' hat ↦ ⟨hat.1.1, hat.1.2, ?_⟩) fun _ _ hat ↦ hat
  rw [hat.2.1]

/-- At the end of the file the routine does nothing. -/
theorem orNothing (h : AlikeIf (· ≠ []) 0 1 routine routine')
    (hnone : ∀ parser, parser.significant = [] → routine parser = .ok () parser)
    (hnone' : ∀ parser, parser.significant = [] → routine' parser = .ok () parser) : Alike 0 0 routine routine' := by
  intro sides opened left
  refine ⟨(h sides opened left).quiet, fun parser parser' a a' t t' hat hrun hrun' hquiet ↦ ?_⟩
  by_cases hempty : parser.significant = []
  · rw [hnone parser hempty] at hrun
    rw [hnone' parser' (hat.1.significant.symm.trans hempty)] at hrun'
    cases hrun
    cases hrun'
    exact ⟨rfl, Nat.zero_le _, hat.1⟩
  · have ⟨heq, _, hat'⟩ := (h sides opened left).keeps parser parser' a a' t t' ⟨hat.1, hempty⟩ hrun hrun' hquiet
    exact ⟨heq, Nat.zero_le _, hat'.mono (Nat.sub_le _ _)⟩

/-! ### Branches -/

theorem ite {c : Prop} [Decidable c] {yes yes' no no' : Parse α} (hyes : c → AlikeIf P count taken yes yes')
    (hno : ¬c → AlikeIf P count taken no no') :
    AlikeIf P count taken (if c then yes else no) (if c then yes' else no') := by
  by_cases h : c
  · rw [if_pos h, if_pos h]
    exact hyes h
  · rw [if_neg h, if_neg h]
    exact hno h

theorem either {c : Prop} [Decidable c] {yes yes' no no' : Parse α} (hyes : AlikeIf P count taken yes yes')
    (hno : AlikeIf P count taken no no') :
    AlikeIf P count taken (if c then yes else no) (if c then yes' else no') :=
  .ite (fun _ ↦ hyes) fun _ ↦ hno

theorem whether (htest : Sees test) {yes yes' no no' : Parse α} (hyes : Alike count taken yes yes')
    (hno : Alike count taken no no') :
    AlikeIf P count taken (Reasoning.whether test yes no) (Reasoning.whether test yes' no') :=
  fun sides opened left ↦
    .whether (fun _ _ hat ↦ htest _ _ hat.1.significant)
      ((hyes.apply sides opened left).mono (fun _ _ hat ↦ hat.1.1) fun _ _ hat ↦ hat)
      ((hno.apply sides opened left).mono (fun _ _ hat ↦ hat.1.1) fun _ _ hat ↦ hat)

theorem provided (htest : Sees test) (h : Alike 0 0 routine routine') :
    AlikeIf P 0 0 (Reasoning.provided test routine) (Reasoning.provided test routine') :=
  .whether htest h .nothing

/-- Two runs that report something are not compared. -/
theorem error {message' : String} : AlikeIf P count taken (Source.error message) (Source.error message') := by
  have hreports (parser : Parser) (error : ParseError) (h : parser.errors ++ [error] = []) : False :=
    List.cons_ne_nil _ _ (List.append_eq_nil_iff.mp h).2
  exact fun _ _ _ ↦ .modify (fun parser hquiet ↦ (hreports parser _ hquiet).elim)
    fun parser _ _ hquiet ↦ (hreports parser _ hquiet).elim

end AlikeIf

/-! ### Tokens -/

theorem quiet_bump {parser : Parser} (hquiet : Quiet parser.eatTrivia.bumpRaw) : Quiet parser := by
  have herrors : parser.eatTrivia.bumpRaw.errors = parser.errors := by
    rw [eatTrivia_eq]
    unfold Parser.bumpRaw
    split <;> rfl
  exact herrors.symm.trans hquiet

namespace AlikeIf

theorem bump : AlikeIf P 0 0 Source.bump Source.bump := fun _ _ _ ↦
  .modify (fun _ ↦ quiet_bump) fun _ _ hat _ ↦ ⟨Nat.zero_le _, hat.1.bumped.1⟩

theorem bumpOne (hP : ∀ tokens, P tokens → tokens ≠ []) : AlikeIf P 0 1 Source.bump Source.bump := fun _ _ _ ↦
  .modify (fun _ ↦ quiet_bump) fun parser _ hat _ ↦ by
    refine hat.1.bumped.2 ?_
    cases hend : parser.atEnd with
    | false => rfl
    | true => exact absurd (atEnd_iff.mp hend) (hP _ hat.2)

theorem eatTrivia : AlikeIf P 0 0 Source.eatTrivia Source.eatTrivia := by
  intro sides opened left
  refine .modify (fun parser hquiet ↦ ?_) fun _ _ hat _ ↦ ⟨Nat.zero_le _, hat.1.eatTrivia⟩
  have herrors : parser.eatTrivia.errors = parser.errors := by
    rw [eatTrivia_eq]
    rfl
  exact herrors.symm.trans hquiet

theorem eat : AlikeIf P 0 0 (Source.eat kind) (Source.eat kind) := .provided (sees_isAt kind) .bump

/-- What is expected is there, for its absence would be reported. -/
theorem expect : AlikeIf P 0 1 (Source.expect kind message) (Source.expect kind message) := fun sides opened left ↦
  .whether (fun _ _ hat ↦ sees_isAt kind _ _ hat.1.significant)
    ((bumpOne (fun _ h ↦ h) sides opened left).mono
      (fun _ _ hat ↦ ⟨hat.1.1, fun hnone ↦ by
        have hend := atEnd_of_isAt hat.2
        rw [atEnd_iff.mpr hnone] at hend
        cases hend⟩) fun _ _ hat ↦ hat)
    ((error sides opened left).mono (fun _ _ hat ↦ hat.1) fun _ _ hat ↦ hat)

theorem expected : AlikeIf P 0 0 (Source.expect kind message) (Source.expect kind message) := expect.weaken

/-! ### Nodes -/

theorem last [Rowan] : AlikeIf P 1 0 Source.finish Source.finish := by
  intro sides opened left
  constructor
  · intro parser _ t hrun hquiet
    have ⟨_, _, _, _, heq⟩ := finish_eq_ok hrun
    rw [heq] at hquiet
    exact hquiet
  · intro _ _ _ _ _ _ hat hrun hrun' _
    exact ⟨rfl, Nat.zero_le _, hat.1.finished hrun hrun'⟩

theorem finish [Rowan] (hrest : Alike count taken rest rest') :
    AlikeIf P (count + 1) taken (do Source.finish; rest) (do Source.finish; rest') :=
  fun sides opened left ↦
    (last sides (opened + count) left).and_then fun _ ↦
      (hrest.apply sides opened left).mono (fun _ _ hat ↦ hat.2) fun _ _ hat ↦ hat

/-- Both sides open a node behind their blanks. -/
theorem start [Rowan] (hrest : AlikeIf P (count + 1) taken rest rest') :
    AlikeIf P count taken (do Source.start kind; rest) (do Source.start kind; rest') := by
  intro sides opened left
  have htrivia : Lockstep Quiet
      (fun parser parser' ↦ sides.At (opened + count) left parser parser' ∧ P parser.significant)
      (fun parser parser' ↦ sides.At (opened + count) left parser parser' ∧ P parser.significant)
      Source.eatTrivia Source.eatTrivia := by
    have hquiet (parser : Parser) := (eatTrivia (P := P) sides opened left).quiet parser () _ rfl
    refine .modify hquiet fun parser _ hat _ ↦ ⟨hat.1.eatTrivia, ?_⟩
    rw [significant_eatTrivia]
    exact hat.2
  have hnode : Lockstep Quiet
      (fun parser parser' ↦ sides.At (opened + count) left parser parser' ∧ P parser.significant)
      (fun parser parser' ↦ sides.At (opened + (count + 1)) left parser parser' ∧ P parser.significant)
      (startNode kind) (startNode kind) := by
    rw [Rowan.startNode_eq]
    refine .modify (fun _ hquiet ↦ hquiet) fun parser parser' hat _ ↦ ⟨?_, hat.2⟩
    have ⟨built, hbuilt⟩ := hat.1.built
    have ⟨built', hbuilt'⟩ := hat.1.built'
    refine hat.1.pushed ?_ ?_ ⟨Nat.le_refl _, hat.1.framed⟩ ⟨Nat.le_refl _, hat.1.framed'⟩ ?_
    · rw [hbuilt, List.length_append]
      exact Nat.le_add_right _ _
    · rw [hbuilt', List.length_append]
      exact Nat.le_add_right _ _
    · rw [List.take_length, List.take_length]
      exact hat.1.trees
  exact (htrivia.and_then fun _ ↦ hnode).and_then fun _ ↦ hrest sides opened left

/-! ### Loops -/

theorem repeatUntil (htest : Sees test) (h : Alike 0 0 pass pass') (passes passes' : Nat) :
    AlikeIf P 0 0 (Reasoning.repeatUntil .budget test pass passes) (Reasoning.repeatUntil .budget test pass' passes') :=
  fun sides opened left ↦
    (Lockstep.repeatUntil (fun _ _ hat ↦ htest _ _ hat.significant)
      ((h.apply sides opened left).mono (fun _ _ hat ↦ hat.1) fun _ _ hat ↦ hat.2) passes passes').mono
        (fun _ _ hat ↦ hat.1) fun _ _ hat ↦ ⟨Nat.zero_le _, hat⟩

/-- A loop that stops at the end, if not before. -/
theorem repeatBefore (htest : Sees test) (hend : ∀ parser, test parser = false → parser.atEnd = false)
    (h : AlikeIf (· ≠ []) 0 1 pass pass') (passes passes' : Nat) :
    AlikeIf P 0 0 (Reasoning.repeatUntil .budget test pass passes) (Reasoning.repeatUntil .budget test pass' passes') :=
  fun sides opened left ↦
    (Lockstep.repeatUntil (fun _ _ hat ↦ htest _ _ hat.significant)
      ((h sides opened left).mono
        (fun parser _ hat ↦ ⟨hat.1, fun hnone ↦ by
          have hfalse := hend parser hat.2
          rw [atEnd_iff.mpr hnone] at hfalse
          cases hfalse⟩)
        fun _ _ hat ↦ hat.2.mono (Nat.sub_le _ _)) passes passes').mono
          (fun _ _ hat ↦ hat.1) fun _ _ hat ↦ ⟨Nat.zero_le _, hat⟩

theorem segments (h : Alike 0 0 routine routine') (passes passes' : Nat) :
    AlikeIf P 0 0 (Source.segments routine passes) (Source.segments routine' passes') :=
  .repeatUntil (sees_isAt .colonColon).not (.next .bump h) passes passes'

theorem commaSeparated {close : SyntaxKind} (h : Alike 0 0 element element') (passes passes' : Nat) :
    AlikeIf P 0 0 (Source.commaSeparated close element passes) (Source.commaSeparated close element' passes') :=
  fun sides opened left ↦
    (Lockstep.separated (fun _ _ hat ↦ (sees_atEnd.or (sees_isAt close)) _ _ hat.significant)
      (fun _ _ hat ↦ sees_isAt .comma _ _ hat.significant)
      ((h.apply sides opened left).mono (fun _ _ hat ↦ hat) fun _ _ hat ↦ hat.2)
      ((Alike.apply .bump sides opened left).mono (fun _ _ hat ↦ hat) fun _ _ hat ↦ hat.2) passes passes').mono
        (fun _ _ hat ↦ hat.1) fun _ _ hat ↦ ⟨Nat.zero_le _, hat⟩

theorem commaChained (h : Alike 0 0 element element') (passes passes' : Nat) :
    AlikeIf P 0 0 (Source.commaChained element passes) (Source.commaChained element' passes') :=
  fun sides opened left ↦
    (Lockstep.chained (fun _ _ hat ↦ sees_isAt .comma _ _ hat.significant)
      ((h.apply sides opened left).mono (fun _ _ hat ↦ hat) fun _ _ hat ↦ hat.2)
      ((Alike.apply .bump sides opened left).mono (fun _ _ hat ↦ hat) fun _ _ hat ↦ hat.2) passes passes').mono
        (fun _ _ hat ↦ hat.1) fun _ _ hat ↦ ⟨Nat.zero_le _, hat⟩

end AlikeIf

/-- A pass that takes a token does not recover. -/
theorem AlikeIf.progress (h : AlikeIf P 0 1 routine routine') (hrecover : Alike 0 0 recover recover') :
    AlikeIf P 0 1
      (do let previous ← get; routine; Reasoning.provided (·.position = previous.position) recover)
      (do let previous ← get; routine'; Reasoning.provided (·.position = previous.position) recover') := by
  intro sides opened left
  have hsplit {parser t u : Parser} {recover : Parse Unit}
      (h : Reasoning.provided (·.position = parser.position) recover t = .ok () u) :
      t.position = parser.position ∧ recover t = .ok () u ∨ t.position ≠ parser.position ∧ t = u := by
    have heq : Reasoning.provided (·.position = parser.position) recover t =
        if decide (t.position = parser.position) = true then recover t else .ok () t := rfl
    rw [heq] at h
    by_cases hposition : t.position = parser.position
    · rw [if_pos (decide_eq_true hposition)] at h
      exact .inl ⟨hposition, h⟩
    · rw [if_neg (by rwa [decide_eq_true_eq])] at h
      cases h
      exact .inr ⟨hposition, rfl⟩
  have hquiet {parser t u : Parser} (hrest : Reasoning.provided (·.position = parser.position) recover t = .ok () u)
      (hu : Quiet u) : Quiet t := by
    rcases hsplit hrest with ⟨_, hrun⟩ | ⟨_, heq⟩
    · exact (hrecover sides opened left).quiet t () u hrun hu
    · exact heq ▸ hu
  constructor
  · intro parser _ u hrun hu
    have ⟨_, _, hget, hrun⟩ := bind_eq_ok.mp hrun
    cases hget
    have ⟨_, t, hroutine, hrest⟩ := bind_eq_ok.mp hrun
    exact (h sides opened left).quiet parser () t hroutine (hquiet hrest hu)
  · intro parser parser' _ _ u u' hat hrun hrun' hu
    have ⟨_, _, hget, hrun⟩ := bind_eq_ok.mp hrun
    have ⟨_, _, hget', hrun'⟩ := bind_eq_ok.mp hrun'
    cases hget
    cases hget'
    have ⟨_, t, hroutine, hrest⟩ := bind_eq_ok.mp hrun
    have ⟨_, t', hroutine', hrest'⟩ := bind_eq_ok.mp hrun'
    -- counted from the tokens that are left: the routine takes one, so both positions move
    have htight : sides.At (opened + 0) parser.significant.length parser parser' := { hat.1 with left := Nat.le_refl _ }
    have ⟨_, hpos, hstep⟩ := (h sides opened _).keeps parser parser' () () t t' ⟨htight, hat.2⟩ hroutine hroutine'
      (hquiet hrest hu)
    have hlength := hat.1.left
    have hless := hstep.left
    have hmoved := htight.position_ne hstep (by omega)
    rcases hsplit hrest with ⟨heq, _⟩ | ⟨_, heq⟩
    · exact absurd heq hmoved.1
    rcases hsplit hrest' with ⟨heq', _⟩ | ⟨_, heq'⟩
    · exact absurd heq' hmoved.2
    subst heq heq'
    exact ⟨rfl, by omega, hstep.mono (by omega)⟩

/-! ### Checkpoints -/

/-- Where a routine stands when it begins. -/
theorem Alike.checkpoint {k k' : Nat → Parse Unit}
    (h : ∀ (sides : Sides) (left : Nat), Lockstep Quiet (sides.At 0 left)
      (fun parser parser' ↦ taken ≤ left ∧ sides.At 0 (left - taken) parser parser') (k sides.before.length)
      (k' sides.before'.length)) : Alike 0 taken (Source.checkpoint >>= k) (Source.checkpoint >>= k') := by
  intro sides opened left
  constructor
  · intro parser a t hrun hquiet
    exact (h { sides with before := parser.children } left).quiet parser a t hrun hquiet
  · intro parser parser' a a' t t' hat hrun hrun' hquiet
    have ⟨heq, htaken, hat'⟩ :=
      (h (Sides.At.inner sides parser parser') left).keeps parser parser' a a' t t' hat.1.enter hrun hrun' hquiet
    exact ⟨heq, htaken, hat.1.leave hat'⟩

/-- What the routine does behind its checkpoint, with `opened` nodes open that it has to close. -/
def Sides.Ends (sides : Sides) (opened left : Nat) (routine routine' : Parse Unit) : Prop :=
  Lockstep Quiet (sides.At opened left) (sides.At 0 left) routine routine'

namespace Sides.Ends

theorem nothing {value : Unit} : sides.Ends 0 left (pure value) (pure value) := .pure fun _ _ hat ↦ hat

theorem next (h : Alike 0 0 routine routine') (hrest : sides.Ends opened left rest rest') :
    sides.Ends opened left (do routine; rest) (do routine'; rest') :=
  (h.apply sides opened left).and_then fun _ ↦ Lockstep.mono hrest (fun _ _ hat ↦ hat.2) fun _ _ hat ↦ hat

theorem finish [Rowan] (hrest : sides.Ends opened left rest rest') :
    sides.Ends (opened + 1) left (do Source.finish; rest) (do Source.finish; rest') :=
  (Alike.apply .last sides opened left).and_then fun _ ↦ Lockstep.mono hrest (fun _ _ hat ↦ hat.2) fun _ _ hat ↦ hat

theorem read {program program' : Parser → Parse Unit}
    (h : ∀ parser parser', parser'.significant = parser.significant →
      sides.Ends opened left (program parser) (program' parser')) :
    sides.Ends opened left (get >>= program) (get >>= program') :=
  Lockstep.read Parser.significant Parser.significant (fun _ _ hat ↦ hat.significant)
    (fun parser a t ↦ Lockstep.quiet (h parser parser rfl) parser a t)
    fun parser parser' hsame ↦ Lockstep.mono (h parser parser' hsame.symm) (fun _ _ hat ↦ hat.1) fun _ _ hat ↦ hat

theorem either {c : Prop} [Decidable c] (hyes : sides.Ends opened left yes yes') (hno : sides.Ends opened left no no') :
    sides.Ends opened left (if c then yes else no) (if c then yes' else no') := by
  by_cases h : c
  · rw [if_pos h, if_pos h]
    exact hyes
  · rw [if_neg h, if_neg h]
    exact hno

/-- A node that takes the trees since the checkpoint. -/
theorem startNodeAt [Rowan] (hrest : sides.Ends 1 left rest rest') :
    sides.Ends 0 left (do Source.startNodeAt sides.before.length kind; rest)
      (do Source.startNodeAt sides.before'.length kind; rest') := by
  suffices hopen : Lockstep Quiet (sides.At 0 left) (sides.At 1 left) (Source.startNodeAt sides.before.length kind)
      (Source.startNodeAt sides.before'.length kind) from hopen.and_then fun _ ↦ hrest
  constructor
  · intro parser a t hrun hquiet
    by_cases hvalid : parser.Valid sides.before.length
    · rw [Rowan.startNodeAt_opens _ kind parser hvalid] at hrun
      cases hrun
      exact hquiet
    · rw [Rowan.startNodeAt_panics _ kind parser hvalid] at hrun
      cases hrun
  · intro parser parser' a a' t t' hat hrun hrun' _
    have ⟨hframed, ht⟩ := startNodeAt_eq_ok hrun hat.framed
    have ⟨hframed', ht'⟩ := startNodeAt_eq_ok hrun' hat.framed'
    have ⟨built, hbuilt⟩ := hat.built
    have ⟨built', hbuilt'⟩ := hat.built'
    rw [ht, ht']
    refine ⟨rfl, hat.pushed (Nat.le_refl _) (Nat.le_refl _) hframed hframed' ?_⟩
    rw [hbuilt, hbuilt', List.take_left, List.take_left]
    exact hat.bases

end Sides.Ends

end

end Stainless.Syntax.Source
