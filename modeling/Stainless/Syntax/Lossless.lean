import Stainless.Syntax.SourceParser

/-!
# What every routine of the parser keeps

The leaves of the trees built so far, followed by the tokens that are left, are the tokens of the file.
A routine closes the nodes it opens and no others, returns for every input its budget covers, and never
meets an assertion of the builder.
-/

namespace Stainless.Syntax.Source

open Reasoning

/-! ## 1. Trees and positions -/

/-- The place behind the trees is no blank and no comment. -/
def Leads (file : List Token) (trees : List Tree) : Prop :=
  ∀ token, file[(leaves trees).length]? = some token → token.isTrivia = false

mutual

/-- Every node but the whole file begins with a token that is no blank and no comment. -/
def Tree.Tidy : Tree → Prop
  | .token _ => True
  | .node kind children =>
      (kind ≠ .sourceFile → ∀ token, (leaves children).head? = some token → token.isTrivia = false) ∧
        AllTidy children

def AllTidy : List Tree → Prop
  | [] => True
  | tree :: trees => tree.Tidy ∧ AllTidy trees

end

theorem allTidy_iff (trees : List Tree) : AllTidy trees ↔ ∀ tree ∈ trees, tree.Tidy := by
  induction trees with
  | nil =>
      constructor
      · intro _ tree h
        cases h
      · intro _
        trivial
  | cons tree trees ih => rw [AllTidy, ih, List.forall_mem_cons]

/-- The range of a token of the file that is no blank and no comment, or the end of the file. -/
def Located (file : List Token) (range : TextRange) : Prop :=
  (∃ before token after, file = before ++ token :: after ∧ token.isTrivia = false ∧
    range = ⟨size before, size before + token.size⟩) ∨ range = ⟨size file, size file⟩

/-- The open nodes begin one inside of the other. -/
def Framed : List (SyntaxKind × Nat) → Nat → Prop
  | [], _ => True
  | (_, first) :: parents, bound => first ≤ bound ∧ Framed parents first

theorem Framed.mono {parents : List (SyntaxKind × Nat)} {bound bound' : Nat} (h : Framed parents bound)
    (hle : bound ≤ bound') : Framed parents bound' := by
  cases parents with
  | nil => trivial
  | cons parent parents => exact ⟨Nat.le_trans h.1 hle, h.2⟩

theorem Framed.le {parents : List (SyntaxKind × Nat)} {bound : Nat} (h : Framed parents bound) :
    ∀ parent ∈ parents, parent.2 ≤ bound := by
  induction parents generalizing bound with
  | nil => exact fun _ h ↦ nomatch h
  | cons parent parents ih =>
      intro other hother
      rcases List.mem_cons.mp hother with rfl | hmem
      · exact h.1
      · exact Nat.le_trans (ih h.2 other hmem) h.1

theorem leaves_tokens (tokens : List Token) : leaves (tokens.map Tree.token) = tokens := by
  induction tokens with
  | nil => rfl
  | cons token tokens ih => rw [List.map_cons, leaves, ih, Tree.tokens, List.singleton_append]

/-! ## 2. The state between two steps -/

/-- The file, the errors of the lexer, and where a routine begins: the nodes that are open and the trees
that stand there. -/
structure Entry where
  file : List Token
  lexErrors : List ParseError
  frames : List (SyntaxKind × Nat)
  before : List Tree

/-- What holds of the parser between any two steps. -/
structure Entry.Keeps (entry : Entry) (parser : Parser) : Prop where
  text : leaves parser.children ++ parser.rest = entry.file
  position : parser.position = (leaves parser.children).length
  offset : parser.offset = size (leaves parser.children)
  errors : ∃ found, parser.errors = entry.lexErrors ++ found ∧ ∀ error ∈ found, Located entry.file error.range
  tidy : AllTidy parser.children
  framed : Framed parser.parents parser.children.length
  leads : ∀ parent ∈ parser.parents, parent.1 ≠ .sourceFile → Leads entry.file (parser.children.take parent.2)

/-- The routine has `opened` nodes of its own open, and at most `left` tokens are left. -/
structure Entry.At (entry : Entry) (opened left : Nat) (parser : Parser) : Prop where
  keeps : entry.Keeps parser
  parents : ∃ own, own.length = opened ∧ parser.parents = own ++ entry.frames ∧
    ∀ parent ∈ own, entry.before.length ≤ parent.2
  children : ∃ built, parser.children = entry.before ++ built
  framed : Framed entry.frames entry.before.length
  left : parser.rest.length ≤ left

/-- The parser after the first of its tokens. -/
def Parser.taken (parser : Parser) (tokens rest : List Token) : Parser :=
  { parser with
    rest, position := parser.position + tokens.length, offset := parser.offset + size tokens
    children := parser.children ++ tokens.map Tree.token }

theorem bumpRaw_iterate {parser : Parser} {tokens rest : List Token} (h : parser.rest = tokens ++ rest) :
    Parser.bumpRaw^[tokens.length] parser = parser.taken tokens rest := by
  induction tokens generalizing parser with
  | nil =>
      rw [List.nil_append] at h
      subst h
      show parser = _
      rw [Parser.taken, List.map_nil, List.append_nil]
      rfl
  | cons token tokens ih =>
      have hbump : parser.bumpRaw = parser.taken [token] (tokens ++ rest) := by
        unfold Parser.bumpRaw
        rw [h]
        rfl
      have hrest : Parser.bumpRaw^[tokens.length] (parser.taken [token] (tokens ++ rest)) =
          (parser.taken [token] (tokens ++ rest)).taken tokens rest := ih rfl
      rw [List.length_cons, Function.iterate_succ_apply, hbump, hrest]
      unfold Parser.taken
      dsimp only
      have hlength : [token].length + tokens.length = (token :: tokens).length := Nat.add_comm _ _
      rw [List.append_assoc, ← List.map_append, List.singleton_append, Nat.add_assoc, Nat.add_assoc, ← size_append,
        List.singleton_append, hlength]

variable {entry : Entry} {opened left : Nat} {parser : Parser}

theorem Entry.Keeps.taken (h : entry.Keeps parser) {tokens rest : List Token}
    (hrest : parser.rest = tokens ++ rest) : entry.Keeps (parser.taken tokens rest) := by
  have hleaves : leaves (parser.taken tokens rest).children = leaves parser.children ++ tokens := by
    show leaves (parser.children ++ tokens.map Tree.token) = _
    rw [leaves_append, leaves_tokens]
  constructor
  case text => rw [hleaves, List.append_assoc, ← h.text, hrest]; rfl
  case position =>
    rw [hleaves, List.length_append, ← h.position]
    rfl
  case offset =>
    rw [hleaves, size_append, ← h.offset]
    rfl
  case errors => exact h.errors
  case tidy =>
    show AllTidy (parser.children ++ tokens.map Tree.token)
    rw [allTidy_iff, List.forall_mem_append, ← allTidy_iff]
    refine ⟨h.tidy, fun tree htree ↦ ?_⟩
    have ⟨token, _, heq⟩ := List.mem_map.mp htree
    rw [← heq]
    trivial
  case framed =>
    refine h.framed.mono ?_
    show _ ≤ (parser.children ++ tokens.map Tree.token).length
    rw [List.length_append]
    omega
  case leads =>
    intro parent hparent hkind
    have hle := h.framed.le parent hparent
    show Leads entry.file ((parser.children ++ tokens.map Tree.token).take parent.2)
    rw [List.take_append_of_le_length hle]
    exact h.leads parent hparent hkind

namespace Entry.At

theorem mono (h : entry.At opened left parser) {left' : Nat} (hle : left ≤ left') :
    entry.At opened left' parser :=
  { h with left := Nat.le_trans h.left hle }

theorem tight (h : entry.At opened left parser) : entry.At opened parser.rest.length parser :=
  { h with left := Nat.le_refl _ }

theorem taken (h : entry.At opened left parser) {tokens rest : List Token}
    (hrest : parser.rest = tokens ++ rest) : entry.At opened (left - tokens.length) (parser.taken tokens rest) := by
  have ⟨built, hbuilt⟩ := h.children
  have hleft := h.left
  rw [hrest, List.length_append] at hleft
  exact {
    keeps := h.keeps.taken hrest
    parents := h.parents
    children := ⟨built ++ tokens.map Tree.token, by
      show parser.children ++ _ = _
      rw [hbuilt, List.append_assoc]⟩
    framed := h.framed
    left := by
      show rest.length ≤ _
      omega }

end Entry.At

/-! ## 3. The steps of the builder -/

theorem trivia_append (parser : Parser) :
    parser.rest = parser.trivia ++ parser.rest.dropWhile Token.isTrivia :=
  List.takeWhile_append_dropWhile.symm

theorem eatTrivia_eq (parser : Parser) :
    parser.eatTrivia = parser.taken parser.trivia (parser.rest.dropWhile Token.isTrivia) :=
  bumpRaw_iterate (trivia_append parser)

theorem filter_dropWhile (tokens : List Token) :
    ((tokens.dropWhile Token.isTrivia).filter fun token ↦ !token.isTrivia) =
      tokens.filter fun token ↦ !token.isTrivia := by
  induction tokens with
  | nil => rfl
  | cons token tokens ih =>
      cases h : token.isTrivia with
      | true => rw [List.dropWhile_cons_of_pos h, ih, List.filter_cons_of_neg (by rw [h]; decide)]
      | false => rw [List.dropWhile_cons_of_neg (by rw [h]; decide)]

theorem significant_eatTrivia (parser : Parser) : parser.eatTrivia.significant = parser.significant := by
  rw [eatTrivia_eq]
  exact filter_dropWhile parser.rest

theorem head_dropWhile {tokens rest : List Token} {token : Token}
    (h : tokens.dropWhile Token.isTrivia = token :: rest) : token.isTrivia = false := by
  induction tokens with
  | nil => cases h
  | cons first tokens ih =>
      cases hfirst : first.isTrivia with
      | true =>
          rw [List.dropWhile_cons_of_pos hfirst] at h
          exact ih h
      | false =>
          rw [List.dropWhile_cons_of_neg (by rw [hfirst]; decide)] at h
          cases h
          exact hfirst

theorem significant_congr {parser' : Parser} (h : parser'.rest = parser.rest) :
    parser'.significant = parser.significant := by
  rw [Parser.significant, h]
  rfl

/-- What is asked of the kinds ahead is the same for both. -/
theorem isAt_congr {parser' : Parser} (h : parser'.significant = parser.significant) (kind : SyntaxKind) :
    parser'.isAt kind = parser.isAt kind := by
  unfold Parser.isAt Parser.current Parser.ahead
  rw [h]

theorem atEnd_congr {parser' : Parser} (h : parser'.significant = parser.significant) :
    parser'.atEnd = parser.atEnd := by
  unfold Parser.atEnd Parser.current Parser.ahead
  rw [h]

theorem atAny_congr {parser' : Parser} (h : parser'.significant = parser.significant) (kinds : List SyntaxKind) :
    parser'.atAny kinds = parser.atAny kinds := by
  unfold Parser.atAny Parser.current Parser.ahead
  rw [h]

theorem atEnd_of_isAt {kind : SyntaxKind} (h : parser.isAt kind = true) : parser.atEnd = false := by
  have hcurrent : parser.current = some kind := of_decide_eq_true h
  rw [Parser.atEnd, hcurrent]
  rfl

theorem atEnd_of_atAny {kinds : List SyntaxKind} (h : parser.atAny kinds = true) : parser.atEnd = false := by
  rw [Parser.atEnd]
  cases hcurrent : parser.current with
  | none =>
      rw [Parser.atAny, hcurrent] at h
      cases h
  | some kind => rfl

theorem atEnd_iff : parser.atEnd = true ↔ parser.significant = [] := by
  unfold Parser.atEnd Parser.current Parser.ahead
  rw [Option.isNone_iff_eq_none, List.head?_eq_none_iff, List.map_eq_nil_iff]

/-- The token at hand, behind blanks and comments. -/
theorem dropWhile_of_atEnd (h : parser.atEnd = false) :
    ∃ token rest, parser.rest.dropWhile Token.isTrivia = token :: rest := by
  cases hdrop : parser.rest.dropWhile Token.isTrivia with
  | nil =>
      have hend : parser.atEnd = true := by
        rw [atEnd_iff]
        have hfilter := filter_dropWhile parser.rest
        rw [hdrop] at hfilter
        exact hfilter.symm
      rw [h] at hend
      cases hend
  | cons token rest => exact ⟨token, rest, rfl⟩

theorem bump_eq_of_cons {token : Token} {rest : List Token}
    (h : parser.rest.dropWhile Token.isTrivia = token :: rest) :
    parser.eatTrivia.bumpRaw = parser.taken (parser.trivia ++ [token]) rest := by
  have hrest : parser.rest = (parser.trivia ++ [token]) ++ rest := by
    rw [List.append_assoc, List.singleton_append, ← h]
    exact trivia_append parser
  have hlength : (parser.trivia ++ [token]).length = parser.trivia.length + 1 := List.length_append
  rw [← bumpRaw_iterate hrest, hlength, Function.iterate_succ_apply']
  rfl

theorem bump_eq_of_nil (h : parser.rest.dropWhile Token.isTrivia = []) :
    parser.eatTrivia.bumpRaw = parser.taken parser.trivia [] := by
  rw [eatTrivia_eq, h]
  rfl

namespace Entry.At

theorem eatTrivia (h : entry.At opened left parser) : entry.At opened left parser.eatTrivia := by
  rw [eatTrivia_eq]
  exact (h.taken (trivia_append parser)).mono (Nat.sub_le _ _)

/-- A token is taken wherever one is left. -/
theorem bumped (h : entry.At opened left parser) (hend : parser.atEnd = false) :
    0 < left ∧ entry.At opened (left - 1) parser.eatTrivia.bumpRaw := by
  have ⟨token, rest, hdrop⟩ := dropWhile_of_atEnd hend
  have hrest : parser.rest = (parser.trivia ++ [token]) ++ rest := by
    rw [List.append_assoc, List.singleton_append, ← hdrop]
    exact trivia_append parser
  have hleft := h.left
  have hlength : (parser.trivia ++ [token]).length = parser.trivia.length + 1 := List.length_append
  rw [hrest, List.length_append, hlength] at hleft
  refine ⟨by omega, ?_⟩
  rw [bump_eq_of_cons hdrop]
  exact (h.taken hrest).mono (by omega)

theorem bump (h : entry.At opened left parser) :
    Returns parser bump fun _ parser ↦ entry.At opened left parser := by
  refine .modify ?_
  cases hdrop : parser.rest.dropWhile Token.isTrivia with
  | nil =>
      rw [bump_eq_of_nil hdrop]
      refine (h.taken ?_).mono (Nat.sub_le _ _)
      rw [← hdrop]
      exact trivia_append parser
  | cons token rest =>
      have hend : parser.atEnd = false := by
        cases hend : parser.atEnd with
        | false => rfl
        | true =>
            have hnil := filter_dropWhile parser.rest
            rw [hdrop, List.filter_cons_of_pos (by rw [head_dropWhile hdrop]; rfl)] at hnil
            have hsig := atEnd_iff.mp hend
            unfold Parser.significant at hsig
            rw [hsig] at hnil
            cases hnil
      exact (h.bumped hend).2.mono (Nat.sub_le _ _)

theorem bump_one (h : entry.At opened left parser) (hend : parser.atEnd = false) :
    0 < left ∧ Returns parser Source.bump fun _ parser ↦ entry.At opened (left - 1) parser :=
  ⟨(h.bumped hend).1, .modify (h.bumped hend).2⟩

theorem eat (h : entry.At opened left parser) (kind : SyntaxKind) :
    Returns parser (eat kind) fun _ parser ↦ entry.At opened left parser :=
  .provided (fun _ ↦ h.bump) (fun _ ↦ h)

theorem range_located (h : entry.At opened left parser) : Located entry.file parser.range := by
  have htext := h.keeps.text
  have hoffset := h.keeps.offset
  have hsplit := trivia_append parser
  have hfilter := filter_dropWhile parser.rest
  unfold Parser.range Parser.significant
  rw [← hfilter]
  cases hdrop : parser.rest.dropWhile Token.isTrivia with
  | nil =>
      right
      rw [hdrop, List.append_nil] at hsplit
      rw [← htext, hsplit, size_append, ← hoffset, ← hsplit]
      rfl
  | cons token rest =>
      left
      have htrivia := head_dropWhile hdrop
      refine ⟨leaves parser.children ++ parser.trivia, token, rest, ?_, htrivia, ?_⟩
      · rw [← htext, List.append_assoc, ← hdrop, ← hsplit]
      · rw [List.filter_cons_of_pos (by rw [htrivia]; rfl), size_append, hoffset]
        rfl

theorem error (h : entry.At opened left parser) (message : String) :
    Returns parser (error message) fun _ t ↦ entry.At opened left t ∧ t.rest = parser.rest := by
  have ⟨found, heq, hfound⟩ := h.keeps.errors
  refine .modify ⟨{ h with keeps := { h.keeps with errors := ?_ } }, rfl⟩
  refine ⟨found ++ [⟨message, parser.range⟩], ?_, ?_⟩
  · show parser.errors ++ _ = _
    rw [heq, List.append_assoc]
  · rw [List.forall_mem_append]
    refine ⟨hfound, fun error herror ↦ ?_⟩
    rw [List.mem_singleton.mp herror]
    exact h.range_located

theorem expect (h : entry.At opened left parser) (kind : SyntaxKind) (message : String) :
    Returns parser (expect kind message) fun _ parser ↦ entry.At opened left parser :=
  .whether (fun _ ↦ h.bump) fun _ ↦ (h.error message).mono fun _ _ ht ↦ ht.1

/-- An expected token that stands there. -/
theorem expect_one (h : entry.At opened left parser) {kind : SyntaxKind} (hat : parser.isAt kind = true)
    (message : String) :
    0 < left ∧ Returns parser (Source.expect kind message) fun _ parser ↦ entry.At opened (left - 1) parser := by
  have ⟨hpos, hret⟩ := h.bump_one (atEnd_of_isAt hat)
  refine ⟨hpos, .whether (fun _ ↦ hret) fun hnot ↦ ?_⟩
  rw [hat] at hnot
  cases hnot

/-- Behind blanks and comments the place is no blank and no comment. -/
theorem leads_eatTrivia (h : entry.At opened left parser) : Leads entry.file parser.eatTrivia.children := by
  intro token htoken
  have htext := h.eatTrivia.keeps.text
  rw [← htext, List.getElem?_append_right (Nat.le_refl _), Nat.sub_self, ← List.head?_eq_getElem?] at htoken
  have hrest : parser.eatTrivia.rest = parser.rest.dropWhile Token.isTrivia := by
    rw [eatTrivia_eq]
    rfl
  rw [hrest] at htoken
  cases hdrop : parser.rest.dropWhile Token.isTrivia with
  | nil =>
      rw [hdrop] at htoken
      cases htoken
  | cons first rest =>
      rw [hdrop] at htoken
      cases htoken
      exact head_dropWhile hdrop

/-- A node is opened, which begins behind all trees so far or at the entry. -/
theorem pushed (h : entry.At opened left parser) {kind : SyntaxKind} {first : Nat}
    (hfirst : entry.before.length ≤ first) (hbound : first ≤ parser.children.length)
    (hframed : Framed parser.parents first) (hleads : Leads entry.file (parser.children.take first)) :
    entry.At (opened + 1) left (parser.opened kind first) := by
  have ⟨own, hlength, hparents, hown⟩ := h.parents
  exact {
    keeps := { h.keeps with
      framed := ⟨hbound, hframed⟩
      leads := by
        unfold Parser.opened
        rw [List.forall_mem_cons]
        exact ⟨fun _ ↦ hleads, h.keeps.leads⟩ }
    parents := by
      refine ⟨(kind, first) :: own, by rw [List.length_cons, hlength], ?_, ?_⟩
      · show (kind, first) :: parser.parents = _
        rw [hparents]
        rfl
      · rw [List.forall_mem_cons]
        exact ⟨hfirst, hown⟩
    children := h.children
    framed := h.framed
    left := h.left }

theorem start [Rowan] (h : entry.At opened left parser) (kind : SyntaxKind) :
    Returns parser (start kind) fun _ t ↦ entry.At (opened + 1) left t ∧ t.significant = parser.significant := by
  have hat := h.eatTrivia
  have ⟨built, hbuilt⟩ := hat.children
  refine .and_then (R := fun _ t ↦ t = parser.eatTrivia) (.modify rfl) fun _ t ht ↦ ?_
  subst ht
  rw [Rowan.startNode_eq]
  refine .modify ⟨hat.pushed ?_ (Nat.le_refl _) hat.keeps.framed ?_, significant_eatTrivia parser⟩
  · rw [hbuilt, List.length_append]
    omega
  · rw [List.take_length]
    exact h.leads_eatTrivia

/-- A node that takes the trees since the entry. -/
theorem startNodeAt [Rowan] (h : entry.At 0 left parser) (hleads : Leads entry.file entry.before) (kind : SyntaxKind) :
    Returns parser (startNodeAt entry.before.length kind) fun _ t ↦
      entry.At 1 left t ∧ t.significant = parser.significant := by
  have ⟨own, hlength, hparents, _⟩ := h.parents
  rw [List.eq_nil_of_length_eq_zero hlength, List.nil_append] at hparents
  have ⟨built, hbuilt⟩ := h.children
  have hbound : entry.before.length ≤ parser.children.length := by
    rw [hbuilt, List.length_append]
    omega
  have hframed : Framed parser.parents entry.before.length := by
    rw [hparents]
    exact h.framed
  have hvalid : parser.Valid entry.before.length := by
    refine ⟨hbound, fun parent hparent ↦ ?_⟩
    cases hp : parser.parents with
    | nil =>
        rw [hp] at hparent
        cases hparent
    | cons first parents =>
        rw [hp] at hframed hparent
        cases hparent
        exact hframed.1
  have hpushed : entry.At 1 left (parser.opened kind entry.before.length) := by
    refine h.pushed (Nat.le_refl _) hbound hframed ?_
    rw [hbuilt, List.take_left]
    exact hleads
  exact returns_iff.mpr ⟨(), _, Rowan.startNodeAt_opens _ kind parser hvalid, hpushed, rfl⟩

/-- The innermost node is closed. -/
theorem finish [Rowan] (h : entry.At (opened + 1) left parser) :
    Returns parser finish fun _ t ↦ entry.At opened left t ∧ t.rest = parser.rest := by
  have ⟨own, hlength, hparents, hown⟩ := h.parents
  cases own with
  | nil => cases hlength
  | cons parent own =>
      obtain ⟨kind, first⟩ := parent
      rw [List.cons_append] at hparents
      rw [List.forall_mem_cons] at hown
      have ⟨built, hbuilt⟩ := h.children
      have hframed := h.keeps.framed
      have hleads := h.keeps.leads
      rw [hparents] at hframed hleads
      rw [List.forall_mem_cons] at hleads
      have htake : (parser.children.take first).length = first := List.length_take_of_le hframed.1
      have hsplit : leaves parser.children =
          leaves (parser.children.take first) ++ leaves (parser.children.drop first) := by
        rw [← leaves_append, List.take_append_drop]
      have hleaves : leaves (parser.children.take first ++ [.node kind (parser.children.drop first)]) =
          leaves parser.children := by
        rw [leaves_append, leaves, leaves, List.append_nil, Tree.tokens, hsplit]
      refine returns_iff.mpr ⟨(), _, Rowan.finish_closes parser kind first _ hparents, ?_, rfl⟩
      unfold Parser.closed
      constructor
      case keeps =>
        constructor
        case text =>
          rw [hleaves]
          exact h.keeps.text
        case position =>
          rw [hleaves]
          exact h.keeps.position
        case offset =>
          rw [hleaves]
          exact h.keeps.offset
        case errors => exact h.keeps.errors
        case tidy =>
          have htidy := h.keeps.tidy
          rw [← List.take_append_drop first parser.children, allTidy_iff, List.forall_mem_append] at htidy
          rw [allTidy_iff, List.forall_mem_append]
          refine ⟨htidy.1, fun tree htree ↦ ?_⟩
          rw [List.mem_singleton.mp htree]
          refine ⟨fun hkind token htoken ↦ ?_, (allTidy_iff _).mpr htidy.2⟩
          -- the node's first token stands where the node was opened
          apply hleads.1 hkind
          have htext := h.keeps.text
          rw [hsplit, List.append_assoc] at htext
          rw [← htext, List.getElem?_append_right (Nat.le_refl _), Nat.sub_self, ← List.head?_eq_getElem?]
          rw [List.head?_append, htoken]
          rfl
        case framed =>
          refine hframed.2.mono ?_
          rw [List.length_append, htake]
          omega
        case leads =>
          intro parent hparent hkind
          have hle := hframed.2.le parent hparent
          rw [List.take_append_of_le_length (by omega), List.take_take, Nat.min_eq_left hle]
          exact hleads.2 parent hparent hkind
      case parents => exact ⟨own, Nat.succ.inj hlength, rfl, hown.2⟩
      case children =>
        refine ⟨(parser.children.take first).drop entry.before.length ++ [.node kind (parser.children.drop first)], ?_⟩
        have hprefix : (parser.children.take first).take entry.before.length = entry.before := by
          rw [List.take_take, Nat.min_eq_left hown.1, hbuilt, List.take_left]
        rw [← List.append_assoc]
        rw [← List.take_append_drop entry.before.length (parser.children.take first), hprefix]
        rw [List.drop_append_of_le_length (Nat.le_refl _), List.drop_length, List.nil_append]
      case framed => exact h.framed
      case left => exact h.left

/-- A routine inside of this one, which begins where this one stands. -/
def inner (entry : Entry) (parser : Parser) : Entry :=
  { entry with frames := parser.parents, before := parser.children }

theorem enter (h : entry.At opened left parser) : (inner entry parser).At 0 left parser where
  keeps := { h.keeps with }
  parents := ⟨[], rfl, rfl, nofun⟩
  children := ⟨[], (List.append_nil _).symm⟩
  framed := h.keeps.framed
  left := h.left

theorem leave (h : entry.At opened left parser) {left' : Nat} {parser' : Parser}
    (h' : (inner entry parser).At 0 left' parser') : entry.At opened left' parser' := by
  have ⟨own, hlength, hparents, hown⟩ := h.parents
  have ⟨built, hbuilt⟩ := h.children
  have ⟨own', hlength', hparents', _⟩ := h'.parents
  have ⟨built', hbuilt'⟩ := h'.children
  rw [List.eq_nil_of_length_eq_zero hlength'] at hparents'
  exact {
    keeps := { h'.keeps with }
    parents := ⟨own, hlength, hparents'.trans hparents, hown⟩
    children := ⟨built ++ built', by
      rw [hbuilt', inner, hbuilt, List.append_assoc]⟩
    framed := h.framed
    left := h'.left }

/-- No token is taken, or fewer are left. -/
theorem same_or_fewer (h : entry.At opened left parser) {opened' : Nat} {parser' : Parser}
    (h' : entry.At opened' parser.rest.length parser') :
    parser'.rest = parser.rest ∨
      0 < parser.rest.length ∧ entry.At opened' (parser.rest.length - 1) parser' := by
  by_cases hlength : parser'.rest.length = parser.rest.length
  · left
    have htext := h'.keeps.text.trans h.keeps.text.symm
    exact (List.append_inj' htext hlength).2
  · right
    have hle := h'.left
    exact ⟨by omega, { h' with left := by omega }⟩

theorem position_eq_iff (h : entry.At opened left parser) {opened' left' : Nat} {parser' : Parser}
    (h' : entry.At opened' left' parser') :
    parser'.position = parser.position ↔ parser'.rest.length = parser.rest.length := by
  have htext := congrArg List.length (h'.keeps.text.trans h.keeps.text.symm)
  rw [List.length_append, List.length_append] at htext
  rw [h.keeps.position, h'.keeps.position]
  omega

end Entry.At

/-! ## 4. Routines -/

theorem Entry.At.succ (h : entry.At opened left parser) : entry.At opened (left + 1) parser :=
  h.mono (Nat.le_succ left)

/-- Wherever fewer than `budget` tokens are left the routine returns: it closes `count` nodes that were
open and every node that it opens, and gives no token back. -/
def Closes (count budget : Nat) (routine : Parse Unit) : Prop :=
  ∀ (entry : Entry) (opened left : Nat) (parser : Parser), left < budget → entry.At (opened + count) left parser →
    Returns parser routine fun _ parser ↦ entry.At opened left parser

abbrev Handles (budget : Nat) (routine : Parse Unit) : Prop := Closes 0 budget routine

/-- At a token of this kind the routine takes one, too. -/
def TakesAt (kind : SyntaxKind) (budget : Nat) (routine : Parse Unit) : Prop :=
  ∀ (entry : Entry) (opened left : Nat) (parser : Parser), left < budget → parser.isAt kind = true →
    entry.At opened left parser → 0 < left ∧ Returns parser routine fun _ parser ↦ entry.At opened (left - 1) parser

/-- At any token the routine takes one, too. -/
def Takes (budget : Nat) (routine : Parse Unit) : Prop :=
  ∀ (entry : Entry) (opened left : Nat) (parser : Parser), left < budget → parser.atEnd = false →
    entry.At opened left parser → 0 < left ∧ Returns parser routine fun _ parser ↦ entry.At opened (left - 1) parser

section

variable {count budget budget' : Nat} {kind : SyntaxKind} {routine rest yes no element : Parse Unit}
variable {test : Parser → Bool}

theorem Closes.mono (h : Closes count budget routine) (hle : budget' ≤ budget) : Closes count budget' routine :=
  fun entry opened left parser hleft ↦ h entry opened left parser (Nat.lt_of_lt_of_le hleft hle)

theorem Takes.mono (h : Takes budget routine) (hle : budget' ≤ budget) : Takes budget' routine :=
  fun entry opened left parser hleft ↦ h entry opened left parser (Nat.lt_of_lt_of_le hleft hle)

theorem TakesAt.mono (h : TakesAt kind budget routine) (hle : budget' ≤ budget) : TakesAt kind budget' routine :=
  fun entry opened left parser hleft ↦ h entry opened left parser (Nat.lt_of_lt_of_le hleft hle)

theorem Takes.takesAt (h : Takes budget routine) (kind : SyntaxKind) : TakesAt kind budget routine :=
  fun entry opened left parser hleft hat ↦ h entry opened left parser hleft (atEnd_of_isAt hat)

theorem closes_zero : Closes count 0 routine := fun _ _ _ _ hleft ↦ absurd hleft (Nat.not_lt_zero _)

theorem Closes.bump : Handles budget Source.bump := fun _ _ _ _ _ h ↦ h.bump

theorem Closes.eat : Handles budget (Source.eat kind) := fun _ _ _ _ _ h ↦ h.eat kind

theorem Closes.expect {message : String} : Handles budget (expect kind message) :=
  fun _ _ _ _ _ h ↦ h.expect kind message

theorem Closes.error {message : String} : Handles budget (Source.error message) :=
  fun _ _ _ _ _ h ↦ (h.error message).mono fun _ _ ht ↦ ht.1

theorem Closes.nothing : Handles budget (pure ()) := fun _ _ _ _ _ h ↦ .pure h

theorem Takes.bump : Takes budget Source.bump := fun _ _ _ _ _ hend h ↦ h.bump_one hend

/-- The last statement of a routine that opened a node. -/
theorem Closes.last [Rowan] : Closes 1 budget Source.finish :=
  fun _ _ _ _ _ h ↦ h.finish.mono fun _ _ ht ↦ ht.1

theorem Closes.finish [Rowan] (hrest : Closes count budget rest) : Closes (count + 1) budget (do Source.finish; rest) :=
  fun entry opened left _ hleft h ↦
    h.finish.and_then fun _ parser ht ↦ hrest entry opened left parser hleft ht.1

theorem Closes.start [Rowan] (hrest : Closes (count + 1) budget rest) : Closes count budget (do Source.start kind; rest) :=
  fun entry opened left _ hleft h ↦
    (h.start kind).and_then fun _ parser ht ↦ hrest entry opened left parser hleft ht.1

theorem Closes.and_then (h : Handles budget routine) (hrest : Closes count budget rest) :
    Closes count budget (do routine; rest) :=
  fun entry opened left parser hleft hat ↦
    (h entry (opened + count) left parser hleft hat).and_then fun _ parser hat ↦
      hrest entry opened left parser hleft hat

theorem Closes.read {program : Parser → Parse Unit} (h : ∀ parser, Closes count budget (program parser)) :
    Closes count budget (do let parser ← get; program parser) :=
  fun entry opened left parser hleft hat ↦ .read (h parser entry opened left parser hleft hat)

theorem Closes.whether (hyes : Closes count budget yes) (hno : Closes count budget no) :
    Closes count budget (Reasoning.whether test yes no) :=
  fun entry opened left parser hleft hat ↦
    .whether (fun _ ↦ hyes entry opened left parser hleft hat) fun _ ↦ hno entry opened left parser hleft hat

theorem Closes.provided (h : Handles budget routine) : Handles budget (Reasoning.provided test routine) :=
  h.whether .nothing

/-- A branch for a token of one kind. -/
theorem TakesAt.orElse (hyes : TakesAt kind budget yes) (hno : Handles budget no) :
    Handles budget (Reasoning.whether (·.isAt kind) yes no) :=
  fun entry opened left parser hleft hat ↦
    .whether (fun htest ↦ (hyes entry opened left parser hleft htest hat).2.mono fun _ _ ht ↦ ht.mono (Nat.sub_le _ _))
      fun _ ↦ hno entry opened left parser hleft hat

theorem TakesAt.provided (h : TakesAt kind budget routine) :
    Handles budget (Reasoning.provided (·.isAt kind) routine) :=
  h.orElse .nothing

/-- A first statement that takes a token leaves fewer for the others. -/
theorem Takes.and_then (h : Takes (budget + 1) routine) (hrest : Handles budget rest) :
    Takes (budget + 1) (do routine; rest) :=
  fun entry opened left parser hleft hend hat ↦
    have ⟨hpos, hret⟩ := h entry opened left parser hleft hend hat
    ⟨hpos, hret.and_then fun _ parser hat ↦ hrest entry opened (left - 1) parser (by omega) hat⟩

/-- A routine that a keyword leads to: its node begins with the token at hand. -/
theorem Takes.node [Rowan] (hrest : Closes 1 budget rest) : Takes (budget + 1) (do Source.start kind; Source.bump; rest) := by
  intro entry opened left parser hleft hend hat
  have hpos := (hat.bump_one hend).1
  refine ⟨hpos, (hat.start kind).and_then fun _ parser ht ↦ ?_⟩
  have ⟨_, hret⟩ := ht.1.bump_one ((atEnd_congr ht.2).trans hend)
  exact hret.and_then fun _ parser hat ↦ hrest entry opened (left - 1) parser (by omega) hat

/-- A node that begins with something that takes a token of this kind. -/
theorem TakesAt.node [Rowan] {node : SyntaxKind} (h : TakesAt kind (budget + 1) routine) (hrest : Closes 1 budget rest) :
    TakesAt kind (budget + 1) (do Source.start node; routine; rest) := by
  intro entry opened left parser hleft hat h'
  have hpos := (h'.bump_one (atEnd_of_isAt hat)).1
  refine ⟨hpos, (h'.start node).and_then fun _ parser ht ↦ ?_⟩
  have ⟨_, hret⟩ := h entry (opened + 1) left parser hleft ((isAt_congr ht.2 kind).trans hat) ht.1
  exact hret.and_then fun _ parser hat ↦ hrest entry opened (left - 1) parser (by omega) hat

theorem TakesAt.expect {message : String} : TakesAt kind budget (Source.expect kind message) :=
  fun _ _ _ _ _ hat h ↦ h.expect_one hat message

theorem Closes.commaSeparated {close : SyntaxKind} (h : Handles budget element) {passes : Nat}
    (hpasses : budget ≤ passes) : Handles budget (Source.commaSeparated close element passes) :=
  fun entry opened left _ hleft hat ↦
    .separated (I := fun left parser ↦ entry.At opened left parser)
      (fun left parser hle hat _ ↦ h entry opened left parser (by omega) hat)
      (fun _ _ hat hmore ↦ hat.bump_one (atEnd_of_isAt hmore)) (fun _ _ hat ↦ hat.succ) hat (by omega)

theorem Closes.commaChained (h : Handles budget element) {passes : Nat} (hpasses : budget ≤ passes) :
    Handles budget (Source.commaChained element passes) :=
  fun entry opened left _ hleft hat ↦
    .chained (I := fun left parser ↦ entry.At opened left parser)
      (fun left parser hle hat ↦ h entry opened left parser (by omega) hat)
      (fun _ _ hat hmore ↦ hat.bump_one (atEnd_of_isAt hmore)) (fun _ _ hat ↦ hat.succ) hat (by omega)

/-- A loop whose every pass takes a token. -/
theorem Closes.repeatUntil {pass : Parse Unit}
    (hpass : ∀ (entry : Entry) (opened left : Nat) (parser : Parser), left < budget → test parser = false →
      entry.At opened left parser → 0 < left ∧ Returns parser pass fun _ parser ↦ entry.At opened (left - 1) parser)
    {passes : Nat} (hpasses : budget ≤ passes) : Handles budget (Reasoning.repeatUntil .budget test pass passes) :=
  fun entry opened left _ hleft hat ↦
    (Returns.repeatUntil (I := fun left parser ↦ entry.At opened left parser)
      (fun left parser hle hat hstop ↦ hpass entry opened left parser (by omega) hstop hat)
      (fun _ _ hat ↦ hat.succ) hat (by omega)).mono fun _ _ ht ↦ ht.1

theorem Closes.segments (h : Handles budget routine) {passes : Nat} (hpasses : budget ≤ passes) :
    Handles budget (Source.segments routine passes) := by
  refine .repeatUntil (fun entry opened left parser hleft hstop hat ↦ ?_) hpasses
  have hcolons : parser.isAt .colonColon = true := by
    rw [Bool.not_eq_false'] at hstop
    exact hstop
  have ⟨hpos, hret⟩ := hat.bump_one (atEnd_of_isAt hcolons)
  exact ⟨hpos, hret.and_then fun _ parser hat ↦ h entry opened (left - 1) parser (by omega) hat⟩

end

end Stainless.Syntax.Source
