import Mathlib.Logic.Relation
import Stainless.Syntax.Routines

/-!
# Parsing files

The parser returns a tree with every token of the file in its place, unless it comes to a closing brace
where an item should begin: there the loop over the items takes nothing and does not end.
-/

namespace Stainless.Syntax.Source

open Reasoning

/-! ## 1. The loop over the items -/

def started (tokens : List Token) (lexErrors : List ParseError) : Parser :=
  { rest := tokens, errors := lexErrors, parents := [(.sourceFile, 0)] }

variable [Rowan]

/-- A pass of the loop of `parse_item_list(None)` takes the one state to the other. -/
def TopLevelStep (parser parser' : Parser) : Prop := parser.atEnd = false ∧ topLevelPass parser = .ok () parser'

/-- The loop comes to a closing brace where it looks for an item. -/
def MeetsStrayBrace (tokens : List Token) (lexErrors : List ParseError) : Prop :=
  ∃ parser, Relation.ReflTransGen TopLevelStep (started tokens lexErrors) parser ∧ parser.isAt .rBrace = true

/-- Where the file begins. -/
def fileEntry (tokens : List Token) (lexErrors : List ParseError) : Entry :=
  { file := tokens, lexErrors, frames := [(.sourceFile, 0)], before := [] }

variable {tokens : List Token} {lexErrors : List ParseError} {entry : Entry} {opened left : Nat} {parser : Parser}

omit [Rowan] in
theorem at_started : (fileEntry tokens lexErrors).At 0 tokens.length (started tokens lexErrors) where
  keeps := {
    text := rfl
    position := rfl
    offset := rfl
    errors := ⟨[], (List.append_nil _).symm, nofun⟩
    tidy := trivial
    framed := ⟨Nat.le_refl _, trivial⟩
    leads := by
      intro parent hparent hkind
      rw [List.mem_singleton.mp hparent] at hkind
      exact absurd rfl hkind }
  parents := ⟨[], rfl, rfl, nofun⟩
  children := ⟨[], rfl⟩
  framed := ⟨Nat.le_refl _, trivial⟩
  left := Nat.le_refl _

omit [Rowan] in
/-- The budget of a pass covers the tokens that are left. -/
theorem bound_budgetFor (count : Nat) : count + 1 ≤ (budgetFor count - 1) / 2 := by
  unfold budgetFor
  omega

theorem handles_topLevelItems (parser : Parser) :
    Handles (parser.rest.length + 1)
      (parseItemList (budgetFor parser.rest.length) (budgetFor parser.rest.length)) :=
  handles_parseItemList (bound_budgetFor _) (by unfold budgetFor; omega)

theorem topLevelPass_returns (h : entry.At opened left parser) :
    Returns parser topLevelPass fun _ t ↦ entry.At opened left t := by
  have hbound := bound_budgetFor parser.rest.length
  have hitems := handles_topLevelItems parser
  have hpass : Handles (parser.rest.length + 1)
      (itemPass (budgetFor parser.rest.length) (parseItemList _ (budgetFor parser.rest.length))) :=
    .read fun _ ↦ .and_then (handles_parseItem hbound hitems (by omega))
      (.provided ((handles_recoverItem _ _).mono (by omega)))
  refine .read ?_
  exact (hpass entry opened _ parser (Nat.lt_succ_self _) h.tight).mono fun _ _ ht ↦ ht.mono h.left

/-- Anywhere but at a closing brace a pass takes a token. -/
theorem topLevelPass_takes (h : entry.At opened left parser) (hend : parser.atEnd = false)
    (hbrace : parser.isAt .rBrace = false) :
    0 < left ∧ Returns parser topLevelPass fun _ t ↦ entry.At opened (left - 1) t := by
  have hbound := bound_budgetFor parser.rest.length
  have hitems := handles_topLevelItems parser
  have hlength := h.left
  have ⟨hpos, hret⟩ := takes_itemPass hbound hitems (by omega) entry opened _ parser (Nat.lt_succ_self _)
    (by rw [hend, hbrace]; rfl) h.tight
  exact ⟨by omega, .read (hret.mono fun _ _ ht ↦ ht.mono (by omega))⟩

/-- At a closing brace recovery takes nothing. -/
theorem recoverItem_at_brace {budget : Nat} {message : String} (h : entry.At opened left parser)
    (hbudget : 0 < budget) (hbrace : parser.isAt .rBrace = true) :
    Returns parser (recoverItem budget message) fun _ t ↦
      entry.At opened left t ∧ t.significant = parser.significant := by
  refine (h.start .error).and_then fun _ parser₁ h₁ ↦ (h₁.1.error message).and_then fun _ parser₂ h₂ ↦ ?_
  have hsig : parser₂.significant = parser.significant := (significant_congr h₂.2).trans h₁.2
  have hcurrent : parser₂.current = some .rBrace :=
    of_decide_eq_true ((isAt_congr hsig .rBrace).trans hbrace)
  cases budget with
  | zero => omega
  | succ budget =>
      have hskip : Returns parser₂ (skipItem (budget + 1) 0) fun _ t ↦ t = parser₂ := by
        refine .read ?_
        rw [hcurrent]
        exact .pure rfl
      refine hskip.and_then fun _ t ht ↦ ?_
      subst ht
      exact h₂.1.finish.mono fun _ _ ht ↦ ⟨ht.1, (significant_congr ht.2).trans hsig⟩

/-- At a closing brace a pass takes nothing. -/
theorem topLevelPass_at_brace (h : entry.At opened left parser) (hbrace : parser.isAt .rBrace = true) :
    Returns parser topLevelPass fun _ t ↦ entry.At opened left t ∧ t.isAt .rBrace = true := by
  have hcurrent : parser.current = some .rBrace := of_decide_eq_true hbrace
  have hpos : 0 < budgetFor parser.rest.length := by
    unfold budgetFor
    omega
  have hitem : Returns parser (parseItem (budgetFor parser.rest.length)
      (parseItemList (budgetFor parser.rest.length) (budgetFor parser.rest.length))) fun _ t ↦
      entry.At opened left t ∧ t.significant = parser.significant := by
    refine .read ?_
    rw [hcurrent]
    exact recoverItem_at_brace h hpos hbrace
  refine .read (.read (hitem.and_then fun _ t ht ↦ ?_))
  have hbrace' : t.isAt .rBrace = true := (isAt_congr ht.2 .rBrace).trans hbrace
  refine .provided (fun _ ↦ ?_) fun _ ↦ ⟨ht.1, hbrace'⟩
  exact (recoverItem_at_brace ht.1 hpos hbrace').mono fun _ _ hu ↦ ⟨hu.1, (isAt_congr hu.2 .rBrace).trans hbrace'⟩

/-- The loop over the items of the file. -/
abbrev topLevel (passes : Nat) : Parse Unit := repeatUntil .budget (·.atEnd) topLevelPass passes

theorem topLevel_succ {parser' : Parser} (hstep : TopLevelStep parser parser') (passes : Nat) :
    topLevel (passes + 1) parser = topLevel passes parser' := by
  show (if parser.atEnd then _ else (topLevelPass >>= fun _ ↦ topLevel passes) parser) = _
  rw [if_neg (by rw [hstep.1]; decide)]
  show EStateM.bind topLevelPass (fun _ ↦ topLevel passes) parser = _
  rw [EStateM.bind, hstep.2]

theorem topLevel_step (h : entry.At opened left parser) (hend : parser.atEnd = false) :
    ∃ parser', TopLevelStep parser parser' ∧ entry.At opened left parser' := by
  have ⟨_, parser', hrun, hat⟩ := returns_iff.mp (topLevelPass_returns h)
  exact ⟨parser', ⟨hend, hrun⟩, hat⟩

/-- The builder's assertions hold, however many passes the loop makes. -/
theorem topLevel_result (h : entry.At opened left parser) (passes : Nat) :
    (∃ t, topLevel passes parser = .ok () t ∧ entry.At opened left t ∧ t.atEnd = true) ∨
      ∃ t, topLevel passes parser = .error .budget t := by
  induction passes generalizing parser with
  | zero => exact .inr ⟨parser, rfl⟩
  | succ passes ih =>
      cases hend : parser.atEnd with
      | true =>
          left
          exact ⟨parser, if_pos hend, h, hend⟩
      | false =>
          have ⟨parser', hstep, hat⟩ := topLevel_step h hend
          rw [topLevel_succ hstep]
          exact ih hat

theorem topLevel_at_brace (h : entry.At opened left parser) (hbrace : parser.isAt .rBrace = true) (passes : Nat) :
    ∃ t, topLevel passes parser = .error .budget t := by
  induction passes generalizing parser with
  | zero => exact ⟨parser, rfl⟩
  | succ passes ih =>
      have ⟨_, parser', hrun, hat⟩ := returns_iff.mp (topLevelPass_at_brace h hbrace)
      rw [topLevel_succ ⟨atEnd_of_isAt hbrace, hrun⟩]
      exact ih hat.1 hat.2

/-- A loop that comes to a closing brace does not end. -/
theorem topLevel_diverges {parser' : Parser} (h : entry.At opened left parser)
    (hsteps : Relation.ReflTransGen TopLevelStep parser parser') (hbrace : parser'.isAt .rBrace = true)
    (passes : Nat) : ∃ t, topLevel passes parser = .error .budget t := by
  induction hsteps using Relation.ReflTransGen.head_induction_on generalizing passes with
  | refl => exact topLevel_at_brace h hbrace passes
  | @head parser next hstep _ ih =>
      cases passes with
      | zero => exact ⟨parser, rfl⟩
      | succ passes =>
          have ⟨next', hstep', hat⟩ := topLevel_step h hstep.1
          have heq : next' = next := by
            have hrun := hstep'.2.symm.trans hstep.2
            cases hrun
            rfl
          rw [topLevel_succ hstep]
          exact ih (heq ▸ hat) passes

/-- A loop that comes to none makes at most one pass for each token, and one to see the end. -/
theorem topLevel_returns (h : entry.At opened left parser)
    (hnone : ∀ parser', Relation.ReflTransGen TopLevelStep parser parser' → parser'.isAt .rBrace = false)
    {passes : Nat} (hpasses : left < passes) :
    ∃ t, topLevel passes parser = .ok () t ∧ entry.At opened left t ∧ t.atEnd = true := by
  have hrun : Returns parser (topLevel passes) fun _ t ↦
      (entry.At opened left t ∧ Relation.ReflTransGen TopLevelStep parser t) ∧ t.atEnd = true := by
    refine .repeatUntil (I := fun left t ↦ entry.At opened left t ∧ Relation.ReflTransGen TopLevelStep parser t)
      (fun left t _ ht hend ↦ ?_) (fun _ _ ht ↦ ⟨ht.1.succ, ht.2⟩) ⟨h, .refl⟩ hpasses
    have ⟨hpos, hret⟩ := topLevelPass_takes ht.1 hend (hnone t ht.2)
    have ⟨_, u, hpass, hat⟩ := returns_iff.mp hret
    exact ⟨hpos, returns_iff.mpr ⟨(), u, hpass, hat, ht.2.tail ⟨hend, hpass⟩⟩⟩
  have ⟨_, t, heq, ht, hend⟩ := returns_iff.mp hrun
  exact ⟨t, heq, ht.1, hend⟩

/-! ## 2. The file -/

/-- What a parsed file is. -/
structure Parsed.Faithful (parsed : Parsed) (tokens : List Token) (lexErrors : List ParseError) : Prop where
  root : ∃ children, parsed.green = .node .sourceFile children
  lossless : parsed.green.tokens = tokens
  tidy : parsed.green.Tidy
  ordered : parsed.errors.Pairwise fun error error' ↦ error.range.start ≤ error'.range.start
  complete : ∃ found, parsed.errors.Perm (lexErrors ++ found) ∧ ∀ error ∈ found, Located tokens error.range

/-- What is left to do after the items. -/
theorem parseSourceFile_eq (passes : Nat) {t : Parser} (hrun : topLevel passes (started tokens lexErrors) = .ok () t)
    (hparents : t.parents = [(.sourceFile, 0)]) :
    parseSourceFile passes { rest := tokens, errors := lexErrors } =
      .ok () { t.taken t.rest [] with
        parents := [], children := [.node .sourceFile (t.taken t.rest []).children] } := by
  have hremaining : t.eatRemaining = t.taken t.rest [] := bumpRaw_iterate (List.append_nil _).symm
  have hfinish : Returns (t.taken t.rest []) finish fun _ u ↦
      u = { t.taken t.rest [] with
        parents := [], children := [.node .sourceFile (t.taken t.rest []).children] } := by
    have hclosed := Rowan.finish_closes (t.taken t.rest []) .sourceFile 0 [] hparents
    exact returns_iff.mpr ⟨(), _, hclosed, rfl⟩
  have hall : Returns { rest := tokens, errors := lexErrors } (parseSourceFile passes) fun _ u ↦
      u = { t.taken t.rest [] with
        parents := [], children := [.node .sourceFile (t.taken t.rest []).children] } := by
    have hstarted : Returns { rest := tokens, errors := lexErrors } (startNode .sourceFile) fun _ u ↦
        u = started tokens lexErrors := by
      rw [Rowan.startNode_eq]
      exact .modify rfl
    refine hstarted.and_then fun _ _ h₁ ↦ ?_
    subst h₁
    refine (returns_iff.mpr ⟨(), t, hrun, rfl⟩ : Returns _ _ fun _ u ↦ u = t).and_then fun _ _ h₂ ↦ ?_
    subst h₂
    refine Returns.and_then (R := fun _ u ↦ u = Parser.taken _ _ []) (.modify hremaining) fun _ _ h₃ ↦ ?_
    subst h₃
    exact hfinish
  have ⟨_, u, heq, hu⟩ := returns_iff.mp hall
  rw [heq, hu]

omit [Rowan] in
theorem pairwise_mergeSort (errors : List ParseError) :
    (errors.mergeSort fun error error' ↦ error.range.start ≤ error'.range.start).Pairwise
      fun error error' ↦ error.range.start ≤ error'.range.start := by
  have hsorted : (errors.mergeSort fun error error' ↦ error.range.start ≤ error'.range.start).Pairwise
      fun error error' ↦ decide (error.range.start ≤ error'.range.start) = true := by
    apply List.pairwise_mergeSort
    · intro a b c hab hbc
      rw [decide_eq_true_eq] at *
      omega
    · intro a b
      rw [Bool.or_eq_true, decide_eq_true_eq, decide_eq_true_eq]
      omega
  exact hsorted.imp fun h ↦ of_decide_eq_true h

/-- What the parser makes of the run of its loop. -/
theorem parse_of_topLevel {passes : Nat} {t : Parser} (hrun : topLevel passes (started tokens lexErrors) = .ok () t)
    (hat : (fileEntry tokens lexErrors).At 0 left t) :
    parse passes tokens lexErrors = .ok {
      green := .node .sourceFile (t.taken t.rest []).children
      errors := t.errors.mergeSort fun error error' ↦ error.range.start ≤ error'.range.start } := by
  have hparents : t.parents = [(.sourceFile, 0)] := by
    have ⟨own, hlength, heq, _⟩ := hat.parents
    rw [List.eq_nil_of_length_eq_zero hlength] at heq
    exact heq
  unfold parse
  rw [parseSourceFile_eq passes hrun hparents]
  rfl

theorem parse_eq (passes : Nat) {t : Parser} (hrun : topLevel passes (started tokens lexErrors) = .ok () t)
    (hat : (fileEntry tokens lexErrors).At 0 left t) :
    ∃ parsed, parse passes tokens lexErrors = .ok parsed ∧ parsed.Faithful tokens lexErrors := by
  have hkeeps := hat.keeps.taken (List.append_nil t.rest).symm
  have htext : leaves (t.taken t.rest []).children = tokens := by
    have htext := hkeeps.text
    rw [show (t.taken t.rest []).rest = [] from rfl, List.append_nil] at htext
    exact htext
  have ⟨found, herrors, hlocated⟩ := hkeeps.errors
  refine ⟨_, parse_of_topLevel hrun hat, ⟨_, rfl⟩, htext, ⟨fun hkind ↦ absurd rfl hkind, hkeeps.tidy⟩, ?_, found, ?_,
    hlocated⟩
  · exact pairwise_mergeSort _
  · have hperm := List.mergeSort_perm t.errors fun error error' ↦ decide (error.range.start ≤ error'.range.start)
    rw [show t.errors = _ from herrors] at hperm ⊢
    exact hperm

/-- A file whose loop does not end has no result, and the builder does not stop the program. -/
theorem parse_exhausted (passes : Nat) {t : Parser}
    (hrun : topLevel passes (started tokens lexErrors) = .error .budget t) :
    parse passes tokens lexErrors = .error .budget := by
  have hfile : parseSourceFile passes { rest := tokens, errors := lexErrors } = .error .budget t := by
    have hbind : parseSourceFile passes { rest := tokens, errors := lexErrors } =
        EStateM.bind (topLevel passes) (fun _ ↦ do eatRemaining; finish) (started tokens lexErrors) := by
      unfold parseSourceFile
      rw [Rowan.startNode_eq]
      rfl
    rw [hbind, EStateM.bind, hrun]
  unfold parse
  rw [hfile]

theorem parse_cases (passes : Nat) (tokens : List Token) (lexErrors : List ParseError) :
    (∃ parsed, parse passes tokens lexErrors = .ok parsed ∧ parsed.Faithful tokens lexErrors) ∨
      parse passes tokens lexErrors = .error .budget := by
  have hstarted : (fileEntry tokens lexErrors).At 0 tokens.length (started tokens lexErrors) := at_started
  rcases topLevel_result hstarted passes with ⟨t, hrun, hat, _⟩ | ⟨t, hrun⟩
  · exact .inl (parse_eq passes hrun hat)
  · exact .inr (parse_exhausted passes hrun)

/-- The parser is lossless: whatever the tokens, it never meets an assertion of its builder, and what it
returns has all tokens in order, every node at its first token, and the errors in order. -/
theorem parse_faithful (passes : Nat) (tokens : List Token) (lexErrors : List ParseError) :
    parse passes tokens lexErrors ≠ .error .panic ∧
      ∀ parsed, parse passes tokens lexErrors = .ok parsed → parsed.Faithful tokens lexErrors := by
  rcases parse_cases passes tokens lexErrors with ⟨parsed, heq, hfaithful⟩ | heq
  · rw [heq]
    refine ⟨nofun, fun parsed' h ↦ ?_⟩
    cases h
    exact hfaithful
  · rw [heq]
    exact ⟨nofun, nofun⟩

/-- The parser ends on exactly the files whose items it never looks for at a closing brace; there it needs
at most one pass for each token. -/
theorem parse_ends_iff (tokens : List Token) (lexErrors : List ParseError) :
    ((∃ passes parsed, parse passes tokens lexErrors = .ok parsed) ↔ ¬MeetsStrayBrace tokens lexErrors) ∧
      (¬MeetsStrayBrace tokens lexErrors → ∃ parsed, parse (tokens.length + 1) tokens lexErrors = .ok parsed) ∧
      (MeetsStrayBrace tokens lexErrors → ∀ passes, parse passes tokens lexErrors = .error .budget) := by
  have hreturns (hnone : ¬MeetsStrayBrace tokens lexErrors) :
      ∃ parsed, parse (tokens.length + 1) tokens lexErrors = .ok parsed := by
    have hsteps (parser : Parser) (hreach : Relation.ReflTransGen TopLevelStep (started tokens lexErrors) parser) :
        parser.isAt .rBrace = false := by
      cases hbrace : parser.isAt .rBrace with
      | false => rfl
      | true => exact absurd ⟨parser, hreach, hbrace⟩ hnone
    have ⟨t, hrun, hat, _⟩ := topLevel_returns at_started hsteps (Nat.lt_succ_self _)
    have ⟨parsed, heq, _⟩ := parse_eq _ hrun hat
    exact ⟨parsed, heq⟩
  have hdiverges (hmeets : MeetsStrayBrace tokens lexErrors) (passes : Nat) :
      parse passes tokens lexErrors = .error .budget := by
    have ⟨parser, hreach, hbrace⟩ := hmeets
    have ⟨t, hrun⟩ := topLevel_diverges at_started hreach hbrace passes
    exact parse_exhausted passes hrun
  refine ⟨⟨?_, fun hnone ↦ ⟨_, hreturns hnone⟩⟩, hreturns, hdiverges⟩
  rintro ⟨passes, parsed, heq⟩ hmeets
  rw [hdiverges hmeets passes] at heq
  cases heq

end Stainless.Syntax.Source
