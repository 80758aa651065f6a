import Stainless.Poker.BettingRounds
import Stainless.Poker.HandEvents
import Stainless.Poker.PayoutTotality

/-!
# The phases of a hand

A hand that starts within the bounds of its table goes from phase to phase: whatever the inbox holds,
whatever the node answers and however late a step is taken, no check of the accounts fails and every
place that is read or written is there.
-/

open Reasoning Stainless.Runtime Stainless.Crypto

namespace Stainless.Poker

/-! ## 1. What a turn does to the hand -/

/-- What a turn may do to its player. -/
structure Player.Follows (before after : Player) : Prop where
  stack : after.stack = before.stack
  bet_le : before.bet ≤ after.bet
  within : before.bet ≤ before.stack → after.bet ≤ after.stack
  reveals : after.reveals.length = before.reveals.length
  committed : before.commitments.length = 5 → after.commitments.length = 5
  folded : before.folded = true → after.folded = true

namespace Player.Follows

theorem refl (player : Player) : player.Follows player :=
  ⟨rfl, Nat.le_refl _, id, rfl, id, id⟩

theorem trans {a b c : Player} (h : a.Follows b) (h' : b.Follows c) : a.Follows c where
  stack := h'.stack.trans h.stack
  bet_le := h.bet_le.trans h'.bet_le
  within hle := h'.within (h.within hle)
  reveals := h'.reveals.trans h.reveals
  committed hlength := h'.committed (h.committed hlength)
  folded hfolded := h'.folded (h.folded hfolded)

/-- The player folds, or is given something that the amounts do not depend on. -/
theorem of_eq {before after : Player} (hstack : after.stack = before.stack)
    (hbet : after.bet = before.bet) (hreveals : after.reveals.length = before.reveals.length)
    (hcommitted : before.commitments.length = 5 → after.commitments.length = 5)
    (hfolded : before.folded = true → after.folded = true) : before.Follows after where
  stack := hstack
  bet_le := by omega
  within := by omega
  reveals := hreveals
  committed := hcommitted
  folded := hfolded

end Player.Follows

/-- A player who did not commit in time has folded. -/
def Player.Committed (player : Player) : Prop :=
  player.folded = false → player.commitments.length = 5

/-- A player who did not show has folded. -/
def Player.Shown (player : Player) : Prop := player.folded = false → player.show.isSome = true

theorem Player.Committed.follows {before after : Player} (h : before.Committed)
    (hfollows : before.Follows after) : after.Committed := by
  intro hin
  apply hfollows.committed
  apply h
  cases hfolded : before.folded with
  | false => rfl
  | true =>
      rw [hfollows.folded hfolded] at hin
      cases hin

/-- What the turns of a phase leave as it is. -/
def Hand.course (hand : Hand) : Hand :=
  { hand with
    players := []
    checkpoint := ""
    timeouts := []
    shows := []
    continuations := []
    dealerRake := 0 }

/-- What some turns of a phase may do to a hand. -/
structure Hand.Follows (before after : Hand) : Prop where
  course : after.course = before.course
  players : List.Forall₂ Player.Follows before.players after.players

theorem forall₂_same {α : Type} {R : α → α → Prop} (h : ∀ a, R a a) (l : List α) :
    List.Forall₂ R l l := by
  induction l with
  | nil => exact .nil
  | cons a l ih => exact .cons (h a) ih

theorem forall₂_set {α : Type} {R : α → α → Prop} (h : ∀ a, R a a) {l : List α} {i : Nat} {a b : α}
    (hb : R (l.getD i a) b) : List.Forall₂ R l (l.set i b) := by
  induction l generalizing i with
  | nil => exact .nil
  | cons c l ih =>
      cases i with
      | zero => exact .cons hb (forall₂_same h l)
      | succ i => exact .cons (h c) (ih hb)

namespace Hand.Follows

theorem refl (hand : Hand) : hand.Follows hand :=
  ⟨rfl, forall₂_same Player.Follows.refl _⟩

theorem trans {a b c : Hand} (h : a.Follows b) (h' : b.Follows c) : a.Follows c where
  course := h'.course.trans h.course
  players := by
    have hab := h.players
    have hbc := h'.players
    rw [List.forall₂_iff_get] at hab hbc ⊢
    refine ⟨hab.1.trans hbc.1, fun i hi hi' ↦ ?_⟩
    exact (hab.2 i hi (by omega)).trans (hbc.2 i (by omega) hi')

variable {before after : Hand} (h : before.Follows after)
include h

theorem length : after.players.length = before.players.length := h.players.length_eq.symm

theorem player (i : Nat) : (before.player i).Follows (after.player i) := by
  by_cases hi : i < before.players.length
  · have hi' : i < after.players.length := by
      rw [h.length]
      exact hi
    rw [before.player_of_lt hi, after.player_of_lt hi']
    exact h.players.get hi hi'
  · rw [before.player_of_ge (by omega), after.player_of_ge (by rw [h.length]; omega)]
    exact .refl _

theorem phase : after.phase = before.phase := by
  show after.course.phase = before.course.phase
  rw [h.course]

theorem round : after.round = before.round := by
  show after.course.round = before.course.round
  rw [h.course]

theorem sources : after.sources = before.sources := by
  show after.course.sources = before.course.sources
  rw [h.course]

theorem betting : after.betting = before.betting := by
  show after.course.betting = before.course.betting
  rw [h.course]

end Hand.Follows

/-- The turn of player `i` puts this player into the hand. -/
structure PlayerTurn (s : HandState) (i : Nat) (player : Player) (t : HandState) : Prop where
  course : t.hand.course = s.hand.course
  follows : (s.hand.player i).Follows player
  players : t.hand.players = s.hand.players.set i player

theorem PlayerTurn.hand {s t : HandState} {i : Nat} {player : Player} (h : PlayerTurn s i player t) :
    s.hand.Follows t.hand where
  course := h.course
  players := by
    rw [h.players]
    exact forall₂_set Player.Follows.refl h.follows

/-- The player at a place after the turn. -/
theorem PlayerTurn.player {s t : HandState} {i : Nat} {player : Player} (h : PlayerTurn s i player t) (j : Nat)
    (hj : j < s.hand.players.length) :
    t.hand.player j = if i = j then player else s.hand.player j := by
  rw [Hand.player, h.players, List.getD_eq_getElem?_getD, List.getElem?_set]
  by_cases hij : i = j
  · rw [if_pos hij, if_pos hij, if_pos (by omega)]
    rfl
  · rw [if_neg hij, if_neg hij, ← List.getD_eq_getElem?_getD]
    rfl

/-- A turn in which the player stays as it is. -/
theorem PlayerTurn.same {s t : HandState} {i : Nat} (hcourse : t.hand.course = s.hand.course)
    (hplayers : t.hand.players = s.hand.players) : PlayerTurn s i (s.hand.player i) t where
  course := hcourse
  follows := .refl _
  players := by
    rw [hplayers]
    exact (set_getD_self rfl).symm

/-! ## 2. The turns of the phases -/

/-- All turns of a phase, where each puts a player of a kind into the hand. -/
theorem turns_follow {α : Type} {f : α → Nat → α} (state : α → HandState) {Q : Player → Prop}
    (hf : ∀ a i, ∃ player, PlayerTurn (state a) i player (state (f a i)) ∧ Q player) (a : α) (k : Nat)
    (hk : k ≤ (state a).hand.players.length) :
    (state a).hand.Follows (state ((List.range k).foldl f a)).hand ∧
      ∀ i < k, Q ((state ((List.range k).foldl f a)).hand.player i) := by
  induction k with
  | zero => exact ⟨.refl _, fun i hi ↦ absurd hi (Nat.not_lt_zero i)⟩
  | succ k ih =>
      have ⟨hfollows, hdone⟩ := ih (by omega)
      rw [List.range_succ, List.foldl_append, List.foldl_cons, List.foldl_nil]
      have ⟨player, hturn, hplayer⟩ := hf ((List.range k).foldl f a) k
      have hlength := hfollows.length
      refine ⟨hfollows.trans hturn.hand, fun i hi ↦ ?_⟩
      rw [hturn.player i (by omega)]
      by_cases hik : k = i
      · rw [if_pos hik]
        exact hplayer
      · rw [if_neg hik]
        exact hdone i (by omega)

section Turns

variable (native : Native)

theorem turn_commitPlayer (s : HandState) (i : Nat) :
    ∃ player, PlayerTurn s i player (commitPlayer native s i) ∧ player.Committed := by
  unfold commitPlayer
  dsimp only
  by_cases hvalid : validCommit (s.message (handKey s.hand (s.hand.players.getD i {}).address .commit 0 0))
  · rw [if_pos hvalid]
    have hlength : (s.message (handKey s.hand (s.hand.players.getD i {}).address .commit 0
        0)).commitments.length = 5 := by
      simp only [validCommit, Bool.and_eq_true, decide_eq_true_eq] at hvalid
      exact hvalid.1.1.2
    refine ⟨_, ⟨rfl, ?_, rfl⟩, ?_⟩
    · exact .of_eq rfl rfl rfl (fun _ ↦ hlength) id
    · exact fun _ ↦ hlength
  · rw [if_neg hvalid]
    refine ⟨_, ⟨rfl, ?_, rfl⟩, ?_⟩
    · exact .of_eq rfl rfl rfl id fun _ ↦ rfl
    · exact fun hin ↦ nomatch hin

theorem turn_revealPlayer (round : Nat) (acc : HandState × String) (i : Nat) :
    ∃ player, PlayerTurn acc.1 i player (revealPlayer native round acc i).1 ∧ True := by
  unfold revealPlayer
  dsimp only
  split
  · exact ⟨_, .same rfl rfl, trivial⟩
  · split
    · refine ⟨_, ⟨rfl, ?_, rfl⟩, trivial⟩
      exact .of_eq rfl rfl List.length_set id id
    · refine ⟨_, ⟨rfl, ?_, rfl⟩, trivial⟩
      exact .of_eq rfl rfl rfl id fun _ ↦ rfl

/-- A raise is within the stack. -/
theorem act_follows {hand : Hand} {player : Player} {target : Nat} {submission : Submission}
    (hvalid : validAction hand player target submission) :
    player.Follows (act player submission).1 := by
  unfold act
  cases haction : submission.action with
  | checkCall => exact .refl _
  | fold => exact .of_eq rfl rfl rfl id fun _ ↦ rfl
  | unknown => exact .refl _
  | betRaise =>
      simp only [validAction, haction, Bool.and_eq_true, decide_eq_true_eq] at hvalid
      exact ⟨rfl, Nat.le_of_lt hvalid.2.1.1.1, fun _ ↦ hvalid.2.1.1.2, rfl, id, id⟩

theorem turn_betPlayer (round epoch target : Nat) (acc : HandState × List BettingEntry) (i : Nat) :
    ∃ player, PlayerTurn acc.1 i player (betPlayer native round epoch target acc i).1 ∧ True := by
  unfold betPlayer
  dsimp only
  split
  · exact ⟨_, .same rfl rfl, trivial⟩
  · split
    · exact ⟨_, .same rfl rfl, trivial⟩
    · split
      case isTrue hvalid =>
          refine ⟨_, ⟨rfl, ?_, rfl⟩, trivial⟩
          exact act_follows hvalid
      case isFalse hvalid =>
          split
          · refine ⟨_, ⟨rfl, ?_, rfl⟩, trivial⟩
            exact .of_eq rfl rfl rfl id fun _ ↦ rfl
          · exact ⟨_, .same rfl rfl, trivial⟩

theorem turn_continuePlayer (s : HandState) (i : Nat) :
    ∃ player, PlayerTurn s i player (continuePlayer s i) ∧ True := by
  unfold continuePlayer
  dsimp only
  split
  · refine ⟨_, ⟨rfl, ?_, rfl⟩, trivial⟩
    exact .of_eq rfl rfl rfl id id
  · refine ⟨_, ⟨rfl, ?_, rfl⟩, trivial⟩
    exact .of_eq rfl rfl rfl id id

theorem turn_recordShow {s t : HandState} {i : Nat} (mucked : Bool) (shown : Option Show)
    (hhand : t.hand = s.hand) :
    ∃ player, PlayerTurn s i player (recordShow native i (s.hand.player i) mucked shown t) ∧
      player.Shown := by
  unfold recordShow
  cases shown with
  | some value =>
      refine ⟨{ s.hand.player i with «show» := some value },
        ⟨?_, .of_eq rfl rfl rfl id id, ?_⟩, fun _ ↦ rfl⟩
      · rw [← hhand]
        rfl
      · rw [← hhand]
        rfl
  | none =>
      refine ⟨{ s.hand.player i with folded := true }, ⟨?_, .of_eq rfl rfl rfl id fun _ ↦ rfl, ?_⟩,
        fun hin ↦ nomatch hin⟩
      · rw [← hhand]
        cases mucked with
        | false => rfl
        | true => rfl
      · rw [← hhand]
        cases mucked with
        | false => rfl
        | true => rfl

end Turns

/-! ## 3. What the node may refuse -/

/-- The node answers a call about a hand with this exception. -/
def Node.Throws (node : Node) (e : Exception) : Prop :=
  (∃ n table seeds, node.dealCards n table seeds = .error e) ∨
    (∃ n table board pocket hand, node.selectHand n table board pocket hand = .error e) ∨
    (∃ n table selected, node.getRank n table selected = .error e) ∨
    ∃ n request, node.settle n request = .error e

/-- The process stops before a call, or the node answers it with an exception. -/
def Env.Refuses (env : Env) : Exit → Prop
  | .stopped => ∃ n, env.stops n = true
  | .exception e => env.node.Throws e

/-- The program changes nothing but the number of operations, and throws what it was refused. -/
def Asks {α : Type} (env : Env) (m : HandM α) : Prop :=
  ∀ s, After s m fun r t ↦ Counted s t ∧ ∀ e, r = .error e → env.Refuses e

namespace Asks

variable {env : Env} {α β : Type}

theorem pure (a : α) : Asks env (Pure.pure a) :=
  fun s ↦ After.pure ⟨Counted.frame.refl s, fun _ h ↦ nomatch h⟩

theorem bind {m : HandM β} {k : β → HandM α} (hm : Asks env m) (hk : ∀ b, Asks env (k b)) :
    Asks env (m >>= k) := by
  intro s
  apply After.bind
  apply (hm s).mono
  intro r t ⟨hst, herror⟩
  cases r with
  | ok b => exact (hk b t).mono fun _ u hu ↦ ⟨Counted.frame.trans s t u hst hu.1, hu.2⟩
  | error e => exact ⟨hst, fun e' he ↦ herror e' (by cases he; rfl)⟩

theorem read {k : HandState → HandM α} (h : ∀ s, Asks env (k s)) : Asks env (MonadState.get >>= k) :=
  fun s ↦ After.read (h s s)

theorem ite {c : Prop} [Decidable c] {m n : HandM α} (hm : Asks env m) (hn : Asks env n) :
    Asks env (if c then m else n) :=
  fun s ↦ After.ite (fun _ ↦ hm s) fun _ ↦ hn s

theorem foldlM {γ : Type} {f : β → γ → HandM β} (hf : ∀ b x, Asks env (f b x)) (xs : List γ) (b : β) :
    Asks env (xs.foldlM f b) := by
  induction xs generalizing b with
  | nil => exact .pure b
  | cons x xs ih =>
      rw [List.foldlM_cons]
      exact (hf b x).bind ih

theorem call {answer : Nat → Except Exception α}
    (h : ∀ n e, answer n = .error e → env.node.Throws e) : Asks env (Poker.call env answer) := by
  intro s
  unfold Poker.call Poker.operation
  apply After.bind
  apply After.read
  apply After.ite
  · intro hstops
    apply After.throw
    exact ⟨Counted.frame.refl s, fun e he ↦ by cases he; exact ⟨_, hstops⟩⟩
  · intro _
    apply After.bind
    apply After.modify
    apply After.pure
    cases hanswer : answer (Counts.operations s) with
    | ok a =>
        show After _ (liftOutcome (answer (Counts.operations s))) _
        rw [hanswer]
        exact After.pure ⟨⟨1, rfl⟩, fun _ he ↦ nomatch he⟩
    | error e =>
        show After _ (liftOutcome (answer (Counts.operations s))) _
        rw [hanswer]
        exact After.throw ⟨⟨1, rfl⟩, fun _ he ↦ by cases he; exact h _ e hanswer⟩

end Asks

section Node

variable (env : Env) (native : Native)

theorem asks_validateShow (hand : Hand) (player : Player) (value : Submission) :
    Asks env (validateShow env native hand player value) := by
  apply Asks.ite (.pure _)
  apply Asks.bind (.call fun n e h ↦ .inl ⟨n, _, _, h⟩)
  intro pocket
  apply Asks.bind (.call fun n e h ↦ .inr (.inl ⟨n, _, _, _, _, h⟩))
  intro selected
  exact Asks.bind (.call fun n e h ↦ .inr (.inr (.inl ⟨n, _, _, h⟩))) fun _ ↦ .pure _

theorem asks_showSubmitted (ready : Bool) (player : Player) :
    Asks env (showSubmitted env native ready player) := by
  apply Asks.ite (.pure _)
  apply Asks.read
  intro s
  apply Asks.ite (.pure _)
  exact Asks.bind (asks_validateShow env native _ _ _) fun _ ↦ .pure _

/-- The player shows or folds, or the node refuses and the player stays as it is. -/
theorem turn_showPlayer (s : HandState) (i : Nat) :
    After s (showPlayer env native i) fun r t ↦ match r with
      | .ok _ => ∃ player, PlayerTurn s i player t ∧ player.Shown
      | .error e => t.hand = s.hand ∧ env.Refuses e := by
  apply After.read
  apply After.ite
  · intro hfolded
    apply After.set
    refine ⟨s.hand.player i, .same rfl rfl, fun hin ↦ ?_⟩
    rw [Hand.player, hfolded] at hin
    cases hin
  · intro _
    apply After.bind
    apply After.set
    apply After.bind
    apply (Asks.ite (.pure none) (asks_validateShow env native _ _ _) _).mono
    rintro r t ⟨hst, herror⟩
    cases r with
    | error e => exact ⟨hst.hand, herror e rfl⟩
    | ok shown =>
        apply After.modify
        exact turn_recordShow native _ shown hst.hand

/-- The turns of the first players, up to the one at which the node refuses. -/
theorem turns_showPlayer (s : HandState) (k : Nat) (hk : k ≤ s.hand.players.length) :
    After s ((List.range k).forM (showPlayer env native)) fun r t ↦ s.hand.Follows t.hand ∧
      match r with
      | .ok _ => ∀ i < k, (t.hand.player i).Shown
      | .error e => env.Refuses e := by
  induction k with
  | zero => exact After.pure ⟨.refl _, fun i hi ↦ absurd hi (Nat.not_lt_zero i)⟩
  | succ k ih =>
      rw [List.range_succ]
      show After s (forM (List.range k ++ [k]) (showPlayer env native)) _
      rw [List.forM_append]
      apply After.bind
      apply (ih (by omega)).mono
      intro r t ⟨hfollows, hdone⟩
      cases r with
      | error e => exact ⟨hfollows, hdone⟩
      | ok _ =>
          have hlength := hfollows.length
          apply After.bind
          apply (turn_showPlayer env native t k).mono
          intro r u hturn
          cases r with
          | error e => exact ⟨by rw [hturn.1]; exact hfollows, hturn.2⟩
          | ok _ =>
              have ⟨player, hturn, hshown⟩ := hturn
              apply After.pure
              refine ⟨hfollows.trans hturn.hand, fun i hi ↦ ?_⟩
              rw [hturn.player i (by omega)]
              by_cases hik : k = i
              · rw [if_pos hik]
                exact hshown
              · rw [if_neg hik]
                exact hdone i (by omega)

end Node

/-! ## 4. Hands within their bounds -/

/-- The bounds under which a hand starts. -/
structure Hand.Admissible (hand : Hand) : Prop where
  two_le : 2 ≤ hand.players.length
  blind_pos : 0 < hand.smallBlind
  blind_le : ∀ player ∈ hand.players, hand.smallBlind ≤ player.stack
  minRake_le : hand.minRake ≤ hand.smallBlind
  rakeBps_le : hand.rakeBps ≤ 10000
  stacks_le : (hand.players.map Player.stack).sum ≤ maxAmount

/-- The amounts are within their bounds, and there is a place for each of the four rounds. -/
structure Hand.Sound (hand : Hand) : Prop where
  solvent : hand.Solvent
  reveals : ∀ i < hand.players.length, (hand.player i).reveals.length = 4
  betting : hand.betting.length = 4

theorem Hand.Sound.revealsFit {hand : Hand} (h : hand.Sound) {round : Nat} (hround : round < 4)
    (hsources : round ≤ hand.sources.length) : Poker.revealsFit round hand = true := by
  simp only [Poker.revealsFit, Bool.and_eq_true, List.all_eq_true, Bool.or_eq_true, decide_eq_true_eq]
  refine ⟨fun player hmem ↦ .inr ?_, hsources⟩
  have ⟨i, hi, hplayer⟩ := List.getElem_of_mem hmem
  have hreveals := h.reveals i hi
  rw [Hand.player, List.getD_eq_getElem?_getD, List.getElem?_eq_getElem hi, Option.getD_some,
    hplayer] at hreveals
  omega

/-- A change of the hand that no amount depends on. -/
theorem Hand.Sound.of_eq {before after : Hand} (h : before.Sound)
    (hplayers : after.players = before.players) (hblind : after.smallBlind = before.smallBlind)
    (hminRake : after.minRake = before.minRake) (hrakeBps : after.rakeBps = before.rakeBps)
    (hbetting : after.betting.length = before.betting.length) : after.Sound := by
  have hplayer : after.player = before.player := by
    funext i
    rw [Hand.player, hplayers]
    rfl
  refine ⟨⟨?_, ?_, ?_, ?_, ?_, ?_, ?_⟩, ?_, hbetting.trans h.betting⟩
  · rw [hplayers]
    exact h.solvent.two_le
  · rw [hblind]
    exact h.solvent.blind_pos
  · rw [hplayers, hplayer, hblind]
    exact h.solvent.blind_le
  · rw [hplayers, hplayer]
    exact h.solvent.bet_le
  · rw [hminRake, hblind]
    exact h.solvent.minRake_le
  · rw [hrakeBps]
    exact h.solvent.rakeBps_le
  · rw [hplayers, hplayer]
    exact h.solvent.stacks_le
  · rw [hplayers, hplayer]
    exact h.reveals

/-- The turns of the players leave the hand within its bounds. -/
theorem Hand.Sound.follows {before after : Hand} (h : before.Sound) (hfollows : before.Follows after) :
    after.Sound := by
  have hblind : after.smallBlind = before.smallBlind := by
    show after.course.smallBlind = before.course.smallBlind
    rw [hfollows.course]
  have hminRake : after.minRake = before.minRake := by
    show after.course.minRake = before.course.minRake
    rw [hfollows.course]
  have hrakeBps : after.rakeBps = before.rakeBps := by
    show after.course.rakeBps = before.course.rakeBps
    rw [hfollows.course]
  refine ⟨⟨?_, ?_, fun i hi ↦ ?_, fun i hi ↦ ?_, ?_, ?_, ?_⟩, fun i hi ↦ ?_, ?_⟩
  · rw [hfollows.length]
    exact h.solvent.two_le
  · rw [hblind]
    exact h.solvent.blind_pos
  · rw [hfollows.length] at hi
    rw [hblind]
    exact (h.solvent.blind_le i hi).trans (hfollows.player i).bet_le
  · rw [hfollows.length] at hi
    exact (hfollows.player i).within (h.solvent.bet_le i hi)
  · rw [hminRake, hblind]
    exact h.solvent.minRake_le
  · rw [hrakeBps]
    exact h.solvent.rakeBps_le
  · rw [hfollows.length]
    simp only [(hfollows.player _).stack]
    exact h.solvent.stacks_le
  · rw [hfollows.length] at hi
    rw [(hfollows.player i).reveals]
    exact h.reveals i hi
  · rw [hfollows.betting]
    exact h.betting

theorem Hand.Follows.allocated (hand : Hand) : hand.Follows hand.allocated where
  course := rfl
  players := by
    rw [List.forall₂_iff_get]
    refine ⟨by simp [Hand.allocated], fun i hi hi' ↦ ?_⟩
    simp only [List.get_eq_getElem, Hand.allocated, List.getElem_mapIdx]
    exact .of_eq rfl rfl rfl id id

theorem activeCount_allocated (hand : Hand) : activeCount hand.allocated = activeCount hand := by
  have hfolded : hand.allocated.players.map Player.folded = hand.players.map Player.folded := by
    apply List.ext_getElem
    · simp [Hand.allocated]
    · intro i hi hi'
      simp [Hand.allocated]
  have hcount (players : List Player) : players.countP (fun player ↦ !player.folded) =
      (players.map Player.folded).countP fun folded ↦ !folded := by
    rw [List.countP_map]
    rfl
  rw [activeCount, activeCount, hcount, hcount, hfolded]

/-- The ranks do not matter where one player is left. -/
theorem Hand.RanksKnown.of_le {hand : Hand} (h : activeCount hand ≤ 1) : hand.RanksKnown :=
  fun hactive ↦ absurd hactive (by omega)

/-! ## 5. The ways out of a phase -/

/-- `begin_continue` of a hand that can pay. -/
def Hand.concluded (now : Nat) (hand : Hand) : Hand :=
  { hand.allocated with
    phase := .continue
    round := 0
    epoch := 0
    deadline := handDeadline now hand.playerTimeout }

/-- `after_betting_or_reveal` of a hand that can pay. -/
def Hand.next (now : Nat) (hand : Hand) : Hand :=
  if activeCount hand ≤ 1 then hand.concluded now
  else if hand.phase = .reveal ∧ hand.round < 3 ∨ hand.phase = .betting ∧ hand.round < 3 ∨
      hand.phase = .commit then
    enterReveal now hand
  else enterShow now hand

/-- `after_reveal` of a hand that can pay. -/
def Hand.afterReveal (now : Nat) (hand : Hand) : Hand :=
  if activeCount hand > 1 ∧ actorCount hand > 1 then enterBetting now hand else hand.next now

theorem beginContinue_succeeds {s : HandState} (now : Nat) (h : s.hand.Solvent)
    (hknown : s.hand.RanksKnown) :
    Succeeds s (beginContinue now) fun _ t ↦ t.hand = s.hand.concluded now := by
  apply Succeeds.bind
  apply (allocatePayouts_succeeds h hknown).mono
  rintro _ t rfl
  exact .modify rfl

theorem afterBettingOrReveal_succeeds {s : HandState} (now : Nat) (h : s.hand.Solvent) :
    Succeeds s (afterBettingOrReveal now) fun _ t ↦ t.hand = s.hand.next now := by
  apply Succeeds.read
  unfold Hand.next
  by_cases hactive : activeCount s.hand ≤ 1
  · rw [if_pos hactive, if_pos hactive]
    exact beginContinue_succeeds now h (.of_le hactive)
  · rw [if_neg hactive, if_neg hactive]
    split
    · exact .modify rfl
    · exact .modify rfl

theorem afterReveal_succeeds {s : HandState} (now : Nat) (h : s.hand.Solvent) :
    Succeeds s (afterReveal now) fun _ t ↦ t.hand = s.hand.afterReveal now := by
  apply Succeeds.read
  unfold Hand.afterReveal
  by_cases hbet : activeCount s.hand > 1 ∧ actorCount s.hand > 1
  · rw [if_pos hbet, if_pos hbet]
    exact .modify rfl
  · rw [if_neg hbet, if_neg hbet]
    exact afterBettingOrReveal_succeeds now h

/-- The payouts leave what was shown. -/
theorem Player.Shown.concluded {hand : Hand} {i : Nat} (h : (hand.player i).Shown) (now : Nat) :
    ((hand.concluded now).player i).Shown := by
  by_cases hi : i < hand.players.length
  · have hi' : i < (hand.concluded now).players.length := by
      simpa [Hand.concluded, Hand.allocated] using hi
    rw [Hand.player_of_lt _ hi] at h
    rw [Hand.player_of_lt _ hi']
    unfold Player.Shown at h ⊢
    simpa [Hand.concluded, Hand.allocated] using h
  · have hi' : (hand.concluded now).players.length ≤ i := by
      simpa [Hand.concluded, Hand.allocated] using hi
    rw [Hand.player_of_ge _ (Nat.le_of_not_lt hi)] at h
    rwa [Hand.player_of_ge _ hi']

/-! ## 6. The places of the phases -/

/-- A hand that is played on: two players are left, and those who are have committed. -/
structure Hand.Contested (hand : Hand) : Prop where
  two_le : 2 ≤ activeCount hand
  committed : ∀ i < hand.players.length, (hand.player i).Committed

/-- The round and the sources in each phase. -/
def Hand.Placed (hand : Hand) : Prop :=
  match hand.phase with
  | .commit => hand.round = 0 ∧ hand.sources = [] ∧ 2 ≤ activeCount hand
  | .reveal => hand.round < 4 ∧ hand.sources.length = hand.round ∧ hand.Contested
  | .betting => hand.round < 4 ∧ hand.sources.length = hand.round + 1 ∧ hand.Contested
  | .«show» => hand.round = 4 ∧ hand.sources.length = 4 ∧
      ∀ i < hand.players.length, (hand.player i).Committed
  | .«continue» => hand.round = 0
  | .settling => hand.round = 0
  | .unknown => False

/-- What every step of a hand keeps. -/
structure Hand.Orderly (hand : Hand) : Prop extends hand.Sound where
  placed : hand.Placed

/-- A step leads from a phase and round to a phase and round. -/
inductive PhaseStep : HandPhase → Nat → HandPhase → Nat → Prop
  | stay (phase : HandPhase) (round : Nat) : PhaseStep phase round phase round
  | committed : PhaseStep .commit 0 .reveal 0
  | opened {round : Nat} (h : round < 4) : PhaseStep .reveal round .betting round
  | checked {round : Nat} (h : round < 3) : PhaseStep .reveal round .reveal (round + 1)
  | bet {round : Nat} (h : round < 3) : PhaseStep .betting round .reveal (round + 1)
  | revealed : PhaseStep .reveal 3 .show 4
  | called : PhaseStep .betting 3 .show 4
  | concluded {phase : HandPhase} (round : Nat)
      (h : phase = .commit ∨ phase = .reveal ∨ phase = .betting ∨ phase = .show) :
      PhaseStep phase round .continue 0
  | settled : PhaseStep .continue 0 .settling 0

/-- How a phase before the show is left. -/
structure Hand.LeftFor (hand after : Hand) : Prop where
  orderly : after.Orderly
  moves : PhaseStep hand.phase hand.round after.phase after.round
  continues : after.phase = .continue ↔ activeCount after ≤ 1
  sources : after.sources = hand.sources

/-- The hand after the turns of a phase before the show. -/
structure Hand.Turned (hand : Hand) : Prop extends hand.Sound where
  committed : ∀ i < hand.players.length, (hand.player i).Committed
  place : hand.phase = .commit ∧ hand.round = 0 ∧ hand.sources = [] ∨
    (hand.phase = .reveal ∨ hand.phase = .betting) ∧ hand.round < 4 ∧
      hand.sources.length = hand.round + 1

/-- The betting goes on. -/
theorem Hand.Turned.orderly {hand : Hand} (h : hand.Turned) (hphase : hand.phase = .betting)
    (htwo : 2 ≤ activeCount hand) : hand.Orderly where
  toSound := h.toSound
  placed := by
    unfold Hand.Placed
    simp only [hphase]
    rcases h.place with ⟨hcommit, _⟩ | ⟨_, hround, hsources⟩
    · cases hphase.symm.trans hcommit
    · exact ⟨hround, hsources, htwo, h.committed⟩

theorem Hand.Sound.concluded {hand : Hand} (h : hand.Sound) (now : Nat) :
    (hand.concluded now).Orderly where
  toSound := (h.follows (.allocated hand)).of_eq rfl rfl rfl rfl rfl
  placed := rfl

/-- A hand at the show. -/
theorem Hand.Sound.atShow {hand : Hand} (h : hand.Sound) (hphase : hand.phase = .show)
    (hround : hand.round = 4) (hsources : hand.sources.length = 4)
    (hcommitted : ∀ i < hand.players.length, (hand.player i).Committed) : hand.Orderly where
  toSound := h
  placed := by
    unfold Hand.Placed
    rw [hphase]
    exact ⟨hround, hsources, hcommitted⟩

/-- A hand that was paid out. -/
theorem Hand.Sound.atEnd {hand : Hand} (h : hand.Sound)
    (hphase : hand.phase = .continue ∨ hand.phase = .settling) (hround : hand.round = 0) :
    hand.Orderly where
  toSound := h
  placed := by
    unfold Hand.Placed
    rcases hphase with hphase | hphase
    · rwa [hphase]
    · rwa [hphase]

theorem Hand.Turned.next {hand : Hand} (h : hand.Turned) (now : Nat) : hand.LeftFor (hand.next now) := by
  unfold Hand.next
  -- nobody is left to play against
  by_cases hactive : activeCount hand ≤ 1
  · rw [if_pos hactive]
    refine ⟨h.toSound.concluded now, .concluded _ ?_, ?_, rfl⟩
    · rcases h.place with ⟨hphase, _⟩ | ⟨hphase | hphase, _⟩
      · exact .inl hphase
      · exact .inr (.inl hphase)
      · exact .inr (.inr (.inl hphase))
    · have hcount : activeCount (hand.concluded now) = activeCount hand := activeCount_allocated hand
      rw [hcount]
      exact ⟨fun _ ↦ hactive, fun _ ↦ rfl⟩
  · rw [if_neg hactive]
    have hcontested : hand.Contested := ⟨by omega, h.committed⟩
    -- another round is revealed
    by_cases hnext : hand.phase = .reveal ∧ hand.round < 3 ∨ hand.phase = .betting ∧ hand.round < 3 ∨
        hand.phase = .commit
    · rw [if_pos hnext]
      have hcontinues : (enterReveal now hand).phase = .continue ↔ activeCount hand ≤ 1 :=
        ⟨fun hphase ↦ (nomatch hphase), fun hle ↦ absurd hle hactive⟩
      have hsound : (enterReveal now hand).Sound := h.toSound.of_eq rfl rfl rfl rfl rfl
      rcases h.place with ⟨hphase, hround, hsources⟩ | ⟨hphase, hround, hsources⟩
      · have hround' : (enterReveal now hand).round = 0 := by simp [enterReveal, hphase, hround]
        refine ⟨⟨hsound, ?_, ?_, hcontested.two_le, hcontested.committed⟩, ?_, hcontinues, rfl⟩
        · rw [hround']
          decide
        · rw [hround']
          exact congrArg List.length hsources
        · rw [hphase, hround, hround']
          exact .committed
      · have hlt : hand.round < 3 := by
          rcases hnext with hnext | hnext | hnext
          · exact hnext.2
          · exact hnext.2
          · rcases hphase with hphase | hphase
            · cases hphase.symm.trans hnext
            · cases hphase.symm.trans hnext
        have hround' : (enterReveal now hand).round = hand.round + 1 := by
          rcases hphase with hphase | hphase
          · simp [enterReveal, hphase]
          · simp [enterReveal, hphase]
        refine ⟨⟨hsound, ?_, ?_, hcontested.two_le, hcontested.committed⟩, ?_, hcontinues, rfl⟩
        · rw [hround']
          omega
        · rw [hround']
          exact hsources
        · rw [hround']
          rcases hphase with hphase | hphase
          · rw [hphase]
            exact .checked hlt
          · rw [hphase]
            exact .bet hlt
    -- behind the last round the cards are shown
    · rw [if_neg hnext]
      have hcontinues : (enterShow now hand).phase = .continue ↔ activeCount hand ≤ 1 :=
        ⟨fun hphase ↦ (nomatch hphase), fun hle ↦ absurd hle hactive⟩
      have hsound : (enterShow now hand).Sound := h.toSound.of_eq rfl rfl rfl rfl rfl
      rcases h.place with ⟨hphase, _⟩ | ⟨hphase, hround, hsources⟩
      · exact absurd (.inr (.inr hphase)) hnext
      · have hlast : hand.round = 3 := by
          rcases hphase with hphase | hphase
          · have hge : ¬hand.round < 3 := fun hlt ↦ hnext (.inl ⟨hphase, hlt⟩)
            omega
          · have hge : ¬hand.round < 3 := fun hlt ↦ hnext (.inr (.inl ⟨hphase, hlt⟩))
            omega
        have hlength : hand.sources.length = 4 := by
          rw [hsources, hlast]
        refine ⟨⟨hsound, rfl, hlength, hcontested.committed⟩, ?_, hcontinues, rfl⟩
        rw [hlast]
        rcases hphase with hphase | hphase
        · rw [hphase]
          exact .revealed
        · rw [hphase]
          exact .called

theorem Hand.Turned.afterReveal {hand : Hand} (h : hand.Turned) (hphase : hand.phase = .reveal)
    (now : Nat) : hand.LeftFor (hand.afterReveal now) := by
  unfold Hand.afterReveal
  by_cases hbet : activeCount hand > 1 ∧ actorCount hand > 1
  · rw [if_pos hbet]
    rcases h.place with ⟨hcommit, _⟩ | ⟨_, hround, hsources⟩
    · cases hphase.symm.trans hcommit
    · refine ⟨⟨h.toSound.of_eq rfl rfl rfl rfl rfl, hround, hsources, hbet.1, h.committed⟩, ?_, ?_, rfl⟩
      · rw [hphase]
        exact .opened hround
      · have hactive : ¬activeCount hand ≤ 1 := by omega
        exact ⟨fun hcontinue ↦ (nomatch hcontinue), fun hle ↦ absurd hle hactive⟩
  · rw [if_neg hbet]
    exact h.next now

/-! ## 7. One step -/

/-- The exceptions that a step can end in. -/
def Hand.MayThrow (hand : Hand) (env : Env) (e : Exit) : Prop :=
  match hand.phase with
  | .betting => maxU64 ≤ hand.epoch ∧ e = .exception (.config "betting epoch overflow")
  | .«show» => env.Refuses e
  | .«continue» => env.Refuses e
  | .settling => env.Refuses e
  | _ => False

/-- What a step of a hand comes to. -/
structure Advanced (env : Env) (hand : Hand) (r : Except Exit Bool) (after : Hand) : Prop where
  orderly : after.Orderly
  error : ∀ e, r = .error e → hand.MayThrow env e
  moves : PhaseStep hand.phase hand.round after.phase after.round
  sources : after.sources.length =
    hand.sources.length + if hand.phase = .reveal ∧ r = .ok true then 1 else 0
  early : hand.phase = .commit ∨ hand.phase = .reveal ∨ hand.phase = .betting →
    (after.phase = .continue ↔ activeCount after ≤ 1)
  late : hand.phase = .show →
    (after.phase = .continue ↔ r = .ok true ∧ hand.board.isSome = true)
  shown : hand.phase = .show → after.phase = .continue →
    ∀ i < after.players.length, (after.player i).Shown

namespace Hand.Orderly

variable {hand : Hand} (h : hand.Orderly)
include h

theorem commit (hphase : hand.phase = .commit) :
    hand.round = 0 ∧ hand.sources = [] ∧ 2 ≤ activeCount hand := by
  have hplaced := h.placed
  unfold Hand.Placed at hplaced
  rwa [hphase] at hplaced

theorem reveal (hphase : hand.phase = .reveal) :
    hand.round < 4 ∧ hand.sources.length = hand.round ∧ hand.Contested := by
  have hplaced := h.placed
  unfold Hand.Placed at hplaced
  rwa [hphase] at hplaced

theorem bet (hphase : hand.phase = .betting) :
    hand.round < 4 ∧ hand.sources.length = hand.round + 1 ∧ hand.Contested := by
  have hplaced := h.placed
  unfold Hand.Placed at hplaced
  rwa [hphase] at hplaced

theorem «show» (hphase : hand.phase = .show) : hand.round = 4 ∧ hand.sources.length = 4 ∧
    ∀ i < hand.players.length, (hand.player i).Committed := by
  have hplaced := h.placed
  unfold Hand.Placed at hplaced
  rwa [hphase] at hplaced

theorem round_zero (hphase : hand.phase = .continue ∨ hand.phase = .settling) : hand.round = 0 := by
  have hplaced := h.placed
  unfold Hand.Placed at hplaced
  rcases hphase with hphase | hphase
  · rwa [hphase] at hplaced
  · rwa [hphase] at hplaced

/-- Before the show two players are left. -/
theorem two_le (hphase : hand.phase = .commit ∨ hand.phase = .reveal ∨ hand.phase = .betting) :
    2 ≤ activeCount hand := by
  rcases hphase with hphase | hphase | hphase
  · exact (h.commit hphase).2.2
  · exact (h.reveal hphase).2.2.two_le
  · exact (h.bet hphase).2.2.two_le

/-- A step that stays in its phase and round. -/
theorem stayed {env : Env} {before : Hand} {r : Except Exit Bool} (hphase : hand.phase = before.phase)
    (hround : hand.round = before.round) (hsources : hand.sources = before.sources)
    (hreveal : before.phase = .reveal → r ≠ .ok true)
    (hshow : before.phase = .show → ¬(r = .ok true ∧ before.board.isSome = true))
    (herror : ∀ e, r = .error e → before.MayThrow env e) : Advanced env before r hand where
  orderly := h
  error := herror
  moves := by
    rw [hphase, hround]
    exact .stay _ _
  sources := by rw [if_neg fun hboth ↦ hreveal hboth.1 hboth.2, hsources, Nat.add_zero]
  early hearly := by
    rw [← hphase] at hearly
    have htwo := h.two_le hearly
    constructor
    · intro hcontinue
      rw [hcontinue] at hearly
      rcases hearly with hearly | hearly | hearly
      · cases hearly
      · cases hearly
      · cases hearly
    · omega
  late hlate := by
    constructor
    · intro hcontinue
      cases (hphase.trans hlate).symm.trans hcontinue
    · exact fun hboth ↦ absurd hboth (hshow hlate)
  shown hlate hcontinue := by cases (hphase.trans hlate).symm.trans hcontinue

theorem waits {env : Env} : Advanced env hand (.ok false) hand :=
  h.stayed rfl rfl rfl (fun _ hr ↦ nomatch hr) (fun _ hr ↦ nomatch hr.1) fun _ hr ↦ nomatch hr

end Hand.Orderly

/-- A step of a hand that was paid out. -/
theorem Hand.Orderly.left {env : Env} {before hand : Hand} {r : Except Exit Bool} (h : hand.Orderly)
    (hover : before.phase = .continue ∨ before.phase = .settling)
    (hmoves : PhaseStep before.phase before.round hand.phase hand.round)
    (hsources : hand.sources = before.sources)
    (herror : ∀ e, r = .error e → before.MayThrow env e) : Advanced env before r hand where
  orderly := h
  error := herror
  moves := hmoves
  sources := by
    rcases hover with hover | hover
    · rw [hover, hsources]
      rfl
    · rw [hover, hsources]
      rfl
  early hearly := by
    rcases hover with hover | hover
    · rw [hover] at hearly
      simp at hearly
    · rw [hover] at hearly
      simp at hearly
  late hlate := by
    rw [hlate] at hover
    simp at hover
  shown hlate := by
    rw [hlate] at hover
    simp at hover

/-- A phase before the show is over. -/
theorem Hand.LeftFor.advanced {env : Env} {hand turned after : Hand} (h : turned.LeftFor after)
    (hearly : hand.phase = .commit ∨ hand.phase = .reveal ∨ hand.phase = .betting)
    (hphase : turned.phase = hand.phase) (hround : turned.round = hand.round)
    (hsources : turned.sources.length = hand.sources.length + if hand.phase = .reveal then 1 else 0) :
    Advanced env hand (.ok true) after where
  orderly := h.orderly
  error _ he := nomatch he
  moves := by
    rw [← hphase, ← hround]
    exact h.moves
  sources := by
    rw [h.sources, hsources]
    simp only [and_true]
  early _ := h.continues
  late hshow := by
    rw [hshow] at hearly
    rcases hearly with hearly | hearly | hearly
    · cases hearly
    · cases hearly
    · cases hearly
  shown hshow := by
    rw [hshow] at hearly
    rcases hearly with hearly | hearly | hearly
    · cases hearly
    · cases hearly
    · cases hearly

/-- A call that succeeds, and what is made of its state. -/
theorem after_succeeds {α : Type} {m : HandM Unit} {a : α} {s : HandState} {P : Unit → HandState → Prop}
    {Q : Except Exit α → HandState → Prop} (h : Succeeds s m P) (himp : ∀ t, P () t → Q (.ok a) t) :
    After s (m >>= fun _ ↦ Pure.pure a) Q := by
  apply After.bind
  apply After.mono h
  intro r t hr
  cases r with
  | ok _ => exact After.pure (himp t hr)
  | error e => exact hr.elim

section Steps

variable (env : Env) (native : Native) (now : Nat) {s : HandState}

theorem advances_advanceCommit (h : s.hand.Orderly) (hphase : s.hand.phase = .commit) :
    After s (advanceCommit native now) fun r t ↦ Advanced env s.hand r t.hand := by
  have ⟨hround, hsources, _⟩ := h.commit hphase
  have hturns := turns_follow (f := commitPlayer native) id (turn_commitPlayer native) s
    s.hand.players.length (Nat.le_refl _)
  apply After.read
  apply After.ite
  · exact fun _ ↦ After.pure h.waits
  · intro _
    apply After.bind
    apply After.set
    generalize (List.range s.hand.players.length).foldl (commitPlayer native) s = committed
      at hturns ⊢
    have hfollows : s.hand.Follows committed.hand := hturns.1
    have hsound := h.toSound.follows hfollows
    have hturned : committed.hand.Turned := by
      refine ⟨hsound, fun i hi ↦ hturns.2 i (by rwa [hfollows.length] at hi), .inl ⟨?_, ?_, ?_⟩⟩
      · exact hfollows.phase.trans hphase
      · exact hfollows.round.trans hround
      · exact hfollows.sources.trans hsources
    apply after_succeeds (afterBettingOrReveal_succeeds now hsound.solvent)
    intro t ht
    rw [ht]
    refine (hturned.next now).advanced (.inl hphase) hfollows.phase hfollows.round ?_
    rw [hfollows.sources, hphase]
    rfl

theorem advances_advanceReveal (h : s.hand.Orderly) (hphase : s.hand.phase = .reveal) :
    After s (advanceReveal native now) fun r t ↦ Advanced env s.hand r t.hand := by
  have ⟨hround, hsources, hcontested⟩ := h.reveal hphase
  have ⟨hfollows, _⟩ := turns_follow Prod.fst (turn_revealPlayer native s.hand.round) (s, "")
    s.hand.players.length (Nat.le_refl _)
  apply After.read
  apply After.ite
  · exact fun _ ↦ After.pure h.waits
  · intro _
    generalize (List.range s.hand.players.length).foldl (revealPlayer native s.hand.round) (s, "") =
      revealed at hfollows ⊢
    have hsound := h.toSound.follows hfollows
    apply After.bind
    apply After.set
    apply After.bind
    apply after_inBounds (hsound.revealsFit hround (by rw [hfollows.sources, hsources]))
    apply After.bind
    apply After.modify
    have hturned : (appendSource native s.hand.round revealed.2 revealed.1.hand).Turned := by
      refine ⟨hsound.of_eq rfl rfl rfl rfl rfl, fun i hi ↦ ?_, .inr ⟨.inl ?_, ?_, ?_⟩⟩
      · exact (hcontested.committed i (by rw [← hfollows.length]; exact hi)).follows (hfollows.player i)
      · exact hfollows.phase.trans hphase
      · show revealed.1.hand.round < 4
        rw [hfollows.round]
        exact hround
      · show (revealed.1.hand.sources ++ [_]).length = revealed.1.hand.round + 1
        rw [List.length_append, hfollows.sources, hfollows.round, hsources]
        rfl
    apply after_succeeds (afterReveal_succeeds now hturned.solvent)
    intro t ht
    rw [ht]
    refine (hturned.afterReveal (hfollows.phase.trans hphase) now).advanced (.inr (.inl hphase))
      hfollows.phase hfollows.round ?_
    show (revealed.1.hand.sources ++ [_]).length = _
    rw [List.length_append, hfollows.sources, if_pos hphase]
    rfl

/-- The end of an epoch: the betting is over, or the next epoch begins. -/
theorem after_afterEpoch (hturned : s.hand.Turned) (hphase : s.hand.phase = .betting) :
    After s (afterEpoch now) fun r t ↦ match r with
      | .ok _ => s.hand.LeftFor t.hand
      | .error e => t.hand = s.hand ∧ 2 ≤ activeCount s.hand ∧ maxU64 ≤ s.hand.epoch ∧
          e = .exception (.config "betting epoch overflow") := by
  apply After.read
  apply After.ite
  · intro _
    apply After.mono (afterBettingOrReveal_succeeds now hturned.solvent)
    intro r t hr
    cases r with
    | ok _ =>
        show s.hand.LeftFor t.hand
        rw [show t.hand = s.hand.next now from hr]
        exact hturned.next now
    | error e => exact hr.elim
  · intro hgoes
    have htwo : 2 ≤ activeCount s.hand := by
      rw [bettingDone_eq, decide_eq_true_eq] at hgoes
      omega
    apply After.bind
    unfold requireConfig
    apply After.ite
    · intro _
      apply After.pure
      apply After.modify
      have hnext : Hand.Turned { s.hand with
          epoch := s.hand.epoch + 1
          deadline := handDeadline now s.hand.playerTimeout } :=
        ⟨hturned.toSound.of_eq rfl rfl rfl rfl rfl, hturned.committed, hturned.place⟩
      -- The next epoch is in the same phase and round.
      refine ⟨hnext.orderly hphase htwo, .stay _ _, ?_, rfl⟩
      have hactive : ¬activeCount s.hand ≤ 1 := by omega
      exact ⟨fun hcontinue ↦ (nomatch hphase.symm.trans hcontinue), fun hle ↦ absurd hle hactive⟩
    · intro hfull
      apply After.throw
      exact ⟨rfl, htwo, Nat.le_of_not_lt hfull, rfl⟩

/-- The bets of an epoch. -/
def betTurns (native : Native) (s : HandState) : HandState × List BettingEntry :=
  (List.range s.hand.players.length).foldl
    (betPlayer native s.hand.round s.hand.epoch (currentBet s.hand)) (s, [])

theorem betTurns_follow : s.hand.Follows (betTurns native s).1.hand :=
  (turns_follow Prod.fst (turn_betPlayer native s.hand.round s.hand.epoch (currentBet s.hand)) (s, [])
    s.hand.players.length (Nat.le_refl _)).1

theorem betTurns_turned (h : s.hand.Orderly) (hphase : s.hand.phase = .betting) :
    (appendEntries s.hand.round (betTurns native s).2 (betTurns native s).1.hand).Turned := by
  have ⟨hround, hsources, hcontested⟩ := h.bet hphase
  have hfollows := betTurns_follow native (s := s)
  refine ⟨(h.toSound.follows hfollows).of_eq rfl rfl rfl rfl (List.length_modify ..), fun i hi ↦ ?_,
    .inr ⟨.inr ?_, ?_, ?_⟩⟩
  · exact (hcontested.committed i (by rw [← hfollows.length]; exact hi)).follows (hfollows.player i)
  · exact hfollows.phase.trans hphase
  · show (betTurns native s).1.hand.round < 4
    rw [hfollows.round]
    exact hround
  · show (betTurns native s).1.hand.sources.length = (betTurns native s).1.hand.round + 1
    rw [hfollows.sources, hfollows.round, hsources]

theorem advances_advanceBetting (h : s.hand.Orderly) (hphase : s.hand.phase = .betting) :
    After s (advanceBetting native now) fun r t ↦ Advanced env s.hand r t.hand := by
  have hfollows := betTurns_follow native (s := s)
  have hturned := betTurns_turned native h hphase
  have hepoch : (betTurns native s).1.hand.epoch = s.hand.epoch := by
    show (betTurns native s).1.hand.course.epoch = s.hand.course.epoch
    rw [hfollows.course]
  apply After.read
  apply After.ite
  · exact fun _ ↦ After.pure h.waits
  · intro _
    have hround : s.hand.round < (betTurns native s).1.hand.betting.length := by
      rw [hfollows.betting, h.betting]
      exact (h.bet hphase).1
    apply After.bind
    apply After.set
    apply After.bind
    apply after_inBounds hround
    apply After.bind
    apply After.modify
    apply After.bind
    apply (after_afterEpoch (s := { (betTurns native s).1 with
      hand := appendEntries s.hand.round (betTurns native s).2 (betTurns native s).1.hand })
      now hturned (hfollows.phase.trans hphase)).mono
    intro r t hr
    cases r with
    | ok _ =>
        apply After.pure
        refine Hand.LeftFor.advanced hr (.inr (.inr hphase)) hfollows.phase hfollows.round ?_
        show (betTurns native s).1.hand.sources.length = _
        rw [hfollows.sources, hphase]
        rfl
    | error e =>
        have ⟨hsame, htwo, hfull, he⟩ := hr
        have horderly : t.hand.Orderly := by
          rw [hsame]
          exact hturned.orderly (hfollows.phase.trans hphase) htwo
        refine horderly.stayed ?_ ?_ ?_ (fun _ hr ↦ nomatch hr) (fun _ hr ↦ nomatch hr.1) ?_
        · rw [hsame]
          exact hfollows.phase
        · rw [hsame]
          exact hfollows.round
        · rw [hsame]
          exact hfollows.sources
        · intro e' he'
          cases he'
          unfold Hand.MayThrow
          rw [hphase]
          exact ⟨by rw [← hepoch]; exact hfull, he⟩

/-- The seeds of the cards on the board. -/
def boardSeeds (native : Native) (hand : Hand) : List String :=
  let seed (label : String) := sha256Hex native (label ++ hand.sources.getD 1 "")
  [seed "F1", seed "F2", seed "F3", hand.sources.getD 2 "", hand.sources.getD 3 ""]

/-- The board is dealt, or the node refuses and the hand stays as it is. -/
theorem after_makeBoard (hsources : s.hand.sources.length = 4) :
    After s (makeBoard env native) fun r t ↦ match r with
      | .ok _ => ∃ board, t.hand = { s.hand with board := some board }
      | .error e => Counted s t ∧ env.Refuses e := by
  apply After.read
  apply After.bind
  unfold requireConfig
  apply After.ite
  case hneg => exact fun hnot ↦ absurd hsources hnot
  intro _
  apply After.pure
  apply After.bind
  have hasks : Asks env (call env fun n ↦ env.node.dealCards n s.hand.table
      (boardSeeds native s.hand)) :=
    .call fun n e h ↦ .inl ⟨n, _, _, h⟩
  apply (hasks s).mono
  intro r t ⟨hst, herror⟩
  cases r with
  | error e => exact ⟨hst, herror e rfl⟩
  | ok board =>
      apply After.modify
      exact ⟨board, by rw [hst.hand]⟩

theorem advances_advanceShow (h : s.hand.Orderly) (hphase : s.hand.phase = .show) :
    After s (advanceShow env native now) fun r t ↦ Advanced env s.hand r t.hand := by
  have ⟨hround, hsources, hcommitted⟩ := h.show hphase
  -- in this phase every refusal of the node may end the call
  have hthrows (e : Exit) (he : env.Refuses e) (e' : Exit)
      (he' : (Except.error e : Except Exit Bool) = .error e') : s.hand.MayThrow env e' := by
    cases he'
    unfold Hand.MayThrow
    rw [hphase]
    exact he
  apply After.read
  apply After.ite
  · intro hboard
    apply After.bind
    apply (after_makeBoard env native hsources).mono
    intro r t hr
    cases r with
    | error e =>
        rw [hr.1.hand]
        exact h.stayed rfl rfl rfl (fun _ hr ↦ nomatch hr) (fun _ hr ↦ nomatch hr.1) (hthrows e hr.2)
    | ok _ =>
        have ⟨board, ht⟩ := hr
        apply After.pure
        have hnext : t.hand.Orderly := by
          rw [ht]
          exact Hand.Sound.atShow (h.toSound.of_eq rfl rfl rfl rfl rfl) hphase hround hsources hcommitted
        refine hnext.stayed (by rw [ht]) (by rw [ht]) (by rw [ht]) ?_ ?_ fun _ hr ↦ nomatch hr
        · exact fun hreveal ↦ nomatch hphase.symm.trans hreveal
        · intro _ hboth
          rw [Option.isNone_iff_eq_none] at hboard
          rw [hboard] at hboth
          exact nomatch hboth.2
  · intro hboard
    apply After.bind
    apply (Asks.foldlM (fun ready player ↦ asks_showSubmitted env native ready player) _ true s).mono
    intro r t ⟨hst, herror⟩
    cases r with
    | error e =>
        rw [show t.hand = s.hand from hst.hand]
        exact h.stayed rfl rfl rfl (fun _ hr ↦ nomatch hr) (fun _ hr ↦ nomatch hr.1)
          (hthrows e (herror e rfl))
    | ok ready =>
        apply After.ite
        · intro _
          apply After.pure
          rw [hst.hand]
          exact h.waits
        -- the turns are taken, whether the last one throws or not
        · intro _
          apply After.bind
          apply (turns_showPlayer env native t s.hand.players.length (by rw [hst.hand])).mono
          intro r u hr
          have hfollows : s.hand.Follows u.hand := by
            rw [← hst.hand]
            exact hr.1
          have hsound := h.toSound.follows hfollows
          have hcommitted' : ∀ i < u.hand.players.length, (u.hand.player i).Committed := by
            intro i hi
            rw [hfollows.length] at hi
            exact (hcommitted i hi).follows (hfollows.player i)
          cases r with
          | error e =>
              have horderly := hsound.atShow (hfollows.phase.trans hphase)
                (hfollows.round.trans hround) (by rw [hfollows.sources, hsources]) hcommitted'
              exact horderly.stayed hfollows.phase hfollows.round hfollows.sources
                (fun _ hr ↦ nomatch hr) (fun _ hr ↦ nomatch hr.1) (hthrows e hr.2)
          | ok _ =>
              have hshown : ∀ i < u.hand.players.length, (u.hand.player i).Shown := by
                intro i hi
                exact hr.2 i (by rwa [hfollows.length] at hi)
              apply after_succeeds (beginContinue_succeeds now hsound.solvent fun _ ↦ hshown)
              intro v hv
              rw [hv]
              exact {
                orderly := hsound.concluded now
                error := fun _ he ↦ nomatch he
                moves := .concluded s.hand.round (.inr (.inr (.inr hphase)))
                sources := by
                  rw [hphase]
                  exact congrArg List.length hfollows.sources
                early := fun hearly ↦ by
                  rw [hphase] at hearly
                  simp at hearly
                late := fun _ ↦ by
                  have hboard : s.hand.board.isSome = true := by
                    rw [Option.isSome_iff_ne_none]
                    simpa using hboard
                  exact ⟨fun _ ↦ ⟨rfl, hboard⟩, fun _ ↦ rfl⟩
                shown := fun _ _ i hi ↦ by
                  have hi' : i < u.hand.players.length := by
                    simpa [Hand.concluded, Hand.allocated] using hi
                  exact (hshown i hi').concluded now
              }

/-- What `submit_settlement` sends. -/
def settlementOf (hand : Hand) : Settlement :=
  { table := hand.table
    commitments := hand.players.map Player.commitments
    signatures := hand.players.map Player.commitSignature
    reveals := hand.players.map Player.reveals
    betting := hand.betting
    shows := hand.shows
    timeouts := hand.timeouts
    continuations := hand.continuations }

/-- The settlement is submitted, or the node refuses and the hand stays as it is. -/
theorem after_submitSettlement (height : Nat) :
    After s (submitSettlement env height) fun r t ↦ match r with
      | .ok _ => ∃ transaction, t.hand = { s.hand with
          settlementTx := some transaction
          settlementHeight := some height
          phase := .settling
          deadline := 0 }
      | .error e => t.hand = s.hand ∧ env.Refuses e := by
  apply After.read
  apply After.bind
  have hasks : Asks env (call env fun n ↦ env.node.settle n (settlementOf s.hand)) :=
    .call fun n e h ↦ .inr (.inr (.inr ⟨n, _, h⟩))
  apply (hasks s).mono
  intro r t ⟨hst, herror⟩
  cases r with
  | error e => exact ⟨hst.hand, herror e rfl⟩
  | ok transaction =>
      apply After.modify
      exact ⟨transaction, by rw [hst.hand]⟩

/-- The settlement of a hand that was paid out. -/
theorem advances_submitSettlement {before : Hand} (height : Nat) (h : s.hand.Orderly)
    (hover : s.hand.phase = .continue ∨ s.hand.phase = .settling)
    (hphase : s.hand.phase = before.phase) (hround : s.hand.round = before.round)
    (hsources : s.hand.sources = before.sources) :
    After s (submitSettlement env height >>= fun _ ↦ Pure.pure true) fun r t ↦
      Advanced env before r t.hand := by
  have hzero := h.round_zero hover
  apply After.bind
  apply (after_submitSettlement env height).mono
  intro r t hr
  cases r with
  | error e =>
      rw [hr.1]
      refine h.left (by rwa [← hphase]) ?_ hsources fun e' he' ↦ ?_
      · rw [hphase, hround]
        exact .stay _ _
      · cases he'
        unfold Hand.MayThrow
        rw [← hphase]
        rcases hover with hover | hover
        · rw [hover]
          exact hr.2
        · rw [hover]
          exact hr.2
  | ok _ =>
      have ⟨transaction, ht⟩ := hr
      apply After.pure
      rw [ht]
      have hsound : Hand.Sound { s.hand with
          settlementTx := some transaction
          settlementHeight := some height
          phase := .settling
          deadline := 0 } :=
        h.toSound.of_eq rfl rfl rfl rfl rfl
      refine (hsound.atEnd (.inr rfl) hzero).left (by rwa [← hphase]) ?_ hsources fun _ he ↦ nomatch he
      rw [← hphase, ← hround]
      rcases hover with hover | hover
      · rw [hover, hzero]
        exact .settled
      · rw [hover]
        exact .stay _ _

theorem advances_advanceContinue (chain : ChainState) (h : s.hand.Orderly)
    (hphase : s.hand.phase = .continue) :
    After s (advanceContinue env chain now) fun r t ↦ Advanced env s.hand r t.hand := by
  have hturns := turns_follow (f := continuePlayer) id turn_continuePlayer s
    s.hand.players.length (Nat.le_refl _)
  apply After.read
  apply After.ite
  · exact fun _ ↦ After.pure h.waits
  · intro _
    apply After.bind
    apply After.set
    generalize (List.range s.hand.players.length).foldl continuePlayer s = continued at hturns ⊢
    have hfollows : s.hand.Follows continued.hand := hturns.1
    have hcontinue : continued.hand.phase = .continue := hfollows.phase.trans hphase
    have horderly := (h.toSound.follows hfollows).atEnd (.inl hcontinue)
      (hfollows.round.trans (h.round_zero (.inl hphase)))
    exact advances_submitSettlement env chain.height horderly (.inl hcontinue) hfollows.phase
      hfollows.round hfollows.sources

theorem advances_retrySettlement (chain : ChainState) (h : s.hand.Orderly)
    (hphase : s.hand.phase = .settling) :
    After s (retrySettlement env chain) fun r t ↦ Advanced env s.hand r t.hand := by
  apply After.read
  apply After.ite
  · exact fun _ ↦ After.pure h.waits
  · exact fun _ ↦ advances_submitSettlement env chain.height h (.inr hphase) rfl rfl rfl

/-- Every call of `advance_hand` on an orderly hand. -/
theorem advances_advanceHand (chain : ChainState) (h : s.hand.Orderly) :
    After s (advanceHand env native chain now) fun r t ↦ Advanced env s.hand r t.hand := by
  apply After.read
  cases hphase : s.hand.phase with
  | commit => exact advances_advanceCommit env native now h hphase
  | reveal => exact advances_advanceReveal env native now h hphase
  | betting => exact advances_advanceBetting env native now h hphase
  | «show» => exact advances_advanceShow env native now h hphase
  | «continue» => exact advances_advanceContinue env now chain h hphase
  | settling => exact advances_retrySettlement env chain h hphase
  | unknown =>
      have hplaced := h.placed
      unfold Hand.Placed at hplaced
      rw [hphase] at hplaced
      exact hplaced.elim

end Steps

/-! ## 8. The places that a step reads and writes -/

/-- The places of the lists that the phase reads and writes at its round are there. -/
def Hand.PlacesInRange (hand : Hand) : Prop :=
  match hand.phase with
  | .reveal =>
      (∀ i < hand.players.length, hand.round < (hand.player i).reveals.length ∧
        ((hand.player i).folded = false → hand.round < (hand.player i).commitments.length)) ∧
      (0 < hand.round → hand.round - 1 < hand.sources.length)
  | .betting => hand.round < hand.betting.length
  | .«show» =>
      (∀ i < hand.players.length, (hand.player i).folded = false →
        hand.round < (hand.player i).commitments.length) ∧
      3 < hand.sources.length
  | _ => True

/-- The places are there when a step begins and after any number of its turns. -/
structure HandState.PlacesInRange (env : Env) (native : Native) (s : HandState) : Prop where
  start : s.hand.PlacesInRange
  reveals : s.hand.phase = .reveal → ∀ k ≤ s.hand.players.length,
    ((List.range k).foldl (revealPlayer native s.hand.round) (s, "")).1.hand.PlacesInRange
  bets : s.hand.phase = .betting → ∀ k ≤ s.hand.players.length,
    ((List.range k).foldl (betPlayer native s.hand.round s.hand.epoch (currentBet s.hand))
      (s, [])).1.hand.PlacesInRange
  shows : s.hand.phase = .show → ∀ k ≤ s.hand.players.length, ∀ t, Counted s t →
    After t ((List.range k).forM (showPlayer env native)) fun _ u ↦ u.hand.PlacesInRange

/-- The turns of a step keep the places. -/
theorem Hand.Orderly.inRange {hand after : Hand} (h : hand.Orderly) (hfollows : hand.Follows after) :
    after.PlacesInRange := by
  have hsound := h.toSound.follows hfollows
  unfold Hand.PlacesInRange
  rw [hfollows.phase]
  cases hphase : hand.phase with
  | reveal =>
      have ⟨hround, hsources, hcontested⟩ := h.reveal hphase
      refine ⟨fun i hi ↦ ⟨?_, fun hin ↦ ?_⟩, fun hpos ↦ ?_⟩
      · rw [hsound.reveals i hi, hfollows.round]
        exact hround
      · rw [hfollows.length] at hi
        rw [(hcontested.committed i hi).follows (hfollows.player i) hin, hfollows.round]
        omega
      · rw [hfollows.sources, hsources, hfollows.round] at *
        omega
  | betting =>
      have ⟨hround, _⟩ := h.bet hphase
      show after.round < after.betting.length
      rw [hsound.betting, hfollows.round]
      exact hround
  | «show» =>
      have ⟨hround, hsources, hcommitted⟩ := h.show hphase
      refine ⟨fun i hi hin ↦ ?_, ?_⟩
      · rw [hfollows.length] at hi
        rw [(hcommitted i hi).follows (hfollows.player i) hin, hfollows.round, hround]
        decide
      · rw [hfollows.sources, hsources]
        decide
  | commit => trivial
  | «continue» => trivial
  | settling => trivial
  | unknown => trivial

/-- What `start_hand` makes. -/
structure Hand.Created (hand : Hand) : Prop where
  phase : hand.phase = .commit
  round : hand.round = 0
  sources : hand.sources = []
  betting : hand.betting.length = 4
  player : ∀ player ∈ hand.players,
    player.bet = hand.smallBlind ∧ player.folded = false ∧ player.reveals.length = 4

theorem startHand_created (env : Env) (table : Table) (handId now : Nat) (d : Dealer) :
    OnReturn d (startHand env table handId now) fun hand _ ↦ hand.Created := by
  apply OnReturn.skip
  intro _ d
  apply OnReturn.bind
  have hplayers : OnReturn d ((List.range (table.status.getD {}).activeCount).mapM
      (startPlayer env table.address (table.config.getD {}))) fun players _ ↦
      ∀ player ∈ players, player.bet = (table.config.getD {}).smallBlind ∧ player.folded = false ∧
        player.reveals.length = 4 := by
    apply OnReturn.mapM
    intro i d
    apply OnReturn.skip
    intro _ d
    apply OnReturn.skip
    intro _ d
    exact .pure ⟨rfl, rfl, rfl⟩
  apply hplayers.mono
  intro players d hplayers
  apply OnReturn.skip
  intro _ d
  exact .pure ⟨rfl, rfl, rfl, rfl, hplayers⟩

/-- A hand that was created within its bounds. -/
theorem Hand.Created.orderly {hand : Hand} (h : hand.Created) (hbounds : hand.Admissible) :
    hand.Orderly := by
  have hmem (i : Nat) (hi : i < hand.players.length) : hand.player i ∈ hand.players := by
    rw [hand.player_of_lt hi]
    exact List.getElem_mem hi
  have hcount : activeCount hand = hand.players.length := by
    apply List.countP_eq_length.mpr
    intro player hplayer
    rw [(h.player player hplayer).2.1]
    rfl
  refine ⟨⟨⟨hbounds.two_le, hbounds.blind_pos, fun i hi ↦ ?_, fun i hi ↦ ?_, hbounds.minRake_le,
    hbounds.rakeBps_le, ?_⟩, fun i hi ↦ ?_, h.betting⟩, ?_⟩
  · exact Nat.le_of_eq (h.player _ (hmem i hi)).1.symm
  · rw [(h.player _ (hmem i hi)).1]
    exact hbounds.blind_le _ (hmem i hi)
  · have hsum := hbounds.stacks_le
    rw [hand.players_eq, List.map_map, sum_map_range] at hsum
    exact hsum
  · exact (h.player _ (hmem i hi)).2.2
  · unfold Hand.Placed
    rw [h.phase]
    exact ⟨h.round, h.sources, by rw [hcount]; exact hbounds.two_le⟩

/-- The hands that calls of `advance_hand` lead to, with the number of reveal rounds they completed.
Each call has an inbox, a node and a time of its own; it may throw and be made again. -/
inductive Plays (native : Native) (first : Hand) : Nat → Hand → Prop
  | start : Plays native first 0 first
  | returned {completed : Nat} {s t : HandState} {env : Env} {chain : ChainState} {now : Nat}
      {more : Bool} (h : Plays native first completed s.hand)
      (hr : advanceHand env native chain now s = .ok more t) :
      Plays native first
        (completed + if s.hand.phase = .reveal ∧ more = true then 1 else 0) t.hand
  | threw {completed : Nat} {s t : HandState} {env : Env} {chain : ChainState} {now : Nat}
      {e : Exit} (h : Plays native first completed s.hand)
      (hr : advanceHand env native chain now s = .error e t) : Plays native first completed t.hand

theorem Plays.orderly {native : Native} {first hand : Hand} {completed : Nat} (hfirst : first.Orderly)
    (hsources : first.sources = []) (h : Plays native first completed hand) :
    hand.Orderly ∧ hand.sources.length = completed := by
  induction h with
  | start => exact ⟨hfirst, congrArg List.length hsources⟩
  | @returned completed s t env chain now more _ hr ih =>
      have hadvanced := (advances_advanceHand env native now chain ih.1).ok hr
      refine ⟨hadvanced.orderly, ?_⟩
      rw [hadvanced.sources, ih.2]
      simp only [Except.ok.injEq]
  | @threw completed s t env chain now e _ hr ih =>
      have hadvanced := (advances_advanceHand env native now chain ih.1).error hr
      refine ⟨hadvanced.orderly, ?_⟩
      rw [hadvanced.sources, ih.2, if_neg (fun hboth ↦ nomatch hboth.2), Nat.add_zero]

/-- The state that a call of `advance_hand` ends in. -/
def advanced (now : Nat) (s : HandState) : HandState :=
  match advanceHand twoTablesEnv noNative {} now s with
  | .ok _ t => t
  | .error _ t => t

end Stainless.Poker
