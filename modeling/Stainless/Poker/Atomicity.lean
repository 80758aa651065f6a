import Stainless.Poker.RecordedTurns

/-!
# Steps that the node interrupts

A step of a hand may end in an exception.  One that comes before anything is recorded leaves the hand and
the inbox as they were.  The show and the settlement call the node in between, after messages were taken
from the inbox, and the other phases check the payouts and the number of the next epoch there.
-/

open Reasoning Stainless.Runtime Stainless.Crypto

namespace Stainless.Poker

/-! ## 1. Calls apart from the state -/

/-- The number of the next operation alone. -/
instance : Counts Nat := ⟨fun n ↦ n, fun n ↦ n + 1⟩

/-- A program that only calls the node, in a state of a hand. -/
def onOperations {α : Type} (m : EStateM Exit Nat α) : HandM α := fun s ↦
  match m s.operations with
  | .ok a n => .ok a { s with operations := n }
  | .error e n => .error e { s with operations := n }

/-- What a call comes to. -/
theorem call_eq {σ α : Type} [Counts σ] (env : Env) (answer : Nat → Except Exception α) (s : σ) :
    (call env answer : EStateM Exit σ α) s =
      if env.stops (Counts.operations s) then .error .stopped s
      else match answer (Counts.operations s) with
        | .ok a => .ok a (Counts.next s)
        | .error e => .error (.exception e) (Counts.next s) := by
  have hcall : (call env answer : EStateM Exit σ α) s =
      EStateM.bind (operation env) (fun n ↦ liftOutcome (answer n)) s := rfl
  have hoperation : (operation env : EStateM Exit σ Nat) s =
      if env.stops (Counts.operations s) then .error .stopped s
      else .ok (Counts.operations s) (Counts.next s) := by
    unfold operation
    cases hstops : env.stops (Counts.operations s) with
    | true => simp [bind, EStateM.bind, get, getThe, MonadStateOf.get, EStateM.get, hstops]; rfl
    | false => simp [bind, EStateM.bind, get, getThe, MonadStateOf.get, EStateM.get, hstops]; rfl
  rw [hcall, EStateM.bind, hoperation]
  cases env.stops (Counts.operations s) with
  | true => rfl
  | false =>
      show liftOutcome (answer (Counts.operations s)) (Counts.next s) = _
      cases answer (Counts.operations s) with
      | ok a => rfl
      | error e => rfl

namespace onOperations

variable {α β : Type}

theorem pure (a : α) : (Pure.pure a : HandM α) = onOperations (Pure.pure a) := rfl

theorem bind {m : HandM β} {m' : EStateM Exit Nat β} {k : β → HandM α} {k' : β → EStateM Exit Nat α}
    (hm : m = onOperations m') (hk : ∀ b, k b = onOperations (k' b)) :
    m >>= k = onOperations (m' >>= k') := by
  funext s
  have hbind : (m >>= k) s = EStateM.bind m k s := rfl
  have hbind' : (m' >>= k') s.operations = EStateM.bind m' k' s.operations := rfl
  rw [hbind, EStateM.bind, hm, onOperations, onOperations, hbind', EStateM.bind]
  cases m' s.operations with
  | ok b n =>
      show k b _ = _
      rw [hk b]
      rfl
  | error e n => rfl

theorem ite {c : Prop} [Decidable c] {m n : HandM α} {m' n' : EStateM Exit Nat α}
    (hm : m = onOperations m') (hn : n = onOperations n') :
    (if c then m else n) = onOperations (if c then m' else n') := by
  by_cases hc : c
  · rw [if_pos hc, if_pos hc, hm]
  · rw [if_neg hc, if_neg hc, hn]

theorem call (env : Env) (answer : Nat → Except Exception α) :
    (Poker.call env answer : HandM α) = onOperations (Poker.call env answer) := by
  funext s
  have hoperations : Counts.operations s = s.operations := rfl
  have hnumber : Counts.operations s.operations = s.operations := rfl
  rw [onOperations, call_eq, call_eq, hoperations, hnumber]
  cases env.stops s.operations with
  | true => rfl
  | false =>
      cases answer s.operations with
      | ok a => rfl
      | error e => rfl

end onOperations

/-- The program throws an exception. -/
def throws {σ α : Type} (m : EStateM Exit σ α) (s : σ) : Bool :=
  match m s with
  | .error (.exception _) _ => true
  | _ => false

/-- A step that throws leaves the hand and the inbox as they were, so that a later step finds what this
one found. -/
structure Atomic (env : Env) (native : Native) (chain : ChainState) (now : Nat) (s : HandState) : Prop where
  unchanged : After s (advanceHand env native chain now) fun r t ↦
    ∀ e, r = .error (.exception e) → t = { s with operations := t.operations }

/-- What the second loop of `advance_show` asks the node about a player, and the inbox it leaves. -/
def showCall (env : Env) (native : Native) (hand : Hand) (inbox : OrderedMap String Submission)
    (i : Nat) : EStateM Exit Nat (OrderedMap String Submission) :=
  let player := hand.player i
  if player.folded then return inbox
  else
    let muckKey := handKey hand player.address .muck 4 0
    let showKey := handKey hand player.address .show 4 0
    let left := (inbox.erase muckKey).erase showKey
    if (peekMessage inbox muckKey).kind = .muck then return left
    else do
      let _ ← validateShow env native hand player (peekMessage (inbox.erase muckKey) showKey)
      return left

/-- What it asks about the first `k` players. -/
def showCalls (env : Env) (native : Native) (hand : Hand) (inbox : OrderedMap String Submission)
    (k : Nat) : EStateM Exit Nat (OrderedMap String Submission) :=
  (List.range k).foldlM (showCall env native hand) inbox

/-- The answers of the players about the next hand. -/
def continueTurns (s : HandState) (k : Nat) : HandState := (List.range k).foldl continuePlayer s

/-- No message of a player waits for the end of the hand, and all players are taken to leave. -/
def Unanswered (s : HandState) : Prop :=
  ∀ i < s.hand.players.length, (s.hand.player i).continuing = some false ∧
    handKey s.hand (s.hand.player i).address .leave 0 0 ∉ s.inbox ∧
    handKey s.hand (s.hand.player i).address .continue 0 0 ∉ s.inbox

def commitWaits (now : Nat) (s : HandState) : Bool :=
  waits (s.hand.players.all fun player ↦
    validCommit (peekMessage s.inbox (handKey s.hand player.address .commit 0 0))) now s.hand

def revealWaits (native : Native) (now : Nat) (s : HandState) : Bool :=
  waits (s.hand.players.all fun player ↦
    player.folded || validReveal native s.hand player s.hand.round
      (peekMessage s.inbox (handKey s.hand player.address .reveal s.hand.round 0))) now s.hand

def bettingWaits (now : Nat) (s : HandState) : Bool :=
  waits (s.hand.players.all fun player ↦
    player.folded || player.bet ≥ player.stack || validAction s.hand player (currentBet s.hand)
      (peekMessage s.inbox (handKey s.hand player.address .action s.hand.round s.hand.epoch)))
    now s.hand

def continueWaits (now : Nat) (s : HandState) : Bool :=
  waits (s.hand.players.all fun player ↦
    hasMessage s.inbox (handKey s.hand player.address .leave 0 0) ||
      validContinuation s.hand player
        (peekMessage s.inbox (handKey s.hand player.address .continue 0 0))) now s.hand

/-- The seeds of a round. -/
def revealTurns (native : Native) (s : HandState) : HandState × String :=
  (List.range s.hand.players.length).foldl (revealPlayer native s.hand.round) (s, "")

/-- The seeds are taken and their source is recorded. -/
def revealed (native : Native) (s : HandState) : HandState :=
  { (revealTurns native s).1 with
    hand := appendSource native s.hand.round (revealTurns native s).2 (revealTurns native s).1.hand }

/-- The bets are taken and the epoch is recorded. -/
def betted (native : Native) (s : HandState) : HandState :=
  { (betTurns native s).1 with
    hand := appendEntries s.hand.round (betTurns native s).2 (betTurns native s).1.hand }

/-- If at most one player is left, the payouts of the hand are accepted. -/
def PaysOut (s : HandState) : Prop := activeCount s.hand ≤ 1 → throws allocatePayouts s = false

/-- Nothing that the step does after it recorded the turns throws. -/
def Undisturbed (env : Env) (native : Native) (now : Nat) (s : HandState) : Prop :=
  match s.hand.phase with
  | .commit => commitWaits now s = true ∨ PaysOut (commitTurns native s s.hand.players.length)
  | .reveal => revealWaits native now s = true ∨
      revealsFit s.hand.round (revealTurns native s).1.hand = false ∨ PaysOut (revealed native s)
  | .betting => bettingWaits now s = true ∨ s.hand.betting.length ≤ s.hand.round ∨
      PaysOut (betted native s) ∧ (1 < activeCount (betted native s).hand → s.hand.epoch < maxU64)
  | .«show» => s.hand.board = none ∨
      OnReturn s (s.hand.players.foldlM (showSubmitted env native) true) fun ready t ↦
        waits ready now s.hand = true ∨
          throws (showCalls env native s.hand s.inbox s.hand.players.length) t.operations = false ∧
            OnReturn t ((List.range s.hand.players.length).forM (showPlayer env native)) fun _ u ↦
              throws allocatePayouts u = false ∨
                -- nobody is in, and neither checkpoint nor payouts change
                activeCount s.hand = 0 ∧
                  After u allocatePayouts fun _ v ↦ v.hand = s.hand ∧ v.inbox = s.inbox
  | .«continue» => continueWaits now s = true ∨ Unanswered s ∨ env.stops s.operations = true ∨
      ∃ transaction, env.node.settle s.operations
        (settlementOf (continueTurns s s.hand.players.length).hand) = .ok transaction
  | _ => True

/-! ## 3. The answers about the next hand -/

section Show

variable (env : Env) (native : Native)

end Show

/-! ## 5. Steps that leave no trace -/

/-- A step that throws and changes something is not atomic. -/
theorem not_atomic {env : Env} {native : Native} {chain : ChainState} {now : Nat} {s : HandState}
    (h : After s (advanceHand env native chain now) fun r t ↦
      ∃ e, r = .error (.exception e) ∧ ¬(t.hand = s.hand ∧ t.inbox = s.inbox)) :
    ¬Atomic env native chain now s := by
  intro hatomic
  have ⟨r, t, ⟨e, hr, hchanged⟩, hsame⟩ := (h.and hatomic.unchanged).someResult
  have ht := hsame e hr
  apply hchanged
  rw [ht]
  exact ⟨rfl, rfl⟩

section Phases

variable (env : Env) (native : Native) (chain : ChainState) (now : Nat) {s : HandState}

section Ends

variable {t : HandState}

end Ends

/-! ### The phases -/

end Phases

/-! ## 6. Hands that can pay -/

/-- What a step asks after it recorded something is answered, and the next epoch has a number. -/
def Answered (env : Env) (native : Native) (now : Nat) (s : HandState) : Prop :=
  match s.hand.phase with
  | .betting => bettingWaits now s = true ∨ activeCount (betted native s).hand ≤ 1 ∨
      s.hand.epoch < maxU64
  | .«show» => s.hand.board = none ∨
      OnReturn s (s.hand.players.foldlM (showSubmitted env native) true) fun ready t ↦
        waits ready now s.hand = true ∨
          throws (showCalls env native s.hand s.inbox s.hand.players.length) t.operations = false
  | .«continue» => continueWaits now s = true ∨ Unanswered s ∨ env.stops s.operations = true ∨
      ∃ transaction, env.node.settle s.operations
        (settlementOf (continueTurns s s.hand.players.length).hand) = .ok transaction
  | _ => True

section Orderly

variable (env : Env) (native : Native) (now : Nat) {s : HandState}

theorem accounts_of_solvent {t : HandState} (h : t.hand.Solvent) (hknown : t.hand.RanksKnown) :
    throws allocatePayouts t = false := by
  have ⟨_, _, hr, _⟩ := (allocatePayouts_succeeds h hknown).ok
  unfold throws
  rw [hr]

theorem paysOut_of_solvent {t : HandState} (h : t.hand.Solvent) : PaysOut t :=
  fun hone ↦ accounts_of_solvent h (.of_le hone)

/-- The payouts after a show of an orderly hand. -/
theorem accounts_of_shown (h : s.hand.Orderly) {t : HandState} (hhand : t.hand = s.hand) :
    OnReturn t ((List.range s.hand.players.length).forM (showPlayer env native)) fun _ u ↦
      throws allocatePayouts u = false := by
  apply (turns_showPlayer env native t s.hand.players.length (by rw [hhand])).returned
  intro _ u hu
  have ⟨hfollows, hshown⟩ := hu
  rw [hhand] at hfollows
  apply accounts_of_solvent (h.toSound.follows hfollows).solvent
  intro _ i hi
  exact hshown i (by rwa [hfollows.length] at hi)

/-- A hand that started within the bounds of its table can pay: only the calls of the node and the number of
the next epoch can come in between. -/
theorem undisturbed_iff_answered (h : s.hand.Orderly) :
    Undisturbed env native now s ↔ Answered env native now s := by
  unfold Undisturbed Answered
  cases hphase : s.hand.phase with
  | commit =>
      have hfollows := (turns_follow id (turn_commitPlayer native) s s.hand.players.length
        (Nat.le_refl _)).1
      exact ⟨fun _ ↦ trivial, fun _ ↦ .inr (paysOut_of_solvent (h.toSound.follows hfollows).solvent)⟩
  | reveal =>
      have hfollows := (turns_follow Prod.fst (turn_revealPlayer native s.hand.round) (s, "")
        s.hand.players.length (Nat.le_refl _)).1
      have hsound : (revealed native s).hand.Sound :=
        (h.toSound.follows hfollows).of_eq rfl rfl rfl rfl rfl
      exact ⟨fun _ ↦ trivial, fun _ ↦ .inr (.inr (paysOut_of_solvent hsound.solvent))⟩
  | betting =>
      have hplace : ¬s.hand.betting.length ≤ s.hand.round := by
        rw [h.betting]
        exact Nat.not_le.mpr (h.bet hphase).1
      have hsolvent : (betted native s).hand.Solvent := (betTurns_turned native h hphase).solvent
      show _ ∨ s.hand.betting.length ≤ s.hand.round ∨ PaysOut (betted native s) ∧ _ ↔ _
      rw [or_iff_right hplace, and_iff_right (paysOut_of_solvent hsolvent)]
      apply or_congr_right
      constructor
      · intro hless
        by_cases hone : activeCount (betted native s).hand ≤ 1
        · exact .inl hone
        · exact .inr (hless (Nat.not_le.mp hone))
      · intro hanswered hmany
        exact hanswered.resolve_left (Nat.not_le.mpr hmany)
  | «show» =>
      apply or_congr_right
      have hasks := Asks.foldlM (fun ready player ↦ asks_showSubmitted env native ready player)
        s.hand.players true s
      unfold OnReturn
      cases hready : s.hand.players.foldlM (showSubmitted env native) true s with
      | error e t => exact Iff.rfl
      | ok ready t =>
          have hhand : t.hand = s.hand := by rw [(hasks.ok hready).1.operations]
          have hpaid : OnReturn t ((List.range s.hand.players.length).forM (showPlayer env native))
              fun _ u ↦ throws allocatePayouts u = false ∨ activeCount s.hand = 0 ∧
                After u allocatePayouts fun _ v ↦ v.hand = s.hand ∧ v.inbox = s.inbox :=
            (accounts_of_shown env native h hhand).mono fun _ _ h ↦ Or.inl h
          exact or_congr_right (and_iff_left hpaid)
  | «continue» => exact Iff.rfl
  | settling => exact Iff.rfl
  | unknown => exact Iff.rfl

end Orderly

/-! ## 7. Two players who want to go on -/

end Stainless.Poker
