import Mathlib.Algebra.Order.BigOperators.Group.List
import Mathlib.Algebra.Order.Ring.Nat
import Stainless.Poker.HandFrames
import Stainless.Reasoning.Runs

/-!
# Rounds of betting

In an epoch every player who can act answers the same target; the messages of all of them are taken
together.  A round of betting is a run of epochs.
-/

open Reasoning Stainless.Runtime Stainless.Crypto

namespace Stainless.Poker

/-! ## 1. One epoch -/

/-- A player who is asked for an action. -/
def Player.mayAct (player : Player) : Bool := !player.folded && player.bet < player.stack

theorem Player.folded_of_mayAct {player : Player} (h : player.mayAct) : player.folded = false := by
  unfold Player.mayAct at h
  simpa using (Bool.and_eq_true_iff.mp h).1

theorem Player.not_mayAct_of_folded {player : Player} (h : player.folded) : player.mayAct = false := by
  simp [Player.mayAct, h]

theorem Player.not_mayAct_of_allIn {player : Player} (h : player.stack ≤ player.bet) :
    player.mayAct = false := by
  simp [Player.mayAct, h]

theorem Player.mayAct_of {player : Player} (hin : ¬player.folded) (hless : ¬player.stack ≤ player.bet) :
    player.mayAct = true := by
  simp [Player.mayAct, hin, Nat.not_le.mp hless]

/-- The part of a player that betting is about. -/
def Player.stakes (player : Player) : Nat × Nat × Bool := (player.stack, player.bet, player.folded)

def actionKey (hand : Hand) (i : Nat) : String :=
  handKey hand (hand.players.getD i {}).address .action hand.round hand.epoch

/-- A player before this one took the message under the key of this one. -/
def taken (hand : Hand) (i : Nat) (key : String) : Bool :=
  (List.range i).any fun j ↦ (hand.players.getD j {}).mayAct && actionKey hand j = key

/-- The message that the loop finds for a player. -/
def heard (hand : Hand) (inbox : OrderedMap String Submission) (i : Nat) : Submission :=
  if taken hand i (actionKey hand i) then {} else peekMessage inbox (actionKey hand i)

/-- The action of a player is valid. -/
def actsAt (hand : Hand) (inbox : OrderedMap String Submission) (i : Nat) : Bool :=
  (hand.players.getD i {}).mayAct &&
    validAction hand (hand.players.getD i {}) (currentBet hand) (heard hand inbox i)

/-- The player raises the bet. -/
def raisesAt (hand : Hand) (inbox : OrderedMap String Submission) (i : Nat) : Bool :=
  actsAt hand inbox i && (heard hand inbox i).action = .betRaise

/-- The player stays in the hand: with all of the stack bet, by a valid action other than a fold, or
without a valid action but at the target. -/
def remainsAt (hand : Hand) (inbox : OrderedMap String Submission) (i : Nat) : Bool :=
  let player := hand.players.getD i {}
  !player.folded && (!player.mayAct ||
    if actsAt hand inbox i then (heard hand inbox i).action ≠ .fold
    else player.bet = currentBet hand)

/-- The player after the epoch. -/
def turned (hand : Hand) (inbox : OrderedMap String Submission) (i : Nat) : Player :=
  let player := hand.players.getD i {}
  if actsAt hand inbox i then (act player (heard hand inbox i)).1
  else if player.mayAct ∧ player.bet ≠ currentBet hand then { player with folded := true }
  else player

section Turned

variable (hand : Hand) (inbox : OrderedMap String Submission) (i : Nat)

theorem turned_of_acts (h : actsAt hand inbox i) :
    turned hand inbox i = (act (hand.players.getD i {}) (heard hand inbox i)).1 :=
  if_pos h

theorem turned_of_late (h : ¬actsAt hand inbox i) (hmay : (hand.players.getD i {}).mayAct)
    (hbehind : (hand.players.getD i {}).bet ≠ currentBet hand) :
    turned hand inbox i = { hand.players.getD i {} with folded := true } := by
  unfold turned
  rw [if_neg h, if_pos ⟨hmay, hbehind⟩]

theorem turned_of_level (h : ¬actsAt hand inbox i)
    (hlevel : (hand.players.getD i {}).mayAct → (hand.players.getD i {}).bet = currentBet hand) :
    turned hand inbox i = hand.players.getD i {} := by
  unfold turned
  rw [if_neg h, if_neg fun hboth ↦ hboth.2 (hlevel hboth.1)]

theorem turned_stack : (turned hand inbox i).stack = (hand.players.getD i {}).stack := by
  unfold turned act
  dsimp only
  split
  · cases (heard hand inbox i).action <;> rfl
  · split <;> rfl

theorem turned_folded : (turned hand inbox i).folded = !remainsAt hand inbox i := by
  unfold turned remainsAt act
  dsimp only
  by_cases hacts : actsAt hand inbox i
  · have hmay : (hand.players.getD i {}).mayAct := by
      unfold actsAt at hacts
      exact (Bool.and_eq_true_iff.mp hacts).1
    have hin := Player.folded_of_mayAct hmay
    rw [if_pos hacts, if_pos hacts, hmay, hin]
    cases (heard hand inbox i).action with
    | checkCall => exact hin
    | betRaise => rfl
    | fold => rfl
    | unknown => exact hin
  · rw [if_neg hacts, if_neg hacts]
    generalize hand.players.getD i {} = player
    cases hmay : player.mayAct with
    | false => simp
    | true =>
        have hin := Player.folded_of_mayAct hmay
        by_cases htarget : player.bet = currentBet hand
        · simp [hin, htarget]
        · simp [htarget]

/-- A raise is above the player's bet and within the stack. -/
theorem raise_bounds (h : raisesAt hand inbox i) :
    (hand.players.getD i {}).bet < (heard hand inbox i).cumulativeBet ∧
      (heard hand inbox i).cumulativeBet ≤ (hand.players.getD i {}).stack := by
  unfold raisesAt actsAt validAction at h
  simp only [Bool.and_eq_true, decide_eq_true_eq] at h
  have ⟨⟨_, _, hvalid⟩, hraise⟩ := h
  simp only [hraise, Bool.and_eq_true, decide_eq_true_eq] at hvalid
  exact ⟨hvalid.1.1.1, hvalid.1.1.2⟩

theorem turned_bet : (turned hand inbox i).bet =
    if raisesAt hand inbox i then (heard hand inbox i).cumulativeBet
    else (hand.players.getD i {}).bet := by
  unfold turned raisesAt act
  dsimp only
  by_cases hacts : actsAt hand inbox i
  · rw [if_pos hacts, hacts]
    cases (heard hand inbox i).action <;> rfl
  · rw [if_neg hacts, if_neg (fun h ↦ hacts (Bool.and_eq_true_iff.mp h).1)]
    split <;> rfl

theorem bet_lt_turned_iff :
    (hand.players.getD i {}).bet < (turned hand inbox i).bet ↔ raisesAt hand inbox i := by
  rw [turned_bet]
  constructor
  · intro h
    by_contra hraise
    rw [if_neg hraise] at h
    omega
  · intro h
    rw [if_pos h]
    exact (raise_bounds hand inbox i h).1

theorem bet_le_turned : (hand.players.getD i {}).bet ≤ (turned hand inbox i).bet := by
  rw [turned_bet]
  by_cases hraise : raisesAt hand inbox i
  · rw [if_pos hraise]
    exact Nat.le_of_lt (raise_bounds hand inbox i hraise).1
  · rw [if_neg hraise]

theorem turned_bet_le (h : (hand.players.getD i {}).bet ≤ (hand.players.getD i {}).stack) :
    (turned hand inbox i).bet ≤ (turned hand inbox i).stack := by
  rw [turned_bet, turned_stack]
  by_cases hraise : raisesAt hand inbox i
  · rw [if_pos hraise]
    exact (raise_bounds hand inbox i hraise).2
  · rwa [if_neg hraise]

end Turned

/-! ## 2. The loop over the players -/

/-- The state after the turns of the first `k` players. -/
structure Turns (s : HandState) (k : Nat) (t : HandState) : Prop where
  hand : t.hand = { s.hand with
    players := t.hand.players
    checkpoint := t.hand.checkpoint
    timeouts := t.hand.timeouts }
  length : t.hand.players.length = s.hand.players.length
  done : ∀ i < k, t.hand.players.getD i {} = turned s.hand s.inbox i
  waiting : ∀ i, k ≤ i → t.hand.players.getD i {} = s.hand.players.getD i {}
  inbox : ∀ key, t.inbox[key]? = if taken s.hand k key then none else s.inbox[key]?

theorem turns_zero (s : HandState) : Turns s 0 s where
  hand := rfl
  length := rfl
  done _ h := absurd h (Nat.not_lt_zero _)
  waiting _ _ := rfl
  inbox _ := rfl

theorem taken_succ (hand : Hand) (k : Nat) (key : String) : taken hand (k + 1) key =
    (taken hand k key || ((hand.players.getD k {}).mayAct && actionKey hand k = key)) := by
  unfold taken
  rw [List.range_succ, List.any_append, List.any_cons, List.any_nil, Bool.or_false]

/-- A turn puts a player back, and writes the checkpoint and the timeouts. -/
def TookTurn (t u : HandState) (k : Nat) (player : Player) (inbox : OrderedMap String Submission) :
    Prop :=
  u = { t with
    hand := { t.hand with
      players := t.hand.players.set k player
      checkpoint := u.hand.checkpoint
      timeouts := u.hand.timeouts }
    inbox }

/-- The player is put back as before. -/
theorem TookTurn.same {t u : HandState} {k : Nat} {player : Player}
    {inbox : OrderedMap String Submission} (hplayer : t.hand.players.set k player = t.hand.players)
    (h : u = { t with
      hand := { t.hand with checkpoint := u.hand.checkpoint, timeouts := u.hand.timeouts }, inbox }) :
    TookTurn t u k player inbox := by
  unfold TookTurn
  rw [hplayer]
  exact h

theorem set_getD_self {players : List Player} {k : Nat} {player : Player}
    (h : players.getD k {} = player) : players.set k player = players := by
  apply List.ext_getElem?
  intro j
  rw [List.getElem?_set]
  by_cases hkj : k = j
  · subst hkj
    rw [if_pos rfl]
    by_cases hk : k < players.length
    · rw [if_pos hk, List.getElem?_eq_getElem hk, ← h, List.getD_eq_getElem?_getD,
        List.getElem?_eq_getElem hk]
      rfl
    · rw [if_neg hk, List.getElem?_eq_none (by omega)]
  · rw [if_neg hkj]

variable {native : Native}

theorem betPlayer_turn {s t : HandState} {k : Nat} (h : Turns s k t) (entries : List BettingEntry) :
    TookTurn t (betPlayer native s.hand.round s.hand.epoch (currentBet s.hand) (t, entries) k).1 k
      (turned s.hand s.inbox k)
      (if (s.hand.players.getD k {}).mayAct then t.inbox.erase (actionKey s.hand k)
        else t.inbox) := by
  have hplayer := h.waiting k (Nat.le_refl k)
  have hkey : handKey t.hand (t.hand.players.getD k {}).address .action s.hand.round s.hand.epoch =
      actionKey s.hand k := by
    rw [hplayer, h.hand]
    rfl
  have hmessage : t.message (actionKey s.hand k) = heard s.hand s.inbox k := by
    show (t.inbox[actionKey s.hand k]?).getD {} = _
    rw [h.inbox, heard]
    by_cases htaken : taken s.hand k (actionKey s.hand k)
    · rw [if_pos htaken, if_pos htaken]
      rfl
    · rw [if_neg htaken, if_neg htaken]
      rfl
  have hvalid (player : Player) (submission : Submission) :
      validAction t.hand player (currentBet s.hand) submission =
        validAction s.hand player (currentBet s.hand) submission := by
    rw [h.hand]
    rfl
  -- A player who is not asked, or one who stays at the target, is put back as before.
  have hsame (hturned : turned s.hand s.inbox k = s.hand.players.getD k {}) :
      t.hand.players.set k (turned s.hand s.inbox k) = t.hand.players := by
    rw [hturned]
    exact set_getD_self hplayer
  have hasked (hmay : (s.hand.players.getD k {}).mayAct = false) :
      turned s.hand s.inbox k = s.hand.players.getD k {} := by
    apply turned_of_level
    · rw [actsAt, hmay, Bool.false_and]
      exact Bool.false_ne_true
    · intro h
      rw [hmay] at h
      cases h
  unfold betPlayer
  dsimp only
  rw [hkey, hplayer]
  by_cases hfolded : (s.hand.players.getD k {}).folded
  case pos =>
    have hmay := Player.not_mayAct_of_folded hfolded
    rw [if_pos hfolded, hmay]
    exact .same (hsame (hasked hmay)) rfl
  case neg =>
    rw [if_neg hfolded]
    by_cases hallIn : (s.hand.players.getD k {}).bet ≥ (s.hand.players.getD k {}).stack
    case pos =>
      have hmay := Player.not_mayAct_of_allIn hallIn
      rw [if_pos hallIn, hmay]
      exact .same (hsame (hasked hmay)) rfl
    case neg =>
      have hmay := Player.mayAct_of hfolded hallIn
      have hacts : actsAt s.hand s.inbox k = validAction s.hand (s.hand.players.getD k {})
          (currentBet s.hand) (heard s.hand s.inbox k) := by
        rw [actsAt, hmay, Bool.true_and]
      rw [if_neg hallIn, hmay, if_pos rfl, hmessage]
      rw [show (t.take (actionKey s.hand k)).hand = t.hand from rfl, hvalid, ← hacts]
      by_cases hvalidAction : actsAt s.hand s.inbox k
      case pos =>
        rw [if_pos hvalidAction, turned_of_acts _ _ _ hvalidAction]
        exact rfl
      case neg =>
        rw [if_neg hvalidAction]
        by_cases hlevel : (s.hand.players.getD k {}).bet = currentBet s.hand
        case pos =>
          rw [if_neg (not_not_intro hlevel)]
          exact .same (hsame (turned_of_level _ _ _ hvalidAction fun _ ↦ hlevel)) rfl
        case neg =>
          rw [if_pos hlevel, turned_of_late _ _ _ hvalidAction hmay hlevel]
          exact rfl

theorem turns_succ {s t u : HandState} {k : Nat} (h : Turns s k t) (hk : k < s.hand.players.length)
    (hu : TookTurn t u k (turned s.hand s.inbox k)
      (if (s.hand.players.getD k {}).mayAct then t.inbox.erase (actionKey s.hand k) else t.inbox)) :
    Turns s (k + 1) u := by
  have hplayers : u.hand.players = t.hand.players.set k (turned s.hand s.inbox k) := by rw [hu]
  have hinbox : u.inbox = if (s.hand.players.getD k {}).mayAct then
      t.inbox.erase (actionKey s.hand k) else t.inbox := by rw [hu]
  constructor
  case hand =>
    rw [hu, h.hand]
  case length => rw [hplayers, List.length_set, h.length]
  case done =>
    intro i hi
    rw [hplayers, List.getD_eq_getElem?_getD, List.getElem?_set]
    by_cases hik : k = i
    · rw [if_pos hik, if_pos (by rw [h.length]; omega), hik]
      rfl
    · rw [if_neg hik, ← List.getD_eq_getElem?_getD]
      exact h.done i (by omega)
  case waiting =>
    intro i hi
    rw [hplayers, List.getD_eq_getElem?_getD, List.getElem?_set, if_neg (by omega),
      ← List.getD_eq_getElem?_getD]
    exact h.waiting i (by omega)
  case inbox =>
    intro key
    rw [hinbox, taken_succ]
    cases hmay : (s.hand.players.getD k {}).mayAct with
    | false =>
        rw [if_neg (by decide), Bool.false_and, Bool.or_false]
        exact h.inbox key
    | true =>
        rw [if_pos rfl, OrderedMap.getElem?_erase, h.inbox key, Bool.true_and]
        by_cases hkey : actionKey s.hand k = key
        · simp [hkey]
        · simp [hkey]

theorem turns_foldl (s : HandState) {k : Nat} (hk : k ≤ s.hand.players.length) :
    Turns s k ((List.range k).foldl
      (betPlayer native s.hand.round s.hand.epoch (currentBet s.hand)) (s, [])).1 := by
  induction k with
  | zero => exact turns_zero s
  | succ k ih =>
      have hturns := ih (by omega)
      rw [List.range_succ, List.foldl_append, List.foldl_cons, List.foldl_nil]
      exact turns_succ hturns (by omega) (betPlayer_turn hturns _)

/-- The hand after an epoch, apart from its checkpoint, its timeouts and the transcript. -/
theorem players_after {s t : HandState} (h : Turns s s.hand.players.length t) :
    t.hand.players = (List.range s.hand.players.length).map (turned s.hand s.inbox) := by
  apply List.ext_getElem
  · rw [h.length, List.length_map, List.length_range]
  · intro i hi hi'
    rw [List.getElem_map, List.getElem_range, ← h.done i (by rw [← h.length]; exact hi), List.getD_eq_getElem?_getD,
      List.getElem?_eq_getElem hi]
    rfl

/-! ## 3. Targets and counts -/

theorem foldl_target_ge (players : List Player) (target : Nat) : target ≤ players.foldl
    (fun target player ↦ if !player.folded && player.bet > target then player.bet else target)
    target := by
  induction players generalizing target with
  | nil => exact Nat.le_refl _
  | cons player players ih =>
      rw [List.foldl_cons]
      apply Nat.le_trans _ (ih _)
      split
      · rename_i h
        simp at h
        omega
      · exact Nat.le_refl _

/-- A target above the one to start with is the bet of a player in the hand. -/
theorem foldl_target_attained {players : List Player} {target : Nat}
    (h : target < players.foldl
      (fun target player ↦ if !player.folded && player.bet > target then player.bet else target)
      target) :
    ∃ player ∈ players, player.folded = false ∧ player.bet = players.foldl
      (fun target player ↦ if !player.folded && player.bet > target then player.bet else target)
      target := by
  induction players generalizing target with
  | nil => exact absurd h (Nat.lt_irrefl _)
  | cons player players ih =>
      rw [List.foldl_cons] at h ⊢
      by_cases hcond : (!player.folded && player.bet > target) = true
      case neg =>
        rw [if_neg hcond] at h ⊢
        have ⟨other, hmem, hother⟩ := ih h
        exact ⟨other, List.mem_cons_of_mem _ hmem, hother⟩
      case pos =>
        rw [if_pos hcond] at h ⊢
        simp only [Bool.and_eq_true, Bool.not_eq_true', decide_eq_true_eq] at hcond
        by_cases hlast : player.bet < players.foldl
          (fun target player ↦ if !player.folded && player.bet > target then player.bet else target)
          player.bet
        · have ⟨other, hmem, hother⟩ := ih hlast
          exact ⟨other, List.mem_cons_of_mem _ hmem, hother⟩
        · have hge := foldl_target_ge players player.bet
          exact ⟨player, List.mem_cons_self, hcond.1, by omega⟩

theorem eq_of_countP_le_one {α : Type} {p : α → Bool} {l : List α} {a b : α}
    (hcount : l.countP p ≤ 1) (ha : a ∈ l) (hpa : p a) (hb : b ∈ l) (hpb : p b) : a = b := by
  rw [List.countP_eq_length_filter] at hcount
  have ha' : a ∈ l.filter p := List.mem_filter.mpr ⟨ha, hpa⟩
  have hb' : b ∈ l.filter p := List.mem_filter.mpr ⟨hb, hpb⟩
  cases hfilter : l.filter p with
  | nil =>
      rw [hfilter] at ha'
      cases ha'
  | cons c rest =>
      rw [hfilter] at ha' hb' hcount
      have hrest : rest = [] := by simpa using hcount
      rw [hrest, List.mem_singleton] at ha' hb'
      rw [ha', hb']

/-- The loop after the count can only take back that betting is done. -/
theorem foldl_done {players : List Player} {behind : Player → Bool} {done : Bool} :
    players.foldl (fun done player ↦ if behind player then false else done) done =
      (done && !players.any behind) := by
  induction players generalizing done with
  | nil => simp
  | cons player players ih =>
      rw [List.foldl_cons, ih, List.any_cons]
      cases behind player with
      | false => simp
      | true => simp

/-- The one player who is left is not behind, so the loop has no effect. -/
theorem bettingDone_eq (hand : Hand) : bettingDone hand = decide (activeCount hand ≤ 1) := by
  unfold bettingDone
  dsimp only
  rw [foldl_done]
  by_cases hone : activeCount hand ≤ 1
  case neg => simp [hone]
  case pos =>
    rw [decide_eq_true hone, Bool.true_and, Bool.not_eq_true', List.any_eq_false]
    intro player hmem hbehind
    simp only [Bool.and_eq_true, Bool.not_eq_true', decide_eq_true_eq] at hbehind
    have ⟨⟨hin, _⟩, hless⟩ := hbehind
    have hpositive : 0 < currentBet hand := by omega
    have ⟨leader, hleader, hleads, hbet⟩ := foldl_target_attained hpositive
    have hsame := eq_of_countP_le_one hone hmem (by simp [hin]) hleader (by simp [hleads])
    rw [hsame, hbet] at hless
    exact Nat.lt_irrefl _ hless

/-! ## 4. A call -/

/-- Bets grow, nobody comes back, and the stacks stay. -/
structure Player.Kept (p q : Player) : Prop where
  stack : q.stack = p.stack
  bet : p.bet ≤ q.bet
  folded : p.folded → q.folded

/-- Nobody has bet more than the stack. -/
def Hand.BetsCovered (hand : Hand) : Prop := ∀ player ∈ hand.players, player.bet ≤ player.stack

instance (hand : Hand) : Decidable hand.BetsCovered :=
  inferInstanceAs (Decidable (∀ player ∈ hand.players, player.bet ≤ player.stack))

def remaining (hand : Hand) (inbox : OrderedMap String Submission) : Nat :=
  (List.range hand.players.length).countP (remainsAt hand inbox)

def totalBets (hand : Hand) : Nat := (hand.players.map Player.bet).sum

/-- Two hands with the same stakes. -/
structure SameStakes (s t : HandState) : Prop where
  length : t.hand.players.length = s.hand.players.length
  stakes : ∀ i, (t.hand.players.getD i {}).stakes = (s.hand.players.getD i {}).stakes
  round : t.hand.round = s.hand.round
  phase : t.hand.phase = s.hand.phase

theorem SameStakes.payoutFrame : HandState.PayoutFrame SameStakes where
  refl _ := ⟨rfl, fun _ ↦ rfl, rfl, rfl⟩
  trans _ _ _ h h' := ⟨h'.length.trans h.length, fun i ↦ (h'.stakes i).trans (h.stakes i),
    h'.round.trans h.round, h'.phase.trans h.phase⟩
  next _ := ⟨rfl, fun _ ↦ rfl, rfl, rfl⟩
  rake _ _ := ⟨rfl, fun _ ↦ rfl, rfl, rfl⟩
  payout s index payout := by
    refine ⟨List.length_modify .., fun i ↦ ?_, rfl, rfl⟩
    show ((s.hand.players.modify index _).getD i {}).stakes = _
    rw [List.getD_eq_getElem?_getD, List.getElem?_modify, List.getD_eq_getElem?_getD]
    cases s.hand.players[i]? with
    | none => rfl
    | some player =>
        show (if index = i then { player with payout := some payout } else player).stakes =
          player.stakes
        by_cases hi : index = i
        · rw [if_pos hi]
          rfl
        · rw [if_neg hi]

/-- All who may act have answered, or the time is over. -/
def epochCloses (s : HandState) (now : Nat) : Bool :=
  !waits (s.hand.players.all fun player ↦
    player.folded || player.bet ≥ player.stack || validAction s.hand player (currentBet s.hand)
      (peekMessage s.inbox (handKey s.hand player.address .action s.hand.round s.hand.epoch)))
    now s.hand

/-- What a call does that closes the epoch. -/
structure EpochClosed (s : HandState) (r : Except Exit Bool) (t : HandState) : Prop where
  length : t.hand.players.length = s.hand.players.length
  stakes : ∀ i, (t.hand.players.getD i {}).stakes = (turned s.hand s.inbox i).stakes
  returned : ∀ b, r = .ok b → b = true
  round : t.hand.phase ≠ .continue → t.hand.round = s.hand.round
  /-- With one player left, the hand leaves the phase. -/
  leaves : remaining s.hand s.inbox ≤ 1 → r = .ok true → t.hand.phase = .continue
  /-- Otherwise the next epoch follows, if it has a number and its round a record. -/
  stays : 1 < remaining s.hand s.inbox → t.hand.phase = s.hand.phase ∧
    (r = .ok true ↔ s.hand.epoch < maxU64 ∧ s.hand.round < s.hand.betting.length)

theorem advanceBetting_waits {s : HandState} {now : Nat} (h : epochCloses s now = false) :
    advanceBetting native now s = .ok false s := by
  have hwaits : waits (s.hand.players.all fun player ↦
      player.folded || player.bet ≥ player.stack || validAction s.hand player (currentBet s.hand)
        (peekMessage s.inbox (handKey s.hand player.address .action s.hand.round s.hand.epoch)))
      now s.hand = true := by simpa [epochCloses] using h
  show (if waits _ _ _ then _ else _ : HandM Bool) s = _
  rw [if_pos hwaits]
  rfl

theorem turned_of_not_mayAct {hand : Hand} {inbox : OrderedMap String Submission} {i : Nat}
    (h : (hand.players.getD i {}).mayAct = false) : turned hand inbox i = hand.players.getD i {} := by
  apply turned_of_level
  · rw [actsAt, h, Bool.false_and]
    exact Bool.false_ne_true
  · intro hmay
    rw [h] at hmay
    cases hmay

/-- The state when the turns are taken and the transcript is extended. -/
def HandState.turnsTaken (native : Native) (s : HandState) : HandState :=
  let bets := (List.range s.hand.players.length).foldl
    (betPlayer native s.hand.round s.hand.epoch (currentBet s.hand)) (s, [])
  { bets.1 with hand := appendEntries s.hand.round bets.2 bets.1.hand }

section TurnsTaken

variable (native : Native) (s : HandState)

theorem turnsTaken_turns : Turns s s.hand.players.length ((List.range s.hand.players.length).foldl
    (betPlayer native s.hand.round s.hand.epoch (currentBet s.hand)) (s, [])).1 :=
  turns_foldl s (Nat.le_refl _)

theorem turnsTaken_players : (s.turnsTaken native).hand.players =
    (List.range s.hand.players.length).map (turned s.hand s.inbox) := by
  have h := players_after (turnsTaken_turns native s)
  exact h

theorem turnsTaken_getD (i : Nat) :
    (s.turnsTaken native).hand.players.getD i {} = turned s.hand s.inbox i := by
  rw [turnsTaken_players, List.getD_eq_getElem?_getD, List.getElem?_map]
  by_cases hi : i < s.hand.players.length
  · rw [List.getElem?_range hi]
    rfl
  · have hnone : s.hand.players.getD i {} = {} := by
      rw [List.getD_eq_getElem?_getD, List.getElem?_eq_none (by omega)]
      rfl
    rw [List.getElem?_eq_none (by simpa using Nat.not_lt.mp hi)]
    rw [turned_of_not_mayAct (by rw [hnone]; rfl), hnone]
    rfl

theorem turnsTaken_hand : (s.turnsTaken native).hand.round = s.hand.round ∧
    (s.turnsTaken native).hand.phase = s.hand.phase ∧
    (s.turnsTaken native).hand.epoch = s.hand.epoch := by
  have h := (turnsTaken_turns native s).hand
  unfold HandState.turnsTaken appendEntries
  dsimp only
  rw [h]
  exact ⟨rfl, rfl, rfl⟩

end TurnsTaken

/-- The players still in the hand after an epoch. -/
theorem activeCount_eq {hand after : Hand} {inbox : OrderedMap String Submission}
    (hlength : after.players.length = hand.players.length)
    (hstakes : ∀ i, (after.players.getD i {}).stakes = (turned hand inbox i).stakes) :
    activeCount after = remaining hand inbox := by
  have hplayers : after.players =
      (List.range hand.players.length).map fun i ↦ after.players.getD i {} := by
    apply List.ext_getElem
    · rw [hlength, List.length_map, List.length_range]
    · intro i hi hi'
      rw [List.getElem_map, List.getElem_range, List.getD_eq_getElem?_getD,
        List.getElem?_eq_getElem hi]
      rfl
  unfold activeCount remaining
  rw [hplayers, List.countP_map]
  apply List.countP_congr
  intro i _
  have hfolded : (after.players.getD i {}).folded = (turned hand inbox i).folded :=
    congrArg (fun stakes ↦ stakes.2.2) (hstakes i)
  show (!(after.players.getD i {}).folded) = true ↔ _
  rw [hfolded, turned_folded, Bool.not_not]

/-- One player is left: the hand goes on to its payouts, or the accounting throws. -/
structure LeavesBetting (t : HandState) (r : Except Exit Unit) (u : HandState) : Prop where
  length : u.hand.players.length = t.hand.players.length
  stakes : ∀ i, (u.hand.players.getD i {}).stakes = (t.hand.players.getD i {}).stakes
  round : u.hand.phase ≠ .continue → u.hand.round = t.hand.round
  phase : r = .ok () → u.hand.phase = .continue

theorem afterEpoch_leaves {t : HandState} (now : Nat) (h : activeCount t.hand ≤ 1) :
    After t (afterEpoch now) (LeavesBetting t) := by
  have hdone : bettingDone t.hand = true := by
    rw [bettingDone_eq]
    exact decide_eq_true h
  unfold afterEpoch
  apply After.read
  rw [if_pos hdone]
  unfold afterBettingOrReveal
  apply After.read
  rw [if_pos h]
  unfold beginContinue
  apply After.bind
  apply (SameStakes.payoutFrame.allocatePayouts t).mono
  intro r u hsame
  cases r with
  | error e => exact ⟨hsame.length, hsame.stakes, fun _ ↦ hsame.round, fun hok ↦ nomatch hok⟩
  | ok _ =>
      apply After.modify
      exact ⟨hsame.length, hsame.stakes, fun hphase ↦ absurd rfl hphase, fun _ ↦ rfl⟩

theorem afterEpoch_stays {t : HandState} (now : Nat) (h : 1 < activeCount t.hand) :
    After t (afterEpoch now) fun r u ↦ SameStakes t u ∧ (r = .ok () ↔ t.hand.epoch < maxU64) := by
  have hgoes : ¬bettingDone t.hand = true := by
    rw [bettingDone_eq, decide_eq_true_eq]
    omega
  unfold afterEpoch
  apply After.read
  rw [if_neg hgoes]
  unfold requireConfig
  by_cases hepoch : t.hand.epoch < maxU64
  case pos =>
    rw [if_pos hepoch]
    apply After.bind
    apply After.pure
    apply After.modify
    exact ⟨⟨rfl, fun _ ↦ rfl, rfl, rfl⟩, fun _ ↦ hepoch, fun _ ↦ rfl⟩
  case neg =>
    rw [if_neg hepoch]
    apply After.bind
    apply After.throw
    exact ⟨⟨rfl, fun _ ↦ rfl, rfl, rfl⟩, (fun hok ↦ nomatch hok), fun hless ↦ absurd hless hepoch⟩

theorem advanceBetting_closes (native : Native) {s : HandState} {now : Nat} (h : epochCloses s now) :
    After s (advanceBetting native now) (EpochClosed s) := by
  have hwaits : ¬waits (s.hand.players.all fun player ↦
      player.folded || player.bet ≥ player.stack || validAction s.hand player (currentBet s.hand)
        (peekMessage s.inbox (handKey s.hand player.address .action s.hand.round s.hand.epoch)))
      now s.hand = true := by simpa [epochCloses] using h
  unfold advanceBetting
  apply After.read
  dsimp only
  rw [if_neg hwaits]
  have hbets := turnsTaken_turns native s
  have hbetting : ((List.range s.hand.players.length).foldl (betPlayer native s.hand.round
      s.hand.epoch (currentBet s.hand)) (s, [])).1.hand.betting = s.hand.betting := by
    rw [hbets.hand]
  apply After.bind
  apply After.set
  apply After.bind
  apply After.ite
  case hneg =>
    -- the record of the round is missing: the process stops behind the turns
    intro hmissing
    rw [hbetting] at hmissing
    have ⟨hround, hphase, _⟩ := turnsTaken_hand native s
    have hlength : (s.turnsTaken native).hand.players.length = s.hand.players.length := by
      rw [turnsTaken_players, List.length_map, List.length_range]
    apply After.throw
    exact ⟨hlength, fun i ↦ congrArg Player.stakes (turnsTaken_getD native s i),
      (fun _ hb ↦ nomatch hb), fun _ ↦ hround, (fun _ hb ↦ nomatch hb),
      fun _ ↦ ⟨hphase, (fun hb ↦ nomatch hb), fun h ↦ absurd h.2 hmissing⟩⟩
  intro hplace
  rw [hbetting] at hplace
  apply After.pure
  apply After.bind
  apply After.modify
  show After (s.turnsTaken native) (afterEpoch now >>= fun _ ↦ pure true) (EpochClosed s)
  have hlength : (s.turnsTaken native).hand.players.length = s.hand.players.length := by
    rw [turnsTaken_players, List.length_map, List.length_range]
  have hturned (i : Nat) : ((s.turnsTaken native).hand.players.getD i {}).stakes =
      (turned s.hand s.inbox i).stakes := congrArg Player.stakes (turnsTaken_getD native s i)
  have hcount := activeCount_eq hlength hturned
  have ⟨hround, hphase, hepoch⟩ := turnsTaken_hand native s
  apply After.bind
  -- with one player left the hand goes on to its end, with more the epoch closes
  by_cases hone : remaining s.hand s.inbox ≤ 1
  case pos =>
    apply (afterEpoch_leaves now (hcount ▸ hone)).mono
    intro r u hr
    have hmany : ¬1 < remaining s.hand s.inbox := Nat.not_lt.mpr hone
    have hround' (h : u.hand.phase ≠ .continue) := (hr.round h).trans hround
    have hstakes (i : Nat) := (hr.stakes i).trans (hturned i)
    cases r with
    | ok _ =>
        apply After.pure
        exact ⟨hr.length.trans hlength, hstakes, fun b hb ↦ (Except.ok.inj hb).symm, hround',
          fun _ _ ↦ hr.phase rfl, fun h ↦ absurd h hmany⟩
    | error e =>
        exact ⟨hr.length.trans hlength, hstakes, (fun b hb ↦ nomatch hb), hround',
          (fun _ hb ↦ nomatch hb), fun h ↦ absurd h hmany⟩
  case neg =>
    apply (afterEpoch_stays now (hcount ▸ Nat.not_le.mp hone)).mono
    intro r u hr
    rw [hepoch] at hr
    have hround' (_ : u.hand.phase ≠ .continue) := hr.1.round.trans hround
    have hstakes (i : Nat) := (hr.1.stakes i).trans (hturned i)
    cases r with
    | ok _ =>
        apply After.pure
        exact ⟨hr.1.length.trans hlength, hstakes, fun b hb ↦ (Except.ok.inj hb).symm, hround',
          fun h ↦ absurd h hone,
          fun _ ↦ ⟨hr.1.phase.trans hphase, fun _ ↦ ⟨hr.2.mp rfl, hplace⟩, fun _ ↦ rfl⟩⟩
    | error e =>
        exact ⟨hr.1.length.trans hlength, hstakes, (fun b hb ↦ nomatch hb), hround',
          fun h ↦ absurd h hone, fun _ ↦ ⟨hr.1.phase.trans hphase, (fun hok ↦ nomatch hok),
            fun hless ↦ (nomatch (hr.2.mpr hless.1))⟩⟩

/-! ## 5. A round -/

/-- What waits in the inbox at a call, and the time of the call. -/
structure BettingCall where
  inbox : OrderedMap String Submission
  now : Nat

def HandState.receiving (s : HandState) (call : BettingCall) : HandState := { s with inbox := call.inbox }

/-- The hand is in its betting phase at the call, and the call returns true. -/
def closedBy (native : Native) (s : HandState) (call : BettingCall) : Bool :=
  s.hand.phase = .betting &&
    match advanceBetting native call.now (s.receiving call) with
    | .ok closed _ => closed
    | .error _ _ => false

/-- A call that throws keeps what it changed before; after the phase there are no more calls. -/
def bettingStep (native : Native) (s : HandState) (call : BettingCall) : HandState :=
  if s.hand.phase = .betting then
    match advanceBetting native call.now (s.receiving call) with
    | .ok _ t => t
    | .error _ t => t
  else s

/-- How many epochs some calls close. -/
def epochs (native : Native) : HandState → List BettingCall → Nat
  | _, [] => 0
  | s, call :: calls => (closedBy native s call).toNat + epochs native (bettingStep native s call) calls

/-- What the players can still bet. -/
def slack (hand : Hand) : Nat := (hand.players.map fun player ↦ player.stack - player.bet).sum

/-- The players are kept, and a closed epoch ends the round or raises the bets.  Where the round ends,
no player is left behind. -/
structure Advances (before after : Hand) (closed : Bool) : Prop where
  length : after.players.length = before.players.length
  kept : ∀ i, (before.players.getD i {}).Kept (after.players.getD i {})
  covered : after.BetsCovered
  round : after.phase = .betting → after.round = before.round
  progress : closed → after.phase ≠ .betting ∨ totalBets before < totalBets after
  settled : closed → after.phase ≠ .betting → 2 ≤ activeCount after →
    ∀ player ∈ after.players, player.folded = false →
      player.bet = player.stack ∨ player.bet = currentBet after

/-- In an epoch that closes, somebody raises or at most one player remains. -/
def RaisesOrEnds (s : HandState) (call : BettingCall) : Prop :=
  s.hand.phase = .betting → s.hand.epoch < maxU64 → s.hand.round < s.hand.betting.length →
    epochCloses (s.receiving call) call.now →
    (∃ i < s.hand.players.length, raisesAt s.hand call.inbox i) ∨ remaining s.hand call.inbox ≤ 1

instance (s : HandState) (call : BettingCall) : Decidable (RaisesOrEnds s call) :=
  inferInstanceAs (Decidable (_ → _ → _ → _ → _))

theorem Player.Kept.refl (p : Player) : p.Kept p := ⟨rfl, Nat.le_refl _, id⟩

theorem kept_of_stakes {p q : Player} (h : q.stakes = p.stakes) : p.Kept q := by
  unfold Player.stakes at h
  simp only [Prod.mk.injEq] at h
  exact ⟨h.1, Nat.le_of_eq h.2.1.symm, fun hfolded ↦ h.2.2.trans hfolded⟩

theorem kept_turned (hand : Hand) (inbox : OrderedMap String Submission) (i : Nat) :
    (hand.players.getD i {}).Kept (turned hand inbox i) where
  stack := turned_stack hand inbox i
  bet := bet_le_turned hand inbox i
  folded h := by
    rw [turned_of_not_mayAct (Player.not_mayAct_of_folded h)]
    exact h

theorem Player.Kept.trans {p q r : Player} (h : p.Kept q) (h' : q.Kept r) : p.Kept r :=
  ⟨h'.stack.trans h.stack, Nat.le_trans h.bet h'.bet, fun hfolded ↦ h'.folded (h.folded hfolded)⟩

theorem covered_iff (hand : Hand) :
    hand.BetsCovered ↔ ∀ i, (hand.players.getD i {}).bet ≤ (hand.players.getD i {}).stack := by
  constructor
  · intro h i
    rw [List.getD_eq_getElem?_getD]
    by_cases hi : i < hand.players.length
    · rw [List.getElem?_eq_getElem hi]
      exact h _ (List.getElem_mem hi)
    · rw [List.getElem?_eq_none (by omega)]
      exact Nat.le_refl _
  · intro h player hmem
    have ⟨i, hi, hplayer⟩ := List.getElem_of_mem hmem
    have hbound := h i
    rw [List.getD_eq_getElem?_getD, List.getElem?_eq_getElem hi] at hbound
    rwa [← hplayer]

theorem totalBets_eq (hand : Hand) : totalBets hand =
    ((List.range hand.players.length).map fun i ↦ (hand.players.getD i {}).bet).sum := by
  unfold totalBets
  congr 1
  apply List.ext_getElem
  · simp
  · intro i hi hi'
    rw [List.getElem_map, List.getElem_map, List.getElem_range, List.getD_eq_getElem?_getD,
      List.getElem?_eq_getElem (by simpa using hi)]
    rfl

/-- The bets of an epoch grow exactly if somebody raises. -/
theorem totalBets_lt_iff {hand after : Hand} {inbox : OrderedMap String Submission}
    (hlength : after.players.length = hand.players.length)
    (hstakes : ∀ i, (after.players.getD i {}).stakes = (turned hand inbox i).stakes) :
    totalBets hand < totalBets after ↔ ∃ i < hand.players.length, raisesAt hand inbox i := by
  have hbet (i : Nat) : (after.players.getD i {}).bet = (turned hand inbox i).bet :=
    congrArg (fun stakes ↦ stakes.2.1) (hstakes i)
  rw [totalBets_eq, totalBets_eq, hlength]
  constructor
  · intro hless
    by_contra hnone
    have hsame : ((List.range hand.players.length).map fun i ↦ (after.players.getD i {}).bet) =
        (List.range hand.players.length).map fun i ↦ (hand.players.getD i {}).bet := by
      apply List.map_congr_left
      intro i hi
      rw [hbet, turned_bet, if_neg fun hraise ↦ hnone ⟨i, List.mem_range.mp hi, hraise⟩]
    rw [hsame] at hless
    exact Nat.lt_irrefl _ hless
  · intro h
    have ⟨i, hi, hraise⟩ := h
    apply List.sum_lt_sum
    · intro j _
      rw [hbet]
      exact bet_le_turned hand inbox j
    · refine ⟨i, List.mem_range.mpr hi, ?_⟩
      rw [hbet]
      exact (bet_lt_turned_iff hand inbox i).mpr hraise

section Step

variable (native : Native) {s : HandState} {call : BettingCall}

theorem advances_same {hand : Hand} (hcovered : hand.BetsCovered) : Advances hand hand false where
  length := rfl
  kept _ := Player.Kept.refl _
  covered := hcovered
  round _ := rfl
  progress h := by cases h
  settled h := by cases h

theorem covered_of_stakes {hand after : Hand} {inbox : OrderedMap String Submission}
    (hcovered : hand.BetsCovered)
    (hstakes : ∀ i, (after.players.getD i {}).stakes = (turned hand inbox i).stakes) :
    after.BetsCovered := by
  rw [covered_iff] at hcovered ⊢
  intro i
  have hturned := turned_bet_le hand inbox i (hcovered i)
  have hsame := hstakes i
  simp only [Player.stakes, Prod.mk.injEq] at hsame
  omega

/-- An epoch that closes advances the round exactly if it raises the bets or ends the round. -/
theorem advances_of_closed {r : Except Exit Bool} {t : HandState} (hphase : s.hand.phase = .betting)
    (hcovered : s.hand.BetsCovered) (h : EpochClosed s r t) :
    Advances s.hand t.hand (r = .ok true) ↔
      (s.hand.epoch < maxU64 ∧ s.hand.round < s.hand.betting.length →
      (∃ i < s.hand.players.length, raisesAt s.hand s.inbox i) ∨ remaining s.hand s.inbox ≤ 1) := by
  have hkept (i : Nat) : (s.hand.players.getD i {}).Kept (t.hand.players.getD i {}) :=
    (kept_turned s.hand s.inbox i).trans (kept_of_stakes (h.stakes i))
  have hcovered' := covered_of_stakes hcovered h.stakes
  have hround (hbetting : t.hand.phase = .betting) : t.hand.round = s.hand.round :=
    h.round (by rw [hbetting]; decide)
  have hactive := activeCount_eq h.length h.stakes
  by_cases hone : remaining s.hand s.inbox ≤ 1
  case pos =>
    refine ⟨fun _ _ ↦ .inr hone, fun _ ↦ ⟨h.length, hkept, hcovered', hround, fun hclosed ↦ ?_,
      fun _ _ htwo ↦ by omega⟩⟩
    rw [decide_eq_true_eq] at hclosed
    rw [h.leaves hone hclosed]
    exact .inl (by decide)
  case neg =>
    have ⟨hstays, hreturns⟩ := h.stays (Nat.not_le.mp hone)
    rw [hphase] at hstays
    have hbets := totalBets_lt_iff h.length h.stakes
    constructor
    · intro hadvances hepoch
      cases hadvances.progress (decide_eq_true (hreturns.mpr hepoch)) with
      | inl hleft => exact absurd hstays hleft
      | inr hless => exact .inl (hbets.mp hless)
    · intro hallowed
      refine ⟨h.length, hkept, hcovered', hround, fun hclosed ↦ ?_,
        fun _ hleft ↦ absurd hstays hleft⟩
      rw [decide_eq_true_eq] at hclosed
      exact .inr (hbets.mpr ((hallowed (hreturns.mp hclosed)).resolve_right hone))

theorem advances_iff (hcovered : s.hand.BetsCovered) :
    Advances s.hand (bettingStep native s call).hand (closedBy native s call) ↔
      RaisesOrEnds s call := by
  unfold bettingStep closedBy RaisesOrEnds
  by_cases hphase : s.hand.phase = .betting
  case neg =>
    rw [if_neg hphase, decide_eq_false hphase, Bool.false_and]
    exact ⟨fun _ h ↦ absurd h hphase, fun _ ↦ advances_same hcovered⟩
  case pos =>
    rw [if_pos hphase, decide_eq_true hphase, Bool.true_and]
    by_cases hcloses : epochCloses (s.receiving call) call.now
    case neg =>
      rw [advanceBetting_waits (by simpa using hcloses)]
      exact ⟨fun _ _ _ _ h ↦ absurd h hcloses, fun _ ↦ advances_same hcovered⟩
    case pos =>
      have hafter := advanceBetting_closes native hcloses
      unfold After at hafter
      cases hr : advanceBetting native call.now (s.receiving call) with
      | ok closed t =>
          rw [hr] at hafter
          have hclosed := hafter.returned closed rfl
          subst hclosed
          have h := advances_of_closed (s := s.receiving call) hphase hcovered hafter
          rw [decide_eq_true rfl] at h
          exact h.trans ⟨fun h _ hepoch hplace _ ↦ h ⟨hepoch, hplace⟩,
            fun h hnext ↦ h hphase hnext.1 hnext.2 hcloses⟩
      | error e t =>
          rw [hr] at hafter
          have h := advances_of_closed (s := s.receiving call) hphase hcovered hafter
          rw [decide_eq_false (fun hok ↦ nomatch hok)] at h
          exact h.trans ⟨fun h _ hepoch hplace _ ↦ h ⟨hepoch, hplace⟩,
            fun h hnext ↦ h hphase hnext.1 hnext.2 hcloses⟩

/-- Whatever a call does, nobody has bet more than the stack. -/
theorem bettingStep_covered (hcovered : s.hand.BetsCovered) :
    (bettingStep native s call).hand.BetsCovered := by
  unfold bettingStep
  by_cases hphase : s.hand.phase = .betting
  case neg => rwa [if_neg hphase]
  case pos =>
    rw [if_pos hphase]
    by_cases hcloses : epochCloses (s.receiving call) call.now
    case neg =>
      rw [advanceBetting_waits (by simpa using hcloses)]
      exact hcovered
    case pos =>
      have hstakes (r : Except Exit Bool) (t : HandState) (h : EpochClosed (s.receiving call) r t) :
          t.hand.BetsCovered := covered_of_stakes hcovered h.stakes
      have hafter := advanceBetting_closes native hcloses
      unfold After at hafter
      cases hr : advanceBetting native call.now (s.receiving call) with
      | ok closed t =>
          rw [hr] at hafter
          exact hstakes _ t hafter
      | error e t =>
          rw [hr] at hafter
          exact hstakes _ t hafter

end Step

theorem totalBets_add_slack {hand : Hand} (h : hand.BetsCovered) :
    totalBets hand + slack hand = (hand.players.map Player.stack).sum := by
  unfold totalBets slack
  unfold Hand.BetsCovered at h
  generalize hand.players = players at h
  induction players with
  | nil => rfl
  | cons player players ih =>
      have hrest := ih fun other hother ↦ h other (List.mem_cons_of_mem _ hother)
      have hplayer := h player List.mem_cons_self
      simp only [List.map_cons, List.sum_cons]
      omega

namespace Advances

variable {before after : Hand} {closed : Bool} (h : Advances before after closed)

include h

theorem totalBets_le : totalBets before ≤ totalBets after := by
  rw [totalBets_eq, totalBets_eq, h.length]
  exact List.sum_le_sum fun i _ ↦ (h.kept i).bet

theorem stacks_eq : after.players.map Player.stack = before.players.map Player.stack := by
  apply List.ext_getElem
  · rw [List.length_map, List.length_map, h.length]
  · intro i hi hi'
    have hsame := (h.kept i).stack
    rw [List.length_map] at hi hi'
    rw [List.getD_eq_getElem?_getD, List.getD_eq_getElem?_getD, List.getElem?_eq_getElem hi,
      List.getElem?_eq_getElem hi'] at hsame
    rw [List.getElem_map, List.getElem_map]
    exact hsame

/-- What is left to bet is what is bet less. -/
theorem slack_eq (hcovered : before.BetsCovered) :
    totalBets after + slack after = totalBets before + slack before := by
  rw [totalBets_add_slack hcovered, totalBets_add_slack h.covered, h.stacks_eq]

end Advances

/-- Each epoch but the last uses up some of what can be bet. -/
theorem epochs_le (native : Native) {s : HandState} {calls : List BettingCall}
    (hcovered : s.hand.BetsCovered)
    (h : Meets (bettingStep native) (fun s call ↦
      Advances s.hand (bettingStep native s call).hand (closedBy native s call)) s calls) :
    epochs native s calls ≤ if s.hand.phase = .betting then 1 + slack s.hand else 0 := by
  induction calls generalizing s with
  | nil => exact Nat.zero_le _
  | cons call calls ih =>
      have ⟨hadvances, hrest⟩ := h
      have hmore := ih hadvances.covered hrest
      have hslack := hadvances.slack_eq hcovered
      have htotal := hadvances.totalBets_le
      rw [epochs]
      by_cases hphase : s.hand.phase = .betting
      case neg =>
        have hstep : bettingStep native s call = s := if_neg hphase
        have hopen : closedBy native s call = false := by
          unfold closedBy
          rw [decide_eq_false hphase, Bool.false_and]
        rw [hstep, if_neg hphase] at hmore
        rw [hstep, hopen, if_neg hphase]
        show 0 + epochs native s calls ≤ 0
        omega
      case pos =>
        rw [if_pos hphase]
        cases hclosed : closedBy native s call with
        | false =>
            have hafter : (if (bettingStep native s call).hand.phase = .betting then
                1 + slack (bettingStep native s call).hand else 0) ≤
                1 + slack (bettingStep native s call).hand := by
              split <;> omega
            show 0 + _ ≤ _
            omega
        | true =>
            show 1 + _ ≤ _
            cases hadvances.progress hclosed with
            | inl hleft =>
                rw [if_neg hleft] at hmore
                omega
            | inr hless =>
                have hafter : (if (bettingStep native s call).hand.phase = .betting then
                    1 + slack (bettingStep native s call).hand else 0) ≤
                    1 + slack (bettingStep native s call).hand := by
                  split <;> omega
                omega

/-- Every call keeps the players, closed epochs advance the round, and there are not more of them than
one and what can be bet. -/
def RoundEnds (native : Native) (s : HandState) (calls : List BettingCall) : Prop :=
  Meets (bettingStep native) (fun s call ↦
      Advances s.hand (bettingStep native s call).hand (closedBy native s call)) s calls ∧
    epochs native s calls ≤ 1 + slack s.hand

theorem meets_advances_iff (native : Native) {s : HandState} {calls : List BettingCall}
    (hcovered : s.hand.BetsCovered) :
    Meets (bettingStep native) (fun s call ↦
        Advances s.hand (bettingStep native s call).hand (closedBy native s call)) s calls ↔
      Meets (bettingStep native) RaisesOrEnds s calls := by
  induction calls generalizing s with
  | nil => exact Iff.rfl
  | cons call calls ih =>
      rw [Meets, Meets, advances_iff native hcovered, ih (bettingStep_covered native hcovered)]

/-- A round of betting ends as it should exactly if in every epoch that closes somebody raises or at
most one player remains. -/
theorem betting_rounds_end_iff (native : Native) (s : HandState) (calls : List BettingCall)
    (hphase : s.hand.phase = .betting) (hcovered : s.hand.BetsCovered) :
    RoundEnds native s calls ↔ Meets (bettingStep native) RaisesOrEnds s calls := by
  rw [← meets_advances_iff native hcovered]
  unfold RoundEnds
  constructor
  · intro h
    exact h.1
  · intro h
    have hbound := epochs_le native hcovered h
    rw [if_pos hphase] at hbound
    exact ⟨h, hbound⟩

/-! ## 6. Two players -/

def plainNative : Native := ⟨fun _ ↦ "", fun _ _ _ ↦ true⟩

def headsUp : HandState :=
  { operations := 0
    hand := {
      smallBlind := 1
      phase := .betting
      deadline := 100
      players := [
        { address := "A", stack := 10, bet := 1 },
        { address := "B", stack := 10, bet := 1 }]
      betting := List.replicate 4 [] }
    inbox := ∅ }

/-- The actions of the two players in an epoch. -/
def answers (epoch : Nat) (first second : BettingAction × Nat) : BettingCall :=
  let message (action : BettingAction × Nat) : Submission :=
    { kind := .action, action := action.1, cumulativeBet := action.2, epoch }
  let key (address : String) := inboxKey "" 0 address .action 0 epoch
  ⟨((∅ : OrderedMap String Submission).insert (key "A") (message first)).insert (key "B")
    (message second), 0⟩

/-- The first player raises; the second one folds then. -/
theorem headsUp_raise_fold : RoundEnds plainNative headsUp
    [answers 0 (.betRaise, 3) (.checkCall, 1), answers 1 (.checkCall, 3) (.fold, 1)] :=
  (betting_rounds_end_iff plainNative headsUp _ rfl (by decide)).mpr (by decide +kernel)

/-- Both players check, and the epoch is followed by another one. -/
theorem headsUp_check : ¬∀ (native : Native) (s : HandState) (calls : List BettingCall),
    s.hand.phase = .betting → s.hand.BetsCovered → RoundEnds native s calls := by
  intro h
  have hround := h plainNative headsUp [answers 0 (.checkCall, 1) (.checkCall, 1)] rfl (by decide)
  cases hround.1.1.progress (by decide +kernel) with
  | inl hleft => exact hleft (by decide +kernel)
  | inr hless => exact absurd hless (by decide +kernel)

end Stainless.Poker
