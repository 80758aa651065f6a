import Stainless.Poker.Chain
import Stainless.Poker.Protocol

/-!
# The hand coordinator

A hand goes through its phases: the players commit to their seeds and reveal them round by round, bet
after each reveal, show their cards and decide whether to stay; then the hand is settled.
-/

open Reasoning Stainless.Runtime Stainless.Crypto

namespace Stainless.Poker

/-! ## 1. State -/

/-- What the functions of one hand change. -/
structure HandState where
  operations : Nat
  hand : Hand
  inbox : OrderedMap String Submission

instance : Counts HandState :=
  ⟨HandState.operations, fun s ↦ { s with operations := s.operations + 1 }⟩

abbrev HandM := EStateM Exit HandState

def updateHand (f : Hand → Hand) : HandM Unit := modify fun s ↦ { s with hand := f s.hand }

/-! ## 2. Amounts and lookups -/

def maxU64 : Nat := 18446744073709551615

def maxAmount : Nat := 340282366920938463463374607431768211455

def settlementRetryBlocks : Nat := 5

section Amounts

variable {σ : Type}

def safeAmountAdd (left right : Nat) : EStateM Exit σ Nat := do
  requireConfig (right ≤ maxAmount - left) "poker amount overflow"
  return left + right

def safeAmountMul (left right : Nat) : EStateM Exit σ Nat := do
  requireConfig (right = 0 ∨ left ≤ maxAmount / right) "poker amount overflow"
  return left * right

/-- `left - right` of two amounts; below zero the program stops. -/
def subAmount (left right : Nat) : EStateM Exit σ Nat :=
  if right ≤ left then return left - right else throw .stopped

def safeMulDiv (left right divisor : Nat) : EStateM Exit σ Nat :=
  match mulDivFloor left right divisor with
  | .ok quotient => return quotient
  | .error message => throwException (.config message)

end Amounts

def handDeadline (now timeout : Nat) : Nat :=
  if timeout > maxU64 - now then maxU64 else now + timeout

/-- The number of hands when there is none for the table. -/
def findHandIndex (hands : List Hand) (table : String) : Nat :=
  hands.findIdx fun hand ↦ hand.table = table

def findPlayerIndex (hand : Hand) (address : String) : Nat :=
  hand.players.findIdx fun player ↦ player.address = address

def handKey (hand : Hand) (address : String) (kind : SubmissionKind) (round epoch : Nat) : String :=
  inboxKey hand.table hand.handId address kind round epoch

def hasMessage (inbox : OrderedMap String Submission) (key : String) : Bool := inbox.contains key

def peekMessage (inbox : OrderedMap String Submission) (key : String) : Submission :=
  inbox[key]?.getD {}

/-! ## 3. Submissions -/

def seedCommit (native : Native) (hand : Hand) (player : Player) (round : Nat) (seed : String) :
    String :=
  Protocol.seedCommit native hand.table hand.handId player.address round seed

def commitHash (native : Native) (hand : Hand) (player : Player) (commitments : List String) : String :=
  if commitments.length ≠ 5 ∨ !commitments.all (isHex · 32) then ""
  else Protocol.commitHash native hand.table hand.handId player.address commitments

def checkpointStep (native : Native) (hand : Hand) (playerIndex : Nat) (phase : HandPhase)
    (eventRound epoch event eventAmount : Nat) (dataHash : String) : Hand :=
  { hand with
    checkpoint := Protocol.checkpointStep native hand.table hand.handId hand.checkpoint phase.code
      eventRound epoch (hand.players.getD playerIndex {}).address event eventAmount dataHash }

def validCommit (value : Submission) : Bool :=
  value.kind = .commit && value.commitments.length = 5 && isHex value.signature 64 &&
    value.commitments.all (isHex · 32)

def validReveal (native : Native) (hand : Hand) (player : Player) (round : Nat) (value : Submission) :
    Bool :=
  value.kind = .reveal && round < 4 && isHex value.seed 32 && player.commitments.length = 5 &&
    eqIgnoreAsciiCase (seedCommit native hand player round value.seed)
      (player.commitments.getD round "")

def currentBet (hand : Hand) : Nat :=
  hand.players.foldl
    (fun target player ↦ if !player.folded && player.bet > target then player.bet else target) 0

def activeCount (hand : Hand) : Nat := hand.players.countP fun player ↦ !player.folded

def actorCount (hand : Hand) : Nat :=
  hand.players.countP fun player ↦ !player.folded && player.bet < player.stack

def validAction (hand : Hand) (player : Player) (target : Nat) (value : Submission) : Bool :=
  value.kind = .action &&
    match value.action with
    | .checkCall => value.cumulativeBet = player.bet && player.bet = target
    | .betRaise =>
        value.cumulativeBet > player.bet && value.cumulativeBet ≤ player.stack &&
          (value.cumulativeBet = target || value.cumulativeBet - player.bet ≥ hand.smallBlind ||
            value.cumulativeBet = player.stack) &&
          (value.cumulativeBet = target || value.cumulativeBet / 2 ≥ player.bet ||
            value.cumulativeBet = player.stack)
    | .fold => value.cumulativeBet = player.bet
    | .unknown => false

def validContinuation (hand : Hand) (player : Player) (value : Submission) : Bool :=
  value.kind = .continue && player.payout.isSome && value.resultStack = player.payout.getD 0 &&
    value.checkpoint = hand.checkpoint && isHex value.signature 64

/-- Everything that `validate_show` checks before it asks the contract. -/
def showWellFormed (native : Native) (hand : Hand) (player : Player) (value : Submission) : Bool :=
  value.kind = .show && isHex value.pocketSeed 32 && value.hand.length = 5 &&
    player.commitments.length = 5 &&
    eqIgnoreAsciiCase (seedCommit native hand player 4 value.pocketSeed)
      (player.commitments.getD 4 "") &&
    value.hand.all (· < 7) && value.hand.Nodup && hand.board.isSome && !hand.sources.isEmpty

def validateShow {σ : Type} [Counts σ] (env : Env) (native : Native) (hand : Hand) (player : Player)
    (value : Submission) : EStateM Exit σ (Option Show) := do
  if !showWellFormed native hand player value then
    return none
  let pocketSource := sha256Hex native (hand.sources.getD 0 "" ++ value.pocketSeed)
  let first := sha256Hex native ("A1" ++ pocketSource)
  let second := sha256Hex native ("A2" ++ pocketSource)
  let pocket ← call env fun n ↦ env.node.dealCards n hand.table [first, second]
  let board := hand.board.getD []
  let selected ← call env fun n ↦ env.node.selectHand n hand.table board pocket value.hand
  let rank ← call env fun n ↦ env.node.getRank n hand.table selected
  return rank.map fun rank ↦ ⟨value.pocketSeed, value.hand, rank⟩

/-- The steps of a hand in which it waits for a message. -/
def expectedSubmission (hand : Hand) (player : Player) (message : Submission) : Bool :=
  match message.kind with
  | .commit => hand.phase = .commit && message.round = 0 && message.epoch = 0
  | .reveal =>
      hand.phase = .reveal && message.round = hand.round && message.epoch = 0 && !player.folded
  | .action =>
      hand.phase = .betting && message.round = hand.round && message.epoch = hand.epoch &&
        message.checkpoint = hand.checkpoint && !player.folded && player.bet < player.stack
  | .show | .muck => hand.phase = .show && message.round = 4 && message.epoch = 0 && !player.folded
  | .continue =>
      hand.phase = .continue && message.round = 0 && message.epoch = 0 &&
        message.checkpoint = hand.checkpoint
  | .leave => hand.phase = .continue && message.round = 0 && message.epoch = 0
  | _ => false

def validSubmission {σ : Type} [Counts σ] (env : Env) (native : Native) (hand : Hand) (player : Player)
    (message : Submission) : EStateM Exit σ Bool :=
  match message.kind with
  | .commit => return validCommit message
  | .reveal => return validReveal native hand player hand.round message
  | .action => return validAction hand player (currentBet hand) message
  | .show => return (← validateShow env native hand player message).isSome
  | .continue => return validContinuation hand player message
  | _ => return true

/-- The empty text accepts the message. -/
def submissionError {σ : Type} [Counts σ] (env : Env) (native : Native) (hands : List Hand)
    (session : Session) (message : Submission) : EStateM Exit σ String := do
  let handIndex := findHandIndex hands session.table
  if handIndex = hands.length then
    return "the table has no active dealer hand"
  let hand := hands.getD handIndex {}
  if message.handId ≠ hand.handId then
    return "hand_id does not match the active hand"
  let playerIndex := findPlayerIndex hand session.address
  if playerIndex = hand.players.length then
    return "authenticated player is not in the active hand"
  let player := hand.players.getD playerIndex {}
  if !expectedSubmission hand player message then
    return "message `" ++ message.kind.text ++ "` is not expected during " ++ hand.phase.text
  if !(← validSubmission env native hand player message) then
    return "message `" ++ message.kind.text ++ "` has an invalid payload"
  return ""

/-! ## 4. Payouts -/

/-- `left` compared with `right` by category, then by the kickers. -/
def compareKickers : List Nat → List Nat → Int
  | [], [] => 0
  | [], _ :: _ => -1
  | _ :: _, [] => 1
  | l :: left, r :: right => if l > r then 1 else if l < r then -1 else compareKickers left right

def compareRank (left right : Rank) : Int :=
  if left.category > right.category then 1
  else if left.category < right.category then -1
  else compareKickers left.kickers right.kickers

def layerWinner (hand : Hand) (acc : Option Rank × List Nat) (index : Nat) :
    HandM (Option Rank × List Nat) := do
  let player := hand.players.getD index {}
  requireConfig (player.show.isSome = true) "missing showdown rank"
  let rank := (player.show.getD {}).rank
  match acc.1 with
  | none => return (some rank, [index])
  | some winningRank =>
      if compareRank rank winningRank > 0 then return (some rank, [index])
      else if compareRank rank winningRank = 0 then return (some winningRank, acc.2 ++ [index])
      else return acc

def layerWinners (hand : Hand) (eligible : List Nat) : HandM (List Nat) := do
  requireConfig (eligible.length > 0) "poker pot has no eligible player"
  if eligible.length = 1 then
    return eligible
  return (← eligible.foldlM (layerWinner hand) (none, [])).2

def splitAmount (total count index : Nat) : HandM Nat := do
  requireConfig (count > 0 ∧ index < count) "invalid payout split"
  return total / count + if index < total % count then 1 else 0

/-- The next greater bet. -/
def nextLevel (hand : Hand) (previous : Nat) : Option Nat :=
  hand.players.foldl
    (fun level player ↦
      if player.bet > previous && (level.isNone || player.bet < level.getD maxAmount) then
        some player.bet
      else level) none

/-- A part of the pot that more than one player pays into. -/
structure Layer where
  amount : Nat
  winners : List Nat

structure Layers where
  payouts : List Nat
  layers : List Layer := []
  matchedTotal : Nat := 0

def addPayout (payouts : List Nat) (index amount : Nat) : HandM (List Nat) := do
  let payout ← safeAmountAdd (payouts.getD index 0) amount
  return payouts.set index payout

/-- The layers above the bets up to `previous`. -/
def collectLayers (hand : Hand) : Nat → Nat → Layers → HandM Layers
  | 0, _, acc => return acc
  | count + 1, previous, acc =>
      match nextLevel hand previous with
      | none => return acc
      | some level => do
          let delta ← subAmount level previous
          let contributors :=
            (List.range hand.players.length).filter fun i ↦ (hand.players.getD i {}).bet ≥ level
          let eligible := contributors.filter fun i ↦ !(hand.players.getD i {}).folded
          if contributors.length = 1 ∨ eligible.length = 0 then
            let payouts ← contributors.foldlM (fun payouts index ↦ addPayout payouts index delta)
              acc.payouts
            collectLayers hand count level { acc with payouts }
          else
            let amount ← safeAmountMul delta contributors.length
            let winners ← layerWinners hand eligible
            let matchedTotal ← safeAmountAdd acc.matchedTotal amount
            collectLayers hand count level
              { acc with layers := acc.layers ++ [⟨amount, winners⟩], matchedTotal }

structure Shares where
  payouts : List Nat
  matchedSeen : Nat := 0
  rakeSeen : Nat := 0

/-- The winners of a layer share what the rake leaves of it. -/
def shareLayer (dealerRake matchedTotal : Nat) (acc : Shares) (layer : Layer) : HandM Shares := do
  let matchedSeen ← safeAmountAdd acc.matchedSeen layer.amount
  let rakeUntil ← safeMulDiv dealerRake matchedSeen matchedTotal
  let net ← subAmount layer.amount (← subAmount rakeUntil acc.rakeSeen)
  let payouts ← (List.range layer.winners.length).foldlM
    (fun payouts offset ↦ do
      let share ← splitAmount net layer.winners.length offset
      addPayout payouts (layer.winners.getD offset 0) share)
    acc.payouts
  return { payouts, matchedSeen, rakeSeen := rakeUntil }

/-- The payouts after the rake, which is recorded in the hand. -/
def applyRake (layers : Layers) (minimumRake : Nat) : HandM (List Nat) := do
  let hand := (← get).hand
  if layers.matchedTotal > 0 then
    let share ← safeMulDiv layers.matchedTotal hand.rakeBps 10000
    let dealerRake := if minimumRake > share then minimumRake else share
    requireConfig (dealerRake ≤ layers.matchedTotal) "minimum rake exceeds matched pot"
    updateHand fun hand ↦ { hand with dealerRake }
    return (← layers.layers.foldlM (shareLayer dealerRake layers.matchedTotal)
      { payouts := layers.payouts }).payouts
  else
    requireConfig (activeCount hand = 0) "surviving player has no matched pot"
    updateHand fun hand ↦ { hand with dealerRake := minimumRake }
    layers.payouts.mapM fun payout ↦ do
      requireConfig (payout ≥ hand.minRake) "minimum rake exceeds stack"
      subAmount payout hand.minRake

/-- Records the payout of one player; the accumulator is `total_stack` and `total_payout`. -/
def recordPayout (payouts : List Nat) (acc : Nat × Nat) (index : Nat) : HandM (Nat × Nat) := do
  let payout := payouts.getD index 0
  updateHand fun hand ↦
    { hand with players := hand.players.modify index fun player ↦ { player with payout := some payout } }
  let player := (← get).hand.players.getD index {}
  let totalStack ← safeAmountAdd acc.1 player.stack
  let totalPayout ← safeAmountAdd acc.2 payout
  return (totalStack, totalPayout)

def allocatePayouts : HandM Unit := do
  let hand := (← get).hand
  let payouts ← hand.players.mapM fun player ↦ do
    requireConfig (player.bet ≤ player.stack) "bet exceeds player stack"
    subAmount player.stack player.bet
  let layers ← collectLayers hand hand.players.length 0 { payouts }
  let minimumRake ← safeAmountMul hand.minRake hand.players.length
  let payouts ← applyRake layers minimumRake
  let totals ← (List.range hand.players.length).foldlM (recordPayout payouts)
    (0, (← get).hand.dealerRake)
  requireConfig (totals.1 = totals.2) "payout accounting mismatch"

/-! ## 5. Phases -/

def beginContinue (now : Nat) : HandM Unit := do
  allocatePayouts
  updateHand fun hand ↦ { hand with
    phase := .continue
    round := 0
    epoch := 0
    deadline := handDeadline now hand.playerTimeout }

def enterReveal (now : Nat) (hand : Hand) : Hand :=
  { hand with
    round := if hand.phase ≠ .commit then hand.round + 1 else hand.round
    epoch := 0
    phase := .reveal
    deadline := handDeadline now hand.playerTimeout }

def enterShow (now : Nat) (hand : Hand) : Hand :=
  { hand with
    phase := .show
    round := 4
    epoch := 0
    deadline := handDeadline now hand.playerTimeout }

def enterBetting (now : Nat) (hand : Hand) : Hand :=
  { hand with phase := .betting, epoch := 0, deadline := handDeadline now hand.playerTimeout }

def afterBettingOrReveal (now : Nat) : HandM Unit := do
  let hand := (← get).hand
  if activeCount hand ≤ 1 then
    beginContinue now
  else if hand.phase = .reveal ∧ hand.round < 3 ∨ hand.phase = .betting ∧ hand.round < 3 ∨
      hand.phase = .commit then
    updateHand (enterReveal now)
  else
    updateHand (enterShow now)

def afterReveal (now : Nat) : HandM Unit := do
  let hand := (← get).hand
  if activeCount hand > 1 ∧ actorCount hand > 1 then
    updateHand (enterBetting now)
  else
    afterBettingOrReveal now

def HandState.setPlayer (s : HandState) (index : Nat) (player : Player) : HandState :=
  { s with hand := { s.hand with players := s.hand.players.set index player } }

def HandState.timeOut (s : HandState) (entry : TimeoutEntry) : HandState :=
  { s with hand := { s.hand with timeouts := s.hand.timeouts ++ [entry] } }

def HandState.addShow (s : HandState) (entry : ShowEntry) : HandState :=
  { s with hand := { s.hand with shows := s.hand.shows ++ [entry] } }

def HandState.addContinuation (s : HandState) (entry : ContinuationEntry) : HandState :=
  { s with hand := { s.hand with continuations := s.hand.continuations ++ [entry] } }

def HandState.step (native : Native) (s : HandState) (playerIndex : Nat) (phase : HandPhase)
    (eventRound epoch event eventAmount : Nat) (dataHash : String) : HandState :=
  { s with
    hand := checkpointStep native s.hand playerIndex phase eventRound epoch event eventAmount dataHash }

/-- `take_message` gives the message under a key … -/
def HandState.message (s : HandState) (key : String) : Submission := peekMessage s.inbox key

/-- … and removes it. -/
def HandState.take (s : HandState) (key : String) : HandState := { s with inbox := s.inbox.erase key }

/-- Not all players are ready and there is time left. -/
def waits (ready : Bool) (now : Nat) (hand : Hand) : Bool := !ready && now < hand.deadline

/-! ### Commit -/

def commitPlayer (native : Native) (s : HandState) (i : Nat) : HandState :=
  let player := s.hand.players.getD i {}
  let key := handKey s.hand player.address .commit 0 0
  let submission := s.message key
  let s := s.take key
  if validCommit submission then
    let digest := commitHash native s.hand player submission.commitments
    (s.step native i .commit 0 0 1 player.stack digest).setPlayer i
      { player with
        commitments := submission.commitments
        commitSignature := some submission.signature }
  else
    ((s.timeOut ⟨i, .commit, 0, 0⟩).step native i .commit 0 0 2 player.stack "").setPlayer i
      { player with folded := true }

def advanceCommit (native : Native) (now : Nat) : HandM Bool := do
  let s ← get
  let ready := s.hand.players.all fun player ↦
    validCommit (peekMessage s.inbox (handKey s.hand player.address .commit 0 0))
  if waits ready now s.hand then
    return false
  set ((List.range s.hand.players.length).foldl (commitPlayer native) s)
  afterBettingOrReveal now
  return true

/-! ### Reveal -/

/-- The accumulator is the state and `seed_data`. -/
def revealPlayer (native : Native) (round : Nat) (acc : HandState × String) (i : Nat) :
    HandState × String :=
  let s := acc.1
  let seedData := acc.2
  let player := s.hand.players.getD i {}
  if player.folded then
    (s.step native i .reveal round 0 3 player.bet "", seedData)
  else
    let key := handKey s.hand player.address .reveal round 0
    let submission := s.message key
    let s := s.take key
    if validReveal native s.hand player round submission then
      ((s.step native i .reveal round 0 1 player.bet (sha256Hex native submission.seed)).setPlayer i
          { player with reveals := player.reveals.set round (some submission.seed) },
        seedData ++ submission.seed)
    else
      (((s.timeOut ⟨i, .reveal, round, 0⟩).step native i .reveal round 0 2 player.bet "").setPlayer i
          { player with folded := true },
        seedData)

/-- The seeds of a round are combined with the source of the round before. -/
def nextSource (native : Native) (hand : Hand) (round : Nat) (seedData : String) : String :=
  let source := sha256Hex native seedData
  if round > 0 then sha256Hex native (hand.sources.getD (round - 1) "" ++ source) else source

def appendSource (native : Native) (round : Nat) (seedData : String) (hand : Hand) : Hand :=
  { hand with sources := hand.sources ++ [nextSource native hand round seedData] }

/-- Each player who is still in has a place for the seed of the round, and there is a source for the
round before. -/
def revealsFit (round : Nat) (hand : Hand) : Bool :=
  (hand.players.all fun player ↦ player.folded || round < player.reveals.length) &&
    round ≤ hand.sources.length

def advanceReveal (native : Native) (now : Nat) : HandM Bool := do
  let s ← get
  let round := s.hand.round
  let ready := s.hand.players.all fun player ↦
    player.folded || validReveal native s.hand player round
      (peekMessage s.inbox (handKey s.hand player.address .reveal round 0))
  if waits ready now s.hand then
    return false
  let revealed := (List.range s.hand.players.length).foldl (revealPlayer native round) (s, "")
  set revealed.1
  inBounds (revealsFit round revealed.1.hand)
  updateHand (appendSource native round revealed.2)
  afterReveal now
  return true

/-! ### Betting -/

/-- The player after a valid action, and the number of the event. -/
def act (player : Player) (submission : Submission) : Player × Nat :=
  match submission.action with
  | .betRaise => ({ player with bet := submission.cumulativeBet }, 11)
  | .fold => ({ player with folded := true }, 12)
  | _ => (player, 10)

/-- What a player bets is recorded; the accumulator is the state and `entries`. -/
def betPlayer (native : Native) (round epoch target : Nat) (acc : HandState × List BettingEntry)
    (i : Nat) : HandState × List BettingEntry :=
  let s := acc.1
  let entries := acc.2
  let player := s.hand.players.getD i {}
  if player.folded then
    (s.step native i .betting round epoch 30 player.bet "", entries)
  else if player.bet ≥ player.stack then
    (s.step native i .betting round epoch 31 player.bet "", entries)
  else
    let key := handKey s.hand player.address .action round epoch
    let submission := s.message key
    let s := s.take key
    if validAction s.hand player target submission then
      let entry : BettingEntry :=
        ⟨i, submission.action, submission.cumulativeBet, submission.signature⟩
      let acted := act player submission
      ((s.step native i .betting round epoch acted.2 submission.cumulativeBet "").setPlayer i acted.1,
        entries ++ [entry])
    else
      let s := s.timeOut ⟨i, .betting, round, epoch⟩
      if player.bet ≠ target then
        ((s.step native i .betting round epoch 21 player.bet "").setPlayer i
          { player with folded := true }, entries)
      else
        (s.step native i .betting round epoch 20 player.bet "", entries)

def bettingDone (hand : Hand) : Bool :=
  let nextTarget := currentBet hand
  hand.players.foldl
    (fun done player ↦
      if !player.folded && player.bet < player.stack && player.bet < nextTarget then false else done)
    (activeCount hand ≤ 1)

def appendEntries (round : Nat) (entries : List BettingEntry) (hand : Hand) : Hand :=
  { hand with betting := hand.betting.modify round (· ++ [entries]) }

/-- The end of an epoch. -/
def afterEpoch (now : Nat) : HandM Unit := do
  let hand := (← get).hand
  if bettingDone hand then
    afterBettingOrReveal now
  else
    requireConfig (hand.epoch < maxU64) "betting epoch overflow"
    updateHand fun hand ↦ { hand with
      epoch := hand.epoch + 1
      deadline := handDeadline now hand.playerTimeout }

def advanceBetting (native : Native) (now : Nat) : HandM Bool := do
  let s ← get
  let round := s.hand.round
  let epoch := s.hand.epoch
  let target := currentBet s.hand
  let ready := s.hand.players.all fun player ↦
    player.folded || player.bet ≥ player.stack || validAction s.hand player target
      (peekMessage s.inbox (handKey s.hand player.address .action round epoch))
  if waits ready now s.hand then
    return false
  let bets :=
    (List.range s.hand.players.length).foldl (betPlayer native round epoch target) (s, [])
  set bets.1
  inBounds (round < bets.1.hand.betting.length)
  updateHand (appendEntries round bets.2)
  afterEpoch now
  return true

/-! ### Show -/

def makeBoard (env : Env) (native : Native) : HandM Unit := do
  let hand := (← get).hand
  requireConfig (hand.sources.length = 4) "showdown requires four combined seed sources"
  let seed (label : String) := sha256Hex native (label ++ hand.sources.getD 1 "")
  let board ← call env fun n ↦ env.node.dealCards n hand.table
    [seed "F1", seed "F2", seed "F3", hand.sources.getD 2 "", hand.sources.getD 3 ""]
  updateHand fun hand ↦ { hand with board := some board }

/-- One pass of the loop that asks whether all players showed or mucked. -/
def showSubmitted (env : Env) (native : Native) (ready : Bool) (player : Player) : HandM Bool := do
  if player.folded then
    return ready
  let s ← get
  if hasMessage s.inbox (handKey s.hand player.address .muck 4 0) then
    return ready
  let message := peekMessage s.inbox (handKey s.hand player.address .show 4 0)
  return ready && (← validateShow env native s.hand player message).isSome

/-- What becomes of a player who showed a valid hand, mucked or let the time pass. -/
def recordShow (native : Native) (i : Nat) (player : Player) (mucked : Bool) (shown : Option Show)
    (s : HandState) : HandState :=
  match shown with
  | some value =>
      ((s.addShow ⟨i, value.pocketSeed, value.hand⟩).step native i .show 4 0 1 player.bet
        (sha256Hex native value.pocketSeed)).setPlayer i { player with «show» := some value }
  | none =>
      if mucked then
        (s.step native i .show 4 0 4 player.bet "").setPlayer i { player with folded := true }
      else
        ((s.timeOut ⟨i, .show, 4, 0⟩).step native i .show 4 0 2 player.bet "").setPlayer i
          { player with folded := true }

def showPlayer (env : Env) (native : Native) (i : Nat) : HandM Unit := do
  let s ← get
  let player := s.hand.players.getD i {}
  if player.folded then
    set (s.step native i .show 4 0 3 player.bet "")
  else
    let muckKey := handKey s.hand player.address .muck 4 0
    let showKey := handKey s.hand player.address .show 4 0
    let mucked : Bool := (s.message muckKey).kind = .muck
    let submission := (s.take muckKey).message showKey
    let s := (s.take muckKey).take showKey
    set s
    let shown ← (if mucked then pure none else validateShow env native s.hand player submission)
    modify (recordShow native i player mucked shown)

def advanceShow (env : Env) (native : Native) (now : Nat) : HandM Bool := do
  let hand := (← get).hand
  if hand.board.isNone then
    makeBoard env native
    return true
  let ready ← hand.players.foldlM (showSubmitted env native) true
  if waits ready now hand then
    return false
  (List.range hand.players.length).forM (showPlayer env native)
  beginContinue now
  return true

/-! ### Continue and settlement -/

def submitSettlement (env : Env) (height : Nat) : HandM Unit := do
  let hand := (← get).hand
  let request : Settlement :=
    { table := hand.table
      commitments := hand.players.map Player.commitments
      signatures := hand.players.map Player.commitSignature
      reveals := hand.players.map Player.reveals
      betting := hand.betting
      shows := hand.shows
      timeouts := hand.timeouts
      continuations := hand.continuations }
  let transaction ← call env fun n ↦ env.node.settle n request
  updateHand fun hand ↦ { hand with
    settlementTx := some transaction
    settlementHeight := some height
    phase := .settling
    deadline := 0 }

def continuePlayer (s : HandState) (i : Nat) : HandState :=
  let player := s.hand.players.getD i {}
  let leaveKey := handKey s.hand player.address .leave 0 0
  let continueKey := handKey s.hand player.address .continue 0 0
  let leaving : Bool := (s.message leaveKey).kind = .leave
  let submission := (s.take leaveKey).message continueKey
  let s := (s.take leaveKey).take continueKey
  if !leaving && validContinuation s.hand player submission then
    (s.addContinuation ⟨i, submission.signature⟩).setPlayer i { player with continuing := some true }
  else
    s.setPlayer i { player with continuing := some false }

def advanceContinue (env : Env) (chain : ChainState) (now : Nat) : HandM Bool := do
  let s ← get
  let ready := s.hand.players.all fun player ↦
    hasMessage s.inbox (handKey s.hand player.address .leave 0 0) ||
      validContinuation s.hand player
        (peekMessage s.inbox (handKey s.hand player.address .continue 0 0))
  if waits ready now s.hand then
    return false
  set ((List.range s.hand.players.length).foldl continuePlayer s)
  submitSettlement env chain.height
  return true

def shouldRetry (hand : Hand) (height : Nat) : Bool :=
  match hand.settlementHeight with
  | none => true
  | some submitted =>
      submitted > maxU64 - settlementRetryBlocks || height ≥ submitted + settlementRetryBlocks

def retrySettlement (env : Env) (chain : ChainState) : HandM Bool := do
  let hand := (← get).hand
  if !shouldRetry hand chain.height || chain.height ≥ hand.refundHeight then
    return false
  submitSettlement env chain.height
  return true

def advanceHand (env : Env) (native : Native) (chain : ChainState) (now : Nat) : HandM Bool := do
  match (← get).hand.phase with
  | .commit => advanceCommit native now
  | .reveal => advanceReveal native now
  | .betting => advanceBetting native now
  | .show => advanceShow env native now
  | .continue => advanceContinue env chain now
  | .settling => retrySettlement env chain
  | .unknown => throwException (.config "invalid persisted poker hand phase")

end Stainless.Poker
