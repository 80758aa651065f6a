import Stainless.Poker.Hand
import Stainless.Poker.HandCodec

/-!
# The dealer's main loop

The hands are reconciled with the tables of the chain and advanced on every pass of the loop; a pass may
also synchronize with the node and take one submission.
-/

open Reasoning Stainless.Runtime Stainless.Crypto

namespace Stainless.Poker

/-! ## 1. The store of the hands -/

def loadHands (env : Env) : DealerM (List Hand) := do
  match ← Slot.hands.find env with
  | none => return []
  | some loaded =>
      have : NumberText := ⟨env.numberOf⟩
      match Hand.parseAll loaded with
      | .ok hands => return hands
      | .error e => throw e

def saveHands (env : Env) (hands : List Hand) : DealerM Unit := do
  Slot.hands.insert env (Hand.jsonAll hands)
  commitNext Slot.hands env "failed to commit poker hand state"

def resetHands (env : Env) : DealerM Unit := do
  modify fun d ↦ { d with hands := [], inbox := ∅ }
  note .handsReset
  saveHands env []

/-! ## 2. Submissions -/

def isGameplay (kind : SubmissionKind) : Bool :=
  kind = .commit || kind = .reveal || kind = .action || kind = .show || kind = .muck ||
    kind = .continue || kind = .leave

def validateSignedSubmission (env : Env) (native : Native) (session : Session)
    (message : Submission) : DealerM Bool := do
  if message.kind ≠ .commit ∧ message.kind ≠ .action ∧ message.kind ≠ .continue then
    return true
  if !isHex message.signature 64 then
    return false
  let hash ← call env fun n ↦ env.node.submissionHash n session message
  return native.verify hash session.publicKey message.signature

def acceptSubmission (env : Env) (native : Native) (session : Session) (message : Submission) :
    DealerM Unit := do
  let valid ← validateSignedSubmission env native session message
  onlyIf (valid = true) do
    let key :=
      inboxKey session.table message.handId session.address message.kind message.round message.epoch
    modify fun d ↦ { d with inbox := d.inbox.insert key message }
    note (.submissionAccepted session message)

/-- What `dispatch_event` and `handle_session_message` do with a gameplay message.  The other messages
change the session only. -/
def dispatchMessage (env : Env) (native : Native) (session : Session) (message : Submission) :
    DealerM Unit := do
  onlyIf (isGameplay message.kind) do
    let error ← submissionError env native (← get).hands session message
    onlyIf (error = "" ∧ session.authenticated ∧ session.table ≠ "") do
      acceptSubmission env native session message

/-! ## 3. Reconciliation -/

def makeHandStateEvent (hand : Hand) : HandEvent :=
  { kind := .handState, table := hand.table, handId := hand.handId, hand := some hand }

def startPlayer (env : Env) (table : String) (config : TableConfig) (index : Nat) :
    DealerM Player := do
  let address ← call env fun n ↦ env.node.activePlayer n table index
  let info ← call env fun n ↦ env.node.playerInfo n table address
  return {
    address := info.address
    publicKey := info.publicKey
    stack := info.stack
    bet := config.smallBlind
    reveals := List.replicate 4 none }

def startHand (env : Env) (table : Table) (handId now : Nat) : DealerM Hand := do
  requireConfig (table.status.isSome = true ∧ table.config.isSome = true)
    "confirmed table is missing status or config"
  let status := table.status.getD {}
  let config := table.config.getD {}
  let players ← (List.range status.activeCount).mapM (startPlayer env table.address config)
  let checkpoint ← call env fun n ↦ env.node.startCheckpoint n table.address
  return {
    table := table.address
    handId
    startHeight := status.startHeight.getD 0
    refundHeight := status.refundHeight.getD 0
    smallBlind := config.smallBlind
    playerTimeout := config.playerTimeout
    rakeBps := config.rakeBps
    minRake := config.minRake
    phase := .commit
    deadline := handDeadline now config.playerTimeout
    checkpoint
    players
    betting := List.replicate 4 [] }

/-- The event that ends a hand at its table, if it has ended. -/
def endingEvent (address : String) (status : TableStatus) (currentHeight : Nat) (hand : Hand) :
    Option HandEvent :=
  let startHeight := status.startHeight.getD 0
  let refundHeight := status.refundHeight.getD 0
  let finished := status.handId ≠ hand.handId
  let expired := refundHeight > 0 ∧ currentHeight ≥ refundHeight
  let invalidated := !status.tableOpen ∨ startHeight ≠ hand.startHeight ∨
    startHeight > currentHeight ∨ expired
  if finished ∨ invalidated then
    some {
      kind := if finished then .settled else if expired then .handExpired else .handReverted
      table := address
      handId := hand.handId
      height := currentHeight }
  else
    none

/-- A table at which a hand can start. -/
def canStart (table : Table) (status : TableStatus) (currentHeight : Nat) : Bool :=
  let startHeight := status.startHeight.getD 0
  let refundHeight := status.refundHeight.getD 0
  table.reachable && status.tableOpen && status.activeCount ≥ 2 && startHeight > 0 &&
    startHeight ≤ currentHeight && (refundHeight = 0 || currentHeight < refundHeight)

def reconcileTable (env : Env) (table : Table) (currentHeight now : Nat) :
    DealerM ReconcileResult := do
  match table.confirmed, table.status with
  | true, some status =>
      let hands := (← get).hands
      let index := findHandIndex hands table.address
      if index ≠ hands.length then
        match endingEvent table.address status currentHeight (hands.getD index {}) with
        | some event =>
            modify fun d ↦ { d with hands := d.hands.eraseIdx index }
            return { changed := true, event := some event }
        | none => return {}
      else if canStart table status currentHeight then
        let hand ← startHand env table status.handId now
        modify fun d ↦ { d with hands := d.hands ++ [hand] }
        note (.handStarted hand)
        return { changed := true, event := some (makeHandStateEvent hand) }
      else
        return {}
  | _, _ => return {}

/-! ## 4. One pass over the hands -/

/-- The dealer after a step of the hand at a position. -/
def Dealer.stepped (d : Dealer) (i : Nat) (before : Hand) (s : HandState) (returned : Bool) : Dealer :=
  { d with
    operations := s.operations
    journal := d.journal ++ [.handAdvanced before s.hand returned]
    hands := d.hands.set i s.hand
    inbox := s.inbox }

/-- Runs a step on the hand at a position, which keeps what the step did before it threw. -/
def onHand (i : Nat) (step : HandM Bool) : DealerM Bool := fun d ↦
  match d.hands[i]? with
  | none => .ok false d
  | some before =>
      match step ⟨d.operations, before, d.inbox⟩ with
      | .ok advanced s => .ok advanced (d.stepped i before s true)
      | .error e s => .error e (d.stepped i before s false)

def reconcileStep (env : Env) (currentHeight now : Nat) (acc : Bool × List HandEvent)
    (table : Table) : DealerM (Bool × List HandEvent) := do
  let result ← reconcileTable env table currentHeight now
  return (acc.1 || result.changed, acc.2 ++ result.event.toList)

def advanceStep (env : Env) (native : Native) (chain : ChainState) (now : Nat)
    (acc : Bool × List HandEvent) (i : Nat) : DealerM (Bool × List HandEvent) := do
  if ← onHand i (advanceHand env native chain now) then
    return (true, acc.2 ++ [makeHandStateEvent ((← get).hands.getD i {})])
  else
    return acc

def tickHands (env : Env) (native : Native) (now : Nat) : DealerM (List HandEvent) := do
  let chain := (← get).chain
  if !chain.synced then
    return []
  note (.handsTicked chain.height)
  let reconciled ← chain.tables.foldlM (reconcileStep env chain.height now) (false, [])
  let (changed, events) ← (List.range (← get).hands.length).foldlM
    (advanceStep env native chain now) reconciled
  onlyIf (changed = true) do
    saveHands env (← get).hands
  return events

/-! ## 5. The loop -/

/-- What the process does before its loop.  The chain and the pending deployments are kept as values:
their JSON writes 64-bit integers as texts, so that nothing of them is lost. -/
def startUp (env : Env) : DealerM Unit := do
  initializeChainStore env
  let chain ← loadChain env
  let pending ← Slot.pending.find env
  let hands ← loadHands env
  modify fun d ↦ { d with chain, pending := pending.getD [], hands }

def synchronizeAndReset (env : Env) (config : DealerConfig) : DealerM Unit := do
  let rolledBack ← synchronize env config
  onlyIf (rolledBack = true) (resetHands env)

/-- The loop goes on after an exception. -/
def guarded (body : DealerM Unit) : DealerM Unit :=
  tryCatch body fun
    | .exception _ => return
    | e => throw e

/-- The synchronization, when it is due. -/
def poll (env : Env) (config : DealerConfig) (elapsedMs : Nat) : DealerM Nat := do
  if elapsedMs ≥ config.pollIntervalMs then
    guarded (synchronizeAndReset env config)
    return 0
  else
    return elapsedMs

/-- What the socket delivered, if anything. -/
def receive (env : Env) (native : Native) (event : Option (Session × Submission)) : DealerM Unit :=
  match event with
  | some (session, message) => guarded (dispatchMessage env native session message)
  | none => return

def coordinate (env : Env) (native : Native) : DealerM Unit :=
  guarded do
    let _ ← tickHands env native (← get).chain.time

/-- One pass of the loop; gives the new `elapsed_ms`. -/
def iteration (env : Env) (native : Native) (config : DealerConfig) (elapsedMs : Nat)
    (event : Option (Session × Submission)) : DealerM Nat := do
  let elapsedMs ← poll env config elapsedMs
  receive env native event
  coordinate env native
  return elapsedMs + 100

/-- The process in its loop. -/
structure Loop where
  dealer : Dealer
  elapsedMs : Nat
  running : Bool

/-- The dealer after its start. -/
def Dealer.booted (env : Env) : Dealer :=
  match startUp env .fresh with
  | .ok _ d => d
  | .error _ d => d

def Loop.started (dealer : Dealer) (config : DealerConfig) : Loop :=
  ⟨dealer, config.pollIntervalMs, true⟩

/-- One pass of a process that has not stopped. -/
def Loop.pass (env : Env) (native : Native) (config : DealerConfig) (l : Loop)
    (event : Option (Session × Submission)) : Loop :=
  if l.running then
    match iteration env native config l.elapsedMs event l.dealer with
    | .ok elapsedMs dealer => ⟨dealer, elapsedMs, true⟩
    | .error _ dealer => ⟨dealer, l.elapsedMs, false⟩
  else l

end Stainless.Poker
