import Stainless.Runtime.OrderedMap

/-!
# Dealer state

The typed state of the poker dealer.  Amounts, heights and times are natural numbers; the bounds that
the source checks are checked by the functions.
-/

namespace Stainless.Poker

/-! ## 1. Discriminators -/

inductive SubmissionKind
  | unknown | auth | subscribe | commit | reveal | action | show | muck | «continue» | leave
deriving DecidableEq

/-- The text of a kind in a message and in an inbox key. -/
def SubmissionKind.text : SubmissionKind → String
  | unknown => "Unknown"
  | auth => "Auth"
  | subscribe => "Subscribe"
  | commit => "Commit"
  | reveal => "Reveal"
  | action => "Action"
  | «show» => "Show"
  | muck => "Muck"
  | «continue» => "Continue"
  | leave => "Leave"

inductive HandPhase
  | unknown | commit | reveal | betting | show | «continue» | settling
deriving DecidableEq

def HandPhase.text : HandPhase → String
  | unknown => "Unknown"
  | commit => "Commit"
  | reveal => "Reveal"
  | betting => "Betting"
  | «show» => "Show"
  | «continue» => "Continue"
  | settling => "Settling"

/-- `u64(phase)`. -/
def HandPhase.code : HandPhase → Nat
  | unknown => 0
  | commit => 1
  | reveal => 2
  | betting => 3
  | «show» => 4
  | «continue» => 5
  | settling => 6

inductive HandEventKind
  | unknown | handState | settled | handReverted | handExpired
deriving DecidableEq

inductive BettingAction
  | checkCall | betRaise | fold | unknown
deriving DecidableEq

inductive TimeoutPhase
  | commit | reveal | betting | show | unknown
deriving DecidableEq

/-! ## 2. The chain -/

structure TableTemplate where
  id : String
  minAvailable : Nat
deriving DecidableEq

structure DealerConfig where
  pollIntervalMs : Nat
  pendingTimeoutBlocks : Nat
  maxDeployPerSync : Nat
  templates : List TableTemplate
deriving DecidableEq

structure Checkpoint where
  height : Nat
  hash : String
deriving DecidableEq

structure TableStatus where
  tableOpen : Bool := false
  startHeight : Option Nat := none
  refundHeight : Option Nat := none
  handId : Nat := 0
  activeCount : Nat := 0
  waitingCount : Nat := 0
deriving DecidableEq

structure TableConfig where
  smallBlind : Nat := 0
  maxPlayers : Nat := 0
  playerTimeout : Nat := 0
  rakeBps : Nat := 0
  minRake : Nat := 0
deriving DecidableEq

structure Table where
  address : String := ""
  templateId : String := ""
  deploymentHeight : Nat := 0
  confirmed : Bool := false
  reachable : Bool := false
  lastSeenHeight : Option Nat := none
  status : Option TableStatus := none
  config : Option TableConfig := none
  error : Option String := none
deriving DecidableEq

structure PendingTable where
  address : String
  templateId : String
  deploymentHeight : Nat
deriving DecidableEq

structure ChainState where
  height : Nat := 0
  time : Nat := 0
  hash : String := ""
  synced : Bool := false
  checkpoints : List Checkpoint := []
  tables : List Table := []
deriving DecidableEq

/-! ## 3. Hands -/

structure Session where
  authenticated : Bool := false
  address : String := ""
  publicKey : String := ""
  table : String := ""
deriving DecidableEq

structure Submission where
  kind : SubmissionKind := .unknown
  signature : String := ""
  handId : Nat := 0
  round : Nat := 0
  epoch : Nat := 0
  commitments : List String := []
  seed : String := ""
  action : BettingAction := .unknown
  cumulativeBet : Nat := 0
  checkpoint : String := ""
  pocketSeed : String := ""
  hand : List Nat := []
  resultStack : Nat := 0
deriving DecidableEq

structure Rank where
  category : Nat := 0
  kickers : List Nat := []
deriving DecidableEq

structure Show where
  pocketSeed : String := ""
  hand : List Nat := []
  rank : Rank := {}
deriving DecidableEq

structure Player where
  address : String := ""
  publicKey : String := ""
  stack : Nat := 0
  bet : Nat := 0
  folded : Bool := false
  commitments : List String := []
  commitSignature : Option String := none
  reveals : List (Option String) := []
  «show» : Option Show := none
  payout : Option Nat := none
  continuing : Option Bool := none
deriving DecidableEq

structure BettingEntry where
  player : Nat
  action : BettingAction
  cumulativeBet : Nat
  signature : String
deriving DecidableEq

structure TimeoutEntry where
  player : Nat
  phase : TimeoutPhase
  round : Nat
  epoch : Nat
deriving DecidableEq

structure ShowEntry where
  player : Nat
  pocketSeed : String
  hand : List Nat
deriving DecidableEq

structure ContinuationEntry where
  player : Nat
  signature : String
deriving DecidableEq

structure Hand where
  table : String := ""
  handId : Nat := 0
  startHeight : Nat := 0
  refundHeight : Nat := 0
  smallBlind : Nat := 0
  playerTimeout : Nat := 0
  rakeBps : Nat := 0
  minRake : Nat := 0
  phase : HandPhase := .unknown
  round : Nat := 0
  epoch : Nat := 0
  deadline : Nat := 0
  checkpoint : String := ""
  players : List Player := []
  sources : List String := []
  board : Option (List Nat) := none
  betting : List (List (List BettingEntry)) := []
  timeouts : List TimeoutEntry := []
  shows : List ShowEntry := []
  continuations : List ContinuationEntry := []
  dealerRake : Nat := 0
  settlementTx : Option String := none
  settlementHeight : Option Nat := none
deriving DecidableEq

structure HandEvent where
  kind : HandEventKind := .unknown
  table : String := ""
  handId : Nat := 0
  height : Nat := 0
  hand : Option Hand := none
deriving DecidableEq

structure ReconcileResult where
  changed : Bool := false
  event : Option HandEvent := none
deriving DecidableEq

structure PlayerInfo where
  address : String
  publicKey : String
  stack : Nat
deriving DecidableEq

end Stainless.Poker
