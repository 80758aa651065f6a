import Stainless.Poker.Model
import Stainless.Poker.Store
import Stainless.Runtime.Json

/-!
# The dealer and what it depends on

The dealer is its three stores and what it holds in memory.  Every call of the node and every operation
on a store has a number; what the outside answers is looked up under that number, so it can be different
each time.  Before each of them the process may stop.
-/

open Reasoning Stainless.Runtime

namespace Stainless.Poker

/-! ## 1. Exceptions -/

inductive Exception
  | rust (message : String)
  | json (message : String)
  | enum (message : String)
  | config (message : String)
  | store (message : String)
deriving DecidableEq

/-- Why a function did not return.  No handler runs when the process stops. -/
inductive Exit
  | exception (e : Exception)
  | stopped
deriving DecidableEq

/-! ## 2. The outside -/

structure NodeInfo where
  height : Nat
  time : Nat
  isSynced : Bool

/-- What `submit_settlement` passes to the contract. -/
structure Settlement where
  table : String
  commitments : List (List String)
  signatures : List (Option String)
  reveals : List (List (Option String))
  betting : List (List (List BettingEntry))
  shows : List ShowEntry
  timeouts : List TimeoutEntry
  continuations : List ContinuationEntry

/-- The answers of the node, by the number of the call.  The inner outcome of a status or a
configuration is that of its conversion from JSON. -/
structure Node where
  nodeInfo : Nat → Except Exception NodeInfo
  headerHash : Nat → (height : Nat) → Except Exception String
  tableStatus : Nat → (table : String) → Except Exception (Except Exception TableStatus)
  tableConfig : Nat → (table : String) → Except Exception (Except Exception TableConfig)
  deploy : Nat → TableTemplate → Except Exception String
  activePlayer : Nat → (table : String) → (index : Nat) → Except Exception String
  playerInfo : Nat → (table address : String) → Except Exception PlayerInfo
  startCheckpoint : Nat → (table : String) → Except Exception String
  dealCards : Nat → (table : String) → (seeds : List String) → Except Exception (List Nat)
  selectHand : Nat → (table : String) → (board pocket hand : List Nat) → Except Exception (List Nat)
  getRank : Nat → (table : String) → (selected : List Nat) → Except Exception (Option Rank)
  settle : Nat → Settlement → Except Exception String
  submissionHash : Nat → Session → Submission → Except Exception String

/-- A node that cannot be reached. -/
def Node.silent : Node :=
  let unreachable : Exception := .rust "unreachable"
  { nodeInfo := fun _ ↦ .error unreachable
    headerHash := fun _ _ ↦ .error unreachable
    tableStatus := fun _ _ ↦ .error unreachable
    tableConfig := fun _ _ ↦ .error unreachable
    deploy := fun _ _ ↦ .error unreachable
    activePlayer := fun _ _ _ ↦ .error unreachable
    playerInfo := fun _ _ _ ↦ .error unreachable
    startCheckpoint := fun _ _ ↦ .error unreachable
    dealCards := fun _ _ _ ↦ .error unreachable
    selectHand := fun _ _ _ _ _ ↦ .error unreachable
    getRank := fun _ _ _ ↦ .error unreachable
    settle := fun _ _ ↦ .error unreachable
    submissionHash := fun _ _ _ ↦ .error unreachable }

/-- The node, the fates of the store operations and the moments at which the process stops; also how the
runtime reads numbers. -/
structure Env where
  node : Node
  fate : Nat → Fate
  stops : Nat → Bool
  /-- What JavaScript makes of a text that should be a number. -/
  numberOf : String → Int

/-! ## 3. State -/

/-- What the dealer did, in order. -/
inductive Happening
  /-- The file of the chain store was cut behind the snapshot of a height. -/
  | reverted (height : Nat)
  | handsReset
  /-- The hands were reconciled with the tables of a chain of this height and advanced. -/
  | handsTicked (height : Nat)
  | handStarted (hand : Hand)
  | submissionAccepted (session : Session) (message : Submission)
  /-- `returned` is false when the step threw. -/
  | handAdvanced (before after : Hand) (returned : Bool)
deriving DecidableEq

/-- A deployment that was given up, and the height of the chain then. -/
structure GivenUp where
  table : PendingTable
  height : Nat
deriving DecidableEq

structure Dealer where
  /-- The number of the next operation. -/
  operations : Nat
  /-- A history variable; no function reads it. -/
  journal : List Happening
  /-- The deployments that were given up, a history variable too. -/
  dropped : List GivenUp
  /-- What `save_chain` stored for which height, a history variable too. -/
  snapshots : List (Nat × ChainState)
  chainStore : Store ChainState
  pendingStore : Store (List PendingTable)
  handsStore : Store Json
  chain : ChainState
  pending : List PendingTable
  hands : List Hand
  inbox : OrderedMap String Submission

/-- A state that counts the operations. -/
class Counts (σ : Type) where
  operations : σ → Nat
  next : σ → σ

instance : Counts Dealer := ⟨Dealer.operations, fun d ↦ { d with operations := d.operations + 1 }⟩

abbrev DealerM := EStateM Exit Dealer

section Programs

variable {σ α : Type}

def throwException (e : Exception) : EStateM Exit σ α := throw (.exception e)

def requireConfig (condition : Prop) [Decidable condition] (message : String) : EStateM Exit σ Unit :=
  if condition then return else throwException (.config message)

/-- `if (condition) { throw ConfigError{message}; }` -/
def refuse (condition : Prop) [Decidable condition] (message : String) : EStateM Exit σ Unit :=
  if condition then throwException (.config message) else return

/-- An index behind the end of a vector stops the program. -/
def inBounds (condition : Prop) [Decidable condition] : EStateM Exit σ Unit :=
  if condition then return else throw .stopped

/-- `if (condition) { body }` -/
def onlyIf (condition : Prop) [Decidable condition] (body : EStateM Exit σ Unit) :
    EStateM Exit σ Unit :=
  if condition then body else return

/-- `try { body } catch (const RustError& error) { handle(error.message); }` -/
def catchRust (body : EStateM Exit σ α) (handle : String → EStateM Exit σ α) : EStateM Exit σ α :=
  tryCatch body fun
    | .exception (.rust message) => handle message
    | e => throw e

/-- Starts an operation and gives its number. -/
def operation [Counts σ] (env : Env) : EStateM Exit σ Nat := do
  let n := Counts.operations (← get)
  if env.stops n then
    throw .stopped
  else
    modify Counts.next
    return n

def liftOutcome : Except Exception α → EStateM Exit σ α
  | .ok a => return a
  | .error e => throwException e

/-- A call of the node. -/
def call [Counts σ] (env : Env) (answer : Nat → Except Exception α) : EStateM Exit σ α := do
  liftOutcome (answer (← operation env))

end Programs

def note (h : Happening) : DealerM Unit := modify fun d ↦ { d with journal := d.journal ++ [h] }

/-! ## 4. Operations on the stores -/

/-- One of the three stores. -/
structure Slot (α : Type) where
  read : Dealer → Store α
  write : Dealer → Store α → Dealer

def Slot.chain : Slot ChainState := ⟨Dealer.chainStore, fun d s ↦ { d with chainStore := s }⟩
def Slot.pending : Slot (List PendingTable) :=
  ⟨Dealer.pendingStore, fun d s ↦ { d with pendingStore := s }⟩
def Slot.hands : Slot Json := ⟨Dealer.handsStore, fun d s ↦ { d with handsStore := s }⟩

namespace Slot

variable {α : Type} (slot : Slot α) (env : Env)

def ioError : Exception := .store "input/output error"

def find : DealerM (Option α) := do
  match env.fate (← operation env) with
  | .done => return (slot.read (← get)).shown
  | .failed _ => throwException ioError

def insert (value : α) : DealerM Unit := do
  match env.fate (← operation env) with
  | .done => modify fun d ↦ slot.write d ((slot.read d).insert value)
  | .failed _ => throwException ioError

def commit (version : UInt32) : DealerM Bool := do
  match env.fate (← operation env) with
  | .done =>
      let (committed, store) := (slot.read (← get)).commit version
      modify fun d ↦ slot.write d store
      return committed
  | .failed reach =>
      modify fun d ↦ slot.write d ((slot.read d).commitFailed version reach)
      throwException ioError

/-- `happening` is noted once the index file is cut, also when the revert throws behind that. -/
def revert (version : UInt32) (happening : Happening) : DealerM Bool := do
  match env.fate (← operation env) with
  | .done =>
      match (slot.read (← get)).revert version with
      | some (reverted, store) =>
          modify fun d ↦ slot.write d store
          onlyIf (reverted = true) (note happening)
          return reverted
      | none => throwException (.store "missing successor version offset")
  | .failed reach =>
      match (slot.read (← get)).revertFailed version reach with
      | some store =>
          modify fun d ↦ slot.write d store
          note happening
          throwException ioError
      | none => throwException ioError

def currentVersion : DealerM UInt32 := do
  return (slot.read (← get)).currentVersion

end Slot

/-! ## 5. Start of the process -/

/-- Opens the stores in a new process, which has nothing in memory yet. -/
def Dealer.restart (d : Dealer) : Dealer :=
  { operations := d.operations
    journal := d.journal
    dropped := d.dropped
    snapshots := d.snapshots
    chainStore := d.chainStore.reopen
    pendingStore := d.pendingStore.reopen
    handsStore := d.handsStore.reopen
    chain := {}
    pending := []
    hands := []
    inbox := ∅ }

/-- A dealer without any files. -/
def Dealer.fresh : Dealer := ⟨0, [], [], [], .created, .created, .created, {}, [], [], ∅⟩

end Stainless.Poker
