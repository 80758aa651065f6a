import Mathlib
import Stainless.Poker.Dealer

/-!
# The chain and its tables

One synchronization with the node: the rollback after a reorganization, the refresh of the tables, the
pending deployments, the snapshots and the autoscaling.
-/

open Reasoning

namespace Stainless.Poker

/-! ## 1. The stores of the chain and of the pending tables -/

def initializeChainStore (env : Env) : DealerM Unit := do
  if (← Slot.chain.currentVersion) ≠ 0 then
    return
  else
    let existing ← Slot.chain.find env
    refuse (existing.isSome = true) "uncommitted chain state exists at the baseline version"
    Slot.chain.insert env {}
    let committed ← Slot.chain.commit env 1
    refuse (committed = false) "kvstore refused the empty chain baseline"

def loadChain (env : Env) : DealerM ChainState := do
  return (← Slot.chain.find env).getD {}

/-- The greatest height whose version fits in a `u32`, and one more. -/
def heightLimit : Nat := 4294967295

def saveChain (env : Env) (height : Nat) (chain : ChainState) : DealerM Unit := do
  refuse (height ≥ heightLimit) "chain height exceeds the kvstore version range"
  let version := UInt32.ofNat (height + 1)
  Slot.chain.insert env chain
  let current ← Slot.chain.currentVersion
  onlyIf (current ≠ version) do
    let committed ← Slot.chain.commit env version
    refuse (committed = false) "kvstore refused the chain snapshot version"
  modify fun d ↦ { d with snapshots := d.snapshots ++ [(height, chain)] }

/-- Commits the next version of a store; the version after the last one is 0. -/
def commitNext {α : Type} (slot : Slot α) (env : Env) (message : String) : DealerM Unit := do
  let next := (← slot.currentVersion) + 1
  if next ≠ 0 then
    let committed ← slot.commit env next
    refuse (committed = false) message
  else
    throwException (.config message)

def savePending (env : Env) (pending : List PendingTable) : DealerM Unit := do
  Slot.pending.insert env pending
  commitNext Slot.pending env "failed to commit pending table state"

/-! ## 2. Tables -/

def tableKnown (chain : ChainState) (address : String) : Bool :=
  chain.tables.any fun table ↦ table.address = address

def pendingKnown (pending : List PendingTable) (address : String) : Bool :=
  pending.any fun table ↦ table.address = address

/-- The tables of the old chain that the new one does not have become pending again. -/
def recoverReorgDeployments (oldChain chain : ChainState) (pending : List PendingTable)
    (tipHeight : Nat) : Bool × List PendingTable :=
  oldChain.tables.foldl
    (fun acc table ↦
      if !tableKnown chain table.address && !pendingKnown acc.2 table.address then
        (true, acc.2 ++ [⟨table.address, table.templateId, tipHeight⟩])
      else acc)
    (false, pending)

def updateTable (index : Nat) (f : Table → Table) : DealerM Unit :=
  modify fun d ↦ { d with chain := { d.chain with tables := d.chain.tables.modify index f } }

def refreshTable (env : Env) (height : Nat) (index : Nat) : DealerM Unit := do
  let address := ((← get).chain.tables[index]?.getD {}).address
  catchRust
    (do
      let status ← call env fun n ↦ env.node.tableStatus n address
      let config ← call env fun n ↦ env.node.tableConfig n address
      let status ← liftOutcome status
      updateTable index fun table ↦ { table with status := some status }
      let config ← liftOutcome config
      updateTable index fun table ↦ { table with
        config := some config
        confirmed := true
        reachable := true
        lastSeenHeight := some height
        error := none })
    fun message ↦
      updateTable index fun table ↦ { table with reachable := false, error := some message }

def refreshTables (env : Env) : DealerM Unit := do
  let chain := (← get).chain
  (List.range chain.tables.length).foldlM (fun _ index ↦ refreshTable env chain.height index) ()

/-- The sum of two `u64`. -/
def addU64 (left right : Nat) : Nat := (left + right) % 2 ^ 64

/-- An unreachable deployment is given up. -/
def deploymentTimedOut (config : DealerConfig) (height : Nat) (table : PendingTable) : Bool :=
  !(height ≤ addU64 table.deploymentHeight config.pendingTimeoutBlocks)

/-- The locals of `merge_pending`, and the deployments that it gives up. -/
structure Merge where
  remaining : List PendingTable := []
  changed : Bool := false
  timedOut : List GivenUp := []

/-- What the chain shows of a pending table. -/
def confirmTable (env : Env) (pendingTable : PendingTable) : DealerM Unit := do
  let status ← call env fun n ↦ env.node.tableStatus n pendingTable.address
  let tableConfig ← call env fun n ↦ env.node.tableConfig n pendingTable.address
  let chain := (← get).chain
  onlyIf (!tableKnown chain pendingTable.address) do
    let status ← liftOutcome status
    let tableConfig ← liftOutcome tableConfig
    let table : Table :=
      { address := pendingTable.address
        templateId := pendingTable.templateId
        deploymentHeight := pendingTable.deploymentHeight
        confirmed := true
        reachable := true
        lastSeenHeight := some chain.height
        status := some status
        config := some tableConfig }
    modify fun d ↦ { d with chain := { d.chain with tables := d.chain.tables ++ [table] } }

/-- One pass of the loop over the pending tables. -/
def mergeTable (env : Env) (config : DealerConfig) (acc : Merge) (pendingTable : PendingTable) :
    DealerM Merge :=
  catchRust
    (do
      confirmTable env pendingTable
      return { acc with changed := true })
    fun _ ↦ do
      let height := (← get).chain.height
      if deploymentTimedOut config height pendingTable then
        return { acc with changed := true, timedOut := acc.timedOut ++ [⟨pendingTable, height⟩] }
      else
        return { acc with remaining := acc.remaining ++ [pendingTable] }

def mergePending (env : Env) (config : DealerConfig) : DealerM Bool := do
  let merge ← (← get).pending.foldlM (mergeTable env config) {}
  onlyIf (merge.changed = true) do
    modify fun d ↦ { d with pending := merge.remaining, dropped := d.dropped ++ merge.timedOut }
  return merge.changed

/-! ## 3. Rollback -/

def eqIgnoreAsciiCase (left right : String) : Bool :=
  left.toList.map Char.toLower = right.toList.map Char.toLower

def checkpointMatches (env : Env) (checkpoint : Checkpoint) (tipHeight : Nat) : DealerM Bool := do
  if checkpoint.height > tipHeight then
    return false
  let hash ← call env fun n ↦ env.node.headerHash n checkpoint.height
  return eqIgnoreAsciiCase hash checkpoint.hash

/-- The first match among the checkpoints, newest first. -/
def findAncestor (env : Env) (tipHeight : Nat) : List Checkpoint → DealerM (Option Nat)
  | [] => return none
  | checkpoint :: older => do
      if ← catchRust (checkpointMatches env checkpoint tipHeight) fun _ ↦ return false then
        return some checkpoint.height
      else
        findAncestor env tipHeight older

/-- The header at the height of the chain in memory still has its hash. -/
def currentMatches (env : Env) (chain : ChainState) (tipHeight : Nat) : DealerM Bool := do
  if chain.height ≤ tipHeight then
    catchRust
      (do
        let hash ← call env fun n ↦ env.node.headerHash n chain.height
        return eqIgnoreAsciiCase hash chain.hash)
      fun _ ↦ return false
  else
    return false

/-- Goes back to the snapshot of the ancestor. -/
def revertChain (env : Env) (ancestor : Nat) : DealerM Unit := do
  refuse (ancestor ≥ heightLimit) "rollback height exceeds kvstore range"
  let reverted ← Slot.chain.revert env (UInt32.ofNat (ancestor + 1)) (.reverted ancestor)
  refuse (reverted = false) "kvstore could not revert chain state"
  let loaded ← loadChain env
  modify fun d ↦ { d with chain := loaded }

def rollbackIfNeeded (env : Env) (tipHeight : Nat) : DealerM Bool := do
  let chain := (← get).chain
  if chain.height = 0 ∨ chain.hash = "" then
    return false
  if ← currentMatches env chain tipHeight then
    return false
  let ancestor := (← findAncestor env tipHeight chain.checkpoints.reverse).getD 0
  revertChain env ancestor
  return true

/-! ## 4. Autoscaling -/

def availableForTemplate (chain : ChainState) (pending : List PendingTable) (templateId : String) :
    Nat :=
  (chain.tables.filter fun table ↦
    table.templateId = templateId && table.confirmed && table.reachable &&
      match table.status, table.config with
      | some status, some config =>
          status.tableOpen && decide (status.activeCount + status.waitingCount < config.maxPlayers)
      | _, _ => false).length +
    (pending.filter fun table ↦ table.templateId = templateId).length

def scaleTemplate (env : Env) (spec : TableTemplate) : DealerM Bool := do
  let d ← get
  if !d.chain.synced || availableForTemplate d.chain d.pending spec.id ≥ spec.minAvailable then
    return false
  let address ← call env fun n ↦ env.node.deploy n spec
  modify fun d ↦ { d with pending := d.pending ++ [⟨address, spec.id, d.chain.height⟩] }
  savePending env (← get).pending
  return true

/-- Deploys for one template until it has enough tables or the burst limit is used up, and gives what
is left of the limit. -/
def deployMany (env : Env) (spec : TableTemplate) : Nat → DealerM Nat
  | 0 => return 0
  | left + 1 => do
      if ← scaleTemplate env spec then deployMany env spec left
      else return left + 1

def scaleTables (env : Env) (config : DealerConfig) : DealerM Unit := do
  let synced := (← get).chain.synced
  onlyIf (synced = true) do
    let _ ← config.templates.foldlM (fun left spec ↦ deployMany env spec left) config.maxDeployPerSync

/-! ## 5. Synchronization -/

/-- The loop that drops the oldest checkpoints leaves the last 256. -/
def appendCheckpoint (chain : ChainState) (height : Nat) (hash : String) : ChainState :=
  let checkpoints := chain.checkpoints ++ [⟨height, hash⟩]
  { chain with checkpoints := checkpoints.drop (checkpoints.length - 256) }

/-- The new tip and its tables, up to the point where the snapshot is saved; gives whether pending tables
were merged. -/
def refreshTip (env : Env) (config : DealerConfig) (tipHeight : Nat) : DealerM Bool := do
  let hash ← call env fun n ↦ env.node.headerHash n tipHeight
  modify fun d ↦ { d with chain := { d.chain with height := tipHeight, hash } }
  refreshTables env
  let merged ← mergePending env config
  modify fun d ↦ { d with chain := appendCheckpoint d.chain tipHeight d.chain.hash }
  return merged

def updateTip (env : Env) (config : DealerConfig) (tipHeight : Nat) (pendingChanged : Bool) :
    DealerM Unit := do
  let merged ← refreshTip env config tipHeight
  saveChain env tipHeight (← get).chain
  onlyIf (merged || pendingChanged) do
    savePending env (← get).pending

/-- Brings the deployments of the chain that was left back into the pending tables. -/
def recoverDeployments (oldChain : ChainState) (tipHeight : Nat) (rolledBack : Bool) :
    DealerM Bool := do
  let d ← get
  if rolledBack then
    let (changed, pending) := recoverReorgDeployments oldChain d.chain d.pending tipHeight
    modify fun d ↦ { d with pending }
    return changed
  else
    return false

/-- What a synchronization records about the tip, behind the rollback from `oldChain` if there was one. -/
def recordTip (env : Env) (config : DealerConfig) (info : NodeInfo) (oldChain : ChainState)
    (rolledBack : Bool) : DealerM Unit := do
  let pendingChanged ← recoverDeployments oldChain info.height rolledBack
  let chain := (← get).chain
  let newTip := info.height ≠ chain.height ∨ chain.hash = ""
  modify fun d ↦ { d with chain := { d.chain with time := info.time, synced := info.isSynced } }
  onlyIf (newTip ∨ rolledBack) do
    updateTip env config info.height pendingChanged

def synchronize (env : Env) (config : DealerConfig) : DealerM Bool := do
  let info ← call env env.node.nodeInfo
  let oldChain := (← get).chain
  let rolledBack ← rollbackIfNeeded env info.height
  recordTip env config info oldChain rolledBack
  scaleTables env config
  return rolledBack

end Stainless.Poker
