import Stainless.Kvstore.AscendingLogs

/-!
# Database

A database commits and reverts several tables together.  Each of its calls is a loop over the tables,
and the process can stop anywhere in it.
-/

open Reasoning Stainless.Runtime

namespace Stainless.Kvstore

/-- What a call on a database leaves: its result and the tables. -/
structure Outcomes (α : Type) where
  result : Except TableError α
  tables : List Table

namespace Database

/-! ## 1. The calls -/

/-- The loops that write: they handle one table after the other, and end at the first one that answers
false or throws. -/
def eachTable (body : Table → Outcome Bool) : List Table → Outcomes Bool
  | [] => ⟨.ok true, []⟩
  | table :: tables =>
      match body table with
      | ⟨.ok true, table⟩ =>
          let rest := eachTable body tables
          ⟨rest.result, table :: rest.tables⟩
      | ⟨result, table⟩ => ⟨result, table :: tables⟩

/-- The checks of `commit`: there is a table, all have the same version, and the next one is above
it. -/
def mayCommit (tables : List Table) (nextVersion : UInt32) : Bool :=
  match tables with
  | [] => false
  | first :: rest =>
      rest.all (fun table ↦ table.state.currentVersion = first.state.currentVersion) &&
        !decide (nextVersion ≤ first.state.currentVersion)

def commit (tables : List Table) (nextVersion : UInt32) : Outcomes Bool :=
  if mayCommit tables nextVersion then eachTable (·.outcome (.commit nextVersion)) tables
  else ⟨.ok false, tables⟩

/-- The checks of `revert`. -/
def mayRevert (tables : List Table) (version : UInt32) : Bool :=
  !tables.isEmpty && tables.all fun table ↦ !decide (version > table.state.currentVersion)

def revert (tables : List Table) (version : UInt32) : Outcomes Bool :=
  if mayRevert tables version then eachTable (·.outcome (.revert version)) tables
  else ⟨.ok false, tables⟩

/-- The loop that `current_version` and `recover` share. -/
def leastVersion (tables : List Table) : UInt32 :=
  tables.foldl (fun version table ↦
    if table.state.currentVersion < version then table.state.currentVersion else version) Limits.maxVersion

def currentVersion (tables : List Table) : UInt32 := if tables.isEmpty then 0 else leastVersion tables

/-- The body of the second loop of `recover`, where the result of a revert is not looked at. -/
def recoverTable (version : UInt32) (table : Table) : Outcome Bool :=
  if table.state.currentVersion > version then
    let o := table.outcome (.revert version)
    ⟨o.result.map fun _ ↦ true, o.table⟩
  else ⟨.ok true, table⟩

def recover (tables : List Table) : Outcomes UInt32 :=
  if tables.isEmpty then ⟨.ok 0, tables⟩
  else
    let version := leastVersion tables
    let o := eachTable (recoverTable version) tables
    ⟨o.result.map fun _ ↦ version, o.tables⟩

/-! ## 2. Where the process stops -/

/-- A call that the process stops in has handled some tables, one after the other.  Inside an insertion
or inside the commit of the next table, `fault` is the last operation on a file. -/
inductive Stop where
  | idle
  | insert (table : Nat) (key value : Bytes) (n written : Nat)
  | commit (version : UInt32) (handled : Nat) (fault : Option (Nat × Nat))
  | revert (version : UInt32) (handled : Nat)
  | recover (handled : Nat)
deriving DecidableEq

/-- The loop has handled the first tables. -/
def handle (body : Table → Outcome Bool) (handled : Nat) (tables : List Table) : List Table :=
  (eachTable body (tables.take handled)).tables ++ tables.drop handled

/-- The next table of a commit, where the process stops inside the table's own commit. -/
def tear (version : UInt32) (fault : Option (Nat × Nat)) (table : Table) : Table :=
  match fault with
  | none => table
  | some (n, written) => (table.call (.change n written) (Call.run (.commit version))).table

def stopped (tables : List Table) : Stop → List Table
  | .idle => tables
  | .insert i key value n written =>
      tables.modify i fun table ↦ (table.call (.change n written) (Call.run (.insert key value))).table
  | .commit version handled fault =>
      if mayCommit tables version then
        (handle (·.outcome (.commit version)) handled tables).modify handled (tear version fault)
      else tables
  | .revert version handled =>
      if mayRevert tables version then handle (·.outcome (.revert version)) handled tables else tables
  | .recover handled => handle (recoverTable (leastVersion tables)) handled tables

/-! ## 3. Runs -/

/-- The files that a stop leaves of one table. -/
structure Files where
  data : Bytes
  index : Bytes
deriving DecidableEq

/-- Opens a table on its files. -/
def Files.open (files : Files) : Outcome Unit := Table.reopened files.data files.index

/-- What happens to a database; `restart` stops the process and opens all tables again. -/
inductive Action where
  | insert (table : Nat) (key value : Bytes)
  | commit (version : UInt32)
  | revert (version : UInt32)
  | recover
  | restart (stop : Stop) (left : List Files)
deriving DecidableEq

def step (tables : List Table) : Action → List Table
  | .insert i key value => tables.modify i (·.step (.insert key value))
  | .commit version => (commit tables version).tables
  | .revert version => (revert tables version).tables
  | .recover => (recover tables).tables
  | .restart _ left => left.map fun files ↦ files.open.table

/-- The tables that a stopped call has handled met no I/O error. -/
def Stop.Clean (tables : List Table) : Stop → Prop
  | .commit version handled _ =>
      (eachTable (·.outcome (.commit version)) (tables.take handled)).result ≠ .error .io
  | _ => True

/-- No call meets an I/O error, and a stop leaves of every file what a crash can leave. -/
def Allowed (tables : List Table) : Action → Prop
  | .insert i key value => ∀ table, tables[i]? = some table → NoIoError table (.insert key value)
  | .commit version => (commit tables version).result ≠ .error .io
  | .revert _ => True
  | .recover => True
  | .restart stop left => stop.Clean tables ∧
      List.Forall₂ (fun table files ↦ table.dataLog.Image files.data ∧ table.indexLog.Image files.index)
        (stopped tables stop) left

instance decidableForallEqSome {α : Type} (o : Option α) (p : α → Prop) [DecidablePred p] :
    Decidable (∀ a, o = some a → p a) :=
  decidable_of_iff (∀ a ∈ o.toList, p a) (by simp)

/-- The files as they are: what a process that stops leaves when the machine goes on. -/
def present (tables : List Table) : List Files := tables.map fun table ↦ ⟨table.dataLog.content, table.indexLog.content⟩

theorem present_left (tables : List Table) :
    List.Forall₂ (fun table files ↦ table.dataLog.Image files.data ∧ table.indexLog.Image files.index)
      tables (present tables) := by
  rw [present, List.forall₂_map_right_iff, List.forall₂_same]
  exact fun table _ ↦ ⟨DurableFile.image_content _, DurableFile.image_content _⟩

/-! ## 4. The database as one store -/

/-- What the tables answer. -/
abbrev Views := Nat → View

def views (tables : List Table) : Views := fun i ↦
  match tables[i]? with
  | some table => table.view
  | none => emptyView

/-- All tables empty. -/
def creation : Views := fun _ ↦ emptyView

/-- The commits of the whole database.  Where the process stops, a commit counts once the last table has
it, and a revert once the first one has. -/
def history (marks : List (Mark Views)) (tables : List Table) (a : Action) : List (Mark Views) :=
  match a with
  | .insert _ _ _ => marks
  | .commit version =>
      if (commit tables version).result = .ok true then
        marks ++ [⟨version, views tables, views (commit tables version).tables⟩]
      else marks
  | .revert version =>
      if (revert tables version).result = .ok true then Mark.rewind creation version marks else marks
  | .recover => marks
  | .restart (.commit version _ _) left =>
      if mayCommit tables version ∧ ∀ files ∈ left, files.open.table.state.currentVersion = version then
        marks ++ [⟨version, views tables, views tables⟩]
      else marks
  | .restart (.revert version handled) _ =>
      if mayRevert tables version ∧ 0 < handled then Mark.rewind creation version marks else marks
  | .restart _ _ => marks

end Database

end Stainless.Kvstore
