import Stainless.Kvstore.Record
import Stainless.Reasoning.DurableFile
import Stainless.Runtime.OrderedMap

/-!
# Open tables

A table is its two WAL files and the guarded state.  A call runs on an open handle, which also says
at which file operation an I/O error happens, if at any.  Changes made before an exception stay made,
as they do under the write guard of the source.
-/

open Reasoning Stainless.Runtime

namespace Stainless.Kvstore

structure IndexEntry where
  offset : Nat
  length : Nat
  deriving DecidableEq, Repr

/-- A logical key and the version it was written at. -/
abbrev IndexKey := Bytes × UInt32

instance : Ord IndexKey := lexOrd

instance IndexKey.transOrd : Std.TransOrd IndexKey := Std.instTransOrdProd

abbrev Index := OrderedMap IndexKey IndexEntry

abbrev VersionIndex := OrderedMap UInt32 Nat

def Limits.maxValueLength : Nat := 4294967295

def Limits.maxVersion : UInt32 := 4294967295

structure StoreState where
  index : Index
  versionIndex : VersionIndex
  currentVersion : UInt32
  dataLen : Nat
  indexLen : Nat

def initialState : StoreState where
  index := ∅
  versionIndex := (∅ : VersionIndex).insert 0 0
  currentVersion := 0
  dataLen := 0
  indexLen := 0

structure Table where
  dataLog : DurableFile
  indexLog : DurableFile
  state : StoreState

/-- The two files of a table. -/
inductive Wal where
  | data
  | index
  deriving DecidableEq, Repr

def Table.log (t : Table) : Wal → DurableFile
  | .data => t.dataLog
  | .index => t.indexLog

def Table.setLog (t : Table) (wal : Wal) (f : DurableFile) : Table :=
  match wal with
  | .data => { t with dataLog := f }
  | .index => { t with indexLog := f }

/-- The one file operation of a call that fails: the read or the change with this number.  A failing
write leaves its first `written` bytes in the file; a failing `set_len` or sync changes nothing. -/
inductive Fault where
  | none
  | read (n : Nat)
  | change (n written : Nat)
  deriving DecidableEq, Repr

structure Handle extends Table where
  fault : Fault

abbrev TableM := EStateM TableError Handle

/-! ## File operations -/

/-- File offsets are signed 64-bit numbers of the operating system. -/
def maxFileLen : Nat := 2 ^ 63 - 1

/-- Accounts for one read operation. -/
def readOp : TableM Unit := fun h ↦
  match h.fault with
  | .read 0 => .error .io { h with fault := .none }
  | .read (n + 1) => .ok () { h with fault := .read n }
  | _ => .ok () h

def fileLen (wal : Wal) : TableM Nat := do
  readOp
  return ((← get).log wal).content.length

def preadExact (wal : Wal) (offset length : Nat) : TableM Bytes := do
  if length = 0 then
    return []
  readOp
  let content := ((← get).log wal).content
  if offset + length ≤ content.length then
    return slice content offset length
  throw .io

/-- Runs one changing operation: `done` is the file afterwards, `failed written` the file a failure
leaves. -/
def changeOp (wal : Wal) (done : DurableFile → DurableFile)
    (failed : Nat → DurableFile → DurableFile) : TableM Unit := fun h ↦
  match h.fault with
  | .change 0 written =>
      .error .io ⟨h.toTable.setLog wal (failed written (h.log wal)), .none⟩
  | .change (n + 1) written =>
      .ok () ⟨h.toTable.setLog wal (done (h.log wal)), .change n written⟩
  | fault => .ok () ⟨h.toTable.setLog wal (done (h.log wal)), fault⟩

/-- A write past the greatest file offset stores what fits and fails. -/
def pwriteAll (wal : Wal) (offset : Nat) (bytes : Bytes) : TableM Unit := do
  if bytes = [] then
    return
  else
    let fits := bytes.take (maxFileLen - offset)
    changeOp wal (fun f ↦ f.issue (.write offset fits))
      (fun written f ↦ f.issue (.write offset (fits.take written)))
    throwIf (maxFileLen < offset + bytes.length) .io

def setLen (wal : Wal) (size : Nat) : TableM Unit := do
  throwIf (maxFileLen < size) .io
  changeOp wal (fun f ↦ f.issue (.resize size)) (fun _ f ↦ f)

def syncData (wal : Wal) : TableM Unit :=
  changeOp wal DurableFile.sync (fun _ f ↦ f)

def modifyState (f : StoreState → StoreState) : TableM Unit :=
  modify fun h ↦ { h with state := f h.state }

def liftExcept {α : Type} : Except TableError α → TableM α
  | .ok a => pure a
  | .error e => throw e

end Stainless.Kvstore
