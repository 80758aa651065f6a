import Stainless.Kvstore.Handle

/-!
# RawTable

Insert, commit, revert, recovery and the reads of the byte-oriented table, statement by statement.
A `for` loop of the source that advances an offset is a recursion with a step budget; the budget
passed is the length of the file, and every iteration consumes at least one record.
-/

open Reasoning Stainless.Runtime

namespace Stainless.Kvstore

def readIndexRecordAt (start fileLen : Nat) : TableM Bytes := do
  throwIf (start > fileLen ∨ fileLen - start < 4)
    (.indexCorrupt "truncated index WAL record header")
  let recordSize ← liftExcept (decodeU32At (← preadExact .index start 4) 0)
  throwIf (recordSize < 21 ∨ recordSize > fileLen - start)
    (.indexCorrupt "invalid index WAL record size")
  let record ← preadExact .index start recordSize
  let framedSize ← liftExcept (decodeU32At record 0)
  throwIf (framedSize ≠ recordSize) (.indexCorrupt "invalid index WAL record framing")
  let checksumOffset := record.length - 4
  let expectedChecksum ← liftExcept (decodeU32At record checksumOffset)
  throwIf (recordChecksumRange record 4 checksumOffset ≠ expectedChecksum)
    (.indexCorrupt "index WAL checksum mismatch")
  return record

namespace RawTable

/-! ## Insert and commit -/

def insert (key value : Bytes) : TableM Unit := do
  throwIf (value.length > Limits.maxValueLength)
    (.valueTooLarge "encoded value exceeds the u32 length limit")
  let guard := (← get).state
  let version := guard.currentVersion
  let dataRecord ← liftExcept (makeDataRecord version key value)
  let offset := guard.dataLen + 21 + key.length
  let dataLen := guard.dataLen + dataRecord.length
  let record : InsertRecord := { version, offset, length := value.length, key }
  let indexRecord ← liftExcept record.write
  pwriteAll .data guard.dataLen dataRecord
  pwriteAll .index guard.indexLen indexRecord
  modifyState fun g ↦ { g with
    dataLen := dataLen
    indexLen := g.indexLen + indexRecord.length
    index := g.index.insert (record.key, record.version) ⟨record.offset, record.length⟩ }

def commit (nextVersion : UInt32) : TableM Bool := do
  let guard := (← get).state
  if nextVersion < guard.currentVersion then
    return false
  let record := CommitRecord.write { version := nextVersion, dataLen := guard.dataLen }
  let versionOffset := guard.indexLen
  setLen .data guard.dataLen
  syncData .data
  setLen .index guard.indexLen
  pwriteAll .index guard.indexLen record
  modifyState fun g ↦ { g with indexLen := g.indexLen + record.length }
  setLen .index (guard.indexLen + record.length)
  syncData .index
  modifyState fun g ↦ { g with
    versionIndex := g.versionIndex.insert nextVersion versionOffset
    currentVersion := nextVersion }
  return true

/-! ## Revert -/

/-- What the scan of the discarded suffix collects. -/
structure Discarded where
  removed : List IndexKey
  removedVersions : List UInt32

/-- Adds one record of the suffix. -/
def discardRecord (found : Discarded) (record : Bytes) : Except TableError Discarded := do
  match ← indexRecordKind record with
  | .insert =>
      let insert ← InsertRecord.read record
      return { found with removed := found.removed ++ [(insert.key, insert.version)] }
  | .commit =>
      let commit ← CommitRecord.read record
      return { found with removedVersions := found.removedVersions ++ [commit.version] }

def scanDiscarded (indexLen : Nat) : Nat → Nat → Discarded → TableM Discarded
  | 0, _, found => return found
  | budget + 1, scanOffset, found =>
      if scanOffset < indexLen then do
        let record ← readIndexRecordAt scanOffset indexLen
        let found ← liftExcept (discardRecord found record)
        scanDiscarded indexLen budget (scanOffset + record.length) found
      else
        return found

/-- The offset that `version_index` gives for a version: its own, or that of the least successor. -/
def markerOffset (guard : StoreState) (version : UInt32) : Except TableError Nat :=
  match guard.versionIndex[version]? with
  | some offset => .ok offset
  | none =>
      match guard.versionIndex.withFirstInRange version Limits.maxVersion with
      | some (_, offset) => .ok offset
      | none => .error (.indexCorrupt "missing successor version offset")

/-- The boundary of `version` in the index WAL and the data-WAL length committed there. -/
def revertBoundary (guard : StoreState) (version : UInt32) : TableM (Nat × Nat) := do
  let exactVersion := guard.versionIndex[version]?.isSome
  let markerOffset ← liftExcept (markerOffset guard version)
  if version ≠ 0 ∨ ¬exactVersion then
    let markerBytes ← readIndexRecordAt markerOffset guard.indexLen
    let marker ← liftExcept (CommitRecord.read markerBytes)
    throwIf (exactVersion ∧ marker.version ≠ version ∨ ¬exactVersion ∧ marker.version ≤ version)
      (.indexCorrupt "invalid indexed commit marker")
    return (if exactVersion then markerOffset + markerBytes.length else markerOffset,
      marker.dataLen)
  else
    return (0, 0)

/-- The guarded state when the suffix behind `boundary` is gone. -/
def revertState (version : UInt32) (exactVersion : Bool) (boundary dataLen newIndexLen : Nat)
    (found : Discarded) (g : StoreState) : StoreState :=
  let versionIndex := found.removedVersions.foldl (fun m v ↦ m.erase v) g.versionIndex
  { index := found.removed.foldl (fun m k ↦ m.erase k) g.index
    versionIndex := if exactVersion then versionIndex else versionIndex.insert version boundary
    currentVersion := version
    dataLen := dataLen
    indexLen := newIndexLen }

def revert (version : UInt32) : TableM Bool := do
  let guard := (← get).state
  if version > guard.currentVersion then
    return false
  let exactVersion := guard.versionIndex[version]?.isSome
  let (boundary, dataLen) ← revertBoundary guard version
  let found ← scanDiscarded guard.indexLen guard.indexLen boundary ⟨[], []⟩
  setLen .index boundary
  let marker := CommitRecord.write { version, dataLen }
  let newIndexLen := if exactVersion then boundary else boundary + marker.length
  if ¬exactVersion then
    pwriteAll .index boundary marker
    setLen .index newIndexLen
  syncData .index
  modifyState (revertState version exactVersion boundary dataLen newIndexLen found)
  setLen .data dataLen
  syncData .data
  return true

/-! ## Recovery -/

structure PendingIndexEntry where
  key : Bytes
  version : UInt32
  previous : Option IndexEntry

/-- The local variables of `recover`. -/
structure Recovery where
  offset : Nat
  committedIndexLen : Nat
  committedDataLen : Nat
  committedVersion : UInt32
  working : Index
  recoveredVersionIndex : VersionIndex
  pending : List PendingIndexEntry

def Recovery.start : Recovery where
  offset := 0
  committedIndexLen := 0
  committedDataLen := 0
  committedVersion := 0
  working := ∅
  recoveredVersionIndex := (∅ : VersionIndex).insert 0 0
  pending := []

/-- What the replay loop does with the bytes of one record; `none` is a `break`. -/
def replayRecord (overflowChecks : Bool) (dataFileLen : Nat) (r : Recovery) (record : Bytes) :
    Except TableError (Option Recovery) := do
  let nextOffset := r.offset + record.length
  match ← indexRecordKind record with
  | .insert =>
      let insert ← InsertRecord.readChecked overflowChecks record
      if insert.offset > dataFileLen ∨ insert.length > dataFileLen - insert.offset then
        return none
      else
        let indexKey : IndexKey := (insert.key, insert.version)
        return some { r with
          pending := r.pending ++ [⟨insert.key, insert.version, r.working[indexKey]?⟩]
          working := r.working.insert indexKey ⟨insert.offset, insert.length⟩
          offset := nextOffset }
  | .commit =>
      let commit ← CommitRecord.read record
      if commit.dataLen > dataFileLen then
        return none
      else
        return some { r with
          pending := []
          recoveredVersionIndex := r.recoveredVersionIndex.insert commit.version r.offset
          committedVersion := commit.version
          committedDataLen := commit.dataLen
          committedIndexLen := nextOffset
          offset := nextOffset }

/-- `catch (const IndexCorrupt&) { break; }` -/
def breakOnCorrupt {α : Type} (m : TableM (Option α)) : TableM (Option α) := fun h ↦
  match m h with
  | .error (.indexCorrupt _) h => .ok none h
  | result => result

def recoverLoop (overflowChecks : Bool) (dataFileLen indexFileLen : Nat) : Nat → Recovery → TableM Recovery
  | 0, r => return r
  | budget + 1, r =>
      if r.offset < indexFileLen then do
        let next ← breakOnCorrupt do
          let record ← readIndexRecordAt r.offset indexFileLen
          liftExcept (replayRecord overflowChecks dataFileLen r record)
        match next with
        | some next => recoverLoop overflowChecks dataFileLen indexFileLen budget next
        | none => return r
      else
        return r

/-- Takes back one insertion of an uncommitted record. -/
def undoPending (entry : PendingIndexEntry) (working : Index) : Index :=
  match entry.previous with
  | some previous => working.insert (entry.key, entry.version) previous
  | none => working.erase (entry.key, entry.version)

/-- `recover` as built with or without overflow checks. -/
def recoverChecked (overflowChecks : Bool) : TableM Unit := do
  let dataFileLen ← fileLen .data
  let indexFileLen ← fileLen .index
  let r ← recoverLoop overflowChecks dataFileLen indexFileLen indexFileLen .start
  let working := r.pending.foldr undoPending r.working
  if indexFileLen ≠ r.committedIndexLen then
    setLen .index r.committedIndexLen
    syncData .index
  if dataFileLen ≠ r.committedDataLen then
    setLen .data r.committedDataLen
    syncData .data
  modifyState fun _ ↦
    { index := working
      versionIndex := r.recoveredVersionIndex
      currentVersion := r.committedVersion
      dataLen := r.committedDataLen
      indexLen := r.committedIndexLen }

def recover : TableM Unit := recoverChecked false

/-! ## Reads -/

def find (key : Bytes) : TableM (Option Bytes) := do
  let guard := (← get).state
  match guard.index.withLastInRange (key, 0) (key, guard.currentVersion) with
  | none => return none
  | some (_, location) => return some (← preadExact .data location.offset location.length)

def readKeyValues : List (Bytes × IndexEntry) → TableM (List (Bytes × Bytes))
  | [] => return []
  | entry :: entries => do
      let value ← preadExact .data entry.2.offset entry.2.length
      return (entry.1, value) :: (← readKeyValues entries)

/-- The coalescing callback of `find_range`: the entries pushed so far and the candidate. -/
def coalesce (acc : List (Bytes × IndexEntry) × Option (Bytes × IndexEntry))
    (entry : IndexKey × IndexEntry) : List (Bytes × IndexEntry) × Option (Bytes × IndexEntry) :=
  match acc.2 with
  | none => (acc.1, some (entry.1.1, entry.2))
  | some candidate =>
      if candidate.1 ≠ entry.1.1 then (acc.1 ++ [candidate], some (entry.1.1, entry.2))
      else (acc.1, some (candidate.1, entry.2))

def findRange (lower upper : Bytes) : TableM (List (Bytes × Bytes)) := do
  let guard := (← get).state
  let acc := (guard.index.withRange (lower, 0) (upper, guard.currentVersion)).foldl coalesce ([], none)
  readKeyValues (acc.1 ++ acc.2.toList)

/-- The predecessor walk of `find_range_last`, for at most `count` more keys. -/
def rangeLastEntries (index : Index) (indexLower : IndexKey) :
    Nat → Bool → IndexKey → List (Bytes × IndexEntry)
  | 0, _, _ => []
  | count + 1, includeUpper, indexUpper =>
      let found := if includeUpper then index.withLastInRange indexLower indexUpper
        else index.withLastBefore indexLower indexUpper
      match found with
      | none => []
      | some (indexKey, location) =>
          (indexKey.1, location) :: rangeLastEntries index indexLower count false (indexKey.1, 0)

def findRangeLast (lower upper : Bytes) (count : Nat) : TableM (List (Bytes × Bytes)) := do
  let guard := (← get).state
  readKeyValues
    (rangeLastEntries guard.index (lower, 0) count true (upper, guard.currentVersion))

/-- The successor walk of `find_range_first`, for at most `count` more keys. -/
def rangeFirstEntries (index : Index) (currentVersion : UInt32) (indexUpper : IndexKey) :
    Nat → Bool → IndexKey → List (Bytes × IndexEntry)
  | 0, _, _ => []
  | count + 1, includeLower, indexLower =>
      let found := if includeLower then index.withFirstInRange indexLower indexUpper
        else index.withFirstAfter indexLower indexUpper
      match found with
      | none => []
      | some (indexKey, _) =>
          match index.withLastInRange (indexKey.1, 0) (indexKey.1, currentVersion) with
          | none => []
          | some (_, location) =>
              (indexKey.1, location) ::
                rangeFirstEntries index currentVersion indexUpper count false
                  (indexKey.1, currentVersion)

def findRangeFirst (lower upper : Bytes) (count : Nat) : TableM (List (Bytes × Bytes)) := do
  let guard := (← get).state
  readKeyValues (rangeFirstEntries guard.index guard.currentVersion
    (upper, guard.currentVersion) count true (lower, 0))

end RawTable

/-! ## Calls on a table -/

/-- What a call leaves: its result and the table. -/
structure Outcome (α : Type) where
  result : Except TableError α
  table : Table

/-- Runs a call on a table, with an I/O error at `fault`. -/
def Table.call {α : Type} (t : Table) (fault : Fault) (m : TableM α) : Outcome α :=
  match m ⟨t, fault⟩ with
  | .ok a h => ⟨.ok a, h.toTable⟩
  | .error e h => ⟨.error e, h.toTable⟩

/-- The constructor: opens the two files and recovers. -/
def Table.open (dataFile indexFile : DurableFile) (fault : Fault) : Outcome Unit :=
  Table.call ⟨dataFile, indexFile, initialState⟩ fault RawTable.recover

end Stainless.Kvstore
