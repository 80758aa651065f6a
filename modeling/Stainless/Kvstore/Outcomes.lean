import Stainless.Kvstore.Ensures
import Stainless.Kvstore.Log

/-!
# Outcomes

Everything that `insert`, `commit` and `revert` can leave behind, wherever a file operation fails.
-/

open Reasoning Stainless.Runtime

namespace Stainless.Kvstore

/-! ## Insert -/

/-- The index record that `insert` writes. -/
def Table.newRecord (t : Table) (key value : Bytes) : InsertRecord where
  version := t.state.currentVersion
  offset := t.state.dataLen + 21 + key.length
  length := value.length
  key := key

inductive InsertOutcome (t : Table) (key value : Bytes) : Except TableError Unit → Table → Prop
  | refused (e : TableError) : InsertOutcome t key value (.error e) t
  | dataFailed (part : Bytes) (hfits : part.length ≤ maxFileLen - t.state.dataLen) :
      InsertOutcome t key value (.error .io)
        { t with dataLog := t.dataLog.issue (.write t.state.dataLen part) }
  | indexFailed {bytes : Bytes} (part : Bytes)
      (hbytes : makeDataRecord t.state.currentVersion key value = .ok bytes)
      (hdata : t.state.dataLen + bytes.length ≤ maxFileLen)
      (hkey : 33 + key.length < 2 ^ 32)
      (hpart : part <+: (IndexRecord.insert (t.newRecord key value)).encode)
      (hfits : part.length ≤ maxFileLen - t.state.indexLen) :
      InsertOutcome t key value (.error .io)
        { t with
          dataLog := t.dataLog.issue (.write t.state.dataLen bytes)
          indexLog := t.indexLog.issue (.write t.state.indexLen part) }
  | done {bytes : Bytes}
      (hbytes : makeDataRecord t.state.currentVersion key value = .ok bytes)
      (hdata : t.state.dataLen + bytes.length ≤ maxFileLen)
      (hkey : 33 + key.length < 2 ^ 32)
      (hindex : t.state.indexLen + (33 + key.length) ≤ maxFileLen) :
      InsertOutcome t key value (.ok ())
        { dataLog := t.dataLog.issue (.write t.state.dataLen bytes)
          indexLog := t.indexLog.issue
            (.write t.state.indexLen (IndexRecord.insert (t.newRecord key value)).encode)
          state := { t.state with
            dataLen := t.state.dataLen + bytes.length
            indexLen := t.state.indexLen + (33 + key.length)
            index := t.state.index.insert (key, t.state.currentVersion)
              ⟨t.state.dataLen + 21 + key.length, value.length⟩ } }

theorem encode_ne_nil (r : IndexRecord) : r.encode ≠ [] := by
  intro h
  have hlen := r.encode_length
  have hpos := r.size_pos
  rw [h, List.length_nil] at hlen
  omega

theorem insert_outcome (h : Handle) (key value : Bytes) :
    Ensures h (RawTable.insert key value)
      fun r h' ↦ InsertOutcome h.toTable key value r h'.toTable := by
  unfold RawTable.insert
  refine .bind (.throwIf (fun _ ↦ .get ?_) fun _ ↦ .refused _)
  dsimp only
  refine .bind (.liftExcept ?_)
  cases hbytes : makeDataRecord h.state.currentVersion key value with
  | error e => exact .refused e
  | ok bytes =>
      have hlen := IndexRecord.encode_length (.insert (h.newRecord key value))
      have hbytesLen := (makeDataRecord_ok hbytes).1
      simp only [Table.newRecord, IndexRecord.size] at hlen
      by_cases hkey : 33 + key.length < 2 ^ 32
      · have hwrite := (InsertRecord.write_eq (h.newRecord key value)).trans (if_pos hkey)
        simp only [Table.newRecord] at hwrite
        simp only [hwrite]
        refine .bind (.liftExcept (.bind (.pwriteAll (by rintro rfl; rw [List.length_nil] at hbytesLen; omega)
          (fun fault hf hdata ↦ ?_) ?_)))
        · refine .bind (.pwriteAll (encode_ne_nil _) (fun fault hf hindex ↦ ?_) ?_)
          · have hdone := InsertOutcome.done (t := h.toTable) hbytes hdata hkey
              (by simpa [hlen] using hindex)
            refine .modifyState ?_
            simpa [Table.setLog, Table.log, Table.newRecord, hlen] using hdone
          · intro part h' hpart hfits _ ht
            dsimp only
            rw [ht]
            exact .indexFailed part hbytes hdata hkey hpart hfits
        · intro part h' _ hfits _ ht
          dsimp only
          rw [ht]
          exact .dataFailed part hfits
      · have hwrite := (InsertRecord.write_eq (h.newRecord key value)).trans (if_neg hkey)
        simp only [Table.newRecord] at hwrite
        simp only [hwrite]
        exact .bind (.liftExcept (.refused .io))

/-! ## Commit -/

/-- The marker that `commit` writes. -/
def Table.newMarker (t : Table) (version : UInt32) : IndexRecord := .commit ⟨version, t.state.dataLen⟩

/-- The data WAL once `commit` has made it durable. -/
def Table.committedData (t : Table) : DurableFile :=
  (t.dataLog.issue (.resize t.state.dataLen)).sync

/-- The index WAL when `commit` has cut it at its tracked length. -/
def Table.cutIndex (t : Table) : DurableFile := t.indexLog.issue (.resize t.state.indexLen)

/-- The index WAL when `commit` has written its marker. -/
def Table.markedIndex (t : Table) (version : UInt32) : DurableFile :=
  t.cutIndex.issue (.write t.state.indexLen (t.newMarker version).encode)

inductive CommitOutcome (t : Table) (version : UInt32) (fault : Fault) :
    Except TableError Bool → Table → Prop
  | refused (h : version < t.state.currentVersion) : CommitOutcome t version fault (.ok false) t
  | dataFailed {f : DurableFile}
      (hf : f = t.dataLog ∨ f = t.dataLog.issue (.resize t.state.dataLen)) :
      CommitOutcome t version fault (.error .io) { t with dataLog := f }
  | indexFailed {f : DurableFile} (hversion : t.state.currentVersion ≤ version)
      (hf : f = t.indexLog ∨ f = t.cutIndex ∨
        ∃ part, part <+: (t.newMarker version).encode ∧
          part.length ≤ maxFileLen - t.state.indexLen ∧
          f = t.cutIndex.issue (.write t.state.indexLen part)) :
      CommitOutcome t version fault (.error .io) { t with dataLog := t.committedData, indexLog := f }
  | unsynced {f : DurableFile}
      (hversion : t.state.currentVersion ≤ version)
      (hdata : t.state.dataLen ≤ maxFileLen)
      (hindex : t.state.indexLen + 21 ≤ maxFileLen)
      (hf : f = t.markedIndex version ∨
        f = (t.markedIndex version).issue (.resize (t.state.indexLen + 21)))
      (hfault : ∃ written, fault = .change 4 written ∨ fault = .change 5 written) :
      CommitOutcome t version fault (.error .io)
        { dataLog := t.committedData, indexLog := f
          state := { t.state with indexLen := t.state.indexLen + 21 } }
  | done
      (hversion : t.state.currentVersion ≤ version)
      (hdata : t.state.dataLen ≤ maxFileLen)
      (hindex : t.state.indexLen + 21 ≤ maxFileLen) :
      CommitOutcome t version fault (.ok true)
        { dataLog := t.committedData
          indexLog := ((t.markedIndex version).issue (.resize (t.state.indexLen + 21))).sync
          state := { t.state with
            indexLen := t.state.indexLen + 21
            versionIndex := t.state.versionIndex.insert version t.state.indexLen
            currentVersion := version } }

theorem commit_outcome (h : Handle) (version : UInt32) :
    Ensures h (RawTable.commit version)
      fun r h' ↦ CommitOutcome h.toTable version h.fault r h'.toTable := by
  unfold RawTable.commit
  refine .get ?_
  dsimp only
  split
  · rename_i hversion
    exact .pure (.refused hversion)
  rename_i hversion
  have hle : h.state.currentVersion ≤ version := UInt32.not_lt.mp hversion
  have hmarker := CommitRecord.write_eq ⟨version, h.state.dataLen⟩
  have hlen : (CommitRecord.write ⟨version, h.state.dataLen⟩).length = 21 := by
    rw [hmarker, IndexRecord.encode_length, IndexRecord.size]
  refine .bind (.setLen (fun fault₁ hf₁ hdata ↦ ?_) (fun _ ↦ .dataFailed (.inl rfl))
    fun _ _ ↦ .dataFailed (.inl rfl))
  refine .bind (.syncData (fun fault₂ hf₂ ↦ ?_) fun _ _ ↦ .dataFailed (.inr rfl))
  change fault₁ = fault₂.later at hf₂
  subst hf₂
  refine .bind (.setLen (fun fault₃ hf₃ _ ↦ ?_) (fun _ ↦ .indexFailed hle (.inl rfl))
    fun _ _ ↦ .indexFailed hle (.inl rfl))
  change fault₂ = fault₃.later at hf₃
  subst hf₃
  refine .bind (.pwriteAll (by rw [hmarker]; exact encode_ne_nil _) (fun fault₄ hf₄ hindex ↦ ?_) ?_)
  · change fault₃ = fault₄.later at hf₄
    subst hf₄
    rw [hlen] at hindex
    refine .bind (.modifyState ?_)
    simp only [hlen]
    refine .bind (.setLen (fun fault₅ hf₅ _ ↦ ?_) (fun hlong ↦ by omega) fun written hw ↦ ?_)
    · change fault₄ = fault₅.later at hf₅
      subst hf₅
      refine .bind (.syncData (fun fault₆ _ ↦ ?_) fun written hw ↦ ?_)
      · refine .bind (.modifyState (.pure ?_))
        have hdone : CommitOutcome h.toTable version h.fault _ _ := .done hle hdata hindex
        rw [Table.markedIndex, Table.newMarker, ← hmarker] at hdone
        exact hdone
      · change fault₅ = .change 0 written at hw
        subst hw
        have hfail := CommitOutcome.unsynced (t := h.toTable) hle hdata hindex (.inr rfl)
          ⟨written, .inr hf₁⟩
        rw [Table.markedIndex, Table.newMarker, ← hmarker] at hfail
        exact hfail
    · change fault₄ = .change 0 written at hw
      subst hw
      have hfail := CommitOutcome.unsynced (t := h.toTable) hle hdata hindex (.inl rfl)
        ⟨written, .inl hf₁⟩
      rw [Table.markedIndex, Table.newMarker, ← hmarker] at hfail
      exact hfail
  · intro part h' hpart hfits _ ht
    dsimp only
    rw [ht]
    rw [hmarker] at hpart
    exact .indexFailed hle (.inr (.inr ⟨part, hpart, hfits, rfl⟩))

/-- A commit that fits the files and meets no failure returns true. -/
theorem commit_succeeds (t : Table) {version : UInt32} (hversion : t.state.currentVersion ≤ version)
    (hdata : t.state.dataLen ≤ maxFileLen) (hindex : t.state.indexLen + 21 ≤ maxFileLen) :
    (t.call .none (RawTable.commit version)).result = .ok true := by
  have hlen : (CommitRecord.write ⟨version, t.state.dataLen⟩).length = 21 := by
    rw [CommitRecord.write_eq, IndexRecord.encode_length, IndexRecord.size]
  have hne : CommitRecord.write ⟨version, t.state.dataLen⟩ ≠ [] := by
    rw [CommitRecord.write_eq]
    exact encode_ne_nil _
  refine Ensures.call (Q := fun r _ ↦ r = .ok true) ?_
  unfold RawTable.commit
  refine .get (.ite (fun hlt ↦ absurd hversion (UInt32.not_le.mpr hlt)) fun _ ↦ ?_)
  dsimp only
  rw [← hlen] at hindex
  exact .bind (.setLen_none hdata (.bind (.syncData_none (.bind (.setLen_none (by omega)
    (.bind (.pwriteAll_none hne hindex (.bind (.modifyState (.bind (.setLen_none hindex
    (.bind (.syncData_none (.bind (.modifyState (.pure rfl))))))))))))))))

/-! ## Revert -/

namespace RawTable

/-- `revertBoundary` as a function of the content. -/
def boundaryContent (content : Bytes) (guard : StoreState) (version : UInt32) :
    Except TableError (Nat × Nat) := do
  let exactVersion := guard.versionIndex[version]?.isSome
  let markerOffset ← markerOffset guard version
  if version ≠ 0 ∨ ¬exactVersion then
    let markerBytes ← recordAt content markerOffset guard.indexLen
    let marker ← CommitRecord.read markerBytes
    throwIf (exactVersion ∧ marker.version ≠ version ∨ ¬exactVersion ∧ marker.version ≤ version)
      (.indexCorrupt "invalid indexed commit marker")
    return (if exactVersion then markerOffset + markerBytes.length else markerOffset,
      marker.dataLen)
  else
    return (0, 0)

theorem revertBoundary_reads (guard : StoreState) (version : UInt32) :
    ReadsAs (revertBoundary guard version) fun t ↦
      boundaryContent t.indexLog.content guard version := by
  unfold revertBoundary boundaryContent
  refine .bind (.liftExcept _) fun markerOffset ↦ ?_
  split
  · exact .bind (readIndexRecordAt_reads _ _) fun _ ↦ .bind (.liftExcept _) fun _ ↦
      .bind (.throwIf _ _) fun _ ↦ .pure _
  · exact .pure _

/-- `scanDiscarded` as a function of the content. -/
def scanContent (content : Bytes) (indexLen : Nat) :
    Nat → Nat → Discarded → Except TableError Discarded
  | 0, _, found => return found
  | budget + 1, scanOffset, found =>
      if scanOffset < indexLen then do
        let record ← recordAt content scanOffset indexLen
        let found ← discardRecord found record
        scanContent content indexLen budget (scanOffset + record.length) found
      else
        return found

theorem scanDiscarded_reads (indexLen budget scanOffset : Nat) (found : Discarded) :
    ReadsAs (scanDiscarded indexLen budget scanOffset found) fun t ↦
      scanContent t.indexLog.content indexLen budget scanOffset found := by
  induction budget generalizing scanOffset found with
  | zero => exact .pure found
  | succ budget ih =>
      simp only [scanDiscarded, scanContent]
      split
      · exact .bind (readIndexRecordAt_reads _ _) fun _ ↦ .bind (.liftExcept _) fun _ ↦ ih _ _
      · exact .pure found

end RawTable

/-- What `revert` reads before it changes anything. -/
structure RevertPlan where
  boundary : Nat
  dataLen : Nat
  found : RawTable.Discarded

def Table.revertPlan (t : Table) (version : UInt32) : Except TableError RevertPlan := do
  let (boundary, dataLen) ← RawTable.boundaryContent t.indexLog.content t.state version
  let found ← RawTable.scanContent t.indexLog.content t.state.indexLen t.state.indexLen boundary
    ⟨[], []⟩
  return ⟨boundary, dataLen, found⟩

/-- The version has an entry of its own in the version index. -/
def Table.exact (t : Table) (version : UInt32) : Bool := t.state.versionIndex[version]?.isSome

def RevertPlan.marker (plan : RevertPlan) (version : UInt32) : IndexRecord :=
  .commit ⟨version, plan.dataLen⟩

/-- The state that `revert` installs. -/
def Table.revertedState (t : Table) (version : UInt32) (plan : RevertPlan) : StoreState :=
  RawTable.revertState version (t.exact version) plan.boundary plan.dataLen
    (if t.exact version then plan.boundary else plan.boundary + 21) plan.found t.state

/-- The index WAL while `revert` rewrites its end, before the sync. -/
inductive RevertFile (t : Table) (version : UInt32) (plan : RevertPlan) : DurableFile → Prop
  | cut : RevertFile t version plan (t.indexLog.issue (.resize plan.boundary))
  | marking (part : Bytes) (hexact : t.exact version = false)
      (hpart : part <+: (plan.marker version).encode)
      (hfits : part.length ≤ maxFileLen - plan.boundary) :
      RevertFile t version plan
        ((t.indexLog.issue (.resize plan.boundary)).issue (.write plan.boundary part))
  | marked (hexact : t.exact version = false) :
      RevertFile t version plan
        (((t.indexLog.issue (.resize plan.boundary)).issue
          (.write plan.boundary (plan.marker version).encode)).issue
          (.resize (plan.boundary + 21)))

/-- The index WAL with its new end, before the sync. -/
def Table.revertedIndex (t : Table) (version : UInt32) (plan : RevertPlan) : DurableFile :=
  if t.exact version then t.indexLog.issue (.resize plan.boundary)
  else ((t.indexLog.issue (.resize plan.boundary)).issue
    (.write plan.boundary (plan.marker version).encode)).issue (.resize (plan.boundary + 21))

/-- The number of changes `revert` makes to the index WAL, the sync among them. -/
def Table.revertChanges (t : Table) (version : UInt32) : Nat := if t.exact version then 2 else 4

inductive RevertOutcome (t : Table) (version : UInt32) (fault : Fault) :
    Except TableError Bool → Table → Prop
  | refused (h : t.state.currentVersion < version) : RevertOutcome t version fault (.ok false) t
  | unchanged (e : TableError) : RevertOutcome t version fault (.error e) t
  | cut {plan : RevertPlan} {f : DurableFile} (hplan : t.revertPlan version = .ok plan)
      (hversion : version ≤ t.state.currentVersion) (hf : RevertFile t version plan f)
      (hfault : (∃ n written, fault = .change n written ∧ 0 < n ∧ n < t.revertChanges version) ∨
        t.exact version = false ∧ maxFileLen < plan.boundary + 21) :
      RevertOutcome t version fault (.error .io) { t with indexLog := f }
  | dataFailed {plan : RevertPlan} {f : DurableFile} (hplan : t.revertPlan version = .ok plan)
      (hversion : version ≤ t.state.currentVersion) (hf : f = t.dataLog ∨ f = t.dataLog.issue (.resize plan.dataLen)) :
      RevertOutcome t version fault (.error .io)
        { dataLog := f, indexLog := (t.revertedIndex version plan).sync
          state := t.revertedState version plan }
  | done {plan : RevertPlan} (hplan : t.revertPlan version = .ok plan)
      (hversion : version ≤ t.state.currentVersion) :
      RevertOutcome t version fault (.ok true)
        { dataLog := (t.dataLog.issue (.resize plan.dataLen)).sync
          indexLog := (t.revertedIndex version plan).sync
          state := t.revertedState version plan }

/-- The end of `revert`: the state is installed, then the data WAL is cut and synced. -/
private theorem revert_end (h : Handle) (f : StoreState → StoreState) (dataLen : Nat) :
    Ensures h (do
      modifyState f
      setLen .data dataLen
      syncData .data
      return true) fun r h' ↦
        (r = .error .io ∧ ∃ d, (d = h.dataLog ∨ d = h.dataLog.issue (.resize dataLen)) ∧
          h'.toTable = { h.toTable with dataLog := d, state := f h.state }) ∨
        (r = .ok true ∧ h'.toTable = { h.toTable with
          dataLog := (h.dataLog.issue (.resize dataLen)).sync, state := f h.state }) := by
  refine .bind (.modifyState ?_)
  refine .bind (.setLen (fun _ _ _ ↦ ?_) (fun _ ↦ ?_) fun _ _ ↦ ?_)
  · refine .bind (.syncData (fun _ _ ↦ .pure (.inr ⟨rfl, rfl⟩)) fun _ _ ↦ ?_)
    exact .inl ⟨rfl, _, .inr rfl, rfl⟩
  · exact .inl ⟨rfl, _, .inl rfl, rfl⟩
  · exact .inl ⟨rfl, _, .inl rfl, rfl⟩

theorem revert_outcome (h : Handle) (version : UInt32) :
    Ensures h (RawTable.revert version)
      fun r h' ↦ RevertOutcome h.toTable version h.fault r h'.toTable := by
  unfold RawTable.revert
  refine .get ?_
  dsimp only
  split
  · rename_i hversion
    exact .pure (.refused hversion)
  rename_i hversion
  have hle : version ≤ h.state.currentVersion := UInt32.not_lt.mp hversion
  refine .bind (.reads (RawTable.revertBoundary_reads _ _) (fun h₁ ha₁ ↦ ?_) fun h₁ ha₁ _ ↦ ?_)
  swap
  · dsimp only
    rw [ha₁.table]
    exact .unchanged .io
  cases hboundary : RawTable.boundaryContent h.indexLog.content h.state version with
  | error e =>
      dsimp only
      rw [ha₁.table]
      exact .unchanged e
  | ok b =>
  obtain ⟨boundary, dataLen⟩ := b
  refine .bind (.reads (RawTable.scanDiscarded_reads _ _ _ _) (fun h₂ ha₂ ↦ ?_) fun h₂ ha₂ _ ↦ ?_)
  swap
  · dsimp only
    rw [ha₂.table, ha₁.table]
    exact .unchanged .io
  rw [ha₁.table]
  cases hscan : RawTable.scanContent h.indexLog.content h.state.indexLen h.state.indexLen
    boundary ⟨[], []⟩ with
  | error e =>
      dsimp only
      rw [ha₂.table, ha₁.table]
      exact .unchanged e
  | ok found =>
  have hplan : h.toTable.revertPlan version = .ok ⟨boundary, dataLen, found⟩ := by
    rw [Table.revertPlan, hboundary, ok_bind]
    dsimp only
    rw [hscan, ok_bind]
    rfl
  have ha := ha₁.trans ha₂
  have htable : h₂.toTable = h.toTable := ha.table
  obtain ⟨t₂, fault₂⟩ := h₂
  dsimp only at htable
  subst htable
  have hfault {n written : Nat} (hf : fault₂ = .change n written) :
      h.fault = .change n written := ha.of_change hf
  -- the last three operations, once the index WAL has its new end
  have hend {h₃ : Handle} {b : Bool} {newIndexLen : Nat} (hb : h.exact version = b)
      (hlog : h₃.toTable = { h.toTable with
        indexLog := (h.revertedIndex version ⟨boundary, dataLen, found⟩).sync })
      (hlen : newIndexLen = if b then boundary else boundary + 21) :
      Ensures h₃ (do
        modifyState (RawTable.revertState version b boundary dataLen newIndexLen found)
        setLen .data dataLen
        syncData .data
        return true) fun r h' ↦ RevertOutcome h.toTable version h.fault r h'.toTable := by
    refine (revert_end h₃ _ dataLen).mono fun r h' hr ↦ ?_
    subst hb hlen
    rw [hlog] at hr
    rcases hr with ⟨rfl, d, hd, ht⟩ | ⟨rfl, ht⟩
    · rw [ht]
      exact .dataFailed hplan hle hd
    · rw [ht]
      exact .done hplan hle
  dsimp only
  refine .bind (.setLen (fun fault₃ hf₃ hsize ↦ ?_) (fun _ ↦ .unchanged .io)
    fun _ _ ↦ .unchanged .io)
  change fault₂ = fault₃.later at hf₃
  cases hexact : h.state.versionIndex[version]?.isSome with
  | true =>
      have hx : h.exact version = true := hexact
      have hchanges : h.revertChanges version = 2 := by rw [Table.revertChanges, if_pos hx]
      rw [if_neg (by simp)]
      refine .bind (.syncData (fun fault₄ _ ↦ ?_) fun written hw ↦ ?_)
      · refine hend hx ?_ rfl
        rw [Table.revertedIndex, if_pos hx]
        rfl
      · change fault₃ = .change 0 written at hw
        subst hw
        exact .cut hplan hle .cut (.inl ⟨1, written, hfault hf₃, by omega, by omega⟩)
  | false =>
      have hx : h.exact version = false := hexact
      have hchanges : h.revertChanges version = 4 := by rw [Table.revertChanges, if_neg (by simp [hx])]
      have hmarker := CommitRecord.write_eq ⟨version, dataLen⟩
      have hlen : (IndexRecord.commit ⟨version, dataLen⟩).encode.length = 21 :=
        IndexRecord.encode_length _
      rw [if_pos (by simp), if_neg (by simp), hmarker, hlen]
      refine .bind (.pwriteAll (encode_ne_nil _) (fun fault₄ hf₄ hindex ↦ ?_) ?_)
      · rw [hlen] at hindex
        change fault₃ = fault₄.later at hf₄
        subst hf₄
        refine .bind (.setLen (fun fault₅ hf₅ _ ↦ ?_) (fun hlong ↦ ?_) fun written hw ↦ ?_)
        · change fault₄ = fault₅.later at hf₅
          subst hf₅
          refine .bind (.syncData (fun fault₆ _ ↦ ?_) fun written hw ↦ ?_)
          · refine hend hx ?_ rfl
            rw [Table.revertedIndex, if_neg (by simp [hx])]
            rfl
          · change fault₅ = .change 0 written at hw
            subst hw
            exact .cut hplan hle (.marked hx) (.inl ⟨3, written, hfault hf₃, by omega, by omega⟩)
        · omega
        · change fault₄ = .change 0 written at hw
          subst hw
          refine .cut hplan hle (.marking _ hx List.prefix_rfl ?_)
            (.inl ⟨2, written, hfault hf₃, by omega, by omega⟩)
          change (IndexRecord.commit ⟨version, dataLen⟩).encode.length ≤ maxFileLen - boundary
          omega
      · intro part h' hpart hfits hcause ht
        dsimp only
        rw [ht]
        refine .cut hplan hle (.marking part hx hpart hfits) ?_
        rcases hcause with ⟨written, hw⟩ | hlong
        · change fault₃ = .change 0 written at hw
          subst hw
          exact .inl ⟨1, written, hfault hf₃, by omega, by omega⟩
        · rw [hlen] at hlong
          exact .inr ⟨hx, hlong⟩

end Stainless.Kvstore
