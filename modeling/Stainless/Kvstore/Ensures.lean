import Stainless.Kvstore.Reads

/-!
# Calls under failures

What a call leaves behind, whichever of its file operations fails.
-/

open Reasoning Stainless.Runtime

namespace Stainless.Kvstore

/-- The call ends with a result and a handle that satisfy `Q`. -/
structure Ensures {α : Type} (h : Handle) (m : TableM α)
    (Q : Except TableError α → Handle → Prop) : Prop where
  outcome : match m h with
    | .ok a h' => Q (.ok a) h'
    | .error e h' => Q (.error e) h'

/-- The plan in which one more change succeeds first. -/
def Fault.later : Fault → Fault
  | .change n written => .change (n + 1) written
  | fault => fault

namespace Ensures

variable {α β : Type} {h : Handle}

theorem pure {a : α} {Q : Except TableError α → Handle → Prop} (hq : Q (.ok a) h) :
    Ensures h (Pure.pure a) Q := ⟨hq⟩

theorem throw {e : TableError} {Q : Except TableError α → Handle → Prop} (hq : Q (.error e) h) :
    Ensures h (MonadExcept.throw e) Q := ⟨hq⟩

theorem mono {m : TableM α} {P Q : Except TableError α → Handle → Prop} (hm : Ensures h m P)
    (hpq : ∀ r h', P r h' → Q r h') : Ensures h m Q := by
  obtain ⟨hm⟩ := hm
  constructor
  cases hr : m h with
  | ok a h' => rw [hr] at hm; exact hpq _ _ hm
  | error e h' => rw [hr] at hm; exact hpq _ _ hm

/-- The rest of a call runs from what the first part ensures. -/
theorem bind {m : TableM α} {k : α → TableM β} {Q : Except TableError β → Handle → Prop}
    (hm : Ensures h m fun r h' ↦ match r with
      | .ok a => Ensures h' (k a) Q
      | .error e => Q (.error e) h') : Ensures h (m >>= k) Q := by
  have hbind : (m >>= k) h = EStateM.bind m k h := rfl
  obtain ⟨hm⟩ := hm
  constructor
  rw [hbind, EStateM.bind]
  cases hr : m h with
  | ok a h' => rw [hr] at hm; exact hm.outcome
  | error e h' => rw [hr] at hm; exact hm

theorem get {k : Handle → TableM β} {Q : Except TableError β → Handle → Prop}
    (hk : Ensures h (k h) Q) : Ensures h (MonadState.get >>= k) Q := ⟨hk.outcome⟩

theorem ite {c : Prop} [Decidable c] {m n : TableM α} {Q : Except TableError α → Handle → Prop}
    (hpos : c → Ensures h m Q) (hneg : ¬c → Ensures h n Q) : Ensures h (if c then m else n) Q := by
  by_cases hc : c
  · rw [if_pos hc]
    exact hpos hc
  · rw [if_neg hc]
    exact hneg hc

theorem throwIf {c : Prop} [Decidable c] {e : TableError}
    {Q : Except TableError Unit → Handle → Prop}
    (hok : ¬c → Q (.ok ()) h) (herr : c → Q (.error e) h) : Ensures h (Kvstore.throwIf c e) Q := by
  unfold Kvstore.throwIf
  split
  · rename_i hc
    exact throw (herr hc)
  · rename_i hc
    exact pure (hok hc)

theorem liftExcept {x : Except TableError α} {Q : Except TableError α → Handle → Prop}
    (hq : Q x h) : Ensures h (Kvstore.liftExcept x) Q := by
  cases x with
  | ok a => exact pure hq
  | error e => exact throw hq

theorem reads {m : TableM α} {f : Table → Except TableError α}
    {Q : Except TableError α → Handle → Prop} (hm : ReadsAs m f)
    (hok : ∀ h', h.AfterReads h' → Q (f h.toTable) h')
    (hio : ∀ h', h.AfterReads h' → (∃ n, h.fault = .read n) → Q (.error .io) h') :
    Ensures h m Q := by
  constructor
  obtain ⟨h', ha, hr | ⟨hf, hr⟩⟩ := hm h
  · have hq := hok h' ha
    cases hv : f h.toTable with
    | ok a =>
        rw [hv] at hq
        simpa only [hr, hv, resultOf] using hq
    | error e =>
        rw [hv] at hq
        simpa only [hr, hv, resultOf] using hq
  · simpa only [hr] using hio h' ha hf

/-! ## File operations -/

theorem changeOp {wal : Wal} {done : DurableFile → DurableFile}
    {failed : Nat → DurableFile → DurableFile} {Q : Except TableError Unit → Handle → Prop}
    (hdone : ∀ fault : Fault, h.fault = fault.later →
      Q (.ok ()) ⟨h.toTable.setLog wal (done (h.log wal)), fault⟩)
    (hfailed : ∀ written, h.fault = .change 0 written →
      Q (.error .io) ⟨h.toTable.setLog wal (failed written (h.log wal)), .none⟩) :
    Ensures h (Kvstore.changeOp wal done failed) Q := by
  obtain ⟨t, fault⟩ := h
  cases fault with
  | none => exact ⟨hdone .none rfl⟩
  | read n => exact ⟨hdone (.read n) rfl⟩
  | change n written =>
      cases n with
      | zero => exact ⟨hfailed written rfl⟩
      | succ n => exact ⟨hdone (.change n written) rfl⟩

private theorem setLog_self (t : Table) (wal : Wal) : t.setLog wal (t.log wal) = t := by
  cases wal <;> rfl

theorem setLen {wal : Wal} {size : Nat} {Q : Except TableError Unit → Handle → Prop}
    (hdone : ∀ fault : Fault, h.fault = fault.later → size ≤ maxFileLen →
      Q (.ok ()) ⟨h.toTable.setLog wal ((h.log wal).issue (.resize size)), fault⟩)
    (hlong : maxFileLen < size → Q (.error .io) h)
    (hfailed : ∀ written, h.fault = .change 0 written → Q (.error .io) ⟨h.toTable, .none⟩) :
    Ensures h (Kvstore.setLen wal size) Q := by
  refine bind (throwIf (fun hsize ↦ changeOp (fun fault hf ↦ hdone fault hf (by omega)) ?_) hlong)
  intro written hw
  rw [setLog_self]
  exact hfailed written hw

theorem syncData {wal : Wal} {Q : Except TableError Unit → Handle → Prop}
    (hdone : ∀ fault : Fault, h.fault = fault.later →
      Q (.ok ()) ⟨h.toTable.setLog wal (h.log wal).sync, fault⟩)
    (hfailed : ∀ written, h.fault = .change 0 written → Q (.error .io) ⟨h.toTable, .none⟩) :
    Ensures h (Kvstore.syncData wal) Q := by
  refine changeOp hdone fun written hw ↦ ?_
  rw [setLog_self]
  exact hfailed written hw

/-- A failing write leaves a first part of its bytes, as much as fits the file. -/
theorem pwriteAll {wal : Wal} {offset : Nat} {bytes : Bytes}
    {Q : Except TableError Unit → Handle → Prop} (hne : bytes ≠ [])
    (hdone : ∀ fault : Fault, h.fault = fault.later → offset + bytes.length ≤ maxFileLen →
      Q (.ok ()) ⟨h.toTable.setLog wal ((h.log wal).issue (.write offset bytes)), fault⟩)
    (hfailed : ∀ part h', part <+: bytes → part.length ≤ maxFileLen - offset →
      (∃ written, h.fault = .change 0 written) ∨ maxFileLen < offset + bytes.length →
      h'.toTable = h.toTable.setLog wal ((h.log wal).issue (.write offset part)) →
      Q (.error .io) h') :
    Ensures h (Kvstore.pwriteAll wal offset bytes) Q := by
  unfold Kvstore.pwriteAll
  rw [if_neg hne]
  refine bind (changeOp (fun fault hf ↦ throwIf (fun hlen ↦ ?_) fun hlen ↦ ?_)
    fun written hw ↦ ?_)
  · rw [List.take_of_length_le (by omega)]
    exact hdone fault hf (by omega)
  · exact hfailed _ _ (List.take_prefix _ _) (by rw [List.length_take]; omega) (.inr hlen) rfl
  · refine hfailed _ _ ((List.take_prefix _ _).trans (List.take_prefix _ _)) ?_ (.inl ⟨_, hw⟩) rfl
    rw [List.length_take, List.length_take]
    omega

theorem modifyState {f : StoreState → StoreState} {Q : Except TableError Unit → Handle → Prop}
    (hq : Q (.ok ()) { h with state := f h.state }) : Ensures h (Kvstore.modifyState f) Q := ⟨hq⟩

/-- Without a planned failure only the results of the reads matter. -/
theorem reads_none {m : TableM α} {f : Table → Except TableError α} {t : Table}
    {Q : Except TableError α → Handle → Prop} (hm : ReadsAs m f)
    (hok : Q (f t) ⟨t, .none⟩) : Ensures ⟨t, .none⟩ m Q := by
  constructor
  rw [hm.run t]
  cases hv : f t with
  | ok a => rw [hv] at hok; exact hok
  | error e => rw [hv] at hok; exact hok

theorem setLen_none {wal : Wal} {size : Nat} {t : Table}
    {Q : Except TableError Unit → Handle → Prop} (hsize : size ≤ maxFileLen)
    (hq : Q (.ok ()) ⟨t.setLog wal ((t.log wal).issue (.resize size)), .none⟩) :
    Ensures ⟨t, .none⟩ (Kvstore.setLen wal size) Q := by
  refine setLen (fun fault hf _ ↦ ?_) (fun h ↦ by omega) fun _ hw ↦ by cases hw
  cases fault with
  | none => exact hq
  | read n => cases hf
  | change n w => cases hf

theorem syncData_none {wal : Wal} {t : Table} {Q : Except TableError Unit → Handle → Prop}
    (hq : Q (.ok ()) ⟨t.setLog wal (t.log wal).sync, .none⟩) :
    Ensures ⟨t, .none⟩ (Kvstore.syncData wal) Q := by
  refine syncData (fun fault hf ↦ ?_) fun _ hw ↦ by cases hw
  cases fault with
  | none => exact hq
  | read n => cases hf
  | change n w => cases hf

theorem pwriteAll_none {wal : Wal} {offset : Nat} {bytes : Bytes} {t : Table}
    {Q : Except TableError Unit → Handle → Prop} (hne : bytes ≠ [])
    (hfits : offset + bytes.length ≤ maxFileLen)
    (hq : Q (.ok ()) ⟨t.setLog wal ((t.log wal).issue (.write offset bytes)), .none⟩) :
    Ensures ⟨t, .none⟩ (Kvstore.pwriteAll wal offset bytes) Q := by
  refine pwriteAll hne (fun fault hf _ ↦ ?_) fun part h' _ _ hfail _ ↦ ?_
  · cases fault with
    | none => exact hq
    | read n => cases hf
    | change n w => cases hf
  · rcases hfail with ⟨written, hw⟩ | hlong
    · cases hw
    · omega

theorem call {m : TableM α} {t : Table} {f : Fault} {Q : Except TableError α → Table → Prop}
    (hm : Ensures ⟨t, f⟩ m fun r h ↦ Q r h.toTable) :
    Q (t.call f m).result (t.call f m).table := by
  unfold Table.call
  obtain ⟨hm⟩ := hm
  cases hr : m ⟨t, f⟩ with
  | ok a h' => rw [hr] at hm; exact hm
  | error e h' => rw [hr] at hm; exact hm

end Ensures

end Stainless.Kvstore
