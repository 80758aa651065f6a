import Stainless.Kvstore.RawTable
import Mathlib.Tactic.Common

/-!
# Reading calls

A call that only reads is a function of the table, except that it may meet a planned read failure.
Each reading part of the table is given as such a function here.
-/

open Reasoning Stainless.Runtime

namespace Stainless.Kvstore

/-- The handle after some reads: the table is untouched, and a failure planned for a change is still
ahead. -/
structure Handle.AfterReads (h h' : Handle) : Prop where
  table : h'.toTable = h.toTable
  change : ∀ n written, h.fault = .change n written → h'.fault = .change n written
  none : h.fault = .none → h'.fault = .none
  read : ∀ n, h.fault = .read n → h'.fault = .none ∨ ∃ m, h'.fault = .read m

theorem Handle.AfterReads.rfl {h : Handle} : h.AfterReads h :=
  ⟨Eq.refl _, fun _ _ h ↦ h, fun h ↦ h, fun n hn ↦ Or.inr (Exists.intro n hn)⟩

theorem Handle.AfterReads.trans {h₁ h₂ h₃ : Handle} (a : h₁.AfterReads h₂)
    (b : h₂.AfterReads h₃) : h₁.AfterReads h₃ where
  table := b.table.trans a.table
  change n written h := b.change n written (a.change n written h)
  none h := b.none (a.none h)
  read n h := by
    rcases a.read n h with h | ⟨m, h⟩
    · exact .inl (b.none h)
    · exact b.read m h

/-- A read fault does not come from any other plan. -/
theorem Handle.AfterReads.of_read {h h' : Handle} (a : h.AfterReads h') {m : Nat}
    (hm : h'.fault = .read m) : ∃ n, h.fault = .read n := by
  cases hf : h.fault with
  | none => rw [a.none hf] at hm; cases hm
  | read n => exact ⟨n, Eq.refl _⟩
  | change n written => rw [a.change n written hf] at hm; cases hm

theorem Handle.AfterReads.of_change {h h' : Handle} (a : h.AfterReads h') {n written : Nat}
    (hc : h'.fault = .change n written) : h.fault = .change n written := by
  cases hf : h.fault with
  | none => rw [a.none hf] at hc; cases hc
  | read m =>
      rcases a.read m hf with h | ⟨k, h⟩
      · rw [h] at hc; cases hc
      · rw [h] at hc; cases hc
  | change m w => rw [a.change m w hf] at hc; exact hc

def resultOf {α : Type} : Except TableError α → Handle → EStateM.Result TableError Handle α
  | .ok a, h => .ok a h
  | .error e, h => .error e h

/-- `m` computes `f` of the table, unless a planned read failure stops it. -/
def ReadsAs {α : Type} (m : TableM α) (f : Table → Except TableError α) : Prop :=
  ∀ h : Handle, ∃ h' : Handle, h.AfterReads h' ∧
    (m h = resultOf (f h.toTable) h' ∨ (∃ n, h.fault = .read n) ∧ m h = .error .io h')

namespace ReadsAs

variable {α β : Type}

theorem pure (a : α) : ReadsAs (Pure.pure a : TableM α) fun _ ↦ .ok a :=
  fun h ↦ ⟨h, .rfl, .inl rfl⟩

theorem throw (e : TableError) : ReadsAs (MonadExcept.throw e : TableM α) fun _ ↦ .error e :=
  fun h ↦ ⟨h, .rfl, .inl rfl⟩

theorem liftExcept (x : Except TableError α) : ReadsAs (Kvstore.liftExcept x) fun _ ↦ x := by
  cases x with
  | ok a => exact .pure a
  | error e => exact .throw e

theorem throwIf (c : Prop) [Decidable c] (e : TableError) :
    ReadsAs (Kvstore.throwIf c e) fun _ ↦ Kvstore.throwIf c e := by
  unfold Kvstore.throwIf
  split
  · exact .throw e
  · exact .pure ()

theorem bind {m : TableM α} {f : Table → Except TableError α} {k : α → TableM β}
    {g : α → Table → Except TableError β} (hm : ReadsAs m f) (hk : ∀ a, ReadsAs (k a) (g a)) :
    ReadsAs (m >>= k) fun t ↦ f t >>= fun a ↦ g a t := by
  intro h
  obtain ⟨h₁, ha, hr | ⟨hf, hr⟩⟩ := hm h
  · cases hv : f h.toTable with
    | error e =>
        refine ⟨h₁, ha, .inl ?_⟩
        rw [hv] at hr
        change EStateM.bind m k h = _
        simp only [EStateM.bind, hr, resultOf, hv, Bind.bind, Except.bind]
    | ok a =>
        rw [hv] at hr
        have hbind : (m >>= k) h = k a h₁ := by
          change EStateM.bind m k h = _
          simp only [EStateM.bind, hr, resultOf]
        obtain ⟨h₂, hb, hr' | ⟨⟨n, hf⟩, hr'⟩⟩ := hk a h₁
        · refine ⟨h₂, ha.trans hb, .inl ?_⟩
          rw [hbind, hr', ha.table]
          simp only [hv, Bind.bind, Except.bind]
        · exact ⟨h₂, ha.trans hb, .inr ⟨ha.of_read hf, by rw [hbind, hr']⟩⟩
  · refine ⟨h₁, ha, .inr ⟨hf, ?_⟩⟩
    change EStateM.bind m k h = _
    simp only [EStateM.bind, hr]

theorem get {k : Handle → TableM β} {g : Table → Table → Except TableError β}
    (hk : ∀ h : Handle, ReadsAs (k h) (g h.toTable)) :
    ReadsAs (MonadState.get >>= k) fun t ↦ g t t := by
  intro h
  exact hk h h

/-- Without a planned failure the call computes its function. -/
theorem run {m : TableM α} {f : Table → Except TableError α} (hm : ReadsAs m f) (t : Table) :
    m ⟨t, .none⟩ = resultOf (f t) ⟨t, .none⟩ := by
  obtain ⟨h', ha, hr | ⟨⟨n, hf⟩, _⟩⟩ := hm ⟨t, .none⟩
  · have hh : h' = ⟨t, .none⟩ := by
      cases h'
      have h1 := ha.table
      have h2 := ha.none rfl
      simp_all
    rw [hr, hh]
  · cases hf

theorem result {m : TableM α} {f : Table → Except TableError α} (hm : ReadsAs m f) (t : Table) :
    (t.call .none m).result = f t := by
  rw [Table.call, hm.run]
  cases f t with
  | ok a => rfl
  | error e => rfl

end ReadsAs

theorem readOp_reads : ReadsAs readOp fun _ ↦ .ok () := by
  intro h
  obtain ⟨t, fault⟩ := h
  cases fault with
  | none => exact ⟨_, .rfl, .inl rfl⟩
  | change n written => exact ⟨_, .rfl, .inl rfl⟩
  | read n =>
      cases n with
      | zero =>
          refine ⟨⟨t, .none⟩, ⟨rfl, ?_, ?_, ?_⟩, .inr ⟨⟨0, rfl⟩, rfl⟩⟩ <;> intros <;> simp_all
      | succ n =>
          refine ⟨⟨t, .read n⟩, ⟨rfl, ?_, ?_, ?_⟩, .inl rfl⟩ <;> intros <;> simp_all

/-! ## Reads of a file -/

/-- `pread_exact` as a function of the content. -/
def preadContent (content : Bytes) (offset length : Nat) : Except TableError Bytes :=
  if length = 0 then .ok []
  else if offset + length ≤ content.length then .ok (slice content offset length)
  else .error .io

theorem preadContent_of_le {content : Bytes} {offset length : Nat}
    (h : offset + length ≤ content.length) :
    preadContent content offset length = .ok (slice content offset length) := by
  rw [preadContent, if_pos h]
  split
  · rename_i h0
    simp [slice, h0]
  · rfl

theorem preadExact_reads (wal : Wal) (offset length : Nat) :
    ReadsAs (preadExact wal offset length) fun t ↦
      preadContent (t.log wal).content offset length := by
  unfold preadExact preadContent
  split
  · exact .pure []
  · refine (ReadsAs.bind readOp_reads fun _ ↦ ReadsAs.get (g := fun t _ ↦
      if offset + length ≤ (t.log wal).content.length
      then .ok (slice (t.log wal).content offset length) else .error .io) fun h ↦ ?_)
    dsimp only
    split
    · exact .pure _
    · exact .throw _

theorem fileLen_reads (wal : Wal) :
    ReadsAs (fileLen wal) fun t ↦ .ok (t.log wal).content.length :=
  ReadsAs.bind readOp_reads fun _ ↦ ReadsAs.get (g := fun t _ ↦ .ok (t.log wal).content.length)
    fun _ ↦ .pure _

/-- `read_index_record_at` as a function of the content. -/
def recordAt (content : Bytes) (start fileLen : Nat) : Except TableError Bytes := do
  throwIf (start > fileLen ∨ fileLen - start < 4)
    (.indexCorrupt "truncated index WAL record header")
  let recordSize ← decodeU32At (← preadContent content start 4) 0
  throwIf (recordSize < 21 ∨ recordSize > fileLen - start)
    (.indexCorrupt "invalid index WAL record size")
  let record ← preadContent content start recordSize
  let framedSize ← decodeU32At record 0
  throwIf (framedSize ≠ recordSize) (.indexCorrupt "invalid index WAL record framing")
  let checksumOffset := record.length - 4
  let expectedChecksum ← decodeU32At record checksumOffset
  throwIf (recordChecksumRange record 4 checksumOffset ≠ expectedChecksum)
    (.indexCorrupt "index WAL checksum mismatch")
  return record

theorem readIndexRecordAt_reads (start fileLen : Nat) :
    ReadsAs (readIndexRecordAt start fileLen) fun t ↦
      recordAt t.indexLog.content start fileLen :=
  .bind (.throwIf _ _) fun _ ↦ .bind (preadExact_reads .index start 4) fun _ ↦
    .bind (.liftExcept _) fun _ ↦ .bind (.throwIf _ _) fun _ ↦
    .bind (preadExact_reads .index start _) fun _ ↦ .bind (.liftExcept _) fun _ ↦
    .bind (.throwIf _ _) fun _ ↦ .bind (.liftExcept _) fun _ ↦ .bind (.throwIf _ _) fun _ ↦ .pure _

end Stainless.Kvstore
