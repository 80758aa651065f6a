import Mathlib.Data.List.Basic
import Mathlib.Data.List.Infix

/-!
# Files under crashes

A file is its durable content together with the operations issued since the last sync.  The
operations reach the disk in issue order; a crash keeps some first part of them, and may cut a
write at any byte.
-/

namespace Reasoning

/-- Writes `bytes` at `offset`; a gap past the end of the file reads as zeros. -/
def overwrite (content : List UInt8) (offset : Nat) (bytes : List UInt8) : List UInt8 :=
  if bytes = [] then content
  else content.take offset ++ List.replicate (offset - content.length) 0 ++ bytes ++
    content.drop (offset + bytes.length)

/-- Truncates the file, or extends it with zeros, to `size` bytes. -/
def resize (content : List UInt8) (size : Nat) : List UInt8 :=
  content.take size ++ List.replicate (size - content.length) 0

theorem overwrite_end (content bytes : List UInt8) :
    overwrite content content.length bytes = content ++ bytes := by
  by_cases h : bytes = []
  · simp [overwrite, h]
  · simp [overwrite, h]

theorem overwrite_take {content bytes : List UInt8} {offset n : Nat} (h : n ≤ offset)
    (hn : n ≤ content.length) : (overwrite content offset bytes).take n = content.take n := by
  unfold overwrite
  split
  · rfl
  · rw [List.append_assoc, List.append_assoc, List.take_append_of_le_length
      (by rw [List.length_take]; omega), List.take_take, Nat.min_eq_left h]

/-- After a write inside the file or at its end, the content up to the end of the written bytes. -/
theorem overwrite_take_through {content bytes : List UInt8} {offset : Nat}
    (h : offset ≤ content.length) :
    (overwrite content offset bytes).take (offset + bytes.length) =
      content.take offset ++ bytes := by
  by_cases hb : bytes = []
  · simp [overwrite, hb]
  · have hlen : (content.take offset ++ bytes).length = offset + bytes.length := by
      simp [List.length_take, Nat.min_eq_left h]
    rw [overwrite, if_neg hb, Nat.sub_eq_zero_of_le h, List.replicate_zero, List.append_nil,
      ← hlen, List.take_left']
    rfl

theorem le_overwrite_length (content bytes : List UInt8) (offset : Nat) :
    content.length ≤ (overwrite content offset bytes).length := by
  unfold overwrite
  split
  · exact le_rfl
  · simp only [List.length_append, List.length_take, List.length_replicate, List.length_drop]
    omega

theorem overwrite_length {content bytes : List UInt8} {offset : Nat} (h : offset ≤ content.length) :
    (overwrite content offset bytes).length = max content.length (offset + bytes.length) := by
  unfold overwrite
  split
  · rename_i hb
    subst hb
    simp [h]
  · simp only [List.length_append, List.length_take, List.length_replicate, List.length_drop]
    omega

/-- A write at the end of a first part keeps that part. -/
theorem prefix_overwrite {pre content : List UInt8} (h : pre <+: content) (bytes : List UInt8) :
    pre <+: overwrite content pre.length bytes := by
  rw [List.prefix_iff_eq_take, overwrite_take le_rfl h.length_le]
  exact List.prefix_iff_eq_take.mp h

/-- A write at the end of a first part extends it by the written bytes. -/
theorem append_prefix_overwrite {pre content : List UInt8} (h : pre <+: content)
    (bytes : List UInt8) : pre ++ bytes <+: overwrite content pre.length bytes := by
  rw [List.prefix_iff_eq_take, List.length_append, overwrite_take_through h.length_le,
    ← List.prefix_iff_eq_take.mp h]

theorem resize_of_le {content : List UInt8} {size : Nat} (h : size ≤ content.length) :
    resize content size = content.take size := by
  simp [resize, Nat.sub_eq_zero_of_le h]

theorem resize_prefix {pre content : List UInt8} (h : pre <+: content) :
    resize content pre.length = pre := by
  rw [resize_of_le h.length_le, ← List.prefix_iff_eq_take.mp h]

@[simp] theorem resize_length (content : List UInt8) (size : Nat) :
    (resize content size).length = size := by
  simp only [resize, List.length_append, List.length_take, List.length_replicate]
  omega

@[simp] theorem resize_self (content : List UInt8) : resize content content.length = content := by
  simp [resize]

/-- An operation that changes a file. -/
inductive FileOp where
  | write (offset : Nat) (bytes : List UInt8)
  | resize (size : Nat)
  deriving DecidableEq, Repr

def FileOp.apply : FileOp → List UInt8 → List UInt8
  | .write offset bytes, content => overwrite content offset bytes
  | .resize size, content => Reasoning.resize content size

/-- A file: what is durable, and the operations issued since, oldest first. -/
structure DurableFile where
  durable : List UInt8
  pending : List FileOp
  deriving DecidableEq, Repr

namespace DurableFile

def applyAll (ops : List FileOp) (content : List UInt8) : List UInt8 :=
  ops.foldl (fun c op ↦ op.apply c) content

/-- The content a reader sees: every issued operation has taken effect. -/
def content (f : DurableFile) : List UInt8 := applyAll f.pending f.durable

def issue (f : DurableFile) (op : FileOp) : DurableFile :=
  { f with pending := f.pending ++ [op] }

def sync (f : DurableFile) : DurableFile := { durable := f.content, pending := [] }

/-- A file holding `bytes`, all of them durable. -/
def ofBytes (bytes : List UInt8) : DurableFile := { durable := bytes, pending := [] }

@[simp] theorem content_issue (f : DurableFile) (op : FileOp) :
    (f.issue op).content = op.apply f.content := by
  simp [content, issue, applyAll]

@[simp] theorem content_sync (f : DurableFile) : f.sync.content = f.content := rfl

@[simp] theorem content_ofBytes (bytes : List UInt8) : (ofBytes bytes).content = bytes := rfl

@[simp] theorem durable_issue (f : DurableFile) (op : FileOp) :
    (f.issue op).durable = f.durable := rfl

@[simp] theorem durable_sync (f : DurableFile) : f.sync.durable = f.content := rfl

/-- The parts of a sequence of pending operations that a crash can leave on the disk. -/
inductive Survives : List FileOp → List FileOp → Prop where
  | stop (ops : List FileOp) : Survives ops []
  | cut (offset : Nat) (bytes : List UInt8) (n : Nat) (ops : List FileOp) :
      Survives (.write offset bytes :: ops) [.write offset (bytes.take n)]
  | keep (op : FileOp) {ops left : List FileOp} :
      Survives ops left → Survives (op :: ops) (op :: left)

theorem Survives.refl (ops : List FileOp) : Survives ops ops := by
  induction ops with
  | nil => exact .stop []
  | cons op ops ih => exact .keep op ih

theorem Survives.append {ops left : List FileOp} (h : Survives ops left) (more : List FileOp) :
    Survives (ops ++ more) left := by
  induction h with
  | stop ops => exact .stop _
  | cut offset bytes n ops => exact .cut offset bytes n _
  | keep op _ ih => exact .keep op ih

/-- One more pending operation: it is lost, kept, or a write that is cut. -/
theorem Survives.concat_cases {ops left : List FileOp} {op : FileOp}
    (h : Survives (ops ++ [op]) left) :
    Survives ops left ∨ left = ops ++ [op] ∨
      ∃ offset bytes n, op = .write offset bytes ∧ left = ops ++ [.write offset (bytes.take n)] := by
  induction ops generalizing left with
  | nil =>
      cases h with
      | stop => exact .inl (.stop [])
      | cut offset bytes n => exact .inr (.inr ⟨offset, bytes, n, rfl, rfl⟩)
      | keep _ h =>
          cases h
          exact .inr (.inl rfl)
  | cons first ops ih =>
      cases h with
      | stop => exact .inl (.stop _)
      | cut offset bytes n => exact .inl (.cut offset bytes n ops)
      | keep _ h =>
          rcases ih h with hs | rfl | ⟨offset, bytes, n, rfl, rfl⟩
          · exact .inl (.keep first hs)
          · exact .inr (.inl rfl)
          · exact .inr (.inr ⟨offset, bytes, n, rfl, rfl⟩)

/-- The contents that a crash can leave. -/
def Image (f : DurableFile) (bytes : List UInt8) : Prop :=
  ∃ left, Survives f.pending left ∧ bytes = applyAll left f.durable

theorem image_content (f : DurableFile) : f.Image f.content :=
  ⟨f.pending, .refl f.pending, rfl⟩

theorem image_of_sync {f : DurableFile} {bytes : List UInt8} (h : f.sync.Image bytes) :
    bytes = f.content := by
  obtain ⟨left, hs, rfl⟩ := h
  cases hs
  rfl

/-- One more pending operation may be lost. -/
theorem image_issue {f : DurableFile} {bytes : List UInt8} (h : f.Image bytes) (op : FileOp) :
    (f.issue op).Image bytes := by
  obtain ⟨left, hs, rfl⟩ := h
  exact ⟨left, hs.append [op], rfl⟩

/-- An image of a file with one more pending operation. -/
theorem image_issue_cases {f : DurableFile} {op : FileOp} {bytes : List UInt8}
    (h : (f.issue op).Image bytes) :
    f.Image bytes ∨ bytes = op.apply f.content ∨
      ∃ offset data n, op = .write offset data ∧
        bytes = overwrite f.content offset (data.take n) := by
  obtain ⟨left, hs, rfl⟩ := h
  rcases hs.concat_cases with hs | rfl | ⟨offset, data, n, rfl, rfl⟩
  · exact .inl ⟨left, hs, rfl⟩
  · exact .inr (.inl (by simp [content, applyAll, issue]))
  · exact .inr (.inr ⟨offset, data, n, rfl, by simp [content, applyAll, FileOp.apply, issue]⟩)

/-- The pending operations only append: a crash leaves the durable content and some of what was
appended since. -/
def Grows (f : DurableFile) : Prop :=
  ∀ bytes, f.Image bytes → f.durable <+: bytes ∧ bytes <+: f.content

theorem grows_sync (f : DurableFile) : f.sync.Grows := by
  intro bytes h
  rw [image_of_sync h]
  exact ⟨List.prefix_rfl, List.prefix_rfl⟩

theorem grows_ofBytes (bytes : List UInt8) : (ofBytes bytes).Grows := grows_sync (ofBytes bytes)

theorem Grows.durable_prefix {f : DurableFile} (h : f.Grows) : f.durable <+: f.content :=
  (h _ f.image_content).1

theorem Grows.append {f : DurableFile} (h : f.Grows) (bytes : List UInt8) :
    (f.issue (.write f.content.length bytes)).Grows := by
  have hgrown : f.content <+: f.content ++ bytes := List.prefix_append _ _
  intro image hi
  rw [content_issue, FileOp.apply, overwrite_end, durable_issue]
  rcases image_issue_cases hi with hi | rfl | ⟨offset, data, n, hop, rfl⟩
  · exact ⟨(h image hi).1, (h image hi).2.trans hgrown⟩
  · rw [FileOp.apply, overwrite_end]
    exact ⟨h.durable_prefix.trans hgrown, List.prefix_rfl⟩
  · cases hop
    rw [overwrite_end]
    exact ⟨h.durable_prefix.trans (List.prefix_append _ _),
      (List.prefix_append_right_inj _).mpr (List.take_prefix n bytes)⟩

theorem Grows.resize_self {f : DurableFile} (h : f.Grows) :
    (f.issue (.resize f.content.length)).Grows := by
  intro image hi
  rw [content_issue, FileOp.apply, Reasoning.resize_self, durable_issue]
  rcases image_issue_cases hi with hi | rfl | ⟨offset, data, n, hop, rfl⟩
  · exact h image hi
  · rw [FileOp.apply, Reasoning.resize_self]
    exact ⟨h.durable_prefix, List.prefix_rfl⟩
  · cases hop

end DurableFile

end Reasoning
