import Stainless.Kvstore.Agreement
import Stainless.Kvstore.RangeRuns

/-!
# The history of a table

What `find` answers from a log, and the marks that commits leave in the history: what it answered right
before and right after each of them.
-/

open Reasoning Stainless.Runtime

namespace Stainless.Kvstore

/-- What `find` answers for every key. -/
abbrev View := Bytes → Except TableError (Option Bytes)

/-! ## The order of a log -/

/-- The record may follow when `version` is the current one. -/
def IndexRecord.After (version : UInt32) : IndexRecord → Prop
  | .insert i => i.version = version
  | .commit m => version ≤ m.version

/-- Insertions carry the version that is current where they are, and versions do not go down. -/
def Chronological (log : List IndexRecord) : Prop :=
  ∀ pre r post, log = pre ++ r :: post → r.After (replay pre).currentVersion

theorem chronological_nil : Chronological [] := by
  intro pre r post h
  cases pre <;> cases h

namespace Chronological

variable {log : List IndexRecord}

theorem of_prefix {pre : List IndexRecord} (h : Chronological log) (hp : pre <+: log) :
    Chronological pre := by
  obtain ⟨rest, rfl⟩ := hp
  intro first r post heq
  exact h first r (post ++ rest) (by rw [heq]; simp)

theorem last {r : IndexRecord} (h : Chronological (log ++ [r])) :
    r.After (replay log).currentVersion := h log r [] rfl

theorem concat {r : IndexRecord} (h : Chronological log) (hr : r.After (replay log).currentVersion) :
    Chronological (log ++ [r]) := by
  intro pre s post heq
  rcases List.eq_nil_or_concat post with rfl | ⟨post, last, rfl⟩
  · obtain ⟨rfl, hs⟩ := List.append_inj' heq rfl
    cases hs
    exact hr
  · rw [List.concat_eq_append, ← List.cons_append, ← List.append_assoc] at heq
    exact h pre s post (List.append_inj' heq rfl).1

theorem current_le {r : IndexRecord} (h : r.After (replay log).currentVersion) :
    (replay log).currentVersion ≤ (replay (log ++ [r])).currentVersion := by
  rw [replay_concat]
  cases r with
  | insert i => exact UInt32.le_refl _
  | commit m => exact h

theorem inserted_le (h : Chronological log) :
    ∀ k ∈ insertedKeys log, k.2 ≤ (replay log).currentVersion := by
  induction log using List.reverseRecOn with
  | nil => exact fun k hk ↦ absurd hk List.not_mem_nil
  | append_singleton log r ih =>
      have hlast := h.last
      intro k hk
      rw [insertedKeys_append] at hk
      rcases List.mem_append.mp hk with hk | hk
      · exact UInt32.le_trans (ih (h.of_prefix (List.prefix_append _ _)) k hk) (current_le hlast)
      · cases r with
        | insert i =>
            rw [List.mem_singleton.mp hk, replay_concat]
            exact UInt32.le_of_eq hlast
        | commit m => exact absurd hk List.not_mem_nil

theorem committed_le (h : Chronological log) :
    ∀ v ∈ committedVersions log, v ≤ (replay log).currentVersion := by
  induction log using List.reverseRecOn with
  | nil => exact fun v hv ↦ absurd hv List.not_mem_nil
  | append_singleton log r ih =>
      have hlast := h.last
      intro v hv
      rw [committedVersions_append] at hv
      rcases List.mem_append.mp hv with hv | hv
      · exact UInt32.le_trans (ih (h.of_prefix (List.prefix_append _ _)) v hv) (current_le hlast)
      · cases r with
        | insert i => exact absurd hv List.not_mem_nil
        | commit m =>
            rw [List.mem_singleton.mp hv, replay_concat]
            exact UInt32.le_refl _

theorem noneHidden (h : Chronological log) : (replay log).NoneHidden := by
  intro k v hk
  by_contra hv
  exact hk (replay_index_eq_none fun hin ↦ hv (h.inserted_le (k, v) hin))

end Chronological

/-! ## What find answers from a log -/

def viewOf (data : Bytes) (log : List IndexRecord) : View := (replay log).lookup data

theorem viewOf_nil (data : Bytes) : viewOf data [] = fun _ ↦ .ok none := by
  funext key
  have hnone : (replay []).latest key = none := by
    cases h : (replay []).latest key with
    | none => rfl
    | some e =>
        obtain ⟨v, -, hv, -⟩ := StoreState.latest_eq_some_iff.mp h
        rw [replay_index_eq_none List.not_mem_nil] at hv
        cases hv
  rw [viewOf, StoreState.lookup, hnone]

/-- Only the data that the log refers to matters. -/
theorem viewOf_take {data : Bytes} {log : List IndexRecord} {n : Nat}
    (hlog : ∀ r ∈ log, r.extent ≤ n) (hn : n ≤ data.length) :
    viewOf (data.take n) log = viewOf data log := by
  funext key
  rw [viewOf, viewOf, StoreState.lookup, StoreState.lookup]
  cases he : (replay log).latest key with
  | none => rfl
  | some e =>
      obtain ⟨v, -, hv, -⟩ := StoreState.latest_eq_some_iff.mp he
      obtain ⟨i, hi, -, rfl⟩ := exists_of_replay_index hv
      have hle := hlog _ hi
      simp only [IndexRecord.extent] at hle
      dsimp only
      rw [preadContent_of_le (by rw [List.length_take]; omega), preadContent_of_le (by omega),
        slice_take _ _ _ _ hle]

theorem viewOf_append_data {data : Bytes} {log : List IndexRecord}
    (hlog : ∀ r ∈ log, r.extent ≤ data.length) (more : Bytes) :
    viewOf (data ++ more) log = viewOf data log := by
  have h : viewOf ((data ++ more).take data.length) log = viewOf (data ++ more) log :=
    viewOf_take hlog (by simp)
  rw [List.take_left' rfl] at h
  exact h.symm

/-- A marker that may follow hides and shows nothing. -/
theorem viewOf_commit {data : Bytes} {log : List IndexRecord} {m : CommitRecord}
    (h : Chronological log) (hm : (replay log).currentVersion ≤ m.version) :
    viewOf data (log ++ [.commit m]) = viewOf data log := by
  have hmarked := h.concat (r := .commit m) hm
  have hindex : (replay (log ++ [.commit m])).index = (replay log).index := by
    rw [replay_concat]
    rfl
  funext key
  have hlatest : (replay (log ++ [.commit m])).latest key = (replay log).latest key := by
    apply Option.ext
    intro e
    rw [latest_iff hmarked.noneHidden, latest_iff h.noneHidden, hindex]
  rw [viewOf, viewOf, StoreState.lookup, StoreState.lookup, hlatest]

/-- An insertion is what `find` answers for its key from then on. -/
theorem viewOf_insert {data : Bytes} {log : List IndexRecord} {i : InsertRecord}
    (hi : i.version = (replay log).currentVersion) (key : Bytes) :
    viewOf data (log ++ [.insert i]) key =
      if i.key = key then some <$> preadContent data i.offset i.length else viewOf data log key := by
  have hversion : (replay (log ++ [.insert i])).currentVersion = (replay log).currentVersion := by
    rw [replay_concat]
    rfl
  split
  · rename_i hkey
    have hlatest : (replay (log ++ [.insert i])).latest key = some ⟨i.offset, i.length⟩ := by
      rw [StoreState.latest_eq_some_iff]
      refine ⟨i.version, by rw [hversion, hi]; exact UInt32.le_refl _, ?_, fun v' e' hv' _ ↦ ?_⟩
      · rw [replay_index_concat_insert, if_pos (by rw [hkey])]
      · rwa [hi, ← hversion]
    rw [viewOf, StoreState.lookup, hlatest]
  · rename_i hkey
    have hindex (v : UInt32) : (replay (log ++ [.insert i])).index[((key, v) : IndexKey)]? =
        (replay log).index[((key, v) : IndexKey)]? := by
      rw [replay_index_concat_insert, if_neg fun h ↦ hkey (congrArg Prod.fst h)]
    have hlatest : (replay (log ++ [.insert i])).latest key = (replay log).latest key := by
      apply Option.ext
      intro e
      rw [StoreState.latest_eq_some_iff, StoreState.latest_eq_some_iff, StoreState.IsLatest,
        StoreState.IsLatest, hversion]
      simp only [hindex]
    rw [viewOf, viewOf, StoreState.lookup, StoreState.lookup, hlatest]

/-- The live table answers like its log. -/
theorem Agrees.view_eq {log : List IndexRecord} {t : Table} (h : Agrees log t) :
    t.view = viewOf t.dataLog.content log := by
  funext key
  rw [Table.view_eq, viewOf]
  exact StoreState.lookup_congr h.indexEq h.version _ key

end Stainless.Kvstore
