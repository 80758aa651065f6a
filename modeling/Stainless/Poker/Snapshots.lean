import Stainless.Poker.Synchronization

/-!
# Rollbacks load the snapshot of the ancestor

The store of the chain has a snapshot for each tip that was saved, under the version after its height.
The checkpoints in memory say which heights a rollback can go back to.
-/

open Reasoning

namespace Stainless.Poker

/-! ## 1. What a rollback restores -/

/-- The snapshot that `save_chain` stored last for a height. -/
def lastSnapshot (snapshots : List (Nat × ChainState)) (height : Nat) : Option ChainState :=
  (snapshots.reverse.find? fun s ↦ s.1 = height).map Prod.snd

abbrev Marks := List (Mark (Option ChainState))

/-- The version of a height is committed. -/
def Committed (marks : Marks) (height : Nat) : Prop := ∃ m ∈ marks, m.version.toNat = height + 1

/-- The dealer `d'` is back at the snapshot of an ancestor of the chain of `d`, or at the empty chain when
the ancestor is not the height of a checkpoint. -/
structure Restored (d : Dealer) (ancestor : Nat) (d' : Dealer) : Prop where
  snapshot : lastSnapshot d'.snapshots ancestor = some d'.chain ∨
    (d'.chain = {} ∧ ∀ c ∈ d.chain.checkpoints, c.height ≠ ancestor)
  height : d'.chain.height = ancestor
  checkpoints : ∀ c ∈ d'.chain.checkpoints,
    c.height ≤ ancestor ∧ Committed d'.chainStore.marks c.height

/-- A synchronization that rolls the chain back restores the snapshot of the ancestor. -/
def RollbackRestores (env : Env) (d : Dealer) : Prop :=
  OnReturn d (call env env.node.nodeInfo) fun info d₁ ↦
    OnReturn d₁ (rollbackIfNeeded env info.height) fun rolledBack d₂ ↦
      rolledBack = true →
        ∃ ancestor, d₂.journal = d₁.journal ++ [.reverted ancestor] ∧ Restored d₁ ancestor d₂

/-! ## 2. When it holds -/

/-- The snapshot of the tip gets a version of its own, and saving it does not throw. -/
def SavesSnapshot (env : Env) (height : Nat) (d : Dealer) : Prop :=
  d.chainStore.currentVersion.toNat ≤ height ∧
    After d (saveChain env height d.chain) fun r _ ↦ threw r = false

/-- A rollback from `d` that throws does not change the store, and behind one that returns the snapshot
of the tip is saved. -/
def KeepsStore (env : Env) (config : DealerConfig) (info : NodeInfo) (d : Dealer)
    (r : Except Exit Bool) (d' : Dealer) : Prop :=
  match r with
  | .ok rolledBack => AtSave env config info d.chain rolledBack
      (fun _ d ↦ SavesSnapshot env info.height d) d'
  | .error e => e ≠ .stopped → d'.chainStore = d.chainStore

/-- The condition on a synchronization. -/
def KeepsSnapshots (env : Env) (config : DealerConfig) (d : Dealer) : Prop :=
  OnReturn d (call env env.node.nodeInfo) fun info d ↦
    After d (rollbackIfNeeded env info.height) (KeepsStore env config info d)

/-- The condition on a step of the process. -/
def Process.keepsSnapshots (env : Env) (config : DealerConfig) (p : Process) : ProcessAction → Prop
  | .synchronize => p.running = true → KeepsSnapshots env config p.dealer
  | .restart => True

section Decidable

variable (env : Env) (config : DealerConfig)

instance SavesSnapshot.decidable (height : Nat) (d : Dealer) :
    Decidable (SavesSnapshot env height d) :=
  inferInstanceAs (Decidable (_ ∧ After d (saveChain env height d.chain) fun r _ ↦ threw r = false))

instance KeepsStore.decidable (info : NodeInfo) (d : Dealer) :
    ∀ r d', Decidable (KeepsStore env config info d r d')
  | .ok rolledBack, d' => AtSave.decidable env config info d.chain rolledBack _ d'
  | .error e, d' => inferInstanceAs (Decidable (e ≠ Exit.stopped → d'.chainStore = d.chainStore))

instance KeepsSnapshots.decidable (d : Dealer) : Decidable (KeepsSnapshots env config d) :=
  inferInstanceAs (Decidable (OnReturn d _ fun info d ↦ After d _ (KeepsStore env config info d)))

instance Process.keepsSnapshots.decidable (p : Process) :
    ∀ a, Decidable (p.keepsSnapshots env config a)
  | .synchronize => inferInstanceAs (Decidable (_ → _))
  | .restart => inferInstanceAs (Decidable True)

end Decidable

/-! ## 3. The history of the snapshots -/

/-- What a mark of the store holds. -/
structure IsSnapshot (snapshots : List (Nat × ChainState)) (marks : Marks)
    (m : Mark (Option ChainState)) (chain : ChainState) : Prop where
  value : m.after = some chain
  version : m.version.toNat = chain.height + 1
  stored : lastSnapshot snapshots chain.height = some chain ∨ chain = {}
  checkpoints : ∀ c ∈ chain.checkpoints,
    0 < c.height ∧ c.height ≤ chain.height ∧ Committed marks c.height

/-- The versions grow from the empty chain on, and each holds its snapshot. -/
structure History (snapshots : List (Nat × ChainState)) (marks : Marks) : Prop where
  sorted : marks.Pairwise fun m m' ↦ m.version < m'.version
  baseline : Committed marks 0
  each : ∀ m ∈ marks, ∃ chain, IsSnapshot snapshots marks m chain

theorem lastSnapshot_append (snapshots : List (Nat × ChainState)) (height height' : Nat)
    (chain : ChainState) : lastSnapshot (snapshots ++ [(height, chain)]) height' =
      if height = height' then some chain else lastSnapshot snapshots height' := by
  unfold lastSnapshot
  rw [List.reverse_append, List.reverse_singleton, List.singleton_append, List.find?_cons]
  by_cases h : height = height'
  · rw [if_pos h]
    simp [h]
  · rw [if_neg h]
    simp [h]

theorem Committed.mono {marks marks' : Marks} {height : Nat} (h : Committed marks height)
    (hsub : marks ⊆ marks') : Committed marks' height :=
  have ⟨m, hm, hversion⟩ := h
  ⟨m, hsub hm, hversion⟩

theorem history_baseline (snapshots : List (Nat × ChainState)) :
    History snapshots [⟨1, some {}, some {}⟩] where
  sorted := List.pairwise_singleton ..
  baseline := ⟨_, List.mem_singleton_self _, rfl⟩
  each m hm := by
    rw [List.mem_singleton.mp hm]
    exact ⟨{}, rfl, rfl, .inr rfl, fun _ h ↦ (List.not_mem_nil h).elim⟩

theorem toNat_version {height : Nat} (h : height < heightLimit) :
    (UInt32.ofNat (height + 1)).toNat = height + 1 :=
  UInt32.toNat_ofNat_of_lt' (Nat.add_lt_add_right h 1)

/-- A snapshot above all others is saved. -/
theorem History.save {snapshots : List (Nat × ChainState)} {marks : Marks} {chain : ChainState}
    (h : History snapshots marks) (hlimit : chain.height < heightLimit)
    (habove : ∀ m ∈ marks, m.version.toNat ≤ chain.height)
    (hcheckpoints : ∀ c ∈ chain.checkpoints,
      (0 < c.height ∧ Committed marks c.height) ∨ c.height = chain.height) :
    History (snapshots ++ [(chain.height, chain)])
      (marks ++ [⟨UInt32.ofNat (chain.height + 1), some chain, some chain⟩]) where
  sorted := by
    rw [List.pairwise_append]
    refine ⟨h.sorted, List.pairwise_singleton .., fun m hm m' hm' ↦ ?_⟩
    rw [List.mem_singleton.mp hm', UInt32.lt_iff_toNat_lt, toNat_version hlimit]
    exact Nat.lt_succ_of_le (habove m hm)
  baseline := h.baseline.mono (List.subset_append_left ..)
  each m hm := by
    rcases List.mem_append.mp hm with hm | hm
    · have ⟨old, hold⟩ := h.each m hm
      have hbelow := habove m hm
      refine ⟨old, hold.value, hold.version, ?_, fun c hc ↦ ?_⟩
      · rw [lastSnapshot_append, if_neg (by have := hold.version; omega)]
        exact hold.stored
      · have ⟨hpos, hle, hcommitted⟩ := hold.checkpoints c hc
        exact ⟨hpos, hle, hcommitted.mono (List.subset_append_left ..)⟩
    · rw [List.mem_singleton.mp hm]
      refine ⟨chain, rfl, toNat_version hlimit, .inl ?_, fun c hc ↦ ?_⟩
      · rw [lastSnapshot_append, if_pos rfl]
      · rcases hcheckpoints c hc with ⟨hpos, hcommitted⟩ | hnew
        · have ⟨m', hm', hversion⟩ := hcommitted
          have hbelow := habove m' hm'
          exact ⟨hpos, by omega, hcommitted.mono (List.subset_append_left ..)⟩
        · -- the first version is at or below the new height
          have ⟨first, hfirst, hversion⟩ := h.baseline
          have hbelow := habove first hfirst
          refine ⟨by omega, by omega, _, List.mem_append_right _ (List.mem_singleton_self _), ?_⟩
          rw [hnew]
          exact toNat_version hlimit

/-- A history up to one of its marks. -/
theorem History.front {snapshots : List (Nat × ChainState)} {front later : Marks}
    {m : Mark (Option ChainState)} (h : History snapshots (front ++ m :: later)) :
    History snapshots (front ++ [m]) := by
  have hsplit : front ++ m :: later = (front ++ [m]) ++ later := by
    rw [List.append_assoc]
    rfl
  have hsorted := h.sorted
  rw [hsplit, List.pairwise_append] at hsorted
  -- a committed version up to that of a mark in front is in front too
  have hcommitted : ∀ x ∈ front ++ [m], ∀ height, height + 1 ≤ x.version.toNat →
      Committed (front ++ m :: later) height → Committed (front ++ [m]) height := by
    intro x hx height hle hc
    have ⟨y, hy, hversion⟩ := hc
    rw [hsplit] at hy
    rcases List.mem_append.mp hy with hy | hy
    · exact ⟨y, hy, hversion⟩
    · have hlt := UInt32.lt_iff_toNat_lt.mp (hsorted.2.2 x hx y hy)
      omega
  have hm : m ∈ front ++ [m] := List.mem_append_right _ (List.mem_singleton_self _)
  have hsub : front ++ [m] ⊆ front ++ m :: later := by
    rw [hsplit]
    exact List.subset_append_left ..
  exact
    { sorted := hsorted.1
      baseline := by
        have ⟨chain, hchain⟩ := h.each m (hsub hm)
        exact hcommitted m hm 0 (by have := hchain.version; omega) h.baseline
      each := by
        intro x hx
        have ⟨chain, hchain⟩ := h.each x (hsub hx)
        refine ⟨chain, hchain.value, hchain.version, hchain.stored, fun c hc ↦ ?_⟩
        have ⟨hpos, hle, hc⟩ := hchain.checkpoints c hc
        exact ⟨hpos, hle, hcommitted x hx _ (by have := hchain.version; omega) hc⟩ }

/-! ## 4. The invariant -/

/-- What a restart finds is a history. -/
def Recoverable (d : Dealer) : Prop :=
  d.chainStore.disk = [] ∨ History d.snapshots d.chainStore.disk

/-- The dealer holds a history, and a snapshot for each checkpoint in memory. -/
structure SnapshotsHeld (d : Dealer) : Prop where
  settled : d.chainStore.Settled
  history : History d.snapshots d.chainStore.marks
  checkpoints : ∀ c ∈ d.chain.checkpoints, 0 < c.height ∧ Committed d.chainStore.marks c.height

theorem SnapshotsHeld.recoverable {d : Dealer} (h : SnapshotsHeld d) : Recoverable d :=
  .inr (h.settled.disk ▸ h.history)

theorem SnapshotsHeld.of_eq {d d' : Dealer} (h : SnapshotsHeld d)
    (hstore : d'.chainStore = d.chainStore) (hsnapshots : d'.snapshots = d.snapshots)
    (hcheckpoints : d'.chain.checkpoints = d.chain.checkpoints) : SnapshotsHeld d' where
  settled := hstore ▸ h.settled
  history := by
    rw [hstore, hsnapshots]
    exact h.history
  checkpoints := by
    rw [hstore, hcheckpoints]
    exact h.checkpoints

/-- The last mark is the greatest. -/
theorem SnapshotsHeld.version_le {d : Dealer} (h : SnapshotsHeld d) {m : Mark (Option ChainState)}
    (hm : m ∈ d.chainStore.marks) : m.version ≤ d.chainStore.currentVersion := by
  have hsorted := h.history.sorted
  rw [h.settled.currentVersion]
  cases hmarks : d.chainStore.marks using List.reverseRecOn with
  | nil =>
      rw [hmarks] at hm
      exact (List.not_mem_nil hm).elim
  | append_singleton front last =>
      rw [hmarks] at hm hsorted
      rw [Store.lastMark_append]
      rcases List.mem_append.mp hm with hm | hm
      · exact UInt32.le_of_lt
          ((List.pairwise_append.mp hsorted).2.2 m hm last (List.mem_singleton_self _))
      · rw [List.mem_singleton.mp hm]
        exact UInt32.le_refl _

/-! ## 5. The start -/

/-- A store that was opened and has a version holds a history. -/
theorem History.of_version {snapshots : List (Nat × ChainState)} {disk : Marks}
    (h : disk = [] ∨ History snapshots disk) (hversion : (Store.lastMark disk).1 ≠ 0) :
    History snapshots disk := by
  rcases h with rfl | hhistory
  · exact absurd rfl hversion
  · exact hhistory

/-- The last snapshot is that of a committed height, and so are its checkpoints. -/
theorem History.loaded {snapshots : List (Nat × ChainState)} {marks : Marks}
    (h : History snapshots marks) : ∀ c ∈ ((Store.lastMark marks).2.getD {}).checkpoints,
      0 < c.height ∧ Committed marks c.height := by
  have heach := h.each
  cases hmarks : marks using List.reverseRecOn with
  | nil => exact fun _ hc ↦ (List.not_mem_nil hc).elim
  | append_singleton front last =>
      rw [hmarks] at heach
      have ⟨chain, hchain⟩ := heach last (List.mem_append_right _ (List.mem_singleton_self _))
      rw [Store.lastMark_append, hchain.value]
      intro c hc
      have ⟨hpos, _, hcommitted⟩ := hchain.checkpoints c hc
      exact ⟨hpos, hcommitted⟩

theorem startUp_held {env : Env} {d : Dealer} (h : Recoverable d) :
    After d.restart (startUp env) fun r d' ↦
      if r.isOk then SnapshotsHeld d' else Recoverable d' := by
  -- a store without a version has no marks
  have hempty (hversion : d.restart.chainStore.currentVersion = 0) : d.chainStore.disk = [] := by
    rcases h with hempty | hhistory
    · exact hempty
    · obtain ⟨m, hm, hfirst⟩ := hhistory.baseline
      have hheld : SnapshotsHeld d.restart :=
        ⟨Store.settled_reopen d.chainStore, hhistory, fun _ h ↦ (List.not_mem_nil h).elim⟩
      have hle := UInt32.le_iff_toNat_le.mp (hheld.version_le hm)
      rw [hversion, hfirst] at hle
      exact absurd hle (by decide)
  apply (startUp_spec env d.restart).mono
  intro r d' hspec
  obtain ⟨operations, chainStore, hspec⟩ := hspec
  cases r with
  | ok _ =>
      obtain ⟨hbaseline, hands, hd'⟩ := hspec
      rw [hd']
      cases hbaseline with
      | kept hversion =>
          have hhistory := History.of_version h hversion
          exact ⟨Store.settled_reopen d.chainStore, hhistory, hhistory.loaded⟩
      | saved hversion hshown =>
          have hmarks : d.restart.chainStore.marks = [] := hempty hversion
          have hhistory : History d.snapshots (d.restart.chainStore.saved {} 1).marks := by
            rw [Store.saved, hmarks]
            exact history_baseline d.snapshots
          exact ⟨(Store.settled_reopen d.chainStore).saved {} 1, hhistory,
            fun _ h ↦ (List.not_mem_nil h).elim⟩
  | error e =>
      obtain ⟨hbaseline, hd'⟩ := hspec
      rw [hd']
      cases hbaseline with
      | kept => exact h
      | saved hversion hshown =>
          right
          change History d.snapshots (d.restart.chainStore.extended _)
          rw [Store.extended_of_whole rfl, show d.restart.chainStore.disk = [] from hempty hversion]
          exact history_baseline d.snapshots
      | failed _ hversion hshown hfailed =>
          rcases hfailed.disk with hdisk | hdisk
          · exact .inl (hdisk.trans (hempty hversion))
          · right
            change History d.snapshots chainStore.disk
            rw [hdisk, Store.extended_of_whole rfl,
              show d.restart.chainStore.disk = [] from hempty hversion]
            exact history_baseline d.snapshots

/-! ## 6. A synchronization -/

theorem exists_mark {d : Dealer} (h : SnapshotsHeld d) {ancestor : Nat}
    (hancestor : CommonAncestor d.chain ancestor) : Committed d.chainStore.marks ancestor := by
  rcases hancestor with rfl | ⟨c, hc, rfl⟩
  · exact h.history.baseline
  · exact (h.checkpoints c hc).2

/-- The snapshot of a common ancestor has a version of its own. -/
theorem split_ancestor {d : Dealer} (h : SnapshotsHeld d) {ancestor : Nat}
    (hancestor : CommonAncestor d.chain ancestor) :
    ∃ front m later, d.chainStore.marks = front ++ m :: later ∧ m.version.toNat = ancestor + 1 ∧
      UInt32.ofNat (ancestor + 1) = m.version ∧ ∀ x ∈ later, x.version ≠ m.version := by
  have ⟨m, hm, hversion⟩ := exists_mark h hancestor
  have ⟨front, later, hmarks⟩ := List.append_of_mem hm
  refine ⟨front, m, later, hmarks, hversion, ?_, fun x hx ↦ ?_⟩
  · rw [← hversion, UInt32.ofNat_toNat]
  · have hsorted := h.history.sorted
    rw [hmarks] at hsorted
    have hpairs := (List.pairwise_append.mp hsorted).2.1
    exact (UInt32.ne_of_lt ((List.pairwise_cons.mp hpairs).1 x hx)).symm

/-- A revert to a common ancestor is refused or goes back to right behind its snapshot. -/
theorem revert_ancestor {d : Dealer} (h : SnapshotsHeld d) {ancestor : Nat}
    (hancestor : CommonAncestor d.chain ancestor) {reverted : Bool} {store : Store ChainState}
    (hrevert : d.chainStore.revert (UInt32.ofNat (ancestor + 1)) = some (reverted, store)) :
    (reverted = false ∧ store = d.chainStore) ∨
      (reverted = true ∧ ∃ chain front m,
        store = ⟨m.version, some chain, front ++ [m], front ++ [m], none⟩ ∧
        chain.height = ancestor ∧ IsSnapshot d.snapshots (front ++ [m]) m chain ∧
        History d.snapshots (front ++ [m])) := by
  have ⟨front, m, later, hmarks, hversion, hof, hlater⟩ := split_ancestor h hancestor
  have hhistory := h.history
  rw [hmarks] at hhistory
  rw [hof] at hrevert
  rcases Store.revert_own h.settled hmarks hlater hrevert with hrefused | ⟨hdone, hstore⟩
  · exact .inl hrefused
  · have hfront := hhistory.front
    have ⟨chain, hchain⟩ := hfront.each m (List.mem_append_right _ (List.mem_singleton_self _))
    refine .inr ⟨hdone, chain, front, m, ?_, ?_, hchain, hfront⟩
    · rw [hstore, hchain.value]
    · have := hchain.version
      omega

/-- A revert to a common ancestor that fails behind its cut leaves a history on the disk. -/
theorem revertFailed_ancestor {d : Dealer} (h : SnapshotsHeld d) {ancestor : Nat}
    (hancestor : CommonAncestor d.chain ancestor) {reach : Reach} {store : Store ChainState}
    (hrevert : d.chainStore.revertFailed (UInt32.ofNat (ancestor + 1)) reach = some store) :
    History d.snapshots store.disk := by
  obtain ⟨reverted, hreverted, hstore⟩ := Store.revertFailed_cases hrevert
  rcases hstore with rfl | ⟨marked, rfl⟩
  · rcases revert_ancestor h hancestor hreverted with ⟨hrefused, _⟩ | ⟨_, chain, front, m, hdone, _, _, hfront⟩
    · cases hrefused
    · rw [hdone]
      exact hfront
  · have ⟨front, m, later, hmarks, _, hof, hlater⟩ := split_ancestor h hancestor
    have hhistory := h.history
    rw [hmarks] at hhistory
    rw [hof]
    dsimp only
    rw [Store.tornDisk_own h.settled hmarks hlater]
    exact hhistory.front

/-- What a synchronization leaves, by its outcome. -/
def Leaves {α : Type} (r : Except Exit α) (d : Dealer) : Prop :=
  Recoverable d ∧ (r ≠ .error .stopped → SnapshotsHeld d)

theorem SnapshotsHeld.leaves {α : Type} {d : Dealer} (h : SnapshotsHeld d) (r : Except Exit α) :
    Leaves r d :=
  ⟨h.recoverable, fun _ ↦ h⟩

theorem rollbackIfNeeded_held {env : Env} {d : Dealer} (h : SnapshotsHeld d) (tipHeight : Nat) :
    After d (rollbackIfNeeded env tipHeight) fun r d' ↦ match r with
      | .ok rolledBack => SnapshotsHeld d' ∧ (rolledBack = true →
          ∃ ancestor, d'.journal = d.journal ++ [.reverted ancestor] ∧ Restored d ancestor d')
      | .error _ => Recoverable d' ∧ (d'.chainStore = d.chainStore → SnapshotsHeld d') := by
  apply (rollbackIfNeeded_spec env tipHeight d).mono
  intro r d' hspec
  cases r with
  | error e =>
      obtain ⟨ancestor, hancestor, hfailed⟩ := hspec
      obtain ⟨operations, journal, chainStore, hstore⟩ := hfailed
      have hsame (hstore : chainStore = d.chainStore) :
          SnapshotsHeld { d with operations, journal, chainStore } :=
        h.of_eq hstore rfl rfl
      refine ⟨?_, hsame⟩
      rcases hstore with hstore | ⟨reverted, hrevert⟩ | ⟨reach, htorn⟩
      · exact (hsame hstore).recoverable
      · rcases revert_ancestor h hancestor hrevert with
          ⟨_, hstore⟩ | ⟨_, chain, front, m, hstore, _, _, hfront⟩
        · exact (hsame hstore).recoverable
        · right
          rw [hstore]
          exact hfront
      · exact .inr (revertFailed_ancestor h hancestor htorn)
  | ok rolledBack =>
      cases rolledBack with
      | false =>
          have hd' := Counted.dealer hspec
          rw [hd']
          exact ⟨h.of_eq rfl rfl rfl, fun h ↦ by cases h⟩
      | true =>
          obtain ⟨ancestor, hancestor, hdone⟩ := hspec
          obtain ⟨operations, chainStore, _, hrevert⟩ := hdone
          rcases revert_ancestor h hancestor hrevert with
            ⟨hrefused, _⟩ | ⟨_, chain, front, m, hstore, hheight, hchain, hfront⟩
          · cases hrefused
          · subst hstore
            refine ⟨⟨⟨rfl, ?_, rfl⟩, hfront, fun c hc ↦ ?_⟩, fun _ ↦ ⟨ancestor, rfl, ?_, hheight, ?_⟩⟩
            · dsimp only
              rw [Store.lastMark_append]
            · obtain ⟨hpos, _, hcommitted⟩ := hchain.checkpoints c hc
              exact ⟨hpos, hcommitted⟩
            · rcases hchain.stored with hstored | hempty
              · rw [hheight] at hstored
                exact .inl hstored
              · right
                refine ⟨hempty, fun c hc hsame ↦ ?_⟩
                -- the empty chain has height 0, and no checkpoint has
                have hpos := (h.checkpoints c hc).1
                rw [hempty] at hheight
                change 0 = ancestor at hheight
                omega
            · intro c hc
              obtain ⟨_, hle, hcommitted⟩ := hchain.checkpoints c hc
              exact ⟨hheight ▸ hle, hcommitted⟩

/-- The snapshot of the tip is saved above all others. -/
theorem saveChain_held {env : Env} {d : Dealer} (hsettled : d.chainStore.Settled)
    (hhistory : History d.snapshots d.chainStore.marks)
    (hcheckpoints : ∀ c ∈ d.chain.checkpoints,
      (0 < c.height ∧ Committed d.chainStore.marks c.height) ∨ c.height = d.chain.height)
    {height : Nat} (hheight : d.chain.height = height) (hsaves : SavesSnapshot env height d) :
    After d (saveChain env height d.chain) Leaves := by
  subst hheight
  have ⟨habove, hreturns⟩ := hsaves
  have hmarks : ∀ m ∈ d.chainStore.marks, m.version.toNat ≤ d.chain.height := by
    have hheld : SnapshotsHeld { d with chain := {} } :=
      ⟨hsettled, hhistory, fun _ h ↦ (List.not_mem_nil h).elim⟩
    exact fun m hm ↦ Nat.le_trans (UInt32.le_iff_toNat_le.mp (hheld.version_le hm)) habove
  apply ((saveChain_spec env d.chain.height d.chain d).and hreturns).mono
  intro r d' h
  have ⟨hsaved, hr⟩ := h
  have ⟨operations, chainStore, snapshots, hstore, hsnapshots⟩ := hsaved
  cases r with
  | ok _ =>
      have ⟨hlimit, hstore⟩ := hstore
      rcases hstore with ⟨hsame, _⟩ | hstore
      · rw [hsame, toNat_version hlimit] at habove
        omega
      · have hsave := hhistory.save hlimit hmarks hcheckpoints
        rw [show snapshots = _ from hsnapshots, hstore]
        apply SnapshotsHeld.leaves
        refine ⟨hsettled.saved .., hsave, fun c hc ↦ ?_⟩
        have ⟨chain, hchain⟩ := hsave.each _ (List.mem_append_right _ (List.mem_singleton_self _))
        rw [← Option.some.inj hchain.value] at hchain
        have ⟨hpos, _, hcommitted⟩ := hchain.checkpoints c hc
        exact ⟨hpos, hcommitted⟩
  | error e =>
      cases e with
      | exception e => exact nomatch hr
      | stopped =>
          refine ⟨.inr ?_, fun h ↦ absurd rfl h⟩
          dsimp only
          rw [hstore.2 rfl, show snapshots = _ from hsnapshots, hsettled.disk]
          exact hhistory

/-- A relation of dealers that agree on the chain, its store and its snapshots. -/
structure SameChain (d d' : Dealer) : Prop where
  chain : d'.chain = d.chain
  chainStore : d'.chainStore = d.chainStore
  snapshots : d'.snapshots = d.snapshots

theorem SameChain.pendingFrame : PendingFrame SameChain where
  refl _ := ⟨rfl, rfl, rfl⟩
  trans _ _ _ h h' := ⟨h'.chain.trans h.chain, h'.chainStore.trans h.chainStore,
    h'.snapshots.trans h.snapshots⟩
  next _ := ⟨rfl, rfl, rfl⟩
  pending _ _ _ := ⟨rfl, rfl, rfl⟩
  pendingStore _ _ := ⟨rfl, rfl, rfl⟩

theorem SnapshotsHeld.same {d d' : Dealer} (h : SnapshotsHeld d) (hd : SameChain d d') :
    SnapshotsHeld d' :=
  h.of_eq hd.chainStore hd.snapshots (congrArg ChainState.checkpoints hd.chain)

theorem SnapshotsHeld.steps {α : Type} {d : Dealer} {m : DealerM α} (h : SnapshotsHeld d)
    (hm : Steps SameChain m) : After d m fun r d' ↦ Leaves r d' :=
  (hm d).mono fun r _ hd ↦ (h.same hd).leaves r

theorem updateTip_held {env : Env} {config : DealerConfig} {d : Dealer} (h : SnapshotsHeld d)
    (tipHeight : Nat) (pendingChanged : Bool)
    (hsaves : OnReturn d (refreshTip env config tipHeight) fun _ d' ↦
      SavesSnapshot env tipHeight d') :
    After d (updateTip env config tipHeight pendingChanged) Leaves := by
  apply After.bind
  apply ((refreshTip_spec env config tipHeight d).onReturn hsaves).mono
  intro r d₁ hspec
  have ⟨hspec, hsaves⟩ := hspec
  cases r with
  | error e =>
      -- the checkpoints are as they were
      have ⟨operations, height, hash, tables, _⟩ := hspec
      have hheld : SnapshotsHeld { d with
          operations, chain := { d.chain with height, hash, tables } } := h.of_eq rfl rfl rfl
      exact hheld.leaves _
  | ok merged =>
      have hsaves := hsaves merged rfl
      have ⟨operations, hash, checkpoints, tables, pending, dropped, hcheckpoints, _⟩ := hspec
      apply After.read
      apply After.bind
      apply (saveChain_held ?_ ?_ ?_ rfl hsaves).mono
      · intro r d₂ h₂
        cases r with
        | error e => exact ⟨h₂.1, fun hr ↦ h₂.2 fun h ↦ hr (by cases h; rfl)⟩
        | ok _ =>
            have hheld := h₂.2 fun h ↦ nomatch h
            have hframe := SameChain.pendingFrame
            exact hheld.steps (hframe.onlyIf (Steps.read fun d ↦ hframe.savePending env d.pending))
      · exact h.settled
      · exact h.history
      · intro c hc
        rcases hcheckpoints c hc with hold | hnew
        · exact .inl (h.checkpoints c hold)
        · exact .inr hnew

theorem recordTip_held {env : Env} {config : DealerConfig} {d : Dealer} (h : SnapshotsHeld d)
    (info : NodeInfo) (oldChain : ChainState) (rolledBack : Bool)
    (hsaves : AtSave env config info oldChain rolledBack
      (fun _ d ↦ SavesSnapshot env info.height d) d) :
    After d (recordTip env config info oldChain rolledBack) Leaves := by
  apply After.bind
  have hrecover := SameChain.pendingFrame.recoverDeployments oldChain info.height rolledBack d
  apply (hrecover.onReturn hsaves).mono
  intro r d₁ hspec
  have ⟨hsame, hsaves⟩ := hspec
  have h₁ := h.same hsame
  cases r with
  | error e => exact h₁.leaves _
  | ok pendingChanged =>
      have hobserved : SnapshotsHeld (d₁.observed info) := h₁.of_eq rfl rfl rfl
      apply After.read
      apply After.bind
      apply After.modify
      apply After.ite
      · exact fun hrecorded ↦
          updateTip_held hobserved info.height pendingChanged (hsaves pendingChanged rfl hrecorded)
      · exact fun _ ↦ After.pure (hobserved.leaves _)

theorem synchronize_held {env : Env} {config : DealerConfig} {d : Dealer} (h : SnapshotsHeld d)
    (hkeeps : KeepsSnapshots env config d) : After d (synchronize env config) Leaves := by
  apply After.bind
  have hcounted : After d (call env env.node.nodeInfo) fun _ d' ↦ Counted d d' :=
    Counted.frame.call env _ d
  apply (hcounted.onReturn hkeeps).mono
  intro r d₁ hspec
  have ⟨hd₁, hkeeps⟩ := hspec
  have h₁ : SnapshotsHeld d₁ := by
    rw [hd₁.dealer]
    exact h.of_eq rfl rfl rfl
  cases r with
  | error e => exact h₁.leaves _
  | ok info =>
      apply After.read
      apply After.bind
      apply ((rollbackIfNeeded_held h₁ info.height).and (hkeeps info rfl)).mono
      intro r d₂ hspec
      have ⟨hheld, hkeeps⟩ := hspec
      cases r with
      | error e =>
          refine ⟨hheld.1, fun hr ↦ hheld.2 (hkeeps fun h ↦ hr (by rw [h]))⟩
      | ok rolledBack =>
          apply After.bind
          apply (recordTip_held hheld.1 info _ rolledBack hkeeps).mono
          intro r d₃ h₃
          cases r with
          | error e => exact ⟨h₃.1, fun hr ↦ h₃.2 fun h ↦ hr (by cases h; rfl)⟩
          | ok _ =>
              have hheld := h₃.2 fun h ↦ nomatch h
              have hframe := SameChain.pendingFrame
              exact hheld.steps (hframe.bind (hframe.scaleTables env config) fun _ ↦ hframe.pure _)

/-! ## 7. Runs -/

/-- The invariant of the process. -/
structure Process.SnapshotsSafe (p : Process) : Prop where
  recoverable : Recoverable p.dealer
  held : p.running = true → SnapshotsHeld p.dealer

theorem Process.SnapshotsSafe.act {env : Env} {config : DealerConfig} {p : Process}
    (h : p.SnapshotsSafe) (a : ProcessAction) (hallowed : p.keepsSnapshots env config a) :
    (p.act env config a).SnapshotsSafe := by
  cases a with
  | synchronize =>
      apply act_synchronize
      · exact fun _ ↦ h
      · intro hrunning
        apply (synchronize_held (h.held hrunning) (hallowed hrunning)).mono
        intro r d hleaves
        refine ⟨hleaves.1, fun hgoes ↦ hleaves.2 fun hr ↦ ?_⟩
        rw [hr] at hgoes
        exact nomatch hgoes
  | restart =>
      apply act_restart
      apply (startUp_held h.recoverable).mono
      intro r d hstart
      cases r with
      | ok _ => exact ⟨hstart.recoverable, fun _ ↦ hstart⟩
      | error e => exact ⟨hstart, fun h ↦ nomatch h⟩

/-- As long as the snapshots of the process are kept, each of its rollbacks restores the snapshot of the
ancestor. -/
theorem rollback_restores (env : Env) (config : DealerConfig) (actions : List ProcessAction)
    (h : Meets (Process.act env config) (Process.keepsSnapshots env config) Process.start actions)
    (hrunning : (run (Process.act env config) Process.start actions).running = true) :
    RollbackRestores env (run (Process.act env config) Process.start actions).dealer := by
  have hstart : Process.start.SnapshotsSafe := ⟨.inl rfl, fun h ↦ nomatch h⟩
  have hsafe := h.invariant hstart fun _ a hp hallowed ↦ hp.act a hallowed
  have hheld := hsafe.held hrunning
  have hcounted := Counted.frame.call env env.node.nodeInfo
    (run (Process.act env config) Process.start actions).dealer
  apply hcounted.returned
  intro info d₁ hd₁
  have h₁ : SnapshotsHeld d₁ := by
    rw [Counted.dealer hd₁]
    exact hheld.of_eq rfl rfl rfl
  exact (rollbackIfNeeded_held h₁ info.height).returned fun _ _ h ↦ h.2

/-! ## 8. A snapshot that is not saved -/

/-- The tips are at 5, 7, 9 and 10; the last one is on a branch that leaves the others behind 7. -/
def branchNode : Node :=
  { Node.silent with
    nodeInfo := fun n ↦ .ok ⟨if n < 10 then 5 else if n < 15 then 7 else if n < 20 then 9 else 10, 0, true⟩
    headerHash := fun n height ↦ .ok (if n < 20 ∨ height ≤ 7 then "old" else "new") }

/-- One operation on a store can fail. -/
def branchEnv (failing : Nat) : Env :=
  ⟨branchNode, fun n ↦ if n = failing then .failed .nowhere else .done, fun _ ↦ false, fun _ ↦ 0⟩

def branchConfig : DealerConfig := ⟨100, 10, 1, []⟩

theorem RollbackRestores.height_eq {env : Env} {d : Dealer} (h : RollbackRestores env d)
    (height : Nat) :
    OnReturn d (call env env.node.nodeInfo) fun info d₁ ↦
      OnReturn d₁ (rollbackIfNeeded env info.height) fun rolledBack d₂ ↦
        rolledBack = true → d₂.journal.getLast? = some (.reverted height) →
          d₂.chain.height = height := by
  apply h.mono
  intro info d₁ h
  apply h.mono
  intro rolledBack d₂ h hrolled hlast
  have ⟨ancestor, hjournal, hrestored⟩ := h hrolled
  rw [hjournal, List.getLast?_concat] at hlast
  cases hlast
  exact hrestored.height

/-- The commit of the snapshot for height 7 fails, and a rollback to 7 loads that for height 9. -/
theorem rollback_restores_fails :
    ¬∀ (env : Env) (config : DealerConfig) (actions : List ProcessAction),
      (run (Process.act env config) Process.start actions).running = true →
      RollbackRestores env (run (Process.act env config) Process.start actions).dealer := by
  intro h
  have hrestores := h (branchEnv 14) branchConfig [.restart, .synchronize, .synchronize, .synchronize]
    (by decide +kernel)
  exact absurd (hrestores.height_eq 7) (by decide +kernel)

/-- The same tips when no operation fails. -/
theorem rollback_restores_branch :
    RollbackRestores (branchEnv 100) (run (Process.act (branchEnv 100) branchConfig) Process.start
      [.restart, .synchronize, .synchronize, .synchronize]).dealer :=
  rollback_restores (branchEnv 100) branchConfig _ (by decide +kernel) (by decide +kernel)

end Stainless.Poker
