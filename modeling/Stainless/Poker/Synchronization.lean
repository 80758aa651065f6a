import Stainless.Reasoning.Runs
import Stainless.Poker.Frames

/-!
# What a synchronization does

One specification for each part of a synchronization: what it returns and what it changes of the chain,
of the pending tables and of their stores.
-/

open Reasoning

namespace Stainless.Poker

/-! ## 1. Tables -/

def tableAddresses (tables : List Table) : List String := tables.map Table.address

def pendingAddresses (pending : List PendingTable) : List String := pending.map PendingTable.address

def droppedAddresses (dropped : List GivenUp) : List String := dropped.map fun g ↦ g.table.address

theorem tableKnown_iff {chain : ChainState} {address : String} :
    tableKnown chain address = true ↔ address ∈ tableAddresses chain.tables := by
  unfold tableKnown tableAddresses
  rw [List.any_eq_true, List.mem_map]
  simp

theorem pendingKnown_iff {pending : List PendingTable} {address : String} :
    pendingKnown pending address = true ↔ address ∈ pendingAddresses pending := by
  unfold pendingKnown pendingAddresses
  rw [List.any_eq_true, List.mem_map]
  simp

/-- Only tables of the chain changed, and none is gone. -/
inductive TablesGrow (d : Dealer) : Dealer → Prop
  | intro (operations : Nat) (tables : List Table)
      (grow : ∀ address ∈ tableAddresses d.chain.tables, address ∈ tableAddresses tables) :
      TablesGrow d { d with operations, chain := { d.chain with tables } }

theorem TablesGrow.frame : Frame TablesGrow where
  refl d := .intro d.operations d.chain.tables fun _ h ↦ h
  trans _ _ _ h h' := by
    have ⟨_, _, grow⟩ := h
    have ⟨_, _, grow'⟩ := h'
    exact .intro _ _ fun _ ha ↦ grow' _ (grow _ ha)
  next d := .intro _ d.chain.tables fun _ h ↦ h

theorem TablesGrow.grow {d d' : Dealer} (h : TablesGrow d d') :
    ∀ address ∈ tableAddresses d.chain.tables, address ∈ tableAddresses d'.chain.tables := by
  have ⟨_, _, grow⟩ := h
  exact grow

theorem tablesGrow_updateTable {index : Nat} {f : Table → Table}
    (hf : ∀ table, (f table).address = table.address) : Steps TablesGrow (updateTable index f) := by
  apply Steps.modify
  intro d
  apply TablesGrow.intro d.operations
  have haddresses : tableAddresses (d.chain.tables.modify index f) =
      tableAddresses d.chain.tables := by
    apply List.ext_getElem?
    intro j
    unfold tableAddresses
    rw [List.getElem?_map, List.getElem?_map, List.getElem?_modify]
    cases d.chain.tables[j]? with
    | none => rfl
    | some table =>
        change some (if index = j then f table else table).address = some table.address
        by_cases hj : index = j
        · rw [if_pos hj, hf]
        · rw [if_neg hj]
  intro address h
  rwa [haddresses]

theorem tablesGrow_refreshTable (env : Env) (height index : Nat) :
    Steps TablesGrow (refreshTable env height index) := by
  have hframe := TablesGrow.frame
  apply Steps.read
  intro d
  apply hframe.catchRust
  · apply hframe.bind (hframe.call env _)
    intro status
    apply hframe.bind (hframe.call env _)
    intro config
    apply hframe.bind (hframe.liftOutcome _)
    intro status
    apply hframe.bind
    · exact tablesGrow_updateTable fun _ ↦ rfl
    · intro _
      exact hframe.bind (hframe.liftOutcome _) fun config ↦ tablesGrow_updateTable fun _ ↦ rfl
  · intro message
    exact tablesGrow_updateTable fun _ ↦ rfl

theorem tablesGrow_refreshTables (env : Env) : Steps TablesGrow (refreshTables env) :=
  Steps.read fun _ ↦ Steps.foldlM TablesGrow.frame.refl TablesGrow.frame.trans
    (fun _ _ ↦ tablesGrow_refreshTable env _ _) _ _

/-- A table that is confirmed is known to the chain. -/
theorem confirmTable_spec (env : Env) (table : PendingTable) (d : Dealer) :
    After d (confirmTable env table) fun r d' ↦
      TablesGrow d d' ∧ (r = .ok () → table.address ∈ tableAddresses d'.chain.tables) := by
  have hframe := TablesGrow.frame
  apply After.bind
  apply (hframe.call env _ d).mono
  intro r d₁ h₁
  cases r with
  | error e => exact ⟨h₁, fun h ↦ nomatch h⟩
  | ok status =>
      apply After.bind
      apply ((hframe.call env _).after hframe.trans h₁).mono
      intro r d₂ h₂
      cases r with
      | error e => exact ⟨h₂, fun h ↦ nomatch h⟩
      | ok tableConfig =>
          apply After.read
          apply After.ite
          -- the answers are converted only for a table that is not known yet
          · intro hunknown
            apply After.bind
            apply ((hframe.liftOutcome status).after hframe.trans h₂).mono
            intro r d₃ h₃
            cases r with
            | error e => exact ⟨h₃, fun h ↦ nomatch h⟩
            | ok status =>
                apply After.bind
                apply ((hframe.liftOutcome tableConfig).after hframe.trans h₃).mono
                intro r d₄ h₄
                cases r with
                | error e => exact ⟨h₄, fun h ↦ nomatch h⟩
                | ok tableConfig =>
                    apply After.modify
                    constructor
                    · apply hframe.trans _ _ _ h₄
                      apply TablesGrow.intro d₄.operations
                      intro address h
                      rw [tableAddresses, List.map_append]
                      exact List.mem_append_left _ h
                    · intro _
                      change table.address ∈ tableAddresses (d₄.chain.tables ++ [_])
                      rw [tableAddresses, List.map_append]
                      exact List.mem_append_right _ (List.mem_singleton_self _)
          · intro hknown
            apply After.pure
            refine ⟨h₂, fun _ ↦ ?_⟩
            rw [Bool.not_eq_true, Bool.not_eq_false'] at hknown
            exact tableKnown_iff.mp hknown

/-! ## 2. Pending tables -/

/-- How far `merge_pending` is in the pending tables of `d`: each one it has seen remains, is known to
the chain or was given up. -/
structure Merging (config : DealerConfig) (d : Dealer) (seen : List PendingTable) (acc : Merge) (d' : Dealer) : Prop where
  tables : TablesGrow d d'
  accounted : ∀ table ∈ seen, table ∈ acc.remaining ∨
    table.address ∈ tableAddresses d'.chain.tables ∨ table.address ∈ droppedAddresses acc.timedOut
  timedOut : ∀ g ∈ acc.timedOut, g.table ∈ seen ∧ g.height = d.chain.height ∧
    deploymentTimedOut config g.height g.table = true
  remaining : ∀ table ∈ acc.remaining, table ∈ seen
  unchanged : acc.changed = false → acc.remaining = seen ∧ acc.timedOut = []

theorem Merging.next {config : DealerConfig} {d d₁ d₂ : Dealer} {seen : List PendingTable}
    {acc acc' : Merge} {table : PendingTable} (h : Merging config d seen acc d₁) (hgrow : TablesGrow d₁ d₂)
    (hremaining : ∀ t, t ∈ acc'.remaining → t ∈ acc.remaining ∨ t = table)
    (hkept : ∀ t, t ∈ acc.remaining → t ∈ acc'.remaining)
    (hkeptOut : ∀ g, g ∈ acc.timedOut → g ∈ acc'.timedOut)
    (htimedOut : ∀ g, g ∈ acc'.timedOut → g ∈ acc.timedOut ∨ g.table = table ∧
      g.height = d.chain.height ∧ deploymentTimedOut config g.height g.table = true)
    (htable : table ∈ acc'.remaining ∨ table.address ∈ tableAddresses d₂.chain.tables ∨
      table.address ∈ droppedAddresses acc'.timedOut)
    (hchanged : acc'.changed = false → acc.changed = false ∧
      acc'.remaining = acc.remaining ++ [table] ∧ acc'.timedOut = acc.timedOut) :
    Merging config d (seen ++ [table]) acc' d₂ where
  tables := TablesGrow.frame.trans _ _ _ h.tables hgrow
  accounted t ht := by
    rcases List.mem_append.mp ht with ht | ht
    · rcases h.accounted t ht with hr | hc | ho
      · exact .inl (hkept t hr)
      · exact .inr (.inl (hgrow.grow _ hc))
      · exact .inr (.inr (List.map_subset _ hkeptOut ho))
    · rw [List.mem_singleton.mp ht]
      exact htable
  timedOut g hg := by
    rcases htimedOut g hg with hg | ⟨hg, hout⟩
    · have ⟨hseen, hout⟩ := h.timedOut g hg
      exact ⟨List.mem_append_left _ hseen, hout⟩
    · exact ⟨List.mem_append_right _ (List.mem_singleton.mpr hg), hout⟩
  remaining t ht := by
    rcases hremaining t ht with ht | rfl
    · exact List.mem_append_left _ (h.remaining t ht)
    · exact List.mem_append_right _ (List.mem_singleton_self _)
  unchanged hfalse := by
    have ⟨hacc, hrem, hout⟩ := hchanged hfalse
    have ⟨hseen, hnone⟩ := h.unchanged hacc
    exact ⟨by rw [hrem, hseen], by rw [hout, hnone]⟩

theorem mergeTable_spec (env : Env) (config : DealerConfig) {d d₁ : Dealer}
    {seen : List PendingTable} {acc : Merge} (table : PendingTable)
    (h : Merging config d seen acc d₁) :
    After d₁ (mergeTable env config acc table) fun r d₂ ↦ match r with
      | .ok acc' => Merging config d (seen ++ [table]) acc' d₂
      | .error _ => TablesGrow d d₂ := by
  apply After.tryCatch
  apply After.bind
  apply (confirmTable_spec env table d₁).mono
  intro r d₂ hspec
  have ⟨hgrow, hknown⟩ := hspec
  have hall := TablesGrow.frame.trans _ _ _ h.tables hgrow
  cases r with
  | ok _ =>
      apply After.pure
      exact h.next hgrow (fun _ ↦ .inl) (fun _ h ↦ h) (fun _ h ↦ h) (fun _ ↦ .inl)
        (.inr (.inl (hknown rfl))) fun h ↦ nomatch h
  | error e =>
      -- only an error of the node is taken as an answer
      cases e with
      | stopped => exact After.throw hall
      | exception e =>
          cases e with
          | json message => exact After.throw hall
          | enum message => exact After.throw hall
          | config message => exact After.throw hall
          | store message => exact After.throw hall
          | rust message =>
              apply After.read
              apply After.ite
              · intro hout
                apply After.pure
                have hheight : d₂.chain.height = d.chain.height := by
                  have ⟨_, _, _⟩ := hall
                  rfl
                refine h.next hgrow (fun _ ↦ .inl) (fun _ h ↦ h) (fun _ ↦ List.mem_append_left _)
                  (fun g hg ↦ ?_) (.inr (.inr ?_)) fun h ↦ nomatch h
                · refine (List.mem_append.mp hg).imp_right fun hg ↦ ?_
                  rw [List.mem_singleton.mp hg]
                  exact ⟨rfl, hheight, hout⟩
                · rw [droppedAddresses, List.map_append]
                  exact List.mem_append_right _ (List.mem_singleton_self _)
              · intro _
                apply After.pure
                refine Merging.next h hgrow (fun t ht ↦ ?_) (fun _ ↦ List.mem_append_left _)
                  (fun _ h ↦ h) (fun _ ↦ .inl)
                  (.inl (List.mem_append_right _ (List.mem_singleton_self _)))
                  fun hfalse ↦ ⟨hfalse, rfl, rfl⟩
                rcases List.mem_append.mp ht with ht | ht
                · exact .inl ht
                · exact .inr (List.mem_singleton.mp ht)

/-- Every pending table remains, is known to the chain or was given up at this height, and the chain loses
none. -/
structure Handed (config : DealerConfig) (d : Dealer) (height : Nat) (merged : Bool)
    (tables : List Table) (pending : List PendingTable) (dropped : List GivenUp) : Prop where
  grow : ∀ address ∈ tableAddresses d.chain.tables, address ∈ tableAddresses tables
  givenUp : d.dropped ⊆ dropped
  timedOut : ∀ g ∈ dropped, g ∈ d.dropped ∨ g.table ∈ d.pending ∧ g.height = height ∧
    deploymentTimedOut config g.height g.table = true
  kept : ∀ address ∈ pendingAddresses d.pending, address ∈ pendingAddresses pending ∨
    address ∈ tableAddresses tables ∨ address ∈ droppedAddresses dropped
  remaining : ∀ address ∈ pendingAddresses pending, address ∈ pendingAddresses d.pending
  unchanged : merged = false → pending = d.pending

/-- What `merge_pending` changes when it returns. -/
inductive Merged (config : DealerConfig) (d : Dealer) (merged : Bool) : Dealer → Prop
  | intro (operations : Nat) (tables : List Table) (pending : List PendingTable)
      (dropped : List GivenUp)
      (handed : Handed config d d.chain.height merged tables pending dropped) :
      Merged config d merged { d with operations, chain := { d.chain with tables }, pending, dropped }

theorem mergePending_spec (env : Env) (config : DealerConfig) (d : Dealer) :
    After d (mergePending env config) fun r d' ↦ match r with
      | .ok merged => Merged config d merged d'
      | .error _ => TablesGrow d d' := by
  apply After.read
  apply After.bind
  -- the loop has seen what is not left of the list
  have hloop : After d (d.pending.foldlM (mergeTable env config) {}) fun r d' ↦ match r with
      | .ok acc => ∃ seen, d.pending = seen ∧ Merging config d seen acc d'
      | .error _ => TablesGrow d d' := by
    have hstart : Merging config d [] {} d :=
      ⟨TablesGrow.frame.refl d, fun _ h ↦ (List.not_mem_nil h).elim,
        fun _ h ↦ (List.not_mem_nil h).elim, fun _ h ↦ (List.not_mem_nil h).elim,
        fun _ ↦ ⟨rfl, rfl⟩⟩
    apply (After.foldlM
      (I := fun rest acc d' ↦ ∃ seen, d.pending = seen ++ rest ∧
        Merging config d seen acc d')
      (E := fun _ d' ↦ TablesGrow d d') ⟨[], rfl, hstart⟩ ?_).mono
    · intro r d₁ hr
      cases r with
      | error e => exact hr
      | ok acc =>
          have ⟨seen, hsplit, hmerging⟩ := hr
          exact ⟨seen, by rw [hsplit, List.append_nil], hmerging⟩
    · intro table rest acc d₁ hI
      have ⟨seen, hsplit, hmerging⟩ := hI
      apply (mergeTable_spec env config table hmerging).mono
      intro r d₂ hr
      cases r with
      | error e => exact hr
      | ok acc' => exact ⟨seen ++ [table], by rw [hsplit, List.append_assoc]; rfl, hr⟩
  apply hloop.mono
  intro r d₁ hr
  cases r with
  | error e => exact hr
  | ok merge =>
      have ⟨seen, hsplit, hmerging⟩ := hr
      subst hsplit
      have ⟨_, haccounted, htimedOut, hremaining, hunchanged⟩ := hmerging
      have ⟨operations, tables, grow⟩ := hmerging.tables
      apply After.bind
      apply After.ite
      · intro hchanged
        apply After.modify
        apply After.pure
        apply Merged.intro operations tables merge.remaining
        refine ⟨grow, List.subset_append_left .., fun g hg ↦ ?_, ?_, ?_, ?_⟩
        · exact (List.mem_append.mp hg).imp_right (htimedOut g)
        · intro address haddress
          have ⟨table, htable, hname⟩ := List.mem_map.mp haddress
          rw [← hname]
          rcases haccounted table htable with hr | hc | ho
          · exact .inl (List.mem_map_of_mem hr)
          · exact .inr (.inl hc)
          · refine .inr (.inr ?_)
            rw [droppedAddresses, List.map_append]
            exact List.mem_append_right _ ho
        · intro address haddress
          have ⟨table, htable, hname⟩ := List.mem_map.mp haddress
          rw [← hname]
          exact List.mem_map_of_mem (hremaining table htable)
        · intro hfalse
          exact nomatch hchanged.symm.trans hfalse
      · intro _
        apply After.pure
        apply After.pure
        apply Merged.intro operations tables d.pending d.dropped
        exact ⟨grow, List.Subset.refl _, fun _ ↦ .inl, fun _ ↦ .inl, fun _ h ↦ h, fun _ ↦ rfl⟩

/-! ## 3. The tip -/

/-- What `refreshTip` changes when it returns. -/
inductive Refreshed (config : DealerConfig) (d : Dealer) (tipHeight : Nat) (merged : Bool) :
    Dealer → Prop
  | intro (operations : Nat) (hash : String) (checkpoints : List Checkpoint) (tables : List Table)
      (pending : List PendingTable) (dropped : List GivenUp)
      (hcheckpoints : ∀ c ∈ checkpoints, c ∈ d.chain.checkpoints ∨ c.height = tipHeight)
      (handed : Handed config d tipHeight merged tables pending dropped) :
      Refreshed config d tipHeight merged { d with
        operations
        chain := { d.chain with height := tipHeight, hash, checkpoints, tables }
        pending
        dropped }

/-- What it changes when it throws: tables are confirmed, but none is taken from the pending ones. -/
inductive PartlyRefreshed (d : Dealer) : Dealer → Prop
  | intro (operations : Nat) (height : Nat) (hash : String) (tables : List Table)
      (grow : ∀ address ∈ tableAddresses d.chain.tables, address ∈ tableAddresses tables) :
      PartlyRefreshed d { d with operations, chain := { d.chain with height, hash, tables } }

theorem TablesGrow.partly {d d' : Dealer} {height : Nat} {hash : String}
    (h : TablesGrow { d with chain := { d.chain with height, hash } } d') : PartlyRefreshed d d' := by
  have ⟨operations, tables, grow⟩ := h
  exact .intro operations height hash tables grow

theorem refreshTip_spec (env : Env) (config : DealerConfig) (tipHeight : Nat) (d : Dealer) :
    After d (refreshTip env config tipHeight) fun r d' ↦ match r with
      | .ok merged => Refreshed config d tipHeight merged d'
      | .error _ => PartlyRefreshed d d' := by
  have hframe := TablesGrow.frame
  apply After.bind
  apply (Counted.frame.call env _ d).mono
  intro r d₁ h₁
  rw [h₁.dealer]
  cases r with
  | error e => exact .intro _ _ _ _ fun _ h ↦ h
  | ok hash =>
      apply After.bind
      apply After.modify
      -- the tip is set before its tables are read, so it stays when they cannot be
      have hstart : TablesGrow { d with chain := { d.chain with height := tipHeight, hash } }
          { d with
            operations := d₁.operations
            chain := { d.chain with height := tipHeight, hash } } :=
        .intro _ _ fun _ h ↦ h
      apply After.bind
      apply ((tablesGrow_refreshTables env).after hframe.trans hstart).mono
      intro r d₂ h₂
      cases r with
      | error e => exact h₂.partly
      | ok _ =>
          apply After.bind
          apply (mergePending_spec env config d₂).mono
          intro r d₃ h₃
          cases r with
          | error e => exact (hframe.trans _ _ _ h₂ h₃).partly
          | ok merged =>
              have ⟨_, tables₂, grow₂⟩ := h₂
              have ⟨operations, tables, pending, dropped, handed⟩ := h₃
              apply After.bind
              apply After.modify
              apply After.pure
              apply Refreshed.intro operations hash
              · intro c hc
                rcases List.mem_append.mp (List.mem_of_mem_drop hc) with hmem | hmem
                · exact .inl hmem
                · rw [List.mem_singleton.mp hmem]
                  exact .inr rfl
              · exact ⟨fun _ h ↦ handed.grow _ (grow₂ _ h), handed.givenUp,
                  handed.timedOut, handed.kept, handed.remaining, handed.unchanged⟩

/-! ## 4. Snapshots -/

/-- What the store of the chain is after `save_chain`, by its outcome. -/
def SavedChain (store : Store ChainState) (height : Nat) (chain : ChainState) (r : Except Exit Unit)
    (store' : Store ChainState) : Prop :=
  match r with
  | .ok _ => height < heightLimit ∧
      ((store.currentVersion = UInt32.ofNat (height + 1) ∧ store' = store.insert chain) ∨
        store' = store.saved chain (UInt32.ofNat (height + 1)))
  | .error e => store.FailedToSave chain (UInt32.ofNat (height + 1)) store' ∧
      (e = .stopped → store'.disk = store.disk)

/-- What `save_chain` changes. -/
inductive ChainSaved (d : Dealer) (height : Nat) (chain : ChainState) (r : Except Exit Unit) :
    Dealer → Prop
  | intro (operations : Nat) (chainStore : Store ChainState) (snapshots : List (Nat × ChainState))
      (hstore : SavedChain d.chainStore height chain r chainStore)
      (hsnapshots : snapshots =
        if r.isOk then d.snapshots ++ [(height, chain)] else d.snapshots) :
      ChainSaved d height chain r { d with operations, chainStore, snapshots }

theorem saveChain_spec (env : Env) (height : Nat) (chain : ChainState) (d : Dealer) :
    After d (saveChain env height chain) (ChainSaved d height chain) := by
  have herror (e : Exit) (operations : Nat) (chainStore : Store ChainState)
      (hfailed : d.chainStore.FailedToSave chain (UInt32.ofNat (height + 1)) chainStore)
      (hstopped : e = .stopped → chainStore.disk = d.chainStore.disk) :
      ChainSaved d height chain (.error e) { d with operations, chainStore } :=
    .intro operations chainStore d.snapshots ⟨hfailed, hstopped⟩ rfl
  apply After.bind
  apply After.ite
  · exact fun _ ↦ After.throw
      (herror _ d.operations d.chainStore (Store.failedToSave_refl ..) fun _ ↦ rfl)
  · intro hheight
    have hlimit := Nat.lt_of_not_le hheight
    apply After.pure
    apply After.bind
    apply after_insert
    · intro d₁ h₁
      rw [h₁.dealer]
      apply After.bind
      apply After.read
      apply After.pure
      apply After.bind
      apply After.ite
      -- a snapshot that the store has already is not committed again
      · intro _
        apply After.bind
        apply after_commit
        · intro d₂ h₂
          rw [h₂.dealer]
          apply After.ite
          · intro hrefused
            apply After.throw
            apply herror
            · exact Store.failedToSave_refused hrefused
            · exact fun h ↦ nomatch h
          · intro hcommitted
            apply After.pure
            apply After.modify
            exact .intro d₂.operations _ _ ⟨hlimit, .inr (Store.commit_insert hcommitted)⟩ rfl
        · exact herror _ _ _ (Store.failedToSave_insert ..) fun _ ↦ rfl
        · intro landed d₂ h₂
          rw [h₂.dealer]
          exact herror _ _ _ (Store.failedToSave_commit ..) fun h ↦ nomatch h
      · intro hsame
        apply After.pure
        apply After.modify
        exact .intro d₁.operations _ _ ⟨hlimit, .inl ⟨not_not.mp hsame, rfl⟩⟩ rfl
    · intro e d₁ h₁
      rw [h₁.dealer]
      exact herror e _ _ (Store.failedToSave_refl ..) fun _ ↦ rfl

/-! ## 5. Rollback -/

/-- The ancestor is the height of one of the checkpoints. -/
theorem findAncestor_spec (env : Env) (tipHeight : Nat) (checkpoints : List Checkpoint) (d : Dealer) :
    After d (findAncestor env tipHeight checkpoints) fun r d' ↦
      Counted d d' ∧ ∀ height, r = .ok (some height) → ∃ c ∈ checkpoints, c.height = height := by
  induction checkpoints generalizing d with
  | nil => exact After.pure ⟨Counted.frame.refl d, fun _ h ↦ nomatch h⟩
  | cons checkpoint older ih =>
      have hmatches : Steps Counted
          (catchRust (checkpointMatches env checkpoint tipHeight) fun _ ↦ return false) :=
        Counted.frame.catchRust
          (Steps.ite (Counted.frame.pure _) (Counted.frame.bind (Counted.frame.call env _)
            fun _ ↦ Counted.frame.pure _))
          fun _ ↦ Counted.frame.pure _
      apply After.bind
      apply (hmatches d).mono
      intro r d₁ h₁
      cases r with
      | error e => exact ⟨h₁, fun _ h ↦ nomatch h⟩
      | ok found =>
          apply After.ite
          · intro _
            apply After.pure
            refine ⟨h₁, fun height h ↦ ?_⟩
            cases h
            exact ⟨checkpoint, List.mem_cons_self .., rfl⟩
          · intro _
            apply (ih d₁).mono
            intro r d₂ h₂
            refine ⟨Counted.frame.trans _ _ _ h₁ h₂.1, fun height h ↦ ?_⟩
            have ⟨c, hc, hheight⟩ := h₂.2 height h
            exact ⟨c, List.mem_cons_of_mem _ hc, hheight⟩

/-- The store is as it was, or it went back to an ancestor, or only its file did. -/
def MaybeReverted (store : Store ChainState) (ancestor : Nat) (store' : Store ChainState) : Prop :=
  store' = store ∨
    (∃ reverted, store.revert (UInt32.ofNat (ancestor + 1)) = some (reverted, store')) ∨
    ∃ reach, store.revertFailed (UInt32.ofNat (ancestor + 1)) reach = some store'

/-- What a rollback changes when it throws: perhaps the store, never the chain in memory. -/
inductive RollbackFailed (d : Dealer) (ancestor : Nat) : Dealer → Prop
  | intro (operations : Nat) (journal : List Happening) (chainStore : Store ChainState)
      (hstore : MaybeReverted d.chainStore ancestor chainStore) :
      RollbackFailed d ancestor { d with operations, journal, chainStore }

theorem Counted.rollbackFailed {d d' : Dealer} (h : Counted d d') (ancestor : Nat) :
    RollbackFailed d ancestor d' := by
  rw [h.dealer]
  exact .intro _ d.journal d.chainStore (.inl rfl)

/-- What a rollback to an ancestor changes when it returns. -/
inductive RollbackDone (d : Dealer) (ancestor : Nat) : Dealer → Prop
  | intro (operations : Nat) (chainStore : Store ChainState) (hheight : ancestor < heightLimit)
      (hrevert : d.chainStore.revert (UInt32.ofNat (ancestor + 1)) = some (true, chainStore)) :
      RollbackDone d ancestor { d with
        operations
        journal := d.journal ++ [.reverted ancestor]
        chainStore
        chain := chainStore.shown.getD {} }

theorem revertChain_spec (env : Env) (ancestor : Nat) (d : Dealer) :
    After d (revertChain env ancestor) fun r d' ↦ match r with
      | .ok _ => RollbackDone d ancestor d'
      | .error _ => RollbackFailed d ancestor d' := by
  apply After.bind
  apply After.ite
  · exact fun _ ↦ After.throw ((Counted.frame.refl d).rollbackFailed ancestor)
  · intro hheight
    apply After.pure
    apply After.bind
    apply after_revert
    · intro d₁ store h₁ hrevert
      rw [h₁.dealer] at hrevert ⊢
      apply After.bind
      apply After.pure
      apply After.bind
      apply After.bind
      apply after_find
      · intro d₂ h₂
        rw [h₂.dealer]
        apply After.pure
        apply After.modify
        exact RollbackDone.intro _ _ (Nat.lt_of_not_le hheight) hrevert
      · intro e d₂ h₂
        rw [h₂.dealer]
        exact .intro _ _ store (.inr (.inl ⟨_, hrevert⟩))
    · intro d₁ store h₁ hrevert
      rw [h₁.dealer] at hrevert ⊢
      apply After.bind
      exact After.throw (.intro _ d.journal store (.inr (.inl ⟨_, hrevert⟩)))
    · exact fun e d₁ h₁ ↦ h₁.rollbackFailed ancestor
    · intro reach d₁ store h₁ hrevert
      rw [h₁.dealer] at hrevert ⊢
      exact .intro _ _ store (.inr (.inr ⟨reach, hrevert⟩))

/-- The heights that a rollback can go back to. -/
def CommonAncestor (chain : ChainState) (ancestor : Nat) : Prop :=
  ancestor = 0 ∨ ∃ c ∈ chain.checkpoints, c.height = ancestor

/-- What `rollback_if_needed` does: nothing, or it goes back to a common ancestor. -/
theorem rollbackIfNeeded_spec (env : Env) (tipHeight : Nat) (d : Dealer) :
    After d (rollbackIfNeeded env tipHeight) fun r d' ↦ match r with
      | .ok false => Counted d d'
      | .ok true => ∃ ancestor, CommonAncestor d.chain ancestor ∧ RollbackDone d ancestor d'
      | .error _ => ∃ ancestor, CommonAncestor d.chain ancestor ∧ RollbackFailed d ancestor d' := by
  have hrefl := Counted.frame.refl d
  have hfailed {d' : Dealer} (h : Counted d d') :
      ∃ ancestor, CommonAncestor d.chain ancestor ∧ RollbackFailed d ancestor d' :=
    ⟨0, .inl rfl, h.rollbackFailed 0⟩
  apply After.read
  apply After.ite
  · exact fun _ ↦ After.pure hrefl
  · intro _
    apply After.bind
    have hcurrent : Steps Counted (currentMatches env d.chain tipHeight) :=
      Steps.ite (Counted.frame.catchRust (Counted.frame.bind (Counted.frame.call env _)
        fun _ ↦ Counted.frame.pure _) fun _ ↦ Counted.frame.pure _) (Counted.frame.pure _)
    apply (hcurrent d).mono
    intro r d₁ h₁
    cases r with
    | error e => exact hfailed h₁
    | ok same =>
        apply After.ite
        · exact fun _ ↦ After.pure h₁
        · intro _
          apply After.bind
          apply (findAncestor_spec env tipHeight _ d₁).mono
          intro r d₂ h₂
          have hcounted := Counted.frame.trans _ _ _ h₁ h₂.1
          cases r with
          | error e => exact hfailed hcounted
          | ok found =>
              have hancestor : CommonAncestor d.chain (found.getD 0) := by
                cases found with
                | none => exact .inl rfl
                | some height =>
                    have ⟨c, hc, hheight⟩ := h₂.2 height rfl
                    exact .inr ⟨c, List.mem_reverse.mp hc, hheight⟩
              apply After.bind
              apply (revertChain_spec env _ d₂).mono
              intro r d₃ h₃
              cases r with
              | error e =>
                  have ⟨operations, journal, chainStore, hstore⟩ := h₃
                  rw [hcounted.dealer] at hstore ⊢
                  exact ⟨_, hancestor, .intro operations journal chainStore hstore⟩
              | ok _ =>
                  apply After.pure
                  have ⟨operations, chainStore, hheight, hrevert⟩ := h₃
                  rw [hcounted.dealer] at hrevert ⊢
                  exact ⟨_, hancestor, .intro operations chainStore hheight hrevert⟩

/-! ## 6. The tip is recorded -/

/-- The chain as `synchronize` leaves it between the rollback and the refresh of the tip. -/
def Dealer.observed (d : Dealer) (info : NodeInfo) : Dealer :=
  { d with chain := { d.chain with time := info.time, synced := info.isSynced } }

/-- When the synchronization comes to the save of the snapshot, `P` holds of the dealer there and of
whether pending tables were merged. -/
def AtSave (env : Env) (config : DealerConfig) (info : NodeInfo) (oldChain : ChainState)
    (rolledBack : Bool) (P : Bool → Dealer → Prop) (d : Dealer) : Prop :=
  OnReturn d (recoverDeployments oldChain info.height rolledBack) fun _ d ↦
    ((info.height ≠ d.chain.height ∨ d.chain.hash = "") ∨ rolledBack = true) →
      OnReturn (d.observed info) (refreshTip env config info.height) P

instance AtSave.decidable (env : Env) (config : DealerConfig) (info : NodeInfo)
    (oldChain : ChainState) (rolledBack : Bool) (P : Bool → Dealer → Prop)
    [∀ merged d, Decidable (P merged d)] (d : Dealer) :
    Decidable (AtSave env config info oldChain rolledBack P d) :=
  inferInstanceAs (Decidable (OnReturn d _ fun _ d ↦ _ → OnReturn (d.observed info) _ P))

def threw {α : Type} : Except Exit α → Bool
  | .error (.exception _) => true
  | _ => false

/-! ## 7. The start -/

/-- The store of the chain after the start: it had a version already, or it got the empty baseline. -/
inductive Baseline (store : Store ChainState) : Store ChainState → Prop
  | kept (hversion : store.currentVersion ≠ 0) : Baseline store store
  | saved (hversion : store.currentVersion = 0) (hshown : store.shown = none) :
      Baseline store (store.saved {} 1)

/-- The store of the chain after a start that threw. -/
inductive BaselineFailed (store : Store ChainState) : Store ChainState → Prop
  | kept : BaselineFailed store store
  | saved (hversion : store.currentVersion = 0) (hshown : store.shown = none) :
      BaselineFailed store (store.saved {} 1)
  | failed (store' : Store ChainState) (hversion : store.currentVersion = 0)
      (hshown : store.shown = none) (hfailed : store.FailedToSave {} 1 store') :
      BaselineFailed store store'

theorem Baseline.interrupted {store store' : Store ChainState} (h : Baseline store store') :
    BaselineFailed store store' := by
  cases h with
  | kept _ => exact .kept
  | saved hversion hshown => exact .saved hversion hshown

theorem initializeChainStore_spec (env : Env) (d : Dealer) :
    After d (initializeChainStore env) fun r d' ↦ ∃ operations chainStore,
      d' = { d with operations, chainStore } ∧
        if r.isOk then Baseline d.chainStore chainStore else BaselineFailed d.chainStore chainStore := by
  apply After.bind
  apply After.read
  apply After.pure
  apply After.ite
  · intro hversion
    exact After.pure ⟨_, _, rfl, .kept hversion⟩
  · intro hversion
    have hzero := not_not.mp hversion
    have herror {e : Exit} {d' : Dealer} (h : Counted d d') : ∃ operations chainStore,
        d' = { d with operations, chainStore } ∧
          if (.error e : Except Exit Unit).isOk then Baseline d.chainStore chainStore
          else BaselineFailed d.chainStore chainStore :=
      ⟨d'.operations, d.chainStore, h.dealer, .kept⟩
    apply After.bind
    apply after_find
    · intro d₁ h₁
      apply After.bind
      apply After.ite
      · exact fun _ ↦ After.throw (herror h₁)
      · intro hnew
        have hshown : d.chainStore.shown = none := by
          rw [h₁.dealer] at hnew
          rwa [Bool.not_eq_true, Option.isSome_eq_false_iff, Option.isNone_iff_eq_none] at hnew
        apply After.pure
        apply After.bind
        apply after_insert
        · intro d₂ h₂
          rw [(Counted.frame.trans _ _ _ h₁ h₂).dealer]
          apply After.bind
          apply after_commit
          · intro d₃ h₃
            rw [h₃.dealer]
            apply After.ite
            · exact fun hrefused ↦ After.throw
                ⟨_, _, rfl, .failed _ hzero hshown (Store.failedToSave_refused hrefused)⟩
            · intro hcommitted
              apply After.pure
              have hsaved := Store.commit_insert hcommitted
              refine ⟨_, _, rfl, ?_⟩
              exact hsaved ▸ Baseline.saved hzero hshown
          · exact ⟨_, _, rfl, .failed _ hzero hshown (Store.failedToSave_insert ..)⟩
          · intro landed d₃ h₃
            rw [h₃.dealer]
            exact ⟨_, _, rfl, .failed _ hzero hshown (Store.failedToSave_commit ..)⟩
        · exact fun e d₂ h₂ ↦ herror (Counted.frame.trans _ _ _ h₁ h₂)
    · exact fun e d₁ h₁ ↦ herror h₁

/-- Loading the hands changes nothing but the number of the next operation. -/
theorem counted_loadHands (env : Env) : Steps Counted (loadHands env) := by
  apply Counted.frame.bind (Counted.frame.find Slot.hands env)
  intro loaded
  cases loaded with
  | none => exact Counted.frame.pure _
  | some loaded =>
      dsimp only
      split
      · exact Counted.frame.pure _
      · exact Steps.throw Counted.frame.refl _

/-- What the start loads: the hands are what it reads from their JSON. -/
theorem startUp_spec (env : Env) (d : Dealer) :
    After d (startUp env) fun r d' ↦ ∃ operations chainStore,
      if r.isOk then
        Baseline d.chainStore chainStore ∧ ∃ hands, d' = { d with
          operations
          chainStore
          chain := chainStore.shown.getD {}
          pending := d.pendingStore.shown.getD []
          hands }
      else BaselineFailed d.chainStore chainStore ∧ d' = { d with operations, chainStore } := by
  apply After.bind
  apply (initializeChainStore_spec env d).mono
  intro r d₁ h₁
  have ⟨operations, chainStore, hd₁, hbaseline⟩ := h₁
  cases r with
  | error e => exact ⟨operations, chainStore, hbaseline, hd₁⟩
  | ok _ =>
      have herror {e : Exit} {d' : Dealer} (h : Counted d₁ d') : ∃ operations chainStore,
          if (.error e : Except Exit Unit).isOk then
            Baseline d.chainStore chainStore ∧ ∃ hands, d' = { d with
              operations
              chainStore
              chain := chainStore.shown.getD {}
              pending := d.pendingStore.shown.getD []
              hands }
          else BaselineFailed d.chainStore chainStore ∧ d' = { d with operations, chainStore } := by
        refine ⟨d'.operations, chainStore, Baseline.interrupted hbaseline, ?_⟩
        rw [h.dealer, hd₁]
      apply After.bind
      apply After.bind
      apply after_find
      · intro d₂ h₂
        apply After.pure
        apply After.bind
        apply after_find
        · intro d₃ h₃
          have h₃ := Counted.frame.trans _ _ _ h₂ h₃
          apply After.bind
          apply (counted_loadHands env d₃).mono
          intro r d₄ h₄
          have h₄ := Counted.frame.trans _ _ _ h₃ h₄
          cases r with
          | error e => exact herror h₄
          | ok hands =>
              apply After.modify
              refine ⟨d₄.operations, chainStore, hbaseline, hands, ?_⟩
              rw [h₄.dealer, h₃.dealer, h₂.dealer, hd₁]
              rfl
        · exact fun e d₃ h₃ ↦ herror (Counted.frame.trans _ _ _ h₂ h₃)
      · exact fun e d₂ h₂ ↦ herror h₂

/-! ## 8. Runs -/

/-- The process as far as it keeps the chain: a dealer that is synchronized over and over. -/
structure Process where
  dealer : Dealer
  running : Bool

inductive ProcessAction
  | synchronize
  /-- The process, running or not, is replaced by a new one. -/
  | restart

namespace Process

/-- Before the first start. -/
def start : Process := ⟨.fresh, false⟩

/-- No handler runs when the process stops; the loop goes on after an exception. -/
def goesOn {α : Type} : Except Exit α → Bool
  | .error .stopped => false
  | _ => true

/-- One step of the process, which does not start when its start throws. -/
def act (env : Env) (config : DealerConfig) (p : Process) : ProcessAction → Process
  | .synchronize =>
      if p.running then
        match synchronize env config p.dealer with
        | .ok rolledBack d => ⟨d, goesOn (.ok rolledBack)⟩
        | .error e d => ⟨d, goesOn (.error e : Except Exit Bool)⟩
      else p
  | .restart =>
      match startUp env p.dealer.restart with
      | .ok _ d => ⟨d, true⟩
      | .error _ d => ⟨d, false⟩

variable {env : Env} {config : DealerConfig} {p : Process} {P : Process → Prop}

theorem act_synchronize (hidle : p.running = false → P p)
    (h : p.running = true → After p.dealer (synchronize env config) fun r d ↦ P ⟨d, goesOn r⟩) :
    P (p.act env config .synchronize) := by
  unfold act
  by_cases hrunning : p.running = true
  · have hsync := h hrunning
    unfold After at hsync
    dsimp only
    rw [if_pos hrunning]
    cases hr : synchronize env config p.dealer with
    | ok rolledBack d =>
        rw [hr] at hsync
        exact hsync
    | error e d =>
        rw [hr] at hsync
        exact hsync
  · dsimp only
    rw [if_neg hrunning]
    exact hidle (Bool.not_eq_true _ ▸ hrunning)

theorem act_restart (h : After p.dealer.restart (startUp env) fun r d ↦ P ⟨d, r.isOk⟩) :
    P (p.act env config .restart) := by
  unfold act
  unfold After at h
  cases hr : startUp env p.dealer.restart with
  | ok _ d =>
      rw [hr] at h
      exact h
  | error e d =>
      rw [hr] at h
      exact h

end Process

end Stainless.Poker
