import Stainless.Poker.Synchronization

/-!
# Deployed tables are kept

A deployed table is recorded in the store of the pending tables until the chain confirms it, and in the
store of the chain from then on.  A rollback takes tables out of the chain; they become pending again.
-/

open Reasoning

namespace Stainless.Poker

/-! ## 1. What is recorded -/

/-- The addresses that a restart finds in the store of the chain. -/
def savedTables (d : Dealer) : List String :=
  tableAddresses (d.chainStore.durable.getD {}).tables

/-- The addresses that it finds in the store of the pending tables. -/
def savedPending (d : Dealer) : List String := pendingAddresses (d.pendingStore.durable.getD [])

def recorded (d : Dealer) : List String := savedTables d ++ savedPending d

/-- The timeout of the deployment had passed when it was given up. -/
def GivenUp.TimedOut (config : DealerConfig) (g : GivenUp) : Prop :=
  g.table.deploymentHeight + config.pendingTimeoutBlocks < g.height

instance (config : DealerConfig) (g : GivenUp) : Decidable (g.TimedOut config) :=
  inferInstanceAs (Decidable (_ < _))

variable {config : DealerConfig}

/-- An address that was recorded still is, or it was given up, which happens after the timeout only. -/
structure Carried (config : DealerConfig) (d d' : Dealer) : Prop where
  recorded : ∀ a ∈ recorded d, a ∈ recorded d' ∨ a ∈ droppedAddresses d'.dropped
  dropped : d.dropped ⊆ d'.dropped
  timedOut : ∀ g ∈ d'.dropped, g ∈ d.dropped ∨ g.TimedOut config

theorem mem_recorded {d : Dealer} {a : String} :
    a ∈ recorded d ↔ a ∈ savedTables d ∨ a ∈ savedPending d := List.mem_append

theorem Carried.of_eq {d d' : Dealer} (htables : savedTables d' = savedTables d)
    (hpending : savedPending d' = savedPending d) (hdropped : d'.dropped = d.dropped) :
    Carried config d d' where
  recorded a h := by
    left
    rw [Poker.recorded, htables, hpending]
    exact h
  dropped := hdropped ▸ List.Subset.refl _
  timedOut _ h := .inl (hdropped ▸ h)

theorem Carried.frame : Frame (Carried config) where
  refl _ := .of_eq rfl rfl rfl
  trans _ _ _ h h' := by
    refine ⟨fun a ha ↦ ?_, List.Subset.trans h.dropped h'.dropped, fun g hg ↦ ?_⟩
    · rcases h.recorded a ha with ha | ha
      · exact h'.recorded a ha
      · exact .inr (List.map_subset _ h'.dropped ha)
    · rcases h'.timedOut g hg with hg | hout
      · exact h.timedOut g hg
      · exact .inr hout
  next _ := .of_eq rfl rfl rfl

/-! ## 2. When tables are kept -/

/-- The tables of the chain that are pending in memory are so in the store too. -/
def PendingSaved (d : Dealer) : Prop :=
  ∀ a ∈ tableAddresses d.chain.tables, a ∈ pendingAddresses d.pending → a ∈ savedPending d

/-- When tables were taken from the pending ones, the snapshot that has them is committed; else saving it
may throw, but not behind a commit that reached the disk. -/
def SavesMerged (env : Env) (height : Nat) (merged : Bool) (d : Dealer) : Prop :=
  After d (saveChain env height d.chain) fun r d' ↦
    (r.isOk = true → merged = true → d.chainStore.currentVersion ≠ UInt32.ofNat (height + 1)) ∧
    (threw r = true → merged = false ∧ d'.chainStore.disk = d.chainStore.disk)

/-- No pending table counts as timed out because the sum of its height and the timeout wraps around. -/
def TimeoutsFit (config : DealerConfig) (height : Nat) (d : Dealer) : Prop :=
  ∀ table ∈ d.pending, deploymentTimedOut config height table = true →
    table.deploymentHeight + config.pendingTimeoutBlocks < 2 ^ 64

/-- When the synchronization comes to the record of a tip, `P` holds of the dealer there. -/
def AtTip (info : NodeInfo) (oldChain : ChainState) (rolledBack : Bool) (P : Dealer → Prop)
    (d : Dealer) : Prop :=
  OnReturn d (recoverDeployments oldChain info.height rolledBack) fun _ d ↦
    ((info.height ≠ d.chain.height ∨ d.chain.hash = "") ∨ rolledBack = true) → P d

/-- A rollback from `d` that does not return does not change the store; one that does is followed by the
record of the new tip, up to its last save. -/
def KeepsTables (env : Env) (config : DealerConfig) (info : NodeInfo) (d : Dealer)
    (r : Except Exit Bool) (d' : Dealer) : Prop :=
  match r with
  | .ok rolledBack =>
      AtSave env config info d.chain rolledBack (SavesMerged env info.height) d' ∧
        AtTip info d.chain rolledBack (TimeoutsFit config info.height) d' ∧
        (rolledBack = true →
          PendingSaved d ∧ returns (recordTip env config info d.chain true) d' = true)
  | .error _ => d'.chainStore = d.chainStore

/-- The condition on a synchronization. -/
def KeepsDeployments (env : Env) (config : DealerConfig) (d : Dealer) : Prop :=
  OnReturn d (call env env.node.nodeInfo) fun info d ↦
    After d (rollbackIfNeeded env info.height) (KeepsTables env config info d)

/-- The condition on a step of the process. -/
def Process.keepsDeployments (env : Env) (config : DealerConfig) (p : Process) : ProcessAction → Prop
  | .synchronize => p.running = true → KeepsDeployments env config p.dealer
  | .restart => True

section Decidable

variable (env : Env) (config : DealerConfig)

instance PendingSaved.decidable (d : Dealer) : Decidable (PendingSaved d) :=
  inferInstanceAs (Decidable (∀ a ∈ tableAddresses d.chain.tables, _ → _))

instance SavesMerged.decidable (height : Nat) (merged : Bool) (d : Dealer) :
    Decidable (SavesMerged env height merged d) :=
  inferInstanceAs (Decidable (After d _ fun r d' ↦
    (r.isOk = true → merged = true → d.chainStore.currentVersion ≠ UInt32.ofNat (height + 1)) ∧
    (threw r = true → merged = false ∧ d'.chainStore.disk = d.chainStore.disk)))

instance TimeoutsFit.decidable (height : Nat) (d : Dealer) :
    Decidable (TimeoutsFit config height d) :=
  inferInstanceAs (Decidable (∀ table ∈ d.pending, _ → _))

instance AtTip.decidable (info : NodeInfo) (oldChain : ChainState) (rolledBack : Bool)
    (P : Dealer → Prop) [∀ d, Decidable (P d)] (d : Dealer) :
    Decidable (AtTip info oldChain rolledBack P d) :=
  inferInstanceAs (Decidable (OnReturn d _ fun _ d ↦ _ → P d))

instance KeepsTables.decidable (info : NodeInfo) (d : Dealer) :
    ∀ r d', Decidable (KeepsTables env config info d r d')
  | .ok rolledBack, d' => inferInstanceAs (Decidable
      (AtSave env config info d.chain rolledBack (SavesMerged env info.height) d' ∧
        AtTip info d.chain rolledBack (TimeoutsFit config info.height) d' ∧ (_ → _ ∧ _)))
  | .error _, d' => inferInstanceAs (Decidable (d'.chainStore = d.chainStore))

instance KeepsDeployments.decidable (d : Dealer) : Decidable (KeepsDeployments env config d) :=
  inferInstanceAs (Decidable (OnReturn d _ fun info d ↦ After d _ (KeepsTables env config info d)))

instance Process.keepsDeployments.decidable (p : Process) :
    ∀ a, Decidable (p.keepsDeployments env config a)
  | .synchronize => inferInstanceAs (Decidable (_ → _))
  | .restart => inferInstanceAs (Decidable True)

end Decidable

/-! ## 3. The invariant -/

/-- Where the addresses that were recorded are, while pending tables may have gone to the chain in memory
only. -/
structure TablesMerged (d : Dealer) : Prop where
  settled : d.chainStore.Settled
  whole : d.pendingStore.gap = none
  tables : ∀ a ∈ savedTables d, a ∈ tableAddresses d.chain.tables
  pending : ∀ a ∈ savedPending d,
    a ∈ pendingAddresses d.pending ∨ a ∈ tableAddresses d.chain.tables ∨ a ∈ droppedAddresses d.dropped

/-- An address that is pending in memory, recorded in the store of the chain or given up. -/
def Known (d : Dealer) (a : String) : Prop :=
  a ∈ pendingAddresses d.pending ∨ a ∈ savedTables d ∨ a ∈ droppedAddresses d.dropped

/-- Where they are between the synchronizations. -/
structure TablesHeld (d : Dealer) : Prop where
  settled : d.chainStore.Settled
  whole : d.pendingStore.gap = none
  tables : ∀ a ∈ savedTables d, a ∈ tableAddresses d.chain.tables
  pending : ∀ a ∈ savedPending d, Known d a

theorem TablesHeld.known {d : Dealer} (h : TablesHeld d) {a : String} (ha : a ∈ recorded d) :
    Known d a := by
  rcases mem_recorded.mp ha with ha | ha
  · exact .inr (.inl ha)
  · exact h.pending a ha

/-- A step that keeps the invariant and loses no address. -/
def KeepsHeld (config : DealerConfig) (d d' : Dealer) : Prop := TablesHeld d → TablesHeld d' ∧ Carried config d d'

theorem KeepsHeld.frame : Frame (KeepsHeld config) where
  refl d h := ⟨h, Carried.frame.refl d⟩
  trans _ _ _ h h' held := by
    have ⟨held, hcarried⟩ := h held
    have ⟨held, hcarried'⟩ := h' held
    exact ⟨held, Carried.frame.trans _ _ _ hcarried hcarried'⟩
  next d h := ⟨⟨h.settled, h.whole, h.tables, h.pending⟩, Carried.frame.next d⟩

/-! ## 4. The pending tables are saved -/

/-- Behind a save every known address is recorded or given up. -/
theorem savePending_held (config : DealerConfig) (env : Env) {d : Dealer} (h : TablesHeld d) :
    After d (savePending env d.pending) fun r d' ↦ (TablesHeld d' ∧ Carried config d d') ∧
      (r.isOk = true → ∀ a, Known d a → a ∈ recorded d' ∨ a ∈ droppedAddresses d'.dropped) := by
  -- the store has the pending tables that it had, or those in memory
  have hkept (n : Nat) (store : Store (List PendingTable))
      (hwhole : store.gap = none)
      (hstore : store.durable = d.pendingStore.durable ∨ store.durable = some d.pending) :
      TablesHeld { d with operations := n, pendingStore := store } ∧
        Carried config d { d with operations := n, pendingStore := store } := by
    rcases hstore with hsame | hnew
    · have hpending : savedPending { d with operations := n, pendingStore := store } =
          savedPending d := by
        unfold savedPending
        dsimp only
        rw [hsame]
      exact ⟨⟨h.settled, hwhole, h.tables, by rw [hpending]; exact h.pending⟩,
        .of_eq rfl hpending rfl⟩
    · have hpending : savedPending { d with operations := n, pendingStore := store } =
          pendingAddresses d.pending := by
        unfold savedPending
        dsimp only
        rw [hnew]
        rfl
      refine ⟨⟨h.settled, hwhole, h.tables, fun a ha ↦ .inl (hpending ▸ ha)⟩, fun a ha ↦ ?_,
        List.Subset.refl _, fun _ ↦ .inl⟩
      rw [mem_recorded, hpending]
      rcases h.known ha with ha | ha | ha
      · exact .inl (.inr ha)
      · exact .inl (.inl ha)
      · exact .inr ha
  apply after_saveNext _ env Slot.pending_lawful
  · intro n
    refine ⟨hkept n _ h.whole (.inr (Store.durable_saved h.whole ..)), fun _ a ha ↦ ?_⟩
    have hsaved : savedPending (Slot.pending.write { d with operations := n }
        ((Slot.pending.read d).saved d.pending ((Slot.pending.read d).currentVersion + 1))) =
        pendingAddresses d.pending := by
      change pendingAddresses ((Store.durable (Store.saved ..)).getD []) = _
      have hdurable := Store.durable_saved h.whole d.pending (d.pendingStore.currentVersion + 1)
      exact congrArg (fun pending ↦ pendingAddresses (Option.getD pending [])) hdurable
    rw [mem_recorded, hsaved]
    rcases ha with ha | ha | ha
    · exact .inl (.inr ha)
    · exact .inl (.inl ha)
    · exact .inr ha
  · exact fun e n store hfailed ↦
      ⟨hkept n store (hfailed.gap.trans h.whole) (hfailed.durable h.whole), fun h ↦ nomatch h⟩

theorem savePending_keeps (env : Env) :
    Steps (KeepsHeld config) (do savePending env (← get).pending) := by
  apply Steps.get
  intro d
  by_cases held : TablesHeld d
  · exact (savePending_held config env held).mono fun _ _ h _ ↦ h.1
  · exact After.intro (fun _ _ _ h ↦ absurd h held) fun _ _ _ h ↦ absurd h held

theorem scaleTemplate_held (env : Env) (spec : TableTemplate) :
    Steps (KeepsHeld config) (scaleTemplate env spec) := by
  have hframe : Frame (KeepsHeld config) := KeepsHeld.frame
  apply Steps.read
  intro d
  apply Steps.ite (hframe.pure _)
  apply hframe.bind (hframe.call env _)
  intro address
  apply hframe.bind
  · apply Steps.modify
    intro d held
    refine ⟨⟨held.settled, held.whole, held.tables, fun a ha ↦ ?_⟩, .of_eq rfl rfl rfl⟩
    rcases held.pending a ha with ha | ha
    · left
      rw [pendingAddresses, List.map_append]
      exact List.mem_append_left _ ha
    · exact .inr ha
  · intro _
    change Steps (KeepsHeld config) ((do savePending env (← get).pending) >>= fun _ ↦ pure true)
    exact hframe.bind (savePending_keeps env) fun _ ↦ hframe.pure _

theorem scaleTables_held (env : Env) (config : DealerConfig) :
    Steps (KeepsHeld config) (scaleTables env config) := by
  have hframe : Frame (KeepsHeld config) := KeepsHeld.frame
  have hmany (spec : TableTemplate) (left : Nat) : Steps (KeepsHeld config) (deployMany env spec left) := by
    induction left with
    | zero => exact hframe.pure _
    | succ left ih =>
        apply hframe.bind (scaleTemplate_held env spec)
        intro deployed
        exact Steps.ite ih (hframe.pure _)
  apply Steps.read
  intro d
  apply hframe.onlyIf
  exact hframe.bind (Steps.foldlM hframe.refl hframe.trans (fun left spec ↦ hmany spec left) _ _)
    fun _ ↦ hframe.pure _

/-! ## 5. The tip is recorded -/

/-- A deployment whose sum does not wrap around is given up after its timeout only. -/
theorem timedOut_of_fits {d : Dealer} {height : Nat} (hfits : TimeoutsFit config height d)
    {g : GivenUp} (htable : g.table ∈ d.pending) (hheight : g.height = height)
    (hout : deploymentTimedOut config g.height g.table = true) : g.TimedOut config := by
  subst hheight
  have hsum := hfits g.table htable hout
  rw [deploymentTimedOut, addU64, Nat.mod_eq_of_lt hsum, Bool.not_eq_true', decide_eq_false_iff_not] at hout
  exact Nat.lt_of_not_le hout

theorem Refreshed.merged {d d' : Dealer} {tipHeight : Nat} {merged : Bool}
    (h : Refreshed config d tipHeight merged d') (held : TablesHeld d)
    (hfits : TimeoutsFit config tipHeight d) :
    TablesMerged d' ∧ Carried config d d' ∧
      (merged = false → TablesHeld d' ∧ ∀ a, Known d a → Known d' a) ∧
      ∀ a, Known d a → a ∈ pendingAddresses d'.pending ∨ a ∈ tableAddresses d'.chain.tables ∨
        a ∈ droppedAddresses d'.dropped := by
  have ⟨operations, hash, checkpoints, tables, pending, dropped, _, handed⟩ := h
  have hgivenUp : droppedAddresses d.dropped ⊆ droppedAddresses dropped :=
    List.map_subset _ handed.givenUp
  have hknown (a : String) (ha : Known d a) : a ∈ pendingAddresses pending ∨
      a ∈ tableAddresses tables ∨ a ∈ droppedAddresses dropped := by
    rcases ha with ha | ha | ha
    · exact handed.kept a ha
    · exact .inr (.inl (handed.grow a (held.tables a ha)))
    · exact .inr (.inr (hgivenUp ha))
  have hsame (hmerged : merged = false) (a : String) (ha : Known d a) :
      a ∈ pendingAddresses pending ∨ a ∈ savedTables d ∨ a ∈ droppedAddresses dropped := by
    rw [handed.unchanged hmerged]
    rcases ha with ha | ha | ha
    · exact .inl ha
    · exact .inr (.inl ha)
    · exact .inr (.inr (hgivenUp ha))
  have htables (a : String) (ha : a ∈ savedTables d) : a ∈ tableAddresses tables :=
    handed.grow a (held.tables a ha)
  refine ⟨⟨held.settled, held.whole, htables, fun a ha ↦ hknown a (held.pending a ha)⟩,
    ⟨fun _ ↦ .inl, handed.givenUp, fun g hg ↦ ?_⟩,
    fun hmerged ↦ ⟨⟨held.settled, held.whole, htables,
      fun a ha ↦ hsame hmerged a (held.pending a ha)⟩, hsame hmerged⟩,
    hknown⟩
  rcases handed.timedOut g hg with hg | ⟨htable, hheight, hout⟩
  · exact .inl hg
  · exact .inr (timedOut_of_fits hfits htable hheight hout)

/-- What a part of a synchronization from `d` leaves: no address is lost, and the invariant holds unless
the process stopped. -/
def Keeps {α : Type} (config : DealerConfig) (d : Dealer) (r : Except Exit α) (d' : Dealer) : Prop :=
  Carried config d d' ∧ (r ≠ .error .stopped → TablesHeld d')

theorem KeepsHeld.keeps {α : Type} {d d' : Dealer} (h : KeepsHeld config d d') (held : TablesHeld d)
    (r : Except Exit α) : Keeps config d r d' :=
  have ⟨held, hcarried⟩ := h held
  ⟨hcarried, fun _ ↦ held⟩

theorem Keeps.after {α : Type} {d d₁ d₂ : Dealer} {r : Except Exit α} (h : Keeps config d₁ r d₂)
    (hcarried : Carried config d d₁) : Keeps config d r d₂ :=
  ⟨Carried.frame.trans _ _ _ hcarried h.1, h.2⟩

theorem Keeps.stopped {α β : Type} {d d' : Dealer} {e : Exit}
    (h : Keeps config d (.error e : Except Exit α) d') : Keeps config d (.error e : Except Exit β) d' :=
  ⟨h.1, fun hr ↦ h.2 fun h ↦ hr (by cases h; rfl)⟩

/-- The snapshot takes the tables of the chain in memory over. -/
theorem saveChain_keeps (config : DealerConfig) {env : Env} {d : Dealer} {tipHeight : Nat} {merged : Bool}
    (hmerged : TablesMerged d) (hunmerged : merged = false → TablesHeld d)
    (hsaves : SavesMerged env tipHeight merged d) :
    After d (saveChain env tipHeight d.chain) fun r d' ↦ Keeps config d r d' ∧ (r.isOk = true →
      (merged = false → ∀ a, Known d a → Known d' a) ∧
      (merged = true → ∀ a, a ∈ pendingAddresses d.pending ∨ a ∈ tableAddresses d.chain.tables ∨
        a ∈ droppedAddresses d.dropped → Known d' a)) := by
  apply ((saveChain_spec env tipHeight d.chain d).and hsaves).mono
  intro r d' h
  obtain ⟨hsaved, hcommits, hthrows⟩ := h
  obtain ⟨operations, chainStore, snapshots, hstore, _⟩ := hsaved
  -- the disk as it was
  have hsame (hdisk : chainStore.disk = d.chainStore.disk) :
      savedTables { d with operations, chainStore, snapshots } = savedTables d := by
    unfold savedTables Store.durable
    dsimp only
    rw [hdisk]
  have hheld (hdisk : chainStore.disk = d.chainStore.disk) (hsettled : chainStore.Settled)
      (held : TablesHeld d) : TablesHeld { d with operations, chainStore, snapshots } := by
    refine ⟨hsettled, held.whole, by rw [hsame hdisk]; exact held.tables, fun a ha ↦ ?_⟩
    unfold Known
    rw [hsame hdisk]
    exact held.pending a ha
  cases r with
  | ok _ =>
      obtain ⟨_, hstore⟩ := hstore
      rcases hstore with ⟨hversion, hinsert⟩ | hcommit
      · -- nothing is committed, so nothing was merged
        have hfalse : merged = false := by
          cases merged with
          | false => rfl
          | true => exact absurd hversion (hcommits rfl rfl)
        have held := hunmerged hfalse
        have hdisk : chainStore.disk = d.chainStore.disk := by rw [hinsert]; rfl
        have hsettled : chainStore.Settled := hinsert ▸ held.settled.insert d.chain
        refine ⟨⟨.of_eq (hsame hdisk) rfl rfl, fun _ ↦ hheld hdisk hsettled held⟩,
          fun _ ↦ ⟨fun _ a ha ↦ ?_, fun htrue ↦ Bool.noConfusion (hfalse.symm.trans htrue)⟩⟩
        unfold Known
        rw [hsame hdisk]
        exact ha
      · have htables : savedTables { d with operations, chainStore, snapshots } =
            tableAddresses d.chain.tables := by
          unfold savedTables
          dsimp only
          rw [hcommit, Store.durable_saved hmerged.settled.whole]
          rfl
        have hknown (a : String) (ha : a ∈ pendingAddresses d.pending ∨
            a ∈ tableAddresses d.chain.tables ∨ a ∈ droppedAddresses d.dropped) :
            Known { d with operations, chainStore, snapshots } a := by
          unfold Known
          rw [htables]
          exact ha
        refine ⟨⟨⟨fun a ha ↦ ?_, List.Subset.refl _, fun _ ↦ .inl⟩,
          fun _ ↦ ⟨hcommit ▸ hmerged.settled.saved .., hmerged.whole, ?_, fun a ha ↦ hknown a (hmerged.pending a ha)⟩⟩,
          fun _ ↦ ⟨fun _ a ha ↦ hknown a ?_, fun _ a ha ↦ hknown a ha⟩⟩
        · left
          rw [mem_recorded, htables]
          rcases mem_recorded.mp ha with ha | ha
          · exact .inl (hmerged.tables a ha)
          · exact .inr ha
        · rw [htables]
          exact fun _ h ↦ h
        · rcases ha with ha | ha | ha
          · exact .inl ha
          · exact .inr (.inl (hmerged.tables a ha))
          · exact .inr (.inr ha)
  | error e =>
      obtain ⟨hfailed, hstopped⟩ := hstore
      refine ⟨?_, fun h ↦ by cases h⟩
      cases e with
      | stopped =>
          exact ⟨.of_eq (hsame (hstopped rfl)) rfl rfl, fun h ↦ absurd rfl h⟩
      | exception e =>
          obtain ⟨hfalse, hdisk⟩ := hthrows rfl
          have held := hunmerged hfalse
          have hsettled : chainStore.Settled :=
            ⟨by rw [hfailed.marks]; exact hdisk.trans held.settled.disk,
              by rw [hfailed.currentVersion, hfailed.marks]; exact held.settled.currentVersion,
              hfailed.gap.trans held.settled.whole⟩
          exact ⟨.of_eq (hsame hdisk) rfl rfl, fun _ ↦ hheld hdisk hsettled held⟩

theorem updateTip_keeps {env : Env} {config : DealerConfig} {d : Dealer} (held : TablesHeld d)
    (tipHeight : Nat) (pendingChanged : Bool)
    (hsaves : OnReturn d (refreshTip env config tipHeight) (SavesMerged env tipHeight))
    (hfits : TimeoutsFit config tipHeight d) :
    After d (updateTip env config tipHeight pendingChanged) fun r d' ↦ Keeps config d r d' ∧
      (r.isOk = true → pendingChanged = true →
        ∀ a, Known d a → a ∈ recorded d' ∨ a ∈ droppedAddresses d'.dropped) := by
  apply After.bind
  apply ((refreshTip_spec env config tipHeight d).onReturn hsaves).mono
  intro r d₁ hspec
  have ⟨hspec, hsaves⟩ := hspec
  cases r with
  | error e =>
      have ⟨operations, height, hash, tables, grow⟩ := hspec
      exact ⟨⟨.of_eq rfl rfl rfl,
        fun _ ↦ ⟨held.settled, held.whole, fun a ha ↦ grow a (held.tables a ha), held.pending⟩⟩,
        fun h ↦ nomatch h⟩
  | ok merged =>
      have ⟨hmerged, hcarried, hunmerged, hknown⟩ := hspec.merged held hfits
      apply After.read
      apply After.bind
      apply (saveChain_keeps config hmerged (fun h ↦ (hunmerged h).1) (hsaves merged rfl)).mono
      intro r d₂ hsaved
      have ⟨hkeeps, hreturned⟩ := hsaved
      cases r with
      | error e => exact ⟨(hkeeps.after hcarried).stopped, fun h ↦ nomatch h⟩
      | ok _ =>
          have held₂ := hkeeps.2 fun h ↦ nomatch h
          have hcarried₂ := Carried.frame.trans _ _ _ hcarried hkeeps.1
          -- what was known before the refresh still is
          have hknown₂ (a : String) (ha : Known d a) : Known d₂ a := by
            have ⟨hfalse, htrue⟩ := hreturned rfl
            cases merged with
            | false => exact hfalse rfl a ((hunmerged rfl).2 a ha)
            | true => exact htrue rfl a (hknown a ha)
          apply After.ite
          · intro _
            apply After.read
            apply (savePending_held config env held₂).mono
            intro r d₃ h₃
            have ⟨⟨held₃, hcarried₃⟩, hsaved⟩ := h₃
            exact ⟨⟨Carried.frame.trans _ _ _ hcarried₂ hcarried₃, fun _ ↦ held₃⟩,
              fun hr _ a ha ↦ hsaved hr a (hknown₂ a ha)⟩
          · intro hnone
            apply After.pure
            refine ⟨⟨hcarried₂, fun _ ↦ held₂⟩, fun _ hchanged ↦ ?_⟩
            rw [hchanged, Bool.or_true] at hnone
            exact absurd rfl hnone

/-- The tables that a rollback took out of the chain are pending again. -/
structure Recovered (oldTables : List Table) (chain : ChainState) (pending : List PendingTable)
    (changed : Bool) (pending' : List PendingTable) : Prop where
  kept : ∀ a ∈ pendingAddresses pending, a ∈ pendingAddresses pending'
  recovered : ∀ a ∈ tableAddresses oldTables,
    a ∈ tableAddresses chain.tables ∨ a ∈ pendingAddresses pending'
  unchanged : changed = false → pending' = pending

theorem recoverReorgDeployments_spec (oldChain chain : ChainState) (pending : List PendingTable)
    (tipHeight : Nat) : Recovered oldChain.tables chain pending
      (recoverReorgDeployments oldChain chain pending tipHeight).1
      (recoverReorgDeployments oldChain chain pending tipHeight).2 := by
  have hloop (seen rest : List Table) (acc : Bool × List PendingTable)
      (h : Recovered seen chain pending acc.1 acc.2) :
      let acc' := rest.foldl (fun acc table ↦
        if !tableKnown chain table.address && !pendingKnown acc.2 table.address then
          (true, acc.2 ++ [⟨table.address, table.templateId, tipHeight⟩])
        else acc) acc
      Recovered (seen ++ rest) chain pending acc'.1 acc'.2 := by
    induction rest generalizing seen acc with
    | nil =>
        rw [List.append_nil]
        exact h
    | cons table rest ih =>
        rw [List.append_cons, List.foldl_cons]
        apply ih
        -- a table that the chain has not and that does not wait yet is put back
        by_cases hnew : (!tableKnown chain table.address && !pendingKnown acc.2 table.address) = true
        · rw [if_pos hnew]
          have hgrow : ∀ a ∈ pendingAddresses acc.2, a ∈ pendingAddresses
              (acc.2 ++ [⟨table.address, table.templateId, tipHeight⟩]) := by
            intro a ha
            rw [pendingAddresses, List.map_append]
            exact List.mem_append_left _ ha
          refine ⟨fun a ha ↦ hgrow a (h.kept a ha), fun a ha ↦ ?_, fun h ↦ nomatch h⟩
          rw [tableAddresses, List.map_append] at ha
          rcases List.mem_append.mp ha with ha | ha
          · rcases h.recovered a ha with ha | ha
            · exact .inl ha
            · exact .inr (hgrow a ha)
          · right
            rw [List.mem_singleton.mp ha, pendingAddresses, List.map_append]
            exact List.mem_append_right _ (List.mem_singleton_self _)
        · rw [if_neg hnew]
          refine ⟨h.kept, fun a ha ↦ ?_, h.unchanged⟩
          rw [tableAddresses, List.map_append] at ha
          rcases List.mem_append.mp ha with ha | ha
          · exact h.recovered a ha
          · rw [List.mem_singleton.mp ha]
            rw [Bool.and_eq_true, not_and_or, Bool.not_eq_true', Bool.not_eq_true', Bool.not_eq_false,
              Bool.not_eq_false] at hnew
            rcases hnew with hknown | hknown
            · exact .inl (tableKnown_iff.mp hknown)
            · exact .inr (pendingKnown_iff.mp hknown)
  exact hloop [] oldChain.tables (false, pending)
    ⟨fun _ h ↦ h, fun _ h ↦ (List.not_mem_nil h).elim, fun _ ↦ rfl⟩

theorem recoverDeployments_spec (oldChain : ChainState) (tipHeight : Nat) (d : Dealer) :
    After d (recoverDeployments oldChain tipHeight true) fun r d' ↦ ∃ changed pending,
      r = .ok changed ∧ d' = { d with pending } ∧
        Recovered oldChain.tables d.chain d.pending changed pending := by
  apply After.read
  apply After.bind
  apply After.modify
  exact After.pure ⟨_, _, rfl, rfl, recoverReorgDeployments_spec oldChain d.chain d.pending tipHeight⟩

theorem TablesHeld.observed {d : Dealer} (held : TablesHeld d) (info : NodeInfo) :
    TablesHeld (d.observed info) := ⟨held.settled, held.whole, held.tables, held.pending⟩

/-- Without a rollback. -/
theorem recordTip_keeps {env : Env} {config : DealerConfig} {d : Dealer} (held : TablesHeld d)
    (info : NodeInfo) (oldChain : ChainState)
    (hsaves : AtSave env config info oldChain false (SavesMerged env info.height) d)
    (hfits : AtTip info oldChain false (TimeoutsFit config info.height) d) :
    After d (recordTip env config info oldChain false) fun r d' ↦ Keeps config d r d' := by
  apply After.bind
  apply After.read
  apply After.pure
  apply After.read
  apply After.bind
  apply After.modify
  have hcarried : Carried config d (d.observed info) := .of_eq rfl rfl rfl
  apply After.ite
  · exact fun hrecorded ↦ (updateTip_keeps (held.observed info) info.height false
      (hsaves hrecorded) (hfits hrecorded)).mono fun r d' h ↦ h.1.after hcarried
  · exact fun _ ↦ After.pure ⟨hcarried, fun _ ↦ held.observed info⟩

/-- Behind the rollback from `d₀` to `d`. -/
theorem recordTip_rolledBack {env : Env} {config : DealerConfig} {d₀ d : Dealer}
    (held : TablesHeld d₀) (hsaved : PendingSaved d₀) (info : NodeInfo) {ancestor : Nat}
    (hdone : RollbackDone d₀ ancestor d)
    (hsaves : AtSave env config info d₀.chain true (SavesMerged env info.height) d)
    (hfits : AtTip info d₀.chain true (TimeoutsFit config info.height) d)
    (hreturns : returns (recordTip env config info d₀.chain true) d = true) :
    After d (recordTip env config info d₀.chain true) fun r d' ↦ Keeps config d₀ r d' := by
  have hspec : After d (recordTip env config info d₀.chain true) fun r d' ↦ r.isOk = true →
      Keeps config d₀ r d' := by
    have ⟨operations, chainStore, _, hrevert⟩ := hdone
    have ⟨hsettled, hdurable⟩ := held.settled.revert hrevert
    apply After.bind
    apply (((recoverDeployments_spec d₀.chain info.height _).onReturn hsaves).onReturn hfits).mono
    intro r d₁ hspec
    have ⟨⟨⟨changed, pending, hr, hd₁, hkept, hback, hunchanged⟩, hsaves⟩, hfits⟩ := hspec
    subst hr hd₁
    apply After.read
    apply After.bind
    apply After.modify
    have hfits := hfits changed rfl (.inr rfl)
    generalize hobserved : Dealer.observed _ info = d₂ at hsaves
    have hfits : TimeoutsFit config info.height d₂ := by
      rw [← hobserved]
      exact hfits
    change After (Dealer.observed _ info) _ _
    rw [hobserved]
    -- the chain is the snapshot that the store went back to
    have htables : savedTables d₂ = tableAddresses (chainStore.shown.getD {}).tables := by
      rw [← hobserved, ← hdurable]
      rfl
    have hchain : d₂.chain.tables = (chainStore.shown.getD {}).tables := by rw [← hobserved]; rfl
    have hpending : d₂.pending = pending := by rw [← hobserved]; rfl
    have hdropped : d₂.dropped = d₀.dropped := by rw [← hobserved]; rfl
    have hsavedPending : savedPending d₂ = savedPending d₀ := by rw [← hobserved]; rfl
    have hknown (a : String) (ha : Known d₀ a) : Known d₂ a := by
      unfold Known
      rw [hpending, htables, hdropped]
      rcases ha with ha | ha | ha
      · exact .inl (hkept a ha)
      · rcases hback a (held.tables a ha) with ha | ha
        · exact .inr (.inl ha)
        · exact .inl ha
      · exact .inr (.inr ha)
    have held₂ : TablesHeld d₂ := by
      refine ⟨by rw [← hobserved]; exact hsettled, by rw [← hobserved]; exact held.whole, ?_,
        fun a ha ↦ ?_⟩
      · rw [htables, hchain]
        exact fun _ h ↦ h
      · rw [hsavedPending] at ha
        exact hknown a (held.pending a ha)
    apply After.ite
    · intro hrecorded
      apply (updateTip_keeps held₂ info.height changed (hsaves changed rfl hrecorded) hfits).mono
      intro r d' h hr
      have ⟨⟨hcarried, hheld⟩, hall⟩ := h
      refine ⟨⟨fun a ha ↦ ?_, hdropped ▸ hcarried.dropped, hdropped ▸ hcarried.timedOut⟩, hheld⟩
      cases changed with
      | true => exact hall hr rfl a (hknown a (held.known ha))
      | false =>
          apply hcarried.recorded
          rw [mem_recorded, htables, hsavedPending]
          rcases mem_recorded.mp ha with ha | ha
          · rcases hback a (held.tables a ha) with hchain | hpending
            · exact .inl hchain
            · rw [hunchanged rfl] at hpending
              exact .inr (hsaved a (held.tables a ha) hpending)
          · exact .inr ha
    · exact fun h ↦ absurd (.inr rfl) h
  unfold returns at hreturns
  apply After.intro
  · exact fun a d' hr ↦ hspec.ok hr rfl
  · intro e d' hr
    rw [hr] at hreturns
    exact nomatch hreturns

/-! ## 6. Synchronizations and starts -/

theorem synchronize_keeps {env : Env} {config : DealerConfig} {d : Dealer} (held : TablesHeld d)
    (hkeeps : KeepsDeployments env config d) :
    After d (synchronize env config) fun r d' ↦ Keeps config d r d' := by
  apply After.bind
  have hcounted : After d (call env env.node.nodeInfo) fun _ d' ↦ Counted d d' :=
    Counted.frame.call env _ d
  apply (hcounted.onReturn hkeeps).mono
  intro r d₁ hspec
  have ⟨hd₁, hkeeps⟩ := hspec
  have hframe : Frame (KeepsHeld config) := KeepsHeld.frame
  have ⟨held₁, hcarried₁⟩ := hframe.of_counted hd₁ held
  cases r with
  | error e => exact ⟨hcarried₁, fun _ ↦ held₁⟩
  | ok info =>
      apply After.read
      apply After.bind
      apply ((rollbackIfNeeded_spec env info.height d₁).and (hkeeps info rfl)).mono
      intro r d₂ hspec
      have ⟨hspec, hkeeps⟩ := hspec
      -- what is left of the call when the tip is recorded
      have hrest (rolledBack : Bool) (hrecord : After d₂
          (recordTip env config info d₁.chain rolledBack) fun r d' ↦ Keeps config d₁ r d') :
          After d₂ (do
            recordTip env config info d₁.chain rolledBack
            scaleTables env config
            return rolledBack) fun r d' ↦ Keeps config d r d' := by
        apply After.bind
        apply hrecord.mono
        intro r d₃ h₃
        cases r with
        | error e => exact (h₃.after hcarried₁).stopped
        | ok _ =>
            have held₃ := h₃.2 fun h ↦ nomatch h
            have hscale := hframe.bind (scaleTables_held env config) fun _ ↦ hframe.pure rolledBack
            exact (hscale d₃).mono fun r d' h ↦
              (h.keeps held₃ r).after (Carried.frame.trans _ _ _ hcarried₁ h₃.1)
      cases r with
      | error e =>
          have ⟨ancestor, _, hfailed⟩ := hspec
          have ⟨operations, journal, chainStore, _⟩ := hfailed
          change chainStore = d₁.chainStore at hkeeps
          subst hkeeps
          have hcarried : Carried config d₁ { d₁ with operations, journal } :=
            .of_eq rfl rfl rfl
          exact ⟨Carried.frame.trans _ _ _ hcarried₁ hcarried,
            fun _ ↦ ⟨held₁.settled, held₁.whole, held₁.tables, held₁.pending⟩⟩
      | ok rolledBack =>
          have ⟨hsaves, hfits, hrecords⟩ := hkeeps
          cases rolledBack with
          | false =>
              have ⟨held₂, hcarried₂⟩ := hframe.of_counted hspec held₁
              exact hrest false ((recordTip_keeps held₂ info d₁.chain hsaves hfits).mono
                fun r d' h ↦ h.after hcarried₂)
          | true =>
              have ⟨ancestor, _, hdone⟩ := hspec
              have ⟨hsaved, hreturns⟩ := hrecords rfl
              exact hrest true (recordTip_rolledBack held₁ hsaved info hdone hsaves hfits hreturns)

/-- The start finds what is recorded. -/
theorem startUp_keeps (env : Env) (d : Dealer) :
    After d.restart (startUp env) fun r d' ↦ Carried config d d' ∧ (r.isOk = true → TablesHeld d') := by
  -- the empty baseline has no tables, and neither had the store
  have hbaseline (chainStore : Store ChainState) (hnone : d.restart.chainStore.shown = none)
      (hstore : chainStore.durable = d.restart.chainStore.durable ∨ chainStore.durable = some {}) :
      tableAddresses (chainStore.durable.getD {}).tables = savedTables d := by
    have hempty : d.chainStore.durable = none := hnone
    unfold savedTables
    rw [hempty]
    rcases hstore with hstore | hstore
    · rw [hstore, show d.restart.chainStore.durable = none from hnone]
    · rw [hstore]
      rfl
  apply (startUp_spec env d.restart).mono
  intro r d' hspec
  have ⟨operations, chainStore, hspec⟩ := hspec
  cases r with
  | ok _ =>
      have ⟨hstore, hands, hd'⟩ := hspec
      rw [hd']
      cases hstore with
      | kept _ =>
          refine ⟨.of_eq rfl rfl rfl, fun _ ↦ ⟨Store.settled_reopen _, rfl, ?_, ?_⟩⟩
          · exact fun _ h ↦ h
          · exact fun _ h ↦ .inl h
      | saved _ hshown =>
          have hsame := hbaseline (d.restart.chainStore.saved {} 1) hshown
            (.inr (Store.durable_saved rfl ..))
          refine ⟨.of_eq hsame rfl rfl,
            fun _ ↦ ⟨(Store.settled_reopen _).saved .., rfl, ?_, fun _ h ↦ .inl h⟩⟩
          intro a ha
          change a ∈ tableAddresses (((d.restart.chainStore.saved {} 1).durable).getD {}).tables at ha
          rwa [Store.durable_saved rfl] at ha
  | error e =>
      have ⟨hstore, hd'⟩ := hspec
      rw [hd']
      refine ⟨?_, fun h ↦ nomatch h⟩
      cases hstore with
      | kept => exact .of_eq rfl rfl rfl
      | saved _ hshown =>
          exact .of_eq (hbaseline _ hshown (.inr (Store.durable_saved rfl ..))) rfl rfl
      | failed _ _ hshown hfailed =>
          exact .of_eq (hbaseline _ hshown (hfailed.durable rfl)) rfl rfl

/-! ## 7. Runs -/

/-- A step loses no address, and the invariant of the running process is kept. -/
theorem Process.act_carried {env : Env} {config : DealerConfig} {p : Process}
    (held : p.running = true → TablesHeld p.dealer) (a : ProcessAction)
    (hallowed : p.keepsDeployments env config a) :
    Carried config p.dealer (p.act env config a).dealer ∧
      ((p.act env config a).running = true → TablesHeld (p.act env config a).dealer) := by
  cases a with
  | synchronize =>
      apply act_synchronize (P := fun p' ↦ Carried config p.dealer p'.dealer ∧
        (p'.running = true → TablesHeld p'.dealer))
      · exact fun _ ↦ ⟨Carried.frame.refl _, held⟩
      · intro hrunning
        apply (synchronize_keeps (held hrunning) (hallowed hrunning)).mono
        intro r d hkeeps
        refine ⟨hkeeps.1, fun hgoes ↦ hkeeps.2 fun hr ↦ ?_⟩
        rw [hr] at hgoes
        exact nomatch hgoes
  | restart =>
      apply act_restart (P := fun p' ↦ Carried config p.dealer p'.dealer ∧
        (p'.running = true → TablesHeld p'.dealer))
      exact startUp_keeps env p.dealer

theorem Process.run_carried {env : Env} {config : DealerConfig} {p : Process}
    (held : p.running = true → TablesHeld p.dealer) (actions : List ProcessAction)
    (h : Meets (Process.act env config) (Process.keepsDeployments env config) p actions) :
    Carried config p.dealer (run (Process.act env config) p actions).dealer := by
  induction actions generalizing p with
  | nil => exact Carried.frame.refl _
  | cons a actions ih =>
      have ⟨hcarried, held'⟩ := act_carried held a h.1
      exact Carried.frame.trans _ _ _ hcarried (ih held' h.2)

/-- In every run in which no rollback is interrupted before the new tip is recorded, and no table is taken
from the pending ones whose snapshot is not committed, an address that was recorded at one point is
recorded at each later one, or its deployment was given up after its timeout. -/
theorem deployments_kept (env : Env) (config : DealerConfig) (early later : List ProcessAction)
    (h : Meets (Process.act env config) (Process.keepsDeployments env config) Process.start
      (early ++ later)) :
    let p := run (Process.act env config) Process.start early
    let p' := run (Process.act env config) Process.start (early ++ later)
    ∀ a ∈ recorded p.dealer, a ∈ recorded p'.dealer ∨
      ∃ g ∈ p'.dealer.dropped, g.table.address = a ∧ g.TimedOut config := by
  intro p p' a ha
  have ⟨hearly, hlater⟩ := meets_append.mp h
  have hstart : Process.start.running = true → TablesHeld Process.start.dealer := fun h ↦ nomatch h
  have held := hearly.invariant (I := fun p ↦ p.running = true → TablesHeld p.dealer) hstart
    fun _ a held hallowed ↦ (Process.act_carried held a hallowed).2
  have hcarried := Process.run_carried held later hlater
  rw [← run_append] at hcarried
  refine (hcarried.recorded a ha).imp_right fun hdropped ↦ ?_
  have ⟨g, hg, hname⟩ := List.mem_map.mp hdropped
  -- nothing was given up before the first start
  have hall := (Process.run_carried hstart (early ++ later) h).timedOut g hg
  exact ⟨g, hg, hname, hall.resolve_left List.not_mem_nil⟩

/-! ## 8. A rollback without the new tip -/

/-- The tips are at 5, 6 and 7; the last one is on a branch that leaves the others behind 5.  The answer
to one call can be lost. -/
def deployedNode (lost : Nat) : Node :=
  { Node.silent with
    nodeInfo := fun n ↦ .ok ⟨if n < 13 then 5 else if n < 22 then 6 else 7, 0, true⟩
    headerHash := fun n height ↦
      if n = lost then .error (.rust "lost")
      else .ok (if n < 22 ∨ height ≤ 5 then "old" else "new")
    deploy := fun _ _ ↦ .ok "table"
    tableStatus := fun _ _ ↦ .ok (.ok { tableOpen := true })
    tableConfig := fun _ _ ↦ .ok (.ok { maxPlayers := 2 }) }

def deployedEnv (lost : Nat) : Env := ⟨deployedNode lost, fun _ ↦ .done, fun _ ↦ false, fun _ ↦ 0⟩

def deployedConfig : DealerConfig := ⟨100, 10, 1, [⟨"template", 1⟩]⟩

/-- The table is deployed at height 5 and confirmed at height 6.  The rollback to 5 takes it out of the
store of the chain, and the request that fails next keeps it out of that of the pending tables. -/
theorem deployments_kept_fails :
    ¬∀ (env : Env) (config : DealerConfig) (early later : List ProcessAction),
      let p := run (Process.act env config) Process.start early
      let p' := run (Process.act env config) Process.start (early ++ later)
      ∀ a ∈ recorded p.dealer, a ∈ recorded p'.dealer ∨
        ∃ g ∈ p'.dealer.dropped, g.table.address = a ∧ g.TimedOut config := by
  intro h
  have hkept := h (deployedEnv 28) deployedConfig [.restart, .synchronize, .synchronize]
    [.synchronize, .restart] "table" (by decide +kernel)
  exact absurd hkept (by decide +kernel)

/-- The same rollback when all requests are answered. -/
theorem deployments_kept_reorg :
    let p := run (Process.act (deployedEnv 100) deployedConfig) Process.start
      ([.restart, .synchronize, .synchronize] ++ [.synchronize, .restart])
    "table" ∈ recorded p.dealer ∨
      ∃ g ∈ p.dealer.dropped, g.table.address = "table" ∧ g.TimedOut deployedConfig :=
  deployments_kept (deployedEnv 100) deployedConfig [.restart, .synchronize, .synchronize]
    [.synchronize, .restart] (by decide +kernel) "table" (by decide +kernel)

end Stainless.Poker
