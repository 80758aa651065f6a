import Mathlib.Logic.Function.Iterate
import Stainless.Reasoning.Effects
import Stainless.Poker.Coordinator

/-!
# What programs leave unchanged

A relation between the state before and after is kept by a program when it is kept by what the program
is made of.
-/

open Reasoning Stainless.Crypto

namespace Stainless.Poker

variable {σ α β : Type}

/-- A relation that the counting of operations keeps. -/
structure Frame [Counts σ] (R : σ → σ → Prop) : Prop where
  refl : ∀ s, R s s
  trans : ∀ s t u, R s t → R t u → R s u
  next : ∀ s, R s (Counts.next s)

namespace Frame

variable [Counts σ] {R : σ → σ → Prop} (h : Frame R)

include h

theorem pure (a : α) : Steps R (Pure.pure a : EStateM Exit σ α) := Steps.pure h.refl a

theorem bind {m : EStateM Exit σ β} {k : β → EStateM Exit σ α} (hm : Steps R m)
    (hk : ∀ b, Steps R (k b)) : Steps R (m >>= k) :=
  Steps.bind h.trans hm hk

theorem throwException (e : Exception) :
    Steps R (Poker.throwException e : EStateM Exit σ α) :=
  Steps.throw h.refl _

theorem requireConfig (c : Prop) [Decidable c] (message : String) :
    Steps R (Poker.requireConfig c message : EStateM Exit σ Unit) :=
  Steps.ite (h.pure ()) (h.throwException _)

theorem inBounds (c : Prop) [Decidable c] : Steps R (Poker.inBounds c : EStateM Exit σ Unit) :=
  Steps.ite (h.pure ()) (Steps.throw h.refl _)

theorem refuse (c : Prop) [Decidable c] (message : String) :
    Steps R (Poker.refuse c message : EStateM Exit σ Unit) :=
  Steps.ite (h.throwException _) (h.pure ())

theorem onlyIf {c : Prop} [Decidable c] {m : EStateM Exit σ Unit} (hm : Steps R m) :
    Steps R (Poker.onlyIf c m) :=
  Steps.ite hm (h.pure ())

theorem catchRust {m : EStateM Exit σ α} {handle : String → EStateM Exit σ α} (hm : Steps R m)
    (hh : ∀ message, Steps R (handle message)) : Steps R (Poker.catchRust m handle) := by
  apply Steps.tryCatch h.trans hm
  intro e
  cases e with
  | stopped => exact Steps.throw h.refl _
  | exception e =>
      cases e with
      | rust message => exact hh message
      | json message => exact Steps.throw h.refl _
      | enum message => exact Steps.throw h.refl _
      | config message => exact Steps.throw h.refl _
      | store message => exact Steps.throw h.refl _

theorem operation (env : Env) : Steps R (Poker.operation env : EStateM Exit σ Nat) := by
  apply Steps.read
  intro s
  exact Steps.ite (Steps.throw h.refl _) (h.bind (Steps.modify h.next) fun _ ↦ h.pure _)

theorem liftOutcome (outcome : Except Exception α) :
    Steps R (Poker.liftOutcome outcome : EStateM Exit σ α) := by
  cases outcome with
  | ok a => exact h.pure a
  | error e => exact h.throwException e

theorem call (env : Env) (answer : Nat → Except Exception α) :
    Steps R (Poker.call env answer : EStateM Exit σ α) :=
  h.bind (h.operation env) fun _ ↦ h.liftOutcome _

end Frame

/-! ## Programs that ask the node only -/

/-- Nothing happened but operations. -/
def Counted [Counts σ] (s t : σ) : Prop := ∃ k, t = Counts.next^[k] s

theorem Counted.frame [Counts σ] : Frame (Counted : σ → σ → Prop) where
  refl _ := ⟨0, rfl⟩
  trans := by
    intro s t u h h'
    have ⟨k, hk⟩ := h
    have ⟨l, hl⟩ := h'
    exact ⟨l + k, by rw [hl, hk, Function.iterate_add_apply]⟩
  next _ := ⟨1, rfl⟩

theorem Frame.of_counted [Counts σ] {R : σ → σ → Prop} (h : Frame R) {s t : σ} (hst : Counted s t) :
    R s t := by
  have ⟨k, hk⟩ := hst
  rw [hk]
  clear hk hst
  induction k with
  | zero => exact h.refl s
  | succ k ih =>
      rw [Function.iterate_succ_apply']
      exact h.trans _ _ _ ih (h.next _)

theorem Frame.counted [Counts σ] {R : σ → σ → Prop} (h : Frame R) {m : EStateM Exit σ α}
    (hm : Steps Counted m) : Steps R m :=
  fun s ↦ (hm s).mono fun _ _ hst ↦ h.of_counted hst

theorem Counted.dealer {d d' : Dealer} (h : Counted d d') :
    d' = { d with operations := d'.operations } := by
  have hframe : Frame fun d d' : Dealer ↦ d' = { d with operations := d'.operations } :=
    ⟨fun _ ↦ rfl, fun _ _ _ h h' ↦ by rw [h', h], fun _ ↦ rfl⟩
  exact hframe.of_counted h

theorem after_inBounds {c : Prop} [Decidable c] {s : σ} {Q : Except Exit Unit → σ → Prop} (hc : c)
    (h : Q (.ok ()) s) : After s (inBounds c) Q := by
  unfold inBounds
  rw [if_pos hc]
  exact After.pure h

section Node

variable [Counts σ] (env : Env) (native : Native)

theorem counted_validateShow (hand : Hand) (player : Player) (value : Submission) :
    Steps Counted (validateShow env native hand player value : EStateM Exit σ (Option Show)) := by
  apply Steps.ite (Counted.frame.pure _)
  apply Counted.frame.bind (Counted.frame.call env _)
  intro pocket
  apply Counted.frame.bind (Counted.frame.call env _)
  intro selected
  exact Counted.frame.bind (Counted.frame.call env _) fun _ ↦ Counted.frame.pure _

theorem counted_validSubmission (hand : Hand) (player : Player) (message : Submission) :
    Steps Counted (validSubmission env native hand player message : EStateM Exit σ Bool) := by
  unfold validSubmission
  cases message.kind with
  | «show» =>
      exact Counted.frame.bind (counted_validateShow env native _ _ _) fun _ ↦ Counted.frame.pure _
  | unknown => exact Counted.frame.pure _
  | auth => exact Counted.frame.pure _
  | subscribe => exact Counted.frame.pure _
  | commit => exact Counted.frame.pure _
  | reveal => exact Counted.frame.pure _
  | action => exact Counted.frame.pure _
  | muck => exact Counted.frame.pure _
  | «continue» => exact Counted.frame.pure _
  | leave => exact Counted.frame.pure _

theorem counted_submissionError (hands : List Hand) (session : Session) (message : Submission) :
    Steps Counted (submissionError env native hands session message : EStateM Exit σ String) := by
  apply Steps.ite (Counted.frame.pure _)
  apply Steps.ite (Counted.frame.pure _)
  apply Steps.ite (Counted.frame.pure _)
  apply Steps.ite (Counted.frame.pure _)
  apply Counted.frame.bind (counted_validSubmission env native _ _ _)
  exact fun valid ↦ Steps.ite (Counted.frame.pure _) (Counted.frame.pure _)

theorem counted_validateSignedSubmission (session : Session) (message : Submission) :
    Steps Counted (validateSignedSubmission env native session message) := by
  apply Steps.ite (Counted.frame.pure _)
  apply Steps.ite (Counted.frame.pure _)
  exact Counted.frame.bind (Counted.frame.call env _) fun _ ↦ Counted.frame.pure _

theorem counted_startPlayer (table : String) (config : TableConfig) (index : Nat) :
    Steps Counted (startPlayer env table config index) := by
  apply Counted.frame.bind (Counted.frame.call env _)
  intro address
  exact Counted.frame.bind (Counted.frame.call env _) fun _ ↦ Counted.frame.pure _

end Node

/-! ## Stores -/

section Outcomes

variable (slot : Slot α) (env : Env) {d : Dealer}

/-- The ways in which an operation ends: the process stops before it, or it has a fate. -/
theorem after_operation {k : Nat → DealerM β} {Q : Except Exit β → Dealer → Prop}
    (hstop : Q (.error .stopped) d) (hrun : ∀ n d', Counted d d' → After d' (k n) Q) :
    After d (operation env >>= k) Q := by
  apply After.bind
  unfold operation
  apply After.read
  apply After.ite
  · exact fun _ ↦ After.throw hstop
  · intro _
    apply After.bind
    exact After.modify (After.pure (hrun _ _ ⟨1, rfl⟩))

theorem after_find {Q : Except Exit (Option α) → Dealer → Prop}
    (hok : ∀ d', Counted d d' → Q (.ok (slot.read d').shown) d')
    (herror : ∀ e d', Counted d d' → Q (.error e) d') : After d (slot.find env) Q := by
  apply after_operation env (herror .stopped d (Counted.frame.refl d))
  intro n d' h
  cases env.fate n with
  | done => exact After.read (After.pure (hok d' h))
  | failed reach => exact After.throw (herror _ d' h)

theorem after_insert {value : α} {Q : Except Exit Unit → Dealer → Prop}
    (hok : ∀ d', Counted d d' → Q (.ok ()) (slot.write d' ((slot.read d').insert value)))
    (herror : ∀ e d', Counted d d' → Q (.error e) d') : After d (slot.insert env value) Q := by
  apply after_operation env (herror .stopped d (Counted.frame.refl d))
  intro n d' h
  cases env.fate n with
  | done => exact After.modify (hok d' h)
  | failed reach => exact After.throw (herror _ d' h)

theorem after_commit {version : UInt32} {Q : Except Exit Bool → Dealer → Prop}
    (hok : ∀ d', Counted d d' → Q (.ok ((slot.read d').commit version).1)
      (slot.write d' ((slot.read d').commit version).2))
    (hstop : Q (.error .stopped) d)
    (hfailed : ∀ reach d', Counted d d' → Q (.error (.exception Slot.ioError))
      (slot.write d' ((slot.read d').commitFailed version reach))) :
    After d (slot.commit env version) Q := by
  apply after_operation env hstop
  intro n d' h
  cases env.fate n with
  | done => exact After.read (After.bind (After.modify (After.pure (hok d' h))))
  | failed reach => exact After.bind (After.modify (After.throw (hfailed reach d' h)))

/-- The dealer after something happened. -/
def Dealer.noted (d : Dealer) (happening : Happening) : Dealer :=
  { d with journal := d.journal ++ [happening] }

/-- A revert that cut the index file is in the journal, whether it returns or throws. -/
theorem after_revert {version : UInt32} {happening : Happening}
    {Q : Except Exit Bool → Dealer → Prop}
    (hdone : ∀ d' store, Counted d d' → (slot.read d').revert version = some (true, store) →
      Q (.ok true) ((slot.write d' store).noted happening))
    (hrefused : ∀ d' store, Counted d d' → (slot.read d').revert version = some (false, store) →
      Q (.ok false) (slot.write d' store))
    (herror : ∀ e d', Counted d d' → Q (.error e) d')
    (hfailed : ∀ reach d' store, Counted d d' →
      (slot.read d').revertFailed version reach = some store →
      Q (.error (.exception Slot.ioError)) ((slot.write d' store).noted happening)) :
    After d (slot.revert env version happening) Q := by
  apply after_operation env (herror .stopped d (Counted.frame.refl d))
  intro n d' h
  cases env.fate n with
  | done =>
      apply After.read
      cases hrevert : (slot.read d').revert version with
      | none => exact After.throw (herror _ d' h)
      | some result =>
          obtain ⟨reverted, store⟩ := result
          apply After.bind
          apply After.modify
          apply After.bind
          cases reverted with
          | true => exact After.modify (After.pure (hdone d' store h hrevert))
          | false => exact After.pure (After.pure (hrefused d' store h hrevert))
  | failed reach =>
      apply After.read
      cases hrevert : (slot.read d').revertFailed version reach with
      | none => exact After.throw (herror _ d' h)
      | some store =>
          apply After.bind
          apply After.modify
          apply After.bind
          exact After.modify (After.throw (hfailed reach d' store h hrevert))

/-- A slot is a field of the dealer apart from the count. -/
structure Slot.Lawful (slot : Slot α) : Prop where
  read_write : ∀ d s, slot.read (slot.write d s) = s
  write_write : ∀ d s t, slot.write (slot.write d s) t = slot.write d t
  write_read : ∀ d : Dealer, slot.write d (slot.read d) = d
  read_count : ∀ (d : Dealer) n, slot.read { d with operations := n } = slot.read d
  write_count : ∀ (d : Dealer) s n,
    { slot.write d s with operations := n } = slot.write { d with operations := n } s

theorem Slot.pending_lawful : Slot.pending.Lawful :=
  ⟨fun _ _ ↦ rfl, fun _ _ _ ↦ rfl, fun _ ↦ rfl, fun _ _ ↦ rfl, fun _ _ _ ↦ rfl⟩

theorem Slot.hands_lawful : Slot.hands.Lawful :=
  ⟨fun _ _ ↦ rfl, fun _ _ _ ↦ rfl, fun _ ↦ rfl, fun _ _ ↦ rfl, fun _ _ _ ↦ rfl⟩

/-- `save_pending` and `save_hands`: the next version has the value, or the call throws. -/
theorem after_saveNext (hslot : slot.Lawful) {value : α} {message : String}
    {Q : Except Exit Unit → Dealer → Prop}
    (hok : ∀ n, Q (.ok ()) (slot.write { d with operations := n }
      ((slot.read d).saved value ((slot.read d).currentVersion + 1))))
    (herror : ∀ e n store,
      Store.FailedToSave (slot.read d) value ((slot.read d).currentVersion + 1) store →
      Q (.error e) (slot.write { d with operations := n } store)) :
    After d (do slot.insert env value; commitNext slot env message) Q := by
  -- a call of the environment counts and touches no store
  have hcounted {d' : Dealer} (h : Counted d d') : slot.read d' = slot.read d := by
    rw [h.dealer, hslot.read_count]
  apply After.bind
  apply after_insert
  · intro d₁ h₁
    rw [hcounted h₁]
    apply After.bind
    apply After.read
    apply After.pure
    rw [hslot.read_write]
    have hinserted : ∀ e d₂, Counted (slot.write d₁ ((slot.read d).insert value)) d₂ →
        Q (.error e) d₂ := by
      intro e d₂ h₂
      rw [h₂.dealer, h₁.dealer, hslot.write_count]
      exact herror e _ _ (Store.failedToSave_insert ..)
    apply After.ite
    · intro _
      apply After.bind
      apply after_commit
      · intro d₂ h₂
        have hread : slot.read d₂ = (slot.read d).insert value := by
          rw [h₂.dealer, hslot.read_count, hslot.read_write]
        rw [hread]
        apply After.ite
        · intro hrefused
          apply After.throw
          rw [Store.commit_refused hrefused, ← hread, hslot.write_read]
          exact hinserted _ _ h₂
        · intro hcommitted
          apply After.pure
          rw [Store.commit_insert hcommitted, h₂.dealer, h₁.dealer, hslot.write_count,
            hslot.write_write]
          exact hok _
      · exact hinserted _ _ (Counted.frame.refl _)
      · intro reach d₂ h₂
        have hread : slot.read d₂ = (slot.read d).insert value := by
          rw [h₂.dealer, hslot.read_count, hslot.read_write]
        rw [hread, h₂.dealer, h₁.dealer, hslot.write_count, hslot.write_write]
        exact herror _ _ _ (Store.failedToSave_commit ..)
    · exact fun _ ↦ After.throw (hinserted _ _ (Counted.frame.refl _))
  · intro e d₁ h₁
    have hsame := herror e d₁.operations (slot.read d) (Store.failedToSave_refl ..)
    rwa [← hslot.read_count d d₁.operations, hslot.write_read, ← h₁.dealer] at hsame

end Outcomes

section Stores

variable {R : Dealer → Dealer → Prop} (h : Frame R) (slot : Slot α) (env : Env)

include h

theorem Frame.find : Steps R (slot.find env) := by
  apply h.bind (h.operation env)
  intro n
  cases env.fate n with
  | done => exact Steps.read fun _ ↦ h.pure _
  | failed reach => exact h.throwException _

variable (hwrite : ∀ d s, R d (slot.write d s))

include hwrite

theorem Frame.insert (value : α) : Steps R (slot.insert env value) := by
  apply h.bind (h.operation env)
  intro n
  cases env.fate n with
  | done => exact Steps.modify fun d ↦ hwrite d _
  | failed reach => exact h.throwException _

theorem Frame.commit (version : UInt32) : Steps R (slot.commit env version) := by
  apply h.bind (h.operation env)
  intro n
  cases env.fate n with
  | done => exact Steps.read fun d ↦ h.bind (Steps.modify fun d ↦ hwrite d _) fun _ ↦ h.pure _
  | failed reach => exact h.bind (Steps.modify fun d ↦ hwrite d _) fun _ ↦ h.throwException _

theorem Frame.commitNext (message : String) : Steps R (commitNext slot env message) := by
  apply h.bind (Steps.read fun d ↦ h.pure _)
  intro version
  exact Steps.ite (h.bind (h.commit slot env hwrite _) fun _ ↦ h.refuse _ _) (h.throwException _)

end Stores

/-! ## Synchronization -/

/-- A relation that allows every change of the pending tables and of their store. -/
structure PendingFrame (R : Dealer → Dealer → Prop) : Prop extends Frame R where
  pending : ∀ (d : Dealer) p l, R d { d with pending := p, dropped := l }
  pendingStore : ∀ (d : Dealer) s, R d { d with pendingStore := s }

namespace PendingFrame

variable {R : Dealer → Dealer → Prop} (h : PendingFrame R) (env : Env)

include h

theorem savePending (pending : List PendingTable) : Steps R (savePending env pending) :=
  h.bind (h.insert _ env h.pendingStore _) fun _ ↦ h.commitNext _ env h.pendingStore _

theorem recoverDeployments (oldChain : ChainState) (tipHeight : Nat) (rolledBack : Bool) :
    Steps R (recoverDeployments oldChain tipHeight rolledBack) :=
  Steps.read fun _ ↦ Steps.ite (h.bind (Steps.modify fun d ↦ h.pending d _ _) fun _ ↦ h.pure _)
    (h.pure _)

theorem scaleTemplate (spec : TableTemplate) : Steps R (scaleTemplate env spec) := by
  apply Steps.read
  intro d
  apply Steps.ite (h.pure _)
  apply h.bind (h.call env _)
  intro address
  apply h.bind (Steps.modify fun d ↦ h.pending d _ _)
  intro _
  apply Steps.read
  intro d
  exact h.bind (h.savePending env _) fun _ ↦ h.pure _

theorem deployMany (spec : TableTemplate) (left : Nat) : Steps R (deployMany env spec left) := by
  induction left with
  | zero => exact h.pure _
  | succ left ih =>
      apply h.bind (h.scaleTemplate env spec)
      intro deployed
      exact Steps.ite ih (h.pure _)

theorem scaleTables (config : DealerConfig) : Steps R (scaleTables env config) := by
  apply Steps.read
  intro d
  apply h.onlyIf
  exact h.bind (Steps.foldlM h.refl h.trans (fun left spec ↦ h.deployMany env spec left) _ _)
    fun _ ↦ h.pure _

end PendingFrame

/-- A relation that allows every change of the chain and of its store too. -/
structure ChainFrame (R : Dealer → Dealer → Prop) : Prop extends PendingFrame R where
  chain : ∀ (d : Dealer) c, R d { d with chain := c }
  chainStore : ∀ (d : Dealer) s, R d { d with chainStore := s }
  snapshots : ∀ (d : Dealer) l, R d { d with snapshots := l }

namespace ChainFrame

variable {R : Dealer → Dealer → Prop} (h : ChainFrame R) (env : Env)

include h

theorem saveChain (height : Nat) (chain : ChainState) : Steps R (saveChain env height chain) := by
  apply h.bind (h.refuse _ _)
  intro _
  apply h.bind (h.insert _ env h.chainStore _)
  intro _
  apply h.bind (Steps.read fun _ ↦ h.pure _)
  intro current
  apply h.bind (h.onlyIf (h.bind (h.commit _ env h.chainStore _) fun _ ↦ h.refuse _ _))
  exact fun _ ↦ Steps.modify fun d ↦ h.snapshots d _

theorem updateTable (index : Nat) (f : Table → Table) : Steps R (updateTable index f) :=
  Steps.modify fun d ↦ h.chain d _

theorem refreshTable (height index : Nat) : Steps R (refreshTable env height index) := by
  apply Steps.read
  intro d
  apply h.catchRust
  · apply h.bind (h.call env _)
    intro status
    apply h.bind (h.call env _)
    intro config
    apply h.bind (h.liftOutcome _)
    intro status
    apply h.bind (h.updateTable _ _)
    intro _
    exact h.bind (h.liftOutcome _) fun config ↦ h.updateTable _ _
  · intro message
    exact h.updateTable _ _

theorem refreshTables : Steps R (refreshTables env) :=
  Steps.read fun _ ↦ Steps.foldlM h.refl h.trans (fun _ _ ↦ h.refreshTable env _ _) _ _

theorem confirmTable (table : PendingTable) : Steps R (confirmTable env table) := by
  apply h.bind (h.call env _)
  intro status
  apply h.bind (h.call env _)
  intro tableConfig
  apply Steps.read
  intro d
  apply h.onlyIf
  apply h.bind (h.liftOutcome _)
  intro status
  exact h.bind (h.liftOutcome _) fun tableConfig ↦ Steps.modify fun d ↦ h.chain d _

theorem mergeTable (config : DealerConfig) (acc : Merge) (table : PendingTable) :
    Steps R (mergeTable env config acc table) := by
  apply h.catchRust
  · exact h.bind (h.confirmTable env table) fun _ ↦ h.pure _
  · intro message
    exact Steps.read fun d ↦ Steps.ite (h.pure _) (h.pure _)

theorem mergePending (config : DealerConfig) : Steps R (mergePending env config) := by
  apply Steps.read
  intro d
  apply h.bind (Steps.foldlM h.refl h.trans (h.mergeTable env config) _ _)
  intro merge
  apply h.bind
  · exact h.onlyIf (Steps.modify fun d ↦ h.pending d _ _)
  · exact fun _ ↦ h.pure _

theorem checkpointMatches (checkpoint : Checkpoint) (tipHeight : Nat) :
    Steps R (checkpointMatches env checkpoint tipHeight) :=
  Steps.ite (h.pure _) (h.bind (h.call env _) fun _ ↦ h.pure _)

theorem findAncestor (tipHeight : Nat) (checkpoints : List Checkpoint) :
    Steps R (findAncestor env tipHeight checkpoints) := by
  induction checkpoints with
  | nil => exact h.pure _
  | cons checkpoint older ih =>
      apply h.bind (h.catchRust (h.checkpointMatches env _ _) fun _ ↦ h.pure _)
      intro found
      exact Steps.ite (h.pure _) ih

theorem currentMatches (chain : ChainState) (tipHeight : Nat) :
    Steps R (currentMatches env chain tipHeight) :=
  Steps.ite (h.catchRust (h.bind (h.call env _) fun _ ↦ h.pure _) fun _ ↦ h.pure _) (h.pure _)

theorem refreshTip (config : DealerConfig) (tipHeight : Nat) :
    Steps R (refreshTip env config tipHeight) := by
  apply h.bind (h.call env _)
  intro hash
  apply h.bind (Steps.modify fun d ↦ h.chain d _)
  intro _
  apply h.bind (h.refreshTables env)
  intro _
  apply h.bind (h.mergePending env config)
  intro merged
  exact h.bind (Steps.modify fun d ↦ h.chain d _) fun _ ↦ h.pure _

theorem updateTip (config : DealerConfig) (tipHeight : Nat) (pendingChanged : Bool) :
    Steps R (updateTip env config tipHeight pendingChanged) := by
  apply h.bind (h.refreshTip env config tipHeight)
  intro merged
  apply Steps.read
  intro d
  apply h.bind (h.saveChain env _ _)
  intro _
  exact h.onlyIf (Steps.read fun d ↦ h.savePending env _)

theorem recordTip (config : DealerConfig) (info : NodeInfo) (oldChain : ChainState)
    (rolledBack : Bool) : Steps R (recordTip env config info oldChain rolledBack) := by
  apply h.bind (h.recoverDeployments _ _ _)
  intro pendingChanged
  apply Steps.read
  intro d
  apply h.bind (Steps.modify fun d ↦ h.chain d _)
  intro _
  exact h.onlyIf (h.updateTip env _ _ _)

end ChainFrame

/-! ## Ticks -/

/-- What `start_hand` gives for a table. -/
structure Fresh (table : Table) (status : TableStatus) (hand : Hand) : Prop where
  table : hand.table = table.address
  handId : hand.handId = status.handId
  startHeight : hand.startHeight = status.startHeight.getD 0
  phase : hand.phase = .commit
  betting : hand.betting = List.replicate 4 []

theorem startHand_spec (env : Env) (table : Table) (status : TableStatus) (now : Nat) (d : Dealer)
    (hstatus : table.status = some status) :
    After d (startHand env table status.handId now) fun r d' ↦
      Counted d d' ∧ ∀ hand, r = .ok hand → Fresh table status hand := by
  unfold startHand
  apply After.bind
  apply (Counted.frame.requireConfig _ _ d).mono
  intro r d₁ h₁
  cases r with
  | error e => exact ⟨h₁, fun _ h ↦ nomatch h⟩
  | ok _ =>
      rw [hstatus, Option.getD_some]
      apply After.bind
      apply ((Steps.mapM Counted.frame.refl Counted.frame.trans
        (counted_startPlayer env _ _) _).after Counted.frame.trans h₁).mono
      intro r d₂ h₂
      cases r with
      | error e => exact ⟨h₂, fun _ h ↦ nomatch h⟩
      | ok players =>
          apply After.bind
          apply ((Counted.frame.call env _).after Counted.frame.trans h₂).mono
          intro r d₃ h₃
          cases r with
          | error e => exact ⟨h₃, fun _ h ↦ nomatch h⟩
          | ok checkpoint =>
              apply After.pure
              refine ⟨h₃, fun hand h ↦ ?_⟩
              cases h
              exact ⟨rfl, rfl, rfl, rfl, rfl⟩

/-- What `reconcile_table` can do: nothing, drop the hand of the table, or start one. -/
theorem after_reconcileTable (env : Env) (table : Table) (currentHeight now : Nat) {d : Dealer}
    {Q : Except Exit ReconcileResult → Dealer → Prop} (hsame : Q (.ok {}) d)
    (hdropped : ∀ status event, table.confirmed = true → table.status = some status →
      findHandIndex d.hands table.address ≠ d.hands.length →
      endingEvent table.address status currentHeight
        (d.hands.getD (findHandIndex d.hands table.address) {}) = some event →
      Q (.ok { changed := true, event := some event })
        { d with hands := d.hands.eraseIdx (findHandIndex d.hands table.address) })
    (hthrew : ∀ status e d₁, table.status = some status →
      startHand env table status.handId now d = .error e d₁ → Q (.error e) d₁)
    (hstarted : ∀ status hand d₁, table.confirmed = true → table.status = some status →
      findHandIndex d.hands table.address = d.hands.length →
      canStart table status currentHeight = true →
      startHand env table status.handId now d = .ok hand d₁ →
      Q (.ok { changed := true, event := some (makeHandStateEvent hand) })
        { d₁ with hands := d₁.hands ++ [hand], journal := d₁.journal ++ [.handStarted hand] }) :
    After d (reconcileTable env table currentHeight now) Q := by
  unfold reconcileTable
  cases hconfirmed : table.confirmed with
  | false => exact After.pure hsame
  | true =>
      cases hstatus : table.status with
      | none => exact After.pure hsame
      | some status =>
          apply After.read
          apply After.ite
          · intro hfound
            cases hending : endingEvent table.address status currentHeight
                (d.hands.getD (findHandIndex d.hands table.address) {}) with
            | none => exact After.pure hsame
            | some event =>
                apply After.bind
                apply After.modify
                exact After.pure (hdropped status event hconfirmed hstatus hfound hending)
          · intro hnew
            apply After.ite
            · intro hcan
              apply After.bind
              apply After.intro
              · intro hand d₁ hreturned
                apply After.bind
                apply After.modify
                apply After.bind
                apply After.modify
                apply After.pure
                exact hstarted status hand d₁ hconfirmed hstatus (not_not.mp hnew) hcan hreturned
              · exact fun e d₁ hthrown ↦ hthrew status e d₁ hstatus hthrown
            · exact fun _ ↦ After.pure hsame

theorem after_onHand {d : Dealer} {i : Nat} {step : HandM Bool}
    {Q : Except Exit Bool → Dealer → Prop} (hnone : d.hands[i]? = none → Q (.ok false) d)
    (hsome : ∀ before, d.hands[i]? = some before →
      After ⟨d.operations, before, d.inbox⟩ step fun r s ↦ Q r (d.stepped i before s r.isOk)) :
    After d (onHand i step) Q := by
  unfold After onHand
  cases hi : d.hands[i]? with
  | none => exact hnone hi
  | some before =>
      have hstep := hsome before hi
      unfold After at hstep
      dsimp only
      cases hr : step ⟨d.operations, before, d.inbox⟩ with
      | ok advanced s =>
          rw [hr] at hstep
          exact hstep
      | error e s =>
          rw [hr] at hstep
          exact hstep

/-- A relation that all steps of a tick keep. -/
structure TickFrame (env : Env) (native : Native) (R : Dealer → Dealer → Prop) : Prop
    extends Frame R where
  handsStore : ∀ (d : Dealer) s, R d { d with handsStore := s }
  ticked : ∀ d : Dealer, R d { d with journal := d.journal ++ [.handsTicked d.chain.height] }
  started : ∀ (d : Dealer) table status hand, Fresh table status hand →
    findHandIndex d.hands table.address = d.hands.length →
    R d { d with hands := d.hands ++ [hand], journal := d.journal ++ [.handStarted hand] }
  dropped : ∀ (d : Dealer) i, R d { d with hands := d.hands.eraseIdx i }
  advanced : ∀ (d : Dealer) i before chain now, d.hands[i]? = some before →
    After ⟨d.operations, before, d.inbox⟩ (advanceHand env native chain now) fun r s ↦
      R d (d.stepped i before s r.isOk)

namespace TickFrame

variable {env : Env} {native : Native} {R : Dealer → Dealer → Prop} (h : TickFrame env native R)

include h

theorem saveHands (hands : List Hand) : Steps R (saveHands env hands) :=
  h.bind (h.insert _ env h.handsStore _) fun _ ↦ h.commitNext _ env h.handsStore _

theorem reconcileTable (table : Table) (currentHeight now : Nat) :
    Steps R (reconcileTable env table currentHeight now) := by
  intro d
  apply after_reconcileTable
  · exact h.refl d
  · exact fun _ _ _ _ _ _ ↦ h.dropped d _
  · exact fun status _ _ hstatus hthrown ↦
      h.of_counted ((startHand_spec env table status now d hstatus).error hthrown).1
  · intro status hand d₁ _ hstatus hnew _ hreturned
    have ⟨hcounted, hfresh⟩ := (startHand_spec env table status now d hstatus).ok hreturned
    apply h.trans _ _ _ (h.of_counted hcounted)
    apply h.started d₁ table status hand (hfresh hand rfl)
    rw [hcounted.dealer]
    exact hnew

theorem onHand (i : Nat) (chain : ChainState) (now : Nat) :
    Steps R (onHand i (advanceHand env native chain now)) :=
  fun d ↦ after_onHand (fun _ ↦ h.refl d) (h.advanced d i · chain now)

theorem reconcileStep (currentHeight now : Nat) (acc : Bool × List HandEvent) (table : Table) :
    Steps R (reconcileStep env currentHeight now acc table) :=
  h.bind (h.reconcileTable _ _ _) fun _ ↦ h.pure _

theorem advanceStep (chain : ChainState) (now : Nat) (acc : Bool × List HandEvent) (i : Nat) :
    Steps R (advanceStep env native chain now acc i) :=
  h.bind (h.onHand _ _ _) fun _ ↦ Steps.ite (Steps.read fun _ ↦ h.pure _) (h.pure _)

theorem tickHands (now : Nat) : Steps R (tickHands env native now) := by
  apply Steps.get
  intro d
  apply After.ite
  · exact fun _ ↦ h.pure _ d
  · intro _
    apply After.bind
    apply After.modify
    refine Steps.after h.trans ?_ (h.ticked d)
    apply h.bind
    · exact Steps.foldlM h.refl h.trans (fun _ _ ↦ h.reconcileStep _ _ _ _) _ _
    · intro reconciled
      apply Steps.read
      intro d
      apply h.bind
      · exact Steps.foldlM h.refl h.trans (fun _ _ ↦ h.advanceStep _ _ _ _) _ _
      · intro result
        exact h.bind (h.onlyIf (Steps.read fun _ ↦ h.saveHands _)) fun _ ↦ h.pure _

end TickFrame

end Stainless.Poker
