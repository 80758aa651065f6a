import Stainless.Reasoning.Runs
import Stainless.Poker.HandFrames

/-!
# Rollbacks reset the hands

A rollback of the chain leaves hands behind that belong to blocks which are gone.  The loop clears them
when `synchronize` returns that it rolled the chain back; a `synchronize` that throws behind the cut of
the index file never tells.
-/

open Reasoning Stainless.Crypto

namespace Stainless.Poker

/-! ## 1. The journal -/

/-- Between a rollback and a tick on a newer chain the hands were reset. -/
def ResetBeforeTick (journal : List Happening) : Prop :=
  ∀ front height between height' rest,
    journal = front ++ .reverted height :: (between ++ .handsTicked height' :: rest) →
    height < height' → .handsReset ∈ between

/-- The hand was started after the last rollback. -/
def StartedSince (journal : List Happening) (hand : Hand) : Prop :=
  ∀ front height between, journal = front ++ .reverted height :: between →
    ∃ started, .handStarted started ∈ between ∧ started.table = hand.table ∧
      started.handId = hand.handId ∧ started.startHeight = hand.startHeight

/-- No hand is advanced that was started before a rollback. -/
def NoOrphanAdvances (journal : List Happening) : Prop :=
  ∀ front before after returned rest,
    journal = front ++ .handAdvanced before after returned :: rest → StartedSince front before

/-- Whether a rollback is not followed by a reset yet. -/
def awaitsNext (awaits : Bool) : Happening → Bool
  | .reverted _ => true
  | .handsReset => false
  | _ => awaits

def awaitsReset (journal : List Happening) : Bool := journal.foldl awaitsNext false

@[simp] theorem awaitsReset_append (journal : List Happening) (h : Happening) :
    awaitsReset (journal ++ [h]) = awaitsNext (awaitsReset journal) h := by
  rw [awaitsReset, List.foldl_append]
  rfl

theorem handsReset_mem {front between : List Happening} {height : Nat}
    (h : awaitsReset (front ++ .reverted height :: between) = false) : .handsReset ∈ between := by
  induction between using List.reverseRecOn with
  | nil =>
      rw [awaitsReset_append] at h
      exact absurd h (by simp [awaitsNext])
  | append_singleton between last ih =>
      rw [← List.cons_append, ← List.append_assoc, awaitsReset_append] at h
      rw [List.mem_append]
      cases last with
      | handsReset => exact .inr (List.mem_singleton_self _)
      | reverted height => exact absurd h (by simp [awaitsNext])
      | handsTicked height => exact .inl (ih h)
      | handStarted hand => exact .inl (ih h)
      | submissionAccepted session message => exact .inl (ih h)
      | handAdvanced before after returned => exact .inl (ih h)

/-- Where a longer list can be split: at its last element or inside the shorter list. -/
theorem append_singleton_cases {α : Type} {front rest list : List α} {x y : α}
    (h : list ++ [y] = front ++ x :: rest) :
    (rest = [] ∧ list = front ∧ y = x) ∨ ∃ rest', rest = rest' ++ [y] ∧ list = front ++ x :: rest' := by
  induction rest using List.reverseRecOn with
  | nil =>
      have ⟨hlist, hy⟩ := List.append_inj' h rfl
      exact .inl ⟨rfl, hlist, (List.cons.inj hy).1⟩
  | append_singleton rest last _ =>
      rw [← List.cons_append, ← List.append_assoc] at h
      have ⟨hlist, hy⟩ := List.append_inj' h rfl
      exact .inr ⟨rest, by rw [(List.cons.inj hy).1], hlist⟩

theorem ResetBeforeTick.append {journal : List Happening} {h : Happening}
    (hj : ResetBeforeTick journal)
    (htick : ∀ height, h = .handsTicked height → awaitsReset journal = false) :
    ResetBeforeTick (journal ++ [h]) := by
  intro front height between height' rest heq hlt
  rw [← List.cons_append, ← List.append_assoc] at heq
  rcases append_singleton_cases heq with ⟨_, hlist, hh⟩ | ⟨rest', _, hlist⟩
  · apply handsReset_mem
    rw [← hlist]
    exact htick height' hh
  · apply hj front height between height' rest' _ hlt
    rw [hlist, List.append_assoc, List.cons_append]

theorem NoOrphanAdvances.append {journal : List Happening} {h : Happening}
    (hj : NoOrphanAdvances journal)
    (hadvance : ∀ before after returned,
      h = .handAdvanced before after returned → StartedSince journal before) :
    NoOrphanAdvances (journal ++ [h]) := by
  intro front before after returned rest heq
  rcases append_singleton_cases heq with ⟨_, hlist, hh⟩ | ⟨rest', _, hlist⟩
  · rw [← hlist]
    exact hadvance before after returned hh
  · exact hj front before after returned rest' hlist

theorem StartedSince.append {journal : List Happening} {h : Happening} {hand : Hand}
    (hs : StartedSince journal hand) (hrev : ∀ height, h ≠ .reverted height) :
    StartedSince (journal ++ [h]) hand := by
  intro front height between heq
  rcases append_singleton_cases heq with ⟨_, _, hh⟩ | ⟨between', hbetween, hlist⟩
  · exact absurd hh (hrev height)
  · have ⟨started, hmem, hsame⟩ := hs front height between' hlist
    exact ⟨started, hbetween ▸ List.mem_append_left _ hmem, hsame⟩

theorem StartedSince.started (journal : List Happening) (hand : Hand) :
    StartedSince (journal ++ [.handStarted hand]) hand := by
  intro front height between heq
  rcases append_singleton_cases heq with ⟨_, _, hh⟩ | ⟨between', hbetween, _⟩
  · exact Happening.noConfusion hh
  · exact ⟨hand, hbetween ▸ List.mem_append_right _ (List.mem_singleton_self _), rfl, rfl, rfl⟩

theorem StartedSince.same {journal : List Happening} {hand hand' : Hand}
    (h : StartedSince journal hand) (htable : hand'.table = hand.table)
    (hid : hand'.handId = hand.handId) (hstart : hand'.startHeight = hand.startHeight) :
    StartedSince journal hand' := by
  intro front height between heq
  have ⟨started, hmem, ht, hi, hs⟩ := h front height between heq
  exact ⟨started, hmem, ht.trans htable.symm, hi.trans hid.symm, hs.trans hstart.symm⟩

/-! ## 2. The invariant between the passes -/

structure HandsCurrent (d : Dealer) : Prop where
  ticks : ResetBeforeTick d.journal
  advances : NoOrphanAdvances d.journal
  awaits : awaitsReset d.journal = false
  started : ∀ hand ∈ d.hands, StartedSince d.journal hand

/-- A step that keeps the invariant. -/
def KeepsCurrent (d d' : Dealer) : Prop := HandsCurrent d → HandsCurrent d'

theorem HandsCurrent.of_eq {d d' : Dealer} (h : HandsCurrent d) (hjournal : d'.journal = d.journal)
    (hhands : d'.hands = d.hands) : HandsCurrent d' where
  ticks := hjournal ▸ h.ticks
  advances := hjournal ▸ h.advances
  awaits := hjournal ▸ h.awaits
  started hand hmem := hjournal ▸ h.started hand (hhands ▸ hmem)

theorem KeepsCurrent.frame : Frame KeepsCurrent where
  refl _ h := h
  trans _ _ _ h h' := h' ∘ h
  next _ h := h.of_eq rfl rfl

/-- A note that is neither a rollback nor a reset. -/
theorem HandsCurrent.note {d : Dealer} (h : HandsCurrent d) (happening : Happening)
    (hrev : ∀ height, happening ≠ .reverted height) (hreset : happening ≠ .handsReset)
    (hadvance : ∀ before after returned,
      happening = .handAdvanced before after returned → StartedSince d.journal before) :
    HandsCurrent { d with journal := d.journal ++ [happening] } where
  ticks := h.ticks.append fun _ _ ↦ h.awaits
  advances := h.advances.append hadvance
  awaits := by
    change awaitsReset (d.journal ++ [happening]) = false
    rw [awaitsReset_append, h.awaits]
    cases happening with
    | reverted height => exact absurd rfl (hrev height)
    | handsReset => rfl
    | handsTicked height => rfl
    | handStarted hand => rfl
    | submissionAccepted session message => rfl
    | handAdvanced before after returned => rfl
  started hand hmem := (h.started hand hmem).append hrev

theorem KeepsCurrent.tickFrame (env : Env) (native : Native) :
    TickFrame env native KeepsCurrent where
  toFrame := KeepsCurrent.frame
  handsStore _ _ h := h.of_eq rfl rfl
  ticked d h := h.note (.handsTicked d.chain.height) (fun _ h ↦ nomatch h) (fun h ↦ nomatch h) fun _ _ _ h ↦ nomatch h
  -- a hand that starts behind a rollback belongs to the chain as it is
  started d _ _ hand _ _ h :=
    have hnote := h.note (.handStarted hand) (fun _ h ↦ nomatch h) (fun h ↦ nomatch h)
      fun _ _ _ h ↦ nomatch h
    { ticks := hnote.ticks
      advances := hnote.advances
      awaits := hnote.awaits
      started := by
        intro hand' hmem
        rcases List.mem_append.mp hmem with hmem | hmem
        · exact hnote.started hand' hmem
        · rw [List.mem_singleton.mp hmem]
          exact StartedSince.started d.journal hand }
  dropped d i h :=
    { ticks := h.ticks
      advances := h.advances
      awaits := h.awaits
      started := fun hand hmem ↦ h.started hand (List.mem_of_mem_eraseIdx hmem) }
  advanced d i before chain now hbefore := by
    apply (HandState.keeps_advanceHand env native chain now _).mono
    intro r s hkeeps h
    have hstarted := h.started before (List.mem_of_getElem? hbefore)
    have hnote := h.note (.handAdvanced before s.hand r.isOk) (fun _ h ↦ nomatch h)
      (fun h ↦ nomatch h) fun b _ _ heq ↦ by
        cases heq
        exact hstarted
    exact
      { ticks := hnote.ticks
        advances := hnote.advances
        awaits := hnote.awaits
        started := by
          intro hand hmem
          rcases List.mem_or_eq_of_mem_set hmem with hmem | rfl
          · exact hnote.started hand hmem
          · have hlater := hstarted.append (h := .handAdvanced before s.hand r.isOk)
              fun _ h ↦ nomatch h
            exact hlater.same hkeeps.table hkeeps.handId hkeeps.startHeight }

theorem keepsCurrent_dispatchMessage (env : Env) (native : Native) (session : Session)
    (message : Submission) : Steps KeepsCurrent (dispatchMessage env native session message) := by
  have hframe := KeepsCurrent.frame
  apply hframe.onlyIf
  apply Steps.read
  intro d
  apply hframe.bind (hframe.counted (counted_submissionError env native _ _ _))
  intro error
  apply hframe.onlyIf
  apply hframe.bind (hframe.counted (counted_validateSignedSubmission env native _ _))
  intro valid
  apply hframe.onlyIf
  apply hframe.bind
  · exact Steps.modify fun _ h ↦ h.of_eq rfl rfl
  · intro _
    exact Steps.modify fun _ h ↦ h.note (.submissionAccepted session message) (fun _ h ↦ nomatch h)
      (fun h ↦ nomatch h)
      fun _ _ _ h ↦ nomatch h

/-! ## 3. Synchronization -/

/-- Neither the hands nor the journal changed. -/
structure SameHands (d d' : Dealer) : Prop where
  hands : d'.hands = d.hands
  journal : d'.journal = d.journal

theorem SameHands.chainFrame : ChainFrame SameHands where
  refl _ := ⟨rfl, rfl⟩
  trans _ _ _ h h' := ⟨h'.hands.trans h.hands, h'.journal.trans h.journal⟩
  next _ := ⟨rfl, rfl⟩
  chain _ _ := ⟨rfl, rfl⟩
  pending _ _ _ := ⟨rfl, rfl⟩
  chainStore _ _ := ⟨rfl, rfl⟩
  snapshots _ _ := ⟨rfl, rfl⟩
  pendingStore _ _ := ⟨rfl, rfl⟩

/-- The chain was rolled back, which the journal says. -/
structure RolledBack (d d' : Dealer) : Prop where
  hands : d'.hands = d.hands
  journal : ∃ height, d'.journal = d.journal ++ [.reverted height]

theorem RolledBack.after {d d₁ d₂ : Dealer} (h : RolledBack d d₁) (h' : SameHands d₁ d₂) :
    RolledBack d d₂ :=
  have ⟨height, hjournal⟩ := h.journal
  ⟨h'.hands.trans h.hands, height, h'.journal.trans hjournal⟩

theorem RolledBack.before {d d₁ d₂ : Dealer} (h : SameHands d d₁) (h' : RolledBack d₁ d₂) :
    RolledBack d d₂ :=
  have ⟨height, hjournal⟩ := h'.journal
  ⟨h'.hands.trans h.hands, height, by rw [hjournal, h.journal]⟩

theorem revertChain_journal (env : Env) (ancestor : Nat) (d : Dealer) :
    After d (revertChain env ancestor) fun r d' ↦
      (SameHands d d' ∧ r ≠ .ok ()) ∨ RolledBack d d' := by
  have hframe := SameHands.chainFrame
  apply After.bind
  apply (hframe.refuse _ _ d).mono
  intro r d₁ h₁
  cases r with
  | error e => exact .inl ⟨h₁, fun h ↦ nomatch h⟩
  | ok _ =>
      -- once the index file is cut, the journal tells of the rollback
      have hrolled (d₂ : Dealer) (store : Store ChainState) (h₂ : Counted d₁ d₂) :
          RolledBack d ((Slot.chain.write d₂ store).noted (.reverted ancestor)) := by
        have hsame := hframe.trans _ _ _ h₁ (hframe.of_counted h₂)
        exact RolledBack.before hsame ⟨rfl, ancestor, rfl⟩
      apply After.bind
      apply after_revert
      · intro d₂ store h₂ _
        apply After.bind
        apply After.pure
        apply (hframe.bind (hframe.bind (hframe.find Slot.chain env) fun _ ↦ hframe.pure _)
          (fun loaded ↦ Steps.modify fun d ↦ hframe.chain d _) _).mono
        exact fun r d₃ h₃ ↦ .inr ((hrolled d₂ store h₂).after h₃)
      · intro d₂ store h₂ _
        apply After.bind
        refine After.throw (.inl ⟨?_, fun h ↦ nomatch h⟩)
        exact hframe.trans _ _ _ (hframe.trans _ _ _ h₁ (hframe.of_counted h₂)) (hframe.chainStore _ _)
      · intro e d₂ h₂
        exact .inl ⟨hframe.trans _ _ _ h₁ (hframe.of_counted h₂), fun h ↦ nomatch h⟩
      · exact fun reach d₂ store h₂ _ ↦ .inr (hrolled d₂ store h₂)

theorem rollbackIfNeeded_journal (env : Env) (tipHeight : Nat) (d : Dealer) :
    After d (rollbackIfNeeded env tipHeight) fun r d' ↦
      (SameHands d d' ∧ r ≠ .ok true) ∨ (RolledBack d d' ∧ r ≠ .ok false) := by
  have hframe := SameHands.chainFrame
  apply After.read
  apply After.ite
  · exact fun _ ↦ After.pure (.inl ⟨hframe.refl d, fun h ↦ nomatch h⟩)
  · intro _
    apply After.bind
    apply (hframe.currentMatches env _ _ d).mono
    intro r d₁ h₁
    cases r with
    | error e => exact .inl ⟨h₁, fun h ↦ nomatch h⟩
    | ok same =>
        apply After.ite
        · exact fun _ ↦ After.pure (.inl ⟨h₁, fun h ↦ nomatch h⟩)
        · intro _
          apply After.bind
          apply ((hframe.findAncestor env _ _).after hframe.trans h₁).mono
          intro r d₂ h₂
          cases r with
          | error e => exact .inl ⟨h₂, fun h ↦ nomatch h⟩
          | ok found =>
              apply After.bind
              apply (revertChain_journal env _ d₂).mono
              intro r d₃ h₃
              rcases h₃ with ⟨hsame, hr⟩ | hrolled
              · cases r with
                | error e => exact .inl ⟨hframe.trans _ _ _ h₂ hsame, fun h ↦ nomatch h⟩
                | ok _ => exact absurd rfl hr
              · cases r with
                | error e => exact .inr ⟨RolledBack.before h₂ hrolled, fun h ↦ nomatch h⟩
                | ok _ => exact After.pure (.inr ⟨RolledBack.before h₂ hrolled, fun h ↦ nomatch h⟩)

theorem synchronize_journal (env : Env) (config : DealerConfig) (d : Dealer) :
    After d (synchronize env config) fun r d' ↦
      (SameHands d d' ∧ r ≠ .ok true) ∨ (RolledBack d d' ∧ r ≠ .ok false) := by
  have hframe := SameHands.chainFrame
  apply After.bind
  apply (hframe.call env _ d).mono
  intro r d₁ h₁
  cases r with
  | error e => exact .inl ⟨h₁, fun h ↦ nomatch h⟩
  | ok info =>
      apply After.read
      apply After.bind
      apply (rollbackIfNeeded_journal env _ d₁).mono
      intro r d₂ h₂
      cases r with
      | error e =>
          rcases h₂ with ⟨hsame, _⟩ | ⟨hrolled, _⟩
          · exact .inl ⟨hframe.trans _ _ _ h₁ hsame, fun h ↦ nomatch h⟩
          · exact .inr ⟨RolledBack.before h₁ hrolled, fun h ↦ nomatch h⟩
      | ok rolledBack =>
          have hrest := hframe.bind (hframe.recordTip env config info d₁.chain rolledBack)
            fun _ ↦ hframe.scaleTables env config
          apply After.assoc
          apply (hrest.value d₂).mono
          intro r d₃ h₃
          rcases h₂ with ⟨hsame, hr⟩ | ⟨hrolled, hr⟩
          · refine .inl ⟨hframe.trans _ _ _ h₁ (hframe.trans _ _ _ hsame h₃.1), fun h ↦ hr ?_⟩
            rw [h₃.2 true h]
          · refine .inr ⟨(RolledBack.before h₁ hrolled).after h₃.1, fun h ↦ hr ?_⟩
            rw [h₃.2 false h]

/-! ## 4. The loop -/

/-- A synchronization that throws or stops has not cut the file of the chain store. -/
def TellsRollback (env : Env) (config : DealerConfig) (d : Dealer) : Prop :=
  ∀ e d', synchronize env config d = .error e d' → d'.journal = d.journal

theorem TellsRollback.of_returns {env : Env} {config : DealerConfig} {d : Dealer}
    (h : returns (synchronize env config) d = true) : TellsRollback env config d := by
  intro e d' hr
  rw [returns, hr] at h
  exact Bool.noConfusion h

theorem keepsCurrent_guarded {m : DealerM Unit} (hm : Steps KeepsCurrent m) :
    Steps KeepsCurrent (guarded m) := by
  apply Steps.tryCatch KeepsCurrent.frame.trans hm
  intro e
  cases e with
  | exception e => exact KeepsCurrent.frame.pure ()
  | stopped => exact Steps.throw KeepsCurrent.frame.refl _

theorem resetHands_spec (env : Env) (d : Dealer) :
    After d (resetHands env) fun _ d' ↦
      d'.hands = [] ∧ d'.journal = d.journal ++ [.handsReset] := by
  apply After.bind
  apply After.modify
  apply After.bind
  apply After.modify
  have hframe : Frame SameHands := SameHands.chainFrame.toFrame
  have hsave : Steps SameHands (saveHands env []) :=
    hframe.bind (hframe.insert Slot.hands env (fun _ _ ↦ ⟨rfl, rfl⟩) _)
      fun _ ↦ hframe.commitNext Slot.hands env (fun _ _ ↦ ⟨rfl, rfl⟩) _
  apply (hsave _).mono
  exact fun _ d' h ↦ ⟨h.hands, h.journal⟩

/-- A rollback and a reset right behind it. -/
theorem HandsCurrent.reset {d d' : Dealer} {height : Nat} (h : HandsCurrent d)
    (hhands : d'.hands = []) (hjournal : d'.journal = d.journal ++ [.reverted height] ++ [.handsReset]) :
    HandsCurrent d' where
  ticks := by
    rw [hjournal]
    have hreverted := h.ticks.append (h := .reverted height) fun _ h ↦ nomatch h
    exact hreverted.append fun _ h ↦ nomatch h
  advances := by
    rw [hjournal]
    have hreverted := h.advances.append (h := .reverted height) fun _ _ _ h ↦ nomatch h
    exact hreverted.append fun _ _ _ h ↦ nomatch h
  awaits := by
    rw [hjournal, awaitsReset_append]
    rfl
  started hand hmem := by
    rw [hhands] at hmem
    exact absurd hmem (by simp)

theorem synchronizeAndReset_current (env : Env) (config : DealerConfig) {d : Dealer}
    (h : HandsCurrent d) (htells : TellsRollback env config d) :
    After d (synchronizeAndReset env config) fun _ d' ↦ HandsCurrent d' := by
  have hspec := synchronize_journal env config d
  apply After.bind
  apply After.intro
  · intro rolledBack d₁ hr
    rcases hspec.ok hr with ⟨hsame, hne⟩ | ⟨hrolled, hne⟩
    · cases rolledBack with
      | true => exact absurd rfl hne
      | false => exact After.pure (h.of_eq hsame.journal hsame.hands)
    · cases rolledBack with
      | false => exact absurd rfl hne
      | true =>
          have ⟨height, hjournal⟩ := hrolled.journal
          apply (resetHands_spec env d₁).mono
          intro _ d₂ hreset
          apply h.reset hreset.1
          rw [hreset.2, hjournal]
  · intro e d₁ hr
    apply h.of_eq (htells e d₁ hr)
    rcases hspec.error hr with ⟨hsame, _⟩ | ⟨hrolled, _⟩
    · exact hsame.hands
    · exact hrolled.hands

theorem iteration_current (env : Env) (native : Native) (config : DealerConfig) (elapsedMs : Nat)
    (event : Option (Session × Submission)) {d : Dealer} (h : HandsCurrent d)
    (htells : elapsedMs ≥ config.pollIntervalMs → TellsRollback env config d) :
    After d (iteration env native config elapsedMs event) fun _ d' ↦ HandsCurrent d' := by
  have hframe := KeepsCurrent.frame
  have hrest (elapsedMs : Nat) : Steps KeepsCurrent (do
      receive env native event
      coordinate env native
      return elapsedMs + 100) := by
    -- what follows in the pass rolls nothing back
    apply hframe.bind
    · cases event with
      | none => exact hframe.pure ()
      | some event =>
          exact keepsCurrent_guarded (keepsCurrent_dispatchMessage env native event.1 event.2)
    · intro _
      apply hframe.bind
      · apply keepsCurrent_guarded
        apply Steps.read
        intro d
        exact hframe.bind ((KeepsCurrent.tickFrame env native).tickHands _) fun _ ↦ hframe.pure ()
      · exact fun _ ↦ hframe.pure _
  apply After.bind
  have hpoll : After d (poll env config elapsedMs) fun _ d' ↦ HandsCurrent d' := by
    apply After.ite
    · intro hdue
      apply After.bind
      apply After.tryCatch
      apply (synchronizeAndReset_current env config h (htells hdue)).mono
      intro r d₁ h₁
      cases r with
      | ok _ => exact After.pure h₁
      | error e =>
          cases e with
          | exception e => exact After.pure (After.pure h₁)
          | stopped => exact After.throw h₁
    · exact fun _ ↦ After.pure h
  apply hpoll.mono
  intro r d₁ h₁
  cases r with
  | error e => exact h₁
  | ok elapsedMs => exact (hrest elapsedMs d₁).mono fun _ _ hkeeps ↦ hkeeps h₁

/-- The loop has not thrown a rollback away when it synchronizes next. -/
def Tells (env : Env) (config : DealerConfig) (l : Loop) (_ : Option (Session × Submission)) : Prop :=
  l.running → l.elapsedMs ≥ config.pollIntervalMs → TellsRollback env config l.dealer

/-- In every run in which no synchronization throws or stops behind the cut of its rollback, each
rollback is followed by a reset before the next tick, and no hand from before a rollback is advanced behind it. -/
theorem rollback_resets_hands (env : Env) (native : Native) (config : DealerConfig) (d : Dealer)
    (hjournal : d.journal = []) (events : List (Option (Session × Submission)))
    (htells : Meets (Loop.pass env native config) (Tells env config) (.started d config) events) :
    let l := Reasoning.run (Loop.pass env native config) (.started d config) events
    ResetBeforeTick l.dealer.journal ∧ NoOrphanAdvances l.dealer.journal := by
  have hcurrent : HandsCurrent d := by
    constructor
    all_goals rw [hjournal]
    · intro front height between height' rest h
      exact absurd h (by simp)
    · intro front before after returned rest h
      exact absurd h (by simp)
    · rfl
    · intro hand _ front height between h
      exact absurd h (by simp)
  intro l
  have hinv : HandsCurrent l.dealer := by
    apply htells.invariant (I := fun l ↦ HandsCurrent l.dealer) hcurrent
    intro l event h htells
    unfold Loop.pass
    by_cases hrunning : l.running
    · rw [if_pos hrunning]
      have hpass := iteration_current env native config l.elapsedMs event h (htells hrunning)
      cases hr : iteration env native config l.elapsedMs event l.dealer with
      | ok elapsedMs dealer => exact hpass.ok hr
      | error e dealer => exact hpass.error hr
    · rwa [if_neg hrunning]
  exact ⟨hinv.ticks, hinv.advances⟩

/-! ## 5. A reorganization with a failing header request -/

/-- The height of the tip is 5, then 6 on another branch; the answer to one request can be lost. -/
def reorgNode (lost : Nat) : Node :=
  { Node.silent with
    nodeInfo := fun n ↦ .ok ⟨if n < 10 then 5 else 6, 0, true⟩
    headerHash := fun n _ ↦
      if n = lost then .error (.rust "lost") else .ok (if n < 10 then "old" else "new") }

def reorgEnv (lost : Nat) : Env := ⟨reorgNode lost, fun _ ↦ .done, fun _ ↦ false, fun _ ↦ 0⟩

def reorgConfig : DealerConfig := ⟨100, 10, 1, []⟩

def reorgNative : Native := ⟨fun _ ↦ "", fun _ _ _ ↦ false⟩

/-- The run of three passes. -/
def reorgRun (lost : Nat) : Loop :=
  Reasoning.run (Loop.pass (reorgEnv lost) reorgNative reorgConfig)
    (.started (.booted (reorgEnv lost)) reorgConfig) [none, none, none]

/-- The reverted chain is synchronized again after the request that failed, and the hands of the branch
that was left are still there. -/
theorem rollback_without_reset : ¬∀ (env : Env) (native : Native) (config : DealerConfig) (d : Dealer)
    (events : List (Option (Session × Submission))), d.journal = [] →
    ResetBeforeTick
      (Reasoning.run (Loop.pass env native config) (.started d config) events).dealer.journal := by
  intro h
  have hreset := h (reorgEnv 15) reorgNative reorgConfig (.booted (reorgEnv 15)) [none, none, none]
    (by decide +kernel)
  have hrun : (reorgRun 15).dealer.journal =
      [.handsTicked 5, .reverted 0, .handsTicked 0, .handsTicked 6] := by
    decide +kernel
  have hmem := hreset [.handsTicked 5] 0 [.handsTicked 0] 6 [] hrun (by decide)
  exact absurd hmem (by decide)

/-- The same reorganization with all answers. -/
theorem rollback_resets_hands_reorg :
    ResetBeforeTick (reorgRun 0).dealer.journal ∧ NoOrphanAdvances (reorgRun 0).dealer.journal := by
  apply rollback_resets_hands (reorgEnv 0) reorgNative reorgConfig (.booted (reorgEnv 0))
    (by decide +kernel) [none, none, none]
  refine ⟨fun _ _ ↦ ?_, fun _ _ ↦ ?_, fun _ _ ↦ ?_, trivial⟩
  · exact TellsRollback.of_returns (by decide +kernel)
  · exact TellsRollback.of_returns (by decide +kernel)
  · exact TellsRollback.of_returns (by decide +kernel)

end Stainless.Poker
