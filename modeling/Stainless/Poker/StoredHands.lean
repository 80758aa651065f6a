import Stainless.Poker.HandCodec
import Stainless.Poker.HandFrames

/-!
# Hands that their JSON holds

What the steps of a hand record is read back from its JSON, as long as the cards and the ranks that the
node answers fit in a `u32`.
-/

open Reasoning Stainless.Runtime Stainless.Crypto

namespace Stainless.Poker

/-! ## 1. The invariant -/

/-- Nothing of the hand is lost in its JSON: what it writes as a number fits in a `u32`, and its
enumerators are known. -/
structure Hand.Storable (hand : Hand) : Prop where
  players : ∀ player ∈ hand.players, ∀ value, player.show = some value → value.Small
  board : ∀ values, hand.board = some values → Poker.Small values
  shows : ∀ entry ∈ hand.shows, Poker.Small entry.hand
  phase : hand.phase ≠ .unknown
  betting : ∀ round ∈ hand.betting, ∀ epoch ∈ round, ∀ entry ∈ epoch, entry.action ≠ .unknown
  timeouts : ∀ entry ∈ hand.timeouts, entry.phase ≠ .unknown

/-- The cards and ranks that the node answers fit in a `u32`. -/
structure Node.Small (node : Node) : Prop where
  cards : ∀ n table seeds cards, node.dealCards n table seeds = .ok cards → Poker.Small cards
  rank : ∀ n table selected rank, node.getRank n table selected = .ok (some rank) →
    rank.category < 2 ^ 32 ∧ Poker.Small rank.kickers

theorem Hand.Storable.small {hand : Hand} (h : hand.Storable) : hand.Small :=
  ⟨h.players, h.board, h.shows⟩

/-- The hands of a snapshot are read back, if their numbers are of their types. -/
theorem parseAll_jsonAll [NumberText] {hands : List Hand} (hstorable : ∀ hand ∈ hands, hand.Storable)
    (hrange : ∀ hand ∈ hands, hand.InRange) : Hand.parseAll (Hand.jsonAll hands) = .ok hands :=
  parseEach_same fun hand hmem ↦
    (stored_hand_reloads_iff hand (hrange hand hmem)).mpr (hstorable hand hmem).small

/-! ## 2. The players' turns -/

namespace Hand.Storable

variable {s : HandState} (h : s.hand.Storable)

include h

/-- A player in its seat, or the player of no seat, who showed nothing. -/
theorem seat (i : Nat) (value : Show) (hshow : (s.hand.players.getD i {}).show = some value) :
    value.Small := by
  rw [List.getD_eq_getElem?_getD] at hshow
  cases hplayer : s.hand.players[i]? with
  | none =>
      rw [hplayer] at hshow
      exact nomatch hshow
  | some player =>
      rw [hplayer] at hshow
      exact h.players player (List.mem_of_getElem? hplayer) value hshow

theorem setPlayer {i : Nat} {player : Player}
    (hplayer : ∀ value, player.show = some value → value.Small) :
    (s.setPlayer i player).hand.Storable := by
  refine ⟨fun p hmem ↦ ?_, h.board, h.shows, h.phase, h.betting, h.timeouts⟩
  rcases List.mem_or_eq_of_mem_set hmem with hmem | hp
  · exact h.players p hmem
  · exact hp ▸ hplayer

theorem timeOut {i round epoch : Nat} {phase : TimeoutPhase} (hphase : phase ≠ .unknown) :
    (s.timeOut ⟨i, phase, round, epoch⟩).hand.Storable := by
  refine ⟨h.players, h.board, h.shows, h.phase, h.betting, fun e hmem ↦ ?_⟩
  rcases List.mem_append.mp hmem with hmem | hmem
  · exact h.timeouts e hmem
  · exact List.mem_singleton.mp hmem ▸ hphase

theorem addShow {entry : ShowEntry} (hentry : Poker.Small entry.hand) :
    (s.addShow entry).hand.Storable := by
  refine ⟨h.players, h.board, fun e hmem ↦ ?_, h.phase, h.betting, h.timeouts⟩
  rcases List.mem_append.mp hmem with hmem | hmem
  · exact h.shows e hmem
  · exact List.mem_singleton.mp hmem ▸ hentry

theorem addContinuation (entry : ContinuationEntry) : (s.addContinuation entry).hand.Storable :=
  ⟨h.players, h.board, h.shows, h.phase, h.betting, h.timeouts⟩

theorem step (native : Native) (i : Nat) (phase : HandPhase) (round epoch event amount : Nat)
    (dataHash : String) : (s.step native i phase round epoch event amount dataHash).hand.Storable :=
  ⟨h.players, h.board, h.shows, h.phase, h.betting, h.timeouts⟩

theorem take (key : String) : (s.take key).hand.Storable := h

theorem commitPlayer (native : Native) (i : Nat) : (Poker.commitPlayer native s i).hand.Storable := by
  have hseat := h.seat i
  unfold Poker.commitPlayer
  dsimp only
  split
  · exact ((h.take _).step ..).setPlayer hseat
  · exact (((h.take _).timeOut (by decide)).step ..).setPlayer hseat

theorem continuePlayer (i : Nat) : (Poker.continuePlayer s i).hand.Storable := by
  have hseat := h.seat i
  unfold Poker.continuePlayer
  dsimp only
  split
  · exact (((h.take _).take _).addContinuation _).setPlayer hseat
  · exact ((h.take _).take _).setPlayer hseat

theorem recordShow (native : Native) (i : Nat) {player : Player} (mucked : Bool) {shown : Option Show}
    (hplayer : ∀ value, player.show = some value → value.Small)
    (hshown : ∀ value, shown = some value → value.Small) :
    (Poker.recordShow native i player mucked shown s).hand.Storable := by
  unfold Poker.recordShow
  cases shown with
  | some value =>
      have hvalue := hshown value rfl
      refine ((h.addShow hvalue.hand).step ..).setPlayer fun shown hsame ↦ ?_
      exact Option.some.inj hsame ▸ hvalue
  | none =>
      dsimp only
      split
      · exact (h.step ..).setPlayer hplayer
      · exact ((h.timeOut (by decide)).step ..).setPlayer hplayer

end Hand.Storable

theorem revealPlayer_storable (native : Native) (round : Nat) (acc : HandState × String) (i : Nat)
    (h : acc.1.hand.Storable) : (revealPlayer native round acc i).1.hand.Storable := by
  have hseat := h.seat i
  unfold revealPlayer
  dsimp only
  split
  · exact h.step ..
  · split
    · exact ((h.take _).step ..).setPlayer hseat
    · exact (((h.take _).timeOut (by decide)).step ..).setPlayer hseat

/-- A valid action is none that is unknown. -/
theorem validAction_known {hand : Hand} {player : Player} {target : Nat} {value : Submission}
    (h : validAction hand player target value = true) : value.action ≠ .unknown := by
  intro hunknown
  unfold validAction at h
  rw [hunknown, Bool.and_false] at h
  exact Bool.noConfusion h

theorem act_show (player : Player) (submission : Submission) :
    (act player submission).1.show = player.show := by
  unfold act
  cases submission.action with
  | checkCall => rfl
  | betRaise => rfl
  | fold => rfl
  | unknown => rfl

/-- The hand and the entries that are collected for it. -/
def BetsStorable (acc : HandState × List BettingEntry) : Prop :=
  acc.1.hand.Storable ∧ ∀ entry ∈ acc.2, entry.action ≠ .unknown

theorem betPlayer_storable (native : Native) (round epoch target : Nat)
    (acc : HandState × List BettingEntry) (i : Nat) (h : BetsStorable acc) :
    BetsStorable (betPlayer native round epoch target acc i) := by
  have ⟨hhand, hentries⟩ := h
  have hseat := hhand.seat i
  unfold betPlayer
  dsimp only
  split
  · exact ⟨hhand.step .., hentries⟩
  · split
    · exact ⟨hhand.step .., hentries⟩
    · split
      · have hknown := validAction_known ‹_›
        refine ⟨((hhand.take _).step ..).setPlayer ?_, fun entry hmem ↦ ?_⟩
        · rw [act_show]
          exact hseat
        · rcases List.mem_append.mp hmem with hmem | hmem
          · exact hentries entry hmem
          · exact List.mem_singleton.mp hmem ▸ hknown
      · split
        · exact ⟨(((hhand.take _).timeOut (by decide)).step ..).setPlayer hseat, hentries⟩
        · exact ⟨((hhand.take _).timeOut (by decide)).step .., hentries⟩

/-! ## 3. The programs -/

/-- A step that leaves a storable hand storable. -/
def KeepsStorable (s t : HandState) : Prop := s.hand.Storable → t.hand.Storable

theorem KeepsStorable.trans (s t u : HandState) (h : KeepsStorable s t) (h' : KeepsStorable t u) :
    KeepsStorable s u :=
  fun hs ↦ h' (h hs)

theorem KeepsStorable.frame : Frame KeepsStorable where
  refl _ h := h
  trans := KeepsStorable.trans
  next _ h := h

theorem keepsStorable_intro {α : Type} {m : HandM α}
    (h : ∀ s, s.hand.Storable → After s m fun _ t ↦ t.hand.Storable) : Steps KeepsStorable m :=
  fun s ↦ After.intro (fun _ _ hr hs ↦ (h s hs).ok hr) fun _ _ hr hs ↦ (h s hs).error hr

theorem KeepsStorable.storable {α : Type} {m : HandM α} (hm : Steps KeepsStorable m) {s : HandState}
    (hs : s.hand.Storable) : After s m fun _ t ↦ t.hand.Storable :=
  (hm s).mono fun _ _ h ↦ h hs

/-- The payouts change nothing of the players that is written as a number. -/
theorem KeepsStorable.payoutFrame : HandState.PayoutFrame KeepsStorable where
  toFrame := KeepsStorable.frame
  rake _ _ h := ⟨h.players, h.board, h.shows, h.phase, h.betting, h.timeouts⟩
  payout s index payout h := by
    refine ⟨fun player hmem value hshow ↦ ?_, h.board, h.shows, h.phase, h.betting, h.timeouts⟩
    have ⟨j, hj⟩ := List.mem_iff_getElem?.mp hmem
    rw [List.getElem?_modify] at hj
    have ⟨before, hbefore, hplayer⟩ := Option.map_eq_some_iff.mp hj
    apply h.players before (List.mem_of_getElem? hbefore) value
    rw [← hshow, ← hplayer]
    split
    · rfl
    · rfl

theorem Hand.Storable.inPhase {hand : Hand} (h : hand.Storable) (phase : HandPhase)
    (hphase : phase ≠ .unknown) (round epoch deadline : Nat) :
    ({ hand with phase, round, epoch, deadline } : Hand).Storable :=
  ⟨h.players, h.board, h.shows, hphase, h.betting, h.timeouts⟩

theorem storable_updateHand {f : Hand → Hand} (hf : ∀ hand : Hand, hand.Storable → (f hand).Storable) :
    Steps KeepsStorable (updateHand f) :=
  Steps.modify fun s ↦ hf s.hand

theorem storable_beginContinue (now : Nat) : Steps KeepsStorable (beginContinue now) :=
  KeepsStorable.frame.bind KeepsStorable.payoutFrame.allocatePayouts fun _ ↦
    storable_updateHand fun _ h ↦ h.inPhase _ (by decide) ..

theorem storable_afterBettingOrReveal (now : Nat) :
    Steps KeepsStorable (afterBettingOrReveal now) := by
  apply Steps.read
  intro s
  apply Steps.ite (storable_beginContinue now)
  apply Steps.ite
  · exact storable_updateHand fun _ h ↦ h.inPhase _ (by decide) ..
  · exact storable_updateHand fun _ h ↦ h.inPhase _ (by decide) ..

theorem storable_afterReveal (now : Nat) : Steps KeepsStorable (afterReveal now) := by
  apply Steps.read
  intro s
  apply Steps.ite
  · exact storable_updateHand fun _ h ↦ h.inPhase _ (by decide) ..
  · exact storable_afterBettingOrReveal now

theorem storable_afterEpoch (now : Nat) : Steps KeepsStorable (afterEpoch now) := by
  apply Steps.read
  intro s
  apply Steps.ite (storable_afterBettingOrReveal now)
  apply KeepsStorable.frame.bind (KeepsStorable.frame.requireConfig _ _)
  intro _
  exact storable_updateHand fun _ h ↦ h.inPhase _ h.phase ..

theorem storable_advanceCommit (native : Native) (now : Nat) :
    Steps KeepsStorable (advanceCommit native now) := by
  apply Steps.get
  intro s
  apply KeepsStorable.frame.phase _ (KeepsStorable.frame.ends (storable_afterBettingOrReveal now))
  intro hs
  exact List.foldlRecOn (motive := fun s : HandState ↦ s.hand.Storable) _ _ hs
    fun _ h i _ ↦ h.commitPlayer native i

theorem storable_advanceReveal (native : Native) (now : Nat) :
    Steps KeepsStorable (advanceReveal native now) := by
  apply Steps.get
  intro s
  apply KeepsStorable.frame.phase
  · intro hs
    exact List.foldlRecOn (motive := fun acc : HandState × String ↦ acc.1.hand.Storable) _ _ hs
      fun acc h i _ ↦ revealPlayer_storable native s.hand.round acc i h
  · apply KeepsStorable.frame.bind (KeepsStorable.frame.inBounds _)
    intro _
    apply KeepsStorable.frame.bind
    · exact storable_updateHand fun _ h ↦
        ⟨h.players, h.board, h.shows, h.phase, h.betting, h.timeouts⟩
    · exact fun _ ↦ KeepsStorable.frame.ends (storable_afterReveal now)

theorem Hand.Storable.appendEntries {hand : Hand} (h : hand.Storable) (round : Nat)
    {entries : List BettingEntry} (hentries : ∀ entry ∈ entries, entry.action ≠ .unknown) :
    (Poker.appendEntries round entries hand).Storable := by
  refine ⟨h.players, h.board, h.shows, h.phase, fun after hmem epoch hepoch ↦ ?_, h.timeouts⟩
  have ⟨j, hj⟩ := List.mem_iff_getElem?.mp hmem
  change (hand.betting.modify round (· ++ [entries]))[j]? = _ at hj
  rw [List.getElem?_modify] at hj
  have ⟨before, hbefore, hafter⟩ := Option.map_eq_some_iff.mp hj
  have hknown := h.betting before (List.mem_of_getElem? hbefore)
  rw [← hafter] at hepoch
  split at hepoch
  · rcases List.mem_append.mp hepoch with hepoch | hepoch
    · exact hknown epoch hepoch
    · exact List.mem_singleton.mp hepoch ▸ hentries
  · exact hknown epoch hepoch

theorem storable_advanceBetting (native : Native) (now : Nat) :
    Steps KeepsStorable (advanceBetting native now) := by
  apply keepsStorable_intro
  intro s hs
  apply After.read
  apply After.ite
  · exact fun _ ↦ After.pure hs
  · intro _
    have ⟨hhand, hentries⟩ : BetsStorable _ :=
      List.foldlRecOn (List.range s.hand.players.length)
        (betPlayer native s.hand.round s.hand.epoch (currentBet s.hand))
        (⟨hs, fun _ hmem ↦ nomatch hmem⟩ : BetsStorable (s, []))
        fun acc h i _ ↦ betPlayer_storable native _ _ _ acc i h
    apply After.bind
    apply After.set
    apply After.bind
    apply After.ite
    case hneg => exact fun _ ↦ After.throw hhand
    intro _
    apply After.pure
    apply After.bind
    apply After.modify
    apply KeepsStorable.storable _ (hhand.appendEntries _ hentries)
    exact KeepsStorable.frame.bind (storable_afterEpoch now) fun _ ↦ KeepsStorable.frame.pure _

/-! ### The node's answers -/

section Answers

variable {α : Type} {env : Env} (hnode : env.node.Small)

theorem onReturn_call {P : α → Prop} {answer : Nat → Except Exception α}
    (h : ∀ n a, answer n = .ok a → P a) (s : HandState) :
    OnReturn s (call env answer : HandM α) fun a _ ↦ P a := by
  apply OnReturn.skip
  intro n t
  unfold liftOutcome
  cases hn : answer n with
  | ok a => exact OnReturn.pure (h n a hn)
  | error e => exact OnReturn.throw

include hnode

/-- A verified show has selected cards by their positions, and its rank is the node's. -/
theorem validateShow_small (native : Native) (hand : Hand) (player : Player) (value : Submission)
    (s : HandState) :
    OnReturn s (validateShow env native hand player value : HandM (Option Show))
      fun shown _ ↦ ∀ result, shown = some result → result.Small := by
  apply OnReturn.ite
  · exact fun _ ↦ OnReturn.pure fun _ h ↦ nomatch h
  · intro hformed
    have hselected : Small value.hand := by
      simp only [Bool.not_eq_true, Bool.not_eq_false', showWellFormed, Bool.and_eq_true,
        List.all_eq_true, decide_eq_true_eq] at hformed
      exact fun card hcard ↦ Nat.lt_trans (hformed.1.1.1.2 card hcard) (by decide)
    apply OnReturn.skip
    intro pocket _
    apply OnReturn.skip
    intro selected t
    apply OnReturn.bind
    apply (onReturn_call (P := fun rank : Option Rank ↦ ∀ r, rank = some r →
      r.category < 2 ^ 32 ∧ Small r.kickers) (fun n rank h r hr ↦
        hnode.rank n _ _ r (h.trans (congrArg _ hr))) t).mono
    intro rank u hrank
    apply OnReturn.pure
    intro result hresult
    have ⟨r, hr, hsame⟩ := Option.map_eq_some_iff.mp hresult
    exact hsame ▸ ⟨hselected, (hrank r hr).1, (hrank r hr).2⟩

theorem storable_makeBoard (native : Native) : Steps KeepsStorable (makeBoard env native) := by
  apply Steps.read
  intro s
  apply KeepsStorable.frame.bind (KeepsStorable.frame.requireConfig _ _)
  intro _
  apply keepsStorable_intro
  intro t ht
  apply After.bind
  apply ((KeepsStorable.storable (KeepsStorable.frame.call env _) ht).onReturn
    (onReturn_call (fun n cards h ↦ hnode.cards n _ _ cards h) t)).mono
  intro r u hu
  cases r with
  | error e => exact hu.1
  | ok board =>
      have hstored := hu.1
      apply After.modify
      refine ⟨hstored.players, fun values h ↦ ?_, hstored.shows, hstored.phase, hstored.betting,
        hstored.timeouts⟩
      exact Option.some.inj h ▸ hu.2 board rfl

theorem storable_showPlayer (native : Native) (i : Nat) :
    Steps KeepsStorable (showPlayer env native i) := by
  apply keepsStorable_intro
  intro s hs
  apply After.read
  apply After.ite
  · exact fun _ ↦ After.set (hs.step ..)
  · intro _
    apply After.bind
    apply After.set
    apply After.bind
    have hcounted (mucked : Bool) (hand : Hand) (player : Player) (submission : Submission) :
        Steps KeepsStorable (if mucked = true then pure none
          else validateShow env native hand player submission : HandM (Option Show)) :=
      Steps.ite (KeepsStorable.frame.pure _)
        (KeepsStorable.frame.counted (counted_validateShow env native hand player submission))
    apply ((KeepsStorable.storable (hcounted _ _ _ _) ((hs.take _).take _)).onReturn
      (OnReturn.ite (fun _ ↦ OnReturn.pure fun _ h ↦ nomatch h)
        fun _ ↦ validateShow_small hnode native _ _ _ _)).mono
    intro r t ht
    cases r with
    | error e => exact ht.1
    | ok shown =>
        apply After.modify
        exact ht.1.recordShow native i _ (hs.seat i) (ht.2 shown rfl)

theorem storable_advanceShow (native : Native) (now : Nat) :
    Steps KeepsStorable (advanceShow env native now) := by
  apply Steps.read
  intro s
  apply Steps.ite
  · exact KeepsStorable.frame.bind (storable_makeBoard hnode native) fun _ ↦ KeepsStorable.frame.pure _
  · apply KeepsStorable.frame.bind
    · exact KeepsStorable.frame.counted (Steps.foldlM Counted.frame.refl Counted.frame.trans
        (fun _ _ ↦ counted_showSubmitted env native _ _) _ _)
    · intro ready
      apply Steps.ite (KeepsStorable.frame.pure _)
      apply KeepsStorable.frame.bind
      · exact Steps.forM KeepsStorable.frame.refl KeepsStorable.trans
          (storable_showPlayer hnode native) _
      · intro _
        exact KeepsStorable.frame.bind (storable_beginContinue now) fun _ ↦ KeepsStorable.frame.pure _

omit hnode

theorem storable_submitSettlement (height : Nat) : Steps KeepsStorable (submitSettlement env height) := by
  apply Steps.read
  intro s
  apply KeepsStorable.frame.bind (KeepsStorable.frame.call env _)
  intro transaction
  exact storable_updateHand fun _ h ↦ { h.inPhase .settling (by decide) 0 0 0 with }

theorem storable_advanceContinue (chain : ChainState) (now : Nat) :
    Steps KeepsStorable (advanceContinue env chain now) := by
  apply Steps.get
  intro s
  apply KeepsStorable.frame.phase _ (KeepsStorable.frame.ends (storable_submitSettlement _))
  intro hs
  exact List.foldlRecOn (motive := fun s : HandState ↦ s.hand.Storable) _ _ hs
    fun _ h i _ ↦ h.continuePlayer i

theorem storable_retrySettlement (chain : ChainState) :
    Steps KeepsStorable (retrySettlement env chain) := by
  apply Steps.read
  intro s
  apply Steps.ite (KeepsStorable.frame.pure _)
  exact KeepsStorable.frame.bind (storable_submitSettlement _) fun _ ↦ KeepsStorable.frame.pure _

include hnode

/-- No step of a hand records anything that its JSON would lose. -/
theorem storable_advanceHand (native : Native) (chain : ChainState) (now : Nat) :
    Steps KeepsStorable (advanceHand env native chain now) := by
  apply Steps.read
  intro s
  cases s.hand.phase with
  | commit => exact storable_advanceCommit native now
  | reveal => exact storable_advanceReveal native now
  | betting => exact storable_advanceBetting native now
  | «show» => exact storable_advanceShow hnode native now
  | «continue» => exact storable_advanceContinue chain now
  | settling => exact storable_retrySettlement chain
  | unknown => exact KeepsStorable.frame.throwException _

omit hnode

theorem startHand_storable (table : Table) (handId now : Nat) (d : Dealer) :
    OnReturn d (startHand env table handId now) fun hand _ ↦ hand.Storable := by
  apply OnReturn.skip
  intro _ d₁
  apply OnReturn.bind
  have hunshown (config : TableConfig) (index : Nat) (d : Dealer) :
      OnReturn d (startPlayer env table.address config index) fun player _ ↦ player.show = none :=
    OnReturn.skip fun _ _ ↦ OnReturn.skip fun _ _ ↦ OnReturn.pure rfl
  apply (OnReturn.mapM (hunshown _)).mono
  intro players d₂ hplayers
  apply OnReturn.skip
  intro checkpoint d₃
  apply OnReturn.pure
  refine ⟨fun player hmem value h ↦ ?_, fun _ h ↦ (nomatch h), fun _ h ↦ (nomatch h),
    (show HandPhase.commit ≠ .unknown by decide), fun round hmem epoch h ↦ ?_, fun _ h ↦ nomatch h⟩
  · rw [hplayers player hmem] at h
    exact nomatch h
  · rw [List.eq_of_mem_replicate hmem] at h
    exact nomatch h

end Answers

end Stainless.Poker
