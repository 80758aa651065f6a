import Stainless.Poker.Frames

/-!
# What the steps of a hand leave unchanged

A step of a hand keeps the identity of the hand and of its players and takes messages out of the inbox.
-/

open Reasoning Stainless.Runtime Stainless.Crypto

namespace Stainless.Poker

/-- A phase that waits for the players, or takes their turns and goes on. -/
theorem Frame.phase {R : HandState → HandState → Prop} (h : Frame R) {s t : HandState} {c : Prop}
    [Decidable c] {k : HandM Bool} (hst : R s t) (hk : Steps R k) :
    After s (if c then return false else do
      set t
      k) fun _ u ↦ R s u := by
  apply After.ite
  · exact fun _ ↦ After.pure (h.refl s)
  · intro _
    apply After.bind
    apply After.set
    exact hk.after h.trans hst

/-- The end of a phase. -/
theorem Frame.ends {R : HandState → HandState → Prop} (h : Frame R) {m : HandM Unit} (hm : Steps R m) :
    Steps R (do
      m
      return true) :=
  h.bind hm fun _ ↦ h.pure _

/-- Only operations so far. -/
theorem counted_showSubmitted (env : Env) (native : Native) (ready : Bool) (player : Player) :
    Steps Counted (showSubmitted env native ready player) := by
  apply Steps.ite (Counted.frame.pure _)
  apply Steps.read
  intro s
  apply Steps.ite (Counted.frame.pure _)
  exact Counted.frame.bind (counted_validateShow env native _ _ _) fun _ ↦ Counted.frame.pure _

/-! ## 1. The relation -/

structure HandState.Keeps (s t : HandState) : Prop where
  table : t.hand.table = s.hand.table
  handId : t.hand.handId = s.hand.handId
  startHeight : t.hand.startHeight = s.hand.startHeight
  addresses : t.hand.players.map Player.address = s.hand.players.map Player.address
  inbox : ∀ (key : String) message, t.inbox[key]? = some message → s.inbox[key]? = some message

namespace HandState

theorem Keeps.refl (s : HandState) : Keeps s s := ⟨rfl, rfl, rfl, rfl, fun _ _ h ↦ h⟩

theorem Keeps.trans (s t u : HandState) (h : Keeps s t) (h' : Keeps t u) : Keeps s u where
  table := h'.table.trans h.table
  handId := h'.handId.trans h.handId
  startHeight := h'.startHeight.trans h.startHeight
  addresses := h'.addresses.trans h.addresses
  inbox key message hm := h.inbox key message (h'.inbox key message hm)

theorem Keeps.frame : Frame Keeps where
  refl := Keeps.refl
  trans := Keeps.trans
  next _ := ⟨rfl, rfl, rfl, rfl, fun _ _ h ↦ h⟩

/-- A change of the hand alone. -/
theorem Keeps.hand {s : HandState} {hand : Hand} (htable : hand.table = s.hand.table)
    (hid : hand.handId = s.hand.handId) (hstart : hand.startHeight = s.hand.startHeight)
    (haddresses : hand.players.map Player.address = s.hand.players.map Player.address) :
    Keeps s { s with hand } :=
  ⟨htable, hid, hstart, haddresses, fun _ _ h ↦ h⟩

theorem keeps_timeOut (s : HandState) (entry : TimeoutEntry) : Keeps s (s.timeOut entry) :=
  Keeps.hand rfl rfl rfl rfl

theorem keeps_addShow (s : HandState) (entry : ShowEntry) : Keeps s (s.addShow entry) :=
  Keeps.hand rfl rfl rfl rfl

theorem keeps_addContinuation (s : HandState) (entry : ContinuationEntry) :
    Keeps s (s.addContinuation entry) :=
  Keeps.hand rfl rfl rfl rfl

theorem keeps_step (native : Native) (s : HandState) (i : Nat) (phase : HandPhase)
    (round epoch event amount : Nat) (dataHash : String) :
    Keeps s (s.step native i phase round epoch event amount dataHash) :=
  Keeps.hand rfl rfl rfl rfl

theorem keeps_take (s : HandState) (key : String) : Keeps s (s.take key) where
  table := rfl
  handId := rfl
  startHeight := rfl
  addresses := rfl
  inbox key' message h := by
    change (s.inbox.erase key)[key']? = some message at h
    rw [OrderedMap.getElem?_erase] at h
    by_cases hkey : key = key'
    · rw [if_pos hkey] at h
      exact absurd h (by simp)
    · rwa [if_neg hkey] at h

theorem map_address_set {players : List Player} {i : Nat} {player : Player}
    (h : player.address = (players.getD i {}).address) :
    (players.set i player).map Player.address = players.map Player.address := by
  apply List.ext_getElem?
  intro j
  rw [List.map_set, List.getElem?_set]
  by_cases hij : i = j
  · subst hij
    rw [if_pos rfl, List.length_map]
    by_cases hi : i < players.length
    · rw [if_pos hi, h, List.getElem?_map, List.getD_eq_getElem?_getD, List.getElem?_eq_getElem hi]
      rfl
    · rw [if_neg hi, List.getElem?_eq_none (by simpa using hi)]
  · rw [if_neg hij]

theorem address_getD (players : List Player) (i : Nat) :
    (players.getD i {}).address = (players.map Player.address).getD i "" := by
  rw [List.getD_eq_getElem?_getD, List.getD_eq_getElem?_getD, List.getElem?_map]
  cases players[i]? with
  | none => rfl
  | some player => rfl

theorem keeps_setPlayer (s : HandState) (i : Nat) (player : Player)
    (h : player.address = (s.hand.players.getD i {}).address) : Keeps s (s.setPlayer i player) :=
  Keeps.hand rfl rfl rfl (map_address_set h)

theorem keeps_ite {c : Prop} [Decidable c] {s t u : HandState} (ht : Keeps s t) (hu : Keeps s u) :
    Keeps s (if c then t else u) := by
  by_cases hc : c
  · rwa [if_pos hc]
  · rwa [if_neg hc]

/-! ## 2. The players' turns -/

theorem keeps_foldl {f : HandState → Nat → HandState} (hf : ∀ s i, Keeps s (f s i)) (is : List Nat)
    (s : HandState) : Keeps s (is.foldl f s) := by
  induction is generalizing s with
  | nil => exact Keeps.refl s
  | cons i is ih => exact Keeps.trans _ _ _ (hf s i) (ih _)

theorem keeps_foldl_pair {β : Type} {f : HandState × β → Nat → HandState × β}
    (hf : ∀ acc i, Keeps acc.1 (f acc i).1) (is : List Nat) (acc : HandState × β) :
    Keeps acc.1 (is.foldl f acc).1 := by
  induction is generalizing acc with
  | nil => exact Keeps.refl acc.1
  | cons i is ih => exact Keeps.trans _ _ _ (hf acc i) (ih _)

theorem keeps_commitPlayer (native : Native) (s : HandState) (i : Nat) :
    Keeps s (commitPlayer native s i) := by
  unfold commitPlayer
  apply Keeps.trans _ _ _ (keeps_take s _)
  apply keeps_ite
  · exact Keeps.trans _ _ _ (keeps_step ..) (keeps_setPlayer _ _ _ rfl)
  · exact Keeps.trans _ _ _ (keeps_timeOut ..)
      (Keeps.trans _ _ _ (keeps_step ..) (keeps_setPlayer _ _ _ rfl))

theorem keeps_revealPlayer (native : Native) (round : Nat) (acc : HandState × String) (i : Nat) :
    Keeps acc.1 (revealPlayer native round acc i).1 := by
  unfold revealPlayer
  dsimp only
  rw [apply_ite Prod.fst, apply_ite Prod.fst]
  apply keeps_ite
  · exact keeps_step ..
  · apply Keeps.trans _ _ _ (keeps_take acc.1 _)
    apply keeps_ite
    · exact Keeps.trans _ _ _ (keeps_step ..) (keeps_setPlayer _ _ _ rfl)
    · exact Keeps.trans _ _ _ (keeps_timeOut ..)
        (Keeps.trans _ _ _ (keeps_step ..) (keeps_setPlayer _ _ _ rfl))

theorem act_address (player : Player) (submission : Submission) :
    (act player submission).1.address = player.address := by
  unfold act
  cases submission.action with
  | checkCall => rfl
  | betRaise => rfl
  | fold => rfl
  | unknown => rfl

theorem keeps_betPlayer (native : Native) (round epoch target : Nat)
    (acc : HandState × List BettingEntry) (i : Nat) :
    Keeps acc.1 (betPlayer native round epoch target acc i).1 := by
  unfold betPlayer
  dsimp only
  rw [apply_ite Prod.fst, apply_ite Prod.fst, apply_ite Prod.fst, apply_ite Prod.fst]
  apply keeps_ite
  · exact keeps_step ..
  · apply keeps_ite
    · exact keeps_step ..
    · apply Keeps.trans _ _ _ (keeps_take acc.1 _)
      apply keeps_ite
      · exact Keeps.trans _ _ _ (keeps_step ..) (keeps_setPlayer _ _ _ (act_address _ _))
      · apply Keeps.trans _ _ _ (keeps_timeOut ..)
        apply keeps_ite
        · exact Keeps.trans _ _ _ (keeps_step ..) (keeps_setPlayer _ _ _ rfl)
        · exact keeps_step ..

theorem keeps_recordShow (native : Native) (i : Nat) (player : Player) (mucked : Bool)
    (shown : Option Show) (s : HandState) (h : player.address = (s.hand.players.getD i {}).address) :
    Keeps s (recordShow native i player mucked shown s) := by
  unfold recordShow
  cases shown with
  | some value =>
      exact Keeps.trans _ _ _ (keeps_addShow ..)
        (Keeps.trans _ _ _ (keeps_step ..) (keeps_setPlayer _ _ _ h))
  | none =>
      apply keeps_ite
      · exact Keeps.trans _ _ _ (keeps_step ..) (keeps_setPlayer _ _ _ h)
      · exact Keeps.trans _ _ _ (keeps_timeOut ..)
          (Keeps.trans _ _ _ (keeps_step ..) (keeps_setPlayer _ _ _ h))

theorem keeps_continuePlayer (s : HandState) (i : Nat) : Keeps s (continuePlayer s i) := by
  unfold continuePlayer
  apply Keeps.trans _ _ _ (keeps_take s _)
  apply Keeps.trans _ _ _ (keeps_take _ _)
  apply keeps_ite
  · exact Keeps.trans _ _ _ (keeps_addContinuation ..) (keeps_setPlayer _ _ _ rfl)
  · exact keeps_setPlayer _ _ _ rfl

/-! ## 3. The accounting of the payouts -/

/-- A relation that the two changes of the accounting keep: the rake and the payouts. -/
structure PayoutFrame (R : HandState → HandState → Prop) : Prop extends Frame R where
  rake : ∀ s dealerRake, R s { s with hand := { s.hand with dealerRake } }
  payout : ∀ s index payout, R s { s with hand := { s.hand with
    players := s.hand.players.modify index fun player ↦ { player with payout := some payout } } }

namespace PayoutFrame

variable {R : HandState → HandState → Prop} (h : PayoutFrame R)

include h

theorem safeAmountAdd (left right : Nat) :
    Steps R (Poker.safeAmountAdd left right : HandM Nat) :=
  h.toFrame.bind (h.toFrame.requireConfig _ _) fun _ ↦ h.toFrame.pure _

theorem safeAmountMul (left right : Nat) :
    Steps R (Poker.safeAmountMul left right : HandM Nat) :=
  h.toFrame.bind (h.toFrame.requireConfig _ _) fun _ ↦ h.toFrame.pure _

theorem subAmount (left right : Nat) : Steps R (Poker.subAmount left right : HandM Nat) :=
  Steps.ite (h.toFrame.pure _) (Steps.throw h.refl _)

theorem safeMulDiv (left right divisor : Nat) :
    Steps R (Poker.safeMulDiv left right divisor : HandM Nat) := by
  unfold Poker.safeMulDiv
  cases mulDivFloor left right divisor with
  | ok quotient => exact h.toFrame.pure _
  | error message => exact h.toFrame.throwException _

theorem layerWinner (hand : Hand) (acc : Option Rank × List Nat) (index : Nat) :
    Steps R (Poker.layerWinner hand acc index) := by
  apply h.toFrame.bind (h.toFrame.requireConfig _ _)
  intro _
  cases acc.1 with
  | none => exact h.toFrame.pure _
  | some rank =>
      exact Steps.ite (h.toFrame.pure _) (Steps.ite (h.toFrame.pure _) (h.toFrame.pure _))

theorem layerWinners (hand : Hand) (eligible : List Nat) :
    Steps R (Poker.layerWinners hand eligible) := by
  apply h.toFrame.bind (h.toFrame.requireConfig _ _)
  intro _
  apply Steps.ite (h.toFrame.pure _)
  exact h.toFrame.bind
    (Steps.foldlM h.refl h.trans (fun _ _ ↦ h.layerWinner hand _ _) _ _)
    fun _ ↦ h.toFrame.pure _

theorem addPayout (payouts : List Nat) (index amount : Nat) :
    Steps R (Poker.addPayout payouts index amount) :=
  h.toFrame.bind (h.safeAmountAdd _ _) fun _ ↦ h.toFrame.pure _

theorem collectLayers (hand : Hand) (count previous : Nat) (acc : Layers) :
    Steps R (Poker.collectLayers hand count previous acc) := by
  induction count generalizing previous acc with
  | zero => exact h.toFrame.pure _
  | succ count ih =>
      unfold Poker.collectLayers
      cases nextLevel hand previous with
      | none => exact h.toFrame.pure _
      | some level =>
          apply h.toFrame.bind (h.subAmount _ _)
          intro delta
          apply Steps.ite
          · exact h.toFrame.bind
              (Steps.foldlM h.refl h.trans (fun _ _ ↦ h.addPayout _ _ _) _ _)
              fun _ ↦ ih _ _
          · apply h.toFrame.bind (h.safeAmountMul _ _)
            intro amount
            apply h.toFrame.bind (h.layerWinners _ _)
            intro winners
            exact h.toFrame.bind (h.safeAmountAdd _ _) fun _ ↦ ih _ _

theorem shareLayer (dealerRake matchedTotal : Nat) (acc : Shares) (layer : Layer) :
    Steps R (Poker.shareLayer dealerRake matchedTotal acc layer) := by
  apply h.toFrame.bind (h.safeAmountAdd _ _)
  intro matchedSeen
  apply h.toFrame.bind (h.safeMulDiv _ _ _)
  intro rakeUntil
  apply h.toFrame.bind (h.subAmount _ _)
  intro rake
  apply h.toFrame.bind (h.subAmount _ _)
  intro net
  apply h.toFrame.bind
  · apply Steps.foldlM h.refl h.trans
    intro payouts offset
    apply h.toFrame.bind
    · exact h.toFrame.bind (h.toFrame.requireConfig _ _) fun _ ↦ h.toFrame.pure _
    · exact fun share ↦ h.addPayout _ _ _
  · exact fun payouts ↦ h.toFrame.pure _

theorem applyRake (layers : Layers) (minimumRake : Nat) :
    Steps R (Poker.applyRake layers minimumRake) := by
  apply Steps.read
  intro s
  apply Steps.ite
  · apply h.toFrame.bind (h.safeMulDiv _ _ _)
    intro share
    apply h.toFrame.bind (h.toFrame.requireConfig _ _)
    intro _
    apply h.toFrame.bind (Steps.modify fun _ ↦ h.rake _ _)
    intro _
    exact h.toFrame.bind
      (Steps.foldlM h.refl h.trans (fun _ _ ↦ h.shareLayer _ _ _ _) _ _)
      fun _ ↦ h.toFrame.pure _
  · apply h.toFrame.bind (h.toFrame.requireConfig _ _)
    intro _
    apply h.toFrame.bind (Steps.modify fun _ ↦ h.rake _ _)
    intro _
    apply Steps.mapM h.refl h.trans
    intro payout
    exact h.toFrame.bind (h.toFrame.requireConfig _ _) fun _ ↦ h.subAmount _ _

theorem recordPayout (payouts : List Nat) (acc : Nat × Nat) (index : Nat) :
    Steps R (Poker.recordPayout payouts acc index) := by
  apply h.toFrame.bind (Steps.modify fun _ ↦ h.payout _ _ _)
  intro _
  apply Steps.read
  intro s
  apply h.toFrame.bind (h.safeAmountAdd _ _)
  intro totalStack
  exact h.toFrame.bind (h.safeAmountAdd _ _) fun _ ↦ h.toFrame.pure _

theorem allocatePayouts : Steps R Poker.allocatePayouts := by
  apply Steps.read
  intro s
  apply h.toFrame.bind
  · apply Steps.mapM h.refl h.trans
    intro player
    exact h.toFrame.bind (h.toFrame.requireConfig _ _) fun _ ↦ h.subAmount _ _
  · intro payouts
    apply h.toFrame.bind (h.collectLayers _ _ _ _)
    intro layers
    apply h.toFrame.bind (h.safeAmountMul _ _)
    intro minimumRake
    apply h.toFrame.bind (h.applyRake _ _)
    intro payouts
    apply Steps.read
    intro t
    apply h.toFrame.bind
    · exact Steps.foldlM h.refl h.trans (fun _ _ ↦ h.recordPayout _ _ _) _ _
    · exact fun totals ↦ h.toFrame.requireConfig _ _

end PayoutFrame

theorem map_address_modify {players : List Player} {i : Nat} {f : Player → Player}
    (h : ∀ player, (f player).address = player.address) :
    (players.modify i f).map Player.address = players.map Player.address := by
  apply List.ext_getElem?
  intro j
  rw [List.getElem?_map, List.getElem?_map, List.getElem?_modify]
  cases players[j]? with
  | none => rfl
  | some player =>
      change some (if i = j then f player else player).address = some player.address
      by_cases hij : i = j
      · rw [if_pos hij, h]
      · rw [if_neg hij]

theorem Keeps.payoutFrame : PayoutFrame Keeps where
  toFrame := Keeps.frame
  rake _ _ := Keeps.hand rfl rfl rfl rfl
  payout _ _ _ := Keeps.hand rfl rfl rfl (map_address_modify fun _ ↦ rfl)

/-! ## 4. The programs -/

theorem keeps_updateHand {f : Hand → Hand} (htable : ∀ hand, (f hand).table = hand.table)
    (hid : ∀ hand, (f hand).handId = hand.handId)
    (hstart : ∀ hand, (f hand).startHeight = hand.startHeight)
    (haddresses : ∀ hand, (f hand).players.map Player.address = hand.players.map Player.address) :
    Steps Keeps (updateHand f) :=
  Steps.modify fun _ ↦ Keeps.hand (htable _) (hid _) (hstart _) (haddresses _)

theorem keeps_beginContinue (now : Nat) : Steps Keeps (beginContinue now) :=
  Keeps.frame.bind Keeps.payoutFrame.allocatePayouts fun _ ↦
    keeps_updateHand (fun _ ↦ rfl) (fun _ ↦ rfl) (fun _ ↦ rfl) fun _ ↦ rfl

theorem keeps_afterBettingOrReveal (now : Nat) : Steps Keeps (afterBettingOrReveal now) := by
  apply Steps.read
  intro s
  apply Steps.ite (keeps_beginContinue now)
  apply Steps.ite
  · exact keeps_updateHand (fun _ ↦ rfl) (fun _ ↦ rfl) (fun _ ↦ rfl) fun _ ↦ rfl
  · exact keeps_updateHand (fun _ ↦ rfl) (fun _ ↦ rfl) (fun _ ↦ rfl) fun _ ↦ rfl

theorem keeps_afterReveal (now : Nat) : Steps Keeps (afterReveal now) := by
  apply Steps.read
  intro s
  apply Steps.ite
  · exact keeps_updateHand (fun _ ↦ rfl) (fun _ ↦ rfl) (fun _ ↦ rfl) fun _ ↦ rfl
  · exact keeps_afterBettingOrReveal now

theorem keeps_afterEpoch (now : Nat) : Steps Keeps (afterEpoch now) := by
  apply Steps.read
  intro s
  apply Steps.ite (keeps_afterBettingOrReveal now)
  apply Keeps.frame.bind (Keeps.frame.requireConfig _ _)
  intro _
  exact keeps_updateHand (fun _ ↦ rfl) (fun _ ↦ rfl) (fun _ ↦ rfl) fun _ ↦ rfl

theorem keeps_advanceCommit (native : Native) (now : Nat) :
    Steps Keeps (advanceCommit native now) := by
  apply Steps.get
  intro s
  exact Keeps.frame.phase (keeps_foldl (keeps_commitPlayer native) _ s)
    (Keeps.frame.ends (keeps_afterBettingOrReveal now))

theorem keeps_advanceReveal (native : Native) (now : Nat) :
    Steps Keeps (advanceReveal native now) := by
  apply Steps.get
  intro s
  apply Keeps.frame.phase (keeps_foldl_pair (keeps_revealPlayer native s.hand.round) _ (s, ""))
  apply Keeps.frame.bind (Keeps.frame.inBounds _)
  intro _
  apply Keeps.frame.bind
  · exact keeps_updateHand (fun _ ↦ rfl) (fun _ ↦ rfl) (fun _ ↦ rfl) fun _ ↦ rfl
  · exact fun _ ↦ Keeps.frame.ends (keeps_afterReveal now)

theorem keeps_advanceBetting (native : Native) (now : Nat) :
    Steps Keeps (advanceBetting native now) := by
  apply Steps.get
  intro s
  apply Keeps.frame.phase
    (keeps_foldl_pair (keeps_betPlayer native s.hand.round s.hand.epoch (currentBet s.hand)) _ (s, []))
  apply Keeps.frame.bind (Keeps.frame.inBounds _)
  intro _
  apply Keeps.frame.bind
  · exact keeps_updateHand (fun _ ↦ rfl) (fun _ ↦ rfl) (fun _ ↦ rfl) fun _ ↦ rfl
  · exact fun _ ↦ Keeps.frame.ends (keeps_afterEpoch now)

theorem keeps_validateShow (env : Env) (native : Native) (hand : Hand) (player : Player)
    (value : Submission) :
    Steps Keeps (validateShow env native hand player value : HandM (Option Show)) := by
  apply Steps.ite (Keeps.frame.pure _)
  apply Keeps.frame.bind (Keeps.frame.call env _)
  intro pocket
  apply Keeps.frame.bind (Keeps.frame.call env _)
  intro selected
  exact Keeps.frame.bind (Keeps.frame.call env _) fun _ ↦ Keeps.frame.pure _

theorem keeps_makeBoard (env : Env) (native : Native) : Steps Keeps (makeBoard env native) := by
  apply Steps.read
  intro s
  apply Keeps.frame.bind (Keeps.frame.requireConfig _ _)
  intro _
  apply Keeps.frame.bind (Keeps.frame.call env _)
  intro board
  exact keeps_updateHand (fun _ ↦ rfl) (fun _ ↦ rfl) (fun _ ↦ rfl) fun _ ↦ rfl

theorem keeps_showSubmitted (env : Env) (native : Native) (ready : Bool) (player : Player) :
    Steps Keeps (showSubmitted env native ready player) := by
  apply Steps.ite (Keeps.frame.pure _)
  apply Steps.read
  intro s
  apply Steps.ite (Keeps.frame.pure _)
  exact Keeps.frame.bind (keeps_validateShow env native _ _ _) fun _ ↦ Keeps.frame.pure _

theorem keeps_showPlayer (env : Env) (native : Native) (i : Nat) :
    Steps Keeps (showPlayer env native i) := by
  apply Steps.get
  intro s
  apply After.ite
  · exact fun _ ↦ After.set (keeps_step ..)
  · intro _
    let player := s.hand.players.getD i {}
    have htaken : Keeps s ((s.take (handKey s.hand player.address .muck 4 0)).take
        (handKey s.hand player.address .show 4 0)) :=
      Keeps.trans _ _ _ (keeps_take s _) (keeps_take _ _)
    apply After.bind
    apply After.set
    apply After.bind
    -- the verification may throw; the messages are gone by then
    apply ((Steps.ite (Keeps.frame.pure none) (keeps_validateShow env native _ _ _)).after Keeps.trans htaken).mono
    intro r t hst
    cases r with
    | error e => exact hst
    | ok shown =>
        apply After.modify
        apply Keeps.trans _ _ _ hst
        apply keeps_recordShow
        rw [address_getD, address_getD, hst.addresses]

theorem keeps_advanceShow (env : Env) (native : Native) (now : Nat) :
    Steps Keeps (advanceShow env native now) := by
  apply Steps.read
  intro s
  apply Steps.ite
  · exact Keeps.frame.bind (keeps_makeBoard env native) fun _ ↦ Keeps.frame.pure _
  · apply Keeps.frame.bind
    · exact Steps.foldlM Keeps.refl Keeps.trans (fun _ _ ↦ keeps_showSubmitted env native _ _) _ _
    · intro ready
      apply Steps.ite (Keeps.frame.pure _)
      apply Keeps.frame.bind
      · exact Steps.forM Keeps.refl Keeps.trans (keeps_showPlayer env native) _
      · intro _
        exact Keeps.frame.bind (keeps_beginContinue now) fun _ ↦ Keeps.frame.pure _

theorem keeps_submitSettlement (env : Env) (height : Nat) :
    Steps Keeps (submitSettlement env height) := by
  apply Steps.read
  intro s
  apply Keeps.frame.bind (Keeps.frame.call env _)
  intro transaction
  exact keeps_updateHand (fun _ ↦ rfl) (fun _ ↦ rfl) (fun _ ↦ rfl) fun _ ↦ rfl

theorem keeps_advanceContinue (env : Env) (chain : ChainState) (now : Nat) :
    Steps Keeps (advanceContinue env chain now) := by
  apply Steps.get
  intro s
  exact Keeps.frame.phase (keeps_foldl keeps_continuePlayer _ s)
    (Keeps.frame.ends (keeps_submitSettlement env _))

theorem keeps_retrySettlement (env : Env) (chain : ChainState) :
    Steps Keeps (retrySettlement env chain) := by
  apply Steps.read
  intro s
  apply Steps.ite (Keeps.frame.pure _)
  exact Keeps.frame.bind (keeps_submitSettlement env _) fun _ ↦ Keeps.frame.pure _

theorem keeps_advanceHand (env : Env) (native : Native) (chain : ChainState) (now : Nat) :
    Steps Keeps (advanceHand env native chain now) := by
  apply Steps.read
  intro s
  cases s.hand.phase with
  | commit => exact keeps_advanceCommit native now
  | reveal => exact keeps_advanceReveal native now
  | betting => exact keeps_advanceBetting native now
  | «show» => exact keeps_advanceShow env native now
  | «continue» => exact keeps_advanceContinue env chain now
  | settling => exact keeps_retrySettlement env chain
  | unknown => exact Keeps.frame.throwException _

end HandState

end Stainless.Poker
