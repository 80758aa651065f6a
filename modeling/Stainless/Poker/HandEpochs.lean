import Stainless.Poker.HandPhases

/-!
# The betting epochs of a hand

How a step of a hand moves it from one betting epoch to the next, and what the step adds to the
transcript.  Nothing is assumed of the hand, so the payouts at the end of an epoch may throw.
-/

open Reasoning Stainless.Runtime Stainless.Crypto

namespace Stainless.Poker

/-! ## 1. Epochs -/

/-- The hand waits for the actions of this epoch. -/
def Hand.InEpoch (hand : Hand) (round epoch : Nat) : Prop :=
  hand.phase = .betting ∧ hand.round = round ∧ hand.epoch = epoch

instance (hand : Hand) (round epoch : Nat) : Decidable (hand.InEpoch round epoch) :=
  inferInstanceAs (Decidable (_ ∧ _ ∧ _))

/-- No epoch comes any more. -/
def HandPhase.isLate : HandPhase → Bool
  | .commit | .reveal | .betting => false
  | .unknown | .show | .continue | .settling => true

/-- The hand is in this epoch, or has left it behind. -/
def Hand.Reached (hand : Hand) (round epoch : Nat) : Prop :=
  match hand.phase with
  | .commit => False
  | .reveal => round < hand.round
  | .betting => round < hand.round ∨ round = hand.round ∧ epoch ≤ hand.epoch
  | .unknown | .show | .continue | .settling => True

theorem Hand.InEpoch.reached {hand : Hand} {round epoch : Nat} (h : hand.InEpoch round epoch) :
    hand.Reached round epoch := by
  have ⟨hphase, hround, hepoch⟩ := h
  unfold Hand.Reached
  rw [hphase]
  exact .inr ⟨hround.symm, Nat.le_of_eq hepoch.symm⟩

theorem Hand.reached_of_late {hand : Hand} (h : hand.phase.isLate = true) (round epoch : Nat) :
    hand.Reached round epoch := by
  unfold Hand.Reached
  cases hphase : hand.phase with
  | commit | reveal | betting =>
      rw [hphase] at h
      cases h
  | unknown | «show» | «continue» | settling => trivial

/-- Where a step can lead. -/
inductive Hand.GoesTo (hand after : Hand) : Prop
  | stays (phase : after.phase = hand.phase) (round : after.round = hand.round)
      (epoch : after.epoch = hand.epoch)
  | starts (phase : hand.phase = .commit) (next : after.phase = .reveal)
      (round : after.round = hand.round)
  | reveals (phase : hand.phase = .reveal ∨ hand.phase = .betting) (early : hand.round < 3)
      (next : after.phase = .reveal) (round : after.round = hand.round + 1)
  | bets (phase : hand.phase = .reveal) (next : after.phase = .betting)
      (round : after.round = hand.round) (epoch : after.epoch = 0)
  | betsAgain (phase : hand.phase = .betting) (next : after.phase = .betting)
      (round : after.round = hand.round) (epoch : after.epoch = hand.epoch + 1)
  | ends (late : after.phase.isLate = true)

namespace Hand.GoesTo

variable {hand after : Hand}

/-- The epochs are taken in order. -/
theorem reached (h : hand.GoesTo after) {round epoch : Nat} (hreached : hand.Reached round epoch) :
    after.Reached round epoch := by
  cases h with
  | ends hlate => exact after.reached_of_late hlate round epoch
  | stays hphase hround hepoch =>
      unfold Hand.Reached at *
      rwa [hphase, hround, hepoch]
  | starts hphase hnext hround =>
      unfold Hand.Reached at *
      rw [hphase] at hreached
      exact hreached.elim
  | reveals hphase hearly hnext hround =>
      unfold Hand.Reached at *
      rw [hnext]
      show round < after.round
      rcases hphase with hphase | hphase
      · rw [hphase] at hreached
        have hless : round < hand.round := hreached
        omega
      · rw [hphase] at hreached
        have hless : round < hand.round ∨ round = hand.round ∧ epoch ≤ hand.epoch := hreached
        omega
  | bets hphase hnext hround hepoch =>
      unfold Hand.Reached at *
      rw [hphase] at hreached
      rw [hnext, hround]
      exact .inl hreached
  | betsAgain hphase hnext hround hepoch =>
      unfold Hand.Reached at *
      rw [hphase] at hreached
      have hless : round < hand.round ∨ round = hand.round ∧ epoch ≤ hand.epoch := hreached
      rw [hnext, hround, hepoch]
      show round < hand.round ∨ round = hand.round ∧ epoch ≤ hand.epoch + 1
      omega

/-- An epoch that the hand is in after a step is new, or the hand has not left it. -/
theorem inEpoch (h : hand.GoesTo after) {round epoch : Nat} (hafter : after.InEpoch round epoch) :
    hand.InEpoch round epoch ∨ ¬hand.Reached round epoch := by
  have ⟨hbetting, hround', hepoch'⟩ := hafter
  cases h with
  | stays hphase hround hepoch =>
      exact .inl ⟨hphase.symm.trans hbetting, hround.symm.trans hround', hepoch.symm.trans hepoch'⟩
  | starts hphase hnext hround => exact nomatch hnext.symm.trans hbetting
  | reveals hphase hearly hnext hround => exact nomatch hnext.symm.trans hbetting
  | bets hphase hnext hround hepoch =>
      right
      unfold Hand.Reached
      rw [hphase]
      show ¬round < hand.round
      omega
  | betsAgain hphase hnext hround hepoch =>
      right
      unfold Hand.Reached
      rw [hphase]
      show ¬(round < hand.round ∨ round = hand.round ∧ epoch ≤ hand.epoch)
      omega
  | ends hlate =>
      rw [hbetting] at hlate
      cases hlate

end Hand.GoesTo

/-! ## 2. The transcript -/

/-- How many epochs of the current round are in the transcript. -/
def Hand.closedEpochs (hand : Hand) : Nat := (hand.betting.getD hand.round []).length

/-- The current epoch is in the transcript already: the step that closed it threw afterwards. -/
def Hand.epochClosed (hand : Hand) : Bool := hand.epoch < hand.closedEpochs

/-- The transcript has room for the epochs. -/
structure Hand.HasTranscript (hand : Hand) : Prop where
  rounds : hand.betting.length = 4
  commit : hand.phase = .commit → hand.round = 0
  round : hand.phase = .reveal ∨ hand.phase = .betting → hand.round < 4
  epochs : hand.phase = .betting → hand.epoch ≤ hand.closedEpochs

/-- The entry is the action that waits for its player. -/
def HandState.Holds (s : HandState) (entry : BettingEntry) : Prop :=
  ∃ message, s.inbox[actionKey s.hand entry.player]? = some message ∧
    entry = ⟨entry.player, message.action, message.cumulativeBet, message.signature⟩

/-- What a step does to the transcript. -/
inductive HandState.Records (s : HandState) (after : Hand) : Prop
  | nothing (betting : after.betting = s.hand.betting)
      (stays : s.hand.phase = .betting → after = s.hand)
  | epoch (phase : s.hand.phase = .betting) (entries : List BettingEntry)
      (holds : ∀ entry ∈ entries, s.Holds entry)
      (betting : after.betting = s.hand.betting.modify s.hand.round (· ++ [entries]))

/-- What a step adds to the current round of the transcript. -/
def newEntries (before after : Hand) : List BettingEntry :=
  ((after.betting.getD before.round []).drop before.closedEpochs).flatten

theorem getD_modify {α : Type} {l : List (List α)} {i : Nat} (hi : i < l.length) (f : List α → List α) :
    (l.modify i f).getD i [] = f (l.getD i []) := by
  rw [List.getD_eq_getElem?_getD, List.getElem?_modify_eq, List.getD_eq_getElem?_getD,
    List.getElem?_eq_getElem hi]
  rfl

namespace HandState.Records

variable {s : HandState} {after : Hand}

theorem holds (h : s.Records after) {entry : BettingEntry} (hentry : entry ∈ newEntries s.hand after) :
    s.hand.phase = .betting ∧ s.Holds entry := by
  unfold newEntries Hand.closedEpochs at hentry
  cases h with
  | nothing hbetting _ =>
      rw [hbetting, List.drop_length] at hentry
      cases hentry
  | epoch hphase entries hholds hbetting =>
      rw [hbetting] at hentry
      by_cases hround : s.hand.round < s.hand.betting.length
      · rw [getD_modify hround, List.drop_left, List.flatten_singleton] at hentry
        exact ⟨hphase, hholds entry hentry⟩
      · have hnone : (s.hand.betting.modify s.hand.round (· ++ [entries])).getD s.hand.round [] = [] := by
          rw [List.getD_eq_getElem?_getD, List.getElem?_modify_eq, List.getElem?_eq_none (by omega)]
          rfl
        rw [hnone, List.drop_nil] at hentry
        cases hentry

/-- The hand has not left its epoch: nothing happened, or the epoch is in the transcript now. -/
theorem sameEpoch (h : s.Records after) (htranscript : s.hand.HasTranscript)
    (hbetting : s.hand.phase = .betting) (hround : after.round = s.hand.round)
    (hepoch : after.epoch = s.hand.epoch) : after = s.hand ∨ after.epochClosed = true := by
  cases h with
  | nothing _ hstays => exact .inl (hstays hbetting)
  | epoch hphase entries hholds hafter =>
      right
      have hlength := htranscript.epochs hbetting
      have hless := htranscript.round (.inr hbetting)
      unfold Hand.epochClosed Hand.closedEpochs at *
      rw [hafter, hround, hepoch, getD_modify (by rw [htranscript.rounds]; exact hless),
        List.length_append, List.length_singleton, decide_eq_true_eq]
      omega

theorem length (h : s.Records after) : after.betting.length = s.hand.betting.length := by
  cases h with
  | nothing hbetting _ => rw [hbetting]
  | epoch hphase entries hholds hbetting => rw [hbetting, List.length_modify]

/-- The transcript keeps its room. -/
theorem transcript (h : s.Records after) (hgoes : s.hand.GoesTo after)
    (htranscript : s.hand.HasTranscript) : after.HasTranscript where
  rounds := h.length.trans htranscript.rounds
  commit hcommit := by
    cases hgoes with
    | stays hphase hround _ => exact hround.trans (htranscript.commit (hphase.symm.trans hcommit))
    | starts _ hnext _ => exact nomatch hnext.symm.trans hcommit
    | reveals _ _ hnext _ => exact nomatch hnext.symm.trans hcommit
    | bets _ hnext _ _ => exact nomatch hnext.symm.trans hcommit
    | betsAgain _ hnext _ _ => exact nomatch hnext.symm.trans hcommit
    | ends hlate =>
        rw [hcommit] at hlate
        cases hlate
  round hphase' := by
    cases hgoes with
    | stays hphase hround _ =>
        rw [hround]
        exact htranscript.round (hphase ▸ hphase')
    | starts hphase _ hround =>
        have hzero := htranscript.commit hphase
        omega
    | reveals _ hearly _ hround => omega
    | bets hphase _ hround _ =>
        rw [hround]
        exact htranscript.round (.inl hphase)
    | betsAgain hphase _ hround _ =>
        rw [hround]
        exact htranscript.round (.inr hphase)
    | ends hlate =>
        rcases hphase' with hphase' | hphase'
        · rw [hphase'] at hlate
          cases hlate
        · rw [hphase'] at hlate
          cases hlate
  epochs hbetting := by
    cases hgoes with
    | stays hphase hround hepoch =>
        rcases h.sameEpoch htranscript (hphase.symm.trans hbetting) hround hepoch with hsame | hclosed
        · rw [hsame]
          exact htranscript.epochs (hphase.symm.trans hbetting)
        · exact Nat.le_of_lt (of_decide_eq_true hclosed)
    | starts _ hnext _ => exact nomatch hnext.symm.trans hbetting
    | reveals _ _ hnext _ => exact nomatch hnext.symm.trans hbetting
    | bets _ _ _ hepoch =>
        rw [hepoch]
        exact Nat.zero_le _
    | betsAgain hphase _ hround hepoch =>
        -- a new number means that the call has appended the record of the last epoch
        cases h with
        | nothing _ hstays =>
            rw [hstays hphase] at hepoch
            omega
        | epoch _ entries _ hafter =>
            have hlength := htranscript.epochs hphase
            have hless := htranscript.round (.inr hphase)
            unfold Hand.closedEpochs at *
            rw [hepoch, hround, hafter, getD_modify (by rw [htranscript.rounds]; exact hless),
              List.length_append, List.length_singleton]
            omega
    | ends hlate =>
        rw [hbetting] at hlate
        cases hlate

end HandState.Records

/-! ## 3. The end of a phase -/

/-- The hand has neither gone on nor got a new transcript. -/
structure Hand.SamePlace (before after : Hand) : Prop where
  phase : after.phase = before.phase
  round : after.round = before.round
  epoch : after.epoch = before.epoch
  betting : after.betting = before.betting

theorem Hand.SamePlace.trans {a b c : Hand} (h : a.SamePlace b) (h' : b.SamePlace c) :
    a.SamePlace c where
  phase := h'.phase.trans h.phase
  round := h'.round.trans h.round
  epoch := h'.epoch.trans h.epoch
  betting := h'.betting.trans h.betting

/-- The turns of a phase leave the hand where it is. -/
theorem Hand.Follows.samePlace {before after : Hand} (h : before.Follows after) :
    before.SamePlace after where
  phase := h.phase
  round := h.round
  epoch := by
    show after.course.epoch = before.course.epoch
    rw [h.course]
  betting := h.betting

theorem samePlace_payoutFrame : HandState.PayoutFrame fun s t ↦ s.hand.SamePlace t.hand where
  refl _ := ⟨rfl, rfl, rfl, rfl⟩
  trans _ _ _ h h' := h.trans h'
  next _ := ⟨rfl, rfl, rfl, rfl⟩
  rake _ _ := ⟨rfl, rfl, rfl, rfl⟩
  payout _ _ _ := ⟨rfl, rfl, rfl, rfl⟩

/-- The hand has gone on and the transcript is as before. -/
structure GoesOn (before after : Hand) : Prop where
  goes : before.GoesTo after
  betting : after.betting = before.betting

theorem Hand.SamePlace.goesOn {before after : Hand} (h : before.SamePlace after) :
    GoesOn before after :=
  ⟨.stays h.phase h.round h.epoch, h.betting⟩

/-- The step begins with what leaves the hand where it is. -/
theorem Hand.GoesTo.of_same {hand mid after : Hand} (h : mid.GoesTo after)
    (hphase : mid.phase = hand.phase) (hround : mid.round = hand.round)
    (hepoch : mid.epoch = hand.epoch) : hand.GoesTo after := by
  cases h with
  | stays hphase' hround' hepoch' =>
      exact .stays (hphase'.trans hphase) (hround'.trans hround) (hepoch'.trans hepoch)
  | starts hcommit hnext hround' =>
      exact .starts (hphase.symm.trans hcommit) hnext (hround'.trans hround)
  | reveals hbefore hearly hnext hround' =>
      rw [hphase] at hbefore
      rw [hround] at hearly hround'
      exact .reveals hbefore hearly hnext hround'
  | bets hreveal hnext hround' hepoch' =>
      exact .bets (hphase.symm.trans hreveal) hnext (hround'.trans hround) hepoch'
  | betsAgain hbetting hnext hround' hepoch' =>
      rw [hepoch] at hepoch'
      exact .betsAgain (hphase.symm.trans hbetting) hnext (hround'.trans hround) hepoch'
  | ends hlate => exact .ends hlate

theorem GoesOn.from_same {before mid after : Hand} (h : GoesOn mid after)
    (hsame : before.SamePlace mid) : GoesOn before after where
  goes := h.goes.of_same hsame.phase hsame.round hsame.epoch
  betting := h.betting.trans hsame.betting

section PhaseEnds

variable (now : Nat) (s : HandState)

theorem goesOn_beginContinue : After s (beginContinue now) fun _ t ↦ GoesOn s.hand t.hand := by
  apply After.bind
  apply (samePlace_payoutFrame.allocatePayouts s).mono
  intro r t hsame
  cases r with
  | error e => exact hsame.goesOn
  | ok _ =>
      apply After.modify
      exact ⟨.ends rfl, hsame.betting⟩

theorem goesOn_afterBettingOrReveal :
    After s (afterBettingOrReveal now) fun _ t ↦ GoesOn s.hand t.hand := by
  apply After.read
  apply After.ite
  · exact fun _ ↦ goesOn_beginContinue now s
  · intro _
    apply After.ite
    · intro hearly
      apply After.modify
      refine ⟨?_, rfl⟩
      by_cases hcommit : s.hand.phase = .commit
      · exact .starts hcommit rfl (if_neg (not_not.mpr hcommit))
      · have hround : (enterReveal now s.hand).round = s.hand.round + 1 := if_pos hcommit
        rcases hearly with ⟨hphase, hless⟩ | ⟨hphase, hless⟩ | hphase
        · exact .reveals (.inl hphase) hless rfl hround
        · exact .reveals (.inr hphase) hless rfl hround
        · exact absurd hphase hcommit
    · intro _
      apply After.modify
      exact ⟨.ends rfl, rfl⟩

theorem goesOn_afterReveal (hphase : s.hand.phase = .reveal) :
    After s (afterReveal now) fun _ t ↦ GoesOn s.hand t.hand := by
  apply After.read
  apply After.ite
  · intro _
    apply After.modify
    exact ⟨.bets hphase rfl rfl rfl, rfl⟩
  · exact fun _ ↦ goesOn_afterBettingOrReveal now s

theorem goesOn_afterEpoch (hphase : s.hand.phase = .betting) :
    After s (afterEpoch now) fun _ t ↦ GoesOn s.hand t.hand := by
  apply After.read
  apply After.ite
  · exact fun _ ↦ goesOn_afterBettingOrReveal now s
  · intro _
    unfold requireConfig
    apply After.bind
    apply After.ite
    · intro _
      apply After.pure
      apply After.modify
      exact ⟨.betsAgain hphase hphase rfl rfl, rfl⟩
    · intro _
      apply After.throw
      exact ⟨.stays rfl rfl rfl, rfl⟩

end PhaseEnds

/-! ## 4. The phases -/

/-- A step has gone on to another place and has put its messages into the transcript. -/
structure StepsOn (s t : HandState) : Prop where
  goes : s.hand.GoesTo t.hand
  records : s.Records t.hand

theorem StepsOn.refl (s : HandState) : StepsOn s s := ⟨.stays rfl rfl rfl, .nothing rfl fun _ ↦ rfl⟩

theorem GoesOn.steps {s t : HandState} (h : GoesOn s.hand t.hand) (hphase : s.hand.phase ≠ .betting) :
    StepsOn s t :=
  ⟨h.goes, .nothing h.betting fun hbetting ↦ absurd hbetting hphase⟩

/-- A phase that waits, or takes the turns of its players and goes on. -/
theorem stepsOn_phase {s t : HandState} {c : Prop} [Decidable c] {k : HandM Bool}
    (hphase : s.hand.phase ≠ .betting)
    (hk : After t k fun _ u ↦ GoesOn s.hand u.hand) :
    After s (if c then return false else do
      set t
      k) fun _ u ↦ StepsOn s u := by
  apply After.ite
  · exact fun _ ↦ After.pure (StepsOn.refl s)
  · intro _
    apply After.bind
    apply After.set
    exact hk.mono fun _ _ hgoes ↦ hgoes.steps hphase

theorem goesOn_ends {hand : Hand} {t : HandState} {m : HandM Unit}
    (hm : After t m fun _ u ↦ GoesOn hand u.hand) :
    After t (do
      m
      return true) fun _ u ↦ GoesOn hand u.hand := by
  apply After.bind
  apply hm.mono
  intro r u hgoes
  cases r with
  | error e => exact hgoes
  | ok _ => exact After.pure hgoes

section Phases

variable (env : Env) (native : Native) (chain : ChainState) (now : Nat) (s : HandState)

theorem stepsOn_advanceCommit (hphase : s.hand.phase = .commit) :
    After s (advanceCommit native now) fun _ t ↦ StepsOn s t := by
  apply After.read
  apply stepsOn_phase (by rw [hphase]; decide)
  have hturns := (turns_follow id (turn_commitPlayer native) s s.hand.players.length
    (Nat.le_refl _)).1
  apply goesOn_ends
  apply (goesOn_afterBettingOrReveal now _).mono
  exact fun _ u hgoes ↦ hgoes.from_same hturns.samePlace

theorem stepsOn_advanceReveal (hphase : s.hand.phase = .reveal) :
    After s (advanceReveal native now) fun _ t ↦ StepsOn s t := by
  have hturns := (turns_follow Prod.fst (turn_revealPlayer native s.hand.round) (s, "")
    s.hand.players.length (Nat.le_refl _)).1
  apply After.read
  let revealed := (List.range s.hand.players.length).foldl (revealPlayer native s.hand.round) (s, "")
  apply stepsOn_phase (t := revealed.1)
    (by rw [hphase]; decide)
  apply After.bind
  apply After.ite
  case hneg => exact fun _ ↦ After.throw hturns.samePlace.goesOn
  intro _
  apply After.pure
  apply After.bind
  apply After.modify
  apply goesOn_ends
  refine (goesOn_afterReveal now _ ?_).mono fun _ u hgoes ↦ hgoes.from_same ?_
  · exact hturns.phase.trans hphase
  · exact hturns.samePlace.trans ⟨rfl, rfl, rfl, rfl⟩

/-- What the turns of an epoch take out of the inbox. -/
theorem betPlayer_holds {acc : HandState × List BettingEntry} (hkeeps : s.Keeps acc.1)
    (hholds : ∀ entry ∈ acc.2, s.Holds entry) (target i : Nat) :
    ∀ entry ∈ (betPlayer native s.hand.round s.hand.epoch target acc i).2, s.Holds entry := by
  have haddress : (acc.1.hand.players.getD i {}).address = (s.hand.players.getD i {}).address := by
    rw [HandState.address_getD, HandState.address_getD, hkeeps.addresses]
  have hkey : handKey acc.1.hand (acc.1.hand.players.getD i {}).address .action s.hand.round
      s.hand.epoch = actionKey s.hand i := by
    unfold handKey actionKey handKey
    rw [hkeeps.table, hkeeps.handId, haddress]
  unfold betPlayer
  dsimp only
  rw [hkey]
  split
  · exact hholds
  · split
    · exact hholds
    · split
      case isTrue hvalid =>
        intro entry hentry
        rcases List.mem_append.mp hentry with hentry | hentry
        · exact hholds entry hentry
        · rw [List.mem_singleton.mp hentry]
          cases hmessage : acc.1.inbox[actionKey s.hand i]? with
          | some message =>
              refine ⟨message, hkeeps.inbox _ _ hmessage, ?_⟩
              unfold HandState.message peekMessage
              rw [hmessage]
              rfl
          | none =>
              -- no message is waiting, and the default is not an action
              unfold HandState.message peekMessage validAction at hvalid
              rw [hmessage] at hvalid
              cases hvalid
      case isFalse hvalid =>
        split
        · exact hholds
        · exact hholds

theorem betTurns_holds : ∀ entry ∈ (betTurns native s).2, s.Holds entry := by
  have hturns : ∀ is : List Nat, s.Keeps (is.foldl
      (betPlayer native s.hand.round s.hand.epoch (currentBet s.hand)) (s, [])).1 ∧
      ∀ entry ∈ (is.foldl (betPlayer native s.hand.round s.hand.epoch (currentBet s.hand)) (s, [])).2,
        s.Holds entry := by
    intro is
    induction is using List.reverseRecOn with
    | nil => exact ⟨HandState.Keeps.refl s, fun _ h ↦ nomatch h⟩
    | append_singleton is i ih =>
        rw [List.foldl_append, List.foldl_cons, List.foldl_nil]
        exact ⟨HandState.Keeps.trans _ _ _ ih.1 (HandState.keeps_betPlayer native _ _ _ _ i),
          betPlayer_holds native s ih.1 ih.2 _ i⟩
  exact (hturns _).2

theorem stepsOn_advanceBetting (hphase : s.hand.phase = .betting) :
    After s (advanceBetting native now) fun _ t ↦ StepsOn s t := by
  have hturns := betTurns_follow native (s := s)
  have hplace := hturns.samePlace
  -- the transcript has the entries before the end of the epoch may throw
  have hrecords {t : HandState} (h : GoesOn (appendEntries s.hand.round (betTurns native s).2
      (betTurns native s).1.hand) t.hand) : StepsOn s t := by
    refine ⟨h.goes.of_same hplace.phase hplace.round hplace.epoch, ?_⟩
    apply HandState.Records.epoch hphase _ (betTurns_holds native s)
    rw [h.betting]
    show (betTurns native s).1.hand.betting.modify _ _ = _
    rw [hplace.betting]
  apply After.read
  apply After.ite
  · exact fun _ ↦ After.pure (StepsOn.refl s)
  · intro _
    apply After.bind
    apply After.set
    apply After.bind
    apply After.ite
    case hneg =>
      intro hmissing
      apply After.throw
      refine ⟨.stays hplace.phase hplace.round hplace.epoch, .epoch hphase _ (betTurns_holds native s) ?_⟩
      rw [List.modify_eq_self (by rw [← hplace.betting]; exact Nat.le_of_not_lt hmissing)]
      exact hplace.betting
    intro _
    apply After.pure
    apply After.bind
    apply After.modify
    apply After.bind
    refine (goesOn_afterEpoch now _ ?_).mono fun r u hgoes ↦ ?_
    · exact hplace.phase.trans hphase
    · cases r with
      | error e => exact hrecords hgoes
      | ok _ => exact After.pure (hrecords hgoes)

/-! ### The phases without betting -/

/-- No betting comes any more, and none is added to the transcript. -/
structure StaysLate (s t : HandState) : Prop where
  late : s.hand.phase.isLate = true → t.hand.phase.isLate = true
  betting : t.hand.betting = s.hand.betting

theorem StaysLate.payoutFrame : HandState.PayoutFrame StaysLate where
  refl _ := ⟨id, rfl⟩
  trans _ _ _ h h' := ⟨h'.late ∘ h.late, h'.betting.trans h.betting⟩
  next _ := ⟨id, rfl⟩
  rake _ _ := ⟨id, rfl⟩
  payout _ _ _ := ⟨id, rfl⟩

theorem staysLate_beginContinue : Steps StaysLate (beginContinue now) :=
  StaysLate.payoutFrame.toFrame.bind StaysLate.payoutFrame.allocatePayouts fun _ ↦
    Steps.modify fun _ ↦ ⟨fun _ ↦ rfl, rfl⟩

theorem staysLate_makeBoard : Steps StaysLate (makeBoard env native) := by
  have hframe := StaysLate.payoutFrame.toFrame
  apply Steps.read
  intro s
  apply hframe.bind (hframe.requireConfig _ _)
  intro _
  apply hframe.bind (hframe.call env _)
  intro board
  exact Steps.modify fun _ ↦ ⟨id, rfl⟩

theorem staysLate_showPlayer (i : Nat) : Steps StaysLate (showPlayer env native i) := by
  have hframe := StaysLate.payoutFrame.toFrame
  apply Steps.get
  intro s
  apply After.ite
  · exact fun _ ↦ After.set ⟨id, rfl⟩
  · intro _
    apply After.bind
    apply After.set
    refine (hframe.bind (Steps.ite (hframe.pure none) (hframe.counted (counted_validateShow env native _ _ _)))
      fun shown ↦ Steps.modify fun t ↦ ?_).after hframe.trans ⟨id, rfl⟩
    unfold recordShow
    cases shown with
    | some value => exact ⟨id, rfl⟩
    | none =>
        dsimp only
        split
        · exact ⟨id, rfl⟩
        · exact ⟨id, rfl⟩

theorem staysLate_advanceShow : Steps StaysLate (advanceShow env native now) := by
  have hframe := StaysLate.payoutFrame.toFrame
  apply Steps.read
  intro s
  apply Steps.ite
  · exact hframe.bind (staysLate_makeBoard env native) fun _ ↦ hframe.pure _
  · apply hframe.bind
    · apply hframe.counted
      exact Steps.foldlM Counted.frame.refl Counted.frame.trans
        (fun _ _ ↦ counted_showSubmitted env native _ _) _ _
    · intro ready
      apply Steps.ite (hframe.pure _)
      apply hframe.bind
      · exact Steps.forM hframe.refl hframe.trans (staysLate_showPlayer env native) _
      · exact fun _ ↦ hframe.bind (staysLate_beginContinue now) fun _ ↦ hframe.pure _

theorem staysLate_submitSettlement (height : Nat) : Steps StaysLate (submitSettlement env height) := by
  have hframe := StaysLate.payoutFrame.toFrame
  apply Steps.read
  intro s
  apply hframe.bind (hframe.call env _)
  intro transaction
  exact Steps.modify fun _ ↦ ⟨fun _ ↦ rfl, rfl⟩

theorem staysLate_advanceContinue : Steps StaysLate (advanceContinue env chain now) := by
  have hframe := StaysLate.payoutFrame.toFrame
  apply Steps.get
  intro s
  have hturns := (turns_follow id turn_continuePlayer s s.hand.players.length (Nat.le_refl _)).1
  apply After.ite
  · exact fun _ ↦ After.pure (hframe.refl s)
  · intro _
    apply After.bind
    apply After.set
    refine (hframe.bind (staysLate_submitSettlement env _) fun _ ↦ hframe.pure _).after hframe.trans ?_
    refine ⟨fun hlate ↦ ?_, hturns.betting⟩
    rw [← hlate]
    exact congrArg HandPhase.isLate hturns.phase

theorem staysLate_retrySettlement : Steps StaysLate (retrySettlement env chain) := by
  have hframe := StaysLate.payoutFrame.toFrame
  apply Steps.read
  intro s
  apply Steps.ite (hframe.pure _)
  exact hframe.bind (staysLate_submitSettlement env _) fun _ ↦ hframe.pure _

theorem StaysLate.steps {t : HandState} (h : StaysLate s t) (hlate : s.hand.phase.isLate = true) :
    StepsOn s t := by
  refine ⟨.ends (h.late hlate), .nothing h.betting fun hbetting ↦ ?_⟩
  rw [hbetting] at hlate
  cases hlate

/-- The step that a hand takes, from any state. -/
theorem stepsOn_advanceHand : After s (advanceHand env native chain now) fun _ t ↦ StepsOn s t := by
  apply After.read
  cases hphase : s.hand.phase with
  | commit => exact stepsOn_advanceCommit native now s hphase
  | reveal => exact stepsOn_advanceReveal native now s hphase
  | betting => exact stepsOn_advanceBetting native now s hphase
  | «show» =>
      have hlate : s.hand.phase.isLate = true := by rw [hphase]; rfl
      exact (staysLate_advanceShow env native now s).mono fun _ _ h ↦ h.steps _ hlate
  | «continue» =>
      have hlate : s.hand.phase.isLate = true := by rw [hphase]; rfl
      exact (staysLate_advanceContinue env chain now s).mono fun _ _ h ↦ h.steps _ hlate
  | settling =>
      have hlate : s.hand.phase.isLate = true := by rw [hphase]; rfl
      exact (staysLate_retrySettlement env chain s).mono fun _ _ h ↦ h.steps _ hlate
  | unknown => exact After.throw (StepsOn.refl s)

end Phases

end Stainless.Poker
