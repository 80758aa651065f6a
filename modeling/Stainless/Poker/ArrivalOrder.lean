import Mathlib.Data.List.Nodup
import Stainless.Poker.BettingRounds
import Stainless.Poker.Coordinator

/-!
# The order of arrival

In the commit, reveal, betting and continue steps the hand waits for the players' messages and takes
all of them at one tick.  What becomes of it depends on the messages and not on the order in which they
came, nor on the ticks in between.
-/

open Reasoning Stainless.Runtime Stainless.Crypto

namespace Stainless.Poker

/-! ## 1. Steps -/

/-- A phase in which each expected player answers once. -/
def HandPhase.isStep : HandPhase → Bool
  | .commit | .reveal | .betting | .continue => true
  | .unknown | .show | .settling => false

/-- The step waits for an answer of the player. -/
def expects (hand : Hand) (player : Player) : Bool :=
  match hand.phase with
  | .commit | .continue => true
  | .reveal => !player.folded
  | .betting => player.mayAct
  | _ => false

/-- The kinds of answer to a step, with their round and epoch. -/
def stepKinds (hand : Hand) : List (SubmissionKind × Nat × Nat) :=
  match hand.phase with
  | .commit => [(.commit, 0, 0)]
  | .reveal => [(.reveal, hand.round, 0)]
  | .betting => [(.action, hand.round, hand.epoch)]
  | .continue => [(.leave, 0, 0), (.continue, 0, 0)]
  | _ => []

def stepKey (hand : Hand) (address : String) (kind : SubmissionKind × Nat × Nat) : String :=
  handKey hand address kind.1 kind.2.1 kind.2.2

/-- A valid answer of the player waits in the inbox. -/
def answered (native : Native) (hand : Hand) (inbox : OrderedMap String Submission)
    (player : Player) : Bool :=
  match hand.phase with
  | .commit => validCommit (peekMessage inbox (handKey hand player.address .commit 0 0))
  | .reveal => validReveal native hand player hand.round
      (peekMessage inbox (handKey hand player.address .reveal hand.round 0))
  | .betting => validAction hand player (currentBet hand)
      (peekMessage inbox (handKey hand player.address .action hand.round hand.epoch))
  | .continue => hasMessage inbox (handKey hand player.address .leave 0 0) ||
      validContinuation hand player
        (peekMessage inbox (handKey hand player.address .continue 0 0))
  | _ => false

def stepReady (native : Native) (hand : Hand) (inbox : OrderedMap String Submission) : Bool :=
  hand.players.all fun player ↦ !expects hand player || answered native hand inbox player

/-- An advance that waits changes nothing; otherwise it closes the step or throws. -/
def ClosesWhen (ready : Bool) (s : HandState) (result : EStateM.Result Exit HandState Bool) : Prop :=
  (ready = false → result = .ok false s) ∧
    (ready = true → ∀ t, result ≠ .ok false t)

section Closing

variable {s : HandState}

theorem not_mayAct (player : Player) :
    (!player.mayAct) = (player.folded || player.bet ≥ player.stack) := by
  have hcovered : (!decide (player.bet < player.stack)) = decide (player.bet ≥ player.stack) := by
    rw [← decide_not]
    exact decide_eq_decide.mpr Nat.not_lt
  rw [Player.mayAct, Bool.not_and, Bool.not_not, hcovered]

theorem bind_ne_false {α : Type} {m : HandM α} {k : α → HandM Bool}
    (h : ∀ a t u, k a t ≠ .ok false u) (t u : HandState) : (m >>= k) t ≠ .ok false u := by
  have hbind : (m >>= k) t = EStateM.bind m k t := rfl
  rw [hbind, EStateM.bind]
  cases m t with
  | ok a v => exact h a v u
  | error e v => exact fun h ↦ nomatch h

theorem true_ne_false (t u : HandState) : (pure true : HandM Bool) t ≠ .ok false u :=
  fun h ↦ nomatch h

theorem closesWhen_ite {ready : Bool} {now : Nat} {body : HandM Bool} (hnow : now < s.hand.deadline)
    (hbody : ∀ t u, body t ≠ .ok false u) :
    ClosesWhen ready s ((if waits ready now s.hand then return false else body : HandM Bool) s) := by
  unfold waits
  rw [decide_eq_true hnow, Bool.and_true]
  cases ready with
  | false => exact ⟨fun _ ↦ rfl, fun h ↦ by cases h⟩
  | true => exact ⟨(fun h ↦ by cases h), fun _ t ↦ hbody s t⟩

theorem advanceHand_eq (env : Env) (native : Native) (chain : ChainState) (now : Nat) :
    advanceHand env native chain now s = (match s.hand.phase with
      | .commit => advanceCommit native now
      | .reveal => advanceReveal native now
      | .betting => advanceBetting native now
      | .show => advanceShow env native now
      | .continue => advanceContinue env chain now
      | .settling => retrySettlement env chain
      | .unknown => throwException (.config "invalid persisted poker hand phase") : HandM Bool) s :=
  rfl

theorem advanceHand_closes (env : Env) (native : Native) (chain : ChainState) {now : Nat}
    (hstep : s.hand.phase.isStep) (hnow : now < s.hand.deadline) :
    ClosesWhen (stepReady native s.hand s.inbox) s (advanceHand env native chain now s) := by
  rw [advanceHand_eq]
  unfold stepReady expects answered
  -- past the test of the readiness nothing returns false any more
  cases hphase : s.hand.phase with
  | commit =>
      apply closesWhen_ite hnow
      apply bind_ne_false
      intro _
      apply bind_ne_false
      exact fun _ ↦ true_ne_false
  | reveal =>
      simp only [Bool.not_not]
      apply closesWhen_ite hnow
      apply bind_ne_false
      intro _
      apply bind_ne_false
      intro _
      apply bind_ne_false
      intro _
      apply bind_ne_false
      exact fun _ ↦ true_ne_false
  | betting =>
      simp only [not_mayAct]
      apply closesWhen_ite hnow
      apply bind_ne_false
      intro _
      apply bind_ne_false
      intro _
      apply bind_ne_false
      intro _
      apply bind_ne_false
      exact fun _ ↦ true_ne_false
  | «continue» =>
      apply closesWhen_ite hnow
      apply bind_ne_false
      intro _
      apply bind_ne_false
      exact fun _ ↦ true_ne_false
  | unknown =>
      rw [hphase] at hstep
      cases hstep
  | «show» =>
      rw [hphase] at hstep
      cases hstep
  | settling =>
      rw [hphase] at hstep
      cases hstep

end Closing

/-! ## 2. Keys -/

theorem inboxKey_inj {table : String} {handId : Nat} {address address' : String}
    {kind : SubmissionKind} {round epoch : Nat}
    (h : inboxKey table handId address kind round epoch =
      inboxKey table handId address' kind round epoch) : address = address' := by
  unfold inboxKey segments at h
  simpa only [List.foldl_cons, List.foldl_nil, String.append_left_inj, String.append_right_inj]
    using h

/-- The keys of `Leave` and `Continue` differ in the last letter but one of the kind. -/
theorem leaveKey_ne_continueKey (table : String) (handId : Nat) (address address' : String) :
    inboxKey table handId address .leave 0 0 ≠ inboxKey table handId address' .continue 0 0 := by
  intro h
  unfold inboxKey segments at h
  have hletter := congrArg (fun key ↦ key.toList.reverse[5]?) h
  have hzero : (decimal 0).toList = ['0'] := by decide
  have hleave : SubmissionKind.leave.text.toList = ['L', 'e', 'a', 'v', 'e'] := by decide
  have hcontinue : SubmissionKind.continue.text.toList =
      ['C', 'o', 'n', 't', 'i', 'n', 'u', 'e'] := by decide
  simp [hzero, hleave, hcontinue] at hletter

theorem stepKey_inj {hand : Hand} {address address' : String} {kind kind' : SubmissionKind × Nat × Nat}
    (hkind : kind ∈ stepKinds hand) (hkind' : kind' ∈ stepKinds hand)
    (h : stepKey hand address kind = stepKey hand address' kind') : address = address' := by
  unfold stepKinds at hkind hkind'
  unfold stepKey handKey at h
  cases hphase : hand.phase with
  | commit | reveal | betting =>
      rw [hphase] at hkind hkind'
      have hsame := List.mem_singleton.mp hkind
      have hsame' := List.mem_singleton.mp hkind'
      rw [hsame, hsame'] at h
      exact inboxKey_inj h
  | «continue» =>
      rw [hphase] at hkind hkind'
      cases List.mem_pair.mp hkind with
      | inl hleave =>
          cases List.mem_pair.mp hkind' with
          | inl hleave' =>
              rw [hleave, hleave'] at h
              exact inboxKey_inj h
          | inr hcontinue' =>
              rw [hleave, hcontinue'] at h
              exact absurd h (leaveKey_ne_continueKey _ _ _ _)
      | inr hcontinue =>
          cases List.mem_pair.mp hkind' with
          | inl hleave' =>
              rw [hcontinue, hleave'] at h
              exact absurd h.symm (leaveKey_ne_continueKey _ _ _ _)
          | inr hcontinue' =>
              rw [hcontinue, hcontinue'] at h
              exact inboxKey_inj h
  | unknown | «show» | settling =>
      rw [hphase] at hkind
      cases hkind

/-- Whether a player has answered depends on the keys of the player. -/
theorem answered_congr (native : Native) {hand : Hand} {inbox inbox' : OrderedMap String Submission}
    {player : Player}
    (h : ∀ kind ∈ stepKinds hand,
      inbox[stepKey hand player.address kind]? = inbox'[stepKey hand player.address kind]?) :
    answered native hand inbox player = answered native hand inbox' player := by
  unfold stepKinds at h
  unfold answered peekMessage hasMessage
  cases hphase : hand.phase with
  | commit | reveal | betting =>
      rw [hphase] at h
      have hkey := h _ (List.mem_singleton_self _)
      unfold stepKey at hkey
      dsimp only at hkey ⊢
      rw [hkey]
  | «continue» =>
      rw [hphase] at h
      have hleave := h _ (List.mem_pair.mpr (.inl rfl))
      have hcontinue := h _ (List.mem_pair.mpr (.inr rfl))
      unfold stepKey at hleave hcontinue
      dsimp only at hleave hcontinue ⊢
      rw [Std.ExtTreeMap.contains_eq_isSome_getElem?, Std.ExtTreeMap.contains_eq_isSome_getElem?,
        hleave, hcontinue]
  | unknown | «show» | settling => rfl

/-! ## 3. Answers -/

/-- A message with the session it comes from. -/
structure Arrival where
  session : Session
  message : Submission
deriving DecidableEq

namespace Arrival

def key (arrival : Arrival) : String :=
  inboxKey arrival.session.table arrival.message.handId arrival.session.address arrival.message.kind
    arrival.message.round arrival.message.epoch

def entry (arrival : Arrival) : String × Submission := (arrival.key, arrival.message)

/-- `submission_error` has no objection. -/
def accepted (env : Env) (native : Native) (s : HandState) (arrival : Arrival) : Bool :=
  match submissionError env native [s.hand] arrival.session arrival.message s with
  | .ok error _ => error = ""
  | .error _ _ => false

end Arrival

/-- The player of the hand with an address. -/
def playerAt (hand : Hand) (address : String) : Player :=
  hand.players.getD (findPlayerIndex hand address) {}

/-- `valid_submission` without the hands shown, for which the contract is asked. -/
def validAnswer (native : Native) (hand : Hand) (player : Player) (message : Submission) : Bool :=
  match message.kind with
  | .commit => validCommit message
  | .reveal => validReveal native hand player hand.round message
  | .action => validAction hand player (currentBet hand) message
  | .continue => validContinuation hand player message
  | _ => true

/-- A message that answers the step of a hand. -/
structure IsAnswer (native : Native) (hand : Hand) (address : String) (message : Submission) : Prop where
  handId : message.handId = hand.handId
  found : findPlayerIndex hand address ≠ hand.players.length
  expected : expectedSubmission hand (playerAt hand address) message = true
  valid : validAnswer native hand (playerAt hand address) message = true

section Answers

variable {native : Native} {hand : Hand} {address : String} {message : Submission}

theorem kind_ne_show {player : Player} (hstep : hand.phase.isStep)
    (h : expectedSubmission hand player message) : message.kind ≠ .show := by
  intro hkind
  unfold expectedSubmission at h
  rw [hkind] at h
  simp only [Bool.and_eq_true, decide_eq_true_eq] at h
  rw [h.1.1.1] at hstep
  cases hstep

theorem validSubmission_eq {σ : Type} [Counts σ] (env : Env) {player : Player}
    (hkind : message.kind ≠ .show) :
    (validSubmission env native hand player message : EStateM Exit σ Bool) =
      pure (validAnswer native hand player message) := by
  unfold validSubmission validAnswer
  cases h : message.kind with
  | «show» => exact absurd h hkind
  | _ => rfl

theorem objection_ne (text : String) : "message `" ++ text ≠ "" := by
  intro h
  have hlength := congrArg String.length h
  rw [String.length_append] at hlength
  have hprefix : "message `".length = 9 := by decide
  have hempty : "".length = 0 := by decide
  omega

theorem objects_iff {σ : Type} {error : String} {s t : σ} {P : Prop} (herror : error ≠ "")
    (hP : ¬P) : (pure error : EStateM Exit σ String) s = .ok "" t ↔ P := by
  constructor
  · intro h
    injection h with hvalue _
    exact absurd hvalue herror
  · exact fun h ↦ absurd h hP

/-- In a step `submission_error` leaves the state alone and accepts the answers. -/
theorem submissionError_iff {σ : Type} [Counts σ] (env : Env) {hands : List Hand} {session : Session}
    {s t : σ} (hstep : (hands.getD (findHandIndex hands session.table) {}).phase.isStep) :
    (submissionError env native hands session message : EStateM Exit σ String) s = .ok "" t ↔
      t = s ∧ findHandIndex hands session.table ≠ hands.length ∧
        IsAnswer native (hands.getD (findHandIndex hands session.table) {}) session.address
          message := by
  unfold submissionError
  dsimp only
  -- `submission_error` asks one question after the other, and the answers are accepted where none objects
  generalize hands.getD (findHandIndex hands session.table) {} = hand at hstep
  by_cases hindex : findHandIndex hands session.table = hands.length
  case pos =>
    rw [if_pos hindex]
    exact objects_iff (by decide) fun h ↦ h.2.1 hindex
  case neg =>
    rw [if_neg hindex]
    by_cases hid : message.handId = hand.handId
    case neg =>
      rw [if_pos hid]
      exact objects_iff (by decide) fun h ↦ hid h.2.2.handId
    case pos =>
      rw [if_neg (not_not_intro hid)]
      by_cases hplayer : findPlayerIndex hand session.address = hand.players.length
      case pos =>
        rw [if_pos hplayer]
        exact objects_iff (by decide) fun h ↦ h.2.2.found hplayer
      case neg =>
        rw [if_neg hplayer]
        show (if !expectedSubmission hand (playerAt hand session.address) message then _ else _ :
          EStateM Exit σ String) s = _ ↔ _
        cases hexpected : expectedSubmission hand (playerAt hand session.address) message with
        | false =>
            rw [if_pos (by decide), String.append_assoc, String.append_assoc]
            exact objects_iff (objection_ne _) fun h ↦ Bool.noConfusion (hexpected.symm.trans h.2.2.expected)
        | true =>
            have hvalid : (validSubmission env native hand (playerAt hand session.address) message :
                EStateM Exit σ Bool) = pure (validAnswer native hand (playerAt hand session.address)
                  message) := validSubmission_eq env (kind_ne_show hstep hexpected)
            rw [if_neg (by decide)]
            show ((validSubmission env native hand (playerAt hand session.address) message >>= fun valid ↦
              if !valid then _ else _) : EStateM Exit σ String) s = _ ↔ _
            rw [hvalid, pure_bind]
            cases hanswer : validAnswer native hand (playerAt hand session.address) message with
            | false =>
                rw [if_pos (by decide), String.append_assoc]
                exact objects_iff (objection_ne _) fun h ↦ Bool.noConfusion (hanswer.symm.trans h.2.2.valid)
            | true =>
                rw [if_neg (by decide)]
                constructor
                · intro h
                  injection h with _ hstate
                  exact ⟨hstate.symm, hindex, hid, hplayer, hexpected, hanswer⟩
                · intro h
                  rw [h.1]
                  rfl

theorem IsAnswer.kind_mem (hstep : hand.phase.isStep) (h : IsAnswer native hand address message) :
    (message.kind, message.round, message.epoch) ∈ stepKinds hand := by
  have hexpected := h.expected
  unfold expectedSubmission at hexpected
  unfold stepKinds
  cases hkind : message.kind with
  | commit =>
      simp only [hkind, Bool.and_eq_true, decide_eq_true_eq] at hexpected
      have ⟨⟨hphase, hround⟩, hepoch⟩ := hexpected
      rw [hphase, hround, hepoch]
      exact List.mem_singleton_self _
  | reveal =>
      simp only [hkind, Bool.and_eq_true, decide_eq_true_eq] at hexpected
      have ⟨⟨⟨hphase, hround⟩, hepoch⟩, _⟩ := hexpected
      rw [hphase, hround, hepoch]
      exact List.mem_singleton_self _
  | action =>
      simp only [hkind, Bool.and_eq_true, decide_eq_true_eq] at hexpected
      have ⟨⟨⟨⟨⟨hphase, hround⟩, hepoch⟩, _⟩, _⟩, _⟩ := hexpected
      rw [hphase, hround, hepoch]
      exact List.mem_singleton_self _
  | «continue» =>
      simp only [hkind, Bool.and_eq_true, decide_eq_true_eq] at hexpected
      have ⟨⟨⟨hphase, hround⟩, hepoch⟩, _⟩ := hexpected
      rw [hphase, hround, hepoch]
      exact List.mem_pair.mpr (.inr rfl)
  | leave =>
      simp only [hkind, Bool.and_eq_true, decide_eq_true_eq] at hexpected
      have ⟨⟨hphase, hround⟩, hepoch⟩ := hexpected
      rw [hphase, hround, hepoch]
      exact List.mem_pair.mpr (.inl rfl)
  | «show» => exact absurd hkind (kind_ne_show hstep h.expected)
  | muck =>
      simp only [hkind, Bool.and_eq_true, decide_eq_true_eq] at hexpected
      rw [hexpected.1.1.1] at hstep
      cases hstep
  | unknown | auth | subscribe =>
      rw [hkind] at hexpected
      cases hexpected

/-- The key under which an answer waits. -/
theorem Arrival.key_eq {arrival : Arrival} (htable : hand.table = arrival.session.table)
    (h : IsAnswer native hand arrival.session.address arrival.message) :
    arrival.key = stepKey hand arrival.session.address
      (arrival.message.kind, arrival.message.round, arrival.message.epoch) := by
  unfold Arrival.key stepKey handKey
  rw [htable, h.handId]

/-- A player whose answer is in the inbox has answered. -/
theorem IsAnswer.answered {inbox : OrderedMap String Submission} (hstep : hand.phase.isStep)
    (h : IsAnswer native hand address message) (haddress : (playerAt hand address).address = address)
    (hinbox : inbox[stepKey hand address (message.kind, message.round, message.epoch)]? =
      some message) : answered native hand inbox (playerAt hand address) = true := by
  have hmem := h.kind_mem hstep
  have hvalid := h.valid
  unfold stepKinds at hmem
  unfold validAnswer at hvalid
  unfold stepKey at hinbox
  unfold Poker.answered peekMessage hasMessage
  rw [haddress]
  cases hphase : hand.phase with
  | commit | reveal | betting =>
      rw [hphase] at hmem
      have hsame := List.mem_singleton.mp hmem
      rw [hsame] at hinbox
      rw [(Prod.mk.inj hsame).1] at hvalid
      dsimp only at hinbox ⊢
      rw [hinbox]
      exact hvalid
  | «continue» =>
      rw [hphase] at hmem
      dsimp only
      cases List.mem_pair.mp hmem with
      | inl hleave =>
          rw [hleave] at hinbox
          dsimp only at hinbox
          rw [Std.ExtTreeMap.contains_eq_isSome_getElem?, hinbox]
          rfl
      | inr hcontinue =>
          rw [hcontinue] at hinbox
          rw [(Prod.mk.inj hcontinue).1] at hvalid
          dsimp only at hinbox
          rw [hinbox]
          exact Bool.or_eq_true_iff.mpr (.inr hvalid)
  | unknown | «show» | settling =>
      rw [hphase] at hstep
      cases hstep

end Answers

/-! ## 4. Interleavings -/

/-- What happens to a hand: a message arrives, or `tick_hands` advances the hand. -/
inductive StepEvent
  | arrives (arrival : Arrival)
  | tick (chain : ChainState) (now : Nat)

def stepOn (env : Env) (native : Native) (s : HandState) : StepEvent → HandState
  | .arrives arrival => { s with inbox := s.inbox.insert arrival.key arrival.message }
  | .tick chain now =>
      match advanceHand env native chain now s with
      | .ok _ t => t
      | .error _ t => t

/-- A message is accepted when it arrives, and the deadline has not passed at a tick. -/
def Admits (env : Env) (native : Native) (s : HandState) : StepEvent → Prop
  | .arrives arrival => arrival.accepted env native s = true
  | .tick _ now => now < s.hand.deadline

def StepEvent.arrival? : StepEvent → Option Arrival
  | .arrives arrival => some arrival
  | .tick .. => none

instance (env : Env) (native : Native) (s : HandState) (event : StepEvent) :
    Decidable (Admits env native s event) :=
  match event with
  | .arrives arrival => inferInstanceAs (Decidable (arrival.accepted env native s = true))
  | .tick _ now => inferInstanceAs (Decidable (now < s.hand.deadline))

def arrivals (events : List StepEvent) : List Arrival := events.filterMap StepEvent.arrival?

/-- Everybody whose answer was missing at the start has sent a message. -/
def AllArrived (native : Native) (s : HandState) (arrived : List Arrival) : Prop :=
  ∀ player ∈ s.hand.players, expects s.hand player →
    answered native s.hand s.inbox player ∨
      ∃ arrival ∈ arrived, arrival.session.address = player.address

instance (native : Native) (s : HandState) (arrived : List Arrival) :
    Decidable (AllArrived native s arrived) :=
  inferInstanceAs (Decidable (∀ player ∈ s.hand.players, expects s.hand player →
    answered native s.hand s.inbox player ∨
      ∃ arrival ∈ arrived, arrival.session.address = player.address))

/-- A run in which the ticks come before the last message that is missing. -/
structure Waiting (env : Env) (native : Native) (s : HandState) (events : List StepEvent) : Prop where
  admitted : Meets (stepOn env native) (Admits env native) s events
  early : ∀ k chain now, events[k]? = some (.tick chain now) →
    ¬AllArrived native s (arrivals (events.take k))

/-- The messages of all players have arrived, one of each, in some order among the ticks. -/
structure Interleaving (env : Env) (native : Native) (s : HandState) (events : List StepEvent) : Prop
    extends Waiting env native s events where
  once : ((arrivals events).map fun arrival ↦ arrival.session.address).Nodup
  complete : AllArrived native s (arrivals events)

def HandState.receives (s : HandState) (arrived : List Arrival) : HandState :=
  { s with inbox := s.inbox.insertMany (arrived.map Arrival.entry) }

/-- The message answers the step of the hand at its table. -/
def Arrival.Answers (native : Native) (hand : Hand) (arrival : Arrival) : Prop :=
  hand.table = arrival.session.table ∧
    IsAnswer native hand arrival.session.address arrival.message

section Interleavings

variable {env : Env} {native : Native} {s : HandState}

theorem Arrival.accepted_iff {arrival : Arrival} (hstep : s.hand.phase.isStep) :
    arrival.accepted env native s ↔ arrival.Answers native s.hand := by
  unfold Arrival.accepted
  by_cases htable : s.hand.table = arrival.session.table
  case pos =>
    have hindex : findHandIndex [s.hand] arrival.session.table = 0 := by
      simp [findHandIndex, List.findIdx_cons, htable]
    have hiff (t : HandState) : submissionError env native [s.hand] arrival.session arrival.message s =
        .ok "" t ↔ _ := submissionError_iff env (by rwa [hindex])
    rw [hindex] at hiff
    constructor
    · intro h
      cases hr : submissionError env native [s.hand] arrival.session arrival.message s with
      | ok error t =>
          rw [hr] at h
          have hempty : error = "" := of_decide_eq_true h
          rw [hempty] at hr
          exact ⟨htable, ((hiff t).mp hr).2.2⟩
      | error e t =>
          rw [hr] at h
          cases h
    · intro h
      rw [(hiff s).mpr ⟨rfl, Nat.zero_ne_one, h.2⟩]
      rfl
  case neg =>
    have hindex : findHandIndex [s.hand] arrival.session.table = 1 := by
      simp [findHandIndex, List.findIdx_cons, htable]
    have hr : submissionError env native [s.hand] arrival.session arrival.message s =
        .ok "the table has no active dealer hand" s := by
      unfold submissionError
      rw [hindex]
      rfl
    rw [hr]
    exact ⟨fun h ↦ absurd (of_decide_eq_true h) (by decide), fun h ↦ absurd h.1 htable⟩

theorem HandState.receives_append (s : HandState) (arrived : List Arrival) (arrival : Arrival) :
    s.receives (arrived ++ [arrival]) = { s.receives arrived with
      inbox := (s.receives arrived).inbox.insert arrival.key arrival.message } := by
  unfold HandState.receives
  rw [List.map_append, Std.ExtTreeMap.insertMany_append, List.map_singleton, Arrival.entry,
    Std.ExtTreeMap.insertMany_list_singleton]

theorem arrivals_append (events more : List StepEvent) :
    arrivals (events ++ more) = arrivals events ++ arrivals more := List.filterMap_append

/-- The message of another player is under another key. -/
theorem key_not_mem {arrived : List Arrival} {address : String} {kind : SubmissionKind × Nat × Nat}
    (hstep : s.hand.phase.isStep) (hanswers : ∀ arrival ∈ arrived, arrival.Answers native s.hand)
    (habsent : ∀ arrival ∈ arrived, arrival.session.address ≠ address)
    (hkind : kind ∈ stepKinds s.hand) :
    stepKey s.hand address kind ∉ (arrived.map Arrival.entry).map Prod.fst := by
  intro hmem
  rw [List.map_map] at hmem
  have ⟨arrival, harrival, hkey⟩ := List.mem_map.mp hmem
  have ⟨htable, hanswer⟩ := hanswers arrival harrival
  have hsame := (Arrival.key_eq htable hanswer).symm.trans hkey
  exact habsent arrival harrival (stepKey_inj (hanswer.kind_mem hstep) hkind hsame)

/-- As long as somebody's message is missing, the step is not ready. -/
theorem not_ready {arrived : List Arrival} (hstep : s.hand.phase.isStep)
    (hanswers : ∀ arrival ∈ arrived, arrival.Answers native s.hand)
    (hmissing : ¬AllArrived native s arrived) :
    stepReady native (s.receives arrived).hand (s.receives arrived).inbox = false := by
  show stepReady native s.hand _ = false
  unfold AllArrived at hmissing
  push Not at hmissing
  have ⟨player, hplayer, hexpects, hunanswered, habsent⟩ := hmissing
  have hsame : answered native s.hand (s.receives arrived).inbox player =
      answered native s.hand s.inbox player :=
    answered_congr native fun kind hkind ↦ OrderedMap.getElem?_insertMany_of_not_mem s.inbox
      (key_not_mem hstep hanswers habsent hkind)
  apply Bool.eq_false_iff.mpr
  intro hready
  have hthis := List.all_eq_true.mp hready player hplayer
  rw [hsame, hexpects, Bool.eq_false_iff.mpr hunanswered] at hthis
  cases hthis

theorem Waiting.initial {events more : List StepEvent} (h : Waiting env native s (events ++ more)) :
    Waiting env native s events where
  admitted := (meets_append.mp h.admitted).1
  early k chain now htick := by
    have hk := (List.getElem?_eq_some_iff.mp htick).1
    have hmissing := h.early k chain now (by rw [List.getElem?_append_left hk, htick])
    rwa [List.take_append_of_le_length (Nat.le_of_lt hk)] at hmissing

/-- While the hand waits, the messages gather in the inbox and nothing else changes. -/
theorem Waiting.run {events : List StepEvent} (hstep : s.hand.phase.isStep)
    (h : Waiting env native s events) :
    run (stepOn env native) s events = s.receives (arrivals events) ∧
      ∀ arrival ∈ arrivals events, arrival.Answers native s.hand := by
  induction events using List.reverseRecOn with
  | nil =>
      constructor
      · show s = { s with inbox := s.inbox.insertMany [] }
        rw [Std.ExtTreeMap.insertMany_nil]
      · exact fun _ h ↦ nomatch h
  | append_singleton earlier event ih =>
      have ⟨hrun, hanswers⟩ := ih h.initial
      have hadmits := (meets_append.mp h.admitted).2.1
      rw [run_append, arrivals_append, hrun]
      rw [hrun] at hadmits
      cases event with
      | arrives arrival =>
          have hanswer := (Arrival.accepted_iff (s := s.receives (arrivals earlier)) hstep).mp hadmits
          constructor
          · exact (s.receives_append _ _).symm
          · intro other hother
            cases List.mem_append.mp hother with
            | inl hearlier => exact hanswers other hearlier
            | inr hlast =>
                rw [List.mem_singleton.mp hlast]
                exact hanswer
      -- a tick before the deadline that misses an answer returns without a change
      | tick chain now =>
          have hmissing := h.early earlier.length chain now (List.getElem?_concat_length ..)
          rw [List.take_left] at hmissing
          have hunready := not_ready hstep hanswers hmissing
          have hwaits := (advanceHand_closes (s := s.receives (arrivals earlier)) env native chain hstep
            hadmits).1 hunready
          have hnone : arrivals [.tick chain now] = [] := rfl
          rw [hnone, List.append_nil]
          constructor
          · show (match advanceHand env native chain now (s.receives (arrivals earlier)) with
              | .ok _ t => t
              | .error _ t => t) = _
            rw [hwaits]
          · exact hanswers

end Interleavings

/-! ## 5. The dealer's steps -/

section Steps

variable (env : Env) (native : Native)

/-- A tick of the dealer is a tick of each hand. -/
theorem onHand_tick (chain : ChainState) (now : Nat) {d : Dealer} {i : Nat} {hand : Hand}
    (hhand : d.hands[i]? = some hand) :
    After d (onHand i (advanceHand env native chain now)) fun _ t ↦
      ∃ u, u = stepOn env native ⟨d.operations, hand, d.inbox⟩ (.tick chain now) ∧
        t.hands = d.hands.set i u.hand ∧ t.inbox = u.inbox := by
  unfold After onHand stepOn
  rw [hhand]
  dsimp only
  cases advanceHand env native chain now ⟨d.operations, hand, d.inbox⟩ with
  | ok advanced u => exact ⟨u, rfl, rfl, rfl⟩
  | error e u => exact ⟨u, rfl, rfl, rfl⟩

/-- Nothing reaches the inbox but an accepted message, as it arrives at the hand. -/
def Delivers (d : Dealer) (hand : Hand) (arrival : Arrival) (t : Dealer) : Prop :=
  t.hands = d.hands ∧ (t.inbox = d.inbox ∨
    arrival.accepted env native ⟨d.operations, hand, d.inbox⟩ ∧
      t.inbox = (stepOn env native ⟨d.operations, hand, d.inbox⟩ (.arrives arrival)).inbox)

variable {env native} {d : Dealer} {hand : Hand} {arrival : Arrival}

theorem Delivers.of_counted {t : Dealer} (h : Counted d t) : Delivers env native d hand arrival t := by
  rw [h.dealer]
  exact ⟨rfl, .inl rfl⟩

theorem acceptSubmission_delivers
    (haccepted : arrival.accepted env native ⟨d.operations, hand, d.inbox⟩) :
    After d (acceptSubmission env native arrival.session arrival.message) fun _ t ↦
      Delivers env native d hand arrival t := by
  apply After.bind
  apply (counted_validateSignedSubmission env native arrival.session arrival.message d).mono
  intro r t hcounted
  cases r with
  | error e => exact Delivers.of_counted hcounted
  | ok valid =>
      apply After.ite
      case hneg => exact fun _ ↦ After.pure (Delivers.of_counted hcounted)
      case hpos =>
        intro _
        rw [hcounted.dealer]
        exact ⟨rfl, .inr ⟨haccepted, rfl⟩⟩

theorem dispatchMessage_delivers
    (hhand : d.hands[findHandIndex d.hands arrival.session.table]? = some hand)
    (hstep : hand.phase.isStep) :
    After d (dispatchMessage env native arrival.session arrival.message) fun _ t ↦
      Delivers env native d hand arrival t := by
  have hfound : d.hands.getD (findHandIndex d.hands arrival.session.table) {} = hand := by
    rw [List.getD_eq_getElem?_getD, hhand]
    rfl
  apply After.ite
  case hneg => exact fun _ ↦ After.pure (Delivers.of_counted (Counted.frame.refl d))
  case hpos =>
    intro _
    apply After.read
    apply After.bind
    have hcounted := counted_submissionError (σ := Dealer) env native d.hands arrival.session
      arrival.message d
    apply After.intro
    · intro error t hr
      have hsame := hcounted.ok hr
      apply After.ite
      case hneg => exact fun _ ↦ After.pure (Delivers.of_counted hsame)
      case hpos =>
        intro h
        rw [h.1] at hr
        have ⟨hstate, _, hanswer⟩ := (submissionError_iff env (by rwa [hfound])).mp hr
        rw [hfound] at hanswer
        have ⟨hindex, helem⟩ := List.getElem?_eq_some_iff.mp hhand
        have htable : d.hands[findHandIndex d.hands arrival.session.table].table =
            arrival.session.table := of_decide_eq_true (List.findIdx_getElem (w := hindex))
        rw [helem] at htable
        rw [hstate]
        exact acceptSubmission_delivers ((Arrival.accepted_iff hstep).mpr ⟨htable, hanswer⟩)
    · intro e t hr
      exact Delivers.of_counted (hcounted.error hr)

end Steps

/-! ## 6. The tick that closes the step -/

/-- A hand without what depends on when it was advanced. -/
def HandState.timeless (s : HandState) : HandState :=
  { s with hand := { s.hand with deadline := 0, settlementHeight := none } }

section Timeless

variable {s : HandState}

theorem alike_updateHand {f g : Hand → Hand} (h : ∀ s : HandState,
    ({ s with hand := f s.hand } : HandState).timeless =
      ({ s with hand := g s.hand } : HandState).timeless) :
    Alike HandState.timeless s (updateHand f) (updateHand g) :=
  Alike.modify (h s)

theorem alike_beginContinue (now now' : Nat) :
    Alike HandState.timeless s (beginContinue now) (beginContinue now') := by
  apply Alike.bind
  intro _ t
  exact alike_updateHand fun _ ↦ rfl

theorem alike_afterBettingOrReveal (now now' : Nat) :
    Alike HandState.timeless s (afterBettingOrReveal now) (afterBettingOrReveal now') := by
  apply Alike.read
  apply Alike.ite
  · exact alike_beginContinue now now'
  · apply Alike.ite
    · exact alike_updateHand fun _ ↦ rfl
    · exact alike_updateHand fun _ ↦ rfl

theorem alike_afterReveal (now now' : Nat) :
    Alike HandState.timeless s (afterReveal now) (afterReveal now') := by
  apply Alike.read
  apply Alike.ite
  · exact alike_updateHand fun _ ↦ rfl
  · exact alike_afterBettingOrReveal now now'

theorem alike_afterEpoch (now now' : Nat) :
    Alike HandState.timeless s (afterEpoch now) (afterEpoch now') := by
  apply Alike.read
  apply Alike.ite
  · exact alike_afterBettingOrReveal now now'
  · apply Alike.bind
    intro _ t
    exact alike_updateHand fun _ ↦ rfl

theorem alike_submitSettlement (env : Env) (height height' : Nat) :
    Alike HandState.timeless s (submitSettlement env height) (submitSettlement env height') := by
  apply Alike.read
  apply Alike.bind
  intro _ t
  exact alike_updateHand fun _ ↦ rfl

theorem alike_unlessWaits {ready : Bool} {now now' : Nat} {body body' : HandM Bool}
    (hnow : now < s.hand.deadline) (hnow' : now' < s.hand.deadline)
    (h : Alike HandState.timeless s body body') :
    Alike HandState.timeless s (if waits ready now s.hand then return false else body)
      (if waits ready now' s.hand then return false else body') := by
  unfold waits
  rw [decide_eq_true hnow, decide_eq_true hnow']
  exact Alike.ite (Alike.refl _) h

/-- The time of a tick before the deadline shows in the new deadline and the height of the settlement
only. -/
theorem alike_advanceHand (env : Env) (native : Native) (chain chain' : ChainState) {now now' : Nat}
    (hstep : s.hand.phase.isStep) (hnow : now < s.hand.deadline) (hnow' : now' < s.hand.deadline) :
    Alike HandState.timeless s (advanceHand env native chain now)
      (advanceHand env native chain' now') := by
  unfold Alike
  rw [advanceHand_eq, advanceHand_eq]
  -- where the call waits it changes nothing, else its turns are the same and the deadline comes last
  cases hphase : s.hand.phase with
  | commit =>
      show Alike HandState.timeless s (advanceCommit native now) (advanceCommit native now')
      apply Alike.read
      apply alike_unlessWaits hnow hnow'
      apply Alike.bind
      intro _ t
      exact (alike_afterBettingOrReveal now now').value true
  | reveal =>
      show Alike HandState.timeless s (advanceReveal native now) (advanceReveal native now')
      apply Alike.read
      apply alike_unlessWaits hnow hnow'
      apply Alike.bind
      intro _ t
      apply Alike.bind
      intro _ u
      apply Alike.bind
      intro _ v
      exact (alike_afterReveal now now').value true
  | betting =>
      show Alike HandState.timeless s (advanceBetting native now) (advanceBetting native now')
      apply Alike.read
      apply alike_unlessWaits hnow hnow'
      apply Alike.bind
      intro _ t
      apply Alike.bind
      intro _ u
      apply Alike.bind
      intro _ v
      exact (alike_afterEpoch now now').value true
  | «continue» =>
      show Alike HandState.timeless s (advanceContinue env chain now) (advanceContinue env chain' now')
      apply Alike.read
      apply alike_unlessWaits hnow hnow'
      apply Alike.bind
      intro _ t
      exact (alike_submitSettlement env chain.height chain'.height).value true
  | unknown | «show» | settling =>
      apply absurd hstep
      rw [hphase]
      decide

end Timeless

/-! ## 7. Two runs -/

section TwoRuns

variable {env : Env} {native : Native} {s : HandState}

theorem playerAt_eq {hand : Hand} {player : Player}
    (hunique : (hand.players.map Player.address).Nodup) (h : player ∈ hand.players) :
    playerAt hand player.address = player := by
  have hindex : findPlayerIndex hand player.address < hand.players.length :=
    List.findIdx_lt_length_of_exists ⟨player, h, decide_eq_true rfl⟩
  have hfound : playerAt hand player.address = hand.players[findPlayerIndex hand player.address] := by
    unfold playerAt
    rw [List.getD_eq_getElem?_getD, List.getElem?_eq_getElem hindex]
    rfl
  have haddress := of_decide_eq_true (List.findIdx_getElem (w := hindex))
  rw [hfound]
  exact List.inj_on_of_nodup_map hunique (List.getElem_mem hindex) h haddress

theorem keys_nodup {arrived : List Arrival} (hstep : s.hand.phase.isStep)
    (hanswers : ∀ arrival ∈ arrived, arrival.Answers native s.hand)
    (honce : (arrived.map fun arrival ↦ arrival.session.address).Nodup) :
    ((arrived.map Arrival.entry).map Prod.fst).Nodup := by
  rw [List.map_map]
  apply List.pairwise_map.mpr
  apply (List.pairwise_map.mp honce).imp_of_mem
  intro arrival other harrival hother hne hkey
  have ⟨htable, hanswer⟩ := hanswers arrival harrival
  have ⟨htable', hanswer'⟩ := hanswers other hother
  have hsame := (Arrival.key_eq htable hanswer).symm.trans (hkey.trans (Arrival.key_eq htable' hanswer'))
  exact hne (stepKey_inj (hanswer.kind_mem hstep) (hanswer'.kind_mem hstep) hsame)

/-- Once everybody has answered, the step is ready. -/
theorem stepReady_of_allArrived {arrived : List Arrival} (hstep : s.hand.phase.isStep)
    (hunique : (s.hand.players.map Player.address).Nodup)
    (hanswers : ∀ arrival ∈ arrived, arrival.Answers native s.hand)
    (honce : (arrived.map fun arrival ↦ arrival.session.address).Nodup)
    (hall : AllArrived native s arrived) :
    stepReady native (s.receives arrived).hand (s.receives arrived).inbox = true := by
  show stepReady native s.hand _ = true
  apply List.all_eq_true.mpr
  intro player hplayer
  cases hexpects : expects s.hand player with
  | false => rfl
  | true =>
      rw [Bool.not_true, Bool.false_or]
      by_cases hsent : ∃ arrival ∈ arrived, arrival.session.address = player.address
      case pos =>
        have ⟨arrival, harrival, haddress⟩ := hsent
        have ⟨htable, hanswer⟩ := hanswers arrival harrival
        have hfound : playerAt s.hand arrival.session.address = player := by
          rw [haddress]
          exact playerAt_eq hunique hplayer
        have hinbox := OrderedMap.getElem?_insertMany_of_mem s.inbox (keys_nodup hstep hanswers honce)
          (List.mem_map_of_mem (f := Arrival.entry) harrival)
        rw [Arrival.entry, Arrival.key_eq htable hanswer] at hinbox
        have hanswered : answered native s.hand (s.receives arrived).inbox
            (playerAt s.hand arrival.session.address) = true :=
          hanswer.answered hstep (by rw [hfound, haddress]) hinbox
        rwa [hfound] at hanswered
      case neg =>
        have hbefore := (hall player hplayer hexpects).resolve_right hsent
        rw [← hbefore]
        apply answered_congr
        intro kind hkind
        apply OrderedMap.getElem?_insertMany_of_not_mem
        exact key_not_mem hstep hanswers (fun arrival h haddress ↦ hsent ⟨arrival, h, haddress⟩) hkind

/-- The order of the messages does not show in the inbox. -/
theorem receives_perm {first second : List Arrival} (hstep : s.hand.phase.isStep)
    (hanswers : ∀ arrival ∈ first, arrival.Answers native s.hand)
    (honce : (first.map fun arrival ↦ arrival.session.address).Nodup) (hsame : first.Perm second) :
    s.receives first = s.receives second := by
  unfold HandState.receives
  rw [OrderedMap.insertMany_perm s.inbox (hsame.map Arrival.entry) (keys_nodup hstep hanswers honce)]

/-- In what order the messages of a step arrive, and when the hand is advanced in between, does not
matter: no tick changes the hand before the last message that is missing, and the tick after it makes
the same of the hand. -/
theorem arrival_order_irrelevant {first second : List StepEvent} (chain chain' : ChainState)
    {now now' : Nat} (hstep : s.hand.phase.isStep) (hfirst : Interleaving env native s first)
    (hsecond : Interleaving env native s second) (hsame : (arrivals first).Perm (arrivals second))
    (hnow : now < s.hand.deadline) (hnow' : now' < s.hand.deadline) :
    (∀ k, (run (stepOn env native) s (first.take k)).hand = s.hand) ∧
    (∀ k, (run (stepOn env native) s (second.take k)).hand = s.hand) ∧
    observed HandState.timeless
        (advanceHand env native chain now (run (stepOn env native) s first)) =
      observed HandState.timeless
        (advanceHand env native chain' now' (run (stepOn env native) s second)) ∧
    ((s.hand.players.map Player.address).Nodup →
      ∀ t, advanceHand env native chain now (run (stepOn env native) s first) ≠ .ok false t) := by
  have hhand {events : List StepEvent} (h : Interleaving env native s events) (k : Nat) :
      (run (stepOn env native) s (events.take k)).hand = s.hand := by
    have hinitial : Waiting env native s (events.take k ++ events.drop k) := by
      rw [List.take_append_drop]
      exact h.toWaiting
    rw [(hinitial.initial.run hstep).1]
    rfl
  have ⟨hrun, hanswers⟩ := hfirst.run hstep
  have ⟨hrun', _⟩ := hsecond.run hstep
  have heq : s.receives (arrivals first) = s.receives (arrivals second) :=
    receives_perm hstep hanswers hfirst.once hsame
  rw [hrun, hrun', ← heq]
  refine ⟨hhand hfirst, hhand hsecond, ?_, ?_⟩
  case refine_1 =>
    exact alike_advanceHand (s := s.receives (arrivals first)) env native chain chain' hstep hnow hnow'
  case refine_2 =>
    intro hunique
    have hready := stepReady_of_allArrived hstep hunique hanswers hfirst.once hfirst.complete
    exact (advanceHand_closes (s := s.receives (arrivals first)) env native chain hstep hnow).2 hready

end TwoRuns

/-! ## 8. Two players -/

def silentEnv : Env := ⟨.silent, fun _ ↦ .done, fun _ ↦ false, fun _ ↦ 0⟩

/-- An action in the first epoch of `headsUp`. -/
def headsUpAction (address : String) (action : BettingAction) (cumulativeBet : Nat) : StepEvent :=
  .arrives ⟨{ address }, { kind := .action, action, cumulativeBet }⟩

def raiseFirst : List StepEvent :=
  [headsUpAction "A" .betRaise 3, .tick {} 5, headsUpAction "B" .checkCall 1]

def checkFirst : List StepEvent :=
  [.tick {} 7, headsUpAction "B" .checkCall 1, headsUpAction "A" .betRaise 3]

/-- The raise of the first player and the check of the second one, in either order. -/
theorem headsUp_order :
    observed HandState.timeless
        (advanceHand silentEnv plainNative {} 8 (run (stepOn silentEnv plainNative) headsUp raiseFirst)) =
      observed HandState.timeless
        (advanceHand silentEnv plainNative {} 9 (run (stepOn silentEnv plainNative) headsUp checkFirst)) := by
  have hraise : Interleaving silentEnv plainNative headsUp raiseFirst := {
    admitted := by decide +kernel
    early := by
      intro k chain now htick
      match k with
      | 0 | 2 => cases htick
      | 1 => decide +kernel
      | k + 3 => cases htick
    once := by decide
    complete := by decide +kernel }
  have hcheck : Interleaving silentEnv plainNative headsUp checkFirst := {
    admitted := by decide +kernel
    early := by
      intro k chain now htick
      match k with
      | 0 => decide +kernel
      | 1 | 2 => cases htick
      | k + 3 => cases htick
    once := by decide
    complete := by decide +kernel }
  exact (arrival_order_irrelevant {} {} rfl hraise hcheck (List.Perm.swap _ _ _) (by decide)
    (by decide)).2.2.1

end Stainless.Poker
