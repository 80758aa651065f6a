import Stainless.Poker.ArrivalOrder
import Stainless.Poker.HandEpochs
import Stainless.Poker.HandReset
import Stainless.Poker.Preimages

/-!
# The submissions under the betting transcript

An action waits in the inbox under a key that names its table, hand, player, round and epoch.  In a run
in which no action outlives its hand, every entry of the transcript is an action that was accepted while
this hand was played, and that was signed for the checkpoint with which the epoch began.
-/

open Reasoning Stainless.Runtime Stainless.Crypto

namespace Stainless.Poker

/-! ## 1. The history of a hand -/

def Happening.startsAt (table : String) : Happening → Bool
  | .handStarted hand => hand.table = table
  | _ => false

/-- The happenings from the last start of a hand at this table on. -/
def sinceStart (table : String) (journal : List Happening) : List Happening :=
  journal.foldl (fun events h ↦ if h.startsAt table then [h] else events ++ [h]) []

/-- These are the happenings of this hand, from its start on. -/
def beginsWith (hand : Hand) : List Happening → Bool
  | .handStarted started :: _ =>
      started.table = hand.table && started.handId = hand.handId &&
        started.startHeight = hand.startHeight
  | _ => false

/-- The checkpoint with which the hand at a table is in an epoch afterwards. -/
def Happening.checkpointIn (table : String) (round epoch : Nat) : Happening → Option String
  | .handAdvanced _ hand _ =>
      if hand.table = table ∧ hand.InEpoch round epoch then some hand.checkpoint else none
  | _ => none

/-- The checkpoint with which an epoch began. -/
def openingCheckpoint (table : String) (round epoch : Nat) (events : List Happening) :
    Option String :=
  events.findSome? (Happening.checkpointIn table round epoch)

/-- A submission was accepted with the action of an entry, for the current epoch of the hand. -/
def Happening.signs (hand : Hand) (checkpoint : Option String) (entry : BettingEntry) :
    Happening → Bool
  | .submissionAccepted session message =>
      message.kind = .action && session.table = hand.table &&
        session.address = (hand.players.getD entry.player {}).address &&
        message.handId = hand.handId && message.round = hand.round && message.epoch = hand.epoch &&
        some message.checkpoint = checkpoint && message.action = entry.action &&
        message.cumulativeBet = entry.cumulativeBet && message.signature = entry.signature
  | _ => false

/-- The entry was signed in the course of the hand, for the checkpoint with which the epoch began. -/
def signedIn (events : List Happening) (hand : Hand) (entry : BettingEntry) : Bool :=
  beginsWith hand events &&
    events.any (Happening.signs hand (openingCheckpoint hand.table hand.round hand.epoch events) entry)

/-- Every entry of the transcript was signed before it was recorded. -/
def ActionsSigned (journal : List Happening) : Prop :=
  ∀ k before after returned, journal[k]? = some (.handAdvanced before after returned) →
    ∀ entry ∈ newEntries before after,
      signedIn (sinceStart before.table (journal.take k)) before entry = true

theorem sinceStart_append (table : String) (journal : List Happening) (h : Happening) :
    sinceStart table (journal ++ [h]) =
      if h.startsAt table then [h] else sinceStart table journal ++ [h] := by
  unfold sinceStart
  rw [List.foldl_append]
  rfl

theorem ActionsSigned.append {journal : List Happening} {h : Happening} (hj : ActionsSigned journal)
    (hadvance : ∀ before after returned, h = .handAdvanced before after returned →
      ∀ entry ∈ newEntries before after,
        signedIn (sinceStart before.table journal) before entry = true) :
    ActionsSigned (journal ++ [h]) := by
  intro k before after returned hk
  have hlength := (List.getElem?_eq_some_iff.mp hk).1
  rw [List.length_append, List.length_singleton] at hlength
  rw [List.take_append_of_le_length (by omega)]
  by_cases hlast : k < journal.length
  · rw [List.getElem?_append_left hlast] at hk
    exact hj k before after returned hk
  · rw [List.getElem?_append_right (by omega), show k - journal.length = 0 by omega] at hk
    rw [List.take_of_length_le (by omega)]
    exact hadvance before after returned (Option.some.inj hk)

/-! ## 2. Keys -/

theorem kindText_injective {kind kind' : SubmissionKind} (h : kind.text = kind'.text) :
    kind = kind' := by
  revert h
  cases kind <;> cases kind' <;> decide

theorem kindText_free (kind : SubmissionKind) : Free kind.text := by
  cases kind <;> decide

/-- The first separator splits a list in one way. -/
theorem split_unique {α : Type} [DecidableEq α] {separator : α} {l l' r r' : List α}
    (h : separator ∉ l) (h' : separator ∉ l') (heq : l ++ separator :: r = l' ++ separator :: r') :
    l = l' ∧ r = r' := by
  have hindex := congrArg (List.idxOf separator) heq
  rw [List.idxOf_append_of_notMem h, List.idxOf_append_of_notMem h', List.idxOf_cons_self,
    List.idxOf_cons_self] at hindex
  have ⟨hleft, hright⟩ := List.append_inj heq hindex
  exact ⟨hleft, (List.cons.inj hright).2⟩

theorem separator_toList : "/".toList = ['/'] := by decide

/-- The text before the first separator. -/
theorem split_first {text text' rest rest' : String} (hfree : Free text) (hfree' : Free text')
    (h : text ++ "/" ++ rest = text' ++ "/" ++ rest') : text = text' ∧ rest = rest' := by
  have hlists := congrArg String.toList h
  rw [String.append_assoc, String.append_assoc, String.toList_append, String.toList_append,
    String.toList_append, String.toList_append, separator_toList] at hlists
  have ⟨htext, hrest⟩ := split_unique hfree hfree' hlists
  exact ⟨String.toList_inj.mp htext, String.toList_inj.mp hrest⟩

/-- The text after the last separator. -/
theorem split_last {text text' last last' : String} (hfree : Free last) (hfree' : Free last')
    (h : text ++ "/" ++ last = text' ++ "/" ++ last') : text = text' ∧ last = last' := by
  have hlists := congrArg (fun text ↦ text.toList.reverse) h
  simp only [String.toList_append, separator_toList, List.reverse_append, List.reverse_singleton,
    List.singleton_append] at hlists
  have ⟨hlast, htext⟩ := split_unique (mt List.mem_reverse.mp hfree) (mt List.mem_reverse.mp hfree')
    hlists
  exact ⟨String.toList_inj.mp (List.reverse_inj.mp htext),
    String.toList_inj.mp (List.reverse_inj.mp hlast)⟩

/-- A table without a separator in its address shares no key with another one. -/
theorem inboxKey_injective {table table' address address' : String} {handId handId' : Nat}
    {kind kind' : SubmissionKind} {round round' epoch epoch' : Nat} (hfree : Free table)
    (hfree' : Free table') (h : inboxKey table handId address kind round epoch =
      inboxKey table' handId' address' kind' round' epoch') :
    (table = table' ∧ handId = handId' ∧ address = address') ∧ kind = kind' ∧ round = round' ∧
      epoch = epoch' := by
  have ⟨hrest, hepoch⟩ := split_last (decimal_free epoch) (decimal_free epoch') h
  have ⟨hrest, hround⟩ := split_last (decimal_free round) (decimal_free round') hrest
  have ⟨hrest, hkind⟩ := split_last (kindText_free kind) (kindText_free kind') hrest
  have hfields : table ++ "/" ++ (decimal handId ++ "/" ++ address) =
      table' ++ "/" ++ (decimal handId' ++ "/" ++ address') := by
    simpa only [String.append_assoc] using hrest
  have ⟨htable, hfields⟩ := split_first hfree hfree' hfields
  have ⟨hid, haddress⟩ := split_first (decimal_free handId) (decimal_free handId') hfields
  exact ⟨⟨htable, decimal_injective hid, haddress⟩, kindText_injective hkind, decimal_injective hround,
    decimal_injective hepoch⟩

/-! ## 3. The invariant -/

/-- The action was accepted in these events, from a player with this address. -/
def AcceptedFrom (events : List Happening) (table address : String) (message : Submission) : Prop :=
  ∃ session, .submissionAccepted session message ∈ events ∧ session.table = table ∧
    session.address = address

/-- Everything that waits for a hand was accepted while it was played.  An epoch that the hand is in
began with the checkpoint that the actions for it name, and with that of the hand unless the end of the
epoch threw. -/
structure HandAccounted (journal : List Happening) (inbox : OrderedMap String Submission) (hand : Hand) :
    Prop where
  free : Free hand.table
  begins : beginsWith hand (sinceStart hand.table journal) = true
  transcript : hand.HasTranscript
  unreached : ∀ round epoch, ¬hand.Reached round epoch →
    openingCheckpoint hand.table round epoch (sinceStart hand.table journal) = none
  opened : ∀ round epoch, hand.InEpoch round epoch → ∃ checkpoint,
    openingCheckpoint hand.table round epoch (sinceStart hand.table journal) = some checkpoint ∧
      (hand.epochClosed = false → checkpoint = hand.checkpoint)
  accepted : ∀ address round epoch message,
    inbox[handKey hand address .action round epoch]? = some message →
      hand.Reached round epoch ∧
        AcceptedFrom (sinceStart hand.table journal) hand.table address message ∧
        (hand.InEpoch round epoch →
          openingCheckpoint hand.table round epoch (sinceStart hand.table journal) =
            some message.checkpoint)

/-- The messages wait under their keys. -/
def KeysNamed (inbox : OrderedMap String Submission) : Prop :=
  ∀ (key : String) message, inbox[key]? = some message → ∃ table address, Free table ∧
    key = inboxKey table message.handId address message.kind message.round message.epoch

structure Accounted (d : Dealer) : Prop where
  signed : ActionsSigned d.journal
  one : OneHandEach d.hands
  hands : ∀ hand ∈ d.hands, HandAccounted d.journal d.inbox hand
  keys : KeysNamed d.inbox

theorem openingCheckpoint_append (table : String) (round epoch : Nat) (events : List Happening)
    (h : Happening) : openingCheckpoint table round epoch (events ++ [h]) =
      (openingCheckpoint table round epoch events).or (h.checkpointIn table round epoch) := by
  unfold openingCheckpoint
  rw [List.findSome?_append, List.findSome?_singleton]

theorem beginsWith_append {hand : Hand} {events : List Happening} (h : Happening)
    (hbegins : beginsWith hand events = true) : beginsWith hand (events ++ [h]) = true := by
  cases events with
  | nil => exact nomatch hbegins
  | cons first events =>
      cases first with
      | handStarted started => exact hbegins
      | _ => exact nomatch hbegins

theorem beginsWith_congr {s t : HandState} {events : List Happening} (hkeeps : s.Keeps t)
    (hbegins : beginsWith s.hand events = true) : beginsWith t.hand events = true := by
  cases events with
  | nil => exact nomatch hbegins
  | cons first events =>
      cases first with
      | handStarted started =>
          unfold beginsWith
          rw [hkeeps.table, hkeeps.handId, hkeeps.startHeight]
          exact hbegins
      | _ => exact nomatch hbegins

theorem AcceptedFrom.append {events : List Happening} {table address : String} {message : Submission}
    (h : AcceptedFrom events table address message) (last : Happening) :
    AcceptedFrom (events ++ [last]) table address message := by
  have ⟨session, hmem, htable, haddress⟩ := h
  exact ⟨session, List.mem_append_left _ hmem, htable, haddress⟩

theorem KeysNamed.of_subset {inbox inbox' : OrderedMap String Submission} (h : KeysNamed inbox)
    (hsubset : ∀ (key : String) message, inbox'[key]? = some message → inbox[key]? = some message) :
    KeysNamed inbox' :=
  fun key message hmessage ↦ h key message (hsubset key message hmessage)

/-- What the key of an action says about it. -/
theorem KeysNamed.action {inbox : OrderedMap String Submission} (h : KeysNamed inbox) {hand : Hand}
    (hfree : Free hand.table) {address : String} {round epoch : Nat} {message : Submission}
    (hmessage : inbox[handKey hand address .action round epoch]? = some message) :
    message.kind = .action ∧ message.handId = hand.handId ∧ message.round = round ∧
      message.epoch = epoch := by
  have ⟨table, address', hfree', hkey⟩ := h _ message hmessage
  have ⟨⟨_, hid, _⟩, hkind, hround, hepoch⟩ := inboxKey_injective hfree hfree' hkey
  exact ⟨hkind.symm, hid.symm, hround.symm, hepoch.symm⟩

namespace HandAccounted

variable {journal : List Happening} {inbox inbox' : OrderedMap String Submission} {hand : Hand}

/-- What happens elsewhere changes nothing for the hand. -/
theorem append (h : HandAccounted journal inbox hand) {last : Happening}
    (hstarts : last.startsAt hand.table = false)
    (hcheckpoint : ∀ round epoch, last.checkpointIn hand.table round epoch = none)
    (hsubset : ∀ (key : String) message, inbox'[key]? = some message → inbox[key]? = some message) :
    HandAccounted (journal ++ [last]) inbox' hand := by
  have hsince : sinceStart hand.table (journal ++ [last]) = sinceStart hand.table journal ++ [last] := by
    rw [sinceStart_append, hstarts]
    rfl
  have hopening (round epoch : Nat) :
      openingCheckpoint hand.table round epoch (sinceStart hand.table journal ++ [last]) =
        openingCheckpoint hand.table round epoch (sinceStart hand.table journal) := by
    rw [openingCheckpoint_append, hcheckpoint, Option.or_none]
  constructor
  case free => exact h.free
  case transcript => exact h.transcript
  case begins =>
    rw [hsince]
    exact beginsWith_append last h.begins
  case unreached =>
    intro round epoch hunreached
    rw [hsince, hopening]
    exact h.unreached round epoch hunreached
  case opened =>
    intro round epoch hepoch
    rw [hsince, hopening]
    exact h.opened round epoch hepoch
  case accepted =>
    intro address round epoch message hmessage
    rw [hsince, hopening]
    have ⟨hreached, haccepted, hsigned⟩ := h.accepted address round epoch message (hsubset _ _ hmessage)
    exact ⟨hreached, haccepted.append last, hsigned⟩

/-- The hand that takes a step. -/
theorem step {s t : HandState} (h : HandAccounted journal s.inbox s.hand) (hkeeps : s.Keeps t)
    (hsteps : StepsOn s t) (returned : Bool) :
    HandAccounted (journal ++ [.handAdvanced s.hand t.hand returned]) t.inbox t.hand := by
  have ⟨hgoes, hrecords⟩ := hsteps
  have hsince : sinceStart t.hand.table (journal ++ [.handAdvanced s.hand t.hand returned]) =
      sinceStart s.hand.table journal ++ [.handAdvanced s.hand t.hand returned] := by
    rw [sinceStart_append, hkeeps.table]
    rfl
  have hkey (address : String) (round epoch : Nat) :
      handKey t.hand address .action round epoch = handKey s.hand address .action round epoch := by
    unfold handKey
    rw [hkeeps.table, hkeeps.handId]
  -- an epoch keeps the checkpoint with which it began
  have hopening {round epoch : Nat} {checkpoint : String}
      (hcheckpoint : openingCheckpoint s.hand.table round epoch (sinceStart s.hand.table journal) =
        some checkpoint) :
      openingCheckpoint t.hand.table round epoch (sinceStart s.hand.table journal ++
        [.handAdvanced s.hand t.hand returned]) = some checkpoint := by
    rw [openingCheckpoint_append, hkeeps.table, hcheckpoint, Option.some_or]
  have hnew {round epoch : Nat} (hunreached : ¬s.hand.Reached round epoch) :
      openingCheckpoint t.hand.table round epoch (sinceStart s.hand.table journal ++
        [.handAdvanced s.hand t.hand returned]) =
        if t.hand.InEpoch round epoch then some t.hand.checkpoint else none := by
    rw [openingCheckpoint_append, hkeeps.table, h.unreached round epoch hunreached, Option.none_or]
    unfold Happening.checkpointIn
    dsimp only
    rw [hkeeps.table]
    by_cases hepoch : t.hand.InEpoch round epoch
    · rw [if_pos ⟨rfl, hepoch⟩, if_pos hepoch]
    · rw [if_neg fun hboth ↦ hepoch hboth.2, if_neg hepoch]
  constructor
  case free => exact hkeeps.table ▸ h.free
  case transcript => exact hrecords.transcript hgoes h.transcript
  case begins =>
    rw [hsince]
    apply beginsWith_append
    exact beginsWith_congr hkeeps h.begins
  case unreached =>
    intro round epoch hunreached
    have hepoch : ¬t.hand.InEpoch round epoch := fun hepoch ↦ hunreached hepoch.reached
    rw [hsince, hnew fun hreached ↦ hunreached (hgoes.reached hreached), if_neg hepoch]
  case opened =>
    intro round epoch hepoch
    rw [hsince]
    rcases hgoes.inEpoch hepoch with hbefore | hunreached
    · have ⟨checkpoint, hcheckpoint, hsame⟩ := h.opened round epoch hbefore
      refine ⟨checkpoint, hopening hcheckpoint, fun hopen ↦ ?_⟩
      have hround : t.hand.round = s.hand.round := hepoch.2.1.trans hbefore.2.1.symm
      have hnumber : t.hand.epoch = s.hand.epoch := hepoch.2.2.trans hbefore.2.2.symm
      rcases hrecords.sameEpoch h.transcript hbefore.1 hround hnumber with heq | hclosed
      · rw [heq] at hopen ⊢
        exact hsame hopen
      · rw [hclosed] at hopen
        cases hopen
    · refine ⟨t.hand.checkpoint, ?_, fun _ ↦ rfl⟩
      rw [hnew hunreached, if_pos hepoch]
  case accepted =>
    intro address round epoch message hmessage
    rw [hkey] at hmessage
    have ⟨hreached, haccepted, hsigned⟩ :=
      h.accepted address round epoch message (hkeeps.inbox _ _ hmessage)
    rw [hsince]
    refine ⟨hgoes.reached hreached, ?_, fun hepoch ↦ ?_⟩
    · rw [hkeeps.table]
      exact haccepted.append _
    · rcases hgoes.inEpoch hepoch with hbefore | hunreached
      · exact hopening (hsigned hbefore)
      · exact absurd hreached hunreached

/-- The entries of a step are signed. -/
theorem signed {s : HandState} {after : Hand} (h : HandAccounted journal s.inbox s.hand)
    (hkeys : KeysNamed s.inbox) (hrecords : s.Records after) :
    ∀ entry ∈ newEntries s.hand after,
      signedIn (sinceStart s.hand.table journal) s.hand entry = true := by
  intro entry hentry
  have ⟨hphase, message, hmessage, heq⟩ := hrecords.holds hentry
  have ⟨hkind, hid, hround, hepoch⟩ := hkeys.action h.free hmessage
  have ⟨_, ⟨session, hmem, htable, haddress⟩, hsigned⟩ := h.accepted _ _ _ message hmessage
  have hcheckpoint := hsigned ⟨hphase, rfl, rfl⟩
  unfold signedIn
  rw [h.begins, Bool.true_and, List.any_eq_true]
  refine ⟨_, hmem, ?_⟩
  unfold Happening.signs
  dsimp only
  rw [hcheckpoint, hkind, hid, hround, hepoch, htable, haddress, heq]
  simp

/-- A hand that has just started, and for which nothing waits. -/
theorem started (hfree : Free hand.table) (hcreated : hand.Created)
    (hnone : ∀ address round epoch, inbox[handKey hand address .action round epoch]? = none) :
    HandAccounted (journal ++ [.handStarted hand]) inbox hand := by
  have hsince : sinceStart hand.table (journal ++ [.handStarted hand]) = [.handStarted hand] := by
    rw [sinceStart_append]
    exact if_pos (decide_eq_true rfl)
  have hcommit := hcreated.phase
  constructor
  case free => exact hfree
  case begins =>
    rw [hsince]
    simp [beginsWith]
  case transcript =>
    refine ⟨hcreated.betting, fun _ ↦ hcreated.round, fun _ ↦ ?_, fun hbetting ↦ ?_⟩
    · rw [hcreated.round]
      decide
    · exact nomatch hcommit.symm.trans hbetting
  case unreached =>
    intro round epoch _
    rw [hsince]
    rfl
  case opened => exact fun round epoch hepoch ↦ nomatch hcommit.symm.trans hepoch.1
  case accepted =>
    intro address round epoch message hmessage
    rw [hnone] at hmessage
    cases hmessage

end HandAccounted

/-! ## 4. Submissions -/

namespace Accounted

variable {d : Dealer}

theorem of_eq {d' : Dealer} (h : Accounted d) (hjournal : d'.journal = d.journal)
    (hhands : d'.hands = d.hands) (hinbox : d'.inbox = d.inbox) : Accounted d' where
  signed := hjournal ▸ h.signed
  one := hhands ▸ h.one
  hands hand hmem := by
    rw [hjournal, hinbox]
    exact h.hands hand (hhands ▸ hmem)
  keys := hinbox ▸ h.keys

theorem counted {d' : Dealer} (h : Accounted d) (hcounted : Counted d d') : Accounted d' := by
  rw [hcounted.dealer]
  exact h.of_eq rfl rfl rfl

/-- A happening that is neither a start nor a step of a hand. -/
theorem note (h : Accounted d) (happening : Happening)
    (hstarts : ∀ table, happening.startsAt table = false)
    (hadvance : ∀ before after returned, happening ≠ .handAdvanced before after returned) :
    Accounted { d with journal := d.journal ++ [happening] } where
  signed := h.signed.append fun before after returned heq ↦ absurd heq (hadvance before after returned)
  one := h.one
  hands hand hmem := by
    apply (h.hands hand hmem).append (hstarts _)
    · intro round epoch
      unfold Happening.checkpointIn
      cases happening with
      | handAdvanced before after returned => exact absurd rfl (hadvance before after returned)
      | _ => rfl
    · exact fun _ _ hmessage ↦ hmessage
  keys := h.keys

end Accounted

theorem OneHandEach.eq_of_table {hands : List Hand} (h : OneHandEach hands) {x y : Hand}
    (hx : x ∈ hands) (hy : y ∈ hands) (htable : x.table = y.table) : x = y :=
  List.inj_on_of_nodup_map h hx hy htable

/-- What `submission_error` accepts is expected by a hand of the table. -/
theorem submissionError_expected {σ : Type} [Counts σ] (env : Env) (native : Native)
    (hands : List Hand) (session : Session) (message : Submission) (s : σ) :
    OnReturn s (submissionError env native hands session message) fun error _ ↦ error = "" →
      ∃ hand ∈ hands, hand.table = session.table ∧ message.handId = hand.handId ∧
        expectedSubmission hand (playerAt hand session.address) message = true := by
  unfold submissionError
  apply OnReturn.ite
  · exact fun _ ↦ OnReturn.pure fun herror ↦ absurd herror (by decide)
  · intro hfound
    have ⟨hand, hhand, htable⟩ := findHandIndex_found hfound
    have hgetD : hands.getD (findHandIndex hands session.table) {} = hand := by
      rw [List.getD_eq_getElem?_getD, hhand]
      rfl
    dsimp only
    rw [hgetD]
    apply OnReturn.ite
    · exact fun _ ↦ OnReturn.pure fun herror ↦ absurd herror (by decide)
    · intro hid
      apply OnReturn.ite
      · exact fun _ ↦ OnReturn.pure fun herror ↦ absurd herror (by decide)
      · intro _
        apply OnReturn.ite
        · intro _
          apply OnReturn.pure
          intro herror
          rw [String.append_assoc, String.append_assoc] at herror
          exact absurd herror (objection_ne _)
        · intro hexpected
          apply OnReturn.skip
          intro valid t
          apply OnReturn.ite
          · intro _
            apply OnReturn.pure
            intro herror
            rw [String.append_assoc] at herror
            exact absurd herror (objection_ne _)
          · intro _
            apply OnReturn.pure
            intro _
            rw [Bool.not_eq_true', Bool.not_eq_false] at hexpected
            exact ⟨hand, List.mem_of_getElem? hhand, htable, not_not.mp hid, hexpected⟩

/-- An action is expected in the epoch it names, with the checkpoint of the hand. -/
theorem expected_action {hand : Hand} {player : Player} {message : Submission}
    (hkind : message.kind = .action) (h : expectedSubmission hand player message = true) :
    hand.InEpoch message.round message.epoch ∧ message.checkpoint = hand.checkpoint := by
  unfold expectedSubmission at h
  rw [hkind] at h
  simp only [Bool.and_eq_true, decide_eq_true_eq] at h
  have ⟨⟨⟨⟨⟨hphase, hround⟩, hepoch⟩, hcheckpoint⟩, _⟩, _⟩ := h
  exact ⟨⟨hphase, hround.symm, hepoch.symm⟩, hcheckpoint⟩

/-- The hands at the table of a submission have not closed the epoch that it names. -/
def NamesOpenEpoch (d : Dealer) (session : Session) (message : Submission) : Prop :=
  message.kind = .action → ∀ hand ∈ d.hands, hand.table = session.table →
    hand.InEpoch message.round message.epoch → hand.epochClosed = false

/-- A submission that a hand expects. -/
theorem Accounted.accept {d : Dealer} (h : Accounted d) {session : Session} {message : Submission}
    {hand : Hand} (hmem : hand ∈ d.hands) (htable : hand.table = session.table)
    (hexpected : expectedSubmission hand (playerAt hand session.address) message = true)
    (hopen : NamesOpenEpoch d session message) :
    Accounted { d with
      inbox := d.inbox.insert (inboxKey session.table message.handId session.address message.kind
        message.round message.epoch) message
      journal := d.journal ++ [.submissionAccepted session message] } := by
  have hnote := h.note (.submissionAccepted session message) (fun _ ↦ rfl)
    fun _ _ _ heq ↦ nomatch heq
  have hfree : Free session.table := htable ▸ (h.hands hand hmem).free
  refine ⟨hnote.signed, hnote.one, fun other hother ↦ ?_, fun key message' hmessage ↦ ?_⟩
  · have hbase := hnote.hands other hother
    refine { hbase with accepted := fun address round epoch message' hmessage ↦ ?_ }
    dsimp only at hmessage
    rw [OrderedMap.getElem?_insert] at hmessage
    split at hmessage
    case isTrue hkey =>
      have ⟨⟨hsame, _, haddress⟩, hkind, hround, hepoch⟩ :=
        inboxKey_injective hfree hbase.free hkey
      have hhand : other = hand := h.one.eq_of_table hother hmem (hsame.symm.trans htable.symm)
      have ⟨hinEpoch, hcheckpoint⟩ := expected_action hkind hexpected
      have hclosed := hopen hkind hand hmem htable hinEpoch
      rw [hround, hepoch] at hinEpoch
      rw [← hhand] at hinEpoch hcheckpoint hclosed
      have ⟨checkpoint, hopening, hcurrent⟩ := hbase.opened round epoch hinEpoch
      rw [← Option.some.inj hmessage]
      refine ⟨hinEpoch.reached, ⟨session, ?_, hsame, haddress⟩, fun _ ↦ ?_⟩
      · rw [sinceStart_append]
        exact List.mem_append_right _ (List.mem_singleton_self _)
      · rw [hopening, hcurrent hclosed, hcheckpoint]
    case isFalse hkey => exact hbase.accepted address round epoch message' hmessage
  · dsimp only at hmessage
    rw [OrderedMap.getElem?_insert] at hmessage
    split at hmessage
    case isTrue hkey =>
      cases hmessage
      exact ⟨_, _, hfree, hkey.symm⟩
    case isFalse hkey => exact h.keys key message' hmessage

theorem dispatchMessage_accounted (env : Env) (native : Native) {d : Dealer} (h : Accounted d)
    {session : Session} {message : Submission} (hopen : NamesOpenEpoch d session message) :
    After d (dispatchMessage env native session message) fun _ d' ↦ Accounted d' := by
  apply After.ite
  · intro _
    apply After.read
    apply After.bind
    apply ((counted_submissionError env native d.hands session message d).onReturn
      (submissionError_expected env native d.hands session message d)).mono
    intro r d₁ h₁
    have ⟨hcounted, hexpected⟩ := h₁
    cases r with
    | error e => exact h.counted hcounted
    | ok error =>
        apply After.ite
        · intro haccepted
          have ⟨hand, hmem, htable, _, hexpected⟩ := hexpected error rfl haccepted.1
          apply After.bind
          apply ((counted_validateSignedSubmission env native session message).after
            Counted.frame.trans hcounted).mono
          intro r d₂ hcounted₂
          cases r with
          | error e => exact h.counted hcounted₂
          | ok valid =>
              apply After.ite
              · intro _
                apply After.bind
                apply After.modify
                apply After.modify
                rw [hcounted₂.dealer]
                exact (h.accept hmem htable hexpected hopen).of_eq rfl rfl rfl
              · exact fun _ ↦ After.pure (h.counted hcounted₂)
        · exact fun _ ↦ After.pure (h.counted hcounted)
  · exact fun _ ↦ After.pure h

/-! ## 5. Ticks -/

/-- The tables do not end the hand. -/
def Dealer.Leaves (d : Dealer) (tables : List Table) (hand : Hand) : Prop :=
  ∀ table ∈ tables, table.confirmed = true → table.address = hand.table →
    ∀ status, table.status = some status →
      endingEvent table.address status d.chain.height hand = none

/-- Where a hand can start there is one already when the turn of the table comes, or no action waits
for the new one.  The addresses of tables hold no separator. -/
structure Dealer.StartsClean (d : Dealer) : Prop where
  separable : ∀ table ∈ d.chain.tables, Free table.address
  unheard : ∀ done table rest, d.chain.tables = done ++ table :: rest → table.confirmed = true →
    ∀ status, table.status = some status → canStart table status d.chain.height = true →
      (∃ hand ∈ d.hands, hand.table = table.address ∧ d.Leaves done hand) ∨
        ∀ address round epoch,
          d.inbox[inboxKey table.address status.handId address .action round epoch]? = none

namespace Accounted

variable {d : Dealer}

theorem drop (h : Accounted d) (i : Nat) : Accounted { d with hands := d.hands.eraseIdx i } where
  signed := h.signed
  one := List.Nodup.sublist (List.Sublist.map _ (List.eraseIdx_sublist ..)) h.one
  hands hand hmem := h.hands hand (List.mem_of_mem_eraseIdx hmem)
  keys := h.keys

theorem start (h : Accounted d) {hand : Hand} (hfree : Free hand.table) (hcreated : hand.Created)
    (hother : ∀ x ∈ d.hands, x.table ≠ hand.table)
    (hnone : ∀ address round epoch, d.inbox[handKey hand address .action round epoch]? = none) :
    Accounted { d with
      hands := d.hands ++ [hand], journal := d.journal ++ [.handStarted hand] } where
  signed := h.signed.append fun _ _ _ heq ↦ nomatch heq
  one := h.one.started hother
  hands x hmem := by
    rcases List.mem_append.mp hmem with hmem | hmem
    · apply (h.hands x hmem).append
      · exact decide_eq_false fun heq ↦ hother x hmem heq.symm
      · exact fun _ _ ↦ rfl
      · exact fun _ _ hmessage ↦ hmessage
    · rw [List.mem_singleton.mp hmem]
      exact .started hfree hcreated hnone
  keys := h.keys

theorem stepped (h : Accounted d) {i : Nat} {before : Hand} {s : HandState}
    (hbefore : d.hands[i]? = some before) (hkeeps : HandState.Keeps ⟨d.operations, before, d.inbox⟩ s)
    (hsteps : StepsOn ⟨d.operations, before, d.inbox⟩ s) (returned : Bool) :
    Accounted (d.stepped i before s returned) := by
  have ⟨front, rest, hsplit, hlength⟩ := getElem?_split hbefore
  have hset : d.hands.set i s.hand = front ++ s.hand :: rest := by
    rw [← hlength, hsplit, List.set_append_right _ _ (Nat.le_refl _), Nat.sub_self]
    rfl
  have hone : OneHandEach (front ++ before :: rest) := hsplit ▸ h.one
  have ⟨hfront, hrest, _⟩ := hone.split
  have htable : s.hand.table = before.table := hkeeps.table
  have hmine := h.hands before (List.mem_of_getElem? hbefore)
  -- a hand at another table
  have hother (x : Hand) (hmem : x ∈ d.hands) (hne : x.table ≠ before.table) :
      HandAccounted (d.journal ++ [.handAdvanced before s.hand returned]) s.inbox x := by
    apply (h.hands x hmem).append rfl
    · intro round epoch
      exact if_neg fun hboth ↦ hne (hboth.1.symm.trans htable)
    · exact hkeeps.inbox
  constructor
  case signed =>
    apply h.signed.append
    intro b a r heq
    cases heq
    exact hmine.signed h.keys hsteps.records
  case one =>
    show OneHandEach (d.hands.set i s.hand)
    rw [hset]
    unfold OneHandEach
    rw [List.map_append, List.map_cons, htable, ← List.map_cons, ← List.map_append]
    exact hone
  case hands =>
    intro x hmem
    have hmem : x ∈ front ++ s.hand :: rest := hset ▸ hmem
    rcases List.mem_append.mp hmem with hmem | hmem
    · exact hother x (hsplit ▸ List.mem_append_left _ hmem) (hfront x hmem)
    · rcases List.mem_cons.mp hmem with rfl | hmem
      · exact hmine.step hkeeps hsteps returned
      · exact hother x (hsplit ▸ List.mem_append_right _ (List.mem_cons_of_mem _ hmem)) (hrest x hmem)
  case keys => exact h.keys.of_subset hkeeps.inbox

end Accounted

/-- How far the reconciliation is that began in `d₀`: it is done with some tables, and the hands that
these leave are still there. -/
structure Reconciled (d₀ : Dealer) (done : List Table) (d : Dealer) : Prop where
  accounted : Accounted d
  inbox : d.inbox = d₀.inbox
  stays : ∀ hand ∈ d₀.hands, d₀.Leaves done hand → hand ∈ d.hands

section Tick

variable {d₀ d : Dealer}

theorem Dealer.Leaves.before {tables more : List Table} {hand : Hand}
    (h : d.Leaves (tables ++ more) hand) : d.Leaves tables hand :=
  fun table hmem ↦ h table (List.mem_append_left _ hmem)

theorem Reconciled.of_same {d' : Dealer} {done : List Table} (h : Reconciled d₀ done d) (table : Table)
    (haccounted : Accounted d') (hinbox : d'.inbox = d.inbox) (hhands : ∀ x ∈ d.hands, x ∈ d'.hands) :
    Reconciled d₀ (done ++ [table]) d' where
  accounted := haccounted
  inbox := hinbox.trans h.inbox
  stays hand hmem hleaves := hhands hand (h.stays hand hmem hleaves.before)

theorem reconcileTable_accounted (env : Env) (now : Nat) {done rest : List Table} {table : Table}
    (hclean : d₀.StartsClean) (htables : d₀.chain.tables = done ++ table :: rest)
    (h : Reconciled d₀ done d) :
    After d (reconcileTable env table d₀.chain.height now) fun r d' ↦ match r with
      | .ok _ => Reconciled d₀ (done ++ [table]) d'
      | .error _ => Accounted d' := by
  have hmem : table ∈ d₀.chain.tables := by
    rw [htables]
    exact List.mem_append_right _ (List.mem_cons_self ..)
  apply after_reconcileTable
  · exact h.of_same table h.accounted rfl fun _ hx ↦ hx
  · intro status event hconfirmed hstatus hfound hending
    have ⟨ended, hended, haddress⟩ := findHandIndex_found hfound
    have ⟨front, rest, hsplit, hlength⟩ := getElem?_split hended
    have hgetD : d.hands.getD (findHandIndex d.hands table.address) {} = ended := by
      rw [List.getD_eq_getElem?_getD, hended]
      rfl
    rw [hgetD] at hending
    refine ⟨h.accounted.drop _, h.inbox, fun hand hhand hleaves ↦ ?_⟩
    have hbefore := h.stays hand hhand hleaves.before
    -- the table would have left the hand
    have hne : hand ≠ ended := by
      rintro rfl
      have hnone := hleaves table (List.mem_append_right _ (List.mem_singleton_self _)) hconfirmed
        haddress.symm status hstatus
      rw [hnone] at hending
      cases hending
    show hand ∈ d.hands.eraseIdx (findHandIndex d.hands table.address)
    rw [← hlength, hsplit, List.eraseIdx_append_of_length_le (Nat.le_refl _), Nat.sub_self]
    rw [hsplit] at hbefore
    rcases List.mem_append.mp hbefore with hbefore | hbefore
    · exact List.mem_append_left _ hbefore
    · exact List.mem_append_right _ (List.mem_of_ne_of_mem hne hbefore)
  · intro status e d₁ hstatus hthrown
    exact h.accounted.counted ((startHand_spec env table status now d hstatus).error hthrown).1
  · intro status hand d₁ hconfirmed hstatus hnew hcan hreturned
    have ⟨hcounted, hfresh⟩ := (startHand_spec env table status now d hstatus).ok hreturned
    have hfresh := hfresh hand rfl
    have hcreated := startHand_created env table status.handId now d
    unfold OnReturn at hcreated
    rw [hreturned] at hcreated
    have hnone : ∀ x ∈ d.hands, x.table ≠ table.address := findHandIndex_none hnew
    have hunheard : ∀ address round epoch,
        d₁.inbox[handKey hand address .action round epoch]? = none := by
      rw [hcounted.dealer]
      unfold handKey
      rw [hfresh.table, hfresh.handId]
      show ∀ address round epoch, d.inbox[_]? = none
      rw [h.inbox]
      rcases hclean.unheard done table rest htables hconfirmed status hstatus hcan with
        ⟨staying, hstaying, haddress, hleaves⟩ | hunheard
      · exact absurd haddress (hnone staying (h.stays staying hstaying hleaves))
      · exact hunheard
    have hhands : d₁.hands = d.hands := by rw [hcounted.dealer]
    apply h.of_same table
    · apply (h.accounted.counted hcounted).start _ hcreated _ hunheard
      · rw [hfresh.table]
        exact hclean.separable table hmem
      · rw [hhands, hfresh.table]
        exact hnone
    · rw [hcounted.dealer]
    · intro x hx
      exact List.mem_append_left _ (hhands ▸ hx)

theorem reconcile_accounted (env : Env) (now : Nat) (hclean : d₀.StartsClean) (h : Reconciled d₀ [] d) :
    After d (d₀.chain.tables.foldlM (reconcileStep env d₀.chain.height now) (false, []))
      fun _ d' ↦ Accounted d' := by
  have hfold := After.foldlM (s := d) (f := reconcileStep env d₀.chain.height now)
    (I := fun rest _ d ↦ ∃ done, d₀.chain.tables = done ++ rest ∧ Reconciled d₀ done d)
    (E := fun _ d' ↦ Accounted d') (b := (false, [])) ⟨[], rfl, h⟩ ?_
  · apply hfold.mono
    intro r d' hr
    cases r with
    | error e => exact hr
    | ok acc =>
        have ⟨_, _, hreconciled⟩ := hr
        exact hreconciled.accounted
  · rintro table rest acc d ⟨done, htables, h⟩
    apply After.bind
    apply (reconcileTable_accounted env now hclean htables h).mono
    intro r d' hr
    cases r with
    | error e => exact hr
    | ok result =>
        apply After.pure
        refine ⟨done ++ [table], ?_, hr⟩
        rw [htables, List.append_assoc]
        rfl

/-- The program keeps the invariant. -/
def KeepsAccounts (d d' : Dealer) : Prop := Accounted d → Accounted d'

theorem KeepsAccounts.frame : Frame KeepsAccounts where
  refl _ h := h
  trans _ _ _ h h' := h' ∘ h
  next _ h := h.of_eq rfl rfl rfl

theorem keepsAccounts_advanceStep (env : Env) (native : Native) (chain : ChainState) (now : Nat)
    (acc : Bool × List HandEvent) (i : Nat) :
    Steps KeepsAccounts (advanceStep env native chain now acc i) := by
  apply KeepsAccounts.frame.bind
  · intro d
    apply after_onHand
    · exact fun _ h ↦ h
    · intro before hbefore
      apply ((HandState.keeps_advanceHand env native chain now _).and
        (stepsOn_advanceHand env native chain now _)).mono
      exact fun r s hs h ↦ h.stepped hbefore hs.1 hs.2 r.isOk
  · intro advanced
    exact Steps.ite (Steps.read fun _ ↦ KeepsAccounts.frame.pure _) (KeepsAccounts.frame.pure _)

theorem keepsAccounts_saveHands (env : Env) (hands : List Hand) :
    Steps KeepsAccounts (saveHands env hands) := by
  have hstore (d : Dealer) (s : Store Json) : KeepsAccounts d (Slot.hands.write d s) :=
    fun h ↦ h.of_eq rfl rfl rfl
  exact KeepsAccounts.frame.bind (KeepsAccounts.frame.insert _ env hstore _) fun _ ↦
    KeepsAccounts.frame.commitNext _ env hstore _

theorem tickHands_accounted (env : Env) (native : Native) (now : Nat) (h : Accounted d)
    (hclean : d.chain.synced = true → d.StartsClean) :
    After d (tickHands env native now) fun _ d' ↦ Accounted d' := by
  have hframe := KeepsAccounts.frame
  apply After.read
  apply After.ite
  · exact fun _ ↦ After.pure h
  · intro hsynced
    rw [Bool.not_eq_true', Bool.not_eq_false] at hsynced
    have hnote := h.note (.handsTicked d.chain.height) (fun _ ↦ rfl)
      fun _ _ _ heq ↦ nomatch heq
    apply After.bind
    apply After.modify
    apply After.bind
    apply (reconcile_accounted env now (hclean hsynced) ⟨hnote, rfl, fun _ hmem _ ↦ hmem⟩).mono
    intro r d₁ h₁
    cases r with
    | error e => exact h₁
    | ok reconciled =>
        apply After.read
        refine After.mono (P := fun _ d' ↦ KeepsAccounts d₁ d') ?_ fun _ _ hkeeps ↦ hkeeps h₁
        refine hframe.bind ?_ (fun result ↦ ?_) d₁
        · exact Steps.foldlM hframe.refl hframe.trans
            (fun _ _ ↦ keepsAccounts_advanceStep env native d.chain now _ _) _ _
        · apply hframe.bind
          · exact hframe.onlyIf (Steps.read fun _ ↦ keepsAccounts_saveHands env _)
          · exact fun _ ↦ hframe.pure _

theorem resetHands_accounted (env : Env) (h : Accounted d) :
    After d (resetHands env) fun _ d' ↦ Accounted d' := by
  have hreset : Accounted { d with
      hands := [], inbox := ∅, journal := d.journal ++ [.handsReset] } := by
    constructor
    case signed => exact h.signed.append fun _ _ _ heq ↦ nomatch heq
    case one => exact List.nodup_nil
    case hands => exact fun _ hmem ↦ nomatch hmem
    case keys =>
      intro key message hmessage
      dsimp only at hmessage
      rw [Std.ExtTreeMap.getElem?_empty] at hmessage
      cases hmessage
  apply After.bind
  apply After.modify
  apply After.bind
  apply After.modify
  exact (keepsAccounts_saveHands env [] _).mono fun _ _ hkeeps ↦ hkeeps hreset

end Tick

/-! ## 6. Runs -/

/-- The state a program leaves, whether or not it returns. -/
def left {α : Type} (m : DealerM α) (d : Dealer) : Dealer :=
  match m d with
  | .ok _ d' => d'
  | .error _ d' => d'

theorem left_of_after {α : Type} {m : DealerM α} {d : Dealer} {P : Dealer → Prop}
    (h : After d m fun _ d' ↦ P d') : P (left m d) := by
  unfold After at h
  unfold left
  cases hr : m d with
  | ok a d' =>
      rw [hr] at h
      exact h
  | error e d' =>
      rw [hr] at h
      exact h

/-- What happens to the hands: submissions, ticks at any time, chains that the synchronization finds and
resets after a rollback.  The node can answer differently each time. -/
inductive DealerMove
  | dispatch (env : Env) (session : Session) (message : Submission)
  | tick (env : Env) (now : Nat)
  | see (chain : ChainState)
  | reset (env : Env)

def Dealer.move (native : Native) (d : Dealer) : DealerMove → Dealer
  | .dispatch env session message => left (dispatchMessage env native session message) d
  | .tick env now => left (tickHands env native now) d
  | .see chain => { d with chain }
  | .reset env => left (resetHands env) d

/-- No action outlives its hand, and none is accepted for an epoch that is closed. -/
def DealerMove.Clean (d : Dealer) : DealerMove → Prop
  | .dispatch _ session message => NamesOpenEpoch d session message
  | .tick _ _ => d.chain.synced = true → d.StartsClean
  | .see _ | .reset _ => True

theorem move_accounted (native : Native) {d : Dealer} {move : DealerMove} (h : Accounted d)
    (hclean : move.Clean d) : Accounted (d.move native move) := by
  cases move with
  | dispatch env session message =>
      exact left_of_after (dispatchMessage_accounted env native h hclean)
  | tick env now => exact left_of_after (tickHands_accounted env native now h hclean)
  | see chain => exact h.of_eq rfl rfl rfl
  | reset env => exact left_of_after (resetHands_accounted env h)

theorem accounted_fresh : Accounted .fresh where
  signed k before after returned hk := by
    rw [show Dealer.fresh.journal = [] from rfl, List.getElem?_nil] at hk
    cases hk
  one := List.nodup_nil
  hands _ hmem := nomatch hmem
  keys key message hmessage := by
    rw [show Dealer.fresh.inbox = ∅ from rfl, Std.ExtTreeMap.getElem?_empty] at hmessage
    cases hmessage

/-- In every run in which no action outlives its hand and none is accepted for an epoch that is closed,
every entry of the betting transcript was accepted while its hand was played, with the recorded action
and bet, and names the checkpoint with which the epoch began. -/
theorem actions_signed (native : Native) (moves : List DealerMove)
    (hclean : Meets (Dealer.move native) (fun d move ↦ move.Clean d) .fresh moves) :
    ActionsSigned (Reasoning.run (Dealer.move native) .fresh moves).journal :=
  (hclean.invariant (I := Accounted) accounted_fresh fun _ _ h hclean ↦
    move_accounted native h hclean).signed

/-! ## 7. An action of a hand that was reverted -/

/-- The entries that one step adds are signed. -/
def signedAt (journal : List Happening) (k : Nat) : Bool :=
  match journal[k]? with
  | some (.handAdvanced before after _) =>
      (newEntries before after).all (signedIn (sinceStart before.table (journal.take k)) before)
  | _ => true

theorem ActionsSigned.at {journal : List Happening} (h : ActionsSigned journal) (k : Nat) :
    signedAt journal k = true := by
  unfold signedAt
  split
  · next before after returned hk =>
      rw [List.all_eq_true]
      exact h k before after returned hk
  · rfl

def sixtyFour (digit : Char) : String := String.ofList (List.replicate 64 digit)

/-- After a checkpoint that begins with `f` comes another one. -/
def lettersNative : Native where
  sha256 source := if source[37]? = some 102 then sixtyFour 'f' else sixtyFour '0'
  verify _ _ _ := true

/-- Two players sit at the table; the hand starts with this checkpoint. -/
def twoPlayersEnv (checkpoint : String) : Env where
  node := { Node.silent with
    activePlayer := fun _ _ i ↦ .ok (if i = 0 then "alice" else "bob")
    playerInfo := fun _ _ address ↦ .ok ⟨address, "", 100⟩
    startCheckpoint := fun _ _ ↦ .ok checkpoint
    submissionHash := fun _ _ _ ↦ .ok "" }
  fate _ := .done
  stops _ := false
  numberOf _ := 0

/-- The first hand of table "T" starts at this height. -/
def handAtHeight (startHeight : Nat) : ChainState :=
  { height := 10
    hash := "tip"
    synced := true
    tables := [{ openTable "T" with
      status := some
        { tableOpen := true, startHeight := some startHeight, handId := 1, activeCount := 2 } }] }

def submits (checkpoint address : String) (message : Submission) : DealerMove :=
  .dispatch (twoPlayersEnv checkpoint) { authenticated := true, address, table := "T" }
    { message with handId := 1, signature := sixtyFour '0' ++ sixtyFour '0' }

/-- Both players commit and reveal, and the betting begins. -/
def playedToBetting (checkpoint : String) : List DealerMove :=
  [submits checkpoint "alice" { kind := .commit, commitments := List.replicate 5 (sixtyFour '0') },
    submits checkpoint "bob" { kind := .commit, commitments := List.replicate 5 (sixtyFour '0') },
    .tick (twoPlayersEnv checkpoint) 0,
    submits checkpoint "alice" { kind := .reveal, seed := sixtyFour '0' },
    submits checkpoint "bob" { kind := .reveal, seed := sixtyFour '0' },
    .tick (twoPlayersEnv checkpoint) 0]

/-- The player checks in the hand whose checkpoints are zeros. -/
def checks (address : String) : DealerMove :=
  submits (sixtyFour '0') address
    { kind := .action, action := .checkCall, cumulativeBet := 1, checkpoint := sixtyFour '0' }

/-- Alice checks; the hand is dropped because it starts at another height now, and is played again.  The
time is over before she answers. -/
def revertedMoves : List DealerMove :=
  [.see (handAtHeight 5), .tick (twoPlayersEnv (sixtyFour '0')) 0] ++ playedToBetting (sixtyFour '0') ++
    [checks "alice", .see (handAtHeight 7), .tick (twoPlayersEnv (sixtyFour 'f')) 0,
      .tick (twoPlayersEnv (sixtyFour 'f')) 0] ++
    playedToBetting (sixtyFour 'f') ++ [.tick (twoPlayersEnv (sixtyFour 'f')) 60]

/-- The last step records the action that was accepted before the hand started again. -/
theorem reverted_action_recorded : ¬∀ (native : Native) (moves : List DealerMove),
    ActionsSigned (Reasoning.run (Dealer.move native) .fresh moves).journal := by
  intro h
  have hsigned := (h lettersNative revertedMoves).at 25
  revert hsigned
  decide +kernel

/-- A condition on the tables and the inbox that is enough for a move. -/
def DealerMove.plainlyClean (d : Dealer) : DealerMove → Bool
  | .dispatch _ _ _ => d.hands.all fun hand ↦ !hand.epochClosed
  | .tick _ _ => d.chain.tables.length ≤ 1 && d.chain.tables.all fun table ↦
      Free table.address && (d.inbox.isEmpty || d.hands.any fun hand ↦ hand.table = table.address)
  | .see _ | .reset _ => true

theorem DealerMove.clean_of_plainly {d : Dealer} {move : DealerMove} (h : move.plainlyClean d = true) :
    move.Clean d := by
  cases move with
  | dispatch env session message =>
      intro _ hand hmem _ _
      simpa using List.all_eq_true.mp h hand hmem
  | tick env now =>
      intro _
      unfold plainlyClean at h
      rw [Bool.and_eq_true, decide_eq_true_eq, List.all_eq_true] at h
      have ⟨hlength, htables⟩ := h
      refine ⟨fun table hmem ↦ ?_, fun done table rest heq _ status _ _ ↦ ?_⟩
      · exact of_decide_eq_true (Bool.and_eq_true_iff.mp (htables table hmem)).1
      · have hmem : table ∈ d.chain.tables := by
          rw [heq]
          exact List.mem_append_right _ (List.mem_cons_self ..)
        have hdone : done = [] := by
          rw [heq, List.length_append, List.length_cons] at hlength
          exact List.length_eq_zero_iff.mp (by omega)
        have hready := (Bool.and_eq_true_iff.mp (htables table hmem)).2
        rw [Bool.or_eq_true, List.any_eq_true] at hready
        rcases hready with hempty | ⟨hand, hhand, htable⟩
        · right
          intro address round epoch
          rw [Std.ExtTreeMap.isEmpty_iff.mp hempty, Std.ExtTreeMap.getElem?_empty]
        · left
          refine ⟨hand, hhand, of_decide_eq_true htable, fun table htable ↦ ?_⟩
          rw [hdone] at htable
          cases htable
  | see chain => trivial
  | reset env => trivial

/-- Both players check. -/
def checkedMoves : List DealerMove :=
  [.see (handAtHeight 5), .tick (twoPlayersEnv (sixtyFour '0')) 0] ++ playedToBetting (sixtyFour '0') ++
    [checks "alice", checks "bob", .tick (twoPlayersEnv (sixtyFour '0')) 0]

theorem actions_signed_checked :
    ActionsSigned (Reasoning.run (Dealer.move lettersNative) .fresh checkedMoves).journal := by
  apply actions_signed
  have hplainly : Meets (Dealer.move lettersNative) (fun d move ↦ move.plainlyClean d = true) .fresh
      checkedMoves := by decide +kernel
  exact hplainly.mono fun _ _ ↦ DealerMove.clean_of_plainly

end Stainless.Poker
