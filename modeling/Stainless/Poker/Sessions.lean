import Stainless.Crypto.DecimalText
import Stainless.Poker.Frames
import Stainless.Reasoning.Effects
import Stainless.Reasoning.Runs
import Stainless.Wallet.Wallet

/-!
# Sessions of the players

What the dealer does with the events of its socket: it opens a session with a challenge, checks the
signature over it, subscribes the player to a table and takes the submissions.
-/

open Reasoning Stainless.Runtime Stainless.Crypto Stainless.Wallet

namespace Stainless.Poker

/-! ## 1. Sessions, messages and replies -/

structure PlayerSession extends Session where
  challenge : String := ""
  expiresAt : Nat := 0
deriving DecidableEq

abbrev Sessions := OrderedMap Nat PlayerSession

/-- A submission with the fields that the messages about the session have. -/
structure PlayerMessage extends Submission where
  address : String := ""
  publicKey : String := ""
  table : String := ""
deriving DecidableEq

/-- What the dealer sends to the connection of an event. -/
inductive Reply
  | challenge (dealer challenge : String) (expiresAt : Nat)
  | authenticated (address : String)
  | subscribed (table : Table)
  | accepted (kind : SubmissionKind) (handId round epoch : Nat)
  | handState (hand : Hand)
  | error (code : String) (message : String := "")
deriving DecidableEq

/-- A reply that says nothing about the session. -/
def Reply.quiet : Reply → Bool
  | challenge .. | authenticated _ | subscribed _ => false
  | accepted .. | handState _ | error .. => true

/-- `Random::bytes(32)`. -/
abbrev RandomBytes := { bytes : List UInt8 // bytes.length = 32 }

/-- An event of the socket.  The source of randomness and the parser of the messages may throw. -/
inductive SocketEvent
  | opened (random : Except Exception RandomBytes)
  | closed
  | message (parsed : Except Exception PlayerMessage)

/-! ## 2. Authentication -/

def hexBytes (bytes : List UInt8) : String :=
  bytes.foldl (fun encoded byte ↦
    encoded ++ hexDigit (byte.toNat / 16) ++ hexDigit (byte.toNat % 16)) ""

def openSession (dealer : String) (random : RandomBytes) (now : Nat) : PlayerSession × Reply :=
  let challenge := hexBytes random.val
  let session : PlayerSession := { challenge, expiresAt := addU64 now 30 }
  (session, .challenge dealer challenge session.expiresAt)

def authHash (native : Wallet.Native) (dealer : String) (session : PlayerSession) (address : String) :
    String :=
  Protocol.authHash native.toNative dealer session.challenge session.expiresAt address

def authenticate (native : Wallet.Native) (dealer : String) (session : PlayerSession)
    (message : PlayerMessage) (now : Nat) : PlayerSession × Reply :=
  if now > session.expiresAt ∨ !validateAddress message.address ∨ !isHex message.publicKey 33 ∨
      !isHex message.signature 64 then
    (session, .error "authentication_invalid")
  else
    let derived := addressFromPublicKey native message.publicKey
    let hash := authHash native dealer session message.address
    if derived ≠ message.address ∨ !native.verify hash message.publicKey message.signature then
      (session, .error "authentication_failed")
    else
      ({ session with
          address := message.address
          publicKey := message.publicKey
          authenticated := true
          challenge := "" },
        .authenticated message.address)

/-! ## 3. The other messages -/

def findTableIndex (chain : ChainState) (address : String) : Nat :=
  chain.tables.findIdx fun table ↦ table.address = address

/-- The answer to `get_player_info` is not looked at, but the call may throw. -/
def subscribe (env : Env) (session : PlayerSession) (message : PlayerMessage) :
    DealerM (PlayerSession × List Reply) := do
  let chain := (← get).chain
  let index := findTableIndex chain message.table
  if index = chain.tables.length ∨ !(chain.tables.getD index {}).confirmed then
    return (session, [.error "table_not_found"])
  else
    let _ ← call env fun n ↦ env.node.playerInfo n message.table session.address
    return ({ session with table := message.table }, [.subscribed (chain.tables.getD index {})])

/-- `accept_submission` with the reply it sends. -/
def acceptMessage (env : Env) (native : Crypto.Native) (session : Session) (message : Submission) :
    DealerM Reply := do
  if !isGameplay message.kind then
    return .error "unknown_message_type"
  else
    let valid ← validateSignedSubmission env native session message
    if !valid then
      return .error "signature_invalid"
    else
      let key := inboxKey session.table message.handId session.address message.kind message.round
        message.epoch
      modify fun d ↦ { d with inbox := d.inbox.insert key message }
      note (.submissionAccepted session message)
      return .accepted message.kind message.handId message.round message.epoch

def handleSessionMessage (env : Env) (native : Wallet.Native) (dealer : String) (session : PlayerSession)
    (message : PlayerMessage) : DealerM (PlayerSession × List Reply) := do
  let now := (← get).chain.time
  if message.kind = .auth then
    let (session, reply) := authenticate native dealer session message now
    return (session, [reply])
  else if !session.authenticated then
    return (session, [.error "authentication_required"])
  else if message.kind = .subscribe then
    subscribe env session message
  else if session.table = "" then
    return (session, [.error "subscription_required"])
  else
    let reply ← acceptMessage env native.toNative session.toSession message.toSubmission
    return (session, [reply])

/-- The hand at the player's table, after a subscription. -/
def handReply (hands : List Hand) (session : PlayerSession) (message : PlayerMessage) : List Reply :=
  let index := findHandIndex hands session.table
  if message.kind = .subscribe ∧ index ≠ hands.length then [.handState (hands.getD index {})] else []

/-- The text of an error that makes the dealer refuse a submission; empty for other messages. -/
def messageError (env : Env) (native : Wallet.Native) (session : PlayerSession) (message : PlayerMessage) :
    DealerM String := do
  if isGameplay message.kind then
    submissionError env native.toNative (← get).hands session.toSession message.toSubmission
  else
    return ""

def dispatchEvent (env : Env) (native : Wallet.Native) (dealer : String) (sessions : Sessions)
    (connection : Nat) (event : SocketEvent) : DealerM (Sessions × List Reply) :=
  match event with
  | .opened random => do
      let random ← liftOutcome random
      let (session, reply) := openSession dealer random (← get).chain.time
      return (sessions.insert connection session, [reply])
  | .closed => return (sessions.erase connection, [])
  | .message parsed =>
      match sessions[connection]? with
      | none => return (sessions, [.error "session_not_found" "unknown session"])
      | some session => do
          let message ← liftOutcome parsed
          let error ← messageError env native session message
          if error ≠ "" then
            return (sessions, [.error "submission_rejected" error])
          else
            let (session, replies) ← handleSessionMessage env native dealer session message
            let hands := (← get).hands
            return (sessions.insert connection session, replies ++ handReply hands session message)

/-- To the dealer, a submission of a player who may submit does what the loop does with it. -/
theorem acceptMessage_eq (env : Env) (native : Crypto.Native) (session : Session)
    {message : Submission} (h : isGameplay message.kind) :
    (acceptMessage env native session message >>= fun _ ↦ pure ()) =
      acceptSubmission env native session message := by
  unfold acceptMessage acceptSubmission
  rw [if_neg (by simp [h]), bind_assoc]
  refine congrArg _ (funext fun valid ↦ ?_)
  cases valid with
  | false => rfl
  | true => rfl

theorem handleSessionMessage_eq (env : Env) (native : Wallet.Native) (dealer : String)
    (session : PlayerSession) {message : PlayerMessage} (h : isGameplay message.kind) :
    (handleSessionMessage env native dealer session message >>= fun _ ↦ pure ()) =
      onlyIf (session.authenticated ∧ session.table ≠ "") (acceptSubmission env native.toNative
        session.toSession message.toSubmission) := by
  have hauth : message.kind ≠ .auth := fun hkind ↦ by
    rw [hkind] at h
    cases h
  have hsubscribe : message.kind ≠ .subscribe := fun hkind ↦ by
    rw [hkind] at h
    cases h
  unfold handleSessionMessage onlyIf
  cases hin : session.authenticated with
  | false => simp [hauth]
  | true =>
      by_cases htable : session.table = ""
      · simp [hauth, hsubscribe, htable]
      · simp [hauth, hsubscribe, htable, ← acceptMessage_eq env native.toNative session.toSession h]

/-- To the dealer, an event with a submission is what `dispatchMessage` says. -/
theorem dispatchEvent_eq (env : Env) (native : Wallet.Native) (dealer : String)
    {sessions : Sessions} {connection : Nat} {session : PlayerSession} {message : PlayerMessage}
    (hsession : sessions[connection]? = some session) (h : isGameplay message.kind) :
    (dispatchEvent env native dealer sessions connection (.message (.ok message)) >>=
        fun _ ↦ pure ()) =
      dispatchMessage env native.toNative session.toSession message.toSubmission := by
  have hhandle := handleSessionMessage_eq env native dealer session h
  unfold dispatchEvent dispatchMessage
  simp only [hsession, liftOutcome, pure_bind, messageError, h, if_true, onlyIf, bind_assoc]
  refine congrArg _ (funext fun d ↦ congrArg _ (funext fun error ↦ ?_))
  by_cases herror : error = ""
  case neg =>
    rw [if_pos herror, if_neg fun hall ↦ herror hall.1]
    rfl
  case pos =>
    rw [if_neg (not_not_intro herror), bind_assoc]
    simp only [herror, true_and]
    exact Eq.trans (congrArg _ (funext fun result ↦ rfl)) hhandle

/-! ## 4. Runs of the socket -/

/-- An event with the dealer it finds and what the outside answers meanwhile. -/
structure Moment where
  env : Env
  found : Dealer
  connection : Nat
  event : SocketEvent

/-- The sessions after an event and the replies; an exception leaves the sessions as they were. -/
def Moment.outcome (native : Wallet.Native) (dealer : String) (sessions : Sessions) (m : Moment) :
    Sessions × List Reply :=
  match dispatchEvent m.env native dealer sessions m.connection m.event m.found with
  | .ok result _ => result
  | .error _ _ => (sessions, [])

def socketStep (native : Wallet.Native) (dealer : String) (sessions : Sessions) (m : Moment) :
    Sessions :=
  (m.outcome native dealer sessions).1

/-- An accepted message and the challenge it was checked against. -/
structure Authentication where
  challenge : String
  expiresAt : Nat
  address : String
  publicKey : String
  signature : String
deriving DecidableEq

def authenticationOf (session : PlayerSession) (message : PlayerMessage) : Authentication :=
  ⟨session.challenge, session.expiresAt, message.address, message.publicKey, message.signature⟩

/-- What is known of a connection since it was opened. -/
structure Ledger where
  challenge : String := ""
  accepted : List Authentication := []
  /-- The number of authentications before the last subscription. -/
  subscribedAfter : Option Nat := none
deriving DecidableEq

namespace Ledger

def hear (sessions : Sessions) (m : Moment) (ledger : Ledger) (reply : Reply) : Ledger :=
  match reply with
  | .challenge _ challenge _ => { challenge }
  | .authenticated _ =>
      match sessions[m.connection]?, m.event with
      | some session, .message (.ok message) =>
          { ledger with accepted := ledger.accepted ++ [authenticationOf session message] }
      | _, _ => ledger
  | .subscribed _ => { ledger with subscribedAfter := some ledger.accepted.length }
  | _ => ledger

/-- The ledger of one connection after an event of any connection. -/
def observe (native : Wallet.Native) (dealer : String) (connection : Nat) (ledger : Ledger)
    (sessions : Sessions) (m : Moment) : Ledger :=
  if m.connection = connection then
    (m.outcome native dealer sessions).2.foldl (hear sessions m) ledger
  else ledger

end Ledger

/-- The signature is one over the challenge. -/
def Authentication.Verified (native : Wallet.Native) (dealer : String) (a : Authentication) : Prop :=
  native.verify (Protocol.authHash native.toNative dealer a.challenge a.expiresAt a.address)
    a.publicKey a.signature

/-- The session belongs to the last authentication, and so does its subscription. -/
structure Belongs (session : PlayerSession) (ledger : Ledger) : Prop where
  address : session.address = (ledger.accepted.getLast?.map Authentication.address).getD ""
  publicKey : session.publicKey = (ledger.accepted.getLast?.map Authentication.publicKey).getD ""
  table : session.table ≠ "" → ledger.accepted ≠ [] ∧
    ledger.subscribedAfter = some ledger.accepted.length

/-- The challenge of a connection is used once. -/
structure SingleUse (native : Wallet.Native) (dealer : String) (connection : Nat)
    (s : Sessions × Ledger) : Prop where
  verified : ∀ a ∈ s.2.accepted, a.Verified native dealer
  generated : ∀ a ∈ s.2.accepted, a.challenge ≠ "" ∧ a.challenge = s.2.challenge
  once : (s.2.accepted.map Authentication.challenge).Nodup
  belongs : ∀ session, s.1[connection]? = some session → Belongs session s.2

/-- The checks of an authentication message against a challenge. -/
structure Authenticates (native : Wallet.Native) (dealer challenge : String) (expiresAt now : Nat)
    (message : PlayerMessage) : Prop where
  inTime : now ≤ expiresAt
  address : validateAddress message.address
  publicKey : isHex message.publicKey 33
  signature : isHex message.signature 64
  derived : addressFromPublicKey native message.publicKey = message.address
  verified : native.verify (Protocol.authHash native.toNative dealer challenge expiresAt message.address)
    message.publicKey message.signature

/-- No message authenticates a second time, with a signature over the empty challenge. -/
def NotReplayed (native : Wallet.Native) (dealer : String) (connection : Nat) (sessions : Sessions)
    (m : Moment) : Prop :=
  ∀ session message, m.connection = connection → m.event = .message (.ok message) →
    sessions[connection]? = some session → session.authenticated → message.kind = .auth →
      ¬Authenticates native dealer "" session.expiresAt m.found.chain.time message

/-! ## 5. What one event changes -/

variable {native : Wallet.Native} {dealer : String}

/-- The session that an accepted message leaves. -/
def PlayerSession.authenticatedBy (session : PlayerSession) (message : PlayerMessage) : PlayerSession :=
  { session with
    address := message.address
    publicKey := message.publicKey
    authenticated := true
    challenge := "" }

theorem authenticate_accepts {session : PlayerSession} {message : PlayerMessage} {now : Nat}
    (h : Authenticates native dealer session.challenge session.expiresAt now message) :
    authenticate native dealer session message now =
      (session.authenticatedBy message, .authenticated message.address) := by
  have hverified : native.verify (authHash native dealer session message.address) message.publicKey
      message.signature := h.verified
  unfold authenticate
  rw [if_neg (by simp [h.inTime, h.address, h.publicKey, h.signature])]
  rw [if_neg (by simp [h.derived, hverified])]
  rfl

theorem authenticate_refuses {session : PlayerSession} {message : PlayerMessage} {now : Nat}
    (h : ¬Authenticates native dealer session.challenge session.expiresAt now message) :
    ∃ code, authenticate native dealer session message now = (session, .error code) := by
  unfold authenticate
  split
  case isTrue => exact ⟨_, rfl⟩
  case isFalse hshape =>
      dsimp only
      split
      case isTrue => exact ⟨_, rfl⟩
      case isFalse hchecks =>
          simp only [not_or, Nat.not_lt, Bool.not_eq_true', Bool.not_eq_false] at hshape
          simp only [not_or, ne_eq, not_not, Bool.not_eq_true', Bool.not_eq_false] at hchecks
          have ⟨htime, haddress, hkey, hsignature⟩ := hshape
          exact absurd ⟨htime, haddress, hkey, hsignature, hchecks.1, hchecks.2⟩ h

/-- What an event does to the session of its connection, with the replies. -/
inductive Change (native : Wallet.Native) (dealer : String) (sessions : Sessions) (m : Moment) :
    Option PlayerSession → List Reply → Prop
  | quiet {replies : List Reply} (hquiet : ∀ reply ∈ replies, reply.quiet) :
      Change native dealer sessions m sessions[m.connection]? replies
  | opened (random : RandomBytes) :
      Change native dealer sessions m (some (openSession dealer random m.found.chain.time).1)
        [(openSession dealer random m.found.chain.time).2]
  | closed : Change native dealer sessions m none []
  | accepted {session : PlayerSession} {message : PlayerMessage}
      (hevent : m.event = .message (.ok message)) (hsession : sessions[m.connection]? = some session)
      (hkind : message.kind = .auth)
      (hchecks : Authenticates native dealer session.challenge session.expiresAt
        m.found.chain.time message) :
      Change native dealer sessions m (some (session.authenticatedBy message))
        [.authenticated message.address]
  | subscribed {session : PlayerSession} {message : PlayerMessage} {table : Table}
      {rest : List Reply} (hsession : sessions[m.connection]? = some session)
      (hauthenticated : session.authenticated) (hrest : ∀ reply ∈ rest, reply.quiet) :
      Change native dealer sessions m (some { session with table := message.table })
        (.subscribed table :: rest)

theorem handReply_quiet (hands : List Hand) (session : PlayerSession) (message : PlayerMessage) :
    ∀ reply ∈ handReply hands session message, reply.quiet := by
  intro reply hreply
  unfold handReply at hreply
  dsimp only at hreply
  split at hreply
  · rw [List.mem_singleton] at hreply
    rw [hreply]
    rfl
  · cases hreply

theorem handReply_of_auth {hands : List Hand} {session : PlayerSession} {message : PlayerMessage}
    (hkind : message.kind = .auth) : handReply hands session message = [] := by
  unfold handReply
  simp [hkind]

theorem acceptMessage_quiet (env : Env) (native : Crypto.Native) (session : Session)
    (message : Submission) (d : Dealer) :
    OnReturn d (acceptMessage env native session message) fun reply _ ↦ reply.quiet := by
  unfold acceptMessage
  apply OnReturn.ite
  · intro _
    exact OnReturn.pure rfl
  · intro _
    apply OnReturn.skip
    intro valid d
    apply OnReturn.ite
    · intro _
      exact OnReturn.pure rfl
    · intro _
      exact OnReturn.skip fun _ _ ↦ OnReturn.skip fun _ _ ↦ OnReturn.pure rfl

theorem messageError_chain (env : Env) (session : PlayerSession) (message : PlayerMessage)
    (d : Dealer) : OnReturn d (messageError env native session message) fun _ d' ↦
      d'.chain = d.chain := by
  unfold messageError
  apply OnReturn.ite
  · intro _
    have hsteps : Steps Counted (submissionError env native.toNative d.hands session.toSession
        message.toSubmission : DealerM String) := counted_submissionError env _ _ _ _
    apply After.returned (hsteps d)
    intro _ d' hcounted
    rw [hcounted.dealer]
  · intro _
    exact OnReturn.pure rfl

/-- What handling a message gives, as a change of the session. -/
theorem handleSessionMessage_change (env : Env) {sessions : Sessions} {m : Moment}
    {session : PlayerSession} {message : PlayerMessage} {d : Dealer}
    (hevent : m.event = .message (.ok message)) (hsession : sessions[m.connection]? = some session)
    (hchain : d.chain = m.found.chain) :
    OnReturn d (handleSessionMessage env native dealer session message) fun result d' ↦
      Change native dealer sessions m (some result.1)
        (result.2 ++ handReply d'.hands result.1 message) := by
  -- a reply with an error changes nothing, whatever is told of the hands behind it
  have hsame (replies : List Reply) (hands : List Hand) (hquiet : ∀ reply ∈ replies, reply.quiet) :
      Change native dealer sessions m (some session) (replies ++ handReply hands session message) := by
    rw [← hsession]
    apply Change.quiet
    intro reply hreply
    cases List.mem_append.mp hreply with
    | inl hmem => exact hquiet reply hmem
    | inr hmem => exact handReply_quiet _ _ _ reply hmem
  have hsingle (reply : Reply) (hands : List Hand) (hquiet : reply.quiet) :
      Change native dealer sessions m (some session) ([reply] ++ handReply hands session message) :=
    hsame [reply] hands fun other hother ↦ List.mem_singleton.mp hother ▸ hquiet
  unfold handleSessionMessage
  apply OnReturn.read
  apply OnReturn.ite
  case hpos =>
    intro hkind
    rw [hchain]
    by_cases hchecks : Authenticates native dealer session.challenge session.expiresAt
        m.found.chain.time message
    · rw [authenticate_accepts hchecks]
      apply OnReturn.pure
      rw [handReply_of_auth hkind]
      exact .accepted hevent hsession hkind hchecks
    · have ⟨code, hcode⟩ := authenticate_refuses hchecks
      rw [hcode]
      exact OnReturn.pure (hsingle _ _ rfl)
  case hneg =>
    intro hkind
    apply OnReturn.ite
    · intro _
      exact OnReturn.pure (hsingle _ _ rfl)
    · intro hauthenticated
      have hin : session.authenticated := by simpa using hauthenticated
      apply OnReturn.ite
      · intro _
        unfold subscribe
        apply OnReturn.read
        apply OnReturn.ite
        · intro _
          exact OnReturn.pure (hsingle _ _ rfl)
        · intro _
          apply OnReturn.skip
          intro _ d'
          apply OnReturn.pure
          exact .subscribed hsession hin (handReply_quiet _ _ _)
      · intro _
        apply OnReturn.ite
        · intro _
          exact OnReturn.pure (hsingle _ _ rfl)
        · intro _
          apply OnReturn.bind
          apply (acceptMessage_quiet env native.toNative session.toSession message.toSubmission d).mono
          intro reply d' hquiet
          exact OnReturn.pure (hsingle _ _ hquiet)

/-- An event changes the session of its connection only. -/
def ChangesOne (native : Wallet.Native) (dealer : String) (sessions : Sessions) (m : Moment)
    (result : Sessions × List Reply) : Prop :=
  Change native dealer sessions m result.1[m.connection]? result.2 ∧
    ∀ k, k ≠ m.connection → result.1[k]? = sessions[k]?

theorem changesOne_same {sessions : Sessions} {m : Moment} {replies : List Reply}
    (hquiet : ∀ reply ∈ replies, reply.quiet) : ChangesOne native dealer sessions m (sessions, replies) :=
  ⟨.quiet hquiet, fun _ _ ↦ rfl⟩

theorem changesOne_insert {sessions : Sessions} {m : Moment} {session : PlayerSession}
    {replies : List Reply} (h : Change native dealer sessions m (some session) replies) :
    ChangesOne native dealer sessions m (sessions.insert m.connection session, replies) := by
  constructor
  · rw [OrderedMap.getElem?_insert, if_pos rfl]
    exact h
  · intro k hk
    rw [OrderedMap.getElem?_insert, if_neg (Ne.symm hk)]

theorem liftOutcome_eq {d : Dealer} {α : Type} (outcome : Except Exception α) :
    OnReturn d (liftOutcome outcome : DealerM α) fun a d' ↦ outcome = .ok a ∧ d' = d := by
  cases outcome with
  | ok a => exact ⟨rfl, rfl⟩
  | error e => trivial

theorem dispatchEvent_changes (native : Wallet.Native) (dealer : String) (sessions : Sessions) (m : Moment) :
    OnReturn m.found (dispatchEvent m.env native dealer sessions m.connection m.event)
      fun result _ ↦ ChangesOne native dealer sessions m result := by
  unfold dispatchEvent
  cases hevent : m.event with
  | opened random =>
      apply OnReturn.bind
      apply (liftOutcome_eq random).mono
      intro random d hd
      apply OnReturn.read
      apply OnReturn.pure
      rw [hd.2]
      exact changesOne_insert (.opened random)
  | closed =>
      apply OnReturn.pure
      constructor
      · rw [OrderedMap.getElem?_erase, if_pos rfl]
        exact .closed
      · intro k hk
        rw [OrderedMap.getElem?_erase, if_neg (Ne.symm hk)]
  | message parsed =>
      have hquiet (reply : Reply) (h : reply.quiet) : ∀ other ∈ [reply], other.quiet :=
        fun other hother ↦ List.mem_singleton.mp hother ▸ h
      cases hsession : sessions[m.connection]? with
      | none => exact OnReturn.pure (changesOne_same (hquiet _ rfl))
      | some session =>
          apply OnReturn.bind
          apply (liftOutcome_eq parsed).mono
          intro message d hd
          apply OnReturn.bind
          apply (messageError_chain m.env session message d).mono
          intro error d' hchain
          apply OnReturn.ite
          · intro _
            exact OnReturn.pure (changesOne_same (hquiet _ rfl))
          · intro _
            rw [hd.2] at hchain
            apply OnReturn.bind
            rw [hd.1] at hevent
            apply (handleSessionMessage_change m.env hevent hsession hchain).mono
            intro result d'' hchange
            apply OnReturn.read
            exact OnReturn.pure (changesOne_insert hchange)

theorem outcome_changes (native : Wallet.Native) (dealer : String) (sessions : Sessions) (m : Moment) :
    ChangesOne native dealer sessions m (m.outcome native dealer sessions) := by
  have h := dispatchEvent_changes native dealer sessions m
  unfold OnReturn at h
  unfold Moment.outcome
  cases hr : dispatchEvent m.env native dealer sessions m.connection m.event m.found with
  | ok result d =>
      rw [hr] at h
      exact h
  | error e d => exact changesOne_same (by simp)

theorem handleSessionMessage_auth (native : Wallet.Native) (dealer : String) (env : Env) (session : PlayerSession) {message : PlayerMessage}
    (hkind : message.kind = .auth) (d : Dealer) :
    handleSessionMessage env native dealer session message d =
      .ok ((authenticate native dealer session message d.chain.time).1,
        [(authenticate native dealer session message d.chain.time).2]) d := by
  unfold handleSessionMessage
  simp only [hkind, if_true]
  rfl

/-- A message that passes the checks is accepted. -/
theorem outcome_accepts {sessions : Sessions} {m : Moment} {session : PlayerSession}
    {message : PlayerMessage} (hevent : m.event = .message (.ok message))
    (hsession : sessions[m.connection]? = some session) (hkind : message.kind = .auth)
    (hchecks : Authenticates native dealer session.challenge session.expiresAt m.found.chain.time
      message) :
    m.outcome native dealer sessions =
      (sessions.insert m.connection (session.authenticatedBy message),
        [.authenticated message.address]) := by
  have herror : messageError m.env native session message m.found = .ok "" m.found := by
    unfold messageError
    rw [if_neg (by rw [hkind]; decide)]
    rfl
  have hhandle := handleSessionMessage_auth native dealer m.env session hkind
    m.found
  rw [authenticate_accepts hchecks] at hhandle
  have hdispatch : dispatchEvent m.env native dealer sessions m.connection m.event m.found =
      .ok (sessions.insert m.connection (session.authenticatedBy message),
        [.authenticated message.address]) m.found := by
    unfold dispatchEvent
    simp only [hevent, hsession, liftOutcome, pure_bind]
    rw [bind_returned herror, if_neg (by simp), bind_returned hhandle]
    show EStateM.Result.ok (_, [Reply.authenticated message.address] ++ handReply _ _ message) _ = _
    rw [handReply_of_auth hkind]
    rfl
  unfold Moment.outcome
  rw [hdispatch]

/-! ## 6. What the ledger of a connection records -/

theorem hear_quiet {sessions : Sessions} {m : Moment} {ledger : Ledger} {replies : List Reply}
    (hquiet : ∀ reply ∈ replies, reply.quiet) :
    replies.foldl (Ledger.hear sessions m) ledger = ledger := by
  induction replies with
  | nil => rfl
  | cons reply replies ih =>
      have hsame : ledger.hear sessions m reply = ledger := by
        have hreply := hquiet reply List.mem_cons_self
        cases reply with
        | challenge => cases hreply
        | authenticated => cases hreply
        | subscribed => cases hreply
        | accepted => rfl
        | handState => rfl
        | error => rfl
      rw [List.foldl_cons, hsame]
      exact ih fun other hother ↦ hquiet other (List.mem_cons_of_mem _ hother)

/-- The session of a connection and its ledger after an event. -/
inductive Turn (native : Wallet.Native) (dealer : String) (connection : Nat)
    (s : Sessions × Ledger) (m : Moment) : Option PlayerSession → Ledger → Prop
  | same : Turn native dealer connection s m s.1[connection]? s.2
  | opened (random : RandomBytes) (now : Nat) :
      Turn native dealer connection s m (some (openSession dealer random now).1)
        { challenge := hexBytes random.val }
  | closed : Turn native dealer connection s m none s.2
  | accepted {session : PlayerSession} {message : PlayerMessage}
      (hconnection : m.connection = connection) (hevent : m.event = .message (.ok message))
      (hsession : s.1[connection]? = some session) (hkind : message.kind = .auth)
      (hchecks : Authenticates native dealer session.challenge session.expiresAt
        m.found.chain.time message) :
      Turn native dealer connection s m (some (session.authenticatedBy message))
        { s.2 with accepted := s.2.accepted ++ [authenticationOf session message] }
  | subscribed {session : PlayerSession} (table : String)
      (hsession : s.1[connection]? = some session) (hauthenticated : session.authenticated) :
      Turn native dealer connection s m (some { session with table })
        { s.2 with subscribedAfter := some s.2.accepted.length }

/-- The sessions with the ledger of one connection, at every event. -/
def ledgerStep (native : Wallet.Native) (dealer : String) (connection : Nat) :
    Sessions × Ledger → Moment → Sessions × Ledger :=
  watch (socketStep native dealer) (Ledger.observe native dealer connection)

theorem ledgerStep_turn (native : Wallet.Native) (dealer : String) (connection : Nat) (s : Sessions × Ledger) (m : Moment) :
    Turn native dealer connection s m (ledgerStep native dealer connection s m).1[connection]?
      (ledgerStep native dealer connection s m).2 := by
  have ⟨hchange, hothers⟩ := outcome_changes native dealer s.1 m
  show Turn native dealer connection s m (m.outcome native dealer s.1).1[connection]?
    (Ledger.observe native dealer connection s.2 s.1 m)
  unfold Ledger.observe
  by_cases hconnection : m.connection = connection
  case neg =>
    rw [if_neg hconnection, hothers connection (Ne.symm hconnection)]
    exact .same
  case pos =>
    rw [if_pos hconnection]
    subst hconnection
    generalize hentry : (m.outcome native dealer s.1).1[m.connection]? = entry at hchange
    generalize (m.outcome native dealer s.1).2 = replies at hchange
    cases hchange with
    | quiet hquiet =>
        rw [hear_quiet hquiet]
        exact .same
    | opened random => exact .opened random _
    | closed => exact .closed
    | accepted hevent hsession hkind hchecks =>
        rw [List.foldl_cons, List.foldl_nil, Ledger.hear]
        simp only [hsession, hevent]
        exact .accepted rfl hevent hsession hkind hchecks
    | subscribed hsession hauthenticated hrest =>
        rw [List.foldl_cons, hear_quiet hrest]
        exact .subscribed _ hsession hauthenticated

/-! ## 7. Challenges are used once -/

/-- A session waits for its authentication with the challenge it was opened with, or has had one and
kept no challenge. -/
def Tracked (session : PlayerSession) (ledger : Ledger) : Prop :=
  if session.authenticated then session.challenge = "" ∧ ledger.accepted ≠ []
  else session.challenge = ledger.challenge ∧ ledger.challenge ≠ "" ∧ ledger.accepted = [] ∧
    session.address = "" ∧ session.publicKey = "" ∧ session.table = ""

def TracksSession (connection : Nat) (s : Sessions × Ledger) : Prop :=
  ∀ session, s.1[connection]? = some session → Tracked session s.2

theorem hexBytes_ne_empty (random : RandomBytes) : hexBytes random.val ≠ "" := by
  have hdigit : ∀ digit < 16, hexDigit digit ≠ "" := by decide
  have hne : random.val ≠ [] := fun h ↦ by
    have hlength := random.property
    rw [h] at hlength
    cases hlength
  rw [← List.dropLast_append_getLast hne, hexBytes, List.foldl_append, List.foldl_cons, List.foldl_nil]
  intro h
  rw [String.append_eq_empty_iff] at h
  exact hdigit _ (Nat.mod_lt _ (by decide)) h.2

theorem tracksSession_step {connection : Nat} {s : Sessions × Ledger} (m : Moment)
    (h : TracksSession connection s) : TracksSession connection (ledgerStep native dealer connection s m) := by
  intro session' hsession'
  have hturn := ledgerStep_turn native dealer connection s m
  rw [hsession'] at hturn
  generalize (ledgerStep native dealer connection s m).2 = ledger at hturn
  generalize hentry : some session' = entry at hturn
  cases hturn with
  | same => exact h session' hentry.symm
  | opened random now =>
      rw [Option.some.inj hentry]
      exact ⟨rfl, hexBytes_ne_empty random, rfl, rfl, rfl, rfl⟩
  | closed => cases hentry
  | accepted hconnection hevent hsession hkind hchecks =>
      rw [Option.some.inj hentry]
      exact ⟨rfl, List.append_ne_nil_of_right_ne_nil _ (List.cons_ne_nil _ _)⟩
  | subscribed table hsession hauthenticated =>
      have htracked := h _ hsession
      rw [Tracked, if_pos hauthenticated] at htracked
      rw [Option.some.inj hentry, Tracked]
      simp only [hauthenticated, if_true]
      exact htracked

/-- What `SingleUse` says of the ledger alone. -/
structure UsedOnce (native : Wallet.Native) (dealer : String) (ledger : Ledger) : Prop where
  verified : ∀ a ∈ ledger.accepted, a.Verified native dealer
  generated : ∀ a ∈ ledger.accepted, a.challenge ≠ "" ∧ a.challenge = ledger.challenge
  once : (ledger.accepted.map Authentication.challenge).Nodup

theorem singleUse_iff {connection : Nat} {s : Sessions × Ledger} :
    SingleUse native dealer connection s ↔ UsedOnce native dealer s.2 ∧
      ∀ session, s.1[connection]? = some session → Belongs session s.2 :=
  ⟨fun h ↦ ⟨⟨h.verified, h.generated, h.once⟩, h.belongs⟩,
    fun h ↦ ⟨h.1.verified, h.1.generated, h.1.once, h.2⟩⟩

theorem usedOnce_nil (challenge : String) (subscribedAfter : Option Nat) :
    UsedOnce native dealer ⟨challenge, [], subscribedAfter⟩ :=
  { verified := fun _ h ↦ nomatch h
    generated := fun _ h ↦ nomatch h
    once := List.nodup_nil }

/-- The first authentication of a session. -/
theorem usedOnce_accepted {s : Sessions × Ledger} {m : Moment} {session : PlayerSession}
    {message : PlayerMessage} (htracked : Tracked session s.2) (hfirst : session.authenticated = false)
    (hchecks : Authenticates native dealer session.challenge session.expiresAt
      m.found.chain.time message) :
    UsedOnce native dealer
        { s.2 with accepted := s.2.accepted ++ [authenticationOf session message] } ∧
      Belongs (session.authenticatedBy message)
        { s.2 with accepted := s.2.accepted ++ [authenticationOf session message] } := by
  rw [Tracked, hfirst] at htracked
  simp only [Bool.false_eq_true, if_false] at htracked
  have ⟨hchallenge, hne, hnone, _, _, htable⟩ := htracked
  simp only [hnone, List.nil_append]
  constructor
  · constructor
    · intro a ha
      rw [List.mem_singleton.mp ha]
      exact hchecks.verified
    · intro a ha
      rw [List.mem_singleton.mp ha]
      show session.challenge ≠ "" ∧ session.challenge = s.2.challenge
      rw [hchallenge]
      exact ⟨hne, rfl⟩
    · exact List.pairwise_singleton _ _
  · exact ⟨rfl, rfl, fun hsubscribed ↦ absurd htable hsubscribed⟩

theorem singleUse_step {connection : Nat} {s : Sessions × Ledger} {m : Moment}
    (htracks : TracksSession connection s) (h : SingleUse native dealer connection s)
    (hallowed : NotReplayed native dealer connection s.1 m) :
    SingleUse native dealer connection (ledgerStep native dealer connection s m) := by
  rw [singleUse_iff] at h ⊢
  have ⟨hused, hbelongs⟩ := h
  have hturn := ledgerStep_turn native dealer connection s m
  generalize ledgerStep native dealer connection s m = s' at hturn ⊢
  generalize s'.1[connection]? = entry at hturn ⊢
  generalize s'.2 = ledger at hturn ⊢
  cases hturn with
  | same => exact h
  | opened random now =>
      refine ⟨usedOnce_nil _ _, fun session hsession ↦ ?_⟩
      rw [← Option.some.inj hsession]
      exact ⟨rfl, rfl, fun hsubscribed ↦ absurd rfl hsubscribed⟩
  | closed => exact ⟨hused, fun _ hsession ↦ nomatch hsession⟩
  | @accepted session message hconnection hevent hsession hkind hchecks =>
      have htracked := htracks session hsession
      cases hfirst : session.authenticated with
      | false =>
          have hboth := usedOnce_accepted htracked hfirst hchecks
          exact ⟨hboth.1, fun session' hsession' ↦ Option.some.inj hsession' ▸ hboth.2⟩
      | true =>
          -- The challenge is empty by now, and the condition excludes this message.
          rw [Tracked, if_pos hfirst] at htracked
          rw [htracked.1] at hchecks
          exact absurd hchecks (hallowed session message hconnection hevent hsession hfirst hkind)
  | subscribed table hsession hauthenticated =>
      have htracked := htracks _ hsession
      rw [Tracked, if_pos hauthenticated] at htracked
      refine ⟨⟨hused.verified, hused.generated, hused.once⟩, fun session' hsession' ↦ ?_⟩
      have hsame := hbelongs _ hsession
      rw [← Option.some.inj hsession']
      exact ⟨hsame.address, hsame.publicKey, fun _ ↦ ⟨htracked.2, rfl⟩⟩

/-- A replayed message puts the empty challenge in the ledger. -/
theorem not_singleUse_step {connection : Nat} {s : Sessions × Ledger} {m : Moment}
    (htracks : TracksSession connection s) (hreplayed : ¬NotReplayed native dealer connection s.1 m) :
    ¬SingleUse native dealer connection (ledgerStep native dealer connection s m) := by
  simp only [NotReplayed, not_forall, not_not] at hreplayed
  have ⟨session, message, hconnection, hevent, hsession, hauthenticated, hkind, hchecks⟩ := hreplayed
  have htracked := htracks session hsession
  rw [Tracked, if_pos hauthenticated] at htracked
  subst hconnection
  rw [← htracked.1] at hchecks
  have hledger : (ledgerStep native dealer m.connection s m).2 =
      { s.2 with accepted := s.2.accepted ++ [authenticationOf session message] } := by
    show Ledger.observe native dealer m.connection s.2 s.1 m = _
    rw [Ledger.observe, if_pos rfl, outcome_accepts hevent hsession hkind hchecks]
    rw [List.foldl_cons, List.foldl_nil, Ledger.hear]
    simp only [hsession, hevent]
  intro h
  have hmem : authenticationOf session message ∈
      (ledgerStep native dealer m.connection s m).2.accepted := by
    rw [hledger]
    exact List.mem_append_right _ List.mem_cons_self
  exact (h.generated _ hmem).1 htracked.1

/-- The challenges of a connection are used once all along a run exactly if no message of the run
authenticates a session a second time. -/
theorem challenges_single_use_iff (native : Wallet.Native) (dealer : String) (connection : Nat)
    (moments : List Moment) :
    (∀ k, SingleUse native dealer connection
        (run (ledgerStep native dealer connection) (∅, {}) (moments.take k))) ↔
      Meets (socketStep native dealer) (NotReplayed native dealer connection) ∅ moments := by
  have hnone (session : PlayerSession) (h : (∅ : Sessions)[connection]? = some session) : False := by
    simp at h
  have htracks : TracksSession connection (∅, {}) := fun session h ↦ (hnone session h).elim
  have hstart : SingleUse native dealer connection (∅, {}) :=
    singleUse_iff.mpr ⟨usedOnce_nil _ _, fun session h ↦ (hnone session h).elim⟩
  rw [← meets_watch (Ledger.observe native dealer connection) ∅ {} moments]
  symm
  apply meets_iff_always (J := TracksSession connection) _ _ htracks hstart
  · exact fun s m ↦ tracksSession_step m
  · intro s m htracks hsingle
    constructor
    · exact singleUse_step htracks hsingle
    · intro hstep
      by_contra hreplayed
      exact not_singleUse_step htracks hreplayed hstep

/-! ## 8. A challenge used twice -/

/-- A toy library: the digest of a text tells whether it is long, and a signature is the digest twice. -/
def toyNative : Wallet.Native :=
  { sha256 := fun text ↦ String.ofList (List.replicate 64 (if text.length > 150 then '1' else '0'))
    verify := fun hash _ signature ↦ signature = hash ++ hash
    publicKeyValid := fun _ ↦ true }

/-- A message of the one player, signed with the digits of a digest. -/
def signedAuth (digit : Char) : PlayerMessage :=
  { kind := .auth
    address := "mmx1qqqqqqqqqqqqqqqqqqqqqqqqqqqqqqqqqqqqqqqqqqqqqqqqqqqqdgytev"
    publicKey := String.ofList (List.replicate 66 '0')
    signature := String.ofList (List.replicate 128 digit) }

def quietMoment (event : SocketEvent) : Moment :=
  ⟨⟨.silent, fun _ ↦ .done, fun _ ↦ false, fun _ ↦ 0⟩, .fresh, 1, event⟩

/-- The connection is opened; the player signs the challenge and then the empty text. -/
def replay : List Moment :=
  [quietMoment (.opened (.ok ⟨List.replicate 32 0, rfl⟩)),
    quietMoment (.message (.ok (signedAuth '1'))), quietMoment (.message (.ok (signedAuth '0')))]

theorem replay_accepted : ((run (ledgerStep toyNative "dealer" 1) (∅, {}) replay).2.accepted.map
    Authentication.challenge) = [String.ofList (List.replicate 64 '0'), ""] := by
  decide +kernel

/-- Both messages of `replay` are accepted, the second one over the empty challenge. -/
theorem replay_reuses : ¬∀ (native : Wallet.Native) (dealer : String) (connection : Nat)
    (moments : List Moment), SingleUse native dealer connection
      (run (ledgerStep native dealer connection) (∅, {}) moments) := by
  intro h
  have hused := h toyNative "dealer" 1 replay
  have hmem : "" ∈ (run (ledgerStep toyNative "dealer" 1) (∅, {}) replay).2.accepted.map
      Authentication.challenge := by
    rw [replay_accepted]
    exact List.mem_cons_of_mem _ List.mem_cons_self
  have ⟨a, ha, hempty⟩ := List.mem_map.mp hmem
  exact (hused.generated a ha).1 hempty

end Stainless.Poker
