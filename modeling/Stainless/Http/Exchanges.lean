import Stainless.Http.Server

/-!
# HTTP exchanges

Every request is served by a task of its own, which registers it, queues its event and waits for the
application or for the timeout.  A call of `respond_bytes` takes the request out of the table first and
sends afterwards.  The tasks and the calls interleave in any order.
-/

open Stainless.Runtime Reasoning

namespace Stainless.Http

/-! ## 1. Requests and responses -/

/-- Of the headers only their text matters here. -/
structure Request where
  method : String
  path : String
  query : String
  headers : String
deriving DecidableEq, Repr

structure ResponseSpec where
  status : Nat
  contentType : String
  body : List UInt8
deriving DecidableEq, Repr

inductive ResponseBody
  | bytes (body : List UInt8)
  /-- `{"error": {"code": …, "message": …}}` -/
  | error (code message : String)
deriving DecidableEq, Repr

/-- What the client gets, without the constant headers of `cors_response`. -/
structure Response where
  status : Nat
  contentType : Option String
  body : ResponseBody
deriving DecidableEq, Repr

/-- A header value is visible ASCII or tabs. -/
def parseHeaderValue (value : String) : Option String :=
  if value.toList.all fun c ↦ (32 ≤ c.toNat && c.toNat < 127) || c = '\t' then some value else none

def corsResponse (status : Nat) (contentType : String) (body : ResponseBody) : Response :=
  { status, contentType := parseHeaderValue contentType, body }

def applicationResponse (response : ResponseSpec) : Response :=
  let status := if 100 ≤ response.status ∧ response.status ≤ 999 then response.status else 500
  corsResponse status response.contentType (.bytes response.body)

def jsonError (status : Nat) (code message : String) : Response :=
  corsResponse status "application/json" (.error code message)

/-- How a task that is not dropped ends. -/
inductive Answer
  | bodyRejected (message : String)
  | queueFull
  | application (response : ResponseSpec)
  | channelClosed
  | timeout
deriving DecidableEq, Repr

def Answer.response : Answer → Response
  | .bodyRejected message => jsonError 413 "request_body_rejected" message
  | .queueFull => jsonError 503 "event_queue_full" "the application event queue is full"
  | .application response => applicationResponse response
  | .channelClosed =>
      jsonError 503 "response_channel_closed" "the application stopped before answering"
  | .timeout =>
      jsonError 504 "response_timeout" "the application did not answer before its request timeout"

/-! ## 2. State -/

/-- Where a run of `handle_http` is, up to its next access to the shared state. -/
inductive Stage
  /-- It waits in `to_bytes`. -/
  | reading
  | registering (body : List UInt8)
  | queueing
  /-- The event was refused; the request is about to leave the table. -/
  | withdrawing
  | waiting
  /-- The timeout has won; the receiver is about to be dropped. -/
  | elapsed
  /-- The request is about to leave the table. -/
  | expired
  | answered (answer : Answer)
  /-- The task was dropped while it read the body: the client is gone, or the runtime. -/
  | dropped
  /-- The task was dropped while it waited; the request stays in the table. -/
  | abandoned
deriving DecidableEq, Repr

/-- The receiver of the channel is not dropped. -/
def Stage.receives : Stage → Bool
  | .queueing | .withdrawing | .waiting | .elapsed => true
  | .reading | .registering _ | .expired | .answered _ | .dropped | .abandoned => false

/-- A run of `handle_http`.  The value in its channel stays noted when it has been received. -/
structure Exchange where
  request : Request
  body : List UInt8
  stage : Stage
  channel : Option ResponseSpec
deriving DecidableEq, Repr

/-- What the client has got. -/
def Exchange.reply (e : Exchange) : Option Response :=
  match e.stage with
  | .answered answer => some answer.response
  | _ => none

/-- The `http` event of a request. -/
structure HttpEvent where
  requestId : Nat
  request : Request
  body : Option String
deriving DecidableEq, Repr

inductive Queued
  | http (event : HttpEvent)
  | other (text : String)
deriving DecidableEq, Repr

/-- The shared state as far as HTTP requests go, with the tasks and the calls that share it.  The
sender of a request in the table, or in the hands of a call, is known by its id. -/
structure Exchanges where
  events : List Queued
  nextRequestId : Nat
  pendingHttp : OrderedMap Nat (List UInt8)
  tasks : OrderedMap Nat Exchange
  /-- The calls of `respond_bytes` that have taken their request and are about to send. -/
  taken : OrderedMap Nat ResponseSpec
  /-- All calls of `respond_bytes` that have taken their request. -/
  takes : List (Nat × ResponseSpec)
  /-- What the calls of `respond_bytes` returned. -/
  results : List (Nat × ResponseSpec × Bool)
  /-- What `next_event` returned. -/
  received : List Queued

namespace Exchanges

def bind : Exchanges where
  events := []
  nextRequestId := 1
  pendingHttp := ∅
  tasks := ∅
  taken := ∅
  takes := []
  results := []
  received := []

/-! ## 3. The task of a request -/

def setTask (s : Exchanges) (id : Nat) (e : Exchange) : Exchanges := { s with tasks := s.tasks.insert id e }

/-- A preflight request is answered at once, and gets no id. -/
def handleHttp (s : Exchanges) (request : Request) : Exchanges :=
  if request.method = "OPTIONS" then s
  else
    { s with nextRequestId := fetchAdd s.nextRequestId }.setTask s.nextRequestId
      { request, body := [], stage := .reading, channel := none }

def event (id : Nat) (e : Exchange) : HttpEvent where
  requestId := id
  request := e.request
  body := String.fromUTF8? e.body.toByteArray

/-- `try_send`: the queue takes an event only when it is not full. -/
def trySend (s : Exchanges) (event : Queued) : Option Exchanges :=
  if s.events.length < eventQueueCapacity then some { s with events := s.events ++ [event] } else none

/-- The next access of a task that waits for nothing. -/
def proceed (s : Exchanges) (id : Nat) (e : Exchange) : Exchanges :=
  match e.stage with
  | .registering body =>
      { s with pendingHttp := s.pendingHttp.insert id body }.setTask id { e with body, stage := .queueing }
  | .queueing =>
      match s.trySend (.http (event id e)) with
      | some s => s.setTask id { e with stage := .waiting }
      | none => s.setTask id { e with stage := .withdrawing }
  | .withdrawing =>
      { s with pendingHttp := s.pendingHttp.erase id }.setTask id { e with stage := .answered .queueFull }
  | .elapsed => s.setTask id { e with stage := .expired }
  | .expired =>
      { s with pendingHttp := s.pendingHttp.erase id }.setTask id { e with stage := .answered .timeout }
  | .reading | .waiting | .answered _ | .dropped | .abandoned => s

/-- `to_bytes` is done. -/
def readBody (s : Exchanges) (id : Nat) (e : Exchange) : Except String (List UInt8) → Exchanges
  | .ok body => s.setTask id { e with stage := .registering body }
  | .error message => s.setTask id { e with stage := .answered (.bodyRejected message) }

/-- The sender of the request still exists. -/
def hasSender (s : Exchanges) (id : Nat) : Bool := id ∈ s.pendingHttp || id ∈ s.taken

/-- The task looks at its channel, and at the clock when there is nothing to receive. -/
def poll (s : Exchanges) (id : Nat) (e : Exchange) (late : Bool) : Exchanges :=
  match e.channel with
  | some response => s.setTask id { e with stage := .answered (.application response) }
  | none =>
      if ¬s.hasSender id then s.setTask id { e with stage := .answered .channelClosed }
      else if late then s.setTask id { e with stage := .elapsed }
      else s

/-- What a task does next. -/
inductive Move
  | readBody (outcome : Except String (List UInt8))
  | proceed
  | poll (late : Bool)
  | drop

def moveTask (s : Exchanges) (id : Nat) (e : Exchange) : Move → Exchanges
  | .readBody outcome => if e.stage = .reading then s.readBody id e outcome else s
  | .proceed => s.proceed id e
  | .poll late => if e.stage = .waiting then s.poll id e late else s
  | .drop =>
      if e.stage = .reading then s.setTask id { e with stage := .dropped }
      else if e.stage = .waiting then s.setTask id { e with stage := .abandoned }
      else s

/-! ## 4. What the application calls -/

def notPending (id : Nat) : String := s!"HTTP request {id} is not pending"

def requestBytes (s : Exchanges) (id : Nat) : Except String (List UInt8) :=
  match s.pendingHttp[id]? with
  | some body => .ok body
  | none => .error (notPending id)

/-- `respond_bytes` takes the request out of the table. -/
def respondBytes (s : Exchanges) (id : Nat) (response : ResponseSpec) : Exchanges :=
  if id ∈ s.pendingHttp then
    { s with
      pendingHttp := s.pendingHttp.erase id
      taken := s.taken.insert id response
      takes := s.takes ++ [(id, response)] }
  else { s with results := s.results ++ [(id, response, false)] }

/-- The rest of `respond_bytes`: it sends, and returns whether the receiver was there. -/
def sendResponse (s : Exchanges) (id : Nat) : Exchanges :=
  match s.taken[id]?, s.tasks[id]? with
  | some response, some e =>
      let s := { s with taken := s.taken.erase id }
      if e.stage.receives then
        { s with results := s.results ++ [(id, response, true)] }.setTask id { e with channel := some response }
      else { s with results := s.results ++ [(id, response, false)] }
  | _, _ => s

def nextEvent (s : Exchanges) : Exchanges :=
  match s.events with
  | [] => s
  | event :: events => { s with events, received := s.received ++ [event] }

/-! ## 5. Steps -/

inductive Action
  | request (request : Request)
  | task (id : Nat) (move : Move)
  | respondBytes (id : Nat) (response : ResponseSpec)
  | sendResponse (id : Nat)
  | nextEvent
  /-- An event of a WebSocket connection or of the runtime. -/
  | emit (text : String)

def step (s : Exchanges) : Action → Exchanges
  | .request request => s.handleHttp request
  | .task id move =>
      match s.tasks[id]? with
      | some e => s.moveTask id e move
      | none => s
  | .respondBytes id response => s.respondBytes id response
  | .sendResponse id => s.sendResponse id
  | .nextEvent => s.nextEvent
  | .emit text => (s.trySend (.other text)).getD s

/-- The counter of requests does not wrap around. -/
def Counts (s : Exchanges) : Action → Prop
  | .request _ => s.nextRequestId + 1 < 2 ^ 64
  | _ => True

instance (s : Exchanges) : ∀ a, Decidable (s.Counts a)
  | .request _ => inferInstanceAs (Decidable (_ < _))
  | .task _ _ | .respondBytes _ _ | .sendResponse _ | .nextEvent | .emit _ => inferInstanceAs (Decidable True)

end Exchanges

/-! ## 6. One request -/

/-- The request has not entered the table. -/
def Stage.fresh : Stage → Bool
  | .reading | .registering _ | .answered (.bodyRejected _) | .dropped => true
  | _ => false

/-- The request is in the table as long as no call takes it. -/
def Stage.registered : Stage → Bool
  | .queueing | .withdrawing | .waiting | .elapsed | .expired | .abandoned => true
  | _ => false

/-- The receiver is dropped, and no response was received. -/
def Stage.over : Stage → Bool
  | .expired | .abandoned | .answered .queueFull | .answered .timeout => true
  | _ => false

/-- No event has been queued. -/
def Stage.quiet : Stage → Bool
  | .reading | .registering _ | .queueing | .withdrawing => true
  | _ => false

/-- The event has been queued. -/
def Stage.announced : Stage → Bool
  | .waiting | .elapsed | .expired | .answered .timeout => true
  | _ => false

/-- What the shared state holds of one request: its body in the table, the response of a call that has
taken it, the responses of all calls that took it and of those that returned true, and its events, received
ones first. -/
structure Side where
  pending : Option (List UInt8)
  taken : Option ResponseSpec
  takes : List ResponseSpec
  succeeded : List ResponseSpec
  heard : List HttpEvent

/-- Where the sender of a request is, with the calls that took it and those that returned true. -/
inductive Sender (e : Exchange) :
    Option (List UInt8) → Option ResponseSpec → List ResponseSpec → List ResponseSpec → Prop
  | unborn (hstage : e.stage.fresh = true) (hchannel : e.channel = none) : Sender e none none [] []
  | pending (hstage : e.stage.registered = true) (hchannel : e.channel = none) : Sender e (some e.body) none [] []
  | taken (response : ResponseSpec) (hstage : e.stage.registered = true ∨ e.stage.over = true)
      (hchannel : e.channel = none) : Sender e none (some response) [response] []
  | sent (response : ResponseSpec)
      (hstage : e.stage.registered = true ∨ e.stage.over = true ∨ e.stage = .answered (.application response))
      (hchannel : e.channel = some response) : Sender e none none [response] [response]
  /-- A call came too late. -/
  | missed (response : ResponseSpec) (hstage : e.stage.over = true) (hchannel : e.channel = none) :
      Sender e none none [response] []
  /-- The task took the request out of the table. -/
  | withdrawn (hstage : e.stage.over = true) (hgone : e.stage.registered = false) (hchannel : e.channel = none) :
      Sender e none none [] []

structure Good (id : Nat) (e : Exchange) (x : Side) : Prop where
  sender : Sender e x.pending x.taken x.takes x.succeeded
  heard : x.heard = [] ∨ x.heard = [Exchanges.event id e]
  quiet : e.stage.quiet = true → x.heard = []
  announced : e.stage.announced = true → x.heard = [Exchanges.event id e]

namespace Good

variable {id : Nat} {e : Exchange} {x : Side} {st : Stage} {response : ResponseSpec}

/-- A step of the task alone, while it has its receiver. -/
theorem stage (h : Good id e x) (hfresh : e.stage.fresh = true → st.fresh = true)
    (hregistered : e.stage.registered = true → st.registered = true) (hover : e.stage.over = false)
    (hquiet : st.quiet = true → e.stage.quiet = true) (hloud : st.announced = true → e.stage.announced = true)
    (hanswer : ∀ response, e.stage ≠ .answered (.application response)) : Good id { e with stage := st } x := by
  obtain ⟨pending, taken, takes, succeeded, heard⟩ := x
  obtain ⟨hsender, hheard, hq, hl⟩ := h
  have hnot : ¬e.stage.over = true := by rw [hover]; exact Bool.false_ne_true
  refine ⟨?_, hheard, fun hst ↦ hq (hquiet hst), fun hst ↦ hl (hloud hst)⟩
  cases hsender with
  | unborn hstage hchannel => exact .unborn (hfresh hstage) hchannel
  | pending hstage hchannel => exact .pending (e := { e with stage := st }) (hregistered hstage) hchannel
  | taken response hstage hchannel =>
      exact .taken response (.inl (hregistered (hstage.resolve_right hnot))) hchannel
  | sent response hstage hchannel =>
      rcases hstage with hstage | hstage | hstage
      · exact .sent response (.inl (hregistered hstage)) hchannel
      · exact absurd hstage hnot
      · exact absurd hstage (hanswer response)
  | missed response hstage => exact absurd hstage hnot
  | withdrawn hstage => exact absurd hstage hnot

theorem register {body : List UInt8} (h : Good id e x) (hstage : e.stage = .registering body) :
    Good id { e with body, stage := .queueing } { x with pending := some body } := by
  obtain ⟨pending, taken, takes, succeeded, heard⟩ := x
  obtain ⟨hsender, -, hq, -⟩ := h
  have hheard : heard = [] := hq (by rw [hstage]; rfl)
  refine ⟨?_, .inl hheard, fun _ ↦ hheard, nofun⟩
  cases hsender with
  | unborn _ hchannel => exact .pending (e := { e with body, stage := .queueing }) rfl hchannel
  | pending hwrong => rw [hstage] at hwrong; cases hwrong
  | taken _ hwrong => rw [hstage] at hwrong; rcases hwrong with hwrong | hwrong <;> cases hwrong
  | sent _ hwrong =>
      rw [hstage] at hwrong
      rcases hwrong with hwrong | hwrong | hwrong <;> cases hwrong
  | missed _ hwrong => rw [hstage] at hwrong; cases hwrong
  | withdrawn hwrong => rw [hstage] at hwrong; cases hwrong

theorem announce (h : Good id e x) (hstage : e.stage = .queueing) :
    Good id { e with stage := .waiting } { x with heard := x.heard ++ [Exchanges.event id e] } := by
  have hheard : x.heard = [] := h.quiet (by rw [hstage]; rfl)
  have hlast : x.heard ++ [Exchanges.event id e] = [Exchanges.event id e] := by rw [hheard]; rfl
  refine ⟨?_, .inr hlast, nofun, fun _ ↦ hlast⟩
  -- the sender is where it is for any task that may be in the table
  obtain ⟨pending, taken, takes, succeeded, heard⟩ := x
  obtain ⟨hsender, -, -, -⟩ := h
  cases hsender with
  | unborn hwrong => rw [hstage] at hwrong; cases hwrong
  | pending _ hchannel => exact .pending (e := { e with stage := .waiting }) rfl hchannel
  | taken response _ hchannel => exact .taken response (.inl rfl) hchannel
  | sent response _ hchannel => exact .sent response (.inl rfl) hchannel
  | missed _ hwrong => rw [hstage] at hwrong; cases hwrong
  | withdrawn hwrong => rw [hstage] at hwrong; cases hwrong

/-- The task gives the request up, and takes it out of the table. -/
theorem giveUp (h : Good id e x) (hstage : e.stage = .withdrawing ∨ e.stage = .expired)
    (hover : st.over = true) (hgone : st.registered = false)
    (hloud : st.announced = true → e.stage.announced = true) :
    Good id { e with stage := st } { x with pending := none } := by
  have hnot : e.stage.fresh = false := by
    rcases hstage with hstage | hstage
    · rw [hstage]; rfl
    · rw [hstage]; rfl
  have hquiet : ¬st.quiet = true := by
    cases st with
    | expired => exact nofun
    | abandoned => exact nofun
    | answered answer => exact nofun
    | _ => cases hover
  obtain ⟨pending, taken, takes, succeeded, heard⟩ := x
  obtain ⟨hsender, hheard, -, hl⟩ := h
  refine ⟨?_, hheard, fun hq ↦ absurd hq hquiet, fun hst ↦ hl (hloud hst)⟩
  cases hsender with
  | unborn hwrong => rw [hnot] at hwrong; cases hwrong
  | pending _ hchannel => exact .withdrawn hover hgone hchannel
  | taken response _ hchannel => exact .taken response (.inr hover) hchannel
  | sent response _ hchannel => exact .sent response (.inr (.inl hover)) hchannel
  | missed response _ hchannel => exact .missed response hover hchannel
  | withdrawn _ _ hchannel => exact .withdrawn hover hgone hchannel

/-- A task that waits without a value in its channel has a sender. -/
theorem sender_of_waiting (h : Good id e x) (hstage : e.stage = .waiting) (hchannel : e.channel = none) :
    x.pending.isSome = true ∨ x.taken.isSome = true := by
  obtain ⟨pending, taken, takes, succeeded, heard⟩ := x
  obtain ⟨hsender, -, -, -⟩ := h
  cases hsender with
  | unborn hwrong => rw [hstage] at hwrong; cases hwrong
  | pending => exact .inl rfl
  | taken => exact .inr rfl
  | sent response _ hwrong => rw [hchannel] at hwrong; cases hwrong
  | missed _ hwrong => rw [hstage] at hwrong; cases hwrong
  | withdrawn hwrong => rw [hstage] at hwrong; cases hwrong

theorem answer (h : Good id e x) (hchannel : e.channel = some response) :
    Good id { e with stage := .answered (.application response) } x := by
  obtain ⟨pending, taken, takes, succeeded, heard⟩ := x
  obtain ⟨hsender, hheard, -, -⟩ := h
  refine ⟨?_, hheard, nofun, nofun⟩
  cases hsender with
  | sent response' _ hchannel' =>
      rw [hchannel'] at hchannel
      cases hchannel
      exact .sent response (.inr (.inr rfl)) hchannel'
  | unborn _ hwrong => rw [hchannel] at hwrong; cases hwrong
  | pending _ hwrong => rw [hchannel] at hwrong; cases hwrong
  | taken _ _ hwrong => rw [hchannel] at hwrong; cases hwrong
  | missed _ _ hwrong => rw [hchannel] at hwrong; cases hwrong
  | withdrawn _ _ hwrong => rw [hchannel] at hwrong; cases hwrong

/-- A call takes the request. -/
theorem take {body : List UInt8} (h : Good id e x) (hpending : x.pending = some body) :
    Good id e { x with pending := none, taken := some response, takes := x.takes ++ [response] } := by
  obtain ⟨hsender, hheard, hq, hl⟩ := h
  refine ⟨?_, hheard, hq, hl⟩
  obtain ⟨pending, taken, takes, succeeded, heard⟩ := x
  cases hsender with
  | pending hstage hchannel => exact .taken response (.inl hstage) hchannel
  | _ => cases hpending

/-- The call sends: the receiver is there and gets the response, or the task is over. -/
theorem send (h : Good id e x) (htaken : x.taken = some response) :
    if e.stage.receives = true then
      Good id { e with channel := some response } { x with taken := none, succeeded := x.succeeded ++ [response] }
    else Good id e { x with taken := none } := by
  obtain ⟨hsender, hheard, hq, hl⟩ := h
  obtain ⟨pending, taken, takes, succeeded, heard⟩ := x
  cases hsender with
  | taken response' hstage hchannel =>
      cases htaken
      split
      case isTrue hreceives =>
        refine ⟨.sent response ?_ rfl, hheard, hq, hl⟩
        exact hstage.imp_right .inl
      case isFalse hgone =>
        refine ⟨.missed response ?_ hchannel, hheard, hq, hl⟩
        rcases hstage with hstage | hstage
        · cases hst : e.stage with
          | expired => rfl
          | abandoned => rfl
          | _ => simp [hst, Stage.registered, Stage.receives] at hstage hgone
        · exact hstage
  | _ => cases htaken

/-- Until a call takes it, the request of a registered task is in the table. -/
theorem pending_eq (h : Good id e x) :
    x.pending = if e.stage.registered = true ∧ x.takes = [] then some e.body else none := by
  obtain ⟨hsender, -, -, -⟩ := h
  obtain ⟨pending, taken, takes, succeeded, heard⟩ := x
  cases hsender with
  | pending hstage => exact (if_pos ⟨hstage, rfl⟩).symm
  | unborn hstage =>
      refine (if_neg ?_).symm
      rintro ⟨hregistered, -⟩
      revert hstage hregistered
      cases e.stage with
      | answered answer => exact fun _ ↦ nofun
      | reading => exact fun _ ↦ nofun
      | registering body => exact fun _ ↦ nofun
      | dropped => exact fun _ ↦ nofun
      | _ => exact nofun
  | taken => exact (if_neg fun h ↦ List.cons_ne_nil _ _ h.2).symm
  | sent => exact (if_neg fun h ↦ List.cons_ne_nil _ _ h.2).symm
  | missed => exact (if_neg fun h ↦ List.cons_ne_nil _ _ h.2).symm
  | withdrawn _ hgone => exact (if_neg fun h ↦ Bool.false_ne_true (hgone.symm.trans h.1)).symm

/-- At most one call took the request, and only that one can have returned true. -/
theorem takes_le (h : Good id e x) : x.takes.length ≤ 1 ∧ (x.succeeded = [] ∨ x.succeeded = x.takes) := by
  obtain ⟨hsender, -, -, -⟩ := h
  obtain ⟨pending, taken, takes, succeeded, heard⟩ := x
  cases hsender with
  | sent => exact ⟨le_refl 1, .inr rfl⟩
  | taken => exact ⟨le_refl 1, .inl rfl⟩
  | missed => exact ⟨le_refl 1, .inl rfl⟩
  | _ => exact ⟨Nat.zero_le 1, .inl rfl⟩

/-- How the task can have ended. -/
theorem answered {answer : Answer} (h : Good id e x) (hstage : e.stage = .answered answer) :
    (∃ response, answer = .application response ∧ x.succeeded = [response]) ∨
      (∃ message, answer = .bodyRejected message ∧ x.succeeded = []) ∨ answer = .queueFull ∨ answer = .timeout := by
  obtain ⟨hsender, -, -, -⟩ := h
  obtain ⟨pending, taken, takes, succeeded, heard⟩ := x
  -- a task that is over was answered by the server itself
  have hover (hst : e.stage.over = true) : answer = .queueFull ∨ answer = .timeout := by
    rw [hstage] at hst
    cases answer with
    | queueFull => exact .inl rfl
    | timeout => exact .inr rfl
    | _ => cases hst
  cases hsender with
  | unborn hst =>
      rw [hstage] at hst
      cases answer with
      | bodyRejected message => exact .inr (.inl ⟨message, rfl, rfl⟩)
      | _ => cases hst
  | pending hst => rw [hstage] at hst; cases hst
  | taken response hst =>
      rcases hst with hst | hst
      · rw [hstage] at hst; cases hst
      · exact .inr (.inr (hover hst))
  | sent response hst =>
      rcases hst with hst | hst | hst
      · rw [hstage] at hst; cases hst
      · exact .inr (.inr (hover hst))
      · rw [hstage] at hst
        cases hst
        exact .inl ⟨response, rfl, rfl⟩
  | missed response hst => exact .inr (.inr (hover hst))
  | withdrawn hst => exact .inr (.inr (hover hst))

end Good

def Queued.of? (id : Nat) : Queued → Option HttpEvent
  | .http event => if event.requestId = id then some event else none
  | .other _ => none

/-! ## 7. All requests -/

namespace Exchanges

def succeeded (s : Exchanges) (id : Nat) : List ResponseSpec :=
  s.results.filterMap fun r ↦ if r.1 = id ∧ r.2.2 = true then some r.2.1 else none

def heard (s : Exchanges) (id : Nat) : List HttpEvent := (s.received ++ s.events).filterMap (Queued.of? id)

/-- The calls that took the request. -/
def takesOf (s : Exchanges) (id : Nat) : List ResponseSpec :=
  s.takes.filterMap fun t ↦ if t.1 = id then some t.2 else none

def side (s : Exchanges) (id : Nat) : Side :=
  ⟨s.pendingHttp[id]?, s.taken[id]?, s.takesOf id, s.succeeded id, s.heard id⟩

structure Sound (s : Exchanges) : Prop where
  good : ∀ id e, s.tasks[id]? = some e → Good id e (s.side id)
  absent : ∀ id, s.tasks[id]? = none → s.side id = ⟨none, none, [], [], []⟩
  fresh : ∀ id, s.nextRequestId ≤ id → s.tasks[id]? = none

theorem sound_bind : bind.Sound where
  good id e h := by simp [bind] at h
  absent id _ := by simp [side, bind, takesOf, succeeded, heard]
  fresh id _ := by simp [bind]

section

variable {s s' : Exchanges} {id : Nat} {e e' : Exchange}

/-- A step that touches one request. -/
theorem Sound.touch (hs : s.Sound) (htask : s.tasks[id]? = some e) (hnext : s'.nextRequestId = s.nextRequestId)
    (htasks : ∀ d, s'.tasks[d]? = if id = d then some e' else s.tasks[d]?)
    (hside : ∀ d, d ≠ id → s'.side d = s.side d) (hgood : Good id e' (s'.side id)) : s'.Sound where
  good d e'' h := by
    rw [htasks] at h
    by_cases hd : id = d
    · rw [if_pos hd] at h
      cases h
      rw [← hd]
      exact hgood
    · rw [if_neg hd] at h
      rw [hside d (Ne.symm hd)]
      exact hs.good d e'' h
  absent d h := by
    rw [htasks] at h
    by_cases hd : id = d
    · rw [if_pos hd] at h
      cases h
    · rw [if_neg hd] at h
      rw [hside d (Ne.symm hd)]
      exact hs.absent d h
  fresh d h := by
    rw [hnext] at h
    rw [htasks, if_neg, hs.fresh d h]
    rintro rfl
    rw [hs.fresh id h] at htask
    cases htask

theorem tasks_setTask (s : Exchanges) (id d : Nat) (e : Exchange) :
    (s.setTask id e).tasks[d]? = if id = d then some e else s.tasks[d]? :=
  OrderedMap.getElem?_insert _ _ _ _

@[simp] theorem side_setTask (s : Exchanges) (id d : Nat) (e : Exchange) : (s.setTask id e).side d = s.side d := rfl

theorem side_insert (s : Exchanges) (id d : Nat) (body : List UInt8) :
    { s with pendingHttp := s.pendingHttp.insert id body }.side d =
      if id = d then { s.side d with pending := some body } else s.side d := by
  by_cases hd : id = d
  · rw [if_pos hd, side, side, OrderedMap.getElem?_insert, if_pos hd]
    rfl
  · rw [if_neg hd, side, side, OrderedMap.getElem?_insert, if_neg hd]
    rfl

theorem side_erase (s : Exchanges) (id d : Nat) :
    { s with pendingHttp := s.pendingHttp.erase id }.side d =
      if id = d then { s.side d with pending := none } else s.side d := by
  by_cases hd : id = d
  · rw [if_pos hd, side, side, OrderedMap.getElem?_erase, if_pos hd]
    rfl
  · rw [if_neg hd, side, side, OrderedMap.getElem?_erase, if_neg hd]
    rfl

theorem heard_concat (s : Exchanges) (event : Queued) (d : Nat) :
    { s with events := s.events ++ [event] }.heard d = s.heard d ++ (event.of? d).toList := by
  simp only [heard, ← List.append_assoc, List.filterMap_append, List.filterMap_cons, List.filterMap_nil]
  cases event.of? d <;> rfl

theorem succeeded_concat (s : Exchanges) (id d : Nat) (response : ResponseSpec) (ok : Bool) :
    { s with results := s.results ++ [(id, response, ok)] }.succeeded d =
      s.succeeded d ++ if id = d ∧ ok = true then [response] else [] := by
  simp only [succeeded, List.filterMap_append, List.filterMap_cons, List.filterMap_nil]
  split <;> simp_all

theorem takesOf_concat (s : Exchanges) (id d : Nat) (response : ResponseSpec) :
    { s with takes := s.takes ++ [(id, response)] }.takesOf d =
      s.takesOf d ++ if id = d then [response] else [] := by
  simp only [takesOf, List.filterMap_append, List.filterMap_cons, List.filterMap_nil]
  split <;> simp_all

theorem Sound.setTask (hs : s.Sound) (htask : s.tasks[id]? = some e) (hgood : Good id e' (s.side id)) :
    (s.setTask id e').Sound :=
  hs.touch htask rfl (tasks_setTask s id · e') (fun _ _ ↦ rfl) hgood

/-! ## 8. Steps keep the requests good -/

theorem Sound.handleHttp (hs : s.Sound) (request : Request) (hcount : s.nextRequestId + 1 < 2 ^ 64) :
    (s.handleHttp request).Sound := by
  rw [Exchanges.handleHttp]
  split
  case isTrue => exact hs
  case isFalse =>
    have hnone := hs.fresh s.nextRequestId (le_refl _)
    constructor
    case good =>
      intro d e h
      rw [tasks_setTask] at h
      split at h
      case isTrue hd =>
        cases h
        subst hd
        have hside := hs.absent _ hnone
        rw [side_setTask]
        change Good _ _ (s.side s.nextRequestId)
        rw [hside]
        exact ⟨.unborn rfl rfl, .inl rfl, fun _ ↦ rfl, nofun⟩
      case isFalse => exact hs.good d e h
    case absent =>
      intro d h
      rw [tasks_setTask] at h
      split at h
      case isTrue => cases h
      case isFalse => exact hs.absent d h
    case fresh =>
      intro d h
      have hnext : fetchAdd s.nextRequestId = s.nextRequestId + 1 := Nat.mod_eq_of_lt hcount
      change fetchAdd s.nextRequestId ≤ d at h
      rw [hnext] at h
      rw [tasks_setTask, if_neg (by omega)]
      exact hs.fresh d (by omega)

theorem side_event (s : Exchanges) (e : Exchange) (id d : Nat) :
    { s with events := s.events ++ [Queued.http (event id e)] }.side d =
      if id = d then { s.side d with heard := s.heard d ++ [event id e] } else s.side d := by
  have hof : (Queued.http (event id e)).of? d = if id = d then some (event id e) else none := rfl
  rw [side, heard_concat, hof]
  by_cases hd : id = d
  · rw [if_pos hd, if_pos hd]
    rfl
  · rw [if_neg hd, if_neg hd]
    change Side.mk _ _ _ _ (_ ++ []) = _
    rw [List.append_nil]
    rfl

theorem side_other (s : Exchanges) (text : String) (d : Nat) :
    { s with events := s.events ++ [Queued.other text] }.side d = s.side d := by
  rw [side, heard_concat]
  change Side.mk _ _ _ _ (_ ++ []) = _
  rw [List.append_nil]
  rfl

theorem Sound.proceed (hs : s.Sound) (htask : s.tasks[id]? = some e) : (s.proceed id e).Sound := by
  have hgood := hs.good id e htask
  rw [Exchanges.proceed]
  -- each phase is one access to the shared state, and a lemma says what it does to this request
  cases hstage : e.stage with
  | registering body =>
      refine hs.touch htask rfl (tasks_setTask _ id · _) (fun d hd ↦ ?_) ?_
      · rw [side_setTask, side_insert, if_neg (Ne.symm hd)]
      · rw [side_setTask, side_insert, if_pos rfl]
        exact hgood.register hstage
  | queueing =>
      dsimp only
      rw [trySend]
      by_cases hroom : s.events.length < eventQueueCapacity
      · rw [if_pos hroom]
        refine hs.touch htask rfl (tasks_setTask _ id · _) (fun d hd ↦ ?_) ?_
        · rw [side_setTask, side_event, if_neg (Ne.symm hd)]
        · rw [side_setTask, side_event, if_pos rfl]
          exact hgood.announce hstage
      · rw [if_neg hroom]
        refine hs.setTask htask (hgood.stage ?_ (fun _ ↦ rfl) ?_ (fun _ ↦ ?_) nofun ?_)
        · rw [hstage]; exact nofun
        · rw [hstage]; rfl
        · rw [hstage]; rfl
        · rw [hstage]; exact nofun
  | withdrawing =>
      refine hs.touch htask rfl (tasks_setTask _ id · _) (fun d hd ↦ ?_) ?_
      · rw [side_setTask, side_erase, if_neg (Ne.symm hd)]
      · rw [side_setTask, side_erase, if_pos rfl]
        exact hgood.giveUp (.inl hstage) rfl rfl nofun
  | elapsed =>
      refine hs.setTask htask (hgood.stage ?_ (fun _ ↦ rfl) ?_ nofun (fun _ ↦ ?_) ?_)
      · rw [hstage]; exact nofun
      · rw [hstage]; rfl
      · rw [hstage]; rfl
      · rw [hstage]; exact nofun
  | expired =>
      refine hs.touch htask rfl (tasks_setTask _ id · _) (fun d hd ↦ ?_) ?_
      · rw [side_setTask, side_erase, if_neg (Ne.symm hd)]
      · rw [side_setTask, side_erase, if_pos rfl]
        exact hgood.giveUp (.inr hstage) rfl rfl fun _ ↦ by rw [hstage]; rfl
  | _ => exact hs

theorem hasSender_iff : s.hasSender id = true ↔
    s.pendingHttp[id]?.isSome = true ∨ s.taken[id]?.isSome = true := by
  simp [hasSender]

theorem Sound.moveTask (hs : s.Sound) (htask : s.tasks[id]? = some e) (move : Move) :
    (s.moveTask id e move).Sound := by
  have hgood := hs.good id e htask
  cases move with
  | proceed => exact hs.proceed htask
  | readBody outcome =>
      rw [Exchanges.moveTask]
      split
      case isFalse => exact hs
      case isTrue hstage =>
        -- the request is as fresh as before
        cases outcome with
        | ok body =>
            refine hs.setTask htask (hgood.stage (fun _ ↦ rfl) ?_ ?_ (fun _ ↦ ?_) nofun ?_)
            · rw [hstage]; exact nofun
            · rw [hstage]; rfl
            · rw [hstage]; rfl
            · rw [hstage]; exact nofun
        | error message =>
            refine hs.setTask htask (hgood.stage (fun _ ↦ rfl) ?_ ?_ nofun nofun ?_)
            · rw [hstage]; exact nofun
            · rw [hstage]; rfl
            · rw [hstage]; exact nofun
  | poll late =>
      rw [Exchanges.moveTask]
      split
      case isFalse => exact hs
      case isTrue hstage =>
        unfold poll
        split
        case h_1 response hchannel => exact hs.setTask htask (hgood.answer hchannel)
        case h_2 hchannel =>
          have hsender : s.hasSender id = true := hasSender_iff.mpr (hgood.sender_of_waiting hstage hchannel)
          rw [if_neg (by rw [hsender]; exact nofun)]
          split
          case isFalse => exact hs
          case isTrue =>
            refine hs.setTask htask (hgood.stage ?_ (fun _ ↦ rfl) ?_ nofun (fun _ ↦ ?_) ?_)
            · rw [hstage]; exact nofun
            · rw [hstage]; rfl
            · rw [hstage]; rfl
            · rw [hstage]; exact nofun
  | drop =>
      rw [Exchanges.moveTask]
      split
      case isTrue hstage =>
        refine hs.setTask htask (hgood.stage (fun _ ↦ rfl) ?_ ?_ nofun nofun ?_)
        · rw [hstage]; exact nofun
        · rw [hstage]; rfl
        · rw [hstage]; exact nofun
      case isFalse =>
        split
        case isFalse => exact hs
        case isTrue hstage =>
          refine hs.setTask htask (hgood.stage ?_ (fun _ ↦ rfl) ?_ nofun nofun ?_)
          · rw [hstage]; exact nofun
          · rw [hstage]; rfl
          · rw [hstage]; exact nofun

theorem side_respond (s : Exchanges) (id d : Nat) (response : ResponseSpec) :
    { s with
        pendingHttp := s.pendingHttp.erase id
        taken := s.taken.insert id response
        takes := s.takes ++ [(id, response)] }.side d =
      if id = d then
        { s.side d with pending := none, taken := some response, takes := s.takesOf d ++ [response] }
      else s.side d := by
  have htakes := takesOf_concat s id d response
  by_cases hd : id = d
  · rw [if_pos hd] at htakes
    rw [if_pos hd, side, side, OrderedMap.getElem?_erase, if_pos hd, OrderedMap.getElem?_insert, if_pos hd, ← htakes]
    rfl
  · rw [if_neg hd, List.append_nil] at htakes
    rw [if_neg hd, side, side, OrderedMap.getElem?_erase, if_neg hd, OrderedMap.getElem?_insert, if_neg hd, ← htakes]
    rfl

theorem side_result (s : Exchanges) (id d : Nat) (response : ResponseSpec) (ok : Bool) :
    { s with results := s.results ++ [(id, response, ok)] }.side d =
      { s.side d with succeeded := s.succeeded d ++ if id = d ∧ ok = true then [response] else [] } := by
  rw [side, succeeded_concat]
  rfl

theorem side_failed (s : Exchanges) (id d : Nat) (response : ResponseSpec) :
    { s with results := s.results ++ [(id, response, false)] }.side d = s.side d := by
  rw [side_result, if_neg (by simp), List.append_nil]
  rfl

theorem side_untaken (s : Exchanges) (id d : Nat) :
    { s with taken := s.taken.erase id }.side d = if id = d then { s.side d with taken := none } else s.side d := by
  by_cases hd : id = d
  · rw [if_pos hd, side, side, OrderedMap.getElem?_erase, if_pos hd]
    rfl
  · rw [if_neg hd, side, side, OrderedMap.getElem?_erase, if_neg hd]
    rfl

theorem side_sent (s : Exchanges) (id d : Nat) (response : ResponseSpec) (ok : Bool) :
    { s with taken := s.taken.erase id, results := s.results ++ [(id, response, ok)] }.side d =
      if id = d then
        { s.side d with taken := none, succeeded := s.succeeded d ++ if ok = true then [response] else [] }
      else s.side d := by
  refine (side_result { s with taken := s.taken.erase id } id d response ok).trans ?_
  rw [side_untaken]
  by_cases hd : id = d
  · rw [if_pos hd, if_pos hd]
    simp only [hd, true_and]
    rfl
  · rw [if_neg hd, if_neg hd, if_neg fun h ↦ hd h.1, List.append_nil]
    rfl

/-- A step that no request sees. -/
theorem Sound.same (hs : s.Sound) (htasks : s'.tasks = s.tasks) (hnext : s'.nextRequestId = s.nextRequestId)
    (hside : ∀ d, s'.side d = s.side d) : s'.Sound where
  good d e h := by
    rw [htasks] at h
    rw [hside d]
    exact hs.good d e h
  absent d h := by
    rw [htasks] at h
    rw [hside d]
    exact hs.absent d h
  fresh d h := by
    rw [hnext] at h
    rw [htasks]
    exact hs.fresh d h

theorem tasks_same (htask : s.tasks[id]? = some e) (d : Nat) :
    s.tasks[d]? = if id = d then some e else s.tasks[d]? := by
  by_cases hd : id = d
  · rw [if_pos hd, ← hd, htask]
  · rw [if_neg hd]

theorem Sound.respondBytes (hs : s.Sound) (id : Nat) (response : ResponseSpec) :
    (s.respondBytes id response).Sound := by
  rw [Exchanges.respondBytes]
  split
  case isFalse => exact hs.same rfl rfl fun d ↦ side_failed s id d response
  case isTrue hpending =>
    obtain ⟨body, hbody⟩ := Option.isSome_iff_exists.mp (Std.ExtTreeMap.isSome_getElem?_iff_mem.mpr hpending)
    have hside : (s.side id).pending = some body := hbody
    cases htask : s.tasks[id]? with
    | none =>
        rw [hs.absent id htask] at hside
        cases hside
    | some e =>
        refine hs.touch htask rfl (tasks_same htask) (fun d hd ↦ ?_) ?_
        · rw [side_respond, if_neg (Ne.symm hd)]
        · rw [side_respond, if_pos rfl]
          exact (hs.good id e htask).take hside

theorem Sound.sendResponse (hs : s.Sound) (id : Nat) : (s.sendResponse id).Sound := by
  rw [Exchanges.sendResponse]
  split
  case h_2 => exact hs
  case h_1 response e htaken htask =>
    have hsend := (hs.good id e htask).send (show (s.side id).taken = some response from htaken)
    dsimp only
    split at hsend
    case isTrue hreceives =>
      rw [if_pos hreceives]
      refine hs.touch htask rfl (tasks_setTask _ id · _) (fun d hd ↦ ?_) ?_
      · rw [side_setTask, side_sent, if_neg (Ne.symm hd)]
      · rw [side_setTask, side_sent, if_pos rfl]
        exact hsend
    case isFalse hgone =>
      rw [if_neg hgone]
      refine hs.touch htask rfl (tasks_same htask) (fun d hd ↦ ?_) ?_
      · rw [side_sent, if_neg (Ne.symm hd)]
      · rw [side_sent, if_pos rfl]
        change Good id e { s.side id with taken := none, succeeded := s.succeeded id ++ [] }
        rw [List.append_nil]
        exact hsend

theorem Sound.step (hs : s.Sound) {a : Action} (ha : s.Counts a) : (s.step a).Sound := by
  cases a with
  | request request => exact hs.handleHttp request ha
  | task id move =>
      rw [Exchanges.step]
      split
      case h_1 e htask => exact hs.moveTask htask move
      case h_2 => exact hs
  | respondBytes id response => exact hs.respondBytes id response
  | sendResponse id => exact hs.sendResponse id
  | nextEvent =>
      rw [Exchanges.step, nextEvent]
      split
      case h_1 => exact hs
      case h_2 event events hevents =>
        refine hs.same rfl rfl fun d ↦ ?_
        rw [side, side, heard, heard, hevents, List.append_assoc]
        rfl
  | emit text =>
      rw [Exchanges.step, trySend]
      split
      case isFalse => exact hs
      case isTrue => exact hs.same rfl rfl fun d ↦ side_other s text d

end

/-! ## 9. Runs -/

theorem sound_run {actions : List Action} (h : Meets step Counts bind actions) : (run step bind actions).Sound :=
  h.invariant sound_bind fun _ _ hs ha ↦ hs.step ha

theorem requestBytes_eq {s : Exchanges} {id : Nat} {pending : Option (List UInt8)}
    (h : s.pendingHttp[id]? = pending) :
    s.requestBytes id = pending.elim (.error (notPending id)) Except.ok := by
  rw [requestBytes, h]
  cases pending <;> rfl

/-- The client gets the response of the call that returned true, or an error of the server. -/
theorem reply_of_answered {s : Exchanges} {id : Nat} {e : Exchange} (h : Good id e (s.side id)) {reply : Response}
    (hreply : e.reply = some reply) :
    (∃ response, s.succeeded id = [response] ∧ reply = applicationResponse response) ∨
      ∃ status code message, status ∈ [413, 503, 504] ∧ reply = jsonError status code message := by
  unfold Exchange.reply at hreply
  split at hreply
  case h_2 => cases hreply
  case h_1 answer hstage =>
    cases hreply
    rcases h.answered hstage with ⟨response, rfl, hresponse⟩ | ⟨message, rfl, -⟩ | rfl | rfl
    · exact .inl ⟨response, hresponse, rfl⟩
    · exact .inr ⟨413, _, _, by decide, rfl⟩
    · exact .inr ⟨503, _, _, by decide, rfl⟩
    · exact .inr ⟨504, _, _, by decide, rfl⟩

/-- In every interleaving of requests, timeouts, lost clients and calls of the application, at most one
`respond_bytes` takes a request and only that one can return true, and a client that gets a response of the
application gets the one of that call.  A request stays in the table, with its own body, until it is taken
or its task takes it out; no task that waits is out of reach of the application; and the application hears
of each request at most once, and of every request that timed out. -/
theorem http_exchange (actions : List Action) (h : Meets step Counts bind actions) (id : Nat) :
    let s := run step bind actions
    (s.takesOf id).length ≤ 1 ∧ (s.succeeded id = [] ∨ s.succeeded id = s.takesOf id) ∧
      (s.tasks[id]? = none →
        s.takesOf id = [] ∧ s.heard id = [] ∧ s.requestBytes id = .error (notPending id)) ∧
      ∀ e, s.tasks[id]? = some e →
        (∀ response, e.stage = .answered (.application response) → s.succeeded id = [response]) ∧
        (∀ answer response, e.stage = .answered answer → s.succeeded id = [response] →
          answer = .application response ∨ answer = .timeout ∨ answer = .queueFull) ∧
        (∀ reply, e.reply = some reply →
          (∃ response, s.succeeded id = [response] ∧ reply = applicationResponse response) ∨
            ∃ status code message, status ∈ [413, 503, 504] ∧ reply = jsonError status code message) ∧
        e.stage ≠ .answered .channelClosed ∧
        (s.requestBytes id =
          if e.stage.registered = true ∧ s.takesOf id = [] then .ok e.body else .error (notPending id)) ∧
        (e.stage = .waiting → s.succeeded id = [] → s.hasSender id = true) ∧
        (s.heard id = [] ∨ s.heard id = [event id e]) ∧
        (e.stage = .answered .timeout → s.heard id = [event id e]) := by
  have hs := sound_run h
  generalize run step bind actions = s at hs
  dsimp only
  cases htask : s.tasks[id]? with
  | none =>
      have hside := hs.absent id htask
      rw [side, Side.mk.injEq] at hside
      obtain ⟨hpending, -, htakes, hsucceeded, hheard⟩ := hside
      rw [hsucceeded, htakes]
      exact ⟨Nat.zero_le _, .inl rfl, fun _ ↦ ⟨rfl, hheard, requestBytes_eq hpending⟩, nofun⟩
  | some e =>
      have hgood := hs.good id e htask
      obtain ⟨hone, honly⟩ := hgood.takes_le
      refine ⟨hone, honly, nofun, fun e' he ↦ ?_⟩
      cases he
      refine ⟨?_, ?_, fun reply hreply ↦ reply_of_answered hgood hreply, ?_, ?_, ?_, hgood.heard, ?_⟩
      · intro response hstage
        rcases hgood.answered hstage with ⟨_, heq, hresponse⟩ | ⟨_, heq, _⟩ | heq | heq
        · cases heq
          exact hresponse
        · cases heq
        · cases heq
        · cases heq
      · intro answer response hstage hsucceeded
        rcases hgood.answered hstage with ⟨response', heq, hresponse⟩ | ⟨_, _, hnone⟩ | heq | heq
        · change s.succeeded id = [response'] at hresponse
          rw [hsucceeded] at hresponse
          cases hresponse
          exact .inl heq
        · change s.succeeded id = [] at hnone
          rw [hsucceeded] at hnone
          cases hnone
        · exact .inr (.inr heq)
        · exact .inr (.inl heq)
      · intro hstage
        rcases hgood.answered hstage with ⟨_, heq, _⟩ | ⟨_, heq, _⟩ | heq | heq <;> cases heq
      · have hpending : s.pendingHttp[id]? =
            if e.stage.registered = true ∧ s.takesOf id = [] then some e.body else none := hgood.pending_eq
        rw [requestBytes_eq hpending]
        split <;> rfl
      -- without a response the sender is still there: in the table, or with the call that took the request
      · intro hstage hsucceeded
        apply hasSender_iff.mpr
        apply hgood.sender_of_waiting hstage
        by_contra hchannel
        obtain ⟨response, hchannel⟩ := Option.ne_none_iff_exists'.mp hchannel
        rcases (hgood.answer hchannel).answered rfl with ⟨_, _, hresponse⟩ | ⟨_, heq, _⟩ | heq | heq
        · change s.succeeded id = _ at hresponse
          rw [hsucceeded] at hresponse
          cases hresponse
        · cases heq
        · cases heq
        · cases heq
      · intro hstage
        exact hgood.announced (by rw [hstage]; rfl)

/-- A response that is taken in time, one that comes too late, and one for a client that is gone. -/
private def served : List Action :=
  [.request ⟨"POST", "/a", "", ""⟩, .request ⟨"GET", "/b", "", ""⟩, .request ⟨"OPTIONS", "/b", "", ""⟩,
    .task 1 (.readBody (.ok [104, 105])), .task 1 .proceed, .task 1 .proceed, .task 2 (.readBody (.ok [255])),
    .task 2 .proceed, .task 2 .proceed, .nextEvent, .respondBytes 1 ⟨200, "text/plain", [111, 107]⟩,
    .task 2 (.poll true), .task 2 .proceed, .sendResponse 1, .task 1 (.poll false), .respondBytes 1 ⟨201, "", []⟩,
    .respondBytes 2 ⟨200, "", []⟩, .sendResponse 2, .task 2 .proceed, .request ⟨"GET", "/c", "", ""⟩,
    .task 3 (.readBody (.ok [99])), .task 3 .proceed, .task 3 .proceed, .task 3 .drop]

theorem http_exchange_served :
    let s := run step bind served
    (s.takesOf 1).length ≤ 1 ∧ (s.succeeded 1 = [] ∨ s.succeeded 1 = s.takesOf 1) ∧
      (s.tasks[1]? = none →
        s.takesOf 1 = [] ∧ s.heard 1 = [] ∧ s.requestBytes 1 = .error (notPending 1)) ∧
      ∀ e, s.tasks[1]? = some e →
        (∀ response, e.stage = .answered (.application response) → s.succeeded 1 = [response]) ∧
        (∀ answer response, e.stage = .answered answer → s.succeeded 1 = [response] →
          answer = .application response ∨ answer = .timeout ∨ answer = .queueFull) ∧
        (∀ reply, e.reply = some reply →
          (∃ response, s.succeeded 1 = [response] ∧ reply = applicationResponse response) ∨
            ∃ status code message, status ∈ [413, 503, 504] ∧ reply = jsonError status code message) ∧
        e.stage ≠ .answered .channelClosed ∧
        (s.requestBytes 1 =
          if e.stage.registered = true ∧ s.takesOf 1 = [] then .ok e.body else .error (notPending 1)) ∧
        (e.stage = .waiting → s.succeeded 1 = [] → s.hasSender 1 = true) ∧
        (s.heard 1 = [] ∨ s.heard 1 = [event 1 e]) ∧
        (e.stage = .answered .timeout → s.heard 1 = [event 1 e]) :=
  http_exchange served (by decide +kernel) 1

example : (run step bind served).results =
    [(1, ⟨200, "text/plain", [111, 107]⟩, true), (1, ⟨201, "", []⟩, false), (2, ⟨200, "", []⟩, false)] := by
  decide +kernel

-- the request of the client that is gone is still in the table
example : (run step bind served).pendingHttp[3]? = some [99] := by
  decide +kernel

end Exchanges

end Stainless.Http
