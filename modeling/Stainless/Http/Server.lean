import Mathlib
import Stainless.Reasoning.Runs
import Stainless.Runtime.OrderedMap

/-!
# The event bridge of the HTTP server

Every WebSocket connection is served by a task of its own.  All tasks, the HTTP handlers and the
application share one bounded queue of events, the table of connections and the table of binary
payloads.  A step is one access to these; the tasks interleave in any order.
-/

open Stainless.Runtime

namespace Stainless.Http

/-! ## 1. Events, messages and commands -/

def eventQueueCapacity : Nat := 1024

def connectionQueueCapacity : Nat := 256

/-- What `next_event` returns.  Of an HTTP request and its headers only the text matters here. -/
inductive Event
  | http (request : String)
  | serverError (message : String)
  | wsOpen (connectionId : Nat) (path query headers : String)
  | wsMessage (connectionId : Nat) (text : String)
  | wsBinary (connectionId : Nat) (messageId : String)
  | wsClose (connectionId : Nat) (code : Nat) (reason : String)
deriving DecidableEq

def Event.connectionId? : Event → Option Nat
  | .http _ | .serverError _ => none
  | .wsOpen c _ _ _ | .wsMessage c _ | .wsBinary c _ | .wsClose c _ _ => some c

inductive WsCommand
  | text (text : String)
  | binary (body : List UInt8)
  | close (code : Nat) (reason : String)
deriving DecidableEq

namespace CloseCode

def normal : Nat := 1000
def away : Nat := 1001
def error : Nat := 1011

end CloseCode

/-- What `input.next()` yields; `ended` is its `None`.  `ponged` tells whether the pong was sent. -/
inductive Incoming
  | text (text : String)
  | ping (ponged : Bool)
  | pong
  | binary (body : List UInt8)
  | close (frame : Option (Nat × String))
  | error (message : String)
  | ended
deriving DecidableEq

/-! ## 2. State -/

/-- A message of the peer; a binary one is known by its token. -/
inductive Message
  | text (text : String)
  | binary (messageId : String)
deriving DecidableEq

def Message.event (c : Nat) : Message → Event
  | .text t => .wsMessage c t
  | .binary id => .wsBinary c id

/-- Where a run of `serve_websocket` is, up to its next access to the shared state. -/
inductive Phase
  | emitOpen
  /-- `ws_open` was refused; the connection is about to leave the table. -/
  | refused
  | rejected
  | serving
  /-- The payload is stored; `ws_binary` is about to be emitted. -/
  | emitBinary (messageId : String)
  | dropBinary (messageId : String)
  /-- The loop is left; the connection is about to leave the table. -/
  | leaving (code : Nat) (reason : String)
  | emitClose (code : Nat) (reason : String)
  | finished
  /-- The runtime was dropped while the task waited. -/
  | dropped
deriving DecidableEq

/-- A task can be dropped where it waits: in its loop, or while it sends the close message. -/
def Phase.waits : Phase → Bool
  | .serving | .leaving _ _ => true
  | .emitOpen | .refused | .rejected | .emitBinary _ | .dropBinary _ | .emitClose _ _ | .finished
  | .dropped => false

/-- The task has not ended: it holds the receiver of its commands. -/
def Phase.listens : Phase → Bool
  | .emitOpen | .refused | .serving | .emitBinary _ | .dropBinary _ | .leaving _ _ | .emitClose _ _ => true
  | .rejected | .finished | .dropped => false

/-- A run of `serve_websocket`, with the messages it has read from its socket. -/
structure Connection where
  path : String
  query : String
  headers : String
  phase : Phase
  commands : List WsCommand
  seenShutdowns : Nat
  read : List Message

/-- The task ends, and its receiver is dropped with the commands that wait there. -/
def Connection.ended (task : Connection) (phase : Phase) : Connection := { task with phase, commands := [] }

/-- `SharedState`, with the tasks that share it. -/
structure Server where
  events : List Event
  nextConnectionId : Nat
  nextBinaryMessageId : Nat
  pendingBinaryMessages : OrderedMap String (List UInt8)
  connections : OrderedMap Nat Unit
  shutdowns : Nat
  tasks : OrderedMap Nat Connection

/-- `fetch_add(1)` of a `u64` counter. -/
def fetchAdd (counter : Nat) : Nat := (counter + 1) % 2 ^ 64

namespace Server

def bind : Server where
  events := []
  nextConnectionId := 1
  nextBinaryMessageId := 1
  pendingBinaryMessages := ∅
  connections := ∅
  shutdowns := 0
  tasks := ∅

/-! ## 3. The shared state -/

/-- `try_send`: the queue takes an event only when it is not full. -/
def emit (s : Server) (event : Event) : Bool × Server :=
  if s.events.length < eventQueueCapacity then (true, { s with events := s.events ++ [event] })
  else (false, s)

def setTask (s : Server) (c : Nat) (task : Connection) : Server :=
  { s with tasks := s.tasks.insert c task }

def removeConnection (s : Server) (c : Nat) : Server :=
  { s with connections := s.connections.erase c }

/-! ## 4. The task of a connection -/

/-- `upgrade_websocket`: a task starts and enters its connection in the table. -/
def upgrade (s : Server) (path query headers : String) : Server :=
  let c := s.nextConnectionId
  let task : Connection :=
    { path, query, headers, phase := .emitOpen, commands := [], seenShutdowns := 0, read := [] }
  { s with
    nextConnectionId := fetchAdd c
    connections := s.connections.insert c ()
    tasks := s.tasks.insert c task }

/-- The reason a connection is closed with when one of its events finds no room. -/
def queueUnavailable : String := "application event queue is unavailable"

def binaryQueueFull : String := "pending binary message queue is full"

/-- The next access of a task that waits for nothing. -/
def proceed (s : Server) (c : Nat) (task : Connection) : Server :=
  match task.phase with
  | .emitOpen =>
      match s.emit (.wsOpen c task.path task.query task.headers) with
      | (true, s) => s.setTask c { task with phase := .serving, seenShutdowns := s.shutdowns }
      | (false, s) => s.setTask c { task with phase := .refused }
  | .refused => (s.removeConnection c).setTask c (task.ended .rejected)
  | .emitBinary messageId =>
      match s.emit (.wsBinary c messageId) with
      | (true, s) => s.setTask c { task with phase := .serving }
      | (false, s) => s.setTask c { task with phase := .dropBinary messageId }
  | .dropBinary messageId =>
      { s with pendingBinaryMessages := s.pendingBinaryMessages.erase messageId }.setTask c
        { task with phase := .leaving CloseCode.error queueUnavailable }
  | .leaving code reason =>
      (s.removeConnection c).setTask c { task with phase := .emitClose code reason }
  | .emitClose code reason =>
      -- the result of this emit is not looked at
      (s.emit (.wsClose c code reason)).2.setTask c (task.ended .finished)
  | .rejected | .serving | .finished | .dropped => s

/-- The branch of the loop that reads the socket. -/
def receive (s : Server) (c : Nat) (task : Connection) : Incoming → Server
  | .text text =>
      let task := { task with read := task.read ++ [Message.text text] }
      match s.emit (.wsMessage c text) with
      | (true, s) => s.setTask c task
      | (false, s) => s.setTask c { task with phase := .leaving CloseCode.error queueUnavailable }
  | .ping true | .pong => s
  | .ping false => s.setTask c { task with phase := .leaving CloseCode.normal "" }
  | .binary body =>
      let messageId := toString s.nextBinaryMessageId
      let s := { s with nextBinaryMessageId := fetchAdd s.nextBinaryMessageId }
      let task := { task with read := task.read ++ [Message.binary messageId] }
      if s.pendingBinaryMessages.size ≥ eventQueueCapacity then
        s.setTask c { task with phase := .leaving CloseCode.error binaryQueueFull }
      else
        { s with pendingBinaryMessages := s.pendingBinaryMessages.insert messageId body }.setTask c
          { task with phase := .emitBinary messageId }
  | .close (some frame) => s.setTask c { task with phase := .leaving frame.1 frame.2 }
  | .close none => s.setTask c { task with phase := .leaving CloseCode.normal "" }
  | .error message => s.setTask c { task with phase := .leaving CloseCode.error message }
  | .ended => s.setTask c { task with phase := .leaving CloseCode.normal "" }

/-- The branch of the loop that takes a command; `sent` tells whether the socket took its message. -/
def obey (s : Server) (c : Nat) (task : Connection) (sent : Bool) : Server :=
  match task.commands with
  | .text _ :: commands | .binary _ :: commands =>
      let task := { task with commands }
      s.setTask c (if sent then task else { task with phase := .leaving CloseCode.normal "" })
  | .close code reason :: commands =>
      s.setTask c { task with commands, phase := .leaving code reason }
  | [] =>
      -- the channel yields `None` once its sender has left the table
      if c ∈ s.connections then s
      else s.setTask c { task with phase := .leaving CloseCode.normal "" }

/-- The branch of the loop that watches for the shutdown of the server. -/
def noticeShutdown (s : Server) (c : Nat) (task : Connection) : Server :=
  if task.seenShutdowns < s.shutdowns then
    s.setTask c { task with
      seenShutdowns := s.shutdowns, phase := .leaving CloseCode.away "server shutdown" }
  else s

/-- What a task does next. -/
inductive Move
  | proceed
  | receive (incoming : Incoming)
  | obey (sent : Bool)
  | noticeShutdown
  /-- The runtime is dropped when `run_server` returns, with the tasks that still wait. -/
  | drop
deriving DecidableEq

def moveTask (s : Server) (c : Nat) (task : Connection) : Move → Server
  | .proceed => s.proceed c task
  | .receive incoming => if task.phase = .serving then s.receive c task incoming else s
  | .obey sent => if task.phase = .serving then s.obey c task sent else s
  | .noticeShutdown => if task.phase = .serving then s.noticeShutdown c task else s
  | .drop =>
      if task.phase.waits ∧ 0 < s.shutdowns then s.setTask c (task.ended .dropped)
      else s

/-! ## 5. What the application calls -/

/-- `try_send` on the channel of one connection, `send_text`, `send_bytes` and `close`.  A task that was
dropped stays in the table; its channel is closed. -/
def send (s : Server) (c : Nat) (command : WsCommand) : Server :=
  if c ∈ s.connections then
    match s.tasks[c]? with
    | some task =>
        if task.phase.listens ∧ task.commands.length < connectionQueueCapacity then
          s.setTask c { task with commands := task.commands ++ [command] }
        else s
    | none => s
  else s

/-- `broadcast_text` and `broadcast_bytes`. -/
def broadcast (s : Server) (command : WsCommand) : Server :=
  s.connections.keys.foldl (fun s c ↦ s.send c command) s

def takeMessageBytes (s : Server) (messageId : String) : Server :=
  { s with pendingBinaryMessages := s.pendingBinaryMessages.erase messageId }

def shutdown (s : Server) : Server := { s with shutdowns := s.shutdowns + 1 }

end Server

/-! ## 6. The server and its application -/

/-- The server, the events that `next_event` has returned, and the sessions that the dealer keeps. -/
structure System where
  server : Server
  received : List Event
  sessions : OrderedMap Nat Unit

def System.start : System := ⟨.bind, [], ∅⟩

/-- `dispatch_event` of the dealer, as far as its table of sessions goes.  `opened` tells whether
`open_session` returned. -/
def dispatchEvent (sessions : OrderedMap Nat Unit) (opened : Bool) : Event → OrderedMap Nat Unit
  | .wsOpen c _ _ _ => if opened then sessions.insert c () else sessions
  | .wsClose c _ _ => sessions.erase c
  | .http _ | .serverError _ | .wsMessage _ _ | .wsBinary _ _ => sessions

inductive Action
  | upgrade (path query headers : String)
  | task (connectionId : Nat) (move : Server.Move)
  | http (request : String)
  | serverError (message : String)
  | nextEvent (opened : Bool)
  | send (connectionId : Nat) (command : WsCommand)
  | broadcast (command : WsCommand)
  | takeMessageBytes (messageId : String)
  | shutdown

namespace System

def nextEvent (s : System) (opened : Bool) : System :=
  match s.server.events with
  | [] => s
  | event :: events =>
      { server := { s.server with events }
        received := s.received ++ [event]
        sessions := dispatchEvent s.sessions opened event }

def step (s : System) : Action → System
  | .upgrade path query headers => { s with server := s.server.upgrade path query headers }
  | .task c move =>
      match s.server.tasks[c]? with
      | some task => { s with server := s.server.moveTask c task move }
      | none => s
  | .http request => { s with server := (s.server.emit (.http request)).2 }
  | .serverError message => { s with server := (s.server.emit (.serverError message)).2 }
  | .nextEvent opened => s.nextEvent opened
  | .send c command => { s with server := s.server.send c command }
  | .broadcast command => { s with server := s.server.broadcast command }
  | .takeMessageBytes messageId => { s with server := s.server.takeMessageBytes messageId }
  | .shutdown => { s with server := s.server.shutdown }

end System

end Stainless.Http
