import Stainless.Http.Server

/-!
# The event stream of a connection

The events of one connection, those that the application has received and then those that wait in the
queue, are followed phase by phase through the task of the connection.
-/

open Stainless.Runtime Reasoning

namespace Stainless.Http

/-! ## 1. What the stream of a connection is -/

/-- The events of a connection, the received ones first. -/
def System.stream (s : System) (c : Nat) : List Event :=
  (s.received ++ s.server.events).filter fun e ↦ e.connectionId? = some c

/-- One `ws_open` and then messages. -/
def Connection.opened (task : Connection) (c : Nat) (sent : List Message) : List Event :=
  .wsOpen c task.path task.query task.headers :: sent.map (Message.event c)

/-- Which of the messages read were sent when the loop was left: all of them, or all but a last one
that found no room, which is then the reason of the close. -/
inductive Sent (lossless : Bool) (read : List Message) (code : Nat) (reason : String) :
    List Message → Prop
  | all : Sent lossless read code reason read
  | refused (front : List Message) (last : Message) (isRead : read = front ++ [last])
      (isError : code = CloseCode.error)
      (isReason : reason = Server.queueUnavailable ∨ reason = Server.binaryQueueFull)
      (lossy : lossless = false) : Sent lossless read code reason front

/-- The stream of a connection whose task is in a given phase. -/
def StreamOf (lossless : Bool) (task : Connection) (c : Nat) (stream : List Event) : Prop :=
  match task.phase with
  | .emitOpen | .refused | .rejected => task.read = [] ∧ stream = []
  | .serving => stream = task.opened c task.read
  | .emitBinary messageId | .dropBinary messageId =>
      ∃ front, task.read = front ++ [.binary messageId] ∧ stream = task.opened c front ∧
        (task.phase = .dropBinary messageId → lossless = false)
  | .leaving code reason | .emitClose code reason =>
      ∃ sent, Sent lossless task.read code reason sent ∧ stream = task.opened c sent
  | .finished =>
      ∃ sent code reason, Sent lossless task.read code reason sent ∧
        stream = task.opened c sent ++ [.wsClose c code reason]
  | .dropped => False

/-- The connection is in the table. -/
def Phase.connected : Phase → Bool
  | .emitOpen | .refused | .serving | .emitBinary _ | .dropBinary _ | .leaving _ _ => true
  | .rejected | .emitClose _ _ | .finished | .dropped => false

/-! ## 2. When an action finds room -/

def Server.hasRoom (s : Server) : Bool := s.events.length < eventQueueCapacity

/-- The queue has room for a `ws_close`, and no task is dropped.  A lossless step also has room for a
message. -/
def Server.moveFits (lossless : Bool) (s : Server) (task : Connection) : Server.Move → Bool
  | .proceed =>
      match task.phase with
      | .emitClose _ _ => s.hasRoom
      | .emitBinary _ => !lossless || s.hasRoom
      | .emitOpen | .refused | .rejected | .serving | .dropBinary _ | .leaving _ _ | .finished
      | .dropped => true
  | .receive (.text _) => !lossless || s.hasRoom
  | .receive (.binary _) => !lossless || s.pendingBinaryMessages.size < eventQueueCapacity
  | .receive _ | .obey _ | .noticeShutdown => true
  | .drop => !(task.phase.waits && 0 < s.shutdowns)

/-- Connection identities are handed out once. -/
def System.fits (lossless : Bool) (s : System) : Action → Bool
  | .upgrade _ _ _ => s.server.nextConnectionId + 1 < 2 ^ 64
  | .task c move =>
      match s.server.tasks[c]? with
      | some task => s.server.moveFits lossless task move
      | none => true
  | .http _ | .serverError _ | .nextEvent _ | .send _ _ | .broadcast _ | .takeMessageBytes _
  | .shutdown => true

/-! ## 3. One move of a task -/

/-- A move changes only what belongs to its connection. -/
structure Moved (s s' : Server) (c : Nat) (task' : Connection) (new : List Event) : Prop where
  events : s'.events = s.events ++ new
  own : ∀ e ∈ new, e.connectionId? = some c
  tasks : ∀ d, s'.tasks[d]? = if c = d then some task' else s.tasks[d]?
  nextConnectionId : s'.nextConnectionId = s.nextConnectionId
  others : ∀ d, d ≠ c → (d ∈ s'.connections ↔ d ∈ s.connections)

theorem emit_of_room {s : Server} (h : s.hasRoom = true) (e : Event) :
    s.emit e = (true, { s with events := s.events ++ [e] }) := by
  unfold Server.emit
  rw [if_pos (of_decide_eq_true h)]

theorem emit_of_full {s : Server} (h : s.hasRoom = false) (e : Event) : s.emit e = (false, s) := by
  unfold Server.emit
  rw [if_neg (of_decide_eq_false h)]

/-- The table of binary payloads is no part of a stream. -/
theorem moved_setTask (s : Server) (c : Nat) (task' : Connection) (next : Nat)
    (pending : OrderedMap String (List UInt8)) :
    Moved s (({ s with nextBinaryMessageId := next, pendingBinaryMessages := pending } :
      Server).setTask c task') c task' [] where
  events := (List.append_nil _).symm
  own := fun _ he ↦ absurd he List.not_mem_nil
  tasks := fun d ↦ OrderedMap.getElem?_insert s.tasks c d task'
  nextConnectionId := rfl
  others := fun _ _ ↦ Iff.rfl

theorem moved_self {s : Server} {c : Nat} {task : Connection} (htask : s.tasks[c]? = some task) :
    Moved s s c task [] where
  events := (List.append_nil _).symm
  own := fun _ he ↦ absurd he List.not_mem_nil
  tasks := by
    intro d
    by_cases hd : c = d
    · rw [if_pos hd, ← hd, htask]
    · rw [if_neg hd]
  nextConnectionId := rfl
  others := fun _ _ ↦ Iff.rfl

theorem moved_emit (s : Server) {c : Nat} {e : Event} (he : e.connectionId? = some c)
    (task' : Connection) :
    Moved s (({ s with events := s.events ++ [e] } : Server).setTask c task') c task' [e] where
  events := rfl
  own := by
    intro e' he'
    rw [List.mem_singleton.mp he']
    exact he
  tasks := fun d ↦ OrderedMap.getElem?_insert s.tasks c d task'
  nextConnectionId := rfl
  others := fun _ _ ↦ Iff.rfl

theorem moved_remove (s : Server) (c : Nat) (task' : Connection) :
    Moved s ((s.removeConnection c).setTask c task') c task' [] where
  events := (List.append_nil _).symm
  own := fun _ he ↦ absurd he List.not_mem_nil
  tasks := fun d ↦ OrderedMap.getElem?_insert s.tasks c d task'
  nextConnectionId := rfl
  others := by
    intro d hd
    show d ∈ s.connections.erase c ↔ d ∈ s.connections
    rw [OrderedMap.mem_erase]
    exact and_iff_right hd

/-- A move takes the stream of its connection from one phase to the next. -/
structure Advances (lossless : Bool) (s s' : Server) (c : Nat) (task task' : Connection)
    (new : List Event) : Prop extends Moved s s' c task' new where
  stream : ∀ stream, StreamOf lossless task c stream → StreamOf lossless task' c (stream ++ new)
  table : task'.phase.connected → (task.phase.connected → c ∈ s.connections) → c ∈ s'.connections

section Moves

variable {lossless : Bool} {s : Server} {c : Nat} {task : Connection}

/-- A change of the task alone that its stream allows. -/
theorem advances_setTask {task' : Connection} {next : Nat}
    {pending : OrderedMap String (List UInt8)}
    (hstream : ∀ stream, StreamOf lossless task c stream → StreamOf lossless task' c stream)
    (hphase : task'.phase.connected → task.phase.connected) :
    Advances lossless s (({ s with nextBinaryMessageId := next, pendingBinaryMessages := pending } :
      Server).setTask c task') c task task' [] where
  toMoved := moved_setTask s c task' next pending
  stream := by
    intro stream h
    rw [List.append_nil]
    exact hstream stream h
  table := fun hconn hin ↦ hin (hphase hconn)

theorem advances_self (htask : s.tasks[c]? = some task) : Advances lossless s s c task task [] where
  toMoved := moved_self htask
  stream := by
    intro stream h
    rw [List.append_nil]
    exact h
  table := fun hconn hin ↦ hin hconn

theorem proceed_advances (htask : s.tasks[c]? = some task)
    (hfits : s.moveFits lossless task .proceed = true) :
    ∃ task' new, Advances lossless s (s.proceed c task) c task task' new := by
  unfold Server.proceed
  cases hphase : task.phase with
  | emitOpen =>
      dsimp only
      by_cases hroom : s.hasRoom
      · rw [emit_of_room hroom]
        refine ⟨_, _, { toMoved := moved_emit s rfl _, stream := ?_, table := ?_ }⟩
        · intro stream h
          unfold StreamOf at h
          rw [hphase] at h
          show stream ++ _ = Event.wsOpen c task.path task.query task.headers :: task.read.map _
          rw [h.1, h.2]
          rfl
        · intro _ hin
          exact hin (by rw [hphase]; rfl)
      · rw [emit_of_full (Bool.eq_false_iff.mpr hroom)]
        refine ⟨_, _, advances_setTask ?_ ?_⟩
        · intro stream h
          unfold StreamOf at h
          rw [hphase] at h
          exact h
        · intro _
          rw [hphase]
          rfl
  | refused =>
      refine ⟨_, _, { toMoved := moved_remove s c _, stream := ?_, table := ?_ }⟩
      · intro stream h
        unfold StreamOf at h
        rw [hphase] at h
        rw [List.append_nil]
        exact h
      · intro hconn
        cases hconn
  | emitBinary messageId =>
      dsimp only
      by_cases hroom : s.hasRoom
      · rw [emit_of_room hroom]
        refine ⟨_, _, { toMoved := moved_emit s rfl _, stream := ?_, table := ?_ }⟩
        · intro stream h
          unfold StreamOf at h
          rw [hphase] at h
          have ⟨front, hread, hstream, _⟩ := h
          show stream ++ _ = task.opened c task.read
          rw [hread, hstream]
          unfold Connection.opened
          rw [List.map_append]
          rfl
        · intro _ hin
          exact hin (by rw [hphase]; rfl)
      · have hfull : s.hasRoom = false := Bool.eq_false_iff.mpr hroom
        rw [emit_of_full hfull]
        refine ⟨_, _, advances_setTask ?_ ?_⟩
        · intro stream h
          unfold StreamOf at h
          rw [hphase] at h
          have ⟨front, hread, hstream, _⟩ := h
          refine ⟨front, hread, hstream, fun _ ↦ ?_⟩
          -- a lossless step has room here
          unfold Server.moveFits at hfits
          rw [hphase, hfull, Bool.or_false] at hfits
          rwa [Bool.not_eq_true'] at hfits
        · intro _
          rw [hphase]
          rfl
  | dropBinary messageId =>
      refine ⟨_, _, advances_setTask ?_ ?_⟩
      · intro stream h
        unfold StreamOf at h
        rw [hphase] at h
        have ⟨front, hread, hstream, hlossy⟩ := h
        exact ⟨front, .refused front _ hread rfl (.inl rfl) (hlossy rfl), hstream⟩
      · intro _
        rw [hphase]
        rfl
  | leaving code reason =>
      refine ⟨_, _, { toMoved := moved_remove s c _, stream := ?_, table := ?_ }⟩
      · intro stream h
        unfold StreamOf at h
        rw [hphase] at h
        rw [List.append_nil]
        exact h
      · intro hconn
        cases hconn
  | emitClose code reason =>
      have hroom : s.hasRoom = true := by
        unfold Server.moveFits at hfits
        rw [hphase] at hfits
        exact hfits
      dsimp only
      rw [emit_of_room hroom]
      refine ⟨_, _, { toMoved := moved_emit s rfl _, stream := ?_, table := ?_ }⟩
      · intro stream h
        unfold StreamOf at h
        rw [hphase] at h
        have ⟨sent, hsent, hstream⟩ := h
        exact ⟨sent, code, reason, hsent, by rw [hstream]; rfl⟩
      · intro hconn
        cases hconn
  | rejected | serving | finished | dropped => exact ⟨_, _, advances_self htask⟩

theorem StreamOf.serving {stream : List Event} (h : StreamOf lossless task c stream)
    (hphase : task.phase = .serving) : stream = task.opened c task.read := by
  unfold StreamOf at h
  rw [hphase] at h
  exact h

theorem opened_concat (task : Connection) (c : Nat) (sent : List Message) (m : Message) :
    task.opened c (sent ++ [m]) = task.opened c sent ++ [m.event c] := by
  unfold Connection.opened
  rw [List.map_append]
  rfl

/-- The loop is left, with all messages sent or a last one refused. -/
theorem advances_leaving (hphase : task.phase = .serving) {task' : Connection} {next : Nat}
    {pending : OrderedMap String (List UInt8)} {code : Nat} {reason : String}
    (hleaving : task'.phase = .leaving code reason)
    (hsame : ∀ sent, task'.opened c sent = task.opened c sent)
    (hsent : Sent lossless task'.read code reason task.read) :
    Advances lossless s (({ s with nextBinaryMessageId := next, pendingBinaryMessages := pending } :
      Server).setTask c task') c task task' [] := by
  apply advances_setTask
  · intro stream h
    unfold StreamOf
    rw [hleaving]
    exact ⟨task.read, hsent, by rw [hsame, h.serving hphase]⟩
  · intro _
    rw [hphase]
    rfl

theorem receive_advances (htask : s.tasks[c]? = some task) (hphase : task.phase = .serving)
    (incoming : Incoming) (hfits : s.moveFits lossless task (.receive incoming) = true) :
    ∃ task' new, Advances lossless s (s.receive c task incoming) c task task' new := by
  cases incoming with
  | text text =>
      unfold Server.receive
      dsimp only
      by_cases hroom : s.hasRoom
      · rw [emit_of_room hroom]
        refine ⟨_, _, { toMoved := moved_emit s rfl _, stream := ?_, table := ?_ }⟩
        · intro stream h
          unfold StreamOf
          rw [h.serving hphase, hphase]
          exact (opened_concat task c task.read (.text text)).symm
        · intro _ hin
          exact hin (by rw [hphase]; rfl)
      · have hfull : s.hasRoom = false := Bool.eq_false_iff.mpr hroom
        rw [emit_of_full hfull]
        -- where events must fit the queue is not full here
        have hlossy : lossless = false := by
          unfold Server.moveFits at hfits
          rwa [hfull, Bool.or_false, Bool.not_eq_true'] at hfits
        exact ⟨_, _, advances_leaving hphase rfl (fun _ ↦ rfl)
          (.refused _ _ rfl rfl (.inl rfl) hlossy)⟩
  | binary body =>
      unfold Server.receive
      dsimp only
      split
      -- the table of payloads is full
      · rename_i hfull
        have hlossy : lossless = false := by
          unfold Server.moveFits at hfits
          rwa [decide_eq_false (Nat.not_lt.mpr hfull), Bool.or_false, Bool.not_eq_true'] at hfits
        exact ⟨_, _, advances_leaving hphase rfl (fun _ ↦ rfl)
          (.refused _ _ rfl rfl (.inr rfl) hlossy)⟩
      · refine ⟨_, _, advances_setTask ?_ ?_⟩
        · intro stream h
          exact ⟨task.read, rfl, h.serving hphase, fun hdrop ↦ by cases hdrop⟩
        · intro _
          rw [hphase]
          rfl
  | ping ponged =>
      cases ponged with
      | true => exact ⟨_, _, advances_self htask⟩
      | false => exact ⟨_, _, advances_leaving hphase rfl (fun _ ↦ rfl) .all⟩
  | pong => exact ⟨_, _, advances_self htask⟩
  | close frame =>
      cases frame with
      | some frame => exact ⟨_, _, advances_leaving hphase rfl (fun _ ↦ rfl) .all⟩
      | none => exact ⟨_, _, advances_leaving hphase rfl (fun _ ↦ rfl) .all⟩
  | error message => exact ⟨_, _, advances_leaving hphase rfl (fun _ ↦ rfl) .all⟩
  | ended => exact ⟨_, _, advances_leaving hphase rfl (fun _ ↦ rfl) .all⟩

/-- The commands of a connection are no part of its stream. -/
theorem advances_commands (commands : List WsCommand) :
    Advances lossless s (s.setTask c { task with commands }) c task { task with commands } [] := by
  apply advances_setTask
  · exact fun _ h ↦ h
  · exact fun h ↦ h

theorem obey_advances (htask : s.tasks[c]? = some task) (hphase : task.phase = .serving)
    (sent : Bool) : ∃ task' new, Advances lossless s (s.obey c task sent) c task task' new := by
  unfold Server.obey
  split
  · cases sent with
    | true => exact ⟨_, _, advances_commands _⟩
    | false => exact ⟨_, _, advances_leaving hphase rfl (fun _ ↦ rfl) .all⟩
  · cases sent with
    | true => exact ⟨_, _, advances_commands _⟩
    | false => exact ⟨_, _, advances_leaving hphase rfl (fun _ ↦ rfl) .all⟩
  · exact ⟨_, _, advances_leaving hphase rfl (fun _ ↦ rfl) .all⟩
  · split
    · exact ⟨_, _, advances_self htask⟩
    · exact ⟨_, _, advances_leaving hphase rfl (fun _ ↦ rfl) .all⟩

theorem noticeShutdown_advances (htask : s.tasks[c]? = some task) (hphase : task.phase = .serving) :
    ∃ task' new, Advances lossless s (s.noticeShutdown c task) c task task' new := by
  unfold Server.noticeShutdown
  split
  · exact ⟨_, _, advances_leaving hphase rfl (fun _ ↦ rfl) .all⟩
  · exact ⟨_, _, advances_self htask⟩

/-- What one move of a task does; one case for each kind of move. -/
theorem moveTask_advances (htask : s.tasks[c]? = some task) (move : Server.Move)
    (hfits : s.moveFits lossless task move = true) :
    ∃ task' new, Advances lossless s (s.moveTask c task move) c task task' new := by
  cases move with
  | proceed => exact proceed_advances htask hfits
  | receive incoming =>
      unfold Server.moveTask
      dsimp only
      by_cases hphase : task.phase = .serving
      · rw [if_pos hphase]
        exact receive_advances htask hphase incoming hfits
      · rw [if_neg hphase]
        exact ⟨_, _, advances_self htask⟩
  | obey sent =>
      unfold Server.moveTask
      dsimp only
      by_cases hphase : task.phase = .serving
      · rw [if_pos hphase]
        exact obey_advances htask hphase sent
      · rw [if_neg hphase]
        exact ⟨_, _, advances_self htask⟩
  | noticeShutdown =>
      unfold Server.moveTask
      dsimp only
      by_cases hphase : task.phase = .serving
      · rw [if_pos hphase]
        exact noticeShutdown_advances htask hphase
      · rw [if_neg hphase]
        exact ⟨_, _, advances_self htask⟩
  | drop =>
      have hkept : ¬(task.phase.waits ∧ 0 < s.shutdowns) := by
        intro hdrop
        unfold Server.moveFits at hfits
        rw [hdrop.1, decide_eq_true hdrop.2] at hfits
        cases hfits
      unfold Server.moveTask
      dsimp only
      rw [if_neg hkept]
      exact ⟨_, _, advances_self htask⟩

end Moves

/-! ## 4. One step of the system -/

structure System.Sound (lossless : Bool) (s : System) : Prop where
  fresh : ∀ c task, s.server.tasks[c]? = some task → c < s.server.nextConnectionId
  silent : ∀ c, s.server.tasks[c]? = none → s.stream c = []
  streams : ∀ c task, s.server.tasks[c]? = some task → StreamOf lossless task c (s.stream c)
  table : ∀ c task, s.server.tasks[c]? = some task → task.phase.connected →
    c ∈ s.server.connections
  opened : ∀ c ∈ s.sessions, ∃ path query headers, .wsOpen c path query headers ∈ s.received
  closed : ∀ c ∈ s.sessions, ∀ code reason, .wsClose c code reason ∉ s.received

section Steps

variable {lossless : Bool} {s : System}

/-- A change of the server as one connection sees it. -/
theorem stream_of_events {server : Server} {new : List Event} (d : Nat)
    (hevents : server.events = s.server.events ++ new) :
    System.stream { s with server } d =
      s.stream d ++ new.filter fun e ↦ e.connectionId? = some d := by
  unfold System.stream
  rw [hevents, ← List.append_assoc, List.filter_append]

theorem System.Sound.moved (hs : s.Sound lossless) {server : Server} {c : Nat}
    {task task' : Connection} {new : List Event} (htask : s.server.tasks[c]? = some task)
    (h : Advances lossless s.server server c task task' new) :
    System.Sound lossless { s with server } := by
  -- the new events are all of this connection
  have hown : (new.filter fun e ↦ e.connectionId? = some c) = new :=
    List.filter_eq_self.mpr fun e he ↦ decide_eq_true (h.own e he)
  have hother : ∀ d, d ≠ c → (new.filter fun e ↦ e.connectionId? = some d) = [] := by
    intro d hd
    apply List.filter_eq_nil_iff.mpr
    intro e he
    rw [decide_eq_true_eq, h.own e he, Option.some.injEq]
    exact Ne.symm hd
  exact {
    fresh := by
      intro d task hd
      show d < server.nextConnectionId
      rw [h.nextConnectionId]
      rw [h.tasks] at hd
      by_cases hcd : c = d
      · rw [← hcd]
        exact hs.fresh c _ htask
      · rw [if_neg hcd] at hd
        exact hs.fresh d _ hd
    silent := by
      intro d hd
      rw [h.tasks] at hd
      by_cases hcd : c = d
      · rw [if_pos hcd] at hd
        cases hd
      · rw [if_neg hcd] at hd
        rw [stream_of_events d h.events, hother d (Ne.symm hcd), List.append_nil]
        exact hs.silent d hd
    streams := by
      intro d task hd
      rw [h.tasks] at hd
      rw [stream_of_events d h.events]
      by_cases hcd : c = d
      · rw [if_pos hcd, Option.some.injEq] at hd
        rw [← hcd, ← hd, hown]
        exact h.stream _ (hs.streams c _ htask)
      · rw [if_neg hcd] at hd
        rw [hother d (Ne.symm hcd), List.append_nil]
        exact hs.streams d task hd
    table := by
      intro d task hd hconn
      rw [h.tasks] at hd
      by_cases hcd : c = d
      · rw [if_pos hcd, Option.some.injEq] at hd
        rw [← hd] at hconn
        rw [← hcd]
        exact h.table hconn (hs.table c _ htask)
      · rw [if_neg hcd] at hd
        exact (h.others d (Ne.symm hcd)).mpr (hs.table d task hd hconn)
    opened := hs.opened
    closed := hs.closed }

/-- An event of no connection changes no stream. -/
theorem System.Sound.emitted (hs : s.Sound lossless) {e : Event} (he : e.connectionId? = none) :
    System.Sound lossless { s with server := (s.server.emit e).2 } := by
  by_cases hroom : s.server.hasRoom
  · rw [emit_of_room hroom]
    have hstream : ∀ d, System.stream
        { s with server := { s.server with events := s.server.events ++ [e] } } d = s.stream d := by
      intro d
      rw [stream_of_events d rfl, List.filter_singleton, he]
      exact List.append_nil _
    exact {
      fresh := hs.fresh
      silent := fun d hd ↦ by rw [hstream]; exact hs.silent d hd
      streams := fun d task hd ↦ by rw [hstream]; exact hs.streams d task hd
      table := hs.table
      opened := hs.opened
      closed := hs.closed }
  · rw [emit_of_full (Bool.eq_false_iff.mpr hroom)]
    exact hs

theorem System.Sound.upgraded (hs : s.Sound lossless) (path query headers : String)
    (hfits : s.server.nextConnectionId + 1 < 2 ^ 64) :
    System.Sound lossless { s with server := s.server.upgrade path query headers } := by
  have hnext : fetchAdd s.server.nextConnectionId = s.server.nextConnectionId + 1 :=
    Nat.mod_eq_of_lt hfits
  -- the counter has not been at this number before
  have hnew : s.server.tasks[s.server.nextConnectionId]? = none := by
    cases htask : s.server.tasks[s.server.nextConnectionId]? with
    | none => rfl
    | some task => exact absurd (hs.fresh _ task htask) (Nat.lt_irrefl _)
  exact {
    fresh := by
      intro d task hd
      show d < fetchAdd s.server.nextConnectionId
      rw [hnext]
      change (s.server.tasks.insert s.server.nextConnectionId _)[d]? = some task at hd
      rw [OrderedMap.getElem?_insert] at hd
      split at hd
      · omega
      · exact Nat.lt_succ_of_lt (hs.fresh d task hd)
    silent := by
      intro d hd
      change (s.server.tasks.insert s.server.nextConnectionId _)[d]? = none at hd
      rw [OrderedMap.getElem?_insert] at hd
      split at hd
      · cases hd
      · exact hs.silent d hd
    streams := by
      intro d task hd
      change (s.server.tasks.insert s.server.nextConnectionId _)[d]? = some task at hd
      rw [OrderedMap.getElem?_insert] at hd
      split at hd
      · rename_i heq
        rw [Option.some.injEq] at hd
        rw [← heq, ← hd]
        exact ⟨rfl, hs.silent _ hnew⟩
      · exact hs.streams d task hd
    table := by
      intro d task hd hconn
      change (s.server.tasks.insert s.server.nextConnectionId _)[d]? = some task at hd
      show d ∈ s.server.connections.insert s.server.nextConnectionId ()
      rw [OrderedMap.getElem?_insert] at hd
      rw [OrderedMap.mem_insert]
      split at hd
      · rename_i heq
        exact .inl heq.symm
      · exact .inr (hs.table d task hd hconn)
    opened := hs.opened
    closed := hs.closed }

theorem System.Sound.sent (hs : s.Sound lossless) (c : Nat) (command : WsCommand) :
    System.Sound lossless { s with server := s.server.send c command } := by
  unfold Server.send
  split
  · split
    · rename_i task htask
      split
      · exact hs.moved htask (advances_commands _)
      · exact hs
    · exact hs
  · exact hs

theorem System.Sound.broadcast (hs : s.Sound lossless) (command : WsCommand) :
    System.Sound lossless { s with server := s.server.broadcast command } := by
  unfold Server.broadcast
  generalize s.server.connections.keys = keys
  induction keys generalizing s with
  | nil => exact hs
  | cons c keys ih => exact ih (hs.sent c command)

/-! ### The application takes an event -/

theorem message_event_ne_open (c : Nat) (sent : List Message) (path query headers : String) :
    .wsOpen c path query headers ∉ sent.map (Message.event c) := by
  intro hmem
  have ⟨m, _, hm⟩ := List.mem_map.mp hmem
  cases m <;> cases hm

/-- In a stream a `ws_open` comes first. -/
theorem StreamOf.open_first {task : Connection} {c : Nat} {front back : List Event}
    {path query headers : String}
    (h : StreamOf lossless task c (front ++ .wsOpen c path query headers :: back)) :
    front = [] := by
  -- behind its first event a stream has messages and at most one `ws_close`
  have hrest : ∀ first rest, front ++ .wsOpen c path query headers :: back = first :: rest →
      .wsOpen c path query headers ∉ rest → front = [] := by
    intro first rest heq hno
    cases front with
    | nil => rfl
    | cons e front =>
        rw [List.cons_append, List.cons.injEq] at heq
        rw [← heq.2] at hno
        exact absurd (List.mem_append_right front List.mem_cons_self) hno
  unfold StreamOf at h
  cases hphase : task.phase with
  | emitOpen | refused | rejected =>
      rw [hphase] at h
      exact absurd h.2 (List.append_ne_nil_of_right_ne_nil _ (List.cons_ne_nil _ _))
  | serving =>
      rw [hphase] at h
      exact hrest _ _ h (message_event_ne_open c _ path query headers)
  | emitBinary id | dropBinary id =>
      rw [hphase] at h
      have ⟨front', _, hstream, _⟩ := h
      exact hrest _ _ hstream (message_event_ne_open c _ path query headers)
  | leaving code reason | emitClose code reason =>
      rw [hphase] at h
      have ⟨sent, _, hstream⟩ := h
      exact hrest _ _ hstream (message_event_ne_open c _ path query headers)
  | finished =>
      rw [hphase] at h
      have ⟨sent, code, reason, _, hstream⟩ := h
      apply hrest _ _ hstream
      intro hmem
      cases List.mem_append.mp hmem with
      | inl hsent => exact message_event_ne_open _ _ _ _ _ hsent
      | inr hclose => cases List.mem_singleton.mp hclose
  | dropped =>
      rw [hphase] at h
      exact h.elim

theorem System.Sound.received_of_open (hs : s.Sound lossless) {c : Nat}
    {path query headers : String} {events : List Event}
    (hevents : s.server.events = .wsOpen c path query headers :: events) :
    (s.received.filter fun e ↦ e.connectionId? = some c) = [] := by
  have hstream : s.stream c = (s.received.filter fun e ↦ e.connectionId? = some c) ++
      .wsOpen c path query headers :: events.filter fun e ↦ e.connectionId? = some c := by
    unfold System.stream
    rw [hevents, List.filter_append]
    congr 1
    exact List.filter_cons_of_pos (decide_eq_true rfl)
  cases htask : s.server.tasks[c]? with
  | none =>
      have hnil := hs.silent c htask
      rw [hstream] at hnil
      exact absurd hnil (List.append_ne_nil_of_right_ne_nil _ (List.cons_ne_nil _ _))
  | some task =>
      have hof := hs.streams c task htask
      rw [hstream] at hof
      exact hof.open_first

theorem System.Sound.nextEvent (hs : s.Sound lossless) (opened : Bool) :
    (s.nextEvent opened).Sound lossless := by
  unfold System.nextEvent
  split
  · exact hs
  · rename_i event events hevents
    have hstream : ∀ d, System.stream ⟨{ s.server with events }, s.received ++ [event],
        dispatchEvent s.sessions opened event⟩ d = s.stream d := by
      intro d
      unfold System.stream
      rw [hevents, List.append_assoc]
      rfl
    exact {
      fresh := hs.fresh
      silent := fun d hd ↦ by rw [hstream]; exact hs.silent d hd
      streams := fun d task hd ↦ by rw [hstream]; exact hs.streams d task hd
      table := hs.table
      opened := by
        intro d hd
        have hold : d ∈ s.sessions →
            ∃ path query headers, .wsOpen d path query headers ∈ s.received ++ [event] := by
          intro hin
          have ⟨path, query, headers, hopen⟩ := hs.opened d hin
          exact ⟨path, query, headers, List.mem_append_left _ hopen⟩
        cases event with
        | wsOpen c path query headers =>
            cases opened with
            | true =>
                change d ∈ s.sessions.insert c () at hd
                rw [OrderedMap.mem_insert] at hd
                cases hd with
                | inl heq =>
                    rw [heq]
                    exact ⟨path, query, headers, List.mem_append_right _ List.mem_cons_self⟩
                | inr hin => exact hold hin
            | false => exact hold hd
        | wsClose c code reason =>
            change d ∈ s.sessions.erase c at hd
            rw [OrderedMap.mem_erase] at hd
            exact hold hd.2
        | http | serverError | wsMessage | wsBinary => exact hold hd
      closed := by
        intro d hd code reason hclose
        have hold : d ∈ s.sessions → .wsClose d code reason ≠ event → False := by
          intro hin hne
          cases List.mem_append.mp hclose with
          | inl hbefore => exact hs.closed d hin code reason hbefore
          | inr hnow => exact hne (List.mem_singleton.mp hnow)
        cases event with
        | wsOpen c path query headers =>
            cases opened with
            | true =>
                change d ∈ s.sessions.insert c () at hd
                rw [OrderedMap.mem_insert] at hd
                cases hd with
                | inl heq =>
                    -- nothing of the connection was received before its `ws_open`
                    subst heq
                    have hbefore := hs.received_of_open hevents
                    cases List.mem_append.mp hclose with
                    | inl hin =>
                        have hmem : Event.wsClose d code reason ∈
                            s.received.filter fun e ↦ e.connectionId? = some d :=
                          List.mem_filter.mpr ⟨hin, decide_eq_true rfl⟩
                        rw [hbefore] at hmem
                        exact absurd hmem List.not_mem_nil
                    | inr hnow => cases List.mem_singleton.mp hnow
                | inr hin => exact hold hin (fun heq ↦ by cases heq)
            | false => exact hold hd (fun heq ↦ by cases heq)
        | wsClose c code' reason' =>
            change d ∈ s.sessions.erase c at hd
            rw [OrderedMap.mem_erase] at hd
            exact hold hd.2 (fun heq ↦ hd.1 (by cases heq; rfl))
        | http | serverError | wsMessage | wsBinary => exact hold hd (fun heq ↦ by cases heq) }

/-- What one step of the system keeps; one case for each action. -/
theorem System.Sound.step (hs : s.Sound lossless) (a : Action) (hfits : s.fits lossless a = true) :
    (s.step a).Sound lossless := by
  cases a with
  | upgrade path query headers =>
      exact hs.upgraded path query headers (of_decide_eq_true hfits)
  | task c move =>
      unfold System.step
      dsimp only
      cases htask : s.server.tasks[c]? with
      | none => exact hs
      | some task =>
          have hmove : s.server.moveFits lossless task move = true := by
            unfold System.fits at hfits
            dsimp only at hfits
            rwa [htask] at hfits
          have ⟨task', new, hadvances⟩ := moveTask_advances htask move hmove
          exact hs.moved htask hadvances
  | http request => exact hs.emitted rfl
  | serverError message => exact hs.emitted rfl
  | nextEvent opened => exact hs.nextEvent opened
  | send c command => exact hs.sent c command
  | broadcast command => exact hs.broadcast command
  | takeMessageBytes messageId => exact ⟨hs.fresh, hs.silent, hs.streams, hs.table, hs.opened, hs.closed⟩
  | shutdown => exact ⟨hs.fresh, hs.silent, hs.streams, hs.table, hs.opened, hs.closed⟩

end Steps

end Stainless.Http
