import Stainless.Http.Server

/-!
# Commands of a connection

What the application sends to a peer, followed over any interleaving of the tasks and the calls.
-/

open Stainless.Runtime Reasoning

namespace Stainless.Http

/-! ## 1. What is accepted and what is obeyed -/

/-- What `send_text`, `send_bytes` and `close` return. -/
def Server.accepts (s : Server) (c : Nat) : Bool :=
  match s.tasks[c]? with
  | some task =>
      c ∈ s.connections && (task.phase.listens && task.commands.length < connectionQueueCapacity)
  | none => false

/-- The commands that were accepted for one connection, those that its task has taken, each with whether
the socket took its message, and those that still waited when the task ended. -/
structure CommandLog where
  accepted : List WsCommand
  obeyed : List (WsCommand × Bool)
  discarded : List WsCommand

def CommandLog.empty : CommandLog := ⟨[], [], []⟩

def CommandLog.accept (log : CommandLog) (command : WsCommand) : CommandLog :=
  { log with accepted := log.accepted ++ [command] }

def CommandLog.obey (log : CommandLog) (command : WsCommand) (sent : Bool) : CommandLog :=
  { log with obeyed := log.obeyed ++ [(command, sent)] }

def CommandLog.discard (log : CommandLog) (commands : List WsCommand) : CommandLog :=
  { log with discarded := log.discarded ++ commands }

/-- The log of a connection after one more move of its task. -/
def CommandLog.noteMove (log : CommandLog) (s : Server) (task : Connection) : Server.Move → CommandLog
  | .obey sent =>
      if task.phase = .serving then
        match task.commands with
        | command :: _ => log.obey command sent
        | [] => log
      else log
  | .proceed =>
      match task.phase with
      | .refused | .emitClose _ _ => log.discard task.commands
      | _ => log
  | .drop => if task.phase.waits ∧ 0 < s.shutdowns then log.discard task.commands else log
  | .receive _ | .noticeShutdown => log

/-- The log of a connection after one more action. -/
def CommandLog.note (c : Nat) (log : CommandLog) (s : System) : Action → CommandLog
  | .send d command => if d = c ∧ s.server.accepts c = true then log.accept command else log
  | .broadcast command => if s.server.accepts c = true then log.accept command else log
  | .task d move =>
      match s.server.tasks[d]? with
      | some task => if d = c then log.noteMove s.server task move else log
      | none => log
  | _ => log

/-- The loop goes on after a message that the socket took. -/
def passes : WsCommand × Bool → Bool
  | (.text _, sent) | (.binary _, sent) => sent
  | (.close _ _, _) => false

/-- The loop of the task is in front, or goes on. -/
def Phase.mayServe : Phase → Bool
  | .emitOpen | .serving | .emitBinary _ => true
  | _ => false

/-- The counter of connections does not wrap around. -/
def Counts (s : System) : Action → Prop
  | .upgrade _ _ _ => s.server.nextConnectionId + 1 < 2 ^ 64
  | _ => True

instance (s : System) : ∀ a, Decidable (Counts s a)
  | .upgrade _ _ _ => inferInstanceAs (Decidable (_ < _))
  | .task _ _ | .http _ | .serverError _ | .nextEvent _ | .send _ _ | .broadcast _ | .takeMessageBytes _
  | .shutdown => inferInstanceAs (Decidable True)

/-- The task of the connection and its log. -/
structure CommandLog.Fits (log : CommandLog) (task : Connection) : Prop where
  order : log.accepted = log.obeyed.map Prod.fst ++ (log.discarded ++ task.commands)
  kept : task.phase.listens = true → log.discarded = []
  gone : task.phase.listens = false → task.commands = []
  room : task.commands.length ≤ connectionQueueCapacity
  front : ∀ x ∈ log.obeyed.dropLast, passes x = true
  serving : task.phase.mayServe = true → ∀ x ∈ log.obeyed, passes x = true

structure CommandLog.Sound (c : Nat) (log : CommandLog) (s : System) : Prop where
  fresh : ∀ d task, s.server.tasks[d]? = some task → d < s.server.nextConnectionId
  absent : s.server.tasks[c]? = none → log = .empty
  fits : ∀ task, s.server.tasks[c]? = some task → log.Fits task

/-! ## 2. Moves of a task -/

/-- The server has changed at one task, and nowhere else in the table of tasks. -/
structure Server.MovedTo (s s' : Server) (c : Nat) (task' : Connection) : Prop where
  tasks : ∀ d, s'.tasks[d]? = if c = d then some task' else s.tasks[d]?
  next : s'.nextConnectionId = s.nextConnectionId

/-- A task that has taken no command, and has not ended. -/
structure Connection.Idles (task task' : Connection) : Prop where
  commands : task'.commands = task.commands
  listens : task'.phase.listens = task.phase.listens
  serves : task'.phase.mayServe = true → task.phase.mayServe = true

theorem Connection.idles_self (task : Connection) : task.Idles task := ⟨rfl, rfl, id⟩

namespace CommandLog.Fits

variable {log : CommandLog} {task task' : Connection}

theorem idle (h : log.Fits task) (hidle : task.Idles task') : log.Fits task' where
  order := by rw [hidle.commands]; exact h.order
  kept hlistens := h.kept (hidle.listens ▸ hlistens)
  gone hlistens := by
    rw [hidle.commands]
    exact h.gone (hidle.listens ▸ hlistens)
  room := by rw [hidle.commands]; exact h.room
  front := h.front
  serving hphase := h.serving (hidle.serves hphase)

/-- What still waits when the task ends is lost. -/
theorem ended (h : log.Fits task) {phase : Phase} (hlistens : phase.listens = false)
    (hserves : phase.mayServe = false) : (log.discard task.commands).Fits (task.ended phase) where
  order := by
    change log.accepted = _ ++ (log.discarded ++ task.commands ++ [])
    rw [List.append_nil]
    exact h.order
  kept hphase := by
    change phase.listens = true at hphase
    rw [hlistens] at hphase
    cases hphase
  gone _ := rfl
  room := Nat.zero_le _
  front := h.front
  serving hphase := by
    change phase.mayServe = true at hphase
    rw [hserves] at hphase
    cases hphase

theorem accept (h : log.Fits task) (command : WsCommand) (hlistens : task.phase.listens = true)
    (hroom : task.commands.length < connectionQueueCapacity) :
    (log.accept command).Fits { task with commands := task.commands ++ [command] } where
  order := by
    change log.accepted ++ [command] = log.obeyed.map Prod.fst ++ (log.discarded ++ (task.commands ++ [command]))
    rw [h.order, List.append_assoc, List.append_assoc]
  kept := h.kept
  gone hphase := by
    change task.phase.listens = false at hphase
    rw [hlistens] at hphase
    cases hphase
  room := by
    rw [List.length_append]
    exact hroom
  front := h.front
  serving := h.serving

/-- The task takes its next command: when the loop goes on the command has passed. -/
theorem obey {command : WsCommand} {commands : List WsCommand} {sent : Bool} (h : log.Fits task)
    (hcommands : task.commands = command :: commands) (hphase : task.phase = .serving)
    (htask' : task'.commands = commands) (hlistens : task'.phase.listens = true)
    (hnext : task'.phase.mayServe = true → passes (command, sent) = true) :
    (log.obey command sent).Fits task' where
  order := by
    have hnone : log.discarded = [] := h.kept (by rw [hphase]; rfl)
    change log.accepted = (log.obeyed ++ [(command, sent)]).map Prod.fst ++ (log.discarded ++ _)
    rw [h.order, hnone, hcommands, htask', List.map_append, List.append_assoc]
    rfl
  kept _ := h.kept (by rw [hphase]; rfl)
  gone hgone := by
    rw [hlistens] at hgone
    cases hgone
  room := by
    have hroom := h.room
    rw [hcommands, List.length_cons] at hroom
    rw [htask']
    omega
  front := by
    change ∀ x ∈ (log.obeyed ++ [(command, sent)]).dropLast, _
    rw [List.dropLast_concat]
    exact h.serving (by rw [hphase]; rfl)
  serving hserves := by
    change ∀ x ∈ log.obeyed ++ [(command, sent)], _
    intro x hx
    rcases List.mem_append.mp hx with hx | hx
    · exact h.serving (by rw [hphase]; rfl) x hx
    · rw [List.mem_singleton.mp hx]
      exact hnext hserves

end CommandLog.Fits

section

variable {s : Server} {c : Nat} {task : Connection}

/-- A task is written in a server that differs elsewhere. -/
theorem movedTo_update {s s' : Server} (c : Nat) (task' : Connection) (htasks : s'.tasks = s.tasks)
    (hnext : s'.nextConnectionId = s.nextConnectionId) : s.MovedTo (s'.setTask c task') c task' := by
  refine ⟨fun d ↦ ?_, hnext⟩
  change (s'.tasks.insert c task')[d]? = _
  rw [OrderedMap.getElem?_insert, htasks]

theorem movedTo_setTask (s : Server) (c : Nat) (task' : Connection) : s.MovedTo (s.setTask c task') c task' :=
  movedTo_update c task' rfl rfl

theorem movedTo_self (htask : s.tasks[c]? = some task) : s.MovedTo s c task := by
  refine ⟨fun d ↦ ?_, rfl⟩
  by_cases hd : c = d
  · rw [if_pos hd, ← hd, htask]
  · rw [if_neg hd]

theorem movedTo_emit (s : Server) (event : Event) (c : Nat) (task' : Connection) :
    s.MovedTo ((s.emit event).2.setTask c task') c task' := by
  unfold Server.emit
  split
  · exact movedTo_update c task' (by rfl) (by rfl)
  · exact movedTo_update c task' (by rfl) (by rfl)

/-- The next access of a task: it goes on, or it ends. -/
theorem proceed_fits (log : CommandLog) (htask : s.tasks[c]? = some task) :
    ∃ task', s.MovedTo (s.proceed c task) c task' ∧
      (log.Fits task → (log.noteMove s task .proceed).Fits task') := by
  unfold Server.proceed CommandLog.noteMove
  -- only a phase that ends the task touches its queue; in the others nothing is taken and nothing lost
  cases hphase : task.phase with
  | emitOpen =>
      dsimp only
      have hemit := movedTo_emit s (.wsOpen c task.path task.query task.headers) c
      revert hemit
      generalize s.emit (.wsOpen c task.path task.query task.headers) = r
      intro hemit
      obtain ⟨ok, s'⟩ := r
      cases ok with
      | true => exact ⟨_, hemit _, fun hfits ↦ hfits.idle ⟨rfl, by rw [hphase]; rfl, fun _ ↦ by rw [hphase]; rfl⟩⟩
      | false => exact ⟨_, hemit _, fun hfits ↦ hfits.idle ⟨rfl, by rw [hphase]; rfl, nofun⟩⟩
  | emitBinary messageId =>
      dsimp only
      have hemit := movedTo_emit s (.wsBinary c messageId) c
      revert hemit
      generalize s.emit (.wsBinary c messageId) = r
      intro hemit
      obtain ⟨ok, s'⟩ := r
      cases ok with
      | true => exact ⟨_, hemit _, fun hfits ↦ hfits.idle ⟨rfl, by rw [hphase]; rfl, fun _ ↦ by rw [hphase]; rfl⟩⟩
      | false => exact ⟨_, hemit _, fun hfits ↦ hfits.idle ⟨rfl, by rw [hphase]; rfl, nofun⟩⟩
  | refused =>
      dsimp only
      exact ⟨_, movedTo_update c _ (by rfl) (by rfl), fun hfits ↦ hfits.ended rfl rfl⟩
  | dropBinary messageId =>
      dsimp only
      exact ⟨_, movedTo_update c _ (by rfl) (by rfl), fun hfits ↦ hfits.idle ⟨rfl, by rw [hphase]; rfl, nofun⟩⟩
  | leaving code reason =>
      dsimp only
      exact ⟨_, movedTo_update c _ (by rfl) (by rfl), fun hfits ↦ hfits.idle ⟨rfl, by rw [hphase]; rfl, nofun⟩⟩
  | emitClose code reason =>
      dsimp only
      exact ⟨_, movedTo_emit s _ c _, fun hfits ↦ hfits.ended rfl rfl⟩
  | rejected => exact ⟨task, movedTo_self htask, id⟩
  | serving => exact ⟨task, movedTo_self htask, id⟩
  | finished => exact ⟨task, movedTo_self htask, id⟩
  | dropped => exact ⟨task, movedTo_self htask, id⟩

theorem receive_idles (htask : s.tasks[c]? = some task) (hphase : task.phase = .serving) (incoming : Incoming) :
    ∃ task', s.MovedTo (s.receive c task incoming) c task' ∧ task.Idles task' := by
  have hserves : task.phase.mayServe = true := by rw [hphase]; rfl
  have hlistens : true = task.phase.listens := by rw [hphase]; rfl
  cases incoming with
  | text text =>
      unfold Server.receive
      dsimp only
      have hemit := movedTo_emit s (.wsMessage c text) c
      revert hemit
      generalize s.emit (.wsMessage c text) = r
      intro hemit
      obtain ⟨ok, s'⟩ := r
      cases ok with
      | true => exact ⟨_, hemit _, rfl, rfl, fun _ ↦ hserves⟩
      | false => exact ⟨_, hemit _, rfl, hlistens, fun _ ↦ hserves⟩
  | binary body =>
      unfold Server.receive
      dsimp only
      split
      · exact ⟨_, movedTo_update c _ (by rfl) (by rfl), rfl, hlistens, fun _ ↦ hserves⟩
      · exact ⟨_, movedTo_update c _ (by rfl) (by rfl), rfl, hlistens, fun _ ↦ hserves⟩
  | ping ponged =>
      cases ponged with
      | true => exact ⟨task, movedTo_self htask, task.idles_self⟩
      | false => exact ⟨_, movedTo_setTask s c _, rfl, hlistens, fun _ ↦ hserves⟩
  | pong => exact ⟨task, movedTo_self htask, task.idles_self⟩
  | close frame =>
      cases frame with
      | some frame => exact ⟨_, movedTo_setTask s c _, rfl, hlistens, fun _ ↦ hserves⟩
      | none => exact ⟨_, movedTo_setTask s c _, rfl, hlistens, fun _ ↦ hserves⟩
  | error message => exact ⟨_, movedTo_setTask s c _, rfl, hlistens, fun _ ↦ hserves⟩
  | ended => exact ⟨_, movedTo_setTask s c _, rfl, hlistens, fun _ ↦ hserves⟩

/-- The task takes a command, or finds that no more will come. -/
theorem obey_fits (log : CommandLog) (htask : s.tasks[c]? = some task) (hphase : task.phase = .serving)
    (sent : Bool) :
    ∃ task', s.MovedTo (s.obey c task sent) c task' ∧
      (log.Fits task → (log.noteMove s task (.obey sent)).Fits task') := by
  unfold Server.obey CommandLog.noteMove
  dsimp only
  rw [if_pos hphase]
  cases hcommands : task.commands with
  | nil =>
      dsimp only
      split
      · exact ⟨task, movedTo_self htask, id⟩
      · exact ⟨_, movedTo_setTask s c _, fun hfits ↦ hfits.idle ⟨hcommands.symm, by rw [hphase]; rfl, nofun⟩⟩
  | cons command commands =>
      -- the loop goes on exactly after a message that the socket took
      cases command with
      | text text =>
          cases sent with
          | true => exact ⟨_, movedTo_setTask s c _, fun hfits ↦ hfits.obey hcommands hphase rfl (by rw [hphase]; rfl) fun _ ↦ rfl⟩
          | false => exact ⟨_, movedTo_setTask s c _, fun hfits ↦ hfits.obey hcommands hphase rfl rfl nofun⟩
      | binary body =>
          cases sent with
          | true => exact ⟨_, movedTo_setTask s c _, fun hfits ↦ hfits.obey hcommands hphase rfl (by rw [hphase]; rfl) fun _ ↦ rfl⟩
          | false => exact ⟨_, movedTo_setTask s c _, fun hfits ↦ hfits.obey hcommands hphase rfl rfl nofun⟩
      | close code reason => exact ⟨_, movedTo_setTask s c _, fun hfits ↦ hfits.obey hcommands hphase rfl rfl nofun⟩

/-- Every move keeps the log of its connection. -/
theorem moveTask_fits (log : CommandLog) (htask : s.tasks[c]? = some task) (move : Server.Move) :
    ∃ task', s.MovedTo (s.moveTask c task move) c task' ∧
      (log.Fits task → (log.noteMove s task move).Fits task') := by
  cases move with
  | proceed => exact proceed_fits log htask
  | receive incoming =>
      unfold Server.moveTask CommandLog.noteMove
      dsimp only
      -- outside of its loop the task does not look at the socket
      split
      case isTrue hphase =>
        obtain ⟨task', hmoved, hidles⟩ := receive_idles htask hphase incoming
        exact ⟨task', hmoved, fun hfits ↦ hfits.idle hidles⟩
      case isFalse => exact ⟨task, movedTo_self htask, id⟩
  | obey sent =>
      by_cases hphase : task.phase = .serving
      case pos =>
        have hobey := obey_fits log htask hphase sent
        unfold Server.moveTask
        dsimp only
        rw [if_pos hphase]
        exact hobey
      case neg =>
        unfold Server.moveTask CommandLog.noteMove
        dsimp only
        rw [if_neg hphase, if_neg hphase]
        exact ⟨task, movedTo_self htask, id⟩
  | noticeShutdown =>
      unfold Server.moveTask CommandLog.noteMove
      dsimp only
      split
      case isFalse => exact ⟨task, movedTo_self htask, id⟩
      case isTrue hphase =>
        unfold Server.noticeShutdown
        split
        · exact ⟨_, movedTo_setTask s c _, fun hfits ↦ hfits.idle ⟨rfl, by rw [hphase]; rfl, nofun⟩⟩
        · exact ⟨task, movedTo_self htask, id⟩
  | drop =>
      unfold Server.moveTask CommandLog.noteMove
      dsimp only
      split
      · exact ⟨_, movedTo_setTask s c _, fun hfits ↦ hfits.ended rfl rfl⟩
      · exact ⟨task, movedTo_self htask, id⟩

theorem accepts_iff (htask : s.tasks[c]? = some task) :
    s.accepts c = true ↔
      c ∈ s.connections ∧ task.phase.listens = true ∧ task.commands.length < connectionQueueCapacity := by
  rw [Server.accepts, htask]
  simp

/-- A command is queued at one connection, if it is accepted. -/
theorem send_movedTo (htask : s.tasks[c]? = some task) (command : WsCommand) :
    s.MovedTo (s.send c command) c
        (if s.accepts c = true then { task with commands := task.commands ++ [command] } else task) ∧
      (s.send c command).connections = s.connections := by
  unfold Server.send
  rw [htask]
  dsimp only
  by_cases haccepts : s.accepts c = true
  · obtain ⟨hc, hopen⟩ := (accepts_iff htask).mp haccepts
    rw [if_pos hc, if_pos hopen, if_pos haccepts]
    exact ⟨movedTo_setTask s c _, rfl⟩
  · rw [if_neg haccepts]
    split
    case isFalse => exact ⟨movedTo_self htask, rfl⟩
    case isTrue hc =>
      rw [if_neg fun hopen ↦ haccepts ((accepts_iff htask).mpr ⟨hc, hopen⟩)]
      exact ⟨movedTo_self htask, rfl⟩

theorem send_of_none (htask : s.tasks[c]? = none) (command : WsCommand) : s.send c command = s := by
  unfold Server.send
  rw [htask]
  split <;> rfl

end

/-! ## 3. Steps -/

namespace CommandLog

variable {c : Nat} {log : CommandLog} {s : System}

/-- A step that changes one task, and leaves the log as it is. -/
theorem Sound.moved {server : Server} {d : Nat} {task task' : Connection} (hs : log.Sound c s)
    (htask : s.server.tasks[d]? = some task) (hmoved : s.server.MovedTo server d task')
    {log' : CommandLog} (hown : d = c → log'.Fits task') (hother : d ≠ c → log' = log) :
    log'.Sound c { s with server } where
  fresh k t hk := by
    change k < server.nextConnectionId
    rw [hmoved.next]
    change server.tasks[k]? = some t at hk
    rw [hmoved.tasks] at hk
    by_cases hd : d = k
    · rw [← hd]
      exact hs.fresh d task htask
    · rw [if_neg hd] at hk
      exact hs.fresh k t hk
  absent hk := by
    change server.tasks[c]? = none at hk
    rw [hmoved.tasks] at hk
    by_cases hd : d = c
    · rw [if_pos hd] at hk
      cases hk
    · rw [if_neg hd] at hk
      rw [hother hd]
      exact hs.absent hk
  fits t hk := by
    change server.tasks[c]? = some t at hk
    rw [hmoved.tasks] at hk
    by_cases hd : d = c
    · rw [if_pos hd] at hk
      cases hk
      exact hown hd
    · rw [if_neg hd] at hk
      rw [hother hd]
      exact hs.fits t hk

/-- A step that changes no task. -/
theorem Sound.same {s' : System} (hs : log.Sound c s) (htasks : s'.server.tasks = s.server.tasks)
    (hnext : s'.server.nextConnectionId = s.server.nextConnectionId) : log.Sound c s' where
  fresh k t hk := by
    rw [htasks] at hk
    rw [hnext]
    exact hs.fresh k t hk
  absent hk := by
    rw [htasks] at hk
    exact hs.absent hk
  fits t hk := by
    rw [htasks] at hk
    exact hs.fits t hk

theorem Sound.emitted (hs : log.Sound c s) (event : Event) :
    log.Sound c { s with server := (s.server.emit event).2 } := by
  unfold Server.emit
  split
  · exact hs.same rfl rfl
  · exact hs

theorem Sound.upgraded (hs : log.Sound c s) (path query headers : String)
    (hcount : s.server.nextConnectionId + 1 < 2 ^ 64) :
    log.Sound c { s with server := s.server.upgrade path query headers } := by
  have hnext : fetchAdd s.server.nextConnectionId = s.server.nextConnectionId + 1 := Nat.mod_eq_of_lt hcount
  have htasks (k : Nat) : (s.server.upgrade path query headers).tasks[k]? =
      if s.server.nextConnectionId = k then some ⟨path, query, headers, .emitOpen, [], 0, []⟩
      else s.server.tasks[k]? := OrderedMap.getElem?_insert _ _ _ _
  have hnew : s.server.tasks[s.server.nextConnectionId]? = none := by
    cases htask : s.server.tasks[s.server.nextConnectionId]? with
    | none => rfl
    | some task => exact absurd (hs.fresh _ task htask) (Nat.lt_irrefl _)
  constructor
  case fresh =>
    intro k t hk
    change k < fetchAdd s.server.nextConnectionId
    rw [hnext]
    change (s.server.upgrade path query headers).tasks[k]? = some t at hk
    rw [htasks] at hk
    split at hk
    case isTrue heq => omega
    case isFalse => exact Nat.lt_succ_of_lt (hs.fresh k t hk)
  case absent =>
    intro hk
    change (s.server.upgrade path query headers).tasks[c]? = none at hk
    rw [htasks] at hk
    split at hk
    case isTrue => cases hk
    case isFalse => exact hs.absent hk
  case fits =>
    intro t hk
    change (s.server.upgrade path query headers).tasks[c]? = some t at hk
    rw [htasks] at hk
    split at hk
    case isTrue heq =>
      cases hk
      rw [hs.absent (heq ▸ hnew)]
      exact ⟨rfl, fun _ ↦ rfl, fun _ ↦ rfl, Nat.zero_le _, nofun, fun _ ↦ nofun⟩
    case isFalse => exact hs.fits t hk

theorem Sound.sent (hs : log.Sound c s) (d : Nat) (command : WsCommand) :
    (if d = c ∧ s.server.accepts c = true then log.accept command else log).Sound c
      { s with server := s.server.send d command } := by
  cases htask : s.server.tasks[d]? with
  | none =>
      rw [send_of_none htask, if_neg]
      · exact hs
      · rintro ⟨rfl, haccepts⟩
        unfold Server.accepts at haccepts
        rw [htask] at haccepts
        cases haccepts
  | some task =>
      refine hs.moved htask (send_movedTo htask command).1 (fun hd ↦ ?_) (fun hd ↦ ?_)
      · subst hd
        have hfits := hs.fits task htask
        by_cases haccepts : s.server.accepts d = true
        · rw [if_pos ⟨rfl, haccepts⟩, if_pos haccepts]
          obtain ⟨_, hlistens, hroom⟩ := (accepts_iff htask).mp haccepts
          exact hfits.accept command hlistens hroom
        · rw [if_neg fun h ↦ haccepts h.2, if_neg haccepts]
          exact hfits
      · rw [if_neg fun h ↦ hd h.1]

theorem accepts_send (server : Server) {d : Nat} (hd : d ≠ c) (command : WsCommand) :
    (server.send d command).accepts c = server.accepts c := by
  cases htask : server.tasks[d]? with
  | none => rw [send_of_none htask]
  | some task =>
      obtain ⟨hmoved, hconnections⟩ := send_movedTo htask command
      rw [Server.accepts, Server.accepts, hmoved.tasks, if_neg hd, hconnections]

/-- A broadcast reaches every connection of the table once. -/
theorem Sound.broadcast (hs : log.Sound c s) (command : WsCommand) :
    (if s.server.accepts c = true then log.accept command else log).Sound c
      { s with server := s.server.broadcast command } := by
  -- along the keys, of which none comes twice
  have hfold (keys : List Nat) (hkeys : keys.Nodup) {server : Server} {log : CommandLog}
      (hs : log.Sound c { s with server }) :
      (if c ∈ keys ∧ server.accepts c = true then log.accept command else log).Sound c
        { s with server := keys.foldl (fun s c ↦ s.send c command) server } := by
    induction keys generalizing server log with
    | nil =>
        rw [if_neg fun h ↦ absurd h.1 List.not_mem_nil]
        exact hs
    | cons d keys ih =>
        obtain ⟨hnot, hkeys⟩ := List.nodup_cons.mp hkeys
        have hnext := ih hkeys (hs.sent d command)
        rw [List.foldl_cons]
        by_cases hd : d = c
        · subst hd
          rw [if_neg fun h ↦ hnot h.1] at hnext
          simpa using hnext
        · have hmem : c ∈ d :: keys ↔ c ∈ keys := by
            rw [List.mem_cons]
            exact or_iff_right (Ne.symm hd)
          have hlog : (if d = c ∧ server.accepts c = true then log.accept command else log) = log :=
            if_neg fun h ↦ hd h.1
          rw [hlog] at hnext
          simp only [hmem, accepts_send server hd] at hnext ⊢
          exact hnext
  -- a connection that accepts is in the table, so its turn comes
  have hall := hfold s.server.connections.keys Std.ExtTreeMap.nodup_keys hs
  by_cases haccepts : s.server.accepts c = true
  · have hmem : c ∈ s.server.connections.keys := by
      cases htask : s.server.tasks[c]? with
      | none =>
          rw [Server.accepts, htask] at haccepts
          cases haccepts
      | some task => exact Std.ExtTreeMap.mem_keys.mpr ((accepts_iff htask).mp haccepts).1
    rw [if_pos haccepts]
    rw [if_pos ⟨hmem, haccepts⟩] at hall
    exact hall
  · rw [if_neg haccepts]
    rw [if_neg fun h ↦ haccepts h.2] at hall
    exact hall

theorem Sound.step (hs : log.Sound c s) {a : Action} (ha : Counts s a) : (log.note c s a).Sound c (s.step a) := by
  cases a with
  | upgrade path query headers => exact hs.upgraded path query headers ha
  | task d move =>
      cases htask : s.server.tasks[d]? with
      | none =>
          rw [System.step, htask, note, htask]
          exact hs
      | some task =>
          rw [System.step, htask]
          unfold note
          dsimp only
          rw [htask]
          dsimp only
          obtain ⟨task', hmoved, hfits⟩ := moveTask_fits log htask move
          refine hs.moved htask hmoved (fun hd ↦ ?_) fun hd ↦ if_neg hd
          subst hd
          rw [if_pos rfl]
          exact hfits (hs.fits task htask)
  | http request => exact hs.emitted _
  | serverError message => exact hs.emitted _
  | nextEvent opened =>
      rw [System.step, System.nextEvent]
      split
      · exact hs
      · exact hs.same rfl rfl
  | send d command => exact hs.sent d command
  | broadcast command => exact hs.broadcast command
  | takeMessageBytes messageId => exact hs.same rfl rfl
  | shutdown => exact hs.same rfl rfl

end CommandLog

/-! ## 4. Runs -/

/-- The log of a connection after a run. -/
def commandLog (c : Nat) (actions : List Action) : CommandLog :=
  (run (watch System.step (CommandLog.note c)) (.start, .empty) actions).2

theorem commandLog_sound (c : Nat) {actions : List Action} (h : Meets System.step Counts .start actions) :
    (commandLog c actions).Sound c (run System.step .start actions) := by
  rw [← run_watch_fst (CommandLog.note c) .start .empty actions]
  refine (h.watch (CommandLog.note c) .empty).invariant (I := fun p ↦ p.2.Sound c p.1) ?_
    fun p a hs ha ↦ hs.step ha
  refine ⟨fun d task hd ↦ ?_, fun _ ↦ rfl, fun task hd ↦ ?_⟩
  · simp [System.start, Server.bind] at hd
  · simp [System.start, Server.bind] at hd

/-- Over every interleaving, a peer is sent what the application has queued for it, in that order: what
was accepted is what the task has taken and then what still waits, all messages that were taken but the
last have gone through the socket, and after a close or a failure of the socket no more is taken.  A task
that has ended takes what still waited with it, and no more is accepted for it. -/
theorem commands_in_order (c : Nat) (actions : List Action) (h : Meets System.step Counts .start actions) :
    let s := (run System.step .start actions).server
    let log := commandLog c actions
    (s.tasks[c]? = none → log.accepted = [] ∧ log.obeyed = [] ∧ s.accepts c = false) ∧
      ∀ task, s.tasks[c]? = some task →
        (∃ rest, log.accepted = log.obeyed.map Prod.fst ++ rest ∧
          (task.phase.listens = true → task.commands = rest) ∧
          (task.phase.listens = false → log.discarded = rest ∧ task.commands = [] ∧ s.accepts c = false)) ∧
        task.commands.length ≤ connectionQueueCapacity ∧
        (∀ x ∈ log.obeyed.dropLast, passes x = true) ∧
        (task.phase = .serving → ∀ x ∈ log.obeyed, passes x = true) := by
  have hs := commandLog_sound c h
  refine ⟨fun hnone ↦ ?_, fun task htask ↦ ?_⟩
  · rw [hs.absent hnone, Server.accepts, hnone]
    exact ⟨rfl, rfl, rfl⟩
  · have hfits := hs.fits task htask
    refine ⟨⟨_, hfits.order, ?_, ?_⟩, hfits.room, hfits.front, fun hphase ↦ hfits.serving (by rw [hphase]; rfl)⟩
    · intro hlistens
      rw [hfits.kept hlistens]
      rfl
    · intro hlistens
      have hgone := hfits.gone hlistens
      refine ⟨by rw [hgone, List.append_nil], hgone, ?_⟩
      rw [Server.accepts, htask]
      simp [hlistens]

/-- Two connections, a broadcast, a socket that fails, and a task that is dropped at the end. -/
private def failing : List Action :=
  [.upgrade "/v1/ws" "" "", .upgrade "/v1/ws" "" "", .task 1 .proceed, .task 2 .proceed,
    .send 1 (.text "a"), .broadcast (.text "b"), .send 1 (.binary [1]), .task 1 (.obey true), .task 1 (.obey false),
    .task 1 (.obey true), .send 1 (.close 1000 ""), .task 1 .proceed, .send 1 (.text "c"), .task 2 (.obey true),
    .send 2 (.text "d"), .shutdown, .task 2 .drop, .send 2 (.text "e")]

theorem commands_in_order_failing :
    let s := (run System.step .start failing).server
    let log := commandLog 2 failing
    (s.tasks[2]? = none → log.accepted = [] ∧ log.obeyed = [] ∧ s.accepts 2 = false) ∧
      ∀ task, s.tasks[2]? = some task →
        (∃ rest, log.accepted = log.obeyed.map Prod.fst ++ rest ∧
          (task.phase.listens = true → task.commands = rest) ∧
          (task.phase.listens = false → log.discarded = rest ∧ task.commands = [] ∧ s.accepts 2 = false)) ∧
        task.commands.length ≤ connectionQueueCapacity ∧
        (∀ x ∈ log.obeyed.dropLast, passes x = true) ∧
        (task.phase = .serving → ∀ x ∈ log.obeyed, passes x = true) :=
  commands_in_order 2 failing (by decide +kernel)

example : (commandLog 1 failing).obeyed = [(.text "a", true), (.text "b", false)] := by
  decide +kernel

example : (commandLog 2 failing).accepted = [.text "b", .text "d"] ∧
    (commandLog 2 failing).discarded = [.text "d"] := by
  decide +kernel

end Stainless.Http
