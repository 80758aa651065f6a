import Stainless.Http.EventStream

/-!
# Event streams over runs

Every interleaving in which each `ws_close` finds room gives every connection its whole stream; a
`ws_close` that finds the queue full is lost and the application keeps the session.
-/

open Stainless.Runtime Reasoning

namespace Stainless.Http

theorem System.sound_start (lossless : Bool) : System.start.Sound lossless where
  fresh := fun c task h ↦ by simp [System.start, Server.bind] at h
  silent := fun _ _ ↦ rfl
  streams := fun c task h ↦ by simp [System.start, Server.bind] at h
  table := fun c task h ↦ by simp [System.start, Server.bind] at h
  opened := fun c h ↦ by simp [System.start] at h
  closed := fun c h ↦ by simp [System.start] at h

/-! ## 1. The streams of a run -/

def Phase.ended : Phase → Bool
  | .rejected | .finished | .dropped => true
  | .emitOpen | .refused | .serving | .emitBinary _ | .dropBinary _ | .leaving _ _
  | .emitClose _ _ => false

/-- No event of the connection waits in the queue or is about to be its `ws_close`. -/
def System.Drained (s : System) (c : Nat) : Prop :=
  (∀ e ∈ s.server.events, e.connectionId? ≠ some c) ∧
    ∀ task code reason, s.server.tasks[c]? = some task → task.phase ≠ .emitClose code reason

structure System.WellStreamed (lossless : Bool) (s : System) : Prop where
  order : ∀ c task, s.server.tasks[c]? = some task → StreamOf lossless task c (s.stream c)
  closes : ∀ c task, s.server.tasks[c]? = some task → task.phase.ended → s.Drained c →
    (∃ path query headers, .wsOpen c path query headers ∈ s.received) →
    ∃ code reason, .wsClose c code reason ∈ s.received
  absent : ∀ c, c ∉ s.server.connections → s.Drained c → c ∉ s.sessions

theorem System.Drained.stream_eq {s : System} {c : Nat} (h : s.Drained c) :
    s.stream c = s.received.filter fun e ↦ e.connectionId? = some c := by
  unfold System.stream
  have hnil : (s.server.events.filter fun e ↦ e.connectionId? = some c) = [] := by
    apply List.filter_eq_nil_iff.mpr
    intro e he
    rw [decide_eq_true_eq]
    exact h.1 e he
  rw [List.filter_append, hnil, List.append_nil]

theorem mem_own {events : List Event} {e : Event} {c : Nat} (he : e ∈ events)
    (hown : e.connectionId? = some c) : e ∈ events.filter fun e ↦ e.connectionId? = some c :=
  List.mem_filter.mpr ⟨he, decide_eq_true hown⟩

theorem System.Sound.closes {lossless : Bool} {s : System} (hs : s.Sound lossless) {c : Nat}
    {task : Connection} (htask : s.server.tasks[c]? = some task) (hended : task.phase.ended)
    (hdrained : s.Drained c)
    (hopened : ∃ path query headers, .wsOpen c path query headers ∈ s.received) :
    ∃ code reason, .wsClose c code reason ∈ s.received := by
  have hof := hs.streams c task htask
  rw [hdrained.stream_eq] at hof
  have ⟨path, query, headers, hopen⟩ := hopened
  unfold StreamOf at hof
  cases hphase : task.phase with
  | rejected =>
      rw [hphase] at hof
      have hmem := mem_own hopen rfl
      rw [hof.2] at hmem
      exact absurd hmem List.not_mem_nil
  | finished =>
      rw [hphase] at hof
      have ⟨sent, code, reason, _, hstream⟩ := hof
      have hmem : Event.wsClose c code reason ∈
          s.received.filter fun e ↦ e.connectionId? = some c := by
        rw [hstream]
        exact List.mem_append_right _ List.mem_cons_self
      exact ⟨code, reason, (List.mem_filter.mp hmem).1⟩
  | dropped =>
      rw [hphase] at hof
      exact hof.elim
  | emitOpen | refused | serving | emitBinary | dropBinary | leaving | emitClose =>
      rw [hphase] at hended
      cases hended

theorem System.Sound.absent {lossless : Bool} {s : System} (hs : s.Sound lossless) {c : Nat}
    (habsent : c ∉ s.server.connections) (hdrained : s.Drained c) : c ∉ s.sessions := by
  intro hsession
  have ⟨path, query, headers, hopen⟩ := hs.opened c hsession
  cases htask : s.server.tasks[c]? with
  | none =>
      have hmem := mem_own hopen rfl
      rw [← hdrained.stream_eq, hs.silent c htask] at hmem
      exact absurd hmem List.not_mem_nil
  | some task =>
      have hended : task.phase.ended := by
        cases hphase : task.phase with
        | rejected | finished | dropped => rfl
        | emitClose code reason => exact absurd hphase (hdrained.2 task code reason htask)
        | emitOpen | refused | serving | emitBinary | dropBinary | leaving =>
            exact absurd (hs.table c task htask (by rw [hphase]; rfl)) habsent
      have ⟨code, reason, hclose⟩ := hs.closes htask hended hdrained ⟨path, query, headers, hopen⟩
      exact hs.closed c hsession code reason hclose

/-- In every run in which each `ws_close` finds room and no task is dropped, a connection has one
`ws_open`, its messages in their order and one `ws_close` once it has ended; when the messages find
room as well, none of them is missing. -/
theorem event_stream (lossless : Bool) (actions : List Action)
    (h : Meets System.step (fun s a ↦ s.fits lossless a = true) .start actions) :
    (run System.step .start actions).WellStreamed lossless := by
  have hs : (run System.step .start actions).Sound lossless :=
    h.invariant (System.sound_start lossless) fun s a hs hfits ↦ hs.step a hfits
  exact {
    order := hs.streams
    closes := fun c task htask hended hdrained hopened ↦ hs.closes htask hended hdrained hopened
    absent := fun c habsent hdrained ↦ hs.absent habsent hdrained }

def chat : List Action :=
  [.upgrade "/v1/ws" "" "", .task 1 .proceed, .nextEvent true, .task 1 (.receive (.text "a")),
    .task 1 (.receive (.binary [1])), .task 1 .proceed, .task 1 (.receive .ended), .nextEvent true,
    .task 1 .proceed, .task 1 .proceed, .nextEvent true, .nextEvent true]

theorem event_stream_chat : (run System.step .start chat).WellStreamed true :=
  event_stream true chat (by decide)

/-! ## 2. A full queue -/

theorem run_http (s : System) (request : String) (n : Nat)
    (h : s.server.events.length + n ≤ eventQueueCapacity) :
    run System.step s (List.replicate n (.http request)) =
      { s with server := { s.server with
          events := s.server.events ++ List.replicate n (.http request) } } := by
  induction n generalizing s with
  | zero =>
      show s = _
      rw [List.replicate_zero, List.append_nil]
  | succ n ih =>
      have hroom : s.server.hasRoom := decide_eq_true (by omega)
      have hstep : s.step (.http request) =
          { s with server := { s.server with events := s.server.events ++ [.http request] } } := by
        show { s with server := (s.server.emit (.http request)).2 } = _
        rw [emit_of_room hroom]
      rw [List.replicate_succ, run_cons, hstep, ih]
      · rw [List.append_assoc, List.replicate_succ]
        rfl
      · show (s.server.events ++ [_]).length + n ≤ eventQueueCapacity
        rw [List.length_append, List.length_singleton]
        omega

theorem run_nextEvent (s : System) (request : String) (opened : Bool) (n : Nat)
    (h : s.server.events = List.replicate n (.http request)) :
    run System.step s (List.replicate n (.nextEvent opened)) =
      { server := { s.server with events := [] }
        received := s.received ++ List.replicate n (.http request)
        sessions := s.sessions } := by
  induction n generalizing s with
  | zero =>
      show s = _
      rw [List.replicate_zero, List.append_nil, ← List.replicate_zero, ← h]
  | succ n ih =>
      rw [List.replicate_succ, run_cons, List.replicate_succ]
      have hstep : s.step (.nextEvent opened) =
          { server := { s.server with events := List.replicate n (.http request) }
            received := s.received ++ [.http request]
            sessions := s.sessions } := by
        show s.nextEvent opened = _
        unfold System.nextEvent
        rw [h, List.replicate_succ]
        rfl
      rw [hstep, ih _ rfl]
      show System.mk _ ((s.received ++ [_]) ++ _) _ = _
      rw [List.append_assoc]
      rfl

theorem step_task {s : System} {c : Nat} {task : Connection} (htask : s.server.tasks[c]? = some task)
    (move : Server.Move) :
    s.step (.task c move) = { s with server := s.server.moveTask c task move } := by
  unfold System.step
  dsimp only
  rw [htask]

theorem task_setTask (s : Server) (c : Nat) (task : Connection) :
    (s.setTask c task).tasks[c]? = some task := by
  show (s.tasks.insert c task)[c]? = some task
  rw [OrderedMap.getElem?_insert, if_pos rfl]

/-- A connection that ends while the queue is full leaves the table without a `ws_close`. -/
theorem run_end_full {s : System} {c : Nat} {task : Connection}
    (htask : s.server.tasks[c]? = some task) (hphase : task.phase = .serving)
    (hfull : s.server.hasRoom = false) :
    ∃ tasks : OrderedMap Nat Connection,
      (tasks[c]?.map Connection.phase) = some .finished ∧
      run System.step s [.task c (.receive .ended), .task c .proceed, .task c .proceed] =
        { s with server := { s.server with connections := s.server.connections.erase c, tasks } } := by
  let leaving : Connection := { task with phase := .leaving CloseCode.normal "" }
  let closing : Connection := { task with phase := .emitClose CloseCode.normal "" }
  let finished : Connection := task.ended .finished
  let s₁ : System := { s with server := s.server.setTask c leaving }
  let s₂ : System := { s with server := (s₁.server.removeConnection c).setTask c closing }
  let s₃ : System := { s with server := s₂.server.setTask c finished }
  have h₁ : s.step (.task c (.receive .ended)) = s₁ := by
    rw [step_task htask]
    unfold Server.moveTask
    dsimp only
    rw [if_pos hphase]
    rfl
  have h₂ : s₁.step (.task c .proceed) = s₂ := by
    rw [step_task (task_setTask _ c leaving)]
    rfl
  have h₃ : s₂.step (.task c .proceed) = s₃ := by
    rw [step_task (task_setTask _ c closing)]
    show { s₂ with server := (s₂.server.emit _).2.setTask c finished } = s₃
    have hfull₂ : s₂.server.hasRoom = false := hfull
    rw [emit_of_full hfull₂]
  refine ⟨s₃.server.tasks, ?_, ?_⟩
  · have hlast : s₃.server.tasks[c]? = some finished := task_setTask _ c finished
    rw [hlast]
    rfl
  · rw [run_cons, run_cons, run_cons, run_nil, h₁, h₂, h₃]
    rfl

/-- The peer ends the connection while requests fill the queue; then the application takes them. -/
def endWhileFull : List Action :=
  [.upgrade "/v1/ws" "" "", .task 1 .proceed, .nextEvent true] ++
    List.replicate eventQueueCapacity (.http "GET /") ++
    [.task 1 (.receive .ended), .task 1 .proceed, .task 1 .proceed] ++
    List.replicate eventQueueCapacity (.nextEvent true)

/-- The application drains the queue and still has the session of a connection that is gone. -/
theorem event_stream_fails :
    let s := run System.step .start endWhileFull
    s.server.events = [] ∧ (s.server.tasks[1]?.map Connection.phase) = some .finished ∧
      .wsOpen 1 "/v1/ws" "" "" ∈ s.received ∧ (∀ code reason, .wsClose 1 code reason ∉ s.received) ∧
      1 ∉ s.server.connections ∧ 1 ∈ s.sessions := by
  let opened := run System.step .start [.upgrade "/v1/ws" "" "", .task 1 .proceed, .nextEvent true]
  have hopen : opened.server.events = [] ∧ opened.received = [.wsOpen 1 "/v1/ws" "" ""] ∧
      1 ∈ opened.sessions := by decide
  -- requests fill the queue while the connection is open
  let requests := List.replicate eventQueueCapacity (Event.http "GET /")
  let full : System := { opened with server := { opened.server with events := requests } }
  have hrequests : run System.step opened (List.replicate eventQueueCapacity (.http "GET /")) =
      full := by
    rw [run_http opened "GET /" eventQueueCapacity (by rw [hopen.1]; decide), hopen.1]
    rfl
  have htask : ∃ task, full.server.tasks[1]? = some task ∧ task.phase = .serving := by
    refine ⟨_, rfl, ?_⟩
    decide
  have ⟨task, htask, hphase⟩ := htask
  have hfull : full.server.hasRoom = false := by
    show decide (requests.length < eventQueueCapacity) = false
    rw [List.length_replicate]
    rfl
  -- the task ends and finds no room for its last event
  have ⟨tasks, hfinished, hend⟩ := run_end_full htask hphase hfull
  have hrun := run_nextEvent
    { full with server := { full.server with connections := full.server.connections.erase 1, tasks } }
    "GET /" true eventQueueCapacity rfl
  intro s
  have hs : s = run System.step .start endWhileFull := rfl
  unfold endWhileFull at hs
  rw [run_append, run_append, run_append] at hs
  change s = run System.step (run System.step (run System.step opened _) _) _ at hs
  rw [hrequests, hend, hrun] at hs
  rw [hs]
  refine ⟨rfl, hfinished, ?_, ?_, ?_, hopen.2.2⟩
  · apply List.mem_append_left
    show _ ∈ opened.received
    rw [hopen.2.1]
    exact List.mem_cons_self
  · intro code reason hclose
    cases List.mem_append.mp hclose with
    | inl hin =>
        change _ ∈ opened.received at hin
        rw [hopen.2.1] at hin
        cases List.mem_singleton.mp hin
    | inr hin => cases List.eq_of_mem_replicate hin
  · show 1 ∉ full.server.connections.erase 1
    rw [OrderedMap.mem_erase]
    exact fun h ↦ h.1 rfl

end Stainless.Http
