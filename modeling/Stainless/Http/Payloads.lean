import Stainless.Http.Server
import Stainless.Reasoning.Delimited

/-!
# Binary payloads

A binary message of a peer is stored under a fresh token before its event is queued, and the application
takes it by that token.
-/

open Stainless.Runtime Reasoning

namespace Stainless.Http

/-! ## 1. Payloads read and taken -/

/-- `take_message_bytes` without its removal. -/
def Server.messageBytes (s : Server) (messageId : String) : Except String (List UInt8) :=
  match s.pendingBinaryMessages[messageId]? with
  | some body => .ok body
  | none => .error ("WebSocket binary message `" ++ messageId ++ "` is not pending")

structure Payload where
  connectionId : Nat
  messageId : String
  body : List UInt8
deriving DecidableEq

/-- The payloads that peers have sent, and those that the application has taken. -/
structure PayloadLog where
  read : List Payload
  taken : List (String × List UInt8)

def PayloadLog.empty : PayloadLog := ⟨[], []⟩

def PayloadLog.note (log : PayloadLog) (s : System) : Action → PayloadLog
  | .task c (.receive (.binary body)) =>
      match s.server.tasks[c]? with
      | some task =>
          if task.phase = .serving then
            { log with read := log.read ++ [⟨c, toString s.server.nextBinaryMessageId, body⟩] }
          else log
      | none => log
  | .takeMessageBytes messageId =>
      match s.server.messageBytes messageId with
      | .ok body => { log with taken := log.taken ++ [(messageId, body)] }
      | .error _ => log
  | _ => log

/-- The counter of binary messages does not wrap around. -/
def CountsMessages (s : System) : Action → Prop
  | .task _ (.receive (.binary _)) => s.server.nextBinaryMessageId + 1 < 2 ^ 64
  | _ => True

instance (s : System) : ∀ a, Decidable (CountsMessages s a)
  | .task _ (.receive (.binary _)) => inferInstanceAs (Decidable (_ < _))
  | .task _ (.receive (.text _)) | .task _ (.receive (.ping _)) | .task _ (.receive .pong)
  | .task _ (.receive (.close _)) | .task _ (.receive (.error _)) | .task _ (.receive .ended)
  | .task _ .proceed | .task _ (.obey _) | .task _ .noticeShutdown | .task _ .drop => inferInstanceAs (Decidable True)
  | .upgrade _ _ _ | .http _ | .serverError _ | .nextEvent _ | .send _ _ | .broadcast _ | .takeMessageBytes _
  | .shutdown => inferInstanceAs (Decidable True)

def Event.binary? : Event → Option (Nat × String)
  | .wsBinary c messageId => some (c, messageId)
  | _ => none

/-- The connections and tokens of the `ws_binary` events, received ones first. -/
def System.announced (s : System) : List (Nat × String) :=
  (s.received ++ s.server.events).filterMap Event.binary?

/-- The token that a task has stored and not yet announced. -/
def Phase.messageId? : Phase → Option String
  | .emitBinary messageId | .dropBinary messageId => some messageId
  | _ => none

/-- The payload is there for the application, or it has been taken. -/
def PayloadLog.Delivers (log : PayloadLog) (s : System) (c : Nat) (messageId : String) : Prop :=
  ∃ body, ⟨c, messageId, body⟩ ∈ log.read ∧
    (s.server.pendingBinaryMessages[messageId]? = some body ∨ (messageId, body) ∈ log.taken)

structure PayloadLog.Sound (log : PayloadLog) (s : System) : Prop where
  tokens : ∀ p ∈ log.read, ∃ n, n < s.server.nextBinaryMessageId ∧ p.messageId = toString n
  distinct : (log.read.map Payload.messageId).Nodup
  stored : ∀ messageId body, s.server.pendingBinaryMessages[messageId]? = some body →
    ∃ c, ⟨c, messageId, body⟩ ∈ log.read
  size : s.server.pendingBinaryMessages.size ≤ eventQueueCapacity
  taken : ∀ messageId body, (messageId, body) ∈ log.taken →
    (∃ c, ⟨c, messageId, body⟩ ∈ log.read) ∧ s.server.pendingBinaryMessages[messageId]? = none
  once : (log.taken.map Prod.fst).Nodup
  delivers : ∀ c messageId, (c, messageId) ∈ s.announced → log.Delivers s c messageId
  announced : (s.announced.map Prod.snd).Nodup
  held : ∀ c task messageId, s.server.tasks[c]? = some task → task.phase.messageId? = some messageId →
    (∃ body, ⟨c, messageId, body⟩ ∈ log.read) ∧ messageId ∉ s.announced.map Prod.snd
  waits : ∀ c task messageId, s.server.tasks[c]? = some task → task.phase = .emitBinary messageId →
    log.Delivers s c messageId

/-! ## 2. Steps that see no payload -/

theorem toString_nat_inj {m n : Nat} (h : toString m = toString n) : m = n := by
  have hdigits := congrArg String.toList h
  have htoList (n : Nat) : (toString n).toList = Nat.toDigits 10 n := Nat.toList_repr
  rw [htoList, htoList] at hdigits
  exact decimal_injective hdigits

namespace PayloadLog

variable {log : PayloadLog} {s : System}

/-- A step that touches no payload and no `ws_binary` event; every task that holds a token held it
before. -/
theorem Sound.quiet {s' : System} (hs : log.Sound s)
    (hpending : s'.server.pendingBinaryMessages = s.server.pendingBinaryMessages)
    (hnext : s'.server.nextBinaryMessageId = s.server.nextBinaryMessageId) (hannounced : s'.announced = s.announced)
    (htasks : ∀ (c : Nat) (task' : Connection), s'.server.tasks[c]? = some task' → task'.phase.messageId? ≠ none →
      ∃ task : Connection, s.server.tasks[c]? = some task ∧ task.phase = task'.phase) : log.Sound s' where
  tokens := by rw [hnext]; exact hs.tokens
  distinct := hs.distinct
  stored := by rw [hpending]; exact hs.stored
  size := by rw [hpending]; exact hs.size
  taken := by rw [hpending]; exact hs.taken
  once := hs.once
  delivers := by
    simp only [Delivers]
    rw [hannounced, hpending]
    exact hs.delivers
  announced := by rw [hannounced]; exact hs.announced
  held c task' messageId htask' hheld := by
    obtain ⟨task, htask, hphase⟩ := htasks c task' htask' (by rw [hheld]; exact nofun)
    rw [hannounced]
    exact hs.held c task messageId htask (by rw [hphase]; exact hheld)
  waits c task' messageId htask' hphase' := by
    obtain ⟨task, htask, hphase⟩ := htasks c task' htask' (by rw [hphase']; exact nofun)
    simp only [Delivers]
    rw [hpending]
    exact hs.waits c task messageId htask (by rw [hphase, hphase'])

/-- The same, when the step changes one task to one that holds no new token. -/
theorem Sound.settle {server : Server} (hs : log.Sound s) {c : Nat} {task' : Connection}
    (hheld : ∀ messageId, task'.phase.messageId? = some messageId →
      ∃ task, s.server.tasks[c]? = some task ∧ task.phase = task'.phase)
    (hpending : server.pendingBinaryMessages = s.server.pendingBinaryMessages)
    (hnext : server.nextBinaryMessageId = s.server.nextBinaryMessageId)
    (htasks : server.tasks = s.server.tasks)
    (hannounced : System.announced { s with server } = s.announced) :
    log.Sound { s with server := server.setTask c task' } := by
  refine hs.quiet hpending hnext hannounced fun d t ht hne ↦ ?_
  change (server.tasks.insert c task')[d]? = some t at ht
  rw [OrderedMap.getElem?_insert, htasks] at ht
  by_cases hd : c = d
  · rw [if_pos hd] at ht
    cases ht
    obtain ⟨messageId, hm⟩ := Option.ne_none_iff_exists'.mp hne
    rw [← hd]
    exact hheld messageId hm
  · rw [if_neg hd] at ht
    exact ⟨t, ht, rfl⟩

theorem announced_append (s : System) (server : Server) (event : Event)
    (hevents : server.events = s.server.events ++ [event]) :
    System.announced { s with server } = s.announced ++ event.binary?.toList := by
  rw [System.announced, System.announced]
  dsimp only
  rw [hevents, ← List.append_assoc, List.filterMap_append, List.filterMap_cons, List.filterMap_nil]
  cases event.binary? <;> rfl

/-- An event that is no `ws_binary` event, and a change of one task. -/
theorem Sound.emit (hs : log.Sound s) {event : Event} (hevent : event.binary? = none) {c : Nat}
    {task' : Connection} (hheld : ∀ messageId, task'.phase.messageId? = some messageId →
      ∃ task, s.server.tasks[c]? = some task ∧ task.phase = task'.phase) :
    log.Sound { s with server := (s.server.emit event).2.setTask c task' } := by
  unfold Server.emit
  split
  · refine hs.settle hheld rfl rfl rfl ?_
    rw [announced_append s _ event rfl, hevent]
    exact List.append_nil _
  · exact hs.settle hheld rfl rfl rfl rfl

/-! ## 3. Steps that see one -/

/-- A token belongs to one message. -/
theorem Sound.unique (hs : log.Sound s) {p q : Payload} (hp : p ∈ log.read) (hq : q ∈ log.read)
    (heq : p.messageId = q.messageId) : p = q :=
  List.inj_on_of_nodup_map hs.distinct hp hq heq

/-- A message is read, under a token that no other one has had. -/
theorem Sound.reading (hs : log.Sound s) (c : Nat) (body : List UInt8)
    (hcount : s.server.nextBinaryMessageId + 1 < 2 ^ 64) :
    let messageId := toString s.server.nextBinaryMessageId
    messageId ∉ log.read.map Payload.messageId ∧
      PayloadLog.Sound { log with read := log.read ++ [⟨c, messageId, body⟩] }
        { s with server := { s.server with nextBinaryMessageId := fetchAdd s.server.nextBinaryMessageId } } := by
  have hnext : fetchAdd s.server.nextBinaryMessageId = s.server.nextBinaryMessageId + 1 := Nat.mod_eq_of_lt hcount
  have hfresh : toString s.server.nextBinaryMessageId ∉ log.read.map Payload.messageId := by
    intro hin
    obtain ⟨p, hp, heq⟩ := List.mem_map.mp hin
    obtain ⟨n, hn, hm⟩ := hs.tokens p hp
    rw [hm] at heq
    exact absurd (toString_nat_inj heq) (by omega)
  -- a payload stays where it is
  have hgrow {d : Nat} {messageId : String} (h : log.Delivers s d messageId) :
      PayloadLog.Delivers { log with read := log.read ++ [⟨c, toString s.server.nextBinaryMessageId, body⟩] } s d
        messageId := by
    obtain ⟨body', hin, hwhere⟩ := h
    exact ⟨body', List.mem_append_left _ hin, hwhere⟩
  refine ⟨hfresh, ?_⟩
  constructor
  case tokens =>
    intro p hp
    change ∃ n, n < fetchAdd s.server.nextBinaryMessageId ∧ _
    rw [hnext]
    rcases List.mem_append.mp hp with hp | hp
    · obtain ⟨n, hn, hm⟩ := hs.tokens p hp
      exact ⟨n, by omega, hm⟩
    · rw [List.mem_singleton.mp hp]
      exact ⟨_, Nat.lt_succ_self _, rfl⟩
  case distinct =>
    change (List.map _ (log.read ++ [_])).Nodup
    rw [List.map_append, List.nodup_append]
    refine ⟨hs.distinct, List.nodup_singleton _, fun a ha b hb ↦ ?_⟩
    rw [List.mem_singleton.mp hb]
    rintro rfl
    exact hfresh ha
  case stored =>
    intro messageId body' h
    obtain ⟨d, hd⟩ := hs.stored messageId body' h
    exact ⟨d, List.mem_append_left _ hd⟩
  case size => exact hs.size
  case taken =>
    intro messageId body' h
    obtain ⟨⟨d, hd⟩, hnone⟩ := hs.taken messageId body' h
    exact ⟨⟨d, List.mem_append_left _ hd⟩, hnone⟩
  case once => exact hs.once
  case delivers => exact fun d messageId h ↦ hgrow (hs.delivers d messageId h)
  case announced => exact hs.announced
  case held =>
    intro d task messageId htask hphase
    obtain ⟨⟨body', hin⟩, hnot⟩ := hs.held d task messageId htask hphase
    exact ⟨⟨body', List.mem_append_left _ hin⟩, hnot⟩
  case waits => exact fun d task messageId htask hphase ↦ hgrow (hs.waits d task messageId htask hphase)

/-- `insert` on the table of payloads. -/
def insertPayload (server : Server) (messageId : String) (body : List UInt8) : Server :=
  { server with pendingBinaryMessages := server.pendingBinaryMessages.insert messageId body }

/-- The payload of a message that has just been read is stored. -/
theorem Sound.store (hs : log.Sound s) {c : Nat} {messageId : String} {body : List UInt8} {task' : Connection}
    (hin : ⟨c, messageId, body⟩ ∈ log.read) (hnew : s.server.pendingBinaryMessages[messageId]? = none)
    (htaken : messageId ∉ log.taken.map Prod.fst) (hsilent : messageId ∉ s.announced.map Prod.snd)
    (hroom : s.server.pendingBinaryMessages.size < eventQueueCapacity)
    (hphase : task'.phase = .emitBinary messageId) :
    log.Sound { s with server := (insertPayload s.server messageId body).setTask c task' } := by
  have hlookup (m : String) : (s.server.pendingBinaryMessages.insert messageId body)[m]? =
      if messageId = m then some body else s.server.pendingBinaryMessages[m]? := OrderedMap.getElem?_insert _ _ _ _
  have htasks (d : Nat) : (s.server.tasks.insert c task')[d]? = if c = d then some task' else s.server.tasks[d]? :=
    OrderedMap.getElem?_insert _ _ _ _
  -- the others are under other tokens
  have hkeep {d : Nat} {m : String} (h : log.Delivers s d m) :
      log.Delivers { s with server := (insertPayload s.server messageId body).setTask c task' } d m := by
    obtain ⟨body', hin', hwhere⟩ := h
    refine ⟨body', hin', hwhere.imp_left fun hstored ↦ ?_⟩
    change (s.server.pendingBinaryMessages.insert messageId body)[m]? = _
    rw [hlookup, if_neg, hstored]
    rintro rfl
    rw [hnew] at hstored
    cases hstored
  constructor
  case tokens => exact hs.tokens
  case distinct => exact hs.distinct
  case stored =>
    intro m body' h
    change (s.server.pendingBinaryMessages.insert messageId body)[m]? = _ at h
    rw [hlookup] at h
    split at h
    case isTrue heq =>
      cases h
      exact ⟨c, heq ▸ hin⟩
    case isFalse => exact hs.stored m body' h
  case size =>
    change (s.server.pendingBinaryMessages.insert messageId body).size ≤ _
    have hle := Std.ExtTreeMap.size_insert_le (t := s.server.pendingBinaryMessages) (k := messageId) (v := body)
    omega
  case taken =>
    intro m body' h
    obtain ⟨hread, hnone⟩ := hs.taken m body' h
    refine ⟨hread, ?_⟩
    change (s.server.pendingBinaryMessages.insert messageId body)[m]? = none
    rw [hlookup, if_neg, hnone]
    rintro rfl
    exact htaken (List.mem_map_of_mem h)
  case once => exact hs.once
  case delivers => exact fun d m h ↦ hkeep (hs.delivers d m h)
  case announced => exact hs.announced
  case held =>
    intro d t m ht hm
    change (s.server.tasks.insert c task')[d]? = some t at ht
    rw [htasks] at ht
    split at ht
    case isTrue heq =>
      cases ht
      rw [hphase] at hm
      cases hm
      rw [← heq]
      exact ⟨⟨body, hin⟩, hsilent⟩
    case isFalse => exact hs.held d t m ht hm
  case waits =>
    intro d t m ht hm
    change (s.server.tasks.insert c task')[d]? = some t at ht
    rw [htasks] at ht
    split at ht
    case isTrue heq =>
      cases ht
      rw [hphase] at hm
      cases hm
      rw [← heq]
      refine ⟨body, hin, .inl ?_⟩
      change (s.server.pendingBinaryMessages.insert messageId body)[messageId]? = _
      rw [hlookup, if_pos rfl]
    case isFalse => exact hkeep (hs.waits d t m ht hm)

/-- Two tasks never hold one token. -/
theorem Sound.holder (hs : log.Sound s) {c d : Nat} {task t : Connection} {messageId : String}
    (htask : s.server.tasks[c]? = some task) (hphase : task.phase.messageId? = some messageId)
    (ht : s.server.tasks[d]? = some t) (hm : t.phase.messageId? = some messageId) : d = c := by
  obtain ⟨⟨body, hin⟩, -⟩ := hs.held c task messageId htask hphase
  obtain ⟨⟨body', hin'⟩, -⟩ := hs.held d t messageId ht hm
  exact congrArg Payload.connectionId (hs.unique hin' hin rfl)

/-- A task goes on holding its token. -/
theorem Sound.hold (hs : log.Sound s) {c : Nat} {task task' : Connection} {messageId : String}
    (htask : s.server.tasks[c]? = some task) (hphase : task.phase.messageId? = some messageId)
    (hphase' : task'.phase.messageId? = some messageId) (hwaits : ∀ m, task'.phase ≠ .emitBinary m) :
    log.Sound { s with server := s.server.setTask c task' } := by
  have htasks (d : Nat) : (s.server.tasks.insert c task')[d]? = if c = d then some task' else s.server.tasks[d]? :=
    OrderedMap.getElem?_insert _ _ _ _
  refine { hs with held := fun d t m ht hm ↦ ?_, waits := fun d t m ht hm ↦ ?_ }
  · change (s.server.tasks.insert c task')[d]? = some t at ht
    rw [htasks] at ht
    split at ht
    case isTrue heq =>
      cases ht
      rw [hphase'] at hm
      cases hm
      rw [← heq]
      exact hs.held c task messageId htask hphase
    case isFalse => exact hs.held d t m ht hm
  · change (s.server.tasks.insert c task')[d]? = some t at ht
    rw [htasks] at ht
    split at ht
    case isTrue =>
      cases ht
      exact absurd hm (hwaits m)
    case isFalse => exact hs.waits d t m ht hm

/-- The event of a stored payload is queued. -/
theorem Sound.announce (hs : log.Sound s) {c : Nat} {task task' : Connection} {messageId : String}
    (htask : s.server.tasks[c]? = some task) (hphase : task.phase = .emitBinary messageId)
    (hphase' : task'.phase.messageId? = none) :
    log.Sound { s with server :=
      { s.server with events := s.server.events ++ [Event.wsBinary c messageId] }.setTask c task' } := by
  have hheld : task.phase.messageId? = some messageId := by rw [hphase]; rfl
  obtain ⟨-, hsilent⟩ := hs.held c task messageId htask hheld
  have hannounced : System.announced { s with server :=
      { s.server with events := s.server.events ++ [Event.wsBinary c messageId] }.setTask c task' } =
      s.announced ++ [(c, messageId)] := announced_append s _ (.wsBinary c messageId) rfl
  have htasks (d : Nat) : (s.server.tasks.insert c task')[d]? = if c = d then some task' else s.server.tasks[d]? :=
    OrderedMap.getElem?_insert _ _ _ _
  constructor
  case tokens => exact hs.tokens
  case distinct => exact hs.distinct
  case stored => exact hs.stored
  case size => exact hs.size
  case taken => exact hs.taken
  case once => exact hs.once
  case delivers =>
    intro d m h
    rw [hannounced] at h
    rcases List.mem_append.mp h with h | h
    · exact hs.delivers d m h
    · cases List.mem_singleton.mp h
      exact hs.waits c task messageId htask hphase
  case announced =>
    rw [hannounced, List.map_append, List.nodup_append]
    refine ⟨hs.announced, List.nodup_singleton _, fun a ha b hb ↦ ?_⟩
    rw [List.mem_singleton.mp hb]
    rintro rfl
    exact hsilent ha
  case held =>
    intro d t m ht hm
    change (s.server.tasks.insert c task')[d]? = some t at ht
    rw [htasks] at ht
    split at ht
    case isTrue =>
      cases ht
      rw [hphase'] at hm
      cases hm
    case isFalse hd =>
      obtain ⟨hread, hnot⟩ := hs.held d t m ht hm
      refine ⟨hread, ?_⟩
      rw [hannounced, List.map_append]
      intro hmem
      rcases List.mem_append.mp hmem with hmem | hmem
      · exact hnot hmem
      -- no other task holds the token
      · rw [List.mem_singleton.mp hmem] at hm
        exact hd (hs.holder htask hheld ht hm).symm
  case waits =>
    intro d t m ht hm
    change (s.server.tasks.insert c task')[d]? = some t at ht
    rw [htasks] at ht
    split at ht
    case isTrue =>
      cases ht
      rw [hm] at hphase'
      cases hphase'
    case isFalse => exact hs.waits d t m ht hm

/-- The event found no room: its payload is removed. -/
theorem Sound.drop (hs : log.Sound s) {c : Nat} {task task' : Connection} {messageId : String}
    (htask : s.server.tasks[c]? = some task) (hphase : task.phase.messageId? = some messageId)
    (hphase' : task'.phase.messageId? = none) :
    log.Sound { s with server := (s.server.takeMessageBytes messageId).setTask c task' } := by
  obtain ⟨-, hsilent⟩ := hs.held c task messageId htask hphase
  have hlookup (m : String) : (s.server.pendingBinaryMessages.erase messageId)[m]? =
      if messageId = m then none else s.server.pendingBinaryMessages[m]? := OrderedMap.getElem?_erase _ _ _
  have htasks (d : Nat) : (s.server.tasks.insert c task')[d]? = if c = d then some task' else s.server.tasks[d]? :=
    OrderedMap.getElem?_insert _ _ _ _
  have hkeep {d : Nat} {m : String} (h : log.Delivers s d m) (hm : messageId ≠ m) :
      log.Delivers { s with server := (s.server.takeMessageBytes messageId).setTask c task' } d m := by
    obtain ⟨body, hin, hwhere⟩ := h
    refine ⟨body, hin, hwhere.imp_left fun hstored ↦ ?_⟩
    change (s.server.pendingBinaryMessages.erase messageId)[m]? = _
    rw [hlookup, if_neg hm, hstored]
  constructor
  case tokens => exact hs.tokens
  case distinct => exact hs.distinct
  case stored =>
    intro m body h
    change (s.server.pendingBinaryMessages.erase messageId)[m]? = _ at h
    rw [hlookup] at h
    split at h
    case isTrue => cases h
    case isFalse => exact hs.stored m body h
  case size => exact Std.ExtTreeMap.size_erase_le.trans hs.size
  case taken =>
    intro m body h
    obtain ⟨hread, hnone⟩ := hs.taken m body h
    refine ⟨hread, ?_⟩
    change (s.server.pendingBinaryMessages.erase messageId)[m]? = none
    rw [hlookup, hnone, ite_self]
  case once => exact hs.once
  case delivers =>
    intro d m h
    refine hkeep (hs.delivers d m h) ?_
    -- the removed payload is of a message that no event has named
    rintro rfl
    exact hsilent (List.mem_map_of_mem h)
  case announced => exact hs.announced
  case held =>
    intro d t m ht hm
    change (s.server.tasks.insert c task')[d]? = some t at ht
    rw [htasks] at ht
    split at ht
    case isTrue =>
      cases ht
      rw [hphase'] at hm
      cases hm
    case isFalse => exact hs.held d t m ht hm
  case waits =>
    intro d t m ht hm
    change (s.server.tasks.insert c task')[d]? = some t at ht
    rw [htasks] at ht
    split at ht
    case isTrue =>
      cases ht
      rw [hm] at hphase'
      cases hphase'
    case isFalse hd =>
      refine hkeep (hs.waits d t m ht hm) ?_
      rintro rfl
      exact hd (hs.holder htask hphase ht (by rw [hm]; rfl)).symm

/-- The application takes a payload. -/
theorem Sound.take (hs : log.Sound s) {messageId : String} {body : List UInt8}
    (hpending : s.server.pendingBinaryMessages[messageId]? = some body) :
    PayloadLog.Sound { log with taken := log.taken ++ [(messageId, body)] }
      { s with server := s.server.takeMessageBytes messageId } := by
  have hlookup (m : String) : (s.server.takeMessageBytes messageId).pendingBinaryMessages[m]? =
      if messageId = m then none else s.server.pendingBinaryMessages[m]? := OrderedMap.getElem?_erase _ _ _
  -- what was in the table is among the taken ones now
  have hkeep {d : Nat} {m : String} (h : log.Delivers s d m) :
      PayloadLog.Delivers { log with taken := log.taken ++ [(messageId, body)] }
        { s with server := s.server.takeMessageBytes messageId } d m := by
    obtain ⟨body', hin, hwhere⟩ := h
    refine ⟨body', hin, ?_⟩
    dsimp only
    rw [hlookup]
    rcases hwhere with hstored | htaken
    · by_cases hm : messageId = m
      · subst hm
        rw [hpending] at hstored
        cases hstored
        exact .inr (List.mem_append_right _ List.mem_cons_self)
      · rw [if_neg hm]
        exact .inl hstored
    · exact .inr (List.mem_append_left _ htaken)
  -- a payload that is in the table was not taken before
  have htaken (m : String) (body' : List UInt8) (h : (m, body') ∈ log.taken) : messageId ≠ m := by
    rintro rfl
    rw [(hs.taken messageId body' h).2] at hpending
    cases hpending
  constructor
  case tokens => exact hs.tokens
  case distinct => exact hs.distinct
  case stored =>
    intro m body' h
    dsimp only at h
    rw [hlookup] at h
    split at h
    case isTrue => cases h
    case isFalse => exact hs.stored m body' h
  case size => exact Std.ExtTreeMap.size_erase_le.trans hs.size
  case taken =>
    intro m body' h
    dsimp only
    rw [hlookup]
    rcases List.mem_append.mp h with h | h
    · obtain ⟨hread, hnone⟩ := hs.taken m body' h
      rw [hnone, ite_self]
      exact ⟨hread, rfl⟩
    · cases List.mem_singleton.mp h
      rw [if_pos rfl]
      exact ⟨hs.stored messageId body hpending, rfl⟩
  case once =>
    change (List.map _ (log.taken ++ [_])).Nodup
    rw [List.map_append, List.nodup_append]
    refine ⟨hs.once, List.nodup_singleton _, fun a ha b hb ↦ ?_⟩
    rw [List.mem_singleton.mp hb]
    obtain ⟨p, hp, rfl⟩ := List.mem_map.mp ha
    exact (htaken p.1 p.2 hp).symm
  case delivers => exact fun d m h ↦ hkeep (hs.delivers d m h)
  case announced => exact hs.announced
  case held => exact hs.held
  case waits => exact fun d t m ht hm ↦ hkeep (hs.waits d t m ht hm)

/-! ## 4. Steps -/

theorem Sound.same (hs : log.Sound s) {c : Nat} {task : Connection} (htask : s.server.tasks[c]? = some task)
    {task' : Connection} (hphase : task'.phase = task.phase) :
    log.Sound { s with server := s.server.setTask c task' } :=
  hs.settle (fun _ _ ↦ ⟨task, htask, hphase.symm⟩) rfl rfl rfl rfl

theorem Sound.proceed (hs : log.Sound s) {c : Nat} {task : Connection} (htask : s.server.tasks[c]? = some task) :
    log.Sound { s with server := s.server.proceed c task } := by
  unfold Server.proceed
  cases hphase : task.phase with
  | emitOpen =>
      dsimp only
      have hemit (task' : Connection) (h : task'.phase.messageId? = none) :
          log.Sound { s with
            server := (s.server.emit (.wsOpen c task.path task.query task.headers)).2.setTask c task' } :=
        hs.emit rfl fun m hm ↦ by rw [h] at hm; cases hm
      revert hemit
      generalize s.server.emit (.wsOpen c task.path task.query task.headers) = r
      intro hemit
      obtain ⟨ok, server⟩ := r
      cases ok with
      | true => exact hemit _ rfl
      | false => exact hemit _ rfl
  | emitBinary messageId =>
      dsimp only
      by_cases hroom : s.server.events.length < eventQueueCapacity
      · rw [Server.emit, if_pos hroom]
        exact hs.announce htask hphase rfl
      · -- the token is still held
        rw [Server.emit, if_neg hroom]
        dsimp only
        refine hs.hold htask (by rw [hphase]; rfl) rfl nofun
  | dropBinary messageId => exact hs.drop htask (by rw [hphase]; rfl) rfl
  | refused => exact hs.settle nofun rfl rfl rfl rfl
  | leaving code reason => exact hs.settle nofun rfl rfl rfl rfl
  | emitClose code reason => exact hs.emit rfl nofun
  | rejected => exact hs
  | serving => exact hs
  | finished => exact hs
  | dropped => exact hs

theorem Sound.receive (hs : log.Sound s) {c : Nat} {task : Connection} (htask : s.server.tasks[c]? = some task)
    (hphase : task.phase = .serving) (incoming : Incoming) (hcount : CountsMessages s (.task c (.receive incoming))) :
    (log.note s (.task c (.receive incoming))).Sound { s with server := s.server.receive c task incoming } := by
  cases incoming with
  | text text =>
      change log.Sound _
      unfold Server.receive
      dsimp only
      have hemit (task' : Connection) (h : task'.phase.messageId? = none) :
          log.Sound { s with server := (s.server.emit (.wsMessage c text)).2.setTask c task' } :=
        hs.emit rfl fun m hm ↦ by rw [h] at hm; cases hm
      revert hemit
      generalize s.server.emit (.wsMessage c text) = r
      intro hemit
      obtain ⟨ok, server⟩ := r
      cases ok with
      | true => exact hemit _ (by rw [hphase]; rfl)
      | false => exact hemit _ rfl
  | binary body =>
      have hnote : log.note s (.task c (.receive (.binary body))) =
          { log with read := log.read ++ [⟨c, toString s.server.nextBinaryMessageId, body⟩] } := by
        unfold note
        dsimp only
        rw [htask]
        dsimp only
        rw [if_pos hphase]
      obtain ⟨hfresh, hread⟩ := hs.reading c body hcount
      rw [hnote]
      unfold Server.receive
      dsimp only
      split
      -- the token is counted also where the table is full and the message is refused
      case isTrue => exact hread.settle nofun rfl rfl rfl rfl
      case isFalse hroom =>
        refine hread.store (List.mem_append_right _ List.mem_cons_self) ?_ ?_ ?_ (Nat.lt_of_not_le hroom) rfl
        · -- nothing of an earlier message is under the fresh token
          change s.server.pendingBinaryMessages[_]? = none
          cases hstored : s.server.pendingBinaryMessages[toString s.server.nextBinaryMessageId]? with
          | none => rfl
          | some body' =>
              obtain ⟨d, hd⟩ := hs.stored _ body' hstored
              exact absurd (List.mem_map_of_mem (f := Payload.messageId) hd) hfresh
        · intro htaken
          obtain ⟨p, hp, hm⟩ := List.mem_map.mp htaken
          obtain ⟨d, hd⟩ := (hs.taken p.1 p.2 hp).1
          rw [hm] at hd
          exact hfresh (List.mem_map_of_mem (f := Payload.messageId) hd)
        · intro hsilent
          obtain ⟨p, hp, hm⟩ := List.mem_map.mp hsilent
          obtain ⟨body', hin, -⟩ := hs.delivers p.1 p.2 hp
          rw [hm] at hin
          exact hfresh (List.mem_map_of_mem (f := Payload.messageId) hin)
  | ping ponged =>
      cases ponged with
      | true => exact hs
      | false => exact hs.settle nofun rfl rfl rfl rfl
  | pong => exact hs
  | close frame =>
      cases frame with
      | some frame => exact hs.settle nofun rfl rfl rfl rfl
      | none => exact hs.settle nofun rfl rfl rfl rfl
  | error message => exact hs.settle nofun rfl rfl rfl rfl
  | ended => exact hs.settle nofun rfl rfl rfl rfl

theorem Sound.obey (hs : log.Sound s) {c : Nat} {task : Connection} (hphase : task.phase = .serving) (sent : Bool) :
    log.Sound { s with server := s.server.obey c task sent } := by
  have hserving {m : String} (hm : task.phase.messageId? = some m) : False := by
    rw [hphase] at hm
    cases hm
  unfold Server.obey
  split
  case h_1 =>
    cases sent with
    | true => exact hs.settle (fun m hm ↦ (hserving hm).elim) rfl rfl rfl rfl
    | false => exact hs.settle nofun rfl rfl rfl rfl
  case h_2 =>
    cases sent with
    | true => exact hs.settle (fun m hm ↦ (hserving hm).elim) rfl rfl rfl rfl
    | false => exact hs.settle nofun rfl rfl rfl rfl
  case h_3 => exact hs.settle nofun rfl rfl rfl rfl
  case h_4 =>
    split
    · exact hs
    · exact hs.settle nofun rfl rfl rfl rfl

theorem Sound.moveTask (hs : log.Sound s) {c : Nat} {task : Connection} (htask : s.server.tasks[c]? = some task)
    (move : Server.Move) (hcount : CountsMessages s (.task c move)) :
    (log.note s (.task c move)).Sound { s with server := s.server.moveTask c task move } := by
  cases move with
  | proceed => exact hs.proceed htask
  | receive incoming =>
      unfold Server.moveTask
      dsimp only
      by_cases hphase : task.phase = .serving
      · rw [if_pos hphase]
        exact hs.receive htask hphase incoming hcount
      · rw [if_neg hphase]
        -- outside of its loop the task reads no message
        have hnote : log.note s (.task c (.receive incoming)) = log := by
          cases incoming with
          | binary body =>
              unfold note
              dsimp only
              rw [htask]
              dsimp only
              rw [if_neg hphase]
          | _ => rfl
        rw [hnote]
        exact hs
  | obey sent =>
      change log.Sound _
      unfold Server.moveTask
      dsimp only
      split
      case isTrue hphase => exact hs.obey hphase sent
      case isFalse => exact hs
  | noticeShutdown =>
      change log.Sound _
      unfold Server.moveTask Server.noticeShutdown
      dsimp only
      split
      case isFalse => exact hs
      case isTrue =>
        split
        · exact hs.settle nofun rfl rfl rfl rfl
        · exact hs
  | drop =>
      change log.Sound _
      unfold Server.moveTask
      dsimp only
      split
      · exact hs.settle nofun rfl rfl rfl rfl
      · exact hs

theorem Sound.emitted (hs : log.Sound s) {event : Event} (hevent : event.binary? = none) :
    log.Sound { s with server := (s.server.emit event).2 } := by
  unfold Server.emit
  split
  · refine hs.quiet rfl rfl ?_ fun c task' htask' _ ↦ ⟨task', htask', rfl⟩
    rw [announced_append s _ event rfl, hevent]
    exact List.append_nil _
  · exact hs

theorem Sound.sent (hs : log.Sound s) (c : Nat) (command : WsCommand) :
    log.Sound { s with server := s.server.send c command } := by
  unfold Server.send
  split
  case isFalse => exact hs
  case isTrue =>
    split
    case h_2 => exact hs
    case h_1 task htask =>
      split
      · exact hs.same htask rfl
      · exact hs

theorem Sound.broadcast (hs : log.Sound s) (command : WsCommand) :
    log.Sound { s with server := s.server.broadcast command } := by
  unfold Server.broadcast
  generalize s.server.connections.keys = keys
  induction keys generalizing s with
  | nil => exact hs
  | cons c keys ih => exact ih (hs.sent c command)

theorem Sound.takeMessageBytes (hs : log.Sound s) (messageId : String) :
    (log.note s (.takeMessageBytes messageId)).Sound { s with server := s.server.takeMessageBytes messageId } := by
  cases hpending : s.server.pendingBinaryMessages[messageId]? with
  | some body =>
      have hnote : log.note s (.takeMessageBytes messageId) = { log with taken := log.taken ++ [(messageId, body)] } := by
        rw [note, Server.messageBytes, hpending]
      rw [hnote]
      exact hs.take hpending
  | none =>
      have hnote : log.note s (.takeMessageBytes messageId) = log := by
        rw [note, Server.messageBytes, hpending]
      rw [hnote]
      refine hs.quiet ?_ rfl rfl fun c task' htask' _ ↦ ⟨task', htask', rfl⟩
      apply Std.ExtTreeMap.ext_getElem?
      intro m
      refine (OrderedMap.getElem?_erase _ messageId m).trans ?_
      by_cases hm : messageId = m
      · rw [if_pos hm, ← hm, hpending]
      · rw [if_neg hm]

theorem Sound.step (hs : log.Sound s) {a : Action} (ha : CountsMessages s a) : (log.note s a).Sound (s.step a) := by
  cases a with
  | upgrade path query headers =>
      change log.Sound _
      refine hs.quiet rfl rfl rfl fun c task' htask' hne ↦ ?_
      change (s.server.tasks.insert s.server.nextConnectionId _)[c]? = some task' at htask'
      rw [OrderedMap.getElem?_insert] at htask'
      split at htask'
      case isTrue =>
        cases htask'
        -- the new task holds no token
        exact absurd rfl hne
      case isFalse => exact ⟨task', htask', rfl⟩
  | task c move =>
      rw [System.step]
      cases htask : s.server.tasks[c]? with
      | some task => exact hs.moveTask htask move ha
      | none =>
          have hnote : log.note s (.task c move) = log := by
            cases move with
            | receive incoming =>
                cases incoming with
                | binary body => rw [note, htask]
                | _ => rfl
            | _ => rfl
          rw [hnote]
          exact hs
  | http request => exact hs.emitted rfl
  | serverError message => exact hs.emitted rfl
  | nextEvent opened =>
      change log.Sound _
      rw [System.step, System.nextEvent]
      split
      case h_1 => exact hs
      case h_2 event events hevents =>
        refine hs.quiet rfl rfl ?_ fun c task' htask' _ ↦ ⟨task', htask', rfl⟩
        rw [System.announced, System.announced, hevents]
        dsimp only
        rw [List.append_assoc]
        rfl
  | send c command => exact hs.sent c command
  | broadcast command => exact hs.broadcast command
  | takeMessageBytes messageId => exact hs.takeMessageBytes messageId
  | shutdown => exact hs.quiet rfl rfl rfl fun c task' htask' _ ↦ ⟨task', htask', rfl⟩

end PayloadLog

/-! ## 5. Runs -/

theorem sound_start : PayloadLog.Sound .empty .start where
  tokens := nofun
  distinct := List.nodup_nil
  stored messageId body h := by simp [System.start, Server.bind] at h
  size := Nat.zero_le _
  taken := nofun
  once := List.nodup_nil
  delivers := nofun
  announced := List.nodup_nil
  held c task messageId h := by simp [System.start, Server.bind] at h
  waits c task messageId h := by simp [System.start, Server.bind] at h

/-- The payloads of a run. -/
def payloadLog (actions : List Action) : PayloadLog :=
  (run (watch System.step PayloadLog.note) (.start, .empty) actions).2

theorem payloadLog_sound {actions : List Action} (h : Meets System.step CountsMessages .start actions) :
    (payloadLog actions).Sound (run System.step .start actions) := by
  rw [← run_watch_fst PayloadLog.note .start .empty actions]
  exact (h.watch PayloadLog.note .empty).invariant (I := fun p ↦ p.2.Sound p.1) sound_start
    fun p a hs ha ↦ hs.step ha

/-- Over every interleaving, the token of a `ws_binary` event is that of one message, whose very bytes
the application can take by it, unless it has taken them; no payload is taken twice or under the token
of another one, no event comes twice, and at most as many payloads are held as the queue has places. -/
theorem payloads_exact (actions : List Action) (h : Meets System.step CountsMessages .start actions) :
    let s := run System.step .start actions
    let log := payloadLog actions
    (log.read.map Payload.messageId).Nodup ∧ (log.taken.map Prod.fst).Nodup ∧
      ((s.received.filterMap Event.binary?).map Prod.snd).Nodup ∧
      (∀ c messageId, Event.wsBinary c messageId ∈ s.received → ∃ body, ⟨c, messageId, body⟩ ∈ log.read ∧
        (s.server.messageBytes messageId = .ok body ∨ (messageId, body) ∈ log.taken)) ∧
      (∀ messageId body, (messageId, body) ∈ log.taken →
        (∃ c, ⟨c, messageId, body⟩ ∈ log.read) ∧ ∀ body', s.server.messageBytes messageId ≠ .ok body') ∧
      s.server.pendingBinaryMessages.size ≤ eventQueueCapacity := by
  have hs := payloadLog_sound h
  generalize payloadLog actions = log at *
  generalize run System.step .start actions = s at *
  have hbytes (messageId : String) (body : List UInt8) : s.server.messageBytes messageId = .ok body ↔
      s.server.pendingBinaryMessages[messageId]? = some body := by
    rw [Server.messageBytes]
    cases s.server.pendingBinaryMessages[messageId]? <;> simp
  refine ⟨hs.distinct, hs.once, ?_, fun c messageId hin ↦ ?_, fun messageId body hin ↦ ?_, hs.size⟩
  · have hannounced := hs.announced
    rw [System.announced, List.filterMap_append, List.map_append] at hannounced
    exact (List.nodup_append.mp hannounced).1
  · obtain ⟨body, hread, hwhere⟩ := hs.delivers c messageId
      (List.mem_filterMap.mpr ⟨_, List.mem_append_left _ hin, rfl⟩)
    exact ⟨body, hread, hwhere.imp_left (hbytes messageId body).mpr⟩
  · obtain ⟨hread, hnone⟩ := hs.taken messageId body hin
    refine ⟨hread, fun body' hok ↦ ?_⟩
    rw [hbytes, hnone] at hok
    cases hok

/-- Two peers send payloads, one of which is taken twice. -/
private def uploads : List Action :=
  [.upgrade "/v1/ws" "" "", .upgrade "/v1/ws" "" "", .task 1 .proceed, .task 2 .proceed,
    .task 1 (.receive (.binary [7])), .task 2 (.receive (.binary [8, 9])), .task 2 .proceed, .task 1 .proceed,
    .nextEvent true, .nextEvent true, .nextEvent true, .takeMessageBytes "2", .takeMessageBytes "2", .nextEvent true]

theorem payloads_exact_uploads :
    let s := run System.step .start uploads
    let log := payloadLog uploads
    (log.read.map Payload.messageId).Nodup ∧ (log.taken.map Prod.fst).Nodup ∧
      ((s.received.filterMap Event.binary?).map Prod.snd).Nodup ∧
      (∀ c messageId, Event.wsBinary c messageId ∈ s.received → ∃ body, ⟨c, messageId, body⟩ ∈ log.read ∧
        (s.server.messageBytes messageId = .ok body ∨ (messageId, body) ∈ log.taken)) ∧
      (∀ messageId body, (messageId, body) ∈ log.taken →
        (∃ c, ⟨c, messageId, body⟩ ∈ log.read) ∧ ∀ body', s.server.messageBytes messageId ≠ .ok body') ∧
      s.server.pendingBinaryMessages.size ≤ eventQueueCapacity :=
  payloads_exact uploads (by decide +kernel)

end Stainless.Http
