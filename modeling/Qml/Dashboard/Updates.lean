import Qml.Dashboard.Service
import Qml.Lib.Broadcast
import Qml.Lib.Pool
import Qml.Lib.Run

namespace Qml
open Lib

structure ServerStatistics where
  serverCount : UInt32
  workerCount : UInt32
  queues : List QueueStatistics
  jobs : JobStatistics
  recentJobs : List JobDetails

/-- The storage as the three queries of the server statistics find it. -/
structure Views where
  jobs : MonitoringApi
  queues : MonitoringApi
  recent : MonitoringApi

def DashboardService.getServerStatistics (views : Views) :
    Option (Except QmlError ServerStatistics) :=
  ExceptT.run do
    let jobStats ← ExceptT.mk (getJobStatistics views.jobs)
    let queueStats ← ExceptT.mk (getQueueStatistics views.queues)
    let recentJobs ← ExceptT.mk (getRecentJobs views.recent (some 20))
    return ⟨1, 1, queueStats, jobStats, recentJobs⟩

inductive DashboardMessage
  | statisticsUpdate (data : ServerStatistics)
  | jobUpdate (jobId state updatedAt : String)
  | connectionInfo (clientId : String) (connectedClients : Nat)
  | error (message : String)

/-- An entry of the connection table; every one has a clone of the manager's sender. -/
structure WebSocketConnection where
  id : String

structure WebSocketManager where
  connections : Dict String WebSocketConnection
  broadcastSender : Broadcast DashboardMessage

/-- How far the handler of a socket is. One whose task was dropped leaves its entry behind. -/
inductive SocketPhase
  | subscribed
  | connected
  | introduced
  | serving
  | leaving
  | gone
  | dropped (listed : Bool)
  deriving DecidableEq

namespace SocketPhase

/-- The handler still has its receiver. -/
def listening : SocketPhase → Bool
  | .gone | .dropped _ => false
  | _ => true

/-- The handler has not left its loop. -/
def reading : SocketPhase → Bool
  | .subscribed | .connected | .introduced | .serving => true
  | _ => false

/-- The connection table has the entry of the handler. -/
def listed : SocketPhase → Bool
  | .connected | .introduced | .serving | .leaving | .dropped true => true
  | _ => false

end SocketPhase

/-- A socket, with its receiver and the texts that were sent to the client. -/
structure Socket where
  clientId : String
  place : Nat
  phase : SocketPhase
  delivered : List String

/-- What the handler of a socket does next; `sent` says whether a send to the client succeeds. -/
inductive SocketEvent
  | insert
  | introduce (sent : Bool)
  | present (views : Views) (sent : Bool)
  | recv (sent : Bool)
  | hangUp
  | remove
  | drop

/-- A message goes to the client as its JSON, if it has one. -/
def Socket.deliver (toJson : DashboardMessage → Option String) (socket : Socket)
    (msg : DashboardMessage) (sent : Bool) : Socket :=
  match toJson msg with
  | some text => if sent then { socket with delivered := socket.delivered ++ [text] } else socket
  | none => socket

section
variable {toJson : DashboardMessage → Option String} {socket : Socket} {msg : DashboardMessage}
  {sent : Bool}

@[simp] theorem Socket.deliver_clientId :
    (socket.deliver toJson msg sent).clientId = socket.clientId := by
  unfold Socket.deliver
  split
  · split <;> rfl
  · rfl

@[simp] theorem Socket.deliver_place :
    (socket.deliver toJson msg sent).place = socket.place := by
  unfold Socket.deliver
  split
  · split <;> rfl
  · rfl

theorem Socket.delivered_deliver : (socket.deliver toJson msg sent).delivered =
    socket.delivered ++ (if sent then [msg] else []).filterMap toJson := by
  unfold Socket.deliver
  cases sent with
  | true => cases hjson : toJson msg <;> simp [hjson]
  | false => cases toJson msg <;> simp

end

namespace WebSocketManager

/-- The sender rounds the capacity of 1000 up. -/
def new (capacity : Nat) : WebSocketManager := ⟨.empty, .empty capacity⟩

def connectedClientsCount (manager : WebSocketManager) : Nat := manager.connections.size

/-- One step of `handle_socket` after the subscription. Texts from the client change nothing. -/
def handleSocket (toJson : DashboardMessage → Option String) (manager : WebSocketManager)
    (socket : Socket) (e : SocketEvent) : Option (WebSocketManager × Socket) :=
  match socket.phase, e with
  | .subscribed, .insert =>
    some ({ manager with
      connections := manager.connections.insert socket.clientId ⟨socket.clientId⟩ },
      { socket with phase := .connected })
  | .connected, .introduce sent =>
    let msg := .connectionInfo socket.clientId manager.connections.size
    some (manager, { socket.deliver toJson msg sent with phase := .introduced })
  | .introduced, .present views sent =>
    match DashboardService.getServerStatistics views with
    | some (.ok data) =>
      some (manager, { socket.deliver toJson (.statisticsUpdate data) sent with phase := .serving })
    | some (.error _) => some (manager, { socket with phase := .serving })
    | none => some (manager, { socket with phase := .dropped true })
  | .serving, .recv sent =>
    match manager.broadcastSender.recv socket.place with
    | .value msg =>
      -- only a failed send ends the loop, a message without JSON is passed over
      let failed := (toJson msg).isSome && !sent
      some (manager, { socket.deliver toJson msg sent with
        place := socket.place + 1, phase := if failed then .leaving else .serving })
    | .lagged _ => some (manager, { socket with phase := .leaving })
    | .empty => none
  | .serving, .hangUp => some (manager, { socket with phase := .leaving })
  | .leaving, .remove =>
    some ({ manager with connections := manager.connections.erase socket.clientId },
      { socket with phase := .gone })
  | phase, .drop =>
    if phase.listening then some (manager, { socket with phase := .dropped phase.listed }) else none
  | _, _ => none

variable {toJson : DashboardMessage → Option String} {manager manager' : WebSocketManager}
  {socket socket' : Socket} {e : SocketEvent}

/-- What one step of a handler does. -/
inductive Handles (toJson : DashboardMessage → Option String) (manager : WebSocketManager)
    (socket : Socket) : SocketEvent → WebSocketManager → Socket → Prop
  | inserted (hphase : socket.phase = .subscribed) :
      Handles toJson manager socket .insert
        { manager with
          connections := manager.connections.insert socket.clientId ⟨socket.clientId⟩ }
        { socket with phase := .connected }
  | introduced {sent : Bool} (hphase : socket.phase = .connected) :
      Handles toJson manager socket (.introduce sent) manager
        { socket.deliver toJson (.connectionInfo socket.clientId manager.connections.size) sent with
          phase := .introduced }
  | presented {views : Views} {sent : Bool} {data : ServerStatistics}
      (hphase : socket.phase = .introduced) :
      Handles toJson manager socket (.present views sent) manager
        { socket.deliver toJson (.statisticsUpdate data) sent with phase := .serving }
  | unpresented {views : Views} {sent : Bool} (hphase : socket.phase = .introduced) :
      Handles toJson manager socket (.present views sent) manager { socket with phase := .serving }
  | panicked {views : Views} {sent : Bool} (hphase : socket.phase = .introduced) :
      Handles toJson manager socket (.present views sent) manager
        { socket with phase := .dropped true }
  | received {sent : Bool} {msg : DashboardMessage} (hphase : socket.phase = .serving)
      (hrecv : manager.broadcastSender.recv socket.place = .value msg) :
      Handles toJson manager socket (.recv sent) manager
        { socket.deliver toJson msg sent with
          place := socket.place + 1
          phase := if (toJson msg).isSome && !sent then .leaving else .serving }
  | cutOff {sent : Bool} {missed : Nat} (hphase : socket.phase = .serving)
      (hrecv : manager.broadcastSender.recv socket.place = .lagged missed) :
      Handles toJson manager socket (.recv sent) manager { socket with phase := .leaving }
  | hungUp (hphase : socket.phase = .serving) :
      Handles toJson manager socket .hangUp manager { socket with phase := .leaving }
  | removed (hphase : socket.phase = .leaving) :
      Handles toJson manager socket .remove
        { manager with connections := manager.connections.erase socket.clientId }
        { socket with phase := .gone }
  | dropped (hlistening : socket.phase.listening = true) :
      Handles toJson manager socket .drop manager
        { socket with phase := .dropped socket.phase.listed }

theorem handleSocket_handles
    (h : manager.handleSocket toJson socket e = some (manager', socket')) :
    Handles toJson manager socket e manager' socket' := by
  unfold handleSocket at h
  split at h
  · cases h
    exact .inserted ‹_›
  · cases h
    exact .introduced ‹_›
  · split at h <;> cases h
    · exact .presented ‹_›
    · exact .unpresented ‹_›
    · exact .panicked ‹_›
  · split at h <;> cases h
    · exact .received ‹_› ‹_›
    · exact .cutOff ‹_› ‹_›
  · cases h
    exact .hungUp ‹_›
  · cases h
    exact .removed ‹_›
  · split at h <;> cases h
    exact .dropped ‹_›
  · cases h

theorem Handles.sender (h : Handles toJson manager socket e manager' socket') :
    manager'.broadcastSender = manager.broadcastSender := by
  cases h <;> rfl

/-- The table changes with the one entry of the handler, or not at all. -/
theorem Handles.table (h : Handles toJson manager socket e manager' socket') :
    manager'.connections = manager.connections.insert socket.clientId ⟨socket.clientId⟩ ∧
        socket.phase.listed = false ∧ socket'.phase.listed = true ∨
      manager'.connections = manager.connections.erase socket.clientId ∧
        socket'.phase.listed = false ∨
      manager'.connections = manager.connections ∧
        socket'.phase.listed = socket.phase.listed := by
  cases h with
  | inserted hphase => exact .inl ⟨rfl, by rw [hphase]; rfl, rfl⟩
  | removed => exact .inr (.inl ⟨rfl, rfl⟩)
  | introduced hphase | presented hphase | unpresented hphase | panicked hphase | cutOff hphase
  | hungUp hphase => exact .inr (.inr ⟨rfl, by rw [hphase]; rfl⟩)
  | received hphase =>
    refine .inr (.inr ⟨rfl, ?_⟩)
    rw [hphase]
    split <;> rfl
  | dropped => exact .inr (.inr ⟨rfl, by cases socket.phase.listed <;> rfl⟩)

theorem Handles.clientId (h : Handles toJson manager socket e manager' socket') :
    socket'.clientId = socket.clientId := by
  cases h <;> first | rfl | exact Socket.deliver_clientId

end WebSocketManager

/-- A manager, and the sockets that it handles. -/
structure LiveSite where
  manager : WebSocketManager
  sockets : List Socket

namespace LiveSite

def idle (capacity : Nat) : LiveSite := ⟨.new capacity, []⟩

inductive Event
  | connect (clientId : String)
  | socket (i : Nat) (e : SocketEvent)
  | broadcastStatisticsUpdate (views : Views)
  | broadcastJobUpdate (jobId state updatedAt : String)

/-- The message that a broadcast, or a round of the periodic updates, is about. -/
def Event.message : Event → Option DashboardMessage
  | .broadcastStatisticsUpdate views =>
    match DashboardService.getServerStatistics views with
    | some (.ok data) => some (.statisticsUpdate data)
    | _ => none
  | .broadcastJobUpdate jobId state updatedAt => some (.jobUpdate jobId state updatedAt)
  | _ => none

/-- Without a receiver the sender takes no message. -/
def accepted (s : LiveSite) (e : Event) : Option DashboardMessage :=
  if s.sockets.any fun socket => socket.phase.listening then e.message else none

/-- A message that the sender takes. -/
def publish (s : LiveSite) : Option DashboardMessage → LiveSite
  | some msg => { s with
      manager.broadcastSender := s.manager.broadcastSender.send msg }
  | none => s

def next (toJson : DashboardMessage → Option String) (s : LiveSite) : Event → Option LiveSite
  | .connect clientId =>
    some { s with sockets :=
      s.sockets ++ [⟨clientId, s.manager.broadcastSender.tail, .subscribed, []⟩] }
  | .socket i e => do
    let socket ← s.sockets[i]?
    let (manager, socket) ← s.manager.handleSocket toJson socket e
    return ⟨manager, s.sockets.set i socket⟩
  | e => some (s.publish (s.accepted e))

abbrev Next (toJson : DashboardMessage → Option String) (s : LiveSite) (e : Event)
    (t : LiveSite) : Prop :=
  s.next toJson e = some t

/-- The messages that the sender takes over a run. -/
def sentIn (tr : List (Step LiveSite Event)) : List DashboardMessage :=
  tr.filterMap fun x => x.before.accepted x.label

variable {toJson : DashboardMessage → Option String} {s t : LiveSite}
  {tr pre post : List (Step LiveSite Event)} {x : Step LiveSite Event} {e : Event}
  {socket socket' : Socket} {manager : WebSocketManager} {capacity i n start : Nat}
  {sent more greeting : List DashboardMessage}

theorem sentIn_snoc : sentIn (tr ++ [x]) = sentIn tr ++ (x.before.accepted x.label).toList := by
  unfold sentIn
  rw [List.filterMap_append]
  cases h : x.before.accepted x.label <;> simp [h]

theorem accepted_of_message (h : e.message = none) : s.accepted e = none := by
  unfold accepted
  split
  · exact h
  · rfl

theorem sentIn_cut {clientId : String} (h : x.label = .connect clientId) :
    sentIn (pre ++ x :: post) = sentIn pre ++ sentIn post := by
  have hnone : x.before.accepted x.label = none := accepted_of_message (by rw [h]; rfl)
  simp only [sentIn, List.filterMap_append, List.filterMap_cons, hnone]

/-- What one event does. -/
inductive Moves (toJson : DashboardMessage → Option String) (s : LiveSite) : Event → LiveSite → Prop
  | connected {clientId : String} :
      Moves toJson s (.connect clientId)
        { s with sockets :=
          s.sockets ++ [⟨clientId, s.manager.broadcastSender.tail, .subscribed, []⟩] }
  | handled {i : Nat} {e : SocketEvent} {socket socket' : Socket} {manager : WebSocketManager}
      (hsocket : s.sockets[i]? = some socket)
      (hhandles : WebSocketManager.Handles toJson s.manager socket e manager socket') :
      Moves toJson s (.socket i e) ⟨manager, s.sockets.set i socket'⟩
  | statistics {views : Views} :
      Moves toJson s (.broadcastStatisticsUpdate views)
        (s.publish (s.accepted (.broadcastStatisticsUpdate views)))
  | job {jobId state updatedAt : String} :
      Moves toJson s (.broadcastJobUpdate jobId state updatedAt)
        (s.publish (s.accepted (.broadcastJobUpdate jobId state updatedAt)))

theorem next_moves (h : Next toJson s e t) : Moves toJson s e t := by
  cases e with
  | connect clientId =>
    cases h
    exact .connected
  | socket i e =>
    obtain ⟨socket, hsocket, h⟩ := Option.bind_eq_some_iff.mp h
    obtain ⟨⟨manager, socket'⟩, hhandle, h⟩ := Option.bind_eq_some_iff.mp h
    cases h
    exact .handled hsocket (WebSocketManager.handleSocket_handles hhandle)
  | broadcastStatisticsUpdate =>
    cases h
    exact .statistics
  | broadcastJobUpdate =>
    cases h
    exact .job

/-- What a client is sent before the first broadcast, where the sends succeed. -/
def Greeting (clientId : String) (greeting : List DashboardMessage) : Prop :=
  ∃ (clients : Nat) (stats : Option ServerStatistics),
    greeting.Sublist (.connectionInfo clientId clients :: (stats.map .statisticsUpdate).toList)

/-- How much of the greeting a handler has sent, and that no broadcast goes before it. -/
def Greets (clientId : String) : SocketPhase → List DashboardMessage → Nat → Prop
  | .subscribed, greeting, n | .connected, greeting, n => greeting = [] ∧ n = 0
  | .introduced, greeting, n =>
    (∃ clients, greeting.Sublist [.connectionInfo clientId clients]) ∧ n = 0
  | _, greeting, _ => Greeting clientId greeting

theorem Greets.weaken {clientId : String} {phase : SocketPhase}
    (h : Greets clientId phase greeting n) : Greeting clientId greeting := by
  cases phase with
  | subscribed | connected =>
    obtain ⟨rfl, -⟩ := h
    exact ⟨0, none, List.nil_sublist _⟩
  | introduced =>
    obtain ⟨⟨clients, hsub⟩, -⟩ := h
    exact ⟨clients, none, hsub⟩
  | serving | leaving | gone | dropped => exact h

/-- After a greeting the client was sent the first `n` messages since its receiver started. -/
structure Kept (toJson : DashboardMessage → Option String) (start : Nat)
    (sent : List DashboardMessage) (socket : Socket) (greeting : List DashboardMessage)
    (n : Nat) : Prop where
  greets : Greets socket.clientId socket.phase greeting n
  within : n ≤ sent.length
  delivered : socket.delivered = (greeting ++ sent.take n).filterMap toJson
  place : socket.phase.reading = true → socket.place = start + n

theorem Kept.sends (h : Kept toJson start sent socket greeting n) :
    Kept toJson start (sent ++ more) socket greeting n where
  greets := h.greets
  within := h.within.trans (by simp)
  delivered := by rw [List.take_append_of_le_length h.within, h.delivered]
  place := h.place

/-- A handler that only changes its phase, without going back to its start. -/
theorem Kept.phase {phase : SocketPhase} (h : Kept toJson start sent socket greeting n)
    (hgreets : Greeting socket.clientId greeting → Greets socket.clientId phase greeting n)
    (hreading : phase.reading = true → socket.phase.reading = true) :
    Kept toJson start sent { socket with phase := phase } greeting n :=
  ⟨hgreets h.greets.weaken, h.within, h.delivered, fun hphase => h.place (hreading hphase)⟩

/-- One send of the greeting. -/
theorem Kept.greet {phase : SocketPhase} {msg : DashboardMessage} {ok : Bool}
    (h : Kept toJson start sent socket greeting 0)
    (hgreets : Greets socket.clientId phase (greeting ++ if ok then [msg] else []) 0)
    (hreading : socket.phase.reading = true) :
    Kept toJson start sent { socket.deliver toJson msg ok with phase := phase }
      (greeting ++ if ok then [msg] else []) 0 where
  greets := by rwa [Socket.deliver_clientId]
  within := h.within
  delivered := by
    change (socket.deliver toJson msg ok).delivered = _
    rw [Socket.delivered_deliver, h.delivered]
    simp
  place _ := Socket.deliver_place.trans (h.place hreading)

/-- The loop takes one message and hands it on. -/
theorem Kept.received {msg : DashboardMessage} {ok : Bool}
    (h : Kept toJson start sent socket greeting n) (hserving : socket.phase = .serving)
    (hmsg : sent[n]? = some msg) :
    ∃ n', Kept toJson start sent
      { socket.deliver toJson msg ok with
        place := socket.place + 1
        phase := if (toJson msg).isSome && !ok then .leaving else .serving } greeting n' := by
  have hgreeting := h.greets.weaken
  have hplace : socket.place = start + n := h.place (by rw [hserving]; rfl)
  obtain ⟨hlt, -⟩ := List.getElem?_eq_some_iff.mp hmsg
  have htake : sent.take (n + 1) = sent.take n ++ [msg] := by
    rw [List.take_add_one, hmsg]
    rfl
  by_cases hfailed : ((toJson msg).isSome && !ok) = true
  · obtain ⟨-, hok⟩ := Bool.and_eq_true_iff.mp hfailed
    have hok : ok = false := by simpa using hok
    refine ⟨n, ?_, h.within, ?_, ?_⟩
    · rw [if_pos hfailed, Socket.deliver_clientId]
      exact hgreeting
    · change (socket.deliver toJson msg ok).delivered = _
      rw [Socket.delivered_deliver, h.delivered, hok]
      simp
    · intro hreading
      rw [if_pos hfailed] at hreading
      cases hreading
  · have hhanded : (if ok then [msg] else []).filterMap toJson = [msg].filterMap toJson := by
      cases ok with
      | true => rfl
      | false => simpa using hfailed
    refine ⟨n + 1, ?_, hlt, ?_, fun _ => ?_⟩
    · rw [if_neg hfailed, Socket.deliver_clientId]
      exact hgreeting
    · change (socket.deliver toJson msg ok).delivered = _
      rw [Socket.delivered_deliver, h.delivered, hhanded, htake, ← List.filterMap_append,
        List.append_assoc]
    · change socket.place + 1 = _
      rw [hplace]
      rfl

/-- One step of a handler, over a channel that holds all messages up to now. -/
theorem Kept.next {e : SocketEvent} {manager' : WebSocketManager}
    (h : Kept toJson start sent socket greeting n) {before : List DashboardMessage}
    (hbefore : before.length = start) (hholds : manager.broadcastSender.Holds (before ++ sent))
    (hhandles : WebSocketManager.Handles toJson manager socket e manager' socket') :
    ∃ greeting' n', Kept toJson start sent socket' greeting' n' := by
  have hgreets := h.greets
  cases hhandles with
  | inserted hphase =>
    refine ⟨greeting, n, h.phase (fun _ => ?_) fun _ => by rw [hphase]; rfl⟩
    rw [hphase] at hgreets
    exact hgreets
  | introduced hphase =>
    rw [hphase] at hgreets
    obtain ⟨rfl, rfl⟩ := hgreets
    refine ⟨_, 0, h.greet ⟨⟨manager.connections.size, ?_⟩, rfl⟩ (by rw [hphase]; rfl)⟩
    split <;> simp
  | @presented views ok data hphase =>
    rw [hphase] at hgreets
    obtain ⟨⟨clients, hsub⟩, rfl⟩ := hgreets
    refine ⟨_, 0, h.greet ⟨clients, some data, ?_⟩ (by rw [hphase]; rfl)⟩
    refine hsub.append ?_
    split <;> simp
  | unpresented hphase =>
    exact ⟨greeting, n, h.phase id fun _ => by rw [hphase]; rfl⟩
  | panicked hphase | cutOff hphase | hungUp hphase | removed hphase =>
    exact ⟨greeting, n, h.phase id fun hreading => by cases hreading⟩
  | dropped => exact ⟨greeting, n, h.phase id fun hreading => by cases hreading⟩
  | @received ok msg hphase hrecv =>
    have hplace : socket.place = start + n := h.place (by rw [hphase]; rfl)
    have hwithin : socket.place ≤ (before ++ sent).length := by
      rw [List.length_append, hbefore, hplace]
      exact Nat.add_le_add_left h.within _
    have hcases := hholds.recv_cases hwithin
    rw [hrecv] at hcases
    have hmsg : sent[n]? = some msg := by
      have hget := hcases.1
      rwa [hplace, ← hbefore, List.getElem?_append_right (Nat.le_add_right ..),
        Nat.add_sub_cancel_left] at hget
    exact ⟨greeting, h.received hphase hmsg⟩

/-- A socket with the event that connected it, and what its client was sent since then. -/
def Tracked (toJson : DashboardMessage → Option String) (tr : List (Step LiveSite Event)) (i : Nat)
    (socket : Socket) : Prop :=
  ∃ pre x post greeting n, tr = pre ++ x :: post ∧ x.label = .connect socket.clientId ∧
    x.before.sockets.length = i ∧
    Kept toJson (sentIn pre).length (sentIn post) socket greeting n

theorem Tracked.snoc (h : Tracked toJson tr i socket) : Tracked toJson (tr ++ [x]) i socket := by
  obtain ⟨pre, y, post, greeting, n, rfl, hlabel, hlength, hkept⟩ := h
  refine ⟨pre, y, post ++ [x], greeting, n, by simp, hlabel, hlength, ?_⟩
  rw [sentIn_snoc]
  exact hkept.sends

structure Sound (toJson : DashboardMessage → Option String) (capacity : Nat)
    (tr : List (Step LiveSite Event)) (s : LiveSite) : Prop where
  capacity : s.manager.broadcastSender.capacity = capacity
  holds : s.manager.broadcastSender.Holds (sentIn tr)
  tracked : ∀ (i : Nat) (socket : Socket), s.sockets[i]? = some socket →
    Tracked toJson tr i socket

theorem publish_sockets (msg : Option DashboardMessage) : (s.publish msg).sockets = s.sockets := by
  cases msg <;> rfl

theorem publish_connections (msg : Option DashboardMessage) :
    (s.publish msg).manager.connections = s.manager.connections := by
  cases msg <;> rfl

theorem Sound.publish (hs : Sound toJson capacity tr s) (msg : Option DashboardMessage)
    (hsent : sentIn (tr ++ [x]) = sentIn tr ++ msg.toList) :
    Sound toJson capacity (tr ++ [x]) (s.publish msg) := by
  refine ⟨?_, ?_, fun i socket hsocket => ?_⟩
  · cases msg <;> exact hs.capacity
  · rw [hsent]
    cases msg with
    | none =>
      rw [Option.toList_none, List.append_nil]
      exact hs.holds
    | some msg => exact hs.holds.send
  · rw [publish_sockets] at hsocket
    exact (hs.tracked i socket hsocket).snoc

theorem Sound.next (hs : Sound toJson capacity tr s) (h : Next toJson s e t) :
    Sound toJson capacity (tr ++ [⟨s, e, t⟩]) t := by
  have hsent : sentIn (tr ++ [⟨s, e, t⟩]) = sentIn tr ++ (s.accepted e).toList := sentIn_snoc
  have hquiet (hnone : e.message = none) : sentIn (tr ++ [⟨s, e, t⟩]) = sentIn tr := by
    rw [hsent, accepted_of_message hnone, Option.toList_none, List.append_nil]
  cases next_moves h with
  | @connected clientId =>
    refine ⟨hs.capacity, ?_, fun i socket hsocket => ?_⟩
    · rw [hquiet rfl]
      exact hs.holds
    · rcases join_cases hsocket with ⟨rfl, rfl⟩ | hold
      · exact ⟨tr, _, [], [], 0, rfl, rfl, rfl, ⟨rfl, rfl⟩, Nat.le_refl 0, rfl,
          fun _ => hs.holds.tail⟩
      · exact (hs.tracked i socket hold).snoc
  | @handled i e socket socket' manager hsocket hhandles =>
    have hsender := hhandles.sender
    refine ⟨?_, ?_, fun j other hother => ?_⟩
    · rw [← hs.capacity, ← hsender]
    · rw [hquiet rfl]
      exact hsender ▸ hs.holds
    · rcases set_cases hother with ⟨rfl, rfl⟩ | ⟨-, hold⟩
      · apply Tracked.snoc
        obtain ⟨pre, y, post, greeting, n, rfl, hlabel, hlength, hkept⟩ := hs.tracked _ _ hsocket
        have hholds := hs.holds
        rw [sentIn_cut hlabel] at hholds
        obtain ⟨greeting', n', hkept'⟩ := hkept.next rfl hholds hhandles
        exact ⟨pre, y, post, greeting', n', rfl, hhandles.clientId ▸ hlabel, hlength, hkept'⟩
      · exact (hs.tracked j other hold).snoc
  | statistics | job => exact hs.publish _ hsent

theorem sound_run (hr : Run (Next toJson) (idle capacity) tr s) : Sound toJson capacity tr s := by
  refine hr.invariant (Sound toJson capacity) ⟨rfl, Broadcast.holds_empty capacity, ?_⟩ ?_
  · intro i socket hsocket
    cases hsocket
  · intro tr t a u _ ih hnext
    exact ih.next hnext

theorem Sound.place_le (hs : Sound toJson capacity tr s) (hsocket : s.sockets[i]? = some socket)
    (hreading : socket.phase.reading = true) : socket.place ≤ (sentIn tr).length := by
  obtain ⟨pre, x, post, greeting, n, rfl, hlabel, -, hkept⟩ := hs.tracked i socket hsocket
  rw [hkept.place hreading, sentIn_cut hlabel, List.length_append]
  exact Nat.add_le_add_left hkept.within _

/-- A handler whose sends succeed leaves its loop by itself only when it is too far behind. -/
theorem Sound.recv (hs : Sound toJson capacity tr s)
    (h : Next toJson s (.socket i (.recv true)) t) :
    ∃ before after, s.sockets[i]? = some before ∧ t.sockets[i]? = some after ∧
      (after.phase ≠ .serving ↔ before.place + capacity < (sentIn tr).length) := by
  cases next_moves h with
  | @handled _ _ socket socket' manager hsocket hhandles =>
    obtain ⟨hlt, -⟩ := List.getElem?_eq_some_iff.mp hsocket
    refine ⟨socket, socket', hsocket, List.getElem?_set_self hlt, ?_⟩
    have hcapacity := hs.capacity
    cases hhandles with
    | received hphase hrecv =>
      have hcases := hs.holds.recv_cases (hs.place_le hsocket (by rw [hphase]; rfl))
      rw [hrecv] at hcases
      refine iff_of_false (fun hne => hne ?_) (by omega)
      simp
    | cutOff hphase hrecv =>
      have hcases := hs.holds.recv_cases (hs.place_le hsocket (by rw [hphase]; rfl))
      rw [hrecv] at hcases
      exact iff_of_true nofun (by omega)

/-- The identifiers of the sockets whose handlers are in the table. -/
def Lists (sockets : List Socket) (id : String) : Prop :=
  ∃ (i : Nat) (socket : Socket), sockets[i]? = some socket ∧ socket.clientId = id ∧
    socket.phase.listed = true

/-- The connection table has the entries of the listed handlers and no others. -/
def TableKept (s : LiveSite) : Prop :=
  ∀ id, s.manager.connections.contains id = true ↔ Lists s.sockets id

theorem lists_set {sockets : List Socket} (hsocket : sockets[i]? = some socket)
    (hids : (sockets.map Socket.clientId).Nodup) (hid : socket'.clientId = socket.clientId)
    (id : String) :
    Lists (sockets.set i socket') id ↔
      id = socket.clientId ∧ socket'.phase.listed = true ∨
        id ≠ socket.clientId ∧ Lists sockets id := by
  obtain ⟨hlt, -⟩ := List.getElem?_eq_some_iff.mp hsocket
  constructor
  · rintro ⟨j, other, hother, rfl, hlisted⟩
    rcases set_cases hother with ⟨rfl, rfl⟩ | ⟨hne, hold⟩
    · exact .inl ⟨hid, hlisted⟩
    · refine .inr ⟨fun hsame => hne ?_, j, other, hold, rfl, hlisted⟩
      refine ((List.getElem?_inj ?_ hids).mp ?_).symm
      · rwa [List.length_map]
      · rw [List.getElem?_map, List.getElem?_map, hsocket, hold, Option.map_some, Option.map_some,
          hsame]
  · rintro (⟨rfl, hlisted⟩ | ⟨hne, j, other, hold, rfl, hlisted⟩)
    · exact ⟨i, socket', List.getElem?_set_self hlt, hid, hlisted⟩
    · refine ⟨j, other, ?_, rfl, hlisted⟩
      rw [List.getElem?_set_ne, hold]
      rintro rfl
      rw [hsocket, Option.some_inj] at hold
      exact hne (congrArg Socket.clientId hold).symm

theorem TableKept.next (hs : TableKept s) (h : Next toJson s e t)
    (hids : (s.sockets.map Socket.clientId).Nodup) : TableKept t := by
  intro id
  cases next_moves h with
  | @connected clientId =>
    rw [hs id]
    constructor
    · rintro ⟨i, socket, hsocket, hrest⟩
      obtain ⟨hlt, -⟩ := List.getElem?_eq_some_iff.mp hsocket
      exact ⟨i, socket, (List.getElem?_append_left hlt).trans hsocket, hrest⟩
    · rintro ⟨i, socket, hsocket, hid, hlisted⟩
      rcases join_cases hsocket with ⟨-, rfl⟩ | hold
      · cases hlisted
      · exact ⟨i, socket, hold, hid, hlisted⟩
  | @handled i e socket socket' manager hsocket hhandles =>
    have hself : Lists s.sockets id ↔ id = socket.clientId ∧ socket.phase.listed = true ∨
        id ≠ socket.clientId ∧ Lists s.sockets id := by
      have hsame := lists_set hsocket hids (Eq.refl socket.clientId) id
      obtain ⟨hlt, rfl⟩ := List.getElem?_eq_some_iff.mp hsocket
      rwa [List.set_getElem_self] at hsame
    rw [lists_set hsocket hids hhandles.clientId id]
    have hcontains := hs id
    rcases hhandles.table with ⟨htable, -, hafter⟩ | ⟨htable, hafter⟩ | ⟨htable, hafter⟩
    · rw [htable, Dict.contains_insert, Bool.or_eq_true, decide_eq_true_eq, hcontains, hafter]
      tauto
    · rw [htable, Dict.contains_erase, Bool.and_eq_true, hcontains, hafter]
      simp
    · rw [htable, hcontains, hafter]
      exact hself
  | statistics | job =>
    rw [publish_connections, publish_sockets]
    exact hs id

/-- Sockets keep their identifiers. -/
theorem next_ids (h : Next toJson s e t) :
    (s.sockets.map Socket.clientId).Sublist (t.sockets.map Socket.clientId) := by
  cases next_moves h with
  | connected =>
    rw [List.map_append]
    exact List.sublist_append_left ..
  | handled hsocket hhandles =>
    rw [map_set_same Socket.clientId hsocket hhandles.clientId]
  | statistics | job => rw [publish_sockets]

theorem tableKept_run (hr : Run (Next toJson) (idle capacity) tr s) :
    (s.sockets.map Socket.clientId).Nodup → TableKept s := by
  refine hr.invariant (fun _ s => (s.sockets.map Socket.clientId).Nodup → TableKept s) ?_ ?_
  · intro _ id
    refine iff_of_false (by simp [idle, WebSocketManager.new]) ?_
    rintro ⟨i, socket, hsocket, -⟩
    cases hsocket
  · intro tr t a u _ ih hnext hids
    have hbefore := hids.sublist (next_ids hnext)
    exact (ih hbefore).next hnext hbefore

theorem TableKept.size (hs : TableKept s) (hids : (s.sockets.map Socket.clientId).Nodup) :
    s.manager.connectedClientsCount = s.sockets.countP fun socket => socket.phase.listed := by
  have hperm : s.manager.connections.keys.Perm
      ((s.sockets.filter fun socket => socket.phase.listed).map Socket.clientId) := by
    refine (List.perm_ext_iff_of_nodup s.manager.connections.nodup
      (hids.sublist (List.filter_sublist.map _))).mpr fun id => ?_
    change id ∈ s.manager.connections.keys ↔ _
    rw [← Dict.contains_iff_mem, hs id]
    simp only [Lists, List.mem_map, List.mem_filter]
    constructor
    · rintro ⟨i, socket, hsocket, hid, hlisted⟩
      exact ⟨socket, ⟨List.mem_of_getElem? hsocket, hlisted⟩, hid⟩
    · rintro ⟨socket, ⟨hmem, hlisted⟩, hid⟩
      obtain ⟨i, hsocket⟩ := List.mem_iff_getElem?.mp hmem
      exact ⟨i, socket, hsocket, hid, hlisted⟩
  have hlength := hperm.length_eq
  rw [List.length_map] at hlength
  rw [List.countP_eq_length_filter, ← hlength, Dict.keys, List.length_map]
  rfl

/-- A client was sent its greeting and then, in order and without a gap, the first messages
since it connected; while it is served these are the ones that its receiver has read. -/
def Follows (toJson : DashboardMessage → Option String) (tr : List (Step LiveSite Event)) (i : Nat)
    (socket : Socket) : Prop :=
  ∃ pre x post greeting n, tr = pre ++ x :: post ∧ x.label = .connect socket.clientId ∧
    x.before.sockets.length = i ∧ Greeting socket.clientId greeting ∧
    n ≤ (sentIn post).length ∧
    socket.delivered = (greeting ++ (sentIn post).take n).filterMap toJson ∧
    (socket.phase = .serving → socket.place = (sentIn pre).length + n)

/-- Over every run, the clients are sent the messages in order and without a gap; a client that
can be sent to is cut off only when more messages wait for it than the sender keeps; and the
table has the entries of the listed handlers. -/
theorem updates_in_order (hr : Run (Next toJson) (idle capacity) tr s) :
    (∀ i socket, s.sockets[i]? = some socket → Follows toJson tr i socket) ∧
    (∀ pre x post i, tr = pre ++ x :: post → x.label = .socket i (.recv true) →
      ∃ before after, x.before.sockets[i]? = some before ∧ x.after.sockets[i]? = some after ∧
        (after.phase ≠ .serving ↔ before.place + capacity < (sentIn pre).length)) ∧
    ((s.sockets.map Socket.clientId).Nodup →
      (∀ id, s.manager.connections.contains id = true ↔ Lists s.sockets id) ∧
      s.manager.connectedClientsCount = s.sockets.countP fun socket => socket.phase.listed) := by
  refine ⟨fun i socket hsocket => ?_, ?_, fun hids => ?_⟩
  · obtain ⟨pre, x, post, greeting, n, htr, hlabel, hlength, hkept⟩ :=
      (sound_run hr).tracked i socket hsocket
    exact ⟨pre, x, post, greeting, n, htr, hlabel, hlength, hkept.greets.weaken, hkept.within,
      hkept.delivered, fun hserving => hkept.place (by rw [hserving]; rfl)⟩
  · rintro pre x post i rfl hlabel
    obtain ⟨hpre, hnext, -⟩ := hr.around
    rw [hlabel] at hnext
    exact (sound_run hpre).recv hnext
  · have htable := tableKept_run hr hids
    exact ⟨htable, htable.size hids⟩

/-- The JSON of the messages about a client and about a job. -/
def asJson : DashboardMessage → Option String
  | .connectionInfo clientId clients =>
    some ("\x7b\"type\":\"connection_info\",\"client_id\":\"" ++ clientId ++
      "\",\"connected_clients\":" ++ toString clients ++ "\x7d")
  | .jobUpdate jobId state updatedAt =>
    some ("\x7b\"type\":\"job_update\",\"job_id\":\"" ++ jobId ++ "\",\"state\":\"" ++ state ++
      "\",\"updated_at\":\"" ++ updatedAt ++ "\"\x7d")
  | _ => none

/-- A storage that is down. -/
def down : MonitoringApi where
  list _ _ _ := some (.error (.unavailable "no route to host"))
  getJobCounts := some (.error (.unavailable "no route to host"))

/-- Two clients come one after the other, and the statistics cannot be read; the first client
misses neither of two updates, the second one is sent only the later one. -/
def lateClient : List Event :=
  let views : Views := ⟨down, down, down⟩
  [.connect "ada", .socket 0 .insert, .socket 0 (.introduce true), .socket 0 (.present views true),
    .broadcastJobUpdate "job" "Processing" "12:00", .broadcastStatisticsUpdate views,
    .connect "bob", .socket 1 .insert, .broadcastJobUpdate "job" "Succeeded" "12:01",
    .socket 1 (.introduce true), .socket 1 (.present views true), .socket 0 (.recv true),
    .socket 1 (.recv true), .socket 0 (.recv true)]

theorem updates_in_order_lateClient : ∃ tr s, Run (Next asJson) (idle 1024) tr s ∧
    (∀ i socket, s.sockets[i]? = some socket → Follows asJson tr i socket) ∧
    s.manager.connectedClientsCount = s.sockets.countP (fun socket => socket.phase.listed) ∧
    (s.sockets.map fun socket => socket.delivered.length) = [3, 2] := by
  obtain ⟨s, hr⟩ := replay_run (next asJson) (idle 1024) lateClient
  have hsockets : s.sockets.map (fun socket => (socket.clientId, socket.delivered.length)) =
      [("ada", 3), ("bob", 2)] := by
    rw [hr.eq_last]
    decide +kernel
  have hids : (s.sockets.map Socket.clientId).Nodup := by
    have hfirst := congrArg (List.map Prod.fst) hsockets
    rw [List.map_map] at hfirst
    exact hfirst ▸ (by decide : ["ada", "bob"].Nodup)
  have hcounts := congrArg (List.map Prod.snd) hsockets
  rw [List.map_map] at hcounts
  obtain ⟨hfollows, -, htable⟩ := updates_in_order hr
  exact ⟨_, s, hr, hfollows, (htable hids).2, hcounts⟩

end LiveSite
end Qml
