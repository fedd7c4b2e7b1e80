import Qml.Lib.Pool
import Qml.Lib.Run
import Qml.Server.Calls

namespace Qml
open Lib

inductive LoopState
  | waiting
  | working
  | ended
  deriving DecidableEq

/-- A spawned loop. It waits for its next round, or for its token to be cancelled. An aborted
one has been asked to end, and goes on until the executor sees to it. -/
structure LoopTask where
  loop : Loop
  token : Nat
  state : LoopState
  aborted : Bool

/-- The fields of a server that its calls share, the tokens made and cancelled so far, the
loops, and the rows that the server has in the registry. `writer` is the call that holds
`is_running` locked, `beats` are the rows that a heartbeat has read to write them back. -/
structure Host where
  isRunning : Bool
  writer : Option Nat
  shutdownToken : Nat
  serverId : Option String
  workerHandles : List Nat
  tokens : Nat
  cancelled : List Nat
  tasks : List LoopTask
  registry : Dict String ServerInfo
  beats : List (String × ServerInfo)

/-- A call of `start` or `stop`, and what is left of its program. -/
structure HostCall where
  program : Prog LifecycleCall (Except QmlError Unit)
  phase : CallPhase
  alive : Bool

/-- What a call reads from outside, the fault that its statement meets, and whether the grace
period is over when it waits for the loops. -/
structure HostDraw where
  now : DateTime
  uuid : String
  requeued : Except StorageError Nat
  fault : Option Fault
  timedOut : Bool

namespace Host

/-- `BackgroundJobServer::new`. -/
def new : Host := ⟨false, none, 0, none, [], 1, [], [], .empty, []⟩

/-- Abort the loops behind some handles. None of them has ended by that. -/
def abortAll (handles : List Nat) (tasks : List LoopTask) : List LoopTask :=
  tasks.mapIdx fun j task => if j ∈ handles then { task with aborted := true } else task

/-- Whether the loops behind some handles have ended. -/
def ended (h : Host) (handles : List Nat) : Bool :=
  handles.all fun j => (h.tasks[j]?).all fun task => decide (task.state = .ended)

def spawn (h : Host) (loops : List Loop) (token : Nat) : Host :=
  { h with tasks := h.tasks ++ loops.map fun loop => ⟨loop, token, .waiting, false⟩ }

/-- The row that `heartbeat_server` writes, if there is one. -/
def bumped (h : Host) (id : String) (now : DateTime) : Option ServerInfo :=
  (h.registry.get? id).map fun info => { info with lastHeartbeat := now }

/-- `heartbeat_server` on Postgres and in memory. -/
def beat (h : Host) (id : String) (now : DateTime) : Host :=
  match h.bumped id now with
  | some info => { h with registry := h.registry.insert id info }
  | none => h

/-- The first half of `heartbeat_server` on Redis. -/
def readBeat (h : Host) (id : String) (now : DateTime) : Host :=
  match h.bumped id now with
  | some info => { h with beats := h.beats ++ [(id, info)] }
  | none => h

/-- Its second half, which does not look whether the row is still there. -/
def writeBeat (h : Host) (k : Nat) : Option Host :=
  (h.beats[k]?).map fun row =>
    { h with registry := h.registry.insert row.1 row.2, beats := h.beats.eraseIdx k }

/-- What a heartbeat leaves alone: all but the rows. -/
theorem beat_eq (h : Host) (id : String) (now : DateTime) :
    h.beat id now = { h with registry := (h.beat id now).registry } := by
  unfold beat
  split <;> rfl

theorem readBeat_eq (h : Host) (id : String) (now : DateTime) :
    h.readBeat id now = { h with beats := (h.readBeat id now).beats } := by
  unfold readBeat
  split <;> rfl

/-- A heartbeat adds no row. -/
theorem get?_beat (h : Host) (id row : String) (now : DateTime) :
    ((h.beat id now).registry.get? row).isSome = (h.registry.get? row).isSome := by
  unfold beat
  split
  · rename_i info hinfo
    obtain ⟨old, hold, rfl⟩ := Option.map_eq_some_iff.mp hinfo
    rw [Dict.get?_insert]
    split
    · subst row
      rw [hold]
      rfl
    · rfl
  · rfl

/-- Make one call; `none` is one that has to wait. -/
def perform (draw : HostDraw) (i : Nat) (h : Host) : LifecycleCall ρ → Option (ρ × Host)
  | .lockRunning =>
    match h.writer with
    | none => some (h.isRunning, { h with writer := some i })
    | some _ => none
  | .unlockRunning => some ((), { h with writer := none })
  | .now => some (draw.now, h)
  | .requeueStrandedJobs _ => some (draw.requeued, h)
  | .renewToken => some (h.tokens, { h with shutdownToken := h.tokens, tokens := h.tokens + 1 })
  | .newUuid => some (draw.uuid, h)
  | .registerServer info =>
    some (Fault.outcome draw.fault h
      (.ok (), { h with registry := h.registry.insert info.serverId info }))
  | .publish id => some ((), { h with serverId := id, isRunning := true, writer := none })
  | .spawn loop token => some (h.tasks.length, h.spawn [loop] token)
  | .keepHandle handle => some ((), { h with workerHandles := h.workerHandles ++ [handle] })
  | .startWorkers workers token =>
    let handles := List.range' h.tasks.length workers.length
    some ((), { (h.spawn workers token) with workerHandles := h.workerHandles ++ handles })
  | .shutDown =>
    let cancelled := h.shutdownToken :: h.cancelled
    some ((), { h with cancelled := cancelled, isRunning := false, writer := none })
  | .takeServerId => some (h.serverId, { h with serverId := none })
  | .deregisterServer id =>
    some (Fault.outcome draw.fault h (.ok (), { h with registry := h.registry.erase id }))
  | .takeHandles => some (h.workerHandles, { h with workerHandles := [] })
  | .join handles =>
    if draw.timedOut then some (false, h)
    else if h.ended handles then some (true, h)
    else none
  | .abort handles => some ((), { h with tasks := abortAll handles h.tasks })

/-- What one call can do, and how far it gets with it. -/
inductive Acts (draw : HostDraw) (i : Nat) (h : Host) :
    {ρ : Type} → LifecycleCall ρ → CallPhase → Host → CallPhase → Prop
  | idle {ρ : Type} (call : LifecycleCall ρ) (phase : CallPhase) : Acts draw i h call phase h phase
  | locked (hfree : h.writer = none) : Acts draw i h .lockRunning .outside
      { h with writer := some i } (.entered h.isRunning)
  | unlocked {phase : CallPhase} (hlocks : phase.locks = true) (hrow : phase.row = none) :
      Acts draw i h .unlockRunning phase { h with writer := none } .returned
  | renewed : Acts draw i h .renewToken (.entered false)
      { h with shutdownToken := h.tokens, tokens := h.tokens + 1 } (.renewed h.tokens)
  | registered (token : Nat) (info : ServerInfo) :
      Acts draw i h (.registerServer info) (.renewed token)
        { h with registry := h.registry.insert info.serverId info }
        (.registered token info.serverId)
  | registerFailed (token : Nat) (info : ServerInfo) {fault : Fault}
      (hfault : draw.fault = some fault) : Acts draw i h (.registerServer info) (.renewed token)
        { h with registry := h.registry.insert info.serverId info } (.renewed token)
  | published {phase : CallPhase} {token : Nat} (id : Option String)
      (hphase : phase.ready = some (token, id)) : Acts draw i h (.publish id) phase
        { h with serverId := id, isRunning := true, writer := none } (.spawning token [] none)
  | spawned {token : Nat} {before : List Loop} {loop : Loop} (hnew : loop ∉ before) :
      Acts draw i h (.spawn loop token) (.spawning token before none) (h.spawn [loop] token)
        (.spawning token (loop :: before) (some h.tasks.length))
  | kept (token : Nat) (before : List Loop) (handle : Nat) :
      Acts draw i h (.keepHandle handle) (.spawning token before (some handle))
        { h with workerHandles := h.workerHandles ++ [handle] } (.spawning token before none)
  | staffed {token : Nat} {before workers : List Loop} (hnodup : workers.Nodup)
      (hnew : ∀ loop ∈ workers, loop ∉ before) :
      Acts draw i h (.startWorkers workers token) (.spawning token before none)
        { (h.spawn workers token) with
          workerHandles := h.workerHandles ++ List.range' h.tasks.length workers.length }
        .returned
  | shutDown : Acts draw i h .shutDown (.entered true)
      { h with cancelled := h.shutdownToken :: h.cancelled, isRunning := false, writer := none }
      .stopping
  | tookId {phase : CallPhase} (hphase : phase = (match h.serverId with
        | some id => .leaving id
        | none => .left)) : Acts draw i h .takeServerId .stopping { h with serverId := none } phase
  | deregistered (id : String) : Acts draw i h (.deregisterServer id) (.leaving id)
      { h with registry := h.registry.erase id } .left
  | deregisterFailed (id : String) {fault : Fault} (hfault : draw.fault = some fault) :
      Acts draw i h (.deregisterServer id) (.leaving id) h .left
  | tookHandles : Acts draw i h .takeHandles .left { h with workerHandles := [] }
      (.draining h.workerHandles)
  | joined {handles : List Nat} (hended : h.ended handles = true) :
      Acts draw i h (.join handles) (.draining handles) h .returned
  | aborted (handles : List Nat) : Acts draw i h (.abort handles) (.draining handles)
      { h with tasks := abortAll handles h.tasks } .returned

variable {draw : HostDraw} {i : Nat} {h h' : Host} {phase : CallPhase} {ρ : Type}
  {call : LifecycleCall ρ} {reply : ρ}

/-- A loop is aborted, or it is left alone. -/
theorem of_abortAll {tasks : List LoopTask} {handles : List Nat} {j : Nat} {task : LoopTask}
    (htask : (abortAll handles tasks)[j]? = some task) :
    task.aborted = true ∨ tasks[j]? = some task ∧ j ∉ handles := by
  rw [abortAll, List.getElem?_mapIdx] at htask
  obtain ⟨old, hold, hnew⟩ := Option.map_eq_some_iff.mp htask
  split at hnew
  · subst hnew
    exact .inl rfl
  · rename_i hout
    subst hnew
    exact .inr ⟨hold, hout⟩

theorem perform_acts (hpermits : phase.Permits call)
    (hperform : perform draw i h call = some (reply, h')) :
    Acts draw i h call phase h' (phase.after call reply) := by
  cases hpermits with
  | lock =>
    simp only [perform] at hperform
    split at hperform
    · rename_i hfree
      cases hperform
      exact .locked hfree
    · cases hperform
  | refuse isRunning =>
    cases hperform
    exact .unlocked rfl rfl
  | giveUp token =>
    cases hperform
    exact .unlocked rfl rfl
  | now | newUuid | requeue =>
    cases hperform
    exact .idle ..
  | renew =>
    cases hperform
    exact .renewed
  | register token info =>
    simp only [perform, Option.some.injEq] at hperform
    cases hfault : draw.fault with
    | none =>
      rw [hfault] at hperform
      cases hperform
      exact .registered token info
    | some fault =>
      obtain ⟨error, executed⟩ := fault
      rw [hfault] at hperform
      cases hperform
      cases executed with
      | true => exact .registerFailed token info hfault
      | false => exact .idle ..
  | publishNone token =>
    cases hperform
    exact .published none rfl
  | publishSome token id =>
    cases hperform
    exact .published (some id) rfl
  | spawn hnew =>
    cases hperform
    exact .spawned hnew
  | keep token before handle =>
    cases hperform
    exact .kept token before handle
  | startWorkers hnodup hnew =>
    cases hperform
    exact .staffed hnodup hnew
  | shutDown =>
    cases hperform
    exact .shutDown
  | takeId =>
    cases hperform
    refine .tookId ?_
    cases h.serverId <;> rfl
  | deregister id =>
    simp only [perform, Option.some.injEq] at hperform
    cases hfault : draw.fault with
    | none =>
      rw [hfault] at hperform
      cases hperform
      exact .deregistered id
    | some fault =>
      obtain ⟨error, executed⟩ := fault
      rw [hfault] at hperform
      cases hperform
      cases executed with
      | true => exact .deregistered id
      | false => exact .deregisterFailed id hfault
  | takeHandles =>
    cases hperform
    exact .tookHandles
  | join handles =>
    simp only [perform] at hperform
    split at hperform
    · cases hperform
      exact .idle ..
    · split at hperform
      · rename_i hended
        cases hperform
        exact .joined hended
      · cases hperform
  | abort handles =>
    cases hperform
    exact .aborted handles

end Host
end Qml
