import Qml.Lib.Pool
import Qml.Lib.Run
import Qml.Memory.Registry
import Qml.Runtime.Identities

namespace Qml
open Lib Call

/-- A server with heartbeats: its start and, once it is registered, the heartbeat
loop, cancelled before its round number `rounds`. -/
def BackgroundJobServer.heartbeats (server : BackgroundJobServer) (serverId : String)
    (rounds : Nat) : Prog Call Unit := do
  match ← server.start serverId with
  | .error _ => return ()
  | .ok () =>
    polling (discard (HeartbeatWorker.bumpAndScan serverId server.config.deadServerTimeout)) rounds

/-- Whether a section writes the registry. -/
def Section.registry : Section ρ → Bool
  | .registerServer _ | .heartbeatServer .. | .deregisterServer _ => true
  | _ => false

/-- How far a server is with its cycle: the heartbeat it wrote last, whether it has
listed the dead peers since, what it took for dead, and which of them it still has
to deregister. Bookkeeping for the proofs, computed from the calls it makes. -/
structure Watch where
  bumped : Option DateTime
  scanned : Bool
  staleBefore : DateTime
  dead : List ServerInfo

namespace Watch

def none : Watch := ⟨.none, false, 0, []⟩

/-- A `bump_and_scan` is complete, and the next one has not written its bump. -/
def done (watch : Watch) : Bool := watch.scanned && watch.dead.isEmpty

def after (serverId : String) (watch : Watch) : {ρ : Type} → Call ρ → ρ → Watch
  | _, .storage (.registerServer info), .ok () =>
      { watch with bumped := some info.lastHeartbeat, scanned := false, dead := [] }
  | _, .storage (.heartbeatServer _ t), .ok _ =>
      { watch with bumped := some t, scanned := false, dead := [] }
  | _, .storage (.listDeadServers staleBefore), .ok dead =>
      { watch with
        scanned := true
        staleBefore := staleBefore
        dead := dead.filter fun peer => decide (peer.serverId ≠ serverId) }
  | _, .storage (.reclaimJobsFromServer _), .error _ => { watch with dead := watch.dead.tail }
  | _, .storage (.deregisterServer _), _ => { watch with dead := watch.dead.tail }
  | _, _, _ => watch

end Watch

/-- A server and what is left of its program. -/
structure Member where
  serverId : String
  program : Prog Call Unit
  watch : Watch
  alive : Bool

/-- Any number of servers with heartbeats over one storage. -/
structure Cluster where
  storage : MemoryStorage
  members : List Member

namespace Cluster

def idle (storage : MemoryStorage) : Cluster := ⟨storage, []⟩

/-- Start a server, let one make its next call, or crash one. Any section that does
not concern the registry may be entered by other tasks in between. -/
inductive Event
  | start (server : BackgroundJobServer) (uuid : String) (rounds : Nat)
  | step (i : Nat) (env : Env)
  | abort (i : Nat)
  | enter {ρ : Type} (op : Section ρ) (env : Reading)

/-- No two servers draw the same `Uuid`. -/
def next (s : Cluster) : Event → Option Cluster
  | .start server uuid rounds =>
    let serverId := server.identity uuid
    if server.config.enableHeartbeat && s.members.all fun m => decide (m.serverId ≠ serverId) then
      some { s with
        members := s.members ++ [⟨serverId, server.heartbeats serverId rounds, .none, true⟩] }
    else none
  | .step i env =>
    match s.members[i]? with
    | some ⟨serverId, .call op k, watch, true⟩ =>
      match op.perform env s.storage with
      | some (reply, storage) =>
        some ⟨storage, s.members.set i ⟨serverId, k reply, watch.after serverId op reply, true⟩⟩
      | none => some { s with members := s.members.set i ⟨serverId, .call op k, watch, false⟩ }
    | _ => none
  | .abort i =>
    (s.members[i]?).map fun m => { s with members := s.members.set i { m with alive := false } }
  | .enter op env =>
    if op.registry then none
    else (op.perform env s.storage).map fun r => { s with storage := r.2 }

abbrev Next (s : Cluster) (e : Event) (t : Cluster) : Prop := s.next e = some t

/-- What one step can be. -/
inductive Moves (s : Cluster) : Event → Cluster → Prop
  | started {server : BackgroundJobServer} {uuid : String} {rounds : Nat}
      (hheartbeat : server.config.enableHeartbeat = true)
      (hfresh : ∀ m ∈ s.members, m.serverId ≠ server.identity uuid) :
      Moves s (.start server uuid rounds) { s with members := s.members ++
        [⟨server.identity uuid, server.heartbeats (server.identity uuid) rounds, .none, true⟩] }
  | called {i : Nat} {env : Env} {m : Member} {ρ : Type} {op : Call ρ}
      {k : ρ → Prog Call Unit} {reply : ρ} {storage : MemoryStorage}
      (hm : s.members[i]? = some m) (halive : m.alive = true) (hprogram : m.program = .call op k)
      (hop : op.perform env s.storage = some (reply, storage)) :
      Moves s (.step i env) ⟨storage, s.members.set i
        { m with program := k reply, watch := m.watch.after m.serverId op reply }⟩
  | died {e : Event} {i : Nat} {m : Member} (hm : s.members[i]? = some m) :
      Moves s e { s with members := s.members.set i { m with alive := false } }
  | entered {ρ : Type} {op : Section ρ} {env : Reading} {reply : ρ} {storage : MemoryStorage}
      (hother : op.registry = false) (hop : op.perform env s.storage = some (reply, storage)) :
      Moves s (.enter op env) { s with storage := storage }

variable {s t : Cluster} {e : Event}

theorem next_moves (h : Next s e t) : Moves s e t := by
  cases e with
  | start server uuid rounds =>
    simp only [Next, next] at h
    split at h
    · rename_i hok
      cases h
      rw [Bool.and_eq_true, List.all_eq_true] at hok
      exact .started hok.1 fun m hm => of_decide_eq_true (hok.2 m hm)
    · cases h
  | step i env =>
    simp only [Next, next] at h
    split at h
    · rename_i hm
      split at h <;> cases h
      · exact .called hm rfl rfl ‹_›
      · exact .died hm
    · cases h
  | abort i =>
    obtain ⟨m, hm, rfl⟩ := Option.map_eq_some_iff.mp h
    exact .died hm
  | enter op env =>
    simp only [Next, next] at h
    split at h
    · cases h
    · rename_i hother
      obtain ⟨⟨reply, storage⟩, hop, rfl⟩ := Option.map_eq_some_iff.mp h
      exact .entered (by simpa using hother) hop

end Cluster
end Qml
