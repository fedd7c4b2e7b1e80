import Qml.Core.Fault
import Qml.Processing.Routines

namespace Qml
open Lib

/-- A server's configuration, with the switches of the loops that `start` spawns. -/
structure StartConfig extends ServerConfig where
  enableScheduler : Bool
  enableRecurring : Bool
  enableCleanup : Bool

/-- What a loop is spawned for. -/
inductive Loop
  | scheduler
  | recurring
  | cleanup
  | heartbeat (serverId : String)
  | worker (n : Nat) (stampedServerName : String)
  deriving DecidableEq

/-- What `start` and `stop` do between two points where another task may run. A guard of
`is_running` is dropped by `unlockRunning`, or within the call that sets the flag. -/
inductive LifecycleCall : Type → Type
  | lockRunning : LifecycleCall Bool
  | unlockRunning : LifecycleCall Unit
  | now : LifecycleCall DateTime
  | requeueStrandedJobs (staleBefore : DateTime) : LifecycleCall (Except StorageError Nat)
  | renewToken : LifecycleCall Nat
  | newUuid : LifecycleCall String
  | registerServer (info : ServerInfo) : LifecycleCall (Except StorageError Unit)
  | publish (serverId : Option String) : LifecycleCall Unit
  | spawn (loop : Loop) (token : Nat) : LifecycleCall Nat
  | keepHandle (handle : Nat) : LifecycleCall Unit
  | startWorkers (workers : List Loop) (token : Nat) : LifecycleCall Unit
  | shutDown : LifecycleCall Unit
  | takeServerId : LifecycleCall (Option String)
  | deregisterServer (serverId : String) : LifecycleCall (Except StorageError Unit)
  | takeHandles : LifecycleCall (List Nat)
  | join (handles : List Nat) : LifecycleCall Bool
  | abort (handles : List Nat) : LifecycleCall Unit

namespace Lifecycle

/-- Spawn a loop, if it is switched on. -/
def spawnLoop (enabled : Bool) (loop : Loop) (token : Nat) : Prog LifecycleCall Unit := do
  if enabled then
    let handle ← .ask (.spawn loop token)
    .ask (.keepHandle handle)
  else return ()

/-- The loops of the workers, stamped with the name of the server. -/
def workers (config : StartConfig) (stampedServerName : String) : List Loop :=
  (List.range config.workerCount).map fun n => .worker n stampedServerName

/-- The second half of `start`: spawn the loops. -/
def spawnLoops (config : StartConfig) (token : Nat) (serverIdentity : Option String) :
    Prog LifecycleCall (Except QmlError Unit) := do
  spawnLoop config.enableScheduler .scheduler token
  spawnLoop config.enableRecurring .recurring token
  spawnLoop config.enableCleanup .cleanup token
  match serverIdentity with
  | some id =>
    spawnLoop true (.heartbeat id) token
    .ask (.startWorkers (workers config id) token)
    return .ok ()
  | none =>
    .ask (.startWorkers (workers config config.serverName) token)
    return .ok ()

def start (config : StartConfig) : Prog LifecycleCall (Except QmlError Unit) := do
  if ← .ask .lockRunning then
    .ask .unlockRunning
    return .error (.configurationError "Server is already running")
  else
    let now ← .ask .now
    let _ ← .ask (.requeueStrandedJobs (now - config.staleProcessingAfter))
    let token ← .ask .renewToken
    if config.enableHeartbeat then
      let uuid ← .ask .newUuid
      let id := config.serverName ++ "#" ++ uuid
      let now ← .ask .now
      let info : ServerInfo :=
        ⟨id, config.serverName, now, now, UInt32.ofNat config.workerCount, config.queues⟩
      match ← .ask (.registerServer info) with
      | .error e =>
        .ask .unlockRunning
        return .error (.storageError ("Failed to register server heartbeat: " ++ e.display))
      | .ok () =>
        .ask (.publish (some id))
        spawnLoops config token (some id)
    else
      .ask (.publish none)
      spawnLoops config token none

/-- The end of `stop`: wait for the loops, and abort them if that takes too long. -/
def drain : Prog LifecycleCall (Except QmlError Unit) := do
  let handles ← .ask .takeHandles
  if ← .ask (.join handles) then return .ok ()
  else
    .ask (.abort handles)
    return .ok ()

def stop : Prog LifecycleCall (Except QmlError Unit) := do
  if ← .ask .lockRunning then
    .ask .shutDown
    match ← .ask .takeServerId with
    | some id =>
      let _ ← .ask (.deregisterServer id)
      drain
    | none => drain
  else
    .ask .unlockRunning
    return .ok ()

end Lifecycle

/-- How far a call of `start` or `stop` has come. Bookkeeping for the proofs, computed from
the calls it makes. -/
inductive CallPhase
  | outside
  | entered (isRunning : Bool)
  | renewed (token : Nat)
  | registered (token : Nat) (serverId : String)
  | spawning (token : Nat) (spawned : List Loop) (loose : Option Nat)
  | stopping
  | leaving (serverId : String)
  | left
  | draining (handles : List Nat)
  | returned

namespace CallPhase

def after (phase : CallPhase) : {ρ : Type} → LifecycleCall ρ → ρ → CallPhase
  | _, .lockRunning, isRunning => .entered isRunning
  | _, .unlockRunning, _ => .returned
  | _, .renewToken, token => .renewed token
  | _, .registerServer info, .ok _ =>
    match phase with
    | .renewed token => .registered token info.serverId
    | _ => phase
  | _, .publish _, _ =>
    match phase with
    | .renewed token | .registered token _ => .spawning token [] none
    | _ => phase
  | _, .spawn loop _, handle =>
    match phase with
    | .spawning token spawned _ => .spawning token (loop :: spawned) (some handle)
    | _ => phase
  | _, .keepHandle _, _ =>
    match phase with
    | .spawning token spawned _ => .spawning token spawned none
    | _ => phase
  | _, .startWorkers .., _ => .returned
  | _, .shutDown, _ => .stopping
  | _, .takeServerId, some id => .leaving id
  | _, .takeServerId, none => .left
  | _, .deregisterServer _, _ => .left
  | _, .takeHandles, handles => .draining handles
  | _, .join _, true => .returned
  | _, .abort _, _ => .returned
  | _, _, _ => phase

/-- Whether a call that has come so far holds `is_running` locked. -/
def locks : CallPhase → Bool
  | .entered _ | .renewed _ | .registered .. => true
  | _ => false

/-- The token of a `start` that has made one. -/
def token : CallPhase → Option Nat
  | .renewed token | .registered token _ | .spawning token .. => some token
  | _ => none

/-- The row of the registry that a call has in hand: a `start` has put it there and will publish
it, a `stop` will take it out. -/
def row : CallPhase → Option String
  | .registered _ id | .leaving id => some id
  | _ => none

/-- Whether a `start` has published, and still spawns. -/
def spawns : CallPhase → Bool
  | .spawning .. => true
  | _ => false

/-- Whether a `stop` has taken effect, and has not taken over the handles. -/
def winds : CallPhase → Bool
  | .stopping | .leaving _ | .left => true
  | _ => false

/-- Whether a call answers for loops that the server has lost or is about to lose from sight. -/
def watches : CallPhase → Bool
  | .spawning _ _ (some _) | .stopping | .leaving _ | .left | .draining _ => true
  | _ => false

/-- What a `start` that is ready to go on publishes. -/
def ready : CallPhase → Option (Nat × Option String)
  | .renewed token => some (token, none)
  | .registered token id => some (token, some id)
  | _ => none

theorem watches_winds {phase : CallPhase} (h : phase.winds = true) : phase.watches = true := by
  cases phase <;> first | rfl | cases h

theorem watches_locks {phase : CallPhase} (h : phase.locks = true) : phase.watches = false := by
  cases phase <;> first | rfl | cases h

theorem row_ready {phase : CallPhase} {token : Nat} {id : Option String}
    (h : phase.ready = some (token, id)) : phase.row = id := by
  cases phase with
  | renewed t | registered t _ =>
    cases h
    rfl
  | outside | entered | spawning | stopping | leaving | left | draining | returned => cases h

/-- The calls that `start` and `stop` may make, given how far they have come. -/
inductive Permits : CallPhase → {ρ : Type} → LifecycleCall ρ → Prop
  | lock : Permits .outside .lockRunning
  | refuse (isRunning : Bool) : Permits (.entered isRunning) .unlockRunning
  | giveUp (token : Nat) : Permits (.renewed token) .unlockRunning
  | now (phase : CallPhase) : Permits phase .now
  | newUuid (phase : CallPhase) : Permits phase .newUuid
  | requeue (phase : CallPhase) (staleBefore : DateTime) :
      Permits phase (.requeueStrandedJobs staleBefore)
  | renew : Permits (.entered false) .renewToken
  | register (token : Nat) (info : ServerInfo) : Permits (.renewed token) (.registerServer info)
  | publishNone (token : Nat) : Permits (.renewed token) (.publish none)
  | publishSome (token : Nat) (id : String) :
      Permits (.registered token id) (.publish (some id))
  | spawn {token : Nat} {spawned : List Loop} {loop : Loop} (hnew : loop ∉ spawned) :
      Permits (.spawning token spawned none) (.spawn loop token)
  | keep (token : Nat) (spawned : List Loop) (handle : Nat) :
      Permits (.spawning token spawned (some handle)) (.keepHandle handle)
  | startWorkers {token : Nat} {spawned workers : List Loop} (hnodup : workers.Nodup)
      (hnew : ∀ loop ∈ workers, loop ∉ spawned) :
      Permits (.spawning token spawned none) (.startWorkers workers token)
  | shutDown : Permits (.entered true) .shutDown
  | takeId : Permits .stopping .takeServerId
  | deregister (id : String) : Permits (.leaving id) (.deregisterServer id)
  | takeHandles : Permits .left .takeHandles
  | join (handles : List Nat) : Permits (.draining handles) (.join handles)
  | abort (handles : List Nat) : Permits (.draining handles) (.abort handles)

end CallPhase

namespace Lifecycle

/-- The order of calls that `start` and `stop` keep to. -/
def Rules : Contract LifecycleCall CallPhase where
  may phase _ call := CallPhase.Permits phase call
  step phase _ call reply phase' := phase' = phase.after call reply

/-- What is left of a call keeps to the order, and comes to its end. -/
def Obeys (program : Prog LifecycleCall (Except QmlError Unit)) (phase : CallPhase) : Prop :=
  program.wp Rules (fun _ phase => phase = .returned) phase

variable {config : StartConfig} {token : Nat} {spawned : List Loop} {phase : CallPhase} {α ρ : Type}
  {Q : α → CallPhase → Prop}

theorem wp_rules {call : LifecycleCall ρ} {k : ρ → Prog LifecycleCall α} :
    Prog.wp Rules Q (.call call k) phase ↔ phase.Permits call ∧
      ∀ reply, Prog.wp Rules Q (k reply) (phase.after call reply) := by
  rw [Prog.wp_call]
  exact ⟨fun h => ⟨h.1, fun reply => h.2 reply _ rfl⟩, fun h => ⟨h.1, fun r t he => he ▸ h.2 r⟩⟩

theorem workers_nodup (config : StartConfig) (name : String) : (workers config name).Nodup :=
  List.nodup_range.map fun n m h => by
    cases h
    rfl

theorem mem_workers {name : String} {loop : Loop} (h : loop ∈ workers config name) :
    ∃ n, loop = .worker n name := by
  obtain ⟨n, -, rfl⟩ := List.mem_map.mp h
  exact ⟨n, rfl⟩

/-- A loop that is not spawned yet is spawned at most once. -/
theorem spawnLoop_obeys (enabled : Bool) {loop : Loop} {k : Unit → Prog LifecycleCall α}
    (hnew : loop ∉ spawned)
    (hk : ∀ spawned', (∀ l ∈ spawned', l = loop ∨ l ∈ spawned) →
      Prog.wp Rules Q (k ()) (.spawning token spawned' none)) :
    Prog.wp Rules Q (spawnLoop enabled loop token >>= k) (.spawning token spawned none) := by
  cases enabled with
  | false => exact hk spawned fun l hl => .inr hl
  | true =>
    exact wp_rules.mpr ⟨.spawn hnew, fun handle => wp_rules.mpr ⟨.keep token _ handle, fun _ =>
      hk (loop :: spawned) fun l hl => List.mem_cons.mp hl⟩⟩

theorem startWorkers_obeys {name : String} (hnew : ∀ n, .worker n name ∉ spawned) :
    Obeys (.call (.startWorkers (workers config name) token) fun _ => .pure (.ok ()))
      (.spawning token spawned none) := by
  refine wp_rules.mpr ⟨.startWorkers (workers_nodup config name) fun loop hloop => ?_, fun _ => rfl⟩
  obtain ⟨n, rfl⟩ := mem_workers hloop
  exact hnew n

theorem spawnLoops_obeys (config : StartConfig) (token : Nat) (id : Option String) :
    Obeys (spawnLoops config token id) (.spawning token [] none) := by
  refine spawnLoop_obeys _ List.not_mem_nil fun first hfirst => ?_
  have hfirst : ∀ l ∈ first, l = .scheduler := fun l hl => by simpa using hfirst l hl
  refine spawnLoop_obeys _ (fun hl => by cases hfirst _ hl) fun second hsecond => ?_
  have hsecond : ∀ l ∈ second, l = .scheduler ∨ l = .recurring := fun l hl =>
    (hsecond l hl).symm.imp_left (hfirst l)
  refine spawnLoop_obeys _ (fun hl => by rcases hsecond _ hl with h | h <;> cases h)
    fun third hthird => ?_
  have hthird : ∀ l ∈ third, l = .cleanup ∨ l = .scheduler ∨ l = .recurring := fun l hl =>
    (hthird l hl).imp_right (hsecond l)
  cases id with
  | none => exact startWorkers_obeys fun n hl => by rcases hthird _ hl with h | h | h <;> cases h
  | some id =>
    refine spawnLoop_obeys true (fun hl => by rcases hthird _ hl with h | h | h <;> cases h)
      fun fourth hfourth => startWorkers_obeys fun n hl => ?_
    rcases hfourth _ hl with h | hl
    · cases h
    · rcases hthird _ hl with h | h | h <;> cases h

theorem start_obeys (config : StartConfig) : Obeys (start config) .outside := by
  refine wp_rules.mpr ⟨.lock, fun isRunning => ?_⟩
  cases isRunning with
  | true => exact wp_rules.mpr ⟨.refuse true, fun _ => rfl⟩
  | false =>
    refine wp_rules.mpr ⟨.now _, fun now => wp_rules.mpr ⟨.requeue .., fun _ =>
      wp_rules.mpr ⟨.renew, fun token => ?_⟩⟩⟩
    by_cases hheartbeat : config.enableHeartbeat = true
    · simp only [hheartbeat, if_true]
      refine wp_rules.mpr ⟨.newUuid _, fun uuid => wp_rules.mpr ⟨.now _, fun now =>
        wp_rules.mpr ⟨.register .., fun reply => ?_⟩⟩⟩
      cases reply with
      | error e => exact wp_rules.mpr ⟨.giveUp token, fun _ => rfl⟩
      | ok _ =>
        exact wp_rules.mpr ⟨.publishSome token _, fun _ =>
          spawnLoops_obeys config token (some (config.serverName ++ "#" ++ uuid))⟩
    · simp only [hheartbeat]
      exact wp_rules.mpr ⟨.publishNone token, fun _ => spawnLoops_obeys config token none⟩

theorem drain_obeys : Obeys drain .left := by
  refine wp_rules.mpr ⟨.takeHandles, fun handles => wp_rules.mpr ⟨.join handles, fun joined => ?_⟩⟩
  cases joined with
  | true => rfl
  | false => exact wp_rules.mpr ⟨.abort handles, fun _ => rfl⟩

theorem stop_obeys : Obeys stop .outside := by
  refine wp_rules.mpr ⟨.lock, fun isRunning => ?_⟩
  cases isRunning with
  | false => exact wp_rules.mpr ⟨.refuse false, fun _ => rfl⟩
  | true =>
    refine wp_rules.mpr ⟨.shutDown, fun _ => wp_rules.mpr ⟨.takeId, fun id => ?_⟩⟩
    cases id with
    | none => exact drain_obeys
    | some id => exact wp_rules.mpr ⟨.deregister id, fun _ => drain_obeys⟩

end Lifecycle
end Qml
