import Qml.Memory.Methods
import Qml.Processing.Processor

namespace Qml
open Lib Call

/-- The part of a server's configuration its tasks read. -/
structure ServerConfig where
  serverName : String
  workerCount : Nat
  queues : List String
  jobTimeout : Duration
  pollingInterval : Duration
  staleProcessingAfter : Duration
  succeededTtl : Duration
  failedTtl : Duration
  enableHeartbeat : Bool
  deadServerTimeout : Duration

/-- `ServerConfig::default`. -/
def ServerConfig.default : ServerConfig where
  serverName := "qml-server"
  workerCount := 5
  queues := ["default"]
  jobTimeout := Duration.minutes 5
  pollingInterval := Duration.seconds 1
  staleProcessingAfter := Duration.minutes 5
  succeededTtl := Duration.hours 24
  failedTtl := Duration.days 7
  enableHeartbeat := false
  deadServerTimeout := Duration.seconds 60

structure BackgroundJobServer where
  config : ServerConfig
  workerRegistry : String → Bool
  retryPolicy : RetryPolicy
  onStateChange : Bool

namespace BackgroundJobServer

/-- `BackgroundJobServer::new`. -/
def new (config : ServerConfig) (workerRegistry : String → Bool) : BackgroundJobServer :=
  ⟨config, workerRegistry, .default, false⟩

/-- The processor of worker number `n`, as `start_workers` builds it. -/
def processor (server : BackgroundJobServer) (stampedServerName : String) (n : Nat) :
    JobProcessor where
  workerRegistry := server.workerRegistry
  retryPolicy := server.retryPolicy
  workerConfig :=
    { workerId := server.config.serverName ++ ":worker:" ++ toString n
      serverName := stampedServerName
      queues := server.config.queues
      jobTimeout := server.config.jobTimeout
      pollingInterval := server.config.pollingInterval }
  succeededTtl := server.config.succeededTtl
  failedTtl := server.config.failedTtl
  onStateChange := server.onStateChange

/-- The storage work of `start`, before the tasks are spawned. -/
def start (server : BackgroundJobServer) (serverId : String) :
    Prog Call (Except QmlError Unit) := do
  let now ← readNow
  let staleBefore ← plus now (-server.config.staleProcessingAfter)
  let _ ← enter (.requeueStrandedJobs staleBefore)
  if server.config.enableHeartbeat then
    let now ← readNow
    let info : ServerInfo := ⟨serverId, server.config.serverName, now, now,
      UInt32.ofNat server.config.workerCount, server.config.queues⟩
    match ← enter (.registerServer info) with
    | .error e =>
      return .error (.storageError ("Failed to register server heartbeat: " ++ e.display))
    | .ok () => return .ok ()
  else return .ok ()

end BackgroundJobServer

/-- One round of `worker_loop`: claim a job and process it. -/
def workerTick (p : JobProcessor) (queues : List String) : Prog Call Unit := do
  let filter := if queues.isEmpty then none else some queues
  match ← MemoryStorage.fetchAndLockJob p.workerConfig.workerId filter with
  | .ok (some job) =>
    let _ ← p.processJob job
    return ()
  | .ok none => return ()
  | .error _ => return ()

namespace JobScheduler

def processDueJobs (kind : String)
    (claim : DateTime → Section (Except StorageError (List Job))) :
    Prog Call (Except QmlError Unit) := do
  let now ← readNow
  match ← enter (claim now) with
  | .error e =>
    return .error (.storageError ("Failed to claim due " ++ kind ++ " jobs: " ++ e.display))
  | .ok _ => return .ok ()

/-- One round of the scheduler loop, which only logs an error. -/
def tick (batchSize : Nat) : Prog Call Unit := do
  let _ ← processDueJobs "scheduled" fun now => .claimDueScheduledJobs now batchSize
  let _ ← processDueJobs "retry" fun now => .claimDueRetryJobs now batchSize
  return ()

def scheduleJob (job : Job) (executeAt : DateTime) (reason : String) :
    Prog Call (Except QmlError Unit) := do
  let now ← readNow
  match job.setState (.scheduled now executeAt reason) with
  | .error e => return .error e
  | .ok job =>
    match ← MemoryStorage.enqueue job with
    | .error e => return .error (.storageError ("Failed to schedule job: " ++ e.display))
    | .ok () => return .ok ()

end JobScheduler

namespace HeartbeatWorker

/-- Reclaim and deregister the dead peers one after the other. -/
def reclaimPeers (serverId : String) : List ServerInfo → Prog Call Unit
  | [] => pure ()
  | peer :: peers =>
    if peer.serverId = serverId then reclaimPeers serverId peers
    else do
      match ← enter (.reclaimJobsFromServer peer.serverId) with
      | .error _ => reclaimPeers serverId peers
      | .ok _ => do
        let _ ← enter (.deregisterServer peer.serverId)
        reclaimPeers serverId peers

def bumpAndScan (serverId : String) (deadServerTimeout : Duration) :
    Prog Call (Except QmlError Unit) := do
  let now ← readNow
  match ← enter (.heartbeatServer serverId now) with
  | .error e => return .error (.storageError ("Heartbeat bump failed: " ++ e.display))
  | .ok _ =>
    let staleBefore ← plus now (-deadServerTimeout)
    match ← enter (.listDeadServers staleBefore) with
    | .error e => return .error (.storageError ("list_dead_servers failed: " ++ e.display))
    | .ok dead =>
      reclaimPeers serverId dead
      return .ok ()

end HeartbeatWorker

namespace CleanupWorker

def sweepOnce : Prog Call (Except QmlError Nat) := do
  let now ← readNow
  match ← enter (.deleteExpiredJobs now) with
  | .error e => return .error (.storageError ("Failed to delete expired jobs: " ++ e.display))
  | .ok removed =>
    let _ ← enter (.cleanupExpiredNamedLocks now)
    return .ok removed

end CleanupWorker

namespace DashboardService

/-- Put a failed job back; `false` when there is nothing to retry. -/
def retryJob (jobId : String) : Prog Call (Except QmlError Bool) := do
  match ← enter (.get jobId) with
  | .error e => return .error (.storageError e.display)
  | .ok none => return .ok false
  | .ok (some job) =>
    match job.state with
    | .failed .. =>
      let now ← readNow
      let retried ← enter (.updateIfState { job with state := .enqueued now job.queue } .failed)
      return retried.mapError fun e => .storageError e.display
    | _ => return .ok false

def deleteJob (jobId : String) : Prog Call (Except QmlError Bool) := do
  let deleted ← enter (.delete jobId)
  return deleted.mapError fun e => .storageError e.display

end DashboardService

/-- A polling loop that is cancelled before its round number `rounds`. -/
def polling (tick : Prog Call Unit) : Nat → Prog Call Unit
  | 0 => pure ()
  | rounds + 1 => do
    tick
    polling tick rounds

/-- The tasks that share one storage. -/
inductive Routine
  | worker (p : JobProcessor) (queues : List String) (rounds : Nat)
  | scheduler (batchSize rounds : Nat)
  | heartbeat (serverId : String) (deadServerTimeout : Duration) (rounds : Nat)
  | cleanup (rounds : Nat)
  | start (server : BackgroundJobServer) (serverId : String)
  | retryJob (jobId : String)
  | deleteJob (jobId : String)
  | enqueue (job : Job)
  | schedule (job : Job) (executeAt : DateTime) (reason : String)

/-- The loop of worker number `n` that `start_workers` spawns. -/
def BackgroundJobServer.worker (server : BackgroundJobServer) (stampedServerName : String)
    (n rounds : Nat) : Routine :=
  .worker (server.processor stampedServerName n) server.config.queues rounds

/-- Run a program for its effects. -/
def discard (program : Prog Call α) : Prog Call Unit := do
  let _ ← program
  return ()

def Routine.program : Routine → Prog Call Unit
  | .worker p queues rounds => polling (workerTick p queues) rounds
  | .scheduler batchSize rounds => polling (JobScheduler.tick batchSize) rounds
  | .heartbeat serverId deadServerTimeout rounds =>
      polling (discard (HeartbeatWorker.bumpAndScan serverId deadServerTimeout)) rounds
  | .cleanup rounds => polling (discard CleanupWorker.sweepOnce) rounds
  | .start server serverId => discard (server.start serverId)
  | .retryJob jobId => discard (DashboardService.retryJob jobId)
  | .deleteJob jobId => discard (DashboardService.deleteJob jobId)
  | .enqueue job => discard (MemoryStorage.enqueue job)
  | .schedule job executeAt reason => discard (JobScheduler.scheduleJob job executeAt reason)

end Qml
