import Qml.Memory.Storage

namespace Qml
open Lib

/-- The critical sections of the in-memory backend. A method that takes its
locks twice is two sections, and other tasks may run between them. -/
inductive Section : Type → Type
  | get (jobId : String) : Section (Except StorageError (Option Job))
  | update (job : Job) : Section (Except StorageError Unit)
  | updateIfState (job : Job) (expected : JobStateKind) : Section (Except StorageError Bool)
  | delete (jobId : String) : Section (Except StorageError Bool)
  | isAtCapacity : Section Bool
  | len : Section Nat
  | insertJob (job : Job) : Section (Except StorageError Unit)
  | claimDueScheduledJobs (now : DateTime) (limit : Nat) : Section (Except StorageError (List Job))
  | claimDueRetryJobs (now : DateTime) (limit : Nat) : Section (Except StorageError (List Job))
  | deleteExpiredJobs (now : DateTime) : Section (Except StorageError Nat)
  | requeueStrandedJobs (staleBefore : DateTime) : Section (Except StorageError Nat)
  | cleanupExpiredLocks : Section Unit
  | lockAvailableJob (workerId : String) (queues : Option (List String)) :
      Section (Except StorageError (Option Job))
  | acquireJobLock (jobId workerId : String) (timeoutSeconds : UInt64) :
      Section (Except StorageError Bool)
  | releaseJobLock (jobId workerId : String) : Section (Except StorageError Bool)
  | registerServer (info : ServerInfo) : Section (Except StorageError Unit)
  | heartbeatServer (serverId : String) (now : DateTime) : Section (Except StorageError Bool)
  | deregisterServer (serverId : String) : Section (Except StorageError Bool)
  | listDeadServers (staleBefore : DateTime) : Section (Except StorageError (List ServerInfo))
  | reclaimJobsFromServer (serverId : String) : Section (Except StorageError Nat)
  | cleanupExpiredNamedLocks (now : DateTime) : Section (Except StorageError Nat)

/-- What a section reads from outside the storage: the clock, and the order in
which the hash maps happen to be iterated. -/
structure Reading where
  now : DateTime
  fetch : FetchClock
  stamp : String → DateTime
  order : List String

/-- Run one section. `none` is a panic. -/
def Section.perform (env : Reading) (s : MemoryStorage) : Section ρ → Option (ρ × MemoryStorage)
  | .get jobId => some (.ok (s.get jobId), s)
  | .update job => some (s.update job)
  | .updateIfState job expected => some (s.updateIfState job expected)
  | .delete jobId => some ((s.delete jobId).map .ok id)
  | .isAtCapacity => some (s.isAtCapacity, s)
  | .len => some (s.len, s)
  | .insertJob job => some (.ok (), s.insertJob job)
  | .claimDueScheduledJobs now limit =>
      some (((s.reorder env.order).claimDueScheduledJobs now limit env.stamp).map .ok id)
  | .claimDueRetryJobs now limit =>
      some (((s.reorder env.order).claimDueRetryJobs now limit env.stamp).map .ok id)
  | .deleteExpiredJobs now => some ((s.deleteExpiredJobs now).map .ok id)
  | .requeueStrandedJobs staleBefore =>
      some ((s.requeueStrandedJobs staleBefore env.stamp).map .ok id)
  | .cleanupExpiredLocks => some ((), s.cleanupExpiredLocks env.now)
  | .lockAvailableJob workerId queues =>
      some (((s.reorder env.order).lockAvailableJob workerId queues env.fetch).map .ok id)
  | .acquireJobLock jobId workerId timeoutSeconds =>
      (s.acquireJobLock jobId workerId timeoutSeconds env.now).map (Prod.map .ok id)
  | .releaseJobLock jobId workerId => some ((s.releaseJobLock jobId workerId).map .ok id)
  | .registerServer info => some (.ok (), s.registerServer info)
  | .heartbeatServer serverId now => some ((s.heartbeatServer serverId now).map .ok id)
  | .deregisterServer serverId => some ((s.deregisterServer serverId).map .ok id)
  | .listDeadServers staleBefore =>
      some (.ok ((s.reorder env.order).listDeadServers staleBefore), s)
  | .reclaimJobsFromServer serverId =>
      some ((s.reclaimJobsFromServer serverId env.stamp).map .ok id)
  | .cleanupExpiredNamedLocks now => some ((s.cleanupExpiredNamedLocks now).map .ok id)

end Qml
