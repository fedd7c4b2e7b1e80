import Qml.Processing.Calls

namespace Qml
open Lib Call

/-! Methods of the in-memory backend that are more than one critical section. -/

namespace MemoryStorage

def enqueue (job : Job) : Prog Call (Except StorageError Unit) := do
  if ← enter .isAtCapacity then
    let n ← enter .len
    return .error (.capacityExceeded ("Memory storage is at capacity (" ++ toString n ++ " jobs)"))
  else enter (.insertJob job)

def fetchAndLockJob (workerId : String) (queues : Option (List String)) :
    Prog Call (Except StorageError (Option Job)) := do
  enter .cleanupExpiredLocks
  enter (.lockAvailableJob workerId queues)

def tryAcquireJobLock (jobId workerId : String) (timeoutSeconds : UInt64) :
    Prog Call (Except StorageError Bool) := do
  enter .cleanupExpiredLocks
  enter (.acquireJobLock jobId workerId timeoutSeconds)

/-- Up to `n` more claims, after the jobs claimed so far. -/
def fetchUpTo (workerId : String) (queues : Option (List String)) :
    Nat → List Job → Prog Call (Except StorageError (List Job))
  | 0, jobs => pure (.ok jobs)
  | n + 1, jobs => do
    match ← fetchAndLockJob workerId queues with
    | .error e => return .error e
    | .ok none => return .ok jobs
    | .ok (some job) => fetchUpTo workerId queues n (jobs ++ [job])

def fetchAvailableJobsAtomic (workerId : String) (limit : Option Nat)
    (queues : Option (List String)) : Prog Call (Except StorageError (List Job)) :=
  fetchUpTo workerId queues (min (limit.getD 10) 100) []

end MemoryStorage
end Qml
