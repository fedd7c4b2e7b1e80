import Qml.Core.Error
import Qml.Memory.Listing

namespace Qml
open Lib

structure JobStatistics where
  totalJobs : Nat
  succeeded : Nat
  failed : Nat
  processing : Nat
  enqueued : Nat
  scheduled : Nat
  awaitingRetry : Nat
  deleted : Nat
  deriving DecidableEq, Repr

structure QueueStatistics where
  queueName : String
  enqueuedCount : Nat
  processingCount : Nat
  scheduledCount : Nat
  deriving DecidableEq, Repr

structure JobDetails where
  id : String
  methodName : String
  queue : String
  state : JobState
  createdAt : DateTime
  updatedAt : DateTime
  attempts : UInt32
  maxAttempts : UInt32
  errorMessage : Option String
  scheduledAt : Option DateTime
  durationMs : Option UInt64
  deriving DecidableEq, Repr

/-- What the dashboard reads of a storage. A panic is the outer `none`. -/
structure MonitoringApi where
  list : Option JobStateKind → Option UInt64 → Option UInt64 →
    Option (Except StorageError (List Job))
  getJobCounts : Option (Except StorageError (Dict JobStateKind Nat))

/-- A memory storage as the dashboard sees it; neither method has an error of its own. -/
def MemoryStorage.monitoring (s : MemoryStorage) (checks : Bool) : MonitoringApi where
  list stateFilter limit offset := (s.list checks stateFilter limit offset).map .ok
  getJobCounts := some (.ok s.getJobCounts)

namespace JobStatistics

def zero : JobStatistics := ⟨0, 0, 0, 0, 0, 0, 0, 0⟩

/-- More jobs in one state, in the field of that state. -/
def count (stats : JobStatistics) (kind : JobStateKind) (n : Nat) : JobStatistics :=
  match kind with
  | .enqueued => { stats with enqueued := stats.enqueued + n }
  | .processing => { stats with processing := stats.processing + n }
  | .succeeded => { stats with succeeded := stats.succeeded + n }
  | .failed => { stats with failed := stats.failed + n }
  | .scheduled => { stats with scheduled := stats.scheduled + n }
  | .awaitingRetry => { stats with awaitingRetry := stats.awaitingRetry + n }
  | .deleted => { stats with deleted := stats.deleted + n }

/-- The same, and in the total. -/
def add (stats : JobStatistics) (kind : JobStateKind) (n : Nat) : JobStatistics :=
  { stats.count kind n with totalJobs := stats.totalJobs + n }

end JobStatistics

namespace QueueStatistics

def zero (queueName : String) : QueueStatistics := ⟨queueName, 0, 0, 0⟩

def count (stats : QueueStatistics) (job : Job) : QueueStatistics :=
  match job.state with
  | .enqueued .. => { stats with enqueuedCount := stats.enqueuedCount + 1 }
  | .processing .. => { stats with processingCount := stats.processingCount + 1 }
  | .scheduled .. => { stats with scheduledCount := stats.scheduledCount + 1 }
  | _ => stats

end QueueStatistics

namespace DashboardService

def extractStateInfo : JobState → Option String × Option DateTime × Option UInt64
  | .failed _ exception _ => (some exception, none, none)
  | .succeeded _ totalDuration _ => (none, none, some totalDuration)
  | .scheduled _ enqueueAt _ => (none, some enqueueAt, none)
  | .awaitingRetry _ retryAt lastException => (some lastException, some retryAt, none)
  | _ => (none, none, none)

/-- The record that every query makes of a job. -/
def jobDetails (job : Job) : JobDetails :=
  let (errorMessage, scheduledAt, durationMs) := extractStateInfo job.state
  { id := job.id
    methodName := job.method
    queue := job.queue
    state := job.state
    createdAt := job.createdAt
    updatedAt := job.createdAt
    attempts := job.attempt
    maxAttempts := job.maxRetries
    errorMessage := errorMessage
    scheduledAt := scheduledAt
    durationMs := durationMs }

/-- `storage.list(..)` with the error it is reported as. -/
def listed (storage : MonitoringApi) (stateFilter : Option JobStateKind) (limit : UInt64) :
    Option (Except QmlError (List Job)) :=
  (storage.list stateFilter (some limit) none).map (·.mapError fun e => .storageError e.display)

def getJobStatistics (storage : MonitoringApi) : Option (Except QmlError JobStatistics) := do
  match ← storage.getJobCounts with
  | .ok counts =>
    return .ok (counts.entries.foldl (fun stats e => stats.add e.1 e.2) .zero)
  | .error _ =>
    -- the fallback looks at a sample of the jobs
    return (← listed storage none 100).map fun sampleJobs =>
      sampleJobs.foldl (fun stats job => stats.count job.state.kind 1)
        { JobStatistics.zero with totalJobs := sampleJobs.length }

def getQueueStatistics (storage : MonitoringApi) :
    Option (Except QmlError (List QueueStatistics)) := do
  return (← listed storage none 200).map fun jobs =>
    (Dict.group Job.queue .zero QueueStatistics.count jobs).values

def getRecentJobs (storage : MonitoringApi) (limit : Option UInt64) :
    Option (Except QmlError (List JobDetails)) := do
  return (← listed storage none (limit.getD 50)).map (·.map jobDetails)

def getJobsByState (storage : MonitoringApi) (kind : JobStateKind) :
    Option (Except QmlError (List JobDetails)) := do
  return (← listed storage (some kind) 100).map (·.map jobDetails)

variable {s : MemoryStorage} {checks : Bool}

/-- The memory storage gives the newest jobs. -/
theorem listed_memory (stateFilter : Option JobStateKind) (limit : UInt64) :
    listed (s.monitoring checks) stateFilter limit =
      some (.ok ((s.newest stateFilter).take limit.toNat)) := by
  have hlist : (s.monitoring checks).list stateFilter (some limit) none =
      some (.ok ((s.newest stateFilter).take limit.toNat)) :=
    congrArg (Option.map Except.ok) (MemoryStorage.list_first limit)
  rw [listed, hlist]
  rfl

end DashboardService
end Qml
