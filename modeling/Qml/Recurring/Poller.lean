import Qml.Core.Job
import Qml.Core.Recurring
import Qml.Lib.Prog

namespace Qml
open Lib

/-- What the recurring-job code may do between two of its own pure computations:
read the clock, draw an identifier, or call one method of its storage. -/
inductive RecurringCall : Type → Type
  | now : RecurringCall DateTime
  | newId : RecurringCall String
  | fetchDueRecurringJobs (now : DateTime) (limit : Nat) :
      RecurringCall (Except StorageError (List RecurringJob))
  | enqueue (job : Job) : RecurringCall (Except StorageError Unit)
  | upsertRecurringJob (r : RecurringJob) : RecurringCall (Except StorageError Unit)
  | removeRecurringJob (id : String) : RecurringCall (Except StorageError Bool)

namespace RecurringCall

/-- `Utc::now()`. -/
def readNow : Prog RecurringCall DateTime := .ask .now

end RecurringCall

open RecurringCall

/-- `advance`, which reads the clock once it has found the next occurrence. -/
def RecurringJob.advance (cron : Cron) (r : RecurringJob) (start : DateTime) :
    Prog RecurringCall (Except QmlError RecurringJob) :=
  match nextAfter cron r.cron start with
  | .error e => return .error e
  | .ok nextRunAt => do
    let now ← readNow
    return .ok (r.moveTo nextRunAt now)

namespace RecurringJobPoller

/-- Materialize the claimed templates one after the other. Failures are logged. -/
def fire (cron : Cron) (now : DateTime) : List RecurringJob → Prog RecurringCall Unit
  | [] => pure ()
  | r :: rest => do
    let jobId ← .ask .newId
    let createdAt ← readNow
    let _ ← .ask (.enqueue (.withConfig jobId createdAt r.method r.payload r.queue 0 0))
    let r := { r with lastRunAt := some now }
    let advanced ← r.advance cron now
    let r := match advanced with
      | .ok r => r
      | .error _ => { r with enabled := false }
    let _ ← .ask (.upsertRecurringJob r)
    fire cron now rest

def tickOnce (cron : Cron) (batchSize : Nat) : Prog RecurringCall (Except QmlError Nat) := do
  let now ← readNow
  match ← .ask (.fetchDueRecurringJobs now batchSize) with
  | .error e =>
    return .error (.storageError ("Failed to fetch due recurring jobs: " ++ e.display))
  | .ok due => do
    fire cron now due
    return .ok due.length

/-- The poll loop, cancelled before its round number `rounds`. -/
def run (cron : Cron) (batchSize : Nat) : Nat → Prog RecurringCall Unit
  | 0 => pure ()
  | rounds + 1 => do
    let _ ← tickOnce cron batchSize
    run cron batchSize rounds

end RecurringJobPoller

namespace BackgroundJobServer

def scheduleRecurring (cron : Cron) (id expr method : String) (payload : JsonValue)
    (queue : String) : Prog RecurringCall (Except QmlError Unit) := do
  let start ← readNow
  let now ← readNow
  match RecurringJob.new cron id expr method payload queue start now with
  | .error e => return .error e
  | .ok recurring =>
    match ← .ask (.upsertRecurringJob recurring) with
    | .error e =>
      return .error (.storageError ("Failed to upsert recurring job: " ++ e.display))
    | .ok () => return .ok ()

def removeRecurring (id : String) : Prog RecurringCall (Except QmlError Bool) := do
  match ← .ask (.removeRecurringJob id) with
  | .error e => return .error (.storageError ("Failed to remove recurring job: " ++ e.display))
  | .ok removed => return .ok removed

end BackgroundJobServer

/-- The tasks that work on the templates. -/
inductive Duty
  | poller (batchSize rounds : Nat)
  | scheduleRecurring (id expr method : String) (payload : JsonValue) (queue : String)
  | removeRecurring (id : String)

/-- What a task comes to. -/
inductive Duty.Answer
  | polled
  | scheduled (result : Except QmlError Unit)
  | removed (result : Except QmlError Bool)

def Duty.program (cron : Cron) : Duty → Prog RecurringCall Duty.Answer
  | .poller batchSize rounds => do
      RecurringJobPoller.run cron batchSize rounds
      return .polled
  | .scheduleRecurring id expr method payload queue =>
      return .scheduled (← BackgroundJobServer.scheduleRecurring cron id expr method payload queue)
  | .removeRecurring id => return .removed (← BackgroundJobServer.removeRecurring id)

end Qml
