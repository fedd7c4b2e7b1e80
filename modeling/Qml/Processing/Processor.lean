import Qml.Processing.Retry

namespace Qml
open Lib Call

/-- What a processor is configured with. The worker registry answers which
methods have a worker; the worker itself is reached through `Call.execute`. -/
structure JobProcessor where
  workerRegistry : String → Bool
  retryPolicy : RetryPolicy
  workerConfig : WorkerConfig
  succeededTtl : Duration
  failedTtl : Duration
  onStateChange : Bool

namespace JobProcessor

def fireStateChangeHook (p : JobProcessor) (job : Job) (previous : JobState) : Prog Call Unit :=
  if p.onStateChange then .ask (.hook job previous) else pure ()

def applyStateChange (p : JobProcessor) (job : Job) (newState : JobState) :
    Prog Call (Except QmlError Job) :=
  match job.setState newState with
  | .error e => pure (.error e)
  | .ok changed => do
    p.fireStateChangeHook changed job.state
    return .ok changed

/-- `self.storage.update(job).await`, with the error a processor returns. -/
def save (job : Job) : Prog Call (Except QmlError Unit) := do
  let saved ← enter (.update job)
  return saved.mapError QmlError.ofStorage

/-- The attempt that just ran was number `job.attempt`; both limits are checked
against it. -/
def shouldRetryAttempt (p : JobProcessor) (job : Job) (exceptionType : Option String) : Bool :=
  if job.maxRetries > 0 && job.attempt > job.maxRetries then false
  else p.retryPolicy.shouldRetry exceptionType job.attempt

def extractPreviousException (job : Job) : Option String :=
  match job.state with
  | .awaitingRetry _ _ lastException => some lastException
  | .failed _ exception _ => some exception
  | _ => none

/-- `for (key, value) in metadata { job.add_metadata(format!("exec_{}", key), value) }`. -/
def addExecutionMetadata (job : Job) (metadata : List (String × String)) : Job :=
  metadata.foldl (fun job entry => job.addMetadata ("exec_" ++ entry.1) entry.2) job

def completeJobSuccessfully (p : JobProcessor) (job : Job) (result : Option String)
    (durationMs : UInt64) (metadata : Dict String String) : Prog Call (Except QmlError Unit) :=
  if job.state.isFinal then pure (.ok ())
  else do
    let now ← readNow
    match ← p.applyStateChange job (.succeeded now durationMs result) with
    | .error e => return .error e
    | .ok job =>
      let expiresAt ← fromNow p.succeededTtl
      save (addExecutionMetadata { job with expiresAt := some expiresAt } metadata.entries)

def failJobPermanently (p : JobProcessor) (job : Job) (error : String)
    (stackTrace : Option String) : Prog Call (Except QmlError Unit) :=
  if job.state.isFinal then pure (.ok ())
  else do
    let now ← readNow
    match ← p.applyStateChange job (.failed now error stackTrace) with
    | .error e => return .error e
    | .ok job =>
      let expiresAt ← fromNow p.failedTtl
      save { job with expiresAt := some expiresAt }

/-- The time the worker asked for, else the policy's, else a minute from now. -/
def retryTime (p : JobProcessor) (attempt : UInt32) (retryAt : Option DateTime) :
    Prog Call DateTime := do
  match retryAt with
  | some t => return t
  | none =>
    match ← p.retryPolicy.calculateRetryTime attempt with
    | some t => return t
    | none => fromNow (Duration.seconds 60)

def handleJobRetry (p : JobProcessor) (job : Job) (error : String)
    (retryAt : Option DateTime) : Prog Call (Except QmlError Unit) :=
  if job.state.isFinal then pure (.ok ())
  else if !p.shouldRetryAttempt job none then p.failJobPermanently job error none
  else do
    let retryAt ← p.retryTime job.attempt retryAt
    let now ← readNow
    match job.setState (.awaitingRetry now retryAt error) with
    | .error e => return .error e
    | .ok changed =>
      p.fireStateChangeHook changed job.state
      save changed

def handleJobTimeout (p : JobProcessor) (job : Job) : Prog Call (Except QmlError Unit) :=
  let timeoutError := "Job timed out after " ++ Duration.debug p.workerConfig.jobTimeout
  if p.shouldRetryAttempt job (some "TimeoutError") then p.handleJobRetry job timeoutError none
  else p.failJobPermanently job timeoutError none

/-- The exception-type name a policy is asked about. -/
def errorType : QmlError → String
  | .storageError _ => "StorageError"
  | .workerError _ => "WorkerError"
  | .timeoutError _ => "TimeoutError"
  | _ => "UnknownError"

def handleExecutionError (p : JobProcessor) (job : Job) (error : QmlError) :
    Prog Call (Except QmlError Unit) :=
  if p.shouldRetryAttempt job (some (errorType error)) then
    p.handleJobRetry job error.display none
  else p.failJobPermanently job error.display none

/-- Move a job that is not yet `Processing` there and store it. -/
def ensureProcessing (p : JobProcessor) (job : Job) : Prog Call (Except QmlError Job) :=
  match job.state with
  | .processing .. => pure (.ok job)
  | _ => do
    let now ← readNow
    match ← p.applyStateChange job
        (.processing now p.workerConfig.workerId p.workerConfig.serverName) with
    | .error e => return .error e
    | .ok job =>
      match ← save job with
      | .error e => return .error e
      | .ok () => return .ok job

def workerContext (p : JobProcessor) (job : Job) : Prog Call WorkerContext := do
  let now ← readNow
  return if job.attempt > 1 then
      .retryFrom p.workerConfig now job.attempt (extractPreviousException job)
    else .new p.workerConfig now

/-- What follows once the execution has ended. -/
def conclude (p : JobProcessor) (job : Job) (startTime : DateTime) :
    Execution → Prog Call (Except QmlError Unit)
  | .elapsed => p.handleJobTimeout job
  | .finished outcome => do
    let now ← readNow
    let duration := UInt64.ofInt (Duration.numMilliseconds (now - startTime))
    match outcome with
    | .ok (.success result _ metadata) => p.completeJobSuccessfully job result duration metadata
    | .ok (.retry error _ retryAt _) => p.handleJobRetry job error retryAt
    | .ok (.failure error _ _) => p.failJobPermanently job error none
    | .error e => p.handleExecutionError job e

/-- Execute the job under the job timeout and store what came of it. -/
def execute (p : JobProcessor) (job : Job) : Prog Call (Except QmlError Unit) := do
  let context ← p.workerContext job
  let startTime ← readNow
  if p.workerConfig.jobTimeout < 0 then
    unwind "called \x60Result::unwrap()\x60 on an \x60Err\x60 value: OutOfRangeError(())"
  else
    .ask (.execute job context)
    let execution ← .ask .await
    p.conclude job startTime execution

def processJob (p : JobProcessor) (job : Job) : Prog Call (Except QmlError Unit) :=
  let job := { job with attempt := Job.bump job.attempt }
  if !p.workerRegistry job.method then
    p.failJobPermanently job ("No worker registered for method: " ++ job.method) none
  else do
    match ← p.ensureProcessing job with
    | .error e => return .error e
    | .ok job => p.execute job

end JobProcessor
end Qml
