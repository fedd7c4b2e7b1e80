import Qml.Core.Job

namespace Qml
open Lib

structure WorkerConfig where
  workerId : String
  serverName : String
  queues : List String
  jobTimeout : Duration
  pollingInterval : Duration

/-- What a worker is told about the execution it runs. -/
structure WorkerContext where
  config : WorkerConfig
  startedAt : DateTime
  executionMetadata : Dict String String
  attempt : UInt32
  previousException : Option String

namespace WorkerContext

/-- `WorkerContext::new`. -/
def new (config : WorkerConfig) (now : DateTime) : WorkerContext :=
  ⟨config, now, .empty, 1, none⟩

def retryFrom (config : WorkerConfig) (now : DateTime) (attempt : UInt32)
    (previousException : Option String) : WorkerContext :=
  ⟨config, now, .empty, attempt, previousException⟩

end WorkerContext

inductive WorkerResult
  | success (result : Option String) (durationMs : UInt64) (metadata : Dict String String)
  | retry (error : String) (stackTrace : Option String) (retryAt : Option DateTime)
      (context : Dict String String)
  | failure (error : String) (stackTrace : Option String) (context : Dict String String)

/-- How the middleware stack around a worker ended: cut off by the job timeout,
or with whatever the worker returned. -/
inductive Execution
  | elapsed
  | finished (result : Except QmlError WorkerResult)

end Qml
