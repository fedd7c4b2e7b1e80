import Mathlib.Logic.Basic

namespace Qml

/-- The errors the library hands to its callers. -/
inductive QmlError
  | jobNotFound (jobId : String)
  | serializationError (message : String)
  | storageError (message : String)
  | invalidStateTransition (source target : String)
  | invalidJobData (message : String)
  | queueError (message : String)
  | workerError (message : String)
  | configurationError (message : String)
  | timeoutError (operation : String)
  | migrationError (message : String)
  deriving DecidableEq, Repr

def QmlError.display : QmlError → String
  | .jobNotFound jobId => "Job not found: " ++ jobId
  | .serializationError message => "Serialization failed: " ++ message
  | .storageError message => "Storage error: " ++ message
  | .invalidStateTransition source target =>
      "Invalid state transition from " ++ source ++ " to " ++ target
  | .invalidJobData message => "Invalid job data: " ++ message
  | .queueError message => "Queue operation failed: " ++ message
  | .workerError message => "Worker error: " ++ message
  | .configurationError message => "Configuration error: " ++ message
  | .timeoutError operation => "Operation timed out: " ++ operation
  | .migrationError message => "Migration error: " ++ message

/-- The errors of a storage backend, without the driver error behind them. -/
inductive StorageError
  | connection (message : String)
  | serialization (message : String)
  | deserialization (message : String)
  | jobNotFound (jobId : String)
  | timeout (timeoutMs : UInt64)
  | unavailable (reason : String)
  | configuration (message : String)
  | operationFailed (message : String)
  | capacityExceeded (message : String)
  | concurrentModification (jobId : String)
  | migrationError (message : String)
  | invalidJobData (message : String)
  deriving DecidableEq, Repr

def StorageError.display : StorageError → String
  | .connection message => "Storage connection error: " ++ message
  | .serialization message => "Serialization error: " ++ message
  | .deserialization message => "Deserialization error: " ++ message
  | .jobNotFound jobId => "Job not found: " ++ jobId
  | .timeout timeoutMs => "Storage operation timed out after " ++ toString timeoutMs ++ "ms"
  | .unavailable reason => "Storage is unavailable: " ++ reason
  | .configuration message => "Storage configuration error: " ++ message
  | .operationFailed message => "Storage operation failed: " ++ message
  | .capacityExceeded message => "Storage capacity exceeded: " ++ message
  | .concurrentModification jobId => "Concurrent modification detected for job: " ++ jobId
  | .migrationError message => "Migration error: " ++ message
  | .invalidJobData message => "Invalid job data: " ++ message

/-- How a storage error surfaces once it leaves the storage layer. -/
def QmlError.ofStorage : StorageError → QmlError
  | .jobNotFound jobId => .jobNotFound jobId
  | .serialization message => .serializationError message
  | .deserialization message => .serializationError message
  | err => .storageError err.display

end Qml
