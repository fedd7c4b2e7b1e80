import Qml.Core.Job

namespace Qml

namespace PostgresStorage
open Lib

/-- The lowercase `state_name` column value of a state. -/
def jobStateKindToName : JobStateKind → String
  | .enqueued => "enqueued"
  | .processing => "processing"
  | .succeeded => "succeeded"
  | .failed => "failed"
  | .deleted => "deleted"
  | .scheduled => "scheduled"
  | .awaitingRetry => "awaiting_retry"

def jobStateToName (state : JobState) : String := jobStateKindToName state.kind

/-- A row of the jobs table. The integer columns are 32 bits wide; `state_data`
is kept as the state it is the JSON of. Every statement of the backend writes
both state columns from one state, so a row that mixes two cannot be built. -/
structure Row where
  id : String
  methodName : String
  arguments : JsonValue
  createdAt : DateTime
  stateName : String
  stateData : JobState
  queueName : String
  priority : Int
  maxRetries : Int32
  currentRetries : Int32
  metadata : Option (Dict String String)
  jobType : Option String
  timeoutSeconds : Option Int32
  expiresAt : Option DateTime
  lockedBy : Option String
  lockExpiresAt : Option DateTime
  named : stateName = jobStateToName stateData

namespace Row

/-- The row that `enqueue` inserts: the values it binds for a job, cast as it casts
them, and the defaults of the lock columns. -/
def ofJob (job : Job) : Row where
  id := job.id
  methodName := job.method
  arguments := job.payload
  createdAt := job.createdAt
  stateName := jobStateToName job.state
  stateData := job.state
  queueName := job.queue
  priority := job.priority
  maxRetries := job.maxRetries.toInt32
  currentRetries := job.attempt.toInt32
  metadata := if job.metadata.size = 0 then none else some job.metadata
  jobType := job.jobType
  timeoutSeconds := job.timeoutSeconds.map fun t => t.toUInt32.toInt32
  expiresAt := job.expiresAt
  lockedBy := none
  lockExpiresAt := none
  named := rfl

/-- `row_to_job`. -/
def toJob (row : Row) : Job where
  id := row.id
  method := row.methodName
  payload := row.arguments
  createdAt := row.createdAt
  state := row.stateData
  queue := row.queueName
  priority := row.priority
  maxRetries := row.maxRetries.toUInt32
  attempt := (max row.currentRetries 0).toUInt32
  metadata := row.metadata.getD .empty
  jobType := row.jobType
  timeoutSeconds := row.timeoutSeconds.map fun t => t.toInt64.toUInt64
  expiresAt := row.expiresAt

/-- `SET state_name = $1, state_data = $2`. -/
def setState (row : Row) (state : JobState) : Row :=
  { row with stateName := jobStateToName state, stateData := state, named := rfl }

/-- `ORDER BY priority DESC, created_at ASC`. -/
def notAfter (a b : Row) : Prop := Job.notAfter a.toJob b.toJob

instance : DecidableRel notAfter := fun a b =>
  inferInstanceAs (Decidable (Job.notAfter a.toJob b.toJob))

instance : Std.Total notAfter := ⟨fun a b => Std.Total.total a.toJob b.toJob⟩

instance : IsTrans Row notAfter := ⟨fun _ _ _ => IsTrans.trans (r := Job.notAfter) _ _ _⟩

end Row

/-- The jobs table. The primary key keeps two rows of one id out. -/
structure Table where
  rows : List Row
  nodup : (rows.map Row.id).Nodup

namespace Table

/-- Replace the row with the same id. -/
def set (table : Table) (row : Row) : Table where
  rows := table.rows.map fun old => if old.id = row.id then row else old
  nodup := by
    rw [List.map_map]
    have hid : Row.id ∘ (fun old => if old.id = row.id then row else old) = Row.id := by
      funext old
      by_cases h : old.id = row.id <;> simp [h]
    rw [hid]
    exact table.nodup

theorem eq_of_id {table : Table} {a b : Row} (ha : a ∈ table.rows) (hb : b ∈ table.rows)
    (h : a.id = b.id) : a = b :=
  List.inj_on_of_nodup_map table.nodup ha hb h

end Table
end PostgresStorage
end Qml
