import Qml.Core.Listing
import Qml.Lib.Grouping
import Qml.Lib.Prog
import Qml.Postgres.Leases

namespace Qml
open Lib

namespace PostgresStorage

/-- What the database itself adds to the driver: how its casts read the text of an
instant, and the text of its error for a bound of a listing that is negative. -/
structure Engine extends Driver where
  parseIsoUtc : String → DateTime
  timestamptz : String → DateTime
  negative : String → String

/-- What a statement meets outside the tables: the clocks of the database and of the
client, the rows that other transactions hold locked, and the orders in which rows are
scanned and returned. -/
structure Setting where
  now : DateTime
  clock : DateTime
  locked : String → Bool
  scan : List String
  returning : List String

namespace Table

/-- Rows in the order in which `order` lists their identifiers. -/
def arrange (order : List String) (rows : List Row) : List Row :=
  rows.insertionSort fun a b => order.idxOf a.id ≤ order.idxOf b.id

/-- The same rows, scanned in another order. -/
def scan (order : List String) (table : Table) : Table where
  rows := arrange order table.rows
  nodup := (((List.perm_insertionSort _ table.rows).map Row.id).nodup_iff).mpr table.nodup

/-- `DELETE`, of the rows that fail a test. -/
def filter (p : Row → Bool) (table : Table) : Table where
  rows := table.rows.filter p
  nodup := table.nodup.sublist (List.filter_sublist.map Row.id)

/-- `UPDATE .. SET state_name, state_data`, of the rows that pass a test. -/
def restate (p : Row → Bool) (state : Row → JobState) (table : Table) : Table where
  rows := table.rows.map fun row => if p row then row.setState (state row) else row
  nodup := by
    rw [List.map_map]
    refine (congrArg List.Nodup (List.map_congr_left fun row _ => ?_)).mpr table.nodup
    simp only [Function.comp_apply]
    split <;> rfl

end Table

/-- `LIMIT $n` or `OFFSET $n`: the bound is cast to 64 signed bits. -/
def bound (engine : Engine) (message name : String) (n : UInt64) : Except StorageError Nat :=
  if n.toInt64 < 0 then .error (.operationFailed (message ++ ": " ++ engine.negative name))
  else .ok n.toInt64.toInt.toNat

def get (driver : Driver) (table : Table) (jobId : String) : Except StorageError (Option Job) :=
  match driver.readUuid jobId with
  | .error e => .error (.invalidJobData ("Invalid job ID format: " ++ e))
  | .ok id => .ok ((table.get? id).map Row.toJob)

/-- The columns that both updates set: all but the id, the creation time and the lock. -/
def Row.rewrite (old : Row) (job : Job) : Row :=
  { Row.ofJob job with
    id := old.id
    createdAt := old.createdAt
    lockedBy := old.lockedBy
    lockExpiresAt := old.lockExpiresAt }

/-- The `UPDATE` of `update_if_state`, with the number of rows it affects. -/
def updateWhere (table : Table) (id : String) (expected : JobStateKind) (job : Job) :
    Nat × Table :=
  match table.get? id with
  | some old =>
    if old.stateName = jobStateKindToName expected then (1, table.set (old.rewrite job))
    else (0, table)
  | none => (0, table)

def delete (driver : Driver) (table : Table) (jobId : String) :
    Except StorageError Bool × Table :=
  match driver.readUuid jobId with
  | .error e => (.error (.invalidJobData ("Invalid job ID format: " ++ e)), table)
  | .ok id => (.ok (table.get? id).isSome, table.filter fun row => row.id ≠ id)

/-- `ORDER BY created_at DESC`. -/
def Row.newestFirst (a b : Row) : Prop := Job.newestFirst a.toJob b.toJob

instance : DecidableRel Row.newestFirst := fun a b =>
  inferInstanceAs (Decidable (Job.newestFirst a.toJob b.toJob))

def whereState (stateFilter : Option JobStateKind) (row : Row) : Bool :=
  match stateFilter with
  | some kind => row.stateName == jobStateKindToName kind
  | none => true

/-- A bound that the query has only if one is given. -/
def optionalBound (engine : Engine) (message name : String) :
    Option UInt64 → Except StorageError (Option Nat)
  | some n => (bound engine message name n).map some
  | none => .ok none

/-- The offset is evaluated before the limit. -/
def list (engine : Engine) (table : Table) (stateFilter : Option JobStateKind)
    (limit offset : Option UInt64) : Except StorageError (List Job) :=
  let rows := (table.rows.filter (whereState stateFilter)).insertionSort Row.newestFirst
  match optionalBound engine "Failed to list jobs" "OFFSET" offset with
  | .error e => .error e
  | .ok offset =>
    (optionalBound engine "Failed to list jobs" "LIMIT" limit).map fun limit =>
      (part rows limit (offset.getD 0)).map Row.toJob

/-- The match on `state_name` in `get_job_counts`. -/
def nameToKind (stateName : String) : Option JobStateKind :=
  if stateName = "enqueued" then some .enqueued
  else if stateName = "processing" then some .processing
  else if stateName = "succeeded" then some .succeeded
  else if stateName = "failed" then some .failed
  else if stateName = "deleted" then some .deleted
  else if stateName = "scheduled" then some .scheduled
  else if stateName = "awaiting_retry" then some .awaitingRetry
  else none

def countGroup (counts : Dict JobStateKind Nat) (group : String × Nat) : Dict JobStateKind Nat :=
  match nameToKind group.1 with
  | some kind => counts.insert kind group.2
  | none => counts

/-- `GROUP BY state_name`, and the loop over the groups. -/
def getJobCounts (table : Table) : Dict JobStateKind Nat :=
  (Dict.group Row.stateName (fun _ => 0) (fun count _ => count + 1) table.rows).entries.foldl
    countGroup .empty

/-- The instant in `state_data` that a time predicate reads. -/
def dueAt (kind : JobStateKind) (state : JobState) : Option DateTime :=
  match kind, state with
  | .scheduled, .scheduled _ enqueueAt _ => some enqueueAt
  | .awaitingRetry, .awaitingRetry _ retryAt _ => some retryAt
  | _, _ => none

/-- The `WHERE` clause that fetches and claims of due jobs share. -/
def whereDue (engine : Engine) (kind : JobStateKind) (now : DateTime) (row : Row) : Bool :=
  row.stateName == jobStateKindToName kind &&
    (dueAt kind row.stateData).any fun t => reached engine.parseIsoUtc now t

/-- `fetch_due_scheduled_jobs` and `fetch_due_retry_jobs`. -/
def fetchDue (engine : Engine) (message : String) (kind : JobStateKind) (table : Table)
    (now : DateTime) (limit : UInt64) : Except StorageError (List Job) :=
  let due := (table.rows.filter (whereDue engine kind now)).insertionSort Row.notAfter
  (bound engine message "LIMIT" limit).map fun limit => (due.take limit).map Row.toJob

/-- The identifiers that the common table expression of a claim selects. -/
def dueIds (engine : Engine) (kind : JobStateKind) (table : Table) (locked : String → Bool)
    (now : DateTime) (limit : Nat) : List String :=
  let due := table.rows.filter fun row => whereDue engine kind now row && !locked row.id
  ((due.insertionSort Row.notAfter).take limit).map Row.id

/-- `claim_due_scheduled_jobs` and `claim_due_retry_jobs`. -/
def claimDue (engine : Engine) (message : String) (kind : JobStateKind) (table : Table)
    (setting : Setting) (now : DateTime) (limit : UInt64) :
    Except StorageError (List Job) × Table :=
  match bound engine message "LIMIT" limit with
  | .error e => (.error e, table)
  | .ok limit =>
    let ids := dueIds engine kind (table.scan setting.scan) setting.locked now limit
    let table := table.restate (fun row => ids.contains row.id) fun row =>
      .enqueued setting.now row.queueName
    let claimed := table.rows.filter fun row => ids.contains row.id
    (.ok ((Table.arrange setting.returning claimed).map Row.toJob), table)

def deleteExpiredJobs (table : Table) (now : DateTime) : Nat × Table :=
  let expired := fun row : Row => row.expiresAt.any fun t => decide (t < now)
  ((table.rows.filter expired).length, table.filter fun row => !expired row)

/-- The rows that the shared statement of the recovery sweeps affects, and what it leaves. -/
def recover (table : Table) (lost : JobState → Bool) (now : DateTime) : Nat × Table :=
  ((table.rows.filter fun row => row.stateName = "processing" ∧ lost row.stateData = true).length,
    updateProcessingToEnqueued table lost now)

/-- `(state_data->'Processing'->>'started_at')::timestamptz < $1`. -/
def stale (engine : Engine) (staleBefore : DateTime) : JobState → Bool
  | .processing startedAt _ _ => decide (engine.timestamptz startedAt.rfc3339 < staleBefore)
  | _ => false

/-- `state_data->'Processing'->>'server_name' = $1`. -/
def ownedBy (serverId : String) : JobState → Bool
  | .processing _ _ serverName => decide (serverName = serverId)
  | _ => false

/-- The statements on the jobs table, each with its reply. -/
inductive Sql : Type → Type
  | get (jobId : String) : Sql (Except StorageError (Option Job))
  | enqueue (job : Job) : Sql (Except StorageError Unit)
  | update (job : Job) : Sql (Except StorageError Unit)
  | updateWhere (id : String) (expected : JobStateKind) (job : Job) : Sql Nat
  | selectExists (id : String) : Sql Bool
  | delete (jobId : String) : Sql (Except StorageError Bool)
  | list (stateFilter : Option JobStateKind) (limit offset : Option UInt64) :
      Sql (Except StorageError (List Job))
  | getJobCounts : Sql (Except StorageError (Dict JobStateKind Nat))
  | getAvailableJobs (limit : Option Nat) : Sql (Except StorageError (List Job))
  | fetchDueScheduledJobs (now : DateTime) (limit : UInt64) : Sql (Except StorageError (List Job))
  | fetchDueRetryJobs (now : DateTime) (limit : UInt64) : Sql (Except StorageError (List Job))
  | claimDueScheduledJobs (now : DateTime) (limit : UInt64) : Sql (Except StorageError (List Job))
  | claimDueRetryJobs (now : DateTime) (limit : UInt64) : Sql (Except StorageError (List Job))
  | deleteExpiredJobs (now : DateTime) : Sql (Except StorageError Nat)
  | requeueStrandedJobs (staleBefore : DateTime) : Sql (Except StorageError Nat)
  | reclaimJobsFromServer (serverId : String) : Sql (Except StorageError Nat)
  | fetchAndLockJob (workerId : String) (queues : Option (List String)) :
      Sql (Except StorageError (Option Job))
  | tryAcquireJobLock (jobId workerId : String) (timeoutSeconds : UInt64) :
      Sql (Except StorageError Bool)
  | releaseJobLock (jobId workerId : String) : Sql (Except StorageError Bool)

/-- Run one statement. -/
def Sql.perform (engine : Engine) (setting : Setting) (table : Table) : Sql ρ → ρ × Table
  | .get jobId => (PostgresStorage.get engine.toDriver table jobId, table)
  | .enqueue job => PostgresStorage.enqueue engine.toDriver table job
  | .update job => PostgresStorage.update engine.toDriver table job
  | .updateWhere id expected job => PostgresStorage.updateWhere table id expected job
  | .selectExists id => ((table.get? id).isSome, table)
  | .delete jobId => PostgresStorage.delete engine.toDriver table jobId
  | .list stateFilter limit offset =>
      (PostgresStorage.list engine (table.scan setting.scan) stateFilter limit offset, table)
  | .getJobCounts => (.ok (PostgresStorage.getJobCounts (table.scan setting.scan)), table)
  | .getAvailableJobs limit => (.ok (PostgresStorage.getAvailableJobs engine.parseIsoUtc
      (table.scan setting.scan) setting.now limit), table)
  | .fetchDueScheduledJobs now limit => (fetchDue engine "Failed to fetch due scheduled jobs"
      .scheduled (table.scan setting.scan) now limit, table)
  | .fetchDueRetryJobs now limit => (fetchDue engine "Failed to fetch due retry jobs"
      .awaitingRetry (table.scan setting.scan) now limit, table)
  | .claimDueScheduledJobs now limit => claimDue engine "Failed to claim due scheduled jobs"
      .scheduled table setting now limit
  | .claimDueRetryJobs now limit => claimDue engine "Failed to claim due retry jobs"
      .awaitingRetry table setting now limit
  | .deleteExpiredJobs now => (PostgresStorage.deleteExpiredJobs table now).map .ok id
  | .requeueStrandedJobs staleBefore =>
      (recover table (stale engine staleBefore) setting.now).map .ok id
  | .reclaimJobsFromServer serverId =>
      (recover table (ownedBy serverId) setting.now).map .ok id
  | .fetchAndLockJob workerId queues => (PostgresStorage.fetchAndLockJob (table.scan setting.scan)
      setting.locked setting.clock workerId queues).map .ok id
  | .tryAcquireJobLock jobId workerId timeoutSeconds => PostgresStorage.tryAcquireJobLock
      engine.toDriver table jobId workerId timeoutSeconds setting.now
  | .releaseJobLock jobId workerId =>
      PostgresStorage.releaseJobLock engine.toDriver table jobId workerId

/-- `update_if_state`: a second statement tells a job that is gone from one in another state. -/
def updateIfState (driver : Driver) (job : Job) (expected : JobStateKind) :
    Prog Sql (Except StorageError Bool) :=
  match driver.readUuid job.id with
  | .error e => pure (.error (.invalidJobData ("Invalid job ID format: " ++ e)))
  | .ok id => do
    let rowsAffected ← Prog.ask (.updateWhere id expected job)
    if rowsAffected > 0 then return .ok true
    if ← Prog.ask (.selectExists id) then return .ok false
    return .error (.jobNotFound job.id)

/-- The loop of `fetch_available_jobs_atomic`. -/
def fetchUpTo (workerId : String) (queues : Option (List String)) :
    Nat → List Job → Prog Sql (Except StorageError (List Job))
  | 0, jobs => pure (.ok jobs)
  | n + 1, jobs => do
    match ← Prog.ask (.fetchAndLockJob workerId queues) with
    | .ok (some job) => fetchUpTo workerId queues n (jobs ++ [job])
    | .ok none => return .ok jobs
    | .error e => return .error e

def fetchAvailableJobsAtomic (workerId : String) (limit : Option Nat)
    (queues : Option (List String)) : Prog Sql (Except StorageError (List Job)) :=
  fetchUpTo workerId queues (min (limit.getD 10) 100) []

/-- A statement with what it meets. -/
structure Entry where
  {ρ : Type}
  op : Sql ρ
  setting : Setting

/-- Whichever client is next has its statement executed; the statements of one method need
not follow one another. -/
def execute (engine : Engine) (table : Table) (e : Entry) : Table :=
  (e.op.perform engine e.setting table).2

abbrev Executes (engine : Engine) (table : Table) (e : Entry) (after : Table) : Prop :=
  execute engine table e = after

end PostgresStorage
end Qml
