import Qml.Lib.Lease
import Qml.Postgres.Dispatch
import Qml.Postgres.Storing

namespace Qml
open Lib

namespace PostgresStorage

/-- `qml.acquire_job_lock`: take the lock columns of a row that is not locked, or whose
lock has expired. -/
def acquireJobLock (table : Table) (jobId workerId : String) (lockDuration : Duration)
    (now : DateTime) : Bool × Table :=
  match table.get? jobId with
  | some row =>
    if row.lockedBy = none ∨ row.lockExpiresAt.any (fun t => decide (t < now)) = true then
      (true, table.set { row with
        lockedBy := some workerId
        lockExpiresAt := some (now + lockDuration) })
    else (false, table)
  | none => (false, table)

/-- `try_acquire_job_lock`: the timeout is bound as 32 bits. -/
def tryAcquireJobLock (driver : Driver) (table : Table) (jobId workerId : String)
    (timeoutSeconds : UInt64) (now : DateTime) : Except StorageError Bool × Table :=
  match driver.readUuid jobId with
  | .error e => (.error (.invalidJobData ("Invalid job ID format: " ++ e)), table)
  | .ok id =>
    (acquireJobLock table id workerId (Duration.seconds timeoutSeconds.toUInt32.toInt32.toInt)
      now).map .ok fun reply => reply

/-- `qml.release_job_lock`. -/
def releaseJobLock (driver : Driver) (table : Table) (jobId workerId : String) :
    Except StorageError Bool × Table :=
  match driver.readUuid jobId with
  | .error e => (.error (.invalidJobData ("Invalid job ID format: " ++ e)), table)
  | .ok id =>
    match table.get? id with
    | some row =>
      if row.lockedBy = some workerId then
        (.ok true, table.set { row with lockedBy := none, lockExpiresAt := none })
      else (.ok false, table)
    | none => (.ok false, table)

/-- `update_processing_to_enqueued`, for the rows that the filter of a sweep matches. -/
def updateProcessingToEnqueued (table : Table) (lost : JobState → Bool) (now : DateTime) : Table :=
  { table with
    rows := table.rows.map fun row =>
      if row.stateName = "processing" ∧ lost row.stateData = true then
        { row.setState (.enqueued now row.queueName) with lockedBy := none, lockExpiresAt := none }
      else row
    nodup := by
      rw [List.map_map]
      refine (congrArg List.Nodup (List.map_congr_left fun row _ => ?_)).mpr table.nodup
      simp only [Function.comp_apply]
      split <;> rfl }

/-- A statement on the jobs table, with what it reads from outside. A fetch scans the
rows in the order they are stored in and skips the rows under a row lock; what any other
statement of the backend leaves is not restricted. -/
inductive Statement
  | tryAcquireJobLock (jobId workerId : String) (timeoutSeconds : UInt64)
  | releaseJobLock (jobId workerId : String)
  | fetchAndLockJob (workerId : String) (queues : Option (List String)) (startedAt : DateTime)
      (stored : Table) (locked : String → Bool)
  | updateProcessingToEnqueued (lost : JobState → Bool)
  | other (after : Table)

/-- A statement and the clock of the database at it. -/
structure Event where
  now : DateTime
  statement : Statement

/-- The table after a statement. -/
inductive Next (driver : Driver) (table : Table) : Event → Table → Prop
  | acquired (now : DateTime) (jobId workerId : String) (timeoutSeconds : UInt64) :
      Next driver table ⟨now, .tryAcquireJobLock jobId workerId timeoutSeconds⟩
        (tryAcquireJobLock driver table jobId workerId timeoutSeconds now).2
  | released (now : DateTime) (jobId workerId : String) :
      Next driver table ⟨now, .releaseJobLock jobId workerId⟩
        (releaseJobLock driver table jobId workerId).2
  | fetched (now startedAt : DateTime) (workerId : String) (queues : Option (List String))
      (stored : Table) (locked : String → Bool) (hstored : stored.rows.Perm table.rows) :
      Next driver table ⟨now, .fetchAndLockJob workerId queues startedAt stored locked⟩
        (fetchAndLockJob stored locked startedAt workerId queues).2
  | recovered (now : DateTime) (lost : JobState → Bool) :
      Next driver table ⟨now, .updateProcessingToEnqueued lost⟩
        (updateProcessingToEnqueued table lost now)
  | other (now : DateTime) (after : Table) : Next driver table ⟨now, .other after⟩ after

/-- `try_acquire_job_lock` grants a lease for the seconds asked for. A release by the
holder ends it, as does its time, or a recovery sweep that puts the job back. -/
def leases (driver : Driver) : Leases Table Event String String DateTime where
  grants x id workerId expiry := ∃ jobId timeoutSeconds,
    x.label.statement = .tryAcquireJobLock jobId workerId timeoutSeconds ∧
    driver.readUuid jobId = .ok id ∧
    (tryAcquireJobLock driver x.before jobId workerId timeoutSeconds x.label.now).1 = .ok true ∧
    expiry = x.label.now + Duration.seconds timeoutSeconds.toNat
  ends x id workerId expiry :=
    (∃ jobId, x.label.statement = .releaseJobLock jobId workerId ∧
      driver.readUuid jobId = .ok id ∧
      (releaseJobLock driver x.before jobId workerId).1 = .ok true) ∨
    expiry ≤ x.label.now ∨
    ∃ lost row, x.label.statement = .updateProcessingToEnqueued lost ∧
      x.before.get? id = some row ∧ row.stateName = "processing" ∧ lost row.stateData = true
  serves x id workerId := ∃ queues startedAt stored locked job,
    x.label.statement = .fetchAndLockJob workerId queues startedAt stored locked ∧
    (fetchAndLockJob stored locked startedAt workerId queues).1 = some job ∧ job.id = id

/-- The step is a fetch while the job waits, `Enqueued` or to be retried, in a queue that is
asked for. -/
def Reaches (x : Step Table Event) (id workerId : String) : Prop :=
  ∃ queues startedAt stored locked row,
    x.label.statement = .fetchAndLockJob workerId queues startedAt stored locked ∧
    row ∈ x.before.rows ∧ row.id = id ∧
    (row.stateName = "enqueued" ∨ row.stateName = "awaiting_retry") ∧
    inFilter queues row.queueName = true

variable {driver : Driver} {table after : Table} {tr : List (Step Table Event)}

theorem serves_reaches {x : Step Table Event} {id workerId : String}
    (hnext : Next driver x.before x.label x.after) (h : (leases driver).serves x id workerId) :
    Reaches x id workerId := by
  obtain ⟨before, label, after⟩ := x
  obtain ⟨queues, startedAt, stored, locked, job, hlabel, hjob, rfl⟩ := h
  dsimp only at hlabel hnext
  cases hnext with
  | fetched now _ _ _ _ _ hstored =>
    cases hlabel
    obtain ⟨row, hrow, hsel, hid, -, -⟩ := fetch_some hjob
    simp only [selectable, Bool.and_eq_true, List.contains_iff_mem, List.mem_cons,
      List.not_mem_nil, or_false] at hsel
    exact ⟨queues, startedAt, stored, locked, row, rfl, hstored.mem_iff.mp hrow, hid, hsel.1⟩
  | acquired | released | recovered | other => cases hlabel

/-- A fetch does not look at the lock columns: locks are honoured in a run in which nobody
but the holder fetches while the locked job waits in a queue that is asked for. -/
theorem leases_spared (hr : Run (Next driver) table tr after)
    (hspared : (leases driver).Spared Reaches tr) : (leases driver).Honoured tr := by
  apply hspared.honoured
  intro y hy id workerId hserves
  obtain ⟨-, -, -, hnext⟩ := hr.of_mem hy
  exact serves_reaches hnext hserves

end PostgresStorage
end Qml
