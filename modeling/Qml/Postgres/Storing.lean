import Qml.Postgres.Rows

namespace Qml
open Lib

namespace PostgresStorage

/-- What the driver adds: how it reads an identifier, as the canonical text of the UUID
or the error of `Uuid::from_str`, and the text of its error for a stored key. -/
structure Driver where
  readUuid : String → Except String String
  duplicateKey : String → String

namespace Table

def get? (table : Table) (id : String) : Option Row := table.rows.find? fun row => row.id == id

theorem mem_of_get? {table : Table} {id : String} {row : Row} (h : table.get? id = some row) :
    row ∈ table.rows ∧ row.id = id :=
  ⟨List.mem_of_find?_eq_some h, by simpa using List.find?_some h⟩

theorem get?_eq_none {table : Table} {id : String} :
    table.get? id = none ↔ id ∉ table.rows.map Row.id := by
  simp [get?]

/-- `INSERT`, of a row whose id is new. -/
def insert (table : Table) (row : Row) (hnew : table.get? row.id = none) : Table where
  rows := table.rows ++ [row]
  nodup := by
    rw [List.map_append, List.nodup_append]
    refine ⟨table.nodup, List.nodup_singleton _, fun a ha b hb => ?_⟩
    rintro rfl
    rw [List.map_singleton, List.mem_singleton] at hb
    exact get?_eq_none.mp hnew (hb ▸ ha)

theorem get?_insert {table : Table} {row : Row} (hnew : table.get? row.id = none) :
    (table.insert row hnew).get? row.id = some row := by
  rw [get?, insert, List.find?_append]
  change ((table.get? row.id).or _) = _
  simp [hnew]

theorem get?_set {table : Table} {row old : Row} (hold : table.get? row.id = some old) :
    (table.set row).get? row.id = some row := by
  obtain ⟨hmem, hid⟩ := mem_of_get? hold
  have hset : row ∈ (table.set row).rows :=
    List.mem_map.mpr ⟨old, hmem, by simp [hid]⟩
  cases hget : (table.set row).get? row.id with
  | none => exact absurd (List.mem_map_of_mem hset) (get?_eq_none.mp hget)
  | some new =>
    obtain ⟨hnew, hnid⟩ := mem_of_get? hget
    rw [eq_of_id hnew hset hnid]

end Table

/-- `enqueue`: the primary key turns a stored identifier down. -/
def enqueue (driver : Driver) (table : Table) (job : Job) : Except StorageError Unit × Table :=
  match driver.readUuid job.id with
  | .error e => (.error (.invalidJobData ("Invalid job ID format: " ++ e)), table)
  | .ok id =>
    if hnew : table.get? id = none then
      (.ok (), table.insert { Row.ofJob job with id := id } hnew)
    else
      (.error (.operationFailed ("enqueue: database operation failed: " ++ driver.duplicateKey id)),
        table)

/-- `update`: every column but the id, the creation time and the lock is set. -/
def update (driver : Driver) (table : Table) (job : Job) : Except StorageError Unit × Table :=
  match driver.readUuid job.id with
  | .error e => (.error (.invalidJobData ("Invalid job ID format: " ++ e)), table)
  | .ok id =>
    match table.get? id with
    | some old =>
      (.ok (), table.set { Row.ofJob job with
        id := id
        createdAt := old.createdAt
        lockedBy := old.lockedBy
        lockExpiresAt := old.lockExpiresAt })
    | none => (.error (.jobNotFound job.id), table)

/-- The attempt and the timeout of a job are values that come back from the 32-bit
columns: the one is cut off at zero, the other extended by its sign. -/
def Fits (job : Job) : Prop :=
  job.attempt.toNat < 2147483648 ∧ ∀ t, job.timeoutSeconds = some t →
    t.toNat < 2147483648 ∨ 18446744071562067968 ≤ t.toNat

theorem attempt_fits (a : UInt32) : (max a.toInt32 0).toUInt32 = a ↔ a.toNat < 2147483648 := by
  have hbound := a.toNat_lt
  have hvalue : a.toInt32.toInt = (a.toNat : Int).bmod (2 ^ 32) := BitVec.toInt_eq_toNat_bmod _
  have hmax : max a.toInt32 0 = if a.toInt32 ≤ 0 then 0 else a.toInt32 := rfl
  rw [hmax]
  split
  · rename_i h
    rw [Int32.le_iff_toInt_le, hvalue, Int.bmod_def] at h
    rw [← UInt32.toNat_inj]
    simp only [Int32.toInt_zero, UInt32.toNat_zero, show Int32.toUInt32 0 = 0 from rfl] at h ⊢
    split at h <;> omega
  · rename_i h
    rw [Int32.le_iff_toInt_le, hvalue, Int.bmod_def] at h
    simp only [Int32.toInt_zero, UInt32.toUInt32_toInt32, true_iff] at h ⊢
    split at h <;> omega

theorem timeout_fits (t : UInt64) : t.toUInt32.toInt32.toInt64.toUInt64 = t ↔
    t.toNat < 2147483648 ∨ 18446744071562067968 ≤ t.toNat := by
  have hbound := t.toNat_lt
  have hvalue : t.toUInt32.toInt32.toInt = (t.toUInt32.toNat : Int).bmod (2 ^ 32) :=
    BitVec.toInt_eq_toNat_bmod _
  have hwhole : t.toInt64.toInt = (t.toNat : Int).bmod (2 ^ 64) := BitVec.toInt_eq_toNat_bmod _
  have hsigned : t.toUInt32.toInt32.toInt64.toUInt64 = t ↔
      t.toUInt32.toInt32.toInt64 = t.toInt64 := by
    constructor
    · intro h
      exact congrArg UInt64.toInt64 h
    · intro h
      exact congrArg Int64.toUInt64 h
  rw [hsigned, ← Int64.toInt_inj, Int32.toInt_toInt64, hvalue, hwhole, UInt64.toNat_toUInt32,
    Int.bmod_def, Int.bmod_def]
  split <;> split <;> omega

/-- An empty map is stored as `NULL`, and `NULL` read as an empty map. -/
theorem metadata_stored (metadata : Dict String String) :
    (if metadata.size = 0 then none else some metadata).getD .empty = metadata := by
  split
  · rename_i hsize
    obtain ⟨entries, hnodup⟩ := metadata
    obtain rfl : entries = [] := List.length_eq_zero_iff.mp hsize
    rfl
  · rfl

/-- What is read back from the row of a job, when the row has another creation time. -/
theorem toJob_stored (job : Job) (row : Row) (created : DateTime)
    (hrow : row.toJob = { (Row.ofJob job).toJob with createdAt := created }) :
    row.toJob = job ↔ created = job.createdAt ∧ Fits job := by
  have htimeout : (job.timeoutSeconds.map fun t => t.toUInt32.toInt32).map
      (fun t => t.toInt64.toUInt64) = job.timeoutSeconds ↔
      ∀ t, job.timeoutSeconds = some t → t.toNat < 2147483648 ∨ 18446744071562067968 ≤ t.toNat := by
    cases job.timeoutSeconds with
    | none => simp
    | some t => simp [timeout_fits]
  rw [hrow, Fits, ← htimeout, ← attempt_fits]
  obtain ⟨id, method, payload, createdAt, state, queue, priority, maxRetries, attempt, metadata,
    jobType, timeoutSeconds, expiresAt⟩ := job
  simp only [Row.ofJob, Row.toJob, Job.mk.injEq, metadata_stored, UInt32.toUInt32_toInt32,
    true_and, and_true]

/-- What `row_to_job` reads back under the identifier of a job. -/
def Table.reads (table : Table) (job : Job) : Option Job := (table.get? job.id).map Row.toJob

/-- A job whose identifier is canonical is read back as it was given to `enqueue` exactly
when its attempt and its timeout fit their columns; and as it was given to `update`
exactly when, besides, it has the creation time of the stored row. -/
theorem row_round_trip_iff (driver : Driver) (table : Table) (job : Job)
    (hid : driver.readUuid job.id = .ok job.id) :
    (∀ after, enqueue driver table job = (.ok (), after) →
      (after.reads job = some job ↔ Fits job)) ∧
    ∀ after, update driver table job = (.ok (), after) → ∃ old, table.get? job.id = some old ∧
      (after.reads job = some job ↔ old.createdAt = job.createdAt ∧ Fits job) := by
  constructor
  · intro after h
    simp only [enqueue, hid] at h
    split at h
    · cases h
      rw [Table.reads, Table.get?_insert, Option.map_some, Option.some.injEq]
      exact (toJob_stored job _ job.createdAt rfl).trans (and_iff_right rfl)
    · cases h
  · intro after h
    simp only [update, hid] at h
    split at h
    · rename_i old hold
      cases h
      refine ⟨old, hold, ?_⟩
      have hset : (table.set { Row.ofJob job with
          id := job.id
          createdAt := old.createdAt
          lockedBy := old.lockedBy
          lockExpiresAt := old.lockExpiresAt }).get? job.id = _ := Table.get?_set hold
      rw [Table.reads, hset, Option.map_some, Option.some.injEq]
      exact toJob_stored job _ old.createdAt rfl
    · cases h

/-- A driver that reads every text as the canonical one. -/
def Driver.verbatim : Driver where
  readUuid id := .ok id
  duplicateKey id := "duplicate key value violates unique constraint: " ++ id

def Table.empty : Table := ⟨[], List.nodup_nil⟩

def reminder : Job := .new "6f1c6f0e-8c1b-4e5e-9b7a-0a3f6d1c2b4a" 0 "send_email" .null

/-- The same job at work, in its second attempt. -/
def retried : Job :=
  { reminder with
    state := .processing 7 "worker-1" "server-1"
    queue := "mail"
    priority := -3
    maxRetries := 5
    attempt := 2
    metadata := Dict.empty.insert "tenant" "north"
    timeoutSeconds := some 30 }

/-- It is read back as it was enqueued and, once its outcome is stored, as it was updated; but
not as it is updated under another creation time. -/
theorem row_round_trip_iff_retried :
    let done := { retried with attempt := 3, state := .succeeded 9 2 none, expiresAt := some 60 }
    let later := { done with createdAt := 1 }
    ∃ stored after after', enqueue .verbatim .empty retried = (.ok (), stored) ∧
      stored.reads retried = some retried ∧ update .verbatim stored done = (.ok (), after) ∧
      after.reads done = some done ∧ update .verbatim stored later = (.ok (), after') ∧
      after'.reads later ≠ some later := by
  intro done later
  have hfits : ∀ job, job.attempt = 2 ∨ job.attempt = 3 → job.timeoutSeconds = some 30 →
      Fits job := by
    rintro job hattempt htimeout
    refine ⟨by rcases hattempt with h | h <;> simp [h], fun t ht => ?_⟩
    cases htimeout.symm.trans ht
    decide
  let stored := (enqueue .verbatim .empty retried).2
  refine ⟨stored, _, _, rfl, ?_, rfl, ?_, rfl, ?_⟩
  · exact ((row_round_trip_iff .verbatim .empty retried rfl).1 _ rfl).mpr (hfits _ (.inl rfl) rfl)
  · obtain ⟨old, hold, hiff⟩ := (row_round_trip_iff .verbatim stored done rfl).2 _ rfl
    cases hold
    exact hiff.mpr ⟨rfl, hfits _ (.inr rfl) rfl⟩
  · obtain ⟨old, hold, hiff⟩ := (row_round_trip_iff .verbatim stored later rfl).2 _ rfl
    cases hold
    exact fun h => absurd (hiff.mp h).1 (by decide)

/-- A job that was attempted 2147483648 times and may run for 4294967296 seconds comes
back as one that was never attempted and may run for none. -/
theorem large_counters_lost : ∃ job after, Driver.verbatim.readUuid job.id = .ok job.id ∧
    enqueue .verbatim .empty job = (.ok (), after) ∧
    (after.reads job).map Job.attempt = some 0 ∧
    (after.reads job).map Job.timeoutSeconds = some (some 0) ∧ after.reads job ≠ some job := by
  let job := { reminder with attempt := 2147483648, timeoutSeconds := some 4294967296 }
  refine ⟨job, _, rfl, rfl, by decide +kernel, by decide +kernel, fun h => ?_⟩
  have hattempt := congrArg (Option.map Job.attempt) h
  revert hattempt
  decide +kernel

end PostgresStorage
end Qml
