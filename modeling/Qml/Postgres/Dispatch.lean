import Qml.Lib.First
import Qml.Postgres.Rows

namespace Qml
open Lib

namespace PostgresStorage
variable (parseIsoUtc : String → DateTime)

/-- Whether the database finds a serialized instant to be due. Reading the text
back is the database's own cast, which is a parameter here. -/
def reached (now t : DateTime) : Bool := decide (parseIsoUtc t.rfc3339 ≤ now)

/-- The `WHERE` clause of `get_available_jobs`. -/
def whereAvailable (now : DateTime) (row : Row) : Bool :=
  ["enqueued", "scheduled", "awaiting_retry"].contains row.stateName &&
    (row.stateName == "enqueued" ||
      (row.stateName == "scheduled" &&
        match row.stateData with
        | .scheduled _ enqueueAt _ => reached parseIsoUtc now enqueueAt
        | _ => false) ||
      (row.stateName == "awaiting_retry" &&
        match row.stateData with
        | .awaitingRetry _ retryAt _ => reached parseIsoUtc now retryAt
        | _ => false))

/-- The check made again on each job read back. -/
def isJobAvailable (now : DateTime) : JobState → Bool
  | .enqueued .. => true
  | .scheduled _ enqueueAt _ => decide (enqueueAt ≤ now)
  | .awaitingRetry _ retryAt _ => decide (retryAt ≤ now)
  | _ => false

def getAvailableJobs (table : Table) (now : DateTime) (limit : Option Nat) : List Job :=
  let rows := (table.rows.filter (whereAvailable parseIsoUtc now)).insertionSort Row.notAfter
  let rows := match limit with
    | some limit => rows.take limit
    | none => rows
  (rows.map Row.toJob).filter fun job => isJobAvailable now job.state

def inFilter (queues : Option (List String)) (queueName : String) : Bool :=
  match queues with
  | some queues => queues.isEmpty || queues.contains queueName
  | none => true

/-- The rows the inner `SELECT` of a fetch may return: the `WHERE` clause, and
`FOR UPDATE SKIP LOCKED`. -/
def selectable (locked : String → Bool) (queues : Option (List String)) (row : Row) : Bool :=
  ["enqueued", "awaiting_retry"].contains row.stateName && inFilter queues row.queueName &&
    !locked row.id

/-- The rows are scanned in the order they are stored in, which only decides
between rows of one priority and creation time. -/
def fetchAndLockJob (table : Table) (locked : String → Bool) (now : DateTime) (workerId : String)
    (queues : Option (List String)) : Option Job × Table :=
  match first Row.notAfter (table.rows.filter (selectable locked queues)) with
  | some row =>
    let row := row.setState (.processing now workerId "postgres-storage")
    (some row.toJob, table.set row)
  | none => (none, table)

/-- What a fetch owes to the listing at the same instant: the claimed row is one
of the listed ones, in the filter, and some row is claimed whenever a listed one
in the filter is not locked. No retry is claimed before its time. -/
structure FetchAgrees (table : Table) (locked : String → Bool) (now : DateTime)
    (queues : Option (List String)) : Prop where
  eligible : ∀ stored : Table, stored.rows.Perm table.rows → ∀ workerId job,
    (fetchAndLockJob stored locked now workerId queues).1 = some job →
    ∃ listed ∈ getAvailableJobs parseIsoUtc table now none,
      listed.id = job.id ∧ inFilter queues listed.queue = true
  complete : ∀ stored : Table, stored.rows.Perm table.rows → ∀ workerId,
    (∃ listed ∈ getAvailableJobs parseIsoUtc table now none,
      inFilter queues listed.queue = true ∧ locked listed.id = false) →
    (fetchAndLockJob stored locked now workerId queues).1.isSome = true
  backoff : ∀ stored : Table, stored.rows.Perm table.rows → ∀ workerId job,
    (fetchAndLockJob stored locked now workerId queues).1 = some job →
    ∀ row ∈ table.rows, ∀ t retryAt e, row.stateData = .awaitingRetry t retryAt e → now < retryAt →
      row.id ≠ job.id

section
variable {parseIsoUtc} {table : Table} {locked : String → Bool} {now : DateTime}
  {queues : Option (List String)} {row : Row} {workerId : String} {job : Job}

/-- What is listed, row by row. -/
def listed (parseIsoUtc : String → DateTime) (now : DateTime) (row : Row) : Bool :=
  whereAvailable parseIsoUtc now row && isJobAvailable now row.stateData

theorem mem_getAvailableJobs : job ∈ getAvailableJobs parseIsoUtc table now none ↔
    ∃ row ∈ table.rows, listed parseIsoUtc now row = true ∧ row.toJob = job := by
  simp only [getAvailableJobs, listed, List.mem_filter, List.mem_map, List.mem_insertionSort,
    Bool.and_eq_true]
  constructor
  · rintro ⟨⟨row, ⟨hrow, hwhere⟩, rfl⟩, havail⟩
    exact ⟨row, hrow, ⟨hwhere, havail⟩, rfl⟩
  · rintro ⟨row, hrow, ⟨hwhere, havail⟩, rfl⟩
    exact ⟨⟨row, ⟨hrow, hwhere⟩, rfl⟩, havail⟩

/-- A fetch claims a selectable row that no selectable row precedes. -/
theorem fetch_some (h : (fetchAndLockJob table locked now workerId queues).1 = some job) :
    ∃ row ∈ table.rows, selectable locked queues row = true ∧ row.id = job.id ∧
      row.queueName = job.queue ∧
      ∀ other ∈ table.rows, selectable locked queues other = true → Row.notAfter row other := by
  unfold fetchAndLockJob at h
  split at h
  · rename_i row hfirst
    cases h
    obtain ⟨hrow, hsel⟩ := List.mem_filter.mp (mem_of_first hfirst)
    exact ⟨row, hrow, hsel, rfl, rfl, fun other ho hs =>
      first_le hfirst (List.mem_filter.mpr ⟨ho, hs⟩)⟩
  · cases h

theorem fetch_isSome : (fetchAndLockJob table locked now workerId queues).1.isSome = true ↔
    ∃ row ∈ table.rows, selectable locked queues row = true := by
  have hsome := first_isSome (r := Row.notAfter) (l := table.rows.filter (selectable locked queues))
  simp only [List.mem_filter] at hsome
  rw [← hsome, fetchAndLockJob]
  split <;> simp_all

/-- Every selectable row that nothing selectable precedes can be the one claimed. -/
theorem fetch_first (now : DateTime) (workerId : String) (hrow : row ∈ table.rows)
    (hsel : selectable locked queues row = true)
    (hmin : ∀ other ∈ table.rows, selectable locked queues other = true → Row.notAfter row other) :
    ∃ stored : Table, stored.rows.Perm table.rows ∧ ∃ job,
      (fetchAndLockJob stored locked now workerId queues).1 = some job ∧ job.id = row.id := by
  obtain ⟨before, after, hcut⟩ := List.append_of_mem hrow
  have hperm : (row :: (before ++ after)).Perm table.rows := by
    rw [hcut]
    exact List.perm_middle.symm
  have hnodup := ((hperm.map Row.id).nodup_iff).mpr table.nodup
  refine ⟨⟨row :: (before ++ after), hnodup⟩, hperm, ?_⟩
  have hfirst : first Row.notAfter ((row :: (before ++ after)).filter (selectable locked queues)) =
      some row := by
    rw [List.filter_cons_of_pos hsel]
    refine first_cons fun other ho => ?_
    obtain ⟨ho, hs⟩ := List.mem_filter.mp ho
    exact hmin other (hperm.mem_iff.mp (List.mem_cons_of_mem _ ho)) hs
  exact ⟨(row.setState (.processing now workerId "postgres-storage")).toJob,
    by simp only [fetchAndLockJob, hfirst], rfl⟩

end

/-- Whether the row is a retry whose time has not come. -/
def retryPending (now : DateTime) (row : Row) : Bool :=
  match row.stateData with
  | .awaitingRetry _ retryAt _ => !(reached parseIsoUtc now retryAt && decide (retryAt ≤ now))
  | _ => false

/-- Whether the row is a scheduled job whose time has come. -/
def scheduledDue (now : DateTime) (row : Row) : Bool :=
  match row.stateData with
  | .scheduled _ enqueueAt _ => reached parseIsoUtc now enqueueAt && decide (enqueueAt ≤ now)
  | _ => false

/-- Every selectable retry that is not due has a selectable row strictly before
it, and a due scheduled row is never the only one to claim. -/
def NothingMisjudged (table : Table) (locked : String → Bool) (now : DateTime)
    (queues : Option (List String)) : Prop :=
  (∀ row ∈ table.rows, selectable locked queues row = true →
    retryPending parseIsoUtc now row = true →
    ∃ other ∈ table.rows, selectable locked queues other = true ∧
      other.toJob.precedes row.toJob = true) ∧
  ((∃ row ∈ table.rows, scheduledDue parseIsoUtc now row = true ∧
      inFilter queues row.queueName = true ∧ locked row.id = false) →
    ∃ row ∈ table.rows, selectable locked queues row = true)

section
variable {parseIsoUtc} {table : Table} {locked : String → Bool} {now : DateTime}
  {queues : Option (List String)} {row : Row}

/-- A selectable row is listed unless it is a retry that is not due. -/
theorem listed_of_selectable (hsel : selectable locked queues row = true) :
    listed parseIsoUtc now row = !retryPending parseIsoUtc now row := by
  have hname := row.named
  cases hd : row.stateData <;>
    simp_all [selectable, listed, retryPending, whereAvailable, isJobAvailable, JobState.kind,
      jobStateToName, jobStateKindToName]

/-- A listed row is selectable, up to the filter and the locks, or a due
scheduled one. -/
theorem selectable_of_listed (h : listed parseIsoUtc now row = true)
    (hq : inFilter queues row.queueName = true) (hl : locked row.id = false) :
    selectable locked queues row = true ∨ scheduledDue parseIsoUtc now row = true := by
  have hname := row.named
  cases hd : row.stateData <;>
    simp_all [selectable, listed, scheduledDue, whereAvailable, isJobAvailable, JobState.kind,
      jobStateToName, jobStateKindToName]

theorem listed_of_scheduledDue (h : scheduledDue parseIsoUtc now row = true) :
    listed parseIsoUtc now row = true := by
  have hname := row.named
  cases hd : row.stateData <;>
    simp_all [listed, scheduledDue, whereAvailable, isJobAvailable, JobState.kind,
      jobStateToName, jobStateKindToName]

theorem inFilter_of_selectable (h : selectable locked queues row = true) :
    inFilter queues row.queueName = true := by
  simp_all [selectable]

/-- The fetch agrees with the listing exactly when no retry that is not due can
come first, and no due scheduled row is left alone. -/
theorem fetch_agrees_iff :
    FetchAgrees parseIsoUtc table locked now queues ↔
      NothingMisjudged parseIsoUtc table locked now queues := by
  constructor
  · intro h
    refine ⟨fun row hrow hsel hpending => ?_, ?_⟩
    · by_contra hfirst
      obtain ⟨stored, hperm, job, hfetch, hid⟩ :=
        fetch_first now "" hrow hsel fun other ho hs => by
          rw [Row.notAfter, Job.notAfter, Bool.eq_false_iff]
          exact fun hbefore => hfirst ⟨other, ho, hs, hbefore⟩
      obtain ⟨listed, hlisted, hlid, -⟩ := h.eligible stored hperm _ job hfetch
      obtain ⟨other, ho, hol, rfl⟩ := mem_getAvailableJobs.mp hlisted
      obtain rfl := Table.eq_of_id ho hrow (hlid.trans hid)
      rw [listed_of_selectable hsel, hpending] at hol
      cases hol
    · rintro ⟨row, hrow, hdue, hq, hl⟩
      have hlisted := mem_getAvailableJobs.mpr ⟨row, hrow, listed_of_scheduledDue hdue, rfl⟩
      exact fetch_isSome.mp (h.complete table (.refl _) "" ⟨_, hlisted, hq, hl⟩)
  · rintro ⟨hretry, hscheduled⟩
    have eligible : ∀ stored : Table, stored.rows.Perm table.rows → ∀ workerId job,
        (fetchAndLockJob stored locked now workerId queues).1 = some job →
        ∃ row ∈ table.rows, listed parseIsoUtc now row = true ∧ row.id = job.id ∧
          inFilter queues row.queueName = true := by
      intro stored hperm workerId job hfetch
      obtain ⟨row, hrow, hsel, hid, -, hmin⟩ := fetch_some hfetch
      refine ⟨row, hperm.mem_iff.mp hrow, ?_, hid, inFilter_of_selectable hsel⟩
      rw [listed_of_selectable hsel, Bool.not_eq_true']
      by_contra hpending
      obtain ⟨other, ho, hs, hbefore⟩ :=
        hretry row (hperm.mem_iff.mp hrow) hsel (by simpa using hpending)
      have hle : other.toJob.precedes row.toJob = false := hmin other (hperm.mem_iff.mpr ho) hs
      rw [hle] at hbefore
      cases hbefore
    refine ⟨fun stored hperm workerId job hfetch => ?_, ?_, ?_⟩
    · obtain ⟨row, hrow, hlisted, hid, hq⟩ := eligible stored hperm workerId job hfetch
      exact ⟨row.toJob, mem_getAvailableJobs.mpr ⟨row, hrow, hlisted, rfl⟩, hid, hq⟩
    · rintro stored hperm workerId ⟨listed, hlisted, hq, hl⟩
      obtain ⟨row, hrow, hrl, rfl⟩ := mem_getAvailableJobs.mp hlisted
      have hsome : ∃ row ∈ table.rows, selectable locked queues row = true := by
        rcases selectable_of_listed hrl hq hl with hsel | hdue
        · exact ⟨row, hrow, hsel⟩
        · exact hscheduled ⟨row, hrow, hdue, hq, hl⟩
      obtain ⟨row, hrow, hsel⟩ := hsome
      exact fetch_isSome.mpr ⟨row, hperm.mem_iff.mpr hrow, hsel⟩
    · intro stored hperm workerId job hfetch row hrow t retryAt e hstate hfuture hid
      obtain ⟨claimed, hclaimed, hlisted, hcid, -⟩ := eligible stored hperm workerId job hfetch
      obtain rfl := Table.eq_of_id hclaimed hrow (hcid.trans hid.symm)
      simp only [PostgresStorage.listed, isJobAvailable, hstate, Bool.and_eq_true,
        decide_eq_true_eq] at hlisted
      exact absurd hlisted.2 (Int.not_le.mpr hfuture)

end

/-- A table of one job in the given state. -/
def Table.alone (state : JobState) : Table where
  rows := [.ofJob { Job.new "6f1c6f0e-8c1b-4e5e-9b7a-0a3f6d1c2b4a" 0 "send_email" .null with
    state := state }]
  nodup := by simp

/-- The cast, on the two texts read below. -/
def readText (text : String) : DateTime :=
  if text = "1970-01-01T01:00:00Z" then Duration.hours 1 else 0

/-- A retry that is an hour away is claimed at once, and a scheduled job whose
time has come is not claimed at all. -/
theorem fetch_disagrees :
    ¬ FetchAgrees readText (.alone (.awaitingRetry 0 (Duration.hours 1) "connection reset"))
      (fun _ => false) 0 none ∧
    ¬ FetchAgrees readText (.alone (.scheduled 0 (Duration.hours 1) "later"))
      (fun _ => false) (Duration.hours 1) none := by
  constructor
  · intro h
    exact h.backoff _ (.refl _) "worker-1" _ rfl _ (List.mem_singleton_self _) 0 (Duration.hours 1)
      "connection reset" rfl (by decide) rfl
  · intro h
    have hclaimed := h.complete _ (.refl _) "worker-1"
      ⟨_, mem_getAvailableJobs.mpr ⟨_, List.mem_singleton_self _, by decide +kernel, rfl⟩, rfl, rfl⟩
    exact absurd hclaimed (by decide +kernel)

end PostgresStorage
end Qml
