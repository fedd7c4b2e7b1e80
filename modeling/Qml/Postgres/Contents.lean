import Qml.Backends.JobStore
import Qml.Postgres.Statements

namespace Qml
open Lib

namespace PostgresStorage
variable {table after : Table} {id : String} {row old : Row} {job : Job} {driver : Driver}
  {engine : Engine}

namespace Table

theorem get?_iff : table.get? id = some row ↔ row ∈ table.rows ∧ row.id = id := by
  constructor
  · exact mem_of_get?
  · rintro ⟨hrow, hid⟩
    cases hget : table.get? id with
    | none => exact absurd (List.mem_map.mpr ⟨row, hrow, hid⟩) (get?_eq_none.mp hget)
    | some found =>
      obtain ⟨hfound, hfid⟩ := mem_of_get? hget
      rw [eq_of_id hfound hrow (hfid.trans hid.symm)]

theorem get?_congr {other : Table} (h : ∀ row, row ∈ table.rows ↔ row ∈ other.rows) :
    table.get? id = other.get? id := by
  apply Option.ext
  intro row
  rw [get?_iff, get?_iff, h]

@[simp] theorem get?_scan (order : List String) : (table.scan order).get? id = table.get? id :=
  get?_congr fun _ => List.mem_insertionSort _

theorem get?_insert_iff (hnew : table.get? row.id = none) :
    (table.insert row hnew).get? id = if id = row.id then some row else table.get? id := by
  apply Option.ext
  intro found
  rw [get?_iff, insert, List.mem_append, List.mem_singleton]
  split
  · rename_i hid
    subst hid
    constructor
    · rintro ⟨hfound | rfl, hid⟩
      · exact absurd (List.mem_map.mpr ⟨found, hfound, hid⟩) (get?_eq_none.mp hnew)
      · rfl
    · intro h
      cases h
      exact ⟨.inr rfl, rfl⟩
  · rename_i hid
    rw [get?_iff]
    constructor
    · rintro ⟨hfound | rfl, hfid⟩
      · exact ⟨hfound, hfid⟩
      · exact absurd hfid.symm hid
    · rintro ⟨hfound, hfid⟩
      exact ⟨.inl hfound, hfid⟩

/-- Rewriting rows in place rewrites what is found. -/
theorem get?_map {f : Row → Row} (hf : ∀ row, (f row).id = row.id)
    (h : after.rows = table.rows.map f) : after.get? id = (table.get? id).map f := by
  have htest : (fun row : Row => row.id == id) ∘ f = fun row => row.id == id := by
    funext row
    simp [hf]
  rw [get?, get?, h, List.find?_map, htest]

theorem get?_set_iff : (table.set row).get? id =
    if id = row.id then (table.get? id).map fun _ => row else table.get? id := by
  have hmap : (table.set row).get? id =
      (table.get? id).map fun old => if old.id = row.id then row else old :=
    get?_map (fun old => by split <;> simp_all) rfl
  rw [hmap]
  split
  · rename_i hid
    subst hid
    cases hget : table.get? row.id with
    | none => rfl
    | some old => simp [(mem_of_get? hget).2]
  · rename_i hid
    cases hget : table.get? id with
    | none => rfl
    | some old => simp [(mem_of_get? hget).2, hid]

@[simp] theorem get?_filter {p : Row → Bool} :
    (table.filter p).get? id = (table.get? id).filter p := by
  apply Option.ext
  intro row
  rw [get?_iff, filter, List.mem_filter, Option.filter_eq_some_iff, get?_iff]
  exact and_right_comm

@[simp] theorem get?_restate {p : Row → Bool} {state : Row → JobState} :
    (table.restate p state).get? id =
      (table.get? id).map fun row => if p row then row.setState (state row) else row :=
  get?_map (fun row => by split <;> rfl) rfl

/-- The jobs that a table holds, as its rows are read back. -/
def jobs (table : Table) : JobStore := fun id => (table.get? id).map Row.toJob

theorem jobs_iff : table.jobs job.id = some job ↔ job ∈ table.rows.map Row.toJob := by
  rw [jobs, Option.map_eq_some_iff, List.mem_map]
  constructor
  · rintro ⟨row, hrow, hjob⟩
    exact ⟨row, (get?_iff.mp hrow).1, hjob⟩
  · rintro ⟨row, hrow, rfl⟩
    exact ⟨row, get?_iff.mpr ⟨hrow, rfl⟩, rfl⟩

theorem jobs_set (hrow : table.get? row.id = some old) :
    (table.set row).jobs = table.jobs.put row.toJob := by
  funext id
  rw [jobs, get?_set_iff, JobStore.put_apply]
  change _ = if id = row.id then _ else _
  split
  · rename_i hid
    subst hid
    rw [hrow]
    rfl
  · rfl

/-- The lock columns are not part of a job. -/
theorem jobs_relock (hrow : table.get? id = some old) (hjob : row.toJob = old.toJob) :
    (table.set row).jobs = table.jobs := by
  have hid : row.id = id := (congrArg Job.id hjob).trans (mem_of_get? hrow).2
  subst hid
  rw [jobs_set hrow]
  funext id'
  rw [JobStore.put_apply]
  split
  · rename_i h
    have hrid : id' = row.id := h
    rw [hrid, jobs, hrow, hjob]
    rfl
  · rfl

end Table

theorem jobStateKindToName_injective {a b : JobStateKind}
    (h : jobStateKindToName a = jobStateKindToName b) : a = b := by
  cases a <;> cases b <;> first | rfl | exact absurd h (by decide)

/-- The job that comes back from the columns of a job that was written. -/
def asStored (id : String) (createdAt : DateTime) (job : Job) : Job :=
  { (Row.ofJob job).toJob with id := id, createdAt := createdAt }

theorem bound_ok {message name : String} {n : UInt64} {m : Nat}
    (h : bound engine message name n = .ok m) : m = n.toNat := by
  unfold bound at h
  split at h
  · cases h
  · rename_i hneg
    cases h
    have hbound := n.toNat_lt
    have hvalue : n.toInt64.toInt = (n.toNat : Int).bmod (2 ^ 64) := BitVec.toInt_eq_toNat_bmod _
    rw [Int64.lt_iff_toInt_lt, hvalue, Int64.toInt_zero, Int.bmod_def] at hneg
    rw [hvalue, Int.bmod_def]
    split at hneg <;> omega

theorem optionalBound_ok {message name : String} {n : Option UInt64} {m : Option Nat}
    (h : optionalBound engine message name n = .ok m) : m = n.map UInt64.toNat := by
  cases n with
  | none =>
    cases h
    rfl
  | some n =>
    cases hbound : bound engine message name n with
    | error e =>
      rw [optionalBound, hbound] at h
      cases h
    | ok m' =>
      rw [optionalBound, hbound] at h
      cases h
      rw [bound_ok hbound, Option.map_some]

theorem enqueue_jobs (h : enqueue driver table job = (.ok (), after)) :
    ∃ id, driver.readUuid job.id = .ok id ∧ table.jobs id = none ∧
      after.jobs = table.jobs.put (asStored id job.createdAt job) := by
  unfold enqueue at h
  split at h
  · cases h
  · rename_i id hid
    split at h
    · rename_i hnew
      cases h
      refine ⟨id, hid, by rw [Table.jobs, hnew, Option.map_none], ?_⟩
      funext id'
      rw [Table.jobs, Table.get?_insert_iff, JobStore.put_apply]
      change _ = if id' = id then _ else _
      by_cases hsame : id' = id
      · rw [if_pos hsame, if_pos hsame]
        rfl
      · rw [if_neg hsame, if_neg hsame]
        rfl
    · cases h

theorem rewrite_jobs (hold : table.get? id = some old) :
    (table.set (old.rewrite job)).jobs = table.jobs.put (asStored id old.createdAt job) := by
  have hid := (Table.mem_of_get? hold).2
  subst hid
  have hset : (table.set (old.rewrite job)).jobs = table.jobs.put (old.rewrite job).toJob :=
    Table.jobs_set hold
  exact hset

theorem update_jobs (h : update driver table job = (.ok (), after)) :
    ∃ id old, driver.readUuid job.id = .ok id ∧ table.get? id = some old ∧
      after.jobs = table.jobs.put (asStored id old.createdAt job) := by
  unfold update at h
  split at h
  · cases h
  · rename_i id hid
    split at h
    · rename_i old hold
      cases h
      refine ⟨id, old, hid, hold, ?_⟩
      rw [← rewrite_jobs hold]
      have hoid := (Table.mem_of_get? hold).2
      subst hoid
      rfl
    · cases h

/-- A request that fails leaves the table as it was. -/
theorem enqueue_error {e : StorageError} (h : enqueue driver table job = (.error e, after)) :
    after = table := by
  unfold enqueue at h
  split at h
  · cases h
    rfl
  · split at h <;> cases h
    rfl

theorem update_error {e : StorageError} (h : update driver table job = (.error e, after)) :
    after = table := by
  unfold update at h
  split at h
  · cases h
    rfl
  · split at h <;> cases h
    rfl

theorem updateWhere_cases {expected : JobStateKind} {n : Nat}
    (h : updateWhere table id expected job = (n, after)) :
    (∃ old, n = 1 ∧ table.get? id = some old ∧ old.stateData.kind = expected ∧
      after.jobs = table.jobs.put (asStored id old.createdAt job)) ∨
    n = 0 ∧ after = table ∧ ∀ old, table.get? id = some old → old.stateData.kind ≠ expected := by
  unfold updateWhere at h
  split at h
  · rename_i old hold
    split at h
    · rename_i hname
      cases h
      refine .inl ⟨old, rfl, hold, ?_, rewrite_jobs hold⟩
      rw [old.named] at hname
      exact jobStateKindToName_injective hname
    · rename_i hname
      cases h
      refine .inr ⟨rfl, rfl, ?_⟩
      intro old' hold' hkind
      rw [hold] at hold'
      cases hold'
      exact hname (by rw [old.named, jobStateToName, hkind])
  · rename_i hnone
    cases h
    refine .inr ⟨rfl, rfl, ?_⟩
    intro old hold
    rw [hnone] at hold
    cases hold

theorem delete_jobs {jobId : String} {answer : Bool}
    (h : delete driver table jobId = (.ok answer, after)) :
    ∃ id, driver.readUuid jobId = .ok id ∧ answer = (table.jobs id).isSome ∧
      after.jobs = table.jobs.erase id := by
  unfold delete at h
  split at h
  · cases h
  · rename_i id hid
    cases h
    refine ⟨id, hid, by rw [Table.jobs, Option.isSome_map], ?_⟩
    funext id'
    rw [Table.jobs, Table.get?_filter, JobStore.erase_apply]
    cases hget : table.get? id' with
    | none => simp [Table.jobs, hget]
    | some row =>
      have hrow := (Table.mem_of_get? hget).2
      by_cases hsame : id' = id <;> simp [Table.jobs, hget, Option.filter, hrow, hsame]

theorem delete_error {jobId : String} {e : StorageError}
    (h : delete driver table jobId = (.error e, after)) : after = table := by
  unfold delete at h
  split at h <;> cases h
  rfl

/-- What each statement that restates rows does to the jobs. -/
theorem restate_jobs {p : Row → Bool} {state : Row → JobState} (id : String) :
    (table.restate p state).jobs id = (table.get? id).map fun row =>
      if p row then { row.toJob with state := state row } else row.toJob := by
  rw [Table.jobs, Table.get?_restate, Option.map_map]
  refine congrArg (fun f => Option.map f _) (funext fun row => ?_)
  simp only [Function.comp_apply]
  split <;> rfl

theorem whereDue_kind {kind : JobStateKind} {now : DateTime}
    (h : whereDue engine kind now row = true) : row.stateData.kind = kind := by
  unfold whereDue at h
  rw [Bool.and_eq_true, beq_iff_eq, row.named] at h
  exact jobStateKindToName_injective h.1

theorem mem_dueIds {kind : JobStateKind} {locked : String → Bool} {now : DateTime} {limit : Nat}
    (h : id ∈ dueIds engine kind table locked now limit) :
    ∃ row, table.get? id = some row ∧ whereDue engine kind now row = true ∧ locked id = false := by
  obtain ⟨row, hrow, rfl⟩ := List.mem_map.mp h
  have hmem := List.mem_of_mem_take hrow
  rw [List.mem_insertionSort, List.mem_filter, Bool.and_eq_true, Bool.not_eq_true'] at hmem
  exact ⟨row, Table.get?_iff.mpr ⟨hmem.1, rfl⟩, hmem.2⟩

/-- The rows that `RETURNING` gives back. -/
theorem mem_returned {p : Row → Bool} {order : List String} :
    job ∈ (Table.arrange order (table.rows.filter p)).map Row.toJob ↔
      ∃ row ∈ table.rows, p row = true ∧ row.toJob = job := by
  simp only [List.mem_map, Table.arrange, List.mem_insertionSort, List.mem_filter, and_assoc]

theorem returned_nodup {p : Row → Bool} {order : List String} :
    (((Table.arrange order (table.rows.filter p)).map Row.toJob).map Job.id).Nodup := by
  rw [List.map_map]
  refine (((List.perm_insertionSort _ _).map Row.id).nodup_iff).mpr ?_
  exact table.nodup.sublist (List.filter_sublist.map Row.id)

/-- A claim returns the rows it has promoted, each once. -/
theorem claimDue_cases {message : String} {kind : JobStateKind} {setting : Setting}
    {now : DateTime} {limit : UInt64} {claimed : List Job}
    (h : claimDue engine message kind table setting now limit = (.ok claimed, after)) :
    (claimed.map Job.id).Nodup ∧
    (∀ job ∈ claimed, after.jobs job.id = some job ∧ ∃ old, table.jobs job.id = some old ∧
      old.state.kind = kind ∧ job = { old with state := .enqueued setting.now old.queue }) ∧
    ∀ id, id ∉ claimed.map Job.id → after.jobs id = table.jobs id := by
  unfold claimDue at h
  split at h
  · cases h
  · rename_i limit' hlimit
    generalize hids : dueIds engine kind (table.scan setting.scan) setting.locked now limit' = ids
      at h
    cases h
    have hdue : ∀ row ∈ table.rows, row.id ∈ ids → row.stateData.kind = kind := by
      intro row hrow hid
      obtain ⟨due, hget, hwhere, -⟩ := mem_dueIds (hids ▸ hid)
      rw [Table.get?_scan, Table.get?_iff] at hget
      rw [← Table.eq_of_id hget.1 hrow hget.2]
      exact whereDue_kind hwhere
    refine ⟨returned_nodup, ?_, ?_⟩
    · intro job hjob
      obtain ⟨row, hrow, hid, rfl⟩ := mem_returned.mp hjob
      refine ⟨Table.jobs_iff.mpr (List.mem_map_of_mem hrow), ?_⟩
      obtain ⟨old, hold, rfl⟩ := List.mem_map.mp hrow
      have hin : ids.contains old.id = true := by
        split at hid
        · assumption
        · exact hid
      rw [if_pos hin]
      exact ⟨old.toJob, Table.jobs_iff.mpr (List.mem_map_of_mem hold),
        hdue old hold (by simpa using hin), rfl⟩
    · intro id hid
      rw [restate_jobs, Table.jobs]
      cases hget : table.get? id with
      | none => rfl
      | some row =>
        obtain ⟨hrow, rfl⟩ := Table.mem_of_get? hget
        have hout : ids.contains row.id = false := by
          rw [Bool.eq_false_iff]
          intro hin
          apply hid
          refine List.mem_map.mpr ⟨_, mem_returned.mpr ⟨_, List.mem_map_of_mem hrow, ?_, rfl⟩, ?_⟩
          · rw [if_pos hin]
            exact hin
          · rw [if_pos hin]
            rfl
        rw [Option.map_some, Option.map_some, hout, if_neg Bool.false_ne_true]

theorem claimDue_error {message : String} {kind : JobStateKind} {setting : Setting}
    {now : DateTime} {limit : UInt64} {e : StorageError}
    (h : claimDue engine message kind table setting now limit = (.error e, after)) :
    after = table := by
  unfold claimDue at h
  split at h <;> cases h
  rfl

/-- A fetch takes one waiting row and returns it as it has left it. -/
theorem fetchAndLockJob_cases {locked : String → Bool} {now : DateTime} {workerId : String}
    {queues : Option (List String)} {order : List String}
    (h : fetchAndLockJob (table.scan order) locked now workerId queues = (some job, after)) :
    ∃ old, table.jobs job.id = some old ∧ old.state.kind.waiting = true ∧
      inFilter queues old.queue = true ∧
      job = { old with state := .processing now workerId "postgres-storage" } ∧
      after.jobs = table.jobs.put job := by
  unfold fetchAndLockJob at h
  split at h
  · rename_i row hfirst
    cases h
    obtain ⟨hrow, hsel⟩ := List.mem_filter.mp (mem_of_first hfirst)
    have hget : (table.scan order).get? row.id = some row := Table.get?_iff.mpr ⟨hrow, rfl⟩
    have hscan : (table.scan order).jobs = table.jobs := by
      funext id
      rw [Table.jobs, Table.jobs, Table.get?_scan]
    simp only [selectable, Bool.and_eq_true] at hsel
    refine ⟨row.toJob, ?_, ?_, hsel.1.2, rfl, ?_⟩
    · rw [← hscan]
      exact congrArg (Option.map Row.toJob) hget
    · have hname := hsel.1.1
      rw [row.named] at hname
      change row.stateData.kind.waiting = true
      unfold jobStateToName at hname
      generalize row.stateData.kind = kind at hname
      cases kind <;> first | rfl | exact absurd hname (by decide)
    · have hset : ((table.scan order).set (row.setState (.processing now workerId
          "postgres-storage"))).jobs = _ := Table.jobs_set hget
      rw [← hscan]
      exact hset
  · cases h

theorem fetchAndLockJob_none {locked : String → Bool} {now : DateTime} {workerId : String}
    {queues : Option (List String)} {order : List String}
    (h : fetchAndLockJob (table.scan order) locked now workerId queues = (none, after)) :
    after.jobs = table.jobs := by
  unfold fetchAndLockJob at h
  split at h
  · cases h
  · cases h
    funext id
    rw [Table.jobs, Table.jobs, Table.get?_scan]

/-- A number of rows is a number of identifiers. -/
theorem numbers_rows {p : Row → Bool} {q : String → Prop}
    (hq : ∀ id, q id ↔ ∃ row, table.get? id = some row ∧ p row = true) :
    JobStore.Numbers q (table.rows.filter p).length := by
  refine ⟨(table.rows.filter p).map Row.id, ?_, fun id => ?_, List.length_map _⟩
  · exact table.nodup.sublist (List.filter_sublist.map Row.id)
  · rw [hq, List.mem_map]
    constructor
    · rintro ⟨row, hrow, rfl⟩
      rw [List.mem_filter] at hrow
      exact ⟨row, Table.get?_iff.mpr ⟨hrow.1, rfl⟩, hrow.2⟩
    · rintro ⟨row, hget, hp⟩
      obtain ⟨hrow, hid⟩ := Table.mem_of_get? hget
      exact ⟨row, List.mem_filter.mpr ⟨hrow, hp⟩, hid⟩

theorem deleteExpiredJobs_next {now : DateTime} {n : Nat}
    (h : deleteExpiredJobs table now = (n, after)) :
    JobStore.Next Eq table.jobs (.expired now n) after.jobs := by
  cases h
  have hafter : ∀ id, (table.filter fun row =>
      !(row.expiresAt.any fun t => decide (t < now))).jobs id =
        ((table.get? id).filter fun row => !(row.expiresAt.any fun t => decide (t < now))).map
          Row.toJob := by
    intro id
    rw [Table.jobs, Table.get?_filter]
  refine .expired now _ _ (fun id => ?_) (fun id job expiresAt hjob hexpires => ?_)
    (numbers_rows fun id => ?_)
  · rw [hafter, Table.jobs]
    cases hget : table.get? id with
    | none => exact .inl rfl
    | some row =>
      cases hexp : row.expiresAt.any fun t => decide (t < now) with
      | false => simp [Option.filter, hexp]
      | true =>
        obtain ⟨expiresAt, hat, hlt⟩ := (Option.any_eq_true _ _).mp hexp
        refine .inr ⟨by simp [Option.filter, hexp], row.toJob, expiresAt, rfl, hat, ?_⟩
        exact (of_decide_eq_true hlt).le
  · rw [hafter, Option.map_eq_some_iff] at hjob
    obtain ⟨row, hrow, rfl⟩ := hjob
    obtain ⟨-, hkept⟩ := Option.filter_eq_some_iff.mp hrow
    have hat : row.expiresAt = some expiresAt := hexpires
    rw [hat, Option.any_some, Bool.not_eq_true', decide_eq_false_iff_not] at hkept
    exact not_lt.mp hkept
  · rw [hafter, Table.jobs]
    cases hget : table.get? id with
    | none => simp
    | some row =>
      cases hexp : row.expiresAt.any fun t => decide (t < now) <;> simp [Option.filter, hexp]

/-- A sweep puts back exactly the rows of lost workers. -/
theorem recover_next {lost : JobState → Bool} {now : DateTime} {n : Nat}
    (hlost : ∀ state, lost state = true → state.kind = .processing)
    (h : recover table lost now = (n, after)) :
    JobStore.Next Eq table.jobs (.recovered lost n) after.jobs := by
  cases h
  have hname : ∀ row : Row, lost row.stateData = true → row.stateName = "processing" := by
    intro row hl
    rw [row.named, jobStateToName, hlost _ hl]
    rfl
  have hafter : ∀ id, (updateProcessingToEnqueued table lost now).jobs id =
      (table.get? id).map fun row => if lost row.stateData = true then
        { row.toJob with state := .enqueued now row.queueName } else row.toJob := by
    intro id
    have hmap : (updateProcessingToEnqueued table lost now).get? id = (table.get? id).map fun row =>
        if row.stateName = "processing" ∧ lost row.stateData = true then
          { row.setState (.enqueued now row.queueName) with
            lockedBy := none
            lockExpiresAt := none }
        else row := Table.get?_map (fun row => by split <;> rfl) rfl
    rw [Table.jobs, hmap, Option.map_map]
    refine congrArg (fun f => Option.map f _) (funext fun row => ?_)
    simp only [Function.comp_apply]
    by_cases hl : lost row.stateData = true
    · rw [if_pos ⟨hname row hl, hl⟩, if_pos hl]
      rfl
    · rw [if_neg (fun h => hl h.2), if_neg hl]
  refine .recovered lost _ _ hlost (fun id job hjob hl => ?_) (fun id hrest => ?_)
    (numbers_rows fun id => ?_)
  · obtain ⟨row, hrow, rfl⟩ := Option.map_eq_some_iff.mp hjob
    have hl' : lost row.stateData = true := hl
    refine ⟨_, now, ?_, rfl⟩
    rw [hafter, hrow, Option.map_some, if_pos hl']
    rfl
  · rw [hafter, Table.jobs]
    cases hget : table.get? id with
    | none => rfl
    | some row =>
      have hl : lost row.stateData = false :=
        hrest row.toJob (by rw [Table.jobs, hget, Option.map_some])
      rw [Option.map_some, Option.map_some, hl, if_neg Bool.false_ne_true]
  · simp only [Table.jobs, Option.map_eq_some_iff]
    constructor
    · rintro ⟨job, ⟨row, hrow, rfl⟩, hl⟩
      exact ⟨row, hrow, by simpa using ⟨hname row hl, hl⟩⟩
    · rintro ⟨row, hrow, hp⟩
      rw [decide_eq_true_eq] at hp
      exact ⟨row.toJob, ⟨row, hrow, rfl⟩, hp.2⟩

theorem whereState_iff {stateFilter : Option JobStateKind} : whereState stateFilter row = true ↔
    ∀ kind, stateFilter = some kind → row.toJob.state.kind = kind := by
  cases stateFilter with
  | none => simp [whereState]
  | some kind =>
    simp only [whereState, beq_iff_eq, Option.some.injEq, forall_eq', row.named, jobStateToName]
    exact ⟨fun h => jobStateKindToName_injective h, fun h => congrArg _ h⟩

/-- A listing gives a part of all that match, the newest first. -/
theorem list_next {order : List String} {stateFilter : Option JobStateKind}
    {limit offset : Option UInt64} {jobs : List Job}
    (h : list engine (table.scan order) stateFilter limit offset = .ok jobs) :
    JobStore.Next Eq table.jobs
      (.listed stateFilter (limit.map UInt64.toNat) (offset.getD 0).toNat jobs) table.jobs := by
  let rows := (table.scan order).rows.filter (whereState stateFilter)
  have hpart : jobs = part ((rows.map Row.toJob).insertionSort Job.newestFirst)
      (limit.map UInt64.toNat) (offset.getD 0).toNat := by
    have hsort : (rows.insertionSort Row.newestFirst).map Row.toJob =
        (rows.map Row.toJob).insertionSort Job.newestFirst :=
      List.map_insertionSort _ _ _ _ fun _ _ _ _ => Iff.rfl
    rw [← hsort, ← map_part]
    unfold list at h
    split at h
    · cases h
    · rename_i offset' hoffset
      obtain rfl := optionalBound_ok hoffset
      cases hlimit : optionalBound engine "Failed to list jobs" "LIMIT" limit with
      | error e =>
        rw [hlimit] at h
        cases h
      | ok limit' =>
        obtain rfl := optionalBound_ok hlimit
        rw [hlimit] at h
        cases h
        cases offset <;> rfl
  rw [hpart]
  refine .listed _ _ _ _ (.insertionSort ?_ fun job => ?_)
  · apply List.Nodup.of_map Job.id
    rw [List.map_map]
    exact (table.scan order).nodup.sublist (List.filter_sublist.map Row.id)
  · rw [JobStore.Matches, Table.jobs_iff]
    simp only [rows, List.mem_map, List.mem_filter, Table.scan, Table.arrange,
      List.mem_insertionSort]
    constructor
    · rintro ⟨row, ⟨hrow, hwhere⟩, rfl⟩
      exact ⟨⟨row, hrow, rfl⟩, whereState_iff.mp hwhere⟩
    · rintro ⟨⟨row, hrow, rfl⟩, hkind⟩
      exact ⟨row, ⟨hrow, whereState_iff.mpr hkind⟩, rfl⟩

theorem nameToKind_iff {name : String} {kind : JobStateKind} :
    nameToKind name = some kind ↔ name = jobStateKindToName kind := by
  constructor
  · intro h
    unfold nameToKind at h
    repeat' split at h
    all_goals first
      | (cases h; assumption)
      | cases h
  · rintro rfl
    cases kind <;> decide

/-- The loop over the groups keeps the count of every known state. -/
theorem foldl_counts (groups : List (String × Nat)) (hn : (groups.map Prod.fst).Nodup)
    (counts : Dict JobStateKind Nat) (kind : JobStateKind) :
    (groups.foldl countGroup counts).get? kind =
      (groups.lookup (jobStateKindToName kind)).or (counts.get? kind) := by
  induction groups generalizing counts with
  | nil => rfl
  | cons e groups ih =>
    obtain ⟨name, count⟩ := e
    rw [List.map_cons, List.nodup_cons] at hn
    rw [List.foldl_cons, ih hn.2, List.lookup_cons]
    by_cases hname : name = jobStateKindToName kind
    · subst hname
      have hnone : groups.lookup (jobStateKindToName kind) = none := by
        apply Option.eq_none_iff_forall_not_mem.mpr
        intro v hv
        exact hn.1 (List.mem_map.mpr ⟨_, (Dict.lookup_iff hn.2).mp hv, rfl⟩)
      simp [hnone, countGroup, nameToKind_iff.mpr rfl]
    · have hother : ∀ kind', nameToKind name = some kind' → kind ≠ kind' := by
        rintro kind' hk rfl
        exact hname (nameToKind_iff.mp hk)
      rw [beq_eq_false_iff_ne.mpr (Ne.symm hname)]
      cases hk : nameToKind name with
      | none => simp [countGroup, hk]
      | some kind' => simp [countGroup, hk, hother kind' hk]

theorem getJobCounts_next {order : List String} :
    JobStore.Next Eq table.jobs (.counted (getJobCounts (table.scan order))) table.jobs := by
  refine .counted _ fun kind => ?_
  have hcount : ((getJobCounts (table.scan order)).get? kind).getD 0 =
      ((table.scan order).rows.filter fun row =>
        row.stateName = jobStateKindToName kind).length := by
    rw [getJobCounts, foldl_counts _ (Dict.nodup _), Dict.get?_empty, Option.or_none]
    refine (Dict.getD_group (table.scan order).rows (jobStateKindToName kind)).trans ?_
    rw [List.foldl_add_const, Nat.zero_add, Nat.one_mul]
  rw [hcount]
  refine numbers_rows fun id => ?_
  simp only [Table.get?_scan, Table.jobs, Option.map_eq_some_iff, decide_eq_true_eq]
  constructor
  · rintro ⟨job, ⟨row, hrow, rfl⟩, hkind⟩
    exact ⟨row, hrow, by rw [row.named, jobStateToName]; exact congrArg _ hkind⟩
  · rintro ⟨row, hrow, hname⟩
    rw [row.named] at hname
    exact ⟨row.toJob, ⟨row, hrow, rfl⟩, jobStateKindToName_injective hname⟩

end PostgresStorage
end Qml
