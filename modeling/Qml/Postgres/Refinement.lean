import Qml.Postgres.Contents

namespace Qml
open Lib

namespace PostgresStorage

/-- What a statement with its reply means for the jobs. A statement that fails, and one that
only reads or moves locks, means nothing. -/
def meaning (engine : Engine) (table : Table) :
    {ρ : Type} → Sql ρ → ρ → Option JobStore.Event
  | _, .get jobId, .ok answer => (engine.readUuid jobId).toOption.map (.found · answer)
  | _, .enqueue job, .ok () =>
      (engine.readUuid job.id).toOption.map fun id => .enqueued (asStored id job.createdAt job)
  | _, .update job, .ok () => do
      let id ← (engine.readUuid job.id).toOption
      let old ← table.get? id
      return .updated (asStored id old.createdAt job)
  | _, .updateWhere id expected job, rowsAffected => (table.get? id).map fun old =>
      .swapped (asStored id old.createdAt job) expected (decide (0 < rowsAffected))
  | _, .delete jobId, .ok answer => (engine.readUuid jobId).toOption.map (.deleted · answer)
  | _, .list stateFilter limit offset, .ok answer =>
      some (.listed stateFilter (limit.map UInt64.toNat) (offset.getD 0).toNat answer)
  | _, .getJobCounts, .ok answer => some (.counted answer)
  | _, .claimDueScheduledJobs .., .ok answer => some (.promoted .scheduled answer)
  | _, .claimDueRetryJobs .., .ok answer => some (.promoted .awaitingRetry answer)
  | _, .deleteExpiredJobs now, .ok answer => some (.expired now answer)
  | _, .requeueStrandedJobs staleBefore, .ok answer =>
      some (.recovered (stale engine staleBefore) answer)
  | _, .reclaimJobsFromServer serverId, .ok answer => some (.recovered (ownedBy serverId) answer)
  | _, .fetchAndLockJob workerId _, .ok (some job) =>
      some (.handedOut workerId "postgres-storage" job)
  | _, _, _ => none

variable {engine : Engine} {setting : Setting} {table after : Table} {ρ : Type} {op : Sql ρ}
  {reply : ρ}

theorem stale_kind {staleBefore : DateTime} {state : JobState}
    (h : stale engine staleBefore state = true) : state.kind = .processing := by
  cases state <;> simp_all [stale, JobState.kind]

theorem ownedBy_kind {serverId : String} {state : JobState} (h : ownedBy serverId state = true) :
    state.kind = .processing := by
  cases state <;> simp_all [ownedBy, JobState.kind]

/-- Neither of the two lock functions touches a job. -/
theorem tryAcquireJobLock_jobs {driver : Driver} {jobId workerId : String}
    {timeoutSeconds : UInt64} {now : DateTime} :
    (tryAcquireJobLock driver table jobId workerId timeoutSeconds now).2.jobs = table.jobs := by
  unfold tryAcquireJobLock
  split
  · rfl
  · unfold acquireJobLock
    split
    · rename_i row hrow
      split
      · exact Table.jobs_relock hrow rfl
      · rfl
    · rfl

theorem releaseJobLock_jobs {driver : Driver} {jobId workerId : String} :
    (releaseJobLock driver table jobId workerId).2.jobs = table.jobs := by
  unfold releaseJobLock
  split
  · rfl
  · split
    · rename_i row hrow
      split
      · exact Table.jobs_relock hrow rfl
      · rfl
    · rfl

/-- A claim of due jobs, whether it succeeds or not. -/
theorem claimDue_next {message : String} {kind : JobStateKind} {now : DateTime} {limit : UInt64}
    {answer : List Job} (hkind : kind = .scheduled ∨ kind = .awaitingRetry)
    (h : claimDue engine message kind table setting now limit = (.ok answer, after)) :
    JobStore.Next Eq table.jobs (.promoted kind answer) after.jobs := by
  obtain ⟨hnodup, hclaimed, hrest⟩ := claimDue_cases h
  refine .promoted kind answer _ hkind hnodup (fun job hjob => ?_) hrest
  obtain ⟨hafter, old, hold, hk, heq⟩ := hclaimed job hjob
  exact ⟨hafter, old, _, hold, hk, heq.symm⟩

/-- What a statement means is what the contract lets happen; one that means nothing leaves
every job as it was. -/
theorem perform_advances (h : op.perform engine setting table = (reply, after)) :
    Advances (JobStore.Next Eq) table.jobs (meaning engine table op reply) after.jobs := by
  cases op with
  | get jobId =>
    cases h
    unfold PostgresStorage.get
    cases hid : engine.readUuid jobId with
    | error e => rfl
    | ok id =>
      simp only [meaning, hid]
      exact .found id
  | enqueue job =>
    cases reply with
    | error e => rw [enqueue_error h]; rfl
    | ok _ =>
      obtain ⟨id, hid, -, hafter⟩ := enqueue_jobs h
      simp only [meaning, hid]
      rw [hafter]
      exact .enqueued _
  | update job =>
    cases reply with
    | error e => rw [update_error h]; rfl
    | ok _ =>
      obtain ⟨id, old, hid, hold, hafter⟩ := update_jobs h
      have hjob : table.jobs id = some old.toJob := congrArg (Option.map Row.toJob) hold
      simp only [meaning, hid, Except.toOption, Option.bind_eq_bind, Option.bind_some, hold]
      rw [hafter]
      exact .updated _ old.toJob hjob
  | updateWhere id expected job =>
    rcases updateWhere_cases h with ⟨old, rfl, hold, hkind, hafter⟩ | ⟨rfl, rfl, hother⟩
    · have hjob : table.jobs id = some old.toJob := congrArg (Option.map Row.toJob) hold
      subst hkind
      simp only [meaning, hold]
      rw [hafter]
      exact .swapped _ old.toJob hjob
    · cases hold : after.get? id with
      | none =>
        simp only [meaning, hold]
        rfl
      | some old =>
        have hjob : after.jobs id = some old.toJob := congrArg (Option.map Row.toJob) hold
        simp only [meaning, hold]
        exact .unswapped _ old.toJob expected hjob (hother old hold)
  | delete jobId =>
    cases reply with
    | error e => rw [delete_error h]; rfl
    | ok answer =>
      obtain ⟨id, hid, rfl, hafter⟩ := delete_jobs h
      simp only [meaning, hid]
      rw [hafter]
      exact .deleted id
  | list stateFilter limit offset =>
    cases h
    cases hlist :
        PostgresStorage.list engine (table.scan setting.scan) stateFilter limit offset with
    | error e => rfl
    | ok jobs => exact list_next hlist
  | getJobCounts =>
    cases h
    exact getJobCounts_next
  | claimDueScheduledJobs now limit =>
    cases reply with
    | error e => rw [claimDue_error h]; rfl
    | ok answer => exact claimDue_next (.inl rfl) h
  | claimDueRetryJobs now limit =>
    cases reply with
    | error e => rw [claimDue_error h]; rfl
    | ok answer => exact claimDue_next (.inr rfl) h
  | deleteExpiredJobs now =>
    cases h
    exact deleteExpiredJobs_next rfl
  | requeueStrandedJobs staleBefore =>
    cases h
    exact recover_next (fun _ => stale_kind) rfl
  | reclaimJobsFromServer serverId =>
    cases h
    exact recover_next (fun _ => ownedBy_kind) rfl
  | fetchAndLockJob workerId queues =>
    generalize hf : PostgresStorage.fetchAndLockJob (table.scan setting.scan) setting.locked
      setting.clock workerId queues = fetched at h
    obtain ⟨job, left⟩ := fetched
    simp only [Sql.perform, hf] at h
    cases h
    cases job with
    | none => exact fetchAndLockJob_none hf
    | some job =>
      obtain ⟨old, hold, hwaits, -, hjob, hafter⟩ := fetchAndLockJob_cases hf
      simp only [meaning]
      rw [id_eq, hafter]
      exact .handedOut old job _ workerId _ hold hwaits hjob.symm
  | tryAcquireJobLock jobId workerId timeoutSeconds =>
    have hjobs : after.jobs = table.jobs := (congrArg (fun r => r.2.jobs) h.symm).trans
      tryAcquireJobLock_jobs
    cases reply <;> exact hjobs
  | releaseJobLock jobId workerId =>
    have hjobs : after.jobs = table.jobs := (congrArg (fun r => r.2.jobs) h.symm).trans
      releaseJobLock_jobs
    cases reply <;> exact hjobs
  | selectExists | getAvailableJobs | fetchDueScheduledJobs | fetchDueRetryJobs =>
    cases h
    rfl

/-- Statements on the jobs table carry out the contract of the backends. -/
def refinement (engine : Engine) : Refinement (Executes engine) (JobStore.Next Eq) where
  inv _ := True
  abs := Table.jobs
  means x := meaning engine x.before x.label.op
    (x.label.op.perform engine x.label.setting x.before).1
  keeps _ _ := trivial
  advances _ h := by
    cases h
    exact perform_advances rfl

/-- An engine that reads every text as the canonical one, and any instant as the first. -/
def Engine.verbatim : Engine where
  toDriver := .verbatim
  parseIsoUtc _ := 0
  timestamptz _ := 0
  negative name := name ++ " must not be negative"

end PostgresStorage
end Qml
