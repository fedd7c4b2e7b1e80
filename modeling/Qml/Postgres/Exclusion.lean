import Qml.Backends.Contract

namespace Qml
open Lib

namespace PostgresStorage

/-- The statements that may put a job back into the queue: a store of it, and the two
recovery sweeps. -/
inductive Sql.Restores (engine : Engine) (id : String) : {ρ : Type} → Sql ρ → Prop
  | enqueue (job : Job) (hid : engine.readUuid job.id = .ok id) : Restores engine id (.enqueue job)
  | update (job : Job) (hid : engine.readUuid job.id = .ok id) : Restores engine id (.update job)
  | updateWhere (expected : JobStateKind) (job : Job) :
      Restores engine id (.updateWhere id expected job)
  | requeueStrandedJobs (staleBefore : DateTime) :
      Restores engine id (.requeueStrandedJobs staleBefore)
  | reclaimJobsFromServer (serverId : String) : Restores engine id (.reclaimJobsFromServer serverId)

/-- The step fetches the job for the worker. -/
def Fetches (x : Step Table Entry) (id workerId : String) : Prop :=
  ∃ queues setting job, x.label = ⟨.fetchAndLockJob workerId queues, setting⟩ ∧
    (fetchAndLockJob (x.before.scan setting.scan) setting.locked setting.clock workerId queues).1 =
      some job ∧ job.id = id

/-- A table holds the job in a state from which it may be claimed. -/
def Table.Waits (table : Table) (id : String) : Prop :=
  ∃ row, table.get? id = some row ∧
    row.stateName ∈ ["enqueued", "scheduled", "awaiting_retry"]

section
variable {engine : Engine} {table : Table} {ρ : Type} {op : Sql ρ} {reply : ρ} {id : String}
  {event : JobStore.Event} {x : Step Table Entry}

/-- What a write or a recovery of the contract comes from. -/
theorem restores_of_writes (h : meaning engine table op reply = some event)
    (hwrites : event.Writes id ∨ ∃ lost n, event = .recovered lost n) :
    Sql.Restores engine id op := by
  cases op with
  | enqueue job =>
    cases reply with
    | error e => cases h
    | ok _ =>
      cases hid : engine.readUuid job.id with
      | error e => simp [meaning, hid, Except.toOption] at h
      | ok id' =>
        simp only [meaning, hid, Except.toOption, Option.map_some, Option.some.injEq] at h
        subst h
        obtain ⟨_, ⟨⟩, rfl⟩ | ⟨_, _, ⟨⟩⟩ := hwrites
        exact .enqueue job hid
  | update job =>
    cases reply with
    | error e => cases h
    | ok _ =>
      cases hid : engine.readUuid job.id with
      | error e => simp [meaning, hid, Except.toOption] at h
      | ok id' =>
        simp only [meaning, hid, Except.toOption, Option.bind_eq_bind, Option.bind_some,
          Option.bind_eq_some_iff] at h
        obtain ⟨old, -, hevent⟩ := h
        cases hevent
        obtain ⟨_, ⟨⟩, rfl⟩ | ⟨_, _, ⟨⟩⟩ := hwrites
        exact .update job hid
  | updateWhere id' expected job =>
    simp only [meaning, Option.map_eq_some_iff] at h
    obtain ⟨old, -, rfl⟩ := h
    rcases hwrites with ⟨_, hstores, rfl⟩ | ⟨_, _, ⟨⟩⟩
    generalize decide (0 < reply) = swapped at hstores
    cases hstores
    exact .updateWhere expected job
  | requeueStrandedJobs staleBefore => exact .requeueStrandedJobs staleBefore
  | reclaimJobsFromServer serverId => exact .reclaimJobsFromServer serverId
  | get | delete =>
    cases reply with
    | error e => cases h
    | ok answer =>
      simp only [meaning, Option.map_eq_some_iff] at h
      obtain ⟨_, -, rfl⟩ := h
      obtain ⟨_, ⟨⟩, -⟩ | ⟨_, _, ⟨⟩⟩ := hwrites
  | list | getJobCounts | claimDueScheduledJobs | claimDueRetryJobs | deleteExpiredJobs =>
    cases reply with
    | error e => cases h
    | ok answer =>
      cases h
      obtain ⟨_, ⟨⟩, -⟩ | ⟨_, _, ⟨⟩⟩ := hwrites
  | fetchAndLockJob =>
    rcases reply with e | _ | job <;> cases h
    obtain ⟨_, ⟨⟩, -⟩ | ⟨_, _, ⟨⟩⟩ := hwrites
  | selectExists | getAvailableJobs | fetchDueScheduledJobs | fetchDueRetryJobs
  | tryAcquireJobLock | releaseJobLock => cases h

theorem waits_iff : table.Waits id ↔ table.jobs.Waits id := by
  have hkinds : ∀ kind, jobStateKindToName kind ∈ ["enqueued", "scheduled", "awaiting_retry"] ↔
      kind.waiting = true := by
    intro kind
    cases kind <;> decide
  have hnames : ∀ row : Row, row.stateName ∈ ["enqueued", "scheduled", "awaiting_retry"] ↔
      row.toJob.state.kind.waiting = true := by
    intro row
    rw [row.named]
    exact hkinds _
  constructor
  · rintro ⟨row, hrow, hname⟩
    exact ⟨row.toJob, congrArg (Option.map Row.toJob) hrow, (hnames row).mp hname⟩
  · rintro ⟨job, hjob, hwaits⟩
    obtain ⟨row, hrow, rfl⟩ := Option.map_eq_some_iff.mp hjob
    exact ⟨row, hrow, (hnames row).mpr hwaits⟩

theorem Fetches.means (engine : Engine) {workerId : String} (h : Fetches x id workerId) :
    ∃ job, (refinement engine).means x = some (.handedOut workerId "postgres-storage" job) ∧
      job.id = id := by
  obtain ⟨before, label, after⟩ := x
  obtain ⟨queues, setting, job, rfl, hfetch, hid⟩ := h
  refine ⟨job, ?_, hid⟩
  change meaning engine before (.fetchAndLockJob workerId queues)
    (.ok (fetchAndLockJob (before.scan setting.scan) setting.locked setting.clock workerId
      queues).1) = _
  rw [hfetch]
  rfl

/-- In every run of statements, by any number of clients in any order and whatever rows are
locked, a job is fetched a second time only after a statement put it back into the queue:
the expiry of its lock alone never lets it be fetched again. -/
theorem fetches_exclusive {after : Table} {pre mid post : List (Step Table Entry)}
    {y : Step Table Entry} {workerId workerId' : String}
    (hr : Run (Executes engine) table (pre ++ x :: (mid ++ y :: post)) after)
    (hx : Fetches x id workerId) (hy : Fetches y id workerId') :
    ∃ z ∈ mid, z.label.op.Restores engine id ∧ ¬ z.before.Waits id ∧ z.after.Waits id := by
  obtain ⟨job, hmeans, hid⟩ := hx.means engine
  obtain ⟨job', hmeans', hid'⟩ := hy.means engine
  obtain ⟨z', hz', hop, hbefore, hafter⟩ := JobStore.handOuts_apart (congrArg Job.state ·.symm)
    ((refinement engine).run_cuts trivial hr hmeans hmeans') ⟨_, _, rfl, hid⟩ ⟨_, _, rfl, hid'⟩
  obtain ⟨z, hz, himage⟩ := (refinement engine).mem_trace.mp hz'
  obtain ⟨event, hevent, rfl⟩ := Option.map_eq_some_iff.mp himage
  refine ⟨z, hz, restores_of_writes hevent ?_, mt waits_iff.mp hbefore, waits_iff.mpr hafter⟩
  rcases hop with hwrites | ⟨lost, n, -, hlabel, -⟩
  · exact .inl hwrites
  · exact .inr ⟨lost, n, hlabel⟩

end

/-- A job is fetched, taken for lost and fetched again. -/
theorem fetches_exclusive_lostAndFound : ∃ pre x mid y post after,
    Run (Executes .verbatim) .empty (pre ++ x :: (mid ++ y :: post)) after ∧
    ∃ z ∈ mid, z.label.op.Restores .verbatim reminder.id ∧ ¬ z.before.Waits reminder.id ∧
      z.after.Waits reminder.id := by
  let setting : Setting := ⟨0, 0, fun _ => false, [], []⟩
  let fetch (workerId : String) : Entry := ⟨.fetchAndLockJob workerId none, setting⟩
  let stored := execute .verbatim .empty ⟨.enqueue reminder, setting⟩
  let claimed := execute .verbatim stored (fetch "worker-1")
  let requeued := execute .verbatim claimed ⟨.requeueStrandedJobs 1, setting⟩
  have hr : Run (Executes .verbatim) .empty ([⟨.empty, ⟨.enqueue reminder, setting⟩, stored⟩] ++
      ⟨stored, fetch "worker-1", claimed⟩ ::
        ([⟨claimed, ⟨.requeueStrandedJobs 1, setting⟩, requeued⟩] ++
          ⟨requeued, fetch "worker-2", execute .verbatim requeued (fetch "worker-2")⟩ :: [])) _ :=
    .cons rfl (.cons rfl (.cons rfl (.cons rfl .nil)))
  have hfirst : Fetches ⟨stored, fetch "worker-1", claimed⟩ reminder.id "worker-1" :=
    ⟨none, setting, _, rfl, rfl, by decide +kernel⟩
  have hsecond : Fetches ⟨requeued, fetch "worker-2", execute .verbatim requeued (fetch "worker-2")⟩
      reminder.id "worker-2" := ⟨none, setting, _, rfl, rfl, by decide +kernel⟩
  exact ⟨_, _, _, _, _, _, hr, fetches_exclusive hr hfirst hsecond⟩

end PostgresStorage
end Qml
