import Qml.Backends.Leases
import Qml.Postgres.Storing
import Qml.Redis.Indices

namespace Qml
open Lib RedisStorage

/-- The jobs of the three backends. -/
structure Backends where
  memory : MemoryStorage
  redis : Db
  postgres : PostgresStorage.Table

/-- What a call says on each of them. -/
structure Replies where
  memory : Except StorageError Unit
  redis : Except StorageError Unit
  postgres : Except StorageError Unit

namespace Backends

/-- The same job is enqueued on each backend, with nothing else going on. -/
structure Enqueues (driver : PostgresStorage.Driver) (codec : Codec) (job : Job) (s : Backends)
    (replies : Replies) (t : Backends) : Prop where
  memory : ∃ envs, (MemoryStorage.enqueue job).alone (fun env s _ call => call.perform env s) envs
    s.memory = some (replies.memory, t.memory)
  redis : ∃ moments, (RedisStorage.enqueue codec job).alone
    (fun moment db _ cmd => some (cmd.perform codec moment db)) moments s.redis =
      some (replies.redis, t.redis)
  postgres : PostgresStorage.enqueue driver s.postgres job = (replies.postgres, t.postgres)

/-- A job with the identifier, which the database driver reads as `uuid`, is stored
everywhere. -/
structure Stores (driver : PostgresStorage.Driver) (id uuid : String) (s : Backends) : Prop where
  memory : (s.memory.jobs.get? id).isSome
  redis : (s.redis.get id).isSome
  read : driver.readUuid id = .ok uuid
  postgres : (s.postgres.get? uuid).isSome

structure Replaced (uuid : String) (job : Job) (replies : Replies) (t : Backends) : Prop where
  memory : replies.memory = .ok () ∧ t.memory.jobs.get? job.id = some job
  redis : replies.redis = .ok () ∧ (t.redis.get job.id).map Blob.job = some job
  postgres : replies.postgres = .ok () ∧
    (t.postgres.get? uuid).map PostgresStorage.Row.toJob = some { job with id := uuid }

structure Rejected (s : Backends) (replies : Replies) (t : Backends) : Prop where
  memory : (∃ e, replies.memory = .error e) ∧ t.memory = s.memory
  redis : (∃ e, replies.redis = .error e) ∧ t.redis = s.redis
  postgres : (∃ e, replies.postgres = .error e) ∧ t.postgres = s.postgres

end Backends

namespace Db
variable {db : Db} {id : String} {job : Job} {old blob : Blob}

/-- The index entries that the views of a job are read from: it is in the set of its state
alone, and each state counts the jobs stored in it. The other two backends read these views
off the stored jobs. -/
structure Describes (db : Db) (id : String) (job : Job) : Prop where
  states : ∀ kind, db.mem (.state (kindToStateName kind)) id = true ↔ kind = job.state.kind
  counts : ∀ kind, db.count (kindToStateName kind) = db.stored kind

theorem Consistent.describes (h : db.Consistent) (hget : db.get id = some blob) :
    db.Describes id blob.job where
  states kind := by
    rw [h.states, hget, Option.any_some, Blob.isIn, decide_eq_true_iff, eq_comm]
  counts kind := by
    have hdrift : db.count (kindToStateName kind) - db.stored kind = 0 := h.drift kind
    exact Int.eq_of_sub_eq_zero hdrift

/-- Adding a job over a stored one leaves its identifier in the set of the old state too. -/
theorem Consistent.mem_add (h : db.Consistent) (hget : db.get blob.job.id = some old)
    (x : Option ℚ) (kind : JobStateKind) :
    (db.add blob x).mem (.state (kindToStateName kind)) blob.job.id = true ↔
      kind = old.job.state.kind ∨ kind = blob.job.state.kind := by
  have hold := (h.describes hget).states kind
  simp only [Db.add, mem_index, Db.mem_hincrby, Db.mem_sadd, Db.mem_set, stateToString]
  simp only [reduceCtorEq, decide_false, Bool.false_or, SetKey.state.injEq, and_true,
    Bool.or_eq_true, decide_eq_true_iff, hold]
  constructor
  · rintro (hname | hkind)
    · exact .inr (kindToStateName_injective hname)
    · exact .inl hkind
  · rintro (hkind | rfl)
    · exact .inr hkind
    · exact .inl rfl

/-- And the old state counts one job more than there are. -/
theorem Consistent.drift_add (h : db.Consistent) (hget : db.get blob.job.id = some old)
    (x : Option ℚ) (kind : JobStateKind) :
    (db.add blob x).drift kind = if kind = old.job.state.kind then 1 else 0 := by
  simp only [Db.add, drift_index, stateToString, drift_hincrby, drift_sadd, drift_set,
    share_some hget, h.drift, Blob.isIn, decide_eq_true_eq]
  by_cases hold : kind = old.job.state.kind <;> by_cases hnew : kind = blob.job.state.kind <;>
    simp_all [eq_comm]

theorem Consistent.not_describes_add (h : db.Consistent) (hget : db.get blob.job.id = some old)
    (x : Option ℚ) : ¬ (db.add blob x).Describes blob.job.id blob.job := by
  intro hdescribes
  have hcounts := hdescribes.counts old.job.state.kind
  have hdrift := h.drift_add hget x old.job.state.kind
  rw [if_pos rfl, Db.drift, hcounts] at hdrift
  omega

end Db

namespace Backends
variable {driver : PostgresStorage.Driver} {codec : Codec} {job : Job} {s t : Backends}
  {replies : Replies} {uuid : String}

/-- Redis takes every job for a new one. -/
theorem Enqueues.on_redis (h : Enqueues driver codec job s replies t) :
    replies.redis = .ok () ∧ ∃ x, t.redis = s.redis.add (codec.serialize job) x := by
  obtain ⟨moments, hrun⟩ := h.redis
  refine Prog.alone_sound (C := Alone codec) (Q := fun reply db =>
    reply = .ok () ∧ ∃ x, db = s.redis.add (codec.serialize job) x)
    (fun moment db _ cmd reply db' hcmd => ⟨moment, Option.some.inj hcmd⟩) ?_ hrun
  exact wp_enqueue fun now => ⟨rfl, _, rfl⟩

/-- The primary key turns every stored identifier down. -/
theorem Enqueues.on_postgres (h : Enqueues driver codec job s replies t)
    (hstored : Stores driver job.id uuid s) :
    (∃ e, replies.postgres = .error e) ∧ t.postgres = s.postgres := by
  have henqueue := h.postgres
  have hsome : ¬ s.postgres.get? uuid = none := by
    intro hnone
    have hpostgres := hstored.postgres
    rw [hnone] at hpostgres
    cases hpostgres
  simp only [PostgresStorage.enqueue, hstored.read, dif_neg hsome, Prod.mk.injEq] at henqueue
  exact ⟨⟨_, henqueue.1.symm⟩, henqueue.2.symm⟩

/-- Memory replaces the job, or is full. -/
theorem Enqueues.on_memory (h : Enqueues driver codec job s replies t) :
    replies.memory = .ok () ∧ t.memory.jobs.get? job.id = some job ∨
      (∃ e, replies.memory = .error e) ∧ t.memory = s.memory := by
  obtain ⟨envs, hrun⟩ := h.memory
  change Prog.alone _ (if s.memory.isAtCapacity then _ else _) _ s.memory = _ at hrun
  cases hfull : s.memory.isAtCapacity with
  | true =>
    rw [hfull] at hrun
    have hend := Option.some.inj hrun
    exact .inr ⟨⟨_, (congrArg Prod.fst hend).symm⟩, (congrArg Prod.snd hend).symm⟩
  | false =>
    rw [hfull] at hrun
    have hend := Option.some.inj hrun
    refine .inl ⟨(congrArg Prod.fst hend).symm, ?_⟩
    have hafter : s.memory.insertJob job = t.memory := congrArg Prod.snd hend
    rw [← hafter, MemoryStorage.insertJob, Jobs.get?_insert, if_pos rfl]

/-- What each backend makes of a job whose identifier is stored: memory replaces the stored
one unless it is full, Redis replaces it but keeps the identifier in the set of the old state
as well, and Postgres turns the new one down. -/
structure Diverged (job : Job) (s : Backends) (replies : Replies) (t : Backends) : Prop where
  memory : replies.memory = .ok () ∧ t.memory.jobs.get? job.id = some job ∨
    (∃ e, replies.memory = .error e) ∧ t.memory = s.memory
  redis : replies.redis = .ok () ∧ (t.redis.get job.id).map Blob.job = some job
  states : s.redis.Consistent → ∀ old, s.redis.get job.id = some old → ∀ kind,
    t.redis.mem (.state (kindToStateName kind)) job.id = true ↔
      kind = old.job.state.kind ∨ kind = job.state.kind
  postgres : (∃ e, replies.postgres = .error e) ∧ t.postgres = s.postgres

theorem Enqueues.diverged (henqueue : Enqueues driver codec job s replies t)
    (hstored : Stores driver job.id uuid s) : Diverged job s replies t := by
  obtain ⟨hok, x, hadd⟩ := henqueue.on_redis
  have hblob := codec.serialize_job job
  refine ⟨henqueue.on_memory, ⟨hok, ?_⟩, fun hconsistent old hold kind => ?_,
    henqueue.on_postgres hstored⟩
  · rw [hadd]
    simp [Db.add, hblob]
  · have hget : s.redis.get (codec.serialize job).job.id = some old := by rwa [hblob]
    have hmem := hconsistent.mem_add hget x kind
    rwa [hblob, ← hadd] at hmem

/-- Whatever the two jobs, their states and their queues, the backends never agree on a
stored identifier, and what Redis keeps in its indices never describes the stored job. -/
theorem reenqueue_never_agrees (hstored : Stores driver job.id uuid s)
    (henqueue : Enqueues driver codec job s replies t) :
    Diverged job s replies t ∧ ¬ (Replaced uuid job replies t ∨ Rejected s replies t) ∧
      (s.redis.Consistent → ¬ t.redis.Describes job.id job) := by
  have hdiverged := henqueue.diverged hstored
  refine ⟨hdiverged, ?_, fun hconsistent => ?_⟩
  · obtain ⟨e, herror⟩ := hdiverged.postgres.1
    rintro (hreplaced | hrejected)
    · cases herror.symm.trans hreplaced.postgres.1
    · obtain ⟨e', herror'⟩ := hrejected.redis.1
      cases hdiverged.redis.1.symm.trans herror'
  · obtain ⟨old, hold⟩ := Option.isSome_iff_exists.mp hstored.redis
    obtain ⟨-, x, hadd⟩ := henqueue.on_redis
    have hblob := codec.serialize_job job
    have hget : s.redis.get (codec.serialize job).job.id = some old := by rwa [hblob]
    have hnot := hconsistent.not_describes_add hget x
    rwa [hblob, ← hadd] at hnot

/-- One enqueued job on every backend. -/
def everywhere (job : Job) : Backends where
  memory := (MemoryStorage.empty none).insertJob job
  redis := Db.empty.add ⟨job, true⟩ (some (score job))
  postgres := tableOf job

/-- The job as `schedule_job` would enqueue it again. -/
def rescheduled : Job :=
  { PostgresStorage.reminder with state := .scheduled 0 (Duration.hours 1) "later" }

theorem stores_everywhere : Stores .verbatim rescheduled.id rescheduled.id
    (everywhere PostgresStorage.reminder) :=
  ⟨by decide +kernel, by decide +kernel, rfl, by decide +kernel⟩

theorem enqueues_rescheduled : ∃ replies t, Enqueues .verbatim .lossless rescheduled
    (everywhere PostgresStorage.reminder) replies t :=
  ⟨⟨_, _, _⟩, ⟨_, _, _⟩, ⟨fun _ => .at 0 .elapsed, rfl⟩, ⟨fun _ => ⟨0, []⟩, rfl⟩, rfl⟩

theorem everywhere_consistent : (everywhere PostgresStorage.reminder).redis.Consistent := by
  have hscores : Scores (some (score PostgresStorage.reminder)) PostgresStorage.reminder :=
    ⟨fun _ => rfl, fun _ => rfl⟩
  simp only [everywhere]
  exact .add .empty rfl hscores

theorem reenqueue_never_agrees_rescheduled : ∃ replies t,
    Diverged rescheduled (everywhere PostgresStorage.reminder) replies t ∧
    ¬ (Replaced rescheduled.id rescheduled replies t ∨
      Rejected (everywhere PostgresStorage.reminder) replies t) ∧
    (everywhere PostgresStorage.reminder).redis.Consistent ∧
    ¬ t.redis.Describes rescheduled.id rescheduled := by
  obtain ⟨replies, t, henqueue⟩ := enqueues_rescheduled
  obtain ⟨hdiverged, hnot, hdescribes⟩ := reenqueue_never_agrees stores_everywhere henqueue
  exact ⟨replies, t, hdiverged, hnot, everywhere_consistent, hdescribes everywhere_consistent⟩

/-- The enqueued job is enqueued again as a scheduled one: memory replaces it, Postgres keeps
it, and Redis counts it in both states. -/
theorem counted_in_both_states : ∃ replies t, Enqueues .verbatim .lossless rescheduled
    (everywhere PostgresStorage.reminder) replies t ∧
    replies.memory = .ok () ∧ replies.redis = .ok () ∧ replies.postgres ≠ .ok () ∧
    t.redis.mem (.state "enqueued") rescheduled.id = true ∧
    t.redis.mem (.state "scheduled") rescheduled.id = true ∧
    t.redis.count "enqueued" = 1 ∧ t.redis.count "scheduled" = 1 ∧ t.redis.jobs.size = 1 := by
  refine ⟨⟨_, _, _⟩, ⟨_, _, _⟩, ⟨⟨fun _ => .at 0 .elapsed, rfl⟩, ⟨fun _ => ⟨0, []⟩, rfl⟩, rfl⟩,
    rfl, rfl, ?_, by decide +kernel, by decide +kernel, by decide +kernel, by decide +kernel,
    by decide +kernel⟩
  intro h
  cases h

end Backends
end Qml
