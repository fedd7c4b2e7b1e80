import Qml.Memory.Sections

namespace Qml
open Lib

namespace MemoryStorage
variable {s s' : MemoryStorage} {id : String} {job old : Job}

theorem available_kind {now : DateTime} (h : available now job = true) :
    job.state.kind = .enqueued ∨ job.state.kind = .scheduled ∨ job.state.kind = .awaitingRetry := by
  unfold available at h
  cases hs : job.state <;> simp_all [JobState.kind]

theorem dueScheduled_kind {now : DateTime} (h : dueScheduled now job = true) :
    job.state.kind = .scheduled := by
  unfold dueScheduled at h
  cases hs : job.state <;> simp_all [JobState.kind]

theorem dueRetry_kind {now : DateTime} (h : dueRetry now job = true) :
    job.state.kind = .awaitingRetry := by
  unfold dueRetry at h
  cases hs : job.state <;> simp_all [JobState.kind]

theorem stale_kind {t : DateTime} {state : JobState} (h : stale t state = true) :
    state.kind = .processing := by
  cases state <;> simp_all [stale, JobState.kind]

theorem ownedBy_kind {serverId : String} {state : JobState} (h : ownedBy serverId state = true) :
    state.kind = .processing := by
  cases state <;> simp_all [ownedBy, JobState.kind]

@[simp] theorem reorder_jobs (order : List String) (id : String) :
    (s.reorder order).jobs.get? id = s.jobs.get? id := Jobs.get?_reorder

@[simp] theorem reorder_locks (order : List String) (id : String) :
    (s.reorder order).locks.get? id = s.locks.get? id := Dict.get?_reorder ..

@[simp] theorem reorder_locks_contains (order : List String) (id : String) :
    (s.reorder order).locks.contains id = s.locks.contains id := Dict.contains_reorder ..

theorem mem_getAvailableJobsInternal {jobs : Jobs} {now : DateTime} :
    job ∈ getAvailableJobsInternal jobs now none ↔
      jobs.get? job.id = some job ∧ available now job = true := by
  simp only [getAvailableJobsInternal, (List.perm_insertionSort _ _).mem_iff, List.mem_filter,
    Jobs.mem_values]

theorem mem_dueIds {jobs : Jobs} {due : Job → Bool} {limit : Nat} (h : id ∈ dueIds jobs due limit) :
    ∃ job, jobs.get? id = some job ∧ due job = true := by
  obtain ⟨job, hj, rfl⟩ := List.mem_map.mp (List.mem_of_mem_take h)
  rw [(List.perm_insertionSort _ _).mem_iff, List.mem_filter, Jobs.mem_values] at hj
  exact ⟨job, hj⟩

/-- Promotion re-enqueues exactly the identifiers it is given. -/
theorem get?_promote (stamp : String → DateTime) (jobs : Jobs) (ids : List String) (id : String) :
    (promote stamp jobs ids).2.get? id = (jobs.get? id).map fun job =>
      if id ∈ ids then { job with state := .enqueued (stamp id) job.queue } else job := by
  induction ids generalizing jobs with
  | nil => simp [promote]
  | cons k ids ih =>
    rw [promote]
    cases hk : jobs.get? k with
    | none =>
      simp only [ih]
      by_cases he : id = k
      · simp [he, hk]
      · simp [he]
    | some job =>
      simp only [ih, Jobs.get?_insert, Jobs.id_of_get? hk]
      by_cases he : id = k
      · subst he
        simp [hk, Jobs.id_of_get? hk]
      · simp [he]

/-- A successful claim: the job it found, and everything it wrote. -/
theorem lockAvailableJob_some {workerId : String} {queues : Option (List String)}
    {clock : FetchClock} (h : s.lockAvailableJob workerId queues clock = (some job, s')) :
    ∃ old, s.jobs.get? old.id = some old ∧ available clock.select old = true ∧
      inFilter queues old.queue = true ∧ s.locks.contains old.id = false ∧
      job = { old with state := .processing clock.start workerId "memory-storage" } ∧
      s' = { s with
        jobs := s.jobs.insert job
        locks := s.locks.insert old.id ⟨workerId, clock.lock + Duration.minutes 30⟩ } := by
  unfold lockAvailableJob at h
  split at h
  · rename_i old hfind
    cases h
    have hmem := mem_getAvailableJobsInternal.mp (List.mem_of_find?_eq_some hfind)
    have hok := List.find?_some hfind
    simp only [Bool.and_eq_true, Bool.not_eq_true'] at hok
    exact ⟨old, hmem.1, hmem.2, hok.1, hok.2, rfl, rfl⟩
  · cases h

theorem lockAvailableJob_none {workerId : String} {queues : Option (List String)}
    {clock : FetchClock} (h : s.lockAvailableJob workerId queues clock = (none, s')) :
    s' = s ∧ ∀ job, s.jobs.get? job.id = some job → available clock.select job = true →
      inFilter queues job.queue = true → s.locks.contains job.id = true := by
  unfold lockAvailableJob at h
  split at h
  · cases h
  · rename_i hfind
    cases h
    refine ⟨rfl, fun job hj ha hq => ?_⟩
    have := List.find?_eq_none.mp hfind job (mem_getAvailableJobsInternal.mpr ⟨hj, ha⟩)
    simpa [hq] using this

theorem get?_recover {lost : JobState → Bool} {stamp : String → DateTime} (id : String) :
    (s.recover lost stamp).2.jobs.get? id = (s.jobs.get? id).map fun job =>
      if lost job.state then { job with state := .enqueued (stamp id) job.queue } else job := by
  simp only [recover, Jobs.get?_restate]
  cases h : s.jobs.get? id with
  | none => rfl
  | some job =>
    simp only [Option.map_some, Option.some.injEq]
    split
    · simp [Jobs.id_of_get? h]
    · simp

theorem get?_foldl_erase {ν : Type} (jobs : List Job) (d : Dict String ν) (id : String) :
    (jobs.foldl (fun d job => d.erase job.id) d).get? id =
      if id ∈ jobs.map Job.id then none else d.get? id := by
  induction jobs generalizing d with
  | nil => simp
  | cons job jobs ih =>
    rw [List.foldl_cons, ih, Dict.get?_erase, List.map_cons]
    by_cases hid : id = job.id <;> simp [hid]

/-- The identifiers of the jobs that a recovery finds lost. -/
theorem mem_lost {lost : JobState → Bool} :
    id ∈ (s.jobs.values.filter fun job => lost job.state).map Job.id ↔
      ∃ job, s.jobs.get? id = some job ∧ lost job.state = true := by
  rw [List.mem_map]
  constructor
  · rintro ⟨job, hj, rfl⟩
    rw [List.mem_filter, Jobs.mem_values] at hj
    exact ⟨job, hj⟩
  · rintro ⟨job, hj, hl⟩
    have hid := Jobs.id_of_get? hj
    exact ⟨job, List.mem_filter.mpr ⟨Jobs.mem_values.mpr (hid ▸ hj), hl⟩, hid⟩

/-- A recovery drops the lock entry of each job it puts back, and no other. -/
theorem locks_recover {lost : JobState → Bool} {stamp : String → DateTime} (id : String) :
    (s.recover lost stamp).2.locks.get? id =
      if ∃ job, s.jobs.get? id = some job ∧ lost job.state = true then none
      else s.locks.get? id := by
  simp only [recover, get?_foldl_erase, mem_lost]

end MemoryStorage

/-- What a section may do to the job stored under one identifier. -/
inductive Effect (env : Reading) (id : String) :
    {ρ : Type} → Section ρ → Option Job → Option Job → Prop
  | same {ρ : Type} (op : Section ρ) (o : Option Job) : Effect env id op o o
  | update (job old : Job) (hid : job.id = id) :
      Effect env id (.update job) (some old) (some job)
  | updateIfState (job old : Job) (hid : job.id = id) :
      Effect env id (.updateIfState job old.state.kind) (some old) (some job)
  | delete (o : Option Job) : Effect env id (.delete id) o none
  | insert (job : Job) (o : Option Job) (hid : job.id = id) :
      Effect env id (.insertJob job) o (some job)
  | promoteScheduled (now : DateTime) (limit : Nat) (old : Job)
      (hdue : MemoryStorage.dueScheduled now old = true) :
      Effect env id (.claimDueScheduledJobs now limit) (some old)
        (some { old with state := .enqueued (env.stamp id) old.queue })
  | promoteRetry (now : DateTime) (limit : Nat) (old : Job)
      (hdue : MemoryStorage.dueRetry now old = true) :
      Effect env id (.claimDueRetryJobs now limit) (some old)
        (some { old with state := .enqueued (env.stamp id) old.queue })
  | expire (now : DateTime) (old : Job) (hexp : MemoryStorage.unexpired now old = false) :
      Effect env id (.deleteExpiredJobs now) (some old) none
  | requeue (t : DateTime) (old : Job) (hlost : MemoryStorage.stale t old.state = true) :
      Effect env id (.requeueStrandedJobs t) (some old)
        (some { old with state := .enqueued (env.stamp id) old.queue })
  | reclaim (serverId : String) (old : Job)
      (hlost : MemoryStorage.ownedBy serverId old.state = true) :
      Effect env id (.reclaimJobsFromServer serverId) (some old)
        (some { old with state := .enqueued (env.stamp id) old.queue })
  | claim (workerId : String) (queues : Option (List String)) (old : Job)
      (havail : MemoryStorage.available env.fetch.select old = true) :
      Effect env id (.lockAvailableJob workerId queues) (some old)
        (some { old with state := .processing env.fetch.start workerId "memory-storage" })

section
open MemoryStorage
variable {s s' : MemoryStorage} {env : Reading} {ρ : Type} {op : Section ρ} {reply : ρ}

theorem claimDue_effect {due : Job → Bool} {limit : Nat} (id : String)
    (keep : ∀ job, s.jobs.get? id = some job → Effect env id op (some job) (some job))
    (move : ∀ job, due job = true →
      Effect env id op (some job) (some { job with state := .enqueued (env.stamp id) job.queue }))
    (none_ : Effect env id op none none) :
    Effect env id op (s.jobs.get? id)
      (((s.reorder env.order).claimDue due limit env.stamp).2.jobs.get? id) := by
  simp only [claimDue, get?_promote, reorder_jobs]
  cases h : s.jobs.get? id with
  | none => exact none_
  | some job =>
    simp only [Option.map_some]
    split
    · rename_i hmem
      obtain ⟨j, hj, hd⟩ := mem_dueIds hmem
      rw [reorder_jobs, h] at hj
      cases hj
      exact move _ hd
    · exact keep _ h

theorem recover_effect {lost : JobState → Bool} (id : String)
    (keep : ∀ o, Effect env id op o o)
    (move : ∀ job, lost job.state = true →
      Effect env id op (some job) (some { job with state := .enqueued (env.stamp id) job.queue })) :
    Effect env id op (s.jobs.get? id) ((s.recover lost env.stamp).2.jobs.get? id) := by
  rw [get?_recover]
  cases s.jobs.get? id with
  | none => exact keep none
  | some job =>
    simp only [Option.map_some]
    split
    · exact move _ ‹_›
    · exact keep _

/-- Every section does to each stored job one of the listed things. -/
theorem Section.effect (h : op.perform env s = some (reply, s')) (id : String) :
    Effect env id op (s.jobs.get? id) (s'.jobs.get? id) := by
  cases op
  case update job =>
    simp only [perform, MemoryStorage.update] at h
    split at h <;> cases h
    · rename_i old hold
      rw [Jobs.get?_insert]
      split
      · subst id
        rw [hold]
        exact .update job old rfl
      · exact .same _ _
    · exact .same _ _
  case updateIfState job expected =>
    simp only [perform, MemoryStorage.updateIfState] at h
    split at h
    · cases h
      exact .same _ _
    · rename_i old hold
      split at h <;> cases h
      · exact .same _ _
      · rename_i hkind
        rw [Jobs.get?_insert]
        split
        · subst id
          rw [hold]
          obtain rfl := Decidable.not_not.mp hkind
          exact .updateIfState job old rfl
        · exact .same _ _
  case delete jobId =>
    cases h
    simp only [id_eq, Jobs.get?_erase]
    split
    · subst jobId
      exact .delete _
    · exact .same _ _
  case insertJob job =>
    cases h
    simp only [MemoryStorage.insertJob, Jobs.get?_insert]
    split
    · exact .insert job _ (Eq.symm ‹_›)
    · exact .same _ _
  case claimDueScheduledJobs now limit =>
    cases h
    exact claimDue_effect id (fun _ _ => .same _ _) (fun _ => .promoteScheduled now limit _)
      (.same _ _)
  case claimDueRetryJobs now limit =>
    cases h
    exact claimDue_effect id (fun _ _ => .same _ _) (fun _ => .promoteRetry now limit _)
      (.same _ _)
  case deleteExpiredJobs now =>
    cases h
    simp only [id_eq, Jobs.get?_retain]
    cases s.jobs.get? id with
    | none => exact .same _ _
    | some old =>
      cases hexp : unexpired now old with
      | true => simpa [Option.filter, hexp] using Effect.same _ _
      | false => simpa [Option.filter, hexp] using Effect.expire now old hexp
  case requeueStrandedJobs t =>
    cases h
    exact recover_effect id (.same _) fun _ => .requeue t _
  case reclaimJobsFromServer serverId =>
    cases h
    exact recover_effect id (.same _) fun _ => .reclaim serverId _
  case lockAvailableJob workerId queues =>
    generalize hl : (s.reorder env.order).lockAvailableJob workerId queues env.fetch = res at *
    simp only [perform, hl] at h
    obtain ⟨_ | job, after⟩ := res <;> cases h
    · obtain ⟨rfl, -⟩ := lockAvailableJob_none hl
      simpa using Effect.same _ _
    · obtain ⟨old, hold, havail, -, -, rfl, rfl⟩ := lockAvailableJob_some hl
      simp only [id_eq, Jobs.get?_insert, reorder_jobs] at hold ⊢
      split
      · subst id
        rw [hold]
        exact .claim workerId queues old havail
      · exact .same _ _
  case acquireJobLock jobId workerId timeout =>
    simp only [perform, MemoryStorage.acquireJobLock] at h
    split at h
    · cases h
      exact .same _ _
    · split at h <;> cases h
      exact .same _ _
  case releaseJobLock jobId workerId =>
    cases h
    simp only [id_eq]
    split
    · split <;> exact .same _ _
    · exact .same _ _
  case heartbeatServer serverId now =>
    cases h
    simp only [id_eq]
    split <;> exact .same _ _
  all_goals
    cases h
    exact .same _ _

end
end Qml
