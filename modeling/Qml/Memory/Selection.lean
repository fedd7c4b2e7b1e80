import Qml.Lib.Ranking
import Qml.Memory.Effects
import Qml.Memory.Methods

namespace Qml
open Lib

/-- The states from which a job may be handed out at a given time. -/
inductive JobState.Ready (now : DateTime) : JobState → Prop
  | enqueued (enqueuedAt : DateTime) (queue : String) : Ready now (.enqueued enqueuedAt queue)
  | scheduled (scheduledAt enqueueAt : DateTime) (reason : String) (hdue : enqueueAt ≤ now) :
      Ready now (.scheduled scheduledAt enqueueAt reason)
  | awaitingRetry (scheduledAt retryAt : DateTime) (lastException : String)
      (hdue : retryAt ≤ now) : Ready now (.awaitingRetry scheduledAt retryAt lastException)

/-- The queues that a fetch may take from: all of them, unless it lists some. -/
def QueueAllowed (queues : Option (List String)) (queue : String) : Prop :=
  ∀ listed, queues = some listed → listed ≠ [] → queue ∈ listed

/-- The job as a fetch hands it out. -/
def Job.handedOut (workerId : String) (now : DateTime) (job : Job) : Job :=
  { job with state := .processing now workerId "memory-storage" }

/-- The clock stands still while the calls are made. -/
structure Still (now : DateTime) (envs : Nat → Env) : Prop where
  clock : ∀ n, (envs n).now = now
  fetch : ∀ n, (envs n).fetch = ⟨now, now, now⟩

theorem Still.later {now : DateTime} {envs : Nat → Env} (h : Still now envs) (k : Nat) :
    Still now fun n => envs (n + k) :=
  ⟨fun n => h.clock (n + k), fun n => h.fetch (n + k)⟩

namespace MemoryStorage

/-- A method called when nothing else runs. -/
def call (s : MemoryStorage) {α : Type} (program : Prog Call α) (envs : Nat → Env) :
    Option (α × MemoryStorage) :=
  program.alone (fun env s _ call => call.perform env s) envs s

/-- The jobs that a fetch may take. -/
structure Eligible (s : MemoryStorage) (queues : Option (List String)) (now : DateTime)
    (job : Job) : Prop where
  stored : s.jobs.get? job.id = some job
  ready : job.state.Ready now
  allowed : QueueAllowed queues job.queue
  unlocked : ∀ lock, s.locks.get? job.id = some lock → lock.expiresAt ≤ now

/-- The given jobs are now processing for the worker and locked; otherwise, at most
expired locks are gone. -/
structure Takes (s s' : MemoryStorage) (workerId : String) (now : DateTime)
    (taken : List Job) : Prop where
  jobs : ∀ job ∈ taken, s'.jobs.get? job.id = some (job.handedOut workerId now)
  locks : ∀ job ∈ taken, s'.locks.get? job.id = some ⟨workerId, now + Duration.minutes 30⟩
  otherJobs : ∀ id, id ∉ taken.map Job.id → s'.jobs.get? id = s.jobs.get? id
  oldLocks : ∀ id lock, id ∉ taken.map Job.id →
    s'.locks.get? id = some lock → s.locks.get? id = some lock
  liveLocks : ∀ id lock, id ∉ taken.map Job.id → now < lock.expiresAt →
    s.locks.get? id = some lock → s'.locks.get? id = some lock
  servers : ∀ id, s'.servers.get? id = s.servers.get? id
  namedLocks : ∀ resource, s'.namedLocks.get? resource = s.namedLocks.get? resource
  maxJobs : s'.maxJobs = s.maxJobs

/-- One fetch takes an eligible job that no eligible job should come before, or finds
that there is none. -/
structure Selects (s s' : MemoryStorage) (workerId : String) (queues : Option (List String))
    (now : DateTime) (taken : Option Job) : Prop where
  none_iff : taken = none ↔ ∀ job, ¬ s.Eligible queues now job
  eligible : ∀ job, taken = some job → s.Eligible queues now job
  best : ∀ job, taken = some job → ∀ other, s.Eligible queues now other →
    ¬ job.priority < other.priority ∧
      ¬ (other.priority = job.priority ∧ other.createdAt < job.createdAt)
  takes : Takes s s' workerId now taken.toList
  swept : ∀ id lock, s'.locks.get? id = some lock → now < lock.expiresAt

section
variable {s s' t : MemoryStorage} {workerId : String} {queues : Option (List String)}
  {now : DateTime} {order : List String} {job : Job} {taken more : List Job}
  {envs : Nat → Env} {α : Type}

theorem available_iff : available now job = true ↔ job.state.Ready now := by
  unfold available
  cases job.state with
  | enqueued enqueuedAt queue => exact iff_of_true rfl (.enqueued enqueuedAt queue)
  | scheduled scheduledAt enqueueAt reason =>
    rw [decide_eq_true_eq]
    constructor
    · exact .scheduled scheduledAt enqueueAt reason
    · intro h
      cases h
      assumption
  | awaitingRetry scheduledAt retryAt lastException =>
    rw [decide_eq_true_eq]
    constructor
    · exact .awaitingRetry scheduledAt retryAt lastException
    · intro h
      cases h
      assumption
  | processing | succeeded | failed | deleted =>
    refine iff_of_false Bool.false_ne_true ?_
    intro h
    cases h

theorem inFilter_iff {queue : String} :
    inFilter queues queue = true ↔ QueueAllowed queues queue := by
  cases queues with
  | none =>
    refine iff_of_true rfl ?_
    intro listed h
    cases h
  | some queues =>
    rw [inFilter, Bool.or_eq_true, List.isEmpty_iff, List.contains_iff_mem]
    constructor
    · intro h listed hlisted hne
      cases hlisted
      exact h.resolve_left hne
    · intro h
      by_cases hne : queues = []
      · exact .inl hne
      · exact .inr (h queues rfl hne)

/-- What the scan of the sorted list looks at and lets through is what may be taken. -/
theorem candidate_iff : (job ∈ getAvailableJobsInternal s.jobs now none ∧
      (inFilter queues job.queue && !(s.cleanupExpiredLocks now).locks.contains job.id) = true) ↔
    s.Eligible queues now job := by
  rw [mem_getAvailableJobsInternal, available_iff, Bool.and_eq_true, inFilter_iff,
    Bool.not_eq_true', cleanupExpiredLocks, Dict.contains_eq_false, Dict.get?_filter,
    Option.filter_eq_none_iff]
  simp only [decide_eq_true_eq, DateTime, not_lt]
  constructor
  · intro h
    exact ⟨h.1.1, h.1.2, h.2.1, h.2.2⟩
  · intro h
    exact ⟨⟨h.stored, h.ready⟩, h.allowed, h.unlocked⟩

theorem Takes.none (hjobs : ∀ id, s'.jobs.get? id = s.jobs.get? id)
    (hlocks : ∀ id, s'.locks.get? id = (s.cleanupExpiredLocks now).locks.get? id)
    (hservers : ∀ id, s'.servers.get? id = s.servers.get? id)
    (hnamed : ∀ resource, s'.namedLocks.get? resource = s.namedLocks.get? resource)
    (hmax : s'.maxJobs = s.maxJobs) : Takes s s' workerId now [] where
  jobs _ h := by cases h
  locks _ h := by cases h
  otherJobs id _ := hjobs id
  oldLocks id lock _ h := by
    rw [hlocks, cleanupExpiredLocks, Dict.get?_filter, Option.filter_eq_some_iff] at h
    exact h.1
  liveLocks id lock _ hlive h := by
    rw [hlocks, cleanupExpiredLocks, Dict.get?_filter, Option.filter_eq_some_iff]
    exact ⟨h, decide_eq_true hlive⟩
  servers := hservers
  namedLocks := hnamed
  maxJobs := hmax

theorem Takes.refl : Takes s s workerId now [] where
  jobs _ h := by cases h
  locks _ h := by cases h
  otherJobs _ _ := rfl
  oldLocks _ _ _ h := h
  liveLocks _ _ _ _ h := h
  servers _ := rfl
  namedLocks _ := rfl
  maxJobs := rfl

theorem Takes.one (h : Takes s t workerId now []) (hjob : s.jobs.get? job.id = some job) :
    Takes s { t with
      jobs := t.jobs.insert (job.handedOut workerId now)
      locks := t.locks.insert job.id ⟨workerId, now + Duration.minutes 30⟩ }
      workerId now [job] where
  jobs old hold := by
    obtain rfl := List.mem_singleton.mp hold
    rw [Jobs.get?_insert]
    exact if_pos rfl
  locks old hold := by
    obtain rfl := List.mem_singleton.mp hold
    rw [Dict.get?_insert, if_pos rfl]
  otherJobs id hid := by
    rw [Jobs.get?_insert, if_neg (by simpa [Job.handedOut] using hid)]
    exact h.otherJobs id List.not_mem_nil
  oldLocks id lock hid := by
    rw [Dict.get?_insert, if_neg (by simpa using hid)]
    exact h.oldLocks id lock List.not_mem_nil
  liveLocks id lock hid := by
    rw [Dict.get?_insert, if_neg (by simpa using hid)]
    exact h.liveLocks id lock List.not_mem_nil
  servers := h.servers
  namedLocks := h.namedLocks
  maxJobs := h.maxJobs

theorem lt_lockExpiry : now < now + Duration.minutes 30 := by
  have hpos : (0 : Int) < Duration.minutes 30 := by decide
  exact lt_add_of_pos_right now hpos

theorem Takes.append (h : Takes s t workerId now taken) (h' : Takes t s' workerId now more)
    (hapart : ∀ job ∈ taken, job.id ∉ more.map Job.id) :
    Takes s s' workerId now (taken ++ more) where
  jobs job hjob := by
    rcases List.mem_append.mp hjob with hjob | hjob
    · rw [h'.otherJobs _ (hapart job hjob)]
      exact h.jobs job hjob
    · exact h'.jobs job hjob
  locks job hjob := by
    rcases List.mem_append.mp hjob with hjob | hjob
    · exact h'.liveLocks _ _ (hapart job hjob) lt_lockExpiry (h.locks job hjob)
    · exact h'.locks job hjob
  otherJobs id hid := by
    rw [List.map_append, List.mem_append, not_or] at hid
    rw [h'.otherJobs id hid.2, h.otherJobs id hid.1]
  oldLocks id lock hid hlock := by
    rw [List.map_append, List.mem_append, not_or] at hid
    exact h.oldLocks id lock hid.1 (h'.oldLocks id lock hid.2 hlock)
  liveLocks id lock hid hlive hlock := by
    rw [List.map_append, List.mem_append, not_or] at hid
    exact h'.liveLocks id lock hid.2 hlive (h.liveLocks id lock hid.1 hlive hlock)
  servers id := (h'.servers id).trans (h.servers id)
  namedLocks resource := (h'.namedLocks resource).trans (h.namedLocks resource)
  maxJobs := h'.maxJobs.trans h.maxJobs

/-- A job that has been handed out may not be taken again, and every other one still may. -/
theorem Takes.eligible_iff (h : Takes s t workerId now [job]) (hjob : s.jobs.get? job.id = some job)
    {other : Job} : t.Eligible queues now other ↔ s.Eligible queues now other ∧ other ≠ job := by
  by_cases hid : other.id = job.id
  · constructor
    · intro he
      have hstored := he.stored
      rw [hid, h.jobs job List.mem_cons_self] at hstored
      cases hstored
      cases he.ready
    · intro he
      have hstored := he.1.stored
      rw [hid, hjob] at hstored
      exact absurd (Option.some.inj hstored).symm he.2
  · have hout : other.id ∉ [job].map Job.id := by simpa using hid
    constructor
    · intro he
      refine ⟨⟨?_, he.ready, he.allowed, fun lock hlock => ?_⟩, fun heq => hid (heq ▸ rfl)⟩
      · rw [← h.otherJobs _ hout]
        exact he.stored
      · by_contra hlive
        have hlive : now < lock.expiresAt := not_le.mp hlive
        exact absurd (he.unlocked lock (h.liveLocks _ _ hout hlive hlock)) (not_le.mpr hlive)
    · intro he
      refine ⟨?_, he.1.ready, he.1.allowed, fun lock hlock => ?_⟩
      · rw [h.otherJobs _ hout]
        exact he.1.stored
      · exact he.1.unlocked lock (h.oldLocks _ _ hout hlock)

theorem Selects.notAfter (h : Selects s t workerId queues now (some job)) {other : Job}
    (hother : s.Eligible queues now other) : Job.notAfter job other := by
  have hbest := h.best job rfl other hother
  rw [Job.notAfter_iff]
  simp only [DateTime] at *
  omega

/-- The jobs that may be taken, sorted. -/
theorem exists_ranking (s : MemoryStorage) (queues : Option (List String)) (now : DateTime) :
    ∃ ranking, Ranks Job.notAfter (s.Eligible queues now) ranking := by
  refine ⟨_, Ranks.insertionSort (s.jobs.values_nodup.of_map.filter fun job =>
    available now job && (inFilter queues job.queue &&
      !(s.cleanupExpiredLocks now).locks.contains job.id)) fun job => ?_⟩
  rw [← candidate_iff, mem_getAvailableJobsInternal, List.mem_filter, Jobs.mem_values,
    Bool.and_eq_true, and_assoc]

/-- The scan stops at the first candidate of the sorted list. -/
theorem lockAvailableJob_selects {claimed : Option Job}
    (h : ((s.cleanupExpiredLocks now).reorder order).lockAvailableJob workerId queues
      ⟨now, now, now⟩ = (claimed, s')) :
    ∃ taken, claimed = taken.map (Job.handedOut workerId now) ∧
      Selects s s' workerId queues now taken := by
  have hcandidate : ∀ {job : Job},
      (job ∈ getAvailableJobsInternal (s.jobs.reorder order) now none ∧
        (inFilter queues job.queue &&
          !((s.cleanupExpiredLocks now).reorder order).locks.contains job.id) = true) ↔
      s.Eligible queues now job := by
    intro job
    rw [← candidate_iff, mem_getAvailableJobsInternal, mem_getAvailableJobsInternal,
      Jobs.get?_reorder, reorder_locks_contains]
  have hnone : Takes s ((s.cleanupExpiredLocks now).reorder order) workerId now [] :=
    .none (fun id => reorder_jobs order id) (fun id => reorder_locks order id)
      (fun id => Dict.get?_reorder ..) (fun id => Dict.get?_reorder ..) rfl
  have hswept : ∀ id lock, ((s.cleanupExpiredLocks now).reorder order).locks.get? id = some lock →
      now < lock.expiresAt := by
    intro id lock hlock
    rw [reorder_locks, cleanupExpiredLocks, Dict.get?_filter, Option.filter_eq_some_iff] at hlock
    exact of_decide_eq_true hlock.2
  unfold lockAvailableJob at h
  split at h
  · rename_i job hfind
    cases h
    have hmem := List.mem_of_find?_eq_some hfind
    have htest := List.find?_some hfind
    have heligible := hcandidate.mp ⟨hmem, htest⟩
    refine ⟨some job, rfl, ⟨?_, ?_, ?_, hnone.one heligible.stored, ?_⟩⟩
    · exact iff_of_false (Option.some_ne_none job) fun hno => hno job heligible
    · intro j hj
      cases hj
      exact heligible
    · intro j hj other hother
      cases hj
      obtain ⟨hmem, htest⟩ := hcandidate.mpr hother
      have hsorted := List.pairwise_insertionSort Job.notAfter
        ((s.jobs.reorder order).values.filter (available now))
      have hrel : Job.notAfter job other := by
        rcases find?_rel hsorted hfind hmem htest with rfl | hrel
        · exact (Std.Total.total other other).elim id id
        · exact hrel
      rw [Job.notAfter_iff] at hrel
      simp only [DateTime] at *
      omega
    · intro id lock
      rw [Dict.get?_insert]
      split
      · intro hlock
        cases hlock
        exact lt_lockExpiry
      · exact hswept id lock
  · rename_i hfind
    cases h
    refine ⟨none, rfl, ⟨?_, ?_, ?_, hnone, hswept⟩⟩
    · refine iff_of_true rfl fun job hjob => ?_
      obtain ⟨hmem, htest⟩ := hcandidate.mpr hjob
      exact List.find?_eq_none.mp hfind job hmem htest
    · intro j hj
      cases hj
    · intro j hj
      cases hj

/-- A fetch that nothing interrupts, and what the caller then goes on with. -/
theorem call_fetchAndLockJob (s : MemoryStorage) (workerId : String)
    (queues : Option (List String)) (k : Except StorageError (Option Job) → Prog Call α)
    (hstill : Still now envs) : ∃ taken s', Selects s s' workerId queues now taken ∧
      s.call (fetchAndLockJob workerId queues >>= k) envs =
        s'.call (k (.ok (taken.map (Job.handedOut workerId now)))) fun n => envs (n + 2) := by
  simp only [call, fetchAndLockJob, Call.enter, Prog.ask_bind, Prog.call_bind, Prog.alone,
    Call.perform, Section.perform, hstill.clock, hstill.fetch]
  generalize h : ((s.cleanupExpiredLocks now).reorder _).lockAvailableJob workerId queues _ = result
  obtain ⟨claimed, s'⟩ := result
  obtain ⟨taken, rfl, hselects⟩ := lockAvailableJob_selects h
  exact ⟨taken, s', hselects, rfl⟩

/-- For every store, lock map, worker and queue list, a fetch takes the best of the jobs
that may be taken, changes nothing else, and finds nothing exactly when there is none. -/
theorem fetchAndLockJob_optimal (hstill : Still now envs) : ∃ taken s',
    s.call (fetchAndLockJob workerId queues) envs =
      some (.ok (taken.map (Job.handedOut workerId now)), s') ∧
    Selects s s' workerId queues now taken := by
  obtain ⟨taken, s', hselects, hcall⟩ := call_fetchAndLockJob s workerId queues .pure hstill
  exact ⟨taken, s', hcall, hselects⟩

/-- A storage that holds one enqueued job. -/
def oneWaiting : MemoryStorage := (empty none).insertJob (Job.new "j" 0 "ring" .null)

theorem fetchAndLockJob_optimal_oneWaiting : ∃ taken s',
    oneWaiting.call (fetchAndLockJob "w" (some ["default"])) (fun _ => Env.at 0 .elapsed) =
      some (.ok (taken.map (Job.handedOut "w" 0)), s') ∧
    Selects oneWaiting s' "w" (some ["default"]) 0 taken :=
  fetchAndLockJob_optimal ⟨fun _ => rfl, fun _ => rfl⟩

theorem fetchUpTo_selects (s : MemoryStorage) (n : Nat) (jobs : List Job)
    (hstill : Still now envs) :
    ∃ ranking s', Ranks Job.notAfter (s.Eligible queues now) ranking ∧
      s.call (fetchUpTo workerId queues n jobs) envs =
        some (.ok (jobs ++ (ranking.take n).map (Job.handedOut workerId now)), s') ∧
      Takes s s' workerId now (ranking.take n) := by
  induction n generalizing s envs jobs with
  | zero =>
    obtain ⟨ranking, hranks⟩ := s.exists_ranking queues now
    refine ⟨ranking, s, hranks, ?_, .refl⟩
    simp [call, fetchUpTo, Prog.alone]
  | succ n ih =>
    rw [fetchUpTo]
    obtain ⟨taken, t, hselects, hcall⟩ := call_fetchAndLockJob s workerId queues _ hstill
    rw [hcall]
    cases taken with
    | none =>
      have hno := hselects.none_iff.mp rfl
      refine ⟨[], t, .nil hno, ?_, hselects.takes⟩
      simp [call, Prog.alone]
    | some job =>
      have heligible := hselects.eligible job rfl
      obtain ⟨ranking, s', hranks, hmore, htakes⟩ :=
        ih t (jobs ++ [job.handedOut workerId now]) (hstill.later 2)
      have hleft : ∀ {other}, other ∈ ranking ↔ s.Eligible queues now other ∧ other ≠ job :=
        hranks.mem.trans (hselects.takes.eligible_iff heligible.stored)
      refine ⟨job :: ranking, s', .cons heligible ?_ ⟨hranks.nodup, hleft, hranks.ordered⟩, ?_, ?_⟩
      · intro other hother _
        exact hselects.notAfter hother
      · rw [List.append_assoc] at hmore
        exact hmore
      · refine hselects.takes.append htakes fun j hj hmem => ?_
        obtain rfl := List.mem_singleton.mp hj
        obtain ⟨other, hother, hid⟩ := List.mem_map.mp hmem
        obtain ⟨hother, hne⟩ := hleft.mp (List.mem_of_mem_take hother)
        have hstored := hother.stored
        rw [hid, heligible.stored] at hstored
        exact hne (Option.some.inj hstored).symm

/-- For every state, limit and queue list, a batch is a first part of the jobs that may be
taken in dispatch order, and nothing but the jobs of the batch changes. -/
theorem fetchAvailableJobsAtomic_ranked (limit : Option Nat) (hstill : Still now envs) :
    ∃ ranking s', Ranks Job.notAfter (s.Eligible queues now) ranking ∧
      (ranking.map Job.id).Nodup ∧
      s.call (fetchAvailableJobsAtomic workerId limit queues) envs =
        some (.ok ((ranking.take (min (limit.getD 10) 100)).map (Job.handedOut workerId now)),
          s') ∧
      Takes s s' workerId now (ranking.take (min (limit.getD 10) 100)) := by
  obtain ⟨ranking, s', hranks, hcall, htakes⟩ := fetchUpTo_selects s _ [] hstill
  exact ⟨ranking, s', hranks,
    Jobs.ids_nodup (fun job hjob => (hranks.mem.mp hjob).stored) hranks.nodup, hcall, htakes⟩

theorem fetchAvailableJobsAtomic_ranked_oneWaiting :
    ∃ ranking s', Ranks Job.notAfter (oneWaiting.Eligible none 0) ranking ∧
      (ranking.map Job.id).Nodup ∧
      oneWaiting.call (fetchAvailableJobsAtomic "w" (some 2) none) (fun _ => Env.at 0 .elapsed) =
        some (.ok ((ranking.take 2).map (Job.handedOut "w" 0)), s') ∧
      Takes oneWaiting s' "w" 0 (ranking.take 2) :=
  fetchAvailableJobsAtomic_ranked (some 2) ⟨fun _ => rfl, fun _ => rfl⟩

end
end MemoryStorage
end Qml
