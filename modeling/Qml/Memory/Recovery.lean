import Qml.Memory.Selection

namespace Qml
open Lib

/-- A job that was claimed before the cutoff. -/
def Job.Stranded (staleBefore : DateTime) (job : Job) : Prop :=
  ∃ startedAt workerId serverName,
    job.state = .processing startedAt workerId serverName ∧ startedAt < staleBefore

/-- A job that a server has claimed. -/
def Job.ClaimedBy (serverId : String) (job : Job) : Prop :=
  ∃ startedAt workerId, job.state = .processing startedAt workerId serverId

/-- The job back in its queue. -/
def Job.requeued (now : DateTime) (job : Job) : Job :=
  { job with state := .enqueued now job.queue }

namespace MemoryStorage

/-- A storage moves the lost jobs back to their queues and removes their locks; nothing
else changes, and the number of the moved jobs is returned. -/
structure Moves (lost : Job → Prop) (s : MemoryStorage) (n : Nat) (t : MemoryStorage) : Prop where
  moved : ∀ id job, s.jobs.get? id = some job → lost job →
    (∃ now, t.jobs.get? id = some (job.requeued now)) ∧ t.locks.get? id = none
  otherJobs : ∀ id, (∀ job, s.jobs.get? id = some job → ¬ lost job) →
    t.jobs.get? id = s.jobs.get? id
  otherLocks : ∀ id, (∀ job, s.jobs.get? id = some job → ¬ lost job) →
    t.locks.get? id = s.locks.get? id
  returned : ∃ ids : List String, ids.Nodup ∧ ids.length = n ∧
    ∀ id, id ∈ ids ↔ ∃ job, s.jobs.get? id = some job ∧ lost job
  servers : t.servers = s.servers
  namedLocks : t.namedLocks = s.namedLocks
  maxJobs : t.maxJobs = s.maxJobs

/-- What a run of fetches hands out, one call after the other. -/
def fetchEach (queues : Option (List String)) :
    List (String × (Nat → Env)) → MemoryStorage → List Job
  | [], _ => []
  | (workerId, envs) :: calls, s =>
    match s.call (fetchAndLockJob workerId queues) envs with
    | some (.ok (some job), t) => job :: fetchEach queues calls t
    | some (_, t) => fetchEach queues calls t
    | none => []

/-- A sweep, which is given the clock of each move, recovers exactly the lost jobs, once,
and each of them can then be fetched, by as many calls as there are jobs. -/
structure Recovery (lost : Job → Prop)
    (sweep : MemoryStorage → (String → DateTime) → Nat × MemoryStorage) : Prop where
  exact : ∀ s stamp, Moves lost s (sweep s stamp).1 (sweep s stamp).2
  idempotent : ∀ s stamp again, sweep (sweep s stamp).2 again = (0, (sweep s stamp).2)
  obtained : ∀ s stamp id job, s.jobs.get? id = some job → lost job →
    ∀ queues calls, QueueAllowed queues job.queue → (sweep s stamp).2.len ≤ calls.length →
      ∃ claimed ∈ fetchEach queues calls (sweep s stamp).2, claimed.id = id

/-- Two storages that differ at most in the time at which lost jobs were put back. -/
structure SameButStamps (lost : Job → Prop) (s t u : MemoryStorage) : Prop where
  jobs : ∀ id, t.jobs.get? id = u.jobs.get? id ∨ ∃ job now now',
    s.jobs.get? id = some job ∧ lost job ∧ t.jobs.get? id = some (job.requeued now) ∧
      u.jobs.get? id = some (job.requeued now')
  locks : ∀ id, t.locks.get? id = u.locks.get? id
  servers : t.servers = u.servers
  namedLocks : t.namedLocks = u.namedLocks
  maxJobs : t.maxJobs = u.maxJobs

section
variable {s t : MemoryStorage} {lost lost' : JobState → Bool} {stamp : String → DateTime}
  {id : String} {job : Job} {queues : Option (List String)}

theorem stranded_eq (staleBefore : DateTime) :
    Job.Stranded staleBefore = fun job => stale staleBefore job.state = true := by
  funext job
  unfold Job.Stranded
  cases job.state <;> simp [stale]

theorem claimedBy_eq (serverId : String) :
    Job.ClaimedBy serverId = fun job => ownedBy serverId job.state = true := by
  funext job
  unfold Job.ClaimedBy
  cases job.state <;> simp [ownedBy]

theorem recover_moves (s : MemoryStorage) (stamp : String → DateTime) :
    Moves (fun job => lost job.state = true) s (s.recover lost stamp).1
      (s.recover lost stamp).2 where
  moved id job hjob hlost := by
    refine ⟨⟨stamp id, ?_⟩, ?_⟩
    · rw [get?_recover, hjob, Option.map_some, if_pos hlost]
      rfl
    · rw [locks_recover, if_pos ⟨job, hjob, hlost⟩]
  otherJobs id hkept := by
    rw [get?_recover]
    cases hjob : s.jobs.get? id with
    | none => rfl
    | some job => rw [Option.map_some, if_neg (hkept job hjob)]
  otherLocks id hkept := by
    rw [locks_recover, if_neg]
    rintro ⟨job, hjob, hlost⟩
    exact hkept job hjob hlost
  returned := by
    refine ⟨(s.jobs.values.filter fun job => lost job.state).map Job.id, ?_, ?_, fun _ => mem_lost⟩
    · exact s.jobs.values_nodup.sublist (List.filter_sublist.map Job.id)
    · exact List.length_map ..
  servers := rfl
  namedLocks := rfl
  maxJobs := rfl

theorem recover_unlost (h : ∀ id job, s.jobs.get? id = some job → lost job.state = false)
    (stamp : String → DateTime) : s.recover lost stamp = (0, s) := by
  have hvalues : ∀ job ∈ s.jobs.values, lost job.state = false := fun job hjob =>
    h job.id job (Jobs.mem_values.mp hjob)
  have hnone : (s.jobs.values.filter fun job => lost job.state) = [] :=
    List.filter_eq_nil_iff.mpr fun job hjob => by simp [hvalues job hjob]
  have hsame : (s.jobs.restate fun job =>
      if lost job.state then some (.enqueued (stamp job.id) job.queue) else none) = s.jobs :=
    Jobs.restate_of_none fun job hjob => by simp [hvalues job hjob]
  simp only [recover, hnone, hsame, List.length_nil, List.foldl_nil]

/-- What a recovery leaves, it would not move again. -/
theorem recovered_unlost (hrequeued : ∀ now queue, lost (.enqueued now queue) = false)
    (hjob : (s.recover lost stamp).2.jobs.get? id = some job) : lost job.state = false := by
  rw [get?_recover, Option.map_eq_some_iff] at hjob
  obtain ⟨old, -, rfl⟩ := hjob
  split
  · exact hrequeued _ _
  · simpa using ‹¬ lost old.state = true›

/-- A job that waits in its queue and has no lock entry, whatever the clock says. -/
structure Awaits (s : MemoryStorage) (queues : Option (List String)) (id : String) : Prop where
  stored : ∃ job, s.jobs.get? id = some job ∧ job.state.kind = .enqueued ∧
    QueueAllowed queues job.queue
  unlocked : s.locks.get? id = none

/-- How many of the stored jobs wait to be handed out. -/
def waiting (s : MemoryStorage) : Nat := s.jobs.dict.count fun _ job => job.state.kind.waiting

theorem waiting_le_len (s : MemoryStorage) : s.waiting ≤ s.len := List.length_filter_le ..

@[simp] theorem waiting_reorder (order : List String) : (s.reorder order).waiting = s.waiting :=
  Dict.count_reorder ..

@[simp] theorem waiting_cleanup (now : DateTime) :
    (s.cleanupExpiredLocks now).waiting = s.waiting := rfl

/-- Each claim leaves one waiting job less. -/
theorem lockAvailableJob_waiting {workerId : String} {clock : FetchClock}
    (h : s.lockAvailableJob workerId queues clock = (some job, t)) :
    t.waiting + 1 = s.waiting := by
  obtain ⟨old, hold, havail, -, -, rfl, rfl⟩ := lockAvailableJob_some h
  have hcount := Dict.count_insert (fun (_ : String) (job : Job) => job.state.kind.waiting)
    s.jobs.dict old.id { old with state := .processing clock.start workerId "memory-storage" }
  have hwaited : old.state.kind.waiting = true := by
    rcases available_kind havail with hkind | hkind | hkind <;> rw [hkind] <;> rfl
  have hget : s.jobs.dict.get? old.id = some old := hold
  rw [hget, Option.any_some, if_pos hwaited] at hcount
  exact hcount

theorem Awaits.pos (h : s.Awaits queues id) : 0 < s.waiting := by
  obtain ⟨job, hjob, hkind, -⟩ := h.stored
  have hwaits : job.state.kind.waiting = true := by
    rw [hkind]
    rfl
  exact List.length_pos_of_mem (List.mem_filter.mpr ⟨Dict.get?_iff.mp hjob, hwaits⟩)

theorem Awaits.reorder (h : s.Awaits queues id) (order : List String) :
    (s.reorder order).Awaits queues id where
  stored := by simpa using h.stored
  unlocked := by simpa using h.unlocked

theorem Awaits.cleanupExpiredLocks (h : s.Awaits queues id) (now : DateTime) :
    (s.cleanupExpiredLocks now).Awaits queues id where
  stored := h.stored
  unlocked := by
    rw [MemoryStorage.cleanupExpiredLocks, Dict.get?_filter, h.unlocked]
    rfl

/-- A fetch finds some job, and leaves the others that wait. -/
theorem Awaits.lockAvailableJob (h : s.Awaits queues id) (workerId : String) (clock : FetchClock) :
    ∃ claimed t, s.lockAvailableJob workerId queues clock = (some claimed, t) ∧
      t.waiting + 1 = s.waiting ∧ (claimed.id = id ∨ t.Awaits queues id) := by
  generalize hresult : s.lockAvailableJob workerId queues clock = result
  obtain ⟨_ | claimed, t⟩ := result
  · obtain ⟨job, hjob, hkind, hqueue⟩ := h.stored
    obtain rfl := Jobs.id_of_get? hjob
    have havail : available clock.select job = true := by
      cases hstate : job.state <;> simp_all [JobState.kind, available]
    have hlocked := (lockAvailableJob_none hresult).2 job hjob havail (inFilter_iff.mpr hqueue)
    rw [Dict.contains_eq_false.mpr h.unlocked] at hlocked
    cases hlocked
  · refine ⟨claimed, t, rfl, lockAvailableJob_waiting hresult, ?_⟩
    obtain ⟨old, -, -, -, -, rfl, rfl⟩ := lockAvailableJob_some hresult
    by_cases hid : old.id = id
    · exact .inl hid
    · have hne : id ≠ old.id := fun heq => hid heq.symm
      exact .inr ⟨by simpa [hne] using h.stored, by simp [hne, h.unlocked]⟩

theorem Awaits.call (h : s.Awaits queues id) (workerId : String) (envs : Nat → Env) :
    ∃ claimed t, s.call (fetchAndLockJob workerId queues) envs = some (.ok (some claimed), t) ∧
      t.waiting + 1 = s.waiting ∧ (claimed.id = id ∨ t.Awaits queues id) := by
  have hready := (h.cleanupExpiredLocks (envs 0).now).reorder (envs 1).order
  obtain ⟨claimed, t, hclaim, hcount, hleft⟩ := hready.lockAvailableJob workerId (envs 1).fetch
  rw [waiting_reorder, waiting_cleanup] at hcount
  refine ⟨claimed, t, ?_, hcount, hleft⟩
  simp only [MemoryStorage.call, fetchAndLockJob, Call.enter, Prog.ask_bind]
  simp only [Prog.ask, Prog.alone, Call.perform, Section.perform, hclaim]
  rfl

/-- Enough fetches hand out every job that waits. -/
theorem Awaits.obtained (h : s.Awaits queues id) {calls : List (String × (Nat → Env))}
    (hcalls : s.waiting ≤ calls.length) :
    ∃ claimed ∈ fetchEach queues calls s, claimed.id = id := by
  induction calls generalizing s with
  | nil => exact absurd hcalls (Nat.not_le.mpr h.pos)
  | cons call calls ih =>
    obtain ⟨workerId, envs⟩ := call
    obtain ⟨claimed, t, hcall, hcount, hleft⟩ := h.call workerId envs
    rw [fetchEach, hcall]
    rcases hleft with hid | hleft
    · exact ⟨claimed, List.mem_cons_self, hid⟩
    · have hfewer : t.waiting ≤ calls.length := by
        rw [List.length_cons] at hcalls
        omega
      obtain ⟨later, hmem, hid⟩ := ih hleft hfewer
      exact ⟨later, List.mem_cons_of_mem _ hmem, hid⟩

theorem recover_recovery (hrequeued : ∀ now queue, lost (.enqueued now queue) = false) :
    Recovery (fun job => lost job.state = true) fun s stamp => s.recover lost stamp where
  exact := recover_moves
  idempotent s stamp again := recover_unlost (fun _ _ => recovered_unlost hrequeued) again
  obtained s stamp id job hjob hlost queues calls hqueue hcalls := by
    obtain ⟨⟨now, hmoved⟩, hunlocked⟩ := (recover_moves s stamp).moved id job hjob hlost
    exact Awaits.obtained ⟨⟨_, hmoved, rfl, hqueue⟩, hunlocked⟩ ((waiting_le_len _).trans hcalls)

section
variable (hrequeued' : ∀ now queue, lost' (.enqueued now queue) = false)
include hrequeued'

/-- What is lost to a second recovery was lost before the first, and not to it. -/
theorem lost_after {job : Job} :
    ((s.recover lost stamp).2.jobs.get? id = some job ∧ lost' job.state = true) ↔
      s.jobs.get? id = some job ∧ lost job.state = false ∧ lost' job.state = true := by
  rw [get?_recover]
  cases hold : s.jobs.get? id with
  | none => simp
  | some old =>
    rw [Option.map_some, Option.some.injEq, Option.some.injEq]
    cases hlost : lost old.state with
    | true =>
      constructor
      · rintro ⟨rfl, hagain⟩
        rw [if_pos rfl, hrequeued'] at hagain
        cases hagain
      · rintro ⟨rfl, hnot, -⟩
        cases hlost.symm.trans hnot
    | false =>
      constructor
      · rintro ⟨rfl, hagain⟩
        exact ⟨rfl, hlost, hagain⟩
      · rintro ⟨rfl, -, hagain⟩
        exact ⟨rfl, hagain⟩

/-- Two recoveries remove the locks of all that is lost to one of them. -/
theorem locks_recover_twice {stamp' : String → DateTime} :
    ((s.recover lost stamp).2.recover lost' stamp').2.locks.get? id =
      if ∃ job, s.jobs.get? id = some job ∧ (lost job.state = true ∨ lost' job.state = true)
      then none else s.locks.get? id := by
  rw [locks_recover, locks_recover]
  simp only [lost_after hrequeued']
  by_cases hfirst : ∃ job, s.jobs.get? id = some job ∧ lost job.state = true
  · rw [if_pos hfirst, ite_self, if_pos]
    exact hfirst.imp fun job hjob => ⟨hjob.1, .inl hjob.2⟩
  · rw [if_neg hfirst]
    refine if_congr ⟨?_, ?_⟩ rfl rfl
    · rintro ⟨job, hjob, -, hlost⟩
      exact ⟨job, hjob, .inr hlost⟩
    · rintro ⟨job, hjob, hlost | hlost⟩
      · exact absurd ⟨job, hjob, hlost⟩ hfirst
      · exact ⟨job, hjob, Bool.eq_false_iff.mpr fun h => hfirst ⟨job, hjob, h⟩, hlost⟩

/-- And they return, together, the number of these. -/
theorem recover_twice_returned {stamp' : String → DateTime} :
    (s.recover lost stamp).1 + ((s.recover lost stamp).2.recover lost' stamp').1 =
      s.jobs.values.countP fun job => lost job.state || lost' job.state := by
  have hvalues : (s.recover lost stamp).2.jobs.values = s.jobs.values.map fun job =>
      { job with state := (if lost job.state then
        some (JobState.enqueued (stamp job.id) job.queue) else none).getD job.state } := by
    simp only [recover, Jobs.values, Jobs.restate, Dict.values, Dict.mapValues, List.map_map,
      Function.comp_def]
  have hfirst : (s.recover lost stamp).1 = s.jobs.values.countP fun job => lost job.state :=
    List.countP_eq_length_filter.symm
  have hsecond : ((s.recover lost stamp).2.recover lost' stamp').1 =
      (s.recover lost stamp).2.jobs.values.countP fun job => lost' job.state :=
    List.countP_eq_length_filter.symm
  have hkept : ((fun job : Job => lost' job.state) ∘ fun job : Job =>
      { job with state := (if lost job.state then
        some (JobState.enqueued (stamp job.id) job.queue) else none).getD job.state }) =
      fun job => !lost job.state && lost' job.state := by
    funext job
    rw [Function.comp_apply]
    cases lost job.state with
    | true => exact hrequeued' _ _
    | false => rfl
  rw [hfirst, hsecond, hvalues, List.countP_map, hkept]
  induction s.jobs.values with
  | nil => rfl
  | cons job jobs ih =>
    simp only [List.countP_cons, ← ih]
    cases lost job.state <;> cases lost' job.state <;> simp <;> omega

end

/-- Two recoveries, either way round. -/
theorem recover_commutes (hrequeued : ∀ now queue, lost (.enqueued now queue) = false)
    (hrequeued' : ∀ now queue, lost' (.enqueued now queue) = false)
    (α β γ δ : String → DateTime) :
    SameButStamps (fun job => lost job.state = true ∨ lost' job.state = true) s
        ((s.recover lost α).2.recover lost' β).2 ((s.recover lost' γ).2.recover lost δ).2 ∧
      (s.recover lost α).1 + ((s.recover lost α).2.recover lost' β).1 =
        (s.recover lost' γ).1 + ((s.recover lost' γ).2.recover lost δ).1 := by
  refine ⟨⟨fun id => ?_, fun id => ?_, rfl, rfl, rfl⟩, ?_⟩
  · simp only [get?_recover]
    cases hjob : s.jobs.get? id with
    | none => exact .inl rfl
    | some job =>
      cases hlost : lost job.state <;> cases hlost' : lost' job.state
      · exact .inl (by simp [hlost, hlost'])
      · exact .inr ⟨job, β id, γ id, rfl, .inr hlost', by simp [hlost, hlost', Job.requeued],
          by simp [hlost', hrequeued, Job.requeued]⟩
      · exact .inr ⟨job, α id, δ id, rfl, .inl hlost, by simp [hlost, hrequeued', Job.requeued],
          by simp [hlost, hlost', Job.requeued]⟩
      · exact .inr ⟨job, α id, γ id, rfl, .inl hlost, by simp [hlost, hrequeued', Job.requeued],
          by simp [hlost', hrequeued, Job.requeued]⟩
  · rw [locks_recover_twice hrequeued', locks_recover_twice hrequeued]
    simp only [or_comm]
  · rw [recover_twice_returned hrequeued', recover_twice_returned hrequeued]
    simp only [Bool.or_comm]

/-- Recovery is exact, complete and idempotent, and the two kinds of it commute. -/
theorem recovery_exact :
    (∀ staleBefore, Recovery (Job.Stranded staleBefore) fun s stamp =>
      s.requeueStrandedJobs staleBefore stamp) ∧
    (∀ serverId, Recovery (Job.ClaimedBy serverId) fun s stamp =>
      s.reclaimJobsFromServer serverId stamp) ∧
    ∀ s staleBefore serverId α β γ δ,
      SameButStamps (fun job => job.Stranded staleBefore ∨ job.ClaimedBy serverId) s
          ((s.requeueStrandedJobs staleBefore α).2.reclaimJobsFromServer serverId β).2
          ((s.reclaimJobsFromServer serverId γ).2.requeueStrandedJobs staleBefore δ).2 ∧
        (s.requeueStrandedJobs staleBefore α).1 +
            ((s.requeueStrandedJobs staleBefore α).2.reclaimJobsFromServer serverId β).1 =
          (s.reclaimJobsFromServer serverId γ).1 +
            ((s.reclaimJobsFromServer serverId γ).2.requeueStrandedJobs staleBefore δ).1 := by
  simp only [stranded_eq, claimedBy_eq]
  have hstale : ∀ staleBefore now queue, stale staleBefore (.enqueued now queue) = false :=
    fun _ _ _ => rfl
  have howned : ∀ serverId now queue, ownedBy serverId (.enqueued now queue) = false :=
    fun _ _ _ => rfl
  exact ⟨fun staleBefore => recover_recovery (hstale staleBefore),
    fun serverId => recover_recovery (howned serverId),
    fun s staleBefore serverId => recover_commutes (hstale staleBefore) (howned serverId)⟩

end
end MemoryStorage
end Qml
