import Qml.Core.Job

namespace Qml
open Lib

/-- The job map. Every job is stored under its own identifier: the source only
ever writes `jobs.insert(job.id.clone(), ..)` or changes a job in place. -/
structure Jobs where
  dict : Dict String Job
  keyed : ∀ {id job}, dict.get? id = some job → job.id = id

namespace Jobs

def empty : Jobs := ⟨.empty, by simp⟩

def get? (jobs : Jobs) (id : String) : Option Job := jobs.dict.get? id

def values (jobs : Jobs) : List Job := jobs.dict.values

def size (jobs : Jobs) : Nat := jobs.dict.size

def insert (jobs : Jobs) (job : Job) : Jobs :=
  ⟨jobs.dict.insert job.id job, by
    intro id old h
    rw [Dict.get?_insert] at h
    split at h
    · cases h
      exact Eq.symm ‹_›
    · exact jobs.keyed h⟩

def erase (jobs : Jobs) (id : String) : Jobs :=
  ⟨jobs.dict.erase id, by
    intro id' old h
    rw [Dict.get?_erase] at h
    split at h
    · cases h
    · exact jobs.keyed h⟩

/-- `HashMap::retain`. -/
def retain (jobs : Jobs) (p : Job → Bool) : Jobs :=
  ⟨jobs.dict.filter (fun _ => p), by
    intro id job h
    rw [Dict.get?_filter, Option.filter_eq_some_iff] at h
    exact jobs.keyed h.1⟩

/-- Set the state of the jobs that `f` gives one, in place. -/
def restate (jobs : Jobs) (f : Job → Option JobState) : Jobs :=
  ⟨jobs.dict.mapValues fun _ job => { job with state := (f job).getD job.state }, by
    intro id job h
    rw [Dict.get?_mapValues, Option.map_eq_some_iff] at h
    obtain ⟨old, ho, rfl⟩ := h
    have hid : old.id = id := jobs.keyed ho
    exact hid⟩

/-- The same jobs in another iteration order. -/
def reorder (order : List String) (jobs : Jobs) : Jobs :=
  ⟨jobs.dict.reorder order, by
    intro id job h
    rw [Dict.get?_reorder] at h
    exact jobs.keyed h⟩

variable {jobs : Jobs} {id : String} {job : Job}

theorem id_of_get? (h : jobs.get? id = some job) : job.id = id := jobs.keyed h

@[simp] theorem get?_empty : empty.get? id = none := rfl

@[simp] theorem get?_insert :
    (jobs.insert job).get? id = if id = job.id then some job else jobs.get? id :=
  Dict.get?_insert ..

@[simp] theorem get?_erase {gone : String} :
    (jobs.erase gone).get? id = if id = gone then none else jobs.get? id :=
  Dict.get?_erase ..

@[simp] theorem get?_retain {p : Job → Bool} :
    (jobs.retain p).get? id = (jobs.get? id).filter p :=
  Dict.get?_filter ..

@[simp] theorem get?_restate {f : Job → Option JobState} :
    (jobs.restate f).get? id =
      (jobs.get? id).map fun job => { job with state := (f job).getD job.state } :=
  Dict.get?_mapValues ..

theorem ext_dict {jobs' : Jobs} (h : jobs.dict = jobs'.dict) : jobs = jobs' := by
  cases jobs
  cases h
  rfl

theorem restate_of_none {f : Job → Option JobState} (h : ∀ job ∈ jobs.values, f job = none) :
    jobs.restate f = jobs := by
  have hsame : ∀ id job, jobs.dict.get? id = some job →
      { job with state := (f job).getD job.state } = job := by
    intro id job hjob
    rw [h job (Dict.mem_values.mpr ⟨id, hjob⟩), Option.getD_none]
  exact ext_dict (Dict.mapValues_same hsame)

@[simp] theorem get?_reorder {order : List String} :
    (jobs.reorder order).get? id = jobs.get? id :=
  Dict.get?_reorder ..

theorem mem_values : job ∈ jobs.values ↔ jobs.get? job.id = some job := by
  rw [values, Dict.mem_values]
  constructor
  · rintro ⟨k, hk⟩
    rwa [← jobs.keyed hk] at hk
  · exact fun h => ⟨_, h⟩

/-- No identifier is stored twice. -/
theorem values_nodup (jobs : Jobs) : (jobs.values.map Job.id).Nodup := by
  have hkeys : jobs.values.map Job.id = jobs.dict.keys := by
    rw [values, Dict.values, Dict.keys, List.map_map]
    exact List.map_congr_left fun e he => jobs.keyed (Dict.get?_iff.mpr he)
  rw [hkeys]
  exact jobs.dict.nodup

/-- Different stored jobs have different identifiers. -/
theorem ids_nodup {l : List Job} (hstored : ∀ job ∈ l, jobs.get? job.id = some job)
    (h : l.Nodup) : (l.map Job.id).Nodup := by
  apply List.Nodup.map_on _ h
  intro a ha b hb hid
  have hsame := hstored a ha
  rw [hid, hstored b hb] at hsame
  exact (Option.some.inj hsame).symm

end Jobs

/-- The lock entry a claim leaves behind. -/
structure JobLock where
  workerId : String
  expiresAt : DateTime

/-- An entry of the named locks offered to user code. -/
structure NamedLock where
  owner : String
  expiresAt : DateTime

/-- A live server in the registry. -/
structure ServerInfo where
  serverId : String
  serverName : String
  startedAt : DateTime
  lastHeartbeat : DateTime
  workerCount : UInt32
  queues : List String

/-- The three readings of the clock in one call of `fetch_and_lock_job`. -/
structure FetchClock where
  select : DateTime
  lock : DateTime
  start : DateTime

/-- The in-memory backend. Each function below is the body of one critical
section; readings of the clock are arguments. -/
structure MemoryStorage where
  jobs : Jobs
  locks : Dict String JobLock
  servers : Dict String ServerInfo
  namedLocks : Dict String NamedLock
  maxJobs : Option Nat

namespace MemoryStorage

def empty (maxJobs : Option Nat) : MemoryStorage := ⟨.empty, .empty, .empty, .empty, maxJobs⟩

/-- Every map iterated in the order given. -/
def reorder (order : List String) (s : MemoryStorage) : MemoryStorage :=
  { s with
    jobs := s.jobs.reorder order
    locks := s.locks.reorder order
    servers := s.servers.reorder order
    namedLocks := s.namedLocks.reorder order }

def len (s : MemoryStorage) : Nat := s.jobs.size

def isAtCapacity (s : MemoryStorage) : Bool :=
  match s.maxJobs with
  | some maxJobs => decide (maxJobs ≤ s.len)
  | none => false

def available (now : DateTime) (job : Job) : Bool :=
  match job.state with
  | .enqueued .. => true
  | .scheduled _ enqueueAt _ => decide (enqueueAt ≤ now)
  | .awaitingRetry _ retryAt _ => decide (retryAt ≤ now)
  | _ => false

def getAvailableJobsInternal (jobs : Jobs) (now : DateTime) (limit : Option Nat) : List Job :=
  let sorted := (jobs.values.filter (available now)).insertionSort Job.notAfter
  match limit with
  | some limit => sorted.take limit
  | none => sorted

def get (s : MemoryStorage) (jobId : String) : Option Job := s.jobs.get? jobId

def update (s : MemoryStorage) (job : Job) : Except StorageError Unit × MemoryStorage :=
  match s.jobs.get? job.id with
  | some _ => (.ok (), { s with jobs := s.jobs.insert job })
  | none => (.error (.jobNotFound job.id), s)

def updateIfState (s : MemoryStorage) (job : Job) (expected : JobStateKind) :
    Except StorageError Bool × MemoryStorage :=
  match s.jobs.get? job.id with
  | none => (.error (.jobNotFound job.id), s)
  | some existing =>
    if existing.state.kind ≠ expected then (.ok false, s)
    else (.ok true, { s with jobs := s.jobs.insert job })

def delete (s : MemoryStorage) (jobId : String) : Bool × MemoryStorage :=
  ((s.jobs.get? jobId).isSome, { s with jobs := s.jobs.erase jobId })

/-- The second critical section of `enqueue`, after the capacity check. -/
def insertJob (s : MemoryStorage) (job : Job) : MemoryStorage :=
  { s with jobs := s.jobs.insert job }

def dueScheduled (now : DateTime) (job : Job) : Bool :=
  match job.state with
  | .scheduled _ enqueueAt _ => decide (enqueueAt ≤ now)
  | _ => false

def dueRetry (now : DateTime) (job : Job) : Bool :=
  match job.state with
  | .awaitingRetry _ retryAt _ => decide (retryAt ≤ now)
  | _ => false

/-- What the two read-only methods return: the due jobs, in dispatch order. -/
def fetchDue (due : Job → Bool) (limit : Nat) (s : MemoryStorage) : List Job :=
  ((s.jobs.values.filter due).insertionSort Job.notAfter).take limit

def fetchDueScheduledJobs (s : MemoryStorage) (now : DateTime) (limit : Nat) : List Job :=
  s.fetchDue (dueScheduled now) limit

def fetchDueRetryJobs (s : MemoryStorage) (now : DateTime) (limit : Nat) : List Job :=
  s.fetchDue (dueRetry now) limit

/-- The identifiers of the due jobs, in dispatch order. The source sorts the
identifiers by the jobs they index, which are these jobs. -/
def dueIds (jobs : Jobs) (due : Job → Bool) (limit : Nat) : List String :=
  (((jobs.values.filter due).insertionSort Job.notAfter).map Job.id).take limit

/-- The loop that promotes one claimed identifier after the other. `stamp`
gives the reading of the clock made for each of them. -/
def promote (stamp : String → DateTime) (jobs : Jobs) : List String → List Job × Jobs
  | [] => ([], jobs)
  | id :: ids =>
    match jobs.get? id with
    | some job =>
      let job := { job with state := .enqueued (stamp id) job.queue }
      let (claimed, jobs) := promote stamp (jobs.insert job) ids
      (job :: claimed, jobs)
    | none => promote stamp jobs ids

def claimDue (due : Job → Bool) (limit : Nat) (stamp : String → DateTime) (s : MemoryStorage) :
    List Job × MemoryStorage :=
  let (claimed, jobs) := promote stamp s.jobs (dueIds s.jobs due limit)
  (claimed, { s with jobs := jobs })

def claimDueScheduledJobs (s : MemoryStorage) (now : DateTime) (limit : Nat)
    (stamp : String → DateTime) : List Job × MemoryStorage :=
  s.claimDue (dueScheduled now) limit stamp

def claimDueRetryJobs (s : MemoryStorage) (now : DateTime) (limit : Nat)
    (stamp : String → DateTime) : List Job × MemoryStorage :=
  s.claimDue (dueRetry now) limit stamp

def unexpired (now : DateTime) (job : Job) : Bool :=
  match job.expiresAt with
  | some ts => decide (now < ts)
  | none => true

def deleteExpiredJobs (s : MemoryStorage) (now : DateTime) : Nat × MemoryStorage :=
  let jobs := s.jobs.retain (unexpired now)
  (s.jobs.size - jobs.size, { s with jobs := jobs })

/-- Put the matching jobs back to `Enqueued` and drop their lock entries: the
loop that both recovery sweeps share. -/
def recover (s : MemoryStorage) (lost : JobState → Bool) (stamp : String → DateTime) :
    Nat × MemoryStorage :=
  let hit := s.jobs.values.filter fun job => lost job.state
  (hit.length, { s with
    jobs := s.jobs.restate fun job =>
      if lost job.state then some (.enqueued (stamp job.id) job.queue) else none
    locks := hit.foldl (fun locks job => locks.erase job.id) s.locks })

def stale (staleBefore : DateTime) : JobState → Bool
  | .processing startedAt _ _ => decide (startedAt < staleBefore)
  | _ => false

def requeueStrandedJobs (s : MemoryStorage) (staleBefore : DateTime)
    (stamp : String → DateTime) : Nat × MemoryStorage :=
  s.recover (stale staleBefore) stamp

def ownedBy (serverId : String) : JobState → Bool
  | .processing _ _ serverName => decide (serverName = serverId)
  | _ => false

def reclaimJobsFromServer (s : MemoryStorage) (serverId : String)
    (stamp : String → DateTime) : Nat × MemoryStorage :=
  s.recover (ownedBy serverId) stamp

def cleanupExpiredLocks (s : MemoryStorage) (now : DateTime) : MemoryStorage :=
  { s with locks := s.locks.filter fun _ lock => decide (now < lock.expiresAt) }

def inFilter (queues : Option (List String)) (queue : String) : Bool :=
  match queues with
  | none => true
  | some queues => queues.isEmpty || queues.contains queue

/-- The second critical section of `fetch_and_lock_job`, after the cleanup of
expired locks. -/
def lockAvailableJob (s : MemoryStorage) (workerId : String) (queues : Option (List String))
    (clock : FetchClock) : Option Job × MemoryStorage :=
  match (getAvailableJobsInternal s.jobs clock.select none).find?
      (fun job => inFilter queues job.queue && !s.locks.contains job.id) with
  | some job =>
    let locks := s.locks.insert job.id ⟨workerId, clock.lock + Duration.minutes 30⟩
    let job := { job with state := .processing clock.start workerId "memory-storage" }
    (some job, { s with jobs := s.jobs.insert job, locks := locks })
  | none => (none, s)

/-- The second critical section of `try_acquire_job_lock`. A timeout that does
not fit a span, or leads out of the range of dates, panics. -/
def acquireJobLock (s : MemoryStorage) (jobId workerId : String) (timeoutSeconds : UInt64)
    (now : DateTime) : Option (Bool × MemoryStorage) :=
  if s.locks.contains jobId then some (false, s)
  else
    let timeout := Duration.seconds timeoutSeconds.toInt64.toInt
    if timeout.inRange && DateTime.inRange (now + timeout) then
      some (true, { s with locks := s.locks.insert jobId ⟨workerId, now + timeout⟩ })
    else none

def releaseJobLock (s : MemoryStorage) (jobId workerId : String) : Bool × MemoryStorage :=
  match s.locks.get? jobId with
  | some lock =>
    if lock.workerId = workerId then (true, { s with locks := s.locks.erase jobId })
    else (false, s)
  | none => (false, s)

def registerServer (s : MemoryStorage) (info : ServerInfo) : MemoryStorage :=
  { s with servers := s.servers.insert info.serverId info }

def heartbeatServer (s : MemoryStorage) (serverId : String) (now : DateTime) :
    Bool × MemoryStorage :=
  match s.servers.get? serverId with
  | some info =>
    (true, { s with servers := s.servers.insert serverId { info with lastHeartbeat := now } })
  | none => (false, s)

def deregisterServer (s : MemoryStorage) (serverId : String) : Bool × MemoryStorage :=
  (s.servers.contains serverId, { s with servers := s.servers.erase serverId })

def listDeadServers (s : MemoryStorage) (staleBefore : DateTime) : List ServerInfo :=
  s.servers.values.filter fun info => decide (info.lastHeartbeat < staleBefore)

def cleanupExpiredNamedLocks (s : MemoryStorage) (now : DateTime) : Nat × MemoryStorage :=
  let locks := s.namedLocks.filter fun _ lock => decide (now < lock.expiresAt)
  (s.namedLocks.size - locks.size, { s with namedLocks := locks })

end MemoryStorage
end Qml
