import Qml.Dashboard.Service

namespace Qml
open Lib

structure JobsQuery where
  state : Option String
  limit : Option UInt64
  queue : Option String

structure ApiResponse (α : Type) where
  success : Bool
  data : Option α
  error : Option String
  deriving DecidableEq, Repr

inductive StatusCode
  | internalServerError
  deriving DecidableEq, Repr

namespace ApiResponse

def ofData {α : Type} (data : α) : ApiResponse α := ⟨true, some data, none⟩

def ofError {α : Type} (message : String) : ApiResponse α := ⟨false, none, some message⟩

end ApiResponse

namespace Routes

/-- Only ASCII letters lowercase into these names. -/
def parseJobState (stateStr : String) : Option JobStateKind :=
  match stateStr.toLower with
  | "enqueued" => some .enqueued
  | "processing" => some .processing
  | "succeeded" => some .succeeded
  | "failed" => some .failed
  | "scheduled" => some .scheduled
  | "awaiting_retry" | "awaitingretry" => some .awaitingRetry
  | "deleted" => some .deleted
  | _ => none

/-- Both endpoints: the jobs of a query, of which only some are kept. -/
def respond (storage : MonitoringApi) (params : JobsQuery) (keep : JobDetails → Bool) :
    Option (Except StatusCode (ApiResponse (List JobDetails))) := do
  let answer : Except QmlError (List JobDetails) →
      Except StatusCode (ApiResponse (List JobDetails))
    | .ok jobs => .ok (.ofData (jobs.filter keep))
    | .error _ => .error .internalServerError
  match params.state with
  | some stateStr =>
    match parseJobState stateStr with
    | none => return .ok (.ofError "Invalid job state")
    | some state => return answer (← DashboardService.getJobsByState storage state)
  | none => return answer (← DashboardService.getRecentJobs storage params.limit)

def getJobs (storage : MonitoringApi) (params : JobsQuery) :
    Option (Except StatusCode (ApiResponse (List JobDetails))) :=
  respond storage params fun job =>
    match params.queue with
    | some queue => decide (job.queue = queue)
    | none => true

def getQueueJobs (storage : MonitoringApi) (queueName : String) (params : JobsQuery) :
    Option (Except StatusCode (ApiResponse (List JobDetails))) :=
  respond storage params fun job => decide (job.queue = queueName)

/-- The state that a query names, if it names one, and the name is one of a state. -/
def stateFilter : Option String → Option (Option JobStateKind)
  | some stateStr => (parseJobState stateStr).map some
  | none => some none

/-- How many jobs are asked for. -/
def asked (state : Option JobStateKind) (limit : Option UInt64) : Nat :=
  (limit.getD (if state.isSome then 100 else 50)).toNat

/-- How many jobs the storage is asked for: with a state the limit is not passed on. -/
def window : Option JobStateKind → Option UInt64 → Nat
  | some _, _ => 100
  | none, limit => (limit.getD 50).toNat

/-- The newest stored jobs of a queue, and of a state if one is given, up to a number of them.
Jobs that were created at the same time may stand in any order. -/
def NewestOfQueue (s : MemoryStorage) (queue : String) (state : Option JobStateKind) (n : Nat)
    (jobs : List JobDetails) : Prop :=
  ∃ ranking, Ranks Job.newestFirst (fun job => s.Matches state job ∧ job.queue = queue) ranking ∧
    jobs = (ranking.take n).map DashboardService.jobDetails

variable {s : MemoryStorage} {checks : Bool} {named : Option String}
  {state : Option JobStateKind} {queue : String}

/-- The storage limits, and the route filters what is left. -/
theorem respond_window {limit : Option UInt64} (other : Option String)
    (hnamed : stateFilter named = some state) :
    respond (s.monitoring checks) ⟨named, limit, other⟩ (fun job => decide (job.queue = queue)) =
      some (.ok (.ofData ((((s.newest state).take (window state limit)).filter
        fun job => decide (job.queue = queue)).map DashboardService.jobDetails))) := by
  have hkeep : ∀ jobs : List Job, (jobs.map DashboardService.jobDetails).filter
      (fun job => decide (job.queue = queue)) =
        (jobs.filter fun job => decide (job.queue = queue)).map DashboardService.jobDetails :=
    fun jobs => List.filter_map
  rw [← hkeep]
  cases named with
  | none =>
    cases hnamed
    simp only [respond, DashboardService.getRecentJobs, DashboardService.listed_memory]
    rfl
  | some stateStr =>
    obtain ⟨kind, hparse, rfl⟩ := Option.map_eq_some_iff.mp hnamed
    simp only [respond, hparse, DashboardService.getJobsByState, DashboardService.listed_memory]
    rfl

/-- A window shows the newest jobs of the queue if it is enough for the number asked for, and
otherwise it shows too many of them or too few. -/
theorem newestOfQueue_iff {w n : Nat} :
    NewestOfQueue s queue state n ((((s.newest state).take w).filter
      fun job => decide (job.queue = queue)).map DashboardService.jobDetails) ↔
      WindowServes (s.newest state) (fun job => decide (job.queue = queue)) w n := by
  have hranks : Ranks Job.newestFirst (fun job => s.Matches state job ∧ job.queue = queue)
      ((s.newest state).filter fun job => decide (job.queue = queue)) := by
    have hall : Ranks Job.newestFirst (s.Matches state) (s.newest state) :=
      MemoryStorage.newest_ranks
    have hkept : Ranks Job.newestFirst
        (fun job => s.Matches state job ∧ decide (job.queue = queue) = true)
        ((s.newest state).filter fun job => decide (job.queue = queue)) := hall.filter
    simpa only [decide_eq_true_eq] using hkept
  constructor
  · rintro ⟨ranking, hranking, hjobs⟩
    have hlength := congrArg List.length hjobs
    rw [List.length_map, List.length_map, List.length_take, (hranking.perm hranks).length_eq,
      ← List.countP_eq_length_filter, ← List.countP_eq_length_filter] at hlength
    exact windowServes_iff.mpr hlength
  · intro h
    exact ⟨_, hranks, by rw [h.filter_take]⟩

/-- Both endpoints give the newest jobs of the queue exactly if the window that the storage was
asked for holds as many of them as the query asks for, or all there are. -/
theorem queue_jobs_iff (s : MemoryStorage) (checks : Bool) (queue : String)
    (limit : Option UInt64) (other : Option String) (hnamed : stateFilter named = some state) :
    ∃ jobs, getJobs (s.monitoring checks) ⟨named, limit, some queue⟩ = some (.ok (.ofData jobs)) ∧
      getQueueJobs (s.monitoring checks) queue ⟨named, limit, other⟩ =
        some (.ok (.ofData jobs)) ∧
      (NewestOfQueue s queue state (asked state limit) jobs ↔
        WindowServes (s.newest state) (fun job => decide (job.queue = queue))
          (window state limit) (asked state limit)) :=
  ⟨_, respond_window (some queue) hnamed, respond_window other hnamed, newestOfQueue_iff⟩

/-- Two jobs of one queue, and a newer one of another. -/
def mixed : MemoryStorage :=
  (((MemoryStorage.empty none).insertJob
        (Job.withConfig "job-1" 1 "send" .null "mail" 0 0)).insertJob
      (Job.withConfig "job-2" 2 "send" .null "mail" 0 0)).insertJob
    (Job.withConfig "job-3" 3 "print" .null "reports" 0 0)

theorem queue_jobs_iff_mixed : ∃ jobs,
    getJobs (mixed.monitoring true) ⟨some "Enqueued", some 1, some "reports"⟩ =
        some (.ok (.ofData jobs)) ∧
      getQueueJobs (mixed.monitoring true) "reports" ⟨some "Enqueued", some 1, none⟩ =
        some (.ok (.ofData jobs)) ∧
      (NewestOfQueue mixed "reports" (some .enqueued) 1 jobs ↔
        WindowServes (mixed.newest (some .enqueued)) (fun job => decide (job.queue = "reports"))
          100 1) :=
  queue_jobs_iff mixed true "reports" (some 1) none (by decide +kernel)

/-- The limit is spent on the other queue; with a state it is not applied. -/
theorem older_job_hidden :
    (∃ jobs, getQueueJobs (mixed.monitoring true) "mail" ⟨none, some 1, none⟩ =
        some (.ok (.ofData jobs)) ∧ ¬ NewestOfQueue mixed "mail" none 1 jobs) ∧
      ∃ jobs, getQueueJobs (mixed.monitoring true) "mail" ⟨some "enqueued", some 1, none⟩ =
        some (.ok (.ofData jobs)) ∧ ¬ NewestOfQueue mixed "mail" (some .enqueued) 1 jobs := by
  have hnamed : stateFilter (some "enqueued") = some (some .enqueued) := by decide +kernel
  refine ⟨⟨_, respond_window none rfl, ?_⟩, _, respond_window none hnamed, ?_⟩
  · rw [newestOfQueue_iff, windowServes_iff]
    decide +kernel
  · rw [newestOfQueue_iff, windowServes_iff]
    decide +kernel

end Routes
end Qml
