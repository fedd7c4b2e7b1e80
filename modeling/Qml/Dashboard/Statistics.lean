import Qml.Dashboard.Service

namespace Qml
open Lib

/-- The stored jobs of a queue that are in a state. -/
def MemoryStorage.countIn (s : MemoryStorage) (queue : String) (kind : JobStateKind) : Nat :=
  s.jobs.values.countP fun job => job.queue = queue ∧ job.state.kind = kind

/-- What the two views of the dashboard are to say of one storage. -/
structure StatisticsAgree (s : MemoryStorage) (jobs : JobStatistics)
    (queues : List QueueStatistics) : Prop where
  enqueued : (queues.map QueueStatistics.enqueuedCount).sum = jobs.enqueued
  processing : (queues.map QueueStatistics.processingCount).sum = jobs.processing
  scheduled : (queues.map QueueStatistics.scheduledCount).sum = jobs.scheduled
  perQueue : ∀ q ∈ queues, q.enqueuedCount = s.countIn q.queueName .enqueued ∧
    q.processingCount = s.countIn q.queueName .processing ∧
    q.scheduledCount = s.countIn q.queueName .scheduled
  total : jobs.totalJobs = jobs.enqueued + jobs.processing + jobs.succeeded + jobs.failed +
    jobs.scheduled + jobs.awaitingRetry + jobs.deleted

/-- The states that the statistics of a queue count. -/
def JobStateKind.queued : JobStateKind → Bool
  | .enqueued | .processing | .scheduled => true
  | _ => false

namespace JobStatistics

/-- The field of a state. -/
def of (stats : JobStatistics) : JobStateKind → Nat
  | .enqueued => stats.enqueued
  | .processing => stats.processing
  | .succeeded => stats.succeeded
  | .failed => stats.failed
  | .scheduled => stats.scheduled
  | .awaitingRetry => stats.awaitingRetry
  | .deleted => stats.deleted

theorem of_add (stats : JobStatistics) (kind kind' : JobStateKind) (n : Nat) :
    (stats.add kind n).of kind' = stats.of kind' + if kind = kind' then n else 0 := by
  cases kind <;> cases kind' <;> rfl

@[simp] theorem totalJobs_add (stats : JobStatistics) (kind : JobStateKind) (n : Nat) :
    (stats.add kind n).totalJobs = stats.totalJobs + n := rfl

/-- The sum of the seven totals. -/
def sum (stats : JobStatistics) : Nat :=
  stats.enqueued + stats.processing + stats.succeeded + stats.failed + stats.scheduled +
    stats.awaitingRetry + stats.deleted

theorem sum_add (stats : JobStatistics) (kind : JobStateKind) (n : Nat) :
    (stats.add kind n).sum = stats.sum + n := by
  cases kind <;> simp only [sum, add, count] <;> omega

variable {stats : JobStatistics}

theorem of_foldl (counts : List (JobStateKind × Nat)) (kind : JobStateKind) :
    (counts.foldl (fun stats e => stats.add e.1 e.2) stats).of kind =
      stats.of kind + (counts.map fun e => if e.1 = kind then e.2 else 0).sum := by
  induction counts generalizing stats with
  | nil => rfl
  | cons e counts ih =>
    rw [List.foldl_cons, ih, of_add, List.map_cons, List.sum_cons]
    omega

/-- Every count goes into one field and into the total. -/
theorem total_foldl (counts : List (JobStateKind × Nat)) (h : stats.totalJobs = stats.sum) :
    (counts.foldl (fun stats e => stats.add e.1 e.2) stats).totalJobs =
      (counts.foldl (fun stats e => stats.add e.1 e.2) stats).sum := by
  induction counts generalizing stats with
  | nil => exact h
  | cons e counts ih =>
    apply ih
    rw [totalJobs_add, sum_add, h]

end JobStatistics

namespace QueueStatistics

/-- The field of a state that has one. -/
def of (stats : QueueStatistics) : JobStateKind → Nat
  | .enqueued => stats.enqueuedCount
  | .processing => stats.processingCount
  | .scheduled => stats.scheduledCount
  | _ => 0

variable {stats : QueueStatistics} {job : Job} {kind : JobStateKind}

@[simp] theorem of_zero (queueName : String) : (zero queueName).of kind = 0 := by
  cases kind <;> rfl

theorem of_count (hqueued : kind.queued = true) :
    (stats.count job).of kind = stats.of kind + if job.state.kind = kind then 1 else 0 := by
  unfold count
  cases job.state <;> cases kind <;> first | rfl | cases hqueued

@[simp] theorem queueName_count : (stats.count job).queueName = stats.queueName := by
  unfold count
  cases job.state <;> rfl

theorem queueName_foldl (jobs : List Job) :
    (jobs.foldl count stats).queueName = stats.queueName := by
  induction jobs generalizing stats with
  | nil => rfl
  | cons job jobs ih => rw [List.foldl_cons, ih, queueName_count]

theorem of_foldl (hqueued : kind.queued = true) (jobs : List Job) :
    (jobs.foldl count stats).of kind =
      stats.of kind + jobs.countP fun job => job.state.kind = kind := by
  induction jobs generalizing stats with
  | nil => rfl
  | cons job jobs ih =>
    rw [List.foldl_cons, ih, of_count hqueued]
    simp only [List.countP_cons, decide_eq_true_eq]
    omega

end QueueStatistics

namespace DashboardService
open QueueStatistics (zero count of_zero of_count of_foldl queueName_foldl)

/-- The totals are those of all stored jobs. -/
theorem getJobStatistics_exact (s : MemoryStorage) (checks : Bool) :
    ∃ stats, getJobStatistics (s.monitoring checks) = some (.ok stats) ∧
      stats.totalJobs = stats.sum ∧
      ∀ kind, stats.of kind = s.jobs.values.countP fun job => job.state.kind = kind := by
  refine ⟨_, rfl, JobStatistics.total_foldl _ rfl, fun kind => ?_⟩
  have hsum : (s.getJobCounts.entries.map fun e => if e.1 = kind then e.2 else 0).sum =
      s.jobs.values.countP fun job => job.state.kind = kind := by
    apply Dict.sum_group (g := fun kind' n => if kind' = kind then n else 0)
    · intro kind'
      exact ite_self 0
    · intro n job
      by_cases hkind : job.state.kind = kind <;> simp [hkind]
  rw [JobStatistics.of_foldl, hsum]
  cases kind <;> exact Nat.zero_add _

/-- The numbers of the queues are those of the 200 newest jobs. -/
theorem getQueueStatistics_window (s : MemoryStorage) (checks : Bool) :
    ∃ queues, getQueueStatistics (s.monitoring checks) = some (.ok queues) ∧
      ∀ kind, kind.queued = true →
        (queues.map (QueueStatistics.of · kind)).sum =
          ((s.newest none).take 200).countP (fun job => job.state.kind = kind) ∧
        ∀ q ∈ queues, q.of kind = ((s.newest none).take 200).countP fun job =>
          job.queue = q.queueName ∧ job.state.kind = kind := by
  refine ⟨(Dict.group Job.queue zero QueueStatistics.count ((s.newest none).take 200)).values,
    ?_, fun kind hqueued => ⟨?_, fun q hq => ?_⟩⟩
  · rw [getQueueStatistics, listed_memory]
    rfl
  · rw [Dict.values, List.map_map]
    refine Dict.sum_group (g := fun _ (q : QueueStatistics) => q.of kind)
      (fun name => of_zero name) (fun q job => ?_) ((s.newest none).take 200)
    simp only [of_count hqueued, decide_eq_true_eq]
  · obtain ⟨queue, hget⟩ := Dict.mem_values.mp hq
    have hfold : q = (((s.newest none).take 200).filter fun job => job.queue = queue).foldl
        count (zero queue) := by
      rw [← Dict.getD_group, hget, Option.getD_some]
    have hname : q.queueName = queue := by rw [hfold, queueName_foldl, zero]
    rw [hname, hfold, of_foldl hqueued, of_zero, Nat.zero_add, List.countP_filter]
    apply List.countP_congr
    intro job _
    simp only [Bool.and_eq_true, decide_eq_true_eq]
    exact and_comm

/-- What the window of 200 jobs counts, and what it leaves out. -/
theorem countP_newest (s : MemoryStorage) (p : Job → Bool) : s.jobs.values.countP p =
    ((s.newest none).take 200).countP p + ((s.newest none).drop 200).countP p := by
  have hperm : (s.newest none).countP p = s.jobs.values.countP p :=
    (List.perm_insertionSort _ s.jobs.values).countP_eq p
  rw [← hperm, ← List.countP_append, List.take_append_drop]

/-- No job of these states is missing from the window. -/
theorem all_queued_iff (jobs : List Job) : (∀ job ∈ jobs, job.state.kind.queued = false) ↔
    ∀ kind, kind.queued = true → jobs.countP (fun job => job.state.kind = kind) = 0 := by
  simp only [List.countP_eq_zero, decide_eq_true_eq]
  constructor
  · rintro hnone kind hqueued job hjob rfl
    exact Bool.false_ne_true ((hnone job hjob).symm.trans hqueued)
  · intro hnone job hjob
    by_contra hqueued
    exact hnone job.state.kind (Bool.of_not_eq_false hqueued) job hjob rfl

/-- The two views agree exactly if the queue statistics, which look at the 200 newest jobs, miss
no job that is enqueued, in processing or scheduled. -/
theorem statistics_agree_iff (s : MemoryStorage) (checks : Bool) : ∃ jobs queues,
    getJobStatistics (s.monitoring checks) = some (.ok jobs) ∧
      getQueueStatistics (s.monitoring checks) = some (.ok queues) ∧
      (StatisticsAgree s jobs queues ↔
        ∀ job ∈ (s.newest none).drop 200, job.state.kind.queued = false) := by
  obtain ⟨jobs, hjobs, htotal, hall⟩ := getJobStatistics_exact s checks
  obtain ⟨queues, hqueues, hwindow⟩ := getQueueStatistics_window s checks
  refine ⟨jobs, queues, hjobs, hqueues, ?_⟩
  rw [all_queued_iff]
  have hmissed : ∀ kind, kind.queued = true → ((queues.map (QueueStatistics.of · kind)).sum =
      jobs.of kind ↔ ((s.newest none).drop 200).countP (fun job => job.state.kind = kind) = 0) := by
    intro kind hqueued
    rw [(hwindow kind hqueued).1, hall, countP_newest]
    omega
  constructor
  · intro h kind hqueued
    rw [← hmissed kind hqueued]
    cases kind with
    | enqueued => exact h.enqueued
    | processing => exact h.processing
    | scheduled => exact h.scheduled
    | succeeded | failed | deleted | awaitingRetry => cases hqueued
  · intro hnone
    have hqueue : ∀ kind, kind.queued = true → ∀ q ∈ queues,
        q.of kind = s.countIn q.queueName kind := by
      intro kind hqueued q hq
      have hsub : ((s.newest none).drop 200).countP (fun job =>
          job.queue = q.queueName ∧ job.state.kind = kind) = 0 := by
        have hkind := hnone kind hqueued
        rw [List.countP_eq_zero] at hkind ⊢
        intro job hjob hboth
        exact hkind job hjob (decide_eq_true (of_decide_eq_true hboth).2)
      rw [(hwindow kind hqueued).2 q hq, MemoryStorage.countIn, countP_newest, hsub, Nat.add_zero]
    exact {
      enqueued := (hmissed .enqueued rfl).mpr (hnone .enqueued rfl)
      processing := (hmissed .processing rfl).mpr (hnone .processing rfl)
      scheduled := (hmissed .scheduled rfl).mpr (hnone .scheduled rfl)
      perQueue := fun q hq => ⟨hqueue .enqueued rfl q hq, hqueue .processing rfl q hq,
        hqueue .scheduled rfl q hq⟩
      total := htotal }

/-- One of any number of different jobs. -/
def enqueuedJob (i : Nat) : Job :=
  Job.new (String.ofList (List.replicate (i + 1) 'j')) 0 "send" .null

theorem enqueuedJob_inj {i j : Nat} (h : (enqueuedJob i).id = (enqueuedJob j).id) : i = j := by
  have hlength := congrArg List.length (String.ofList_injective h)
  rwa [List.length_replicate, List.length_replicate, Nat.succ_inj] at hlength

/-- A storage of `n` enqueued jobs. -/
def busy (n : Nat) : MemoryStorage where
  jobs := {
    dict := {
      entries := (List.range n).map fun i => ((enqueuedJob i).id, enqueuedJob i)
      nodup := by
        rw [List.map_map]
        exact (List.nodup_map_iff_inj_on List.nodup_range).mpr fun _ _ _ _ h => enqueuedJob_inj h }
    keyed := by
      intro id job h
      obtain ⟨i, -, he⟩ := List.mem_map.mp (Dict.get?_iff.mp h)
      cases he
      rfl }
  locks := .empty
  namedLocks := .empty
  servers := .empty
  maxJobs := none

theorem busy_enqueued (n : Nat) :
    (busy n).jobs.values.countP (fun job => job.state.kind = .enqueued) = n := by
  have hvalues : (busy n).jobs.values = (List.range n).map enqueuedJob := List.map_map
  have hall : ∀ job ∈ (List.range n).map enqueuedJob,
      decide (job.state.kind = .enqueued) = true := by
    intro job hjob
    obtain ⟨i, -, rfl⟩ := List.mem_map.mp hjob
    rfl
  rw [hvalues, List.countP_eq_length.mpr hall, List.length_map, List.length_range]

theorem oldest_job_not_counted : ∃ jobs queues,
    getJobStatistics ((busy 201).monitoring true) = some (.ok jobs) ∧
      getQueueStatistics ((busy 201).monitoring true) = some (.ok queues) ∧
      jobs.enqueued = 201 ∧ (queues.map QueueStatistics.enqueuedCount).sum ≤ 200 ∧
      ¬ StatisticsAgree (busy 201) jobs queues := by
  obtain ⟨jobs, hjobs, -, hall⟩ := getJobStatistics_exact (busy 201) true
  obtain ⟨queues, hqueues, hwindow⟩ := getQueueStatistics_window (busy 201) true
  have hstored : jobs.enqueued = 201 := (hall .enqueued).trans (busy_enqueued 201)
  have hshown : (queues.map QueueStatistics.enqueuedCount).sum ≤ 200 := by
    refine (hwindow .enqueued rfl).1.trans_le (List.countP_le_length.trans ?_)
    rw [List.length_take]
    exact Nat.min_le_left _ _
  refine ⟨jobs, queues, hjobs, hqueues, hstored, hshown, fun h => ?_⟩
  have hsame := h.enqueued
  omega

end DashboardService
end Qml
