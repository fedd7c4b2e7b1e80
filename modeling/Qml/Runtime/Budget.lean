import Qml.Runtime.Reports

namespace Qml
open Lib

namespace Runtime
variable {storage : MemoryStorage} {s : Runtime} {id method : String} {N m : UInt32}
  {tr : List (Step Runtime Action)}

/-- Whether a step stores an outcome of the job. -/
def stores (id : String) (x : Step Runtime Action) : Bool :=
  concludes id true x.before x.label || concludes id false x.before x.label

/-- There are never more executions than outcomes and one in progress. -/
theorem Tally.executions (hl : s.Lawful) (he : Exclusive true s) (ht : Tally id method N m tr s) :
    (attempts tr id).length ≤ budget N m + 1 := by
  by_cases hquiet : ∀ i c, s.Running i c → c.id ≠ id
  · rw [(ht.settled hquiet).1]
    cases hstored : s.storage.jobs.get? id with
    | none =>
      obtain ⟨-, hc, -⟩ := ht.absent hstored
      omega
    | some job =>
      have := (ht.stored job hstored).cap
      omega
  · push Not at hquiet
    obtain ⟨i, c, hrun, hid⟩ := hquiet
    have hacc := ht.stored c (he.held_stored hrun.holder hid)
    have := hacc.room (JobState.isFinal_of_kind (by simp [hrun.holder.processing hl]))
    rw [(ht.running i c hrun hid).1]
    omega

/-- With the budget used up the stored job is in a final state. -/
theorem Accounted.settled {K : Nat} {job : Job} (h : Accounted N m method K job)
    (hK : K = budget N m + 1) : job.state.kind = .succeeded ∨ job.state.kind = .failed := by
  have hfinal : job.state.isFinal = true := by
    by_contra hf
    have := h.room (by simpa using hf)
    omega
  rcases JobState.isFinal_iff.mp hfinal with hk | hk | hk
  · exact .inl hk
  · exact .inr hk
  · exact absurd hk (h.kept (by omega))

section Runs
variable (hr : Run Next (idle storage) tr s) (hempty : storage.jobs.get? id = none)
  (hkind : ∀ x ∈ tr, x.label.spawns (counting N) = true)
  (hfresh : ∀ x ∈ tr, x.before.insertsStored x.label = false)
  (henq : ∀ x ∈ tr, enqueuesAs id m method x.before x.label = true)
  (hspares : ∀ x ∈ tr, x.before.recoversHeld true x.label = false)
  (hsat : ∀ x ∈ tr, saturates id x.before x.label = false ∨ budget N m + 1 < UInt32.size)
include hr hempty hkind hfresh henq hspares hsat

end Runs

/-- Where recoveries only take jobs that no task has begun to execute, attempts
survive every crash: each execution is told a later attempt than all before it,
and the job is executed at most once more than its budget. -/
theorem attempts_survive_crashes (method : String) (hr : Run Next (idle storage) tr s)
    (hempty : storage.jobs.get? id = none)
    (hkind : ∀ x ∈ tr, x.label.spawns (counting N) = true)
    (hfresh : ∀ x ∈ tr, x.before.insertsStored x.label = false)
    (henq : ∀ x ∈ tr, enqueuesAs id m method x.before x.label = true)
    (hspares : ∀ x ∈ tr, x.before.recoversHeld true x.label = false)
    (hsat : ∀ x ∈ tr, saturates id x.before x.label = false) :
    (attempts tr id).Pairwise (· < ·) ∧ (attempts tr id).length ≤ budget N m + 1 := by
  have ht := tally_run hr hempty hkind hfresh henq hspares fun x hx => .inl (hsat x hx)
  exact ⟨ht.sorted, ht.executions (lawful_run (lawful_idle storage) hr)
    (exclusive_counting hr hkind hfresh hspares)⟩

/-- A worker crashes in the middle of an execution under a policy of no retry,
a server starts, and the next worker claims the job. -/
def crashInExecution : List Action :=
  let server := { BackgroundJobServer.new .default fun _ => true with retryPolicy := .noRetry }
  let late := Duration.minutes 10
  [Action.spawn (.enqueue (Job.new "a" 0 "send_email" .null))] ++ Action.calls 0 2 0 .elapsed ++
  [Action.spawn (server.worker "qml-server" 0 1)] ++ Action.calls 1 5 0 .elapsed ++
  [Action.abort 1] ++
  [Action.spawn (.start server "")] ++ Action.calls 2 2 late .elapsed ++
  [Action.spawn (server.worker "qml-server" 1 1)] ++ Action.calls 3 5 late .elapsed

/-- The second execution is told the attempt of the first, and is one too many. -/
theorem attempt_lost_in_crash :
    ∃ tr s, Run Next (idle (.empty none)) tr s ∧
      (∀ x ∈ tr, x.label.spawns (counting 0) = true) ∧
      (∀ x ∈ tr, x.before.insertsStored x.label = false) ∧
      (∀ x ∈ tr, enqueuesAs "a" 0 "send_email" x.before x.label = true) ∧
      (∀ x ∈ tr, saturates "a" x.before x.label = false) ∧
      ¬ (attempts tr "a").Pairwise (· < ·) ∧ ¬ (attempts tr "a").length ≤ budget 0 0 + 1 := by
  obtain ⟨s, hr⟩ := replay_run step (idle (.empty none)) crashInExecution
  exact ⟨_, s, hr, by decide +kernel, by decide +kernel, by decide +kernel, by decide +kernel,
    by decide +kernel, by decide +kernel⟩

/-- The worker crashes between its claim and the execution instead, and the
job then uses its one retry. -/
def crashBeforeExecution : List Action :=
  let server := { BackgroundJobServer.new .default fun _ => true with
    retryPolicy := .new (.fixed 0 1) }
  let late := Duration.hours 1
  let failing : Execution := .finished (.ok (.retry "connection reset" none none .empty))
  [Action.spawn (.enqueue (Job.new "a" 0 "send_email" .null))] ++ Action.calls 0 2 0 .elapsed ++
  [Action.spawn (server.worker "qml-server" 0 1)] ++ Action.calls 1 3 0 .elapsed ++
  [Action.abort 1] ++
  [Action.spawn (.start server "")] ++ Action.calls 2 2 late .elapsed ++
  [Action.spawn (server.worker "qml-server" 1 2)] ++ Action.calls 3 10 late failing ++
  [Action.spawn (.scheduler 100 1)] ++ Action.calls 4 4 (2 * late) .elapsed ++
  Action.calls 3 10 (2 * late) failing

theorem attempts_survive_crash_before_execution :
    ∃ tr s, Run Next (idle (.empty none)) tr s ∧ attempts tr "a" = [1, 2] ∧
      (attempts tr "a").Pairwise (· < ·) ∧ (attempts tr "a").length ≤ budget 1 0 + 1 := by
  obtain ⟨s, hr⟩ := replay_run step (idle (.empty none)) crashBeforeExecution
  exact ⟨_, s, hr, by decide +kernel,
    attempts_survive_crashes (N := 1) (m := 0) "send_email" hr rfl (by decide +kernel)
      (by decide +kernel) (by decide +kernel) (by decide +kernel) (by decide +kernel)⟩

end Runtime
end Qml
