import Qml.Memory.Locking
import Qml.Runtime.Holders

namespace Qml
open Lib

namespace Runtime
variable {s t : Runtime} {a : Action} {tr : List (Step Runtime Action)}
  {x : Step Runtime Action} {storage : MemoryStorage} {i : Nat} {job : Job}

/-- What a fetch over all queues hands out when nothing interrupts it. -/
def fetched (storage : MemoryStorage) (workerId : String) (envs : Nat → Env) : Option Job :=
  match (MemoryStorage.fetchAndLockJob workerId none).alone
    (fun env s {_} op => Call.perform env s op) envs storage with
  | some (.ok claimed, _) => claimed
  | _ => none

/-- No lock entry has outlived its claim, and whenever a job is `Enqueued` every
worker can fetch one, whatever the clock and the iteration order. -/
def LocksReleased (s : Runtime) : Prop :=
  s.storage.LocksCurrent ∧
    ∀ id job, s.storage.jobs.get? id = some job → job.state.kind = .enqueued →
      ∀ workerId envs, (fetched s.storage workerId envs).isSome = true

/-- Whether an outcome is stored in this step while the lock entry of the claim
is still there. -/
def concludesLocked (s : Runtime) : Action → Bool
  | .step i _ =>
    match s.pending i with
    | some ⟨_, .storage (.update job)⟩ =>
      (s.storage.jobs.get? job.id).isSome && s.storage.locks.contains job.id
    | _ => false
  | _ => false

/-- With current lock entries nothing keeps an enqueued job from being fetched. -/
theorem fetched_of_current {id : String} (h : storage.LocksCurrent)
    (hjob : storage.jobs.get? id = some job) (hk : job.state.kind = .enqueued)
    (workerId : String) (envs : Nat → Env) : (fetched storage workerId envs).isSome = true := by
  have hclean := (h.cleanupExpiredLocks (envs 0).now).reorder (envs 1).order
  have hstill : ((storage.cleanupExpiredLocks (envs 0).now).reorder (envs 1).order).jobs.get? id =
      some job := by
    simpa [MemoryStorage.cleanupExpiredLocks] using hjob
  obtain ⟨claimed, after, hfetch⟩ := hclean.fetches hstill hk workerId (envs 1).fetch
  simp [fetched, MemoryStorage.fetchAndLockJob, Call.enter, Prog.ask, Prog.alone, Call.perform,
    Section.perform, hfetch]

theorem released_of_current (h : s.storage.LocksCurrent) : s.LocksReleased :=
  ⟨h, fun _ _ hjob hk => fetched_of_current h hjob hk⟩

theorem of_some {p : ρ × σ} {r : ρ} {after : σ} (h : some p = some (r, after)) : after = p.2 := by
  cases h
  rfl

/-- Every step but an early outcome write keeps the lock entries current. -/
theorem locksCurrent_step (hcaller : ∀ {i : Nat} {ρ : Type} {op : Call ρ}, s.Calls i op →
      ∃ task : Task, s.tasks[i]? = some task ∧ recovering task.routine = true ∧
        task.routine.Allowed task.phase op)
    (hs : s.storage.LocksCurrent) (h : Next s a t) (hfresh : s.insertsStored a = false)
    (hlocked : s.concludesLocked a = false) : t.storage.LocksCurrent := by
  rcases storage_cases h with hsame | ⟨i, env, ρ, op, reply, rfl, hcall, hop⟩
  · rwa [hsame]
  · obtain ⟨task, -, hk, hallowed⟩ := hcaller hcall
    generalize t.storage = after at hop
    cases op
    case update job =>
      simp only [concludesLocked, hcall.pending, Bool.and_eq_false_imp] at hlocked
      obtain rfl := of_some hop
      exact hs.update hlocked
    case updateIfState job expected =>
      obtain ⟨-, rfl, -⟩ := hallowed
      obtain rfl := of_some hop
      exact hs.updateIfState (by simp)
    case insertJob job =>
      simp only [insertsStored, hcall.inserts, Option.any_some, Option.isSome_eq_false_iff,
        Option.isNone_iff_eq_none] at hfresh
      obtain rfl := of_some hop
      exact hs.insertJob hfresh
    case claimDueScheduledJobs =>
      obtain rfl := of_some hop
      exact (hs.reorder _).claimDue fun job hdue => by
        simp [MemoryStorage.dueScheduled_kind hdue]
    case claimDueRetryJobs =>
      obtain rfl := of_some hop
      exact (hs.reorder _).claimDue fun job hdue => by simp [MemoryStorage.dueRetry_kind hdue]
    case requeueStrandedJobs | reclaimJobsFromServer =>
      obtain rfl := of_some hop
      exact hs.recover
    case cleanupExpiredLocks =>
      obtain rfl := of_some hop
      exact hs.cleanupExpiredLocks _
    case lockAvailableJob =>
      obtain rfl := of_some hop
      exact (hs.reorder _).lockAvailableJob
    case delete =>
      have hr : task.routine = .deleteJob _ := hallowed
      rw [hr] at hk
      cases hk
    case deleteExpiredJobs | cleanupExpiredNamedLocks =>
      obtain ⟨_, hr⟩ := hallowed
      rw [hr] at hk
      cases hk
    case acquireJobLock | releaseJobLock => exact hallowed.elim
    case heartbeatServer serverId now =>
      obtain rfl := of_some hop
      simp only [MemoryStorage.heartbeatServer, Prod.map]
      split <;> exact hs
    all_goals
      obtain rfl := of_some hop
      exact hs

section Runs
variable (hr : Run Next (idle storage) tr s) (h₀ : storage.LocksCurrent)
  (hkind : ∀ x ∈ tr, x.label.spawns recovering = true)
  (hfresh : ∀ x ∈ tr, x.before.insertsStored x.label = false)
include hr h₀ hkind hfresh

theorem locksCurrent_run (hlocked : ∀ x ∈ tr, x.before.concludesLocked x.label = false) :
    s.storage.LocksCurrent := by
  induction hr with
  | nil => exact h₀
  | @snoc tr t u a run h ih =>
    have hmem : ∀ x ∈ tr, x ∈ tr ++ [⟨t, a, u⟩] := fun x hx => List.mem_append_left _ hx
    have hlast : ⟨t, a, u⟩ ∈ tr ++ [⟨t, a, u⟩] := by simp
    exact locksCurrent_step (caller run fun x hx => hkind x (hmem x hx))
      (ih (fun x hx => hkind x (hmem x hx)) (fun x hx => hfresh x (hmem x hx))
        fun x hx => hlocked x (hmem x hx)) h (hfresh _ hlast) (hlocked _ hlast)

omit h₀ hkind hfresh in
/-- An outcome stored under a lock entry leaves the entry behind. -/
theorem not_current_of_concludesLocked (hx : x ∈ tr)
    (h : x.before.concludesLocked x.label = true) : ¬ x.after.storage.LocksCurrent := by
  intro hcurrent
  obtain ⟨pre, -, hpre, hnext⟩ := hr.of_mem hx
  unfold concludesLocked at h
  split at h
  · rename_i i env hlabel
    split at h
    · rename_i job hp
      have hcall := Calls.of_pending hp
      obtain ⟨task, -, -, p, _, _, c, -, hout, -⟩ :=
        hcall.allowed (lawful_run (lawful_idle storage) hpre)
      simp only [Bool.and_eq_true, Option.isSome_iff_exists, Dict.contains_iff] at h
      obtain ⟨⟨old, hold⟩, lock, hlock⟩ := h
      rw [hlabel] at hnext
      rcases hcall.performed hnext with ⟨reply, hop⟩ | ⟨hop, -⟩
      · have hafter := of_some hop
        simp only [MemoryStorage.update, hold] at hafter
        have hleft : x.after.storage.locks.get? job.id = some lock := by simp [hafter, hlock]
        have hstored : x.after.storage.jobs.get? job.id = some job := by simp [hafter]
        have hk := hcurrent.kind hleft hstored
        rcases hout.kind with hk' | hk' | hk' <;> simp [hk'] at hk
      · cases hop
    · cases h
  · cases h

/-- Lock entries go with their claims, and enqueued jobs can be fetched, exactly
in the runs where no outcome is stored while its claim's lock entry is there. -/
theorem locks_released_iff :
    (∀ x ∈ tr, x.after.LocksReleased) ↔ ∀ x ∈ tr, x.before.concludesLocked x.label = false := by
  constructor
  · intro h x hx
    by_contra hlocked
    exact not_current_of_concludesLocked hr hx (by simpa using hlocked) (h x hx).1
  · intro hlocked x hx
    obtain ⟨pre, post, rfl⟩ := List.append_of_mem hx
    have hmem : ∀ y ∈ pre ++ [x], y ∈ pre ++ x :: post := by
      intro y hy
      rw [List.append_cons]
      exact List.mem_append_left _ hy
    obtain ⟨hpre, hnext, -⟩ := hr.around
    exact released_of_current (locksCurrent_run (hpre.snoc hnext) h₀
      (fun y hy => hkind y (hmem y hy)) (fun y hy => hfresh y (hmem y hy))
      fun y hy => hlocked y (hmem y hy))

end Runs

/-- A job asks for a retry, its retry comes due after ten minutes and is
promoted, and a worker looks for work. -/
def retryPromoted : List Action :=
  let server := BackgroundJobServer.new .default fun _ => true
  let late := Duration.minutes 10
  [Action.spawn (.enqueue (Job.new "a" 0 "send_email" .null))] ++ Action.calls 0 2 0 .elapsed ++
  [Action.spawn (server.worker "qml-server" 0 2)] ++
  Action.calls 1 11 0 (.finished (.ok (.retry "connection reset" none none .empty))) ++
  [Action.spawn (.scheduler 100 1)] ++ Action.calls 2 4 late .elapsed ++
  Action.calls 1 2 late .elapsed

/-- The promoted job cannot be fetched: the lock entry of the claim before the
retry is still there. -/
theorem promoted_retry_locked :
    ∃ tr s, Run Next (idle (.empty none)) tr s ∧
      (∀ x ∈ tr, x.label.spawns recovering = true) ∧
      (∀ x ∈ tr, x.before.insertsStored x.label = false) ∧
      ¬ ∀ x ∈ tr, x.after.LocksReleased := by
  obtain ⟨s, hr⟩ := replay_run step (idle (.empty none)) retryPromoted
  refine ⟨_, s, hr, by decide +kernel, by decide +kernel, fun h => ?_⟩
  have hstuck : ∃ x ∈ replay step (idle (.empty none)) retryPromoted,
      (x.after.storage.jobs.get? "a").any (fun job => decide (job.state.kind = .enqueued)) = true ∧
        (fetched x.after.storage "qml-server:worker:1"
          fun _ => .at (Duration.minutes 10) .elapsed).isSome = false := by
    decide +kernel
  obtain ⟨x, hx, hjob, hnone⟩ := hstuck
  simp only [Option.any_eq_true, decide_eq_true_eq] at hjob
  obtain ⟨job, hjob, hk⟩ := hjob
  rw [(h x hx).2 "a" job hjob hk] at hnone
  cases hnone

/-- The worker crashes after its claim, and a server start drops the lock entry
together with the claim. -/
def crashRequeued : List Action :=
  let server := BackgroundJobServer.new .default fun _ => true
  let late := Duration.minutes 10
  [Action.spawn (.enqueue (Job.new "a" 0 "send_email" .null))] ++ Action.calls 0 2 0 .elapsed ++
  [Action.spawn (server.worker "qml-server" 0 1)] ++ Action.calls 1 5 0 .elapsed ++
  [Action.abort 1] ++
  [Action.spawn (.start server "")] ++ Action.calls 2 2 late .elapsed

theorem locks_released_iff_crash_requeued :
    ∃ tr s, Run Next (idle (.empty none)) tr s ∧
      (∃ x ∈ tr, x.before.storage.locks.contains "a" = true ∧
        x.after.storage.locks.contains "a" = false) ∧
      ∀ x ∈ tr, x.after.LocksReleased := by
  obtain ⟨s, hr⟩ := replay_run step (idle (.empty none)) crashRequeued
  exact ⟨_, s, hr, by decide +kernel,
    (locks_released_iff hr (MemoryStorage.locksCurrent_empty none) (by decide +kernel)
      (by decide +kernel)).mpr (by decide +kernel)⟩

end Runtime
end Qml
