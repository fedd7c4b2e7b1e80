import Qml.Lib.Lease
import Qml.Memory.Callers

namespace Qml
open Lib MemoryStorage

namespace MemoryStorage

/-- What takes a lock entry away, with the reply of the section. -/
inductive Drops (env : Reading) (s : MemoryStorage) (id : String) (lock : JobLock) :
    {ρ : Type} → Section ρ → ρ → Prop
  | released : Drops env s id lock (.releaseJobLock id lock.workerId) (.ok true)
  | expired (h : lock.expiresAt ≤ env.now) : Drops env s id lock .cleanupExpiredLocks ()
  | requeued (t : DateTime) (n : Nat) (old : Job) (hold : s.jobs.get? id = some old)
      (hlost : stale t old.state = true) : Drops env s id lock (.requeueStrandedJobs t) (.ok n)
  | reclaimed (serverId : String) (n : Nat) (old : Job) (hold : s.jobs.get? id = some old)
      (hlost : ownedBy serverId old.state = true) :
      Drops env s id lock (.reclaimJobsFromServer serverId) (.ok n)

variable {s s' : MemoryStorage} {env : Reading} {ρ : Type} {op : Section ρ} {reply : ρ}
  {id : String} {lock : JobLock}

theorem recover_lock {lost : JobState → Bool} {stamp : String → DateTime}
    (hlock : s.locks.get? id = some lock) : (s.recover lost stamp).2.locks.get? id = some lock ∨
      ∃ old, s.jobs.get? id = some old ∧ lost old.state = true := by
  rw [locks_recover]
  split
  · exact .inr ‹_›
  · exact .inl hlock

/-- A lock entry stays as it is until one of these takes it away. -/
theorem lock_perform (h : op.perform env s = some (reply, s'))
    (hlock : s.locks.get? id = some lock) :
    s'.locks.get? id = some lock ∨ Drops env s id lock op reply := by
  cases op
  case update job =>
    simp only [Section.perform, update] at h
    split at h <;> cases h <;> exact .inl hlock
  case updateIfState job expected =>
    simp only [Section.perform, updateIfState] at h
    split at h
    · cases h
      exact .inl hlock
    · split at h <;> cases h <;> exact .inl hlock
  case requeueStrandedJobs t =>
    cases h
    rcases recover_lock hlock with hkept | ⟨old, hold, hlost⟩
    · exact .inl hkept
    · exact .inr (.requeued t _ old hold hlost)
  case reclaimJobsFromServer serverId =>
    cases h
    rcases recover_lock hlock with hkept | ⟨old, hold, hlost⟩
    · exact .inl hkept
    · exact .inr (.reclaimed serverId _ old hold hlost)
  case cleanupExpiredLocks =>
    cases h
    by_cases hexp : lock.expiresAt ≤ env.now
    · exact .inr (.expired hexp)
    · refine .inl ?_
      simp only [cleanupExpiredLocks, Dict.get?_filter, hlock, Option.filter_some]
      simpa using hexp
  case lockAvailableJob workerId queues =>
    generalize hl : (s.reorder env.order).lockAvailableJob workerId queues env.fetch = res at *
    simp only [Section.perform, hl] at h
    obtain ⟨_ | job, after⟩ := res <;> cases h
    · obtain ⟨rfl, -⟩ := lockAvailableJob_none hl
      simp [hlock]
    · obtain ⟨old, -, -, -, hfree, -, rfl⟩ := lockAvailableJob_some hl
      rw [reorder_locks_contains, Dict.contains_eq_false] at hfree
      have hne : id ≠ old.id := by
        rintro rfl
        cases hlock.symm.trans hfree
      simp [hne, hlock]
  case acquireJobLock jobId workerId timeout =>
    simp only [Section.perform, acquireJobLock] at h
    split at h
    · cases h
      exact .inl hlock
    · rename_i hfree
      rw [Bool.not_eq_true, Dict.contains_eq_false] at hfree
      have hne : id ≠ jobId := by
        rintro rfl
        cases hlock.symm.trans hfree
      split at h <;> cases h
      simp [hne, hlock]
  case releaseJobLock jobId workerId =>
    simp only [Section.perform, releaseJobLock] at h
    split at h
    · rename_i held hheld
      split at h <;> cases h
      · rename_i howner
        by_cases hid : id = jobId
        · subst hid
          cases hlock.symm.trans hheld
          subst howner
          exact .inr .released
        · simp [hid, hlock]
      · exact .inl hlock
    · cases h
      exact .inl hlock
  case heartbeatServer serverId clock =>
    simp only [Section.perform, heartbeatServer] at h
    split at h <;> cases h <;> exact .inl hlock
  case claimDueScheduledJobs | claimDueRetryJobs =>
    cases h
    exact .inl ((reorder_locks _ _).trans hlock)
  all_goals
    cases h
    exact .inl hlock

/-- A claim finds no lock entry for the job it returns. -/
theorem lockAvailableJob_unlocked {workerId : String} {queues : Option (List String)} {job : Job}
    (h : (Section.lockAvailableJob workerId queues).perform env s = some (.ok (some job), s')) :
    s.locks.get? job.id = none := by
  generalize hl : (s.reorder env.order).lockAvailableJob workerId queues env.fetch = res at *
  simp only [Section.perform, hl] at h
  obtain ⟨_ | claimed, after⟩ := res <;> cases h
  obtain ⟨old, -, -, -, hfree, rfl, -⟩ := lockAvailableJob_some hl
  rwa [reorder_locks_contains, Dict.contains_eq_false] at hfree

/-- A lock that is acquired was free, and expires after the timeout, read as a signed
number. -/
theorem acquireJobLock_locked {workerId : String} {timeout : UInt64}
    (h : (Section.acquireJobLock id workerId timeout).perform env s = some (.ok true, s')) :
    s.locks.contains id = false ∧
      (Duration.inRange (Duration.seconds timeout.toInt64.toInt) &&
        DateTime.inRange (env.now + Duration.seconds timeout.toInt64.toInt)) = true ∧
      s'.locks.get? id =
        some ⟨workerId, env.now + Duration.seconds timeout.toInt64.toInt⟩ := by
  simp only [Section.perform, acquireJobLock] at h
  split at h
  · cases h
  · rename_i hfree
    split at h <;> cases h
    rename_i hrange
    exact ⟨by simpa using hfree, hrange, by simp⟩

end MemoryStorage

theorem toInt64_of_small {t : UInt64} (h : t.toNat < 2 ^ 63) : t.toInt64.toInt = t.toNat := by
  have hvalue : t.toInt64.toInt = (t.toNat : Int).bmod (2 ^ 64) := BitVec.toInt_eq_toNat_bmod _
  rw [hvalue, Int.bmod_def]
  split <;> omega

namespace Callers
variable {s t : Callers} {e : Event} {x : Step Callers Event} {tr : List (Step Callers Event)}

/-- The step is this section, with this reply. -/
def Enters (x : Step Callers Event) {ρ : Type} (op : Section ρ) (env : Env) (reply : ρ) : Prop :=
  ∃ i τ, ∃ (method : Method τ) (k : ρ → Prog Call (Except StorageError τ)),
    x.label = .step i env ∧ x.before.callers[i]? = some ⟨method, some (.call (.storage op) k)⟩ ∧
      op.perform env.toReading x.before.storage = some (reply, x.after.storage)

/-- The last section of `try_acquire_job_lock` grants a lease for the seconds asked for.
A release by the holder ends it, as does a section that finds the time passed, or a
recovery sweep that puts the job back. `fetch_and_lock_job` serves. -/
def leases : Leases Callers Event String String DateTime where
  grants x id workerId expiry := ∃ timeout env,
    Enters x (.acquireJobLock id workerId timeout) env (.ok true) ∧
      expiry = env.now + Duration.seconds timeout.toNat
  ends x id workerId expiry :=
    (∃ env, Enters x (.releaseJobLock id workerId) env (.ok true)) ∨
    (∃ env, Enters x .cleanupExpiredLocks env () ∧ expiry ≤ env.now) ∨
    (∃ t env n old, Enters x (.requeueStrandedJobs t) env (.ok n) ∧
      x.before.storage.jobs.get? id = some old ∧ stale t old.state = true) ∨
    ∃ serverId env n old, Enters x (.reclaimJobsFromServer serverId) env (.ok n) ∧
      x.before.storage.jobs.get? id = some old ∧ ownedBy serverId old.state = true
  serves x id workerId := ∃ queues env job,
    Enters x (.lockAvailableJob workerId queues) env (.ok (some job)) ∧ job.id = id

/-- A call that is to acquire a free lock does not ask for so long that its time, cast to a
signed number, ends in the past at a date that can be represented. -/
def fits (s : Callers) : Event → Bool
  | .step i env =>
    match s.callers[i]? with
    | some ⟨_, some (.call (.storage (.acquireJobLock jobId _ timeout)) _)⟩ =>
      s.storage.locks.contains jobId || decide (timeout.toNat < 2 ^ 63) ||
        !(Duration.inRange (Duration.seconds timeout.toInt64.toInt) &&
          DateTime.inRange (env.now + Duration.seconds timeout.toInt64.toInt))
    | _ => true
  | _ => true

/-- Whether a step calls only a method of the given kind. -/
def Event.calls (kind : {ρ : Type} → Method ρ → Bool) : Event → Bool
  | .call method => kind method
  | _ => true

/-- Where only methods of one kind are called, no other is under way. -/
theorem methods_run {storage : MemoryStorage} {kind : {ρ : Type} → Method ρ → Bool}
    (hr : Run Next (idle storage) tr t) (hkind : ∀ x ∈ tr, x.label.calls kind = true) :
    ∀ c ∈ t.callers, kind c.method = true := by
  refine hr.stable (fun s => ∀ c ∈ s.callers, kind c.method = true)
    (fun c hc => absurd hc List.not_mem_nil) fun x hx hbefore c hc => ?_
  obtain ⟨before, label, after⟩ := x
  obtain ⟨-, -, -, hnext⟩ := hr.of_mem hx
  change Next before label after at hnext
  cases next_moves hnext with
  | called method =>
    rcases List.mem_append.mp hc with hc | hc
    · exact hbefore c hc
    · obtain rfl := List.mem_singleton.mp hc
      exact hkind _ hx
  | unwound hi | stepped hi =>
    rcases List.mem_or_eq_of_mem_set hc with hc | rfl
    · exact hbefore c hc
    · have hold := hbefore _ (List.mem_of_getElem? hi)
      exact hold
  | cleared => exact hbefore c hc

/-- A step that is no section leaves the lock entries alone. -/
theorem enters_or_locks (h : Next s e t) :
    (∃ ρ, ∃ (op : Section ρ) (env : Env) (reply : ρ), Enters ⟨s, e, t⟩ op env reply) ∨
      t.storage.locks = s.storage.locks := by
  cases next_moves h with
  | called | cleared | unwound => exact .inr rfl
  | @stepped i env ρ τ method op k reply storage hi hop =>
    cases op with
    | storage op => exact .inl ⟨τ, op, env, reply, i, ρ, method, k, rfl, hi, hop⟩
    | now | random | execute | await | hook =>
      cases hop
      exact .inr rfl
    | panic => cases hop

/-- Locks are honoured in every run in which each that is granted is granted for the time
asked for. -/
theorem leases_honoured {storage : MemoryStorage} (hr : Run Next (idle storage) tr t)
    (hfit : ∀ x ∈ tr, x.before.fits x.label = true) : leases.Honoured tr := by
  apply Leases.honoured_of_guard
    (fun s id workerId expiry => s.storage.locks.get? id = some ⟨workerId, expiry⟩) hr
  · rintro x hx id workerId expiry ⟨timeout, env, henters, rfl⟩
    obtain ⟨i, τ, method, k, hlabel, hi, hop⟩ := henters
    obtain ⟨hfree, hrange, hlock⟩ := acquireJobLock_locked hop
    have hsmall := hfit x hx
    rw [hlabel] at hsmall
    simp only [fits, hi, hfree, hrange, Bool.not_true, Bool.or_false, Bool.false_or,
      decide_eq_true_eq] at hsmall
    rw [hlock, toInt64_of_small hsmall]
  · intro x hx id workerId expiry hlock
    obtain ⟨-, -, -, hnext⟩ := hr.of_mem hx
    rcases enters_or_locks hnext with ⟨ρ, op, env, reply, henters⟩ | hsame
    · have hperform := henters
      obtain ⟨_, _, _, _, -, -, hop⟩ := hperform
      rcases lock_perform hop hlock with hkept | hdrop
      · exact .inl hkept
      · refine .inr ?_
        cases hdrop with
        | released => exact .inl ⟨env, henters⟩
        | expired hexp => exact .inr (.inl ⟨env, henters, hexp⟩)
        | requeued t n old hold hlost =>
          exact .inr (.inr (.inl ⟨t, env, n, old, henters, hold, hlost⟩))
        | reclaimed serverId n old hold hlost =>
          exact .inr (.inr (.inr ⟨serverId, env, n, old, henters, hold, hlost⟩))
    · exact .inl (hsame ▸ hlock)
  · rintro x hx id workerId expiry workerId' hlock ⟨queues, env, job, henters, rfl⟩
    obtain ⟨_, _, _, _, -, -, hop⟩ := henters
    cases hlock.symm.trans (lockAvailableJob_unlocked hop)

end Callers
end Qml
