import Qml.Memory.Effects
import Qml.Memory.Methods

namespace Qml
open Lib

namespace MemoryStorage
variable {s s' : MemoryStorage} {job : Job}

/-- Every lock entry belongs to a claim that is still open: its job is
`Processing` by the worker named in the entry. -/
def LocksCurrent (s : MemoryStorage) : Prop :=
  ∀ id lock, s.locks.get? id = some lock → ∃ job startedAt serverName,
    s.jobs.get? id = some job ∧ job.state = .processing startedAt lock.workerId serverName

theorem locksCurrent_empty (maxJobs : Option Nat) : (empty maxJobs).LocksCurrent :=
  fun _ _ h => by cases h

namespace LocksCurrent

theorem kind (h : s.LocksCurrent) {id : String} {old : Job} {lock : JobLock}
    (hl : s.locks.get? id = some lock) (hold : s.jobs.get? id = some old) :
    old.state.kind = .processing := by
  obtain ⟨job, _, _, hjob, hstate⟩ := h id lock hl
  cases hold.symm.trans hjob
  rw [hstate]
  rfl

/-- A job may be stored over any identifier that has no lock entry. -/
theorem insert (h : s.LocksCurrent) (hfree : s.locks.get? job.id = none) :
    ({ s with jobs := s.jobs.insert job } : MemoryStorage).LocksCurrent := by
  intro id lock hl
  obtain ⟨old, t, n, hold, hstate⟩ := h id lock hl
  refine ⟨old, t, n, ?_, hstate⟩
  have hne : id ≠ job.id := by
    rintro rfl
    exact absurd (hl.symm.trans hfree) (by simp)
  simp [hne, hold]

theorem unlocked (h : s.LocksCurrent) {id : String} {old : Job}
    (hold : s.jobs.get? id = some old) (hk : old.state.kind ≠ .processing) :
    s.locks.get? id = none := by
  cases hl : s.locks.get? id with
  | none => rfl
  | some lock => exact absurd (h.kind hl hold) hk

theorem update (h : s.LocksCurrent)
    (hfree : (s.jobs.get? job.id).isSome = true → s.locks.contains job.id = false) :
    (s.update job).2.LocksCurrent := by
  unfold MemoryStorage.update
  split
  · rename_i old hold
    exact h.insert (Dict.contains_eq_false.mp (hfree (by simp [hold])))
  · exact h

theorem updateIfState {expected : JobStateKind} (h : s.LocksCurrent)
    (hk : expected ≠ .processing) : (s.updateIfState job expected).2.LocksCurrent := by
  unfold MemoryStorage.updateIfState
  split
  · exact h
  · rename_i old hold
    split
    · exact h
    · rename_i heq
      exact h.insert (h.unlocked hold (by simp only [ne_eq, Decidable.not_not] at heq; rwa [heq]))

theorem insertJob (h : s.LocksCurrent) (hfresh : s.jobs.get? job.id = none) :
    (s.insertJob job).LocksCurrent := by
  refine h.insert ?_
  cases hl : s.locks.get? job.id with
  | none => rfl
  | some lock =>
    obtain ⟨old, _, _, hold, -⟩ := h _ lock hl
    cases hold.symm.trans hfresh

/-- A promotion moves only jobs that are not being processed. -/
theorem claimDue {due : Job → Bool} {limit : Nat} {stamp : String → DateTime} (h : s.LocksCurrent)
    (hdue : ∀ job, due job = true → job.state.kind ≠ .processing) :
    (s.claimDue due limit stamp).2.LocksCurrent := by
  intro id lock hl
  obtain ⟨old, t, n, hold, hstate⟩ := h id lock hl
  refine ⟨old, t, n, ?_, hstate⟩
  have hout : id ∉ dueIds s.jobs due limit := by
    intro hmem
    obtain ⟨job, hjob, hd⟩ := mem_dueIds hmem
    cases hold.symm.trans hjob
    exact hdue old hd (h.kind hl hold)
  simp [MemoryStorage.claimDue, get?_promote, hold, hout]

/-- A recovery drops the lock entry of each job it takes out of `Processing`. -/
theorem recover {lost : JobState → Bool} {stamp : String → DateTime} (h : s.LocksCurrent) :
    (s.recover lost stamp).2.LocksCurrent := by
  intro id lock hl
  rw [locks_recover] at hl
  split at hl
  · cases hl
  · rename_i hkept
    obtain ⟨old, t, n, hold, hstate⟩ := h id lock hl
    refine ⟨old, t, n, ?_, hstate⟩
    have : lost old.state = false := by
      by_contra hlost
      exact hkept ⟨old, hold, by simpa using hlost⟩
    simp [get?_recover, hold, this]

theorem reorder (h : s.LocksCurrent) (order : List String) : (s.reorder order).LocksCurrent := by
  intro id lock hl
  simp only [reorder_locks, reorder_jobs] at hl ⊢
  exact h id lock hl

theorem cleanupExpiredLocks (h : s.LocksCurrent) (now : DateTime) :
    (s.cleanupExpiredLocks now).LocksCurrent := by
  intro id lock hl
  simp only [MemoryStorage.cleanupExpiredLocks, Dict.get?_filter, Option.filter_eq_some_iff] at hl
  exact h id lock hl.1

theorem lockAvailableJob {workerId : String} {queues : Option (List String)} {clock : FetchClock}
    (h : s.LocksCurrent) : (s.lockAvailableJob workerId queues clock).2.LocksCurrent := by
  generalize hr : s.lockAvailableJob workerId queues clock = r
  obtain ⟨_ | job, s'⟩ := r
  · obtain ⟨rfl, -⟩ := lockAvailableJob_none hr
    exact h
  · obtain ⟨old, -, -, -, -, rfl, rfl⟩ := lockAvailableJob_some hr
    intro id lock hl
    simp only [Dict.get?_insert] at hl
    by_cases hid : id = old.id
    · rw [if_pos hid] at hl
      cases hl
      exact ⟨{ old with state := .processing clock.start workerId "memory-storage" }, clock.start,
        "memory-storage", by simp [hid], rfl⟩
    · rw [if_neg hid] at hl
      obtain ⟨job, t, n, hjob, hstate⟩ := h id lock hl
      exact ⟨job, t, n, by simp [hid, hjob], hstate⟩

/-- As long as the lock entries are current, an enqueued job can be claimed: a
fetch over all queues hands out some job. -/
theorem fetches (h : s.LocksCurrent) {id : String} (hjob : s.jobs.get? id = some job)
    (hk : job.state.kind = .enqueued) (workerId : String) (clock : FetchClock) :
    ∃ claimed after, s.lockAvailableJob workerId none clock = (some claimed, after) := by
  generalize hr : s.lockAvailableJob workerId none clock = r
  obtain ⟨_ | claimed, after⟩ := r
  · obtain ⟨-, hlocked⟩ := lockAvailableJob_none hr
    obtain rfl := Jobs.id_of_get? hjob
    have havail : available clock.select job = true := by
      cases hs : job.state <;> simp_all [JobState.kind, available]
    have := hlocked job hjob havail rfl
    rw [Dict.contains_eq_false.mpr (h.unlocked hjob (by simp [hk]))] at this
    cases this
  · exact ⟨claimed, after, rfl⟩

end LocksCurrent
end MemoryStorage
end Qml
