import Qml.Memory.Leases

namespace Qml
open Lib MemoryStorage

/-- Whether a section locks the mutex of the lock entries. -/
def Section.takesLocks : Section ρ → Bool
  | .requeueStrandedJobs .. | .cleanupExpiredLocks | .lockAvailableJob .. | .acquireJobLock ..
  | .releaseJobLock .. | .reclaimJobsFromServer .. => true
  | _ => false

namespace Callers

/-- Whether the caller is about to lock the mutex of the lock entries. -/
def takesLocks (s : Callers) : Event → Bool
  | .step i _ =>
    match s.callers[i]? with
    | some ⟨_, some (.call (.storage op) _)⟩ => op.takesLocks
    | _ => false
  | _ => false

/-- Whether the caller panics inside its next call. -/
def panics (s : Callers) : Event → Bool
  | .step i env =>
    match s.callers[i]? with
    | some ⟨_, some (.call op _)⟩ => (op.perform env s.storage).isNone
    | _ => false
  | _ => false

/-- The caller panics before its next call does anything. -/
def unwind (s : Callers) : Event → Callers
  | .step i _ =>
    match s.callers[i]? with
    | some caller => { s with callers := s.callers.set i { caller with program := none } }
    | none => s
  | _ => s

end Callers

/-- The callers of the storage, and whether a panic has poisoned the mutex of its lock
entries. -/
structure Locking where
  callers : Callers
  poisoned : Bool

namespace Locking
open Callers

def idle (storage : MemoryStorage) : Locking := ⟨.idle storage, false⟩

/-- Who panics with the mutex locked poisons it, and who finds it poisoned panics at the
`unwrap`. -/
def next (s : Locking) (e : Event) : Option Locking :=
  if s.poisoned && s.callers.takesLocks e then some { s with callers := s.callers.unwind e }
  else (s.callers.next e).map fun callers =>
    ⟨callers, s.poisoned || (s.callers.takesLocks e && s.callers.panics e)⟩

abbrev Next (s : Locking) (e : Event) (t : Locking) : Prop := s.next e = some t

/-- Whether a caller panics in this step. -/
def panics (x : Step Locking Event) : Bool :=
  (x.before.poisoned && x.before.callers.takesLocks x.label) || x.before.callers.panics x.label

/-- The step enters this section, with this reply. -/
def Enters (x : Step Locking Event) {ρ : Type} (op : Section ρ) (env : Env) (reply : ρ) : Prop :=
  x.before.poisoned = false ∧
    Callers.Enters ⟨x.before.callers, x.label, x.after.callers⟩ op env reply

/-- A call of `try_acquire_job_lock` comes to return true, and the time it asked for ends
at the given instant. -/
def Acquires (x : Step Locking Event) (jobId workerId : String) (ending : DateTime) : Prop :=
  ∃ timeout env, Enters x (.acquireJobLock jobId workerId timeout) env (.ok true) ∧
    ending = env.now + Duration.seconds timeout.toNat

def Releases (x : Step Locking Event) (jobId workerId : String) : Prop :=
  ∃ env, Enters x (.releaseJobLock jobId workerId) env (.ok true)

/-- A call finds by the clock that the instant has passed. -/
def ReadsPast (x : Step Locking Event) (ending : DateTime) : Prop :=
  ∃ env, Enters x .cleanupExpiredLocks env () ∧ ending ≤ env.now

/-- Between two calls that acquire the lock of one job, the first worker released it or
its time passed. -/
def Exclusive (tr : List (Step Locking Event)) : Prop :=
  ∀ pre x mid y post jobId workerId other ending later,
    tr = pre ++ x :: (mid ++ y :: post) → Acquires x jobId workerId ending →
    Acquires y jobId other later → ∃ z ∈ mid, Releases z jobId workerId ∨ ReadsPast z ending

/-- No call panics, the mutex stays usable, and the locks exclude each other. -/
structure LocksKept (tr : List (Step Locking Event)) : Prop where
  calm : ∀ x ∈ tr, panics x = false
  usable : ∀ x ∈ tr, x.after.poisoned = false
  exclusive : Exclusive tr

/-- The two methods of the per-job locks. -/
def locking : Method ρ → Bool
  | .tryAcquireJobLock .. | .releaseJobLock .. => true
  | _ => false

/-- Whether the clock reads a date that can be represented. -/
def readable : Event → Bool
  | .step _ env => DateTime.inRange env.now
  | _ => true

/-- A call that is to acquire a free lock asks for a time that ends at a date that can be
represented. -/
def fits (s : Locking) : Event → Bool
  | .step i env =>
    match s.callers.callers[i]? with
    | some ⟨_, some (.call (.storage (.acquireJobLock jobId _ timeout)) _)⟩ =>
      s.callers.storage.locks.contains jobId ||
        DateTime.inRange (env.now + Duration.seconds timeout.toNat)
    | _ => true
  | _ => true

theorem seconds_of_inRange {now : DateTime} {timeout : UInt64}
    (hnow : DateTime.inRange now = true)
    (hend : DateTime.inRange (now + Duration.seconds timeout.toNat) = true) :
    timeout.toNat < 2 ^ 63 ∧ Duration.inRange (Duration.seconds timeout.toNat) = true := by
  simp only [DateTime.inRange, Duration.inRange, Bool.and_eq_true, decide_eq_true_eq] at *
  simp only [DateTime.minSeconds, DateTime.maxSeconds, Duration.max, Duration.milliseconds,
    Duration.seconds, Duration.nanosPerSecond, DateTime, Duration] at *
  simp only [Int.fdiv_eq_ediv_of_nonneg _ (by decide : (0 : Int) ≤ 1000000000)] at hnow hend
  omega

/-- A free lock is granted for the time asked for exactly when this ends at a date that
can be represented. -/
theorem acquireJobLock_granted_iff {s : MemoryStorage} {jobId : String} {timeout : UInt64}
    {now : DateTime} (workerId : String) (hfree : s.locks.contains jobId = false)
    (hnow : DateTime.inRange now = true) :
    (∃ t, s.acquireJobLock jobId workerId timeout now = some (true, t) ∧
        t.locks.get? jobId = some ⟨workerId, now + Duration.seconds timeout.toNat⟩) ↔
      DateTime.inRange (now + Duration.seconds timeout.toNat) = true := by
  unfold acquireJobLock
  rw [hfree, if_neg Bool.false_ne_true]
  constructor
  · rintro ⟨t, hgranted, hlock⟩
    dsimp only at hgranted
    split at hgranted
    · rename_i hrange
      cases hgranted
      rw [Dict.get?_insert, if_pos rfl] at hlock
      have hexpiry := congrArg JobLock.expiresAt (Option.some.inj hlock)
      dsimp only at hexpiry
      rw [← hexpiry]
      exact (Bool.and_eq_true_iff.mp hrange).2
    · cases hgranted
  · intro hend
    obtain ⟨hsmall, hspan⟩ := seconds_of_inRange hnow hend
    dsimp only
    rw [toInt64_of_small hsmall, hspan, hend]
    exact ⟨_, rfl, by simp⟩

/-- The same step of the callers alone. -/
def bare (x : Step Locking Event) : Step Callers Event :=
  ⟨x.before.callers, x.label, x.after.callers⟩

variable {s t : Locking} {e : Event} {x : Step Locking Event} {tr : List (Step Locking Event)}
  {storage : MemoryStorage}

/-- Where the mutex is usable, the two methods do not panic. -/
theorem calm_of_fits (hkept : s.callers.Kept)
    (hmethods : ∀ c ∈ s.callers.callers, locking c.method = true) (hnow : readable e = true)
    (hfits : s.fits e = true) : s.callers.panics e = false := by
  cases e with
  | call | clear => rfl
  | step i env =>
    unfold Callers.panics
    dsimp only
    split
    · rename_i method τ op k hi
      have hmethod := hmethods _ (List.mem_of_getElem? hi)
      have hkeeps := hkept.section hi
      cases method with
      | tryAcquireJobLock =>
        cases op with
        | storage op =>
          cases op with
          | cleanupExpiredLocks => rfl
          | acquireJobLock jobId workerId timeout =>
            obtain ⟨rfl, rfl, rfl⟩ := hkeeps
            simp only [fits, hi, Bool.or_eq_true] at hfits
            cases hfree : s.callers.storage.locks.contains jobId with
            | true => simp [Call.perform, Section.perform, acquireJobLock, hfree]
            | false =>
              have hend := hfits.resolve_left (by simp [hfree])
              obtain ⟨t, hgranted, -⟩ := (acquireJobLock_granted_iff workerId hfree hnow).mpr hend
              simp [Call.perform, Section.perform, hgranted]
          | _ => exact hkeeps.elim
        | _ => exact hkeeps.elim
      | releaseJobLock =>
        cases op with
        | storage op =>
          cases op with
          | releaseJobLock => rfl
          | _ => exact hkeeps.elim
        | _ => exact hkeeps.elim
      | _ => cases hmethod
    · rfl

/-- As long as nothing panics, the callers run as they would without a mutex. -/
theorem next_calm (hs : s.poisoned = false) (hcalm : s.callers.panics e = false)
    (h : Next s e t) : t.poisoned = false ∧ Callers.Next s.callers e t.callers := by
  unfold Next next at h
  rw [hs, Bool.false_and, if_neg Bool.false_ne_true, hcalm, Bool.and_false] at h
  obtain ⟨callers, hnext, rfl⟩ := Option.map_eq_some_iff.mp h
  exact ⟨rfl, hnext⟩

/-- What the conditions on a run say of its end. -/
theorem calm_run (hr : Run Next (idle storage) tr t)
    (hmethods : ∀ x ∈ tr, x.label.calls locking = true)
    (hclock : ∀ x ∈ tr, readable x.label = true)
    (hfits : ∀ x ∈ tr, x.before.fits x.label = true) :
    t.poisoned = false ∧ Run Callers.Next (.idle storage) (tr.map bare) t.callers ∧
      ∀ x ∈ tr, panics x = false ∧ x.after.poisoned = false := by
  induction hr with
  | nil => exact ⟨rfl, .nil, fun x hx => absurd hx List.not_mem_nil⟩
  | @snoc tr u v e run h ih =>
    have hsub : ∀ x ∈ tr, x ∈ tr ++ [⟨u, e, v⟩] := fun x hx => List.mem_append_left _ hx
    have hlast : (⟨u, e, v⟩ : Step Locking Event) ∈ tr ++ [⟨u, e, v⟩] := by simp
    obtain ⟨husable, hbare, hcalm⟩ := ih (fun x hx => hmethods x (hsub x hx))
      (fun x hx => hclock x (hsub x hx)) fun x hx => hfits x (hsub x hx)
    have hkinds : ∀ x ∈ tr.map bare, x.label.calls locking = true := by
      intro x hx
      obtain ⟨y, hy, rfl⟩ := List.mem_map.mp hx
      exact hmethods y (hsub y hy)
    have hquiet := calm_of_fits (kept_run hbare) (methods_run hbare hkinds) (hclock _ hlast)
      (hfits _ hlast)
    obtain ⟨hafter, hnext⟩ := next_calm husable hquiet h
    refine ⟨hafter, ?_, fun x hx => ?_⟩
    · rw [List.map_append]
      exact hbare.snoc hnext
    · rcases List.mem_append.mp hx with hx | hx
      · exact hcalm x hx
      · obtain rfl := List.mem_singleton.mp hx
        exact ⟨by simp [panics, husable, hquiet], hafter⟩

/-- The entry that a call leaves when it acquires a lock, which it found free. -/
theorem Acquires.spec {jobId workerId : String} {ending : DateTime}
    (h : Acquires x jobId workerId ending) (hnow : readable x.label = true)
    (hfits : x.before.fits x.label = true) :
    x.before.callers.storage.locks.get? jobId = none ∧
      x.after.callers.storage.locks.get? jobId = some ⟨workerId, ending⟩ := by
  obtain ⟨timeout, env, ⟨-, i, τ, method, k, hlabel, hi, hop⟩, rfl⟩ := h
  dsimp only [bare] at hlabel hi hop
  rw [hlabel] at hnow hfits
  simp only [fits, hi, Bool.or_eq_true] at hfits
  cases hfree : x.before.callers.storage.locks.contains jobId with
  | true =>
    simp only [Section.perform, acquireJobLock, hfree, if_true] at hop
    cases hop
  | false =>
    have hend := hfits.resolve_left (by simp [hfree])
    obtain ⟨t, hgranted, hlock⟩ :=
      (acquireJobLock_granted_iff workerId hfree hnow).mpr hend
    simp only [Section.perform] at hop
    rw [hgranted] at hop
    cases hop
    exact ⟨Dict.contains_eq_false.mp hfree, hlock⟩

/-- An entry stays until its worker releases it or its time passes. -/
theorem entry_step {jobId workerId : String} {ending : DateTime}
    (husable : x.before.poisoned = false)
    (hnext : Callers.Next x.before.callers x.label x.after.callers)
    (hkept : x.before.callers.Kept) (hmethods : ∀ c ∈ x.before.callers.callers,
      locking c.method = true)
    (hlock : x.before.callers.storage.locks.get? jobId = some ⟨workerId, ending⟩) :
    x.after.callers.storage.locks.get? jobId = some ⟨workerId, ending⟩ ∨
      Releases x jobId workerId ∨ ReadsPast x ending := by
  rcases enters_or_locks hnext with ⟨ρ, op, env, reply, henters⟩ | hsame
  · have hentered := henters
    obtain ⟨i, τ, method, k, -, hi, hop⟩ := hentered
    rcases lock_perform hop hlock with hup | hdrop
    · exact .inl hup
    · refine .inr ?_
      have hmethod := hmethods _ (List.mem_of_getElem? hi)
      have hkeeps := hkept.section hi
      cases hdrop with
      | released => exact .inl ⟨env, husable, henters⟩
      | expired hpast => exact .inr ⟨env, ⟨husable, henters⟩, hpast⟩
      | requeued | reclaimed =>
        cases method with
        | tryAcquireJobLock | releaseJobLock => exact hkeeps.elim
        | _ => cases hmethod
  · exact .inl (hsame ▸ hlock)

/-- In every run of the two methods whose granted timeouts end at dates that can be
represented, nothing panics and the locks exclude each other. -/
theorem job_locks_kept (hr : Run Next (idle storage) tr t)
    (hmethods : ∀ x ∈ tr, x.label.calls locking = true)
    (hclock : ∀ x ∈ tr, readable x.label = true)
    (hfits : ∀ x ∈ tr, x.before.fits x.label = true) : LocksKept tr := by
  obtain ⟨-, -, hcalm⟩ := calm_run hr hmethods hclock hfits
  refine ⟨fun x hx => (hcalm x hx).1, fun x hx => (hcalm x hx).2, ?_⟩
  intro pre x mid y post jobId workerId other ending later htr hx hy
  have hall : ∀ z ∈ x :: (mid ++ y :: post), z ∈ tr := fun z hz => by simp [htr, hz]
  have hfirst := hx.spec (hclock x (hall x (by simp))) (hfits x (hall x (by simp)))
  have hsecond := hy.spec (hclock y (hall y (by simp))) (hfits y (hall y (by simp)))
  have hcut := hr
  rw [htr] at hcut
  obtain ⟨z, hz, hup, hdown⟩ := hcut.between
    (fun s => s.callers.storage.locks.get? jobId ≠ some ⟨workerId, ending⟩)
    (fun h => h hfirst.2) (by simp [hsecond.1])
  refine ⟨z, hz, ?_⟩
  obtain ⟨before, hsub, hbefore, hnext⟩ := hr.of_mem (hall z (by simp [hz]))
  obtain ⟨husable, hbare, -⟩ := calm_run hbefore (fun w hw => hmethods w (hsub w hw))
    (fun w hw => hclock w (hsub w hw)) fun w hw => hfits w (hsub w hw)
  have hkinds : ∀ w ∈ before.map bare, w.label.calls locking = true := by
    intro w hw
    obtain ⟨v, hv, rfl⟩ := List.mem_map.mp hw
    exact hmethods v (hsub v hv)
  have hquiet := (hcalm z (hall z (by simp [hz]))).1
  rw [panics, husable, Bool.false_and, Bool.false_or] at hquiet
  rcases entry_step husable (next_calm husable hquiet hnext).2 (kept_run hbare)
    (methods_run hbare hkinds) (not_not.mp hup) with hkept | hended
  · exact absurd hkept hdown
  · exact hended

/-- The second worker gets the lock once the first has released it. -/
def passedOn : List Event :=
  [Event.call (.tryAcquireJobLock "job" "a" 60)] ++ Event.steps 0 2 0 ++
  [Event.call (.tryAcquireJobLock "job" "b" 60)] ++ Event.steps 1 2 0 ++
  [Event.call (.releaseJobLock "job" "a")] ++ Event.steps 2 1 0 ++
  [Event.call (.tryAcquireJobLock "job" "b" 60)] ++ Event.steps 3 2 0

theorem job_locks_kept_passed_on :
    LocksKept (replay next (idle (.empty none)) passedOn) := by
  obtain ⟨t, hr⟩ := replay_run next (idle (.empty none)) passedOn
  exact job_locks_kept hr (by decide +kernel) (by decide +kernel) (by decide +kernel)

/-- The first worker asks for the longest time there is. -/
def longest : List Event :=
  [Event.call (.tryAcquireJobLock "job" "a" 18446744073709551615)] ++ Event.steps 0 2 0 ++
  [Event.call (.tryAcquireJobLock "job" "b" 60)] ++ Event.steps 1 2 0

/-- The first worker asks for a time that is still positive when it is cast. -/
def tooLong : List Event :=
  [Event.call (.tryAcquireJobLock "job" "a" 9223372036854775807)] ++ Event.steps 0 2 0 ++
  [Event.call (.tryAcquireJobLock "other" "b" 60)] ++ Event.steps 1 1 0

/-- Whether the caller is about to release a lock. -/
def releasing (s : Callers) : Event → Bool
  | .step i _ =>
    match s.callers[i]? with
    | some ⟨_, some (.call (.storage (.releaseJobLock ..)) _)⟩ => true
    | _ => false
  | _ => false

theorem Releases.releasing {jobId workerId : String} (h : Releases x jobId workerId) :
    releasing x.before.callers x.label = true := by
  obtain ⟨env, -, i, τ, method, k, hlabel, hi, -⟩ := h
  dsimp only at hlabel hi
  simp [Locking.releasing, hlabel, hi]

theorem ReadsPast.late {ending : DateTime} (h : ReadsPast x ending) :
    ∃ i env, x.label = .step i env ∧ ending ≤ env.now := by
  obtain ⟨env, ⟨-, i, τ, method, k, hlabel, -⟩, hpast⟩ := h
  exact ⟨i, env, hlabel, hpast⟩

/-- Cast to a negative number, the longest time is over at once, and both workers hold the
lock; a shorter one makes the call panic, and every later one with it. -/
theorem overlong_locks_fail :
    (∃ tr t, Run Next (idle (.empty none)) tr t ∧ (∀ x ∈ tr, x.label.calls locking = true) ∧
      (∀ x ∈ tr, readable x.label = true) ∧ ¬ Exclusive tr) ∧
    ∃ tr t, Run Next (idle (.empty none)) tr t ∧ (∀ x ∈ tr, x.label.calls locking = true) ∧
      (∀ x ∈ tr, readable x.label = true) ∧ t.poisoned = true ∧ (tr[2]?).any panics = true ∧
      (tr[4]?).any panics = true := by
  constructor
  · obtain ⟨t, hr⟩ := replay_run next (idle (.empty none)) longest
    refine ⟨_, t, hr, by decide +kernel, by decide +kernel, fun hexclusive => ?_⟩
    have hmid := hexclusive [_, _] ⟨_, .step 0 (.at 0 .elapsed), _⟩ [_, _]
      ⟨_, .step 1 (.at 0 .elapsed), _⟩ [] "job" "a" "b" _ _ rfl
      ⟨_, _, ⟨rfl, 0, Bool, .tryAcquireJobLock "job" "a" _, _, rfl, rfl, rfl⟩, rfl⟩
      ⟨_, _, ⟨rfl, 1, Bool, .tryAcquireJobLock "job" "b" _, _, rfl, rfl, rfl⟩, rfl⟩
    obtain ⟨z, hz, hreleases | hpast⟩ := hmid
    · have hnone : (((replay next (idle (.empty none)) longest).drop 3).take 2).all
          (fun z => !releasing z.before.callers z.label) = true := by decide +kernel
      have hnot := List.all_eq_true.mp hnone z hz
      rw [hreleases.releasing] at hnot
      cases hnot
    · obtain ⟨i, env, hlabel, hpast⟩ := hpast.late
      rcases List.mem_cons.mp hz with rfl | hz
      · cases hlabel
      · obtain rfl := List.mem_singleton.mp hz
        cases hlabel
        exact absurd hpast (by decide)
  · obtain ⟨t, hr⟩ := replay_run next (idle (.empty none)) tooLong
    refine ⟨_, t, hr, by decide +kernel, by decide +kernel, ?_, by decide +kernel,
      by decide +kernel⟩
    rw [hr.eq_last]
    decide +kernel

end Locking
end Qml
