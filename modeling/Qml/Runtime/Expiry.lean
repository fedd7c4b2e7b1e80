import Qml.Runtime.Holders

namespace Qml
open Lib

namespace Runtime
variable {s t : Runtime} {a : Action} {tr : List (Step Runtime Action)}
  {x : Step Runtime Action} {storage : MemoryStorage} {i : Nat} {c job : Job}

/-- No stored job that is not in a final state is due to be swept, now or later. -/
def LiveUnexpiring (s : Runtime) : Prop :=
  ∀ id job, s.storage.jobs.get? id = some job → job.state.isFinal = false → job.expiresAt = none

/-- If this step is a sweep, it leaves every job that is not in a final state. -/
def SweepSparesLive (x : Step Runtime Action) : Prop :=
  ∀ i env now id job, x.label = .step i env →
    x.before.Calls i (.storage (.deleteExpiredJobs now)) →
    x.before.storage.jobs.get? id = some job → job.state.isFinal = false →
    x.after.storage.jobs.get? id = some job

/-- Whether a client enqueues a job that is already given an expiry. -/
def insertsExpiring (s : Runtime) (a : Action) : Bool :=
  (s.inserts a).any fun job => job.expiresAt.isSome

/-- Whether a manual retry puts a job back in this step from a copy that still
carries the expiry of its failure. -/
def revivesExpiring (s : Runtime) : Action → Bool
  | .step i _ =>
    match s.pending i with
    | some ⟨_, .storage (.updateIfState job expected)⟩ =>
      (s.storage.jobs.get? job.id).any (fun old => decide (old.state.kind = expected)) &&
        job.expiresAt.isSome
    | _ => false
  | _ => false

/-- Neither the live stored jobs nor the copies the workers hold expire. -/
structure Unexpiring (s : Runtime) : Prop where
  stored : s.LiveUnexpiring
  held : ∀ i c, Holder false s i c → c.expiresAt = none

theorem isFinal_of_available {now : DateTime} (h : MemoryStorage.available now job = true) :
    job.state.isFinal = false := by
  rcases MemoryStorage.available_kind h with hk | hk | hk <;>
    exact JobState.isFinal_of_kind (by simp [hk])

theorem Unexpiring.claimed (hs : s.Unexpiring) (h : s.Takes a t i c) : c.expiresAt = none := by
  obtain ⟨_, old, _, -, hold, havail, -, rfl, -⟩ := h.spec
  exact hs.stored _ old hold (isFinal_of_available havail)

/-- A retry keeps the expiry of the claimed copy, which has none. -/
theorem Unexpiring.concluded (hl : s.Lawful) (hs : s.Unexpiring)
    (h : s.Calls i (.storage (.update job))) (hopen : job.state.isFinal = false) :
    job.expiresAt = none := by
  obtain ⟨task, ht, ha, p, _, _, c, -, hout, hφ⟩ := h.allowed hl
  have hheld : task.phase.held = some c := by
    rcases hφ with hφ | ⟨hφ, -⟩ <;> simp [hφ, Phase.held]
  have hkind : job.state.kind = .awaitingRetry := by
    rcases hout.kind with hk | hk | hk
    · simp [JobState.isFinal_iff.mpr (.inl hk)] at hopen
    · simp [JobState.isFinal_iff.mpr (.inr (.inl hk))] at hopen
    · exact hk
  rw [hout.expiresAt_of_awaitingRetry hkind]
  exact hs.held i c ⟨task, ht, by simp [Task.grip, ha, hheld]⟩

theorem Unexpiring.step (hl : s.Lawful) (hs : s.Unexpiring) (h : Next s a t)
    (hins : s.insertsExpiring a = false) (hrev : s.revivesExpiring a = false) :
    t.Unexpiring := by
  refine ⟨fun id job hjob hopen => ?_, fun i c hc => ?_⟩
  · rcases storage_cases h with hsame | ⟨i, env, ρ, op, reply, rfl, hcall, hop⟩
    · exact hs.stored id job (hsame ▸ hjob) hopen
    · have heff := Section.effect hop id
      rw [hjob] at heff
      generalize hb : s.storage.jobs.get? id = before at heff
      cases heff with
      | same => exact hs.stored id job hb hopen
      | update => exact hs.concluded hl hcall hopen
      | updateIfState _ old hid =>
        simpa [revivesExpiring, hcall.pending, hid, hb] using hrev
      | insert => simpa [insertsExpiring, hcall.inserts] using hins
      | promoteScheduled _ _ old hdue =>
        exact hs.stored id old hb (JobState.isFinal_of_kind
          (by simp [MemoryStorage.dueScheduled_kind hdue]))
      | promoteRetry _ _ old hdue =>
        exact hs.stored id old hb (JobState.isFinal_of_kind
          (by simp [MemoryStorage.dueRetry_kind hdue]))
      | requeue _ old hlost =>
        exact hs.stored id old hb (JobState.isFinal_of_kind
          (by simp [MemoryStorage.stale_kind hlost]))
      | reclaim _ old hlost =>
        exact hs.stored id old hb (JobState.isFinal_of_kind
          (by simp [MemoryStorage.ownedBy_kind hlost]))
      | claim _ _ old havail => exact hs.stored id old hb (isFinal_of_available havail)
  · rcases holder_cases h hc with ⟨hold, -⟩ | htake
    · exact hs.held i c hold
    · exact hs.claimed htake

theorem unexpiring_run (hr : Run Next (idle storage) tr s) (h₀ : (idle storage).LiveUnexpiring)
    (hins : ∀ x ∈ tr, x.before.insertsExpiring x.label = false)
    (hrev : ∀ x ∈ tr, x.before.revivesExpiring x.label = false) : s.Unexpiring := by
  induction hr with
  | nil => exact ⟨h₀, fun _ _ h => absurd h no_holder⟩
  | @snoc tr t u a run h ih =>
    have hs := ih (fun x hx => hins x (List.mem_append_left _ hx))
      fun x hx => hrev x (List.mem_append_left _ hx)
    exact hs.step (lawful_run (lawful_idle storage) run) h (hins ⟨t, a, u⟩ (by simp))
      (hrev ⟨t, a, u⟩ (by simp))

/-- A sweep goes by the expiry alone, and no live job has one. -/
theorem LiveUnexpiring.spares (h : x.before.LiveUnexpiring)
    (hx : Next x.before x.label x.after) : SweepSparesLive x := by
  intro i env now id job hlabel hcall hjob hopen
  rw [hlabel] at hx
  rcases hcall.performed hx with ⟨reply, hop⟩ | ⟨hop, -⟩
  · simp only [Section.perform, MemoryStorage.deleteExpiredJobs, Option.some.injEq,
      Prod.ext_iff] at hop
    rw [← hop.2]
    simp [hjob, Option.filter, MemoryStorage.unexpired, h id job hjob hopen]
  · cases hop

/-- A manual retry that takes effect with an expiry leaves a live job that expires. -/
theorem not_liveUnexpiring_of_revives (hl : s.Lawful) (hx : Next s a t)
    (h : s.revivesExpiring a = true) : ¬ t.LiveUnexpiring := by
  intro hlive
  unfold revivesExpiring at h
  split at h
  · rename_i i env
    split at h
    · rename_i job expected hp
      simp only [Bool.and_eq_true, Option.any_eq_true, decide_eq_true_eq] at h
      obtain ⟨⟨old, hold, hkind⟩, hexp⟩ := h
      have hcall := Calls.of_pending hp
      obtain ⟨task, -, -, -, -, henq⟩ := hcall.allowed hl
      rcases hcall.performed hx with ⟨reply, hop⟩ | ⟨hop, -⟩
      · simp only [Section.perform, MemoryStorage.updateIfState, hold, hkind, ne_eq, not_true,
          if_false, Option.some.injEq, Prod.ext_iff] at hop
        have hstored : t.storage.jobs.get? job.id = some job := by
          rw [← hop.2]
          simp
        have := hlive job.id job hstored (JobState.isFinal_of_kind (.inl henq))
        simp [this] at hexp
      · cases hop
    · cases h
  · cases h

/-- The live jobs stay free of an expiry, and the sweeps leave them, exactly in
the runs where no manual retry puts a job back with the expiry of its failure. -/
theorem live_jobs_unexpiring_iff (hr : Run Next (idle storage) tr s)
    (h₀ : (idle storage).LiveUnexpiring)
    (hins : ∀ x ∈ tr, x.before.insertsExpiring x.label = false) :
    (∀ x ∈ tr, x.after.LiveUnexpiring ∧ SweepSparesLive x) ↔
      ∀ x ∈ tr, x.before.revivesExpiring x.label = false := by
  constructor
  · intro h x hx
    obtain ⟨pre, -, hpre, hnext⟩ := hr.of_mem hx
    by_contra hrev
    exact not_liveUnexpiring_of_revives (lawful_run (lawful_idle storage) hpre) hnext
      (by simpa using hrev) (h x hx).1
  · intro hrev x hx
    obtain ⟨pre, hsub, hpre, hnext⟩ := hr.of_mem hx
    have hs := unexpiring_run hpre h₀ (fun y hy => hins y (hsub y hy)) fun y hy =>
      hrev y (hsub y hy)
    exact ⟨(hs.step (lawful_run (lawful_idle storage) hpre) hnext (hins x hx) (hrev x hx)).stored,
      hs.stored.spares hnext⟩

/-- A job fails for good, an operator puts it back a day later, and the cleanup
worker comes by before any worker does. -/
def retriedThenSwept : List Action :=
  let server := BackgroundJobServer.new .default fun _ => true
  let late := Duration.days 8
  [Action.spawn (.enqueue (Job.new "a" 0 "send_email" .null))] ++ Action.calls 0 2 0 .elapsed ++
  [Action.spawn (server.worker "qml-server" 0 1)] ++
  Action.calls 1 10 0 (.finished (.ok (.failure "mailbox gone" none .empty))) ++
  [Action.spawn (.retryJob "a")] ++ Action.calls 2 3 (Duration.days 1) .elapsed ++
  [Action.spawn (.cleanup 1)] ++ Action.calls 3 3 late .elapsed

theorem retried_job_swept :
    ∃ tr s, Run Next (idle (.empty none)) tr s ∧
      (∀ x ∈ tr, x.before.insertsExpiring x.label = false) ∧
      (∃ x ∈ tr, (x.before.storage.jobs.get? "a").map (·.state.kind) = some .enqueued ∧
        (x.after.storage.jobs.get? "a").isNone = true) ∧
      ¬ ∀ x ∈ tr, x.after.LiveUnexpiring ∧ SweepSparesLive x := by
  obtain ⟨s, hr⟩ := replay_run step (idle (.empty none)) retriedThenSwept
  refine ⟨_, s, hr, by decide +kernel, by decide +kernel, fun h => ?_⟩
  have hlive : ∃ x ∈ replay step (idle (.empty none)) retriedThenSwept,
      (x.after.storage.jobs.get? "a").any (fun job => !job.state.isFinal && job.expiresAt.isSome)
        = true := by
    decide +kernel
  obtain ⟨x, hx, hlive⟩ := hlive
  simp only [Option.any_eq_true, Bool.and_eq_true, Bool.not_eq_true'] at hlive
  obtain ⟨job, hjob, hopen, hexp⟩ := hlive
  simp [(h x hx).1 "a" job hjob hopen] at hexp

/-- Nobody puts the failed job back. -/
def failedThenSwept : List Action :=
  let server := BackgroundJobServer.new .default fun _ => true
  let late := Duration.days 8
  [Action.spawn (.enqueue (Job.new "a" 0 "send_email" .null))] ++ Action.calls 0 2 0 .elapsed ++
  [Action.spawn (server.worker "qml-server" 0 1)] ++
  Action.calls 1 10 0 (.finished (.ok (.failure "mailbox gone" none .empty))) ++
  [Action.spawn (.cleanup 1)] ++ Action.calls 2 3 late .elapsed

theorem live_jobs_unexpiring_iff_failed_then_swept :
    ∃ tr s, Run Next (idle (.empty none)) tr s ∧
      (∃ x ∈ tr, (x.before.storage.jobs.get? "a").map (·.state.kind) = some .failed ∧
        (x.after.storage.jobs.get? "a").isNone = true) ∧
      ∀ x ∈ tr, x.after.LiveUnexpiring ∧ SweepSparesLive x := by
  obtain ⟨s, hr⟩ := replay_run step (idle (.empty none)) failedThenSwept
  have h₀ : (idle (.empty none)).LiveUnexpiring := fun id job hjob => by cases hjob
  exact ⟨_, s, hr, by decide +kernel,
    (live_jobs_unexpiring_iff hr h₀ (by decide +kernel)).mpr (by decide +kernel)⟩

end Runtime
end Qml
