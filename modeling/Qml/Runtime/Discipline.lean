import Qml.Processing.Outcome
import Qml.Runtime.Tasks

namespace Qml
open Lib Call

/-- What a routine may ask of the storage and of its worker, given what it
holds. A worker claims only when it holds nothing, executes the copy it claimed
once, and stores one outcome of that copy. -/
def Routine.Allowed (r : Routine) (φ : Phase) : {ρ : Type} → Call ρ → Prop
  | _, .now | _, .random | _, .await | _, .hook .. | _, .panic _ => True
  | _, .execute job context =>
      ∃ p queues rounds c, r = .worker p queues rounds ∧ φ = .claimed c ∧ job = c.begun ∧
        context.attempt = c.begun.attempt
  | _, .storage (.update job) =>
      ∃ p queues rounds c, r = .worker p queues rounds ∧ Outcome p c job ∧
        (φ = .executing c ∨ φ = .claimed c ∧ p.workerRegistry c.method = false)
  | _, .storage .cleanupExpiredLocks => ∃ p queues rounds, r = .worker p queues rounds
  | _, .storage (.lockAvailableJob workerId filter) =>
      ∃ p queues rounds, r = .worker p queues rounds ∧ φ = .idle ∧
        workerId = p.workerConfig.workerId ∧
        filter = if queues.isEmpty then none else some queues
  | _, .storage (.claimDueScheduledJobs ..) | _, .storage (.claimDueRetryJobs ..) =>
      ∃ batchSize rounds, r = .scheduler batchSize rounds
  | _, .storage (.heartbeatServer ..) | _, .storage (.listDeadServers _)
  | _, .storage (.reclaimJobsFromServer _) | _, .storage (.deregisterServer _) =>
      ∃ serverId timeout rounds, r = .heartbeat serverId timeout rounds
  | _, .storage (.deleteExpiredJobs _) | _, .storage (.cleanupExpiredNamedLocks _) =>
      ∃ rounds, r = .cleanup rounds
  | _, .storage (.requeueStrandedJobs _) | _, .storage (.registerServer _) =>
      ∃ server serverId, r = .start server serverId
  | _, .storage (.get jobId) => r = .retryJob jobId
  | _, .storage (.updateIfState job expected) =>
      r = .retryJob job.id ∧ expected = .failed ∧ job.state.kind = .enqueued
  | _, .storage (.delete jobId) => r = .deleteJob jobId
  | _, .storage .isAtCapacity | _, .storage .len =>
      (∃ job, r = .enqueue job) ∨ ∃ job executeAt reason, r = .schedule job executeAt reason
  | _, .storage (.insertJob job) =>
      r = .enqueue job ∨ ∃ template t executeAt reason, r = .schedule template executeAt reason ∧
        template.state.canTransitionTo (.scheduled t executeAt reason) = true ∧
        job = { template with state := .scheduled t executeAt reason }
  | _, .storage (.acquireJobLock ..) | _, .storage (.releaseJobLock ..) => False

/-- What the storage promises about a reply. -/
def Answers : {ρ : Type} → Call ρ → ρ → Prop
  | _, .storage (.lockAvailableJob workerId _), .ok (some job) =>
      ∃ t, job.state = .processing t workerId "memory-storage"
  | _, .storage (.get jobId), .ok (some job) => job.id = jobId
  | _, _, _ => True

/-- The typestate every routine keeps to. -/
def Routine.contract (r : Routine) : Contract Call Phase where
  may φ _ op := r.Allowed φ op
  step φ _ op reply φ' := Answers op reply ∧ φ' = φ.after op reply

/-- A program that asks for nothing but the clock, the random source, the hook
or a panic keeps every contract and leaves the phase alone. -/
def Quiet (program : Prog Call α) : Prop :=
  ∀ (r : Routine) (Q : α → Phase → Prop) (φ : Phase), (∀ a, Q a φ) → Prog.wp r.contract Q program φ

/-- The clock, the random source, the hook and a panic. -/
def Call.silent : {ρ : Type} → Call ρ → Prop
  | _, .now | _, .random | _, .hook .. | _, .panic _ => True
  | _, _ => False

/-- A program that makes only such calls. -/
abbrev Silent (program : Prog Call α) : Prop := program.Every Call.silent

namespace Silent

theorem quiet {program : Prog Call α} (h : Silent program) : Quiet program := by
  intro r Q φ hq
  refine h.wp_same (fun ψ ρ op hop => ?_) (fun ψ ρ op reply ψ' hop hstep => ?_) φ hq
  · cases op with
    | now | random | hook | panic => trivial
    | execute | await | storage => cases hop
  · obtain ⟨-, rfl⟩ := hstep
    cases op with
    | now | random | hook | panic => rfl
    | execute | await | storage => cases hop

theorem readNow : Silent Call.readNow := ⟨trivial, fun _ => trivial⟩

theorem unwind (message : String) : Silent (Call.unwind message : Prog Call α) :=
  ⟨trivial, fun reply => by cases reply⟩

theorem plus (t : DateTime) (d : Duration) : Silent (Call.plus t d) :=
  Prog.Every.ite trivial (unwind _)

theorem fromNow (d : Duration) : Silent (Call.fromNow d) := readNow.bind fun t => plus t d

theorem calculateDelay (strategy : RetryStrategy) (attempt : UInt32) :
    Silent (strategy.calculateDelay attempt) := by
  cases strategy with
  | none => trivial
  | fixed => trivial
  | exponentialBackoff initialDelay multiplier maxDelay maxAttempts jitter =>
    refine Prog.Every.ite trivial (Prog.Every.ite ⟨trivial, fun _ => ?_⟩ ?_)
    all_goals exact Prog.Every.ite trivial (unwind _)
  | linearBackoff =>
    refine Prog.Every.ite trivial (Prog.Every.ite (unwind _) ?_)
    exact Prog.Every.ite (unwind _) (Prog.Every.ite (unwind _) trivial)

theorem calculateRetryTime (policy : RetryPolicy) (attempt : UInt32) :
    Silent (policy.calculateRetryTime attempt) := by
  refine (calculateDelay _ _).bind fun delay => ?_
  cases delay with
  | none => trivial
  | some delay => exact (fromNow delay).bind fun _ => trivial

theorem retryTime (p : JobProcessor) (attempt : UInt32) (retryAt : Option DateTime) :
    Silent (p.retryTime attempt retryAt) := by
  cases retryAt with
  | some t => trivial
  | none =>
    refine (calculateRetryTime _ _).bind fun t => ?_
    cases t with
    | some t => trivial
    | none => exact fromNow _

theorem fireStateChangeHook (p : JobProcessor) (job : Job) (previous : JobState) :
    Silent (p.fireStateChangeHook job previous) :=
  Prog.Every.ite ⟨trivial, fun _ => trivial⟩ trivial

theorem applyStateChange (p : JobProcessor) (job : Job) (state : JobState) :
    Silent (p.applyStateChange job state) := by
  rw [JobProcessor.applyStateChange]
  split
  · trivial
  · exact (fireStateChangeHook _ _ _).bind fun _ => trivial

end Silent
end Qml
