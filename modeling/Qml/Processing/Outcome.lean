import Qml.Processing.Processor

namespace Qml
open Lib

/-- The copy a processor works on: the claimed job, one attempt later. -/
def Job.begun (job : Job) : Job := { job with attempt := Job.bump job.attempt }

/-- What the processing of a job claimed as `c` may store in the end. -/
inductive Outcome (p : JobProcessor) (c : Job) : Job → Prop
  | succeeded (t : DateTime) (duration : UInt64) (result : Option String)
      (expiresAt : DateTime) (metadata : Dict String String) :
      Outcome p c { c.begun with
        state := .succeeded t duration result
        expiresAt := some expiresAt
        metadata := metadata }
  | failed (t : DateTime) (error : String) (trace : Option String) (expiresAt : DateTime) :
      Outcome p c { c.begun with
        state := .failed t error trace
        expiresAt := some expiresAt }
  | awaitingRetry (t retryAt : DateTime) (error : String)
      (within : p.shouldRetryAttempt c.begun none = true) :
      Outcome p c { c.begun with state := .awaitingRetry t retryAt error }

namespace Outcome
variable {p : JobProcessor} {c out : Job}

theorem id_eq (h : Outcome p c out) : out.id = c.id := by cases h <;> rfl

theorem method_eq (h : Outcome p c out) : out.method = c.method := by cases h <;> rfl

theorem attempt_eq (h : Outcome p c out) : out.attempt = Job.bump c.attempt := by
  cases h <;> rfl

theorem maxRetries_eq (h : Outcome p c out) : out.maxRetries = c.maxRetries := by
  cases h <;> rfl

theorem kind (h : Outcome p c out) :
    out.state.kind = .succeeded ∨ out.state.kind = .failed ∨ out.state.kind = .awaitingRetry := by
  cases h <;> simp [JobState.kind]

/-- Only an outcome that is not final keeps the expiry of the claimed job. -/
theorem expiresAt_of_awaitingRetry (h : Outcome p c out)
    (hk : out.state.kind = .awaitingRetry) : out.expiresAt = c.expiresAt := by
  cases h with
  | awaitingRetry => rfl
  | succeeded | failed => cases hk

/-- A retry is only stored while both limits leave room for the next attempt. -/
theorem within_limits (h : Outcome p c out) (hk : out.state.kind = .awaitingRetry) :
    p.shouldRetryAttempt c.begun none = true := by
  cases h with
  | awaitingRetry _ _ _ within => exact within
  | succeeded | failed => cases hk

end Outcome

namespace JobProcessor
variable {p : JobProcessor} {job : Job}

/-- The two limits, and the convention of each: a job-level cap of zero is no
cap, a policy maximum of zero allows nothing. -/
theorem shouldRetryAttempt_le {exceptionType : Option String}
    (h : p.shouldRetryAttempt job exceptionType = true) :
    job.attempt ≤ p.retryPolicy.strategy.maxAttempts ∧
      (job.maxRetries = 0 ∨ job.attempt ≤ job.maxRetries) := by
  unfold shouldRetryAttempt at h
  split at h
  · cases h
  · rename_i hcap
    refine ⟨RetryPolicy.shouldRetry_le h, ?_⟩
    simp only [Bool.and_eq_true, decide_eq_true_eq, not_and, UInt32.not_lt] at hcap
    by_cases hz : job.maxRetries = 0
    · exact .inl hz
    · exact .inr (hcap (UInt32.pos_iff_ne_zero.mpr hz))

theorem addExecutionMetadata_eq (job : Job) (entries : List (String × String)) :
    ∃ metadata, addExecutionMetadata job entries = { job with metadata := metadata } := by
  induction entries generalizing job with
  | nil => exact ⟨job.metadata, rfl⟩
  | cons e es ih => exact ih (job.addMetadata ("exec_" ++ e.1) e.2)

end JobProcessor
end Qml
