import Qml.Processing.Ledger

namespace Qml
open Lib Call

namespace RetryStrategy

/-- The delay before the next attempt, for a draw that only jitter uses. -/
def delayAt (strategy : RetryStrategy) (attempt : UInt32) (random : ℚ) : Option Duration :=
  match strategy with
  | .none => Option.none
  | .fixed interval maxAttempts => if attempt ≤ maxAttempts then some interval else Option.none
  | .exponentialBackoff initialDelay multiplier maxDelay maxAttempts jitter =>
    if attempt > maxAttempts then Option.none
    else
      let delay := min (scale multiplier (attempt.toNat - 1)
        (Duration.numMilliseconds initialDelay)) (Duration.numMilliseconds maxDelay)
      some (Duration.milliseconds (toInt64
        (if jitter then delay + delay * (1 / 4) * (random * 2 - 1) else delay)))
  | .linearBackoff initialDelay increment maxDelay maxAttempts =>
    if attempt > maxAttempts then Option.none
    else some (min (initialDelay + increment * (attempt.toInt32.toInt - 1)) maxDelay)

/-- The spans that the delay is computed from fit their types. -/
def SpansFit (strategy : RetryStrategy) (attempt : UInt32) (random : ℚ) : Prop :=
  match strategy with
  | .none | .fixed .. => True
  | .exponentialBackoff .. =>
    ∀ delay, strategy.delayAt attempt random = some delay → Duration.inRange delay = true
  | .linearBackoff initialDelay increment _ _ =>
    -2147483648 ≤ attempt.toInt32.toInt - 1 ∧
      secondsFit (increment * (attempt.toInt32.toInt - 1)) = true ∧
      Duration.inRange (initialDelay + increment * (attempt.toInt32.toInt - 1)) = true

/-- An enabled strategy has a delay for every attempt up to its maximum. -/
theorem delayAt_isSome {strategy : RetryStrategy} {attempt : UInt32} (random : ℚ)
    (henabled : strategy.isRetryEnabled = true) (hle : attempt ≤ strategy.maxAttempts) :
    ∃ delay, strategy.delayAt attempt random = some delay := by
  cases strategy with
  | none => cases henabled
  | fixed interval maxAttempts => exact ⟨interval, if_pos hle⟩
  | exponentialBackoff initialDelay multiplier maxDelay maxAttempts jitter =>
    exact ⟨_, if_neg (UInt32.not_lt.mpr hle)⟩
  | linearBackoff initialDelay increment maxDelay maxAttempts =>
    exact ⟨_, if_neg (UInt32.not_lt.mpr hle)⟩

variable {around : Surroundings} {samples : Sample → Prop} {returning : Prop} {l : Ledger}
  {strategy : RetryStrategy} {attempt : UInt32}

theorem meets_calculateDelay {Q : Option Duration → Ledger → Prop}
    (hspans : returning → ∀ sample, samples sample → strategy.SpansFit attempt sample.random)
    (hsome : ∃ sample, samples sample)
    (h : ∀ sample, samples sample → Q (strategy.delayAt attempt sample.random) l) :
    Ledger.Meets around samples returning (strategy.calculateDelay attempt) Q l := by
  obtain ⟨sample, hsample⟩ := hsome
  cases strategy with
  | none => exact h sample hsample
  | fixed interval maxAttempts => exact h sample hsample
  | exponentialBackoff initialDelay multiplier maxDelay maxAttempts jitter =>
    simp only [delayAt, SpansFit] at h hspans
    simp only [calculateDelay]
    split
    · rename_i hpast
      simp only [if_pos hpast] at h
      exact h sample hsample
    · rename_i hwithin
      simp only [if_neg hwithin, Option.some.injEq, forall_eq'] at h hspans
      cases jitter with
      | true =>
        simp only [if_true, Prog.ask_bind] at h hspans ⊢
        refine Ledger.meets_random fun s hs => ?_
        simp only [Prog.monad_pure, Prog.pure_bind]
        split
        · exact h s hs
        · rename_i hout
          exact Ledger.meets_unwind fun hreturning => hout (hspans hreturning s hs)
      | false =>
        simp only [Bool.false_eq_true, if_false, Prog.monad_pure, Prog.pure_bind] at h hspans ⊢
        split
        · exact h sample hsample
        · rename_i hout
          exact Ledger.meets_unwind fun hreturning => hout (hspans hreturning sample hsample)
  | linearBackoff initialDelay increment maxDelay maxAttempts =>
    simp only [delayAt, SpansFit] at h hspans
    simp only [calculateDelay]
    split
    · rename_i hpast
      simp only [if_pos hpast] at h
      exact h sample hsample
    · rename_i hwithin
      simp only [if_neg hwithin] at h
      split
      · exact Ledger.meets_unwind fun hreturning => by
          have hfits := (hspans hreturning sample hsample).1
          omega
      · split
        · rename_i hout
          refine Ledger.meets_unwind fun hreturning => ?_
          rw [(hspans hreturning sample hsample).2.1] at hout
          cases hout
        · split
          · rename_i hout
            refine Ledger.meets_unwind fun hreturning => ?_
            rw [(hspans hreturning sample hsample).2.2] at hout
            cases hout
          · exact h sample hsample

end RetryStrategy

namespace JobProcessor

/-- The error text of an execution that did not succeed; without one, there is no worker. -/
def errorOf (p : JobProcessor) (job : Job) : Option Execution → Option String
  | none => some ("No worker registered for method: " ++ job.method)
  | some .elapsed => some ("Job timed out after " ++ Duration.debug p.workerConfig.jobTimeout)
  | some (.finished (.ok (.success ..))) => none
  | some (.finished (.ok (.retry error ..))) => some error
  | some (.finished (.ok (.failure error ..))) => some error
  | some (.finished (.error e)) => some e.display

/-- The type name under which the policy is asked about an execution, if it is. -/
def typeOf : Option Execution → Option String
  | some .elapsed => some "TimeoutError"
  | some (.finished (.error e)) => some (errorType e)
  | _ => none

/-- The time that the worker asked to be run again. -/
def ownRetryAt : Option Execution → Option DateTime
  | some (.finished (.ok (.retry _ _ retryAt _))) => retryAt
  | _ => none

/-- Whether a retry is stored: the policy is asked about the type of the error, where there
is one, and then once more about no type. -/
def retries (p : JobProcessor) (job : Job) : Option Execution → Bool
  | some (.finished (.ok (.retry ..))) => p.shouldRetryAttempt job none
  | some .elapsed =>
    p.shouldRetryAttempt job (some "TimeoutError") && p.shouldRetryAttempt job none
  | some (.finished (.error e)) =>
    p.shouldRetryAttempt job (some (errorType e)) && p.shouldRetryAttempt job none
  | _ => false

/-- Where the time of a retry comes from. -/
def RetryTime (p : JobProcessor) (samples : Sample → Prop) (attempt : UInt32)
    (own : Option DateTime) (retryAt : DateTime) : Prop :=
  own = some retryAt ∨ own = none ∧ ∃ drawn read delay, samples drawn ∧ samples read ∧
    p.retryPolicy.strategy.delayAt attempt drawn.random = some delay ∧ retryAt = read.now + delay

/-- What is stored of a job that is processing, for each ending of its execution and the
last reading of the clock before the write. -/
inductive Verdict (p : JobProcessor) (samples : Sample → Prop) (job : Job)
    (ending : Option Execution) (clock : DateTime) : Job → Prop
  | succeeded (t : DateTime) (duration given : UInt64) (result : Option String)
      (metadata : Dict String String)
      (hending : ending = some (.finished (.ok (.success result given metadata)))) :
      Verdict p samples job ending clock (addExecutionMetadata
        { job with
          state := .succeeded t duration result
          expiresAt := some (clock + p.succeededTtl) } metadata.entries)
  | failed (t : DateTime) (error : String) (herror : p.errorOf job ending = some error)
      (hgives : p.retries job ending = false) :
      Verdict p samples job ending clock
        { job with state := .failed t error none, expiresAt := some (clock + p.failedTtl) }
  | retried (t retryAt : DateTime) (error : String) (herror : p.errorOf job ending = some error)
      (hretries : p.retries job ending = true)
      (htime : p.RetryTime samples job.attempt (ownRetryAt ending) retryAt) :
      Verdict p samples job ending clock { job with state := .awaitingRetry t retryAt error }

/-- The dates and spans of a call stay within the ranges of their types. -/
structure InRange (p : JobProcessor) (attempt : UInt32) (samples : Sample → Prop) : Prop where
  timeout : 0 ≤ p.workerConfig.jobTimeout
  succeeded : ∀ read, samples read → DateTime.inRange (read.now + p.succeededTtl) = true
  failed : ∀ read, samples read → DateTime.inRange (read.now + p.failedTtl) = true
  spans : ∀ drawn, samples drawn → p.retryPolicy.strategy.SpansFit attempt drawn.random
  retry : ∀ drawn read delay, samples drawn → samples read →
    p.retryPolicy.strategy.delayAt attempt drawn.random = some delay →
    DateTime.inRange (read.now + delay) = true

variable {p : JobProcessor} {around : Surroundings} {samples : Sample → Prop} {returning : Prop}
  {l : Ledger} {job : Job} {β : Type}

/-- One write of a verdict, announced if there is a hook. -/
def Settles (p : JobProcessor) (around : Surroundings) (samples : Sample → Prop) (l : Ledger)
    (job : Job) (ending : Option Execution) (result : Except QmlError Unit) (l' : Ledger) :
    Prop :=
  ∃ out, Verdict p samples job ending l'.clock out ∧
    Ledger.Writes around p l job.state out result l'

theorem not_final_of_failed {state : JobState} {t : DateTime} {error : String}
    (h : state.canTransitionTo (.failed t error none) = true) : ¬ state.isFinal = true := by
  cases state with
  | enqueued | processing => exact Bool.false_ne_true
  | _ => cases h

theorem meets_applyStateChange {new : JobState}
    {next : Except QmlError Job → Prog Call (Except QmlError β)}
    {Q : Except QmlError β → Ledger → Prop} (hallowed : job.state.canTransitionTo new = true)
    (h : Ledger.Meets around samples returning (next (.ok { job with state := new })) Q
      (l.announce p job.state new)) :
    Ledger.Meets around samples returning (p.applyStateChange job new >>= next) Q l := by
  refine Ledger.meets_bind ?_
  rw [applyStateChange, Job.setState_ok.mpr ⟨hallowed, rfl⟩]
  exact Ledger.meets_bind (Ledger.meets_hook h)

theorem meets_applyStateChange_refused {new : JobState}
    {next : Except QmlError Job → Prog Call (Except QmlError β)}
    {Q : Except QmlError β → Ledger → Prop} (hrefused : job.state.canTransitionTo new = false)
    (h : ∀ e, Ledger.Meets around samples returning (next (.error e)) Q l) :
    Ledger.Meets around samples returning (p.applyStateChange job new >>= next) Q l := by
  refine Ledger.meets_bind ?_
  rw [applyStateChange, Job.setState, hrefused]
  exact h _

/-- A job that may fail is stored as failed. -/
theorem meets_failJobPermanently {error : String}
    (hallowed : ∀ t, job.state.canTransitionTo (.failed t error none) = true)
    (hrange : returning → ∀ read, samples read →
      DateTime.inRange (read.now + p.failedTtl) = true) :
    Ledger.Meets around samples returning (p.failJobPermanently job error none)
      (fun result l' => ∃ t, Ledger.Writes around p l job.state
        { job with state := .failed t error none, expiresAt := some (l'.clock + p.failedTtl) }
        result l') l := by
  rw [failJobPermanently, if_neg (not_final_of_failed (hallowed 0))]
  refine Ledger.meets_bind (Ledger.meets_readNow fun read hread => ?_)
  refine meets_applyStateChange (hallowed read.now) ?_
  refine Ledger.meets_bind (Ledger.meets_fromNow hrange fun read' hread' => ?_)
  refine Ledger.meets_announced_save fun result l' hwrites hclock => ⟨read.now, ?_⟩
  rw [hclock]
  exact hwrites

/-- What a job that is processing may become. -/
theorem may_conclude {t : DateTime} {worker server : String}
    (hstate : job.state = .processing t worker server) :
    ¬ job.state.isFinal = true ∧
      (∀ t duration result, job.state.canTransitionTo (.succeeded t duration result) = true) ∧
      (∀ t error, job.state.canTransitionTo (.failed t error none) = true) ∧
      ∀ t retryAt error, job.state.canTransitionTo (.awaitingRetry t retryAt error) = true := by
  rw [hstate]
  exact ⟨Bool.false_ne_true, fun _ _ _ => rfl, fun _ _ => rfl, fun _ _ _ => rfl⟩

/-- A retry that is allowed has a delay, so its time is never made up. -/
theorem meets_retryTime {own : Option DateTime} (hretries : p.shouldRetryAttempt job none = true)
    (hrange : returning → p.InRange job.attempt samples) (hsome : ∃ sample, samples sample)
    {Q : DateTime → Ledger → Prop}
    (h : ∀ retryAt t, p.RetryTime samples job.attempt own retryAt →
      Q retryAt { l with clock := t }) :
    Ledger.Meets around samples returning (p.retryTime job.attempt own) Q l := by
  cases own with
  | some retryAt => exact h retryAt l.clock (.inl rfl)
  | none =>
    have hpolicy : p.retryPolicy.shouldRetry none job.attempt = true := by
      unfold shouldRetryAttempt at hretries
      split at hretries
      · cases hretries
      · exact hretries
    have hdelay : ∀ random, ∃ delay,
        p.retryPolicy.strategy.delayAt job.attempt random = some delay := fun random =>
      RetryStrategy.delayAt_isSome random (RetryPolicy.shouldRetry_enabled hpolicy)
        (RetryPolicy.shouldRetry_le hpolicy)
    refine Ledger.meets_bind (Ledger.meets_bind (RetryStrategy.meets_calculateDelay
      (fun hreturning => (hrange hreturning).spans) hsome fun drawn hdrawn => ?_))
    obtain ⟨delay, hdelay⟩ := hdelay drawn.random
    simp only [hdelay]
    refine Ledger.meets_bind (Ledger.meets_fromNow (fun hreturning read hread =>
      (hrange hreturning).retry drawn read delay hdrawn hread hdelay) fun read hread => ?_)
    exact h _ _ (.inr ⟨rfl, drawn, read, delay, hdrawn, hread, hdelay, rfl⟩)

variable {ending : Option Execution} {error : String} {t₀ : DateTime} {worker server : String}

theorem meets_fail (hstate : job.state = .processing t₀ worker server)
    (herror : p.errorOf job ending = some error) (hgives : p.retries job ending = false)
    (hrange : returning → p.InRange job.attempt samples) :
    Ledger.Meets around samples returning (p.failJobPermanently job error none)
      (p.Settles around samples l job ending) l := by
  refine Prog.wp_mono (fun result l' hwrites => ?_) (meets_failJobPermanently
    (fun t => (may_conclude hstate).2.2.1 t error) fun hreturning => (hrange hreturning).failed)
  obtain ⟨t, hwrites⟩ := hwrites
  exact ⟨_, .failed t error herror hgives, hwrites⟩

theorem meets_handleJobRetry (hstate : job.state = .processing t₀ worker server)
    (herror : p.errorOf job ending = some error)
    (hretries : p.retries job ending = p.shouldRetryAttempt job none)
    (hrange : returning → p.InRange job.attempt samples) (hsome : ∃ sample, samples sample) :
    Ledger.Meets around samples returning (p.handleJobRetry job error (ownRetryAt ending))
      (p.Settles around samples l job ending) l := by
  rw [handleJobRetry, if_neg (may_conclude hstate).1]
  split
  · rename_i hgives
    rw [Bool.not_eq_true', ← hretries] at hgives
    exact meets_fail hstate herror hgives hrange
  · rename_i hagain
    rw [Bool.not_eq_true', Bool.not_eq_false] at hagain
    refine Ledger.meets_bind (meets_retryTime hagain hrange hsome fun retryAt t htime => ?_)
    refine Ledger.meets_bind (Ledger.meets_readNow fun read hread => ?_)
    rw [Job.setState_ok.mpr ⟨(may_conclude hstate).2.2.2 read.now retryAt error, rfl⟩]
    refine Ledger.meets_bind (Ledger.meets_hook ?_)
    refine Ledger.meets_announced_save fun result l' hwrites _ => ?_
    exact ⟨_, .retried read.now retryAt error herror (hretries.trans hagain) htime,
      hwrites.of_clock⟩

theorem meets_completeJobSuccessfully (hstate : job.state = .processing t₀ worker server)
    {result : Option String} {duration given : UInt64} {metadata : Dict String String}
    (hending : ending = some (.finished (.ok (.success result given metadata))))
    (hrange : returning → p.InRange job.attempt samples) :
    Ledger.Meets around samples returning (p.completeJobSuccessfully job result duration metadata)
      (p.Settles around samples l job ending) l := by
  rw [completeJobSuccessfully, if_neg (may_conclude hstate).1]
  refine Ledger.meets_bind (Ledger.meets_readNow fun read hread => ?_)
  refine meets_applyStateChange ((may_conclude hstate).2.1 read.now duration result) ?_
  refine Ledger.meets_bind (Ledger.meets_fromNow
    (fun hreturning => (hrange hreturning).succeeded) fun read' hread' => ?_)
  obtain ⟨kept, hkept⟩ := addExecutionMetadata_eq
    { job with
      state := .succeeded read.now duration result
      expiresAt := some (read'.now + p.succeededTtl) } metadata.entries
  have hverdict : Verdict p samples job ending read'.now _ :=
    .succeeded read.now duration given result metadata hending
  rw [hkept] at hverdict ⊢
  refine Ledger.meets_announced_save fun result l' hwrites hclock => ⟨_, ?_, hwrites⟩
  rw [hclock]
  exact hverdict

theorem Settles.of_clock {result : Except QmlError Unit} {l' : Ledger} {t : DateTime}
    (h : p.Settles around samples { l with clock := t } job ending result l') :
    p.Settles around samples l job ending result l' := by
  obtain ⟨out, hverdict, hwrites⟩ := h
  exact ⟨out, hverdict, hwrites.of_clock⟩

theorem Settles.meets {program : Prog Call (Except QmlError Unit)} {t : DateTime}
    (h : Ledger.Meets around samples returning program
      (p.Settles around samples { l with clock := t } job ending) { l with clock := t }) :
    Ledger.Meets around samples returning program (p.Settles around samples l job ending)
      { l with clock := t } :=
  Prog.wp_mono (fun _ _ hsettles => hsettles.of_clock) h

/-- Every ending of an execution is settled by one write. -/
theorem meets_conclude (hstate : job.state = .processing t₀ worker server)
    (hrange : returning → p.InRange job.attempt samples) (hsome : ∃ sample, samples sample)
    (start : DateTime) (execution : Execution) :
    Ledger.Meets around samples returning (p.conclude job start execution)
      (p.Settles around samples l job (some execution)) l := by
  cases execution with
  | elapsed =>
    simp only [conclude, handleJobTimeout]
    split
    · rename_i hpolicy
      refine meets_handleJobRetry hstate rfl ?_ hrange hsome
      rw [retries, hpolicy, Bool.true_and]
    · rename_i hpolicy
      rw [Bool.not_eq_true] at hpolicy
      refine meets_fail hstate rfl ?_ hrange
      rw [retries, hpolicy, Bool.false_and]
  | finished outcome =>
    refine Ledger.meets_bind (Ledger.meets_readNow fun read hread => ?_)
    apply Settles.meets
    rcases outcome with e | ⟨result, given, metadata⟩ | ⟨error, trace, own, context⟩ |
      ⟨error, trace, context⟩
    · simp only [handleExecutionError]
      split
      · rename_i hpolicy
        refine meets_handleJobRetry hstate rfl ?_ hrange hsome
        rw [retries, hpolicy, Bool.true_and]
      · rename_i hpolicy
        rw [Bool.not_eq_true] at hpolicy
        refine meets_fail hstate rfl ?_ hrange
        rw [retries, hpolicy, Bool.false_and]
    · exact meets_completeJobSuccessfully hstate rfl hrange
    · exact meets_handleJobRetry hstate rfl rfl hrange hsome
    · exact meets_fail hstate rfl rfl hrange

/-- The ledger once the execution has ended. -/
def ended (around : Surroundings) (l : Ledger) : Ledger :=
  { l with timedOut := around.execution.isElapsed }

theorem meets_execute (hstate : job.state = .processing t₀ worker server)
    (hrange : returning → p.InRange job.attempt samples) (hsome : ∃ sample, samples sample) :
    Ledger.Meets around samples returning (p.execute job)
      (p.Settles around samples (ended around l) job (some around.execution)) l := by
  refine Ledger.meets_bind (Ledger.meets_bind (Ledger.meets_readNow fun _ _ => ?_))
  refine Ledger.meets_bind (Ledger.meets_readNow fun start _ => ?_)
  split
  · rename_i hnegative
    refine Ledger.meets_unwind fun hreturning => ?_
    exact absurd (hrange hreturning).timeout (not_le.mpr hnegative)
  · refine Ledger.meets_bind (Ledger.meets_execute ?_)
    refine Ledger.meets_bind (Ledger.meets_await ?_)
    exact Settles.meets (l := ended around l)
      (meets_conclude hstate hrange hsome start.now around.execution)

/-- An enqueued job is moved on with one write. -/
theorem meets_ensureProcessing {enqueuedAt : DateTime} {queue : String}
    (hstate : job.state = .enqueued enqueuedAt queue) {Q : Except QmlError Job → Ledger → Prop}
    (h : ∀ t result l', Ledger.Writes around p l job.state
        { job with state := .processing t p.workerConfig.workerId p.workerConfig.serverName }
        result l' →
      Q (result.map fun _ =>
        { job with state := .processing t p.workerConfig.workerId p.workerConfig.serverName }) l') :
    Ledger.Meets around samples returning (p.ensureProcessing job) Q l := by
  rw [ensureProcessing, hstate]
  refine Ledger.meets_bind (Ledger.meets_readNow fun read _ => ?_)
  refine meets_applyStateChange (by rw [hstate]; rfl) (Ledger.meets_bind ?_)
  refine Ledger.meets_announced_save fun result l' hwrites _ => ?_
  have hmoved := h read.now result l' hwrites
  cases result with
  | error e => exact hmoved
  | ok _ => exact hmoved

/-- How the processing of a job ends: with its execution, if there is a worker for it. -/
def endingOf (p : JobProcessor) (job : Job) (execution : Execution) : Option Execution :=
  if p.workerRegistry job.method then some execution else none

/-- The whole of `process_job` for a job that is already processing. -/
theorem meets_processJob (hstate : job.state = .processing t₀ worker server)
    (hrange : returning → p.InRange job.begun.attempt samples)
    (hsome : ∃ sample, samples sample) :
    Ledger.Meets around samples returning (p.processJob job)
      (p.Settles around samples
        (if p.workerRegistry job.method then ended around l else l) job.begun
        (p.endingOf job around.execution)) l := by
  have hbegun : job.begun.state = .processing t₀ worker server := hstate
  have hensure : p.ensureProcessing job.begun = pure (.ok job.begun) := by
    rw [ensureProcessing, hbegun]
  change Ledger.Meets _ _ _ (if !p.workerRegistry job.method then
    p.failJobPermanently job.begun _ none else p.ensureProcessing job.begun >>= _) _ _
  rw [hensure, endingOf]
  cases hworker : p.workerRegistry job.method with
  | false => exact meets_fail hbegun rfl rfl hrange
  | true => exact meets_execute hbegun hrange hsome

end JobProcessor
end Qml
