import Qml.Processing.Calls

namespace Qml
open Lib

inductive RetryStrategy
  | none
  | fixed (interval : Duration) (maxAttempts : UInt32)
  | exponentialBackoff (initialDelay : Duration) (multiplier : ℚ) (maxDelay : Duration)
      (maxAttempts : UInt32) (jitter : Bool)
  | linearBackoff (initialDelay increment maxDelay : Duration) (maxAttempts : UInt32)

namespace RetryStrategy

/-- The strategy a policy has unless it is given one. -/
def default : RetryStrategy :=
  .exponentialBackoff (Duration.seconds 1) 2 (Duration.minutes 15) 5 true

/-- `for _ in 1..attempt { delay *= multiplier }`. -/
def scale (multiplier : ℚ) : Nat → ℚ → ℚ
  | 0, delay => delay
  | n + 1, delay => scale multiplier n (delay * multiplier)

/-- A float cast to `i64`: truncated, and saturated at the ends of the range. -/
def toInt64 (x : ℚ) : Int :=
  max (-9223372036854775808) (min 9223372036854775807 (if 0 ≤ x then x.floor else x.ceil))

/-- What the product of a span and an integer is checked for: its whole seconds are an `i64`,
and neither end of that range. -/
def secondsFit (span : Duration) : Bool :=
  decide (-9223372036854775808 < span / 1000000000 ∧ span / 1000000000 < 9223372036854775807)

/-- Delay before the next attempt. The floats of the source are exact
rationals here; the draw is only made when jitter is on. -/
def calculateDelay (strategy : RetryStrategy) (attempt : UInt32) :
    Prog Call (Option Duration) :=
  match strategy with
  | .none => pure Option.none
  | .fixed interval maxAttempts =>
    pure (if attempt ≤ maxAttempts then some interval else Option.none)
  | .exponentialBackoff initialDelay multiplier maxDelay maxAttempts jitter =>
    if attempt > maxAttempts then pure Option.none
    else do
      let delay := scale multiplier (attempt.toNat - 1) (Duration.numMilliseconds initialDelay)
      let delay := min delay (Duration.numMilliseconds maxDelay)
      let delay ← if jitter then do
          let random ← Prog.ask Call.random
          pure (delay + delay * (1 / 4) * (random * 2 - 1))
        else pure delay
      let span := Duration.milliseconds (toInt64 delay)
      if Duration.inRange span then pure (some span)
      else Call.unwind "TimeDelta::milliseconds out of bounds"
  | .linearBackoff initialDelay increment maxDelay maxAttempts =>
    if attempt > maxAttempts then pure Option.none
    else
      let steps := attempt.toInt32.toInt - 1
      let delay := initialDelay + increment * steps
      if steps < -2147483648 then Call.unwind "attempt to subtract with overflow"
      else if !secondsFit (increment * steps) then
        Call.unwind "\x60TimeDelta * i32\x60 overflowed"
      else if !Duration.inRange delay then Call.unwind "\x60TimeDelta + TimeDelta\x60 overflowed"
      else pure (some (min delay maxDelay))

def maxAttempts : RetryStrategy → UInt32
  | .none => 0
  | .fixed _ n => n
  | .exponentialBackoff _ _ _ n _ => n
  | .linearBackoff _ _ _ n => n

def isRetryEnabled : RetryStrategy → Bool
  | .none => false
  | _ => true

end RetryStrategy

structure RetryPolicy where
  strategy : RetryStrategy
  retryOnAllExceptions : Bool
  retryableExceptions : List String
  nonRetryableExceptions : List String

namespace RetryPolicy

/-- `RetryPolicy::new`: the defaults around a strategy. -/
def new (strategy : RetryStrategy) : RetryPolicy where
  strategy := strategy
  retryOnAllExceptions := true
  retryableExceptions := []
  nonRetryableExceptions :=
    ["ArgumentError", "ValidationError", "AuthenticationError", "AuthorizationError"]

/-- `RetryPolicy::default`. -/
def default : RetryPolicy := .new .default

def noRetry : RetryPolicy := ⟨.none, false, [], []⟩

def shouldRetry (policy : RetryPolicy) (exceptionType : Option String) (attempt : UInt32) : Bool :=
  if attempt > policy.strategy.maxAttempts then false
  else if !policy.strategy.isRetryEnabled then false
  else
    match exceptionType with
    | none => policy.retryOnAllExceptions
    | some exceptionType =>
      if policy.nonRetryableExceptions.contains exceptionType then false
      else if policy.retryOnAllExceptions then true
      else policy.retryableExceptions.contains exceptionType

def calculateRetryTime (policy : RetryPolicy) (attempt : UInt32) :
    Prog Call (Option DateTime) := do
  match ← policy.strategy.calculateDelay attempt with
  | some delay => return some (← Call.fromNow delay)
  | none => return none

/-- Whatever the policy says about exceptions, it allows no attempt past its maximum. -/
theorem shouldRetry_le {policy : RetryPolicy} {exceptionType : Option String} {attempt : UInt32}
    (h : policy.shouldRetry exceptionType attempt = true) :
    attempt ≤ policy.strategy.maxAttempts := by
  unfold shouldRetry at h
  split at h
  · cases h
  · exact UInt32.not_lt.mp ‹_›

theorem shouldRetry_enabled {policy : RetryPolicy} {exceptionType : Option String}
    {attempt : UInt32} (h : policy.shouldRetry exceptionType attempt = true) :
    policy.strategy.isRetryEnabled = true := by
  unfold shouldRetry at h
  split at h
  · cases h
  · split at h
    · cases h
    · simpa using ‹¬ (!policy.strategy.isRetryEnabled) = true›

end RetryPolicy
end Qml
