import Qml.Core.Time

namespace Qml

/-- Discriminant of a job state. -/
inductive JobStateKind
  | enqueued | processing | succeeded | failed | deleted | scheduled | awaitingRetry
  deriving DecidableEq, Repr

/-- Human-readable name of the state, also the variant key of its JSON. -/
def JobStateKind.name : JobStateKind → String
  | .enqueued => "Enqueued"
  | .processing => "Processing"
  | .succeeded => "Succeeded"
  | .failed => "Failed"
  | .deleted => "Deleted"
  | .scheduled => "Scheduled"
  | .awaitingRetry => "AwaitingRetry"

/-- The states of jobs that wait to be handed out. -/
def JobStateKind.waiting : JobStateKind → Bool
  | .enqueued | .scheduled | .awaitingRetry => true
  | _ => false

theorem JobStateKind.name_injective (h : JobStateKind.name a = JobStateKind.name b) : a = b := by
  cases a <;> cases b <;> first | rfl | exact absurd h (by decide)

inductive JobState
  | enqueued (enqueuedAt : DateTime) (queue : String)
  | processing (startedAt : DateTime) (workerId serverName : String)
  | succeeded (succeededAt : DateTime) (totalDuration : UInt64) (result : Option String)
  | failed (failedAt : DateTime) (exception : String) (stackTrace : Option String)
  | deleted (deletedAt : DateTime) (reason : Option String)
  | scheduled (scheduledAt enqueueAt : DateTime) (reason : String)
  | awaitingRetry (scheduledAt retryAt : DateTime) (lastException : String)
  deriving DecidableEq, Repr

namespace JobState

def kind : JobState → JobStateKind
  | .enqueued .. => .enqueued
  | .processing .. => .processing
  | .succeeded .. => .succeeded
  | .failed .. => .failed
  | .deleted .. => .deleted
  | .scheduled .. => .scheduled
  | .awaitingRetry .. => .awaitingRetry

def name (s : JobState) : String := s.kind.name

def isFinal : JobState → Bool
  | .succeeded .. | .failed .. | .deleted .. => true
  | _ => false

/-- The transitions a job may make through `Job.setState`. -/
def canTransitionTo : JobState → JobState → Bool
  | .enqueued .., .processing .. => true
  | .enqueued .., .deleted .. => true
  | .enqueued .., .scheduled .. => true
  | .enqueued .., .failed .. => true
  | .processing .., .succeeded .. => true
  | .processing .., .failed .. => true
  | .processing .., .deleted .. => true
  | .processing .., .awaitingRetry .. => true
  | .scheduled .., .enqueued .. => true
  | .scheduled .., .deleted .. => true
  | .failed .., .awaitingRetry .. => true
  | .failed .., .deleted .. => true
  | .failed .., .enqueued .. => true
  | .awaitingRetry .., .enqueued .. => true
  | .awaitingRetry .., .deleted .. => true
  | .succeeded .., .deleted .. => true
  | .deleted .., _ => false
  | _, _ => false

/-- Control, format and private-use characters, and the separators other than the space. -/
def hiddenRanges : List (Nat × Nat) :=
  [(0x00, 0x1f), (0x7f, 0xa0), (0xad, 0xad), (0x600, 0x605), (0x61c, 0x61c), (0x6dd, 0x6dd),
    (0x70f, 0x70f), (0x890, 0x891), (0x8e2, 0x8e2), (0x1680, 0x1680), (0x180e, 0x180e),
    (0x2000, 0x200f), (0x2028, 0x202f), (0x205f, 0x2064), (0x2066, 0x206f), (0x3000, 0x3000),
    (0xe000, 0xf8ff), (0xfeff, 0xfeff), (0xfff9, 0xfffb), (0x110bd, 0x110bd), (0x110cd, 0x110cd),
    (0x13430, 0x1343f), (0x1bca0, 0x1bca3), (0x1d173, 0x1d17a), (0xe0001, 0xe0001),
    (0xe0020, 0xe007f), (0xf0000, 0xffffd), (0x100000, 0x10fffd)]

/-- Debug text of a character in a string. Combining marks, and code points that are nobody's
yet, are left as they are here; which ones these are is up to the compiler's Unicode version. -/
def debugChar (c : Char) : String :=
  if c = '"' then "\\\"" else if c = '\\' then "\\\\" else if c = '\n' then "\\n"
  else if c = '\r' then "\\r" else if c = '\t' then "\\t" else if c = '\x00' then "\\0"
  else if hiddenRanges.any fun r => decide (r.1 ≤ c.toNat) && decide (c.toNat ≤ r.2) then
    "\\u\x7b" ++ String.ofList (Nat.toDigits 16 c.toNat) ++ "\x7d"
  else String.singleton c

/-- Debug text of a string: quoted, with the escapes a quoted literal needs. -/
def debugText (s : String) : String :=
  "\"" ++ String.join (s.toList.map debugChar) ++ "\""

example : debugText "a\tb\x01c\u007fé" = "\"a\\tb\\u\x7b1\x7dc\\u\x7b7f\x7dé\"" := by decide +kernel

def debugOption : Option String → String
  | none => "None"
  | some s => "Some(" ++ debugText s ++ ")"

/-- The derived debug text of a state, which transition errors carry. -/
def debug : JobState → String
  | .enqueued t q => "Enqueued \x7b enqueued_at: " ++ t.rfc3339 ++ ", queue: " ++
      debugText q ++ " \x7d"
  | .processing t w s => "Processing \x7b started_at: " ++ t.rfc3339 ++ ", worker_id: " ++
      debugText w ++ ", server_name: " ++ debugText s ++ " \x7d"
  | .succeeded t d r => "Succeeded \x7b succeeded_at: " ++ t.rfc3339 ++ ", total_duration: " ++
      toString d ++ ", result: " ++ debugOption r ++ " \x7d"
  | .failed t e s => "Failed \x7b failed_at: " ++ t.rfc3339 ++ ", exception: " ++ debugText e ++
      ", stack_trace: " ++ debugOption s ++ " \x7d"
  | .deleted t r => "Deleted \x7b deleted_at: " ++ t.rfc3339 ++ ", reason: " ++
      debugOption r ++ " \x7d"
  | .scheduled t e r => "Scheduled \x7b scheduled_at: " ++ t.rfc3339 ++ ", enqueue_at: " ++
      e.rfc3339 ++ ", reason: " ++ debugText r ++ " \x7d"
  | .awaitingRetry t r e => "AwaitingRetry \x7b scheduled_at: " ++ t.rfc3339 ++ ", retry_at: " ++
      r.rfc3339 ++ ", last_exception: " ++ debugText e ++ " \x7d"

theorem isFinal_iff {s : JobState} :
    s.isFinal = true ↔ s.kind = .succeeded ∨ s.kind = .failed ∨ s.kind = .deleted := by
  cases s <;> simp [isFinal, kind]

theorem processing_of_kind {s : JobState} (h : s.kind = .processing) :
    ∃ startedAt workerId serverName, s = .processing startedAt workerId serverName := by
  cases s with
  | processing startedAt workerId serverName => exact ⟨startedAt, workerId, serverName, rfl⟩
  | _ => cases h

theorem isFinal_of_kind {s : JobState} (h : s.kind = .enqueued ∨ s.kind = .scheduled ∨
    s.kind = .awaitingRetry ∨ s.kind = .processing) : s.isFinal = false := by
  cases s <;> simp_all [kind, isFinal]

/-- The outcomes a worker may reach, and soft deletion, are the only ways on
from `Processing`; going back to `Enqueued` is not one of them. -/
theorem canTransitionTo_processing {t : DateTime} {w n : String} {s : JobState} :
    (processing t w n).canTransitionTo s = true ↔
      s.kind = .succeeded ∨ s.kind = .failed ∨ s.kind = .deleted ∨ s.kind = .awaitingRetry := by
  cases s <;> simp [canTransitionTo, kind]

/-- What may be put back into a queue. -/
theorem canTransitionTo_enqueued {s new : JobState} (h : new.kind = .enqueued) :
    s.canTransitionTo new = true ↔
      s.kind = .scheduled ∨ s.kind = .failed ∨ s.kind = .awaitingRetry := by
  cases new with
  | enqueued => cases s <;> simp [canTransitionTo, kind]
  | _ => cases h

end JobState
end Qml
