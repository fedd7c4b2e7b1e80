import Qml.Core.Error
import Qml.Core.Json
import Qml.Core.Time

namespace Qml

/-- The cron library, which is not part of the source: it parses an expression
and finds the first occurrence strictly after an instant. -/
structure Cron where
  Schedule : Type
  fromStr : String → Except String Schedule
  next : Schedule → DateTime → Option DateTime
  later : ∀ {schedule t t'}, next schedule t = some t' → t < t'

/-- The library on the expression that matches every second. -/
def Cron.everySecond : Cron where
  Schedule := Unit
  fromStr expr := if expr = "* * * * * *" then .ok () else .error "Invalid expression"
  next _ t := some ((t.fdiv Duration.nanosPerSecond + 1) * Duration.nanosPerSecond)
  later := by
    intro _ t t' h
    cases h
    rw [Int.fdiv_eq_ediv_of_nonneg _ (by decide)]
    simp only [DateTime, Duration.nanosPerSecond] at t ⊢
    omega

/-- A cron-scheduled job template. -/
structure RecurringJob where
  id : String
  cron : String
  method : String
  payload : JsonValue
  queue : String
  nextRunAt : DateTime
  lastRunAt : Option DateTime
  createdAt : DateTime
  updatedAt : DateTime
  enabled : Bool

def parseSchedule (cron : Cron) (expr : String) : Except QmlError cron.Schedule :=
  match cron.fromStr expr with
  | .ok schedule => .ok schedule
  | .error e => .error (.invalidJobData ("Invalid cron expression \x60" ++ expr ++ "\x60: " ++ e))

def nextAfter (cron : Cron) (expr : String) (start : DateTime) : Except QmlError DateTime :=
  match parseSchedule cron expr with
  | .error e => .error e
  | .ok schedule =>
    match cron.next schedule start with
    | some t => .ok t
    | none =>
      .error (.invalidJobData ("Cron expression \x60" ++ expr ++ "\x60 has no future occurrences"))

namespace RecurringJob

/-- `RecurringJob::new`, with its two readings of the clock. -/
def new (cron : Cron) (id expr method : String) (payload : JsonValue) (queue : String)
    (start now : DateTime) : Except QmlError RecurringJob :=
  match nextAfter cron expr start with
  | .error e => .error e
  | .ok nextRunAt => .ok ⟨id, expr, method, payload, queue, nextRunAt, none, now, now, true⟩

/-- The update that `advance` makes once it has found the next occurrence. -/
def moveTo (r : RecurringJob) (nextRunAt now : DateTime) : RecurringJob :=
  { r with nextRunAt := nextRunAt, updatedAt := now }

end RecurringJob

theorem lt_nextAfter {cron : Cron} {expr : String} {start t : DateTime}
    (h : nextAfter cron expr start = .ok t) : start < t := by
  unfold nextAfter at h
  split at h
  · cases h
  · split at h
    · cases h
      exact cron.later ‹_›
    · cases h

end Qml
