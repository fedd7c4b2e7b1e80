import Mathlib.Data.Int.Init

namespace Qml

/-- A point in time, in nanoseconds since the Unix epoch. -/
abbrev DateTime := Int

/-- A span of time, in nanoseconds. -/
abbrev Duration := Int

namespace Duration

def nanosPerSecond : Int := 1000000000

def seconds (n : Int) : Duration := n * nanosPerSecond

def minutes (n : Int) : Duration := seconds (60 * n)

def hours (n : Int) : Duration := minutes (60 * n)

def days (n : Int) : Duration := hours (24 * n)

def milliseconds (n : Int) : Duration := n * 1000000

/-- Whole milliseconds, rounded toward zero. -/
def numMilliseconds (d : Duration) : Int := Int.tdiv d 1000000

/-- The largest span the time library can hold, the `i64` milliseconds;
the smallest is its negation. -/
def max : Duration := milliseconds 9223372036854775807

def inRange (d : Duration) : Bool := decide (-max ≤ d) && decide (d ≤ max)

/-- The derived debug text of a span. -/
def debug (d : Duration) : String :=
  "TimeDelta \x7b secs: " ++ toString (d.fdiv nanosPerSecond) ++ ", nanos: " ++
    toString (d.fmod nanosPerSecond) ++ " \x7d"

end Duration

namespace DateTime

/-- The first and the last representable instant, in whole seconds. -/
def minSeconds : Int := -8334601228800
def maxSeconds : Int := 8210266876799

def inRange (t : DateTime) : Bool :=
  decide (minSeconds ≤ t.fdiv Duration.nanosPerSecond) &&
    decide (t.fdiv Duration.nanosPerSecond ≤ maxSeconds)

/-- Milliseconds since the epoch, rounded down. -/
def timestampMillis (t : DateTime) : Int := t.fdiv 1000000

/-- What is left of an instant that is written with six digits of fraction. -/
def truncMicros (t : DateTime) : DateTime := t.fdiv 1000 * 1000

/-- Year, month and day of a day counted from the epoch, in the proleptic
Gregorian calendar. Years are counted from March inside the 400-year era. -/
def civil (day : Int) : Int × Nat × Nat :=
  let z := day + 719468
  let era := z.fdiv 146097
  let doe := (z.fmod 146097).toNat
  let yoe := (doe - doe / 1460 + doe / 36524 - doe / 146096) / 365
  let doy := doe - (365 * yoe + yoe / 4 - yoe / 100)
  let mp := (5 * doy + 2) / 153
  let d := doy - (153 * mp + 2) / 5 + 1
  let m := if mp < 10 then mp + 3 else mp - 9
  (yoe + era * 400 + (if m ≤ 2 then 1 else 0), m, d)

/-- Decimal digits of a number, padded with zeros on the left. -/
def pad (width n : Nat) : String :=
  String.ofList (List.replicate (width - (toString n).length) '0') ++ toString n

def year (y : Int) : String :=
  if 0 ≤ y ∧ y ≤ 9999 then pad 4 y.toNat
  else (if y < 0 then "-" else "+") ++ pad 4 y.natAbs

/-- Date and time of day to the second, as RFC 3339 writes them. -/
def calendar (t : DateTime) : String :=
  let secs := t.fdiv Duration.nanosPerSecond
  let (y, m, d) := civil (secs.fdiv 86400)
  let s := (secs.fmod 86400).toNat
  year y ++ "-" ++ pad 2 m ++ "-" ++ pad 2 d ++ "T" ++
    pad 2 (s / 3600) ++ ":" ++ pad 2 (s / 60 % 60) ++ ":" ++ pad 2 (s % 60)

/-- The text a serialized instant has: no fraction, or three, six or nine
digits of it, whichever is the shortest that loses nothing. -/
def rfc3339 (t : DateTime) : String :=
  let nanos := (t.fmod Duration.nanosPerSecond).toNat
  let fraction :=
    if nanos = 0 then ""
    else if nanos % 1000000 = 0 then "." ++ pad 3 (nanos / 1000000)
    else if nanos % 1000 = 0 then "." ++ pad 6 (nanos / 1000)
    else "." ++ pad 9 nanos
  calendar t ++ fraction ++ "Z"

/-- The text with exactly six digits of fraction. -/
def rfc3339Micros (t : DateTime) : String :=
  calendar t ++ "." ++ pad 6 ((t.fmod Duration.nanosPerSecond).toNat / 1000) ++ "Z"

example : rfc3339 1767323045120000000 = "2026-01-02T03:04:05.120Z" := by decide +kernel

end DateTime
end Qml
