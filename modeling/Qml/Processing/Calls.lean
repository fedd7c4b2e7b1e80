import Qml.Lib.Prog
import Qml.Memory.Sections
import Qml.Processing.Worker

namespace Qml
open Lib

/-- What a task may do between two of its own pure computations. `execute` is
the moment the worker starts on a job, `await` the end of its execution or of
the time it was given. -/
inductive Call : Type → Type 1
  | now : Call DateTime
  | random : Call ℚ
  | execute (job : Job) (context : WorkerContext) : Call Unit
  | await : Call Execution
  | hook (job : Job) (previous : JobState) : Call Unit
  | panic (message : String) : Call Empty
  | storage {ρ : Type} (op : Section ρ) : Call ρ

/-- Everything outside the program that decides what one call does. -/
structure Env extends Reading where
  random : ℚ
  execution : Execution

/-- An environment in which every reading of the clock is the same. -/
def Env.at (now : DateTime) (execution : Execution) : Env where
  now := now
  fetch := ⟨now, now, now⟩
  stamp := fun _ => now
  order := []
  random := 0
  execution := execution

/-- Make one call. `none` is a panic of the calling task. -/
def Call.perform (env : Env) (s : MemoryStorage) : Call ρ → Option (ρ × MemoryStorage)
  | .now => some (env.now, s)
  | .random => some (env.random, s)
  | .execute _ _ => some ((), s)
  | .await => some (env.execution, s)
  | .hook _ _ => some ((), s)
  | .panic _ => none
  | .storage op => op.perform env.toReading s

namespace Call

/-- `Utc::now()`. -/
def readNow : Prog Call DateTime := .ask .now

/-- Unwind the task. -/
def unwind (message : String) : Prog Call α := .call (.panic message) fun reply => nomatch reply

/-- Run one critical section of the storage. -/
def enter (op : Section ρ) : Prog Call ρ := .ask (.storage op)

/-- `DateTime + Duration`, which panics outside the representable range. -/
def plus (t : DateTime) (d : Duration) : Prog Call DateTime :=
  if DateTime.inRange (t + d) then pure (t + d)
  else unwind "\x60DateTime + TimeDelta\x60 overflowed"

/-- `Utc::now() + d`. -/
def fromNow (d : Duration) : Prog Call DateTime := do
  let t ← readNow
  plus t d

end Call
end Qml
