import Qml.Lib.Run
import Qml.Processing.Routines

namespace Qml
open Lib

/-- What a task holds of the job it claimed last: nothing, the claimed copy, or
the claimed copy with its execution begun. Bookkeeping for the proofs, computed
from the calls the task makes; no step depends on it. -/
inductive Phase
  | idle
  | claimed (job : Job)
  | executing (job : Job)

namespace Phase

/-- The claimed copy the task still has to store an outcome for. -/
def held : Phase → Option Job
  | .idle => none
  | .claimed job => some job
  | .executing job => some job

/-- The claimed copy whose execution has begun. -/
def started : Phase → Option Job
  | .executing job => some job
  | _ => none

def begin : Phase → Phase
  | .claimed job => .executing job
  | φ => φ

def after (φ : Phase) : {ρ : Type} → Call ρ → ρ → Phase
  | _, .storage (.lockAvailableJob ..), .ok (some job) => .claimed job
  | _, .storage (.update _), _ => .idle
  | _, .execute .., _ => φ.begin
  | _, _, _ => φ

end Phase

/-- A spawned task: what is left of its program, and whether it still runs. -/
structure Task where
  routine : Routine
  program : Prog Call Unit
  phase : Phase
  alive : Bool

/-- The copy a task answers for: what it holds while it is alive. A dead task
answers for nothing or, where crashes count, for the execution it had begun. -/
def Task.grip (crashes : Bool) (task : Task) : Option Job :=
  if task.alive then task.phase.held
  else if crashes then task.phase.started
  else none

def Routine.task (r : Routine) : Task := ⟨r, r.program, .idle, true⟩

/-- The task after its pending call was made; a panic kills it. -/
def Task.resume (task : Task) (s : MemoryStorage) (env : Env) : Option (Task × MemoryStorage) :=
  if task.alive then
    match task.program with
    | .pure () => none
    | .call op k =>
      match op.perform env s with
      | some (reply, s') =>
        some ({ task with program := k reply, phase := task.phase.after op reply }, s')
      | none => some ({ task with alive := false }, s)
  else none

/-- Any number of tasks over one storage. -/
structure Runtime where
  storage : MemoryStorage
  tasks : List Task

/-- The scheduler of the runtime: spawn a task, let one make its next call, or
drop one where it stands (a crash, an abort, a panic of the worker). -/
inductive Action
  | spawn (r : Routine)
  | step (i : Nat) (env : Env)
  | abort (i : Nat)

namespace Runtime

/-- Any storage, and no task running yet. -/
def idle (storage : MemoryStorage) : Runtime := ⟨storage, []⟩

def step (s : Runtime) : Action → Option Runtime
  | .spawn r => some { s with tasks := s.tasks ++ [r.task] }
  | .step i env =>
    match s.tasks[i]? with
    | some task =>
      (task.resume s.storage env).map fun (task, storage) =>
        ⟨storage, s.tasks.set i task⟩
    | none => none
  | .abort i =>
    (s.tasks[i]?).map fun task => { s with tasks := s.tasks.set i { task with alive := false } }

abbrev Next (s : Runtime) (a : Action) (t : Runtime) : Prop := s.step a = some t

/-- The call that task `i` makes next. -/
def pending (s : Runtime) (i : Nat) : Option ((ρ : Type) × Call ρ) :=
  match s.tasks[i]? with
  | some ⟨_, .call op _, _, true⟩ => some ⟨_, op⟩
  | _ => none

def Calls (s : Runtime) (i : Nat) (op : Call ρ) : Prop :=
  ∃ task k, s.tasks[i]? = some task ∧ task.alive = true ∧ task.program = .call op k

theorem Calls.pending {s : Runtime} {i : Nat} {ρ : Type} {op : Call ρ} (h : s.Calls i op) :
    s.pending i = some ⟨ρ, op⟩ := by
  obtain ⟨⟨r, program, φ, alive⟩, k, ht, rfl, rfl⟩ := h
  simp only [Runtime.pending, ht]

theorem Calls.of_pending {s : Runtime} {i : Nat} {ρ : Type} {op : Call ρ}
    (h : s.pending i = some ⟨ρ, op⟩) : s.Calls i op := by
  unfold Runtime.pending at h
  split at h
  · rename_i ht
    cases h
    exact ⟨_, _, ht, rfl, rfl⟩
  · cases h

/-- The job that a client inserts in this step. -/
def inserts (s : Runtime) : Action → Option Job
  | .step i _ =>
    match s.pending i with
    | some ⟨_, .storage (.insertJob job)⟩ => some job
    | _ => none
  | _ => none

theorem Calls.inserts {s : Runtime} {i : Nat} {env : Env} {job : Job}
    (h : s.Calls i (.storage (.insertJob job))) : s.inserts (.step i env) = some job := by
  simp only [Runtime.inserts, h.pending]

end Runtime

/-- Whether a step spawns only a routine of the given kind. -/
def Action.spawns (kind : Routine → Bool) : Action → Bool
  | .spawn r => kind r
  | _ => true

/-- The next `n` calls of task `i`, all at one instant. -/
def Action.calls (i n : Nat) (now : DateTime) (execution : Execution) : List Action :=
  List.replicate n (.step i (.at now execution))

end Qml
