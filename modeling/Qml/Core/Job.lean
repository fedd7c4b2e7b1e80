import Qml.Core.Error
import Qml.Core.JobState
import Qml.Core.Json
import Qml.Lib.Dict

namespace Qml
open Lib

/-- A background job with everything its execution needs. -/
structure Job where
  id : String
  method : String
  payload : JsonValue
  createdAt : DateTime
  state : JobState
  queue : String
  priority : Int
  maxRetries : UInt32
  attempt : UInt32
  metadata : Dict String String
  jobType : Option String
  timeoutSeconds : Option UInt64
  expiresAt : Option DateTime

namespace Job

/-- `Job::new`: the identifier and the reading of the clock come from outside. -/
def new (id : String) (now : DateTime) (method : String) (payload : JsonValue) : Job where
  id := id
  method := method
  payload := payload
  createdAt := now
  state := .enqueued now "default"
  queue := "default"
  priority := 0
  maxRetries := 0
  attempt := 0
  metadata := .empty
  jobType := none
  timeoutSeconds := none
  expiresAt := none

/-- `Job::with_config`. -/
def withConfig (id : String) (now : DateTime) (method : String) (payload : JsonValue)
    (queue : String) (priority : Int) (maxRetries : UInt32) : Job :=
  { new id now method payload with
    state := .enqueued now queue
    queue := queue
    priority := priority
    maxRetries := maxRetries }

/-- Move to a new state, if the lifecycle allows the transition. -/
def setState (job : Job) (newState : JobState) : Except QmlError Job :=
  if job.state.canTransitionTo newState then .ok { job with state := newState }
  else .error (.invalidStateTransition job.state.debug newState.debug)

def addMetadata (job : Job) (key value : String) : Job :=
  { job with metadata := job.metadata.insert key value }

/-- `u32::saturating_add(1)`. -/
def bump (attempt : UInt32) : UInt32 :=
  if attempt.toNat + 1 < UInt32.size then attempt + 1 else attempt

/-- The order in which every backend is to hand jobs out: higher priority
first, then the older one. -/
def precedes (a b : Job) : Bool :=
  decide (b.priority < a.priority) ||
    (decide (a.priority = b.priority) && decide (a.createdAt < b.createdAt))

/-- The comparison the stable sorts use. -/
def notAfter (a b : Job) : Prop := b.precedes a = false

instance : DecidableRel notAfter := fun a b => inferInstanceAs (Decidable (b.precedes a = false))

theorem precedes_iff {a b : Job} : a.precedes b = true ↔
    b.priority < a.priority ∨ a.priority = b.priority ∧ a.createdAt < b.createdAt := by
  simp [precedes]

theorem notAfter_iff {a b : Job} : notAfter a b ↔
    b.priority < a.priority ∨ a.priority = b.priority ∧ a.createdAt ≤ b.createdAt := by
  rw [notAfter, Bool.eq_false_iff, ne_eq, precedes_iff]
  simp only [DateTime]
  omega

instance : Std.Total notAfter := ⟨fun a b => by
  rw [notAfter_iff, notAfter_iff]
  simp only [DateTime]
  omega⟩

instance : IsTrans Job notAfter := ⟨fun a b c hab hbc => by
  rw [notAfter_iff] at *
  simp only [DateTime] at *
  omega⟩

theorem setState_ok {job job' : Job} {s : JobState} :
    job.setState s = .ok job' ↔
      job.state.canTransitionTo s = true ∧ job' = { job with state := s } := by
  unfold setState
  cases h : job.state.canTransitionTo s with
  | false => simp only [Bool.false_eq_true, if_false, reduceCtorEq, false_and]
  | true => simp only [if_true, Except.ok.injEq, true_and, eq_comm]

theorem bump_toNat {n : UInt32} (h : n.toNat + 1 < UInt32.size) :
    (bump n).toNat = n.toNat + 1 := by
  rw [bump, if_pos h, UInt32.toNat_add]
  exact Nat.mod_eq_of_lt h

theorem le_bump (n : UInt32) : n.toNat ≤ (bump n).toNat := by
  by_cases h : n.toNat + 1 < UInt32.size
  · rw [bump_toNat h]
    omega
  · rw [bump, if_neg h]

theorem bump_pos (n : UInt32) : 0 < (bump n).toNat := by
  by_cases h : n.toNat + 1 < UInt32.size
  · rw [bump_toNat h]
    omega
  · rw [bump, if_neg h]
    have : UInt32.size = 4294967296 := rfl
    omega

end Job
end Qml
