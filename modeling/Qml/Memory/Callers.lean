import Qml.Lib.Pool
import Qml.Lib.Run
import Qml.Memory.Effects
import Qml.Memory.Methods

namespace Qml
open Lib Call

namespace MemoryStorage

/-- The methods of the in-memory backend that reach its jobs or their locks, each
with what it returns. -/
inductive Method : Type → Type
  | get (jobId : String) : Method (Option Job)
  | update (job : Job) : Method Unit
  | updateIfState (job : Job) (expected : JobStateKind) : Method Bool
  | delete (jobId : String) : Method Bool
  | enqueue (job : Job) : Method Unit
  | claimDueScheduledJobs (now : DateTime) (limit : Nat) : Method (List Job)
  | claimDueRetryJobs (now : DateTime) (limit : Nat) : Method (List Job)
  | deleteExpiredJobs (now : DateTime) : Method Nat
  | requeueStrandedJobs (staleBefore : DateTime) : Method Nat
  | fetchAndLockJob (workerId : String) (queues : Option (List String)) : Method (Option Job)
  | tryAcquireJobLock (jobId workerId : String) (timeoutSeconds : UInt64) : Method Bool
  | releaseJobLock (jobId workerId : String) : Method Bool
  | fetchAvailableJobsAtomic (workerId : String) (limit : Option Nat)
      (queues : Option (List String)) : Method (List Job)
  | reclaimJobsFromServer (serverId : String) : Method Nat

namespace Method

def program : Method ρ → Prog Call (Except StorageError ρ)
  | .get jobId => enter (.get jobId)
  | .update job => enter (.update job)
  | .updateIfState job expected => enter (.updateIfState job expected)
  | .delete jobId => enter (.delete jobId)
  | .enqueue job => MemoryStorage.enqueue job
  | .claimDueScheduledJobs t limit => enter (.claimDueScheduledJobs t limit)
  | .claimDueRetryJobs t limit => enter (.claimDueRetryJobs t limit)
  | .deleteExpiredJobs t => enter (.deleteExpiredJobs t)
  | .requeueStrandedJobs staleBefore => enter (.requeueStrandedJobs staleBefore)
  | .fetchAndLockJob workerId queues => MemoryStorage.fetchAndLockJob workerId queues
  | .tryAcquireJobLock jobId workerId timeoutSeconds =>
      MemoryStorage.tryAcquireJobLock jobId workerId timeoutSeconds
  | .releaseJobLock jobId workerId => enter (.releaseJobLock jobId workerId)
  | .fetchAvailableJobsAtomic workerId limit queues =>
      MemoryStorage.fetchAvailableJobsAtomic workerId limit queues
  | .reclaimJobsFromServer serverId => enter (.reclaimJobsFromServer serverId)

/-- The critical sections a method consists of. -/
def enters : Method ρ → Section τ → Prop
  | .get jobId, .get jobId' => jobId' = jobId
  | .update job, .update job' => job' = job
  | .updateIfState job expected, .updateIfState job' expected' =>
      job' = job ∧ expected' = expected
  | .delete jobId, .delete jobId' => jobId' = jobId
  | .enqueue _, .isAtCapacity | .enqueue _, .len => True
  | .enqueue job, .insertJob job' => job' = job
  | .claimDueScheduledJobs t limit, .claimDueScheduledJobs t' limit' => t' = t ∧ limit' = limit
  | .claimDueRetryJobs t limit, .claimDueRetryJobs t' limit' => t' = t ∧ limit' = limit
  | .deleteExpiredJobs t, .deleteExpiredJobs t' => t' = t
  | .requeueStrandedJobs t, .requeueStrandedJobs t' => t' = t
  | .fetchAndLockJob .., .cleanupExpiredLocks | .tryAcquireJobLock .., .cleanupExpiredLocks
  | .fetchAvailableJobsAtomic .., .cleanupExpiredLocks => True
  | .fetchAndLockJob workerId queues, .lockAvailableJob workerId' queues'
  | .fetchAvailableJobsAtomic workerId _ queues, .lockAvailableJob workerId' queues' =>
      workerId' = workerId ∧ queues' = queues
  | .tryAcquireJobLock jobId workerId timeout, .acquireJobLock jobId' workerId' timeout' =>
      jobId' = jobId ∧ workerId' = workerId ∧ timeout' = timeout
  | .releaseJobLock jobId workerId, .releaseJobLock jobId' workerId' =>
      jobId' = jobId ∧ workerId' = workerId
  | .reclaimJobsFromServer serverId, .reclaimJobsFromServer serverId' => serverId' = serverId
  | _, _ => False

/-- A call keeps to its method. -/
def keepsTo (method : Method ρ) : Call τ → Prop
  | .storage op => method.enters op
  | _ => False

def contract (method : Method ρ) : Contract Call Unit where
  may _ _ call := method.keepsTo call
  step _ _ _ _ _ := True

theorem fetchUpTo_keeps {method : Method ρ} {workerId : String} {queues : Option (List String)}
    (hclean : method.enters .cleanupExpiredLocks)
    (hlock : method.enters (.lockAvailableJob workerId queues)) (n : Nat) (jobs : List Job) :
    (fetchUpTo workerId queues n jobs).wp method.contract (fun _ _ => True) () := by
  induction n generalizing jobs with
  | zero => trivial
  | succ n ih =>
    simp only [fetchUpTo, MemoryStorage.fetchAndLockJob, enter, Prog.ask_bind, Prog.call_bind,
      Prog.wp_call]
    refine ⟨hclean, fun _ _ _ => ⟨hlock, fun reply _ _ => ?_⟩⟩
    rcases reply with _ | _ | job
    · trivial
    · trivial
    · exact ih _

theorem program_keeps (method : Method ρ) :
    method.program.wp method.contract (fun _ _ => True) () := by
  cases method with
  | enqueue job =>
    simp only [program, MemoryStorage.enqueue, enter, Prog.ask_bind, Prog.wp_call]
    refine ⟨trivial, fun full _ _ => ?_⟩
    cases full with
    | true => exact ⟨trivial, fun _ _ _ => trivial⟩
    | false => exact ⟨rfl, fun _ _ _ => trivial⟩
  | fetchAndLockJob workerId queues =>
    simp only [program, MemoryStorage.fetchAndLockJob, enter, Prog.ask_bind, Prog.wp_call]
    exact ⟨trivial, fun _ _ _ => ⟨⟨rfl, rfl⟩, fun _ _ _ => trivial⟩⟩
  | tryAcquireJobLock jobId workerId timeout =>
    simp only [program, MemoryStorage.tryAcquireJobLock, enter, Prog.ask_bind, Prog.wp_call]
    exact ⟨trivial, fun _ _ _ => ⟨⟨rfl, rfl, rfl⟩, fun _ _ _ => trivial⟩⟩
  | fetchAvailableJobsAtomic workerId limit queues =>
    have hlock : (fetchAvailableJobsAtomic workerId limit queues).enters
        (.lockAvailableJob workerId queues) := ⟨rfl, rfl⟩
    refine fetchUpTo_keeps ?_ hlock _ _
    trivial
  | updateIfState | claimDueScheduledJobs | claimDueRetryJobs | releaseJobLock =>
    simp only [program, enter, Prog.wp_ask]
    exact ⟨⟨rfl, rfl⟩, fun _ _ _ => trivial⟩
  | get | update | delete | deleteExpiredJobs | requeueStrandedJobs | reclaimJobsFromServer =>
    simp only [program, enter, Prog.wp_ask]
    exact ⟨rfl, fun _ _ _ => trivial⟩

end Method

/-- One call of a method: what is left of its program, or nothing after a panic. -/
structure Caller where
  {ρ : Type}
  method : Method ρ
  program : Option (Prog Call (Except StorageError ρ))

end MemoryStorage

open MemoryStorage

/-- Any number of calls of the methods at one storage, each at some point of its
program. -/
structure Callers where
  storage : MemoryStorage
  callers : List Caller

namespace Callers

def idle (storage : MemoryStorage) : Callers := ⟨storage, []⟩

/-- Call a method, let a caller make its next call, or clear the storage. -/
inductive Event
  | call {ρ : Type} (method : Method ρ)
  | step (i : Nat) (env : Env)
  | clear

def next (s : Callers) : Event → Option Callers
  | .call method => some { s with callers := s.callers ++ [⟨method, some method.program⟩] }
  | .step i env =>
    match s.callers[i]? with
    | some ⟨method, some (.call op k)⟩ =>
      match op.perform env s.storage with
      | some (reply, storage) => some ⟨storage, s.callers.set i ⟨method, some (k reply)⟩⟩
      | none => some { s with callers := s.callers.set i ⟨method, none⟩ }
    | _ => none
  | .clear => some { s with storage := { s.storage with jobs := .empty } }

/-- The next `n` calls of caller `i`, all at one instant. -/
def Event.steps (i n : Nat) (now : DateTime) : List Event :=
  List.replicate n (.step i (.at now .elapsed))

abbrev Next (s : Callers) (e : Event) (t : Callers) : Prop := s.next e = some t

/-- What one step can be. -/
inductive Moves (s : Callers) : Event → Callers → Prop
  | called {ρ : Type} (method : Method ρ) :
      Moves s (.call method) { s with callers := s.callers ++ [⟨method, some method.program⟩] }
  | stepped {i : Nat} {env : Env} {ρ τ : Type} {method : Method ρ} {op : Call τ}
      {k : τ → Prog Call (Except StorageError ρ)} {reply : τ} {storage : MemoryStorage}
      (hi : s.callers[i]? = some ⟨method, some (.call op k)⟩)
      (hop : op.perform env s.storage = some (reply, storage)) :
      Moves s (.step i env) ⟨storage, s.callers.set i ⟨method, some (k reply)⟩⟩
  | unwound {i : Nat} {env : Env} {ρ τ : Type} {method : Method ρ} {op : Call τ}
      {k : τ → Prog Call (Except StorageError ρ)}
      (hi : s.callers[i]? = some ⟨method, some (.call op k)⟩)
      (hop : op.perform env s.storage = none) :
      Moves s (.step i env) { s with callers := s.callers.set i ⟨method, none⟩ }
  | cleared : Moves s .clear { s with storage := { s.storage with jobs := .empty } }

variable {s t : Callers} {e : Event}

theorem next_moves (h : Next s e t) : Moves s e t := by
  cases e with
  | call method =>
    cases h
    exact .called method
  | step i env =>
    simp only [Next, next] at h
    split at h
    · rename_i hi
      split at h <;> cases h
      · exact .stepped hi ‹_›
      · exact .unwound hi ‹_›
    · cases h
  | clear =>
    cases h
    exact .cleared

/-- Every caller keeps to the sections of its method. -/
def Kept (s : Callers) : Prop :=
  ∀ c ∈ s.callers, ∀ program, c.program = some program →
    program.wp c.method.contract (fun _ _ => True) ()

theorem kept_idle (storage : MemoryStorage) : (idle storage).Kept :=
  fun _ h => absurd h List.not_mem_nil

theorem Kept.next (hs : s.Kept) (h : Next s e t) : t.Kept := by
  cases next_moves h with
  | called method =>
    intro c hc program hp
    rcases List.mem_append.mp hc with hc | hc
    · exact hs c hc program hp
    · obtain rfl := List.mem_singleton.mp hc
      cases hp
      exact method.program_keeps
  | stepped hi hop =>
    intro c hc program hp
    rcases List.mem_or_eq_of_mem_set hc with hc | rfl
    · exact hs c hc program hp
    · cases hp
      exact (hs _ (List.mem_of_getElem? hi) _ rfl).2 _ () trivial
  | unwound hi hop =>
    intro c hc program hp
    rcases List.mem_or_eq_of_mem_set hc with hc | rfl
    · exact hs c hc program hp
    · cases hp
  | cleared => exact hs

theorem kept_run {storage : MemoryStorage} {tr : List (Step Callers Event)}
    (hr : Run Next (idle storage) tr t) : t.Kept :=
  hr.invariant (fun _ s => s.Kept) (kept_idle storage) fun _ _ _ _ _ hs h => hs.next h

theorem Kept.section (hs : s.Kept) {i : Nat} {ρ τ : Type} {method : Method ρ} {op : Call τ}
    {k : τ → Prog Call (Except StorageError ρ)}
    (hi : s.callers[i]? = some ⟨method, some (.call op k)⟩) : method.keepsTo op :=
  (hs _ (List.mem_of_getElem? hi) _ rfl).1

end Callers
end Qml
