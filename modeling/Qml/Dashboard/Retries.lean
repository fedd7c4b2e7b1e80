import Qml.Lib.Pool
import Qml.Memory.HandOuts
import Qml.Runtime.Steps

namespace Qml
open Lib

/-- What a retry has seen: the copy it read, and whether its write was applied.
Bookkeeping for the proofs, computed from the calls it makes. -/
structure Retry where
  copy : Option Job
  applied : Bool

namespace Retry

def none : Retry := ⟨.none, false⟩

def after (seen : Retry) : {ρ : Type} → Call ρ → ρ → Retry
  | _, .storage (.get _), .ok found => { seen with copy := found }
  | _, .storage (.updateIfState ..), .ok applied => { seen with applied := applied }
  | _, _, _ => seen

/-- The copy of job `id` that a retry writes: the one it read, enqueued again. -/
def Writes (seen : Retry) (id : String) (job : Job) : Prop :=
  ∃ c now, seen.copy = some c ∧ c.id = id ∧ job = { c with state := .enqueued now c.queue }

end Retry

/-- A retry of one job reads it and writes the copy back once, over a stored
`Failed` only. -/
def Retrying (id : String) : Contract Call Retry where
  may seen _ op :=
    match op with
    | .now => True
    | .storage (.get jobId) => jobId = id
    | .storage (.updateIfState job expected) =>
      expected = .failed ∧ seen.applied = false ∧ seen.Writes id job
    | _ => False
  step seen _ op reply seen' := Answers op reply ∧ seen' = seen.after op reply

/-- It returns `Ok(true)` when the write was applied, and only then. -/
theorem retryJob_retrying (id : String) : (DashboardService.retryJob id).wp (Retrying id)
    (fun result seen => result = .ok true ↔ seen.applied = true) .none := by
  simp only [DashboardService.retryJob, Call.enter, Call.readNow, Prog.ask_bind]
  refine ⟨rfl, ?_⟩
  rintro (e | _ | job) _ ⟨hanswer, rfl⟩
  · simp [Retry.after, Retry.none]
  · simp [Retry.after, Retry.none]
  · change job.id = id at hanswer
    simp only
    split
    · refine ⟨trivial, ?_⟩
      rintro now _ ⟨-, rfl⟩
      refine ⟨⟨rfl, rfl, job, now, rfl, hanswer, rfl⟩, ?_⟩
      rintro (e | applied) _ ⟨-, rfl⟩
      · simp [Retry.after, Retry.none, Except.mapError]
      · simp [Retry.after, Except.mapError]
    · simp [Retry.after, Retry.none]

theorem Retry.Writes.enqueued {seen : Retry} {id : String} {job : Job} (h : seen.Writes id job) :
    job.id = id ∧ job.state.kind = .enqueued := by
  obtain ⟨c, now, -, hid, rfl⟩ := h
  exact ⟨hid, rfl⟩

namespace MemoryStorage

/-- Whether the job is stored in the `Failed` state. -/
def isFailed (s : MemoryStorage) (id : String) : Bool :=
  (s.get id).any fun job => decide (job.state.kind = .failed)

/-- A compare-and-swap from `Failed` writes over a `Failed` job or not at all. -/
theorem updateIfState_failed {s t : MemoryStorage} {job : Job}
    {reply : Except StorageError Bool} (h : s.updateIfState job .failed = (reply, t)) :
    reply = .ok true ∧ s.isFailed job.id = true ∧ t = { s with jobs := s.jobs.insert job } ∨
      reply ≠ .ok true ∧ t = s := by
  unfold updateIfState at h
  split at h
  · cases h
    exact .inr ⟨by simp, rfl⟩
  · rename_i old hold
    split at h <;> cases h
    · exact .inr ⟨by simp, rfl⟩
    · rename_i hkind
      refine .inl ⟨rfl, ?_, rfl⟩
      simpa [isFailed, get, hold] using hkind

theorem isFailed_insert {s : MemoryStorage} {job : Job} {id : String} :
    isFailed { s with jobs := s.jobs.insert job } id =
      if id = job.id then decide (job.state.kind = .failed) else s.isFailed id := by
  simp only [isFailed, get, Jobs.get?_insert]
  split <;> rfl

end MemoryStorage

/-- What one call of a retry may do: write the copy over a `Failed` job, once, or
leave the storage alone. -/
inductive Retry.Steps (id : String) (s : MemoryStorage) (seen : Retry) :
    MemoryStorage → Retry → Prop
  | quiet {seen' : Retry} (happlied : seen'.applied = seen.applied) : Steps id s seen s seen'
  | wrote {seen' : Retry} {job : Job} (hfailed : s.isFailed id = true)
      (hjob : seen.Writes id job) (hbefore : seen.applied = false)
      (hafter : seen'.applied = true) :
      Steps id s seen { s with jobs := s.jobs.insert job } seen'

/-- Every call that the contract allows is one of these. -/
theorem Retry.steps {id : String} {seen : Retry} {op : Call ρ} {env : Env}
    {s t : MemoryStorage} {reply : ρ} (hmay : (Retrying id).may seen op)
    (hop : op.perform env s = some (reply, t)) : Steps id s seen t (seen.after op reply) := by
  cases op with
  | now =>
    cases hop
    exact .quiet rfl
  | random | execute | await | hook | panic => exact hmay.elim
  | storage op =>
    cases op
    case get jobId =>
      cases hop
      exact .quiet rfl
    case updateIfState job expected =>
      obtain ⟨rfl, hbefore, hwrites⟩ := hmay
      rcases MemoryStorage.updateIfState_failed (Option.some.inj hop) with
        ⟨rfl, hfailed, rfl⟩ | ⟨hreply, rfl⟩
      · rw [hwrites.enqueued.1] at hfailed
        exact .wrote hfailed hwrites hbefore rfl
      · refine .quiet ?_
        rcases reply with _ | _ | _
        · rfl
        · exact hbefore.symm
        · exact absurd rfl hreply
    all_goals exact hmay.elim

/-- A call of `retry_job` and what is left of its program. -/
structure RetryCall where
  jobId : String
  program : Prog Call (Except QmlError Bool)
  seen : Retry

/-- Whether the call is one of job `id` that has returned `Ok(true)`. -/
def RetryCall.retried (id : String) (call : RetryCall) : Bool :=
  decide (call.jobId = id) &&
    match call.program with
    | .pure (.ok retried) => retried
    | _ => false

/-- Any number of calls of `retry_job` over one storage. -/
structure Desk where
  storage : MemoryStorage
  calls : List RetryCall

namespace Desk

def idle (storage : MemoryStorage) : Desk := ⟨storage, []⟩

/-- A user asks for a retry, one of the calls goes on, or any other task enters a
section of the storage: a claim, an outcome, a promotion, a recovery, a deletion. -/
inductive Event
  | retry (jobId : String)
  | step (i : Nat) (env : Env)
  | enter (e : MemoryStorage.Entry)

def next (s : Desk) : Event → Option Desk
  | .retry jobId =>
    some { s with calls := s.calls ++ [⟨jobId, DashboardService.retryJob jobId, .none⟩] }
  | .step i env =>
    match s.calls[i]? with
    | some ⟨jobId, .call op k, seen⟩ =>
      (op.perform env s.storage).map fun (reply, storage) =>
        ⟨storage, s.calls.set i ⟨jobId, k reply, seen.after op reply⟩⟩
    | _ => none
  | .enter e => (s.storage.enter e).map fun storage => { s with storage := storage }

abbrev Next (s : Desk) (e : Event) (t : Desk) : Prop := s.next e = some t

/-- What one step can be. -/
inductive Moves (s : Desk) : Event → Desk → Prop
  | asked (jobId : String) : Moves s (.retry jobId)
      { s with calls := s.calls ++ [⟨jobId, DashboardService.retryJob jobId, .none⟩] }
  | called {i : Nat} {env : Env} {call : RetryCall} {ρ : Type} {op : Call ρ}
      {k : ρ → Prog Call (Except QmlError Bool)} {reply : ρ} {storage : MemoryStorage}
      (hcall : s.calls[i]? = some call) (hprogram : call.program = .call op k)
      (hop : op.perform env s.storage = some (reply, storage)) :
      Moves s (.step i env) ⟨storage, s.calls.set i
        { call with program := k reply, seen := call.seen.after op reply }⟩
  | entered {e : MemoryStorage.Entry} {storage : MemoryStorage}
      (henter : MemoryStorage.Enters s.storage e storage) :
      Moves s (.enter e) { s with storage := storage }

variable {s t : Desk} {e : Event} {id : String}

theorem next_moves (h : Next s e t) : Moves s e t := by
  cases e with
  | retry jobId =>
    cases h
    exact .asked jobId
  | step i env =>
    simp only [Next, next] at h
    split at h
    · rename_i hcall
      obtain ⟨⟨reply, storage⟩, hop, rfl⟩ := Option.map_eq_some_iff.mp h
      exact .called hcall rfl hop
    · cases h
  | enter e =>
    obtain ⟨storage, henter, rfl⟩ := Option.map_eq_some_iff.mp h
    exact .entered henter

/-- Every call keeps to the contract of its retry. -/
def Lawful (s : Desk) : Prop :=
  ∀ (i : Nat) (call : RetryCall), s.calls[i]? = some call →
    call.program.wp (Retrying call.jobId)
      (fun result seen => result = .ok true ↔ seen.applied = true) call.seen

theorem Lawful.next (hs : s.Lawful) (h : Next s e t) : t.Lawful := by
  intro i call hi
  cases next_moves h with
  | asked jobId =>
    rcases join_cases hi with ⟨-, rfl⟩ | hi
    · exact retryJob_retrying jobId
    · exact hs i call hi
  | called hcall hprogram hop =>
    rcases set_cases hi with ⟨-, rfl⟩ | ⟨-, hi⟩
    · have hkeeps := hs _ _ hcall
      rw [hprogram] at hkeeps
      exact hkeeps.2 _ _ ⟨Call.answers hop, rfl⟩
    · exact hs i call hi
  | entered => exact hs i call hi

theorem Lawful.writes {i : Nat} {env : Env} {call : RetryCall} (hs : s.Lawful)
    (h : Next s (.step i env) t) (hcall : s.calls[i]? = some call) :
    t.storage = s.storage ∨ ∃ job, job.id = call.jobId ∧ s.storage.isFailed job.id = true ∧
      t.storage = { s.storage with jobs := s.storage.jobs.insert job } := by
  have hkeeps := hs i call hcall
  cases next_moves h with
  | @called _ _ _ _ op k reply storage hcall' hprogram hop =>
    cases hcall.symm.trans hcall'
    rw [hprogram] at hkeeps
    have hsteps := Retry.steps hkeeps.1 hop
    generalize call.seen.after op reply = seen' at hsteps
    cases hsteps with
    | quiet => exact .inl rfl
    | @wrote _ job hfailed hjob =>
      have hid := hjob.enqueued.1
      exact .inr ⟨job, hid, by rw [hid]; exact hfailed, rfl⟩

/-- How many retries of the job have returned `Ok(true)`. -/
def retried (s : Desk) (id : String) : Nat := s.calls.countP fun call => call.retried id

/-- How many retries of the job have written. -/
def applied (s : Desk) (id : String) : Nat :=
  s.calls.countP fun call => decide (call.jobId = id) && call.seen.applied

theorem Lawful.retried_le (hs : s.Lawful) : s.retried id ≤ s.applied id := by
  refine List.countP_mono_left fun call hcall h => ?_
  obtain ⟨i, hi⟩ := List.getElem?_of_mem hcall
  have hkeeps := hs i call hi
  rw [RetryCall.retried, Bool.and_eq_true] at h
  rw [Bool.and_eq_true]
  refine ⟨h.1, ?_⟩
  have hreturned := h.2
  split at hreturned
  · rename_i hprogram
    rw [hprogram, Prog.wp_pure] at hkeeps
    exact hkeeps.mp (by rw [hreturned])
  · cases hreturned

/-- Whether the job enters `Failed` in this step. -/
def fails (x : Step Desk Event) (id : String) : Bool :=
  !x.before.storage.isFailed id && x.after.storage.isFailed id

/-- How often the job has entered `Failed`, by the start of the run and in it. -/
def failures (storage : MemoryStorage) (tr : List (Step Desk Event)) (id : String) : Nat :=
  (storage.isFailed id).toNat + tr.countP fun x => fails x id

/-- Each write of a retry uses up one failure. -/
theorem applied_next (hs : s.Lawful) (h : Next s e t) :
    t.applied id + (t.storage.isFailed id).toNat ≤
      s.applied id + (s.storage.isFailed id).toNat + (fails ⟨s, e, t⟩ id).toNat := by
  cases next_moves h with
  | asked jobId => simp [applied, Retry.none]
  | @called i env call ρ op k reply storage hcall hprogram hop =>
    have hkeeps := hs _ _ hcall
    rw [hprogram] at hkeeps
    have hcount := countP_set (b := { call with
        program := k reply, seen := call.seen.after op reply })
      (fun call => decide (call.jobId = id) && call.seen.applied) hcall
    have hsteps := Retry.steps hkeeps.1 hop
    simp only at hcount
    generalize call.seen.after op reply = seen' at hcount hsteps ⊢
    cases hsteps with
    | quiet happlied =>
      rw [happlied] at hcount
      simp only [applied]
      omega
    | @wrote _ job hfailed hjob hbefore hafter =>
      rw [hbefore, hafter] at hcount
      have hother : MemoryStorage.isFailed { s.storage with jobs := s.storage.jobs.insert job } id =
          if id = job.id then decide (job.state.kind = .failed) else s.storage.isFailed id :=
        MemoryStorage.isFailed_insert
      rw [hjob.enqueued.1, hjob.enqueued.2] at hother
      simp only [applied]
      by_cases hid : call.jobId = id
      · subst hid
        simp only [if_true] at hother
        simp [hother, hfailed] at hcount ⊢
        omega
      · rw [if_neg fun h => hid h.symm] at hother
        simp [hother, hid] at hcount ⊢
        omega
  | @entered entry storage henter =>
    simp only [applied, fails]
    cases s.storage.isFailed id <;> cases storage.isFailed id <;> simp

variable {storage : MemoryStorage} {tr : List (Step Desk Event)}

theorem lawful_run (hr : Run Next (idle storage) tr s) : s.Lawful :=
  hr.invariant (fun _ s => s.Lawful) (fun _ _ h => by cases h) fun _ _ _ _ _ hs h => hs.next h

theorem applied_run (hr : Run Next (idle storage) tr s) :
    s.applied id + (s.storage.isFailed id).toNat ≤ failures storage tr id := by
  induction hr with
  | nil => simp [applied, idle, failures]
  | @snoc tr t u e run h ih =>
    have hnext : u.applied id + (u.storage.isFailed id).toNat ≤
        t.applied id + (t.storage.isFailed id).toNat + (fails ⟨t, e, u⟩ id).toNat :=
      applied_next (lawful_run run) h
    have hcount : failures storage (tr ++ [⟨t, e, u⟩]) id =
        failures storage tr id + (fails ⟨t, e, u⟩ id).toNat := by
      simp only [failures, List.countP_append, List.countP_singleton]
      cases fails ⟨t, e, u⟩ id <;> rfl
    omega

/-- Each step of a retry writes over a stored `Failed` job, or not at all. -/
def NeverStomps (tr : List (Step Desk Event)) : Prop :=
  ∀ x ∈ tr, ∀ i env call, x.label = .step i env → x.before.calls[i]? = some call →
    x.after.storage = x.before.storage ∨
    ∃ job, job.id = call.jobId ∧ x.before.storage.isFailed job.id = true ∧
      x.after.storage = { x.before.storage with jobs := x.before.storage.jobs.insert job }

/-- Whatever other tasks do in between, no retry stomps on a job that has moved on,
and no more retries of a job return `Ok(true)` than times it has failed. -/
theorem retries_never_stomp (hr : Run Next (idle storage) tr s) :
    NeverStomps tr ∧ ∀ id, s.retried id ≤ failures storage tr id := by
  refine ⟨fun x hx i env call hlabel hcall => ?_, fun id => ?_⟩
  · obtain ⟨pre, -, hpre, hnext⟩ := hr.of_mem hx
    rw [hlabel] at hnext
    exact (lawful_run hpre).writes hnext hcall
  · have hreturned : s.retried id ≤ s.applied id := (lawful_run hr).retried_le
    have happlied : s.applied id + (s.storage.isFailed id).toNat ≤ failures storage tr id :=
      applied_run hr
    omega

/-- Two users retry a failed job, and a worker claims it between their writes. -/
def twoRetries : List Event :=
  let env := Env.at 0 .elapsed
  let job := { Job.new "job" 0 "send_email" .null with state := .failed 0 "timed out" none }
  [.enter ⟨.insertJob job, env.toReading⟩, .retry "job", .retry "job", .step 0 env, .step 1 env,
    .step 1 env, .step 0 env, .step 0 env, .enter ⟨.lockAvailableJob "w" none, env.toReading⟩,
    .step 1 env]

theorem retries_never_stomp_twoRetries : ∃ tr s, Run Next (idle (.empty none)) tr s ∧
    tr.length = 10 ∧ s.retried "job" = 1 ∧ failures (.empty none) tr "job" = 1 ∧
    NeverStomps tr ∧ ∀ id, s.retried id ≤ failures (.empty none) tr id := by
  obtain ⟨s, hr⟩ := replay_run next (idle (.empty none)) twoRetries
  refine ⟨_, s, hr, by decide +kernel, ?_, by decide +kernel, retries_never_stomp hr⟩
  rw [hr.eq_last]
  decide +kernel

end Desk
end Qml
