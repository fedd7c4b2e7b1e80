import Qml.Runtime.Holders

namespace Qml
open Lib Call

/-- Whether an execution that begins with this call is told of no earlier one's error. -/
def Call.unaware : {ρ : Type} → Call ρ → Prop
  | _, .execute _ context => context.previousException = none
  | _, _ => True

/-- Calls that do not begin an execution. -/
def Call.nonstart : {ρ : Type} → Call ρ → Prop
  | _, .execute .. => False
  | _, _ => True

namespace Call

theorem nonstart_of_silent {ρ : Type} (op : Call ρ) (h : op.silent) : op.nonstart := by
  cases op with
  | execute => cases h
  | _ => trivial

theorem unaware_of_nonstart {ρ : Type} (op : Call ρ) (h : op.nonstart) : op.unaware := by
  cases op with
  | execute => cases h
  | _ => trivial

end Call

/-- The programs whose executions are told of no earlier error, given what the storage
promises about its replies. -/
def oblivious : Contract Call Unit where
  may _ _ op := op.unaware
  step _ _ op reply _ := Answers op reply

abbrev Oblivious (program : Prog Call α) : Prop :=
  program.wp oblivious (fun _ _ => True) ()

namespace Oblivious

theorem of_nonstart {program : Prog Call α} (h : program.Every Call.nonstart) :
    Oblivious program :=
  h.wp (fun _ _ => Call.unaware_of_nonstart) (fun _ _ => trivial) ()

theorem bind {program : Prog Call α} {next : α → Prog Call β} (hp : Oblivious program)
    (hn : ∀ a, Oblivious (next a)) : Oblivious (program >>= next) :=
  (Prog.wp_bind ..).mpr (Prog.wp_mono (fun a _ _ => hn a) hp)

end Oblivious

section
variable {p : JobProcessor} {job : Job}

theorem Silent.nonstart {program : Prog Call α} (h : Silent program) :
    program.Every Call.nonstart :=
  h.mono Call.nonstart_of_silent

theorem save_nonstart : (JobProcessor.save job).Every Call.nonstart :=
  ⟨trivial, fun _ => trivial⟩

theorem failJobPermanently_nonstart (error : String) (trace : Option String) :
    (p.failJobPermanently job error trace).Every Call.nonstart := by
  refine Prog.Every.ite trivial (Silent.readNow.nonstart.bind fun now => ?_)
  refine (Silent.applyStateChange _ _ _).nonstart.bind fun changed => ?_
  cases changed with
  | error e => trivial
  | ok changed => exact (Silent.fromNow _).nonstart.bind fun _ => save_nonstart

theorem completeJobSuccessfully_nonstart (result : Option String) (duration : UInt64)
    (metadata : Dict String String) :
    (p.completeJobSuccessfully job result duration metadata).Every Call.nonstart := by
  refine Prog.Every.ite trivial (Silent.readNow.nonstart.bind fun now => ?_)
  refine (Silent.applyStateChange _ _ _).nonstart.bind fun changed => ?_
  cases changed with
  | error e => trivial
  | ok changed => exact (Silent.fromNow _).nonstart.bind fun _ => save_nonstart

theorem handleJobRetry_nonstart (error : String) (retryAt : Option DateTime) :
    (p.handleJobRetry job error retryAt).Every Call.nonstart := by
  refine Prog.Every.ite trivial (Prog.Every.ite (failJobPermanently_nonstart _ _) ?_)
  refine (Silent.retryTime _ _ _).nonstart.bind fun time => ?_
  refine Silent.readNow.nonstart.bind fun now => ?_
  split
  · trivial
  · exact (Silent.fireStateChangeHook _ _ _).nonstart.bind fun _ => save_nonstart

theorem conclude_nonstart (start : DateTime) (execution : Execution) :
    (p.conclude job start execution).Every Call.nonstart := by
  cases execution with
  | elapsed =>
    exact Prog.Every.ite (handleJobRetry_nonstart _ _) (failJobPermanently_nonstart _ _)
  | finished outcome =>
    refine Silent.readNow.nonstart.bind fun now => ?_
    rcases outcome with e | (_ | _ | _)
    · exact Prog.Every.ite (handleJobRetry_nonstart _ _) (failJobPermanently_nonstart _ _)
    · exact completeJobSuccessfully_nonstart _ _ _
    · exact handleJobRetry_nonstart _ _
    · exact failJobPermanently_nonstart _ _

/-- A job that is processing carries no error of an earlier attempt. -/
theorem extractPreviousException_none (h : job.state.kind = .processing) :
    JobProcessor.extractPreviousException job = none := by
  cases hstate : job.state with
  | processing => rw [JobProcessor.extractPreviousException, hstate]
  | _ =>
    rw [hstate] at h
    cases h

theorem processJob_oblivious (h : job.state.kind = .processing) :
    Oblivious (p.processJob job) := by
  obtain ⟨t, worker, server, hstate⟩ := JobState.processing_of_kind h
  change Oblivious (if !p.workerRegistry job.method then p.failJobPermanently job.begun _ none
    else p.ensureProcessing job.begun >>= _)
  split
  · exact .of_nonstart (failJobPermanently_nonstart _ _)
  · rw [ensureProcessing_eq hstate]
    refine ⟨trivial, fun now _ _ => ⟨trivial, fun start _ _ => ?_⟩⟩
    split
    · exact Oblivious.of_nonstart (Silent.unwind _).nonstart
    · refine ⟨?_, fun _ _ _ => ⟨trivial, fun execution _ _ => ?_⟩⟩
      · change (if _ then _ else _ : WorkerContext).previousException = none
        split
        · exact extractPreviousException_none h
        · rfl
      · exact Oblivious.of_nonstart (conclude_nonstart start execution)

/-- What a claim hands out is processing. -/
theorem workerTick_oblivious (queues : List String) : Oblivious (workerTick p queues) := by
  refine ⟨trivial, fun _ _ _ => ⟨trivial, fun claimed _ hclaimed => ?_⟩⟩
  rcases claimed with _ | _ | job
  · trivial
  · trivial
  · obtain ⟨t, hstate⟩ := hclaimed
    have hkind : job.state.kind = .processing := by
      rw [hstate]
      rfl
    exact (processJob_oblivious hkind).bind fun _ => trivial

theorem polling_oblivious {tick : Prog Call Unit} (h : Oblivious tick) (rounds : Nat) :
    Oblivious (polling tick rounds) := by
  induction rounds with
  | zero => trivial
  | succ rounds ih => exact h.bind fun _ => ih

end

/-- Only workers begin executions, and the program of each is oblivious. -/
theorem Routine.program_oblivious (r : Routine) : Oblivious r.program := by
  by_cases hworker : ∃ p queues rounds, r = .worker p queues rounds
  · obtain ⟨p, queues, rounds, rfl⟩ := hworker
    exact polling_oblivious (workerTick_oblivious queues) rounds
  · refine Prog.wp_weaken (C := r.contract) (fun _ _ => True) (fun {φ _ ρ op} _ hallowed => ?_)
      (fun {φ _ ρ op reply _} _ hanswers => ⟨_, ⟨hanswers, rfl⟩, trivial⟩)
      (fun _ _ _ _ _ => trivial) trivial r.program_ends
    cases op with
    | execute job context =>
      obtain ⟨p, queues, rounds, -, hr, -⟩ := hallowed
      exact absurd ⟨p, queues, rounds, hr⟩ hworker
    | _ => trivial

namespace Runtime
variable {storage : MemoryStorage} {s : Runtime} {tr : List (Step Runtime Action)}
  {x : Step Runtime Action} {id error : String} {n : UInt32} {context : WorkerContext}

theorem oblivious_run (hr : Run Next (idle storage) tr s) :
    ∀ (i : Nat) (task : Task), s.tasks[i]? = some task → Oblivious task.program := by
  induction hr with
  | nil =>
    intro i task ht
    cases ht
  | snoc run h ih =>
    refine tasks_kept Routine.program_oblivious (fun _ h => h)
      (fun {task ρ op k env _ _ reply} hoblivious hp hop => ?_) ih h
    rw [hp] at hoblivious
    exact hoblivious.2 reply () (Call.answers hop)

/-- The job that is stored to be retried in a step, the attempt that ended so, and the text
of its error. -/
def storedRetry (x : Step Runtime Action) : Option (String × UInt32 × String) :=
  match x.label with
  | .step i _ =>
    match x.before.pending i with
    | some ⟨_, .storage (.update job)⟩ =>
      match job.state with
      | .awaitingRetry _ _ lastException => some (job.id, job.attempt, lastException)
      | _ => none
    | _ => none
  | _ => none

/-- The job whose execution begins in a step, and the context that its worker is given. -/
def given (x : Step Runtime Action) : Option (String × WorkerContext) :=
  match x.label with
  | .step i _ =>
    match x.before.pending i with
    | some ⟨_, .execute job context⟩ => some (job.id, context)
    | _ => none
  | _ => none

theorem given_eq_some (h : given x = some (id, context)) :
    ∃ i job, x.before.Calls i (.execute job context) := by
  unfold given at h
  split at h
  · split at h
    · cases h
      exact ⟨_, _, Calls.of_pending ‹_›⟩
    · cases h
  · cases h

theorem given_unaware (hr : Run Next (idle storage) tr s) (hx : x ∈ tr)
    (h : given x = some (id, context)) : context.previousException = none := by
  obtain ⟨pre, -, hpre, -⟩ := hr.of_mem hx
  obtain ⟨i, job, task, k, ht, -, hp⟩ := given_eq_some h
  have hoblivious := oblivious_run hpre i task ht
  rw [hp] at hoblivious
  exact hoblivious.1

/-- What a retry should be told of the attempt before it. -/
structure KnowsPredecessor (context : WorkerContext) (n : UInt32) (error : String) : Prop where
  attempt : context.attempt.toNat = n.toNat + 1
  previousException : context.previousException = some error

/-- In no run is the next execution after a retry told of its predecessor: a worker loop
finds each job in the state of its own claim, which holds no error. The proof does not need
that the attempt before it ended in a retry, nor that there was none in between. -/
theorem predecessor_forgotten {i j : Nat} (hr : Run Next (idle storage) tr s)
    (_hended : tr[i]?.bind storedRetry = some (id, n, error)) (_hlater : i < j)
    (_hnext : ∀ k < j, i < k → (tr[k]?.bind given).map Prod.fst ≠ some id)
    (hagain : tr[j]?.bind given = some (id, context)) :
    context.previousException = none ∧ ¬ KnowsPredecessor context n error := by
  obtain ⟨y, hy, hgiven⟩ := Option.bind_eq_some_iff.mp hagain
  have hnone := given_unaware hr (List.mem_of_getElem? hy) hgiven
  refine ⟨hnone, fun hknows => ?_⟩
  cases hnone.symm.trans hknows.previousException

def lineBusy : Execution := .finished (.error (.workerError "line busy"))

/-- A worker whose first attempt fails on the line, before a policy of one retry. -/
def firstAttempt : List Action :=
  let server := { BackgroundJobServer.new .default fun _ => true with
    retryPolicy := .new (.fixed 0 1) }
  [Action.spawn (.enqueue (Job.new "a" 0 "ring" .null))] ++ Action.calls 0 2 0 .elapsed ++
  [Action.spawn (server.worker "qml-server" 0 2)] ++ Action.calls 1 10 0 lineBusy

/-- The scheduler puts the job back, and the worker claims it again. -/
def promotedAttempt : List Action :=
  firstAttempt ++ [Action.spawn (.scheduler 100 1)] ++
  Action.calls 2 4 (Duration.hours 1) .elapsed ++
  Action.calls 1 10 (Duration.hours 1) lineBusy

theorem predecessor_forgotten_promoted : ∃ tr s context, Run Next (idle (.empty none)) tr s ∧
    tr[13]?.bind storedRetry = some ("a", 1, "Worker error: line busy") ∧
    tr[23]?.bind given = some ("a", context) ∧
    context.previousException = none ∧ ¬ KnowsPredecessor context 1 "Worker error: line busy" := by
  obtain ⟨s, hr⟩ := replay_run step (idle (.empty none)) promotedAttempt
  have hended : (replay step (idle (.empty none)) promotedAttempt)[13]?.bind storedRetry =
      some ("a", 1, "Worker error: line busy") := by decide +kernel
  have hagain : ((replay step (idle (.empty none)) promotedAttempt)[23]?.bind given).map
      Prod.fst = some "a" := by decide +kernel
  obtain ⟨⟨id, context⟩, hgiven, rfl⟩ := Option.map_eq_some_iff.mp hagain
  exact ⟨_, s, context, hr, hended, hgiven,
    predecessor_forgotten hr hended (by decide) (by decide +kernel) hgiven⟩

/-- The worker claims the job again as soon as it is due. -/
def directAttempt : List Action := firstAttempt ++ Action.calls 1 10 (Duration.hours 1) lineBusy

theorem second_attempt_unaware : ∃ tr s context, Run Next (idle (.empty none)) tr s ∧
    tr[13]?.bind storedRetry = some ("a", 1, "Worker error: line busy") ∧
    (∀ k < 18, 13 < k → (tr[k]?.bind given).map Prod.fst ≠ some "a") ∧
    tr[18]?.bind given = some ("a", context) ∧ context.attempt = 2 ∧
    ¬ KnowsPredecessor context 1 "Worker error: line busy" := by
  obtain ⟨s, hr⟩ := replay_run step (idle (.empty none)) directAttempt
  have hagain : ((replay step (idle (.empty none)) directAttempt)[18]?.bind given).map
      (fun told => (told.1, told.2.attempt, told.2.previousException)) = some ("a", 2, none) := by
    decide +kernel
  obtain ⟨⟨id, context⟩, hgiven, heq⟩ := Option.map_eq_some_iff.mp hagain
  obtain ⟨rfl, hattempt, hnone⟩ : id = "a" ∧ context.attempt = 2 ∧
      context.previousException = none := by simpa using heq
  refine ⟨_, s, context, hr, by decide +kernel, by decide +kernel, hgiven, hattempt, ?_⟩
  intro hknows
  cases hnone.symm.trans hknows.previousException

end Runtime
end Qml
