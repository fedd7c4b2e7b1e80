import Qml.Runtime.Attempts

namespace Qml
open Lib Call

/-- Whether the worker returned success, and within its time. -/
def Execution.succeeded : Execution → Bool
  | .finished (.ok (.success ..)) => true
  | _ => false

/-- What a task knows of the execution of the job it claimed last, after a call and the
reply to it. -/
def Call.hear (heard : Option Execution) : {ρ : Type} → Call ρ → ρ → Option Execution
  | _, .await, execution => some execution
  | _, .storage (.lockAvailableJob ..), _ => none
  | _, _, _ => heard

/-- The programs that store a success when they have heard of one, and only then. -/
def truthful : Contract Call (Option Execution) where
  may heard _ op := match op with
    | .storage (.update job) => job.state.kind = .succeeded ↔ heard.any Execution.succeeded = true
    | _ => True
  step heard _ op reply heard' := Answers op reply ∧ heard' = op.hear heard reply

abbrev Truthful (program : Prog Call α) (heard : Option Execution) : Prop :=
  program.wp truthful (fun _ _ => True) heard

namespace Truthful
variable {heard : Option Execution} {p : JobProcessor} {job : Job}

theorem silent {program : Prog Call α} {Q : α → Option Execution → Prop} (h : Silent program)
    (hq : ∀ a, Q a heard) : program.wp truthful Q heard := by
  refine h.wp_same (fun ψ ρ op hop => ?_) (fun ψ ρ op reply ψ' hop hstep => ?_) heard hq
  · cases op with
    | now | random | hook | panic => trivial
    | execute | await | storage => cases hop
  · obtain ⟨-, rfl⟩ := hstep
    cases op with
    | now | random | hook | panic => rfl
    | execute | await | storage => cases hop

theorem silent_bind {program : Prog Call α} {next : α → Prog Call β} (h : Silent program)
    (hn : ∀ a, Truthful (next a) heard) : Truthful (program >>= next) heard :=
  (Prog.wp_bind ..).mpr (silent h hn)

theorem save (h : job.state.kind = .succeeded ↔ heard.any Execution.succeeded = true) :
    Truthful (JobProcessor.save job) heard :=
  ⟨h, fun _ _ _ => trivial⟩

/-- A transition that is refused stores nothing. -/
theorem applyStateChange_bind {s : JobState} {next : Except QmlError Job → Prog Call β}
    (herror : ∀ e, Truthful (next (.error e)) heard)
    (hn : Truthful (next (.ok { job with state := s })) heard) :
    Truthful (p.applyStateChange job s >>= next) heard := by
  refine (Prog.wp_bind ..).mpr ?_
  unfold JobProcessor.applyStateChange
  cases hset : job.setState s with
  | error e => exact herror e
  | ok changed =>
    obtain ⟨-, rfl⟩ := Job.setState_ok.mp hset
    exact (Prog.wp_bind ..).mpr (silent (Silent.fireStateChangeHook ..) fun _ => hn)

theorem failJobPermanently (hheard : heard.any Execution.succeeded = false) (error : String)
    (trace : Option String) : Truthful (p.failJobPermanently job error trace) heard := by
  unfold JobProcessor.failJobPermanently
  split
  · trivial
  · refine silent_bind Silent.readNow fun now => applyStateChange_bind (fun _ => trivial) ?_
    exact silent_bind (Silent.fromNow _) fun _ => save (by simp [hheard, JobState.kind])

theorem completeJobSuccessfully (hheard : heard.any Execution.succeeded = true)
    (result : Option String) (duration : UInt64) (metadata : Dict String String) :
    Truthful (p.completeJobSuccessfully job result duration metadata) heard := by
  unfold JobProcessor.completeJobSuccessfully
  split
  · trivial
  · refine silent_bind Silent.readNow fun now => applyStateChange_bind (fun _ => trivial) ?_
    refine silent_bind (Silent.fromNow _) fun expiresAt => save ?_
    obtain ⟨m, hm⟩ := JobProcessor.addExecutionMetadata_eq
      { job with state := .succeeded now duration result, expiresAt := some expiresAt }
      metadata.entries
    simp [hm, hheard, JobState.kind]

theorem handleJobRetry (hheard : heard.any Execution.succeeded = false) (error : String)
    (retryAt : Option DateTime) : Truthful (p.handleJobRetry job error retryAt) heard := by
  unfold JobProcessor.handleJobRetry
  split
  · trivial
  · split
    · exact failJobPermanently hheard error none
    · refine silent_bind (Silent.retryTime _ _ _) fun time => ?_
      refine silent_bind Silent.readNow fun now => ?_
      cases hset : job.setState (.awaitingRetry now time error) with
      | error e => trivial
      | ok changed =>
        obtain ⟨-, rfl⟩ := Job.setState_ok.mp hset
        refine silent_bind (Silent.fireStateChangeHook ..) fun _ => save ?_
        simp [hheard, JobState.kind]

/-- What is stored of an execution is what it ended in. -/
theorem conclude (start : DateTime) (execution : Execution) :
    Truthful (p.conclude job start execution) (some execution) := by
  cases execution with
  | elapsed =>
    change Truthful (p.handleJobTimeout job) _
    unfold JobProcessor.handleJobTimeout
    split
    · exact handleJobRetry rfl _ _
    · exact failJobPermanently rfl _ _
  | finished outcome =>
    refine silent_bind Silent.readNow fun now => ?_
    rcases outcome with e | (_ | _ | _)
    · change Truthful (p.handleExecutionError job e) _
      unfold JobProcessor.handleExecutionError
      split
      · exact handleJobRetry rfl _ _
      · exact failJobPermanently rfl _ _
    · exact completeJobSuccessfully rfl _ _ _
    · exact handleJobRetry rfl _ _
    · exact failJobPermanently rfl _ _

theorem execute : Truthful (p.execute job) heard := by
  refine silent_bind (Silent.readNow.bind fun _ => trivial) fun context => ?_
  refine silent_bind Silent.readNow fun start => ?_
  split
  · exact ⟨trivial, fun reply => by cases reply⟩
  · refine ⟨trivial, fun _ _ _ => ⟨trivial, ?_⟩⟩
    rintro execution _ ⟨-, rfl⟩
    exact conclude start execution

/-- A claimed job without a worker fails, and no execution is heard of. -/
theorem processJob (h : job.state.kind = .processing) : Truthful (p.processJob job) none := by
  obtain ⟨t, worker, server, hstate⟩ := JobState.processing_of_kind h
  change Truthful (if !p.workerRegistry job.method then p.failJobPermanently job.begun _ none
    else p.ensureProcessing job.begun >>= _) none
  split
  · exact failJobPermanently rfl _ _
  · rw [ensureProcessing_eq hstate]
    exact execute

theorem bind {program : Prog Call α} {next : α → Prog Call β} (hp : Truthful program heard)
    (hn : ∀ a heard, Truthful (next a) heard) : Truthful (program >>= next) heard :=
  (Prog.wp_bind ..).mpr (Prog.wp_mono (fun a heard _ => hn a heard) hp)

/-- Each claim starts afresh, whatever was heard of the job before. -/
theorem workerTick (queues : List String) : Truthful (workerTick p queues) heard := by
  refine ⟨trivial, fun _ _ _ => ⟨trivial, ?_⟩⟩
  rintro claimed _ ⟨hclaimed, rfl⟩
  rcases claimed with _ | _ | job
  · trivial
  · trivial
  · obtain ⟨t, hstate⟩ := hclaimed
    have hkind : job.state.kind = .processing := by
      rw [hstate]
      rfl
    exact (processJob hkind).bind fun _ _ => trivial

theorem polling {tick : Prog Call Unit} (h : ∀ heard, Truthful tick heard) (rounds : Nat) :
    Truthful (polling tick rounds) heard := by
  induction rounds generalizing heard with
  | zero => trivial
  | succ rounds ih => exact (h heard).bind fun _ _ => ih

end Truthful

namespace Runtime
variable {storage : MemoryStorage} {s : Runtime} {tr : List (Step Runtime Action)} {i : Nat}

/-- What task `i` knows of the execution of the job it claimed last, after one more step. -/
def hears (i : Nat) (heard : Option Execution) (x : Step Runtime Action) : Option Execution :=
  match x.label with
  | .step j env =>
    if j = i then
      match x.before.pending i with
      | some ⟨_, .await⟩ => some env.execution
      | some ⟨_, .storage (.lockAvailableJob ..)⟩ => none
      | _ => heard
    else heard
  | _ => heard

/-- How the execution that task `i` awaited since its last claim has ended, if it has. -/
def heard (i : Nat) (tr : List (Step Runtime Action)) : Option Execution :=
  tr.foldl (hears i) none

theorem heard_snoc (x : Step Runtime Action) : heard i (tr ++ [x]) = hears i (heard i tr) x := by
  simp [heard]

theorem hears_other {t : Runtime} {j : Nat} {env : Env} {told : Option Execution} (h : i ≠ j) :
    hears i told ⟨s, .step j env, t⟩ = told := by
  simp [hears, Ne.symm h]

theorem hears_called {t : Runtime} {env : Env} {op : Call ρ} {told : Option Execution} {reply : ρ}
    {storage : MemoryStorage} (hcall : s.Calls i op)
    (hop : op.perform env s.storage = some (reply, storage)) :
    hears i told ⟨s, .step i env, t⟩ = op.hear told reply := by
  simp only [hears, if_true, hcall.pending]
  cases op with
  | now | random | execute | hook | panic => rfl
  | await =>
    cases hop
    rfl
  | storage op => cases op <;> rfl

/-- Every worker stores of its job what it has heard of it. -/
theorem truthful_run (hr : Run Next (idle storage) tr s) {task : Task}
    {p : JobProcessor} {queues : List String} {rounds : Nat} (ht : s.tasks[i]? = some task)
    (ha : task.alive = true) (hworker : task.routine = .worker p queues rounds) :
    Truthful task.program (heard i tr) := by
  induction hr generalizing i task with
  | nil => cases ht
  | @snoc tr u v a run h ih =>
    rw [heard_snoc]
    cases step_moves h with
    | spawned r =>
      rcases join_cases ht with ⟨-, rfl⟩ | hj
      · subst hworker
        exact Truthful.polling (fun _ => Truthful.workerTick queues) rounds
      · exact ih hj ha hworker
    | aborted ht' =>
      rcases set_cases ht with ⟨rfl, rfl⟩ | ⟨-, hj⟩
      · cases ha
      · exact ih hj ha hworker
    | panicked ht' =>
      rcases set_cases ht with ⟨rfl, rfl⟩ | ⟨hij, hj⟩
      · cases ha
      · rw [hears_other hij]
        exact ih hj ha hworker
    | called ht' ha' hp hop =>
      rcases set_cases ht with ⟨rfl, rfl⟩ | ⟨hij, hj⟩
      · have hnext := ih ht' ha' hworker
        rw [hp] at hnext
        rw [hears_called ⟨_, _, ht', ha', hp⟩ hop]
        exact hnext.2 _ _ ⟨Call.answers hop, rfl⟩
      · rw [hears_other hij]
        exact ih hj ha hworker

/-- What is stored as the outcome of a job is a success if its execution was one. -/
theorem Calls.truthful {job : Job} (hcall : s.Calls i (.storage (.update job)))
    (hr : Run Next (idle storage) tr s) :
    job.state.kind = .succeeded ↔ (heard i tr).any Execution.succeeded = true := by
  obtain ⟨task, p, queues, rounds, c, ht, hworker, -⟩ :=
    hcall.concluding (lawful_run (lawful_idle storage) hr)
  obtain ⟨task', k, ht', ha, hp⟩ := hcall
  cases ht.symm.trans ht'
  have htruth := truthful_run hr ht ha hworker
  rw [hp] at htruth
  exact htruth.1

end Runtime
end Qml
