import Qml.Runtime.Discipline

namespace Qml
open Lib Call

/-- A program run under a routine's contract ends with nothing held. -/
def Ends (r : Routine) (program : Prog Call α) (φ : Phase) : Prop :=
  Prog.wp r.contract (fun _ ψ => ψ = .idle) program φ

namespace Ends
variable {r : Routine} {φ : Phase}

theorem pure (a : α) : Ends r (.pure a : Prog Call α) .idle := rfl

theorem unwind (message : String) : Ends r (Call.unwind message : Prog Call α) φ :=
  ⟨trivial, fun reply => by cases reply⟩

theorem bind {program : Prog Call α} {next : α → Prog Call β} (hp : Ends r program φ)
    (hn : ∀ a, Ends r (next a) .idle) : Ends r (program >>= next) φ := by
  rw [Ends, Prog.wp_bind]
  refine Prog.wp_mono (fun a ψ hψ => ?_) hp
  subst hψ
  exact hn a

theorem quiet_bind {program : Prog Call α} {next : α → Prog Call β} (hq : Quiet program)
    (hn : ∀ a, Ends r (next a) φ) : Ends r (program >>= next) φ := by
  rw [Ends, Prog.wp_bind]
  exact hq r _ φ hn

theorem call_bind {op : Call α} {next : α → Prog Call β} (hm : r.Allowed φ op)
    (hn : ∀ a, Answers op a → Ends r (next a) (φ.after op a)) :
    Ends r (Prog.ask op >>= next) φ := by
  refine ⟨hm, ?_⟩
  rintro a _ ⟨ha, rfl⟩
  exact hn a ha

end Ends

section Worker
variable {p : JobProcessor} {queues : List String} {rounds : Nat} {c job : Job} {φ : Phase}
  {t : DateTime} {w n : String}

/-- An allowed transition is one call of the hook, if there is one. -/
theorem applyStateChange_ends {r : Routine} {s : JobState}
    {next : Except QmlError Job → Prog Call β} (ht : job.state.canTransitionTo s = true)
    (hn : Ends r (next (.ok { job with state := s })) φ) :
    Ends r (p.applyStateChange job s >>= next) φ := by
  rw [Ends, Prog.wp_bind, JobProcessor.applyStateChange, Job.setState_ok.mpr ⟨ht, rfl⟩]
  simp only
  rw [Prog.wp_bind]
  exact (Silent.fireStateChangeHook _ _ _).quiet r _ φ fun _ => hn

theorem save_ends (h : (Routine.worker p queues rounds).Allowed φ (.storage (.update job))) :
    Ends (.worker p queues rounds) (JobProcessor.save job) φ :=
  Ends.call_bind h fun _ _ => Ends.pure _

/-- The phases in which a worker may still store an outcome for `c`. -/
def MayConclude (p : JobProcessor) (c : Job) (φ : Phase) : Prop :=
  φ = .executing c ∨ φ = .claimed c ∧ p.workerRegistry c.method = false

theorem outcome_ends (hφ : MayConclude p c φ) (ho : Outcome p c job) :
    Ends (.worker p queues rounds) (JobProcessor.save job) φ :=
  save_ends ⟨p, queues, rounds, c, rfl, ho, hφ⟩

theorem workerContext_attempt {r : Routine} {next : WorkerContext → Prog Call β}
    (hn : ∀ context, context.attempt = c.begun.attempt → Ends r (next context) φ) :
    Ends r (p.workerContext c.begun >>= next) φ := by
  rw [Ends, Prog.wp_bind]
  refine Silent.readNow.quiet r _ φ fun now => hn _ ?_
  split
  · rfl
  · rename_i hle
    have h1 := Job.bump_pos c.attempt
    have h2 : (Job.bump c.attempt).toNat ≤ 1 := UInt32.not_lt.mp hle
    have h3 : (1 : UInt32).toNat = 1 := rfl
    have h4 : (1 : UInt32).toNat = (Job.bump c.attempt).toNat := by omega
    exact UInt32.toNat_inj.mp h4

variable (hc : c.state = .processing t w n) (hφ : MayConclude p c φ)
include hc

theorem begun_state : c.begun.state = .processing t w n := hc

theorem not_final : ¬ c.begun.state.isFinal = true := by
  rw [begun_state hc]
  simp [JobState.isFinal]

include hφ

theorem failJobPermanently_ends (error : String) (trace : Option String) :
    Ends (.worker p queues rounds) (p.failJobPermanently c.begun error trace) φ := by
  rw [JobProcessor.failJobPermanently, if_neg (not_final hc)]
  refine Ends.quiet_bind Silent.readNow.quiet fun now => applyStateChange_ends ?_ ?_
  · rw [begun_state hc]
    rfl
  · exact Ends.quiet_bind (Silent.fromNow _).quiet fun e =>
      outcome_ends hφ (.failed now error trace e)

theorem completeJobSuccessfully_ends (result : Option String) (duration : UInt64)
    (metadata : Dict String String) :
    Ends (.worker p queues rounds)
      (p.completeJobSuccessfully c.begun result duration metadata) φ := by
  rw [JobProcessor.completeJobSuccessfully, if_neg (not_final hc)]
  refine Ends.quiet_bind Silent.readNow.quiet fun now => applyStateChange_ends ?_ ?_
  · rw [begun_state hc]
    rfl
  · refine Ends.quiet_bind (Silent.fromNow _).quiet fun e => ?_
    obtain ⟨m, hm⟩ := JobProcessor.addExecutionMetadata_eq
      { c.begun with state := .succeeded now duration result, expiresAt := some e }
      metadata.entries
    simp only [hm]
    exact outcome_ends hφ (.succeeded now duration result e m)

theorem handleJobRetry_ends (error : String) (retryAt : Option DateTime) :
    Ends (.worker p queues rounds) (p.handleJobRetry c.begun error retryAt) φ := by
  rw [JobProcessor.handleJobRetry, if_neg (not_final hc)]
  split
  · exact failJobPermanently_ends hc hφ error none
  · rename_i hwithin
    refine Ends.quiet_bind (Silent.retryTime _ _ _).quiet fun at' => ?_
    refine Ends.quiet_bind Silent.readNow.quiet fun now => ?_
    rw [Job.setState_ok.mpr ⟨by rw [begun_state hc]; rfl, rfl⟩]
    refine Ends.quiet_bind (Silent.fireStateChangeHook _ _ _).quiet fun _ => ?_
    exact outcome_ends hφ (.awaitingRetry now at' error (by simpa using hwithin))

theorem handleJobTimeout_ends :
    Ends (.worker p queues rounds) (p.handleJobTimeout c.begun) φ := by
  simp only [JobProcessor.handleJobTimeout]
  split
  · exact handleJobRetry_ends hc hφ _ none
  · exact failJobPermanently_ends hc hφ _ none

theorem handleExecutionError_ends (error : QmlError) :
    Ends (.worker p queues rounds) (p.handleExecutionError c.begun error) φ := by
  rw [JobProcessor.handleExecutionError]
  split
  · exact handleJobRetry_ends hc hφ _ none
  · exact failJobPermanently_ends hc hφ _ none

theorem conclude_ends (startTime : DateTime) (execution : Execution) :
    Ends (.worker p queues rounds) (p.conclude c.begun startTime execution) φ := by
  cases execution with
  | elapsed => exact handleJobTimeout_ends hc hφ
  | finished outcome =>
    refine Ends.quiet_bind Silent.readNow.quiet fun now => ?_
    rcases outcome with e | (_ | _ | _)
    · exact handleExecutionError_ends hc hφ e
    · exact completeJobSuccessfully_ends hc hφ _ _ _
    · exact handleJobRetry_ends hc hφ _ _
    · exact failJobPermanently_ends hc hφ _ _

omit hφ in
theorem ensureProcessing_eq : p.ensureProcessing c.begun = pure (.ok c.begun) := by
  rw [JobProcessor.ensureProcessing, begun_state hc]

omit hφ in
/-- Processing a claimed job executes its copy at most once and stores exactly
one outcome, whatever the worker, the policy and the clock do. -/
theorem processJob_ends :
    Ends (.worker p queues rounds) (p.processJob c) (.claimed c) := by
  change Ends _ (if !p.workerRegistry c.method then p.failJobPermanently c.begun _ none
    else _) _
  split
  · rename_i hmissing
    exact failJobPermanently_ends hc (.inr ⟨rfl, by simpa using hmissing⟩) _ none
  · change Ends _ (p.ensureProcessing c.begun >>= _) _
    rw [ensureProcessing_eq hc]
    refine workerContext_attempt fun context ha =>
      Ends.quiet_bind Silent.readNow.quiet fun start => ?_
    split
    · exact Ends.unwind _
    · refine Ends.call_bind ⟨p, queues, rounds, c, rfl, rfl, rfl, ha⟩ fun _ _ => ?_
      refine Ends.call_bind trivial fun execution _ => ?_
      exact conclude_ends hc (.inl rfl) start execution

end Worker

/-- A claim holds the job it returned, and nothing when it returned none. -/
theorem workerTick_ends (p : JobProcessor) (queues : List String) (rounds : Nat) :
    Ends (.worker p queues rounds) (workerTick p queues) .idle := by
  have hclean : (Routine.worker p queues rounds).Allowed .idle (.storage .cleanupExpiredLocks) :=
    ⟨p, queues, rounds, rfl⟩
  have hlock : (Routine.worker p queues rounds).Allowed .idle (.storage (.lockAvailableJob
      p.workerConfig.workerId (if queues.isEmpty then none else some queues))) :=
    ⟨p, queues, rounds, rfl, rfl, rfl, rfl⟩
  refine Ends.call_bind hclean fun _ _ => Ends.call_bind hlock fun claimed hclaimed => ?_
  rcases claimed with _ | _ | job
  · exact Ends.pure ()
  · exact Ends.pure ()
  · obtain ⟨t, hstate⟩ := hclaimed
    exact (processJob_ends hstate).bind fun _ => Ends.pure ()

section Rounds
variable {r : Routine}

theorem polling_ends {tick : Prog Call Unit} (h : Ends r tick .idle) (rounds : Nat) :
    Ends r (polling tick rounds) .idle := by
  induction rounds with
  | zero => exact Ends.pure ()
  | succ n ih => exact h.bind fun _ => ih

theorem discard_ends {program : Prog Call α} (h : Ends r program .idle) :
    Ends r (discard program) .idle :=
  h.bind fun _ => Ends.pure ()

/-- A call that a routine may make holding nothing, and that claims nothing. -/
theorem idle_bind {op : Section α} {next : α → Prog Call β}
    (hm : r.Allowed .idle (.storage op)) (hφ : ∀ a, Phase.after .idle (.storage op) a = .idle)
    (hn : ∀ a, Answers (.storage op) a → Ends r (next a) .idle) :
    Ends r (enter op >>= next) .idle :=
  Ends.call_bind hm fun a ha => (hφ a).symm ▸ hn a ha

theorem enqueue_ends {job : Job} {next : Except StorageError Unit → Prog Call β}
    (hr : r = .enqueue job ∨ ∃ template t executeAt reason,
      r = .schedule template executeAt reason ∧
        template.state.canTransitionTo (.scheduled t executeAt reason) = true ∧
        job = { template with state := .scheduled t executeAt reason })
    (hn : ∀ a, Ends r (next a) .idle) : Ends r (MemoryStorage.enqueue job >>= next) .idle := by
  have hread : (∃ job, r = .enqueue job) ∨ ∃ job executeAt reason,
      r = .schedule job executeAt reason := by
    rcases hr with h | ⟨template, _, executeAt, reason, h, _⟩
    · exact .inl ⟨job, h⟩
    · exact .inr ⟨template, executeAt, reason, h⟩
  refine idle_bind hread (fun _ => rfl) fun full _ => ?_
  cases full with
  | true => exact idle_bind hread (fun _ => rfl) fun n _ => hn _
  | false => exact idle_bind hr (fun _ => rfl) fun a _ => hn a

end Rounds

theorem processDueJobs_ends {r : Routine} (kind : String)
    (claim : DateTime → Section (Except StorageError (List Job)))
    (hm : ∀ now, r.Allowed .idle (.storage (claim now)))
    (hφ : ∀ now a, Phase.after .idle (.storage (claim now)) a = .idle) :
    Ends r (JobScheduler.processDueJobs kind claim) .idle := by
  refine Ends.quiet_bind Silent.readNow.quiet fun now => idle_bind (hm now) (hφ now) fun a _ => ?_
  cases a <;> exact Ends.pure _

theorem schedulerTick_ends (batchSize rounds : Nat) :
    Ends (.scheduler batchSize rounds) (JobScheduler.tick batchSize) .idle := by
  refine (processDueJobs_ends "scheduled" (fun now => .claimDueScheduledJobs now batchSize)
    (fun _ => ⟨batchSize, rounds, rfl⟩) fun _ _ => rfl).bind fun _ => ?_
  refine (processDueJobs_ends "retry" (fun now => .claimDueRetryJobs now batchSize)
    (fun _ => ⟨batchSize, rounds, rfl⟩) fun _ _ => rfl).bind fun _ => ?_
  exact Ends.pure ()

section Heartbeat
variable {serverId : String} {timeout : Duration} {rounds : Nat}

theorem reclaimPeers_ends (peers : List ServerInfo) :
    Ends (.heartbeat serverId timeout rounds) (HeartbeatWorker.reclaimPeers serverId peers)
      .idle := by
  induction peers with
  | nil => exact Ends.pure ()
  | cons peer peers ih =>
    rw [HeartbeatWorker.reclaimPeers]
    split
    · exact ih
    · refine idle_bind ⟨serverId, timeout, rounds, rfl⟩ (fun _ => rfl) fun a _ => ?_
      cases a with
      | error _ => exact ih
      | ok _ => exact idle_bind ⟨serverId, timeout, rounds, rfl⟩ (fun _ => rfl) fun _ _ => ih

theorem bumpAndScan_ends :
    Ends (.heartbeat serverId timeout rounds) (HeartbeatWorker.bumpAndScan serverId timeout)
      .idle := by
  refine Ends.quiet_bind Silent.readNow.quiet fun now => ?_
  refine idle_bind ⟨serverId, timeout, rounds, rfl⟩ (fun _ => rfl) fun bumped _ => ?_
  cases bumped with
  | error _ => exact Ends.pure _
  | ok _ =>
    refine Ends.quiet_bind (Silent.plus _ _).quiet fun staleBefore => ?_
    refine idle_bind ⟨serverId, timeout, rounds, rfl⟩ (fun _ => rfl) fun dead _ => ?_
    cases dead with
    | error _ => exact Ends.pure _
    | ok dead => exact (reclaimPeers_ends dead).bind fun _ => Ends.pure _

end Heartbeat

theorem sweepOnce_ends (rounds : Nat) : Ends (.cleanup rounds) CleanupWorker.sweepOnce .idle := by
  refine Ends.quiet_bind Silent.readNow.quiet fun now => idle_bind ⟨rounds, rfl⟩ (fun _ => rfl) ?_
  intro removed _
  cases removed with
  | error _ => exact Ends.pure _
  | ok _ => exact idle_bind ⟨rounds, rfl⟩ (fun _ => rfl) fun _ _ => Ends.pure _

theorem start_ends (server : BackgroundJobServer) (serverId : String) :
    Ends (.start server serverId) (server.start serverId) .idle := by
  refine Ends.quiet_bind Silent.readNow.quiet fun now => ?_
  refine Ends.quiet_bind (Silent.plus _ _).quiet fun before => ?_
  refine idle_bind ⟨server, serverId, rfl⟩ (fun _ => rfl) fun _ _ => ?_
  split
  · refine Ends.quiet_bind Silent.readNow.quiet fun now => ?_
    refine idle_bind ⟨server, serverId, rfl⟩ (fun _ => rfl) fun registered _ => ?_
    cases registered <;> exact Ends.pure _
  · exact Ends.pure _

theorem retryJob_ends (jobId : String) :
    Ends (.retryJob jobId) (DashboardService.retryJob jobId) .idle := by
  refine idle_bind rfl (fun a => by rcases a with _ | (_ | _) <;> rfl) fun found hfound => ?_
  rcases found with _ | _ | job
  · exact Ends.pure _
  · exact Ends.pure _
  · change job.id = jobId at hfound
    subst hfound
    simp only
    split
    · refine Ends.quiet_bind Silent.readNow.quiet fun now => ?_
      exact idle_bind ⟨rfl, rfl, rfl⟩ (fun _ => rfl) fun _ _ => Ends.pure _
    · exact Ends.pure _

theorem deleteJob_ends (jobId : String) :
    Ends (.deleteJob jobId) (DashboardService.deleteJob jobId) .idle :=
  idle_bind rfl (fun _ => rfl) fun _ _ => Ends.pure _

theorem scheduleJob_ends (job : Job) (executeAt : DateTime) (reason : String) :
    Ends (.schedule job executeAt reason) (JobScheduler.scheduleJob job executeAt reason)
      .idle := by
  refine Ends.quiet_bind Silent.readNow.quiet fun now => ?_
  cases hset : job.setState (.scheduled now executeAt reason) with
  | error e => exact Ends.pure _
  | ok scheduled =>
    obtain ⟨hallowed, rfl⟩ := Job.setState_ok.mp hset
    refine enqueue_ends (.inr ⟨job, now, executeAt, reason, rfl, hallowed, rfl⟩) fun a => ?_
    cases a <;> exact Ends.pure _

/-- Every routine keeps its contract from its first call to its last. -/
theorem Routine.program_ends (r : Routine) : Ends r r.program .idle := by
  cases r with
  | worker p queues rounds => exact polling_ends (workerTick_ends p queues rounds) rounds
  | scheduler batchSize rounds => exact polling_ends (schedulerTick_ends batchSize rounds) rounds
  | heartbeat serverId timeout rounds => exact polling_ends (discard_ends bumpAndScan_ends) rounds
  | cleanup rounds => exact polling_ends (discard_ends (sweepOnce_ends rounds)) rounds
  | start server serverId => exact discard_ends (start_ends server serverId)
  | retryJob jobId => exact discard_ends (retryJob_ends jobId)
  | deleteJob jobId => exact discard_ends (deleteJob_ends jobId)
  | enqueue job => exact enqueue_ends (.inl rfl) fun _ => Ends.pure ()
  | schedule job executeAt reason => exact discard_ends (scheduleJob_ends job executeAt reason)

end Qml
