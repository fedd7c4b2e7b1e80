import Qml.Runtime.Holders

namespace Qml
open Lib

/-- How many retries the two limits leave: the policy's maximum, and the job's
own cap unless that is zero. -/
def budget (maxAttempts maxRetries : UInt32) : Nat :=
  if maxRetries = 0 then maxAttempts.toNat else min maxRetries.toNat maxAttempts.toNat

theorem le_budget {attempt maxAttempts maxRetries : UInt32} (hp : attempt ≤ maxAttempts)
    (hj : maxRetries = 0 ∨ attempt ≤ maxRetries) :
    attempt.toNat ≤ budget maxAttempts maxRetries := by
  have hp' := UInt32.le_iff_toNat_le.mp hp
  unfold budget
  split
  · exact hp'
  · rcases hj with hz | hj
    · contradiction
    · have hj' := UInt32.le_iff_toNat_le.mp hj
      omega

namespace Runtime
variable {s t : Runtime} {a : Action} {id method : String} {i j : Nat} {c job : Job}
  {N m : UInt32} {tr : List (Step Runtime Action)}

/-- The attempt number told to the execution of job `id` that begins in this
step, if one does. -/
def begins (id : String) (s : Runtime) : Action → Option UInt32
  | .step i _ =>
    match s.pending i with
    | some ⟨_, .execute job context⟩ => if job.id = id then some context.attempt else none
    | _ => none
  | _ => none

/-- Whether an outcome for job `id` is stored in this step, of an execution that
had begun or of a lookup that found no worker. -/
def concludes (id : String) (executed : Bool) (s : Runtime) : Action → Bool
  | .step i _ =>
    match s.tasks[i]? with
    | some ⟨_, .call (.storage (.update job)) _, φ, true⟩ =>
      decide (job.id = id) && (φ.started.isSome == executed)
    | _ => false
  | _ => false

/-- The attempt numbers of the executions of a job, in the order they began. -/
def attempts (tr : List (Step Runtime Action)) (id : String) : List UInt32 :=
  tr.filterMap fun x => begins id x.before x.label

/-- How many executions of a job have had their outcome stored. -/
def completed (tr : List (Step Runtime Action)) (id : String) : Nat :=
  tr.countP fun x => concludes id true x.before x.label

/-- How many outcomes were stored without an execution. -/
def missed (tr : List (Step Runtime Action)) (id : String) : Nat :=
  tr.countP fun x => concludes id false x.before x.label

theorem begins_eq_some {n : UInt32} (h : begins id s a = some n) :
    ∃ i env job context, a = .step i env ∧ s.Calls i (.execute job context) ∧ job.id = id ∧
      context.attempt = n := by
  unfold begins at h
  split at h
  · split at h
    · rename_i job context hp
      split at h
      · cases h
        exact ⟨_, _, job, context, rfl, Calls.of_pending hp, ‹_›, rfl⟩
      · cases h
    · cases h
  · cases h

theorem begins_of_calls {env : Env} {context : WorkerContext}
    (h : s.Calls i (.execute job context)) :
    begins id s (.step i env) = if job.id = id then some context.attempt else none := by
  simp only [begins, h.pending]

theorem concludes_of_task {env : Env} {task : Task} {executed : Bool}
    {k : Except StorageError Unit → Prog Call Unit} (ht : s.tasks[i]? = some task)
    (ha : task.alive = true) (hp : task.program = .call (.storage (.update job)) k) :
    concludes id executed s (.step i env) =
      (decide (job.id = id) && (task.phase.started.isSome == executed)) := by
  obtain ⟨r, program, φ, alive⟩ := task
  cases ha
  cases hp
  simp only [concludes, ht]

theorem concludes_eq_true {executed : Bool} (h : concludes id executed s a = true) :
    ∃ i env job, a = .step i env ∧ s.Calls i (.storage (.update job)) ∧ job.id = id := by
  unfold concludes at h
  split at h
  · split at h
    · rename_i ht
      simp only [Bool.and_eq_true, decide_eq_true_eq] at h
      exact ⟨_, _, _, rfl, ⟨_, _, ht, rfl, rfl⟩, h.1⟩
    · cases h
  · cases h

/-- Task `i`, dead or alive, has begun the execution of the copy `c`. -/
def Running (s : Runtime) (i : Nat) (c : Job) : Prop :=
  ∃ task, s.tasks[i]? = some task ∧ task.phase = .executing c

theorem Running.holder (h : s.Running i c) : Holder true s i c := by
  obtain ⟨task, ht, hφ⟩ := h
  refine ⟨task, ht, ?_⟩
  cases ha : task.alive <;> simp [Task.grip, ha, hφ, Phase.held, Phase.started]

/-- What may become of a stored job in one step that stores no outcome for it. -/
inductive Calm (m : UInt32) (method : String) : Option Job → Option Job → Prop
  | same (o : Option Job) : Calm m method o o
  | fresh (job : Job) (hz : job.attempt = 0) (hm : job.maxRetries = m)
      (hmethod : job.method = method) : Calm m method none (some job)
  | moved (old : Job) (state : JobState) (ho : old.state.isFinal = false)
      (hs : state.isFinal = false) : Calm m method (some old) (some { old with state := state })

/-- The job `id` is only enqueued with no attempt made, the cap `m` and the
method `method`. -/
def enqueuesAs (id : String) (m : UInt32) (method : String) (s : Runtime) (a : Action) : Bool :=
  (s.inserts a).all fun job => job.id != id ||
    decide (job.attempt = 0 ∧ job.maxRetries = m ∧ job.method = method)

/-- The tasks under which attempts are counted: nothing deletes a job or puts a
failed one back, and every worker has a policy with maximum `N`. -/
def counting (N : UInt32) : Routine → Bool
  | .worker p _ _ => decide (p.retryPolicy.strategy.maxAttempts = N)
  | .scheduler .. | .heartbeat .. | .start .. | .enqueue _ | .schedule .. => true
  | .cleanup _ | .deleteJob _ | .retryJob _ => false

theorem calm_step {storage : MemoryStorage} (hr : Run Next (idle storage) tr s)
    (hk : ∀ x ∈ tr, x.label.spawns (counting N) = true) (h : Next s a t)
    (hfresh : s.insertsStored a = false) (henq : enqueuesAs id m method s a = true)
    (hno : ∀ i env job, a = .step i env → s.Calls i (.storage (.update job)) → job.id ≠ id) :
    Calm m method (s.storage.jobs.get? id) (t.storage.jobs.get? id) := by
  rcases storage_cases h with hsame | ⟨i, env, ρ, op, reply, rfl, hcall, hop⟩
  · rw [hsame]
    exact .same _
  · obtain ⟨task, -, hkind, hallowed⟩ := caller hr hk hcall
    have heff := Section.effect hop id
    generalize hbefore : s.storage.jobs.get? id = before at heff
    generalize t.storage.jobs.get? id = after at heff
    cases heff with
    | same => exact .same _
    | update job _ hid => exact absurd hid (hno i env job rfl hcall)
    | updateIfState =>
      obtain ⟨hret, -⟩ := hallowed
      rw [hret] at hkind
      cases hkind
    | delete =>
      have hdel : task.routine = .deleteJob _ := hallowed
      rw [hdel] at hkind
      cases hkind
    | insert job o hid =>
      simp only [insertsStored, hcall.inserts, Option.any_some, hid, hbefore,
        Option.isSome_eq_false_iff, Option.isNone_iff_eq_none] at hfresh
      simp only [enqueuesAs, hcall.inserts, Option.all_some, hid, bne_self_eq_false,
        Bool.false_or, decide_eq_true_eq] at henq
      obtain ⟨hz, hm, hmethod⟩ := henq
      subst hfresh
      exact .fresh job hz hm hmethod
    | promoteScheduled _ _ _ hdue =>
      have := MemoryStorage.dueScheduled_kind hdue
      exact .moved _ _ (JobState.isFinal_of_kind (by simp [this])) rfl
    | promoteRetry _ _ _ hdue =>
      have := MemoryStorage.dueRetry_kind hdue
      exact .moved _ _ (JobState.isFinal_of_kind (by simp [this])) rfl
    | expire =>
      obtain ⟨_, hclean⟩ := hallowed
      rw [hclean] at hkind
      cases hkind
    | requeue _ _ hlost =>
      have := MemoryStorage.stale_kind hlost
      exact .moved _ _ (JobState.isFinal_of_kind (by simp [this])) rfl
    | reclaim _ _ hlost =>
      have := MemoryStorage.ownedBy_kind hlost
      exact .moved _ _ (JobState.isFinal_of_kind (by simp [this])) rfl
    | claim _ _ _ havail =>
      have := MemoryStorage.available_kind havail
      exact .moved _ _ (JobState.isFinal_of_kind (by tauto)) rfl

/-- What is known of the stored job once `K` outcomes were stored for it. -/
structure Accounted (N m : UInt32) (method : String) (K : Nat) (job : Job) : Prop where
  retries : job.maxRetries = m
  method_eq : job.method = method
  attempt : job.attempt.toNat = K
  room : job.state.isFinal = false → K ≤ budget N m
  cap : K ≤ budget N m + 1
  kept : 0 < K → job.state.kind ≠ .deleted

/-- The attempts of one job, counted along a run. -/
structure Tally (id method : String) (N m : UInt32) (tr : List (Step Runtime Action))
    (s : Runtime) : Prop where
  absent : s.storage.jobs.get? id = none → attempts tr id = [] ∧
    completed tr id = 0 ∧ missed tr id = 0
  stored : ∀ job, s.storage.jobs.get? id = some job →
    Accounted N m method (completed tr id + missed tr id) job
  settled : (∀ i c, s.Running i c → c.id ≠ id) → (attempts tr id).length = completed tr id ∧
    ∀ n ∈ attempts tr id, n.toNat ≤ completed tr id + missed tr id
  running : ∀ i c, s.Running i c → c.id = id →
    (attempts tr id).length = completed tr id + 1 ∧
    ∀ n ∈ attempts tr id, n.toNat ≤ completed tr id + missed tr id + 1
  sorted : (attempts tr id).Pairwise (· < ·)

theorem attempts_snoc (x : Step Runtime Action) :
    attempts (tr ++ [x]) id = attempts tr id ++ (begins id x.before x.label).toList := by
  cases h : begins id x.before x.label <;> simp [attempts, h]

theorem completed_snoc (x : Step Runtime Action) : completed (tr ++ [x]) id =
    completed tr id + if concludes id true x.before x.label then 1 else 0 := by
  simp [completed, List.countP_append, List.countP_singleton]

theorem missed_snoc (x : Step Runtime Action) : missed (tr ++ [x]) id =
    missed tr id + if concludes id false x.before x.label then 1 else 0 := by
  simp [missed, List.countP_append, List.countP_singleton]

theorem running_set {storage : MemoryStorage} {task new : Task} (ht : s.tasks[i]? = some task) :
    Running ⟨storage, s.tasks.set i new⟩ j c ↔
      j = i ∧ new.phase = .executing c ∨ j ≠ i ∧ s.Running j c := by
  constructor
  · rintro ⟨task', ht', hφ⟩
    rcases set_cases ht' with ⟨rfl, rfl⟩ | ⟨hne, hj⟩
    · exact .inl ⟨rfl, hφ⟩
    · exact .inr ⟨hne, task', hj, hφ⟩
  · obtain ⟨hlt, -⟩ := List.getElem?_eq_some_iff.mp ht
    rintro (⟨rfl, hφ⟩ | ⟨hne, task', hj, hφ⟩)
    · exact ⟨new, List.getElem?_set_self hlt, hφ⟩
    · exact ⟨task', by rw [List.getElem?_set_ne (Ne.symm hne)]; exact hj, hφ⟩

/-- The copy a worker may conclude is the one it holds. -/
theorem Calls.concluding (hl : s.Lawful) (h : s.Calls i (.storage (.update job))) :
    ∃ task p queues rounds c, s.tasks[i]? = some task ∧
      task.routine = .worker p queues rounds ∧ Holder true s i c ∧ Outcome p c job ∧
      (task.phase = .executing c ∨
        task.phase = .claimed c ∧ p.workerRegistry c.method = false) := by
  obtain ⟨task, ht, ha, p, queues, rounds, c, hr, hout, hφ⟩ := h.allowed hl
  refine ⟨task, p, queues, rounds, c, ht, hr, ⟨task, ht, ?_⟩, hout, hφ⟩
  rcases hφ with hφ | ⟨hφ, -⟩ <;> simp [Task.grip, ha, hφ, Phase.held]

/-- A step that neither begins nor concludes the job leaves alone who runs it. -/
theorem running_calm (hl : s.Lawful) (h : Next s a t) (hbegin : begins id s a = none)
    (hno : ∀ i env job, a = .step i env → s.Calls i (.storage (.update job)) → job.id ≠ id)
    (hid : c.id = id) : t.Running j c ↔ s.Running j c := by
  cases step_moves h with
  | spawned r =>
    constructor
    · rintro ⟨task, ht, hφ⟩
      rcases join_cases ht with ⟨-, rfl⟩ | ht
      · cases hφ
      · exact ⟨task, ht, hφ⟩
    · rintro ⟨task, ht, hφ⟩
      obtain ⟨hlt, -⟩ := List.getElem?_eq_some_iff.mp ht
      exact ⟨task, by rw [List.getElem?_append_left hlt]; exact ht, hφ⟩
  | @aborted i task ht | @panicked i env task ρ op k ht ha hp hop =>
    rw [running_set ht]
    constructor
    · rintro (⟨rfl, hφ⟩ | ⟨-, hrun⟩)
      · exact ⟨task, ht, hφ⟩
      · exact hrun
    · intro hrun
      by_cases hj : j = i
      · subst hj
        obtain ⟨task', ht', hφ⟩ := hrun
        cases ht.symm.trans ht'
        exact .inl ⟨rfl, hφ⟩
      · exact .inr ⟨hj, hrun⟩
  | @called i env task ρ op k reply storage ht ha hp hop =>
    rw [running_set ht]
    have hcall : s.Calls i op := ⟨task, k, ht, ha, hp⟩
    have hsame : task.phase.after op reply = .executing c ↔ task.phase = .executing c := by
      have hallowed := (hl i task ht).allowed hp
      cases op with
      | now | random | await | hook | panic => exact Iff.rfl
      | execute job context =>
        obtain ⟨_, _, _, d, -, hφ, rfl, -⟩ := hallowed
        rw [begins_of_calls hcall] at hbegin
        have hne : d.id ≠ id := fun he => by simp [Job.begun, he] at hbegin
        rw [hφ]
        constructor
        · rintro ⟨⟩
          exact absurd hid hne
        · rintro ⟨⟩
      | storage op =>
        cases op
        case update job =>
          obtain ⟨_, _, _, d, -, hout, hφ⟩ := hallowed
          have hne := hno i env job rfl hcall
          rw [hout.id_eq] at hne
          constructor
          · rintro ⟨⟩
          · intro hc
            rcases hφ with hφ | ⟨hφ, -⟩
            all_goals
              rw [hφ] at hc
              cases hc
            exact absurd hid hne
        case lockAvailableJob w q =>
          obtain ⟨_, _, _, -, hφ, -⟩ := hallowed
          rw [hφ]
          rcases reply with _ | _ | job
          · exact Iff.rfl
          · exact Iff.rfl
          · exact ⟨by rintro ⟨⟩, by rintro ⟨⟩⟩
        all_goals exact Iff.rfl
    constructor
    · rintro (⟨rfl, hφ⟩ | ⟨-, hrun⟩)
      · exact ⟨task, ht, hsame.mp hφ⟩
      · exact hrun
    · intro hrun
      by_cases hj : j = i
      · subst hj
        obtain ⟨task', ht', hφ⟩ := hrun
        cases ht.symm.trans ht'
        exact .inl ⟨rfl, hsame.mpr hφ⟩
      · exact .inr ⟨hj, hrun⟩

/-- The copy of `id` a task holds, claimed or executing, is the stored one. -/
theorem Exclusive.held_stored (he : Exclusive true s) (hh : Holder true s i c) (hid : c.id = id) :
    s.storage.jobs.get? id = some c := hid ▸ he.stored i c hh

theorem no_running (he : Exclusive true s) (hh : Holder true s i c)
    (hφ : ∀ task d, s.tasks[i]? = some task → task.phase ≠ .executing d) (hid : c.id = id) :
    ∀ j d, s.Running j d → d.id ≠ id := by
  intro j d hrun hd
  obtain rfl := he.unique j i d c hrun.holder hh (hd.trans hid.symm)
  obtain ⟨task, ht, hexec⟩ := hrun
  exact hφ task d ht hexec

section Steps
variable {env : Env} {context : WorkerContext}

theorem concludes_of_execute {executed : Bool} (hcall : s.Calls i (.execute job context)) :
    concludes id executed s (.step i env) = false := by
  obtain ⟨⟨r, _, φ, _⟩, k, ht, rfl, rfl⟩ := hcall
  simp only [concludes, ht]

theorem begins_of_update (hcall : s.Calls i (.storage (.update job))) :
    begins id s (.step i env) = none := by
  simp only [begins, hcall.pending]

/-- An execution begins: it is told the attempt after all stored ones. -/
theorem Tally.begin (hl : s.Lawful) (he : Exclusive true s) (ht : Tally id method N m tr s)
    (h : Next s (.step i env) t) (hcall : s.Calls i (.execute job context)) (hid : job.id = id)
    (hroom : ∀ c, Holder true s i c → c.id = id → c.attempt.toNat + 1 < UInt32.size) :
    Tally id method N m (tr ++ [⟨s, .step i env, t⟩]) t := by
  have hbegins : begins id s (.step i env) = some context.attempt := by
    rw [begins_of_calls hcall, if_pos hid]
  have hnone : ∀ executed, concludes id executed s (.step i env) = false := fun _ =>
    concludes_of_execute hcall
  obtain ⟨task, k, htask, ha, hp⟩ := hcall
  obtain ⟨_, _, _, c, -, hφ, rfl, hcontext⟩ := (hl i task htask).allowed hp
  have hcid : c.id = id := hid
  have hh : Holder true s i c := ⟨task, htask, by simp [Task.grip, ha, hφ, Phase.held]⟩
  have hquiet := no_running he hh (fun task' d ht' hexec => by
    cases htask.symm.trans ht'
    rw [hφ] at hexec
    cases hexec) hcid
  obtain ⟨hlen, hall⟩ := ht.settled hquiet
  have hstored := he.held_stored hh hcid
  have hn : context.attempt.toNat = completed tr id + missed tr id + 1 := by
    rw [hcontext, Job.begun, Job.bump_toNat (hroom c hh hcid), (ht.stored c hstored).attempt]
  obtain ⟨hsame, hrunning⟩ : t.storage = s.storage ∧
      ∀ j d, t.Running j d ↔ j = i ∧ d = c ∨ j ≠ i ∧ s.Running j d := by
    cases step_moves h with
    | called ht' ha' hp' hop =>
      cases htask.symm.trans ht'
      cases hp.symm.trans hp'
      cases hop
      refine ⟨rfl, fun j d => ?_⟩
      rw [running_set htask]
      simp [Phase.after, hφ, Phase.begin, eq_comm]
    | panicked ht' ha' hp' hop =>
      cases htask.symm.trans ht'
      cases hp.symm.trans hp'
      cases hop
  have hK : completed (tr ++ [⟨s, .step i env, t⟩]) id = completed tr id := by
    simp [completed_snoc, hnone]
  have hM : missed (tr ++ [⟨s, .step i env, t⟩]) id = missed tr id := by
    simp [missed_snoc, hnone]
  have hA : attempts (tr ++ [⟨s, .step i env, t⟩]) id = attempts tr id ++ [context.attempt] := by
    simp [attempts_snoc, hbegins]
  refine ⟨fun habsent => ?_, fun d hd => ?_, fun hno => ?_, fun j d _ _ => ?_, ?_⟩
  · rw [hsame, hstored] at habsent
    cases habsent
  · rw [hK, hM]
    exact ht.stored d (hsame ▸ hd)
  · exact absurd hcid (hno i c ((hrunning i c).mpr (.inl ⟨rfl, rfl⟩)))
  · rw [hK, hM, hA]
    refine ⟨by simp [hlen], fun n hn' => ?_⟩
    rcases List.mem_append.mp hn' with hn' | hn'
    · exact Nat.le_succ_of_le (hall n hn')
    · rw [List.mem_singleton.mp hn', hn]
  · rw [hA, List.pairwise_append]
    refine ⟨ht.sorted, List.pairwise_singleton _ _, fun n hn' n' hn'' => ?_⟩
    rw [List.mem_singleton.mp hn'', UInt32.lt_iff_toNat_lt, hn]
    exact Nat.lt_succ_of_le (hall n hn')

/-- The stored outcome counts one more attempt, and is final when no budget is left. -/
theorem Accounted.outcome {K : Nat} {p : JobProcessor} (h : Accounted N m method K c)
    (hopen : c.state.isFinal = false) (hout : Outcome p c job)
    (hN : p.retryPolicy.strategy.maxAttempts = N) (hroom : c.attempt.toNat + 1 < UInt32.size) :
    Accounted N m method (K + 1) job := by
  have hattempt : job.attempt.toNat = K + 1 := by
    rw [hout.attempt_eq, Job.bump_toNat hroom, h.attempt]
  refine ⟨hout.maxRetries_eq.trans h.retries, hout.method_eq.trans h.method_eq, hattempt,
    fun hf => ?_, Nat.succ_le_succ (h.room hopen), fun _ hdel => ?_⟩
  · have hkind : job.state.kind = .awaitingRetry := by
      rcases hout.kind with hk | hk | hk
      · simp [JobState.isFinal_iff.mpr (.inl hk)] at hf
      · simp [JobState.isFinal_iff.mpr (.inr (.inl hk))] at hf
      · exact hk
    obtain ⟨hp, hj⟩ := JobProcessor.shouldRetryAttempt_le (hout.within_limits hkind)
    have hle := le_budget hp hj
    rw [hN, Job.begun, h.retries, ← hout.attempt_eq, hattempt] at hle
    exact hle
  · rcases hout.kind with hk | hk | hk <;> simp [hk] at hdel

/-- The outcome that a task stores is what is stored next. -/
theorem Calls.stored (hl : s.Lawful) (he : Exclusive true s)
    (hcall : s.Calls i (.storage (.update job))) (h : Next s (.step i env) t) :
    t.storage.jobs.get? job.id = some job := by
  obtain ⟨_, _, _, _, c, -, -, hh, hout, -⟩ := hcall.concluding hl
  have hstored := he.held_stored hh hout.id_eq.symm
  rcases hcall.performed h with ⟨reply, hop⟩ | ⟨hop, -⟩
  · simp only [Section.perform, MemoryStorage.update, hstored, Option.some.injEq,
      Prod.mk.injEq] at hop
    rw [← hop.2]
    simp
  · cases hop

/-- An outcome is stored: the attempt it stores is the one after all stored ones. -/
theorem Tally.conclude (hl : s.Lawful) (he : Exclusive true s) (ht : Tally id method N m tr s)
    (h : Next s (.step i env) t) (hcall : s.Calls i (.storage (.update job))) (hid : job.id = id)
    (hroom : ∀ c, Holder true s i c → c.id = id → c.attempt.toNat + 1 < UInt32.size)
    (hN : ∀ task p queues rounds, s.tasks[i]? = some task →
      task.routine = .worker p queues rounds → p.retryPolicy.strategy.maxAttempts = N) :
    Tally id method N m (tr ++ [⟨s, .step i env, t⟩]) t := by
  have hA : attempts (tr ++ [⟨s, .step i env, t⟩]) id = attempts tr id := by
    simp [attempts_snoc, begins_of_update hcall]
  obtain ⟨task, p, queues, rounds, c, htask, hr, hh, hout, hφ⟩ := hcall.concluding hl
  have hcid : c.id = id := hout.id_eq.symm.trans hid
  have hstored := he.held_stored hh hcid
  have hacc := (ht.stored c hstored).outcome
    (JobState.isFinal_of_kind (by simp [hh.processing hl])) hout
    (hN task p queues rounds htask hr) (hroom c hh hcid)
  have hafter : t.storage.jobs.get? id = some job := hid ▸ hcall.stored hl he h
  obtain ⟨task', k, htask', ha, hp⟩ := hcall
  cases htask.symm.trans htask'
  have hconcludes : ∀ executed, concludes id executed s (.step i env) =
      (decide (job.id = id) && (task.phase.started.isSome == executed)) := fun _ =>
    concludes_of_task htask ha hp
  have hrunning : ∀ j d, t.Running j d → j ≠ i ∧ s.Running j d := by
    intro j d hrun
    cases step_moves h with
    | called ht' ha' hp' hop =>
      cases htask.symm.trans ht'
      cases hp.symm.trans hp'
      rcases (running_set htask).mp hrun with ⟨-, hφ'⟩ | hrun
      · cases hφ'
      · exact hrun
    | panicked ht' ha' hp' hop =>
      cases htask.symm.trans ht'
      cases hp.symm.trans hp'
      cases hop
  have hquiet : ∀ j d, t.Running j d → d.id ≠ id := by
    intro j d hrun hd
    obtain ⟨hne, hrun⟩ := hrunning j d hrun
    exact hne (he.unique j i d c hrun.holder hh (hd.trans hcid.symm))
  -- Either the execution had begun, or the lookup of its worker failed.
  obtain ⟨hlen, hall, hK⟩ :
      (attempts tr id).length = completed (tr ++ [⟨s, .step i env, t⟩]) id ∧
      (∀ n ∈ attempts tr id, n.toNat ≤ completed tr id + missed tr id + 1) ∧
      completed (tr ++ [⟨s, .step i env, t⟩]) id + missed (tr ++ [⟨s, .step i env, t⟩]) id =
        completed tr id + missed tr id + 1 := by
    rcases hφ with hφ | ⟨hφ, -⟩
    · obtain ⟨hlen, hall⟩ := ht.running i c ⟨task, htask, hφ⟩ hcid
      refine ⟨?_, hall, ?_⟩
      all_goals simp [completed_snoc, missed_snoc, hconcludes, hid, hφ, Phase.started]
      all_goals omega
    · obtain ⟨hlen, hall⟩ := ht.settled (no_running he hh (fun task' d ht' hexec => by
        cases htask.symm.trans ht'
        rw [hφ] at hexec
        cases hexec) hcid)
      refine ⟨?_, fun n hn => Nat.le_succ_of_le (hall n hn), ?_⟩
      all_goals simp [completed_snoc, missed_snoc, hconcludes, hid, hφ, Phase.started]
      all_goals omega
  refine ⟨fun habsent => ?_, fun d hd => ?_, fun _ => ?_, fun j d hrun hd => ?_, ?_⟩
  · rw [hafter] at habsent
    cases habsent
  · rw [hafter] at hd
    cases hd
    rw [hK]
    exact hacc
  · rw [hA, hK]
    exact ⟨hlen, hall⟩
  · exact absurd hd (hquiet j d hrun)
  · rw [hA]
    exact ht.sorted

/-- Between executions nothing is counted. -/
theorem Tally.calm (hl : s.Lawful) (ht : Tally id method N m tr s) (h : Next s a t)
    (hbegin : begins id s a = none)
    (hno : ∀ i env job, a = .step i env → s.Calls i (.storage (.update job)) → job.id ≠ id)
    (hcalm : Calm m method (s.storage.jobs.get? id) (t.storage.jobs.get? id)) :
    Tally id method N m (tr ++ [⟨s, a, t⟩]) t := by
  have hnone : ∀ executed, concludes id executed s a = false := by
    intro executed
    by_contra hc
    obtain ⟨i, env, job, ha, hcall, hid⟩ := concludes_eq_true (Bool.eq_true_of_not_eq_false hc)
    exact hno i env job ha hcall hid
  have hK : completed (tr ++ [⟨s, a, t⟩]) id = completed tr id := by
    simp [completed_snoc, hnone]
  have hM : missed (tr ++ [⟨s, a, t⟩]) id = missed tr id := by
    simp [missed_snoc, hnone]
  have hA : attempts (tr ++ [⟨s, a, t⟩]) id = attempts tr id := by
    simp [attempts_snoc, hbegin]
  have hrunning : ∀ j d, d.id = id → (t.Running j d ↔ s.Running j d) := fun j d hid =>
    running_calm hl h hbegin hno hid
  refine ⟨fun habsent => ?_, fun d hd => ?_, fun hquiet => ?_, fun j d hrun hd => ?_, ?_⟩
  · rw [hA, hK, hM]
    generalize hb : s.storage.jobs.get? id = before at hcalm
    rw [habsent] at hcalm
    cases hcalm
    exact ht.absent hb
  · rw [hK, hM]
    generalize hb : s.storage.jobs.get? id = before at hcalm
    rw [hd] at hcalm
    cases hcalm with
    | same => exact ht.stored d hb
    | fresh _ hz hm hmethod =>
      obtain ⟨-, hc, hm'⟩ := ht.absent hb
      rw [hc, hm']
      exact ⟨hm, hmethod, by simp [hz], fun _ => Nat.zero_le _, Nat.zero_le _, nofun⟩
    | moved old state ho hs =>
      have hacc := ht.stored old hb
      refine ⟨hacc.retries, hacc.method_eq, hacc.attempt, fun _ => hacc.room ho, hacc.cap, ?_⟩
      intro _ hdel
      simp [JobState.isFinal_iff.mpr (.inr (.inr hdel))] at hs
  · rw [hA, hK, hM]
    exact ht.settled fun j d hrun hd => hquiet j d ((hrunning j d hd).mpr hrun) hd
  · rw [hA, hK, hM]
    exact ht.running j d ((hrunning j d hd).mp hrun) hd
  · rw [hA]
    exact ht.sorted

end Steps

/-- Whether an execution of the job begins or is stored in this step with the
attempt counter at the top of its range. -/
def saturates (id : String) (s : Runtime) (a : Action) : Bool :=
  ((begins id s a).isSome || concludes id true s a || concludes id false s a) &&
    (s.storage.jobs.get? id).any fun job => decide (UInt32.size ≤ job.attempt.toNat + 1)

/-- The held copy of a job leaves room for one more attempt. -/
theorem Tally.below_top (hl : s.Lawful) (he : Exclusive true s) (ht : Tally id method N m tr s)
    (hcount : ((begins id s a).isSome || concludes id true s a || concludes id false s a) = true)
    (hsat : saturates id s a = false ∨ budget N m + 1 < UInt32.size) (hh : Holder true s i c)
    (hid : c.id = id) : c.attempt.toNat + 1 < UInt32.size := by
  have hstored := he.held_stored hh hid
  rcases hsat with hsat | hB
  · simpa [saturates, hcount, hstored] using hsat
  · have hacc := ht.stored c hstored
    have := hacc.room (JobState.isFinal_of_kind (by simp [hh.processing hl]))
    rw [hacc.attempt]
    omega

/-- The tasks that spawn no deletion and no manual retry are among those that
delete nothing. -/
theorem recovering_of_counting {r : Routine} (h : counting N r = true) : recovering r = true := by
  cases r <;> simp_all [counting, recovering]

section Runs
variable {storage : MemoryStorage} (hr : Run Next (idle storage) tr s)
  (hempty : storage.jobs.get? id = none)
  (hkind : ∀ x ∈ tr, x.label.spawns (counting N) = true)
  (hfresh : ∀ x ∈ tr, x.before.insertsStored x.label = false)
  (henq : ∀ x ∈ tr, enqueuesAs id m method x.before x.label = true)
  (hspares : ∀ x ∈ tr, x.before.recoversHeld true x.label = false)
include hr hkind hfresh hspares

theorem exclusive_counting : Exclusive true s := by
  refine exclusive_run hr fun x hx _ he => undisturbed (fun {i ρ op} hcall => ?_) he
    (hspares x hx) (hfresh x hx)
  obtain ⟨pre, hsub, hpre, -⟩ := hr.of_mem hx
  obtain ⟨task, ht, hk, hallowed⟩ := caller hpre (fun y hy => hkind y (hsub y hy)) hcall
  exact ⟨task, ht, recovering_of_counting hk, hallowed⟩

include hempty henq

theorem tally_run (hsat : ∀ x ∈ tr, saturates id x.before x.label = false ∨
    budget N m + 1 < UInt32.size) : Tally id method N m tr s := by
  induction hr with
  | nil =>
    refine ⟨fun _ => ⟨rfl, rfl, rfl⟩, fun d hd => ?_, fun _ => ⟨rfl, fun n hn => ?_⟩,
      fun j d hrun => absurd hrun.holder no_holder, .nil⟩
    · simp [idle, hempty] at hd
    · cases hn
  | @snoc tr s t a run h ih =>
    have hmem : ∀ x ∈ tr, x ∈ tr ++ [⟨s, a, t⟩] := fun x hx => List.mem_append_left _ hx
    have hlast : ⟨s, a, t⟩ ∈ tr ++ [⟨s, a, t⟩] := by simp
    have ht := ih (fun x hx => hkind x (hmem x hx)) (fun x hx => hfresh x (hmem x hx))
      (fun x hx => henq x (hmem x hx)) (fun x hx => hspares x (hmem x hx))
      (fun x hx => hsat x (hmem x hx))
    have hl := lawful_run (lawful_idle storage) run
    have he := exclusive_counting run (fun x hx => hkind x (hmem x hx))
      (fun x hx => hfresh x (hmem x hx)) (fun x hx => hspares x (hmem x hx))
    by_cases hno : ∀ i env job, a = .step i env → s.Calls i (.storage (.update job)) → job.id ≠ id
    · cases hbegin : begins id s a with
      | none =>
        refine ht.calm hl h hbegin hno ?_
        exact calm_step run (fun x hx => hkind x (hmem x hx)) h (hfresh _ hlast) (henq _ hlast) hno
      | some n =>
        obtain ⟨i, env, job, context, rfl, hcall, hid, -⟩ := begins_eq_some hbegin
        exact ht.begin hl he h hcall hid fun c hh hcid =>
          ht.below_top hl he (by simp [hbegin]) (hsat _ hlast) hh hcid
    · push Not at hno
      obtain ⟨i, env, job, rfl, hcall, hid⟩ := hno
      have hcount :
          (concludes id true s (.step i env) || concludes id false s (.step i env)) = true := by
        obtain ⟨task, k, htask, ha, hp⟩ := hcall
        simp only [concludes_of_task htask ha hp, hid]
        cases task.phase.started <;> rfl
      refine ht.conclude hl he h hcall hid (fun c hh hcid => ?_) fun task p _ _ htask hr => ?_
      · exact ht.below_top hl he (by simp [Bool.or_assoc, hcount]) (hsat _ hlast) hh hcid
      · obtain ⟨x, hx, hspawn⟩ := spawned_run run htask
        have := hkind x (hmem x hx)
        rw [hspawn, hr] at this
        simpa [Action.spawns, counting] using this

end Runs
end Runtime
end Qml
