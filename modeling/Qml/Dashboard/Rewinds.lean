import Qml.Dashboard.Retries
import Qml.Runtime.Work

namespace Qml
open Lib

/-- A retry as one of the tasks keeps to the same contract. -/
theorem retryJob_program (id : String) :
    (Routine.retryJob id).program.wp (Retrying id) (fun _ _ => True) .none :=
  (Prog.wp_bind ..).mpr (Prog.wp_mono (fun _ _ _ => trivial) (retryJob_retrying id))

namespace Runtime
variable {s t : Runtime} {a : Action} {x : Step Runtime Action} {i : Nat} {id : String}
  {c job : Job}

/-- Whether task `i` reads the job of its retry in this step. -/
def reads (i : Nat) (x : Step Runtime Action) : Bool :=
  match x.label with
  | .step j _ =>
    match x.before.pending j with
    | some ⟨_, .storage (.get _)⟩ => decide (j = i)
    | _ => false
  | _ => false

/-- Whether the job is stored as `Failed` in this step: by a worker as its outcome, or
by a client. -/
def storesFailed (x : Step Runtime Action) (id : String) : Bool :=
  match x.label with
  | .step i _ =>
    match x.before.pending i with
    | some ⟨_, .storage (.update job)⟩ | some ⟨_, .storage (.insertJob job)⟩ =>
      decide (job.id = id ∧ job.state.kind = .failed)
    | _ => false
  | _ => false

/-- The task that makes the write of a retry in this step, and the job it writes, if
the write applies: `retry_job` returns `Ok(true)` then, and only then. -/
def retries (x : Step Runtime Action) : Option (Nat × Job) :=
  match x.label with
  | .step i _ =>
    match x.before.pending i with
    | some ⟨_, .storage (.updateIfState job expected)⟩ =>
      match x.before.storage.updateIfState job expected with
      | (.ok true, _) => some (i, job)
      | _ => none
    | _ => none
  | _ => none

/-- Whether the step is the write of a retry that returns `Ok(true)`, and the job was
stored as `Failed` between its read and this write. -/
def interrupted (pre : List (Step Runtime Action)) (x : Step Runtime Action) : Bool :=
  (retries x).any fun (i, job) => (since (reads i) pre).any fun z => storesFailed z job.id

/-- No such retry is interrupted. -/
def Uninterrupted (tr : List (Step Runtime Action)) : Prop :=
  ∀ pre x post, tr = pre ++ x :: post → interrupted pre x = false

/-- A retry that returns `Ok(true)` leaves all but the state of the job as it was
stored immediately before its write. -/
def KeepsWork (tr : List (Step Runtime Action)) : Prop :=
  ∀ x ∈ tr, ∀ i job, retries x = some (i, job) → ∃ old now,
    x.before.storage.get job.id = some old ∧
    x.after.storage.get job.id = some { old with state := .enqueued now old.queue }

/-- The attempt of a stored job never decreases. -/
def AttemptsGrow (tr : List (Step Runtime Action)) : Prop :=
  ∀ x ∈ tr, ∀ id old new, x.before.storage.get id = some old →
    x.after.storage.get id = some new → old.attempt ≤ new.attempt

/-- If the job is stored as `Failed`, it is stored as `c`. -/
def Matches (s : Runtime) (id : String) (c : Job) : Prop :=
  ∀ old, s.storage.jobs.get? id = some old → old.state.kind = .failed → old = c

theorem storesFailed_update {env : Env} (h : s.Calls i (.storage (.update job)))
    (hkind : job.state.kind = .failed) : storesFailed ⟨s, .step i env, t⟩ job.id = true := by
  simp [storesFailed, h.pending, hkind]

theorem storesFailed_insertJob {env : Env} (h : s.Calls i (.storage (.insertJob job)))
    (hkind : job.state.kind = .failed) : storesFailed ⟨s, .step i env, t⟩ job.id = true := by
  simp [storesFailed, h.pending, hkind]

theorem of_reads (h : reads i ⟨s, a, t⟩ = true) :
    ∃ env jobId, a = .step i env ∧ s.Calls i (.storage (.get jobId)) := by
  unfold reads at h
  split at h
  · rename_i j env hlabel
    split at h
    · rename_i jobId hpending
      obtain rfl := of_decide_eq_true h
      exact ⟨env, jobId, hlabel, Calls.of_pending hpending⟩
    · cases h
  · cases h

/-- Only an outcome or a client can put a job back into `Failed`, or replace a
`Failed` job by another. -/
theorem Matches.next (hl : s.Lawful) (h : Next s a t) (hm : s.Matches id c)
    (hstores : storesFailed ⟨s, a, t⟩ id = false) : t.Matches id c := by
  intro new hnew hkind
  rcases storage_cases h with hsame | ⟨i, env, ρ, op, reply, rfl, hcall, hop⟩
  · rw [hsame] at hnew
    exact hm new hnew hkind
  · have heffect := Section.effect hop id
    rw [hnew] at heffect
    generalize hbefore : s.storage.jobs.get? id = before at heffect
    cases heffect with
    | same => exact hm new hbefore hkind
    | update _ old hid =>
      rw [← hid, storesFailed_update hcall hkind] at hstores
      cases hstores
    | insert _ o hid =>
      rw [← hid, storesFailed_insertJob hcall hkind] at hstores
      cases hstores
    | updateIfState =>
      obtain ⟨_, -, -, -, -, henqueued⟩ := hcall.allowed hl
      rw [henqueued] at hkind
      cases hkind
    | promoteScheduled | promoteRetry | requeue | reclaim | claim => cases hkind

/-- What task `i` has read of its job is what is stored, if that is `Failed` and was
not stored so since. -/
def Knows (tr : List (Step Runtime Action)) (s : Runtime) (i : Nat) (id : String)
    (seen : Retry) : Prop :=
  ∀ c, seen.copy = some c → (∀ z ∈ since (reads i) tr, storesFailed z id = false) → s.Matches id c

variable {tr : List (Step Runtime Action)} {seen seen' : Retry}

theorem Knows.next (hl : s.Lawful) (h : Next s a t) (hreads : reads i ⟨s, a, t⟩ = false)
    (hcopy : seen'.copy = seen.copy) (hk : Knows tr s i id seen) :
    Knows (tr ++ [⟨s, a, t⟩]) t i id seen' := by
  intro c hc hquiet
  rw [since_snoc hreads] at hquiet
  rw [hcopy] at hc
  refine (hk c hc fun z hz => hquiet z (List.mem_cons_of_mem _ hz)).next hl h ?_
  exact hquiet _ List.mem_cons_self

/-- Every retry is somewhere inside its contract, with what it has read. -/
def Informed (tr : List (Step Runtime Action)) (s : Runtime) : Prop :=
  ∀ (i : Nat) (task : Task) (id : String), s.tasks[i]? = some task →
    task.routine = .retryJob id → ∃ seen,
      task.program.wp (Retrying id) (fun _ _ => True) seen ∧ Knows tr s i id seen

/-- What the call of a retry tells it. -/
theorem Knows.called {env : Env} {ρ : Type} {op : Call ρ} {reply : ρ} {storage : MemoryStorage}
    (hl : s.Lawful) (h : Next s (.step i env) t) (hcall : s.Calls i op)
    (hop : op.perform env s.storage = some (reply, storage)) (hstorage : t.storage = storage)
    (hmay : (Retrying id).may seen op) (hk : Knows tr s i id seen) :
    Knows (tr ++ [⟨s, .step i env, t⟩]) t i id (seen.after op reply) := by
  cases op with
  | now =>
    exact hk.next hl h (by simp [reads, hcall.pending]) rfl
  | random | execute | await | hook | panic => exact hmay.elim
  | storage op =>
    cases op
    case get jobId =>
      obtain rfl : jobId = id := hmay
      cases hop
      intro c hc _ old hold _
      change s.storage.get jobId = some c at hc
      rw [hstorage] at hold
      exact Option.some.inj (hold.symm.trans hc)
    case updateIfState job expected =>
      refine hk.next hl h (by simp [reads, hcall.pending]) ?_
      cases reply <;> rfl
    all_goals exact hmay.elim

theorem Informed.next (hl : s.Lawful) (hs : Informed tr s) (h : Next s a t) :
    Informed (tr ++ [⟨s, a, t⟩]) t := by
  have carry : ∀ {i : Nat} {task task' : Task} {id : String}, s.tasks[i]? = some task →
      task'.routine = task.routine → task'.program = task.program →
      reads i ⟨s, a, t⟩ = false → task'.routine = .retryJob id → ∃ seen,
        task'.program.wp (Retrying id) (fun _ _ => True) seen ∧
        Knows (tr ++ [⟨s, a, t⟩]) t i id seen := by
    intro i task task' id hi hroutine hprogram hreads hretry
    obtain ⟨seen, hwp, hk⟩ := hs i task id hi (hroutine ▸ hretry)
    exact ⟨seen, hprogram ▸ hwp, hk.next hl h hreads rfl⟩
  intro i task id hi hretry
  cases step_moves h with
  | spawned r =>
    rcases join_cases hi with ⟨-, rfl⟩ | hi
    · change r = _ at hretry
      subst hretry
      exact ⟨.none, retryJob_program id, fun c hc => (by cases hc)⟩
    · exact carry hi rfl rfl rfl hretry
  | aborted ht =>
    rcases set_cases hi with ⟨rfl, rfl⟩ | ⟨-, hi⟩
    · exact carry ht rfl rfl rfl hretry
    · exact carry hi rfl rfl rfl hretry
  | @panicked j env task' ρ op k ht ha hp hop =>
    have hreads : ∀ i, reads i ⟨s, .step j env, { s with
        tasks := s.tasks.set j { task' with alive := false } }⟩ = false := by
      intro i
      by_contra hreads
      obtain ⟨_, jobId, hstep, hget⟩ := of_reads (by simpa using hreads)
      cases hstep
      obtain ⟨task, k', ht', -, hp'⟩ := hget
      cases ht.symm.trans ht'
      cases hp.symm.trans hp'
      cases hop
    rcases set_cases hi with ⟨rfl, rfl⟩ | ⟨-, hi⟩
    · exact carry ht rfl rfl (hreads _) hretry
    · exact carry hi rfl rfl (hreads _) hretry
  | @called j env task' ρ op k reply storage ht ha hp hop =>
    rcases set_cases hi with ⟨rfl, rfl⟩ | ⟨hij, hi⟩
    · obtain ⟨seen, hwp, hk⟩ := hs _ _ id ht hretry
      rw [hp] at hwp
      refine ⟨seen.after op reply, hwp.2 _ _ ⟨Call.answers hop, rfl⟩, ?_⟩
      exact hk.called hl h ⟨task', k, ht, ha, hp⟩ hop rfl hwp.1
    · refine carry hi rfl rfl ?_ hretry
      by_contra hreads
      obtain ⟨_, _, hstep, -⟩ := of_reads (by simpa using hreads)
      cases hstep
      exact hij rfl

variable {storage : MemoryStorage}

theorem informed_run (hr : Run Next (idle storage) tr s) : Informed tr s :=
  hr.invariant Informed (fun _ _ _ h => by cases h) fun _ _ _ _ run hs h =>
    hs.next (lawful_run (lawful_idle storage) run) h

theorem of_retries (h : retries ⟨s, a, t⟩ = some (i, job)) : ∃ env expected storage,
    a = .step i env ∧ s.Calls i (.storage (.updateIfState job expected)) ∧
      s.storage.updateIfState job expected = (.ok true, storage) := by
  unfold retries at h
  split at h
  · rename_i j env hlabel
    split at h
    · rename_i job' expected hpending
      split at h
      · rename_i storage happlied
        cases h
        exact ⟨env, expected, storage, hlabel, Calls.of_pending hpending, happlied⟩
      · cases h
    · cases h
  · cases h

/-- The write of an uninterrupted retry. -/
theorem retry_keeps (hl : s.Lawful) (hs : Informed tr s) (h : Next s a t)
    (hretries : retries ⟨s, a, t⟩ = some (i, job))
    (hquiet : ∀ z ∈ since (reads i) tr, storesFailed z job.id = false) :
    ∃ old now, s.storage.get job.id = some old ∧
      t.storage.get job.id = some { old with state := .enqueued now old.queue } := by
  obtain ⟨env, expected, storage, rfl, hcall, happlied⟩ := of_retries hretries
  obtain ⟨task, k, ht, ha, hp⟩ := hcall
  obtain ⟨hroutine, rfl, -⟩ := (hl i task ht).allowed hp
  obtain ⟨seen, hwp, hk⟩ := hs i task job.id ht hroutine
  rw [hp] at hwp
  obtain ⟨-, -, c, now, hcopy, hid, hjob⟩ := hwp.1
  rcases MemoryStorage.updateIfState_failed happlied with ⟨-, hfailed, rfl⟩ | ⟨hno, -⟩
  · obtain ⟨old, hold, hkind⟩ := (Option.any_eq_true ..).mp hfailed
    obtain rfl := hk c hcopy hquiet old hold (of_decide_eq_true hkind)
    refine ⟨old, now, hold, ?_⟩
    rcases Calls.performed ⟨task, k, ht, ha, hp⟩ h with ⟨reply, hop⟩ | ⟨hop, -⟩
    · have hafter := (Option.some.inj hop).symm.trans happlied
      rw [(Prod.mk.inj hafter).2, MemoryStorage.get, Jobs.get?_insert, if_pos rfl, ← hjob]
    · cases hop
  · exact absurd rfl hno

theorem keepsWork_of_uninterrupted (hr : Run Next (idle storage) tr s)
    (hretries : Uninterrupted tr) : KeepsWork tr := by
  intro x hx i job hwrite
  obtain ⟨pre, post, rfl⟩ := List.append_of_mem hx
  obtain ⟨hpre, hnext, -⟩ := hr.around
  refine retry_keeps (lawful_run (lawful_idle storage) hpre) (informed_run hpre) hnext hwrite ?_
  have hquiet := hretries pre x post rfl
  rw [interrupted, hwrite, Option.any_some, List.any_eq_false] at hquiet
  exact fun z hz => by simpa using hquiet z hz

theorem retries_of_calls {env : Env} {old : Job}
    (h : s.Calls i (.storage (.updateIfState job old.state.kind)))
    (hold : s.storage.jobs.get? job.id = some old) :
    retries ⟨s, .step i env, t⟩ = some (i, job) := by
  simp [retries, h.pending, MemoryStorage.updateIfState, hold]

/-- An outcome counts one attempt more; whatever else is stored keeps the count. -/
theorem attempts_next {old new : Job} (hl : s.Lawful) (hs : s.AtWork) (h : Next s a t)
    (hfresh : s.reinserts a = false)
    (hkeeps : ∀ i job, retries ⟨s, a, t⟩ = some (i, job) → ∃ old now,
      s.storage.get job.id = some old ∧
      t.storage.get job.id = some { old with state := .enqueued now old.queue })
    (hold : s.storage.get id = some old) (hnew : t.storage.get id = some new) :
    old.attempt ≤ new.attempt := by
  rcases storage_cases h with hsame | ⟨i, env, ρ, op, reply, rfl, hcall, hop⟩
  · rw [hsame, hold] at hnew
    cases hnew
    exact UInt32.le_refl _
  · have heffect := Section.effect hop id
    simp only [MemoryStorage.get] at hold hnew hkeeps
    rw [hold, hnew] at heffect
    cases heffect with
    | same => exact UInt32.le_refl _
    | update _ _ hid =>
      obtain ⟨p, c, hc, hout⟩ := hcall.update_holder hl
      obtain rfl := hs.stored i c hc old (by rw [← hout.id_eq, hid, hold])
      rw [hout.attempt_eq, UInt32.le_iff_toNat_le]
      exact Job.le_bump _
    | updateIfState _ _ hid =>
      subst hid
      obtain ⟨old', now, hold', hnew'⟩ := hkeeps i _ (retries_of_calls hcall hold)
      cases hold.symm.trans hold'
      cases hnew.symm.trans hnew'
      exact UInt32.le_refl _
    | insert _ _ hid =>
      rw [← hid, (hcall.not_reinserts hfresh).1] at hold
      cases hold
    | promoteScheduled | promoteRetry | requeue | reclaim | claim => exact UInt32.le_refl _

/-- A retry changes nothing but the state of its job, as long as the job does not fail
again between its read and its write. The attempt of a job then never decreases, if
moreover recoveries leave alone what a worker is still at work on. -/
theorem retries_keep_work (hr : Run Next (idle storage) tr s) (hretries : Uninterrupted tr) :
    KeepsWork tr ∧ ((∀ x ∈ tr, x.before.recoversHeld false x.label = false) →
      (∀ x ∈ tr, x.before.reinserts x.label = false) → AttemptsGrow tr) := by
  have hkeeps := keepsWork_of_uninterrupted hr hretries
  refine ⟨hkeeps, fun hspares hfresh x hx id old new hold hnew => ?_⟩
  obtain ⟨pre, hsub, hpre, hnext⟩ := hr.of_mem hx
  have hwork := atWork_run hpre (fun y hy => hspares y (hsub y hy)) fun y hy => hfresh y (hsub y hy)
  exact attempts_next (lawful_run (lawful_idle storage) hpre) hwork hnext (hfresh x hx)
    (hkeeps x hx) hold hnew

/-- Worker number `n` claims the job and fails it for good. -/
def failing (i n : Nat) (now : DateTime) : List Action :=
  let server := BackgroundJobServer.new .default fun _ => true
  [Action.spawn (server.worker "qml-server" n 1)] ++
    Action.calls i 10 now (.finished (.ok (.failure "rejected" none .empty)))

/-- The job is enqueued, fails, is retried, and fails again. -/
def retryAndFail : List Action :=
  [Action.spawn (.enqueue (Job.new "job" 0 "send_email" .null))] ++ Action.calls 0 2 0 .elapsed ++
  failing 1 0 0 ++ [Action.spawn (.retryJob "job")] ++ Action.calls 2 3 0 .elapsed ++
  failing 3 1 (Duration.minutes 40)

theorem retries_keep_work_retryAndFail : ∃ tr s, Run Next (idle (.empty none)) tr s ∧
    (∃ x ∈ tr, (retries x).isSome = true) ∧
    (s.storage.get "job").map Job.attempt = some 2 ∧ KeepsWork tr ∧ AttemptsGrow tr := by
  obtain ⟨s, hr⟩ := replay_run step (idle (.empty none)) retryAndFail
  have hchecked : checkCuts (fun pre x => !interrupted pre x) []
      (replay step (idle (.empty none)) retryAndFail) = true := by decide +kernel
  have hquiet : Uninterrupted (replay step (idle (.empty none)) retryAndFail) := by
    intro pre x post hcut
    rw [hcut] at hchecked
    simpa using checkCuts_cut hchecked
  obtain ⟨hkeeps, hgrow⟩ := retries_keep_work hr hquiet
  refine ⟨_, s, hr, by decide +kernel, ?_, hkeeps, hgrow (by decide +kernel) (by decide +kernel)⟩
  rw [hr.eq_last]
  decide +kernel

/-- Two users retry the failed job. The second is done, and the job has failed once
more, before the first goes on to its write. -/
def staleRetry : List Action :=
  let late := Duration.minutes 40
  [Action.spawn (.enqueue (Job.new "job" 0 "send_email" .null))] ++ Action.calls 0 2 0 .elapsed ++
  failing 1 0 0 ++ [Action.spawn (.retryJob "job")] ++ Action.calls 2 1 0 .elapsed ++
  [Action.spawn (.retryJob "job")] ++ Action.calls 3 3 0 .elapsed ++ failing 4 1 late ++
  Action.calls 2 2 late .elapsed

/-- The first retry returns `Ok(true)` and takes the job back to its first attempt. -/
theorem stale_retry_rewinds : ∃ tr s, Run Next (idle (.empty none)) tr s ∧
    (∀ x ∈ tr, x.before.recoversHeld false x.label = false) ∧
    (∀ x ∈ tr, x.before.reinserts x.label = false) ∧ ¬ KeepsWork tr ∧ ¬ AttemptsGrow tr := by
  obtain ⟨s, hr⟩ := replay_run step (idle (.empty none)) staleRetry
  have hback : ∃ x ∈ replay step (idle (.empty none)) staleRetry,
      (retries x).map (fun w => w.2.id) = some "job" ∧
      (x.before.storage.get "job").map Job.attempt = some 2 ∧
      (x.after.storage.get "job").map Job.attempt = some 1 := by
    decide +kernel
  obtain ⟨x, hx, hwrite, hbefore, hafter⟩ := hback
  obtain ⟨old, hold, hattempt⟩ := Option.map_eq_some_iff.mp hbefore
  obtain ⟨new, hnew, hattempt'⟩ := Option.map_eq_some_iff.mp hafter
  refine ⟨_, s, hr, by decide +kernel, by decide +kernel, fun h => ?_, fun h => ?_⟩
  · obtain ⟨⟨i, job⟩, hretries, hid⟩ := Option.map_eq_some_iff.mp hwrite
    obtain ⟨old', now, hold', hnew'⟩ := h x hx i job hretries
    rw [hid] at hold' hnew'
    cases hold.symm.trans hold'
    cases hnew.symm.trans hnew'
    exact absurd (hattempt.symm.trans hattempt') (by decide)
  · have hle := h x hx "job" old new hold hnew
    rw [hattempt, hattempt'] at hle
    exact absurd hle (by decide)

end Runtime
end Qml
