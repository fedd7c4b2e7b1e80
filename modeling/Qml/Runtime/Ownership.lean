import Qml.Runtime.Holders

namespace Qml
open Lib

namespace Runtime
variable {s : Runtime} {storage : MemoryStorage} {tr : List (Step Runtime Action)}
  {x : Step Runtime Action} {i : Nat} {c job : Job}

/-- Task `i` stores `job` as the outcome of its claim in this step. -/
def OutcomeWrite (x : Step Runtime Action) (i : Nat) (job : Job) : Prop :=
  ∃ env, x.label = .step i env ∧ x.before.Calls i (.storage (.update job))

/-- Task `i` claimed `c` in this history, and `c` is stored since. -/
def ClaimedAndKept (tr : List (Step Runtime Action)) (i : Nat) (c : Job) : Prop :=
  ∃ pre x post, tr = pre ++ x :: post ∧ x.before.Takes x.label x.after i c ∧
    x.after.storage.jobs.get? c.id = some c ∧
    ∀ y ∈ post, y.before.storage.jobs.get? c.id = some c ∧
      y.after.storage.jobs.get? c.id = some c

/-- Each outcome is written over the `Processing` copy that the same task put
there with its own claim. -/
def OutcomesOwned (tr : List (Step Runtime Action)) : Prop :=
  ∀ pre x post i job, tr = pre ++ x :: post → OutcomeWrite x i job →
    ∃ c, x.before.storage.jobs.get? job.id = some c ∧ c.state.kind = .processing ∧
      ClaimedAndKept pre i c

/-- A job once stored as `Succeeded` stays as it is. -/
def SucceededKept (tr : List (Step Runtime Action)) : Prop :=
  ∀ pre x post id old, tr = pre ++ x :: post → x.before.storage.jobs.get? id = some old →
    old.state.kind = .succeeded → ∀ y ∈ x :: post, y.after.storage.jobs.get? id = some old

/-- Every copy a task holds was put there by a claim of that task and is stored
unchanged since. -/
theorem claimed_and_kept (hr : Run Next (idle storage) tr s)
    (hu : ∀ x ∈ tr, x.before.Lawful → Exclusive false x.before → Undisturbed false x)
    (hh : Holder false s i c) : ClaimedAndKept tr i c := by
  induction hr generalizing i c with
  | nil => exact absurd hh no_holder
  | @snoc tr t u a run h ih =>
    have hu' : ∀ x ∈ tr, _ := fun x hx => hu x (List.mem_append_left _ hx)
    have hl := lawful_run (lawful_idle storage) run
    have he := exclusive_run run hu'
    rcases holder_cases h hh with ⟨hold, hown⟩ | htake
    · obtain ⟨pre, x, post, rfl, htake, hx, hpost⟩ := ih hu' hold
      refine ⟨pre, x, post ++ [⟨t, a, u⟩], by simp, htake, hx, fun y hy => ?_⟩
      rcases List.mem_append.mp hy with hy | hy
      · exact hpost y hy
      · rw [List.mem_singleton.mp hy]
        exact ⟨he.stored i c hold, he.kept hl hold h (hu _ (by simp) hl he) hown⟩
    · obtain ⟨_, _, _, -, -, -, -, -, hstored⟩ := htake.spec
      exact ⟨tr, ⟨t, a, u⟩, [], rfl, htake, hstored, fun _ h => by cases h⟩

/-- The outcome of a claim is written by its holder. -/
theorem OutcomeWrite.holder (hl : x.before.Lawful) (h : OutcomeWrite x i job) :
    ∃ p c, Holder false x.before i c ∧ Outcome p c job := by
  obtain ⟨env, -, hcall⟩ := h
  exact hcall.update_holder hl

theorem outcomes_owned (hr : Run Next (idle storage) tr s)
    (hu : ∀ x ∈ tr, x.before.Lawful → Exclusive false x.before → Undisturbed false x) :
    OutcomesOwned tr := by
  rintro pre x post i job rfl hwrite
  have hu' : ∀ y ∈ pre, _ := fun y hy => hu y (List.mem_append_left _ hy)
  obtain ⟨hpre, -, -⟩ := hr.around
  have hl := lawful_run (lawful_idle storage) hpre
  obtain ⟨p, c, hh, hout⟩ := hwrite.holder hl
  refine ⟨c, ?_, hh.processing hl, claimed_and_kept hpre hu' hh⟩
  rw [hout.id_eq]
  exact (exclusive_run hpre hu').stored i c hh

/-- Nothing but an outcome write changes a `Succeeded` job, in a run without
deletions whose clients enqueue fresh identifiers. -/
theorem succeeded_step {t : Runtime} {a : Action} {id : String} {old : Job}
    (hcaller : ∀ {i : Nat} {ρ : Type} {op : Call ρ}, s.Calls i op → ∃ task : Task,
      s.tasks[i]? = some task ∧ recovering task.routine = true ∧
        task.routine.Allowed task.phase op)
    (hl : s.Lawful) (he : Exclusive false s) (hf : s.insertsStored a = false) (h : Next s a t)
    (hold : s.storage.jobs.get? id = some old) (hk : old.state.kind = .succeeded) :
    t.storage.jobs.get? id = some old := by
  rcases storage_cases h with hsame | ⟨i, env, ρ, op, reply, rfl, hcall, hop⟩
  · rw [hsame, hold]
  · have heff := Section.effect hop id
    obtain ⟨task, -, hkind, hallowed⟩ := hcaller hcall
    rw [hold] at heff
    generalize t.storage.jobs.get? id = after at heff
    cases heff with
    | same => rfl
    | update job _ hid =>
      have hwrite : OutcomeWrite ⟨s, .step i env, t⟩ i job := ⟨env, rfl, hcall⟩
      obtain ⟨p, c, hh, hout⟩ := hwrite.holder hl
      have hst := he.stored i c hh
      rw [← hout.id_eq, hid, hold] at hst
      cases hst
      rw [hh.processing hl] at hk
      cases hk
    | updateIfState job =>
      obtain ⟨-, hfailed, -⟩ := hallowed
      rw [hk] at hfailed
      cases hfailed
    | delete =>
      have hr : task.routine = .deleteJob _ := hallowed
      rw [hr] at hkind
      cases hkind
    | insert job _ hid =>
      rw [insertsStored, hcall.inserts, Option.any_some, hid, hold] at hf
      cases hf
    | promoteScheduled _ _ _ hdue =>
      have := MemoryStorage.dueScheduled_kind hdue
      simp [hk] at this
    | promoteRetry _ _ _ hdue =>
      have := MemoryStorage.dueRetry_kind hdue
      simp [hk] at this
    | expire =>
      obtain ⟨_, hr⟩ := hallowed
      rw [hr] at hkind
      cases hkind
    | requeue _ _ hlost =>
      have := MemoryStorage.stale_kind hlost
      simp [hk] at this
    | reclaim _ _ hlost =>
      have := MemoryStorage.ownedBy_kind hlost
      simp [hk] at this
    | claim _ _ _ havail =>
      have := MemoryStorage.available_kind havail
      simp [hk] at this

/-- As long as recoveries leave alone what a task is still at work on, every
outcome is written over the task's own claim, and a finished job stays finished. -/
theorem worker_outcomes_owned (hr : Run Next (idle storage) tr s)
    (hkind : ∀ x ∈ tr, x.label.spawns recovering = true)
    (hfresh : ∀ x ∈ tr, x.before.insertsStored x.label = false)
    (hspares : ∀ x ∈ tr, x.before.recoversHeld false x.label = false) :
    OutcomesOwned tr ∧ SucceededKept tr := by
  have hcaller : ∀ x ∈ tr, ∀ {i : Nat} {ρ : Type} {op : Call ρ}, x.before.Calls i op →
      ∃ task : Task, x.before.tasks[i]? = some task ∧ recovering task.routine = true ∧
        task.routine.Allowed task.phase op := by
    intro x hx i ρ op hcall
    obtain ⟨pre, hsub, hpre, -⟩ := hr.of_mem hx
    exact caller hpre (fun y hy => hkind y (hsub y hy)) hcall
  have hu : ∀ x ∈ tr, x.before.Lawful → Exclusive false x.before → Undisturbed false x :=
    fun x hx _ he => undisturbed (hcaller x hx) he (hspares x hx) (hfresh x hx)
  refine ⟨outcomes_owned hr hu, ?_⟩
  rintro pre x post id old rfl hold hk
  refine hr.stays (fun s => s.storage.jobs.get? id = some old) hold fun z hz hzold => ?_
  have hzmem := List.mem_append_right pre hz
  obtain ⟨zpre, hsub, hzrun, hznext⟩ := hr.of_mem hzmem
  exact succeeded_step (hcaller z hzmem) (lawful_run (lawful_idle storage) hzrun)
    (exclusive_run hzrun fun w hw => hu w (hsub w hw)) (hfresh z hzmem) hznext hzold hk

/-- Whether the next outcome is written over a job that is not `Processing`. -/
def overwritesOther (s : Runtime) : Action → Bool
  | .step i _ =>
    match s.pending i with
    | some ⟨_, .storage (.update job)⟩ =>
      (s.storage.jobs.get? job.id).any fun old => decide (old.state.kind ≠ .processing)
    | _ => false
  | _ => false

theorem OutcomesOwned.over_processing (h : OutcomesOwned tr) (hx : x ∈ tr) :
    x.before.overwritesOther x.label = false := by
  obtain ⟨pre, post, rfl⟩ := List.append_of_mem hx
  unfold overwritesOther
  split
  · rename_i i env hlabel
    split
    · rename_i job hp
      obtain ⟨c, hc, hk, -⟩ := h pre x post i job rfl ⟨env, hlabel, Calls.of_pending hp⟩
      simp [hc, hk]
    · rfl
  · rfl

/-- A worker stalls past the recovery threshold, a server starts, a second
worker claims the job again and succeeds, and the first one comes back. -/
def lateOutcome : List Action :=
  let server := BackgroundJobServer.new .default fun _ => true
  let late := Duration.minutes 10
  [Action.spawn (.enqueue (Job.new "a" 0 "send_email" .null))] ++ Action.calls 0 2 0 .elapsed ++
  [Action.spawn (server.worker "qml-server" 0 1)] ++ Action.calls 1 5 0 .elapsed ++
  [Action.spawn (.start server "")] ++ Action.calls 2 2 late .elapsed ++
  [Action.spawn (server.worker "qml-server" 1 1)] ++
  Action.calls 3 10 late (.finished (.ok (.success none 0 .empty))) ++
  Action.calls 1 6 late (.finished (.ok (.retry "connection reset" none none .empty)))

/-- The late outcome is written although the claim behind it is gone, and turns
a `Succeeded` job back into `AwaitingRetry`. -/
theorem late_outcome_overwrites :
    ∃ tr s, Run Next (idle (.empty none)) tr s ∧
      (∀ x ∈ tr, x.label.spawns recovering = true) ∧
      (∀ x ∈ tr, x.before.insertsStored x.label = false) ∧
      ¬ OutcomesOwned tr ∧ ¬ SucceededKept tr := by
  obtain ⟨s, hr⟩ := replay_run step (idle (.empty none)) lateOutcome
  refine ⟨_, s, hr, by decide +kernel, by decide +kernel, fun h => ?_, fun h => ?_⟩
  · have hover : ∃ x ∈ replay step (idle (.empty none)) lateOutcome,
        x.before.overwritesOther x.label = true := by decide +kernel
    obtain ⟨x, hx, hover⟩ := hover
    rw [h.over_processing hx] at hover
    cases hover
  · have hback : ∃ x ∈ replay step (idle (.empty none)) lateOutcome,
        (x.before.storage.jobs.get? "a").map (·.state.kind) = some .succeeded ∧
        (x.after.storage.jobs.get? "a").map (·.state.kind) = some .awaitingRetry := by
      decide +kernel
    obtain ⟨x, hx, hbefore, hafter⟩ := hback
    obtain ⟨pre, post, hcut⟩ := List.append_of_mem hx
    obtain ⟨old, hold, hk⟩ := Option.map_eq_some_iff.mp hbefore
    have := h pre x post "a" old hcut hold hk x (by simp)
    rw [this, Option.map_some, hk] at hafter
    cases hafter

/-- The first worker crashes instead of stalling. -/
def crashedWorker : List Action :=
  let server := BackgroundJobServer.new .default fun _ => true
  let late := Duration.minutes 10
  [Action.spawn (.enqueue (Job.new "a" 0 "send_email" .null))] ++ Action.calls 0 2 0 .elapsed ++
  [Action.spawn (server.worker "qml-server" 0 1)] ++ Action.calls 1 5 0 .elapsed ++
  [Action.abort 1] ++
  [Action.spawn (.start server "")] ++ Action.calls 2 2 late .elapsed ++
  [Action.spawn (server.worker "qml-server" 1 1)] ++
  Action.calls 3 10 late (.finished (.ok (.success none 0 .empty)))

theorem worker_outcomes_owned_after_crash :
    ∃ tr s, Run Next (idle (.empty none)) tr s ∧
      (∃ x ∈ tr, (x.after.storage.jobs.get? "a").map (·.state.kind) = some .succeeded) ∧
      OutcomesOwned tr ∧ SucceededKept tr := by
  obtain ⟨s, hr⟩ := replay_run step (idle (.empty none)) crashedWorker
  exact ⟨_, s, hr, by decide +kernel, worker_outcomes_owned hr (by decide +kernel)
    (by decide +kernel) (by decide +kernel)⟩

end Runtime
end Qml
