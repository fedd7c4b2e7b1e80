import Qml.Runtime.Steps

namespace Qml
open Lib

namespace Runtime
variable {s t : Runtime} {a : Action} {i j : Nat} {c d : Job} {b : Bool}

/-- Task `i` has claimed `c`, has not yet stored an outcome for it, and still
answers for it. The flag says whether a crash in mid-execution counts. -/
def Holder (b : Bool) (s : Runtime) (i : Nat) (c : Job) : Prop :=
  ∃ task, s.tasks[i]? = some task ∧ task.grip b = some c

/-- The step in which task `i` claims `c`. -/
def Takes (s : Runtime) (a : Action) (t : Runtime) (i : Nat) (c : Job) : Prop :=
  ∃ env w q, a = .step i env ∧ s.Calls i (.storage (.lockAvailableJob w q)) ∧
    (Section.lockAvailableJob w q).perform env.toReading s.storage =
      some (.ok (some c), t.storage)

/-- What a claim found and what it left. -/
theorem Takes.spec (h : Takes s a t i c) : ∃ env old w,
    a = .step i env ∧ s.storage.jobs.get? c.id = some old ∧
      MemoryStorage.available env.fetch.select old = true ∧
      s.storage.locks.contains c.id = false ∧
      c = { old with state := .processing env.fetch.start w "memory-storage" } ∧
      t.storage.jobs.get? c.id = some c := by
  obtain ⟨env, w, q, rfl, -, hop⟩ := h
  simp only [Section.perform, Option.some.injEq] at hop
  generalize hl : (s.storage.reorder env.order).lockAvailableJob w q env.fetch = res at hop
  obtain ⟨_ | job, after⟩ := res <;> cases hop
  obtain ⟨old, hold, havail, -, hfree, rfl, heq⟩ := MemoryStorage.lockAvailableJob_some hl
  simp only [MemoryStorage.reorder_jobs, MemoryStorage.reorder_locks_contains] at hold hfree
  refine ⟨env, old, w, rfl, hold, havail, hfree, rfl, ?_⟩
  simp only [heq, Jobs.get?_insert, if_true]

theorem Holder.processing (hs : s.Lawful) (h : Holder b s i c) : c.state.kind = .processing := by
  obtain ⟨task, ht, hh⟩ := h
  obtain ⟨_, _, _, _, -, hst⟩ := (hs i task ht).holds c (Task.holds_of_grip hh)
  rw [hst]
  rfl

/-- A holder held the copy before the step, or the step claimed it. -/
theorem holder_cases (h : Next s a t) (hh : Holder b t i c) :
    (Holder b s i c ∧ ∀ env job, a = .step i env → ¬ s.Calls i (.storage (.update job))) ∨
      s.Takes a t i c := by
  obtain ⟨task', ht', hc⟩ := hh
  cases step_moves h with
  | spawned r =>
    rcases join_cases ht' with ⟨-, rfl⟩ | hj
    · cases hc
    · exact .inl ⟨⟨task', hj, hc⟩, fun _ _ h => by cases h⟩
  | aborted ht =>
    rcases set_cases ht' with ⟨rfl, rfl⟩ | ⟨-, hj⟩
    · exact .inl ⟨⟨_, ht, Task.grip_dead hc⟩, fun _ _ h => by cases h⟩
    · exact .inl ⟨⟨task', hj, hc⟩, fun _ _ h => by cases h⟩
  | @panicked j env task ρ op k ht ha hp hop =>
    rcases set_cases ht' with ⟨rfl, rfl⟩ | ⟨hij, hj⟩
    · refine .inl ⟨⟨task, ht, Task.grip_dead hc⟩, ?_⟩
      rintro _ job - ⟨task', k', ht', -, hp'⟩
      cases ht.symm.trans ht'
      cases hp.symm.trans hp'
      cases hop
    · refine .inl ⟨⟨task', hj, hc⟩, ?_⟩
      rintro _ job ⟨⟩
      exact absurd rfl hij
  | @called j env task ρ op k reply storage ht ha hp hop =>
    rcases set_cases ht' with ⟨rfl, rfl⟩ | ⟨hij, hj⟩
    · have hheld := Task.holds_of_grip hc
      rcases Disciplined.held_after hheld with hold | hclaim
      · refine .inl ⟨⟨task, ht, by simpa [Task.grip, ha] using hold⟩, ?_⟩
        rintro _ job - ⟨task', k', ht', -, hp'⟩
        cases ht.symm.trans ht'
        cases hp.symm.trans hp'
        cases hheld
      · cases hclaim with
        | intro w q => exact .inr ⟨env, w, q, rfl, ⟨task, k, ht, ha, hp⟩, hop⟩
    · refine .inl ⟨⟨task', hj, hc⟩, ?_⟩
      rintro _ job ⟨⟩
      exact absurd rfl hij

/-- The job whose outcome a task stores is the one it holds. -/
theorem Calls.update_holder {job : Job} (hl : s.Lawful) (h : s.Calls i (.storage (.update job))) :
    ∃ p c, Holder b s i c ∧ Outcome p c job := by
  obtain ⟨task, ht, ha, p, _, _, c, -, hout, hphase⟩ := h.allowed hl
  refine ⟨p, c, ⟨task, ht, ?_⟩, hout⟩
  rcases hphase with hφ | ⟨hφ, -⟩ <;> simp [Task.grip, ha, hφ, Phase.held]

/-- Where no job is claimed that is held, no two tasks come to hold the same one. -/
theorem unique_next (h : Next s a t)
    (hunique : ∀ i j c d, Holder b s i c → Holder b s j d → c.id = d.id → i = j)
    (hfresh : ∀ i j c d, s.Takes a t i c → Holder b s j d → c.id ≠ d.id) :
    ∀ i j c d, Holder b t i c → Holder b t j d → c.id = d.id → i = j := by
  intro i j c d hc hd hid
  rcases holder_cases h hc with ⟨hcold, -⟩ | hctake
  · rcases holder_cases h hd with ⟨hdold, -⟩ | hdtake
    · exact hunique i j c d hcold hdold hid
    · exact absurd hid.symm (hfresh j i d c hdtake hcold)
  · rcases holder_cases h hd with ⟨hdold, -⟩ | hdtake
    · exact absurd hid (hfresh i j c d hctake hdold)
    · obtain ⟨_, _, _, rfl, -⟩ := hctake
      obtain ⟨_, _, _, hij, -⟩ := hdtake
      cases hij
      rfl

/-- Whether a section of a recovery, a deletion, a sweep or a client goes over
the stored copy `c` although it is `Processing`. -/
def Disturbs (c : Job) : {ρ : Type} → Section ρ → Prop
  | _, .delete id => id = c.id
  | _, .insertJob job => job.id = c.id
  | _, .deleteExpiredJobs now => MemoryStorage.unexpired now c = false
  | _, .requeueStrandedJobs t => MemoryStorage.stale t c.state = true
  | _, .reclaimJobsFromServer serverId => MemoryStorage.ownedBy serverId c.state = true
  | _, _ => False

/-- No held job is disturbed in this step. -/
def Undisturbed (b : Bool) (x : Step Runtime Action) : Prop :=
  ∀ i env ρ, ∀ op : Section ρ, x.label = .step i env → x.before.Calls i (.storage op) →
    ∀ j c, Holder b x.before j c → ¬ Disturbs c op

/-- What a claim hands out is stored unchanged for as long as it is held, and
held by nobody else. -/
structure Exclusive (b : Bool) (s : Runtime) : Prop where
  stored : ∀ i c, Holder b s i c → s.storage.jobs.get? c.id = some c
  unique : ∀ i j c d, Holder b s i c → Holder b s j d → c.id = d.id → i = j

/-- A section that disturbs no held copy changes one only when its holder
stores the outcome. -/
theorem Exclusive.kept (hl : s.Lawful) (he : Exclusive b s) (hh : Holder b s i c)
    (h : Next s a t) (hu : Undisturbed b ⟨s, a, t⟩)
    (hown : ∀ env job, a = .step i env → ¬ s.Calls i (.storage (.update job))) :
    t.storage.jobs.get? c.id = some c := by
  have hstored := he.stored i c hh
  have hproc := hh.processing hl
  rcases storage_cases h with hsame | ⟨j, env, ρ, op, reply, rfl, hcall, hop⟩
  · rw [hsame, hstored]
  · have heff := Section.effect hop c.id
    have hdist := hu j env ρ op rfl hcall i c hh
    rw [hstored] at heff
    generalize t.storage.jobs.get? c.id = after at heff
    cases heff with
    | same => rfl
    | update job _ hid =>
      obtain ⟨p, d, hd, hout⟩ := hcall.update_holder hl
      obtain rfl := he.unique i j c d hh hd (hid.symm.trans hout.id_eq)
      exact absurd hcall (hown env job rfl)
    | updateIfState job =>
      obtain ⟨_, -, -, -, hk, -⟩ := hcall.allowed hl
      rw [hproc] at hk
      cases hk
    | delete => exact absurd rfl hdist
    | insert job _ hid => exact absurd hid hdist
    | promoteScheduled _ _ _ hdue =>
      have := MemoryStorage.dueScheduled_kind hdue
      simp [hproc] at this
    | promoteRetry _ _ _ hdue =>
      have := MemoryStorage.dueRetry_kind hdue
      simp [hproc] at this
    | expire _ _ hexp => exact absurd hexp hdist
    | requeue _ _ hlost | reclaim _ _ hlost => exact absurd hlost hdist
    | claim _ _ _ havail =>
      have := MemoryStorage.available_kind havail
      simp [hproc] at this

theorem Exclusive.step (hl : s.Lawful) (he : Exclusive b s) (h : Next s a t)
    (hu : Undisturbed b ⟨s, a, t⟩) : Exclusive b t := by
  have fresh : ∀ i j c d, s.Takes a t i c → Holder b s j d → c.id ≠ d.id := by
    intro i j c d htake hd hid
    obtain ⟨_, old, _, -, hold, havail, -⟩ := htake.spec
    rw [hid, he.stored j d hd] at hold
    cases hold
    have := MemoryStorage.available_kind havail
    simp [hd.processing hl] at this
  refine ⟨fun i c hc => ?_, unique_next h he.unique fresh⟩
  rcases holder_cases h hc with ⟨hold, hown⟩ | htake
  · exact he.kept hl hold h hu hown
  · obtain ⟨_, _, _, -, -, -, -, -, hstored⟩ := htake.spec
    exact hstored

theorem no_holder {storage : MemoryStorage} {i : Nat} {c : Job} :
    ¬ Holder b (idle storage) i c := by
  rintro ⟨task, ht, -⟩
  cases ht

theorem lawful_idle (storage : MemoryStorage) : (idle storage).Lawful := fun _ _ h => by cases h

theorem lawful_run {s₀ s : Runtime} {tr : List (Step Runtime Action)} (h₀ : s₀.Lawful)
    (hr : Run Next s₀ tr s) : s.Lawful :=
  hr.invariant (fun _ s => s.Lawful) h₀ fun _ _ _ _ _ hs h => hs.step h

theorem exclusive_run {storage : MemoryStorage} {s : Runtime} {tr : List (Step Runtime Action)}
    (hr : Run Next (idle storage) tr s)
    (hu : ∀ x ∈ tr, x.before.Lawful → Exclusive b x.before → Undisturbed b x) : Exclusive b s := by
  induction hr with
  | nil => exact ⟨fun _ _ h => absurd h no_holder, fun _ _ _ _ h => absurd h no_holder⟩
  | snoc run h ih =>
    have hl := lawful_run (lawful_idle storage) run
    have he := ih fun x hx => hu x (List.mem_append_left _ hx)
    exact he.step hl h (hu _ (by simp) hl he)

/-- Every task runs a routine that was spawned. -/
theorem spawned_run {storage : MemoryStorage} {s : Runtime} {tr : List (Step Runtime Action)}
    (hr : Run Next (idle storage) tr s) {i : Nat} {task : Task} (ht : s.tasks[i]? = some task) :
    ∃ x ∈ tr, x.label = .spawn task.routine := by
  induction hr generalizing i task with
  | nil => cases ht
  | @snoc tr u v a run h ih =>
    have old : ∀ {i : Nat} {task : Task}, u.tasks[i]? = some task →
        ∃ x ∈ tr ++ [⟨u, a, v⟩], x.label = .spawn task.routine := fun ht =>
      (ih ht).imp fun _ hx => ⟨List.mem_append_left _ hx.1, hx.2⟩
    cases step_moves h with
    | spawned r =>
      rcases join_cases ht with ⟨-, rfl⟩ | ht
      · exact ⟨_, List.mem_append_right _ (List.mem_singleton_self _), rfl⟩
      · exact old ht
    | aborted ht' | panicked ht' =>
      rcases set_cases ht with ⟨rfl, rfl⟩ | ⟨-, ht⟩
      · obtain ⟨x, hx, hspawn⟩ := old ht'
        exact ⟨x, hx, hspawn⟩
      · exact old ht
    | called ht' =>
      rcases set_cases ht with ⟨rfl, rfl⟩ | ⟨-, ht⟩
      · obtain ⟨x, hx, hspawn⟩ := old ht'
        exact ⟨x, hx, hspawn⟩
      · exact old ht

/-- The contract of the caller of a section, in a run that spawns only the
given kind of routines. -/
theorem caller {storage : MemoryStorage} {s : Runtime} {tr : List (Step Runtime Action)}
    {kind : Routine → Bool} (hr : Run Next (idle storage) tr s)
    (hk : ∀ x ∈ tr, x.label.spawns kind = true) {op : Call ρ} {i : Nat} (h : s.Calls i op) :
    ∃ task, s.tasks[i]? = some task ∧ kind task.routine = true ∧
      task.routine.Allowed task.phase op := by
  obtain ⟨task, ht, -, hallowed⟩ := h.allowed (lawful_run (lawful_idle storage) hr)
  obtain ⟨x, hx, hspawn⟩ := spawned_run hr ht
  have := hk x hx
  rw [hspawn] at this
  exact ⟨task, ht, this, hallowed⟩

/-- Clients, workers, the scheduler, and the two recovery paths. Nothing deletes. -/
def recovering : Routine → Bool
  | .worker .. | .scheduler .. | .heartbeat .. | .start .. | .retryJob _
  | .enqueue _ | .schedule .. => true
  | .cleanup _ | .deleteJob _ => false

/-- Whether some task answers for a copy in one of the given states. -/
def holdsAny (s : Runtime) (crashes : Bool) (lost : JobState → Bool) : Bool :=
  s.tasks.any fun task => (task.grip crashes).any fun c => lost c.state

/-- Whether the next section of a recovery takes a job from a task that still
answers for it. -/
def recoversHeld (s : Runtime) (crashes : Bool) : Action → Bool
  | .step i _ =>
    match s.pending i with
    | some ⟨_, .storage (.requeueStrandedJobs t)⟩ => s.holdsAny crashes (MemoryStorage.stale t)
    | some ⟨_, .storage (.reclaimJobsFromServer id)⟩ =>
      s.holdsAny crashes (MemoryStorage.ownedBy id)
    | _ => false
  | _ => false

/-- Whether the next section is one of a recovery. -/
def recovers (s : Runtime) : Action → Bool
  | .step i _ =>
    match s.pending i with
    | some ⟨_, .storage (.requeueStrandedJobs _)⟩
    | some ⟨_, .storage (.reclaimJobsFromServer _)⟩ => true
    | _ => false
  | _ => false

/-- Whether a client enqueues an identifier that is already stored. -/
def insertsStored (s : Runtime) (a : Action) : Bool :=
  (s.inserts a).any fun job => (s.storage.jobs.get? job.id).isSome

/-- The tasks that recover nothing. -/
def unrecovering : Routine → Bool
  | .heartbeat .. | .start .. => false
  | _ => true

theorem recoversHeld_eq_false (h : s.recovers a = false) : s.recoversHeld b a = false := by
  unfold recovers at h
  unfold recoversHeld
  split
  · split <;> simp_all
  · rfl

theorem recovers_eq_false {storage : MemoryStorage} {tr : List (Step Runtime Action)}
    (hr : Run Next (idle storage) tr s) (hkind : ∀ x ∈ tr, x.label.spawns unrecovering = true) :
    s.recovers a = false := by
  have hcaller := fun {i : Nat} {ρ : Type} {op : Call ρ} (h : s.Calls i op) => caller hr hkind h
  unfold recovers
  split
  · split
    · rename_i hp
      obtain ⟨task, -, hk, server, serverId, hroutine⟩ := hcaller (Calls.of_pending hp)
      rw [hroutine] at hk
      cases hk
    · rename_i hp
      obtain ⟨task, -, hk, server, timeout, rounds, hroutine⟩ := hcaller (Calls.of_pending hp)
      rw [hroutine] at hk
      cases hk
    · rfl
  · rfl

/-- Where no recovery is spawned, none takes a job from anyone. -/
theorem spares_of_unrecovering {storage : MemoryStorage} {tr : List (Step Runtime Action)}
    (hr : Run Next (idle storage) tr s)
    (hkind : ∀ x ∈ tr, x.label.spawns unrecovering = true) {x : Step Runtime Action}
    (hx : x ∈ tr) : x.before.recoversHeld b x.label = false := by
  obtain ⟨pre, hsub, hpre, -⟩ := hr.of_mem hx
  exact recoversHeld_eq_false (recovers_eq_false hpre fun y hy => hkind y (hsub y hy))

theorem Holder.holdsAny {lost : JobState → Bool} (h : Holder b s i c)
    (hc : lost c.state = true) : s.holdsAny b lost = true := by
  obtain ⟨task, ht, hh⟩ := h
  exact List.any_eq_true.mpr ⟨task, List.mem_of_getElem? ht, by simp [hh, hc]⟩

/-- What the conditions on a run say of one of its steps. -/
theorem undisturbed {x : Step Runtime Action}
    (hcaller : ∀ {i : Nat} {ρ : Type} {op : Call ρ}, x.before.Calls i op →
      ∃ task : Task, x.before.tasks[i]? = some task ∧ recovering task.routine = true ∧
        task.routine.Allowed task.phase op)
    (he : Exclusive b x.before) (hs : x.before.recoversHeld b x.label = false)
    (hf : x.before.insertsStored x.label = false) : Undisturbed b x := by
  intro i env ρ op hlabel hcall j c hh hdist
  obtain ⟨task, -, hk, hallowed⟩ := hcaller hcall
  simp only [recoversHeld, hlabel, hcall.pending] at hs
  cases op
  case delete =>
    have hr : task.routine = .deleteJob _ := hallowed
    rw [hr] at hk
    cases hk
  case insertJob job =>
    rw [hlabel, insertsStored, hcall.inserts, Option.any_some, show job.id = c.id from hdist,
      he.stored j c hh] at hf
    cases hf
  case deleteExpiredJobs =>
    obtain ⟨_, hr⟩ := hallowed
    rw [hr] at hk
    cases hk
  case requeueStrandedJobs t => exact absurd (hh.holdsAny hdist) (by simp [hs])
  case reclaimJobsFromServer id => exact absurd (hh.holdsAny hdist) (by simp [hs])
  all_goals exact hdist

end Runtime
end Qml
