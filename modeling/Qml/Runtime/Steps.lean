import Qml.Lib.Pool
import Qml.Memory.Effects
import Qml.Runtime.Contracts

namespace Qml
open Lib

namespace Runtime
variable {s t : Runtime} {a : Action}

/-- What one step of the system can be. -/
inductive Moves : Runtime → Action → Runtime → Prop
  | spawned (s : Runtime) (r : Routine) :
      Moves s (.spawn r) { s with tasks := s.tasks ++ [r.task] }
  | aborted {s : Runtime} {i : Nat} {task : Task} (ht : s.tasks[i]? = some task) :
      Moves s (.abort i) { s with tasks := s.tasks.set i { task with alive := false } }
  | called {s : Runtime} {i : Nat} {env : Env} {task : Task} {ρ : Type} {op : Call ρ}
      {k : ρ → Prog Call Unit} {reply : ρ} {storage : MemoryStorage}
      (ht : s.tasks[i]? = some task) (ha : task.alive = true) (hp : task.program = .call op k)
      (hop : op.perform env s.storage = some (reply, storage)) :
      Moves s (.step i env) ⟨storage, s.tasks.set i
        { task with program := k reply, phase := task.phase.after op reply }⟩
  | panicked {s : Runtime} {i : Nat} {env : Env} {task : Task} {ρ : Type} {op : Call ρ}
      {k : ρ → Prog Call Unit}
      (ht : s.tasks[i]? = some task) (ha : task.alive = true) (hp : task.program = .call op k)
      (hop : op.perform env s.storage = none) :
      Moves s (.step i env) { s with tasks := s.tasks.set i { task with alive := false } }

theorem step_moves (h : s.step a = some t) : Moves s a t := by
  cases a with
  | spawn r =>
    cases h
    exact .spawned s r
  | abort i =>
    obtain ⟨task, ht, rfl⟩ := Option.map_eq_some_iff.mp h
    exact .aborted ht
  | step i env =>
    simp only [step] at h
    split at h
    · rename_i task ht
      obtain ⟨⟨task', storage⟩, hr, rfl⟩ := Option.map_eq_some_iff.mp h
      unfold Task.resume at hr
      split at hr
      · rename_i ha
        split at hr
        · cases hr
        · rename_i ρ op k hp
          split at hr <;> cases hr
          · exact .called ht ha hp ‹_›
          · exact .panicked ht ha hp ‹_›
      · cases hr
    · cases h

/-- A step changes the storage only by one section of one live task. -/
theorem storage_cases (h : Next s a t) : t.storage = s.storage ∨
    ∃ i env ρ, ∃ (op : Section ρ) (reply : ρ), a = .step i env ∧ s.Calls i (.storage op) ∧
      op.perform env.toReading s.storage = some (reply, t.storage) := by
  cases step_moves h with
  | spawned | aborted | panicked => exact .inl rfl
  | @called i env task ρ op k reply storage ht ha hp hop =>
    cases op with
    | storage op => exact .inr ⟨i, env, ρ, op, reply, rfl, ⟨task, k, ht, ha, hp⟩, hop⟩
    | now | random | execute | await | hook =>
      cases hop
      exact .inl rfl
    | panic => cases hop

/-- A section that a task has asked for is what its next step runs. -/
theorem Calls.performed {i : Nat} {env : Env} {ρ : Type} {op : Section ρ}
    (hcall : s.Calls i (.storage op)) (h : Next s (.step i env) t) :
    (∃ reply, op.perform env.toReading s.storage = some (reply, t.storage)) ∨
      op.perform env.toReading s.storage = none ∧ t.storage = s.storage := by
  obtain ⟨task, k, ht, -, hp⟩ := hcall
  cases step_moves h with
  | called ht' _ hp' hop =>
    cases ht.symm.trans ht'
    cases hp.symm.trans hp'
    exact .inl ⟨_, hop⟩
  | panicked ht' _ hp' hop =>
    cases ht.symm.trans ht'
    cases hp.symm.trans hp'
    exact .inr ⟨hop, rfl⟩

end Runtime

/-- The storage keeps its promises about replies. -/
theorem Call.answers {op : Call ρ} {env : Env} {s s' : MemoryStorage} {reply : ρ}
    (h : op.perform env s = some (reply, s')) : Answers op reply := by
  cases op with
  | now | random | execute | await | hook => trivial
  | panic => cases h
  | storage op =>
    cases op
    case get jobId =>
      cases h
      cases hj : s.get jobId with
      | none => trivial
      | some job => exact Jobs.id_of_get? hj
    case lockAvailableJob workerId queues =>
      simp only [Call.perform, Section.perform, Option.some.injEq] at h
      generalize hl : (s.reorder env.order).lockAvailableJob workerId queues env.fetch = res at h
      obtain ⟨_ | job, after⟩ := res <;> cases h
      · trivial
      · obtain ⟨old, -, -, -, -, rfl, -⟩ := MemoryStorage.lockAvailableJob_some hl
        exact ⟨_, rfl⟩
    all_goals trivial

/-- A worker holding a copy holds it in the state its claim gave it. -/
def Task.Holds (task : Task) (c : Job) : Prop :=
  task.phase.held = some c

/-- Every task is somewhere inside its routine's contract, and only workers
hold jobs, each in the `Processing` state of its own claim. -/
structure Disciplined (task : Task) : Prop where
  ends : Ends task.routine task.program task.phase
  holds : ∀ c, task.Holds c → ∃ p queues rounds t, task.routine = .worker p queues rounds ∧
    c.state = .processing t p.workerConfig.workerId "memory-storage"

theorem Task.holds_of_grip {task : Task} {crashes : Bool} {c : Job}
    (h : task.grip crashes = some c) : task.Holds c := by
  unfold grip at h
  split at h
  · exact h
  · split at h
    · unfold Holds
      cases hφ : task.phase <;> simp_all [Phase.started, Phase.held]
    · cases h

/-- A task that dies keeps at most the grip it had. -/
theorem Task.grip_dead {task : Task} {crashes : Bool} {c : Job}
    (h : Task.grip crashes { task with alive := false } = some c) :
    task.grip crashes = some c := by
  have hholds := Task.holds_of_grip h
  cases ha : task.alive with
  | true => simpa [grip, ha, Holds] using hholds
  | false => simpa [grip, ha] using h

/-- The calls and replies that are claims. -/
inductive Grants : {ρ : Type} → Call ρ → ρ → Job → Prop
  | intro (w : String) (q : Option (List String)) (c : Job) :
      Grants (.storage (.lockAvailableJob w q)) (.ok (some c)) c

namespace Disciplined
variable {task : Task}

theorem fresh (r : Routine) : Disciplined r.task :=
  ⟨r.program_ends, fun _ h => by cases h⟩

theorem dead (h : Disciplined task) : Disciplined { task with alive := false } :=
  ⟨h.ends, h.holds⟩

theorem allowed {op : Call ρ} {k : ρ → Prog Call Unit} (h : Disciplined task)
    (hp : task.program = .call op k) : task.routine.Allowed task.phase op := by
  have := h.ends
  rw [hp] at this
  exact this.1

/-- What a call can newly make a task hold is what it just claimed. -/
theorem held_after {φ : Phase} {op : Call ρ} {reply : ρ} {c : Job}
    (h : (φ.after op reply).held = some c) : φ.held = some c ∨ Grants op reply c := by
  cases op with
  | now | random | await | hook | panic => exact .inl h
  | execute => cases φ <;> exact .inl h
  | storage op =>
    cases op
    case update => cases h
    case lockAvailableJob w q =>
      rcases reply with _ | _ | job
      · exact .inl h
      · exact .inl h
      · cases h
        exact .inr (.intro w q c)
    all_goals exact .inl h

theorem called {op : Call ρ} {k : ρ → Prog Call Unit} {env : Env} {s s' : MemoryStorage}
    {reply : ρ} (h : Disciplined task) (hp : task.program = .call op k)
    (hop : op.perform env s = some (reply, s')) :
    Disciplined { task with program := k reply, phase := task.phase.after op reply } := by
  have hans := Call.answers hop
  refine ⟨?_, fun c hc => ?_⟩
  · have hends := h.ends
    rw [hp] at hends
    exact hends.2 reply _ ⟨hans, rfl⟩
  · rcases held_after hc with hold | hclaim
    · exact h.holds c hold
    · cases hclaim with
      | intro w q =>
        obtain ⟨p, queues, rounds, hr, -, rfl, -⟩ := h.allowed hp
        obtain ⟨t, ht⟩ := hans
        exact ⟨p, queues, rounds, t, hr, ht⟩

end Disciplined

namespace Runtime
variable {s t : Runtime} {a : Action}

/-- Every task of the system keeps its contract. -/
def Lawful (s : Runtime) : Prop :=
  ∀ (i : Nat) (task : Task), s.tasks[i]? = some task → Disciplined task

/-- What holds of a task when it is spawned, when it dies and after each of its calls
holds of every task. -/
theorem tasks_kept {P : Task → Prop} (fresh : ∀ r : Routine, P r.task)
    (dead : ∀ task, P task → P { task with alive := false })
    (called : ∀ {task : Task} {ρ : Type} {op : Call ρ} {k : ρ → Prog Call Unit} {env : Env}
      {storage storage' : MemoryStorage} {reply : ρ}, P task → task.program = .call op k →
      op.perform env storage = some (reply, storage') →
      P { task with program := k reply, phase := task.phase.after op reply })
    (hs : ∀ (i : Nat) (task : Task), s.tasks[i]? = some task → P task) (h : Next s a t) :
    ∀ (i : Nat) (task : Task), t.tasks[i]? = some task → P task := by
  intro j task hj
  cases step_moves h with
  | spawned r =>
    rcases join_cases hj with ⟨-, rfl⟩ | hj
    · exact fresh r
    · exact hs j task hj
  | aborted ht =>
    rcases set_cases hj with ⟨rfl, rfl⟩ | ⟨-, hj⟩
    · exact dead _ (hs _ _ ht)
    · exact hs j task hj
  | called ht _ hp hop =>
    rcases set_cases hj with ⟨rfl, rfl⟩ | ⟨-, hj⟩
    · exact called (hs _ _ ht) hp hop
    · exact hs j task hj
  | panicked ht =>
    rcases set_cases hj with ⟨rfl, rfl⟩ | ⟨-, hj⟩
    · exact dead _ (hs _ _ ht)
    · exact hs j task hj

theorem Lawful.step (hs : s.Lawful) (h : Next s a t) : t.Lawful :=
  tasks_kept .fresh (fun _ hd => hd.dead) (fun hd hp hop => hd.called hp hop) hs h

theorem Calls.allowed (hs : s.Lawful) {i : Nat} {op : Call ρ} (h : s.Calls i op) :
    ∃ task, s.tasks[i]? = some task ∧ task.alive = true ∧
      task.routine.Allowed task.phase op := by
  obtain ⟨task, k, ht, ha, hp⟩ := h
  exact ⟨task, ht, ha, (hs i task ht).allowed hp⟩

end Runtime
end Qml
