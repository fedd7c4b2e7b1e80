import Qml.Lib.Pool
import Qml.Lib.Prog
import Qml.Lib.Run

namespace Lib
universe u v w

/-- What tasks work on: what a call does to the state, given what it reads from outside, and the
notes taken of a task along its calls. Something else may happen to the state besides. -/
structure Crew (Op : Type → Type u) (ν : Type) where
  State : Type
  Draw : Type
  Other : Type v
  perform : {ρ : Type} → Draw → State → Op ρ → ρ × State
  other : Other → State → Option State
  blank : ν
  after : ν → {ρ : Type} → Op ρ → ρ → ν

namespace Crew
variable {Op : Type → Type u} {δ α ν : Type}

/-- A task at its duty: what is left of its program. -/
structure Task (Op : Type → Type u) (δ α ν : Type) where
  duty : δ
  program : Prog Op α
  notes : ν
  alive : Bool

/-- The state, and the tasks at work on it. -/
structure Site (C : Crew.{u, v} Op ν) (δ α : Type) where
  state : C.State
  tasks : List (Task Op δ α ν)

/-- Start a task, let one make its next call, or drop one where it stands; or something else
happens to the state. -/
inductive Event (C : Crew.{u, v} Op ν) (δ : Type)
  | spawn (duty : δ)
  | step (i : Nat) (draw : C.Draw)
  | abort (i : Nat)
  | enter (op : C.Other)

variable {C : Crew.{u, v} Op ν}

def Task.start (C : Crew.{u, v} Op ν) (program : δ → Prog Op α) (duty : δ) : Task Op δ α ν :=
  ⟨duty, program duty, C.blank, true⟩

namespace Site

def next (program : δ → Prog Op α) (s : Site C δ α) : Event C δ → Option (Site C δ α)
  | .spawn duty => some { s with tasks := s.tasks ++ [.start C program duty] }
  | .step i draw =>
    match s.tasks[i]? with
    | some ⟨duty, .call op k, notes, true⟩ =>
      let (reply, state) := C.perform draw s.state op
      some ⟨state, s.tasks.set i ⟨duty, k reply, C.after notes op reply, true⟩⟩
    | _ => none
  | .abort i =>
    (s.tasks[i]?).map fun task => { s with tasks := s.tasks.set i { task with alive := false } }
  | .enter op => (C.other op s.state).map fun state => { s with state := state }

abbrev Next (program : δ → Prog Op α) (s : Site C δ α) (e : Event C δ) (t : Site C δ α) : Prop :=
  s.next program e = some t

/-- What one step can be. -/
inductive Moves (program : δ → Prog Op α) (s : Site C δ α) : Event C δ → Site C δ α → Prop
  | spawned (duty : δ) :
      Moves program s (.spawn duty) { s with tasks := s.tasks ++ [.start C program duty] }
  | called {i : Nat} {draw : C.Draw} {task : Task Op δ α ν} {ρ : Type} {op : Op ρ}
      {k : ρ → Prog Op α} {reply : ρ} {state : C.State} (htask : s.tasks[i]? = some task)
      (halive : task.alive = true) (hprogram : task.program = .call op k)
      (hperform : C.perform draw s.state op = (reply, state)) :
      Moves program s (.step i draw) ⟨state, s.tasks.set i
        { task with program := k reply, notes := C.after task.notes op reply }⟩
  | aborted {i : Nat} {task : Task Op δ α ν} (htask : s.tasks[i]? = some task) :
      Moves program s (.abort i) { s with tasks := s.tasks.set i { task with alive := false } }
  | entered {op : C.Other} {state : C.State} (hother : C.other op s.state = some state) :
      Moves program s (.enter op) { s with state := state }

section
variable {program : δ → Prog Op α} {s t : Site C δ α} {e : Event C δ}
  {tr : List (Step (Site C δ α) (Event C δ))}

theorem next_moves (h : Next program s e t) : Moves program s e t := by
  cases e with
  | spawn duty =>
    cases h
    exact .spawned duty
  | step i draw =>
    simp only [Next, next] at h
    split at h
    · rename_i htask
      cases h
      exact .called htask rfl rfl rfl
    · cases h
  | abort i =>
    obtain ⟨task, htask, rfl⟩ := Option.map_eq_some_iff.mp h
    exact .aborted htask
  | enter op =>
    obtain ⟨state, hother, rfl⟩ := Option.map_eq_some_iff.mp h
    exact .entered hother

/-- What holds of every task: of its duty, of what is left of its program, and of the notes. -/
def Every (Good : δ → Prog Op α → ν → Prop) (s : Site C δ α) : Prop :=
  ∀ task ∈ s.tasks, Good task.duty task.program task.notes

/-- A task is good from its start and by each of its calls. -/
structure Lasting (program : δ → Prog Op α) (C : Crew.{u, v} Op ν) (starts : δ → Prop)
    (Good : δ → Prog Op α → ν → Prop) : Prop where
  start : ∀ duty, starts duty → Good duty (program duty) C.blank
  call : ∀ {duty : δ} {notes : ν} {ρ : Type} {op : Op ρ} {k : ρ → Prog Op α} {draw : C.Draw}
    {state state' : C.State} {reply : ρ}, Good duty (.call op k) notes →
    C.perform draw state op = (reply, state') → Good duty (k reply) (C.after notes op reply)

/-- The duties for which tasks are started. -/
def Starts (starts : δ → Prop) (e : Event C δ) : Prop := ∀ duty, e = .spawn duty → starts duty

variable {starts : δ → Prop} {Good : δ → Prog Op α → ν → Prop}

theorem Every.next (h : s.Every Good) (hgood : Lasting program C starts Good)
    (hstarts : Starts starts e) (hnext : Next program s e t) : t.Every Good := by
  cases next_moves hnext with
  | spawned duty =>
    intro task hmem
    rcases List.mem_append.mp hmem with hmem | hmem
    · exact h task hmem
    · rw [List.mem_singleton.mp hmem]
      exact hgood.start duty (hstarts duty rfl)
  | called htask halive hprogram hperform =>
    intro other hmem
    rcases List.mem_or_eq_of_mem_set hmem with hmem | rfl
    · exact h other hmem
    · exact hgood.call (hprogram ▸ h _ (List.mem_of_getElem? htask)) hperform
  | aborted htask =>
    intro other hmem
    rcases List.mem_or_eq_of_mem_set hmem with hmem | rfl
    · exact h other hmem
    · exact (h _ (List.mem_of_getElem? htask) :)
  | entered hother => exact h

theorem Every.run (h : s.Every Good) (hgood : Lasting program C starts Good)
    (hr : Run (Next program) s tr t) (hstarts : ∀ x ∈ tr, Starts starts x.label) :
    t.Every Good := by
  refine hr.stable (Every Good) h fun x hx hbefore => ?_
  obtain ⟨_, -, -, hnext⟩ := hr.of_mem hx
  exact hbefore.next hgood (hstarts x hx) hnext

/-- Every task keeps to the contract of its duty. -/
abbrev Obeys (D : δ → Contract Op ν) (s : Site C δ α) : Prop :=
  s.Every fun duty program notes => program.wp (D duty) (fun _ _ => True) notes

theorem Obeys.may {D : δ → Contract Op ν} (h : s.Obeys D) {i : Nat} {task : Task Op δ α ν}
    {ρ : Type} {op : Op ρ} {k : ρ → Prog Op α} (htask : s.tasks[i]? = some task)
    (hprogram : task.program = .call op k) : (D task.duty).may task.notes op := by
  have hkeeps := h task (List.mem_of_getElem? htask)
  rw [hprogram] at hkeeps
  exact hkeeps.1

end

section
variable {κ : Type w}

/-- What the tasks hold of something, all of it. -/
def held (holds : Task Op δ α ν → List κ) (s : Site C δ α) : List κ := s.tasks.flatMap holds

/-- A property of the history, the state and all that the tasks hold of something. A task that
starts holds nothing. Each call of a good task may change its own part of it and the state, and
a task that is dropped its own part. -/
structure Custody (program : δ → Prog Op α) (Good : δ → Prog Op α → ν → Prop)
    (ok : Step (Site C δ α) (Event C δ) → Prop) (holds : Task Op δ α ν → List κ)
    (Kept : List (Step (Site C δ α) (Event C δ)) → C.State → List κ → Prop) : Prop where
  starts : ∀ duty, holds (.start C program duty) = []
  spawned : ∀ {tr s duty t}, Kept tr s.state (s.held holds) →
    Kept (tr ++ [⟨s, .spawn duty, t⟩]) s.state (s.held holds)
  called : ∀ {tr s i} {draw : C.Draw} {task : Task Op δ α ν} {ρ : Type} {op : Op ρ}
    {k : ρ → Prog Op α} {reply : ρ} {state : C.State} {t : Site C δ α} {before after : List κ},
    s.tasks[i]? = some task → task.alive = true → task.program = .call op k →
    Good task.duty (.call op k) task.notes → C.perform draw s.state op = (reply, state) →
    ok ⟨s, .step i draw, t⟩ → s.held holds = before ++ holds task ++ after →
    Kept tr s.state (before ++ holds task ++ after) → Kept (tr ++ [⟨s, .step i draw, t⟩]) state
      (before ++ holds { task with program := k reply, notes := C.after task.notes op reply } ++
        after)
  dropped : ∀ {tr s i t} {task : Task Op δ α ν} {before after : List κ},
    Kept tr s.state (before ++ holds task ++ after) → Kept (tr ++ [⟨s, .abort i, t⟩]) s.state
      (before ++ holds { task with alive := false } ++ after)
  entered : ∀ {tr s op t state}, C.other op s.state = some state →
    Kept tr s.state (s.held holds) → Kept (tr ++ [⟨s, .enter op, t⟩]) state (s.held holds)

variable {program : δ → Prog Op α} {s t : Site C δ α} {e : Event C δ}
  {tr : List (Step (Site C δ α) (Event C δ))} {starts : δ → Prop}
  {Good : δ → Prog Op α → ν → Prop} {ok : Step (Site C δ α) (Event C δ) → Prop}
  {holds : Task Op δ α ν → List κ}
  {Kept : List (Step (Site C δ α) (Event C δ)) → C.State → List κ → Prop}

/-- A task that moves on changes its own part of what is held. -/
theorem held_set (holds : Task Op δ α ν → List κ) {i : Nat} {task : Task Op δ α ν}
    (htask : s.tasks[i]? = some task) :
    ∃ before after, s.held holds = before ++ holds task ++ after ∧
      ∀ state task', held (C := C) holds ⟨state, s.tasks.set i task'⟩ =
        before ++ holds task' ++ after := by
  obtain ⟨before, after, hbefore, hafter⟩ := flatMap_set holds htask
  exact ⟨before, after, hbefore, fun _ => hafter⟩

theorem Custody.next (h : Custody program Good ok holds Kept) (hgood : s.Every Good)
    (hok : ok ⟨s, e, t⟩) (hkept : Kept tr s.state (s.held holds)) (hnext : Next program s e t) :
    Kept (tr ++ [⟨s, e, t⟩]) t.state (t.held holds) := by
  cases next_moves hnext with
  | spawned duty =>
    have hsame : held holds { s with tasks := s.tasks ++ [.start C program duty] } =
        s.held holds := by
      simp [held, h.starts]
    rw [hsame]
    exact h.spawned hkept
  | @called i draw task ρ op k reply state htask halive hprogram hperform =>
    obtain ⟨before, after, hbefore, hafter⟩ := held_set holds htask
    rw [hafter]
    have htaskGood := hgood task (List.mem_of_getElem? htask)
    rw [hprogram] at htaskGood
    exact h.called htask halive hprogram htaskGood hperform hok hbefore (hbefore ▸ hkept)
  | aborted htask =>
    obtain ⟨before, after, hbefore, hafter⟩ := held_set holds htask
    rw [hafter]
    exact h.dropped (hbefore ▸ hkept)
  | entered hother => exact h.entered hother hkept

/-- What is kept by every step is kept by every run. -/
theorem Custody.run (h : Custody program Good ok holds Kept)
    (hgood : Lasting program C starts Good) (hr : Run (Next program) s tr t)
    (hevery : s.Every Good) (hstarts : ∀ x ∈ tr, Starts starts x.label) (hok : ∀ x ∈ tr, ok x)
    (hkept : Kept [] s.state (s.held holds)) : Kept tr t.state (t.held holds) := by
  refine hr.invariant (fun tr t => (∀ x ∈ tr, Starts starts x.label) → (∀ x ∈ tr, ok x) →
    Kept tr t.state (t.held holds)) (fun _ _ => hkept) ?_ hstarts hok
  intro tr s' e t hpre ih hnext hstarts hok
  rw [List.forall_mem_append, List.forall_mem_singleton] at hstarts hok
  exact h.next (hevery.run hgood hpre hstarts.1) hok.2 (ih hstarts.1 hok.1) hnext

end

end Site
end Crew
end Lib
