import Qml.Lib.Marks
import Qml.Processing.Worker

namespace Qml
open Lib
universe u

/-- What an execution gives its caller. -/
abbrev WorkerOutcome : Type := Except QmlError WorkerResult

/-- What only a middleware can do: `next.run(job, ctx).await`. -/
inductive NextOp : Type → Type u
  | run (job : Job) (ctx : WorkerContext) : NextOp WorkerOutcome

/-- The calls of a middleware: those of any code, and the one to the rest of the stack. -/
abbrev LayerOp (E : Type → Type u) (ρ : Type) : Type u := NextOp ρ ⊕ E ρ

variable {E : Type → Type u} {α : Type}

/-- No call to the rest of the stack is left. -/
def NextUsed : Prog (LayerOp E) α → Prop
  | .pure _ => True
  | .call (.inl (.run _ _)) _ => False
  | .call (.inr _) k => ∀ r, NextUsed (k r)

/-- At most one call to the rest of the stack is made, whatever the replies. -/
def NextOnce : Prog (LayerOp E) α → Prop
  | .pure _ => True
  | .call (.inl (.run _ _)) k => ∀ r, NextUsed (k r)
  | .call (.inr _) k => ∀ r, NextOnce (k r)

/-- A layer. `Next::run` consumes the handle, so no layer can call it twice. -/
structure JobMiddleware (E : Type → Type u) where
  call : Job → WorkerContext → Prog (LayerOp E) WorkerOutcome
  once : ∀ job ctx, NextOnce (call job ctx)

structure Worker (E : Type → Type u) where
  execute : Job → WorkerContext → Prog E WorkerOutcome

/-- Carry out the calls of a layer, those to the rest of the stack as given. -/
def answered {Op : Type → Type u} (next : Job → WorkerContext → Prog Op WorkerOutcome)
    (effect : {ρ : Type} → E ρ → Prog Op ρ) (p : Prog (LayerOp E) α) : Prog Op α :=
  p.translate fun op => match op with
    | .inl (.run job ctx) => next job ctx
    | .inr e => effect e

/-- `Next::run`. -/
def Next.run (worker : Worker E) :
    List (JobMiddleware E) → Job → WorkerContext → Prog E WorkerOutcome
  | first :: rest, job, ctx => answered (Next.run worker rest) Prog.ask (first.call job ctx)
  | [], job, ctx => worker.execute job ctx

def runStack (middleware : List (JobMiddleware E)) (worker : Worker E) (job : Job)
    (ctx : WorkerContext) : Prog E WorkerOutcome :=
  Next.run worker middleware job ctx

/-- The layer that is installed outermost: it only puts a span around the rest. -/
def TracingMiddleware : JobMiddleware E where
  call job ctx := Prog.ask (.inl (.run job ctx))
  once _ _ := fun _ => trivial

/-- A layer as a function of what it wraps. -/
def JobMiddleware.around (layer : JobMiddleware E)
    (inner : Job → WorkerContext → Prog E WorkerOutcome) :
    Job → WorkerContext → Prog E WorkerOutcome :=
  fun job ctx => answered inner Prog.ask (layer.call job ctx)

/-- Where an execution comes by, layers numbered from the outermost. -/
inductive Mark
  | enter (layer : Nat)
  | execute
  | leave (layer : Nat)
  deriving DecidableEq

/-- `Next::run` with a mark wherever it enters or leaves a layer or starts the worker. -/
def Next.marked (worker : Worker E) : List (JobMiddleware E) → Nat → Job → WorkerContext →
    Prog (Marked Mark E) WorkerOutcome
  | first :: rest, depth, job, ctx => do
    Prog.mark (.enter depth)
    let result ← answered (Next.marked worker rest (depth + 1)) (fun e => Prog.ask (.inr e))
      (first.call job ctx)
    Prog.mark (.leave depth)
    return result
  | [], _, job, ctx => do
    Prog.mark .execute
    (worker.execute job ctx).unmarked

/-- What a layer can do: the call it makes to the rest of the stack, if it makes one, with the
reply to it, and its own result. -/
def Behaves : Prog (LayerOp E) α → Option (Job × WorkerContext × WorkerOutcome) → α → Prop
  | .pure a, called, b => called = none ∧ b = a
  | .call (.inl (.run job ctx)) k, called, b =>
    ∃ reply, called = some (job, ctx, reply) ∧ Behaves (k reply) none b
  | .call (.inr _) k, called, b => ∃ r, Behaves (k r) called b

/-- The layers composed around the worker, with the first layer that returns without calling
the rest of the stack, if one does. -/
def Composes (worker : Worker E) :
    List (JobMiddleware E) → Job → WorkerContext → Option Nat → WorkerOutcome → Prop
  | [], job, ctx, short, result => short = none ∧ (worker.execute job ctx).Returns result
  | layer :: rest, job, ctx, short, result =>
    short = some 0 ∧ Behaves (layer.call job ctx) none result ∨
      ∃ job' ctx' reply short', Behaves (layer.call job ctx) (some (job', ctx', reply)) result ∧
        Composes worker rest job' ctx' short' reply ∧ short = short'.map (· + 1)

/-- In through `n` layers from the given one, and out again the other way. -/
def throughLayers (depth n : Nat) (inner : List Mark) : List Mark :=
  (List.range' depth n).map .enter ++ inner ++ ((List.range' depth n).map .leave).reverse

theorem throughLayers_zero (depth : Nat) (inner : List Mark) :
    throughLayers depth 0 inner = inner := by simp [throughLayers]

theorem throughLayers_succ (depth n : Nat) (inner : List Mark) :
    throughLayers depth (n + 1) inner =
      .enter depth :: (throughLayers (depth + 1) n inner ++ [.leave depth]) := by
  simp [throughLayers, List.range'_succ]

theorem count_execute (depth n : Nat) (inner : List Mark) :
    (throughLayers depth n inner).count .execute = inner.count .execute := by
  have hentered : ((List.range' depth n).map Mark.enter).count .execute = 0 :=
    List.count_eq_zero.2 (by simp)
  have hleft : ((List.range' depth n).map Mark.leave).count .execute = 0 :=
    List.count_eq_zero.2 (by simp)
  simp only [throughLayers, List.count_append, List.count_reverse, hentered, hleft]
  omega

section Layer
variable {next : Job → WorkerContext → Prog (Marked Mark E) WorkerOutcome}
  {p : Prog (LayerOp E) α} {marks : List Mark} {a : α}

/-- The rest of the stack leaves the only marks of a layer. -/
abbrev within (next : Job → WorkerContext → Prog (Marked Mark E) WorkerOutcome)
    (p : Prog (LayerOp E) α) : Prog (Marked Mark E) α :=
  answered next (fun e => Prog.ask (.inr e)) p

theorem within_effect {ρ : Type} {e : E ρ} {k : ρ → Prog (LayerOp E) α} :
    (within next (.call (.inr e) k)).Runs marks a ↔ ∃ r, (within next (k r)).Runs marks a :=
  Iff.rfl

theorem within_run {job : Job} {ctx : WorkerContext} {k : WorkerOutcome → Prog (LayerOp E) α} :
    (within next (.call (.inl (.run job ctx)) k)).Runs marks a ↔
      ∃ before reply after, marks = before ++ after ∧ (next job ctx).Runs before reply ∧
        (within next (k reply)).Runs after a :=
  Prog.runs_bind (next job ctx) fun r => within next (k r)

theorem used_runs (hused : NextUsed p) :
    (within next p).Runs marks a ↔ marks = [] ∧ Behaves p none a := by
  induction p with
  | pure b =>
    constructor
    · exact fun h => ⟨h.1, rfl, h.2⟩
    · exact fun h => ⟨h.1, h.2.2⟩
  | call op k ih =>
    cases op with
    | inl op =>
      cases op with
      | run job ctx => exact hused.elim
    | inr e =>
      rw [within_effect]
      have hk : ∀ r, (within next (k r)).Runs marks a ↔ marks = [] ∧ Behaves (k r) none a :=
        fun r => ih r (hused r)
      simp only [hk]
      exact exists_and_left

/-- A layer runs the rest of the stack where it calls it, and leaves no other mark. -/
theorem once_runs (honce : NextOnce p) :
    (within next p).Runs marks a ↔ marks = [] ∧ Behaves p none a ∨
      ∃ job ctx reply, (next job ctx).Runs marks reply ∧
        Behaves p (some (job, ctx, reply)) a := by
  induction p with
  | pure b =>
    constructor
    · exact fun h => .inl ⟨h.1, rfl, h.2⟩
    · rintro (⟨hmarks, -, hb⟩ | ⟨job, ctx, reply, -, hnone, -⟩)
      · exact ⟨hmarks, hb⟩
      · cases hnone
  | call op k ih =>
    cases op with
    | inl op =>
      cases op with
      | run job ctx =>
        rw [within_run]
        have hk : ∀ r (after : List Mark), (within next (k r)).Runs after a ↔
            after = [] ∧ Behaves (k r) none a := fun r after => used_runs (honce r)
        simp only [hk]
        constructor
        · rintro ⟨before, reply, after, rfl, hnext, rfl, hrest⟩
          rw [List.append_nil]
          exact .inr ⟨job, ctx, reply, hnext, reply, rfl, hrest⟩
        · rintro (⟨-, reply, hsome, -⟩ | ⟨job', ctx', reply', hnext, reply, hsome, hrest⟩)
          · cases hsome
          · cases hsome
            exact ⟨marks, reply', [], (List.append_nil marks).symm, hnext, rfl, hrest⟩
    | inr e =>
      rw [within_effect]
      simp only [fun r => ih r (honce r)]
      constructor
      · rintro ⟨r, ⟨hmarks, hb⟩ | ⟨job, ctx, reply, hnext, hb⟩⟩
        · exact .inl ⟨hmarks, r, hb⟩
        · exact .inr ⟨job, ctx, reply, hnext, r, hb⟩
      · rintro (⟨hmarks, r, hb⟩ | ⟨job, ctx, reply, hnext, r, hb⟩)
        · exact ⟨r, .inl ⟨hmarks, hb⟩⟩
        · exact ⟨r, .inr ⟨job, ctx, reply, hnext, hb⟩⟩

/-- Without the marks, a layer runs around the rest of the stack without its marks. -/
theorem within_erase :
    (within next p).erase = answered (fun job ctx => (next job ctx).erase) Prog.ask p := by
  induction p with
  | pure a => rfl
  | call op k ih =>
    cases op with
    | inl op =>
      cases op with
      | run job ctx =>
        have hcall : (within next (.call (.inl (.run job ctx)) k)).erase =
            (next job ctx).erase >>= fun r => (within next (k r)).erase :=
          Prog.erase_bind _ _
        rw [hcall, funext ih]
        rfl
    | inr e => exact congrArg (Prog.call e) (funext ih)

end Layer

variable (worker : Worker E)

theorem marked_erase (stack : List (JobMiddleware E)) (depth : Nat) :
    (fun job ctx => (Next.marked worker stack depth job ctx).erase) = Next.run worker stack := by
  induction stack generalizing depth with
  | nil =>
    funext job ctx
    exact Prog.erase_unmarked (worker.execute job ctx)
  | cons first rest ih =>
    funext job ctx
    have hlayer : (Next.marked worker (first :: rest) depth job ctx).erase =
        (within (Next.marked worker rest (depth + 1)) (first.call job ctx)).erase >>=
          fun result => Prog.pure result := by
      rw [Next.marked, Prog.erase_bind, Prog.erase_mark, Prog.pure_bind, Prog.erase_bind]
      rfl
    rw [hlayer, Prog.bind_pure, within_erase, ih (depth + 1)]
    rfl

theorem run_eq_around (stack : List (JobMiddleware E)) :
    Next.run worker stack = stack.foldr JobMiddleware.around worker.execute := by
  induction stack with
  | nil => rfl
  | cons first rest ih =>
    funext job ctx
    rw [List.foldr_cons, ← ih]
    rfl

/-- The marks of a run, given the first layer that does not call the rest of the stack. -/
def marksOf (depth n : Nat) : Option Nat → List Mark
  | none => throughLayers depth n [.execute]
  | some j => throughLayers depth (j + 1) []

theorem marksOf_succ (depth n : Nat) (short : Option Nat) :
    marksOf depth (n + 1) (short.map (· + 1)) =
      .enter depth :: (marksOf (depth + 1) n short ++ [.leave depth]) := by
  cases short with
  | none => exact throughLayers_succ depth n [.execute]
  | some j => exact throughLayers_succ depth (j + 1) []

theorem marked_cons {first : JobMiddleware E} {rest : List (JobMiddleware E)} {depth : Nat}
    {job : Job} {ctx : WorkerContext} {marks : List Mark} {result : WorkerOutcome} :
    (Next.marked worker (first :: rest) depth job ctx).Runs marks result ↔
      ∃ inside, marks = .enter depth :: (inside ++ [.leave depth]) ∧
        (within (Next.marked worker rest (depth + 1)) (first.call job ctx)).Runs inside result := by
  rw [Next.marked, Prog.runs_mark]
  simp only [Prog.runs_bind]
  constructor
  · rintro ⟨-, rfl, inside, reply, -, rfl, hlayer, -, -, -, rfl, ⟨-, rfl, rfl, -⟩, rfl, rfl⟩
    exact ⟨inside, rfl, hlayer⟩
  · rintro ⟨inside, rfl, hlayer⟩
    exact ⟨_, rfl, inside, result, _, rfl, hlayer, [.leave depth], (), [], rfl,
      ⟨[], rfl, rfl, rfl⟩, rfl, rfl⟩

/-- The induction is on the stack: one layer adds its two marks around those of the rest, or
leaves them alone when it does not call the rest. -/
theorem marked_runs (stack : List (JobMiddleware E)) (depth : Nat) (job : Job)
    (ctx : WorkerContext) (marks : List Mark) (result : WorkerOutcome) :
    (Next.marked worker stack depth job ctx).Runs marks result ↔
      ∃ short, Composes worker stack job ctx short result ∧
        marks = marksOf depth stack.length short := by
  induction stack generalizing depth job ctx marks result with
  | nil =>
    rw [Next.marked, Prog.runs_mark]
    simp only [Prog.runs_unmarked, Composes, List.length_nil]
    constructor
    · rintro ⟨-, rfl, rfl, hreturns⟩
      exact ⟨none, ⟨rfl, hreturns⟩, (throughLayers_zero depth _).symm⟩
    · rintro ⟨-, ⟨rfl, hreturns⟩, rfl⟩
      exact ⟨[], throughLayers_zero depth _, rfl, hreturns⟩
  | cons first rest ih =>
    rw [marked_cons]
    simp only [once_runs (first.once job ctx), ih, Composes, List.length_cons]
    constructor
    · rintro ⟨inside, rfl, ⟨rfl, hb⟩ | ⟨job', ctx', reply, ⟨short, hrest, rfl⟩, hb⟩⟩
      · exact ⟨some 0, .inl ⟨rfl, hb⟩, by rw [marksOf, throughLayers_succ, throughLayers_zero]⟩
      · exact ⟨short.map (· + 1), .inr ⟨job', ctx', reply, short, hb, hrest, rfl⟩,
          (marksOf_succ depth rest.length short).symm⟩
    · rintro ⟨short, ⟨rfl, hb⟩ | ⟨job', ctx', reply, short, hb, hrest, rfl⟩, rfl⟩
      · refine ⟨[], ?_, .inl ⟨rfl, hb⟩⟩
        rw [marksOf, throughLayers_succ, throughLayers_zero]
      · exact ⟨_, marksOf_succ depth rest.length short,
          .inr ⟨job', ctx', reply, ⟨short, hrest, rfl⟩, hb⟩⟩

theorem Composes.short_lt {stack : List (JobMiddleware E)} {job : Job} {ctx : WorkerContext}
    {j : Nat} {result : WorkerOutcome}
    (h : Composes worker stack job ctx (some j) result) : j < stack.length := by
  induction stack generalizing job ctx j result with
  | nil => cases h.1
  | cons first rest ih =>
    rw [List.length_cons]
    rcases h with ⟨hzero, -⟩ | ⟨job', ctx', reply, short, -, hrest, hsucc⟩
    · cases hzero
      omega
    · obtain ⟨i, rfl, rfl⟩ := Option.map_eq_some_iff.1 hsucc.symm
      have := ih hrest
      omega

/-- `run_stack` is the layers composed around `worker.execute` in list order. In every run of it,
whatever the layers and the worker do, the layers are entered in list order up to the first one
that does not call the rest of the stack and left in reverse order; the worker is executed once
if there is no such layer, and otherwise neither it nor a later layer is reached. -/
theorem run_stack_composes (stack : List (JobMiddleware E)) (job : Job) (ctx : WorkerContext) :
    runStack stack worker job ctx =
        (stack.foldr JobMiddleware.around worker.execute) job ctx ∧
      (Next.marked worker stack 0 job ctx).erase = runStack stack worker job ctx ∧
      ∀ marks result, (Next.marked worker stack 0 job ctx).Runs marks result ↔
        ∃ short, Composes worker stack job ctx short result ∧
          (short = none ∧ marks = throughLayers 0 stack.length [.execute] ∧
              marks.count .execute = 1 ∨
            ∃ j, short = some j ∧ j < stack.length ∧ marks = throughLayers 0 (j + 1) [] ∧
              marks.count .execute = 0) := by
  refine ⟨?_, congrFun (congrFun (marked_erase worker stack 0) job) ctx, fun marks result => ?_⟩
  · rw [runStack, run_eq_around]
  · rw [marked_runs]
    constructor
    · rintro ⟨short, hcomposes, rfl⟩
      refine ⟨short, hcomposes, ?_⟩
      cases short with
      | none => exact .inl ⟨rfl, rfl, count_execute 0 stack.length [.execute]⟩
      | some j =>
        exact .inr ⟨j, rfl, hcomposes.short_lt worker, rfl, count_execute 0 (j + 1) []⟩
    · rintro ⟨short, hcomposes, ⟨rfl, hmarks, -⟩ | ⟨j, rfl, -, hmarks, -⟩⟩
      · exact ⟨none, hcomposes, hmarks⟩
      · exact ⟨some j, hcomposes, hmarks⟩

/-- The default layer alone: the worker, as it is. -/
example (job : Job) (ctx : WorkerContext) :
    runStack [TracingMiddleware] worker job ctx = worker.execute job ctx :=
  Prog.bind_pure (worker.execute job ctx)

end Qml
