import Qml.Lib.Run
import Qml.Memory.Effects
import Qml.Memory.Methods

namespace Qml
open Lib

/-- Whether a section may store a job it was given, or put lost jobs back: an
outcome, an update, a retry, a fresh enqueue, a requeue or a reclaim. -/
def Section.restores : Section ρ → Bool
  | .update .. | .updateIfState .. | .insertJob .. | .requeueStrandedJobs ..
  | .reclaimJobsFromServer .. => true
  | _ => false

/-- The job that the reply of a section hands out. -/
def Section.handed : {ρ : Type} → Section ρ → ρ → List Job
  | _, .lockAvailableJob .., .ok (some job) => [job]
  | _, _, _ => []

namespace MemoryStorage

/-- One critical section, with what it reads from outside the storage. -/
structure Entry where
  {ρ : Type}
  op : Section ρ
  env : Reading

/-- Whichever task is next enters its section; the sections of one method need
not follow one another. -/
def enter (s : MemoryStorage) (e : Entry) : Option MemoryStorage :=
  (e.op.perform e.env s).map Prod.snd

abbrev Enters (s : MemoryStorage) (e : Entry) (t : MemoryStorage) : Prop := s.enter e = some t

/-- Whether a job is stored in one of the states from which it may be handed out. -/
def waits (s : MemoryStorage) (id : String) : Bool :=
  (s.jobs.get? id).any fun job => job.state.kind.waiting

/-- Whether the step claims the job and returns it. -/
def handsOut (x : Step MemoryStorage Entry) (id : String) : Bool :=
  match x.label.op.perform x.label.env x.before with
  | some (reply, _) => (x.label.op.handed reply).any fun job => decide (job.id = id)
  | none => false

/-- The step writes a job back that was not waiting. -/
structure WritesBack (x : Step MemoryStorage Entry) (id : String) : Prop where
  op : x.label.op.restores = true
  before : x.before.waits id = false
  after : x.after.waits id = true

section
variable {s t : MemoryStorage} {e : Entry} {x : Step MemoryStorage Entry} {id : String}

theorem waits_iff : s.waits id = true ↔
    ∃ job, s.jobs.get? id = some job ∧ job.state.kind.waiting = true := by
  simp [waits, Option.any_eq_true]

theorem handsOut_claims (hnext : Enters s e t) (h : handsOut ⟨s, e, t⟩ id = true) :
    s.waits id = true ∧ t.waits id = false := by
  obtain ⟨op, env⟩ := e
  obtain ⟨⟨reply, t⟩, hperform, rfl⟩ := Option.map_eq_some_iff.mp hnext
  simp only [handsOut, hperform, List.any_eq_true, decide_eq_true_eq] at h
  obtain ⟨job, hjob, rfl⟩ := h
  dsimp only at reply hperform hjob ⊢
  cases op
  case lockAvailableJob workerId queues =>
    simp only [Section.perform, Option.some.injEq] at hperform
    generalize hl : (s.reorder env.order).lockAvailableJob workerId queues env.fetch = r
      at hperform
    obtain ⟨_ | claimed, after⟩ := r <;> cases hperform
    · cases hjob
    · obtain rfl := List.mem_singleton.mp hjob
      obtain ⟨old, hold, havail, -, -, rfl, rfl⟩ := lockAvailableJob_some hl
      rw [reorder_jobs] at hold
      refine ⟨waits_iff.mpr ⟨old, hold, ?_⟩, ?_⟩
      · rcases available_kind havail with hk | hk | hk <;> rw [hk] <;> rfl
      · simp [waits, JobState.kind, JobStateKind.waiting]
  all_goals cases hjob

/-- Only the sections that store or put back jobs make one wait. -/
theorem enter_restores (h : Enters s e t) (hs : s.waits id = false) (ht : t.waits id = true) :
    e.op.restores = true := by
  obtain ⟨⟨reply, t'⟩, hperform, rfl⟩ := Option.map_eq_some_iff.mp h
  have heffect := Section.effect hperform id
  obtain ⟨op, env⟩ := e
  rw [waits] at hs ht
  generalize s.jobs.get? id = o at heffect hs
  generalize t'.jobs.get? id = o' at heffect ht
  cases heffect with
  | update | updateIfState | insert | requeue | reclaim => rfl
  | same => exact absurd (hs.symm.trans ht) (by simp)
  | delete | expire => cases ht
  | promoteScheduled now limit old hdue =>
    simp [dueScheduled_kind hdue, JobStateKind.waiting] at hs
  | promoteRetry now limit old hdue =>
    simp [dueRetry_kind hdue, JobStateKind.waiting] at hs
  | claim => cases ht

/-- Between two hand-outs of one job, some section wrote it back. -/
theorem writesBack_between {pre mid post : List (Step MemoryStorage Entry)}
    {y : Step MemoryStorage Entry} (hr : Run Enters s (pre ++ x :: (mid ++ y :: post)) t)
    (hx : handsOut x id = true) (hy : handsOut y id = true) : ∃ z ∈ mid, WritesBack z id := by
  have hnext : ∀ z ∈ pre ++ x :: (mid ++ y :: post), Enters z.before z.label z.after := by
    intro z hz
    obtain ⟨_, -, -, hnext⟩ := hr.of_mem hz
    exact hnext
  obtain ⟨z, hz, hbefore, hafter⟩ := hr.between (fun s => s.waits id = true)
    (by simp [(handsOut_claims (hnext x (by simp)) hx).2])
    (handsOut_claims (hnext y (by simp)) hy).1
  rw [Bool.not_eq_true] at hbefore
  exact ⟨z, hz, enter_restores (hnext z (by simp [hz])) hbefore hafter, hbefore, hafter⟩

/-- The jobs that the sections of a method have handed out so far. -/
def Handed : Contract Call (List Job) where
  may _ _ _ := True
  step jobs _ call reply jobs' := jobs' = jobs ++
    match call, reply with
    | .storage op, reply => op.handed reply
    | _, _ => []

/-- `fetch_available_jobs_atomic` returns what its sections have handed out. -/
theorem fetchUpTo_handed {workerId : String} {queues : Option (List String)} {n : Nat}
    {jobs : List Job} : (fetchUpTo workerId queues n jobs).wp Handed
      (fun reply handed => ∀ claimed, reply = .ok claimed → claimed = handed) jobs := by
  induction n generalizing jobs with
  | zero =>
    intro claimed h
    cases h
    rfl
  | succ n ih =>
    simp only [fetchUpTo, fetchAndLockJob, Call.enter, Prog.ask_bind, Prog.call_bind, Prog.wp_call]
    refine ⟨trivial, fun _ _ hclean => ⟨trivial, fun reply handed hlock => ?_⟩⟩
    simp only [Handed, Section.handed, List.append_nil] at hclean
    subst hclean
    rcases reply with _ | _ | job
    · intro claimed h
      cases h
    · intro claimed h
      cases h
      simpa [Handed, Section.handed] using hlock.symm
    · simp only [Handed, Section.handed] at hlock
      subst hlock
      exact ih

end
end MemoryStorage
end Qml
