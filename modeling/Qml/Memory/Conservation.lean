import Qml.Memory.Callers

namespace Qml
open Lib MemoryStorage

namespace MemoryStorage

/-- Whether the method is a claim or a recovery sweep. -/
def Method.restates : Method ρ → Bool
  | .fetchAndLockJob .. | .fetchAvailableJobsAtomic .. | .claimDueScheduledJobs ..
  | .claimDueRetryJobs .. | .requeueStrandedJobs .. | .reclaimJobsFromServer .. => true
  | _ => false

/-- Whether the method may store a job that was not there, or remove one. -/
def Method.resizes : Method ρ → Bool
  | .enqueue .. | .delete .. | .deleteExpiredJobs .. => true
  | _ => false

/-- What a step of a method may do to the job stored under an identifier. -/
inductive Change (id : String) : {ρ : Type} → Method ρ → Option Job → Option Job → Prop
  | same {ρ : Type} (method : Method ρ) (o : Option Job) : Change id method o o
  | restated {ρ : Type} (method : Method ρ) (h : method.restates = true) (old : Job)
      (state : JobState) : Change id method (some old) (some { old with state := state })
  | updated (job old : Job) (hid : job.id = id) : Change id (.update job) (some old) (some job)
  | swapped (job old : Job) (hid : job.id = id) :
      Change id (.updateIfState job old.state.kind) (some old) (some job)
  | enqueued (job : Job) (o : Option Job) (hid : job.id = id) :
      Change id (.enqueue job) o (some job)
  | deleted (o : Option Job) : Change id (.delete id) o none
  | expired (now : DateTime) (old : Job) (hexp : unexpired now old = false) :
      Change id (.deleteExpiredJobs now) (some old) none

theorem Change.isSome_eq {id : String} {o o' : Option Job} {ρ : Type} {method : Method ρ}
    (h : Change id method o o') (hm : method.resizes = false) : o'.isSome = o.isSome := by
  cases h with
  | same | restated | updated | swapped => rfl
  | enqueued | deleted | expired => cases hm

end MemoryStorage

/-- A section of a method does no more than its method may. -/
theorem Effect.change {id : String} {o o' : Option Job} {ρ τ : Type} {method : Method ρ}
    {op : Section τ} {env : Reading} (h : Effect env id op o o') (hm : method.enters op) :
    Change id method o o' := by
  cases h with
  | same => exact .same _ _
  | update job old hid =>
    cases method with
    | update =>
      obtain rfl := hm
      exact .updated job old hid
    | _ => exact False.elim hm
  | updateIfState job old hid =>
    cases method with
    | updateIfState =>
      obtain ⟨rfl, rfl⟩ := hm
      exact .swapped job old hid
    | _ => exact False.elim hm
  | delete =>
    cases method with
    | delete =>
      obtain rfl := hm
      exact .deleted _
    | _ => exact False.elim hm
  | insert job _ hid =>
    cases method with
    | enqueue =>
      obtain rfl := hm
      exact .enqueued job _ hid
    | _ => exact False.elim hm
  | expire clock old hexp =>
    cases method with
    | deleteExpiredJobs =>
      obtain rfl := hm
      exact .expired clock old hexp
    | _ => exact False.elim hm
  | promoteScheduled | promoteRetry | requeue | reclaim | claim =>
    cases method with
    | claimDueScheduledJobs | claimDueRetryJobs | requeueStrandedJobs | reclaimJobsFromServer
    | fetchAndLockJob | fetchAvailableJobsAtomic => exact .restated _ rfl _ _
    | _ => exact False.elim hm

namespace Callers
variable {s t : Callers} {e : Event} {x : Step Callers Event} {id : String} {ρ : Type}
  {method : Method ρ}

def stored (s : Callers) (id : String) : Option Job := s.storage.jobs.get? id

/-- The step is one of a call of the method. -/
def By (x : Step Callers Event) (method : Method ρ) : Prop :=
  ∃ i env program, x.label = .step i env ∧ x.before.callers[i]? = some ⟨method, program⟩

/-- What one step leaves alone: jobs enter by `enqueue` and leave by a deletion, claims
and sweeps change states only, and updates neither add nor remove. -/
structure Conserves (x : Step Callers Event) : Prop where
  enters : ∀ id, x.before.stored id = none → (x.after.stored id).isSome = true →
    ∃ job, job.id = id ∧ By x (.enqueue job)
  leaves : ∀ id, (x.before.stored id).isSome = true → x.after.stored id = none →
    By x (.delete id) ∨ (∃ now, By x (.deleteExpiredJobs now)) ∨ x.label = .clear
  restates : ∀ {ρ : Type} (method : Method ρ), By x method → method.restates = true → ∀ id,
    x.after.stored id = x.before.stored id ∨ ∃ old state, x.before.stored id = some old ∧
      x.after.stored id = some { old with state := state }
  updates : ∀ job, (By x (.update job) ∨ ∃ expected, By x (.updateIfState job expected)) → ∀ id,
    (x.after.stored id).isSome = (x.before.stored id).isSome

/-- A step of a call does what its method may; any other step changes no job, or is
`clear`. -/
theorem changes (hs : s.Kept) (h : Next s e t) (id : String) :
    (∃ (ρ : Type) (method : Method ρ), By ⟨s, e, t⟩ method ∧
      Change id method (s.stored id) (t.stored id)) ∨
    ((∀ {ρ : Type} (method : Method ρ), ¬ By ⟨s, e, t⟩ method) ∧
      (t.stored id = s.stored id ∨ e = .clear ∧ t.stored id = none)) := by
  cases next_moves h with
  | called method =>
    refine .inr ⟨?_, .inl rfl⟩
    rintro _ _ ⟨_, _, _, hl, _⟩
    cases hl
  | cleared =>
    refine .inr ⟨?_, .inr ⟨rfl, rfl⟩⟩
    rintro _ _ ⟨_, _, _, hl, _⟩
    cases hl
  | unwound hi hop =>
    exact .inl ⟨_, _, ⟨_, _, _, rfl, hi⟩, .same _ _⟩
  | @stepped i env ρ τ method op k reply storage hi hop =>
    refine .inl ⟨ρ, method, ⟨i, env, _, rfl, hi⟩, ?_⟩
    have hkeeps := hs.section hi
    cases op with
    | storage op => exact (Section.effect hop id).change hkeeps
    | _ => exact False.elim hkeeps

theorem By.unique {σ : Type} {other : Method σ} (h : By x method) (h' : By x other) :
    (⟨ρ, method⟩ : Sigma Method) = ⟨σ, other⟩ := by
  obtain ⟨i, env, program, hl, hi⟩ := h
  obtain ⟨j, env', program', hl', hj⟩ := h'
  cases hl.symm.trans hl'
  cases hi.symm.trans hj
  rfl

theorem conserves (hs : s.Kept) (h : Next s e t) : Conserves ⟨s, e, t⟩ where
  enters id hbefore hafter := by
    rcases changes hs h id with ⟨ρ, method, hby, hchange⟩ | ⟨-, hsame | ⟨-, hgone⟩⟩
    · dsimp only at hbefore hafter
      generalize s.stored id = o at hchange hbefore
      generalize t.stored id = o' at hchange hafter
      cases hchange with
      | enqueued job _ hid => exact ⟨job, hid, hby⟩
      | same => simp [hbefore] at hafter
      | restated | updated | swapped | expired => cases hbefore
      | deleted => cases hafter
    · simp [hsame, hbefore] at hafter
    · simp [hgone] at hafter
  leaves id hbefore hafter := by
    rcases changes hs h id with ⟨ρ, method, hby, hchange⟩ | ⟨-, hsame | ⟨hclear, -⟩⟩
    · dsimp only at hbefore hafter
      generalize s.stored id = o at hchange hbefore
      generalize t.stored id = o' at hchange hafter
      cases hchange with
      | deleted => exact .inl hby
      | expired clock => exact .inr (.inl ⟨clock, hby⟩)
      | same => simp [hafter] at hbefore
      | restated | updated | swapped | enqueued => cases hafter
    · simp [← hsame, hafter] at hbefore
    · exact .inr (.inr hclear)
  restates := by
    intro ρ method hby hrestates id
    rcases changes hs h id with ⟨σ, other, hother, hchange⟩ | ⟨hnone, -⟩
    · cases hby.unique hother
      dsimp only
      generalize s.stored id = o at hchange
      generalize t.stored id = o' at hchange
      cases hchange with
      | same => exact .inl rfl
      | restated _ _ old state => exact .inr ⟨old, state, rfl, rfl⟩
      | updated | swapped | enqueued | deleted | expired => cases hrestates
    · exact absurd hby (hnone method)
  updates job hby id := by
    rcases changes hs h id with ⟨σ, other, hother, hchange⟩ | ⟨hnone, -⟩
    · rcases hby with hby | ⟨expected, hby⟩
      · cases hby.unique hother
        exact hchange.isSome_eq rfl
      · cases hby.unique hother
        exact hchange.isSome_eq rfl
    · rcases hby with hby | ⟨expected, hby⟩
      · exact absurd hby (hnone _)
      · exact absurd hby (hnone _)

/-- Jobs are conserved in every run of the methods: each is stored under its own
identifier, each step conserves them, and one that is gone is not stored again before an
`enqueue` of its identifier. -/
theorem jobs_conserved {storage : MemoryStorage} {tr : List (Step Callers Event)}
    (hr : Run Next (idle storage) tr t) :
    (∀ id job, t.stored id = some job → job.id = id) ∧ (∀ x ∈ tr, Conserves x) ∧
    ∀ pre x mid y post id, tr = pre ++ x :: (mid ++ y :: post) → x.after.stored id = none →
      (y.before.stored id).isSome = true → ∃ z ∈ mid, ∃ job, job.id = id ∧ By z (.enqueue job) := by
  have hconserves : ∀ x ∈ tr, Conserves x := by
    intro x hx
    obtain ⟨pre, -, hpre, hnext⟩ := hr.of_mem hx
    exact conserves (kept_run hpre) hnext
  refine ⟨fun id job h => Jobs.id_of_get? h, hconserves, ?_⟩
  intro pre x mid y post id htr hgone hback
  subst htr
  obtain ⟨z, hz, hbefore, hafter⟩ :=
    hr.between (fun s => (s.stored id).isSome = true) (by simp [hgone]) hback
  rw [Bool.not_eq_true, Option.isSome_eq_false_iff, Option.isNone_iff_eq_none] at hbefore
  exact ⟨z, hz, (hconserves z (by simp [hz])).enters id hbefore hafter⟩

/-- A job is claimed, deleted in the middle of its execution and written back by the
worker, which finishes late. -/
def lateUpdate : List Event :=
  let job := Job.new "a" 0 "send_email" .null
  [Event.call (.enqueue job)] ++ Event.steps 0 2 0 ++
  [Event.call (.fetchAndLockJob "qml-server" none)] ++ Event.steps 1 2 0 ++
  [Event.call (.delete "a")] ++ Event.steps 2 1 0 ++
  [Event.call (.update { job with state := .succeeded 0 0 none })] ++ Event.steps 3 1 0

theorem jobs_conserved_late : ∃ tr t, Run Next (idle (.empty none)) tr t ∧
    (tr.map fun x => (x.after.stored "a").isSome) =
      [false, false, true, true, true, true, true, false, false, false] ∧
    ∀ x ∈ tr, Conserves x := by
  obtain ⟨t, hr⟩ := replay_run next (idle (.empty none)) lateUpdate
  exact ⟨_, t, hr, by decide +kernel, (jobs_conserved hr).2.1⟩

end Callers
end Qml
