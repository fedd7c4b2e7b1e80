import Qml.Runtime.Holders

namespace Qml
open Lib

namespace Runtime
variable {storage : MemoryStorage} {s t : Runtime} {tr : List (Step Runtime Action)} {a : Action}
  {i : Nat} {c job : Job}

/-- Whether a client enqueues an identifier that is stored, or that a worker is
still at work on. -/
def reinserts (s : Runtime) (a : Action) : Bool :=
  (s.inserts a).any fun job => (s.storage.jobs.get? job.id).isSome ||
    s.tasks.any fun task => (task.grip false).any fun c => decide (c.id = job.id)

/-- A copy at work is what is stored, unless the job was deleted, and only one task
is at work on it. -/
structure AtWork (s : Runtime) : Prop where
  stored : ∀ i c, Holder false s i c → ∀ old, s.storage.jobs.get? c.id = some old → old = c
  unique : ∀ i j c d, Holder false s i c → Holder false s j d → c.id = d.id → i = j

theorem Calls.not_reinserts {env : Env} (h : s.Calls i (.storage (.insertJob job)))
    (hfresh : s.reinserts (.step i env) = false) :
    s.storage.jobs.get? job.id = none ∧ ∀ j c, Holder false s j c → c.id ≠ job.id := by
  simp only [reinserts, h.inserts, Option.any_some, Bool.or_eq_false_iff,
    Option.isSome_eq_false_iff, Option.isNone_iff_eq_none] at hfresh
  refine ⟨hfresh.1, fun j c ⟨task, ht, hgrip⟩ hid => ?_⟩
  have hnone := List.any_eq_false.mp hfresh.2 task (List.mem_of_getElem? ht)
  simp [hgrip, hid] at hnone

/-- A copy at work is kept, or its job is deleted, until its task stores the outcome. -/
theorem AtWork.kept (hl : s.Lawful) (hs : s.AtWork) (hh : Holder false s i c) (h : Next s a t)
    (hspares : s.recoversHeld false a = false) (hfresh : s.reinserts a = false)
    (hown : ∀ env job, a = .step i env → ¬ s.Calls i (.storage (.update job))) :
    ∀ old, t.storage.jobs.get? c.id = some old → old = c := by
  intro new hnew
  have hproc := hh.processing hl
  rcases storage_cases h with hsame | ⟨j, env, ρ, op, reply, rfl, hcall, hop⟩
  · rw [hsame] at hnew
    exact hs.stored i c hh new hnew
  · have heffect := Section.effect hop c.id
    have hstored := hs.stored i c hh
    rw [hnew] at heffect
    generalize s.storage.jobs.get? c.id = before at heffect hstored
    cases heffect with
    | same => exact hstored new rfl
    | update _ old hid =>
      obtain ⟨p, d, hd, hout⟩ := hcall.update_holder hl
      obtain rfl := hs.unique i j c d hh hd (hid.symm.trans hout.id_eq)
      exact absurd hcall (hown env _ rfl)
    | updateIfState _ old =>
      obtain rfl := hstored old rfl
      obtain ⟨_, -, -, -, hfailed, -⟩ := hcall.allowed hl
      rw [hproc] at hfailed
      cases hfailed
    | insert _ _ hid => exact absurd hid.symm ((hcall.not_reinserts hfresh).2 i c hh)
    | promoteScheduled _ _ old hdue =>
      obtain rfl := hstored old rfl
      have := MemoryStorage.dueScheduled_kind hdue
      simp [hproc] at this
    | promoteRetry _ _ old hdue =>
      obtain rfl := hstored old rfl
      have := MemoryStorage.dueRetry_kind hdue
      simp [hproc] at this
    | requeue _ old hlost =>
      obtain rfl := hstored old rfl
      simp [recoversHeld, hcall.pending, hh.holdsAny hlost] at hspares
    | reclaim _ old hlost =>
      obtain rfl := hstored old rfl
      simp [recoversHeld, hcall.pending, hh.holdsAny hlost] at hspares
    | claim _ _ old havail =>
      obtain rfl := hstored old rfl
      have := MemoryStorage.available_kind havail
      simp [hproc] at this

theorem AtWork.next (hl : s.Lawful) (hs : s.AtWork) (h : Next s a t)
    (hspares : s.recoversHeld false a = false) (hfresh : s.reinserts a = false) : t.AtWork := by
  have fresh : ∀ i j c d, s.Takes a t i c → Holder false s j d → c.id ≠ d.id := by
    intro i j c d htake hd hid
    obtain ⟨_, old, _, -, hold, havail, -⟩ := htake.spec
    rw [hid] at hold
    obtain rfl := hs.stored j d hd old hold
    have := MemoryStorage.available_kind havail
    simp [hd.processing hl] at this
  refine ⟨fun i c hc => ?_, unique_next h hs.unique fresh⟩
  rcases holder_cases h hc with ⟨hold, hown⟩ | htake
  · exact hs.kept hl hold h hspares hfresh hown
  · obtain ⟨_, _, _, -, -, -, -, -, hstored⟩ := htake.spec
    intro old hold
    exact Option.some.inj (hold.symm.trans hstored)

theorem atWork_run (hr : Run Next (idle storage) tr s)
    (hspares : ∀ x ∈ tr, x.before.recoversHeld false x.label = false)
    (hfresh : ∀ x ∈ tr, x.before.reinserts x.label = false) : s.AtWork := by
  refine hr.stable AtWork ⟨fun _ _ h => absurd h no_holder, fun _ _ _ _ h => absurd h no_holder⟩ ?_
  intro x hx hbefore
  obtain ⟨pre, -, hpre, hnext⟩ := hr.of_mem hx
  exact hbefore.next (lawful_run (lawful_idle storage) hpre) hnext (hspares x hx) (hfresh x hx)

end Runtime
end Qml
