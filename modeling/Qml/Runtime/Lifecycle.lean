import Qml.Runtime.Work

namespace Qml
open Lib

/-- How what is stored for a job follows what was: a transition that `setState` would
make, the claim of a due job straight out of its waiting state, or, where recoveries run,
a job taken back from its worker. -/
inductive Edge (recoveries : Bool) (old new : Job) : Prop
  | allowed (h : old.state.canTransitionTo new.state = true)
  | claimed (now : DateTime)
      (hwaiting : old.state.kind = .scheduled ∨ old.state.kind = .awaitingRetry)
      (hdue : MemoryStorage.available now old = true) (hnew : new.state.kind = .processing)
  | recovered (h : recoveries = true) (hold : old.state.kind = .processing)
      (hnew : new.state.kind = .enqueued)

namespace Edge
variable {b : Bool} {old new : Job}

/-- The claim of a job, from any state that can be claimed. -/
theorem of_available {now : DateTime} (h : MemoryStorage.available now old = true)
    (hnew : new.state.kind = .processing) : Edge b old new := by
  rcases MemoryStorage.available_kind h with hkind | hkind | hkind
  · refine .allowed ?_
    cases hold : old.state with
    | enqueued =>
      obtain ⟨_, _, _, hstate⟩ := JobState.processing_of_kind hnew
      rw [hstate]
      rfl
    | _ =>
      rw [hold] at hkind
      cases hkind
  · exact .claimed now (.inl hkind) h hnew
  · exact .claimed now (.inr hkind) h hnew

/-- The outcome of a job that is still stored as its worker claimed it. -/
theorem of_outcome {p : JobProcessor} (hold : old.state.kind = .processing)
    (h : Outcome p old new) : Edge b old new := by
  obtain ⟨_, _, _, hstate⟩ := JobState.processing_of_kind hold
  refine .allowed ?_
  rw [hstate, JobState.canTransitionTo_processing]
  rcases h.kind with hkind | hkind | hkind <;> simp [hkind]

theorem of_lost (hb : b = true) (hold : old.state.kind = .processing) {t : DateTime} :
    Edge b old { old with state := .enqueued t old.queue } := .recovered hb hold rfl

end Edge

namespace Runtime
variable {storage : MemoryStorage} {s t : Runtime} {tr : List (Step Runtime Action)}
  {a : Action} {id : String} {old new : Job} {b : Bool}

/-- The states that are stored for a job one after the other follow each other. -/
def LifecycleKept (recoveries : Bool) (tr : List (Step Runtime Action)) : Prop :=
  ∀ x ∈ tr, ∀ id old new, x.before.storage.get id = some old →
    x.after.storage.get id = some new → old.state = new.state ∨ Edge recoveries old new

/-- One step, by what it can do to the job. -/
theorem follows_next (hl : s.Lawful) (hs : s.AtWork) (h : Next s a t)
    (hfresh : s.reinserts a = false) (hrecovers : s.recovers a = true → b = true)
    (hold : s.storage.get id = some old) (hnew : t.storage.get id = some new) :
    old.state = new.state ∨ Edge b old new := by
  rcases storage_cases h with hsame | ⟨i, env, ρ, op, reply, rfl, hcall, hop⟩
  · rw [hsame, hold] at hnew
    cases hnew
    exact .inl rfl
  · have heffect := Section.effect hop id
    simp only [MemoryStorage.get] at hold hnew
    rw [hold, hnew] at heffect
    cases heffect with
    | same => exact .inl rfl
    | update _ _ hid =>
      obtain ⟨p, c, hc, hout⟩ := hcall.update_holder hl
      obtain rfl := hs.stored i c hc old (by rw [← hout.id_eq, hid, hold])
      exact .inr (.of_outcome (hc.processing hl) hout)
    | updateIfState =>
      obtain ⟨_, -, -, -, hfailed, henqueued⟩ := hcall.allowed hl
      have hretry : old.state.canTransitionTo new.state = true :=
        (JobState.canTransitionTo_enqueued henqueued).mpr (.inr (.inl hfailed))
      exact .inr (.allowed hretry)
    | insert _ _ hid =>
      rw [← hid, (hcall.not_reinserts hfresh).1] at hold
      cases hold
    | promoteScheduled _ _ _ hdue =>
      have hkind := MemoryStorage.dueScheduled_kind hdue
      exact .inr (.allowed ((JobState.canTransitionTo_enqueued rfl).mpr (.inl hkind)))
    | promoteRetry _ _ _ hdue =>
      have hkind := MemoryStorage.dueRetry_kind hdue
      exact .inr (.allowed ((JobState.canTransitionTo_enqueued rfl).mpr (.inr (.inr hkind))))
    | requeue _ _ hlost =>
      have hb := hrecovers (by simp [recovers, hcall.pending])
      exact .inr (.of_lost hb (MemoryStorage.stale_kind hlost))
    | reclaim _ _ hlost =>
      have hb := hrecovers (by simp [recovers, hcall.pending])
      exact .inr (.of_lost hb (MemoryStorage.ownedBy_kind hlost))
    | claim _ _ _ havail => exact .inr (.of_available havail rfl)

/-- Persisted histories follow the lifecycle, but for the claim of a due job that was
never promoted, and, where recoveries run, for what they take back. -/
theorem lifecycle_kept (hr : Run Next (idle storage) tr s)
    (hfresh : ∀ x ∈ tr, x.before.reinserts x.label = false) :
    ((∀ x ∈ tr, x.label.spawns unrecovering = true) → LifecycleKept false tr) ∧
      ((∀ x ∈ tr, x.before.recoversHeld false x.label = false) → LifecycleKept true tr) := by
  have step : ∀ {b : Bool}, (∀ x ∈ tr, x.before.recoversHeld false x.label = false) →
      (∀ x ∈ tr, x.before.recovers x.label = true → b = true) → LifecycleKept b tr := by
    intro b hspares hrecovers x hx id old new hold hnew
    obtain ⟨pre, hsub, hpre, hnext⟩ := hr.of_mem hx
    have hwork := atWork_run hpre (fun y hy => hspares y (hsub y hy))
      fun y hy => hfresh y (hsub y hy)
    exact follows_next (lawful_run (lawful_idle storage) hpre) hwork hnext (hfresh x hx)
      (hrecovers x hx) hold hnew
  constructor
  · intro hkind
    refine step (fun x hx => spares_of_unrecovering hr hkind hx) fun x hx hrecovers => ?_
    obtain ⟨pre, hsub, hpre, -⟩ := hr.of_mem hx
    rw [recovers_eq_false hpre fun y hy => hkind y (hsub y hy)] at hrecovers
    cases hrecovers
  · exact fun hspares => step hspares fun _ _ _ => rfl

/-- A job is scheduled an hour ahead, and a worker fetches it as soon as it is due. -/
def fetchedWhenDue : List Action :=
  let server := BackgroundJobServer.new .default fun _ => true
  let late := Duration.hours 1
  [Action.spawn (.schedule (Job.new "a" 0 "send_email" .null) late "nightly")] ++
  Action.calls 0 3 0 .elapsed ++ [Action.spawn (server.worker "qml-server" 0 1)] ++
  Action.calls 1 10 late (.finished (.ok (.success none 0 .empty)))

/-- Its worker crashes, and a server start takes it back. -/
def takenBack : List Action :=
  let server := BackgroundJobServer.new .default fun _ => true
  [Action.spawn (.enqueue (Job.new "a" 0 "send_email" .null))] ++ Action.calls 0 2 0 .elapsed ++
  [Action.spawn (server.worker "qml-server" 0 1)] ++ Action.calls 1 5 0 .elapsed ++
  [Action.abort 1] ++
  [Action.spawn (.start server "")] ++ Action.calls 2 2 (Duration.minutes 10) .elapsed

theorem lifecycle_kept_taken_back :
    (∃ tr s, Run Next (idle (.empty none)) tr s ∧ LifecycleKept false tr ∧
      (s.storage.get "a").map (·.state.kind) = some .succeeded) ∧
    ∃ tr s, Run Next (idle (.empty none)) tr s ∧ LifecycleKept true tr ∧
      (s.storage.get "a").map (·.state.kind) = some .enqueued := by
  constructor
  · obtain ⟨s, hr⟩ := replay_run step (idle (.empty none)) fetchedWhenDue
    refine ⟨_, s, hr, (lifecycle_kept hr (by decide +kernel)).1 (by decide +kernel), ?_⟩
    rw [hr.eq_last]
    decide +kernel
  · obtain ⟨s, hr⟩ := replay_run step (idle (.empty none)) takenBack
    refine ⟨_, s, hr, (lifecycle_kept hr (by decide +kernel)).2 (by decide +kernel), ?_⟩
    rw [hr.eq_last]
    decide +kernel

/-- No recovery runs, and the job goes from `Scheduled` straight to `Processing`. -/
theorem fetched_out_of_turn : ∃ tr s, Run Next (idle (.empty none)) tr s ∧
    (∀ x ∈ tr, x.label.spawns unrecovering = true) ∧
    (∀ x ∈ tr, x.before.reinserts x.label = false) ∧
    ∃ x ∈ tr, ∃ old new, x.before.storage.get "a" = some old ∧
      x.after.storage.get "a" = some new ∧ old.state.kind = .scheduled ∧
      new.state.kind = .processing ∧ old.state.canTransitionTo new.state = false := by
  obtain ⟨s, hr⟩ := replay_run step (idle (.empty none)) fetchedWhenDue
  have hfetched : ∃ x ∈ replay step (idle (.empty none)) fetchedWhenDue,
      (x.before.storage.get "a").map Job.state =
        some (.scheduled 0 (Duration.hours 1) "nightly") ∧
      (x.after.storage.get "a").map Job.state =
        some (.processing (Duration.hours 1) "qml-server:worker:0" "memory-storage") := by
    decide +kernel
  obtain ⟨x, hx, hbefore, hafter⟩ := hfetched
  obtain ⟨old, hold, hscheduled⟩ := Option.map_eq_some_iff.mp hbefore
  obtain ⟨new, hnew, hprocessing⟩ := Option.map_eq_some_iff.mp hafter
  refine ⟨_, s, hr, by decide +kernel, by decide +kernel, x, hx, old, new, hold, hnew, ?_⟩
  rw [hscheduled, hprocessing]
  exact ⟨rfl, rfl, rfl⟩

end Runtime
end Qml
