import Qml.Recurring.Site

namespace Qml
open Lib RecurringCall

/-- Whether a job is one that a template asks for. -/
def RecurringJob.asksFor (r : RecurringJob) (job : Job) : Prop :=
  job.method = r.method ∧ job.payload = r.payload ∧ job.queue = r.queue

instance (r : RecurringJob) (job : Job) : Decidable (r.asksFor job) :=
  inferInstanceAs (Decidable (_ ∧ _ ∧ _))

/-- Whether a duty is to schedule a template. -/
def Duty.schedules (id : String) : Duty → Bool
  | .scheduleRecurring id' .. => decide (id' = id)
  | _ => false

/-- What a poller writes back for a template it has claimed: the template moved
to the next occurrence after its reading of the clock, or disabled. -/
inductive Saved (cron : Cron) (now : DateTime) (r : RecurringJob) : RecurringJob → Prop
  | advanced {t : DateTime} (now' : DateTime) (hnext : nextAfter cron r.cron now = .ok t) :
      Saved cron now r (RecurringJob.moveTo { r with lastRunAt := some now } t now')
  | disabled {e : QmlError} (hnext : nextAfter cron r.cron now = .error e) :
      Saved cron now r { r with lastRunAt := some now, enabled := false }

theorem RecurringJob.of_new {cron : Cron} {id expr method queue : String} {payload : JsonValue}
    {start now : DateTime} {r : RecurringJob}
    (h : RecurringJob.new cron id expr method payload queue start now = .ok r) :
    id = r.id ∧ r.cron = expr ∧ r.method = method ∧ r.payload = payload ∧ r.queue = queue := by
  unfold RecurringJob.new at h
  split at h <;> cases h
  exact ⟨rfl, rfl, rfl, rfl, rfl⟩

/-- The calls a task may make, given its claims. -/
inductive Permits (cron : Cron) (duty : Duty) (claims : Claims) :
    {ρ : Type} → RecurringCall ρ → Prop
  | now : Permits cron duty claims .now
  | newId : Permits cron duty claims .newId
  | fetch {batchSize rounds : Nat} (now : DateTime) (limit : Nat)
      (hduty : duty = .poller batchSize rounds) (hpending : claims.pending = []) :
      Permits cron duty claims (.fetchDueRecurringJobs now limit)
  | enqueue {batchSize rounds : Nat} {r : RecurringJob} {rest : List RecurringJob} {job : Job}
      (hduty : duty = .poller batchSize rounds) (hpending : claims.pending = r :: rest)
      (hfired : claims.fired = false) (hasked : r.asksFor job) :
      Permits cron duty claims (.enqueue job)
  | save {batchSize rounds : Nat} {r r' : RecurringJob} {rest : List RecurringJob}
      (hduty : duty = .poller batchSize rounds) (hpending : claims.pending = r :: rest)
      (hsaved : Saved cron claims.now r r') : Permits cron duty claims (.upsertRecurringJob r')
  | schedule {id expr method queue : String} {payload : JsonValue} {start now : DateTime}
      {r : RecurringJob} (hduty : duty = .scheduleRecurring id expr method payload queue)
      (hnew : RecurringJob.new cron id expr method payload queue start now = .ok r)
      (hpending : claims.pending = []) : Permits cron duty claims (.upsertRecurringJob r)
  | remove {id : String} (hduty : duty = .removeRecurring id) :
      Permits cron duty claims (.removeRecurringJob id)

/-- The order of calls that a duty keeps to. -/
def Rules (cron : Cron) (duty : Duty) : Contract RecurringCall Claims where
  may claims _ call := Permits cron duty claims call
  step claims _ call reply claims' := claims' = claims.after call reply

section
variable {cron : Cron} {duty : Duty} {claims : Claims} {α ρ : Type} {Q : α → Claims → Prop}

theorem wp_rules {call : RecurringCall ρ} {k : ρ → Prog RecurringCall α} :
    Prog.wp (Rules cron duty) Q (.call call k) claims ↔ Permits cron duty claims call ∧
      ∀ reply, Prog.wp (Rules cron duty) Q (k reply) (claims.after call reply) := by
  rw [Prog.wp_call]
  exact ⟨fun h => ⟨h.1, fun reply => h.2 reply _ rfl⟩, fun h => ⟨h.1, fun r t he => he ▸ h.2 r⟩⟩

theorem Saved.id_eq {now : DateTime} {r r' : RecurringJob} (h : Saved cron now r r') :
    r'.id = r.id := by
  cases h <;> rfl

/-- A template that is written back and still enabled is due later than the
reading of the clock. -/
theorem Saved.later {now : DateTime} {r r' : RecurringJob} (h : Saved cron now r r')
    (henabled : r'.enabled = true) : now < r'.nextRunAt := by
  cases h with
  | advanced now' hnext => exact lt_nextAfter hnext
  | disabled hnext => cases henabled

/-- Each claimed template is enqueued at most once and then written back. -/
theorem fire_permitted {batchSize rounds : Nat} {now : DateTime} {due : List RecurringJob}
    {k : Unit → Prog RecurringCall α} (hduty : duty = .poller batchSize rounds)
    (hk : Prog.wp (Rules cron duty) Q (k ()) ⟨now, [], false⟩) :
    Prog.wp (Rules cron duty) Q (RecurringJobPoller.fire cron now due >>= k) ⟨now, due, false⟩ := by
  induction due with
  | nil => exact hk
  | cons r rest ih =>
    simp only [RecurringJobPoller.fire, RecurringJob.advance, RecurringCall.readNow, Prog.ask_bind,
      Prog.call_bind]
    refine wp_rules.mpr ⟨.newId, fun jobId => wp_rules.mpr ⟨.now, fun createdAt =>
      wp_rules.mpr ⟨.enqueue hduty rfl rfl ⟨rfl, rfl, rfl⟩, fun _ => ?_⟩⟩⟩
    cases hnext : nextAfter cron r.cron now with
    | error e =>
      simp only [Prog.monad_pure, Prog.pure_bind, Prog.call_bind]
      exact wp_rules.mpr ⟨.save hduty rfl (.disabled hnext), fun _ => ih⟩
    | ok t =>
      simp only [Prog.monad_pure, Prog.call_bind, Prog.pure_bind]
      refine wp_rules.mpr ⟨.now, fun now' => ?_⟩
      exact wp_rules.mpr ⟨.save hduty rfl (.advanced now' hnext), fun _ => ih⟩

theorem tickOnce_permitted {batchSize rounds limit : Nat} (hduty : duty = .poller batchSize rounds)
    (hpending : claims.pending = []) :
    Prog.wp (Rules cron duty) (fun _ claims => claims.pending = [])
      (RecurringJobPoller.tickOnce cron limit) claims := by
  refine wp_rules.mpr ⟨.now, fun now => wp_rules.mpr ⟨.fetch now limit hduty hpending, ?_⟩⟩
  intro reply
  cases reply with
  | error e => exact hpending
  | ok due => exact fire_permitted hduty rfl

theorem run_permitted {batchSize rounds limit n : Nat} (hduty : duty = .poller batchSize rounds)
    (hpending : claims.pending = []) :
    Prog.wp (Rules cron duty) (fun _ _ => True) (RecurringJobPoller.run cron limit n) claims := by
  induction n generalizing claims with
  | zero => trivial
  | succ n ih =>
    refine (Prog.wp_bind ..).mpr (Prog.wp_mono (fun _ claims h => ?_)
      (tickOnce_permitted hduty hpending))
    exact ih h

/-- Every duty keeps to the order of calls. -/
theorem Duty.permitted (cron : Cron) (duty : Duty) :
    Prog.wp (Rules cron duty) (fun _ _ => True) (duty.program cron) .none := by
  cases duty with
  | poller batchSize rounds =>
    exact (Prog.wp_bind ..).mpr (Prog.wp_mono (fun _ _ _ => trivial) (run_permitted rfl rfl))
  | scheduleRecurring id expr method payload queue =>
    simp only [Duty.program, BackgroundJobServer.scheduleRecurring, RecurringCall.readNow,
      Prog.ask_bind, Prog.call_bind]
    refine wp_rules.mpr ⟨.now, fun start => wp_rules.mpr ⟨.now, fun now => ?_⟩⟩
    cases hnew : RecurringJob.new cron id expr method payload queue start now with
    | error e => trivial
    | ok r =>
      refine wp_rules.mpr ⟨.schedule rfl hnew rfl, fun reply => ?_⟩
      cases reply <;> trivial
  | removeRecurring id =>
    refine wp_rules.mpr ⟨.remove rfl, fun reply => ?_⟩
    cases reply <;> trivial

end

namespace Site
variable {B : TemplateStore} {cron : Cron} {s : Site B}

/-- Every task keeps to the order of calls of its duty. -/
abbrev Obeys (cron : Cron) (s : Site B) : Prop := Crew.Site.Obeys (Rules cron) s

theorem obeys_lasting (cron : Cron) : Crew.Site.Lasting (Duty.program cron) B.crew (fun _ => True)
    (fun duty program notes => program.wp (Rules cron duty) (fun _ _ => True) notes) where
  start duty _ := duty.permitted cron
  call h _ := (wp_rules.mp h).2 _

end Site
end Qml
