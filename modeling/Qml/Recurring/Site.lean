import Qml.Lib.Crew
import Qml.Recurring.Store

namespace Qml
open Lib

/-- The claims of a task: the templates it has fetched and not yet written back,
the reading of the clock it fetched them with, and whether the job of the first
one is enqueued. Bookkeeping for the proofs, computed from the calls it makes. -/
structure Claims where
  now : DateTime
  pending : List RecurringJob
  fired : Bool

namespace Claims

def none : Claims := ⟨0, [], false⟩

def after (claims : Claims) : {ρ : Type} → RecurringCall ρ → ρ → Claims
  | _, .fetchDueRecurringJobs now _, .ok due => ⟨now, due, false⟩
  | _, .enqueue _, _ => { claims with fired := true }
  | _, .upsertRecurringJob _, _ => { claims with pending := claims.pending.tail, fired := false }
  | _, _, _ => claims

end Claims

/-- The tasks at work on the templates of a backend, with notes of their claims. -/
abbrev TemplateStore.crew (B : TemplateStore) : Crew RecurringCall Claims where
  State := B.State
  Draw := B.Draw
  Other := B.Other
  perform := fun draw state call => B.perform draw state call
  other := B.other
  blank := .none
  after := Claims.after

/-- A task that works on the templates. -/
abbrev RecurringTask : Type 1 := Crew.Task RecurringCall Duty Duty.Answer Claims

/-- A backend, and the tasks of all servers that work on its templates. -/
abbrev Site (B : TemplateStore) : Type 1 := Crew.Site B.crew Duty Duty.Answer

namespace Site
variable {B : TemplateStore}

def idle (state : B.State) : Site B := ⟨state, []⟩

def templates (s : Site B) : Templates := B.templates s.state

abbrev Event (B : TemplateStore) : Type 1 := Crew.Event B.crew Duty

abbrev next (cron : Cron) (s : Site B) (e : Event B) : Option (Site B) :=
  Crew.Site.next (Duty.program cron) s e

abbrev Next (cron : Cron) (s : Site B) (e : Event B) (t : Site B) : Prop := s.next cron e = some t

end Site
end Qml
