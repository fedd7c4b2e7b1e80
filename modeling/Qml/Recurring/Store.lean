import Qml.Recurring.Poller
import Qml.Recurring.Templates

namespace Qml
open Lib

/-- Two tables in which the same templates are stored. -/
def Templates.Same (t t' : Templates) : Prop := ∀ id, t'.get? id = t.get? id

/-- What a call does to the table of the templates when it takes effect: a fetch parks what
it selects, an upsert may keep the creation time of what it overwrites. -/
def RecurringCall.Effect (selected : DateTime → Nat → List RecurringJob) (t t' : Templates) :
    RecurringCall ρ → Prop
  | .fetchDueRecurringJobs clock limit =>
    (t.park ((selected clock limit).map RecurringJob.id) (clock + Templates.parking)).Same t'
  | .upsertRecurringJob r => ∃ createdAt, (t.upsert { r with createdAt := createdAt }).Same t'
  | .removeRecurringJob id => (t.remove id).2.Same t'
  | _ => t.Same t'

/-- A backend that parks a claimed template in its own row. It has a state, which other tasks
may change besides, and a call of it may fail before it takes effect or after. `selected` are the
rows that a fetch parks, as they are before it, and `handed` is what a poller gets for one. -/
structure TemplateStore where
  State : Type
  Draw : Type
  Other : Type 1
  templates : State → Templates
  perform : {ρ : Type} → Draw → State → RecurringCall ρ → ρ × State
  other : Other → State → Option State
  selected : Draw → State → DateTime → Nat → List RecurringJob
  handed : DateTime → RecurringJob → RecurringJob
  others : ∀ {op s s'}, other op s = some s' → templates s' = templates s
  due : ∀ draw s now limit, ∀ r ∈ selected draw s now limit,
    (templates s).get? r.id = some r ∧ r.enabled = true ∧ r.nextRunAt ≤ now
  distinct : ∀ draw s now limit, ((selected draw s now limit).map RecurringJob.id).Nodup
  named : ∀ now r, (handed now r).id = r.id
  effect : ∀ {draw s} {ρ : Type} {call : RecurringCall ρ} {reply s'},
    perform draw s call = (reply, s') →
      call.Effect (selected draw s) (templates s) (templates s') ∨
        (templates s).Same (templates s')
  heard : ∀ {draw s now limit rows s'},
    perform draw s (.fetchDueRecurringJobs now limit) = (.ok rows, s') →
      rows.Perm ((selected draw s now limit).map (handed now)) ∧
        (RecurringCall.fetchDueRecurringJobs now limit).Effect (selected draw s) (templates s)
          (templates s')

end Qml
