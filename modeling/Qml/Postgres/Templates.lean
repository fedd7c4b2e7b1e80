import Qml.Core.Fault
import Qml.Recurring.Store

namespace Qml
open Lib

namespace PostgresStorage

/-- What a call of a poller meets: its clock, a fresh identifier, the reply of the job
storage; the order in which the rows are scanned and returned and the rows that other
transactions hold locked; a fault; and the database's own text for a negative bound. -/
structure TemplateDraw where
  now : DateTime
  newId : String
  enqueued : Except StorageError Unit
  scan : List String
  returning : List String
  locked : String → Bool
  fault : Option Fault
  negative : String

/-- `upsert_recurring_job`: on conflict the creation time of the row stays. -/
def upsertRecurringJob (t : Templates) (r : RecurringJob) : Templates :=
  match t.get? r.id with
  | some old => t.upsert { r with createdAt := old.createdAt }
  | none => t.upsert r

/-- The rows that the inner `SELECT .. FOR UPDATE SKIP LOCKED` of a fetch picks. -/
def selectDue (t : Templates) (draw : TemplateDraw) (now : DateTime) (limit : Nat) :
    List RecurringJob :=
  (((t.reorder draw.scan).values.filter fun r =>
    Templates.isDue now r && !draw.locked r.id).insertionSort
      fun a b => a.nextRunAt ≤ b.nextRunAt).take limit

/-- What a fetch returns of the rows it has parked: the date it was made for, in the place
of the one they are parked at. -/
def returned (draw : TemplateDraw) (now : DateTime) (due : List RecurringJob) :
    List RecurringJob :=
  (due.insertionSort fun a b => draw.returning.idxOf a.id ≤ draw.returning.idxOf b.id).map fun r =>
    { r with nextRunAt := now }

/-- `fetch_due_recurring_jobs`, with the order in which the rows come back; `limit as i64`
makes the largest bounds negative. -/
def fetchDueInOrder (t : Templates) (draw : TemplateDraw) (now : DateTime) (limit : Nat) :
    Except StorageError (List RecurringJob) × Templates :=
  if 2 ^ 63 ≤ limit then
    (.error (.operationFailed ("Failed to fetch due recurring jobs: " ++ draw.negative)), t)
  else
    let due := selectDue t draw now limit
    (.ok (returned draw now due), t.park (due.map RecurringJob.id) (now + Templates.parking))

/-- Make one call of a poller, on the table of the templates. -/
def performRecurring (draw : TemplateDraw) (t : Templates) : RecurringCall ρ → ρ × Templates
  | .now => (draw.now, t)
  | .newId => (draw.newId, t)
  | .fetchDueRecurringJobs now limit =>
    Fault.outcome draw.fault t (fetchDueInOrder t draw now limit)
  | .enqueue _ => (draw.enqueued, t)
  | .upsertRecurringJob r =>
    Fault.outcome draw.fault t (.ok (), upsertRecurringJob t r)
  | .removeRecurringJob id => Fault.outcome draw.fault t (.ok (t.remove id).1, (t.remove id).2)

section
variable {t : Templates} {draw : TemplateDraw} {now : DateTime} {limit : Nat} {id : String}
  {r r' : RecurringJob}

theorem mem_selectDue (h : r ∈ selectDue t draw now limit) :
    t.get? r.id = some r ∧ r.enabled = true ∧ r.nextRunAt ≤ now := by
  have hmem := (List.perm_insertionSort _ _).mem_iff.mp (List.mem_of_mem_take h)
  obtain ⟨hvalue, hdue⟩ := List.mem_filter.mp hmem
  simp only [Templates.isDue, Bool.and_eq_true, decide_eq_true_eq] at hdue
  exact ⟨by simpa using Templates.mem_values.mp hvalue, hdue.1⟩

theorem selectDue_nodup : ((selectDue t draw now limit).map RecurringJob.id).Nodup := by
  have hfilter := (t.reorder draw.scan).values_nodup.sublist ((List.filter_sublist
    (p := fun r => Templates.isDue now r && !draw.locked r.id)).map RecurringJob.id)
  have hsorted := (((List.perm_insertionSort (fun a b : RecurringJob => a.nextRunAt ≤ b.nextRunAt)
    _).map RecurringJob.id).nodup_iff).mpr hfilter
  exact hsorted.sublist ((List.take_sublist _ _).map RecurringJob.id)

/-- A fetch returns the rows it parks, in some order. -/
theorem returned_perm (due : List RecurringJob) :
    (returned draw now due).Perm (due.map fun r => { r with nextRunAt := now }) :=
  (List.perm_insertionSort _ due).map _

theorem same_upsertRecurringJob (t : Templates) (r : RecurringJob) : ∃ createdAt,
    (t.upsert { r with createdAt := createdAt }).Same (upsertRecurringJob t r) := by
  unfold upsertRecurringJob
  cases t.get? r.id with
  | none => exact ⟨r.createdAt, fun _ => rfl⟩
  | some old => exact ⟨old.createdAt, fun _ => rfl⟩

/-- A fetch that succeeds returns what it has parked. -/
theorem fetchDueInOrder_ok {rows : List RecurringJob} {t' : Templates}
    (h : fetchDueInOrder t draw now limit = (.ok rows, t')) :
    let due := selectDue t draw now limit
    rows = returned draw now due ∧
      t' = t.park (due.map RecurringJob.id) (now + Templates.parking) := by
  unfold fetchDueInOrder at h
  split at h
  · cases h
  · cases h
    exact ⟨rfl, rfl⟩

/-- What a call that is carried out does, whatever its reply. -/
theorem performRecurring_effect {ρ : Type} {call : RecurringCall ρ} {reply : ρ} {t' : Templates}
    (h : performRecurring draw t call = (reply, t')) :
    call.Effect (selectDue t draw) t t' ∨ t.Same t' := by
  have hsame : t.Same t := fun _ => rfl
  cases call with
  | now | newId | enqueue =>
    cases h
    exact .inr hsame
  | fetchDueRecurringJobs clock limit =>
    have heffect : RecurringCall.Effect (selectDue t draw) t (fetchDueInOrder t draw clock limit).2
        (.fetchDueRecurringJobs clock limit) ∨ t.Same (fetchDueInOrder t draw clock limit).2 := by
      unfold fetchDueInOrder
      split
      · exact .inr hsame
      · exact .inl fun _ => rfl
    rcases Fault.left_cases h with rfl | rfl
    · exact heffect
    · exact .inr hsame
  | upsertRecurringJob r =>
    rcases Fault.left_cases h with rfl | rfl
    · exact .inl (same_upsertRecurringJob t r)
    · exact .inr hsame
  | removeRecurringJob id =>
    rcases Fault.left_cases h with rfl | rfl
    · exact .inl fun _ => rfl
    · exact .inr hsame

theorem performRecurring_ok {rows : List RecurringJob} {t' : Templates}
    (h : performRecurring draw t (.fetchDueRecurringJobs now limit) = (.ok rows, t')) :
    fetchDueInOrder t draw now limit = (.ok rows, t') := by
  rcases Fault.outcome_cases h with ⟨-, heq⟩ | ⟨error, herror, -⟩
  · exact heq.symm
  · cases herror

end

end PostgresStorage
end Qml
