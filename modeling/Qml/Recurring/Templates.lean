import Qml.Core.Recurring
import Qml.Lib.Dict

namespace Qml
open Lib

/-- The recurring templates of the in-memory backend. Every template is stored
under its own identifier: the source only ever writes `insert(job.id.clone(), ..)`
or changes a template in place. -/
structure Templates where
  dict : Dict String RecurringJob
  keyed : ∀ {id r}, dict.get? id = some r → r.id = id

namespace Templates

def empty : Templates := ⟨.empty, by simp⟩

def get? (t : Templates) (id : String) : Option RecurringJob := t.dict.get? id

def values (t : Templates) : List RecurringJob := t.dict.values

def upsert (t : Templates) (r : RecurringJob) : Templates :=
  ⟨t.dict.insert r.id r, by
    intro id old h
    rw [Dict.get?_insert] at h
    split at h
    · cases h
      exact Eq.symm ‹_›
    · exact t.keyed h⟩

def remove (t : Templates) (id : String) : Bool × Templates :=
  (t.dict.contains id, ⟨t.dict.erase id, by
    intro id' old h
    rw [Dict.get?_erase] at h
    split at h
    · cases h
    · exact t.keyed h⟩)

/-- The same templates in another iteration order. -/
def reorder (order : List String) (t : Templates) : Templates :=
  ⟨t.dict.reorder order, by
    intro id r h
    rw [Dict.get?_reorder] at h
    exact t.keyed h⟩

/-- Move the given templates to one date, in place. -/
def park (t : Templates) (ids : List String) (date : DateTime) : Templates :=
  ⟨t.dict.mapValues fun id r => if id ∈ ids then { r with nextRunAt := date } else r, by
    intro id r h
    rw [Dict.get?_mapValues, Option.map_eq_some_iff] at h
    obtain ⟨old, ho, rfl⟩ := h
    have hid : old.id = id := t.keyed ho
    split <;> exact hid⟩

/-- How far in the future a claimed template is parked. -/
def parking : Duration := Duration.days 3650

def isDue (now : DateTime) (r : RecurringJob) : Bool :=
  r.enabled && decide (r.nextRunAt ≤ now)

/-- The due templates, the longest overdue first. -/
def due (t : Templates) (now : DateTime) (limit : Nat) : List RecurringJob :=
  ((t.values.filter (isDue now)).insertionSort fun a b => a.nextRunAt ≤ b.nextRunAt).take limit

/-- `fetch_due_recurring_jobs`: what is returned is parked. -/
def fetchDue (t : Templates) (now : DateTime) (limit : Nat) : List RecurringJob × Templates :=
  let due := t.due now limit
  (due, t.park (due.map RecurringJob.id) (now + parking))

variable {t : Templates} {id : String} {r : RecurringJob} {now : DateTime} {limit : Nat}

theorem id_of_get? (h : t.get? id = some r) : r.id = id := t.keyed h

@[simp] theorem get?_empty : empty.get? id = none := rfl

@[simp] theorem get?_upsert :
    (t.upsert r).get? id = if id = r.id then some r else t.get? id :=
  Dict.get?_insert ..

@[simp] theorem get?_remove {gone : String} :
    (t.remove gone).2.get? id = if id = gone then none else t.get? id :=
  Dict.get?_erase ..

@[simp] theorem get?_reorder {order : List String} : (t.reorder order).get? id = t.get? id :=
  Dict.get?_reorder ..

@[simp] theorem get?_park {ids : List String} {date : DateTime} :
    (t.park ids date).get? id =
      (t.get? id).map fun r => if id ∈ ids then { r with nextRunAt := date } else r :=
  Dict.get?_mapValues ..

theorem mem_values : r ∈ t.values ↔ t.get? r.id = some r := by
  rw [values, Dict.mem_values]
  constructor
  · rintro ⟨k, hk⟩
    rwa [← t.keyed hk] at hk
  · exact fun h => ⟨_, h⟩

theorem values_nodup (t : Templates) : (t.values.map RecurringJob.id).Nodup := by
  have hkeys : t.values.map RecurringJob.id = t.dict.keys := by
    simp only [values, Dict.values, Dict.keys, List.map_map]
    refine List.map_congr_left fun e he => t.keyed (Dict.get?_iff.mpr he)
  rw [hkeys]
  exact t.dict.nodup

theorem mem_due (h : r ∈ t.due now limit) :
    t.get? r.id = some r ∧ r.enabled = true ∧ r.nextRunAt ≤ now := by
  have hmem := (List.perm_insertionSort _ _).mem_iff.mp (List.mem_of_mem_take h)
  obtain ⟨hvalue, hdue⟩ := List.mem_filter.mp hmem
  simp only [isDue, Bool.and_eq_true, decide_eq_true_eq] at hdue
  exact ⟨mem_values.mp hvalue, hdue⟩

theorem due_nodup (t : Templates) (now : DateTime) (limit : Nat) :
    ((t.due now limit).map RecurringJob.id).Nodup := by
  have hfilter :=
    t.values_nodup.sublist ((List.filter_sublist (p := isDue now)).map RecurringJob.id)
  have hsorted := (((List.perm_insertionSort (fun a b : RecurringJob => a.nextRunAt ≤ b.nextRunAt)
    _).map RecurringJob.id).nodup_iff).mpr hfilter
  exact hsorted.sublist ((List.take_sublist _ _).map RecurringJob.id)

/-- A fetch parks what it returns. -/
theorem get?_fetchDue_of_mem (h : r ∈ t.due now limit) :
    (t.fetchDue now limit).2.get? r.id = some { r with nextRunAt := now + parking } := by
  have hmem : r.id ∈ (t.due now limit).map RecurringJob.id := List.mem_map_of_mem h
  simp [fetchDue, (mem_due h).1, hmem]

end Templates
end Qml
