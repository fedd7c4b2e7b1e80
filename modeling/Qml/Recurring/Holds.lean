import Qml.Recurring.Duties

namespace Qml
open Lib RecurringCall

/-- A claimed template that its poller has not written back yet. -/
structure Hold where
  now : DateTime
  template : RecurringJob
  fired : Bool

/-- The claimed copies of one template; only that of the first one can be enqueued. -/
def Claims.held (claims : Claims) (id : String) : List Hold :=
  let holds : List Hold := match claims.pending with
    | [] => []
    | r :: rest => ⟨claims.now, r, claims.fired⟩ :: rest.map fun r => ⟨claims.now, r, false⟩
  holds.filter fun hold => decide (hold.template.id = id)

/-- What a task may still write back; a dropped task writes nothing. -/
def RecurringTask.held (task : RecurringTask) (id : String) : List Hold :=
  if task.alive then task.notes.held id else []

namespace Site

/-- All copies of one template that may still be written back. -/
def holds {B : TemplateStore} (s : Site B) (id : String) : List Hold :=
  Crew.Site.held (RecurringTask.held · id) s

end Site

section
variable {claims : Claims} {id : String} {r : RecurringJob} {rest due : List RecurringJob}

theorem held_none (h : claims.pending = []) : claims.held id = [] := by
  simp [Claims.held, h]

theorem held_other {fired : Bool} {now : DateTime} (hne : r.id ≠ id) :
    Claims.held ⟨now, r :: rest, fired⟩ id = Claims.held ⟨now, rest, false⟩ id := by
  cases rest <;> simp [Claims.held, hne]

theorem held_own {fired : Bool} {now : DateTime} (hid : r.id = id) :
    Claims.held ⟨now, r :: rest, fired⟩ id =
      ⟨now, r, fired⟩ :: Claims.held ⟨now, rest, false⟩ id := by
  cases rest <;> simp [Claims.held, hid]

theorem held_due {now : DateTime} : Claims.held ⟨now, due, false⟩ id =
    (due.filter fun r => decide (r.id = id)).map fun r => ⟨now, r, false⟩ := by
  induction due with
  | nil => rfl
  | cons r rest ih =>
    by_cases hid : r.id = id
    · rw [held_own hid, ih, List.filter_cons_of_pos (by simpa using hid), List.map_cons]
    · rw [held_other hid, ih, List.filter_cons_of_neg (by simpa using hid)]

theorem mem_held {hold : Hold} (h : hold ∈ claims.held id) :
    hold.template ∈ claims.pending ∧ hold.template.id = id ∧ hold.now = claims.now := by
  obtain ⟨now, pending, fired⟩ := claims
  simp only [Claims.held, List.mem_filter, decide_eq_true_eq] at h
  obtain ⟨hmem, hid⟩ := h
  cases pending with
  | nil => cases hmem
  | cons r rest =>
    rcases List.mem_cons.mp hmem with rfl | hmem
    · exact ⟨List.mem_cons_self, hid, rfl⟩
    · obtain ⟨r', hr', rfl⟩ := List.mem_map.mp hmem
      exact ⟨List.mem_cons_of_mem _ hr', hid, rfl⟩

end

end Qml
