import Qml.Memory.Sections
import Qml.Recurring.Ticks

namespace Qml
open Lib

namespace MemoryStorage

/-- `enqueue`, its two critical sections in one go. -/
def enqueueNow (s : MemoryStorage) (job : Job) : Except StorageError Unit × MemoryStorage :=
  if s.isAtCapacity then
    (.error (.capacityExceeded
      ("Memory storage is at capacity (" ++ toString s.len ++ " jobs)")), s)
  else (.ok (), s.insertJob job)

end MemoryStorage

/-- The two maps of the in-memory backend that the poller uses. -/
structure RecurringMemory where
  storage : MemoryStorage
  templates : Templates

namespace RecurringMemory

/-- What a call reads from outside the storage. -/
structure Draw where
  now : DateTime
  newId : String
  order : List String
  deriving Inhabited

/-- Any section of the job storage may be entered by other tasks. -/
inductive Other
  | enter {ρ : Type} (op : Section ρ) (env : Reading)

/-- Make one call of the in-memory backend. -/
def perform (draw : Draw) (m : RecurringMemory) : RecurringCall ρ → ρ × RecurringMemory
  | .now => (draw.now, m)
  | .newId => (draw.newId, m)
  | .fetchDueRecurringJobs now limit =>
    let (due, t) := (m.templates.reorder draw.order).fetchDue now limit
    (.ok due, { m with templates := t })
  | .enqueue job =>
    let (reply, s) := m.storage.enqueueNow job
    (reply, { m with storage := s })
  | .upsertRecurringJob r => (.ok (), { m with templates := m.templates.upsert r })
  | .removeRecurringJob id =>
    let (removed, t) := m.templates.remove id
    (.ok removed, { m with templates := t })

def other (m : RecurringMemory) : Other → Option RecurringMemory
  | .enter op env => (op.perform env m.storage).map fun r => { m with storage := r.2 }

variable {draw : Draw} {m m' : RecurringMemory} {ρ : Type} {call : RecurringCall ρ} {reply : ρ}

theorem templates_other {op : Other} (h : m.other op = some m') : m'.templates = m.templates := by
  cases op with
  | enter op env =>
    obtain ⟨r, -, rfl⟩ := Option.map_eq_some_iff.mp h
    rfl

theorem perform_effect (h : m.perform draw call = (reply, m')) :
    call.Effect (fun now limit => (m.templates.reorder draw.order).due now limit) m.templates
      m'.templates := by
  cases call with
  | now | newId | enqueue | removeRecurringJob =>
    cases h
    exact fun _ => rfl
  | fetchDueRecurringJobs now limit =>
    cases h
    intro id
    simp only [Templates.get?_park, Templates.get?_reorder]
  | upsertRecurringJob r =>
    cases h
    exact ⟨r.createdAt, fun _ => rfl⟩

/-- The in-memory backend, which hands out what it parks as it was. -/
abbrev store : TemplateStore where
  State := RecurringMemory
  Draw := Draw
  Other := Other
  templates := templates
  perform := fun draw m call => m.perform draw call
  other := fun op m => m.other op
  selected := fun draw m now limit => (m.templates.reorder draw.order).due now limit
  handed := fun _ r => r
  others := templates_other
  due := fun _ _ _ _ r hr => by
    obtain ⟨hget, henabled, hdue⟩ := Templates.mem_due hr
    exact ⟨Templates.get?_reorder ▸ hget, henabled, hdue⟩
  distinct := fun draw m now limit => Templates.due_nodup ..
  named := fun _ _ => rfl
  effect := fun h => .inl (perform_effect h)
  heard := fun h => by
    refine ⟨?_, perform_effect h⟩
    cases h
    rw [List.map_id']

/-- With any number of pollers over one storage, in every order of their calls,
a template is claimed at ever later dates, every job that is enqueued answers to
a claim, and each claim has at most one job; so no occurrence is materialized
twice. Other tasks may remove the template and use the job storage, but not
schedule it anew. -/
theorem no_tick_twice {cron : Cron} {id : String} {m : RecurringMemory} {s : Site store}
    {tr : List (Step (Site store) (Site.Event store))} (hr : Run (Site.Next cron) (.idle m) tr s)
    (hspawn : ∀ x ∈ tr, x.label.schedules id = false)
    (hclock : ∀ x ∈ tr, x.before.outruns id x.label = false) :
    ((Site.claims tr id).map Claim.due).Pairwise (· < ·) ∧
      (Site.firings tr id).Sublist ((Site.claims tr id).map fun c => some c.clock) := by
  have hticking := Site.ticking_run hr hspawn hclock
  exact ⟨hticking.inTurn.increasing, hticking.standing.sublist⟩

/-- A template that is due every second, stored at noon. -/
def everySecond : Templates :=
  let noon : DateTime := 1767268800000000000
  Templates.empty.upsert ⟨"tick", "* * * * * *", "tick", .null, "default", noon, none, noon, noon,
    true⟩

/-- Two pollers, whose clocks differ by a second, at work on it in turns. -/
def twoPollers : List (Site.Event store) :=
  let noon : DateTime := 1767268800000000000
  let calls (i n : Nat) (now : DateTime) : List (Site.Event store) :=
    List.replicate n (.step i (⟨now, "job", []⟩ : Draw))
  [.spawn (.poller 256 2), .spawn (.poller 256 2)] ++ calls 0 2 noon ++
    calls 1 2 (noon + Duration.seconds 1) ++ calls 0 5 noon ++
    calls 1 7 (noon + Duration.seconds 1)

theorem no_tick_twice_twoPollers : ∃ tr s,
    Run (Site.Next .everySecond) (.idle (B := store) ⟨.empty none, everySecond⟩) tr s ∧
    (Site.claims tr "tick").length = 2 ∧
    ((Site.claims tr "tick").map Claim.due).Pairwise (· < ·) ∧
    (Site.firings tr "tick").Sublist ((Site.claims tr "tick").map fun c => some c.clock) := by
  obtain ⟨s, hr⟩ := replay_run (Site.next .everySecond)
    (.idle (B := store) ⟨.empty none, everySecond⟩) twoPollers
  exact ⟨_, s, hr, by decide +kernel,
    no_tick_twice hr (by decide +kernel) (by decide +kernel)⟩

end RecurringMemory
end Qml
