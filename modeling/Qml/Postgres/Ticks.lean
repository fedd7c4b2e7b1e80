import Qml.Postgres.Templates
import Qml.Recurring.Ticks

namespace Qml
open Lib

namespace PostgresStorage

/-- The table of the templates, of which a fetch returns the rows with the date of the fetch in
the place of their own. -/
def templateStore : TemplateStore where
  State := Templates
  Draw := TemplateDraw
  Other := PEmpty
  templates := fun t => t
  perform := fun draw t call => performRecurring draw t call
  other := fun op _ => op.elim
  selected := fun draw t now limit => selectDue t draw now limit
  handed := fun now r => { r with nextRunAt := now }
  others := fun {op} _ => op.elim
  due := fun _ _ _ _ _ hr => mem_selectDue hr
  distinct := fun _ _ _ _ => selectDue_nodup
  named := fun _ _ => rfl
  effect := performRecurring_effect
  heard := fun h => by
    obtain ⟨rfl, rfl⟩ := fetchDueInOrder_ok (performRecurring_ok h)
    exact ⟨returned_perm _, fun _ => rfl⟩

/-- With any number of pollers over one table, in every order of their statements, whatever
rows are locked and whichever statements fail, before they take effect or after: each claim
of a template is due later than the time of the one before, and every job that is enqueued
answers to a claim, of which each has at most one. -/
theorem ticks_in_turn {cron : Cron} {id : String} {templates : Templates} {s : Site templateStore}
    {tr : List (Step (Site templateStore) (Site.Event templateStore))}
    (hr : Run (Site.Next cron) (.idle templates) tr s)
    (hspawn : ∀ x ∈ tr, x.label.schedules id = false)
    (hclock : ∀ x ∈ tr, x.before.outruns id x.label = false) :
    Site.InTurn (Site.claims tr id) ∧
      (Site.firings tr id).Sublist ((Site.claims tr id).map fun c => some c.clock) := by
  have hticking := Site.ticking_run hr hspawn hclock
  exact ⟨hticking.inTurn, hticking.standing.sublist⟩

/-- A template that is due every second, stored at noon. -/
def secondly : Templates :=
  let noon : DateTime := 1767268800000000000
  Templates.empty.upsert ⟨"tick", "* * * * * *", "tick", .null, "default", noon, none, noon, noon,
    true⟩

/-- Two pollers, whose clocks differ by a second, at work on it in turns. The second one
loses the reply to its first fetch, although the rows are parked. -/
def lossyPollers : List (Site.Event templateStore) :=
  let noon : DateTime := 1767268800000000000
  let draw (now : DateTime) (fault : Option Fault) : TemplateDraw :=
    ⟨now, "job", .ok (), [], [], fun _ => false, fault, "LIMIT must not be negative"⟩
  let calls (i n : Nat) (now : DateTime) : List (Site.Event templateStore) :=
    List.replicate n (.step i (draw now none))
  let lost : List (Site.Event templateStore) := [.step 1 (draw noon (some ⟨.timeout 30000, true⟩))]
  [.spawn (.poller 256 2), .spawn (.poller 256 2)] ++ calls 0 7 noon ++
    calls 1 1 (noon + Duration.seconds 1) ++ lost ++ calls 1 7 (noon + Duration.seconds 1)

theorem ticks_in_turn_lossyPollers : ∃ tr s,
    Run (Site.Next .everySecond) (.idle (B := templateStore) secondly) tr s ∧
    (Site.claims tr "tick").length = 1 ∧ Site.InTurn (Site.claims tr "tick") ∧
    (Site.firings tr "tick").Sublist ((Site.claims tr "tick").map fun c => some c.clock) := by
  obtain ⟨s, hr⟩ := replay_run (Site.next .everySecond) (.idle (B := templateStore) secondly)
    lossyPollers
  exact ⟨_, s, hr, by decide +kernel, ticks_in_turn hr (by decide +kernel) (by decide +kernel)⟩

end PostgresStorage
end Qml
