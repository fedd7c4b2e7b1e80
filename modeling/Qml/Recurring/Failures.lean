import Qml.Memory.Recurring
import Qml.Postgres.Templates

namespace Qml
open Lib RecurringCall
open PostgresStorage (TemplateDraw)

/-- Whether a statement takes effect: it succeeds, or its reply is lost. -/
def PostgresStorage.TemplateDraw.takesEffect (w : TemplateDraw) : Bool :=
  w.fault.all Fault.executed

/-- The backends whose fetch parks the template in the row itself. -/
inductive Backend
  | memory
  | postgres

namespace Backend

/-- The rows that a fetch parks. In memory a template has no locks, and the scan is the order in
which the map is iterated. -/
def selected (b : Backend) (w : TemplateDraw) (t : Templates) (clock : DateTime) (limit : Nat) :
    List RecurringJob :=
  match b with
  | .memory => (t.reorder w.scan).due clock limit
  | .postgres => if 2 ^ 63 ≤ limit then [] else PostgresStorage.selectDue t w clock limit

def fetchDue (b : Backend) (w : TemplateDraw) (t : Templates) (clock : DateTime) (limit : Nat) :
    Except StorageError (List RecurringJob) × Templates :=
  match b with
  | .memory => ((t.reorder w.scan).fetchDue clock limit).map .ok id
  | .postgres => PostgresStorage.fetchDueInOrder t w clock limit

def upsert (b : Backend) (t : Templates) (r : RecurringJob) : Templates :=
  match b with
  | .memory => t.upsert r
  | .postgres => PostgresStorage.upsertRecurringJob t r

/-- Make one call. One that fails may have taken effect all the same. -/
def perform (b : Backend) (w : TemplateDraw) (t : Templates) : RecurringCall ρ → ρ × Templates
  | .now => (w.now, t)
  | .newId => (w.newId, t)
  | .fetchDueRecurringJobs clock limit => Fault.outcome w.fault t (b.fetchDue w t clock limit)
  | .enqueue _ => (w.enqueued, t)
  | .upsertRecurringJob r => Fault.outcome w.fault t (.ok (), b.upsert t r)
  | .removeRecurringJob id => Fault.outcome w.fault t (.ok (t.remove id).1, (t.remove id).2)

/-- Run a program until it is done or, when the draws run out, dropped between two calls. -/
def play (b : Backend) : Prog RecurringCall α → List TemplateDraw → Templates → Templates
  | .call call k, w :: ws, t =>
    let (reply, t) := b.perform w t call
    b.play (k reply) ws t
  | _, _, t => t

/-- The templates that a tick claims: those that its fetch parks, whether the poller hears of it
or not. -/
def claimed (b : Backend) (batchSize : Nat) (t : Templates) : List TemplateDraw → List RecurringJob
  | w :: w' :: _ => if w'.takesEffect then b.selected w' t w.now batchSize else []
  | _ => []

/-- The templates that the poller gets. -/
def handed (b : Backend) (batchSize : Nat) (t : Templates) : List TemplateDraw → List RecurringJob
  | w :: w' :: _ =>
    match (b.perform w' t (.fetchDueRecurringJobs w.now batchSize)).1 with
    | .ok due => due
    | .error _ => []
  | _ => []

end Backend

/-- The reading of the clock that a tick starts with. -/
def tickNow : List TemplateDraw → DateTime
  | w :: _ => w.now
  | [] => 0

/-- How many calls the poller makes for one template: an identifier, the clock,
the enqueue, the clock again if there is a next occurrence, and the upsert. -/
def callsFor (cron : Cron) (now : DateTime) (r : RecurringJob) : Nat :=
  match nextAfter cron r.cron now with
  | .ok _ => 5
  | .error _ => 4

/-- Whether the poller gets as far as the upsert of a template, and it takes effect. -/
def saves (cron : Cron) (now : DateTime) (id : String) :
    List RecurringJob → List TemplateDraw → Bool
  | [], _ => false
  | r :: rest, ws =>
    let n := callsFor cron now r
    if r.id = id then (ws[n - 1]?).any TemplateDraw.takesEffect
    else saves cron now id rest (ws.drop n)

/-- A claimed template is stored and, if it is still enabled, for the time it
was due or for the next occurrence. -/
def KeepsSchedule (cron : Cron) (now : DateTime) (before after : Templates) (id : String) : Prop :=
  ∃ old new, before.get? id = some old ∧ after.get? id = some new ∧ (new.enabled = true →
    new.nextRunAt = old.nextRunAt ∨ nextAfter cron old.cron now = .ok new.nextRunAt)

section
variable {cron : Cron} {b : Backend} {t : Templates} {now : DateTime} {id : String} {limit : Nat}
  {r : RecurringJob} {due rest : List RecurringJob} {w : TemplateDraw} {ws : List TemplateDraw}
  {α : Type}

/-- On Postgres a call is the one that the pollers of all servers make. -/
theorem perform_postgres {ρ : Type} (call : RecurringCall ρ) :
    Backend.postgres.perform w t call = PostgresStorage.performRecurring w t call := by
  cases call <;> rfl

/-- What a fetch selects is due, and each template once. -/
theorem selected_spec (b : Backend) (w : TemplateDraw) (t : Templates) (now : DateTime)
    (limit : Nat) : ((b.selected w t now limit).map RecurringJob.id).Nodup ∧
    ∀ r ∈ b.selected w t now limit,
      t.get? r.id = some r ∧ r.enabled = true ∧ r.nextRunAt ≤ now := by
  cases b with
  | memory =>
    refine ⟨Templates.due_nodup .., fun r hr => ?_⟩
    obtain ⟨hget, hdue⟩ := Templates.mem_due hr
    exact ⟨Templates.get?_reorder ▸ hget, hdue⟩
  | postgres =>
    simp only [Backend.selected]
    split
    · exact ⟨List.nodup_nil, fun r hr => by cases hr⟩
    · exact ⟨PostgresStorage.selectDue_nodup, fun r hr => PostgresStorage.mem_selectDue hr⟩

/-- A fetch that selects something parks it and returns it; on Postgres with another date and in
another order. -/
theorem fetchDue_spec (hr : r ∈ b.selected w t now limit) : ∃ rows,
    (b.fetchDue w t now limit).1 = .ok rows ∧ (rows.map RecurringJob.id).Nodup ∧
    (∃ r' ∈ rows, r'.id = r.id ∧ r'.cron = r.cron) ∧
    (b.fetchDue w t now limit).2.get? r.id =
      some { r with nextRunAt := now + Templates.parking } := by
  obtain ⟨hnodup, hselected⟩ := selected_spec b w t now limit
  obtain ⟨hget, -⟩ := hselected r hr
  have hmem : r.id ∈ (b.selected w t now limit).map RecurringJob.id := List.mem_map_of_mem hr
  cases b with
  | memory =>
    refine ⟨_, rfl, hnodup, ⟨r, hr, rfl, rfl⟩, ?_⟩
    exact Templates.get?_fetchDue_of_mem hr
  | postgres =>
    simp only [Backend.selected] at hr hnodup hmem
    split at hr
    · cases hr
    · rename_i hlimit
      rw [if_neg hlimit] at hnodup hmem
      simp only [Backend.fetchDue, PostgresStorage.fetchDueInOrder, if_neg hlimit]
      refine ⟨_, rfl, ?_, ⟨{ r with nextRunAt := now }, ?_, rfl, rfl⟩, ?_⟩
      · have hperm : (PostgresStorage.returned w now
            (PostgresStorage.selectDue t w now limit)).Perm _ :=
          PostgresStorage.returned_perm _
        have hids := hperm.map RecurringJob.id
        rw [List.map_map] at hids
        exact hids.nodup_iff.mpr hnodup
      · exact (PostgresStorage.returned_perm _).mem_iff.mpr (List.mem_map.mpr ⟨r, hr, rfl⟩)
      · rw [Templates.get?_park, hget, Option.map_some, if_pos hmem]

theorem get?_upsert (b : Backend) (t : Templates) (r : RecurringJob) : ∃ createdAt, ∀ id,
    (b.upsert t r).get? id =
      if id = r.id then some { r with createdAt := createdAt } else t.get? id := by
  cases b with
  | memory => exact ⟨r.createdAt, fun _ => Templates.get?_upsert⟩
  | postgres =>
    obtain ⟨createdAt, hsame⟩ := PostgresStorage.same_upsertRecurringJob t r
    exact ⟨createdAt, fun id => (hsame id).trans Templates.get?_upsert⟩

theorem play_nil {program : Prog RecurringCall α} : b.play program [] t = t := by
  cases program <;> rfl

theorem play_call {ρ : Type} {call : RecurringCall ρ} {k : ρ → Prog RecurringCall α} :
    b.play (.call call k) (w :: ws) t =
      b.play (k (b.perform w t call).1) ws (b.perform w t call).2 :=
  rfl

theorem perform_enqueue {job : Job} : (b.perform w t (.enqueue job)).2 = t := rfl

theorem outcome_takesEffect {β : Type} (effect : Except StorageError β × Templates) :
    (Fault.outcome w.fault t effect).2 = if w.takesEffect then effect.2 else t := by
  unfold PostgresStorage.TemplateDraw.takesEffect Fault.outcome
  rcases w.fault with _ | ⟨_, _ | _⟩ <;> rfl

theorem perform_upsert :
    (b.perform w t (.upsertRecurringJob r)).2 = if w.takesEffect then b.upsert t r else t :=
  outcome_takesEffect _

/-- What the poller does for the first template of its list. -/
theorem play_first (b : Backend) (ws : List TemplateDraw) (t : Templates) (now : DateTime)
    (r : RecurringJob) (rest : List RecurringJob) (k : Unit → Prog RecurringCall α) :
    ∃ r', Saved cron now r r' ∧
    b.play (RecurringJobPoller.fire cron now (r :: rest) >>= k) ws t =
      match ws[callsFor cron now r - 1]? with
      | none => t
      | some w => b.play (RecurringJobPoller.fire cron now rest >>= k)
          (ws.drop (callsFor cron now r)) (if w.takesEffect then b.upsert t r' else t) := by
  simp only [RecurringJobPoller.fire, RecurringJob.advance, RecurringCall.readNow, Prog.ask_bind,
    Prog.call_bind]
  cases hnext : nextAfter cron r.cron now with
  | error e =>
    refine ⟨_, .disabled hnext, ?_⟩
    simp only [callsFor, hnext, Prog.monad_pure, Prog.pure_bind, Prog.call_bind]
    rcases ws with _ | ⟨w₁, _ | ⟨w₂, _ | ⟨w₃, _ | ⟨w₄, ws⟩⟩⟩⟩ <;>
      simp [play_nil, play_call, perform_enqueue, perform_upsert, Backend.perform.eq_1,
        Backend.perform.eq_2]
  | ok date =>
    simp only [callsFor, hnext, Prog.monad_pure, Prog.pure_bind, Prog.call_bind]
    rcases ws with _ | ⟨w₁, _ | ⟨w₂, _ | ⟨w₃, _ | ⟨w₄, _ | ⟨w₅, ws⟩⟩⟩⟩⟩
    case cons.cons.cons.cons.cons =>
      refine ⟨_, .advanced w₄.now hnext, ?_⟩
      simp [play_call, perform_enqueue, perform_upsert, Backend.perform.eq_1,
        Backend.perform.eq_2]
    all_goals
      refine ⟨_, .advanced 0 hnext, ?_⟩
      simp [play_nil, play_call, perform_enqueue, Backend.perform.eq_1, Backend.perform.eq_2]

theorem saves_nil : saves cron now id due [] = false := by
  induction due with
  | nil => rfl
  | cons r rest ih => simp [saves, ih]

theorem saves_of_not_mem (h : id ∉ due.map RecurringJob.id) : saves cron now id due ws = false := by
  induction due generalizing ws with
  | nil => rfl
  | cons r rest ih =>
    simp only [List.map_cons, List.mem_cons, not_or] at h
    simp only [saves, if_neg (Ne.symm h.1)]
    exact ih h.2

/-- When the conditions run out before an upsert, no later one is reached. -/
theorem saves_drop {n : Nat} (h : ws[n - 1]? = none) :
    saves cron now id due (ws.drop n) = false := by
  rw [List.drop_of_length_le (by rw [List.getElem?_eq_none_iff] at h; omega), saves_nil]

/-- A template whose upsert is not reached, or fails, stays as the claim left it. -/
theorem play_fire_lost (hnodup : (due.map RecurringJob.id).Nodup)
    (hlost : saves cron now id due ws = false) :
    (b.play (RecurringJobPoller.fire cron now due >>= fun _ => Prog.pure a) ws t).get? id =
      t.get? id := by
  induction due generalizing ws t with
  | nil => cases ws <;> rfl
  | cons r rest ih =>
    rw [List.map_cons, List.nodup_cons] at hnodup
    obtain ⟨r', hsaved, hplay⟩ := play_first b ws t now r rest fun _ => Prog.pure a
    rw [hplay]
    cases hupsert : ws[callsFor cron now r - 1]? with
    | none => rfl
    | some w =>
      simp only [saves, hupsert, Option.any_some] at hlost
      by_cases hid : r.id = id
      · rw [if_pos hid] at hlost
        simp only [hlost, Bool.false_eq_true, if_false]
        exact ih hnodup.2 (saves_of_not_mem (hid ▸ hnodup.1))
      · rw [if_neg hid] at hlost
        refine (ih hnodup.2 hlost).trans ?_
        split
        · obtain ⟨createdAt, hget⟩ := get?_upsert b t r'
          rw [hget, if_neg fun h => hid (hsaved.id_eq ▸ h.symm)]
        · rfl

/-- A template whose upsert is reached and succeeds is written back. -/
theorem play_fire_saved (hnodup : (due.map RecurringJob.id).Nodup) (hr : r ∈ due)
    (hsaves : saves cron now r.id due ws = true) : ∃ r' createdAt, Saved cron now r r' ∧
      (b.play (RecurringJobPoller.fire cron now due >>= fun _ => Prog.pure a) ws t).get? r.id =
        some { r' with createdAt := createdAt } := by
  induction due generalizing ws t with
  | nil => cases hr
  | cons first rest ih =>
    rw [List.map_cons, List.nodup_cons] at hnodup
    obtain ⟨r', hsaved, hplay⟩ := play_first b ws t now first rest fun _ => Prog.pure a
    rw [hplay]
    simp only [saves] at hsaves
    rcases List.mem_cons.mp hr with rfl | hr
    · rw [if_pos rfl] at hsaves
      obtain ⟨w, hupsert, hok⟩ := (Option.any_eq_true ..).mp hsaves
      obtain ⟨createdAt, hget⟩ := get?_upsert b t r'
      simp only [hupsert, hok, if_true]
      refine ⟨r', createdAt, hsaved, ?_⟩
      rw [play_fire_lost hnodup.2 (saves_of_not_mem hnodup.1), hget, if_pos hsaved.id_eq.symm]
    · have hne : first.id ≠ r.id := fun h => hnodup.1 (h ▸ List.mem_map_of_mem hr)
      rw [if_neg hne] at hsaves
      cases hupsert : ws[callsFor cron now first - 1]? with
      | none =>
        rw [saves_drop hupsert] at hsaves
        cases hsaves
      | some w => exact ih hnodup.2 hr hsaves

/-- Of a claimed template that its poller hears of, what is left of the tick keeps the schedule
exactly when it writes the template back. -/
theorem keepsSchedule_iff {rows : List RecurringJob} {t' : Templates}
    (hold : t.get? r.id = some r) (henabled : r.enabled = true) (hdue : r.nextRunAt ≤ now)
    (hparked : t'.get? r.id = some { r with nextRunAt := now + Templates.parking })
    (hnodup : (rows.map RecurringJob.id).Nodup)
    (hmem : rows = [] ∨ ∃ r' ∈ rows, r'.id = r.id ∧ r'.cron = r.cron) :
    KeepsSchedule cron now t (b.play (RecurringJobPoller.fire cron now rows >>= fun _ =>
      Prog.pure a) ws t') r.id ↔
    saves cron now r.id rows ws = true ∨
      nextAfter cron r.cron now = .ok (now + Templates.parking) := by
  cases hsaves : saves cron now r.id rows ws with
  | true =>
    rcases hmem with rfl | ⟨r', hr', hid, hcron⟩
    · cases hsaves
    · rw [← hid] at hsaves
      obtain ⟨new, createdAt, hsaved, hafter⟩ := play_fire_saved (a := a) (b := b) (t := t') hnodup
        hr' hsaves
      rw [hid] at hafter
      refine iff_of_true ⟨r, _, hold, hafter, fun hstill => .inr ?_⟩ (.inl rfl)
      cases hsaved with
      | advanced now' hnext => exact hcron ▸ hnext
      | disabled hnext => cases hstill
  | false =>
    have hafter := (play_fire_lost (a := a) (b := b) (t := t') hnodup hsaves).trans hparked
    -- the parking date is past, the true due time is not
    have hlate : now + Templates.parking ≠ r.nextRunAt := by
      have : now < now + Templates.parking := Int.lt_add_of_pos_right now (by decide)
      exact fun h => absurd hdue (by rw [← h]; exact Int.not_le.mpr this)
    constructor
    · rintro ⟨old', new, hold', hnew, hkeeps⟩
      cases hold.symm.trans hold'
      cases hafter.symm.trans hnew
      exact .inr ((hkeeps henabled).resolve_left hlate)
    · rintro (h | h)
      · cases h
      · exact ⟨r, _, hold, hafter, fun _ => .inr h⟩

/-- What is left of a tick once it has its answer. -/
theorem play_tickOnce (b : Backend) (cron : Cron) (batchSize : Nat) (t : Templates)
    (w w' : TemplateDraw) (ws : List TemplateDraw) : ∃ result,
    b.play (RecurringJobPoller.tickOnce cron batchSize) (w :: w' :: ws) t =
      b.play (RecurringJobPoller.fire cron w.now (b.handed batchSize t (w :: w' :: ws)) >>= fun _ =>
        Prog.pure (result : Except QmlError Nat)) ws
        (b.perform w' t (.fetchDueRecurringJobs w.now batchSize)).2 := by
  have hnow : b.perform w t .now = (w.now, t) := rfl
  simp only [RecurringJobPoller.tickOnce, RecurringCall.readNow, Prog.ask_bind, play_call, hnow,
    Backend.handed]
  generalize b.perform w' t (.fetchDueRecurringJobs w.now batchSize) = answer
  obtain ⟨_ | due, left⟩ := answer
  · exact ⟨.error _, by rw [RecurringJobPoller.fire]; rfl⟩
  · exact ⟨.ok due.length, rfl⟩

/-- A template that a tick claims keeps its schedule exactly when the tick writes it back, or when
its next occurrence happens to be the parking date. -/
theorem claimed_keepsSchedule {batchSize : Nat} (hr : r ∈ b.claimed batchSize t ws) :
    KeepsSchedule cron (tickNow ws) t
      (b.play (RecurringJobPoller.tickOnce cron batchSize) ws t) r.id ↔
    saves cron (tickNow ws) r.id (b.handed batchSize t ws) (ws.drop 2) = true ∨
      nextAfter cron r.cron (tickNow ws) = .ok (tickNow ws + Templates.parking) := by
  rcases ws with _ | ⟨w, _ | ⟨w', ws⟩⟩
  · cases hr
  · cases hr
  · simp only [Backend.claimed] at hr
    split at hr
    · rename_i heffect
      obtain ⟨hold, henabled, hdue⟩ := (selected_spec ..).2 r hr
      obtain ⟨rows, hrows, hnodup, hmem, hparked⟩ := fetchDue_spec hr
      have hleft : (b.perform w' t (.fetchDueRecurringJobs w.now batchSize)).2 =
          (b.fetchDue w' t w.now batchSize).2 :=
        (outcome_takesEffect _).trans (if_pos heffect)
      obtain ⟨result, hplay⟩ := play_tickOnce b cron batchSize t w w' ws
      rw [hplay, hleft]
      -- the poller gets what its fetch returns, or nothing where the reply is lost
      have hhanded : b.handed batchSize t (w :: w' :: ws) = rows ∨
          b.handed batchSize t (w :: w' :: ws) = [] := by
        simp only [Backend.handed, Backend.perform, Fault.outcome]
        cases w'.fault with
        | none =>
          simp only [hrows, true_or]
        | some fault => exact .inr rfl
      rcases hhanded with hhanded | hhanded
      · rw [hhanded]
        exact keepsSchedule_iff hold henabled hdue hparked hnodup (.inr hmem)
      · rw [hhanded]
        exact keepsSchedule_iff hold henabled hdue hparked List.nodup_nil (.inl rfl)
    · cases hr

end

/-- For every set of templates and every pattern of failures, of the claim and
after it, the claimed templates keep their schedule exactly when each of them is
written back; or when its next occurrence happens to be the parking date. -/
theorem failed_tick_keeps_schedule (b : Backend) (cron : Cron) (batchSize : Nat) (t : Templates)
    (ws : List TemplateDraw) :
    (∀ r ∈ b.claimed batchSize t ws, KeepsSchedule cron (tickNow ws) t
      (b.play (RecurringJobPoller.tickOnce cron batchSize) ws t) r.id) ↔
    ∀ r ∈ b.claimed batchSize t ws,
      saves cron (tickNow ws) r.id (b.handed batchSize t ws) (ws.drop 2) = true ∨
      nextAfter cron r.cron (tickNow ws) = .ok (tickNow ws + Templates.parking) :=
  forall₂_congr fun _ hr => claimed_keepsSchedule hr

/-- A tick at noon, stopped as soon as it has claimed what is due. -/
def stoppedTick : List TemplateDraw :=
  let calm : TemplateDraw := ⟨1767268800000000000, "job", .ok (), [], [], fun _ => false, none,
    "LIMIT must not be negative"⟩
  [calm, calm]

theorem stoppedTick_parks (b : Backend) :
    ¬ ∀ r ∈ b.claimed 256 RecurringMemory.everySecond stoppedTick,
      KeepsSchedule .everySecond (tickNow stoppedTick) RecurringMemory.everySecond
        (b.play (RecurringJobPoller.tickOnce .everySecond 256) stoppedTick
          RecurringMemory.everySecond) r.id := by
  intro h
  obtain ⟨r, hr, hid⟩ : ∃ r ∈ b.claimed 256 RecurringMemory.everySecond stoppedTick,
      r.id = "tick" := by
    cases b <;> decide +kernel
  obtain ⟨old, new, hold, hnew, hkeeps⟩ := h r hr
  rw [hid] at hold hnew
  have hparked : ((b.play (RecurringJobPoller.tickOnce .everySecond 256) stoppedTick
      RecurringMemory.everySecond).get? "tick").map (fun r => (r.enabled, r.nextRunAt)) =
      some (true, tickNow stoppedTick + Templates.parking) := by
    cases b <;> decide +kernel
  have hstored : (RecurringMemory.everySecond.get? "tick").map (fun r => (r.cron, r.nextRunAt)) =
      some ("* * * * * *", tickNow stoppedTick) := by decide +kernel
  have hnext : (nextAfter .everySecond "* * * * * *" (tickNow stoppedTick)).toOption =
      some (tickNow stoppedTick + Duration.seconds 1) := by decide +kernel
  simp only [hnew, hold, Option.map_some, Option.some.injEq, Prod.mk.injEq] at hparked hstored
  rw [hparked.2, hstored.1, hstored.2] at hkeeps
  rcases hkeeps hparked.1 with h | h
  · exact absurd h (by decide +kernel)
  · rw [h] at hnext
    exact absurd hnext (by decide +kernel)

/-- The poller is stopped right after its fetch: the template stays parked, in
either backend. -/
theorem stopped_tick_parks_template :
    (¬ ∀ r ∈ Backend.memory.claimed 256 RecurringMemory.everySecond stoppedTick,
      KeepsSchedule .everySecond (tickNow stoppedTick) RecurringMemory.everySecond
        (Backend.memory.play (RecurringJobPoller.tickOnce .everySecond 256) stoppedTick
          RecurringMemory.everySecond) r.id) ∧
    ¬ ∀ r ∈ Backend.postgres.claimed 256 RecurringMemory.everySecond stoppedTick,
      KeepsSchedule .everySecond (tickNow stoppedTick) RecurringMemory.everySecond
        (Backend.postgres.play (RecurringJobPoller.tickOnce .everySecond 256) stoppedTick
          RecurringMemory.everySecond) r.id :=
  ⟨stoppedTick_parks .memory, stoppedTick_parks .postgres⟩

end Qml
