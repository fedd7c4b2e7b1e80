import Qml.Memory.Recurring

namespace Qml
open Lib RecurringCall

/-- Two templates with one cron expression, method, payload and queue. -/
structure RecurringJob.Alike (a b : RecurringJob) : Prop where
  cron : a.cron = b.cron
  method : a.method = b.method
  payload : a.payload = b.payload
  queue : a.queue = b.queue

namespace RecurringJob.Alike
variable {a b c : RecurringJob}

theorem refl (a : RecurringJob) : Alike a a := ⟨rfl, rfl, rfl, rfl⟩

theorem symm (h : Alike a b) : Alike b a :=
  ⟨h.cron.symm, h.method.symm, h.payload.symm, h.queue.symm⟩

theorem trans (h : Alike a b) (h' : Alike b c) : Alike a c :=
  ⟨h.cron.trans h'.cron, h.method.trans h'.method, h.payload.trans h'.payload,
    h.queue.trans h'.queue⟩

/-- What is alike was asked for in the same words. -/
theorem asked {expr method queue : String} {payload : JsonValue} (h : Alike a b)
    (hb : b.cron = expr ∧ b.method = method ∧ b.payload = payload ∧ b.queue = queue) :
    a.cron = expr ∧ a.method = method ∧ a.payload = payload ∧ a.queue = queue := by
  rw [h.cron, h.method, h.payload, h.queue]
  exact hb

end RecurringJob.Alike

theorem Saved.alike {cron : Cron} {now : DateTime} {r r' : RecurringJob} (h : Saved cron now r r') :
    r.Alike r' := by
  cases h <;> exact ⟨rfl, rfl, rfl, rfl⟩

def Duty.isSchedule : Duty → Bool
  | .scheduleRecurring .. => true
  | _ => false

/-- What a call leaves behind in the table of the templates, when its reply says so. -/
inductive TemplateUpdate
  | stored (r : RecurringJob)
  | removed (id : String)

def RecurringCall.update : RecurringCall ρ → ρ → Option TemplateUpdate
  | .upsertRecurringJob r, .ok () => some (.stored r)
  | .removeRecurringJob id, .ok true => some (.removed id)
  | _, _ => none

/-- What the last call of a program has left behind. -/
def Reports : Contract RecurringCall (Option TemplateUpdate) where
  may _ _ _ := True
  step _ _ call reply last := last = call.update reply

/-- An operator's call that succeeds has just stored the template it was asked for, or has just
removed it. -/
def Promise (cron : Cron) (last : Option TemplateUpdate) : Duty → Duty.Answer → Prop
  | .scheduleRecurring id expr method payload queue, .scheduled (.ok _) =>
    ∃ start now r, RecurringJob.new cron id expr method payload queue start now = .ok r ∧
      last = some (.stored r)
  | .removeRecurring id, .removed (.ok true) => last = some (.removed id)
  | _, _ => True

section
variable {cron : Cron} {α ρ : Type} {Q : α → Option TemplateUpdate → Prop}
  {last : Option TemplateUpdate}

theorem wp_reports {call : RecurringCall ρ} {k : ρ → Prog RecurringCall α} :
    Prog.wp Reports Q (.call call k) last ↔
      ∀ reply, Prog.wp Reports Q (k reply) (call.update reply) := by
  rw [Prog.wp_call]
  exact ⟨fun h reply => h.2 reply _ rfl, fun h => ⟨trivial, fun r t he => he ▸ h r⟩⟩

end

namespace Site
variable {B : TemplateStore} {cron : Cron} {s t : Site B} {e : Event B}

/-- What an operator's call answers in a step. -/
def concluded (x : Step (Site B) (Event B)) : Option (Duty × Duty.Answer) :=
  match x.label with
  | .step i _ =>
    match x.before.tasks[i]?, x.after.tasks[i]? with
    | some ⟨_, .call _ _, _, true⟩, some ⟨duty, .pure a, _, _⟩ => some (duty, a)
    | _, _ => none
  | _ => none

/-- The template that `schedule_recurring` is about to store. -/
def scheduling (x : Step (Site B) (Event B)) : Option RecurringJob :=
  match x.label with
  | .step i _ =>
    match x.before.tasks[i]? with
    | some ⟨duty, .call (.upsertRecurringJob r) _, _, true⟩ =>
      if duty.isSchedule then some r else none
    | _ => none
  | _ => none

/-- The template that `remove_recurring` is about to delete. -/
def removing (x : Step (Site B) (Event B)) : Option String :=
  match x.label with
  | .step i _ =>
    match x.before.tasks[i]? with
    | some ⟨_, .call (.removeRecurringJob id) _, _, true⟩ =>
      if (x.before.templates.get? id).isSome then some id else none
    | _ => none
  | _ => none

/-- An operator removes or redefines a template in this step only while no poller
has a claimed copy to write back, or one that is alike. -/
structure Undisturbed (x : Step (Site B) (Event B)) : Prop where
  removed : ∀ id, removing x = some id → x.before.holds id = []
  scheduled : ∀ r, scheduling x = some r → ∀ hold ∈ x.before.holds r.id, hold.template.Alike r

/-- What is left of every program keeps the promise of its duty. -/
abbrev Promised (cron : Cron) (s : Site B) : Prop := Crew.Site.Every (fun duty program _ =>
  ∃ last, Prog.wp Reports (fun a last => Promise cron last duty a) program last) s

/-- A call that answers has kept its promise in this very step. -/
theorem Promised.concluded {duty : Duty} {answer : Duty.Answer} (h : s.Promised cron)
    (hnext : Next cron s e t) (hconcluded : concluded ⟨s, e, t⟩ = some (duty, answer)) :
    ∃ (i : Nat) (draw : B.Draw) (task : RecurringTask) (ρ : Type) (call : RecurringCall ρ)
      (k : ρ → Prog RecurringCall Duty.Answer) (reply : ρ) (state : B.State),
      e = .step i draw ∧ s.tasks[i]? = some task ∧ task.duty = duty ∧
      task.program = .call call k ∧ task.alive = true ∧
      B.perform draw s.state call = (reply, state) ∧
      t = ⟨state, s.tasks.set i
        { task with program := k reply, notes := task.notes.after call reply }⟩ ∧
      Promise cron (call.update reply) duty answer := by
  cases Crew.Site.next_moves hnext with
  | @called i draw task ρ call k reply state htask halive hprogram hperform =>
    obtain ⟨hlt, -⟩ := List.getElem?_eq_some_iff.mp htask
    obtain ⟨last, hwp⟩ := h task (List.mem_of_getElem? htask)
    obtain ⟨duty', program, claims, alive⟩ := task
    cases hprogram
    cases halive
    have hafter := wp_reports.mp hwp reply
    simp only [Site.concluded, htask, List.getElem?_set_self hlt] at hconcluded
    cases hk : k reply with
    | call => simp only [hk, reduceCtorEq] at hconcluded
    | pure a =>
      rw [hk] at hafter
      simp only [hk, Option.some.injEq, Prod.mk.injEq] at hconcluded
      obtain ⟨rfl, rfl⟩ := hconcluded
      exact ⟨i, draw, _, ρ, call, k, reply, state, rfl, htask, rfl, rfl, rfl, hperform,
        by rw [hk], hafter⟩
  | spawned | aborted | entered => cases hconcluded

end Site

namespace RecurringMemory
open Site

/-- What is stored of a template, and every copy that may be written back. -/
structure All (P : RecurringJob → Prop) (id : String) (templates : Templates)
    (copies : List Hold) : Prop where
  stored : ∀ r, templates.get? id = some r → P r
  held : ∀ hold ∈ copies, P hold.template

variable {cron : Cron} {s t : Site store} {e : Event store} {id : String} {P : RecurringJob → Prop}
  {tr : List (Step (Site store) (Event store))}

section
variable {i : Nat} {draw : Draw} {task : RecurringTask} {ρ : Type} {call : RecurringCall ρ}
  {k : ρ → Prog RecurringCall Duty.Answer} {before after : List Hold}

/-- A call of a live task other than one that schedules the template. -/
theorem All.called {reply : ρ} {m : RecurringMemory}
    (h : All P id s.state.templates (before ++ task.held id ++ after))
    (hP : ∀ a b : RecurringJob, a.Alike b → P a → P b) (htask : s.tasks[i]? = some task)
    (halive : task.alive = true) (hprogram : task.program = .call call k)
    (hpermits : Permits cron task.duty task.notes call)
    (hnone : ∀ r, scheduling ⟨s, .step i draw, t⟩ = some r → r.id ≠ id)
    (hperform : s.state.perform draw call = (reply, m)) :
    All P id m.templates (before ++ RecurringTask.held
      { task with program := k reply, notes := task.notes.after call reply } id ++ after) := by
  obtain ⟨hstored, hheld⟩ := h
  simp only [RecurringTask.held, halive, if_true, List.mem_append] at hheld
  -- It remains to look at the template itself and at the claims of this task.
  suffices hown : (∀ r, m.templates.get? id = some r → P r) ∧
      ∀ hold ∈ (task.notes.after call reply).held id, P hold.template by
    refine ⟨hown.1, fun hold hmem => ?_⟩
    simp only [RecurringTask.held, halive, if_true, List.mem_append] at hmem
    rcases hmem with (hmem | hmem) | hmem
    · exact hheld hold (.inl (.inl hmem))
    · exact hown.2 hold hmem
    · exact hheld hold (.inr hmem)
  have hmine : ∀ hold ∈ task.notes.held id, P hold.template :=
    fun hold hmem => hheld hold (.inl (.inr hmem))
  obtain ⟨duty, program, ⟨clock, pending, b⟩, alive⟩ := task
  cases hpermits with
  | now | newId =>
    cases hperform
    exact ⟨hstored, hmine⟩
  | fetch now limit hduty hpending =>
    cases hperform
    have hdue : ∀ r ∈ (s.state.templates.reorder draw.order).due now limit, r.id = id → P r := by
      rintro r hr rfl
      exact hstored r (Templates.get?_reorder ▸ (Templates.mem_due hr).1)
    refine ⟨fun r hr => ?_, fun hold hmem => ?_⟩
    · simp only [Templates.get?_park, Templates.get?_reorder,
        Option.map_eq_some_iff] at hr
      obtain ⟨old, hold, rfl⟩ := hr
      have hkept := hstored old hold
      split
      · exact hP old _ ⟨rfl, rfl, rfl, rfl⟩ hkept
      · exact hkept
    · obtain ⟨hmem, hid, -⟩ := mem_held hmem
      exact hdue _ hmem hid
  | @enqueue _ _ r rest job hduty hpending hfired =>
    simp only [perform, Prod.mk.injEq] at hperform
    obtain ⟨-, rfl⟩ := hperform
    refine ⟨hstored, fun hold hmem => ?_⟩
    obtain rfl : pending = r :: rest := hpending
    by_cases hid : r.id = id
    · have hfirst := hmine ⟨clock, r, b⟩ (by rw [held_own hid]; exact List.mem_cons_self)
      change hold ∈ Claims.held ⟨clock, r :: rest, true⟩ id at hmem
      rw [held_own hid] at hmem
      rcases List.mem_cons.mp hmem with rfl | hmem
      · exact hfirst
      · exact hmine hold (by rw [held_own hid]; exact List.mem_cons_of_mem _ hmem)
    · change hold ∈ Claims.held ⟨clock, r :: rest, true⟩ id at hmem
      rw [held_other hid] at hmem
      exact hmine hold (by rwa [held_other hid])
  | @save _ _ r r' rest hduty hpending hsaved =>
    obtain rfl : pending = r :: rest := hpending
    cases hperform
    refine ⟨fun stored hget => ?_, fun hold hmem => ?_⟩
    · rw [Templates.get?_upsert] at hget
      split at hget
      · rename_i he
        cases hget
        have hid : r.id = id := by rw [he, hsaved.id_eq]
        exact hP r _ hsaved.alike
          (hmine ⟨clock, r, b⟩ (by rw [held_own hid]; exact List.mem_cons_self))
      · exact hstored stored hget
    · change hold ∈ Claims.held ⟨clock, rest, false⟩ id at hmem
      by_cases hid : r.id = id
      · exact hmine hold (by rw [held_own hid]; exact List.mem_cons_of_mem _ hmem)
      · exact hmine hold (by rwa [held_other hid])
  | @schedule id' expr method queue payload start now r hduty hnew hpending =>
    obtain rfl : pending = [] := hpending
    cases hperform
    cases hprogram
    cases halive
    have hne : r.id ≠ id := hnone r (by
      obtain rfl : duty = _ := hduty
      simp [scheduling, htask, Duty.isSchedule])
    refine ⟨fun stored hget => ?_, fun hold hmem => by cases hmem⟩
    rw [Templates.get?_upsert, if_neg (Ne.symm hne)] at hget
    exact hstored stored hget
  | @remove id' hduty =>
    cases hperform
    refine ⟨fun stored hget => ?_, hmine⟩
    change (s.state.templates.remove id').2.get? id = some stored at hget
    rw [Templates.get?_remove] at hget
    split at hget
    · cases hget
    · exact hstored stored hget

end

/-- What holds of the stored template and of all its copies goes on to hold
until the template is scheduled again. -/
theorem all_custody (cron : Cron) (hP : ∀ a b : RecurringJob, a.Alike b → P a → P b) :
    Crew.Site.Custody (C := store.crew) (Duty.program cron) (fun duty program claims =>
        program.wp (Rules cron duty) (fun _ _ => True) claims)
      (fun x => ∀ r, scheduling x = some r → r.id ≠ id) (RecurringTask.held · id)
      (fun _ m copies => All P id m.templates copies) where
  starts duty := rfl
  spawned h := h
  called htask halive hprogram hgood hperform hnone _ h :=
    h.called hP htask halive hprogram (wp_rules.mp hgood).1 hnone hperform
  dropped h := by
    refine ⟨h.stored, fun hold hmem => h.held hold ?_⟩
    simp only [RecurringTask.held, Bool.false_eq_true, if_false, List.append_nil,
      List.mem_append] at hmem ⊢
    rcases hmem with hmem | hmem
    · exact .inl (.inl hmem)
    · exact .inr hmem
  entered hother h := ⟨fun r hr => h.stored r (templates_other hother ▸ hr), h.held⟩

theorem All.run (h : All P id s.templates (s.holds id)) (hr : Run (Next cron) s tr t)
    (hP : ∀ a b : RecurringJob, a.Alike b → P a → P b) (hobeys : s.Obeys cron)
    (hnone : ∀ x ∈ tr, ∀ r, scheduling x = some r → r.id ≠ id) :
    All P id t.templates (t.holds id) :=
  (all_custody cron hP).run (obeys_lasting cron) hr hobeys (fun _ _ _ _ => trivial) hnone h

end RecurringMemory
end Qml
