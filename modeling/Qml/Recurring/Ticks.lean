import Qml.Recurring.Holds

namespace Qml
open Lib RecurringCall

/-- A claim of a template: the date at which it was due, and the reading of the clock it was
made with. -/
structure Claim where
  due : DateTime
  clock : DateTime

/-- The claims of a template that a call makes, and that reach its poller. -/
def TemplateStore.claimed (B : TemplateStore) (draw : B.Draw) (s : B.State) (id : String) :
    RecurringCall ρ → List Claim
  | .fetchDueRecurringJobs clock limit =>
    match (B.perform draw s (.fetchDueRecurringJobs clock limit)).1 with
    | .ok _ => ((B.selected draw s clock limit).filter fun r => decide (r.id = id)).map fun r =>
        ⟨r.nextRunAt, clock⟩
    | .error _ => []
  | _ => []

/-- The claims for which a call enqueues a job of a template, each by its clock. A job that
answers to no claim, or to one that has its job already, is nobody's: `none`. -/
def RecurringCall.enqueued (claims : Claims) (id : String) :
    RecurringCall ρ → List (Option DateTime)
  | .enqueue job =>
    match claims.pending with
    | r :: _ =>
      if claims.fired = true ∨ ¬ r.asksFor job then [none]
      else if r.id = id then [some claims.now] else []
    | [] => [none]
  | _ => []

namespace Site
variable {B : TemplateStore}

/-- The claims of a template that a step makes. -/
def claimed (x : Step (Site B) (Event B)) (id : String) : List Claim :=
  match x.label with
  | .step i draw =>
    match x.before.tasks[i]? with
    | some ⟨_, .call call _, _, true⟩ => B.claimed draw x.before.state id call
    | _ => []
  | _ => []

/-- The claims for which a step enqueues a job. -/
def enqueued (x : Step (Site B) (Event B)) (id : String) : List (Option DateTime) :=
  match x.label with
  | .step i _ =>
    match x.before.tasks[i]? with
    | some ⟨_, .call call _, claims, true⟩ => call.enqueued claims id
    | _ => []
  | _ => []

/-- The claims of a template in a run, in order. -/
def claims (tr : List (Step (Site B) (Event B))) (id : String) : List Claim :=
  tr.flatMap fun x => claimed x id

/-- The claims for which jobs are enqueued in a run, in order. -/
def firings (tr : List (Step (Site B) (Event B))) (id : String) : List (Option DateTime) :=
  tr.flatMap fun x => enqueued x id

/-- Whether a step fetches with a clock that is 3650 days or more ahead of the one with
which another poller has claimed the template it has yet to write back. -/
def outruns (s : Site B) (id : String) : Event B → Bool
  | .step i _ =>
    match s.tasks[i]? with
    | some ⟨_, .call (.fetchDueRecurringJobs clock _) _, _, true⟩ =>
      (s.holds id).any fun hold => decide (hold.now + Templates.parking ≤ clock)
    | _ => false
  | _ => false

/-- Whether a step starts a task that schedules the template anew. -/
def Event.schedules (id : String) : Event B → Bool
  | .spawn duty => duty.schedules id
  | _ => false

/-- A template is stored for later than all its claims were made, or it is parked and one
poller holds the copy it claimed last. -/
inductive Standing (past : List Claim) (fired : List (Option DateTime))
    (stored : Option RecurringJob) : List Hold → Prop
  | free (hlater : ∀ r, stored = some r → r.enabled = true → ∀ c ∈ past, c.clock < r.nextRunAt)
      (hfired : fired.Sublist (past.map fun c => some c.clock)) : Standing past fired stored []
  | held {hold : Hold} {before : List Claim} {due : DateTime}
      (hpast : past = before ++ [⟨due, hold.now⟩])
      (hparked : ∀ r, stored = some r → r.nextRunAt = hold.now + Templates.parking)
      (hfired : fired.Sublist ((if hold.fired then past else before).map fun c => some c.clock)) :
      Standing past fired stored [hold]

/-- Each claim was due when it was made, and every later one is due after that. -/
structure InTurn (past : List Claim) : Prop where
  due : ∀ c ∈ past, c.due ≤ c.clock
  later : past.Pairwise fun c d => c.clock < d.due

variable {cron : Cron} {s t : Site B} {e : Event B} {id : String} {past : List Claim}
  {fired : List (Option DateTime)}
  {stored : Option RecurringJob} {copies : List Hold}

theorem InTurn.increasing (h : InTurn past) : (past.map Claim.due).Pairwise (· < ·) :=
  List.pairwise_map.mpr (h.later.imp_of_mem fun hc _ hlt => (h.due _ hc).trans_lt hlt)

theorem InTurn.le_last (h : InTurn past) {before : List Claim} {last c : Claim}
    (hpast : past = before ++ [last]) (hc : c ∈ past) : c.clock ≤ last.clock := by
  subst hpast
  rcases List.mem_append.mp hc with hc | hc
  · have hlater := (List.pairwise_append.mp h.later).2.2 c hc last (List.mem_singleton_self _)
    exact hlater.le.trans (h.due last (by simp))
  · rw [List.mem_singleton.mp hc]

theorem Standing.sublist (h : Standing past fired stored copies) :
    fired.Sublist (past.map fun c => some c.clock) := by
  cases h with
  | free hlater hfired => exact hfired
  | @held hold before due hpast hparked hfired =>
    cases hf : hold.fired with
    | true => simpa [hf] using hfired
    | false =>
      have hbefore : fired.Sublist (before.map fun c => some c.clock) := by simpa [hf] using hfired
      rw [hpast, List.map_append]
      exact hbefore.trans (List.sublist_append_left ..)

/-- At most one copy is held. -/
theorem Standing.only {hold : Hold} {before after : List Hold}
    (h : Standing past fired stored (before ++ hold :: after)) : before = [] ∧ after = [] := by
  generalize hl : before ++ hold :: after = copies at h
  cases h with
  | free => simp at hl
  | held =>
    have hlength := congrArg List.length hl
    simp only [List.length_append, List.length_cons, List.length_nil] at hlength
    exact ⟨List.length_eq_zero_iff.mp (by omega), List.length_eq_zero_iff.mp (by omega)⟩

/-- A removed template has nothing left to compare with its claims. -/
theorem Standing.removed (h : Standing past fired stored copies) :
    Standing past fired none copies := by
  cases h with
  | free hlater hfired => exact .free (fun _ hr => by cases hr) hfired
  | held hpast hparked hfired => exact .held hpast (fun _ hr => by cases hr) hfired

/-- A template that is parked once more, with nobody to hear of it, is still stored for
later than all its claims. -/
theorem Standing.parked {clock : DateTime} {r : RecurringJob}
    (h : Standing past fired (some r) []) (hdue : r.nextRunAt ≤ clock)
    (henabled : r.enabled = true) :
    Standing past fired (some { r with nextRunAt := clock + Templates.parking }) [] := by
  cases h with
  | free hlater hfired =>
    refine .free (fun r' hr' _ c hc => ?_) hfired
    cases hr'
    have hlt := hlater r rfl henabled c hc
    have hpos : (0 : Int) < Templates.parking := by decide
    simp only [DateTime, Duration] at *
    omega

/-- A dropped poller leaves its template parked, for later than all claims. -/
theorem Standing.drop {left : List Hold} (h : Standing past fired stored copies)
    (hp : InTurn past) (hsub : left.Sublist copies) : Standing past fired stored left := by
  have hfired := h.sublist
  cases h with
  | free hlater _ =>
    obtain rfl := List.eq_nil_of_sublist_nil hsub
    exact .free hlater hfired
  | @held hold before due hpast hparked hkept =>
    rcases List.sublist_singleton.mp hsub with rfl | rfl
    · refine .free (fun r hr _ c hc => ?_) hfired
      have hlast := hp.le_last hpast hc
      have hpos : (0 : Int) < Templates.parking := by decide
      rw [hparked r hr]
      simp only [DateTime, Duration] at *
      omega
    · exact .held hpast hparked hkept

/-- A claim, where no other poller holds a copy. -/
theorem Standing.claim {r handed : RecurringJob} {clock : DateTime}
    (h : Standing past fired (some r) []) (hdue : r.nextRunAt ≤ clock)
    (henabled : r.enabled = true) (hp : InTurn past) :
    InTurn (past ++ [⟨r.nextRunAt, clock⟩]) ∧ Standing (past ++ [⟨r.nextRunAt, clock⟩]) fired
      (some { r with nextRunAt := clock + Templates.parking })
      [⟨clock, handed, false⟩] := by
  cases h with
  | free hlater hfired =>
    refine ⟨⟨fun c hc => ?_, List.pairwise_append.mpr ⟨hp.later, List.pairwise_singleton ..,
      fun c hc d hd => ?_⟩⟩, .held rfl (fun r' hr' => ?_) hfired⟩
    · rcases List.mem_append.mp hc with hc | hc
      · exact hp.due c hc
      · rw [List.mem_singleton.mp hc]
        exact hdue
    · rw [List.mem_singleton.mp hd]
      exact hlater r rfl henabled c hc
    · cases hr'
      rfl

/-- The first claimed template is enqueued. -/
theorem Standing.enqueue {clock : DateTime} {r : RecurringJob} {rest : List RecurringJob}
    {before after : List Hold}
    (h : Standing past fired stored
      (before ++ Claims.held ⟨clock, r :: rest, false⟩ id ++ after)) :
    Standing past (fired ++ if r.id = id then [some clock] else []) stored
      (before ++ Claims.held ⟨clock, r :: rest, true⟩ id ++ after) := by
  by_cases hid : r.id = id
  · rw [if_pos hid]
    rw [held_own hid, List.append_assoc, List.cons_append] at h ⊢
    obtain ⟨rfl, hrest⟩ := h.only
    rw [hrest, List.nil_append] at h ⊢
    cases h with
    | held hpast hparked hfired =>
      refine .held hpast hparked ?_
      subst hpast
      rw [if_pos rfl, List.map_append]
      exact List.Sublist.append hfired (List.Sublist.refl _)
  · rw [if_neg hid, List.append_nil]
    rwa [held_other hid] at h ⊢

/-- A template that is due has no copy out whose poller has parked it for later. -/
theorem Standing.unheld {r : RecurringJob} {clock : DateTime}
    (h : Standing past fired (some r) copies) (hdue : r.nextRunAt ≤ clock)
    (hclock : ∀ hold ∈ copies, clock < hold.now + Templates.parking) : copies = [] := by
  cases h with
  | free => rfl
  | @held hold before due hpast hparked hfired =>
    have hnot := hclock hold (List.mem_singleton_self _)
    rw [← hparked r rfl] at hnot
    exact absurd hdue (not_le.mpr hnot)

section
variable {state state' : B.State} {draw : B.Draw} {clock : DateTime} {limit : Nat}
  {before after : List Hold}

/-- What a poller gets of a template that its fetch selects. -/
theorem filter_handed {rows due : List RecurringJob} {r : RecurringJob}
    (hrows : rows.Perm (due.map (B.handed clock))) (hnodup : (due.map RecurringJob.id).Nodup)
    (hr : r ∈ due) : rows.filter (fun r' => decide (r'.id = r.id)) = [B.handed clock r] := by
  have hone : (due.map (B.handed clock)).filter (fun r' => decide (r'.id = r.id)) =
      [B.handed clock r] := by
    simp only [List.filter_map, Function.comp_def, B.named, filter_mark hnodup hr, List.map_cons,
      List.map_nil]
  exact List.perm_singleton.mp (hone ▸ hrows.filter _)

theorem filter_handed_none {rows due : List RecurringJob}
    (hrows : rows.Perm (due.map (B.handed clock))) (h : id ∉ due.map RecurringJob.id) :
    rows.filter (fun r => decide (r.id = id)) = [] := by
  refine List.filter_eq_nil_iff.mpr fun r hr hid => h ?_
  obtain ⟨old, hold, rfl⟩ := List.mem_map.mp (hrows.mem_iff.mp hr)
  exact List.mem_map.mpr ⟨old, hold, (B.named ..).symm.trans (of_decide_eq_true hid)⟩

/-- The fetch of a poller with no claims left, whether it hears of it or not. -/
theorem Standing.fetch {reply : Except StorageError (List RecurringJob)}
    (h : Standing past fired ((B.templates state).get? id) (before ++ after))
    (hclock : ∀ hold ∈ before ++ after, clock < hold.now + Templates.parking) (hp : InTurn past)
    (hfetch : B.perform draw state (.fetchDueRecurringJobs clock limit) = (reply, state'))
    (claims : Claims) (hpending : claims.pending = []) :
    let new := B.claimed draw state id (.fetchDueRecurringJobs clock limit)
    InTurn (past ++ new) ∧ Standing (past ++ new) fired ((B.templates state').get? id)
      (before ++ (claims.after (.fetchDueRecurringJobs clock limit) reply).held id ++ after) := by
  intro new
  have hnew : new = match reply with
      | .ok _ => ((B.selected draw state clock limit).filter fun r => decide (r.id = id)).map
          fun r => ⟨r.nextRunAt, clock⟩
      | .error _ => [] := by
    cases reply <;> simp only [new, TemplateStore.claimed, hfetch]
  have hdue := B.due draw state clock limit
  have hnodup := B.distinct draw state clock limit
  have heffect := B.effect hfetch
  have hheard := fun rows (hreply : reply = .ok rows) => B.heard (hreply ▸ hfetch)
  simp only [RecurringCall.Effect] at heffect hheard
  generalize B.selected draw state clock limit = due at hnew hdue hnodup heffect hheard
  by_cases hmem : id ∈ due.map RecurringJob.id
  · obtain ⟨r, hr, rfl⟩ := List.mem_map.mp hmem
    obtain ⟨hget, henabled, hle⟩ := hdue r hr
    have hparked : ((B.templates state).park (due.map RecurringJob.id)
        (clock + Templates.parking)).get? r.id =
          some { r with nextRunAt := clock + Templates.parking } := by
      rw [Templates.get?_park, hget, Option.map_some, if_pos hmem]
    rw [hget] at h
    obtain ⟨rfl, rfl⟩ := List.append_eq_nil_iff.mp (h.unheld hle hclock)
    cases reply with
    | ok rows =>
      obtain ⟨hrows, hleft⟩ := hheard rows rfl
      rw [hnew, hleft r.id, hparked]
      simp only [Claims.after, held_due, filter_mark hnodup hr, filter_handed hrows hnodup hr,
        List.map_cons, List.map_nil, List.nil_append, List.append_nil]
      exact h.claim hle henabled hp
    | error e =>
      rw [hnew]
      simp only [Claims.after, held_none hpending, List.append_nil]
      refine ⟨hp, ?_⟩
      rcases heffect with hleft | hleft
      · rw [hleft r.id, hparked]
        exact h.parked hle henabled
      · rw [hleft r.id, hget]
        exact h
  · have hsame : (B.templates state').get? id = (B.templates state).get? id := by
      rcases heffect with hleft | hleft
      · rw [hleft id, Templates.get?_park]
        simp only [if_neg hmem, Option.map_id_fun', id_eq]
      · exact hleft id
    rw [hnew, hsame]
    cases reply with
    | ok rows =>
      have hnone : due.filter (fun r => decide (r.id = id)) = [] := by
        refine List.filter_eq_nil_iff.mpr fun r hr hid => hmem ?_
        exact of_decide_eq_true hid ▸ List.mem_map_of_mem hr
      simp only [Claims.after, held_due, hnone, filter_handed_none (hheard rows rfl).1 hmem,
        List.map_nil, List.append_nil]
      exact ⟨hp, h⟩
    | error e =>
      simp only [Claims.after, held_none hpending, List.append_nil]
      exact ⟨hp, h⟩

/-- The first claimed template is written back, or the call that does so is lost. -/
theorem Standing.save {r r' : RecurringJob} {rest : List RecurringJob} {b : Bool}
    {reply : Except StorageError Unit} (hsaved : Saved cron clock r r') (hp : InTurn past)
    (h : Standing past fired ((B.templates state).get? id)
      (before ++ Claims.held ⟨clock, r :: rest, b⟩ id ++ after))
    (hupsert : B.perform draw state (.upsertRecurringJob r') = (reply, state')) :
    Standing past fired ((B.templates state').get? id)
      (before ++ Claims.held ⟨clock, rest, false⟩ id ++ after) := by
  have heffect := B.effect hupsert
  by_cases hid : r.id = id
  · have hfired := h.sublist
    rw [held_own hid, List.append_assoc, List.cons_append] at h
    obtain ⟨rfl, hrest⟩ := h.only
    rw [List.append_assoc, hrest, List.nil_append]
    rw [hrest, List.nil_append] at h
    rcases heffect with ⟨createdAt, hleft⟩ | hleft
    · cases h with
      | held hpast hparked _ =>
        refine .free (fun stored hstored henabled c hc => ?_) hfired
        rw [hleft id, Templates.get?_upsert, if_pos (by rw [hsaved.id_eq, hid])] at hstored
        cases hstored
        exact (hp.le_last hpast hc).trans_lt (hsaved.later henabled)
    · rw [hleft id]
      exact h.drop hp (List.nil_sublist _)
  · rw [held_other hid] at h
    rcases heffect with ⟨createdAt, hleft⟩ | hleft
    · rw [hleft id, Templates.get?_upsert, if_neg (by rw [hsaved.id_eq]; exact Ne.symm hid)]
      exact h
    · rw [hleft id]
      exact h

end

section
variable {i : Nat} {draw : B.Draw} {task : RecurringTask} {ρ : Type} {call : RecurringCall ρ}
  {k : ρ → Prog RecurringCall Duty.Answer}

theorem claimed_step (htask : s.tasks[i]? = some task) (halive : task.alive = true)
    (hprogram : task.program = .call call k) :
    claimed ⟨s, .step i draw, t⟩ id = B.claimed draw s.state id call := by
  obtain ⟨duty, program, notes, alive⟩ := task
  cases hprogram
  cases halive
  simp only [claimed, htask]

theorem enqueued_step (htask : s.tasks[i]? = some task) (halive : task.alive = true)
    (hprogram : task.program = .call call k) :
    enqueued ⟨s, .step i draw, t⟩ id = call.enqueued task.notes id := by
  obtain ⟨duty, program, notes, alive⟩ := task
  cases hprogram
  cases halive
  simp only [enqueued, htask]

theorem outruns_step {clock : DateTime} {limit : Nat}
    {k : Except StorageError (List RecurringJob) → Prog RecurringCall Duty.Answer}
    (htask : s.tasks[i]? = some task) (halive : task.alive = true)
    (hprogram : task.program = .call (.fetchDueRecurringJobs clock limit) k)
    (hok : s.outruns id (.step i draw) = false) :
    ∀ hold ∈ s.holds id, clock < hold.now + Templates.parking := by
  obtain ⟨duty, program, notes, alive⟩ := task
  cases hprogram
  cases halive
  simp only [outruns, htask] at hok
  intro hold hmem
  simpa using List.any_eq_false.mp hok hold hmem

/-- The call of a live task. -/
theorem Standing.called {reply : ρ} {state : B.State} {before after : List Hold}
    (hstanding : Standing past fired (s.templates.get? id) (before ++ task.held id ++ after))
    (hp : InTurn past) (hholds : s.holds id = before ++ task.held id ++ after)
    (htask : s.tasks[i]? = some task) (halive : task.alive = true)
    (hprogram : task.program = .call call k) (hpermits : Permits cron task.duty task.notes call)
    (hspares : task.duty.schedules id = false) (hclock : s.outruns id (.step i draw) = false)
    (hperform : B.perform draw s.state call = (reply, state)) :
    InTurn (past ++ B.claimed draw s.state id call) ∧
    Standing (past ++ B.claimed draw s.state id call) (fired ++ call.enqueued task.notes id)
      ((B.templates state).get? id) (before ++ RecurringTask.held
        { task with program := k reply, notes := task.notes.after call reply } id ++ after) := by
  have heffect := B.effect hperform
  simp only [RecurringTask.held, halive, if_true] at hstanding hholds ⊢
  cases hpermits with
  | now | newId =>
    have hsame : (B.templates state).get? id = s.templates.get? id := (or_self_iff.mp heffect) id
    rw [hsame]
    simp only [TemplateStore.claimed, RecurringCall.enqueued, List.append_nil]
    exact ⟨hp, hstanding⟩
  | fetch clock limit hduty hpending =>
    rw [held_none hpending, List.append_nil] at hstanding hholds
    have hahead := outruns_step htask halive hprogram hclock
    rw [hholds] at hahead
    simp only [RecurringCall.enqueued, List.append_nil]
    exact hstanding.fetch hahead hp hperform task.notes hpending
  | @enqueue _ _ r rest job hduty hpending hfired hasked =>
    have hsame : (B.templates state).get? id = s.templates.get? id := (or_self_iff.mp heffect) id
    rw [hsame]
    obtain ⟨duty, program, ⟨clock, pending, b⟩, alive⟩ := task
    obtain rfl : pending = r :: rest := hpending
    obtain rfl : b = false := hfired
    simp only [TemplateStore.claimed, RecurringCall.enqueued, List.append_nil, hasked,
      Bool.false_eq_true, not_true_eq_false, or_self, if_false]
    exact ⟨hp, hstanding.enqueue⟩
  | @save _ _ r r' rest hduty hpending hsaved =>
    obtain ⟨duty, program, ⟨clock, pending, b⟩, alive⟩ := task
    obtain rfl : pending = r :: rest := hpending
    simp only [TemplateStore.claimed, RecurringCall.enqueued, List.append_nil]
    exact ⟨hp, hstanding.save hsaved hp hperform⟩
  | @schedule id' expr method queue payload start now r hduty hnew hpending =>
    have hne : id ≠ r.id := by
      rintro rfl
      rw [hduty, (RecurringJob.of_new hnew).1] at hspares
      simp [Duty.schedules] at hspares
    have hsame : (B.templates state).get? id = s.templates.get? id := by
      rcases heffect with ⟨createdAt, hleft⟩ | hleft
      · exact (hleft id).trans (Templates.get?_upsert.trans (if_neg hne))
      · exact hleft id
    simp only [TemplateStore.claimed, RecurringCall.enqueued, List.append_nil, hsame, Claims.after]
    rw [held_none hpending] at hstanding
    rw [held_none (by rw [hpending]; rfl)]
    exact ⟨hp, hstanding⟩
  | @remove id' hduty =>
    simp only [TemplateStore.claimed, RecurringCall.enqueued, List.append_nil, Claims.after]
    refine ⟨hp, ?_⟩
    rcases heffect with hleft | hleft
    · rw [hleft id, Templates.get?_remove]
      split
      · exact hstanding.removed
      · exact hstanding
    · rw [hleft id]
      exact hstanding

end

/-- The claims of a template so far are in turn, and so is what is held of it. -/
structure Ticking (id : String) (tr : List (Step (Site B) (Event B))) (state : B.State)
    (copies : List Hold) : Prop where
  inTurn : InTurn (claims tr id)
  standing : Standing (claims tr id) (firings tr id) ((B.templates state).get? id) copies

theorem claims_snoc {tr : List (Step (Site B) (Event B))} {x : Step (Site B) (Event B)} :
    claims (tr ++ [x]) id = claims tr id ++ claimed x id := by
  simp [claims]

theorem firings_snoc {tr : List (Step (Site B) (Event B))} {x : Step (Site B) (Event B)} :
    firings (tr ++ [x]) id = firings tr id ++ enqueued x id := by
  simp [firings]

/-- A step that neither claims nor enqueues leaves the history as it is. -/
theorem Ticking.still {tr : List (Step (Site B) (Event B))} {x : Step (Site B) (Event B)}
    {state state' : B.State} {left : List Hold} (h : Ticking id tr state copies)
    (hclaimed : claimed x id = []) (henqueued : enqueued x id = [])
    (hleft : Standing (claims tr id) (firings tr id) ((B.templates state').get? id) left) :
    Ticking id (tr ++ [x]) state' left := by
  constructor
  · rw [claims_snoc, hclaimed, List.append_nil]
    exact h.inTurn
  · rw [claims_snoc, firings_snoc, hclaimed, henqueued, List.append_nil, List.append_nil]
    exact hleft

/-- Tasks that do not schedule the template anew keep its claims in turn. -/
theorem ticking_custody (cron : Cron) (id : String) : Crew.Site.Custody (C := B.crew)
    (Duty.program cron) (fun duty program claims =>
      program.wp (Rules cron duty) (fun _ _ => True) claims ∧ duty.schedules id = false)
    (fun x => outruns x.before id x.label = false) (RecurringTask.held · id) (Ticking id) where
  starts duty := rfl
  spawned h := h.still rfl rfl h.standing
  called htask halive hprogram hgood hperform hclock hholds h := by
    obtain ⟨hp, hstanding⟩ := h.standing.called h.inTurn hholds htask halive hprogram
      (wp_rules.mp hgood.1).1 hgood.2 hclock hperform
    constructor
    · rw [claims_snoc, claimed_step htask halive hprogram]
      exact hp
    · rw [claims_snoc, firings_snoc, claimed_step htask halive hprogram,
        enqueued_step htask halive hprogram]
      exact hstanding
  dropped h := h.still rfl rfl
    (h.standing.drop h.inTurn (((List.nil_sublist _).append_left _).append_right _))
  entered hother h := h.still rfl rfl (B.others hother ▸ h.standing)

theorem ticking_run {state : B.State} {tr : List (Step (Site B) (Event B))}
    (hr : Run (Next cron) (idle state) tr s)
    (hspawn : ∀ x ∈ tr, x.label.schedules id = false)
    (hclock : ∀ x ∈ tr, x.before.outruns id x.label = false) :
    Ticking id tr s.state (s.holds id) := by
  refine (ticking_custody cron id).run ⟨fun duty hspares => ⟨duty.permitted cron, hspares⟩,
    fun h _ => ⟨(wp_rules.mp h.1).2 _, h.2⟩⟩ hr (fun _ h => by cases h)
    (fun x hx duty hduty => ?_) hclock ⟨⟨fun _ hc => ?_, .nil⟩, ?_⟩
  · have hspares := hspawn x hx
    rwa [hduty] at hspares
  · cases hc
  · exact .free (fun _ _ _ _ hc => by cases hc) (List.Sublist.refl _)

end Site
end Qml
