import Qml.Redis.Grips

namespace Qml
open Lib

/-- The dates of the claims for which a command enqueues a job of a template. A job that answers
to no claim, or to one that has its job already, is nobody's: `none`. -/
def RecurringCmd.enqueued (grips : Grips) (id : String) : RecurringCmd ρ → List (Option DateTime)
  | .enqueue job =>
    match grips.pending with
    | r :: _ =>
      if grips.fired = true ∨ ¬ r.asksFor job then [none]
      else if r.id = id then [some r.nextRunAt] else []
    | [] => [none]
  | _ => []

namespace RedisStorage
namespace RecurringSite

/-- The dates for which a step enqueues a job. -/
def enqueued (x : Step RecurringSite Event) (id : String) : List (Option DateTime) :=
  match x.label with
  | .step i _ =>
    match x.before.tasks[i]? with
    | some ⟨_, .call cmd _, grips, true⟩ => cmd.enqueued grips id
    | _ => []
  | _ => []

/-- The dates for which jobs are enqueued in a run, in order. -/
def firings (tr : List (Step RecurringSite Event)) (id : String) : List (Option DateTime) :=
  tr.flatMap fun x => enqueued x id

/-- Whether a step finds the claim key of a template expired while a task still has a grip on the
template. -/
def outlives (s : RecurringSite) (id : String) : Event → Bool
  | .step i c =>
    match s.tasks[i]? with
    | some ⟨_, .call (.setNxEx60 id') _, _, true⟩ => decide (id' = id) && !(s.holds id).isEmpty &&
        (s.state.claims.get? id).any fun expiry => decide (expiry < c.server)
    | _ => false
  | _ => false

/-- Whether a step starts a task that schedules the template anew. -/
def Event.schedules (id : String) : Event → Bool
  | .spawn duty => duty.schedules id
  | _ => false

/-- A template that can be claimed is due later than all that was enqueued for it. -/
def Later (fired : List DateTime) (stored : Option RecurringJob) : Prop :=
  ∀ r, stored = some r → r.enabled = true → ∀ t ∈ fired, t < r.nextRunAt

/-- At most one task has a grip on a template, and it has its claim key. It has got no further
than a copy that is due later than all that was enqueued, or the copy is what was enqueued last. -/
inductive Standing (fired : List DateTime) (stored : Option RecurringJob) (marked : Bool) :
    List Grip → Prop
  | free (hlater : Later fired stored) : Standing fired stored marked []
  | key (hmarked : marked = true) (hlater : Later fired stored) :
      Standing fired stored marked [.key]
  | copy {r : RecurringJob} (hmarked : marked = true) (hlater : Later fired stored)
      (hcopy : Later fired (some r)) : Standing fired stored marked [.copy r false]
  | fired {r : RecurringJob} {before : List DateTime} (hmarked : marked = true)
      (hfired : fired = before ++ [r.nextRunAt]) : Standing fired stored marked [.copy r true]

variable {cron : Cron} {s t : RecurringSite} {e : Event} {id : String} {fired : List DateTime}
  {stored : Option RecurringJob} {marked : Bool} {grips : List Grip}

theorem Standing.length_le (h : Standing fired stored marked grips) : grips.length ≤ 1 := by
  cases h with
  | free => exact Nat.zero_le _
  | key | copy | fired => exact Nat.le_refl _

/-- At most one grip is there. -/
theorem Standing.only {grip : Grip} {before after : List Grip}
    (h : Standing fired stored marked (before ++ grip :: after)) : before = [] ∧ after = [] :=
  alone h.length_le

/-- A removed template has nothing left to compare with. -/
theorem Standing.removed (h : Standing fired stored marked grips) :
    Standing fired none marked grips := by
  have hnone : Later fired none := fun _ hr => by cases hr
  cases h with
  | free => exact .free hnone
  | key hmarked => exact .key hmarked hnone
  | copy hmarked _ hcopy => exact .copy hmarked hnone hcopy
  | fired hmarked hfired => exact .fired hmarked hfired

/-- A grip can be given up, but for that of a task that has enqueued its copy. -/
theorem Standing.drop {left : List Grip} (h : Standing fired stored marked grips)
    (hsub : left.Sublist grips) (hkept : ∀ grip ∈ grips, grip.isFired = true → grip ∈ left) :
    Standing fired stored marked left := by
  cases h with
  | free hlater =>
    obtain rfl := List.eq_nil_of_sublist_nil hsub
    exact .free hlater
  | key hmarked hlater =>
    rcases List.sublist_singleton.mp hsub with rfl | rfl
    · exact .free hlater
    · exact .key hmarked hlater
  | copy hmarked hlater hcopy =>
    rcases List.sublist_singleton.mp hsub with rfl | rfl
    · exact .free hlater
    · exact .copy hmarked hlater hcopy
  | fired hmarked hfired =>
    rcases List.sublist_singleton.mp hsub with rfl | rfl
    · exact absurd (hkept _ (List.mem_singleton_self _) rfl) List.not_mem_nil
    · exact .fired hmarked hfired

section
variable {task : KeyTask} {pending rest : List RecurringJob} {r : RecurringJob} {b : Bool}

theorem copies_own (hid : r.id = id) : copies id (r :: rest) b =
    .copy r b :: copies id rest false := if_pos hid

theorem copies_other (hid : r.id ≠ id) : copies id (r :: rest) b = copies id rest false :=
  if_neg hid

theorem copies_snoc : copies id (pending ++ [r]) false =
    copies id pending false ++ if r.id = id then [.copy r false] else [] := by
  induction pending with
  | nil => rfl
  | cons r' rest ih =>
    by_cases hid : r'.id = id
    · rw [List.cons_append, copies_own hid, copies_own hid, ih, List.cons_append]
    · rw [List.cons_append, copies_other hid, copies_other hid, ih]

theorem reading_none (h : task.notes.read = none) : task.reading id = [] := by
  unfold KeyTask.reading
  split
  · rename_i hread
    cases h.symm.trans hread
  · rfl

theorem held_alive (halive : task.alive = true) : task.held id =
    (if task.notes.trying = some id then [.key] else []) ++
      copies id task.notes.pending task.notes.fired ++ task.reading id := if_pos halive

/-- What a dropped task keeps. -/
theorem held_dropped (task : KeyTask) :
    KeyTask.held { task with alive := false } id = (task.held id).filter Grip.isFired := by
  have hreading : (task.reading id).filter Grip.isFired = [] := by
    unfold KeyTask.reading
    split
    · split <;> rfl
    · rfl
  have hkey :
      (if task.notes.trying = some id then [Grip.key] else []).filter Grip.isFired = [] := by
    split <;> rfl
  cases halive : task.alive with
  | true =>
    rw [held_alive halive, List.filter_append, List.filter_append, hreading, hkey,
      List.nil_append, List.append_nil]
    rfl
  | false => simp [KeyTask.held, halive]

end

section
variable {i : Nat} {c : Circumstances} {task : KeyTask} {ρ : Type} {cmd : RecurringCmd ρ}
  {k : ρ → Prog RecurringCmd Duty.Answer} {reply : ρ} {keys : RecurringKeys}
  {before after : List Grip}

theorem enqueued_step (htask : s.tasks[i]? = some task) (halive : task.alive = true)
    (hprogram : task.program = .call cmd k) :
    enqueued ⟨s, .step i c, t⟩ id = cmd.enqueued task.notes id := by
  obtain ⟨duty, program, grips, alive⟩ := task
  cases hprogram
  cases halive
  simp only [enqueued, htask]

/-- A claim key that is set anew was not there, or a task has no grip on the template. -/
theorem outlives_step {k : Bool → Prog RecurringCmd Duty.Answer} (htask : s.tasks[i]? = some task)
    (halive : task.alive = true) (hprogram : task.program = .call (.setNxEx60 id) k)
    (hfree : s.state.claimed id c.server = false)
    (hmarked : (s.state.claims.get? id).isSome = true)
    (hok : s.outlives id (.step i c) = false) : s.holds id = [] := by
  obtain ⟨duty, program, grips, alive⟩ := task
  cases hprogram
  cases halive
  obtain ⟨expiry, hexpiry⟩ := Option.isSome_iff_exists.mp hmarked
  have hlate : expiry < c.server := by
    simpa [RecurringKeys.claimed, hexpiry] using hfree
  simpa [outlives, htask, hexpiry, hlate] using hok

/-- The grips of a task after its next command. -/
theorem held_after (halive : task.alive = true) (cmd : RecurringCmd ρ) (reply : ρ)
    (k : ρ → Prog RecurringCmd Duty.Answer) :
    KeyTask.held { task with program := k reply, notes := task.notes.after cmd reply } id =
      (if (task.notes.after cmd reply).trying = some id then [.key] else []) ++
        copies id (task.notes.after cmd reply).pending (task.notes.after cmd reply).fired ++
        KeyTask.reading { task with program := k reply, notes := task.notes.after cmd reply } id :=
  held_alive halive

/-- The first copy is enqueued. -/
theorem Standing.enqueue {r : RecurringJob} {rest : List RecurringJob}
    (h : Standing fired stored marked (before ++ copies id (r :: rest) false ++ after))
    (hp : fired.Pairwise (· < ·)) (henabled : r.enabled = true) :
    let new := if r.id = id then [r.nextRunAt] else []
    (fired ++ new).Pairwise (· < ·) ∧
      Standing (fired ++ new) stored marked (before ++ copies id (r :: rest) true ++ after) := by
  intro new
  by_cases hid : r.id = id
  · simp only [new, if_pos hid]
    rw [copies_own hid, List.append_assoc, List.cons_append] at h ⊢
    obtain ⟨rfl, hrest⟩ := h.only
    rw [hrest, List.nil_append] at h ⊢
    cases h with
    | copy hmarked _ hcopy =>
      refine ⟨List.pairwise_append.mpr ⟨hp, List.pairwise_singleton .., fun t ht t' ht' => ?_⟩,
        .fired hmarked rfl⟩
      rw [List.mem_singleton.mp ht']
      exact hcopy r rfl henabled t ht
  · simp only [new, if_neg hid, List.append_nil]
    rw [copies_other hid] at h ⊢
    exact ⟨hp, h⟩

/-- The first copy is written back. -/
theorem Standing.save {r r' : RecurringJob} {rest : List RecurringJob} {b : Bool}
    {rows : Templates} (henabled : r.enabled = true) (hid' : r'.id = r.id)
    (hlater : r'.enabled = true → r.nextRunAt < r'.nextRunAt) (hp : fired.Pairwise (· < ·))
    (h : Standing fired (rows.get? id) marked (before ++ copies id (r :: rest) b ++ after)) :
    Standing fired ((rows.upsert r').get? id) marked
      (before ++ copies id rest false ++ after) := by
  by_cases hid : r.id = id
  · rw [copies_own hid, List.append_assoc, List.cons_append] at h
    obtain ⟨rfl, hrest⟩ := h.only
    rw [List.append_assoc, hrest, List.nil_append]
    rw [hrest, List.nil_append] at h
    have hup : ∀ t ∈ fired, t ≤ r.nextRunAt := by
      intro t ht
      cases h with
      | copy _ _ hcopy => exact le_of_lt (hcopy r rfl henabled t ht)
      | fired _ hfired =>
        subst hfired
        rcases List.mem_append.mp ht with ht | ht
        · exact le_of_lt ((List.pairwise_append.mp hp).2.2 t ht _ (List.mem_singleton_self _))
        · exact le_of_eq (List.mem_singleton.mp ht)
    refine .free fun stored hstored hstill t ht => ?_
    rw [Templates.get?_upsert, if_pos (by rw [hid', hid])] at hstored
    cases hstored
    exact lt_of_le_of_lt (hup t ht) (hlater hstill)
  · rw [copies_other hid] at h
    rwa [Templates.get?_upsert, if_neg (by rw [hid']; exact Ne.symm hid)]

/-- The claim key is found to be there, or is set. -/
theorem Standing.claim (id' : String) {set : Bool} {left : List Grip}
    (hperform : (RecurringCmd.setNxEx60 id').perform c s.state = (set, keys))
    (h : Standing fired (s.state.rows.get? id) (s.state.claims.get? id).isSome
      (before ++ left ++ after))
    (hok : id' = id → s.state.claimed id c.server = false →
      (s.state.claims.get? id).isSome = true → before ++ left ++ after = []) :
    Standing fired (keys.rows.get? id) (keys.claims.get? id).isSome
      (before ++ ((if set = true ∧ id' = id then [.key] else []) ++ left) ++ after) := by
  rw [perform_setNxEx60] at hperform
  split at hperform <;> cases hperform
  · simpa using h
  · rename_i hfree
    by_cases hid : id' = id
    · subst hid
      have hnone : before ++ left ++ after = [] := by
        cases hmarked : (s.state.claims.get? id').isSome with
        | true => exact hok rfl (by simpa using hfree) hmarked
        | false =>
          rw [hmarked] at h
          generalize before ++ left ++ after = grips at h
          cases h with
          | free => rfl
          | key hmarked | copy hmarked | fired hmarked => cases hmarked
      simp only [List.append_eq_nil_iff] at hnone
      obtain ⟨⟨rfl, rfl⟩, rfl⟩ := hnone
      cases h with
      | free hlater =>
        rw [if_pos ⟨rfl, rfl⟩]
        refine .key ?_ hlater
        rw [Dict.get?_insert, if_pos rfl]
        rfl
    · have hother : (s.state.claims.insert id' (c.server + Duration.seconds 60)).get? id =
          s.state.claims.get? id := by
        rw [Dict.get?_insert, if_neg (Ne.symm hid)]
      simpa [hid, hother] using h

/-- The template is read under its claim key. -/
theorem Standing.read {rows : Templates} {own reading : List Grip} {id' : String}
    (h : Standing fired (rows.get? id) marked
      (before ++ ((if id' = id then [.key] else []) ++ own) ++ after))
    (hreading : reading = [] ∨
      ∃ r, rows.get? id' = some r ∧ id' = id ∧ reading = [.copy r false]) :
    Standing fired (rows.get? id) marked (before ++ (own ++ reading) ++ after) := by
  by_cases hid : id' = id
  · subst hid
    rw [if_pos rfl, List.append_assoc, List.append_assoc, List.singleton_append] at h
    obtain ⟨rfl, hrest⟩ := h.only
    obtain ⟨rfl, rfl⟩ := List.append_eq_nil_iff.mp hrest
    cases h with
    | key hmarked hlater =>
      rcases hreading with rfl | ⟨r, hr, -, rfl⟩
      · exact .free hlater
      · exact .copy hmarked hlater (hr ▸ hlater)
  · rw [if_neg hid, List.nil_append] at h
    rcases hreading with rfl | ⟨r, hr, rfl, rfl⟩
    · rwa [List.append_nil]
    · exact absurd rfl hid

/-- What a task has just read is a copy, if it is about to be parked. -/
theorem reading_read {found : Option RecurringJob} {id' : String}
    (hread : task.notes.read = found) (hkeyed : ∀ r, found = some r → r.id = id') :
    task.reading id = [] ∨ ∃ r, found = some r ∧ id' = id ∧ task.reading id = [.copy r false] := by
  unfold KeyTask.reading
  split
  · rename_i r _ hr
    split
    · rename_i hid
      have hfound : found = some r := hread.symm.trans hr
      exact .inr ⟨r, hfound, (hkeyed r hfound) ▸ hid, rfl⟩
    · exact .inl rfl
  · exact .inl rfl

/-- A command that concerns no copy and no claim key. -/
theorem held_same (halive : task.alive = true) (hread : task.reading id = [])
    (hread' : (task.notes.after cmd reply).read = none)
    (htrying : (task.notes.after cmd reply).trying = task.notes.trying)
    (hcopies : copies id (task.notes.after cmd reply).pending (task.notes.after cmd reply).fired =
      copies id task.notes.pending task.notes.fired) :
    KeyTask.held { task with program := k reply, notes := task.notes.after cmd reply } id =
      task.held id := by
  rw [held_after halive, held_alive halive, htrying, hcopies, hread, reading_none hread']

/-- The command of a live task. -/
theorem Standing.called
    (hstanding : Standing fired (s.state.rows.get? id) (s.state.claims.get? id).isSome
      (before ++ task.held id ++ after))
    (hp : fired.Pairwise (· < ·)) (hholds : s.holds id = before ++ task.held id ++ after)
    (htask : s.tasks[i]? = some task) (halive : task.alive = true)
    (hprogram : task.program = .call cmd k) (hsends : Sends task.duty task.notes cmd)
    (hspares : task.duty.schedules id = false) (hok : s.outlives id (.step i c) = false)
    (hperform : cmd.perform c s.state = (reply, keys)) :
    ∃ new : List DateTime, cmd.enqueued task.notes id = new.map some ∧
      (fired ++ new).Pairwise (· < ·) ∧
      Standing (fired ++ new) (keys.rows.get? id) (keys.claims.get? id).isSome
        (before ++ KeyTask.held
          { task with program := k reply, notes := task.notes.after cmd reply } id ++ after) := by
  cases hsends with
  | now | newId =>
    cases hperform
    rw [held_same halive (by simp [KeyTask.reading, hprogram]) rfl rfl rfl]
    exact ⟨[], rfl, by rwa [List.append_nil], by rwa [List.append_nil]⟩
  | unindex =>
    cases hperform
    rw [held_same halive (by simp [KeyTask.reading, hprogram]) rfl rfl rfl]
    exact ⟨[], rfl, by rwa [List.append_nil], by rwa [List.append_nil]⟩
  | look _ _ hpending =>
    obtain rfl : keys = s.state := by
      simp only [RecurringCmd.perform] at hperform
      split at hperform <;> cases hperform <;> rfl
    rw [held_same halive (by simp [KeyTask.reading, hprogram]) rfl rfl
      (by simp [Grips.after, hpending, copies])]
    exact ⟨[], rfl, by rwa [List.append_nil], by rwa [List.append_nil]⟩
  | claim id' htrying =>
    have hheld : task.held id = copies id task.notes.pending task.notes.fired := by
      simp [held_alive halive, htrying, KeyTask.reading, hprogram]
    have hnew : KeyTask.held
        { task with program := k reply, notes := task.notes.after (.setNxEx60 id') reply } id =
          (if reply = true ∧ id' = id then [.key] else []) ++ task.held id := by
      rw [held_after halive, reading_none (by cases reply <;> rfl), List.append_nil, hheld]
      cases reply <;> simp [Grips.after, htrying]
    rw [hnew]
    refine ⟨[], rfl, by rwa [List.append_nil], ?_⟩
    rw [List.append_nil]
    refine hstanding.claim id' hperform ?_
    rintro rfl hfree hmarked
    rw [← hholds]
    exact outlives_step htask halive hprogram hfree hmarked hok
  | read id' htrying =>
    cases hperform
    have hheld : task.held id = (if id' = id then [.key] else []) ++
        copies id task.notes.pending task.notes.fired := by
      simp [held_alive halive, htrying, KeyTask.reading, hprogram]
    rw [hheld] at hstanding
    rw [held_after halive]
    refine ⟨[], rfl, by rwa [List.append_nil], ?_⟩
    simp only [List.append_nil, Grips.after, reduceCtorEq, if_false, List.nil_append]
    exact hstanding.read (reading_read rfl fun r hr => s.state.rows.keyed hr)
  | @park r score hread henabled hfired =>
    cases hperform
    have hheld : KeyTask.held
        { task with program := k (), notes := task.notes.after (.zadd r.id score) () } id =
          task.held id := by
      rw [held_after halive, held_alive halive, reading_none rfl]
      simp [Grips.after, KeyTask.reading, hprogram, hread, hfired, copies_snoc]
    rw [hheld]
    exact ⟨[], rfl, by rwa [List.append_nil], by rwa [List.append_nil]⟩
  | index id' score hread =>
    cases hperform
    rw [held_same halive (reading_none hread) rfl rfl (by simp [Grips.after, hread])]
    exact ⟨[], rfl, by rwa [List.append_nil], by rwa [List.append_nil]⟩
  | @enqueue r rest job hpending hfired henabled hasked =>
    cases hperform
    have hreading : task.reading id = [] := by simp [KeyTask.reading, hprogram]
    rw [held_alive halive, hreading, List.append_nil, hpending, hfired, ← List.append_assoc]
      at hstanding
    rw [held_after halive, reading_none rfl, List.append_nil, ← List.append_assoc]
    have hnew : RecurringCmd.enqueued task.notes id (.enqueue job) =
        (if r.id = id then [r.nextRunAt] else []).map some := by
      simp only [RecurringCmd.enqueued, hpending, hfired, hasked, Bool.false_eq_true,
        not_true_eq_false, or_self, if_false]
      split <;> rfl
    refine ⟨_, hnew, ?_⟩
    simp only [Grips.after, hpending]
    exact hstanding.enqueue hp henabled
  | @save r r' rest hpending henabled hid hlater =>
    cases hperform
    have hreading : task.reading id = [] := by simp [KeyTask.reading, hprogram]
    rw [held_alive halive, hreading, List.append_nil, hpending, ← List.append_assoc] at hstanding
    rw [held_after halive, reading_none rfl, List.append_nil, ← List.append_assoc]
    refine ⟨[], rfl, by rwa [List.append_nil], ?_⟩
    simp only [Grips.after, hpending, List.append_nil, List.tail_cons]
    exact hstanding.save henabled hid hlater hp
  | @schedule r expr method queue payload hduty hpending =>
    cases hperform
    have hne : id ≠ r.id := by
      rintro rfl
      simp [hduty, Duty.schedules] at hspares
    rw [held_same halive (by simp [KeyTask.reading, hprogram]) rfl rfl
      (by simp [Grips.after, hpending, copies])]
    refine ⟨[], rfl, by rwa [List.append_nil], ?_⟩
    simp only [List.append_nil, Templates.get?_upsert, if_neg hne]
    exact hstanding
  | remove id' =>
    obtain rfl : keys = { s.state with rows := (s.state.rows.remove id').2 } := by
      cases hperform
      rfl
    rw [held_same halive (by simp [KeyTask.reading, hprogram]) rfl rfl rfl]
    refine ⟨[], rfl, by rwa [List.append_nil], ?_⟩
    simp only [List.append_nil, Templates.get?_remove]
    split
    · exact hstanding.removed
    · exact hstanding

end

/-- What was enqueued for the template so far is in order of its dates, and so is what the tasks
hold of it. -/
def Ticking (id : String) (tr : List (Step RecurringSite Event)) (keys : RecurringKeys)
    (grips : List Grip) : Prop :=
  ∃ fired : List DateTime, firings tr id = fired.map some ∧ fired.Pairwise (· < ·) ∧
    Standing fired (keys.rows.get? id) (keys.claims.get? id).isSome grips

/-- A step that enqueues nothing leaves the history as it is. -/
theorem Ticking.still {tr : List (Step RecurringSite Event)} {keys : RecurringKeys}
    {left : List Grip} {x : Step RecurringSite Event} (h : Ticking id tr keys grips)
    (hx : enqueued x id = []) (hleft : ∀ {fired marked},
      Standing fired (keys.rows.get? id) marked grips →
      Standing fired (keys.rows.get? id) marked left) :
    Ticking id (tr ++ [x]) keys left := by
  obtain ⟨fired, hfired, hp, hstanding⟩ := h
  exact ⟨fired, by simpa [firings, hx] using hfired, hp, hleft hstanding⟩

/-- Tasks that do not schedule the template anew keep it so. -/
theorem ticking_custody (cron : Cron) (id : String) : Crew.Site.Custody (C := keyCrew)
    (commands cron) (fun duty program grips =>
      program.wp (Order duty) (fun _ _ => True) grips ∧ duty.schedules id = false)
    (fun x => outlives x.before id x.label = false) (KeyTask.held · id) (Ticking id) where
  starts duty := by
    rw [held_alive rfl, reading_none rfl]
    rfl
  spawned h := h.still rfl fun h => h
  called htask halive hprogram hgood hperform hok hholds h := by
    obtain ⟨fired, hfired, hp, hstanding⟩ := h
    obtain ⟨new, hnew, hp, hstanding⟩ := hstanding.called hp hholds htask halive hprogram
      hgood.1.1 hgood.2 hok hperform
    refine ⟨fired ++ new, ?_, hp, hstanding⟩
    rw [firings, List.flatMap_append, List.flatMap_singleton,
      enqueued_step htask halive hprogram, hnew, List.map_append, ← hfired, firings]
  dropped h := by
    refine h.still rfl fun hstanding => ?_
    rw [held_dropped]
    refine hstanding.drop ?_ fun grip hgrip hfired => ?_
    · exact ((List.Sublist.refl _).append List.filter_sublist).append (List.Sublist.refl _)
    · simp only [List.mem_append, List.mem_filter] at hgrip ⊢
      rcases hgrip with (hgrip | hgrip) | hgrip
      · exact .inl (.inl hgrip)
      · exact .inl (.inr ⟨hgrip, hfired⟩)
      · exact .inr hgrip
  entered hother h := by cases hother

theorem ticking_run {keys : RecurringKeys} {tr : List (Step RecurringSite Event)}
    (hr : Run (Next cron) (idle keys) tr s) (hspawn : ∀ x ∈ tr, x.label.schedules id = false)
    (hok : ∀ x ∈ tr, x.before.outlives id x.label = false) :
    Ticking id tr s.state (s.holds id) := by
  refine (ticking_custody cron id).run ⟨fun duty hspares => ⟨commands_sends cron duty, hspares⟩,
    fun h hperform => ⟨(wp_order.mp h.1).2 _ (perform_found hperform), h.2⟩⟩ hr
    (fun _ h => by cases h) (fun x hx duty hduty => ?_) hok
    ⟨[], rfl, .nil, .free fun _ _ _ _ ht => by cases ht⟩
  have hspares := hspawn x hx
  rwa [hduty] at hspares

/-- With any number of pollers over one database, in every order of their commands, and wherever
tasks are dropped: where no claim key expires before the template is written back, one task at
a time has a grip on a template, and every job that is enqueued answers to a claim, for ever
later dates. -/
theorem one_grip_at_a_time {keys : RecurringKeys} {tr : List (Step RecurringSite Event)}
    (hr : Run (Next cron) (idle keys) tr s) (hspawn : ∀ x ∈ tr, x.label.schedules id = false)
    (hok : ∀ x ∈ tr, x.before.outlives id x.label = false) :
    (s.holds id).length ≤ 1 ∧
      ∃ fired : List DateTime, firings tr id = fired.map some ∧ fired.Pairwise (· < ·) := by
  obtain ⟨fired, hfired, hp, hstanding⟩ := ticking_run hr hspawn hok
  exact ⟨hstanding.length_le, fired, hfired, hp⟩

/-- Two pollers list the due templates; one gets the claim key and writes the template back, and
the other one gets it for the next date, a minute later. -/
def racingPollers : List Event :=
  let noon : DateTime := 1767268800000000000
  [.spawn (.poller 256 2), .spawn (.poller 256 2)] ++ Event.steps 0 2 noon ++
    Event.steps 1 2 noon ++ Event.steps 0 4 noon ++ Event.steps 1 1 noon ++
    Event.steps 0 5 noon ++ Event.steps 1 11 (noon + Duration.seconds 61)

theorem one_grip_at_a_time_racingPollers : ∃ tr s,
    Run (Next .everySecond) (idle atNoon) tr s ∧ (firings tr "tick").length = 2 ∧
    (s.holds "tick").length ≤ 1 ∧
      ∃ fired : List DateTime, firings tr "tick" = fired.map some ∧ fired.Pairwise (· < ·) := by
  obtain ⟨s, hr⟩ := replay_run (next .everySecond) (idle atNoon) racingPollers
  exact ⟨_, s, hr, by decide +kernel, one_grip_at_a_time hr (by decide +kernel) (by decide +kernel)⟩

/-- A poller that stops for a minute between its claim and its reading is overtaken: both enqueue
the job of noon. -/
def overtakenPoller : List Event :=
  let noon : DateTime := 1767268800000000000
  [.spawn (.poller 256 1), .spawn (.poller 256 1)] ++ Event.steps 0 3 noon ++
    Event.steps 1 2 noon ++ Event.steps 0 1 noon ++
    Event.steps 1 6 (noon + Duration.seconds 61) ++ Event.steps 0 4 (noon + Duration.seconds 61)

example : firings (replay (next .everySecond) (idle atNoon) overtakenPoller) "tick" =
    [some 1767268800000000000, some 1767268800000000000] := by
  decide +kernel

end RecurringSite
end RedisStorage
end Qml
