import Qml.Redis.Grips

namespace Qml
open Lib RedisStorage

/-- What a fetch owes: something when anything is due, and everything that is due
when the limit leaves room for all templates. -/
def Complete (rows : Templates) (now : DateTime) (limit : Nat) (due : List RecurringJob) : Prop :=
  ((∃ r, rows.get? r.id = some r ∧ Templates.isDue now r = true) → due ≠ []) ∧
  (rows.values.length ≤ limit →
    ∀ r, rows.get? r.id = some r → Templates.isDue now r = true → r ∈ due)

namespace RecurringKeys

/-- The identifiers that the fetch tries. -/
def candidates (keys : RecurringKeys) (now : DateTime) (limit : Nat) : List String :=
  match countOf limit with
  | some n => (keys.upTo now.timestampMillis).take n
  | none => keys.upTo now.timestampMillis

/-- How many commands the fetch sends for one of them. -/
def commandsFor (keys : RecurringKeys) (now : DateTime) (id : String) (server : DateTime) : Nat :=
  if keys.claimed id server then 1
  else
    match keys.rows.get? id with
    | none => 2
    | some r => if Templates.isDue now r then 3 else 2

/-- Identifiers, each with the server's time when its claim key is tried. -/
def tries (keys : RecurringKeys) (now : DateTime) :
    (Nat → Circumstances) → List String → List (String × DateTime)
  | _, [] => []
  | cs, id :: ids => (id, (cs 0).server) ::
      keys.tries now (fun n => cs (n + keys.commandsFor now id (cs 0).server)) ids

/-- What the tries get. -/
def picks (keys : RecurringKeys) (now : DateTime) (tries : List (String × DateTime)) :
    List RecurringJob :=
  tries.filterMap fun e =>
    if keys.claimed e.1 e.2 then none
    else (keys.rows.get? e.1).filter (Templates.isDue now)

section
variable {keys : RecurringKeys} {now : DateTime} {limit : Nat} {parkMs : Int} {id : String}
  {ids : List String} {r : RecurringJob} {claimed : List RecurringJob} {cs : Nat → Circumstances}

theorem picks_claimed (hclaimed : keys.claimed id (cs 0).server = true) :
    keys.picks now (keys.tries now cs (id :: ids)) =
      keys.picks now (keys.tries now (fun n => cs (n + 1)) ids) := by
  simp [tries, picks, commandsFor, hclaimed]

theorem picks_missing (hfree : keys.claimed id (cs 0).server = false)
    (hrow : keys.rows.get? id = none) :
    keys.picks now (keys.tries now cs (id :: ids)) =
      keys.picks now (keys.tries now (fun n => cs (n + 2)) ids) := by
  simp [tries, picks, commandsFor, hfree, hrow]

theorem picks_early (hfree : keys.claimed id (cs 0).server = false)
    (hrow : keys.rows.get? id = some r) (hdue : Templates.isDue now r = false) :
    keys.picks now (keys.tries now cs (id :: ids)) =
      keys.picks now (keys.tries now (fun n => cs (n + 2)) ids) := by
  simp [tries, picks, commandsFor, hfree, hrow, hdue]

theorem picks_due (hfree : keys.claimed id (cs 0).server = false)
    (hrow : keys.rows.get? id = some r) (hdue : Templates.isDue now r = true) :
    keys.picks now (keys.tries now cs (id :: ids)) =
      r :: keys.picks now (keys.tries now (fun n => cs (n + 3)) ids) := by
  have hcommands : keys.commandsFor now id (cs 0).server = 3 := by
    simp [commandsFor, hfree, hrow, hdue]
  rw [tries, hcommands, picks, List.filterMap_cons_some (b := r) (by simp [hfree, hrow, hdue])]
  rfl

theorem not_due_iff :
    (!r.enabled || decide (now < r.nextRunAt)) = !Templates.isDue now r := by
  rw [Templates.isDue, Bool.not_and, ← decide_not, decide_eq_decide.mpr Int.not_le.symm]

/-- The loop over the candidates returns what their tries get, up to the limit;
what earlier tries wrote does not matter to later ones. -/
theorem serve_claimDue {index : Dict String Int} {claims : Dict String DateTime}
    (hnodup : ids.Nodup) (hroom : claimed.length < limit)
    (hclaims : ∀ id ∈ ids, claims.get? id = keys.claims.get? id) : ∃ left,
    serve (claimDue now limit parkMs ids claimed) cs ⟨keys.rows, index, claims⟩ =
      some ((claimed ++ keys.picks now (keys.tries now cs ids)).take limit, left) := by
  induction ids generalizing claimed index claims cs with
  | nil =>
    refine ⟨⟨keys.rows, index, claims⟩, ?_⟩
    rw [tries, picks, List.filterMap_nil, List.append_nil, List.take_of_length_le hroom.le]
    rfl
  | cons id ids ih =>
    obtain ⟨hid, hnodup⟩ := List.nodup_cons.mp hnodup
    have hrest : ∀ id ∈ ids, claims.get? id = keys.claims.get? id :=
      fun id' hid' => hclaims id' (List.mem_cons_of_mem _ hid')
    have hothers : ∀ id' ∈ ids, (claims.insert id ((cs 0).server + Duration.seconds 60)).get? id' =
        keys.claims.get? id' := fun id' hid' => by
      rw [Dict.get?_insert, if_neg fun he : id' = id => hid (he ▸ hid'), hrest id' hid']
    have hsame : (⟨keys.rows, index, claims⟩ : RecurringKeys).claimed id (cs 0).server =
        keys.claimed id (cs 0).server := by
      rw [RecurringKeys.claimed, RecurringKeys.claimed, hclaims id List.mem_cons_self]
    simp only [claimDue, Prog.ask_bind, serve_call, perform_setNxEx60, hsame]
    cases hfree : keys.claimed id (cs 0).server with
    | true =>
      rw [picks_claimed hfree]
      exact ih hnodup hroom hrest
    | false =>
      simp only [Bool.false_eq_true, if_false, serve_call, perform_get]
      cases hrow : keys.rows.get? id with
      | none =>
        rw [picks_missing hfree hrow]
        exact ih hnodup hroom hothers
      | some r =>
        cases hdue : Templates.isDue now r with
        | false =>
          simp only [not_due_iff, hdue, Bool.not_false, if_true]
          rw [picks_early hfree hrow hdue]
          exact ih hnodup hroom hothers
        | true =>
          simp only [not_due_iff, hdue, Bool.not_true, Bool.false_eq_true, if_false, serve_call,
            perform_zadd]
          rw [picks_due hfree hrow hdue, List.append_cons claimed r (keys.picks ..)]
          split
          · rename_i hfull
            have hfits : limit = (claimed ++ [r]).length := by
              rw [List.length_append, List.length_singleton] at hfull ⊢
              omega
            rw [hfits, List.take_left]
            exact ⟨_, rfl⟩
          · exact ih hnodup (by omega) hothers

theorem candidates_nodup (keys : RecurringKeys) (now : DateTime) (limit : Nat) :
    (keys.candidates now limit).Nodup := by
  have hmembers : (keys.upTo now.timestampMillis).Nodup :=
    (((List.perm_insertionSort ..).map Prod.fst).nodup_iff).mpr
      (keys.index.nodup.sublist (List.filter_sublist.map Prod.fst))
  rw [candidates]
  split
  · exact hmembers.sublist (List.take_sublist ..)
  · exact hmembers

/-- The whole fetch, after the command that reads the index. -/
theorem serve_fetch (hlimit : 1 ≤ limit) : ∃ left,
    serve (fetchDueRecurringJobs now limit) cs keys =
      some ((keys.picks now (keys.tries now (fun n => cs (n + 1))
        (keys.candidates now limit))).take limit, left) := by
  have hwindow : (RecurringCmd.zrangebyscoreLimit now.timestampMillis (countOf limit)).perform
      (cs 0) keys = (keys.candidates now limit, keys) := by
    simp only [RecurringCmd.perform, candidates]
    cases countOf limit <;> rfl
  rw [fetchDueRecurringJobs, Prog.ask_bind, serve_call, hwindow]
  exact serve_claimDue (candidates_nodup ..) hlimit fun _ _ => rfl

theorem mem_picks {tries : List (String × DateTime)} : r ∈ keys.picks now tries ↔
    keys.rows.get? r.id = some r ∧ Templates.isDue now r = true ∧
      ∃ t, (r.id, t) ∈ tries ∧ keys.claimed r.id t = false := by
  rw [picks, List.mem_filterMap]
  constructor
  · rintro ⟨⟨id, t⟩, htry, hpick⟩
    split at hpick
    · cases hpick
    · rename_i hfree
      obtain ⟨hrow, hdue⟩ := Option.filter_eq_some_iff.mp hpick
      obtain rfl : r.id = id := Templates.id_of_get? hrow
      exact ⟨hrow, hdue, t, htry, by simpa using hfree⟩
  · rintro ⟨hrow, hdue, t, htry, hfree⟩
    exact ⟨(r.id, t), htry, by simp [hfree, hrow, hdue, Option.filter]⟩

theorem tries_ids : (keys.tries now cs ids).map Prod.fst = ids := by
  induction ids generalizing cs with
  | nil => rfl
  | cons id ids ih => rw [tries, List.map_cons, ih]

/-- A try gets the row of its own identifier. -/
theorem picks_length {tries : List (String × DateTime)} (h : (tries.map Prod.fst).Nodup) :
    (keys.picks now tries).length ≤ keys.rows.values.length := by
  have hnodup : (keys.picks now tries).Nodup := by
    refine List.Pairwise.filterMap _ (fun e e' hne r hr r' hr' he => hne ?_)
      (List.pairwise_map.mp h)
    have hid : ∀ {e : String × DateTime} {r : RecurringJob}, (if keys.claimed e.1 e.2 then none
        else (keys.rows.get? e.1).filter (Templates.isDue now)) = some r → r.id = e.1 := by
      intro e r hr
      split at hr
      · cases hr
      · exact Templates.id_of_get? (Option.filter_eq_some_iff.mp hr).1
    rw [← hid hr, ← hid hr', he]
  exact (List.subperm_of_subset hnodup
    fun r hr => Templates.mem_values.mpr (mem_picks.mp hr).1).length_le

end

/-- When the fetch gets to the template, no claim key stands in its way. -/
def Reached (keys : RecurringKeys) (now : DateTime) (limit : Nat) (cs : Nat → Circumstances)
    (id : String) : Prop :=
  ∃ t, (id, t) ∈ keys.tries now (fun n => cs (n + 1)) (keys.candidates now limit) ∧
    keys.claimed id t = false

/-- The fetch is complete exactly when it reaches a due template if there is one,
and all of them if the limit leaves room for all templates. -/
theorem fetch_complete {keys : RecurringKeys} {now : DateTime} {limit : Nat}
    {cs : Nat → Circumstances} (hlimit : 1 ≤ limit) :
    (∃ due left, serve (fetchDueRecurringJobs now limit) cs keys = some (due, left) ∧
      Complete keys.rows now limit due) ↔
    ((∃ r, keys.rows.get? r.id = some r ∧ Templates.isDue now r = true) →
      ∃ r, keys.rows.get? r.id = some r ∧ Templates.isDue now r = true ∧
        keys.Reached now limit cs r.id) ∧
    (keys.rows.values.length ≤ limit → ∀ r, keys.rows.get? r.id = some r →
      Templates.isDue now r = true → keys.Reached now limit cs r.id) := by
  obtain ⟨left, hserve⟩ : ∃ left, serve (fetchDueRecurringJobs now limit) cs keys =
      some ((keys.picks now (keys.tries now (fun n => cs (n + 1))
        (keys.candidates now limit))).take limit, left) := serve_fetch hlimit
  have hids : ((keys.tries now (fun n => cs (n + 1)) (keys.candidates now limit)).map
      Prod.fst).Nodup := by
    rw [tries_ids]
    exact candidates_nodup ..
  have hcomplete : (∃ due left, serve (fetchDueRecurringJobs now limit) cs keys = some (due, left) ∧
      Complete keys.rows now limit due) ↔ Complete keys.rows now limit ((keys.picks now
        (keys.tries now (fun n => cs (n + 1)) (keys.candidates now limit))).take limit) :=
    ⟨fun ⟨_, _, h, hc⟩ => by
      cases hserve.symm.trans h
      exact hc, fun h => ⟨_, left, hserve, h⟩⟩
  rw [hcomplete]
  refine and_congr (imp_congr_right fun _ => ?_) (forall_congr' fun hroom =>
    forall_congr' fun r => ?_)
  · rw [ne_eq, List.take_eq_nil_iff, not_or, List.eq_nil_iff_forall_not_mem, not_forall_not]
    simp only [mem_picks, Reached]
    exact ⟨fun h => h.2, fun h => ⟨by omega, h⟩⟩
  · rw [List.take_of_length_le ((picks_length hids).trans hroom), mem_picks]
    exact ⟨fun h hr hdue => (h hr hdue).2.2, fun h hr hdue => ⟨hr, hdue, h hr hdue⟩⟩

end RecurringKeys

namespace RedisStorage.RecurringSite
variable {cron : Cron} {s t : RecurringSite} {e : Event} {id : String}
  {tr : List (Step RecurringSite Event)}

/-- The server's time of a step that takes the claim key of a template. -/
def takes (id : String) (x : Step RecurringSite Event) : Option DateTime :=
  match x.label with
  | .step i c =>
    match x.before.tasks[i]? with
    | some ⟨_, .call (.setNxEx60 id') _, _, true⟩ =>
      if id' = id ∧ x.before.state.claimed id c.server = false then some c.server else none
    | _ => none
  | _ => none

/-- No poller has taken the claim key in the minute before. -/
def Unclaimed (tr : List (Step RecurringSite Event)) (id : String) (t : DateTime) : Prop :=
  ∀ taken ∈ (tr.filterMap (takes id)).getLast?, taken + Duration.seconds 60 < t

/-- What one step does to a claim key. -/
theorem claims_next (hnext : Next cron s e t) : t.state.claims.get? id =
    ((takes id ⟨s, e, t⟩).map (· + Duration.seconds 60)).or (s.state.claims.get? id) := by
  cases Crew.Site.next_moves hnext with
  | spawned | aborted => rfl
  | entered hother => cases hother
  | @called i c task ρ cmd k reply keys htask halive hprogram hperform =>
    obtain ⟨duty, program, notes, alive⟩ := task
    cases hprogram
    cases halive
    obtain rfl : (cmd.perform c s.state).2 = keys := congrArg Prod.snd hperform
    simp only [takes, htask]
    cases cmd with
    | setNxEx60 id' =>
      simp only [perform_setNxEx60]
      by_cases hid : id' = id
      · subst hid
        cases hclaimed : s.state.claimed id' c.server <;> simp
      · cases hclaimed : s.state.claimed id' c.server <;> simp [hid, Ne.symm hid]
    | zrangebyscoreLimit max count => cases count <;> rfl
    | _ => rfl

/-- A claim key stands for the last step that took it. -/
theorem claims_run {templates : List RecurringJob}
    (hr : Run (Next cron) (idle (.stored templates)) tr s) : s.state.claims.get? id =
      (tr.filterMap (takes id)).getLast?.map (· + Duration.seconds 60) := by
  refine hr.invariant (fun tr s => s.state.claims.get? id =
    (tr.filterMap (takes id)).getLast?.map (· + Duration.seconds 60)) ?_ ?_
  · have hnone : (RecurringKeys.stored templates).claims = .empty := by
      rw [RecurringKeys.stored]
      exact List.foldlRecOn (motive := fun keys : RecurringKeys => keys.claims = .empty) _ _ rfl
        fun _ h _ _ => h
    simp [idle, hnone]
  · intro tr s e t _ ih hnext
    rw [claims_next hnext, ih, List.filterMap_append, List.getLast?_append, Option.map_or]
    cases htakes : takes id ⟨s, e, t⟩ <;> simp [htakes]

theorem unclaimed_iff {templates : List RecurringJob} {server : DateTime}
    (hr : Run (Next cron) (idle (.stored templates)) tr s) :
    s.state.claimed id server = false ↔ Unclaimed tr id server := by
  rw [RecurringKeys.claimed, claims_run hr, Unclaimed]
  cases (tr.filterMap (takes id)).getLast? <;> simp

/-- The fetch gets to the template when nobody has its claim key. -/
def Reaches (tr : List (Step RecurringSite Event)) (s : RecurringSite) (now : DateTime)
    (limit : Nat) (cs : Nat → Circumstances) (id : String) : Prop :=
  ∃ t, (id, t) ∈ s.state.tries now (fun n => cs (n + 1)) (s.state.candidates now limit) ∧
    Unclaimed tr id t

/-- After any run of any number of pollers, a fetch is complete exactly when it
tries a due template that nobody has claimed in the minute before, if one is due,
and tries all due templates so, if the limit leaves room for all templates. -/
theorem redis_fetch_complete {templates : List RecurringJob} {now : DateTime} {limit : Nat}
    {cs : Nat → Circumstances} (hr : Run (Next cron) (idle (.stored templates)) tr s)
    (hlimit : 1 ≤ limit) :
    (∃ due left, serve (fetchDueRecurringJobs now limit) cs s.state = some (due, left) ∧
      Complete s.state.rows now limit due) ↔
    ((∃ r, s.state.rows.get? r.id = some r ∧ Templates.isDue now r = true) →
      ∃ r, s.state.rows.get? r.id = some r ∧ Templates.isDue now r = true ∧
        Reaches tr s now limit cs r.id) ∧
    (s.state.rows.values.length ≤ limit → ∀ r, s.state.rows.get? r.id = some r →
      Templates.isDue now r = true → Reaches tr s now limit cs r.id) := by
  have hreached : ∀ id, s.state.Reached now limit cs id ↔ Reaches tr s now limit cs id := fun id =>
    exists_congr fun t => and_congr_right fun _ => unclaimed_iff hr
  simp only [RecurringKeys.fetch_complete hlimit, hreached]

/-- One poller ticks at noon, from start to end. -/
def oneTick : List Event :=
  [.spawn (.poller 256 1)] ++ Event.steps 0 11 1767268800000000000

/-- The time of a fetch so many seconds later. -/
def later (seconds : Int) (_ : Nat) : Circumstances :=
  let t : DateTime := 1767268800000000000 + Duration.seconds seconds
  ⟨t, t, "job", .ok ()⟩

theorem redis_fetch_complete_oneTick : ∃ tr s,
    Run (Next .everySecond) (idle atNoon) tr s ∧ s.quiet = true ∧
    ((∃ due left, serve (fetchDueRecurringJobs (later 61 0).now 1) (later 61) s.state =
        some (due, left) ∧ Complete s.state.rows (later 61 0).now 1 due) ↔
      ((∃ r, s.state.rows.get? r.id = some r ∧ Templates.isDue (later 61 0).now r = true) →
        ∃ r, s.state.rows.get? r.id = some r ∧ Templates.isDue (later 61 0).now r = true ∧
          Reaches tr s (later 61 0).now 1 (later 61) r.id) ∧
      (s.state.rows.values.length ≤ 1 → ∀ r, s.state.rows.get? r.id = some r →
        Templates.isDue (later 61 0).now r = true →
        Reaches tr s (later 61 0).now 1 (later 61) r.id)) := by
  obtain ⟨s, hr⟩ := replay_run (next .everySecond) (idle atNoon) oneTick
  refine ⟨_, s, hr, ?_, redis_fetch_complete hr (by decide)⟩
  rw [hr.eq_last]
  decide +kernel

/-- The template is due again two seconds after the tick, and nobody is at work
on it; but its claim key lives for a minute. -/
theorem redis_fetch_misses_due : ∃ tr s,
    Run (Next .everySecond) (idle atNoon) tr s ∧ s.quiet = true ∧
    ¬ ∃ due left, serve (fetchDueRecurringJobs (later 2 0).now 1) (later 2) s.state =
      some (due, left) ∧ Complete s.state.rows (later 2 0).now 1 due := by
  obtain ⟨s, hr⟩ := replay_run (next .everySecond) (idle atNoon) oneTick
  refine ⟨_, s, hr, ?_, ?_⟩
  · rw [hr.eq_last]
    decide +kernel
  · rintro ⟨due, left, hserve, hsome, -⟩
    have hnothing : (serve (fetchDueRecurringJobs (later 2 0).now 1) (later 2) s.state).map
        (fun p => p.1.length) = some 0 := by
      rw [hr.eq_last]
      decide +kernel
    have hdue : (s.state.rows.get? "tick").any (Templates.isDue (later 2 0).now) = true := by
      rw [hr.eq_last]
      decide +kernel
    rw [hserve, Option.map_some, Option.some.injEq, List.length_eq_zero_iff] at hnothing
    obtain ⟨r, hrow, hisDue⟩ := (Option.any_eq_true ..).mp hdue
    exact hsome ⟨r, Templates.id_of_get? hrow ▸ hrow, hisDue⟩ hnothing

end RedisStorage.RecurringSite
end Qml
