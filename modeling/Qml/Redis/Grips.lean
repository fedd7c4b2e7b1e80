import Qml.Recurring.Duties
import Qml.Redis.Templates

namespace Qml
open Lib

/-- What a task has a grip on: the template whose claim key it has just set, the one it has just
read, and those it has parked and not yet written back; and whether the job of the first of these
is enqueued. Bookkeeping for the proofs, computed from the commands it sends. -/
structure Grips where
  trying : Option String
  read : Option RecurringJob
  pending : List RecurringJob
  fired : Bool

namespace Grips

def none : Grips := ⟨.none, .none, [], false⟩

def after (grips : Grips) : {ρ : Type} → RecurringCmd ρ → ρ → Grips
  | _, .zrangebyscoreLimit .., _ => { grips with read := .none, fired := false }
  | _, .setNxEx60 id, true => { grips with trying := some id, read := .none }
  | _, .get _, found => { grips with trying := .none, read := found }
  | _, .zadd .., _ =>
    { grips with read := .none, pending := grips.pending ++ grips.read.toList }
  | _, .enqueue _, _ => { grips with read := .none, fired := true }
  | _, .set _, _ =>
    { grips with read := .none, pending := grips.pending.tail, fired := false }
  | _, _, _ => { grips with read := .none }

end Grips

/-- A grip on one template: on its claim key only, or on a copy of it. -/
inductive Grip
  | key
  | copy (r : RecurringJob) (fired : Bool)

/-- Whether the job of the copy is enqueued. -/
def Grip.isFired : Grip → Bool
  | .copy _ fired => fired
  | .key => false

/-- The copies of one template; only that of the first one can be enqueued. -/
def copies (id : String) : List RecurringJob → Bool → List Grip
  | [], _ => []
  | r :: rest, fired =>
    if r.id = id then .copy r fired :: copies id rest false else copies id rest false

namespace RedisStorage

/-- The tasks at work on the keys, with notes of their grips. -/
abbrev keyCrew : Crew RecurringCmd Grips where
  State := RecurringKeys
  Draw := Circumstances
  Other := Empty
  perform := fun c keys cmd => cmd.perform c keys
  other := fun _ _ => none
  blank := .none
  after := Grips.after

/-- A task that works on the templates, command by command. -/
abbrev KeyTask : Type 1 := Crew.Task RecurringCmd Duty Duty.Answer Grips

/-- The commands that carry out the calls of a duty. -/
def commands (cron : Cron) (duty : Duty) : Prog RecurringCmd Duty.Answer :=
  (duty.program cron).translate carry

/-- The copy that is about to be parked. -/
def KeyTask.reading (task : KeyTask) (id : String) : List Grip :=
  match task.program, task.notes.read with
  | .call (.zadd ..) _, some r => if r.id = id then [.copy r false] else []
  | _, _ => []

/-- The grips of a task on one template; a dropped task keeps one only where it has enqueued the
job and not written the template back. -/
def KeyTask.held (task : KeyTask) (id : String) : List Grip :=
  if task.alive then
    (if task.notes.trying = some id then [.key] else []) ++
      copies id task.notes.pending task.notes.fired ++ task.reading id
  else (copies id task.notes.pending task.notes.fired).filter Grip.isFired

/-- The keys of the templates, and the tasks. -/
abbrev RecurringSite : Type 1 := Crew.Site keyCrew Duty Duty.Answer

namespace RecurringSite

def idle (keys : RecurringKeys) : RecurringSite := ⟨keys, []⟩

abbrev Event : Type := Crew.Event keyCrew Duty

abbrev next (cron : Cron) (s : RecurringSite) (e : Event) : Option RecurringSite :=
  Crew.Site.next (commands cron) s e

abbrev Next (cron : Cron) (s : RecurringSite) (e : Event) (t : RecurringSite) : Prop :=
  s.next cron e = some t

/-- All grips on one template. -/
def holds (s : RecurringSite) (id : String) : List Grip := Crew.Site.held (KeyTask.held · id) s

/-- No task is in the middle of its work. -/
def quiet (s : RecurringSite) : Bool :=
  s.tasks.all fun task =>
    match task.program with
    | .pure _ => true
    | .call .. => false

/-- A template that is due every second, stored at noon. -/
def atNoon : RecurringKeys :=
  let noon : DateTime := 1767268800000000000
  .stored [⟨"tick", "* * * * * *", "tick", .null, "default", noon, none, noon, noon, true⟩]

/-- A poller at work for so many commands, by one clock for it and the server. -/
def Event.steps (i n : Nat) (now : DateTime) : List Event :=
  List.replicate n (.step i ⟨now, now, "job", .ok ()⟩)

end RecurringSite

/-- The commands that a task may send, given its grips. -/
inductive Sends (duty : Duty) (grips : Grips) : {ρ : Type} → RecurringCmd ρ → Prop
  | now : Sends duty grips .now
  | newId : Sends duty grips .newId
  | look (max : Int) (count : Option Nat) (hpending : grips.pending = []) :
      Sends duty grips (.zrangebyscoreLimit max count)
  | claim (id : String) (htrying : grips.trying = none) : Sends duty grips (.setNxEx60 id)
  | read (id : String) (htrying : grips.trying = some id) : Sends duty grips (.get id)
  | park {r : RecurringJob} (score : Int) (hread : grips.read = some r)
      (henabled : r.enabled = true) (hfired : grips.fired = false) :
      Sends duty grips (.zadd r.id score)
  | index (id : String) (score : Int) (hread : grips.read = none) :
      Sends duty grips (.zadd id score)
  | enqueue {r : RecurringJob} {rest : List RecurringJob} (job : Job)
      (hpending : grips.pending = r :: rest) (hfired : grips.fired = false)
      (henabled : r.enabled = true) (hasked : r.asksFor job) : Sends duty grips (.enqueue job)
  | save {r r' : RecurringJob} {rest : List RecurringJob} (hpending : grips.pending = r :: rest)
      (henabled : r.enabled = true) (hid : r'.id = r.id)
      (hlater : r'.enabled = true → r.nextRunAt < r'.nextRunAt) : Sends duty grips (.set r')
  | schedule {r : RecurringJob} {expr method queue : String} {payload : JsonValue}
      (hduty : duty = .scheduleRecurring r.id expr method payload queue)
      (hpending : grips.pending = []) : Sends duty grips (.set r)
  | remove (id : String) : Sends duty grips (.del id)
  | unindex (id : String) : Sends duty grips (.zrem id)

/-- A row is found under its own identifier. -/
def Found : {ρ : Type} → RecurringCmd ρ → ρ → Prop
  | _, .get id, some r => r.id = id
  | _, _, _ => True

/-- The order of commands that a duty keeps to. -/
def Order (duty : Duty) : Contract RecurringCmd Grips where
  may grips _ cmd := Sends duty grips cmd
  step grips _ cmd reply grips' := Found cmd reply ∧ grips' = grips.after cmd reply

section
variable {cron : Cron} {duty : Duty} {grips : Grips} {claims : Claims} {α ρ : Type}
  {Q : α → Grips → Prop}

theorem wp_order {cmd : RecurringCmd ρ} {k : ρ → Prog RecurringCmd α} :
    Prog.wp (Order duty) Q (.call cmd k) grips ↔ Sends duty grips cmd ∧
      ∀ reply, Found cmd reply → Prog.wp (Order duty) Q (k reply) (grips.after cmd reply) := by
  rw [Prog.wp_call]
  exact ⟨fun h => ⟨h.1, fun reply hfound => h.2 reply _ ⟨hfound, rfl⟩⟩,
    fun h => ⟨h.1, fun r t hstep => hstep.2 ▸ h.2 r hstep.1⟩⟩

/-- Between two calls, a task has a grip on what it has claimed, and that is due. -/
structure Agree (claims : Claims) (grips : Grips) : Prop where
  trying : grips.trying = none
  pending : grips.pending = claims.pending
  fired : grips.fired = claims.fired
  due : ∀ r ∈ claims.pending, Templates.isDue claims.now r = true

theorem claimDue_sends {now : DateTime} {limit : Nat} {parkMs : Int} {ids : List String}
    {claimed : List RecurringJob} (htrying : grips.trying = none)
    (hpending : grips.pending = claimed) (hfired : grips.fired = false)
    (hdue : ∀ r ∈ claimed, Templates.isDue now r = true) :
    Prog.wp (Order duty) (fun due grips => Agree ⟨now, due, false⟩ grips)
      (claimDue now limit parkMs ids claimed) grips := by
  induction ids generalizing grips claimed with
  | nil => exact ⟨htrying, hpending, hfired, hdue⟩
  | cons id ids ih =>
    simp only [claimDue, Prog.ask_bind]
    refine wp_order.mpr ⟨.claim id htrying, fun set _ => ?_⟩
    cases set with
    | false => exact ih htrying hpending hfired hdue
    | true =>
      refine wp_order.mpr ⟨.read id rfl, fun found hfound => ?_⟩
      cases found with
      | none => exact ih rfl hpending hfired hdue
      | some r =>
        obtain rfl : r.id = id := hfound
        simp only
        split
        · exact ih rfl hpending hfired hdue
        · rename_i hnot
          have hnow : Templates.isDue now r = true := by
            simpa [Templates.isDue] using hnot
          have henabled : r.enabled = true := (Bool.and_eq_true_iff.mp hnow).1
          have hall : ∀ r' ∈ claimed ++ [r], Templates.isDue now r' = true := by
            intro r' hr'
            rcases List.mem_append.mp hr' with hr' | hr'
            · exact hdue r' hr'
            · rw [List.mem_singleton.mp hr']
              exact hnow
          have hparked : grips.pending ++ [r] = claimed ++ [r] := by rw [hpending]
          refine wp_order.mpr ⟨.park parkMs rfl henabled hfired, fun _ _ => ?_⟩
          split
          · exact ⟨rfl, hparked, hfired, hall⟩
          · exact ih rfl hparked hfired hall

/-- The commands of each call keep to the order. -/
theorem carry_sends {call : RecurringCall ρ} (hagree : Agree claims grips)
    (hpermits : Permits cron duty claims call) :
    Prog.wp (Order duty) (fun reply grips => ∃ claims', (Rules cron duty).step claims call reply
      claims' ∧ Agree claims' grips) (carry call) grips := by
  obtain ⟨htrying, hpending, hfired, hdue⟩ := hagree
  cases hpermits with
  | now => exact wp_order.mpr ⟨.now, fun _ _ => ⟨_, rfl, htrying, hpending, hfired, hdue⟩⟩
  | newId => exact wp_order.mpr ⟨.newId, fun _ _ => ⟨_, rfl, htrying, hpending, hfired, hdue⟩⟩
  | fetch now limit _ hnone =>
    have hnone : grips.pending = [] := hpending.trans hnone
    refine wp_order.mpr ⟨.look _ _ hnone, fun ids _ => (Prog.wp_bind ..).mpr ?_⟩
    have hdue : ∀ r ∈ ([] : List RecurringJob), Templates.isDue now r = true := by simp
    refine Prog.wp_mono ?_ (claimDue_sends htrying hnone rfl hdue)
    intro due grips' hagree
    exact ⟨_, rfl, hagree⟩
  | @enqueue _ _ r rest job _ hpend hnot hasked =>
    have henabled : r.enabled = true :=
      (Bool.and_eq_true_iff.mp (hdue r (hpend ▸ List.mem_cons_self))).1
    refine wp_order.mpr
      ⟨.enqueue job (hpending.trans hpend) (hfired.trans hnot) henabled hasked, ?_⟩
    intro _ _
    exact ⟨_, rfl, htrying, hpending, rfl, hdue⟩
  | @save _ _ r r' rest _ hpend hsaved =>
    obtain ⟨henabled, hnow⟩ := Bool.and_eq_true_iff.mp (hdue r (hpend ▸ List.mem_cons_self))
    have hlater : r'.enabled = true → r.nextRunAt < r'.nextRunAt := fun hstill =>
      lt_of_le_of_lt (of_decide_eq_true hnow) (hsaved.later hstill)
    refine wp_order.mpr ⟨.save (hpending.trans hpend) henabled hsaved.id_eq hlater, fun _ _ =>
      wp_order.mpr ⟨.index _ _ rfl, fun _ _ => ⟨_, rfl, htrying, ?_, rfl, ?_⟩⟩⟩
    · simp [Grips.after, Claims.after, hpending]
    · intro r'' hr''
      exact hdue r'' (List.mem_of_mem_tail hr'')
  | @schedule id expr method queue payload start now r hduty hnew hnone =>
    have hid : r.id = id := (RecurringJob.of_new hnew).1.symm
    refine wp_order.mpr ⟨.schedule (hid ▸ hduty) (hpending.trans hnone), fun _ _ =>
      wp_order.mpr ⟨.index _ _ rfl, fun _ _ => ⟨_, rfl, htrying, ?_, rfl, ?_⟩⟩⟩
    · simp [Grips.after, Claims.after, hpending]
    · intro r'' hr''
      exact hdue r'' (List.mem_of_mem_tail hr'')
  | remove =>
    refine wp_order.mpr ⟨.remove _, fun _ _ => wp_order.mpr ⟨.unindex _, fun _ _ => ?_⟩⟩
    exact ⟨_, rfl, htrying, hpending, hfired, hdue⟩

/-- Every duty keeps to the order of commands. -/
theorem commands_sends (cron : Cron) (duty : Duty) :
    Prog.wp (Order duty) (fun _ _ => True) (commands cron duty) .none :=
  Prog.wp_translate Agree carry_sends (fun _ _ _ _ _ => trivial)
    ⟨rfl, rfl, rfl, fun _ h => by cases h⟩ (duty.permitted cron)

end

theorem perform_found {ρ : Type} {cmd : RecurringCmd ρ} {c : Circumstances}
    {keys keys' : RecurringKeys} {reply : ρ} (h : cmd.perform c keys = (reply, keys')) :
    Found cmd reply := by
  cases cmd with
  | get id =>
    cases h
    cases hrow : keys.rows.get? id with
    | none => trivial
    | some r => exact keys.rows.keyed hrow
  | now | newId | enqueue | zrangebyscoreLimit | setNxEx60 | set | del | zadd | zrem => trivial

end RedisStorage
end Qml
