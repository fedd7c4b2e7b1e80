import Qml.Redis.Sending

namespace Qml
open Lib RedisStorage

/-- The commands that a recovery sweep sends with a copy in hand. -/
def Cmd.inHand : Cmd ρ → Bool
  | .now | .update .. => true
  | _ => false

/-- The commands that a recovery sweep sends. -/
def Cmd.ofSweep : Cmd ρ → Bool
  | .smembers .. | .get .. | .now | .update .. => true
  | _ => false

/-- The copy that a recovery sweep has read and is about to write back. -/
def Client.holds (client : Client) : Option (String × Job) :=
  match client.operation.loses, client.stage, client.program with
  | some _, .read id job, .call cmd _ => if cmd.inHand then some (id, job) else none
  | _, _, _ => none

/-- Whether a command stores a job under the identifier in another state than
the given one. -/
def Cmd.overwrites (db : Db) (id : String) (state : JobState) : Cmd ρ → Bool
  | .set id' blob => decide (id' = id) && !decide (blob.job.state = state)
  | .update job _ _ =>
    decide (job.id = id) && (db.get id).isSome && !decide (job.state = state)
  | .updateIfState job expected _ _ =>
    decide (job.id = id) && (db.get id).any (fun blob => decide (blob.job.state.name = expected)) &&
      !decide (job.state = state)
  | _ => false

/-- The copy in hand after a command: a copy is read and, at most a reading of
the clock later, written back. -/
def handAfter (hand : Option (String × Job)) : {ρ : Type} → Cmd ρ → ρ → Option (String × Job)
  | _, .get id, some blob => some (id, blob.job)
  | _, .now, _ => hand
  | _, _, _ => none

/-- A sweep: a program that reads a copy before each write. -/
abbrev Hands {α : Type} (p : Prog Cmd α) (hand : Option (String × Job)) : Prop :=
  p.wp ⟨fun hand _ cmd => cmd.ofSweep = true ∧ (cmd.inHand = true → hand.isSome),
    fun hand _ cmd reply hand' => hand' = handAfter hand cmd reply⟩ (fun _ _ => True) hand

namespace Traffic

/-- Whether a command stores a job in a new state while another client, at a
recovery sweep, is about to write back the copy it has read. -/
def interferes (s : Traffic) : Event → Bool
  | .start _ => false
  | .step i _ =>
    match s.clients[i]? with
    | some ⟨_, .call cmd _, _⟩ =>
      (List.range s.clients.length).any fun j => !decide (j = i) &&
        ((s.clients[j]?).bind Client.holds).any fun held =>
          cmd.overwrites s.db held.1 held.2.state
    | _ => false

/-- A recovery sweep writes a job back to `Enqueued` only if it is still in the
state that was examined; a job that has an outcome keeps it, with all its fields. -/
def LosesNoOutcome (x : Step Traffic Event) : Prop :=
  ∀ (i : Nat) (moment : Moment) (client : Client) (lost : JobState → Bool),
    x.label = .step i moment → x.before.clients[i]? = some client →
    client.operation.loses = some lost →
    (∀ id old new, x.before.db.get id = some old → x.after.db.get id = some new → new ≠ old →
      ∃ job, client.stage = .read id job ∧ lost job.state = true ∧ new.job.state.kind = .enqueued ∧
        old.job.state = job.state) ∧
    ∀ id old, x.before.db.get id = some old → (old.job.state.kind = .succeeded ∨
      old.job.state.kind = .failed ∨ old.job.state.kind = .awaitingRetry) →
      x.after.db.get id = some old

/-- Every copy that a sweep is about to write back is of a job that is stored
in the state of the copy, or no longer stored. -/
structure Held (codec : Codec) (s : Traffic) : Prop where
  orderly : s.Orderly codec
  hands : ∀ (i : Nat) (client : Client) (lost : JobState → Bool), s.clients[i]? = some client →
    client.operation.loses = some lost → ∃ hand, Hands client.program hand
  named : ∀ (i : Nat) (client : Client) (id : String) (job : Job), s.clients[i]? = some client →
    client.stage = .read id job → job.id = id
  current : ∀ (i : Nat) (client : Client) (id : String) (job : Job), s.clients[i]? = some client →
    client.holds = some (id, job) → ∀ blob, s.db.get id = some blob → blob.job.state = job.state

end Traffic

section
variable {codec : Codec} {db db' : Db} {id : String} {operation : Operation} {stage : Stage}
  {ρ : Type} {cmd : Cmd ρ} {reply : ρ} {moment : Moment} {state : JobState}

theorem Operation.lost_kind {lost : JobState → Bool} (hop : operation.loses = some lost)
    (h : lost state = true) : state.kind = .processing := by
  cases operation <;> cases hop
  all_goals cases state <;> first | rfl | cases h

/-- A command that does not overwrite a job being processed leaves its state. -/
theorem Sent.keeps_state (hsent : Sent codec operation stage cmd) (hnamed : db.Named)
    (h : cmd.perform codec moment db = (reply, db')) (hkind : state.kind = .processing)
    (hno : cmd.overwrites db id state = false)
    (hstate : ∀ blob, db.get id = some blob → blob.job.state = state) :
    ∀ blob, db'.get id = some blob → blob.job.state = state := by
  have hupdate : ∀ {job : Job} {x : Option ℚ} {reply : Reply},
      updateScript codec db job (stateToString job.state) x = (reply, db') →
      Cmd.overwrites db id state (.update job (stateToString job.state) x) = false →
      ∀ blob, db'.get id = some blob → blob.job.state = state := by
    intro job x reply h hno blob hblob
    rcases updateScript_get hnamed h id with hsame | ⟨rfl, hsome, hget⟩
    · exact hstate blob (hsame ▸ hblob)
    · cases hget.symm.trans hblob
      rw [codec.serialize_job]
      simpa [Cmd.overwrites, hsome] using hno
  cases hsent with
  | now | get | smembers | sadd | srem | zadd | zrem | hincrby =>
    cases h
    exact hstate
  | del gone =>
    cases h
    intro blob hblob
    rw [Db.get_del] at hblob
    split at hblob
    · cases hblob
    · exact hstate blob hblob
  | @set job hop =>
    cases h
    intro blob hblob
    rw [Db.get_set] at hblob
    split at hblob
    · cases hblob
      subst id
      simpa [Cmd.overwrites] using hno
    · exact hstate blob hblob
  | update now hop => exact hupdate h hno
  | requeue t now hop hlost hread hback => exact hupdate h hno
  | @updateIfState job expected now hop =>
    intro blob hblob
    rcases updateIfStateScript_cases hnamed h with ⟨-, rfl⟩ | ⟨old, -, hold, rfl, rfl⟩
    · exact hstate blob hblob
    · rw [get_rewrite] at hblob
      split at hblob
      · cases hblob
        subst id
        rw [codec.serialize_job]
        simpa [Cmd.overwrites, hold, JobState.name] using hno
      · exact hstate blob hblob
  | claimDue htimed t limit =>
    intro blob hblob
    rcases claimDueScript_get hnamed htimed (smembers_nodup moment.order _) h id with
      hsame | ⟨old, new, hold, -, hk, -, -⟩
    · exact hstate blob (hsame ▸ hblob)
    · rw [hstate old hold, hkind] at hk
      rcases htimed.kind_cases with hk' | hk' <;> simp [← hk] at hk'
  | fetch workerId t candidates =>
    intro blob hblob
    rcases fetchScript_get hnamed h id with hsame | ⟨old, new, hold, -, hk, -, -⟩
    · exact hstate blob (hsame ▸ hblob)
    · rw [hstate old hold, hkind] at hk
      rcases hk with hk | hk <;> cases hk

theorem hands_call {α : Type} {k : ρ → Prog Cmd α} {hand : Option (String × Job)} :
    Hands (.call cmd k) hand ↔ (cmd.ofSweep = true ∧ (cmd.inHand = true → hand.isSome)) ∧
      ∀ reply, Hands (k reply) (handAfter hand cmd reply) := by
  rw [Hands, Prog.wp_call]
  exact ⟨fun h => ⟨h.1, fun reply => h.2 reply _ rfl⟩, fun h => ⟨h.1, fun r t he => he ▸ h.2 r⟩⟩

theorem recover_hands {lost : JobState → Bool} {ids : List String} {recovered : Nat}
    {hand : Option (String × Job)} : Hands (recover lost ids recovered) hand := by
  induction ids generalizing hand recovered with
  | nil => trivial
  | cons id ids ih =>
    simp only [recover, RedisStorage.get, Prog.ask_bind, Prog.call_bind]
    refine hands_call.mpr ⟨⟨rfl, fun h => (by cases h)⟩, fun reply => ?_⟩
    cases reply with
    | none => exact ih
    | some blob =>
      cases hread : blob.readable with
      | false =>
        simp only [Prog.monad_pure, Prog.pure_bind, parse, hread]
        trivial
      | true =>
        simp only [Prog.monad_pure, Prog.pure_bind, parse, hread, if_true, Except.map]
        cases lost blob.job.state with
        | false => exact ih
        | true =>
          simp only [if_true, Prog.call_bind, RedisStorage.update, Prog.ask_bind]
          refine hands_call.mpr ⟨⟨rfl, fun _ => rfl⟩, fun t => hands_call.mpr
            ⟨⟨rfl, fun _ => rfl⟩, fun now => hands_call.mpr ⟨⟨rfl, fun _ => rfl⟩, fun reply => ?_⟩⟩⟩
          cases reply with
          | ok => exact ih
          | missing | mismatch => trivial

theorem Operation.hands {lost : JobState → Bool} (codec : Codec)
    (hop : operation.loses = some lost) : Hands (operation.program codec) none := by
  cases operation with
  | requeueStrandedJobs t =>
    refine hands_call.mpr ⟨⟨rfl, fun h => (by cases h)⟩, fun ids => ?_⟩
    exact (Prog.wp_bind ..).mpr (Prog.wp_mono (fun _ _ _ => trivial) recover_hands)
  | reclaimJobsFromServer serverId =>
    refine hands_call.mpr ⟨⟨rfl, fun h => (by cases h)⟩, fun ids => ?_⟩
    exact (Prog.wp_bind ..).mpr (Prog.wp_mono (fun _ _ _ => trivial) recover_hands)
  | _ => cases hop

/-- The only command of a sweep that changes a blob is the write of its copy. -/
theorem Sent.requeues {lost : JobState → Bool} {old : Blob}
    (hsent : Sent codec operation stage cmd) (hop : operation.loses = some lost)
    (hsweep : cmd.ofSweep = true) (hnamed : db.Named)
    (h : cmd.perform codec moment db = (reply, db')) (hold : db.get id = some old)
    (hne : db'.get id ≠ some old) : cmd.inHand = true ∧
      ∃ id' job new, stage = .read id' job ∧ lost job.state = true ∧ job.id = id ∧
        db'.get id = some new ∧ new.job.state.kind = .enqueued := by
  cases hsent with
  | now | get | smembers =>
    cases h
    exact absurd hold hne
  | update now hop' =>
    rw [hop'] at hop
    cases hop
  | @requeue id' job back lost' t now hop' hlost hread hback =>
    cases hop.symm.trans hop'
    subst hback
    rcases updateScript_get hnamed h id with hsame | ⟨rfl, -, hget⟩
    · exact absurd (hsame.trans hold) hne
    · exact ⟨rfl, id', job, _, hread, hlost, rfl, hget, by rw [codec.serialize_job]; rfl⟩
  | _ => cases hsweep

/-- A copy is in hand after a command if it was before a reading of the clock,
or if the command has just read it. -/
theorem handAfter_some {hand : Option (String × Job)}
    (h : cmd.perform codec moment db = (reply, db'))
    (hsome : (handAfter hand cmd reply).isSome) : db' = db ∧
      (cmd.inHand = true ∧ stage.after cmd reply = stage ∨
        ∃ id blob, stage.after cmd reply = .read id blob.job ∧ db.get id = some blob) := by
  cases cmd
  case now =>
    cases h
    exact ⟨rfl, .inl ⟨rfl, rfl⟩⟩
  case get id =>
    cases h
    cases hget : db.get id with
    | none =>
      rw [hget] at hsome
      cases hsome
    | some blob => exact ⟨rfl, .inr ⟨id, blob, rfl, hget⟩⟩
  all_goals cases hsome

theorem Client.holds_some {client : Client} {job : Job} (h : client.holds = some (id, job)) :
    client.stage = .read id job ∧ ∃ lost ρ, ∃ (cmd : Cmd ρ) (k : ρ → Prog Cmd Unit),
      client.operation.loses = some lost ∧ client.program = .call cmd k ∧ cmd.inHand = true := by
  unfold Client.holds at h
  split at h
  · rename_i lost id' job' ρ cmd k hop hstage hprogram
    split at h
    · cases h
      exact ⟨hstage, lost, ρ, cmd, k, hop, hprogram, ‹_›⟩
    · cases h
  · cases h

theorem Sent.lost {lost : JobState → Bool} (hsent : Sent codec operation stage cmd)
    (hop : operation.loses = some lost) (h : cmd.inHand = true) :
    ∃ id job, stage = .read id job ∧ lost job.state = true := by
  cases hsent with
  | now hread => exact hread lost hop
  | update now hop' =>
    rw [hop'] at hop
    cases hop
  | requeue t now hop' hlost hread hback =>
    cases hop.symm.trans hop'
    exact ⟨_, _, hread, hlost⟩
  | _ => cases h

end

namespace Traffic
variable {codec : Codec} {s t : Traffic} {e : Event} {i : Nat} {client : Client} {id : String}
  {job : Job}

/-- A copy about to be written back was found lost. -/
theorem Orderly.holds_lost (h : Orderly codec s) (hclient : s.clients[i]? = some client)
    (hholds : client.holds = some (id, job)) : job.state.kind = .processing := by
  obtain ⟨hstage, lost, ρ, cmd, k, hop, hprogram, hhand⟩ := Client.holds_some hholds
  obtain ⟨id', job', hread, hlost⟩ := (h.sent hclient hprogram).1.lost hop hhand
  cases hstage.symm.trans hread
  exact Operation.lost_kind hop hlost

/-- A read copy is of the job that was asked for. -/
theorem Stage.after_read {ρ : Type} {cmd : Cmd ρ} {reply : ρ} {moment : Moment} {db db' : Db}
    {stage : Stage} (hnamed : db.Named) (h : cmd.perform codec moment db = (reply, db'))
    (hafter : stage.after cmd reply = .read id job) :
    stage = .read id job ∨ job.id = id ∧ ∃ blob, db'.get id = some blob ∧ blob.job = job := by
  cases cmd
  case get id' =>
    cases h
    cases hget : db.get id' with
    | none =>
      simp only [Stage.after, hget] at hafter
      cases hafter
    | some blob =>
      simp only [Stage.after, hget] at hafter
      cases hafter
      exact .inr ⟨hnamed _ _ hget, blob, hget, rfl⟩
  case del =>
    cases stage <;> simp only [Stage.after, Stage.deleted] at hafter
    case read => split at hafter <;> cases hafter
    all_goals cases hafter
  case srem | zrem | hincrby =>
    cases stage <;> simp only [Stage.after, Stage.removed] at hafter
    case erased => split at hafter <;> cases hafter
    all_goals cases hafter
  all_goals exact .inl hafter

theorem Held.started (h : Held codec s) (operation : Operation) :
    Held codec { s with clients := s.clients ++ [operation.client codec] } where
  orderly := h.orderly.next (e := .start operation) rfl
  hands j other lost hj hop := by
    rcases join_cases hj with ⟨-, rfl⟩ | hj
    · exact ⟨none, operation.hands codec hop⟩
    · exact h.hands j other lost hj hop
  named j other id job hj hstage := by
    rcases join_cases hj with ⟨-, rfl⟩ | hj
    · cases hstage
    · exact h.named j other id job hj hstage
  current j other id job hj hholds := by
    rcases join_cases hj with ⟨-, rfl⟩ | hj
    · cases (Client.holds_some hholds).1
    · exact h.current j other id job hj hholds

theorem interferes_eq_false {ρ : Type} {cmd : Cmd ρ} {k : ρ → Prog Cmd Unit} {moment : Moment}
    (hclient : s.clients[i]? = some client) (hprogram : client.program = .call cmd k)
    (hok : s.interferes (.step i moment) = false) {j : Nat} {other : Client} (hne : j ≠ i)
    (hother : s.clients[j]? = some other) (hholds : other.holds = some (id, job)) :
    cmd.overwrites s.db id job.state = false := by
  obtain ⟨operation, program, stage⟩ := client
  cases hprogram
  have hj : j ∈ List.range s.clients.length :=
    List.mem_range.mpr (List.getElem?_eq_some_iff.mp hother).1
  simp only [interferes, hclient] at hok
  simpa [hne, hother, hholds] using List.any_eq_false.mp hok j hj

/-- The client that sends the command still has a copy in hand only if it has
just read it, or read the clock. -/
theorem Held.own (h : Held codec s) {ρ : Type} {cmd : Cmd ρ} {k : ρ → Prog Cmd Unit}
    {reply : ρ} {moment : Moment} {db : Db} (hclient : s.clients[i]? = some client)
    (hprogram : client.program = .call cmd k)
    (hcmd : cmd.perform codec moment s.db = (reply, db))
    (hholds : Client.holds { client with
      program := k reply, stage := client.stage.after cmd reply } = some (id, job)) :
    ∀ blob, db.get id = some blob → blob.job.state = job.state := by
  obtain ⟨hstage, lost, ρ', cmd', k', hop, hrest, hhand⟩ := Client.holds_some hholds
  obtain ⟨hand, hhands⟩ := h.hands i client lost hclient hop
  rw [hprogram] at hhands
  have hafter := (hands_call.mp hhands).2 reply
  rw [show k reply = .call cmd' k' from hrest] at hafter
  have hsome := (hands_call.mp hafter).1.2 hhand
  have hkept : db = s.db ∧ (cmd.inHand = true ∧ client.stage.after cmd reply = client.stage ∨
      ∃ id blob, client.stage.after cmd reply = .read id blob.job ∧ s.db.get id = some blob) :=
    handAfter_some hcmd hsome
  obtain ⟨rfl, ⟨hbefore, hsame⟩ | ⟨id', blob, hread, hget⟩⟩ := hkept
  · have hheld : client.holds = some (id, job) := by
      rw [show client.stage.after cmd reply = .read id job from hstage] at hsame
      simp [Client.holds, hop, ← hsame, hprogram, hbefore]
    exact h.current i client id job hclient hheld
  · cases (show client.stage.after cmd reply = .read id job from hstage).symm.trans hread
    intro blob' hblob
    cases hget.symm.trans hblob
    rfl

theorem Held.next (h : Held codec s) (hok : s.interferes e = false) (hnext : Next codec s e t) :
    Held codec t := by
  have horderly := h.orderly.next hnext
  cases next_moves hnext with
  | started operation => exact h.started operation
  | @sent i moment client ρ cmd k reply db hclient hprogram hcmd =>
    have hsent := (h.orderly.sent hclient hprogram).1
    refine ⟨horderly, fun j other lost hj hop => ?_, fun j other id job hj hstage => ?_,
      fun j other id job hj hholds => ?_⟩
    · rcases set_cases hj with ⟨-, rfl⟩ | ⟨-, hj⟩
      · obtain ⟨hand, hhands⟩ := h.hands i client lost hclient hop
        rw [hprogram] at hhands
        exact ⟨_, (hands_call.mp hhands).2 reply⟩
      · exact h.hands j other lost hj hop
    · rcases set_cases hj with ⟨-, rfl⟩ | ⟨-, hj⟩
      · rcases Stage.after_read h.orderly.named hcmd hstage with hbefore | ⟨hid, -⟩
        · exact h.named i client id job hclient hbefore
        · exact hid
      · exact h.named j other id job hj hstage
    · rcases set_cases hj with ⟨-, rfl⟩ | ⟨hne, hj⟩
      · exact h.own hclient hprogram hcmd hholds
      · exact hsent.keeps_state h.orderly.named hcmd (h.orderly.holds_lost hj hholds)
          (interferes_eq_false hclient hprogram hok hne hj hholds)
          (h.current j other id job hj hholds)

theorem Held.losesNoOutcome (h : Held codec s) (hnext : Next codec s e t) :
    LosesNoOutcome ⟨s, e, t⟩ := by
  rintro i moment client lost rfl hclient hop
  cases next_moves hnext with
  | @sent _ _ client' ρ cmd k reply db hclient' hprogram hcmd =>
    cases hclient.symm.trans hclient'
    obtain ⟨hand, hhands⟩ := h.hands i client lost hclient hop
    rw [hprogram] at hhands
    have hsweep := (hands_call.mp hhands).1.1
    have hsent := (h.orderly.sent hclient hprogram).1
    have hwrite : ∀ id old, s.db.get id = some old → db.get id ≠ some old →
        ∃ job new, client.stage = .read id job ∧ lost job.state = true ∧
          db.get id = some new ∧ new.job.state.kind = .enqueued ∧ old.job.state = job.state := by
      intro id old hold hne
      obtain ⟨hhand, id', job, new, hstage, hlost, rfl, hnew, hkind⟩ :=
        hsent.requeues hop hsweep h.orderly.named hcmd hold hne
      cases h.named i client id' job hclient hstage
      have hholds : client.holds = some (job.id, job) := by
        simp [Client.holds, hop, hstage, hprogram, hhand]
      exact ⟨job, new, hstage, hlost, hnew, hkind, h.current i client _ job hclient hholds old hold⟩
    refine ⟨fun id old new hold hnew hne => ?_, fun id old hold hkind => ?_⟩
    · have hchanged : db.get id ≠ some old := fun he => hne (Option.some.inj (hnew.symm.trans he))
      obtain ⟨job, new', hstage, hlost, hnew', hkind, hstate⟩ := hwrite id old hold hchanged
      cases hnew.symm.trans hnew'
      exact ⟨job, hstage, hlost, hkind, hstate⟩
    · by_contra hchanged
      obtain ⟨job, new, -, hlost, -, -, hstate⟩ := hwrite id old hold hchanged
      rw [hstate, Operation.lost_kind hop hlost] at hkind
      simp at hkind

theorem held_idle {db : Db} (hnamed : db.Named) : Held codec (idle db) where
  orderly := orderly_run hnamed .nil
  hands _ _ _ hj := by simp [idle] at hj
  named _ _ _ _ hj := by simp [idle] at hj
  current _ _ _ _ hj := by simp [idle] at hj

theorem held_run {db : Db} {tr : List (Step Traffic Event)} (hnamed : db.Named)
    (hr : Run (Next codec) (idle db) tr s) (hok : ∀ x ∈ tr, x.before.interferes x.label = false) :
    Held codec s := by
  refine hr.stable (Held codec) (held_idle hnamed) fun x hx hbefore => ?_
  obtain ⟨_, -, -, hnext⟩ := hr.of_mem hx
  exact hbefore.next (hok x hx) hnext

/-- Where no command stores a job in a new state between the moment a recovery
sweep reads it and the moment it writes it back, the sweeps lose no outcome, in
every order of the commands of any operations. -/
theorem recovery_loses_no_outcome {db : Db} {tr : List (Step Traffic Event)}
    (hnamed : db.Named) (hr : Run (Next codec) (idle db) tr s)
    (hok : ∀ x ∈ tr, x.before.interferes x.label = false) : ∀ x ∈ tr, LosesNoOutcome x := by
  intro x hx
  obtain ⟨pre, hsub, hpre, hnext⟩ := hr.of_mem hx
  exact (held_run hnamed hpre fun y hy => hok y (hsub y hy)).losesNoOutcome hnext

/-- A job being processed, as a worker left it. -/
def leftBehind (id : String) : Job :=
  let noon : DateTime := 1767268800000000000
  { Job.new id noon "send_email" .null with state := .processing noon "w" "redis-storage" }

def oneClaimed : Db :=
  Db.empty.add (Codec.lossless.serialize (leftBehind "a")) (newScore 0 (leftBehind "a"))

theorem oneClaimed_consistent : oneClaimed.Consistent := .add .empty rfl newScore_scores

/-- One more. -/
def twoClaimed : Db :=
  oneClaimed.add (Codec.lossless.serialize (leftBehind "b")) (newScore 0 (leftBehind "b"))

theorem twoClaimed_named : twoClaimed.Named :=
  (oneClaimed_consistent.add rfl newScore_scores).named

/-- The outcome that the worker stores. -/
def succeeded : Job :=
  let noon : DateTime := 1767268800000000000
  { Job.new "a" noon "send_email" .null with state := .succeeded (noon + Duration.hours 1) 5 none }

/-- A sweep and a worker at work on the job; the worker's two commands come
after the first `n` commands of the sweep, of which there are `m`. -/
def sweepAndOutcome (n m : Nat) : List Event :=
  let later : DateTime := 1767268800000000000 + Duration.hours 1
  [Event.start (.requeueStrandedJobs later), .start (.update succeeded)] ++
    List.replicate n (Event.step 0 ⟨later, []⟩) ++ List.replicate 2 (Event.step 1 ⟨later, []⟩) ++
    List.replicate (m - n) (Event.step 0 ⟨later, []⟩)

/-- The outcome is stored before the sweep reads the job, which it spares; the other one it
puts back. -/
theorem recovery_loses_no_outcome_early : ∃ tr s, Run (Next .lossless) (idle twoClaimed) tr s ∧
    (s.db.get "a").map (fun blob => blob.job.state.kind) = some .succeeded ∧
    (s.db.get "b").map (fun blob => blob.job.state.kind) = some .enqueued ∧
    ∀ x ∈ tr, LosesNoOutcome x := by
  obtain ⟨s, hr⟩ := replay_run (next .lossless) (idle twoClaimed) (sweepAndOutcome 1 6)
  refine ⟨_, s, hr, ?_, ?_, recovery_loses_no_outcome twoClaimed_named hr (by decide +kernel)⟩
  · rw [hr.eq_last]
    decide +kernel
  · rw [hr.eq_last]
    decide +kernel

def Event.ofFirst : Event → Bool
  | .step 0 _ => true
  | _ => false

/-- The outcome is stored between the `GET` and the update of the sweep, which
puts the finished job back to `Enqueued`. -/
theorem recovery_requeues_succeeded : ∃ tr s, Run (Next .lossless) (idle oneClaimed) tr s ∧
    oneClaimed.Named ∧ ∃ x ∈ tr, ¬ LosesNoOutcome x := by
  obtain ⟨s, hr⟩ := replay_run (next .lossless) (idle oneClaimed) (sweepAndOutcome 3 5)
  obtain ⟨x, hx, hlabel, hloses, hbefore, hafter⟩ : ∃ x ∈ replay (next .lossless) (idle oneClaimed)
      (sweepAndOutcome 3 5), x.label.ofFirst = true ∧
      (x.before.clients[0]?.any fun client => client.operation.loses.isSome) = true ∧
      ((x.before.db.get "a").any fun blob => decide (blob.job.state.kind = .succeeded)) = true ∧
      ((x.after.db.get "a").any fun blob => decide (blob.job.state.kind = .enqueued)) = true := by
    decide +kernel
  refine ⟨_, s, hr, oneClaimed_consistent.named, x, hx, fun h => ?_⟩
  obtain ⟨old, hold, hkind⟩ := (Option.any_eq_true _ _).mp hbefore
  obtain ⟨new, hnew, hkind'⟩ := (Option.any_eq_true _ _).mp hafter
  obtain ⟨client, hclient, hsome⟩ := (Option.any_eq_true _ _).mp hloses
  obtain ⟨lost, hop⟩ := Option.isSome_iff_exists.mp hsome
  unfold Event.ofFirst at hlabel
  split at hlabel
  · rename_i moment he
    have hkept := (h 0 moment client lost he hclient hop).2 "a" old hold
      (.inl (of_decide_eq_true hkind))
    cases hnew.symm.trans hkept
    rw [of_decide_eq_true hkind] at hkind'
    simp at hkind'
  · cases hlabel

end Traffic
end Qml
