import Qml.Redis.Indices
import Qml.Redis.Traffic

namespace Qml
open Lib RedisStorage

/-- The test by which a recovery sweep tells a lost job, for the two sweeps. -/
def Operation.loses : Operation → Option (JobState → Bool)
  | .requeueStrandedJobs staleBefore => some (stale staleBefore)
  | .reclaimJobsFromServer serverId => some (ownedBy serverId)
  | _ => none

/-- The commands an operation may send. Blobs are written for the jobs the
operation was called with; a recovery sweep writes the copy it has just read. -/
inductive Sent (codec : Codec) (operation : Operation) (stage : Stage) :
    {ρ : Type} → Cmd ρ → Prop
  | now (hread : ∀ lost, operation.loses = some lost →
      ∃ id job, stage = .read id job ∧ lost job.state = true) : Sent codec operation stage .now
  | get (id : String) : Sent codec operation stage (.get id)
  | smembers (key : SetKey) : Sent codec operation stage (.smembers key)
  | sadd (key : SetKey) (id : String) : Sent codec operation stage (.sadd key id)
  | srem (key : SetKey) (id : String) : Sent codec operation stage (.srem key id)
  | zadd (key : ZKey) (id : String) (x : ℚ) : Sent codec operation stage (.zadd key id x)
  | zrem (key : ZKey) (id : String) : Sent codec operation stage (.zrem key id)
  | hincrby (field : String) (delta : Int) : Sent codec operation stage (.hincrby field delta)
  | del (id : String) (hswept : ∀ t, operation = .deleteExpiredJobs t →
      ∃ job made, stage = .sweeping id job made ∧ isExpired t job = true) :
      Sent codec operation stage (.del id)
  | set {job : Job} (hop : operation = .enqueue job) :
      Sent codec operation stage (.set job.id (codec.serialize job))
  | update {job : Job} (now : DateTime) (hop : operation = .update job) :
      Sent codec operation stage (.update job (stateToString job.state) (newScore now job))
  | updateIfState {job : Job} {expected : JobStateKind} (now : DateTime)
      (hop : operation = .updateIfState job expected) : Sent codec operation stage
        (.updateIfState job expected.name job.state.kind.name (newScore now job))
  | requeue {id : String} {job back : Job} {lost : JobState → Bool} (t now : DateTime)
      (hop : operation.loses = some lost) (hlost : lost job.state = true)
      (hread : stage = .read id job) (hback : back = { job with state := .enqueued t job.queue }) :
      Sent codec operation stage (.update back (stateToString back.state) (newScore now back))
  | claimDue {kind : JobStateKind} {source variant field : String}
      (htimed : Timed kind source variant field) (t : DateTime) (limit : UInt64) :
      Sent codec operation stage (.claimDue source variant field t limit)
  | fetch (workerId : String) (t : DateTime) (candidates : List ZKey) :
      Sent codec operation stage (.fetch workerId t candidates)

/-- Sent from where it stands, a program sends these commands only. -/
abbrev Sends (codec : Codec) (operation : Operation) {α : Type} (p : Prog Cmd α)
    (stage : Stage) : Prop :=
  p.wp ⟨fun stage _ cmd => Sent codec operation stage cmd,
    fun stage _ cmd reply stage' => stage' = stage.after cmd reply⟩ (fun _ _ => True) stage

section
variable {codec : Codec} {operation : Operation} {stage : Stage} {α β ρ : Type}

theorem sends_call {cmd : Cmd ρ} {k : ρ → Prog Cmd α} :
    Sends codec operation (.call cmd k) stage ↔ Sent codec operation stage cmd ∧
      ∀ reply, Sends codec operation (k reply) (stage.after cmd reply) := by
  rw [Sends, Prog.wp_call]
  exact ⟨fun h => ⟨h.1, fun reply => h.2 reply _ rfl⟩, fun h => ⟨h.1, fun r t he => he ▸ h.2 r⟩⟩

theorem Sends.bind {p : Prog Cmd α} {f : α → Prog Cmd β} (hp : Sends codec operation p stage)
    (hf : ∀ a stage, Sends codec operation (f a) stage) :
    Sends codec operation (p >>= f) stage :=
  (Prog.wp_bind _ p f stage).mpr (Prog.wp_mono (fun a stage _ => hf a stage) hp)

theorem Sends.call {cmd : Cmd ρ} {k : ρ → Prog Cmd α} (hcmd : Sent codec operation stage cmd)
    (hk : ∀ reply stage, Sends codec operation (k reply) stage) :
    Sends codec operation (.call cmd k) stage :=
  sends_call.mpr ⟨hcmd, fun reply => hk reply _⟩

theorem Sends.clock {k : DateTime → Prog Cmd α} (hop : operation.loses = none)
    (hk : ∀ reply stage, Sends codec operation (k reply) stage) :
    Sends codec operation (.call .now k) stage :=
  .call (.now fun lost hlost => absurd (hop.symm.trans hlost) (by simp)) hk

theorem fetchAndLockJob_sends {workerId : String} {queues : Option (List String)}
    (hop : operation.loses = none) :
    Sends codec operation (RedisStorage.fetchAndLockJob workerId queues) stage := by
  refine .clock hop fun now _ => .call (.fetch workerId now _) fun reply _ => ?_
  cases reply <;> trivial

theorem fetchUpTo_sends {workerId : String} {queues : Option (List String)} {n : Nat}
    {jobs : List Job} (hop : operation.loses = none) :
    Sends codec operation (fetchUpTo workerId queues n jobs) stage := by
  induction n generalizing stage jobs with
  | zero => trivial
  | succ n ih =>
    refine .bind (fetchAndLockJob_sends hop) fun reply _ => ?_
    rcases reply with _ | _ | _
    · trivial
    · trivial
    · exact ih

theorem claimDueJobsLua_sends {kind : JobStateKind} {source variant field : String}
    {t : DateTime} {limit : UInt64} (htimed : Timed kind source variant field) :
    Sends codec operation (claimDueJobsLua source variant field t limit) stage := by
  unfold claimDueJobsLua
  split
  · trivial
  · exact .call (.claimDue htimed t limit) fun _ _ => trivial

theorem removeJobIndices_sends {id : String} {job : Job} {k : Unit → Prog Cmd α}
    (hk : Sends codec operation (k ()) stage.removed.removed.removed.removed.removed) :
    Sends codec operation (removeJobIndices id job >>= k) stage := by
  simp only [removeJobIndices, removal, each, Prog.ask_bind, Prog.call_bind]
  exact sends_call.mpr ⟨.srem .., fun _ => sends_call.mpr ⟨.srem .., fun _ =>
    sends_call.mpr ⟨.zrem .., fun _ => sends_call.mpr ⟨.zrem .., fun _ =>
      sends_call.mpr ⟨.hincrby .., fun _ => hk⟩⟩⟩⟩⟩

theorem enqueue_sends {job : Job} :
    Sends codec (.enqueue job) (RedisStorage.enqueue codec job) stage := by
  simp only [RedisStorage.enqueue, updateJobIndices, Prog.ask_bind, Prog.monad_pure,
    Prog.call_bind]
  refine .call (.set rfl) fun _ _ => .call (.sadd ..) fun _ _ => .call (.sadd ..) fun _ _ =>
    .call (.hincrby ..) fun _ _ => .clock rfl fun now _ => ?_
  split
  · exact .call (.zadd ..) fun _ _ => .call (.zadd ..) fun _ _ => trivial
  · exact .call (.zrem ..) fun _ _ => .call (.zrem ..) fun _ _ => trivial

theorem delete_sends {jobId : String} :
    Sends codec (.delete jobId) (RedisStorage.delete jobId) stage := by
  simp only [RedisStorage.delete, RedisStorage.get, Prog.ask_bind, Prog.call_bind]
  refine .call (.get jobId) fun reply _ => ?_
  cases reply with
  | none => trivial
  | some blob =>
    cases hread : blob.readable with
    | false =>
      simp only [Prog.monad_pure, Prog.pure_bind, parse, hread]
      trivial
    | true =>
      simp only [Prog.monad_pure, Prog.pure_bind, parse, hread, if_true, Except.map]
      refine .call (.del jobId (by rintro _ ⟨⟩)) fun n _ => ?_
      split
      · exact removeJobIndices_sends trivial
      · trivial

theorem sweep_sends {t : DateTime} {ids : List String} {removed : Nat} :
    Sends codec (.deleteExpiredJobs t) (sweep t ids removed) stage := by
  induction ids generalizing stage removed with
  | nil => trivial
  | cons id ids ih =>
    rw [sweep, Prog.ask_bind]
    refine sends_call.mpr ⟨.get id, fun reply => ?_⟩
    cases reply with
    | none => exact ih
    | some blob =>
      simp only
      split
      · rename_i hexpired
        refine removeJobIndices_sends (.call (.del id ?_) fun _ _ => ih)
        rintro _ ⟨⟩
        exact ⟨blob.job, 5, rfl, ((Bool.and_eq_true ..).mp hexpired).2⟩
      · exact ih

/-- A sweep writes only what it has just read, and only if that was lost. -/
theorem recover_sends {lost : JobState → Bool} {ids : List String} {recovered : Nat}
    (hop : operation.loses = some lost) :
    Sends codec operation (recover lost ids recovered) stage := by
  induction ids generalizing stage recovered with
  | nil => trivial
  | cons id ids ih =>
    simp only [recover, RedisStorage.get, Prog.ask_bind, Prog.call_bind]
    refine sends_call.mpr ⟨.get id, fun reply => ?_⟩
    cases reply with
    | none => exact ih
    | some blob =>
      cases hread : blob.readable with
      | false =>
        simp only [Prog.monad_pure, Prog.pure_bind, parse, hread]
        trivial
      | true =>
        simp only [Prog.monad_pure, Prog.pure_bind, parse, hread, if_true, Except.map]
        cases hlost : lost blob.job.state with
        | false => exact ih
        | true =>
          simp only [if_true, Prog.call_bind, RedisStorage.update, Prog.ask_bind, Stage.after]
          have hclock : Sent codec operation (.read id blob.job) .now := by
            refine .now fun lost' hop' => ⟨id, blob.job, rfl, ?_⟩
            cases hop.symm.trans hop'
            exact hlost
          refine sends_call.mpr ⟨hclock, fun t => sends_call.mpr ⟨hclock, fun now => ?_⟩⟩
          refine .call (.requeue t now hop hlost rfl rfl) fun reply _ => ?_
          cases reply with
          | ok => exact ih
          | missing | mismatch => trivial

/-- Every operation sends these commands only. -/
theorem Operation.sends (codec : Codec) (operation : Operation) :
    Sends codec operation (operation.program codec) stage := by
  cases operation with
  | enqueue job => exact enqueue_sends.bind fun _ _ => trivial
  | update job =>
    refine Sends.bind ?_ fun _ _ => trivial
    refine .clock rfl fun now _ => .call (.update now rfl) fun reply _ => ?_
    cases reply <;> trivial
  | updateIfState job expected =>
    refine Sends.bind ?_ fun _ _ => trivial
    refine .clock rfl fun now _ => .call (.updateIfState now rfl) fun reply _ => ?_
    cases reply <;> trivial
  | delete jobId => exact delete_sends.bind fun _ _ => trivial
  | claimDueScheduledJobs t limit =>
    exact (claimDueJobsLua_sends .scheduled).bind fun _ _ => trivial
  | claimDueRetryJobs t limit =>
    exact (claimDueJobsLua_sends .awaitingRetry).bind fun _ _ => trivial
  | deleteExpiredJobs t =>
    refine Sends.bind ?_ fun _ _ => trivial
    exact .call (.smembers .all) fun _ _ => sweep_sends
  | requeueStrandedJobs t =>
    refine Sends.bind ?_ fun _ _ => trivial
    exact .call (.smembers _) fun _ _ => recover_sends rfl
  | reclaimJobsFromServer serverId =>
    refine Sends.bind ?_ fun _ _ => trivial
    exact .call (.smembers _) fun _ _ => recover_sends rfl
  | fetchAndLockJob workerId queues =>
    exact (fetchAndLockJob_sends rfl).bind fun _ _ => trivial
  | fetchAvailableJobsAtomic workerId limit queues =>
    exact (fetchUpTo_sends rfl).bind fun _ _ => trivial

/-- What a command may do to the blob of one identifier. -/
inductive Touch (codec : Codec) (operation : Operation) (stage : Stage) (id : String) :
    Option Blob → Option Blob → Prop
  | same (o : Option Blob) : Touch codec operation stage id o o
  | enqueued {job : Job} (hop : operation = .enqueue job) (hid : job.id = id) (o : Option Blob) :
      Touch codec operation stage id o (some (codec.serialize job))
  | updated {job : Job} {old : Blob} (hop : operation = .update job) (hid : job.id = id) :
      Touch codec operation stage id (some old) (some (codec.serialize job))
  | swapped {job : Job} {old : Blob}
      (hop : operation = .updateIfState job old.job.state.kind) (hid : job.id = id) :
      Touch codec operation stage id (some old) (some (codec.serialize job))
  | requeued {id' : String} {job : Job} {old : Blob} {lost : JobState → Bool} (t : DateTime)
      (hop : operation.loses = some lost) (hlost : lost job.state = true)
      (hread : stage = .read id' job) (hid : job.id = id) :
      Touch codec operation stage id (some old)
        (some (codec.serialize { job with state := .enqueued t job.queue }))
  | deleted (o : Option Blob) : Touch codec operation stage id o none
  | promoted {old new : Blob} (hold : old.job.state.kind = .scheduled ∨
      old.job.state.kind = .awaitingRetry) (hnew : new.job.state.kind = .enqueued)
      (hid : new.job.id = id) : Touch codec operation stage id (some old) (some new)
  | claimed {old new : Blob} (hold : old.job.state.kind = .enqueued ∨
      old.job.state.kind = .awaitingRetry) (hnew : new.job.state.kind = .processing)
      (hid : new.job.id = id) : Touch codec operation stage id (some old) (some new)

variable {db db' : Db} {id : String} {cmd : Cmd ρ} {reply : ρ} {moment : Moment}

theorem RedisStorage.Timed.kind_cases {kind : JobStateKind} {source variant field : String}
    (h : Timed kind source variant field) : kind = .scheduled ∨ kind = .awaitingRetry := by
  cases h <;> simp

/-- A run of promotions takes each identifier at most once from the source state. -/
theorem RedisStorage.Promoted.get {kind : JobStateKind} {t : DateTime} {claimed : List Blob}
    (hkind : kind ≠ .enqueued) (hnamed : db.Named) (h : Promoted codec kind t db claimed db')
    (id : String) : db'.get id = db.get id ∨ ∃ old new, db.get id = some old ∧
      db'.get id = some new ∧ old.job.state.kind = kind ∧ new.job.state.kind = .enqueued ∧
      new.job.id = id := by
  induction h with
  | nil => exact .inl rfl
  | @cons db db' head old blobs hold hk rest ih =>
    obtain ⟨hid, hqueue, hstate⟩ := recode_enqueued codec t.truncMicros old.job
    have hnew : (codec.recode { old.job with
        state := .enqueued t.truncMicros old.job.queue }).job.state.kind = .enqueued := by
      rw [hstate]
      rfl
    generalize codec.recode _ = new at hid hqueue hstate hnew ih
    have hnamed' := (rewrite_effect hnamed hold (hid.trans (hnamed _ _ hold)) hqueue
      (x := some old.job.priority) ⟨by simp, by simp [hnew, JobStateKind.waiting]⟩).named
    by_cases he : id = head
    · subst he
      have hmid : (rewrite db id old new (some old.job.priority)).get id = some new := by simp
      rcases ih hnamed' with hsame | ⟨again, _, hagain, -, hkagain, -⟩
      · exact .inr ⟨old, new, hold, hsame.trans hmid, hk, hnew, hid.trans (hnamed _ _ hold)⟩
      · cases hmid.symm.trans hagain
        exact absurd (hkagain.symm.trans hnew) hkind
    · have hmid : (rewrite db head old new (some old.job.priority)).get id = db.get id := by
        simp [he]
      rw [← hmid]
      exact ih hnamed'

theorem fetchScript_get {workerId : String} {t : DateTime} {candidates : List ZKey}
    {reply : Option Blob} (hnamed : db.Named)
    (h : fetchScript codec db workerId t candidates = (reply, db')) (id : String) :
    db'.get id = db.get id ∨ ∃ old new, db.get id = some old ∧ db'.get id = some new ∧
      (old.job.state.kind = .enqueued ∨ old.job.state.kind = .awaitingRetry) ∧
      new.job.state.kind = .processing ∧ new.job.id = id := by
  rcases fetchScript_cases h with ⟨-, rfl, -⟩ | ⟨_, _, -, -, -, rfl⟩ |
    ⟨taken, x, old, -, hold, hkind, -, rfl⟩
  · exact .inl rfl
  · exact .inl (get_dropStale ..)
  · rw [get_rewrite]
    split
    · subst id
      obtain ⟨hid, -, hstate⟩ := recode_processing codec t.truncMicros workerId "redis-storage"
        old.job
      exact .inr ⟨old, _, hold, rfl, hkind, by rw [hstate]; rfl, hid.trans (hnamed _ _ hold)⟩
    · exact .inl rfl

theorem claimDueScript_get {kind : JobStateKind} {source variant field : String} {t : DateTime}
    {limit : UInt64} {members : List String} {claimed : List Blob} (hnamed : db.Named)
    (htimed : Timed kind source variant field) (hmembers : members.Nodup)
    (h : claimDueScript codec db source variant field t limit members = (claimed, db'))
    (id : String) : db'.get id = db.get id ∨ ∃ old new, db.get id = some old ∧
      db'.get id = some new ∧ old.job.state.kind = kind ∧ new.job.state.kind = .enqueued ∧
      new.job.id = id := by
  obtain ⟨mid, heffect, -, hpromoted⟩ := claimDueScript_cases hnamed htimed hmembers h
  rw [← (heffect.trims id (by simp)).get]
  exact hpromoted.get htimed.ne_enqueued heffect.named id

theorem updateScript_get {job : Job} {x : Option ℚ} {reply : Reply} (hnamed : db.Named)
    (h : updateScript codec db job (stateToString job.state) x = (reply, db')) (id : String) :
    db'.get id = db.get id ∨ id = job.id ∧ (db.get id).isSome ∧
      db'.get id = some (codec.serialize job) := by
  rcases updateScript_cases hnamed h with ⟨-, -, rfl⟩ | ⟨old, -, hold, rfl⟩
  · exact .inl rfl
  · rw [get_rewrite]
    split
    · subst id
      exact .inr ⟨rfl, by simp [hold], rfl⟩
    · exact .inl rfl

/-- Each command does to each identifier one of the listed things. -/
theorem Sent.touch (hsent : Sent codec operation stage cmd) (hnamed : db.Named)
    (h : cmd.perform codec moment db = (reply, db')) (id : String) :
    Touch codec operation stage id (db.get id) (db'.get id) := by
  cases hsent with
  | now | get | smembers | sadd | srem | zadd | zrem | hincrby =>
    cases h
    exact .same _
  | del gone =>
    cases h
    rw [Db.get_del]
    split
    · exact .deleted _
    · exact .same _
  | set hop =>
    cases h
    rw [Db.get_set]
    split
    · exact .enqueued hop (Eq.symm ‹_›) _
    · exact .same _
  | update now hop =>
    rcases updateScript_get hnamed h id with hsame | ⟨rfl, hsome, hget⟩
    · rw [hsame]
      exact .same _
    · obtain ⟨old, hold⟩ := Option.isSome_iff_exists.mp hsome
      rw [hget, hold]
      exact .updated hop rfl
  | @updateIfState job expected now hop =>
    rcases updateIfStateScript_cases hnamed h with ⟨-, rfl⟩ | ⟨old, -, hold, rfl, rfl⟩
    · exact .same _
    · rw [get_rewrite]
      split
      · subst id
        rw [hold]
        exact .swapped hop rfl
      · exact .same _
  | requeue t now hop hlost hread hback =>
    subst hback
    rcases updateScript_get hnamed h id with hsame | ⟨rfl, hsome, hget⟩
    · rw [hsame]
      exact .same _
    · obtain ⟨old, hold⟩ := Option.isSome_iff_exists.mp hsome
      rw [hget, hold]
      exact .requeued t hop hlost hread rfl
  | claimDue htimed t limit =>
    rcases claimDueScript_get hnamed htimed (smembers_nodup moment.order _) h id with
      hsame | ⟨old, new, hold, hget, hkind, hnew, hid⟩
    · rw [hsame]
      exact .same _
    · rw [hget, hold]
      exact .promoted (hkind ▸ htimed.kind_cases) hnew hid
  | fetch workerId t candidates =>
    rcases fetchScript_get hnamed h id with hsame | ⟨old, new, hold, hget, hkind, hnew, hid⟩
    · rw [hsame]
      exact .same _
    · rw [hget, hold]
      exact .claimed hkind hnew hid

theorem Touch.named {o o' : Option Blob} (h : Touch codec operation stage id o o')
    (ho : ∀ blob, o = some blob → blob.job.id = id) :
    ∀ blob, o' = some blob → blob.job.id = id := by
  cases h with
  | same => exact ho
  | deleted => simp
  | enqueued hop hid | updated hop hid | swapped hop hid | requeued t hop hlost hread hid =>
    intro blob hb
    cases hb
    rw [codec.serialize_job]
    exact hid
  | promoted hold hnew hid | claimed hold hnew hid =>
    intro blob hb
    cases hb
    exact hid

theorem Sent.named (hsent : Sent codec operation stage cmd) (hnamed : db.Named)
    (h : cmd.perform codec moment db = (reply, db')) : db'.Named :=
  fun id => (hsent.touch hnamed h id).named (hnamed id)

theorem Sends.named {program : Prog Cmd Unit} {moments : Nat → Moment}
    (hsends : Sends codec operation program stage) (hnamed : db.Named)
    (h : program.alone (fun moment db _ cmd => some (cmd.perform codec moment db)) moments db =
      some ((), db')) : db'.Named := by
  induction program generalizing stage moments db with
  | pure a =>
    cases h
    exact hnamed
  | call cmd k ih =>
    obtain ⟨hsent, hrest⟩ := sends_call.mp hsends
    exact ih _ (hrest _) (hsent.named hnamed rfl) h

/-- Whatever operations ran one at a time, every blob is stored under its own identifier. -/
theorem Db.named_run {tr : List (Step Db Turn)} (hr : Db.Turns codec tr db) : db.Named := by
  refine hr.stable Db.Named (fun _ _ hget => by cases hget) fun x hx h => ?_
  obtain ⟨_, -, -, hturn⟩ := hr.of_mem hx
  obtain ⟨⟨_, db'⟩, halone, rfl⟩ := Option.map_eq_some_iff.mp hturn
  exact (x.label.operation.sends codec : Sends codec _ _ .idle).named h halone

end

namespace Traffic

/-- Every client sends what its operation may send, and every blob is stored
under its own identifier. -/
structure Orderly (codec : Codec) (s : Traffic) : Prop where
  sends : ∀ (i : Nat) (client : Client), s.clients[i]? = some client →
    Qml.Sends codec client.operation client.program client.stage
  named : s.db.Named

variable {codec : Codec} {s t : Traffic} {e : Event} {i : Nat} {client : Client}

theorem Orderly.sent (h : Orderly codec s) {ρ : Type} {cmd : Cmd ρ} {k : ρ → Prog Cmd Unit}
    (hclient : s.clients[i]? = some client) (hprogram : client.program = .call cmd k) :
    Sent codec client.operation client.stage cmd ∧
      ∀ reply, Qml.Sends codec client.operation (k reply) (client.stage.after cmd reply) := by
  have hsends := h.sends i client hclient
  rw [hprogram] at hsends
  exact sends_call.mp hsends

theorem Orderly.next (h : Orderly codec s) (hnext : Next codec s e t) : Orderly codec t := by
  cases next_moves hnext with
  | started operation =>
    refine ⟨fun j other hj => ?_, h.named⟩
    rcases join_cases hj with ⟨-, rfl⟩ | hj
    · exact operation.sends codec
    · exact h.sends j other hj
  | sent hclient hprogram hcmd =>
    obtain ⟨hsent, hrest⟩ := h.sent hclient hprogram
    refine ⟨fun j other hj => ?_, hsent.named h.named hcmd⟩
    rcases set_cases hj with ⟨-, rfl⟩ | ⟨-, hj⟩
    · exact hrest _
    · exact h.sends j other hj

theorem orderly_run {db : Db} {tr : List (Step Traffic Event)} (hnamed : db.Named)
    (hr : Run (Next codec) (idle db) tr s) : Orderly codec s := by
  refine hr.stable (Orderly codec) ⟨fun i client hi => by simp [idle] at hi, hnamed⟩ ?_
  intro x hx hbefore
  obtain ⟨_, -, -, hnext⟩ := hr.of_mem hx
  exact hbefore.next hnext

end Traffic
end Qml
