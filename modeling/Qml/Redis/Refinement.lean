import Qml.Backends.JobStore
import Qml.Redis.Sending

namespace Qml
open Lib RedisStorage

/-- The jobs that the database holds, as the blobs encode them. -/
def Db.contents (db : Db) : JobStore := fun id => (db.get id).map Blob.job

/-- The copy of a job that a client has, with the identifier it has read it under. -/
def Stage.copy : Stage → Option (String × Job)
  | .idle => none
  | .read id job | .erased id job _ | .sweeping id job _ => some (id, job)

namespace RedisStorage

/-- A script that moves a job on may write its payload and its timeout in another form. -/
def Recoded (a b : Job) : Prop :=
  ∃ payload timeoutSeconds, b = { a with payload := payload, timeoutSeconds := timeoutSeconds }

/-- What a command with its reply means for the jobs, from what the client that sends it has
read. A command that finds no job, and one that reads the clock or moves entries of the
indices, means nothing. -/
def meaning (operation : Operation) (stage : Stage) :
    {ρ : Type} → Cmd ρ → ρ → Option JobStore.Event
  | _, .get id, answer => some (.found id (answer.map Blob.job))
  | _, .set _ blob, _ => some (.enqueued blob.job)
  | _, .del id, n =>
      match operation, stage with
      | .deleteExpiredJobs t, .sweeping _ read _ => some (.swept id t read (decide (0 < n)))
      | _, _ => some (.deleted id (decide (0 < n)))
  | _, .update job _ _, .ok => some (.updated job)
  | _, .updateIfState job _ _ _, reply =>
      match operation, reply with
      | .updateIfState _ expected, .ok => some (.swapped job expected true)
      | .updateIfState _ expected, .mismatch => some (.swapped job expected false)
      | _, _ => none
  | _, .claimDue source _ _ _ _, claimed => some (.promoted
      (if source = kindToStateName .scheduled then .scheduled else .awaitingRetry)
      (claimed.map Blob.job))
  | _, .fetch workerId _ _, some blob => some (.handedOut workerId "redis-storage" blob.job)
  | _, _, _ => none

variable {codec : Codec} {db db' : Db} {id : String} {kind : JobStateKind} {operation : Operation}
  {stage : Stage} {moment : Moment} {ρ : Type} {cmd : Cmd ρ} {reply : ρ} {job : Job} {old : Blob}

theorem isExpired_iff {now : DateTime} : isExpired now job = true ↔
    ∃ expiresAt, job.expiresAt = some expiresAt ∧ expiresAt < now := by
  unfold isExpired
  cases job.expiresAt <;> simp

theorem Recoded.state {a b : Job} (h : Recoded a b) : b.state = a.state := by
  obtain ⟨_, _, rfl⟩ := h
  rfl

theorem recoded (codec : Codec) (job : Job) (h : job.state.isFinal = false) :
    Recoded job (codec.recode job).job := codec.recode_job job h

theorem contents_congr (h : ∀ id, db'.get id = db.get id) : db'.contents = db.contents := by
  funext id
  rw [Db.contents, Db.contents, h]

/-- Storing one blob under its identifier stores its job. -/
theorem contents_put {blob : Blob} (h : ∀ id, db'.get id =
    if id = blob.job.id then some blob else db.get id) :
    db'.contents = db.contents.put blob.job := by
  funext id
  rw [Db.contents, h, JobStore.put_apply]
  split <;> rfl

/-- What a run of promotions returns is what it has stored, each job once. -/
theorem Promoted.returned {t : DateTime} {claimed : List Blob} (hkind : kind ≠ .enqueued)
    (hnamed : db.Named) (h : Promoted codec kind t db claimed db') :
    (claimed.map fun blob => blob.job.id).Nodup ∧
    (∀ blob ∈ claimed, db'.get blob.job.id = some blob ∧ ∃ old now, db.get blob.job.id = some old ∧
      old.job.state.kind = kind ∧
      Recoded { old.job with state := .enqueued now old.job.queue } blob.job) ∧
    ∀ id, id ∉ claimed.map (fun blob => blob.job.id) → db'.get id = db.get id := by
  induction h with
  | nil => exact ⟨List.nodup_nil, by simp, fun _ _ => rfl⟩
  | @cons db db' head old blobs hold hk rest ih =>
    obtain ⟨hid, hqueue, hstate⟩ := recode_enqueued codec t.truncMicros old.job
    have hrecoded := recoded codec
      { old.job with state := .enqueued t.truncMicros old.job.queue } rfl
    have hhead : old.job.id = head := hnamed _ _ hold
    generalize codec.recode _ = new at hid hqueue hstate hrecoded ih
    have hnamed' := (rewrite_effect hnamed hold (hid.trans hhead) hqueue
      (x := some old.job.priority) ⟨by simp, by simp [hstate, JobState.kind,
        JobStateKind.waiting]⟩).named
    obtain ⟨hnodup, hblobs, hothers⟩ := ih hnamed'
    have hmid : ∀ id, (rewrite db head old new (some old.job.priority)).get id =
        if id = head then some new else db.get id := fun _ => get_rewrite
    -- The head is enqueued by now, so the rest does not find it in the source state.
    have hout : new.job.id ∉ blobs.map fun blob => blob.job.id := by
      intro hin
      obtain ⟨blob, hblob, heq⟩ := List.mem_map.mp hin
      obtain ⟨-, again, _, hagain, hkagain, -⟩ := hblobs blob hblob
      rw [heq, hid, hhead, hmid, if_pos rfl] at hagain
      cases hagain
      rw [hstate] at hkagain
      exact hkind hkagain.symm
    refine ⟨?_, ?_, ?_⟩
    · rw [List.map_cons, List.nodup_cons]
      exact ⟨hout, hnodup⟩
    · intro blob hblob
      rcases List.mem_cons.mp hblob with rfl | hblob
      · rw [hothers _ hout, hmid, if_pos (hid.trans hhead)]
        refine ⟨rfl, old, _, ?_, hk, hrecoded⟩
        rw [hid, hhead]
        exact hold
      · obtain ⟨hafter, again, now, hagain, hkagain, hrec⟩ := hblobs blob hblob
        refine ⟨hafter, again, now, ?_, hkagain, hrec⟩
        rw [hmid, if_neg] at hagain
        · exact hagain
        · intro heq
          exact hout (List.mem_map.mpr ⟨blob, hblob, by rw [heq, hid, hhead]⟩)
    · intro id hidout
      rw [List.map_cons, List.mem_cons, not_or] at hidout
      rw [hothers id hidout.2, hmid, if_neg (fun heq => hidout.1 (by rw [heq, hid, hhead]))]

theorem updateIfStateScript_mismatch {expected newKind : JobStateKind} {x : Option ℚ}
    (h : updateIfStateScript codec db job expected.name newKind.name x = (.mismatch, db')) :
    ∃ old, db.get job.id = some old ∧ old.job.state.kind ≠ expected := by
  unfold updateIfStateScript at h
  split at h
  · cases h
  · rename_i old hold
    by_cases hname : old.job.state.name = expected.name
    · rw [if_neg (not_not_intro hname)] at h
      cases h
    · refine ⟨old, hold, fun hkind => hname ?_⟩
      rw [← hkind]
      rfl

/-- The script of an update. -/
theorem update_advances {x : Option ℚ} {answer : Reply} (hnamed : db.Named)
    (h : updateScript codec db job (stateToString job.state) x = (answer, db')) :
    Advances (JobStore.Next Recoded) db.contents
      (meaning operation stage (.update job (stateToString job.state) x) answer) db'.contents := by
  rcases updateScript_cases hnamed h with ⟨rfl, -, rfl⟩ | ⟨old, rfl, hold, rfl⟩
  · rfl
  · have hjob : db.contents job.id = some old.job := congrArg (Option.map Blob.job) hold
    have hafter : (rewrite (db.sadd .all job.id) job.id old (codec.serialize job) x).contents =
        db.contents.put (codec.serialize job).job := by
      apply contents_put
      intro id
      rw [get_rewrite, Db.get_sadd, codec.serialize_job]
    simp only [meaning]
    rw [hafter, codec.serialize_job]
    exact .updated job old.job hjob

/-- What a command means is what the contract lets happen; one that means nothing leaves
every job as it was. -/
theorem sent_advances (hsent : Sent codec operation stage cmd) (hnamed : db.Named)
    (h : cmd.perform codec moment db = (reply, db')) :
    Advances (JobStore.Next Recoded) db.contents (meaning operation stage cmd reply)
      db'.contents := by
  cases hsent with
  | now | smembers | sadd | srem | zadd | zrem | hincrby =>
    cases h
    rfl
  | get id =>
    cases h
    exact .found id
  | del id hswept =>
    cases h
    have hafter : (db.del id).contents = db.contents.erase id := by
      funext id'
      rw [Db.contents, Db.get_del, JobStore.erase_apply]
      split <;> rfl
    have hanswer : decide (0 < if (db.get id).isSome then 1 else 0) = (db.contents id).isSome := by
      unfold Db.contents
      cases db.get id <;> rfl
    by_cases hsweep : ∃ t, operation = .deleteExpiredJobs t
    · obtain ⟨t, rfl⟩ := hsweep
      obtain ⟨read, made, rfl, hexpired⟩ := hswept t rfl
      obtain ⟨expiresAt, hexpires, hlt⟩ := isExpired_iff.mp hexpired
      simp only [meaning]
      rw [hanswer, hafter]
      exact .swept id t expiresAt read hexpires hlt.le
    · have hmeans : meaning operation stage (.del id) (if (db.get id).isSome then 1 else 0) =
          some (.deleted id (decide (0 < if (db.get id).isSome then 1 else 0))) := by
        cases operation with
        | deleteExpiredJobs t => exact absurd ⟨t, rfl⟩ hsweep
        | _ => rfl
      rw [hmeans, hanswer, hafter]
      exact .deleted id
  | @set job hop =>
    cases h
    have hafter : (db.set job.id (codec.serialize job)).contents =
        db.contents.put (codec.serialize job).job := by
      apply contents_put
      intro id
      rw [Db.get_set, codec.serialize_job]
    simp only [meaning]
    rw [hafter]
    exact .enqueued _
  | @update job now hop => exact update_advances hnamed h
  | @updateIfState job expected now hop =>
    rcases updateIfStateScript_cases hnamed h with ⟨hne, rfl⟩ | ⟨old, rfl, hold, rfl, rfl⟩
    · subst hop
      cases reply with
      | ok => exact absurd rfl hne
      | missing => rfl
      | mismatch =>
        obtain ⟨old, hold, hkind⟩ := updateIfStateScript_mismatch h
        have hjob : db'.contents job.id = some old.job := congrArg (Option.map Blob.job) hold
        exact .unswapped job old.job expected hjob hkind
    · subst hop
      have hjob : db.contents job.id = some old.job := congrArg (Option.map Blob.job) hold
      have hafter : (rewrite db job.id old (codec.serialize job) (newScore now job)).contents =
          db.contents.put (codec.serialize job).job := by
        apply contents_put
        intro id
        rw [get_rewrite, codec.serialize_job]
      simp only [meaning]
      rw [hafter, codec.serialize_job]
      exact .swapped job old.job hjob
  | @requeue _ job back lost t now hop hlost hread hback => exact update_advances hnamed h
  | @claimDue kind source variant field htimed t limit =>
    obtain ⟨mid, heffect, -, hpromoted⟩ :=
      claimDueScript_cases hnamed htimed (smembers_nodup moment.order _) h
    obtain ⟨hnodup, hblobs, hothers⟩ := hpromoted.returned htimed.ne_enqueued heffect.named
    have hmid : ∀ id, mid.get id = db.get id := fun id => (heffect.trims id (by simp)).get
    have hkind : (if source = kindToStateName .scheduled then JobStateKind.scheduled
        else .awaitingRetry) = kind := by
      cases htimed <;> rfl
    have hids : (reply.map Blob.job).map Job.id = reply.map fun blob => blob.job.id := by
      rw [List.map_map]
      rfl
    simp only [meaning]
    rw [hkind]
    refine .promoted kind _ _ htimed.kind_cases (hids ▸ hnodup) (fun job hjob => ?_)
      fun id hid => ?_
    · obtain ⟨blob, hblob, rfl⟩ := List.mem_map.mp hjob
      obtain ⟨hafter, old, now, hold, hk, hrecoded⟩ := hblobs blob hblob
      rw [hmid] at hold
      exact ⟨congrArg (Option.map Blob.job) hafter, old.job, now,
        congrArg (Option.map Blob.job) hold, hk, hrecoded⟩
    · rw [hids] at hid
      rw [Db.contents, hothers id hid, hmid]
      rfl
  | fetch workerId t candidates =>
    rcases fetchScript_cases h with ⟨rfl, rfl, -⟩ | ⟨id, x, rfl, -, -, rfl⟩ |
      ⟨id, x, old, -, hold, hkind, rfl, rfl⟩
    · rfl
    · exact contents_congr fun id' => get_dropStale ..
    · obtain ⟨hid, -, hstate⟩ := recode_processing codec t.truncMicros workerId "redis-storage"
        old.job
      have hrecoded := recoded codec
        { old.job with state := .processing t.truncMicros workerId "redis-storage" } rfl
      have hhead : old.job.id = id := hnamed _ _ hold
      generalize codec.recode _ = new at hid hstate hrecoded
      have hjob : db.contents new.job.id = some old.job := by
        rw [hid, hhead]
        exact congrArg (Option.map Blob.job) hold
      have hafter : (rewrite db id old new none).contents = db.contents.put new.job := by
        apply contents_put
        intro id'
        rw [get_rewrite, hid, hhead]
      have hwaits : old.job.state.kind.waiting = true := by
        rcases hkind with hk | hk <;> rw [hk] <;> rfl
      simp only [meaning]
      rw [hafter]
      exact .handedOut old.job new.job _ workerId _ hjob hwaits hrecoded

end RedisStorage

namespace Traffic

/-- What a step means for the jobs: what the command means that a client sends in it. -/
def meaning (codec : Codec) (x : Step Traffic Event) : Option JobStore.Event :=
  match x.label with
  | .step i moment =>
    match x.before.clients[i]? with
    | some ⟨operation, .call cmd _, stage⟩ =>
      RedisStorage.meaning operation stage cmd (cmd.perform codec moment x.before.db).1
    | _ => none
  | .start _ => none

theorem meaning_step {codec : Codec} {s t : Traffic} {i : Nat} {moment : Moment} {client : Client}
    {ρ : Type} {cmd : Cmd ρ} {k : ρ → Prog Cmd Unit} {reply : ρ} {db : Db}
    (hclient : s.clients[i]? = some client) (hprogram : client.program = .call cmd k)
    (hcmd : cmd.perform codec moment s.db = (reply, db)) :
    meaning codec ⟨s, .step i moment, t⟩ =
      RedisStorage.meaning client.operation client.stage cmd reply := by
  obtain ⟨operation, program, stage⟩ := client
  cases hprogram
  simp only [meaning, hclient, hcmd]

/-- Commands and scripts, in any order, carry out the contract of the backends. -/
def refinement (codec : Codec) : Refinement (Next codec) (JobStore.Next Recoded) where
  inv := Orderly codec
  abs s := s.db.contents
  means := meaning codec
  keeps h hnext := h.next hnext
  advances h hnext := by
    cases next_moves hnext with
    | started => rfl
    | @sent i moment client ρ cmd k reply db hclient hprogram hcmd =>
      have hsent := (h.sent hclient hprogram).1
      rw [meaning_step hclient hprogram hcmd]
      exact sent_advances hsent h.named hcmd

section
variable {codec : Codec} {s t : Traffic} {tr : List (Step Traffic Event)} {i : Nat}
  {client : Client} {id : String} {job : Job}

/-- Client `i` has read the job under the identifier. -/
def HasRead (codec : Codec) (tr : List (Step Traffic Event)) (i : Nat) (id : String)
    (job : Job) : Prop :=
  ∃ y ∈ tr, ∃ moment, y.label = .step i moment ∧ meaning codec y = some (.found id (some job))

theorem HasRead.snoc {x : Step Traffic Event} (h : HasRead codec tr i id job) :
    HasRead codec (tr ++ [x]) i id job := by
  obtain ⟨y, hy, hread⟩ := h
  exact ⟨y, List.mem_append_left _ hy, hread⟩

end
end Traffic
end Qml
