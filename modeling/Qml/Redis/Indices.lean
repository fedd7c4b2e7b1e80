import Qml.Lib.Run
import Qml.Redis.Effects

namespace Qml
open Lib RedisStorage

namespace Db

/-- What the indices owe to the stored blobs. -/
structure Indexed (db : Db) : Prop where
  states : ∀ kind id, db.mem (.state (kindToStateName kind)) id = true ↔
    ∃ blob, db.get id = some blob ∧ blob.job.state.kind = kind
  counts : ∀ kind, db.count (kindToStateName kind) =
    (db.sets (.state (kindToStateName kind))).size
  all : ∀ id, db.mem .all id = true ↔ (db.get id).isSome
  ready : ∀ id blob, db.get id = some blob → blob.job.state.kind = .enqueued →
    (db.score .available id).isSome ∧ (db.score (.byQueue blob.job.queue) id).isSome
  waiting : ∀ key id, (db.score key id).isSome → ∃ blob, db.get id = some blob ∧
    (blob.job.state.kind = .enqueued ∨ blob.job.state.kind = .scheduled ∨
      blob.job.state.kind = .awaitingRetry)

/-- The same, identifier by identifier, in the form the operations preserve. -/
structure Consistent (db : Db) : Prop where
  named : db.Named
  fits : ∀ id, db.Fits id
  drift : ∀ kind, db.drift kind = 0

variable {db db' : Db} {id : String} {blob : Blob} {written : List String}

theorem waiting_iff {kind : JobStateKind} : kind.waiting = true ↔
    kind = .enqueued ∨ kind = .scheduled ∨ kind = .awaitingRetry := by
  cases kind <;> simp [JobStateKind.waiting]

namespace Consistent

theorem indexes (h : db.Consistent) (hget : db.get id = some blob) : db.Indexes id blob.job :=
  (fits_some hget).mp (h.fits id)

theorem forgets (h : db.Consistent) (hget : db.get id = none) : db.Forgets id :=
  (fits_none hget).mp (h.fits id)

theorem empty : Db.empty.Consistent :=
  ⟨fun _ _ h => (by cases h), fun _ => ⟨fun _ => rfl, fun _ => rfl⟩, fun _ => rfl⟩

theorem effect (h : db.Consistent) (heffect : Effect db db' written) : db'.Consistent :=
  ⟨heffect.named, fun id => heffect.keeps_fits (h.fits id),
    fun kind => (heffect.drift kind).trans (h.drift kind)⟩

theorem states (h : db.Consistent) (kind : JobStateKind) (id : String) :
    db.mem (.state (kindToStateName kind)) id = (db.get id).any (Blob.isIn kind) := by
  cases hget : db.get id with
  | none => exact (h.forgets hget).sets _
  | some blob =>
    rw [(h.indexes hget).state, Option.any_some, Blob.isIn, stateToString]
    exact decide_eq_decide.mpr
      ⟨fun he => (kindToStateName_injective he).symm, fun he => he ▸ rfl⟩

/-- A state set has one member for each blob stored in the state. -/
theorem size_state (h : db.Consistent) (kind : JobStateKind) :
    (db.sets (.state (kindToStateName kind))).size = db.stored kind := by
  suffices hsame : ∀ id, (db.sets (.state (kindToStateName kind))).contains id =
      (db.jobs.filter fun _ => Blob.isIn kind).contains id from Dict.size_congr hsame
  intro id
  refine (h.states kind id).trans ?_
  rw [Dict.contains, Dict.get?_filter, get]
  cases db.jobs.get? id with
  | none => rfl
  | some blob => by_cases hb : blob.isIn kind = true <;> simp [Option.filter, hb]

theorem indexed (h : db.Consistent) : db.Indexed where
  states kind id := by
    rw [h.states]
    simp [Option.any_eq_true, Blob.isIn]
  counts kind := by
    have hdrift : db.count (kindToStateName kind) - db.stored kind = 0 := h.drift kind
    rw [h.size_state]
    exact Int.eq_of_sub_eq_zero hdrift
  all id := by
    cases hget : db.get id with
    | none => simp [(h.forgets hget).sets]
    | some blob => simp [(h.indexes hget).all]
  ready id blob hget := (h.indexes hget).ready
  waiting key id hsome := by
    cases hget : db.get id with
    | none => simp [(h.forgets hget).zsets] at hsome
    | some blob =>
      refine ⟨blob, rfl, waiting_iff.mp ?_⟩
      cases key with
      | available => exact (h.indexes hget).available hsome
      | byQueue queue => exact ((h.indexes hget).byQueue queue hsome).1

end Consistent

/-- What `enqueue` leaves behind. -/
def add (db : Db) (blob : Blob) (x : Option ℚ) : Db :=
  index ((((db.set blob.job.id blob).sadd (.state (stateToString blob.job.state)) blob.job.id).sadd
    .all blob.job.id).hincrby (stateToString blob.job.state) 1) x blob.job.queue blob.job.id

theorem get_add {x : Option ℚ} :
    (db.add blob x).get id = if id = blob.job.id then some blob else db.get id := by
  rw [Db.add, get_index, get_hincrby, get_sadd, get_sadd, get_set]

theorem Named.add {x : Option ℚ} (h : db.Named) : (db.add blob x).Named := by
  intro id b hb
  rw [get_add] at hb
  split at hb
  · cases hb
    exact Eq.symm ‹_›
  · exact h id b hb

theorem Consistent.add {x : Option ℚ} (h : db.Consistent) (hnew : db.get blob.job.id = none)
    (hscore : Scores x blob.job) : (db.add blob x).Consistent where
  named := h.named.add
  fits id := by
    by_cases hid : id = blob.job.id
    · subst hid
      have hf := h.forgets hnew
      have hget : (db.add blob x).get blob.job.id = some blob := by rw [get_add, if_pos rfl]
      rw [fits_some hget]
      exact {
        state := fun name => by simp [Db.add, hf.sets]
        all := by simp [Db.add]
        ready := fun hkind => by simpa [Db.add] using hscore.ready hkind
        available := fun hsome => hscore.waiting (by simpa [Db.add] using hsome)
        byQueue := fun queue hsome => by
          by_cases hq : queue = blob.job.queue
          · exact ⟨hscore.waiting (by simpa [Db.add, hq] using hsome), hq⟩
          · simp [Db.add, hq, hf.zsets] at hsome }
    · exact (Trims.of_same (by simp [Db.add, hid]) (fun key => by simp [Db.add, hid])
        fun key => by simp [Db.add, hid]).fits (h.fits id)
  drift kind := by
    simp only [Db.add, drift_index, stateToString, drift_hincrby, drift_sadd, drift_set,
      share_none hnew, h.drift, Blob.isIn]
    by_cases hk : kind = blob.job.state.kind <;> simp [hk, Ne.symm]

/-- What `remove_job_indices` does. -/
def unindex (db : Db) (id : String) (job : Job) : Db :=
  ((((db.srem (.state (stateToString job.state)) id).srem .all id).zrem .available id).zrem
    (.byQueue job.queue) id).hincrby (stateToString job.state) (-1)

theorem Consistent.remove (h : db.Consistent) (hget : db.get id = some blob) :
    ((db.del id).unindex id blob.job).Consistent where
  named k b hb := by
    simp only [unindex, get_hincrby, get_zrem, get_srem, get_del] at hb
    split at hb
    · cases hb
    · exact h.named k b hb
  fits k := by
    by_cases hk : k = id
    · subst hk
      have hi := h.indexes hget
      have hgone : ((db.del k).unindex k blob.job).get k = none := by simp [unindex]
      rw [fits_none hgone]
      refine ⟨fun key => ?_, fun key => ?_⟩
      · cases key with
        | all => simp [unindex]
        | state name => simp [unindex, hi.state]
      · cases key with
        | available => simp [unindex]
        | byQueue queue =>
          by_cases hq : queue = blob.job.queue
          · simp [unindex, hq]
          · have hout := mt (fun hs => (hi.byQueue queue hs).2) hq
            simpa [unindex, hq] using hout
    · exact (Trims.of_same (by simp [unindex, hk]) (fun key => by simp [unindex, hk])
        fun key => by simp [unindex, hk]).fits (h.fits k)
  drift kind := by
    simp only [unindex, stateToString, drift_hincrby, drift_zrem, drift_srem, drift_del,
      share_some hget, h.drift, Blob.isIn]
    by_cases hk : kind = blob.job.state.kind <;> simp [hk, Ne.symm]

end Db

/-- Nothing else runs: a command meets the database as the one before left it. -/
def Alone (codec : Codec) : Contract Cmd Db where
  may _ _ _ := True
  step db _ cmd reply db' := ∃ moment, cmd.perform codec moment db = (reply, db')

section
variable {codec : Codec} {db : Db} {α ρ : Type} {Q : α → Db → Prop} {job : Job}

theorem alone_step (moment : Moment) (db : Db) {ρ : Type} (cmd : Cmd ρ) (reply : ρ) (db' : Db)
    (h : some (cmd.perform codec moment db) = some (reply, db')) :
    (Alone codec).step db cmd reply db' :=
  ⟨moment, Option.some.inj h⟩

theorem wp_cmd {cmd : Cmd ρ} {k : ρ → Prog Cmd α} :
    Prog.wp (Alone codec) Q (.call cmd k) db ↔ ∀ moment,
      Prog.wp (Alone codec) Q (k (cmd.perform codec moment db).1)
        (cmd.perform codec moment db).2 := by
  rw [Prog.wp_call]
  constructor
  · exact fun h moment => h.2 _ _ ⟨moment, rfl⟩
  · rintro h
    refine ⟨trivial, fun r t ⟨moment, hstep⟩ => ?_⟩
    have hafter := h moment
    rwa [hstep] at hafter

/-- A method keeps the indices in step when it runs alone. -/
abbrev Keeps (codec : Codec) (p : Prog Cmd α) (db : Db) : Prop :=
  p.wp (Alone codec) (fun _ t => t.Consistent) db

theorem Keeps.bind {β : Type} {p : Prog Cmd α} {f : α → Prog Cmd β} (hp : Keeps codec p db)
    (hf : ∀ a (t : Db), t.Consistent → Keeps codec (f a) t) : Keeps codec (p >>= f) db :=
  (Prog.wp_bind _ p f db).mpr (Prog.wp_mono (fun a t => hf a t) hp)

theorem wp_enqueue {Q : Except StorageError Unit → Db → Prop}
    (h : ∀ now, Q (.ok ()) (db.add (codec.serialize job) (newScore now job))) :
    Prog.wp (Alone codec) Q (RedisStorage.enqueue codec job) db := by
  simp only [Db.add, codec.serialize_job, newScore] at h
  simp only [RedisStorage.enqueue, updateJobIndices, Prog.ask_bind, Prog.monad_pure,
    Prog.call_bind, wp_cmd, Cmd.perform]
  intro _ _ _ _ moment
  change Prog.wp _ _ ((if isJobAvailable moment.now job then _ else _) >>= _) _
  have hafter := h moment.now
  by_cases havail : isJobAvailable moment.now job = true
  · simp only [if_pos havail, index] at hafter ⊢
    simp only [Prog.ask_bind, Prog.call_bind, wp_cmd, Cmd.perform]
    exact fun _ _ => hafter
  · simp only [if_neg havail, index] at hafter ⊢
    simp only [Prog.ask_bind, Prog.call_bind, wp_cmd, Cmd.perform]
    exact fun _ _ => hafter

theorem wp_update {Q : Except StorageError Unit → Db → Prop}
    (h : ∀ now reply db', updateScript codec db job (stateToString job.state) (newScore now job) =
      (reply, db') → ∀ result, Q result db') :
    Prog.wp (Alone codec) Q (RedisStorage.update job) db := by
  simp only [RedisStorage.update, Prog.ask_bind, wp_cmd, Cmd.perform]
  intro now _
  generalize hs : updateScript codec db job _ _ = result
  obtain ⟨reply, db'⟩ := result
  cases reply <;> exact h _ _ _ hs _

theorem wp_claimDueJobsLua {Q : Except StorageError (List Job) → Db → Prop}
    {source variant field : String} {t : DateTime} {limit : UInt64}
    (hzero : ∀ result, Q result db)
    (h : ∀ order claimed db', claimDueScript codec db source variant field t limit
      (db.smembers order (.state source)) = (claimed, db') → ∀ result, Q result db') :
    Prog.wp (Alone codec) Q (claimDueJobsLua source variant field t limit) db := by
  unfold claimDueJobsLua
  split
  · exact hzero _
  · rw [Prog.ask_bind, wp_cmd]
    exact fun moment => h moment.order _ _ rfl _

theorem smembers_nodup (order : List String) (key : SetKey) : (db.smembers order key).Nodup :=
  ((db.sets key).reorder order).nodup

theorem mem_smembers_iff {order : List String} {key : SetKey} {id : String} :
    id ∈ db.smembers order key ↔ db.mem key id = true := by
  rw [Db.smembers, ← Dict.contains_iff_mem, Dict.contains_reorder, Db.mem]

theorem enqueue_keeps (h : db.Consistent) (hnew : db.get job.id = none) :
    Keeps codec (RedisStorage.enqueue codec job) db := by
  have hjob := codec.serialize_job job
  refine wp_enqueue fun now => h.add (by rwa [hjob]) ?_
  rw [hjob]
  exact newScore_scores

theorem update_keeps (h : db.Consistent)
    (hqueue : ∀ old, db.get job.id = some old → job.queue = old.job.queue) :
    Keeps codec (RedisStorage.update job) db :=
  wp_update fun _ _ _ hs _ => h.effect (updateScript_effect h.named newScore_scores hqueue hs)

theorem updateIfState_keeps {expected : JobStateKind} (h : db.Consistent)
    (hqueue : ∀ old, db.get job.id = some old → job.queue = old.job.queue) :
    Keeps codec (RedisStorage.updateIfState job expected) db := by
  simp only [Keeps, RedisStorage.updateIfState, Prog.ask_bind, wp_cmd, Cmd.perform]
  intro now _
  generalize hs : updateIfStateScript codec db job _ _ _ = result
  obtain ⟨reply, db'⟩ := result
  have hafter := h.effect (updateIfStateScript_effect h.named newScore_scores hqueue hs)
  cases reply <;> exact hafter

/-- Nothing happens in a database between the reply to a `GET` and the next command. -/
theorem wp_get {jobId : String} {k : Except StorageError (Option Job) → Prog Cmd α} :
    Prog.wp (Alone codec) Q (RedisStorage.get jobId >>= k) db ↔
      Prog.wp (Alone codec) Q (k (match db.get jobId with
        | some blob => (parse "Failed to deserialize job" blob).map some
        | none => .ok none)) db := by
  simp only [RedisStorage.get, Prog.ask_bind, Prog.call_bind, wp_cmd, Cmd.perform, forall_const]
  cases db.get jobId <;> rfl

theorem wp_removal {jobId : String} {k : Unit → Prog Cmd α} :
    Prog.wp (Alone codec) Q (removeJobIndices jobId job >>= k) db ↔
      Prog.wp (Alone codec) Q (k ()) (db.unindex jobId job) := by
  simp only [removeJobIndices, removal, each, Prog.ask_bind, Prog.monad_pure, Prog.call_bind,
    Prog.pure_bind, wp_cmd, Cmd.perform, forall_const, Db.unindex]

theorem delete_keeps {jobId : String} (h : db.Consistent) :
    Keeps codec (RedisStorage.delete jobId) db := by
  rw [RedisStorage.delete, Keeps, wp_get]
  cases hget : db.get jobId with
  | none => exact h
  | some blob =>
    cases hread : blob.readable with
    | false => simpa [parse, hread, Except.map] using h
    | true =>
      simp only [parse, hread, if_true, Except.map, Prog.ask_bind, wp_cmd, Cmd.perform, hget,
        Option.isSome_some, gt_iff_lt, Nat.lt_one_iff, wp_removal]
      exact fun _ => h.remove hget

theorem sweep_keeps {now : DateTime} {ids : List String} {removed : Nat} (h : db.Consistent) :
    Keeps codec (sweep now ids removed) db := by
  induction ids generalizing db removed with
  | nil => exact h
  | cons id ids ih =>
    rw [sweep, Keeps, Prog.ask_bind, wp_cmd]
    intro _
    simp only [Cmd.perform]
    cases hget : db.get id with
    | none => exact ih h
    | some blob =>
      by_cases hexpired : (blob.readable && isExpired now blob.job) = true
      · simp only [hexpired, if_true, wp_removal, Prog.ask_bind, wp_cmd, Cmd.perform]
        exact fun _ => ih (h.remove hget)
      · simp only [hexpired]
        exact ih h

theorem recover_keeps {lost : JobState → Bool} {ids : List String} {recovered : Nat}
    (h : db.Consistent) : Keeps codec (recover lost ids recovered) db := by
  induction ids generalizing db recovered with
  | nil => exact h
  | cons id ids ih =>
    rw [recover, Keeps, wp_get]
    cases hget : db.get id with
    | none => exact ih h
    | some blob =>
      cases hread : blob.readable with
      | false => simpa [parse, hread, Except.map] using h
      | true =>
        simp only [parse, hread, if_true, Except.map]
        split
        · rw [Prog.ask_bind, wp_cmd]
          intro now
          refine Keeps.bind (update_keeps h fun old hold => ?_) fun reply t ht => ?_
          · have hid : blob.job.id = id := h.named _ _ hget
            have hsame : db.get id = some old := hid ▸ hold
            cases hget.symm.trans hsame
            rfl
          · cases reply with
            | error e => exact ht
            | ok _ => exact ih ht
        · exact ih h

theorem claimDueJobsLua_keeps {kind : JobStateKind} {source variant field : String}
    {t : DateTime} {limit : UInt64} (htimed : Timed kind source variant field)
    (h : db.Consistent) :
    Keeps codec (claimDueJobsLua source variant field t limit) db :=
  wp_claimDueJobsLua (fun _ => h) fun order _ _ hs _ =>
    h.effect (claimDueScript_effect h.named htimed (smembers_nodup order _) hs)

theorem fetchAndLockJob_keeps {workerId : String} {queues : Option (List String)}
    (h : db.Consistent) : Keeps codec (RedisStorage.fetchAndLockJob workerId queues) db := by
  simp only [Keeps, RedisStorage.fetchAndLockJob, Prog.ask_bind, wp_cmd, Cmd.perform]
  intro now _
  generalize hs : fetchScript codec db workerId _ _ = result
  obtain ⟨reply, db'⟩ := result
  have hafter := h.effect (fetchScript_effect h.named hs)
  cases reply <;> exact hafter

theorem fetchUpTo_keeps {workerId : String} {queues : Option (List String)} {n : Nat}
    {jobs : List Job} (h : db.Consistent) : Keeps codec (fetchUpTo workerId queues n jobs) db := by
  induction n generalizing db jobs with
  | zero => exact h
  | succ n ih =>
    refine Keeps.bind (fetchAndLockJob_keeps h) fun reply t ht => ?_
    rcases reply with _ | _ | _
    · exact ht
    · exact ht
    · exact ih ht

end

/-- What callers promise: `enqueue` is given a new identifier, and an update
leaves a stored job in its queue. -/
def Operation.admissible (db : Db) : Operation → Bool
  | .enqueue job => (db.get job.id).isNone
  | .update job | .updateIfState job _ =>
    match db.get job.id with
    | some blob => decide (job.queue = blob.job.queue)
    | none => true
  | _ => true

variable {codec : Codec} {db db' : Db}

/-- Every operation that runs alone keeps the indices in step. -/
theorem Operation.keeps {op : Operation} (h : db.Consistent)
    (hok : op.admissible db = true) : Keeps codec (op.program codec) db := by
  cases op with
  | enqueue job => exact (enqueue_keeps h (Option.isNone_iff_eq_none.mp hok)).bind fun _ _ ht => ht
  | update job =>
    refine (update_keeps h fun old hold => ?_).bind fun _ _ ht => ht
    simpa [admissible, hold] using hok
  | updateIfState job expected =>
    refine (updateIfState_keeps h fun old hold => ?_).bind fun _ _ ht => ht
    simpa [admissible, hold] using hok
  | delete jobId => exact (delete_keeps h).bind fun _ _ ht => ht
  | claimDueScheduledJobs t limit =>
    exact (claimDueJobsLua_keeps .scheduled h).bind fun _ _ ht => ht
  | claimDueRetryJobs t limit =>
    exact (claimDueJobsLua_keeps .awaitingRetry h).bind fun _ _ ht => ht
  | deleteExpiredJobs t =>
    refine Keeps.bind ?_ fun _ _ ht => ht
    rw [Keeps, RedisStorage.deleteExpiredJobs, Prog.ask_bind, wp_cmd]
    exact fun _ => sweep_keeps h
  | requeueStrandedJobs staleBefore =>
    refine Keeps.bind ?_ fun _ _ ht => ht
    rw [Keeps, RedisStorage.requeueStrandedJobs, Prog.ask_bind, wp_cmd]
    exact fun _ => recover_keeps h
  | reclaimJobsFromServer serverId =>
    refine Keeps.bind ?_ fun _ _ ht => ht
    rw [Keeps, RedisStorage.reclaimJobsFromServer, Prog.ask_bind, wp_cmd]
    exact fun _ => recover_keeps h
  | fetchAndLockJob workerId queues => exact (fetchAndLockJob_keeps h).bind fun _ _ ht => ht
  | fetchAvailableJobsAtomic workerId limit queues =>
    exact (fetchUpTo_keeps h).bind fun _ _ ht => ht

theorem Db.Consistent.turn {turn : Turn} (h : db.Consistent)
    (hok : turn.operation.admissible db = true) (hturn : db.turn codec turn = some db') :
    db'.Consistent := by
  obtain ⟨⟨_, t⟩, halone, rfl⟩ := Option.map_eq_some_iff.mp hturn
  exact Prog.alone_sound alone_step (Operation.keeps h hok) halone

/-- One operation after the other, from the empty database. -/
abbrev Db.Turns (codec : Codec) (tr : List (Step Db Turn)) (db : Db) : Prop :=
  Run (fun db turn db' => db.turn codec turn = some db') Db.empty tr db

theorem Db.consistent_run {tr : List (Step Db Turn)} (hr : Db.Turns codec tr db)
    (hok : ∀ x ∈ tr, x.label.operation.admissible x.before = true) : db.Consistent := by
  refine hr.stable Db.Consistent .empty fun x hx h => ?_
  obtain ⟨_, -, -, hstep⟩ := hr.of_mem hx
  exact h.turn (hok x hx) hstep

/-- However many operations ran one at a time, every index and every counter
says exactly what the stored blobs say. -/
theorem indices_match_blobs {tr : List (Step Db Turn)} (hr : Db.Turns codec tr db)
    (hok : ∀ x ∈ tr, x.label.operation.admissible x.before = true) : db.Indexed :=
  (Db.consistent_run hr hok).indexed

/-- Two jobs: one is promoted and then deleted, the other is claimed and retried. -/
def mailing : List Turn :=
  let noon : DateTime := 1767268800000000000
  let soon := noon + Duration.minutes 2
  let job := Job.withConfig "b" noon "send_email" .null "mail" 5 3
  let later := { Job.new "a" noon "send_email" .null with
    state := .scheduled noon (noon + Duration.minutes 1) "later" }
  let retry := { job with state := .awaitingRetry noon (noon + Duration.minutes 3) "down" }
  [.at noon (.enqueue job), .at noon (.enqueue later),
    .at soon (.claimDueScheduledJobs soon 10), .at soon (.fetchAndLockJob "w" (some ["mail"])),
    .at soon (.update retry), .at soon (.delete "a")]

theorem indices_match_blobs_mailing :
    ∃ tr db, Db.Turns .lossless tr db ∧ tr.length = 6 ∧ db.Indexed := by
  obtain ⟨db, hr⟩ := replay_run (Db.turn .lossless) .empty mailing
  exact ⟨_, db, hr, by decide +kernel, indices_match_blobs hr (by decide +kernel)⟩

end Qml
