import Qml.Redis.Indices

namespace Qml
open Lib RedisStorage

namespace Db

/-- Two databases with the same blobs, index entries and counters, in whatever order. -/
structure Same (db db' : Db) : Prop where
  get : ∀ id, db.get id = db'.get id
  mem : ∀ key id, db.mem key id = db'.mem key id
  score : ∀ key id, db.score key id = db'.score key id
  count : ∀ field, db.count field = db'.count field

/-- The job under an identifier, if a sweep would delete it. -/
def doomed (now : DateTime) (db : Db) (id : String) : Option Job :=
  match db.get id with
  | some blob => if blob.readable && isExpired now blob.job then some blob.job else none
  | none => none

/-- The sets that `remove_job_indices` takes the identifier of a job from. -/
def inSet (key : SetKey) (job : Job) : Bool :=
  match key with
  | .all => true
  | .state name => decide (name = stateToString job.state)

def inQueue (key : ZKey) (job : Job) : Bool :=
  match key with
  | .available => true
  | .byQueue queue => decide (queue = job.queue)

/-- What a sweep over some identifiers does to a database. -/
structure Swept (now : DateTime) (ids : String → Bool) (db db' : Db) : Prop where
  get : ∀ id, db'.get id = if ids id && (db.doomed now id).isSome then none else db.get id
  mem : ∀ key id, db'.mem key id =
    (db.mem key id && !(ids id && (db.doomed now id).any (inSet key)))
  score : ∀ key id, db'.score key id =
    if ids id && (db.doomed now id).any (inQueue key) then none else db.score key id
  drift : ∀ kind, db'.drift kind = db.drift kind
  others : ∀ field, (∀ kind, field ≠ kindToStateName kind) → db'.count field = db.count field

section
variable {now : DateTime} {ids ids' : String → Bool} {db db' db'' : Db} {id : String}
  {kind : JobStateKind} {blob : Blob} {job : Job}

theorem stored_congr (h : ∀ id, db.get id = db'.get id) : db.stored kind = db'.stored kind := by
  suffices hsame : ∀ id, (db.jobs.filter fun _ => Blob.isIn kind).contains id =
      (db'.jobs.filter fun _ => Blob.isIn kind).contains id from Dict.size_congr hsame
  intro id
  have hget : db.jobs.get? id = db'.jobs.get? id := h id
  rw [Dict.contains, Dict.contains, Dict.get?_filter, Dict.get?_filter, hget]

namespace Swept

theorem nothing (h : ∀ id, ids id = true → db.doomed now id = none) : Swept now ids db db where
  get id := by
    cases hid : ids id with
    | false => rfl
    | true => rw [h id hid]; rfl
  mem key id := by
    cases hid : ids id with
    | false => simp
    | true => simp [h id hid]
  score key id := by
    cases hid : ids id with
    | false => rfl
    | true => rw [h id hid]; rfl
  drift _ := rfl
  others _ _ := rfl

theorem doomed_after (h : Swept now ids db db') : db'.doomed now id =
    if ids id && (db.doomed now id).isSome then none else db.doomed now id := by
  rw [doomed, h.get]
  split
  · rename_i hgone
    split at hgone
    · cases hgone
    · rename_i hkept
      rw [if_neg hkept, doomed, hgone]
  · rename_i hgone
    split
    · rfl
    · rename_i hkept
      rw [if_neg hkept] at hgone
      rw [doomed, hgone]

theorem trans (h : Swept now ids db db') (h' : Swept now ids' db' db'') :
    Swept now (fun id => ids id || ids' id) db db'' where
  get id := by
    rw [h'.get, h.doomed_after, h.get]
    cases ids id <;> cases ids' id <;> cases db.doomed now id <;> simp
  mem key id := by
    rw [h'.mem, h.doomed_after, h.mem]
    cases ids id <;> cases ids' id <;> cases db.doomed now id <;> simp
  score key id := by
    rw [h'.score, h.doomed_after, h.score]
    cases ids id <;> cases ids' id <;> cases hjob : db.doomed now id <;> simp
  drift kind := (h'.drift kind).trans (h.drift kind)
  others field hfield := (h'.others field hfield).trans (h.others field hfield)

/-- What was swept is determined by which of the doomed jobs were looked at. -/
theorem same (h : Swept now ids db db') (h' : Swept now ids' db db'')
    (hids : ∀ id, (db.doomed now id).isSome → ids id = ids' id) : Same db' db'' := by
  have hget : ∀ id, db'.get id = db''.get id := by
    intro id
    rw [h.get, h'.get]
    cases hdoomed : db.doomed now id with
    | none => simp
    | some job => rw [hids id (by rw [hdoomed]; rfl)]
  refine ⟨hget, fun key id => ?_, fun key id => ?_, fun field => ?_⟩
  · rw [h.mem, h'.mem]
    cases hdoomed : db.doomed now id with
    | none => simp
    | some job => rw [hids id (by rw [hdoomed]; rfl)]
  · rw [h.score, h'.score]
    cases hdoomed : db.doomed now id with
    | none => simp
    | some job => rw [hids id (by rw [hdoomed]; rfl)]
  · by_cases hfield : ∃ kind, field = kindToStateName kind
    · obtain ⟨kind, rfl⟩ := hfield
      have hdrift : db'.drift kind = db''.drift kind := (h.drift kind).trans (h'.drift kind).symm
      have hstored : db'.stored kind = db''.stored kind := stored_congr hget
      rw [Db.drift, Db.drift, hstored] at hdrift
      exact sub_left_inj.mp hdrift
    · have hnone : ∀ kind, field ≠ kindToStateName kind := fun kind h => hfield ⟨kind, h⟩
      rw [h.others field hnone, h'.others field hnone]

/-- Deleting one doomed job, as a sweep does. -/
theorem drop (hget : db.get id = some blob)
    (hexpired : (blob.readable && isExpired now blob.job) = true) :
    Swept now (fun other => decide (other = id)) db ((db.unindex id blob.job).del id) where
  get other := by
    by_cases hother : other = id
    · subst hother
      simp [doomed, hget, hexpired]
    · simp [hother, unindex]
  mem key other := by
    by_cases hother : other = id
    · subst hother
      cases key <;> simp [doomed, hget, hexpired, unindex, inSet, Bool.and_comm]
    · simp [hother, unindex]
  score key other := by
    by_cases hother : other = id
    · subst hother
      cases key <;> simp [doomed, hget, hexpired, unindex, inQueue]
    · simp [hother, unindex]
  drift kind := by
    have hsame : (db.unindex id blob.job).get id = some blob := by simp [unindex, hget]
    rw [drift_del, share_some hsame]
    simp only [unindex, stateToString, drift_hincrby, drift_zrem, drift_srem, Blob.isIn,
      decide_eq_true_eq]
    by_cases hkind : kind = blob.job.state.kind
    · simp [hkind]
    · simp [hkind, Ne.symm hkind]
  others field hfield := by
    simp [unindex, stateToString, hfield]

theorem cons {ids : List String}
    (h : Swept now (fun other => decide (other = id)) db db')
    (h' : Swept now (fun other => decide (other ∈ ids)) db' db'') :
    Swept now (fun other => decide (other ∈ id :: ids)) db db'' := by
  have hids : (fun other => decide (other ∈ id :: ids)) =
      fun other => decide (other = id) || decide (other ∈ ids) := by
    funext other
    simp
  rw [hids]
  exact h.trans h'

theorem skip (h : db.doomed now id = none) : Swept now (fun other => decide (other = id)) db db :=
  nothing fun _ hother => (of_decide_eq_true hother) ▸ h

end Swept
end
end Db

/-- Whether a step of a method is sent to the server, where it can fail. -/
def Cmd.sent : Cmd ρ → Bool
  | .now => false
  | _ => true

/-- The operations that are made of several commands. -/
inductive MultiCommand
  | enqueue (job : Job)
  | delete (jobId : String)
  | deleteExpiredJobs (now : DateTime)

namespace MultiCommand

def operation : MultiCommand → Operation
  | .enqueue job => .enqueue job
  | .delete jobId => .delete jobId
  | .deleteExpiredJobs now => .deleteExpiredJobs now

/-- A call that succeeds. -/
def call (codec : Codec) (op : MultiCommand) (moments : Nat → Moment) (db : Db) :
    Option (Unit × Db) :=
  (op.operation.program codec).alone (fun moment db _ cmd => some (cmd.perform codec moment db))
    moments db

/-- A call that returns an error: a command fails after `n` others, whether it was carried out
or not, and the method returns at once. -/
def fail (codec : Codec) (op : MultiCommand) (taken : Bool) (n : Nat) (moments : Nat → Moment)
    (db : Db) : Option (((ρ : Type) × Cmd ρ) × Db) :=
  (op.operation.program codec).cut
    (fun moment db _ cmd => some (cmd.perform codec moment db)) Cmd.sent taken n moments db

/-- The failures that a second call makes up for. -/
def recovers : MultiCommand → Bool → Cmd ρ → Bool
  | .enqueue _, _, .set .. | .enqueue _, _, .sadd .. => true
  | .enqueue _, taken, .hincrby .. => !taken
  | .delete _, _, .get _ => true
  | .delete _, taken, .del _ => !taken
  | .delete _, taken, .hincrby .. => taken
  | .deleteExpiredJobs _, _, .smembers _ | .deleteExpiredJobs _, _, .get _
  | .deleteExpiredJobs _, _, .srem (.state _) _ => true
  | .deleteExpiredJobs _, taken, .srem .all _ => !taken
  | .deleteExpiredJobs _, taken, .del _ => taken
  | _, _, _ => false

end MultiCommand

namespace RedisStorage
variable {codec : Codec} {now : DateTime} {db db' : Db} {ids : List String} {removed : Nat}

theorem wp_sweep : Prog.wp (Alone codec)
    (fun _ t => Db.Swept now (fun id => decide (id ∈ ids)) db t) (sweep now ids removed) db := by
  induction ids generalizing db removed with
  | nil => exact .nothing fun id hid => by simp at hid
  | cons id ids ih =>
    rw [sweep, Prog.ask_bind, wp_cmd]
    intro _
    simp only [Cmd.perform]
    cases hget : db.get id with
    | none =>
      have hdoomed : db.doomed now id = none := by rw [Db.doomed, hget]
      exact Prog.wp_mono (fun _ _ h => (Db.Swept.skip hdoomed).cons h) ih
    | some blob =>
      by_cases hexpired : (blob.readable && isExpired now blob.job) = true
      · simp only [hexpired, if_true, wp_removal, Prog.ask_bind, wp_cmd, Cmd.perform]
        exact fun _ => Prog.wp_mono (fun _ _ h => (Db.Swept.drop hget hexpired).cons h) ih
      · have hdoomed : db.doomed now id = none := by rw [Db.doomed, hget]; exact if_neg hexpired
        simp only [hexpired]
        exact Prog.wp_mono (fun _ _ h => (Db.Swept.skip hdoomed).cons h) ih

/-- A whole pass looks at every identifier of the set of all jobs. -/
theorem wp_deleteExpiredJobs : Prog.wp (Alone codec)
    (fun _ t => Db.Swept now (db.mem .all) db t) (deleteExpiredJobs now) db := by
  rw [deleteExpiredJobs, Prog.ask_bind, wp_cmd]
  intro moment
  have hids : db.mem .all = fun id => decide (id ∈ db.smembers moment.order .all) := by
    funext id
    rw [Bool.eq_iff_iff, decide_eq_true_iff]
    exact mem_smembers_iff.symm
  rw [hids]
  exact wp_sweep

/-- What `delete` does when it succeeds. -/
def deleted (db : Db) (jobId : String) : Db :=
  match db.get jobId with
  | some blob => if blob.readable then (db.del jobId).unindex jobId blob.job else db
  | none => db

theorem wp_delete {jobId : String} :
    Prog.wp (Alone codec) (fun _ t => t = deleted db jobId) (delete jobId) db := by
  rw [delete, wp_get, deleted]
  cases hget : db.get jobId with
  | none => rfl
  | some blob =>
    cases hread : blob.readable with
    | false => simp [parse, hread, Except.map]
    | true =>
      simp only [parse, hread, if_true, Except.map, Prog.ask_bind, wp_cmd, Cmd.perform, hget,
        Option.isSome_some, gt_iff_lt, Nat.lt_one_iff, wp_removal]
      exact fun _ => rfl

section
variable {taken : Bool} {failed : (ρ : Type) × Cmd ρ} {db₀ db₁ : Db} {α ρ : Type} {jobId : String}
  {job : Job}

/-- A method stops at a command that fails. -/
def Stops (codec : Codec) (taken : Bool) (program : Prog Cmd α) (db : Db)
    (failed : (ρ : Type) × Cmd ρ) (db₁ : Db) : Prop :=
  ∃ n moments, program.cut (fun moment db _ cmd => some (cmd.perform codec moment db)) Cmd.sent
    taken n moments db = some (failed, db₁)

theorem Stops.cmd {cmd : Cmd ρ} {k : ρ → Prog Cmd α} (hsent : cmd.sent = true)
    (h : Stops codec taken (.call cmd k) db failed db₁) : ∃ moment,
      failed = ⟨ρ, cmd⟩ ∧ db₁ = (if taken then (cmd.perform codec moment db).2 else db) ∨
      Stops codec taken (k (cmd.perform codec moment db).1) (cmd.perform codec moment db).2
        failed db₁ := by
  obtain ⟨n, moments, hcut⟩ := h
  exact ⟨moments 0, Prog.cut_call rfl hsent hcut⟩

theorem Stops.clock {k : DateTime → Prog Cmd α}
    (h : Stops codec taken (.call .now k) db failed db₁) : ∃ t,
      Stops codec taken (k t) db failed db₁ := by
  obtain ⟨n, moments, hcut⟩ := h
  exact ⟨_, Prog.cut_other rfl rfl hcut⟩

theorem Stops.pure {a : α} (h : Stops codec taken (Prog.pure a) db failed db₁) : False := by
  obtain ⟨n, moments, hcut⟩ := h
  cases hcut

/-- Where `remove_job_indices` can stop. -/
inductive Removing (taken : Bool) (jobId : String) (job : Job) (db : Db) :
    (ρ : Type) × Cmd ρ → Db → Prop
  | state : Removing taken jobId job db ⟨_, .srem (.state (stateToString job.state)) jobId⟩
      (if taken then db.srem (.state (stateToString job.state)) jobId else db)
  | all (db₀ : Db) (h₀ : db₀ = db.srem (.state (stateToString job.state)) jobId) :
      Removing taken jobId job db ⟨_, .srem .all jobId⟩
        (if taken then db₀.srem .all jobId else db₀)
  | available (db₀ : Db)
      (h₀ : db₀ = (db.srem (.state (stateToString job.state)) jobId).srem .all jobId) :
      Removing taken jobId job db ⟨_, .zrem .available jobId⟩
        (if taken then db₀.zrem .available jobId else db₀)
  | byQueue (db₀ : Db)
      (h₀ : db₀ = ((db.srem (.state (stateToString job.state)) jobId).srem .all jobId).zrem
        .available jobId) :
      Removing taken jobId job db ⟨_, .zrem (.byQueue job.queue) jobId⟩
        (if taken then db₀.zrem (.byQueue job.queue) jobId else db₀)
  | counter (db₀ : Db)
      (h₀ : db₀ = (((db.srem (.state (stateToString job.state)) jobId).srem .all jobId).zrem
        .available jobId).zrem (.byQueue job.queue) jobId) :
      Removing taken jobId job db ⟨_, .hincrby (stateToString job.state) (-1)⟩
        (if taken then db.unindex jobId job else db₀)

theorem Stops.removal {k : Unit → Prog Cmd α}
    (h : Stops codec taken (removeJobIndices jobId job >>= k) db failed db₁) :
    Removing taken jobId job db failed db₁ ∨
      Stops codec taken (k ()) (db.unindex jobId job) failed db₁ := by
  obtain ⟨_, ⟨rfl, rfl⟩ | h⟩ := Stops.cmd rfl h
  · exact .inl .state
  obtain ⟨_, ⟨rfl, rfl⟩ | h⟩ := Stops.cmd rfl h
  · exact .inl (.all _ rfl)
  obtain ⟨_, ⟨rfl, rfl⟩ | h⟩ := Stops.cmd rfl h
  · exact .inl (.available _ rfl)
  obtain ⟨_, ⟨rfl, rfl⟩ | h⟩ := Stops.cmd rfl h
  · exact .inl (.byQueue _ rfl)
  obtain ⟨_, ⟨rfl, rfl⟩ | h⟩ := Stops.cmd rfl h
  · exact .inl (.counter _ rfl)
  · exact .inr h

theorem Stops.of_discard {program : Prog Cmd α} {β : Type} {b : β}
    (h : Stops codec taken (program >>= fun _ => Prog.pure b) db failed db₁) :
    Stops codec taken program db failed db₁ := by
  obtain ⟨n, moments, hcut⟩ := h
  exact ⟨n, moments, (Prog.cut_map program fun _ => b).symm.trans hcut⟩

/-- Only entries of the given job differ. -/
structure Touched (job : Job) (db db₁ : Db) : Prop where
  get : ∀ id, id ≠ job.id → db₁.get id = db.get id
  mem : ∀ key id, ¬ (id = job.id ∧ Db.inSet key job = true) → db₁.mem key id = db.mem key id
  score : ∀ key id, ¬ (id = job.id ∧ Db.inQueue key job = true) →
    db₁.score key id = db.score key id

namespace Touched

theorem refl : Touched job db db := ⟨fun _ _ => rfl, fun _ _ _ => rfl, fun _ _ _ => rfl⟩

theorem set {blob : Blob} (h : Touched job db db₁) : Touched job db (db₁.set job.id blob) where
  get id hid := by simp [hid, h.get id hid]
  mem key id hkey := by simp [h.mem key id hkey]
  score key id hkey := by simp [h.score key id hkey]

theorem sadd (key : SetKey) (h : Touched job db db₁) (hkey : Db.inSet key job = true) :
    Touched job db (db₁.sadd key job.id) where
  get id hid := by simp [h.get id hid]
  mem key' id hkey' := by
    have hother : ¬ (key' = key ∧ id = job.id) := fun hboth => hkey' ⟨hboth.2, hboth.1 ▸ hkey⟩
    simp [hother, h.mem key' id hkey']
  score key' id hkey' := by simp [h.score key' id hkey']

theorem hincrby (field : String) (delta : Int) (h : Touched job db db₁) :
    Touched job db (db₁.hincrby field delta) :=
  ⟨h.get, h.mem, h.score⟩

theorem zadd (key : ZKey) (x : ℚ) (h : Touched job db db₁) (hkey : Db.inQueue key job = true) :
    Touched job db (db₁.zadd key job.id x) where
  get id hid := by simp [h.get id hid]
  mem key' id hkey' := by simp [h.mem key' id hkey']
  score key' id hkey' := by
    have hother : ¬ (key' = key ∧ id = job.id) := fun hboth => hkey' ⟨hboth.2, hboth.1 ▸ hkey⟩
    simp [hother, h.score key' id hkey']

theorem zrem (key : ZKey) (h : Touched job db db₁) (hkey : Db.inQueue key job = true) :
    Touched job db (db₁.zrem key job.id) where
  get id hid := by simp [h.get id hid]
  mem key' id hkey' := by simp [h.mem key' id hkey']
  score key' id hkey' := by
    have hother : ¬ (key' = key ∧ id = job.id) := fun hboth => hkey' ⟨hboth.2, hboth.1 ▸ hkey⟩
    simp [hother, h.score key' id hkey']

/-- Whether or not the last command was carried out. -/
theorem last {db₂ : Db} (h : Touched job db db₁) (h' : Touched job db db₂) :
    Touched job db (if taken then db₂ else db₁) := by
  cases taken
  · exact h
  · exact h'

end Touched

theorem count_add {blob : Blob} {x : Option ℚ} {field : String} :
    (db.add blob x).count field =
      db.count field + if field = stateToString blob.job.state then 1 else 0 := by
  cases x <;> simp [Db.add, index]

/-- Adding a job over a half-added one leaves what adding it at once leaves, but for the
counters. -/
theorem Touched.add_same {blob : Blob} {x : Option ℚ} (h : Touched blob.job db db₁)
    (hcount : ∀ field, db₁.count field = db.count field) :
    (db₁.add blob x).Same (db.add blob x) where
  get id := by
    by_cases hid : id = blob.job.id
    · simp [Db.add, hid]
    · simp [Db.add, hid, h.get id hid]
  mem key id := by
    by_cases hkey : id = blob.job.id ∧ Db.inSet key blob.job = true
    · obtain ⟨rfl, hset⟩ := hkey
      cases key with
      | all => simp [Db.add]
      | state name =>
        have hname : name = stateToString blob.job.state := of_decide_eq_true hset
        simp [Db.add, hname]
    · simp [Db.add, h.mem key id hkey]
  score key id := by
    by_cases hkey : id = blob.job.id ∧ Db.inQueue key blob.job = true
    · obtain ⟨rfl, hqueue⟩ := hkey
      cases key with
      | available => simp [Db.add]
      | byQueue queue =>
        have hname : queue = blob.job.queue := of_decide_eq_true hqueue
        simp [Db.add, hname]
    · simp [Db.add, h.score key id hkey]
  count field := by rw [count_add, count_add, hcount]

/-- Where an `enqueue` can stop, and what it leaves: the counter runs ahead once it was
incremented. -/
theorem stops_enqueue (h : Stops codec taken (enqueue codec job) db failed db₁) :
    Touched job db db₁ ∧ ∀ field, db₁.count field = db.count field +
      if (MultiCommand.enqueue job).recovers taken failed.2 = false ∧
        field = stateToString job.state then 1 else 0 := by
  have hstate : Db.inSet (.state (stateToString job.state)) job = true := decide_eq_true rfl
  have hqueue : Db.inQueue (.byQueue job.queue) job = true := decide_eq_true rfl
  have hset : Touched job db (db.set job.id (codec.serialize job)) := Touched.refl.set
  obtain ⟨_, ⟨rfl, rfl⟩ | h⟩ := Stops.cmd rfl h
  · refine ⟨Touched.refl.last hset, fun field => ?_⟩
    cases taken <;> simp [MultiCommand.recovers, Cmd.perform]
  have hlisted := hset.sadd _ hstate
  obtain ⟨_, ⟨rfl, rfl⟩ | h⟩ := Stops.cmd rfl h
  · refine ⟨hset.last hlisted, fun field => ?_⟩
    cases taken <;> simp [MultiCommand.recovers, Cmd.perform]
  have hadded := hlisted.sadd .all rfl
  obtain ⟨_, ⟨rfl, rfl⟩ | h⟩ := Stops.cmd rfl h
  · refine ⟨hlisted.last hadded, fun field => ?_⟩
    cases taken <;> simp [MultiCommand.recovers, Cmd.perform]
  have hcounted := hadded.hincrby (stateToString job.state) 1
  obtain ⟨_, ⟨rfl, rfl⟩ | h⟩ := Stops.cmd rfl h
  · refine ⟨hadded.last hcounted, fun field => ?_⟩
    cases taken <;> simp [MultiCommand.recovers, Cmd.perform]
  obtain ⟨now, h⟩ := Stops.clock h
  change Stops codec taken ((if isJobAvailable now job then _ else _) >>= _) _ failed db₁ at h
  cases havail : isJobAvailable now job with
  | true =>
    rw [havail] at h
    have hready := hcounted.zadd .available (score job) rfl
    obtain ⟨_, ⟨rfl, rfl⟩ | h⟩ := Stops.cmd rfl h
    · refine ⟨hcounted.last hready, fun field => ?_⟩
      cases taken <;> simp [MultiCommand.recovers, Cmd.perform]
    obtain ⟨_, ⟨rfl, rfl⟩ | h⟩ := Stops.cmd rfl h
    · refine ⟨hready.last (hready.zadd _ _ hqueue), fun field => ?_⟩
      cases taken <;> simp [MultiCommand.recovers, Cmd.perform]
    · exact h.pure.elim
  | false =>
    rw [havail] at h
    have hwaiting := hcounted.zrem .available rfl
    obtain ⟨_, ⟨rfl, rfl⟩ | h⟩ := Stops.cmd rfl h
    · refine ⟨hcounted.last hwaiting, fun field => ?_⟩
      cases taken <;> simp [MultiCommand.recovers, Cmd.perform]
    obtain ⟨_, ⟨rfl, rfl⟩ | h⟩ := Stops.cmd rfl h
    · refine ⟨hwaiting.last (hwaiting.zrem _ hqueue), fun field => ?_⟩
      cases taken <;> simp [MultiCommand.recovers, Cmd.perform]
    · exact h.pure.elim

/-- Where a `delete` can stop: once the blob is gone, a second call finds nothing to do, so
the counter only follows if the last command was carried out. -/
theorem stops_delete (h : Stops codec taken (delete jobId) db failed db₁) :
    if (MultiCommand.delete jobId).recovers taken failed.2 then
      deleted db₁ jobId = deleted db jobId
    else ∃ field, (deleted db₁ jobId).count field ≠ (deleted db jobId).count field := by
  obtain ⟨_, ⟨rfl, rfl⟩ | h⟩ := Stops.cmd rfl h
  · cases taken <;> rfl
  change Stops codec taken ((match db.get jobId with
    | some blob => Prog.pure ((parse "Failed to deserialize job" blob).map some)
    | none => Prog.pure (.ok none)) >>= _) db failed db₁ at h
  cases hget : db.get jobId with
  | none =>
    rw [hget] at h
    exact h.pure.elim
  | some blob =>
    rw [hget] at h
    cases hread : blob.readable with
    | false =>
      simp only [parse, hread] at h
      exact h.pure.elim
    | true =>
      simp only [parse, hread] at h
      have hdeleted : deleted db jobId = (db.del jobId).unindex jobId blob.job := by
        rw [deleted, hget]
        exact if_pos hread
      -- from here on a second call finds no blob
      have hlost : ∀ db₁, db₁.get jobId = none → deleted db₁ jobId = db₁ := fun db₁ hnone => by
        rw [deleted, hnone]
      obtain ⟨_, ⟨rfl, rfl⟩ | h⟩ := Stops.cmd rfl h
      · cases taken
        · rfl
        · refine ⟨stateToString blob.job.state, ?_⟩
          rw [hdeleted, hlost _ (by simp [Cmd.perform])]
          simp [Cmd.perform, Db.unindex]
      · simp only [Cmd.perform, hget] at h
        change Stops codec taken (removeJobIndices jobId blob.job >>= fun _ =>
          Prog.pure (Except.ok true)) (db.del jobId) failed db₁ at h
        rcases h.removal with hremoving | h
        · rw [hdeleted]
          cases hremoving with
          | state | all db₀ h₀ | available db₀ h₀ | byQueue db₀ h₀ =>
            refine ⟨stateToString blob.job.state, ?_⟩
            rw [hlost _ (by cases taken <;> simp [*])]
            cases taken <;> simp [*, Db.unindex]
          | counter db₀ h₀ =>
            cases taken
            · refine ⟨stateToString blob.job.state, ?_⟩
              rw [hlost _ (by simp [h₀])]
              simp [h₀, Db.unindex]
            · exact hlost _ (by simp [Db.unindex])
        · exact h.pure.elim

/-- Some entries of doomed jobs that are still listed are gone already. -/
structure Nibbled (now : DateTime) (db₀ db₁ : Db) : Prop where
  get : ∀ id, db₁.get id = db₀.get id
  mem : ∀ key id, db₁.mem key id = db₀.mem key id ∨ key ≠ .all ∧ db₀.mem .all id = true ∧
    (db₀.doomed now id).any (Db.inSet key) = true
  score : ∀ key id, db₁.score key id = db₀.score key id
  count : ∀ field, db₁.count field = db₀.count field

theorem Nibbled.refl : Nibbled now db db :=
  ⟨fun _ => rfl, fun _ _ => .inl rfl, fun _ _ => rfl, fun _ => rfl⟩

/-- The next pass makes no difference between them. -/
theorem Nibbled.swept {db₂ : Db} (h : Nibbled now db₀ db₁)
    (hpass : Db.Swept now (db₁.mem .all) db₁ db₂) : Db.Swept now (db₀.mem .all) db₀ db₂ := by
  have hdoomed : ∀ id, db₁.doomed now id = db₀.doomed now id := fun id => by
    rw [Db.doomed, Db.doomed, h.get]
  have hall : db₁.mem .all = db₀.mem .all := by
    funext id
    rcases h.mem .all id with hsame | hgone
    · exact hsame
    · exact absurd rfl hgone.1
  constructor
  · intro id
    rw [hpass.get, hall, hdoomed, h.get]
  · intro key id
    rw [hpass.mem, hall, hdoomed]
    rcases h.mem key id with hsame | ⟨-, hlisted, hin⟩
    · rw [hsame]
    · rw [hlisted, hin]
      simp
  · intro key id
    rw [hpass.score, hall, hdoomed, h.score]
  · intro kind
    rw [hpass.drift, Db.drift, Db.drift, h.count, Db.stored_congr h.get]
  · intro field hfield
    rw [hpass.others field hfield, h.count]

theorem Nibbled.srem {id name : String} (hlisted : db.mem .all id = true)
    (hin : (db.doomed now id).any (Db.inSet (.state name)) = true) :
    Nibbled now db (db.srem (.state name) id) where
  get _ := rfl
  mem key other := by
    by_cases hkey : key = .state name ∧ other = id
    · obtain ⟨rfl, rfl⟩ := hkey
      exact .inr ⟨by simp, hlisted, hin⟩
    · exact .inl (by simp [hkey])
  score _ _ := rfl
  count _ := rfl

/-- Where a sweep has stopped: with some doomed jobs swept and the next one still listed, or
with a doomed job stored that no later pass will look at. -/
inductive Halted (now : DateTime) (ids : List String) (db db₁ : Db) : Bool → Prop
  | listed (done : String → Bool) (db₀ : Db) (hdone : ∀ id, done id = true → id ∈ ids)
      (hswept : Db.Swept now done db db₀) (hnibbled : Nibbled now db₀ db₁) :
      Halted now ids db db₁ true
  | stranded (id : String) (hid : id ∈ ids) (hdoomed : (db.doomed now id).isSome)
      (hstored : (db₁.get id).isSome) (hunlisted : db₁.mem .all id = false) :
      Halted now ids db db₁ false

theorem Halted.after {id : String} {b : Bool} (h : Halted now ids db db₁ b)
    (hswept : Db.Swept now (fun other => decide (other = id)) db' db) :
    Halted now (id :: ids) db' db₁ b := by
  cases h with
  | listed done db₀ hdone hlater hnibbled =>
    refine .listed _ db₀ (fun other hother => ?_) (hswept.trans hlater) hnibbled
    rcases Bool.or_eq_true_iff.mp hother with heq | hlater
    · rw [of_decide_eq_true heq]
      exact List.mem_cons_self
    · exact List.mem_cons_of_mem _ (hdone other hlater)
  | stranded other hother hdoomed hstored hunlisted =>
    refine .stranded other (List.mem_cons_of_mem _ hother) ?_ hstored hunlisted
    rw [hswept.doomed_after] at hdoomed
    split at hdoomed
    · cases hdoomed
    · exact hdoomed

theorem stops_sweep (hlisted : ∀ id ∈ ids, db.mem .all id = true) (hnodup : ids.Nodup)
    (h : Stops codec taken (sweep now ids removed) db failed db₁) :
    Halted now ids db db₁ ((MultiCommand.deleteExpiredJobs now).recovers taken failed.2) := by
  induction ids generalizing db removed with
  | nil => exact h.pure.elim
  | cons id ids ih =>
    obtain ⟨hfresh, hnodup⟩ := List.nodup_cons.mp hnodup
    have hid : db.mem .all id = true := hlisted id List.mem_cons_self
    have hnone : Db.Swept now (fun _ => false) db db := .nothing fun _ hid => by cases hid
    have hrest : ∀ db' removed, Db.Swept now (fun other => decide (other = id)) db db' →
        Stops codec taken (sweep now ids removed) db' failed db₁ → Halted now (id :: ids) db db₁
          ((MultiCommand.deleteExpiredJobs now).recovers taken failed.2) := by
      intro db' removed hswept h
      refine (ih (fun other hother => ?_) hnodup h).after hswept
      have hne : other ≠ id := fun heq => hfresh (heq ▸ hother)
      rw [hswept.mem, hlisted other (List.mem_cons_of_mem _ hother)]
      simp [hne]
    obtain ⟨_, ⟨rfl, rfl⟩ | h⟩ := Stops.cmd rfl h
    · refine .listed _ db (fun _ hid => by cases hid) hnone ?_
      cases taken <;> exact .refl
    simp only [Cmd.perform] at h
    cases hget : db.get id with
    | none =>
      rw [hget] at h
      have hdoomed : db.doomed now id = none := by rw [Db.doomed, hget]
      exact hrest db removed (.skip hdoomed) h
    | some blob =>
      rw [hget] at h
      change Stops codec taken (if (blob.readable && isExpired now blob.job) = true then _ else _)
        db failed db₁ at h
      by_cases hexpired : (blob.readable && isExpired now blob.job) = true
      · rw [if_pos hexpired] at h
        have hdoomed : db.doomed now id = some blob.job := by
          rw [Db.doomed, hget]
          exact if_pos hexpired
        have hin : (db.doomed now id).any
            (Db.inSet (.state (stateToString blob.job.state))) = true := by
          rw [hdoomed]
          exact decide_eq_true rfl
        have hstranded : ∀ db₁, db₁.get id = some blob → db₁.mem .all id = false →
            Halted now (id :: ids) db db₁ false := fun db₁ hstored hunlisted =>
          .stranded id List.mem_cons_self (by rw [hdoomed]; rfl) (by rw [hstored]; rfl) hunlisted
        rcases h.removal with hremoving | h
        · cases hremoving with
          | state =>
            refine .listed _ db (fun _ hid => by cases hid) hnone ?_
            cases taken
            · exact .refl
            · exact .srem hid hin
          | all db₀ h₀ =>
            subst h₀
            cases taken
            · exact .listed _ db (fun _ hid => by cases hid) hnone (.srem hid hin)
            · exact hstranded _ (by simp [hget]) (by simp)
          | available db₀ h₀ | byQueue db₀ h₀ =>
            subst h₀
            exact hstranded _ (by cases taken <;> simp [hget]) (by cases taken <;> simp)
          | counter db₀ h₀ =>
            subst h₀
            exact hstranded _ (by cases taken <;> simp [hget, Db.unindex])
              (by cases taken <;> simp [Db.unindex])
        · have hdrop : Db.Swept now (fun other => decide (other = id)) db
              ((db.unindex id blob.job).del id) := .drop hget hexpired
          obtain ⟨_, ⟨rfl, rfl⟩ | h⟩ := Stops.cmd rfl h
          · cases taken
            · exact hstranded _ (by simp [hget, Db.unindex]) (by simp [Db.unindex])
            · refine .listed _ _ (fun other hother => ?_) hdrop .refl
              rw [of_decide_eq_true hother]
              exact List.mem_cons_self
          · exact hrest _ _ hdrop h
      · rw [if_neg hexpired] at h
        have hdoomed : db.doomed now id = none := by
          rw [Db.doomed, hget]
          exact if_neg hexpired
        exact hrest db removed (.skip hdoomed) h

end

end RedisStorage

namespace MultiCommand
variable {codec : Codec} {op : MultiCommand} {taken : Bool} {n : Nat}
  {failed : (ρ : Type) × Cmd ρ} {first again once moments : Nat → Moment}
  {db db₁ db₂ db' : Db} {job : Job} {jobId : String} {now : DateTime} {result : Unit}

theorem call_enqueue (h : (enqueue job).call codec moments db = some (result, db')) :
    db' = db.add (codec.serialize job) (newScore (moments 4).now job) := by
  change Prog.alone _ (((if isJobAvailable (moments 4).now job then _ else _) >>= _) >>= _) _ _ =
    _ at h
  rw [Db.add, newScore, codec.serialize_job]
  cases havail : isJobAvailable (moments 4).now job with
  | true =>
    rw [havail] at h
    exact (congrArg Prod.snd (Option.some.inj h)).symm
  | false =>
    rw [havail] at h
    exact (congrArg Prod.snd (Option.some.inj h)).symm

theorem call_delete (h : (delete jobId).call codec moments db = some (result, db')) :
    db' = deleted db jobId := by
  refine Prog.alone_sound (Q := fun _ t => t = deleted db jobId) alone_step ?_ h
  exact (Prog.wp_bind ..).mpr wp_delete

theorem call_deleteExpiredJobs
    (h : (deleteExpiredJobs now).call codec moments db = some (result, db')) :
    Db.Swept now (db.mem .all) db db' := by
  refine Prog.alone_sound (Q := fun _ t => Db.Swept now (db.mem .all) db t) alone_step ?_ h
  exact (Prog.wp_bind ..).mpr wp_deleteExpiredJobs

theorem fail_stops (h : op.fail codec taken n first db = some (failed, db₁)) :
    Stops codec taken (op.operation.program codec) db failed db₁ := ⟨n, first, h⟩

/-- A second pass after a halted one. -/
theorem pass_again_iff {b : Bool} {ids : List String} (h : Halted now ids db db₁ b)
    (hids : ∀ id ∈ ids, db.mem .all id = true) (hagain : Db.Swept now (db₁.mem .all) db₁ db₂)
    (honce : Db.Swept now (db.mem .all) db db') : db₂.Same db' ↔ b = true := by
  cases h with
  | listed done db₀ hdone hswept hnibbled =>
    refine iff_of_true ((hswept.trans (hnibbled.swept hagain)).same honce fun id hid => ?_) rfl
    rw [hswept.mem]
    cases hdone' : done id with
    | false => simp
    | true => simp [hids id (hdone id hdone')]
  | stranded id hid hdoomed hstored hunlisted =>
    refine iff_of_false (fun hsame => ?_) Bool.false_ne_true
    have hkept : db₂.get id = db₁.get id := by
      rw [hagain.get, hunlisted]
      rfl
    have hgone : db'.get id = none := by
      rw [honce.get, hids id hid, hdoomed]
      rfl
    rw [← hkept, hsame.get, hgone] at hstored
    cases hstored

/-- For every database, and every command of a call that fails, carried out or not: making
the same call again comes to what a single call would have done exactly when the failed
command is one of those listed in `recovers`. -/
theorem retry_converges_iff (hfail : op.fail codec taken n first db = some (failed, db₁))
    (hagain : op.call codec again db₁ = some (result, db₂))
    (honce : op.call codec once db = some (result, db'))
    (hclock : ∀ i, (again i).now = (once i).now) :
    db₂.Same db' ↔ op.recovers taken failed.2 = true := by
  have hstops := fail_stops hfail
  cases op with
  | enqueue job =>
    obtain ⟨htouched, hcounts⟩ := stops_enqueue hstops.of_discard
    rw [call_enqueue hagain, call_enqueue honce, hclock]
    have hblob := codec.serialize_job job
    constructor
    · intro hsame
      have hcount := hsame.count (stateToString job.state)
      rw [count_add, count_add, hcounts] at hcount
      by_contra hlost
      rw [Bool.not_eq_true] at hlost
      simp [hlost] at hcount
    · intro hrecovers
      refine Touched.add_same (by rwa [hblob]) fun field => ?_
      simp [hcounts, hrecovers]
  | delete jobId =>
    have hdeleted := stops_delete hstops.of_discard
    rw [call_delete hagain, call_delete honce]
    split at hdeleted
    · rename_i hrecovers
      rw [hdeleted]
      exact iff_of_true ⟨fun _ => rfl, fun _ _ => rfl, fun _ _ => rfl, fun _ => rfl⟩ hrecovers
    · rename_i hlost
      obtain ⟨field, hfield⟩ := hdeleted
      exact iff_of_false (fun hsame => hfield (hsame.count field)) hlost
  | deleteExpiredJobs now =>
    have hpass := call_deleteExpiredJobs hagain
    have hsingle := call_deleteExpiredJobs honce
    obtain ⟨moment, ⟨rfl, rfl⟩ | hsweep⟩ := Stops.cmd rfl hstops.of_discard
    · have hsame : (if taken then db else db) = db := by cases taken <;> rfl
      change Db.Swept now ((if taken then db else db).mem .all) (if taken then db else db) db₂
        at hpass
      rw [hsame] at hpass
      exact iff_of_true (hpass.same hsingle fun _ _ => rfl) rfl
    · have hids : ∀ id ∈ db.smembers moment.order .all, db.mem .all id = true := fun id hid =>
        mem_smembers_iff.mp hid
      exact pass_again_iff (stops_sweep hids (smembers_nodup _ _) hsweep) hids hpass hsingle

/-- A job that is over, and may be deleted. -/
def spent : Job :=
  { Job.new "a" 0 "send_email" .null with state := .succeeded 0 0 none, expiresAt := some 0 }

def noon : Nat → Moment := fun _ => ⟨Duration.hours 12, []⟩

theorem retry_converges_iff_unlisted : ∃ failed db₁ db₂ db',
    (enqueue spent).fail .lossless false 2 noon .empty = some (failed, db₁) ∧
    (enqueue spent).call .lossless noon db₁ = some ((), db₂) ∧
    (enqueue spent).call .lossless noon .empty = some ((), db') ∧
    (db₂.Same db' ↔ (enqueue spent).recovers false failed.2 = true) := by
  obtain ⟨failed, db₁, hfail⟩ : ∃ failed db₁,
    (enqueue spent).fail .lossless false 2 noon .empty = some (failed, db₁) := ⟨_, _, rfl⟩
  obtain ⟨db₂, hagain⟩ : ∃ db₂, (enqueue spent).call .lossless noon db₁ = some ((), db₂) :=
    ⟨_, rfl⟩
  obtain ⟨db', honce⟩ : ∃ db', (enqueue spent).call .lossless noon .empty = some ((), db') :=
    ⟨_, rfl⟩
  exact ⟨failed, db₁, db₂, db', hfail, hagain, honce,
    retry_converges_iff hfail hagain honce fun _ => rfl⟩

/-- The increment is carried out and its reply lost: the second call counts the job twice. -/
theorem counted_twice : ∃ failed db₁ db₂ db',
    (enqueue spent).fail .lossless true 3 noon .empty = some (failed, db₁) ∧
    (enqueue spent).call .lossless noon db₁ = some ((), db₂) ∧
    (enqueue spent).call .lossless noon .empty = some ((), db') ∧
    db₂.count "succeeded" = 2 ∧ db'.count "succeeded" = 1 ∧ ¬ db₂.Same db' := by
  refine ⟨_, _, _, _, rfl, rfl, rfl, by decide +kernel, by decide +kernel, fun hsame => ?_⟩
  have hcount := hsame.count "succeeded"
  revert hcount
  decide +kernel

end MultiCommand
end Qml
