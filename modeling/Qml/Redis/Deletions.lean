import Qml.Redis.Indices
import Qml.Redis.Protocol

namespace Qml
open Lib RedisStorage

/-- The identifiers of the blobs a script has written, read off its reply. -/
def Cmd.writes : {ρ : Type} → Cmd ρ → ρ → List String
  | _, .update job _ _, reply | _, .updateIfState job _ _ _, reply =>
      if reply = .ok then [job.id] else []
  | _, .claimDue .., claimed => claimed.map fun blob => blob.job.id
  | _, .fetch .., claimed => (claimed.map fun blob => blob.job.id).toList
  | _, _, _ => []

/-- The identifier a `DEL` names. -/
def Cmd.deletes : Cmd ρ → Option String
  | .del id => some id
  | _ => none

/-- An update that would move a stored job to another queue. -/
def Cmd.requeues (db : Db) : Cmd ρ → Bool
  | .update job _ _ | .updateIfState job _ _ _ =>
    match db.get job.id with
    | some blob => !decide (job.queue = blob.job.queue)
    | none => false
  | _ => false

/-- Two copies of a job that stand in the same indices. -/
def Job.indexedAs (a b : Job) : Bool :=
  decide (a.state.kind = b.state.kind) && decide (a.queue = b.queue)

def Operation.finds (operation : Operation) (job : Job) : Bool :=
  match operation with
  | .deleteExpiredJobs t => isExpired t job
  | _ => true

namespace Traffic

/-- Some client is removing the identifier from the indices. -/
def windowed (s : Traffic) (id : String) : Bool :=
  s.clients.any fun client => decide (client.stage.window = some id)

/-- Whether a command meets the database in a state that the copy its client has
read, or a removal that another client has begun, does not allow for. -/
def collision (codec : Codec) (s : Traffic) (moment : Moment) (operation : Operation) :
    Stage → {ρ : Type} → Cmd ρ → Bool
  | .read id job, _, .del _ =>
    match s.db.get id with
    | some blob => s.windowed id || !blob.job.indexedAs job
    | none => false
  | .read id job, _, .srem .. =>
    match s.db.get id with
    | some blob => s.windowed id || !blob.job.indexedAs job || !operation.finds blob.job
    | none => true
  | _, _, cmd =>
    cmd.requeues s.db || (cmd.writes (cmd.perform codec moment s.db).1).any s.windowed

def collides (codec : Codec) (s : Traffic) : Event → Bool
  | .start _ => false
  | .step i moment =>
    match s.clients[i]? with
    | some ⟨operation, .call cmd _, stage⟩ => s.collision codec moment operation stage cmd
    | _ => false

end Traffic

/-- The index entries that may be left of an identifier after `made` removals. -/
structure Db.Leftover (db : Db) (id : String) (job : Job) (made : Nat) : Prop where
  state : ∀ name, db.mem (.state name) id = true → name = stateToString job.state ∧ made < 1
  all : db.mem .all id = true → made < 2
  available : (db.score .available id).isSome → made < 3
  byQueue : ∀ queue, (db.score (.byQueue queue) id).isSome → queue = job.queue ∧ made < 4

/-- What a client's removal says of the database: after a `DEL` the blob is
gone, before one it is there, in the state that was read, and expired. -/
def Client.Tracks (client : Client) (db : Db) : Prop :=
  match client.stage with
  | .erased id job made => db.get id = none ∧ db.Leftover id job made
  | .sweeping id job made => ∃ t blob, client.operation = .deleteExpiredJobs t ∧
      db.get id = some blob ∧ blob.job.state.kind = job.state.kind ∧
      isExpired t blob.job = true ∧ db.Leftover id job made
  | _ => True

/-- How far the counter of a state is off on account of a client: one too high
once the blob is gone, one too low once only the blob is left. -/
def Stage.owed (kind : JobStateKind) : Stage → Int
  | .erased _ job _ => if job.state.kind = kind then 1 else 0
  | .sweeping _ job made => if made = 5 ∧ job.state.kind = kind then -1 else 0
  | _ => 0

namespace Traffic

/-- Every identifier either fits or is being removed by exactly one client, and
the counters are off by what the clients owe. -/
structure Tracked (s : Traffic) : Prop where
  follows : ∀ (i : Nat) (client : Client), s.clients[i]? = some client →
    Follows client.operation client.program client.stage
  named : s.db.Named
  settled : ∀ id, (∀ (i : Nat) (client : Client), s.clients[i]? = some client →
    client.stage.window ≠ some id) → s.db.Fits id
  tracks : ∀ (i : Nat) (client : Client), s.clients[i]? = some client → client.Tracks s.db
  solo : ∀ (id : String) (i j : Nat) (client other : Client), s.clients[i]? = some client →
    s.clients[j]? = some other → client.stage.window = some id →
    other.stage.window = some id → i = j
  drift : ∀ kind, s.db.drift kind = (s.clients.map fun client => client.stage.owed kind).sum

end Traffic

section
variable {codec : Codec} {db db' : Db} {id : String} {job : Job} {blob : Blob} {made : Nat}

theorem Db.Trims.leftover (h : Db.Trims db db' id) (hleft : db.Leftover id job made) :
    db'.Leftover id job made := by
  have hsets : ∀ key, db'.mem key id = true → db.mem key id = true := by
    intro key hmem
    rcases h.sets key with hs | ⟨-, hs⟩
    · rwa [hs] at hmem
    · simp [hs] at hmem
  have hzsets : ∀ key, (db'.score key id).isSome → (db.score key id).isSome := by
    intro key hsome
    rcases h.zsets key with hs | ⟨-, hs⟩
    · rwa [hs] at hsome
    · simp [hs] at hsome
  exact ⟨fun name hmem => hleft.state name (hsets _ hmem), fun hmem => hleft.all (hsets _ hmem),
    fun hsome => hleft.available (hzsets _ hsome),
    fun queue hsome => hleft.byQueue queue (hzsets _ hsome)⟩

theorem Db.Trims.tracks {client : Client} (h : client.Tracks db)
    (htrims : ∀ id, client.stage.window = some id → Db.Trims db db' id) : client.Tracks db' := by
  obtain ⟨operation, program, stage⟩ := client
  cases stage with
  | idle | read => trivial
  | erased id job made =>
    have ht := htrims id rfl
    exact ⟨ht.get.trans h.1, ht.leftover h.2⟩
  | sweeping id job made =>
    have ht := htrims id rfl
    obtain ⟨t, blob, hop, hget, hkind, hexpired, hleft⟩ := h
    exact ⟨t, blob, hop, ht.get.trans hget, hkind, hexpired, ht.leftover hleft⟩

theorem Db.Indexes.leftover (h : db.Indexes id blob.job)
    (hsame : blob.job.indexedAs job = true) : db.Leftover id job 0 := by
  simp only [Job.indexedAs, Bool.and_eq_true, decide_eq_true_eq] at hsame
  refine ⟨fun name hmem => ⟨?_, by omega⟩, fun _ => by omega, fun _ => by omega,
    fun queue hsome => ⟨(h.byQueue queue hsome).2.trans hsame.2, by omega⟩⟩
  rw [h.state, decide_eq_true_eq] at hmem
  rw [hmem, stateToString, stateToString, hsame.1]

/-- Once all removals are made nothing is left. -/
theorem Db.Leftover.forgets (h : db.Leftover id job 5) : db.Forgets id := by
  refine ⟨fun key => Bool.eq_false_iff.mpr fun hmem => ?_, fun key => ?_⟩
  · cases key with
    | state name => exact absurd (h.state name hmem).2 (by omega)
    | all => exact absurd (h.all hmem) (by omega)
  · refine Option.not_isSome_iff_eq_none.mp fun hsome => ?_
    cases key with
    | available => exact absurd (h.available hsome) (by omega)
    | byQueue queue => exact absurd (h.byQueue queue hsome).2 (by omega)

/-- What one removal does: it touches one identifier, and the last one the counter. -/
structure Removes (db db' : Db) (id : String) (job : Job) (made : Nat) : Prop where
  get : ∀ k, db'.get k = db.get k
  others : ∀ k, k ≠ id → Db.Trims db db' k
  leftover : db.Leftover id job made → db'.Leftover id job (made + 1)
  drift : ∀ kind, db'.drift kind =
    db.drift kind + if made = 4 ∧ job.state.kind = kind then -1 else 0

theorem removal_removes (codec : Codec) (moment : Moment) (db : Db) {cmd : Cmd Unit}
    (hcmd : (removal id job)[made]? = some cmd) :
    made < 5 ∧ Removes db (cmd.perform codec moment db).2 id job made := by
  match made, hcmd with
  | 0, hcmd =>
    cases hcmd
    refine ⟨by omega, fun _ => rfl, fun k hk => ?_, fun h => ?_, fun kind => by simp [Cmd.perform]⟩
    · exact .of_same rfl (fun key => by simp [Cmd.perform, hk]) fun _ => rfl
    · refine ⟨fun name hmem => ?_, fun _ => by omega, fun _ => by omega,
        fun queue hsome => ⟨(h.byQueue queue hsome).1, by omega⟩⟩
      simp only [Cmd.perform, Db.mem_srem, Bool.and_eq_true] at hmem
      obtain ⟨hne, hmem⟩ := hmem
      simp [(h.state name hmem).1] at hne
  | 1, hcmd =>
    cases hcmd
    refine ⟨by omega, fun _ => rfl, fun k hk => ?_, fun h => ?_, fun kind => by simp [Cmd.perform]⟩
    · exact .of_same rfl (fun key => by simp [Cmd.perform, hk]) fun _ => rfl
    · refine ⟨fun name hmem => ?_, fun hmem => ?_, fun _ => by omega,
        fun queue hsome => ⟨(h.byQueue queue hsome).1, by omega⟩⟩
      · exact absurd (h.state name (by simpa [Cmd.perform] using hmem)).2 (by omega)
      · simp [Cmd.perform] at hmem
  | 2, hcmd =>
    cases hcmd
    refine ⟨by omega, fun _ => rfl, fun k hk => ?_, fun h => ?_, fun kind => by simp [Cmd.perform]⟩
    · exact .of_same rfl (fun _ => rfl) fun key => by simp [Cmd.perform, hk]
    · refine ⟨fun name hmem => absurd (h.state name hmem).2 (by omega),
        fun hmem => absurd (h.all hmem) (by omega), fun hsome => ?_, fun queue hsome => ?_⟩
      · simp [Cmd.perform] at hsome
      · exact ⟨(h.byQueue queue (by simpa [Cmd.perform] using hsome)).1, by omega⟩
  | 3, hcmd =>
    cases hcmd
    refine ⟨by omega, fun _ => rfl, fun k hk => ?_, fun h => ?_, fun kind => by simp [Cmd.perform]⟩
    · exact .of_same rfl (fun _ => rfl) fun key => by simp [Cmd.perform, hk]
    · refine ⟨fun name hmem => absurd (h.state name hmem).2 (by omega),
        fun hmem => absurd (h.all hmem) (by omega), fun hsome => ?_, fun queue hsome => ?_⟩
      · exact absurd (h.available (by simpa [Cmd.perform] using hsome)) (by omega)
      · by_cases hq : queue = job.queue
        · simp [Cmd.perform, hq] at hsome
        · exact absurd (h.byQueue queue (by simpa [Cmd.perform, hq] using hsome)).1 hq
  | 4, hcmd =>
    cases hcmd
    refine ⟨by omega, fun _ => rfl, fun k hk => .of_same rfl (fun _ => rfl) fun _ => rfl,
      fun h => ⟨fun name hmem => absurd (h.state name hmem).2 (by omega),
        fun hmem => absurd (h.all hmem) (by omega),
        fun hsome => absurd (h.available hsome) (by omega),
        fun queue hsome => absurd (h.byQueue queue hsome).2 (by omega)⟩, fun kind => ?_⟩
    simp [Cmd.perform, stateToString, eq_comm]

theorem removal_deletes {cmd : Cmd Unit} (hcmd : (removal id job)[made]? = some cmd) :
    cmd.deletes = none := by
  rcases made with _ | _ | _ | _ | _ | made <;> cases hcmd <;> rfl

theorem removal_after {cmd : Cmd Unit} {stage : Stage} (hcmd : (removal id job)[made]? = some cmd) :
    stage.after cmd () = stage.removed := by
  rcases made with _ | _ | _ | _ | _ | made <;> cases hcmd <;> rfl

/-- A sweep sends its `DEL` once the five removals are made. -/
theorem Allowed.swept_of_deletes {ρ : Type} {cmd : Cmd ρ} {operation : Operation} {stage : Stage}
    {t : DateTime} (h : Allowed operation stage cmd) (hdel : cmd.deletes = some id)
    (hop : operation = .deleteExpiredJobs t) : ∃ job, stage = .sweeping id job 5 := by
  cases h with
  | resting _ hcmd => cases hcmd <;> cases hdel
  | erase hdelete => cases hop.symm.trans hdelete
  | clean hcmd | sweep hcmd => cases (removal_deletes hcmd).symm.trans hdel
  | begin => cases hdel
  | swept =>
    cases hdel
    exact ⟨_, rfl⟩

theorem resting_effect {ρ : Type} {cmd : Cmd ρ} {moment : Moment} {reply : ρ} (hnamed : db.Named)
    (hcmd : Resting cmd) (hqueue : cmd.requeues db = false)
    (h : cmd.perform codec moment db = (reply, db')) : Db.Effect db db' (cmd.writes reply) := by
  cases hcmd with
  | now | get | smembers =>
    cases h
    exact .refl hnamed
  | update now job =>
    refine updateScript_effect hnamed newScore_scores (fun old hold => ?_) h
    simpa [Cmd.requeues, hold] using hqueue
  | updateIfState now job expected =>
    refine updateIfStateScript_effect hnamed newScore_scores (fun old hold => ?_) h
    simpa [Cmd.requeues, hold] using hqueue
  | claimDue htimed t limit =>
    exact claimDueScript_effect hnamed htimed (smembers_nodup moment.order _) h
  | fetch workerId t candidates => exact fetchScript_effect hnamed h

end

namespace Traffic
variable {codec : Codec} {s t : Traffic} {db' : Db} {id : String} {i : Nat} {client new : Client}

theorem windowed_eq_false : s.windowed id = false ↔
    ∀ (j : Nat) (other : Client), s.clients[j]? = some other → other.stage.window ≠ some id := by
  simp only [windowed, List.any_eq_false, decide_eq_true_eq, List.mem_iff_getElem?,
    forall_exists_index]
  exact ⟨fun h j other hj => h other j hj, fun h other j hj => h j other hj⟩

/-- Replacing one client and the database, where the rest of the clients keep
what they rely on. -/
theorem Tracked.moved (h : s.Tracked) (hclient : s.clients[i]? = some client)
    (hfollows : Follows new.operation new.program new.stage) (hnamed : db'.Named)
    (hothers : ∀ (j : Nat) (other : Client) (id : String), j ≠ i → s.clients[j]? = some other →
      other.stage.window = some id → Db.Trims s.db db' id)
    (hsettled : ∀ id, (∀ (j : Nat) (other : Client), j ≠ i → s.clients[j]? = some other →
      other.stage.window ≠ some id) → new.stage.window ≠ some id → db'.Fits id)
    (hown : new.Tracks db')
    (hsolo : ∀ (id : String) (j : Nat) (other : Client), new.stage.window = some id → j ≠ i →
      s.clients[j]? = some other → other.stage.window ≠ some id)
    (hdrift : ∀ kind, db'.drift kind =
      s.db.drift kind - client.stage.owed kind + new.stage.owed kind) :
    Tracked ⟨db', s.clients.set i new⟩ where
  follows j other hj := by
    rcases set_cases hj with ⟨rfl, rfl⟩ | ⟨-, hj⟩
    · exact hfollows
    · exact h.follows j other hj
  named := hnamed
  settled id hout := by
    have hlength := (List.getElem?_eq_some_iff.mp hclient).1
    refine hsettled id (fun j other hne hj => ?_) (hout i new (List.getElem?_set_self hlength))
    exact hout j other (by rwa [List.getElem?_set_ne (Ne.symm hne)])
  tracks j other hj := by
    rcases set_cases hj with ⟨rfl, rfl⟩ | ⟨hne, hj⟩
    · exact hown
    · exact Db.Trims.tracks (h.tracks j other hj) fun id hid => hothers j other id hne hj hid
  solo id j k one other hj hk hone hother := by
    rcases set_cases hj with ⟨rfl, rfl⟩ | ⟨hjne, hj'⟩
    · rcases set_cases hk with ⟨rfl, rfl⟩ | ⟨hkne, hk'⟩
      · rfl
      · exact absurd hother (hsolo id k other hone hkne hk')
    · rcases set_cases hk with ⟨rfl, rfl⟩ | ⟨hkne, hk'⟩
      · exact absurd hone (hsolo id j one hother hjne hj')
      · exact h.solo id j k one other hj' hk' hone hother
  drift kind := by
    rw [sum_set _ hclient, ← h.drift, hdrift]

theorem Tracked.fits_of_others (h : s.Tracked) (hclient : s.clients[i]? = some client)
    (hout : ∀ (j : Nat) (other : Client), j ≠ i → s.clients[j]? = some other →
      other.stage.window ≠ some id) (hself : client.stage.window ≠ some id) : s.db.Fits id := by
  refine h.settled id fun j other hj => ?_
  by_cases hji : j = i
  · subst hji
    cases hclient.symm.trans hj
    exact hself
  · exact hout j other hji hj

/-- A step that concerns one identifier, which no other client is removing. -/
theorem Tracked.focused (h : s.Tracked) (hclient : s.clients[i]? = some client)
    (hfollows : Follows new.operation new.program new.stage) (hnamed : db'.Named)
    (hframe : ∀ k, k ≠ id → Db.Trims s.db db' k)
    (hothers : ∀ (j : Nat) (other : Client), j ≠ i → s.clients[j]? = some other →
      other.stage.window ≠ some id)
    (hold : client.stage.window = none ∨ client.stage.window = some id)
    (hnew : new.stage.window = some id ∨ new.stage.window = none ∧ db'.Fits id)
    (hown : new.Tracks db')
    (hdrift : ∀ kind, db'.drift kind =
      s.db.drift kind - client.stage.owed kind + new.stage.owed kind) :
    Tracked ⟨db', s.clients.set i new⟩ := by
  refine h.moved hclient hfollows hnamed (fun j other k hne hj hk => ?_) (fun k hout hkn => ?_) hown
    (fun k j other hk hne hj => ?_) hdrift
  · refine hframe k fun hkid => hothers j other hne hj (hkid ▸ hk)
  · by_cases hkid : k = id
    · subst hkid
      rcases hnew with hnew | ⟨-, hfits⟩
      · exact absurd hnew hkn
      · exact hfits
    · refine (hframe k hkid).fits (h.fits_of_others hclient hout fun hk => ?_)
      rcases hold with hnone | hsome
      · simp [hnone] at hk
      · exact hkid (Option.some.inj (hk.symm.trans hsome))
  · rcases hnew with hnew | ⟨hnone, -⟩
    · obtain rfl := Option.some.inj (hnew.symm.trans hk)
      exact hothers j other hne hj
    · simp [hnone] at hk

section
variable {moment : Moment} {ρ : Type} {cmd : Cmd ρ} {k : ρ → Prog Cmd Unit} {job : Job} {made : Nat}

/-- The client after its command, as the system has it. -/
theorem Tracked.followed (h : s.Tracked) (hclient : s.clients[i]? = some client)
    (hprogram : client.program = .call cmd k) : Allowed client.operation client.stage cmd ∧
      ∀ reply, Follows client.operation (k reply) (client.stage.after cmd reply) := by
  have hfollows := h.follows i client hclient
  rw [hprogram] at hfollows
  exact wp_send.mp hfollows

theorem others_of_windowed (hw : s.windowed id = false) (j : Nat) (other : Client) (_ : j ≠ i)
    (hj : s.clients[j]? = some other) : other.stage.window ≠ some id :=
  windowed_eq_false.mp hw j other hj

/-- A removal that another client is in the middle of is its own alone. -/
theorem Tracked.others (h : s.Tracked) (hclient : s.clients[i]? = some client)
    (hid : client.stage.window = some id) (j : Nat) (other : Client) (hne : j ≠ i)
    (hj : s.clients[j]? = some other) : other.stage.window ≠ some id :=
  fun hk => hne (h.solo id j i other client hj hclient hk hid)

theorem del_frame (db : Db) (id : String) : ∀ k, k ≠ id → Db.Trims db (db.del id) k :=
  fun k hk => .of_same (by simp [hk]) (fun _ => rfl) fun _ => rfl

theorem Tracked.del_named (h : s.Tracked) : (s.db.del id).Named := by
  intro k blob hk
  rw [Db.get_del] at hk
  split at hk
  · cases hk
  · exact h.named k blob hk

/-- A script, or a command that only reads. -/
theorem Tracked.rested (h : s.Tracked) (hclient : s.clients[i]? = some client)
    (hprogram : client.program = .call cmd k) (hstage : client.stage.window = none)
    (hcmd : Resting cmd)
    (hok : s.collision codec moment client.operation client.stage cmd = false)
    {reply : ρ} (hp : cmd.perform codec moment s.db = (reply, db')) :
    Tracked ⟨db', s.clients.set i
      { client with program := k reply, stage := client.stage.after cmd reply }⟩ := by
  have hclear : cmd.requeues s.db = false ∧
      ∀ id ∈ cmd.writes reply, s.windowed id = false := by
    have hwrites : cmd.requeues s.db = false ∧
        (cmd.writes (cmd.perform codec moment s.db).1).any s.windowed = false := by
      cases hcmd <;> cases hs : client.stage <;> simpa [collision, hs] using hok
    rw [hp, List.any_eq_false] at hwrites
    exact ⟨hwrites.1, fun id hid => by simpa using hwrites.2 id hid⟩
  have heffect := resting_effect h.named hcmd hclear.1 hp
  have hafter : (client.stage.after cmd reply).window = none := hcmd.after hstage
  have howed : ∀ (stage : Stage) kind, stage.window = none → stage.owed kind = 0 := by
    intro stage kind hnone
    cases stage <;> first | rfl | cases hnone
  refine h.moved hclient ((h.followed hclient hprogram).2 reply) heffect.named
    (fun j other id _ hj hid => ?_) (fun id hout _ => ?_) ?_ (fun id j other hid => ?_)
    fun kind => ?_
  · refine heffect.trims id fun hw => ?_
    exact windowed_eq_false.mp (hclear.2 id hw) j other hj hid
  · exact heffect.keeps_fits (h.fits_of_others hclient hout (by simp [hstage]))
  · unfold Client.Tracks
    split
    · simp_all [Stage.window]
    · simp_all [Stage.window]
    · trivial
  · exact absurd (hafter.symm.trans hid) (by simp)
  · rw [heffect.drift, howed _ _ hstage, howed _ _ hafter]
    omega

/-- The `DEL` of `delete`, where the blob is still in the state that was read. -/
theorem Tracked.erased (h : s.Tracked) {k : Nat → Prog Cmd Unit}
    (hclient : s.clients[i]? = some client) (hprogram : client.program = .call (.del id) k)
    (hstage : client.stage = .read id job)
    (hok : s.collision codec moment client.operation client.stage (.del id) = false)
    {reply : Nat} (hp : (Cmd.del id).perform codec moment s.db = (reply, db')) :
    Tracked ⟨db', s.clients.set i
      { client with program := k reply, stage := client.stage.after (.del id) reply }⟩ := by
  have hfollows := (h.followed hclient hprogram).2 reply
  rw [hstage] at hok hfollows ⊢
  cases hget : s.db.get id with
  | none =>
    simp only [Cmd.perform, hget, Prod.mk.injEq] at hp
    obtain ⟨rfl, rfl⟩ := hp
    have hframe : ∀ k, Db.Trims s.db (s.db.del id) k := by
      intro k
      refine .of_same ?_ (fun _ => rfl) fun _ => rfl
      by_cases hk : k = id <;> simp [hk, hget]
    refine h.moved hclient hfollows h.del_named (fun _ _ k _ _ _ => hframe k) (fun k hout _ => ?_)
      trivial (fun k j other hk => by cases hk) fun kind => ?_
    · exact (hframe k).fits (h.fits_of_others hclient hout (by simp [hstage, Stage.window]))
    · rw [Db.drift_del, Db.share_none hget, hstage]
      simp [Stage.owed, Stage.after, Stage.deleted]
  | some blob =>
    simp only [collision, hget, Bool.or_eq_false_iff, Bool.not_eq_false'] at hok
    simp only [Cmd.perform, hget, Prod.mk.injEq] at hp
    obtain ⟨rfl, rfl⟩ := hp
    have hindexes : s.db.Indexes id blob.job :=
      (Db.fits_some hget).mp (h.settled id (windowed_eq_false.mp hok.1))
    refine h.focused hclient hfollows h.del_named (del_frame s.db id) (others_of_windowed hok.1)
      (.inl (by rw [hstage]; rfl)) (.inl rfl) ⟨by simp, ?_⟩ fun kind => ?_
    · have h0 := hindexes.leftover hok.2
      exact ⟨h0.state, h0.all, h0.available, h0.byQueue⟩
    · have hkind : blob.job.state.kind = job.state.kind := by
        simpa [Job.indexedAs] using (Bool.and_eq_true_iff.mp hok.2).1
      rw [Db.drift_del, Db.share_some hget, hstage]
      by_cases hk : job.state.kind = kind <;>
        simp [Stage.owed, Stage.after, Stage.deleted, Blob.isIn, hkind, hk]

theorem Tracked.removes_named (h : s.Tracked) (hr : Removes s.db db' id job made) : db'.Named :=
  fun k blob hk => h.named k blob ((hr.get k).symm.trans hk)

/-- One removal after the `DEL` of `delete`; the last one settles the identifier. -/
theorem Tracked.cleaned (h : s.Tracked) {cmd : Cmd Unit} {k : Unit → Prog Cmd Unit}
    (hclient : s.clients[i]? = some client) (hprogram : client.program = .call cmd k)
    (hstage : client.stage = .erased id job made) (hcmd : (removal id job)[made]? = some cmd)
    (hp : cmd.perform codec moment s.db = ((), db')) :
    Tracked ⟨db', s.clients.set i
      { client with program := k (), stage := client.stage.after cmd () }⟩ := by
  have hfollows := (h.followed hclient hprogram).2 ()
  obtain ⟨hmade, hr⟩ := removal_removes codec moment s.db hcmd
  rw [hp] at hr
  have hafter : client.stage.after cmd () = client.stage.removed := removal_after hcmd
  rw [hafter, hstage] at hfollows ⊢
  have htracks := h.tracks i client hclient
  rw [Client.Tracks, hstage] at htracks
  obtain ⟨hnone, hleft⟩ := htracks
  have hnone' : db'.get id = none := (hr.get id).trans hnone
  refine h.focused hclient hfollows (h.removes_named hr) hr.others
    (h.others hclient (by rw [hstage]; rfl)) (.inr (by rw [hstage]; rfl)) ?_ ?_ fun kind => ?_
  · by_cases hlast : made = 4
    · subst hlast
      exact .inr ⟨rfl, (Db.fits_none hnone').mpr (hr.leftover hleft).forgets⟩
    · simp [Stage.removed, hlast, Stage.window]
  · by_cases hlast : made = 4
    · simp [Client.Tracks, Stage.removed, hlast]
    · simp only [Client.Tracks, Stage.removed, hlast, if_false]
      exact ⟨hnone', hr.leftover hleft⟩
  · rw [hr.drift, hstage]
    by_cases hlast : made = 4 <;> by_cases hk : job.state.kind = kind <;>
      simp [Stage.removed, Stage.owed, hlast, hk]
    omega

/-- The first removal of `delete_expired_jobs`, where the blob is still in the
state that was read, and expired. -/
theorem Tracked.begun (h : s.Tracked) {k : Unit → Prog Cmd Unit} {t : DateTime}
    (hclient : s.clients[i]? = some client)
    (hprogram : client.program = .call (.srem (.state (stateToString job.state)) id) k)
    (hstage : client.stage = .read id job) (hop : client.operation = .deleteExpiredJobs t)
    (hok : s.collision codec moment client.operation client.stage
      (.srem (.state (stateToString job.state)) id) = false)
    (hp : (Cmd.srem (.state (stateToString job.state)) id).perform codec moment s.db =
      ((), db')) :
    Tracked ⟨db', s.clients.set i { client with
      program := k ()
      stage := client.stage.after (.srem (.state (stateToString job.state)) id) () }⟩ := by
  have hfollows := (h.followed hclient hprogram).2 ()
  have hfirst : (removal id job)[0]? = some (Cmd.srem (.state (stateToString job.state)) id) := rfl
  obtain ⟨-, hr⟩ := removal_removes codec moment s.db hfirst
  rw [hp] at hr
  rw [hstage, hop] at hok
  rw [hstage] at hfollows ⊢
  cases hget : s.db.get id with
  | none => simp [collision, hget] at hok
  | some blob =>
    simp only [collision, hget, Bool.or_eq_false_iff, Bool.not_eq_false', Operation.finds] at hok
    obtain ⟨⟨hwindowed, hsame⟩, hexpired⟩ := hok
    have hindexes : s.db.Indexes id blob.job :=
      (Db.fits_some hget).mp (h.settled id (windowed_eq_false.mp hwindowed))
    have hkind : blob.job.state.kind = job.state.kind := by
      simpa [Job.indexedAs] using (Bool.and_eq_true_iff.mp hsame).1
    refine h.focused hclient hfollows (h.removes_named hr) hr.others
      (others_of_windowed hwindowed) (.inl (by rw [hstage]; rfl)) (.inl rfl) ?_ fun kind => ?_
    · exact ⟨t, blob, hop, (hr.get id).trans hget, hkind, hexpired,
        hr.leftover (hindexes.leftover hsame)⟩
    · rw [hr.drift, hstage]
      simp [Stage.after, Stage.removed, Stage.owed]

/-- One more removal of `delete_expired_jobs`. -/
theorem Tracked.swept_on (h : s.Tracked) {cmd : Cmd Unit} {k : Unit → Prog Cmd Unit}
    (hclient : s.clients[i]? = some client) (hprogram : client.program = .call cmd k)
    (hstage : client.stage = .sweeping id job (made + 1))
    (hcmd : (removal id job)[made + 1]? = some cmd)
    (hp : cmd.perform codec moment s.db = ((), db')) :
    Tracked ⟨db', s.clients.set i
      { client with program := k (), stage := client.stage.after cmd () }⟩ := by
  have hfollows := (h.followed hclient hprogram).2 ()
  obtain ⟨hmade, hr⟩ := removal_removes codec moment s.db hcmd
  rw [hp] at hr
  have hafter : client.stage.after cmd () = client.stage.removed := removal_after hcmd
  rw [hafter, hstage] at hfollows ⊢
  have htracks := h.tracks i client hclient
  rw [Client.Tracks, hstage] at htracks
  obtain ⟨t, blob, hop, hget, hkind, hexpired, hleft⟩ := htracks
  refine h.focused hclient hfollows (h.removes_named hr) hr.others
    (h.others hclient (by rw [hstage]; rfl)) (.inr (by rw [hstage]; rfl)) (.inl rfl) ?_
    fun kind => ?_
  · exact ⟨t, blob, hop, (hr.get id).trans hget, hkind, hexpired, hr.leftover hleft⟩
  · have hfive : made ≠ 4 := by omega
    rw [hr.drift, hstage]
    by_cases hlast : made = 3 <;> simp [Stage.removed, Stage.owed, hlast, hfive]

/-- The `DEL` of `delete_expired_jobs`. -/
theorem Tracked.swept (h : s.Tracked) {k : Nat → Prog Cmd Unit}
    (hclient : s.clients[i]? = some client) (hprogram : client.program = .call (.del id) k)
    (hstage : client.stage = .sweeping id job 5)
    {reply : Nat} (hp : (Cmd.del id).perform codec moment s.db = (reply, db')) :
    Tracked ⟨db', s.clients.set i
      { client with program := k reply, stage := client.stage.after (.del id) reply }⟩ := by
  have hfollows := (h.followed hclient hprogram).2 reply
  rw [hstage] at hfollows ⊢
  have htracks := h.tracks i client hclient
  rw [Client.Tracks, hstage] at htracks
  obtain ⟨t, blob, hop, hget, hkind, hexpired, hleft⟩ := htracks
  simp only [Cmd.perform, Prod.mk.injEq] at hp
  obtain ⟨-, rfl⟩ := hp
  have hgone : (s.db.del id).get id = none := by simp
  have hforgets : (s.db.del id).Forgets id := ⟨hleft.forgets.sets, hleft.forgets.zsets⟩
  refine h.focused hclient hfollows h.del_named (del_frame s.db id)
    (h.others hclient (by rw [hstage]; rfl)) (.inr (by rw [hstage]; rfl))
    (.inr ⟨rfl, (Db.fits_none hgone).mpr hforgets⟩) trivial fun kind => ?_
  rw [Db.drift_del, Db.share_some hget, hstage]
  by_cases hk : job.state.kind = kind <;>
    simp [Stage.after, Stage.deleted, Stage.owed, Blob.isIn, hkind, hk]

theorem Tracked.started (h : s.Tracked) {operation : Operation}
    (hop : operation.concurrent = true) :
    Tracked { s with clients := s.clients ++ [operation.client codec] } where
  follows j other hj := by
    rcases join_cases hj with ⟨-, rfl⟩ | hj
    · exact operation.follows codec hop
    · exact h.follows j other hj
  named := h.named
  settled id hout := h.settled id fun j other hj => hout j other
    (List.getElem?_append_left (List.getElem?_eq_some_iff.mp hj).1 ▸ hj)
  tracks j other hj := by
    rcases join_cases hj with ⟨-, rfl⟩ | hj
    · trivial
    · exact h.tracks j other hj
  solo id j k one other hj hk hone hother := by
    rcases join_cases hj with ⟨-, rfl⟩ | hj'
    · cases hone
    · rcases join_cases hk with ⟨-, rfl⟩ | hk'
      · cases hother
      · exact h.solo id j k one other hj' hk' hone hother
  drift kind := by
    simp [h.drift, Operation.client, Stage.owed]

end

def Event.starts (kind : Operation → Bool) : Event → Bool
  | .start operation => kind operation
  | .step .. => true

theorem Tracked.next {e : Event} (h : s.Tracked) (hop : e.starts Operation.concurrent = true)
    (hok : s.collides codec e = false) (hnext : Next codec s e t) : t.Tracked := by
  cases next_moves hnext with
  | started operation => exact h.started hop
  | @sent i moment client ρ cmd k reply db hclient hprogram hp =>
    have hcollision : s.collision codec moment client.operation client.stage cmd = false := by
      obtain ⟨operation, program, stage⟩ := client
      cases hprogram
      simpa [collides, hclient] using hok
    have hallowed := (h.followed hclient hprogram).1
    obtain ⟨stage, hstage⟩ : ∃ stage, client.stage = stage := ⟨_, rfl⟩
    rw [hstage] at hallowed
    cases hallowed with
    | resting hrest hcmd => exact h.rested hclient hprogram (hstage ▸ hrest) hcmd hcollision hp
    | erase hdelete => exact h.erased hclient hprogram hstage hcollision hp
    | clean hcmd => exact h.cleaned hclient hprogram hstage hcmd hp
    | begin hsweep => exact h.begun hclient hprogram hstage hsweep hcollision hp
    | sweep hcmd => exact h.swept_on hclient hprogram hstage hcmd hp
    | swept hsweep => exact h.swept hclient hprogram hstage hp

theorem tracked_idle {db : Db} (h : db.Consistent) : (idle db).Tracked where
  follows _ _ hj := by simp [idle] at hj
  named := h.named
  settled id _ := h.fits id
  tracks _ _ hj := by simp [idle] at hj
  solo _ _ _ _ _ hj := by simp [idle] at hj
  drift kind := h.drift kind

theorem tracked_run {db : Db} {tr : List (Step Traffic Event)} (h : db.Consistent)
    (hr : Run (Next codec) (idle db) tr s)
    (hops : ∀ x ∈ tr, x.label.starts Operation.concurrent = true)
    (hok : ∀ x ∈ tr, x.before.collides codec x.label = false) : s.Tracked := by
  refine hr.stable Tracked (tracked_idle h) fun x hx hbefore => ?_
  obtain ⟨_, -, -, hnext⟩ := hr.of_mem hx
  exact hbefore.next (hops x hx) (hok x hx) hnext

/-- A client that has finished is removing nothing. -/
theorem Tracked.window_of_finished (h : s.Tracked) (hclient : s.clients[i]? = some client)
    (hdone : client.finished = true) : client.stage.window = none := by
  have hfollows := h.follows i client hclient
  unfold Client.finished at hdone
  cases hp : client.program with
  | pure a =>
    rw [hp] at hfollows
    exact hfollows
  | call cmd k => simp [hp] at hdone

/-- With no operation in flight, the indices are in step with the blobs. -/
theorem Tracked.consistent (h : s.Tracked) (hquiet : s.quiet = true) : s.db.Consistent := by
  have hnone : ∀ client ∈ s.clients, client.stage.window = none := by
    intro client hmem
    obtain ⟨i, hi⟩ := List.mem_iff_getElem?.mp hmem
    exact h.window_of_finished hi (List.all_eq_true.mp hquiet client hmem)
  refine ⟨h.named, fun id => h.settled id fun j other hj => ?_, fun kind => ?_⟩
  · simp [hnone other (List.mem_iff_getElem?.mpr ⟨j, hj⟩)]
  · rw [h.drift]
    refine List.sum_eq_zero fun x hx => ?_
    obtain ⟨client, hmem, rfl⟩ := List.mem_map.mp hx
    have := hnone client hmem
    cases hs : client.stage <;> simp_all [Stage.window, Stage.owed]

/-- A blob that a step of `delete_expired_jobs` deletes is expired then. -/
def SweptExpired (x : Step Traffic Event) : Prop :=
  ∀ (i : Nat) (moment : Moment) (client : Client) (t : DateTime) (id : String) (blob : Blob),
    x.label = .step i moment → x.before.Sends i client (.del id) →
    client.operation = .deleteExpiredJobs t → x.before.db.get id = some blob →
    isExpired t blob.job = true

theorem Tracked.swept_expired (h : s.Tracked) {t : DateTime} {blob : Blob}
    (hsends : s.Sends i client (.del id)) (hop : client.operation = .deleteExpiredJobs t)
    (hget : s.db.get id = some blob) : isExpired t blob.job = true := by
  obtain ⟨hclient, k, hprogram⟩ := hsends
  obtain ⟨job, hstage⟩ := (h.followed hclient hprogram).1.swept_of_deletes rfl hop
  have htracks := h.tracks i client hclient
  rw [Client.Tracks, hstage] at htracks
  obtain ⟨t', blob', hop', hget', -, hexpired, -⟩ := htracks
  cases hop.symm.trans hop'
  cases hget.symm.trans hget'
  exact hexpired

/-- Where no command meets a job that another client is removing, or a job that
is no longer as its client has read it, deletions are safe in every order of
the commands: between operations every index and counter says what the stored
blobs say, and the sweep removes expired jobs only. -/
theorem deletions_safe {db : Db} {tr : List (Step Traffic Event)} (h : db.Consistent)
    (hr : Run (Next codec) (idle db) tr s)
    (hops : ∀ x ∈ tr, x.label.starts Operation.concurrent = true)
    (hok : ∀ x ∈ tr, x.before.collides codec x.label = false) :
    (s.quiet = true → s.db.Indexed) ∧ ∀ x ∈ tr, SweptExpired x := by
  refine ⟨fun hquiet => ((tracked_run h hr hops hok).consistent hquiet).indexed, fun x hx => ?_⟩
  obtain ⟨pre, hsub, hpre, -⟩ := hr.of_mem hx
  have htracked := tracked_run h hpre (fun y hy => hops y (hsub y hy))
    fun y hy => hok y (hsub y hy)
  exact fun _ _ _ _ _ _ _ hsends hop hget => htracked.swept_expired hsends hop hget

/-- One job waiting, and one that succeeded and has expired. -/
def twoJobs : Db :=
  let noon : DateTime := 1767268800000000000
  let waiting := Job.new "a" noon "send_email" .null
  let done := { Job.new "b" noon "send_email" .null with
    state := .succeeded noon 5 none
    expiresAt := some (noon + Duration.hours 1) }
  (Db.empty.add (Codec.lossless.serialize waiting) (newScore noon waiting)).add
    (Codec.lossless.serialize done) (newScore noon done)

theorem twoJobs_consistent : twoJobs.Consistent :=
  (Db.Consistent.empty.add rfl newScore_scores).add (by decide +kernel) newScore_scores

def Event.steps (i n : Nat) (now : DateTime) : List Event := List.replicate n (.step i ⟨now, []⟩)

/-- A sweep at work on the expired job while a worker claims the other one. -/
def sweepBesideFetch : List Event :=
  let later : DateTime := 1767268800000000000 + Duration.days 1
  [Event.start (.deleteExpiredJobs later), .start (.fetchAndLockJob "w" none)] ++
    Event.steps 0 5 later ++ Event.steps 1 2 later ++ Event.steps 0 4 later

theorem deletions_safe_beside_fetch :
    ∃ tr s, Run (Next .lossless) (idle twoJobs) tr s ∧ tr.length = 13 ∧
      (s.quiet = true → s.db.Indexed) ∧ ∀ x ∈ tr, SweptExpired x := by
  obtain ⟨s, hr⟩ := replay_run (next .lossless) (idle twoJobs) sweepBesideFetch
  exact ⟨_, s, hr, by decide +kernel,
    deletions_safe twoJobs_consistent hr (by decide +kernel) (by decide +kernel)⟩

/-- A worker claims the job between the `GET` and the `DEL` of `delete`. -/
def fetchInsideDelete : List Event :=
  let noon : DateTime := 1767268800000000000
  [Event.start (.delete "a"), .start (.fetchAndLockJob "w" none)] ++
    Event.steps 0 1 noon ++ Event.steps 1 2 noon ++ Event.steps 0 6 noon

/-- The job is gone, but `delete` has cleaned up for the state it had read: the
set of processing jobs still names it. -/
theorem deletion_leaves_index : ∃ tr s, Run (Next .lossless) (idle twoJobs) tr s ∧
    twoJobs.Consistent ∧ (∀ x ∈ tr, x.label.starts Operation.concurrent = true) ∧
    s.quiet = true ∧ ¬ s.db.Indexed := by
  obtain ⟨s, hr⟩ := replay_run (next .lossless) (idle twoJobs) fetchInsideDelete
  obtain ⟨x, hx, hquiet, hmem, hget⟩ : ∃ x ∈ replay (next .lossless) (idle twoJobs)
      fetchInsideDelete, x.after.quiet = true ∧
      x.after.db.mem (.state (kindToStateName .processing)) "a" = true ∧
      (x.after.db.get "a").isNone = true := by decide +kernel
  obtain ⟨pre, hsub, hpre, hnext⟩ := hr.of_mem hx
  have hops : ∀ y ∈ replay (next .lossless) (idle twoJobs) fetchInsideDelete,
      y.label.starts Operation.concurrent = true := by decide +kernel
  refine ⟨_, _, hpre.snoc hnext, twoJobs_consistent, fun y hy => ?_, hquiet, fun h => ?_⟩
  · rcases List.mem_append.mp hy with hy | hy
    · exact hops y (hsub y hy)
    · rw [List.mem_singleton.mp hy]
      exact hops x hx
  · obtain ⟨blob, hblob, -⟩ := (h.states .processing "a").mp hmem
    rw [hblob] at hget
    cases hget

end Traffic
end Qml
