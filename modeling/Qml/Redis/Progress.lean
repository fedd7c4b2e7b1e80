import Qml.Redis.DispatchOrder

namespace Qml
open Lib RedisStorage

/-- Whether a filter lets the jobs of a queue through. -/
def selects (queues : Option (List String)) (queue : String) : Bool :=
  match queues with
  | some names => names.isEmpty || names.contains queue
  | none => true

namespace Db

/-- A stored `Enqueued` job of one of the selected queues. -/
def offers (db : Db) (queues : Option (List String)) (id : String) : Bool :=
  (db.get id).any fun blob => blob.isIn .enqueued && selects queues blob.job.queue

/-- A stored job in one of the two states that a fetch claims. -/
def claimable (db : Db) (id : String) : Bool :=
  (db.get id).any fun blob => blob.isIn .enqueued || blob.isIn .awaitingRetry

/-- A method called when nothing else runs. -/
def call (codec : Codec) (db : Db) {α : Type} (program : Prog Cmd α) (moments : Nat → Moment) :
    Option (α × Db) :=
  program.alone (fun moment db _ cmd => some (cmd.perform codec moment db)) moments db

end Db

/-- What a fetch owes its caller: a job of the selected queues, and one of them as
long as an `Enqueued` job of theirs is stored. -/
structure Serves (db : Db) (queues : Option (List String))
    (reply : Except StorageError (Option Job)) : Prop where
  filter : ∀ job, reply = .ok (some job) → selects queues job.queue = true
  progress : reply = .ok none → ∀ id, db.offers queues id = false

/-- A batch that is shorter than its capped limit has left no `Enqueued` job of the
selected queues behind. -/
def Exhausts (db' : Db) (limit : Option Nat) (queues : Option (List String))
    (reply : Except StorageError (List Job)) : Prop :=
  ∀ jobs, reply = .ok jobs → jobs.length < min (limit.getD 10) 50 →
    ∀ id, db'.offers queues id = false

/-- What comes first in some sorted sets: no entry has a higher score; of those that have the same,
it is the last in its set, and no earlier set has one. -/
inductive Leads (score : ZKey → String → Option ℚ) : List ZKey → String → ℚ → Prop
  | here {key : ZKey} {keys : List ZKey} {id : String} {x : ℚ} (hscore : score key id = some x)
      (hset : ∀ k y, score key k = some y → Db.notBelow (id, x) (k, y))
      (hrest : ∀ key' ∈ keys, ∀ k y, score key' k = some y → y ≤ x) :
      Leads score (key :: keys) id x
  | there {key : ZKey} {keys : List ZKey} {id : String} {x : ℚ}
      (hset : ∀ k y, score key k = some y → y < x) (hlater : Leads score keys id x) :
      Leads score (key :: keys) id x

/-- What the sorted sets hold once the jobs `handed` are handed out: these have left the global set
and that of their own queue. -/
def Db.scoreAfter (db : Db) (handed : List String) (key : ZKey) (id : String) : Option ℚ :=
  if id ∈ handed ∧ (key = .available ∨
      (db.get id).any (fun blob => decide (key = .byQueue blob.job.queue)) = true) then none
  else db.score key id

/-- After the jobs `handed`, what comes first in the sets that a fetch looks into can be claimed,
or hides no `Enqueued` job of the selected queues. -/
def Db.Clear (db : Db) (queues : Option (List String)) (handed : List String) : Prop :=
  ∀ id x, Leads (db.scoreAfter handed) (candidateKeys queues) id x →
    (id ∉ handed ∧ db.claimable id = true) ∨
      ∀ other, other ∉ handed → db.offers queues other = false

/-- What the script stores and returns for a job that it claims. -/
def claimedBlob (codec : Codec) (workerId : String) (t : DateTime) (job : Job) : Blob :=
  codec.recode { job with state := .processing t.truncMicros workerId "redis-storage" }

/-- If what comes first can be claimed, and the reply be read, its job is of one of
the selected queues. -/
def Db.Housed (codec : Codec) (db : Db) (workerId : String) (t : DateTime)
    (queues : Option (List String)) : Prop :=
  ∀ id x blob, Leads db.score (candidateKeys queues) id x → db.get id = some blob →
    db.claimable id = true → (claimedBlob codec workerId t blob.job).readable = true →
    selects queues blob.job.queue = true

/-- The sets are clear after `handed`, and stay so for the rest of a batch of at most `n`, while
what comes first is handed out. -/
def Db.StaysClear (codec : Codec) (workerId : String) (queues : Option (List String)) (db : Db) :
    Nat → (Nat → Moment) → List String → Prop
  | 0, _, _ => True
  | n + 1, moments, handed => db.Clear queues handed ∧ ∀ id x blob,
      Leads (db.scoreAfter handed) (candidateKeys queues) id x → id ∉ handed →
      db.claimable id = true → db.get id = some blob →
      (claimedBlob codec workerId (moments 0).now blob.job).readable = true →
      db.StaysClear codec workerId queues n (fun k => moments (k + 2)) (id :: handed)

/-- The operations that fill and empty the queues one job at a time; an update leaves a
stored job in its queue. -/
def Operation.dispatches (db : Db) : Operation → Bool
  | .update job => (db.get job.id).all fun blob => decide (blob.job.queue = job.queue)
  | .updateIfState .. | .requeueStrandedJobs .. | .reclaimJobsFromServer .. => false
  | _ => true

/-- Every `Enqueued` job stands in the global sorted set and in that of its queue. -/
structure Db.Ready (db : Db) : Prop where
  named : db.Named
  stands : ∀ id blob, db.get id = some blob → blob.job.state.kind = .enqueued →
    (db.score .available id).isSome ∧ (db.score (.byQueue blob.job.queue) id).isSome

section
variable {codec : Codec} {db db' : Db} {queues : Option (List String)} {id workerId : String}
  {job : Job} {blob old new : Blob} {x : Option ℚ} {t : DateTime}

theorem Db.offers_iff : db.offers queues id = true ↔ ∃ blob, db.get id = some blob ∧
    blob.job.state.kind = .enqueued ∧ selects queues blob.job.queue = true := by
  simp [Db.offers, Option.any_eq_true, Blob.isIn]

theorem Db.claimable_iff : db.claimable id = true ↔ ∃ blob, db.get id = some blob ∧
    (blob.job.state.kind = .enqueued ∨ blob.job.state.kind = .awaitingRetry) := by
  simp [Db.claimable, Option.any_eq_true, Blob.isIn]

theorem Db.top_iff {key : ZKey} {x : ℚ} : db.top key = some (id, x) ↔
    db.score key id = some x ∧ ∀ k y, db.score key k = some y → notBelow (id, x) (k, y) := by
  constructor
  · intro h
    exact ⟨score_of_top h, fun k y => top_notBelow h⟩
  · rintro ⟨hscore, hset⟩
    cases htop : db.top key with
    | none => simp [score_of_top_none htop] at hscore
    | some e =>
      obtain ⟨k, y⟩ := e
      obtain rfl := notBelow_antisymm (hset k y (score_of_top htop)) (top_notBelow htop hscore)
      cases hscore.symm.trans (score_of_top htop)
      rfl

theorem Db.le_of_notBelow {k : String} {x y : ℚ} (h : notBelow (id, x) (k, y)) : y ≤ x := by
  rcases h with h | ⟨h, -⟩
  · exact h.le
  · exact h.symm.le

/-- What the script finds was found before, or comes first in the sets and is higher than that. -/
theorem best_cases {keys : List ZKey} {found : Option (String × ℚ)} {x : ℚ}
    (h : best db keys found = some (id, x)) :
    (found = some (id, x) ∧ ∀ key ∈ keys, ∀ k y, db.score key k = some y → y ≤ x) ∨
      Leads db.score keys id x ∧ ∀ e, found = some e → e.2 < x := by
  induction keys generalizing found with
  | nil => exact .inl ⟨h, by simp⟩
  | cons key keys ih =>
    unfold best at h
    split at h
    · rename_i i a j b htop
      have hset : ∀ k y, db.score key k = some y → y ≤ a :=
        fun k y hy => Db.le_of_notBelow (Db.top_notBelow htop hy)
      split at h
      · rename_i hba
        rcases ih h with ⟨he, hrest⟩ | ⟨hlater, hless⟩
        · cases he
          obtain ⟨hscore, hbelow⟩ := Db.top_iff.mp htop
          refine .inr ⟨.here hscore hbelow hrest, fun e he => ?_⟩
          cases he
          exact hba
        · have hax : a < x := hless _ rfl
          refine .inr ⟨.there (fun k y hy => (hset k y hy).trans_lt hax) hlater, fun e he => ?_⟩
          cases he
          exact hba.trans hax
      · rename_i hab
        rw [gt_iff_lt, not_lt] at hab
        rcases ih h with ⟨he, hrest⟩ | ⟨hlater, hless⟩
        · cases he
          refine .inl ⟨rfl, List.forall_mem_cons.mpr ⟨fun k y hy => ?_, hrest⟩⟩
          exact (hset k y hy).trans hab
        · have hbx : b < x := hless _ rfl
          exact .inr ⟨.there (fun k y hy => ((hset k y hy).trans hab).trans_lt hbx) hlater, hless⟩
    · rename_i i a htop
      rcases ih h with ⟨he, hrest⟩ | ⟨hlater, hless⟩
      · cases he
        obtain ⟨hscore, hbelow⟩ := Db.top_iff.mp htop
        exact .inr ⟨.here hscore hbelow hrest, fun e he => by cases he⟩
      · have hax : a < x := hless _ rfl
        refine .inr ⟨.there (fun k y hy => ?_) hlater, fun e he => by cases he⟩
        exact (Db.le_of_notBelow (Db.top_notBelow htop hy)).trans_lt hax
    · rename_i htop
      have hnone : ∀ k y, db.score key k ≠ some y := fun k y hy => by
        simp [Db.score_of_top_none htop] at hy
      rcases ih h with ⟨he, hrest⟩ | ⟨hlater, hless⟩
      · exact .inl ⟨he, List.forall_mem_cons.mpr ⟨fun k y hy => absurd hy (hnone k y), hrest⟩⟩
      · exact .inr ⟨.there (fun k y hy => absurd hy (hnone k y)) hlater, hless⟩

/-- What was found is kept while no set holds anything higher. -/
theorem best_kept {keys : List ZKey} {x : ℚ}
    (h : ∀ key ∈ keys, ∀ k y, db.score key k = some y → y ≤ x) :
    best db keys (some (id, x)) = some (id, x) := by
  induction keys with
  | nil => rfl
  | cons key keys ih =>
    obtain ⟨hset, hrest⟩ := List.forall_mem_cons.mp h
    cases htop : db.top key with
    | none =>
      simp only [best, htop]
      exact ih hrest
    | some e =>
      have hle : ¬ e.2 > x := not_lt.mpr (hset e.1 e.2 (Db.score_of_top htop))
      simp only [best, htop, if_neg hle]
      exact ih hrest

theorem best_of_leads {keys : List ZKey} {found : Option (String × ℚ)} {x : ℚ}
    (h : Leads db.score keys id x) (hless : ∀ e, found = some e → e.2 < x) :
    best db keys found = some (id, x) := by
  induction h generalizing found with
  | here hscore hset hrest =>
    have htop := Db.top_iff.mpr ⟨hscore, hset⟩
    cases found with
    | none =>
      simp only [best, htop]
      exact best_kept hrest
    | some e =>
      simp only [best, htop, if_pos (hless e rfl)]
      exact best_kept hrest
  | @there key _ _ x hset _ ih =>
    cases htop : db.top key with
    | none =>
      simp only [best, htop]
      exact ih hless
    | some e =>
      have he : e.2 < x := hset e.1 e.2 (Db.score_of_top htop)
      cases found with
      | none =>
        simp only [best, htop]
        exact ih fun e' he' => Option.some.inj he' ▸ he
      | some e' =>
        simp only [best, htop]
        split
        · exact ih fun e'' he'' => Option.some.inj he'' ▸ he
        · exact ih hless

/-- The script looks at what comes first in the candidate sets. -/
theorem best_iff {keys : List ZKey} {x : ℚ} :
    best db keys none = some (id, x) ↔ Leads db.score keys id x := by
  constructor
  · intro h
    rcases best_cases h with ⟨hnone, -⟩ | ⟨hleads, -⟩
    · cases hnone
    · exact hleads
  · intro h
    exact best_of_leads h fun e he => by cases he

/-- A database in which the jobs `handed` were handed out since `db`. -/
structure HandedOut (db : Db) (handed : List String) (db' : Db) : Prop where
  score : db'.score = db.scoreAfter handed
  get : ∀ id, id ∉ handed → db'.get id = db.get id
  gone : ∀ id ∈ handed, ∃ blob, db'.get id = some blob ∧ blob.job.state.kind = .processing

namespace HandedOut
variable {handed : List String} {mid : Db}

theorem none (db : Db) : HandedOut db [] db where
  score := by
    funext key id
    simp [Db.scoreAfter]
  get _ _ := rfl
  gone _ h := by cases h

theorem claimable_iff (h : HandedOut db handed mid) :
    mid.claimable id = true ↔ id ∉ handed ∧ db.claimable id = true := by
  by_cases hid : id ∈ handed
  · obtain ⟨blob, hget, hkind⟩ := h.gone id hid
    simp [Db.claimable, hget, Blob.isIn, hkind, hid]
  · simp [Db.claimable, h.get id hid, hid]

theorem offers_iff (h : HandedOut db handed mid) :
    mid.offers queues id = false ↔ (id ∉ handed → db.offers queues id = false) := by
  by_cases hid : id ∈ handed
  · obtain ⟨blob, hget, hkind⟩ := h.gone id hid
    simp [Db.offers, hget, Blob.isIn, hkind, hid]
  · simp [Db.offers, h.get id hid, hid]

theorem clear_iff (h : HandedOut db handed mid) : mid.Clear queues [] ↔ db.Clear queues handed := by
  simp only [Db.Clear, ← (HandedOut.none mid).score, h.score, List.not_mem_nil, not_false_eq_true,
    true_and, forall_const, h.claimable_iff, h.offers_iff]

/-- Hand out one more job. -/
theorem next (h : HandedOut db handed mid) (hid : id ∉ handed) (hold : mid.get id = some old)
    (hnew : new.job.state.kind = .processing) :
    HandedOut db (id :: handed) (rewrite mid id old new .none) := by
  have hget : db.get id = some old := (h.get id hid).symm.trans hold
  constructor
  · funext key k
    rw [score_rewrite, h.score, Db.scoreAfter, Db.scoreAfter]
    by_cases hk : k = id
    · subst hk
      simp [hget, hid]
    · simp [hk]
  · intro k hk
    rw [List.mem_cons, not_or] at hk
    rw [get_rewrite, if_neg hk.1, h.get k hk.2]
  · intro k hk
    rw [get_rewrite]
    rcases List.mem_cons.mp hk with rfl | hk
    · exact ⟨new, if_pos rfl, hnew⟩
    · have hne : k ≠ id := fun he => hid (he ▸ hk)
      rw [if_neg hne]
      exact h.gone k hk

end HandedOut

/-- The candidate sets of a filter are those of the queues it selects. -/
theorem candidateKeys_of_selects {queue : String} (h : selects queues queue = true) :
    ∃ key ∈ candidateKeys queues, key = .available ∨ key = .byQueue queue := by
  cases queues with
  | none => exact ⟨.available, List.mem_singleton_self _, .inl rfl⟩
  | some names =>
    simp only [selects, Bool.or_eq_true, List.contains_iff_mem] at h
    simp only [candidateKeys]
    split
    · exact ⟨.available, List.mem_singleton_self _, .inl rfl⟩
    · rename_i hnames
      exact ⟨.byQueue queue, List.mem_map_of_mem (h.resolve_left hnames), .inr rfl⟩

namespace Db.Ready

theorem empty : Db.empty.Ready where
  named _ _ hget := by cases hget
  stands _ _ hget := by cases hget

/-- The candidate sets are not empty while a job of theirs is `Enqueued`. -/
theorem offered (h : db.Ready) (hoffers : db.offers queues id = true) :
    best db (candidateKeys queues) none ≠ none := by
  obtain ⟨blob, hget, hkind, hselects⟩ := Db.offers_iff.mp hoffers
  obtain ⟨key, hkey, hwhich⟩ := candidateKeys_of_selects hselects
  have hsome : (db.score key id).isSome := by
    rcases hwhich with rfl | rfl
    · exact (h.stands id blob hget hkind).1
    · exact (h.stands id blob hget hkind).2
  apply Option.ne_none_iff_isSome.mpr
  apply best_isSome
  refine .inr ⟨key, hkey, Option.ne_none_iff_isSome.mp fun hnone => ?_⟩
  simp [Db.score_of_top_none hnone] at hsome

/-- A database in which every blob and every entry of an `Enqueued` job is an old one. -/
theorem of_entries (h : db.Ready) (hget : ∀ id blob, db'.get id = some blob → db.get id = some blob)
    (hscore : ∀ id blob key, db'.get id = some blob → blob.job.state.kind = .enqueued →
      db'.score key id = db.score key id) : db'.Ready := by
  refine ⟨fun id blob hnew => h.named id blob (hget id blob hnew), fun id blob hnew hkind => ?_⟩
  rw [hscore id blob _ hnew hkind, hscore id blob _ hnew hkind]
  exact h.stands id blob (hget id blob hnew) hkind

theorem add (h : db.Ready) (hx : blob.job.state.kind = .enqueued → x.isSome) :
    (db.add blob x).Ready := by
  refine ⟨h.named.add, fun id b hget hkind => ?_⟩
  rw [Db.get_add] at hget
  by_cases hid : id = blob.job.id
  · rw [if_pos hid] at hget
    cases hget
    simpa [Db.add, hid] using hx hkind
  · rw [if_neg hid] at hget
    simpa [Db.add, hid] using h.stands id b hget hkind

theorem rewrite (h : db.Ready) (hid : new.job.id = id) (hqueue : new.job.queue = old.job.queue)
    (hx : new.job.state.kind = .enqueued → x.isSome) : (rewrite db id old new x).Ready := by
  constructor
  · intro k b hget
    rw [get_rewrite] at hget
    split at hget
    · cases hget
      exact hid.trans (Eq.symm ‹_›)
    · exact h.named k b hget
  · intro k b hget hkind
    rw [get_rewrite] at hget
    rw [score_rewrite, score_rewrite]
    by_cases hk : k = id
    · rw [if_pos hk] at hget
      cases hget
      simpa [hk, hqueue] using hx hkind
    · rw [if_neg hk] at hget
      simpa [hk] using h.stands k b hget hkind

theorem effect (h : db.Ready) (heffect : Db.Effect db db' []) : db'.Ready := by
  have htrims := fun id => heffect.trims id (by simp)
  refine h.of_entries (fun id blob hget => (htrims id).get ▸ hget) ?_
  intro id blob key hget hkind
  rcases (htrims id).zsets key with hsame | ⟨hno, -⟩
  · exact hsame
  · exact absurd hkind (hno blob ((htrims id).get ▸ hget))

theorem promoted {kind : JobStateKind} {claimed : List Blob} (h : db.Ready)
    (hpromoted : Promoted codec kind t db claimed db') : db'.Ready := by
  induction hpromoted with
  | nil => exact h
  | @cons db db' id old blobs hold hkind rest ih =>
    apply ih
    obtain ⟨hid, hqueue, -⟩ := recode_enqueued codec t.truncMicros old.job
    exact h.rewrite (hid.trans (h.named id old hold)) hqueue fun _ => rfl

theorem updated {reply : Reply} {now : DateTime} (h : db.Ready)
    (hqueue : ∀ old, db.get job.id = some old → old.job.queue = job.queue)
    (hscript : updateScript codec db job (stateToString job.state) (newScore now job) =
      (reply, db')) : db'.Ready := by
  rcases updateScript_cases h.named hscript with ⟨-, -, rfl⟩ | ⟨old, -, hold, rfl⟩
  · exact h
  · have hjob := codec.serialize_job job
    have hsadd : (db.sadd .all job.id).Ready :=
      h.of_entries (fun _ _ hget => hget) fun _ _ _ _ _ => rfl
    apply hsadd.rewrite
    · rw [hjob]
    · rw [hjob]
      exact (hqueue old hold).symm
    · rw [hjob]
      exact newScore_scores.ready

theorem fetched {reply : Option Blob} {candidates : List ZKey} (h : db.Ready)
    (hscript : fetchScript codec db workerId t candidates = (reply, db')) : db'.Ready := by
  rcases fetchScript_cases hscript with ⟨-, rfl, -⟩ | ⟨id, x, -, -, hstale, rfl⟩ |
    ⟨id, x, old, -, hold, -, -, rfl⟩
  · exact h
  · refine h.of_entries (fun k b hget => get_dropStale db candidates k id ▸ hget) ?_
    intro k b key hget hkind
    rw [get_dropStale] at hget
    rw [score_dropStale, if_neg]
    rintro ⟨rfl, -⟩
    exact (hstale b hget).1 hkind
  · obtain ⟨hid, hqueue, hstate⟩ := recode_processing codec t.truncMicros workerId
      "redis-storage" old.job
    apply h.rewrite (hid.trans (h.named id old hold)) hqueue
    rw [hstate]
    intro hkind
    cases hkind

theorem removed (h : db.Ready) : ((db.del id).unindex id job).Ready := by
  have hgone : ∀ k b, ((db.del id).unindex id job).get k = some b → k ≠ id ∧ db.get k = some b := by
    intro k b hget
    simp only [Db.unindex, Db.get_hincrby, Db.get_zrem, Db.get_srem, Db.get_del] at hget
    split at hget
    · cases hget
    · exact ⟨‹_›, hget⟩
  refine h.of_entries (fun k b hget => (hgone k b hget).2) fun k b key hget _ => ?_
  simp [Db.unindex, (hgone k b hget).1]

end Db.Ready

/-- A method that leaves every `Enqueued` job where a fetch finds it. -/
abbrev Readies (codec : Codec) {α : Type} (program : Prog Cmd α) (db : Db) : Prop :=
  program.wp (Alone codec) (fun _ db' => db'.Ready) db

theorem fetchAndLockJob_readies (h : db.Ready) :
    Readies codec (RedisStorage.fetchAndLockJob workerId queues) db := by
  simp only [Readies, RedisStorage.fetchAndLockJob, Prog.ask_bind, wp_cmd, Cmd.perform]
  intro now _
  generalize hscript : fetchScript codec db workerId _ _ = result
  obtain ⟨reply, db'⟩ := result
  have hafter := h.fetched hscript
  cases reply <;> exact hafter

theorem fetchUpTo_readies {n : Nat} {jobs : List Job} (h : db.Ready) :
    Readies codec (fetchUpTo workerId queues n jobs) db := by
  induction n generalizing db jobs with
  | zero => exact h
  | succ n ih =>
    apply (Prog.wp_bind ..).mpr
    apply Prog.wp_mono _ (fetchAndLockJob_readies h)
    intro reply db' h'
    rcases reply with _ | _ | _
    · exact h'
    · exact h'
    · exact ih h'

theorem claimDueJobsLua_readies {kind : JobStateKind} {source variant field : String}
    {limit : UInt64} (htimed : Timed kind source variant field) (h : db.Ready) :
    Readies codec (claimDueJobsLua source variant field t limit) db := by
  refine wp_claimDueJobsLua (fun _ => h) fun order _ _ hscript _ => ?_
  obtain ⟨mid, heffect, -, hpromoted⟩ :=
    claimDueScript_cases h.named htimed (smembers_nodup order _) hscript
  exact (h.effect heffect).promoted hpromoted

theorem delete_readies {jobId : String} (h : db.Ready) :
    Readies codec (RedisStorage.delete jobId) db := by
  rw [RedisStorage.delete, Readies, wp_get]
  cases hget : db.get jobId with
  | none => exact h
  | some blob =>
    cases hread : blob.readable with
    | false => simpa [parse, hread, Except.map] using h
    | true =>
      simp only [parse, hread, if_true, Except.map, Prog.ask_bind, wp_cmd, Cmd.perform, hget,
        Option.isSome_some, gt_iff_lt, Nat.lt_one_iff, wp_removal]
      intro _
      exact h.removed

theorem sweep_readies {ids : List String} {n : Nat} (h : db.Ready) :
    Readies codec (sweep t ids n) db := by
  induction ids generalizing db n with
  | nil => exact h
  | cons id ids ih =>
    rw [sweep, Readies, Prog.ask_bind, wp_cmd]
    intro _
    simp only [Cmd.perform]
    cases hget : db.get id with
    | none => exact ih h
    | some blob =>
      by_cases hexpired : (blob.readable && isExpired t blob.job) = true
      · simp only [hexpired, if_true, wp_removal, Prog.ask_bind, wp_cmd, Cmd.perform]
        intro _
        exact ih h.removed
      · simp only [hexpired]
        exact ih h

theorem Operation.readies {operation : Operation} (h : db.Ready)
    (hop : operation.dispatches db = true) : Readies codec (operation.program codec) db := by
  have done : ∀ {α : Type} {program : Prog Cmd α}, Readies codec program db →
      Readies codec (do let _ ← program) db :=
    fun hp => (Prog.wp_bind ..).mpr (Prog.wp_mono (fun _ _ h => h) hp)
  cases operation with
  | enqueue job =>
    refine done (wp_enqueue fun now => h.add ?_)
    rw [codec.serialize_job]
    exact newScore_scores.ready
  | update job =>
    refine done (wp_update fun now reply db' hscript _ => h.updated ?_ hscript)
    intro old hold
    simpa [dispatches, hold] using hop
  | delete jobId => exact done (delete_readies h)
  | claimDueScheduledJobs t limit => exact done (claimDueJobsLua_readies .scheduled h)
  | claimDueRetryJobs t limit => exact done (claimDueJobsLua_readies .awaitingRetry h)
  | deleteExpiredJobs t =>
    refine done ?_
    rw [RedisStorage.deleteExpiredJobs, Readies, Prog.ask_bind, wp_cmd]
    intro _
    exact sweep_readies h
  | fetchAndLockJob workerId queues => exact done (fetchAndLockJob_readies h)
  | fetchAvailableJobsAtomic workerId limit queues => exact done (fetchUpTo_readies h)
  | updateIfState | requeueStrandedJobs | reclaimJobsFromServer => cases hop

theorem Db.ready_run {tr : List (Step Db Turn)} (hr : Db.Turns codec tr db)
    (hops : ∀ x ∈ tr, x.label.operation.dispatches x.before = true) : db.Ready := by
  refine hr.stable Db.Ready .empty fun x hx h => ?_
  obtain ⟨_, -, -, hturn⟩ := hr.of_mem hx
  obtain ⟨⟨_, db'⟩, halone, rfl⟩ := Option.map_eq_some_iff.mp hturn
  apply Prog.alone_sound _ (Operation.readies h (hops x hx)) halone
  intro moment s _ cmd r t hcmd
  exact ⟨moment, Option.some.inj hcmd⟩

variable {moments : Nat → Moment}

theorem call_fetchAndLockJob :
    db.call codec (RedisStorage.fetchAndLockJob workerId queues) moments =
      match fetchScript codec db workerId (moments 0).now (candidateKeys queues) with
      | (some blob, db') => some ((parse "Failed to parse job" blob).map some, db')
      | (none, db') => some (.ok none, db') := by
  simp only [Db.call, RedisStorage.fetchAndLockJob, Prog.ask_bind, Prog.alone, Cmd.perform]
  generalize fetchScript codec db workerId _ _ = result
  obtain ⟨_ | blob, db'⟩ := result
  · rfl
  · rfl

theorem call_fetchUpTo {n : Nat} {jobs : List Job} :
    db.call codec (fetchUpTo workerId queues (n + 1) jobs) moments =
      match fetchScript codec db workerId (moments 0).now (candidateKeys queues) with
      | (some blob, db') =>
        match parse "Failed to parse job" blob with
        | .ok job => db'.call codec (fetchUpTo workerId queues n (jobs ++ [job]))
            fun k => moments (k + 2)
        | .error e => some (.error e, db')
      | (none, db') => some (.ok jobs, db') := by
  simp only [Db.call, fetchUpTo, RedisStorage.fetchAndLockJob, Prog.ask_bind, Prog.call_bind,
    Prog.alone, Cmd.perform]
  generalize fetchScript codec db workerId _ _ = result
  obtain ⟨_ | blob, db'⟩ := result
  · rfl
  · cases hreadable : blob.readable with
    | false =>
      simp only [parse, hreadable]
      rfl
    | true =>
      simp only [parse, hreadable]
      rfl

/-- A fetch claims what comes first in the sets, where that can be claimed. -/
theorem fetch_claims {x : ℚ} (hleads : Leads db.score (candidateKeys queues) id x)
    (hclaimable : db.claimable id = true) (hget : db.get id = some blob) :
    fetchScript codec db workerId t (candidateKeys queues) =
      (some (claimedBlob codec workerId t blob.job),
        rewrite db id blob (claimedBlob codec workerId t blob.job) none) := by
  generalize hscript : fetchScript codec db workerId t (candidateKeys queues) = result
  obtain ⟨reply, db'⟩ := result
  rcases fetchScript_cases hscript with ⟨-, -, hnone⟩ | ⟨_, _, -, hbest, hstale, -⟩ |
    ⟨_, _, _, hbest, hold, -, rfl, rfl⟩
  · cases hnone.symm.trans (best_iff.mpr hleads)
  · cases hbest.symm.trans (best_iff.mpr hleads)
    obtain ⟨_, hblob, hkind⟩ := Db.claimable_iff.mp hclaimable
    obtain ⟨hno, hno'⟩ := hstale _ hblob
    exact (hkind.elim hno hno').elim
  · cases hbest.symm.trans (best_iff.mpr hleads)
    cases hold.symm.trans hget
    rfl

/-- A fetch that claims nothing leaves the blobs alone, and what came first was not one to
claim; if nothing is `Enqueued` for it, that is what it owes. -/
theorem idle_fetch (h : db.Ready)
    (hscript : fetchScript codec db workerId t (candidateKeys queues) = (none, db')) :
    (∀ id x, Leads db.score (candidateKeys queues) id x → db.claimable id = false) ∧
    (∀ id, db'.offers queues id = db.offers queues id) ∧
    ((∀ id, db.offers queues id = false) ↔ db.Clear queues []) := by
  have hunclaimed : ∀ id x, Leads db.score (candidateKeys queues) id x →
      db.claimable id = false := by
    intro id x hleads
    refine Bool.eq_false_iff.mpr fun hclaimable => ?_
    obtain ⟨blob, hget, -⟩ := Db.claimable_iff.mp hclaimable
    cases hscript.symm.trans (fetch_claims hleads hclaimable hget)
  refine ⟨hunclaimed, fun id => ?_, ?_⟩
  · rcases fetchScript_cases hscript with ⟨-, rfl, -⟩ | ⟨_, _, -, -, -, rfl⟩ |
      ⟨_, _, _, -, -, -, hreply, -⟩
    · rfl
    · rw [Db.offers, Db.offers, get_dropStale]
    · cases hreply
  · simp only [Db.Clear, ← (HandedOut.none db).score, List.not_mem_nil, not_false_eq_true,
      true_and, forall_const]
    refine ⟨fun hnone _ _ _ => .inr hnone, fun hclear id => ?_⟩
    by_contra hoffers
    have hsome := h.offered (Bool.eq_true_of_not_eq_false hoffers)
    obtain ⟨⟨first, x⟩, hbest⟩ := Option.ne_none_iff_exists'.mp hsome
    have hleads := best_iff.mp hbest
    rcases hclear first x hleads with hclaimable | hnone
    · simp [hunclaimed first x hleads] at hclaimable
    · exact hoffers (hnone id)

/-- A fetch that claims a job claims what comes first. -/
theorem claimed_fetch (hscript : fetchScript codec db workerId t (candidateKeys queues) =
    (some blob, db')) : ∃ id x old, Leads db.score (candidateKeys queues) id x ∧
      db.get id = some old ∧ db.claimable id = true ∧
      blob = claimedBlob codec workerId t old.job ∧ db' = rewrite db id old blob none := by
  rcases fetchScript_cases hscript with ⟨hreply, -⟩ | ⟨_, _, hreply, -⟩ |
    ⟨id, x, old, hbest, hold, hkind, hreply, hdb⟩
  · cases hreply
  · cases hreply
  · cases hreply
    exact ⟨id, x, old, best_iff.mp hbest, hold, Db.claimable_iff.mpr ⟨old, hold, hkind⟩, rfl, hdb⟩

/-- Only one entry comes first. -/
theorem leads_unique {id' : String} {x x' : ℚ} (h : Leads db.score (candidateKeys queues) id x)
    (h' : Leads db.score (candidateKeys queues) id' x') : id = id' := by
  cases (best_iff.mpr h).symm.trans (best_iff.mpr h')
  rfl

theorem clear_of_claimable {x : ℚ} (hleads : Leads db.score (candidateKeys queues) id x)
    (hclaimable : db.claimable id = true) : db.Clear queues [] := by
  intro id' x' hleads'
  rw [← (HandedOut.none db).score] at hleads'
  exact .inl ⟨List.not_mem_nil, leads_unique hleads hleads' ▸ hclaimable⟩

/-- One fetch serves its caller exactly when what comes first is no obstacle. -/
theorem fetch_serves {reply : Except StorageError (Option Job)} (h : db.Ready)
    (hcall : db.call codec (RedisStorage.fetchAndLockJob workerId queues) moments =
      some (reply, db')) :
    Serves db queues reply ↔
      db.Clear queues [] ∧ db.Housed codec workerId (moments 0).now queues := by
  rw [call_fetchAndLockJob] at hcall
  generalize hscript : fetchScript codec db workerId _ _ = result at hcall
  obtain ⟨_ | blob, db''⟩ := result
  · cases hcall
    obtain ⟨hunclaimed, -, hclear⟩ := idle_fetch h hscript
    have hhoused : db.Housed codec workerId (moments 0).now queues := by
      intro id x blob hleads _ hclaimable
      cases (hunclaimed id x hleads).symm.trans hclaimable
    rw [and_iff_left hhoused, ← hclear]
    constructor
    · intro hserves
      exact hserves.progress rfl
    · intro hnone
      constructor
      · intro job hjob
        cases hjob
      · intro _
        exact hnone
  · cases hcall
    obtain ⟨id, x, old, hleads, hold, hclaimable, rfl, -⟩ := claimed_fetch hscript
    rw [and_iff_right (clear_of_claimable hleads hclaimable)]
    have hqueue : (claimedBlob codec workerId (moments 0).now old.job).job.queue =
        old.job.queue := (recode_processing codec _ workerId "redis-storage" old.job).2.1
    constructor
    · intro hserves id' x' blob hleads' hget _ hreadable
      obtain rfl := leads_unique hleads hleads'
      cases hold.symm.trans hget
      rw [← hqueue]
      apply hserves.filter
      simp [parse, hreadable, Except.map]
    · intro hhoused
      constructor
      · intro job hjob
        unfold parse at hjob
        split at hjob
        · rename_i hreadable
          cases hjob
          rw [hqueue]
          exact hhoused id x old hleads hold hclaimable hreadable
        · cases hjob
      · intro hreply
        unfold parse at hreply
        split at hreply <;> cases hreply

/-- So does a batch, with each of its fetches. -/
theorem batch_exhausts {n : Nat} {jobs : List Job} {reply : Except StorageError (List Job)}
    {mid : Db} {handed : List String} (h : mid.Ready) (hout : HandedOut db handed mid)
    (hcall : mid.call codec (fetchUpTo workerId queues n jobs) moments = some (reply, db')) :
    (∀ batch, reply = .ok batch → batch.length < n + jobs.length →
      ∀ id, db'.offers queues id = false) ↔
      db.StaysClear codec workerId queues n moments handed := by
  induction n generalizing mid moments jobs handed with
  | zero =>
    cases hcall
    refine iff_of_true (fun batch hreply hshort => ?_) trivial
    cases hreply
    omega
  | succ n ih =>
    rw [call_fetchUpTo] at hcall
    simp only [Db.StaysClear, ← hout.score, ← hout.clear_iff]
    generalize hscript : fetchScript codec mid workerId _ _ = result at hcall
    obtain ⟨_ | blob, mid'⟩ := result
    · cases hcall
      obtain ⟨hunclaimed, hsame, hclear⟩ := idle_fetch h hscript
      simp only [hsame, ← hclear]
      constructor
      · intro hshort
        refine ⟨hshort jobs rfl (by omega), fun id x _ hleads hid hclaimable => ?_⟩
        cases (hunclaimed id x hleads).symm.trans (hout.claimable_iff.mpr ⟨hid, hclaimable⟩)
      · intro hnone batch _ _
        exact hnone.1
    · obtain ⟨id, x, old, hleads, hold, hclaimable, rfl, rfl⟩ := claimed_fetch hscript
      obtain ⟨hid, hclaimable'⟩ := hout.claimable_iff.mp hclaimable
      have hget : db.get id = some old := (hout.get id hid).symm.trans hold
      rw [and_iff_right (clear_of_claimable hleads hclaimable)]
      generalize hblob : claimedBlob codec workerId (moments 0).now old.job = blob at hcall hscript
      cases hreadable : blob.readable with
      | false =>
        simp only [parse, hreadable, Bool.false_eq_true, if_false] at hcall
        cases hcall
        refine iff_of_true (fun batch hreply => by cases hreply) ?_
        intro id' x' blob' hleads' _ _ hget' hread
        obtain rfl := leads_unique hleads hleads'
        cases hget.symm.trans hget'
        rw [hblob, hreadable] at hread
        cases hread
      | true =>
        simp only [parse, hreadable, if_true] at hcall
        have hkind : blob.job.state.kind = .processing := by
          rw [← hblob, claimedBlob,
            (recode_processing codec _ workerId "redis-storage" old.job).2.2]
          rfl
        have hrest := ih (h.fetched hscript) (hout.next hid hold hkind) hcall
        rw [List.length_append, List.length_singleton] at hrest
        rw [show n + 1 + jobs.length = n + (jobs.length + 1) by omega, hrest]
        constructor
        · intro hstays id' x' blob' hleads' _ _ _ _
          obtain rfl := leads_unique hleads hleads'
          exact hstays
        · intro hall
          exact hall id x old hleads hid hclaimable' hget (hblob ▸ hreadable)

/-- Over every database that such operations leave, one at a time: a fetch returns a job
of the selected queues, and none only if none of their jobs is `Enqueued`, exactly when
what comes first in the sets is no obstacle; and a batch ends early only for want of such
jobs exactly when that is so for each of its fetches. -/
theorem fetch_progress_iff {tr : List (Step Db Turn)} (hr : Db.Turns codec tr db)
    (hops : ∀ x ∈ tr, x.label.operation.dispatches x.before = true)
    (workerId : String) (queues : Option (List String)) (moments : Nat → Moment) :
    (∀ reply db', db.call codec (RedisStorage.fetchAndLockJob workerId queues) moments =
        some (reply, db') →
      (Serves db queues reply ↔
        db.Clear queues [] ∧ db.Housed codec workerId (moments 0).now queues)) ∧
    ∀ limit reply db', db.call codec
        (RedisStorage.fetchAvailableJobsAtomic workerId limit queues) moments =
        some (reply, db') →
      (Exhausts db' limit queues reply ↔
        db.StaysClear codec workerId queues (min (limit.getD 10) 50) moments []) := by
  have hready := Db.ready_run hr hops
  exact ⟨fun reply db' hcall => fetch_serves hready hcall,
    fun limit reply db' hcall => batch_exhausts hready (.none db) hcall⟩

end

/-- A job that is already due when it is enqueued as `Scheduled`, and an `Enqueued` one
of lower priority. -/
def overdue : List Turn :=
  let noon : DateTime := 1767268800000000000
  let late := { Job.withConfig "late" noon "send_email" .null "default" 9 3 with
    state := .scheduled noon noon "at noon" }
  [.at noon (.enqueue late), .at noon (.enqueue (.new "next" noon "send_email" .null))]

theorem fetch_progress_iff_overdue : ∃ tr db, Db.Turns .lossless tr db ∧ tr.length = 2 ∧
    ∀ reply db', db.call .lossless (RedisStorage.fetchAndLockJob "w" (some ["default"]))
        (fun _ => ⟨0, []⟩) = some (reply, db') →
      (Serves db (some ["default"]) reply ↔ db.Clear (some ["default"]) [] ∧
        db.Housed .lossless "w" 0 (some ["default"])) := by
  obtain ⟨db, hr⟩ := replay_run (Db.turn .lossless) .empty overdue
  refine ⟨_, db, hr, by decide +kernel, ?_⟩
  exact (fetch_progress_iff hr (by decide +kernel) "w" (some ["default"]) fun _ => ⟨0, []⟩).1

/-- The first fetch drops the entry of the `Scheduled` job and returns nothing, and so
does a batch of five, although the other job is `Enqueued`. -/
theorem overdue_hides_enqueued : ∃ tr db, Db.Turns .lossless tr db ∧
    (∀ x ∈ tr, x.label.operation.dispatches x.before = true) ∧
    (∃ reply db', db.call .lossless (RedisStorage.fetchAndLockJob "w" none)
      (fun _ => ⟨0, []⟩) = some (reply, db') ∧ ¬ Serves db none reply) ∧
    ∃ reply db', db.call .lossless (RedisStorage.fetchAvailableJobsAtomic "w" (some 5) none)
      (fun _ => ⟨0, []⟩) = some (reply, db') ∧ ¬ Exhausts db' (some 5) none reply := by
  obtain ⟨db, hr⟩ := replay_run (Db.turn .lossless) .empty overdue
  have hoffers : db.offers none "next" = true := by
    rw [hr.eq_last]
    decide +kernel
  obtain ⟨db', hscript, hoffers'⟩ : ∃ db', fetchScript .lossless db "w" 0 [.available] =
      (none, db') ∧ db'.offers none "next" = true := by
    have hempty : (fetchScript .lossless db "w" 0 [.available]).1.isNone = true ∧
        (fetchScript .lossless db "w" 0 [.available]).2.offers none "next" = true := by
      rw [hr.eq_last]
      decide +kernel
    exact ⟨_, Prod.ext (Option.isNone_iff_eq_none.mp hempty.1) rfl, hempty.2⟩
  refine ⟨_, db, hr, by decide +kernel, ⟨.ok none, db', ?_, fun hserves => ?_⟩,
    .ok [], db', ?_, fun hexhausts => ?_⟩
  · rw [call_fetchAndLockJob]
    simp [candidateKeys, hscript]
  · simp [hserves.progress rfl "next"] at hoffers
  · rw [RedisStorage.fetchAvailableJobsAtomic]
    simp [call_fetchUpTo, candidateKeys, hscript]
  · simp [hexhausts [] rfl (by decide) "next"] at hoffers'

end Qml
