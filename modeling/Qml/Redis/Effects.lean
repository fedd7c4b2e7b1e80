import Qml.Redis.Entries

namespace Qml
open Lib

namespace RedisStorage
variable {codec : Codec} {db db' : Db} {id id' source target queue : String} {x : Option ℚ}
  {key : SetKey} {zkey : ZKey} {kind a b : JobStateKind} {job : Job} {old new : Blob}

@[simp] theorem get_move : (move db source target id').get id = db.get id := rfl
@[simp] theorem score_move : (move db source target id').score zkey id = db.score zkey id := rfl

@[simp] theorem mem_move : (move db source target id').mem key id =
    (decide (key = .state target ∧ id = id') ||
      (!decide (key = .state source ∧ id = id') && db.mem key id)) := by
  simp [move]

theorem drift_move : (move db (kindToStateName a) (kindToStateName b) id).drift kind =
    db.drift kind + (if kind = a then -1 else 0) + (if kind = b then 1 else 0) := by
  simp [move]

@[simp] theorem get_index : (index db x queue id').get id = db.get id := by
  cases x <;> rfl

@[simp] theorem mem_index : (index db x queue id').mem key id = db.mem key id := by
  cases x <;> rfl

@[simp] theorem drift_index : (index db x queue id').drift kind = db.drift kind := by
  cases x <;> rfl

@[simp] theorem score_index : (index db x queue id').score zkey id =
    if (zkey = .available ∨ zkey = .byQueue queue) ∧ id = id' then x else db.score zkey id := by
  cases x <;> by_cases ha : zkey = .available <;> by_cases hq : zkey = .byQueue queue <;>
    by_cases hid : id = id' <;> simp [index, ha, hq, hid]

/-- What every script that writes a blob comes to: store the new blob, move its
identifier between the state sets, and index it under its queue. -/
def rewrite (db : Db) (id : String) (old new : Blob) (x : Option ℚ) : Db :=
  let db := db.set id new
  index (if old.job.state.kind = new.job.state.kind then db
    else move db (stateToString old.job.state) (stateToString new.job.state) id) x old.job.queue id

@[simp] theorem get_rewrite : (rewrite db id' old new x).get id =
    if id = id' then some new else db.get id := by
  unfold rewrite
  split <;> simp

theorem mem_rewrite_other (hid : id ≠ id') :
    (rewrite db id' old new x).mem key id = db.mem key id := by
  unfold rewrite
  split <;> simp [hid]

theorem score_rewrite : (rewrite db id' old new x).score zkey id =
    if (zkey = .available ∨ zkey = .byQueue old.job.queue) ∧ id = id' then x
    else db.score zkey id := by
  unfold rewrite
  split <;> simp

theorem mem_rewrite_state (hold : db.mem (.state target) id =
    decide (target = stateToString old.job.state)) :
    (rewrite db id old new x).mem (.state target) id =
      decide (target = stateToString new.job.state) := by
  unfold rewrite
  split
  · rename_i hkind
    rw [mem_index, Db.mem_set, hold, stateToString, stateToString, hkind]
  · simp only [mem_index, mem_move, Db.mem_set, hold]
    by_cases htarget : target = stateToString new.job.state <;>
      by_cases hsource : target = stateToString old.job.state <;> simp [htarget, hsource]

theorem mem_rewrite_all : (rewrite db id old new x).mem .all id = db.mem .all id := by
  unfold rewrite
  split <;> simp

theorem drift_rewrite (hold : db.get id = some old) :
    (rewrite db id old new x).drift kind = db.drift kind := by
  unfold rewrite
  split
  · rename_i hkind
    simp only [drift_index, Db.drift_set, Db.share_some hold, Blob.isIn, hkind]
    by_cases hn : new.job.state.kind = kind <;> simp [hn]
  · rename_i hkind
    simp only [drift_index, stateToString, drift_move, Db.drift_set, Db.share_some hold, Blob.isIn,
      decide_eq_true_eq]
    by_cases ho : old.job.state.kind = kind <;> by_cases hn : new.job.state.kind = kind <;>
      simp_all [eq_comm]

/-- The score given to a job agrees with its state. -/
structure Scores (x : Option ℚ) (job : Job) : Prop where
  ready : job.state.kind = .enqueued → x.isSome
  waiting : x.isSome → job.state.kind.waiting = true

theorem rewrite_indexes (h : db.Indexes id old.job) (hqueue : new.job.queue = old.job.queue)
    (hscore : Scores x new.job) : (rewrite db id old new x).Indexes id new.job where
  state name := mem_rewrite_state (h.state name)
  all := mem_rewrite_all.trans h.all
  ready hkind := by simpa [score_rewrite, hqueue] using hscore.ready hkind
  available hsome := hscore.waiting (by simpa [score_rewrite] using hsome)
  byQueue queue hsome := by
    rw [score_rewrite] at hsome
    by_cases hq : queue = old.job.queue
    · subst hq
      exact ⟨hscore.waiting (by simpa using hsome), hqueue.symm⟩
    · simp only [reduceCtorEq, ZKey.byQueue.injEq, hq, or_self, false_and, if_false] at hsome
      exact absurd (h.byQueue queue hsome).2 hq

theorem rewrite_effect (hnamed : db.Named) (hold : db.get id = some old) (hid : new.job.id = id)
    (hqueue : new.job.queue = old.job.queue) (hscore : Scores x new.job) :
    Db.Effect db (rewrite db id old new x) [id] where
  named k blob hk := by
    rw [get_rewrite] at hk
    split at hk
    · cases hk
      rw [hid, ‹k = id›]
    · exact hnamed k blob hk
  stored k hk := by
    rw [List.mem_singleton.mp hk, hold]
    rfl
  trims k hk := by
    have hne : k ≠ id := by simpa using hk
    refine .of_same (by simp [hne]) (fun key => mem_rewrite_other hne) fun key => ?_
    simp [score_rewrite, hne]
  fits k hk hfits := by
    cases List.mem_singleton.mp hk
    rw [Db.fits_some hold] at hfits
    have hnew : (rewrite db id old new x).get id = some new := by simp
    rw [Db.fits_some hnew]
    exact rewrite_indexes hfits hqueue hscore
  drift _ := drift_rewrite hold

theorem newScore_scores {now : DateTime} : Scores (newScore now job) job := by
  unfold newScore isJobAvailable
  constructor <;> cases job.state <;> simp [JobState.kind, JobStateKind.waiting]

/-- The two ways `update` ends. -/
theorem updateScript_cases {reply : Reply} (hnamed : db.Named)
    (h : updateScript codec db job (stateToString job.state) x = (reply, db')) :
    reply = .missing ∧ db.get job.id = none ∧ db' = db ∨
    ∃ old, reply = .ok ∧ db.get job.id = some old ∧
      db' = rewrite (db.sadd .all job.id) job.id old (codec.serialize job) x := by
  unfold updateScript at h
  split at h
  · rename_i hnone
    cases h
    exact .inl ⟨rfl, hnone, rfl⟩
  · rename_i old hold
    have hname : indexName old.job.state.name = kindToStateName old.job.state.kind :=
      indexName_name _
    simp only [hnamed _ _ hold, hname, Prod.mk.injEq] at h
    obtain ⟨rfl, rfl⟩ := h
    refine .inr ⟨old, rfl, hold, ?_⟩
    simp only [rewrite, codec.serialize_job, stateToString]
    by_cases hkind : old.job.state.kind = job.state.kind
    · simp only [hkind, ne_eq, not_true_eq_false, if_false, if_true]
      rfl
    · have hne : kindToStateName old.job.state.kind ≠ kindToStateName job.state.kind :=
        fun he => hkind (kindToStateName_injective he)
      simp only [hkind, hne, ne_eq, not_false_eq_true, if_true, if_false]
      rfl

/-- The three ways `update_if_state` ends. -/
theorem updateIfStateScript_cases {reply : Reply} {expected : JobStateKind} (hnamed : db.Named)
    (h : updateIfStateScript codec db job expected.name job.state.kind.name x = (reply, db')) :
    reply ≠ .ok ∧ db' = db ∨
    ∃ old, reply = .ok ∧ db.get job.id = some old ∧ old.job.state.kind = expected ∧
      db' = rewrite db job.id old (codec.serialize job) x := by
  unfold updateIfStateScript at h
  split at h
  · cases h
    exact .inl ⟨by simp, rfl⟩
  · rename_i old hold
    by_cases hkind : old.job.state.kind = expected
    · subst hkind
      simp only [JobState.name, hnamed _ _ hold, indexName_name, ne_eq, not_true_eq_false,
        if_false, Prod.mk.injEq] at h
      obtain ⟨rfl, rfl⟩ := h
      refine .inr ⟨old, rfl, hold, rfl, ?_⟩
      simp only [rewrite, codec.serialize_job, stateToString]
      by_cases hsame : old.job.state.kind = job.state.kind
      · simp only [hsame, not_true_eq_false, if_true, if_false]
      · have hne : old.job.state.kind.name ≠ job.state.kind.name :=
          fun he => hsame (JobStateKind.name_injective he)
        simp only [hsame, hne, not_false_eq_true, if_true, if_false]
    · have hne : old.job.state.name ≠ expected.name :=
        fun he => hkind (JobStateKind.name_injective he)
      rw [if_pos hne] at h
      cases h
      exact .inl ⟨by simp, rfl⟩

theorem sadd_effect (hnamed : db.Named) (hold : db.get id = some old) :
    Db.Effect db (db.sadd .all id) [id] where
  named := hnamed
  stored k hk := by
    rw [List.mem_singleton.mp hk, hold]
    rfl
  trims k hk := by
    have hne : k ≠ id := by simpa using hk
    exact .of_same rfl (fun key => by simp [hne]) fun _ => rfl
  fits k hk hfits := by
    cases List.mem_singleton.mp hk
    rw [Db.fits_some hold] at hfits
    have hsame : (db.sadd .all id).get id = some old := hold
    rw [Db.fits_some hsame]
    exact ⟨fun name => by simpa using hfits.state name, by simp, hfits.ready, hfits.available,
      hfits.byQueue⟩
  drift _ := rfl

theorem updateScript_effect {reply : Reply} (hnamed : db.Named) (hscore : Scores x job)
    (hqueue : ∀ old, db.get job.id = some old → job.queue = old.job.queue)
    (h : updateScript codec db job (stateToString job.state) x = (reply, db')) :
    Db.Effect db db' (if reply = .ok then [job.id] else []) := by
  rcases updateScript_cases hnamed h with ⟨rfl, -, rfl⟩ | ⟨old, rfl, hold, rfl⟩
  · exact .refl hnamed
  · have hsadd := sadd_effect hnamed hold
    refine (hsadd.trans (rewrite_effect hsadd.named hold ?_ ?_ ?_)).congr (by simp)
    · rw [codec.serialize_job]
    · rw [codec.serialize_job, hqueue old hold]
    · rwa [codec.serialize_job]

theorem updateIfStateScript_effect {reply : Reply} {expected : JobStateKind} (hnamed : db.Named)
    (hscore : Scores x job)
    (hqueue : ∀ old, db.get job.id = some old → job.queue = old.job.queue)
    (h : updateIfStateScript codec db job expected.name job.state.kind.name x = (reply, db')) :
    Db.Effect db db' (if reply = .ok then [job.id] else []) := by
  rcases updateIfStateScript_cases hnamed h with ⟨hne, rfl⟩ | ⟨old, rfl, hold, -, rfl⟩
  · rw [if_neg hne]
    exact .refl hnamed
  · refine rewrite_effect hnamed hold ?_ ?_ ?_
    · rw [codec.serialize_job]
    · rw [codec.serialize_job, hqueue old hold]
    · rwa [codec.serialize_job]

/-- The two states jobs are promoted from, with the names the script is given. -/
inductive Timed : JobStateKind → String → String → String → Prop
  | scheduled : Timed .scheduled "scheduled" "Scheduled" "enqueue_at"
  | awaitingRetry : Timed .awaitingRetry "awaiting_retry" "AwaitingRetry" "retry_at"

theorem Timed.source_eq {variant field : String} (h : Timed kind source variant field) :
    source = kindToStateName kind := by
  cases h <;> rfl

theorem Timed.ne_enqueued {variant field : String} (h : Timed kind source variant field) :
    kind ≠ .enqueued := by
  cases h <;> decide

theorem Timed.kind_of_due {variant field : String} {t : DateTime}
    (h : Timed kind source variant field) (hdue : isDue variant field t job = true) :
    job.state.kind = kind := by
  unfold isDue timeField at hdue
  cases h <;> cases hs : job.state <;> simp_all [JobState.kind]

/-- The blobs a run of `promoteAll` writes, one after the other. -/
inductive Promoted (codec : Codec) (kind : JobStateKind) (t : DateTime) :
    Db → List Blob → Db → Prop
  | nil (db : Db) : Promoted codec kind t db [] db
  | cons {db db' : Db} {id : String} {old : Blob} {blobs : List Blob} (hold : db.get id = some old)
      (hkind : old.job.state.kind = kind)
      (rest : Promoted codec kind t (rewrite db id old
        (codec.recode { old.job with state := .enqueued t.truncMicros old.job.queue })
        (some old.job.priority)) blobs db') :
      Promoted codec kind t db
        (codec.recode { old.job with state := .enqueued t.truncMicros old.job.queue } :: blobs) db'

/-- The due candidates are read from the database, which keeps every blob. -/
theorem collectDue_finds {variant field : String} {t : DateTime} {ids : List String}
    {due : List (String × Job)} (h : collectDue source variant field t ids db = (due, db')) :
    (∀ k, db'.get k = db.get k) ∧ (due.map Prod.fst).Sublist ids ∧ ∀ e ∈ due, ∃ old,
      db.get e.1 = some old ∧ old.job = e.2 ∧ isDue variant field t e.2 = true := by
  induction ids generalizing db db' due with
  | nil =>
    cases h
    exact ⟨fun _ => rfl, .slnil, by simp⟩
  | cons id ids ih =>
    rw [collectDue] at h
    split at h
    · obtain ⟨hget, hsub, hdue⟩ := ih h
      exact ⟨hget, hsub.cons _, hdue⟩
    · rename_i old hold
      generalize hc : collectDue source variant field t ids db = rest at h
      obtain ⟨due', db''⟩ := rest
      obtain ⟨hget, hsub, hdue⟩ := ih hc
      simp only [Prod.mk.injEq] at h
      obtain ⟨rfl, rfl⟩ := h
      refine ⟨hget, ?_, ?_⟩
      · split
        · exact hsub.cons_cons _
        · exact hsub.cons _
      · split
        · rename_i hd
          exact List.forall_mem_cons.mpr ⟨⟨old, hold, rfl, hd⟩, hdue⟩
        · exact hdue

theorem collectDue_effect {variant field : String} {t : DateTime} {ids : List String}
    {due : List (String × Job)} (hnamed : db.Named)
    (h : collectDue source variant field t ids db = (due, db')) : Db.Effect db db' [] := by
  induction ids generalizing db db' due with
  | nil =>
    cases h
    exact .refl hnamed
  | cons id ids ih =>
    rw [collectDue] at h
    split at h
    · rename_i hnone
      -- Without a blob the identifier only leaves the state set.
      have hdrop : Db.Effect db (db.srem (.state source) id) [] := by
        refine ⟨hnamed, by simp, fun k _ => ⟨rfl, fun key => ?_, fun key => .inl rfl⟩, by simp,
          fun _ => rfl⟩
        by_cases hk : k = id
        · subst hk
          by_cases hs : key = .state source <;> simp [hs, hnone]
        · simp [hk]
      exact hdrop.trans (ih hdrop.named h)
    · generalize hc : collectDue source variant field t ids db = rest at h
      obtain ⟨due', db''⟩ := rest
      cases h
      exact ih hnamed hc

theorem collectDue_score {variant field : String} {t : DateTime} {ids : List String}
    {due : List (String × Job)} (h : collectDue source variant field t ids db = (due, db')) :
    ∀ zkey id, db'.score zkey id = db.score zkey id := by
  induction ids generalizing db db' due with
  | nil =>
    cases h
    exact fun _ _ => rfl
  | cons id ids ih =>
    rw [collectDue] at h
    split at h
    · exact fun zkey k => Eq.trans (ih h zkey k) rfl
    · generalize hc : collectDue source variant field t ids db = rest at h
      obtain ⟨due', db''⟩ := rest
      cases h
      exact ih hc

theorem promoteAll_promoted {t : DateTime} {entries : List (String × Job)} {claimed : List Blob}
    (hsource : source = kindToStateName kind) (hkind : kind ≠ .enqueued)
    (hnodup : (entries.map Prod.fst).Nodup)
    (hentries : ∀ e ∈ entries, ∃ old, db.get e.1 = some old ∧ old.job = e.2 ∧ e.2.state.kind = kind)
    (h : promoteAll codec source t entries db = (claimed, db')) :
    Promoted codec kind t db claimed db' := by
  induction entries generalizing db db' claimed with
  | nil =>
    cases h
    exact .nil db
  | cons e entries ih =>
    obtain ⟨id, job⟩ := e
    obtain ⟨⟨old, hold, rfl, hk⟩, hrest⟩ := List.forall_mem_cons.mp hentries
    simp only [List.map_cons, List.nodup_cons] at hnodup
    obtain ⟨payload, timeout, hrecode⟩ := codec.recode_job
      { old.job with state := .enqueued t.truncMicros old.job.queue } rfl
    have hstate : (codec.recode { old.job with state := .enqueued t.truncMicros old.job.queue
        }).job.state.kind = .enqueued := by rw [hrecode]; rfl
    have hwrite : (promote codec source t db (id, old.job)).2 = rewrite db id old
        (codec.recode { old.job with state := .enqueued t.truncMicros old.job.queue })
        (some old.job.priority) := by
      simp only [rewrite, hstate, hk, hkind, if_false, stateToString, hsource]
      rfl
    simp only [promoteAll] at h
    rw [hwrite] at h
    generalize hp : promoteAll codec source t entries _ = rest at h
    obtain ⟨claimed', db''⟩ := rest
    cases h
    refine .cons hold hk (ih hnodup.2 (fun e he => ?_) hp)
    have hne : e.1 ≠ id := fun heq => hnodup.1 (heq ▸ List.mem_map_of_mem he)
    simpa [hne] using hrest e he

theorem recode_enqueued (codec : Codec) (t : DateTime) (job : Job) :
    (codec.recode { job with state := .enqueued t job.queue }).job.id = job.id ∧
    (codec.recode { job with state := .enqueued t job.queue }).job.queue = job.queue ∧
    (codec.recode { job with state := .enqueued t job.queue }).job.state =
      .enqueued t job.queue := by
  obtain ⟨payload, timeout, h⟩ := codec.recode_job { job with state := .enqueued t job.queue } rfl
  rw [h]
  exact ⟨rfl, rfl, rfl⟩

theorem Promoted.effect {t : DateTime} {claimed : List Blob} (hnamed : db.Named)
    (h : Promoted codec kind t db claimed db') :
    Db.Effect db db' (claimed.map fun blob => blob.job.id) := by
  induction h with
  | nil => exact .refl hnamed
  | @cons db db' id old blobs hold hkind rest ih =>
    obtain ⟨hid, hqueue, hstate⟩ := recode_enqueued codec t.truncMicros old.job
    have hone := rewrite_effect hnamed hold (hid.trans (hnamed _ _ hold)) hqueue
      (x := some old.job.priority) ⟨by simp, by simp [hstate, JobState.kind, JobStateKind.waiting]⟩
    have hrest := hone.trans (ih hone.named)
    rwa [List.map_cons, hid, hnamed _ _ hold]

/-- The script of `claim_due_jobs_lua` collects, then promotes what it collected. -/
theorem claimDueScript_promotes {variant field : String} {t : DateTime} {limit : UInt64}
    {members : List String} {claimed : List Blob} (htimed : Timed kind source variant field)
    (hmembers : members.Nodup)
    (h : claimDueScript codec db source variant field t limit members = (claimed, db')) :
    ∃ due mid, collectDue source variant field t members db = (due, mid) ∧
      Promoted codec kind t mid claimed db' := by
  unfold claimDueScript at h
  generalize hc : collectDue source variant field t members db = collected at h
  obtain ⟨due, mid⟩ := collected
  obtain ⟨hget, hsub, hdue⟩ := collectDue_finds hc
  refine ⟨due, mid, rfl, ?_⟩
  have hperm := List.perm_insertionSort dueNotAfter due
  refine promoteAll_promoted htimed.source_eq htimed.ne_enqueued ?_ (fun e he => ?_) h
  · have hnodup : ((due.insertionSort dueNotAfter).map Prod.fst).Nodup :=
      ((hperm.map Prod.fst).nodup_iff).mpr (hsub.nodup hmembers)
    exact hnodup.sublist ((List.take_sublist _ _).map Prod.fst)
  · obtain ⟨old, hold, hjob, hd⟩ := hdue e (hperm.mem_iff.mp (List.mem_of_mem_take he))
    exact ⟨old, (hget e.1).trans hold, hjob, htimed.kind_of_due hd⟩

/-- What the script of `claim_due_jobs_lua` does: drop identifiers without a
blob from the state set, then promote. -/
theorem claimDueScript_cases {variant field : String} {t : DateTime} {limit : UInt64}
    {members : List String} {claimed : List Blob} (hnamed : db.Named)
    (htimed : Timed kind source variant field) (hmembers : members.Nodup)
    (h : claimDueScript codec db source variant field t limit members = (claimed, db')) :
    ∃ mid, Db.Effect db mid [] ∧ (∀ zkey id, mid.score zkey id = db.score zkey id) ∧
      Promoted codec kind t mid claimed db' := by
  obtain ⟨due, mid, hc, hpromoted⟩ := claimDueScript_promotes htimed hmembers h
  exact ⟨mid, collectDue_effect hnamed hc, collectDue_score hc, hpromoted⟩

theorem claimDueScript_effect {variant field : String} {t : DateTime} {limit : UInt64}
    {members : List String} {claimed : List Blob} (hnamed : db.Named)
    (htimed : Timed kind source variant field) (hmembers : members.Nodup)
    (h : claimDueScript codec db source variant field t limit members = (claimed, db')) :
    Db.Effect db db' (claimed.map fun blob => blob.job.id) := by
  obtain ⟨mid, heffect, -, hpromoted⟩ := claimDueScript_cases hnamed htimed hmembers h
  exact heffect.trans (hpromoted.effect heffect.named)

theorem get_dropStale (db : Db) (candidates : List ZKey) (id id' : String) :
    (dropStale db candidates id').get id = db.get id := by
  induction candidates generalizing db with
  | nil => rfl
  | cons z candidates ih => exact ih (db.zrem z id')

theorem mem_dropStale (db : Db) (candidates : List ZKey) (key : SetKey) (id id' : String) :
    (dropStale db candidates id').mem key id = db.mem key id := by
  induction candidates generalizing db with
  | nil => rfl
  | cons z candidates ih => exact ih (db.zrem z id')

theorem drift_dropStale (db : Db) (candidates : List ZKey) (id : String) (kind : JobStateKind) :
    (dropStale db candidates id).drift kind = db.drift kind := by
  induction candidates generalizing db with
  | nil => rfl
  | cons z candidates ih => exact ih (db.zrem z id)

theorem score_dropStale (db : Db) (candidates : List ZKey) (zkey : ZKey) (id id' : String) :
    (dropStale db candidates id').score zkey id =
      if id = id' ∧ (zkey ∈ candidates ∨ zkey = .available) then none else db.score zkey id := by
  induction candidates generalizing db with
  | nil => by_cases hid : id = id' <;> simp [dropStale, hid]
  | cons z candidates ih =>
    refine (ih (db.zrem z id')).trans ?_
    by_cases hid : id = id' <;> by_cases hz : zkey = z <;> simp [hid, hz]

theorem dropStale_effect {candidates : List ZKey} (hnamed : db.Named)
    (hstale : ∀ blob, db.get id = some blob → blob.job.state.kind ≠ .enqueued) :
    Db.Effect db (dropStale db candidates id) [] where
  named k blob hk := hnamed k blob ((get_dropStale ..).symm.trans hk)
  stored := by simp
  trims k _ := by
    refine ⟨get_dropStale .., fun key => .inl (mem_dropStale ..), fun key => ?_⟩
    rw [score_dropStale]
    split
    · rename_i hk
      exact .inr ⟨hk.1 ▸ hstale, rfl⟩
    · exact .inl rfl
  fits := by simp
  drift _ := drift_dropStale ..

/-- What the script of a fetch does: nothing; drop an entry that no longer
belongs in the sorted sets; or claim. -/
theorem fetchScript_cases {workerId : String} {t : DateTime} {candidates : List ZKey}
    {reply : Option Blob} (h : fetchScript codec db workerId t candidates = (reply, db')) :
    reply = none ∧ db' = db ∧ best db candidates none = none ∨
    (∃ id x, reply = none ∧ best db candidates none = some (id, x) ∧
      (∀ blob, db.get id = some blob →
        blob.job.state.kind ≠ .enqueued ∧ blob.job.state.kind ≠ .awaitingRetry) ∧
      db' = dropStale db candidates id) ∨
    ∃ id x old, best db candidates none = some (id, x) ∧ db.get id = some old ∧
      (old.job.state.kind = .enqueued ∨ old.job.state.kind = .awaitingRetry) ∧
      reply = some (codec.recode
        { old.job with state := .processing t.truncMicros workerId "redis-storage" }) ∧
      db' = rewrite db id old (codec.recode
        { old.job with state := .processing t.truncMicros workerId "redis-storage" }) none := by
  unfold fetchScript at h
  split at h
  · cases h
    exact .inl ⟨rfl, rfl, ‹_›⟩
  · rename_i id x hbest
    split at h
    · rename_i hnone
      cases h
      exact .inr (.inl ⟨id, x, rfl, hbest, by simp [hnone], rfl⟩)
    · rename_i old hold
      by_cases hkind : old.job.state.kind = .enqueued ∨ old.job.state.kind = .awaitingRetry
      · obtain ⟨payload, timeout, hrecode⟩ := codec.recode_job
          { old.job with state := .processing t.truncMicros workerId "redis-storage" } rfl
        simp only [hkind, if_true, Prod.mk.injEq] at h
        obtain ⟨rfl, rfl⟩ := h
        refine .inr (.inr ⟨id, x, old, hbest, hold, hkind, rfl, ?_⟩)
        have hstate : (codec.recode { old.job with
            state := .processing t.truncMicros workerId "redis-storage" }).job.state.kind =
            .processing := by rw [hrecode]; rfl
        rcases hkind with hk | hk
        all_goals
          simp only [rewrite, hstate, hk, stateToString, reduceCtorEq, if_false, if_true]
          rfl
      · rw [if_neg hkind] at h
        cases h
        refine .inr (.inl ⟨id, x, rfl, hbest, fun blob hb => ?_, rfl⟩)
        cases hold.symm.trans hb
        exact not_or.mp hkind

theorem recode_processing (codec : Codec) (t : DateTime) (w s : String) (job : Job) :
    (codec.recode { job with state := .processing t w s }).job.id = job.id ∧
    (codec.recode { job with state := .processing t w s }).job.queue = job.queue ∧
    (codec.recode { job with state := .processing t w s }).job.state = .processing t w s := by
  obtain ⟨payload, timeout, h⟩ := codec.recode_job { job with state := .processing t w s } rfl
  rw [h]
  exact ⟨rfl, rfl, rfl⟩

theorem fetchScript_effect {workerId : String} {t : DateTime} {candidates : List ZKey}
    {reply : Option Blob} (hnamed : db.Named)
    (h : fetchScript codec db workerId t candidates = (reply, db')) :
    Db.Effect db db' (reply.map fun blob => blob.job.id).toList := by
  rcases fetchScript_cases h with ⟨rfl, rfl, -⟩ | ⟨id, x, rfl, -, hstale, rfl⟩ |
    ⟨id, x, old, -, hold, -, rfl, rfl⟩
  · exact .refl hnamed
  · exact dropStale_effect hnamed fun blob hb => (hstale blob hb).1
  · obtain ⟨hid, hqueue, hstate⟩ := recode_processing codec t.truncMicros workerId
      "redis-storage" old.job
    have heffect := rewrite_effect hnamed hold (hid.trans (hnamed _ _ hold)) hqueue
      (x := none) ⟨by simp [hstate, JobState.kind], by simp⟩
    rwa [Option.map_some, Option.toList_some, hid, hnamed _ _ hold]

end RedisStorage
end Qml
