import Qml.Redis.Draining
import Qml.Redis.Indices

namespace Qml
open Lib RedisStorage

/-- The operations that fill the queues. -/
def Operation.feeds : Operation → Bool
  | .enqueue .. | .update .. | .claimDueScheduledJobs .. | .claimDueRetryJobs .. => true
  | _ => false

def Operation.promotes : Operation → Bool
  | .claimDueScheduledJobs .. | .claimDueRetryJobs .. => true
  | _ => false

/-- The job that an operation stores. -/
def Operation.stores : Operation → Option Job
  | .enqueue job | .update job => some job
  | _ => none

theorem Operation.stores_of_promotes {operation : Operation} (h : operation.promotes = true) :
    operation.stores = none := by
  cases operation <;> first | rfl | cases h

/-- A job that is stored again stays in its queue. -/
def Operation.keepsQueue (db : Db) (operation : Operation) : Bool :=
  match operation.stores with
  | some job => (db.get job.id).all fun blob => decide (blob.job.queue = job.queue)
  | none => true

/-- Whether a turn promotes the identifier. -/
def promotedBy (x : Step Db Turn) (id : String) : Bool :=
  x.label.operation.promotes && !x.before.waits id && x.after.waits id

/-- Whether a turn stores the identifier. -/
def storedBy (x : Step Db Turn) (id : String) : Bool :=
  x.label.operation.stores.any fun job => decide (job.id = id)

/-- Whether the last turn that scored an identifier promoted it. -/
def lastPromoted (tr : List (Step Db Turn)) (id : String) : Bool :=
  tr.foldl (fun last x =>
    if promotedBy x id then true else if storedBy x id then false else last) false

/-- The score of a job, by its last writer. -/
def lastScore (tr : List (Step Db Turn)) (job : Job) : ℚ :=
  if lastPromoted tr job.id then job.priority else score job

/-- Repeated fetches hand out every `Enqueued` job, higher priorities first and
the older first among equals, as the in-memory backend sorts them. -/
structure DispatchesInOrder (codec : Codec) (db : Db) (queues : Option (List String)) : Prop where
  all : ∃ n, ∀ fetches, n ≤ fetches.length → ∀ id, db.waits id = true →
    ∃ job ∈ drain codec (candidateKeys queues) fetches db, job.id = id
  sorted : ∀ fetches, ((drain codec (candidateKeys queues) fetches db).filter
    fun job => db.waits job.id).Pairwise Job.notAfter

/-- Of two `Enqueued` jobs, the one to go first has the higher score, or the
same and the greater identifier. -/
def ScoresFollowOrder (tr : List (Step Db Turn)) (db : Db) : Prop :=
  ∀ a b : Blob, db.get a.job.id = some a → a.job.state.kind = .enqueued →
    db.get b.job.id = some b → b.job.state.kind = .enqueued → a.job.precedes b.job = true →
    Db.notBelow (a.job.id, lastScore tr a.job) (b.job.id, lastScore tr b.job)

section
variable {codec : Codec} {db db' : Db} {tr : List (Step Db Turn)} {z : ZKey} {w : String → ℚ}
  {queues : Option (List String)} {a b : Job}

theorem precedes_congr {a' b' : Job} (hap : a.priority = a'.priority)
    (hac : a.createdAt = a'.createdAt) (hbp : b.priority = b'.priority)
    (hbc : b.createdAt = b'.createdAt) : a.precedes b = a'.precedes b' := by
  rw [Job.precedes, Job.precedes, hap, hac, hbp, hbc]

theorem precedes_irrefl : a.precedes a = false := by
  simp [Job.precedes]

/-- The order of a drained line is the order of its scores. -/
theorem order_iff (h : Lined db (candidateKeys queues) z w)
    (hw : ∀ id blob, db.get id = some blob → w id = lastScore tr blob.job) :
    DispatchesInOrder codec db queues ↔ ScoresFollowOrder tr db := by
  constructor
  · rintro ⟨⟨n, hall⟩, hsorted⟩ a b ha hakind hb hbkind hbefore
    let fetches : List (String × DateTime) := List.replicate n ("", 0)
    have hlength : n ≤ fetches.length := by simp [fetches]
    obtain ⟨job, hjob, hjid⟩ := hall fetches hlength a.job.id (Db.waits_iff.mpr ⟨a, ha, hakind⟩)
    obtain ⟨other, hother, hoid⟩ := hall fetches hlength b.job.id
      (Db.waits_iff.mpr ⟨b, hb, hbkind⟩)
    have hdrained : Drained db w (drain codec (candidateKeys queues) fetches db) :=
      h.drained fetches
    obtain ⟨olda, hgeta, -, hap, hac⟩ := hdrained.mem job hjob
    obtain ⟨oldb, hgetb, -, hbp, hbc⟩ := hdrained.mem other hother
    rw [hjid, ha] at hgeta
    rw [hoid, hb] at hgetb
    cases hgeta
    cases hgetb
    have hsame : job.precedes other = true := (precedes_congr hap hac hbp hbc).trans hbefore
    -- Both stand in the sorted list, in one order or the other.
    have hpair := (hsorted fetches).and hdrained.sorted
    have hmem : job ∈ (drain codec (candidateKeys queues) fetches db).filter
        fun job => db.waits job.id :=
      List.mem_filter.mpr ⟨hjob, hjid ▸ Db.waits_iff.mpr ⟨a, ha, hakind⟩⟩
    have hmem' : other ∈ (drain codec (candidateKeys queues) fetches db).filter
        fun job => db.waits job.id :=
      List.mem_filter.mpr ⟨hother, hoid ▸ Db.waits_iff.mpr ⟨b, hb, hbkind⟩⟩
    have hne : job ≠ other := by
      rintro rfl
      simp [precedes_irrefl] at hsame
    have hor := either_way hpair hmem hmem' hne
    rcases hor with ⟨-, habove⟩ | ⟨hafter, -⟩
    · rwa [hjid, hoid, hw _ a ha, hw _ b hb] at habove
    · exact absurd hsame (Bool.eq_false_iff.mp hafter)
  · intro hfollow
    refine ⟨⟨load db (candidateKeys queues), fun fetches hload id hid =>
      h.drained_all hload hid⟩, fun fetches => ?_⟩
    have hdrained : Drained db w (drain codec (candidateKeys queues) fetches db) :=
      h.drained fetches
    refine hdrained.sorted.imp_of_mem fun {x y} hx hy habove => ?_
    obtain ⟨hx, hxwaits⟩ := List.mem_filter.mp hx
    obtain ⟨hy, hywaits⟩ := List.mem_filter.mp hy
    obtain ⟨a, ha, -, hap, hac⟩ := hdrained.mem x hx
    obtain ⟨b, hb, -, hbp, hbc⟩ := hdrained.mem y hy
    obtain ⟨a', ha', hakind⟩ := Db.waits_iff.mp hxwaits
    obtain ⟨b', hb', hbkind⟩ := Db.waits_iff.mp hywaits
    cases ha.symm.trans ha'
    cases hb.symm.trans hb'
    have haid := h.named _ _ ha
    have hbid := h.named _ _ hb
    refine Bool.eq_false_iff.mpr fun hbefore => ?_
    rw [precedes_congr hbp hbc hap hac] at hbefore
    have habove' := hfollow b a (hbid ▸ hb) hbkind (haid ▸ ha) hakind hbefore
    rw [hw _ a ha, hw _ b hb, ← haid, ← hbid] at habove
    have hids := Db.notBelow_antisymm habove habove'
    rw [← haid, hids, hbid] at ha
    cases ha.symm.trans hb
    simp [precedes_irrefl] at hbefore

end

/-- A blob, and a score in the sorted sets of a queue, newly written for an identifier. -/
structure Placed (db db' : Db) (id : String) (new : Blob) (queue : String) (x : Option ℚ) :
    Prop where
  get : db'.get id = some new
  named : new.job.id = id
  score : ∀ key, db'.score key id =
    if key = .available ∨ key = .byQueue queue then x else db.score key id

/-- What a turn of a feeding operation does for one identifier: nothing; store a
job under the score of the library; or promote it under its priority. -/
inductive Wrote (codec : Codec) (db db' : Db) (id : String) : Operation → Prop
  | untouched {operation : Operation} (hget : db'.get id = db.get id)
      (hscore : ∀ key, db'.score key id = db.score key id)
      (hstored : ∀ job, operation.stores = some job → job.id = id → db.get id = none) :
      Wrote codec db db' id operation
  | stored {operation : Operation} {job : Job} {queue : String} (now : DateTime)
      (hop : operation.promotes = false) (hstores : operation.stores = some job)
      (hqueue : queue = job.queue ∨ ∃ old, db.get id = some old ∧ queue = old.job.queue)
      (hplaced : Placed db db' id (codec.serialize job) queue (newScore now job)) :
      Wrote codec db db' id operation
  | promoted {operation : Operation} {old new : Blob} (hop : operation.promotes = true)
      (hold : db.get id = some old) (hkind : old.job.state.kind ≠ .enqueued)
      (hnew : new.job.state.kind = .enqueued) (hqueue : new.job.queue = old.job.queue)
      (hplaced : Placed db db' id new old.job.queue (some new.job.priority)) :
      Wrote codec db db' id operation

section
variable {codec : Codec} {db db' : Db} {id : String} {job : Job} {tr : List (Step Db Turn)}
  {x : Step Db Turn}

theorem add_wrote {operation : Operation} {now : DateTime} (hop : operation = .enqueue job) :
    Wrote codec db (db.add (codec.serialize job) (newScore now job)) id operation := by
  subst hop
  have hjob := codec.serialize_job job
  by_cases hid : id = job.id
  · subst hid
    refine .stored now rfl rfl (.inl rfl) ⟨?_, by rw [hjob], fun key => ?_⟩
    · simp [Db.add, hjob]
    · simp [Db.add, hjob]
  · refine .untouched ?_ (fun key => ?_) fun j hj he => ?_
    · simp [Db.add, hjob, hid]
    · simp [Db.add, hjob, hid]
    · cases hj
      exact absurd he.symm hid

theorem update_wrote {operation : Operation} {now : DateTime} {reply : Reply} (hnamed : db.Named)
    (hop : operation = .update job)
    (h : updateScript codec db job (stateToString job.state) (newScore now job) = (reply, db')) :
    Wrote codec db db' id operation := by
  subst hop
  rcases updateScript_cases hnamed h with ⟨-, hnone, rfl⟩ | ⟨old, -, hold, rfl⟩
  · refine .untouched rfl (fun _ => rfl) fun j hj he => ?_
    cases hj
    exact he ▸ hnone
  · have hjob := codec.serialize_job job
    by_cases hid : id = job.id
    · subst hid
      refine .stored now rfl rfl (.inr ⟨old, hold, rfl⟩) ⟨?_, by rw [hjob], fun key => ?_⟩
      · simp
      · simp [score_rewrite]
    · refine .untouched ?_ (fun key => ?_) fun j hj he => ?_
      · simp [hid]
      · simp [score_rewrite, hid]
      · cases hj
        exact absurd he.symm hid

/-- Where a run of promotions leaves an identifier. -/
theorem promoted_at (id : String) {kind : JobStateKind} {t : DateTime} {claimed : List Blob}
    (hkind : kind ≠ .enqueued) (hnamed : db.Named) (h : Promoted codec kind t db claimed db') :
    (db'.get id = db.get id ∧ ∀ key, db'.score key id = db.score key id) ∨
    ∃ old new, db.get id = some old ∧ old.job.state.kind = kind ∧
      new.job.state.kind = .enqueued ∧ new.job.queue = old.job.queue ∧
      Placed db db' id new old.job.queue (some new.job.priority) := by
  induction h with
  | nil => exact .inl ⟨rfl, fun _ => rfl⟩
  | @cons db db' head old blobs hold hk rest ih =>
    obtain ⟨hid, hqueue, hstate⟩ := recode_enqueued codec t.truncMicros old.job
    obtain ⟨payload, timeout, hrecode⟩ := codec.recode_job
      { old.job with state := .enqueued t.truncMicros old.job.queue } rfl
    have hpriority : (codec.recode { old.job with
        state := .enqueued t.truncMicros old.job.queue }).job.priority = old.job.priority := by
      rw [hrecode]
    generalize codec.recode _ = new at hid hqueue hstate hpriority ih
    have hnew : new.job.state.kind = .enqueued := by
      rw [hstate]
      rfl
    have hnamed' := (rewrite_effect hnamed hold (hid.trans (hnamed _ _ hold)) hqueue
      (x := some old.job.priority) ⟨by simp, by simp [hnew, JobStateKind.waiting]⟩).named
    by_cases he : id = head
    · subst he
      rcases ih hnamed' with ⟨hget, hscore⟩ | ⟨again, _, hagain, hkagain, -⟩
      · refine .inr ⟨old, new, hold, hk, hnew, hqueue, ⟨?_, ?_, fun key => ?_⟩⟩
        · rw [hget]
          simp
        · exact hid.trans (hnamed _ _ hold)
        · rw [hscore, score_rewrite, hpriority]
          simp
      · simp only [get_rewrite, if_true] at hagain
        cases hagain
        exact absurd (hkagain.symm.trans hnew) hkind
    · have hget : (rewrite db head old new (some old.job.priority)).get id = db.get id := by
        simp [he]
      have hscore : ∀ key, (rewrite db head old new (some old.job.priority)).score key id =
          db.score key id := fun key => by simp [score_rewrite, he]
      rcases ih hnamed' with ⟨hget', hscore'⟩ | ⟨first, last, hfirst, hkf, hl, hq, hplaced⟩
      · exact .inl ⟨hget'.trans hget, fun key => (hscore' key).trans (hscore key)⟩
      · refine .inr ⟨first, last, hget ▸ hfirst, hkf, hl, hq, hplaced.get, hplaced.named,
          fun key => ?_⟩
        rw [hplaced.score, hscore]

theorem claim_wrote {operation : Operation} {kind : JobStateKind} {source variant field : String}
    {t : DateTime} {limit : UInt64} {order : List String} {claimed : List Blob}
    (hnamed : db.Named) (hop : operation.promotes = true) (htimed : Timed kind source variant field)
    (h : claimDueScript codec db source variant field t limit
      (db.smembers order (.state source)) = (claimed, db')) :
    Wrote codec db db' id operation := by
  obtain ⟨mid, heffect, hscore, hpromoted⟩ :=
    claimDueScript_cases hnamed htimed (smembers_nodup order _) h
  have hget : mid.get id = db.get id := (heffect.trims id (by simp)).get
  rcases promoted_at id htimed.ne_enqueued heffect.named hpromoted with
    ⟨hget', hscore'⟩ | ⟨old, new, hold, hkind, hnew, hqueue, hplaced⟩
  · refine .untouched (hget'.trans hget) (fun key => (hscore' key).trans (hscore key id)) ?_
    intro job hjob
    rw [Operation.stores_of_promotes hop] at hjob
    cases hjob
  · refine .promoted hop (hget ▸ hold) (hkind ▸ htimed.ne_enqueued) hnew hqueue
      ⟨hplaced.get, hplaced.named, fun key => ?_⟩
    rw [hplaced.score, hscore]

theorem updateScript_named {y : Option ℚ} {reply : Reply} (hnamed : db.Named)
    (h : updateScript codec db job (stateToString job.state) y = (reply, db')) : db'.Named := by
  rcases updateScript_cases hnamed h with ⟨-, -, rfl⟩ | ⟨old, -, hold, rfl⟩
  · exact hnamed
  · intro k b hb
    rw [get_rewrite] at hb
    split at hb
    · cases hb
      rw [codec.serialize_job, ‹k = job.id›]
    · exact hnamed k b hb

/-- What one turn of a feeding operation does to all identifiers. -/
theorem turn_wrote {turn : Turn} (hnamed : db.Named) (hfeeds : turn.operation.feeds = true)
    (h : db.turn codec turn = some db') :
    db'.Named ∧ ∀ id, Wrote codec db db' id turn.operation := by
  obtain ⟨⟨_, t⟩, halone, rfl⟩ := Option.map_eq_some_iff.mp h
  refine Prog.alone_sound (C := Alone codec)
    (Q := fun _ db' => db'.Named ∧ ∀ id, Wrote codec db db' id turn.operation)
    (fun moment s _ cmd r t hcmd => ⟨moment, Option.some.inj hcmd⟩) ?_ halone
  obtain ⟨operation, moments⟩ := turn
  cases operation with
  | enqueue job =>
    refine (Prog.wp_bind ..).mpr (wp_enqueue fun now => ?_)
    exact ⟨hnamed.add, fun id => add_wrote rfl⟩
  | update job =>
    refine (Prog.wp_bind ..).mpr (wp_update fun now reply db' hs _ => ?_)
    exact ⟨updateScript_named hnamed hs, fun id => update_wrote hnamed rfl hs⟩
  | claimDueScheduledJobs t limit =>
    have hzero : ∀ id, Wrote codec db db id (.claimDueScheduledJobs t limit) :=
      fun id => .untouched rfl (fun _ => rfl) fun _ hjob => by cases hjob
    refine (Prog.wp_bind ..).mpr (wp_claimDueJobsLua (fun _ => ⟨hnamed, hzero⟩) ?_)
    intro order claimed db' hs _
    exact ⟨(claimDueScript_effect hnamed .scheduled (smembers_nodup order _) hs).named,
      fun id => claim_wrote hnamed rfl .scheduled hs⟩
  | claimDueRetryJobs t limit =>
    have hzero : ∀ id, Wrote codec db db id (.claimDueRetryJobs t limit) :=
      fun id => .untouched rfl (fun _ => rfl) fun _ hjob => by cases hjob
    refine (Prog.wp_bind ..).mpr (wp_claimDueJobsLua (fun _ => ⟨hnamed, hzero⟩) ?_)
    intro order claimed db' hs _
    exact ⟨(claimDueScript_effect hnamed .awaitingRetry (smembers_nodup order _) hs).named,
      fun id => claim_wrote hnamed rfl .awaitingRetry hs⟩
  | _ => cases hfeeds

theorem lastPromoted_snoc : lastPromoted (tr ++ [x]) id =
    if promotedBy x id then true else if storedBy x id then false else lastPromoted tr id := by
  rw [lastPromoted, List.foldl_append]
  rfl

/-- An untouched job keeps its score. -/
theorem lastScore_untouched {blob : Blob} (hget : x.after.get id = x.before.get id)
    (hstored : ∀ job, x.label.operation.stores = some job → job.id = id → x.before.get id = none)
    (hblob : x.before.get id = some blob) (hid : blob.job.id = id) :
    lastScore (tr ++ [x]) blob.job = lastScore tr blob.job := by
  have hpromoted : promotedBy x id = false := by
    simp [promotedBy, Db.waits, hget]
  have hkept : storedBy x id = false := by
    refine Bool.eq_false_iff.mpr fun hany => ?_
    obtain ⟨job, hjob, he⟩ := (Option.any_eq_true _ _).mp hany
    exact absurd ((hstored job hjob (of_decide_eq_true he)).symm.trans hblob) (by simp)
  rw [lastScore, lastScore, hid, lastPromoted_snoc, hpromoted, hkept]
  simp

theorem lastScore_stored (hop : x.label.operation.promotes = false)
    (hstores : x.label.operation.stores = some job) :
    lastScore (tr ++ [x]) job = score job := by
  rw [lastScore, lastPromoted_snoc]
  simp [promotedBy, storedBy, hop, hstores]

theorem lastScore_promoted {old new : Blob} (hop : x.label.operation.promotes = true)
    (hold : x.before.get id = some old) (hkind : old.job.state.kind ≠ .enqueued)
    (hget : x.after.get id = some new) (hnew : new.job.state.kind = .enqueued)
    (hid : new.job.id = id) : lastScore (tr ++ [x]) new.job = new.job.priority := by
  rw [lastScore, hid, lastPromoted_snoc]
  simp [promotedBy, hop, Db.waits, hold, hget, Blob.isIn, hkind, hnew]

theorem newScore_enqueued {now : DateTime} (h : job.state.kind = .enqueued) :
    newScore now job = some (score job) := by
  unfold newScore isJobAvailable
  cases hs : job.state <;> simp_all [JobState.kind]

/-- The global sorted set holds each `Enqueued` job at its last score. -/
structure Scored (tr : List (Step Db Turn)) (db : Db) : Prop where
  named : db.Named
  available : ∀ id blob, db.get id = some blob → blob.job.state.kind = .enqueued →
    db.score .available id = some (lastScore tr blob.job)

/-- Each queue's sorted set holds its own jobs only, the `Enqueued` ones at
their last score. -/
structure Parted (tr : List (Step Db Turn)) (db : Db) : Prop where
  byQueue : ∀ id blob, db.get id = some blob → blob.job.state.kind = .enqueued →
    db.score (.byQueue blob.job.queue) id = some (lastScore tr blob.job)
  home : ∀ id queue, (db.score (.byQueue queue) id).isSome →
    ∃ blob, db.get id = some blob ∧ blob.job.queue = queue

theorem Scored.turn (h : Scored tr x.before) (hfeeds : x.label.operation.feeds = true)
    (hturn : x.before.turn codec x.label = some x.after) : Scored (tr ++ [x]) x.after := by
  obtain ⟨hnamed, hwrote⟩ := turn_wrote h.named hfeeds hturn
  refine ⟨hnamed, fun id blob hget hkind => ?_⟩
  cases hwrote id with
  | untouched hsame hscore hstored =>
    rw [hsame] at hget
    rw [hscore, lastScore_untouched hsame hstored hget (h.named _ _ hget)]
    exact h.available id blob hget hkind
  | stored now hop hstores hqueue hplaced =>
    cases hplaced.get.symm.trans hget
    rw [codec.serialize_job] at hkind ⊢
    rw [hplaced.score, lastScore_stored hop hstores, newScore_enqueued hkind]
    simp
  | promoted hop hold hold' hnew hqueue hplaced =>
    cases hplaced.get.symm.trans hget
    rw [hplaced.score, lastScore_promoted hop hold hold' hplaced.get hnew hplaced.named]
    simp

theorem Parted.turn (h : Parted tr x.before) (hnamed : x.before.Named)
    (hfeeds : x.label.operation.feeds = true)
    (hkeeps : x.label.operation.keepsQueue x.before = true)
    (hturn : x.before.turn codec x.label = some x.after) : Parted (tr ++ [x]) x.after := by
  have hwrote := (turn_wrote hnamed hfeeds hturn).2
  -- A job that is stored again is stored for the queue it was in.
  have hstable : ∀ {id job queue}, x.label.operation.stores = some job → job.id = id →
      (queue = job.queue ∨ ∃ old, x.before.get id = some old ∧ queue = old.job.queue) →
      queue = job.queue := by
    rintro id job queue hstores rfl (hq | ⟨old, hold, hq⟩)
    · exact hq
    · simp only [Operation.keepsQueue, hstores, hold, Option.all_some, decide_eq_true_eq] at hkeeps
      exact hq.trans hkeeps
  constructor
  · intro id blob hget hkind
    cases hwrote id with
    | untouched hsame hscore hstored =>
      rw [hsame] at hget
      rw [hscore, lastScore_untouched hsame hstored hget (hnamed _ _ hget)]
      exact h.byQueue id blob hget hkind
    | stored now hop hstores hqueue hplaced =>
      cases hplaced.get.symm.trans hget
      have hid := hplaced.named
      rw [codec.serialize_job] at hkind hid ⊢
      rw [hplaced.score, hstable hstores hid hqueue, lastScore_stored hop hstores,
        newScore_enqueued hkind]
      simp
    | promoted hop hold hold' hnew hqueue hplaced =>
      cases hplaced.get.symm.trans hget
      rw [hplaced.score, lastScore_promoted hop hold hold' hplaced.get hnew hplaced.named, hqueue]
      simp
  · intro id queue hsome
    cases hwrote id with
    | untouched hsame hscore hstored =>
      rw [hscore] at hsome
      rw [hsame]
      exact h.home id queue hsome
    | @stored job q now hop hstores hqueue hplaced =>
      have hid := hplaced.named
      rw [codec.serialize_job] at hid
      have hq := hstable hstores hid hqueue
      refine ⟨_, hplaced.get, ?_⟩
      rw [codec.serialize_job]
      by_cases he : queue = q
      · exact (he.trans hq).symm
      · rw [hplaced.score] at hsome
        simp only [reduceCtorEq, ZKey.byQueue.injEq, he, or_self, if_false] at hsome
        obtain ⟨old, hold, hoq⟩ := h.home id queue hsome
        exact (hstable hstores hid (.inr ⟨old, hold, rfl⟩)).symm.trans hoq
    | @promoted old new hop hold hold' hnew hqueue hplaced =>
      refine ⟨_, hplaced.get, hqueue.trans ?_⟩
      by_cases he : queue = old.job.queue
      · exact he.symm
      · rw [hplaced.score] at hsome
        simp only [reduceCtorEq, ZKey.byQueue.injEq, he, or_self, if_false] at hsome
        obtain ⟨old', hold'', hoq⟩ := h.home id queue hsome
        cases hold.symm.trans hold''
        exact hoq

theorem scored_run (hr : Db.Turns codec tr db)
    (hfeeds : ∀ x ∈ tr, x.label.operation.feeds = true) : Scored tr db := by
  refine hr.invariant (fun tr db => (∀ x ∈ tr, x.label.operation.feeds = true) → Scored tr db)
    (fun _ => ⟨fun _ _ h => (by cases h), fun _ _ h => (by cases h)⟩) ?_ hfeeds
  intro tr db turn db' _ ih hturn hall
  rw [List.forall_mem_append, List.forall_mem_singleton] at hall
  exact (ih hall.1).turn (x := ⟨db, turn, db'⟩) hall.2 hturn

theorem parted_run (hr : Db.Turns codec tr db)
    (hfeeds : ∀ x ∈ tr, x.label.operation.feeds = true)
    (hkeeps : ∀ x ∈ tr, x.label.operation.keepsQueue x.before = true) : Parted tr db := by
  refine hr.invariant (fun tr db => (∀ x ∈ tr, x.label.operation.feeds = true) →
    (∀ x ∈ tr, x.label.operation.keepsQueue x.before = true) → Parted tr db)
    (fun _ _ => ⟨fun _ _ h => (by cases h), fun _ _ h => absurd h (by simp)⟩) ?_ hfeeds hkeeps
  intro tr db turn db' hr ih hturn hall hkeep
  rw [List.forall_mem_append, List.forall_mem_singleton] at hall hkeep
  exact (ih hall.1 hkeep.1).turn (x := ⟨db, turn, db'⟩) (scored_run hr hall.1).named hall.2
    hkeep.2 hturn

/-- The score of a stored job after a run. -/
def runScore (tr : List (Step Db Turn)) (db : Db) (id : String) : ℚ :=
  ((db.get id).map fun blob => lastScore tr blob.job).getD 0

theorem Scored.lined (h : Scored tr db) :
    Lined db [.available] .available (runScore tr db) where
  named := h.named
  mem := List.mem_singleton_self _
  scored id hid := by
    obtain ⟨blob, hget, hkind⟩ := Db.waits_iff.mp hid
    rw [h.available id blob hget hkind, runScore, hget]
    rfl
  only _ _ _ hkey hne := absurd (List.mem_singleton.mp hkey) hne
  home _ _ _ hkey _ _ := .inl (List.mem_singleton.mp hkey)

theorem Parted.lined (h : Parted tr db) (hnamed : db.Named) {queue : String} {names : List String}
    (hone : ∀ id blob, db.get id = some blob → blob.job.state.kind = .enqueued →
      blob.job.queue = queue) (hmem : queue ∈ names) :
    Lined db (names.map .byQueue) (.byQueue queue) (runScore tr db) where
  named := hnamed
  mem := List.mem_map_of_mem hmem
  scored id hid := by
    obtain ⟨blob, hget, hkind⟩ := Db.waits_iff.mp hid
    rw [← hone id blob hget hkind, h.byQueue id blob hget hkind, runScore, hget]
    rfl
  only id key hid hkey hne := by
    obtain ⟨blob, hget, hkind⟩ := Db.waits_iff.mp hid
    obtain ⟨name, -, rfl⟩ := List.mem_map.mp hkey
    refine Option.not_isSome_iff_eq_none.mp fun hsome => hne ?_
    obtain ⟨blob', hget', rfl⟩ := h.home id name hsome
    cases hget.symm.trans hget'
    rw [hone id blob hget hkind]
  home id blob key hkey hget hsome := by
    obtain ⟨name, -, rfl⟩ := List.mem_map.mp hkey
    obtain ⟨blob', hget', rfl⟩ := h.home id name hsome
    cases hget.symm.trans hget'
    exact .inr rfl

/-- After any run that leaves its `Enqueued` jobs in one queue, fetches without
a filter, or with a filter that names the queue, hand the jobs out in dispatch
order exactly when their scores, as last written, are in dispatch order. -/
theorem dispatch_order_iff {queues : Option (List String)} {queue : String}
    (hr : Db.Turns codec tr db) (hfeeds : ∀ x ∈ tr, x.label.operation.feeds = true)
    (hone : ∀ id blob, db.get id = some blob → blob.job.state.kind = .enqueued →
      blob.job.queue = queue)
    (hqueues : candidateKeys queues = [.available] ∨
      (∃ names, queues = some names ∧ queue ∈ names) ∧
        ∀ x ∈ tr, x.label.operation.keepsQueue x.before = true) :
    DispatchesInOrder codec db queues ↔ ScoresFollowOrder tr db := by
  have hscored := scored_run hr hfeeds
  have hw : ∀ id blob, db.get id = some blob → runScore tr db id = lastScore tr blob.job := by
    intro id blob hget
    rw [runScore, hget]
    rfl
  rcases hqueues with hall | ⟨⟨names, rfl, hmem⟩, hkeeps⟩
  · exact order_iff (z := .available) (hall ▸ hscored.lined) hw
  · have hkeys : candidateKeys (some names) = names.map .byQueue := by
      cases names with
      | nil => cases hmem
      | cons => rfl
    refine order_iff (z := .byQueue queue) ?_ hw
    rw [hkeys]
    exact (parted_run hr hfeeds hkeeps).lined hscored.named hone hmem

end

/-- Two jobs of one priority, one created a second after the other. -/
def twoEqual : List Turn :=
  let noon : DateTime := 1767268800000000000
  [.at noon (.enqueue (.new "a" noon "send_email" .null)),
    .at noon (.enqueue (.new "b" (noon + Duration.seconds 1) "send_email" .null))]

/-- Whether the `Enqueued` jobs are all in the given queue. -/
def Db.gathered (db : Db) (queue : String) : Bool :=
  db.jobs.values.all fun blob => !Blob.isIn .enqueued blob || decide (blob.job.queue = queue)

theorem Db.gathered_iff {db : Db} {queue : String} (h : db.gathered queue = true) :
    ∀ id blob, db.get id = some blob → blob.job.state.kind = .enqueued →
      blob.job.queue = queue := by
  intro id blob hget hkind
  have hmem : blob ∈ db.jobs.values := Dict.mem_values.mpr ⟨id, hget⟩
  simpa [Blob.isIn, hkind] using List.all_eq_true.mp h blob hmem

/-- The database after the two jobs were enqueued. -/
theorem twoEqual_run (P : Db → Bool)
    (h : ∃ x ∈ replay (Db.turn .lossless) .empty twoEqual, x.after.gathered "default" = true ∧
      P x.after = true) :
    ∃ tr db, Db.Turns .lossless tr db ∧ (∀ x ∈ tr, x ∈ replay (Db.turn .lossless) .empty twoEqual) ∧
      (∀ id blob, db.get id = some blob → blob.job.state.kind = .enqueued →
        blob.job.queue = "default") ∧ P db = true := by
  obtain ⟨db, hr⟩ := replay_run (Db.turn .lossless) .empty twoEqual
  obtain ⟨x, hx, hgathered, hP⟩ := h
  obtain ⟨pre, hsub, hpre, hnext⟩ := hr.of_mem hx
  refine ⟨_, _, hpre.snoc hnext, fun y hy => ?_, Db.gathered_iff hgathered, hP⟩
  rcases List.mem_append.mp hy with hy | hy
  · exact hsub y hy
  · exact List.mem_singleton.mp hy ▸ hx

theorem dispatch_order_iff_twoEqual : ∃ tr db, Db.Turns .lossless tr db ∧ db.waits "b" = true ∧
    (DispatchesInOrder .lossless db (some ["default"]) ↔ ScoresFollowOrder tr db) := by
  obtain ⟨tr, db, hr, hsub, hone, hwaits⟩ := twoEqual_run (·.waits "b") (by decide +kernel)
  have hfeeds : ∀ x ∈ replay (Db.turn .lossless) .empty twoEqual,
      x.label.operation.feeds = true := by decide +kernel
  have hkeeps : ∀ x ∈ replay (Db.turn .lossless) .empty twoEqual,
      x.label.operation.keepsQueue x.before = true := by decide +kernel
  exact ⟨tr, db, hr, hwaits, dispatch_order_iff hr (fun x hx => hfeeds x (hsub x hx)) hone
    (.inr ⟨⟨_, rfl, List.mem_singleton_self _⟩, fun x hx => hkeeps x (hsub x hx)⟩)⟩

/-- The newer of the two has the higher score, and is handed out first. -/
theorem newer_dispatched_first : ∃ tr db, Db.Turns .lossless tr db ∧
    (∀ x ∈ tr, x.label.operation.feeds = true) ∧
    (∀ id blob, db.get id = some blob → blob.job.state.kind = .enqueued →
      blob.job.queue = "default") ∧
    ¬ DispatchesInOrder .lossless db none := by
  let noon : DateTime := 1767268800000000000
  let fetches : List (String × DateTime) := [("w", noon), ("w", noon)]
  obtain ⟨tr, db, hr, hsub, hone, hdrained⟩ := twoEqual_run (fun db => !decide
    (((drain .lossless (candidateKeys none) fetches db).filter fun job => db.waits job.id).Pairwise
      Job.notAfter)) (by decide +kernel)
  have hfeeds : ∀ x ∈ replay (Db.turn .lossless) .empty twoEqual,
      x.label.operation.feeds = true := by decide +kernel
  refine ⟨tr, db, hr, fun x hx => hfeeds x (hsub x hx), hone, fun h => ?_⟩
  simp only [Bool.not_eq_true', decide_eq_false_iff_not] at hdrained
  exact hdrained (h.sorted fetches)

end Qml
