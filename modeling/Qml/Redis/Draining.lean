import Mathlib.Algebra.Order.BigOperators.Group.List
import Qml.Redis.Effects

namespace Qml
open Lib

namespace Db
variable {db db' : Db} {id id' : String} {key : ZKey} {x y : ℚ}

/-- A stored job that is `Enqueued`. -/
def waits (db : Db) (id : String) : Bool := (db.get id).any (Blob.isIn .enqueued)

theorem waits_iff : db.waits id = true ↔
    ∃ blob, db.get id = some blob ∧ blob.job.state.kind = .enqueued := by
  simp [waits, Option.any_eq_true, Blob.isIn]

theorem score_of_top (h : db.top key = some (id, x)) : db.score key id = some x :=
  Dict.get?_iff.mpr (mem_of_first h)

/-- Nothing in a sorted set stands above its top. -/
theorem top_notBelow (h : db.top key = some (id, x)) (hy : db.score key id' = some y) :
    notBelow (id, x) (id', y) :=
  first_le h (Dict.get?_iff.mp hy)

theorem score_of_top_none (h : db.top key = none) : db.score key id = none := by
  have hempty : (db.zsets key).entries = [] := first_eq_none.mp h
  rw [score, Dict.get?, hempty]
  rfl

theorem notBelow_antisymm (h : notBelow (id, x) (id', y)) (h' : notBelow (id', y) (id, x)) :
    id = id' := by
  rcases h with h | ⟨hx, hid⟩
  · rcases h' with h' | ⟨hx', -⟩
    · exact absurd h' (lt_asymm h)
    · exact absurd hx' (ne_of_lt h)
  · rcases h' with h' | ⟨-, hid'⟩
    · exact absurd hx (ne_of_lt h')
    · exact le_antisymm hid' hid

/-- Taking one identifier out of a sorted set. -/
theorem size_zset (h : ∀ k, db'.score key k = if k = id then none else db.score key k) :
    (db'.zsets key).size + (if (db.score key id).isSome then 1 else 0) = (db.zsets key).size := by
  have hsame : ∀ k, (db'.zsets key).contains k = ((db.zsets key).erase id).contains k := by
    intro k
    rw [Dict.contains, Dict.contains, Dict.get?_erase]
    exact congrArg Option.isSome (h k)
  rw [Dict.size_congr hsame]
  exact Dict.size_erase (db.zsets key) id

end Db

namespace RedisStorage
variable {codec : Codec} {db db' : Db} {candidates : List ZKey} {z : ZKey} {w : String → ℚ}
  {id : String} {x : ℚ} {workerId : String} {t : DateTime} {reply : Option Blob}

theorem best_mem {found : Option (String × ℚ)} (h : best db candidates found = some (id, x)) :
    found = some (id, x) ∨ ∃ key ∈ candidates, db.top key = some (id, x) := by
  induction candidates generalizing found with
  | nil => exact .inl h
  | cons key keys ih =>
    have hstep : ∀ found', best db keys found' = some (id, x) →
        found' = db.top key ∨ found' = found →
        found = some (id, x) ∨ ∃ key' ∈ key :: keys, db.top key' = some (id, x) := by
      intro found' hbest hor
      rcases ih hbest with hf | ⟨key', hmem, htop⟩
      · rcases hor with hor | hor
        · exact .inr ⟨key, List.mem_cons_self, hor.symm.trans hf⟩
        · exact .inl (hor.symm.trans hf)
      · exact .inr ⟨key', List.mem_cons_of_mem _ hmem, htop⟩
    unfold best at h
    split at h
    · rename_i htop
      split at h
      · exact hstep _ h (.inl htop.symm)
      · exact hstep _ h (.inr rfl)
    · rename_i htop
      exact hstep _ h (.inl htop.symm)
    · exact hstep _ h (.inr rfl)

theorem best_isSome {found : Option (String × ℚ)}
    (h : found.isSome ∨ ∃ key ∈ candidates, (db.top key).isSome) :
    (best db candidates found).isSome := by
  induction candidates generalizing found with
  | nil => simpa [best] using h
  | cons key keys ih =>
    unfold best
    split
    · split <;> exact ih (.inl rfl)
    · exact ih (.inl rfl)
    · rename_i htop
      refine ih ?_
      rcases h with h | ⟨key', hmem, hsome⟩
      · exact .inl h
      · rcases List.mem_cons.mp hmem with rfl | hmem
        · simp [htop] at hsome
        · exact .inr ⟨key', hmem, hsome⟩

/-- The `Enqueued` jobs stand in one of the candidate sets, at the scores `w`,
and every candidate set is one that a claim takes its job out of. -/
structure Lined (db : Db) (candidates : List ZKey) (z : ZKey) (w : String → ℚ) : Prop where
  named : db.Named
  mem : z ∈ candidates
  scored : ∀ id, db.waits id = true → db.score z id = some (w id)
  only : ∀ id key, db.waits id = true → key ∈ candidates → key ≠ z → db.score key id = none
  home : ∀ id blob key, key ∈ candidates → db.get id = some blob → (db.score key id).isSome →
    key = .available ∨ key = .byQueue blob.job.queue

/-- The jobs that the given fetches claim, one after the other: each is a worker
and the instant of its call. -/
def drain (codec : Codec) (candidates : List ZKey) : List (String × DateTime) → Db → List Job
  | [], _ => []
  | (workerId, t) :: fetches, db =>
    match fetchScript codec db workerId t candidates with
    | (some blob, db) => blob.job :: drain codec candidates fetches db
    | (none, db) => drain codec candidates fetches db

/-- How many entries the candidate sets have. -/
def load (db : Db) (candidates : List ZKey) : Nat :=
  (candidates.map fun key => (db.zsets key).size).sum

/-- What a fetch leaves of the sorted sets, whichever entry it takes out. -/
structure Takes (db db' : Db) (candidates : List ZKey) (id : String) : Prop where
  entry : ∃ key ∈ candidates, (db.score key id).isSome
  score : ∀ key ∈ candidates, ∀ k, db'.score key k = db.score key k ∨
    k = id ∧ db'.score key k = none
  gone : ∀ key ∈ candidates, db'.score key id = none

theorem Takes.load_lt (h : Takes db db' candidates id) :
    load db' candidates < load db candidates := by
  have hsize : ∀ key ∈ candidates, (db'.zsets key).size +
      (if (db.score key id).isSome then 1 else 0) = (db.zsets key).size := by
    intro key hkey
    refine Db.size_zset fun k => ?_
    by_cases hk : k = id
    · rw [if_pos hk, hk, h.gone key hkey]
    · rcases h.score key hkey k with hs | ⟨hs, -⟩
      · rw [if_neg hk, hs]
      · exact absurd hs hk
  refine List.sum_lt_sum _ _ (fun key hkey => ?_) ?_
  · have := hsize key hkey
    omega
  · obtain ⟨key, hkey, hsome⟩ := h.entry
    have := hsize key hkey
    rw [if_pos hsome] at this
    exact ⟨key, hkey, by omega⟩

/-- How a fetch can end: no `Enqueued` job is left; an entry that does not name
one is dropped; or a job is claimed, no `Enqueued` one after another that stands
above it. -/
inductive Fetched (db db' : Db) (candidates : List ZKey) (w : String → ℚ) : Option Blob → Prop
  | empty (hsame : db' = db) (hnone : ∀ id, db.waits id = false) : Fetched db db' candidates w none
  | stale {id : String} (htakes : Takes db db' candidates id) (hwaits : db.waits id = false)
      (hget : ∀ k, db'.get k = db.get k) : Fetched db db' candidates w none
  | claimed {id : String} {old new : Blob} (htakes : Takes db db' candidates id)
      (hold : db.get id = some old)
      (hkind : old.job.state.kind = .enqueued ∨ old.job.state.kind = .awaitingRetry)
      (hget : ∀ k, db'.get k = if k = id then some new else db.get k)
      (hnew : new.job.state.kind = .processing) (hid : new.job.id = id)
      (hqueue : new.job.queue = old.job.queue) (hpriority : new.job.priority = old.job.priority)
      (hcreated : new.job.createdAt = old.job.createdAt)
      (hfirst : db.waits id = true → ∀ k, db.waits k = true → Db.notBelow (id, w id) (k, w k)) :
      Fetched db db' candidates w (some new)

theorem Lined.fetched (h : Lined db candidates z w)
    (hf : fetchScript codec db workerId t candidates = (reply, db')) :
    Fetched db db' candidates w reply := by
  rcases fetchScript_cases hf with ⟨rfl, rfl, hbest⟩ | ⟨id, x, rfl, hbest, hstale, rfl⟩ |
    ⟨id, x, old, hbest, hold, hkind, rfl, rfl⟩
  · refine .empty rfl fun id => Bool.eq_false_iff.mpr fun hwaits => ?_
    have hsome : (best db' candidates none).isSome := by
      refine best_isSome (.inr ⟨z, h.mem, Option.ne_none_iff_isSome.mp fun hnone => ?_⟩)
      exact absurd ((Db.score_of_top_none hnone).symm.trans (h.scored id hwaits)) (by simp)
    simp [hbest] at hsome
  · obtain ⟨key, hkey, htop⟩ := (best_mem hbest).resolve_left (by simp)
    have htakes : Takes db (dropStale db candidates id) candidates id := by
      refine ⟨⟨key, hkey, ?_⟩, fun key' _ k => ?_, fun key' hkey' => ?_⟩
      · rw [Db.score_of_top htop]
        rfl
      · rw [score_dropStale]
        split
        · rename_i hk
          exact .inr ⟨hk.1, rfl⟩
        · exact .inl rfl
      · rw [score_dropStale, if_pos ⟨rfl, .inl hkey'⟩]
    refine .stale htakes (Bool.eq_false_iff.mpr fun hwaits => ?_) fun k => get_dropStale ..
    obtain ⟨blob, hblob, hk⟩ := Db.waits_iff.mp hwaits
    exact (hstale blob hblob).1 hk
  · obtain ⟨key, hkey, htop⟩ := (best_mem hbest).resolve_left (by simp)
    have hscore := Db.score_of_top htop
    obtain ⟨hid, hqueue, hstate⟩ := recode_processing codec t.truncMicros workerId
      "redis-storage" old.job
    obtain ⟨payload, timeout, hrecode⟩ := codec.recode_job
      { old.job with state := .processing t.truncMicros workerId "redis-storage" } rfl
    generalize codec.recode _ = new at hid hqueue hstate hrecode
    have htakes : Takes db (rewrite db id old new none) candidates id := by
      refine ⟨⟨key, hkey, ?_⟩, fun key' _ k => ?_, fun key' hkey' => ?_⟩
      · rw [hscore]
        rfl
      · rw [score_rewrite]
        split
        · rename_i hk
          exact .inr ⟨hk.2, rfl⟩
        · exact .inl rfl
      · rw [score_rewrite]
        split
        · rfl
        · rename_i hout
          refine Option.not_isSome_iff_eq_none.mp fun hsome => hout ⟨?_, rfl⟩
          exact h.home id old key' hkey' hold hsome
    refine .claimed htakes hold hkind (fun k => get_rewrite) (by rw [hstate]; rfl)
      (hid.trans (h.named id old hold)) hqueue (by rw [hrecode]) (by rw [hrecode])
      fun hwaits k hk => ?_
    by_cases hz : key = z
    · subst hz
      cases (h.scored id hwaits).symm.trans hscore
      exact Db.top_notBelow htop (h.scored k hk)
    · simp [h.only id key hwaits hkey hz] at hscore

theorem Lined.taken (h : Lined db candidates z w) (htakes : Takes db db' candidates id)
    (hnamed : db'.Named)
    (hwaits : ∀ k, db'.waits k = true → db.waits k = true ∧ k ≠ id)
    (hqueue : ∀ k new, db'.get k = some new →
      ∃ old, db.get k = some old ∧ new.job.queue = old.job.queue) :
    Lined db' candidates z w where
  named := hnamed
  mem := h.mem
  scored k hk := by
    obtain ⟨hold, hne⟩ := hwaits k hk
    rcases htakes.score z h.mem k with hs | ⟨hid, -⟩
    · exact hs.trans (h.scored k hold)
    · exact absurd hid hne
  only k key hk hkey hz := by
    rcases htakes.score key hkey k with hs | ⟨-, hs⟩
    · exact hs.trans (h.only k key (hwaits k hk).1 hkey hz)
    · exact hs
  home k new key hkey hk hsome := by
    obtain ⟨old, hold, hq⟩ := hqueue k new hk
    rcases htakes.score key hkey k with hs | ⟨-, hs⟩
    · rw [hs] at hsome
      rw [hq]
      exact h.home k old key hkey hold hsome
    · simp [hs] at hsome

/-- The candidate sets stay lined up while fetches empty them. -/
theorem Lined.next (h : Lined db candidates z w)
    (hf : fetchScript codec db workerId t candidates = (reply, db')) :
    Lined db' candidates z w := by
  have hnamed := (fetchScript_effect h.named hf).named
  cases h.fetched hf with
  | empty hsame => exact hsame ▸ h
  | stale htakes hwaits hget =>
    refine h.taken htakes hnamed (fun k hk => ?_) fun k new hk => ⟨new, hget k ▸ hk, rfl⟩
    rw [Db.waits, hget] at hk
    refine ⟨hk, fun he => ?_⟩
    subst he
    exact absurd hk (by simpa [Db.waits] using hwaits)
  | @claimed id old new htakes hold hkind hget hnew hid hqueue =>
    refine h.taken htakes hnamed (fun k hk => ?_) fun k blob hk => ?_
    · rw [Db.waits, hget] at hk
      by_cases he : k = id
      · simp [he, Blob.isIn, hnew] at hk
      · rw [if_neg he] at hk
        exact ⟨hk, he⟩
    · rw [hget] at hk
      split at hk
      · cases hk
        exact ⟨old, ‹k = id› ▸ hold, hqueue⟩
      · exact ⟨blob, hk, rfl⟩

/-- What the jobs handed out from a database are: jobs that waited in it, the
`Enqueued` ones among them from the top of their set down. -/
structure Drained (db : Db) (w : String → ℚ) (jobs : List Job) : Prop where
  mem : ∀ job ∈ jobs, ∃ old, db.get job.id = some old ∧
    (old.job.state.kind = .enqueued ∨ old.job.state.kind = .awaitingRetry) ∧
    job.priority = old.job.priority ∧ job.createdAt = old.job.createdAt
  sorted : (jobs.filter fun job => db.waits job.id).Pairwise fun a b =>
    Db.notBelow (a.id, w a.id) (b.id, w b.id)

theorem Drained.of_get {jobs : List Job} (h : Drained db' w jobs)
    (hget : ∀ k, db'.get k = db.get k) : Drained db w jobs := by
  have hwaits : ∀ k, db'.waits k = db.waits k := fun k => by rw [Db.waits, Db.waits, hget]
  refine ⟨fun job hjob => ?_, ?_⟩
  · simpa only [hget] using h.mem job hjob
  · simpa only [hwaits] using h.sorted

/-- A claim before what the later fetches hand out: the claimed job is not handed
out again, and nothing `Enqueued` stands above it. -/
theorem Drained.cons {jobs : List Job} {old new : Blob} (h : Drained db' w jobs)
    (hold : db.get id = some old)
    (hkind : old.job.state.kind = .enqueued ∨ old.job.state.kind = .awaitingRetry)
    (hget : ∀ k, db'.get k = if k = id then some new else db.get k)
    (hnew : new.job.state.kind = .processing) (hid : new.job.id = id)
    (hpriority : new.job.priority = old.job.priority)
    (hcreated : new.job.createdAt = old.job.createdAt)
    (hfirst : db.waits id = true → ∀ k, db.waits k = true → Db.notBelow (id, w id) (k, w k)) :
    Drained db w (new.job :: jobs) := by
  have hother : ∀ job ∈ jobs, job.id ≠ id := by
    intro job hjob he
    obtain ⟨blob, hblob, hk, -⟩ := h.mem job hjob
    rw [hget, if_pos he] at hblob
    cases hblob
    rcases hk with hk | hk <;> simp [hnew] at hk
  have hsame : ∀ job ∈ jobs, db'.get job.id = db.get job.id := fun job hjob => by
    rw [hget, if_neg (hother job hjob)]
  have hfilter : (jobs.filter fun job => db.waits job.id) =
      jobs.filter fun job => db'.waits job.id :=
    List.filter_congr fun job hjob => by rw [Db.waits, Db.waits, hsame job hjob]
  refine ⟨fun job hjob => ?_, ?_⟩
  · rcases List.mem_cons.mp hjob with rfl | hjob
    · exact ⟨old, hid ▸ hold, hkind, hpriority, hcreated⟩
    · rw [← hsame job hjob]
      exact h.mem job hjob
  · rw [List.filter_cons, hid]
    split
    · rename_i hwaits
      refine List.pairwise_cons.mpr ⟨fun b hb => ?_, hfilter ▸ h.sorted⟩
      rw [hid]
      exact hfirst hwaits b.id (List.mem_filter.mp hb).2
    · exact hfilter ▸ h.sorted

theorem Lined.drained (h : Lined db candidates z w) (fetches : List (String × DateTime)) :
    Drained db w (drain codec candidates fetches db) := by
  induction fetches generalizing db with
  | nil => exact ⟨by simp [drain], by simp [drain]⟩
  | cons fetch fetches ih =>
    obtain ⟨workerId, t⟩ := fetch
    rw [drain]
    generalize hf : fetchScript codec db workerId t candidates = result
    obtain ⟨reply, db'⟩ := result
    have hrest := ih (h.next hf)
    cases h.fetched hf with
    | empty hsame => exact hsame ▸ hrest
    | stale _ _ hget => exact hrest.of_get hget
    | claimed _ hold hkind hget hnew hid _ hpriority hcreated hfirst =>
      exact hrest.cons hold hkind hget hnew hid hpriority hcreated hfirst

/-- Enough fetches hand out every `Enqueued` job. -/
theorem Lined.drained_all (h : Lined db candidates z w) {fetches : List (String × DateTime)}
    (hload : load db candidates ≤ fetches.length) (hwaits : db.waits id = true) :
    ∃ job ∈ drain codec candidates fetches db, job.id = id := by
  induction fetches generalizing db with
  | nil =>
    have hsize : (db.zsets z).size = 0 := by
      have := List.single_le_sum (fun n _ => Nat.zero_le n) _
        (List.mem_map_of_mem (f := fun key => (db.zsets key).size) h.mem)
      exact Nat.le_zero.mp (this.trans hload)
    have hempty : (db.zsets z).entries = [] := List.length_eq_zero_iff.mp hsize
    have hscored := h.scored id hwaits
    simp [Db.score, Dict.get?, hempty] at hscored
  | cons fetch fetches ih =>
    obtain ⟨workerId, t⟩ := fetch
    rw [drain]
    generalize hf : fetchScript codec db workerId t candidates = result
    obtain ⟨reply, db'⟩ := result
    have hnext := h.next hf
    rw [List.length_cons] at hload
    cases h.fetched hf with
    | empty _ hnone => simp [hnone id] at hwaits
    | stale htakes _ hget =>
      have hlt := htakes.load_lt
      exact ih hnext (by omega) (by rwa [Db.waits, hget])
    | @claimed first old new htakes hold hkind hget hnew hid =>
      have hlt := htakes.load_lt
      by_cases he : id = first
      · exact ⟨new.job, List.mem_cons_self, hid.trans he.symm⟩
      · obtain ⟨job, hjob, hjid⟩ := ih hnext (by omega) (by rwa [Db.waits, hget, if_neg he])
        exact ⟨job, List.mem_cons_of_mem _ hjob, hjid⟩

end RedisStorage
end Qml
