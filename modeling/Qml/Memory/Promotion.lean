import Qml.Lib.Ranking
import Qml.Memory.Effects

namespace Qml
open Lib

/-- The time that a job in one of the two timed states waits for. -/
def JobState.dueTime : JobStateKind → JobState → Option DateTime
  | .scheduled, .scheduled _ enqueueAt _ => some enqueueAt
  | .awaitingRetry, .awaitingRetry _ retryAt _ => some retryAt
  | _, _ => none

/-- The job as a promotion stores and returns it. -/
def Job.promoted (t : DateTime) (job : Job) : Job := { job with state := .enqueued t job.queue }

/-- What dispatch orders the jobs by. -/
def Job.rank (job : Job) : Int × DateTime := (job.priority, job.createdAt)

@[simp] theorem Job.promoted_id (t : DateTime) (job : Job) : (job.promoted t).id = job.id := rfl

namespace MemoryStorage

/-- The stored jobs of a timed state whose time has come. -/
structure Due (s : MemoryStorage) (kind : JobStateKind) (now : DateTime) (job : Job) :
    Prop where
  stored : s.jobs.get? job.id = some job
  time : ∃ t, job.state.dueTime kind = some t ∧ t ≤ now

/-- The given jobs are enqueued, each in its own queue, and nothing else has changed. -/
structure Promotes (s s' : MemoryStorage) (stamp : String → DateTime) (due : List Job) :
    Prop where
  jobs : ∀ job ∈ due, s'.jobs.get? job.id = some (job.promoted (stamp job.id))
  otherJobs : ∀ id, id ∉ due.map Job.id → s'.jobs.get? id = s.jobs.get? id
  locks : ∀ id, s'.locks.get? id = s.locks.get? id
  servers : ∀ id, s'.servers.get? id = s.servers.get? id
  namedLocks : ∀ resource, s'.namedLocks.get? resource = s.namedLocks.get? resource
  maxJobs : s'.maxJobs = s.maxJobs

/-- Successive calls of one claim, each with its limit and with what it reads from
outside the storage. -/
def repeated (claim : Nat → Section (Except StorageError (List Job))) :
    List (Nat × Reading) → MemoryStorage → Option (List (List Job) × MemoryStorage)
  | [], s => some ([], s)
  | (limit, env) :: calls, s => do
    let (.ok claimed, s) ← (claim limit).perform env s | none
    let (replies, s) ← repeated claim calls s
    return (claimed :: replies, s)

/-- A claim returns what the read-only method would have returned, and promotes just that;
called again and again it hands out every due job once, in dispatch order. -/
structure Drains (s : MemoryStorage) (kind : JobStateKind) (now : DateTime)
    (fetch : MemoryStorage → Nat → List Job)
    (claim : Nat → Section (Except StorageError (List Job))) : Prop where
  one : ∀ limit env, ∃ ranking s', Ranks Job.notAfter (s.Due kind now) ranking ∧
    fetch (s.reorder env.order) limit = ranking.take limit ∧
    (claim limit).perform env s =
      some (.ok ((ranking.take limit).map fun job => job.promoted (env.stamp job.id)), s') ∧
    Promotes s s' env.stamp (ranking.take limit)
  ties : ∀ limit env order claimed s', (claim limit).perform env s = some (.ok claimed, s') →
    claimed.map Job.rank = (fetch (s.reorder order) limit).map Job.rank
  all : ∀ calls : List (Nat × Reading), (∀ call ∈ calls, 1 ≤ call.1) → ∃ ranking replies s',
    Ranks Job.notAfter (s.Due kind now) ranking ∧ repeated claim calls s = some (replies, s') ∧
    List.Forall₂ (fun old new => ∃ t, new = Job.promoted t old)
      (ranking.take (calls.map Prod.fst).sum) replies.flatten ∧
    ([] ∈ replies ∨ ranking.length ≤ calls.length →
      List.Forall₂ (fun old new => ∃ t, new = Job.promoted t old) ranking replies.flatten)

section
variable {s s' t : MemoryStorage} {kind : JobStateKind} {now : DateTime} {due : Job → Bool}
  {stamp : String → DateTime} {l : List Job} {jobs : Jobs} {job : Job} {limit : Nat}

theorem dueScheduled_iff :
    dueScheduled now job = true ↔ ∃ t, job.state.dueTime .scheduled = some t ∧ t ≤ now := by
  unfold dueScheduled JobState.dueTime
  cases job.state <;> simp

theorem dueRetry_iff :
    dueRetry now job = true ↔ ∃ t, job.state.dueTime .awaitingRetry = some t ∧ t ≤ now := by
  unfold dueRetry JobState.dueTime
  cases job.state <;> simp

theorem dueTime_promoted {t : DateTime} : (job.promoted t).state.dueTime kind = none := by
  cases kind <;> rfl

theorem promote_stored (hstored : ∀ job ∈ l, jobs.get? job.id = some job)
    (hnodup : (l.map Job.id).Nodup) :
    (promote stamp jobs (l.map Job.id)).1 = l.map fun job => job.promoted (stamp job.id) := by
  induction l generalizing jobs with
  | nil => rfl
  | cons job l ih =>
    rw [List.map_cons, List.nodup_cons] at hnodup
    rw [List.map_cons, promote, hstored job List.mem_cons_self]
    have hrest : ∀ other ∈ l, (jobs.insert (job.promoted (stamp job.id))).get? other.id =
        some other := by
      intro other hother
      have hid : other.id ≠ job.id := by
        intro heq
        exact hnodup.1 (heq ▸ List.mem_map_of_mem hother)
      rw [Jobs.get?_insert, Job.promoted_id, if_neg hid]
      exact hstored other (List.mem_cons_of_mem job hother)
    exact congrArg (job.promoted (stamp job.id) :: ·) (ih hrest hnodup.2)

/-- The due jobs, sorted. -/
theorem ranks_due (s : MemoryStorage) (order : List String)
    (hdue : ∀ job, due job = true ↔ ∃ t, job.state.dueTime kind = some t ∧ t ≤ now) :
    Ranks Job.notAfter (s.Due kind now)
      (((s.reorder order).jobs.values.filter due).insertionSort Job.notAfter) := by
  apply Ranks.insertionSort ((s.reorder order).jobs.values_nodup.of_map.filter due)
  intro job
  rw [List.mem_filter, Jobs.mem_values, hdue, reorder_jobs]
  exact ⟨fun h => ⟨h.1, h.2⟩, fun h => ⟨h.stored, h.time⟩⟩

/-- A claim promotes a first part of the sorted due jobs. -/
theorem claimDue_promotes (s : MemoryStorage) (env : Reading) (limit : Nat)
    (hdue : ∀ job, due job = true ↔ ∃ t, job.state.dueTime kind = some t ∧ t ≤ now) :
    ∃ ranking s', Ranks Job.notAfter (s.Due kind now) ranking ∧
      (s.reorder env.order).fetchDue due limit = ranking.take limit ∧
      (s.reorder env.order).claimDue due limit env.stamp =
        ((ranking.take limit).map fun job => job.promoted (env.stamp job.id), s') ∧
      Promotes s s' env.stamp (ranking.take limit) := by
  have hranks := s.ranks_due env.order hdue
  refine ⟨_, ((s.reorder env.order).claimDue due limit env.stamp).2, hranks, rfl, ?_⟩
  generalize hl : (((s.reorder env.order).jobs.values.filter due).insertionSort
    Job.notAfter).take limit = l
  have hstored : ∀ job ∈ l, s.jobs.get? job.id = some job := by
    intro job hjob
    rw [← hl] at hjob
    exact (hranks.mem.mp (List.mem_of_mem_take hjob)).stored
  have hnodup : (l.map Job.id).Nodup := by
    apply Jobs.ids_nodup hstored
    rw [← hl]
    exact hranks.nodup.sublist (List.take_sublist ..)
  have hids : dueIds (s.reorder env.order).jobs due limit = l.map Job.id := by
    rw [dueIds, ← hl, List.map_take]
  have hreply : (promote env.stamp (s.reorder env.order).jobs (l.map Job.id)).1 = _ :=
    promote_stored (fun job hjob => (reorder_jobs env.order job.id).trans (hstored job hjob)) hnodup
  simp only [claimDue, hids, hreply]
  refine ⟨trivial, ?_, ?_, fun id => reorder_locks env.order id, fun id => Dict.get?_reorder ..,
    fun id => Dict.get?_reorder .., rfl⟩
  · intro job hjob
    simp [get?_promote, hstored job hjob, List.mem_map_of_mem hjob, Job.promoted]
  · intro id hid
    simp [get?_promote, hid]

/-- Jobs may change places in a ranking only when they tie. -/
theorem ranking_rank {p : Job → Prop} {l' : List Job} (h : Ranks Job.notAfter p l)
    (h' : Ranks Job.notAfter p l') : l.map Job.rank = l'.map Job.rank := by
  have hanti : ∀ x y : Int × DateTime, (y.1 < x.1 ∨ x.1 = y.1 ∧ x.2 ≤ y.2) →
      (x.1 < y.1 ∨ y.1 = x.1 ∧ y.2 ≤ x.2) → x = y := by
    intro x y hxy hyx
    apply Prod.ext
    · omega
    · simp only [DateTime] at *
      omega
  exact Ranks.map_eq hanti (fun a b hab => Job.notAfter_iff.mp hab) h h'

/-- What has been promoted is no longer due, and everything else still is. -/
theorem Promotes.due_iff (h : Promotes s t stamp l)
    (hl : ∀ job ∈ l, s.jobs.get? job.id = some job) :
    t.Due kind now job ↔ s.Due kind now job ∧ job ∉ l := by
  by_cases hid : job.id ∈ l.map Job.id
  · obtain ⟨old, hold, hid⟩ := List.mem_map.mp hid
    constructor
    · intro hdue
      obtain ⟨time, htime, -⟩ := hdue.time
      have hstored := hdue.stored
      rw [← hid, h.jobs old hold] at hstored
      rw [← Option.some.inj hstored, dueTime_promoted] at htime
      cases htime
    · intro hdue
      have hstored := hdue.1.stored
      rw [← hid, hl old hold] at hstored
      exact absurd (Option.some.inj hstored ▸ hold) hdue.2
  · have hout : job ∉ l := fun hmem => hid (List.mem_map_of_mem hmem)
    constructor
    · intro hdue
      exact ⟨⟨(h.otherJobs _ hid).symm.trans hdue.stored, hdue.time⟩, hout⟩
    · intro hdue
      exact ⟨(h.otherJobs _ hid).trans hdue.1.stored, hdue.1.time⟩

theorem repeated_ranks {claim : Nat → Section (Except StorageError (List Job))}
    (hone : ∀ (s : MemoryStorage) limit env, ∃ ranking s',
      Ranks Job.notAfter (s.Due kind now) ranking ∧
      (claim limit).perform env s =
        some (.ok ((ranking.take limit).map fun job => job.promoted (env.stamp job.id)), s') ∧
      Promotes s s' env.stamp (ranking.take limit))
    (calls : List (Nat × Reading)) (s : MemoryStorage) : ∃ ranking replies s',
      Ranks Job.notAfter (s.Due kind now) ranking ∧
      repeated claim calls s = some (replies, s') ∧
      List.Forall₂ (fun old new => ∃ t, new = Job.promoted t old)
        (ranking.take (calls.map Prod.fst).sum) replies.flatten ∧
      ((∀ call ∈ calls, 1 ≤ call.1) → [] ∈ replies →
        ranking.length ≤ (calls.map Prod.fst).sum) := by
  induction calls generalizing s with
  | nil =>
    obtain ⟨ranking, -, hranks, -⟩ := hone s 0 ⟨now, ⟨now, now, now⟩, fun _ => now, []⟩
    refine ⟨ranking, [], s, hranks, rfl, ?_, fun _ hempty => ?_⟩
    · simp
    · cases hempty
  | cons call calls ih =>
    obtain ⟨limit, env⟩ := call
    obtain ⟨first, t, hfirst, hperform, hpromotes⟩ := hone s limit env
    obtain ⟨rest, replies, s', hrest, hrepeated, hpairs, hempty⟩ := ih t
    have hstored : ∀ job ∈ first.take limit, s.jobs.get? job.id = some job := fun job hjob =>
      (hfirst.mem.mp (List.mem_of_mem_take hjob)).stored
    have hleft : ∀ {job}, job ∈ rest ↔ s.Due kind now job ∧ job ∉ first.take limit :=
      hrest.mem.trans (hpromotes.due_iff hstored)
    -- When the first call gets fewer than it asked for, nothing is left for the others.
    have hshort : first.length ≤ limit → rest = [] := by
      intro hle
      apply List.eq_nil_iff_forall_not_mem.mpr
      intro job hjob
      rw [List.take_of_length_le hle] at hleft
      exact (hleft.mp hjob).2 (hfirst.mem.mpr (hleft.mp hjob).1)
    have hranks : Ranks Job.notAfter (s.Due kind now) (first.take limit ++ rest) :=
      hfirst.take_append ⟨hrest.nodup, hleft, hrest.ordered⟩
    refine ⟨_, (first.take limit).map (fun job => job.promoted (env.stamp job.id)) :: replies, s',
      hranks, ?_, ?_, ?_⟩
    · simp [repeated, hperform, hrepeated]
    · have hcut : (first.take limit ++ rest).take (limit + (calls.map Prod.fst).sum) =
          first.take limit ++ rest.take (calls.map Prod.fst).sum := by
        rcases Nat.le_total first.length limit with hle | hle
        · rw [hshort hle, List.take_nil, List.append_nil]
          exact List.take_of_length_le ((List.length_take_le ..).trans (Nat.le_add_right ..))
        · rw [List.take_append, List.length_take_of_le hle, Nat.add_sub_cancel_left,
            List.take_take, Nat.min_eq_right (Nat.le_add_right ..)]
      rw [List.map_cons, List.sum_cons, hcut, List.flatten_cons]
      refine List.rel_append ?_ hpairs
      rw [List.forall₂_map_right_iff, List.forall₂_same]
      exact fun job _ => ⟨env.stamp job.id, rfl⟩
    · intro hlimits hreply
      have hlimit : 1 ≤ limit := hlimits _ List.mem_cons_self
      rw [List.length_append, List.map_cons, List.sum_cons]
      rcases List.mem_cons.mp hreply with hfirst_empty | hreply
      · have hnone : first.length = 0 := by
          have hlength := congrArg List.length hfirst_empty
          rw [List.length_map, List.length_take, List.length_nil] at hlength
          omega
        simp [hshort (by omega), hnone]
      · have hrest := hempty (fun call hcall => hlimits call (List.mem_cons_of_mem _ hcall)) hreply
        have htake : (first.take limit).length ≤ limit := List.length_take_le ..
        omega

theorem length_le_sum {calls : List (Nat × Reading)} (h : ∀ call ∈ calls, 1 ≤ call.1) :
    calls.length ≤ (calls.map Prod.fst).sum := by
  induction calls with
  | nil => exact Nat.le_refl 0
  | cons call calls ih =>
    have hfirst := h call List.mem_cons_self
    have hrest := ih fun c hc => h c (List.mem_cons_of_mem call hc)
    rw [List.length_cons, List.map_cons, List.sum_cons]
    omega

theorem drains {fetch : MemoryStorage → Nat → List Job}
    {claim : Nat → Section (Except StorageError (List Job))}
    (hdue : ∀ job, due job = true ↔ ∃ t, job.state.dueTime kind = some t ∧ t ≤ now)
    (hfetch : ∀ s limit, fetch s limit = s.fetchDue due limit)
    (hclaim : ∀ (s : MemoryStorage) limit env, (claim limit).perform env s =
      some (((s.reorder env.order).claimDue due limit env.stamp).map .ok id)) :
    Drains s kind now fetch claim := by
  have hone : ∀ (s : MemoryStorage) limit env, ∃ ranking s',
      Ranks Job.notAfter (s.Due kind now) ranking ∧
      fetch (s.reorder env.order) limit = ranking.take limit ∧
      (claim limit).perform env s =
        some (.ok ((ranking.take limit).map fun job => job.promoted (env.stamp job.id)), s') ∧
      Promotes s s' env.stamp (ranking.take limit) := by
    intro s limit env
    obtain ⟨ranking, s', hranks, hfetched, hclaimed, hpromotes⟩ :=
      s.claimDue_promotes env limit hdue
    refine ⟨ranking, s', hranks, (hfetch _ _).trans hfetched, ?_, hpromotes⟩
    rw [hclaim, hclaimed]
    rfl
  refine ⟨hone s, ?_, ?_⟩
  · intro limit env order claimed s' hperform
    obtain ⟨ranking, _, hranks, -, hclaimed, -⟩ := hone s limit env
    rw [hclaimed] at hperform
    cases hperform
    have hkeys := ranking_rank hranks (s.ranks_due order hdue)
    calc ((ranking.take limit).map fun job => job.promoted (env.stamp job.id)).map Job.rank
        = (ranking.take limit).map Job.rank := List.map_map
      _ = ((((s.reorder order).jobs.values.filter due).insertionSort
            Job.notAfter).take limit).map Job.rank := by
          rw [List.map_take, hkeys, ← List.map_take]
      _ = (fetch (s.reorder order) limit).map Job.rank := by
          rw [hfetch]
          rfl
  · intro calls hlimits
    obtain ⟨ranking, replies, s', hranks, hrepeated, hpairs, hempty⟩ :=
      repeated_ranks (fun s limit env => by
        obtain ⟨ranking, s', hranks, -, h⟩ := hone s limit env
        exact ⟨ranking, s', hranks, h⟩) calls s
    refine ⟨ranking, replies, s', hranks, hrepeated, hpairs, fun hdone => ?_⟩
    have hall : ranking.length ≤ (calls.map Prod.fst).sum := by
      rcases hdone with hreply | hmany
      · exact hempty hlimits hreply
      · exact hmany.trans (length_le_sum hlimits)
    rwa [List.take_of_length_le hall] at hpairs

/-- Over every storage and time, both claims drain exactly their due jobs. -/
theorem due_jobs_drained (s : MemoryStorage) (now : DateTime) :
    Drains s .scheduled now (fun s limit => s.fetchDueScheduledJobs now limit)
      (.claimDueScheduledJobs now) ∧
    Drains s .awaitingRetry now (fun s limit => s.fetchDueRetryJobs now limit)
      (.claimDueRetryJobs now) :=
  ⟨drains (fun _ => dueScheduled_iff) (fun _ _ => rfl) fun _ _ _ => rfl,
    drains (fun _ => dueRetry_iff) (fun _ _ => rfl) fun _ _ _ => rfl⟩

end
end MemoryStorage
end Qml
