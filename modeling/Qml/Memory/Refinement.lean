import Qml.Backends.JobStore
import Qml.Memory.HandOuts
import Qml.Memory.Promotion
import Qml.Memory.Recovery

namespace Qml
open Lib

namespace MemoryStorage

/-- The jobs that a storage holds. -/
def contents (s : MemoryStorage) : JobStore := fun id => s.jobs.get? id

/-- What a section with its reply means for the jobs. A section that fails, and one that only
reads or moves locks or servers, means nothing. -/
def meaning : {ρ : Type} → Section ρ → ρ → Option JobStore.Event
  | _, .get jobId, .ok answer => some (.found jobId answer)
  | _, .update job, .ok () => some (.updated job)
  | _, .updateIfState job expected, .ok answer => some (.swapped job expected answer)
  | _, .delete jobId, .ok answer => some (.deleted jobId answer)
  | _, .insertJob job, .ok () => some (.enqueued job)
  | _, .claimDueScheduledJobs .., .ok answer => some (.promoted .scheduled answer)
  | _, .claimDueRetryJobs .., .ok answer => some (.promoted .awaitingRetry answer)
  | _, .deleteExpiredJobs now, .ok answer => some (.expired now answer)
  | _, .requeueStrandedJobs staleBefore, .ok answer => some (.recovered (stale staleBefore) answer)
  | _, .reclaimJobsFromServer serverId, .ok answer => some (.recovered (ownedBy serverId) answer)
  | _, .lockAvailableJob workerId _, .ok (some job) =>
      some (.handedOut workerId "memory-storage" job)
  | _, _, _ => none

variable {s s' : MemoryStorage} {env : Reading} {ρ : Type} {op : Section ρ} {reply : ρ}

theorem contents_insert {job : Job} (h : s'.jobs = s.jobs.insert job) :
    s'.contents = s.contents.put job := by
  funext id
  rw [contents, h, Jobs.get?_insert, JobStore.put_apply]
  rfl

theorem claimDue_next {kind : JobStateKind} {due : Job → Bool} {now : DateTime} {limit : Nat}
    {claimed : List Job} (hkind : kind = .scheduled ∨ kind = .awaitingRetry)
    (hdue : ∀ job, due job = true ↔ ∃ t, job.state.dueTime kind = some t ∧ t ≤ now)
    (h : (s.reorder env.order).claimDue due limit env.stamp = (claimed, s')) :
    JobStore.Next Eq s.contents (.promoted kind claimed) s'.contents := by
  obtain ⟨ranking, t, hranks, -, hclaim, hpromotes⟩ := claimDue_promotes s env limit hdue
  rw [hclaim] at h
  cases h
  have hdueJob : ∀ job ∈ ranking.take limit, s.Due kind now job := fun job hjob =>
    hranks.mem.mp (List.mem_of_mem_take hjob)
  have hids : ((ranking.take limit).map fun job => job.promoted (env.stamp job.id)).map Job.id =
      (ranking.take limit).map Job.id := by
    rw [List.map_map]
    rfl
  refine .promoted kind _ _ hkind ?_ (fun job hjob => ?_) fun id hid => ?_
  · rw [hids]
    apply Jobs.ids_nodup fun job hjob => (hdueJob job hjob).stored
    exact hranks.nodup.sublist (List.take_sublist ..)
  · obtain ⟨old, hold, rfl⟩ := List.mem_map.mp hjob
    obtain ⟨hstored, t, htime, -⟩ := hdueJob old hold
    refine ⟨hpromotes.jobs old hold, old, _, hstored, ?_, rfl⟩
    revert htime
    unfold JobState.dueTime
    rcases hkind with rfl | rfl <;> cases old.state <;> simp [JobState.kind]
  · rw [hids] at hid
    exact hpromotes.otherJobs id hid

theorem recover_next {lost : JobState → Bool} {stamp : String → DateTime}
    (hlost : ∀ state, lost state = true → state.kind = .processing) :
    JobStore.Next Eq s.contents (.recovered lost (s.recover lost stamp).1)
      (s.recover lost stamp).2.contents := by
  have hmoves : Moves (fun job => lost job.state = true) s _ _ := recover_moves s stamp
  refine .recovered lost _ _ hlost (fun id job hjob hl => ?_) (fun id hrest => ?_) ?_
  · obtain ⟨⟨now, hafter⟩, -⟩ := hmoves.moved id job hjob hl
    exact ⟨_, now, hafter, rfl⟩
  · refine hmoves.otherJobs id fun job hjob hl => ?_
    rw [hrest job hjob] at hl
    cases hl
  · obtain ⟨ids, hnodup, hlength, hmem⟩ := hmoves.returned
    exact ⟨ids, hnodup, hmem, hlength⟩

/-- As many jobs go as fail the test. -/
theorem retain_size {p : Job → Bool} :
    s.jobs.size - (s.jobs.retain p).size = (s.jobs.values.filter fun job => !p job).length := by
  have hsize : s.jobs.size = s.jobs.values.length := (List.length_map _).symm
  have hretained : (s.jobs.retain p).size = s.jobs.values.countP p := by
    rw [Jobs.values, Dict.values, List.countP_map, List.countP_eq_length_filter]
    rfl
  have hcount := List.length_eq_countP_add_countP p (l := s.jobs.values)
  rw [hsize, hretained, ← List.countP_eq_length_filter]
  have hnot : s.jobs.values.countP (fun job => !p job) =
      s.jobs.values.countP fun job => decide ¬p job = true :=
    List.countP_congr fun job _ => by simp
  omega

theorem deleteExpiredJobs_next {now : DateTime} :
    JobStore.Next Eq s.contents (.expired now (s.deleteExpiredJobs now).1)
      (s.deleteExpiredJobs now).2.contents := by
  have hafter : ∀ id, (s.deleteExpiredJobs now).2.contents id =
      (s.contents id).filter (unexpired now) := fun id => Jobs.get?_retain
  refine .expired now _ _ (fun id => ?_) (fun id job expiresAt hjob hexpires => ?_) ?_
  · rw [hafter]
    cases hold : s.contents id with
    | none => exact .inl rfl
    | some old =>
      cases hexp : unexpired now old with
      | true => exact .inl (by simp [Option.filter, hexp])
      | false =>
        refine .inr ⟨by simp [Option.filter, hexp], old, ?_⟩
        unfold unexpired at hexp
        cases hat : old.expiresAt with
        | none => simp [hat] at hexp
        | some expiresAt => exact ⟨expiresAt, rfl, rfl, by simpa [hat] using hexp⟩
  · rw [hafter, Option.filter_eq_some_iff] at hjob
    obtain ⟨-, hkept⟩ := hjob
    rw [unexpired, hexpires] at hkept
    exact (of_decide_eq_true hkept).le
  · refine ⟨(s.jobs.values.filter fun job => !unexpired now job).map Job.id, ?_, fun id => ?_, ?_⟩
    · exact s.jobs.values_nodup.sublist (List.filter_sublist.map Job.id)
    · simp only [hafter, List.mem_map]
      constructor
      · rintro ⟨job, hjob, rfl⟩
        rw [List.mem_filter, Jobs.mem_values] at hjob
        have hstored : s.contents job.id = some job := hjob.1
        have hexp : unexpired now job = false := by simpa using hjob.2
        simp [hstored, Option.filter, hexp]
      · rintro ⟨hsome, hnone⟩
        obtain ⟨job, hjob⟩ := Option.isSome_iff_exists.mp hsome
        have hid := Jobs.id_of_get? hjob
        refine ⟨job, List.mem_filter.mpr ⟨Jobs.mem_values.mpr (hid ▸ hjob), ?_⟩, hid⟩
        rw [hjob] at hnone
        cases hexp : unexpired now job with
        | true => simp [Option.filter, hexp] at hnone
        | false => rfl
    · rw [List.length_map]
      exact retain_size.symm

/-- What a section means is what the contract lets happen; one that means nothing leaves
every job as it was. -/
theorem perform_advances (h : op.perform env s = some (reply, s')) :
    Advances (JobStore.Next Eq) s.contents (meaning op reply) s'.contents := by
  cases op with
  | get jobId =>
    cases h
    exact .found jobId
  | update job =>
    simp only [Section.perform, MemoryStorage.update] at h
    split at h
    · rename_i old hold
      have hjob : s.contents job.id = some old := hold
      have hafter : s'.contents = s.contents.put job := contents_insert (by cases h; rfl)
      cases h
      simp only [meaning]
      rw [hafter]
      exact .updated job old hjob
    · cases h
      rfl
  | updateIfState job expected =>
    simp only [Section.perform, MemoryStorage.updateIfState] at h
    split at h
    · cases h
      rfl
    · rename_i old hold
      have hjob : s.contents job.id = some old := hold
      split at h
      · cases h
        exact .unswapped job old expected hjob ‹_›
      · rename_i hkind
        have hafter : s'.contents = s.contents.put job := contents_insert (by cases h; rfl)
        cases h
        obtain rfl := Decidable.not_not.mp hkind
        simp only [meaning]
        rw [hafter]
        exact .swapped job old hjob
  | delete jobId =>
    cases h
    have hafter : (s.delete jobId).2.contents = s.contents.erase jobId := by
      funext id
      rw [JobStore.erase_apply]
      exact Jobs.get?_erase
    change JobStore.Next Eq s.contents (.deleted jobId (s.contents jobId).isSome)
      (s.delete jobId).2.contents
    rw [hafter]
    exact .deleted jobId
  | insertJob job =>
    have hafter : s'.contents = s.contents.put job := contents_insert (by cases h; rfl)
    cases h
    simp only [meaning]
    rw [hafter]
    exact .enqueued job
  | claimDueScheduledJobs now limit =>
    cases h
    exact claimDue_next (.inl rfl) (fun _ => dueScheduled_iff) rfl
  | claimDueRetryJobs now limit =>
    cases h
    exact claimDue_next (.inr rfl) (fun _ => dueRetry_iff) rfl
  | deleteExpiredJobs now =>
    cases h
    exact deleteExpiredJobs_next
  | requeueStrandedJobs staleBefore =>
    cases h
    exact recover_next fun _ => stale_kind
  | reclaimJobsFromServer serverId =>
    cases h
    exact recover_next fun _ => ownedBy_kind
  | lockAvailableJob workerId queues =>
    generalize hl : (s.reorder env.order).lockAvailableJob workerId queues env.fetch = r at h
    obtain ⟨claimed, after⟩ := r
    simp only [Section.perform, hl, Option.some.injEq, Prod.map_apply, id_eq, Prod.mk.injEq] at h
    obtain ⟨rfl, rfl⟩ := h
    have hsame : (s.reorder env.order).contents = s.contents :=
      funext fun id => reorder_jobs env.order id
    cases claimed with
    | none =>
      obtain ⟨rfl, -⟩ := lockAvailableJob_none hl
      exact hsame
    | some job =>
      obtain ⟨old, hold, havail, -, -, hjob, hstored⟩ := lockAvailableJob_some hl
      have hafter : after.contents = (s.reorder env.order).contents.put job :=
        contents_insert (by rw [hstored])
      have hwaits : old.state.kind.waiting = true := by
        rcases available_kind havail with hk | hk | hk <;> rw [hk] <;> rfl
      simp only [meaning]
      rw [hafter, hsame]
      rw [reorder_jobs] at hold
      exact .handedOut old job _ workerId _ (by rw [hjob]; exact hold) hwaits hjob.symm
  | acquireJobLock jobId workerId timeoutSeconds =>
    have hjobs : s'.contents = s.contents := by
      simp only [Section.perform, acquireJobLock] at h
      split at h
      · cases h
        rfl
      · split at h <;> cases h
        rfl
    cases reply <;> exact hjobs
  | releaseJobLock jobId workerId =>
    have hjobs : (s.releaseJobLock jobId workerId).2.contents = s.contents := by
      unfold releaseJobLock
      split
      · split <;> rfl
      · rfl
    cases h
    exact hjobs
  | heartbeatServer serverId now =>
    have hjobs : (s.heartbeatServer serverId now).2.contents = s.contents := by
      unfold heartbeatServer
      split <;> rfl
    cases h
    exact hjobs
  | isAtCapacity | len | cleanupExpiredLocks | registerServer | deregisterServer | listDeadServers
  | cleanupExpiredNamedLocks =>
    cases h
    rfl

/-- The sections of the in-memory backend carry out the contract of the backends. -/
def refinement : Refinement Enters (JobStore.Next Eq) where
  inv _ := True
  abs := contents
  means x := (x.label.op.perform x.label.env x.before).bind fun r => meaning x.label.op r.1
  keeps _ _ := trivial
  advances _ h := by
    obtain ⟨⟨reply, t⟩, hperform, rfl⟩ := Option.map_eq_some_iff.mp h
    simp only [hperform, Option.bind_some]
    exact perform_advances hperform

end MemoryStorage
end Qml
