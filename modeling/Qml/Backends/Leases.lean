import Qml.Memory.Leases
import Qml.Postgres.Leases
import Qml.Redis.DispatchOrder
import Qml.Redis.Leases

namespace Qml
open Lib

/-- A held job lock is honoured by dispatch: in memory in every run in which no timeout is
granted that ends in the past once it is cast, on the other two backends in every run in
which nobody but the holder fetches while the locked job waits where the fetch looks. -/
theorem locks_honoured (driver : PostgresStorage.Driver) (codec : Codec) :
    (∀ storage tr t, Run Callers.Next (.idle storage) tr t →
      (∀ x ∈ tr, x.before.fits x.label = true) → Callers.leases.Honoured tr) ∧
    (∀ table tr after, Run (PostgresStorage.Next driver) table tr after →
      (PostgresStorage.leases driver).Spared PostgresStorage.Reaches tr →
      (PostgresStorage.leases driver).Honoured tr) ∧
    ∀ db locks tr t, db.Named → Run (RedisStorage.Site.Next codec) ⟨.idle db, locks⟩ tr t →
      (RedisStorage.leases codec).Spared RedisStorage.Reaches tr →
      (RedisStorage.leases codec).Honoured tr :=
  ⟨fun _ _ _ hr hfit => Callers.leases_honoured hr hfit,
    fun _ _ _ hr hspared => PostgresStorage.leases_spared hr hspared,
    fun _ _ _ _ hnamed hr hspared => RedisStorage.leases_spared hnamed hr hspared⟩

/-- A job, a lock on it for a minute by one worker, and the fetch of another. -/
def lockedThenFetched : List Callers.Event :=
  [Callers.Event.call (.enqueue (Job.new "a" 0 "send_email" .null))] ++ Callers.Event.steps 0 2 0 ++
  [Callers.Event.call (.tryAcquireJobLock "a" "v" 60)] ++ Callers.Event.steps 1 2 0 ++
  [Callers.Event.call (.fetchAndLockJob "w" none)] ++ Callers.Event.steps 2 2 0

open PostgresStorage in
/-- A table with one job. -/
def tableOf (job : Job) : Table := (enqueue .verbatim .empty job).2

open PostgresStorage in
/-- The job is locked by one worker, who then fetches it. -/
def lockedByHolder : Table × Table :=
  let locked := (tryAcquireJobLock .verbatim (tableOf reminder) reminder.id "v" 60 0).2
  (locked, (fetchAndLockJob locked (fun _ => false) 0 "v" none).2)

namespace RedisStorage

/-- A database with one job. -/
def oneJob : Db :=
  (Db.empty.turn .lossless (.at 0 (.enqueue (Job.new "a" 0 "send_email" .null)))).getD .empty

/-- The job is locked by one worker, who fetches it, and then another one fetches. -/
def holderFirst : List Site.Event :=
  [.lock (.tryAcquireJobLock "a" "v"), .job (.start (.fetchAndLockJob "v" none)),
    .job (.step 0 ⟨0, []⟩), .job (.step 0 ⟨0, []⟩), .job (.start (.fetchAndLockJob "w" none)),
    .job (.step 1 ⟨0, []⟩), .job (.step 1 ⟨0, []⟩)]

/-- Whether a step is a fetch by the holder or one that finds nothing, if it is a fetch. -/
def defers (holder : String) (x : Step Site Site.Event) : Bool :=
  match x.label with
  | .job (.step i _) =>
    match x.before.traffic.clients[i]? with
    | some ⟨_, .call (.fetch workerId _ candidates) _, _⟩ =>
      decide (workerId = holder) ||
        candidates.all fun key => (x.before.traffic.db.top key).isNone
    | _ => true
  | _ => true

theorem Reaches.defers {holder jobId workerId : String} {x : Step Site Site.Event}
    (h : Reaches x jobId workerId) (hdefers : defers holder x = true) : workerId = holder := by
  obtain ⟨i, moment, operation, t, candidates, k, stage, key, blob, hlabel, hclient, hkey, hscore,
    -⟩ := h
  simp only [RedisStorage.defers, hlabel, hclient, Bool.or_eq_true, decide_eq_true_eq,
    List.all_eq_true, Option.isNone_iff_eq_none] at hdefers
  rcases hdefers with hholder | hnothing
  · exact hholder
  · simp [Db.score_of_top_none (hnothing key hkey)] at hscore

end RedisStorage

/-- On the other two backends the holder of the lock fetches the job, and after it another
worker does, for whom nothing is left. -/
theorem locks_honoured_minute :
    (∃ tr t, Run Callers.Next (.idle (.empty none)) tr t ∧ tr.length = 9 ∧
      Callers.leases.Honoured tr) ∧
    (∃ tr after, Run (PostgresStorage.Next .verbatim) (tableOf PostgresStorage.reminder) tr after ∧
      tr.length = 3 ∧ (PostgresStorage.leases .verbatim).Honoured tr) ∧
    ∃ tr t, Run (RedisStorage.Site.Next .lossless) ⟨.idle RedisStorage.oneJob, .empty⟩ tr t ∧
      tr.length = 7 ∧ (RedisStorage.leases .lossless).Honoured tr := by
  obtain ⟨hmemory, hpostgres, hredis⟩ := locks_honoured .verbatim .lossless
  refine ⟨?_, ?_, ?_⟩
  · obtain ⟨t, hr⟩ := replay_run Callers.next (.idle (.empty none)) lockedThenFetched
    exact ⟨_, t, hr, by decide +kernel, hmemory _ _ _ hr (by decide +kernel)⟩
  · have hlock : PostgresStorage.Next .verbatim (tableOf PostgresStorage.reminder) _
        lockedByHolder.1 := .acquired 0 PostgresStorage.reminder.id "v" 60
    have hfetch : PostgresStorage.Next .verbatim lockedByHolder.1 _ lockedByHolder.2 :=
      .fetched 0 0 "v" none _ (fun _ => false) (List.Perm.refl _)
    have hagain : PostgresStorage.Next .verbatim lockedByHolder.2 _ _ :=
      .fetched 0 0 "w" none _ (fun _ => false) (List.Perm.refl _)
    have hr := ((Run.nil.snoc hlock).snoc hfetch).snoc hagain
    refine ⟨_, _, hr, rfl, hpostgres _ _ _ hr (.of_holder "v" ?_ ?_)⟩
    · rintro x hx id workerId expiry ⟨jobId, timeout, hlabel, -⟩
      simp only [List.nil_append, List.cons_append, List.mem_cons, List.not_mem_nil, or_false] at hx
      rcases hx with rfl | rfl | rfl <;> cases hlabel
      rfl
    · rintro y hy id workerId ⟨queues, startedAt, stored, locked, row, hlabel, hrow, -, hstate, -⟩
      simp only [List.nil_append, List.cons_append, List.mem_cons, List.not_mem_nil, or_false] at hy
      rcases hy with rfl | rfl | rfl <;> cases hlabel
      · rfl
      · have hdone : ∀ row ∈ lockedByHolder.2.rows,
            ¬ (row.stateName = "enqueued" ∨ row.stateName = "awaiting_retry") := by decide +kernel
        exact absurd hstate (hdone row hrow)
  · obtain ⟨t, hr⟩ := replay_run (RedisStorage.Site.next .lossless)
      ⟨.idle RedisStorage.oneJob, .empty⟩ RedisStorage.holderFirst
    have hturn : Db.empty.turn .lossless (.at 0 (.enqueue (Job.new "a" 0 "send_email" .null))) =
        some RedisStorage.oneJob := rfl
    have hnamed : RedisStorage.oneJob.Named :=
      (turn_wrote Db.Consistent.empty.named rfl hturn).1
    have hdefers : ∀ x ∈ replay (RedisStorage.Site.next .lossless)
        ⟨.idle RedisStorage.oneJob, .empty⟩ RedisStorage.holderFirst,
        RedisStorage.defers "v" x = true := by decide +kernel
    refine ⟨_, t, hr, by decide +kernel, hredis _ _ _ _ hnamed hr (.of_holder "v" ?_
      fun y hy _ _ h => h.defers (hdefers y hy))⟩
    rintro x hx jobId workerId _ ⟨hlabel, -⟩
    rw [show replay _ _ _ = _ :: _ :: _ :: _ :: _ :: _ :: _ :: [] from rfl] at hx
    simp only [List.mem_cons, List.not_mem_nil, or_false] at hx
    rcases hx with rfl | rfl | rfl | rfl | rfl | rfl | rfl <;> cases hlabel
    rfl

/-- An enqueued job is locked for a minute by one worker, and handed out to another at
once. -/
theorem locks_ignored :
    (∃ tr after, Run (PostgresStorage.Next .verbatim) (tableOf PostgresStorage.reminder) tr after ∧
      ¬ (PostgresStorage.leases .verbatim).Honoured tr) ∧
    ∃ db, Db.empty.turn .lossless (.at 0 (.enqueue (Job.new "a" 0 "send_email" .null))) = some db ∧
      ∃ tr t, Run (RedisStorage.Site.Next .lossless) ⟨.idle db, .empty⟩ tr t ∧
        ¬ (RedisStorage.leases .lossless).Honoured tr := by
  constructor
  · let id := PostgresStorage.reminder.id
    have hr := (Run.nil.snoc (.acquired 0 id "v" 60)).snoc
      (.fetched 0 0 "w" none _ (fun _ => false) (List.Perm.refl _) :
        PostgresStorage.Next .verbatim (PostgresStorage.tryAcquireJobLock .verbatim
          (tableOf PostgresStorage.reminder) id "v" 60 0).2 _ _)
    refine ⟨_, _, hr, fun h => ?_⟩
    refine absurd (h _ id "v" "w" ⟨[], _, [], [], _, rfl, ⟨id, 60, rfl, rfl, rfl, rfl⟩, ?_⟩
      ⟨none, 0, _, _, _, rfl, rfl, rfl⟩) (by decide)
    rintro z hz (⟨_, hlabel, -⟩ | hexpired | ⟨_, _, hlabel, -⟩)
    · obtain rfl := List.mem_singleton.mp hz
      cases hlabel
    · obtain rfl := List.mem_singleton.mp hz
      revert hexpired
      decide
    · obtain rfl := List.mem_singleton.mp hz
      cases hlabel
  · refine ⟨_, rfl, ?_⟩
    obtain ⟨t, hr⟩ := replay_run (RedisStorage.Site.next .lossless) ⟨.idle _, .empty⟩
      [.lock (.tryAcquireJobLock "a" "v"), .job (.start (.fetchAndLockJob "w" none)),
        .job (.step 0 ⟨0, []⟩), .job (.step 0 ⟨0, []⟩)]
    refine ⟨_, t, hr, fun h => ?_⟩
    refine absurd (h _ "a" "v" "w" ⟨[], _, [_, _], [], (), rfl, ⟨rfl, rfl⟩, ?_⟩
      ⟨0, ⟨0, []⟩, _, _, _, _, _, _, rfl, rfl, rfl, rfl, rfl⟩) (by decide)
    simp only [List.cons_append, List.nil_append, List.mem_cons, List.not_mem_nil, or_false]
    rintro z (rfl | rfl | rfl) (hlabel | hlabel) <;> cases hlabel

end Qml
