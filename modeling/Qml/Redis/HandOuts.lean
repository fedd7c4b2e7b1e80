import Qml.Memory.HandOuts
import Qml.Redis.Sending

namespace Qml
open Lib

/-- Whether an operation may store a job it was given, or put lost jobs back: an
outcome, an update, a retry, a fresh enqueue, a requeue or a reclaim. -/
def Operation.restores : Operation → Bool
  | .enqueue .. | .update .. | .updateIfState .. | .requeueStrandedJobs ..
  | .reclaimJobsFromServer .. => true
  | _ => false

/-- Whether a job is stored in one of the states from which it may be handed out. -/
def Db.pending (db : Db) (id : String) : Bool :=
  (db.get id).any fun blob => blob.job.state.kind.waiting

theorem Operation.restores_of_loses {operation : Operation} {lost : JobState → Bool}
    (h : operation.loses = some lost) : operation.restores = true := by
  cases operation <;> first | rfl | cases h

theorem Db.pending_iff {db : Db} {id : String} : db.pending id = true ↔
    ∃ blob, db.get id = some blob ∧ blob.job.state.kind.waiting = true := by
  simp [pending, Option.any_eq_true]

/-- The job that the reply of a command hands out. -/
def Cmd.handed : {ρ : Type} → Cmd ρ → ρ → List Job
  | _, .fetch .., some blob => [blob.job]
  | _, _, _ => []

namespace RedisStorage

/-- What happens to the key of a job's lock, which no job operation reads. -/
inductive LockEvent
  | tryAcquireJobLock (jobId workerId : String)
  | releaseJobLock (jobId workerId : String)
  | expire (jobId : String)

/-- `SET NX EX`, the script that deletes a lock of one's own, and expiry. -/
def LockEvent.apply (locks : Dict String String) : LockEvent → Dict String String
  | .tryAcquireJobLock jobId workerId =>
    if locks.contains jobId then locks else locks.insert jobId workerId
  | .releaseJobLock jobId workerId =>
    if locks.get? jobId = some workerId then locks.erase jobId else locks
  | .expire jobId => locks.erase jobId

/-- The job operations in flight, and the locks beside them. -/
structure Site where
  traffic : Traffic
  locks : Dict String String

inductive Site.Event
  | job (e : Traffic.Event)
  | lock (e : LockEvent)

def Site.next (codec : Codec) (s : Site) : Site.Event → Option Site
  | .job e => (s.traffic.next codec e).map fun traffic => { s with traffic := traffic }
  | .lock e => some { s with locks := e.apply s.locks }

abbrev Site.Next (codec : Codec) (s : Site) (e : Site.Event) (t : Site) : Prop :=
  s.next codec e = some t

/-- Whether the step claims the job and returns it. -/
def handsOut (codec : Codec) (x : Step Site Site.Event) (id : String) : Bool :=
  match x.label with
  | .job (.step i moment) =>
    match x.before.traffic.clients[i]? with
    | some ⟨_, .call cmd _, _⟩ =>
      (cmd.handed (cmd.perform codec moment x.before.traffic.db).1).any fun job =>
        decide (job.id = id)
    | _ => false
  | _ => false

/-- The step is a command of an operation that stores or puts back jobs, and
writes a job back that was not waiting. -/
structure WritesBack (x : Step Site Site.Event) (id : String) : Prop where
  op : ∃ i moment client, x.label = .job (.step i moment) ∧
    x.before.traffic.clients[i]? = some client ∧ client.operation.restores = true
  before : x.before.traffic.db.pending id = false
  after : x.after.traffic.db.pending id = true

variable {codec : Codec} {s t : Site} {e : Site.Event} {x : Step Site Site.Event} {id : String}

theorem handed_claims {cmd : Cmd ρ} {reply : ρ} {moment : Moment} {db db' : Db} {job : Job}
    (hnamed : db.Named) (h : cmd.perform codec moment db = (reply, db'))
    (hjob : job ∈ cmd.handed reply) : db.pending job.id = true ∧ db'.pending job.id = false := by
  cases cmd
  case fetch workerId now candidates =>
    cases reply with
    | none => cases hjob
    | some blob =>
      obtain rfl := List.mem_singleton.mp hjob
      rcases fetchScript_cases h with ⟨he, -⟩ | ⟨_, _, he, -⟩ |
        ⟨taken, score, old, -, hold, hkind, he, rfl⟩
      · cases he
      · cases he
      · cases he
        obtain ⟨hid, -, hstate⟩ := recode_processing codec now.truncMicros workerId
          "redis-storage" old.job
        rw [hid, hnamed _ _ hold]
        refine ⟨Db.pending_iff.mpr ⟨old, hold, ?_⟩, ?_⟩
        · rcases hkind with hk | hk <;> rw [hk] <;> rfl
        · simp [Db.pending, hstate, JobState.kind, JobStateKind.waiting]
  all_goals cases hjob

theorem handsOut_claims (hnamed : s.traffic.db.Named) (hnext : Site.Next codec s e t)
    (h : handsOut codec ⟨s, e, t⟩ id = true) :
    s.traffic.db.pending id = true ∧ t.traffic.db.pending id = false := by
  cases e with
  | lock e => cases h
  | job e =>
    obtain ⟨traffic, hmoved, rfl⟩ := Option.map_eq_some_iff.mp hnext
    cases Traffic.next_moves hmoved with
    | started => cases h
    | @sent i moment client ρ cmd k reply db hclient hprogram hcmd =>
      obtain ⟨operation, program, stage⟩ := client
      cases hprogram
      simp only [handsOut, hclient, hcmd, List.any_eq_true, decide_eq_true_eq] at h
      obtain ⟨job, hjob, rfl⟩ := h
      exact handed_claims hnamed hcmd hjob

/-- Only the commands of operations that store or put back jobs make one wait. -/
theorem Touch.restores {operation : Operation} {stage : Stage} {o o' : Option Blob}
    (h : Touch codec operation stage id o o')
    (ho : (o.any fun blob => blob.job.state.kind.waiting) = false)
    (ho' : (o'.any fun blob => blob.job.state.kind.waiting) = true) :
    operation.restores = true := by
  cases h with
  | same => exact absurd (ho.symm.trans ho') (by simp)
  | enqueued hop | updated hop | swapped hop =>
    rw [hop]
    rfl
  | requeued t hop => exact Operation.restores_of_loses hop
  | deleted => cases ho'
  | promoted hold => rcases hold with hk | hk <;> simp [hk, JobStateKind.waiting] at ho
  | claimed hold => rcases hold with hk | hk <;> simp [hk, JobStateKind.waiting] at ho

theorem next_orderly (h : s.traffic.Orderly codec) (hnext : Site.Next codec s e t) :
    t.traffic.Orderly codec := by
  cases e with
  | job e =>
    obtain ⟨traffic, hmoved, rfl⟩ := Option.map_eq_some_iff.mp hnext
    exact h.next hmoved
  | lock e =>
    cases hnext
    exact h

theorem site_orderly {tr : List (Step Site Site.Event)} {db : Db} {locks : Dict String String}
    (hnamed : db.Named) (hr : Run (Site.Next codec) ⟨.idle db, locks⟩ tr s) :
    s.traffic.Orderly codec := by
  refine hr.stable (fun s => s.traffic.Orderly codec)
    ⟨fun i client hi => by simp [Traffic.idle] at hi, hnamed⟩ fun x hx hbefore => ?_
  obtain ⟨_, -, -, hnext⟩ := hr.of_mem hx
  exact next_orderly hbefore hnext

theorem next_writesBack (h : s.traffic.Orderly codec) (hnext : Site.Next codec s e t)
    (hs : s.traffic.db.pending id = false) (ht : t.traffic.db.pending id = true) :
    WritesBack ⟨s, e, t⟩ id := by
  cases e with
  | lock e =>
    cases hnext
    exact absurd (hs.symm.trans ht) (by simp)
  | job e =>
    obtain ⟨traffic, hmoved, rfl⟩ := Option.map_eq_some_iff.mp hnext
    cases Traffic.next_moves hmoved with
    | started => exact absurd (hs.symm.trans ht) (by simp)
    | sent hclient hprogram hcmd =>
      have htouch := (h.sent hclient hprogram).1.touch h.named hcmd id
      exact ⟨⟨_, _, _, rfl, hclient, Touch.restores htouch hs ht⟩, hs, ht⟩

/-- Between two hand-outs of one job, some operation wrote it back. -/
theorem writesBack_between {pre mid post : List (Step Site Site.Event)} {db : Db}
    {locks : Dict String String} {y : Step Site Site.Event} (hnamed : db.Named)
    (hr : Run (Site.Next codec) ⟨.idle db, locks⟩ (pre ++ x :: (mid ++ y :: post)) t)
    (hx : handsOut codec x id = true) (hy : handsOut codec y id = true) :
    ∃ z ∈ mid, WritesBack z id := by
  have horderly : ∀ z ∈ pre ++ x :: (mid ++ y :: post), z.before.traffic.Orderly codec ∧
      Site.Next codec z.before z.label z.after := by
    intro z hz
    obtain ⟨_, -, hpre, hnext⟩ := hr.of_mem hz
    exact ⟨site_orderly hnamed hpre, hnext⟩
  obtain ⟨z, hz, hbefore, hafter⟩ := hr.between (fun s => s.traffic.db.pending id = true)
    (by simp [(handsOut_claims (horderly x (by simp)).1.named (horderly x (by simp)).2 hx).2])
    (handsOut_claims (horderly y (by simp)).1.named (horderly y (by simp)).2 hy).1
  rw [Bool.not_eq_true] at hbefore
  obtain ⟨hz', hnext⟩ := horderly z (by simp [hz])
  exact ⟨z, hz, next_writesBack hz' hnext hbefore hafter⟩

/-- The jobs that the commands of a method have handed out so far. -/
def Handed : Contract Cmd (List Job) where
  may _ _ _ := True
  step jobs _ cmd reply jobs' := jobs' = jobs ++ cmd.handed reply

/-- `fetch_available_jobs_atomic` returns what its scripts have handed out. -/
theorem fetchUpTo_handed {workerId : String} {queues : Option (List String)} {n : Nat}
    {jobs : List Job} : (fetchUpTo workerId queues n jobs).wp Handed
      (fun reply handed => ∀ claimed, reply = .ok claimed → claimed = handed) jobs := by
  induction n generalizing jobs with
  | zero =>
    intro claimed h
    cases h
    rfl
  | succ n ih =>
    simp only [fetchUpTo, fetchAndLockJob, Prog.ask_bind, Prog.call_bind, Prog.wp_call]
    refine ⟨trivial, fun _ _ hnow => ⟨trivial, fun reply handed hfetch => ?_⟩⟩
    simp only [Handed, Cmd.handed, List.append_nil] at hnow
    subst hnow
    cases reply with
    | none =>
      intro claimed h
      cases h
      simpa [Handed, Cmd.handed] using hfetch.symm
    | some blob =>
      simp only [Handed, Cmd.handed] at hfetch
      cases hread : blob.readable with
      | false =>
        simp only [Prog.monad_pure, Prog.pure_bind, parse, hread]
        exact fun _ h => (by cases h)
      | true =>
        simp only [Prog.monad_pure, Prog.pure_bind, parse, hread, if_true, Except.map]
        subst hfetch
        exact ih

end RedisStorage

/-- On both backends, in every order of the steps of any number of workers, a
job that is handed out twice was written back in between by an operation that
stores it or puts it back. Nothing that happens to its lock does that. -/
theorem hand_outs_exclusive (codec : Codec) :
    (∀ (s t : MemoryStorage) (pre mid post : List (Step MemoryStorage MemoryStorage.Entry))
      (x y : Step MemoryStorage MemoryStorage.Entry) (id : String),
      Run MemoryStorage.Enters s (pre ++ x :: (mid ++ y :: post)) t →
      MemoryStorage.handsOut x id = true → MemoryStorage.handsOut y id = true →
      ∃ z ∈ mid, MemoryStorage.WritesBack z id) ∧
    ∀ (db : Db) (locks : Dict String String) (t : RedisStorage.Site)
      (pre mid post : List (Step RedisStorage.Site RedisStorage.Site.Event))
      (x y : Step RedisStorage.Site RedisStorage.Site.Event) (id : String), db.Named →
      Run (RedisStorage.Site.Next codec) ⟨.idle db, locks⟩ (pre ++ x :: (mid ++ y :: post)) t →
      RedisStorage.handsOut codec x id = true → RedisStorage.handsOut codec y id = true →
      ∃ z ∈ mid, RedisStorage.WritesBack z id :=
  ⟨fun _ _ _ _ _ _ _ _ hr hx hy => MemoryStorage.writesBack_between hr hx hy,
    fun _ _ _ _ _ _ _ _ _ hnamed hr hx hy => RedisStorage.writesBack_between hnamed hr hx hy⟩

/-- Claimed, put back as stranded an hour later, and claimed again. -/
def claimedAgain : List MemoryStorage.Entry :=
  let noon : DateTime := 1767268800000000000
  let later : DateTime := noon + Duration.hours 1
  let reading (now : DateTime) : Reading := ⟨now, ⟨now, now, now⟩, fun _ => now, []⟩
  [⟨.insertJob (.new "a" noon "send_email" .null), reading noon⟩,
    ⟨.lockAvailableJob "v" none, reading noon⟩, ⟨.requeueStrandedJobs later, reading later⟩,
    ⟨.lockAvailableJob "w" none, reading later⟩]

/-- The same on the other backend, with the job's lock taken and expired. -/
def claimedAgainOnRedis : List RedisStorage.Site.Event :=
  let noon : DateTime := 1767268800000000000
  let later : DateTime := noon + Duration.hours 1
  let run (i n : Nat) (operation : Operation) (now : DateTime) : List RedisStorage.Site.Event :=
    .job (.start operation) :: List.replicate n (.job (.step i ⟨now, []⟩))
  run 0 7 (.enqueue (.new "a" noon "send_email" .null)) noon ++
    run 1 2 (.fetchAndLockJob "v" none) noon ++
    [RedisStorage.Site.Event.lock (.tryAcquireJobLock "a" "v"), .lock (.expire "a")] ++
    run 2 5 (.requeueStrandedJobs later) later ++ run 3 2 (.fetchAndLockJob "w" none) later

theorem hand_outs_exclusive_claimedAgain : (∃ z, MemoryStorage.WritesBack z "a") ∧
    ∃ z, RedisStorage.WritesBack z "a" := by
  obtain ⟨s, hs⟩ := replay_run MemoryStorage.enter (.empty none) claimedAgain
  obtain ⟨pre, x, mid, y, post, he, hx, hy⟩ := twice
    (p := fun x => MemoryStorage.handsOut x "a")
    (l := replay MemoryStorage.enter (.empty none) claimedAgain) (by decide +kernel)
  obtain ⟨t, ht⟩ := replay_run (RedisStorage.Site.next .lossless) ⟨.idle .empty, .empty⟩
    claimedAgainOnRedis
  obtain ⟨pre', x', mid', y', post', he', hx', hy'⟩ := twice
    (p := fun x => RedisStorage.handsOut .lossless x "a")
    (l := replay (RedisStorage.Site.next .lossless) ⟨.idle .empty, .empty⟩ claimedAgainOnRedis)
    (by decide +kernel)
  rw [he] at hs
  rw [he'] at ht
  obtain ⟨hmemory, hredis⟩ := hand_outs_exclusive .lossless
  obtain ⟨z, -, hz⟩ := hmemory _ _ _ _ _ _ _ _ hs hx hy
  obtain ⟨z', -, hz'⟩ := hredis _ _ _ _ _ _ _ _ _ Db.Consistent.empty.named ht hx' hy'
  exact ⟨⟨z, hz⟩, ⟨z', hz'⟩⟩

end Qml
