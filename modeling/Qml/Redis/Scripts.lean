import Mathlib.Data.Rat.Floor
import Qml.Lib.Rounding
import Qml.Redis.Database

namespace Qml
open Lib

namespace RedisStorage

/-- The name of a state in the keys of the state sets and the counts hash. -/
def kindToStateName : JobStateKind → String
  | .enqueued => "enqueued"
  | .processing => "processing"
  | .succeeded => "succeeded"
  | .failed => "failed"
  | .deleted => "deleted"
  | .scheduled => "scheduled"
  | .awaitingRetry => "awaiting_retry"

def stateToString (state : JobState) : String := kindToStateName state.kind

theorem kindToStateName_injective {a b : JobStateKind}
    (h : kindToStateName a = kindToStateName b) : a = b := by
  cases a <;> cases b <;> first | rfl | exact absurd h (by decide)

/-- How the scripts derive that name from the variant key of a decoded job. -/
def indexName (variant : String) : String :=
  if variant = "AwaitingRetry" then "awaiting_retry" else variant.toLower

/-- The scripts and the library agree on the names of the seven states. -/
theorem indexName_name (kind : JobStateKind) : indexName kind.name = kindToStateName kind := by
  cases kind <;> decide +kernel

def isJobAvailable (now : DateTime) (job : Job) : Bool :=
  match job.state with
  | .enqueued .. => true
  | .scheduled _ enqueueAt _ => decide (enqueueAt ≤ now)
  | .awaitingRetry _ retryAt _ => decide (retryAt ≤ now)
  | _ => false

/-- The `f64` that a conversion or an operation comes to. Nothing here leaves the range in
which an `f64` has all its 53 binary digits. -/
def roundDouble (x : ℚ) : ℚ := toDigits 2 53 x

/-- The score of a job written by the library. An `f64` holds each priority exactly. -/
def score (job : Job) : ℚ :=
  roundDouble (job.priority +
    roundDouble (roundDouble job.createdAt.timestampMillis / 1000000))

/-- The score an update passes to its script, if the job is available. -/
def newScore (now : DateTime) (job : Job) : Option ℚ :=
  if isJobAvailable now job then some (score job) else none

inductive Reply
  | ok | missing | mismatch
  deriving DecidableEq

/-- Put a job into both sorted sets with the given score, or take it out. -/
def index (db : Db) (score : Option ℚ) (queue id : String) : Db :=
  match score with
  | some x => (db.zadd .available id x).zadd (.byQueue queue) id x
  | none => (db.zrem .available id).zrem (.byQueue queue) id

/-- Move an identifier from one state set and counter to another. -/
def move (db : Db) (source target id : String) : Db :=
  (((db.srem (.state source) id).sadd (.state target) id).hincrby source (-1)).hincrby target 1

/-- The script of `update`. -/
def updateScript (codec : Codec) (db : Db) (job : Job) (newState : String)
    (newScore : Option ℚ) : Reply × Db :=
  match db.get job.id with
  | none => (.missing, db)
  | some current =>
    let old := current.job
    let oldState := indexName old.state.name
    let db := (db.set job.id (codec.serialize job)).sadd .all old.id
    let db := if oldState ≠ newState then move db oldState newState old.id else db
    (.ok, index db newScore old.queue old.id)

/-- The script of `update_if_state`. -/
def updateIfStateScript (codec : Codec) (db : Db) (job : Job) (expected newVariant : String)
    (newScore : Option ℚ) : Reply × Db :=
  match db.get job.id with
  | none => (.missing, db)
  | some current =>
    let old := current.job
    if old.state.name ≠ expected then (.mismatch, db)
    else
      let db := db.set job.id (codec.serialize job)
      let db :=
        if expected ≠ newVariant then move db (indexName expected) (indexName newVariant) old.id
        else db
      (.ok, index db newScore old.queue old.id)

/-- `job.state[variant][field]`, for the two fields the scripts look up. -/
def timeField (variant field : String) : JobState → Option DateTime
  | .scheduled _ enqueueAt _ =>
      if variant = "Scheduled" ∧ field = "enqueue_at" then some enqueueAt else none
  | .awaitingRetry _ retryAt _ =>
      if variant = "AwaitingRetry" ∧ field = "retry_at" then some retryAt else none
  | _ => none

/-- The due test compares the texts of the two instants. -/
def isDue (variant field : String) (now : DateTime) (job : Job) : Bool :=
  match timeField variant field job.state with
  | some t => decide (t.rfc3339 ≤ now.rfc3339Micros)
  | none => false

/-- Decode the candidates and keep the due ones; an identifier without a blob
is dropped from the state set. -/
def collectDue (source variant field : String) (now : DateTime) :
    List String → Db → List (String × Job) × Db
  | [], db => ([], db)
  | id :: ids, db =>
    match db.get id with
    | none => collectDue source variant field now ids (db.srem (.state source) id)
    | some blob =>
      let (due, db) := collectDue source variant field now ids db
      (if isDue variant field now blob.job then (id, blob.job) :: due else due, db)

/-- The comparison of `table.sort`: priority, then the text of the creation time. -/
def dueNotAfter (a b : String × Job) : Prop :=
  ¬ (if a.2.priority ≠ b.2.priority then b.2.priority > a.2.priority
    else b.2.createdAt.rfc3339 < a.2.createdAt.rfc3339)

instance : DecidableRel dueNotAfter := fun a b => inferInstanceAs (Decidable
  (¬ (if a.2.priority ≠ b.2.priority then b.2.priority > a.2.priority
    else b.2.createdAt.rfc3339 < a.2.createdAt.rfc3339)))

/-- Write one claimed job back as `Enqueued`, scored by its priority alone. -/
def promote (codec : Codec) (source : String) (now : DateTime) (db : Db) (entry : String × Job) :
    Blob × Db :=
  let job := { entry.2 with state := .enqueued now.truncMicros entry.2.queue }
  let blob := codec.recode job
  let db := ((db.set entry.1 blob).srem (.state source) entry.1).sadd (.state "enqueued") entry.1
  let db := (db.zadd .available entry.1 job.priority).zadd (.byQueue job.queue) entry.1 job.priority
  (blob, (db.hincrby source (-1)).hincrby "enqueued" 1)

def promoteAll (codec : Codec) (source : String) (now : DateTime) :
    List (String × Job) → Db → List Blob × Db
  | [], db => ([], db)
  | entry :: entries, db =>
    let (blob, db) := promote codec source now db entry
    let (claimed, db) := promoteAll codec source now entries db
    (blob :: claimed, db)

/-- The script of `claim_due_jobs_lua`; `members` is the state set as read. -/
def claimDueScript (codec : Codec) (db : Db) (source variant field : String) (now : DateTime)
    (limit : UInt64) (members : List String) : List Blob × Db :=
  let (due, db) := collectDue source variant field now members db
  let n := min limit.toInt64.toInt due.length
  promoteAll codec source now ((due.insertionSort dueNotAfter).take n.toNat) db

/-- The candidate with the highest score; the first of the keys wins a tie. -/
def best (db : Db) : List ZKey → Option (String × ℚ) → Option (String × ℚ)
  | [], found => found
  | key :: keys, found =>
    match db.top key, found with
    | some (id, x), some (_, y) => best db keys (if x > y then some (id, x) else found)
    | some (id, x), none => best db keys (some (id, x))
    | none, _ => best db keys found

/-- Drop an identifier from every candidate set and from the global one. -/
def dropStale (db : Db) (candidates : List ZKey) (id : String) : Db :=
  (candidates.foldl (fun db key => db.zrem key id) db).zrem .available id

/-- The script of `fetch_and_lock_job`. -/
def fetchScript (codec : Codec) (db : Db) (workerId : String) (now : DateTime)
    (candidates : List ZKey) : Option Blob × Db :=
  match best db candidates none with
  | none => (none, db)
  | some (id, _) =>
    match db.get id with
    | none => (none, dropStale db candidates id)
    | some blob =>
      let job := blob.job
      if job.state.kind = .enqueued ∨ job.state.kind = .awaitingRetry then
        let oldState := if job.state.kind = .enqueued then "enqueued" else "awaiting_retry"
        let claimed := codec.recode
          { job with state := .processing now.truncMicros workerId "redis-storage" }
        let db := ((db.set id claimed).zrem .available id).zrem (.byQueue job.queue) id
        (some claimed, move db oldState "processing" id)
      else (none, dropStale db candidates id)

end RedisStorage
end Qml
