import Qml.Lib.Prog
import Qml.Redis.Scripts

namespace Qml
open Lib

/-- One step of a method of the backend: a reading of the clock, a single
command, or a whole script. -/
inductive Cmd : Type → Type
  | now : Cmd DateTime
  | get (id : String) : Cmd (Option Blob)
  | set (id : String) (blob : Blob) : Cmd Unit
  | del (id : String) : Cmd Nat
  | sadd (key : SetKey) (id : String) : Cmd Unit
  | srem (key : SetKey) (id : String) : Cmd Unit
  | smembers (key : SetKey) : Cmd (List String)
  | zadd (key : ZKey) (id : String) (score : ℚ) : Cmd Unit
  | zrem (key : ZKey) (id : String) : Cmd Unit
  | hincrby (field : String) (delta : Int) : Cmd Unit
  | update (job : Job) (newState : String) (newScore : Option ℚ) : Cmd RedisStorage.Reply
  | updateIfState (job : Job) (expected newVariant : String) (newScore : Option ℚ) :
      Cmd RedisStorage.Reply
  | claimDue (source variant field : String) (t : DateTime) (limit : UInt64) : Cmd (List Blob)
  | fetch (workerId : String) (t : DateTime) (candidates : List ZKey) : Cmd (Option Blob)

/-- What a command reads from outside the database: the clock, and the order in
which a set happens to be iterated. -/
structure Moment where
  now : DateTime
  order : List String
  deriving Inhabited

/-- `SMEMBERS`. -/
def Db.smembers (db : Db) (order : List String) (key : SetKey) : List String :=
  ((db.sets key).reorder order).keys

open RedisStorage in
def Cmd.perform (codec : Codec) (moment : Moment) (db : Db) : Cmd ρ → ρ × Db
  | .now => (moment.now, db)
  | .get id => (db.get id, db)
  | .set id blob => ((), db.set id blob)
  | .del id => (if (db.get id).isSome then 1 else 0, db.del id)
  | .sadd key id => ((), db.sadd key id)
  | .srem key id => ((), db.srem key id)
  | .smembers key => (db.smembers moment.order key, db)
  | .zadd key id score => ((), db.zadd key id score)
  | .zrem key id => ((), db.zrem key id)
  | .hincrby field delta => ((), db.hincrby field delta)
  | .update job newState newScore => updateScript codec db job newState newScore
  | .updateIfState job expected newVariant newScore =>
      updateIfStateScript codec db job expected newVariant newScore
  | .claimDue source variant field t limit =>
      claimDueScript codec db source variant field t limit
        (db.smembers moment.order (.state source))
  | .fetch workerId t candidates => fetchScript codec db workerId t candidates

namespace RedisStorage

/-- Read a stored text back as a job. -/
def parse (message : String) (blob : Blob) : Except StorageError Job :=
  if blob.readable then .ok blob.job else .error (.serialization message)

def get (jobId : String) : Prog Cmd (Except StorageError (Option Job)) := do
  match ← Prog.ask (.get jobId) with
  | some blob => return (parse "Failed to deserialize job" blob).map some
  | none => return .ok none

def updateJobIndices (job : Job) (oldState : Option JobState) : Prog Cmd Unit := do
  let state := stateToString job.state
  match oldState with
  | some oldState =>
    Prog.ask (.srem (.state (stateToString oldState)) job.id)
    Prog.ask (.hincrby (stateToString oldState) (-1))
  | none => pure ()
  Prog.ask (.sadd (.state state) job.id)
  Prog.ask (.sadd .all job.id)
  Prog.ask (.hincrby state 1)
  let now ← Prog.ask .now
  if isJobAvailable now job then do
    Prog.ask (.zadd .available job.id (score job))
    Prog.ask (.zadd (.byQueue job.queue) job.id (score job))
  else do
    Prog.ask (.zrem .available job.id)
    Prog.ask (.zrem (.byQueue job.queue) job.id)

/-- The five commands that take a job out of the indices, with the state and the
queue of the copy that was read. -/
def removal (jobId : String) (job : Job) : List (Cmd Unit) :=
  [.srem (.state (stateToString job.state)) jobId, .srem .all jobId, .zrem .available jobId,
    .zrem (.byQueue job.queue) jobId, .hincrby (stateToString job.state) (-1)]

/-- Make the commands one after the other. -/
def each : List (Cmd Unit) → Prog Cmd Unit
  | [] => pure ()
  | cmd :: cmds => do
    Prog.ask cmd
    each cmds

def removeJobIndices (jobId : String) (job : Job) : Prog Cmd Unit := each (removal jobId job)

def enqueue (codec : Codec) (job : Job) : Prog Cmd (Except StorageError Unit) := do
  Prog.ask (.set job.id (codec.serialize job))
  updateJobIndices job none
  return .ok ()

def update (job : Job) : Prog Cmd (Except StorageError Unit) := do
  let now ← Prog.ask .now
  match ← Prog.ask (.update job (stateToString job.state) (newScore now job)) with
  | .ok => return .ok ()
  | .missing => return .error (.jobNotFound job.id)
  | .mismatch => return .error (.operationFailed "Unexpected update response: mismatch")

def updateIfState (job : Job) (expected : JobStateKind) : Prog Cmd (Except StorageError Bool) := do
  let now ← Prog.ask .now
  match ← Prog.ask (.updateIfState job expected.name job.state.kind.name (newScore now job)) with
  | .ok => return .ok true
  | .mismatch => return .ok false
  | .missing => return .error (.jobNotFound job.id)

def delete (jobId : String) : Prog Cmd (Except StorageError Bool) := do
  match ← get jobId with
  | .error e => return .error e
  | .ok none => return .ok false
  | .ok (some job) => do
    let deleted ← Prog.ask (.del jobId)
    if deleted > 0 then do
      removeJobIndices jobId job
      return .ok true
    else return .ok false

def parseAll (message : String) : List Blob → Except StorageError (List Job)
  | [] => .ok []
  | blob :: blobs => do
    let job ← parse message blob
    let jobs ← parseAll message blobs
    return job :: jobs

def claimDueJobsLua (source variant field : String) (now : DateTime) (limit : UInt64) :
    Prog Cmd (Except StorageError (List Job)) :=
  if limit = 0 then pure (.ok [])
  else do
    let claimed ← Prog.ask (.claimDue source variant field now limit)
    return parseAll ("Failed to parse claimed " ++ source ++ " job") claimed

def claimDueScheduledJobs (now : DateTime) (limit : UInt64) :
    Prog Cmd (Except StorageError (List Job)) :=
  claimDueJobsLua "scheduled" "Scheduled" "enqueue_at" now limit

def claimDueRetryJobs (now : DateTime) (limit : UInt64) :
    Prog Cmd (Except StorageError (List Job)) :=
  claimDueJobsLua "awaiting_retry" "AwaitingRetry" "retry_at" now limit

def isExpired (now : DateTime) (job : Job) : Bool :=
  match job.expiresAt with
  | some ts => decide (ts < now)
  | none => false

/-- Delete the expired ones of the listed jobs, after `removed` others. -/
def sweep (now : DateTime) : List String → Nat → Prog Cmd (Except StorageError Nat)
  | [], removed => pure (.ok removed)
  | id :: ids, removed => do
    match ← Prog.ask (.get id) with
    | none => sweep now ids removed
    | some blob =>
      if blob.readable && isExpired now blob.job then do
        removeJobIndices id blob.job
        let _ ← Prog.ask (.del id)
        sweep now ids (removed + 1)
      else sweep now ids removed

def deleteExpiredJobs (now : DateTime) : Prog Cmd (Except StorageError Nat) := do
  let ids ← Prog.ask (.smembers .all)
  sweep now ids 0

/-- Put the listed jobs that are lost back to `Enqueued`, after `recovered`
others: the loop that both recovery sweeps share. -/
def recover (lost : JobState → Bool) : List String → Nat → Prog Cmd (Except StorageError Nat)
  | [], recovered => pure (.ok recovered)
  | id :: ids, recovered => do
    match ← get id with
    | .error e => return .error e
    | .ok none => recover lost ids recovered
    | .ok (some job) =>
      if lost job.state then do
        let now ← Prog.ask .now
        match ← update { job with state := .enqueued now job.queue } with
        | .error e => return .error e
        | .ok () => recover lost ids (recovered + 1)
      else recover lost ids recovered

def stale (staleBefore : DateTime) : JobState → Bool
  | .processing startedAt _ _ => decide (startedAt < staleBefore)
  | _ => false

def ownedBy (serverId : String) : JobState → Bool
  | .processing _ _ serverName => decide (serverName = serverId)
  | _ => false

def requeueStrandedJobs (staleBefore : DateTime) : Prog Cmd (Except StorageError Nat) := do
  let ids ← Prog.ask (.smembers (.state "processing"))
  recover (stale staleBefore) ids 0

def reclaimJobsFromServer (serverId : String) : Prog Cmd (Except StorageError Nat) := do
  let ids ← Prog.ask (.smembers (.state "processing"))
  recover (ownedBy serverId) ids 0

/-- The sorted sets a fetch looks into. -/
def candidateKeys : Option (List String) → List ZKey
  | some queues => if queues.isEmpty then [.available] else queues.map .byQueue
  | none => [.available]

def fetchAndLockJob (workerId : String) (queues : Option (List String)) :
    Prog Cmd (Except StorageError (Option Job)) := do
  let now ← Prog.ask .now
  match ← Prog.ask (.fetch workerId now (candidateKeys queues)) with
  | some blob => return (parse "Failed to parse job" blob).map some
  | none => return .ok none

/-- Up to `n` more claims, after the jobs claimed so far. -/
def fetchUpTo (workerId : String) (queues : Option (List String)) :
    Nat → List Job → Prog Cmd (Except StorageError (List Job))
  | 0, jobs => pure (.ok jobs)
  | n + 1, jobs => do
    match ← fetchAndLockJob workerId queues with
    | .error e => return .error e
    | .ok none => return .ok jobs
    | .ok (some job) => fetchUpTo workerId queues n (jobs ++ [job])

def fetchAvailableJobsAtomic (workerId : String) (limit : Option Nat)
    (queues : Option (List String)) : Prog Cmd (Except StorageError (List Job)) :=
  fetchUpTo workerId queues (min (limit.getD 10) 50) []

end RedisStorage

/-- The operations on jobs, with their arguments. -/
inductive Operation
  | enqueue (job : Job)
  | update (job : Job)
  | updateIfState (job : Job) (expected : JobStateKind)
  | delete (jobId : String)
  | claimDueScheduledJobs (now : DateTime) (limit : UInt64)
  | claimDueRetryJobs (now : DateTime) (limit : UInt64)
  | deleteExpiredJobs (now : DateTime)
  | requeueStrandedJobs (staleBefore : DateTime)
  | reclaimJobsFromServer (serverId : String)
  | fetchAndLockJob (workerId : String) (queues : Option (List String))
  | fetchAvailableJobsAtomic (workerId : String) (limit : Option Nat)
      (queues : Option (List String))

open RedisStorage in
/-- The method behind an operation, run for its effects. -/
def Operation.program (codec : Codec) : Operation → Prog Cmd Unit
  | .enqueue job => do let _ ← RedisStorage.enqueue codec job
  | .update job => do let _ ← RedisStorage.update job
  | .updateIfState job expected => do let _ ← RedisStorage.updateIfState job expected
  | .delete jobId => do let _ ← RedisStorage.delete jobId
  | .claimDueScheduledJobs now limit => do let _ ← RedisStorage.claimDueScheduledJobs now limit
  | .claimDueRetryJobs now limit => do let _ ← RedisStorage.claimDueRetryJobs now limit
  | .deleteExpiredJobs now => do let _ ← RedisStorage.deleteExpiredJobs now
  | .requeueStrandedJobs staleBefore => do
      let _ ← RedisStorage.requeueStrandedJobs staleBefore
  | .reclaimJobsFromServer serverId => do let _ ← RedisStorage.reclaimJobsFromServer serverId
  | .fetchAndLockJob workerId queues => do let _ ← RedisStorage.fetchAndLockJob workerId queues
  | .fetchAvailableJobsAtomic workerId limit queues => do
      let _ ← RedisStorage.fetchAvailableJobsAtomic workerId limit queues

/-- One operation that runs to completion with nothing else going on, and what
each of its commands reads from outside the database. -/
structure Turn where
  operation : Operation
  moments : Nat → Moment

/-- A turn in which every reading of the clock is the same. -/
def Turn.at (now : DateTime) (operation : Operation) : Turn := ⟨operation, fun _ => ⟨now, []⟩⟩

def Db.turn (codec : Codec) (db : Db) (turn : Turn) : Option Db :=
  ((turn.operation.program codec).alone
    (fun moment db _ cmd => some (cmd.perform codec moment db)) turn.moments db).map Prod.snd

end Qml
