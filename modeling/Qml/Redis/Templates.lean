import Qml.Lib.Run
import Qml.Recurring.Poller
import Qml.Recurring.Templates

namespace Qml
open Lib

/-- The keys of the recurring jobs: the templates, the index of their due dates
in milliseconds, and the claim keys, each with the time at which it expires. -/
structure RecurringKeys where
  rows : Templates
  index : Dict String Int
  claims : Dict String DateTime

/-- What the recurring-job methods ask of the server; and, so that a whole tick is
one program, the calls of the poller that concern other keys or none. -/
inductive RecurringCmd : Type → Type
  | now : RecurringCmd DateTime
  | newId : RecurringCmd String
  | enqueue (job : Job) : RecurringCmd (Except StorageError Unit)
  | zrangebyscoreLimit (max : Int) (count : Option Nat) : RecurringCmd (List String)
  | setNxEx60 (id : String) : RecurringCmd Bool
  | get (id : String) : RecurringCmd (Option RecurringJob)
  | set (r : RecurringJob) : RecurringCmd Unit
  | del (id : String) : RecurringCmd Bool
  | zadd (id : String) (score : Int) : RecurringCmd Unit
  | zrem (id : String) : RecurringCmd Unit

/-- What a command meets: the clocks of its client and of the server, a fresh
identifier, and the reply of the job storage. -/
structure Circumstances where
  now : DateTime
  server : DateTime
  newId : String
  enqueued : Except StorageError Unit

namespace RecurringKeys

def empty : RecurringKeys := ⟨.empty, .empty, .empty⟩

/-- The keys once these templates were upserted, one after the other. -/
def stored (templates : List RecurringJob) : RecurringKeys :=
  templates.foldl (fun keys r =>
    { keys with
      rows := keys.rows.upsert r
      index := keys.index.insert r.id r.nextRunAt.timestampMillis }) .empty

/-- A claim key exists until its time is past. -/
def claimed (keys : RecurringKeys) (id : String) (server : DateTime) : Bool :=
  (keys.claims.get? id).any fun expiry => decide (server ≤ expiry)

/-- Sorted sets are read from the lowest score up, and members of one score from
the first up. -/
def notAbove (a b : String × Int) : Prop := a.2 < b.2 ∨ a.2 = b.2 ∧ a.1 ≤ b.1

instance : DecidableRel notAbove := fun a b =>
  inferInstanceAs (Decidable (a.2 < b.2 ∨ a.2 = b.2 ∧ a.1 ≤ b.1))

/-- The members up to a score, lowest first. -/
def upTo (keys : RecurringKeys) (max : Int) : List String :=
  ((keys.index.entries.filter fun e => decide (e.2 ≤ max)).insertionSort notAbove).map Prod.fst

end RecurringKeys

/-- Carry out one command. -/
def RecurringCmd.perform (c : Circumstances) (keys : RecurringKeys) :
    RecurringCmd ρ → ρ × RecurringKeys
  | .now => (c.now, keys)
  | .newId => (c.newId, keys)
  | .enqueue _ => (c.enqueued, keys)
  | .zrangebyscoreLimit max count =>
    match count with
    | some n => ((keys.upTo max).take n, keys)
    | none => (keys.upTo max, keys)
  | .setNxEx60 id =>
    if keys.claimed id c.server then (false, keys)
    else (true, { keys with claims := keys.claims.insert id (c.server + Duration.seconds 60) })
  | .get id => (keys.rows.get? id, keys)
  | .set r => ((), { keys with rows := keys.rows.upsert r })
  | .del id =>
    let (removed, rows) := keys.rows.remove id
    (removed, { keys with rows := rows })
  | .zadd id score => ((), { keys with index := keys.index.insert id score })
  | .zrem id => ((), { keys with index := keys.index.erase id })

namespace RedisStorage

def upsertRecurringJob (r : RecurringJob) : Prog RecurringCmd Unit := do
  .ask (.set r)
  .ask (.zadd r.id r.nextRunAt.timestampMillis)

def removeRecurringJob (id : String) : Prog RecurringCmd Bool := do
  let removed ← .ask (.del id)
  .ask (.zrem id)
  return removed

/-- `limit as isize`: what does not fit is a negative count, which asks for all. -/
def countOf (limit : Nat) : Option Nat := if limit < 2 ^ 63 then some limit else none

/-- Try the candidates one after the other, after the templates `claimed`. -/
def claimDue (now : DateTime) (limit : Nat) (parkMs : Int) :
    List String → List RecurringJob → Prog RecurringCmd (List RecurringJob)
  | [], claimed => return claimed
  | id :: ids, claimed => do
    match ← .ask (.setNxEx60 id) with
    | false => claimDue now limit parkMs ids claimed
    | true =>
      match ← .ask (.get id) with
      | none => claimDue now limit parkMs ids claimed
      | some r =>
        if !r.enabled || decide (now < r.nextRunAt) then claimDue now limit parkMs ids claimed
        else do
          .ask (.zadd id parkMs)
          let claimed := claimed ++ [r]
          if claimed.length ≥ limit then return claimed
          else claimDue now limit parkMs ids claimed

def fetchDueRecurringJobs (now : DateTime) (limit : Nat) :
    Prog RecurringCmd (List RecurringJob) := do
  let ids ← .ask (.zrangebyscoreLimit now.timestampMillis (countOf limit))
  claimDue now limit (now + Templates.parking).timestampMillis ids []

/-- The commands that a call of the poller comes to. -/
def carry : RecurringCall ρ → Prog RecurringCmd ρ
  | .now => .ask .now
  | .newId => .ask .newId
  | .fetchDueRecurringJobs now limit => do
    let due ← fetchDueRecurringJobs now limit
    return .ok due
  | .enqueue job => .ask (.enqueue job)
  | .upsertRecurringJob r => do
    upsertRecurringJob r
    return .ok ()
  | .removeRecurringJob id => do
    let removed ← removeRecurringJob id
    return .ok removed

/-- Carry out a program that nothing interrupts. -/
def serve (program : Prog RecurringCmd α) (cs : Nat → Circumstances) (keys : RecurringKeys) :
    Option (α × RecurringKeys) :=
  program.alone (fun c keys {_} cmd => some (cmd.perform c keys)) cs keys

section
variable {α ρ : Type} {cmd : RecurringCmd ρ} {k : ρ → Prog RecurringCmd α} {a : α}
  {c : Circumstances} {cs : Nat → Circumstances} {keys : RecurringKeys} {id : String}
  {score : Int}

@[simp] theorem serve_pure : serve (.pure a) cs keys = some (a, keys) := rfl

theorem serve_call : serve (.call cmd k) cs keys =
    serve (k (cmd.perform (cs 0) keys).1) (fun n => cs (n + 1)) (cmd.perform (cs 0) keys).2 :=
  rfl

theorem perform_setNxEx60 : (RecurringCmd.setNxEx60 id).perform c keys =
    if keys.claimed id c.server then (false, keys)
    else (true, { keys with claims := keys.claims.insert id (c.server + Duration.seconds 60) }) :=
  rfl

theorem perform_get : (RecurringCmd.get id).perform c keys = (keys.rows.get? id, keys) := rfl

theorem perform_zadd : (RecurringCmd.zadd id score).perform c keys =
    ((), { keys with index := keys.index.insert id score }) :=
  rfl

end

end RedisStorage
end Qml
