import Mathlib.Algebra.Order.Ring.Rat
import Mathlib.Data.String.Basic
import Qml.Core.Job
import Qml.Lib.First

namespace Qml
open Lib

/-- The text stored under a job key: the job it encodes, and whether the
library can read it back. -/
structure Blob where
  job : Job
  readable : Bool

/-- The two encoders of jobs, which are not part of the source. What the library
writes is the job; what a script writes back after decoding may differ in the
payload and the timeout, whose numbers and empty lists it does not keep. -/
structure Codec where
  serialize : Job → Blob
  recode : Job → Blob
  serialize_job : ∀ job, (serialize job).job = job
  recode_job : ∀ job, job.state.isFinal = false → ∃ payload timeoutSeconds,
    (recode job).job = { job with payload := payload, timeoutSeconds := timeoutSeconds }

/-- The encoders on jobs that lose nothing. -/
def Codec.lossless : Codec where
  serialize job := ⟨job, true⟩
  recode job := ⟨job, true⟩
  serialize_job _ := rfl
  recode_job job _ := ⟨job.payload, job.timeoutSeconds, rfl⟩

/-- The keys of the sets of identifiers. -/
inductive SetKey
  | state (name : String)
  | all
  deriving DecidableEq

/-- The keys of the sorted sets of identifiers that may be handed out. -/
inductive ZKey
  | available
  | byQueue (queue : String)
  deriving DecidableEq

/-- The part of the database that the job operations use. The keys of one kind
are told apart by their last component, those of different kinds by their name. -/
structure Db where
  jobs : Dict String Blob
  sets : SetKey → Dict String Unit
  zsets : ZKey → Dict String ℚ
  counts : String → Int

namespace Db

def empty : Db := ⟨.empty, fun _ => .empty, fun _ => .empty, fun _ => 0⟩

def get (db : Db) (id : String) : Option Blob := db.jobs.get? id

def set (db : Db) (id : String) (blob : Blob) : Db := { db with jobs := db.jobs.insert id blob }

def del (db : Db) (id : String) : Db := { db with jobs := db.jobs.erase id }

def sadd (db : Db) (key : SetKey) (id : String) : Db :=
  { db with sets := Function.update db.sets key ((db.sets key).insert id ()) }

def srem (db : Db) (key : SetKey) (id : String) : Db :=
  { db with sets := Function.update db.sets key ((db.sets key).erase id) }

def zadd (db : Db) (key : ZKey) (id : String) (score : ℚ) : Db :=
  { db with zsets := Function.update db.zsets key ((db.zsets key).insert id score) }

def zrem (db : Db) (key : ZKey) (id : String) : Db :=
  { db with zsets := Function.update db.zsets key ((db.zsets key).erase id) }

def hincrby (db : Db) (field : String) (delta : Int) : Db :=
  { db with counts := Function.update db.counts field (db.counts field + delta) }

/-- Sorted sets are read from the highest score down, and members of one score
from the last down. -/
def notBelow (a b : String × ℚ) : Prop := b.2 < a.2 ∨ a.2 = b.2 ∧ b.1 ≤ a.1

instance : DecidableRel notBelow := fun a b =>
  inferInstanceAs (Decidable (b.2 < a.2 ∨ a.2 = b.2 ∧ b.1 ≤ a.1))

/-- `ZREVRANGE key 0 0 WITHSCORES`. -/
def top (db : Db) (key : ZKey) : Option (String × ℚ) := first notBelow (db.zsets key).entries

def mem (db : Db) (key : SetKey) (id : String) : Bool := (db.sets key).contains id

def score (db : Db) (key : ZKey) (id : String) : Option ℚ := (db.zsets key).get? id

def count (db : Db) (field : String) : Int := db.counts field

section
variable {db : Db} {id id' : String} {key key' : SetKey} {zkey zkey' : ZKey} {blob : Blob}
  {x : ℚ} {field field' : String} {delta : Int}

@[simp] theorem get_empty : empty.get id = none := rfl
@[simp] theorem mem_empty : empty.mem key id = false := rfl
@[simp] theorem score_empty : empty.score zkey id = none := rfl
@[simp] theorem count_empty : empty.count field = 0 := rfl

@[simp] theorem get_set : (db.set id' blob).get id = if id = id' then some blob else db.get id :=
  Dict.get?_insert ..
@[simp] theorem mem_set : (db.set id' blob).mem key id = db.mem key id := rfl
@[simp] theorem score_set : (db.set id' blob).score zkey id = db.score zkey id := rfl
@[simp] theorem count_set : (db.set id' blob).count field = db.count field := rfl

@[simp] theorem get_del : (db.del id').get id = if id = id' then none else db.get id :=
  Dict.get?_erase ..
@[simp] theorem mem_del : (db.del id').mem key id = db.mem key id := rfl
@[simp] theorem score_del : (db.del id').score zkey id = db.score zkey id := rfl
@[simp] theorem count_del : (db.del id').count field = db.count field := rfl

@[simp] theorem get_sadd : (db.sadd key' id').get id = db.get id := rfl
@[simp] theorem score_sadd : (db.sadd key' id').score zkey id = db.score zkey id := rfl
@[simp] theorem count_sadd : (db.sadd key' id').count field = db.count field := rfl

@[simp] theorem mem_sadd : (db.sadd key' id').mem key id =
    (decide (key = key' ∧ id = id') || db.mem key id) := by
  by_cases h : key = key' <;> simp [sadd, mem, h]

@[simp] theorem get_srem : (db.srem key' id').get id = db.get id := rfl
@[simp] theorem score_srem : (db.srem key' id').score zkey id = db.score zkey id := rfl
@[simp] theorem count_srem : (db.srem key' id').count field = db.count field := rfl

@[simp] theorem mem_srem : (db.srem key' id').mem key id =
    (!decide (key = key' ∧ id = id') && db.mem key id) := by
  by_cases h : key = key' <;> simp [srem, mem, h]

@[simp] theorem get_zadd : (db.zadd zkey' id' x).get id = db.get id := rfl
@[simp] theorem mem_zadd : (db.zadd zkey' id' x).mem key id = db.mem key id := rfl
@[simp] theorem count_zadd : (db.zadd zkey' id' x).count field = db.count field := rfl

@[simp] theorem score_zadd : (db.zadd zkey' id' x).score zkey id =
    if zkey = zkey' ∧ id = id' then some x else db.score zkey id := by
  by_cases h : zkey = zkey' <;> simp [zadd, score, h]

@[simp] theorem get_zrem : (db.zrem zkey' id').get id = db.get id := rfl
@[simp] theorem mem_zrem : (db.zrem zkey' id').mem key id = db.mem key id := rfl
@[simp] theorem count_zrem : (db.zrem zkey' id').count field = db.count field := rfl

@[simp] theorem score_zrem : (db.zrem zkey' id').score zkey id =
    if zkey = zkey' ∧ id = id' then none else db.score zkey id := by
  by_cases h : zkey = zkey' <;> simp [zrem, score, h]

@[simp] theorem get_hincrby : (db.hincrby field' delta).get id = db.get id := rfl
@[simp] theorem mem_hincrby : (db.hincrby field' delta).mem key id = db.mem key id := rfl
@[simp] theorem score_hincrby : (db.hincrby field' delta).score zkey id = db.score zkey id := rfl

@[simp] theorem count_hincrby : (db.hincrby field' delta).count field =
    db.count field + if field = field' then delta else 0 := by
  by_cases h : field = field' <;> simp [hincrby, count, h]

instance : Std.Total notBelow := ⟨fun a b => by
  rcases lt_trichotomy a.2 b.2 with h | h | h
  · exact .inr (.inl h)
  · rcases le_total a.1 b.1 with h' | h'
    · exact .inr (.inr ⟨h.symm, h'⟩)
    · exact .inl (.inr ⟨h, h'⟩)
  · exact .inl (.inl h)⟩

instance : IsTrans (String × ℚ) notBelow := ⟨fun a b c hab hbc => by
  rcases hab with hab | ⟨hab, hab'⟩
  · rcases hbc with hbc | ⟨hbc, -⟩
    · exact .inl (hbc.trans hab)
    · exact .inl (hbc ▸ hab)
  · rcases hbc with hbc | ⟨hbc, hbc'⟩
    · exact .inl (hab ▸ hbc)
    · exact .inr ⟨hab.trans hbc, hbc'.trans hab'⟩⟩

end
end Db
end Qml
