import Qml.Lib.Pool
import Qml.Lib.Run
import Qml.Redis.Effects

namespace Qml
open Lib RedisStorage

/-- How far a client is with a deletion: not at one; with the copy of a blob it
has just read; past the `DEL` of `delete`, or past the first removal of
`delete_expired_jobs`, with the number of removals made. Bookkeeping for the
proofs, computed from the commands a client makes. -/
inductive Stage
  | idle
  | read (id : String) (job : Job)
  | erased (id : String) (job : Job) (made : Nat)
  | sweeping (id : String) (job : Job) (made : Nat)

namespace Stage

/-- The identifier a client is removing from the indices. -/
def window : Stage → Option String
  | .erased id _ _ | .sweeping id _ _ => some id
  | _ => none

def removed : Stage → Stage
  | .idle => .idle
  | .read id job => .sweeping id job 1
  | .erased id job made => if made = 4 then .idle else .erased id job (made + 1)
  | .sweeping id job made => .sweeping id job (made + 1)

def deleted (n : Nat) : Stage → Stage
  | .read id job => if n > 0 then .erased id job 0 else .idle
  | _ => .idle

def after (stage : Stage) : {ρ : Type} → Cmd ρ → ρ → Stage
  | _, .get id, some blob => .read id blob.job
  | _, .get _, none => .idle
  | _, .del _, n => stage.deleted n
  | _, .srem .., _ | _, .zrem .., _ | _, .hincrby .., _ => stage.removed
  | _, _, _ => stage

end Stage

/-- An operation in flight: what is left of its program. -/
structure Client where
  operation : Operation
  program : Prog Cmd Unit
  stage : Stage

def Operation.client (codec : Codec) (operation : Operation) : Client :=
  ⟨operation, operation.program codec, .idle⟩

/-- The client after its next command, with the database as that leaves it. -/
def Client.advance (codec : Codec) (moment : Moment) (db : Db) (client : Client) :
    Option (Client × Db) :=
  match client.program with
  | .pure () => none
  | .call cmd k =>
    let (reply, db) := cmd.perform codec moment db
    some ({ client with program := k reply, stage := client.stage.after cmd reply }, db)

def Client.finished (client : Client) : Bool :=
  match client.program with
  | .pure _ => true
  | .call .. => false

/-- Any number of operations in flight over one database. -/
structure Traffic where
  db : Db
  clients : List Client

namespace Traffic

/-- A client calls an operation, or one of the clients has its next command
carried out. Commands and scripts are atomic; their order is arbitrary. -/
inductive Event
  | start (operation : Operation)
  | step (i : Nat) (moment : Moment)

def idle (db : Db) : Traffic := ⟨db, []⟩

def next (codec : Codec) (s : Traffic) : Event → Option Traffic
  | .start operation => some { s with clients := s.clients ++ [operation.client codec] }
  | .step i moment =>
    match s.clients[i]? with
    | some client =>
      (client.advance codec moment s.db).map fun (client, db) => ⟨db, s.clients.set i client⟩
    | none => none

abbrev Next (codec : Codec) (s : Traffic) (e : Event) (t : Traffic) : Prop :=
  s.next codec e = some t

/-- No operation is in flight. -/
def quiet (s : Traffic) : Bool := s.clients.all Client.finished

/-- The command that client `i` makes next. -/
def Sends (s : Traffic) (i : Nat) (client : Client) {ρ : Type} (cmd : Cmd ρ) : Prop :=
  s.clients[i]? = some client ∧ ∃ k, client.program = .call cmd k

/-- What one step of the traffic can be. -/
inductive Moves (codec : Codec) (s : Traffic) : Event → Traffic → Prop
  | started (operation : Operation) :
      Moves codec s (.start operation) { s with clients := s.clients ++ [operation.client codec] }
  | sent {i : Nat} {moment : Moment} {client : Client} {ρ : Type} {cmd : Cmd ρ}
      {k : ρ → Prog Cmd Unit} {reply : ρ} {db : Db} (hclient : s.clients[i]? = some client)
      (hprogram : client.program = .call cmd k)
      (hcmd : cmd.perform codec moment s.db = (reply, db)) :
      Moves codec s (.step i moment) ⟨db, s.clients.set i
        { client with program := k reply, stage := client.stage.after cmd reply }⟩

variable {codec : Codec} {s t : Traffic} {e : Event}

theorem next_moves (h : Next codec s e t) : Moves codec s e t := by
  cases e with
  | start operation =>
    cases h
    exact .started operation
  | step i moment =>
    simp only [Next, next] at h
    split at h
    · rename_i client hclient
      obtain ⟨⟨client', db⟩, hadvance, rfl⟩ := Option.map_eq_some_iff.mp h
      unfold Client.advance at hadvance
      split at hadvance
      · cases hadvance
      · rename_i cmd k hprogram
        cases hadvance
        exact .sent hclient hprogram rfl
    · cases h

end Traffic
end Qml
