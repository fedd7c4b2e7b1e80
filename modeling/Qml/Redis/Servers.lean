import Qml.Lib.Pool
import Qml.Lib.Prog
import Qml.Lib.Run
import Qml.Memory.Storage

namespace Qml
open Lib

/-- The keys of the server registry: the entries and the set of their identifiers. -/
structure ServerKeys where
  entries : Dict String ServerInfo
  index : Dict String Unit

/-- The commands that the methods of the registry send. -/
inductive ServerCmd : Type → Type
  | get (id : String) : ServerCmd (Option ServerInfo)
  | set (id : String) (info : ServerInfo) : ServerCmd Unit
  | del (id : String) : ServerCmd Bool
  | sadd (id : String) : ServerCmd Unit
  | srem (id : String) : ServerCmd Unit
  | smembers : ServerCmd (List String)

/-- Carry out one command. The members of a set come in no particular order. -/
def ServerCmd.perform (order : List String) (keys : ServerKeys) : ServerCmd ρ → ρ × ServerKeys
  | .get id => (keys.entries.get? id, keys)
  | .set id info => ((), { keys with entries := keys.entries.insert id info })
  | .del id => (keys.entries.contains id, { keys with entries := keys.entries.erase id })
  | .sadd id => ((), { keys with index := keys.index.insert id () })
  | .srem id => ((), { keys with index := keys.index.erase id })
  | .smembers => ((keys.index.reorder order).keys, keys)

namespace RedisStorage

def registerServer (info : ServerInfo) : Prog ServerCmd Unit := do
  .ask (.set info.serverId info)
  .ask (.sadd info.serverId)

def heartbeatServer (serverId : String) (now : DateTime) : Prog ServerCmd Bool := do
  match ← .ask (.get serverId) with
  | none => return false
  | some info =>
    .ask (.set serverId { info with lastHeartbeat := now })
    return true

def deregisterServer (serverId : String) : Prog ServerCmd Bool := do
  let deleted ← .ask (.del serverId)
  .ask (.srem serverId)
  return deleted

/-- Look at the listed servers, after `dead`. An identifier without an entry is
dropped from the set. -/
def deadAmong (staleBefore : DateTime) :
    List String → List ServerInfo → Prog ServerCmd (List ServerInfo)
  | [], dead => return dead
  | id :: ids, dead => do
    match ← .ask (.get id) with
    | none =>
      .ask (.srem id)
      deadAmong staleBefore ids dead
    | some info =>
      if info.lastHeartbeat < staleBefore then deadAmong staleBefore ids (dead ++ [info])
      else deadAmong staleBefore ids dead

def listDeadServers (staleBefore : DateTime) : Prog ServerCmd (List ServerInfo) := do
  let ids ← .ask .smembers
  deadAmong staleBefore ids []

/-- The methods of the registry. -/
inductive Registration
  | register (info : ServerInfo)
  | heartbeat (serverId : String) (now : DateTime)
  | deregister (serverId : String)
  | listDead (staleBefore : DateTime)

/-- A method, run for its effects. -/
def Registration.program : Registration → Prog ServerCmd Unit
  | .register info => registerServer info
  | .heartbeat serverId now => do
    let _ ← heartbeatServer serverId now
  | .deregister serverId => do
    let _ ← deregisterServer serverId
  | .listDead staleBefore => do
    let _ ← listDeadServers staleBefore

def Registration.registers : Registration → Bool
  | .register _ => true
  | _ => false

/-- The identifier that a call has stored an entry for and not yet added to the set,
once it has made a command. Bookkeeping for the proofs. -/
def Registration.owes (method : Registration) (owed : Option String) :
    {ρ : Type} → ServerCmd ρ → Option String
  | _, .set id _ => if method.registers then some id else owed
  | _, .sadd _ => none
  | _, _ => owed

/-- A call of a method in flight: what is left of its program. -/
structure Registrar where
  method : Registration
  program : Prog ServerCmd Unit
  owed : Option String

/-- Any number of calls in flight over one registry. -/
structure Registry where
  keys : ServerKeys
  calls : List Registrar

namespace Registry

def idle (keys : ServerKeys) : Registry := ⟨keys, []⟩

/-- Call a method, or carry out the next command of a call. Commands are atomic;
their order is arbitrary. -/
inductive Event
  | call (method : Registration)
  | step (i : Nat) (order : List String)

def next (s : Registry) : Event → Option Registry
  | .call method => some { s with calls := s.calls ++ [⟨method, method.program, none⟩] }
  | .step i order =>
    match s.calls[i]? with
    | some ⟨method, .call cmd k, owed⟩ =>
      let (reply, keys) := cmd.perform order s.keys
      some ⟨keys, s.calls.set i ⟨method, k reply, method.owes owed cmd⟩⟩
    | _ => none

abbrev Next (s : Registry) (e : Event) (t : Registry) : Prop := s.next e = some t

/-- No call is in flight. -/
def quiet (s : Registry) : Bool :=
  s.calls.all fun call =>
    match call.program with
    | .pure _ => true
    | .call .. => false

/-- The identifier is in the set, or a registration is about to add it. -/
def covers (s : Registry) (id : String) : Bool :=
  s.keys.index.contains id || s.calls.any fun call => decide (call.owed = some id)

/-- Whether a step keeps entry and set together: a heartbeat writes no entry back
whose identifier is gone from the set, and nobody drops the identifier of an entry. -/
def keepsTogether (s : Registry) : Event → Bool
  | .call _ => true
  | .step i _ =>
    match s.calls[i]? with
    | some ⟨method, .call (.set id _) _, _⟩ => method.registers || s.covers id
    | some ⟨_, .call (.srem id) _, _⟩ =>
      !s.keys.entries.contains id || s.calls.any fun call => decide (call.owed = some id)
    | _ => true

/-- Every stored entry is in the set. -/
def Indexed (s : Registry) : Prop :=
  ∀ id, s.keys.entries.contains id = true → s.keys.index.contains id = true

end Registry

/-- What a call may send, given the identifier it owes: it stores an entry only when
it owes none, and adds only what it owes. -/
def Owing (owed : Option String) : {ρ : Type} → ServerCmd ρ → Prop
  | _, .set .. => owed = none
  | _, .sadd id => owed = some id
  | _, _ => True

/-- The order of commands that a method keeps to. -/
def Registration.order (method : Registration) : Contract ServerCmd (Option String) where
  may owed _ cmd := Owing owed cmd
  step owed _ cmd _ owed' := owed' = method.owes owed cmd

/-- Programs that keep to it and end owing nothing. -/
def Settles (method : Registration) (program : Prog ServerCmd α) (owed : Option String) : Prop :=
  Prog.wp method.order (fun _ owed => owed = none) program owed

theorem Settles.ask {method : Registration} {owed : Option String} {cmd : ServerCmd α}
    {next : α → Prog ServerCmd β} (hcmd : Owing owed cmd)
    (hn : ∀ a, Settles method (next a) (method.owes owed cmd)) :
    Settles method (Prog.ask cmd >>= next) owed := by
  refine ⟨hcmd, ?_⟩
  rintro a _ rfl
  exact hn a

theorem Settles.bind {method : Registration} {owed : Option String} {program : Prog ServerCmd α}
    {next : α → Prog ServerCmd β} (hp : Settles method program owed)
    (hn : ∀ a, Settles method (next a) none) : Settles method (program >>= next) owed := by
  refine (Prog.wp_bind ..).mpr (Prog.wp_mono ?_ hp)
  rintro a _ rfl
  exact hn a

theorem deadAmong_settles {staleBefore t : DateTime} {ids : List String}
    {dead : List ServerInfo} :
    Settles (.listDead staleBefore) (deadAmong t ids dead) none := by
  induction ids generalizing dead with
  | nil => exact rfl
  | cons id ids ih =>
    refine Settles.ask trivial fun found => ?_
    cases found with
    | none => exact Settles.ask trivial fun _ => ih
    | some info =>
      dsimp only
      split <;> exact ih

/-- Every method keeps to the order. -/
theorem Registration.settles (method : Registration) : Settles method method.program none := by
  cases method with
  | register info => exact Settles.ask rfl fun _ => ⟨rfl, fun _ _ h => h⟩
  | heartbeat serverId clock =>
    refine Settles.ask trivial fun found => ?_
    cases found with
    | none => exact rfl
    | some info => exact Settles.ask rfl fun _ => rfl
  | deregister serverId => exact Settles.ask trivial fun _ => Settles.ask trivial fun _ => rfl
  | listDead staleBefore =>
    have hlist : Settles (.listDead staleBefore) (listDeadServers staleBefore) none :=
      Settles.ask trivial fun ids => deadAmong_settles
    exact hlist.bind fun _ => rfl

namespace Registry
variable {s t : Registry} {e : Event} {tr : List (Step Registry Event)}

/-- Every call is somewhere inside its method, and every entry is covered. -/
structure Covered (s : Registry) : Prop where
  calls : ∀ (i : Nat) (call : Registrar), s.calls[i]? = some call →
    Settles call.method call.program call.owed
  entries : ∀ id, s.keys.entries.contains id = true → s.covers id = true

theorem covers_iff {id : String} : s.covers id = true ↔
    s.keys.index.contains id = true ∨ ∃ call ∈ s.calls, call.owed = some id := by
  simp [covers]

/-- Who owes an identifier still does after a step, unless it is the one that moved. -/
theorem owing_set {i : Nat} {old new : Registrar} {id : String} (hold : s.calls[i]? = some old)
    (hkeep : old.owed = some id → new.owed = some id)
    (h : ∃ call ∈ s.calls, call.owed = some id) :
    ∃ call ∈ s.calls.set i new, call.owed = some id := by
  obtain ⟨call, hcall, howed⟩ := h
  obtain ⟨j, hj⟩ := List.mem_iff_getElem?.mp hcall
  by_cases hij : i = j
  · subst hij
    cases hold.symm.trans hj
    obtain ⟨hi, -⟩ := List.getElem?_eq_some_iff.mp hold
    exact ⟨new, List.mem_set hi .., hkeep howed⟩
  · refine ⟨call, List.mem_of_getElem? (i := j) ?_, howed⟩
    rw [List.getElem?_set_ne hij, hj]

theorem Covered.next (h : s.Covered) (hnext : Next s e t) (hkeeps : s.keepsTogether e = true) :
    t.Covered := by
  cases e with
  | call method =>
    cases hnext
    refine ⟨fun i call hi => ?_, fun id hid => ?_⟩
    · rcases join_cases hi with ⟨-, rfl⟩ | hi
      · exact method.settles
      · exact h.calls i call hi
    · rcases covers_iff.mp (h.entries id hid) with hmem | ⟨call, hcall, howed⟩
      · exact covers_iff.mpr (.inl hmem)
      · exact covers_iff.mpr (.inr ⟨call, List.mem_append_left _ hcall, howed⟩)
  | step i order =>
    simp only [Next, next] at hnext
    split at hnext
    · rename_i method ρ cmd k owed hcall
      cases hnext
      have hsettles := h.calls i _ hcall
      refine ⟨fun j call hj => ?_, fun id hid => ?_⟩
      · rcases set_cases hj with ⟨-, rfl⟩ | ⟨-, hj⟩
        · exact hsettles.2 _ _ rfl
        · exact h.calls j call hj
      · rw [covers_iff]
        have hbefore := fun id hid => covers_iff.mp (h.entries id hid)
        simp only [keepsTogether, hcall] at hkeeps
        cases cmd with
        | get | smembers => exact (hbefore id hid).imp_right (owing_set hcall fun h => h)
        | del id' =>
          simp only [ServerCmd.perform, Dict.contains_erase, Bool.and_eq_true] at hid
          exact (hbefore id hid.2).imp_right (owing_set hcall fun h => h)
        | set id' info =>
          have hnone : owed = none := hsettles.1
          subst hnone
          simp only [ServerCmd.perform, Dict.contains_insert, Bool.or_eq_true,
            decide_eq_true_eq] at hid
          rcases hid with rfl | hid
          · cases hregisters : method.registers with
            | true =>
              obtain ⟨hi, -⟩ := List.getElem?_eq_some_iff.mp hcall
              exact .inr ⟨_, List.mem_set hi .., by simp [Registration.owes, hregisters]⟩
            | false =>
              simp only [hregisters, Bool.false_or] at hkeeps
              exact (covers_iff.mp hkeeps).imp_right (owing_set hcall fun h => by cases h)
          · exact (hbefore id hid).imp_right (owing_set hcall fun h => by cases h)
        | sadd id' =>
          have howed : owed = some id' := hsettles.1
          simp only [ServerCmd.perform, Dict.contains_insert, Bool.or_eq_true, decide_eq_true_eq]
          by_cases hsame : id = id'
          · exact .inl (.inl hsame)
          · refine (hbefore id hid).imp .inr (owing_set hcall fun h => ?_)
            exact absurd (Option.some.inj (howed.symm.trans h)).symm hsame
        | srem id' =>
          simp only [ServerCmd.perform, Dict.contains_erase, Bool.and_eq_true] at hid ⊢
          by_cases hsame : id = id'
          · subst hsame
            simp only [hid, Bool.not_true, Bool.false_or, List.any_eq_true,
              decide_eq_true_eq] at hkeeps
            exact .inr (owing_set hcall (fun h => h) hkeeps)
          · exact (hbefore id hid).imp (fun h => ⟨by simpa using hsame, h⟩)
              (owing_set hcall fun h => h)
    · cases hnext

theorem covered_run {keys : ServerKeys} (hkeys : (idle keys).Indexed)
    (hr : Run Next (idle keys) tr s)
    (hkeeps : ∀ x ∈ tr, x.before.keepsTogether x.label = true) : s.Covered := by
  refine hr.stable Covered ⟨fun i call h => (by cases h), fun id hid => ?_⟩ fun x hx hbefore => ?_
  · exact covers_iff.mpr (.inl (hkeys id hid))
  · obtain ⟨_, -, -, hnext⟩ := hr.of_mem hx
    exact hbefore.next hnext (hkeeps x hx)

/-- As long as no heartbeat writes a removed entry back, and nobody drops the
identifier of a server that registered again, every entry is in the set whenever
no call is in flight. -/
theorem registry_indexed {keys : ServerKeys} (hkeys : (idle keys).Indexed)
    (hr : Run Next (idle keys) tr s)
    (hkeeps : ∀ x ∈ tr, x.before.keepsTogether x.label = true) (hquiet : s.quiet = true) :
    s.Indexed := by
  have hcovered := covered_run hkeys hr hkeeps
  intro id hid
  refine (covers_iff.mp (hcovered.entries id hid)).resolve_right ?_
  rintro ⟨call, hcall, howed⟩
  obtain ⟨i, hi⟩ := List.mem_iff_getElem?.mp hcall
  have hsettles := hcovered.calls i call hi
  have hdone := List.all_eq_true.mp hquiet call hcall
  split at hdone
  · rename_i hprogram
    rw [Settles, hprogram] at hsettles
    cases hsettles.symm.trans howed
  · cases hdone

/-- A server, at noon. -/
def serverA : ServerInfo := ⟨"a#1", "a", 0, 0, 5, ["default"]⟩

/-- Two heartbeats and a scan over a server that registers. -/
def beating : List Event :=
  [.call (.register serverA), .call (.listDead 1), .call (.heartbeat "a#1" 10),
    .step 0 [], .step 2 [], .step 1 [], .step 2 [], .step 0 [], .call (.heartbeat "a#1" 20),
    .step 3 [], .step 3 []]

theorem registry_indexed_beating : ∃ tr s, Run Next (idle ⟨.empty, .empty⟩) tr s ∧
    s.keys.entries.contains "a#1" = true ∧ s.Indexed := by
  obtain ⟨s, hr⟩ := replay_run next (idle ⟨.empty, .empty⟩) beating
  have hquiet : s.quiet = true := by
    rw [hr.eq_last]
    decide +kernel
  have hempty : (idle ⟨.empty, .empty⟩).Indexed := fun id h => by simp [idle] at h
  refine ⟨_, s, hr, ?_, registry_indexed hempty hr (by decide +kernel) hquiet⟩
  rw [hr.eq_last]
  decide +kernel

/-- A server is deregistered between the two commands of its heartbeat. -/
def writtenBack : List Event :=
  [.call (.register serverA), .step 0 [], .step 0 [], .call (.heartbeat "a#1" 10), .step 1 [],
    .call (.deregister "a#1"), .step 2 [], .step 2 [], .step 1 []]

/-- The heartbeat writes the entry back, and no scan will ever see it. -/
theorem heartbeat_hides_server : ∃ tr s, Run Next (idle ⟨.empty, .empty⟩) tr s ∧
    s.quiet = true ∧ ¬ s.Indexed := by
  obtain ⟨s, hr⟩ := replay_run next (idle ⟨.empty, .empty⟩) writtenBack
  have hstate : s.quiet = true ∧ s.keys.entries.contains "a#1" = true ∧
      s.keys.index.contains "a#1" = false := by
    rw [hr.eq_last]
    decide +kernel
  refine ⟨_, s, hr, hstate.1, fun h => ?_⟩
  rw [h "a#1" hstate.2.1] at hstate
  cases hstate.2.2

end Registry
end RedisStorage
end Qml
