import Qml.Server.Host

namespace Qml
open Lib

/-- A server, and the calls of `start` and `stop` that are made on it. -/
structure ServerSite where
  host : Host
  calls : List HostCall

namespace ServerSite

def new : ServerSite := ⟨.new, []⟩

/-- Make a call, let one go on, or drop one where it stands; a loop begins a round, ends one, or
is over; another server takes a row out of the registry. A heartbeat bumps its row at once, or
it reads it and writes it back, where anything may come in between. -/
inductive Event
  | start
  | stop
  | step (i : Nat) (draw : HostDraw)
  | drop (i : Nat)
  | begin (j : Nat)
  | rest (j : Nat)
  | finish (j : Nat)
  | reclaim (id : String)
  | beat (j : Nat) (now : DateTime)
  | readBeat (j : Nat) (now : DateTime)
  | writeBeat (k : Nat)

/-- A call that starts a program. -/
def enter (s : ServerSite) (program : Prog LifecycleCall (Except QmlError Unit)) : ServerSite :=
  { s with calls := s.calls ++ [⟨program, .outside, true⟩] }

/-- A dropped call leaves nothing locked. -/
def abandon (s : ServerSite) (i : Nat) (call : HostCall) : ServerSite where
  host := { s.host with writer := if s.host.writer = some i then none else s.host.writer }
  calls := s.calls.set i { call with alive := false }

def setTask (s : ServerSite) (j : Nat) (task : LoopTask) : ServerSite :=
  { s with host := { s.host with tasks := s.host.tasks.set j task } }

def next (config : StartConfig) (s : ServerSite) : Event → Option ServerSite
  | .start => some (s.enter (Lifecycle.start config))
  | .stop => some (s.enter Lifecycle.stop)
  | .step i draw =>
    match s.calls[i]? with
    | some ⟨.call op k, phase, true⟩ =>
      match s.host.perform draw i op with
      | some (reply, host) => some ⟨host, s.calls.set i ⟨k reply, phase.after op reply, true⟩⟩
      | none => none
    | _ => none
  | .drop i => (s.calls[i]?).map (s.abandon i)
  | .begin j =>
    match s.host.tasks[j]? with
    | some ⟨loop, token, .waiting, aborted⟩ =>
      if token ∈ s.host.cancelled then none
      else some (s.setTask j ⟨loop, token, .working, aborted⟩)
    | _ => none
  | .rest j =>
    match s.host.tasks[j]? with
    | some ⟨loop, token, .working, aborted⟩ =>
      some (s.setTask j ⟨loop, token, .waiting, aborted⟩)
    | _ => none
  | .finish j => (s.host.tasks[j]?).map fun task => s.setTask j { task with state := .ended }
  | .reclaim id => some { s with host := { s.host with registry := s.host.registry.erase id } }
  | .beat j now =>
    match s.host.tasks[j]? with
    | some ⟨.heartbeat id, _, .working, _⟩ => some { s with host := s.host.beat id now }
    | _ => none
  | .readBeat j now =>
    match s.host.tasks[j]? with
    | some ⟨.heartbeat id, _, .working, _⟩ => some { s with host := s.host.readBeat id now }
    | _ => none
  | .writeBeat k => (s.host.writeBeat k).map fun host => { s with host := host }

abbrev Next (config : StartConfig) (s : ServerSite) (e : Event) (t : ServerSite) : Prop :=
  s.next config e = some t

/-- What one step can be. -/
inductive Moves (s : ServerSite) : Event → ServerSite → Prop
  | entered {e : Event} {program : Prog LifecycleCall (Except QmlError Unit)}
      (hobeys : Lifecycle.Obeys program .outside) : Moves s e (s.enter program)
  | called {i : Nat} {draw : HostDraw} {call : HostCall} {ρ : Type} {op : LifecycleCall ρ}
      {k : ρ → Prog LifecycleCall (Except QmlError Unit)} {reply : ρ} {host : Host}
      (hcall : s.calls[i]? = some call) (halive : call.alive = true)
      (hprogram : call.program = .call op k)
      (hperform : s.host.perform draw i op = some (reply, host)) :
      Moves s (.step i draw) ⟨host, s.calls.set i
        { call with program := k reply, phase := call.phase.after op reply }⟩
  | dropped {i : Nat} {call : HostCall} (hcall : s.calls[i]? = some call) :
      Moves s (.drop i) (s.abandon i call)
  | began {j : Nat} {task : LoopTask} (htask : s.host.tasks[j]? = some task)
      (hstate : task.state = .waiting) (hlive : task.token ∉ s.host.cancelled) :
      Moves s (.begin j) (s.setTask j { task with state := .working })
  | rested {j : Nat} {task : LoopTask} (htask : s.host.tasks[j]? = some task)
      (hstate : task.state = .working) :
      Moves s (.rest j) (s.setTask j { task with state := .waiting })
  | finished {j : Nat} {task : LoopTask} (htask : s.host.tasks[j]? = some task) :
      Moves s (.finish j) (s.setTask j { task with state := .ended })
  | reclaimed (id : String) : Moves s (.reclaim id)
      { s with host := { s.host with registry := s.host.registry.erase id } }
  | beaten (j : Nat) (id : String) (now : DateTime) :
      Moves s (.beat j now) { s with host := s.host.beat id now }
  | beatRead (j : Nat) (id : String) (now : DateTime) :
      Moves s (.readBeat j now) { s with host := s.host.readBeat id now }
  | beatWritten {k : Nat} {row : String × ServerInfo} (hrow : s.host.beats[k]? = some row) :
      Moves s (.writeBeat k) { s with host := { s.host with
        registry := s.host.registry.insert row.1 row.2, beats := s.host.beats.eraseIdx k } }

variable {config : StartConfig} {s t : ServerSite} {e : Event}

theorem next_moves (h : Next config s e t) : Moves s e t := by
  cases e with
  | start =>
    cases h
    exact .entered (Lifecycle.start_obeys config)
  | stop =>
    cases h
    exact .entered Lifecycle.stop_obeys
  | step i draw =>
    simp only [Next, next] at h
    split at h
    · rename_i hcall
      split at h
      · rename_i hperform
        cases h
        exact .called hcall rfl rfl hperform
      · cases h
    · cases h
  | drop i =>
    obtain ⟨call, hcall, rfl⟩ := Option.map_eq_some_iff.mp h
    exact .dropped hcall
  | begin j =>
    simp only [Next, next] at h
    split at h
    · rename_i htask
      split at h
      · cases h
      · rename_i hlive
        cases h
        exact .began htask rfl hlive
    · cases h
  | rest j =>
    simp only [Next, next] at h
    split at h
    · rename_i htask
      cases h
      exact .rested htask rfl
    · cases h
  | finish j =>
    obtain ⟨task, htask, rfl⟩ := Option.map_eq_some_iff.mp h
    exact .finished htask
  | reclaim id =>
    cases h
    exact .reclaimed id
  | beat j now =>
    simp only [Next, next] at h
    split at h
    · cases h
      exact .beaten ..
    · cases h
  | readBeat j now =>
    simp only [Next, next] at h
    split at h
    · cases h
      exact .beatRead ..
    · cases h
  | writeBeat k =>
    simp only [Next, next, Host.writeBeat, Option.map_map] at h
    obtain ⟨row, hrow, rfl⟩ := Option.map_eq_some_iff.mp h
    exact .beatWritten hrow

end ServerSite
end Qml
