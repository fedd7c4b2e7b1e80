import Qml.Server.Orderly

namespace Qml
open Lib

namespace ServerSite

section
variable {config : StartConfig} {s t : ServerSite} {tr : List (Step ServerSite Event)}
  {phase : CallPhase}

theorem Orderly.next {e : Event} (hs : Sound s) (ho : Orderly tr s) (h : Next config s e t)
    (hquiet : s.disturbs e = false) : Orderly (tr ++ [⟨s, e, t⟩]) t := by
  cases next_moves h with
  | entered hobeys => exact ho.enter
  | called hcall halive hprogram hperform =>
    obtain ⟨hacts, -⟩ := hs.acts hcall hprogram hperform
    refine ho.called hs hcall hacts (quiet_of_disturbs hcall hprogram hquiet)
      fun hfault id hid => ?_
    rename_i call _ _ _ _ _
    obtain ⟨program, phase, alive⟩ := call
    cases hprogram
    simp only [faulted, hcall, hfault, hid, decide_true, Bool.and_self]
  | dropped hcall => cases hquiet
  | began htask hstate hlive =>
    exact ho.setTask htask fun h => by rw [hstate] at h; cases h
  | rested htask hstate => exact ho.setTask htask fun h => by rw [hstate] at h; cases h
  | finished htask => exact ho.setTask htask fun _ => rfl
  | reclaimed id => exact ho.reclaim rfl
  | beaten j id now => exact ho.beat id now
  | beatRead j id now => exact ho.readBeat id now
  | beatWritten hrow => exact ho.writeBeat hrow rfl rfl

theorem orderly_new : Orderly [] new where
  alive := fun i _ h => by simp [new] at h
  starting := fun _ _ _ ⟨i, _, h, _⟩ => by simp [new] at h
  stopping := fun _ ⟨i, _, h, _⟩ => by simp [new] at h
  idle := fun _ _ h => by cases h
  rows := fun _ _ h => by cases h
  tasks := fun j _ h => by simp [new, Host.new] at h
  listed := fun h => by cases h
  registered := fun _ _ ⟨i, _, h, _⟩ => by simp [new] at h

theorem orderly_run (hr : Run (Next config) new tr s)
    (hquiet : ∀ x ∈ tr, x.before.disturbs x.label = false) : Orderly tr s := by
  induction hr with
  | nil => exact orderly_new
  | snoc hr hnext ih =>
    have hlast := hquiet _ (List.mem_append_right _ (List.mem_singleton.mpr rfl))
    exact (ih fun x hx => hquiet x (List.mem_append_left _ hx)).next (sound_run hr) hnext hlast

/-- At rest no call is on its way. -/
theorem Sound.returned (hs : Sound s) (hrest : s.atRest = true) (hat : s.At phase) :
    phase = .returned := by
  obtain ⟨i, call, hcall, rfl⟩ := hat
  have hdone := List.all_eq_true.mp hrest call (List.mem_of_getElem? hcall)
  have hobeys := hs.obeys i call hcall
  obtain ⟨program, phase, alive⟩ := call
  cases program with
  | pure result => exact hobeys
  | call op k => cases hdone

/-- When all calls have returned, the loops that have not ended are those of the last `start` of
a server that is running, or their token is cancelled and a `stop` has given up on them. The
server is in the registry unless another one has taken it out, and no other row of its own is
there, except where a statement on it has failed or a heartbeat has brought it back. -/
theorem nothing_left_behind (hr : Run (Next config) new tr s)
    (hquiet : ∀ x ∈ tr, x.before.disturbs x.label = false) (hrest : s.atRest = true) :
    (∀ task ∈ s.host.tasks, task.state ≠ .ended →
      s.host.isRunning = true ∧ task.token = s.host.shutdownToken ∨
      task.token ∈ s.host.cancelled ∧ task.aborted = true) ∧
    (∀ id info, s.host.registry.get? id = some info →
      (s.host.isRunning = true ∧ s.host.serverId = some id) ∨
      ∃ x ∈ tr, faulted x id = true ∨ restored x id = true) ∧
    (s.host.isRunning = true → ∀ id, s.host.serverId = some id → Listed tr s id) := by
  have hs := sound_run hr
  have ho := orderly_run hr hquiet
  refine ⟨fun task htask hstate => ?_, fun id info hinfo => ?_, ho.listed⟩
  · obtain ⟨j, hj⟩ := List.getElem?_of_mem htask
    cases ho.tasks j task hj hstate with
    | kept hrunning htoken => exact .inl ⟨hrunning, htoken⟩
    | loose hrunning htoken => exact .inl ⟨hrunning, htoken⟩
    | winding hat hwinds =>
      rw [hs.returned hrest hat] at hwinds
      cases hwinds
    | draining hat => cases hs.returned hrest hat
    | aborted haborted =>
      by_cases hlive : task.token ∈ s.host.cancelled
      · exact .inr ⟨hlive, haborted⟩
      · exact .inl (hs.running hj hlive)
  · cases ho.rows id info hinfo with
    | faulted hx hfault => exact .inr ⟨_, hx, .inl hfault⟩
    | restored hx hback => exact .inr ⟨_, hx, .inr hback⟩
    | running hid =>
      cases hrunning : s.host.isRunning with
      | true => exact .inl ⟨rfl, hid⟩
      | false => cases hs.returned hrest (ho.idle hrunning id hid)
    | inHand hat hrow =>
      rw [hs.returned hrest hat] at hrow
      cases hrow

end

/-- A server is started. Its heartbeat reads its row, and a `stop` takes the row out, waits for
both loops and gives up on the worker. The heartbeat writes the row back, and the server is
started again. -/
def restarted : List Event :=
  [.start] ++ Event.steps 0 11 ++ [.begin 0, .begin 1, .readBeat 0 7, .stop] ++ Event.steps 1 5 ++
    [.writeBeat 0, .rest 0, .finish 0, .step 1 ⟨0, "1", .ok 0, none, true⟩] ++
    Event.steps 1 1 ++ [.start] ++ Event.steps 2 11

theorem nothing_left_behind_restarted : ∃ tr s, Run (Next single) new tr s ∧
    tr.length = restarted.length ∧
    (∀ task ∈ s.host.tasks, task.state ≠ .ended →
      s.host.isRunning = true ∧ task.token = s.host.shutdownToken ∨
      task.token ∈ s.host.cancelled ∧ task.aborted = true) ∧
    (∀ id info, s.host.registry.get? id = some info →
      (s.host.isRunning = true ∧ s.host.serverId = some id) ∨
      ∃ x ∈ tr, faulted x id = true ∨ restored x id = true) ∧
    (s.host.isRunning = true → ∀ id, s.host.serverId = some id → Listed tr s id) := by
  obtain ⟨s, hr⟩ := replay_run (next single) new restarted
  have hrest : s.atRest = true := by
    rw [hr.eq_last]
    decide +kernel
  exact ⟨_, s, hr, by decide +kernel, nothing_left_behind hr (by decide +kernel) hrest⟩

/-- The worker is left over, and so is the row that the heartbeat has brought back. -/
example : ((replay (next single) new restarted).getLast?.map fun x =>
    (x.after.host.tasks.map fun task => (decide (task.state = .ended), task.aborted),
      (x.after.host.registry.get? "qml-server#0").isSome)) =
    some ([(true, true), (false, true), (false, false), (false, false)], true) := by
  decide +kernel

/-- A `stop` that a `start` overtakes takes the new row out, and leaves the old one. -/
example : ((replay (next single) new overtaken).getLast?.map fun x =>
    (x.after.host.isRunning, (x.after.host.registry.get? "qml-server#2").isSome,
      (x.after.host.registry.get? "qml-server#0").isSome)) = some (true, false, true) := by
  decide +kernel

end ServerSite
end Qml
