import Qml.Server.Generations

namespace Qml
open Lib

namespace ServerSite

/-- Whether an id is that of the server, or of a row that a `stop` is about to take out. -/
def named (s : ServerSite) (id : String) : Bool :=
  decide (s.host.serverId = some id) || s.calls.any fun call => decide (call.phase.row = some id)

/-- What two calls must not do at the same time: a `start` must not publish while a `stop` that
has taken effect has not taken over the handles, a `stop` must not take effect while a `start`
spawns, and no call may be dropped. Nor may a `start` draw an id that is in use. -/
def disturbs (s : ServerSite) : Event → Bool
  | .drop _ => true
  | .step i _ =>
    match s.calls[i]? with
    | some ⟨.call (.publish _) _, _, _⟩ => s.calls.any fun call => call.phase.winds
    | some ⟨.call .shutDown _, _, _⟩ => s.calls.any fun call => call.phase.spawns
    | some ⟨.call (.registerServer info) _, _, _⟩ => s.named info.serverId
    | _ => false
  | _ => false

/-- The row that a statement of a call is about. -/
def target : {ρ : Type} → LifecycleCall ρ → Option String
  | _, .registerServer info => some info.serverId
  | _, .deregisterServer id => some id
  | _, _ => none

/-- Whether the statement on a row of the registry meets a fault in a step. -/
def faulted (x : Step ServerSite Event) (id : String) : Bool :=
  match x.label with
  | .step i draw =>
    match x.before.calls[i]? with
    | some ⟨.call op _, _, _⟩ => draw.fault.isSome && decide (target op = some id)
    | _ => false
  | _ => false

/-- Whether a heartbeat brings back a row that was gone. -/
def restored (x : Step ServerSite Event) (id : String) : Bool :=
  match x.label with
  | .writeBeat k => (x.before.host.registry.get? id).isNone &&
    (x.before.host.beats[k]?).any fun row => decide (row.1 = id)
  | _ => false

/-- Whether every call has returned. -/
def atRest (s : ServerSite) : Bool :=
  s.calls.all fun call =>
    match call.program with
    | .pure _ => true
    | .call .. => false

/-- Some call has come just so far. -/
def At (s : ServerSite) (phase : CallPhase) : Prop :=
  ∃ (i : Nat) (call : HostCall), s.calls[i]? = some call ∧ call.phase = phase

/-- A server has its row unless another one has taken it out. -/
def Listed (tr : List (Step ServerSite Event)) (s : ServerSite) (id : String) : Prop :=
  (∃ info, s.host.registry.get? id = some info) ∨ ∃ x ∈ tr, x.label = .reclaim id

/-- What accounts for a row of the registry. -/
inductive Accounted (tr : List (Step ServerSite Event)) (s : ServerSite) (id : String) : Prop
  | faulted {x : Step ServerSite Event} (hx : x ∈ tr) (hfault : faulted x id = true)
  | restored {x : Step ServerSite Event} (hx : x ∈ tr) (hback : restored x id = true)
  | running (hid : s.host.serverId = some id)
  | inHand {phase : CallPhase} (hat : s.At phase) (hrow : phase.row = some id)

/-- Who answers for a loop that has not ended: the running server, a `stop` that will take over
its handle, or one that waits for it, or has given up and aborted it. -/
inductive Watched (s : ServerSite) (j : Nat) (task : LoopTask) : Prop
  | kept (hrunning : s.host.isRunning = true) (htoken : task.token = s.host.shutdownToken)
      (hhandle : j ∈ s.host.workerHandles)
  | loose {before : List Loop} (hrunning : s.host.isRunning = true)
      (htoken : task.token = s.host.shutdownToken)
      (hat : s.At (.spawning task.token before (some j)))
  | winding {phase : CallPhase} (hat : s.At phase) (hwinds : phase.winds = true)
      (hhandle : j ∈ s.host.workerHandles)
  | draining {handles : List Nat} (hat : s.At (.draining handles)) (hhandle : j ∈ handles)
  | aborted (haborted : task.aborted = true)

/-- What holds as long as no call disturbs another. -/
structure Orderly (tr : List (Step ServerSite Event)) (s : ServerSite) : Prop where
  alive : ∀ (i : Nat) (call : HostCall), s.calls[i]? = some call → call.alive = true
  starting : ∀ token before loose, s.At (.spawning token before loose) →
    s.host.isRunning = true ∧ s.host.shutdownToken = token
  stopping : ∀ phase, s.At phase → phase.winds = true → s.host.isRunning = false
  idle : s.host.isRunning = false → ∀ id, s.host.serverId = some id → s.At .stopping
  rows : ∀ id info, s.host.registry.get? id = some info → Accounted tr s id
  tasks : ∀ (j : Nat) (task : LoopTask), s.host.tasks[j]? = some task → task.state ≠ .ended →
    Watched s j task
  listed : s.host.isRunning = true → ∀ id, s.host.serverId = some id → Listed tr s id
  registered : ∀ token id, s.At (.registered token id) →
    Listed tr s id ∧ s.host.serverId ≠ some id ∧ ¬ s.At (.leaving id)

/-- What `disturbs` excludes, call by call. -/
def Quiet (s : ServerSite) : {ρ : Type} → LifecycleCall ρ → Prop
  | _, .publish _ => ∀ phase, s.At phase → phase.winds = false
  | _, .shutDown => ∀ phase, s.At phase → phase.spawns = false
  | _, .registerServer info =>
    s.host.serverId ≠ some info.serverId ∧
      ∀ phase, s.At phase → phase.row ≠ some info.serverId
  | _, _ => True

section
variable {s t : ServerSite} {tr : List (Step ServerSite Event)} {x : Step ServerSite Event}
  {i j : Nat} {call call' : HostCall} {host : Host} {phase other : CallPhase} {id : String}
  {task : LoopTask} {draw : HostDraw} {ρ : Type} {op : LifecycleCall ρ}

theorem At.of_set (h : At ⟨host, s.calls.set i call'⟩ phase) : phase = call'.phase ∨
    ∃ (j : Nat) (other : HostCall), j ≠ i ∧ s.calls[j]? = some other ∧ other.phase = phase := by
  obtain ⟨j, other, hj, rfl⟩ := h
  rcases set_cases hj with ⟨-, rfl⟩ | ⟨hne, hj⟩
  · exact .inl rfl
  · exact .inr ⟨j, other, hne, hj, rfl⟩

theorem At.was (h : At ⟨host, s.calls.set i call'⟩ phase) : phase = call'.phase ∨ s.At phase :=
  h.of_set.imp_right fun ⟨j, other, _, hj, hphase⟩ => ⟨j, other, hj, hphase⟩

theorem At.stays (hcall : s.calls[i]? = some call) (h : s.At phase) :
    phase = call.phase ∨ At ⟨host, s.calls.set i call'⟩ phase := by
  obtain ⟨j, other, hj, rfl⟩ := h
  by_cases hji : j = i
  · subst hji
    rw [hcall] at hj
    cases hj
    exact .inl rfl
  · refine .inr ⟨j, other, ?_, rfl⟩
    rw [List.getElem?_set_ne (Ne.symm hji)]
    exact hj

theorem At.self (hcall : s.calls[i]? = some call) : At ⟨host, s.calls.set i call'⟩ call'.phase := by
  obtain ⟨hlt, -⟩ := List.getElem?_eq_some_iff.mp hcall
  exact ⟨i, call', List.getElem?_set_self hlt, rfl⟩

theorem quiet_of_disturbs {k : ρ → Prog LifecycleCall (Except QmlError Unit)}
    (hcall : s.calls[i]? = some call) (hprogram : call.program = .call op k)
    (h : s.disturbs (.step i draw) = false) : s.Quiet op := by
  obtain ⟨program, phase, alive⟩ := call
  cases hprogram
  simp only [disturbs, hcall] at h
  have hnone : ∀ {p : HostCall → Bool}, s.calls.any p = false → ∀ (i : Nat) (call : HostCall),
      s.calls[i]? = some call → p call = false := fun hp i call hi =>
    Bool.eq_false_iff.mpr fun htrue => by
      rw [List.any_eq_false] at hp
      exact hp call (List.mem_of_getElem? hi) htrue
  cases op with
  | publish id =>
    rintro phase ⟨j, other, hj, rfl⟩
    exact hnone h j other hj
  | shutDown =>
    rintro phase ⟨j, other, hj, rfl⟩
    exact hnone h j other hj
  | registerServer info =>
    obtain ⟨hid, hrows⟩ := Bool.or_eq_false_iff.mp h
    refine ⟨of_decide_eq_false hid, ?_⟩
    rintro phase ⟨j, other, hj, rfl⟩
    exact of_decide_eq_false (hnone hrows j other hj)
  | lockRunning | unlockRunning | now | requeueStrandedJobs | renewToken | newUuid | spawn |
    keepHandle | startWorkers | takeServerId | deregisterServer | takeHandles | join | abort =>
    trivial

theorem Listed.snoc (h : Listed tr s id) (hrow : ∀ info, s.host.registry.get? id = some info →
    ∃ info, t.host.registry.get? id = some info) : Listed (tr ++ [x]) t id := by
  rcases h with ⟨info, hinfo⟩ | ⟨y, hy, hlabel⟩
  · exact .inl (hrow info hinfo)
  · exact .inr ⟨y, List.mem_append_left _ hy, hlabel⟩

theorem Listed.reclaimed {id' : String} (h : Listed tr s id) (hx : x.label = .reclaim id') :
    Listed (tr ++ [x])
      { s with host := { s.host with registry := s.host.registry.erase id' } } id := by
  by_cases hid : id = id'
  · subst hid
    exact .inr ⟨x, List.mem_append_right _ (List.mem_singleton.mpr rfl), hx⟩
  · refine h.snoc fun info hinfo => ⟨info, ?_⟩
    rw [Dict.get?_erase, if_neg hid]
    exact hinfo

end

section
variable {config : StartConfig} {s t : ServerSite} {tr : List (Step ServerSite Event)}
  {x : Step ServerSite Event} {i j : Nat} {call : HostCall} {host : Host} {phase : CallPhase}
  {draw : HostDraw} {ρ : Type} {op : LifecycleCall ρ} {task : LoopTask} {id : String}
  {program : Prog LifecycleCall (Except QmlError Unit)}

/-- The site after a call has gone on. -/
def went (s : ServerSite) (i : Nat) (call : HostCall) (host : Host)
    (program : Prog LifecycleCall (Except QmlError Unit)) (phase : CallPhase) : ServerSite :=
  ⟨host, s.calls.set i { call with program := program, phase := phase }⟩

theorem starting_called (hs : Sound s) (ho : Orderly tr s) (hcall : s.calls[i]? = some call)
    (hacts : Host.Acts draw i s.host op call.phase host phase) (hquiet : s.Quiet op)
    (token : Nat) (before : List Loop) (loose : Option Nat)
    (hat : (s.went i call host program phase).At (.spawning token before loose)) :
    host.isRunning = true ∧ host.shutdownToken = token := by
  have hown := hs.fits i call hcall (ho.alive i call hcall)
  have hself : s.At call.phase := ⟨i, call, hcall, rfl⟩
  generalize call.phase = was at hacts hown hself
  rcases hat.was with hphase | hother
  · change _ = phase at hphase
    subst hphase
    cases hacts with
    | idle op => exact ho.starting _ _ _ hself
    | published id hready =>
      obtain ⟨-, -, -, hcurrent, -⟩ := hown.ready hready
      exact ⟨rfl, hcurrent⟩
    | spawned hnew => exact ho.starting _ _ _ hself
    | kept token before handle => exact ho.starting _ _ _ hself
    | tookId hleft => cases hid : s.host.serverId <;> rw [hid] at hleft <;> cases hleft
  · have hold := ho.starting _ _ _ hother
    cases hacts with
    | renewed =>
      have hstopped : s.host.isRunning = false := hown
      rw [hstopped] at hold
      cases hold.1
    | published id hready =>
      obtain ⟨-, -, hstopped, -⟩ := hown.ready hready
      rw [hstopped] at hold
      cases hold.1
    | shutDown => cases hquiet _ hother
    | idle | locked | unlocked | registered | registerFailed | spawned | kept | staffed | tookId |
      deregistered | deregisterFailed | tookHandles | joined | aborted => exact hold

theorem stopping_called (ho : Orderly tr s) (hcall : s.calls[i]? = some call)
    (hacts : Host.Acts draw i s.host op call.phase host phase) (hquiet : s.Quiet op)
    (phase' : CallPhase) (hat : (s.went i call host program phase).At phase')
    (hwinds : phase'.winds = true) : host.isRunning = false := by
  have hself : s.At call.phase := ⟨i, call, hcall, rfl⟩
  generalize call.phase = was at hacts hself
  rcases hat.was with hphase | hother
  · change _ = phase at hphase
    subst hphase
    cases hacts with
    | idle op => exact ho.stopping _ hself hwinds
    | shutDown => rfl
    | tookId | deregistered id | deregisterFailed id hfault => exact ho.stopping _ hself rfl
    | locked | unlocked | renewed | registered | registerFailed | published | spawned | kept |
      staffed | tookHandles | joined | aborted => cases hwinds
  · have hold := ho.stopping _ hother hwinds
    cases hacts with
    | published id hready =>
      rw [hquiet _ hother] at hwinds
      cases hwinds
    | shutDown => rfl
    | idle | locked | unlocked | renewed | registered | registerFailed | spawned | kept | staffed |
      tookId | deregistered | deregisterFailed | tookHandles | joined | aborted => exact hold

theorem idle_called (ho : Orderly tr s) (hcall : s.calls[i]? = some call)
    (hacts : Host.Acts draw i s.host op call.phase host phase) (hstopped : host.isRunning = false)
    (id : String) (hid : host.serverId = some id) :
    (s.went i call host program phase).At .stopping := by
  have hmove : s.At .stopping → CallPhase.stopping ≠ call.phase →
      (s.went i call host program phase).At .stopping := fun hat hne =>
    (hat.stays hcall).resolve_left hne
  have hself : (s.went i call host program phase).At phase := At.self hcall
  generalize hwas : call.phase = was at hacts hmove
  cases hacts with
  | idle op =>
    rcases (ho.idle hstopped id hid).stays hcall with hphase | hat
    · rw [hphase, hwas]
      exact hself
    · exact hat
  | unlocked hlocks hrow =>
    exact hmove (ho.idle hstopped id hid) fun h => by subst h; cases hlocks
  | published => cases hstopped
  | shutDown => exact hself
  | tookId => cases hid
  | locked | renewed | registered | registerFailed | spawned | kept | staffed |
    deregistered | deregisterFailed | tookHandles | joined | aborted =>
    exact hmove (ho.idle hstopped id hid) fun h => by cases h

/-- What accounted for a row goes on to do so, unless it was the call itself. -/
theorem Accounted.called (h : Accounted tr s id) (hcall : s.calls[i]? = some call)
    (hid : s.host.serverId = some id → host.serverId = some id)
    (hrow : call.phase.row = some id → phase.row = some id) :
    Accounted (tr ++ [x]) (s.went i call host program phase) id := by
  have hself : (s.went i call host program phase).At phase := At.self hcall
  cases h with
  | faulted hx hfault => exact .faulted (List.mem_append_left _ hx) hfault
  | restored hx hback => exact .restored (List.mem_append_left _ hx) hback
  | running hrunning => exact .running (hid hrunning)
  | inHand hat hown =>
    rcases hat.stays hcall with rfl | hat
    · exact .inHand hself (hrow hown)
    · exact .inHand hat hown

theorem rows_called (hs : Sound s) (ho : Orderly tr s) (hcall : s.calls[i]? = some call)
    (hacts : Host.Acts draw i s.host op call.phase host phase) (hquiet : s.Quiet op)
    (hfaulted : draw.fault.isSome = true → ∀ id, target op = some id → faulted x id = true)
    (id : String) (info : ServerInfo) (hinfo : host.registry.get? id = some info) :
    Accounted (tr ++ [x]) (s.went i call host program phase) id := by
  have hown := hs.fits i call hcall (ho.alive i call hcall)
  have hself : (s.went i call host program phase).At phase := At.self hcall
  have hx : x ∈ tr ++ [x] := List.mem_append_right _ (List.mem_singleton.mpr rfl)
  have hold : ∀ {info}, s.host.registry.get? id = some info →
      (s.host.serverId = some id → host.serverId = some id) →
      (call.phase.row = some id → phase.row = some id) →
      Accounted (tr ++ [x]) (s.went i call host program phase) id := fun hinfo hid hrow =>
    (ho.rows id _ hinfo).called hcall hid hrow
  generalize hwas : call.phase = was at hacts hold hown
  cases hacts with
  | idle op => exact hold hinfo (fun h => h) fun h => h
  | unlocked hlocks hrow => exact hold hinfo (fun h => h) fun h => by rw [hrow] at h; cases h
  | registered token info' =>
    rw [Dict.get?_insert] at hinfo
    split at hinfo
    · rename_i hid
      exact .inHand hself (congrArg some hid.symm)
    · exact hold hinfo (fun h => h) fun h => by cases h
  | registerFailed token info' hfault =>
    rw [Dict.get?_insert] at hinfo
    split at hinfo
    · rename_i hid
      exact .faulted hx (hfaulted (by rw [hfault]; rfl) id (congrArg some hid.symm))
    · exact hold hinfo (fun h => h) fun h => by cases h
  | published id' hready =>
    cases ho.rows id info hinfo with
    | faulted hold hfault => exact .faulted (List.mem_append_left _ hold) hfault
    | restored hold hback => exact .restored (List.mem_append_left _ hold) hback
    | running hid =>
      -- the last `stop` would still have to take the id
      obtain ⟨-, -, hstopped, -⟩ := hown.ready hready
      cases hquiet _ (ho.idle hstopped id hid)
    | inHand hat hrow =>
      rcases hat.stays hcall with hphase | hat
      · rw [hphase, hwas, CallPhase.row_ready hready] at hrow
        exact .running hrow
      · exact .inHand hat hrow
  | tookId hleft =>
    cases ho.rows id info hinfo with
    | faulted hold hfault => exact .faulted (List.mem_append_left _ hold) hfault
    | restored hold hback => exact .restored (List.mem_append_left _ hold) hback
    | running hid =>
      rw [hid] at hleft
      exact .inHand hself (hleft ▸ rfl)
    | inHand hat hrow =>
      rcases hat.stays hcall with hphase | hat
      · rw [hphase, hwas] at hrow
        cases hrow
      · exact .inHand hat hrow
  | deregistered id' =>
    rw [Dict.get?_erase] at hinfo
    split at hinfo
    · cases hinfo
    · rename_i hne
      exact hold hinfo (fun h => h) fun h => absurd (Option.some.inj h).symm hne
  | deregisterFailed id' hfault =>
    by_cases hid : id' = id
    · subst hid
      exact .faulted hx (hfaulted (by rw [hfault]; rfl) _ rfl)
    · exact hold hinfo (fun h => h) fun h => absurd (Option.some.inj h) hid
  | locked | renewed | spawned | kept | staffed | shutDown | tookHandles | joined | aborted =>
    exact hold hinfo (fun h => h) fun h => by cases h

/-- Who answers for a loop goes on to do so, where neither the flag nor the handles change. -/
theorem Watched.called (h : Watched s j task) (hcall : s.calls[i]? = some call)
    (hrunning : host.isRunning = s.host.isRunning)
    (htoken : host.shutdownToken = s.host.shutdownToken)
    (hhandles : ∀ j ∈ s.host.workerHandles, j ∈ host.workerHandles)
    (hkeeps : phase = call.phase ∨ call.phase.watches = false ∨
      call.phase.winds = true ∧ phase.winds = true) :
    Watched (s.went i call host program phase) j task := by
  have hself : (s.went i call host program phase).At phase := At.self hcall
  have hstays : ∀ {p : CallPhase}, s.At p → p.watches = true → p.winds = false →
      (s.went i call host program phase).At p := by
    intro p hat hwatches hwinds
    rcases hat.stays hcall with rfl | hat
    · rcases hkeeps with rfl | hidle | hwinding
      · exact hself
      · rw [hidle] at hwatches
        cases hwatches
      · rw [hwinding.1] at hwinds
        cases hwinds
    · exact hat
  cases h with
  | kept hrun hcurrent hhandle =>
    exact .kept (hrunning.trans hrun) (hcurrent.trans htoken.symm) (hhandles _ hhandle)
  | loose hrun hcurrent hat =>
    exact .loose (hrunning.trans hrun) (hcurrent.trans htoken.symm) (hstays hat rfl rfl)
  | winding hat hwinding hhandle =>
    rcases hat.stays hcall with rfl | hat
    · rcases hkeeps with rfl | hidle | hkept
      · exact .winding hself hwinding (hhandles _ hhandle)
      · rw [CallPhase.watches_winds hwinding] at hidle
        cases hidle
      · exact .winding hself hkept.2 (hhandles _ hhandle)
    · exact .winding hat hwinding (hhandles _ hhandle)
  | draining hat hhandle => exact .draining (hstays hat rfl rfl) hhandle
  | aborted haborted => exact .aborted haborted

/-- A `stop` that has done with its handles concerns nobody else. -/
theorem Watched.drained {handles : List Nat} (h : Watched s j task)
    (hcall : s.calls[i]? = some call) (hphase : call.phase = .draining handles)
    (hrunning : host.isRunning = s.host.isRunning)
    (htoken : host.shutdownToken = s.host.shutdownToken)
    (hhandles : host.workerHandles = s.host.workerHandles) (hout : j ∉ handles) :
    Watched (s.went i call host program phase) j task := by
  have hstays : ∀ {p : CallPhase}, s.At p → p ≠ .draining handles →
      (s.went i call host program phase).At p := fun hat hne =>
    (hat.stays hcall).resolve_left fun h => hne (h.trans hphase)
  cases h with
  | kept hrun hcurrent hhandle =>
    exact .kept (hrunning.trans hrun) (hcurrent.trans htoken.symm) (hhandles ▸ hhandle)
  | loose hrun hcurrent hat =>
    exact .loose (hrunning.trans hrun) (hcurrent.trans htoken.symm)
      (hstays hat fun h => by cases h)
  | winding hat hwinds hhandle =>
    exact .winding (hstays hat fun h => by subst h; cases hwinds) hwinds (hhandles ▸ hhandle)
  | draining hat hhandle =>
    refine .draining (hstays hat fun h => ?_) hhandle
    cases h
    exact hout hhandle
  | aborted haborted => exact .aborted haborted

theorem tasks_called (hs : Sound s) (ho : Orderly tr s) (hcall : s.calls[i]? = some call)
    (hacts : Host.Acts draw i s.host op call.phase host phase) (hquiet : s.Quiet op)
    (j : Nat) (task : LoopTask) (htask : host.tasks[j]? = some task)
    (hstate : task.state ≠ .ended) :
    Watched (s.went i call host program phase) j task := by
  have hown := hs.fits i call hcall (ho.alive i call hcall)
  have hself : (s.went i call host program phase).At phase := At.self hcall
  have hat : s.At call.phase := ⟨i, call, hcall, rfl⟩
  have hsame : s.host.tasks[j]? = some task → host.isRunning = s.host.isRunning →
      host.shutdownToken = s.host.shutdownToken →
      (∀ j ∈ s.host.workerHandles, j ∈ host.workerHandles) →
      (phase = call.phase ∨ call.phase.watches = false ∨
        call.phase.winds = true ∧ phase.winds = true) →
      Watched (s.went i call host program phase) j task :=
    fun htask hrunning htoken hhandles hkeeps =>
      (ho.tasks j task htask hstate).called hcall hrunning htoken hhandles hkeeps
  generalize hwas : call.phase = was at hacts hown hat hsame
  cases hacts with
  | idle op => exact hsame htask rfl rfl (fun _ h => h) (.inl rfl)
  | locked hfree => exact hsame htask rfl rfl (fun _ h => h) (.inr (.inl rfl))
  | unlocked hlocks hrow =>
    exact hsame htask rfl rfl (fun _ h => h) (.inr (.inl (CallPhase.watches_locks hlocks)))
  | registered | registerFailed => exact hsame htask rfl rfl (fun _ h => h) (.inr (.inl rfl))
  | tookId hleft =>
    refine hsame htask rfl rfl (fun _ h => h) (.inr (.inr ⟨rfl, ?_⟩))
    rw [hleft]
    cases s.host.serverId <;> rfl
  | deregistered | deregisterFailed =>
    exact hsame htask rfl rfl (fun _ h => h) (.inr (.inr ⟨rfl, rfl⟩))
  | renewed =>
    have hstopped : s.host.isRunning = false := hown
    cases ho.tasks j task htask hstate with
    | kept hrun | loose hrun =>
      rw [hstopped] at hrun
      cases hrun
    | winding hwinding hwinds hhandle =>
      exact .winding ((hwinding.stays hcall).resolve_left fun h => by
        rw [h, hwas] at hwinds; cases hwinds) hwinds hhandle
    | draining hdrains hhandle =>
      exact .draining ((hdrains.stays hcall).resolve_left fun h => by
        rw [hwas] at h; cases h) hhandle
    | aborted haborted => exact .aborted haborted
  | published id hready =>
    obtain ⟨hlocks, -, hstopped, -⟩ := hown.ready hready
    cases ho.tasks j task htask hstate with
    | kept hrun | loose hrun =>
      rw [hstopped] at hrun
      cases hrun
    | winding hwinding hwinds =>
      rw [hquiet _ hwinding] at hwinds
      cases hwinds
    | draining hdrains hhandle =>
      exact .draining ((hdrains.stays hcall).resolve_left fun h => by
        rw [hwas] at h; subst h; cases hlocks) hhandle
    | aborted haborted => exact .aborted haborted
  | spawned hnew =>
    obtain ⟨hrun, hcurrent⟩ := ho.starting _ _ _ hat
    rcases join_cases htask with ⟨rfl, rfl⟩ | hold
    · exact .loose hrun hcurrent.symm hself
    · exact hsame hold rfl rfl (fun _ h => h) (.inr (.inl rfl))
  | @kept token before handle =>
    obtain ⟨hrun, hcurrent⟩ := ho.starting _ _ _ hat
    have hgrown : ∀ j ∈ s.host.workerHandles, j ∈ s.host.workerHandles ++ [handle] :=
      fun _ h => List.mem_append_left _ h
    cases ho.tasks j task htask hstate with
    | kept hrun htoken hhandle => exact .kept hrun htoken (hgrown j hhandle)
    | loose hrun htoken hloose =>
      rcases hloose.stays hcall with hphase | hloose
      · rw [hwas] at hphase
        cases hphase
        exact .kept hrun htoken (List.mem_append_right _ (List.mem_singleton.mpr rfl))
      · exact .loose hrun htoken hloose
    | winding hwinding hwinds =>
      rw [ho.stopping _ hwinding hwinds] at hrun
      cases hrun
    | draining hdrains hhandle =>
      exact .draining ((hdrains.stays hcall).resolve_left fun h => by
        rw [hwas] at h; cases h) hhandle
    | aborted haborted => exact .aborted haborted
  | @staffed token before workers hnodup hnew =>
    obtain ⟨hrun, hcurrent⟩ := ho.starting _ _ _ hat
    by_cases hlt : j < s.host.tasks.length
    · refine hsame ?_ rfl rfl (fun _ h => List.mem_append_left _ h) (.inr (.inl rfl))
      rwa [show (Host.spawn s.host workers token).tasks[j]? = _ from
        List.getElem?_append_left hlt] at htask
    · have hworker : (workers.map fun loop => (⟨loop, token, .waiting, false⟩ : LoopTask))[j -
          s.host.tasks.length]? = some task := by
        rwa [show (Host.spawn s.host workers token).tasks[j]? = _ from
          List.getElem?_append_right (Nat.le_of_not_lt hlt)] at htask
      rw [List.getElem?_map] at hworker
      obtain ⟨loop, hloop, rfl⟩ := Option.map_eq_some_iff.mp hworker
      obtain ⟨hbound, -⟩ := List.getElem?_eq_some_iff.mp hloop
      refine .kept hrun hcurrent.symm (List.mem_append_right _ ?_)
      exact List.mem_range'_1.mpr (by omega)
  | shutDown =>
    cases ho.tasks j task htask hstate with
    | kept hrun htoken hhandle => exact .winding hself rfl hhandle
    | loose hrun htoken hloose => cases hquiet _ hloose
    | winding hwinding hwinds hhandle => exact .winding hself rfl hhandle
    | draining hdrains hhandle =>
      exact .draining ((hdrains.stays hcall).resolve_left fun h => by
        rw [hwas] at h; cases h) hhandle
    | aborted haborted => exact .aborted haborted
  | tookHandles =>
    have hstopped := ho.stopping _ hat rfl
    cases ho.tasks j task htask hstate with
    | kept hrun | loose hrun =>
      rw [hstopped] at hrun
      cases hrun
    | winding hwinding hwinds hhandle => exact .draining hself hhandle
    | draining hdrains hhandle =>
      exact .draining ((hdrains.stays hcall).resolve_left fun h => by
        rw [hwas] at h; cases h) hhandle
    | aborted haborted => exact .aborted haborted
  | joined hended =>
    refine (ho.tasks j task htask hstate).drained hcall hwas rfl rfl rfl fun hmem => ?_
    have hover := List.all_eq_true.mp hended j hmem
    rw [htask] at hover
    exact hstate (of_decide_eq_true hover)
  | aborted handles =>
    rcases Host.of_abortAll htask with haborted | ⟨hold, hout⟩
    · exact .aborted haborted
    · exact (ho.tasks j task hold hstate).drained hcall hwas rfl rfl rfl hout

theorem listed_called (ho : Orderly tr s) (hcall : s.calls[i]? = some call)
    (hacts : Host.Acts draw i s.host op call.phase host phase) (hrunning : host.isRunning = true)
    (id : String) (hid : host.serverId = some id) :
    Listed (tr ++ [x]) (s.went i call host program phase) id := by
  have hat : s.At call.phase := ⟨i, call, hcall, rfl⟩
  generalize call.phase = was at hacts hat
  cases hacts with
  | @published was token id' hready =>
    cases was with
    | renewed t =>
      cases hready
      cases hid
    | registered t id' =>
      cases hready
      cases hid
      exact (ho.registered _ _ hat).1.snoc fun info hinfo => ⟨info, hinfo⟩
    | outside | entered | spawning | stopping | leaving | left | draining | returned => cases hready
  | registered token info | registerFailed token info =>
    refine (ho.listed hrunning id hid).snoc fun old hold => ?_
    change ∃ new, (s.host.registry.insert info.serverId info).get? id = some new
    rw [Dict.get?_insert]
    split
    · exact ⟨info, rfl⟩
    · exact ⟨old, hold⟩
  | shutDown => cases hrunning
  | tookId => cases hid
  | deregistered id' =>
    rw [ho.stopping _ hat rfl] at hrunning
    cases hrunning
  | idle | locked | unlocked | renewed | spawned | kept | staffed | deregisterFailed |
    tookHandles | joined | aborted =>
    exact (ho.listed hrunning id hid).snoc fun info hinfo => ⟨info, hinfo⟩

/-- Who has registered an id has done so before, or does so in the step. -/
theorem registered_was (hcall : s.calls[i]? = some call)
    (hacts : Host.Acts draw i s.host op call.phase host phase) (hquiet : s.Quiet op) {token : Nat}
    (hat : (s.went i call host program phase).At (.registered token id)) :
    s.At (.registered token id) ∨ ∃ info : ServerInfo, phase = .registered token id ∧
      host = { s.host with registry := s.host.registry.insert id info } ∧
      s.host.serverId ≠ some id ∧ ∀ p, s.At p → p.row ≠ some id := by
  have hself : s.At call.phase := ⟨i, call, hcall, rfl⟩
  generalize call.phase = was at hacts hself
  rcases hat.was with hphase | hother
  · change _ = phase at hphase
    subst hphase
    cases hacts with
    | idle op => exact .inl hself
    | registered token info => exact .inr ⟨info, rfl, rfl, hquiet⟩
    | tookId hleft => cases hid : s.host.serverId <;> rw [hid] at hleft <;> cases hleft
  · exact .inl hother

/-- Nobody else publishes while a `start` has the flag locked. -/
theorem registered_serverId (hs : Sound s) (ho : Orderly tr s) (hcall : s.calls[i]? = some call)
    (hacts : Host.Acts draw i s.host op call.phase host phase) (hquiet : s.Quiet op) {token : Nat}
    (hat : (s.went i call host program phase).At (.registered token id)) :
    host.serverId ≠ some id := by
  have hown := hs.fits i call hcall (ho.alive i call hcall)
  have hlocked : ∀ (j : Nat) (other : HostCall), j ≠ i → s.calls[j]? = some other →
      call.phase.locks = true → other.phase.locks = false := fun j other hne hj hlocks =>
    hs.alone hcall (ho.alive i call hcall) hlocks hne hj (ho.alive j other hj)
  rcases registered_was hcall hacts hquiet hat with hbefore | ⟨info, -, rfl, hid, -⟩
  · obtain ⟨-, hid, -⟩ := ho.registered token id hbefore
    generalize call.phase = was at hacts hown hlocked
    cases hacts with
    | published id' hready =>
      rcases hat.of_set with hphase | ⟨j, other, hne, hj, hother⟩
      · cases hphase
      · have hfree := hlocked j other hne hj (hown.ready hready).1
        rw [hother] at hfree
        cases hfree
    | tookId => exact fun h => by cases h
    | idle | locked | unlocked | renewed | registered | registerFailed | spawned | kept | staffed |
      shutDown | deregistered | deregisterFailed | tookHandles | joined | aborted => exact hid
  · exact hid

/-- Nobody takes the row out that a `start` has just put there. -/
theorem registered_leaving (ho : Orderly tr s) (hcall : s.calls[i]? = some call)
    (hacts : Host.Acts draw i s.host op call.phase host phase) (hquiet : s.Quiet op) {token : Nat}
    (hat : (s.went i call host program phase).At (.registered token id)) :
    ¬ (s.went i call host program phase).At (.leaving id) := by
  have hself : s.At call.phase := ⟨i, call, hcall, rfl⟩
  intro hleaving
  rcases registered_was hcall hacts hquiet hat with hbefore | ⟨info, rfl, -, -, hrows⟩
  · obtain ⟨-, hid, hnone⟩ := ho.registered token id hbefore
    rcases hleaving.was with hphase | hother
    · change _ = phase at hphase
      subst hphase
      generalize call.phase = was at hacts hself
      cases hacts with
      | idle op => exact hnone hself
      | tookId hleft =>
        cases hserver : s.host.serverId with
        | none =>
          rw [hserver] at hleft
          cases hleft
        | some id' =>
          rw [hserver] at hleft
          cases hleft
          exact hid hserver
    · exact hnone hother
  · rcases hleaving.was with hphase | hother
    · cases hphase
    · exact hrows _ hother rfl

theorem registered_listed (ho : Orderly tr s) (hcall : s.calls[i]? = some call)
    (hacts : Host.Acts draw i s.host op call.phase host phase) (hquiet : s.Quiet op) {token : Nat}
    (hat : (s.went i call host program phase).At (.registered token id)) :
    Listed (tr ++ [x]) (s.went i call host program phase) id := by
  have hself : s.At call.phase := ⟨i, call, hcall, rfl⟩
  rcases registered_was hcall hacts hquiet hat with hbefore | ⟨info, -, rfl, -, -⟩
  · obtain ⟨hlisted, -, hnone⟩ := ho.registered token id hbefore
    refine hlisted.snoc fun old hold => ?_
    change ∃ new, host.registry.get? id = some new
    generalize call.phase = was at hacts hself
    cases hacts with
    | registered token info | registerFailed token info =>
      rw [Dict.get?_insert]
      split
      · exact ⟨info, rfl⟩
      · exact ⟨old, hold⟩
    | deregistered id' =>
      have hne : id ≠ id' := fun he => hnone (he ▸ hself)
      rw [Dict.get?_erase, if_neg hne]
      exact ⟨old, hold⟩
    | idle | locked | unlocked | renewed | published | spawned | kept | staffed | shutDown |
      tookId | deregisterFailed | tookHandles | joined | aborted => exact ⟨old, hold⟩
  · refine .inl ⟨info, ?_⟩
    change (s.host.registry.insert id info).get? id = some info
    rw [Dict.get?_insert, if_pos rfl]

theorem Orderly.called (hs : Sound s) (ho : Orderly tr s) (hcall : s.calls[i]? = some call)
    (hacts : Host.Acts draw i s.host op call.phase host phase) (hquiet : s.Quiet op)
    (hfaulted : draw.fault.isSome = true → ∀ id, target op = some id → faulted x id = true) :
    Orderly (tr ++ [x]) (s.went i call host program phase) where
  alive := by
    intro j other hj
    rcases set_cases hj with ⟨-, rfl⟩ | ⟨-, hj⟩
    · exact ho.alive i call hcall
    · exact ho.alive j other hj
  starting := starting_called hs ho hcall hacts hquiet
  stopping := stopping_called ho hcall hacts hquiet
  idle := idle_called ho hcall hacts
  rows := rows_called hs ho hcall hacts hquiet hfaulted
  tasks := tasks_called hs ho hcall hacts hquiet
  listed := listed_called ho hcall hacts
  registered := fun token id hat => ⟨registered_listed ho hcall hacts hquiet hat,
    registered_serverId hs ho hcall hacts hquiet hat, registered_leaving ho hcall hacts hquiet hat⟩

theorem Accounted.mono (h : Accounted tr s id) (hid : t.host.serverId = s.host.serverId)
    (hat : ∀ phase, s.At phase → t.At phase) : Accounted (tr ++ [x]) t id := by
  cases h with
  | faulted hx hfault => exact .faulted (List.mem_append_left _ hx) hfault
  | restored hx hback => exact .restored (List.mem_append_left _ hx) hback
  | running hrunning => exact .running (hid.trans hrunning)
  | inHand hold hrow => exact .inHand (hat _ hold) hrow

theorem Watched.mono {task' : LoopTask} (h : Watched s j task)
    (hrunning : t.host.isRunning = s.host.isRunning)
    (hcurrent : t.host.shutdownToken = s.host.shutdownToken)
    (hhandles : t.host.workerHandles = s.host.workerHandles) (htoken : task'.token = task.token)
    (haborted : task'.aborted = task.aborted) (hat : ∀ phase, s.At phase → t.At phase) :
    Watched t j task' := by
  cases h with
  | kept hrun h hhandle =>
    exact .kept (hrunning.trans hrun) (htoken.trans (h.trans hcurrent.symm)) (hhandles ▸ hhandle)
  | loose hrun h hloose =>
    exact .loose (hrunning.trans hrun) (htoken.trans (h.trans hcurrent.symm))
      (htoken.symm ▸ hat _ hloose)
  | winding hold hwinds hhandle => exact .winding (hat _ hold) hwinds (hhandles ▸ hhandle)
  | draining hold hhandle => exact .draining (hat _ hold) hhandle
  | aborted h => exact .aborted (haborted.trans h)

/-- A new call is still outside. -/
theorem At.of_enter {program : Prog LifecycleCall (Except QmlError Unit)}
    (h : (s.enter program).At phase) : phase = .outside ∨ s.At phase := by
  obtain ⟨j, other, hj, rfl⟩ := h
  rcases join_cases hj with ⟨-, rfl⟩ | hj
  · exact .inl rfl
  · exact .inr ⟨j, other, hj, rfl⟩

theorem At.enter {program : Prog LifecycleCall (Except QmlError Unit)} (h : s.At phase) :
    (s.enter program).At phase := by
  obtain ⟨j, other, hj, rfl⟩ := h
  obtain ⟨hlt, -⟩ := List.getElem?_eq_some_iff.mp hj
  refine ⟨j, other, ?_, rfl⟩
  change (s.calls ++ [_])[j]? = some other
  rw [List.getElem?_append_left hlt]
  exact hj

theorem Orderly.enter (ho : Orderly tr s) :
    Orderly (tr ++ [x]) (s.enter program) where
  alive := by
    intro j other hj
    rcases join_cases hj with ⟨-, rfl⟩ | hj
    · rfl
    · exact ho.alive j other hj
  starting := by
    intro token before loose hat
    rcases hat.of_enter with hphase | hat
    · cases hphase
    · exact ho.starting token before loose hat
  stopping := by
    intro phase hat hwinds
    rcases hat.of_enter with rfl | hat
    · cases hwinds
    · exact ho.stopping phase hat hwinds
  idle := fun hstopped id hid => (ho.idle hstopped id hid).enter
  rows := fun id info hinfo => (ho.rows id info hinfo).mono rfl fun _ => At.enter
  tasks := fun j task htask hstate =>
    (ho.tasks j task htask hstate).mono rfl rfl rfl rfl rfl fun _ => At.enter
  listed := fun hrunning id hid =>
    (ho.listed hrunning id hid).snoc fun info hinfo => ⟨info, hinfo⟩
  registered := by
    intro token id hat
    rcases hat.of_enter with hphase | hat
    · cases hphase
    · obtain ⟨hlisted, hid, hnone⟩ := ho.registered token id hat
      refine ⟨hlisted.snoc fun info hinfo => ⟨info, hinfo⟩, hid, fun hleaving => ?_⟩
      rcases hleaving.of_enter with hphase | hleaving
      · cases hphase
      · exact hnone hleaving

/-- A loop that goes on is watched by whoever did so before. -/
theorem Orderly.setTask (ho : Orderly tr s) (htask : s.host.tasks[j]? = some task)
    {state : LoopState} (hstate : task.state = .ended → state = .ended) :
    Orderly (tr ++ [x]) (s.setTask j { task with state := state }) where
  alive := ho.alive
  starting := ho.starting
  stopping := ho.stopping
  idle := ho.idle
  rows := fun id info hinfo => (ho.rows id info hinfo).mono rfl fun _ h => h
  tasks := by
    intro k other hk hother
    rcases set_cases hk with ⟨rfl, rfl⟩ | ⟨-, hk⟩
    · exact (ho.tasks k task htask fun h => hother (hstate h)).mono rfl rfl rfl rfl rfl fun _ h => h
    · exact (ho.tasks k other hk hother).mono rfl rfl rfl rfl rfl fun _ h => h
  listed := fun hrunning id hid =>
    (ho.listed hrunning id hid).snoc fun info hinfo => ⟨info, hinfo⟩
  registered := fun token id hat =>
    (ho.registered token id hat).imp_left fun h => h.snoc fun info hinfo => ⟨info, hinfo⟩

/-- What a step does to the rows, where it leaves all else alone. -/
theorem Orderly.aside (ho : Orderly tr s) {registry : Dict String ServerInfo}
    {beats : List (String × ServerInfo)}
    (hrows : ∀ id info, registry.get? id = some info →
      restored x id = true ∨ ∃ info, s.host.registry.get? id = some info)
    (hlisted : ∀ id, Listed tr s id → Listed (tr ++ [x])
      { s with host := { s.host with registry := registry, beats := beats } } id) :
    Orderly (tr ++ [x])
      { s with host := { s.host with registry := registry, beats := beats } } where
  alive := ho.alive
  starting := ho.starting
  stopping := ho.stopping
  idle := ho.idle
  rows := by
    intro id info hinfo
    rcases hrows id info hinfo with hback | ⟨info, hold⟩
    · exact .restored (List.mem_append_right _ (List.mem_singleton.mpr rfl)) hback
    · exact (ho.rows id info hold).mono rfl fun _ h => h
  tasks := fun k other hk hother =>
    (ho.tasks k other hk hother).mono rfl rfl rfl rfl rfl fun _ h => h
  listed := fun hrunning id hid => hlisted id (ho.listed hrunning id hid)
  registered := fun token id hat => (ho.registered token id hat).imp_left (hlisted id)

theorem Orderly.reclaim (ho : Orderly tr s) {id' : String} (hx : x.label = .reclaim id') :
    Orderly (tr ++ [x])
      { s with host := { s.host with registry := s.host.registry.erase id' } } := by
  refine ho.aside (fun id info hinfo => ?_) fun id h => h.reclaimed hx
  rw [Dict.get?_erase] at hinfo
  split at hinfo
  · cases hinfo
  · exact .inr ⟨info, hinfo⟩

theorem Orderly.beat (ho : Orderly tr s) (id' : String) (now : DateTime) :
    Orderly (tr ++ [x]) { s with host := s.host.beat id' now } := by
  have hsame : ∀ id, (∃ info, (s.host.beat id' now).registry.get? id = some info) ↔
      ∃ info, s.host.registry.get? id = some info := fun id => by
    simp only [← Option.isSome_iff_exists, Host.get?_beat]
  rw [Host.beat_eq]
  exact ho.aside (fun id info hinfo => .inr ((hsame id).mp ⟨info, hinfo⟩)) fun id h =>
    h.snoc fun info hinfo => (hsame id).mpr ⟨info, hinfo⟩

theorem Orderly.readBeat (ho : Orderly tr s) (id' : String) (now : DateTime) :
    Orderly (tr ++ [x]) { s with host := s.host.readBeat id' now } := by
  rw [Host.readBeat_eq]
  exact ho.aside (fun id info hinfo => .inr ⟨info, hinfo⟩) fun id h =>
    h.snoc fun info hinfo => ⟨info, hinfo⟩

/-- A row that a heartbeat writes was there, or it is back. -/
theorem Orderly.writeBeat (ho : Orderly tr s) {k : Nat} {row : String × ServerInfo}
    (hrow : s.host.beats[k]? = some row) (hx : x.before = s)
    (hlabel : x.label = .writeBeat k) :
    Orderly (tr ++ [x]) { s with host := { s.host with
      registry := s.host.registry.insert row.1 row.2, beats := s.host.beats.eraseIdx k } } := by
  refine ho.aside (fun id info hinfo => ?_) fun id h => h.snoc fun info hinfo => ?_
  · cases hold : s.host.registry.get? id with
    | some old => exact .inr ⟨old, rfl⟩
    | none =>
      rw [Dict.get?_insert] at hinfo
      split at hinfo
      · rename_i hid
        subst hid
        refine .inl ?_
        simp only [restored, hlabel, hx, hold, hrow, Option.isNone_none, Option.any_some,
          decide_true, Bool.and_self]
      · rw [hold] at hinfo
        cases hinfo
  · rw [Dict.get?_insert]
    split
    · exact ⟨row.2, rfl⟩
    · exact ⟨info, hinfo⟩

end

end ServerSite
end Qml
