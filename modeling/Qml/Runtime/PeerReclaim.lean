import Qml.Memory.Registry
import Qml.Runtime.Identities

namespace Qml
open Lib

/-- The routines that name servers. -/
def Routine.Names (r : Routine) : Prop :=
  (∃ serverId timeout rounds, r = .heartbeat serverId timeout rounds) ∨
    ∃ server serverId, r = .start server serverId

theorem Call.lists {op : Call ρ} {env : Env} {s s' : MemoryStorage} {reply : ρ}
    (h : op.perform env s = some (reply, s'))
    (hs : ∀ id info, s.servers.get? id = some info → marked info.serverId = true) :
    ListsServers op reply := by
  cases op with
  | now | random | execute | await | hook => trivial
  | panic => cases h
  | storage op =>
    cases op
    case listDeadServers staleBefore =>
      cases h
      intro peer hpeer
      obtain ⟨id, hid⟩ := Dict.mem_values.mp (List.mem_filter.mp hpeer).1
      exact hs id peer (by simpa using hid)
    all_goals trivial

namespace Runtime
variable {s t : Runtime} {a : Action} {tr : List (Step Runtime Action)}

/-- The registry holds marked identities only, and the tasks that name servers
name no others. -/
structure Identified (s : Runtime) : Prop where
  servers : ∀ id info, s.storage.servers.get? id = some info → marked info.serverId = true
  tasks : ∀ (i : Nat) (task : Task), s.tasks[i]? = some task → task.routine.Names →
    Identifies task.program

theorem Identified.names (h : s.Identified) (hl : s.Lawful) {i : Nat} {ρ : Type} {op : Call ρ}
    (hcall : s.Calls i op) : NamesServers op := by
  obtain ⟨task, ht, -, hallowed⟩ := hcall.allowed hl
  obtain ⟨task', k, ht', -, hprogram⟩ := hcall
  cases ht.symm.trans ht'
  have hof : task.routine.Names → NamesServers op := fun hr => by
    have hid := h.tasks i task ht hr
    rw [Identifies, hprogram] at hid
    exact hid.1
  cases op with
  | now | random | execute | await | hook | panic => trivial
  | storage op =>
    cases op
    case registerServer info => exact hof (.inr hallowed)
    case reclaimJobsFromServer serverId => exact hof (.inl hallowed)
    all_goals trivial

theorem Identified.next (h : s.Identified) (hl : s.Lawful)
    (hspawn : a.spawns Routine.identified = true) (hnext : Next s a t) : t.Identified := by
  cases step_moves hnext with
  | spawned r =>
    refine ⟨h.servers, fun i task ht hr => ?_⟩
    rcases join_cases ht with ⟨-, rfl⟩ | ht
    · exact .program hspawn hr
    · exact h.tasks i task ht hr
  | aborted ht =>
    refine ⟨h.servers, fun i task hi hr => ?_⟩
    rcases set_cases hi with ⟨-, rfl⟩ | ⟨-, hi⟩
    · exact (h.tasks _ _ ht hr :)
    · exact h.tasks i task hi hr
  | panicked ht =>
    refine ⟨h.servers, fun i task hi hr => ?_⟩
    rcases set_cases hi with ⟨-, rfl⟩ | ⟨-, hi⟩
    · exact (h.tasks _ _ ht hr :)
    · exact h.tasks i task hi hr
  | @called i env task ρ op k reply storage ht ha hp hop =>
    have hnames := h.names hl ⟨task, k, ht, ha, hp⟩
    refine ⟨fun id info hinfo => ?_, fun j other hj hr => ?_⟩
    · cases op with
      | now | random | execute | await | hook =>
        cases hop
        exact h.servers id info hinfo
      | panic => cases hop
      | storage op =>
        have heffect := Section.rowEffect hop id
        rw [hinfo] at heffect
        generalize hbefore : s.storage.servers.get? id = before at heffect
        cases heffect with
        | same => exact h.servers id info hbefore
        | register => exact hnames
        | heartbeat now old => exact h.servers id old hbefore
    · rcases set_cases hj with ⟨-, rfl⟩ | ⟨-, hj⟩
      · have hid := h.tasks i task ht hr
        rw [Identifies, hp] at hid
        exact hid.2 reply () (Call.lists hop h.servers)
      · exact h.tasks j other hj hr

theorem identified_run {maxJobs : Option Nat} (hr : Run Next (idle (.empty maxJobs)) tr s)
    (hspawn : ∀ x ∈ tr, x.label.spawns Routine.identified = true) : s.Identified := by
  refine hr.stable Identified ⟨fun id info h => (by cases h), fun i task h => (by cases h)⟩
    fun x hx hbefore => ?_
  obtain ⟨pre, -, hpre, hnext⟩ := hr.of_mem hx
  exact hbefore.next (lawful_run (lawful_idle _) hpre) (hspawn x hx) hnext

def stateOf (s : Runtime) (id : String) : Option JobState := (s.storage.get id).map Job.state

/-- Whether a worker claims the job in this step. -/
def claims (x : Step Runtime Action) (id : String) : Bool :=
  match x.label with
  | .step i _ =>
    match x.before.pending i with
    | some ⟨_, .storage (.lockAvailableJob ..)⟩ =>
      decide ((x.before.stateOf id).map JobState.kind ≠ some .processing) &&
        decide ((x.after.stateOf id).map JobState.kind = some .processing)
    | _ => false
  | _ => false

/-- Whether a heartbeat worker makes this step, a part of some `bump_and_scan`. -/
def scans (x : Step Runtime Action) : Bool :=
  match x.label with
  | .step i _ => (x.before.tasks[i]?).any fun task =>
    match task.routine with
    | .heartbeat .. => true
    | _ => false
  | _ => false

variable {x : Step Runtime Action} {id : String}

theorem claims_stamps (hnext : Next x.before x.label x.after) (h : claims x id = true) :
    ∃ start w, x.after.stateOf id = some (.processing start w "memory-storage") := by
  unfold claims at h
  split at h
  · rename_i i env hlabel
    rw [hlabel] at hnext
    split at h
    · rename_i w q hpending
      rw [Bool.and_eq_true] at h
      have hbefore := of_decide_eq_true h.1
      have hafter := of_decide_eq_true h.2
      have hcall := Calls.of_pending hpending
      rcases hcall.performed hnext with ⟨reply, hop⟩ | ⟨hop, -⟩
      · simp only [Section.perform, Option.some.injEq] at hop
        generalize hl : (x.before.storage.reorder env.order).lockAvailableJob w q env.fetch = res
          at hop
        simp only [stateOf, MemoryStorage.get] at hbefore hafter ⊢
        obtain ⟨_ | job, after⟩ := res <;> cases hop
        · obtain ⟨(heq : x.after.storage = _), -⟩ := MemoryStorage.lockAvailableJob_none hl
          rw [heq, MemoryStorage.reorder_jobs] at hafter
          exact absurd hafter hbefore
        · obtain ⟨old, -, -, -, -, rfl, (heq : x.after.storage = _)⟩ :=
            MemoryStorage.lockAvailableJob_some hl
          simp only [heq, Jobs.get?_insert, MemoryStorage.reorder_jobs] at hafter ⊢
          split at hafter
          · rename_i hid
            exact ⟨env.fetch.start, w, by rw [if_pos hid]; rfl⟩
          · exact absurd hafter hbefore
      · cases hop
    · cases h
  · cases h

theorem scans_heartbeat (h : scans x = true) : ∃ i env task serverId timeout rounds,
    x.label = .step i env ∧ x.before.tasks[i]? = some task ∧
      task.routine = .heartbeat serverId timeout rounds := by
  unfold scans at h
  split at h
  · rename_i i env hlabel
    obtain ⟨task, ht, hr⟩ := (Option.any_eq_true ..).mp h
    split at hr
    · exact ⟨i, env, task, _, _, _, hlabel, ht, ‹_›⟩
    · cases hr
  · cases h

/-- No scan touches a job that is stamped the way claims are. -/
theorem scan_leaves {w : String} {start : DateTime}
    (hl : x.before.Lawful) (h : x.before.Identified) (hnext : Next x.before x.label x.after)
    (hscan : scans x = true)
    (hstamp : x.before.stateOf id = some (.processing start w "memory-storage")) :
    x.after.stateOf id = some (.processing start w "memory-storage") := by
  obtain ⟨i, env, task, serverId, timeout, rounds, hlabel, ht, hr⟩ := scans_heartbeat hscan
  rw [hlabel] at hnext
  rcases storage_cases hnext with hsame | ⟨j, env', ρ, op, reply, hstep, hcall, hop⟩
  · rw [stateOf, hsame]
    exact hstamp
  · cases hstep
    obtain ⟨task', ht', -, hallowed⟩ := hcall.allowed hl
    cases ht.symm.trans ht'
    have hnames := h.names hl hcall
    have heffect := Section.effect hop id
    simp only [stateOf, MemoryStorage.get] at hstamp ⊢
    obtain ⟨c, hstored, hstate⟩ := Option.map_eq_some_iff.mp hstamp
    rw [hstored] at heffect
    generalize x.after.storage.jobs.get? id = after at heffect
    rw [hr] at hallowed
    cases heffect with
    | same => rw [Option.map_some, hstate]
    | update =>
      obtain ⟨_, _, _, _, h, -⟩ := hallowed
      cases h
    | updateIfState => cases hallowed.1
    | delete => cases hallowed
    | insert =>
      rcases hallowed with h | ⟨_, _, _, _, h, -⟩ <;> cases h
    | promoteScheduled | promoteRetry =>
      obtain ⟨_, _, h⟩ := hallowed
      cases h
    | expire =>
      obtain ⟨_, h⟩ := hallowed
      cases h
    | requeue =>
      obtain ⟨_, _, h⟩ := hallowed
      cases h
    | reclaim serverId' old hlost =>
      -- the stamp is the name of the backend, which no server registers under
      rw [hstate, MemoryStorage.ownedBy, decide_eq_true_eq] at hlost
      subst hlost
      have hmarked : marked "memory-storage" = true := hnames
      exact absurd hmarked (by decide)
    | claim =>
      obtain ⟨_, _, _, h, -⟩ := hallowed
      cases h

/-- Whatever scans its peers make, be the server alive or crashed: a job that one
of its workers has claimed stays `Processing`, until another task writes it. -/
theorem peers_reclaim_nothing {maxJobs : Option Nat}
    (hr : Run Next (idle (.empty maxJobs)) tr s)
    (hspawn : ∀ x ∈ tr, x.label.spawns Routine.identified = true) {pre mid post}
    (htr : tr = pre ++ x :: (mid ++ post)) (hclaim : claims x id = true)
    (hmid : ∀ y ∈ mid, scans y = true ∨ y.after.stateOf id = y.before.stateOf id) :
    ∀ y ∈ mid, (y.after.stateOf id).map JobState.kind = some .processing := by
  subst htr
  obtain ⟨-, hx, hrest⟩ := hr.around
  obtain ⟨start, w, hstamp⟩ := claims_stamps hx hclaim
  obtain ⟨m, hrun, -⟩ := hrest.split
  have hkept := hrun.onward (fun s => s.stateOf id = some (.processing start w "memory-storage"))
    hstamp fun y hy hbefore => by
      have hmem : y ∈ pre ++ x :: (mid ++ post) := by simp [hy]
      obtain ⟨ypre, hsub, hpre, hnext⟩ := hr.of_mem hmem
      rcases hmid y hy with hscan | hsame
      · exact scan_leaves (lawful_run (lawful_idle _) hpre)
          (identified_run hpre fun z hz => hspawn z (hsub z hz)) hnext hscan hbefore
      · exact hsame.trans hbefore
  intro y hy
  rw [hkept y hy]
  rfl

/-- Server `a` claims a job and crashes; server `b` starts four minutes later and
scans. -/
def crashedServer : List Action :=
  let config (name : String) := { ServerConfig.default with
    serverName := name, enableHeartbeat := true }
  let server (name : String) := BackgroundJobServer.new (config name) fun _ => true
  let a := (server "a").identity "1"
  let b := (server "b").identity "2"
  let late := Duration.minutes 4
  [Action.spawn (.enqueue (Job.new "job" 0 "send_email" .null))] ++ Action.calls 0 2 0 .elapsed ++
  [Action.spawn (.start (server "a") a)] ++ Action.calls 1 4 0 .elapsed ++
  [Action.spawn ((server "a").worker a 0 1)] ++ Action.calls 2 5 0 .elapsed ++ [Action.abort 2] ++
  [Action.spawn (.start (server "b") b)] ++ Action.calls 3 4 late .elapsed ++
  [Action.spawn (.heartbeat b (Duration.seconds 60) 1)] ++ Action.calls 4 5 late .elapsed

theorem peers_reclaim_nothing_crashedServer : ∃ tr s pre x mid,
    Run Next (idle (.empty none)) tr s ∧ tr = pre ++ x :: (mid ++ []) ∧
    claims x "job" = true ∧ mid.any scans = true ∧
    ∀ y ∈ mid, (y.after.stateOf "job").map JobState.kind = some .processing := by
  obtain ⟨s, hr⟩ := replay_run step (idle (.empty none)) crashedServer
  obtain ⟨pre, x, htr, hclaim⟩ := cut_first (p := fun x => claims x "job")
    (l := replay step (idle (.empty none)) crashedServer) (by decide +kernel)
  rw [← List.append_nil (List.tail _)] at htr
  exact ⟨_, s, pre, x, _, hr, htr, hclaim, by decide +kernel, peers_reclaim_nothing hr
    (by decide +kernel) htr hclaim (by decide +kernel)⟩

/-- After the scan the registry no longer knows the crashed server, and its job is
still `Processing`. -/
theorem crashed_server_keeps_job : ∃ tr s, Run Next (idle (.empty none)) tr s ∧
    (∀ x ∈ tr, x.label.spawns Routine.identified = true) ∧
    (∃ x ∈ tr, claims x "job" = true) ∧
    (∃ x ∈ tr, scans x = true ∧ x.before.storage.servers.contains "a#1" = true ∧
      x.after.storage.servers.contains "a#1" = false) ∧
    (s.stateOf "job").map JobState.kind = some .processing := by
  obtain ⟨s, hr⟩ := replay_run step (idle (.empty none)) crashedServer
  refine ⟨_, s, hr, by decide +kernel, by decide +kernel, by decide +kernel, ?_⟩
  rw [hr.eq_last]
  decide +kernel

end Runtime
end Qml
