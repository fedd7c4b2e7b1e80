import Qml.Runtime.Cluster

namespace Qml
open Lib Call

/-- Whether a section writes the row of its caller. -/
def Section.writesRow : Section ρ → Bool
  | .registerServer _ | .heartbeatServer .. => true
  | _ => false

/-- The calls a server with heartbeats may make, given how far it is. -/
def Watch.Allows (serverId : String) (watch : Watch) : {ρ : Type} → Call ρ → Prop
  | _, .storage (.registerServer info) => info.serverId = serverId
  | _, .storage (.heartbeatServer id _) => id = serverId ∧ watch.bumped.isSome = true
  | _, .storage (.listDeadServers _) => watch.bumped.isSome = true
  | _, .storage (.reclaimJobsFromServer id) | _, .storage (.deregisterServer id) =>
      ∃ peer rest, watch.dead = peer :: rest ∧ peer.serverId = id
  | _, .storage op => op.registry = false
  | _, _ => True

/-- What the registry promises: a listed server was stale. -/
def Stale : {ρ : Type} → Call ρ → ρ → Prop
  | _, .storage (.listDeadServers staleBefore), .ok dead =>
      ∀ peer ∈ dead, peer.lastHeartbeat < staleBefore
  | _, _, _ => True

/-- The order of calls that a server with heartbeats keeps to. -/
def Rounds (serverId : String) : Contract Call Watch where
  may watch _ op := watch.Allows serverId op
  step watch _ op reply watch' := Stale op reply ∧ watch' = watch.after serverId op reply

section
variable {serverId : String} {watch : Watch} {α β : Type} {Q : β → Watch → Prop}

theorem rounds_ask {op : Call α} {next : α → Prog Call β} (hop : watch.Allows serverId op)
    (hn : ∀ a, Stale op a →
      Prog.wp (Rounds serverId) Q (next a) (watch.after serverId op a)) :
    Prog.wp (Rounds serverId) Q (Prog.ask op >>= next) watch := by
  refine ⟨hop, ?_⟩
  rintro a _ ⟨ha, rfl⟩
  exact hn a ha

theorem rounds_plus {next : DateTime → Prog Call β} {t : DateTime} {d : Duration}
    (hn : ∀ t, Prog.wp (Rounds serverId) Q (next t) watch) :
    Prog.wp (Rounds serverId) Q (Call.plus t d >>= next) watch := by
  rw [Call.plus]
  split
  · exact hn _
  · exact ⟨trivial, fun reply => by cases reply⟩

/-- Programs that keep to the order of calls and leave the server with a bump. -/
def Beats (serverId : String) (program : Prog Call α) (watch : Watch) : Prop :=
  Prog.wp (Rounds serverId) (fun _ watch => watch.bumped.isSome = true) program watch

theorem Beats.bind {program : Prog Call α} {next : α → Prog Call β}
    (hp : Beats serverId program watch)
    (hn : ∀ (a : α) (watch : Watch), watch.bumped.isSome = true → Beats serverId (next a) watch) :
    Beats serverId (program >>= next) watch :=
  (Prog.wp_bind ..).mpr (Prog.wp_mono (fun a watch h => hn a watch h) hp)

theorem reclaimPeers_beats {peers : List ServerInfo} (hbumped : watch.bumped.isSome = true)
    (hdead : watch.dead = peers.filter fun peer => decide (peer.serverId ≠ serverId)) :
    Beats serverId (HeartbeatWorker.reclaimPeers serverId peers) watch := by
  induction peers generalizing watch with
  | nil => exact hbumped
  | cons peer peers ih =>
    rw [HeartbeatWorker.reclaimPeers]
    split
    · rename_i hself
      exact ih hbumped (by simpa [hself] using hdead)
    · rename_i hpeer
      have hfirst : watch.dead =
          peer :: peers.filter fun peer => decide (peer.serverId ≠ serverId) := by
        simpa [hpeer] using hdead
      refine rounds_ask ⟨peer, _, hfirst, rfl⟩ fun reclaimed _ => ?_
      cases reclaimed with
      | error _ => exact ih hbumped (by simp [Watch.after, hfirst])
      | ok _ =>
        refine rounds_ask ⟨peer, _, hfirst, rfl⟩ fun removed _ => ?_
        exact ih hbumped (by simp [Watch.after, hfirst])

theorem bumpAndScan_beats {timeout : Duration} (hbumped : watch.bumped.isSome = true) :
    Beats serverId (HeartbeatWorker.bumpAndScan serverId timeout) watch := by
  refine rounds_ask trivial fun clock _ => rounds_ask ⟨rfl, hbumped⟩ fun bumped _ => ?_
  cases bumped with
  | error _ => exact hbumped
  | ok _ =>
    refine rounds_plus fun staleBefore => ?_
    have hlist : Watch.Allows serverId
        (watch.after serverId (.storage (.heartbeatServer serverId clock)) (.ok true))
        (.storage (.listDeadServers staleBefore)) := rfl
    refine rounds_ask hlist fun dead _ => ?_
    cases dead with
    | error _ => rfl
    | ok dead => exact (reclaimPeers_beats rfl rfl).bind fun _ _ h => h

theorem polling_beats {timeout : Duration} (rounds : Nat) (hbumped : watch.bumped.isSome = true) :
    Beats serverId (polling (discard (HeartbeatWorker.bumpAndScan serverId timeout)) rounds)
      watch := by
  induction rounds generalizing watch with
  | zero => exact hbumped
  | succ n ih =>
    have htick : Beats serverId (discard (HeartbeatWorker.bumpAndScan serverId timeout)) watch :=
      (bumpAndScan_beats hbumped).bind fun _ _ h => h
    exact htick.bind fun _ _ hbumped => ih hbumped

/-- A start that succeeds has registered the server. -/
theorem start_rounds {server : BackgroundJobServer} (h : server.config.enableHeartbeat = true) :
    Prog.wp (Rounds serverId) (fun a watch => a = .ok () → watch.bumped.isSome = true)
      (server.start serverId) watch := by
  refine rounds_ask trivial fun clock _ => rounds_plus fun before => ?_
  have hrequeue : watch.Allows serverId (.storage (.requeueStrandedJobs before)) := rfl
  refine rounds_ask hrequeue fun _ _ => ?_
  rw [if_pos h]
  refine rounds_ask trivial fun clock _ => rounds_ask rfl fun registered _ => ?_
  cases registered with
  | error _ => exact fun h => by cases h
  | ok _ => exact fun _ => rfl

/-- A server keeps to the order of calls from its start on. -/
theorem heartbeats_rounds {server : BackgroundJobServer} {rounds : Nat}
    (h : server.config.enableHeartbeat = true) :
    Prog.wp (Rounds serverId) (fun _ _ => True) (server.heartbeats serverId rounds) watch := by
  refine (Prog.wp_bind ..).mpr (Prog.wp_mono (fun started watch hstarted => ?_) (start_rounds h))
  cases started with
  | error _ => trivial
  | ok _ => exact Prog.wp_mono (fun _ _ _ => trivial) (polling_beats rounds (hstarted rfl))

end
theorem Call.stale {ρ : Type} {op : Call ρ} {env : Env} {storage storage' : MemoryStorage}
    {reply : ρ} (h : op.perform env storage = some (reply, storage')) : Stale op reply := by
  cases op with
  | now | random | execute | await | hook => trivial
  | panic => cases h
  | storage op =>
    cases op
    case listDeadServers staleBefore =>
      cases h
      exact fun peer hpeer => of_decide_eq_true (List.mem_filter.mp hpeer).2
    all_goals trivial

/-- What a server knows is sound: it scans only once it has written a bump, and
what it took for dead was stale. -/
structure Watch.Sound (watch : Watch) : Prop where
  scanned : watch.scanned = true → watch.bumped.isSome = true
  stale : ∀ peer ∈ watch.dead, peer.lastHeartbeat < watch.staleBefore

theorem Watch.Sound.after {watch : Watch} {serverId : String} {ρ : Type} {op : Call ρ} {reply : ρ}
    (h : watch.Sound) (hop : watch.Allows serverId op) (hreply : Stale op reply) :
    (watch.after serverId op reply).Sound := by
  have htail : ∀ peer ∈ watch.dead.tail, peer.lastHeartbeat < watch.staleBefore :=
    fun peer hpeer => h.stale peer (List.mem_of_mem_tail hpeer)
  cases op with
  | now | random | execute | await | hook | panic => exact h
  | storage op =>
    cases op
    case registerServer info =>
      cases reply with
      | error _ => exact h
      | ok _ => exact ⟨fun _ => rfl, fun peer hpeer => by cases hpeer⟩
    case heartbeatServer id t =>
      cases reply with
      | error _ => exact h
      | ok _ => exact ⟨fun _ => rfl, fun peer hpeer => by cases hpeer⟩
    case listDeadServers staleBefore =>
      cases reply with
      | error _ => exact h
      | ok dead => exact ⟨fun _ => hop, fun peer hpeer => hreply peer (List.mem_filter.mp hpeer).1⟩
    case reclaimJobsFromServer id =>
      cases reply with
      | error _ => exact ⟨h.scanned, htail⟩
      | ok _ => exact h
    case deregisterServer id => exact ⟨h.scanned, htail⟩
    all_goals exact h

namespace Cluster
variable {s t : Cluster} {e : Event} {tr : List (Step Cluster Event)}

/-- The row that a server is about to remove, the identity it is stored under, and
what the server knows. -/
def expels (x : Step Cluster Event) : Option (String × ServerInfo × Watch) :=
  match x.label with
  | .step i _ =>
    match x.before.members[i]? with
    | some ⟨_, .call (.storage (.deregisterServer id)) _, watch, true⟩ =>
      (x.before.storage.servers.get? id).map fun row => (id, row, watch)
    | _ => none
  | _ => none

/-- The server that completes a `bump_and_scan` in this step. -/
def completes (x : Step Cluster Event) : Option Member :=
  match x.label with
  | .step i _ =>
    if (x.before.members[i]?).any fun m => m.watch.done then none
    else (x.after.members[i]?).filter fun m => m.watch.done
  | _ => none

/-- A server removes the row of a peer only if the peer has crashed and has not
bumped its row since the server listed it. -/
def spares (x : Step Cluster Event) : Bool :=
  (expels x).all fun (id, row, watch) =>
    watch.dead.head?.any (fun peer => decide (peer.lastHeartbeat = row.lastHeartbeat)) &&
      x.before.members.all fun m => decide (m.serverId ≠ id) || !m.alive

/-- A row is removed by a peer only if it is stale for the threshold of that peer,
and a server that completes a `bump_and_scan` has a row, with its own bump. -/
structure KeepsMembers (tr : List (Step Cluster Event)) : Prop where
  expelled : ∀ x ∈ tr, ∀ id row watch, expels x = some (id, row, watch) →
    row.lastHeartbeat < watch.staleBefore
  present : ∀ x ∈ tr, ∀ m, completes x = some m → ∃ row,
    x.after.storage.servers.get? m.serverId = some row ∧ m.watch.bumped = some row.lastHeartbeat

/-- What holds of the servers of every run, whatever they remove. -/
structure Orderly (s : Cluster) : Prop where
  distinct : (s.members.map Member.serverId).Nodup
  rounds : ∀ (i : Nat) (m : Member), s.members[i]? = some m →
    Prog.wp (Rounds m.serverId) (fun _ _ => True) m.program m.watch
  sound : ∀ (i : Nat) (m : Member), s.members[i]? = some m → m.watch.Sound

/-- Every live server that was registered has a row, with its last bump. -/
def Present (s : Cluster) : Prop :=
  ∀ (i : Nat) (m : Member), s.members[i]? = some m → m.alive = true → ∀ t,
    m.watch.bumped = some t → ∃ row, s.storage.servers.get? m.serverId = some row ∧
      row.lastHeartbeat = t

theorem Orderly.allows (h : s.Orderly) {i : Nat} {m : Member} {ρ : Type} {op : Call ρ}
    {k : ρ → Prog Call Unit} (hm : s.members[i]? = some m) (hprogram : m.program = .call op k) :
    m.watch.Allows m.serverId op ∧ ∀ reply, Stale op reply →
      Prog.wp (Rounds m.serverId) (fun _ _ => True) (k reply)
        (m.watch.after m.serverId op reply) := by
  have hrounds := h.rounds i m hm
  rw [hprogram] at hrounds
  exact ⟨hrounds.1, fun reply hreply => hrounds.2 reply _ ⟨hreply, rfl⟩⟩

theorem Orderly.next (h : s.Orderly) (hnext : Next s e t) : t.Orderly := by
  cases next_moves hnext with
  | started hheartbeat hfresh =>
    refine ⟨?_, fun i m hi => ?_, fun i m hi => ?_⟩
    · rw [List.map_append, List.nodup_append]
      refine ⟨h.distinct, List.nodup_singleton _, fun id hid id' hid' => ?_⟩
      obtain ⟨m, hm, rfl⟩ := List.mem_map.mp hid
      rw [List.mem_singleton.mp hid']
      exact hfresh m hm
    · rcases join_cases hi with ⟨-, rfl⟩ | hi
      · exact heartbeats_rounds hheartbeat
      · exact h.rounds i m hi
    · rcases join_cases hi with ⟨-, rfl⟩ | hi
      · exact ⟨fun h => (by cases h), fun _ h => (by cases h)⟩
      · exact h.sound i m hi
  | called hm halive hprogram hop =>
    obtain ⟨hallows, hk⟩ := h.allows hm hprogram
    have hstale := Call.stale hop
    refine ⟨?_, fun i m hi => ?_, fun i m hi => ?_⟩
    · rw [map_set_same _ hm (by rfl)]
      exact h.distinct
    · rcases set_cases hi with ⟨-, rfl⟩ | ⟨-, hi⟩
      · exact hk _ hstale
      · exact h.rounds i m hi
    · rcases set_cases hi with ⟨-, rfl⟩ | ⟨-, hi⟩
      · exact (h.sound _ _ hm).after hallows hstale
      · exact h.sound i m hi
  | died hm =>
    refine ⟨?_, fun i m hi => ?_, fun i m hi => ?_⟩
    · rw [map_set_same _ hm (by rfl)]
      exact h.distinct
    · rcases set_cases hi with ⟨-, rfl⟩ | ⟨-, hi⟩
      · exact (h.rounds _ _ hm :)
      · exact h.rounds i m hi
    · rcases set_cases hi with ⟨-, rfl⟩ | ⟨-, hi⟩
      · exact (h.sound _ _ hm :)
      · exact h.sound i m hi
  | entered => exact ⟨h.distinct, h.rounds, h.sound⟩

theorem orderly_run {storage : MemoryStorage} (hr : Run Next (idle storage) tr s) :
    s.Orderly := by
  refine hr.stable Orderly ⟨List.nodup_nil, fun i m h => (by cases h), fun i m h => (by cases h)⟩
    fun x hx hbefore => ?_
  obtain ⟨_, -, -, hnext⟩ := hr.of_mem hx
  exact hbefore.next hnext

/-- The registry keeps the row of a live server, unless it writes the row itself. -/
theorem row_kept (h : s.Orderly) {i j : Nat} {m m' : Member} {env : Env} {ρ : Type}
    {op : Section ρ} {k : ρ → Prog Call Unit} {reply : ρ} {storage : MemoryStorage}
    {row : ServerInfo} (hspares : spares ⟨s, .step j env, t⟩ = true)
    (hm : s.members[i]? = some m) (halive : m.alive = true) (hm' : s.members[j]? = some m')
    (halive' : m'.alive = true) (hprogram : m'.program = .call (.storage op) k)
    (hop : op.perform env.toReading s.storage = some (reply, storage))
    (hother : i = j → op.writesRow = false)
    (hrow : s.storage.servers.get? m.serverId = some row) :
    storage.servers.get? m.serverId = some row := by
  have hallows := (h.allows hm' hprogram).1
  have heffect := Section.rowEffect hop m.serverId
  rw [hrow] at heffect
  generalize storage.servers.get? m.serverId = after at heffect
  have hsame : m'.serverId = m.serverId → i = j := fun hid => index_eq h.distinct hm hm' hid.symm
  cases heffect with
  | same => rfl
  | register info _ hid => cases hother (hsame (hallows.symm.trans hid))
  | heartbeat clock => cases hother (hsame hallows.1.symm)
  | deregister =>
    have hexpels : expels ⟨s, .step j env, t⟩ = some (m.serverId, row, m'.watch) := by
      obtain ⟨serverId, program, watch, alive⟩ := m'
      subst hprogram halive'
      simp [expels, hm', hrow]
    simp only [spares, hexpels, Option.all_some, Bool.and_eq_true, List.all_eq_true] at hspares
    have hgone := hspares.2 m (List.mem_of_getElem? hm)
    simp [halive] at hgone

/-- A server that has registered, or bumps the row it has, has a row afterwards. -/
theorem row_written {m : Member} {env : Env} {ρ : Type} {op : Section ρ} {reply : ρ}
    {storage : MemoryStorage} {date : DateTime} (hallows : m.watch.Allows m.serverId (.storage op))
    (hop : op.perform env.toReading s.storage = some (reply, storage))
    (hwrites : op.writesRow = true)
    (hpresent : m.watch.bumped.isSome = true → ∃ row,
      s.storage.servers.get? m.serverId = some row)
    (hbumped : (m.watch.after m.serverId (.storage op) reply).bumped = some date) :
    ∃ row, storage.servers.get? m.serverId = some row ∧ row.lastHeartbeat = date := by
  cases op
  case registerServer info =>
    cases hop
    cases hbumped
    have hid : info.serverId = m.serverId := hallows
    exact ⟨info, by simp [MemoryStorage.registerServer, hid], rfl⟩
  case heartbeatServer id clock =>
    obtain ⟨rfl, hsome⟩ := hallows
    obtain ⟨row, hrow⟩ := hpresent hsome
    simp only [Section.perform, MemoryStorage.heartbeatServer, hrow] at hop
    cases hop
    cases hbumped
    exact ⟨{ row with lastHeartbeat := date }, by simp, rfl⟩
  all_goals cases hwrites

/-- A section that does not write a row leaves the last bump alone. -/
theorem bumped_kept {watch : Watch} {serverId : String} {ρ : Type} {op : Section ρ} {reply : ρ}
    (h : op.writesRow = false) :
    (watch.after serverId (.storage op) reply).bumped = watch.bumped := by
  cases op
  case registerServer | heartbeatServer => cases h
  case listDeadServers | reclaimJobsFromServer => cases reply <;> rfl
  all_goals rfl

theorem Present.next (hp : s.Present) (h : s.Orderly) (hnext : Next s e t)
    (hspares : spares ⟨s, e, t⟩ = true) : t.Present := by
  intro i m hi halive date hdate
  cases next_moves hnext with
  | started =>
    rcases join_cases hi with ⟨-, rfl⟩ | hi
    · cases hdate
    · exact hp i m hi halive date hdate
  | @called j env m' ρ op k reply storage hm' halive' hprogram hop =>
    cases op with
    | storage op =>
      have hallows := (h.allows hm' hprogram).1
      rcases set_cases hi with ⟨rfl, rfl⟩ | ⟨hij, hi⟩
      · cases hwrites : op.writesRow with
        | true =>
          refine row_written (m := m') hallows hop hwrites (fun hsome => ?_) hdate
          obtain ⟨last, hlast⟩ := Option.isSome_iff_exists.mp hsome
          obtain ⟨row, hrow, -⟩ := hp i m' hm' halive' last hlast
          exact ⟨row, hrow⟩
        | false =>
          obtain ⟨row, hrow, hlast⟩ := hp i m' hm' halive' date
            ((bumped_kept hwrites).symm.trans hdate)
          exact ⟨row, row_kept (m := m') h hspares hm' halive' hm' halive' hprogram hop
            (fun _ => hwrites) hrow, hlast⟩
      · obtain ⟨row, hrow, hlast⟩ := hp i m hi halive date hdate
        exact ⟨row, row_kept h hspares hi halive hm' halive' hprogram hop
          (fun he => absurd he hij) hrow, hlast⟩
    | now | random | execute | await | hook =>
      cases hop
      rcases set_cases hi with ⟨rfl, rfl⟩ | ⟨-, hi⟩
      · exact hp i m' hm' halive' date hdate
      · exact hp i m hi halive date hdate
    | panic => cases hop
  | died hm =>
    rcases set_cases hi with ⟨-, rfl⟩ | ⟨-, hi⟩
    · cases halive
    · exact hp i m hi halive date hdate
  | @entered ρ op env reply storage hother hop =>
    obtain ⟨row, hrow, hlast⟩ := hp i m hi halive date hdate
    have heffect := Section.rowEffect hop m.serverId
    rw [hrow] at heffect
    refine ⟨row, ?_, hlast⟩
    dsimp only
    generalize storage.servers.get? m.serverId = after at heffect ⊢
    cases heffect with
    | same => rfl
    | register | heartbeat | deregister => cases hother

theorem present_run {storage : MemoryStorage} (hr : Run Next (idle storage) tr s)
    (hspares : ∀ x ∈ tr, spares x = true) : s.Present := by
  refine hr.stable Present (fun i m h => (by cases h)) fun x hx hbefore => ?_
  obtain ⟨_, -, hpre, hnext⟩ := hr.of_mem hx
  exact hbefore.next (orderly_run hpre) hnext (hspares x hx)

/-- What is about to be removed was taken for dead by the server that removes it. -/
theorem expels_spec {x : Step Cluster Event} {id : String} {row : ServerInfo} {watch : Watch}
    (h : x.before.Orderly) (hexpels : expels x = some (id, row, watch)) :
    watch.Sound ∧ ∃ peer rest, watch.dead = peer :: rest ∧ peer.serverId = id := by
  unfold expels at hexpels
  split at hexpels
  · split at hexpels
    · rename_i hm
      obtain ⟨_, -, hrow⟩ := Option.map_eq_some_iff.mp hexpels
      cases hrow
      exact ⟨h.sound _ _ hm, (h.allows hm rfl).1⟩
    · cases hexpels
  · cases hexpels

/-- A server that completes its cycle is alive and has written a bump. -/
theorem completes_spec {x : Step Cluster Event} {m : Member} (h : x.after.Orderly)
    (hnext : Next x.before x.label x.after) (hcompletes : completes x = some m) :
    (∃ i : Nat, x.after.members[i]? = some m) ∧ m.alive = true ∧ m.watch.bumped.isSome = true := by
  obtain ⟨before, label, after⟩ := x
  unfold completes at hcompletes
  split at hcompletes
  · rename_i i env hlabel
    cases hlabel
    split at hcompletes
    · cases hcompletes
    · rename_i hbefore
      obtain ⟨hm, hdone⟩ := Option.filter_eq_some_iff.mp hcompletes
      refine ⟨⟨i, hm⟩, ?_, (h.sound i m hm).scanned (Bool.and_eq_true_iff.mp hdone).1⟩
      have hstep : Next before (.step i env) after := hnext
      cases next_moves hstep with
      | called hm' halive' =>
        rcases set_cases hm with ⟨-, rfl⟩ | ⟨hne, -⟩
        · exact halive'
        · exact absurd rfl hne
      | died hm' =>
        -- a server that dies has not completed anything
        rcases set_cases hm with ⟨rfl, rfl⟩ | ⟨-, hm⟩
        · exact absurd hdone (by simpa [hm'] using hbefore)
        · exact absurd hdone (by simpa [hm] using hbefore)
  · cases hcompletes

/-- As long as nobody removes the row of a server that lives or has bumped it
since it was listed, the registry loses no running server. -/
theorem running_servers_kept {storage : MemoryStorage} (hr : Run Next (idle storage) tr s)
    (hspares : ∀ x ∈ tr, spares x = true) : KeepsMembers tr := by
  constructor
  · intro x hx id row watch hexpels
    obtain ⟨_, -, hpre, -⟩ := hr.of_mem hx
    obtain ⟨hsound, peer, rest, hdead, -⟩ := expels_spec (orderly_run hpre) hexpels
    have hsame := hspares x hx
    simp only [spares, hexpels, Option.all_some, hdead, List.head?_cons, Option.any_some,
      Bool.and_eq_true, decide_eq_true_eq] at hsame
    exact hsame.1 ▸ hsound.stale peer (hdead ▸ List.mem_cons_self)
  · intro x hx m hcompletes
    obtain ⟨_, hsub, hpre, hnext⟩ := hr.of_mem hx
    have horderly := orderly_run hpre
    have hpresent := (present_run hpre fun y hy => hspares y (hsub y hy)).next horderly hnext
      (hspares x hx)
    obtain ⟨⟨i, hm⟩, halive, hbumped⟩ := completes_spec (horderly.next hnext) hnext hcompletes
    obtain ⟨last, hlast⟩ := Option.isSome_iff_exists.mp hbumped
    obtain ⟨row, hrow, rfl⟩ := hpresent i m hm halive last hlast
    exact ⟨row, hrow, hlast⟩

/-- The start of a server with the default threshold of a minute. -/
def startOf (name : String) : Event :=
  .start (.new { ServerConfig.default with serverName := name, enableHeartbeat := true }
    fun _ => true) "1" 1

/-- The next calls of a server, all at one instant. -/
def calls (i n : Nat) (seconds : Int) : List Event :=
  List.replicate n (.step i (.at (Duration.seconds seconds) .elapsed))

/-- One server crashes; the other one starts two minutes later and removes it. -/
def crashed : List Event :=
  [startOf "a"] ++ calls 0 4 0 ++ [Event.abort 0, startOf "b"] ++ calls 1 9 120

theorem running_servers_kept_crashed : ∃ tr s, Run Next (idle (.empty none)) tr s ∧
    (∃ x ∈ tr, (expels x).isSome = true) ∧ (∃ x ∈ tr, (completes x).isSome = true) ∧
    KeepsMembers tr := by
  obtain ⟨s, hr⟩ := replay_run next (idle (.empty none)) crashed
  exact ⟨_, s, hr, by decide +kernel, by decide +kernel,
    running_servers_kept hr (by decide +kernel)⟩

/-- A server stalls for two minutes and is listed; it wakes up and bumps its row
before the row is removed. -/
def revived : List Event :=
  [startOf "a", startOf "b"] ++ calls 0 4 0 ++ calls 1 7 120 ++ calls 0 2 120 ++ calls 1 2 120 ++
    calls 0 1 120

/-- A fresh row is removed, and its server completes a cycle without a row. -/
theorem revived_server_lost : ∃ tr s, Run Next (idle (.empty none)) tr s ∧
    (∃ x ∈ tr, (expels x).any fun (_, row, watch) =>
      !decide (row.lastHeartbeat < watch.staleBefore)) ∧
    (∃ x ∈ tr, (completes x).any fun m =>
      !x.after.storage.servers.contains m.serverId) ∧ ¬ KeepsMembers tr := by
  obtain ⟨s, hr⟩ := replay_run next (idle (.empty none)) revived
  have hlost : ∃ x ∈ replay next (idle (.empty none)) revived, (completes x).any fun m =>
      !x.after.storage.servers.contains m.serverId := by decide +kernel
  refine ⟨_, s, hr, by decide +kernel, hlost, fun h => ?_⟩
  obtain ⟨x, hx, hcompletes⟩ := hlost
  obtain ⟨m, hm, habsent⟩ := (Option.any_eq_true ..).mp hcompletes
  obtain ⟨row, hrow, -⟩ := h.present x hx m hm
  simp [Dict.contains, hrow] at habsent

end Cluster
end Qml
