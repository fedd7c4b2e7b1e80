import Qml.Runtime.Holders

namespace Qml
open Lib Call

/-- `format!("{}#{}", self.config.server_name, Uuid::new_v4())`. -/
def BackgroundJobServer.identity (server : BackgroundJobServer) (uuid : String) : String :=
  server.config.serverName ++ "#" ++ uuid

/-- A server starts under an identity made of its name. -/
def Routine.identified : Routine → Bool
  | .start server serverId => (server.identity "").toList.isPrefixOf serverId.toList
  | _ => true

/-- An identity holds a mark that the stamp of a claim does not. -/
def marked (serverId : String) : Bool := serverId.toList.contains '#'

theorem marked_of_identified {server : BackgroundJobServer} {serverId : String}
    (h : (Routine.start server serverId).identified = true) : marked serverId = true := by
  have hprefix := List.isPrefixOf_iff_prefix.mp h
  have hmark : '#' ∈ (server.identity "").toList := by
    simp [BackgroundJobServer.identity, String.toList_append]
  simpa [marked] using hprefix.subset hmark

/-- The servers that a call names are marked. -/
def NamesServers : {ρ : Type} → Call ρ → Prop
  | _, .storage (.registerServer info) => marked info.serverId = true
  | _, .storage (.reclaimJobsFromServer serverId) => marked serverId = true
  | _, _ => True

/-- The servers that a reply lists are marked. -/
def ListsServers : {ρ : Type} → Call ρ → ρ → Prop
  | _, .storage (.listDeadServers _), .ok dead => ∀ peer ∈ dead, marked peer.serverId = true
  | _, _, _ => True

/-- A program that learns of servers from the registry names no others. -/
def Identities : Contract Call Unit where
  may _ _ op := NamesServers op
  step _ _ op reply _ := ListsServers op reply

/-- Programs that keep to it. -/
def Identifies (program : Prog Call α) : Prop := Prog.wp Identities (fun _ _ => True) program ()

namespace Identifies

theorem pure (a : α) : Identifies (.pure a : Prog Call α) := trivial

theorem bind {program : Prog Call α} {next : α → Prog Call β} (hp : Identifies program)
    (hn : ∀ a, Identifies (next a)) : Identifies (program >>= next) :=
  (Prog.wp_bind ..).mpr (Prog.wp_mono (fun a _ _ => hn a) hp)

theorem ask {op : Call α} {next : α → Prog Call β} (hop : NamesServers op)
    (hn : ∀ a, ListsServers op a → Identifies (next a)) : Identifies (Prog.ask op >>= next) :=
  ⟨hop, fun a _ ha => hn a ha⟩

theorem plus (t : DateTime) (d : Duration) : Identifies (Call.plus t d) := by
  rw [Call.plus]
  split
  · exact pure _
  · exact ⟨trivial, fun reply => by cases reply⟩

theorem polling {tick : Prog Call Unit} (h : Identifies tick) (rounds : Nat) :
    Identifies (Qml.polling tick rounds) := by
  induction rounds with
  | zero => exact pure ()
  | succ n ih => exact h.bind fun _ => ih

theorem reclaimPeers (serverId : String) {peers : List ServerInfo}
    (h : ∀ peer ∈ peers, marked peer.serverId = true) :
    Identifies (HeartbeatWorker.reclaimPeers serverId peers) := by
  induction peers with
  | nil => exact pure ()
  | cons peer peers ih =>
    have ih := ih fun p hp => h p (List.mem_cons_of_mem _ hp)
    rw [HeartbeatWorker.reclaimPeers]
    split
    · exact ih
    · refine ask (h peer List.mem_cons_self) fun a _ => ?_
      cases a with
      | error _ => exact ih
      | ok _ => exact ask trivial fun _ _ => ih

theorem bumpAndScan (serverId : String) (timeout : Duration) :
    Identifies (HeartbeatWorker.bumpAndScan serverId timeout) := by
  refine ask trivial fun now _ => ask trivial fun bumped _ => ?_
  cases bumped with
  | error _ => exact pure _
  | ok _ =>
    refine (plus _ _).bind fun staleBefore => ask trivial fun dead hdead => ?_
    cases dead with
    | error _ => exact pure _
    | ok dead => exact (reclaimPeers serverId hdead).bind fun _ => pure _

theorem start {server : BackgroundJobServer} {serverId : String} (h : marked serverId = true) :
    Identifies (server.start serverId) := by
  refine ask trivial fun now _ => (plus _ _).bind fun before => ask trivial fun _ _ => ?_
  split
  · refine ask trivial fun now _ => ask h fun registered _ => ?_
    cases registered <;> exact pure _
  · exact pure _

/-- The routines that name servers do so. -/
theorem program {r : Routine} (h : r.identified = true)
    (hr : (∃ serverId timeout rounds, r = .heartbeat serverId timeout rounds) ∨
      ∃ server serverId, r = .start server serverId) : Identifies r.program := by
  rcases hr with ⟨serverId, timeout, rounds, rfl⟩ | ⟨server, serverId, rfl⟩
  · exact ((bumpAndScan serverId timeout).bind fun _ => pure ()).polling rounds
  · exact (start (marked_of_identified h)).bind fun _ => pure ()

end Identifies
end Qml
