import Qml.Memory.Sections

namespace Qml
open Lib

/-- What a section may do to the registry row of one server. -/
inductive RowEffect (id : String) :
    {ρ : Type} → Section ρ → Option ServerInfo → Option ServerInfo → Prop
  | same {ρ : Type} (op : Section ρ) (o : Option ServerInfo) : RowEffect id op o o
  | register (info : ServerInfo) (o : Option ServerInfo) (hid : info.serverId = id) :
      RowEffect id (.registerServer info) o (some info)
  | heartbeat (now : DateTime) (info : ServerInfo) :
      RowEffect id (.heartbeatServer id now) (some info) (some { info with lastHeartbeat := now })
  | deregister (o : Option ServerInfo) : RowEffect id (.deregisterServer id) o none

@[simp] theorem MemoryStorage.reorder_servers {s : MemoryStorage} {order : List String}
    {id : String} : (s.reorder order).servers.get? id = s.servers.get? id :=
  Dict.get?_reorder ..

section
variable {s s' : MemoryStorage} {env : Reading} {ρ : Type} {op : Section ρ} {reply : ρ}

/-- Only the three methods of the registry change a row, each its own. -/
theorem Section.rowEffect (h : op.perform env s = some (reply, s')) (id : String) :
    RowEffect id op (s.servers.get? id) (s'.servers.get? id) := by
  cases op
  case registerServer info =>
    cases h
    simp only [MemoryStorage.registerServer, Dict.get?_insert]
    split
    · exact .register info _ (Eq.symm ‹_›)
    · exact .same _ _
  case heartbeatServer serverId now =>
    cases h
    simp only [id_eq]
    split
    · rename_i info hinfo
      simp only [Dict.get?_insert]
      split
      · subst serverId
        rw [hinfo]
        exact .heartbeat now info
      · exact .same _ _
    · exact .same _ _
  case deregisterServer serverId =>
    cases h
    simp only [id_eq, Dict.get?_erase]
    split
    · subst serverId
      exact .deregister _
    · exact .same _ _
  case lockAvailableJob workerId queues =>
    simp only [perform, MemoryStorage.lockAvailableJob, Option.some.injEq] at h
    split at h <;> cases h <;> simpa using RowEffect.same _ _
  case acquireJobLock jobId workerId timeout =>
    simp only [perform, MemoryStorage.acquireJobLock] at h
    split at h
    · cases h
      exact .same _ _
    · split at h <;> cases h
      exact .same _ _
  case update job =>
    simp only [perform, MemoryStorage.update] at h
    split at h <;> cases h <;> exact .same _ _
  case updateIfState job expected =>
    simp only [perform, MemoryStorage.updateIfState] at h
    split at h
    · cases h
      exact .same _ _
    · split at h <;> cases h <;> exact .same _ _
  case releaseJobLock jobId workerId =>
    cases h
    simp only [id_eq]
    split
    · split <;> exact .same _ _
    · exact .same _ _
  case claimDueScheduledJobs now limit =>
    cases h
    simpa using RowEffect.same _ _
  case claimDueRetryJobs now limit =>
    cases h
    simpa using RowEffect.same _ _
  all_goals
    cases h
    exact .same _ _

end
end Qml
