import Qml.Lib.Lease
import Qml.Redis.Draining
import Qml.Redis.HandOuts

namespace Qml
open Lib

namespace RedisStorage

/-- The lock key of a job is a lease. A release by the holder ends it, as does its
expiry; the recovery sweeps leave it alone. -/
def leases (codec : Codec) : Leases Site Site.Event String String Unit where
  grants x jobId workerId _ :=
    x.label = .lock (.tryAcquireJobLock jobId workerId) ∧ x.before.locks.contains jobId = false
  ends x jobId workerId _ :=
    x.label = .lock (.releaseJobLock jobId workerId) ∨ x.label = .lock (.expire jobId)
  serves x jobId workerId := ∃ i moment operation t candidates k stage blob,
    x.label = .job (.step i moment) ∧
    x.before.traffic.clients[i]? =
      some ⟨operation, .call (.fetch workerId t candidates) k, stage⟩ ∧
    (fetchScript codec x.before.traffic.db workerId t candidates).1 = some blob ∧
    blob.readable = true ∧ blob.job.id = jobId

/-- The step is the script of a fetch while the job waits, `Enqueued` or to be retried, with
an entry in one of the sets that the script looks into. -/
def Reaches (x : Step Site Site.Event) (jobId workerId : String) : Prop :=
  ∃ i moment operation t candidates k stage key blob,
    x.label = .job (.step i moment) ∧
    x.before.traffic.clients[i]? =
      some ⟨operation, .call (.fetch workerId t candidates) k, stage⟩ ∧
    key ∈ candidates ∧ (x.before.traffic.db.score key jobId).isSome ∧
    x.before.traffic.db.get jobId = some blob ∧
    (blob.job.state.kind = .enqueued ∨ blob.job.state.kind = .awaitingRetry)

variable {codec : Codec} {s t : Site} {tr : List (Step Site Site.Event)}

theorem serves_reaches {y : Step Site Site.Event} {jobId workerId : String}
    (hnamed : y.before.traffic.db.Named) (h : (leases codec).serves y jobId workerId) :
    Reaches y jobId workerId := by
  obtain ⟨i, moment, operation, t, candidates, k, stage, blob, hlabel, hclient, hblob, -, rfl⟩ := h
  generalize hfetch : fetchScript codec y.before.traffic.db workerId t candidates = res at hblob
  obtain ⟨reply, db'⟩ := res
  rcases fetchScript_cases hfetch with ⟨rfl, -⟩ | ⟨_, _, rfl, -⟩ |
    ⟨taken, score, old, hbest, hold, hkind, rfl, -⟩
  · cases hblob
  · cases hblob
  · cases hblob
    obtain ⟨hid, -, -⟩ := recode_processing codec t.truncMicros workerId "redis-storage" old.job
    rw [hid, hnamed _ _ hold]
    rcases best_mem hbest with hnone | ⟨key, hkey, htop⟩
    · cases hnone
    · refine ⟨i, moment, operation, t, candidates, k, stage, key, old, hlabel, hclient, hkey, ?_,
        hold, hkind⟩
      rw [Db.score_of_top htop]
      rfl

/-- The script of a fetch does not look at the lock keys: locks are honoured in a run in
which nobody but the holder fetches while the locked job waits in a set looked into. -/
theorem leases_spared {db : Db} {locks : Dict String String} (hnamed : db.Named)
    (hr : Run (Site.Next codec) ⟨.idle db, locks⟩ tr t)
    (hspared : (leases codec).Spared Reaches tr) : (leases codec).Honoured tr := by
  apply hspared.honoured
  intro y hy jobId workerId hserves
  obtain ⟨_, -, hpre, -⟩ := hr.of_mem hy
  exact serves_reaches (site_orderly hnamed hpre).named hserves

end RedisStorage
end Qml
