import Qml.Memory.Refinement
import Qml.Postgres.Refinement
import Qml.Redis.Deletions
import Qml.Redis.Refinement

namespace Qml
open Lib

namespace JobStore
universe u v
section
variable {σ : Type u} {ℓ : Type v} {next : σ → ℓ → σ → Prop} {alters : Job → Job → Prop}

/-- Every run of a backend is a run of the contract. -/
def Carried (R : Refinement next (Next alters)) : Prop :=
  ∀ s tr t, R.inv s → Run next s tr t → Run (Next alters) (R.abs s) (R.trace tr) (R.abs t)

/-- What a worker was handed out stays stored until something ends its ownership. -/
def OwnersKept (R : Refinement next (Next alters)) : Prop :=
  ∀ s t pre x mid workerId serverName job, R.inv s → Run next s (pre ++ x :: mid) t →
    R.means x = some (.handedOut workerId serverName job) →
    (∀ z ∈ R.trace mid, ¬ Ends z job.id) → R.abs t job.id = some job

/-- Between two hand-outs of one job some step wrote it back. -/
def HandOutsApart (R : Refinement next (Next alters)) : Prop :=
  ∀ s t pre x mid y post workerId workerId' serverName serverName' job job', R.inv s →
    Run next s (pre ++ x :: (mid ++ y :: post)) t →
    R.means x = some (.handedOut workerId serverName job) →
    R.means y = some (.handedOut workerId' serverName' job') → job'.id = job.id →
    ∃ z ∈ R.trace mid, WritesBack z job.id

/-- Between two swaps of one job out of one final state some step stored it in that state. -/
def SwapsApart (R : Refinement next (Next alters)) : Prop :=
  ∀ s t pre x mid y post kind job job', R.inv s →
    Run next s (pre ++ x :: (mid ++ y :: post)) t →
    (kind = .succeeded ∨ kind = .failed ∨ kind = .deleted) →
    R.means x = some (.swapped job kind true) → R.means y = some (.swapped job' kind true) →
    job'.id = job.id → job.state.kind ≠ kind →
    ∃ z ∈ R.trace mid, ∃ new, z.label.StoresJob new ∧ new.id = job.id ∧ new.state.kind = kind

variable (R : Refinement next (Next alters))

theorem carried : Carried R := fun _ _ _ hs hr => (R.run hs hr).2

variable (hstate : ∀ {a b}, alters a b → b.state = a.state)
include hstate

theorem ownersKept : OwnersKept R := by
  intro s t pre x mid workerId serverName job hs hr hx hends
  have hrun := (R.run hs hr).2
  rw [R.trace_cut hx] at hrun
  exact owner_kept hstate hrun rfl hends

theorem handOutsApart : HandOutsApart R := by
  intro s t pre x mid y post workerId workerId' serverName serverName' job job' hs hr hx hy hid
  exact handOuts_apart hstate (R.run_cuts hs hr hx hy) ⟨_, _, rfl, rfl⟩ ⟨_, _, rfl, hid⟩

theorem swapsApart : SwapsApart R := by
  intro s t pre x mid y post kind job job' hs hr hfinal hx hy hid hleaves
  exact swaps_apart hstate (R.run_cuts hs hr hx hy) hfinal rfl rfl hid hleaves

end
end JobStore

namespace Backends
open JobStore

/-- A job, and the outcome it comes to. -/
def mailed : Job := .new "a" 0 "send_email" .null

def delivered : Job := { mailed with state := .succeeded 2 1 none }

/-- The job as a worker gets it from the in-memory backend. -/
def mailing : Job := { mailed with state := .processing 0 "w" "memory-storage" }

/-- The in-memory backend after a section. -/
def entered {ρ : Type} (s : MemoryStorage) (op : Section ρ) :
    Step MemoryStorage MemoryStorage.Entry :=
  let entry : MemoryStorage.Entry := ⟨op, 0, ⟨0, 0, 0⟩, fun _ => 0, []⟩
  ⟨s, entry, (s.enter entry).getD s⟩

def enqueuing : Step MemoryStorage MemoryStorage.Entry :=
  entered (.empty none) (.insertJob mailed)

def handingOut : Step MemoryStorage MemoryStorage.Entry :=
  entered enqueuing.after (.lockAvailableJob "w" none)

/-- Another job is enqueued meanwhile. -/
def enqueuingMore : Step MemoryStorage MemoryStorage.Entry :=
  entered handingOut.after (.insertJob (.new "b" 1 "send_email" .null))

def delivering (s : MemoryStorage) : Step MemoryStorage MemoryStorage.Entry :=
  entered s (.update delivered)

/-- The job is put back by a compare-and-swap, comes to its outcome and is put back again. -/
def puttingBack : Step MemoryStorage MemoryStorage.Entry :=
  entered (delivering enqueuingMore.after).after (.updateIfState mailed .succeeded)

def puttingBackAgain : Step MemoryStorage MemoryStorage.Entry :=
  entered (delivering puttingBack.after).after (.updateIfState mailed .succeeded)

def history : List (Step MemoryStorage MemoryStorage.Entry) :=
  [enqueuing, handingOut, enqueuingMore, delivering enqueuingMore.after, puttingBack,
    delivering puttingBack.after, puttingBackAgain]

theorem history_run : Run MemoryStorage.Enters (.empty none) history puttingBackAgain.after :=
  .cons rfl (.cons rfl (.cons rfl (.cons rfl (.cons rfl (.cons rfl (.cons rfl .nil))))))

/-- The job on Redis, past its time. -/
def outlived : Job := { delivered with expiresAt := some 2 }

def outlivedDb : Db :=
  Db.empty.add (Codec.lossless.serialize outlived) (RedisStorage.newScore 0 outlived)

/-- A sweep that has read the job and taken it out of the indices. -/
def sweep : List (Step Traffic Traffic.Event) :=
  replay (Traffic.next .lossless) (.idle outlivedDb)
    (.start (.deleteExpiredJobs 3) :: Traffic.Event.steps 0 7 3)

section
variable (engine : PostgresStorage.Engine) (codec : Codec)

/-- The three backends carry out one contract. -/
theorem backends_carry_contract : Carried MemoryStorage.refinement ∧
    Carried (PostgresStorage.refinement engine) ∧ Carried (Traffic.refinement codec) :=
  ⟨carried _, carried _, carried _⟩

/-- Every step of the history means something. -/
theorem backends_carry_contract_history :
    (MemoryStorage.refinement.trace history).length = history.length ∧
    Run (Next Eq) (MemoryStorage.contents (.empty none)) (MemoryStorage.refinement.trace history)
      puttingBackAgain.after.contents :=
  ⟨rfl, (backends_carry_contract .verbatim .lossless).1 _ history _ trivial history_run⟩

/-- On every backend a worker keeps the job it was handed out, as it was handed out. -/
theorem owners_kept : OwnersKept MemoryStorage.refinement ∧
    OwnersKept (PostgresStorage.refinement engine) ∧ OwnersKept (Traffic.refinement codec) :=
  ⟨ownersKept _ (congrArg Job.state ·.symm), ownersKept _ (congrArg Job.state ·.symm),
    ownersKept _ RedisStorage.Recoded.state⟩

/-- The job is in the hands of its worker while the other one is enqueued. -/
theorem owners_kept_history : enqueuingMore.after.contents "a" = some mailing := by
  have hr : Run MemoryStorage.Enters (.empty none) ([enqueuing] ++ handingOut :: [enqueuingMore])
      enqueuingMore.after := .cons rfl (.cons rfl (.cons rfl .nil))
  refine (owners_kept .verbatim .lossless).1 _ _ _ _ _ "w" "memory-storage" mailing trivial hr
    rfl ?_
  intro z hz
  obtain rfl := List.mem_singleton.mp (show z ∈ [_] from hz)
  rintro (⟨_, hstores, hid⟩ | hgone | ⟨_, _, _, hlabel, -⟩)
  · cases hstores
    exact absurd hid (by decide)
  · cases hgone
  · cases hlabel

/-- On every backend a job that is handed out twice was written back in between. -/
theorem hand_outs_apart : HandOutsApart MemoryStorage.refinement ∧
    HandOutsApart (PostgresStorage.refinement engine) ∧
    HandOutsApart (Traffic.refinement codec) :=
  ⟨handOutsApart _ (congrArg Job.state ·.symm), handOutsApart _ (congrArg Job.state ·.symm),
    handOutsApart _ RedisStorage.Recoded.state⟩

/-- On every backend one of several swaps that expect the same final state succeeds, until
the job comes into that state again. -/
theorem swaps_apart_everywhere : SwapsApart MemoryStorage.refinement ∧
    SwapsApart (PostgresStorage.refinement engine) ∧ SwapsApart (Traffic.refinement codec) :=
  ⟨swapsApart _ (congrArg Job.state ·.symm), swapsApart _ (congrArg Job.state ·.symm),
    swapsApart _ RedisStorage.Recoded.state⟩

/-- Between the two times that the job is put back it has come to its outcome again. -/
theorem swaps_apart_everywhere_history :
    ∃ z ∈ MemoryStorage.refinement.trace [delivering puttingBack.after],
      ∃ new, z.label.StoresJob new ∧ new.id = "a" ∧ new.state.kind = .succeeded :=
  (swaps_apart_everywhere .verbatim .lossless).1 (.empty none) _
    [enqueuing, handingOut, enqueuingMore, delivering enqueuingMore.after] puttingBack _
    puttingBackAgain [] .succeeded mailed mailed trivial history_run (.inl rfl) rfl rfl rfl
    (by decide)

end
end Backends
end Qml
