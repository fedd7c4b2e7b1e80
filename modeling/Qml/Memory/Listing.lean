import Qml.Core.Listing
import Qml.Lib.Grouping
import Qml.Memory.Storage

namespace Qml
open Lib

namespace MemoryStorage

def filterJobsByState (jobs : Jobs) (kind : JobStateKind) : List Job :=
  jobs.values.filter fun job => decide (job.state.kind = kind)

/-- The jobs a listing selects, in the order the map is iterated in. -/
def selected (s : MemoryStorage) : Option JobStateKind → List Job
  | some kind => filterJobsByState s.jobs kind
  | none => s.jobs.values

def list (s : MemoryStorage) (checks : Bool) (stateFilter : Option JobStateKind)
    (limit offset : Option UInt64) : Option (List Job) :=
  let filteredJobs := s.selected stateFilter
  applyOffsetAndLimit checks (filteredJobs.insertionSort Job.newestFirst) limit offset

def getJobCounts (s : MemoryStorage) : Dict JobStateKind Nat :=
  Dict.group (fun job : Job => job.state.kind) (fun _ => 0) (fun count _ => count + 1) s.jobs.values

/-- The stored jobs in the state asked for. -/
def Matches (s : MemoryStorage) (stateFilter : Option JobStateKind) (job : Job) : Prop :=
  s.jobs.get? job.id = some job ∧ ∀ kind, stateFilter = some kind → job.state.kind = kind

variable {s : MemoryStorage} {checks : Bool} {stateFilter : Option JobStateKind} {job : Job}

theorem mem_selected : job ∈ s.selected stateFilter ↔ s.Matches stateFilter job := by
  cases stateFilter with
  | none => simp [selected, Matches, Jobs.mem_values]
  | some kind => simp [selected, filterJobsByState, Matches, Jobs.mem_values]

theorem selected_nodup : (s.selected stateFilter).Nodup := by
  have hvalues : s.jobs.values.Nodup := List.Nodup.of_map Job.id s.jobs.values_nodup
  cases stateFilter with
  | none => exact hvalues
  | some kind => exact hvalues.filter _

/-- Every matching job, the newest first. -/
def newest (s : MemoryStorage) (stateFilter : Option JobStateKind) : List Job :=
  (s.selected stateFilter).insertionSort Job.newestFirst

theorem newest_ranks : Ranks Job.newestFirst (s.Matches stateFilter) (s.newest stateFilter) :=
  .insertionSort selected_nodup fun _ => mem_selected

theorem list_paginates (s : MemoryStorage) (checks : Bool) (stateFilter : Option JobStateKind) :
    Paginates checks (s.Matches stateFilter) (s.list checks stateFilter) (s.newest stateFilter) :=
  sorted_paginates selected_nodup (fun _ => mem_selected) fun _ _ => rfl

/-- A listing from the start never overflows. -/
theorem list_first (limit : UInt64) :
    s.list checks stateFilter (some limit) none = some ((s.newest stateFilter).take limit.toNat) :=
  applyOffsetAndLimit_fits (by
    rw [Option.getD_none, Option.getD_some, UInt64.toNat_zero, Nat.zero_add]
    exact limit.toNat_lt)

end MemoryStorage
end Qml
