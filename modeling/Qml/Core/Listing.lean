import Qml.Core.Job
import Qml.Lib.Paging
import Qml.Lib.Ranking

namespace Qml
open Lib

/-- The comparison of the listings: newer jobs come first. -/
def Job.newestFirst (a b : Job) : Prop := b.createdAt ≤ a.createdAt

instance : DecidableRel Job.newestFirst := fun a b =>
  inferInstanceAs (Decidable (b.createdAt ≤ a.createdAt))

instance : Std.Total Job.newestFirst := ⟨fun a b => by
  simp only [Job.newestFirst, DateTime]
  omega⟩

instance : IsTrans Job Job.newestFirst := ⟨fun a b c hab hbc => by
  simp only [Job.newestFirst, DateTime] at *
  omega⟩

/-- `a + b` on `usize`: a panic in a build that checks for overflow, a sum that
wraps around in one that does not. -/
def addUsize (checks : Bool) (a b : UInt64) : Option UInt64 :=
  if checks && decide (UInt64.size ≤ a.toNat + b.toNat) then none else some (a + b)

/-- Where the part of `len` jobs that is asked for ends. -/
def sliceEnd (checks : Bool) (start : UInt64) (len : Nat) : Option UInt64 → Option Nat
  | some limit => (addUsize checks start limit).map fun sum => min sum.toNat len
  | none => some len

/-- The last lines of every `list`, on the sorted jobs. A panic is `none`. -/
def applyOffsetAndLimit (checks : Bool) (jobs : List Job) (limit offset : Option UInt64) :
    Option (List Job) := do
  let start := offset.getD 0
  let stop ← sliceEnd checks start jobs.length limit
  if jobs.length ≤ start.toNat then return [] else slice jobs start.toNat stop

/-- The bounds that the arithmetic of a listing of `len` jobs is right for. -/
def Fits (checks : Bool) (len : Nat) (limit offset : Option UInt64) : Prop :=
  (offset.getD 0).toNat + (limit.getD 0).toNat < UInt64.size ∨
    checks = false ∧ len ≤ (offset.getD 0).toNat

/-- What a listing is for: all the jobs that match, the newest first, in parts. -/
structure Paginates (checks : Bool) (matching : Job → Prop)
    (list : Option UInt64 → Option UInt64 → Option (List Job)) (full : List Job) : Prop where
  ranked : Ranks Job.newestFirst matching full
  parts : ∀ limit offset, list limit offset =
    some (part full (limit.map UInt64.toNat) (offset.getD 0).toNat) ↔
      Fits checks full.length limit offset
  pages : ∀ size m, 0 < size → full.length ≤ m * size → m * size < UInt64.size →
    ∃ pages : List (List Job), pages.flatten = full ∧ pages.length = m ∧
      ∀ k page, pages[k]? = some page →
        list (some (.ofNat size)) (some (.ofNat (k * size))) = some page

variable {checks : Bool} {jobs : List Job} {limit offset : Option UInt64} {a b : UInt64}

theorem addUsize_fits (h : a.toNat + b.toNat < UInt64.size) :
    ∃ sum, addUsize checks a b = some sum ∧ sum.toNat = a.toNat + b.toNat := by
  have hno : decide (UInt64.size ≤ a.toNat + b.toNat) = false := decide_eq_false (by omega)
  refine ⟨a + b, ?_, ?_⟩
  · rw [addUsize, hno, Bool.and_false, if_neg Bool.false_ne_true]
  · rw [UInt64.toNat_add]
    exact Nat.mod_eq_of_lt h

/-- A sum that wraps around is below both numbers. -/
theorem addUsize_wraps (h : UInt64.size ≤ a.toNat + b.toNat) {sum : UInt64}
    (hsum : addUsize checks a b = some sum) : checks = false ∧ sum.toNat < a.toNat := by
  have hyes : decide (UInt64.size ≤ a.toNat + b.toNat) = true := decide_eq_true h
  rw [addUsize, hyes, Bool.and_true] at hsum
  cases checks with
  | true => cases hsum
  | false =>
    cases hsum
    have ha := a.toNat_lt
    have hb := b.toNat_lt
    have hsize : UInt64.size = 2 ^ 64 := rfl
    refine ⟨rfl, ?_⟩
    rw [UInt64.toNat_add]
    omega

theorem sliceEnd_fits {len : Nat}
    (h : (offset.getD 0).toNat + (limit.getD 0).toNat < UInt64.size) :
    ∃ stop, sliceEnd checks (offset.getD 0) len limit = some stop ∧
      stop = match limit.map UInt64.toNat with
        | some limit => min ((offset.getD 0).toNat + limit) len
        | none => len := by
  cases limit with
  | none => exact ⟨_, rfl, rfl⟩
  | some limit =>
    rw [Option.getD_some] at h
    obtain ⟨sum, hsum, hval⟩ : ∃ sum, addUsize checks (offset.getD 0) limit = some sum ∧
        sum.toNat = (offset.getD 0).toNat + limit.toNat := addUsize_fits h
    refine ⟨_, by rw [sliceEnd, hsum, Option.map_some], ?_⟩
    rw [hval]
    rfl

/-- A sum that wraps around leaves an end before the start. -/
theorem sliceEnd_wraps {len stop : Nat}
    (h : UInt64.size ≤ (offset.getD 0).toNat + (limit.getD 0).toNat)
    (hstop : sliceEnd checks (offset.getD 0) len limit = some stop) :
    checks = false ∧ stop < (offset.getD 0).toNat := by
  cases limit with
  | none =>
    have hsmall := (offset.getD 0).toNat_lt
    have hsize : UInt64.size = 2 ^ 64 := rfl
    simp only [Option.getD_none, UInt64.toNat_zero] at h
    omega
  | some limit =>
    obtain ⟨sum, hsum, rfl⟩ := Option.map_eq_some_iff.mp hstop
    obtain ⟨hchecks, hwraps⟩ := addUsize_wraps h hsum
    exact ⟨hchecks, by omega⟩

theorem applyOffsetAndLimit_fits
    (h : (offset.getD 0).toNat + (limit.getD 0).toNat < UInt64.size) :
    applyOffsetAndLimit checks jobs limit offset =
      some (part jobs (limit.map UInt64.toNat) (offset.getD 0).toNat) := by
  obtain ⟨stop, hstop, hbound⟩ := @sliceEnd_fits checks limit offset jobs.length h
  simp only [applyOffsetAndLimit, hstop, Option.bind_eq_bind, Option.bind_some]
  split
  · rw [part_eq_nil ‹_›]
    rfl
  · exact slice_part (by omega) hbound

/-- Past the end nothing is sliced, whatever became of the sum. -/
theorem applyOffsetAndLimit_past (h : jobs.length ≤ (offset.getD 0).toNat) :
    applyOffsetAndLimit false jobs limit offset =
      some (part jobs (limit.map UInt64.toNat) (offset.getD 0).toNat) := by
  rw [part_eq_nil h]
  simp only [applyOffsetAndLimit, if_pos h]
  cases limit <;> rfl

theorem applyOffsetAndLimit_panics (h : ¬ Fits checks jobs.length limit offset) :
    applyOffsetAndLimit checks jobs limit offset = none := by
  obtain ⟨hover, hlen⟩ := not_or.mp h
  rw [not_lt] at hover
  rw [applyOffsetAndLimit]
  cases hstop : sliceEnd checks (offset.getD 0) jobs.length limit with
  | none => rfl
  | some stop =>
    obtain ⟨hchecks, hback⟩ := sliceEnd_wraps hover hstop
    have hstart : ¬ jobs.length ≤ (offset.getD 0).toNat := fun hle => hlen ⟨hchecks, hle⟩
    have hbounds : ¬ ((offset.getD 0).toNat ≤ stop ∧ stop ≤ jobs.length) := by omega
    simp only [Option.bind_eq_bind, Option.bind_some, if_neg hstart, slice, if_neg hbounds]

/-- The arithmetic is right exactly when it fits; otherwise the method panics. -/
theorem applyOffsetAndLimit_iff : applyOffsetAndLimit checks jobs limit offset =
    some (part jobs (limit.map UInt64.toNat) (offset.getD 0).toNat) ↔
      Fits checks jobs.length limit offset := by
  constructor
  · intro h
    by_contra hnot
    rw [applyOffsetAndLimit_panics hnot] at h
    cases h
  · rintro (h | ⟨rfl, h⟩)
    · exact applyOffsetAndLimit_fits h
    · exact applyOffsetAndLimit_past h

/-- Whoever sorts the matching jobs and slices them paginates them. -/
theorem sorted_paginates {matching : Job → Prop}
    {list : Option UInt64 → Option UInt64 → Option (List Job)} (hnodup : jobs.Nodup)
    (hmem : ∀ job, job ∈ jobs ↔ matching job)
    (hlist : ∀ limit offset, list limit offset =
      applyOffsetAndLimit checks (jobs.insertionSort Job.newestFirst) limit offset) :
    Paginates checks matching list (jobs.insertionSort Job.newestFirst) where
  ranked := Ranks.insertionSort hnodup hmem
  parts limit offset := by rw [hlist, applyOffsetAndLimit_iff]
  pages size m hsize hall hfit := by
    refine ⟨_, ?_, length_pages (jobs.insertionSort Job.newestFirst) size m, ?_⟩
    · rw [flatten_pages, List.take_of_length_le hall]
    · intro k page hpage
      have hk : k < m := by
        rw [← length_pages (jobs.insertionSort Job.newestFirst) size m]
        exact (List.getElem?_eq_some_iff.mp hpage).1
      have hend : (k + 1) * size ≤ m * size := Nat.mul_le_mul_right size hk
      rw [Nat.succ_mul] at hend
      rw [getElem?_pages hk] at hpage
      rw [← hpage, hlist, applyOffsetAndLimit_fits, Option.map_some, Option.getD_some,
        UInt64.toNat_ofNat_of_lt' (by omega), UInt64.toNat_ofNat_of_lt' (by omega)]
      rw [Option.getD_some, Option.getD_some, UInt64.toNat_ofNat_of_lt' (by omega),
        UInt64.toNat_ofNat_of_lt' (by omega)]
      omega

end Qml
