import Mathlib.Data.List.Infix
import Qml.Memory.Effects
import Qml.Redis.Listing
import Qml.Redis.Sending

namespace Qml
open Lib

namespace Db

/-- `ZREVRANGE`: both ends are included, and negative ones count from the last member. -/
def zrevrange (db : Db) (key : ZKey) (start stop : Int) : List String :=
  let members := ((db.zsets key).entries.insertionSort notBelow).map Prod.fst
  let len : Int := members.length
  let first := max 0 (if start < 0 then start + len else start)
  let last := if stop < 0 then stop + len else stop
  (members.drop first.toNat).take (last + 1 - first).toNat

end Db

/-- The command that only the listing of available jobs makes. -/
inductive RangeCmd : Type → Type
  | zrevrange (key : ZKey) (start stop : Int) : RangeCmd (List String)

/-- The commands of the listing of available jobs. -/
abbrev ListCmd (ρ : Type) : Type := RangeCmd ρ ⊕ Cmd ρ

def ListCmd.perform (codec : Codec) (moment : Moment) (db : Db) : ListCmd ρ → ρ × Db
  | .inl (.zrevrange key start stop) => (db.zrevrange key start stop, db)
  | .inr cmd => cmd.perform codec moment db

namespace RedisStorage

/-- `(n as isize) - 1`, and `-1` without a limit; `none` is the panic of a build that
checks for overflow. -/
def endIndex (checks : Bool) : Option UInt64 → Option Int64
  | some n =>
    if checks && decide (n.toInt64 = Int64.minValue) then none else some (n.toInt64 - 1)
  | none => some (-1)

/-- The jobs that are still available among those listed, after those found so far. -/
def recheck (limit : Option UInt64) :
    List String → List Job → Prog ListCmd (Except StorageError (List Job))
  | [], jobs => pure (.ok jobs)
  | jobId :: jobIds, jobs => do
    match ← (get jobId).translate fun cmd => Prog.ask (.inr cmd) with
    | .error e => return .error e
    | .ok none => recheck limit jobIds jobs
    | .ok (some job) => do
      let now ← Prog.ask (.inr .now)
      if isJobAvailable now job then
        let jobs := jobs ++ [job]
        if limit.any fun limit => decide (limit.toNat ≤ jobs.length) then return .ok jobs
        else recheck limit jobIds jobs
      else recheck limit jobIds jobs

/-- A panic is `none`. -/
def getAvailableJobs (checks : Bool) (limit : Option UInt64) :
    Prog ListCmd (Option (Except StorageError (List Job))) :=
  match endIndex checks limit with
  | none => pure none
  | some endIndex => do
    let jobIds ← Prog.ask (.inl (.zrevrange .available 0 endIndex.toInt))
    let jobs ← recheck limit jobIds []
    return some jobs

end RedisStorage
open RedisStorage

variable {codec : Codec} {db : Db} {now : DateTime} {limit : Option UInt64} {ids : List String}
  {jobs result : List Job} {checks : Bool} {moments : Nat → Moment} {id : String} {job : Job}

namespace Db

/-- A stored job that is available at the moment. -/
def ready (db : Db) (now : DateTime) (id : String) : Bool :=
  (db.get id).any fun blob => isJobAvailable now blob.job

/-- The identifiers of all of them. -/
def readyIds (db : Db) (now : DateTime) : List String :=
  (db.jobs.filter fun _ blob => isJobAvailable now blob.job).keys

/-- The jobs that a recheck of the listed identifiers finds. -/
def rechecked (db : Db) (now : DateTime) (ids : List String) : List Job :=
  (db.found ids).filter (isJobAvailable now)

/-- The library can read what is stored under the listed identifiers. -/
def Legible (db : Db) (ids : List String) : Prop :=
  ∀ id ∈ ids, ∀ blob, db.get id = some blob → blob.readable = true

theorem legible_none (h : db.get id = none) : db.Legible (id :: ids) ↔ db.Legible ids := by
  rw [Legible, List.forall_mem_cons, h]
  exact and_iff_right fun blob hblob => by cases hblob

theorem legible_some {blob : Blob} (h : db.get id = some blob) :
    db.Legible (id :: ids) ↔ blob.readable = true ∧ db.Legible ids := by
  rw [Legible, List.forall_mem_cons, h]
  simp only [Option.some.injEq, forall_eq']
  rfl

theorem mem_readyIds : id ∈ db.readyIds now ↔ db.ready now id = true := by
  rw [readyIds, Dict.mem_keys, ready, Option.any_eq_true]
  simp only [Dict.get?_filter, Option.filter_eq_some_iff]
  rfl

theorem rechecked_none (h : db.get id = none) :
    db.rechecked now (id :: ids) = db.rechecked now ids := by
  rw [rechecked, found, List.filterMap_cons, h]
  rfl

theorem rechecked_some {blob : Blob} (h : db.get id = some blob) :
    db.rechecked now (id :: ids) =
      if isJobAvailable now blob.job then blob.job :: db.rechecked now ids
      else db.rechecked now ids := by
  rw [rechecked, found, List.filterMap_cons, h, Option.map_some, List.filter_cons]
  rfl

theorem readyIds_nodup : (db.readyIds now).Nodup := Dict.nodup _

/-- A recheck keeps the available ones of the listed identifiers. -/
theorem ids_rechecked (hnamed : db.Named) :
    (db.rechecked now ids).map Job.id = ids.filter (db.ready now) := by
  induction ids with
  | nil => rfl
  | cons id ids ih =>
    rw [List.filter_cons, ready]
    cases hget : db.get id with
    | none => rwa [rechecked_none hget]
    | some blob =>
      rw [rechecked_some hget, Option.any_some]
      split
      · rw [List.map_cons, ih, hnamed id blob hget]
      · exact ih

theorem length_rechecked (hnamed : db.Named) :
    (db.rechecked now ids).length = (ids.filter (db.ready now)).length := by
  rw [← ids_rechecked hnamed, List.length_map]

/-- At most all available jobs are found. -/
theorem length_rechecked_le (hnamed : db.Named) (hids : ids.Nodup) :
    (db.rechecked now ids).length ≤ (db.readyIds now).length := by
  rw [length_rechecked hnamed]
  apply List.Subperm.length_le
  apply List.subperm_of_subset (hids.filter _)
  exact fun id hid => mem_readyIds.mpr (List.mem_filter.mp hid).2

/-- All of them are found exactly when all of them are listed. -/
theorem length_rechecked_eq (hnamed : db.Named) (hids : ids.Nodup) :
    (db.rechecked now ids).length = (db.readyIds now).length ↔
      ∀ id, db.ready now id = true → id ∈ ids := by
  rw [length_rechecked hnamed]
  have hsub : ids.filter (db.ready now) ⊆ db.readyIds now :=
    fun id hid => mem_readyIds.mpr (List.mem_filter.mp hid).2
  have hnodup := hids.filter (db.ready now)
  constructor
  · intro h id hready
    have hperm := (List.subperm_of_subset hnodup hsub).perm_of_length_le h.ge
    exact (List.mem_filter.mp (hperm.mem_iff.mpr (mem_readyIds.mpr hready))).1
  · intro h
    apply List.Perm.length_eq
    rw [List.perm_ext_iff_of_nodup hnodup readyIds_nodup]
    intro id
    rw [mem_readyIds, List.mem_filter, and_iff_right_iff_imp]
    exact h id

/-- How many of `n` jobs a limit lets through. -/
def cut (limit : Option UInt64) (n : Nat) : Nat :=
  match limit with
  | some limit => min limit.toNat n
  | none => n

/-- What a listing of available jobs is for: as many as the limit allows, each once. -/
structure Answers (db : Db) (now : DateTime) (limit : Option UInt64) (jobs : List Job) : Prop where
  stored : ∀ job ∈ jobs, (db.get job.id).map Blob.job = some job ∧ isJobAvailable now job = true
  once : (jobs.map Job.id).Nodup
  length : jobs.length = cut limit (db.readyIds now).length

/-- The members of the sorted set that a listing looks at are the right ones. -/
inductive Serves (db : Db) (now : DateTime) (ids : List String) : Option UInt64 → Prop
  | nothing (legible : db.Legible ids) (none : ∀ id ∈ ids, db.ready now id = false) :
      Serves db now ids (some 0)
  | everything {limit : Option UInt64} (positive : limit ≠ some 0) (legible : db.Legible ids)
      (all : ∀ id, db.ready now id = true → id ∈ ids) : Serves db now ids limit
  | enough {n : UInt64} {pre : List String} (positive : n ≠ 0) (front : pre <+: ids)
      (legible : db.Legible pre) (many : n.toNat ≤ (pre.filter (db.ready now)).length) :
      Serves db now ids (some n)

/-- Some of what a recheck finds, in the right number. -/
theorem answers_take (hnamed : db.Named) (hids : ids.Nodup) {n : Nat}
    (hlength : ((db.rechecked now ids).take n).length = cut limit (db.readyIds now).length) :
    db.Answers now limit ((db.rechecked now ids).take n) where
  stored job hjob := by
    obtain ⟨hfound, hready⟩ := List.mem_filter.mp (List.mem_of_mem_take hjob)
    obtain ⟨id, -, hget⟩ := List.mem_filterMap.mp hfound
    obtain ⟨blob, hblob, rfl⟩ := Option.map_eq_some_iff.mp hget
    rw [hnamed id blob hblob]
    exact ⟨hget, hready⟩
  once := by
    rw [List.map_take, ids_rechecked hnamed]
    exact (hids.filter _).sublist (List.take_sublist _ _)
  length := hlength

theorem zrevrange_nodup {key : ZKey} {start stop : Int} : (db.zrevrange key start stop).Nodup := by
  have hmembers : (((db.zsets key).entries.insertionSort notBelow).map Prod.fst).Nodup :=
    ((List.perm_insertionSort notBelow _).map Prod.fst).nodup_iff.mpr (db.zsets key).nodup
  exact (hmembers.sublist (List.drop_sublist _ _)).sublist (List.take_sublist _ _)

end Db

/-- What a recheck comes to when the clock stands still. -/
def scan (db : Db) (now : DateTime) (limit : Option UInt64) :
    List String → List Job → Except StorageError (List Job)
  | [], jobs => .ok jobs
  | id :: ids, jobs =>
    match db.get id with
    | none => scan db now limit ids jobs
    | some blob =>
      if blob.readable then
        if isJobAvailable now blob.job then
          let jobs := jobs ++ [blob.job]
          if limit.any fun limit => decide (limit.toNat ≤ jobs.length) then .ok jobs
          else scan db now limit ids jobs
        else scan db now limit ids jobs
      else .error (.serialization "Failed to deserialize job")

section
variable {α : Type}

theorem alone_get {k : Except StorageError (Option Job) → Prog ListCmd α} :
    ((get id).translate (fun cmd => Prog.ask (.inr cmd)) >>= k).alone
        (fun moment db _ cmd => some (ListCmd.perform codec moment db cmd)) moments db =
      (k (match db.get id with
        | some blob => (parse "Failed to deserialize job" blob).map some
        | none => .ok none)).alone
          (fun moment db _ cmd => some (ListCmd.perform codec moment db cmd))
          (fun i => moments (i + 1)) db := by
  simp only [RedisStorage.get, Prog.ask_bind, Prog.translate, Prog.call_bind, Prog.alone,
    ListCmd.perform, Cmd.perform]
  cases db.get id <;> rfl

theorem alone_now {k : DateTime → Prog ListCmd α} :
    (Prog.ask (.inr .now) >>= k).alone
        (fun moment db _ cmd => some (ListCmd.perform codec moment db cmd)) moments db =
      (k (moments 0).now).alone
        (fun moment db _ cmd => some (ListCmd.perform codec moment db cmd))
        (fun i => moments (i + 1)) db := rfl

end

theorem alone_recheck (hnow : ∀ i, (moments i).now = now) :
    (recheck limit ids jobs).alone
        (fun moment db _ cmd => some (ListCmd.perform codec moment db cmd)) moments db =
      some (scan db now limit ids jobs, db) := by
  induction ids generalizing jobs moments with
  | nil => rfl
  | cons id ids ih =>
    have hnow' : ∀ i, (moments (i + 1)).now = now := fun i => hnow (i + 1)
    have hnow'' : ∀ i, (moments (i + 1 + 1)).now = now := fun i => hnow (i + 2)
    rw [recheck, alone_get, scan]
    cases db.get id with
    | none => exact ih hnow'
    | some blob =>
      simp only [parse]
      by_cases hread : blob.readable = true
      · simp only [if_pos hread, Except.map]
        rw [alone_now, hnow' 0]
        by_cases hready : isJobAvailable now blob.job = true
        · simp only [if_pos hready]
          by_cases hfull : (limit.any fun limit =>
              decide (limit.toNat ≤ (jobs ++ [blob.job]).length)) = true
          · simp only [if_pos hfull]
            rfl
          · simp only [if_neg hfull]
            exact ih hnow''
        · simp only [if_neg hready]
          exact ih hnow''
      · simp only [if_neg hread, Except.map]
        rfl

theorem scan_none (h : db.get id = none) :
    scan db now limit (id :: ids) jobs = scan db now limit ids jobs := by
  rw [scan, h]

theorem scan_some {blob : Blob} (h : db.get id = some blob) (hread : blob.readable = true) :
    scan db now limit (id :: ids) jobs =
      if isJobAvailable now blob.job then
        if limit.any fun limit => decide (limit.toNat ≤ jobs.length + 1) then
          .ok (jobs ++ [blob.job])
        else scan db now limit ids (jobs ++ [blob.job])
      else scan db now limit ids jobs := by
  simp only [scan, h, hread, if_true, List.length_append, List.length_singleton]

theorem scan_illegible {blob : Blob} (h : db.get id = some blob) (hread : ¬ blob.readable = true) :
    scan db now limit (id :: ids) jobs =
      .error (.serialization "Failed to deserialize job") := by
  simp only [scan, h]
  rw [if_neg hread]

/-- A scan that returns has read as far as the limit, or everything. -/
theorem scan_ok (hroom : ∀ n, limit = some n → jobs.length < n.toNat)
    (h : scan db now limit ids jobs = .ok result) :
    ∃ pre, pre <+: ids ∧ db.Legible pre ∧ result = jobs ++ db.rechecked now pre ∧
      ((∃ n, limit = some n ∧ result.length = n.toNat) ∨
        pre = ids ∧ ∀ n, limit = some n → result.length < n.toNat) := by
  induction ids generalizing jobs with
  | nil =>
    cases h
    exact ⟨[], List.nil_prefix, fun _ hid => absurd hid List.not_mem_nil,
      (List.append_nil _).symm, .inr ⟨rfl, hroom⟩⟩
  | cons id ids ih =>
    cases hget : db.get id with
    | none =>
      rw [scan_none hget] at h
      obtain ⟨pre, hpre, hlegible, rfl, hend⟩ := ih hroom h
      refine ⟨id :: pre, List.cons_prefix_cons.mpr ⟨rfl, hpre⟩, (Db.legible_none hget).mpr hlegible,
        ?_, hend.imp_right fun hall => ⟨by rw [hall.1], hall.2⟩⟩
      rw [Db.rechecked_none hget]
    | some blob =>
      by_cases hread : blob.readable = true
      · rw [scan_some hget hread] at h
        split at h
        · rename_i hready
          split at h
          · -- the loop stops here
            rename_i hfull
            cases h
            obtain ⟨n, hn, hle⟩ := (Option.any_eq_true ..).mp hfull
            have hn' := hroom n hn
            have hle' := of_decide_eq_true hle
            refine ⟨[id], List.cons_prefix_cons.mpr ⟨rfl, List.nil_prefix⟩,
              (Db.legible_some hget).mpr ⟨hread, fun _ hid => absurd hid List.not_mem_nil⟩,
              ?_, .inl ⟨n, hn, ?_⟩⟩
            · rw [Db.rechecked_some hget, if_pos hready]
              rfl
            · rw [List.length_append, List.length_singleton]
              omega
          · rename_i hmore
            have hroom' : ∀ n, limit = some n → (jobs ++ [blob.job]).length < n.toNat := by
              rintro n rfl
              simpa using hmore
            obtain ⟨pre, hpre, hlegible, rfl, hend⟩ := ih hroom' h
            refine ⟨id :: pre, List.cons_prefix_cons.mpr ⟨rfl, hpre⟩,
              (Db.legible_some hget).mpr ⟨hread, hlegible⟩, ?_,
              hend.imp_right fun hall => ⟨by rw [hall.1], hall.2⟩⟩
            rw [Db.rechecked_some hget, if_pos hready, List.append_assoc, List.singleton_append]
        · rename_i hready
          obtain ⟨pre, hpre, hlegible, rfl, hend⟩ := ih hroom h
          refine ⟨id :: pre, List.cons_prefix_cons.mpr ⟨rfl, hpre⟩,
            (Db.legible_some hget).mpr ⟨hread, hlegible⟩, ?_,
            hend.imp_right fun hall => ⟨by rw [hall.1], hall.2⟩⟩
          rw [Db.rechecked_some hget, if_neg hready]
      · rw [scan_illegible hget hread] at h
        cases h

/-- What lies beyond the limit is not read. -/
theorem scan_full {n : UInt64} {pre post : List String} (hroom : jobs.length < n.toNat)
    (hlegible : db.Legible pre) (hfull : n.toNat ≤ jobs.length + (db.rechecked now pre).length) :
    scan db now (some n) (pre ++ post) jobs =
      .ok ((jobs ++ db.rechecked now pre).take n.toNat) := by
  induction pre generalizing jobs with
  | nil =>
    have hnone : (db.rechecked now []).length = 0 := rfl
    omega
  | cons id pre ih =>
    rw [List.cons_append]
    cases hget : db.get id with
    | none =>
      rw [Db.rechecked_none hget] at hfull ⊢
      rw [scan_none hget]
      exact ih hroom ((Db.legible_none hget).mp hlegible) hfull
    | some blob =>
      obtain ⟨hread, hlegible⟩ := (Db.legible_some hget).mp hlegible
      rw [Db.rechecked_some hget] at hfull ⊢
      rw [scan_some hget hread]
      by_cases hready : isJobAvailable now blob.job = true
      · rw [if_pos hready] at hfull ⊢
        rw [if_pos hready, List.append_cons jobs blob.job (db.rechecked now pre), Option.any_some]
        rw [List.length_cons] at hfull
        by_cases hlast : n.toNat ≤ jobs.length + 1
        · rw [decide_eq_true hlast, if_pos rfl, List.take_append_of_le_length (by simpa),
            List.take_of_length_le]
          rw [List.length_append, List.length_singleton]
          omega
        · rw [decide_eq_false hlast, if_neg Bool.false_ne_true]
          apply ih _ hlegible
          · rw [List.length_append, List.length_singleton]
            omega
          · rw [List.length_append, List.length_singleton]
            omega
      · rw [if_neg hready] at hfull ⊢
        rw [if_neg hready]
        exact ih hroom hlegible hfull

theorem scan_all (hlegible : db.Legible ids)
    (hroom : ∀ n, limit = some n → (jobs ++ db.rechecked now ids).length < n.toNat) :
    scan db now limit ids jobs = .ok (jobs ++ db.rechecked now ids) := by
  induction ids generalizing jobs with
  | nil => rw [scan, Db.rechecked, Db.found, List.filterMap_nil, List.filter_nil, List.append_nil]
  | cons id ids ih =>
    cases hget : db.get id with
    | none =>
      rw [Db.rechecked_none hget] at hroom ⊢
      rw [scan_none hget]
      exact ih ((Db.legible_none hget).mp hlegible) hroom
    | some blob =>
      obtain ⟨hread, hlegible⟩ := (Db.legible_some hget).mp hlegible
      rw [Db.rechecked_some hget] at hroom ⊢
      rw [scan_some hget hread]
      by_cases hready : isJobAvailable now blob.job = true
      · rw [if_pos hready, List.append_cons jobs blob.job (db.rechecked now ids)] at hroom
        have hmore : limit.any (fun limit => decide (limit.toNat ≤ jobs.length + 1)) = false := by
          cases limit with
          | none => rfl
          | some n =>
            have := hroom n rfl
            simp only [List.length_append, List.length_singleton] at this
            rw [Option.any_some]
            exact decide_eq_false (by omega)
        rw [if_pos hready, if_pos hready, hmore, if_neg Bool.false_ne_true,
          List.append_cons jobs blob.job (db.rechecked now ids)]
        exact ih hlegible hroom
      · rw [if_neg hready] at hroom ⊢
        rw [if_neg hready]
        exact ih hlegible hroom

/-- A limit of zero still lets the first available job through. -/
theorem scan_zero : scan db now (some 0) ids [] = .ok [] ↔
    db.Legible ids ∧ ∀ id ∈ ids, db.ready now id = false := by
  induction ids with
  | nil =>
    refine iff_of_true rfl ⟨?_, ?_⟩
    · exact fun _ hid => absurd hid List.not_mem_nil
    · exact fun _ hid => absurd hid List.not_mem_nil
  | cons id ids ih =>
    rw [List.forall_mem_cons, Db.ready]
    cases hget : db.get id with
    | none =>
      rw [scan_none hget, ih, Db.legible_none hget]
      exact and_congr_right fun _ => (and_iff_right rfl).symm
    | some blob =>
      rw [Db.legible_some hget, Option.any_some]
      by_cases hread : blob.readable = true
      · rw [scan_some hget hread, and_iff_right hread]
        by_cases hready : isJobAvailable now blob.job = true
        · simp [hready]
        · rw [if_neg hready, ih]
          exact and_congr_right fun _ => (and_iff_right (Bool.eq_false_iff.mpr hready)).symm
      · rw [scan_illegible hget hread]
        exact iff_of_false (fun h => by cases h) fun h => hread h.1.1

/-- A scan answers as it should when it looks at the right members, and only then. -/
theorem scan_answers (hnamed : db.Named) (hids : ids.Nodup) :
    (∃ jobs, scan db now limit ids [] = .ok jobs ∧ db.Answers now limit jobs) ↔
      db.Serves now ids limit := by
  have hroom : limit ≠ some 0 → ∀ n, limit = some n → ([] : List Job).length < n.toNat := by
    rintro hzero n rfl
    exact Nat.pos_of_ne_zero fun h => hzero (congrArg some (UInt64.toNat_inj.mp h))
  constructor
  · rintro ⟨jobs, hscan, hanswers⟩
    have hlength := hanswers.length
    by_cases hzero : limit = some 0
    · subst hzero
      obtain rfl := List.eq_nil_of_length_eq_zero (hlength.trans (Nat.zero_min _))
      obtain ⟨hlegible, hnone⟩ := scan_zero.mp hscan
      exact .nothing hlegible hnone
    · obtain ⟨pre, hpre, hlegible, rfl, hend⟩ := scan_ok (hroom hzero) hscan
      rw [List.nil_append] at hend hlength
      rcases hend with ⟨n, rfl, hfull⟩ | ⟨rfl, hfew⟩
      · rw [Db.length_rechecked hnamed] at hfull
        exact .enough (fun h => hzero (congrArg some h)) hpre hlegible hfull.ge
      · refine .everything hzero hlegible ((Db.length_rechecked_eq hnamed hids).mp ?_)
        cases limit with
        | none => exact hlength
        | some n =>
          have := hfew n rfl
          rw [Db.cut] at hlength
          omega
  · intro h
    cases h with
    | nothing hlegible hnone =>
      refine ⟨[], scan_zero.mpr ⟨hlegible, hnone⟩, ?_⟩
      exact ⟨fun _ hjob => absurd hjob List.not_mem_nil, List.nodup_nil, (Nat.zero_min _).symm⟩
    | everything hzero hlegible hall =>
      have hlength := (Db.length_rechecked_eq hnamed hids).mpr hall
      by_cases hfew : ∀ n, limit = some n → (db.rechecked now ids).length < n.toNat
      · refine ⟨_, scan_all hlegible hfew, ?_⟩
        rw [← List.take_length (l := db.rechecked now ids)]
        apply Db.answers_take hnamed hids
        rw [List.take_length, hlength]
        cases limit with
        | none => rfl
        | some n => exact (Nat.min_eq_right (hlength ▸ (hfew n rfl).le)).symm
      · obtain ⟨n, rfl, hmany⟩ : ∃ n, limit = some n ∧ n.toNat ≤ (db.rechecked now ids).length := by
          by_contra hnot
          exact hfew fun n hn => not_le.mp fun hle => hnot ⟨n, hn, hle⟩
        have hscan : scan db now (some n) (ids ++ []) [] =
            .ok ((db.rechecked now ids).take n.toNat) :=
          scan_full (hroom hzero n rfl) hlegible (by simpa using hmany)
        rw [List.append_nil] at hscan
        refine ⟨_, hscan, Db.answers_take hnamed hids ?_⟩
        rw [List.length_take, hlength, Db.cut]
    | @enough n pre hzero hpre hlegible hmany =>
      obtain ⟨post, rfl⟩ := hpre
      rw [← Db.length_rechecked hnamed] at hmany
      have hpos := hroom (fun h => hzero (Option.some.inj h)) n rfl
      have hsub : pre.Nodup := hids.sublist (List.sublist_append_left pre post)
      have hle : (db.rechecked now pre).length ≤ (db.readyIds now).length :=
        Db.length_rechecked_le hnamed hsub
      refine ⟨_, scan_full hpos hlegible (by simpa using hmany), Db.answers_take hnamed hsub ?_⟩
      rw [List.length_take, Db.cut, Nat.min_eq_left hmany, Nat.min_eq_left (hmany.trans hle)]

/-- The in-memory backend lists what it should of the same jobs. -/
theorem memory_answers {s : MemoryStorage} (h : Mirrors db s) :
    db.Answers now limit
      (MemoryStorage.getAvailableJobsInternal s.jobs now (limit.map UInt64.toNat)) := by
  have hall : ∀ job ∈ MemoryStorage.getAvailableJobsInternal s.jobs now none,
      (db.get job.id).map Blob.job = some job ∧ isJobAvailable now job = true := by
    intro job hjob
    rw [h.same]
    exact MemoryStorage.mem_getAvailableJobsInternal.mp hjob
  have honce : ((MemoryStorage.getAvailableJobsInternal s.jobs now none).map Job.id).Nodup := by
    have hvalues : s.jobs.values.Nodup := List.Nodup.of_map Job.id s.jobs.values_nodup
    refine Jobs.ids_nodup
      (fun job hjob => (MemoryStorage.mem_getAvailableJobsInternal.mp hjob).1) ?_
    exact (List.perm_insertionSort _ _).nodup_iff.mpr (hvalues.filter _)
  have hsame : ((MemoryStorage.getAvailableJobsInternal s.jobs now none).map Job.id).Perm
      (db.readyIds now) := by
    rw [List.perm_ext_iff_of_nodup honce Db.readyIds_nodup]
    intro id
    rw [Db.mem_readyIds, Db.ready, Option.any_eq_true, List.mem_map]
    constructor
    · rintro ⟨job, hjob, rfl⟩
      obtain ⟨hget, hready⟩ := hall job hjob
      obtain ⟨blob, hblob, rfl⟩ := Option.map_eq_some_iff.mp hget
      exact ⟨blob, hblob, hready⟩
    · rintro ⟨blob, hblob, hready⟩
      have hget : s.jobs.get? id = some blob.job := by rw [← h.same, hblob, Option.map_some]
      obtain rfl := Jobs.id_of_get? hget
      exact ⟨blob.job, MemoryStorage.mem_getAvailableJobsInternal.mpr ⟨hget, hready⟩, rfl⟩
  have hlength := hsame.length_eq
  rw [List.length_map] at hlength
  cases limit with
  | none => exact ⟨hall, honce, hlength⟩
  | some n =>
    refine ⟨fun job hjob => hall job (List.mem_of_mem_take hjob), ?_, ?_⟩
    · exact honce.sublist ((List.take_sublist _ _).map _)
    · rw [Db.cut, ← hlength]
      exact List.length_take

theorem alone_getAvailableJobs {stop : Int64} (hnow : ∀ i, (moments i).now = now)
    (hstop : endIndex checks limit = some stop) :
    (RedisStorage.getAvailableJobs checks limit).alone
        (fun moment db _ cmd => some (ListCmd.perform codec moment db cmd)) moments db =
      some (some (scan db now limit (db.zrevrange .available 0 stop.toInt) []), db) := by
  rw [getAvailableJobs, hstop]
  refine (Prog.alone_map (fun moment db _ cmd => some (ListCmd.perform codec moment db cmd))
    (recheck limit (db.zrevrange .available 0 stop.toInt) []) some (fun i => moments (i + 1))
    db).trans ?_
  rw [alone_recheck fun i => hnow (i + 1), Option.map_some]

/-- Run alone, the listing gives as many available jobs as the limit allows exactly when it
looks at the right members of the sorted set; the in-memory backend always does. -/
theorem available_listing_iff {tr : List (Step Db Turn)} (hr : Db.Turns codec tr db)
    (checks : Bool) (limit : Option UInt64) (now : DateTime) :
    (∀ moments : Nat → Moment, (∀ i, (moments i).now = now) →
      ((∃ jobs, (RedisStorage.getAvailableJobs checks limit).alone
          (fun moment db _ cmd => some (ListCmd.perform codec moment db cmd)) moments db =
            some (some (.ok jobs), db) ∧ db.Answers now limit jobs) ↔
        ∃ stop, endIndex checks limit = some stop ∧
          db.Serves now (db.zrevrange .available 0 stop.toInt) limit)) ∧
    ∀ s, Mirrors db s → db.Answers now limit
      (MemoryStorage.getAvailableJobsInternal s.jobs now (limit.map UInt64.toNat)) := by
  refine ⟨fun moments hnow => ?_, fun s => memory_answers⟩
  have hnamed := Db.named_run hr
  rw [getAvailableJobs]
  cases hstop : endIndex checks limit with
  | none =>
    refine iff_of_false ?_ ?_
    · rintro ⟨jobs, hrun, -⟩
      cases hrun
    · rintro ⟨stop, hsome, -⟩
      cases hsome
  | some stop =>
    simp only [Option.some.injEq, exists_eq_left', ← scan_answers hnamed Db.zrevrange_nodup]
    refine exists_congr fun jobs => and_congr_left fun _ => ?_
    have hrun : (RedisStorage.getAvailableJobs checks limit).alone
        (fun moment db _ cmd => some (ListCmd.perform codec moment db cmd)) moments db =
          some (some (scan db now limit (db.zrevrange .available 0 stop.toInt) []), db) :=
      alone_getAvailableJobs hnow hstop
    rw [getAvailableJobs, hstop] at hrun
    rw [hrun, Option.some.injEq, Prod.mk.injEq, and_iff_left rfl, Option.some.injEq]

/-- One job ready at once and one that falls due after a minute. -/
def readyAndDue : List Turn :=
  let noon : DateTime := 1767268800000000000
  [.at noon (.enqueue (.new "a" noon "send_email" .null)),
    .at noon (.enqueue { Job.new "b" noon "send_email" .null with
      state := .scheduled noon (noon + Duration.minutes 1) "later" })]

/-- Both jobs stored, with what can be checked of the database. -/
theorem readyAndDue_run (P : Db → Bool)
    (h : P (((replay (Db.turn .lossless) .empty readyAndDue).getLast?.map Step.after).getD .empty) =
      true) :
    ∃ tr db, Db.Turns .lossless tr db ∧ P db = true := by
  obtain ⟨db, hr⟩ := replay_run (Db.turn .lossless) .empty readyAndDue
  exact ⟨_, db, hr, hr.eq_last ▸ h⟩

/-- Whether the listing comes to the given number of jobs. -/
def Db.lists (db : Db) (now : DateTime) (limit : Option UInt64) (n : Nat) : Bool :=
  decide ((scan db now limit (db.zrevrange .available 0 (-1)) []).toOption.map List.length = some n)

theorem Db.lists_run {n : Nat} (h : db.lists now limit n = true)
    (hstop : endIndex checks limit = some (-1)) :
    ∃ jobs, (RedisStorage.getAvailableJobs checks limit).alone
        (fun moment db _ cmd => some (ListCmd.perform codec moment db cmd)) (fun _ => ⟨now, []⟩)
        db = some (some (.ok jobs), db) ∧ jobs.length = n := by
  have hlast : Int64.toInt (-1) = -1 := by decide
  rw [alone_getAvailableJobs (fun _ => rfl) hstop, hlast]
  have hlists := of_decide_eq_true h
  cases hscan : scan db now limit (db.zrevrange .available 0 (-1)) [] with
  | error e =>
    rw [hscan] at hlists
    cases hlists
  | ok jobs =>
    rw [hscan] at hlists
    exact ⟨jobs, rfl, Option.some.inj hlists⟩

theorem available_listing_iff_single : ∃ tr db, Db.Turns .lossless tr db ∧ ∃ jobs,
    (RedisStorage.getAvailableJobs true none).alone
        (fun moment db _ cmd => some (ListCmd.perform .lossless moment db cmd))
        (fun _ => ⟨1767268800000000000, []⟩) db = some (some (.ok jobs), db) ∧
      db.Answers 1767268800000000000 none jobs := by
  obtain ⟨tr, db, hr, hP⟩ := readyAndDue_run (fun db =>
    decide (db.zrevrange .available 0 (-1) = ["a"]) && (db.get "a").all Blob.readable &&
      decide (db.readyIds 1767268800000000000 = ["a"])) (by decide +kernel)
  simp only [Bool.and_eq_true, decide_eq_true_eq] at hP
  obtain ⟨⟨hlisted, hread⟩, hready⟩ := hP
  refine ⟨tr, db, hr, ((available_listing_iff hr true none _).1 _ fun _ => rfl).mpr
    ⟨-1, rfl, ?_⟩⟩
  have hlast : Int64.toInt (-1) = -1 := by decide
  rw [hlast, hlisted]
  refine .everything nofun ?_ fun id hid => hready ▸ Db.mem_readyIds.mpr hid
  intro id hid blob hblob
  rw [List.mem_singleton.mp hid] at hblob
  rw [hblob] at hread
  exact hread

/-- After the minute has passed two jobs are available, and one of them is listed; with a
limit of zero one is listed as well. -/
theorem due_job_not_listed : ∃ tr db now, Db.Turns .lossless tr db ∧
    (db.readyIds now).length = 2 ∧
    ∀ limit ∈ [none, some 0], ∃ jobs, (RedisStorage.getAvailableJobs true limit).alone
        (fun moment db _ cmd => some (ListCmd.perform .lossless moment db cmd)) (fun _ => ⟨now, []⟩)
        db = some (some (.ok jobs), db) ∧ jobs.length = 1 := by
  let now : DateTime := 1767268800000000000 + Duration.minutes 2
  obtain ⟨tr, db, hr, hP⟩ := readyAndDue_run (fun db =>
    decide ((db.readyIds now).length = 2) && db.lists now none 1 && db.lists now (some 0) 1)
    (by decide +kernel)
  simp only [Bool.and_eq_true, decide_eq_true_eq] at hP
  obtain ⟨⟨htwo, hall⟩, hzero⟩ := hP
  refine ⟨tr, db, now, hr, htwo, ?_⟩
  simp only [List.forall_mem_cons, List.not_mem_nil, false_imp_iff, implies_true, and_true]
  exact ⟨Db.lists_run hall rfl, Db.lists_run hzero rfl⟩

end Qml
