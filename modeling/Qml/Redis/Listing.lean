import Qml.Memory.Listing
import Qml.Redis.Indices

namespace Qml
open Lib

namespace RedisStorage

/-- Read the listed jobs, after those read so far. -/
def getEach : List String → List Job → Prog Cmd (Except StorageError (List Job))
  | [], jobs => pure (.ok jobs)
  | jobId :: jobIds, jobs => do
    match ← get jobId with
    | .error e => return .error e
    | .ok none => getEach jobIds jobs
    | .ok (some job) => getEach jobIds (jobs ++ [job])

/-- The set of identifiers that a listing starts from. -/
def listKey : Option JobStateKind → SetKey
  | some kind => .state (kindToStateName kind)
  | none => .all

def list (checks : Bool) (stateFilter : Option JobStateKind) (limit offset : Option UInt64) :
    Prog Cmd (Except StorageError (Option (List Job))) := do
  let jobIds ← Prog.ask (.smembers (listKey stateFilter))
  match ← getEach jobIds [] with
  | .error e => return .error e
  | .ok jobs =>
    return .ok (applyOffsetAndLimit checks (jobs.insertionSort Job.newestFirst) limit offset)

end RedisStorage

/-- A database that holds the jobs of an in-memory backend in a form the library
reads, its indices in step with them. -/
structure Mirrors (db : Db) (s : MemoryStorage) : Prop where
  indexed : db.Indexed
  readable : ∀ id blob, db.get id = some blob → blob.readable = true
  same : ∀ id, (db.get id).map Blob.job = s.jobs.get? id

open RedisStorage

variable {codec : Codec} {db : Db} {s : MemoryStorage} {stateFilter : Option JobStateKind}
  {jobIds : List String} {jobs : List Job} {checks : Bool} {limit offset : Option UInt64}
  {id : String} {job : Job} {blob : Blob} {order : List String}

/-- The jobs that the listed identifiers stand for. -/
def Db.found (db : Db) (jobIds : List String) : List Job :=
  jobIds.filterMap fun id => (db.get id).map Blob.job

theorem wp_getEach (h : ∀ id blob, db.get id = some blob → blob.readable = true)
    {Q : Except StorageError (List Job) → Db → Prop} :
    Prog.wp (Alone codec) Q (getEach jobIds jobs) db ↔
      Q (.ok (jobs ++ db.found jobIds)) db := by
  induction jobIds generalizing jobs with
  | nil =>
    rw [Db.found, List.filterMap_nil, List.append_nil]
    rfl
  | cons id ids ih =>
    rw [getEach, wp_get, Db.found, List.filterMap_cons]
    cases hget : db.get id with
    | none => exact ih
    | some blob =>
      simp only [parse, h id blob hget, if_true, Except.map, Option.map_some]
      rw [ih, List.append_assoc, Db.found]
      rfl

namespace Mirrors

theorem mem_found (h : Mirrors db s) :
    job ∈ db.found (db.smembers order (listKey stateFilter)) ↔ s.Matches stateFilter job := by
  have hstored : ∀ id, (db.get id).map Blob.job = some job → job.id = id := by
    intro id hget
    rw [h.same] at hget
    exact Jobs.id_of_get? hget
  rw [Db.found, List.mem_filterMap, MemoryStorage.Matches, ← h.same]
  constructor
  · rintro ⟨id, hid, hget⟩
    obtain rfl := hstored id hget
    refine ⟨hget, fun kind hkind => ?_⟩
    subst hkind
    obtain ⟨blob, hblob, hin⟩ := (h.indexed.states kind job.id).mp (mem_smembers_iff.mp hid)
    rw [hblob, Option.map_some] at hget
    exact Option.some.inj hget ▸ hin
  · rintro ⟨hget, hin⟩
    refine ⟨job.id, mem_smembers_iff.mpr ?_, hget⟩
    obtain ⟨blob, hblob, rfl⟩ := Option.map_eq_some_iff.mp hget
    cases stateFilter with
    | none => exact (h.indexed.all _).mpr (by rw [hblob]; rfl)
    | some kind => exact (h.indexed.states kind _).mpr ⟨blob, hblob, hin kind rfl⟩

theorem found_nodup (h : Mirrors db s) (hids : jobIds.Nodup) : (db.found jobIds).Nodup := by
  apply List.Nodup.filterMap _ hids
  intro id id' job hid hid'
  rw [Option.mem_def, h.same] at hid hid'
  exact (Jobs.id_of_get? hid).symm.trans (Jobs.id_of_get? hid')

end Mirrors

/-- What a method is proved to give back is what it gives back. -/
theorem alone_eq {α : Type} {p : Prog Cmd α} {moments : Nat → Moment} {a : α}
    (h : p.wp (Alone codec) (fun r t => r = a ∧ t = db) db) :
    p.alone (fun moment db _ cmd => some (cmd.perform codec moment db)) moments db =
      some (a, db) := by
  have hreturns : ∃ r t, p.alone (fun moment db _ cmd => some (cmd.perform codec moment db))
      moments db = some (r, t) :=
    Prog.alone_returns (fun moment (_ : True) => alone_step moment)
      (fun _ _ _ _ _ _ => ⟨_, _, rfl⟩) (fun _ => trivial) h
  obtain ⟨r, t, hr⟩ := hreturns
  obtain ⟨rfl, rfl⟩ := Prog.alone_sound alone_step h hr
  exact hr

/-- A listing with nothing else going on leaves the database alone. -/
theorem list_returns (h : ∀ id blob, db.get id = some blob → blob.readable = true)
    {moments : Nat → Moment} :
    (RedisStorage.list checks stateFilter limit offset).alone
        (fun moment db _ cmd => some (cmd.perform codec moment db)) moments db =
      some (.ok (applyOffsetAndLimit checks
        ((db.found (db.smembers (moments 0).order (listKey stateFilter))).insertionSort
          Job.newestFirst) limit offset), db) := by
  change Prog.alone _ (getEach (db.smembers (moments 0).order (listKey stateFilter)) [] >>= _) _ _ =
    _
  apply alone_eq
  rw [Prog.wp_bind, wp_getEach h]
  exact ⟨rfl, rfl⟩

/-- Both listings give the parts they are asked for, unless the end of the part
does not fit in a `usize`. -/
theorem listing_pages (codec : Codec) (s : MemoryStorage) (checks : Bool)
    (stateFilter : Option JobStateKind) :
    (∃ full, Paginates checks (s.Matches stateFilter) (s.list checks stateFilter) full) ∧
    ∀ db, Mirrors db s → ∀ order, ∃ list full,
      (∀ limit offset (moments : Nat → Moment), (moments 0).order = order →
        (RedisStorage.list checks stateFilter limit offset).alone
            (fun moment db _ cmd => some (cmd.perform codec moment db)) moments db =
          some (.ok (list limit offset), db)) ∧
      Paginates checks (s.Matches stateFilter) list full := by
  refine ⟨⟨_, s.list_paginates checks stateFilter⟩, fun db h order => ?_⟩
  let jobs := db.found (db.smembers order (listKey stateFilter))
  refine ⟨applyOffsetAndLimit checks (jobs.insertionSort Job.newestFirst), _, ?_,
    sorted_paginates (h.found_nodup (smembers_nodup order _)) (fun _ => h.mem_found)
      fun _ _ => rfl⟩
  intro limit offset moments horder
  rw [list_returns h.readable, horder]

/-- Store a new job in both. -/
def stock (both : Db × MemoryStorage) (job : Job) : Db × MemoryStorage :=
  (both.1.add ⟨job, true⟩ (newScore 0 job), { both.2 with jobs := both.2.jobs.insert job })

theorem stock_mirrors {both : Db × MemoryStorage}
    (h : both.1.Consistent ∧ Mirrors both.1 both.2) (job : Job)
    (hnew : both.1.get job.id = none) :
    (stock both job).1.Consistent ∧ Mirrors (stock both job).1 (stock both job).2 := by
  obtain ⟨hconsistent, hmirrors⟩ := h
  have hadded := hconsistent.add (show both.1.get (Blob.mk job true).job.id = none from hnew)
    (newScore_scores : Scores (newScore 0 job) job)
  refine ⟨hadded, hadded.indexed, fun id blob hblob => ?_, fun id => ?_⟩
  · rw [stock, Db.get_add] at hblob
    split at hblob
    · cases hblob
      rfl
    · exact hmirrors.readable id blob hblob
  · rw [stock, Db.get_add, Jobs.get?_insert, apply_ite (Option.map Blob.job), hmirrors.same]
    rfl

/-- Three jobs, each created later than the one before. -/
def threeJobs : Db × MemoryStorage :=
  stock (stock (stock (.empty, .empty none) (.new "a" 0 "send_email" .null))
    (.new "b" 1 "send_email" .null)) (.new "c" 2 "send_email" .null)

theorem threeJobs_mirrors : Mirrors threeJobs.1 threeJobs.2 := by
  have hnone : Mirrors .empty (.empty none) :=
    ⟨Db.Consistent.empty.indexed, fun _ _ h => (by cases h), fun _ => rfl⟩
  have ha := @stock_mirrors (.empty, .empty none) ⟨.empty, hnone⟩
    (.new "a" 0 "send_email" .null) rfl
  have hb := stock_mirrors ha (.new "b" 1 "send_email" .null) rfl
  exact (stock_mirrors hb (.new "c" 2 "send_email" .null) rfl).2

/-- Two pages of at most two jobs, the newest first. -/
theorem listing_pages_several : ∃ db s, Mirrors db s ∧ s.jobs.size = 3 ∧ ∃ list full,
    (∀ limit offset, (RedisStorage.list true none limit offset).alone
        (fun moment db _ cmd => some (cmd.perform .lossless moment db)) default db =
      some (.ok (list limit offset), db)) ∧ Paginates true (s.Matches none) list full ∧
    (list (some 2) none).map (List.map Job.id) = some ["c", "b"] ∧
    (list (some 2) (some 2)).map (List.map Job.id) = some ["a"] := by
  obtain ⟨list, full, hlist, hpages⟩ :=
    (listing_pages .lossless _ true none).2 _ threeJobs_mirrors []
  have hpage : ∀ limit offset, ((RedisStorage.list true none limit offset).alone
      (fun moment db _ cmd => some (cmd.perform .lossless moment db)) default threeJobs.1).map
      (fun result => result.1.toOption.map (Option.map (List.map Job.id))) =
      some (some ((list limit offset).map (List.map Job.id))) := by
    intro limit offset
    rw [hlist limit offset default rfl]
    rfl
  refine ⟨_, _, threeJobs_mirrors, rfl, list, full,
    fun limit offset => hlist limit offset default rfl, hpages, ?_, ?_⟩
  · exact Option.some.inj (Option.some.inj ((hpage (some 2) none).symm.trans (by decide +kernel)))
  · exact Option.some.inj (Option.some.inj ((hpage (some 2) (some 2)).symm.trans
      (by decide +kernel)))

/-- Everything after the first of two jobs, with the largest limit there is. -/
theorem largest_limit_panics : ∃ s : MemoryStorage, s.jobs.size = 2 ∧ ∀ checks,
    (s.list checks none (some (.ofNat (2 ^ 64 - 1))) (some 1)).isNone = true :=
  let jobs := (Jobs.empty.insert (Job.new "a" 0 "send_email" .null)).insert
    (Job.new "b" 1 "send_email" .null)
  ⟨{ MemoryStorage.empty none with jobs := jobs }, by decide +kernel⟩

end Qml
