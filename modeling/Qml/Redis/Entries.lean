import Qml.Redis.Commands

namespace Qml
open Lib RedisStorage

def Blob.isIn (kind : JobStateKind) (blob : Blob) : Bool := decide (blob.job.state.kind = kind)

namespace Db

/-- How many blobs are stored in a state. -/
def stored (db : Db) (kind : JobStateKind) : Nat := db.jobs.count fun _ => Blob.isIn kind

/-- How far the counter of a state is off. -/
def drift (db : Db) (kind : JobStateKind) : Int :=
  db.count (kindToStateName kind) - db.stored kind

/-- Every blob is stored under the identifier of its job. -/
def Named (db : Db) : Prop := ∀ id blob, db.get id = some blob → blob.job.id = id

/-- The entries an identifier has in the indices while its blob is stored. -/
structure Indexes (db : Db) (id : String) (job : Job) : Prop where
  state : ∀ name, db.mem (.state name) id = decide (name = stateToString job.state)
  all : db.mem .all id = true
  ready : job.state.kind = .enqueued →
    (db.score .available id).isSome ∧ (db.score (.byQueue job.queue) id).isSome
  available : (db.score .available id).isSome → job.state.kind.waiting = true
  byQueue : ∀ queue, (db.score (.byQueue queue) id).isSome →
    job.state.kind.waiting = true ∧ queue = job.queue

/-- An identifier that no index knows. -/
structure Forgets (db : Db) (id : String) : Prop where
  sets : ∀ key, db.mem key id = false
  zsets : ∀ key, db.score key id = none

/-- The indices say of an identifier what its blob says. -/
def Fits (db : Db) (id : String) : Prop :=
  match db.get id with
  | some blob => db.Indexes id blob.job
  | none => db.Forgets id

/-- An identifier whose blob stays as it is. Index entries may go if no blob is
stored, and so may sorted-set entries of a job that is not `Enqueued`. -/
structure Trims (db db' : Db) (id : String) : Prop where
  get : db'.get id = db.get id
  sets : ∀ key, db'.mem key id = db.mem key id ∨ db.get id = none ∧ db'.mem key id = false
  zsets : ∀ key, db'.score key id = db.score key id ∨
    (∀ blob, db.get id = some blob → blob.job.state.kind ≠ .enqueued) ∧ db'.score key id = none

/-- All that a script does to a database, with the identifiers of the blobs it
writes. A script reads and writes in one go, so what fits before fits after. -/
structure Effect (db db' : Db) (written : List String) : Prop where
  named : db'.Named
  stored : ∀ id ∈ written, (db.get id).isSome
  trims : ∀ id, id ∉ written → Trims db db' id
  fits : ∀ id ∈ written, db.Fits id → db'.Fits id
  drift : ∀ kind, db'.drift kind = db.drift kind

section
variable {db db' db'' : Db} {id id' : String} {blob : Blob} {key : SetKey} {zkey : ZKey}
  {kind kind' : JobStateKind} {x : ℚ} {delta : Int} {written written' : List String}

theorem fits_some (h : db.get id = some blob) : db.Fits id ↔ db.Indexes id blob.job := by
  simp only [Fits, h]

theorem fits_none (h : db.get id = none) : db.Fits id ↔ db.Forgets id := by
  simp only [Fits, h]

@[simp] theorem drift_sadd : (db.sadd key id).drift kind = db.drift kind := rfl
@[simp] theorem drift_srem : (db.srem key id).drift kind = db.drift kind := rfl
@[simp] theorem drift_zadd : (db.zadd zkey id x).drift kind = db.drift kind := rfl
@[simp] theorem drift_zrem : (db.zrem zkey id).drift kind = db.drift kind := rfl

@[simp] theorem drift_hincrby :
    (db.hincrby (kindToStateName kind') delta).drift kind =
      db.drift kind + if kind = kind' then delta else 0 := by
  have hname : kindToStateName kind = kindToStateName kind' ↔ kind = kind' :=
    ⟨kindToStateName_injective, fun h => h ▸ rfl⟩
  simp only [drift, count_hincrby, hname]
  change _ - ((db.stored kind : Nat) : Int) = _
  omega

/-- What the blob of an identifier adds to the number of stored jobs in a state. -/
def share (db : Db) (id : String) (kind : JobStateKind) : Nat :=
  if (db.get id).any (Blob.isIn kind) then 1 else 0

theorem share_some (h : db.get id = some blob) :
    db.share id kind = if blob.isIn kind then 1 else 0 := by
  rw [share, h, Option.any_some]

theorem share_none (h : db.get id = none) : db.share id kind = 0 := by
  rw [share, h]
  rfl

theorem stored_set (db : Db) (id : String) (blob : Blob) (kind : JobStateKind) :
    (db.set id blob).stored kind + db.share id kind =
    db.stored kind + if blob.isIn kind then 1 else 0 :=
  Dict.count_insert (fun _ => Blob.isIn kind) db.jobs id blob

theorem stored_del (db : Db) (id : String) (kind : JobStateKind) :
    (db.del id).stored kind + db.share id kind = db.stored kind :=
  Dict.count_erase (fun _ => Blob.isIn kind) db.jobs id

theorem drift_set : (db.set id blob).drift kind =
    db.drift kind + db.share id kind - if blob.isIn kind then 1 else 0 := by
  have h := stored_set db id blob kind
  rw [drift, count_set, drift]
  cases hb : blob.isIn kind <;> rw [hb] at h <;>
    simp only [if_true, Bool.false_eq_true, if_false] at h ⊢ <;> omega

theorem drift_del : (db.del id).drift kind = db.drift kind + db.share id kind := by
  have h := stored_del db id kind
  rw [drift, count_del, drift]
  omega

theorem Trims.of_same (hget : db'.get id = db.get id)
    (hsets : ∀ key, db'.mem key id = db.mem key id)
    (hzsets : ∀ key, db'.score key id = db.score key id) : Trims db db' id :=
  ⟨hget, fun key => .inl (hsets key), fun key => .inl (hzsets key)⟩

theorem Trims.trans (h : Trims db db' id) (h' : Trims db' db'' id) : Trims db db'' id where
  get := h'.get.trans h.get
  sets key := by
    rcases h'.sets key with hs | ⟨hnone, hs⟩
    · rw [hs]
      exact h.sets key
    · exact .inr ⟨h.get ▸ hnone, hs⟩
  zsets key := by
    rcases h'.zsets key with hs | ⟨hkind, hs⟩
    · rw [hs]
      exact h.zsets key
    · exact .inr ⟨h.get ▸ hkind, hs⟩

/-- What is trimmed never fitted a stored `Enqueued` job. -/
theorem Trims.fits (h : Trims db db' id) (hfits : db.Fits id) : db'.Fits id := by
  cases hget : db.get id with
  | none =>
    rw [fits_none hget] at hfits
    rw [fits_none (h.get.trans hget)]
    refine ⟨fun key => ?_, fun key => ?_⟩
    · rcases h.sets key with hs | ⟨-, hs⟩
      · rw [hs, hfits.sets key]
      · exact hs
    · rcases h.zsets key with hs | ⟨-, hs⟩
      · rw [hs, hfits.zsets key]
      · exact hs
  | some blob =>
    rw [fits_some hget] at hfits
    rw [fits_some (h.get.trans hget)]
    have hsets : ∀ key, db'.mem key id = db.mem key id := by
      intro key
      rcases h.sets key with hs | ⟨hnone, -⟩
      · exact hs
      · exact absurd (hget.symm.trans hnone) (by simp)
    have hkeep : ∀ key, (db'.score key id).isSome → (db.score key id).isSome := by
      intro key hsome
      rcases h.zsets key with hs | ⟨-, hs⟩
      · rwa [hs] at hsome
      · simp [hs] at hsome
    have hsame : blob.job.state.kind = .enqueued → ∀ key, db'.score key id = db.score key id := by
      intro hkind key
      rcases h.zsets key with hs | ⟨hne, -⟩
      · exact hs
      · exact absurd hkind (hne blob hget)
    exact {
      state := fun name => (hsets _).trans (hfits.state name)
      all := (hsets _).trans hfits.all
      ready := fun hkind => by
        rw [hsame hkind, hsame hkind]
        exact hfits.ready hkind
      available := fun hsome => hfits.available (hkeep _ hsome)
      byQueue := fun queue hsome => hfits.byQueue queue (hkeep _ hsome) }

theorem Effect.refl (hnamed : db.Named) : Effect db db [] :=
  ⟨hnamed, by simp, fun _ _ => .of_same rfl (fun _ => rfl) fun _ => rfl, by simp, fun _ => rfl⟩

theorem Effect.trans (h : Effect db db' written) (h' : Effect db' db'' written') :
    Effect db db'' (written ++ written') where
  named := h'.named
  stored id hid := by
    by_cases hw : id ∈ written
    · exact h.stored id hw
    · rw [← (h.trims id hw).get]
      exact h'.stored id ((List.mem_append.mp hid).resolve_left hw)
  trims id hid := by
    rw [List.mem_append, not_or] at hid
    exact (h.trims id hid.1).trans (h'.trims id hid.2)
  fits id hid hfits := by
    have hmid : db'.Fits id := by
      by_cases hw : id ∈ written
      · exact h.fits id hw hfits
      · exact (h.trims id hw).fits hfits
    by_cases hw : id ∈ written'
    · exact h'.fits id hw hmid
    · exact (h'.trims id hw).fits hmid
  drift kind := (h'.drift kind).trans (h.drift kind)

theorem Effect.congr (h : Effect db db' written) (hw : ∀ id, id ∈ written ↔ id ∈ written') :
    Effect db db' written' where
  named := h.named
  stored id hid := h.stored id ((hw id).mpr hid)
  trims id hid := h.trims id (mt (hw id).mp hid)
  fits id hid := h.fits id ((hw id).mpr hid)
  drift := h.drift

theorem Effect.keeps_fits (h : Effect db db' written) (hfits : db.Fits id) : db'.Fits id := by
  by_cases hw : id ∈ written
  · exact h.fits id hw hfits
  · exact (h.trims id hw).fits hfits

end
end Db
end Qml
