import Mathlib.Data.Rat.Floor
import Qml.Lib.Rounding
import Qml.Redis.Progress

namespace Qml
open Lib RedisStorage

namespace JsonNumber

/-- The double that the decoder of the scripts makes of a number. -/
def toDouble : JsonNumber → ℚ
  | .posInt n => toDigits 2 53 (n : ℚ)
  | .negInt n _ => toDigits 2 53 (n : ℚ)
  | .float x => x
  | .negZero => 0

/-- A whole number that is written with fourteen digits and no exponent. -/
def Plain (x : ℚ) : Prop := x.den = 1 ∧ |x| < 10 ^ 14

instance : DecidablePred Plain := fun x => inferInstanceAs (Decidable (x.den = 1 ∧ |x| < 10 ^ 14))

/-- The number that the library reads where fourteen digits were written. -/
def reread (readFloat : ℚ → ℚ) (x : ℚ) : JsonNumber :=
  if Plain x then if h : x.num < 0 then .negInt x.num h else .posInt x.num.toNat
  else .float (readFloat x)

/-- What a number is after a script has decoded and encoded it. -/
def recode (readFloat : ℚ → ℚ) : JsonNumber → JsonNumber
  | .negZero => .negZero
  | n => reread readFloat (toDigits 10 14 n.toDouble)

example : recode id (.posInt 12345678901234567) = .float 12345678901235000 := by decide +kernel

/-- The numbers that a script leaves alone. -/
def Survives (readFloat : ℚ → ℚ) : JsonNumber → Prop
  | .posInt n => n < 10 ^ 14
  | .negInt n _ => -10 ^ 14 < n
  | .float x => ¬ Plain (toDigits 10 14 x) ∧ readFloat (toDigits 10 14 x) = x
  | .negZero => True

end JsonNumber

namespace JsonValue
variable (readFloat : ℚ → ℚ)

mutual
/-- What a value is after a script has decoded and encoded it: an empty list has
become an empty object. -/
def recode : JsonValue → JsonValue
  | .number n => .number (n.recode readFloat)
  | .array [] => .object []
  | .array (item :: items) => .array (recode item :: recodeItems items)
  | .object members => .object (recodeMembers members)
  | value => value

def recodeItems : List JsonValue → List JsonValue
  | [] => []
  | item :: items => recode item :: recodeItems items

def recodeMembers : List (String × JsonValue) → List (String × JsonValue)
  | [] => []
  | (name, value) :: members => (name, recode value) :: recodeMembers members
end

mutual
/-- A value without empty lists whose numbers all survive. -/
def Survives : JsonValue → Prop
  | .number n => n.Survives readFloat
  | .array items => items ≠ [] ∧ SurviveItems items
  | .object members => SurviveMembers members
  | _ => True

def SurviveItems : List JsonValue → Prop
  | [] => True
  | item :: items => Survives item ∧ SurviveItems items

def SurviveMembers : List (String × JsonValue) → Prop
  | [] => True
  | (_, value) :: members => Survives value ∧ SurviveMembers members
end

mutual
/-- How deeply lists and objects are nested. -/
def depth : JsonValue → Nat
  | .array items => depthOfItems items + 1
  | .object members => depthOfMembers members + 1
  | _ => 0

def depthOfItems : List JsonValue → Nat
  | [] => 0
  | item :: items => max (depth item) (depthOfItems items)

def depthOfMembers : List (String × JsonValue) → Nat
  | [] => 0
  | (_, value) :: members => max (depth value) (depthOfMembers members)
end

end JsonValue

namespace JsonNumber
variable {readFloat : ℚ → ℚ} {n : JsonNumber} {i : Int}

theorem plain_intCast : Plain (i : ℚ) ↔ |i| < 10 ^ 14 := by
  simp only [Plain, Rat.den_intCast, true_and]
  exact_mod_cast Iff.rfl

/-- An integer keeps its digits on the way through a double and fourteen decimal
digits, if there are no more of them. -/
theorem rounded_of_lt (h : |i| < 10 ^ 14) : toDigits 10 14 (toDigits 2 53 (i : ℚ)) = i := by
  rw [toDigits_intCast (by decide) (h.trans (by decide)), toDigits_intCast (by decide) h]

theorem rounded_of_le (h : 10 ^ 14 ≤ |i|) :
    ¬ Plain (toDigits 10 14 (toDigits 2 53 (i : ℚ))) := by
  have hdouble : (10 : ℚ) ^ (14 : ℤ) ≤ |toDigits 2 53 (i : ℚ)| := by
    by_cases hexact : |i| < 2 ^ 53
    · rw [toDigits_intCast (by decide) hexact]
      exact_mod_cast h
    · have hlarge : ((2 : ℕ) : ℚ) ^ (53 : ℤ) ≤ |(i : ℚ)| := by
        exact_mod_cast not_lt.mp hexact
      exact (by norm_num : (10 : ℚ) ^ (14 : ℤ) ≤ ((2 : ℕ) : ℚ) ^ (53 : ℤ)).trans
        (zpow_le_abs_toDigits (by decide) (by decide) hlarge)
  intro hplain
  have hlarge : ((10 : ℕ) : ℚ) ^ (14 : ℤ) ≤ |toDigits 10 14 (toDigits 2 53 (i : ℚ))| :=
    zpow_le_abs_toDigits (by decide) (by decide) hdouble
  exact absurd hplain.2 (not_lt.mpr (by exact_mod_cast hlarge))

theorem reread_intCast (h : |i| < 10 ^ 14) : reread readFloat (i : ℚ) =
    if negative : i < 0 then .negInt i negative else .posInt i.toNat :=
  if_pos (plain_intCast.mpr h)

theorem reread_float {x : ℚ} (h : ¬ Plain x) : reread readFloat x = .float (readFloat x) :=
  if_neg h

theorem reread_ne_float {x y : ℚ} (h : Plain x) : reread readFloat x ≠ .float y := by
  rw [reread, if_pos h]
  split
  · exact fun heq => by cases heq
  · exact fun heq => by cases heq

/-- What becomes of an integer. -/
theorem reread_rounded : reread readFloat (toDigits 10 14 (toDigits 2 53 (i : ℚ))) =
      (if negative : i < 0 then .negInt i negative else .posInt i.toNat) ↔ |i| < 10 ^ 14 := by
  by_cases h : |i| < 10 ^ 14
  · rw [rounded_of_lt h, reread_intCast h]
    exact iff_of_true rfl h
  · rw [reread_float (rounded_of_le (not_lt.mp h))]
    refine iff_of_false ?_ h
    split
    · exact fun heq => by cases heq
    · exact fun heq => by cases heq

theorem recode_eq_iff : n.recode readFloat = n ↔ n.Survives readFloat := by
  cases n with
  | posInt n =>
    have h := @reread_rounded readFloat n
    rw [dif_neg (by omega), Int.toNat_natCast, Int.cast_natCast, Nat.abs_cast] at h
    exact h.trans (by exact_mod_cast Iff.rfl)
  | negInt n negative =>
    have h := @reread_rounded readFloat n
    rw [dif_pos negative, abs_of_neg negative] at h
    exact h.trans neg_lt
  | float x =>
    by_cases h : Plain (toDigits 10 14 x)
    · exact iff_of_false (reread_ne_float h) fun hs => hs.1 h
    · refine Iff.trans (Eq.congr_left (reread_float h)) ?_
      rw [float.injEq]
      exact (and_iff_right h).symm
  | negZero => exact iff_of_true rfl trivial

end JsonNumber

namespace JsonValue
variable {readFloat : ℚ → ℚ}

mutual
theorem recode_eq_iff : (value : JsonValue) →
    (value.recode readFloat = value ↔ value.Survives readFloat)
  | .null | .bool _ | .string _ => by simp [recode, Survives]
  | .number n => by
    rw [recode, Survives, number.injEq]
    exact JsonNumber.recode_eq_iff
  | .array [] => by simp [recode, Survives]
  | .array (item :: items) => by
    rw [recode, Survives, SurviveItems, array.injEq, List.cons.injEq, recode_eq_iff item,
      recodeItems_eq_iff items]
    simp
  | .object members => by
    rw [recode, Survives, object.injEq]
    exact recodeMembers_eq_iff members

theorem recodeItems_eq_iff : (items : List JsonValue) →
    (recodeItems readFloat items = items ↔ SurviveItems readFloat items)
  | [] => iff_of_true rfl trivial
  | item :: items => by
    rw [recodeItems, SurviveItems, List.cons.injEq, recode_eq_iff item, recodeItems_eq_iff items]

theorem recodeMembers_eq_iff : (members : List (String × JsonValue)) →
    (recodeMembers readFloat members = members ↔ SurviveMembers readFloat members)
  | [] => iff_of_true rfl trivial
  | (name, value) :: members => by
    rw [recodeMembers, SurviveMembers, List.cons.injEq, Prod.mk.injEq, recode_eq_iff value,
      recodeMembers_eq_iff members, and_iff_right rfl]
end

mutual
/-- The scripts nest a value as deeply as they found it. -/
theorem depth_recode : (value : JsonValue) → (value.recode readFloat).depth = value.depth
  | .null | .bool _ | .string _ | .number _ => by simp only [recode, depth]
  | .array [] => rfl
  | .array (item :: items) => by
    rw [recode, depth, depth, depthOfItems, depthOfItems, depth_recode item,
      depthOfItems_recode items]
  | .object members => by rw [recode, depth, depth, depthOfMembers_recode members]

theorem depthOfItems_recode : (items : List JsonValue) →
    depthOfItems (recodeItems readFloat items) = depthOfItems items
  | [] => rfl
  | item :: items => by
    rw [recodeItems, depthOfItems, depthOfItems, depth_recode item, depthOfItems_recode items]

theorem depthOfMembers_recode : (members : List (String × JsonValue)) →
    depthOfMembers (recodeMembers readFloat members) = depthOfMembers members
  | [] => rfl
  | (name, value) :: members => by
    rw [recodeMembers, depthOfMembers, depthOfMembers, depth_recode value,
      depthOfMembers_recode members]
end

end JsonValue

/-- How deeply the library lets a payload be nested when it reads a job. -/
def Job.maxDepth : Nat := 126

/-- A payload that the library can read inside a job. -/
def Job.legible (job : Job) : Bool := decide (job.payload.depth ≤ Job.maxDepth)

/-- A timeout that a script writes without an exponent. -/
def Job.timed (job : Job) : Bool := job.timeoutSeconds.all fun n => decide (n.toNat < 10 ^ 14)

/-- The encoders of jobs as they are, the reader of decimal fractions apart. The
scripts write the numbers of a job with fourteen digits; the library refuses an
exponent where it expects a whole number. -/
def Codec.cjson (readFloat : ℚ → ℚ) : Codec where
  serialize job := ⟨job, job.legible⟩
  recode job := ⟨{ job with payload := job.payload.recode readFloat }, job.legible && job.timed⟩
  serialize_job _ := rfl
  recode_job job _ := ⟨_, job.timeoutSeconds, rfl⟩

/-- A job that comes back from a script as it was. -/
structure Job.Survives (readFloat : ℚ → ℚ) (job : Job) : Prop where
  payload : job.payload.Survives readFloat
  legible : job.payload.depth ≤ Job.maxDepth
  timeout : ∀ n, job.timeoutSeconds = some n → n.toNat < 10 ^ 14

theorem Codec.cjson_recode_iff {readFloat : ℚ → ℚ} {job : Job} {state : JobState} :
    ((Codec.cjson readFloat).recode { job with state := state }).readable = true ∧
      ((Codec.cjson readFloat).recode { job with state := state }).job =
        { job with state := state } ↔ job.Survives readFloat := by
  simp only [Codec.cjson, Job.legible, Job.timed, Bool.and_eq_true, decide_eq_true_eq,
    Option.all_eq_true]
  constructor
  · rintro ⟨⟨hlegible, htimed⟩, hjob⟩
    have hpayload := congrArg Job.payload hjob
    exact ⟨JsonValue.recode_eq_iff _ |>.mp hpayload, hlegible, htimed⟩
  · intro h
    refine ⟨⟨h.legible, h.timeout⟩, ?_⟩
    rw [(JsonValue.recode_eq_iff job.payload).mpr h.payload]

/-- A job that a call has moved to another state, as it is stored before and after. -/
structure Claimed (db db' : Db) (id : String) (old new : Blob) : Prop where
  before : db.get id = some old
  after : db'.get id = some new
  moved : old.job.state.kind ≠ new.job.state.kind

/-- Every claimed job is stored and handed out as it was, but for its state. -/
def Preserves (db db' : Db) (handed : Except StorageError (List Job)) : Prop :=
  ∀ id old new, Claimed db db' id old new → new.readable = true ∧
    new.job = { old.job with state := new.job.state } ∧
    ∃ jobs, handed = .ok jobs ∧ new.job ∈ jobs

/-- The blobs are those of the claimed jobs, as a script has written them. -/
structure ClaimedBlobs (codec : Codec) (db db' : Db) (blobs : List Blob) : Prop where
  written : ∀ id old new, Claimed db db' id old new →
    new ∈ blobs ∧ ∃ state, new = codec.recode { old.job with state := state }
  claimed : ∀ blob ∈ blobs, ∃ id old, Claimed db db' id old blob

section
variable {codec : Codec} {db db' : Db} {kind : JobStateKind} {t : DateTime} {blobs : List Blob}
  {readFloat : ℚ → ℚ}

theorem ClaimedBlobs.of_same (h : ∀ id, db'.get id = db.get id) : ClaimedBlobs codec db db' [] where
  written id old new hclaimed := by
    have hsame := hclaimed.after
    rw [h, hclaimed.before] at hsame
    cases hsame
    exact absurd rfl hclaimed.moved
  claimed _ hblob := by cases hblob

namespace RedisStorage

/-- A promotion leaves alone what is in another state. -/
theorem Promoted.kept {id : String} {blob : Blob} (h : Promoted codec kind t db blobs db')
    (hget : db.get id = some blob) (hkind : blob.job.state.kind ≠ kind) :
    db'.get id = some blob := by
  induction h with
  | nil => exact hget
  | @cons db db' id' old blobs hold hk rest ih =>
    apply ih
    rw [get_rewrite, if_neg]
    · exact hget
    · intro hid
      subst hid
      cases hold.symm.trans hget
      exact hkind hk

theorem Promoted.claims (h : Promoted codec kind t db blobs db') (hkind : kind ≠ .enqueued) :
    ClaimedBlobs codec db db' blobs := by
  induction h with
  | nil db => exact .of_same fun _ => rfl
  | @cons db db' id old blobs hold hk rest ih =>
    have hstate := (recode_enqueued codec t.truncMicros old.job).2.2
    have hnew : db'.get id = some (codec.recode
        { old.job with state := .enqueued t.truncMicros old.job.queue }) := by
      apply rest.kept
      · simp
      · rw [hstate]
        exact hkind.symm
    have hmoved : old.job.state.kind ≠ (codec.recode
        { old.job with state := .enqueued t.truncMicros old.job.queue }).job.state.kind := by
      rw [hstate, hk]
      exact hkind
    constructor
    · intro k old' new hclaimed
      by_cases hid : k = id
      · subst hid
        cases hold.symm.trans hclaimed.before
        cases hnew.symm.trans hclaimed.after
        exact ⟨List.mem_cons_self, _, rfl⟩
      · have hbefore := hclaimed.before
        have hlater := ih.written k old' new ⟨by rwa [get_rewrite, if_neg hid], hclaimed.after,
          hclaimed.moved⟩
        exact ⟨List.mem_cons_of_mem _ hlater.1, hlater.2⟩
    · intro blob hblob
      rcases List.mem_cons.mp hblob with rfl | hblob
      · exact ⟨id, old, hold, hnew, hmoved⟩
      · obtain ⟨k, old', hclaimed⟩ := ih.claimed blob hblob
        refine ⟨k, old', ?_, hclaimed.after, hclaimed.moved⟩
        have hbefore := hclaimed.before
        rw [get_rewrite] at hbefore
        split at hbefore
        · -- The first job is not promoted once more.
          rename_i hid
          cases hbefore
          subst hid
          cases hnew.symm.trans hclaimed.after
          exact absurd rfl hclaimed.moved
        · exact hbefore

theorem fetchScript_claims {workerId : String} {candidates : List ZKey} {reply : Option Blob}
    (h : fetchScript codec db workerId t candidates = (reply, db')) :
    ClaimedBlobs codec db db' reply.toList := by
  rcases fetchScript_cases h with ⟨rfl, rfl, -⟩ | ⟨_, _, rfl, -, -, rfl⟩ |
    ⟨id, x, old, -, hold, hkind, rfl, rfl⟩
  · exact .of_same fun _ => rfl
  · exact .of_same fun _ => get_dropStale ..
  · have hstate := (recode_processing codec t.truncMicros workerId "redis-storage" old.job).2.2
    constructor
    · intro k old' new hclaimed
      have hafter := hclaimed.after
      rw [get_rewrite] at hafter
      split at hafter
      · rename_i hid
        subst hid
        cases hold.symm.trans hclaimed.before
        cases hafter
        exact ⟨List.mem_singleton_self _, _, rfl⟩
      · cases hafter.symm.trans hclaimed.before
        exact absurd rfl hclaimed.moved
    · intro blob hblob
      obtain rfl := List.mem_singleton.mp hblob
      refine ⟨id, old, hold, by simp, ?_⟩
      rw [hstate]
      rcases hkind with hkind | hkind <;> rw [hkind] <;> exact JobStateKind.noConfusion

theorem parseAll_ok {message : String} (h : ∀ blob ∈ blobs, blob.readable = true) :
    parseAll message blobs = .ok (blobs.map Blob.job) := by
  induction blobs with
  | nil => rfl
  | cons blob blobs ih =>
    rw [parseAll, parse, if_pos (h blob List.mem_cons_self),
      ih fun b hb => h b (List.mem_cons_of_mem _ hb)]
    rfl

end RedisStorage

/-- A call hands out and stores what it claims as it was, exactly when all of that
survives the scripts. -/
theorem ClaimedBlobs.preserves_iff {message : String}
    (h : ClaimedBlobs (.cjson readFloat) db db' blobs) :
    Preserves db db' (parseAll message blobs) ↔
      ∀ id old new, Claimed db db' id old new → old.job.Survives readFloat := by
  constructor
  · intro hpreserves id old new hclaimed
    obtain ⟨-, state, rfl⟩ := h.written id old new hclaimed
    obtain ⟨hreadable, hjob, -⟩ := hpreserves id old _ hclaimed
    exact Codec.cjson_recode_iff.mp ⟨hreadable, hjob⟩
  · intro hsurvives id old new hclaimed
    have hblobs : ∀ blob ∈ blobs, blob.readable = true := by
      intro blob hblob
      obtain ⟨id, old, hclaimed⟩ := h.claimed blob hblob
      obtain ⟨-, state, rfl⟩ := h.written id old blob hclaimed
      exact (Codec.cjson_recode_iff.mpr (hsurvives id old _ hclaimed)).1
    obtain ⟨hmem, state, hnew⟩ := h.written id old new hclaimed
    refine ⟨hblobs new hmem, ?_, _, parseAll_ok hblobs, List.mem_map_of_mem hmem⟩
    rw [hnew]
    exact (Codec.cjson_recode_iff.mpr (hsurvives id old new hclaimed)).2

theorem call_claimDueJobsLua {source variant field : String} {limit : UInt64}
    {moments : Nat → Moment} :
    db.call codec (claimDueJobsLua source variant field t limit) moments =
      if limit = 0 then some (.ok [], db)
      else
        let (claimed, db') := claimDueScript codec db source variant field t limit
          (db.smembers (moments 0).order (.state source))
        some (parseAll ("Failed to parse claimed " ++ source ++ " job") claimed, db') := by
  unfold claimDueJobsLua
  split
  · rfl
  · rfl

theorem fetch_preserves_iff {workerId : String} {queues : Option (List String)}
    {moments : Nat → Moment} {reply : Except StorageError (Option Job)}
    (hcall : db.call (.cjson readFloat) (RedisStorage.fetchAndLockJob workerId queues) moments =
      some (reply, db')) :
    Preserves db db' (reply.map Option.toList) ↔
      ∀ id old new, Claimed db db' id old new → old.job.Survives readFloat := by
  rw [call_fetchAndLockJob] at hcall
  generalize hscript : fetchScript _ db workerId _ _ = result at hcall
  obtain ⟨claimed, mid⟩ := result
  have hreply : some (reply.map Option.toList, db') =
      some (parseAll "Failed to parse job" claimed.toList, mid) := by
    cases claimed with
    | none =>
      cases hcall
      rfl
    | some blob =>
      cases hcall
      cases hreadable : blob.readable <;>
        simp [parseAll, parse, hreadable, Except.map, bind, Except.bind, pure, Except.pure]
  obtain ⟨hhanded, rfl⟩ := Prod.mk.inj (Option.some.inj hreply)
  rw [hhanded]
  exact (fetchScript_claims hscript).preserves_iff

theorem claimDue_preserves_iff {source variant field : String} {limit : UInt64}
    {moments : Nat → Moment} {reply : Except StorageError (List Job)}
    (htimed : Timed kind source variant field)
    (hcall : db.call (.cjson readFloat) (claimDueJobsLua source variant field t limit) moments =
      some (reply, db')) :
    Preserves db db' reply ↔
      ∀ id old new, Claimed db db' id old new → old.job.Survives readFloat := by
  rw [call_claimDueJobsLua] at hcall
  split at hcall
  · cases hcall
    exact @ClaimedBlobs.preserves_iff db db [] readFloat "" (.of_same fun _ => rfl)
  · generalize hscript : claimDueScript _ db source variant field t limit _ = result at hcall
    obtain ⟨claimed, mid⟩ := result
    cases hcall
    obtain ⟨due, mid, hc, hpromoted⟩ :=
      claimDueScript_promotes htimed (smembers_nodup (moments 0).order _) hscript
    have hclaims := hpromoted.claims htimed.ne_enqueued
    refine ClaimedBlobs.preserves_iff ⟨fun id old new h => ?_, fun blob hblob => ?_⟩
    · exact hclaims.written id old new
        ⟨((collectDue_finds hc).1 id).trans h.before, h.after, h.moved⟩
    · obtain ⟨id, old, h⟩ := hclaims.claimed blob hblob
      exact ⟨id, old, ((collectDue_finds hc).1 id).symm.trans h.before, h.after, h.moved⟩

end

/-- Over every database, a claim returns and stores the jobs it claims as they were, but
for the state, exactly when their payloads have no empty list and no number that is lost
in fourteen digits, their timeouts no more digits than that, and their nesting a depth
that the library reads. -/
theorem claims_preserve_iff (readFloat : ℚ → ℚ) (db : Db) (moments : Nat → Moment) :
    (∀ workerId queues reply db', db.call (.cjson readFloat)
        (RedisStorage.fetchAndLockJob workerId queues) moments = some (reply, db') →
      (Preserves db db' (reply.map Option.toList) ↔
        ∀ id old new, Claimed db db' id old new → old.job.Survives readFloat)) ∧
    (∀ now limit reply db', db.call (.cjson readFloat)
        (RedisStorage.claimDueScheduledJobs now limit) moments = some (reply, db') →
      (Preserves db db' reply ↔
        ∀ id old new, Claimed db db' id old new → old.job.Survives readFloat)) ∧
    ∀ now limit reply db', db.call (.cjson readFloat)
        (RedisStorage.claimDueRetryJobs now limit) moments = some (reply, db') →
      (Preserves db db' reply ↔
        ∀ id old new, Claimed db db' id old new → old.job.Survives readFloat) := by
  refine ⟨?_, ?_, ?_⟩
  · intro workerId queues reply db' hcall
    exact fetch_preserves_iff hcall
  · intro now limit reply db' hcall
    exact claimDue_preserves_iff .scheduled hcall
  · intro now limit reply db' hcall
    exact claimDue_preserves_iff .awaitingRetry hcall

/-- One `Enqueued` job that is to greet the given guests. -/
def greeting (guests : List JsonValue) : Db :=
  let job := Job.new "j" 0 "greet" (.object [("table", .number (.posInt 7)), ("to", .array guests)])
  (Db.empty.set "j" ⟨job, true⟩).zadd .available "j" 0

theorem claims_preserve_iff_greeting : ∃ reply db', (greeting [.string "ann"]).call (.cjson id)
      (RedisStorage.fetchAndLockJob "w" none) (fun _ => ⟨0, []⟩) = some (reply, db') ∧
    Preserves (greeting [.string "ann"]) db' (reply.map Option.toList) := by
  obtain ⟨⟨reply, db'⟩, hcall⟩ : ∃ result, (greeting [.string "ann"]).call (.cjson id)
      (RedisStorage.fetchAndLockJob "w" none) (fun _ => ⟨0, []⟩) = some result :=
    Option.isSome_iff_exists.mp (by decide +kernel)
  refine ⟨reply, db', hcall, ((claims_preserve_iff id _ _).1 _ _ _ _ hcall).mpr ?_⟩
  intro k old new hclaimed
  have hold := hclaimed.before
  simp only [greeting, Db.get_zadd, Db.get_set, Db.get_empty] at hold
  split at hold
  · cases hold
    refine ⟨?_, by decide, fun n hn => by cases hn⟩
    simp [Job.new, JsonValue.Survives, JsonValue.SurviveMembers, JsonValue.SurviveItems,
      JsonNumber.Survives]
  · cases hold

/-- An empty list of guests comes back as an empty object. -/
theorem empty_list_is_lost : ∃ reply db', (greeting []).call (.cjson id)
      (RedisStorage.fetchAndLockJob "w" none) (fun _ => ⟨0, []⟩) = some (reply, db') ∧
    ¬ Preserves (greeting []) db' (reply.map Option.toList) := by
  obtain ⟨⟨reply, db'⟩, hcall⟩ : ∃ result, (greeting []).call (.cjson id)
      (RedisStorage.fetchAndLockJob "w" none) (fun _ => ⟨0, []⟩) = some result :=
    Option.isSome_iff_exists.mp (by decide +kernel)
  have hclaims : ((greeting []).call (.cjson id) (RedisStorage.fetchAndLockJob "w" none)
      (fun _ => ⟨0, []⟩)).any (fun result =>
        (result.2.get "j").any (Blob.isIn .processing)) = true := by decide +kernel
  rw [hcall, Option.any_some, Option.any_eq_true] at hclaims
  obtain ⟨new, hnew, hkind⟩ := hclaims
  refine ⟨reply, db', hcall, fun hpreserves => ?_⟩
  have hclaimed : Claimed (greeting []) db' "j" ⟨.new "j" 0 "greet"
      (.object [("table", .number (.posInt 7)), ("to", .array [])]), true⟩ new := by
    refine ⟨by simp [greeting], hnew, fun hsame => ?_⟩
    rw [Blob.isIn, ← hsame] at hkind
    cases hkind
  have hpayload := ((fetch_preserves_iff hcall).mp hpreserves _ _ _ hclaimed).payload
  simp [Job.new, JsonValue.Survives, JsonValue.SurviveMembers] at hpayload

end Qml
