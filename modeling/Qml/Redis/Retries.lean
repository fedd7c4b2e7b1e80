import Qml.Dashboard.Retries
import Qml.Redis.Sending

namespace Qml
open Lib

/-- What a retry has seen, by the commands it sends. -/
def Retry.received (seen : Retry) : {ρ : Type} → Cmd ρ → ρ → Retry
  | _, .get _, found => { seen with copy := found.map Blob.job }
  | _, .updateIfState .., reply => { seen with applied := decide (reply = .ok) }
  | _, _, _ => seen

namespace RedisStorage

/-- `retry_job` over this backend. -/
def retryJob (jobId : String) : Prog Cmd (Except QmlError Bool) := do
  match ← RedisStorage.get jobId with
  | .error e => return .error (.storageError e.display)
  | .ok none => return .ok false
  | .ok (some job) =>
    match job.state with
    | .failed .. =>
      let now ← Prog.ask .now
      let retried ← updateIfState { job with state := .enqueued now job.queue } .failed
      return retried.mapError fun e => .storageError e.display
    | _ => return .ok false

/-- The commands of a retry: it reads one job and swaps the copy back once, over a
stored `Failed` only. -/
def Retrying (id : String) : Contract Cmd Retry where
  may seen _ cmd :=
    match cmd with
    | .now => True
    | .get jobId => jobId = id
    | .updateIfState job expected newVariant score =>
      expected = JobStateKind.failed.name ∧ newVariant = job.state.kind.name ∧
        (∃ now, score = newScore now job) ∧ seen.applied = false ∧ seen.Writes id job
    | _ => False
  step seen _ cmd reply seen' := seen' = seen.received cmd reply ∧
    match cmd, reply with
    | .get jobId, some blob => blob.job.id = jobId
    | _, _ => True

/-- It returns `Ok(true)` when the swap was applied, and only then. -/
theorem retryJob_retrying (id : String) : (retryJob id).wp (Retrying id)
    (fun result seen => result = .ok true ↔ seen.applied = true) .none := by
  simp only [retryJob, RedisStorage.get, updateIfState, Prog.ask_bind, Prog.call_bind]
  refine ⟨rfl, ?_⟩
  rintro (_ | blob) _ ⟨rfl, hanswer⟩
  · simp [Retry.received, Retry.none]
  · change blob.job.id = id at hanswer
    simp only [Prog.monad_pure, Prog.pure_bind, parse]
    cases blob.readable with
    | false => simp [Retry.received, Retry.none, Except.map]
    | true =>
      simp only [if_true, Except.map]
      split
      · refine ⟨trivial, ?_⟩
        rintro now _ ⟨rfl, -⟩
        refine ⟨trivial, ?_⟩
        rintro clock _ ⟨rfl, -⟩
        refine ⟨⟨rfl, rfl, ⟨clock, rfl⟩, rfl, blob.job, now, rfl, hanswer, rfl⟩, ?_⟩
        rintro (_ | _ | _) _ ⟨rfl, -⟩
        all_goals simp [Retry.received, Retry.none, Except.mapError]
      · simp [Retry.received, Retry.none]

/-- Whether a command stores a job as `Failed` under the identifier. -/
def storesFailed (id : String) : Cmd ρ → Bool
  | .set id' blob => decide (id' = id ∧ blob.job.state.kind = .failed)
  | .update job .. | .updateIfState job .. => decide (job.id = id ∧ job.state.kind = .failed)
  | _ => false

variable {codec : Codec} {operation : Operation} {stage : Stage} {db db' : Db} {moment : Moment}
  {ρ : Type} {cmd : Cmd ρ} {reply : ρ} {id : String} {blob : Blob}

/-- No other command makes a blob one of a `Failed` job. -/
theorem failed_of_sent (hsent : Sent codec operation stage cmd) (hnamed : db.Named)
    (h : cmd.perform codec moment db = (reply, db')) (hget : db'.get id = some blob)
    (hkind : blob.job.state.kind = .failed) :
    db.get id = some blob ∨ storesFailed id cmd = true := by
  cases hsent with
  | now | get | smembers | sadd | srem | zadd | zrem | hincrby =>
    cases h
    exact .inl hget
  | del gone =>
    cases h
    rw [Db.get_del] at hget
    split at hget
    · cases hget
    · exact .inl hget
  | @set job hop =>
    cases h
    rw [Db.get_set] at hget
    split at hget
    · cases hget
      exact .inr (by simp [storesFailed, *])
    · exact .inl hget
  | @update job now hop =>
    rcases updateScript_get hnamed h id with hsame | ⟨rfl, -, hnew⟩
    · exact .inl (hsame ▸ hget)
    · cases hnew.symm.trans hget
      rw [codec.serialize_job] at hkind
      exact .inr (by simp [storesFailed, hkind])
  | @updateIfState job expected now hop =>
    rcases updateIfStateScript_cases hnamed h with ⟨-, rfl⟩ | ⟨old, -, -, -, rfl⟩
    · exact .inl hget
    · rw [get_rewrite] at hget
      split at hget
      · cases hget
        rw [codec.serialize_job] at hkind
        exact .inr (by simp [storesFailed, *])
      · exact .inl hget
  | requeue t now hop hlost hread hback =>
    subst hback
    rcases updateScript_get hnamed h id with hsame | ⟨rfl, -, hnew⟩
    · exact .inl (hsame ▸ hget)
    · cases hnew.symm.trans hget
      rw [codec.serialize_job] at hkind
      cases hkind
  | claimDue htimed t limit =>
    rcases claimDueScript_get hnamed htimed (smembers_nodup moment.order _) h id with
      hsame | ⟨old, new, -, hnew, -, hk, -⟩
    · exact .inl (hsame ▸ hget)
    · cases hnew.symm.trans hget
      cases hk.symm.trans hkind
  | fetch workerId t candidates =>
    rcases fetchScript_get hnamed h id with hsame | ⟨old, new, -, hnew, -, hk, -⟩
    · exact .inl (hsame ▸ hget)
    · cases hnew.symm.trans hget
      cases hk.symm.trans hkind

end RedisStorage

namespace Traffic
open RedisStorage

/-- The command that client `i` sends next. -/
def pending (s : Traffic) (i : Nat) : Option ((ρ : Type) × Cmd ρ) :=
  match s.clients[i]? with
  | some ⟨_, .call cmd _, _⟩ => some ⟨_, cmd⟩
  | _ => none

/-- Whether a client stores the job as `Failed` in this step. -/
def fails (x : Step Traffic Event) (id : String) : Bool :=
  match x.label with
  | .step i _ => (x.before.pending i).any fun cmd => storesFailed id cmd.2
  | .start _ => false

/-- The job that a swap out of `Failed` writes in this step, if it applies. -/
def swaps (codec : Codec) (x : Step Traffic Event) : Option Job :=
  match x.label with
  | .step i _ =>
    match x.before.pending i with
    | some ⟨_, .updateIfState job expected newVariant score⟩ =>
      match updateIfStateScript codec x.before.db job expected newVariant score with
      | (.ok, _) => if expected = JobStateKind.failed.name then some job else none
      | _ => none
    | _ => none
  | .start _ => none

/-- If the blob of the job is one of a `Failed` job, that job is `c`. -/
def Matches (s : Traffic) (id : String) (c : Job) : Prop :=
  ∀ blob, s.db.get id = some blob → blob.job.state.kind = .failed → blob.job = c

variable {codec : Codec} {s t u : Traffic} {e : Event} {id : String} {c : Job} {db : Db}
  {pre mid : List (Step Traffic Event)}

theorem pending_eq {i : Nat} {client : Client} {ρ : Type} {cmd : Cmd ρ} {k : ρ → Prog Cmd Unit}
    (hclient : s.clients[i]? = some client) (hprogram : client.program = .call cmd k) :
    s.pending i = some ⟨ρ, cmd⟩ := by
  obtain ⟨operation, program, stage⟩ := client
  subst hprogram
  simp [pending, hclient]

/-- Only a client that stores it so can put a job back into `Failed`. -/
theorem Matches.next (hs : s.Orderly codec) (h : Next codec s e t) (hm : s.Matches id c)
    (hfails : fails ⟨s, e, t⟩ id = false) : t.Matches id c := by
  intro blob hblob hkind
  cases next_moves h with
  | started => exact hm blob hblob hkind
  | sent hclient hprogram hcmd =>
    obtain ⟨hsent, -⟩ := hs.sent hclient hprogram
    rcases failed_of_sent hsent hs.named hcmd hblob hkind with hsame | hstores
    · exact hm blob hsame hkind
    · simp [fails, pending_eq hclient hprogram, hstores] at hfails

theorem swaps_db {job : Job} (hs : s.Orderly codec) (h : swaps codec ⟨s, e, t⟩ = some job)
    (hnext : Next codec s e t) : ∃ score, updateIfStateScript codec s.db job
      JobStateKind.failed.name job.state.kind.name score = (.ok, t.db) := by
  cases next_moves hnext with
  | started => cases h
  | sent hclient hprogram hcmd =>
    obtain ⟨hsent, -⟩ := hs.sent hclient hprogram
    simp only [swaps, pending_eq hclient hprogram] at h
    cases hsent with
    | updateIfState now hop =>
      dsimp only at h
      split at h
      · rename_i db happlied
        split at h
        · rename_i hexpected
          cases h
          cases hcmd.symm.trans happlied
          exact ⟨_, hexpected ▸ happlied⟩
        · cases h
      · cases h
    | _ => cases h

/-- Over this backend too a retry changes nothing but the state of its job: what it writes is the
job stored immediately before its swap, if no client stores the job as `Failed` between the moment
at which the retry reads it and the swap. -/
theorem swap_keeps_work {seen : Retry} {read : Blob} {job : Job} (hnamed : db.Named)
    (hpre : Run (Next codec) (idle db) pre u) (hread : u.db.get id = some read)
    (hcopy : seen.copy = some read.job) (hmid : Run (Next codec) u mid s)
    (hquiet : ∀ z ∈ mid, fails z id = false) (hwrites : seen.Writes id job)
    (hnext : Next codec s e t) (hswaps : swaps codec ⟨s, e, t⟩ = some job) :
    ∃ old now, s.db.get id = some old ∧ t.db.get id =
      some (codec.serialize { old.job with state := .enqueued now old.job.queue }) := by
  have hmatches : s.Orderly codec ∧ s.Matches id read.job := by
    refine hmid.stable (fun s => s.Orderly codec ∧ s.Matches id read.job)
      ⟨orderly_run hnamed hpre, fun blob hblob _ => ?_⟩ fun x hx hbefore => ?_
    · cases hread.symm.trans hblob
      rfl
    · obtain ⟨_, -, -, hstep⟩ := hmid.of_mem hx
      exact ⟨hbefore.1.next hstep, hbefore.2.next hbefore.1 hstep (hquiet x hx)⟩
  obtain ⟨score, happlied⟩ := swaps_db hmatches.1 hswaps hnext
  obtain ⟨old, -, hold, hkind, hdb⟩ :=
    (updateIfStateScript_cases hmatches.1.named happlied).resolve_left fun hno => hno.1 rfl
  obtain ⟨c, now, hc, hid, rfl⟩ := hwrites
  cases hcopy.symm.trans hc
  have hsame : s.db.get id = some old := hid ▸ hold
  have hjob : old.job = read.job := hmatches.2 old hsame hkind
  refine ⟨old, now, hsame, ?_⟩
  rw [hdb, get_rewrite, if_pos hid.symm, hjob]

end Traffic
end Qml
