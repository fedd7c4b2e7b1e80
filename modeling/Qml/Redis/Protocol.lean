import Qml.Redis.Traffic

namespace Qml
open Lib RedisStorage

/-- The operations that the deletions are interleaved with, and the deletions. -/
def Operation.concurrent : Operation → Bool
  | .update .. | .updateIfState .. | .delete .. | .claimDueScheduledJobs .. | .claimDueRetryJobs ..
  | .deleteExpiredJobs .. | .fetchAndLockJob .. | .fetchAvailableJobsAtomic .. => true
  | .enqueue .. | .requeueStrandedJobs .. | .reclaimJobsFromServer .. => false

/-- The commands that leave the indices to the script they run, if any. -/
inductive Resting : {ρ : Type} → Cmd ρ → Prop
  | now : Resting .now
  | get (id : String) : Resting (.get id)
  | smembers (key : SetKey) : Resting (.smembers key)
  | update (now : DateTime) (job : Job) :
      Resting (.update job (stateToString job.state) (newScore now job))
  | updateIfState (now : DateTime) (job : Job) (expected : JobStateKind) :
      Resting (.updateIfState job expected.name job.state.kind.name (newScore now job))
  | claimDue {kind : JobStateKind} {source variant field : String}
      (htimed : Timed kind source variant field) (t : DateTime) (limit : UInt64) :
      Resting (.claimDue source variant field t limit)
  | fetch (workerId : String) (t : DateTime) (candidates : List ZKey) :
      Resting (.fetch workerId t candidates)

/-- The commands an operation may send in each stage. The removals come in one
fixed order, from the copy that was read. -/
inductive Allowed (operation : Operation) : Stage → {ρ : Type} → Cmd ρ → Prop
  | resting {stage : Stage} {ρ : Type} {cmd : Cmd ρ} (hstage : stage.window = none)
      (hcmd : Resting cmd) : Allowed operation stage cmd
  | erase {id : String} {job : Job} (hop : operation = .delete id) :
      Allowed operation (.read id job) (.del id)
  | clean {id : String} {job : Job} {made : Nat} {cmd : Cmd Unit}
      (hcmd : (removal id job)[made]? = some cmd) : Allowed operation (.erased id job made) cmd
  | begin {id : String} {job : Job} {t : DateTime} (hop : operation = .deleteExpiredJobs t) :
      Allowed operation (.read id job) (.srem (.state (stateToString job.state)) id)
  | sweep {id : String} {job : Job} {made : Nat} {cmd : Cmd Unit}
      (hcmd : (removal id job)[made + 1]? = some cmd) :
      Allowed operation (.sweeping id job (made + 1)) cmd
  | swept {id : String} {job : Job} {t : DateTime} (hop : operation = .deleteExpiredJobs t) :
      Allowed operation (.sweeping id job 5) (.del id)

/-- The order of commands that an operation keeps to. -/
def Protocol (operation : Operation) : Contract Cmd Stage where
  may stage _ cmd := Allowed operation stage cmd
  step stage _ cmd reply stage' := stage' = stage.after cmd reply

/-- Sent from where it stands, a program keeps to the order and ends with no
removal left to make. -/
abbrev Follows (operation : Operation) {α : Type} (p : Prog Cmd α) (stage : Stage) : Prop :=
  p.wp (Protocol operation) (fun _ stage => stage.window = none) stage

section
variable {operation : Operation} {α β ρ : Type} {Q : α → Stage → Prop} {stage : Stage}

theorem wp_send {cmd : Cmd ρ} {k : ρ → Prog Cmd α} :
    Prog.wp (Protocol operation) Q (.call cmd k) stage ↔ Allowed operation stage cmd ∧
      ∀ reply, Prog.wp (Protocol operation) Q (k reply) (stage.after cmd reply) := by
  rw [Prog.wp_call]
  exact ⟨fun h => ⟨h.1, fun reply => h.2 reply _ rfl⟩, fun h => ⟨h.1, fun r t he => he ▸ h.2 r⟩⟩

theorem Follows.bind {p : Prog Cmd α} {f : α → Prog Cmd β} (hp : Follows operation p stage)
    (hf : ∀ a (stage : Stage), stage.window = none → Follows operation (f a) stage) :
    Follows operation (p >>= f) stage :=
  (Prog.wp_bind _ p f stage).mpr (Prog.wp_mono (fun a stage => hf a stage) hp)

theorem Resting.after {cmd : Cmd ρ} {reply : ρ} (h : Resting cmd)
    (hstage : stage.window = none) : (stage.after cmd reply).window = none := by
  cases h with
  | get id => cases reply <;> rfl
  | _ => exact hstage

/-- A command that leaves the stage at rest. -/
theorem Follows.rest {cmd : Cmd ρ} {k : ρ → Prog Cmd α} (hcmd : Resting cmd)
    (hstage : stage.window = none)
    (hk : ∀ reply (stage : Stage), stage.window = none → Follows operation (k reply) stage) :
    Follows operation (.call cmd k) stage :=
  wp_send.mpr ⟨.resting hstage hcmd, fun reply => hk reply _ (hcmd.after hstage)⟩

theorem update_follows {job : Job} (hstage : stage.window = none) :
    Follows operation (RedisStorage.update job) stage := by
  refine .rest .now hstage fun now stage hstage => ?_
  refine .rest (.update now job) hstage fun reply stage hstage => ?_
  cases reply <;> exact hstage

theorem updateIfState_follows {job : Job} {expected : JobStateKind}
    (hstage : stage.window = none) :
    Follows operation (RedisStorage.updateIfState job expected) stage := by
  refine .rest .now hstage fun now stage hstage => ?_
  refine .rest (.updateIfState now job expected) hstage fun reply stage hstage => ?_
  cases reply <;> exact hstage

theorem claimDueJobsLua_follows {kind : JobStateKind} {source variant field : String}
    {t : DateTime} {limit : UInt64} (htimed : Timed kind source variant field)
    (hstage : stage.window = none) :
    Follows operation (claimDueJobsLua source variant field t limit) stage := by
  unfold claimDueJobsLua
  split
  · exact hstage
  · exact .rest (.claimDue htimed t limit) hstage fun _ _ hstage => hstage

theorem fetchAndLockJob_follows {workerId : String} {queues : Option (List String)}
    (hstage : stage.window = none) :
    Follows operation (RedisStorage.fetchAndLockJob workerId queues) stage := by
  refine .rest .now hstage fun now stage hstage => ?_
  refine .rest (.fetch workerId now _) hstage fun reply stage hstage => ?_
  cases reply <;> exact hstage

theorem fetchUpTo_follows {workerId : String} {queues : Option (List String)} {n : Nat}
    {jobs : List Job} (hstage : stage.window = none) :
    Follows operation (fetchUpTo workerId queues n jobs) stage := by
  induction n generalizing stage jobs with
  | zero => exact hstage
  | succ n ih =>
    refine .bind (fetchAndLockJob_follows hstage) fun reply stage hstage => ?_
    rcases reply with _ | _ | _
    · exact hstage
    · exact hstage
    · exact ih hstage

/-- The removals after a `DEL`, one after the other. -/
theorem cleaning_follows {id : String} {job : Job} {k : Unit → Prog Cmd α}
    (hk : Follows operation (k ()) .idle) :
    Follows operation (removeJobIndices id job >>= k) (.erased id job 0) := by
  simp only [Follows, removeJobIndices, removal, each, Prog.ask_bind, Prog.call_bind, wp_send]
  exact ⟨.clean rfl, fun _ => ⟨.clean rfl, fun _ => ⟨.clean rfl, fun _ => ⟨.clean rfl, fun _ =>
    ⟨.clean rfl, fun _ => hk⟩⟩⟩⟩⟩

/-- The removals before a `DEL`, one after the other. -/
theorem sweeping_follows {id : String} {job : Job} {t : DateTime} {k : Unit → Prog Cmd α}
    (hop : operation = .deleteExpiredJobs t)
    (hk : Follows operation (k ()) (.sweeping id job 5)) :
    Follows operation (removeJobIndices id job >>= k) (.read id job) := by
  simp only [Follows, removeJobIndices, removal, each, Prog.ask_bind, Prog.call_bind, wp_send]
  exact ⟨.begin hop, fun _ => ⟨.sweep rfl, fun _ => ⟨.sweep rfl, fun _ => ⟨.sweep rfl, fun _ =>
    ⟨.sweep rfl, fun _ => hk⟩⟩⟩⟩⟩

theorem delete_follows {jobId : String} (hstage : stage.window = none) :
    Follows (.delete jobId) (RedisStorage.delete jobId) stage := by
  simp only [Follows, RedisStorage.delete, RedisStorage.get, Prog.ask_bind, Prog.call_bind, wp_send]
  refine ⟨.resting hstage (.get jobId), fun reply => ?_⟩
  cases reply with
  | none => rfl
  | some blob =>
    cases hread : blob.readable with
    | false =>
      simp only [Prog.monad_pure, Prog.pure_bind, parse, hread]
      rfl
    | true =>
      simp only [Prog.monad_pure, Prog.pure_bind, parse, hread, if_true, Except.map, wp_send]
      refine ⟨.erase rfl, fun n => ?_⟩
      simp only [Stage.after, Stage.deleted]
      split
      · exact cleaning_follows rfl
      · rfl

theorem sweep_follows {t : DateTime} {ids : List String} {removed : Nat}
    (hstage : stage.window = none) :
    Follows (.deleteExpiredJobs t) (sweep t ids removed) stage := by
  induction ids generalizing stage removed with
  | nil => exact hstage
  | cons id ids ih =>
    rw [sweep, Follows, Prog.ask_bind, wp_send]
    refine ⟨.resting hstage (.get id), fun reply => ?_⟩
    cases reply with
    | none => exact ih rfl
    | some blob =>
      simp only [Stage.after]
      split
      · refine sweeping_follows rfl ?_
        exact wp_send.mpr ⟨.swept rfl, fun _ => ih rfl⟩
      · exact ih rfl

end

/-- Every operation of the traffic keeps to the order. -/
theorem Operation.follows (codec : Codec) {operation : Operation}
    (hop : operation.concurrent = true) : Follows operation (operation.program codec) .idle := by
  cases operation with
  | enqueue | requeueStrandedJobs | reclaimJobsFromServer => cases hop
  | update job => exact (update_follows rfl).bind fun _ _ h => h
  | updateIfState job expected => exact (updateIfState_follows rfl).bind fun _ _ h => h
  | delete jobId => exact (delete_follows rfl).bind fun _ _ h => h
  | claimDueScheduledJobs t limit =>
    exact (claimDueJobsLua_follows .scheduled rfl).bind fun _ _ h => h
  | claimDueRetryJobs t limit =>
    exact (claimDueJobsLua_follows .awaitingRetry rfl).bind fun _ _ h => h
  | deleteExpiredJobs t =>
    refine Follows.bind ?_ fun _ _ h => h
    exact .rest (.smembers .all) rfl fun _ _ hstage => sweep_follows hstage
  | fetchAndLockJob workerId queues => exact (fetchAndLockJob_follows rfl).bind fun _ _ h => h
  | fetchAvailableJobsAtomic workerId limit queues =>
    exact (fetchUpTo_follows rfl).bind fun _ _ h => h

end Qml
