import Qml.Processing.Settling

namespace Qml
open Lib Call

/-- A reading of the run. -/
abbrev Drawn (samples : Nat → Sample) (sample : Sample) : Prop := ∃ n, samples n = sample

namespace Ledger
variable {around : Surroundings} {samples : Nat → Sample} {returning : Prop} {l l' : Ledger}
  {p : JobProcessor} {job : Job} {clock : DateTime} {result : Except QmlError Unit}

theorem perform_returns {sample : Sample} {ρ : Type} {call : Call ρ}
    (h : call.returns = true) : ∃ r t, l.perform around sample call = some (r, t) := by
  cases call with
  | panic => cases h
  | storage op =>
    cases op with
    | update job => exact ⟨_, _, rfl⟩
    | _ => cases h
  | _ => exact ⟨_, _, rfl⟩

theorem perform_step (samples : Nat → Sample) (sample : Sample) (h : Drawn samples sample)
    (l : Ledger) {ρ : Type} (call : Call ρ) (reply : ρ) (l' : Ledger)
    (hperform : l.perform around sample call = some (reply, l')) :
    (contract around (Drawn samples) returning).step l call reply l' :=
  ⟨sample, h, hperform⟩

/-- What `process_job` is proved to do, it does in every run. -/
theorem process_meets {Q : Except QmlError Unit → Ledger → Prop}
    (h : Meets around (Drawn samples) returning (p.processJob job) Q (.opened job clock))
    (hrun : process p around samples clock job = some (result, l')) : Q result l' :=
  Prog.alone_sound_of (perform_step samples) (fun n => ⟨n, rfl⟩) h hrun

theorem process_returns {Q : Except QmlError Unit → Ledger → Prop}
    (h : Meets around (Drawn samples) True (p.processJob job) Q (.opened job clock)) :
    ∃ result l', process p around samples clock job = some (result, l') ∧ Q result l' := by
  obtain ⟨result, l', hrun⟩ := Prog.alone_returns (perform_step samples)
    (fun _ _ _ _ _ hmay => perform_returns (hmay trivial)) (fun n => ⟨n, rfl⟩) h
  exact ⟨result, l', hrun, process_meets h hrun⟩

end Ledger

namespace JobProcessor
variable {p : JobProcessor} {around : Surroundings} {samples : Nat → Sample} {job : Job}
  {clock : DateTime} {result : Except QmlError Unit} {l' : Ledger} {type : String}

/-- The job-level cap and the policy leave room for another attempt after an error of the
given type. -/
structure Permits (p : JobProcessor) (job : Job) (type : String) : Prop where
  cap : job.maxRetries = 0 ∨ Job.bump job.attempt ≤ job.maxRetries
  policy : p.retryPolicy.shouldRetry (some type) (Job.bump job.attempt) = true

theorem permits_iff :
    p.shouldRetryAttempt job.begun (some type) = true ↔ p.Permits job type := by
  unfold shouldRetryAttempt
  change (if job.maxRetries > 0 && Job.bump job.attempt > job.maxRetries then false
    else p.retryPolicy.shouldRetry (some type) (Job.bump job.attempt)) = true ↔ _
  constructor
  · intro h
    split at h
    · cases h
    · rename_i hcap
      refine ⟨?_, h⟩
      simp only [Bool.and_eq_true, decide_eq_true_eq, not_and, UInt32.not_lt] at hcap
      by_cases hz : job.maxRetries = 0
      · exact .inl hz
      · exact .inr (hcap (UInt32.pos_iff_ne_zero.mpr hz))
  · intro h
    rw [if_neg, h.policy]
    rw [Bool.and_eq_true, decide_eq_true_eq, decide_eq_true_eq]
    intro hpast
    rcases h.cap with hz | hle
    · rw [hz] at hpast
      exact absurd hpast.1 (UInt32.lt_irrefl _)
    · exact absurd hpast.2 (UInt32.not_lt.mpr hle)

/-- The second check forgets the type, so all it adds is the flag for all types. -/
theorem second_check (h : p.Permits job type) :
    p.shouldRetryAttempt job.begun none = p.retryPolicy.retryOnAllExceptions := by
  have hwithin := permits_iff.mpr h
  unfold shouldRetryAttempt at hwithin ⊢
  split
  · rename_i hpast
    rw [if_pos hpast] at hwithin
    cases hwithin
  · have hle : ¬ job.begun.attempt > p.retryPolicy.strategy.maxAttempts :=
      UInt32.not_lt.mpr (RetryPolicy.shouldRetry_le h.policy)
    have henabled := RetryPolicy.shouldRetry_enabled h.policy
    unfold RetryPolicy.shouldRetry
    rw [if_neg hle, henabled]
    rfl

theorem retries_iff {ending : Option Execution} (htype : typeOf ending = some type) :
    p.retries job.begun ending = true ↔
      p.Permits job type ∧ p.retryPolicy.retryOnAllExceptions = true := by
  have hchecks : p.retries job.begun ending =
      (p.shouldRetryAttempt job.begun (some type) && p.shouldRetryAttempt job.begun none) := by
    rcases ending with _ | _ | (e | (_ | _ | _)) <;> cases htype <;> rfl
  rw [hchecks, Bool.and_eq_true, permits_iff]
  constructor
  · intro h
    exact ⟨h.1, (second_check h.1).symm.trans h.2⟩
  · intro h
    exact ⟨h.1, (second_check h.1).trans h.2⟩

/-- With a storage that does not fail, the verdict is what is stored in the end. -/
theorem Settles.stored {l : Ledger} {sampled : Sample → Prop} {ending : Option Execution}
    (h : p.Settles around sampled l job ending result l') (hworks : ∀ n, around.failure n = none) :
    p.Verdict sampled job ending l'.clock l'.stored ∧ result = .ok () ∧
      l'.updates = l.updates + 1 := by
  obtain ⟨out, hverdict, hwrites⟩ := h
  obtain ⟨hresult, hstored, -⟩ := hwrites.saved (hworks _)
  exact ⟨hstored ▸ hverdict, hresult, hwrites.updates⟩

theorem Verdict.kind {sampled : Sample → Prop} {ending : Option Execution} {out : Job}
    {t : DateTime} (h : p.Verdict sampled job ending t out) :
    (out.state.kind = .succeeded ∧ p.errorOf job ending = none) ∨
      (out.state.kind = .failed ∧ p.retries job ending = false ∧
        (p.errorOf job ending).isSome = true) ∨
      out.state.kind = .awaitingRetry ∧ p.retries job ending = true := by
  cases h with
  | succeeded t duration given result metadata hending =>
    obtain ⟨kept, hkept⟩ := addExecutionMetadata_eq
      { job with state := .succeeded t duration result, expiresAt := _ } metadata.entries
    rw [hkept, hending]
    exact .inl ⟨rfl, rfl⟩
  | failed t error herror hgives => exact .inr (.inl ⟨rfl, hgives, by rw [herror]; rfl⟩)
  | retried t retryAt error herror hretries htime => exact .inr (.inr ⟨rfl, hretries⟩)

/-- The stored state says whether another attempt is permitted. -/
structure FollowsPolicy (p : JobProcessor) (job : Job) (type : String) (stored : Job) :
    Prop where
  retried : stored.state.kind = .awaitingRetry ↔ p.Permits job type
  failed : stored.state.kind = .failed ↔ ¬ p.Permits job type

theorem followsPolicy_iff {sampled : Sample → Prop} {ending : Option Execution} {out : Job}
    {t : DateTime} (h : p.Verdict sampled job.begun ending t out)
    (htype : typeOf ending = some type) : p.FollowsPolicy job type out ↔
      ¬ (p.Permits job type ∧ p.retryPolicy.retryOnAllExceptions = false) := by
  have herror : p.errorOf job.begun ending ≠ none := by
    rcases ending with _ | _ | (e | (_ | _ | _)) <;> cases htype <;> simp [errorOf]
  have hretries : p.retries job.begun ending = true ↔ p.Permits job type ∧
      p.retryPolicy.retryOnAllExceptions = true := retries_iff htype
  rcases h.kind with ⟨-, hnone⟩ | ⟨hkind, hgives, -⟩ | ⟨hkind, hagain⟩
  · exact absurd hnone herror
  · rw [hgives] at hretries
    constructor
    · intro hfollows hdefect
      exact hfollows.failed.mp hkind hdefect.1
    · intro hsound
      have hdenied : ¬ p.Permits job type := by
        intro hpermits
        refine hsound ⟨hpermits, ?_⟩
        by_contra hflag
        exact absurd (hretries.mpr ⟨hpermits, by simpa using hflag⟩) Bool.false_ne_true
      exact ⟨⟨fun h => absurd (hkind.symm.trans h) (by decide), fun h => absurd h hdenied⟩,
        fun _ => hdenied, fun _ => hkind⟩
  · have hpermits := hretries.mp hagain
    refine iff_of_true ⟨⟨fun _ => hpermits.1, fun _ => hkind⟩, fun h => ?_, fun h => ?_⟩ ?_
    · exact absurd (hkind.symm.trans h) (by decide)
    · exact absurd hpermits.1 h
    · intro hdefect
      cases hdefect.2.symm.trans hpermits.2

/-- For every policy, the stored state follows it for the type of an error exactly when the
policy does not permit the attempt by the type alone, with the flag for all types off. -/
theorem policy_applied_iff (hstate : job.state.kind = .processing)
    (hworker : p.workerRegistry job.method = true)
    (htype : typeOf (some around.execution) = some type)
    (hworks : ∀ n, around.failure n = none)
    (hrun : Ledger.process p around samples clock job = some (result, l')) :
    p.FollowsPolicy job type l'.stored ↔
      ¬ (p.Permits job type ∧ p.retryPolicy.retryOnAllExceptions = false) := by
  obtain ⟨t, worker, server, hprocessing⟩ := JobState.processing_of_kind hstate
  have hsettles := Ledger.process_meets
    (meets_processJob hprocessing (fun h : False => h.elim) ⟨samples 0, 0, rfl⟩) hrun
  have hending : p.endingOf job around.execution = some around.execution := if_pos hworker
  rw [hending] at hsettles
  exact followsPolicy_iff (hsettles.stored hworks).1 htype

/-- A policy that retries the errors of workers and nothing else. -/
def picky : RetryPolicy where
  strategy := .fixed (Duration.seconds 1) 3
  retryOnAllExceptions := false
  retryableExceptions := ["WorkerError"]
  nonRetryableExceptions := []

/-- The default policy with a fixed delay. -/
def steady : RetryPolicy := .new (.fixed (Duration.seconds 1) 3)

def ringer (policy : RetryPolicy) : JobProcessor where
  workerRegistry := fun _ => true
  retryPolicy := policy
  workerConfig := ⟨"w", "s", [], Duration.minutes 5, Duration.seconds 1⟩
  succeededTtl := Duration.days 1
  failedTtl := Duration.days 7
  onStateChange := true

def claimedOnce : Job := { Job.new "j" 0 "ring" .null with state := .processing 0 "w" "s" }

def goesWrong : Surroundings := ⟨.finished (.error (.workerError "line busy")), fun _ => none⟩

theorem policy_applied_iff_lineBusy : ∃ l',
    Ledger.process (ringer steady) goesWrong (fun _ => ⟨0, 0⟩) 0 claimedOnce =
      some (.ok (), l') ∧
    ((ringer steady).FollowsPolicy claimedOnce "WorkerError" l'.stored ↔
      ¬ ((ringer steady).Permits claimedOnce "WorkerError" ∧ true = false)) := by
  obtain ⟨l', hrun⟩ : ∃ l', Ledger.process (ringer steady) goesWrong
      (fun _ => ⟨0, 0⟩) 0 claimedOnce = some (.ok (), l') := ⟨_, rfl⟩
  exact ⟨l', hrun, policy_applied_iff rfl rfl rfl (fun _ => rfl) hrun⟩

theorem listed_type_fails : ∃ l',
    Ledger.process (ringer picky) goesWrong (fun _ => ⟨0, 0⟩) 0 claimedOnce =
      some (.ok (), l') ∧
    (ringer picky).Permits claimedOnce "WorkerError" ∧
    ¬ (ringer picky).FollowsPolicy claimedOnce "WorkerError" l'.stored := by
  have hpermits : (ringer picky).Permits claimedOnce "WorkerError" :=
    ⟨.inl rfl, by decide⟩
  refine ⟨_, rfl, hpermits, fun hfollows => ?_⟩
  have hretried := hfollows.retried.mpr hpermits
  cases hretried

/-- What a call of `process_job` leaves of a job that was processing. -/
structure Settled (p : JobProcessor) (samples : Nat → Sample) (job : Job)
    (ending : Option Execution) (l' : Ledger) : Prop where
  unchanged : l'.stored = { job with
    attempt := l'.stored.attempt
    state := l'.stored.state
    expiresAt := l'.stored.expiresAt
    metadata := l'.stored.metadata }
  attempt : l'.stored.attempt.toNat = min (job.attempt.toNat + 1) (2 ^ 32 - 1)
  kind : l'.stored.state.kind = .succeeded ∨ l'.stored.state.kind = .failed ∨
    l'.stored.state.kind = .awaitingRetry
  succeeded : l'.stored.state.kind = .succeeded →
    l'.stored.expiresAt = some (l'.clock + p.succeededTtl)
  failed : l'.stored.state.kind = .failed → l'.stored.expiresAt = some (l'.clock + p.failedTtl)
  retried : l'.stored.state.kind = .awaitingRetry → l'.stored.expiresAt = job.expiresAt
  metadata : l'.stored.state.kind ≠ .succeeded → l'.stored.metadata = job.metadata
  keys : ∀ key, ¬ "exec_".toList <+: key.toList →
    l'.stored.metadata.get? key = job.metadata.get? key
  retryAt : ∀ t retryAt error, l'.stored.state = .awaitingRetry t retryAt error →
    p.RetryTime (Drawn samples) (Job.bump job.attempt) (ownRetryAt ending) retryAt
  success : l'.stored.state.kind = .succeeded ↔
    ∃ result given metadata, ending = some (.finished (.ok (.success result given metadata)))

theorem bump_eq_min (n : UInt32) : (Job.bump n).toNat = min (n.toNat + 1) (2 ^ 32 - 1) := by
  have hsize : UInt32.size = 4294967296 := rfl
  have hlt : n.toNat < UInt32.size := n.toNat_lt_size
  by_cases h : n.toNat + 1 < UInt32.size
  · rw [Job.bump_toNat h]
    omega
  · rw [Job.bump, if_neg h]
    omega

/-- Execution metadata goes under keys of its own. -/
theorem addExecutionMetadata_keys (job : Job) (entries : List (String × String)) :
    ∃ metadata, addExecutionMetadata job entries = { job with metadata := metadata } ∧
      ∀ key, ¬ "exec_".toList <+: key.toList → metadata.get? key = job.metadata.get? key := by
  induction entries generalizing job with
  | nil => exact ⟨job.metadata, rfl, fun _ _ => rfl⟩
  | cons entry entries ih =>
    obtain ⟨metadata, heq, hkeys⟩ := ih (job.addMetadata ("exec_" ++ entry.1) entry.2)
    refine ⟨metadata, heq, fun key hkey => (hkeys key hkey).trans ?_⟩
    have hne : key ≠ "exec_" ++ entry.1 := by
      intro hsame
      refine hkey ⟨entry.1.toList, ?_⟩
      rw [hsame, String.toList_append]
    rw [Job.addMetadata, Dict.get?_insert, if_neg hne]

theorem Verdict.settled {ending : Option Execution}
    (h : p.Verdict (Drawn samples) job.begun ending l'.clock l'.stored) :
    p.Settled samples job ending l' := by
  obtain ⟨stored, updates, persisted, announced, read, timedOut⟩ := l'
  dsimp only at h
  cases h with
  | succeeded t duration given result metadata hending =>
    obtain ⟨kept, hkept, hkeys⟩ := addExecutionMetadata_keys
      { job.begun with
        state := .succeeded t duration result
        expiresAt := some (read + p.succeededTtl) } metadata.entries
    rw [hkept]
    constructor
    · rfl
    · exact bump_eq_min _
    · exact .inl rfl
    · exact fun _ => rfl
    · intro h
      cases h
    · intro h
      cases h
    · exact fun h => absurd rfl h
    · exact hkeys
    · intro _ _ _ h
      cases h
    · exact iff_of_true rfl ⟨result, given, metadata, hending⟩
  | failed t error herror hgives =>
    constructor
    · rfl
    · exact bump_eq_min _
    · exact .inr (.inl rfl)
    · intro h
      cases h
    · exact fun _ => rfl
    · intro h
      cases h
    · exact fun _ => rfl
    · exact fun _ _ => rfl
    · intro _ _ _ h
      cases h
    · refine iff_of_false (fun h => by cases h) ?_
      intro hsuccess
      obtain ⟨result, given, metadata, rfl⟩ := hsuccess
      cases herror
  | retried t retryAt error herror hretries htime =>
    constructor
    · rfl
    · exact bump_eq_min _
    · exact .inr (.inr rfl)
    · intro h
      cases h
    · intro h
      cases h
    · exact fun _ => rfl
    · exact fun _ => rfl
    · exact fun _ _ => rfl
    · intro _ _ _ h
      cases h
      exact htime
    · refine iff_of_false (fun h => by cases h) ?_
      intro hsuccess
      obtain ⟨result, given, metadata, rfl⟩ := hsuccess
      cases herror

/-- End to end: whatever the worker, the policy and the ending, a call for a job that is
processing returns after one write, which leaves of the job what it should. -/
theorem processJob_settles (hstate : job.state.kind = .processing)
    (hworks : ∀ n, around.failure n = none)
    (hrange : p.InRange (Job.bump job.attempt) (Drawn samples)) :
    ∃ l', Ledger.process p around samples clock job = some (.ok (), l') ∧ l'.updates = 1 ∧
      p.Settled samples job (p.endingOf job around.execution) l' := by
  obtain ⟨t, worker, server, hprocessing⟩ := JobState.processing_of_kind hstate
  obtain ⟨result, l', hrun, hsettles⟩ := @Ledger.process_returns around samples p job clock _
    (meets_processJob hprocessing (fun _ => hrange) ⟨samples 0, 0, rfl⟩)
  obtain ⟨hverdict, rfl, hupdates⟩ := hsettles.stored hworks
  refine ⟨l', hrun, ?_, hverdict.settled⟩
  split at hupdates <;> exact hupdates

theorem inRange_steady : (ringer steady).InRange 1 (Drawn fun _ => ⟨0, 0⟩) where
  timeout := by decide
  succeeded read hread := by
    obtain ⟨n, rfl⟩ := hread
    change DateTime.inRange (0 + (ringer steady).succeededTtl) = true
    decide
  failed read hread := by
    obtain ⟨n, rfl⟩ := hread
    change DateTime.inRange (0 + (ringer steady).failedTtl) = true
    decide
  spans _ _ := trivial
  retry drawn read delay hdrawn hread hdelay := by
    obtain ⟨n, rfl⟩ := hread
    cases hdelay
    change DateTime.inRange (0 + Duration.seconds 1) = true
    decide

theorem processJob_settles_lineBusy : ∃ l',
    Ledger.process (ringer steady) goesWrong (fun _ => ⟨0, 0⟩) 0 claimedOnce =
      some (.ok (), l') ∧ l'.updates = 1 ∧
    (ringer steady).Settled (fun _ => ⟨0, 0⟩) claimedOnce
      ((ringer steady).endingOf claimedOnce goesWrong.execution) l' :=
  processJob_settles rfl (fun _ => rfl) inRange_steady

/-- How many writes a call for a job makes when none of them fails. -/
def writesDue (p : JobProcessor) (job : Job) : Nat :=
  match job.state.kind with
  | .processing => 1
  | .enqueued => if p.workerRegistry job.method then 2 else 1
  | _ => 0

end JobProcessor

namespace Ledger
variable {around : Surroundings} {samples : Sample → Prop} {l l' : Ledger} {p : JobProcessor}
  {job : Job} {previous : JobState} {result : Except QmlError Unit}

/-- One announced write agrees with the storage exactly when it does not fail. -/
theorem Writes.agree_iff (h : Writes around p l previous job result l')
    (hhook : p.onStateChange = true) (hprevious : l.stored.state = previous)
    (hagree : l.announced = l.persisted) :
    l'.announced = l'.persisted ↔ around.failure l.updates = none := by
  rw [h.announced, announce, if_pos hhook]
  cases hfailure : around.failure l.updates with
  | none =>
    obtain ⟨-, -, hpersisted⟩ := h.saved hfailure
    rw [hpersisted, hprevious, hagree]
    exact iff_of_true rfl rfl
  | some e =>
    obtain ⟨-, -, hpersisted⟩ := h.refused e hfailure
    rw [hpersisted, ← hagree]
    simp

end Ledger

namespace JobProcessor
variable {p : JobProcessor} {around : Surroundings} {job : Job} {clock : DateTime}
  {result : Except QmlError Unit} {l l' : Ledger}

/-- What the hook was told is what was stored exactly when none of the writes fails. -/
def Agrees (p : JobProcessor) (around : Surroundings) (job : Job) (l : Ledger) : Prop :=
  l.announced = l.persisted ↔ ∀ n < p.writesDue job, around.failure n = none

theorem agrees_unwritten (hdue : p.writesDue job = 0) :
    p.Agrees around job (.opened job clock) := by
  rw [Agrees, hdue]
  exact iff_of_true rfl fun n hn => absurd hn (Nat.not_lt_zero n)

theorem agrees_of_writes {out : Job} {previous : JobState} (hhook : p.onStateChange = true)
    (hdue : p.writesDue job = l.updates + 1) (hearlier : ∀ n < l.updates, around.failure n = none)
    (hprevious : l.stored.state = previous) (hagree : l.announced = l.persisted)
    (hwrites : Ledger.Writes around p l previous out result l') : p.Agrees around job l' := by
  rw [Agrees, hwrites.agree_iff hhook hprevious hagree, hdue]
  constructor
  · intro hlast n hn
    rcases Nat.lt_succ_iff_lt_or_eq.mp hn with hlt | rfl
    · exact hearlier n hlt
    · exact hlast
  · intro hall
    exact hall l.updates (Nat.lt_succ_self _)

section
variable {samples : Sample → Prop}

theorem meets_agrees_unregistered (hhook : p.onStateChange = true)
    (hworker : p.workerRegistry job.method = false) (error : String) :
    Ledger.Meets around samples False (p.failJobPermanently job.begun error none)
      (fun _ l' => p.Agrees around job l') (.opened job clock) := by
  have hallowed : (∀ t, job.begun.state.canTransitionTo (.failed t error none) = true) →
      p.writesDue job = 1 → Ledger.Meets around samples False
        (p.failJobPermanently job.begun error none) (fun _ l' => p.Agrees around job l')
        (.opened job clock) := by
    intro hallowed hdue
    refine Prog.wp_mono (fun result l' hwrites => ?_)
      (meets_failJobPermanently hallowed False.elim)
    obtain ⟨t, hwrites⟩ := hwrites
    exact agrees_of_writes hhook hdue (fun n hn => absurd hn (Nat.not_lt_zero n)) rfl rfl hwrites
  have hbegun : job.begun.state = job.state := rfl
  cases hstate : job.state with
  | enqueued | processing =>
    refine hallowed (fun t => ?_) ?_
    · rw [hbegun, hstate]
      rfl
    · simp [writesDue, hstate, JobState.kind, hworker]
  | scheduled | awaitingRetry =>
    have hzero : p.writesDue job = 0 := by simp [writesDue, hstate, JobState.kind]
    rw [failJobPermanently, hbegun, hstate]
    refine Ledger.meets_bind (Ledger.meets_readNow fun read _ => ?_)
    refine meets_applyStateChange_refused ?_ fun e => ?_
    · rw [hbegun, hstate]
      rfl
    · exact agrees_unwritten hzero
  | succeeded | failed | deleted =>
    have hzero : p.writesDue job = 0 := by simp [writesDue, hstate, JobState.kind]
    rw [failJobPermanently, hbegun, hstate]
    exact agrees_unwritten hzero

theorem meets_agrees_registered (hhook : p.onStateChange = true)
    (hworker : p.workerRegistry job.method = true) (hsome : ∃ sample, samples sample) :
    Ledger.Meets around samples False (do
        match ← p.ensureProcessing job.begun with
        | .error e => return .error e
        | .ok job => p.execute job) (fun _ l' => p.Agrees around job l') (.opened job clock) := by
  have hbegun : job.begun.state = job.state := rfl
  cases hstate : job.state with
  | processing t worker server =>
    have hone : p.writesDue job = 1 := by simp [writesDue, hstate, JobState.kind]
    rw [ensureProcessing, hbegun, hstate]
    refine Prog.wp_mono (fun result l' hsettles => ?_)
      (meets_execute (hbegun.trans hstate) False.elim hsome)
    obtain ⟨out, -, hwrites⟩ := hsettles
    exact agrees_of_writes hhook hone (fun n hn => absurd hn (Nat.not_lt_zero n)) rfl rfl hwrites
  | enqueued enqueuedAt queue =>
    have htwo : p.writesDue job = 2 := by simp [writesDue, hstate, JobState.kind, hworker]
    refine Ledger.meets_bind (meets_ensureProcessing (hbegun.trans hstate)
      fun t result l₁ hfirst => ?_)
    have hagree := hfirst.agree_iff hhook rfl rfl
    cases hfailure : around.failure 0 with
    | some e =>
      obtain ⟨rfl, -, -⟩ := hfirst.refused e hfailure
      refine iff_of_false (fun h => ?_) fun hall => ?_
      · cases (hagree.mp h).symm.trans hfailure
      · cases (hall 0 (htwo ▸ Nat.zero_lt_two)).symm.trans hfailure
    | none =>
      obtain ⟨rfl, hstored, -⟩ := hfirst.saved hfailure
      have hupdates : l₁.updates = 1 := hfirst.updates
      refine Prog.wp_mono (fun result l' hsettles => ?_) (meets_execute rfl False.elim hsome)
      obtain ⟨out, -, hwrites⟩ := hsettles
      refine agrees_of_writes hhook ?_ ?_ ?_ ?_ hwrites
      · rw [htwo, ended, hupdates]
      · intro n hn
        rw [ended, hupdates] at hn
        obtain rfl := Nat.lt_one_iff.mp hn
        exact hfailure
      · rw [ended, hstored]
      · exact hagree.mpr hfailure
  | scheduled | awaitingRetry | succeeded | failed | deleted =>
    have hzero : p.writesDue job = 0 := by simp [writesDue, hstate, JobState.kind]
    rw [ensureProcessing, hbegun, hstate]
    refine Ledger.meets_bind (Ledger.meets_bind (Ledger.meets_readNow fun read _ => ?_))
    refine meets_applyStateChange_refused ?_ fun e => ?_
    · rw [hbegun, hstate]
      rfl
    · exact agrees_unwritten hzero

end

/-- For every job, outcome and pattern of failing writes, the hook is told what is stored, in
order, exactly when none of the writes that the call is to make fails. -/
theorem hook_matches_iff {samples : Nat → Sample} (hhook : p.onStateChange = true)
    (hrun : Ledger.process p around samples clock job = some (result, l')) :
    l'.announced = l'.persisted ↔ ∀ n < p.writesDue job, around.failure n = none := by
  have hsome : ∃ sample, Drawn samples sample := ⟨samples 0, 0, rfl⟩
  have hmeets : Ledger.Meets around (Drawn samples) False (p.processJob job)
      (fun _ l' => p.Agrees around job l') (.opened job clock) := by
    change Ledger.Meets _ _ _ (if !p.workerRegistry job.method then
      p.failJobPermanently job.begun _ none else _) _ _
    cases hworker : p.workerRegistry job.method with
    | false => exact meets_agrees_unregistered hhook hworker _
    | true => exact meets_agrees_registered hhook hworker hsome
  exact Ledger.process_meets hmeets hrun

theorem hook_matches_iff_lineBusy : ∃ l',
    Ledger.process (ringer steady) goesWrong (fun _ => ⟨0, 0⟩) 0 claimedOnce =
      some (.ok (), l') ∧
    (l'.announced = l'.persisted ↔ ∀ n < (ringer steady).writesDue claimedOnce,
      goesWrong.failure n = none) := by
  obtain ⟨l', hrun⟩ : ∃ l', Ledger.process (ringer steady) goesWrong (fun _ => ⟨0, 0⟩) 0
      claimedOnce = some (.ok (), l') := ⟨_, rfl⟩
  exact ⟨l', hrun, hook_matches_iff rfl hrun⟩

/-- The worker succeeds, and the storage is gone. -/
def goesUnstored : Surroundings :=
  ⟨.finished (.ok (.success none 0 .empty)), fun _ => some (.connection "connection lost")⟩

theorem success_announced_unstored : ∃ l',
    Ledger.process (ringer steady) goesUnstored (fun _ => ⟨0, 0⟩) 0 claimedOnce =
      some (.error (.storageError (StorageError.connection "connection lost").display), l') ∧
    l'.announced = [(.processing 0 "w" "s", .succeeded 0 0 none)] ∧ l'.persisted = [] ∧
    l'.stored.state = claimedOnce.state :=
  ⟨_, rfl, rfl, rfl, rfl⟩

/-- What the worker does when it is left alone: how long it takes, what it returns, and
whether it is found unfinished by a poll that comes after a given time. A worker that does
not yield is polled once. -/
structure Work where
  duration : Duration
  outcome : Except QmlError WorkerResult
  yieldsPast : Duration → Bool

/-- What `tokio::time::timeout` is documented to do: a future that completes in time is
answered with its value, one that is found unfinished past the time is given up, and one that
does not yield then completes and exceeds the time without an error. -/
structure Times (timeout : Duration → Work → Execution) : Prop where
  completes : ∀ limit work, work.duration ≤ limit → timeout limit work = .finished work.outcome
  givesUp : ∀ limit work, limit < work.duration → work.yieldsPast limit = true →
    timeout limit work = .elapsed
  overruns : ∀ limit work, limit < work.duration → work.yieldsPast limit = false →
    timeout limit work = .finished work.outcome

/-- The time limit of a job, in whole seconds. -/
def timeLimit (seconds : UInt64) : Duration := Duration.seconds seconds.toNat

/-- Both limits bound an execution: past the shorter one it is treated as timed out, and up
to it it is not. -/
structure TimeoutEnforced (p : JobProcessor) (job : Job) (seconds : UInt64)
    (duration : Duration) (l' : Ledger) : Prop where
  cut : min (timeLimit seconds) p.workerConfig.jobTimeout < duration →
    l'.timedOut = true ∧ p.FollowsPolicy job "TimeoutError" l'.stored ∧
      l'.stored.state.kind ≠ .succeeded
  whole : duration ≤ min (timeLimit seconds) p.workerConfig.jobTimeout → l'.timedOut = false

theorem permits_restate {state : JobState} {type : String} :
    p.Permits { job with state := state } type ↔ p.Permits job type :=
  ⟨fun h => ⟨h.cap, h.policy⟩, fun h => ⟨h.cap, h.policy⟩⟩

theorem followsPolicy_restate {state : JobState} {type : String} {stored : Job} :
    p.FollowsPolicy { job with state := state } type stored ↔ p.FollowsPolicy job type stored :=
  ⟨fun h => ⟨h.retried.trans permits_restate, h.failed.trans (not_congr permits_restate)⟩,
    fun h => ⟨h.retried.trans permits_restate.symm,
      h.failed.trans (not_congr permits_restate.symm)⟩⟩

/-- With a storage that does not fail, a job that can run ends with a verdict on its copy. -/
theorem process_verdict {samples : Nat → Sample}
    (hstate : job.state.kind = .enqueued ∨ job.state.kind = .processing)
    (hworker : p.workerRegistry job.method = true) (hworks : ∀ n, around.failure n = none)
    (hrun : Ledger.process p around samples clock job = some (result, l')) :
    l'.timedOut = around.execution.isElapsed ∧ ∃ state,
      p.Verdict (Drawn samples) ({ job with state := state } : Job).begun (some around.execution)
        l'.clock l'.stored := by
  have hsome : ∃ sample, Drawn samples sample := ⟨samples 0, 0, rfl⟩
  have hmeets : Ledger.Meets around (Drawn samples) False (p.processJob job)
      (fun _ l' => l'.timedOut = around.execution.isElapsed ∧ ∃ state,
        p.Verdict (Drawn samples) ({ job with state := state } : Job).begun (some around.execution)
          l'.clock l'.stored) (.opened job clock) := by
    have hends : ∀ state t worker server (l : Ledger), state = .processing t worker server →
        Ledger.Meets around (Drawn samples) False
          (p.execute ({ job with state := state } : Job).begun)
          (fun _ l' => l'.timedOut = around.execution.isElapsed ∧ ∃ state,
            p.Verdict (Drawn samples) ({ job with state := state } : Job).begun
              (some around.execution) l'.clock l'.stored) l := by
      intro state t worker server l hprocessing
      refine Prog.wp_mono (fun result l' hsettles => ?_)
        (meets_execute hprocessing False.elim hsome)
      have htimed : l'.timedOut = around.execution.isElapsed := by
        obtain ⟨out, -, hwrites⟩ := hsettles
        exact hwrites.timedOut
      exact ⟨htimed, state, (hsettles.stored hworks).1⟩
    change Ledger.Meets _ _ _ (if !p.workerRegistry job.method then
      p.failJobPermanently job.begun _ none else p.ensureProcessing job.begun >>= _) _ _
    rw [hworker]
    simp only [Bool.not_true, Bool.false_eq_true, if_false]
    rcases hstate with hkind | hkind
    · cases hstate : job.state with
      | enqueued enqueuedAt queue =>
        have hbegun : job.begun.state = .enqueued enqueuedAt queue := hstate
        refine Ledger.meets_bind (meets_ensureProcessing hbegun fun t result l₁ hfirst => ?_)
        obtain ⟨rfl, -, -⟩ := hfirst.saved (hworks _)
        exact hends _ _ _ _ l₁ rfl
      | _ =>
        rw [hstate] at hkind
        cases hkind
    · obtain ⟨t, worker, server, hprocessing⟩ := JobState.processing_of_kind hkind
      have hbegun : job.begun.state = .processing t worker server := hprocessing
      rw [ensureProcessing, hbegun]
      exact hends job.state t worker server _ hprocessing
  exact Ledger.process_meets hmeets hrun

/-- For every job with a time limit of its own, both limits are kept exactly when the
execution does not outlast the job's own limit within the worker's, and, where it outlasts
the worker's, it yields after it and the policy does not permit a retry of timeouts by their
type alone. -/
theorem timeout_enforced_iff {timeout : Duration → Work → Execution} (htimes : Times timeout)
    {samples : Nat → Sample} {seconds : UInt64} (work : Work)
    (_htimeout : job.timeoutSeconds = some seconds)
    (hstate : job.state.kind = .enqueued ∨ job.state.kind = .processing)
    (hworker : p.workerRegistry job.method = true) (hworks : ∀ n, around.failure n = none)
    (hexecution : around.execution = timeout p.workerConfig.jobTimeout work)
    (hrun : Ledger.process p around samples clock job = some (result, l')) :
    p.TimeoutEnforced job seconds work.duration l' ↔
      ¬ (timeLimit seconds < work.duration ∧ work.duration ≤ p.workerConfig.jobTimeout) ∧
      (p.workerConfig.jobTimeout < work.duration →
        work.yieldsPast p.workerConfig.jobTimeout = true ∧
        ¬ (p.Permits job "TimeoutError" ∧ p.retryPolicy.retryOnAllExceptions = false)) := by
  obtain ⟨htimed, state, hverdict⟩ := process_verdict hstate hworker hworks hrun
  by_cases hover : p.workerConfig.jobTimeout < work.duration
  · have hshorter : min (timeLimit seconds) p.workerConfig.jobTimeout < work.duration :=
      (min_le_right _ _).trans_lt hover
    have hlonger : ¬ work.duration ≤ p.workerConfig.jobTimeout := not_le.mpr hover
    by_cases hyields : work.yieldsPast p.workerConfig.jobTimeout = true
    · rw [hexecution, htimes.givesUp _ _ hover hyields] at htimed hverdict
      have hpolicy := followsPolicy_iff hverdict rfl
      rw [followsPolicy_restate, permits_restate] at hpolicy
      constructor
      · intro h
        exact ⟨fun hwithin => hlonger hwithin.2,
          fun _ => ⟨hyields, hpolicy.mp (h.cut hshorter).2.1⟩⟩
      · intro h
        refine ⟨fun _ => ⟨htimed, hpolicy.mpr (h.2 hover).2, fun hsucceeded => ?_⟩,
          fun hwhole => absurd (hwhole.trans (min_le_right _ _)) hlonger⟩
        rcases hverdict.kind with ⟨-, herror⟩ | ⟨hkind, -, -⟩ | ⟨hkind, -⟩
        · cases herror
        · cases hsucceeded.symm.trans hkind
        · cases hsucceeded.symm.trans hkind
    · rw [hexecution, htimes.overruns _ _ hover (Bool.eq_false_iff.mpr hyields)] at htimed
      constructor
      · intro h
        cases htimed.symm.trans (h.cut hshorter).1
      · intro h
        exact absurd (h.2 hover).1 hyields
  · have hwithin := not_lt.mp hover
    rw [hexecution, htimes.completes _ _ hwithin] at htimed
    constructor
    · intro h
      refine ⟨fun hdefect => ?_, fun hworker => absurd hworker hover⟩
      have hcut := h.cut ((min_le_left _ _).trans_lt hdefect.1)
      cases htimed.symm.trans hcut.1
    · intro h
      refine ⟨fun hcut => ?_, fun _ => htimed⟩
      rcases min_lt_iff.mp hcut with hown | hworker
      · exact absurd ⟨hown, hwithin⟩ h.1
      · exact absurd hworker hover

/-- The future is polled before the timer is looked at. -/
def pollsFirst (limit : Duration) (work : Work) : Execution :=
  if limit < work.duration && work.yieldsPast limit then .elapsed else .finished work.outcome

theorem times_pollsFirst : Times pollsFirst where
  completes limit work h := by simp [pollsFirst, not_lt.mpr h]
  givesUp limit work h hyields := by simp [pollsFirst, h, hyields]
  overruns limit work h hyields := by simp [pollsFirst, hyields]

def patient : Job := { claimedOnce with timeoutSeconds := some 30 }

def hurried : Job := { claimedOnce with timeoutSeconds := some 1 }

/-- A worker that succeeds after some time, and yields all the while or not at all. -/
def succeedsAfter (duration : Duration) (yields : Bool) : Work :=
  ⟨duration, .ok (.success none 0 .empty), fun _ => yields⟩

/-- The worker works under a limit of five minutes, and the storage does not fail. -/
def goesOn (work : Work) : Surroundings := ⟨pollsFirst (Duration.minutes 5) work, fun _ => none⟩

/-- A worker that sleeps for six minutes, one past its limit. -/
def sleeper : Work := succeedsAfter (Duration.minutes 6) true

theorem timeout_enforced_iff_patient : ∃ l', Ledger.process (ringer steady) (goesOn sleeper)
      (fun _ => ⟨0, 0⟩) 0 patient = some (.ok (), l') ∧ l'.timedOut = true ∧
    ((ringer steady).TimeoutEnforced patient 30 sleeper.duration l' ↔
      ¬ (timeLimit 30 < sleeper.duration ∧
        sleeper.duration ≤ (ringer steady).workerConfig.jobTimeout) ∧
      ((ringer steady).workerConfig.jobTimeout < sleeper.duration →
        sleeper.yieldsPast (ringer steady).workerConfig.jobTimeout = true ∧
        ¬ ((ringer steady).Permits patient "TimeoutError" ∧
          (ringer steady).retryPolicy.retryOnAllExceptions = false))) := by
  obtain ⟨l', hrun, htimed⟩ : ∃ l', Ledger.process (ringer steady) (goesOn sleeper)
      (fun _ => ⟨0, 0⟩) 0 patient = some (.ok (), l') ∧ l'.timedOut = true := ⟨_, rfl, rfl⟩
  exact ⟨l', hrun, htimed, timeout_enforced_iff times_pollsFirst sleeper rfl (.inr rfl) rfl
    (fun _ => rfl) rfl hrun⟩

/-- The limit of the job is not looked at, and a worker that does not yield keeps to none. -/
theorem own_limit_ignored : ∃ l' l'',
    Ledger.process (ringer steady) (goesOn (succeedsAfter (Duration.seconds 2) true))
      (fun _ => ⟨0, 0⟩) 0 hurried = some (.ok (), l') ∧
    Ledger.process (ringer steady) (goesOn (succeedsAfter (Duration.minutes 6) false))
      (fun _ => ⟨0, 0⟩) 0 hurried = some (.ok (), l'') ∧
    hurried.timeoutSeconds = some 1 ∧
    min (timeLimit 1) (ringer steady).workerConfig.jobTimeout < Duration.seconds 2 ∧
    l'.timedOut = false ∧ l'.stored.state = .succeeded 0 0 none ∧
    l''.timedOut = false ∧ l''.stored.state = .succeeded 0 0 none :=
  ⟨_, _, rfl, rfl, rfl, by decide, rfl, rfl, rfl, rfl⟩

end JobProcessor
end Qml
