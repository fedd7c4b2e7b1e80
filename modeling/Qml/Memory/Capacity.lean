import Qml.Memory.Callers

namespace Qml
open Lib MemoryStorage

/-- The job that the section stores, whatever is stored under its identifier. -/
def Section.inserted : Section ρ → Option Job
  | .insertJob job => some job
  | _ => none

namespace MemoryStorage
variable {s s' : MemoryStorage} {env : Reading} {ρ : Type} {op : Section ρ} {reply : ρ}

/-- The limit of a storage is never changed. -/
theorem maxJobs_perform (h : op.perform env s = some (reply, s')) : s'.maxJobs = s.maxJobs := by
  cases op
  case update job =>
    simp only [Section.perform, update] at h
    split at h <;> cases h <;> rfl
  case updateIfState job expected =>
    simp only [Section.perform, updateIfState] at h
    split at h
    · cases h
      rfl
    · split at h <;> cases h <;> rfl
  case lockAvailableJob workerId queues =>
    generalize hl : (s.reorder env.order).lockAvailableJob workerId queues env.fetch = res at *
    simp only [Section.perform, hl] at h
    obtain ⟨_ | job, after⟩ := res <;> cases h
    · obtain ⟨rfl, -⟩ := lockAvailableJob_none hl
      rfl
    · obtain ⟨old, -, -, -, -, -, rfl⟩ := lockAvailableJob_some hl
      rfl
  case acquireJobLock jobId workerId timeout =>
    simp only [Section.perform, acquireJobLock] at h
    split at h
    · cases h
      rfl
    · split at h <;> cases h
      rfl
  case releaseJobLock jobId workerId =>
    cases h
    simp only [id_eq]
    split
    · split <;> rfl
    · rfl
  case heartbeatServer serverId clock =>
    cases h
    simp only [id_eq]
    split <;> rfl
  all_goals
    cases h
    rfl

/-- Only an insertion of a new identifier makes the storage larger. -/
theorem len_perform (h : op.perform env s = some (reply, s'))
    (hold : ∀ job, op.inserted = some job → s.jobs.dict.contains job.id = true) :
    s'.len ≤ s.len := by
  apply Dict.size_le
  intro id hafter
  have heffect := Section.effect h id
  obtain ⟨new, hnew⟩ := Dict.contains_iff.mp hafter
  change s'.jobs.get? id = some new at hnew
  rw [hnew] at heffect
  apply Dict.contains_iff.mpr
  change ∃ old, s.jobs.get? id = some old
  generalize hbefore : s.jobs.get? id = before at heffect ⊢
  clear hnew
  generalize hn : some new = after at heffect
  cases heffect with
  | same => exact ⟨new, hn.symm⟩
  | insert job _ hid =>
    have hstored := hold job rfl
    rw [hid, Dict.contains_iff] at hstored
    exact hbefore ▸ hstored
  | delete | expire => cases hn
  | _ => exact ⟨_, rfl⟩

theorem len_insertJob {job : Job} (hnew : s.jobs.dict.contains job.id = false) :
    (s.insertJob job).len = s.len + 1 := by
  simp [MemoryStorage.len, insertJob, Jobs.size, Jobs.insert, Dict.size_insert, hnew]

end MemoryStorage

/-- How far an `enqueue` is. Bookkeeping for the proofs, computed from the calls it
makes. -/
inductive Admission
  | asked | passed | full | stored

namespace Admission

def after (stage : Admission) : {ρ : Type} → Call ρ → ρ → Admission
  | _, .storage .isAtCapacity, atCapacity => if atCapacity then .full else .passed
  | _, .storage (.insertJob _), _ => .stored
  | _, _, _ => stage

def allows (stage : Admission) : {ρ : Type} → Call ρ → Prop
  | _, .storage .isAtCapacity => stage = .asked
  | _, .storage .len => stage = .full
  | _, .storage (.insertJob _) => stage = .passed
  | _, _ => False

/-- An insertion never fails. -/
def answers : {ρ : Type} → Call ρ → ρ → Prop
  | _, .storage (.insertJob _), reply => reply = .ok ()
  | _, _, _ => True

def contract : Contract Call Admission where
  may stage _ call := stage.allows call
  step stage _ call reply stage' := answers call reply ∧ stage' = stage.after call reply

/-- `enqueue` inserts only after a check that found room, and an error means that it
has not inserted. -/
theorem enqueue_contract (job : Job) : (MemoryStorage.enqueue job).wp contract
    (fun result stage => (∃ e, result = .error e) → stage ≠ .stored) .asked := by
  simp only [MemoryStorage.enqueue, Call.enter, Prog.ask_bind, Prog.wp_call]
  refine ⟨rfl, ?_⟩
  rintro full _ ⟨-, rfl⟩
  cases full with
  | true =>
    refine ⟨rfl, ?_⟩
    rintro n _ ⟨-, rfl⟩ -
    simp [after]
  | false =>
    refine ⟨rfl, ?_⟩
    rintro reply _ ⟨hreply, rfl⟩ ⟨e, he⟩
    cases hreply.symm.trans he

theorem answers_perform {env : Env} {s s' : MemoryStorage} {ρ : Type} {call : Call ρ} {reply : ρ}
    (h : call.perform env s = some (reply, s')) : answers call reply := by
  cases call with
  | storage op =>
    cases op
    case insertJob =>
      cases h
      rfl
    all_goals trivial
  | _ => trivial

end Admission

namespace Callers
variable {s t : Callers} {e : Event} {x : Step Callers Event} {tr : List (Step Callers Event)}
  {i : Nat}

def stepOf (i : Nat) (x : Step Callers Event) : Bool :=
  match x.label with
  | .step j _ => decide (j = i)
  | _ => false

/-- The job that the caller is about to insert. -/
def inserting (s : Callers) (i : Nat) : Option Job :=
  match s.callers[i]? with
  | some ⟨_, some (.call (.storage op) _)⟩ => op.inserted
  | _ => none

/-- Whether the caller is about to check the capacity. -/
def checking (s : Callers) (i : Nat) : Bool :=
  match s.callers[i]? with
  | some ⟨_, some (.call (.storage .isAtCapacity) _)⟩ => true
  | _ => false

/-- The step stores a job whose identifier is new. -/
def adds (x : Step Callers Event) : Bool :=
  match x.label with
  | .step i _ =>
    (x.before.inserting i).any fun job => !x.before.storage.jobs.dict.contains job.id
  | _ => false

/-- The step stores a job whose identifier is new in a storage that is full. -/
def overfills (x : Step Callers Event) : Bool := adds x && x.before.storage.isAtCapacity

def checks (i : Nat) (x : Step Callers Event) : Bool := stepOf i x && x.before.checking i

/-- No job with a new identifier was stored since the check that the step relies on. -/
def unraced (pre : List (Step Callers Event)) (x : Step Callers Event) : Bool :=
  match x.label with
  | .step i _ => !adds x || (since (checks i) pre).all fun y => !adds y
  | _ => true

/-- A step makes the storage larger by one when it stores a new identifier, and never
otherwise. -/
theorem len_next (h : Next s e t) :
    if adds ⟨s, e, t⟩ then t.storage.len = s.storage.len + 1
    else t.storage.len ≤ s.storage.len := by
  cases next_moves h with
  | called => exact Nat.le_refl _
  | cleared => exact Nat.zero_le _
  | @unwound i env ρ τ method op k hi hop =>
    split
    · rename_i hadds
      cases op with
      | storage op =>
        cases op
        case insertJob => cases hop
        all_goals simp [adds, inserting, hi, Section.inserted] at hadds
      | _ => simp [adds, inserting, hi] at hadds
    · exact Nat.le_refl _
  | @stepped i env ρ τ method op k reply storage hi hop =>
    cases op with
    | storage op =>
      simp only [adds, inserting, hi]
      split
      · rename_i hadds
        obtain ⟨job, hop', hnew⟩ := Option.any_eq_true .. |>.mp hadds
        cases op
        case insertJob =>
          cases hop'
          cases hop
          exact len_insertJob (by simpa using hnew)
        all_goals cases hop'
      · rename_i hadds
        apply len_perform hop
        intro job hop'
        simpa [hop'] using hadds
    | now | random | execute | await | hook =>
      cases hop
      simp [adds, inserting, hi]
    | panic => cases hop

theorem maxJobs_next (h : Next s e t) : t.storage.maxJobs = s.storage.maxJobs := by
  cases next_moves h with
  | called | cleared | unwound => rfl
  | @stepped i env ρ τ method op k reply storage hi hop =>
    cases op with
    | storage op => exact maxJobs_perform hop
    | now | random | execute | await | hook =>
      cases hop
      rfl
    | panic => cases hop

theorem isAtCapacity_next (h : Next s e t) (hadds : adds ⟨s, e, t⟩ = false)
    (hroom : s.storage.isAtCapacity = false) : t.storage.isAtCapacity = false := by
  have hlen := len_next h
  have hmax := maxJobs_next h
  simp only [hadds, Bool.false_eq_true, if_false] at hlen
  unfold isAtCapacity at hroom ⊢
  rw [hmax]
  cases hm : s.storage.maxJobs with
  | none => rfl
  | some maxJobs =>
    simp only [hm, decide_eq_false_iff_not] at hroom ⊢
    omega

/-- What a caller that is at a stage of an `enqueue` may rely on. -/
structure Stands (tr : List (Step Callers Event)) (s : Callers) (i : Nat) (stage : Admission) :
    Prop where
  room : stage = .passed → (∀ y ∈ since (checks i) tr, adds y = false) →
    s.storage.isAtCapacity = false
  quiet : stage ≠ .stored → ∀ x ∈ tr, stepOf i x = true → x.after.storage = x.before.storage

namespace Stands
variable {stage : Admission}

/-- A step of another caller adds no job, or ends what the check found. -/
theorem other (hs : Stands tr s i stage) (h : Next s e t) (hother : stepOf i ⟨s, e, t⟩ = false) :
    Stands (tr ++ [⟨s, e, t⟩]) t i stage where
  room hpassed hnone := by
    rw [since_snoc (by simp [checks, hother])] at hnone
    exact isAtCapacity_next h (hnone _ List.mem_cons_self)
      (hs.room hpassed fun y hy => hnone y (List.mem_cons_of_mem _ hy))
  quiet hstage x hx hstep := by
    rcases List.mem_append.mp hx with hx | hx
    · exact hs.quiet hstage x hx hstep
    · obtain rfl := List.mem_singleton.mp hx
      cases hother.symm.trans hstep

/-- Its own step takes the `enqueue` to its next stage. -/
theorem own (hs : Stands tr s i stage) {env : Env} {ρ τ : Type} {method : Method ρ} {op : Call τ}
    {k : τ → Prog Call (Except StorageError ρ)} {reply : τ}
    (hi : s.callers[i]? = some ⟨method, some (.call op k)⟩)
    (hop : op.perform env s.storage = some (reply, t.storage)) (hallowed : stage.allows op) :
    Stands (tr ++ [⟨s, .step i env, t⟩]) t i (stage.after op reply) := by
  have quiet : stage ≠ .stored → t.storage = s.storage → ∀ x ∈ tr ++ [⟨s, .step i env, t⟩],
      stepOf i x = true → x.after.storage = x.before.storage := by
    intro hstage hsame x hx hstep
    rcases List.mem_append.mp hx with hx | hx
    · exact hs.quiet hstage x hx hstep
    · obtain rfl := List.mem_singleton.mp hx
      exact hsame
  cases op with
  | storage op =>
    cases op
    case isAtCapacity =>
      obtain rfl := hallowed
      obtain ⟨hreply, hsame⟩ := Prod.mk.inj (Option.some.inj hop)
      refine ⟨fun hpassed _ => ?_, fun _ => quiet (by simp) hsame.symm⟩
      rw [← hsame, hreply]
      cases reply with
      | true => cases hpassed
      | false => rfl
    case len =>
      obtain rfl := hallowed
      obtain ⟨-, hsame⟩ := Prod.mk.inj (Option.some.inj hop)
      exact ⟨fun hpassed => (by cases hpassed), fun _ => quiet (by simp) hsame.symm⟩
    case insertJob job =>
      exact ⟨fun hpassed => (by cases hpassed), fun hstage => absurd rfl hstage⟩
    all_goals exact False.elim hallowed
  | now | random | execute | await | hook | panic => exact False.elim hallowed

end Stands

/-- Each `enqueue` stands at some stage, and no step was made by a caller that is not
there. -/
structure Staged (tr : List (Step Callers Event)) (s : Callers) : Prop where
  stands : ∀ i job program, s.callers[i]? = some ⟨.enqueue job, some program⟩ → ∃ stage,
    program.wp Admission.contract (fun result stage => (∃ e, result = .error e) → stage ≠ .stored)
      stage ∧ Stands tr s i stage
  known : ∀ x ∈ tr, ∀ i, stepOf i x = true → i < s.callers.length

theorem Staged.next (hs : Staged tr s) (h : Next s e t) : Staged (tr ++ [⟨s, e, t⟩]) t := by
  have hknown : s.callers.length ≤ t.callers.length ∧
      ∀ i, stepOf i ⟨s, e, t⟩ = true → i < s.callers.length := by
    cases next_moves h with
    | called => exact ⟨by simp, fun i hi => (by cases hi)⟩
    | cleared => exact ⟨Nat.le_refl _, fun i hi => (by cases hi)⟩
    | unwound hi | stepped hi =>
      refine ⟨by simp, fun i hstep => ?_⟩
      obtain rfl := of_decide_eq_true hstep
      exact (List.getElem?_eq_some_iff.mp hi).1
  refine ⟨?_, ?_⟩
  · intro i job program hi
    have others : stepOf i ⟨s, e, t⟩ = false → s.callers[i]? = t.callers[i]? → ∃ stage,
        program.wp Admission.contract
          (fun result stage => (∃ e, result = .error e) → stage ≠ .stored) stage ∧
        Stands (tr ++ [⟨s, e, t⟩]) t i stage := by
      intro hother hsame
      obtain ⟨stage, hwp, hstands⟩ := hs.stands i job program (hsame.trans hi)
      exact ⟨stage, hwp, hstands.other h hother⟩
    cases next_moves h with
    | called method =>
      rcases join_cases hi with ⟨rfl, hc⟩ | hold
      · cases hc
        refine ⟨.asked, Admission.enqueue_contract job, fun hpassed => (by cases hpassed), ?_⟩
        intro _ x hx hstep
        rcases List.mem_append.mp hx with hx | hx
        · exact absurd (hs.known x hx _ hstep) (Nat.lt_irrefl _)
        · obtain rfl := List.mem_singleton.mp hx
          cases hstep
      · exact others rfl (hold.trans hi.symm)
    | cleared => exact others rfl rfl
    | @unwound j env ρ τ method op k hj hop =>
      rcases set_cases hi with ⟨rfl, hc⟩ | ⟨hij, hold⟩
      · cases hc
      · exact others (by simpa [stepOf] using Ne.symm hij) (hold.trans hi.symm)
    | @stepped j env ρ τ method op k reply storage hj hop =>
      rcases set_cases hi with ⟨rfl, hc⟩ | ⟨hij, hold⟩
      · cases hc
        obtain ⟨stage, hwp, hstands⟩ := hs.stands _ job _ hj
        exact ⟨stage.after op reply, hwp.2 _ _ ⟨Admission.answers_perform hop, rfl⟩,
          hstands.own hj hop hwp.1⟩
      · exact others (by simpa [stepOf] using Ne.symm hij) (hold.trans hi.symm)
  · intro x hx i hstep
    rcases List.mem_append.mp hx with hx | hx
    · exact Nat.lt_of_lt_of_le (hs.known x hx i hstep) hknown.1
    · obtain rfl := List.mem_singleton.mp hx
      exact Nat.lt_of_lt_of_le (hknown.2 i hstep) hknown.1

theorem staged_run {storage : MemoryStorage} (hr : Run Next (idle storage) tr t) : Staged tr t :=
  hr.invariant Staged ⟨fun _ _ _ hi => (by cases hi), fun _ hx => (by cases hx)⟩
    fun _ _ _ _ _ hs h => hs.next h

/-- A new job that no other one raced is stored below the limit. -/
theorem not_overfills (hk : s.Kept) (hs : Staged tr s) (hunraced : unraced tr ⟨s, e, t⟩ = true) :
    overfills ⟨s, e, t⟩ = false := by
  by_contra hover
  obtain ⟨hadds, hfull⟩ := Bool.and_eq_true_iff.mp (Bool.not_eq_false _ ▸ hover)
  cases e with
  | step i env =>
    simp only [unraced, hadds, Bool.not_true, Bool.false_or, List.all_eq_true,
      Bool.not_eq_true'] at hunraced
    obtain ⟨job, hinserting, -⟩ := (Option.any_eq_true ..).mp hadds
    unfold inserting at hinserting
    split at hinserting
    · rename_i ρ method τ op k hi
      cases op
      case insertJob =>
        cases hinserting
        have hkeeps := hk.section hi
        cases method with
        | enqueue =>
          obtain ⟨stage, hwp, hstands⟩ := hs.stands _ _ _ hi
          have hroom := hstands.room hwp.1 hunraced
          cases hroom.symm.trans hfull
        | _ => exact False.elim hkeeps
      all_goals cases hinserting
    · cases hinserting
  | call | clear => cases hadds

/-- The number of stored jobs stays within the limit exactly as long as no step stores a
new job in a full storage, which none does unless another one was stored since its
capacity check; and an `enqueue` that was turned down has changed nothing. -/
theorem capacity_kept_iff {maxJobs : Nat} (hr : Run Next (idle (.empty (some maxJobs))) tr t) :
    ((∀ x ∈ tr, x.after.storage.len ≤ maxJobs) ↔ ∀ x ∈ tr, overfills x = false) ∧
    (checkCuts unraced [] tr = true → ∀ x ∈ tr, overfills x = false) ∧
    ∀ i job message,
      t.callers[i]? = some ⟨.enqueue job, some (.pure (.error (.capacityExceeded message)))⟩ →
      ∀ x ∈ tr, stepOf i x = true → x.after.storage = x.before.storage := by
  have hlimit : ∀ x ∈ tr, x.before.storage.maxJobs = some maxJobs := by
    intro x hx
    obtain ⟨pre, -, hpre, -⟩ := hr.of_mem hx
    exact hpre.invariant (fun _ s => s.storage.maxJobs = some maxJobs) rfl
      fun _ _ _ _ _ hs h => (maxJobs_next h).trans hs
  have hfull : ∀ x ∈ tr, x.before.storage.isAtCapacity = true ↔ maxJobs ≤ x.before.storage.len := by
    intro x hx
    simp [isAtCapacity, hlimit x hx]
  refine ⟨⟨fun hbounded x hx => ?_, fun hnone => ?_⟩, fun hunraced x hx => ?_, ?_⟩
  · obtain ⟨-, -, -, hnext⟩ := hr.of_mem hx
    by_contra hover
    obtain ⟨hadds, hcap⟩ := Bool.and_eq_true_iff.mp (Bool.not_eq_false _ ▸ hover)
    have hlen := len_next hnext
    have hbound := hbounded x hx
    have hroom := (hfull x hx).mp hcap
    simp only [hadds, if_true] at hlen
    omega
  · refine hr.onward (fun s => s.storage.len ≤ maxJobs) (Nat.zero_le _) fun x hx hbefore => ?_
    obtain ⟨-, -, -, hnext⟩ := hr.of_mem hx
    have hlen := len_next hnext
    have hover := hnone x hx
    have hcap := hfull x hx
    cases hadds : adds x with
    | true =>
      simp only [overfills, hadds, Bool.true_and, Bool.eq_false_iff, ne_eq, hcap] at hover
      simp only [hadds, if_true] at hlen
      omega
    | false =>
      simp only [hadds, Bool.false_eq_true, if_false] at hlen
      omega
  · obtain ⟨pre, post, rfl⟩ := List.append_of_mem hx
    obtain ⟨hpre, hnext, -⟩ := hr.around
    have hcut := checkCuts_cut hunraced
    exact not_overfills (kept_run hpre) (staged_run hpre) hcut
  · intro i job message hi
    obtain ⟨stage, hwp, hstands⟩ := (staged_run hr).stands i job _ hi
    exact hstands.quiet (hwp ⟨_, rfl⟩)

/-- Two calls of `enqueue`, with new identifiers, at a storage for one job. -/
def twoEnqueues : List Event :=
  [.call (.enqueue (Job.new "a" 0 "send_email" .null)),
    .call (.enqueue (Job.new "b" 0 "send_email" .null))]

/-- One after the other, the second is turned down. -/
theorem capacity_kept_iff_one : ∃ tr t, Run Next (idle (.empty (some 1))) tr t ∧
    (tr.map fun x => x.after.storage.len) = [0, 0, 0, 1, 1, 1] ∧
    (tr.map (stepOf 1)) = [false, false, false, false, true, true] ∧
    (∀ x ∈ tr, stepOf 1 x = true → x.after.storage = x.before.storage) ∧
    ∀ x ∈ tr, x.after.storage.len ≤ 1 := by
  obtain ⟨t, hr⟩ := replay_run next (idle (.empty (some 1)))
    (twoEnqueues ++ Event.steps 0 2 0 ++ Event.steps 1 2 0)
  have hresult := capacity_kept_iff hr
  refine ⟨_, t, hr, by decide +kernel, by decide +kernel, hresult.2.2 1
    (Job.new "b" 0 "send_email" .null) "Memory storage is at capacity (1 jobs)" ?_,
    hresult.1.mpr (hresult.2.1 (by decide +kernel))⟩
  rw [hr.eq_last]
  rfl

/-- Both check before either inserts, and two jobs are stored. -/
theorem two_enqueues_overfill : ∃ tr t, Run Next (idle (.empty (some 1))) tr t ∧
    t.storage.len = 2 := by
  obtain ⟨t, hr⟩ := replay_run next (idle (.empty (some 1)))
    (twoEnqueues ++ Event.steps 0 1 0 ++ Event.steps 1 2 0 ++ Event.steps 0 1 0)
  refine ⟨_, t, hr, ?_⟩
  rw [hr.eq_last]
  decide +kernel

end Callers
end Qml
