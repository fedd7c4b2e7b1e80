import Qml.Processing.Outcome

namespace Qml
open Lib Call

/-- A reading of the clock and a draw of the random generator. -/
structure Sample where
  now : DateTime
  random : ℚ

/-- How the execution of the worker ends, and which of the writes of the storage fail. -/
structure Surroundings where
  execution : Execution
  failure : Nat → Option StorageError

/-- The stored row of one job, and what a call of `process_job` has done so far: how many
writes it has tried, the state changes it has stored, those it has told the hook, its last
reading of the clock, and whether the execution was cut off. -/
structure Ledger where
  stored : Job
  updates : Nat
  persisted : List (JobState × JobState)
  announced : List (JobState × JobState)
  clock : DateTime
  timedOut : Bool

/-- The calls that do not unwind, of those that `process_job` makes. -/
def Call.returns : Call ρ → Bool
  | .panic _ => false
  | .storage (.update _) => true
  | .storage _ => false
  | _ => true

def Execution.isElapsed : Execution → Bool
  | .elapsed => true
  | .finished _ => false

namespace Ledger

/-- The ledger before a call for the job that is stored. -/
def opened (job : Job) (clock : DateTime) : Ledger := ⟨job, 0, [], [], clock, false⟩

def write (around : Surroundings) (l : Ledger) (job : Job) : Except StorageError Unit × Ledger :=
  let tried := { l with updates := l.updates + 1 }
  match around.failure l.updates with
  | some e => (.error e, tried)
  | none => (.ok (), { tried with
      stored := job
      persisted := l.persisted ++ [(l.stored.state, job.state)] })

/-- Tell the hook, if there is one. -/
def announce (p : JobProcessor) (l : Ledger) (previous new : JobState) : Ledger :=
  if p.onStateChange then { l with announced := l.announced ++ [(previous, new)] } else l

/-- One call of `process_job`. Of the storage it only uses `update`. -/
def perform (around : Surroundings) (sample : Sample) (l : Ledger) :
    Call ρ → Option (ρ × Ledger)
  | .now => some (sample.now, { l with clock := sample.now })
  | .random => some (sample.random, l)
  | .execute _ _ => some ((), l)
  | .await => some (around.execution, { l with timedOut := around.execution.isElapsed })
  | .hook job previous =>
      some ((), { l with announced := l.announced ++ [(previous, job.state)] })
  | .panic _ => none
  | .storage (.update job) => some (l.write around job)
  | .storage _ => none

/-- The calls of a run that meets only the given samples. When the run is to return, it may
make no call that does not. -/
def contract (around : Surroundings) (samples : Sample → Prop) (returning : Prop) :
    Contract Call Ledger where
  may _ _ call := returning → call.returns = true
  step l _ call reply l' :=
    ∃ sample, samples sample ∧ l.perform around sample call = some (reply, l')

/-- A run of `process_job` on a job that is stored as it is. -/
def process (p : JobProcessor) (around : Surroundings) (samples : Nat → Sample)
    (clock : DateTime) (job : Job) : Option (Except QmlError Unit × Ledger) :=
  (p.processJob job).alone (fun sample l _ call => l.perform around sample call) samples
    (.opened job clock)

/-- A state change that is announced, if there is a hook, and then tried to be stored. -/
structure Writes (around : Surroundings) (p : JobProcessor) (l : Ledger) (previous : JobState)
    (out : Job) (result : Except QmlError Unit) (l' : Ledger) : Prop where
  announced : l'.announced = (l.announce p previous out.state).announced
  updates : l'.updates = l.updates + 1
  timedOut : l'.timedOut = l.timedOut
  saved : around.failure l.updates = none →
    result = .ok () ∧ l'.stored = out ∧
      l'.persisted = l.persisted ++ [(l.stored.state, out.state)]
  refused : ∀ e, around.failure l.updates = some e →
    result = .error (.ofStorage e) ∧ l'.stored = l.stored ∧ l'.persisted = l.persisted

section
variable {around : Surroundings} {samples : Sample → Prop} {returning : Prop} {l l' : Ledger}
  {α β : Type} {Q : α → Ledger → Prop} {p : JobProcessor}

/-- The calls of a program keep to the contract, and its result meets the postcondition. -/
abbrev Meets (around : Surroundings) (samples : Sample → Prop) (returning : Prop)
    (program : Prog Call α) (Q : α → Ledger → Prop) (l : Ledger) : Prop :=
  program.wp (contract around samples returning) Q l

theorem meets_bind {program : Prog Call α} {next : α → Prog Call β} {R : β → Ledger → Prop}
    (h : Meets around samples returning program
      (fun a l => Meets around samples returning (next a) R l) l) :
    Meets around samples returning (program >>= next) R l :=
  (Prog.wp_bind ..).mpr h

theorem meets_readNow {Q : DateTime → Ledger → Prop}
    (h : ∀ sample, samples sample → Q sample.now { l with clock := sample.now }) :
    Meets around samples returning readNow Q l := by
  refine (Prog.wp_ask ..).mpr ⟨fun _ => rfl, fun t l' hstep => ?_⟩
  obtain ⟨sample, hsample, hperform⟩ := hstep
  cases hperform
  exact h sample hsample

theorem meets_random {next : ℚ → Prog Call α}
    (h : ∀ sample, samples sample → Meets around samples returning (next sample.random) Q l) :
    Meets around samples returning (.call .random next) Q l := by
  refine (Prog.wp_call ..).mpr ⟨fun _ => rfl, fun x l' hstep => ?_⟩
  obtain ⟨sample, hsample, hperform⟩ := hstep
  cases hperform
  exact h sample hsample

theorem meets_execute {job : Job} {context : WorkerContext} {Q : Unit → Ledger → Prop}
    (h : Q () l) : Meets around samples returning (.ask (.execute job context)) Q l := by
  refine (Prog.wp_ask ..).mpr ⟨fun _ => rfl, fun _ l' hstep => ?_⟩
  obtain ⟨sample, -, hperform⟩ := hstep
  cases hperform
  exact h

theorem meets_await {Q : Execution → Ledger → Prop}
    (h : Q around.execution { l with timedOut := around.execution.isElapsed }) :
    Meets around samples returning (.ask .await) Q l := by
  refine (Prog.wp_ask ..).mpr ⟨fun _ => rfl, fun _ l' hstep => ?_⟩
  obtain ⟨sample, -, hperform⟩ := hstep
  cases hperform
  exact h

theorem meets_hook {job : Job} {previous : JobState} {Q : Unit → Ledger → Prop}
    (h : Q () (l.announce p previous job.state)) :
    Meets around samples returning (p.fireStateChangeHook job previous) Q l := by
  unfold JobProcessor.fireStateChangeHook
  rw [announce] at h
  split
  · rename_i hhook
    rw [if_pos hhook] at h
    refine (Prog.wp_ask ..).mpr ⟨fun _ => rfl, fun _ l' hstep => ?_⟩
    obtain ⟨sample, -, hperform⟩ := hstep
    cases hperform
    exact h
  · rename_i hhook
    rw [if_neg hhook] at h
    exact h

theorem meets_save {job : Job} {Q : Except QmlError Unit → Ledger → Prop}
    (h : Q ((l.write around job).1.mapError QmlError.ofStorage) (l.write around job).2) :
    Meets around samples returning (JobProcessor.save job) Q l := by
  refine ⟨fun _ => rfl, fun reply l' hstep => ?_⟩
  obtain ⟨sample, -, hperform⟩ := hstep
  have hwrite : l.write around job = (reply, l') := Option.some.inj hperform
  rw [hwrite] at h
  exact h

@[simp] theorem write_clock {job : Job} : (l.write around job).2.clock = l.clock := by
  unfold write
  split <;> rfl

theorem writes {previous : JobState} {out : Job} {t t' : DateTime} :
    Writes around p l previous out
      ((({ ({ l with clock := t }.announce p previous out.state) with clock := t' }).write around
        out).1.mapError QmlError.ofStorage)
      (({ ({ l with clock := t }.announce p previous out.state) with clock := t' }).write around
        out).2 := by
  have hupdates : ({ l with clock := t }.announce p previous out.state).updates = l.updates := by
    unfold announce
    split <;> rfl
  have hstored : ({ l with clock := t }.announce p previous out.state).stored = l.stored := by
    unfold announce
    split <;> rfl
  have hpersisted :
      ({ l with clock := t }.announce p previous out.state).persisted = l.persisted := by
    unfold announce
    split <;> rfl
  have htimed : ({ l with clock := t }.announce p previous out.state).timedOut = l.timedOut := by
    unfold announce
    split <;> rfl
  have hannounced : ({ l with clock := t }.announce p previous out.state).announced =
      (l.announce p previous out.state).announced := by
    unfold announce
    split <;> rfl
  unfold write
  rw [hupdates]
  constructor
  all_goals cases hfailure : around.failure l.updates
  all_goals simp [hstored, hpersisted, htimed, hannounced, Except.mapError]

/-- The write that follows an announcement. -/
theorem meets_announced_save {previous : JobState} {out : Job} {t t' : DateTime}
    {Q : Except QmlError Unit → Ledger → Prop}
    (h : ∀ result l', Writes around p l previous out result l' →
      l'.clock = t' → Q result l') :
    Meets around samples returning (JobProcessor.save out) Q
      { ({ l with clock := t }.announce p previous out.state) with clock := t' } :=
  meets_save (h _ _ writes write_clock)

theorem Writes.of_clock {previous : JobState} {out : Job} {result : Except QmlError Unit}
    {t : DateTime} (h : Writes around p { l with clock := t } previous out result l') :
    Writes around p l previous out result l' where
  announced := by
    rw [h.announced, announce, announce]
    split <;> rfl
  updates := h.updates
  timedOut := h.timedOut
  saved := h.saved
  refused := h.refused

theorem meets_unwind {message : String} (h : ¬ returning) :
    Meets around samples returning (unwind message : Prog Call α) Q l :=
  ⟨fun hreturning => absurd hreturning h, fun reply => by cases reply⟩

theorem meets_plus {t : DateTime} {d : Duration} {Q : DateTime → Ledger → Prop}
    (hrange : returning → DateTime.inRange (t + d) = true) (h : Q (t + d) l) :
    Meets around samples returning (plus t d) Q l := by
  unfold plus
  split
  · exact h
  · rename_i hout
    exact meets_unwind fun hreturning => hout (hrange hreturning)

theorem meets_fromNow {d : Duration} {Q : DateTime → Ledger → Prop}
    (hrange : returning → ∀ sample, samples sample → DateTime.inRange (sample.now + d) = true)
    (h : ∀ sample, samples sample → Q (sample.now + d) { l with clock := sample.now }) :
    Meets around samples returning (fromNow d) Q l := by
  refine meets_bind (meets_readNow fun sample hsample => ?_)
  exact meets_plus (fun hreturning => hrange hreturning sample hsample) (h sample hsample)

end
end Ledger
end Qml
