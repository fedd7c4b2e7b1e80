import Mathlib.Data.Rat.Defs
import Qml.Lib.Pool
import Qml.Lib.Prog
import Qml.Lib.Run
import Qml.Processing.Worker

namespace Qml
open Lib

/-- The updates that one execution makes to the metrics. -/
inductive MetricUpdate
  | activeInc (server : String)
  | observe (method : String) (elapsed : ℚ)
  | processedInc (queue state : String)
  | activeDec (server : String)
  deriving DecidableEq

/-- An update of the processed counter. -/
def MetricUpdate.counts : MetricUpdate → Bool
  | .processedInc _ _ => true
  | _ => false

structure PrometheusMetrics where
  jobsProcessed : String → String → Nat
  jobDuration : String → List ℚ
  workersActive : String → Int

namespace PrometheusMetrics

def new : PrometheusMetrics := ⟨fun _ _ => 0, fun _ => [], fun _ => 0⟩

def update (metrics : PrometheusMetrics) : MetricUpdate → PrometheusMetrics
  | .activeInc server => { metrics with
      workersActive := Function.update metrics.workersActive server
        (metrics.workersActive server + 1) }
  | .observe method elapsed => { metrics with
      jobDuration := Function.update metrics.jobDuration method
        (metrics.jobDuration method ++ [elapsed]) }
  | .processedInc queue state => { metrics with
      jobsProcessed := Function.update metrics.jobsProcessed queue
        (Function.update (metrics.jobsProcessed queue) state
          (metrics.jobsProcessed queue state + 1)) }
  | .activeDec server => { metrics with
      workersActive := Function.update metrics.workersActive server
        (metrics.workersActive server - 1) }

end PrometheusMetrics

/-- What the middleware does around the layers below it. `next` is the moment it waits
for them. -/
inductive MetricCall : Type → Type
  | update (update : MetricUpdate) : MetricCall Unit
  | instant : MetricCall ℚ
  | next : MetricCall (Except QmlError WorkerResult)

namespace MetricCall

def reply (clock : ℚ) (result : Except QmlError WorkerResult) : MetricCall ρ → ρ
  | .update _ => ()
  | .instant => clock
  | .next => result

def made : MetricCall ρ → List MetricUpdate
  | .update u => [u]
  | _ => []

def waits : MetricCall ρ → Bool
  | .next => true
  | _ => false

end MetricCall

namespace PrometheusMiddleware

def stateLabel : Except QmlError WorkerResult → String
  | .ok (.success ..) => "succeeded"
  | .ok (.retry ..) => "retry"
  | .ok (.failure ..) => "failed"
  | .error _ => "error"

def call (server : String) (job : Job) : Prog MetricCall (Except QmlError WorkerResult) := do
  Prog.ask (.update (.activeInc server))
  let start ← Prog.ask .instant
  let result ← Prog.ask .next
  let finish ← Prog.ask .instant
  Prog.ask (.update (.observe job.method (finish - start)))
  Prog.ask (.update (.processedInc job.queue (stateLabel result)))
  Prog.ask (.update (.activeDec server))
  return result

end PrometheusMiddleware

/-- One execution on its way through the middleware, with the updates it has made. -/
structure Passage where
  server : String
  job : Job
  rest : Prog MetricCall (Except QmlError WorkerResult)
  log : List MetricUpdate
  dropped : Bool

namespace Passage

def enter (server : String) (job : Job) : Passage :=
  ⟨server, job, PrometheusMiddleware.call server job, [], false⟩

/-- The result, once the middleware has returned it. -/
def returned (p : Passage) : Option (Except QmlError WorkerResult) :=
  match p.rest with
  | .pure result => some result
  | .call _ _ => none

/-- The execution can only be dropped where it waits. -/
def waits (p : Passage) : Bool :=
  match p.rest with
  | .pure _ => false
  | .call op _ => op.waits

/-- Make the next call. -/
def advance (clock : ℚ) (result : Except QmlError WorkerResult) (p : Passage) :
    Option (Passage × List MetricUpdate) :=
  match p.rest with
  | .pure _ => none
  | .call op k =>
    if p.dropped then none
    else some ({ p with rest := k (op.reply clock result), log := p.log ++ op.made }, op.made)

/-- Entered, and neither left nor dropped. -/
def inside (server : String) (p : Passage) : Bool :=
  decide (p.server = server) && !p.log.isEmpty && p.returned.isNone && !p.dropped

def lost (server : String) (p : Passage) : Bool := decide (p.server = server) && p.dropped

def ended (p : Passage) : Bool := p.returned.isSome || p.dropped

end Passage

/-- All the executions that share one handle to the metrics. -/
structure Metered where
  metrics : PrometheusMetrics
  passages : List Passage

namespace Metered

inductive Event
  | enter (server : String) (job : Job)
  | advance (i : Nat) (clock : ℚ) (result : Except QmlError WorkerResult)
  | drop (i : Nat)

/-- A future dropped by the job timeout, by an abort of its task, or by a panic below. -/
def Event.drops : Event → Bool
  | .drop _ => true
  | _ => false

def empty : Metered := ⟨.new, []⟩

def next (s : Metered) : Event → Option Metered
  | .enter server job => some { s with passages := s.passages ++ [.enter server job] }
  | .advance i clock result => do
    let p ← s.passages[i]?
    let (p', updates) ← p.advance clock result
    return ⟨updates.foldl PrometheusMetrics.update s.metrics, s.passages.set i p'⟩
  | .drop i => do
    let p ← s.passages[i]?
    if p.waits && !p.dropped then
      return { s with passages := s.passages.set i { p with dropped := true } }
    else none

/-- Any interleaving of the executions. -/
abbrev Runs (tr : List (Step Metered Event)) (s : Metered) : Prop :=
  Run (fun s event s' => s.next event = some s') empty tr s

/-- What the metrics are for: the gauge shows the executions inside, and every execution
that ended is counted once. -/
structure Exact (s : Metered) : Prop where
  gauge : ∀ server, s.metrics.workersActive server = s.passages.countP (Passage.inside server)
  counted : ∀ p ∈ s.passages, p.ended = true → ∃ state,
    p.log.filter MetricUpdate.counts = [.processedInc p.job.queue state]

end Metered

/-- A property of a program at every point of it that can be reached, for the updates made
by then. -/
def Always (P : List MetricUpdate → Prog MetricCall α → Prop) :
    Prog MetricCall α → List MetricUpdate → Prop
  | .pure a, log => P log (.pure a)
  | .call op k, log =>
    P log (.call op k) ∧ ∀ clock result, Always P (k (op.reply clock result)) (log ++ op.made)

variable {s s' : Metered} {p p' : Passage} {server : String} {log : List MetricUpdate}
  {updates : List MetricUpdate} {job : Job} {tr : List (Step Metered Metered.Event)}

theorem Always.here {P : List MetricUpdate → Prog MetricCall α → Prop} {q : Prog MetricCall α}
    (h : Always P q log) : P log q := by
  cases q with
  | pure a => exact h
  | call op k => exact h.1

namespace Passage

/-- By how much the updates of one execution have moved the gauge. -/
def net (server : String) (log : List MetricUpdate) : Int :=
  log.count (.activeInc server) - log.count (.activeDec server)

/-- Entered and not left, dropped or not. -/
def entered (server : String) (p : Passage) : Bool :=
  decide (p.server = server) && !p.log.isEmpty && p.returned.isNone

/-- What the updates made by then say at each point of the middleware. -/
structure Accounts (p : Passage) : Prop where
  net : ∀ server, net server p.log = (p.entered server).toNat
  counted : ∀ result, p.returned = some result → p.log.filter MetricUpdate.counts =
    [.processedInc p.job.queue (PrometheusMiddleware.stateLabel result)]
  waiting : p.waits = true → p.log = [.activeInc p.server]

/-- Wherever the execution can still come to, its updates account for it. -/
def Sound (p : Passage) : Prop :=
  Always (fun log rest => ∀ dropped, Accounts ⟨p.server, p.job, rest, log, dropped⟩) p.rest p.log

theorem returned_of_waits (h : p.waits = true) : p.returned = none := by
  obtain ⟨server, job, rest, log, dropped⟩ := p
  cases rest with
  | pure a => cases h
  | call op k => rfl

/-- Inside, whatever was made after the entry, as long as it leaves the gauge alone. -/
theorem accounts_inside (hlog : p.log = .activeInc p.server :: log) (hrest : p.returned = none)
    (hgauge : ∀ server, net server log = 0)
    (hwaits : p.waits = true → log = []) : p.Accounts where
  net server := by
    have hsame := hgauge server
    rw [net] at hsame ⊢
    rw [entered, hrest, hlog, List.count_cons, List.count_cons]
    by_cases h : p.server = server
    · simp [h]
      omega
    · simp [h]
      omega
  counted result hresult := by
    rw [hrest] at hresult
    cases hresult
  waiting h := by rw [hlog, hwaits h]

theorem sound_enter (server : String) (job : Job) : (enter server job).Sound := by
  refine ⟨fun dropped => ?_, fun _ _ => ⟨fun dropped => ?_, fun start _ => ⟨fun dropped => ?_,
    fun _ result => ⟨fun dropped => ?_, fun finish _ => ⟨fun dropped => ?_,
    fun _ _ => ⟨fun dropped => ?_, fun _ _ => ⟨fun dropped => ?_, fun _ _ dropped => ?_⟩⟩⟩⟩⟩⟩⟩
  · refine ⟨fun server' => ?_, fun _ h => ?_, fun h => ?_⟩
    · simp [net, entered, enter]
    · cases h
    · cases h
  · exact accounts_inside rfl rfl (fun _ => rfl) fun _ => rfl
  · exact accounts_inside rfl rfl (fun _ => rfl) fun _ => rfl
  · exact accounts_inside rfl rfl (fun _ => rfl) fun _ => rfl
  · exact accounts_inside rfl rfl (fun _ => rfl) fun _ => rfl
  · exact accounts_inside rfl rfl (fun _ => rfl) fun h => by cases h
  · exact accounts_inside rfl rfl (fun _ => rfl) fun h => by cases h
  · -- the middleware has returned
    refine ⟨fun server' => ?_, fun result' h => ?_, fun h => by cases h⟩
    · rw [net, entered]
      by_cases h : server = server'
      · simp [h, enter, returned, MetricCall.made]
      · simp [h, enter, returned, MetricCall.made]
    · cases h
      rfl

section
variable {clock : ℚ} {result : Except QmlError WorkerResult}

theorem advance_alive (h : p.advance clock result = some (p', updates)) :
    p.dropped = false ∧ p'.dropped = false := by
  obtain ⟨server, job, rest, log, dropped⟩ := p
  cases rest with
  | pure a => cases h
  | call op k =>
    cases dropped with
    | true => cases h
    | false =>
      cases h
      exact ⟨rfl, rfl⟩

/-- An execution that moves on stays accounted for. -/
theorem Sound.advance (h : p.Sound) (hadvance : p.advance clock result = some (p', updates)) :
    p'.Sound ∧ p'.log = p.log ++ updates := by
  obtain ⟨server, job, rest, log, dropped⟩ := p
  cases rest with
  | pure a => cases hadvance
  | call op k =>
    cases dropped with
    | true => cases hadvance
    | false =>
      cases hadvance
      exact ⟨h.2 clock result, rfl⟩

end

end Passage

theorem Passage.net_append (server : String) (log updates : List MetricUpdate) :
    Passage.net server (log ++ updates) =
      Passage.net server log + Passage.net server updates := by
  rw [Passage.net, Passage.net, Passage.net, List.count_append, List.count_append]
  omega

namespace PrometheusMetrics
variable {metrics : PrometheusMetrics}

theorem foldl_active : (updates.foldl update metrics).workersActive server =
    metrics.workersActive server + Passage.net server updates := by
  induction updates generalizing metrics with
  | nil => exact (Int.add_zero _).symm
  | cons u updates ih =>
    have hone : (metrics.update u).workersActive server =
        metrics.workersActive server + Passage.net server [u] := by
      cases u with
      | activeInc server' =>
        by_cases h : server = server'
        · simp [update, Passage.net, h]
        · simp [update, Passage.net, h, Ne.symm h]
      | activeDec server' =>
        by_cases h : server = server'
        · simp [update, Passage.net, h]
          omega
        · simp [update, Passage.net, h, Ne.symm h]
      | observe method elapsed => simp [update, Passage.net]
      | processedInc queue state => simp [update, Passage.net]
    have hsplit : u :: updates = [u] ++ updates := rfl
    rw [List.foldl_cons, ih, hone, hsplit, Passage.net_append]
    omega

theorem foldl_processed {queue state : String} :
    (updates.foldl update metrics).jobsProcessed queue state =
      metrics.jobsProcessed queue state + updates.count (.processedInc queue state) := by
  induction updates generalizing metrics with
  | nil => rfl
  | cons u updates ih =>
    have hone : (metrics.update u).jobsProcessed queue state =
        metrics.jobsProcessed queue state + [u].count (.processedInc queue state) := by
      cases u with
      | processedInc queue' state' =>
        by_cases hq : queue = queue'
        · by_cases hs : state = state'
          · simp [update, hq, hs]
          · simp [update, hq, hs, Ne.symm hs]
        · simp [update, hq, Ne.symm hq]
      | activeInc server' => simp [update]
      | observe method elapsed => simp [update]
      | activeDec server' => simp [update]
    have hsplit : u :: updates = [u] ++ updates := rfl
    rw [List.foldl_cons, ih, hone, hsplit, List.count_append]
    omega

end PrometheusMetrics

namespace Metered

/-- The metrics and the executions agree. -/
structure Settled (s : Metered) : Prop where
  active : ∀ server, s.metrics.workersActive server =
    (s.passages.map fun p => Passage.net server p.log).sum
  processed : ∀ queue state, (s.metrics.jobsProcessed queue state : Int) =
    (s.passages.map fun p => (p.log.count (.processedInc queue state) : Int)).sum
  sound : ∀ p ∈ s.passages, p.Sound
  waiting : ∀ p ∈ s.passages, p.dropped = true → p.waits = true

namespace Settled

theorem empty : Metered.empty.Settled :=
  ⟨fun _ => rfl, fun _ _ => rfl, fun _ h => absurd h List.not_mem_nil,
    fun _ h => absurd h List.not_mem_nil⟩

theorem enter {job : Job} (h : s.Settled) :
    Settled { s with passages := s.passages ++ [.enter server job] } where
  active server' := by
    rw [List.map_append, List.sum_append, ← h.active]
    exact (Int.add_zero _).symm
  processed queue state := by
    rw [List.map_append, List.sum_append, ← h.processed]
    exact (Int.add_zero _).symm
  sound p hp := by
    rcases List.mem_append.mp hp with hp | hp
    · exact h.sound p hp
    · rw [List.mem_singleton.mp hp]
      exact Passage.sound_enter server job
  waiting p hp hdropped := by
    rcases List.mem_append.mp hp with hp | hp
    · exact h.waiting p hp hdropped
    · rw [List.mem_singleton.mp hp] at hdropped
      cases hdropped

theorem advance {i : Nat} {clock : ℚ} {result : Except QmlError WorkerResult} (h : s.Settled)
    (hp : s.passages[i]? = some p) (hadvance : p.advance clock result = some (p', updates)) :
    Settled ⟨updates.foldl PrometheusMetrics.update s.metrics, s.passages.set i p'⟩ := by
  obtain ⟨hsound, hlog⟩ := (h.sound p (List.mem_of_getElem? hp)).advance hadvance
  refine ⟨fun server => ?_, fun queue state => ?_, fun q hq => ?_, fun q hq => ?_⟩
  · have hone := sum_set (b := p') (fun q : Passage => Passage.net server q.log) hp
    rw [PrometheusMetrics.foldl_active, h.active, hone, hlog, Passage.net_append]
    omega
  · have hone := sum_set (b := p') (fun q : Passage =>
      (q.log.count (.processedInc queue state) : Int)) hp
    rw [PrometheusMetrics.foldl_processed, Int.natCast_add, h.processed, hone, hlog,
      List.count_append, Int.natCast_add]
    omega
  · rcases List.mem_or_eq_of_mem_set hq with hq | rfl
    · exact h.sound q hq
    · exact hsound
  · rcases List.mem_or_eq_of_mem_set hq with hq | rfl
    · exact h.waiting q hq
    · intro hdropped
      rw [(Passage.advance_alive hadvance).2] at hdropped
      cases hdropped

theorem drop {i : Nat} (h : s.Settled) (hp : s.passages[i]? = some p) (hwaits : p.waits = true) :
    Settled { s with passages := s.passages.set i { p with dropped := true } } where
  active server := by
    have hsame := map_set_same (b := { p with dropped := true })
      (fun q : Passage => Passage.net server q.log) hp rfl
    rw [h.active, hsame]
  processed queue state := by
    have hsame := map_set_same (b := { p with dropped := true })
      (fun q : Passage => (q.log.count (.processedInc queue state) : Int)) hp rfl
    rw [h.processed, hsame]
  sound q hq := by
    rcases List.mem_or_eq_of_mem_set hq with hq | rfl
    · exact h.sound q hq
    · exact h.sound p (List.mem_of_getElem? hp)
  waiting q hq := by
    rcases List.mem_or_eq_of_mem_set hq with hq | rfl
    · exact h.waiting q hq
    · exact fun _ => hwaits

end Settled

theorem settled_next {event : Event} (h : s.Settled) (hnext : s.next event = some s') :
    s'.Settled := by
  cases event with
  | enter server job =>
    cases hnext
    exact h.enter
  | advance i clock result =>
    obtain ⟨p, hp, hnext⟩ := Option.bind_eq_some_iff.mp hnext
    obtain ⟨⟨p', updates⟩, hadvance, hnext⟩ := Option.bind_eq_some_iff.mp hnext
    cases hnext
    exact h.advance hp hadvance
  | drop i =>
    obtain ⟨p, hp, hnext⟩ := Option.bind_eq_some_iff.mp hnext
    split at hnext
    · rename_i hallowed
      cases hnext
      exact h.drop hp (Bool.and_eq_true_iff.mp hallowed).1
    · cases hnext

theorem settled_run (hr : Runs tr s) : s.Settled :=
  hr.invariant (fun _ s => s.Settled) .empty fun _ _ _ _ _ h hnext => settled_next h hnext

theorem dropped_next {event : Event} (hnext : s.next event = some s') :
    s'.passages.countP Passage.dropped =
      s.passages.countP Passage.dropped + event.drops.toNat := by
  cases event with
  | enter server job =>
    cases hnext
    exact List.countP_append
  | advance i clock result =>
    obtain ⟨p, hp, hnext⟩ := Option.bind_eq_some_iff.mp hnext
    obtain ⟨⟨p', updates⟩, hadvance, hnext⟩ := Option.bind_eq_some_iff.mp hnext
    cases hnext
    obtain ⟨halive, halive'⟩ := Passage.advance_alive hadvance
    have hcount := countP_set (b := p') Passage.dropped hp
    rw [halive, halive'] at hcount
    exact hcount
  | drop i =>
    obtain ⟨p, hp, hnext⟩ := Option.bind_eq_some_iff.mp hnext
    split at hnext
    · rename_i hallowed
      cases hnext
      have halive : p.dropped = false := by simpa using (Bool.and_eq_true_iff.mp hallowed).2
      have hcount := countP_set (b := { p with dropped := true }) Passage.dropped hp
      rw [halive] at hcount
      exact hcount
    · cases hnext

/-- As many executions are lost as were dropped in the course of the run. -/
theorem dropped_run (hr : Runs tr s) :
    s.passages.countP Passage.dropped = tr.countP fun x => x.label.drops := by
  refine hr.invariant (fun tr s => s.passages.countP Passage.dropped =
    tr.countP fun x => x.label.drops) rfl fun tr s event s' _ ih hnext => ?_
  rw [dropped_next hnext, ih, List.countP_append, List.countP_singleton]
  cases event.drops <;> rfl

theorem Settled.accounts (h : s.Settled) (hp : p ∈ s.passages) : p.Accounts :=
  (h.sound p hp).here p.dropped

/-- A dropped execution stopped after its first update. -/
theorem Settled.log_dropped (h : s.Settled) (hp : p ∈ s.passages) (hdropped : p.dropped = true) :
    p.log = [.activeInc p.server] ∧ p.returned = none :=
  ⟨(h.accounts hp).waiting (h.waiting p hp hdropped),
    Passage.returned_of_waits (h.waiting p hp hdropped)⟩

theorem Settled.gauge (h : s.Settled) (server : String) : s.metrics.workersActive server =
    s.passages.countP (Passage.inside server) + s.passages.countP (Passage.lost server) := by
  rw [h.active, ← sum_toNat, ← sum_toNat, ← List.sum_map_add]
  congr 1
  apply List.map_congr_left
  intro p hp
  rw [(h.accounts hp).net, Passage.entered, Passage.inside, Passage.lost]
  cases hdropped : p.dropped with
  | false => simp
  | true =>
    obtain ⟨hlog, hreturned⟩ := h.log_dropped hp hdropped
    simp [hlog, hreturned]

/-- The gauge shows the executions inside and those that were lost, the counter the others that
ended; so the metrics are exact as long as no execution is dropped, and no longer. -/
theorem metrics_exact_iff (hr : Runs tr s) :
    (∀ server, s.metrics.workersActive server =
      s.passages.countP (Passage.inside server) + s.passages.countP (Passage.lost server)) ∧
    (∀ queue state, (s.metrics.jobsProcessed queue state : Int) =
      (s.passages.map fun p => (p.log.count (.processedInc queue state) : Int)).sum) ∧
    (∀ p ∈ s.passages, p.dropped = true → p.log.filter MetricUpdate.counts = []) ∧
    (s.Exact ↔ ∀ x ∈ tr, x.label.drops = false) := by
  have h := settled_run hr
  have hlost : ∀ p ∈ s.passages, p.dropped = true → p.log.filter MetricUpdate.counts = [] := by
    intro p hp hdropped
    rw [(h.log_dropped hp hdropped).1]
    rfl
  refine ⟨h.gauge, h.processed, hlost, ?_⟩
  have hdrops := dropped_run hr
  constructor
  · intro hexact x hx
    by_contra hdrop
    have hpos : 0 < s.passages.countP Passage.dropped := by
      rw [hdrops]
      exact List.countP_pos_iff.mpr ⟨x, hx, by simpa using hdrop⟩
    obtain ⟨p, hp, hdropped⟩ := List.countP_pos_iff.mp hpos
    have hended : p.ended = true := by
      rw [Passage.ended, hdropped, Bool.or_true]
    obtain ⟨state, hcounted⟩ := hexact.counted p hp hended
    rw [hlost p hp hdropped] at hcounted
    cases hcounted
  · intro hnone
    have hzero : s.passages.countP Passage.dropped = 0 := by
      rw [hdrops]
      apply List.countP_eq_zero.mpr
      intro x hx
      simp [hnone x hx]
    have halive : ∀ p ∈ s.passages, p.dropped = false := fun p hp =>
      Bool.eq_false_iff.mpr (List.countP_eq_zero.mp hzero p hp)
    refine ⟨fun server => ?_, fun p hp hended => ?_⟩
    · have hout : s.passages.countP (Passage.lost server) = 0 := by
        apply List.countP_eq_zero.mpr
        intro p hp
        simp [Passage.lost, halive p hp]
      rw [h.gauge, hout]
      exact Int.add_zero _
    · rw [Passage.ended, halive p hp, Bool.or_false, Option.isSome_iff_exists] at hended
      obtain ⟨result, hresult⟩ := hended
      exact ⟨_, (h.accounts hp).counted result hresult⟩

/-- One execution that runs to its end. -/
def oneSuccess : List Event :=
  .enter "srv" (.new "a" 0 "send_email" .null) ::
    List.replicate 7 (.advance 0 0 (.ok (.success none 5 .empty)))

theorem metrics_exact_iff_success :
    ∃ tr s, Runs tr s ∧ tr.length = 8 ∧ s.Exact := by
  obtain ⟨s, hr⟩ := replay_run Metered.next .empty oneSuccess
  exact ⟨_, s, hr, by decide +kernel, (metrics_exact_iff hr).2.2.2.mpr (by decide +kernel)⟩

/-- One execution, dropped while it waits: nothing is inside, and the gauge stays at one. -/
theorem dropped_execution_stays_active : ∃ tr s, Runs tr s ∧
    s.passages.countP (Passage.inside "srv") = 0 ∧ s.metrics.workersActive "srv" = 1 ∧
    s.metrics.jobsProcessed "default" "succeeded" = 0 ∧ s.passages.all Passage.ended = true := by
  let events : List Event := [.enter "srv" (.new "a" 0 "send_email" .null),
    .advance 0 0 (.ok (.success none 5 .empty)), .advance 0 0 (.ok (.success none 5 .empty)),
    .drop 0]
  obtain ⟨s, hr⟩ := replay_run Metered.next .empty events
  have hlast := hr.eq_last
  refine ⟨_, s, hr, ?_, ?_, ?_, ?_⟩
  · rw [hlast]
    decide +kernel
  · rw [hlast]
    decide +kernel
  · rw [hlast]
    decide +kernel
  · rw [hlast]
    decide +kernel

end Metered
end Qml
