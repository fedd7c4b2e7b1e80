import Mathlib.Logic.Function.Basic
import Qml.Core.Listing
import Qml.Lib.Refinement

namespace Qml
open Lib

/-- What a backend is for: it holds jobs under their identifiers. -/
abbrev JobStore := String → Option Job

namespace JobStore

def empty : JobStore := fun _ => none

def put (s : JobStore) (job : Job) : JobStore := Function.update s job.id (some job)

def erase (s : JobStore) (id : String) : JobStore := Function.update s id none

def Waits (s : JobStore) (id : String) : Prop :=
  ∃ job, s id = some job ∧ job.state.kind.waiting = true

/-- A step of a backend on its jobs, with what it answers. -/
inductive Event
  | found (id : String) (answer : Option Job)
  | listed (stateFilter : Option JobStateKind) (limit : Option Nat) (offset : Nat)
      (answer : List Job)
  | counted (answer : Dict JobStateKind Nat)
  | enqueued (job : Job)
  | updated (job : Job)
  | swapped (job : Job) (expected : JobStateKind) (answer : Bool)
  | deleted (id : String) (answer : Bool)
  | handedOut (workerId serverName : String) (job : Job)
  | promoted (kind : JobStateKind) (jobs : List Job)
  | expired (now : DateTime) (answer : Nat)
  | swept (id : String) (now : DateTime) (read : Job) (answer : Bool)
  | recovered (lost : JobState → Bool) (answer : Nat)

/-- The jobs in the state asked for. -/
def Matches (s : JobStore) (stateFilter : Option JobStateKind) (job : Job) : Prop :=
  s job.id = some job ∧ ∀ kind, stateFilter = some kind → job.state.kind = kind

/-- The number of identifiers with a property. -/
def Numbers (p : String → Prop) (n : Nat) : Prop :=
  ∃ ids : List String, ids.Nodup ∧ (∀ id, id ∈ ids ↔ p id) ∧ ids.length = n

/-- What the contract of the backends lets a step do. A backend that moves a job on by
itself sets the state and may write the rest in another form; one that sweeps its jobs one
by one erases what is stored under an identifier when it has read an expired job there. -/
inductive Next (alters : Job → Job → Prop) (s : JobStore) : Event → JobStore → Prop
  | found (id : String) : Next alters s (.found id (s id)) s
  | listed (stateFilter : Option JobStateKind) (limit : Option Nat) (offset : Nat)
      (full : List Job) (hfull : Ranks Job.newestFirst (s.Matches stateFilter) full) :
      Next alters s (.listed stateFilter limit offset (part full limit offset)) s
  | counted (counts : Dict JobStateKind Nat)
      (hcounts : ∀ kind, Numbers (fun id => ∃ job, s id = some job ∧ job.state.kind = kind)
        ((counts.get? kind).getD 0)) :
      Next alters s (.counted counts) s
  | enqueued (job : Job) : Next alters s (.enqueued job) (s.put job)
  | updated (job old : Job) (hold : s job.id = some old) :
      Next alters s (.updated job) (s.put job)
  | swapped (job old : Job) (hold : s job.id = some old) :
      Next alters s (.swapped job old.state.kind true) (s.put job)
  | unswapped (job old : Job) (expected : JobStateKind) (hold : s job.id = some old)
      (hkind : old.state.kind ≠ expected) : Next alters s (.swapped job expected false) s
  | deleted (id : String) : Next alters s (.deleted id (s id).isSome) (s.erase id)
  | handedOut (old job : Job) (now : DateTime) (workerId serverName : String)
      (hold : s job.id = some old) (hwaits : old.state.kind.waiting = true)
      (hjob : alters { old with state := .processing now workerId serverName } job) :
      Next alters s (.handedOut workerId serverName job) (s.put job)
  | promoted (kind : JobStateKind) (jobs : List Job) (t : JobStore)
      (hkind : kind = .scheduled ∨ kind = .awaitingRetry) (hnodup : (jobs.map Job.id).Nodup)
      (hjobs : ∀ job ∈ jobs, t job.id = some job ∧ ∃ old now, s job.id = some old ∧
        old.state.kind = kind ∧ alters { old with state := .enqueued now old.queue } job)
      (hrest : ∀ id, id ∉ jobs.map Job.id → t id = s id) :
      Next alters s (.promoted kind jobs) t
  | expired (now : DateTime) (n : Nat) (t : JobStore)
      (hjobs : ∀ id, t id = s id ∨ t id = none ∧
        ∃ job expiresAt, s id = some job ∧ job.expiresAt = some expiresAt ∧ expiresAt ≤ now)
      (hall : ∀ id job expiresAt, t id = some job → job.expiresAt = some expiresAt →
        now ≤ expiresAt)
      (hn : Numbers (fun id => (s id).isSome = true ∧ t id = none) n) :
      Next alters s (.expired now n) t
  | swept (id : String) (now expiresAt : DateTime) (read : Job)
      (hexpires : read.expiresAt = some expiresAt) (hle : expiresAt ≤ now) :
      Next alters s (.swept id now read (s id).isSome) (s.erase id)
  | recovered (lost : JobState → Bool) (n : Nat) (t : JobStore)
      (hlost : ∀ state, lost state = true → state.kind = .processing)
      (hjobs : ∀ id job, s id = some job → lost job.state = true → ∃ new now, t id = some new ∧
        alters { job with state := .enqueued now job.queue } new)
      (hrest : ∀ id, (∀ job, s id = some job → lost job.state = false) → t id = s id)
      (hn : Numbers (fun id => ∃ job, s id = some job ∧ lost job.state = true) n) :
      Next alters s (.recovered lost n) t

/-- What a step may do to the job under one identifier. -/
inductive Change (alters : Job → Job → Prop) (id : String) :
    Event → Option Job → Option Job → Prop
  | same (e : Event) (o : Option Job) : Change alters id e o o
  | enqueued (job : Job) (o : Option Job) (hid : job.id = id) :
      Change alters id (.enqueued job) o (some job)
  | updated (job old : Job) (hid : job.id = id) :
      Change alters id (.updated job) (some old) (some job)
  | swapped (job old : Job) (hid : job.id = id) :
      Change alters id (.swapped job old.state.kind true) (some old) (some job)
  | deleted (o : Option Job) : Change alters id (.deleted id o.isSome) o none
  | handedOut (old job : Job) (now : DateTime) (workerId serverName : String) (hid : job.id = id)
      (hwaits : old.state.kind.waiting = true)
      (hjob : alters { old with state := .processing now workerId serverName } job) :
      Change alters id (.handedOut workerId serverName job) (some old) (some job)
  | promoted (old job : Job) (now : DateTime) (jobs : List Job) (hmem : job ∈ jobs)
      (hid : job.id = id) (hkind : old.state.kind = .scheduled ∨ old.state.kind = .awaitingRetry)
      (hjob : alters { old with state := .enqueued now old.queue } job) :
      Change alters id (.promoted old.state.kind jobs) (some old) (some job)
  | expired (old : Job) (now expiresAt : DateTime) (n : Nat)
      (hexpires : old.expiresAt = some expiresAt) (hle : expiresAt ≤ now) :
      Change alters id (.expired now n) (some old) none
  | swept (now expiresAt : DateTime) (read : Job) (o : Option Job)
      (hexpires : read.expiresAt = some expiresAt) (hle : expiresAt ≤ now) :
      Change alters id (.swept id now read o.isSome) o none
  | recovered (old job : Job) (now : DateTime) (lost : JobState → Bool) (n : Nat)
      (hlost : lost old.state = true) (hkind : old.state.kind = .processing)
      (hjob : alters { old with state := .enqueued now old.queue } job) :
      Change alters id (.recovered lost n) (some old) (some job)

section
variable {alters : Job → Job → Prop} {s t : JobStore} {e : Event} {id : String} {job : Job}

@[simp] theorem put_apply : s.put job id = if id = job.id then some job else s id := by
  by_cases h : id = job.id
  · subst h
    simp [put]
  · simp [put, h]

@[simp] theorem erase_apply {gone : String} :
    s.erase gone id = if id = gone then none else s id := by
  by_cases h : id = gone
  · subst h
    simp [erase]
  · simp [erase, h]

/-- Every step does to each job one of the listed things. -/
theorem next_change (h : Next alters s e t) (id : String) : Change alters id e (s id) (t id) := by
  cases h with
  | found | listed | counted | unswapped => exact .same _ _
  | enqueued job =>
    rw [put_apply]
    split
    · exact .enqueued job _ (Eq.symm ‹_›)
    · exact .same _ _
  | updated job old hold =>
    rw [put_apply]
    split
    · subst id
      rw [hold]
      exact .updated job old rfl
    · exact .same _ _
  | swapped job old hold =>
    rw [put_apply]
    split
    · subst id
      rw [hold]
      exact .swapped job old rfl
    · exact .same _ _
  | deleted gone =>
    rw [erase_apply]
    split
    · subst id
      exact .deleted _
    · exact .same _ _
  | handedOut old job now workerId serverName hold hwaits hjob =>
    rw [put_apply]
    split
    · subst id
      rw [hold]
      exact .handedOut old job now workerId serverName rfl hwaits hjob
    · exact .same _ _
  | promoted kind jobs _ hkind hnodup hjobs hrest =>
    by_cases hmem : id ∈ jobs.map Job.id
    · obtain ⟨job, hjob, rfl⟩ := List.mem_map.mp hmem
      obtain ⟨hafter, old, now, hold, rfl, halters⟩ := hjobs job hjob
      rw [hold, hafter]
      exact .promoted old job now jobs hjob rfl hkind halters
    · rw [hrest id hmem]
      exact .same _ _
  | expired now n _ hjobs hall hn =>
    rcases hjobs id with hsame | ⟨hgone, old, expiresAt, hold, hexpires, hle⟩
    · rw [hsame]
      exact .same _ _
    · rw [hold, hgone]
      exact .expired old now expiresAt n hexpires hle
  | swept gone now expiresAt read hexpires hle =>
    rw [erase_apply]
    split
    · subst id
      exact .swept now expiresAt read _ hexpires hle
    · exact .same _ _
  | recovered lost n _ hlost hjobs hrest hn =>
    by_cases hhit : ∃ job, s id = some job ∧ lost job.state = true
    · obtain ⟨job, hjob, hl⟩ := hhit
      obtain ⟨new, now, hafter, halters⟩ := hjobs id job hjob hl
      rw [hjob, hafter]
      exact .recovered job new now lost n hl (hlost _ hl) halters
    · rw [hrest id fun job hjob => Bool.eq_false_iff.mpr fun hl => hhit ⟨job, hjob, hl⟩]
      exact .same _ _

/-- The step hands the job out to the worker. -/
def HandsOut (x : Step JobStore Event) (id workerId : String) : Prop :=
  ∃ serverName job, x.label = .handedOut workerId serverName job ∧ job.id = id

/-- The step stores the job it is given. -/
inductive Event.StoresJob : Event → Job → Prop
  | enqueued (job : Job) : StoresJob (.enqueued job) job
  | updated (job : Job) : StoresJob (.updated job) job
  | swapped (job : Job) (expected : JobStateKind) : StoresJob (.swapped job expected true) job

def Event.Writes (e : Event) (id : String) : Prop := ∃ job, e.StoresJob job ∧ job.id = id

/-- The step puts the job back that it finds in the hands of a lost worker. -/
def Recovers (x : Step JobStore Event) (id : String) : Prop :=
  ∃ lost n job, x.label = .recovered lost n ∧ x.before id = some job ∧ lost job.state = true

/-- The step makes a job wait that did not. -/
structure WritesBack (x : Step JobStore Event) (id : String) : Prop where
  op : x.label.Writes id ∨ Recovers x id
  before : ¬ x.before.Waits id
  after : x.after.Waits id

/-- What ends the ownership of a worker: a write, the removal of the job, a recovery. -/
def Ends (x : Step JobStore Event) (id : String) : Prop :=
  x.label.Writes id ∨ x.after id = none ∨ Recovers x id

/-- What one step leaves alone: jobs enter by an enqueue and leave by a deletion, after
their time, or by a sweep that has read an expired job in their place, and where nothing
is written only the state of a job changes. -/
structure Conserves (alters : Job → Job → Prop) (x : Step JobStore Event) : Prop where
  enters : ∀ id, x.before id = none → (x.after id).isSome = true →
    ∃ job, x.label = .enqueued job ∧ job.id = id
  leaves : ∀ id old, x.before id = some old → x.after id = none →
    x.label = .deleted id true ∨
      (∃ now n expiresAt, x.label = .expired now n ∧ old.expiresAt = some expiresAt ∧
        expiresAt ≤ now) ∨
      ∃ now read expiresAt, x.label = .swept id now read true ∧
        read.expiresAt = some expiresAt ∧ expiresAt ≤ now
  moves : ∀ id old new, ¬ x.label.Writes id → x.before id = some old → x.after id = some new →
    new = old ∨ ∃ state, alters { old with state := state } new

section
variable {alters : Job → Job → Prop} {s t : JobStore} {e : Event} {id workerId : String}
  {pre mid post tr : List (Step JobStore Event)} {x y : Step JobStore Event}

/-- Only a write or a recovery makes a job wait that did not. -/
theorem next_writesBack (h : Next alters s e t) (hs : ¬ s.Waits id) (ht : t.Waits id) :
    WritesBack ⟨s, e, t⟩ id := by
  refine ⟨?_, hs, ht⟩
  have hchange := next_change h id
  obtain ⟨job, hjob, hwaits⟩ := ht
  rw [hjob] at hchange
  unfold Recovers
  dsimp only
  cases hold : s id with
  | none =>
    rw [hold] at hchange
    cases hchange with
    | enqueued _ _ hid => exact .inl ⟨_, .enqueued _, hid⟩
  | some old =>
    rw [hold] at hchange
    have hnot : old.state.kind.waiting ≠ true := fun hw => hs ⟨old, hold, hw⟩
    cases hchange with
    | same => exact absurd hwaits hnot
    | enqueued _ _ hid => exact .inl ⟨_, .enqueued _, hid⟩
    | updated _ _ hid => exact .inl ⟨_, .updated _, hid⟩
    | swapped _ _ hid => exact .inl ⟨_, .swapped _ _, hid⟩
    | handedOut _ _ _ _ _ _ hw => exact absurd hw hnot
    | promoted _ _ _ _ _ _ hkind =>
      rcases hkind with hk | hk <;> exact absurd (by rw [hk]; rfl) hnot
    | recovered _ _ _ lost n hlost => exact .inr ⟨lost, n, old, rfl, rfl, hlost⟩

variable (hstate : ∀ {a b}, alters a b → b.state = a.state)
include hstate

theorem handsOut_claims (h : Next alters s e t) (hx : HandsOut ⟨s, e, t⟩ id workerId) :
    s.Waits id ∧ ¬ t.Waits id := by
  obtain ⟨serverName, job, hlabel, rfl⟩ := hx
  cases hlabel
  cases h with
  | handedOut old _ now _ _ hold hwaits hjob =>
    refine ⟨⟨old, hold, hwaits⟩, ?_⟩
    intro hwaits'
    obtain ⟨job', hjob', hkind⟩ := hwaits'
    rw [put_apply, if_pos rfl, Option.some.injEq] at hjob'
    rw [← hjob', hstate hjob] at hkind
    cases hkind

/-- Between two hand-outs of one job some step wrote it back. -/
theorem handOuts_apart {w w' : String}
    (hr : Run (Next alters) s (pre ++ x :: (mid ++ y :: post)) t) (hx : HandsOut x id w)
    (hy : HandsOut y id w') : ∃ z ∈ mid, WritesBack z id := by
  have hnext : ∀ z ∈ pre ++ x :: (mid ++ y :: post), Next alters z.before z.label z.after := by
    intro z hz
    obtain ⟨-, -, -, hnext⟩ := hr.of_mem hz
    exact hnext
  obtain ⟨z, hz, hbefore, hafter⟩ := hr.between (fun s => s.Waits id)
    (handsOut_claims hstate (hnext x (by simp)) hx).2
    (handsOut_claims hstate (hnext y (by simp)) hy).1
  exact ⟨z, hz, next_writesBack (hnext z (by simp [hz])) hbefore hafter⟩

/-- A job stays exactly as it was handed out until something ends the ownership. -/
theorem owner_kept {serverName : String} {job : Job} (hr : Run (Next alters) s (pre ++ x :: mid) t)
    (hx : x.label = .handedOut workerId serverName job) (hends : ∀ z ∈ mid, ¬ Ends z job.id) :
    t job.id = some job := by
  obtain ⟨-, hnext, hmid⟩ := hr.around
  have hheld : x.after job.id = some job ∧ job.state.kind = .processing := by
    rw [hx] at hnext
    generalize x.after = after at hnext
    cases hnext with
    | handedOut old _ now _ _ hold hwaits hjob =>
      refine ⟨by simp, ?_⟩
      rw [hstate hjob]
      rfl
  refine hmid.stable (fun s => s job.id = some job) hheld.1 fun z hz hbefore => ?_
  obtain ⟨-, -, -, hz'⟩ := hmid.of_mem hz
  have hno := hends z hz
  unfold Ends Recovers at hno
  have hchange := next_change hz' job.id
  rw [hbefore] at hchange hno
  generalize z.after job.id = o' at hchange hno
  generalize z.label = label at hchange hno
  cases hchange with
  | same => rfl
  | enqueued _ _ hid => exact absurd (.inl ⟨_, .enqueued _, hid⟩) hno
  | updated _ _ hid => exact absurd (.inl ⟨_, .updated _, hid⟩) hno
  | swapped _ _ hid => exact absurd (.inl ⟨_, .swapped _ _, hid⟩) hno
  | deleted | expired | swept => exact absurd (.inr (.inl rfl)) hno
  | handedOut _ _ _ _ _ _ hw =>
    rw [hheld.2] at hw
    cases hw
  | promoted _ _ _ _ _ _ hkind =>
    rw [hheld.2] at hkind
    rcases hkind with hk | hk <;> cases hk
  | recovered _ _ _ lost n hlost =>
    exact absurd (.inr (.inr ⟨lost, n, job, rfl, rfl, hlost⟩)) hno

/-- A job comes into a final state only by being stored in it. -/
theorem next_finishes {kind : JobStateKind}
    (hfinal : kind = .succeeded ∨ kind = .failed ∨ kind = .deleted)
    (h : Next alters s e t) (hs : ¬ ∃ job, s id = some job ∧ job.state.kind = kind)
    (ht : ∃ job, t id = some job ∧ job.state.kind = kind) :
    ∃ job, e.StoresJob job ∧ job.id = id ∧ job.state.kind = kind := by
  obtain ⟨new, hnew, hkind⟩ := ht
  have hmoved : ∀ {old : Job} {state : JobState}, alters { old with state := state } new →
      state.kind = kind := fun halters => by rw [← hkind, hstate halters]
  have hchange := next_change h id
  rw [hnew] at hchange
  cases hold : s id with
  | none =>
    rw [hold] at hchange
    cases hchange with
    | enqueued _ _ hid => exact ⟨new, .enqueued new, hid, hkind⟩
  | some old =>
    rw [hold] at hchange
    cases hchange with
    | same => exact absurd ⟨_, hold, hkind⟩ hs
    | enqueued _ _ hid => exact ⟨new, .enqueued new, hid, hkind⟩
    | updated _ _ hid => exact ⟨new, .updated new, hid, hkind⟩
    | swapped _ _ hid => exact ⟨new, .swapped new _, hid, hkind⟩
    | handedOut _ _ _ _ _ _ _ hjob | promoted _ _ _ _ _ _ _ hjob
    | recovered _ _ _ _ _ _ _ hjob =>
      have hstays := hmoved hjob
      rcases hfinal with rfl | rfl | rfl <;> cases hstays

/-- Between two swaps of one job out of one final state it was stored in that state. -/
theorem swaps_apart {kind : JobStateKind} {job job' : Job}
    (hr : Run (Next alters) s (pre ++ x :: (mid ++ y :: post)) t)
    (hfinal : kind = .succeeded ∨ kind = .failed ∨ kind = .deleted)
    (hx : x.label = .swapped job kind true) (hy : y.label = .swapped job' kind true)
    (hid : job'.id = job.id) (hleaves : job.state.kind ≠ kind) :
    ∃ z ∈ mid, ∃ new, z.label.StoresJob new ∧ new.id = job.id ∧ new.state.kind = kind := by
  have hnext : ∀ z ∈ pre ++ x :: (mid ++ y :: post), Next alters z.before z.label z.after := by
    intro z hz
    obtain ⟨-, -, -, hnext⟩ := hr.of_mem hz
    exact hnext
  have hout : ¬ ∃ stored, x.after job.id = some stored ∧ stored.state.kind = kind := by
    have hx' := hnext x (by simp)
    rw [hx] at hx'
    generalize x.after = after at hx'
    cases hx' with
    | swapped _ old hold =>
      rintro ⟨stored, hstored, hkind⟩
      rw [put_apply, if_pos rfl, Option.some.injEq] at hstored
      exact hleaves (hstored ▸ hkind)
  have hin : ∃ stored, y.before job.id = some stored ∧ stored.state.kind = kind := by
    have hy' := hnext y (by simp)
    rw [hy] at hy'
    generalize y.after = after at hy'
    cases hy' with
    | swapped _ old hold => exact ⟨old, hid ▸ hold, rfl⟩
  obtain ⟨z, hz, hbefore, hafter⟩ := hr.between
    (fun s => ∃ stored, s job.id = some stored ∧ stored.state.kind = kind) hout hin
  exact ⟨z, hz, next_finishes hstate hfinal (hnext z (by simp [hz])) hbefore hafter⟩

end
end
end JobStore
end Qml
