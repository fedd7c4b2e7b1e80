import Qml.Backends.LockContract
import Qml.Memory.Storage

namespace Qml
open Lib

namespace MemoryStorage

/-- The critical section of `try_acquire_lock`. -/
def acquireNamedLock (s : MemoryStorage) (resource owner : String)
    (now newExpiresAt : DateTime) : Bool × MemoryStorage :=
  let held := match s.namedLocks.get? resource with
    | some existing => decide (now < existing.expiresAt) && decide (existing.owner ≠ owner)
    | none => false
  if held then (false, s)
  else (true, { s with namedLocks := s.namedLocks.insert resource ⟨owner, newExpiresAt⟩ })

/-- `try_acquire_lock`, with the reading of the clock made before the critical section. A
ttl that does not fit a span is an error; an expiry out of the range of dates panics. -/
def tryAcquireLock (s : MemoryStorage) (resource owner : String) (ttl : Nat) (now : DateTime) :
    Option (Except StorageError Bool × MemoryStorage) :=
  if !Duration.inRange ttl then
    some (.error (.operationFailed ("try_acquire_lock: invalid ttl: " ++
      "Source duration value is out of range for the target type")), s)
  else if !DateTime.inRange (now + ttl) then none
  else some ((s.acquireNamedLock resource owner now (now + ttl)).map .ok id)

def releaseLock (s : MemoryStorage) (resource owner : String) : Bool × MemoryStorage :=
  match s.namedLocks.get? resource with
  | some existing =>
    if existing.owner = owner then
      (true, { s with namedLocks := s.namedLocks.erase resource })
    else (false, s)
  | none => (false, s)

end MemoryStorage

/-- The storage with the clock that all its callers read. -/
structure LockSite where
  storage : MemoryStorage
  clock : DateTime

/-- The clock moves on, or one of the three operations enters its critical section. An
acquire brings the reading of the clock it made, a sweep the time it was given. -/
inductive LockEvent
  | tick (clock : DateTime)
  | acquire (resource owner : String) (ttl : Nat) (now : DateTime)
  | release (resource owner : String)
  | sweep (now : DateTime)

namespace LockSite

def next (s : LockSite) : LockEvent → Option LockSite
  | .tick clock => if s.clock ≤ clock then some { s with clock := clock } else none
  | .acquire resource owner ttl now =>
    if now ≤ s.clock then
      (s.storage.tryAcquireLock resource owner ttl now).map fun r => { s with storage := r.2 }
    else none
  | .release resource owner =>
    some { s with storage := (s.storage.releaseLock resource owner).2 }
  | .sweep now =>
    if now ≤ s.clock then
      some { s with storage := (s.storage.cleanupExpiredNamedLocks now).2 }
    else none

abbrev Next (s : LockSite) (e : LockEvent) (t : LockSite) : Prop := s.next e = some t

/-- The owner acquires or refreshes the lock, until the given time. -/
def Acquires (x : Step LockSite LockEvent) (resource owner : String) (expiresAt : DateTime) :
    Prop :=
  ∃ (ttl : Nat) (now : DateTime), x.label = .acquire resource owner ttl now ∧
    expiresAt = now + ttl ∧
    (x.before.storage.tryAcquireLock resource owner ttl now).map Prod.fst = some (.ok true)

/-- The owner releases the lock it holds. -/
def Releases (x : Step LockSite LockEvent) (resource owner : String) : Prop :=
  x.label = .release resource owner ∧
    (x.before.storage.releaseLock resource owner).1 = true

/-- Between an acquire by one owner and a later one by another, the first owner released
the lock, or the expiry that it had last set has passed. -/
def Exclusive (tr : List (Step LockSite LockEvent)) : Prop :=
  ∀ pre x mid y post resource a b u v, tr = pre ++ x :: (mid ++ y :: post) →
    Acquires x resource a u → Acquires y resource b v → b ≠ a →
    (∃ z ∈ mid, Releases z resource a) ∨
      ∃ before last after w, x :: mid = before ++ last :: after ∧ Acquires last resource a w ∧
        (∀ z ∈ after, ∀ w', ¬ Acquires z resource a w') ∧ w ≤ y.before.clock

/-- No live lock goes away by a sweep, or by a release that is not its owner's. -/
def LiveKept (tr : List (Step LockSite LockEvent)) : Prop :=
  ∀ x ∈ tr, ∀ resource lock, x.before.storage.namedLocks.get? resource = some lock →
    x.before.clock < lock.expiresAt →
    ((∃ now, x.label = .sweep now) ∨
      ∃ released owner, x.label = .release released owner ∧ owner ≠ lock.owner) →
    x.after.storage.namedLocks.get? resource = some lock

variable {s t : LockSite} {e : LockEvent} {resource owner : String} {expiresAt : DateTime}
  {lock : NamedLock} {tr : List (Step LockSite LockEvent)}

/-- An acquire stores its own entry, over none that is live and somebody else's, or it
leaves the storage alone. -/
theorem tryAcquireLock_cases {s s' : MemoryStorage} {ttl : Nat} {now : DateTime}
    {reply : Except StorageError Bool}
    (h : s.tryAcquireLock resource owner ttl now = some (reply, s')) :
    (reply = .ok true ∧
        s' = { s with namedLocks := s.namedLocks.insert resource ⟨owner, now + ttl⟩ } ∧
        ∀ lock, s.namedLocks.get? resource = some lock →
          lock.owner = owner ∨ lock.expiresAt ≤ now) ∨
      reply ≠ .ok true ∧ s' = s := by
  unfold MemoryStorage.tryAcquireLock at h
  split at h
  · cases h
    exact .inr ⟨by simp, rfl⟩
  · split at h
    · cases h
    · unfold MemoryStorage.acquireNamedLock at h
      cases hlock : s.namedLocks.get? resource with
      | none =>
        simp only [hlock, Bool.false_eq_true, if_false] at h
        cases h
        refine .inl ⟨rfl, rfl, fun lock hheld => ?_⟩
        cases hheld
      | some existing =>
        simp only [hlock] at h
        split at h
        · cases h
          exact .inr ⟨by simp, rfl⟩
        · rename_i hfree
          cases h
          refine .inl ⟨rfl, rfl, fun lock hheld => ?_⟩
          cases hheld
          rw [Bool.and_eq_true, decide_eq_true_eq, decide_eq_true_eq, not_and_not_right] at hfree
          by_cases hlive : now < existing.expiresAt
          · exact .inl (hfree hlive)
          · exact .inr (not_lt.mp hlive)

/-- The locks that the in-memory backend holds. -/
def table (s : LockSite) : LockTable String String DateTime :=
  .ofDict (fun lock => (lock.owner, lock.expiresAt)) s.storage.namedLocks s.clock

/-- What a step means for the locks, as with the other backends. -/
def meaning (x : Step LockSite LockEvent) : Option (LockTable.Event String String DateTime) :=
  match x.label with
  | .tick clock => some (.tick clock)
  | .acquire resource owner ttl now =>
    match (x.before.storage.tryAcquireLock resource owner ttl now).map Prod.fst with
    | some (.ok true) => some (.acquired resource owner (now + ttl))
    | some (.ok false) => some (.refused resource owner now)
    | _ => none
  | .release resource owner =>
    if (x.before.storage.releaseLock resource owner).1 then some (.released resource owner)
    else none
  | .sweep now => some (.swept now)

theorem tryAcquireLock_refused {s s' : MemoryStorage} {ttl : Nat} {now : DateTime}
    (h : s.tryAcquireLock resource owner ttl now = some (.ok false, s')) :
    ∃ lock, s.namedLocks.get? resource = some lock ∧ lock.owner ≠ owner ∧ now < lock.expiresAt := by
  unfold MemoryStorage.tryAcquireLock at h
  split at h
  · cases h
  · split at h
    · cases h
    · unfold MemoryStorage.acquireNamedLock at h
      cases hlock : s.namedLocks.get? resource with
      | none =>
        simp only [hlock, Bool.false_eq_true, if_false] at h
        cases h
      | some lock =>
        simp only [hlock] at h
        split at h
        · rename_i hheld
          simp only [Bool.and_eq_true, decide_eq_true_eq] at hheld
          exact ⟨lock, rfl, hheld.2, hheld.1⟩
        · cases h

theorem next_advances (h : Next s e t) :
    Advances LockTable.Next s.table (meaning ⟨s, e, t⟩) t.table := by
  cases e with
  | tick clock =>
    simp only [Next, next] at h
    split at h <;> cases h
    exact .tick clock ‹_›
  | acquire resource owner ttl now =>
    simp only [Next, next] at h
    split at h
    · rename_i hnow
      obtain ⟨⟨reply, storage⟩, hacquire, rfl⟩ := Option.map_eq_some_iff.mp h
      simp only [meaning, hacquire, Option.map_some]
      rcases tryAcquireLock_cases hacquire with ⟨rfl, rfl, hfree⟩ | ⟨hne, rfl⟩
      · simp only [table, LockTable.ofDict_insert]
        refine .acquired resource owner _ fun other expiry hheld => ?_
        obtain ⟨lock, hlock, hsame⟩ := Option.map_eq_some_iff.mp hheld
        cases hsame
        rcases hfree lock hlock with howner | hexpired
        · exact .inl howner
        · exact .inr (hexpired.trans hnow)
      · cases reply with
        | error e => rfl
        | ok acquired =>
          cases acquired with
          | true => exact absurd rfl hne
          | false =>
            obtain ⟨lock, hlock, howner, hlive⟩ := tryAcquireLock_refused hacquire
            exact .refused resource owner lock.owner now lock.expiresAt
              (LockTable.ofDict_held hlock) howner hnow hlive.le
    · cases h
  | release resource owner =>
    cases h
    simp only [meaning, MemoryStorage.releaseLock]
    cases hlock : s.storage.namedLocks.get? resource with
    | none => rfl
    | some lock =>
      by_cases howner : lock.owner = owner
      · subst howner
        simp only [if_true]
        simp only [table, LockTable.ofDict_erase]
        exact .released resource lock.owner lock.expiresAt (LockTable.ofDict_held hlock)
      · simp only [howner, if_false]
        rfl
  | sweep now =>
    simp only [Next, next] at h
    split at h <;> cases h
    refine .swept now _ ‹_› fun k => ?_
    simp only [table, LockTable.ofDict, MemoryStorage.cleanupExpiredNamedLocks, Dict.get?_filter]
    cases hlock : s.storage.namedLocks.get? k with
    | none => exact .inl rfl
    | some lock =>
      by_cases hlive : now < lock.expiresAt
      · exact .inl (by simp [Option.filter, hlive])
      · exact .inr ⟨by simp [Option.filter, hlive], lock.owner, lock.expiresAt, rfl,
          not_lt.mp hlive⟩

/-- The sections on the map of named locks carry out a table of locks. -/
def refinement : Refinement Next (@LockTable.Next String String DateTime _ _) where
  inv _ := True
  abs := table
  means := meaning
  keeps _ _ := trivial
  advances _ h := next_advances h

theorem acquires_iff {x : Step LockSite LockEvent} :
    Acquires x resource owner expiresAt ↔
      meaning x = some (.acquired resource owner expiresAt) := by
  unfold Acquires meaning
  constructor
  · rintro ⟨ttl, now, hlabel, rfl, hreply⟩
    simp only [hlabel, hreply]
  · intro h
    split at h
    · cases h
    · rename_i ttl now hlabel
      split at h
      · cases h
        exact ⟨ttl, now, hlabel, rfl, ‹_›⟩
      · cases h
      · cases h
    · split at h <;> cases h
    · cases h

theorem releases_iff {x : Step LockSite LockEvent} :
    Releases x resource owner ↔ meaning x = some (.released resource owner) := by
  unfold Releases meaning
  constructor
  · rintro ⟨hlabel, hreply⟩
    simp only [hlabel, hreply, if_true]
  · intro h
    split at h
    · cases h
    · split at h <;> cases h
    · rename_i hlabel
      split at h
      · cases h
        exact ⟨hlabel, ‹_›⟩
      · cases h
    · cases h

/-- In every run, from any storage, a named lock passes from one owner to another only by
a release or after its time, and only its owner or its time can free it. -/
theorem named_locks_exclusive (hr : Run Next s tr t) : Exclusive tr ∧ LiveKept tr := by
  constructor
  · rintro pre x mid y post resource a b u v rfl hx hy hne
    rcases (locksKept refinement).exclusive s t pre x mid y post resource a b u v trivial hr
      (acquires_iff.mp hx) (acquires_iff.mp hy) hne with
      ⟨z, hz, hreleased⟩ | ⟨before, last, after, w, hcut, hlast, hafter, hle⟩
    · exact .inl ⟨z, hz, releases_iff.mpr hreleased⟩
    · exact .inr ⟨before, last, after, w, hcut, acquires_iff.mpr hlast,
        fun z hz w' h => hafter z hz w' (acquires_iff.mp h), hle⟩
  · rintro x hx resource ⟨holder, expiry⟩ hlock hlive hop
    rcases (locksKept refinement).live s tr t trivial hr x hx resource holder expiry
      (LockTable.ofDict_held hlock) hlive with hkept | hreleased | ⟨later, hacquired⟩
    · obtain ⟨⟨holder', expiry'⟩, hlock', hsame⟩ := Option.map_eq_some_iff.mp hkept
      cases hsame
      exact hlock'
    · have hreleases := releases_iff.mpr hreleased
      rcases hop with ⟨now, hsweep⟩ | ⟨released, owner, hrelease, hne⟩
      · cases hsweep.symm.trans hreleases.1
      · cases hrelease.symm.trans hreleases.1
        exact absurd rfl hne
    · obtain ⟨ttl, now, hlabel, -⟩ := acquires_iff.mpr hacquired
      rcases hop with ⟨now, hsweep⟩ | ⟨released, owner, hrelease, -⟩
      · cases hsweep.symm.trans hlabel
      · cases hrelease.symm.trans hlabel

/-- The lock passes to a second owner after its time, and is swept in between. -/
def handover : List LockEvent :=
  [.acquire "report" "a" 1000 0, .tick 2000, .sweep 1000, .acquire "report" "b" 1000 1500]

theorem named_locks_exclusive_handover :
    Exclusive (replay next ⟨.empty none, 0⟩ handover) ∧
      LiveKept (replay next ⟨.empty none, 0⟩ handover) := by
  obtain ⟨t, hr⟩ := replay_run next ⟨.empty none, 0⟩ handover
  exact named_locks_exclusive hr

end LockSite
end Qml
