import Qml.Lib.LockTable
import Qml.Memory.NamedLocks

namespace Qml
open Lib

namespace RedisStorage

/-- A named lock: the value of its key is the owner, and the key expires by itself, at a
time in milliseconds. -/
structure LockKey where
  owner : String
  expiresAt : Int

/-- How the client shows an error of the server. -/
abbrev ShowError := String → String

/-- `GET`, which does not find a key after its time. -/
def getLock (keys : Dict String LockKey) (resource : String) (millis : Int) : Option String :=
  match keys.get? resource with
  | some lock => if lock.expiresAt < millis then none else some lock.owner
  | none => none

/-- `SET key owner PX ttl`: the server takes positive times that it can count. -/
def setPx (keys : Dict String LockKey) (resource owner : String) (ttlMs : Nat) (millis : Int) :
    Except String (Dict String LockKey) :=
  if 2 ^ 63 ≤ ttlMs then .error "value is not an integer or out of range"
  else if ttlMs = 0 ∨ 2 ^ 63 ≤ millis + ttlMs then
    .error "invalid expire time in 'set' command"
  else .ok (keys.insert resource ⟨owner, millis + ttlMs⟩)

/-- `try_acquire_lock`: one script. `as u64` cuts the milliseconds of the ttl. -/
def tryAcquireLock (showError : ShowError) (keys : Dict String LockKey) (resource owner : String)
    (ttl : Nat) (millis : Int) : Except StorageError Bool × Dict String LockKey :=
  let ttlMs := ttl / 1000000 % 2 ^ 64
  let cur := getLock keys resource millis
  if cur = none ∨ cur = some owner then
    match setPx keys resource owner ttlMs millis with
    | .ok keys => (.ok true, keys)
    | .error e => (.error (.operationFailed ("Redis command failed: " ++ showError e)), keys)
  else (.ok false, keys)

def releaseLock (keys : Dict String LockKey) (resource owner : String) (millis : Int) :
    Bool × Dict String LockKey :=
  if getLock keys resource millis = some owner then (true, keys.erase resource) else (false, keys)

/-- The sweep has nothing to do here. -/
def cleanupExpiredNamedLocks (keys : Dict String LockKey) (_now : DateTime) :
    Nat × Dict String LockKey := (0, keys)

/-- The keys of the named locks with the clock of the server. -/
structure LockSite where
  keys : Dict String LockKey
  clock : DateTime

namespace LockSite

/-- The time of a script is that of the server when it begins. -/
def next (showError : ShowError) (s : LockSite) : LockEvent → Option LockSite
  | .tick clock => if s.clock ≤ clock then some { s with clock := clock } else none
  | .acquire resource owner ttl _ => some { s with
      keys := (tryAcquireLock showError s.keys resource owner ttl s.clock.timestampMillis).2 }
  | .release resource owner => some { s with
      keys := (releaseLock s.keys resource owner s.clock.timestampMillis).2 }
  | .sweep now => some { s with keys := (cleanupExpiredNamedLocks s.keys now).2 }

abbrev Next (showError : ShowError) (s : LockSite) (e : LockEvent) (t : LockSite) : Prop :=
  s.next showError e = some t

/-- The locks that the keys hold, in the milliseconds of the server. A key whose time is
past counts as one whose time is up. -/
def table (s : LockSite) : LockTable String String Int :=
  .ofDict (fun lock => (lock.owner, lock.expiresAt)) s.keys s.clock.timestampMillis

/-- What a step means for the locks. An acquire that fails, a release that finds no lock of
its own and a sweep mean nothing. -/
def meaning (showError : ShowError) (x : Step LockSite LockEvent) :
    Option (LockTable.Event String String Int) :=
  let millis := x.before.clock.timestampMillis
  match x.label with
  | .tick clock => some (.tick clock.timestampMillis)
  | .acquire resource owner ttl _ =>
    match (tryAcquireLock showError x.before.keys resource owner ttl millis).1 with
    | .ok true =>
      (x.after.keys.get? resource).map fun lock => .acquired resource owner lock.expiresAt
    | .ok false => some (.refused resource owner millis)
    | .error _ => none
  | .release resource owner =>
    if (releaseLock x.before.keys resource owner millis).1 then some (.released resource owner)
    else none
  | .sweep _ => none

variable {showError : ShowError} {s t : LockSite} {e : LockEvent} {lock : LockKey}
  {keys keys' : Dict String LockKey} {resource owner : String} {ttl : Nat} {clock : DateTime}
  {millis : Int} {reply : Except StorageError Bool}

theorem timestampMillis_mono {t t' : DateTime} (h : t ≤ t') :
    t.timestampMillis ≤ t'.timestampMillis := by
  unfold DateTime.timestampMillis
  rw [Int.fdiv_eq_ediv_of_nonneg _ (by decide), Int.fdiv_eq_ediv_of_nonneg _ (by decide)]
  exact Int.ediv_le_ediv (by decide) h

theorem getLock_iff : getLock keys resource millis = some owner ↔
    ∃ lock, keys.get? resource = some lock ∧ millis ≤ lock.expiresAt ∧ lock.owner = owner := by
  unfold getLock
  cases keys.get? resource with
  | none => simp
  | some lock => by_cases hexpired : lock.expiresAt < millis <;> simp [hexpired, not_lt.mp]

/-- An acquire stores its own key, over none that is live and somebody else's; or it finds
such a key; or the server turns the ttl down. -/
theorem tryAcquireLock_cases
    (h : tryAcquireLock showError keys resource owner ttl millis = (reply, keys')) :
    (∃ expiresAt, reply = .ok true ∧ keys' = keys.insert resource ⟨owner, expiresAt⟩ ∧
        ∀ lock, keys.get? resource = some lock → lock.owner = owner ∨ lock.expiresAt < millis) ∨
      (∃ lock, reply = .ok false ∧ keys' = keys ∧ keys.get? resource = some lock ∧
        lock.owner ≠ owner ∧ millis ≤ lock.expiresAt) ∨
      ∃ e, reply = .error e ∧ keys' = keys := by
  simp only [tryAcquireLock] at h
  split at h
  · rename_i hfree
    unfold setPx at h
    split at h
    · rename_i stored hset
      cases h
      split at hset
      · cases hset
      · split at hset <;> cases hset
        refine .inl ⟨_, rfl, rfl, fun lock hlock => ?_⟩
        by_cases hlive : millis ≤ lock.expiresAt
        · have hcur := getLock_iff.mpr ⟨lock, hlock, hlive, rfl⟩
          rw [hcur] at hfree
          rcases hfree with hnone | hown
          · cases hnone
          · exact .inl (Option.some.inj hown)
        · exact .inr (not_le.mp hlive)
    · cases h
      exact .inr (.inr ⟨_, rfl, rfl⟩)
  · rename_i hheld
    cases h
    rw [not_or] at hheld
    obtain ⟨other, hother⟩ := Option.ne_none_iff_exists'.mp hheld.1
    obtain ⟨lock, hlock, hlive, hown⟩ := getLock_iff.mp hother
    refine .inr (.inl ⟨lock, rfl, rfl, hlock, fun hsame => hheld.2 ?_, hlive⟩)
    rw [hother, ← hown, hsame]

theorem next_advances (h : Next showError s e t) :
    Advances LockTable.Next s.table (meaning showError ⟨s, e, t⟩) t.table := by
  cases e with
  | tick clock =>
    simp only [Next, next] at h
    split at h <;> cases h
    rename_i hclock
    exact .tick clock.timestampMillis (timestampMillis_mono hclock)
  | acquire resource owner ttl now =>
    cases h
    generalize hacquire : tryAcquireLock showError s.keys resource owner ttl
      s.clock.timestampMillis = r
    obtain ⟨reply, keys⟩ := r
    simp only [meaning, hacquire]
    rcases tryAcquireLock_cases hacquire with ⟨expiresAt, rfl, rfl, hfree⟩ |
      ⟨lock, rfl, rfl, hlock, hne, hlive⟩ | ⟨e, rfl, rfl⟩
    · simp only [Dict.get?_insert, if_true, Option.map_some]
      simp only [table, LockTable.ofDict_insert]
      refine .acquired resource owner expiresAt fun other expiry hheld => ?_
      obtain ⟨lock, hlock, hsame⟩ := Option.map_eq_some_iff.mp hheld
      cases hsame
      rcases hfree lock hlock with howner | hexpired
      · exact .inl howner
      · exact .inr hexpired.le
    · exact .refused resource owner lock.owner _ lock.expiresAt (LockTable.ofDict_held hlock) hne
        le_rfl hlive
    · rfl
  | release resource owner =>
    cases h
    simp only [meaning, releaseLock]
    by_cases hown : getLock s.keys resource s.clock.timestampMillis = some owner
    · obtain ⟨lock, hlock, -, rfl⟩ := getLock_iff.mp hown
      simp only [hown, if_true]
      simp only [table, LockTable.ofDict_erase]
      exact .released resource lock.owner lock.expiresAt (LockTable.ofDict_held hlock)
    · simp only [hown, if_false]
      rfl
  | sweep now =>
    cases h
    rfl

/-- The commands on the keys of the named locks carry out a table of locks. -/
def refinement (showError : ShowError) :
    Refinement (Next showError) (@LockTable.Next String String Int _ _) where
  inv _ := True
  abs := table
  means := meaning showError
  keeps _ _ := trivial
  advances _ h := next_advances h

end LockSite
end RedisStorage
end Qml
