import Qml.Lib.LockTable
import Qml.Memory.NamedLocks

namespace Qml
open Lib

namespace PostgresStorage

/-- A row of `qml_locks`, under its resource. -/
structure LockRow where
  owner : String
  acquiredAt : DateTime
  expiresAt : DateTime

/-- What `NOW() + make_interval(secs => $3)` comes to for a ttl bound as seconds in
floating point, or the text of the error for a date out of range. -/
abbrev MakeInterval := DateTime → Nat → Except String DateTime

/-- `try_acquire_lock`: one insert, whose conflict clause takes over a row that has expired
or is the caller's own. -/
def tryAcquireLock (makeInterval : MakeInterval) (rows : Dict String LockRow)
    (resource owner : String) (ttl : Nat) (now : DateTime) :
    Except StorageError Bool × Dict String LockRow :=
  match makeInterval now ttl with
  | .error e => (.error (.operationFailed ("Failed to acquire lock: " ++ e)), rows)
  | .ok expiresAt =>
    let excluded : LockRow := ⟨owner, now, expiresAt⟩
    match rows.get? resource with
    | none => (.ok true, rows.insert resource excluded)
    | some row =>
      if row.expiresAt < now ∨ row.owner = excluded.owner then
        (.ok true, rows.insert resource excluded)
      else (.ok false, rows)

def releaseLock (rows : Dict String LockRow) (resource owner : String) :
    Bool × Dict String LockRow :=
  match rows.get? resource with
  | some row => if row.owner = owner then (true, rows.erase resource) else (false, rows)
  | none => (false, rows)

def cleanupExpiredNamedLocks (rows : Dict String LockRow) (now : DateTime) :
    Nat × Dict String LockRow :=
  let kept := rows.filter fun _ row => !decide (row.expiresAt < now)
  (rows.size - kept.size, kept)

/-- The locks table with the clock of the database. -/
structure LockSite where
  rows : Dict String LockRow
  clock : DateTime

namespace LockSite

/-- The time of a statement is that of the start of its transaction. -/
def next (makeInterval : MakeInterval) (s : LockSite) : LockEvent → Option LockSite
  | .tick clock => if s.clock ≤ clock then some { s with clock := clock } else none
  | .acquire resource owner ttl now =>
    if now ≤ s.clock then
      some { s with rows := (tryAcquireLock makeInterval s.rows resource owner ttl now).2 }
    else none
  | .release resource owner => some { s with rows := (releaseLock s.rows resource owner).2 }
  | .sweep now =>
    if now ≤ s.clock then some { s with rows := (cleanupExpiredNamedLocks s.rows now).2 }
    else none

abbrev Next (makeInterval : MakeInterval) (s : LockSite) (e : LockEvent) (t : LockSite) : Prop :=
  s.next makeInterval e = some t

/-- The locks that the table holds. -/
def table (s : LockSite) : LockTable String String DateTime :=
  .ofDict (fun row => (row.owner, row.expiresAt)) s.rows s.clock

/-- What a step means for the locks. An acquire that fails and a release that finds no lock
of its own mean nothing. -/
def meaning (makeInterval : MakeInterval) (x : Step LockSite LockEvent) :
    Option (LockTable.Event String String DateTime) :=
  match x.label with
  | .tick clock => some (.tick clock)
  | .acquire resource owner ttl now =>
    match (tryAcquireLock makeInterval x.before.rows resource owner ttl now).1 with
    | .ok true => (x.after.rows.get? resource).map fun row => .acquired resource owner row.expiresAt
    | .ok false => some (.refused resource owner now)
    | .error _ => none
  | .release resource owner =>
    if (releaseLock x.before.rows resource owner).1 then some (.released resource owner) else none
  | .sweep now => some (.swept now)

variable {makeInterval : MakeInterval} {s t : LockSite} {e : LockEvent} {row : LockRow}
  {rows rows' : Dict String LockRow} {resource owner : String} {ttl : Nat} {now clock : DateTime}
  {reply : Except StorageError Bool}

/-- An acquire stores its own row, over none that is live and somebody else's; or it finds
such a row; or the database turns the ttl down. -/
theorem tryAcquireLock_cases
    (h : tryAcquireLock makeInterval rows resource owner ttl now = (reply, rows')) :
    (∃ expiresAt, reply = .ok true ∧ rows' = rows.insert resource ⟨owner, now, expiresAt⟩ ∧
        ∀ row, rows.get? resource = some row → row.owner = owner ∨ row.expiresAt < now) ∨
      (∃ row, reply = .ok false ∧ rows' = rows ∧ rows.get? resource = some row ∧
        row.owner ≠ owner ∧ now ≤ row.expiresAt) ∨
      ∃ e, reply = .error e ∧ rows' = rows := by
  unfold tryAcquireLock at h
  cases hexpiry : makeInterval now ttl with
  | error e =>
    rw [hexpiry] at h
    cases h
    exact .inr (.inr ⟨_, rfl, rfl⟩)
  | ok expiresAt =>
    rw [hexpiry] at h
    cases hrow : rows.get? resource with
    | none =>
      simp only [hrow] at h
      cases h
      exact .inl ⟨expiresAt, rfl, rfl, fun row hfound => by cases hfound⟩
    | some row =>
      simp only [hrow] at h
      split at h <;> cases h
      · rename_i hfree
        refine .inl ⟨expiresAt, rfl, rfl, fun found hfound => ?_⟩
        cases hfound
        exact hfree.symm
      · rename_i hheld
        rw [not_or, not_lt] at hheld
        exact .inr (.inl ⟨row, rfl, rfl, rfl, hheld.2, hheld.1⟩)

theorem next_advances (h : Next makeInterval s e t) :
    Advances LockTable.Next s.table (meaning makeInterval ⟨s, e, t⟩) t.table := by
  cases e with
  | tick clock =>
    simp only [Next, next] at h
    split at h <;> cases h
    exact .tick clock ‹_›
  | acquire resource owner ttl now =>
    simp only [Next, next] at h
    split at h <;> cases h
    rename_i hnow
    generalize hacquire : tryAcquireLock makeInterval s.rows resource owner ttl now = r
    obtain ⟨reply, rows⟩ := r
    simp only [meaning, hacquire]
    rcases tryAcquireLock_cases hacquire with ⟨expiresAt, rfl, rfl, hfree⟩ |
      ⟨row, rfl, rfl, hrow, hne, hlive⟩ | ⟨e, rfl, rfl⟩
    · simp only [Dict.get?_insert, if_true, Option.map_some]
      simp only [table, LockTable.ofDict_insert]
      refine .acquired resource owner expiresAt fun other expiry hheld => ?_
      obtain ⟨row, hrow, hsame⟩ := Option.map_eq_some_iff.mp hheld
      cases hsame
      rcases hfree row hrow with howner | hexpired
      · exact .inl howner
      · exact .inr (hexpired.le.trans hnow)
    · exact .refused resource owner row.owner now row.expiresAt (LockTable.ofDict_held hrow) hne
        hnow hlive
    · rfl
  | release resource owner =>
    cases h
    simp only [meaning, releaseLock]
    cases hrow : s.rows.get? resource with
    | none => rfl
    | some row =>
      by_cases howner : row.owner = owner
      · subst howner
        simp only [if_true]
        simp only [table, LockTable.ofDict_erase]
        exact .released resource row.owner row.expiresAt (LockTable.ofDict_held hrow)
      · simp only [howner, if_false]
        rfl
  | sweep now =>
    simp only [Next, next] at h
    split at h <;> cases h
    refine .swept now _ ‹_› fun k => ?_
    simp only [table, LockTable.ofDict, cleanupExpiredNamedLocks, Dict.get?_filter]
    cases hrow : s.rows.get? k with
    | none => exact .inl rfl
    | some row =>
      by_cases hexpired : row.expiresAt < now
      · exact .inr ⟨by simp [hexpired], row.owner, row.expiresAt, rfl, hexpired.le⟩
      · exact .inl (by simp [Option.filter, hexpired])

/-- The statements on the locks table carry out a table of locks. -/
def refinement (makeInterval : MakeInterval) :
    Refinement (Next makeInterval) (@LockTable.Next String String DateTime _ _) where
  inv _ := True
  abs := table
  means := meaning makeInterval
  keeps _ _ := trivial
  advances _ h := next_advances h

end LockSite
end PostgresStorage
end Qml
