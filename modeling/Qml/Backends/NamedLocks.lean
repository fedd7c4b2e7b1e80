import Qml.Postgres.NamedLocks
import Qml.Redis.NamedLocks

namespace Qml
open Lib

namespace Backends

/-- Every backend keeps the contract of the named locks, in every run of its operations by
any owners, whatever the backend makes of their ttls. -/
theorem named_locks_kept_everywhere (makeInterval : PostgresStorage.MakeInterval)
    (showError : RedisStorage.ShowError) : LocksKept LockSite.refinement ∧
      LocksKept (PostgresStorage.LockSite.refinement makeInterval) ∧
      LocksKept (RedisStorage.LockSite.refinement showError) :=
  ⟨locksKept _, locksKept _, locksKept _⟩

/-- An owner holds a lock, a second one is turned down, and gets it after its time. -/
theorem named_locks_kept_everywhere_turnedDown : ∃ s x z w y t,
    Run LockSite.Next s [x, z, w, y] t ∧
    ((∃ z' ∈ [z, w], LockSite.meaning z' = some (.released "report" "a")) ∨
      ∃ before last after u, x :: [z, w] = before ++ last :: after ∧
        LockSite.meaning last = some (.acquired "report" "a" u) ∧
        (∀ z' ∈ after, ∀ u', LockSite.meaning z' ≠ some (.acquired "report" "a" u')) ∧
        u ≤ y.before.clock) ∧
    (z.after.table.held "report" = some ("a", 1000) ∨
      LockSite.meaning z = some (.released "report" "a") ∨
      ∃ later, LockSite.meaning z = some (.acquired "report" "a" later)) ∧
    ∃ other expiry, z.before.table.held "report" = some (other, expiry) ∧ other ≠ "b" ∧
      0 ≤ expiry := by
  let after (s : LockSite) (e : LockEvent) : LockSite := (s.next e).getD s
  let free : LockSite := ⟨.empty none, 0⟩
  let held := after free (.acquire "report" "a" 1000 0)
  let later := after held (.tick 2000)
  let x : Step LockSite LockEvent := ⟨free, .acquire "report" "a" 1000 0, held⟩
  let z : Step LockSite LockEvent := ⟨held, .acquire "report" "b" 1000 0, held⟩
  let w : Step LockSite LockEvent := ⟨held, .tick 2000, later⟩
  let y : Step LockSite LockEvent :=
    ⟨later, .acquire "report" "b" 1000 1500, after later (.acquire "report" "b" 1000 1500)⟩
  have hr : Run LockSite.Next free [x, z, w, y] y.after :=
    .cons rfl (.cons rfl (.cons rfl (.cons rfl .nil)))
  obtain ⟨⟨hexclusive, hlive, hrefused⟩, -⟩ :=
    named_locks_kept_everywhere (fun now ttl => .ok (now + ttl)) id
  exact ⟨free, x, z, w, y, _, hr,
    hexclusive free y.after [] x [z, w] y [] "report" "a" "b" 1000 2500 trivial hr rfl rfl
      (by decide),
    hlive free _ _ trivial hr z (by simp) "report" "a" 1000 rfl (by decide),
    hrefused free _ _ trivial hr z (by simp) "report" "b" 0 rfl⟩

end Backends
end Qml
