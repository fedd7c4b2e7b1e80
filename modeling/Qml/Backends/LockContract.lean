import Qml.Lib.LockTable

namespace Qml
open Lib

section
universe u v
variable {σ : Type u} {ℓ : Type v} {next : σ → ℓ → σ → Prop} {τ : Type} [LinearOrder τ]

/-- The contract of the named locks, for every run of a backend. -/
structure LocksKept (R : Refinement next (@LockTable.Next String String τ _ _)) : Prop where
  /-- Between an acquire by one owner and a later one by another, the first owner released
  the lock, or the expiry that it had last set has passed. -/
  exclusive : ∀ s t pre x mid y post resource a b u v, R.inv s →
    Run next s (pre ++ x :: (mid ++ y :: post)) t → R.means x = some (.acquired resource a u) →
    R.means y = some (.acquired resource b v) → b ≠ a →
    (∃ z ∈ mid, R.means z = some (.released resource a)) ∨
      ∃ before last after w, x :: mid = before ++ last :: after ∧
        R.means last = some (.acquired resource a w) ∧
        (∀ z ∈ after, ∀ w', R.means z ≠ some (.acquired resource a w')) ∧
        w ≤ (R.abs y.before).clock
  /-- A live lock stays until its owner releases or renews it. -/
  live : ∀ s tr t, R.inv s → Run next s tr t → ∀ x ∈ tr, ∀ resource owner expiry,
    (R.abs x.before).held resource = some (owner, expiry) → (R.abs x.before).clock < expiry →
    (R.abs x.after).held resource = some (owner, expiry) ∨
      R.means x = some (.released resource owner) ∨
      ∃ later, R.means x = some (.acquired resource owner later)
  /-- Only a live lock of somebody else turns an owner down. -/
  refused : ∀ s tr t, R.inv s → Run next s tr t → ∀ x ∈ tr, ∀ resource owner now,
    R.means x = some (.refused resource owner now) → ∃ other expiry,
      (R.abs x.before).held resource = some (other, expiry) ∧ other ≠ owner ∧ now ≤ expiry

variable (R : Refinement next (@LockTable.Next String String τ _ _))

theorem locksKept : LocksKept R where
  exclusive s t pre x mid y post resource a b u v hs hr hx hy hne := by
    have hcut : R.trace ([] ++ x :: mid) = [] ++ ⟨R.abs x.before, _, R.abs x.after⟩ ::
        R.trace mid := R.trace_cut hx
    rcases LockTable.exclusive (R.run_cuts hs hr hx hy) rfl rfl hne with hreleased | hexpired
    · obtain ⟨z', hz', hlabel⟩ := hreleased
      obtain ⟨z, hz, himage⟩ := R.mem_trace.mp hz'
      obtain ⟨event, hevent, rfl⟩ := Option.map_eq_some_iff.mp himage
      exact .inl ⟨z, hz, hevent.trans (congrArg some hlabel)⟩
    · obtain ⟨before', last', after', w, htrace, hlabel, hafter, hle⟩ := hexpired
      obtain ⟨before, last, after, hsplit, -, himage, rfl⟩ := R.trace_split (hcut.trans htrace)
      obtain ⟨event, hevent, rfl⟩ := Option.map_eq_some_iff.mp himage
      refine .inr ⟨before, last, after, w, hsplit, hevent.trans (congrArg some hlabel), ?_, hle⟩
      intro z hz w' hz'
      exact hafter _ (R.mem_trace.mpr ⟨z, hz, R.image_eq hz'⟩) w' rfl
  live s tr t hs hr x hx resource owner expiry hheld hlive := by
    have hadvance := R.advances_of_mem hs hr hx
    cases hmeans : R.means x with
    | none =>
      rw [hmeans] at hadvance
      rw [show R.abs x.after = R.abs x.before from hadvance]
      exact .inl hheld
    | some event =>
      rw [hmeans] at hadvance
      rcases LockTable.held_step hadvance hheld with hkept | rfl | ⟨later, rfl⟩ | hexpired
      · exact .inl hkept
      · exact .inr (.inl rfl)
      · exact .inr (.inr ⟨later, rfl⟩)
      · exact absurd hexpired (not_le.mpr hlive)
  refused s tr t hs hr x hx resource owner now hmeans := by
    have hadvance := R.advances_of_mem hs hr hx
    rw [hmeans] at hadvance
    generalize R.abs x.after = after at hadvance
    cases hadvance with
    | refused _ _ other _ expiry hheld hne hnow hlive => exact ⟨other, expiry, hheld, hne, hlive⟩

end

end Qml
