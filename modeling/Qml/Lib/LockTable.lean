import Mathlib.Logic.Function.Basic
import Mathlib.Order.Defs.LinearOrder
import Qml.Lib.Dict
import Qml.Lib.Lease
import Qml.Lib.Refinement

namespace Lib
universe u v
variable {κ ω τ : Type} {σ : Type u} {ℓ : Type v}

/-- Locks on keys, each with its holder and its expiry, and the clock that all read. -/
structure LockTable (κ ω τ : Type) where
  held : κ → Option (ω × τ)
  clock : τ

namespace LockTable

inductive Event (κ ω τ : Type)
  | tick (clock : τ)
  | acquired (k : κ) (w : ω) (expiry : τ)
  | refused (k : κ) (w : ω) (now : τ)
  | released (k : κ) (w : ω)
  | swept (now : τ)

/-- The locks that the entries of a map stand for. -/
def ofDict {ν : Type} [DecidableEq κ] (view : ν → ω × τ) (d : Dict κ ν) (clock : τ) :
    LockTable κ ω τ where
  held k := (d.get? k).map view
  clock := clock

/-- A lock passes to another holder when it is free or its time is up. A holder is turned
down over a lock that was live when it looked. A sweep takes expired locks only. -/
inductive Next [DecidableEq κ] [LinearOrder τ] (s : LockTable κ ω τ) :
    Event κ ω τ → LockTable κ ω τ → Prop
  | tick (clock : τ) (hclock : s.clock ≤ clock) : Next s (.tick clock) { s with clock := clock }
  | acquired (k : κ) (w : ω) (expiry : τ)
      (hfree : ∀ w' expiry', s.held k = some (w', expiry') → w' = w ∨ expiry' ≤ s.clock) :
      Next s (.acquired k w expiry) { s with held := Function.update s.held k (some (w, expiry)) }
  | refused (k : κ) (w w' : ω) (now expiry : τ) (hheld : s.held k = some (w', expiry))
      (hne : w' ≠ w) (hnow : now ≤ s.clock) (hlive : now ≤ expiry) : Next s (.refused k w now) s
  | released (k : κ) (w : ω) (expiry : τ) (hheld : s.held k = some (w, expiry)) :
      Next s (.released k w) { s with held := Function.update s.held k none }
  | swept (now : τ) (held : κ → Option (ω × τ)) (hnow : now ≤ s.clock)
      (hheld : ∀ k, held k = s.held k ∨
        held k = none ∧ ∃ w expiry, s.held k = some (w, expiry) ∧ expiry ≤ now) :
      Next s (.swept now) { s with held := held }

section
variable {ν : Type} [DecidableEq κ] {view : ν → ω × τ} {d : Dict κ ν} {k : κ} {v : ν} {clock : τ}

theorem ofDict_insert :
    ofDict view (d.insert k v) clock = { ofDict view d clock with
      held := Function.update (ofDict view d clock).held k (some (view v)) } := by
  refine congrArg (LockTable.mk · clock) (funext fun k' => ?_)
  by_cases hkey : k' = k
  · subst hkey
    simp [ofDict]
  · simp [ofDict, hkey]

theorem ofDict_erase :
    ofDict view (d.erase k) clock = { ofDict view d clock with
      held := Function.update (ofDict view d clock).held k none } := by
  refine congrArg (LockTable.mk · clock) (funext fun k' => ?_)
  by_cases hkey : k' = k
  · subst hkey
    simp [ofDict]
  · simp [ofDict, hkey]

theorem ofDict_held (h : d.get? k = some v) : (ofDict view d clock).held k = some (view v) :=
  congrArg (Option.map view) h

end

section
variable [DecidableEq κ] [LinearOrder τ] {s t : LockTable κ ω τ} {e : Event κ ω τ} {k : κ} {w : ω}
  {expiry : τ} {pre mid post tr : List (Step (LockTable κ ω τ) (Event κ ω τ))}
  {x y : Step (LockTable κ ω τ) (Event κ ω τ)}

theorem clock_step (h : Next s e t) : s.clock ≤ t.clock := by
  cases h with
  | tick clock hclock => exact hclock
  | acquired | refused | released | swept => exact le_rfl

/-- The clock of an earlier step is not ahead of the clock of a later one. -/
theorem clock_le (hr : Run Next s (pre ++ x :: (mid ++ y :: post)) t) :
    x.before.clock ≤ y.before.clock := by
  obtain ⟨-, hnext, hrest⟩ := hr.around
  obtain ⟨hmid, -, -⟩ := hrest.around
  refine (clock_step hnext).trans ?_
  refine hmid.stable (fun u => x.after.clock ≤ u.clock) le_rfl fun z hz hle => ?_
  obtain ⟨-, -, -, hz⟩ := hmid.of_mem hz
  exact hle.trans (clock_step hz)

/-- A lock stays as it is until its holder releases or renews it or its time is up. -/
theorem held_step (h : Next s e t) (hheld : s.held k = some (w, expiry)) :
    t.held k = some (w, expiry) ∨ e = .released k w ∨ (∃ later, e = .acquired k w later) ∨
      expiry ≤ s.clock := by
  cases h with
  | tick | refused => exact .inl hheld
  | acquired k' w' later hfree =>
    by_cases hkey : k = k'
    · subst hkey
      rcases hfree w expiry hheld with rfl | hexpired
      · exact .inr (.inr (.inl ⟨later, rfl⟩))
      · exact .inr (.inr (.inr hexpired))
    · exact .inl ((Function.update_of_ne hkey ..).trans hheld)
  | released k' w' expiry' hheld' =>
    by_cases hkey : k = k'
    · subst hkey
      cases hheld.symm.trans hheld'
      exact .inr (.inl rfl)
    · exact .inl ((Function.update_of_ne hkey ..).trans hheld)
  | swept now held hnow hswept =>
    rcases hswept k with hkept | ⟨-, w', expiry', hheld', hexpired⟩
    · exact .inl (hkept.trans hheld)
    · cases hheld.symm.trans hheld'
      exact .inr (.inr (.inr (hexpired.trans hnow)))

/-- The lease of a holder ends when it releases the lock, when it acquires it anew, and
when its time is up. -/
def leases : Leases (LockTable κ ω τ) (Event κ ω τ) κ ω τ where
  grants x k w expiry := x.label = .acquired k w expiry
  ends x k w expiry := x.label = .released k w ∨ (∃ later, x.label = .acquired k w later) ∨
    expiry ≤ x.before.clock
  serves x k w := ∃ expiry, x.label = .acquired k w expiry

theorem leases_honoured (hr : Run Next s tr t) : (leases : Leases _ _ κ ω τ).Honoured tr := by
  have hnext : ∀ x ∈ tr, Next x.before x.label x.after := by
    intro x hx
    obtain ⟨-, -, -, hnext⟩ := hr.of_mem hx
    exact hnext
  apply Leases.honoured_of_guard (fun s k w expiry => s.held k = some (w, expiry)) hr
  · intro x hx k w expiry hgrants
    have hx' := hnext x hx
    rw [show x.label = .acquired k w expiry from hgrants] at hx'
    generalize x.after = after at hx'
    cases hx' with
    | acquired => exact Function.update_self ..
  · intro x hx k w expiry hheld
    exact held_step (hnext x hx) hheld
  · intro x hx k w expiry w' hheld hserves
    obtain ⟨later, hlabel⟩ := hserves
    have hx' := hnext x hx
    rw [hlabel] at hx'
    generalize x.after = after at hx'
    cases hx' with
    | acquired _ _ _ hfree =>
      rcases hfree w expiry hheld with howner | hexpired
      · exact .inl howner.symm
      · exact .inr (.inr (.inr hexpired))

/-- Between an acquire by one holder and a later one by another, the first released the
lock, or the expiry that it had last set has passed. -/
theorem exclusive {a b : ω} {u v : τ} (hr : Run Next s (pre ++ x :: (mid ++ y :: post)) t)
    (hx : x.label = .acquired k a u) (hy : y.label = .acquired k b v) (hne : b ≠ a) :
    (∃ z ∈ mid, z.label = .released k a) ∨
      ∃ before last after w, x :: mid = before ++ last :: after ∧ last.label = .acquired k a w ∧
        (∀ z ∈ after, ∀ w', z.label ≠ .acquired k a w') ∧ w ≤ y.before.clock := by
  have hfirst : ∃ w, x.label = .acquired k a w := ⟨u, hx⟩
  obtain ⟨before, last, after, hcut, ⟨w, hlast⟩, hafter⟩ :=
    @cut_last _ (fun z => ∃ w, z.label = .acquired k a w) (x :: mid) x List.mem_cons_self hfirst
  by_cases hreleased : ∃ z ∈ mid, z.label = .released k a
  · exact .inl hreleased
  refine .inr ⟨before, last, after, w, hcut, hlast, fun z hz w' h => hafter z hz ⟨w', h⟩, ?_⟩
  by_contra hlive
  have hsub : ∀ z ∈ after, z ∈ mid := by
    intro z hz
    cases before with
    | nil =>
      cases hcut
      exact hz
    | cons _ before =>
      cases hcut
      simp [hz]
  have hlong : pre ++ x :: (mid ++ y :: post) =
      (pre ++ before) ++ last :: (after ++ y :: post) := by
    rw [← List.cons_append, hcut]
    simp
  rw [hlong] at hr
  -- The lease of the last acquire has not ended, so nobody else may have been served.
  refine hne (leases_honoured hr y k a b
    ⟨pre ++ before, last, after, post, w, rfl, hlast, fun z hz hends => ?_⟩ ⟨v, hy⟩)
  rcases List.mem_append.mp hz with hz | hz
  · rcases hends with hrelease | ⟨later, hagain⟩ | hexpired
    · exact hreleased ⟨z, hsub z hz, hrelease⟩
    · exact hafter z hz ⟨later, hagain⟩
    · obtain ⟨p, q, rfl⟩ := List.append_of_mem hz
      have hcut' : Run Next s ((pre ++ before ++ last :: p) ++ z :: (q ++ y :: post)) t := by
        simpa using hr
      exact hlive (hexpired.trans (clock_le hcut'))
  · obtain rfl := List.mem_singleton.mp hz
    rcases hends with hrelease | ⟨later, hagain⟩ | hexpired
    · cases hrelease.symm.trans hy
    · cases hagain.symm.trans hy
      exact hne rfl
    · exact hlive hexpired

end
end LockTable
end Lib
