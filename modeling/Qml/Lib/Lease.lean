import Qml.Lib.Run

namespace Lib
universe u v
variable {σ : Type u} {ℓ : Type v} {κ ω τ : Type}

/-- What the steps of a system mean for leases: a step may grant one on a key to a
holder up to some time, end one that it was granted, or serve a key to somebody. -/
structure Leases (σ : Type u) (ℓ : Type v) (κ ω τ : Type) where
  grants : Step σ ℓ → κ → ω → τ → Prop
  ends : Step σ ℓ → κ → ω → τ → Prop
  serves : Step σ ℓ → κ → ω → Prop

namespace Leases
variable (V : Leases σ ℓ κ ω τ)

/-- The step comes, in the history, while a lease granted before it has not ended. -/
def Within (tr : List (Step σ ℓ)) (y : Step σ ℓ) (k : κ) (w : ω) : Prop :=
  ∃ pre x mid post u, tr = pre ++ x :: (mid ++ y :: post) ∧ V.grants x k w u ∧
    ∀ z ∈ mid ++ [y], ¬ V.ends z k w u

/-- A key under a lease is served to nobody but the holder. -/
def Honoured (tr : List (Step σ ℓ)) : Prop :=
  ∀ y k w w', V.Within tr y k w → V.serves y k w' → w' = w

variable {V} {next : σ → ℓ → σ → Prop} {s t : σ} {tr : List (Step σ ℓ)}

/-- Leases are honoured when a grant puts up a guard that only the end of the lease takes
down, and nobody but the holder is served past a guard. -/
theorem honoured_of_guard (guard : σ → κ → ω → τ → Prop) (hr : Run next s tr t)
    (hgrant : ∀ x ∈ tr, ∀ k w u, V.grants x k w u → guard x.after k w u)
    (hkeep : ∀ x ∈ tr, ∀ k w u, guard x.before k w u → guard x.after k w u ∨ V.ends x k w u)
    (hserve : ∀ x ∈ tr, ∀ k w u w', guard x.before k w u → V.serves x k w' →
      w' = w ∨ V.ends x k w u) : V.Honoured tr := by
  rintro y k w w' ⟨pre, x, mid, post, u, rfl, hx, hends⟩ hserves
  have hguard : guard y.before k w u := by
    by_contra hdown
    obtain ⟨z, hz, hbefore, hafter⟩ := hr.between (fun s => ¬ guard s k w u)
      (fun h => h (hgrant x (by simp) k w u hx)) hdown
    rcases hkeep z (by simp [hz]) k w u (not_not.mp hbefore) with hup | hend
    · exact hafter hup
    · exact hends z (List.mem_append_left _ hz) hend
  rcases hserve y (by simp) k w u w' hguard hserves with hsame | hend
  · exact hsame
  · exact absurd hend (hends y (by simp))

/-- No step that asks for keys has one within reach that is under a lease of somebody else. -/
def Spared (V : Leases σ ℓ κ ω τ) (reaches : Step σ ℓ → κ → ω → Prop)
    (tr : List (Step σ ℓ)) : Prop :=
  ∀ y k w w', V.Within tr y k w → reaches y k w' → w' = w

/-- Leases of one holder are spared where nobody else has a key within reach. -/
theorem Spared.of_holder {reaches : Step σ ℓ → κ → ω → Prop} (holder : ω)
    (hgrants : ∀ x ∈ tr, ∀ k w u, V.grants x k w u → w = holder)
    (hreaches : ∀ y ∈ tr, ∀ k w, reaches y k w → w = holder) : V.Spared reaches tr := by
  rintro y k w w' ⟨pre, x, mid, post, u, rfl, hgrant, -⟩ hreach
  rw [hreaches y (by simp) k w' hreach, hgrants x (by simp) k w u hgrant]

/-- Where nothing is served out of reach, sparing the leases honours them. -/
theorem Spared.honoured {reaches : Step σ ℓ → κ → ω → Prop} (h : V.Spared reaches tr)
    (hserve : ∀ y ∈ tr, ∀ k w, V.serves y k w → reaches y k w) : V.Honoured tr := by
  intro y k w w' hwithin hserves
  have hy : y ∈ tr := by
    obtain ⟨pre, x, mid, post, u, rfl, -⟩ := hwithin
    simp
  exact h y k w w' hwithin (hserve y hy k w' hserves)

end Leases
end Lib
