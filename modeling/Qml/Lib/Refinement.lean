import Qml.Lib.Run

namespace Lib
universe u v w x
variable {σ : Type u} {ℓ : Type v} {τ : Type w} {μ : Type x}

/-- A step with a label, or none: without one the state stays. -/
def Advances (spec : τ → μ → τ → Prop) (s : τ) : Option μ → τ → Prop
  | some b, t => spec s b t
  | none, t => t = s

/-- One system carries out another: read through `abs`, each of its steps is a step of the
other with the label it stands for, or leaves the other where it is. -/
structure Refinement (next : σ → ℓ → σ → Prop) (spec : τ → μ → τ → Prop) where
  inv : σ → Prop
  abs : σ → τ
  means : Step σ ℓ → Option μ
  keeps : ∀ {s a t}, inv s → next s a t → inv t
  advances : ∀ {s a t}, inv s → next s a t → Advances spec (abs s) (means ⟨s, a, t⟩) (abs t)

namespace Refinement
variable {next : σ → ℓ → σ → Prop} {spec : τ → μ → τ → Prop} (R : Refinement next spec)
  {s t : σ} {pre mid post tr : List (Step σ ℓ)} {x y : Step σ ℓ} {x' : Step τ μ} {b c : μ}

/-- The step that a step stands for. -/
def image (x : Step σ ℓ) : Option (Step τ μ) :=
  (R.means x).map fun b => ⟨R.abs x.before, b, R.abs x.after⟩

def trace (tr : List (Step σ ℓ)) : List (Step τ μ) := tr.filterMap R.image

theorem mem_trace : x' ∈ R.trace tr ↔ ∃ x ∈ tr, R.image x = some x' := List.mem_filterMap

theorem image_eq (h : R.means x = some b) :
    R.image x = some ⟨R.abs x.before, b, R.abs x.after⟩ := by
  rw [image, h, Option.map_some]

theorem trace_cut (h : R.means x = some b) :
    R.trace (pre ++ x :: post) =
      R.trace pre ++ ⟨R.abs x.before, b, R.abs x.after⟩ :: R.trace post := by
  rw [trace, List.filterMap_append, List.filterMap_cons_some (R.image_eq h)]
  rfl

/-- Where the trace can be cut, so can the history it comes from. -/
theorem trace_split {pre' post' : List (Step τ μ)} (h : R.trace tr = pre' ++ x' :: post') :
    ∃ pre x post, tr = pre ++ x :: post ∧ R.trace pre = pre' ∧ R.image x = some x' ∧
      R.trace post = post' := by
  obtain ⟨pre, rest, rfl, hpre, hrest⟩ := List.filterMap_eq_append_iff.mp h
  obtain ⟨skipped, x, post, rfl, hskipped, hx, hpost⟩ := List.filterMap_eq_cons_iff.mp hrest
  have hnone : skipped.filterMap R.image = [] := List.filterMap_eq_nil_iff.mpr hskipped
  refine ⟨pre ++ skipped, x, post, by simp, ?_, hx, hpost⟩
  rw [trace, List.filterMap_append, hnone, List.append_nil]
  exact hpre

/-- Every run is a run of the system it carries out. -/
theorem run (hs : R.inv s) (hr : Run next s tr t) :
    R.inv t ∧ Run spec (R.abs s) (R.trace tr) (R.abs t) := by
  induction hr with
  | nil => exact ⟨hs, .nil⟩
  | @snoc tr t u a run h ih =>
    refine ⟨R.keeps ih.1 h, ?_⟩
    have hadvance := R.advances ih.1 h
    cases hmeans : R.means ⟨t, a, u⟩ with
    | none =>
      have himage : R.image ⟨t, a, u⟩ = none := by rw [image, hmeans, Option.map_none]
      rw [hmeans] at hadvance
      rw [trace, List.filterMap_append, List.filterMap_cons_none himage, List.filterMap_nil,
        List.append_nil, hadvance]
      exact ih.2
    | some b =>
      rw [hmeans] at hadvance
      rw [R.trace_cut hmeans]
      exact .snoc ih.2 hadvance

theorem advances_of_mem (hs : R.inv s) (hr : Run next s tr t) (hx : x ∈ tr) :
    Advances spec (R.abs x.before) (R.means x) (R.abs x.after) := by
  obtain ⟨pre, -, hpre, hnext⟩ := hr.of_mem hx
  exact R.advances (R.run hs hpre).1 hnext

/-- A run cut at two steps that stand for one each. -/
theorem run_cuts (hs : R.inv s) (hr : Run next s (pre ++ x :: (mid ++ y :: post)) t)
    (hx : R.means x = some b) (hy : R.means y = some c) :
    Run spec (R.abs s) (R.trace pre ++ ⟨R.abs x.before, b, R.abs x.after⟩ ::
      (R.trace mid ++ ⟨R.abs y.before, c, R.abs y.after⟩ :: R.trace post)) (R.abs t) := by
  have hrun := (R.run hs hr).2
  rwa [R.trace_cut hx, R.trace_cut hy] at hrun

end Refinement
end Lib
