import Mathlib.Data.List.TakeWhile

namespace Lib
universe u v
variable {σ : Type u} {ℓ : Type v}

/-- One recorded step of a transition system. -/
structure Step (σ : Type u) (ℓ : Type v) where
  before : σ
  label : ℓ
  after : σ

/-- The finite runs of a transition system from `s`, with their history. -/
inductive Run (next : σ → ℓ → σ → Prop) (s : σ) : List (Step σ ℓ) → σ → Prop
  | nil : Run next s [] s
  | snoc {tr : List (Step σ ℓ)} {t u : σ} {a : ℓ} (run : Run next s tr t) (step : next t a u) :
      Run next s (tr ++ [⟨t, a, u⟩]) u

namespace Run
variable {next : σ → ℓ → σ → Prop} {s t u : σ} {tr tr' : List (Step σ ℓ)}

/-- The induction every safety result uses: what holds of the empty history
and survives one more step holds of every run. -/
theorem invariant (P : List (Step σ ℓ) → σ → Prop) (hr : Run next s tr t) (init : P [] s)
    (step : ∀ tr t a u, Run next s tr t → P tr t → next t a u → P (tr ++ [⟨t, a, u⟩]) u) :
    P tr t := by
  induction hr with
  | nil => exact init
  | snoc run h ih => exact step _ _ _ _ run ih h

theorem cons {a : ℓ} (h : next s a t) (hr : Run next t tr u) :
    Run next s (⟨s, a, t⟩ :: tr) u := by
  induction hr with
  | nil => exact (Run.nil.snoc h : Run next s ([] ++ [⟨s, a, t⟩]) t)
  | snoc _ hs ih => exact .snoc ih hs

/-- A run can be cut anywhere. -/
theorem split (hr : Run next s (tr ++ tr') u) : ∃ t, Run next s tr t ∧ Run next t tr' u := by
  generalize he : tr ++ tr' = all at hr
  induction hr generalizing tr' with
  | nil =>
    obtain ⟨rfl, rfl⟩ := List.append_eq_nil_iff.mp he
    exact ⟨s, .nil, .nil⟩
  | @snoc pre t u a run hs ih =>
    rcases List.eq_nil_or_concat tr' with rfl | ⟨init, last, rfl⟩
    · rw [List.append_nil] at he
      subst he
      exact ⟨u, .snoc run hs, .nil⟩
    · rw [List.concat_eq_append, ← List.append_assoc] at he
      obtain ⟨hi, hl⟩ := List.append_inj' he rfl
      obtain ⟨m, hm, hm'⟩ := ih hi
      cases hl
      exact ⟨m, hm, List.concat_eq_append ▸ .snoc hm' hs⟩

theorem of_snoc {x : Step σ ℓ} (hr : Run next s (tr ++ [x]) t) :
    Run next s tr x.before ∧ next x.before x.label x.after ∧ x.after = t := by
  generalize he : tr ++ [x] = all at hr
  cases hr with
  | nil => exact absurd he (by simp)
  | snoc run hs =>
    obtain ⟨rfl, hx⟩ := List.append_inj' he rfl
    cases hx
    exact ⟨run, hs, rfl⟩

/-- A run ends where its last step does. -/
theorem eq_last (hr : Run next s tr t) : t = (tr.getLast?.map Step.after).getD s := by
  cases hr with
  | nil => rfl
  | snoc run hs => simp

/-- The run up to a recorded step, the step itself, and the run after it. -/
theorem around {pre post : List (Step σ ℓ)} {x : Step σ ℓ}
    (hr : Run next s (pre ++ x :: post) u) :
    Run next s pre x.before ∧ next x.before x.label x.after ∧ Run next x.after post u := by
  have hcut : Run next s ((pre ++ [x]) ++ post) u := by simpa using hr
  obtain ⟨t, hx, hp⟩ := hcut.split
  obtain ⟨h1, h2, rfl⟩ := hx.of_snoc
  exact ⟨h1, h2, hp⟩

/-- A recorded step, with the run that leads to it. -/
theorem of_mem {x : Step σ ℓ} (hr : Run next s tr u) (hx : x ∈ tr) :
    ∃ pre, (∀ y ∈ pre, y ∈ tr) ∧ Run next s pre x.before ∧ next x.before x.label x.after := by
  obtain ⟨pre, post, rfl⟩ := List.append_of_mem hx
  obtain ⟨h1, h2, -⟩ := hr.around
  exact ⟨pre, fun y hy => List.mem_append_left _ hy, h1, h2⟩

/-- A condition that fails at the start of a run and holds at its end was made
true by some step of the run. -/
theorem crossing (W : σ → Prop) (hr : Run next s tr t) (hs : ¬ W s) (ht : W t) :
    ∃ x ∈ tr, ¬ W x.before ∧ W x.after := by
  induction hr with
  | nil => exact absurd ht hs
  | @snoc tr t u a run h ih =>
    by_cases hw : W t
    · obtain ⟨x, hx, hc⟩ := ih hw
      exact ⟨x, List.mem_append_left _ hx, hc⟩
    · exact ⟨⟨t, a, u⟩, by simp, hw, ht⟩

/-- Between a step that ends a condition and a later one that needs it, some
step makes it true again. -/
theorem between (W : σ → Prop) {pre mid post : List (Step σ ℓ)} {x y : Step σ ℓ}
    (hr : Run next s (pre ++ x :: (mid ++ y :: post)) t) (hx : ¬ W x.after) (hy : W y.before) :
    ∃ z ∈ mid, ¬ W z.before ∧ W z.after := by
  obtain ⟨-, -, hrest⟩ := hr.around
  obtain ⟨hmid, -, -⟩ := hrest.around
  exact hmid.crossing W hx hy

/-- A condition that no step undoes, once true, stays true. -/
theorem stable (W : σ → Prop) (hr : Run next s tr t) (hs : W s)
    (keep : ∀ x ∈ tr, W x.before → W x.after) : W t := by
  induction hr with
  | nil => exact hs
  | @snoc tr t u a run h ih =>
    exact keep ⟨t, a, u⟩ (by simp) (ih fun x hx => keep x (List.mem_append_left _ hx))

/-- It stays true in every state passed. -/
theorem onward (W : σ → Prop) (hr : Run next s tr t) (hs : W s)
    (keep : ∀ x ∈ tr, W x.before → W x.after) : ∀ y ∈ tr, W y.after := by
  intro y hy
  obtain ⟨pre, hsub, hpre, -⟩ := hr.of_mem hy
  exact keep y hy (hpre.stable W hs fun z hz => keep z (hsub z hz))

/-- From a recorded step on, it stays true in every state passed. -/
theorem stays (W : σ → Prop) {pre post : List (Step σ ℓ)} {x : Step σ ℓ}
    (hr : Run next s (pre ++ x :: post) u) (hx : W x.before)
    (keep : ∀ z ∈ x :: post, W z.before → W z.after) : ∀ y ∈ x :: post, W y.after := by
  obtain ⟨-, hn, hp⟩ := hr.around
  exact (hp.cons hn).onward W hx keep

end Run

/-- A list can be cut where a test holds first. -/
theorem cut_first {α : Type u} {p : α → Bool} {l : List α} (h : l.any p = true) :
    ∃ pre x, l = pre ++ x :: (l.dropWhile fun a => !p a).tail ∧ p x = true := by
  cases hd : l.dropWhile fun a => !p a with
  | nil =>
    obtain ⟨a, ha, hpa⟩ := List.any_eq_true.mp h
    have hnone := List.dropWhile_eq_nil_iff.mp hd a ha
    simp [hpa] at hnone
  | cons x rest =>
    have hpx := List.head_dropWhile_not (fun a => !p a) (l := l) (by simp [hd])
    refine ⟨l.takeWhile fun a => !p a, x, ?_, ?_⟩
    · rw [List.tail_cons, ← hd, List.takeWhile_append_dropWhile]
    · simpa [hd] using hpx

/-- A list can be cut where a property holds last. -/
theorem cut_last {α : Type u} {p : α → Prop} {l : List α} {a : α} (ha : a ∈ l) (hp : p a) :
    ∃ before last after, l = before ++ last :: after ∧ p last ∧ ∀ b ∈ after, ¬ p b := by
  induction l generalizing a with
  | nil => cases ha
  | cons b l ih =>
    by_cases hlater : ∃ c ∈ l, p c
    · obtain ⟨c, hc, hpc⟩ := hlater
      obtain ⟨before, last, after, rfl, hlast, hafter⟩ := ih hc hpc
      exact ⟨b :: before, last, after, rfl, hlast, hafter⟩
    · rcases List.mem_cons.mp ha with rfl | ha
      · exact ⟨[], a, l, rfl, hp, fun c hc hpc => hlater ⟨c, hc, hpc⟩⟩
      · exact absurd ⟨a, ha, hp⟩ hlater

/-- A list in which a test holds twice can be cut at both places. -/
theorem twice {α : Type u} {p : α → Bool} {l : List α}
    (h : (l.dropWhile fun a => !p a).tail.any p = true) :
    ∃ pre x mid y post, l = pre ++ x :: (mid ++ y :: post) ∧ p x = true ∧ p y = true := by
  cases hd : l.dropWhile fun a => !p a with
  | nil => simp [hd] at h
  | cons x rest =>
    rw [hd, List.tail_cons] at h
    obtain ⟨y, hy, hpy⟩ := List.any_eq_true.mp h
    obtain ⟨mid, post, rfl⟩ := List.append_of_mem hy
    have hpx := List.head_dropWhile_not (fun a => !p a) (l := l) (by simp [hd])
    refine ⟨l.takeWhile fun a => !p a, x, mid, y, post, ?_, ?_, hpy⟩
    · rw [← hd, List.takeWhile_append_dropWhile]
    · simpa [hd] using hpx

/-- The elements of a list after the last one that passes a test, latest first. -/
def since {α : Type u} (p : α → Bool) (l : List α) : List α := l.reverse.takeWhile fun x => !p x

theorem since_snoc {α : Type u} {p : α → Bool} {l : List α} {x : α} (h : p x = false) :
    since p (l ++ [x]) = x :: since p l := by
  simp [since, h]

/-- Test each element of a list together with those before it. -/
def checkCuts {α : Type u} (p : List α → α → Bool) (before : List α) : List α → Bool
  | [] => true
  | x :: after => p before x && checkCuts p (before ++ [x]) after

theorem checkCuts_cut {α : Type u} {p : List α → α → Bool} {before pre post : List α} {x : α}
    (h : checkCuts p before (pre ++ x :: post) = true) : p (before ++ pre) x = true := by
  induction pre generalizing before with
  | nil =>
    rw [List.nil_append, checkCuts, Bool.and_eq_true] at h
    rw [List.append_nil]
    exact h.1
  | cons y pre ih =>
    rw [List.cons_append, checkCuts, Bool.and_eq_true] at h
    rw [List.append_cons]
    exact ih h.2

/-- Replay a list of labels on an executable system, up to the first one that
is not enabled. -/
def replay (step : σ → ℓ → Option σ) : σ → List ℓ → List (Step σ ℓ)
  | _, [] => []
  | s, a :: as =>
    match step s a with
    | some t => ⟨s, a, t⟩ :: replay step t as
    | none => []

theorem replay_run (step : σ → ℓ → Option σ) (s : σ) (as : List ℓ) :
    ∃ t, Run (fun s a t => step s a = some t) s (replay step s as) t := by
  induction as generalizing s with
  | nil => exact ⟨s, .nil⟩
  | cons a as ih =>
    cases h : step s a with
    | none => exact ⟨s, by simpa [replay, h] using Run.nil⟩
    | some t =>
      obtain ⟨u, hu⟩ := ih t
      exact ⟨u, by simpa [replay, h] using hu.cons h⟩

end Lib
