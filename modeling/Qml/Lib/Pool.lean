import Mathlib.Algebra.BigOperators.Group.List.Basic
import Mathlib.Algebra.Ring.Int.Defs
import Mathlib.Data.List.Nodup

namespace Lib
universe u v
variable {α : Type u} {pool : List α} {a b : α} {i j : Nat}

/-- A member of a pool in which one was replaced is the new one, or was there. -/
theorem set_cases (h : (pool.set i b)[j]? = some a) :
    j = i ∧ a = b ∨ j ≠ i ∧ pool[j]? = some a := by
  rw [List.getElem?_set] at h
  split at h
  · rename_i hij
    split at h
    · cases h
      exact .inl ⟨hij.symm, rfl⟩
    · cases h
  · rename_i hij
    exact .inr ⟨fun he => hij he.symm, h⟩

/-- A member of a pool that grew by one is the new one, or was there. -/
theorem join_cases (h : (pool ++ [b])[j]? = some a) :
    j = pool.length ∧ a = b ∨ pool[j]? = some a := by
  rw [List.getElem?_append] at h
  split at h
  · exact .inr h
  · rename_i hj
    rw [List.getElem?_singleton] at h
    split at h
    · cases h
      exact .inl ⟨by omega, rfl⟩
    · cases h

/-- Replacing a member by one with the same mark changes no mark. -/
theorem map_set_same {β : Type v} (f : α → β) (h : pool[i]? = some a) (hf : f b = f a) :
    (pool.set i b).map f = pool.map f := by
  refine List.ext_getElem? fun j => ?_
  rw [List.map_set, List.getElem?_set]
  split
  · rename_i hij
    subst hij
    obtain ⟨hlt, rfl⟩ := List.getElem?_eq_some_iff.mp h
    simp [hlt, hf]
  · rfl

/-- In a pool without repeated marks a mark tells where its bearer stands. -/
theorem index_eq {β : Type v} {f : α → β} (hnodup : (pool.map f).Nodup) (ha : pool[i]? = some a)
    (hb : pool[j]? = some b) (h : f a = f b) : i = j := by
  obtain ⟨hi, rfl⟩ := List.getElem?_eq_some_iff.mp ha
  obtain ⟨hj, rfl⟩ := List.getElem?_eq_some_iff.mp hb
  have hi' : i < (pool.map f).length := by simpa using hi
  have hj' : j < (pool.map f).length := by simpa using hj
  have hmarks : (pool.map f)[i] = (pool.map f)[j] := by simpa using h
  exact hnodup.getElem_inj_iff.mp hmarks

/-- Replacing one member changes a total by what that one contributes. -/
theorem sum_set (f : α → Int) (h : pool[i]? = some a) :
    ((pool.set i b).map f).sum = (pool.map f).sum - f a + f b := by
  induction pool generalizing i with
  | nil => simp at h
  | cons c pool ih =>
    cases i with
    | zero =>
      rw [List.getElem?_cons_zero] at h
      cases h
      simp only [List.set_cons_zero, List.map_cons, List.sum_cons]
      omega
    | succ i =>
      rw [List.getElem?_cons_succ] at h
      simp only [List.set_cons_succ, List.map_cons, List.sum_cons, ih h]
      omega

/-- A count is a total. -/
theorem sum_toNat (p : α → Bool) (pool : List α) :
    (pool.map fun a => ((p a).toNat : Int)).sum = pool.countP p := by
  induction pool with
  | nil => rfl
  | cons a pool ih =>
    rw [List.map_cons, List.sum_cons, ih, List.countP_cons]
    cases p a <;> simp [Int.add_comm]

/-- Replacing one member changes a count by that one. -/
theorem countP_set (p : α → Bool) (h : pool[i]? = some a) :
    (pool.set i b).countP p + (p a).toNat = pool.countP p + (p b).toNat := by
  obtain ⟨hi, rfl⟩ := List.getElem?_eq_some_iff.mp h
  have hcounted := List.boole_getElem_le_countP (p := p) hi
  rw [List.countP_set hi]
  cases hold : p pool[i] <;> cases p b
  all_goals
    rw [hold] at hcounted
    simp only [if_true, if_false, Bool.false_eq_true, Bool.toNat_true, Bool.toNat_false]
      at hcounted ⊢
    omega

/-- Replacing one member changes its own part of what the members come to. -/
theorem flatMap_set {β : Type v} (f : α → List β) (h : pool[i]? = some a) :
    ∃ before after, pool.flatMap f = before ++ f a ++ after ∧
      ∀ b, (pool.set i b).flatMap f = before ++ f b ++ after := by
  obtain ⟨hlt, rfl⟩ := List.getElem?_eq_some_iff.mp h
  refine ⟨(pool.take i).flatMap f, (pool.drop (i + 1)).flatMap f, ?_, fun b => ?_⟩
  · have hcut : pool = pool.take i ++ pool[i] :: pool.drop (i + 1) := by
      rw [← List.drop_eq_getElem_cons hlt, List.take_append_drop]
    conv_lhs => rw [hcut]
    rw [List.flatMap_append, List.flatMap_cons, List.append_assoc]
  · simp [List.set_eq_take_append_cons_drop, hlt]

/-- A member of a list of at most one has nothing before it and nothing after it. -/
theorem alone {before after : List α} (h : (before ++ a :: after).length ≤ 1) :
    before = [] ∧ after = [] := by
  rw [List.length_append, List.length_cons] at h
  exact ⟨List.length_eq_zero_iff.mp (by omega), List.length_eq_zero_iff.mp (by omega)⟩

/-- In a pool without repeated marks one member bears each mark. -/
theorem filter_mark {β : Type v} [DecidableEq β] {f : α → β} (hnodup : (pool.map f).Nodup)
    (h : a ∈ pool) : pool.filter (fun b => decide (f b = f a)) = [a] := by
  induction pool with
  | nil => cases h
  | cons b pool ih =>
    rw [List.map_cons, List.nodup_cons] at hnodup
    rcases List.mem_cons.mp h with rfl | h
    · have hrest : pool.filter (fun c => decide (f c = f a)) = [] := by
        refine List.filter_eq_nil_iff.mpr fun c hc hmark => ?_
        exact hnodup.1 (of_decide_eq_true hmark ▸ List.mem_map_of_mem hc)
      rw [List.filter_cons_of_pos (by simp), hrest]
    · have hne : f b ≠ f a := fun he => hnodup.1 (he ▸ List.mem_map_of_mem h)
      rw [List.filter_cons_of_neg (by simpa using hne), ih hnodup.2 h]

end Lib
