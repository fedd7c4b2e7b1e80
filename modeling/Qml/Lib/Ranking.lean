import Mathlib.Data.List.Nodup
import Mathlib.Data.List.Sort

namespace Lib
universe u v
variable {α : Type u} {κ : Type v} {r : α → α → Prop} {p : α → Prop} {l l' : List α} {a b : α}

/-- The elements with a property, each once, in a given order. Elements that tie may
stand either way round, so a property can have several rankings. -/
structure Ranks (r : α → α → Prop) (p : α → Prop) (l : List α) : Prop where
  nodup : l.Nodup
  mem : ∀ {a}, a ∈ l ↔ p a
  ordered : l.Pairwise r

/-- The first element of an ordered list that passes a test comes before all the others
that do. -/
theorem find?_rel {test : α → Bool} (h : l.Pairwise r) (hfind : l.find? test = some a)
    (hb : b ∈ l) (htest : test b = true) : b = a ∨ r a b := by
  obtain ⟨-, before, after, rfl, hbefore⟩ := List.find?_eq_some_iff_append.mp hfind
  rcases List.mem_append.mp hb with hb | hb
  · have := hbefore b hb
    simp [htest] at this
  · rcases List.mem_cons.mp hb with rfl | hb
    · exact .inl rfl
    · exact .inr (List.rel_of_pairwise_cons (List.pairwise_append.mp h).2.1 hb)

namespace Ranks

theorem nil (h : ∀ a, ¬ p a) : Ranks r p [] where
  nodup := List.nodup_nil
  mem := ⟨fun hmem => absurd hmem List.not_mem_nil, fun ha => absurd ha (h _)⟩
  ordered := List.Pairwise.nil

theorem insertionSort [DecidableRel r] [Std.Total r] [IsTrans α r] (hnodup : l.Nodup)
    (hmem : ∀ a, a ∈ l ↔ p a) : Ranks r p (l.insertionSort r) where
  nodup := ((List.perm_insertionSort r l).nodup_iff).mpr hnodup
  mem := (List.mem_insertionSort r).trans (hmem _)
  ordered := List.pairwise_insertionSort r l

theorem filter {test : α → Bool} (h : Ranks r p l) :
    Ranks r (fun a => p a ∧ test a = true) (l.filter test) where
  nodup := h.nodup.filter test
  mem {a} := by rw [List.mem_filter, h.mem]
  ordered := h.ordered.filter test

/-- An element that nothing precedes, before a ranking of the others. -/
theorem cons (ha : p a) (hle : ∀ b, p b → b ≠ a → r a b)
    (h : Ranks r (fun b => p b ∧ b ≠ a) l) : Ranks r p (a :: l) where
  nodup := List.nodup_cons.mpr ⟨fun hmem => (h.mem.mp hmem).2 rfl, h.nodup⟩
  mem {b} := by
    rw [List.mem_cons, h.mem]
    constructor
    · intro hb
      rcases hb with rfl | hb
      · exact ha
      · exact hb.1
    · intro hb
      by_cases hba : b = a
      · exact .inl hba
      · exact .inr ⟨hb, hba⟩
  ordered := List.pairwise_cons.mpr
    ⟨fun b hb => hle b (h.mem.mp hb).1 (h.mem.mp hb).2, h.ordered⟩

/-- A first part of one ranking, before any ranking of what is left. -/
theorem take_append {n : Nat} (h : Ranks r p l)
    (h' : Ranks r (fun b => p b ∧ b ∉ l.take n) l') : Ranks r p (l.take n ++ l') where
  nodup := by
    apply List.nodup_append'.mpr
    exact ⟨h.nodup.sublist (List.take_sublist n l), h'.nodup,
      fun b hb hb' => (h'.mem.mp hb').2 hb⟩
  mem {b} := by
    rw [List.mem_append, h'.mem]
    constructor
    · intro hb
      rcases hb with hb | hb
      · exact h.mem.mp (List.mem_of_mem_take hb)
      · exact hb.1
    · intro hb
      by_cases htake : b ∈ l.take n
      · exact .inl htake
      · exact .inr ⟨hb, htake⟩
  ordered := by
    have hcut := h.ordered
    rw [← List.take_append_drop n l, List.pairwise_append] at hcut
    apply List.pairwise_append.mpr
    refine ⟨hcut.1, h'.ordered, fun b hb c hc => hcut.2.2 b hb c ?_⟩
    obtain ⟨hpc, htake⟩ := h'.mem.mp hc
    have hc := h.mem.mpr hpc
    rw [← List.take_append_drop n l, List.mem_append] at hc
    exact hc.resolve_left htake

theorem perm (h : Ranks r p l) (h' : Ranks r p l') : l.Perm l' :=
  (List.perm_ext_iff_of_nodup h.nodup h'.nodup).mpr fun _ => h.mem.trans h'.mem.symm

/-- Two rankings differ at most in the order of elements with equal keys. -/
theorem map_eq {le : κ → κ → Prop} {key : α → κ} (hanti : ∀ x y, le x y → le y x → x = y)
    (hkey : ∀ a b, r a b → le (key a) (key b)) (h : Ranks r p l) (h' : Ranks r p l') :
    l.map key = l'.map key :=
  List.Perm.eq_of_pairwise (fun x y _ _ => hanti x y)
    (List.pairwise_map.mpr (h.ordered.imp (hkey _ _)))
    (List.pairwise_map.mpr (h'.ordered.imp (hkey _ _))) ((h.perm h').map key)

end Ranks
end Lib
