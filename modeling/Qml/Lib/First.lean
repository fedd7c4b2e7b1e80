import Mathlib.Data.List.Pairwise
import Mathlib.Data.List.Sort

namespace Lib
universe u
variable {α : Type u} (r : α → α → Prop) [DecidableRel r]

/-- The first element of a list in a given order; of elements that tie, the one
that stands first in the list. -/
def first (l : List α) : Option α := (l.insertionSort r).head?

variable {r} {l : List α} {a : α}

theorem mem_of_first (h : first r l = some a) : a ∈ l :=
  (List.mem_insertionSort r).mp (List.mem_of_mem_head? h)

/-- Nothing in the list is strictly before its first element. -/
theorem first_le [Std.Total r] [IsTrans α r] (h : first r l = some a) {b : α} (hb : b ∈ l) :
    r a b := by
  have hsorted := List.pairwise_insertionSort r l
  have hmem : b ∈ l.insertionSort r := (List.mem_insertionSort r).mpr hb
  unfold first at h
  cases hs : l.insertionSort r with
  | nil =>
    rw [hs] at h
    cases h
  | cons c rest =>
    rw [hs] at h hsorted hmem
    cases h
    rcases List.mem_cons.mp hmem with rfl | hrest
    · exact (Std.Total.total b b).elim id id
    · exact List.rel_of_pairwise_cons hsorted hrest

theorem first_eq_none : first r l = none ↔ l = [] := by
  rw [first, List.head?_eq_none_iff, ← List.length_eq_zero_iff, List.length_insertionSort,
    List.length_eq_zero_iff]

theorem first_isSome : (first r l).isSome = true ↔ ∃ a, a ∈ l := by
  rw [Option.isSome_iff_ne_none, ne_eq, first_eq_none]
  exact ⟨List.exists_mem_of_ne_nil l, fun ⟨_, ha⟩ => List.ne_nil_of_mem ha⟩

/-- Of the elements that nothing precedes, each comes first in some order of the list. -/
theorem first_cons (h : ∀ b ∈ l, r a b) : first r (a :: l) = some a := by
  rw [first, List.insertionSort_cons_of_forall_rel r h]
  rfl

omit [DecidableRel r] in
/-- Two members of a list are in order one way or the other. -/
theorem either_way (h : l.Pairwise r) {b : α} (ha : a ∈ l) (hb : b ∈ l) (hne : a ≠ b) :
    r a b ∨ r b a := by
  have : Std.Symm fun x y => r x y ∨ r y x := ⟨fun _ _ hxy => hxy.symm⟩
  exact List.Pairwise.forall (R := fun x y => r x y ∨ r y x) (h.imp fun hxy => .inl hxy) ha hb hne

end Lib
