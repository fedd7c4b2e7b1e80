import Mathlib.Data.List.Basic

namespace Lib
universe u
variable {α : Type u} {l : List α}

/-- A part of a list: what follows its first `offset` elements, and at most `limit` of that. -/
def part (l : List α) (limit : Option Nat) (offset : Nat) : List α :=
  match limit with
  | some limit => (l.drop offset).take limit
  | none => l.drop offset

/-- `l[start..stop]`, when the bounds are in order and in range. -/
def slice (l : List α) (start stop : Nat) : Option (List α) :=
  if start ≤ stop ∧ stop ≤ l.length then some ((l.drop start).take (stop - start)) else none

theorem part_eq_nil {limit : Option Nat} {offset : Nat} (h : l.length ≤ offset) :
    part l limit offset = [] := by
  cases limit with
  | none => exact List.drop_eq_nil_of_le h
  | some limit => rw [part, List.drop_eq_nil_of_le h, List.take_nil]

@[simp] theorem part_zero (l : List α) (limit : Nat) : part l (some limit) 0 = l.take limit := rfl

theorem map_part {β : Type u} (f : α → β) (l : List α) (limit : Option Nat) (offset : Nat) :
    (part l limit offset).map f = part (l.map f) limit offset := by
  cases limit with
  | none => exact List.map_drop
  | some limit => rw [part, part, List.map_take, List.map_drop]

/-- Taking the bounds of a slice from an offset and a limit gives the part. -/
theorem slice_part {start stop : Nat} {limit : Option Nat} (hstart : start ≤ l.length)
    (hstop : stop = match limit with
      | some limit => min (start + limit) l.length
      | none => l.length) :
    slice l start stop = some (part l limit start) := by
  cases limit with
  | none =>
    simp only at hstop
    subst hstop
    rw [slice, if_pos ⟨hstart, Nat.le_refl _⟩, part]
    exact congrArg some (List.take_of_length_le (Nat.le_of_eq List.length_drop))
  | some limit =>
    simp only at hstop
    have hbounds : start ≤ stop ∧ stop ≤ l.length := by omega
    rw [slice, if_pos hbounds, part]
    have hrest := List.length_drop (i := start) (l := l)
    congr 1
    rw [List.take_eq_take_iff, hrest]
    omega

/-- The first `m` pages of one size. -/
def pages (l : List α) (size m : Nat) : List (List α) :=
  (List.range m).map fun k => part l (some size) (k * size)

@[simp] theorem length_pages (l : List α) (size m : Nat) : (pages l size m).length = m := by
  rw [pages, List.length_map, List.length_range]

theorem getElem?_pages {size m k : Nat} (h : k < m) :
    (pages l size m)[k]? = some (part l (some size) (k * size)) := by
  rw [pages, List.getElem?_map, List.getElem?_range h, Option.map_some]

/-- Pages put one after the other give the list back up to the end of the last one. -/
theorem flatten_pages (l : List α) (size m : Nat) :
    (pages l size m).flatten = l.take (m * size) := by
  induction m with
  | zero => rw [Nat.zero_mul, List.take_zero]; rfl
  | succ m ih =>
    have hlast : pages l size (m + 1) = pages l size m ++ [part l (some size) (m * size)] := by
      rw [pages, List.range_succ, List.map_append]
      rfl
    rw [hlast, List.flatten_append, ih, Nat.succ_mul, List.take_add, List.flatten_singleton, part]

/-- A window at the front of a list is enough for a limit on the elements that pass a test: it
holds no more of them, and if it holds fewer, none is left behind it. -/
structure WindowServes (l : List α) (test : α → Bool) (window limit : Nat) : Prop where
  few : (l.take window).countP test ≤ limit
  full : (l.take window).countP test < limit → ∀ a ∈ l.drop window, test a = false

section Window
variable {test : α → Bool} {window limit : Nat}

theorem countP_window (l : List α) (test : α → Bool) (window : Nat) :
    l.countP test = (l.take window).countP test + (l.drop window).countP test := by
  rw [← List.countP_append, List.take_append_drop]

theorem windowServes_iff : WindowServes l test window limit ↔
    (l.take window).countP test = min limit (l.countP test) := by
  have hsum := countP_window l test window
  have hrest : (∀ a ∈ l.drop window, test a = false) ↔ (l.drop window).countP test = 0 := by
    simp only [List.countP_eq_zero, Bool.not_eq_true]
  constructor
  · intro h
    have hfull := h.full
    rw [hrest] at hfull
    have hfew := h.few
    omega
  · intro h
    refine ⟨by omega, fun hlt => ?_⟩
    rw [hrest]
    omega

/-- The elements of a window that pass come first among all that pass. -/
theorem filter_window (l : List α) (test : α → Bool) (window : Nat) :
    (l.take window).filter test = (l.filter test).take ((l.take window).countP test) := by
  have hsplit : l.filter test = (l.take window).filter test ++ (l.drop window).filter test := by
    rw [← List.filter_append, List.take_append_drop]
  rw [hsplit, List.countP_eq_length_filter, List.take_left]

/-- Filtering the window is then the same as limiting what passes. -/
theorem WindowServes.filter_take (h : WindowServes l test window limit) :
    (l.take window).filter test = (l.filter test).take limit := by
  rw [filter_window, windowServes_iff.mp h, List.countP_eq_length_filter]
  exact List.take_eq_take_min.symm

end Window
end Lib
