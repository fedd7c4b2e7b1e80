import Mathlib.Data.List.DropRight

namespace Lib
namespace Text
universe u
variable {α : Type u} [DecidableEq α]

/-- What follows a leading text. -/
def strip (lead : List α) (text : List α) : Option (List α) :=
  if lead.isPrefixOf text then some (text.drop lead.length) else none

/-- The parts before and after the first occurrence of a separator. -/
def splitOnce (sep : List α) : List α → Option (List α × List α)
  | [] => if sep = [] then some ([], []) else none
  | c :: rest =>
    if sep.isPrefixOf (c :: rest) then some ([], (c :: rest).drop sep.length)
    else (splitOnce sep rest).map fun parts => (c :: parts.1, parts.2)

/-- A text without the leading and the trailing characters of a kind. -/
def trim (blank : α → Bool) (text : List α) : List α :=
  (text.dropWhile blank).rdropWhile blank

variable {lead text rest : List α} {c : α} {parts : List α × List α}

theorem strip_eq_some_iff : strip lead text = some rest ↔ text = lead ++ rest := by
  unfold strip
  split
  · rename_i hlead
    obtain ⟨tail, rfl⟩ := List.isPrefixOf_iff_prefix.mp hlead
    rw [List.drop_left, Option.some.injEq, List.append_cancel_left_eq]
  · rename_i hlead
    constructor
    · intro h
      cases h
    · rintro rfl
      exact absurd (List.isPrefixOf_iff_prefix.mpr (List.prefix_append ..)) hlead

/-- At a single character a text is cut where that comes first. -/
theorem splitOnce_eq_some_iff : splitOnce [c] text = some parts ↔
    text = parts.1 ++ c :: parts.2 ∧ c ∉ parts.1 := by
  induction text generalizing parts with
  | nil => simp [splitOnce]
  | cons d rest ih =>
    rw [splitOnce]
    by_cases hd : c = d
    · subst hd
      simp only [List.isPrefixOf_cons_cons, BEq.rfl, List.isPrefixOf_nil_left, Bool.and_self,
        if_true]
      constructor
      · intro h
        cases h
        exact ⟨rfl, List.not_mem_nil⟩
      · rintro ⟨htext, hout⟩
        obtain ⟨before, after⟩ := parts
        cases before with
        | nil =>
          cases htext
          rfl
        | cons e before =>
          cases htext
          exact absurd List.mem_cons_self hout
    · have hlead : [c].isPrefixOf (d :: rest) = false := by
        rw [List.isPrefixOf_cons_cons, beq_false_of_ne hd, Bool.false_and]
      rw [if_neg (by simp [hlead]), Option.map_eq_some_iff]
      constructor
      · rintro ⟨found, hfound, rfl⟩
        obtain ⟨hrest, hout⟩ := ih.mp hfound
        exact ⟨congrArg (d :: ·) hrest, by simp [hd, hout]⟩
      · rintro ⟨htext, hout⟩
        obtain ⟨before, after⟩ := parts
        cases before with
        | nil =>
          cases htext
          exact absurd rfl hd
        | cons e before =>
          cases htext
          exact ⟨(before, after), ih.mpr ⟨rfl, fun h => hout (List.mem_cons_of_mem _ h)⟩, rfl⟩

variable {blank : α → Bool}

omit [DecidableEq α] in
theorem trim_of_none (h : ∀ c ∈ text, blank c = false) : trim blank text = text := by
  have hlead : text.dropWhile blank = text := List.dropWhile_eq_self_iff.mpr fun hl => by
    rw [h _ (List.getElem_mem hl)]
    exact Bool.false_ne_true
  have htrail : text.rdropWhile blank = text := List.rdropWhile_eq_self_iff.mpr fun hl => by
    rw [h _ (List.getLast_mem hl)]
    exact Bool.false_ne_true
  rw [trim, hlead, htrail]

omit [DecidableEq α] in
theorem mem_of_mem_trim (h : c ∈ trim blank text) : c ∈ text :=
  (List.dropWhile_suffix blank).subset ((List.rdropWhile_prefix blank _).subset h)

omit [DecidableEq α] in
/-- Trimming once is enough. -/
theorem trim_trim (blank : α → Bool) (text : List α) :
    trim blank (trim blank text) = trim blank text := by
  have hlead : (trim blank text).dropWhile blank = trim blank text := by
    refine List.dropWhile_eq_self_iff.mpr fun hl hblank => ?_
    have hbegins : trim blank text <+: text.dropWhile blank := List.rdropWhile_prefix blank _
    have hlt : 0 < (text.dropWhile blank).length := Nat.lt_of_lt_of_le hl hbegins.length_le
    have hfirst : (text.dropWhile blank)[0] = (trim blank text)[0] := (hbegins.getElem hl).symm
    have hhead := List.dropWhile_get_zero_not blank text hlt
    rw [List.get_eq_getElem, hfirst] at hhead
    exact hhead hblank
  rw [trim, hlead]
  exact List.rdropWhile_idempotent blank _

end Text
end Lib
