import Mathlib.Data.List.Lex
import Mathlib.Data.String.Basic
import Mathlib.Tactic.Positivity
import Mathlib.Tactic.Tauto

namespace Lib

/-- A number written with a fixed number of decimal digits. -/
def digits : Nat → Nat → List Char
  | 0, _ => []
  | width + 1, n => digits width (n / 10) ++ [(n % 10).digitChar]

variable {width more m n : Nat} {u v x y : List Char} {stop : Char}

@[simp] theorem length_digits : (digits width n).length = width := by
  induction width generalizing n with
  | zero => rfl
  | succ width ih => rw [digits, List.length_append, ih, List.length_singleton]

theorem digitChar_lt_iff :
    ∀ m < (10 : Nat), ∀ n < (10 : Nat), (m.digitChar < n.digitChar ↔ m < n) := by
  decide

theorem digitChar_inj :
    ∀ m < (10 : Nat), ∀ n < (10 : Nat), (m.digitChar = n.digitChar ↔ m = n) := by
  decide

/-- Texts that begin with as many digits are ordered by the numbers first. -/
theorem digits_append_lt_iff (hm : m < 10 ^ width) (hn : n < 10 ^ width) :
    digits width m ++ x < digits width n ++ y ↔ m < n ∨ m = n ∧ x < y := by
  induction width generalizing m n x y with
  | zero =>
    rw [pow_zero] at hm hn
    obtain rfl : m = 0 := by omega
    obtain rfl : n = 0 := by omega
    simp [digits]
  | succ width ih =>
    rw [pow_succ] at hm hn
    rw [digits, digits, List.append_assoc, List.append_assoc, ih (by omega) (by omega),
      List.singleton_append, List.singleton_append, List.cons_lt_cons_iff,
      digitChar_lt_iff _ (by omega) _ (by omega), digitChar_inj _ (by omega) _ (by omega)]
    by_cases hlt : x < y
    · simp only [hlt, and_true]
      omega
    · simp only [hlt, and_false, or_false]
      omega

theorem digits_cons_lt_iff {c : Char} (hm : m < 10 ^ width) (hn : n < 10 ^ width) :
    digits width m ++ c :: x < digits width n ++ c :: y ↔ m < n ∨ m = n ∧ x < y := by
  rw [digits_append_lt_iff hm hn, List.cons_lt_cons_iff]
  simp

theorem digits_add : digits (width + more) n =
    digits width (n / 10 ^ more) ++ digits more (n % 10 ^ more) := by
  induction more generalizing n with
  | zero => simp [digits]
  | succ more ih =>
    rw [← Nat.add_assoc, digits, ih, digits, ← List.append_assoc, Nat.div_div_eq_div_mul,
      ← pow_succ', pow_succ', Nat.mod_mul_right_div_self, Nat.mod_mod_of_dvd n ⟨10 ^ more, rfl⟩]

theorem le_nine_of_mem_digits {c : Char} (h : c ∈ digits width n) : c ≤ '9' := by
  have hdigit : ∀ d < (10 : Nat), d.digitChar ≤ '9' := by decide
  induction width generalizing n with
  | zero => cases h
  | succ width ih =>
    rcases List.mem_append.mp h with h | h
    · exact ih h
    · obtain rfl := List.mem_singleton.mp h
      exact hdigit _ (Nat.mod_lt _ (by decide))

/-- What begins with a digit comes before what begins with a character above all of them. -/
theorem digits_lt_stop (hstop : '9' < stop) (hmore : 0 < more) :
    digits more n ++ x < stop :: y := by
  cases hdigits : digits more n with
  | nil =>
    have hlength : (digits more n).length = more := length_digits
    rw [hdigits] at hlength
    simp at hlength
    omega
  | cons c cs =>
    have hc : c ∈ digits more n := hdigits ▸ List.mem_cons_self
    rw [List.cons_append, List.cons_lt_cons_iff]
    exact .inl ((le_nine_of_mem_digits hc).trans_lt hstop)

/-- A number cut off after fewer digits comes before the longer numbers above it. -/
theorem digits_stop_lt_iff (hstop : '9' < stop) (hm : m < 10 ^ width)
    (hn : n < 10 ^ (width + more)) :
    digits width m ++ [stop] < digits (width + more) n ++ [stop] ↔ m < n / 10 ^ more := by
  have hlead : n / 10 ^ more < 10 ^ width := by
    rw [Nat.div_lt_iff_lt_mul (by positivity), ← pow_add]
    exact hn
  rw [digits_add, List.append_assoc, digits_append_lt_iff hm hlead]
  refine or_iff_left fun h => ?_
  rcases Nat.eq_zero_or_pos more with rfl | hmore
  · exact lt_irrefl _ h.2
  · exact lt_asymm h.2 (digits_lt_stop hstop hmore)

/-- It comes after the longer numbers that agree with it in its digits. -/
theorem lt_digits_stop_iff (hstop : '9' < stop) (hm : m < 10 ^ width)
    (hn : n < 10 ^ (width + more)) :
    digits (width + more) n ++ [stop] < digits width m ++ [stop] ↔
      n / 10 ^ more < m ∨ n / 10 ^ more = m ∧ 0 < more := by
  have hlead : n / 10 ^ more < 10 ^ width := by
    rw [Nat.div_lt_iff_lt_mul (by positivity), ← pow_add]
    exact hn
  rw [digits_add, List.append_assoc, digits_append_lt_iff hlead hm]
  rcases Nat.eq_zero_or_pos more with rfl | hmore
  · simp [digits]
  · simp [digits_lt_stop hstop hmore, hmore]

/-- The digits of a number, padded with zeros. -/
theorem replicate_append_toDigits (hwidth : 0 < width) (hn : n < 10 ^ width) :
    List.replicate (width - (Nat.toDigits 10 n).length) '0' ++ Nat.toDigits 10 n =
      digits width n := by
  induction width generalizing n with
  | zero => cases hwidth
  | succ width ih =>
    by_cases hsmall : n < 10
    · have hzeros : ∀ k, digits k 0 = List.replicate k '0' := by
        intro k
        induction k with
        | zero => rfl
        | succ k ih =>
          rw [digits, ih, List.replicate_succ']
          rfl
      rw [Nat.toDigits_of_lt_base hsmall, digits, Nat.div_eq_of_lt hsmall, hzeros,
        Nat.mod_eq_of_lt hsmall]
      rfl
    · rw [pow_succ] at hn
      have hwidth' : 0 < width := by
        rcases Nat.eq_zero_or_pos width with rfl | h
        · omega
        · exact h
      rw [Nat.toDigits_of_base_le (by decide) (by omega), digits, ← ih hwidth' (by omega),
        List.length_append, List.length_singleton, Nat.add_sub_add_right, List.append_assoc]

end Lib
