import Mathlib.Algebra.GroupWithZero.Nat
import Mathlib.Algebra.Order.Ring.Rat
import Mathlib.Data.List.Induction
import Qml.Lib.Dict

namespace Lib
namespace Dict
variable {α κ ν : Type} [DecidableEq κ]

theorem sum_filter_ne {es : List (κ × ν)} (hn : (es.map Prod.fst).Nodup) (g : κ × ν → Nat)
    (k : κ) : ((es.filter fun e => e.1 ≠ k).map g).sum + (es.lookup k).elim 0 (fun v => g (k, v)) =
      (es.map g).sum := by
  induction es with
  | nil => rfl
  | cons e es ih =>
    obtain ⟨a, b⟩ := e
    rw [List.map_cons, List.nodup_cons] at hn
    have hrest := ih hn.2
    rw [List.map_cons, List.sum_cons]
    by_cases ha : a = k
    · subst ha
      have hnone : es.lookup a = none := by
        apply Option.eq_none_iff_forall_not_mem.mpr
        intro v hv
        exact hn.1 (List.mem_map.mpr ⟨(a, v), (lookup_iff hn.2).mp hv, rfl⟩)
      rw [hnone, Option.elim_none] at hrest
      rw [List.filter_cons_of_neg (by simp), List.lookup_cons_self, Option.elim_some]
      omega
    · have hother : ((a, b) :: es).lookup k = es.lookup k := by
        rw [List.lookup_cons, beq_eq_false_iff_ne.mpr (Ne.symm ha)]
      rw [List.filter_cons_of_pos (by simpa using ha), hother, List.map_cons, List.sum_cons]
      omega

theorem sum_erase (d : Dict κ ν) (g : κ × ν → Nat) (k : κ) :
    ((d.erase k).entries.map g).sum + (d.get? k).elim 0 (fun v => g (k, v)) =
      (d.entries.map g).sum :=
  sum_filter_ne d.nodup g k

theorem sum_insert (d : Dict κ ν) (g : κ × ν → Nat) (k : κ) (v : ν) :
    ((d.insert k v).entries.map g).sum + (d.get? k).elim 0 (fun old => g (k, old)) =
      (d.entries.map g).sum + g (k, v) := by
  have hold := sum_erase d g k
  have hnew := sum_erase (d.insert k v) g k
  rw [erase_insert, get?_insert, if_pos rfl, Option.elim_some] at hnew
  omega

/-- Change the value of a key, from the given one if the key has none. -/
def upsert (d : Dict κ ν) (k : κ) (initial : ν) (f : ν → ν) : Dict κ ν :=
  d.insert k (f ((d.get? k).getD initial))

/-- A list folded into one value for each key that occurs in it. -/
def group (key : α → κ) (zero : κ → ν) (add : ν → α → ν) (xs : List α) : Dict κ ν :=
  xs.foldl (fun d x => d.upsert (key x) (zero (key x)) fun v => add v x) .empty

variable {key : α → κ} {zero : κ → ν} {add : ν → α → ν}

theorem group_concat (xs : List α) (x : α) : group key zero add (xs ++ [x]) =
    (group key zero add xs).upsert (key x) (zero (key x)) fun v => add v x :=
  List.foldl_append

/-- The value of a key is the fold of the items that have it. -/
theorem getD_group (xs : List α) (k : κ) : ((group key zero add xs).get? k).getD (zero k) =
    (xs.filter fun x => key x = k).foldl add (zero k) := by
  induction xs using List.reverseRecOn with
  | nil => rfl
  | append_singleton xs x ih =>
    rw [group_concat, upsert, get?_insert, List.filter_append, List.foldl_append]
    by_cases hk : key x = k
    · subst hk
      rw [if_pos rfl, Option.getD_some, ih]
      simp
    · rw [if_neg (Ne.symm hk), ih]
      simp [hk]

/-- A measure that grows by one for some items counts these, summed over the keys. -/
theorem sum_group {g : κ → ν → Nat} {p : α → Bool} (hzero : ∀ k, g k (zero k) = 0)
    (hadd : ∀ v x, g (key x) (add v x) = g (key x) v + if p x then 1 else 0) (xs : List α) :
    ((group key zero add xs).entries.map fun e => g e.1 e.2).sum = xs.countP p := by
  induction xs using List.reverseRecOn with
  | nil => rfl
  | append_singleton xs x ih =>
    have hsum := sum_insert (group key zero add xs) (fun e => g e.1 e.2) (key x)
      (add (((group key zero add xs).get? (key x)).getD (zero (key x))) x)
    have hold : ((group key zero add xs).get? (key x)).elim 0 (g (key x)) =
        g (key x) (((group key zero add xs).get? (key x)).getD (zero (key x))) := by
      cases (group key zero add xs).get? (key x) with
      | none => exact (hzero (key x)).symm
      | some v => rfl
    rw [hadd, hold, ih] at hsum
    rw [group_concat, upsert, List.countP_append, List.countP_singleton]
    omega

end Dict
end Lib
