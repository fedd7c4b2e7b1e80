import Mathlib.Data.List.Sort

namespace Lib

/-- A finite map kept as its entries in iteration order. No key occurs twice,
so a map that answers two ways cannot be built. -/
structure Dict (κ ν : Type) where
  entries : List (κ × ν)
  nodup : (entries.map Prod.fst).Nodup

namespace Dict
variable {κ ν : Type}

def empty : Dict κ ν := ⟨[], List.nodup_nil⟩

instance : Inhabited (Dict κ ν) := ⟨empty⟩

def values (d : Dict κ ν) : List ν := d.entries.map Prod.snd

def keys (d : Dict κ ν) : List κ := d.entries.map Prod.fst

def size (d : Dict κ ν) : Nat := d.entries.length

/-- How many entries pass a test. -/
def count (p : κ → ν → Bool) (d : Dict κ ν) : Nat :=
  (d.entries.filter fun e => p e.1 e.2).length

@[simp] theorem size_empty : (empty : Dict κ ν).size = 0 := rfl

/-- Drop the entries that fail a test. -/
def filter (p : κ → ν → Bool) (d : Dict κ ν) : Dict κ ν :=
  ⟨d.entries.filter (fun e => p e.1 e.2),
    d.nodup.sublist (List.filter_sublist.map Prod.fst)⟩

/-- Rewrite every value in place. -/
def mapValues (f : κ → ν → ν) (d : Dict κ ν) : Dict κ ν :=
  ⟨d.entries.map (fun e => (e.1, f e.1 e.2)), by
    simpa [List.map_map, Function.comp_def] using d.nodup⟩

variable [DecidableEq κ]

def get? (d : Dict κ ν) (k : κ) : Option ν := d.entries.lookup k

def contains (d : Dict κ ν) (k : κ) : Bool := (d.get? k).isSome

/-- Replace the value of a present key where it stands; append a new key. -/
def insert (d : Dict κ ν) (k : κ) (v : ν) : Dict κ ν :=
  if h : k ∈ d.keys then d.mapValues (fun k' old => if k' = k then v else old)
  else ⟨d.entries ++ [(k, v)], by
    have hd : ∀ a ∈ d.keys, a ≠ k := fun a ha hk => h (hk ▸ ha)
    simpa [List.nodup_append, keys] using ⟨d.nodup, by simpa [keys] using hd⟩⟩

def erase (d : Dict κ ν) (k : κ) : Dict κ ν := d.filter (fun k' _ => k' ≠ k)

/-- The same entries, iterated in the order in which `order` lists their keys.
It stands for the unspecified iteration order of a hash map. -/
def reorder (order : List κ) (d : Dict κ ν) : Dict κ ν :=
  ⟨d.entries.insertionSort (fun a b => order.idxOf a.1 ≤ order.idxOf b.1),
    (((List.perm_insertionSort _ d.entries).map Prod.fst).nodup_iff).mpr d.nodup⟩

theorem lookup_iff {es : List (κ × ν)} (hn : (es.map Prod.fst).Nodup) {k : κ} {v : ν} :
    es.lookup k = some v ↔ (k, v) ∈ es := by
  induction es with
  | nil => simp
  | cons e es ih =>
    obtain ⟨a, b⟩ := e
    simp only [List.map_cons, List.nodup_cons] at hn
    rw [List.lookup_cons]
    by_cases hk : k = a
    · subst hk
      have hout : ∀ w, (k, w) ∉ es := fun w hm => hn.1 (List.mem_map.mpr ⟨_, hm, rfl⟩)
      simp [hout, eq_comm]
    · simp [hk, beq_eq_false_iff_ne.mpr hk, ih hn.2]

theorem get?_iff {d : Dict κ ν} {k : κ} {v : ν} : d.get? k = some v ↔ (k, v) ∈ d.entries :=
  lookup_iff d.nodup

/-- Two maps with the same entries, in any order, answer alike. -/
theorem get?_congr {d d' : Dict κ ν} {k k' : κ}
    (h : ∀ v, (k, v) ∈ d.entries ↔ (k', v) ∈ d'.entries) : d.get? k = d'.get? k' := by
  apply Option.ext
  intro v
  rw [get?_iff, get?_iff, h]

theorem mem_values {d : Dict κ ν} {v : ν} : v ∈ d.values ↔ ∃ k, d.get? k = some v := by
  simp [values, get?_iff]

theorem mem_keys {d : Dict κ ν} {k : κ} : k ∈ d.keys ↔ ∃ v, d.get? k = some v := by
  simp [keys, get?_iff]

theorem contains_iff {d : Dict κ ν} {k : κ} : d.contains k = true ↔ ∃ v, d.get? k = some v := by
  simp [contains, Option.isSome_iff_exists]

theorem contains_iff_mem {d : Dict κ ν} {k : κ} : d.contains k = true ↔ k ∈ d.keys := by
  rw [contains_iff, mem_keys]

theorem contains_eq_false {d : Dict κ ν} {k : κ} : d.contains k = false ↔ d.get? k = none := by
  simp [contains]

@[simp] theorem get?_empty (k : κ) : (empty : Dict κ ν).get? k = none := rfl

@[simp] theorem contains_empty (k : κ) : (empty : Dict κ ν).contains k = false := rfl

theorem get?_mapValues (f : κ → ν → ν) (d : Dict κ ν) (k : κ) :
    (d.mapValues f).get? k = (d.get? k).map (f k) := by
  apply Option.ext
  intro v
  simp only [get?_iff, Option.map_eq_some_iff, mapValues, List.mem_map, Prod.mk.injEq]
  constructor
  · rintro ⟨⟨a, b⟩, hm, rfl, rfl⟩
    exact ⟨b, hm, rfl⟩
  · rintro ⟨b, hm, rfl⟩
    exact ⟨(k, b), hm, rfl, rfl⟩

theorem mapValues_same {f : κ → ν → ν} {d : Dict κ ν}
    (h : ∀ k v, d.get? k = some v → f k v = v) : d.mapValues f = d := by
  obtain ⟨entries, hnodup⟩ := d
  simp only [mapValues, mk.injEq]
  refine (List.map_congr_left fun e he => ?_).trans (List.map_id entries)
  rw [h e.1 e.2 (get?_iff.mpr he)]
  rfl

theorem get?_filter (p : κ → ν → Bool) (d : Dict κ ν) (k : κ) :
    (d.filter p).get? k = (d.get? k).filter (p k) := by
  apply Option.ext
  intro v
  simp [get?_iff, filter, Option.filter_eq_some_iff]

@[simp] theorem get?_insert (d : Dict κ ν) (k k' : κ) (v : ν) :
    (d.insert k v).get? k' = if k' = k then some v else d.get? k' := by
  unfold insert
  split
  · rename_i hk
    obtain ⟨old, ho⟩ := mem_keys.mp hk
    rw [get?_mapValues]
    by_cases he : k' = k
    · subst he
      simp [ho]
    · simp [he]
  · rename_i hk
    apply Option.ext
    intro w
    rw [get?_iff]
    by_cases he : k' = k
    · subst he
      have hout : (k', w) ∉ d.entries := fun hm => hk (mem_keys.mpr ⟨w, get?_iff.mpr hm⟩)
      simp [hout, eq_comm]
    · simp [he, get?_iff]

@[simp] theorem get?_erase (d : Dict κ ν) (k k' : κ) :
    (d.erase k).get? k' = if k' = k then none else d.get? k' := by
  rw [erase, get?_filter]
  by_cases he : k' = k <;> cases hg : d.get? k' <;> simp [he, Option.filter]

@[simp] theorem get?_reorder (order : List κ) (d : Dict κ ν) (k : κ) :
    (d.reorder order).get? k = d.get? k :=
  get?_congr fun _ => (List.perm_insertionSort _ d.entries).mem_iff

@[simp] theorem contains_insert (d : Dict κ ν) (k k' : κ) (v : ν) :
    (d.insert k v).contains k' = (decide (k' = k) || d.contains k') := by
  by_cases he : k' = k <;> simp [contains, he]

@[simp] theorem contains_erase (d : Dict κ ν) (k k' : κ) :
    (d.erase k).contains k' = (!decide (k' = k) && d.contains k') := by
  by_cases he : k' = k <;> simp [contains, he]

@[simp] theorem contains_reorder (order : List κ) (d : Dict κ ν) (k : κ) :
    (d.reorder order).contains k = d.contains k := by
  simp [contains]

theorem count_reorder (p : κ → ν → Bool) (order : List κ) (d : Dict κ ν) :
    (d.reorder order).count p = d.count p :=
  ((List.perm_insertionSort _ d.entries).filter _).length_eq

@[simp] theorem size_reorder (order : List κ) (d : Dict κ ν) : (d.reorder order).size = d.size :=
  (List.perm_insertionSort _ d.entries).length_eq

theorem size_insert (d : Dict κ ν) (k : κ) (v : ν) :
    (d.insert k v).size = if d.contains k then d.size else d.size + 1 := by
  unfold insert
  split <;> rename_i hk
  · simp [contains_iff_mem.mpr hk, size, mapValues]
  · have hc : d.contains k = false := by
      simpa using (not_congr contains_iff_mem).mpr hk
    simp [hc, size]

theorem length_filter_ne {es : List (κ × ν)} (hn : (es.map Prod.fst).Nodup) (k : κ) :
    (es.filter (fun e => e.1 ≠ k)).length + (if (es.lookup k).isSome then 1 else 0) =
      es.length := by
  induction es with
  | nil => simp
  | cons e es ih =>
    obtain ⟨a, b⟩ := e
    simp only [List.map_cons, List.nodup_cons] at hn
    have ht := ih hn.2
    by_cases ha : a = k
    · subst ha
      have hnone : es.lookup a = none := by
        apply Option.eq_none_iff_forall_not_mem.mpr
        intro w hw
        exact hn.1 (List.mem_map.mpr ⟨_, (lookup_iff hn.2).mp hw, rfl⟩)
      simp only [hnone, Option.isSome_none, Bool.false_eq_true, ↓reduceIte] at ht
      simpa using ht
    · have hb : (k == a) = false := beq_eq_false_iff_ne.mpr (Ne.symm ha)
      rw [List.filter_cons_of_pos (by simpa using ha)]
      simp only [List.length_cons, List.lookup_cons, hb]
      omega

theorem size_erase (d : Dict κ ν) (k : κ) :
    (d.erase k).size + (if d.contains k then 1 else 0) = d.size :=
  length_filter_ne d.nodup k

/-- The entries that another key has are those of the map before the insertion. -/
theorem erase_insert (d : Dict κ ν) (k : κ) (v : ν) :
    ((d.insert k v).erase k).entries = (d.erase k).entries := by
  unfold insert
  split
  · simp only [erase, filter, mapValues, List.filter_map]
    rw [List.map_congr_left (g := id), List.map_id]
    · rfl
    · intro e he
      have hne : e.1 ≠ k := by simpa using (List.mem_filter.mp he).2
      simp [hne]
  · simp [erase, filter, List.filter_append]

theorem count_erase (p : κ → ν → Bool) (d : Dict κ ν) (k : κ) :
    (d.erase k).count p + (if (d.get? k).any (p k) then 1 else 0) = d.count p := by
  have h := size_erase (d.filter p) k
  have hcontains : (d.filter p).contains k = (d.get? k).any (p k) := by
    rw [contains, get?_filter]
    cases d.get? k with
    | none => rfl
    | some v => by_cases hv : p k v = true <;> simp [Option.filter, hv]
  have hswap : ((d.filter p).erase k).size = (d.erase k).count p := by
    simp only [size, erase, filter, count, List.filter_filter, Bool.and_comm]
  rw [hcontains, hswap] at h
  exact h

theorem count_insert (p : κ → ν → Bool) (d : Dict κ ν) (k : κ) (v : ν) :
    (d.insert k v).count p + (if (d.get? k).any (p k) then 1 else 0) =
      d.count p + (if p k v then 1 else 0) := by
  have hold := count_erase p d k
  have hnew := count_erase p (d.insert k v) k
  have hsame : ((d.insert k v).erase k).count p = (d.erase k).count p := by
    rw [count, erase_insert]
    rfl
  simp only [get?_insert, if_true, Option.any_some] at hnew
  omega

/-- A map whose keys are all keys of another one is no larger. -/
theorem size_le {μ : Type} {d : Dict κ ν} {d' : Dict κ μ}
    (h : ∀ k, d.contains k = true → d'.contains k = true) : d.size ≤ d'.size := by
  have hsub : d.keys ⊆ d'.keys := fun k hk => contains_iff_mem.mp (h k (contains_iff_mem.mpr hk))
  simpa [keys, size] using d.nodup.length_le_of_subset hsub

/-- Two maps with the same keys are of one size. -/
theorem size_congr {μ : Type} {d : Dict κ ν} {d' : Dict κ μ}
    (h : ∀ k, d.contains k = d'.contains k) : d.size = d'.size := by
  have hperm : d.keys.Perm d'.keys := by
    refine (List.perm_ext_iff_of_nodup d.nodup d'.nodup).mpr fun k => ?_
    change k ∈ d.keys ↔ k ∈ d'.keys
    rw [← contains_iff_mem, ← contains_iff_mem, h]
  simpa [keys, size] using hperm.length_eq

end Dict
end Lib
