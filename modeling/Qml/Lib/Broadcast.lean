import Mathlib.Data.List.Basic

namespace Lib
universe u

/-- A channel that keeps its last values, for receivers that each read at their own place. -/
structure Broadcast (α : Type u) where
  capacity : Nat
  tail : Nat
  slots : List α

/-- What a receiver gets. -/
inductive Received (α : Type u)
  | value (x : α)
  | lagged (missed : Nat)
  | empty

namespace Broadcast
variable {α : Type u} {c : Broadcast α} {sent : List α} {x : α}

def empty (capacity : Nat) : Broadcast α := ⟨capacity, 0, []⟩

/-- When all slots are taken, a new value takes the oldest one. -/
def send (c : Broadcast α) (x : α) : Broadcast α :=
  ⟨c.capacity, c.tail + 1, (c.slots ++ [x]).drop (c.slots.length + 1 - c.capacity)⟩

def recv (c : Broadcast α) (place : Nat) : Received α :=
  if c.slots.length < c.tail - place then .lagged (c.tail - place - c.slots.length)
  else
    match c.slots[c.slots.length - (c.tail - place)]? with
    | some x => .value x
    | none => .empty

/-- What the channel is after all of `sent`. -/
structure Holds (c : Broadcast α) (sent : List α) : Prop where
  tail : c.tail = sent.length
  slots : c.slots = sent.drop (sent.length - c.capacity)

theorem holds_empty (capacity : Nat) : (empty capacity : Broadcast α).Holds [] :=
  ⟨rfl, List.drop_nil.symm⟩

theorem Holds.length (h : c.Holds sent) : c.slots.length = min c.capacity sent.length := by
  rw [h.slots, List.length_drop]
  omega

theorem Holds.send (h : c.Holds sent) : (c.send x).Holds (sent ++ [x]) := by
  constructor
  · rw [List.length_append, List.length_singleton, ← h.tail]
    rfl
  · have hlength := h.length
    have hle : sent.length - c.capacity ≤ sent.length := Nat.sub_le ..
    change (c.slots ++ [x]).drop (c.slots.length + 1 - c.capacity) =
      (sent ++ [x]).drop ((sent ++ [x]).length - c.capacity)
    rw [hlength, h.slots, ← List.drop_append_of_le_length hle, List.drop_drop, List.length_append,
      List.length_singleton]
    congr 1
    omega

/-- A receiver gets the value at its place, unless it has fallen behind all slots. -/
theorem Holds.recv_cases (h : c.Holds sent) {place : Nat} (hplace : place ≤ sent.length) :
    match c.recv place with
    | .value x => sent[place]? = some x ∧ sent.length ≤ place + c.capacity
    | .lagged missed => place + c.capacity + missed = sent.length ∧ 0 < missed
    | .empty => place = sent.length := by
  have hlength := h.length
  rw [recv, h.tail]
  by_cases hbehind : c.slots.length < sent.length - place
  · rw [if_pos hbehind]
    constructor <;> omega
  · have hat : sent.length - c.capacity + (c.slots.length - (sent.length - place)) = place := by
      omega
    have hslot : c.slots[c.slots.length - (sent.length - place)]? = sent[place]? := by
      rw [congrArg (·[c.slots.length - (sent.length - place)]?) h.slots, List.getElem?_drop, hat]
    rw [if_neg hbehind, hslot]
    cases hget : sent[place]? with
    | none => exact Nat.le_antisymm hplace (List.getElem?_eq_none_iff.mp hget)
    | some x =>
      obtain ⟨hlt, -⟩ := List.getElem?_eq_some_iff.mp hget
      exact ⟨rfl, by omega⟩

end Broadcast
end Lib
