import Mathlib.Algebra.GroupWithZero.Nat
import Mathlib.Algebra.Order.BigOperators.Group.List
import Mathlib.Algebra.Order.Ring.Rat

namespace Qml

/-- A JSON number as the serializer keeps it; negative zero is the one float that
is no rational of its own. -/
inductive JsonNumber
  | posInt (n : Nat)
  | negInt (n : Int) (negative : n < 0)
  | float (x : ℚ)
  | negZero
  deriving DecidableEq, Repr

/-- The arbitrary JSON value a job carries to its worker. -/
inductive JsonValue
  | null
  | bool (b : Bool)
  | number (n : JsonNumber)
  | string (s : String)
  | array (items : List JsonValue)
  | object (members : List (String × JsonValue))

instance : Inhabited JsonValue := ⟨.null⟩

namespace JsonValue

mutual

def beq : JsonValue → JsonValue → Bool
  | .null, .null => true
  | .bool a, .bool b => decide (a = b)
  | .number a, .number b => decide (a = b)
  | .string a, .string b => decide (a = b)
  | .array a, .array b => beqItems a b
  | .object a, .object b => beqMembers a b
  | _, _ => false

def beqItems : List JsonValue → List JsonValue → Bool
  | [], [] => true
  | a :: as, b :: bs => beq a b && beqItems as bs
  | _, _ => false

def beqMembers : List (String × JsonValue) → List (String × JsonValue) → Bool
  | [], [] => true
  | (k, a) :: as, (l, b) :: bs => decide (k = l) && beq a b && beqMembers as bs
  | _, _ => false

end

mutual

theorem beq_iff : ∀ a b : JsonValue, beq a b = true ↔ a = b
  | .null, b => by cases b <;> simp [beq]
  | .bool a, b => by cases b <;> simp [beq]
  | .number a, b => by cases b <;> simp [beq]
  | .string a, b => by cases b <;> simp [beq]
  | .array a, b => by cases b <;> simp [beq, beqItems_iff a]
  | .object a, b => by cases b <;> simp [beq, beqMembers_iff a]

theorem beqItems_iff : ∀ a b : List JsonValue, beqItems a b = true ↔ a = b
  | [], b => by cases b <;> simp [beqItems]
  | a :: as, b => by cases b <;> simp [beqItems, beq_iff a, beqItems_iff as]

theorem beqMembers_iff : ∀ a b : List (String × JsonValue), beqMembers a b = true ↔ a = b
  | [], b => by cases b <;> simp [beqMembers]
  | (k, a) :: as, b => by
    cases b with
    | nil => simp [beqMembers]
    | cons b bs => simp [beqMembers, beq_iff a, beqMembers_iff as, Prod.ext_iff]

end

instance : DecidableEq JsonValue := fun a b => decidable_of_iff _ (beq_iff a b)

end JsonValue

end Qml
