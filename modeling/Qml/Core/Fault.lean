import Qml.Core.Error

namespace Qml
universe u

/-- A statement that fails, before it has taken effect or after. -/
structure Fault where
  error : StorageError
  executed : Bool

namespace Fault
variable {σ : Type u} {α : Type} {fault : Option Fault} {s : σ}
  {effect result : Except StorageError α × σ}

/-- What comes of a statement with the fault it meets: the reply, and what is left of the
state it was made in. -/
def outcome (fault : Option Fault) (s : σ) (effect : Except StorageError α × σ) :
    Except StorageError α × σ :=
  match fault with
  | none => effect
  | some ⟨error, executed⟩ => (.error error, if executed then effect.2 else s)

/-- What a statement leaves: the state as it was, or with the statement's effect. -/
theorem outcome_cases (h : outcome fault s effect = result) : (fault = none ∧ result = effect) ∨
    ∃ error, result.1 = .error error ∧ (result.2 = effect.2 ∨ result.2 = s) := by
  subst h
  unfold outcome
  cases fault with
  | none => exact .inl ⟨rfl, rfl⟩
  | some fault =>
    obtain ⟨error, executed⟩ := fault
    refine .inr ⟨error, rfl, ?_⟩
    cases executed with
    | true => exact .inl rfl
    | false => exact .inr rfl

theorem left_cases {reply : Except StorageError α} {left : σ}
    (h : outcome fault s effect = (reply, left)) : left = effect.2 ∨ left = s := by
  rcases outcome_cases h with ⟨-, heq⟩ | ⟨_, -, hleft⟩
  · exact .inl (congrArg Prod.snd heq)
  · exact hleft

end Fault
end Qml
