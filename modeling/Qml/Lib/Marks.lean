import Qml.Lib.Prog

namespace Lib
universe u
variable {M : Type} {Op Op' : Type → Type u} {α β : Type}

namespace Prog

theorem bind_pure (p : Prog Op α) : (p >>= fun a => Prog.pure a) = p := by
  induction p with
  | pure a => rfl
  | call op k ih => exact congrArg (Prog.call op) (funext ih)

theorem bind_assoc {γ : Type} (p : Prog Op α) (f : α → Prog Op β) (g : β → Prog Op γ) :
    (p >>= f) >>= g = p >>= fun a => f a >>= g := by
  induction p with
  | pure a => rfl
  | call op k ih => exact congrArg (Prog.call op) (funext ih)

theorem translate_bind {carry : {ρ : Type} → Op ρ → Prog Op' ρ} (p : Prog Op α)
    (f : α → Prog Op β) :
    (p >>= f).translate carry = p.translate carry >>= fun a => (f a).translate carry := by
  induction p with
  | pure a => rfl
  | call op k ih =>
    rw [call_bind, translate, translate, bind_assoc]
    exact congrArg (carry op >>= ·) (funext ih)

end Prog

/-- A mark in a program, which does nothing but show that the program came there. -/
inductive MarkOp (M : Type) : Type → Type u
  | mark (m : M) : MarkOp M Unit

/-- The calls of a program that leaves marks. -/
abbrev Marked (M : Type) (Op : Type → Type u) (ρ : Type) : Type u := MarkOp M ρ ⊕ Op ρ

namespace Prog

def mark (m : M) : Prog (Marked M Op) Unit := ask (.inl (.mark m))

/-- Forget the marks. -/
def erase (p : Prog (Marked M Op) α) : Prog Op α :=
  p.translate fun op => match op with
    | .inl (.mark _) => .pure ()
    | .inr op => ask op

/-- A program among those that leave marks, without any. -/
def unmarked (p : Prog Op α) : Prog (Marked M Op) α := p.translate fun op => ask (.inr op)

/-- A complete run, whatever the replies to the calls: its marks in order and its result. -/
def Runs : Prog (Marked M Op) α → List M → α → Prop
  | .pure a, marks, b => marks = [] ∧ b = a
  | .call (.inl (.mark m)) k, marks, b => ∃ rest, marks = m :: rest ∧ (k ()).Runs rest b
  | .call (.inr _) k, marks, b => ∃ r, (k r).Runs marks b

/-- A result that some replies to the calls lead to. -/
def Returns : Prog Op α → α → Prop
  | .pure a, b => b = a
  | .call _ k, b => ∃ r, (k r).Returns b

variable {marks : List M} {m : M} {a : α} {b : β}

theorem runs_mark {k : Unit → Prog (Marked M Op) α} : (mark m >>= k).Runs marks a ↔
    ∃ rest, marks = m :: rest ∧ (k ()).Runs rest a := Iff.rfl

theorem runs_bind (p : Prog (Marked M Op) α) (f : α → Prog (Marked M Op) β) :
    (p >>= f).Runs marks b ↔ ∃ before a after, marks = before ++ after ∧ p.Runs before a ∧
      (f a).Runs after b := by
  induction p generalizing marks with
  | pure a =>
    constructor
    · exact fun h => ⟨[], a, marks, rfl, ⟨rfl, rfl⟩, h⟩
    · rintro ⟨before, a', after, rfl, ⟨rfl, rfl⟩, h⟩
      exact h
  | call op k ih =>
    rw [call_bind]
    cases op with
    | inl op =>
      cases op with
      | mark m =>
        simp only [Runs, ih]
        constructor
        · rintro ⟨rest, rfl, before, a, after, rfl, hp, hf⟩
          exact ⟨m :: before, a, after, rfl, ⟨before, rfl, hp⟩, hf⟩
        · rintro ⟨before, a, after, rfl, ⟨rest, rfl, hp⟩, hf⟩
          exact ⟨rest ++ after, rfl, rest, a, after, rfl, hp, hf⟩
    | inr op =>
      simp only [Runs, ih]
      constructor
      · rintro ⟨r, before, a, after, rfl, hp, hf⟩
        exact ⟨before, a, after, rfl, ⟨r, hp⟩, hf⟩
      · rintro ⟨before, a, after, rfl, ⟨r, hp⟩, hf⟩
        exact ⟨r, before, a, after, rfl, hp, hf⟩

theorem runs_unmarked (p : Prog Op α) :
    (p.unmarked : Prog (Marked M Op) α).Runs marks a ↔ marks = [] ∧ p.Returns a := by
  induction p generalizing marks with
  | pure b => exact Iff.rfl
  | call op k ih =>
    have hcall : ((Prog.call op k).unmarked : Prog (Marked M Op) α).Runs marks a ↔
        ∃ r, ((k r).unmarked : Prog (Marked M Op) α).Runs marks a := Iff.rfl
    simp only [hcall, ih, Returns]
    exact exists_and_left

@[simp] theorem erase_pure (a : α) : (Prog.pure a : Prog (Marked M Op) α).erase = .pure a := rfl

theorem erase_bind (p : Prog (Marked M Op) α) (f : α → Prog (Marked M Op) β) :
    (p >>= f).erase = p.erase >>= fun a => (f a).erase := translate_bind p f

@[simp] theorem erase_mark (m : M) : (mark m : Prog (Marked M Op) Unit).erase = .pure () := rfl

@[simp] theorem erase_unmarked (p : Prog Op α) : (p.unmarked : Prog (Marked M Op) α).erase = p := by
  induction p with
  | pure a => rfl
  | call op k ih => exact congrArg (Prog.call op) (funext ih)

end Prog
end Lib
