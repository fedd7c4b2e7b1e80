import Mathlib.Logic.Basic

namespace Lib
universe u

/-- A program as the tree of the calls it may still make: either it is done, or
it waits for the reply to one call. Between two calls any other program may run. -/
inductive Prog (Op : Type → Type u) (α : Type) : Type (max 1 u)
  | pure (a : α)
  | call {ρ : Type} (op : Op ρ) (k : ρ → Prog Op α)

namespace Prog
variable {Op : Type → Type u} {α β : Type}

def bind : Prog Op α → (α → Prog Op β) → Prog Op β
  | .pure a, f => f a
  | .call op k, f => .call op fun r => (k r).bind f

instance : Monad (Prog Op) where
  pure := Prog.pure
  bind := Prog.bind

/-- The program that makes one call and returns its reply. -/
def ask (op : Op α) : Prog Op α := .call op .pure

@[simp] theorem pure_bind (a : α) (f : α → Prog Op β) : (Prog.pure a) >>= f = f a := rfl

@[simp] theorem call_bind {ρ : Type} (op : Op ρ) (k : ρ → Prog Op α) (f : α → Prog Op β) :
    Prog.call op k >>= f = .call op fun r => k r >>= f := rfl

@[simp] theorem ask_bind (op : Op α) (f : α → Prog Op β) : ask op >>= f = .call op f := rfl

@[simp] theorem monad_pure (a : α) : (Pure.pure a : Prog Op α) = .pure a := rfl

end Prog

/-- What a program may ask in each state and how a reply may move the state.
A machine is the case where every call is allowed; a protocol that a program
must obey is the case where the next state is a function of the reply. -/
structure Contract (Op : Type → Type u) (σ : Type) where
  may : σ → {ρ : Type} → Op ρ → Prop
  step : σ → {ρ : Type} → Op ρ → ρ → σ → Prop

namespace Prog
variable {Op : Type → Type u} {α β σ : Type}

/-- Every call the program can make from here is allowed, whatever the replies,
and it can only return in a state that meets the postcondition. -/
def wp (C : Contract Op σ) (Q : α → σ → Prop) : Prog Op α → σ → Prop
  | .pure a, s => Q a s
  | .call op k, s => C.may s op ∧ ∀ r t, C.step s op r t → wp C Q (k r) t

variable {C : Contract Op σ}

@[simp] theorem wp_pure (Q : α → σ → Prop) (a : α) (s : σ) :
    wp C Q (.pure a) s ↔ Q a s := Iff.rfl

theorem wp_call {ρ : Type} (Q : α → σ → Prop) (op : Op ρ) (k : ρ → Prog Op α) (s : σ) :
    wp C Q (.call op k) s ↔ C.may s op ∧ ∀ r t, C.step s op r t → wp C Q (k r) t := Iff.rfl

theorem wp_ask (Q : α → σ → Prop) (op : Op α) (s : σ) :
    wp C Q (ask op) s ↔ C.may s op ∧ ∀ r t, C.step s op r t → Q r t := Iff.rfl

/-- Sequencing: the first program must leave the second one able to go on. -/
theorem wp_bind (Q : β → σ → Prop) (p : Prog Op α) (f : α → Prog Op β) (s : σ) :
    wp C Q (p >>= f) s ↔ wp C (fun a t => wp C Q (f a) t) p s := by
  induction p generalizing s with
  | pure a => rfl
  | call op k ih => simp only [call_bind, wp_call, ih]

theorem wp_mono {Q R : α → σ → Prop} (hqr : ∀ a s, Q a s → R a s) {p : Prog Op α} {s : σ}
    (h : wp C Q p s) : wp C R p s := by
  induction p generalizing s with
  | pure a => exact hqr a s h
  | call op k ih => exact ⟨h.1, fun r t hs => ih r (h.2 r t hs)⟩

/-- A contract that asks less of a program, and promises it as much. -/
theorem wp_weaken {τ : Type} {D : Contract Op τ} {Q : α → σ → Prop} {R : α → τ → Prop}
    (sim : σ → τ → Prop)
    (hmay : ∀ {s t} {ρ : Type} {op : Op ρ}, sim s t → C.may s op → D.may t op)
    (hstep : ∀ {s t} {ρ : Type} {op : Op ρ} {r : ρ} {t'}, sim s t → D.step t op r t' →
      ∃ s', C.step s op r s' ∧ sim s' t')
    (hqr : ∀ a s t, sim s t → Q a s → R a t) {p : Prog Op α} {s : σ} {t : τ} (hsim : sim s t)
    (h : wp C Q p s) : wp D R p t := by
  induction p generalizing s t with
  | pure a => exact hqr a s t hsim h
  | call op k ih =>
    refine ⟨hmay hsim h.1, fun r t' hd => ?_⟩
    obtain ⟨s', hc, hsim'⟩ := hstep hsim hd
    exact ih r hsim' (h.2 r s' hc)

/-- Every call that the program may make, whatever the replies, has a property. -/
def Every (P : {ρ : Type} → Op ρ → Prop) : Prog Op α → Prop
  | .pure _ => True
  | .call op k => P op ∧ ∀ r, (k r).Every P

namespace Every
variable {P P' : {ρ : Type} → Op ρ → Prop}

theorem bind {p : Prog Op α} {f : α → Prog Op β} (hp : p.Every P) (hf : ∀ a, (f a).Every P) :
    (p >>= f).Every P := by
  induction p with
  | pure a => exact hf a
  | call op k ih => exact ⟨hp.1, fun r => ih r (hp.2 r)⟩

theorem ite {c : Prop} [Decidable c] {p q : Prog Op α} (hp : p.Every P) (hq : q.Every P) :
    (if c then p else q).Every P := by
  split
  · exact hp
  · exact hq

theorem mono (hpp : ∀ {ρ : Type} (op : Op ρ), P op → P' op) {p : Prog Op α} (h : p.Every P) :
    p.Every P' := by
  induction p with
  | pure a => trivial
  | call op k ih => exact ⟨hpp op h.1, fun r => ih r (h.2 r)⟩

/-- Calls that a contract allows in every state. -/
theorem wp {Q : α → σ → Prop} {p : Prog Op α} (h : p.Every P)
    (hmay : ∀ s {ρ : Type} (op : Op ρ), P op → C.may s op) (hq : ∀ a s, Q a s) (s : σ) :
    p.wp C Q s := by
  induction p generalizing s with
  | pure a => exact hq a s
  | call op k ih => exact ⟨hmay s op h.1, fun r t _ => ih r (h.2 r) t⟩

/-- Calls that a contract allows in every state, and that leave the state alone. -/
theorem wp_same {Q : α → σ → Prop} {p : Prog Op α} (h : p.Every P)
    (hmay : ∀ s {ρ : Type} (op : Op ρ), P op → C.may s op)
    (hsame : ∀ s {ρ : Type} (op : Op ρ) (r : ρ) (t : σ), P op → C.step s op r t → t = s) (s : σ)
    (hq : ∀ a, Q a s) : p.wp C Q s := by
  induction p with
  | pure a => exact hq a
  | call op k ih =>
    refine ⟨hmay s op h.1, fun r t hs => ?_⟩
    rw [hsame s op r t h.1 hs]
    exact ih r (h.2 r)

end Every

/-- The program that makes, for each call, the calls of another kind that carry
it out. -/
def translate {Op' : Type → Type u} (carry : {ρ : Type} → Op ρ → Prog Op' ρ) :
    Prog Op α → Prog Op' α
  | .pure a => .pure a
  | .call op k => carry op >>= fun r => (k r).translate carry

/-- The calls that carry out a program keep to a contract when those that carry out each of
its calls do. -/
theorem wp_translate {Op' : Type → Type u} {τ : Type} {D : Contract Op' τ}
    {carry : {ρ : Type} → Op ρ → Prog Op' ρ} {Q : α → σ → Prop} {R : α → τ → Prop}
    (sim : σ → τ → Prop)
    (hcarry : ∀ {s t} {ρ : Type} {op : Op ρ}, sim s t → C.may s op →
      (carry op).wp D (fun r t' => ∃ s', C.step s op r s' ∧ sim s' t') t)
    (hqr : ∀ a s t, sim s t → Q a s → R a t) {p : Prog Op α} {s : σ} {t : τ} (hsim : sim s t)
    (h : wp C Q p s) : (p.translate carry).wp D R t := by
  induction p generalizing s t with
  | pure a => exact hqr a s t hsim h
  | call op k ih =>
    refine (wp_bind ..).mpr (wp_mono ?_ (hcarry hsim h.1))
    rintro r t' ⟨s', hstep, hsim'⟩
    exact ih r hsim' (h.2 r s' hstep)

/-- A complete run of a program that nothing interrupts; each call meets the
next of the given environments. `none` is a call that does not return. -/
def alone {ε : Type} (perform : ε → σ → {ρ : Type} → Op ρ → Option (ρ × σ)) :
    Prog Op α → (Nat → ε) → σ → Option (α × σ)
  | .pure a, _, s => some (a, s)
  | .call op k, envs, s =>
    match perform (envs 0) s op with
    | some (r, t) => alone perform (k r) (fun n => envs (n + 1)) t
    | none => none

section
variable {ε : Type} {perform : ε → σ → {ρ : Type} → Op ρ → Option (ρ × σ)} {good : ε → Prop}
  {Q : α → σ → Prop} {p : Prog Op α} {envs : Nat → ε} {s t : σ} {a : α}

/-- What a program is proved to establish holds after each of its runs in good environments. -/
theorem alone_sound_of (hstep : ∀ e, good e → ∀ (s : σ) {ρ : Type} (op : Op ρ) (r : ρ) (t : σ),
      perform e s op = some (r, t) → C.step s op r t) (hgood : ∀ n, good (envs n))
    (hw : wp C Q p s) (hr : p.alone perform envs s = some (a, t)) : Q a t := by
  induction p generalizing envs s with
  | pure b =>
    cases hr
    exact hw
  | call op k ih =>
    rw [alone] at hr
    split at hr
    · rename_i r t' hp
      exact ih r (fun n => hgood (n + 1)) (hw.2 r t' (hstep _ (hgood 0) _ _ _ _ hp)) hr
    · cases hr

theorem alone_sound (hstep : ∀ (e : ε) (s : σ) {ρ : Type} (op : Op ρ) (r : ρ) (t : σ),
      perform e s op = some (r, t) → C.step s op r t)
    (hw : wp C Q p s) (hr : p.alone perform envs s = some (a, t)) : Q a t :=
  alone_sound_of (fun e (_ : True) => hstep e) (fun _ => trivial) hw hr

/-- When every allowed call returns, so does a program that makes only allowed calls. -/
theorem alone_returns (hstep : ∀ e, good e → ∀ (s : σ) {ρ : Type} (op : Op ρ) (r : ρ) (t : σ),
      perform e s op = some (r, t) → C.step s op r t)
    (hmay : ∀ e, good e → ∀ (s : σ) {ρ : Type} (op : Op ρ), C.may s op →
      ∃ r t, perform e s op = some (r, t)) (hgood : ∀ n, good (envs n)) (hw : wp C Q p s) :
    ∃ a t, p.alone perform envs s = some (a, t) := by
  induction p generalizing envs s with
  | pure b => exact ⟨b, s, rfl⟩
  | call op k ih =>
    obtain ⟨r, t, hp⟩ := hmay _ (hgood 0) s op hw.1
    rw [alone, hp]
    exact ih r (fun n => hgood (n + 1)) (hw.2 r t (hstep _ (hgood 0) _ _ _ _ hp))

end

/-- What becomes of the result of a program does not matter to how it runs. -/
theorem alone_map {ε : Type} (perform : ε → σ → {ρ : Type} → Op ρ → Option (ρ × σ))
    (p : Prog Op α) (f : α → β) (envs : Nat → ε) (s : σ) :
    (p >>= fun a => Prog.pure (f a)).alone perform envs s =
      (p.alone perform envs s).map fun result => (f result.1, result.2) := by
  induction p generalizing envs s with
  | pure a => rfl
  | call op k ih =>
    simp only [call_bind, alone]
    cases perform (envs 0) s op with
    | none => rfl
    | some answer => exact ih answer.1 _ answer.2

/-- A run of a program that stops at one of the calls that may fail, after `n` others, with
that call carried out or not: the call, and the state it leaves. -/
def cut {ε : Type} (perform : ε → σ → {ρ : Type} → Op ρ → Option (ρ × σ))
    (fails : {ρ : Type} → Op ρ → Bool) (taken : Bool) :
    Nat → Prog Op α → (Nat → ε) → σ → Option (((ρ : Type) × Op ρ) × σ)
  | _, .pure _, _, _ => none
  | n, .call op k, envs, s =>
    match perform (envs 0) s op with
    | none => none
    | some (r, t) =>
      if fails op then
        match n with
        | 0 => some (⟨_, op⟩, if taken then t else s)
        | n + 1 => (k r).cut perform fails taken n (fun i => envs (i + 1)) t
      else (k r).cut perform fails taken n (fun i => envs (i + 1)) t

section
variable {ε : Type} {perform : ε → σ → {ρ : Type} → Op ρ → Option (ρ × σ)}
  {fails : {ρ : Type} → Op ρ → Bool} {taken : Bool} {n : Nat} {envs : Nat → ε} {s s' t : σ}
  {failed : (ρ : Type) × Op ρ} {ρ : Type} {op : Op ρ} {k : ρ → Prog Op α} {r : ρ}

/-- A call that may fail either did, or was carried out with the run stopping later. -/
theorem cut_call (hp : perform (envs 0) s op = some (r, t)) (hfails : fails op = true)
    (h : (call op k).cut perform fails taken n envs s = some (failed, s')) :
    failed = ⟨ρ, op⟩ ∧ s' = (if taken then t else s) ∨
      ∃ n envs, (k r).cut perform fails taken n envs t = some (failed, s') := by
  simp only [cut, hp, hfails, if_true] at h
  cases n with
  | zero =>
    cases h
    exact .inl ⟨rfl, rfl⟩
  | succ n => exact .inr ⟨n, _, h⟩

/-- What becomes of the result of a program does not matter to where it stops. -/
theorem cut_map (p : Prog Op α) (f : α → β) :
    (p >>= fun a => Prog.pure (f a)).cut perform fails taken n envs s =
      p.cut perform fails taken n envs s := by
  induction p generalizing n envs s with
  | pure a => rfl
  | call op k ih =>
    simp only [call_bind, cut]
    cases perform (envs 0) s op with
    | none => rfl
    | some answer =>
      cases n with
      | zero => simp only [ih]
      | succ n => simp only [ih]

/-- Other calls are always carried out. -/
theorem cut_other (hp : perform (envs 0) s op = some (r, t)) (hfails : fails op = false)
    (h : (call op k).cut perform fails taken n envs s = some (failed, s')) :
    ∃ n envs, (k r).cut perform fails taken n envs t = some (failed, s') := by
  simp only [cut, hp, hfails, Bool.false_eq_true, if_false] at h
  exact ⟨n, _, h⟩

end

end Prog
end Lib
