import Mathlib.Logic.Function.Basic

/-!
# Code that waits for the answers to its calls

A piece of code either has returned, or waits for one call to be answered, or has
met an operation its language gives no meaning to. What the calls do is left open:
a machine answers them later. Loops are part of the syntax, so that a service that
never returns is an ordinary value here, and every step of it consumes an answer.
-/

namespace Calls

set_option autoImplicit false

/-- Code making calls `C`, each answered by an `R`. -/
inductive Code (C R : Type) : Type → Type 1 where
  | ret {α : Type} (a : α) : Code C R α
  | call {α : Type} (c : C) (k : R → Code C R α) : Code C R α
  | loop {α β γ : Type} (b : β) (body : β → Code C R (β ⊕ γ)) (k : γ → Code C R α) : Code C R α
  | undefined {α : Type} : Code C R α

/-- What code is waiting for. -/
inductive Pending (C α : Type) where
  | returned (a : α)
  | calling (c : C)
  | undefined
  deriving DecidableEq

namespace Code

variable {C R α β γ δ : Type}

def bind {α δ : Type} : Code C R α → (α → Code C R δ) → Code C R δ
  | ret a, f => f a
  | call c k, f => call c fun r => (k r).bind f
  | loop b body k, f => loop b body fun g => (k g).bind f
  | undefined, _ => undefined

instance : Monad (Code C R) where
  pure := ret
  bind := bind

def ask (c : C) : Code C R R := call c ret

/-- `do { r = c(); } while (again(r));` -/
def doWhile (c : C) (again : R → Bool) : Code C R R :=
  loop () (fun _ => call c fun r => ret (if again r then .inl () else .inr r)) ret

/-- `while (true) { .. }`; the body goes on with `inl ()` and leaves the loop with `inr`. -/
def whileTrue (body : Code C R (Unit ⊕ γ)) : Code C R γ := loop () (fun _ => body) ret

/-- What follows a round of a loop. -/
def next (body : β → Code C R (β ⊕ γ)) (k : γ → Code C R α) : β ⊕ γ → Code C R α
  | .inl b => loop b body k
  | .inr g => k g

/-- A loop whose next round starts without a call runs forever in silence: undefined. -/
def pending : {α : Type} → Code C R α → Pending C α
  | _, ret a => .returned a
  | _, call c _ => .calling c
  | _, loop b body k =>
    match (body b).pending with
    | .returned (.inl _) => .undefined
    | .returned (.inr g) => (k g).pending
    | .calling c => .calling c
    | .undefined => .undefined
  | _, undefined => .undefined

/-- The code after the call it waits for is answered by `r`. -/
def resume : {α : Type} → Code C R α → R → Code C R α
  | _, ret a, _ => ret a
  | _, call _ k, r => k r
  | _, loop b body k, r =>
    match (body b).pending with
    | .returned (.inl _) => undefined
    | .returned (.inr g) => (k g).resume r
    | .calling _ => ((body b).resume r).bind (next body k)
    | .undefined => undefined
  | _, undefined, _ => undefined

@[simp] theorem bind_eq (m : Code C R α) (f : α → Code C R δ) : m >>= f = m.bind f := rfl

@[simp] theorem pure_eq (a : α) : (pure a : Code C R α) = ret a := rfl

theorem pending_bind (m : Code C R α) (f : α → Code C R δ) :
    (m.bind f).pending = match m.pending with
      | .returned a => (f a).pending
      | .calling c => .calling c
      | .undefined => .undefined := by
  induction m with
  | ret a => rfl
  | call c k _ => rfl
  | undefined => rfl
  | loop b body k _ ih =>
    simp only [bind, pending]
    cases (body b).pending with
    | returned x =>
      cases x with
      | inl _ => rfl
      | inr g => exact ih g f
    | calling c => rfl
    | undefined => rfl

theorem bind_assoc (m : Code C R α) (f : α → Code C R β) (g : β → Code C R δ) :
    (m.bind f).bind g = m.bind fun a => (f a).bind g := by
  induction m with
  | ret a => rfl
  | call c k ih => exact congrArg (call c) (funext fun r => ih r f)
  | undefined => rfl
  | loop b body k _ ih => exact congrArg (loop b body) (funext fun x => ih x f)

theorem resume_bind (m : Code C R α) (f : α → Code C R δ) (r : R) :
    (m.bind f).resume r = match m.pending with
      | .returned a => (f a).resume r
      | .calling _ => (m.resume r).bind f
      | .undefined => undefined := by
  induction m with
  | ret a => rfl
  | call c k _ => rfl
  | undefined => rfl
  | loop b body k _ ih =>
    simp only [bind, pending, resume]
    cases (body b).pending with
    | returned x =>
      cases x with
      | inl _ => rfl
      | inr g => exact ih g f
    | calling c =>
      simp only [bind_assoc]
      congr 1
      funext x
      cases x <;> rfl
    | undefined => rfl

theorem resume_loop {body : β → Code C R (β ⊕ γ)} {k : γ → Code C R α} {b : β} {c : C}
    (h : (body b).pending = .calling c) (r : R) :
    (loop b body k).resume r = ((body b).resume r).bind (next body k) := by
  simp only [resume, h]

end Code

end Calls
