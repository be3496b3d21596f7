import SGXessControll.Calls.Simulation

/-!
# Calls that take time

A slow call is entered and left, and between the two the other threads move on. What code
calls in its phases tells which calls can meet.
-/

namespace Calls

set_option autoImplicit false

variable {W ι C R E α β : Type}

inductive Spanned (C : Type) where
  | enter (c : C)
  | leave (c : C)
  | other (c : C)
  deriving DecidableEq

/-- What a call takes effect by is where it is left. -/
def Machine.spanned (M : Machine W ι C R E) : Machine W ι (Spanned C) R E where
  respond w i c r :=
    match c with
    | .enter _ => some w
    | .leave c | .other c => M.respond w i c r
  move := M.move

/-- Two threads are within calls that clash. -/
def Overlap (clash : C → C → Prop) (t : Config W ι (Spanned C) R α) : Prop :=
  ∃ i j c c', i ≠ j ∧ (t.code i).pending = .calling (.leave c) ∧
    (t.code j).pending = .calling (.leave c') ∧ clash c c'

namespace Code

def span (slow : C → Bool) (c : C) : Code (Spanned C) R R :=
  if slow c = true then (ask (.enter c)).bind fun _ => ask (.leave c) else ask (.other c)

variable {slow : C → Bool} {p q : C → Prop} {u : Prop} {c : C} {m : Code C R α}

/-- The parts of the calls `p`. -/
def PartOf (slow : C → Bool) (p : C → Prop) : Spanned C → Prop
  | .enter c | .leave c => slow c = true ∧ p c
  | .other c => slow c = false ∧ p c

theorem pending_span (c : C) : (span slow c : Code (Spanned C) R R).pending =
    .calling (if slow c = true then .enter c else .other c) := by
  unfold span
  split <;> rfl

theorem only_span (h : p c) : (span slow c : Code (Spanned C) R R).Only (PartOf slow p) u := by
  unfold span
  cases hc : slow c with
  | true => exact (only_ask ⟨hc, h⟩).bind fun _ => only_ask ⟨hc, h⟩
  | false => exact only_ask ⟨hc, h⟩

theorem Only.span (h : m.Only p u) : (m.expand (span slow)).Only (PartOf slow p) u :=
  h.expand pending_span fun _ => only_span

theorem later_returned {n : Code C R α} {a : α} (hm : m.pending = .returned a) (h : m.Later n) :
    n = m := by
  induction h with
  | refl => rfl
  | resume r _ hp ih =>
    rw [ih, hm] at hp
    cases hp

/-- Code of two phases does not come back to the first once it has made a call of its own in
the second. -/
theorem Later.phase {f : α → Code C R β} {n n' : Code C R β} {c' : C} (hm : m.Makes p)
    (hf : ∀ a, (f a).Makes q) (h : (m.bind f).Later n) (hn : n.pending = .calling c) (hc : ¬ p c)
    (h' : n.Later n') (hn' : n'.pending = .calling c') : q c' := by
  rcases later_bind h with ⟨m', hm', rfl⟩ | ⟨a, ha⟩
  · rw [pending_bind] at hn
    cases hp : m'.pending with
    | returned a =>
      rcases later_bind h' with ⟨m'', hm'', rfl⟩ | ⟨a', ha'⟩
      · obtain rfl := later_returned hp hm''
        rw [pending_bind, hp] at hn'
        exact hf a _ .refl c' hn'
      · exact hf a' n' ha' c' hn'
    | calling d =>
      rw [hp] at hn
      cases hn
      exact absurd (hm m' hm' c hp) hc
    | undefined =>
      rw [hp] at hn
      cases hn
  · exact hf a n' (ha.trans h') c' hn'

end Code

end Calls
