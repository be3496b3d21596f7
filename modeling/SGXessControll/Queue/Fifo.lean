import Mathlib.Data.List.Basic

/-!
# First-in first-out queues with their history

A queue together with everything ever put into it and taken out of it. That the two
histories and the waiting elements fit is part of the value, so it holds by construction
after any operations.
-/

namespace Queue

set_option autoImplicit false

universe u
variable {α : Type u}

@[ext] structure Fifo (α : Type u) where
  waiting : List α
  inserted : List α
  removed : List α
  conserved : inserted = removed ++ waiting

namespace Fifo

def empty : Fifo α := ⟨[], [], [], rfl⟩

def push (q : Fifo α) (x : α) : Fifo α where
  waiting := q.waiting ++ [x]
  inserted := q.inserted ++ [x]
  removed := q.removed
  conserved := by rw [q.conserved, List.append_assoc]

/-- Taking from an empty queue leaves it as it is. -/
def pop (q : Fifo α) : Fifo α :=
  match h : q.waiting with
  | [] => q
  | x :: rest => ⟨rest, q.inserted, q.removed ++ [x], by rw [q.conserved, h]; simp⟩

variable {q : Fifo α} {x : α} {rest : List α}

@[simp] theorem push_inserted : (q.push x).inserted = q.inserted ++ [x] := rfl

@[simp] theorem push_removed : (q.push x).removed = q.removed := rfl

theorem pop_of_nil (h : q.waiting = []) : q.pop = q := by
  unfold pop
  split
  · rfl
  · simp_all

theorem pop_waiting (q : Fifo α) : q.pop.waiting = q.waiting.tail := by
  unfold pop
  split <;> simp_all

@[simp] theorem pop_inserted (q : Fifo α) : q.pop.inserted = q.inserted := by
  unfold pop
  split <;> rfl

theorem pop_removed (q : Fifo α) : q.pop.removed = q.removed ++ q.waiting.head?.toList := by
  unfold pop
  split <;> simp_all

theorem removed_prefix (q : Fifo α) : q.removed <+: q.inserted :=
  ⟨q.waiting, q.conserved.symm⟩

end Fifo

end Queue
