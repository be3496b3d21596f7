import Mathlib.Data.List.TakeWhile

/-!
# Terminated text in an array

A reader that is given only the start of an array takes the cells up to the first
terminator. Without a terminator it runs past the end, which is `none` here.
-/

namespace Bytes

set_option autoImplicit false

variable {α : Type} [DecidableEq α]

/-- The cells in front of the first `z`. -/
def untilFirst (z : α) : List α → Option (List α)
  | [] => none
  | x :: xs => if x = z then some [] else (untilFirst z xs).map (x :: ·)

/-- `xs` written to the head of an array of `n` cells that all hold `z`. -/
def intoArray (z : α) (n : Nat) (xs : List α) : List α := xs ++ List.replicate (n - xs.length) z

/-- `xs` written to the head of `array`. -/
def overwrite (array xs : List α) : List α := xs ++ array.drop xs.length

variable {z : α} {xs ys : List α} {n : Nat}

theorem untilFirst_eq_none_iff : untilFirst z xs = none ↔ z ∉ xs := by
  induction xs with
  | nil => simp [untilFirst]
  | cons x xs ih =>
    simp only [untilFirst, List.mem_cons, not_or]
    split
    · rename_i hx
      simp [hx]
    · rename_i hx
      simp only [Option.map_eq_none_iff, ih]
      exact ⟨fun h => ⟨Ne.symm hx, h⟩, fun h => h.2⟩

theorem mem_of_untilFirst (h : untilFirst z xs = some ys) : z ∈ xs := by
  by_contra hz
  rw [untilFirst_eq_none_iff.mpr hz] at h
  cases h

theorem untilFirst_append (h : z ∉ xs) : untilFirst z (xs ++ z :: ys) = some xs := by
  induction xs with
  | nil => simp [untilFirst]
  | cons x xs ih =>
    simp only [List.mem_cons, not_or] at h
    simp [untilFirst, Ne.symm h.1, ih h.2]

theorem untilFirst_of_mem (h : z ∈ xs) : untilFirst z xs = some (xs.takeWhile (· ≠ z)) := by
  induction xs with
  | nil => simp at h
  | cons x xs ih =>
    by_cases hx : x = z
    · simp [untilFirst, hx]
    · have hxs : z ∈ xs := by simpa [Ne.symm hx] using h
      simp [untilFirst, hx, ih hxs]

theorem untilFirst_append_of_mem (h : z ∈ xs) :
    untilFirst z (xs ++ ys) = untilFirst z xs := by
  induction xs with
  | nil => simp at h
  | cons x xs ih =>
    by_cases hx : x = z
    · simp [untilFirst, hx]
    · have hxs : z ∈ xs := by simpa [Ne.symm hx] using h
      simp [untilFirst, hx, ih hxs]

theorem takeWhile_ne_eq_self_iff : xs.takeWhile (· ≠ z) = xs ↔ z ∉ xs := by
  rw [List.takeWhile_eq_self_iff]
  constructor
  · intro h hz
    simpa using h z hz
  · intro h a ha
    have hne : a ≠ z := fun he => h (he ▸ ha)
    simpa using hne

theorem takeWhile_ne_length_lt (h : z ∈ xs) : (xs.takeWhile (· ≠ z)).length < xs.length := by
  have hpre := List.takeWhile_prefix (p := (· ≠ z)) (l := xs)
  refine lt_of_le_of_ne hpre.length_le fun heq => ?_
  exact takeWhile_ne_eq_self_iff.mp (hpre.eq_of_length heq) h

omit [DecidableEq α] in
@[simp] theorem intoArray_length (h : xs.length ≤ n) : (intoArray z n xs).length = n := by
  simp [intoArray, h]

theorem untilFirst_intoArray_of_lt (h : xs.length < n) :
    untilFirst z (intoArray z n xs) = some (xs.takeWhile (· ≠ z)) := by
  by_cases hx : z ∈ xs
  · rw [intoArray, untilFirst_append_of_mem hx, untilFirst_of_mem hx]
  · obtain ⟨k, hk⟩ : ∃ k, n - xs.length = k + 1 := ⟨n - xs.length - 1, by omega⟩
    rw [intoArray, hk, List.replicate_succ, untilFirst_append hx,
      takeWhile_ne_eq_self_iff.mpr hx]

/-- A full array holds a terminator only if the cells written into it do. -/
theorem untilFirst_intoArray_eq_some_iff (h : xs.length ≤ n) :
    untilFirst z (intoArray z n xs) = some ys ↔
      ys = xs.takeWhile (· ≠ z) ∧ (xs.length < n ∨ z ∈ xs) := by
  by_cases hlt : xs.length < n
  · simp [untilFirst_intoArray_of_lt hlt, hlt, eq_comm]
  · have heq : n - xs.length = 0 := by omega
    simp only [intoArray, heq, List.replicate_zero, List.append_nil, hlt, false_or]
    by_cases hz : z ∈ xs
    · simp [untilFirst_of_mem hz, hz, eq_comm]
    · simp [untilFirst_eq_none_iff.mpr hz, hz]

theorem untilFirst_intoArray_eq_none_iff (h : xs.length ≤ n) :
    untilFirst z (intoArray z n xs) = none ↔ xs.length = n ∧ z ∉ xs := by
  rw [untilFirst_eq_none_iff, intoArray, List.mem_append, List.mem_replicate]
  constructor
  · intro hz
    exact ⟨by by_contra hne; exact hz (.inr ⟨by omega, rfl⟩), fun hx => hz (.inl hx)⟩
  · rintro ⟨hn, hz⟩ (hx | ⟨hne, _⟩)
    · exact hz hx
    · omega

end Bytes
