import SGXessControll.Calls.Code

/-!
# Code under given answers

What code comes to when its calls are answered by a list, one answer a call and none left
over.
-/

namespace Calls.Code

set_option autoImplicit false

variable {C R α β : Type}

/-- `m` uses up the answers and then returns `a`. -/
def Yields : Code C R α → List R → α → Prop
  | m, [], a => m.pending = .returned a
  | m, r :: rs, a => (∃ c, m.pending = .calling c) ∧ (m.resume r).Yields rs a

variable {m : Code C R α} {f : α → Code C R β} {r : R} {rs rs' : List R} {a a' : α} {b : β}

@[simp] theorem yields_ret : (ret a : Code C R α).Yields [] a' ↔ a' = a := by
  simp [Yields, pending, eq_comm]

theorem Yields.unique (h : m.Yields rs a) (h' : m.Yields rs a') : a = a' := by
  induction rs generalizing m with
  | nil =>
    rw [Yields] at h h'
    rw [h] at h'
    cases h'
    rfl
  | cons r rs ih => exact ih h.2 h'.2

theorem Yields.bind (hm : m.Yields rs a) (hf : (f a).Yields rs' b) :
    (m.bind f).Yields (rs ++ rs') b := by
  induction rs generalizing m with
  | nil =>
    rw [Yields] at hm
    rw [List.nil_append]
    cases rs' with
    | nil =>
      rw [Yields] at hf ⊢
      rw [pending_bind, hm]
      exact hf
    | cons r rs' =>
      obtain ⟨⟨c, hc⟩, hrest⟩ := hf
      have hpending : (m.bind f).pending = .calling c := by
        rw [pending_bind, hm]
        exact hc
      refine ⟨⟨c, hpending⟩, ?_⟩
      rwa [resume_bind, hm]
  | cons r rs ih =>
    obtain ⟨⟨c, hc⟩, hrest⟩ := hm
    refine ⟨⟨c, by rw [pending_bind, hc]⟩, ?_⟩
    rw [resume_bind, hc]
    exact ih hrest

/-- The call is made again for each answer that asks for it. -/
theorem yields_doWhile {c : C} {again : R → Bool} (hrs : ∀ q ∈ rs, again q = true)
    (hr : again r = false) : (doWhile c again).Yields (rs ++ [r]) r := by
  induction rs with
  | nil =>
    refine ⟨⟨c, rfl⟩, ?_⟩
    simp only [doWhile, resume, pending, hr]
    rfl
  | cons q rs ih =>
    refine ⟨⟨c, rfl⟩, ?_⟩
    have hq := hrs q List.mem_cons_self
    simp only [doWhile, resume, pending, hq]
    exact ih fun q hq => hrs q (List.mem_cons_of_mem _ hq)

end Calls.Code
