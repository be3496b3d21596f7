import SGXessControll.Calls.Contract

/-!
# What code leaves alone

Code that makes only calls of one kind keeps every assertion these calls keep, and an
invariant of all answers can be added to a triple on both sides.
-/

namespace Calls

set_option autoImplicit false

variable {W C R α β γ : Type}

/-- Every call is one of `p`, no loop turns in silence, and `u` if an operation may be
undefined. -/
def Code.Only (p : C → Prop) (u : Prop) : {α : Type} → Code C R α → Prop
  | _, .ret _ => True
  | _, .call c k => p c ∧ ∀ r, (k r).Only p u
  | _, .loop _ body k => (∀ b, (body b).Only p u) ∧
      (∀ b b', (body b).pending ≠ .returned (.inl b')) ∧ ∀ g, (k g).Only p u
  | _, .undefined => u

section Only

variable {p : C → Prop} {u : Prop}

@[simp] theorem Code.only_ret (a : α) : (Code.ret a : Code C R α).Only p u := trivial

theorem Code.only_ask {c : C} (h : p c) : (Code.ask c : Code C R R).Only p u :=
  ⟨h, fun _ => trivial⟩

theorem Code.only_ite {b : Prop} [Decidable b] {m n : Code C R α} (hm : m.Only p u)
    (hn : n.Only p u) : (if b then m else n).Only p u := by
  split
  · exact hm
  · exact hn

theorem Code.Only.bind {m : Code C R α} {f : α → Code C R β} (hm : m.Only p u)
    (hf : ∀ a, (f a).Only p u) : (m.bind f).Only p u := by
  induction m with
  | ret a => exact hf a
  | call c k ih =>
    obtain ⟨hc, hk⟩ := hm
    exact ⟨hc, fun r => ih r (hk r) hf⟩
  | loop b body k _ ih =>
    obtain ⟨hbody, hsound, hk⟩ := hm
    exact ⟨hbody, hsound, fun g => ih g (hk g) hf⟩
  | undefined => exact hm

theorem Code.only_forM_mem {f : β → Code C R PUnit} {list : List β}
    (hf : ∀ x ∈ list, (f x).Only p u) : (list.forM f).Only p u := by
  induction list with
  | nil => exact trivial
  | cons x list ih =>
    exact (hf x List.mem_cons_self).bind fun _ => ih fun y hy => hf y (List.mem_cons_of_mem x hy)

theorem Code.only_forM {f : β → Code C R PUnit} (hf : ∀ x, (f x).Only p u) (list : List β) :
    (list.forM f).Only p u := Code.only_forM_mem fun x _ => hf x

theorem Code.only_doWhile {c : C} {again : R → Bool} (h : p c) :
    (Code.doWhile c again).Only p u := by
  refine ⟨fun _ => ⟨h, fun _ => trivial⟩, ?_, fun _ => trivial⟩
  intro _ _ hp
  cases hp

end Only

namespace Setting

variable {S : Setting W C R} {A : W → Prop} {Φ : α → W → Prop} {m : Code C R α}
variable {p : C → Prop} {u : Prop}

theorem triple_only (hA : S.Stable A) (hpre : ∀ c w, p c → A w → S.pre c w)
    (hans : ∀ w c r w', p c → A w → S.answer w c r w' → A w')
    (hf : u → ∀ w, A w → S.fault w) (h : m.Only p u) :
    S.Triple A m (fun _ => A) := by
  induction m with
  | ret a => exact triple_ret hA fun _ hw => hw
  | call c k ih =>
    obtain ⟨hc, hk⟩ := h
    apply triple_call hA (fun w hw => hpre c w hc hw)
    intro r
    apply (ih r (hk r)).pre
    intro w' hw'
    obtain ⟨w, hw, hr⟩ := hw'
    exact hans w c r w' hc hw hr
  | loop b body k ihbody ihk =>
    obtain ⟨hbody, hsound, hk⟩ := h
    refine triple_loop (J := fun _ => A) (Θ := fun _ => A) (fun b => ?_) hsound
      (fun g => ihk g (hk g))
    apply (ihbody b (hbody b)).post
    intro x w hw
    cases x with
    | inl _ => exact hw
    | inr _ => exact hw
  | undefined => exact triple_undefined hA (hf h)

/-- The answers that are possible where `I` holds. -/
def given (S : Setting W C R) (I : W → Prop) : Setting W C R where
  answer w c r w' := I w ∧ S.answer w c r w'
  rely := S.rely
  pre := S.pre
  fault := S.fault

variable {I : W → Prop}

theorem holdsFor_given (n : Nat) :
    ∀ (m : Code C R α) (w : W), S.HoldsFor Φ n m w → (S.given I).HoldsFor Φ n m w := by
  induction n with
  | zero => exact fun _ _ _ => trivial
  | succ n ih =>
    intro m w h
    refine ⟨fun w' hr => ih m w' (h.1 w' hr), ?_⟩
    have h2 := h.2
    cases hm : m.pending with
    | returned a => simpa only [hm] using h2
    | calling c =>
      simp only [hm] at h2 ⊢
      exact ⟨h2.1, fun r w' hr => ih _ _ (h2.2 r w' hr.2)⟩
    | undefined =>
      simp only [hm] at h2 ⊢
      exact h2

section Invariant

variable (hI : S.Stable I) (hans : ∀ w c r w', I w → S.pre c w → S.answer w c r w' → I w')
include hI hans

theorem holdsFor_of_given (n : Nat) :
    ∀ (m : Code C R α) (w : W), (S.given I).HoldsFor Φ n m w → I w →
      S.HoldsFor (fun a w => Φ a w ∧ I w) n m w := by
  induction n with
  | zero => exact fun _ _ _ _ => trivial
  | succ n ih =>
    intro m w h hw
    refine ⟨fun w' hr => ih m w' (h.1 w' hr) (hI w w' hr hw), ?_⟩
    have h2 := h.2
    cases hm : m.pending with
    | returned a =>
      simp only [hm] at h2 ⊢
      exact ⟨h2, hw⟩
    | calling c =>
      simp only [hm] at h2 ⊢
      exact ⟨h2.1, fun r w' hr => ih _ _ (h2.2 r w' ⟨hw, hr⟩) (hans w c r w' hw h2.1 hr)⟩
    | undefined =>
      simp only [hm] at h2 ⊢
      exact h2

/-- What is proved where an invariant may be used holds where the invariant is kept. -/
theorem Triple.of_given (h : (S.given I).Triple A m Φ) :
    S.Triple (fun w => A w ∧ I w) m (fun a w => Φ a w ∧ I w) :=
  fun w hw n => holdsFor_of_given hI hans n m w (h w hw.1 n) hw.2

theorem Triple.keep (h : S.Triple A m Φ) :
    S.Triple (fun w => A w ∧ I w) m (fun a w => Φ a w ∧ I w) :=
  Triple.of_given hI hans fun w hw n => holdsFor_given n m w (h w hw n)

end Invariant

end Setting

end Calls
