import SGXessControll.Calls.Contract

/-!
# Straight-line code, followed forward

Where nothing else changes the world, code is followed from one world to the worlds its
answers lead to. A stage returns whether it succeeded and leaves one thing behind if it did,
another if it did not; the stages after a failed one are not reached.
-/

namespace Calls.Setting

set_option autoImplicit false

variable {W C R α β : Type} {S : Setting W C R} {Φ : α → W → Prop} {Ψ : β → W → Prop}
variable {A A' F : W → Prop} {w : W}

/-- Between the calls of the code the world does not change. -/
def Still (S : Setting W C R) : Prop := ∀ w w', S.rely w w' → w' = w

theorem Still.stable (h : S.Still) (A : W → Prop) : S.Stable A := by
  intro w w' hr hw
  rw [h w w' hr]
  exact hw

theorem Still.ret (h : S.Still) {a : α} (ha : Φ a w) : S.Holds (.ret a) Φ w := by
  apply triple_ret (A := fun w => Φ a w) (h.stable _)
  · exact fun _ hw => hw
  · exact ha

theorem Still.undefined (h : S.Still) (hw : S.fault w) :
    S.Holds (.undefined : Code C R α) Φ w := by
  apply triple_undefined (h.stable S.fault)
  · exact fun _ hw => hw
  · exact hw

theorem Still.call (h : S.Still) {c : C} {k : R → Code C R α} (hpre : S.pre c w)
    (hk : ∀ r w', S.answer w c r w' → S.Holds (k r) Φ w') : S.Holds (.call c k) Φ w := by
  refine triple_call (A := (· = w)) (h.stable _) ?_ ?_ w rfl
  · rintro _ rfl
    exact hpre
  · rintro r w' ⟨_, rfl, ha⟩
    exact hk r w' ha

theorem Holds.bind {m : Code C R α} {f : α → Code C R β} (hm : S.Holds m Φ w)
    (hf : ∀ a w', Φ a w' → S.Holds (f a) Ψ w') : S.Holds (m.bind f) Ψ w :=
  fun n => holdsFor_bind hf n m w hm

theorem Holds.post {Ψ : α → W → Prop} {m : Code C R α} (hm : S.Holds m Φ w)
    (hΦ : ∀ a w', Φ a w' → Ψ a w') : S.Holds m Ψ w :=
  fun n => holdsFor_mono hΦ n m w (hm n)

/-- `m` run from `w` returns true where `A` holds, or false where `F` does. -/
def Stage (S : Setting W C R) (m : Code C R Bool) (A F : W → Prop) (w : W) : Prop :=
  S.Holds m (fun ok w' => if ok = true then A w' else F w') w

theorem Still.done (h : S.Still) (hw : A w) : S.Stage (.ret true) A F w :=
  h.ret ((if_pos rfl).mpr hw)

theorem Still.failed (h : S.Still) (hw : F w) : S.Stage (.ret false) A F w :=
  h.ret ((if_neg Bool.false_ne_true).mpr hw)

/-- A test that ends the stage. -/
theorem Still.test (h : S.Still) {bad : Prop} [Decidable bad] {n : Code C R Bool} (hbad : bad → F w)
    (hn : ¬ bad → S.Stage n A F w) : S.Stage (if bad then .ret false else n) A F w := by
  split
  · rename_i hb
    exact h.failed (hbad hb)
  · rename_i hb
    exact hn hb

theorem Stage.andThen (h : S.Still) {m n : Code C R Bool} (hm : S.Stage m A F w)
    (hn : ∀ w', A w' → S.Stage n A' F w') :
    S.Stage (m.bind fun ok => if ok = false then .ret false else n) A' F w := by
  refine Holds.bind hm fun ok w' hok => ?_
  cases ok with
  | false => exact h.failed ((if_neg Bool.false_ne_true).mp hok)
  | true => exact hn w' ((if_pos rfl).mp hok)

end Calls.Setting
