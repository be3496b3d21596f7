import SGXessControll.Calls.Machine

/-!
# Contracts on calls

A thread owes `pre c` whenever it waits for the call `c`; in return the worlds it meets
change only by its own answered calls and by `rely`, what the other threads and the
surroundings do. `Holds m Φ w` says that the code `m`, standing in the world `w`, keeps
to this for as long as it runs, and returns `a` only in worlds with `Φ a`. It is the
limit of its finite approximations, so code that never returns can satisfy it.
-/

namespace Calls

set_option autoImplicit false

structure Setting (W C R : Type) where
  answer : W → C → R → W → Prop
  rely : W → W → Prop
  pre : C → W → Prop
  /-- The worlds in which running into undefined behaviour is accounted for. -/
  fault : W → Prop

namespace Setting

variable {W C R α β γ : Type} (S : Setting W C R)

/-- The first `n` steps of `m` from `w` keep to the contract. -/
def HoldsFor (Φ : α → W → Prop) : Nat → Code C R α → W → Prop
  | 0, _, _ => True
  | n + 1, m, w => (∀ w', S.rely w w' → HoldsFor Φ n m w') ∧
    match m.pending with
    | .returned a => Φ a w
    | .calling c => S.pre c w ∧ ∀ r w', S.answer w c r w' → HoldsFor Φ n (m.resume r) w'
    | .undefined => S.fault w

def Holds (m : Code C R α) (Φ : α → W → Prop) (w : W) : Prop := ∀ n, S.HoldsFor Φ n m w

/-- Where `A` holds, `m` keeps to the contract and returns under `Φ`. -/
def Triple (A : W → Prop) (m : Code C R α) (Φ : α → W → Prop) : Prop :=
  ∀ w, A w → S.Holds m Φ w

def Stable (A : W → Prop) : Prop := ∀ w w', S.rely w w' → A w → A w'

variable {S} {A B : W → Prop} {m : Code C R α} {Φ Ψ : α → W → Prop} {w : W}

theorem Holds.rely (h : S.Holds m Φ w) {w' : W} (hw : S.rely w w') : S.Holds m Φ w' :=
  fun n => (h (n + 1)).1 w' hw

theorem Holds.returned (h : S.Holds m Φ w) {a : α} (hm : m.pending = .returned a) : Φ a w := by
  have h1 := (h 1).2
  simpa only [hm] using h1

theorem Holds.undefined (h : S.Holds m Φ w) (hm : m.pending = .undefined) : S.fault w := by
  have h1 := (h 1).2
  simpa only [hm] using h1

theorem Holds.pre (h : S.Holds m Φ w) {c : C} (hm : m.pending = .calling c) : S.pre c w := by
  have h1 := (h 1).2
  simp only [hm] at h1
  exact h1.1

theorem Holds.answer (h : S.Holds m Φ w) {c : C} (hm : m.pending = .calling c) {r : R} {w' : W}
    (hr : S.answer w c r w') : S.Holds (m.resume r) Φ w' := by
  intro n
  have h1 := (h (n + 1)).2
  simp only [hm] at h1
  exact h1.2 r w' hr

theorem holdsFor_mono (hΦ : ∀ a w, Φ a w → Ψ a w) (n : Nat) :
    ∀ (m : Code C R α) (w : W), S.HoldsFor Φ n m w → S.HoldsFor Ψ n m w := by
  induction n with
  | zero => exact fun _ _ _ => trivial
  | succ n ih =>
    intro m w h
    refine ⟨fun w' hw => ih m w' (h.1 w' hw), ?_⟩
    have h2 := h.2
    cases hm : m.pending with
    | returned a =>
      simp only [hm] at h2 ⊢
      exact hΦ a w h2
    | calling c =>
      simp only [hm] at h2 ⊢
      exact ⟨h2.1, fun r w' hr => ih _ _ (h2.2 r w' hr)⟩
    | undefined => simpa only [hm] using h2

theorem Triple.conseq (h : S.Triple A m Φ) (hA : ∀ w, B w → A w)
    (hΦ : ∀ a w, Φ a w → Ψ a w) : S.Triple B m Ψ :=
  fun w hw n => holdsFor_mono hΦ n m w (h w (hA w hw) n)

theorem Triple.pre (h : S.Triple A m Φ) (hA : ∀ w, B w → A w) : S.Triple B m Φ :=
  fun w hw => h w (hA w hw)

theorem Triple.post (h : S.Triple A m Φ) (hΦ : ∀ a w, Φ a w → Ψ a w) : S.Triple A m Ψ :=
  h.conseq (fun _ hw => hw) hΦ

theorem triple_of_false (h : ∀ w, ¬ A w) : S.Triple A m Φ := fun w hw => (h w hw).elim

theorem stable_ite {p : Prop} [Decidable p] (hA : S.Stable A) (hB : S.Stable B) :
    S.Stable fun w => if p then A w else B w := by
  intro w w' hr hw
  by_cases hp : p
  · simp only [hp, if_true] at hw ⊢
    exact hA w w' hr hw
  · simp only [hp, if_false] at hw ⊢
    exact hB w w' hr hw

theorem triple_ret {a : α} (hA : S.Stable A) (hΦ : ∀ w, A w → Φ a w) :
    S.Triple A (.ret a) Φ := by
  intro w hw n
  induction n generalizing w with
  | zero => trivial
  | succ n ih => exact ⟨fun w' hr => ih w' (hA w w' hr hw), hΦ w hw⟩

theorem triple_undefined (hA : S.Stable A) (hf : ∀ w, A w → S.fault w) :
    S.Triple A (.undefined : Code C R α) Φ := by
  intro w hw n
  induction n generalizing w with
  | zero => trivial
  | succ n ih => exact ⟨fun w' hr => ih w' (hA w w' hr hw), hf w hw⟩

theorem triple_call {c : C} {k : R → Code C R α} (hA : S.Stable A)
    (hpre : ∀ w, A w → S.pre c w)
    (hk : ∀ r, S.Triple (fun w' => ∃ w, A w ∧ S.answer w c r w') (k r) Φ) :
    S.Triple A (.call c k) Φ := by
  intro w hw n
  induction n generalizing w with
  | zero => trivial
  | succ n ih =>
    exact ⟨fun w' hr => ih w' (hA w w' hr hw), hpre w hw,
      fun r w' hr => hk r w' ⟨w, hw, hr⟩ n⟩

theorem triple_ask {c : C} {B : R → W → Prop} (hA : S.Stable A) (hB : ∀ r, S.Stable (B r))
    (hpre : ∀ w, A w → S.pre c w) (hr : ∀ w r w', A w → S.answer w c r w' → B r w') :
    S.Triple A (Code.ask c) B := by
  refine triple_call hA hpre fun r => triple_ret (A := B r) (hB r) (fun _ h => h) |>.pre ?_
  rintro w' ⟨w, hw, ha⟩
  exact hr w r w' hw ha

theorem holdsFor_bind {f : α → Code C R β} {Ψ : β → W → Prop}
    (hf : ∀ a, S.Triple (Φ a) (f a) Ψ) (n : Nat) :
    ∀ (m : Code C R α) (w : W), S.Holds m Φ w → S.HoldsFor Ψ n (m.bind f) w := by
  induction n with
  | zero => exact fun _ _ _ => trivial
  | succ n ih =>
    intro m w h
    cases hm : m.pending with
    | returned a =>
      have ha := hf a w (h.returned hm) (n + 1)
      refine ⟨fun w' hw => ih m w' (h.rely hw), ?_⟩
      simpa only [HoldsFor, Code.pending_bind, Code.resume_bind, hm] using ha.2
    | calling c =>
      refine ⟨fun w' hw => ih m w' (h.rely hw), ?_⟩
      simp only [Code.pending_bind, Code.resume_bind, hm]
      exact ⟨h.pre hm, fun r w' hr => ih _ w' (h.answer hm hr)⟩
    | undefined =>
      refine ⟨fun w' hw => ih m w' (h.rely hw), ?_⟩
      simpa only [Code.pending_bind, hm] using h.undefined hm

theorem triple_bind {f : α → Code C R β} {Ψ : β → W → Prop} (hm : S.Triple A m Φ)
    (hf : ∀ a, S.Triple (Φ a) (f a) Ψ) : S.Triple A (m.bind f) Ψ :=
  fun w hw n => holdsFor_bind hf n m w (hm w hw)

theorem triple_forM {I : List β → W → Prop} {f : β → Code C R PUnit} (list : List β)
    (hI : ∀ done, S.Stable (I done))
    (hf : ∀ done x, S.Triple (I done) (f x) (fun _ => I (done ++ [x]))) :
    ∀ done, S.Triple (I done) (list.forM f) (fun _ => I (done ++ list)) := by
  induction list with
  | nil =>
    intro done
    rw [List.append_nil]
    exact triple_ret (hI done) fun _ hw => hw
  | cons x list ih =>
    intro done
    have hrest := ih (done ++ [x])
    rw [List.append_assoc, List.singleton_append] at hrest
    exact triple_bind (hf done x) fun _ => hrest

section Loops

variable {b : β} {body : β → Code C R (β ⊕ γ)} {k : γ → Code C R α}
variable {J : β → W → Prop} {Θ : γ → W → Prop}

/-- What a round of a loop owes: the invariant for the next round, or the way out. -/
def Round (J : β → W → Prop) (Θ : γ → W → Prop) : β ⊕ γ → W → Prop
  | .inl b, w => J b w
  | .inr g, w => Θ g w

theorem holdsFor_loop (hbody : ∀ b, S.Triple (J b) (body b) (Round J Θ))
    (hsound : ∀ b b', (body b).pending ≠ .returned (.inl b'))
    (hk : ∀ g, S.Triple (Θ g) (k g) Φ) (n : Nat) :
    (∀ b w, S.Holds (body b) (Round J Θ) w → S.HoldsFor Φ n (.loop b body k) w) ∧
    (∀ (m : Code C R (β ⊕ γ)) (w : W), S.Holds m (Round J Θ) w →
      S.HoldsFor Φ n (m.bind (Code.next body k)) w) := by
  -- Both at once: the first call of a round leads from the head into the rest of a round, and
  -- the end of that rest back to the head without a step.
  induction n with
  | zero => exact ⟨fun _ _ _ => trivial, fun _ _ _ => trivial⟩
  | succ n ih =>
    have head : ∀ b w, S.Holds (body b) (Round J Θ) w →
        S.HoldsFor Φ (n + 1) (.loop b body k) w := by
      intro b w h
      refine ⟨fun w' hw => ih.1 b w' (h.rely hw), ?_⟩
      cases hm : (body b).pending with
      | returned x =>
        cases x with
        | inl b' => exact absurd hm (hsound b b')
        | inr g =>
          have hg := (hk g w (h.returned hm) (n + 1)).2
          simpa only [HoldsFor, Code.pending, Code.resume, hm] using hg
      | calling c =>
        simp only [Code.pending, Code.resume, hm]
        exact ⟨h.pre hm, fun r w' hr => ih.2 _ w' (h.answer hm hr)⟩
      | undefined => simpa only [Code.pending, hm] using h.undefined hm
    refine ⟨head, fun m w h => ?_⟩
    refine ⟨fun w' hw => ih.2 m w' (h.rely hw), ?_⟩
    cases hm : m.pending with
    | returned x =>
      cases x with
      | inl b =>
        have hb := (head b w (hbody b w (h.returned hm))).2
        simpa only [HoldsFor, Code.pending_bind, Code.resume_bind, hm, Code.next] using hb
      | inr g =>
        have hg := (hk g w (h.returned hm) (n + 1)).2
        simpa only [HoldsFor, Code.pending_bind, Code.resume_bind, hm, Code.next] using hg
    | calling c =>
      simp only [Code.pending_bind, Code.resume_bind, hm]
      exact ⟨h.pre hm, fun r w' hr => ih.2 _ w' (h.answer hm hr)⟩
    | undefined => simpa only [Code.pending_bind, hm] using h.undefined hm

theorem triple_loop (hbody : ∀ b, S.Triple (J b) (body b) (Round J Θ))
    (hsound : ∀ b b', (body b).pending ≠ .returned (.inl b'))
    (hk : ∀ g, S.Triple (Θ g) (k g) Φ) : S.Triple (J b) (.loop b body k) Φ :=
  fun w hw n => (holdsFor_loop hbody hsound hk n).1 b w (hbody b w hw)

/-- A loop that is left in its first round without a call. -/
theorem triple_loop_left {g : γ} (hbody : body b = .ret (.inr g)) (hk : S.Triple A (k g) Φ) :
    S.Triple A (.loop b body k) Φ := by
  intro w hw n
  have hg := hk w hw
  clear hw
  induction n generalizing w with
  | zero => trivial
  | succ n ih =>
    refine ⟨fun w' hr => ih w' (hg.rely hr), ?_⟩
    have hnext := (hg (n + 1)).2
    simpa only [Code.pending, Code.resume, hbody] using hnext

/-- A loop that goes on without a call runs in silence. -/
theorem triple_loop_silent {b' : β} (hbody : (body b).pending = .returned (.inl b'))
    (hA : S.Stable A) (hf : ∀ w, A w → S.fault w) : S.Triple A (.loop b body k) Φ := by
  intro w hw n
  induction n generalizing w with
  | zero => trivial
  | succ n ih =>
    refine ⟨fun w' hr => ih w' (hA w w' hr hw), ?_⟩
    simp only [Code.pending, hbody]
    exact hf w hw

theorem triple_whileTrue {body : Code C R (Unit ⊕ γ)} (hΘ : ∀ g, S.Stable (Θ g))
    (hbody : S.Triple A body (Round (fun _ => A) Θ))
    (hsound : body.pending ≠ .returned (.inl ())) :
    S.Triple A (Code.whileTrue body) Θ :=
  triple_loop (J := fun _ => A) (fun _ => hbody) (fun _ _ => hsound)
    fun g => triple_ret (hΘ g) fun _ h => h

theorem triple_doWhile {c : C} {again : R → Bool} {Θ : R → W → Prop} (hA : S.Stable A)
    (hΘ : ∀ r, S.Stable (Θ r)) (hpre : ∀ w, A w → S.pre c w)
    (hr : ∀ w r w', A w → S.answer w c r w' → if again r then A w' else Θ r w') :
    S.Triple A (Code.doWhile c again) Θ := by
  refine triple_loop (J := fun _ => A) (Θ := Θ) (fun _ => ?_) (fun _ _ h => by cases h)
    fun g => triple_ret (hΘ g) fun _ h => h
  refine triple_call hA hpre fun r => ?_
  cases hb : again r with
  | true =>
    refine Triple.pre (A := A) (triple_ret hA fun _ h => h) ?_
    rintro w' ⟨w, hw, ha⟩
    simpa only [hb, if_true] using hr w r w' hw ha
  | false =>
    refine Triple.pre (A := Θ r) (triple_ret (hΘ r) fun _ h => h) ?_
    rintro w' ⟨w, hw, ha⟩
    simpa only [hb, Bool.false_eq_true, if_false] using hr w r w' hw ha

end Loops

end Setting

namespace Machine

variable {W ι C R E α : Type} [DecidableEq ι]

/-- What thread `i` of a machine may rely on when every other thread keeps its contract. -/
def setting (M : Machine W ι C R E) (ok : W → ι → C → R → Prop) (pre : ι → C → W → Prop)
    (fault : ι → W → Prop) (i : ι) : Setting W C R where
  answer w c r w' := M.respond w i c r = some w' ∧ ok w i c r
  rely w w' := (∃ e, M.move w e = some w') ∨
    ∃ j, j ≠ i ∧ ∃ c r, pre j c w ∧ M.respond w j c r = some w' ∧ ok w j c r
  pre := pre i
  fault := fault i

variable {M : Machine W ι C R E} {ok : W → ι → C → R → Prop} {pre : ι → C → W → Prop}
variable {fault : ι → W → Prop} {Φ : ι → α → W → Prop} {s t : Config W ι C R α}

/-- Threads that each keep their contract at the start keep it in every run. -/
theorem Reaches.holds (h : M.Reaches ok s t)
    (hs : ∀ i, (M.setting ok pre fault i).Holds (s.code i) (Φ i) s.world) (i : ι) :
    (M.setting ok pre fault i).Holds (t.code i) (Φ i) t.world := by
  induction h generalizing i with
  | refl => exact hs i
  | @reply t j c r w _ hp hr hok ih =>
    by_cases hij : i = j
    · subst i
      simp only [Function.update_self]
      exact (ih j).answer hp ⟨hr, hok⟩
    · simp only [Function.update_of_ne hij]
      exact (ih i).rely (.inr ⟨j, Ne.symm hij, c, r, (ih j).pre hp, hr, hok⟩)
  | move _ hm ih => exact (ih i).rely (.inl ⟨_, hm⟩)

theorem Reaches.invariant {P : W → Prop} (h : M.Reaches ok s t)
    (hs : ∀ i, (M.setting ok pre fault i).Holds (s.code i) (Φ i) s.world) (hP : P s.world)
    (reply : ∀ w i c r w', P w → pre i c w → M.respond w i c r = some w' → ok w i c r → P w')
    (move : ∀ w e w', P w → M.move w e = some w' → P w') : P t.world := by
  induction h with
  | refl => exact hP
  | @reply t i _ _ _ ht hp hr hok ih =>
    exact reply _ _ _ _ _ ih ((ht.holds hs i).pre hp) hr hok
  | move _ hm ih => exact move _ _ _ ih hm

section Alone

variable {M : Machine W Unit C R E} {ok : W → Unit → C → R → Prop}

/-- The setting of a thread that runs by itself. -/
abbrev alone (M : Machine W Unit C R E) (ok : W → Unit → C → R → Prop) (pre : C → W → Prop)
    (fault : W → Prop) : Setting W C R :=
  M.setting ok (fun _ => pre) (fun _ => fault) ()

variable {pre : C → W → Prop} {fault : W → Prop} {Φ : α → W → Prop} {A : W → Prop}

theorem stable_alone (h : ∀ w e w', A w → M.move w e = some w' → A w') :
    (M.alone ok pre fault).Stable A := by
  rintro w w' (⟨e, he⟩ | ⟨j, hj, _⟩) hw
  · exact h w e w' hw he
  · exact absurd rfl hj

section

variable {m : Code C R α} {w : W} {t : Config W Unit C R α} (h : M.Reaches ok (solo m w) t)
include h

theorem Reaches.alone (hm : (M.alone ok pre fault).Triple A m Φ) (hw : A w) :
    (M.alone ok pre fault).Holds (t.code ()) Φ t.world := by
  have hs : ∀ i, (M.setting ok (fun _ => pre) (fun _ => fault) i).Holds ((solo m w).code i)
      Φ (solo m w).world := fun _ => hm w hw
  exact h.holds hs ()

theorem Reaches.invariant_alone {P : W → Prop} (hm : (M.alone ok pre fault).Triple A m Φ)
    (hw : A w) (hP : P w)
    (reply : ∀ w c r w', P w → pre c w → M.respond w () c r = some w' → ok w () c r → P w')
    (move : ∀ w e w', P w → M.move w e = some w' → P w') : P t.world := by
  have hs : ∀ i, (M.setting ok (fun _ => pre) (fun _ => fault) i).Holds ((solo m w).code i)
      Φ (solo m w).world := fun _ => hm w hw
  exact h.invariant hs hP (fun w _ => reply w) move

end

end Alone

end Machine

end Calls
