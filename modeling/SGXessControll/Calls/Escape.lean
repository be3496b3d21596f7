import SGXessControll.Calls.Runs

/-!
# Code that can get somewhere

Not what code does under any answers, but where it can be brought: with one rule for the
answers, code gets to a call or a result; and it escapes to a kind of place if it gets to
one from wherever it may have been left waiting.
-/

namespace Calls

set_option autoImplicit false

variable {C R α β γ δ : Type}

namespace Code

/-- Answered by `answer`, the code comes to stand at `p`. -/
inductive Gets (answer : C → R) : Code C R α → Pending C α → Prop where
  | here {m : Code C R α} {p : Pending C α} : m.pending = p → Gets answer m p
  | step {m : Code C R α} {c : C} {p : Pending C α} : m.pending = .calling c →
      Gets answer (m.resume (answer c)) p → Gets answer m p

/-- What may remain of `m` after some answers. -/
inductive Later (m : Code C R α) : Code C R α → Prop where
  | refl : Later m m
  | resume {n : Code C R α} {c : C} (r : R) : Later m n → n.pending = .calling c →
      Later m (n.resume r)

variable {answer : C → R} {m n : Code C R α} {p : Pending C α} {q : Pending C δ} {c : C}
variable {f : α → Code C R δ} {b : β} {body : β → Code C R (β ⊕ γ)} {k : γ → Code C R α}

theorem Gets.bind {a : α} (hm : m.Gets answer (.returned a)) (hf : (f a).Gets answer q) :
    (m.bind f).Gets answer q := by
  generalize hp : Pending.returned a = p at hm
  induction hm with
  | @here m p h =>
    rw [← hp] at h
    cases hf with
    | here hq =>
      apply Gets.here
      rw [pending_bind, h]
      exact hq
    | @step _ c _ hc hrest =>
      apply Gets.step (c := c)
      · rw [pending_bind, h]
        exact hc
      · rw [resume_bind, h]
        exact hrest
  | @step m c p hc _ ih =>
    apply Gets.step (c := c)
    · rw [pending_bind, hc]
    · rw [resume_bind, hc]
      exact ih hp

theorem Gets.bind_calling (hm : m.Gets answer (.calling c)) :
    (m.bind f).Gets answer (.calling c) := by
  generalize hp : Pending.calling c = p at hm
  induction hm with
  | @here m p h =>
    apply Gets.here
    rw [pending_bind, h, ← hp]
  | @step m c' p hc _ ih =>
    apply Gets.step (c := c')
    · rw [pending_bind, hc]
    · rw [resume_bind, hc]
      exact ih hp

theorem gets_ask : (ask c : Code C R R).Gets answer (.returned (answer c)) :=
  .step (c := c) rfl (.here rfl)

theorem gets_loop {x : β ⊕ γ} (hc : (body b).pending = .calling c)
    (hbody : ((body b).resume (answer c)).Gets answer (.returned x))
    (hx : (next body k x).Gets answer p) : (loop b body k).Gets answer p := by
  apply Gets.step (c := c)
  · simp only [pending, hc]
  · rw [resume_loop hc]
    exact hbody.bind hx

theorem gets_loop_calling {c' : C} (hc : (body b).pending = .calling c)
    (hbody : ((body b).resume (answer c)).Gets answer (.calling c')) :
    (loop b body k).Gets answer (.calling c') := by
  apply Gets.step (c := c)
  · simp only [pending, hc]
  · rw [resume_loop hc]
    exact hbody.bind_calling

theorem later_bind {m : Code C R α} {n : Code C R δ} (h : (m.bind f).Later n) :
    (∃ m', m.Later m' ∧ n = m'.bind f) ∨ ∃ a, (f a).Later n := by
  induction h with
  | refl => exact Or.inl ⟨m, .refl, rfl⟩
  | @resume n c r _ hc ih =>
    rcases ih with ⟨m', hm, rfl⟩ | ⟨a, hn⟩
    · cases hp : m'.pending with
      | returned a =>
        rw [pending_bind, hp] at hc
        rw [resume_bind, hp]
        exact Or.inr ⟨a, .resume r .refl hc⟩
      | calling c' =>
        rw [resume_bind, hp]
        exact Or.inl ⟨m'.resume r, .resume r hm hp, rfl⟩
      | undefined =>
        rw [pending_bind, hp] at hc
        cases hc
    · exact Or.inr ⟨a, .resume r hn hc⟩

/-- From wherever `m` waits it gets to a place in `T`. -/
def Escapes (answer : C → R) (T : Pending C α → Prop) (m : Code C R α) : Prop :=
  ∀ n c, m.Later n → n.pending = .calling c → ∃ p, T p ∧ n.Gets answer p

def Ends (H : α → Prop) (p : Pending C α) : Prop := ∃ a, p = .returned a ∧ H a

variable {T : Pending C δ → Prop} {H : α → Prop}

theorem later_ret {a : α} (h : (ret a : Code C R α).Later n) : n = ret a := by
  induction h with
  | refl => rfl
  | resume r _ hc ih =>
    rw [ih] at hc
    cases hc

theorem escapes_ret {T : Pending C α → Prop} (a : α) : (ret a : Code C R α).Escapes answer T := by
  intro n c hn hc
  rw [later_ret hn] at hc
  cases hc

theorem later_undefined (h : (undefined : Code C R α).Later n) : n = undefined := by
  induction h with
  | refl => rfl
  | resume r _ hc ih =>
    rw [ih] at hc
    cases hc

theorem escapes_undefined {T : Pending C α → Prop} :
    (undefined : Code C R α).Escapes answer T := by
  intro n c hn hc
  rw [later_undefined hn] at hc
  cases hc

theorem escapes_ite {T : Pending C α → Prop} {b : Prop} [Decidable b] (hm : m.Escapes answer T)
    (hn : n.Escapes answer T) : (if b then m else n).Escapes answer T := by
  split
  · exact hm
  · exact hn

theorem Escapes.bind (hm : m.Escapes answer (Ends H)) (hf : ∀ a, (f a).Escapes answer T)
    (hH : ∀ a, H a → (∃ c, (f a).pending = .calling c) ∨ T (f a).pending) :
    (m.bind f).Escapes answer T := by
  have start : ∀ a, H a → ∃ p, T p ∧ (f a).Gets answer p := by
    intro a ha
    rcases hH a ha with ⟨c, hc⟩ | hT
    · exact hf a (f a) c .refl hc
    · exact ⟨_, hT, .here rfl⟩
  intro n c hn hc
  rcases later_bind hn with ⟨m', hm', rfl⟩ | ⟨a, hn⟩
  · cases hp : m'.pending with
    | returned a =>
      rw [pending_bind, hp] at hc
      obtain ⟨p, hT, hgets⟩ := hf a (f a) c .refl hc
      exact ⟨p, hT, (Gets.here hp).bind hgets⟩
    | calling c' =>
      obtain ⟨_, ⟨a, rfl, ha⟩, hgets⟩ := hm m' c' hm' hp
      obtain ⟨p, hT, hrest⟩ := start a ha
      exact ⟨p, hT, hgets.bind hrest⟩
    | undefined =>
      rw [pending_bind, hp] at hc
      cases hc
  · exact hf a n c hn hc

theorem later_ask {n : Code C R R} (h : (ask c).Later n) : n = ask c ∨ ∃ r, n = ret r := by
  induction h with
  | refl => exact Or.inl rfl
  | resume r _ hc ih =>
    rcases ih with rfl | ⟨r', rfl⟩
    · exact Or.inr ⟨r, rfl⟩
    · cases hc

theorem escapes_ask {H : R → Prop} (h : H (answer c)) :
    (ask c : Code C R R).Escapes answer (Ends H) := by
  intro n c' hn hc
  rcases later_ask hn with rfl | ⟨r, rfl⟩
  · exact ⟨_, ⟨answer c, rfl, h⟩, gets_ask⟩
  · cases hc

section Loop

variable {T : Pending C α → Prop} {H : β ⊕ γ → Prop} {r : R}

theorem later_loop_head (hc : (loop b body k).pending = .calling c) :
    (∃ n, (body b).Later n ∧ (loop b body k).resume r = n.bind (next body k)) ∨
      ∃ g, (body b).pending = .returned (.inr g) ∧ (loop b body k).resume r = (k g).resume r ∧
        (k g).pending = .calling c := by
  simp only [pending, resume] at hc ⊢
  cases hp : (body b).pending with
  | returned x =>
    rw [hp] at hc
    cases x with
    | inl b' => cases hc
    | inr g => exact Or.inr ⟨g, rfl, rfl, hc⟩
  | calling c' => exact Or.inl ⟨_, .resume r .refl hp, rfl⟩
  | undefined =>
    rw [hp] at hc
    cases hc

theorem later_loop (h : (loop b body k).Later n) :
    (∃ b', n = loop b' body k) ∨ (∃ b' n', (body b').Later n' ∧ n = n'.bind (next body k)) ∨
      ∃ g, (k g).Later n := by
  have head : ∀ {b : β} {c : C} (r : R), (loop b body k).pending = .calling c →
      (∃ b' n', (body b').Later n' ∧ (loop b body k).resume r = n'.bind (next body k)) ∨
        ∃ g, (k g).Later ((loop b body k).resume r) := by
    intro b c r hc
    rcases later_loop_head (r := r) hc with ⟨n', hn', heq⟩ | ⟨g, _, heq, hg⟩
    · exact Or.inl ⟨b, n', hn', heq⟩
    · exact Or.inr ⟨g, heq ▸ .resume r .refl hg⟩
  induction h with
  | refl => exact Or.inl ⟨b, rfl⟩
  | @resume n c r _ hc ih =>
    rcases ih with ⟨b', rfl⟩ | ⟨b', n', hn', rfl⟩ | ⟨g, hg⟩
    · exact Or.inr (head r hc)
    · cases hp : n'.pending with
      | returned x =>
        rw [pending_bind, hp] at hc
        rw [resume_bind, hp]
        cases x with
        | inl b'' => exact Or.inr (head r hc)
        | inr g => exact Or.inr (Or.inr ⟨g, .resume r .refl hc⟩)
      | calling c' =>
        rw [resume_bind, hp]
        exact Or.inr (Or.inl ⟨b', _, .resume r hn' hp, rfl⟩)
      | undefined =>
        rw [pending_bind, hp] at hc
        cases hc
    · exact Or.inr (Or.inr ⟨g, .resume r hg hc⟩)

theorem gets_loop_out {g : γ} {p : Pending C α} (hp : (body b).pending = .returned (.inr g))
    (h : (k g).Gets answer p) : (loop b body k).Gets answer p := by
  cases h with
  | here hg =>
    apply Gets.here
    simp only [pending, hp]
    exact hg
  | @step _ c _ hc hrest =>
    apply Gets.step (c := c)
    · simp only [pending, hp]
      exact hc
    · simp only [resume, hp]
      exact hrest

theorem escapes_loop_head (hbody : ∀ b, (body b).Escapes answer (Ends H))
    (hk : ∀ g, (k g).Escapes answer T)
    (hH : ∀ x, H x → ∃ p, T p ∧ (next body k x).Gets answer p)
    (hc : (loop b body k).pending = .calling c) : ∃ p, T p ∧ (loop b body k).Gets answer p := by
  cases hp : (body b).pending with
  | returned x =>
    simp only [pending, hp] at hc
    cases x with
    | inl b' => cases hc
    | inr g =>
      obtain ⟨p, hT, hgets⟩ := hk g (k g) c .refl hc
      exact ⟨p, hT, gets_loop_out hp hgets⟩
  | calling c' =>
    obtain ⟨_, ⟨x, rfl, hx⟩, hgets⟩ := hbody b (body b) c' .refl hp
    obtain ⟨p, hT, hnext⟩ := hH x hx
    refine ⟨p, hT, ?_⟩
    cases hgets with
    | here h =>
      rw [hp] at h
      cases h
    | @step _ c'' _ hc'' hrest => exact gets_loop hc'' hrest hnext
  | undefined =>
    simp only [pending, hp] at hc
    cases hc

/-- Every round can be brought to an end, and what then follows to a place in `T`. -/
theorem escapes_loop (hbody : ∀ b, (body b).Escapes answer (Ends H))
    (hk : ∀ g, (k g).Escapes answer T)
    (hH : ∀ x, H x → ∃ p, T p ∧ (next body k x).Gets answer p) (b : β) :
    (loop b body k).Escapes answer T := by
  intro n c hn hc
  -- It waits at the head, inside a round, or behind the loop.
  rcases later_loop hn with ⟨b', rfl⟩ | ⟨b', n', hn', rfl⟩ | ⟨g, hg⟩
  · exact escapes_loop_head hbody hk hH hc
  · cases hp : n'.pending with
    | returned x =>
      rw [pending_bind, hp] at hc
      cases x with
      | inl b'' =>
        obtain ⟨p, hT, hgets⟩ := escapes_loop_head hbody hk hH hc
        exact ⟨p, hT, (Gets.here hp).bind hgets⟩
      | inr g =>
        obtain ⟨p, hT, hgets⟩ := hk g (k g) c .refl hc
        exact ⟨p, hT, (Gets.here hp).bind hgets⟩
    | calling c' =>
      obtain ⟨_, ⟨x, rfl, hx⟩, hgets⟩ := hbody b' n' c' hn' hp
      obtain ⟨p, hT, hnext⟩ := hH x hx
      exact ⟨p, hT, hgets.bind hnext⟩
    | undefined =>
      rw [pending_bind, hp] at hc
      cases hc
  · exact hk g n c hg hc

end Loop

theorem escapes_doWhile {again : R → Bool} {H : R → Prop} (hagain : again (answer c) = false)
    (h : H (answer c)) : (doWhile c again).Escapes answer (Ends H) := by
  refine escapes_loop (H := fun x => x = .inr (answer c)) (fun _ => ?_) (fun g => escapes_ret g)
    (fun x hx => ?_) ()
  · refine Escapes.bind (m := ask c) (H := fun r => r = answer c) (escapes_ask rfl)
      (fun r => escapes_ret _) fun r hr => ?_
    rw [hr, hagain]
    exact Or.inr ⟨_, rfl, rfl⟩
  · rw [hx]
    exact ⟨_, ⟨_, rfl, h⟩, .here rfl⟩

end Code

namespace Machine

variable {W E : Type} {M : Machine W Unit C R E} {ok : W → Unit → C → R → Prop}
variable {m : Code C R α} {w : W} {t : Config W Unit C R α}

theorem Reaches.later (h : M.Reaches ok (solo m w) t) : m.Later (t.code ()) := by
  induction h with
  | refl => exact .refl
  | @reply t i c r _ _ hp _ _ ih =>
    simp only [Function.update_self]
    exact .resume r ih hp
  | move _ _ ih => exact ih

/-- Code gets where the machine lets the answers pass. -/
theorem reaches_of_gets {answer : C → R} {P : W → Prop} {p : Pending C α}
    (hM : ∀ w c, P w → ∃ v, M.respond w () c (answer c) = some v ∧ ok w () c (answer c) ∧ P v)
    (hm : m.Gets answer p) (hw : P w) :
    ∃ u, M.Reaches ok (solo m w) u ∧ (u.code ()).pending = p := by
  induction hm generalizing w with
  | here hp => exact ⟨_, .refl, hp⟩
  | @step m c p hc _ ih =>
    obtain ⟨v, hr, hok, hv⟩ := hM w c hw
    obtain ⟨u, hu, hp⟩ := ih hv
    exact ⟨u, Reaches.trans (leads_reply hc hr hok) hu, hp⟩

end Machine

end Calls
