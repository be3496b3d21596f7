import SGXessControll.Calls.Frame

/-!
# Calls that are code themselves

`expand impl m` makes every call of `m` by the code `impl` has for it. It waits where `m`
waits, at the first call of the code for the call of `m`, and goes on as that code does until
this returns the answer.
-/

namespace Calls.Code

set_option autoImplicit false

variable {C R C' R' α β γ : Type}

def expand (impl : C → Code C' R' R) : {α : Type} → Code C R α → Code C' R' α
  | _, ret a => ret a
  | _, call c k => (impl c).bind fun r => (k r).expand impl
  | _, loop b body k => loop b (fun x => (body x).expand impl) fun g => (k g).expand impl
  | _, undefined => undefined

variable {impl : C → Code C' R' R} {m : Code C R α} {c : C} {c' : C'}

theorem expand_bind (m : Code C R α) (f : α → Code C R β) :
    (m.bind f).expand impl = (m.expand impl).bind fun a => (f a).expand impl := by
  induction m with
  | ret a => rfl
  | call c k ih =>
    simp only [bind, expand, bind_assoc]
    exact congrArg _ (funext fun r => ih r f)
  | undefined => rfl
  | loop b body k _ ih => exact congrArg (loop b _) (funext fun g => ih g f)

/-- `expand` goes through a sequence part by part. -/
theorem expand_bind_eq {n : Code C' R' α} {f : α → Code C R β} {g : α → Code C' R' β}
    (hm : m.expand impl = n) (hf : ∀ a, (f a).expand impl = g a) :
    (m.bind f).expand impl = n.bind g := by
  rw [expand_bind, hm]
  exact congrArg _ (funext hf)

theorem expand_ite {b : Prop} [Decidable b] {n n' : Code C R α} :
    (if b then n else n').expand impl = if b then n.expand impl else n'.expand impl := by
  split <;> rfl

theorem forM_append (list list' : List β) (f : β → Code C R PUnit) :
    (list ++ list').forM f = (list.forM f).bind fun _ => list'.forM f := by
  induction list with
  | nil => rfl
  | cons x list ih => exact (congrArg _ (funext fun _ => ih)).trans (bind_assoc _ _ _).symm

theorem expand_forM (list : List β) (f : β → Code C R PUnit) :
    (list.forM f).expand impl = list.forM fun x => (f x).expand impl := by
  induction list with
  | nil => rfl
  | cons x list ih => exact (expand_bind _ _).trans (congrArg _ (funext fun _ => ih))

/-- What `expand` waits for, where all the code begins with a call. -/
theorem pending_expand {start : C → C'} (hstart : ∀ c, (impl c).pending = .calling (start c))
    (m : Code C R α) : (m.expand impl).pending = match m.pending with
      | .returned a => .returned a
      | .calling c => .calling (start c)
      | .undefined => .undefined := by
  induction m with
  | ret a => rfl
  | call c k _ =>
    rw [expand, pending_bind, hstart]
    rfl
  | undefined => rfl
  | loop b body k ihbody ihk =>
    simp only [expand, pending, ihbody]
    cases (body b).pending with
    | returned x =>
      cases x with
      | inl _ => rfl
      | inr g => exact ihk g
    | calling c => rfl
    | undefined => rfl

theorem resume_expand {start : C → C'} (hstart : ∀ c, (impl c).pending = .calling (start c))
    {m : Code C R α} {c : C} (hm : m.pending = .calling c) (r' : R') :
    (m.expand impl).resume r' = ((impl c).resume r').bind fun r => (m.resume r).expand impl := by
  induction m with
  | ret a => cases hm
  | undefined => cases hm
  | call c k _ =>
    cases hm
    rw [expand, resume_bind, hstart]
    rfl
  | loop b body k ihbody ihk =>
    cases hp : (body b).pending with
    | returned x =>
      simp only [pending, hp] at hm
      cases x with
      | inl _ => cases hm
      | inr g =>
        simp only [expand, resume, pending_expand hstart, hp]
        exact ihk g hm
    | calling c' =>
      simp only [pending, hp, Pending.calling.injEq] at hm
      subst hm
      have hbody : ((body b).expand impl).pending = .calling (start c') := by
        rw [pending_expand hstart, hp]
      have hnext : ∀ x : _ ⊕ _, (next body k x).expand impl =
          next (fun x => (body x).expand impl) (fun g => (k g).expand impl) x := by
        intro x
        cases x <;> rfl
      rw [expand, resume_loop hbody, ihbody b hp, bind_assoc]
      simp only [resume_loop hp, expand_bind, hnext]
    | undefined =>
      simp only [pending, hp] at hm
      cases hm

theorem Only.expand {p : C → Prop} {p' : C' → Prop} {u : Prop} {start : C → C'} (h : m.Only p u)
    (hstart : ∀ c, (impl c).pending = .calling (start c)) (himpl : ∀ c, p c → (impl c).Only p' u) :
    (m.expand impl).Only p' u := by
  induction m with
  | ret a => trivial
  | call c k ih => exact (himpl c h.1).bind fun r => ih r (h.2 r)
  | undefined => exact h
  | loop b body k ihbody ihk =>
    obtain ⟨hbody, hsound, hk⟩ := h
    refine ⟨fun b => ihbody b (hbody b), fun b b' hp => ?_, fun g => ihk g (hk g)⟩
    rw [pending_expand hstart] at hp
    cases hb : (body b).pending with
    | returned x =>
      rw [hb] at hp
      cases hp
      exact hsound b b' hb
    | calling c =>
      rw [hb] at hp
      cases hp
    | undefined =>
      rw [hb] at hp
      cases hp

/-- Code over some of the calls is code over all of them. -/
abbrev embed (f : C → C') (m : Code C R α) : Code C' R α := m.expand fun c => ask (f c)

/-- Code over some of the calls can be got back from it over all of them. -/
theorem expand_embed {f : C → C'} {g : C' → Code C R R} (hf : ∀ c, g (f c) = ask c)
    (m : Code C R α) : (m.embed f).expand g = m := by
  induction m with
  | ret a => rfl
  | call c k ih =>
    have hcall : ((call c k).embed f).expand g = (g (f c)).bind fun r => ((k r).embed f).expand g :=
      rfl
    rw [hcall, hf]
    exact congrArg (call c) (funext ih)
  | undefined => rfl
  | loop b body k ihbody ihk =>
    have hloop : ((loop b body k).embed f).expand g =
        loop b (fun x => ((body x).embed f).expand g) fun y => ((k y).embed f).expand g := rfl
    simp only [hloop, ihbody, ihk]

theorem pending_embed (f : C → C') (m : Code C R α) : (m.embed f).pending = match m.pending with
      | .returned a => .returned a
      | .calling c => .calling (f c)
      | .undefined => .undefined := pending_expand (fun _ => rfl) m

theorem resume_embed (f : C → C') {m : Code C R α} {c : C} (hm : m.pending = .calling c) (r : R) :
    (m.embed f).resume r = (m.resume r).embed f := resume_expand (fun _ => rfl) hm r

end Calls.Code
