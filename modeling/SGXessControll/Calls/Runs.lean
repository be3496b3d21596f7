import SGXessControll.Calls.Machine

/-!
# Runs of one thread, put together along its code

`Leads m w m' v` says that a thread running `m` in the world `w` can get to where `m'`
remains, in the world `v`.
-/

namespace Calls.Machine

set_option autoImplicit false

variable {W C R E α β γ : Type} {M : Machine W Unit C R E}
variable {ok : W → Unit → C → R → Prop} {w v u : W}

def Leads (M : Machine W Unit C R E) (ok : W → Unit → C → R → Prop) (m : Code C R α) (w : W)
    (m' : Code C R α) (v : W) : Prop :=
  M.Reaches ok (solo m w) (solo m' v)

theorem update_solo (m m' : Code C R α) (w : W) :
    Function.update (solo m w).code () m' = fun _ => m' := by
  funext i
  exact Function.update_self _ _ _

theorem Leads.refl (m : Code C R α) (w : W) : M.Leads ok m w m w := Reaches.refl

theorem Leads.trans {m m' m'' : Code C R α} (h : M.Leads ok m w m' v)
    (h' : M.Leads ok m' v m'' u) : M.Leads ok m w m'' u := Reaches.trans h h'

theorem leads_reply {m : Code C R α} {c : C} {r : R} (hp : m.pending = .calling c)
    (hr : M.respond w () c r = some v) (hok : ok w () c r) :
    M.Leads ok m w (m.resume r) v := by
  have h := Reaches.reply (s := solo m w) (i := ()) .refl hp hr hok
  rwa [update_solo] at h

theorem leads_move {m : Code C R α} {e : E} (h : M.move w e = some v) : M.Leads ok m w m v :=
  Reaches.move .refl h

theorem leads_ask {c : C} {r : R} (hr : M.respond w () c r = some v) (hok : ok w () c r) :
    M.Leads ok (Code.ask c) w (.ret r) v := leads_reply rfl hr hok

theorem Leads.bind {m m' : Code C R α} (h : M.Leads ok m w m' v) (f : α → Code C R β) :
    M.Leads ok (m.bind f) w (m'.bind f) v := by
  have lift : ∀ t, M.Reaches ok (solo m w) t →
      M.Leads ok (m.bind f) w ((t.code ()).bind f) t.world := by
    intro t ht
    induction ht with
    | refl => exact .refl _ _
    | @reply t i c r v _ hp hr hok ih =>
      cases i
      have hpend : ((t.code ()).bind f).pending = .calling c := by
        rw [Code.pending_bind, hp]
      have hstep := leads_reply hpend hr hok
      rw [Code.resume_bind, hp] at hstep
      simpa only [Function.update_self] using ih.trans hstep
    | move _ hm ih => exact ih.trans (leads_move hm)
  exact lift _ h

theorem Leads.andThen {m : Code C R α} {a : α} {f : α → Code C R β} {m' : Code C R β}
    (h : M.Leads ok m w (.ret a) v) (hf : M.Leads ok (f a) v m' u) :
    M.Leads ok (m.bind f) w m' u := (h.bind f).trans hf

theorem leads_forM {f : β → Code C R PUnit} {g : W → β → W} (list : List β)
    (hf : ∀ x w, M.Leads ok (f x) w (.ret ⟨⟩) (g w x)) :
    ∀ w, M.Leads ok (list.forM f) w (.ret ⟨⟩) (list.foldl g w) := by
  induction list with
  | nil => exact fun w => .refl _ _
  | cons x list ih => exact fun w => (hf x w).andThen (ih (g w x))

theorem leads_loop {b : β} {body : β → Code C R (β ⊕ γ)} {k : γ → Code C R α} {c : C} {r : R}
    {n : Code C R (β ⊕ γ)} (hp : (body b).pending = .calling c)
    (hr : M.respond w () c r = some v) (hok : ok w () c r)
    (h : M.Leads ok ((body b).resume r) v n u) :
    M.Leads ok (.loop b body k) w (n.bind (Code.next body k)) u := by
  have hpend : (Code.loop b body k).pending = .calling c := by
    simp only [Code.pending, hp]
  have hstep := leads_reply hpend hr hok
  rw [Code.resume_loop hp] at hstep
  exact hstep.trans (h.bind _)

/-- A loop that is left in its first round without a call runs as what is behind it. -/
theorem Leads.left {b : β} {body : β → Code C R (β ⊕ γ)} {k : γ → Code C R α} {g : γ} {a : α}
    (hbody : body b = .ret (.inr g)) (h : M.Leads ok (k g) w (.ret a) v) :
    ∃ t, M.Reaches ok (solo (.loop b body k) w) t ∧ (t.code ()).pending = .returned a ∧
      t.world = v := by
  have lift : ∀ t, M.Reaches ok (solo (k g) w) t →
      ∃ m, M.Leads ok (.loop b body k) w m t.world ∧ m.pending = (t.code ()).pending ∧
        ∀ r, m.resume r = (t.code ()).resume r := by
    intro t ht
    induction ht with
    | refl =>
      refine ⟨_, .refl _ _, ?_, fun r => ?_⟩
      · simp only [Code.pending, hbody]
      · simp only [Code.resume, Code.pending, hbody]
    | @reply t i c r w _ hp hr hok ih =>
      cases i
      obtain ⟨m, hleads, hpending, hresume⟩ := ih
      have hstep := leads_reply (hpending.trans hp) hr hok
      refine ⟨_, hleads.trans hstep, ?_, fun r' => ?_⟩
      · simp only [Function.update_self, hresume]
      · simp only [Function.update_self, hresume]
    | move _ hm ih =>
      obtain ⟨m, hleads, hpending, hresume⟩ := ih
      exact ⟨m, hleads.trans (leads_move hm), hpending, hresume⟩
  obtain ⟨m, hleads, hpending, _⟩ := lift _ h
  exact ⟨_, hleads, hpending, rfl⟩

theorem leads_doWhile {c : C} {again : R → Bool} {r : R} (hr : M.respond w () c r = some v)
    (hok : ok w () c r) (hagain : again r = false) :
    M.Leads ok (Code.doWhile c again) w (.ret r) v := by
  refine leads_loop (n := .ret (.inr r)) rfl hr hok ?_
  have hbody : (Code.call c fun r => Code.ret (C := C) (R := R)
      (if again r = true then Sum.inl () else Sum.inr r)).resume r = .ret (.inr r) := by
    simp only [Code.resume, hagain, Bool.false_eq_true, if_false]
  exact hbody ▸ .refl _ _

section Thread

variable {ι : Type} {N : Machine W ι C R E} {i : ι}

/-- The machine as thread `i` has it to itself. -/
def thread (N : Machine W ι C R E) (i : ι) : Machine W Unit C R E :=
  ⟨fun w _ c r => N.respond w i c r, N.move⟩

/-- What one thread does while the others wait. -/
theorem Leads.of_thread [DecidableEq ι] {m m' : Code C R α} (h : (N.thread i).Leads any m w m' v)
    {code : ι → Code C R α} (hcode : code i = m) : ∃ t, N.Reaches any ⟨code, w⟩ t ∧
      t.code i = m' ∧ (∀ j, j ≠ i → t.code j = code j) ∧ t.world = v := by
  have lift : ∀ t, (N.thread i).Reaches any (solo m w) t →
      N.Reaches any ⟨code, w⟩ ⟨Function.update code i (t.code ()), t.world⟩ := by
    intro t ht
    induction ht with
    | refl =>
      rw [← hcode, Function.update_eq_self]
      exact .refl
    | @reply t j c r v _ hp hr _ ih =>
      have hpend : (Function.update code i (t.code ()) i).pending = .calling c := by
        rw [Function.update_self]
        exact hp
      have hstep := ih.reply hpend hr trivial
      cases j
      simpa only [Function.update_self, Function.update_idem] using hstep
    | move _ hm ih => exact ih.move hm
  exact ⟨_, lift _ h, Function.update_self .., fun j hj => Function.update_of_ne hj _ _, rfl⟩

end Thread

end Calls.Machine
