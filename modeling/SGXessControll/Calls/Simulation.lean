import SGXessControll.Calls.Escape
import SGXessControll.Calls.Expand
import Mathlib.Logic.Relation

/-!
# One machine followed by another

Two ways in which the runs of one machine are runs of another: some of its threads become
part of the surroundings, or its threads make calls by code that the other machine answers at
once.
-/

namespace Calls

set_option autoImplicit false

variable {W V ι κ C R C' R' E F α : Type}

namespace Code

variable {p : C → Prop} {u : Prop} {m : Code C R α} {c : C}

theorem Only.calling (h : m.Only p u) (hm : m.pending = .calling c) : p c := by
  induction m with
  | ret a => cases hm
  | undefined => cases hm
  | call c' k _ =>
    cases hm
    exact h.1
  | loop b body k ihbody ihk =>
    obtain ⟨hbody, _, hk⟩ := h
    cases hp : (body b).pending with
    | returned x =>
      simp only [pending, hp] at hm
      cases x with
      | inl _ => cases hm
      | inr g => exact ihk g (hk g) hm
    | calling c' =>
      simp only [pending, hp, Pending.calling.injEq] at hm
      rw [hm] at hp
      exact ihbody b (hbody b) hp
    | undefined =>
      simp only [pending, hp] at hm
      cases hm

theorem Only.resume (h : m.Only p u) (hm : m.pending = .calling c) (r : R) :
    (m.resume r).Only p u := by
  induction m with
  | ret a => cases hm
  | undefined => cases hm
  | call c' k _ => exact h.2 r
  | loop b body k ihbody ihk =>
    obtain ⟨hbody, hsound, hk⟩ := h
    cases hp : (body b).pending with
    | returned x =>
      simp only [pending, hp] at hm
      cases x with
      | inl _ => cases hm
      | inr g =>
        simp only [Code.resume, hp]
        exact ihk g (hk g) hm
    | calling c' =>
      simp only [pending, hp, Pending.calling.injEq] at hm
      rw [hm] at hp
      rw [resume_loop hp]
      refine (ihbody b (hbody b) hp).bind fun x => ?_
      cases x with
      | inl b' => exact ⟨hbody, hsound, hk⟩
      | inr g => exact hk g
    | undefined =>
      simp only [pending, hp] at hm
      cases hm

/-- Wherever the code may come to stand, it makes a call of `p`. -/
def Makes (p : C → Prop) (m : Code C R α) : Prop :=
  ∀ n, m.Later n → ∀ c, n.pending = .calling c → p c

theorem Later.trans {n n' : Code C R α} (h : m.Later n) (h' : n.Later n') : m.Later n' := by
  induction h' with
  | refl => exact h
  | resume r _ hp ih => exact .resume r ih hp

theorem Makes.calling (h : m.Makes p) (hm : m.pending = .calling c) : p c := h m .refl c hm

theorem Makes.resume (h : m.Makes p) (hm : m.pending = .calling c) (r : R) : (m.resume r).Makes p :=
  fun n hn => h n (Later.trans (.resume r .refl hm) hn)

theorem Only.makes (h : m.Only p u) : m.Makes p := by
  have honly : ∀ n, m.Later n → n.Only p u := by
    intro n hn
    induction hn with
    | refl => exact h
    | resume r _ hp ih => exact ih.resume hp r
  exact fun n hn c hp => (honly n hn).calling hp

end Code

namespace Machine

theorem Reaches.later_code [DecidableEq ι] {M : Machine W ι C R E} {ok : W → ι → C → R → Prop}
    {s t : Config W ι C R α} (ht : M.Reaches ok s t) (i : ι) : (s.code i).Later (t.code i) := by
  induction ht with
  | refl => exact .refl
  | @reply t j c r _ _ hp _ _ ih =>
    by_cases hj : i = j
    · subst hj
      simp only [Function.update_self]
      exact .resume r ih hp
    · simp only [Function.update_of_ne hj]
      exact ih
  | move _ _ ih => exact ih

theorem Reaches.makes [DecidableEq ι] {M : Machine W ι C R E} {ok : W → ι → C → R → Prop}
    {s t : Config W ι C R α} {i : ι} {p : C → Prop} (ht : M.Reaches ok s t)
    (h : (s.code i).Makes p) : (t.code i).Makes p := by
  have hlater : (s.code i).Later (t.code i) := ht.later_code i
  exact fun n hn => h n (hlater.trans hn)

/-- What the surroundings alone make of a world. -/
def Drifts (N : Machine V κ C R F) : V → V → Prop :=
  Relation.ReflTransGen fun v v' => ∃ e, N.move v e = some v'

section Project

variable [DecidableEq ι] [DecidableEq κ]

theorem Reaches.drift {N : Machine V κ C R F} {ok : V → κ → C → R → Prop} {s t : Config V κ C R α}
    {v : V} (h : N.Reaches ok s t) (hv : N.Drifts t.world v) : N.Reaches ok s ⟨t.code, v⟩ := by
  induction hv with
  | refl => exact h
  | tail _ hmove ih =>
    obtain ⟨e, he⟩ := hmove
    exact ih.move he

/-- `N` has the threads that `f` picks out of those of `M`; what the others do, given that they
make only calls `p`, are moves of `N`. -/
structure Projects (M : Machine W ι C R E) (ok : W → ι → C → R → Prop) (N : Machine V κ C R F)
    (ok' : V → κ → C → R → Prop) (f : κ → ι) (p : ι → C → Prop) (Rel : W → V → Prop) : Prop where
  kept : ∀ {w v k c r w'}, Rel w v → p (f k) c → M.respond w (f k) c r = some w' →
    ok w (f k) c r → ∃ v', N.respond v k c r = some v' ∧ ok' v k c r ∧ Rel w' v'
  absorbed : ∀ {w v i c r w'}, Rel w v → (∀ k, f k ≠ i) → p i c → M.respond w i c r = some w' →
    ok w i c r → ∃ v', N.Drifts v v' ∧ Rel w' v'
  moved : ∀ {w v e w'}, Rel w v → M.move w e = some w' → ∃ v', N.Drifts v v' ∧ Rel w' v'

variable {M : Machine W ι C R E} {ok : W → ι → C → R → Prop} {N : Machine V κ C R F}
variable {ok' : V → κ → C → R → Prop} {f : κ → ι} {p : ι → C → Prop}
variable {Rel : W → V → Prop} {s t : Config W ι C R α} {v : V}

theorem Projects.reaches (h : M.Projects ok N ok' f p Rel) (hf : Function.Injective f)
    (hcode : ∀ i, (s.code i).Makes (p i)) (ht : M.Reaches ok s t) (hv : Rel s.world v) :
    ∃ v', N.Reaches ok' ⟨fun k => s.code (f k), v⟩ ⟨fun k => t.code (f k), v'⟩ ∧ Rel t.world v' ∧
      ∀ i, (t.code i).Makes (p i) := by
  induction ht with
  | refl => exact ⟨v, .refl, hv, hcode⟩
  | @reply t i c r w' _ hp hr hok ih =>
    obtain ⟨v', hreach, hrel, hmakes⟩ := ih
    have hrest : ∀ j, (Function.update t.code i ((t.code i).resume r) j).Makes (p j) := by
      intro j
      by_cases hj : j = i
      · subst hj
        rw [Function.update_self]
        exact (hmakes j).resume hp r
      · rw [Function.update_of_ne hj]
        exact hmakes j
    have hcall := (hmakes i).calling hp
    by_cases hi : ∃ k, f k = i
    · obtain ⟨k, rfl⟩ := hi
      obtain ⟨v₁, hanswer, hok', hrel'⟩ := h.kept hrel hcall hr hok
      refine ⟨v₁, ?_, hrel', hrest⟩
      have hupdate : (fun k' => Function.update t.code (f k) ((t.code (f k)).resume r) (f k')) =
          Function.update (fun k' => t.code (f k')) k ((t.code (f k)).resume r) :=
        Function.update_comp_eq_of_injective' t.code hf k _
      rw [hupdate]
      exact hreach.reply hp hanswer hok'
    · obtain ⟨v₁, hdrift, hrel'⟩ := h.absorbed hrel (fun k hk => hi ⟨k, hk⟩) hcall hr hok
      refine ⟨v₁, ?_, hrel', hrest⟩
      have hupdate : (fun k => Function.update t.code i ((t.code i).resume r) (f k)) =
          fun k => t.code (f k) := by
        funext k
        exact Function.update_of_ne (fun hk => hi ⟨k, hk⟩) _ _
      rw [hupdate]
      exact hreach.drift hdrift
  | move _ hm ih =>
    obtain ⟨v', hreach, hrel, hmakes⟩ := ih
    obtain ⟨v₁, hdrift, hrel'⟩ := h.moved hrel hm
    exact ⟨v₁, hreach.drift hdrift, hrel', hmakes⟩

end Project

section Implement

variable [DecidableEq ι] {impl : C → Code C' R' R}

/-- A thread that runs the code of its calls, beside one whose calls are answered at once: it
stands where that one stands, or the call that one has had answered by `r` is not done. -/
inductive Stands (impl : C → Code C' R' R) : Code C R α → Option (Code C' R' R × R) →
    Code C' R' α → Prop where
  | outside (m : Code C R α) : Stands impl m none (m.expand impl)
  | inside (m : Code C R α) (n : Code C' R' R) (r : R) :
      Stands impl (m.resume r) (some (n, r)) (n.bind fun r => (m.resume r).expand impl)

/-- What is left of a call that is to be answered by `r`. -/
inductive Left (r : R) : Code C' R' R → Option (Code C' R' R × R) → Prop where
  | done : Left r (.ret r) none
  | more (n : Code C' R' R) : Left r n (some (n, r))

theorem Left.stands {m : Code C R α} {n : Code C' R' R} {r : R}
    {rest : Option (Code C' R' R × R)} (h : Left r n rest) :
    Stands impl (m.resume r) rest (n.bind fun r => (m.resume r).expand impl) := by
  cases h with
  | done => exact .outside _
  | more n => exact .inside m n r

/-- `N` answers a call at once when the code of the call makes its first one on `M`. -/
structure Implements (M : Machine W ι C' R' E) (N : Machine V ι C R F)
    (impl : C → Code C' R' R) (start : C → C')
    (J : (ι → Option (Code C' R' R × R)) → W → V → Prop) : Prop where
  starts : ∀ c, (impl c).pending = .calling (start c)
  enter : ∀ {inside w v i c r' w'}, J inside w v → inside i = none →
    M.respond w i (start c) r' = some w' → ∃ r v' rest, N.respond v i c r = some v' ∧
      Left r ((impl c).resume r') rest ∧ J (Function.update inside i rest) w' v'
  stay : ∀ {inside w v i n r c' r' w'}, J inside w v → inside i = some (n, r) →
    n.pending = .calling c' → M.respond w i c' r' = some w' → ∃ rest,
      Left r (n.resume r') rest ∧ J (Function.update inside i rest) w' v
  waits : ∀ {inside w v i n r}, J inside w v → inside i = some (n, r) →
    ∃ c', n.pending = .calling c'
  moved : ∀ {inside w v e w'}, J inside w v → M.move w e = some w' →
    ∃ v', N.Drifts v v' ∧ J inside w' v'

variable {M : Machine W ι C' R' E} {N : Machine V ι C R F} {start : C → C'}
variable {J : (ι → Option (Code C' R' R × R)) → W → V → Prop} {code : ι → Code C R α}
variable {w : W} {v : V}

/-- Every run of the implementation is one of the machine that answers at once. -/
theorem Implements.reaches (h : M.Implements N impl start J) (hJ : J (fun _ => none) w v)
    {t : Config W ι C' R' α} (ht : M.Reaches any ⟨fun i => (code i).expand impl, w⟩ t) :
    ∃ u inside, N.Reaches any ⟨code, v⟩ u ∧ J inside t.world u.world ∧
      ∀ i, Stands impl (u.code i) (inside i) (t.code i) := by
  induction ht with
  | refl => exact ⟨_, _, .refl, hJ, fun i => .outside _⟩
  | @reply t i c' r' w' _ hp hr _ ih =>
    obtain ⟨u, inside, hreach, hrel, hstands⟩ := ih
    have others : ∀ (code' : Code C R α) (rest : Option (Code C' R' R × R)),
        Stands impl code' rest ((t.code i).resume r') →
        ∀ j, Stands impl (Function.update u.code i code' j) (Function.update inside i rest j)
          (Function.update t.code i ((t.code i).resume r') j) := by
      intro code' rest hi j
      by_cases hj : j = i
      · subst hj
        simpa only [Function.update_self] using hi
      · simpa only [Function.update_of_ne hj] using hstands j
    have hi := hstands i
    generalize hm : u.code i = m at hi
    generalize hrest : inside i = rest at hi
    generalize hn : t.code i = n at hi hp others
    cases hi with
    | outside m =>
      rw [Code.pending_expand h.starts] at hp
      cases hcall : m.pending with
      | returned a => rw [hcall] at hp; cases hp
      | undefined => rw [hcall] at hp; cases hp
      | calling c =>
        rw [hcall] at hp
        cases hp
        obtain ⟨r, v', rest, hanswer, hleft, hJ'⟩ := h.enter hrel hrest hr
        refine ⟨⟨Function.update u.code i ((u.code i).resume r), v'⟩, _, ?_, hJ', ?_⟩
        · exact hreach.reply (hm ▸ hcall) hanswer trivial
        · refine others _ _ ?_
          rw [hm, Code.resume_expand h.starts hcall]
          exact hleft.stands
    | inside m n r =>
      obtain ⟨d, hd⟩ := h.waits hrel hrest
      rw [Code.pending_bind, hd] at hp
      cases hp
      obtain ⟨rest, hleft, hJ'⟩ := h.stay hrel hrest hd hr
      refine ⟨u, _, hreach, hJ', ?_⟩
      have hcode : (n.bind fun r => (m.resume r).expand impl).resume r' =
          (n.resume r').bind fun r => (m.resume r).expand impl := by
        rw [Code.resume_bind, hd]
      have hstay := others (m.resume r) rest (hcode ▸ hleft.stands)
      rwa [← hm, Function.update_eq_self] at hstay
  | move _ hm ih =>
    obtain ⟨u, inside, hreach, hrel, hstands⟩ := ih
    obtain ⟨v', hdrift, hJ'⟩ := h.moved hrel hm
    exact ⟨⟨u.code, v'⟩, inside, hreach.drift hdrift, hJ', hstands⟩

end Implement

end Machine

end Calls
