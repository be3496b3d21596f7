import Mathlib.Logic.Basic

/-!
# Computations that throw

A computation changes a state and returns a value or throws. What it wrote before it threw
stays written. An operation that is used where nothing is promised of it goes on, and the
outcome notes it.
-/

namespace Attempts

set_option autoImplicit false

/-- What a run left behind; `strayed` notes an operation outside its promises. -/
structure Outcome (ε σ α : Type) where
  result : Except ε α
  state : σ
  strayed : Bool

def Attempt (ε σ α : Type) : Type := σ → Outcome ε σ α

namespace Attempt

variable {ε σ τ α β : Type}

def ret (a : α) : Attempt ε σ α := fun s => ⟨.ok a, s, false⟩

def throw (e : ε) : Attempt ε σ α := fun s => ⟨.error e, s, false⟩

def stray : Attempt ε σ Unit := fun s => ⟨.ok (), s, true⟩

def modify (f : σ → σ) : Attempt ε σ Unit := fun s => ⟨.ok (), f s, false⟩

def bind (x : Attempt ε σ α) (f : α → Attempt ε σ β) : Attempt ε σ β := fun s =>
  match x s with
  | ⟨.ok a, s', strayed⟩ =>
    let next := f a s'
    ⟨next.result, next.state, strayed || next.strayed⟩
  | ⟨.error e, s', strayed⟩ => ⟨.error e, s', strayed⟩

instance : Monad (Attempt ε σ) where
  pure := ret
  bind := bind

/-- `try { x } catch { y }` for the exceptions with `handles`. -/
def catching (handles : ε → Bool) (x y : Attempt ε σ α) : Attempt ε σ α := fun s =>
  match x s with
  | ⟨.ok a, s', strayed⟩ => ⟨.ok a, s', strayed⟩
  | ⟨.error e, s', strayed⟩ =>
    if handles e = true then
      let next := y s'
      ⟨next.result, next.state, strayed || next.strayed⟩
    else
      ⟨.error e, s', strayed⟩

/-- `x` on a part of the state. -/
def on (get : σ → τ) (put : τ → σ → σ) (x : Attempt ε τ α) : Attempt ε σ α := fun s =>
  let next := x (get s)
  ⟨next.result, put next.state s, next.strayed⟩

@[simp] theorem bind_eq (x : Attempt ε σ α) (f : α → Attempt ε σ β) : x >>= f = x.bind f := rfl

@[simp] theorem pure_eq (a : α) : (pure a : Attempt ε σ α) = ret a := rfl

/-- From `s` a value is returned, without a stray operation. -/
def Returns (x : Attempt ε σ α) (s : σ) (a : α) (s' : σ) : Prop := x s = ⟨.ok a, s', false⟩

/-- From `s` something is thrown, without a stray operation before. -/
def Throws (x : Attempt ε σ α) (s : σ) (e : ε) (s' : σ) : Prop := x s = ⟨.error e, s', false⟩

/-- From `s` some value is returned: nothing is thrown, and nothing strays. -/
def Settles (x : Attempt ε σ α) (s : σ) : Prop := ∃ a s', x.Returns s a s'

/-- `x` throws `e` from no state. -/
def Avoids (x : Attempt ε σ α) (e : ε) : Prop := ∀ s s', ¬ x.Throws s e s'

variable {x y : Attempt ε σ α} {f : α → Attempt ε σ β} {s s' s'' : σ} {a : α} {b : β} {e : ε}

theorem Returns.unique {a' : α} (h : x.Returns s a s') (h' : x.Returns s a' s'') :
    a = a' ∧ s' = s'' := by
  have heq := h.symm.trans h'
  simp only [Outcome.mk.injEq, Except.ok.injEq, and_true] at heq
  exact heq

theorem Returns.settles (h : x.Returns s a s') : x.Settles s := ⟨a, s', h⟩

@[simp] theorem returns_ret {a' : α} :
    (ret a : Attempt ε σ α).Returns s a' s' ↔ a' = a ∧ s' = s := by
  simp [Returns, ret, eq_comm]

@[simp] theorem settles_ret : (ret a : Attempt ε σ α).Settles s := ⟨a, s, by simp⟩

@[simp] theorem not_returns_throw : ¬ (throw e : Attempt ε σ α).Returns s a s' := by
  simp [Returns, throw]

@[simp] theorem throws_throw {e' : ε} :
    (throw e : Attempt ε σ α).Throws s e' s' ↔ e' = e ∧ s' = s := by
  simp [Throws, throw, eq_comm]

@[simp] theorem not_settles_throw : ¬ (throw e : Attempt ε σ α).Settles s := by
  simp [Settles]

@[simp] theorem not_throws_ret : ¬ (ret a : Attempt ε σ α).Throws s e s' := by
  simp [Throws, ret]

@[simp] theorem not_returns_stray {u : Unit} : ¬ (stray : Attempt ε σ Unit).Returns s u s' := by
  simp [Returns, stray]

@[simp] theorem not_throws_modify {g : σ → σ} : ¬ (modify g : Attempt ε σ Unit).Throws s e s' := by
  simp [Throws, modify]

@[simp] theorem returns_modify {g : σ → σ} {u : Unit} :
    (modify g : Attempt ε σ Unit).Returns s u s' ↔ s' = g s := by
  simp [Returns, modify, eq_comm]

theorem returns_bind : (x.bind f).Returns s b s'' ↔
    ∃ a s', x.Returns s a s' ∧ (f a).Returns s' b s'' := by
  constructor
  · intro h
    unfold Returns bind at h
    split at h
    · rename_i a s' strayed hx
      simp only [Outcome.mk.injEq, Bool.or_eq_false_iff] at h
      obtain ⟨hresult, hstate, hstrayed, hnext⟩ := h
      subst hstrayed
      refine ⟨a, s', hx, ?_⟩
      rw [Returns, ← hresult, ← hstate, ← hnext]
    · cases h
  · intro h
    obtain ⟨a, s', hx, hf⟩ := h
    simp only [Returns, bind] at hx hf ⊢
    rw [hx]
    simp only [hf, Bool.or_self]

theorem throws_bind : (x.bind f).Throws s e s'' ↔
    x.Throws s e s'' ∨ ∃ a s', x.Returns s a s' ∧ (f a).Throws s' e s'' := by
  constructor
  · intro h
    unfold Throws bind at h
    split at h
    · rename_i a s' strayed hx
      simp only [Outcome.mk.injEq, Bool.or_eq_false_iff] at h
      obtain ⟨hresult, hstate, hstrayed, hnext⟩ := h
      subst hstrayed
      refine .inr ⟨a, s', hx, ?_⟩
      rw [Throws, ← hresult, ← hstate, ← hnext]
    · rename_i e' s' strayed hx
      simp only [Outcome.mk.injEq, Except.error.injEq] at h
      obtain ⟨rfl, rfl, rfl⟩ := h
      exact .inl hx
  · intro h
    rcases h with hx | ⟨a, s', hx, hf⟩
    · simp only [Throws, bind] at hx ⊢
      rw [hx]
    · simp only [Returns, Throws, bind] at hx hf ⊢
      rw [hx]
      simp only [hf, Bool.or_self]

theorem settles_bind_exists : (x.bind f).Settles s ↔
    ∃ a s', x.Returns s a s' ∧ (f a).Settles s' := by
  constructor
  · intro h
    obtain ⟨b, s'', h⟩ := h
    obtain ⟨a, s', hx, hf⟩ := returns_bind.mp h
    exact ⟨a, s', hx, hf.settles⟩
  · intro h
    obtain ⟨a, s', hx, b, s'', hf⟩ := h
    exact ⟨b, s'', returns_bind.mpr ⟨a, s', hx, hf⟩⟩

theorem Returns.settles_bind (hx : x.Returns s a s') :
    (x.bind f).Settles s ↔ (f a).Settles s' := by
  rw [settles_bind_exists]
  constructor
  · intro h
    obtain ⟨a', s'', hx', hf⟩ := h
    obtain ⟨rfl, rfl⟩ := hx.unique hx'
    exact hf
  · exact fun hf => ⟨a, s', hx, hf⟩

theorem settles_bind : (x.bind f).Settles s ↔
    x.Settles s ∧ ∀ a s', x.Returns s a s' → (f a).Settles s' := by
  constructor
  · intro h
    obtain ⟨a, s', hx, _⟩ := settles_bind_exists.mp h
    exact ⟨hx.settles, fun _ _ hx' => hx'.settles_bind.mp h⟩
  · intro h
    obtain ⟨⟨a, s', hx⟩, hf⟩ := h
    exact hx.settles_bind.mpr (hf a s' hx)

theorem returns_catching {handles : ε → Bool} : (catching handles x y).Returns s a s'' ↔
    x.Returns s a s'' ∨ ∃ e s', x.Throws s e s' ∧ handles e = true ∧ y.Returns s' a s'' := by
  constructor
  · intro h
    unfold Returns catching at h
    split at h
    · rename_i hx
      exact .inl (hx.trans h)
    · rename_i e s' strayed hx
      split at h
      · rename_i hhandles
        simp only [Outcome.mk.injEq, Bool.or_eq_false_iff] at h
        obtain ⟨hresult, hstate, hstrayed, hnext⟩ := h
        subst hstrayed
        refine .inr ⟨e, s', hx, hhandles, ?_⟩
        rw [Returns, ← hresult, ← hstate, ← hnext]
      · cases h
  · intro h
    rcases h with hx | ⟨e, s', hx, hhandles, hy⟩
    · simp only [Returns, catching] at hx ⊢
      rw [hx]
    · simp only [Returns, Throws, catching] at hx hy ⊢
      rw [hx]
      simp only [hhandles, if_true, hy, Bool.or_self]

theorem settles_on {get : σ → τ} {put : τ → σ → σ} {x : Attempt ε τ α} :
    (x.on get put).Settles s ↔ x.Settles (get s) := by
  constructor
  · intro h
    obtain ⟨a, s', h⟩ := h
    simp only [Returns, on, Outcome.mk.injEq] at h
    refine ⟨a, (x (get s)).state, ?_⟩
    rw [Returns, ← h.1, ← h.2.2]
  · intro h
    obtain ⟨a, s', h⟩ := h
    refine ⟨a, put s' s, ?_⟩
    simp only [Returns, on] at h ⊢
    rw [h]

theorem settles_catching {handles : ε → Bool} : (catching handles x y).Settles s ↔
    x.Settles s ∨ ∃ e s', x.Throws s e s' ∧ handles e = true ∧ y.Settles s' := by
  constructor
  · intro h
    obtain ⟨a, s'', h⟩ := h
    rcases returns_catching.mp h with hx | ⟨e, s', hthrows, hhandles, hy⟩
    · exact .inl hx.settles
    · exact .inr ⟨e, s', hthrows, hhandles, hy.settles⟩
  · intro h
    rcases h with ⟨a, s', hx⟩ | ⟨e, s', hthrows, hhandles, a, s'', hy⟩
    · exact ⟨a, s', returns_catching.mpr (.inl hx)⟩
    · exact ⟨a, s'', returns_catching.mpr (.inr ⟨e, s', hthrows, hhandles, hy⟩)⟩

theorem settles_catching_of_avoids {handles : ε → Bool}
    (havoids : ∀ e, handles e = true → x.Avoids e) :
    (catching handles x y).Settles s ↔ x.Settles s := by
  rw [settles_catching, or_iff_left]
  intro h
  obtain ⟨e, s', hthrows, hhandles, _⟩ := h
  exact havoids e hhandles s s' hthrows

/-- A loop over `xs` where the state does not decide whether a round settles. -/
theorem settles_forM {xs : List β} {body : β → Attempt ε σ Unit} {P : β → Prop}
    (hbody : ∀ b s, (body b).Settles s ↔ P b) : (forM xs body).Settles s ↔ ∀ b ∈ xs, P b := by
  induction xs generalizing s with
  | nil => simp
  | cons b xs ih =>
    rw [List.forM_cons, bind_eq, settles_bind, List.forall_mem_cons, hbody]
    constructor
    · intro h
      obtain ⟨hb, hrest⟩ := h
      obtain ⟨u, s', hreturns⟩ := (hbody b s).mpr hb
      exact ⟨hb, ih.mp (hrest u s' hreturns)⟩
    · intro h
      obtain ⟨hb, hrest⟩ := h
      exact ⟨hb, fun _ _ _ => ih.mpr hrest⟩

@[simp] theorem avoids_ret : (ret a : Attempt ε σ α).Avoids e := fun _ _ => not_throws_ret

theorem avoids_throw {e' : ε} (hne : e ≠ e') : (throw e' : Attempt ε σ α).Avoids e := by
  intro s s' h
  exact hne (throws_throw.mp h).1

@[simp] theorem avoids_stray : (stray : Attempt ε σ Unit).Avoids e := by
  intro s s' h
  simp [Throws, stray] at h

theorem avoids_bind (hx : x.Avoids e) (hf : ∀ a, (f a).Avoids e) : (x.bind f).Avoids e := by
  intro s s' h
  rcases throws_bind.mp h with hthrows | ⟨a, s1, _, hthrows⟩
  · exact hx s s' hthrows
  · exact hf a s1 s' hthrows

theorem avoids_forM {xs : List β} {body : β → Attempt ε σ Unit}
    (hbody : ∀ b, (body b).Avoids e) : (forM xs body : Attempt ε σ PUnit).Avoids e := by
  induction xs with
  | nil => exact avoids_ret
  | cons b xs ih =>
    rw [List.forM_cons]
    exact avoids_bind (hbody b) fun _ => ih

/-- From `s` the run ends with `r` and leaves `s'`, straying or not. -/
def Ends (x : Attempt ε σ α) (s : σ) (r : Except ε α) (s' : σ) : Prop :=
  (x s).result = r ∧ (x s).state = s'

/-- `x` leaves every state as it is. -/
def Keeps (x : Attempt ε σ α) : Prop := ∀ s, (x s).state = s

section Ends

variable {r : Except ε α}

theorem ends_self (x : Attempt ε σ α) (s : σ) : x.Ends s (x s).result (x s).state := ⟨rfl, rfl⟩

theorem Ends.unique {r' : Except ε α} (h : x.Ends s r s') (h' : x.Ends s r' s'') :
    r = r' ∧ s' = s'' :=
  ⟨h.1.symm.trans h'.1, h.2.symm.trans h'.2⟩

theorem Returns.ends (h : x.Returns s a s') : x.Ends s (.ok a) s' := by
  rw [Returns] at h
  rw [Ends, h]
  exact ⟨rfl, rfl⟩

theorem Throws.ends (h : x.Throws s e s') : x.Ends s (.error e) s' := by
  rw [Throws] at h
  rw [Ends, h]
  exact ⟨rfl, rfl⟩

theorem ends_ret : (ret a : Attempt ε σ α).Ends s (.ok a) s := ⟨rfl, rfl⟩

theorem ends_throw : (throw e : Attempt ε σ α).Ends s (.error e) s := ⟨rfl, rfl⟩

@[simp] theorem ends_ret_iff : (ret a : Attempt ε σ α).Ends s r s' ↔ r = .ok a ∧ s' = s := by
  simp [Ends, ret, eq_comm]

@[simp] theorem ends_throw_iff :
    (throw e : Attempt ε σ α).Ends s r s' ↔ r = .error e ∧ s' = s := by
  simp [Ends, throw, eq_comm]

theorem Ends.bind {r : Except ε β} (hx : x.Ends s (.ok a) s') (hf : (f a).Ends s' r s'') :
    (x.bind f).Ends s r s'' := by
  obtain ⟨hresult, hstate⟩ := hx
  unfold Ends Attempt.bind
  split
  · rename_i hrun
    rw [hrun] at hresult hstate
    cases hresult
    cases hstate
    exact hf
  · rename_i hrun
    rw [hrun] at hresult
    cases hresult

theorem Ends.bind_error (hx : x.Ends s (.error e) s') : (x.bind f).Ends s (.error e) s' := by
  obtain ⟨hresult, hstate⟩ := hx
  unfold Ends Attempt.bind
  split
  · rename_i hrun
    rw [hrun] at hresult
    cases hresult
  · rename_i hrun
    rw [hrun] at hresult hstate
    cases hresult
    exact ⟨rfl, hstate⟩

theorem Ends.caught {handles : ε → Bool} (hx : x.Ends s (.error e) s')
    (hhandles : handles e = true) (hy : y.Ends s' r s'') : (catching handles x y).Ends s r s'' := by
  obtain ⟨hresult, hstate⟩ := hx
  unfold Ends catching
  split
  · rename_i hrun
    rw [hrun] at hresult
    cases hresult
  · rename_i hrun
    rw [hrun] at hresult hstate
    cases hresult
    cases hstate
    rw [if_pos hhandles]
    exact hy

theorem Ends.uncaught {handles : ε → Bool} (hx : x.Ends s r s')
    (hhandles : ∀ e, r = .error e → handles e = false) : (catching handles x y).Ends s r s' := by
  obtain ⟨hresult, hstate⟩ := hx
  unfold Ends catching
  split
  · rename_i hrun
    rw [hrun] at hresult hstate
    exact ⟨hresult, hstate⟩
  · rename_i e _ _ hrun
    rw [hrun] at hresult hstate
    rw [if_neg (by simp [hhandles e hresult.symm])]
    exact ⟨hresult, hstate⟩

theorem ends_bind_ok : (x.bind f).Ends s (.ok b) s'' ↔
    ∃ a s', x.Ends s (.ok a) s' ∧ (f a).Ends s' (.ok b) s'' := by
  constructor
  · intro h
    cases hresult : (x s).result with
    | ok a =>
      have hx : x.Ends s (.ok a) (x s).state := ⟨hresult, rfl⟩
      obtain ⟨hr, hs⟩ := h.unique (hx.bind (ends_self (f a) (x s).state))
      exact ⟨a, _, hx, hr.symm, hs.symm⟩
    | error e =>
      have hx : x.Ends s (.error e) (x s).state := ⟨hresult, rfl⟩
      cases (h.unique hx.bind_error).1
  · intro h
    obtain ⟨a, s', hx, hf⟩ := h
    exact hx.bind hf

/-- A handler that only returns `a` takes the place of some exceptions. -/
theorem Ends.catching_ret {handles : ε → Bool} (hx : x.Ends s r s') :
    ∃ r', (catching handles x (ret a)).Ends s r' s' ∧
      (r' = r ∨ (∃ e, r = .error e) ∧ r' = .ok a) := by
  by_cases hcaught : ∃ e, r = .error e ∧ handles e = true
  · obtain ⟨e, rfl, hhandles⟩ := hcaught
    exact ⟨.ok a, hx.caught hhandles ends_ret, .inr ⟨⟨e, rfl⟩, rfl⟩⟩
  · refine ⟨r, hx.uncaught fun e hr => ?_, .inl rfl⟩
    exact Bool.eq_false_iff.mpr fun hhandles => hcaught ⟨e, hr, hhandles⟩

end Ends

section Keeps

@[simp] theorem keeps_ret : (ret a : Attempt ε σ α).Keeps := fun _ => rfl

@[simp] theorem keeps_throw : (throw e : Attempt ε σ α).Keeps := fun _ => rfl

@[simp] theorem keeps_stray : (stray : Attempt ε σ Unit).Keeps := fun _ => rfl

theorem Keeps.ends (hx : x.Keeps) : x.Ends s (x s).result s := ⟨rfl, hx s⟩

theorem keeps_bind (hx : x.Keeps) (hf : ∀ a, (f a).Keeps) : (x.bind f).Keeps := by
  intro s
  cases hresult : (x s).result with
  | ok a =>
    have hrun : x.Ends s (.ok a) s := ⟨hresult, hx s⟩
    exact (hrun.bind (hf a).ends).2
  | error e =>
    have hrun : x.Ends s (.error e) s := ⟨hresult, hx s⟩
    exact hrun.bind_error.2

theorem keeps_on {get : σ → τ} {put : τ → σ → σ} {x : Attempt ε τ α} (hx : x.Keeps)
    (hput : ∀ s, put (get s) s = s) : (x.on get put).Keeps := by
  intro s
  simp only [on]
  rw [hx (get s), hput]

theorem keeps_catching {handles : ε → Bool} (hx : x.Keeps) (hy : y.Keeps) :
    (catching handles x y).Keeps := by
  intro s
  have hrun := hx.ends (s := s)
  by_cases hcaught : ∃ e, (x s).result = .error e ∧ handles e = true
  · obtain ⟨e, hresult, hhandles⟩ := hcaught
    rw [hresult] at hrun
    exact (hrun.caught hhandles hy.ends).2
  · refine (hrun.uncaught fun e hresult => ?_).2
    exact Bool.eq_false_iff.mpr fun hhandles => hcaught ⟨e, hresult, hhandles⟩

theorem keeps_forM {xs : List β} {body : β → Attempt ε σ Unit} (hbody : ∀ b, (body b).Keeps) :
    (forM xs body : Attempt ε σ PUnit).Keeps := by
  induction xs with
  | nil => exact keeps_ret
  | cons b xs ih =>
    rw [List.forM_cons]
    exact keeps_bind (hbody b) fun _ => ih

end Keeps

end Attempt

end Attempts
