import SGXessControll.Calls.Code

/-!
# Machines that answer calls

A machine holds the world several threads share and says which answers to a call are
possible and what each of them does to the world. Threads move one answered call at a
time, in any order; around them the world may move by itself.
-/

namespace Calls

set_option autoImplicit false

structure Machine (W ι C R E : Type) where
  respond : W → ι → C → R → Option W
  move : W → E → Option W

structure Config (W ι C R α : Type) : Type 1 where
  code : ι → Code C R α
  world : W

inductive Event (ι R E : Type) where
  | reply (i : ι) (r : R)
  | move (e : E)

/-- One thread alone. -/
abbrev solo {W C R α : Type} (m : Code C R α) (w : W) : Config W Unit C R α := ⟨fun _ => m, w⟩

namespace Machine

variable {W ι C R E α : Type} [DecidableEq ι]

def step (M : Machine W ι C R E) (s : Config W ι C R α) : Event ι R E → Option (Config W ι C R α)
  | .reply i r =>
    match (s.code i).pending with
    | .calling c => (M.respond s.world i c r).map fun w =>
        ⟨Function.update s.code i ((s.code i).resume r), w⟩
    | _ => none
  | .move e => (M.move s.world e).map fun w => ⟨s.code, w⟩

def run (M : Machine W ι C R E) :
    Config W ι C R α → List (Event ι R E) → Option (Config W ι C R α)
  | s, [] => some s
  | s, e :: es => (M.step s e).bind fun t => M.run t es

/-- `t` is reached from `s` by a run all of whose answers are as `ok` asks. -/
inductive Reaches (M : Machine W ι C R E) (ok : W → ι → C → R → Prop)
    (s : Config W ι C R α) : Config W ι C R α → Prop where
  | refl : Reaches M ok s s
  | reply {t : Config W ι C R α} {i : ι} {c : C} {r : R} {w : W} :
      Reaches M ok s t → (t.code i).pending = .calling c →
      M.respond t.world i c r = some w → ok t.world i c r →
      Reaches M ok s ⟨Function.update t.code i ((t.code i).resume r), w⟩
  | move {t : Config W ι C R α} {e : E} {w : W} :
      Reaches M ok s t → M.move t.world e = some w → Reaches M ok s ⟨t.code, w⟩

variable {M : Machine W ι C R E} {ok : W → ι → C → R → Prop} {s t u : Config W ι C R α}

theorem Reaches.trans (hst : M.Reaches ok s t) (htu : M.Reaches ok t u) : M.Reaches ok s u := by
  induction htu with
  | refl => exact hst
  | reply _ hp hr hok ih => exact .reply ih hp hr hok
  | move _ hm ih => exact .move ih hm

abbrev any : W → ι → C → R → Prop := fun _ _ _ _ => True

theorem reaches_of_step {e : Event ι R E} (h : M.step s e = some t) : M.Reaches any s t := by
  cases e with
  | reply i r =>
    simp only [step] at h
    split at h
    · rename_i c hp
      obtain ⟨w, hw, rfl⟩ := Option.map_eq_some_iff.mp h
      exact .reply .refl hp hw trivial
    · cases h
  | move e =>
    obtain ⟨w, hw, rfl⟩ := Option.map_eq_some_iff.mp h
    exact .move .refl hw

theorem reaches_of_run {es : List (Event ι R E)} (h : M.run s es = some t) :
    M.Reaches any s t := by
  induction es generalizing s with
  | nil =>
    cases h
    exact .refl
  | cons e es ih =>
    obtain ⟨s', hs, hrest⟩ := Option.bind_eq_some_iff.mp h
    exact (reaches_of_step hs).trans (ih hrest)

theorem run_append {es es' : List (Event ι R E)} (h : M.run s es = some t)
    (h' : M.run t es' = some u) : M.run s (es ++ es') = some u := by
  induction es generalizing s with
  | nil =>
    cases h
    exact h'
  | cons e es ih =>
    obtain ⟨s', hstep, hrun⟩ := Option.bind_eq_some_iff.mp h
    rw [List.cons_append, run, hstep]
    exact ih hrun

/-- The events are all answers to one thread. -/
def OnlyBy (i : ι) (es : List (Event ι R E)) : Prop := ∀ e ∈ es, ∃ r, e = .reply i r

theorem step_code {e : Event ι R E} {j : ι} (h : M.step s e = some t) (hj : ∀ r, e ≠ .reply j r) :
    t.code j = s.code j := by
  cases e with
  | reply i r =>
    simp only [step] at h
    split at h
    · obtain ⟨w, _, rfl⟩ := Option.map_eq_some_iff.mp h
      exact Function.update_of_ne (fun hji => hj r (by rw [hji])) _ _
    · cases h
  | move e =>
    obtain ⟨w, _, rfl⟩ := Option.map_eq_some_iff.mp h
    rfl

/-- A thread without an answer stays where it is. -/
theorem run_code {j : ι} {es : List (Event ι R E)} (h : M.run s es = some t)
    (hj : ∀ e ∈ es, ∀ r, e ≠ .reply j r) : t.code j = s.code j := by
  induction es generalizing s with
  | nil =>
    cases h
    rfl
  | cons e es ih =>
    obtain ⟨s', hstep, hrun⟩ := Option.bind_eq_some_iff.mp h
    have hrest := ih hrun fun e he => hj e (List.mem_cons_of_mem _ he)
    exact hrest.trans (step_code hstep (hj e List.mem_cons_self))

theorem run_by {i j : ι} {es : List (Event ι R E)} (hes : OnlyBy i es) (hj : j ≠ i)
    (h : M.run s es = some t) : t.code j = s.code j := by
  refine run_code h fun e he r hr => ?_
  obtain ⟨r', rfl⟩ := hes e he
  cases hr
  exact hj rfl

/-- What can be seen of thread `i` and the world after a run. -/
def observe {V : Type} (M : Machine W ι C R E) (see : W → V) (s : Config W ι C R α)
    (es : List (Event ι R E)) (i : ι) : Option (Pending C α × V) :=
  (M.run s es).map fun t => ((t.code i).pending, see t.world)

/-- `M` with a flag beside its world, raised for good by a `bad` answer. -/
def watch (M : Machine W ι C R E) (bad : C → R → Prop) [DecidableRel bad] :
    Machine (W × Bool) ι C R E where
  respond w i c r := (M.respond w.1 i c r).map fun v => (v, w.2 || decide (bad c r))
  move w e := (M.move w.1 e).map fun v => (v, w.2)

section Watch

variable {bad : C → R → Prop} [DecidableRel bad] {w w' : W × Bool} {i : ι} {c : C} {r : R} {e : E}

omit [DecidableEq ι] in
theorem respond_watch (h : (M.watch bad).respond w i c r = some w') :
    M.respond w.1 i c r = some w'.1 ∧ w'.2 = (w.2 || decide (bad c r)) := by
  obtain ⟨v, hv, rfl⟩ := Option.map_eq_some_iff.mp h
  exact ⟨hv, rfl⟩

omit [DecidableEq ι] in
theorem move_watch (h : (M.watch bad).move w e = some w') :
    M.move w.1 e = some w'.1 ∧ w'.2 = w.2 := by
  obtain ⟨v, hv, rfl⟩ := Option.map_eq_some_iff.mp h
  exact ⟨hv, rfl⟩

end Watch

theorem reaches_of_observe {V : Type} {see : W → V} {es : List (Event ι R E)} {i : ι}
    {p : Pending C α} {v : V} (h : M.observe see s es i = some (p, v)) :
    ∃ t, M.Reaches any s t ∧ (t.code i).pending = p ∧ see t.world = v := by
  obtain ⟨t, ht, heq⟩ := Option.map_eq_some_iff.mp h
  cases heq
  exact ⟨t, reaches_of_run ht, rfl, rfl⟩

end Machine

end Calls
