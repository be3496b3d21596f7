import SGXessControll.Calls.Frame

/-!
# Transcripts

One thread by itself, whose calls are answered by whatever is possible. Its world is the
list of the calls it has made, each with its answer, so that what holds in every run is a
statement about lists.
-/

namespace Calls

set_option autoImplicit false

abbrev Transcript (C R : Type) := List (C × R)

variable {C R α : Type} (possible : C → R → Prop) [DecidableRel possible]

def recorder : Machine (Transcript C R) Unit C R Empty where
  respond w _ c r := if possible c r then some (w ++ [(c, r)]) else none
  move _ e := nomatch e

/-- What `m` has come to after some answers. -/
abbrev Code.RunsTo (m : Code C R α) (t : Config (Transcript C R) Unit C R α) : Prop :=
  (recorder possible).Reaches Machine.any (solo m []) t

/-- Where the given answers bring `m`. -/
def Code.after (m : Code C R α) (answers : List R) : Option (Pending C α × Transcript C R) :=
  (recorder possible).observe id (solo m []) (answers.map (Event.reply ())) ()

abbrev recorded (pre : C → Transcript C R → Prop) (fault : Transcript C R → Prop) :
    Setting (Transcript C R) C R :=
  (recorder possible).alone Machine.any pre fault

variable {possible} {pre : C → Transcript C R → Prop} {fault : Transcript C R → Prop}
variable {c : C} {r : R} {w w' : Transcript C R}

theorem recorded_stable (A : Transcript C R → Prop) : (recorded possible pre fault).Stable A :=
  Machine.stable_alone fun _ e => nomatch e

theorem recorded_answer (h : (recorded possible pre fault).answer w c r w') :
    w' = w ++ [(c, r)] ∧ possible c r := by
  have hr := h.1
  simp only [recorder] at hr
  split at hr
  · rename_i hpossible
    cases hr
    exact ⟨rfl, hpossible⟩
  · cases hr

theorem triple_recorded {A : Transcript C R → Prop} {B : R → Transcript C R → Prop}
    (hpre : ∀ w, A w → pre c w) (hr : ∀ w r, A w → possible c r → B r (w ++ [(c, r)])) :
    (recorded possible pre fault).Triple A (Code.ask c) B := by
  apply Setting.triple_ask (recorded_stable A) (fun r => recorded_stable (B r)) hpre
  intro w r w' hw ha
  obtain ⟨rfl, hpossible⟩ := recorded_answer ha
  exact hr w r hw hpossible

theorem Code.RunsTo.holds {m : Code C R α} {t : Config (Transcript C R) Unit C R α}
    (h : m.RunsTo possible t) {A : Transcript C R → Prop} {Φ : α → Transcript C R → Prop}
    (hm : (recorded possible pre fault).Triple A m Φ) (hA : A []) :
    (recorded possible pre fault).Holds (t.code ()) Φ t.world :=
  Machine.Reaches.alone h hm hA

/-- What each answered call preserves holds in every run. -/
theorem Code.RunsTo.preserves {m : Code C R α} {t : Config (Transcript C R) Unit C R α}
    {I : Code C R α → Transcript C R → Prop} (h : m.RunsTo possible t) (start : I m [])
    (step : ∀ n w c r, I n w → n.pending = .calling c → possible c r →
      I (n.resume r) (w ++ [(c, r)])) : I (t.code ()) t.world := by
  induction h with
  | refl => exact start
  | @reply t i c r w _ hp hr _ ih =>
    simp only [recorder] at hr
    split at hr
    · rename_i hpossible
      cases hr
      simp only [Function.update_self]
      exact step _ _ c r ih hp hpossible
    · cases hr
  | @move _ e _ _ _ _ => exact nomatch e

theorem Code.runsTo_of_after {m : Code C R α} {answers : List R} {p : Pending C α}
    {w : Transcript C R} (h : m.after possible answers = some (p, w)) :
    ∃ t, m.RunsTo possible t ∧ (t.code ()).pending = p ∧ t.world = w :=
  Machine.reaches_of_observe h

end Calls
