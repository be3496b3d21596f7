import SGXessControll.Calls.Frame
import Mathlib.Data.Finset.Card

/-!
# Handles and who gives them back

A call may be answered by a handle, work on one, or give one back. What has been handed out
and not been given back is the ledger; nothing is handed out that is still in it.
-/

namespace Calls

set_option autoImplicit false

variable {C R H α : Type}

structure Handles (C R H : Type) where
  opened : C → R → Option H
  /-- The handle a call is about, if it names one at all. -/
  needs : C → Option H
  closes : C → Bool

namespace Handles

variable [DecidableEq H] (T : Handles C R H)

def respond (live : Finset H) (_ : Unit) (c : C) (r : R) : Option (Finset H) :=
  match T.opened c r, T.needs c with
  | some h, _ => if h ∈ live then none else some (insert h live)
  | none, some h => if T.closes c = true then some (live.erase h) else some live
  | none, none => some live

def machine : Machine (Finset H) Unit C R Empty := ⟨T.respond, fun _ e => nomatch e⟩

/-- The call is about a handle that is there. -/
def Live (c : C) (live : Finset H) : Prop := ∀ h, T.needs c = some h → h ∈ live

variable {T} {live live' : Finset H} {c : C} {r : R} {h : H}

theorem respond_opened (ho : T.opened c r = some h) (hr : T.respond live () c r = some live') :
    h ∉ live ∧ live' = insert h live := by
  simp only [respond, ho] at hr
  obtain ⟨hnew, heq⟩ := Option.ite_none_left_eq_some.mp hr
  exact ⟨hnew, (Option.some.inj heq).symm⟩

theorem respond_kept (ho : T.opened c r = none) (hc : T.closes c = false)
    (hr : T.respond live () c r = some live') : live' = live := by
  simp only [respond, ho, hc] at hr
  cases hn : T.needs c with
  | none =>
    rw [hn] at hr
    exact (Option.some.inj hr).symm
  | some _ =>
    rw [hn] at hr
    exact (Option.some.inj hr).symm

theorem respond_closed (ho : T.opened c r = none) (hn : T.needs c = some h)
    (hc : T.closes c = true) (hr : T.respond live () c r = some live') :
    live' = live.erase h := by
  simp only [respond, ho, hn, hc] at hr
  exact (Option.some.inj hr).symm

/-- A call about no handle at all changes nothing. -/
theorem respond_idle (ho : T.opened c r = none) (hn : T.needs c = none)
    (hr : T.respond live () c r = some live') : live' = live := by
  simp only [respond, ho, hn] at hr
  exact (Option.some.inj hr).symm

/-- A call that opens nothing leaves no more than there was. -/
theorem card_respond_le (ho : T.opened c r = none) (hr : T.respond live () c r = some live') :
    live'.card ≤ live.card := by
  cases hn : T.needs c with
  | none => rw [respond_idle ho hn hr]
  | some h =>
    cases hc : T.closes c with
    | false => rw [respond_kept ho hc hr]
    | true =>
      rw [respond_closed ho hn hc hr]
      exact Finset.card_le_card (Finset.erase_subset h live)

theorem card_respond (hr : T.respond live () c r = some live') : live'.card ≤ live.card + 1 := by
  cases ho : T.opened c r with
  | some h =>
    rw [(respond_opened ho hr).2]
    exact Finset.card_insert_le h live
  | none => exact (card_respond_le ho hr).trans (Nat.le_succ _)

section Contract

variable {pre : C → Finset H → Prop} {m : Code C R α}

abbrev contract (T : Handles C R H) (pre : C → Finset H → Prop) : Setting (Finset H) C R :=
  T.machine.alone Machine.any pre fun _ => True

theorem stable (A : Finset H → Prop) : (T.contract pre).Stable A :=
  Machine.stable_alone fun _ e => nomatch e

theorem triple_ask {B : R → Finset H → Prop} (hpre : pre c live)
    (hr : ∀ r live', T.respond live () c r = some live' → B r live') :
    (T.contract pre).Triple (· = live) (Code.ask c) B := by
  apply Setting.triple_ask (stable _) (fun _ => stable _)
  · rintro _ rfl
    exact hpre
  · rintro _ r live' rfl hanswer
    exact hr r live' hanswer.1

/-- Code that neither opens nor closes. -/
theorem triple_kept {u : Prop} (hm : m.Only (fun c => (∀ r, T.opened c r = none) ∧
    T.closes c = false ∧ pre c live) u) :
    (T.contract pre).Triple (· = live) m fun _ => (· = live) := by
  refine Setting.triple_only (stable _) ?_ ?_ (fun _ _ _ => trivial) hm
  · rintro c _ hc rfl
    exact hc.2.2
  · rintro _ c r live' hc rfl hanswer
    exact respond_kept (hc.1 r) hc.2.1 hanswer.1

end Contract

end Handles

end Calls
