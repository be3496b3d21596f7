import SGXessControll.Recovery
import SGXessControll.Transport

/-!
# What a failed deployment costs

The Deployer takes a policy out of its queue before it deploys it and does not look at what
`deployPolicy` returns, so a policy whose deployment fails is neither sent nor queued again.
-/

namespace SGXess.Desk

set_option autoImplicit false

open Calls Queue

/-- The answer makes `deployPolicy` return `false`. -/
def DeployFails (c : Call) (r : Reply) : Prop :=
  TLSClient.StepFails (fun ret => ret) c r ∨ WriteFails c r

instance : DecidableRel DeployFails := fun _ _ => inferInstanceAs (Decidable (_ ∨ _))

/-- The Deployer's manager, and if a deployment has failed. -/
abbrev deployer : Machine (Desk × Bool) Unit Call Reply Str :=
  (machine Deployer.PolicyManager.handoff).watch DeployFails

/-- The queue as it is found when the manager starts. -/
def found (policies : List Str) : Desk × Bool :=
  ({ queue := ⟨policies, policies, [], rfl⟩ }, false)

/-- A non-empty policy is neither sent nor in hand nor queued. -/
def Lacks (hand : List Str) (w : Desk) : Prop :=
  (w.sent ++ hand ++ w.queue.waiting.filter (· ≠ [])).length <
    (w.queue.inserted.filter (· ≠ [])).length

/-- All policies are accounted for as long as none was dropped. -/
def Balanced (hand : List Str) (dropped : Bool) (w : Desk) : Prop :=
  match dropped with
  | true => Lacks hand w
  | false => Accounted hand w

def Holding (hand : List Str) (v : Desk × Bool) : Prop := Balanced hand v.2 v.1

/-- A deployment has failed. -/
def Dropped (w : Desk × Bool) : Prop := w.2 = true ∧ Lacks [] w.1

section Steps

variable {h : Handoff} {hand : List Str} {w : Desk} {x : Str} {dropped : Bool}

theorem waiting_take (h : Handoff) (q : Fifo Str) :
    q.waiting.filter (· ≠ []) =
      [h.front q].filter (· ≠ []) ++ (h.take q).waiting.filter (· ≠ []) := by
  have hsame : q.inserted.filter (· ≠ []) = (h.take q).inserted.filter (· ≠ []) := rfl
  rw [(h.take q).conserved, q.conserved, List.filter_append, List.filter_append, h.take_removed,
    List.append_assoc] at hsame
  exact List.append_cancel_left hsame

theorem Accounted.push (hw : Accounted hand w) :
    Accounted hand { w with queue := h.push w.queue x } := by
  rw [Accounted, h.push_eq, Fifo.push_inserted, List.filter_append, ← show _ = _ from hw]
  simp [Fifo.push]

theorem Lacks.push (hw : Lacks hand w) : Lacks hand { w with queue := h.push w.queue x } := by
  rw [Lacks, h.push_eq, Fifo.push_inserted, List.filter_append, List.length_append]
  have hlt : (w.sent ++ hand ++ w.queue.waiting.filter (· ≠ [])).length <
    (w.queue.inserted.filter (· ≠ [])).length := hw
  simp only [Fifo.push, List.filter_append, List.length_append] at hlt ⊢
  omega

theorem Accounted.take (hw : Accounted [] w) :
    Accounted ([h.front w.queue].filter (· ≠ [])) { w with queue := h.take w.queue } := by
  have heq : w.sent ++ [] ++ w.queue.waiting.filter (· ≠ []) =
    w.queue.inserted.filter (· ≠ []) := hw
  rw [waiting_take h, List.append_nil, ← List.append_assoc] at heq
  exact heq

theorem Lacks.take (hw : Lacks [] w) :
    Lacks ([h.front w.queue].filter (· ≠ [])) { w with queue := h.take w.queue } := by
  have hlt : (w.sent ++ [] ++ w.queue.waiting.filter (· ≠ [])).length <
    (w.queue.inserted.filter (· ≠ [])).length := hw
  rw [waiting_take h, List.append_nil, ← List.append_assoc] at hlt
  exact hlt

theorem Accounted.drop (hw : Accounted [x] w) : Lacks [] w := by
  have hlen := congrArg List.length (show _ = _ from hw)
  rw [Lacks]
  simp only [List.length_append, List.length_singleton, List.length_nil] at hlen ⊢
  omega

theorem Lacks.drop (hw : Lacks [x] w) : Lacks [] w := by
  have hlt : (w.sent ++ [x] ++ w.queue.waiting.filter (· ≠ [])).length <
    (w.queue.inserted.filter (· ≠ [])).length := hw
  rw [Lacks]
  simp only [List.length_append, List.length_singleton, List.length_nil] at hlt ⊢
  omega

theorem Balanced.push (hw : Balanced hand dropped w) :
    Balanced hand dropped { w with queue := h.push w.queue x } := by
  cases dropped with
  | true => exact Lacks.push hw
  | false => exact Accounted.push hw

theorem Balanced.take (hw : Balanced [] dropped w) :
    Balanced ([h.front w.queue].filter (· ≠ [])) dropped { w with queue := h.take w.queue } := by
  cases dropped with
  | true => exact Lacks.take hw
  | false => exact Accounted.take hw

theorem Balanced.send (hw : Balanced [x] dropped w) :
    Balanced [] dropped { w with sent := w.sent ++ [x], resending := false } := by
  cases dropped <;> simpa [Balanced, Lacks, Accounted] using hw

theorem Balanced.drop (hw : Balanced [x] dropped w) : Lacks [] w := by
  cases dropped with
  | true => exact Lacks.drop hw
  | false => exact Accounted.drop hw

theorem Balanced.accounted_iff (hw : Balanced [] dropped w) :
    Accounted [] w ↔ dropped = false := by
  cases dropped with
  | true =>
    refine iff_of_false (fun hacc => ?_) nofun
    have hlt : _ < _ := hw
    rw [show _ = _ from hacc] at hlt
    exact Nat.lt_irrefl _ hlt
  | false => exact iff_of_true hw rfl

end Steps

/-- At the head of the loop nothing is in hand. -/
abbrev redelivering : Setting (Desk × Bool) Call Reply :=
  deployer.alone Machine.any (fun c v => c = .popPolicy → Holding [] v) fun _ => False

section Run

variable {hand : List Str} {v v' : Desk × Bool} {c : Call} {r : Reply}

theorem deployer_kept (h : deployer.respond v () c r = some v') (hr : ¬ DeployFails c r) :
    (machine Deployer.PolicyManager.handoff).respond v.1 () c r = some v'.1 ∧ v'.2 = v.2 := by
  obtain ⟨hmachine, hflag⟩ := Machine.respond_watch h
  exact ⟨hmachine, by rw [hflag, decide_eq_false hr, Bool.or_false]⟩

theorem deployer_failed (h : deployer.respond v () c r = some v') (hr : DeployFails c r) :
    (machine Deployer.PolicyManager.handoff).respond v.1 () c r = some v'.1 ∧ v'.2 = true := by
  obtain ⟨hmachine, hflag⟩ := Machine.respond_watch h
  exact ⟨hmachine, by rw [hflag, decide_eq_true hr, Bool.or_true]⟩

theorem holding_stable : redelivering.Stable (Holding hand) := by
  apply Machine.stable_alone
  intro v x v' hv hm
  obtain ⟨hmove, hflag⟩ := Machine.move_watch hm
  rw [Holding, hflag, ← Option.some.inj hmove]
  exact Balanced.push hv

theorem dropped_stable : redelivering.Stable Dropped := by
  apply Machine.stable_alone
  intro v x v' hv hm
  obtain ⟨hmove, hflag⟩ := Machine.move_watch hm
  rw [Dropped, hflag, ← Option.some.inj hmove]
  exact ⟨hv.1, hv.2.push⟩

theorem Dropped.holding (hv : Dropped v) : Holding [] v := by
  rw [Holding, hv.1]
  exact hv.2

theorem Holding.step {x : Str} (hv : Holding [x] v) (hc : TLSClient.ofConnect c = true)
    (ha : redelivering.answer v c r v') :
    if DeployFails c r then Dropped v' else Holding [x] v' := by
  by_cases hr : DeployFails c r
  · obtain ⟨hmachine, hflag⟩ := deployer_failed ha.1 hr
    rw [if_pos hr, Dropped, hflag, respond_ofConnect hc hmachine]
    exact ⟨rfl, hv.drop⟩
  · obtain ⟨hmachine, hflag⟩ := deployer_kept ha.1 hr
    rw [if_neg hr, Holding, hflag, respond_ofConnect hc hmachine]
    exact hv

theorem triple_redelivery_connect {x IP port : Str} :
    redelivering.Triple (Holding [x]) (Deployer.TLSClient.connect IP port)
      (fun b v => if b = true then Holding [x] v else Dropped v) := by
  refine TLSClient.triple_connectWith (S := redelivering) (L := Holding [x]) (F := Dropped)
    holding_stable dropped_stable ?_ ?_ ?_ dropped_stable ?_ ?_ fun _ hw => hw
  · rintro c v hc _ rfl
    cases hc
  · intro c v r v' hc hr hv ha
    have hgo : ¬ DeployFails c r := fun h => h.elim hr (not_writeFails_of_isStep hc r)
    have hnext := hv.step (TLSClient.ofConnect_of_isStep hc) ha
    rwa [if_neg hgo] at hnext
  · intro c v r v' hc hr hv ha
    have hnext := hv.step (TLSClient.ofConnect_of_isStep hc) ha
    rwa [if_pos (show DeployFails c r from Or.inl hr)] at hnext
  · refine triple_void holding_stable holding_stable (fun _ _ => nofun) fun v r v' hv ha => ?_
    have hnext := hv.step (c := .clientInit) rfl ha
    rwa [if_neg (fun h => h.elim id id)] at hnext
  · refine triple_void dropped_stable dropped_stable (fun _ _ => nofun) fun v r v' hv ha => ?_
    obtain ⟨hmachine, hflag⟩ := deployer_kept (c := .clientFree) ha.1 fun h => h.elim id id
    rw [Dropped, hflag, respond_ofConnect rfl hmachine]
    exact hv

theorem triple_redelivery_sendMsg {x : Str} :
    redelivering.Triple (Holding [x]) (Deployer.TLSClient.sendMsg x)
      (fun b v => if b = true then Holding [] v else Dropped v) := by
  apply triple_sslSendMsg (S := redelivering) holding_stable
    (fun _ => Setting.stable_ite holding_stable dropped_stable) (fun _ _ => nofun)
  · intro v r v' hv ha hretry
    have hgo : ¬ DeployFails (.sslWrite .client x) r :=
      fun h => h.elim id fun h => absurd (hretry.symm.trans h.2) nofun
    obtain ⟨hmachine, hflag⟩ := deployer_kept ha.1 hgo
    simp only [machine, respond, hretry, if_true, Option.some.injEq] at hmachine
    rw [Holding, hflag, ← hmachine]
    exact hv
  · intro v r v' hv ha hretry
    by_cases hneg : r.ret < 0
    · have hfails : DeployFails (.sslWrite .client x) r := Or.inr ⟨hneg, hretry⟩
      obtain ⟨hmachine, hflag⟩ := deployer_failed ha.1 hfails
      simp only [machine, respond, hretry, hneg, Bool.false_eq_true, if_false, if_true,
        Option.some.injEq] at hmachine
      rw [decide_eq_false (by omega), if_neg Bool.false_ne_true, Dropped, hflag, ← hmachine]
      exact ⟨rfl, Balanced.drop hv⟩
    · have hgo : ¬ DeployFails (.sslWrite .client x) r := fun h => h.elim id fun h => hneg h.1
      obtain ⟨hmachine, hflag⟩ := deployer_kept ha.1 hgo
      simp only [machine, respond, hretry, hneg, Bool.false_eq_true, if_false,
        Option.some.injEq] at hmachine
      rw [decide_eq_true (by omega), if_pos rfl, Holding, hflag, ← hmachine]
      exact Balanced.send hv

theorem triple_redelivery_terminate :
    redelivering.Triple (fun _ => True) Deployer.TLSClient.terminate (fun _ _ => False) := by
  have stable : redelivering.Stable fun _ => True := fun _ _ _ _ => trivial
  refine Setting.triple_bind (triple_void stable stable (fun _ _ => nofun)
    fun _ _ _ _ _ => trivial) fun _ => ?_
  refine Setting.triple_bind (triple_void stable stable (fun _ _ => nofun)
    fun _ _ _ _ _ => trivial) fun _ => ?_
  refine triple_void stable (fun _ _ _ h => h) (fun _ _ => nofun) fun v r v' _ ha => ?_
  exact absurd (Machine.respond_watch ha.1).1 nofun

theorem triple_redelivery :
    redelivering.Triple (Holding []) Deployer.PolicyManager.managePolicy (fun _ _ => False) := by
  refine Setting.triple_whileTrue (fun _ _ _ _ hw => hw) (triple_popRound
    (B := fun x v => Holding ([x].filter (· ≠ [])) v)
    (k := fun policy => (Deployer.PolicyDeployer.deployPolicy policy (text "192.168.0.5")
      (text "30010")).bind fun _ => .ret (.inl ()))
    holding_stable ?_ ?_ fun x hx => ?_) nofun
  · refine Setting.triple_ask holding_stable (fun _ => holding_stable) (fun _ hv _ => hv)
      fun v r v' hv ha => ?_
    obtain ⟨hmachine, hflag⟩ := deployer_kept (c := .popPolicy) ha.1 fun h => h.elim id id
    obtain ⟨hfront, hqueue⟩ := respond_pop rfl hmachine
    rw [Holding, hflag, hqueue, hfront]
    exact Balanced.take hv
  · refine triple_void holding_stable holding_stable (fun _ _ => nofun) fun v r v' hv ha => ?_
    obtain ⟨hmachine, hflag⟩ := deployer_kept (c := .sleep) ha.1 fun h => h.elim id id
    rw [Holding, hflag, ← Option.some.inj hmachine]
    exact hv
  · have hone : [x].filter (· ≠ []) = [x] := by simp [hx]
    rw [hone]
    refine Setting.triple_bind (Deployer.PolicyDeployer.triple_deployPolicy
      (Θ := fun _ => Holding []) dropped_stable dropped_stable holding_stable
      triple_redelivery_connect triple_redelivery_sendMsg ?_ (fun _ hv => hv.holding)
      fun _ hv => hv.holding) fun _ => Setting.triple_ret holding_stable fun _ hv => hv
    exact triple_redelivery_terminate.conseq (fun _ _ => trivial) fun _ _ h => h.elim

end Run

/-- Where the manager is about to pop, every non-empty policy has been sent or is queued, in
this order, exactly if no deployment has failed. -/
theorem policies_conserved_iff (policies : List Str)
    {t : Config (Desk × Bool) Unit Call Reply Unit}
    (ht : deployer.Reaches Machine.any
      (solo Deployer.PolicyManager.managePolicy (found policies)) t)
    (hp : (t.code ()).pending = .calling .popPolicy) :
    Accounted [] t.world.1 ↔ t.world.2 = false := by
  have hfound : Holding [] (found policies) := rfl
  exact Balanced.accounted_iff ((ht.alone triple_redelivery hfound).pre hp rfl)

theorem waiting_policy_conserved :
    ∃ t, deployer.Reaches Machine.any (solo Deployer.PolicyManager.managePolicy (found [])) t ∧
      t.world.1.queue.inserted = [text "p"] ∧ Accounted [] t.world.1 := by
  have hsee : deployer.observe (fun v => (v.1.queue.inserted, v.2))
      (solo Deployer.PolicyManager.managePolicy (found []))
      [.reply () ⟨0, []⟩, .reply () ⟨0, []⟩, .move (text "p")] () =
        some (.calling .popPolicy, ([text "p"], false)) := by rfl
  obtain ⟨t, ht, hp, hw⟩ := Machine.reaches_of_observe hsee
  refine ⟨t, ht, congrArg Prod.fst hw, ?_⟩
  exact (policies_conserved_iff [] ht hp).mpr (congrArg Prod.snd hw)

/-- The seeding fails and the policy is gone. -/
theorem failed_deployment_loses :
    ¬ ∀ policies (t : Config (Desk × Bool) Unit Call Reply Unit),
      deployer.Reaches Machine.any
        (solo Deployer.PolicyManager.managePolicy (found policies)) t →
      (t.code ()).pending = .calling .popPolicy → Accounted [] t.world.1 := by
  intro hall
  have hsee : deployer.observe (fun v => (v.1.sent, v.1.queue.waiting, v.1.queue.inserted))
      (solo Deployer.PolicyManager.managePolicy (found [text "p"]))
      [.reply () ⟨0, text "p"⟩, .reply () ⟨0, []⟩, .reply () ⟨1, []⟩, .reply () ⟨0, []⟩] () =
        some (.calling .popPolicy, ([], [], [text "p"])) := by rfl
  obtain ⟨t, ht, hp, hw⟩ := Machine.reaches_of_observe hsee
  have hacc := hall [text "p"] t ht hp
  simp only [Prod.mk.injEq] at hw
  rw [Accounted, hw.1, hw.2.1, hw.2.2] at hacc
  exact absurd hacc (by decide)

end SGXess.Desk
