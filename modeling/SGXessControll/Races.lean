import SGXessControll.Calls.Spans
import SGXessControll.System

/-!
# The map without a lock

The manager fills `mapPolicy` while the request listener looks addresses up in it, and no lock
keeps the two apart. An insertion and a lookup are taken to last here, so that they can meet.
-/

namespace SGXess

set_option autoImplicit false

open Calls
open Controller.PolicyManager (demoPolicies)

/-- The members of `PolicyManager` that use the map. -/
def touchesMap : Call → Bool
  | .updatePolicy _ | .validateRequest _ => true
  | _ => false

section Listeners

variable {p : Call → Prop} (hother : ∀ c, ofManagers c = false → p c)
include hother

theorem only_policyListener (hinsert : ∀ policy, p (.insertPolicy policy)) :
    Controller.PolicyListener.runListener.Only p True := by
  refine only_whileTrue ?_ (c := .netAccept) rfl
  have hreset : Controller.TLSServer.resetClient.Only p True :=
    Controller.TLSServer.only_resetClient (hother _ rfl) (hother _ rfl)
  refine (Controller.TLSServer.only_acceptClient (hother _ rfl) (hother _ rfl)).bind fun _ =>
    Code.only_ite (hreset.bind fun _ => trivial) ?_
  exact (only_sslRecvMsg (hother _ rfl)).bind fun received => hreset.bind fun _ =>
    (only_void (hinsert received.2)).bind fun _ => trivial

theorem only_requestListener (hvalidate : ∀ req, p (.validateRequest req)) :
    Controller.RequestListener.runListener.Only p True := by
  have haccept : Controller.TLSServer.acceptClient.Only p True :=
    Controller.TLSServer.only_acceptClient (hother _ rfl) (hother _ rfl)
  refine haccept.bind fun _ => Code.only_ite trivial ?_
  refine only_whileTrue ?_ (c := .sslRead .server 1023) rfl
  refine (only_sslRecvMsg (hother _ rfl)).bind fun received => Code.only_ite ?_
    (Code.only_ite trivial ?_)
  · exact haccept.bind fun _ => Code.only_ite trivial trivial
  · exact (only_int (hvalidate received.2)).bind fun _ =>
      (only_sslSendMsg (hother _ rfl)).bind fun _ => trivial

theorem only_proxyListener (hinsert : ∀ client, p (.insertClient client)) :
    Proxy.ProxyListener.runListener.Only p True := by
  refine only_whileTrue ?_ (c := .accept) rfl
  refine Code.Only.bind (m := Proxy.Listener.getClientConn) ?_ fun conn => Code.only_ite trivial ?_
  · exact (Code.only_ask (hother _ rfl)).bind fun _ => Code.only_ite trivial trivial
  · exact (only_void (hinsert _)).bind fun _ => (only_void (hother _ rfl)).bind fun _ => trivial

end Listeners

namespace System

/-- What each thread does with the map. -/
def Uses (i : Thread) (c : Call) : Prop :=
  match i, c with
  | .policyManager, .updatePolicy policy => policy ∈ demoPolicies
  | .loop .requestListener, .validateRequest _ => True
  | _, c => touchesMap c = false

theorem uses_other {c : Call} (i : Thread) (hc : touchesMap c = false) : Uses i c := by
  rcases i with l | _ | _
  · cases l <;> cases c <;> first | exact Bool.noConfusion hc | rfl
  · exact hc
  · cases c <;> first | exact Bool.noConfusion hc | rfl

theorem touchesMap_of_ofManagers {c : Call} (hc : ofManagers c = false) : touchesMap c = false := by
  cases c <;> first | exact Bool.noConfusion hc | rfl

theorem only_uses (i : Thread) : (threads i).Only (Uses i) True := by
  have hother : ∀ c, ofManagers c = false → Uses i c :=
    fun c hc => uses_other i (touchesMap_of_ofManagers hc)
  rcases i with l | _ | _
  · cases l with
    | proxyListener => exact only_proxyListener hother fun _ => rfl
    | proxyManager => exact only_proxy_manageClient hother rfl
    | requestListener => exact only_requestListener hother fun _ => trivial
  · exact only_policyListener hother fun _ => rfl
  · have hload : (demoPolicies.forM fun policy => void (.updatePolicy policy)).Only
        (Uses .policyManager) True := Code.only_forM_mem fun policy h => only_void h
    have hmanage := hload.bind fun _ => only_controller_manageLoop hother rfl
    exact hmanage.bind (f := fun _ => .ret true) fun _ => trivial

/-- The threads, with the calls on the map taking time. -/
def unlocked : Config System Thread (Spanned Call) Reply Bool :=
  ⟨fun i => (threads i).expand (Code.span touchesMap), initial.world⟩

variable {t : Config System Thread (Spanned Call) Reply Bool}

theorem within_map (ht : machine.spanned.Reaches Machine.any unlocked t) {i : Thread} {c : Call}
    (hc : (t.code i).pending = .calling (.leave c)) : touchesMap c = true ∧ Uses i c :=
  (ht.makes (only_uses i).span.makes).calling hc

/-- An insertion and any use of the map. -/
def Clash (c c' : Call) : Prop := (∃ policy, c = .updatePolicy policy) ∧ touchesMap c' = true

theorem insertion_threads (ht : machine.spanned.Reaches Machine.any unlocked t) {i j : Thread}
    {policy : Str} {c : Call} (hij : i ≠ j)
    (hi : (t.code i).pending = .calling (.leave (.updatePolicy policy)))
    (hj : (t.code j).pending = .calling (.leave c)) :
    i = .policyManager ∧ j = .loop .requestListener ∧ policy ∈ demoPolicies := by
  have hupdate := (within_map ht hi).2
  obtain ⟨hc, huse⟩ := within_map ht hj
  rcases i with l | _ | _
  · cases l <;> exact Bool.noConfusion hupdate
  · exact Bool.noConfusion hupdate
  · rcases j with l | _ | _
    · cases l with
      | requestListener => exact ⟨rfl, rfl, hupdate⟩
      | proxyListener => cases c <;> first | exact Bool.noConfusion hc | exact Bool.noConfusion huse
      | proxyManager => cases c <;> first | exact Bool.noConfusion hc | exact Bool.noConfusion huse
    · exact Bool.noConfusion (huse.symm.trans hc)
    · exact absurd rfl hij

/-- What remains of the load loop where `policies` are left. -/
abbrev loading (policies : List Str) : Code (Spanned Call) Reply PUnit :=
  policies.forM fun policy => (void (.updatePolicy policy)).expand (Code.span touchesMap)

abbrev popping : Code (Spanned Call) Reply Bool :=
  (Controller.PolicyManager.manageLoop.bind fun _ => .ret true).expand (Code.span touchesMap)

theorem manager_phases :
    unlocked.code .policyManager = (loading demoPolicies).bind fun _ => popping := by
  have hthread : threads .policyManager =
      (demoPolicies.forM fun policy => void (.updatePolicy policy)).bind fun _ =>
        Controller.PolicyManager.manageLoop.bind fun _ => .ret true := Code.bind_assoc _ _ _
  rw [loading, ← Code.expand_forM]
  exact (congrArg _ hthread).trans (Code.expand_bind _ _)

theorem leads_load (policies : List Str) (w : System) :
    ∃ v, (machine.spanned.thread .policyManager).Leads Machine.any (loading policies) w
      (.ret ⟨⟩) v := by
  refine ⟨_, Machine.leads_forM (g := fun (w : System) policy => { w with
    exchange := { w.exchange with
      policy := Controller.PolicyManager.updatePolicy w.exchange.policy policy } }) policies
    (fun policy w => ?_) w⟩
  refine Machine.Leads.trans (Machine.leads_reply
    (c := Spanned.enter (Call.updatePolicy policy)) (r := (⟨0, []⟩ : Reply)) rfl rfl trivial) ?_
  exact Machine.leads_reply
    (c := Spanned.leave (Call.updatePolicy policy)) (r := (⟨0, []⟩ : Reply)) rfl rfl trivial

/-- Once the manager pops or sleeps, no insertion meets anything any more. -/
theorem races_end (ht : machine.spanned.Reaches Machine.any unlocked t) {c : Call}
    (hc : (t.code .policyManager).pending = .calling (.other c))
    {u : Config System Thread (Spanned Call) Reply Bool}
    (hu : machine.spanned.Reaches Machine.any t u) : ¬ Overlap Clash u := by
  rintro ⟨i, j, _, c', hij, hinsert, hj, ⟨policy, rfl⟩, _⟩
  obtain ⟨rfl, _⟩ := insertion_threads (ht.trans hu) hij hinsert hj
  have hload : (loading demoPolicies).Only
      (Code.PartOf touchesMap fun c => touchesMap c = true) True :=
    Code.only_forM (fun policy => (only_void (p := fun c => touchesMap c = true)
      (c := .updatePolicy policy) rfl).span) _
  have hloop : (Controller.PolicyManager.manageLoop.bind fun _ => .ret true).Only
      (fun c => touchesMap c = false) True :=
    (only_controller_manageLoop (fun c hc => touchesMap_of_ofManagers hc) rfl).bind fun _ => trivial
  have hthen := ht.later_code .policyManager
  rw [manager_phases] at hthen
  have hrest : ((Controller.PolicyManager.manageLoop.bind fun _ => .ret true).expand
      (Code.span touchesMap)).Only (Code.PartOf touchesMap fun c => touchesMap c = false) True :=
    hloop.span
  have hlast := Code.Later.phase hload.makes (fun _ => hrest.makes) hthen hc
    (fun hpart => Bool.noConfusion (hpart.1.symm.trans hpart.2)) (hu.later_code _) hinsert
  exact Bool.noConfusion (hlast.1.symm.trans hlast.2)

theorem races_end_loaded : ∃ t, machine.spanned.Reaches Machine.any unlocked t ∧
    (t.code .policyManager).pending = .calling (.other .popPolicy) ∧ ¬ Overlap Clash t := by
  obtain ⟨v, hload⟩ := leads_load demoPolicies initial.world
  obtain ⟨t, ht, hcode, _⟩ := (hload.bind fun _ => popping).of_thread manager_phases
  have hpending : (t.code .policyManager).pending = .calling (.other .popPolicy) := by
    rw [hcode]
    rfl
  exact ⟨t, ht, hpending, races_end ht hpending .refl⟩

/-- A client whose lookup has begun before a policy is inserted. -/
def lookup (client : Str) : List (Event Thread Reply Empty) :=
  let manager r : Event Thread Reply Empty := .reply (.loop .proxyManager) r
  let listener r : Event Thread Reply Empty := .reply (.loop .requestListener) r
  List.replicate 9 (manager ⟨0, []⟩) ++ [listener ⟨0, []⟩, listener ⟨0, []⟩,
    .reply (.loop .proxyListener) ⟨5, [10, 0, 0, 7]⟩, .reply (.loop .proxyListener) ⟨0, []⟩,
    manager ⟨0, client⟩, manager ⟨32, []⟩, listener ⟨32, client⟩, listener ⟨0, []⟩]

theorem lookup_begins : ∃ t, machine.spanned.Reaches Machine.any unlocked t ∧
    (∃ req, (t.code (.loop .requestListener)).pending =
      .calling (.leave (.validateRequest req))) ∧
    t.code .policyManager = unlocked.code .policyManager := by
  have hsee : machine.spanned.observe (fun _ => ()) unlocked
      (lookup (Proxy.ProxyListener.clientString [10, 0, 0, 7])) (.loop .requestListener) =
      some (.calling (.leave (.validateRequest (text "10.0.0.7"))), ()) := by
    decide +kernel
  obtain ⟨t, hrun, hpending⟩ := Option.map_eq_some_iff.mp hsee
  refine ⟨t, Machine.reaches_of_run hrun, ⟨_, congrArg Prod.fst hpending⟩, ?_⟩
  refine Machine.run_code hrun fun e he r hr => ?_
  subst hr
  simp [lookup] at he

/-- The manager comes to each of the policies. -/
theorem leads_insertion {before after : List Str} {policy : Str}
    (h : demoPolicies = before ++ policy :: after) (w : System) :
    ∃ m v, (machine.spanned.thread .policyManager).Leads Machine.any
      (unlocked.code .policyManager) w m v ∧
      m.pending = .calling (.leave (.updatePolicy policy)) := by
  obtain ⟨v, hbefore⟩ := leads_load before w
  have hsplit : unlocked.code .policyManager = (loading before).bind fun _ =>
      (loading (policy :: after)).bind fun _ => popping := by
    rw [manager_phases, h, loading, Code.forM_append, Code.bind_assoc]
  rw [hsplit]
  exact ⟨_, _, hbefore.andThen (Machine.leads_reply
    (c := Spanned.enter (Call.updatePolicy policy)) (r := (⟨0, []⟩ : Reply)) rfl rfl trivial), rfl⟩

/-- Each insertion of the load loop can meet a lookup for a client of the Proxy, and nothing else
can meet. -/
theorem map_races (i j : Thread) (policy : Str) :
    (∃ t c, machine.spanned.Reaches Machine.any unlocked t ∧ i ≠ j ∧
      (t.code i).pending = .calling (.leave (.updatePolicy policy)) ∧
      (t.code j).pending = .calling (.leave c)) ↔
    i = .policyManager ∧ j = .loop .requestListener ∧ policy ∈ demoPolicies := by
  constructor
  · rintro ⟨t, c, ht, hij, hi, hj⟩
    exact insertion_threads ht hij hi hj
  · rintro ⟨rfl, rfl, hpolicy⟩
    obtain ⟨before, after, hsplit⟩ := List.append_of_mem hpolicy
    obtain ⟨t, ht, ⟨req, hreq⟩, hcode⟩ := lookup_begins
    obtain ⟨m, v, hleads, hm⟩ := leads_insertion hsplit t.world
    obtain ⟨u, hu, hinsert, hothers, _⟩ := hleads.of_thread hcode
    refine ⟨u, .validateRequest req, ht.trans hu, nofun, ?_, ?_⟩
    · rw [hinsert, hm]
    · rw [hothers (.loop .requestListener) nofun, hreq]

end System

end SGXess
