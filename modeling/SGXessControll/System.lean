import SGXessControll.Agreement
import SGXessControll.Grants
import SGXessControll.Locking

/-!
# The Controller and the Proxy together

The threads of both processes around one session between them. The policies that arrive at
the Controller are whatever its listener reads, whoever deploys what. The session is that of
`Exchange`: its reads and writes are tried again until they succeed, and what happens behind
one that fails for good is not followed.
-/

namespace SGXess

set_option autoImplicit false

open Calls Queue
open Controller.PolicyManager (PolicyMap demoPolicies)

/-- The loops of the exchange, the Controller's policy listener and the thread of its `main`,
which is that of the manager. -/
inductive Thread where
  | loop (l : Loop)
  | policyListener
  | policyManager
  deriving DecidableEq

/-- The map is that of the exchange. -/
structure System where
  exchange : Exchange
  updateList : Fifo Str := .empty

namespace System

def respond (w : System) (i : Thread) (c : Call) (r : Reply) : Option System :=
  match i, c with
  | .loop l, c => (w.exchange.respond l c r).map fun exchange => { w with exchange }
  | .policyListener, .insertPolicy policy =>
    some { w with updateList := Controller.PolicyManager.handoff.push w.updateList policy }
  | .policyListener, _ => some w
  | .policyManager, .popPolicy =>
    if r.bytes = Controller.PolicyManager.handoff.front w.updateList then
      some { w with updateList := Controller.PolicyManager.handoff.take w.updateList }
    else none
  | .policyManager, .updatePolicy policy =>
    some { w with exchange := { w.exchange with
      policy := Controller.PolicyManager.updatePolicy w.exchange.policy policy } }
  | .policyManager, _ => some w

/-- Every interleaving over a session that does not break. -/
def machine : Machine System Thread Call Reply Empty := ⟨respond, fun _ e => nomatch e⟩

def threads : Thread → Prog Bool
  | .loop l => Exchange.loops l
  | .policyListener => Controller.PolicyListener.runListener
  | .policyManager => do
    Controller.PolicyManager.managePolicy
    return true

/-- No process has done anything. -/
def initial : Config System Thread Call Reply Bool :=
  ⟨threads, ⟨{ policy := fun _ => none }, .empty⟩⟩

/-- The calls of the manager. -/
def Manages (i : Thread) (c : Call) : Prop :=
  i = .policyManager →
    c = .popPolicy ∨ c = .sleep ∨ ∃ policy ∈ demoPolicies, c = .updatePolicy policy

theorem makes_manages (i : Thread) : (threads i).Makes (Manages i) := by
  by_cases hi : i = .policyManager
  · subst hi
    have hload : (demoPolicies.forM fun policy => void (.updatePolicy policy)).Only
        (Manages .policyManager) True :=
      Code.only_forM_mem fun policy h => only_void fun _ => .inr (.inr ⟨policy, h, rfl⟩)
    have hround : Controller.PolicyManager.manageRound.Only (Manages .policyManager) True :=
      only_popRound (k := fun _ => .ret (.inl ())) (fun _ => .inl rfl) (fun _ => .inr (.inl rfl))
        fun _ => trivial
    have hmanage : Controller.PolicyManager.managePolicy.Only (Manages .policyManager) True :=
      hload.bind fun _ => only_whileTrue hround (c := .popPolicy) rfl
    exact (hmanage.bind (f := fun _ => .ret true) fun _ => trivial).makes
  · exact fun _ _ _ _ h => absurd h hi

section Map

open Controller.PolicyManager

/-- The demo policies deny. -/
theorem allows_demoPolicies {policy : Str} (h : policy ∈ demoPolicies) : allows policy = false := by
  simp only [demoPolicies, List.mem_flatMap, List.mem_map, List.mem_range] at h
  obtain ⟨i, hi, j, hj, k, hk, rfl⟩ := h
  have hlen : (demoAddress i j k ++ 0x7c :: text "deny").length < npos := by
    have hi := toStr_length (n := i) (by omega)
    have hj := toStr_length (n := j) (by omega)
    have hk := toStr_length (n := k) (by omega)
    have hdot : (text ".").length = 1 := rfl
    have hhead : (text "192.").length = 4 := rfl
    have hdeny : (text "deny").length = 4 := rfl
    simp only [demoAddress, List.length_append, List.length_cons, npos]
    omega
  have hsplit : demoPolicy i j k = demoAddress i j k ++ 0x7c :: text "deny" := rfl
  rw [hsplit, allows_separator (separator_not_mem i j k) hlen]
  decide

/-- The map denies every address. -/
def Denies (policy : PolicyMap) : Prop := ∀ IP, policy IP ≠ some true

theorem updatePolicy_ne_allow {m : PolicyMap} {policy IP : Str} (hm : m IP ≠ some true)
    (h : allows policy = false) : updatePolicy m policy IP ≠ some true := by
  rw [updatePolicy_eq, h, PolicyMap.insert]
  split
  · cases hIP : m IP with
    | none =>
      intro hnone
      cases hnone
    | some v =>
      rw [Option.some_or, ← hIP]
      exact hm
  · exact hm

theorem Denies.update {m : PolicyMap} {policy : Str} (hm : Denies m) (h : allows policy = false) :
    Denies (updatePolicy m policy) := fun IP => updatePolicy_ne_allow (hm IP) h

theorem Denies.verdict {question : Str × PolicyMap} (h : Denies question.2) :
    Exchange.verdict question = text "Deny" := by
  have hdenied : validateRequest question.2 question.1 ≠ true := by
    intro hallowed
    rw [Store.validateRequest_eq] at hallowed
    cases hIP : question.2 question.1 with
    | none => rw [hIP] at hallowed; cases hallowed
    | some v => rw [hIP] at hallowed; exact h _ (hIP.trans (congrArg some hallowed))
  exact if_neg hdenied

end Map

section Effects

variable {w w' : Exchange} {l : Loop} {c : Call} {r : Reply}

theorem loop_policy (hr : w.respond l c r = some w') : w'.policy = w.policy := by
  cases Exchange.effect hr <;> rfl

/-- Every map a request has been looked up in, and the one there is, denies. -/
structure Denying (w : Exchange) : Prop where
  now : Denies w.policy
  asked : ∀ question ∈ w.asked, Denies question.2

theorem Denying.loop (hw : Denying w) (hr : w.respond l c r = some w') : Denying w' := by
  cases Exchange.effect hr with
  | ask =>
    refine ⟨hw.now, fun question hquestion => ?_⟩
    rcases List.mem_append.mp hquestion with hold | hnew
    · exact hw.asked question hold
    · rw [List.mem_singleton.mp hnew]
      exact hw.now
  | _ => exact ⟨hw.now, hw.asked⟩

end Effects

/-- To the loops of the exchange the other threads are its surroundings. -/
theorem projects : machine.Projects Machine.any Exchange.machine Machine.any Thread.loop Manages
    (fun w v => v = w.exchange ∧ Denying w.exchange) where
  kept := by
    rintro w _ l c r w' ⟨rfl, hw⟩ _ hr _
    obtain ⟨exchange, hexchange, rfl⟩ := Option.map_eq_some_iff.mp hr
    exact ⟨exchange, hexchange, trivial, rfl, hw.loop hexchange⟩
  absorbed := by
    rintro w _ i c r w' ⟨rfl, hw⟩ hi hmanages hr _
    cases i with
    | loop l => exact absurd rfl (hi l)
    | policyListener =>
      refine ⟨w.exchange, .refl, ?_⟩
      cases c <;> cases hr <;> exact ⟨rfl, hw⟩
    | policyManager =>
      rcases hmanages rfl with rfl | rfl | ⟨policy, hpolicy, rfl⟩
      · obtain ⟨_, hw'⟩ := Option.ite_none_right_eq_some.mp hr
        cases hw'
        exact ⟨w.exchange, .refl, rfl, hw⟩
      · cases hr
        exact ⟨w.exchange, .refl, rfl, hw⟩
      · cases hr
        exact ⟨_, .single ⟨_, rfl⟩, rfl, hw.now.update (allows_demoPolicies hpolicy), hw.asked⟩
  moved := by
    intro w v e
    exact nomatch e

/-- To the manager they are its surroundings too. -/
theorem projects_store : machine.Projects Machine.any Controller.PolicyManager.Store.machine
    Machine.any (fun _ : Unit => Thread.policyManager) Manages
    (fun w v => v = ⟨w.updateList, w.exchange.policy⟩) where
  kept := by
    rintro w _ _ c r w' rfl hmanages hr _
    rcases hmanages rfl with rfl | rfl | ⟨policy, hpolicy, rfl⟩
    · obtain ⟨hfront, hw'⟩ := Option.ite_none_right_eq_some.mp hr
      cases hw'
      exact ⟨_, if_pos hfront, trivial, rfl⟩
    · cases hr
      exact ⟨_, rfl, trivial, rfl⟩
    · cases hr
      exact ⟨_, rfl, trivial, rfl⟩
  absorbed := by
    rintro w _ i c r w' rfl hi _ hr _
    cases i with
    | loop l =>
      obtain ⟨exchange, hexchange, rfl⟩ := Option.map_eq_some_iff.mp hr
      exact ⟨_, .refl, by rw [loop_policy hexchange]⟩
    | policyListener =>
      by_cases hc : ∃ policy, c = .insertPolicy policy
      · obtain ⟨policy, rfl⟩ := hc
        cases hr
        exact ⟨_, .single ⟨policy, rfl⟩, rfl⟩
      · have hw' : w' = w := by
          cases c <;> first | exact absurd ⟨_, rfl⟩ hc | (cases hr; rfl)
        exact ⟨_, .refl, by rw [hw']⟩
    | policyManager => exact absurd rfl (hi ())
  moved := by
    intro w v e
    exact nomatch e

theorem prefix_zip_fst {β γ : Type} (xs : List β) (ys : List γ) :
    (xs.zip ys).map Prod.fst <+: xs := by
  induction xs generalizing ys with
  | nil => exact List.prefix_rfl
  | cons x xs ih =>
    cases ys with
    | nil => exact List.nil_prefix
    | cons y ys => exact List.cons_prefix_cons.mpr ⟨rfl, ih ys⟩

variable {t : Config System Thread Call Reply Bool}

/-- Whatever policies arrive, and however far the manager is with loading, every answer the
Controller has sent is a denial, and so are those the Proxy has read, in the order in which its
clients came. -/
theorem clients_denied (ht : machine.Reaches Machine.any initial t) :
    (∀ response ∈ t.world.exchange.responses.inserted, response = text "Deny") ∧
      (∀ client response, (client, response) ∈ t.world.exchange.served → response = text "Deny") ∧
      (∀ buf, (t.code (.loop .requestListener)).pending = .calling (.sslWrite .server buf) →
        buf = text "Deny") ∧
      t.world.exchange.served.map Prod.fst <+:
        t.world.exchange.accepted.map Proxy.ProxyListener.clientString := by
  have hstart : Denying initial.world.exchange := ⟨nofun, nofun⟩
  obtain ⟨_, hreach, ⟨rfl, hdenying⟩, _⟩ := projects.reaches (fun _ _ h => Thread.loop.inj h)
    makes_manages ht (v := initial.world.exchange) ⟨rfl, hstart⟩
  have hlinked := Exchange.linked_of_reaches hreach
  have hsent : ∀ response ∈ t.world.exchange.responses.inserted, response = text "Deny" := by
    intro response hresponse
    obtain ⟨question, hquestion, rfl⟩ := List.mem_map.mp (hlinked.answered.subset hresponse)
    exact (hdenying.asked question hquestion).verdict
  refine ⟨hsent, fun client response hserved => ?_, fun buf hbuf => ?_, ?_⟩
  · rw [hlinked.served] at hserved
    exact hsent response (t.world.exchange.responses.removed_prefix.subset
      (List.of_mem_zip hserved).2)
  · obtain ⟨_, hanswering⟩ := Exchange.owes_of_reaches hreach hbuf
    have hmem : buf ∈ t.world.exchange.asked.map Exchange.verdict := by
      rw [hanswering]
      exact List.mem_concat_self
    obtain ⟨question, hquestion, rfl⟩ := List.mem_map.mp hmem
    exact (hdenying.asked question hquestion).verdict
  · rw [hlinked.served]
    exact (prefix_zip_fst _ _).trans hlinked.sent_clients

/-- A client that the Controller is asked about before a single policy is loaded. -/
def request (client : Str) : List (Event Thread Reply Empty) :=
  let manager r : Event Thread Reply Empty := .reply (.loop .proxyManager) r
  let listener r : Event Thread Reply Empty := .reply (.loop .requestListener) r
  List.replicate 9 (manager ⟨0, []⟩) ++ [listener ⟨0, []⟩, listener ⟨0, []⟩,
    .reply (.loop .proxyListener) ⟨5, [10, 0, 0, 7]⟩, .reply (.loop .proxyListener) ⟨0, []⟩,
    manager ⟨0, client⟩, manager ⟨32, []⟩, listener ⟨32, client⟩, listener ⟨0, []⟩,
    listener ⟨4, []⟩, manager ⟨4, text "Deny"⟩]

theorem clients_denied_served : ∃ t, machine.Reaches Machine.any initial t ∧
    ∃ response, t.world.exchange.served =
      [(Proxy.ProxyListener.clientString [10, 0, 0, 7], response)] ∧ response = text "Deny" := by
  have hrun : machine.observe (fun w => w.exchange.served) initial
      (request (Proxy.ProxyListener.clientString [10, 0, 0, 7])) (.loop .proxyManager) =
      some (.calling .popClient,
        [(Proxy.ProxyListener.clientString [10, 0, 0, 7], text "Deny")]) := by
    decide +kernel
  obtain ⟨t, ht, _, hserved⟩ := Machine.reaches_of_observe hrun
  have hmem : (Proxy.ProxyListener.clientString [10, 0, 0, 7], text "Deny") ∈
      t.world.exchange.served := by
    rw [hserved]
    exact List.mem_singleton_self _
  exact ⟨t, ht, _, hserved, (clients_denied ht).2.1 _ _ hmem⟩

/-- Once the manager is in its loop, the answers are those of the demo policies for good. -/
theorem policies_frozen (ht : machine.Reaches Machine.any initial t) {c : Call}
    (hc : (t.code .policyManager).pending = .calling c)
    (hloop : Controller.PolicyManager.Store.ofLoop c) :
    t.world.exchange.policy = Controller.PolicyManager.loaded := by
  obtain ⟨_, hreach, rfl, _⟩ := projects_store.reaches (fun _ _ _ => rfl) makes_manages ht
    (v := ⟨.empty, fun _ => none⟩) rfl
  have hthread := Setting.triple_bind Controller.PolicyManager.Store.triple_managePolicy fun _ =>
    Setting.triple_of_false (m := .ret true) (Φ := fun _ _ => False) fun _ h => h
  exact (hreach.alone hthread rfl).pre hc hloop

theorem policies_frozen_loaded : ∃ t, machine.Reaches Machine.any initial t ∧
    (t.code .policyManager).pending = .calling .popPolicy ∧
    t.world.exchange.policy = Controller.PolicyManager.loaded := by
  have hupdate : ∀ policy w, (machine.thread .policyManager).Leads Machine.any
      (void (.updatePolicy policy)) w (.ret ⟨⟩) { w with exchange := { w.exchange with
        policy := Controller.PolicyManager.updatePolicy w.exchange.policy policy } } :=
    fun policy w => leads_void (r := ⟨0, []⟩) rfl trivial
  have hload := Machine.leads_forM (g := fun (w : System) policy => { w with
    exchange := { w.exchange with
      policy := Controller.PolicyManager.updatePolicy w.exchange.policy policy } })
    demoPolicies hupdate initial.world
  have hmanage := (hload.bind fun _ => Controller.PolicyManager.manageLoop).bind fun _ =>
    Code.ret true
  have hthread : threads .policyManager = Controller.PolicyManager.managePolicy.bind fun _ =>
      Code.ret true := rfl
  obtain ⟨t, ht, hcode, _, _⟩ := hmanage.of_thread hthread
  have hpending : (t.code .policyManager).pending = .calling .popPolicy := by
    rw [hcode]
    rfl
  exact ⟨t, ht, hpending, policies_frozen ht hpending (.inl rfl)⟩

end System

end SGXess
