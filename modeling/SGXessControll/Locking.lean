import SGXessControll.Calls.Locks
import SGXessControll.Handoff
import SGXessControll.Listeners

/-!
# The managers under their locks

`insertPolicy`, `popPolicy`, `insertClient` and `popClient` statement by statement: the lock,
the calls of the list one after the other, and the lock again. However many threads run them,
they come to what the sections make of the list at once.
-/

namespace SGXess

set_option autoImplicit false

open Calls Queue

/-- The members of `std::list` that the sections call. -/
inductive ListCall where
  | empty
  | front
  | popFront
  | pushBack (x : Str)
  deriving DecidableEq

/-- The list and what has passed through it. `front` and `pop_front` have no meaning on an empty
list. -/
def ListCall.apply (q : Fifo Str) (c : ListCall) (r : Reply) : Option (Fifo Str) :=
  match c with
  | .empty => if r.ret = q.waiting.isEmpty.toInt then some q else none
  | .front => if q.waiting.head? = some r.bytes then some q else none
  | .popFront => if q.waiting.isEmpty = true then none else some q.pop
  | .pushBack x => some (q.push x)

abbrev Section := Code ListCall Reply Reply

def pushBackSection (x : Str) : Section := do
  let _ ← Code.ask (.pushBack x)
  return ⟨0, []⟩

/-- It returns what the caller's string holds afterwards. -/
def popFrontSection (x : Str) : Section := do
  let empty ← Code.ask .empty
  if empty.ret = 0 then
    let front ← Code.ask .front
    let _ ← Code.ask .popFront
    return ⟨0, front.bytes⟩
  return ⟨0, x⟩

namespace Controller.PolicyManager.Section

def insertPolicy (policy : Str) : Section := pushBackSection policy

def popPolicy (policy : Str) : Section := popFrontSection policy

end Controller.PolicyManager.Section

namespace Deployer.PolicyManager.Section

def insertPolicy (policy : Str) : Section := pushBackSection policy

def popPolicy (policy : Str) : Section := popFrontSection policy

end Deployer.PolicyManager.Section

namespace Proxy.ProxyManager.Section

def insertClient (client : Str) : Section := pushBackSection client

def popClient (client : Str) : Section := popFrontSection client

end Proxy.ProxyManager.Section

section Finishes

variable {S : Sections ListCall Call Reply (Fifo Str)} (happly : S.apply = ListCall.apply)
include happly

theorem finishes_pushBack (q : Fifo Str) (x : Str) :
    S.Finishes ⟨0, []⟩ (q.push x) 3 (pushBackSection x) q := by
  refine .access (a := .pushBack x) rfl ⟨⟨0, []⟩, q.push x, by rw [happly]; rfl⟩ fun r d h => ?_
  rw [happly] at h
  cases h
  exact .ret _

theorem finishes_popFront (q : Fifo Str) (x : Str) :
    S.Finishes ⟨0, q.waiting.headD x⟩ q.pop 3 (popFrontSection x) q := by
  have hcan : S.apply q .empty ⟨q.waiting.isEmpty.toInt, []⟩ = some q := by
    rw [happly]
    exact if_pos rfl
  refine .access (a := .empty) rfl ⟨_, _, hcan⟩ fun r d h => ?_
  rw [happly] at h
  obtain ⟨hret, hd⟩ := Option.ite_none_right_eq_some.mp h
  cases hd
  cases hq : q.waiting with
  | nil =>
    rw [hq] at hret
    have hempty : (popFrontSection x).resume r = .ret ⟨0, x⟩ := if_neg (by rw [hret]; decide)
    rw [hempty, q.pop_of_nil hq]
    exact .ret _
  | cons y rest =>
    rw [hq] at hret
    have hfull : (popFrontSection x).resume r = (Code.ask .front).bind fun front =>
        (Code.ask .popFront).bind fun _ => .ret ⟨0, front.bytes⟩ := if_pos hret
    have hfront : S.apply q .front ⟨0, y⟩ = some q := by
      rw [happly]
      exact if_pos (by rw [hq]; rfl)
    have hpop : S.apply q .popFront ⟨0, []⟩ = some q.pop := by
      rw [happly]
      exact if_neg (by simp [hq])
    rw [hfull]
    refine .access (a := .front) rfl ⟨_, _, hfront⟩ fun r d h => ?_
    rw [happly] at h
    obtain ⟨hr, hd⟩ := Option.ite_none_right_eq_some.mp h
    cases hd
    rw [hq, List.head?_cons, Option.some.injEq] at hr
    refine .access (a := .popFront) rfl ⟨_, _, hpop⟩ fun r₁ d h => ?_
    rw [happly] at h
    obtain ⟨_, hd⟩ := Option.ite_none_left_eq_some.mp h
    cases hd
    rw [List.headD_cons, hr]
    exact .ret _

end Finishes

/-- A manager: what its two sections do to its list, which calls they are, and its loop, which
empties the list and leaves filling it to others. -/
structure Manager where
  handoff : Handoff
  inserted : Call → Option Str
  pop : Call
  insertSection : Str → Section
  popSection : Str → Section
  loop : Prog Unit
  insertSection_eq : ∀ x, insertSection x = pushBackSection x
  popSection_eq : ∀ x, popSection x = popFrontSection x
  isPop_pop : Bench.isPop pop = true
  isPop_inserted : ∀ c x, inserted c = some x → Bench.isPop c = false
  only_loop : loop.Only (fun c => inserted c = none ∧ (Bench.isPop c = true → c = pop)) True
  faithful : handoff.Faithful loop

section Loops

variable {p : Call → Prop}

/-- The member functions of the managers. -/
def ofManagers : Call → Bool
  | .insertPolicy _ | .insertClient _ | .popPolicy | .popClient | .updatePolicy _
  | .validateRequest _ => true
  | _ => false

theorem only_popRound {γ : Type} {pop : Call} {k : Str → Prog (Unit ⊕ γ)} (hpop : p pop)
    (hsleep : p .sleep) (hk : ∀ x, (k x).Only p True) :
    ((Code.ask pop).bind fun reply =>
        if reply.bytes.isEmpty = true then (void .sleep).bind fun _ => .ret (.inl ())
        else k reply.bytes).Only p True :=
  (Code.only_ask hpop).bind fun _ => Code.only_ite ((only_void hsleep).bind fun _ => trivial) (hk _)

theorem only_whileTrue {γ : Type} {body : Prog (Unit ⊕ γ)} (hbody : body.Only p True) {c : Call}
    (hc : body.pending = .calling c) : (Code.whileTrue body).Only p True := by
  refine ⟨fun _ => hbody, fun _ b' hp => ?_, fun _ => trivial⟩
  rw [hc] at hp
  cases hp

variable (hother : ∀ c, ofManagers c = false → p c)
include hother

theorem only_controller_manageLoop (hpop : p .popPolicy) :
    Controller.PolicyManager.manageLoop.Only p True :=
  only_whileTrue (only_popRound hpop (hother _ rfl) (k := fun _ => .ret (.inl ()))
    fun _ => trivial) (c := .popPolicy) rfl

theorem hother_connect (c : Call) (hc : TLSClient.ofConnect c = true) : p c := by
  refine hother c ?_
  cases c <;> first | rfl | cases hc

theorem only_terminate_other : TLSClient.terminate.Only p True :=
  TLSClient.only_terminate (hother _ rfl) (hother _ rfl) (hother _ rfl)

theorem only_deployer_managePolicy (hpop : p .popPolicy) :
    Deployer.PolicyManager.managePolicy.Only p True := by
  refine only_whileTrue ?_ (c := .popPolicy) rfl
  refine only_popRound hpop (hother _ rfl) (k := fun policy =>
    (Deployer.PolicyDeployer.deployPolicy policy _ _).bind fun _ => .ret _) fun policy => ?_
  exact (Deployer.PolicyDeployer.only_deployPolicy (hother_connect hother) (hother _ rfl)
    (only_terminate_other hother)).bind fun _ => trivial

theorem only_proxy_manageClient (hpop : p .popClient) :
    Proxy.ProxyManager.manageClient.Only p True := by
  have hreceive : Proxy.ProxyManager.receiveRound.Only p True :=
    (only_sslRecvMsg (hother _ rfl)).bind fun _ => trivial
  refine (Proxy.ProxyManager.only_setTLSClient (hother_connect hother)
    (only_terminate_other hother)).bind fun _ => Code.only_ite trivial ?_
  refine only_whileTrue ?_ (c := .popClient) rfl
  refine only_popRound hpop (hother _ rfl) (k := Proxy.ProxyManager.serve) fun client => ?_
  refine (only_sslSendMsg (hother _ rfl)).bind fun _ => Code.only_ite ?_ hreceive
  exact (Proxy.ProxyManager.only_resend (hother_connect hother) (only_terminate_other hother)
    (hother _ rfl)).bind fun _ => Code.only_ite trivial hreceive

end Loops

def Controller.PolicyManager.manager : Manager where
  handoff := handoff
  inserted | .insertPolicy policy => some policy | _ => none
  pop := .popPolicy
  insertSection := Section.insertPolicy
  popSection := Section.popPolicy
  loop := managePolicy
  insertSection_eq _ := rfl
  popSection_eq _ := rfl
  isPop_pop := rfl
  isPop_inserted c x h := by cases c <;> first | rfl | cases h
  only_loop := by
    refine (Code.only_forM (fun policy => only_void ⟨rfl, nofun⟩) _).bind fun _ =>
      only_controller_manageLoop (fun c hc => ?_) ⟨rfl, fun _ => rfl⟩
    cases c <;> first | exact Bool.noConfusion hc | exact ⟨rfl, nofun⟩
  faithful := handoff.faithful_of_triple triple_controller_managePolicy

def Deployer.PolicyManager.manager : Manager where
  handoff := handoff
  inserted | .insertPolicy policy => some policy | _ => none
  pop := .popPolicy
  insertSection := Section.insertPolicy
  popSection := Section.popPolicy
  loop := managePolicy
  insertSection_eq _ := rfl
  popSection_eq _ := rfl
  isPop_pop := rfl
  isPop_inserted c x h := by cases c <;> first | rfl | cases h
  only_loop := by
    refine only_deployer_managePolicy (fun c hc => ?_) ⟨rfl, fun _ => rfl⟩
    cases c <;> first | exact Bool.noConfusion hc | exact ⟨rfl, nofun⟩
  faithful := handoff.faithful_of_triple triple_deployer_managePolicy

def Proxy.ProxyManager.manager : Manager where
  handoff := handoff
  inserted | .insertClient client => some client | _ => none
  pop := .popClient
  insertSection := Section.insertClient
  popSection := Section.popClient
  loop := do
    let _ ← manageClient
  insertSection_eq _ := rfl
  popSection_eq _ := rfl
  isPop_pop := rfl
  isPop_inserted c x h := by cases c <;> first | rfl | cases h
  only_loop := by
    refine (only_proxy_manageClient (fun c hc => ?_) ⟨rfl, fun _ => rfl⟩).bind fun _ => trivial
    cases c <;> first | exact Bool.noConfusion hc | exact ⟨rfl, nofun⟩
  faithful := by
    refine handoff.faithful_of_triple (Φ := fun _ => Bench.Ready) ?_
    exact Setting.triple_bind triple_proxy_manageClient fun _ =>
      Setting.triple_ret Bench.ready_stable fun _ hw => hw

namespace Manager

variable (m : Manager)

/-- The string behind `popPolicy(policy)` and `popClient(client)` is a fresh one. -/
def sections : Sections ListCall Call Reply (Fifo Str) where
  apply := ListCall.apply
  body c := if c = m.pop then some (m.popSection []) else (m.inserted c).map m.insertSection
  effect q c :=
    if c = m.pop then (⟨0, m.handoff.front q⟩, m.handoff.take q)
    else (⟨0, []⟩, ((m.inserted c).map (m.handoff.push q)).getD q)

/-- What the other calls are answered is left open. -/
def surroundings (ι : Type) : Machine Unit ι Call Reply Empty :=
  ⟨fun _ _ _ _ => some (), fun _ e => nomatch e⟩

/-- Any number of threads, each statement of a section a step of its own. -/
def machine (ι : Type) : Machine (Guarded ι (Fifo Str) Unit) ι (Locked ListCall Call) Reply Empty :=
  m.sections.machine (surroundings ι)

theorem sound : m.sections.Sound 3 := by
  intro c code q hbody
  simp only [sections] at hbody ⊢
  by_cases hc : c = m.pop
  · rw [if_pos hc] at hbody ⊢
    cases hbody
    rw [m.popSection_eq, m.handoff.take_eq, Handoff.front, m.handoff.pop_eq]
    exact finishes_popFront rfl q []
  · rw [if_neg hc] at hbody ⊢
    obtain ⟨x, hx, rfl⟩ := Option.map_eq_some_iff.mp hbody
    rw [m.insertSection_eq, hx, Option.map_some, Option.getD_some, m.handoff.push_eq]
    exact finishes_pushBack rfl q x

section Runs

open Deployer.PolicyManager (manager)

/-- A policy and the manager that deploys it. -/
def deployment (i : Bool) : Prog Unit :=
  if i then manager.loop else void (.insertPolicy (text "1.2.3.4"))

abbrev deploying : Config (Guarded Bool (Fifo Str) Unit) Bool (Locked ListCall Call) Reply Unit :=
  manager.sections.opened deployment .empty ()

/-- Whoever makes it, a call that returns nothing of use. -/
def done (i : Bool) : Event Bool Reply Empty := .reply i ⟨0, []⟩

variable {m} {ι : Type} [DecidableEq ι] {code : ι → Prog Unit} {i : ι}
variable {t : Config (Guarded ι (Fifo Str) Unit) ι (Locked ListCall Call) Reply Unit}

/-- Nobody touches the list or unlocks without having the lock, and `front` and `pop_front` are
never called on an empty list. -/
theorem list_guarded (m : Manager) (code : ι → Prog Unit)
    (ht : (m.machine ι).Reaches Machine.any (m.sections.opened code .empty ()) t)
    {c : Locked ListCall Call} (hc : (t.code i).pending = .calling c) :
    (c = .unlock ∨ (∃ a, c = .access a) → t.world.holder = some i) ∧
      (c = .access .front ∨ c = .access .popFront → t.world.data.waiting ≠ []) := by
  obtain ⟨hunlock, haccess⟩ := m.sound.exclusive ht hc
  constructor
  · intro h
    rcases h with h | ⟨a, h⟩
    · exact hunlock h
    · exact (haccess a h).1
  · intro h hnil
    rcases h with h | h
    · obtain ⟨_, r, d, happly⟩ := haccess _ h
      have hhead := (Option.ite_none_right_eq_some.mp happly).1
      rw [hnil] at hhead
      cases hhead
    · obtain ⟨_, r, d, happly⟩ := haccess _ h
      have hfull := (Option.ite_none_left_eq_some.mp happly).1
      rw [hnil] at hfull
      exact hfull rfl

theorem list_guarded_front : ∃ t, (manager.machine Bool).Reaches Machine.any deploying t ∧
    t.world.holder = some true ∧ t.world.data.waiting ≠ [] := by
  have hsee : (manager.machine Bool).observe (fun _ => ()) deploying
      [done false, done false, done false, done true, done true] true =
        some (.calling (.access .front), ()) := by rfl
  obtain ⟨t, ht, hpending, _⟩ := Machine.reaches_of_observe hsee
  obtain ⟨hheld, hfull⟩ := list_guarded _ deployment ht hpending
  exact ⟨t, ht, hheld (.inr ⟨_, rfl⟩), hfull (.inl rfl)⟩

/-- Nobody waits for the lock in vain: the holder gives it back by itself within four steps. -/
theorem lock_obtained (m : Manager) (code : ι → Prog Unit)
    (ht : (m.machine ι).Reaches Machine.any (m.sections.opened code .empty ()) t)
    (hc : (t.code i).pending = .calling .lock) : ∃ es u, es.length ≤ 4 ∧
      (∀ e ∈ es, ∃ j r, e = .reply j r ∧ t.world.holder = some j) ∧
      (m.machine ι).run t (es ++ [.reply i ⟨0, []⟩]) = some u ∧ u.world.holder = some i :=
  m.sound.obtains ⟨0, []⟩ ht hc

/-- The manager waits while the policy is pushed. -/
theorem lock_obtained_waiting : ∃ t, (manager.machine Bool).Reaches Machine.any deploying t ∧
    t.world.holder = some false ∧ ∃ es u, es.length ≤ 4 ∧
      (∀ e ∈ es, ∃ j r, e = .reply j r ∧ t.world.holder = some j) ∧
      (manager.machine Bool).run t (es ++ [done true]) = some u ∧
      u.world.holder = some true := by
  have hsee : (manager.machine Bool).observe Guarded.holder deploying [done false] true =
      some (.calling .lock, some false) := by rfl
  obtain ⟨t, ht, hpending, hheld⟩ := Machine.reaches_of_observe hsee
  exact ⟨t, ht, hheld, lock_obtained _ deployment ht hpending⟩

section Atomic

variable {v v' : Fifo Str × Unit} {c : Call} {r : Reply}

omit [DecidableEq ι] in
theorem respond_pop (hr : (m.sections.atomic (surroundings ι)).respond v i m.pop r = some v') :
    r = ⟨0, m.handoff.front v.1⟩ ∧ v'.1 = m.handoff.take v.1 := by
  have hbody : m.sections.body m.pop = some (m.popSection []) := if_pos rfl
  have heffect : m.sections.effect v.1 m.pop =
      (⟨0, m.handoff.front v.1⟩, m.handoff.take v.1) := if_pos rfl
  simp only [Sections.atomic, hbody, heffect] at hr
  obtain ⟨rfl, hv⟩ := Option.ite_none_right_eq_some.mp hr
  cases hv
  exact ⟨rfl, rfl⟩

omit [DecidableEq ι] in
theorem respond_inserted {x : Str} (hc : c ≠ m.pop) (hx : m.inserted c = some x)
    (hr : (m.sections.atomic (surroundings ι)).respond v i c r = some v') :
    v'.1 = m.handoff.push v.1 x := by
  have hbody : m.sections.body c = some (m.insertSection x) := by
    simp only [sections, if_neg hc, hx, Option.map_some]
  have heffect : m.sections.effect v.1 c = (⟨0, []⟩, m.handoff.push v.1 x) := by
    simp only [sections, if_neg hc, hx, Option.map_some, Option.getD_some]
  simp only [Sections.atomic, hbody, heffect] at hr
  obtain ⟨_, hv⟩ := Option.ite_none_right_eq_some.mp hr
  cases hv
  rfl

omit [DecidableEq ι] in
theorem respond_other (hc : c ≠ m.pop) (hx : m.inserted c = none)
    (hr : (m.sections.atomic (surroundings ι)).respond v i c r = some v') : v'.1 = v.1 := by
  have hbody : m.sections.body c = none := by
    simp only [sections, if_neg hc, hx, Option.map_none]
  simp only [Sections.atomic, hbody] at hr
  obtain ⟨_, _, rfl⟩ := Option.map_eq_some_iff.mp hr
  rfl

/-- What the manager's loop calls, and what the threads beside it do not. -/
def Keeps (m : Manager) (i₀ i : ι) (c : Call) : Prop :=
  if i = i₀ then m.inserted c = none ∧ (Bench.isPop c = true → c = m.pop) else c ≠ m.pop

/-- With the manager's loop for one thread and threads that only insert for the others, the
sections are answered to the loop as to the bench. -/
theorem projects (m : Manager) (i₀ : ι) :
    (m.sections.atomic (surroundings ι)).Projects Machine.any (Bench.machine m.handoff)
      Machine.any (fun _ : Unit => i₀) (m.Keeps i₀) (fun v w => w.queue = v.1) where
  kept := by
    intro v w _ c r v' hw hp hr _
    rw [Keeps, if_pos rfl] at hp
    simp only [Bench.machine, Bench.respond]
    by_cases hc : c = m.pop
    · subst hc
      obtain ⟨rfl, hv⟩ := respond_pop hr
      rw [if_pos m.isPop_pop, if_pos (by rw [hw])]
      exact ⟨_, rfl, trivial, by rw [hv, hw]⟩
    · have hpop : Bench.isPop c = false := by
        rw [Bool.eq_false_iff]
        exact fun h => hc (hp.2 h)
      rw [hpop, if_neg Bool.false_ne_true]
      exact ⟨_, rfl, trivial, by rw [Bench.settle_queue, hw, respond_other hc hp.1 hr]⟩
  absorbed := by
    intro v w i c r v' hw hi hp hr _
    rw [Keeps, if_neg (fun h => hi () h.symm)] at hp
    cases hx : m.inserted c with
    | none => exact ⟨w, .refl, by rw [hw, respond_other hp hx hr]⟩
    | some x =>
      refine ⟨_, .single ⟨x, rfl⟩, ?_⟩
      rw [respond_inserted hp hx hr, ← hw]
  moved := by
    intro v w e
    exact e.elim

end Atomic

/-- Whatever the steps of the other threads come between, the loop goes on with exactly the
non-empty strings that were pushed, in the order of the pushes, and what the lock leaves in the
list is what has not been taken yet. -/
theorem loop_in_order (m : Manager) (i₀ : ι) (code : ι → Prog Unit) (hloop : code i₀ = m.loop)
    (hothers : ∀ i, i ≠ i₀ → (code i).Only (· ≠ m.pop) True)
    (ht : (m.machine ι).Reaches Machine.any (m.sections.opened code .empty ()) t) :
    ∃ b, (Bench.machine m.handoff).Reaches Machine.any (solo m.loop {}) b ∧ b.world.InOrder ∧
      (t.world.holder = none → b.world.queue = t.world.data) ∧
      ∀ c, (t.code i₀).pending = .calling (.other c) → (b.code ()).pending = .calling c ∧
        ∀ x, b.world.hand = some x → (c = .sleep ↔ x = []) := by
  obtain ⟨u, inside, hreach, hbehind, hstands⟩ := m.sound.reaches ht
  have hmakes : ∀ i, (code i).Makes (m.Keeps i₀ i) := by
    intro i
    by_cases hi : i = i₀
    · subst hi
      have hkeeps : m.Keeps i i = fun c => m.inserted c = none ∧
          (Bench.isPop c = true → c = m.pop) := funext fun c => if_pos rfl
      rw [hloop, hkeeps]
      exact m.only_loop.makes
    · have hkeeps : m.Keeps i₀ i = fun c => c ≠ m.pop := funext fun c => if_neg hi
      rw [hkeeps]
      exact (hothers i hi).makes
  obtain ⟨b, hb, hqueue, _⟩ := (m.projects i₀).reaches (v := ({} : Bench)) (fun _ _ _ => rfl)
    hmakes hreach rfl
  have hsolo : (fun _ : Unit => code i₀) = fun _ => m.loop := by rw [hloop]
  rw [hsolo] at hb
  obtain ⟨_, _, horder, hdecides⟩ := m.faithful _ hb
  refine ⟨_, hb, horder, fun hfree => ?_, fun c hc => ?_⟩
  · have hdata := (hbehind.free (by rw [hfree]; rfl)).2.2
    rw [hqueue, hdata]
  · have hcalling := hbehind.other (hstands i₀) hc
    exact ⟨hcalling, fun x hx => hdecides x c hx hcalling⟩

/-- The manager has found the policy and is about to connect. -/
theorem loop_in_order_deploying : ∃ t b, (manager.machine Bool).Reaches Machine.any deploying t ∧
    (Bench.machine manager.handoff).Reaches Machine.any (solo manager.loop {}) b ∧
    b.world.InOrder ∧ b.world.queue.removed = [text "1.2.3.4"] ∧
    (b.code ()).pending = .calling .clientInit := by
  have hsee : (manager.machine Bool).observe (fun g => (g.holder, g.data.removed)) deploying
      [done false, done false, done false, done true, done true,
        .reply true ⟨0, text "1.2.3.4"⟩, done true, done true] true =
        some (.calling (.other .clientInit), (none, [text "1.2.3.4"])) := by rfl
  obtain ⟨t, ht, hpending, hgain⟩ := Machine.reaches_of_observe hsee
  obtain ⟨hfree, hremoved⟩ := Prod.mk.inj hgain
  obtain ⟨b, hb, horder, hqueue, hcalling⟩ := loop_in_order _ true deployment rfl
    (fun i hi => by cases i with
      | true => exact absurd rfl hi
      | false => exact only_void nofun) ht
  exact ⟨t, b, ht, hb, horder, by rw [hqueue hfree, hremoved], (hcalling _ hpending).1⟩

end Runs

end Manager

end SGXess
