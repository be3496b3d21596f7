import SGXessControll.Managers
import SGXessControll.Queue.Fifo

/-!
# The hand-off queues

The list of each manager with its history is a first-in first-out queue, and the loop
behind it goes on with exactly the non-empty strings it takes out.
-/

namespace SGXess

set_option autoImplicit false

open Calls Queue

/-- The two locked sections of a manager. -/
structure Handoff where
  insert : List Str → Str → List Str
  pop : List Str → Str → Str × List Str
  insert_eq : ∀ list x, insert list x = list ++ [x]
  pop_eq : ∀ list x, pop list x = (list.headD x, list.tail)

theorem popFront_eq (list : List Str) (x : Str) : popFront list x = (list.headD x, list.tail) := by
  cases list with
  | nil => rfl
  | cons y list => rfl

def Controller.PolicyManager.handoff : Handoff :=
  ⟨insertPolicy, popPolicy, fun _ _ => rfl, popFront_eq⟩

def Deployer.PolicyManager.handoff : Handoff :=
  ⟨insertPolicy, popPolicy, fun _ _ => rfl, popFront_eq⟩

def Proxy.ProxyManager.handoff : Handoff :=
  ⟨insertClient, popClient, fun _ _ => rfl, popFront_eq⟩

namespace Handoff

variable (h : Handoff)

def push (q : Fifo Str) (x : Str) : Fifo Str where
  waiting := h.insert q.waiting x
  inserted := q.inserted ++ [x]
  removed := q.removed
  conserved := by rw [h.insert_eq, q.conserved, List.append_assoc]

/-- The string popped into a fresh one. -/
def front (q : Fifo Str) : Str := (h.pop q.waiting []).1

def take (q : Fifo Str) : Fifo Str where
  waiting := (h.pop q.waiting []).2
  inserted := q.inserted
  removed := q.removed ++ if q.waiting.isEmpty then [] else [h.front q]
  conserved := by
    rw [front, h.pop_eq, q.conserved]
    cases q.waiting <;> simp

theorem push_eq (q : Fifo Str) (x : Str) : h.push q x = q.push x := by
  simp only [push, Fifo.push, h.insert_eq]

theorem take_eq (q : Fifo Str) : h.take q = q.pop := by
  have hw : (h.take q).waiting = q.pop.waiting := by
    simp only [take, h.pop_eq, q.pop_waiting]
  have hr : (h.take q).removed = q.pop.removed := by
    simp only [take, front, h.pop_eq, q.pop_removed]
    cases q.waiting <;> rfl
  exact Fifo.ext hw (q.pop_inserted.symm) hr

theorem front_of_nil {q : Fifo Str} (hq : q.waiting = []) : h.front q = [] := by
  rw [front, h.pop_eq, hq]
  rfl

theorem take_of_nil {q : Fifo Str} (hq : q.waiting = []) : h.take q = q := by
  rw [take_eq, Fifo.pop_of_nil hq]

/-- The non-empty strings taken out grow by the one just popped, if it is one. -/
theorem take_removed (q : Fifo Str) :
    (h.take q).removed.filter (· ≠ []) = q.removed.filter (· ≠ []) ++
      [h.front q].filter (· ≠ []) := by
  rw [take, List.filter_append]
  congr 1
  cases hq : q.waiting with
  | nil => rw [h.front_of_nil hq]; rfl
  | cons x rest => rfl

end Handoff

/-- A manager at work: `hand` is what it popped last and has not decided on, which the next
call does. -/
structure Bench where
  queue : Fifo Str := Fifo.empty
  hand : Option Str := none
  processed : List Str := []

namespace Bench

/-- `sleep` puts the string in hand aside, every other call goes on with it. -/
def settle (w : Bench) (c : Call) : Bench :=
  match w.hand with
  | none => w
  | some x =>
    if c = .sleep then { w with hand := none }
    else { w with hand := none, processed := w.processed ++ [x] }

def isPop : Call → Bool
  | .popPolicy | .popClient => true
  | _ => false

/-- All calls but the pop may be answered in any way. -/
def respond (h : Handoff) (w : Bench) (_ : Unit) (c : Call) (r : Reply) : Option Bench :=
  if isPop c = true then
    if r.bytes = h.front w.queue then
      some { w.settle c with queue := h.take w.queue, hand := some r.bytes }
    else none
  else some (w.settle c)

def insert (h : Handoff) (w : Bench) (x : Str) : Option Bench :=
  some { w with queue := h.push w.queue x }

def machine (h : Handoff) : Machine Bench Unit Call Reply Str := ⟨respond h, insert h⟩

/-- What has been gone on with, and what will be. -/
def InOrder (w : Bench) : Prop :=
  w.processed ++ w.hand.toList.filter (· ≠ []) = w.queue.removed.filter (· ≠ [])

/-- A string is put aside exactly if it is empty. -/
def Decides (c : Call) (w : Bench) : Prop := ∀ x, w.hand = some x → (c = .sleep ↔ x = [])

variable {h : Handoff} {w w' : Bench} {c : Call} {r : Reply}

theorem settle_queue : (w.settle c).queue = w.queue := by
  unfold settle
  cases w.hand with
  | none => rfl
  | some x => by_cases hc : c = .sleep <;> simp [hc]

theorem settle_hand : (w.settle c).hand = none := by
  unfold settle
  cases hw : w.hand with
  | none => exact hw
  | some x => by_cases hc : c = .sleep <;> simp [hc]

theorem InOrder.settle (hw : w.InOrder) (hc : Decides c w) :
    (w.settle c).processed = w.queue.removed.filter (· ≠ []) := by
  unfold InOrder at hw
  rw [← hw]
  unfold Bench.settle
  cases hx : w.hand with
  | none => simp
  | some x =>
    have hdec := hc x hx
    by_cases hs : c = .sleep
    · simp [hs, hdec.mp hs]
    · have hne : x ≠ [] := fun hnil => hs (hdec.mpr hnil)
      simp [hs, hne]

theorem InOrder.respond (hw : w.InOrder) (hc : Decides c w) (hr : respond h w () c r = some w') :
    w'.InOrder := by
  have hset := hw.settle hc
  unfold Bench.respond at hr
  split at hr
  · split at hr
    · rename_i hfront
      cases hr
      simp only [InOrder, hset, h.take_removed, hfront, Option.toList_some]
    · cases hr
  · cases hr
    simp [InOrder, hset, settle_hand, settle_queue]

/-- At the head of the loop no empty string waits for a decision. -/
def Ready (w : Bench) : Prop := w.hand ≠ some []

/-- The calls a manager makes on behalf of a string it popped. -/
def ofWork (c : Call) : Prop := c ≠ .sleep ∧ isPop c = false

abbrev manager (h : Handoff) : Setting Bench Call Reply :=
  (machine h).alone Machine.any Decides fun _ => True

section Rules

variable {A : Bench → Prop} {α : Type}

theorem stable_insert {ok : Bench → Unit → Call → Reply → Prop} {pre : Call → Bench → Prop}
    {fault : Bench → Prop} (hA : ∀ w x, A w → A { w with queue := h.push w.queue x }) :
    ((machine h).alone ok pre fault).Stable A := by
  apply Machine.stable_alone
  intro w x w' hw hm
  cases hm
  exact hA w x hw

theorem ready_stable : (manager h).Stable Ready := stable_insert fun _ _ hw => hw

theorem Ready.decides (hw : w.Ready) (hc : c ≠ .sleep) : Decides c w := by
  intro x hx
  constructor
  · intro hs
    exact absurd hs hc
  · intro hnil
    exact absurd (hnil ▸ hx) hw

theorem ready_respond (hc : isPop c = false) (hr : respond h w () c r = some w') : w'.Ready := by
  simp only [respond, hc, Bool.false_eq_true, if_false, Option.some.injEq] at hr
  rw [Ready, ← hr, settle_hand]
  exact Option.some_ne_none _ |>.symm

theorem triple_work {m : Prog α} (hm : m.Only ofWork True) :
    (manager h).Triple Ready m (fun _ => Ready) := by
  refine Setting.triple_only ready_stable ?_ ?_ (fun _ _ _ => trivial) hm
  · intro c w hc hw
    exact hw.decides hc.1
  · intro w c r w' hc _ hr
    exact ready_respond hc.2 hr.1

/-- A round pops, sleeps on the empty string and works on any other. -/
theorem triple_round {γ : Type} {pop : Call} (hpop : isPop pop = true)
    {k : Str → Prog (Unit ⊕ γ)} (hk : ∀ x, (k x).Only ofWork True) :
    (manager h).Triple Ready
      ((Code.ask pop).bind fun reply =>
        if reply.bytes.isEmpty = true then (void .sleep).bind fun _ => .ret (.inl ())
        else k reply.bytes)
      (Setting.Round (fun _ => Ready) fun _ => Ready) := by
  have hhand : ∀ x : Str, (manager h).Stable fun w => w.hand = some x :=
    fun x => stable_insert fun _ _ hw => hw
  apply triple_popRound (B := fun x w => w.hand = some x) ready_stable
  · apply Setting.triple_ask ready_stable (fun _ => hhand _)
    · intro w hw
      apply hw.decides
      intro hs
      rw [hs] at hpop
      cases hpop
    · intro w r w' _ hr
      obtain ⟨hr, _⟩ := hr
      simp only [machine, respond, hpop, if_true] at hr
      split at hr
      · cases hr
        rfl
      · cases hr
  · apply triple_void (hhand _) ready_stable
    · intro w hw x hx
      rw [hw] at hx
      cases hx
      exact ⟨fun _ => rfl, fun _ => rfl⟩
    · intro w r w' _ hr
      exact ready_respond (h := h) (c := .sleep) (r := r) rfl hr.1
  · intro x hne
    refine ((triple_work (hk x)).post ?_).pre ?_
    · intro y w hw
      cases y with
      | inl _ => exact hw
      | inr _ => exact hw
    · intro w hw hnil
      rw [hw, Option.some.injEq] at hnil
      exact hne hnil

end Rules

section Writing

/-- The string that was taken out last. -/
def Last (x : Str) (w : Bench) : Prop := w.queue.removed.getLast? = some x

/-- Whatever is written was taken out last. -/
def WritesLast (c : Call) (w : Bench) : Prop := ∀ buf, c = .sslWrite .client buf → w.Last buf

/-- Of the calls behind a pop, the writes are of what was popped. -/
def WritesOnly (x : Str) (c : Call) : Prop :=
  isPop c = false ∧ ∀ buf, c = .sslWrite .client buf → buf = x

abbrev writer (h : Handoff) : Setting Bench Call Reply :=
  (machine h).alone Machine.any WritesLast fun _ => True

theorem respond_pop_last {pop : Call} (hpop : isPop pop = true)
    (hr : respond h w () pop r = some w') (hne : r.bytes ≠ []) : w'.Last r.bytes := by
  simp only [respond, hpop, if_true] at hr
  split at hr
  · rename_i hfront
    cases hr
    have hwaiting : w.queue.waiting.isEmpty = false := by
      cases hw : w.queue.waiting with
      | nil => exact absurd (hfront.trans (h.front_of_nil hw)) hne
      | cons => rfl
    simp [Last, Handoff.take, hwaiting, hfront]
  · cases hr

theorem triple_writes {α : Type} {x : Str} {m : Prog α} (hm : m.Only (WritesOnly x) True) :
    (writer h).Triple (Last x) m (fun _ => Last x) := by
  refine Setting.triple_only (stable_insert fun _ _ hw => hw) ?_ ?_ (fun _ _ _ => trivial) hm
  · intro c w hc hw buf hbuf
    rw [hc.2 buf hbuf]
    exact hw
  · intro w c r w' hc hw hr
    have hrespond : respond h w () c r = some w' := hr.1
    simp only [respond, hc.1, Bool.false_eq_true, if_false, Option.some.injEq] at hrespond
    rw [Last, ← hrespond, settle_queue]
    exact hw

theorem triple_quiet {α : Type} {m : Prog α}
    (hm : m.Only (fun c => ∀ buf, c ≠ .sslWrite .client buf) True) :
    (writer h).Triple (fun _ => True) m (fun _ _ => True) := by
  refine Setting.triple_only (stable_insert fun _ _ hw => hw) ?_ (fun _ _ _ _ _ _ _ => trivial)
    (fun _ _ _ => trivial) hm
  exact fun c w hc _ buf hbuf => absurd hbuf (hc buf)

theorem triple_writeRound {γ : Type} {pop : Call} (hpop : isPop pop = true)
    {k : Str → Prog (Unit ⊕ γ)} (hk : ∀ x, (k x).Only (WritesOnly x) True) :
    (writer h).Triple (fun _ => True)
      ((Code.ask pop).bind fun reply =>
        if reply.bytes.isEmpty = true then (void .sleep).bind fun _ => .ret (.inl ())
        else k reply.bytes)
      (Setting.Round (fun _ _ => True) fun _ _ => True) := by
  have htrue : (writer h).Stable fun _ => True := stable_insert fun _ _ hw => hw
  apply triple_popRound (B := fun x w => x ≠ [] → w.Last x) htrue
  · apply Setting.triple_ask htrue (fun _ => stable_insert fun _ _ hw => hw)
    · intro w _ buf hbuf
      rw [hbuf] at hpop
      cases hpop
    · intro w r w' _ hr hne
      exact respond_pop_last hpop hr.1 hne
  · apply triple_void (stable_insert fun _ _ hw => hw) htrue
    · intro w _ buf hbuf
      cases hbuf
    · exact fun _ _ _ _ _ => trivial
  · intro x hne
    refine ((triple_writes (hk x)).post ?_).pre fun w hw => hw hne
    intro y w _
    cases y <;> trivial

end Writing

end Bench

/-- No string is lost, doubled or overtaken on its way through the queue, and the code
goes on with the non-empty ones. -/
def Handoff.Faithful (h : Handoff) {α : Type} (code : Prog α) : Prop :=
  ∀ t : Config Bench Unit Call Reply α,
    (Bench.machine h).Reaches Machine.any (solo code {}) t →
      t.world.queue.inserted = t.world.queue.removed ++ t.world.queue.waiting ∧
      (t.world.queue.waiting = [] →
        (∀ x, h.pop t.world.queue.waiting x = (x, [])) ∧ h.take t.world.queue = t.world.queue) ∧
      t.world.InOrder ∧
      ∀ x c, t.world.hand = some x → (t.code ()).pending = .calling c → (c = .sleep ↔ x = [])

theorem Handoff.faithful_of_triple {h : Handoff} {α : Type} {code : Prog α} {Φ : α → Bench → Prop}
    (hcode : (Bench.manager h).Triple Bench.Ready code Φ) : h.Faithful code := by
  intro t ht
  have hstart : Bench.Ready {} := Option.some_ne_none _ |>.symm
  refine ⟨t.world.queue.conserved, ?_, ?_, ?_⟩
  · intro hnil
    refine ⟨fun x => ?_, h.take_of_nil hnil⟩
    rw [hnil, h.pop_eq]
    rfl
  · apply ht.invariant_alone (P := Bench.InOrder) hcode hstart rfl
    · intro w c r w' hw hc hr _
      exact hw.respond hc hr
    · intro w x w' hw hm
      cases hm
      simpa [Bench.InOrder, Handoff.push] using hw
  · intro x c hx hc
    exact (ht.alone hcode hstart).pre hc x hx

section Managers

open Bench

variable {h : Handoff}

theorem ofWork_ofConnect (c : Call) (hc : TLSClient.ofConnect c = true) : ofWork c := by
  constructor
  · intro hs
    rw [hs] at hc
    cases hc
  · cases c <;> first | rfl | cases hc

theorem triple_controller_managePolicy :
    (manager h).Triple Ready Controller.PolicyManager.managePolicy (fun _ => Ready) := by
  have hload : (Controller.PolicyManager.demoPolicies.forM fun policy =>
      void (.updatePolicy policy)).Only ofWork True :=
    Code.only_forM (fun policy => only_void ⟨nofun, rfl⟩) _
  refine Setting.triple_bind (triple_work hload) fun _ => ?_
  exact Setting.triple_whileTrue (fun _ => ready_stable)
    (triple_round rfl (k := fun _ => .ret (.inl ())) fun _ => trivial) nofun

theorem only_terminate_ofWork : TLSClient.terminate.Only ofWork True :=
  TLSClient.only_terminate ⟨nofun, rfl⟩ ⟨nofun, rfl⟩ ⟨nofun, rfl⟩

theorem triple_deployer_managePolicy :
    (manager h).Triple Ready Deployer.PolicyManager.managePolicy (fun _ => Ready) := by
  refine Setting.triple_whileTrue (fun _ => ready_stable) (triple_round rfl
    (k := fun policy => (Deployer.PolicyDeployer.deployPolicy policy _ _).bind fun _ => .ret _)
    fun policy => ?_) nofun
  exact (Deployer.PolicyDeployer.only_deployPolicy ofWork_ofConnect ⟨nofun, rfl⟩
    only_terminate_ofWork).bind fun _ => trivial

theorem triple_proxy_manageClient :
    (manager h).Triple Ready Proxy.ProxyManager.manageClient (fun _ => Ready) := by
  have hreceive : Proxy.ProxyManager.receiveRound.Only ofWork True :=
    (only_sslRecvMsg ⟨nofun, rfl⟩).bind fun _ => trivial
  refine Setting.triple_bind (triple_work (Proxy.ProxyManager.only_setTLSClient ofWork_ofConnect
    only_terminate_ofWork)) fun connected => ?_
  cases connected with
  | false => exact Setting.triple_ret ready_stable fun _ hw => hw
  | true =>
    refine Setting.triple_whileTrue (fun _ => ready_stable) (triple_round rfl
      (k := Proxy.ProxyManager.serve) fun client => ?_) nofun
    refine (only_sslSendMsg ⟨nofun, rfl⟩).bind fun _ => Code.only_ite ?_ hreceive
    exact (Proxy.ProxyManager.only_resend ofWork_ofConnect only_terminate_ofWork
      ⟨nofun, rfl⟩).bind fun _ => Code.only_ite trivial hreceive

theorem ofConnect_ne_write {c : Call} (hc : TLSClient.ofConnect c = true) (buf : Str) :
    c ≠ .sslWrite .client buf := by
  intro hbuf
  rw [hbuf] at hc
  cases hc

theorem writesOnly_ofConnect {x : Str} (c : Call) (hc : TLSClient.ofConnect c = true) :
    WritesOnly x c :=
  ⟨(ofWork_ofConnect c hc).2, fun buf hbuf => absurd hbuf (ofConnect_ne_write hc buf)⟩

theorem writesOnly_write (x : Str) : WritesOnly x (.sslWrite .client x) := by
  refine ⟨rfl, fun buf hbuf => ?_⟩
  cases hbuf
  rfl

theorem only_terminate_writesOnly {x : Str} : TLSClient.terminate.Only (WritesOnly x) True :=
  TLSClient.only_terminate ⟨rfl, nofun⟩ ⟨rfl, nofun⟩ ⟨rfl, nofun⟩

theorem triple_deployer_writes :
    (writer h).Triple (fun _ => True) Deployer.PolicyManager.managePolicy (fun _ _ => True) := by
  refine Setting.triple_whileTrue (fun _ _ _ _ _ => trivial) (triple_writeRound rfl
    (k := fun policy => (Deployer.PolicyDeployer.deployPolicy policy _ _).bind fun _ => .ret _)
    fun policy => ?_) nofun
  exact (Deployer.PolicyDeployer.only_deployPolicy writesOnly_ofConnect (writesOnly_write policy)
    only_terminate_writesOnly).bind fun _ => trivial

theorem triple_proxy_writes :
    (writer h).Triple (fun _ => True) Proxy.ProxyManager.manageClient (fun _ _ => True) := by
  have hreceive : ∀ x, Proxy.ProxyManager.receiveRound.Only (WritesOnly x) True :=
    fun x => (only_sslRecvMsg ⟨rfl, nofun⟩).bind fun _ => trivial
  refine Setting.triple_bind (triple_quiet (Proxy.ProxyManager.only_setTLSClient
    (fun c hc => ofConnect_ne_write hc) (TLSClient.only_terminate nofun nofun nofun)))
    fun connected => ?_
  cases connected with
  | false => exact Setting.triple_ret (fun _ _ _ _ => trivial) fun _ hw => hw
  | true =>
    refine Setting.triple_whileTrue (fun _ _ _ _ _ => trivial) (triple_writeRound rfl
      (k := Proxy.ProxyManager.serve) fun client => ?_) nofun
    refine (only_sslSendMsg (writesOnly_write client)).bind fun _ =>
      Code.only_ite ?_ (hreceive client)
    exact (Proxy.ProxyManager.only_resend writesOnly_ofConnect only_terminate_writesOnly
      (writesOnly_write client)).bind fun _ => Code.only_ite trivial (hreceive client)

end Managers

/-- What a manager writes is the string it took last. -/
def Handoff.WritesTaken (h : Handoff) {α : Type} (code : Prog α) : Prop :=
  ∀ (t : Config Bench Unit Call Reply α) (buf : Str),
    (Bench.machine h).Reaches Machine.any (solo code {}) t →
      (t.code ()).pending = .calling (.sslWrite .client buf) →
      t.world.queue.removed.getLast? = some buf

theorem managers_write_taken :
    Deployer.PolicyManager.handoff.WritesTaken Deployer.PolicyManager.managePolicy ∧
      Proxy.ProxyManager.handoff.WritesTaken Proxy.ProxyManager.manageClient :=
  ⟨fun _ buf ht hbuf => (ht.alone triple_deployer_writes trivial).pre hbuf buf rfl,
    fun _ buf ht hbuf => (ht.alone triple_proxy_writes trivial).pre hbuf buf rfl⟩

theorem managers_faithful :
    Controller.PolicyManager.handoff.Faithful Controller.PolicyManager.managePolicy ∧
      Deployer.PolicyManager.handoff.Faithful Deployer.PolicyManager.managePolicy ∧
      Proxy.ProxyManager.handoff.Faithful Proxy.ProxyManager.manageClient :=
  ⟨Handoff.faithful_of_triple triple_controller_managePolicy,
    Handoff.faithful_of_triple triple_deployer_managePolicy,
    Handoff.faithful_of_triple triple_proxy_manageClient⟩

end SGXess
