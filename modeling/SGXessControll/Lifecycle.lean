import SGXessControll.Transport

/-!
# The life of a TLS client

`connect` releases the contexts itself when it fails. The Proxy calls `terminate` on them
nevertheless, and the Deployer, once connected, lets a failed write drop them unreleased.
-/

namespace SGXess

set_option autoImplicit false

open Calls TLSClient

/-- If the contexts of the client are initialised, and if a call came at a wrong time. -/
structure Life where
  live : Bool := false
  misused : Bool := false
  deriving DecidableEq

namespace Life

/-- The calls on the contexts, apart from `init` and `destroy`. -/
def uses (c : Call) : Bool :=
  isStep c || match c with
    | .sslCloseNotify .client | .sslWrite .client _ | .sslRead .client _ => true
    | _ => false

def next (s : Life) (c : Call) : Life :=
  match c with
  | .clientInit => ⟨true, s.misused || s.live⟩
  | .clientFree => ⟨false, s.misused || !s.live⟩
  | c => if uses c = true then ⟨s.live, s.misused || !s.live⟩ else s

def of (w : Log) : Life := w.foldl (fun s p => s.next p.1) {}

@[simp] theorem of_append (w : Log) (c : Call) (r : Reply) :
    of (w ++ [(c, r)]) = (of w).next c := by simp [of]

/-- `c` comes at the right time, and the process does not end with contexts left over. -/
def Allows (s : Life) (c : Call) : Prop :=
  (s.next c).misused = false ∧ ((∃ n, c = .exit n) → s.live = false)

/-- Nothing was misused, the awaited call comes at the right time, and behind the last call
nothing is left over. -/
def Proper {α : Type} (t : Config Log Unit Call Reply α) : Prop :=
  match (t.code ()).pending with
  | .calling c => (of t.world).Allows c
  | .returned _ => of t.world = ⟨false, false⟩
  | .undefined => False

abbrev up : Life := ⟨true, false⟩

abbrev down : Life := ⟨false, false⟩

theorem next_of_uses {c : Call} (hc : uses c = true) (s : Life) :
    s.next c = ⟨s.live, s.misused || !s.live⟩ := by
  cases c <;> simp_all [next, uses, isStep, ofConnect]

theorem next_of_other {c : Call} (hc : uses c = false) (hinit : c ≠ .clientInit)
    (hfree : c ≠ .clientFree) (s : Life) : s.next c = s := by
  cases c <;> simp_all [next]

theorem next_misused {s : Life} (h : s.misused = true) (c : Call) :
    (s.next c).misused = true := by
  cases hc : uses c with
  | true => rw [next_of_uses hc, h, Bool.true_or]
  | false =>
    by_cases hinit : c = .clientInit
    · rw [hinit, next, h, Bool.true_or]
    · by_cases hfree : c = .clientFree
      · rw [hfree, next, h, Bool.true_or]
      · rw [next_of_other hc hinit hfree, h]

theorem not_allows_of_misused {s : Life} (h : s.misused = true) (c : Call) : ¬ s.Allows c := by
  intro hallows
  have hnext := hallows.1
  rw [next_misused h] at hnext
  cases hnext

theorem up_allows {c : Call} (hc : uses c = true) : up.Allows c := by
  refine ⟨by rw [next_of_uses hc]; rfl, fun hexit => ?_⟩
  obtain ⟨n, rfl⟩ := hexit
  cases hc

theorem uses_of_isStep {c : Call} (hc : isStep c = true) : uses c = true := by
  unfold uses
  rw [hc]
  exact Bool.true_or _

end Life

open Life

/-- What a thread owes at a call: before a failure it is allowed, behind one it is not,
unless it is `excused`. -/
def Owes (fails : Call → Reply → Prop) (excused : Call → Prop) (c : Call) (w : Log) : Prop :=
  (¬ Failed fails w → (of w).Allows c) ∧ (Failed fails w → ¬ excused c → ¬ (of w).Allows c)

abbrev living (fails : Call → Reply → Prop) (excused : Call → Prop) : Setting Log Call Reply :=
  logged (Owes fails excused) fun _ => False

def Before (fails : Call → Reply → Prop) (s : Life) (w : Log) : Prop :=
  of w = s ∧ ¬ Failed fails w

def Behind (fails : Call → Reply → Prop) (s : Life) (w : Log) : Prop :=
  of w = s ∧ Failed fails w

section Steps

variable {fails : Call → Reply → Prop} {excused : Call → Prop} {s : Life} {w : Log} {c : Call}
variable {r : Reply}

theorem Before.next (h : Before fails s w) (hr : ¬ fails c r) :
    Before fails (s.next c) (w ++ [(c, r)]) :=
  ⟨by rw [of_append, h.1], fun hfailed => (failed_append.mp hfailed).elim h.2 hr⟩

theorem Before.fail (h : Before fails s w) (hr : fails c r) :
    Behind fails (s.next c) (w ++ [(c, r)]) :=
  ⟨by rw [of_append, h.1], failed_append.mpr (Or.inr hr)⟩

theorem Behind.next (h : Behind fails s w) : Behind fails (s.next c) (w ++ [(c, r)]) :=
  ⟨by rw [of_append, h.1], failed_append.mpr (Or.inl h.2)⟩

theorem Before.owes (h : Before fails s w) (hc : s.Allows c) : Owes fails excused c w :=
  ⟨fun _ => h.1 ▸ hc, fun hfailed => absurd hfailed h.2⟩

theorem Behind.owes (h : Behind fails s w) (hc : ¬ excused c → ¬ s.Allows c) :
    Owes fails excused c w :=
  ⟨fun hnone => absurd h.2 hnone, fun _ hexcused => h.1 ▸ hc hexcused⟩

/-- A call on the live contexts that cannot fail here. -/
theorem triple_before {u : Life} (hc : s.Allows c) (hs : s.next c = u)
    (hr : ∀ r, Possible c r → ¬ fails c r) :
    (living fails excused).Triple (Before fails s) (void c) (fun _ => Before fails u) :=
  triple_logged_void (fun _ hw => hw.owes hc) fun _ r hw hpossible => hs ▸ hw.next (hr r hpossible)

theorem triple_behind {u : Life} (hc : ¬ excused c → ¬ s.Allows c) (hs : s.next c = u) :
    (living fails excused).Triple (Behind fails s) (void c) (fun _ => Behind fails u) :=
  triple_logged_void (fun _ hw => hw.owes hc) fun _ _ hw _ => hs ▸ hw.next

theorem triple_exit {A : Log → Prop} {n : Int} (hpre : ∀ w, A w → Owes fails excused (.exit n) w) :
    (living fails excused).Triple A (void (.exit n)) (fun _ _ => False) :=
  triple_logged_void hpre fun _ _ _ hr => hr.elim

theorem triple_terminate_up (hr : ∀ c r, c = .sslCloseNotify .client ∨ c = .clientFree →
    ¬ fails c r) :
    (living fails excused).Triple (Before fails up) terminate (fun _ _ => False) := by
  refine Setting.triple_bind (triple_before (u := up) (up_allows rfl) rfl fun r _ =>
    hr _ r (Or.inl rfl)) fun _ => ?_
  refine Setting.triple_bind (triple_before (u := down) ⟨rfl, fun h => nomatch h⟩ rfl fun r _ =>
    hr _ r (Or.inr rfl)) fun _ => ?_
  exact triple_exit fun w hw => hw.owes ⟨rfl, fun _ => rfl⟩

/-- A call the client makes over and over on its live contexts, until `done`. -/
theorem triple_sendMsg {msg : Str} (hr : ∀ r, Possible (.sslWrite .client msg) r →
      wantsRetry r = true → ¬ fails (.sslWrite .client msg) r)
    {B : Bool → Log → Prop}
    (hdone : ∀ w r, Before fails up w → Possible (.sslWrite .client msg) r → wantsRetry r = false →
      B (decide (0 ≤ r.ret)) (w ++ [(.sslWrite .client msg, r)])) :
    (living fails excused).Triple (Before fails up) (sslSendMsg .client msg) B := by
  apply triple_logged_sendMsg (fun w hw => hw.owes (up_allows rfl))
  · exact fun w r hw hpossible hretry => hw.next (hr r hpossible hretry)
  · exact hdone

end Steps

section Proxy

/-- A step of `connect` failed. -/
abbrev StepFailed : Log → Prop := Failed (StepFails fun ret => ret)

/-- `connect` itself releases what it has initialised. -/
abbrev released (c : Call) : Prop := c = .clientFree

abbrev proxyLiving : Setting Log Call Reply := living (StepFails fun ret => ret) released

abbrev UpBefore : Log → Prop := Before (StepFails fun ret => ret) up

theorem triple_proxy_connect {IP port : Str} :
    proxyLiving.Triple (Before (StepFails fun ret => ret) down) (Proxy.TLSClient.connect IP port)
      (fun b w => if b = true then UpBefore w else Behind (StepFails fun ret => ret) down w) := by
  refine triple_logged_connect (L := UpBefore) (F := Behind (StepFails fun ret => ret) up)
    ?_ ?_ ?_ ?_ ?_ fun _ hw => hw
  · exact fun c w hc hw => hw.owes (up_allows (uses_of_isStep hc))
  · intro c w r hc hr hw
    have hnext := hw.next hr
    rwa [next_of_uses (uses_of_isStep hc)] at hnext
  · intro c w r hc hr hw
    have hnext := hw.fail hr
    rwa [next_of_uses (uses_of_isStep hc)] at hnext
  · exact triple_before ⟨rfl, fun h => nomatch h⟩ rfl fun _ _ h => h
  · exact triple_behind (fun hexcused => absurd rfl hexcused) rfl

/-- On contexts that `connect` has released already it is not. -/
theorem triple_terminate_down :
    proxyLiving.Triple (Behind (StepFails fun ret => ret) down) terminate (fun _ _ => False) := by
  have hmisused : ∀ c, ¬ Allows ⟨false, true⟩ c := not_allows_of_misused rfl
  refine Setting.triple_bind (triple_behind (u := ⟨false, true⟩) (fun _ hallows => ?_) rfl)
    fun _ => ?_
  · exact absurd hallows.1 nofun
  · refine Setting.triple_bind (triple_behind (u := ⟨false, true⟩) (fun _ => hmisused _) rfl)
      fun _ => ?_
    exact triple_exit fun w hw => hw.owes fun _ => hmisused _

theorem triple_setTLSClient :
    proxyLiving.Triple (Before (StepFails fun ret => ret) down) Proxy.ProxyManager.setTLSClient
      (fun b w => b = true ∧ UpBefore w) := by
  refine Proxy.ProxyManager.triple_setTLSClient (recorded_stable _) (recorded_stable _)
    triple_proxy_connect ?_ fun w hw => ⟨rfl, hw⟩
  exact triple_terminate_down.post fun _ _ h => h.elim

theorem triple_proxy_recvMsg {msg : Str} :
    proxyLiving.Triple UpBefore (Proxy.TLSClient.recvMsg msg) (fun _ => UpBefore) := by
  apply triple_logged_recvMsg (fun w hw => hw.owes (up_allows rfl))
  · exact fun w r hw _ => hw.next id
  · exact fun w r hw _ => hw.next id

theorem triple_manageClient :
    proxyLiving.Triple (Before (StepFails fun ret => ret) down) Proxy.ProxyManager.manageClient
      (fun _ _ => False) := by
  have hterminate : proxyLiving.Triple UpBefore terminate (fun _ _ => False) :=
    triple_terminate_up fun c r hc h => by
      rcases hc with rfl | rfl <;> exact h
  refine (Proxy.ProxyManager.triple_manageClient (B := fun b w => b = true ∧ UpBefore w)
    (C := fun _ => UpBefore) (D := fun _ _ => False) (Q := fun _ => UpBefore)
    (fun _ => recorded_stable _) triple_setTLSClient ?_ ?_ ?_ ?_ (fun _ h => h.elim)
    (fun _ h => h.elim) ?_).post fun _ _ h => Bool.false_ne_true h.1
  · exact triple_recorded (fun w hw => hw.2.owes ⟨rfl, fun h => nomatch h⟩)
      fun w r hw _ => hw.2.next id
  · exact (triple_before (c := .sleep) (s := up) ⟨rfl, fun h => nomatch h⟩ rfl fun _ _ h => h).post
      fun _ _ hw => ⟨rfl, hw⟩
  · intro client _
    exact triple_sendMsg (fun _ _ _ h => h) fun w r hw _ _ => hw.next id
  · intro client
    exact Setting.triple_bind hterminate fun _ => Setting.triple_of_false fun _ h => h
  · exact triple_proxy_recvMsg.post fun _ _ hw => ⟨rfl, hw⟩

end Proxy

section Deployer

abbrev WriteFailed : Log → Prop := Failed WriteFails

abbrev deployerLiving : Setting Log Call Reply := living WriteFails fun _ => False

/-- `deployPolicy`, called once for each policy with its address and port. -/
def deployAll (jobs : List (Str × Str × Str)) : Prog PUnit := jobs.forM fun job => do
  let _ ← Deployer.PolicyDeployer.deployPolicy job.1 job.2.1 job.2.2

/-- A write has failed, and the contexts have been misused. -/
def Spoiled (w : Log) : Prop := WriteFailed w ∧ (of w).misused = true

/-- A write has failed, and the contexts are misused at the latest by the next `init`. -/
def Leaking (w : Log) : Prop := WriteFailed w ∧ ((of w).misused = true ∨ (of w).live = true)

theorem Spoiled.append {w : Log} (h : Spoiled w) (c : Call) (r : Reply) :
    Spoiled (w ++ [(c, r)]) :=
  ⟨failed_append.mpr (Or.inl h.1), by rw [of_append]; exact next_misused h.2 c⟩

theorem Spoiled.owes {w : Log} (h : Spoiled w) (c : Call) :
    Owes WriteFails (fun _ => False) c w :=
  ⟨fun hnone => absurd h.1 hnone, fun _ _ => not_allows_of_misused h.2 c⟩

theorem triple_spoiled {α : Type} {m : Prog α} (hm : m.Only (fun _ => True) False) :
    deployerLiving.Triple Spoiled m (fun _ => Spoiled) := by
  refine Setting.triple_only (recorded_stable _) (fun c w _ hw => hw.owes c) ?_ nofun hm
  intro w c r w' _ hw ha
  obtain ⟨rfl, _⟩ := recorded_answer ha
  exact hw.append c r

theorem triple_spoiled_deployPolicy {policy IP port : Str} :
    deployerLiving.Triple Leaking (Deployer.PolicyDeployer.deployPolicy policy IP port)
      (fun _ => Spoiled) := by
  have honly : ∀ c : Call, ofConnect c = true → True := fun _ _ => trivial
  refine Deployer.PolicyDeployer.triple_deployPolicy (B := fun _ => Spoiled) (C := fun _ => Spoiled)
    (recorded_stable _) (recorded_stable _) (recorded_stable _) ?_
    (triple_spoiled (only_sslSendMsg trivial))
    (triple_spoiled (only_terminate trivial trivial trivial)) (fun _ hw => hw) fun _ hw => hw
  refine Setting.triple_bind (triple_logged_void (B := Spoiled) (fun w hw => ?_) fun w r hw _ => ?_)
    fun _ => triple_spoiled ((only_connectSteps honly).bind fun ret => ?_)
  · obtain ⟨hfailed, hlate⟩ := hw
    refine ⟨fun hnone => absurd hfailed hnone, fun _ _ hallows => ?_⟩
    have hnext := hallows.1
    rw [next, Bool.or_eq_false_iff] at hnext
    rcases hlate with h | h
    · exact absurd (h.symm.trans hnext.1) nofun
    · exact absurd (h.symm.trans hnext.2) nofun
  · obtain ⟨hfailed, hlate⟩ := hw
    refine ⟨failed_append.mpr (Or.inl hfailed), ?_⟩
    rw [of_append, next, Bool.or_eq_true]
    exact hlate
  · exact Code.only_ite ((only_void trivial).bind fun _ => trivial) trivial

theorem triple_deployer_connect {IP port : Str} :
    deployerLiving.Triple (Before WriteFails down) (Deployer.TLSClient.connect IP port)
      (fun b w => if b = true then Before WriteFails up w else Before WriteFails down w) := by
  have hstep : ∀ c w r, isStep c = true → Before WriteFails up w →
      Before WriteFails up (w ++ [(c, r)]) := by
    intro c w r hc hw
    have hnext := hw.next (not_writeFails_of_isStep hc r)
    rwa [next_of_uses (uses_of_isStep hc)] at hnext
  refine triple_logged_connect (L := Before WriteFails up) (F := Before WriteFails up)
    ?_ (fun c w r hc _ => hstep c w r hc) (fun c w r hc _ => hstep c w r hc) ?_ ?_ fun _ hw => hw
  · exact fun c w hc hw => hw.owes (up_allows (uses_of_isStep hc))
  · exact triple_before ⟨rfl, fun h => nomatch h⟩ rfl fun _ _ h => h
  · exact triple_before ⟨rfl, fun h => nomatch h⟩ rfl fun _ _ h => h

theorem triple_deployPolicy {policy IP port : Str} :
    deployerLiving.Triple (Before WriteFails down)
      (Deployer.PolicyDeployer.deployPolicy policy IP port)
      (fun _ w => Before WriteFails down w ∨ Leaking w) := by
  refine Deployer.PolicyDeployer.triple_deployPolicy
    (C := fun sent w => if sent = true then Before WriteFails up w else Leaking w)
    (recorded_stable _) (recorded_stable _) (recorded_stable _) triple_deployer_connect ?_ ?_
    (fun _ hw => Or.inl hw) fun _ hw => Or.inr hw
  · refine triple_sendMsg (fun r hr hretry hfails => ?_) fun w r hw hr hretry => ?_
    · exact absurd (hretry.symm.trans hfails.2) nofun
    · by_cases hneg : r.ret < 0
      · rw [decide_eq_false (by omega)]
        have hbehind := hw.fail (c := .sslWrite .client policy) ⟨hneg, hretry⟩
        exact ⟨hbehind.2, Or.inr (by rw [hbehind.1]; rfl)⟩
      · rw [decide_eq_true (by omega)]
        exact hw.next fun hfails => hneg hfails.1
  · exact (triple_terminate_up fun c r hc h => by
      rcases hc with rfl | rfl <;> exact h).post fun _ _ h => h.elim

theorem triple_deployAll (jobs : List (Str × Str × Str)) :
    deployerLiving.Triple (Before WriteFails down) (deployAll jobs)
      (fun _ w => Before WriteFails down w ∨ Leaking w) := by
  refine Setting.Triple.pre (Setting.triple_forM
    (I := fun _ w => Before WriteFails down w ∨ Leaking w)
    jobs (fun _ => recorded_stable _) (fun _ job => ?_) []) fun _ hw => Or.inl hw
  refine Setting.triple_bind (Φ := fun _ w => Before WriteFails down w ∨ Leaking w) ?_
    fun _ => Setting.triple_ret (recorded_stable _) fun _ hw => hw
  intro w hw
  rcases hw with hw | hw
  · exact triple_deployPolicy w hw
  · exact (triple_spoiled_deployPolicy.post fun _ _ h => Or.inr ⟨h.1, Or.inl h.2⟩) w hw

end Deployer

/-- The Proxy's client is used and released as it should be until a step of `connect` fails,
and from then on it is not, but for the `destroy` that follows at once. The Deployer's are
until a write fails. -/
theorem client_lifecycle_iff (jobs : List (Str × Str × Str)) :
    (∀ t : Config Log Unit Call Reply Bool,
      Proxy.ProxyManager.manageClient.RunsTo Possible t →
        (¬ StepFailed t.world → Proper t) ∧
          (StepFailed t.world → (t.code ()).pending ≠ .calling .clientFree → ¬ Proper t)) ∧
    ∀ t : Config Log Unit Call Reply PUnit,
      (deployAll jobs).RunsTo Possible t → (Proper t ↔ ¬ WriteFailed t.world) := by
  have hstart : ∀ {fails}, Before fails down [] := ⟨rfl, not_failed_nil⟩
  constructor
  · intro t ht
    have hholds := ht.holds triple_manageClient hstart
    unfold Proper
    cases hp : (t.code ()).pending with
    | returned b => exact (hholds.returned hp).elim
    | undefined => exact (hholds.undefined hp).elim
    | calling c =>
      obtain ⟨hbefore, hbehind⟩ := hholds.pre hp
      exact ⟨hbefore, fun hfailed hne => hbehind hfailed fun hc => hne (hc ▸ rfl)⟩
  · intro t ht
    have hholds := ht.holds (triple_deployAll jobs) hstart
    unfold Proper
    cases hp : (t.code ()).pending with
    | undefined => exact (hholds.undefined hp).elim
    | calling c =>
      obtain ⟨hbefore, hbehind⟩ := hholds.pre hp
      exact ⟨fun hallows hfailed => hbehind hfailed id hallows, hbefore⟩
    | returned b =>
      rcases hholds.returned hp with hw | hw
      · exact iff_of_true hw.1 hw.2
      · refine iff_of_false (fun heq => ?_) fun hnone => hnone hw.1
        change of t.world = ⟨false, false⟩ at heq
        have hlate := hw.2
        rw [heq] at hlate
        exact hlate.elim nofun nofun

theorem calm_runs_proper :
    (∃ t, Proxy.ProxyManager.manageClient.RunsTo Possible t ∧
      (t.code ()).pending = .calling .popClient ∧ Proper t) ∧
    ∃ t, (deployAll [(text "p", text "a", text "b")]).RunsTo Possible t ∧
      (t.code ()).pending = .calling (.sslCloseNotify .client) ∧ Proper t := by
  constructor
  · have hafter : Proxy.ProxyManager.manageClient.after Possible (List.replicate 9 ⟨0, []⟩) =
        some (.calling .popClient, connected (text "192.168.0.5") (text "30011")) := by rfl
    obtain ⟨t, ht, hp, hw⟩ := Code.runsTo_of_after hafter
    refine ⟨t, ht, hp, ((client_lifecycle_iff []).1 t ht).1 fun hfailed => ?_⟩
    rw [hw] at hfailed
    simp [Failed, connected, StepFails] at hfailed
  · have hafter : (deployAll [(text "p", text "a", text "b")]).after Possible
        (List.replicate 9 ⟨0, []⟩ ++ [⟨1, text "p"⟩]) =
          some (.calling (.sslCloseNotify .client), connected (text "a") (text "b") ++
            [(.sslWrite .client (text "p"), ⟨1, text "p"⟩)]) := by rfl
    obtain ⟨t, ht, hp, hw⟩ := Code.runsTo_of_after hafter
    refine ⟨t, ht, hp, ((client_lifecycle_iff _).2 t ht).mpr fun hfailed => ?_⟩
    rw [hw] at hfailed
    simp [Failed, connected, WriteFails] at hfailed

/-- A failed seeding, and a failed write. -/
theorem failed_runs_improper :
    (¬ ∀ t : Config Log Unit Call Reply Bool,
      Proxy.ProxyManager.manageClient.RunsTo Possible t → Proper t) ∧
    ¬ ∀ (jobs : List (Str × Str × Str)) (t : Config Log Unit Call Reply PUnit),
      (deployAll jobs).RunsTo Possible t → Proper t := by
  constructor
  · intro hall
    have hafter : Proxy.ProxyManager.manageClient.after Possible
        [⟨0, []⟩, ⟨1, []⟩, ⟨0, []⟩] = some (.calling (.sslCloseNotify .client),
          [(.clientInit, ⟨0, []⟩), (.ctrDrbgSeed, ⟨1, []⟩), (.clientFree, ⟨0, []⟩)]) := by rfl
    obtain ⟨t, ht, hp, hw⟩ := Code.runsTo_of_after hafter
    have hproper := hall t ht
    rw [Proper, hp, hw] at hproper
    exact absurd hproper.1 (by decide)
  · intro hall
    have hafter : (deployAll [(text "p", text "a", text "b")]).after Possible
        (List.replicate 9 ⟨0, []⟩ ++ [⟨-1, []⟩]) =
          some (.returned ⟨⟩, connected (text "a") (text "b") ++
            [(.sslWrite .client (text "p"), ⟨-1, []⟩)]) := by rfl
    obtain ⟨t, ht, hp, hw⟩ := Code.runsTo_of_after hafter
    have hproper := hall _ t ht
    rw [Proper, hp, hw] at hproper
    exact absurd hproper (by decide)

end SGXess
