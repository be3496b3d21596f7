import SGXessControll.Forwarding

/-!
# What the Proxy keeps

A client string is sent once and in its turn for as long as the connection stands and no
send fails. The recovery from a failed send begins with `terminate`, which does not come
back, and the client in hand is lost; a failed connect ends in `terminate` as well.
-/

namespace SGXess.Desk

set_option autoImplicit false

open Calls Queue

variable {h : Handoff} {w : Desk} {x : Str}

/-- Every non-empty string is sent, in hand or still queued, in this order. -/
def Accounted (hand : List Str) (w : Desk) : Prop :=
  w.sent ++ hand ++ w.queue.waiting.filter (· ≠ []) = w.queue.inserted.filter (· ≠ [])

/-- No step of `connect` in front of the verification has failed, and no `sendMsg`. -/
def Unbroken (w : Desk) : Prop := ¬ w.session.Broken ∧ w.failed = 0

/-- The calls of `terminate`, one of them made by a failed `connect` as well. -/
def Leaving (c : Call) : Prop := c = .sslCloseNotify .client ∨ c = .clientFree ∨ ∃ n, c = .exit n

/-- What the manager promises at the call `c`: it holds at most the client it is about to
send, and none at its queue, and the process goes on. -/
def Survives (c : Call) (w : Desk) : Prop :=
  (∀ n, c ≠ .exit n) ∧ ∃ hand : List Str, hand.length ≤ 1 ∧ (c = .popClient → hand = []) ∧
    Accounted hand w

def Serving (c : Call) (w : Desk) : Prop :=
  (w.Unbroken ∧ Survives c w) ∨ (¬ w.Unbroken ∧ Leaving c)

abbrev server (h : Handoff) : Setting Desk Call Reply :=
  (machine h).alone Machine.any Serving fun _ => False

/-- Before the first failed send, with nothing in hand. -/
def Calm (w : Desk) : Prop := w.AllSent ∧ w.failed = 0

def Busy (x : Str) (w : Desk) : Prop := w.Owes x ∧ w.failed = 0

def Lost (w : Desk) : Prop := ¬ w.Unbroken

abbrev Steady : Desk → Prop := Beside Calm fun s => ¬ s.Broken

/-- Behind a pop. -/
abbrev Fetched (x : Str) : Desk → Prop :=
  Beside (fun w => Popped x w ∧ w.failed = 0) fun s => ¬ s.Broken

abbrev Writing (x : Str) : Desk → Prop := Beside (Busy x) fun s => ¬ s.Broken

theorem Steady.serving {c : Call} (hw : Steady w) (hc : ∀ n, c ≠ .exit n) : Serving c w := by
  obtain ⟨⟨hsent, hzero⟩, hsession⟩ := hw
  refine Or.inl ⟨⟨hsession, hzero⟩, hc, [], Nat.zero_le 1, fun _ => rfl, ?_⟩
  rw [Accounted, List.append_nil]
  exact hsent.inserted

theorem Writing.serving (hw : Writing x w) : Serving (.sslWrite .client x) w :=
  Or.inl ⟨⟨hw.2, hw.1.2⟩, nofun, [x], Nat.le_refl 1, nofun, hw.1.1.inserted⟩

theorem ofConnect_ne_exit {c : Call} (hc : TLSClient.ofConnect c = true) : ∀ n, c ≠ .exit n := by
  intro n hn
  rw [hn] at hc
  cases hc

theorem Calm.serving {c : Call} (hw : w.Calm) (hc : TLSClient.ofConnect c = true)
    (hfree : w.session.Broken → c = .clientFree) : Serving c w := by
  by_cases hbroken : w.session.Broken
  · exact Or.inr ⟨fun hunbroken => hunbroken.1 hbroken, Or.inr (Or.inl (hfree hbroken))⟩
  · exact Steady.serving ⟨hw, hbroken⟩ (ofConnect_ne_exit hc)

theorem steady_stable : (server h).Stable Steady := stable_insert fun _ _ hw => hw

theorem lost_stable : (server h).Stable Lost := stable_insert fun _ _ hw => hw

theorem outcome_stable (b : Bool) :
    (server h).Stable fun w => if b = true then Steady w else Lost w := by
  cases b with
  | true => exact steady_stable
  | false => exact lost_stable

theorem triple_server_write :
    (server h).Triple (Writing x) (sslSendMsg .client x)
      (fun b w => if b = true then Steady w else Lost w) := by
  apply triple_sslSendMsg (stable_insert fun _ _ hw => hw) outcome_stable
  · exact fun w hw => hw.serving
  · intro w r w' hw hr hretry
    obtain ⟨hr, _⟩ := hr
    simp only [machine, respond, hretry, if_true, Option.some.injEq] at hr
    rwa [← hr]
  · intro w r w' hw hr hretry
    obtain ⟨hr, _⟩ := hr
    obtain ⟨⟨howes, hzero⟩, hsession⟩ := hw
    by_cases hneg : r.ret < 0
    · simp only [machine, respond, hretry, hneg, Bool.false_eq_true, if_false, if_true,
        Option.some.injEq] at hr
      rw [← hr, if_neg (by simpa using hneg)]
      exact fun hunbroken => absurd hunbroken.2 (Nat.succ_ne_zero _)
    · simp only [machine, respond, hretry, hneg, Bool.false_eq_true, if_false,
        Option.some.injEq] at hr
      rw [← hr, if_pos (by simpa using hneg)]
      exact ⟨⟨howes, hzero⟩, hsession⟩

theorem triple_server_connect {IP port : Str} :
    (server h).Triple Steady (Proxy.TLSClient.connect IP port)
      (fun b w => if b = true then Steady w else Lost w) := by
  refine (triple_connect (Q := Calm) (fun _ _ hc hfree hw => hw.serving hc hfree)
    (fun _ _ hw => hw) (fun _ _ hw => hw) (fun _ _ hw => hw)
    fun w hw => ⟨hw.1, hw.serving nofun⟩).post fun b w hw => ?_
  obtain ⟨hcalm, hconnected⟩ := hw
  cases b with
  | true =>
    refine ⟨hcalm, fun hbroken => ?_⟩
    cases hconnected.broken_iff.mp hbroken
  | false => exact fun hunbroken => hunbroken.1 (hconnected.broken_iff.mpr rfl)

theorem triple_server_terminate {Φ : Unit → Desk → Prop} :
    (server h).Triple Lost TLSClient.terminate Φ := by
  refine triple_terminate (fun _ _ hw => hw) (fun _ hw => hw) fun w hw => ?_
  exact ⟨Or.inr ⟨hw, Or.inl rfl⟩, Or.inr ⟨hw, Or.inr (Or.inl rfl)⟩,
    Or.inr ⟨hw, Or.inr (Or.inr ⟨0, rfl⟩)⟩⟩

theorem triple_server_setTLSClient :
    (server h).Triple Steady Proxy.ProxyManager.setTLSClient
      (fun b w => b = true ∧ Steady w) :=
  Proxy.ProxyManager.triple_setTLSClient steady_stable (stable_insert fun _ _ hw => hw)
    triple_server_connect triple_server_terminate fun _ hw => ⟨rfl, hw⟩

theorem triple_server_recvMsg {onTimeout appends : Bool} {msg : Str} :
    (server h).Triple Steady (sslRecvMsg .client onTimeout appends msg) (fun _ => Steady) := by
  apply triple_sslRecvMsg steady_stable (fun _ => steady_stable)
  · exact fun w hw => hw.serving nofun
  · intro w r w' hw hr _
    obtain ⟨hr, _⟩ := hr
    simp only [machine, respond] at hr
    split at hr
    · cases hr
      exact hw
    · cases hr
  · intro w r w' hw hr _
    obtain ⟨hr, _⟩ := hr
    simp only [machine, respond] at hr
    split at hr
    · cases hr
      exact ⟨by assumption, hw⟩
    · cases hr

theorem triple_server_resend :
    (server h).Triple Lost (Proxy.ProxyManager.resend x) (fun _ _ => False) :=
  Setting.triple_bind (Φ := fun _ _ => False) triple_server_terminate fun _ =>
    Setting.triple_of_false fun _ hw => hw

theorem triple_server_manageClient :
    (server h).Triple Steady Proxy.ProxyManager.manageClient (fun _ _ => False) := by
  refine (Proxy.ProxyManager.triple_manageClient (B := fun b w => b = true ∧ Steady w)
    (C := fun b w => if b = true then Steady w else Lost w) (D := fun _ _ => False) (Q := Fetched)
    (fun _ => stable_insert fun _ _ hw => hw) triple_server_setTLSClient ?_ ?_ ?_ ?_
    (fun _ => False.elim) (fun _ => False.elim) ?_).post fun _ w hw => Bool.false_ne_true hw.1
  · refine (triple_pop (c := .popClient) (B := Fetched) rfl steady_stable
      (fun x => stable_insert fun _ _ hw => hw) ?_ ?_).pre fun w hw => hw.2
    · exact fun w hw => hw.serving nofun
    · exact fun w hw => ⟨⟨hw.1.1.popped, hw.1.2⟩, hw.2⟩
  · refine (triple_sleep steady_stable fun w hw => hw.serving nofun).conseq ?_ ?_
    · exact fun w hw => ⟨⟨hw.1.1.none, hw.1.2⟩, hw.2⟩
    · exact fun _ w hw => ⟨rfl, hw⟩
  · intro client hne
    exact triple_server_write.pre fun w hw => ⟨⟨hw.1.1.some hne, hw.1.2⟩, hw.2⟩
  · exact fun client => triple_server_resend.pre fun w hw => by simpa using hw
  · refine triple_server_recvMsg.conseq (fun w hw => ?_) fun _ w hw => ⟨rfl, hw⟩
    simpa using hw

/-- The manager is back at its queue, or the process has ended. -/
def Settled (t : Config Desk Unit Call Reply Bool) : Prop :=
  (t.code ()).pending = .calling .popClient ∨ (∃ n, (t.code ()).pending = .calling (.exit n)) ∨
    ∃ b, (t.code ()).pending = .returned b

def Running (t : Config Desk Unit Call Reply Bool) : Prop :=
  ∃ c, (t.code ()).pending = .calling c ∧ Survives c t.world

theorem survives_iff {t : Config Desk Unit Call Reply Bool}
    (ht : (machine Proxy.ProxyManager.handoff).Reaches Machine.any
      (solo Proxy.ProxyManager.manageClient {}) t) :
    (t.world.Unbroken → Running t) ∧ (Settled t → (Running t ↔ t.world.Unbroken)) ∧
      (¬ t.world.Unbroken → ∃ c, (t.code ()).pending = .calling c ∧ Leaving c) := by
  have hfresh : Steady {} := by
    refine ⟨⟨rfl, rfl⟩, fun hbroken => ?_⟩
    cases hbroken.1
  have hholds := ht.alone triple_server_manageClient hfresh
  cases hp : (t.code ()).pending with
  | returned b => exact (hholds.returned hp).elim
  | undefined => exact (hholds.undefined hp).elim
  | calling c =>
    rcases hholds.pre hp with ⟨hunbroken, hsurvives⟩ | ⟨hlost, hleaving⟩
    · refine ⟨fun _ => ⟨c, hp, hsurvives⟩, fun _ => ?_, fun hlost => absurd hunbroken hlost⟩
      exact iff_of_true ⟨c, hp, hsurvives⟩ hunbroken
    · refine ⟨fun hunbroken => absurd hunbroken hlost, fun hsettled => ?_,
        fun _ => ⟨c, rfl, hleaving⟩⟩
      refine iff_of_false ?_ hlost
      intro hrun
      obtain ⟨c', hc', hnot, _⟩ := hrun
      rw [hp] at hc'
      obtain rfl := Pending.calling.inj hc'
      rcases hsettled with hpop | ⟨n, hexit⟩ | ⟨b, hret⟩
      · rw [hp] at hpop
        obtain rfl := Pending.calling.inj hpop
        rcases hleaving with hc | hc | ⟨n, hc⟩ <;> cases hc
      · rw [hp] at hexit
        exact hnot n (Pending.calling.inj hexit)
      · rw [hp] at hret
        cases hret

/-- A client is inserted, sent and answered, over a session whose certificate was refused. -/
theorem survives_sent :
    ∃ t, (machine Proxy.ProxyManager.handoff).Reaches Machine.any
      (solo Proxy.ProxyManager.manageClient {}) t ∧ Settled t ∧ Running t ∧
        t.world.sent = [[65]] := by
  have hrun : (machine Proxy.ProxyManager.handoff).observe
      (fun w => (w.sent, w.failed, w.session)) (solo Proxy.ProxyManager.manageClient {})
      [.reply () ⟨0, []⟩, .reply () ⟨0, []⟩, .reply () ⟨0, []⟩, .reply () ⟨0, []⟩,
        .reply () ⟨0, []⟩, .reply () ⟨0, []⟩, .reply () ⟨0, []⟩, .reply () ⟨0, []⟩,
        .reply () ⟨1, []⟩, .move [65], .reply () ⟨0, [65]⟩, .reply () ⟨1, []⟩,
        .reply () ⟨5, text "Allow"⟩] () =
      some (.calling .popClient, [[65]], 0, ⟨true, false, some 0, some 1⟩) := by
    decide +kernel
  obtain ⟨t, ht, hp, hw⟩ := Machine.reaches_of_observe hrun
  obtain ⟨hsent, hrest⟩ := Prod.mk.inj hw
  obtain ⟨hfailed, hsession⟩ := Prod.mk.inj hrest
  refine ⟨t, ht, Or.inl hp, (survives_iff ht).1 ⟨fun hbroken => ?_, hfailed⟩, hsent⟩
  rw [hsession] at hbroken
  cases hbroken.2

/-- Behind a failed send every step of `connect` and every other send succeeds. -/
abbrev recovering (w : Desk) (_ : Unit) (c : Call) (r : Reply) : Prop :=
  w.resending = true → Succeeds c r

theorem leads_manageLoop :
    (machine Proxy.ProxyManager.handoff).Leads recovering Proxy.ProxyManager.manageClient {}
      Proxy.ProxyManager.manageLoop { session := ⟨true, true, some 0, some 0⟩ } := by
  have hset : (machine Proxy.ProxyManager.handoff).Leads recovering
      Proxy.ProxyManager.setTLSClient {} (.ret true) { session := ⟨true, true, some 0, some 0⟩ } :=
    (leads_connect {} fun _ c _ _ => succeeds_zero c).andThen
      (.refl _ _)
  exact hset.andThen (.refl _ _)

/-- The first send fails: the process is gone, and the client with it. -/
theorem lost_session_ends_process :
    ¬ ∀ t, (machine Proxy.ProxyManager.handoff).Reaches recovering
      (solo Proxy.ProxyManager.manageClient {}) t → Running t := by
  intro hall
  let q := Proxy.ProxyManager.handoff.push Fifo.empty [65]
  let w : Desk := { queue := Proxy.ProxyManager.handoff.take q,
                    session := ⟨true, true, some 0, some 0⟩ }
  let v : Desk := { w with failed := 1, resending := true }
  have hinsert : (machine Proxy.ProxyManager.handoff).Leads recovering
      Proxy.ProxyManager.manageLoop { session := ⟨true, true, some 0, some 0⟩ }
      Proxy.ProxyManager.manageLoop { queue := q, session := ⟨true, true, some 0, some 0⟩ } :=
    Machine.leads_move (e := [65]) rfl
  have hsend : (machine Proxy.ProxyManager.handoff).Leads recovering
      (Proxy.TLSClient.sendMsg [65]) w (.ret false) v :=
    (leads_retrying (r := ⟨-1, []⟩) rfl nofun rfl).andThen (.refl _ _)
  have hpop : (machine Proxy.ProxyManager.handoff).respond
      { queue := q, session := ⟨true, true, some 0, some 0⟩ } () .popClient ⟨0, [65]⟩ = some w :=
    rfl
  obtain ⟨n, u, hserve, hexit⟩ : ∃ n u, (machine Proxy.ProxyManager.handoff).Leads recovering
      (Proxy.ProxyManager.serve [65]) w n u ∧ n.pending = .calling (.exit 0) :=
    ⟨_, _, hsend.andThen (((leads_terminate v (fun _ _ => trivial)
      fun _ _ => trivial).bind _).bind _), rfl⟩
  have hreach := leads_manageLoop.trans (hinsert.trans
    (Machine.leads_loop (k := Code.ret) rfl hpop (fun _ => trivial) hserve))
  obtain ⟨c, hc, hrun, _⟩ := hall _ hreach
  have hpend : (n.bind (Code.next (fun _ => Proxy.ProxyManager.manageRound) Code.ret)).pending =
      .calling (.exit 0) := by
    rw [Code.pending_bind, hexit]
  exact hrun 0 (Pending.calling.inj (hc.symm.trans hpend))

end SGXess.Desk
