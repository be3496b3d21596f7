import SGXessControll.Connection

/-!
# What the Deployer forwards

Every policy that is popped is sent at once, but behind the first one `terminate` ends the
process, so a second one is never sent.
-/

namespace SGXess.Desk

set_option autoImplicit false

open Calls Queue

variable {h : Handoff} {w : Desk} {x : Str}

/-- Everything taken out of the queue has been sent, but for the empty strings. -/
def AllSent (w : Desk) : Prop := w.sent = w.queue.removed.filter (· ≠ [])

/-- Everything but `x`, which is on its way. -/
def Owes (x : Str) (w : Desk) : Prop := w.sent ++ [x] = w.queue.removed.filter (· ≠ [])

theorem AllSent.take (hw : w.AllSent) (hx : h.front w.queue = []) :
    AllSent { w with queue := h.take w.queue } := by
  have hremoved : (h.take w.queue).removed.filter (· ≠ []) = w.sent := by
    rw [h.take_removed, hx, ← show w.sent = _ from hw]
    simp
  exact hremoved.symm

theorem AllSent.owes (hw : w.AllSent) (hx : h.front w.queue ≠ []) :
    Owes (h.front w.queue) { w with queue := h.take w.queue } := by
  simp only [Owes, h.take_removed, ← show w.sent = _ from hw]
  simp [hx]

/-- What was popped is on its way, unless there was nothing to pop. -/
def Popped (x : Str) (w : Desk) : Prop := if x = [] then w.AllSent else w.Owes x

theorem AllSent.popped (hw : w.AllSent) :
    Popped (h.front w.queue) { w with queue := h.take w.queue } := by
  by_cases hx : h.front w.queue = []
  · rw [Popped, if_pos hx]
    exact hw.take hx
  · rw [Popped, if_neg hx]
    exact hw.owes hx

theorem Popped.none (hw : Popped [] w) : w.AllSent := by rwa [Popped, if_pos rfl] at hw

theorem Popped.some (hw : Popped x w) (hx : x ≠ []) : w.Owes x := by rwa [Popped, if_neg hx] at hw

/-- Nothing is lost between the two ends of the queue. -/
theorem AllSent.inserted (hw : w.AllSent) :
    w.sent ++ w.queue.waiting.filter (· ≠ []) = w.queue.inserted.filter (· ≠ []) := by
  rw [w.queue.conserved, List.filter_append, ← hw]

theorem Owes.inserted (hw : w.Owes x) :
    w.sent ++ [x] ++ w.queue.waiting.filter (· ≠ []) = w.queue.inserted.filter (· ≠ []) := by
  rw [w.queue.conserved, List.filter_append, ← hw]

section Deployer

/-- Every call of `connect` and every write succeeds. -/
abbrev flawless (_ : Desk) (_ : Unit) (c : Call) (r : Reply) : Prop := Succeeds c r

/-- What is owed at every call the manager waits for. -/
def Forwarding (c : Call) (w : Desk) : Prop :=
  w.sent <+: w.queue.removed.filter (· ≠ []) ∧ (c = .popPolicy → w.AllSent) ∧
    ∀ n, c = .exit n → w.AllSent ∧ w.sent ≠ []

abbrev forwarder (h : Handoff) : Setting Desk Call Reply :=
  (machine h).alone flawless Forwarding fun _ => False

theorem AllSent.sent_le (hw : w.AllSent) : w.sent <+: w.queue.removed.filter (· ≠ []) := by
  have hall : w.sent = w.queue.removed.filter (· ≠ []) := hw
  exact ⟨[], by rw [hall, List.append_nil]⟩

theorem Owes.sent_le (hw : w.Owes x) : w.sent <+: w.queue.removed.filter (· ≠ []) := ⟨_, hw⟩

theorem owes_forwarding {c : Call} (hc : TLSClient.ofConnect c = true) (hw : w.Owes x) :
    Forwarding c w := by
  refine ⟨hw.sent_le, ?_, ?_⟩
  · intro hpop
    rw [hpop] at hc
    cases hc
  · intro n hexit
    rw [hexit] at hc
    cases hc

/-- Between two policies, and behind a sent one. -/
abbrev Idle : Desk → Prop := Beside AllSent fun s => s.ok = true

abbrev Taken (x : Str) : Desk → Prop := Beside (Popped x) fun s => s.ok = true

abbrev Sending (x : Str) : Desk → Prop := Beside (Owes x) fun s => s.ok = true

def Sent (w : Desk) : Prop := w.AllSent ∧ w.sent ≠ []

theorem triple_forward_write :
    (forwarder h).Triple (Sending x) (sslSendMsg .client x) (fun b w => b = true ∧ w.Sent) := by
  apply triple_sslSendMsg (stable_insert fun _ _ hw => hw) (fun _ => stable_insert fun _ _ hw => hw)
  · intro w hw
    exact ⟨hw.1.sent_le, nofun, nofun⟩
  · intro w r w' hw hr hretry
    obtain ⟨hr, _⟩ := hr
    simp only [machine, respond, hretry, if_true, Option.some.injEq] at hr
    rwa [← hr]
  · intro w r w' hw hr hretry
    obtain ⟨hr, hok⟩ := hr
    have hret : 0 ≤ r.ret := by
      rcases hok with hagain | hret
      · rw [hretry] at hagain
        cases hagain
      · exact hret
    have hneg : ¬ r.ret < 0 := by omega
    simp only [machine, respond, hretry, hneg, Bool.false_eq_true, if_false,
      Option.some.injEq] at hr
    refine ⟨decide_eq_true hret, ?_⟩
    rw [← hr]
    exact ⟨hw.1, by simp⟩

theorem triple_forward_deployPolicy {IP port : Str} :
    (forwarder h).Triple (Sending x) (Deployer.PolicyDeployer.deployPolicy x IP port)
      (fun _ _ => False) := by
  have stable : ∀ b : Bool, (forwarder h).Stable fun w => b = true ∧ w.Sent :=
    fun _ => stable_insert fun _ _ hw => hw
  refine Deployer.PolicyDeployer.triple_deployPolicy (B := fun b w => b = true ∧ Sending x w)
    (C := fun b w => b = true ∧ w.Sent) (stable_insert fun _ _ hw => hw) (stable false)
    (fun _ _ _ hw => hw) ?_ (triple_forward_write.pre fun w hw => hw.2) ?_
    (fun w hw => Bool.false_ne_true hw.1) fun w hw => Bool.false_ne_true hw.1
  · exact triple_connect_succeeds (Q := Owes x) (fun c w hc _ hw => owes_forwarding hc hw)
      (fun _ _ hw => hw) (fun _ _ hw => hw) (fun w hw => owes_forwarding rfl hw)
      fun _ _ _ hok _ => hok
  · refine (triple_terminate (Q := Sent) (fun _ _ hw => hw) (fun _ hw => hw) ?_).pre
      fun w hw => hw.2
    intro w hw
    exact ⟨⟨hw.1.sent_le, nofun, nofun⟩, ⟨hw.1.sent_le, nofun, nofun⟩, hw.1.sent_le, nofun,
      fun _ _ => hw⟩

theorem triple_forward_managePolicy :
    (forwarder h).Triple Idle Deployer.PolicyManager.managePolicy (fun _ _ => False) := by
  have stable : (forwarder h).Stable Idle := stable_insert fun _ _ hw => hw
  refine Setting.triple_whileTrue (fun _ _ _ _ hw => hw) (triple_popRound
    (B := Taken)
    (k := fun policy => (Deployer.PolicyDeployer.deployPolicy policy _ _).bind fun _ => .ret _)
    stable ?_ ?_ fun policy hne => ?_) nofun
  · apply triple_pop (c := .popPolicy) (B := Taken) rfl stable
      (fun x => stable_insert fun _ _ hw => hw)
    · exact fun w hw => ⟨hw.1.sent_le, fun _ => hw.1, nofun⟩
    · exact fun w hw => ⟨hw.1.popped, hw.2⟩
  · refine (triple_sleep stable fun w hw => ?_).pre fun w hw => ⟨hw.1.none, hw.2⟩
    exact ⟨hw.1.sent_le, nofun, nofun⟩
  · refine (Setting.triple_bind triple_forward_deployPolicy fun _ =>
      Setting.triple_of_false fun _ hw => hw).pre fun w hw => ?_
    exact ⟨hw.1.some hne, hw.2⟩

abbrev Received (policies : List Str) (t : Config Desk Unit Call Reply Unit) : Prop :=
  (machine Deployer.PolicyManager.handoff).Reaches flawless
    (solo Deployer.PolicyManager.managePolicy {}) t ∧ t.world.queue.inserted <+: policies

theorem filter_removed {policies : List Str} (hne : ∀ p ∈ policies, p ≠ []) {q : Fifo Str}
    (hq : q.inserted <+: policies) : q.removed.filter (· ≠ []) = q.removed := by
  apply List.filter_eq_self.mpr
  intro p hp
  have hmem : p ∈ policies := (q.removed_prefix.trans hq).subset hp
  exact decide_eq_true (hne p hmem)

section Received

variable {policies : List Str} {t : Config Desk Unit Call Reply Unit}

theorem Received.kept (ht : Received policies t) (hne : ∀ p ∈ policies, p ≠ []) :
    t.world.sent <+: t.world.queue.removed ∧
      ((t.code ()).pending = .calling .popPolicy → t.world.sent = t.world.queue.removed) ∧
      ∃ c, (t.code ()).pending = .calling c ∧
        ∀ n, c = .exit n → t.world.sent = t.world.queue.removed ∧ t.world.sent ≠ [] := by
  obtain ⟨ht, hins⟩ := ht
  have hholds := ht.alone triple_forward_managePolicy ⟨rfl, rfl⟩
  cases hp : (t.code ()).pending with
  | returned u => exact (hholds.returned hp).elim
  | undefined => exact (hholds.undefined hp).elim
  | calling c =>
    obtain ⟨hpre, hpop, hexit⟩ := hholds.pre hp
    simp only [AllSent, filter_removed hne hins] at hpre hpop hexit
    exact ⟨hpre, fun hc => hpop (Pending.calling.inj hc), c, rfl, hexit⟩

end Received

end Deployer

end SGXess.Desk
