import SGXessControll.Exchange

/-!
# Requests and responses agree

Each loop keeps its place in the conversation, whatever the other two do: the manager
sends only when nothing is unanswered, and the Controller answers what it read last.
-/

namespace SGXess.Exchange

set_option autoImplicit false

open Calls Queue
open Proxy.ProxyListener (inetNtop clientString)
open Controller.PolicyManager (PolicyMap validateRequest)

abbrev Owed (i : Loop) (c : Call) (w : Exchange) : Prop := w.Owes i c

abbrev kept (i : Loop) : Setting Exchange Call Reply :=
  machine.setting Machine.any Owed (fun _ _ => False) i

/-- A loop that may use what holds of the histories. -/
abbrev thread (i : Loop) : Setting Exchange Call Reply := (kept i).given Linked

variable {i : Loop} {w w' : Exchange} {c : Call} {r : Reply} {A : Exchange → Prop} {α : Type}

theorem stable_same (hA : ∀ w w', A w → Same i w w' → A w') : (thread i).Stable A := by
  intro w w' h hw
  rcases h with ⟨policy, he⟩ | ⟨j, hj, c, r, _, hr, _⟩
  · cases he
    apply hA w _ hw
    cases i with
    | proxyListener => exact ⟨rfl, rfl⟩
    | proxyManager => exact ⟨rfl, rfl, rfl, rfl⟩
    | requestListener => exact ⟨rfl, rfl, rfl⟩
  · exact hA w w' hw ((effect hr).same hj)

theorem linked_stable : (kept i).Stable Linked := by
  intro w w' h hw
  rcases h with ⟨policy, he⟩ | ⟨j, _, c, r, howes, hr, _⟩
  · cases he
    exact { hw with }
  · exact hw.effect howes (effect hr)

theorem linked_answer (hw : Linked w) (howes : Owed i c w)
    (hr : (kept i).answer w c r w') : Linked w' := hw.effect howes (effect hr.1)

/-- Calls that have no part in the conversation. -/
def Quiet (i : Loop) (c : Call) : Prop :=
  (∀ w : Exchange, w.Owes i c) ∧ ∀ w r w', respond w i c r = some w' → w' = w

theorem triple_quiet {m : Prog α} (hA : (thread i).Stable A) (hm : m.Only (Quiet i) False) :
    (thread i).Triple A m (fun _ => A) := by
  refine Setting.triple_only hA ?_ ?_ nofun hm
  · intro c w hc _
    exact hc.1 w
  · intro w c r w' hc hw hr
    rw [hc.2 w r w' hr.2.1]
    exact hw

section ProxyListener

/-- Every client that was accepted has been queued. -/
def Listening (w : Exchange) : Prop := w.accepted.map clientString = w.clients.inserted

theorem listening_stable : (thread .proxyListener).Stable Listening := by
  apply stable_same
  intro w w' hw hsame
  rw [Listening, hsame.1, hsame.2]
  exact hw

theorem inserting_stable (client : Str) : (thread .proxyListener).Stable (Inserting client) := by
  apply stable_same
  intro w w' hw hsame
  rw [Inserting, hsame.1, hsame.2]
  exact hw

/-- A connection that was accepted has to be queued next. -/
def Accepted (failed : Prop) [Decidable failed] (addr : Str) (w : Exchange) : Prop :=
  if failed then w.Listening else w.Inserting (clientString addr)

theorem accepted_stable (failed : Prop) [Decidable failed] (addr : Str) :
    (thread .proxyListener).Stable (Accepted failed addr) :=
  Setting.stable_ite listening_stable (inserting_stable _)

theorem Listening.accept (hw : w.Listening) (h : w.proxyListener .accept r = some w') :
    w'.Accepted (r.ret < 0) r.bytes := by
  simp only [proxyListener] at h
  split at h
  · rename_i hneg
    cases h
    rw [Accepted, if_pos hneg]
    exact hw
  · rename_i hneg
    split at h
    · cases h
      rw [Accepted, if_neg hneg, Inserting, List.map_append]
      exact congrArg (· ++ [clientString r.bytes]) hw
    · cases h

theorem triple_getClientConn :
    (thread .proxyListener).Triple Listening Proxy.Listener.getClientConn
      (fun conn => Accepted (conn.1 = -1) conn.2) := by
  refine Setting.triple_bind (Setting.triple_ask (B := fun r => Accepted (r.ret < 0) r.bytes)
    listening_stable (fun _ => accepted_stable _ _) (fun _ _ => trivial) ?_) fun r => ?_
  · intro w r w' hw hr
    exact hw.accept hr.2.1
  · by_cases hneg : r.ret < 0
    · rw [if_pos hneg]
      refine Setting.triple_ret (accepted_stable _ _) fun w hw => ?_
      simpa only [Accepted, hneg, if_true] using hw
    · rw [if_neg hneg]
      refine Setting.triple_ret (accepted_stable _ _) fun w hw => ?_
      have hne : r.ret ≠ -1 := by omega
      simpa only [Accepted, hneg, hne, if_false] using hw

theorem triple_proxyListener :
    (thread .proxyListener).Triple Listening Proxy.ProxyListener.runListener
      (fun _ => Listening) := by
  refine (Proxy.ProxyListener.triple_runListener listening_stable triple_getClientConn
    (fun addr w hw => ?_) (fun clientSock addr hsock => ?_) ?_).post fun _ _ => False.elim
  · rw [Accepted, if_pos rfl] at hw
    exact hw
  · refine Setting.Triple.pre (A := Inserting (clientString addr)) ?_ fun w hw => ?_
    · refine triple_void (inserting_stable _) listening_stable (fun w hw => hw) ?_
      intro w r w' hw hr
      cases hr.2.1
      simp only [Listening, Handoff.push_eq, Fifo.push_inserted]
      exact hw
    · simpa only [Accepted, hsock, if_false] using hw
  · refine triple_quiet listening_stable (only_void ⟨fun _ => trivial, fun w r w' hr => ?_⟩)
    exact (Option.some.inj hr).symm

end ProxyListener

section ProxyManager

theorem idle_stable : (thread .proxyManager).Stable Idle := by
  apply stable_same
  intro w w' hw hsame
  obtain ⟨_, hremoved, hinserted, hanswered⟩ := hsame
  rw [Idle, hremoved, hinserted, hanswered]
  exact hw

theorem holding_stable (client : Str) : (thread .proxyManager).Stable (Holding client) := by
  apply stable_same
  intro w w' hw hsame
  obtain ⟨hhand, hremoved, hinserted, hanswered⟩ := hsame
  rw [Holding, hhand, hremoved, hinserted, hanswered]
  exact hw

theorem waiting_stable : (thread .proxyManager).Stable Waiting := by
  apply stable_same
  intro w w' hw hsame
  obtain ⟨hhand, hremoved, hinserted, hanswered⟩ := hsame
  rw [Waiting, hhand, hremoved, hinserted, hanswered]
  exact hw

theorem Linked.client {client : Str} (hw : w.Linked) (hc : client ∈ w.clients.inserted) :
    ∃ addr, addr.length = 4 ∧ client = clientString addr := by
  obtain ⟨addr, haddr, rfl⟩ := List.mem_map.mp (hw.queued.subset hc)
  exact ⟨addr, hw.ipv4 addr haddr, rfl⟩

theorem Idle.popClient (hw : w.Idle) (hlinked : w.Linked)
    (h : w.proxyManager .popClient r = some w') :
    if r.bytes = [] then w'.Idle else w'.Holding r.bytes := by
  obtain ⟨hfront, rfl⟩ := popClient_cases h
  cases hq : w.clients.waiting with
  | nil =>
    rw [Handoff.front_of_nil _ hq] at hfront
    rw [if_pos hfront, Fifo.pop_of_nil hq]
    exact hw
  | cons client rest =>
    have hclient : r.bytes = client := by
      rw [hfront, Handoff.front, Handoff.pop_eq, hq]
      rfl
    have hmem : client ∈ w.clients.inserted := by
      rw [w.clients.conserved, hq]
      exact List.mem_append_right _ List.mem_cons_self
    obtain ⟨addr, haddr, heq⟩ := hlinked.client hmem
    rw [hclient, if_neg (heq ▸ clientString_ne_nil haddr)]
    refine ⟨rfl, ?_, hw.2⟩
    rw [w.clients.pop_removed, hq, hw.1]
    rfl

theorem quiet_ofConnect (c : Call) (hc : TLSClient.ofConnect c = true) : Quiet .proxyManager c := by
  refine ⟨fun w => ?_, fun w r w' hr => ?_⟩
  · cases c <;> trivial
  · cases c <;> first | exact (Option.some.inj hr).symm | cases hc

theorem triple_setTLSClient (hA : (thread .proxyManager).Stable A) :
    (thread .proxyManager).Triple A Proxy.ProxyManager.setTLSClient (fun _ => A) := by
  have hterminate : Proxy.TLSClient.terminate.Only (Quiet .proxyManager) False := by
    apply TLSClient.only_terminate
    · exact ⟨fun _ => trivial, fun w r w' hr => (Option.some.inj hr).symm⟩
    · exact quiet_ofConnect _ rfl
    · exact ⟨fun _ => trivial, fun w r w' hr => nomatch hr⟩
  exact triple_quiet hA (Proxy.ProxyManager.only_setTLSClient quiet_ofConnect hterminate)

theorem triple_sendMsg {client : Str} :
    (thread .proxyManager).Triple (Holding client) (Proxy.TLSClient.sendMsg client)
      (fun sent w => sent = true ∧ w.Waiting) := by
  have stable : ∀ b : Bool, (thread .proxyManager).Stable fun w => b = true ∧ w.Waiting :=
    fun b w w' hr hw => ⟨hw.1, waiting_stable w w' hr hw.2⟩
  apply triple_sslSendMsg (holding_stable client) stable
  · intro w hw
    exact hw
  · intro w r w' hw hr hretry
    rw [(request_cases hr.2.1).1 hretry]
    exact hw
  · intro w r w' hw hr hretry
    obtain ⟨hret, rfl⟩ := (request_cases hr.2.1).2 hretry
    obtain ⟨hhand, hremoved, hlen⟩ := hw
    refine ⟨decide_eq_true (by omega), hremoved, w.requests.inserted, ?_, hlen⟩
    rw [hhand]
    rfl

theorem triple_response :
    (thread .proxyManager).Triple Waiting (Proxy.TLSClient.recvMsg []) (fun _ => Idle) := by
  apply triple_sslRecvMsg waiting_stable (fun _ => idle_stable)
  · intro w hw
    exact hw
  · intro w r w' hw hr hretry
    rw [(clientRead_cases hr.2.1).1 hretry]
    exact hw
  · intro w r w' hw hr hretry
    obtain ⟨hlen, channel, hdelivered, rfl⟩ := (clientRead_cases hr.2.1).2 hretry
    obtain ⟨hremoved, answered, hinserted, hcount⟩ := hw
    refine ⟨hlen, hremoved, ?_⟩
    simp only [hinserted, hdelivered.removed, List.length_append, List.length_singleton, hcount]

theorem triple_proxyManager :
    (thread .proxyManager).Triple Idle Proxy.ProxyManager.manageClient (fun _ => Idle) := by
  have hsleep : (void .sleep).Only (Quiet .proxyManager) False :=
    only_void ⟨fun _ => trivial, fun w r w' hr => (Option.some.inj hr).symm⟩
  apply Proxy.ProxyManager.triple_manageClient (B := fun _ => Idle) (D := fun _ _ => False)
    (C := fun sent w => sent = true ∧ w.Waiting)
    (Q := fun x w => if x = [] then w.Idle else w.Holding x) (fun _ => idle_stable)
    (triple_setTLSClient idle_stable)
  · refine Setting.triple_ask idle_stable
      (fun _ => Setting.stable_ite idle_stable (holding_stable _)) (fun _ hw => hw) ?_
    intro w r w' hw hr
    exact hw.popClient hr.1 hr.2.1
  · simpa only [if_true] using triple_quiet idle_stable hsleep
  · intro client hne
    simpa only [hne, if_false] using triple_sendMsg
  · exact fun client => Setting.triple_of_false fun w hw => Bool.false_ne_true hw.1
  · exact fun _ => False.elim
  · exact fun _ => False.elim
  · exact triple_response.pre fun w hw => hw.2

end ProxyManager

section RequestListener

theorem ready_stable : (thread .requestListener).Stable Ready := by
  apply stable_same
  intro w w' hw hsame
  rw [Ready, hsame.1, hsame.2.1, hsame.2.2]
  exact hw

theorem evaluating_stable (req : Str) : (thread .requestListener).Stable (Evaluating req) := by
  apply stable_same
  intro w w' hw hsame
  rw [Evaluating, hsame.1, hsame.2.1, hsame.2.2]
  exact hw

theorem answering_stable (response : Str) :
    (thread .requestListener).Stable (Answering response) := by
  apply stable_same
  intro w w' hw hsame
  rw [Answering, hsame.1, hsame.2.1, hsame.2.2]
  exact hw

theorem Linked.record {channel : Fifo Str} {record : Str} (hw : w.Linked)
    (h : Delivered w.requests channel record) :
    ∃ addr, addr.length = 4 ∧ record = clientString addr := by
  apply hw.client
  have hmem : record ∈ w.requests.inserted := by
    rw [← h.inserted, channel.conserved, h.removed]
    simp
  exact w.clients.removed_prefix.subset (hw.sent.subset hmem)

theorem received_record {addr : Str} (haddr : addr.length = 4)
    (hret : r.ret = r.bytes.length) (hbytes : r.bytes = clientString addr) :
    received true true [] r = (true, inetNtop addr) := by
  have hpos : 0 < r.ret := by
    rw [hret, hbytes, clientString_length haddr]
    decide
  have htimeout : r.ret ≠ errSslTimeout := by
    simp only [errSslTimeout]
    omega
  rw [received, if_neg htimeout, if_neg (by omega), if_pos rfl, List.nil_append, hbytes,
    clientString_takeWhile haddr]

/-- After a read the Controller has a request, or nothing on a timeout. -/
def Received (received : Bool × Str) (w : Exchange) : Prop :=
  received.1 = true ∧ if received.2 = [] then w.Ready else w.Evaluating received.2

theorem received_stable (received : Bool × Str) :
    (thread .requestListener).Stable (Received received) := by
  intro w w' hr hw
  exact ⟨hw.1, Setting.stable_ite ready_stable (evaluating_stable _) w w' hr hw.2⟩

theorem triple_recvMsg :
    (thread .requestListener).Triple Ready (Controller.TLSServer.recvMsg []) Received := by
  apply triple_sslRecvMsg ready_stable received_stable
  · intro w hw
    exact hw
  · intro w r w' hw hr hretry
    rcases serverRead_cases hr.2.1 with ⟨_, rfl⟩ | ⟨_, hret, _⟩
    · exact hw
    · have hneg := wantsRetry_neg hretry
      omega
  · intro w r w' hw hr hretry
    rcases serverRead_cases hr.2.1 with ⟨hnone, rfl⟩ | ⟨hlen, hret, channel, hdelivered, rfl⟩
    · have hr0 : r = ⟨errSslTimeout, []⟩ := hnone.resolve_left (by simp [hretry])
      rw [hr0]
      exact ⟨Nat.zero_le _, rfl, hw⟩
    · obtain ⟨addr, haddr, hbytes⟩ := hr.1.record hdelivered
      have hne : inetNtop addr ≠ [] := by
        intro hnil
        have hlen := (inetNtop_length haddr).1
        rw [hnil] at hlen
        cases hlen
      rw [received_record haddr hret hbytes]
      refine ⟨hlen, rfl, ?_⟩
      rw [if_neg hne]
      refine ⟨?_, hw.2⟩
      rw [hdelivered.removed, List.map_append, hw.1, hbytes]
      simp only [List.map_cons, List.map_nil, untilZero, clientString_takeWhile haddr]

theorem triple_acceptClient (hA : (thread .requestListener).Stable A) :
    (thread .requestListener).Triple A Controller.TLSServer.acceptClient (fun _ => A) := by
  have quiet : ∀ c, c = .netAccept ∨ c = .sslHandshake .server → Quiet .requestListener c := by
    intro c hc
    rcases hc with rfl | rfl
    · exact ⟨fun _ => trivial, fun w r w' hr => (Option.some.inj hr).symm⟩
    · exact ⟨fun _ => trivial, fun w r w' hr => (Option.some.inj hr).symm⟩
  apply triple_quiet hA
  exact Controller.TLSServer.only_acceptClient (quiet _ (Or.inl rfl)) (quiet _ (Or.inr rfl))

theorem triple_validateRequest {req : Str} :
    (thread .requestListener).Triple (Evaluating req) (int (.validateRequest req))
      (fun vRet => Answering (if vRet ≠ 0 then text "Accept" else text "Deny")) := by
  apply triple_int (evaluating_stable req) (fun _ => answering_stable _)
  · intro w hw
    exact hw
  · intro w r w' hw hr
    obtain ⟨rfl, hverdict⟩ := validateRequest_cases hr.2.1
    refine ⟨?_, ?_⟩
    · rw [hw.1, List.map_append]
      rfl
    · rw [List.map_append, ← hw.2, hverdict]
      rfl

theorem triple_answer {response : Str} :
    (thread .requestListener).Triple (Answering response)
      (Controller.TLSServer.sendMsg response) (fun _ => Ready) := by
  apply triple_sslSendMsg (answering_stable response) (fun _ => ready_stable)
  · intro w hw
    exact hw
  · intro w r w' hw hr hretry
    rw [(answer_cases hr.2.1).1 hretry]
    exact hw
  · intro w r w' hw hr hretry
    rw [((answer_cases hr.2.1).2 hretry).2]
    exact ⟨hw.1, hw.2.symm⟩

theorem triple_requestListener :
    (thread .requestListener).Triple Ready Controller.RequestListener.runListener
      (fun _ => Ready) := by
  apply Controller.RequestListener.triple_runListener (B := fun _ => Ready) (fun _ => ready_stable)
    (triple_acceptClient ready_stable) triple_recvMsg
  · exact fun req w hw => nomatch hw.1
  · intro w hw
    simpa only [Received, true_and, if_true] using hw
  · intro req hreq
    refine triple_validateRequest.pre fun w hw => ?_
    simpa only [Received, true_and, hreq, if_false] using hw
  · exact fun vRet => triple_answer

end RequestListener

section Agreement

variable {policy : PolicyMap} {t : Config Exchange Loop Call Reply Bool} {m n : Nat}

/-- Where each loop is before its first call and after its last. -/
def atRest : Loop → Exchange → Prop
  | .proxyListener => Listening
  | .proxyManager => Idle
  | .requestListener => Ready

theorem triple_loops (i : Loop) : (thread i).Triple (atRest i) (loops i) (fun _ => atRest i) := by
  cases i with
  | proxyListener => exact triple_proxyListener
  | proxyManager => exact triple_proxyManager
  | requestListener => exact triple_requestListener

theorem start_linked : Linked { policy } where
  ipv4 := nofun
  queued := List.prefix_rfl
  sent := List.prefix_rfl
  asked := List.prefix_rfl
  answered := List.prefix_rfl
  single := Nat.zero_le _
  served := rfl

theorem start_atRest (i : Loop) : atRest i { policy } := by
  cases i with
  | proxyListener => exact rfl
  | proxyManager => exact ⟨rfl, rfl⟩
  | requestListener => exact ⟨rfl, rfl⟩

theorem loops_hold (i : Loop) :
    (kept i).Holds (loops i) (fun _ w => atRest i w ∧ w.Linked) { policy } :=
  Setting.Triple.of_given linked_stable (fun _ _ _ _ => linked_answer) (triple_loops i) _
    ⟨start_atRest i, start_linked⟩

theorem linked_of_reaches (ht : machine.Reaches Machine.any ⟨loops, { policy }⟩ t) :
    t.world.Linked := by
  apply ht.invariant (P := Linked) loops_hold start_linked
  · intro w i c r w' hw howes hr _
    exact hw.effect howes (effect hr)
  · intro w policy w' hw he
    cases he
    exact { hw with }

theorem owes_of_reaches (ht : machine.Reaches Machine.any ⟨loops, { policy }⟩ t) {i : Loop}
    (hc : (t.code i).pending = .calling c) : t.world.Owes i c :=
  (ht.holds loops_hold i).pre hc

theorem getElem?_of_prefix {β : Type} {xs ys : List β} {x : β} (h : xs <+: ys)
    (hx : xs[n]? = some x) : ys[n]? = some x := by
  obtain ⟨zs, rfl⟩ := h
  obtain ⟨hn, hx⟩ := List.getElem?_eq_some_iff.mp hx
  rw [List.getElem?_append_left hn]
  exact List.getElem?_eq_some_iff.mpr ⟨hn, hx⟩

theorem Linked.sent_clients (hw : w.Linked) :
    w.requests.inserted <+: w.accepted.map clientString :=
  (hw.sent.trans w.clients.removed_prefix).trans hw.queued

/-- The texts that reach the Controller are those of the clients, in their order. -/
theorem Linked.texts (hw : w.Linked) :
    w.requests.removed.map untilZero <+: w.accepted.map inetNtop := by
  have htexts : (w.accepted.map clientString).map untilZero = w.accepted.map inetNtop := by
    rw [List.map_map]
    apply List.map_congr_left
    intro addr haddr
    exact clientString_takeWhile (hw.ipv4 addr haddr)
  rw [← htexts]
  exact (w.requests.removed_prefix.trans hw.sent_clients).map untilZero

/-- The `n`-th response is the verdict on the `n`-th client. -/
theorem Linked.response (hw : w.Linked) {client response : Str}
    (h : w.served[n]? = some (client, response)) :
    ∃ addr policy, w.accepted[n]? = some addr ∧ client = clientString addr ∧
      w.asked[n]? = some (inetNtop addr, policy) ∧
      response = if validateRequest policy (inetNtop addr) = true then text "Accept"
        else text "Deny" := by
  rw [hw.served, List.getElem?_zip_eq_some] at h
  obtain ⟨hclient, hresponse⟩ := h
  have haccepted := getElem?_of_prefix hw.sent_clients hclient
  rw [List.getElem?_map] at haccepted
  obtain ⟨addr, haddr, rfl⟩ := Option.map_eq_some_iff.mp haccepted
  have hanswered := getElem?_of_prefix
    (w.responses.removed_prefix.trans hw.answered) hresponse
  rw [List.getElem?_map] at hanswered
  obtain ⟨⟨req, policy⟩, hasked, rfl⟩ := Option.map_eq_some_iff.mp hanswered
  have hreq : (w.asked.map Prod.fst)[n]? = some req := by
    rw [List.getElem?_map, hasked]
    rfl
  have htext := getElem?_of_prefix (hw.asked.trans hw.texts) hreq
  rw [List.getElem?_map, haddr] at htext
  cases htext
  exact ⟨addr, policy, haddr, rfl, hasked, rfl⟩

theorem Linked.lengths (hw : w.Linked) :
    w.responses.removed.length ≤ w.responses.inserted.length ∧
      w.responses.inserted.length ≤ w.asked.length ∧
      w.asked.length ≤ w.requests.removed.length ∧
      w.requests.removed.length ≤ w.requests.inserted.length := by
  refine ⟨w.responses.removed_prefix.length_le, ?_, ?_, w.requests.removed_prefix.length_le⟩
  · simpa using hw.answered.length_le
  · simpa using hw.asked.length_le

theorem verdict_length (question : Str × PolicyMap) : (verdict question).length ≤ 1023 := by
  rw [verdict]
  split
  · decide
  · decide

theorem Linked.fits (hw : w.Linked) :
    (∀ record ∈ w.requests.inserted, record.length ≤ 1023) ∧
      ∀ record ∈ w.responses.inserted, record.length ≤ 1023 := by
  constructor
  · intro record hrecord
    obtain ⟨addr, haddr, rfl⟩ := List.mem_map.mp (hw.sent_clients.subset hrecord)
    rw [clientString_length (hw.ipv4 addr haddr)]
    decide
  · intro record hrecord
    obtain ⟨question, _, rfl⟩ := List.mem_map.mp (hw.answered.subset hrecord)
    exact verdict_length question

structure Agreed (t : Config Exchange Loop Call Reply Bool) : Prop where
  /-- No more than one request is unanswered. -/
  single : t.world.requests.inserted.length ≤ t.world.responses.removed.length + 1
  /-- The Controller asks about the clients one by one, under their addresses. -/
  evaluated : ∀ req, (t.code .requestListener).pending = .calling (.validateRequest req) →
    ∃ addr, t.world.accepted[t.world.asked.length]? = some addr ∧ req = inetNtop addr
  /-- The `n`-th response is the verdict on the `n`-th client. -/
  response : ∀ (n : Nat) (client response : Str), t.world.served[n]? = some (client, response) →
    ∃ (addr : Str) (policy : PolicyMap), t.world.accepted[n]? = some addr ∧
      client = clientString addr ∧ t.world.asked[n]? = some (inetNtop addr, policy) ∧
      response = if validateRequest policy (inetNtop addr) = true then text "Accept"
        else text "Deny"
  /-- When the manager turns to the queue, each client it took has had its response. -/
  settled : (t.code .proxyManager).pending = .calling .popClient →
    t.world.served.length = t.world.clients.removed.length ∧
      t.world.asked.length = t.world.clients.removed.length ∧
      t.world.responses.inserted.length = t.world.clients.removed.length
  fits : ∀ record ∈ t.world.requests.inserted ++ t.world.responses.inserted,
    record.length ≤ 1023

theorem responses_agree (ht : machine.Reaches Machine.any ⟨loops, { policy }⟩ t) : Agreed t := by
  have hlinked := linked_of_reaches ht
  obtain ⟨hread, hanswered, hasked, htaken⟩ := hlinked.lengths
  refine ⟨hlinked.single, ?_, fun n client response => hlinked.response, ?_, ?_⟩
  · intro req hreq
    have hevaluating : t.world.Evaluating req := owes_of_reaches ht hreq
    have hget : (t.world.asked.map Prod.fst ++ [req])[t.world.asked.length]? = some req := by
      rw [List.getElem?_append_right (by simp)]
      simp
    have htext := getElem?_of_prefix (hevaluating.1 ▸ hlinked.texts) hget
    rw [List.getElem?_map] at htext
    obtain ⟨addr, haddr, heq⟩ := Option.map_eq_some_iff.mp htext
    exact ⟨addr, haddr, heq.symm⟩
  · intro hpop
    obtain ⟨hremoved, hcount⟩ := show t.world.Idle from owes_of_reaches ht hpop
    rw [hlinked.served, hremoved, List.length_zip]
    omega
  · intro record hrecord
    rcases List.mem_append.mp hrecord with hrequest | hresponse
    · exact hlinked.fits.1 record hrequest
    · exact hlinked.fits.2 record hresponse

/-- One client, a read that times out, a policy that allows the address just before it is
looked up, and the response. -/
def conversation (client : Str) (policy : PolicyMap) : List (Event Loop Reply PolicyMap) :=
  List.replicate 9 (.reply .proxyManager ⟨0, []⟩) ++
    [.reply .requestListener ⟨0, []⟩, .reply .requestListener ⟨0, []⟩,
      .reply .requestListener ⟨errSslTimeout, []⟩, .reply .proxyListener ⟨5, [10, 0, 0, 7]⟩,
      .reply .proxyListener ⟨0, []⟩, .reply .proxyManager ⟨0, client⟩,
      .reply .proxyManager ⟨32, []⟩, .reply .requestListener ⟨32, client⟩, .move policy,
      .reply .requestListener ⟨1, []⟩, .reply .requestListener ⟨6, []⟩,
      .reply .proxyManager ⟨6, text "Accept"⟩]

theorem responses_agree_allowed :
    ∃ t : Config Exchange Loop Call Reply Bool, Agreed t ∧
      t.world.served = [(clientString [10, 0, 0, 7], text "Accept")] := by
  have hrun : machine.observe served ⟨loops, { policy := fun _ => none }⟩
      (conversation (clientString [10, 0, 0, 7]) fun _ => some true) .proxyManager =
      some (.calling .popClient, [(clientString [10, 0, 0, 7], text "Accept")]) := by
    decide +kernel
  obtain ⟨t, ht, _, hserved⟩ := Machine.reaches_of_observe hrun
  exact ⟨t, responses_agree ht, hserved⟩

end Agreement

end SGXess.Exchange
