import SGXessControll.Listeners

/-!
# A policy on its way from the Deployer to the Controller

`sendMsg` writes once and `recvMsg` reads once. The session between them accepts and hands
out as many bytes at a time as it likes, so what arrives depends on both answers.
-/

namespace SGXess

set_option autoImplicit false

open Calls

/-- Where the Deployer's connection is among those the Controller accepts. -/
inductive Stage where
  | toCome
  | next
  | current
  | past
  deriving DecidableEq

/-- The session between a Deployer and the Controller: the bytes its writes accepted, and
how many of them reads have returned. -/
structure Link where
  stage : Stage := .toCome
  sent : Str := []
  read : Nat := 0
  deriving DecidableEq

namespace Link

/-- The most a single `mbedtls_ssl_write` accepts. -/
def maxRecord : Nat := 16384

def write (w : Link) (buf : Str) (r : Reply) : Option Link :=
  if wantsRetry r = true then some w
  else if w.stage = .current ∧ 1 ≤ r.ret ∧ r.ret.toNat ≤ min maxRecord buf.length then
    some { w with sent := w.sent ++ buf.take r.ret.toNat }
  else none

/-- Connections of others are read from in any way. -/
def readUp (w : Link) (len : Nat) (r : Reply) : Option Link :=
  if w.stage = .current then
    if wantsRetry r = true then some w
    else if 1 ≤ r.ret ∧ r.ret.toNat ≤ min len (w.sent.length - w.read) ∧
        r.bytes = (w.sent.drop w.read).take r.ret.toNat then
      some { w with read := w.read + r.ret.toNat }
    else none
  else if r.bytes.length ≤ len then some w else none

/-- `mbedtls_net_accept` takes the next connection, or fails. -/
def acceptNext (stage : Stage) (ret : Int) : Stage :=
  match stage with
  | .toCome => .toCome
  | .next => if ret = 0 then .current else .next
  | .current | .past => .past

def deployer (w : Link) (c : Call) (r : Reply) : Option Link :=
  match c with
  | .sslWrite .client buf => w.write buf r
  | _ => none

def controller (w : Link) (c : Call) (r : Reply) : Option Link :=
  match c with
  | .netAccept => some { w with stage := acceptNext w.stage r.ret }
  | .sslHandshake .server =>
    if w.stage = .current → wantsRetry r = true ∨ r.ret = 0 then some w else none
  | .sslRead .server len => w.readUp len r
  | .netFree | .sslSessionReset | .insertPolicy _ => some w
  | _ => none

def respond (w : Link) : Side → Call → Reply → Option Link
  | .client => w.deployer
  | .server => w.controller

def connect (w : Link) (_ : Unit) : Option Link :=
  if w.stage = .toCome then some { w with stage := .next } else none

def machine : Machine Link Side Call Reply Unit := ⟨respond, connect⟩

/-- The Deployer about to send `p`, and the Controller's listener at any earlier time. -/
def parties (p : Str) : Side → Prog Bool
  | .client => Deployer.TLSClient.sendMsg p
  | .server => Controller.PolicyListener.runListener

/-- The text in front of the first zero byte of what was read. -/
def arrived (w : Link) : Str := (w.sent.take w.read).takeWhile (· ≠ 0)

/-- The Deployer writes `p` once, and the Controller hands on what arrived of it. -/
def Owes (p : Str) : Side → Call → Link → Prop
  | .client, c, w => c = .sslWrite .client p ∧ w.sent = []
  | .server, c, w => ∀ policy, c = .insertPolicy policy → w.stage = .current →
      policy = w.arrived ∧ w.sent ≠ []

abbrev party (p : Str) (side : Side) : Setting Link Call Reply :=
  machine.setting Machine.any (Owes p) (fun _ _ => False) side

variable {p buf : Str} {w w' : Link} {len : Nat} {r : Reply} {c : Call}

theorem write_cases (h : w.write buf r = some w') :
    (wantsRetry r = true → w' = w) ∧ (wantsRetry r = false → w.stage = .current ∧ 1 ≤ r.ret ∧
      w' = { w with sent := w.sent ++ buf.take r.ret.toNat }) := by
  unfold write at h
  cases hretry : wantsRetry r with
  | true =>
    rw [if_pos hretry, Option.some.injEq] at h
    exact ⟨fun _ => h.symm, nofun⟩
  | false =>
    rw [if_neg (by simp [hretry])] at h
    split at h
    · rename_i hw
      cases h
      exact ⟨nofun, fun _ => ⟨hw.1, hw.2.1, rfl⟩⟩
    · cases h

theorem readUp_of_ne (hs : w.stage ≠ .current) (h : w.readUp len r = some w') :
    r.bytes.length ≤ len ∧ w' = w := by
  rw [readUp, if_neg hs] at h
  split at h
  · rename_i hlen
    cases h
    exact ⟨hlen, rfl⟩
  · cases h

theorem readUp_cases (hs : w.stage = .current) (h : w.readUp len r = some w') :
    (wantsRetry r = true → w' = w) ∧ (wantsRetry r = false → 1 ≤ r.ret ∧
      r.ret.toNat ≤ min len (w.sent.length - w.read) ∧
      r.bytes = (w.sent.drop w.read).take r.ret.toNat ∧
      w' = { w with read := w.read + r.ret.toNat }) := by
  rw [readUp, if_pos hs] at h
  cases hretry : wantsRetry r with
  | true =>
    rw [if_pos hretry, Option.some.injEq] at h
    exact ⟨fun _ => h.symm, nofun⟩
  | false =>
    rw [if_neg (by simp [hretry])] at h
    split at h
    · rename_i hr
      obtain ⟨hpos, hle, hbytes⟩ := hr
      cases h
      exact ⟨nofun, fun _ => ⟨hpos, hle, hbytes, rfl⟩⟩
    · cases h

/-- The Controller reads no more than the Deployer wrote, and takes none of that back. -/
def Kept (w w' : Link) : Prop :=
  w'.sent = w.sent ∧ (w.read ≤ w.sent.length → w'.read ≤ w.sent.length)

theorem readUp_keeps (h : w.readUp len r = some w') : w.Kept w' := by
  by_cases hs : w.stage = .current
  · obtain ⟨hagain, hdone⟩ := readUp_cases hs h
    cases hretry : wantsRetry r with
    | true =>
      rw [hagain hretry]
      exact ⟨rfl, id⟩
    | false =>
      obtain ⟨_, hle, _, rfl⟩ := hdone hretry
      refine ⟨rfl, fun hread => ?_⟩
      simp only
      omega
  · rw [(readUp_of_ne hs h).2]
    exact ⟨rfl, id⟩

theorem controller_keeps (h : w.controller c r = some w') : w.Kept w' := by
  unfold controller at h
  split at h
  · cases h
    exact ⟨rfl, id⟩
  · split at h
    · cases h
      exact ⟨rfl, id⟩
    · cases h
  · exact readUp_keeps h
  · cases h
    exact ⟨rfl, id⟩
  · cases h
    exact ⟨rfl, id⟩
  · cases h
    exact ⟨rfl, id⟩
  · cases h

theorem connect_cases (e : Unit) (h : connect w e = some w') :
    w.stage = .toCome ∧ w' = { w with stage := .next } := by
  unfold connect at h
  split at h
  · rename_i hs
    cases h
    exact ⟨hs, rfl⟩
  · cases h

section Client

theorem stable_sent {B : Str → Prop} : (party p .client).Stable fun w => B w.sent := by
  intro w w' h hw
  rcases h with ⟨e, he⟩ | ⟨side, hside, c, r, _, hr, _⟩
  · rw [(connect_cases e he).2]
    exact hw
  · cases side with
    | client => exact absurd rfl hside
    | server =>
      rw [(controller_keeps hr).1]
      exact hw

theorem triple_sendMsg :
    (party p .client).Triple (fun w => w.sent = []) (Deployer.TLSClient.sendMsg p)
      (fun sent _ => sent = true) := by
  apply triple_sslSendMsg (stable_sent (B := fun sent => sent = []))
  · intro b
    exact stable_sent (B := fun _ => b = true)
  · intro w hw
    exact ⟨rfl, hw⟩
  · intro w r w' hw hr hretry
    rw [(write_cases hr.1).1 hretry]
    exact hw
  · intro w r w' _ hr hretry
    obtain ⟨_, hpos, _⟩ := (write_cases hr.1).2 hretry
    simp only [decide_eq_true_eq]
    omega

end Client

section Server

/-- What the Controller asserts has to outlive that the Deployer connects and writes. -/
theorem stable_server {A : Link → Prop}
    (hconnect : ∀ w, A w → w.stage = .toCome → A { w with stage := .next })
    (hwrite : ∀ w s, A w → w.sent = [] → A { w with sent := s }) :
    (party p .server).Stable A := by
  intro w w' h hw
  rcases h with ⟨e, he⟩ | ⟨side, hside, c, r, howes, hr, _⟩
  · obtain ⟨hs, rfl⟩ := connect_cases e he
    exact hconnect w hw hs
  · cases side with
    | server => exact absurd rfl hside
    | client =>
      obtain ⟨rfl, hempty⟩ := howes
      obtain ⟨hagain, hdone⟩ := write_cases hr
      cases hretry : wantsRetry r with
      | true =>
        rw [hagain hretry]
        exact hw
      | false =>
        rw [(hdone hretry).2.2]
        exact hwrite w _ hw hempty

/-- Reads are within what was written, and there is none where `unread` says so. -/
def Within (unread : Stage → Prop) (w : Link) : Prop :=
  w.read ≤ w.sent.length ∧ (unread w.stage → w.read = 0)

/-- Where `acceptClient` is entered: the Deployer's connection may still come. -/
abbrev Ahead : Link → Prop := Within fun stage => stage = .toCome ∨ stage = .next

/-- Where the accepted client has not been read from. -/
abbrev Accepted : Link → Prop := Within fun stage => stage ≠ .past

def Got (policy : Str) (w : Link) : Prop :=
  w.Ahead ∧ (w.stage = .current → policy = w.arrived ∧ w.sent ≠ [])

theorem within_stable {unread : Stage → Prop} (h : unread .next → unread .toCome) :
    (party p .server).Stable (Within unread) := by
  apply stable_server
  · intro w hw hs
    refine ⟨hw.1, fun hnext => hw.2 ?_⟩
    rw [hs]
    exact h hnext
  · intro w s hw hempty
    have hread : w.read = 0 := by simpa [hempty] using hw.1
    exact ⟨by simp [hread], fun _ => hread⟩

theorem ahead_stable : (party p .server).Stable Ahead := within_stable fun _ => Or.inl rfl

theorem accepted_stable : (party p .server).Stable Accepted := within_stable fun _ => nofun

theorem got_stable (policy : Str) : (party p .server).Stable (Got policy) := by
  apply stable_server
  · intro w hw hs
    exact ⟨⟨hw.1.1, fun _ => hw.1.2 (Or.inl hs)⟩, nofun⟩
  · intro w s hw hempty
    have hread : w.read = 0 := by simpa [hempty] using hw.1.1
    exact ⟨⟨by simp [hread], fun _ => hread⟩, fun hs => absurd hempty (hw.2 hs).2⟩

theorem owes_of_ne (p : Str) (h : ∀ policy, c ≠ .insertPolicy policy) : Owes p .server c w :=
  fun policy hc => absurd hc (h policy)

theorem Ahead.accept (hw : w.Ahead) (h : w.controller .netAccept r = some w') :
    w'.Accepted := by
  cases h
  refine ⟨hw.1, fun hs => ?_⟩
  cases hstage : w.stage with
  | toCome => exact hw.2 (Or.inl hstage)
  | next => exact hw.2 (Or.inr hstage)
  | current | past => exact absurd (by simp only [hstage, acceptNext]) hs

theorem Accepted.ahead (hw : w.Accepted) : w.Ahead := by
  refine ⟨hw.1, fun hs => hw.2 fun hpast => ?_⟩
  rw [hpast] at hs
  rcases hs with hs | hs
  · cases hs
  · cases hs

theorem handshake_keeps (h : w.controller (.sslHandshake .server) r = some w') : w' = w := by
  simp only [controller] at h
  split at h
  · exact (Option.some.inj h).symm
  · cases h

theorem triple_acceptClient :
    (party p .server).Triple Ahead Controller.TLSServer.acceptClient (fun _ => Accepted) := by
  apply Controller.TLSServer.triple_acceptClient (H := Accepted) ahead_stable accepted_stable
    (fun _ => accepted_stable)
  · exact fun w _ => owes_of_ne p nofun
  · exact fun w _ => owes_of_ne p nofun
  · intro w r w' hw hr
    rw [ite_self]
    exact hw.accept hr.1
  · intro w r w' hw hr _
    rw [handshake_keeps hr.1]
    exact hw
  · intro w r w' hw hr _
    rw [handshake_keeps hr.1]
    exact hw

theorem Accepted.readUp (hw : w.Accepted) (hretry : wantsRetry r = false)
    (h : w.readUp len r = some w') :
    r.bytes.length ≤ len ∧ w'.Got (received true true [] r).2 := by
  by_cases hs : w.stage = .current
  · obtain ⟨hpos, hle, hbytes, rfl⟩ := (readUp_cases hs h).2 hretry
    obtain ⟨hlen, hrest⟩ := Nat.le_min.mp hle
    have hread : w.read = 0 := hw.2 fun hpast => by rw [hs] at hpast; cases hpast
    rw [hread, List.drop_zero] at hbytes
    have hmsg : (received true true [] r).2 = r.bytes.takeWhile (· ≠ 0) := by
      have hne : r.ret ≠ errSslTimeout := by
        simp only [errSslTimeout]
        omega
      rw [received, if_neg hne, if_neg (by omega)]
      rfl
    refine ⟨?_, ⟨?_, ?_⟩, ?_⟩
    · rw [hbytes]
      simp only [List.length_take]
      omega
    · simp only [hread]
      omega
    · intro hstage
      simp [hs] at hstage
    · intro _
      refine ⟨by rw [hmsg, hbytes, arrived, hread, Nat.zero_add], ?_⟩
      intro hempty
      rw [hempty, List.length_nil] at hrest
      omega
  · obtain ⟨hlen, rfl⟩ := readUp_of_ne hs h
    exact ⟨hlen, hw.ahead, fun hcur => absurd hcur hs⟩

theorem triple_recvMsg :
    (party p .server).Triple Accepted (Controller.TLSServer.recvMsg [])
      (fun received => Got received.2) := by
  apply triple_sslRecvMsg accepted_stable (fun received => got_stable received.2)
  · intro w _
    exact owes_of_ne p nofun
  · intro w r w' hw hr hretry
    by_cases hs : w.stage = .current
    · rw [(readUp_cases hs hr.1).1 hretry]
      exact hw
    · rw [(readUp_of_ne hs hr.1).2]
      exact hw
  · intro w r w' hw hr hretry
    exact hw.readUp hretry hr.1

theorem triple_resetClient {A : Link → Prop} (hA : (party p .server).Stable A) :
    (party p .server).Triple A Controller.TLSServer.resetClient (fun _ => A) := by
  refine Setting.triple_only (p := fun c => c = .netFree ∨ c = .sslSessionReset) (u := False)
    hA ?_ ?_ nofun ?_
  · intro c w hc _
    rcases hc with rfl | rfl
    · exact owes_of_ne p nofun
    · exact owes_of_ne p nofun
  · intro w c r w' hc hw hr
    rcases hc with rfl | rfl
    · cases hr.1
      exact hw
    · cases hr.1
      exact hw
  · exact Controller.TLSServer.only_resetClient (Or.inl rfl) (Or.inr rfl)

theorem triple_runListener :
    (party p .server).Triple Ahead Controller.PolicyListener.runListener (fun _ _ => False) := by
  apply Controller.PolicyListener.triple_runListener ahead_stable triple_acceptClient
    ((triple_resetClient ahead_stable).pre fun w hw => hw.ahead) triple_recvMsg
    (fun policy => triple_resetClient (got_stable policy))
  intro policy
  apply triple_void (got_stable policy) ahead_stable
  · intro w hw sent hc hs
    cases hc
    exact hw.2 hs
  · intro w r w' hw hr
    cases hr.1
    exact hw.1

end Server

variable {t : Config Link Side Call Reply Bool}

def post : Side → Bool → Link → Prop
  | .client, sent, _ => sent = true
  | .server, _, _ => False

theorem parties_hold (side : Side) :
    (party p side).Holds (parties p side) (post side) {} := by
  cases side with
  | client => exact triple_sendMsg _ rfl
  | server => exact triple_runListener _ ⟨Nat.le_refl 0, fun _ => rfl⟩

/-- Nothing but the front of `p` is written, and nothing but what was written is read. -/
def OfPolicy (p : Str) (w : Link) : Prop := w.sent <+: p ∧ w.read ≤ w.sent.length

theorem ofPolicy (ht : machine.Reaches Machine.any ⟨parties p, {}⟩ t) : OfPolicy p t.world := by
  apply ht.invariant (P := OfPolicy p) (parties_hold (p := p))
  · exact ⟨List.nil_prefix, Nat.le_refl 0⟩
  · intro w side c r w' hw howes hr _
    cases side with
    | client =>
      obtain ⟨rfl, hempty⟩ := howes
      obtain ⟨hagain, hdone⟩ := write_cases hr
      cases hretry : wantsRetry r with
      | true =>
        rw [hagain hretry]
        exact hw
      | false =>
        obtain ⟨_, _, rfl⟩ := hdone hretry
        refine ⟨?_, ?_⟩
        · rw [hempty, List.nil_append]
          exact List.take_prefix _ _
        · simp only [List.length_append]
          exact Nat.le_add_right_of_le hw.2
    | server =>
      obtain ⟨hsent, hread⟩ := controller_keeps hr
      rw [OfPolicy, hsent]
      exact ⟨hw.1, hread hw.2⟩
  · intro w e w' hw he
    rw [(connect_cases e he).2]
    exact hw

/-- The text that arrives is the policy exactly if no byte of it was held back and none is
zero. -/
theorem OfPolicy.arrived_iff (hw : OfPolicy p w) :
    w.arrived = p ↔ w.sent = p ∧ w.read = p.length ∧ 0 ∉ p := by
  obtain ⟨hfront, hread⟩ := hw
  constructor
  · intro h
    have hlen : p.length ≤ w.read := by
      calc p.length = w.arrived.length := by rw [h]
        _ ≤ (w.sent.take w.read).length := List.takeWhile_prefix _ |>.length_le
        _ ≤ w.read := List.length_take_le _ _
    have hsent : w.sent = p := hfront.eq_of_length_le (by omega)
    have hle := hfront.length_le
    have heq : w.read = p.length := by omega
    refine ⟨hsent, heq, ?_⟩
    rw [arrived, hsent, heq, List.take_length] at h
    exact Bytes.takeWhile_ne_eq_self_iff.mp h
  · intro h
    obtain ⟨hsent, heq, hzero⟩ := h
    rw [arrived, hsent, heq, List.take_length]
    exact Bytes.takeWhile_ne_eq_self_iff.mpr hzero

theorem arrived_of_insert (ht : machine.Reaches Machine.any ⟨parties p, {}⟩ t) {policy : Str}
    (hinsert : (t.code .server).pending = .calling (.insertPolicy policy))
    (hcurrent : t.world.stage = .current) :
    (t.code .client).pending = .returned true ∧ policy = t.world.arrived := by
  have hholds := ht.holds (parties_hold (p := p))
  obtain ⟨hpolicy, hsent⟩ := (hholds .server).pre hinsert policy rfl hcurrent
  refine ⟨?_, hpolicy⟩
  cases hc : (t.code .client).pending with
  | returned sent => rw [show sent = true from (hholds .client).returned hc]
  | calling c => exact absurd ((hholds .client).pre hc).2 hsent
  | undefined => exact ((hholds .client).undefined hc).elim

/-- What the Controller inserts is the policy exactly if it has no zero byte, the one write
accepted all of it and the one read returned all of it. -/
theorem inserted_iff (ht : machine.Reaches Machine.any ⟨parties p, {}⟩ t) {policy : Str}
    (hinsert : (t.code .server).pending = .calling (.insertPolicy policy))
    (hcurrent : t.world.stage = .current) :
    (t.code .client).pending = .returned true ∧
      (policy = p ↔ t.world.sent = p ∧ t.world.read = p.length ∧ 0 ∉ p) := by
  obtain ⟨hsent, rfl⟩ := arrived_of_insert ht hinsert hcurrent
  exact ⟨hsent, (ofPolicy ht).arrived_iff⟩

/-- The Deployer connects, and each call but the write and the read has one answer. -/
def delivery (wrote : Nat) (bytes : Str) : List (Event Side Reply Unit) :=
  [.move (), .reply .server ⟨0, []⟩, .reply .server ⟨0, []⟩, .reply .client ⟨wrote, []⟩,
    .reply .server ⟨bytes.length, bytes⟩, .reply .server ⟨0, []⟩, .reply .server ⟨0, []⟩]

theorem inserted_byte :
    ∃ t : Config Link Side Call Reply Bool, machine.Reaches Machine.any ⟨parties [65], {}⟩ t ∧
      (t.code .server).pending = .calling (.insertPolicy [65]) ∧
      (t.code .client).pending = .returned true ∧ t.world.sent = [65] ∧ t.world.read = 1 := by
  have hrun : machine.observe id ⟨parties [65], {}⟩ (delivery 1 [65]) .server =
      some (.calling (.insertPolicy [65]), ⟨.current, [65], 1⟩) := by decide +kernel
  obtain ⟨t, ht, hp, hw⟩ := Machine.reaches_of_observe hrun
  have hcurrent : t.world.stage = .current := by rw [show t.world = _ from hw]
  obtain ⟨hsent, hiff⟩ := inserted_iff ht hp hcurrent
  obtain ⟨hall, hread, _⟩ := hiff.mp rfl
  exact ⟨t, ht, hp, hsent, hall, hread⟩

/-- The last byte of a policy of 1024 bytes does not fit into the buffer of the one read. -/
theorem inserted_short :
    ¬ ∀ (p policy : Str) (t : Config Link Side Call Reply Bool), p ≠ [] →
      machine.Reaches Machine.any ⟨parties p, {}⟩ t →
      (t.code .client).pending = .returned true →
      (t.code .server).pending = .calling (.insertPolicy policy) →
      t.world.stage = .current → policy = p := by
  intro h
  have hrun : machine.observe id ⟨parties (List.replicate 1024 65), {}⟩
      (delivery 1024 (List.replicate 1023 65)) .server =
        some (.calling (.insertPolicy (List.replicate 1023 65)),
          ⟨.current, List.replicate 1024 65, 1023⟩) := by decide +kernel
  obtain ⟨t, ht, hp, hw⟩ := Machine.reaches_of_observe hrun
  have hcurrent : t.world.stage = .current := by rw [show t.world = _ from hw]
  have hsent := (arrived_of_insert ht hp hcurrent).1
  have hne : List.replicate 1024 (65 : UInt8) ≠ [] :=
    List.ne_nil_of_length_eq_add_one List.length_replicate
  have hlen := congrArg List.length (h _ _ t hne ht hsent hp hcurrent)
  rw [List.length_replicate, List.length_replicate] at hlen
  exact absurd hlen (by decide)

end Link

end SGXess
