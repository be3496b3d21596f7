import SGXessControll.Listeners

/-!
# Whose session it is

The Controller's listeners serve one connection after the other with one socket and one
TLS session. A session whose handshake is over lets the handshake of the next connection
pass without doing anything, so it has to be reset in between.
-/

namespace SGXess.Controller

set_option autoImplicit false

open Calls

/-- The members of a `TLSServer`, connections counted in the order of their acceptance. -/
structure Server where
  next : Nat := 0
  client : Option Nat := none
  /-- The connection the handshake of `m_ssl` began on, and if it is over. -/
  peer : Option Nat := none
  finished : Bool := false
  /-- A read has failed for good, ever or since the session was reset. -/
  fatal : Bool := false
  stale : Bool := false
  /-- The last read was in a session of the connection in `m_client`. -/
  owned : Bool := false
  deriving DecidableEq

namespace Server

/-- The results of a read after which `recvMsg` is false. -/
def readFails (r : Reply) : Bool :=
  decide (r.ret ≤ 0 ∧ r.ret ≠ errSslTimeout ∧ r.ret ≠ errSslPeerCloseNotify)

def respond (w : Server) (_ : Unit) (c : Call) (r : Reply) : Option Server :=
  match c with
  | .netAccept =>
    if r.ret = 0 then some { w with next := w.next + 1, client := some w.next }
    else some { w with client := none }
  | .netFree => some { w with client := none }
  | .sslSessionReset => some { w with peer := none, finished := false, stale := false }
  | .sslHandshake .server =>
    if w.finished = true then if r.ret = 0 then some w else none
    else some { w with peer := w.peer.or w.client, finished := r.ret == 0 }
  | .sslRead .server len =>
    if r.bytes.length ≤ len then
      if wantsRetry r = true then some w
      else some { w with fatal := w.fatal || readFails r, stale := w.stale || readFails r,
                         owned := w.finished && w.peer == w.client }
    else none
  | .sslWrite .server _ | .validateRequest _ | .insertPolicy _ => some w
  | _ => none

def machine : Machine Server Unit Call Reply Empty := ⟨respond, fun _ e => nomatch e⟩

/-- No connection is open and the session is in its initial state. -/
def Clean (w : Server) : Prop := w.client = none ∧ w.peer = none ∧ w.finished = false

/-- The session of the connection in `m_client`, or of another one after a failed read. -/
def InSession (w : Server) : Prop :=
  w.finished = true ∧ ∃ p k, w.peer = some p ∧ w.client = some k ∧ p < w.next ∧
    (p = k ↔ w.stale = false)

/-- Where `acceptClient` is entered: all is reset, or a session is over and left behind. -/
def AtAccept (w : Server) : Prop :=
  (w.Clean ∧ w.stale = false) ∨
    (w.finished = true ∧ (∃ p, w.peer = some p ∧ p < w.next) ∧ w.stale = true)

/-- A new connection, before its handshake is over. -/
def Accepted (w : Server) : Prop :=
  (w.finished = false ∧ w.stale = false ∧ ∃ k, w.client = some k ∧ k < w.next ∧
    (w.peer = none ∨ w.peer = some k)) ∨ (w.InSession ∧ w.stale = true)

/-- Connections are told apart exactly where `P` holds. -/
def TellsApart (P : Server → Prop) (c : Call) (w : Server) : Prop :=
  (c = .netAccept → (w.Clean ↔ P w)) ∧
    ∀ m, c = .insertPolicy m ∨ c = .validateRequest m → (w.owned = true ↔ P w)

abbrev listener (pre : Call → Server → Prop) : Setting Server Call Reply :=
  machine.alone Machine.any pre fun _ => False

variable {pre : Call → Server → Prop}

theorem stable (A : Server → Prop) : (listener pre).Stable A :=
  Machine.stable_alone fun _ e => nomatch e

theorem tellsApart_of_ne {P : Server → Prop} {c : Call} {w : Server} (ha : c ≠ .netAccept)
    (hm : ∀ m, c ≠ .insertPolicy m ∧ c ≠ .validateRequest m) : TellsApart P c w := by
  refine ⟨fun h => absurd h ha, ?_⟩
  intro m h
  rcases h with h | h
  · exact absurd h (hm m).1
  · exact absurd h (hm m).2

theorem AtAccept.accepted {w w' : Server} {r : Reply} (hw : w.AtAccept) (h0 : r.ret = 0)
    (hr : respond w () .netAccept r = some w') : w'.Accepted := by
  rw [respond, if_pos h0, Option.some.injEq] at hr
  rcases hw with ⟨⟨_, hpeer, hover⟩, hok⟩ | ⟨hover, ⟨p, hp, hlt⟩, hstale⟩
  · rw [← hr]
    exact Or.inl ⟨hover, hok, w.next, rfl, Nat.lt_succ_self _, Or.inl hpeer⟩
  · rw [← hr]
    refine Or.inr ⟨⟨hover, p, w.next, hp, rfl, Nat.lt_succ_of_lt hlt, ?_⟩, hstale⟩
    refine iff_of_false (by omega) ?_
    simp [hstale]

/-- The handshake of a reset session is the new connection's; one that is over does nothing. -/
theorem Accepted.handshake {w w' : Server} {r : Reply} (hw : w.Accepted)
    (hr : respond w () (.sslHandshake .server) r = some w') :
    if r.ret = 0 then w'.InSession else w'.Accepted := by
  rcases hw with ⟨hover, hok, k, hk, hlt, hpeer⟩ | ⟨hin, hstale⟩
  · simp only [respond, hover, Bool.false_eq_true, if_false, Option.some.injEq] at hr
    have hor : w.peer.or w.client = some k := by
      rcases hpeer with hp | hp <;> simp [hp, hk]
    by_cases h0 : r.ret = 0
    · rw [if_pos h0, ← hr]
      exact ⟨by simp [h0], k, k, hor, hk, hlt, iff_of_true rfl hok⟩
    · rw [if_neg h0, ← hr]
      exact Or.inl ⟨by simp [h0], hok, k, hk, hlt, Or.inr hor⟩
  · simp only [respond, hin.1, if_true] at hr
    by_cases h0 : r.ret = 0
    · rw [if_pos h0, Option.some.injEq] at hr
      rw [if_pos h0, ← hr]
      exact hin
    · rw [if_neg h0] at hr
      cases hr

/-- `F` stands for what accepting and shaking hands have nothing to do with. -/
theorem triple_acceptClient {A F : Server → Prop}
    (hA : ∀ w, A w → w.AtAccept ∧ F w ∧ pre .netAccept w)
    (hF : ∀ w n c p o, F w → F { w with next := n, client := c, peer := p, finished := o })
    (hshake : ∀ w, pre (.sslHandshake .server) w) :
    (listener pre).Triple A TLSServer.acceptClient
      (fun b w => b = true → w.InSession ∧ F w) := by
  have hkeep : ∀ {c : Call} {w w' : Server} {r : Reply},
      c = .netAccept ∨ c = .sslHandshake .server → F w → respond w () c r = some w' → F w' := by
    intro c w w' r hc hw hr
    rcases hc with rfl | rfl
    · simp only [respond] at hr
      split at hr <;> cases hr <;> exact hF w _ _ _ _ hw
    · simp only [respond] at hr
      split at hr
      · split at hr <;> cases hr
        exact hw
      · cases hr
        exact hF w _ _ _ _ hw
  apply TLSServer.triple_acceptClient (H := fun w => w.Accepted ∧ F w) (stable _) (stable _)
    (fun _ => stable _)
  · exact fun w hw => (hA w hw).2.2
  · exact fun w _ => hshake w
  · intro w r w' hw hr
    obtain ⟨hat, hf, _⟩ := hA w hw
    by_cases h0 : r.ret = 0
    · rw [if_pos h0]
      exact ⟨hat.accepted h0 hr.1, hkeep (Or.inl rfl) hf hr.1⟩
    · rw [if_neg h0]
      exact nofun
  · intro w r w' hw hr hretry
    have hafter := hw.1.handshake hr.1
    -- A retry code is not 0, so the handshake is still to be finished.
    rw [if_neg (by have := wantsRetry_neg hretry; omega)] at hafter
    exact ⟨hafter, hkeep (Or.inr rfl) hw.2 hr.1⟩
  · intro w r w' hw hr _ hret
    have hafter := hw.1.handshake hr.1
    rw [if_pos (of_decide_eq_true hret)] at hafter
    exact ⟨hafter, hkeep (Or.inr rfl) hw.2 hr.1⟩

theorem received_fst (msg : Str) (r : Reply) :
    (received true true msg r).1 = !readFails r := by
  by_cases ht : r.ret = errSslTimeout
  · simp [received, readFails, ht]
  · by_cases hf : r.ret ≤ 0 ∧ r.ret ≠ errSslPeerCloseNotify
    · simp [received, readFails, ht, hf]
    · rw [received, if_neg ht, if_neg hf]
      simp only [readFails, ne_eq]
      have hn : ¬ (r.ret ≤ 0 ∧ ¬ r.ret = errSslTimeout ∧ ¬ r.ret = errSslPeerCloseNotify) :=
        fun h => hf ⟨h.1, h.2.2⟩
      rw [decide_eq_false hn]
      rfl

/-- After a read the session belongs to the connection unless an earlier read had failed. -/
theorem InSession.read {w w' : Server} {len : Nat} {r : Reply} (hw : w.InSession)
    (hr : respond w () (.sslRead .server len) r = some w') (hretry : wantsRetry r = false) :
    r.bytes.length ≤ len ∧ w'.finished = true ∧ w'.peer = w.peer ∧ w'.client = w.client ∧
      w'.next = w.next ∧ w'.fatal = (w.fatal || readFails r) ∧
      w'.stale = (w.stale || readFails r) ∧ (w'.owned = true ↔ w.stale = false) := by
  obtain ⟨hover, p, k, hp, hk, _, hiff⟩ := hw
  simp only [respond, hretry, Bool.false_eq_true, if_false] at hr
  split at hr
  · rename_i hlen
    cases hr
    refine ⟨hlen, hover, rfl, rfl, rfl, rfl, rfl, ?_⟩
    simp [hover, hp, hk, ← hiff]
  · cases hr

theorem triple_resetClient {P : Server → Prop}
    (hP : ∀ w, P w → P { w with client := none, peer := none, finished := false, stale := false })
    (hfree : ∀ w, pre .netFree w) (hreset : ∀ w, pre .sslSessionReset w) :
    (listener pre).Triple P TLSServer.resetClient
      (fun _ w => P w ∧ w.Clean ∧ w.stale = false) := by
  refine Setting.triple_bind (triple_void (B := fun w' => ∃ w, P w ∧ w' = { w with client := none })
    (stable _) (stable _) (fun w _ => hfree w) ?_) fun _ => ?_
  · intro w r w' hw hr
    cases hr.1
    exact ⟨w, hw, rfl⟩
  · apply triple_void (stable _) (stable _) (fun w _ => hreset w)
    intro v r w' hv hr
    obtain ⟨w, hw, rfl⟩ := hv
    cases hr.1
    exact ⟨hP w hw, ⟨rfl, rfl, rfl⟩, rfl⟩

theorem respond_read_retry {w w' : Server} {len : Nat} {r : Reply}
    (hr : respond w () (.sslRead .server len) r = some w') (hretry : wantsRetry r = true) :
    w' = w := by
  simp only [respond, hretry, if_true] at hr
  split at hr
  · exact (Option.some.inj hr).symm
  · cases hr

section PolicyListener

abbrev Always : Call → Server → Prop := TellsApart fun _ => True

theorem triple_policy_recvMsg {msg : Str} :
    (listener Always).Triple (fun w => w.InSession ∧ w.stale = false) (TLSServer.recvMsg msg)
      (fun _ w => w.owned = true) := by
  apply triple_sslRecvMsg (stable _) (fun _ => stable _)
  · exact fun w _ => tellsApart_of_ne (P := fun _ => True) nofun fun _ => ⟨nofun, nofun⟩
  · intro w r w' hw hr hretry
    rw [respond_read_retry hr.1 hretry]
    exact hw
  · intro w r w' hw hr hretry
    obtain ⟨hlen, _, _, _, _, _, _, howned⟩ := hw.1.read hr.1 hretry
    exact ⟨hlen, howned.mpr hw.2⟩

theorem triple_policy_runListener :
    (listener Always).Triple (fun w => w.Clean ∧ w.stale = false) PolicyListener.runListener
      (fun _ _ => False) := by
  have hother : ∀ {c : Call} {w : Server}, c ≠ .netAccept →
      (∀ m, c ≠ .insertPolicy m ∧ c ≠ .validateRequest m) → Always c w := tellsApart_of_ne
  have hreset : ∀ {P : Server → Prop},
      (∀ w, P w → P { w with client := none, peer := none, finished := false, stale := false }) →
      (listener Always).Triple P TLSServer.resetClient
        (fun _ w => P w ∧ w.Clean ∧ w.stale = false) := fun hP =>
    triple_resetClient hP (fun _ => hother nofun fun _ => ⟨nofun, nofun⟩)
      fun _ => hother nofun fun _ => ⟨nofun, nofun⟩
  apply PolicyListener.triple_runListener (stable _)
    (B := fun b w => b = true → w.InSession ∧ w.stale = false) (Q := fun _ w => w.owned = true)
    (R := fun _ w => w.owned = true ∧ w.Clean ∧ w.stale = false)
  · refine triple_acceptClient (F := fun w => w.stale = false) ?_ (fun _ _ _ _ _ hw => hw)
      fun _ => hother nofun fun _ => ⟨nofun, nofun⟩
    exact fun w hw => ⟨Or.inl hw, hw.2, fun _ => iff_of_true hw.1 trivial, nofun⟩
  · exact (hreset (P := fun _ => True) fun _ _ => trivial).conseq (fun _ _ => trivial)
      fun _ _ hw => hw.2
  · exact triple_policy_recvMsg.pre fun w hw => hw rfl
  · exact fun _ => hreset fun _ hw => hw
  · intro policy
    apply triple_void (stable _) (stable _)
    · exact fun w hw => ⟨nofun, fun _ _ => iff_of_true hw.1 trivial⟩
    · intro w r w' hw hr
      cases hr.1
      exact hw.2

end PolicyListener

section RequestListener

/-- Connections are told apart until a read fails. -/
abbrev UntilFailure : Call → Server → Prop := TellsApart fun w => w.fatal = false

/-- Without a reset the two flags are one. -/
def NeverReset (w : Server) : Prop := w.fatal = w.stale

theorem AtAccept.untilFailure {w : Server} (hw : w.AtAccept) (hn : w.NeverReset) :
    UntilFailure .netAccept w := by
  refine ⟨fun _ => ?_, nofun⟩
  beta_reduce
  rw [show w.fatal = w.stale from hn]
  rcases hw with ⟨hclean, hok⟩ | ⟨hover, _, hstale⟩
  · exact iff_of_true hclean hok
  · refine iff_of_false ?_ (by simp [hstale])
    intro hclean
    rw [hclean.2.2] at hover
    cases hover

theorem triple_request_acceptClient :
    (listener UntilFailure).Triple (fun w => w.AtAccept ∧ w.NeverReset) TLSServer.acceptClient
      (fun b w => b = true → w.InSession ∧ w.NeverReset) :=
  triple_acceptClient (fun _ hw => ⟨hw.1, hw.2, hw.1.untilFailure hw.2⟩)
    (fun _ _ _ _ _ hw => hw) fun _ => tellsApart_of_ne nofun fun _ => ⟨nofun, nofun⟩

/-- Where a request has been received. -/
def Requested (w : Server) : Prop :=
  w.InSession ∧ w.NeverReset ∧ (w.owned = true ↔ w.fatal = false)

theorem triple_request_recvMsg {msg : Str} :
    (listener UntilFailure).Triple (fun w => w.InSession ∧ w.NeverReset) (TLSServer.recvMsg msg)
      (fun b w => if b.1 = true then w.Requested else w.AtAccept ∧ w.NeverReset) := by
  apply triple_sslRecvMsg (stable _) (fun _ => stable _)
  · exact fun w _ => tellsApart_of_ne (P := fun w => w.fatal = false) nofun fun _ => ⟨nofun, nofun⟩
  · intro w r w' hw hr hretry
    rw [respond_read_retry hr.1 hretry]
    exact hw
  · intro w r w' hw hr hretry
    obtain ⟨hin, hn⟩ := hw
    obtain ⟨hlen, hover, hpeer, hclient, hnext, hfatal, hstale, howned⟩ := hin.read hr.1 hretry
    obtain ⟨_, p, k, hp, hk, hlt, hiff⟩ := hin
    have hn' : w'.NeverReset := by
      rw [NeverReset, hfatal, hstale, show w.fatal = w.stale from hn]
    refine ⟨hlen, ?_⟩
    rw [received_fst]
    cases hfails : readFails r with
    | true =>
      simp only [Bool.not_true, Bool.false_eq_true, if_false]
      exact ⟨Or.inr ⟨hover, ⟨p, hpeer.trans hp, hnext ▸ hlt⟩, by simp [hstale, hfails]⟩, hn'⟩
    | false =>
      simp only [Bool.not_false, if_true]
      rw [hfails, Bool.or_false] at hfatal hstale
      refine ⟨⟨hover, p, k, hpeer.trans hp, hclient.trans hk, hnext ▸ hlt, ?_⟩, hn', ?_⟩
      · rw [hstale]
        exact hiff
      · rw [howned, hfatal, show w.fatal = w.stale from hn]

theorem triple_request_runListener :
    (listener UntilFailure).Triple (fun w => w.Clean ∧ w.stale = false ∧ w.fatal = false)
      RequestListener.runListener (fun _ _ => True) := by
  have hother : ∀ {c : Call} {w : Server}, c ≠ .netAccept →
      (∀ m, c ≠ .insertPolicy m ∧ c ≠ .validateRequest m) → UntilFailure c w := tellsApart_of_ne
  refine ((RequestListener.triple_runListener (V := fun _ => Requested) (fun _ => stable _)
    triple_request_acceptClient (triple_request_recvMsg.pre fun w hw => hw rfl) ?_ ?_ ?_ ?_).pre
    fun w hw => ⟨Or.inl ⟨hw.1, hw.2.1⟩, hw.2.2.trans hw.2.1.symm⟩).post fun _ _ _ => trivial
  · exact fun req w hw => by simpa using hw
  · intro w hw _
    simp only [if_true] at hw
    exact ⟨hw.1, hw.2.1⟩
  · intro req _
    apply triple_int (stable _) (fun _ => stable _)
    · intro w hw
      simp only [if_true] at hw
      exact ⟨nofun, fun _ _ => hw.2.2⟩
    · intro w r w' hw hr
      cases hr.1
      simpa using hw
  · intro vRet
    apply triple_sslSendMsg (stable _) (fun _ => stable _)
    · exact fun w _ => hother nofun fun _ => ⟨nofun, nofun⟩
    · intro w r w' hw hr _
      cases hr.1
      exact hw
    · intro w r w' hw hr _ _
      cases hr.1
      exact ⟨hw.1, hw.2.1⟩

end RequestListener

/-- At `acceptClient` all is reset, and what is handed on was read from its own client. -/
def Kept (c : Call) (w : Server) : Prop :=
  (c = .netAccept → w.Clean) ∧
    ∀ m, c = .insertPolicy m ∨ c = .validateRequest m → w.owned = true

/-- The calls at which there is something to keep. -/
def Checked (c : Call) : Prop :=
  c = .netAccept ∨ ∃ m, c = .insertPolicy m ∨ c = .validateRequest m

theorem TellsApart.kept {P : Server → Prop} {c : Call} {w : Server} (h : TellsApart P c w)
    (hw : P w) : Kept c w :=
  ⟨fun hc => (h.1 hc).mpr hw, fun m hc => (h.2 m hc).mpr hw⟩

theorem TellsApart.kept_iff {P : Server → Prop} {c : Call} {w : Server} (h : TellsApart P c w)
    (hc : Checked c) : Kept c w ↔ P w := by
  refine ⟨?_, h.kept⟩
  intro hkept
  rcases hc with hc | ⟨m, hc⟩
  · exact (h.1 hc).mp (hkept.1 hc)
  · exact (h.2 m hc).mp (hkept.2 m hc)

end Server

open Server

inductive Listener where
  | policy
  | request

namespace Listener

def runListener : Listener → Prog Bool
  | .policy => PolicyListener.runListener
  | .request => RequestListener.runListener

/-- What keeps the connections of a listener apart. -/
def Apart : Listener → Server → Prop
  | .policy, _ => True
  | .request, w => w.fatal = false

theorem triple_runListener (listener : Listener) :
    (Server.listener (TellsApart listener.Apart)).Triple
      (fun w => w.Clean ∧ w.stale = false ∧ w.fatal = false) listener.runListener
      (fun _ _ => True) := by
  cases listener with
  | policy =>
    apply triple_policy_runListener.conseq
    · exact fun w hw => ⟨hw.1, hw.2.1⟩
    · exact fun _ _ _ => trivial
  | request => exact triple_request_runListener

end Listener

/-- The policy listener never mixes two connections up; the request listener does so
exactly from its first failed read on. -/
theorem identity_kept (listener : Listener) {t : Config Server Unit Call Reply Bool} {c : Call}
    (ht : machine.Reaches Machine.any (solo listener.runListener {}) t)
    (hc : (t.code ()).pending = .calling c) :
    (listener.Apart t.world → Kept c t.world) ∧
      (Checked c → (Kept c t.world ↔ listener.Apart t.world)) := by
  have hapart : TellsApart listener.Apart c t.world :=
    (ht.alone listener.triple_runListener ⟨⟨rfl, rfl, rfl⟩, rfl, rfl⟩).pre hc
  exact ⟨hapart.kept, hapart.kept_iff⟩

theorem identity_kept_first :
    ∃ t : Config Server Unit Call Reply Bool,
      machine.Reaches Machine.any (solo RequestListener.runListener {}) t ∧
      (t.code ()).pending = .calling (.validateRequest [65]) ∧
      Kept (.validateRequest [65]) t.world := by
  have hrun : machine.observe Server.fatal (solo RequestListener.runListener {})
      [.reply () ⟨0, []⟩, .reply () ⟨0, []⟩, .reply () ⟨1, [65]⟩] () =
      some (.calling (.validateRequest [65]), false) := by decide +kernel
  obtain ⟨t, ht, hp, hfatal⟩ := Machine.reaches_of_observe hrun
  exact ⟨t, ht, hp, (identity_kept .request ht hp).1 hfatal⟩

/-- The first client's connection breaks; what is then read goes for the second's. -/
theorem identity_lost :
    ¬ ∀ (t : Config Server Unit Call Reply Bool) (c : Call),
      machine.Reaches Machine.any (solo RequestListener.runListener {}) t →
        (t.code ()).pending = .calling c → Kept c t.world := by
  intro hall
  have hrun : machine.observe id (solo RequestListener.runListener {})
      [.reply () ⟨0, []⟩, .reply () ⟨0, []⟩, .reply () ⟨-0x50, []⟩, .reply () ⟨0, []⟩,
        .reply () ⟨0, []⟩, .reply () ⟨1, [65]⟩] () =
      some (.calling (.validateRequest [65]), ⟨2, some 1, some 0, true, true, true, false⟩) := by
    decide +kernel
  obtain ⟨t, ht, hp, hw⟩ := Machine.reaches_of_observe hrun
  have howned := (hall t _ ht hp).2 [65] (Or.inr rfl)
  rw [show t.world = _ from hw] at howned
  cases howned

end SGXess.Controller
