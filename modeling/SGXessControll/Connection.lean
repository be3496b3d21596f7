import SGXessControll.Handoff
import SGXessControll.Calls.Runs

/-!
# The connection of a manager

The Deployer's and the Proxy's manager send over the session of a TLS client. What is known
of that session are the answers of mbedTLS; `mbedtls_exit` is never answered, because the
process is gone.
-/

namespace SGXess

set_option autoImplicit false

open Calls Queue

/-- A `TLSClient` object since its last `init`. -/
structure Session where
  live : Bool := false
  /-- No step of `connect` has failed. -/
  ok : Bool := true
  handshake : Option Int := none
  flags : Option Int := none
  deriving DecidableEq

namespace Session

def update (s : Session) (c : Call) (r : Reply) : Session :=
  match c with
  | .clientInit => { live := true }
  | .clientFree => { s with live := false }
  | .ctrDrbgSeed | .netConnect _ _ _ | .sslConfigDefaults _ | .sslSetup | .sslSetHostname _ =>
    { s with ok := s.ok && r.ret == 0 }
  | .x509CrtParseFile _ => { s with ok := s.ok && decide (0 ≤ r.ret) }
  | .sslHandshake .client =>
    if wantsRetry r = true then s
    else { s with handshake := some r.ret, ok := s.ok && r.ret == 0 }
  | .sslGetVerifyResult => { s with flags := some r.ret, ok := s.ok && r.ret == 0 }
  | _ => s

/-- The handshake was completed and the certificate accepted. -/
def Verified (s : Session) : Prop := s.live = true ∧ s.handshake = some 0 ∧ s.flags = some 0

/-- The handshake was completed but the certificate was not accepted. -/
def Refused (s : Session) : Prop := s.handshake = some 0 ∧ ∃ f, s.flags = some f ∧ f ≠ 0

def Fresh (s : Session) : Prop := s.live = true ∧ s.ok = true ∧ s.flags = none

/-- A step in front of the verification has failed. -/
def Broken (s : Session) : Prop := s.ok = false ∧ s.flags = none

theorem Fresh.not_broken {s : Session} (hs : s.Fresh) : ¬ s.Broken := by
  intro hb
  exact absurd (hb.1.symm.trans hs.2.1) (by decide)

theorem Verified.not_broken {s : Session} (hs : s.Verified) : ¬ s.Broken := by
  intro hb
  have hflags := hb.2.symm.trans hs.2.2
  cases hflags

theorem Refused.not_broken {s : Session} (hs : s.Refused) : ¬ s.Broken := by
  intro hb
  obtain ⟨_, f, hf, _⟩ := hs
  have hflags := hb.2.symm.trans hf
  cases hflags

/-- What the result of `connect` says about the session. -/
inductive Connected (unverified : Int → Int) : Bool → Session → Prop where
  | verified {s : Session} : s.Verified → s.ok = true → Connected unverified true s
  | broken {s : Session} : s.Broken → Connected unverified false s
  | refused {s : Session} : s.Refused → s.ok = false → Connected unverified (unverified 0 == 0) s

/-- Where a refused certificate does not set the result, it tells of the other steps only. -/
theorem Connected.broken_iff {b : Bool} {s : Session} (hs : Connected (fun ret => ret) b s) :
    s.Broken ↔ b = false := by
  cases hs with
  | verified hs _ => exact iff_of_false hs.not_broken (by decide)
  | broken hs => exact iff_of_true hs rfl
  | refused hs _ => exact iff_of_false hs.not_broken (by decide)

end Session

/-- The world of a manager that forwards what it pops. -/
structure Desk where
  queue : Fifo Str := Fifo.empty
  session : Session := {}
  /-- The messages whose write succeeded, how many writes failed, and if the last did. -/
  sent : List Str := []
  failed : Nat := 0
  resending : Bool := false

namespace Desk

def respond (h : Handoff) (w : Desk) (_ : Unit) (c : Call) (r : Reply) : Option Desk :=
  match c with
  | .popPolicy | .popClient =>
    if r.bytes = h.front w.queue then some { w with queue := h.take w.queue } else none
  | .sslWrite .client buf =>
    if wantsRetry r = true then some w
    else if r.ret < 0 then some { w with failed := w.failed + 1, resending := true }
    else some { w with sent := w.sent ++ [buf], resending := false }
  | .sslRead .client len => if r.bytes.length ≤ len then some w else none
  | .exit _ => none
  | c => some { w with session := w.session.update c r }

def insert (h : Handoff) (w : Desk) (x : Str) : Option Desk :=
  some { w with queue := h.push w.queue x }

def machine (h : Handoff) : Machine Desk Unit Call Reply Str := ⟨respond h, insert h⟩

section Connect

variable {h : Handoff} {ok : Desk → Unit → Call → Reply → Prop} {pre : Call → Desk → Prop}
variable {fault : Desk → Prop} {Q : Desk → Prop}

theorem stable_insert {A : Desk → Prop} (hA : ∀ w x, A w → A { w with queue := h.push w.queue x }) :
    ((machine h).alone ok pre fault).Stable A := by
  apply Machine.stable_alone
  intro w x w' hw hm
  cases hm
  exact hA w x hw

theorem respond_pop {w w' : Desk} {pop : Call} {r : Reply} (hpop : Bench.isPop pop = true)
    (hr : (machine h).respond w () pop r = some w') :
    r.bytes = h.front w.queue ∧ w' = { w with queue := h.take w.queue } := by
  cases pop <;> try cases hpop
  all_goals
    simp only [machine, respond] at hr
    split at hr
    · rename_i hfront
      cases hr
      exact ⟨hfront, rfl⟩
    · cases hr

theorem respond_ofConnect {w w' : Desk} {c : Call} {r : Reply}
    (hc : TLSClient.ofConnect c = true) (hr : (machine h).respond w () c r = some w') :
    w' = { w with session := w.session.update c r } := by
  cases c with
  | sslHandshake side =>
    cases hr
    rfl
  | _ => first
    | (cases hr; rfl)
    | cases hc

/-- Calls other than the steps of `connect` and `destroy` leave the session as it is. -/
theorem respond_session {w w' : Desk} {c : Call} {r : Reply}
    (hc : TLSClient.ofConnect c = false) (hr : (machine h).respond w () c r = some w') :
    w'.session = w.session := by
  simp only [machine, respond] at hr
  split at hr
  · split at hr
    · cases hr; rfl
    · cases hr
  · split at hr
    · cases hr; rfl
    · cases hr
  · split at hr
    · cases hr; rfl
    · split at hr
      · cases hr; rfl
      · cases hr; rfl
  · split at hr
    · cases hr; rfl
    · cases hr
  · cases hr
  · cases hr
    cases c with
    | sslHandshake side =>
      cases side with
      | client => cases hc
      | server => rfl
    | _ => first
      | rfl
      | cases hc

/-- The answer lets `connect` or `sendMsg` go on. -/
def Succeeds (c : Call) (r : Reply) : Prop :=
  match c with
  | .ctrDrbgSeed | .netConnect _ _ _ | .sslConfigDefaults _ | .sslSetup | .sslSetHostname _
  | .sslGetVerifyResult => r.ret = 0
  | .x509CrtParseFile _ => 0 ≤ r.ret
  | .sslHandshake .client => wantsRetry r = true ∨ r.ret = 0
  | .sslWrite .client _ => wantsRetry r = true ∨ 0 ≤ r.ret
  | _ => True

theorem succeeds_zero (c : Call) : Succeeds c ⟨0, []⟩ := by
  cases c with
  | sslHandshake side =>
    cases side with
    | client => exact Or.inr rfl
    | server => trivial
  | sslWrite side buf =>
    cases side with
    | client => exact Or.inr (Int.le_refl 0)
    | server => trivial
  | x509CrtParseFile path => exact Int.le_refl 0
  | _ => first
    | rfl
    | trivial

theorem update_ok {s : Session} {c : Call} {r : Reply} (hs : s.ok = true)
    (hr : TLSClient.ofConnect c = true → Succeeds c r) : (s.update c r).ok = true := by
  cases c with
  | sslHandshake side =>
    cases side with
    | server => exact hs
    | client =>
      have hret : wantsRetry r = true ∨ r.ret = 0 := hr rfl
      by_cases hretry : wantsRetry r = true
      · simp [Session.update, hretry, hs]
      · simp [Session.update, hretry, hs, hret.resolve_left hretry]
  | clientInit => rfl
  | ctrDrbgSeed | netConnect | sslConfigDefaults | sslSetup | sslSetHostname
  | sslGetVerifyResult =>
    have hret : r.ret = 0 := hr rfl
    simp [Session.update, hs, hret]
  | x509CrtParseFile path =>
    have hret : 0 ≤ r.ret := hr rfl
    simp [Session.update, hs, hret]
  | _ => exact hs

theorem respond_ok {w w' : Desk} {c : Call} {r : Reply} (hw : w.session.ok = true)
    (hok : TLSClient.ofConnect c = true → Succeeds c r)
    (hr : (machine h).respond w () c r = some w') : w'.session.ok = true := by
  cases hc : TLSClient.ofConnect c with
  | true =>
    rw [respond_ofConnect hc hr]
    exact update_ok hw hok
  | false =>
    rw [respond_session hc hr]
    exact hw

/-- An assertion on the session beside one that does not look at it. -/
def Beside (Q : Desk → Prop) (P : Session → Prop) (w : Desk) : Prop := Q w ∧ P w.session

-- Behind a failed step `connect` only frees the session.
variable (hpre : ∀ c w, TLSClient.ofConnect c = true → (w.session.Broken → c = .clientFree) →
  Q w → pre c w)
variable (hsession : ∀ w s, Q w → Q { w with session := s })
variable (hinsert : ∀ w x, Q w → Q { w with queue := h.push w.queue x })

include hinsert in
theorem beside_stable (P : Session → Prop) :
    ((machine h).alone ok pre fault).Stable (Beside Q P) :=
  stable_insert fun w x hw => ⟨hinsert w x hw.1, hw.2⟩

include hpre hsession hinsert

theorem triple_step {P : Session → Prop} {B : Int → Session → Prop} {c : Call}
    (hc : TLSClient.ofConnect c = true) (hP : ∀ s, P s → ¬ s.Broken)
    (hB : ∀ s r, P s → B r.ret (s.update c r)) :
    ((machine h).alone ok pre fault).Triple (Beside Q P) (int c) (fun n => Beside Q (B n)) := by
  have stable : ∀ P, ((machine h).alone ok pre fault).Stable (Beside Q P) :=
    beside_stable hinsert
  apply triple_int (stable P) (fun n => stable (B n))
  · intro w hw
    exact hpre c w hc (fun hb => absurd hb (hP w.session hw.2)) hw.1
  · intro w r w' hw hr
    rw [respond_ofConnect hc hr.1]
    exact ⟨hsession w _ hw.1, hB w.session r hw.2⟩

omit hpre hsession in
theorem triple_done {P : Session → Prop} {α : Type} {a : α} {B : α → Session → Prop}
    (hB : ∀ s, P s → B a s) :
    ((machine h).alone ok pre fault).Triple (Beside Q P) (.ret a) (fun a => Beside Q (B a)) :=
  Setting.triple_ret (beside_stable hinsert P) fun w hw => ⟨hw.1, hB w.session hw.2⟩

theorem triple_check {c : Call} {α : Type} {a : Int → α} {m : Prog α} {B : α → Session → Prop}
    (hc : TLSClient.ofConnect c = true)
    (hstep : ∀ (s : Session) (r : Reply), s.update c r = { s with ok := s.ok && r.ret == 0 })
    (hfail : ∀ (n : Int) (s : Session), n ≠ 0 → s.Broken → B (a n) s)
    (hm : ((machine h).alone ok pre fault).Triple (Beside Q Session.Fresh) m
      (fun a => Beside Q (B a))) :
    ((machine h).alone ok pre fault).Triple (Beside Q Session.Fresh)
      ((int c).bind fun n => if n ≠ 0 then .ret (a n) else m) (fun a => Beside Q (B a)) := by
  refine Setting.triple_bind (triple_step hpre hsession hinsert hc
    (fun _ => Session.Fresh.not_broken)
    (B := fun n s => if n = 0 then s.Fresh else s.Broken) ?_) fun n => ?_
  · intro s r hs
    obtain ⟨hlive, hok, hflags⟩ := hs
    rw [hstep]
    by_cases hr : r.ret = 0
    · rw [if_pos hr]
      exact ⟨hlive, by simp [hok, hr], hflags⟩
    · rw [if_neg hr]
      exact ⟨by simp [hr], hflags⟩
  · by_cases hn : n = 0
    · simpa only [hn, ne_eq, not_true_eq_false, if_false, if_true] using hm
    · simp only [hn, ne_eq, not_false_eq_true, if_true, if_false]
      exact triple_done hinsert fun s hs => hfail n s hn hs

theorem triple_loadCertificate :
    ((machine h).alone ok pre fault).Triple (Beside Q Session.Fresh) TLSClient.loadCertificate
      (fun b => Beside Q fun s => if b = true then s.Fresh else s.Broken) := by
  refine Setting.triple_bind (triple_step hpre hsession hinsert rfl
    (fun _ => Session.Fresh.not_broken)
    (B := fun n s => if n < 0 then s.Broken else s.Fresh) ?_) fun n => ?_
  · intro s r hs
    obtain ⟨hlive, hok, hflags⟩ := hs
    by_cases hr : r.ret < 0
    · rw [if_pos hr]
      exact ⟨by simp [Session.update, hr], hflags⟩
    · rw [if_neg hr]
      exact ⟨hlive, by simpa [Session.update, hok] using hr, hflags⟩
  · by_cases hn : n < 0
    · simp only [hn, if_true]
      exact triple_done hinsert fun s hs => by simpa using hs
    · simp only [hn, if_false]
      exact triple_done hinsert fun s hs => by simpa using hs

theorem triple_setSSLConfig {proto : NetProto} {IP : Str} :
    ((machine h).alone ok pre fault).Triple (Beside Q Session.Fresh)
      (TLSClient.setSSLConfig proto IP)
      (fun b => Beside Q fun s => if b = true then s.Fresh else s.Broken) := by
  have hfail : ∀ (n : Int) (s : Session), n ≠ 0 → s.Broken →
      if false = true then s.Fresh else s.Broken := by
    intro n s _ hs
    simpa using hs
  refine triple_check hpre hsession hinsert (a := fun _ => false) rfl (fun _ _ => rfl) hfail ?_
  refine triple_check hpre hsession hinsert (a := fun _ => false) rfl (fun _ _ => rfl) hfail ?_
  refine triple_check hpre hsession hinsert (a := fun _ => false) rfl (fun _ _ => rfl) hfail ?_
  exact triple_done hinsert fun s hs => by simpa using hs

theorem triple_handshake :
    ((machine h).alone ok pre fault).Triple (Beside Q Session.Fresh)
      (retrying (.sslHandshake .client))
      (fun r => Beside Q fun s =>
        if r.ret = 0 then s.Fresh ∧ s.handshake = some 0 else s.Broken) := by
  have stable : ∀ P, ((machine h).alone ok pre fault).Stable (Beside Q P) :=
    beside_stable hinsert
  refine triple_retrying (stable _) (fun _ => stable _)
    (fun w hw => hpre _ w rfl (fun hb => absurd hb hw.2.not_broken) hw.1) ?_ ?_
  · intro w r w' hw hr hretry
    obtain ⟨hr, _⟩ := hr
    simp only [machine, respond, Session.update, hretry, if_true, Option.some.injEq] at hr
    rw [← hr]
    exact hw
  · intro w r w' hw hr hretry
    obtain ⟨hQ, hlive, hok, hflags⟩ := hw
    obtain ⟨hr, _⟩ := hr
    simp only [machine, respond, Session.update, hretry, Bool.false_eq_true, if_false,
      Option.some.injEq] at hr
    rw [← hr]
    refine ⟨hsession _ _ hQ, ?_⟩
    beta_reduce
    by_cases hret : r.ret = 0
    · rw [if_pos hret]
      exact ⟨⟨hlive, by simp [hok, hret], hflags⟩, by simp [hret]⟩
    · rw [if_neg hret]
      exact ⟨by simp [hret], hflags⟩

theorem triple_verifyCertificate :
    ((machine h).alone ok pre fault).Triple
      (Beside Q fun s => s.Fresh ∧ s.handshake = some 0) TLSClient.verifyCertificate
      (fun b => Beside Q fun s =>
        if b = true then s.Verified ∧ s.ok = true else s.Refused ∧ s.ok = false) := by
  refine Setting.triple_bind (triple_step hpre hsession hinsert rfl
    (fun _ hs => hs.1.not_broken) (B := fun n s =>
      if n = 0 then s.Verified ∧ s.ok = true else s.Refused ∧ s.ok = false) ?_) fun n => ?_
  · intro s r hs
    obtain ⟨⟨hlive, hok, _⟩, hshake⟩ := hs
    by_cases hr : r.ret = 0
    · rw [if_pos hr]
      exact ⟨⟨hlive, hshake, by simp [Session.update, hr]⟩, by simp [Session.update, hok, hr]⟩
    · rw [if_neg hr]
      exact ⟨⟨hshake, r.ret, rfl, hr⟩, by simp [Session.update, hr]⟩
  · by_cases hn : n = 0
    · simp only [hn, ne_eq, not_true_eq_false, if_false, if_true]
      exact triple_done hinsert fun s hs => by simpa using hs
    · simp only [hn, ne_eq, not_false_eq_true, if_true, if_false]
      exact triple_done hinsert fun s hs => by simpa using hs

theorem triple_connectSteps {proto : NetProto} {unverified : Int → Int} {IP port : Str} :
    ((machine h).alone ok pre fault).Triple (Beside Q Session.Fresh)
      (TLSClient.connectSteps proto unverified IP port)
      (fun n => Beside Q (Session.Connected unverified (n == 0))) := by
  have hfail : ∀ (n : Int) (s : Session), n ≠ 0 → s.Broken →
      Session.Connected unverified (n == 0) s := by
    intro n s hn hs
    rw [beq_eq_false_iff_ne.mpr hn]
    exact .broken hs
  refine triple_check hpre hsession hinsert (a := fun n => n) rfl (fun _ _ => rfl) hfail ?_
  refine Setting.triple_bind (triple_loadCertificate hpre hsession hinsert) fun loaded => ?_
  cases loaded with
  | false => exact triple_done hinsert fun s hs => hfail 1 s (by decide) (by simpa using hs)
  | true =>
    refine (triple_check hpre hsession hinsert (a := fun n => n) rfl (fun _ _ => rfl)
      hfail ?_).pre fun w hw => by simpa using hw
    refine Setting.triple_bind (triple_setSSLConfig hpre hsession hinsert) fun configured => ?_
    cases configured with
    | false => exact triple_done hinsert fun s hs => hfail 1 s (by decide) (by simpa using hs)
    | true =>
      refine Setting.triple_bind ((triple_handshake hpre hsession hinsert).pre
        fun w hw => by simpa using hw) fun reply => ?_
      by_cases hr : reply.ret = 0
      · simp only [hr, ne_eq, not_true_eq_false, if_true, if_false]
        refine Setting.triple_bind (triple_verifyCertificate hpre hsession hinsert)
          fun verified => ?_
        cases verified with
        | false =>
          refine triple_done hinsert fun s hs => ?_
          simp only [Bool.false_eq_true, if_false] at hs
          exact .refused hs.1 hs.2
        | true =>
          refine triple_done hinsert fun s hs => ?_
          simp only [if_true] at hs
          exact .verified hs.1 hs.2
      · simp only [hr, ne_eq, not_false_eq_true, if_true, if_false]
        exact triple_done hinsert fun s hs => hfail _ s hr hs

omit hpre hsession in
theorem triple_sessionCall {c : Call} {A : Desk → Prop} {B : Session → Prop}
    (hc : TLSClient.ofConnect c = true)
    (hA : ∀ w x, A w → A { w with queue := h.push w.queue x }) (hpre : ∀ w, A w → pre c w)
    (hB : ∀ w r, A w → Beside Q B { w with session := w.session.update c r }) :
    ((machine h).alone ok pre fault).Triple A (void c) (fun _ => Beside Q B) := by
  apply triple_void (stable_insert hA) (beside_stable hinsert B) hpre
  intro w r w' hw hr
  rw [respond_ofConnect hc hr.1]
  exact hB w r hw

theorem triple_connect {proto : NetProto} {unverified : Int → Int} {IP port : Str}
    {A : Desk → Prop} (hA : ∀ w x, A w → A { w with queue := h.push w.queue x })
    (hinit : ∀ w, A w → Q w ∧ pre .clientInit w) :
    ((machine h).alone ok pre fault).Triple A (TLSClient.connectWith proto unverified IP port)
      (fun b => Beside Q (Session.Connected unverified b)) := by
  refine Setting.triple_bind (triple_sessionCall (Q := Q) (B := Session.Fresh) hinsert rfl hA
    (fun w hw => (hinit w hw).2) fun w r hw => ⟨hsession w _ (hinit w hw).1, rfl, rfl, rfl⟩)
    fun _ => ?_
  refine Setting.triple_bind (triple_connectSteps hpre hsession hinsert) fun ret => ?_
  by_cases hret : ret = 0
  · simp only [hret, ne_eq, not_true_eq_false, if_false, beq_self_eq_true]
    exact triple_done hinsert fun s hs => hs
  · have hne : 0 ≠ ret := Ne.symm hret
    simp only [if_pos hne, beq_eq_false_iff_ne.mpr hret]
    refine Setting.triple_bind (triple_sessionCall (B := Session.Connected unverified false)
      hinsert rfl (fun w x hw => ⟨hinsert w x hw.1, hw.2⟩)
      (fun w hw => hpre _ w rfl (fun _ => rfl) hw.1) fun w r hw => ⟨hsession w _ hw.1, ?_⟩)
      fun _ => triple_done hinsert fun s hs => hs
    obtain ⟨_, hs⟩ := hw
    generalize w.session = s at hs
    generalize hb : false = b at hs
    cases hs with
    | verified _ _ => cases hb
    | broken hs => exact .broken hs
    | refused hs hok => exact .refused (s := s.update .clientFree r) hs hok

theorem triple_connect_succeeds {proto : NetProto} {unverified : Int → Int} {IP port : Str}
    (hinit : ∀ w, Q w → pre .clientInit w)
    (hok : ∀ w c r, ok w () c r → TLSClient.ofConnect c = true → Succeeds c r) :
    ((machine h).alone ok pre fault).Triple (Beside Q fun s => s.ok = true)
      (TLSClient.connectWith proto unverified IP port)
      (fun b w => b = true ∧ Beside Q (fun s => s.ok = true) w) := by
  have hconnect : ((machine h).alone ok pre fault).Triple Q
      (TLSClient.connectWith proto unverified IP port)
      (fun b => Beside Q (Session.Connected unverified b)) :=
    triple_connect hpre hsession hinsert hinsert fun w hw => ⟨hw, hinit w hw⟩
  have hstable : ((machine h).alone ok pre fault).Stable fun w => w.session.ok = true :=
    stable_insert fun _ _ hw => hw
  have hkeep := hconnect.keep hstable fun w c r w' hw _ hr =>
    respond_ok hw (hok w c r hr.2) hr.1
  refine hkeep.conseq (fun w hw => hw) fun b w hw => ?_
  obtain ⟨⟨hQ, hconn⟩, hsok⟩ := hw
  refine ⟨?_, hQ, hsok⟩
  cases hconn with
  | verified _ _ => rfl
  | broken hs => exact absurd (hs.1.symm.trans hsok) (by decide)
  | refused _ hs => exact absurd (hs.symm.trans hsok) (by decide)

omit hpre hsession in
theorem triple_terminate {Φ : Unit → Desk → Prop}
    (hfreed : ∀ w, Q w → Q { w with session := { w.session with live := false } })
    (hend : ∀ w, Q w → pre (.sslCloseNotify .client) w ∧ pre .clientFree w ∧ pre (.exit 0) w) :
    ((machine h).alone ok pre fault).Triple Q TLSClient.terminate Φ := by
  have stable : ((machine h).alone ok pre fault).Stable Q := stable_insert hinsert
  have never : ((machine h).alone ok pre fault).Stable fun _ => False := fun _ _ _ hw => hw
  have hnotify : ((machine h).alone ok pre fault).Triple Q (void (.sslCloseNotify .client))
      (fun _ => Q) := by
    apply triple_void stable stable (fun w hw => (hend w hw).1)
    intro w r w' hw hr
    obtain ⟨hr, _⟩ := hr
    cases hr
    exact hw
  have hfree : ((machine h).alone ok pre fault).Triple Q TLSClient.destroy (fun _ => Q) := by
    apply triple_void stable stable (fun w hw => (hend w hw).2.1)
    intro w r w' hw hr
    rw [respond_ofConnect rfl hr.1]
    exact hfreed w hw
  have hexit : ((machine h).alone ok pre fault).Triple Q (void (.exit 0))
      (fun _ _ => False) := by
    apply triple_void stable never (fun w hw => (hend w hw).2.2)
    intro w r w' _ hr
    cases hr.1
  exact Setting.triple_bind hnotify fun _ => Setting.triple_bind hfree fun _ =>
    hexit.post fun _ _ hw => hw.elim

end Connect

section Runs

variable {h : Handoff} {ok : Desk → Unit → Call → Reply → Prop}

theorem leads_connect {proto : NetProto} {unverified : Int → Int} {IP port : Str} (w : Desk)
    (hok : ∀ w c, TLSClient.ofConnect c = true → ok w () c ⟨0, []⟩) :
    (machine h).Leads ok (TLSClient.connectWith proto unverified IP port) w (.ret true)
      { w with session := ⟨true, true, some 0, some 0⟩ } := by
  have hstep : ∀ {c : Call} {w v : Desk}, TLSClient.ofConnect c = true →
      (machine h).respond w () c ⟨0, []⟩ = some v →
      (machine h).Leads ok (int c) w (.ret 0) v :=
    fun hc hr => leads_int hr (hok _ _ hc)
  let w0 : Desk := { w with session := { live := true } }
  have hload : (machine h).Leads ok TLSClient.loadCertificate w0 (.ret true) w0 :=
    (hstep rfl rfl).andThen (.refl _ _)
  have hconfig : (machine h).Leads ok (TLSClient.setSSLConfig proto IP) w0 (.ret true) w0 := by
    refine (hstep (v := w0) rfl rfl).andThen ?_
    refine (hstep (v := w0) rfl rfl).andThen ?_
    exact (hstep (v := w0) rfl rfl).andThen (.refl _ _)
  have hverify : (machine h).Leads ok TLSClient.verifyCertificate
      { w0 with session := ⟨true, true, some 0, none⟩ } (.ret true)
      { w0 with session := ⟨true, true, some 0, some 0⟩ } :=
    (hstep rfl rfl).andThen (.refl _ _)
  refine (leads_void (v := w0) (r := ⟨0, []⟩) rfl (hok _ _ rfl)).andThen ?_
  refine Machine.Leads.andThen (a := 0) (v := { w0 with session := ⟨true, true, some 0, some 0⟩ })
    ?_ (.refl _ _)
  refine (hstep (v := w0) rfl rfl).andThen (hload.andThen ?_)
  refine (hstep (v := w0) rfl rfl).andThen (hconfig.andThen ?_)
  refine (leads_retrying (r := ⟨0, []⟩) rfl (hok _ _ rfl) rfl).andThen ?_
  exact hverify.andThen (.refl _ _)

theorem leads_terminate (w : Desk) (hnotify : ∀ w, ok w () (.sslCloseNotify .client) ⟨0, []⟩)
    (hfree : ∀ w, ok w () .clientFree ⟨0, []⟩) :
    (machine h).Leads ok TLSClient.terminate w (void (.exit 0))
      { w with session := { w.session with live := false } } := by
  have hfreed : (machine h).Leads ok TLSClient.destroy w (.ret ())
      { w with session := { w.session with live := false } } :=
    leads_void (r := ⟨0, []⟩) rfl (hfree w)
  exact (leads_void (r := ⟨0, []⟩) rfl (hnotify w)).andThen (hfreed.andThen (.refl _ _))

end Runs

section Round

variable {h : Handoff} {ok : Desk → Unit → Call → Reply → Prop} {pre : Call → Desk → Prop}
variable {fault : Desk → Prop} {A : Desk → Prop} {B : Str → Desk → Prop}

theorem triple_pop {c : Call} (hpop : Bench.isPop c = true)
    (hA : ((machine h).alone ok pre fault).Stable A)
    (hB : ∀ x, ((machine h).alone ok pre fault).Stable (B x)) (hpre : ∀ w, A w → pre c w)
    (htake : ∀ w, A w → B (h.front w.queue) { w with queue := h.take w.queue }) :
    ((machine h).alone ok pre fault).Triple A (Code.ask c) (fun r => B r.bytes) := by
  apply Setting.triple_ask hA (fun _ => hB _) hpre
  intro w r w' hw hr
  obtain ⟨hfront, rfl⟩ := respond_pop hpop hr.1
  rw [hfront]
  exact htake w hw

theorem triple_sleep (hA : ((machine h).alone ok pre fault).Stable A)
    (hpre : ∀ w, A w → pre .sleep w) :
    ((machine h).alone ok pre fault).Triple A (void .sleep) (fun _ => A) := by
  apply triple_void hA hA hpre
  intro w r w' hw hr
  cases hr.1
  exact hw

end Round

end Desk

end SGXess
