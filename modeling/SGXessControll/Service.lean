import SGXessControll.Calls.Escape
import SGXessControll.Listeners

/-!
# The services that stay up

What happens to single clients, for all four accept loops: any call may fail in any way.
Only, a read returns no more bytes than it was given room for, and on a connection that
its peer has closed `::recv` goes on returning 0.
-/

namespace SGXess.Service

set_option autoImplicit false

open Calls

/-- What may have gone wrong so far. -/
structure Outcomes where
  /-- An accept or a handshake failed. -/
  refused : Bool := false
  /-- A piece of a framed message filled the buffer without a zero byte. -/
  full : Bool := false
  /-- Nothing has been received on the connection yet. -/
  fresh : Bool := true
  /-- A peer closed its connection where the data of a framed message was awaited. -/
  cut : Bool := false
  deriving DecidableEq

namespace Outcomes

def respond (w : Outcomes) (_ : Unit) (c : Call) (r : Reply) : Option Outcomes :=
  match c with
  | .netAccept => some { w with refused := w.refused || r.ret != 0 }
  | .sslHandshake .server =>
    if wantsRetry r = true then some w else some { w with refused := w.refused || r.ret != 0 }
  | .accept => some { w with refused := w.refused || decide (0 > r.ret), fresh := true }
  | .recv len =>
    if r.bytes.length ≤ len ∧ r.bytes.length = r.ret.toNat ∧ (w.cut = true → r.ret = 0) then
      some { w with full := w.full || decide (r.bytes.length = maxBufLen ∧ 0 ∉ r.bytes),
                    fresh := false, cut := w.cut || (!w.fresh && r.ret == 0) }
    else none
  | .sslRead .server len => if r.bytes.length ≤ len then some w else none
  | _ => some w

def machine : Machine Outcomes Unit Call Reply Empty := ⟨respond, fun _ e => nomatch e⟩

def Unharmed (w : Outcomes) : Prop := w.refused = false ∧ w.full = false ∧ w.cut = false

theorem respond_recv {w w' : Outcomes} {len : Nat} {r : Reply}
    (h : respond w () (.recv len) r = some w') :
    r.bytes.length ≤ len ∧ r.bytes.length = r.ret.toNat ∧ (w.cut = true → r.ret = 0) ∧
      w' = { w with full := w.full || decide (r.bytes.length = maxBufLen ∧ 0 ∉ r.bytes),
                    fresh := false, cut := w.cut || (!w.fresh && r.ret == 0) } := by
  simp only [respond] at h
  split at h
  · rename_i hr
    cases h
    exact ⟨hr.1, hr.2.1, hr.2.2, rfl⟩
  · cases h

/-- What has gone wrong stays so. -/
structure Worse (w w' : Outcomes) : Prop where
  refused : w'.refused = false → w.refused = false
  full : w'.full = false → w.full = false
  cut : w'.cut = false → w.cut = false

theorem Worse.unharmed {w w' : Outcomes} (h : Worse w w') (hw : w'.Unharmed) : w.Unharmed :=
  ⟨h.refused hw.1, h.full hw.2.1, h.cut hw.2.2⟩

theorem respond_worse {w w' : Outcomes} {c : Call} {r : Reply}
    (h : respond w () c r = some w') : Worse w w' := by
  unfold respond at h
  split at h
  · cases h
    exact ⟨fun h => (Bool.or_eq_false_iff.mp h).1, id, id⟩
  · split at h
    · cases h
      exact ⟨id, id, id⟩
    · cases h
      exact ⟨fun h => (Bool.or_eq_false_iff.mp h).1, id, id⟩
  · cases h
    exact ⟨fun h => (Bool.or_eq_false_iff.mp h).1, id, id⟩
  · split at h
    · cases h
      exact ⟨id, fun h => (Bool.or_eq_false_iff.mp h).1, fun h => (Bool.or_eq_false_iff.mp h).1⟩
    · cases h
  · split at h
    · cases h
      exact ⟨id, id, id⟩
    · cases h
  · cases h
    exact ⟨id, id, id⟩

theorem reaches_worse {α : Type} {t u : Config Outcomes Unit Call Reply α}
    (h : machine.Reaches Machine.any t u) : Worse t.world u.world := by
  induction h with
  | refl => exact ⟨id, id, id⟩
  | reply _ _ hr _ ih =>
    have hstep := respond_worse hr
    exact ⟨fun h => ih.refused (hstep.refused h), fun h => ih.full (hstep.full h),
      fun h => ih.cut (hstep.cut h)⟩
  | @move _ e => exact nomatch e

section Rules

variable {pre : Call → Outcomes → Prop} {fault : Outcomes → Prop} {A : Outcomes → Prop}

abbrev service (pre : Call → Outcomes → Prop) (fault : Outcomes → Prop) :
    Setting Outcomes Call Reply := machine.alone Machine.any pre fault

theorem stable (A : Outcomes → Prop) : (service pre fault).Stable A :=
  Machine.stable_alone fun _ e => nomatch e

/-- The calls that leave no trace. -/
def isQuiet : Call → Bool
  | .netAccept | .sslHandshake .server | .accept | .recv _ => false
  | _ => true

theorem respond_quiet {w w' : Outcomes} {c : Call} {r : Reply} (hc : isQuiet c = true)
    (hr : respond w () c r = some w') : w' = w := by
  cases c with
  | sslHandshake side =>
    cases side with
    | client => exact (Option.some.inj hr).symm
    | server => cases hc
  | sslRead side len =>
    cases side with
    | client => exact (Option.some.inj hr).symm
    | server =>
      simp only [respond] at hr
      split at hr
      · exact (Option.some.inj hr).symm
      · cases hr
  | _ => first
    | exact (Option.some.inj hr).symm
    | cases hc

theorem triple_quiet {c : Call} (hc : isQuiet c = true) (hpre : ∀ w, A w → pre c w) :
    (service pre fault).Triple A (void c) (fun _ => A) := by
  apply triple_void (stable _) (stable _) hpre
  intro w r w' hw hr
  rw [respond_quiet hc hr.1]
  exact hw

theorem triple_recvMsg {msg : Str} (hpre : ∀ w, A w → pre (.sslRead .server 1023) w) :
    (service pre fault).Triple A (Controller.TLSServer.recvMsg msg) (fun _ => A) := by
  apply triple_sslRecvMsg (stable _) (fun _ => stable _) hpre
  · intro w r w' hw hr _
    rw [respond_quiet (c := .sslRead .server 1023) rfl hr.1]
    exact hw
  · intro w r w' hw hr _
    refine ⟨?_, by rw [respond_quiet (c := .sslRead .server 1023) rfl hr.1]; exact hw⟩
    obtain ⟨hr, _⟩ := hr
    simp only [machine, respond] at hr
    split at hr
    · assumption
    · cases hr

theorem triple_resetClient (hpre : ∀ c w, A w → pre c w) :
    (service pre fault).Triple A Controller.TLSServer.resetClient (fun _ => A) :=
  Setting.triple_bind (triple_quiet rfl (hpre _)) fun _ => triple_quiet rfl (hpre _)

/-- What an accept leaves behind. -/
def AfterAccept (b : Bool) (w : Outcomes) : Prop := w.refused = !b ∧ w.cut = false

theorem triple_acceptClient (hpre : ∀ c w, AfterAccept true w → pre c w) :
    (service pre fault).Triple (AfterAccept true) Controller.TLSServer.acceptClient
      AfterAccept := by
  apply Controller.TLSServer.triple_acceptClient (H := AfterAccept true) (stable _) (stable _)
    (fun _ => stable _) (hpre _) (hpre _)
  · intro w r w' hw hr
    cases hr.1
    by_cases h0 : r.ret = 0
    · rw [if_pos h0]
      exact ⟨by simp [hw.1, h0], hw.2⟩
    · rw [if_neg h0]
      exact ⟨by simp [h0], hw.2⟩
  · intro w r w' hw hr hretry
    obtain ⟨hr, _⟩ := hr
    simp only [machine, respond, hretry, if_true, Option.some.injEq] at hr
    rwa [← hr]
  · intro w r w' hw hr hretry
    obtain ⟨hr, _⟩ := hr
    simp only [machine, respond, hretry, Bool.false_eq_true, if_false, Option.some.injEq] at hr
    rw [← hr]
    exact ⟨by simp [hw.1, bne, beq_eq_decide], hw.2⟩

end Rules

section Controller

/-- No framed message is read here. -/
def Whole (w : Outcomes) : Prop := w.cut = false

abbrev keeper : Setting Outcomes Call Reply := service (fun _ => Whole) fun _ => False

theorem respond_cut {w w' : Outcomes} {c : Call} {r : Reply} (hc : ∀ len, c ≠ .recv len)
    (h : respond w () c r = some w') : w'.cut = w.cut := by
  unfold respond at h
  split at h
  · cases h
    rfl
  · split at h
    · cases h
      rfl
    · cases h
      rfl
  · cases h
    rfl
  · exact absurd rfl (hc _)
  · split at h
    · cases h
      rfl
    · cases h
  · cases h
    rfl

theorem triple_keep {α : Type} {m : Prog α} (hm : m.Only (fun c => ∀ len, c ≠ .recv len) False) :
    keeper.Triple Whole m (fun _ => Whole) := by
  refine Setting.triple_only (stable _) (fun _ _ _ hw => hw) ?_ nofun hm
  intro w c r w' hc hw hr
  rw [Whole, respond_cut hc hr.1]
  exact hw

theorem triple_policyListener :
    keeper.Triple Whole Controller.PolicyListener.runListener (fun _ _ => False) := by
  have hreset : keeper.Triple Whole Controller.TLSServer.resetClient (fun _ => Whole) :=
    triple_keep (Controller.TLSServer.only_resetClient nofun nofun)
  exact Controller.PolicyListener.triple_runListener (B := fun _ => Whole) (stable _)
    (triple_keep (Controller.TLSServer.only_acceptClient nofun nofun)) hreset
    (triple_recvMsg fun _ hw => hw) (fun _ => hreset) fun _ => triple_keep (only_void nofun)

abbrev requested : Setting Outcomes Call Reply :=
  service (fun _ => AfterAccept true) fun _ => False

theorem triple_requestListener :
    requested.Triple (AfterAccept true) Controller.RequestListener.runListener
      (fun _ => AfterAccept false) := by
  have hquiet : ∀ w : Outcomes, AfterAccept true w → AfterAccept true w := fun _ hw => hw
  apply Controller.RequestListener.triple_runListener (B := AfterAccept)
    (Q := fun _ => AfterAccept true) (V := fun _ => AfterAccept true) (fun _ => stable _)
  · exact triple_acceptClient fun _ => hquiet
  · exact triple_recvMsg hquiet
  · exact fun _ => hquiet
  · exact hquiet
  · intro req _
    apply triple_int (stable _) (fun _ => stable _) hquiet
    intro w r w' hw hr
    cases hr.1
    exact hw
  · intro vRet
    apply triple_sslSendMsg (stable _) (fun _ => stable _) hquiet
    · intro w r w' hw hr _
      cases hr.1
      exact hw
    · intro w r w' hw hr _
      cases hr.1
      exact hw

end Controller

section Framed

/-- Nothing has gone wrong, or no other call than `::recv` is ever made again. -/
def Owes (c : Call) (w : Outcomes) : Prop := w.Unharmed ∨ ∃ len, c = .recv len

abbrev framed : Setting Outcomes Call Reply := service Owes fun w => ¬ w.Unharmed

theorem Unharmed.owes {c : Call} {w : Outcomes} (hw : w.Unharmed) : Owes c w := Or.inl hw

/-- Where a `::recv` of data is about to be made or not: if the connection was cut, data is
still awaited. -/
def Awaiting (dataLen : Nat) (w : Outcomes) : Prop :=
  dataLen < 2 ^ 64 ∧ w.fresh = false ∧
    (w.Unharmed ∨ (0 < dataLen ∧ w.refused = false ∧ w.full = false ∧ w.cut = true))

/-- A piece of data has arrived, with `dataLen` bytes to come before it. -/
structure Arrived (dataLen : Nat) (r : Reply) (w : Outcomes) : Prop where
  size : r.bytes.length ≤ maxBufLen ∧ r.bytes.length = r.ret.toNat
  failed : r.ret < 0 → w.Unharmed
  overrun : r.bytes.length = maxBufLen ∧ 0 ∉ r.bytes → ¬ w.Unharmed
  kept : 0 ≤ r.ret → ¬ (r.bytes.length = maxBufLen ∧ 0 ∉ r.bytes) →
    Awaiting (subSizeT dataLen r.ret.toNat) w

theorem Awaiting.recv {dataLen len : Nat} {w w' : Outcomes} {r : Reply}
    (hw : w.Awaiting dataLen) (hpos : 0 < dataLen) (hmax : len ≤ maxBufLen)
    (hr : respond w () (.recv len) r = some w') : w'.Arrived dataLen r := by
  obtain ⟨hlen, hret, hcut, rfl⟩ := respond_recv hr
  obtain ⟨hlt, hfresh, hw⟩ := hw
  have hsub : r.ret = 0 → subSizeT dataLen r.ret.toNat = dataLen := by
    intro h0
    rw [h0, Int.toNat_zero, subSizeT_of_le (Nat.zero_le _) hlt, Nat.sub_zero]
  refine ⟨⟨hlen.trans hmax, hret⟩, ?_, ?_, ?_⟩
  · intro hneg
    have hzero : r.bytes.length = 0 := by omega
    rcases hw with ⟨hrefused, hfull, hnot⟩ | ⟨_, _, _, hyes⟩
    · refine ⟨hrefused, ?_, ?_⟩
      · simp [hfull, hzero, maxBufLen]
      · have hne : r.ret ≠ 0 := by omega
        simp [hnot, hne]
    · exact absurd (hcut hyes) (by omega)
  · intro hover hun
    have hfull := (Bool.or_eq_false_iff.mp hun.2.1).2
    exact absurd hover (of_decide_eq_false hfull)
  · intro hnonneg hnot
    refine ⟨?_, rfl, ?_⟩
    · exact Nat.mod_lt _ (by omega)
    · have hfull : decide (r.bytes.length = maxBufLen ∧ 0 ∉ r.bytes) = false :=
        decide_eq_false hnot
      by_cases h0 : r.ret = 0
      · rw [hsub h0]
        rcases hw with ⟨hrefused, hnone, _⟩ | ⟨_, hrefused, hnone, _⟩
        · exact Or.inr ⟨hpos, hrefused, by simp [hnone, hfull], by simp [hfresh, h0]⟩
        · exact Or.inr ⟨hpos, hrefused, by simp [hnone, hfull], by simp [hfresh, h0]⟩
      · rcases hw with ⟨hrefused, hnone, hwhole⟩ | ⟨_, _, _, hyes⟩
        · exact Or.inl ⟨hrefused, by simp [hnone, hfull], by simp [hwhole, h0]⟩
        · exact absurd (hcut hyes) h0

theorem triple_recvRound (n : Nat) (cur : Str) :
    framed.Triple (Awaiting n) (SocketUtil.recvRound (n, cur))
      (Setting.Round (fun b => Awaiting b.1) fun _ => Unharmed) := by
  apply SocketUtil.triple_recvRound (J := fun b => Awaiting b.1) (B := fun r => Arrived n r)
    (fun _ => stable _) (fun _ => stable _)
  · intro hn
    refine Setting.triple_ask (stable _) (fun _ => stable _) (fun _ _ => Or.inr ⟨_, rfl⟩) ?_
    intro w r w' hw hr
    exact hw.recv (by omega) (Nat.min_le_right n maxBufLen) hr.1
  · exact fun r w hneg hw => hw.failed hneg
  · intro r s w hret hw hs
    obtain ⟨_, hend⟩ := (Bytes.untilFirst_intoArray_eq_some_iff hw.size.1).mp hs
    apply hw.kept hret
    intro h
    rcases hend with hlt | hzero
    · omega
    · exact h.2 hzero
  · intro r w _ hw hs
    exact hw.overrun ((Bytes.untilFirst_intoArray_eq_none_iff hw.size.1).mp hs)
  · exact fun w hw => hw.2.2.resolve_right fun h => Nat.lt_irrefl 0 h.1

theorem triple_framed_recv {order : Bytes.ByteOrder} {out : Str} :
    framed.Triple (fun w => w.Unharmed ∧ w.fresh = true) (SocketUtil.recv order out)
      (fun _ => Unharmed) := by
  refine SocketUtil.triple_recv (J := fun b => Awaiting b.1) (fun _ => stable _) ?_
    triple_recvRound
  refine Setting.triple_ask (stable _) (fun _ => stable _) (fun w hw => hw.1.owes) ?_
  intro w r w' hw hr
  obtain ⟨⟨hrefused, hfull, hcut⟩, hfresh⟩ := hw
  obtain ⟨hlen, _, _, rfl⟩ := respond_recv hr.1
  refine ⟨SocketUtil.readLength_lt hlen, rfl, Or.inl ⟨hrefused, ?_, by simp [hcut, hfresh]⟩⟩
  have hshort : r.bytes.length ≠ maxBufLen := by
    simp only [sizeofSizeT, maxBufLen] at hlen ⊢
    omega
  simp [hfull, hshort]

theorem triple_deployerListener {order : Bytes.ByteOrder} :
    framed.Triple Unharmed (Deployer.PolicyListener.runListener order)
      (fun _ w => w.refused = true) := by
  have haccept : framed.Triple Unharmed Deployer.Listener.getClientConn
      (fun sock w => if sock = -1 then w.refused = true else w.Unharmed ∧ w.fresh = true) := by
    refine Setting.triple_bind (triple_int (B := fun n w =>
      if 0 > n then w.refused = true else w.Unharmed ∧ w.fresh = true) (stable _)
      (fun _ => stable _) (fun _ hw => hw.owes) ?_) fun sock => ?_
    · intro w r w' hw hr
      cases hr.1
      by_cases hneg : 0 > r.ret
      · rw [if_pos hneg]
        simp [hneg]
      · rw [if_neg hneg]
        exact ⟨⟨by simp [hw.1, hneg], hw.2.1, hw.2.2⟩, rfl⟩
    · by_cases hneg : 0 > sock
      · simp only [hneg, if_true]
        exact Setting.triple_ret (stable _) fun w hw => by simpa using hw
      · have hne : sock ≠ -1 := by omega
        simp only [hneg, if_false]
        exact Setting.triple_ret (stable _) fun w hw => by simpa [hne] using hw
  refine Setting.triple_whileTrue (fun _ => stable _) ?_ nofun
  refine Setting.triple_bind haccept fun sock => ?_
  by_cases hsock : -1 = sock
  · simp only [if_pos hsock, if_pos hsock.symm]
    exact Setting.triple_ret (stable _) fun w hw => hw
  · simp only [if_neg hsock, if_neg (Ne.symm hsock)]
    refine Setting.triple_bind triple_framed_recv fun received => ?_
    refine Setting.triple_bind (triple_quiet (c := .insertPolicy _) rfl fun _ hw => hw.owes)
      fun _ => ?_
    exact Setting.triple_bind (triple_quiet (c := .close) rfl fun _ hw => hw.owes) fun _ =>
      Setting.triple_ret (stable _) fun w hw => show w.Unharmed from hw

end Framed

section Proxy

theorem triple_proxyListener :
    keeper.Triple Whole Proxy.ProxyListener.runListener (fun _ _ => False) :=
  Proxy.ProxyListener.triple_runListener (stable _)
    (triple_keep ((Code.only_ask nofun).bind fun _ => Code.only_ite trivial trivial))
    (fun _ _ hw => hw) (fun _ _ _ => triple_keep (only_void nofun)) (triple_keep (only_void nofun))

end Proxy

section Escape

/-- Every read fails and everything else succeeds: the client is given up. -/
def giveUp : Call → Reply
  | .sslRead _ _ | .recv _ => ⟨-1, []⟩
  | _ => ⟨0, []⟩

theorem respond_giveUp (w : Outcomes) (c : Call) (hw : w.cut = false) :
    ∃ v, respond w () c (giveUp c) = some v ∧ Machine.any w () c (giveUp c) ∧ v.cut = false := by
  cases c with
  | recv len =>
    have hopen : w.cut = true → (-1 : Int) = 0 := by simp [hw]
    exact ⟨_, if_pos ⟨Nat.zero_le _, rfl, hopen⟩, trivial, by simp [hw, giveUp]⟩
  | sslRead side len =>
    cases side with
    | client => exact ⟨w, rfl, trivial, hw⟩
    | server =>
      have hlen : (giveUp (.sslRead .server len)).bytes.length ≤ len := Nat.zero_le _
      exact ⟨w, (if_pos hlen : ite _ (some w) none = some w), trivial, hw⟩
  | sslHandshake side =>
    cases side with
    | client => exact ⟨w, rfl, trivial, hw⟩
    | server => exact ⟨_, rfl, trivial, hw⟩
  | _ => exact ⟨_, rfl, trivial, hw⟩

open Code

theorem escapes_int {c : Call} {H : Int → Prop} (h : H (giveUp c).ret) :
    (int c).Escapes giveUp (Ends H) :=
  Escapes.bind (H := fun r => r = giveUp c) (escapes_ask rfl) (fun _ => escapes_ret _)
    fun _ hr => Or.inr ⟨_, rfl, hr ▸ h⟩

theorem escapes_void {c : Call} : (void c).Escapes giveUp (Ends fun _ => True) :=
  Escapes.bind (H := fun _ => True) (escapes_ask trivial) (fun _ => escapes_ret _)
    fun _ _ => Or.inr ⟨_, rfl, trivial⟩

theorem escapes_retrying {c : Call} {H : Reply → Prop} (hagain : wantsRetry (giveUp c) = false)
    (h : H (giveUp c)) : (retrying c).Escapes giveUp (Ends H) := escapes_doWhile hagain h

theorem escapes_appendBuffer {T : Pending Call Str → Prop} {size : Nat} {data bytes : Str} :
    (appendBuffer size data bytes).Escapes giveUp T := by
  unfold appendBuffer
  split
  · exact escapes_ret _
  · exact escapes_undefined

theorem escapes_recvMsg {msg : Str} :
    (Controller.TLSServer.recvMsg msg).Escapes giveUp (Ends fun b => b.1 = false) := by
  refine Escapes.bind (H := fun r => r = ⟨-1, []⟩) (escapes_retrying rfl rfl) (fun r => ?_)
    fun r hr => ?_
  · apply escapes_ite (escapes_ret _)
    refine escapes_ite (escapes_ret _) (escapes_ite ?_ (escapes_ret _))
    exact Escapes.bind (H := fun _ => False) escapes_appendBuffer (fun _ => escapes_ret _) nofun
  · rw [hr]
    exact Or.inr ⟨_, rfl, rfl⟩

theorem escapes_acceptClient :
    Controller.TLSServer.acceptClient.Escapes giveUp (Ends fun b => b = true) := by
  refine Escapes.bind (H := fun n => n = 0) (escapes_int rfl) (fun n => ?_) fun n hn => ?_
  · refine escapes_ite (escapes_ret _) ?_
    refine Escapes.bind (H := fun r => r.ret = 0) (escapes_retrying rfl rfl) (fun r => ?_)
      fun r hr => ?_
    · exact escapes_ite (escapes_ret _) (escapes_ret _)
    · rw [if_neg (not_not.mpr hr)]
      exact Or.inr ⟨_, rfl, rfl⟩
  · rw [hn]
    exact Or.inl ⟨_, rfl⟩

/-- A round that can be brought to its end. -/
abbrev Rounds (round : Prog (Unit ⊕ Bool)) : Prop :=
  round.Escapes giveUp (Ends fun x => x = .inl ())

theorem rounds_again : Rounds (.ret (.inl ())) := escapes_ret _

theorem rounds_policyListener : Rounds Controller.PolicyListener.acceptRound := by
  have hreset : Controller.TLSServer.resetClient.Escapes giveUp (Ends fun _ => True) :=
    Escapes.bind escapes_void (fun _ => escapes_void) fun _ _ => Or.inl ⟨_, rfl⟩
  refine Escapes.bind escapes_acceptClient (fun accepted => escapes_ite ?_ ?_)
    fun accepted h => Or.inl ⟨.sslRead .server 1023, by rw [h]; rfl⟩
  · exact Escapes.bind hreset (fun _ => rounds_again) fun _ _ => Or.inr ⟨_, rfl, rfl⟩
  · refine Escapes.bind escapes_recvMsg (fun received => ?_) fun received _ => Or.inl ⟨_, rfl⟩
    refine Escapes.bind hreset (fun _ => ?_) fun _ _ => Or.inl ⟨_, rfl⟩
    exact Escapes.bind escapes_void (fun _ => rounds_again) fun _ _ => Or.inr ⟨_, rfl, rfl⟩

theorem rounds_requestListener : Rounds Controller.RequestListener.serveRound := by
  have hsend : ∀ msg, (Controller.TLSServer.sendMsg msg).Escapes giveUp (Ends fun _ => True) := by
    intro msg
    refine Escapes.bind (H := fun r => r = ⟨0, []⟩) (escapes_retrying rfl rfl)
      (fun r => escapes_ite (escapes_ret _) (escapes_ret _)) fun r hr => ?_
    rw [hr]
    exact Or.inr ⟨_, rfl, trivial⟩
  refine Escapes.bind escapes_recvMsg (fun received => ?_) fun received h => ?_
  · refine escapes_ite ?_ (escapes_ite rounds_again ?_)
    · refine Escapes.bind escapes_acceptClient (fun accepted => ?_) fun accepted h => ?_
      · exact escapes_ite (escapes_ret _) rounds_again
      · rw [h]
        exact Or.inr ⟨_, rfl, rfl⟩
    · refine Escapes.bind (H := fun _ => True) (escapes_int trivial) (fun vRet => ?_)
        fun _ _ => Or.inl ⟨_, rfl⟩
      exact Escapes.bind (hsend _) (fun _ => rounds_again) fun _ _ => Or.inr ⟨_, rfl, rfl⟩
  · obtain ⟨received, req⟩ := received
    cases h
    exact Or.inl ⟨_, rfl⟩

theorem rounds_proxyListener : Rounds Proxy.ProxyListener.acceptRound := by
  have haccept : Proxy.Listener.getClientConn.Escapes giveUp (Ends fun conn => conn.1 = 0) := by
    refine Escapes.bind (H := fun r => r = ⟨0, []⟩) (escapes_ask rfl)
      (fun r => escapes_ite (escapes_ret _) (escapes_ret _)) fun r hr => ?_
    rw [hr]
    exact Or.inr ⟨_, rfl, rfl⟩
  refine Escapes.bind haccept (fun conn => escapes_ite rounds_again ?_) fun conn h => ?_
  · refine Escapes.bind escapes_void (fun _ => ?_) fun _ _ => Or.inl ⟨_, rfl⟩
    exact Escapes.bind escapes_void (fun _ => rounds_again) fun _ _ => Or.inr ⟨_, rfl, rfl⟩
  · obtain ⟨sock, addr⟩ := conn
    cases h
    exact Or.inl ⟨_, rfl⟩

theorem escapes_recvRound (b : Nat × Str) :
    (SocketUtil.recvRound b).Escapes giveUp (Ends fun x => ∃ res, x = .inr res) := by
  obtain ⟨n, cur⟩ := b
  refine escapes_ite ?_ (escapes_ret _)
  refine Escapes.bind (H := fun r => r = ⟨-1, []⟩) (escapes_ask rfl) (fun r => ?_) fun r hr => ?_
  · refine escapes_ite (escapes_ret _) ?_
    exact Escapes.bind (H := fun _ => False) escapes_appendBuffer (fun _ => escapes_ret _) nofun
  · rw [hr]
    exact Or.inr ⟨_, rfl, _, rfl⟩

theorem rounds_deployerListener {order : Bytes.ByteOrder} :
    Rounds (Deployer.PolicyListener.acceptRound order) := by
  have haccept : Deployer.Listener.getClientConn.Escapes giveUp (Ends fun sock => sock = 0) := by
    refine Escapes.bind (H := fun n => n = 0) (escapes_int rfl)
      (fun n => escapes_ite (escapes_ret _) (escapes_ret _)) fun n hn => ?_
    rw [hn]
    exact Or.inr ⟨_, rfl, rfl⟩
  have hrecv : (SocketUtil.recv order []).Escapes giveUp (Ends fun _ => True) := by
    refine Escapes.bind (H := fun _ => True) (escapes_ask trivial) (fun reply => ?_)
      fun reply _ => ?_
    · refine escapes_loop (H := fun x => ∃ res, x = .inr res) escapes_recvRound
        (fun _ => escapes_ret _) (fun x hx => ?_) _
      obtain ⟨res, rfl⟩ := hx
      exact ⟨_, ⟨_, rfl, trivial⟩, .here rfl⟩
    · dsimp only
      generalize SocketUtil.readLength order reply.bytes = n
      by_cases hn : n > 0
      · refine Or.inl ⟨.recv (if n > maxBufLen then maxBufLen else n), ?_⟩
        simp only [pending, SocketUtil.recvRound, if_pos hn]
        rfl
      · refine Or.inr ⟨(true, []), ?_, trivial⟩
        simp only [pending, SocketUtil.recvRound, if_neg hn]
        rfl
  refine Escapes.bind haccept (fun sock => escapes_ite (escapes_ret _) ?_) fun sock h => ?_
  · refine Escapes.bind hrecv (fun received => ?_) fun _ _ => Or.inl ⟨_, rfl⟩
    refine Escapes.bind escapes_void (fun _ => ?_) fun _ _ => Or.inl ⟨_, rfl⟩
    exact Escapes.bind escapes_void (fun _ => rounds_again) fun _ _ => Or.inr ⟨_, rfl, rfl⟩
  · rw [h]
    exact Or.inl ⟨_, rfl⟩

/-- Rounds that come to an end come back to the head of their loop. -/
theorem escapes_whileTrue {round : Prog (Unit ⊕ Bool)} {c : Call} (hround : Rounds round)
    (hhead : (whileTrue round).Gets giveUp (.calling c)) :
    (whileTrue round).Escapes giveUp (fun p => p = .calling c) := by
  refine escapes_loop (H := fun x => x = .inl ()) (fun _ => hround) (fun g => escapes_ret g)
    (fun x hx => ?_) ()
  rw [hx]
  exact ⟨_, rfl, hhead⟩

theorem gets_serveLoop :
    Controller.RequestListener.serveLoop.Gets giveUp (.calling .netAccept) :=
  gets_loop_calling (c := .sslRead .server 1023) rfl (.here rfl)

theorem escapes_requestListener :
    Controller.RequestListener.runListener.Escapes giveUp (fun p => p = .calling .netAccept) := by
  have hserve := escapes_whileTrue rounds_requestListener gets_serveLoop
  refine Escapes.bind escapes_acceptClient (fun accepted => ?_) fun accepted h => ?_
  · exact escapes_ite (escapes_ret _) hserve
  · rw [h]
    exact Or.inl ⟨.sslRead .server 1023, rfl⟩

end Escape

end Outcomes

open Outcomes

inductive AcceptLoop where
  | policyListener
  | requestListener
  | deployerListener (order : Bytes.ByteOrder)
  | proxyListener

namespace AcceptLoop

def runListener : AcceptLoop → Prog Bool
  | .policyListener => Controller.PolicyListener.runListener
  | .requestListener => Controller.RequestListener.runListener
  | .deployerListener order => Deployer.PolicyListener.runListener order
  | .proxyListener => Proxy.ProxyListener.runListener

/-- The call by which the loop takes its next client. -/
def acceptCall : AcceptLoop → Call
  | .policyListener | .requestListener => .netAccept
  | .deployerListener _ | .proxyListener => .accept

/-- Nothing has happened that stops the loop. -/
def Unharmed : AcceptLoop → Outcomes → Prop
  | .policyListener, _ => True
  | .requestListener, w => w.refused = false
  | .deployerListener _, w => w.Unharmed
  | .proxyListener, _ => True

theorem escapes (loop : AcceptLoop) :
    loop.runListener.Escapes giveUp (fun p => p = .calling loop.acceptCall) := by
  cases loop with
  | policyListener => exact escapes_whileTrue rounds_policyListener (.here rfl)
  | requestListener => exact escapes_requestListener
  | deployerListener order => exact escapes_whileTrue rounds_deployerListener (.here rfl)
  | proxyListener => exact escapes_whileTrue rounds_proxyListener (.here rfl)

end AcceptLoop

abbrev Reached (m : Prog Bool) (t : Config Outcomes Unit Call Reply Bool) : Prop :=
  machine.Reaches Machine.any (solo m {}) t

/-- The loop has not returned, and the next client can be accepted: now, or after the calls
that end this one. -/
def Serves (loop : AcceptLoop) (t : Config Outcomes Unit Call Reply Bool) : Prop :=
  (∃ c, (t.code ()).pending = .calling c) ∧
    ∃ u, machine.Reaches Machine.any t u ∧ (u.code ()).pending = .calling loop.acceptCall

section Loops

variable {loop : AcceptLoop} {t : Config Outcomes Unit Call Reply Bool}

theorem serves_of_calling {c : Call} (ht : Reached loop.runListener t)
    (hc : (t.code ()).pending = .calling c) (hcut : t.world.cut = false) : Serves loop t := by
  obtain ⟨p, hp, hgets⟩ := loop.escapes (t.code ()) c ht.later hc
  rw [hp] at hgets
  exact ⟨⟨c, hc⟩, Machine.reaches_of_gets respond_giveUp hgets hcut⟩

theorem serves_of_keeper (ht : Reached loop.runListener t)
    (hloop : keeper.Triple Whole loop.runListener (fun _ _ => False)) : Serves loop t := by
  have hholds := ht.alone hloop rfl
  cases hp : (t.code ()).pending with
  | returned b => exact (hholds.returned hp).elim
  | calling c => exact serves_of_calling ht hp (hholds.pre hp)
  | undefined => exact (hholds.undefined hp).elim

theorem requestListener_serves_iff (ht : Reached AcceptLoop.requestListener.runListener t) :
    Serves .requestListener t ↔ t.world.refused = false := by
  constructor
  · intro h
    obtain ⟨_, u, hu, hc⟩ := h
    have hholds := (ht.trans hu).alone triple_requestListener ⟨rfl, rfl⟩
    exact (reaches_worse hu).refused (hholds.pre hc).1
  · intro hrefused
    have hholds := ht.alone triple_requestListener ⟨rfl, rfl⟩
    cases hp : (t.code ()).pending with
    | returned b =>
      have hreturned : t.world.refused = true := (hholds.returned hp).1
      rw [hrefused] at hreturned
      cases hreturned
    | calling c => exact serves_of_calling ht hp (hholds.pre hp).2
    | undefined => exact (hholds.undefined hp).elim

theorem deployerListener_serves_iff {order : Bytes.ByteOrder}
    (ht : Reached (AcceptLoop.deployerListener order).runListener t) :
    Serves (.deployerListener order) t ↔ t.world.Unharmed := by
  constructor
  · intro h
    obtain ⟨_, u, hu, hc⟩ := h
    have hholds := (ht.trans hu).alone triple_deployerListener ⟨rfl, rfl, rfl⟩
    rcases hholds.pre hc with hun | ⟨len, hlen⟩
    · exact (reaches_worse hu).unharmed hun
    · cases hlen
  · intro hun
    have hholds := ht.alone triple_deployerListener ⟨rfl, rfl, rfl⟩
    cases hp : (t.code ()).pending with
    | returned b =>
      have hreturned : t.world.refused = true := hholds.returned hp
      rw [hun.1] at hreturned
      cases hreturned
    | calling c => exact serves_of_calling ht hp hun.2.2
    | undefined => exact absurd hun (hholds.undefined hp)

end Loops

/-- Two of the loops never stop; the request listener stops exactly at a failed accept or
handshake, the Deployer's listener at a failed accept, an overrun buffer or a connection
closed where data was awaited. -/
theorem services_stay_up (loop : AcceptLoop) {t : Config Outcomes Unit Call Reply Bool}
    (ht : Reached loop.runListener t) : Serves loop t ↔ loop.Unharmed t.world := by
  cases loop with
  | policyListener => exact iff_of_true (serves_of_keeper ht triple_policyListener) trivial
  | requestListener => exact requestListener_serves_iff ht
  | deployerListener order => exact deployerListener_serves_iff ht
  | proxyListener => exact iff_of_true (serves_of_keeper ht triple_proxyListener) trivial

theorem services_stay_up_accepted :
    ∃ t, Reached Controller.RequestListener.runListener t ∧ Serves .requestListener t ∧
      t.world.refused = false := by
  have hrun : machine.observe Outcomes.refused (solo Controller.RequestListener.runListener {})
      [.reply () ⟨0, []⟩, .reply () ⟨0, []⟩, .reply () ⟨-0x50, []⟩] () =
      some (.calling .netAccept, false) := by decide +kernel
  obtain ⟨t, ht, _, hrefused⟩ := Machine.reaches_of_observe hrun
  exact ⟨t, ht, (services_stay_up .requestListener ht).mpr hrefused, hrefused⟩

/-- One client that breaks off its handshake ends the request listener. -/
theorem failed_handshake_stops_service :
    ¬ ∀ (loop : AcceptLoop) (t : Config Outcomes Unit Call Reply Bool),
      Reached loop.runListener t → Serves loop t := by
  intro hall
  have hrun : machine.observe id (solo Controller.RequestListener.runListener {})
      [.reply () ⟨0, []⟩, .reply () ⟨-0x7280, []⟩] () =
      some (.returned false, ⟨true, false, true, false⟩) := by decide +kernel
  obtain ⟨t, ht, hp, _⟩ := Machine.reaches_of_observe hrun
  obtain ⟨c, hc⟩ := (hall .requestListener t ht).1
  rw [hp] at hc
  cases hc

end SGXess.Service
