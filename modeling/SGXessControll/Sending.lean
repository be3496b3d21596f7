import SGXessControll.Transport

/-!
# Reported sends

Every copy of `send` and `sendMsg` looks at the sign of what the transport returns and not
at the count, so a message that was taken in part is reported as sent.
-/

namespace SGXess

set_option autoImplicit false

open Calls

/-- The copies of `send` and `sendMsg`. -/
inductive Sender where
  | adminSocketUtil
  | controllerSocketUtil
  | deployerSocketUtil
  | proxySocketUtil
  | clientSocketUtil
  | deployerTLSClient
  | proxyTLSClient
  | clientTLSClient
  | controllerTLSServer
  | proxyTLSServer
  deriving DecidableEq

namespace Sender

variable (order : Bytes.ByteOrder)

def code : Sender → Str → Prog Bool
  | adminSocketUtil => Admin.SocketUtil.send order
  | controllerSocketUtil => Controller.SocketUtil.send
  | deployerSocketUtil => Deployer.SocketUtil.send order
  | proxySocketUtil => Proxy.SocketUtil.send order
  | clientSocketUtil => Client.SocketUtil.send order
  | deployerTLSClient => Deployer.TLSClient.sendMsg
  | proxyTLSClient => Proxy.TLSClient.sendMsg
  | clientTLSClient => Client.TLSClient.sendMsg
  | controllerTLSServer => Controller.TLSServer.sendMsg
  | proxyTLSServer => Proxy.TLSServer.sendMsg

/-- What has to go out: the length and the data where messages are framed. -/
def message : Sender → Str → Str
  | adminSocketUtil | deployerSocketUtil | proxySocketUtil | clientSocketUtil =>
    fun data => order.encode sizeofSizeT data.length ++ data
  | _ => fun data => data

end Sender

/-- What the transport took, in order. -/
def accepted (w : Log) : Str := w.flatMap fun p => p.2.bytes

def offered : Call → Str
  | .send buf => buf
  | .sslWrite _ buf => buf
  | _ => []

/-- A write failed, or no write took less than it was offered. -/
def FailedOrWhole (w : Log) : Prop :=
  Failed WriteFails w ∨ ∀ p ∈ w, 0 ≤ p.2.ret → p.2.bytes = offered p.1

@[simp] theorem accepted_append (w w' : Log) : accepted (w ++ w') = accepted w ++ accepted w' :=
  List.flatMap_append

@[simp] theorem accepted_singleton (c : Call) (r : Reply) : accepted [(c, r)] = r.bytes := by
  simp [accepted]

/-- What holds when a copy returns: it reports the failures, and without one the message went
out exactly if no write was cut short. -/
def Reported (msg : Str) (sent : Bool) (w : Log) : Prop :=
  (sent = true ↔ ¬ Failed WriteFails w) ∧
    (sent = true → (accepted w = msg ↔ ∀ p ∈ w, 0 ≤ p.2.ret → p.2.bytes = offered p.1))

theorem Reported.whole_iff {msg : Str} {sent : Bool} {w : Log} (h : Reported msg sent w) :
    (sent = true → accepted w = msg) ↔ FailedOrWhole w := by
  obtain ⟨hreport, hwhole⟩ := h
  by_cases hsent : sent = true
  · have hnone := hreport.mp hsent
    simp [FailedOrWhole, hsent, hnone, hwhole hsent]
  · have hsome := Classical.not_not.mp fun hnone => hsent (hreport.mpr hnone)
    exact ⟨fun _ => Or.inl hsome, fun _ htrue => absurd htrue hsent⟩

/-- No write has failed, and what was to go out so far is `out`. -/
structure Going (out : Str) (w : Log) : Prop where
  running : ¬ Failed WriteFails w
  taken_le : (accepted w).length ≤ out.length
  whole : accepted w = out ↔ ∀ p ∈ w, 0 ≤ p.2.ret → p.2.bytes = offered p.1

section Going

variable {out msg : Str} {w : Log} {c : Call} {r : Reply}

theorem going_nil : Going [] [] := ⟨not_failed_nil, Nat.le_refl 0, by simp [accepted]⟩

theorem Going.write (h : Going out w) (hret : 0 ≤ r.ret) (hbytes : r.bytes <+: offered c)
    (hok : ¬ WriteFails c r) : Going (out ++ offered c) (w ++ [(c, r)]) := by
  obtain ⟨hrunning, hle, hwhole⟩ := h
  have hlen := hbytes.length_le
  refine ⟨fun hfails => (failed_append.mp hfails).elim hrunning hok, ?_, ?_⟩
  · rw [accepted_append, accepted_singleton, List.length_append, List.length_append]
    omega
  · have hsplit : accepted w ++ r.bytes = out ++ offered c ↔
        accepted w = out ∧ r.bytes = offered c := by
      constructor
      · intro heq
        have htotal := congrArg List.length heq
        rw [List.length_append, List.length_append] at htotal
        exact List.append_inj heq (by omega)
      · intro ⟨hw, hr⟩
        rw [hw, hr]
    rw [accepted_append, accepted_singleton, hsplit, hwhole]
    constructor
    · intro ⟨hw, hr⟩ p hp
      rcases List.mem_append.mp hp with hp | hp
      · exact hw p hp
      · rw [List.mem_singleton.mp hp]
        exact fun _ => hr
    · intro hall
      refine ⟨fun p hp => hall p (List.mem_append_left _ hp), ?_⟩
      exact hall (c, r) (List.mem_append_right _ (List.mem_singleton_self _)) hret

theorem Going.retry (h : Going out w) (hret : r.ret < 0) (hbytes : r.bytes = [])
    (hok : ¬ WriteFails c r) : Going out (w ++ [(c, r)]) := by
  obtain ⟨hrunning, hle, hwhole⟩ := h
  have hsame : accepted (w ++ [(c, r)]) = accepted w := by
    rw [accepted_append, accepted_singleton, hbytes, List.append_nil]
  refine ⟨fun hfails => (failed_append.mp hfails).elim hrunning hok, hsame ▸ hle, ?_⟩
  rw [hsame, hwhole]
  constructor
  · intro hw p hp
    rcases List.mem_append.mp hp with hp | hp
    · exact hw p hp
    · rw [List.mem_singleton.mp hp]
      exact fun hnonneg => absurd hret (Int.not_lt.mpr hnonneg)
  · exact fun hall p hp => hall p (List.mem_append_left _ hp)

theorem Going.done (h : Going msg w) : Reported msg true w :=
  ⟨iff_of_true rfl h.running, fun _ => h.whole⟩

theorem reported_failed (hfails : WriteFails c r) : Reported msg false (w ++ [(c, r)]) :=
  ⟨iff_of_false nofun fun hnone => hnone (failed_append.mpr (Or.inr hfails)), nofun⟩

end Going

abbrev sending : Setting Log Call Reply := logged (fun _ _ => True) fun _ => True

theorem triple_send {buf out : Str} :
    sending.Triple (Going out) (int (.send buf))
      (fun n w => if 0 > n then ∀ msg, Reported msg false w else Going (out ++ buf) w) := by
  refine triple_logged_int (fun _ _ => trivial) fun w r hw hr => ?_
  by_cases hneg : 0 > r.ret
  · rw [if_pos hneg]
    exact fun msg => reported_failed hneg
  · rw [if_neg hneg]
    have hret : 0 ≤ r.ret := by omega
    rcases hr with hr | hr
    · exact absurd hr.1 hneg
    · exact hw.write (c := .send buf) hret hr.2.1 fun hfails => hneg hfails

theorem triple_framed_send {order : Bytes.ByteOrder} {data : Str} :
    sending.Triple (Going []) (SocketUtil.send order data)
      (Reported (order.encode sizeofSizeT data.length ++ data)) := by
  have hfail : ∀ {msg : Str}, sending.Triple (fun w => ∀ msg, Reported msg false w)
      (.ret false) (Reported msg) :=
    fun {msg} => Setting.triple_ret (recorded_stable _) fun _ hw => hw msg
  refine Setting.triple_bind triple_send fun sendLen => ?_
  by_cases hneg : 0 > sendLen
  · simp only [if_pos hneg]
    exact hfail
  · simp only [if_neg hneg]
    refine Setting.triple_bind triple_send fun sendLen => ?_
    by_cases hneg : 0 > sendLen
    · simp only [if_pos hneg]
      exact hfail
    · simp only [if_neg hneg]
      exact Setting.triple_ret (recorded_stable _) fun _ hw => hw.done

theorem triple_unframed_send {data : Str} :
    sending.Triple (Going []) (SocketUtil.unframedSend data) (Reported data) := by
  refine Setting.triple_bind triple_send fun sendLen => ?_
  by_cases hneg : 0 > sendLen
  · simp only [if_pos hneg]
    exact Setting.triple_ret (recorded_stable _) fun _ hw => hw data
  · simp only [if_neg hneg]
    exact Setting.triple_ret (recorded_stable _) fun _ hw => hw.done

theorem triple_ssl_send {side : Side} {msg : Str} :
    sending.Triple (Going []) (sslSendMsg side msg) (Reported msg) := by
  apply triple_logged_sendMsg fun _ _ => trivial
  · intro w r hw hr hretry
    have hneg := wantsRetry_neg hretry
    rcases hr with hr | hr
    · refine hw.retry hneg hr.2 fun hfails => ?_
      have hfinal : wantsRetry r = false := hfails.2
      exact absurd (hretry.symm.trans hfinal) nofun
    · omega
  · intro w r hw hr hretry
    rcases hr with hr | hr
    · rw [decide_eq_false (by omega)]
      exact reported_failed ⟨hr.1, hretry⟩
    · have hret : 0 ≤ r.ret := by omega
      rw [decide_eq_true hret]
      exact (hw.write (c := .sslWrite side msg) hret hr.2.1 fun hfails => by
        exact absurd hfails.1 (by omega)).done

theorem triple_sender {order : Bytes.ByteOrder} (sender : Sender) (data : Str) :
    sending.Triple (Going []) (sender.code order data) (Reported (sender.message order data)) := by
  cases sender with
  | adminSocketUtil | deployerSocketUtil | proxySocketUtil | clientSocketUtil =>
    exact triple_framed_send
  | controllerSocketUtil => exact triple_unframed_send
  | deployerTLSClient | proxyTLSClient | clientTLSClient | controllerTLSServer
  | proxyTLSServer => exact triple_ssl_send

/-- A copy that returns `true` has had all of its message taken, exactly if no write was cut
short; a copy that saw a write fail does not return `true`. -/
theorem reported_send_complete_iff (order : Bytes.ByteOrder) (sender : Sender) (data : Str)
    {t : Config Log Unit Call Reply Bool} (ht : (sender.code order data).RunsTo Possible t)
    {sent : Bool} (hsent : (t.code ()).pending = .returned sent) :
    (sent = true → accepted t.world = sender.message order data) ↔ FailedOrWhole t.world :=
  ((ht.holds (triple_sender sender data) going_nil).returned hsent).whole_iff

theorem whole_message_reported :
    ∃ t, (Sender.code .little .deployerTLSClient (text "ab")).RunsTo Possible t ∧
      (t.code ()).pending = .returned true ∧ accepted t.world = text "ab" := by
  have hafter : (Sender.code .little .deployerTLSClient (text "ab")).after Possible
      [⟨errSslWantWrite, []⟩, ⟨2, text "ab"⟩] = some (.returned true,
        [(.sslWrite .client (text "ab"), ⟨errSslWantWrite, []⟩),
          (.sslWrite .client (text "ab"), ⟨2, text "ab"⟩)]) := by decide
  obtain ⟨t, ht, hp, hw⟩ := Code.runsTo_of_after hafter
  refine ⟨t, ht, hp, ?_⟩
  refine (reported_send_complete_iff .little .deployerTLSClient (text "ab") ht hp).mpr ?_ rfl
  rw [hw]
  exact Or.inr (by decide)

/-- One byte of two is taken and the message counts as sent. -/
theorem partial_write_reported :
    ¬ ∀ order sender data t sent, (Sender.code order sender data).RunsTo Possible t →
      (t.code ()).pending = .returned sent → sent = true →
        accepted t.world = sender.message order data := by
  intro hall
  have hafter : (Sender.code .little .deployerTLSClient (text "ab")).after Possible
      [⟨1, text "a"⟩] = some (.returned true,
        [(.sslWrite .client (text "ab"), ⟨1, text "a"⟩)]) := by decide
  obtain ⟨t, ht, hp, hw⟩ := Code.runsTo_of_after hafter
  have hwhole := hall .little .deployerTLSClient (text "ab") t true ht hp rfl
  rw [hw] at hwhole
  exact absurd hwhole (by decide)

end SGXess
