import SGXessControll.Calls.Answers
import SGXessControll.Transport
import Mathlib.Tactic.SplitIfs

/-!
# The copies of `recvMsg`

`TLSClient::recvMsg` of the Proxy, the Deployer and the Client under one sequence of results of
`mbedtls_ssl_read`: retry codes first, then the result that ends the loop.
-/

namespace SGXess

set_option autoImplicit false

open Calls

theorem yields_retrying {c : Call} {retries : List Reply} {r : Reply}
    (hretries : ∀ q ∈ retries, wantsRetry q = true) (hr : wantsRetry r = false) :
    (retrying c).Yields (retries ++ [r]) r := Code.yields_doWhile hretries hr

theorem yields_sslRecvMsg {side : Side} {onTimeout appends : Bool} {msg : Str}
    {retries : List Reply} {r : Reply} (hretries : ∀ q ∈ retries, wantsRetry q = true)
    (hr : wantsRetry r = false) (hlen : r.bytes.length ≤ 1023) :
    (sslRecvMsg side onTimeout appends msg).Yields (retries ++ [r])
      (received onTimeout appends msg r) := by
  rw [← List.append_nil (retries ++ [r])]
  refine (yields_retrying hretries hr).bind ?_
  unfold received
  by_cases ht : r.ret = errSslTimeout
  · have hret : r.ret ≤ 0 ∧ r.ret = errSslTimeout := ⟨by rw [ht]; decide, ht⟩
    rw [if_pos hret, if_pos ht]
    exact Code.yields_ret.mpr rfl
  · rw [if_neg (fun h => ht h.2), if_neg ht]
    split
    · exact Code.yields_ret.mpr rfl
    · cases appends with
      | false => exact Code.yields_ret.mpr rfl
      | true =>
        rw [appendBuffer_of_lt (by omega)]
        exact Code.yields_ret.mpr rfl

namespace Copies

inductive Copy where
  | proxy
  | deployer
  | client
  deriving DecidableEq

namespace Copy

def recvMsg : Copy → Str → Prog (Bool × Str)
  | proxy => Proxy.TLSClient.recvMsg
  | deployer => Deployer.TLSClient.recvMsg
  | client => Client.TLSClient.recvMsg

/-- The final `msg.append(buf)` stands in one copy only. -/
def appends : Copy → Bool
  | proxy => true
  | deployer | client => false

theorem recvMsg_eq (copy : Copy) (msg : Str) :
    copy.recvMsg msg = sslRecvMsg .client false copy.appends msg := by cases copy <;> rfl

end Copy

variable {msg : Str} {retries : List Reply} {r : Reply} {copy : Copy}

theorem yields_recvMsg (hretries : ∀ q ∈ retries, wantsRetry q = true) (hr : wantsRetry r = false)
    (hpossible : Possible (.sslRead .client 1023) r) (copy : Copy) :
    (copy.recvMsg msg).Yields (retries ++ [r]) (received false copy.appends msg r) := by
  rw [copy.recvMsg_eq]
  exact yields_sslRecvMsg hretries hr (possible_sslRead hpossible).1

theorem received_of_empty (msg : Str) (hbytes : r.bytes = []) :
    ∃ b, ∀ appends, received false appends msg r = (b, msg) := by
  unfold received
  rw [hbytes, List.takeWhile_nil, List.append_nil]
  split
  · exact ⟨false, fun _ => rfl⟩
  · split
    · exact ⟨false, fun _ => rfl⟩
    · exact ⟨true, fun appends => by rw [ite_self]⟩

/-- Without the `append` nothing but the result tells that data came. -/
theorem received_snd_deployer : (received false false msg r).2 = msg := by
  unfold received
  rw [if_neg Bool.false_ne_true]
  split_ifs <;> rfl

/-- The copies agree, and on what was received, where nothing was received. -/
theorem recvMsg_copies_agree_iff (msg : Str) (retries : List Reply) (r : Reply)
    (hretries : ∀ q ∈ retries, wantsRetry q = true) (hr : wantsRetry r = false)
    (hpossible : Possible (.sslRead .client 1023) r) :
    (∃ b, ∀ copy : Copy, (copy.recvMsg msg).Yields (retries ++ [r]) (b, msg ++ r.bytes)) ↔
      r.bytes = [] := by
  constructor
  · intro h
    obtain ⟨b, hyields⟩ := h
    have hpair := (hyields .deployer).unique (yields_recvMsg hretries hr hpossible .deployer)
    have hmsg : msg ++ r.bytes = msg := (congrArg Prod.snd hpair).trans received_snd_deployer
    exact List.append_right_eq_self.mp hmsg
  · intro hbytes
    obtain ⟨b, hreceived⟩ := received_of_empty msg hbytes
    refine ⟨b, fun copy => ?_⟩
    rw [hbytes, List.append_nil, ← hreceived copy.appends]
    exact yields_recvMsg hretries hr hpossible copy

/-- A timeout after a retry leaves `msg` as it was, in every copy. -/
theorem timeout_copies_agree : ∃ b, ∀ copy : Copy,
    (copy.recvMsg (text "a")).Yields ([⟨errSslWantRead, []⟩] ++ [⟨errSslTimeout, []⟩])
      (b, text "a" ++ []) :=
  (recvMsg_copies_agree_iff (text "a") [⟨errSslWantRead, []⟩] ⟨errSslTimeout, []⟩ (by decide)
    (by decide) (by decide)).mpr rfl

/-- One received byte is lost by two of the copies, which report success. -/
theorem received_byte_dropped : ¬ ∀ (msg : Str) (retries : List Reply) (r : Reply),
    (∀ q ∈ retries, wantsRetry q = true) → wantsRetry r = false →
    Possible (.sslRead .client 1023) r →
    ∃ b, ∀ copy : Copy, (copy.recvMsg msg).Yields (retries ++ [r]) (b, msg ++ r.bytes) := by
  intro hall
  obtain ⟨b, hyields⟩ := hall [] [] ⟨1, text "a"⟩ (by decide) (by decide) (by decide)
  have hpair := (hyields .client).unique
    (yields_recvMsg (r := ⟨1, text "a"⟩) (by decide) (by decide) (by decide) .client)
  cases congrArg Prod.snd hpair

end Copies

end SGXess
