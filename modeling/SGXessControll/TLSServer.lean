import SGXessControll.TLSClient

/-!
# The TLS servers of the Controller and the Proxy

One accepted connection at a time: `m_client` holds its socket, `m_ssl` the session. Both
are reused for the next connection, so `resetClient` has to come between two clients.
-/

namespace SGXess.Controller.TLSServer

set_option autoImplicit false

def resetClient : Prog Unit := do
  void .netFree
  void .sslSessionReset

def acceptClient : Prog Bool := do
  let ret ← int .netAccept
  if ret ≠ 0 then
    return false
  let reply ← retrying (.sslHandshake .server)
  if reply.ret ≠ 0 then
    return false
  return true

/-- A timeout counts as success here, unlike in every other copy. -/
def recvMsg (msg : Str) : Prog (Bool × Str) := sslRecvMsg .server true true msg

def sendMsg (msg : Str) : Prog Bool := sslSendMsg .server msg

section Rules

open Calls

variable {W : Type} {S : Setting W Call Reply} {A H : W → Prop} {B : Bool → W → Prop}

/-- `H` holds while hands are shaken. -/
theorem triple_acceptClient (hA : S.Stable A) (hH : S.Stable H) (hB : ∀ b, S.Stable (B b))
    (hpre : ∀ w, A w → S.pre .netAccept w) (hshake : ∀ w, H w → S.pre (.sslHandshake .server) w)
    (haccept : ∀ w r w', A w → S.answer w .netAccept r w' →
      if r.ret = 0 then H w' else B false w')
    (hagain : ∀ w r w', H w → S.answer w (.sslHandshake .server) r w' →
      wantsRetry r = true → H w')
    (hr : ∀ w r w', H w → S.answer w (.sslHandshake .server) r w' → wantsRetry r = false →
      B (decide (r.ret = 0)) w') :
    S.Triple A acceptClient B := by
  refine Setting.triple_bind (triple_int (B := fun ret w => if ret = 0 then H w else B false w)
    hA (fun _ => Setting.stable_ite hH (hB false)) hpre haccept) fun ret => ?_
  by_cases h0 : ret = 0
  · simp only [h0, ne_eq, not_true_eq_false, if_true, if_false]
    refine Setting.triple_bind (triple_retrying (B := fun r => B (decide (r.ret = 0))) hH
      (fun _ => hB _) hshake hagain hr) fun reply => ?_
    by_cases hret : reply.ret = 0
    · simp only [hret, not_true_eq_false, if_false, decide_true]
      exact Setting.triple_ret (hB true) fun _ hw => hw
    · simp only [hret, not_false_eq_true, if_true, decide_false]
      exact Setting.triple_ret (hB false) fun _ hw => hw
  · simp only [h0, ne_eq, not_false_eq_true, if_true, if_false]
    exact Setting.triple_ret (hB false) fun _ hw => hw

variable {p : Call → Prop} {u : Prop}

theorem only_acceptClient (haccept : p .netAccept) (hshake : p (.sslHandshake .server)) :
    acceptClient.Only p u := by
  refine (only_int haccept).bind fun ret => Code.only_ite trivial ?_
  exact (only_retrying hshake).bind fun reply => Code.only_ite trivial trivial

theorem only_resetClient (hfree : p .netFree) (hreset : p .sslSessionReset) :
    resetClient.Only p u := (only_void hfree).bind fun _ => only_void hreset

end Rules

end SGXess.Controller.TLSServer

namespace SGXess.Proxy.TLSServer

/-- On the session of the server and, in the static overload, on a copy of one. -/
def recvMsg (msg : Str) : Prog (Bool × Str) := sslRecvMsg .server false true msg

def sendMsg (msg : Str) : Prog Bool := sslSendMsg .server msg

end SGXess.Proxy.TLSServer
