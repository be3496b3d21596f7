import SGXessControll.TLSServer
import SGXessControll.SocketUtil
import SGXessControll.Managers

/-!
# The accept loops

The loops of the four listener threads, once their sockets are set up.
-/

namespace SGXess

set_option autoImplicit false

open Calls (Code Setting)

variable {W : Type} {S : Setting W Call Reply}

namespace Controller.PolicyListener

def acceptRound : Prog (Unit ⊕ Bool) := do
  if (← TLSServer.acceptClient) = false then
    TLSServer.resetClient
    return .inl ()
  -- The message is handed on whether or not `recvMsg` succeeded.
  let (_, policy) ← TLSServer.recvMsg []
  TLSServer.resetClient
  void (.insertPolicy policy)
  return .inl ()

def runListener : Prog Bool := Code.whileTrue acceptRound

theorem triple_runListener {A : W → Prop} {B : Bool → W → Prop} {Q R : Str → W → Prop}
    (hA : S.Stable A) (haccept : S.Triple A TLSServer.acceptClient B)
    (hdrop : S.Triple (B false) TLSServer.resetClient (fun _ => A))
    (hrecv : S.Triple (B true) (TLSServer.recvMsg []) (fun received => Q received.2))
    (hreset : ∀ policy, S.Triple (Q policy) TLSServer.resetClient (fun _ => R policy))
    (hinsert : ∀ policy, S.Triple (R policy) (void (.insertPolicy policy)) (fun _ => A)) :
    S.Triple A runListener (fun _ _ => False) := by
  refine Setting.triple_whileTrue (fun _ _ _ _ hw => hw) ?_ nofun
  refine Setting.triple_bind haccept fun accepted => ?_
  cases accepted with
  | false => exact Setting.triple_bind hdrop fun _ => Setting.triple_ret hA fun _ hw => hw
  | true =>
    refine Setting.triple_bind hrecv fun received => ?_
    refine Setting.triple_bind (hreset received.2) fun _ => ?_
    exact Setting.triple_bind (hinsert received.2) fun _ => Setting.triple_ret hA fun _ hw => hw

end Controller.PolicyListener

namespace Controller.RequestListener

def serveRound : Prog (Unit ⊕ Bool) := do
  let (received, req) ← TLSServer.recvMsg []
  if received = false then
    if (← TLSServer.acceptClient) = false then
      return .inr false
    return .inl ()
  else if req.isEmpty = true then
    return .inl ()
  let vRet ← int (.validateRequest req)
  let _ ← TLSServer.sendMsg (if vRet ≠ 0 then text "Accept" else text "Deny")
  return .inl ()

def serveLoop : Prog Bool := Code.whileTrue serveRound

def runListener : Prog Bool := do
  if (← TLSServer.acceptClient) = false then
    return false
  serveLoop

/-- `E` holds where `acceptClient` is entered, `B true` at the head of the loop. -/
theorem triple_runListener {E : W → Prop} {B : Bool → W → Prop} {Q : Bool × Str → W → Prop}
    {V : Int → W → Prop} (hB : ∀ accepted, S.Stable (B accepted))
    (haccept : S.Triple E TLSServer.acceptClient B)
    (hrecv : S.Triple (B true) (TLSServer.recvMsg []) Q)
    (hlost : ∀ req w, Q (false, req) w → E w) (hempty : ∀ w, Q (true, []) w → B true w)
    (hvalidate : ∀ req, req ≠ [] → S.Triple (Q (true, req)) (int (.validateRequest req)) V)
    (hsend : ∀ vRet, S.Triple (V vRet)
      (TLSServer.sendMsg (if vRet ≠ 0 then text "Accept" else text "Deny")) (fun _ => B true)) :
    S.Triple E runListener (fun _ => B false) := by
  have hagain : S.Triple (B true) (.ret (.inl ()))
      (Setting.Round (fun _ => B true) fun (_ : Bool) => B false) :=
    Setting.triple_ret (hB true) fun _ hw => hw
  refine Setting.triple_bind haccept fun accepted => ?_
  cases accepted with
  | false => exact Setting.triple_ret (hB false) fun _ hw => hw
  | true =>
    refine Setting.triple_whileTrue (fun _ => hB false) ?_ nofun
    refine Setting.triple_bind hrecv fun received => ?_
    obtain ⟨received, req⟩ := received
    cases received with
    | false =>
      -- Only here the loop is left: by an `acceptClient` that fails behind a failed read.
      refine Setting.triple_bind (haccept.pre (hlost req)) fun accepted => ?_
      cases accepted with
      | false => exact Setting.triple_ret (hB false) fun _ hw => hw
      | true => exact hagain
    | true =>
      by_cases hreq : req = []
      · simp only [hreq, Bool.true_eq_false, List.isEmpty_nil, if_true, if_false]
        exact hagain.pre hempty
      · simp only [hreq, Bool.true_eq_false, List.isEmpty_iff, if_false]
        refine Setting.triple_bind (hvalidate req hreq) fun vRet => ?_
        exact Setting.triple_bind (hsend vRet) fun _ => hagain

end Controller.RequestListener

namespace Deployer

namespace Listener

def getClientConn : Prog Int := do
  let clientSock ← int .accept
  if 0 > clientSock then
    return -1
  return clientSock

end Listener

namespace PolicyListener

def acceptRound (order : Bytes.ByteOrder) : Prog (Unit ⊕ Bool) := do
  let clientSock ← Listener.getClientConn
  if -1 = clientSock then
    return .inr false
  -- What `SocketUtil::recv` returns is not looked at.
  let (_, policy) ← SocketUtil.recv order []
  void (.insertPolicy policy)
  void .close
  return .inl ()

def runListener (order : Bytes.ByteOrder) : Prog Bool := Code.whileTrue (acceptRound order)

end PolicyListener

end Deployer

namespace Proxy

namespace Listener

/-- The socket and the address the kernel wrote for it. -/
def getClientConn : Prog (Int × Str) := do
  let reply ← Code.ask .accept
  if 0 > reply.ret then
    return (-1, reply.bytes)
  return (reply.ret, reply.bytes)

end Listener

namespace ProxyListener

/-- `inet_ntop(AF_INET, ..)`: the bytes of the address in decimal, dots between them. -/
def inetNtop (addr : Str) : Str :=
  List.intercalate (text ".") (addr.map fun b => toStr b.toNat)

/-- `std::string(clientIP, sizeof(clientIP))` of the zeroed `char clientIP[32]`. -/
def clientString (addr : Str) : Str := Bytes.intoArray 0 32 (inetNtop addr)

def acceptRound : Prog (Unit ⊕ Bool) := do
  let (clientSock, addr) ← Listener.getClientConn
  if -1 = clientSock then
    return .inl ()
  void (.insertClient (clientString addr))
  void .close
  return .inl ()

def runListener : Prog Bool := Code.whileTrue acceptRound

theorem triple_runListener {A : W → Prop} {B : Int × Str → W → Prop} (hA : S.Stable A)
    (haccept : S.Triple A Listener.getClientConn B) (hfailed : ∀ addr w, B (-1, addr) w → A w)
    (hinsert : ∀ sock addr, sock ≠ -1 →
      S.Triple (B (sock, addr)) (void (.insertClient (clientString addr))) (fun _ => A))
    (hclose : S.Triple A (void .close) (fun _ => A)) :
    S.Triple A runListener (fun _ _ => False) := by
  have hagain : S.Triple A (.ret (.inl ()))
      (Setting.Round (fun _ => A) fun (_ : Bool) _ => False) :=
    Setting.triple_ret hA fun _ hw => hw
  refine Setting.triple_whileTrue (fun _ _ _ _ hw => hw) ?_ nofun
  refine Setting.triple_bind haccept fun conn => ?_
  obtain ⟨clientSock, addr⟩ := conn
  by_cases hsock : -1 = clientSock
  · simp only [if_pos hsock]
    rw [← hsock]
    exact hagain.pre (hfailed addr)
  · simp only [if_neg hsock]
    refine Setting.triple_bind (hinsert clientSock addr (Ne.symm hsock)) fun _ => ?_
    exact Setting.triple_bind hclose fun _ => hagain

end ProxyListener

namespace Validator

/-- The thread of one client, for the session `Validator::validate` was given. -/
def run : Prog Unit := do
  -- What `recvMsg` returns is not looked at.
  let (_, req) ← TLSServer.recvMsg []
  let ret ← validateRequest req
  let res := if ret = true then text "O" else text "X"
  let _ ← TLSServer.sendMsg res
  void .sslFree

end Validator

end Proxy

end SGXess
