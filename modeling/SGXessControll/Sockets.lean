import SGXessControll.Calls.Expand
import SGXessControll.Calls.Handles
import SGXessControll.Listeners
import SGXessControll.SocketUtil

/-!
# The descriptors of the plain sockets

The listeners of the Deployer and the Proxy and the senders of the Admin tool and the Client
with the descriptors they work on: from `::socket` to `::close`, over any number of clients.
-/

namespace SGXess.Sockets

set_option autoImplicit false

open Calls (Code Setting Handles Machine Config solo)

inductive SocketCall where
  | socket
  | setsockopt (fd : Int)
  | bind (fd : Int) (port : Nat)
  | listen (fd : Int) (backlog : Nat)
  | accept (fd : Int)
  | connect (fd : Int) (IP : Str) (port : Nat)
  | recv (fd : Int) (len : Nat)
  | send (fd : Int) (buf : Str)
  | close (fd : Int)
  | other (c : Call)
  deriving DecidableEq

abbrev Sock := Code SocketCall Reply

def int (c : SocketCall) : Sock Int := do
  let r ← Code.ask c
  return r.ret

def void (c : SocketCall) : Sock Unit := do
  let _ ← Code.ask c

/-- The code of `SocketUtil` on the descriptor it is given. -/
def on (fd : Int) : Call → SocketCall
  | .recv len => .recv fd len
  | .send buf => .send fd buf
  | c => .other c

/-- `Listener` of the Deployer and of the Proxy, which differ in what they print. -/
def listenerInit (port : Nat) : Sock (Bool × Int) := do
  let m_sock ← int .socket
  if 0 > m_sock then
    return (false, m_sock)
  -- The result is not kept: `ret` is still 1 where it is tested.
  void (.setsockopt m_sock)
  let ret ← int (.bind m_sock port)
  if 0 > ret then
    return (false, m_sock)
  let ret ← int (.listen m_sock 5)
  if 0 > ret then
    return (false, m_sock)
  return (true, m_sock)

namespace Deployer

namespace Listener

def init (port : Nat) : Sock (Bool × Int) := listenerInit port

/-- `~Listener`, which closes whatever `m_sock` is. -/
def destroy (m_sock : Int) : Sock Unit := void (.close m_sock)

def getClientConn (m_sock : Int) : Sock Int := do
  let clientSock ← int (.accept m_sock)
  if 0 > clientSock then
    return -1
  return clientSock

def deleteClientConn (clientSock : Int) : Sock Unit := void (.close clientSock)

end Listener

namespace PolicyListener

def acceptRound (order : Bytes.ByteOrder) (m_sock : Int) : Sock (Unit ⊕ Bool) := do
  let clientSock ← Listener.getClientConn m_sock
  if -1 = clientSock then
    return .inr false
  let (_, policy) ← (SocketUtil.recv order []).embed (on clientSock)
  void (.other (.insertPolicy policy))
  Listener.deleteClientConn clientSock
  return .inl ()

def runListener (order : Bytes.ByteOrder) (m_sock : Int) : Sock Bool :=
  Code.whileTrue (acceptRound order m_sock)

/-- The thread, for the manager it is given. -/
def run (order : Bytes.ByteOrder) : Sock Unit := do
  let (ready, m_sock) ← Listener.init 30005
  if ready = false then
    Listener.destroy m_sock
    return
  let _ ← runListener order m_sock
  Listener.destroy m_sock

end PolicyListener

end Deployer

namespace Proxy

namespace Listener

def init (port : Nat) : Sock (Bool × Int) := listenerInit port

def destroy (m_sock : Int) : Sock Unit := void (.close m_sock)

def getClientConn (m_sock : Int) : Sock (Int × Str) := do
  let reply ← Code.ask (.accept m_sock)
  if 0 > reply.ret then
    return (-1, reply.bytes)
  return (reply.ret, reply.bytes)

def deleteClientConn (clientSock : Int) : Sock Unit := void (.close clientSock)

end Listener

namespace ProxyListener

open SGXess.Proxy.ProxyListener (clientString)

def acceptRound (m_sock : Int) : Sock (Unit ⊕ Bool) := do
  let (clientSock, addr) ← Listener.getClientConn m_sock
  if -1 = clientSock then
    return .inl ()
  void (.other (.insertClient (clientString addr)))
  Listener.deleteClientConn clientSock
  return .inl ()

def runListener (m_sock : Int) : Sock Bool := Code.whileTrue (acceptRound m_sock)

def run : Sock Unit := do
  let (ready, m_sock) ← Listener.init 30020
  if ready = false then
    Listener.destroy m_sock
    return
  let _ ← runListener m_sock
  Listener.destroy m_sock

end ProxyListener

end Proxy

/-- `destroyConnection` of both `PolicyDeployer`s. -/
def destroyConnection (conn : Int) : Sock Unit := do
  if 0 ≠ conn then
    void (.close conn)

/-- What both do in `setConnection`. As `unsigned int` and back, `conn` stays the same. -/
def connectTo (IP : Str) (port : Nat) : Sock Int := do
  let conn ← int .socket
  let ret ← int (.connect conn IP port)
  if 0 ≠ ret then
    destroyConnection conn
    return 0
  return conn

namespace Deployer.PolicyDeployer

def setConnection (IP : Str) (port : Nat) : Sock Int := connectTo IP port

end Deployer.PolicyDeployer

namespace Admin

namespace PolicyDeployer

/-- The address is fixed whatever `IP` is. -/
def setConnection (_IP : Str) (port : Nat) : Sock Int := connectTo (text "192.168.0.5") port

def deployPolicy (order : Bytes.ByteOrder) (policy IP : Str) (port : Nat) : Sock Bool := do
  let conn ← setConnection IP port
  if 0 = conn then
    return false
  if (← (SocketUtil.send order policy).embed (on conn)) = false then
    return false
  destroyConnection conn
  return true

end PolicyDeployer

end Admin

namespace Client

/-- `main` of the Client. -/
def main (order : Bytes.ByteOrder) : Sock Int := do
  let conn ← int .socket
  let ret ← int (.connect conn (text "192.168.0.5") 30020)
  if 0 ≠ ret then
    void (.close conn)
    return 0
  let msg := text "gramine-ratls test message sended to proxy blahblahblah~\n"
  let _ ← (SocketUtil.send order msg).embed (on conn)
  void (.close conn)
  return 0

end Client

/-- The call without its descriptor; setting a socket up is left out. -/
def erase : SocketCall → Prog Reply
  | .accept _ => .ask .accept
  | .recv _ len => .ask (.recv len)
  | .send _ buf => .ask (.send buf)
  | .close _ => .ask .close
  | .other c => .ask c
  | .socket | .setsockopt _ | .bind _ _ | .listen _ _ | .connect _ _ _ => .ret ⟨0, []⟩

theorem erase_on (fd : Int) (c : Call) : erase (on fd c) = .ask c := by
  cases c <;> rfl

theorem erase_proxy_round (m_sock : Int) :
    (Proxy.ProxyListener.acceptRound m_sock).expand erase =
      SGXess.Proxy.ProxyListener.acceptRound := by
  refine Code.expand_bind_eq (Code.expand_bind_eq rfl fun r => Code.expand_ite) fun conn => ?_
  obtain ⟨clientSock, addr⟩ := conn
  refine Code.expand_ite.trans (if_congr Iff.rfl rfl ?_)
  exact Code.expand_bind_eq rfl fun _ => Code.expand_bind_eq rfl fun _ => rfl

theorem erase_deployer_round (order : Bytes.ByteOrder) (m_sock : Int) :
    (Deployer.PolicyListener.acceptRound order m_sock).expand erase =
      SGXess.Deployer.PolicyListener.acceptRound order := by
  refine Code.expand_bind_eq (Code.expand_bind_eq rfl fun r => Code.expand_ite) fun clientSock => ?_
  refine Code.expand_ite.trans (if_congr Iff.rfl rfl ?_)
  refine Code.expand_bind_eq (Code.expand_embed (erase_on clientSock) _) fun received => ?_
  exact Code.expand_bind_eq rfl fun _ => Code.expand_bind_eq rfl fun _ => rfl

/-- Without their descriptors these are the loops of the listeners. -/
theorem erase_loops (order : Bytes.ByteOrder) (m_sock : Int) :
    (Deployer.PolicyListener.runListener order m_sock).expand erase =
        SGXess.Deployer.PolicyListener.runListener order ∧
      (Proxy.ProxyListener.runListener m_sock).expand erase =
        SGXess.Proxy.ProxyListener.runListener := by
  constructor
  · exact congrArg Code.whileTrue (erase_deployer_round order m_sock)
  · exact congrArg Code.whileTrue (erase_proxy_round m_sock)

/-- The descriptor a call is about. -/
def named : SocketCall → Option Int
  | .setsockopt fd | .bind fd _ | .listen fd _ | .accept fd | .connect fd _ _ | .recv fd _
  | .send fd _ | .close fd => some fd
  | .socket | .other _ => none

/-- No descriptor is negative. -/
def handles : Handles SocketCall Reply Int where
  opened c r :=
    match c with
    | .socket | .accept _ => if 0 > r.ret then none else some r.ret
    | _ => none
  needs c := (named c).filter (0 ≤ ·)
  closes
    | .close _ => true
    | _ => false

/-- Every call is about an open descriptor, but for the `::close` of what a failed `::socket`
returned, when none is open. A socket is made before any, and at `::accept` only it is open. -/
structure Tidy (c : SocketCall) (live : Finset Int) : Prop where
  named : ∀ fd, named c = some fd → fd ∈ live ∨ c = .close fd ∧ fd < 0 ∧ live = ∅
  socket : c = .socket → live = ∅
  accept : ∀ fd, c = .accept fd → live = {fd}

/-- `m_sock` is the listening socket, or what a failed `::socket` returned. -/
def Holds (m_sock : Int) (live : Finset Int) : Prop :=
  0 ≤ m_sock ∧ live = {m_sock} ∨ m_sock < 0 ∧ live = ∅

section Triples

variable {live : Finset Int} {c : SocketCall} {fd m_sock : Int}

abbrev tidy : Setting (Finset Int) SocketCall Reply := handles.contract Tidy

/-- A call that opens and closes nothing. -/
theorem triple_void (ho : ∀ r, handles.opened c r = none) (hc : handles.closes c = false)
    (htidy : Tidy c live) : tidy.Triple (· = live) (void c) (fun _ => (· = live)) := by
  refine Setting.triple_bind (Handles.triple_ask (B := fun _ => (· = live)) htidy
    fun r live' hr => Handles.respond_kept (ho r) hc hr) fun _ => ?_
  exact Setting.triple_ret (Handles.stable _) fun _ hw => hw

theorem triple_int (ho : ∀ r, handles.opened c r = none) (hc : handles.closes c = false)
    (htidy : Tidy c live) : tidy.Triple (· = live) (int c) (fun _ => (· = live)) := by
  refine Setting.triple_bind (Handles.triple_ask (B := fun _ => (· = live)) htidy
    fun r live' hr => Handles.respond_kept (ho r) hc hr) fun _ => ?_
  exact Setting.triple_ret (Handles.stable _) fun _ hw => hw

theorem triple_close (hfd : fd ∈ live) (hpos : 0 ≤ fd) :
    tidy.Triple (· = live) (void (.close fd)) (fun _ => (· = live.erase fd)) := by
  have htidy : Tidy (.close fd) live :=
    ⟨fun fd' h => .inl (Option.some.inj h ▸ hfd), nofun, nofun⟩
  have hneeds : handles.needs (.close fd) = some fd := by
    simp [handles, named, hpos]
  refine Setting.triple_bind (Handles.triple_ask (B := fun _ => (· = live.erase fd)) htidy
    fun r live' hr => Handles.respond_closed rfl hneeds rfl hr) fun _ => ?_
  exact Setting.triple_ret (Handles.stable _) fun _ hw => hw

theorem triple_destroy :
    tidy.Triple (Holds m_sock) (void (.close m_sock)) (fun _ => (· = ∅)) := by
  intro live hheld
  rcases hheld with ⟨hpos, hlive⟩ | ⟨hneg, hlive⟩
  · refine ((triple_close (by simp) hpos).post fun _ live' h => ?_) live hlive
    rw [h, Finset.erase_singleton]
  · have htidy : Tidy (.close m_sock) ∅ :=
      ⟨fun fd h => .inr (Option.some.inj h ▸ ⟨rfl, hneg, rfl⟩), nofun, nofun⟩
    have hneeds : handles.needs (.close m_sock) = none := by
      simp [handles, named, hneg]
    refine Setting.triple_bind (Handles.triple_ask (B := fun _ => (· = ∅)) htidy
      fun r live' hr => Handles.respond_idle rfl hneeds hr) (fun _ => ?_) live hlive
    exact Setting.triple_ret (Handles.stable _) fun _ hw => hw

theorem tidy_open (hc : named c = some m_sock) (hs : c ≠ .socket) :
    Tidy c {m_sock} := by
  refine ⟨fun fd h => .inl ?_, fun h => absurd h hs, fun fd h => ?_⟩
  · rw [hc] at h
    cases h
    exact Finset.mem_singleton_self _
  · rw [h] at hc
    cases hc
    rfl

/-- A call that may open a descriptor, while `live` are open. -/
theorem triple_opening (ho : ∀ r, handles.opened c r = if 0 > r.ret then none else some r.ret)
    (hc : handles.closes c = false) (htidy : Tidy c live) :
    tidy.Triple (· = live) (Code.ask c) (fun r live' => if 0 > r.ret then live' = live
      else r.ret ∉ live ∧ live' = insert r.ret live) := by
  refine Handles.triple_ask htidy fun r live' hr => ?_
  by_cases hneg : 0 > r.ret
  · rw [if_pos hneg]
    exact Handles.respond_kept (by rw [ho, if_pos hneg]) hc hr
  · rw [if_neg hneg]
    exact Handles.respond_opened (by rw [ho, if_neg hneg]) hr

/-- After `listenerInit` has been left early the socket is still there. -/
theorem triple_listenerInit (port : Nat) : tidy.Triple (· = ∅) (listenerInit port)
    (fun conn live => Holds conn.2 live ∧ (conn.1 = true → 0 ≤ conn.2)) := by
  have htidy : Tidy .socket ∅ := ⟨nofun, fun _ => rfl, nofun⟩
  have hsocket := triple_opening (fun _ => rfl) rfl htidy
  refine Setting.triple_bind (Setting.triple_bind (Ψ := fun ret live => if 0 > ret then live = ∅
    else ret ∉ (∅ : Finset Int) ∧ live = insert ret ∅) hsocket fun r =>
      Setting.triple_ret (Handles.stable _) fun _ hw => hw) fun m_sock => ?_
  by_cases hneg : 0 > m_sock
  · rw [if_pos hneg]
    refine Setting.triple_ret (Handles.stable _) fun live hlive => ⟨.inr ⟨hneg, ?_⟩, nofun⟩
    rwa [if_pos hneg] at hlive
  · rw [if_neg hneg]
    have hpos : 0 ≤ m_sock := not_lt.mp hneg
    have hheld : ∀ b, tidy.Triple (· = {m_sock}) (.ret (b, m_sock))
        (fun conn live => Holds conn.2 live ∧ (conn.1 = true → 0 ≤ conn.2)) :=
      fun b => Setting.triple_ret (Handles.stable _) fun live hlive =>
        ⟨.inl ⟨hpos, hlive⟩, fun _ => hpos⟩
    have hopen : ∀ {c}, named c = some m_sock → c ≠ .socket → (∀ r, handles.opened c r = none) →
        handles.closes c = false → tidy.Triple (· = {m_sock}) (int c) (fun _ => (· = {m_sock})) :=
      fun hc hs ho hclose => triple_int ho hclose (tidy_open hc hs)
    refine Setting.Triple.pre (A := (· = {m_sock})) ?_ fun live hlive => by
      rw [if_neg hneg] at hlive
      exact hlive.2
    refine Setting.triple_bind (triple_void (fun _ => rfl) rfl
      (tidy_open (c := .setsockopt m_sock) rfl nofun)) fun _ => ?_
    refine Setting.triple_bind (hopen (c := .bind m_sock port) rfl nofun (fun _ => rfl) rfl)
      fun ret => ?_
    by_cases hret : 0 > ret
    · rw [if_pos hret]
      exact hheld false
    · rw [if_neg hret]
      refine Setting.triple_bind (hopen (c := .listen m_sock 5) rfl nofun (fun _ => rfl) rfl)
        fun ret => ?_
      by_cases hret : 0 > ret
      · rw [if_pos hret]
        exact hheld false
      · rw [if_neg hret]
        exact hheld true

/-- What is open once `::accept` returned, -1 for no client. -/
def Serving (m_sock clientSock : Int) (live : Finset Int) : Prop :=
  if -1 = clientSock then live = {m_sock}
  else 0 ≤ clientSock ∧ clientSock ∉ ({m_sock} : Finset Int) ∧ live = insert clientSock {m_sock}

theorem triple_accept : tidy.Triple (· = {m_sock}) (Code.ask (.accept m_sock))
    (fun r => Serving m_sock (if 0 > r.ret then -1 else r.ret)) := by
  refine (triple_opening (c := .accept m_sock) (fun _ => rfl) rfl (tidy_open rfl nofun)).post
    fun r live hlive => ?_
  by_cases hneg : 0 > r.ret
  · rw [if_pos hneg] at hlive ⊢
    exact (if_pos rfl).mpr hlive
  · rw [if_neg hneg] at hlive ⊢
    exact (if_neg (by omega)).mpr ⟨not_lt.mp hneg, hlive⟩

/-- With the string handed on, the client's descriptor is given back. -/
theorem triple_serve {clientSock : Int} {handOn : Call}
    (hnew : clientSock ∉ ({m_sock} : Finset Int)) (hpos : 0 ≤ clientSock) :
    tidy.Triple (· = insert clientSock {m_sock}) (do
      void (.other handOn)
      void (.close clientSock)
      return (.inl () : Unit ⊕ Bool))
      (Setting.Round (fun _ => (· = {m_sock})) fun _ => (· = {m_sock})) := by
  refine Setting.triple_bind (triple_void (fun _ => rfl) rfl ⟨nofun, nofun, nofun⟩) fun _ => ?_
  refine Setting.triple_bind (triple_close (Finset.mem_insert_self _ _) hpos) fun _ => ?_
  refine Setting.triple_ret (Handles.stable _) fun live hlive => ?_
  rw [hlive, Finset.erase_insert hnew]
  rfl

theorem only_recv (order : Bytes.ByteOrder) (data : Str) :
    (SocketUtil.recv order data).Only (fun c => ∃ len, c = .recv len) True := by
  refine (Code.only_ask ⟨_, rfl⟩).bind fun reply => ⟨fun b => ?_, SocketUtil.recvRound_waits,
    fun _ => trivial⟩
  refine Code.only_ite ((Code.only_ask ⟨_, rfl⟩).bind fun r => Code.only_ite trivial ?_) trivial
  refine Code.Only.bind ?_ fun _ => trivial
  unfold appendBuffer
  split <;> exact trivial

/-- Receiving leaves the descriptors as they are. -/
theorem triple_recv (order : Bytes.ByteOrder) {data : Str} (hfd : fd ∈ live) :
    tidy.Triple (· = live) ((SocketUtil.recv order data).embed (on fd)) (fun _ => (· = live)) := by
  refine Handles.triple_kept ((only_recv order data).expand (fun _ => rfl) (u := True) ?_)
  rintro c ⟨len, rfl⟩
  refine Code.only_ask ⟨fun _ => rfl, rfl, fun fd' h => .inl ?_, nofun, nofun⟩
  exact Option.some.inj h ▸ hfd

theorem triple_deployer_getClientConn :
    tidy.Triple (· = {m_sock}) (Deployer.Listener.getClientConn m_sock) (Serving m_sock) := by
  refine Setting.triple_bind (Setting.triple_bind (Ψ := fun ret => Serving m_sock
    (if 0 > ret then -1 else ret)) triple_accept fun r =>
      Setting.triple_ret (Handles.stable _) fun _ hw => hw) fun clientSock => ?_
  by_cases hneg : 0 > clientSock
  · rw [if_pos hneg, if_pos hneg]
    exact Setting.triple_ret (Handles.stable _) fun _ hw => hw
  · rw [if_neg hneg, if_neg hneg]
    exact Setting.triple_ret (Handles.stable _) fun _ hw => hw

theorem triple_proxy_getClientConn : tidy.Triple (· = {m_sock})
    (Proxy.Listener.getClientConn m_sock) (fun conn => Serving m_sock conn.1) := by
  refine Setting.triple_bind triple_accept fun r => ?_
  by_cases hneg : 0 > r.ret
  · rw [if_pos hneg, if_pos hneg]
    exact Setting.triple_ret (Handles.stable _) fun _ hw => hw
  · rw [if_neg hneg, if_neg hneg]
    exact Setting.triple_ret (Handles.stable _) fun _ hw => hw

theorem triple_deployer_runListener (order : Bytes.ByteOrder) : tidy.Triple (· = {m_sock})
    (Deployer.PolicyListener.runListener order m_sock) (fun _ => (· = {m_sock})) := by
  refine Setting.triple_whileTrue (fun _ => Handles.stable _) ?_ nofun
  refine Setting.triple_bind triple_deployer_getClientConn fun clientSock => ?_
  by_cases hnone : -1 = clientSock
  · rw [if_pos hnone]
    exact Setting.triple_ret (Handles.stable _) fun _ hw => (if_pos hnone).mp hw
  · rw [if_neg hnone]
    intro live hlive
    obtain ⟨hpos, hnew, hlive⟩ := (if_neg hnone).mp hlive
    refine Setting.triple_bind (triple_recv order (Finset.mem_insert_self _ _)) (fun received => ?_)
      live hlive
    exact triple_serve hnew hpos

theorem triple_proxy_runListener : tidy.Triple (· = {m_sock})
    (Proxy.ProxyListener.runListener m_sock) (fun _ => (· = {m_sock})) := by
  refine Setting.triple_whileTrue (fun _ => Handles.stable _) ?_ nofun
  refine Setting.triple_bind triple_proxy_getClientConn fun conn => ?_
  obtain ⟨clientSock, addr⟩ := conn
  dsimp only
  by_cases hnone : -1 = clientSock
  · rw [if_pos hnone]
    exact Setting.triple_ret (Handles.stable _) fun _ hw => (if_pos hnone).mp hw
  · rw [if_neg hnone]
    intro live hlive
    obtain ⟨hpos, hnew, hlive⟩ := (if_neg hnone).mp hlive
    exact triple_serve hnew hpos live hlive

/-- A thread that sets its listener up, runs a loop on it and destroys it. -/
theorem triple_run {port : Nat} {loop : Int → Sock Bool}
    (hloop : ∀ m_sock, tidy.Triple (· = {m_sock}) (loop m_sock) (fun _ => (· = {m_sock}))) :
    tidy.Triple (· = ∅) (do
      let (ready, m_sock) ← listenerInit port
      if ready = false then
        void (.close m_sock)
        return
      let _ ← loop m_sock
      void (.close m_sock)) (fun _ => (· = ∅)) := by
  refine Setting.triple_bind (triple_listenerInit port) fun conn => ?_
  obtain ⟨ready, m_sock⟩ := conn
  cases ready with
  | false =>
    refine Setting.Triple.pre (A := Holds m_sock) ?_ fun _ hw => hw.1
    exact Setting.triple_bind triple_destroy fun _ =>
      Setting.triple_ret (Handles.stable _) fun _ hw => hw
  | true =>
    intro live hlive
    obtain ⟨hheld, hready⟩ := hlive
    have hpos : 0 ≤ m_sock := hready rfl
    have hopen : live = {m_sock} := by
      rcases hheld with h | h
      · exact h.2
      · exact absurd h.1 (not_lt.mpr hpos)
    exact Setting.triple_bind (hloop m_sock) (fun _ =>
      triple_destroy.pre fun _ hw => .inl ⟨hpos, hw⟩) live hopen

end Triples

/-- In every run of the thread its calls are tidy, two descriptors at most are open, and none is
where it has ended. A run that leaves its buffer in `data.append` ends there, with what is open
then. -/
def KeepsTidy (thread : Sock Unit) : Prop :=
  ∀ t, handles.machine.Reaches Machine.any (solo thread ∅) t →
    (∀ c, (t.code ()).pending = .calling c → Tidy c t.world) ∧ t.world.card ≤ 2 ∧
      ((t.code ()).pending = .returned () → t.world = ∅)

theorem keepsTidy_of_triple {thread : Sock Unit}
    (h : tidy.Triple (· = ∅) thread (fun _ => (· = ∅))) : KeepsTidy thread := by
  intro t ht
  refine ⟨fun c hc => (ht.alone h rfl).pre hc, ?_, fun hret => (ht.alone h rfl).returned hret⟩
  refine ht.invariant_alone (P := fun live => live.card ≤ 2) h rfl (by decide) ?_
    fun _ e => nomatch e
  intro live c r live' hle htidy hanswer _
  have hr : handles.respond live () c r = some live' := hanswer
  cases c with
  | socket =>
    have hcard := Handles.card_respond hr
    rw [htidy.socket rfl] at hcard
    exact hcard.trans (by decide)
  | accept fd =>
    have hcard := Handles.card_respond hr
    rw [htidy.accept fd rfl] at hcard
    exact hcard
  | _ => exact (Handles.card_respond_le (r := r) rfl hr).trans hle

/-- However many clients come, and whatever fails, the listeners leak no descriptor and close none
twice, the Deployer's for as long as `SocketUtil::recv` stays in its buffer. -/
theorem listeners_keep_tidy (order : Bytes.ByteOrder) :
    KeepsTidy (Deployer.PolicyListener.run order) ∧ KeepsTidy Proxy.ProxyListener.run :=
  ⟨keepsTidy_of_triple (triple_run fun _ => triple_deployer_runListener order),
    keepsTidy_of_triple (triple_run fun _ => triple_proxy_runListener)⟩

section Senders

open Admin.PolicyDeployer

/-- A connection is made. -/
def connects (c : SocketCall) (r : Reply) : Prop :=
  match c with
  | .connect _ _ _ => r.ret = 0
  | _ => False

instance : DecidableRel connects := fun c r => by
  cases c <;> unfold connects <;> infer_instance

/-- Every call is about an open descriptor or what a failed `::socket` returned. -/
def Named (c : SocketCall) (live : Finset Int) : Prop :=
  ∀ fd, named c = some fd → fd ∈ live ∨ fd < 0

/-- Standard input, output and error output. -/
def standard : Finset Int := {0, 1, 2}

variable {conn : Int} {c : SocketCall} {w : Finset Int × Bool} {connected : Bool}

/-- Nothing connects through a descriptor that is not there. -/
def Possible (w : Finset Int × Bool) (_ : Unit) (c : SocketCall) (r : Reply) : Prop :=
  connects c r → handles.Live c w.1 ∧ ∀ fd, named c = some fd → 0 ≤ fd

/-- The ledger, and whether a connection has been made. -/
abbrev sender : Setting (Finset Int × Bool) SocketCall Reply :=
  (handles.machine.watch connects).alone Possible (fun c w => Named c w.1) fun _ => True

theorem stable_sender (A : Finset Int × Bool → Prop) : sender.Stable A :=
  Machine.stable_alone fun _ e => nomatch e

theorem triple_sender_ask {B : Reply → Finset Int × Bool → Prop} (hnamed : Named c w.1)
    (hr : ∀ r live, handles.respond w.1 () c r = some live → Possible w () c r →
      B r (live, w.2 || decide (connects c r))) : sender.Triple (· = w) (Code.ask c) B := by
  apply Setting.triple_ask (stable_sender _) (fun _ => stable_sender _)
  · rintro _ rfl
    exact hnamed
  · rintro w' r ⟨live, flag⟩ hw ⟨hanswer, hpossible⟩
    obtain ⟨hlive, hflag⟩ := Machine.respond_watch hanswer
    rw [hw] at hlive hflag hpossible
    have heq : (live, flag) = (live, w.2 || decide (connects c r)) := congrArg (live, ·) hflag
    rw [heq]
    exact hr r live hlive hpossible

/-- What is open when `::socket` has returned `conn`. -/
def owned (conn : Int) : Finset Int := if 0 > conn then standard else insert conn standard

theorem named_owned (hc : named c = some conn) : Named c (owned conn) := by
  intro fd hfd
  rw [hc] at hfd
  cases hfd
  by_cases hneg : 0 > conn
  · exact .inr hneg
  · left
    rw [owned, if_neg hneg]
    exact Finset.mem_insert_self _ _

theorem triple_sender_socket : sender.Triple (· = (standard, false)) (int .socket)
    (fun conn w => conn ∉ standard ∧ w = (owned conn, false)) := by
  refine Setting.triple_bind (triple_sender_ask (B := fun r w => r.ret ∉ standard ∧
    w = (owned r.ret, false)) (w := (standard, false)) nofun fun r live hr _ => ?_) fun r =>
      Setting.triple_ret (stable_sender _) fun _ hw => hw
  by_cases hneg : 0 > r.ret
  · have hlive := Handles.respond_kept (if_pos hneg) rfl hr
    refine ⟨fun hmem => ?_, by rw [hlive, owned, if_pos hneg]; rfl⟩
    simp only [standard, Finset.mem_insert, Finset.mem_singleton] at hmem
    omega
  · obtain ⟨hnew, hlive⟩ := Handles.respond_opened (if_neg hneg) hr
    exact ⟨hnew, by rw [hlive, owned, if_neg hneg]; rfl⟩

theorem triple_sender_connect {IP : Str} {port : Nat} :
    sender.Triple (· = (owned conn, false)) (int (.connect conn IP port))
      (fun ret w => w = (owned conn, decide (ret = 0)) ∧ (ret = 0 → 0 ≤ conn)) := by
  refine Setting.triple_bind (triple_sender_ask (B := fun r w =>
    w = (owned conn, decide (r.ret = 0)) ∧ (r.ret = 0 → 0 ≤ conn)) (w := (owned conn, false))
      (named_owned rfl) fun r live hr hpossible => ?_) fun r =>
        Setting.triple_ret (stable_sender _) fun _ hw => hw
  refine ⟨?_, fun hret => (hpossible hret).2 conn rfl⟩
  have hflag : decide (connects (.connect conn IP port) r) = decide (r.ret = 0) :=
    decide_eq_decide.mpr Iff.rfl
  rw [Handles.respond_kept (r := r) rfl rfl hr, hflag, Bool.false_or]

theorem triple_sender_close (hnew : conn ∉ standard) :
    sender.Triple (· = (owned conn, connected)) (void (.close conn))
      (fun _ => (· = (standard, connected))) := by
  refine Setting.triple_bind (triple_sender_ask (B := fun _ => (· = (standard, connected)))
    (w := (owned conn, connected)) (named_owned rfl) fun r live hr _ => ?_) fun _ =>
      Setting.triple_ret (stable_sender _) fun _ hw => hw
  have hflag : decide (connects (.close conn) r) = false := rfl
  have hlive : live = standard := by
    by_cases hneg : 0 > conn
    · have hneeds : handles.needs (.close conn) = none := by
        simp [handles, named, hneg]
      rw [Handles.respond_idle (r := r) rfl hneeds hr, owned, if_pos hneg]
    · have hneeds : handles.needs (.close conn) = some conn := by
        simp [handles, named, not_lt.mp hneg]
      rw [Handles.respond_closed (r := r) rfl hneeds rfl hr, owned, if_neg hneg,
        Finset.erase_insert hnew]
  rw [hflag, Bool.or_false, hlive]

theorem triple_sender_send (order : Bytes.ByteOrder) {data : Str} :
    sender.Triple (· = (owned conn, connected)) ((SocketUtil.send order data).embed (on conn))
      (fun _ => (· = (owned conn, connected))) := by
  have honly : (SocketUtil.send order data).Only (fun c => ∃ buf, c = .send buf) True :=
    (only_int ⟨_, rfl⟩).bind fun _ => Code.only_ite trivial
      ((only_int ⟨_, rfl⟩).bind fun _ => Code.only_ite trivial trivial)
  have hon : ((SocketUtil.send order data).embed (on conn)).Only
      (fun c => ∃ buf, c = .send conn buf) True := by
    refine honly.expand (fun _ => rfl) ?_
    rintro c ⟨buf, rfl⟩
    exact Code.only_ask ⟨buf, rfl⟩
  refine Setting.triple_only (stable_sender _) ?_ ?_ (fun _ _ _ => trivial) hon
  · rintro c _ ⟨buf, rfl⟩ rfl
    exact named_owned rfl
  · rintro _ c r ⟨live, flag⟩ ⟨buf, rfl⟩ rfl ⟨hanswer, _⟩
    obtain ⟨hlive, hflag⟩ := Machine.respond_watch hanswer
    have hkept : live = owned conn := Handles.respond_kept (r := r) rfl rfl hlive
    have hsame : flag = connected := by
      rw [show flag = (connected || decide (connects (.send conn buf) r)) from hflag]
      exact Bool.or_false _
    rw [hkept, hsame]

/-- Nothing is left open, or the descriptor that is returned, with a connection. -/
def Connection (conn : Int) (w : Finset Int × Bool) : Prop :=
  if 0 = conn then w = (standard, false)
  else conn ∉ standard ∧ 0 ≤ conn ∧ w = (owned conn, true)

theorem triple_connectTo (IP : Str) (port : Nat) :
    sender.Triple (· = (standard, false)) (connectTo IP port) Connection := by
  have hzero : (0 : Int) ∈ standard := by decide
  refine Setting.triple_bind triple_sender_socket fun conn => ?_
  rintro _ ⟨hnew, rfl⟩
  refine Setting.triple_bind triple_sender_connect (fun ret => ?_) _ rfl
  have hne : 0 ≠ conn := fun h => hnew (h ▸ hzero)
  by_cases hret : 0 = ret
  · rw [if_neg (not_not.mpr hret)]
    refine Setting.triple_ret (stable_sender _) fun w hw => ?_
    rw [Connection, if_neg hne]
    refine ⟨hnew, hw.2 hret.symm, ?_⟩
    rw [hw.1, ← hret]
    rfl
  · rw [if_pos hret]
    refine Setting.Triple.pre (A := (· = (owned conn, false))) ?_ fun w hw => ?_
    · refine Setting.triple_bind (Φ := fun _ => (· = (standard, false))) ?_ fun _ => ?_
      · rw [destroyConnection, if_pos hne]
        exact triple_sender_close hnew
      · exact Setting.triple_ret (stable_sender _) fun w hw => (if_pos rfl).mpr hw
    · rw [hw.1, decide_eq_false (Ne.symm hret)]

/-- The Deployer's plain connection. -/
theorem setConnection_holds (IP : Str) (port : Nat)
    {t : Config (Finset Int × Bool) Unit SocketCall Reply Int}
    (ht : (handles.machine.watch connects).Reaches Possible
      (solo (Deployer.PolicyDeployer.setConnection IP port) (standard, false)) t) :
    (∀ c, (t.code ()).pending = .calling c → Named c t.world.1) ∧
      ∀ conn, (t.code ()).pending = .returned conn → Connection conn t.world := by
  have hholds := ht.alone (triple_connectTo IP port) rfl
  exact ⟨fun c hc => hholds.pre hc, fun conn hconn => hholds.returned hconn⟩

theorem triple_deployPolicy (order : Bytes.ByteOrder) (policy IP : Str) (port : Nat) :
    sender.Triple (· = (standard, false)) (deployPolicy order policy IP port)
      (fun b w => w.1 = standard ↔ b = true ∨ w.2 = false) := by
  refine Setting.triple_bind (triple_connectTo (text "192.168.0.5") port) fun conn => ?_
  unfold Connection
  by_cases hconn : 0 = conn
  · simp only [if_pos hconn]
    refine Setting.triple_ret (stable_sender _) fun w hw => ?_
    rw [hw]
    simp
  · simp only [if_neg hconn]
    rintro _ ⟨hnew, hpos, rfl⟩
    refine Setting.triple_bind (triple_sender_send order) (fun sent => ?_) _ rfl
    cases sent with
    | false =>
      refine Setting.triple_ret (stable_sender _) fun w hw => ?_
      have hopen : owned conn ≠ standard := by
        rw [owned, if_neg (not_lt.mpr hpos)]
        exact fun heq => hnew (heq ▸ Finset.mem_insert_self _ _)
      rw [hw]
      simpa using hopen
    | true =>
      refine Setting.triple_bind (Φ := fun _ => (· = (standard, true))) ?_ fun _ => ?_
      · rw [destroyConnection, if_pos hconn]
        exact triple_sender_close hnew
      · refine Setting.triple_ret (stable_sender _) fun w hw => ?_
        rw [hw]
        simp

/-- The Admin tool, started with its standard streams open, leaves its connection open exactly if
it was made and `deployPolicy` failed all the same. -/
theorem deployPolicy_leaves_open_iff (order : Bytes.ByteOrder) (policy IP : Str) (port : Nat)
    {t : Config (Finset Int × Bool) Unit SocketCall Reply Bool}
    (ht : (handles.machine.watch connects).Reaches Possible
      (solo (deployPolicy order policy IP port) (standard, false)) t) :
    (∀ c, (t.code ()).pending = .calling c → Named c t.world.1) ∧
      ∀ deployed, (t.code ()).pending = .returned deployed →
        (t.world.1 ≠ standard ↔ deployed = false ∧ t.world.2 = true) := by
  have hholds := ht.alone (triple_deployPolicy order policy IP port) rfl
  refine ⟨fun c hc => hholds.pre hc, fun deployed hdeployed => ?_⟩
  rw [ne_eq, hholds.returned hdeployed, not_or, Bool.not_eq_true, Bool.not_eq_false]

def deploying : Sock Bool := deployPolicy .little (text "p") (text "127.0.0.1") 30005

/-- The length is sent and the policy is not. -/
theorem deployPolicy_leaves_open : ∃ t, (handles.machine.watch connects).Reaches Possible
    (solo deploying (standard, false)) t ∧ t.world.1 ≠ standard := by
  let M := handles.machine.watch connects
  have hsocket : M.Leads Possible deploying (standard, false) (deploying.resume ⟨5, []⟩)
      (insert 5 standard, false) := Machine.leads_reply (c := .socket) rfl rfl nofun
  have hconnect : M.Leads Possible (deploying.resume ⟨5, []⟩) (insert 5 standard, false)
      ((deploying.resume ⟨5, []⟩).resume ⟨0, []⟩) (insert 5 standard, true) := by
    refine Machine.leads_reply (c := .connect 5 (text "192.168.0.5") 30005) rfl rfl fun _ => ?_
    exact ⟨fun fd h => by cases h; decide, fun fd h => by cases h; decide⟩
  have hlength : M.Leads Possible ((deploying.resume ⟨5, []⟩).resume ⟨0, []⟩)
      (insert 5 standard, true) (((deploying.resume ⟨5, []⟩).resume ⟨0, []⟩).resume ⟨8, []⟩)
      (insert 5 standard, true) :=
    Machine.leads_reply (c := .send 5 [1, 0, 0, 0, 0, 0, 0, 0]) rfl rfl nofun
  have hpolicy : M.Leads Possible (((deploying.resume ⟨5, []⟩).resume ⟨0, []⟩).resume ⟨8, []⟩)
      (insert 5 standard, true)
      ((((deploying.resume ⟨5, []⟩).resume ⟨0, []⟩).resume ⟨8, []⟩).resume ⟨-1, []⟩)
      (insert 5 standard, true) :=
    Machine.leads_reply (c := .send 5 (text "p")) rfl rfl nofun
  have hfailed := hsocket.trans (hconnect.trans (hlength.trans hpolicy))
  exact ⟨_, hfailed, ((deployPolicy_leaves_open_iff .little (text "p") (text "127.0.0.1") 30005
    hfailed).2 false rfl).mpr ⟨rfl, rfl⟩⟩

theorem triple_client_main (order : Bytes.ByteOrder) :
    sender.Triple (· = (standard, false)) (Client.main order) (fun _ w => w.1 = standard) := by
  have hend : ∀ conn connected, conn ∉ standard → sender.Triple (· = (owned conn, connected))
      (do void (.close conn); return (0 : Int)) (fun _ w => w.1 = standard) := by
    intro conn connected hnew
    refine Setting.triple_bind (triple_sender_close hnew) fun _ => ?_
    exact Setting.triple_ret (stable_sender _) fun w hw => congrArg Prod.fst hw
  refine Setting.triple_bind triple_sender_socket fun conn => ?_
  rintro _ ⟨hnew, rfl⟩
  refine Setting.triple_bind triple_sender_connect (fun ret => ?_) _ rfl
  refine Setting.Triple.pre (A := (· = (owned conn, decide (ret = 0)))) ?_ fun w hw => hw.1
  by_cases hret : 0 = ret
  · rw [if_neg (not_not.mpr hret)]
    exact Setting.triple_bind (triple_sender_send order) fun _ => hend conn _ hnew
  · rw [if_pos hret]
    exact hend conn _ hnew

/-- The Client closes its connection in any case. -/
theorem client_closes (order : Bytes.ByteOrder)
    {t : Config (Finset Int × Bool) Unit SocketCall Reply Int}
    (ht : (handles.machine.watch connects).Reaches Possible
      (solo (Client.main order) (standard, false)) t) :
    (∀ c, (t.code ()).pending = .calling c → Named c t.world.1) ∧
      ∀ ret, (t.code ()).pending = .returned ret → t.world.1 = standard := by
  have hholds := ht.alone (triple_client_main order) rfl
  exact ⟨fun c hc => hholds.pre hc, fun ret hret => hholds.returned hret⟩

end Senders

end SGXess.Sockets
