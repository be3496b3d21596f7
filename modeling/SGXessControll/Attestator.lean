import SGXessControll.TLSClient

/-!
# The attestation server of the Controller

One exchange of `Attestator`: a client is accepted, its message read, and a fixed page written
back. `client_fd` stands where the other servers have `m_client`.
-/

namespace SGXess.Controller.Attestator

set_option autoImplicit false

open Calls (Code)

/-- `HTTP_RESPONSE` with the name of the ciphersuite. -/
def HTTP_RESPONSE (ciphersuite : Str) : Str :=
  text "HTTP/1.0 200 OK\r\nContent-Type: text/html\r\n\r\n" ++
    text "<h2>mbed TLS Test Server</h2>\r\n" ++
    text "<p>Successful connection using: " ++ ciphersuite ++ text "</p>\r\n"

/-- `MBEDTLS_ERR_NET_CONN_RESET`. -/
def errNetConnReset : Int := -0x50

/-- `sprintf` into an array of `size` cells. -/
def sprintf (size : Nat) (s : Str) : Prog Str :=
  if s.length < size then return s else .undefined

/-- The buffer is appended before the result is looked at. -/
def readRound (msg : Str) : Prog (Str ⊕ Str) := do
  let reply ← Code.ask (.sslRead .server 1023)
  let msg ← appendBuffer 1024 msg reply.bytes
  if reply.ret > 0 then
    return .inr msg
  if wantsRetry reply = true then
    return .inl msg
  -- The `switch` only prints, and a `break` follows it.
  return .inr msg

/-- One test of `while (0 >= writeRet)` and the round behind it; `inr` of what is behind the
loop, or of what is returned in it. -/
def writeRound (writeRet : Int) : Prog (Int ⊕ Bool) := do
  if 0 ≥ writeRet then
    if writeRet = errNetConnReset then
      return .inr false
    if writeRet ≠ errSslWantRead ∧ writeRet ≠ errSslWantWrite then
      return .inr false
    return .inl writeRet
  return .inr true

def writeResponse (ciphersuite : Str) : Prog Bool := do
  let writeBuf ← sprintf 1024 (HTTP_RESPONSE ciphersuite)
  let writeRet ← int (.sslWrite .server writeBuf)
  Code.loop writeRet writeRound Code.ret

def closeClient : Prog Bool := do
  let ret ← int (.sslCloseNotify .server)
  if ret < 0 then
    return false
  void .netFree
  void .sslSessionReset
  return true

def acceptClient : Prog Bool := do
  void .netFree
  void .sslSessionReset
  let ret ← int .netAccept
  if 0 ≠ ret then
    return false
  let ret ← int (.sslHandshake .server)
  if ret ≠ 0 then
    return false
  return true

def getClientMsg (ciphersuite msg : Str) : Prog (Bool × Str) := do
  if (← acceptClient) = false then
    return (false, msg)
  let msg ← Code.loop msg readRound Code.ret
  if (← writeResponse ciphersuite) = false then
    return (false, msg)
  let closed ← closeClient
  return (closed, msg)

/-- With room for the page. -/
theorem writeResponse_eq {ciphersuite : Str} (h : (HTTP_RESPONSE ciphersuite).length < 1024) :
    writeResponse ciphersuite = (int (.sslWrite .server (HTTP_RESPONSE ciphersuite))).bind
      fun writeRet => Code.loop writeRet writeRound Code.ret := by
  unfold writeResponse sprintf
  rw [if_pos h]
  rfl

theorem pending_readRound (msg : Str) :
    (readRound msg).pending = .calling (.sslRead .server 1023) := rfl

/-- A round goes on with another read exactly behind a retry code. -/
theorem resume_readRound {r : Reply} (hlen : r.bytes.length < 1024) (msg : Str) :
    (readRound msg).resume r = .ret (if wantsRetry r = true then
      .inl (msg ++ r.bytes.takeWhile (· ≠ 0)) else .inr (msg ++ r.bytes.takeWhile (· ≠ 0))) := by
  simp only [readRound, Code.bind_eq, Code.pure_eq, Code.ask, Code.bind, Code.resume,
    appendBuffer_of_lt hlen]
  by_cases hretry : wantsRetry r = true
  · have hneg := wantsRetry_neg hretry
    rw [if_neg (by omega), if_pos hretry, if_pos hretry]
  · rw [if_neg hretry, if_neg hretry, ite_self]

/-- With a retry code the write loop tests the same result again and again. -/
theorem pending_writeRound {writeRet : Int}
    (h : writeRet = errSslWantRead ∨ writeRet = errSslWantWrite) :
    (writeRound writeRet).pending = .returned (.inl writeRet) := by
  rcases h with rfl | rfl <;> rfl

/-- Any other result is judged by its sign. -/
theorem writeRound_eq {writeRet : Int}
    (h : ¬ (writeRet = errSslWantRead ∨ writeRet = errSslWantWrite)) :
    writeRound writeRet = .ret (.inr (decide (0 < writeRet))) := by
  have hne : writeRet ≠ errSslWantRead ∧ writeRet ≠ errSslWantWrite := not_or.mp h
  unfold writeRound
  by_cases hpos : 0 < writeRet
  · rw [if_neg (by omega), decide_eq_true hpos]
    rfl
  · rw [if_pos (by omega), if_pos hne, ite_self, decide_eq_false hpos]
    rfl

end SGXess.Controller.Attestator
