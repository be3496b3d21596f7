import SGXessControll.Platform
import SGXessControll.Bytes.Terminated

/-!
# The TLS client

`TLSClient.cpp` exists three times, in the Proxy, the Deployer and the Client. The copies
differ in the transport, in what a failed certificate check leaves in `ret`, and in
whether `recvMsg` hands the received text on; what they share is written once.
-/

namespace SGXess

set_option autoImplicit false

open Calls (Code)

/-- `data.append(buf)` for a zeroed `char buf[size]` that received `bytes`: a C string is
appended, and without a zero byte in the array the search leaves it. -/
def appendBuffer (size : Nat) (data bytes : Str) : Prog Str :=
  match Bytes.untilFirst 0 (Bytes.intoArray 0 size bytes) with
  | some s => return data ++ s
  | none => .undefined

/-- With a free cell behind the bytes the search ends in the array. -/
theorem appendBuffer_of_lt {size : Nat} {bytes : Str} (h : bytes.length < size) (data : Str) :
    appendBuffer size data bytes = .ret (data ++ bytes.takeWhile (· ≠ 0)) := by
  unfold appendBuffer
  rw [Bytes.untilFirst_intoArray_of_lt h]
  rfl

theorem triple_appendBuffer {W : Type} {S : Calls.Setting W Call Reply} {A : W → Prop}
    {B : Str → W → Prop} {size : Nat} {data bytes : Str} (hA : S.Stable A)
    (hB : ∀ s, S.Stable (B s))
    (found : ∀ s w, A w → Bytes.untilFirst 0 (Bytes.intoArray 0 size bytes) = some s →
      B (data ++ s) w)
    (missing : Bytes.untilFirst 0 (Bytes.intoArray 0 size bytes) = none → ∀ w, A w → S.fault w) :
    S.Triple A (appendBuffer size data bytes) B := by
  unfold appendBuffer
  split
  · rename_i s hs
    exact (Calls.Setting.triple_ret (hB _) fun _ h => h).pre fun w hw => found s w hw hs
  · rename_i hs
    exact Calls.Setting.triple_undefined hA (missing hs)

namespace TLSClient

def caCrtPath : Str := text "ssl/ca.crt"

def init : Prog Unit := void .clientInit

def destroy : Prog Unit := void .clientFree

def loadCertificate : Prog Bool := do
  let ret ← int (.x509CrtParseFile caCrtPath)
  if ret < 0 then
    return false
  return true

def setSSLConfig (proto : NetProto) (IP : Str) : Prog Bool := do
  let ret ← int (.sslConfigDefaults proto)
  if ret ≠ 0 then
    return false
  let ret ← int .sslSetup
  if ret ≠ 0 then
    return false
  let ret ← int (.sslSetHostname IP)
  if ret ≠ 0 then
    return false
  return true

def verifyCertificate : Prog Bool := do
  let flags ← int .sslGetVerifyResult
  if flags ≠ 0 then
    return false
  return true

/-- The `do { .. } while (false)` of `connect`: the value of `ret` after it. Where the
certificate is refused, `unverified` says what becomes of `ret`. -/
def connectSteps (proto : NetProto) (unverified : Int → Int) (IP port : Str) : Prog Int := do
  let ret ← int .ctrDrbgSeed
  if ret ≠ 0 then
    return ret
  if (← loadCertificate) = false then
    return 1
  let ret ← int (.netConnect IP port proto)
  if ret ≠ 0 then
    return ret
  if (← setSSLConfig proto IP) = false then
    return 1
  let reply ← retrying (.sslHandshake .client)
  let ret := reply.ret
  if ret ≠ 0 then
    return ret
  if (← verifyCertificate) = false then
    return unverified ret
  return ret

def connectWith (proto : NetProto) (unverified : Int → Int) (IP port : Str) : Prog Bool := do
  init
  let ret ← connectSteps proto unverified IP port
  if 0 ≠ ret then
    destroy
    return false
  else
    return true

def terminate : Prog Unit := do
  void (.sslCloseNotify .client)
  destroy
  void (.exit 0)

section Only

variable {p : Call → Prop} {u : Prop} {proto : NetProto} {unverified : Int → Int} {IP port : Str}

/-- The calls made on the way to a session. -/
def ofConnect : Call → Bool
  | .clientInit | .clientFree | .ctrDrbgSeed | .x509CrtParseFile _ | .netConnect _ _ _
  | .sslConfigDefaults _ | .sslSetup | .sslSetHostname _ | .sslHandshake .client
  | .sslGetVerifyResult => true
  | _ => false

theorem only_setSSLConfig (h : ∀ c, ofConnect c = true → p c) :
    (setSSLConfig proto IP).Only p u := by
  refine (only_int (h _ rfl)).bind fun ret => Code.only_ite trivial ?_
  refine (only_int (h _ rfl)).bind fun ret => Code.only_ite trivial ?_
  exact (only_int (h _ rfl)).bind fun ret => Code.only_ite trivial trivial

theorem only_loadCertificate (h : ∀ c, ofConnect c = true → p c) : loadCertificate.Only p u :=
  (only_int (h _ rfl)).bind fun _ => Code.only_ite trivial trivial

theorem only_verifyCertificate (h : ∀ c, ofConnect c = true → p c) :
    verifyCertificate.Only p u :=
  (only_int (h _ rfl)).bind fun _ => Code.only_ite trivial trivial

theorem only_connectSteps (h : ∀ c, ofConnect c = true → p c) :
    (connectSteps proto unverified IP port).Only p u := by
  refine (only_int (h _ rfl)).bind fun ret => Code.only_ite trivial ?_
  refine (only_loadCertificate h).bind fun loaded => Code.only_ite trivial ?_
  refine (only_int (h _ rfl)).bind fun ret => Code.only_ite trivial ?_
  refine (only_setSSLConfig h).bind fun configured => Code.only_ite trivial ?_
  refine (only_retrying (h _ rfl)).bind fun reply => Code.only_ite trivial ?_
  exact (only_verifyCertificate h).bind fun verified => Code.only_ite trivial trivial

theorem only_connectWith (h : ∀ c, ofConnect c = true → p c) :
    (connectWith proto unverified IP port).Only p u := by
  refine (only_void (h _ rfl)).bind fun _ => (only_connectSteps h).bind fun ret => ?_
  exact Code.only_ite ((only_void (h _ rfl)).bind fun _ => trivial) trivial

theorem only_terminate (hnotify : p (.sslCloseNotify .client)) (hfree : p .clientFree)
    (hexit : p (.exit 0)) : terminate.Only p u :=
  (only_void hnotify).bind fun _ => (only_void hfree).bind fun _ => only_void hexit

end Only

/-- The steps of `connect` between `init` and `destroy`. -/
def isStep (c : Call) : Bool := ofConnect c && c != .clientInit && c != .clientFree

theorem ofConnect_of_isStep {c : Call} (hc : isStep c = true) : ofConnect c = true := by
  unfold isStep at hc
  rw [Bool.and_eq_true, Bool.and_eq_true] at hc
  exact hc.1.1

/-- The answer makes `connect` give up. -/
def StepFails (unverified : Int → Int) (c : Call) (r : Reply) : Prop :=
  match c with
  | .ctrDrbgSeed | .netConnect _ _ _ | .sslConfigDefaults _ | .sslSetup | .sslSetHostname _ =>
    r.ret ≠ 0
  | .x509CrtParseFile _ => r.ret < 0
  | .sslHandshake .client => r.ret ≠ 0 ∧ wantsRetry r = false
  | .sslGetVerifyResult => r.ret ≠ 0 ∧ unverified 0 ≠ 0
  | _ => False

instance (unverified : Int → Int) : DecidableRel (StepFails unverified) := fun c r =>
  match c with
  | .ctrDrbgSeed | .netConnect _ _ _ | .sslConfigDefaults _ | .sslSetup | .sslSetHostname _ =>
    inferInstanceAs (Decidable (r.ret ≠ 0))
  | .x509CrtParseFile _ => inferInstanceAs (Decidable (r.ret < 0))
  | .sslHandshake .client | .sslGetVerifyResult => inferInstanceAs (Decidable (_ ∧ _))
  | .sslHandshake .server | .clientInit | .clientFree | .sslCloseNotify _ | .sslWrite _ _
  | .sslRead _ _ | .netAccept | .netFree | .sslSessionReset | .sslFree | .exit _ | .accept
  | .close | .recv _ | .send _ | .sleep | .insertPolicy _ | .popPolicy | .updatePolicy _
  | .validateRequest _ | .insertClient _ | .popClient => isFalse id

section Connect

open Calls

variable {W : Type} {S : Setting W Call Reply} {L F : W → Prop} {unverified : Int → Int}
variable (hL : S.Stable L) (hF : S.Stable F)
variable (hpre : ∀ c w, isStep c = true → L w → S.pre c w)
variable (hgo : ∀ c w r w', isStep c = true → ¬ StepFails unverified c r → L w →
  S.answer w c r w' → L w')
variable (hfail : ∀ c w r w', isStep c = true → StepFails unverified c r → L w →
  S.answer w c r w' → F w')

include hL hF hpre hgo hfail

/-- A step that gives up where its result is as `p` says. -/
theorem triple_check {α : Type} {c : Call} {p : Int → Prop} [DecidablePred p]
    {a : Int → α} {m : Prog α} {Φ : α → W → Prop} (hc : isStep c = true)
    (hp : ∀ r, p r.ret ↔ StepFails unverified c r)
    (hbroken : ∀ n w, p n → F w → Φ (a n) w) (hm : S.Triple L m Φ) :
    S.Triple L ((int c).bind fun n => if p n then .ret (a n) else m) Φ := by
  refine Setting.triple_bind (triple_int (B := fun n w => if p n then F w else L w) hL
    (fun _ => Setting.stable_ite hF hL) (fun w hw => hpre c w hc hw) ?_) fun n => ?_
  · intro w r w' hw ha
    by_cases hr : p r.ret
    · rw [if_pos hr]
      exact hfail c w r w' hc ((hp r).mp hr) hw ha
    · rw [if_neg hr]
      exact hgo c w r w' hc (fun h => hr ((hp r).mpr h)) hw ha
  · by_cases hn : p n
    · simp only [if_pos hn]
      exact Setting.triple_ret hF fun w hw => hbroken n w hn hw
    · simp only [if_neg hn]
      exact hm

theorem triple_loadCertificate :
    S.Triple L loadCertificate (fun b w => if b = true then L w else F w) :=
  triple_check hL hF hpre hgo hfail (p := fun n => n < 0) rfl (fun _ => Iff.rfl)
    (fun _ _ _ hw => hw) (Setting.triple_ret hL fun _ hw => hw)

theorem triple_setSSLConfig {proto : NetProto} {IP : Str} :
    S.Triple L (setSSLConfig proto IP) (fun b w => if b = true then L w else F w) := by
  have hdone : S.Triple L (.ret true) (fun b w => if b = true then L w else F w) :=
    Setting.triple_ret hL fun _ hw => hw
  refine triple_check hL hF hpre hgo hfail (c := .sslConfigDefaults proto) rfl
    (fun _ => Iff.rfl) (fun _ _ _ hw => hw) ?_
  refine triple_check hL hF hpre hgo hfail (c := .sslSetup) rfl (fun _ => Iff.rfl)
    (fun _ _ _ hw => hw) ?_
  exact triple_check hL hF hpre hgo hfail (c := .sslSetHostname IP) rfl (fun _ => Iff.rfl)
    (fun _ _ _ hw => hw) hdone

theorem triple_verifyCertificate :
    S.Triple L verifyCertificate
      (fun b w => if b = true ∨ unverified 0 = 0 then L w else F w) := by
  refine Setting.triple_bind (triple_int
    (B := fun n w => if n = 0 ∨ unverified 0 = 0 then L w else F w) hL
    (fun _ => Setting.stable_ite hL hF) (fun w hw => hpre _ w rfl hw) ?_) fun flags => ?_
  · intro w r w' hw ha
    by_cases hr : r.ret = 0 ∨ unverified 0 = 0
    · rw [if_pos hr]
      exact hgo .sslGetVerifyResult w r w' rfl (fun h => hr.elim h.1 h.2) hw ha
    · rw [if_neg hr]
      exact hfail .sslGetVerifyResult w r w' rfl (not_or.mp hr) hw ha
  · by_cases hflags : flags = 0
    · simp only [hflags, ne_eq, not_true_eq_false, if_false]
      exact Setting.triple_ret (by simpa using hL) fun _ hw => by simpa using hw
    · simp only [hflags, ne_eq, not_false_eq_true, if_true]
      exact Setting.triple_ret (Setting.stable_ite hL hF) fun _ hw => by simpa using hw

theorem triple_connectSteps {proto : NetProto} {IP port : Str} :
    S.Triple L (connectSteps proto unverified IP port)
      (fun ret w => if ret = 0 then L w else F w) := by
  have hone : ∀ w, F w → if (1 : Int) = 0 then L w else F w := fun _ hw => hw
  have hbroken : ∀ (n : Int) w, n ≠ 0 → F w → if n = 0 then L w else F w := by
    intro n w hn hw
    rwa [if_neg hn]
  refine triple_check hL hF hpre hgo hfail (c := .ctrDrbgSeed) (a := id) rfl
    (fun _ => Iff.rfl) hbroken ?_
  refine Setting.triple_bind (triple_loadCertificate hL hF hpre hgo hfail) fun loaded => ?_
  cases loaded with
  | false => exact Setting.triple_ret hF hone
  | true =>
    refine triple_check hL hF hpre hgo hfail (c := .netConnect IP port proto) (a := id) rfl
      (fun _ => Iff.rfl) hbroken ?_
    refine Setting.triple_bind (triple_setSSLConfig hL hF hpre hgo hfail) fun configured => ?_
    cases configured with
    | false => exact Setting.triple_ret hF hone
    | true =>
      refine Setting.triple_bind (triple_retrying (c := .sslHandshake .client)
        (B := fun r w => if r.ret = 0 then L w else F w) hL
        (fun _ => Setting.stable_ite hL hF) (fun w hw => hpre _ w rfl hw) ?_ ?_) fun reply => ?_
      · intro w r w' hw ha hretry
        refine hgo (.sslHandshake .client) w r w' rfl (fun h => ?_) hw ha
        exact absurd (hretry.symm.trans h.2) nofun
      · intro w r w' hw ha hretry
        by_cases hr : r.ret = 0
        · rw [if_pos hr]
          exact hgo (.sslHandshake .client) w r w' rfl (fun h => h.1 hr) hw ha
        · rw [if_neg hr]
          exact hfail (.sslHandshake .client) w r w' rfl ⟨hr, hretry⟩ hw ha
      · by_cases hret : reply.ret = 0
        · simp only [hret, ne_eq, not_true_eq_false, if_true, if_false]
          refine Setting.triple_bind (triple_verifyCertificate hL hF hpre hgo hfail)
            fun verified => ?_
          cases verified with
          | true => exact Setting.triple_ret hL fun _ hw => hw
          | false =>
            refine Setting.triple_ret (Setting.stable_ite hL hF) fun _ hw => ?_
            simpa using hw
        · simp only [hret, ne_eq, not_false_eq_true, if_true, if_false]
          exact Setting.triple_ret hF fun w hw => hbroken _ w hret hw

/-- `connect` stays in `L` unless a step fails, and `destroy` follows exactly in `F`. -/
theorem triple_connectWith {A : W → Prop} {B : Bool → W → Prop} {proto : NetProto}
    {IP port : Str} (hB : S.Stable (B false)) (hinit : S.Triple A init (fun _ => L))
    (hdestroy : S.Triple F destroy (fun _ => B false)) (hdone : ∀ w, L w → B true w) :
    S.Triple A (connectWith proto unverified IP port) B := by
  refine Setting.triple_bind hinit fun _ => ?_
  refine Setting.triple_bind (triple_connectSteps hL hF hpre hgo hfail) fun ret => ?_
  by_cases hret : ret = 0
  · simp only [hret, ne_eq, not_true_eq_false, if_true, if_false]
    exact Setting.triple_ret hL hdone
  · have hret' : 0 ≠ ret := Ne.symm hret
    simp only [hret, if_false, if_pos hret']
    exact Setting.triple_bind hdestroy fun _ => Setting.triple_ret hB fun _ hw => hw

end Connect

end TLSClient

/-- `sendMsg` of the TLS clients and servers: one write, repeated only on a retry code. -/
def sslSendMsg (side : Side) (msg : Str) : Prog Bool := do
  let reply ← retrying (.sslWrite side msg)
  if reply.ret < 0 then
    return false
  return true

/-- `recvMsg` of the TLS clients and servers: one read into `buf[1024]`. `onTimeout` is
what a timeout returns, `appends` whether the copy has the final `msg.append(buf)`. -/
def sslRecvMsg (side : Side) (onTimeout appends : Bool) (msg : Str) : Prog (Bool × Str) := do
  let reply ← retrying (.sslRead side 1023)
  if reply.ret ≤ 0 ∧ reply.ret = errSslTimeout then
    return (onTimeout, msg)
  if reply.ret ≤ 0 ∧ reply.ret ≠ errSslPeerCloseNotify then
    return (false, msg)
  if appends then
    let msg ← appendBuffer 1024 msg reply.bytes
    return (true, msg)
  return (true, msg)

/-- What `recvMsg` returns and leaves in `msg`, for a read of less than the buffer. -/
def received (onTimeout appends : Bool) (msg : Str) (reply : Reply) : Bool × Str :=
  if reply.ret = errSslTimeout then (onTimeout, msg)
  else if reply.ret ≤ 0 ∧ reply.ret ≠ errSslPeerCloseNotify then (false, msg)
  else (true, if appends = true then msg ++ reply.bytes.takeWhile (· ≠ 0) else msg)

section Rules

open Calls

variable {W : Type} {S : Setting W Call Reply} {A : W → Prop} {side : Side} {msg : Str}

theorem triple_sslSendMsg {B : Bool → W → Prop} (hA : S.Stable A) (hB : ∀ b, S.Stable (B b))
    (hpre : ∀ w, A w → S.pre (.sslWrite side msg) w)
    (hagain : ∀ w r w', A w → S.answer w (.sslWrite side msg) r w' → wantsRetry r = true → A w')
    (hr : ∀ w r w', A w → S.answer w (.sslWrite side msg) r w' → wantsRetry r = false →
      B (decide (0 ≤ r.ret)) w') :
    S.Triple A (sslSendMsg side msg) B := by
  refine Setting.triple_bind (triple_retrying (B := fun r => B (decide (0 ≤ r.ret))) hA
    (fun _ => hB _) hpre hagain hr) fun r => ?_
  by_cases hneg : r.ret < 0
  · rw [if_pos hneg, show decide (0 ≤ r.ret) = false from decide_eq_false (by omega)]
    exact Setting.triple_ret (hB _) fun _ h => h
  · rw [if_neg hneg, show decide (0 ≤ r.ret) = true from decide_eq_true (by omega)]
    exact Setting.triple_ret (hB _) fun _ h => h

theorem triple_sslRecvMsg {onTimeout appends : Bool} {B : Bool × Str → W → Prop}
    (hA : S.Stable A) (hB : ∀ b, S.Stable (B b)) (hpre : ∀ w, A w → S.pre (.sslRead side 1023) w)
    (hagain : ∀ w r w', A w → S.answer w (.sslRead side 1023) r w' → wantsRetry r = true → A w')
    (hr : ∀ w r w', A w → S.answer w (.sslRead side 1023) r w' → wantsRetry r = false →
      r.bytes.length ≤ 1023 ∧ B (received onTimeout appends msg r) w') :
    S.Triple A (sslRecvMsg side onTimeout appends msg) B := by
  refine Setting.triple_bind (triple_retrying
    (B := fun r w => r.bytes.length ≤ 1023 ∧ B (received onTimeout appends msg r) w) hA
    (fun _ w w' hw h => ⟨h.1, hB _ w w' hw h.2⟩) hpre hagain hr) fun r => ?_
  have hstable : S.Stable fun w =>
      r.bytes.length ≤ 1023 ∧ B (received onTimeout appends msg r) w :=
    fun w w' hw h => ⟨h.1, hB _ w w' hw h.2⟩
  by_cases ht : r.ret = errSslTimeout
  · have hret : r.ret ≤ 0 ∧ r.ret = errSslTimeout := ⟨by rw [ht]; decide, ht⟩
    rw [if_pos hret]
    refine Setting.triple_ret hstable fun w h => ?_
    simpa only [received, if_pos ht] using h.2
  · rw [if_neg (fun h => ht h.2)]
    by_cases hf : r.ret ≤ 0 ∧ r.ret ≠ errSslPeerCloseNotify
    · rw [if_pos hf]
      refine Setting.triple_ret hstable fun w h => ?_
      simpa only [received, if_neg ht, if_pos hf] using h.2
    · rw [if_neg hf]
      simp only [received, if_neg ht, if_neg hf] at hstable ⊢
      cases appends with
      | false => exact Setting.triple_ret hstable fun w h => h.2
      | true =>
        refine Setting.triple_bind (triple_appendBuffer (B := fun s => B (true, s)) hstable
          (fun _ => hB _) ?_ ?_) fun s => Setting.triple_ret (hB _) fun _ h => h
        · intro s w h hs
          rw [Bytes.untilFirst_intoArray_of_lt (by omega)] at hs
          cases hs
          exact h.2
        · intro hs w h
          rw [Bytes.untilFirst_intoArray_of_lt (by omega)] at hs
          cases hs

variable {p : Call → Prop} {u : Prop}

theorem only_sslSendMsg (h : p (.sslWrite side msg)) : (sslSendMsg side msg).Only p u :=
  (only_retrying h).bind fun _ => Code.only_ite trivial trivial

/-- The buffer may be overrun where the answer to the read is not known. -/
theorem only_sslRecvMsg {onTimeout appends : Bool} (h : p (.sslRead side 1023)) :
    (sslRecvMsg side onTimeout appends msg).Only p True := by
  refine (only_retrying h).bind fun r => Code.only_ite trivial (Code.only_ite trivial ?_)
  refine Code.only_ite (Code.Only.bind ?_ fun s => trivial) trivial
  unfold appendBuffer
  split <;> exact trivial

end Rules

namespace Proxy.TLSClient

/-- `ret = 1` is commented out in the branch of a refused certificate. -/
def connect (IP port : Str) : Prog Bool :=
  SGXess.TLSClient.connectWith .tcp (fun ret => ret) IP port

def terminate : Prog Unit := SGXess.TLSClient.terminate

def sendMsg (msg : Str) : Prog Bool := sslSendMsg .client msg

def recvMsg (msg : Str) : Prog (Bool × Str) := sslRecvMsg .client false true msg

end Proxy.TLSClient

namespace Deployer.TLSClient

/-- `ret = 1` is commented out in the branch of a refused certificate. -/
def connect (IP port : Str) : Prog Bool :=
  SGXess.TLSClient.connectWith .tcp (fun ret => ret) IP port

def terminate : Prog Unit := SGXess.TLSClient.terminate

def sendMsg (msg : Str) : Prog Bool := sslSendMsg .client msg

def recvMsg (msg : Str) : Prog (Bool × Str) := sslRecvMsg .client false false msg

end Deployer.TLSClient

namespace Client.TLSClient

def connect (IP port : Str) : Prog Bool :=
  SGXess.TLSClient.connectWith .udp (fun _ => 1) IP port

def terminate : Prog Unit := SGXess.TLSClient.terminate

def sendMsg (msg : Str) : Prog Bool := sslSendMsg .client msg

def recvMsg (msg : Str) : Prog (Bool × Str) := sslRecvMsg .client false false msg

end Client.TLSClient

end SGXess
