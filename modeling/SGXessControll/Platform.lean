import SGXessControll.Calls.Frame
import SGXessControll.Calls.Runs
import Mathlib.Algebra.Group.Nat.Defs
import Mathlib.Data.Int.Notation

/-!
# What the programs call

Sockets, mbedTLS and the objects the threads share. Every call is answered by the value
the C function returns, as the `int` its caller keeps it in, together with the bytes it
writes into the caller's buffer. Calls without effect on the model (printing, clocks,
`mbedtls_ssl_set_bio` and the other setters that cannot fail) are left out.
-/

namespace SGXess

set_option autoImplicit false

/-- A `std::string`: any bytes, zero bytes included. -/
abbrev Str := List UInt8

def text (s : String) : Str := s.toList.map fun c => c.toNat.toUInt8

/-- `std::to_string` of a non-negative number. -/
def toStr (n : Nat) : Str := (Nat.toDigits 10 n).map fun c => c.toNat.toUInt8

theorem toStr_digit {n : Nat} {b : UInt8} (hb : b ∈ toStr n) : 48 ≤ b.toNat ∧ b.toNat ≤ 57 := by
  obtain ⟨c, hc, rfl⟩ := List.mem_map.mp hb
  have hdigit := Nat.isDigit_of_mem_toDigits (by omega) (by omega) hc
  simp only [Char.isDigit, Bool.and_eq_true, decide_eq_true_eq, ge_iff_le, UInt32.le_iff_toNat_le,
    Char.toNat_val] at hdigit
  simp only [Nat.toUInt8_eq, UInt8.toNat_ofNat']
  have h0 : ('0' : Char).toNat = 48 := rfl
  have h9 : ('9' : Char).toNat = 57 := rfl
  omega

theorem toStr_length {n : Nat} (hn : n < 256) : (toStr n).length ≤ 3 := by
  rw [toStr, List.length_map, Nat.length_toDigits_le_iff (by omega) (by omega)]
  omega

/-- A count stored in an `int`. -/
def toInt (n : Nat) : Int := Int.bmod n (2 ^ 32)

structure Reply where
  ret : Int
  bytes : Str := []
  deriving DecidableEq, Repr

/-- The session a call is made on: a client object's, or the one a server accepted. -/
inductive Side where
  | client
  | server
  deriving DecidableEq, Repr

inductive NetProto where
  | tcp
  | udp
  deriving DecidableEq, Repr

inductive Call where
  /-- The `mbedtls_*_init` calls of `TLSClient::init`, one after the other. -/
  | clientInit
  /-- The `mbedtls_*_free` calls of `TLSClient::destroy`, one after the other. -/
  | clientFree
  | ctrDrbgSeed
  | x509CrtParseFile (path : Str)
  | netConnect (IP port : Str) (proto : NetProto)
  | sslConfigDefaults (proto : NetProto)
  | sslSetup
  | sslSetHostname (IP : Str)
  | sslHandshake (side : Side)
  | sslGetVerifyResult
  | sslCloseNotify (side : Side)
  | sslWrite (side : Side) (buf : Str)
  | sslRead (side : Side) (len : Nat)
  /-- `mbedtls_net_accept` from `m_server` into `m_client`. -/
  | netAccept
  /-- `mbedtls_net_free` of `m_client`. -/
  | netFree
  | sslSessionReset
  /-- `mbedtls_ssl_free` of a copy of an accepted session. -/
  | sslFree
  /-- `mbedtls_exit`. -/
  | exit (status : Int)
  | accept
  | close
  | recv (len : Nat)
  | send (buf : Str)
  | sleep
  | insertPolicy (policy : Str)
  | popPolicy
  | updatePolicy (policy : Str)
  | validateRequest (IP : Str)
  | insertClient (client : Str)
  | popClient
  deriving DecidableEq, Repr

abbrev Prog := Calls.Code Call Reply

/-- `MBEDTLS_ERR_SSL_WANT_READ`. -/
def errSslWantRead : Int := -0x6900

/-- `MBEDTLS_ERR_SSL_WANT_WRITE`. -/
def errSslWantWrite : Int := -0x6880

/-- `MBEDTLS_ERR_SSL_TIMEOUT`. -/
def errSslTimeout : Int := -0x6800

/-- `MBEDTLS_ERR_SSL_PEER_CLOSE_NOTIFY`. -/
def errSslPeerCloseNotify : Int := -0x7880

def wantsRetry (r : Reply) : Bool :=
  r.ret == errSslWantRead || r.ret == errSslWantWrite

/-- A call of which only the returned value is used. -/
def int (c : Call) : Prog Int := do
  let r ← Calls.Code.ask c
  return r.ret

def void (c : Call) : Prog Unit := do
  let _ ← Calls.Code.ask c

/-- A call made again for as long as mbedTLS asks for a retry. -/
def retrying (c : Call) : Prog Reply := Calls.Code.doWhile c wantsRetry

section Rules

open Calls

variable {W : Type} {S : Setting W Call Reply} {A : W → Prop} {c : Call}

theorem triple_int {B : Int → W → Prop} (hA : S.Stable A) (hB : ∀ n, S.Stable (B n))
    (hpre : ∀ w, A w → S.pre c w) (hr : ∀ w r w', A w → S.answer w c r w' → B r.ret w') :
    S.Triple A (int c) B :=
  Setting.triple_bind (Setting.triple_ask hA (fun r => hB r.ret) hpre hr)
    fun r => Setting.triple_ret (hB r.ret) fun _ h => h

theorem triple_void {B : W → Prop} (hA : S.Stable A) (hB : S.Stable B)
    (hpre : ∀ w, A w → S.pre c w) (hr : ∀ w r w', A w → S.answer w c r w' → B w') :
    S.Triple A (void c) (fun _ => B) :=
  Setting.triple_bind (Setting.triple_ask hA (fun _ => hB) hpre hr)
    fun _ => Setting.triple_ret hB fun _ h => h

theorem triple_retrying {B : Reply → W → Prop} (hA : S.Stable A) (hB : ∀ r, S.Stable (B r))
    (hpre : ∀ w, A w → S.pre c w)
    (hagain : ∀ w r w', A w → S.answer w c r w' → wantsRetry r = true → A w')
    (hr : ∀ w r w', A w → S.answer w c r w' → wantsRetry r = false → B r w') :
    S.Triple A (retrying c) B := by
  refine Setting.triple_doWhile hA hB hpre fun w r w' hw ha => ?_
  cases h : wantsRetry r with
  | true => exact hagain w r w' hw ha h
  | false => exact hr w r w' hw ha h

variable {p : Call → Prop} {u : Prop}

theorem only_int (h : p c) : (int c).Only p u := (Code.only_ask h).bind fun _ => trivial

theorem only_void (h : p c) : (void c).Only p u := (Code.only_ask h).bind fun _ => trivial

theorem only_retrying (h : p c) : (retrying c).Only p u := Code.only_doWhile h

section Runs

variable {E : Type} {M : Machine W Unit Call Reply E} {ok : W → Unit → Call → Reply → Prop}
variable {w v : W} {r : Reply}

theorem leads_int (hr : M.respond w () c r = some v) (hok : ok w () c r) :
    M.Leads ok (int c) w (.ret r.ret) v := (Machine.leads_ask hr hok).andThen (.refl _ _)

theorem leads_void (hr : M.respond w () c r = some v) (hok : ok w () c r) :
    M.Leads ok (void c) w (.ret ()) v := (Machine.leads_ask hr hok).andThen (.refl _ _)

theorem leads_retrying (hr : M.respond w () c r = some v) (hok : ok w () c r)
    (hretry : wantsRetry r = false) : M.Leads ok (retrying c) w (.ret r) v :=
  Machine.leads_doWhile hr hok hretry

end Runs

end Rules

theorem wantsRetry_neg {r : Reply} (h : wantsRetry r = true) : r.ret < 0 := by
  simp only [wantsRetry, Bool.or_eq_true, beq_iff_eq, errSslWantRead, errSslWantWrite] at h
  omega

end SGXess
