import SGXessControll.Calls.Expand
import SGXessControll.Calls.Stages
import SGXessControll.Identity
import SGXessControll.Races

/-!
# Setting up the TLS servers of the Controller

What happens before the accept loops: the certificate comes from the RA-TLS library inside an
enclave and from files outside of one, and mbedTLS is configured with it call by call.
-/

namespace SGXess.Setup

set_option autoImplicit false

open Calls (Code Setting Machine Config solo)

inductive SetupCall where
  /-- The `mbedtls_*_init` calls of `TLSServer::init`, one after the other. -/
  | serverInit
  | fopen (path : Str)
  | fread (count : Nat)
  | fclose
  | errno
  | dlopen (file : Str)
  | dlsym (name : Str)
  | dlerror
  /-- A call through the pointer that `::dlsym` returned. -/
  | createKey (f : Int)
  /-- `::free` of a buffer of the RA-TLS library. -/
  | free (der : Str)
  | ctrDrbgSeed
  | entropyFree
  | x509CrtParse (der : Option Str)
  | x509CrtParseFile (path : Str)
  | pkParseKey (der : Option Str)
  | pkParseKeyfile (path : Str)
  | netBind (port : Str)
  | sslConfigDefaults
  | sslConfRng
  | sslConfReadTimeout (ms : Nat)
  | sslConfCaChain
  | sslConfOwnCert
  | sslSetup
  /-- A call of the accept loop. -/
  | serve (c : Call)
  deriving DecidableEq

/-- A null pointer is 0 as `ret` and `none` as `key` or `crt`. -/
structure Answer extends Reply where
  key : Option Str := none
  crt : Option Str := none

abbrev Steps := Code SetupCall Answer

def int (c : SetupCall) : Steps Int := do
  let a ← Code.ask c
  return a.ret

def void (c : SetupCall) : Steps Unit := do
  let _ ← Code.ask c

def serving {α : Type} (m : Prog α) : Steps α := m.expand fun c => do
  let a ← Code.ask (.serve c)
  return a.toReply

def ENOENT : Int := 2

def SRV_CRT_PATH : Str := text "ssl/server.crt"

def SRV_KEY_PATH : Str := text "ssl/server.key"

namespace RATLS

/-- What is returned is looked at as an `int`. -/
def file_read (path : Str) (count : Nat) : Steps (Int × Str) := do
  let f ← int (.fopen path)
  if 0 = f then
    let errno ← int .errno
    return (-errno, [])
  let read ← Code.ask (.fread count)
  -- `bytes` is unsigned.
  if read.bytes.length ≤ 0 then
    let errsv ← int .errno
    void .fclose
    return (-errsv, [])
  let close_ret ← int .fclose
  if close_ret < 0 then
    let errno ← int .errno
    return (-errno, read.bytes)
  return (read.bytes.length, read.bytes)

def getAttestType (type : Str) : Steps (Bool × Str) := do
  let (ret, attestation_type_str) ← file_read (text "/dev/attestation/attestation_type") 31
  if ret < 0 ∧ ret ≠ -ENOENT then
    return (false, type)
  let type ← serving (appendBuffer 32 type attestation_type_str)
  return (true, type)

def getAttestLib : Steps (Bool × Int) := do
  let attestLib ← int (.dlopen (text "libra_tls_attest.so"))
  if 0 = attestLib then
    return (false, 0)
  let createKey ← int (.dlsym (text "ra_tls_create_key_and_crt_der"))
  let error ← int .dlerror
  if 0 ≠ error then
    return (false, createKey)
  return (true, createKey)

/-- Neither of the buffers is freed. -/
def setCertificate (createkey : Int) : Steps Bool := do
  let der ← Code.ask (.createKey createkey)
  if der.ret ≠ 0 then
    return false
  let ret ← int (.x509CrtParse der.crt)
  if ret ≠ 0 then
    return false
  let ret ← int (.pkParseKey der.key)
  if ret ≠ 0 then
    return false
  return true

end RATLS

namespace TLSServer

/-- Here a certificate that is skipped is no failure. -/
def loadCertificate : Steps Bool := do
  let ret ← int (.x509CrtParseFile SRV_CRT_PATH)
  if ret < 0 then
    return false
  let ret ← int (.pkParseKeyfile SRV_KEY_PATH)
  if ret ≠ 0 then
    return false
  return true

def setSSLConfig (m_RATLS : Bool) : Steps Bool := do
  let ret ← int .sslConfigDefaults
  if ret ≠ 0 then
    return false
  void .sslConfRng
  void (.sslConfReadTimeout 10000)
  if m_RATLS = false then
    void .sslConfCaChain
  let ret ← int .sslConfOwnCert
  if ret ≠ 0 then
    return false
  let ret ← int .sslSetup
  if ret ≠ 0 then
    return false
  return true

/-- What `setListener` does once the RA-TLS library is there, if it is asked for. -/
def seedAndBind (port : Str) (m_RATLS : Bool) (certificate : Steps Bool) : Steps Bool := do
  let ret ← int .ctrDrbgSeed
  if 0 ≠ ret then
    return false
  if (← certificate) = false then
    return false
  let ret ← int (.netBind port)
  if ret ≠ 0 then
    return false
  if (← setSSLConfig m_RATLS) = false then
    return false
  return true

/-- `createKey` is not initialized where RA-TLS is not asked for, and not called. -/
def setListener (port : Str) (bRATLS : Bool) : Steps Bool := do
  void .serverInit
  if bRATLS = true then
    let (known, _) ← RATLS.getAttestType []
    if known = false then
      return false
    let (found, createKey) ← RATLS.getAttestLib
    if found = false then
      return false
    seedAndBind port bRATLS (RATLS.setCertificate createKey)
  else
    seedAndBind port bRATLS loadCertificate

end TLSServer

namespace Listener

open Controller (Listener)

def port : Listener → Str
  | .policy => text "30010"
  | .request => text "30011"

/-- `PolicyListener::init` and `RequestListener::init`. -/
def init (listener : Listener) (SGX : Int) : Steps Bool :=
  if 1 = SGX then TLSServer.setListener (port listener) true
  else TLSServer.setListener (port listener) false

/-- `PolicyListener::run` and `RequestListener::run`, for the manager they are given. -/
def run (listener : Listener) (SGX : Int) : Steps Unit := do
  if (← init listener SGX) = false then
    return
  let _ ← serving listener.runListener

end Listener

/-- Where a certificate or a key was parsed from. -/
inductive Source where
  | file (path : Str)
  | der (bytes : Str)
  deriving DecidableEq

/-- What has been set up of a server, and what the RA-TLS library handed out. -/
structure Server where
  inited : Bool := false
  file : Bool := false
  /-- What was read of the last file that was opened. -/
  read : Option Str := none
  lib : Bool := false
  /-- What `::dlsym` returned. -/
  symbol : Option Int := none
  /-- The key and the certificate the library made. -/
  made : Option (Str × Str) := none
  /-- Its buffers that have not been freed. -/
  heap : List Str := []
  seeded : Bool := false
  srvcert : List Source := []
  pkey : Option Source := none
  bound : Option Str := none
  defaults : Bool := false
  rng : Bool := false
  timeout : Option Nat := none
  caChain : Bool := false
  ownCert : Option (List Source × Source) := none
  /-- `mbedtls_ssl_setup` has succeeded. -/
  ready : Bool := false

/-- `::dlerror` returns a message where the symbol was not found. A null pointer is not called
and come back from. -/
def Possible (s : Server) : SetupCall → Answer → Prop
  | .fread count, a => a.bytes.length ≤ count
  | .dlerror, a => 0 ≠ a.ret ↔ s.symbol = some 0
  | .createKey f, a => 0 ≠ f ∧ (a.ret = 0 → a.key.isSome = true ∧ a.crt.isSome = true)
  | _, _ => True

instance (s : Server) (c : SetupCall) (a : Answer) : Decidable (Possible s c a) := by
  unfold Possible
  split <;> infer_instance

def after (s : Server) : SetupCall → Answer → Server
  | .serverInit, _ => { s with inited := true }
  | .fopen _, a => { s with file := decide (0 ≠ a.ret), read := none }
  | .fread _, a => { s with read := some a.bytes }
  | .fclose, _ => { s with file := false }
  | .dlopen _, a => { s with lib := decide (0 ≠ a.ret) }
  | .dlsym _, a => { s with symbol := some a.ret }
  | .createKey _, a => { s with
      made := a.key.bind fun key => a.crt.map fun crt => (key, crt)
      heap := a.key.toList ++ a.crt.toList ++ s.heap }
  | .free der, _ => { s with heap := s.heap.erase der }
  | .ctrDrbgSeed, a => if a.ret = 0 then { s with seeded := true } else s
  | .x509CrtParse der, a =>
    if a.ret = 0 then { s with srvcert := s.srvcert ++ der.toList.map .der } else s
  | .x509CrtParseFile path, a =>
    if 0 ≤ a.ret then { s with srvcert := s.srvcert ++ [.file path] } else s
  | .pkParseKey der, a => if a.ret = 0 then { s with pkey := der.map .der } else s
  | .pkParseKeyfile path, a => if a.ret = 0 then { s with pkey := some (.file path) } else s
  | .netBind port, a => if a.ret = 0 then { s with bound := some port } else s
  | .sslConfigDefaults, a => if a.ret = 0 then { s with defaults := true } else s
  | .sslConfRng, _ => { s with rng := true }
  | .sslConfReadTimeout ms, _ => { s with timeout := some ms }
  | .sslConfCaChain, _ => { s with caChain := true }
  | .sslConfOwnCert, a =>
    if a.ret = 0 then { s with ownCert := s.pkey.map fun key => (s.srvcert, key) } else s
  | .sslSetup, a => if a.ret = 0 then { s with ready := true } else s
  | .errno, _ | .dlerror, _ | .entropyFree, _ | .serve _, _ => s

def machine : Machine Server Unit SetupCall Answer Empty where
  respond s _ c a := if Possible s c a then some (after s c a) else none
  move _ e := nomatch e

/-- With RA-TLS the certificate and the key are those the library made, both at once. -/
def Belongs (bRATLS : Bool) (made : Option (Str × Str)) (cert : List Source × Source) : Prop :=
  if bRATLS = true then ∃ key crt, made = some (key, crt) ∧ cert = ([.der crt], .der key)
  else cert = ([.file SRV_CRT_PATH], .file SRV_KEY_PATH)

theorem after_ready {s : Server} {c : SetupCall} {a : Answer} (h : (c == .sslSetup) = false) :
    (after s c a).ready = s.ready := by
  cases c <;> first | exact Bool.noConfusion h | rfl | (simp only [after]; split <;> rfl)

def opensFile : SetupCall → Bool
  | .fopen _ | .fclose => true
  | _ => false

theorem after_file {s : Server} {c : SetupCall} {a : Answer} (h : opensFile c = false) :
    (after s c a).file = s.file := by
  cases c <;> first | exact Bool.noConfusion h | rfl | (simp only [after]; split <;> rfl)

/-- The server listens on `port`, configured with the certificate it should have. -/
structure Ready (port : Str) (bRATLS : Bool) (s : Server) : Prop where
  ready : s.ready = true
  bound : s.bound = some port
  timeout : s.timeout = some 10000
  caChain : s.caChain = !bRATLS
  file : s.file = false
  cert : ∃ cert, s.ownCert = some cert ∧ Belongs bRATLS s.made cert

/-- What each call relies on. -/
def Meets (serves : Prop) : SetupCall → Server → Prop
  | .serverInit, s => s.inited = false
  | .fopen _, s => s.file = false
  | .fread _, s | .fclose, s => s.file = true
  | .dlsym _, s => s.lib = true
  | .createKey f, s => 0 ≠ f ∧ s.symbol = some f
  | .free der, s => der ∈ s.heap
  | .ctrDrbgSeed, s | .x509CrtParseFile _, s | .netBind _, s | .sslConfigDefaults, s =>
    s.inited = true
  | .x509CrtParse der, s => s.inited = true ∧ ∃ crt ∈ s.heap, der = some crt
  | .pkParseKey der, s => s.seeded = true ∧ ∃ key ∈ s.heap, der = some key
  | .pkParseKeyfile _, s => s.seeded = true
  -- A configuration is not changed any more once it is in use.
  | .sslConfRng, s | .sslConfReadTimeout _, s => s.defaults = true ∧ s.ready = false
  | .sslConfCaChain, s => s.defaults = true ∧ s.ready = false ∧ s.srvcert ≠ []
  | .sslConfOwnCert, s =>
    s.defaults = true ∧ s.ready = false ∧ s.srvcert ≠ [] ∧ s.pkey.isSome = true
  | .sslSetup, s =>
    s.defaults = true ∧ s.ready = false ∧ s.rng = true ∧ s.seeded = true ∧ s.ownCert.isSome = true
  | .serve _, _ => serves
  | .dlopen _, _ | .dlerror, _ | .errno, _ | .entropyFree, _ => True

/-- The failures the set-up does not go on behind. It does go on with an attestation file that is
missing or empty, as `errno` is `ENOENT` or 0 then, and where the parser returned how many
certificates it skipped. -/
def fails : SetupCall → Answer → Prop
  | .errno, a => 0 < a.ret ∧ a.ret ≠ ENOENT
  | .dlopen _, a => 0 = a.ret
  | .dlerror, a => 0 ≠ a.ret
  | .x509CrtParseFile _, a => a.ret < 0
  | .createKey _, a | .ctrDrbgSeed, a | .x509CrtParse _, a | .pkParseKey _, a
  | .pkParseKeyfile _, a | .netBind _, a | .sslConfigDefaults, a | .sslConfOwnCert, a
  | .sslSetup, a => a.ret ≠ 0
  | _, _ => False

instance : DecidableRel fails := by
  intro c a
  unfold fails
  split <;> infer_instance

/-- The set-up has come this far without a failure. -/
def Fine (A : Server → Prop) (w : Server × Bool) : Prop := A w.1 ∧ w.2 = false

section Stages

variable {port : Str} {bRATLS b : Bool} {s : Server} {c : SetupCall} {α : Type}
variable {Φ : α → Server × Bool → Prop} {A : Server × Bool → Prop}

abbrev setup (port : Str) (bRATLS : Bool) : Setting (Server × Bool) SetupCall Answer :=
  (machine.watch fails).alone Machine.any (fun c w => Meets (Fine (Ready port bRATLS) w) c w.1)
    (Fine (Ready port bRATLS))

theorem still (port : Str) (bRATLS : Bool) : (setup port bRATLS).Still := by
  rintro w w' (⟨e, _⟩ | ⟨j, hj, _⟩)
  · cases e
  · exact absurd rfl hj

theorem holds_call {k : Answer → Steps α} (h : Meets (Fine (Ready port bRATLS) (s, b)) c s)
    (hk : ∀ a, Possible s c a →
      (setup port bRATLS).Holds (k a) Φ (after s c a, b || decide (fails c a))) :
    (setup port bRATLS).Holds (.call c k) Φ (s, b) := by
  refine (still port bRATLS).call (c := c) (w := (s, b)) h ?_
  rintro a ⟨s', b'⟩ ⟨hr, -⟩
  obtain ⟨hs, rfl⟩ := Machine.respond_watch hr
  obtain ⟨hpossible, heq⟩ := Option.ite_none_right_eq_some.mp hs
  cases Option.some.inj heq
  exact hk a hpossible

/-- A call that fails raises the flag, and one that does not leaves it as it is. -/
theorem holds_split {k : Answer → Steps α} (h : Meets (Fine (Ready port bRATLS) (s, b)) c s)
    (hbad : ∀ a, fails c a → (setup port bRATLS).Holds (k a) Φ (after s c a, true))
    (hgood : ∀ a, Possible s c a → ¬ fails c a →
      (setup port bRATLS).Holds (k a) Φ (after s c a, b)) :
    (setup port bRATLS).Holds (.call c k) Φ (s, b) := by
  refine holds_call h fun a ha => ?_
  by_cases hf : fails c a
  · rw [decide_eq_true hf, Bool.or_true]
    exact hbad a hf
  · rw [decide_eq_false hf, Bool.or_false]
    exact hgood a ha hf

theorem holds_safe {k : Answer → Steps α} (h : Meets (Fine (Ready port bRATLS) (s, b)) c s)
    (hc : ∀ a, ¬ fails c a)
    (hk : ∀ a, Possible s c a → (setup port bRATLS).Holds (k a) Φ (after s c a, b)) :
    (setup port bRATLS).Holds (.call c k) Φ (s, b) :=
  holds_split h (fun a hf => absurd hf (hc a)) fun a ha _ => hk a ha

/-- No file is open, and nothing uses the configuration. -/
def Idle (s : Server) : Prop := s.file = false ∧ s.ready = false

/-- The set-up was left. -/
def Failed (w : Server × Bool) : Prop := w.2 = true ∧ Idle w.1

theorem Idle.after (hs : Idle s) (hfile : opensFile c = false) {a : Answer} (hf : fails c a) :
    Idle (after s c a) := by
  refine ⟨(after_file hfile).trans hs.1, ?_⟩
  cases c with
  | sslSetup =>
    have hret : a.ret ≠ 0 := hf
    simp only [Setup.after, if_neg hret, hs.2]
  | _ => exact (after_ready rfl).trans hs.2

/-- A call whose result decides whether the set-up goes on. -/
theorem stage_check {bad : Int → Prop} [DecidablePred bad] {k : Int → Steps Bool}
    (h : Meets (Fine (Ready port bRATLS) (s, false)) c s) (hbad : ∀ a, fails c a ↔ bad a.ret)
    (hs : Idle s) (hfile : opensFile c = false)
    (hk : ∀ a, Possible s c a → ¬ bad a.ret →
      (setup port bRATLS).Stage (k a.ret) A Failed (after s c a, false)) :
    (setup port bRATLS).Stage (do
      let ret ← int c
      if bad ret then
        return false
      k ret) A Failed (s, false) := by
  refine holds_split h (fun a hf => ?_) fun a ha hf => ?_
  · refine (still _ _).test (fun _ => ?_) fun hret => absurd ((hbad a).mp hf) hret
    exact ⟨rfl, hs.after hfile hf⟩
  · have hret : ¬ bad a.ret := fun hret => hf ((hbad a).mpr hret)
    exact (still _ _).test (fun h => absurd h hret) fun _ => hk a ha hret

/-- Before a certificate is there. -/
structure Begun (s : Server) : Prop where
  idle : Idle s
  inited : s.inited = true
  srvcert : s.srvcert = []
  caChain : s.caChain = false

structure Loaded (bRATLS : Bool) (s : Server) : Prop where
  idle : Idle s
  inited : s.inited = true
  caChain : s.caChain = false
  seeded : s.seeded = true
  cert : ∃ key, s.pkey = some key ∧ Belongs bRATLS s.made (s.srvcert, key)

theorem Belongs.ne_nil {made : Option (Str × Str)} {crt : List Source} {key : Source}
    (h : Belongs bRATLS made (crt, key)) : crt ≠ [] := by
  rintro rfl
  unfold Belongs at h
  split at h
  · obtain ⟨_, _, _, heq⟩ := h
    cases heq
  · cases h

theorem stage_loadCertificate (hs : Begun s) (hseeded : s.seeded = true) :
    (setup port false).Stage TLSServer.loadCertificate (Fine (Loaded false)) Failed (s, false) := by
  refine stage_check hs.inited (fun _ => Iff.rfl) hs.idle rfl fun a _ hret => ?_
  have hafter : after s (.x509CrtParseFile SRV_CRT_PATH) a =
      { s with srvcert := [.file SRV_CRT_PATH] } := by
    simp only [after, if_pos (not_lt.mp hret), hs.srvcert, List.nil_append]
  rw [hafter]
  refine stage_check hseeded (fun _ => Iff.rfl) hs.idle rfl fun a _ hret => ?_
  refine (still _ _).done ⟨?_, rfl⟩
  simp only [after, if_pos (not_not.mp hret)]
  exact ⟨hs.idle, hs.inited, hs.caChain, hseeded, _, rfl, rfl⟩

theorem stage_setCertificate {f : Int} (hs : Begun s) (hseeded : s.seeded = true) (hf : 0 ≠ f)
    (hsymbol : s.symbol = some f) :
    (setup port true).Stage (RATLS.setCertificate f) (Fine (Loaded true)) Failed (s, false) := by
  refine holds_split (c := .createKey f) ⟨hf, hsymbol⟩ (fun a hf => ?_) fun a ha hf => ?_
  · exact (still _ _).test (fun _ => ⟨rfl, hs.idle⟩) fun hret => absurd hf hret
  · refine (still _ _).test (fun h => absurd h hf) fun hret => ?_
    obtain ⟨hkey, hcrt⟩ := ha.2 (not_not.mp hret)
    obtain ⟨key, hkey⟩ := Option.isSome_iff_exists.mp hkey
    obtain ⟨crt, hcrt⟩ := Option.isSome_iff_exists.mp hcrt
    have hafter : after s (.createKey f) a =
        { s with made := some (key, crt), heap := key :: crt :: s.heap } := by
      simp only [after, hkey, hcrt]
      rfl
    rw [hafter, hkey, hcrt]
    refine stage_check ⟨hs.inited, crt, by simp, rfl⟩ (fun _ => Iff.rfl) hs.idle rfl
      fun a _ hret => ?_
    simp only [after, if_pos (not_not.mp hret), hs.srvcert]
    refine stage_check ⟨hseeded, key, by simp, rfl⟩ (fun _ => Iff.rfl) hs.idle rfl
      fun a _ hret => ?_
    refine (still _ _).done ⟨?_, rfl⟩
    simp only [after, if_pos (not_not.mp hret)]
    exact ⟨hs.idle, hs.inited, hs.caChain, hseeded, _, rfl, key, crt, rfl, rfl⟩

theorem stage_setSSLConfig (hs : Loaded bRATLS s) (hbound : s.bound = some port) :
    (setup port bRATLS).Stage (TLSServer.setSSLConfig bRATLS) (Fine (Ready port bRATLS)) Failed
      (s, false) := by
  obtain ⟨key, hkey, hbelongs⟩ := hs.cert
  refine stage_check hs.inited (fun _ => Iff.rfl) hs.idle rfl fun a _ hret => ?_
  have hafter : after s .sslConfigDefaults a = { s with defaults := true } :=
    if_pos (not_not.mp hret)
  rw [hafter]
  refine holds_call (c := .sslConfRng) ⟨rfl, hs.idle.2⟩ fun _ _ => ?_
  refine holds_call (c := .sslConfReadTimeout 10000) ⟨rfl, hs.idle.2⟩ fun _ _ => ?_
  -- The branches differ in the chain only.
  have hrest : ∀ chain, (chain = !bRATLS) → (setup port bRATLS).Stage (do
      let ret ← int .sslConfOwnCert
      if ret ≠ 0 then
        return false
      let ret ← int .sslSetup
      if ret ≠ 0 then
        return false
      return true) (Fine (Ready port bRATLS)) Failed
      ({ s with defaults := true, rng := true, timeout := some 10000, caChain := chain },
        false) := by
    intro chain hchain
    refine stage_check ⟨rfl, hs.idle.2, hbelongs.ne_nil, by rw [hkey]; rfl⟩ (fun _ => Iff.rfl)
      hs.idle rfl fun a _ hret => ?_
    simp only [after, if_pos (not_not.mp hret), hkey]
    refine stage_check ⟨rfl, hs.idle.2, rfl, hs.seeded, rfl⟩ (fun _ => Iff.rfl)
      hs.idle rfl fun a _ hret => ?_
    refine (still _ _).done ⟨?_, rfl⟩
    simp only [after, if_pos (not_not.mp hret)]
    exact ⟨rfl, hbound, rfl, hchain, hs.idle.1, _, rfl, hbelongs⟩
  cases bRATLS with
  | false =>
    exact holds_call (c := .sslConfCaChain) ⟨rfl, hs.idle.2, hbelongs.ne_nil⟩ fun _ _ =>
      hrest true rfl
  | true => exact hrest s.caChain hs.caChain

theorem stage_seedAndBind {certificate : Steps Bool} (hs : Begun s)
    (hcert : (setup port bRATLS).Stage certificate (Fine (Loaded bRATLS)) Failed
      ({ s with seeded := true }, false)) :
    (setup port bRATLS).Stage (TLSServer.seedAndBind port bRATLS certificate)
      (Fine (Ready port bRATLS)) Failed (s, false) := by
  refine stage_check hs.inited (fun _ => ne_comm) hs.idle rfl fun a _ hret => ?_
  simp only [after, if_pos (not_not.mp hret).symm]
  refine hcert.andThen (still _ _) ?_
  rintro ⟨s, b⟩ ⟨hs, hb⟩
  cases hb
  refine stage_check hs.inited (fun _ => Iff.rfl) hs.idle rfl fun a _ hret => ?_
  simp only [after, if_pos (not_not.mp hret)]
  have hloaded : Loaded bRATLS { s with bound := some port } :=
    ⟨hs.idle, hs.inited, hs.caChain, hs.seeded, hs.cert⟩
  refine (stage_setSSLConfig hloaded rfl).andThen (still _ _) fun w hw => ?_
  exact (still _ _).done hw

/-- What `file_read` returns tells whether it failed, and the file is closed in any case. -/
theorem holds_file_read {path : Str} {count : Nat} (hs : s.file = false) :
    (setup port bRATLS).Holds (RATLS.file_read path count) (fun read w =>
      (∃ got, w.1 = { s with file := false, read := got }) ∧ read.2.length ≤ count ∧
        (w.2 = true ↔ read.1 < 0 ∧ read.1 ≠ -ENOENT)) (s, false) := by
  have herrno : ∀ e : Answer, decide (fails .errno e) = true ↔ -e.ret < 0 ∧ -e.ret ≠ -ENOENT := by
    intro e
    rw [decide_eq_true_eq]
    simp only [fails, ENOENT]
    omega
  simp only [RATLS.file_read, int, void, Code.ask, Code.bind_eq, Code.pure_eq, Code.bind]
  refine holds_safe hs (fun _ => id) fun f _ => ?_
  by_cases hf : 0 = f.ret
  · rw [if_pos hf]
    refine holds_call trivial fun e _ => (still _ _).ret ⟨⟨none, ?_⟩, Nat.zero_le _, herrno e⟩
    simp only [after, ← hf, ne_eq, not_true_eq_false, decide_false]
  · rw [if_neg hf]
    have hopen : (after s (.fopen path) f).file = true := decide_eq_true hf
    refine holds_safe hopen (fun _ => id) fun read hread => ?_
    by_cases hnone : read.bytes.length ≤ 0
    · rw [if_pos hnone]
      refine holds_call trivial fun e _ => holds_safe hopen (fun _ => id) fun _ _ => ?_
      exact (still _ _).ret ⟨⟨_, rfl⟩, Nat.zero_le _, herrno e⟩
    · rw [if_neg hnone]
      refine holds_safe hopen (fun _ => id) fun close_ret _ => ?_
      by_cases hclose : close_ret.ret < 0
      · rw [if_pos hclose]
        exact holds_call trivial fun e _ => (still _ _).ret ⟨⟨_, rfl⟩, hread, herrno e⟩
      · rw [if_neg hclose]
        refine (still _ _).ret ⟨⟨_, rfl⟩, hread, fun h => Bool.noConfusion h, fun h => ?_⟩
        exact absurd h.1 (not_lt.mpr (Int.natCast_nonneg _))

/-- Failing to read the attestation type ends the set-up, not having the file does not. -/
theorem holds_getAttestType {type : Str} (hs : Idle s) :
    (setup port bRATLS).Holds (RATLS.getAttestType type) (fun known w =>
      if known.1 = true then ∃ got, w = ({ s with file := false, read := got }, false)
      else Failed w) (s, false) := by
  refine (holds_file_read hs.1).bind ?_
  rintro ⟨ret, read⟩ ⟨_, b⟩ ⟨⟨got, rfl⟩, hread, hb⟩
  by_cases hret : ret < 0 ∧ ret ≠ -ENOENT
  · simp only [if_pos hret]
    exact (still _ _).ret ⟨hb.mpr hret, rfl, hs.2⟩
  · have hbuffer : serving (appendBuffer 32 type read) = .ret (type ++ read.takeWhile (· ≠ 0)) := by
      rw [appendBuffer_of_lt (Nat.lt_succ_of_le hread)]
      rfl
    simp only [if_neg hret, hbuffer]
    have hfine : b = false := eq_false_of_ne_true fun hb' => hret (hb.mp hb')
    refine (still _ _).ret ?_
    rw [if_pos rfl, hfine]
    exact ⟨got, rfl⟩

/-- The function that is called later is the one that was found. -/
theorem holds_getAttestLib (hs : Idle s) :
    (setup port bRATLS).Holds RATLS.getAttestLib (fun found w =>
      if found.1 = true then
        0 ≠ found.2 ∧ w = ({ s with lib := true, symbol := some found.2 }, false)
      else Failed w) (s, false) := by
  simp only [RATLS.getAttestLib, int, Code.ask, Code.bind_eq, Code.pure_eq, Code.bind]
  refine holds_split trivial (fun attestLib (hlib : 0 = attestLib.ret) => ?_)
    fun attestLib _ (hlib : ¬ 0 = attestLib.ret) => ?_
  · rw [if_pos hlib]
    exact (still _ _).ret ⟨rfl, hs⟩
  · have hafter : after s (.dlopen (text "libra_tls_attest.so")) attestLib =
        { s with lib := true } := by
      simp only [after, decide_eq_true hlib]
    rw [if_neg hlib, hafter]
    refine holds_safe rfl (fun _ => id) fun createKey _ => ?_
    refine holds_split trivial (fun error (hnone : 0 ≠ error.ret) => ?_)
      fun error herror (hnone : ¬ 0 ≠ error.ret) => ?_
    · rw [if_pos hnone]
      exact (still _ _).ret ⟨rfl, hs⟩
    · rw [if_neg hnone]
      refine (still _ _).ret ⟨fun h0 => hnone (herror.mpr ?_), rfl⟩
      exact congrArg some h0.symm

/-- `setListener` returns true exactly if none of its calls failed. -/
theorem stage_setListener : (setup port bRATLS).Stage (TLSServer.setListener port bRATLS)
    (Fine (Ready port bRATLS)) Failed ({}, false) := by
  refine holds_safe (c := .serverInit) rfl (fun _ => id) fun _ _ => ?_
  have hbegun : Begun { inited := true : Server } := ⟨⟨rfl, rfl⟩, rfl, rfl, rfl⟩
  cases bRATLS with
  | false =>
    exact stage_seedAndBind hbegun (stage_loadCertificate ⟨⟨rfl, rfl⟩, rfl, rfl, rfl⟩ rfl)
  | true =>
    refine (holds_getAttestType hbegun.idle).bind ?_
    rintro ⟨known, _⟩ w hknown
    cases known with
    | false => exact (still _ _).failed hknown
    | true =>
      obtain ⟨got, rfl⟩ := (if_pos rfl).mp hknown
      refine (holds_getAttestLib ⟨rfl, rfl⟩).bind ?_
      rintro ⟨found, createKey⟩ w hfound
      cases found with
      | false => exact (still _ _).failed hfound
      | true =>
        obtain ⟨hpointer, rfl⟩ := (if_pos rfl).mp hfound
        exact stage_seedAndBind ⟨⟨rfl, rfl⟩, rfl, rfl, rfl⟩
          (stage_setCertificate ⟨⟨rfl, rfl⟩, rfl, rfl, rfl⟩ rfl hpointer rfl)

theorem stage_init (listener : Controller.Listener) (SGX : Int) :
    (setup (Listener.port listener) (decide (1 = SGX))).Stage (Listener.init listener SGX)
      (Fine (Ready (Listener.port listener) (decide (1 = SGX)))) Failed ({}, false) := by
  unfold Listener.init
  by_cases hSGX : 1 = SGX
  · rw [if_pos hSGX, decide_eq_true hSGX]
    exact stage_setListener
  · rw [if_neg hSGX, decide_eq_false hSGX]
    exact stage_setListener

theorem only_serving (listener : Controller.Listener) :
    (serving listener.runListener).Only (fun c => ∃ c', c = .serve c') True := by
  have honly : listener.runListener.Only (fun _ => True) True := by
    cases listener with
    | policy => exact only_policyListener (fun _ _ => trivial) fun _ => trivial
    | request => exact only_requestListener (fun _ _ => trivial) fun _ => trivial
  exact honly.expand (fun _ => rfl) fun c _ => (Code.only_ask ⟨c, rfl⟩).bind fun _ => trivial

theorem holds_run (listener : Controller.Listener) (SGX : Int) :
    (setup (Listener.port listener) (decide (1 = SGX))).Holds (Listener.run listener SGX)
      (fun _ w => Failed w ∨ Fine (Ready (Listener.port listener) (decide (1 = SGX))) w)
      ({}, false) := by
  refine (stage_init listener SGX).bind fun prepared w hw => ?_
  cases prepared with
  | false => exact (still _ _).ret (.inl hw)
  | true =>
    have hserve := Setting.triple_only
      (S := setup (Listener.port listener) (decide (1 = SGX))) ((still _ _).stable _)
      (A := Fine (Ready (Listener.port listener) (decide (1 = SGX)))) ?_ ?_ (fun _ _ hw => hw)
      (only_serving listener)
    · exact (hserve w hw).bind fun _ _ hw => (still _ _).ret (.inr hw)
    · rintro _ w ⟨c, rfl⟩ hw
      exact hw
    · rintro ⟨s, b⟩ _ a ⟨s', b'⟩ ⟨c, rfl⟩ hw ⟨hr, -⟩
      obtain ⟨hs, rfl⟩ := Machine.respond_watch hr
      cases hs
      rw [decide_eq_false (p := fails (.serve c) a) id, Bool.or_false]
      exact hw

end Stages

/-- A listener thread serves nobody unless its set-up was gone through without a failure as `fails`
names them: then it listens on its port, inside an enclave with the certificate the RA-TLS library
made. On the way there mbedTLS and the library are used in order. -/
theorem listeners_prepared (listener : Controller.Listener) (SGX : Int)
    {t : Config (Server × Bool) Unit SetupCall Answer Unit}
    (ht : (machine.watch fails).Reaches Machine.any
      (solo (Listener.run listener SGX) ({}, false)) t) :
    (∀ c, (t.code ()).pending = .calling c →
      Meets (Fine (Ready (Listener.port listener) (decide (1 = SGX))) t.world) c t.world.1) ∧
    ((t.code ()).pending = .undefined →
      Fine (Ready (Listener.port listener) (decide (1 = SGX))) t.world) ∧
    ((t.code ()).pending = .returned () →
      Failed t.world ∨ Fine (Ready (Listener.port listener) (decide (1 = SGX))) t.world) := by
  have hholds := ht.alone (A := (· = ({}, false))) (fun w hw => by
    cases hw
    exact holds_run listener SGX) rfl
  exact ⟨fun c hc => hholds.pre hc, hholds.undefined, hholds.returned⟩

/-- In an enclave, with an attestation type of four bytes. -/
theorem listeners_prepared_accepting :
    ∃ t, (machine.watch fails).Reaches Machine.any
      (solo (Listener.run .policy 1) ({}, false)) t ∧ Ready (text "30010") true t.world.1 := by
  have hrun : (machine.watch fails).observe (fun w => (w.1.ready, w.2))
      (solo (Listener.run .policy 1) ({}, false))
      [.reply () { ret := 0 }, .reply () { ret := 3 }, .reply () { ret := 4, bytes := text "dcap" },
        .reply () { ret := 0 }, .reply () { ret := 1 }, .reply () { ret := 7 },
        .reply () { ret := 0 }, .reply () { ret := 0 },
        .reply () { ret := 0, key := some [1], crt := some [2] },
        .reply () { ret := 0 }, .reply () { ret := 0 }, .reply () { ret := 0 },
        .reply () { ret := 0 }, .reply () { ret := 0 }, .reply () { ret := 0 },
        .reply () { ret := 0 }, .reply () { ret := 0 }] () =
      some (.calling (.serve .netAccept), true, false) := by decide +kernel
  obtain ⟨t, ht, hp, _⟩ := Machine.reaches_of_observe hrun
  exact ⟨t, ht, ((listeners_prepared .policy 1 ht).1 _ hp).1⟩

/-- What `setListener` returns tells whether one of its calls failed as `fails` says, and with it
whether the server is ready. -/
theorem setListener_iff (port : Str) (bRATLS : Bool)
    {t : Config (Server × Bool) Unit SetupCall Answer Bool} {prepared : Bool}
    (ht : (machine.watch fails).Reaches Machine.any
      (solo (TLSServer.setListener port bRATLS) ({}, false)) t)
    (hprepared : (t.code ()).pending = .returned prepared) :
    (prepared = true ↔ t.world.2 = false) ∧ (prepared = true ↔ Ready port bRATLS t.world.1) := by
  have hholds := ht.alone (A := (· = ({}, false))) (fun w hw => by
    cases hw
    exact stage_setListener) rfl
  have hend := hholds.returned hprepared
  cases prepared with
  | true =>
    obtain ⟨hready, hfine⟩ := (if_pos rfl).mp hend
    exact ⟨iff_of_true rfl hfine, iff_of_true rfl hready⟩
  | false =>
    obtain ⟨hfailed, -, hready⟩ := (if_neg Bool.false_ne_true).mp hend
    refine ⟨iff_of_false Bool.false_ne_true ?_, iff_of_false Bool.false_ne_true fun h => ?_⟩
    · rw [hfailed]
      exact Bool.true_eq_false_eq_False
    · exact Bool.false_ne_true (hready.symm.trans h.ready)

/-- Outside of an enclave, without the key file. -/
theorem setListener_without_key :
    ∃ t, (machine.watch fails).Reaches Machine.any
      (solo (TLSServer.setListener (text "30010") false) ({}, false)) t ∧
        ¬ Ready (text "30010") false t.world.1 := by
  have hrun : (machine.watch fails).observe Prod.snd
      (solo (TLSServer.setListener (text "30010") false) ({}, false))
      [.reply () { ret := 0 }, .reply () { ret := 0 }, .reply () { ret := 0 },
        .reply () { ret := -0x3E00 }] () = some (.returned false, true) := by decide +kernel
  obtain ⟨t, ht, hp, _⟩ := Machine.reaches_of_observe hrun
  exact ⟨t, ht, fun h => Bool.false_ne_true ((setListener_iff _ _ ht hp).2.mpr h)⟩

end SGXess.Setup
