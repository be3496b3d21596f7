import SGXessControll.Attestator
import SGXessControll.Setup

/-!
# Setting up the attestation server

The other server of the Controller reads the attestation type itself, and goes by it in where
its certificate comes from.
-/

namespace SGXess.Setup

set_option autoImplicit false

open Calls (Code Setting Machine Config solo)

def CA_CRT_PATH : Str := text "ssl/ca.crt"

namespace Attestator

def getAttestType (type : Str) : Steps (Bool × Str) := do
  let f ← int (.fopen (text "/dev/attestation/attestation_type"))
  if 0 = f then
    return (false, type)
  let read ← Code.ask (.fread 32)
  if read.bytes.length ≤ 0 then
    let errsv ← int .errno
    -- `return -errsv;` with the file open. The same test behind it never holds.
    return (decide (-errsv ≠ 0), type)
  void .fclose
  -- The array may be full.
  let type ← serving (appendBuffer 32 [] read.bytes)
  return (true, type)

/-- The library and the function, null pointers where there are none. -/
def loadAttestLibrary (attestType : Str) : Steps (Bool × Int × Int) := do
  if attestType = text "none" then
    return (true, 0, 0)
  if attestType = text "epid" ∨ attestType = text "dcap" then
    let ra_tls_attest_lib ← int (.dlopen (text "libra_tls_attest.so"))
    if 0 = ra_tls_attest_lib then
      return (false, 0, 0)
    let f ← int (.dlsym (text "ra_tls_create_key_and_crt_der"))
    -- Only printed.
    void .dlerror
    return (true, ra_tls_attest_lib, f)
  return (false, 0, 0)

def freeDer (der : Option Str) : Steps Unit :=
  match der with
  | some der => void (.free der)
  | none => return

/-- What is left by `break` in `generateKeyRATLS`. -/
def parseKeyPair (der : Answer) : Steps Bool := do
  if 0 ≠ der.ret then
    return false
  let ret ← int (.x509CrtParse der.crt)
  if 0 ≠ ret then
    return false
  let ret ← int (.pkParseKey der.key)
  if 0 ≠ ret then
    return false
  return true

def generateKeyRATLS (f : Int) : Steps Bool := do
  let der ← Code.ask (.createKey f)
  let ret ← parseKeyPair der
  freeDer der.key
  freeDer der.crt
  return ret

def generateKey (ra_tls_attest_lib f : Int) : Steps Bool := do
  if 0 ≠ ra_tls_attest_lib then
    generateKeyRATLS f
  else
    let ret ← int (.x509CrtParseFile SRV_CRT_PATH)
    if 0 ≠ ret then
      return false
    let ret ← int (.x509CrtParseFile CA_CRT_PATH)
    if 0 ≠ ret then
      return false
    let ret ← int (.pkParseKeyfile SRV_KEY_PATH)
    if 0 ≠ ret then
      return false
    return true

/-- The entropy context is a local one. -/
def seedRand : Steps Bool := do
  let ret ← int .ctrDrbgSeed
  if 0 ≠ ret then
    return false
  void .entropyFree
  return true

def initRATLS : Steps (Bool × Int) := do
  let (known, m_attestType) ← getAttestType []
  if known = false then
    return (false, 0)
  let (loaded, m_ra_tls_attest_lib, f) ← loadAttestLibrary m_attestType
  if loaded = false then
    return (false, m_ra_tls_attest_lib)
  if (← seedRand) = false then
    return (false, m_ra_tls_attest_lib)
  if (← generateKey m_ra_tls_attest_lib f) = false then
    return (false, m_ra_tls_attest_lib)
  return (true, m_ra_tls_attest_lib)

def setupRATLS (m_ra_tls_attest_lib : Int) (port : Nat) : Steps Bool := do
  let ret ← int (.netBind (toStr port))
  if 0 ≠ ret then
    return false
  let ret ← int .sslConfigDefaults
  if 0 ≠ ret then
    return false
  void .sslConfRng
  if 0 = m_ra_tls_attest_lib then
    void .sslConfCaChain
  let ret ← int .sslConfOwnCert
  if 0 ≠ ret then
    return false
  let ret ← int .sslSetup
  if 0 ≠ ret then
    return false
  return true

/-- `Listener::init`. -/
def init (port : Nat) : Steps Bool := do
  let (prepared, m_ra_tls_attest_lib) ← initRATLS
  if prepared = false then
    return false
  if (← setupRATLS m_ra_tls_attest_lib port) = false then
    return false
  return true

/-- The attestation type filled the array, so that no zero byte ends it. -/
def Overruns (s : Server) : Prop := ∃ bytes, s.read = some bytes ∧ bytes.length = 32 ∧ 0 ∉ bytes

/-- The file stays open exactly if nothing could be read of it; the buffers of the library are
freed. -/
def Tidy (s : Server) : Prop :=
  (s.file = true ↔ s.read = some []) ∧ s.heap = [] ∧ ¬ Overruns s

/-- The certificate and the key, which go by the library. -/
def Certified (lib : Bool) (made : Option (Str × Str)) (cert : List Source × Source) : Prop :=
  if lib = true then ∃ key crt, made = some (key, crt) ∧ cert = ([.der crt], .der key)
  else cert = ([.file SRV_CRT_PATH, .file CA_CRT_PATH], .file SRV_KEY_PATH)

/-- The library is used for the types that need it. -/
def Typed (s : Server) : Prop := ∃ bytes, s.read = some bytes ∧
  if s.lib = true then bytes.takeWhile (· ≠ 0) ∈ [text "epid", text "dcap"]
  else bytes.takeWhile (· ≠ 0) = text "none"

structure Prepared (port : Nat) (s : Server) : Prop where
  ready : s.ready = true
  bound : s.bound = some (toStr port)
  caChain : s.caChain = !s.lib
  typed : Typed s
  cert : ∃ cert, s.ownCert = some cert ∧ Certified s.lib s.made cert

/-- The attestation type is known, and there is no certificate yet. -/
structure Started (s : Server) : Prop where
  inited : s.inited = true
  srvcert : s.srvcert = []
  caChain : s.caChain = false
  ready : s.ready = false
  tidy : Tidy s
  typed : Typed s

structure Loaded (lib : Bool) (s : Server) : Prop where
  lib : s.lib = lib
  inited : s.inited = true
  seeded : s.seeded = true
  caChain : s.caChain = false
  ready : s.ready = false
  tidy : Tidy s
  typed : Typed s
  cert : ∃ key, s.pkey = some key ∧ Certified s.lib s.made (s.srvcert, key)

section Stages

variable {s : Server} {c : SetupCall} {α : Type} {Φ : α → Server → Prop} {A F : Server → Prop}

abbrev attesting : Setting Server SetupCall Answer :=
  machine.alone Machine.any (fun c s => Meets False c s ∨ c = .createKey 0 ∧ s.symbol = some 0)
    Overruns

theorem still : attesting.Still := by
  rintro w w' (⟨e, _⟩ | ⟨j, hj, _⟩)
  · cases e
  · exact absurd rfl hj

theorem holds_call {k : Answer → Steps α} (h : attesting.pre c s)
    (hk : ∀ a, Possible s c a → attesting.Holds (k a) Φ (after s c a)) :
    attesting.Holds (.call c k) Φ s := by
  refine Setting.Still.call still h ?_
  rintro a s' ⟨hr, -⟩
  obtain ⟨hpossible, heq⟩ := Option.ite_none_right_eq_some.mp hr
  cases Option.some.inj heq
  exact hk a hpossible

/-- Neither the file nor the heap is touched. -/
def quiet : SetupCall → Bool
  | .fopen _ | .fread _ | .fclose | .createKey _ | .free _ => false
  | _ => true

theorem after_quiet (hc : quiet c = true) (a : Answer) :
    (after s c a).file = s.file ∧ (after s c a).read = s.read ∧ (after s c a).heap = s.heap := by
  cases c <;> first
    | exact Bool.noConfusion hc
    | exact ⟨rfl, rfl, rfl⟩
    | (simp only [after]; split <;> exact ⟨rfl, rfl, rfl⟩)

theorem Tidy.after (hs : Tidy s) (hc : quiet c = true) (a : Answer) : Tidy (after s c a) := by
  obtain ⟨hfile, hread, hheap⟩ := after_quiet (s := s) hc a
  rw [Tidy, Overruns, hfile, hread, hheap]
  exact hs

/-- A call whose result decides whether the set-up goes on. -/
theorem stage_check {bad : Int → Prop} [DecidablePred bad] {k : Int → Steps Bool}
    (h : Meets False c s) (hF : ∀ a, F (after s c a))
    (hk : ∀ a, Possible s c a → ¬ bad a.ret → attesting.Stage (k a.ret) A F (after s c a)) :
    attesting.Stage (do
      let ret ← int c
      if bad ret then
        return false
      k ret) A F s :=
  holds_call (.inl h) fun a ha => still.test (fun _ => hF a) fun hret => hk a ha hret

theorem holds_getAttestType (hs : s.file = false) :
    attesting.Holds (getAttestType []) (fun known s' =>
      (∃ file got, s' = { s with file := file, read := got } ∧ (file = true ↔ got = some [])) ∧
        ¬ Overruns s' ∧ (known.1 = true → known.2 = [] ∨
          ∃ bytes, s'.read = some bytes ∧ known.2 = bytes.takeWhile (· ≠ 0))) s := by
  simp only [getAttestType, int, void, Code.ask, Code.bind_eq, Code.pure_eq, Code.bind]
  refine holds_call (.inl hs) fun f _ => ?_
  by_cases hf : 0 = f.ret
  · rw [if_pos hf]
    refine still.ret ⟨⟨false, none, ?_, by simp⟩, ?_, fun h => absurd h Bool.false_ne_true⟩
    · simp only [after, ← hf, ne_eq, not_true_eq_false, decide_false]
    · rintro ⟨bytes, hbytes, -⟩
      cases hbytes
  · rw [if_neg hf]
    have hopen : (after s (.fopen (text "/dev/attestation/attestation_type")) f).file = true :=
      decide_eq_true hf
    refine holds_call (.inl hopen) fun read hread => ?_
    by_cases hnone : read.bytes.length ≤ 0
    · rw [if_pos hnone]
      have hempty : read.bytes = [] := List.length_eq_zero_iff.mp (Nat.le_zero.mp hnone)
      refine holds_call (.inl trivial) fun _ _ =>
        still.ret ⟨⟨true, some [], ?_, by simp⟩, ?_, fun _ => .inl rfl⟩
      · simp only [after, hempty, decide_eq_true hf]
      · rintro ⟨bytes, hbytes, hlen, -⟩
        cases hbytes
        rw [hempty] at hlen
        cases hlen
    · rw [if_neg hnone]
      have hsome : read.bytes ≠ [] := fun h => hnone (by rw [h]; exact Nat.le_refl 0)
      refine holds_call (.inl hopen) fun _ _ => ?_
      refine Setting.Holds.bind (Φ := fun type s' =>
        s' = { s with file := false, read := some read.bytes } ∧ ¬ Overruns s' ∧
          type = read.bytes.takeWhile (· ≠ 0)) ?_ ?_
      · unfold appendBuffer
        cases hend : Bytes.untilFirst 0 (Bytes.intoArray 0 32 read.bytes) with
        | none =>
          obtain ⟨hlen, hzero⟩ := (Bytes.untilFirst_intoArray_eq_none_iff hread).mp hend
          exact still.undefined ⟨read.bytes, rfl, hlen, hzero⟩
        | some type =>
          obtain ⟨htype, hends⟩ := (Bytes.untilFirst_intoArray_eq_some_iff hread).mp hend
          refine still.ret ⟨rfl, ?_, htype⟩
          rintro ⟨bytes, hbytes, hlen, hzero⟩
          cases hbytes
          exact hends.elim (fun hlt => hlt.ne hlen) hzero
      · rintro type _ ⟨rfl, hends, htype⟩
        refine still.ret ⟨⟨false, _, rfl, by simpa using hsome⟩, hends, fun _ => ?_⟩
        exact .inr ⟨_, rfl, htype⟩

theorem holds_loadAttestLibrary {attestType : Str} (hs : Tidy s) :
    attesting.Holds (loadAttestLibrary attestType) (fun loaded s' =>
      if loaded.1 = true then
        (loaded.2.1 = 0 ∧ s' = s ∧ attestType = text "none") ∨
        (0 ≠ loaded.2.1 ∧ s' = { s with lib := true, symbol := some loaded.2.2 } ∧
          attestType ∈ [text "epid", text "dcap"])
      else Tidy s') s := by
  simp only [loadAttestLibrary, int, void, Code.ask, Code.bind_eq, Code.pure_eq, Code.bind]
  by_cases hplain : attestType = text "none"
  · rw [if_pos hplain]
    exact still.ret (.inl ⟨rfl, rfl, hplain⟩)
  · rw [if_neg hplain]
    by_cases hquote : attestType = text "epid" ∨ attestType = text "dcap"
    · rw [if_pos hquote]
      refine holds_call (.inl trivial) fun lib _ => ?_
      by_cases hlib : 0 = lib.ret
      · rw [if_pos hlib]
        exact still.ret (hs.after (c := .dlopen _) rfl lib)
      · rw [if_neg hlib]
        have hopen : (after s (.dlopen (text "libra_tls_attest.so")) lib).lib = true :=
          decide_eq_true hlib
        refine holds_call (.inl hopen) fun f _ => holds_call (.inl trivial) fun _ _ => ?_
        refine still.ret (.inr ⟨hlib, ?_, by simpa using hquote⟩)
        simp only [after, decide_eq_true hlib]
    · rw [if_neg hquote]
      exact still.ret hs

theorem stage_seedRand (hs : Started s) :
    attesting.Stage seedRand (· = { s with seeded := true }) Tidy s := by
  refine stage_check hs.inited (fun a => Tidy.after hs.tidy rfl a) fun a _ hret => ?_
  refine holds_call (.inl trivial) fun _ _ => still.done ?_
  simp only [after, if_pos (not_not.mp hret).symm]

/-- The key and the certificate of one call of the library. -/
theorem stage_parseKeyPair {der : Answer} (hinited : s.inited = true) (hseeded : s.seeded = true)
    (hcrt : s.srvcert = []) (hheap : s.heap = der.key.toList ++ der.crt.toList)
    (hmade : der.ret = 0 → der.key.isSome = true ∧ der.crt.isSome = true) :
    attesting.Stage (parseKeyPair der) (fun s' => ∃ key crt, der.key = some key ∧
      der.crt = some crt ∧ s' = { s with srvcert := [.der crt], pkey := some (.der key) })
      (fun s' => s'.file = s.file ∧ s'.read = s.read ∧ s'.heap = s.heap) s := by
  refine still.test (fun _ => ⟨rfl, rfl, rfl⟩) fun hret => ?_
  obtain ⟨hkey, hcrt'⟩ := hmade (not_not.mp hret).symm
  obtain ⟨key, hkey⟩ := Option.isSome_iff_exists.mp hkey
  obtain ⟨crt, hcrt'⟩ := Option.isSome_iff_exists.mp hcrt'
  rw [hkey, hcrt'] at hheap ⊢
  refine stage_check ⟨hinited, crt, by simp [hheap], rfl⟩ (after_quiet rfl) fun a _ hret => ?_
  simp only [after, if_pos (not_not.mp hret).symm, hcrt]
  refine stage_check ⟨hseeded, key, by simp [hheap], rfl⟩ (after_quiet rfl) fun a _ hret => ?_
  refine still.done ⟨key, crt, rfl, rfl, ?_⟩
  simp only [after, if_pos (not_not.mp hret).symm]
  rfl

/-- Each buffer is freed once, where there is one. -/
theorem holds_freeDer {key crt : Option Str} {ret : Bool}
    (hheap : s.heap = key.toList ++ crt.toList) :
    attesting.Holds (do freeDer key; freeDer crt; return ret)
      (fun ret' s' => ret' = ret ∧ s' = { s with heap := [] }) s := by
  have hcrt : ∀ s : Server, s.heap = crt.toList → attesting.Holds (do freeDer crt; return ret)
      (fun ret' s' => ret' = ret ∧ s' = { s with heap := [] }) s := by
    intro s hheap
    cases crt with
    | none =>
      have hnil : s.heap = [] := hheap
      refine still.ret ⟨rfl, ?_⟩
      rw [← hnil]
    | some crt =>
      refine holds_call (c := .free crt) (.inl (by simp [Meets, hheap])) fun _ _ =>
        still.ret ⟨rfl, ?_⟩
      simp only [after, hheap, Option.toList_some, List.erase_cons_head]
  cases key with
  | none => exact hcrt s hheap
  | some key =>
    refine holds_call (c := .free key) (.inl (by simp [Meets, hheap])) fun a _ => ?_
    have hafter : after s (.free key) a = { s with heap := crt.toList } := by
      simp only [after, hheap, Option.toList_some, List.singleton_append, List.erase_cons_head]
    rw [hafter]
    exact hcrt { s with heap := crt.toList } rfl

/-- Outside of the files, through a null pointer where the symbol was not found. -/
theorem stage_generateKeyRATLS {f : Int} (hs : Started s) (hseeded : s.seeded = true)
    (hlib : s.lib = true) (hf : s.symbol = some f) :
    attesting.Stage (generateKeyRATLS f) (Loaded s.lib) Tidy s := by
  have hpre : attesting.pre (.createKey f) s := by
    by_cases h0 : 0 = f
    · exact .inr ⟨by rw [h0], by rw [hf, h0]⟩
    · exact .inl ⟨h0, hf⟩
  simp only [generateKeyRATLS, Code.ask, Code.bind_eq, Code.bind]
  refine holds_call hpre fun der hder => ?_
  have hheap : (after s (.createKey f) der).heap = der.key.toList ++ der.crt.toList := by
    simp only [after, hs.tidy.2.1, List.append_nil]
  have hparse : attesting.Stage (parseKeyPair der) _ _ (after s (.createKey f) der) :=
    stage_parseKeyPair hs.inited hseeded hs.srvcert hheap hder.2
  refine Setting.Holds.bind hparse fun ret s' hs' => ?_
  cases ret with
  | false =>
    obtain ⟨hfile, hread, hheap'⟩ := (if_neg Bool.false_ne_true).mp hs'
    refine (holds_freeDer (hheap'.trans hheap)).post ?_
    rintro _ _ ⟨rfl, rfl⟩
    refine (if_neg Bool.false_ne_true).mpr ?_
    simp only [Tidy, Overruns, hfile, hread]
    exact ⟨hs.tidy.1, trivial, hs.tidy.2.2⟩
  | true =>
    obtain ⟨key, crt, hkey, hcrt, rfl⟩ := (if_pos rfl).mp hs'
    refine (holds_freeDer ?_).post ?_
    · exact hheap
    · rintro _ _ ⟨rfl, rfl⟩
      refine (if_pos rfl).mpr ⟨rfl, hs.inited, hseeded, hs.caChain, hs.ready,
        ⟨hs.tidy.1, rfl, hs.tidy.2.2⟩, hs.typed, _, rfl, ?_⟩
      simp only [after, hkey, hcrt]
      exact (if_pos hlib).mpr ⟨key, crt, rfl, rfl⟩

theorem stage_generateKey {lib f : Int} (hs : Started s) (hseeded : s.seeded = true)
    (hlib : s.lib = decide (0 ≠ lib)) (hf : 0 ≠ lib → s.symbol = some f) :
    attesting.Stage (generateKey lib f) (Loaded s.lib) Tidy s := by
  unfold generateKey
  by_cases h0 : 0 ≠ lib
  · rw [if_pos h0]
    exact stage_generateKeyRATLS hs hseeded (hlib.trans (decide_eq_true h0)) (hf h0)
  · rw [if_neg h0]
    have hnone : s.lib = false := hlib.trans (decide_eq_false h0)
    have htidy : ∀ srvcert, Tidy { s with srvcert := srvcert } := fun _ => hs.tidy
    refine stage_check hs.inited ((htidy _).after rfl) fun a _ hret => ?_
    simp only [after, if_pos (not_not.mp hret).le, hs.srvcert]
    refine stage_check hs.inited ((htidy _).after rfl) fun a _ hret => ?_
    simp only [after, if_pos (not_not.mp hret).le]
    refine stage_check hseeded ((htidy _).after rfl) fun a _ hret => ?_
    refine still.done ?_
    simp only [after, if_pos (not_not.mp hret).symm]
    exact ⟨rfl, hs.inited, hseeded, hs.caChain, hs.ready, hs.tidy, hs.typed, _, rfl,
      (if_neg (by rw [hnone]; exact Bool.false_ne_true)).mpr rfl⟩

theorem holds_initRATLS : attesting.Holds initRATLS (fun prepared s' =>
    if prepared.1 = true then Loaded (decide (0 ≠ prepared.2)) s' else Tidy s')
    { inited := true } := by
  have hleft : ∀ {lib : Int} {s' : Server}, Tidy s' → attesting.Holds (.ret (false, lib))
      (fun prepared s' => if prepared.1 = true then Loaded (decide (0 ≠ prepared.2)) s'
        else Tidy s') s' := fun hs => still.ret ((if_neg Bool.false_ne_true).mpr hs)
  refine (holds_getAttestType rfl).bind ?_
  rintro ⟨known, attestType⟩ _ ⟨⟨file, got, rfl, hfile⟩, hends, htype⟩
  have htidy : Tidy { inited := true, file := file, read := got } := ⟨hfile, rfl, hends⟩
  cases known with
  | false => exact hleft htidy
  | true =>
    refine (holds_loadAttestLibrary htidy).bind ?_
    rintro ⟨loaded, lib, f⟩ s' hs'
    cases loaded with
    | false => exact hleft hs'
    | true =>
      obtain ⟨hstarted, hlib, hf⟩ : Started s' ∧ s'.lib = decide (0 ≠ lib) ∧
          (0 ≠ lib → s'.symbol = some f) := by
        have hempty : text "none" ≠ [] ∧ text "epid" ≠ [] ∧ text "dcap" ≠ [] := by decide
        rcases (if_pos rfl).mp hs' with ⟨hzero, rfl, hplain⟩ | ⟨hpointer, rfl, hquote⟩
        · obtain rfl : lib = 0 := hzero
          obtain ⟨bytes, hread, hbytes⟩ := (htype rfl).resolve_left (hplain ▸ hempty.1)
          refine ⟨⟨rfl, rfl, rfl, rfl, htidy, bytes, hread, ?_⟩, rfl, fun h => absurd rfl h⟩
          exact (if_neg Bool.false_ne_true).mpr (hbytes.symm.trans hplain)
        · have hsome : attestType ≠ [] := by
            rintro rfl
            rcases List.mem_pair.mp hquote with h | h
            · exact hempty.2.1 h.symm
            · exact hempty.2.2 h.symm
          obtain ⟨bytes, hread, hbytes⟩ := (htype rfl).resolve_left hsome
          refine ⟨⟨rfl, rfl, rfl, rfl, htidy, bytes, hread, ?_⟩, (decide_eq_true hpointer).symm,
            fun _ => rfl⟩
          exact (if_pos rfl).mpr (hbytes ▸ hquote)
      refine (stage_seedRand hstarted).bind fun seeded s'' hseeded => ?_
      cases seeded with
      | false => exact hleft hseeded
      | true =>
        obtain rfl := (if_pos rfl).mp hseeded
        have hstarted' : Started { s' with seeded := true } :=
          ⟨hstarted.inited, hstarted.srvcert, hstarted.caChain, hstarted.ready, hstarted.tidy,
            hstarted.typed⟩
        refine (stage_generateKey hstarted' rfl hlib hf).bind fun generated s'' hgenerated => ?_
        cases generated with
        | false => exact hleft hgenerated
        | true =>
          refine still.ret ((if_pos rfl).mpr ?_)
          rw [← hlib]
          exact (if_pos rfl).mp hgenerated

theorem stage_setupRATLS {lib : Int} {port : Nat} (hs : Loaded (decide (0 ≠ lib)) s) :
    attesting.Stage (setupRATLS lib port) (fun s' => Tidy s' ∧ Prepared port s') Tidy s := by
  obtain ⟨key, hkey, hcert⟩ := hs.cert
  have hcrt : s.srvcert ≠ [] := by
    intro hnil
    rw [hnil, Certified] at hcert
    split at hcert
    · obtain ⟨_, _, _, heq⟩ := hcert
      cases heq
    · cases hcert
  refine stage_check hs.inited (fun a => hs.tidy.after rfl a) fun a _ hret => ?_
  simp only [after, if_pos (not_not.mp hret).symm]
  have htidy : Tidy { s with bound := some (toStr port) } := hs.tidy
  refine stage_check hs.inited (htidy.after rfl) fun a _ hret => ?_
  simp only [after, if_pos (not_not.mp hret).symm]
  refine holds_call (c := .sslConfRng) (.inl ⟨rfl, hs.ready⟩) fun _ _ => ?_
  have hrest : ∀ chain, chain = !s.lib → attesting.Stage (do
      let ret ← int .sslConfOwnCert
      if 0 ≠ ret then
        return false
      let ret ← int .sslSetup
      if 0 ≠ ret then
        return false
      return true) (fun s' => Tidy s' ∧ Prepared port s') Tidy
      { s with bound := some (toStr port), defaults := true, rng := true, caChain := chain } := by
    intro chain hchain
    have htidy : ∀ pkey ownCert, Tidy { s with
        bound := some (toStr port), defaults := true, rng := true, caChain := chain,
        pkey := pkey, ownCert := ownCert } := fun _ _ => hs.tidy
    refine stage_check ⟨rfl, hs.ready, hcrt, by rw [hkey]; rfl⟩ ((htidy _ _).after rfl)
      fun a _ hret => ?_
    simp only [after, if_pos (not_not.mp hret).symm, hkey]
    refine stage_check ⟨rfl, hs.ready, rfl, hs.seeded, rfl⟩ ((htidy _ _).after rfl)
      fun a _ hret => ?_
    refine still.done ?_
    simp only [after, if_pos (not_not.mp hret).symm]
    exact ⟨hs.tidy, rfl, rfl, hchain, hs.typed, _, rfl, hcert⟩
  by_cases h0 : 0 = lib
  · have hplain : s.lib = false := hs.lib.trans (decide_eq_false (not_not.mpr h0))
    rw [if_pos h0]
    refine holds_call (c := .sslConfCaChain) (.inl ⟨rfl, hs.ready, hcrt⟩) fun _ _ => ?_
    exact hrest true (by rw [hplain]; rfl)
  · have hquote : s.lib = true := hs.lib.trans (decide_eq_true h0)
    rw [if_neg h0]
    exact hrest s.caChain (by rw [hquote, hs.caChain]; rfl)

theorem stage_init (port : Nat) :
    attesting.Stage (init port) (fun s' => Tidy s' ∧ Prepared port s') Tidy { inited := true } := by
  refine holds_initRATLS.bind ?_
  rintro ⟨prepared, lib⟩ s' hs'
  cases prepared with
  | false => exact still.failed hs'
  | true => exact (stage_setupRATLS hs').andThen still fun _ hs => still.done hs

end Stages

/-- In every run of `Listener::init` the calls are in order, but that the key function is called
through a null pointer where the library does not have it; the type is searched beyond its array
only if it fills it. The file stays open exactly if nothing could be read of it, and a server that
is ready has the certificate that goes by the type. -/
theorem init_prepared (port : Nat) {t : Config Server Unit SetupCall Answer Bool}
    (ht : machine.Reaches Machine.any (solo (init port) { inited := true }) t) :
    (∀ c, (t.code ()).pending = .calling c →
      Meets False c t.world ∨ c = .createKey 0 ∧ t.world.symbol = some 0) ∧
    ((t.code ()).pending = .undefined → Overruns t.world) ∧
    ∀ prepared, (t.code ()).pending = .returned prepared →
      Tidy t.world ∧ (prepared = true → Prepared port t.world) := by
  have hholds := ht.alone (A := (· = { inited := true })) (fun w hw => by
    cases hw
    exact stage_init port) rfl
  refine ⟨fun c hc => hholds.pre hc, hholds.undefined, fun prepared hprepared => ?_⟩
  have hend := hholds.returned hprepared
  cases prepared with
  | true =>
    obtain ⟨htidy, hready⟩ := (if_pos rfl).mp hend
    exact ⟨htidy, fun _ => hready⟩
  | false => exact ⟨(if_neg Bool.false_ne_true).mp hend, nofun⟩

/-- The library is loaded, but what it should define is missing. -/
theorem init_prepared_null :
    ∃ t, machine.Reaches Machine.any (solo (init 30010) { inited := true }) t ∧
      (t.code ()).pending = .calling (.createKey 0) ∧ t.world.symbol = some 0 := by
  have hrun : machine.observe Server.seeded (solo (init 30010) { inited := true })
      [.reply () { ret := 3 }, .reply () { ret := 4, bytes := text "dcap" }, .reply () { ret := 0 },
        .reply () { ret := 1 }, .reply () { ret := 0 }, .reply () { ret := 1 },
        .reply () { ret := 0 }, .reply () { ret := 0 }] () =
      some (.calling (.createKey 0), true) := by decide +kernel
  obtain ⟨t, ht, hp, _⟩ := Machine.reaches_of_observe hrun
  rcases (init_prepared 30010 ht).1 _ hp with ⟨hpointer, _⟩ | ⟨_, hsymbol⟩
  · exact absurd rfl hpointer
  · exact ⟨t, ht, hp, hsymbol⟩

end Attestator

end SGXess.Setup
