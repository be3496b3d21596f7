import SGXessControll.Calls.Transcript
import SGXessControll.Listeners

/-!
# What the transport may answer

Reads and writes as they are specified: a write takes a part of what it is offered, a read
delivers no more than there is room for, and either may fail. Every other call may return
anything, but `mbedtls_exit` does not return.
-/

namespace SGXess

set_option autoImplicit false

open Calls TLSClient

/-- The bytes of an answered write are those taken. -/
def Possible (c : Call) (r : Reply) : Prop :=
  match c with
  | .exit _ => False
  | .send buf => (r.ret < 0 ∧ r.bytes = []) ∨
      (r.ret = toInt r.bytes.length ∧ r.bytes <+: buf ∧ (r.bytes = [] → buf = []))
  | .sslWrite _ buf => (r.ret < 0 ∧ r.bytes = []) ∨
      (r.ret = r.bytes.length ∧ r.bytes <+: buf ∧ (r.bytes = [] → buf = []))
  | .recv len | .sslRead _ len => (r.ret < 0 ∧ r.bytes = []) ∨
      (r.ret = r.bytes.length ∧ r.bytes.length ≤ len)
  | _ => True

instance : DecidableRel Possible := fun c _ =>
  match c with
  | .exit _ => isFalse id
  | .send _ => inferInstanceAs (Decidable (_ ∨ _))
  | .sslWrite _ _ => inferInstanceAs (Decidable (_ ∨ _))
  | .recv _ => inferInstanceAs (Decidable (_ ∨ _))
  | .sslRead _ _ => inferInstanceAs (Decidable (_ ∨ _))
  | .clientInit | .clientFree | .ctrDrbgSeed | .x509CrtParseFile _ | .netConnect _ _ _
  | .sslConfigDefaults _ | .sslSetup | .sslSetHostname _ | .sslHandshake _ | .sslGetVerifyResult
  | .sslCloseNotify _ | .netAccept | .netFree | .sslSessionReset | .sslFree | .accept | .close
  | .sleep | .insertPolicy _ | .popPolicy | .updatePolicy _ | .validateRequest _
  | .insertClient _ | .popClient => isTrue trivial

theorem possible_recv {len : Nat} {r : Reply} (h : Possible (.recv len) r) :
    r.bytes.length ≤ len ∧ (r.ret < 0 ∨ r.ret = r.bytes.length) ∧ (r.ret < 0 → r.bytes = []) := by
  rcases h with h | h
  · exact ⟨by rw [h.2]; exact Nat.zero_le _, Or.inl h.1, fun _ => h.2⟩
  · exact ⟨h.2, Or.inr h.1, fun hneg => by omega⟩

theorem possible_sslRead {side : Side} {len : Nat} {r : Reply}
    (h : Possible (.sslRead side len) r) :
    r.bytes.length ≤ len ∧ (r.ret < 0 ∨ r.ret = r.bytes.length) ∧ (r.ret < 0 → r.bytes = []) :=
  possible_recv h

/-- The write failed for good. -/
def WriteFails (c : Call) (r : Reply) : Prop :=
  match c with
  | .send _ => r.ret < 0
  | .sslWrite _ _ => r.ret < 0 ∧ wantsRetry r = false
  | _ => False

instance : DecidableRel WriteFails := fun c r =>
  match c with
  | .send _ => inferInstanceAs (Decidable (r.ret < 0))
  | .sslWrite _ _ => inferInstanceAs (Decidable (_ ∧ _))
  | .clientInit | .clientFree | .ctrDrbgSeed | .x509CrtParseFile _ | .netConnect _ _ _
  | .sslConfigDefaults _ | .sslSetup | .sslSetHostname _ | .sslHandshake _ | .sslGetVerifyResult
  | .sslCloseNotify _ | .sslRead _ _ | .netAccept | .netFree | .sslSessionReset | .sslFree
  | .exit _ | .accept | .close | .recv _ | .sleep | .insertPolicy _ | .popPolicy
  | .updatePolicy _ | .validateRequest _ | .insertClient _ | .popClient => isFalse id

theorem not_writeFails_of_isStep {c : Call} (hc : TLSClient.isStep c = true) (r : Reply) :
    ¬ WriteFails c r := by
  cases c <;> first
    | exact id
    | cases hc

/-- The calls a thread has made, with their answers. -/
abbrev Log := Transcript Call Reply

abbrev logged (pre : Call → Log → Prop) (fault : Log → Prop) : Setting Log Call Reply :=
  recorded Possible pre fault

/-- The calls of a `connect` without a failure, each answered by 0. -/
def connected (IP port : Str) : Log :=
  [.clientInit, .ctrDrbgSeed, .x509CrtParseFile caCrtPath, .netConnect IP port .tcp,
    .sslConfigDefaults .tcp, .sslSetup, .sslSetHostname IP, .sslHandshake .client,
    .sslGetVerifyResult].map fun c => (c, ⟨0, []⟩)

/-- Some call was answered as `fails` says. -/
def Failed (fails : Call → Reply → Prop) (w : Log) : Prop := ∃ p ∈ w, fails p.1 p.2

theorem failed_append {fails : Call → Reply → Prop} {w : Log} {c : Call} {r : Reply} :
    Failed fails (w ++ [(c, r)]) ↔ Failed fails w ∨ fails c r := by
  simp [Failed, or_and_right, exists_or]

theorem not_failed_nil {fails : Call → Reply → Prop} : ¬ Failed fails [] := by simp [Failed]

section Rules

variable {pre : Call → Log → Prop} {fault : Log → Prop} {A : Log → Prop} {c : Call}

theorem triple_logged_int {B : Int → Log → Prop} (hpre : ∀ w, A w → pre c w)
    (hr : ∀ w r, A w → Possible c r → B r.ret (w ++ [(c, r)])) :
    (logged pre fault).Triple A (int c) B := by
  apply triple_int (recorded_stable A) (fun n => recorded_stable (B n)) hpre
  intro w r w' hw ha
  obtain ⟨rfl, hpossible⟩ := recorded_answer ha
  exact hr w r hw hpossible

theorem triple_logged_void {B : Log → Prop} (hpre : ∀ w, A w → pre c w)
    (hr : ∀ w r, A w → Possible c r → B (w ++ [(c, r)])) :
    (logged pre fault).Triple A (void c) (fun _ => B) := by
  apply triple_void (recorded_stable A) (recorded_stable B) hpre
  intro w r w' hw ha
  obtain ⟨rfl, hpossible⟩ := recorded_answer ha
  exact hr w r hw hpossible

variable {side : Side} {msg : Str}

theorem triple_logged_sendMsg {B : Bool → Log → Prop} (hpre : ∀ w, A w → pre (.sslWrite side msg) w)
    (hagain : ∀ w r, A w → Possible (.sslWrite side msg) r → wantsRetry r = true →
      A (w ++ [(.sslWrite side msg, r)]))
    (hr : ∀ w r, A w → Possible (.sslWrite side msg) r → wantsRetry r = false →
      B (decide (0 ≤ r.ret)) (w ++ [(.sslWrite side msg, r)])) :
    (logged pre fault).Triple A (sslSendMsg side msg) B := by
  apply triple_sslSendMsg (recorded_stable A) (fun _ => recorded_stable _) hpre
  · intro w r w' hw ha hretry
    obtain ⟨rfl, hpossible⟩ := recorded_answer ha
    exact hagain w r hw hpossible hretry
  · intro w r w' hw ha hretry
    obtain ⟨rfl, hpossible⟩ := recorded_answer ha
    exact hr w r hw hpossible hretry

theorem triple_logged_recvMsg {onTimeout appends : Bool} {B : Bool × Str → Log → Prop}
    (hpre : ∀ w, A w → pre (.sslRead side 1023) w)
    (hagain : ∀ w r, A w → wantsRetry r = true → A (w ++ [(.sslRead side 1023, r)]))
    (hr : ∀ w r, A w → wantsRetry r = false →
      B (received onTimeout appends msg r) (w ++ [(.sslRead side 1023, r)])) :
    (logged pre fault).Triple A (sslRecvMsg side onTimeout appends msg) B := by
  apply triple_sslRecvMsg (recorded_stable A) (fun _ => recorded_stable _) hpre
  · intro w r w' hw ha hretry
    obtain ⟨rfl, _⟩ := recorded_answer ha
    exact hagain w r hw hretry
  · intro w r w' hw ha hretry
    obtain ⟨rfl, hpossible⟩ := recorded_answer ha
    exact ⟨(possible_sslRead hpossible).1, hr w r hw hretry⟩

theorem triple_logged_connect {L F : Log → Prop} {B : Bool → Log → Prop}
    {unverified : Int → Int} {proto : NetProto} {IP port : Str}
    (hpre : ∀ c w, isStep c = true → L w → pre c w)
    (hgo : ∀ c w r, isStep c = true → ¬ StepFails unverified c r → L w → L (w ++ [(c, r)]))
    (hfail : ∀ c w r, isStep c = true → StepFails unverified c r → L w → F (w ++ [(c, r)]))
    (hinit : (logged pre fault).Triple A init (fun _ => L))
    (hdestroy : (logged pre fault).Triple F destroy (fun _ => B false))
    (hdone : ∀ w, L w → B true w) :
    (logged pre fault).Triple A (connectWith proto unverified IP port) B := by
  refine triple_connectWith (recorded_stable L) (recorded_stable F) hpre ?_ ?_
    (recorded_stable _) hinit hdestroy hdone
  · intro c w r w' hc hr hw ha
    obtain ⟨rfl, _⟩ := recorded_answer ha
    exact hgo c w r hc hr hw
  · intro c w r w' hc hr hw ha
    obtain ⟨rfl, _⟩ := recorded_answer ha
    exact hfail c w r hc hr hw

end Rules

end SGXess
