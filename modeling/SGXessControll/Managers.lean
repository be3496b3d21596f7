import SGXessControll.TLSClient

/-!
# The three managers

The Controller's and the Deployer's `PolicyManager` and the Proxy's `ProxyManager` each
own a list that a listener thread fills and the manager's loop empties. The sections
under the mutex are functions on that list; the loops are code.
-/

namespace SGXess

set_option autoImplicit false

open Calls (Code Setting)

variable {W γ : Type} {S : Setting W Call Reply} {A : W → Prop} {p : Call → Prop} {u : Prop}

/-- `list.push_back(x)` under the lock. -/
def pushBack (list : List Str) (x : Str) : List Str := list ++ [x]

/-- The section of `popPolicy` and `popClient`: the caller's string and the list after it.
From an empty list the string keeps its value. -/
def popFront (list : List Str) (x : Str) : Str × List Str :=
  if list.isEmpty = false then
    (list.headD [], list.tail)
  else
    (x, list)

/-- The round of a manager: pop, sleep on the empty string, `k` for any other. -/
theorem triple_popRound {pop : Call} {B : Str → W → Prop} {k : Str → Prog (Unit ⊕ γ)}
    {Θ : γ → W → Prop} (hA : S.Stable A) (hpop : S.Triple A (Code.ask pop) (fun r => B r.bytes))
    (hsleep : S.Triple (B []) (void .sleep) (fun _ => A))
    (hk : ∀ x, x ≠ [] → S.Triple (B x) (k x) (Setting.Round (fun _ => A) Θ)) :
    S.Triple A
      ((Code.ask pop).bind fun reply =>
        if reply.bytes.isEmpty = true then (void .sleep).bind fun _ => .ret (.inl ())
        else k reply.bytes)
      (Setting.Round (fun _ => A) Θ) := by
  refine Setting.triple_bind hpop fun r => ?_
  by_cases hnil : r.bytes = []
  · simp only [hnil, List.isEmpty_nil, if_true]
    exact Setting.triple_bind hsleep fun _ => Setting.triple_ret hA fun _ hw => hw
  · simp only [hnil, List.isEmpty_iff, if_false]
    exact hk r.bytes hnil

namespace Controller.PolicyManager

def insertPolicy (updateList : List Str) (policy : Str) : List Str := pushBack updateList policy

def popPolicy (updateList : List Str) (policy : Str) : Str × List Str := popFront updateList policy

/-- `std::map<std::string, bool>`. -/
abbrev PolicyMap := Str → Option Bool

/-- `mapPolicy.insert(..)` leaves a key that is there alone. -/
def PolicyMap.insert (m : PolicyMap) (key : Str) (v : Bool) : PolicyMap :=
  fun x => if x = key then (m x).or (some v) else m x

def npos : Nat := 2 ^ 64 - 1

def find (s : Str) (c : UInt8) : Nat := if c ∈ s then s.idxOf c else npos

def substr (s : Str) (pos n : Nat) : Str := (s.drop pos).take n

/-- `pos + 1` wraps to 0 where there is no separator. -/
def updatePolicy (mapPolicy : PolicyMap) (policy : Str) : PolicyMap :=
  let pos := find policy 0x7c
  let IP := substr policy 0 pos
  let ret := if substr policy ((pos + 1) % 2 ^ 64) npos = text "allow" then true else false
  mapPolicy.insert IP ret

def validateRequest (mapPolicy : PolicyMap) (IP : Str) : Bool :=
  match mapPolicy IP with
  | none => false
  | some v => v

def demoPolicy (i j k : Nat) : Str :=
  text "192." ++ toStr i ++ text "." ++ toStr j ++ text "." ++ toStr k ++ text "|deny"

@[irreducible] def demoPolicies : List Str :=
  (List.range 255).flatMap fun i => (List.range 255).flatMap fun j =>
    (List.range 100).map fun k => demoPolicy i j k

def manageRound : Prog (Unit ⊕ Unit) := do
  let reply ← Code.ask .popPolicy
  let policy := reply.bytes
  if policy.isEmpty = true then
    void .sleep
    return .inl ()
  -- The policy is not used: `updatePolicy(parsedPolicy)` is commented out.
  return .inl ()

def manageLoop : Prog Unit := Code.whileTrue manageRound

def managePolicy : Prog Unit := do
  demoPolicies.forM fun policy => void (.updatePolicy policy)
  manageLoop

end Controller.PolicyManager

namespace Deployer

namespace PolicyDeployer

def deployPolicy (policy IP port : Str) : Prog Bool := do
  if (← TLSClient.connect IP port) = false then
    return false
  if (← TLSClient.sendMsg policy) = false then
    return false
  TLSClient.terminate
  return true

theorem triple_deployPolicy {policy IP port : Str} {B C Θ : Bool → W → Prop}
    (hB : S.Stable (B false)) (hC : S.Stable (C false)) (hΘ : S.Stable (Θ true))
    (hconnect : S.Triple A (TLSClient.connect IP port) B)
    (hsend : S.Triple (B true) (TLSClient.sendMsg policy) C)
    (hterminate : S.Triple (C true) TLSClient.terminate (fun _ => Θ true))
    (hrefused : ∀ w, B false w → Θ false w) (hfailed : ∀ w, C false w → Θ false w) :
    S.Triple A (deployPolicy policy IP port) Θ := by
  refine Setting.triple_bind hconnect fun connected => ?_
  cases connected with
  | false => exact Setting.triple_ret hB hrefused
  | true =>
    refine Setting.triple_bind hsend fun sent => ?_
    cases sent with
    | false => exact Setting.triple_ret hC hfailed
    | true => exact Setting.triple_bind hterminate fun _ => Setting.triple_ret hΘ fun _ hw => hw

theorem only_deployPolicy {policy IP port : Str}
    (hconnect : ∀ c, SGXess.TLSClient.ofConnect c = true → p c)
    (hsend : p (.sslWrite .client policy)) (hterminate : TLSClient.terminate.Only p u) :
    (deployPolicy policy IP port).Only p u := by
  refine (SGXess.TLSClient.only_connectWith hconnect).bind fun _ => Code.only_ite trivial ?_
  refine (only_sslSendMsg hsend).bind fun _ => Code.only_ite trivial ?_
  exact hterminate.bind fun _ => trivial

end PolicyDeployer

namespace PolicyManager

def insertPolicy (policyList : List Str) (policy : Str) : List Str := pushBack policyList policy

def popPolicy (policyList : List Str) (policy : Str) : Str × List Str := popFront policyList policy

def manageRound : Prog (Unit ⊕ Unit) := do
  let reply ← Code.ask .popPolicy
  let policy := reply.bytes
  if policy.isEmpty = true then
    void .sleep
    return .inl ()
  let _ ← PolicyDeployer.deployPolicy policy (text "192.168.0.5") (text "30010")
  return .inl ()

def managePolicy : Prog Unit := Code.whileTrue manageRound

end PolicyManager

end Deployer

namespace Proxy.ProxyManager

def insertClient (clientList : List Str) (client : Str) : List Str := pushBack clientList client

def popClient (clientList : List Str) (client : Str) : Str × List Str := popFront clientList client

def setTLSClient : Prog Bool := do
  if (← TLSClient.connect (text "192.168.0.5") (text "30011")) = false then
    TLSClient.terminate
    return false
  return true

/-- The branch of a failed send: a new session and the same client again. `false` is where
`manageClient` returns `false`. -/
def resend (client : Str) : Prog Bool := do
  TLSClient.terminate
  if (← setTLSClient) = false then
    TLSClient.terminate
    return false
  if (← TLSClient.sendMsg client) = false then
    TLSClient.terminate
    return false
  return true

def receiveRound : Prog (Unit ⊕ Bool) := do
  -- The answer of the Controller is printed and dropped.
  let _ ← TLSClient.recvMsg []
  return .inl ()

/-- A round of the loop behind the test for an empty string. -/
def serve (client : Str) : Prog (Unit ⊕ Bool) := do
  if (← TLSClient.sendMsg client) = false then
    if (← resend client) = false then
      return .inr false
    receiveRound
  else
    receiveRound

def manageRound : Prog (Unit ⊕ Bool) := do
  let reply ← Code.ask .popClient
  let client := reply.bytes
  if client.isEmpty = true then
    void .sleep
    return .inl ()
  serve client

def manageLoop : Prog Bool := Code.whileTrue manageRound

def manageClient : Prog Bool := do
  if (← setTLSClient) = false then
    return false
  manageLoop

theorem triple_setTLSClient {B Θ : Bool → W → Prop} (hB : S.Stable (B true))
    (hΘ : S.Stable (Θ false))
    (hconnect : S.Triple A (TLSClient.connect (text "192.168.0.5") (text "30011")) B)
    (hterminate : S.Triple (B false) TLSClient.terminate (fun _ => Θ false))
    (hdone : ∀ w, B true w → Θ true w) : S.Triple A setTLSClient Θ := by
  refine Setting.triple_bind hconnect fun connected => ?_
  cases connected with
  | false => exact Setting.triple_bind hterminate fun _ => Setting.triple_ret hΘ fun _ hw => hw
  | true => exact Setting.triple_ret hB hdone

/-- `B true` holds at the head of the loop, `C` after a send, `D` after another try. -/
theorem triple_manageClient {B C D : Bool → W → Prop} {Q : Str → W → Prop}
    (hB : ∀ connected, S.Stable (B connected)) (hset : S.Triple A setTLSClient B)
    (hpop : S.Triple (B true) (Code.ask .popClient) (fun r => Q r.bytes))
    (hsleep : S.Triple (Q []) (void .sleep) (fun _ => B true))
    (hsend : ∀ client, client ≠ [] → S.Triple (Q client) (TLSClient.sendMsg client) C)
    (hresend : ∀ client, S.Triple (C false) (resend client) D)
    (hsent : ∀ w, D true w → C true w) (hlost : ∀ w, D false w → B false w)
    (hrecv : S.Triple (C true) (TLSClient.recvMsg []) (fun _ => B true)) :
    S.Triple A manageClient (fun _ => B false) := by
  have hreceive : S.Triple (C true) receiveRound
      (Setting.Round (fun _ => B true) fun _ => B false) :=
    Setting.triple_bind hrecv fun _ => Setting.triple_ret (hB true) fun _ hw => hw
  refine Setting.triple_bind hset fun connected => ?_
  cases connected with
  | false => exact Setting.triple_ret (hB false) fun _ hw => hw
  | true =>
    refine Setting.triple_whileTrue (fun _ => hB false)
      (triple_popRound (k := serve) (hB true) hpop hsleep fun client hne => ?_) nofun
    refine Setting.triple_bind (hsend client hne) fun sent => ?_
    cases sent with
    | true => exact hreceive
    | false =>
      refine Setting.triple_bind (hresend client) fun resent => ?_
      cases resent with
      | true => exact hreceive.pre hsent
      | false => exact Setting.Triple.pre (Setting.triple_ret (hB false) fun _ hw => hw) hlost

section Only

variable (hconnect : ∀ c, SGXess.TLSClient.ofConnect c = true → p c)
variable (hterminate : TLSClient.terminate.Only p u)

include hconnect hterminate

theorem only_setTLSClient : setTLSClient.Only p u := by
  refine (SGXess.TLSClient.only_connectWith hconnect).bind fun _ => Code.only_ite ?_ trivial
  exact hterminate.bind fun _ => trivial

theorem only_resend {client : Str} (hsend : p (.sslWrite .client client)) :
    (resend client).Only p u := by
  have hend : (TLSClient.terminate.bind fun _ => .ret false).Only p u :=
    hterminate.bind fun _ => trivial
  refine hterminate.bind fun _ => (only_setTLSClient hconnect hterminate).bind fun _ => ?_
  exact Code.only_ite hend ((only_sslSendMsg hsend).bind fun _ => Code.only_ite hend trivial)

end Only

end Proxy.ProxyManager

namespace Proxy.Validator

def controllerIP : Str := text "192.168.0.5"

def controllerPort : Str := text "30011"

def validateRequest (req : Str) : Prog Bool := do
  if (← TLSClient.connect controllerIP controllerPort) = false then
    return false
  if (← TLSClient.sendMsg req) = false then
    return false
  let (received, _) ← TLSClient.recvMsg []
  if received = false then
    return false
  TLSClient.terminate
  return true

end Proxy.Validator

end SGXess
