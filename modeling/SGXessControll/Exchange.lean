import SGXessControll.Handoff
import SGXessControll.Listeners

/-!
# Requests and responses between the Proxy and the Controller

Three loops meet here: the Proxy accepts clients and queues their addresses, its manager
sends one address at a time and reads a response, and the Controller reads requests and
answers them. Nothing in a message says which request it belongs to.
-/

namespace SGXess

set_option autoImplicit false

open Calls Queue

section Addresses

open Proxy.ProxyListener

variable {addr : Str}

theorem inetNtop_of_length (h : addr.length = 4) : ∃ a b c d, addr = [a, b, c, d] ∧
    inetNtop addr = toStr a.toNat ++ text "." ++ toStr b.toNat ++ text "." ++ toStr c.toNat ++
      text "." ++ toStr d.toNat := by
  match addr, h with
  | [a, b, c, d], _ =>
    refine ⟨a, b, c, d, rfl, ?_⟩
    simp [inetNtop, List.intercalate, List.intersperse]

theorem inetNtop_length (h : addr.length = 4) :
    3 ≤ (inetNtop addr).length ∧ (inetNtop addr).length ≤ 15 := by
  obtain ⟨a, b, c, d, _, heq⟩ := inetNtop_of_length h
  have ha := toStr_length a.toNat_lt
  have hb := toStr_length b.toNat_lt
  have hc := toStr_length c.toNat_lt
  have hd := toStr_length d.toNat_lt
  have hdot : (text ".").length = 1 := rfl
  simp only [heq, List.length_append]
  omega

theorem inetNtop_zero (h : addr.length = 4) : 0 ∉ inetNtop addr := by
  obtain ⟨a, b, c, d, _, heq⟩ := inetNtop_of_length h
  have hdigits : ∀ n, 0 ∉ toStr n := by
    intro n hn
    have hrange := toStr_digit hn
    simp at hrange
  have hdot : 0 ∉ text "." := by decide
  simp only [heq, List.mem_append, hdigits, hdot, or_self, not_false_eq_true]

theorem clientString_length (h : addr.length = 4) : (clientString addr).length = 32 :=
  Bytes.intoArray_length (by have := (inetNtop_length h).2; omega)

theorem clientString_ne_nil (h : addr.length = 4) : clientString addr ≠ [] := by
  intro hnil
  have hlen := clientString_length h
  rw [hnil] at hlen
  cases hlen

/-- The padding of the client's string goes with the zero bytes. -/
theorem clientString_takeWhile (h : addr.length = 4) :
    (clientString addr).takeWhile (· ≠ 0) = inetNtop addr := by
  have hpad : ∀ n, (List.replicate n (0 : UInt8)).takeWhile (· ≠ 0) = [] := by
    intro n
    cases n <;> rfl
  rw [clientString, Bytes.intoArray, List.takeWhile_append_of_pos, hpad, List.append_nil]
  intro b hb
  have hne : b ≠ 0 := fun h0 => inetNtop_zero h (h0 ▸ hb)
  simpa using hne

end Addresses

open Controller.PolicyManager (PolicyMap)

inductive Loop where
  | proxyListener
  | proxyManager
  | requestListener
  deriving DecidableEq

/-- The loops with what is between them: the queue of clients and the two directions of one
TLS connection. -/
structure Exchange where
  policy : PolicyMap
  /-- The addresses of the clients that connected. -/
  accepted : List Str := []
  clients : Fifo Str := .empty
  /-- The string the manager popped last. -/
  hand : Str := []
  requests : Fifo Str := .empty
  /-- What `validateRequest` was called with, and the policies it was evaluated on. -/
  asked : List (Str × PolicyMap) := []
  responses : Fifo Str := .empty
  /-- The responses the manager read, each with the client it held then. -/
  served : List (Str × Str) := []

namespace Exchange

/-- A written message becomes one record. -/
def write (w : Exchange) (channel : Fifo Str) (put : Fifo Str → Exchange) (buf : Str)
    (r : Reply) : Option Exchange :=
  if wantsRetry r = true then some w
  else if r.ret = buf.length then some (put (channel.push buf))
  else none

/-- A read returns the next record, if it fits. -/
def receive (channel : Fifo Str) (len : Nat) (r : Reply) : Option (Fifo Str) :=
  match channel.waiting with
  | [] => none
  | record :: _ =>
    if record.length ≤ len ∧ r = ⟨record.length, record⟩ then some channel.pop else none

def proxyListener (w : Exchange) (c : Call) (r : Reply) : Option Exchange :=
  match c with
  | .accept =>
    if r.ret < 0 then some w
    else if r.bytes.length = 4 then some { w with accepted := w.accepted ++ [r.bytes] }
    else none
  | .insertClient client =>
    some { w with clients := Proxy.ProxyManager.handoff.push w.clients client }
  | _ => some w

def proxyManager (w : Exchange) (c : Call) (r : Reply) : Option Exchange :=
  match c with
  | .popClient =>
    if r.bytes = Proxy.ProxyManager.handoff.front w.clients then
      some { w with clients := Proxy.ProxyManager.handoff.take w.clients, hand := r.bytes }
    else none
  | .sslWrite .client buf => write w w.requests (fun requests => { w with requests }) buf r
  | .sslRead .client len =>
    if wantsRetry r = true then some w
    else (receive w.responses len r).map fun responses =>
      { w with responses, served := w.served ++ [(w.hand, r.bytes)] }
  | .exit _ => none
  | _ => some w

/-- Only here reads may time out. -/
def requestListener (w : Exchange) (c : Call) (r : Reply) : Option Exchange :=
  match c with
  | .sslRead .server len =>
    if wantsRetry r = true ∨ r = ⟨errSslTimeout, []⟩ then some w
    else (receive w.requests len r).map fun requests => { w with requests }
  | .validateRequest IP =>
    if r.ret = (Controller.PolicyManager.validateRequest w.policy IP).toInt then
      some { w with asked := w.asked ++ [(IP, w.policy)] }
    else none
  | .sslWrite .server buf => write w w.responses (fun responses => { w with responses }) buf r
  | _ => some w

def respond (w : Exchange) : Loop → Call → Reply → Option Exchange
  | .proxyListener => w.proxyListener
  | .proxyManager => w.proxyManager
  | .requestListener => w.requestListener

/-- The Controller's policies may change at any time. -/
def machine : Machine Exchange Loop Call Reply PolicyMap :=
  ⟨respond, fun w policy => some { w with policy }⟩

def loops : Loop → Prog Bool
  | .proxyListener => Proxy.ProxyListener.runListener
  | .proxyManager => Proxy.ProxyManager.manageClient
  | .requestListener => Controller.RequestListener.runListener

/-- What `recvMsg` makes of a record. -/
def untilZero (record : Str) : Str := record.takeWhile (· ≠ 0)

def verdict (question : Str × PolicyMap) : Str :=
  if Controller.PolicyManager.validateRequest question.2 question.1 = true then text "Accept"
  else text "Deny"

/-- The listener has one more client to queue. -/
def Inserting (client : Str) (w : Exchange) : Prop :=
  w.accepted.map Proxy.ProxyListener.clientString = w.clients.inserted ++ [client]

/-- Every client taken has been sent, and every request sent has been answered. -/
def Idle (w : Exchange) : Prop :=
  w.clients.removed = w.requests.inserted ∧
    w.requests.inserted.length = w.responses.removed.length

def Holding (client : Str) (w : Exchange) : Prop :=
  w.hand = client ∧ w.clients.removed = w.requests.inserted ++ [client] ∧
    w.requests.inserted.length = w.responses.removed.length

def Waiting (w : Exchange) : Prop :=
  w.clients.removed = w.requests.inserted ∧
    ∃ answered, w.requests.inserted = answered ++ [w.hand] ∧
      answered.length = w.responses.removed.length

/-- Every request read has been asked about, and every question has been answered. -/
def Ready (w : Exchange) : Prop :=
  w.requests.removed.map untilZero = w.asked.map Prod.fst ∧
    w.responses.inserted = w.asked.map verdict

def Evaluating (req : Str) (w : Exchange) : Prop :=
  w.requests.removed.map untilZero = w.asked.map Prod.fst ++ [req] ∧
    w.responses.inserted = w.asked.map verdict

def Answering (response : Str) (w : Exchange) : Prop :=
  w.requests.removed.map untilZero = w.asked.map Prod.fst ∧
    w.asked.map verdict = w.responses.inserted ++ [response]

/-- Where each loop is in the conversation when it makes a call. -/
def Owes (w : Exchange) : Loop → Call → Prop
  | .proxyListener, .insertClient client => w.Inserting client
  | .proxyManager, .popClient => w.Idle
  | .proxyManager, .sslWrite .client buf => w.Holding buf
  | .proxyManager, .sslRead .client _ => w.Waiting
  | .requestListener, .sslRead .server _ => w.Ready
  | .requestListener, .validateRequest req => w.Evaluating req
  | .requestListener, .sslWrite .server buf => w.Answering buf
  | _, _ => True

/-- What holds of the histories whichever loop moves next. -/
structure Linked (w : Exchange) : Prop where
  ipv4 : ∀ addr ∈ w.accepted, addr.length = 4
  queued : w.clients.inserted <+: w.accepted.map Proxy.ProxyListener.clientString
  sent : w.requests.inserted <+: w.clients.removed
  asked : w.asked.map Prod.fst <+: w.requests.removed.map untilZero
  answered : w.responses.inserted <+: w.asked.map verdict
  single : w.requests.inserted.length ≤ w.responses.removed.length + 1
  served : w.served = w.requests.inserted.zip w.responses.removed

variable {w w' : Exchange} {c : Call} {r : Reply} {buf : Str} {len : Nat}
variable {channel channel' : Fifo Str}

theorem write_cases {put : Fifo Str → Exchange} (h : write w channel put buf r = some w') :
    (wantsRetry r = true → w' = w) ∧
      (wantsRetry r = false → r.ret = buf.length ∧ w' = put (channel.push buf)) := by
  unfold write at h
  cases hretry : wantsRetry r with
  | true =>
    rw [if_pos hretry, Option.some.injEq] at h
    exact ⟨fun _ => h.symm, nofun⟩
  | false =>
    rw [if_neg (by simp [hretry])] at h
    split at h
    · rename_i hret
      cases h
      exact ⟨nofun, fun _ => ⟨hret, rfl⟩⟩
    · cases h

theorem request_cases (h : w.proxyManager (.sslWrite .client buf) r = some w') :
    (wantsRetry r = true → w' = w) ∧ (wantsRetry r = false → r.ret = buf.length ∧
      w' = { w with requests := w.requests.push buf }) := by
  unfold proxyManager at h
  exact write_cases h

theorem answer_cases (h : w.requestListener (.sslWrite .server buf) r = some w') :
    (wantsRetry r = true → w' = w) ∧ (wantsRetry r = false → r.ret = buf.length ∧
      w' = { w with responses := w.responses.push buf }) := by
  unfold requestListener at h
  exact write_cases h

/-- A channel after a read that returned `bytes`. -/
structure Delivered (channel channel' : Fifo Str) (bytes : Str) : Prop where
  inserted : channel'.inserted = channel.inserted
  removed : channel'.removed = channel.removed ++ [bytes]

theorem receive_cases (h : receive channel len r = some channel') :
    r.bytes.length ≤ len ∧ r.ret = r.bytes.length ∧ Delivered channel channel' r.bytes := by
  unfold receive at h
  split at h
  · cases h
  · rename_i record rest hw
    split at h
    · rename_i hfit
      obtain ⟨hlen, rfl⟩ := hfit
      cases h
      refine ⟨hlen, rfl, channel.pop_inserted, ?_⟩
      rw [channel.pop_removed, hw]
      rfl
    · cases h

theorem popClient_cases (h : w.proxyManager .popClient r = some w') :
    r.bytes = Proxy.ProxyManager.handoff.front w.clients ∧
      w' = { w with clients := w.clients.pop, hand := r.bytes } := by
  simp only [proxyManager, Handoff.take_eq] at h
  split at h
  · rename_i hfront
    cases h
    exact ⟨hfront, rfl⟩
  · cases h

theorem clientRead_cases (h : w.proxyManager (.sslRead .client len) r = some w') :
    (wantsRetry r = true → w' = w) ∧ (wantsRetry r = false → r.bytes.length ≤ len ∧
      ∃ channel, Delivered w.responses channel r.bytes ∧
        w' = { w with responses := channel, served := w.served ++ [(w.hand, r.bytes)] }) := by
  simp only [proxyManager] at h
  cases hretry : wantsRetry r with
  | true =>
    rw [if_pos hretry, Option.some.injEq] at h
    exact ⟨fun _ => h.symm, nofun⟩
  | false =>
    rw [if_neg (by simp [hretry])] at h
    obtain ⟨channel, hreceive, rfl⟩ := Option.map_eq_some_iff.mp h
    obtain ⟨hlen, _, hdelivered⟩ := receive_cases hreceive
    exact ⟨nofun, fun _ => ⟨hlen, channel, hdelivered, rfl⟩⟩

/-- On a retry or a timeout nothing happens. -/
theorem serverRead_cases (h : w.requestListener (.sslRead .server len) r = some w') :
    (wantsRetry r = true ∨ r = ⟨errSslTimeout, []⟩) ∧ w' = w ∨
      r.bytes.length ≤ len ∧ r.ret = r.bytes.length ∧
        ∃ channel, Delivered w.requests channel r.bytes ∧ w' = { w with requests := channel } := by
  simp only [requestListener] at h
  split at h
  · rename_i hnone
    cases h
    exact Or.inl ⟨hnone, rfl⟩
  · obtain ⟨channel, hreceive, rfl⟩ := Option.map_eq_some_iff.mp h
    obtain ⟨hlen, hret, hdelivered⟩ := receive_cases hreceive
    exact Or.inr ⟨hlen, hret, channel, hdelivered, rfl⟩

theorem validateRequest_cases {req : Str}
    (h : w.requestListener (.validateRequest req) r = some w') :
    w' = { w with asked := w.asked ++ [(req, w.policy)] } ∧
      (if r.ret ≠ 0 then text "Accept" else text "Deny") = verdict (req, w.policy) := by
  simp only [requestListener] at h
  split at h
  · rename_i hret
    cases h
    refine ⟨rfl, ?_⟩
    rw [hret, verdict]
    cases Controller.PolicyManager.validateRequest w.policy req with
    | true => rfl
    | false => rfl
  · cases h

/-- What an answered call can do to the exchange. -/
inductive Effect (w : Exchange) : Loop → Call → Reply → Exchange → Prop where
  | none {i : Loop} {c : Call} {r : Reply} : Effect w i c r w
  | accept {r : Reply} : r.bytes.length = 4 →
      Effect w .proxyListener .accept r { w with accepted := w.accepted ++ [r.bytes] }
  | insert {client : Str} {r : Reply} :
      Effect w .proxyListener (.insertClient client) r
        { w with clients := w.clients.push client }
  | pop {r : Reply} :
      Effect w .proxyManager .popClient r { w with clients := w.clients.pop, hand := r.bytes }
  | request {buf : Str} {r : Reply} :
      Effect w .proxyManager (.sslWrite .client buf) r { w with requests := w.requests.push buf }
  | served {len : Nat} {r : Reply} {channel : Fifo Str} :
      Delivered w.responses channel r.bytes →
      Effect w .proxyManager (.sslRead .client len) r
        { w with responses := channel, served := w.served ++ [(w.hand, r.bytes)] }
  | take {len : Nat} {r : Reply} {channel : Fifo Str} : Delivered w.requests channel r.bytes →
      Effect w .requestListener (.sslRead .server len) r { w with requests := channel }
  | ask {req : Str} {r : Reply} :
      Effect w .requestListener (.validateRequest req) r
        { w with asked := w.asked ++ [(req, w.policy)] }
  | answer {buf : Str} {r : Reply} :
      Effect w .requestListener (.sslWrite .server buf) r
        { w with responses := w.responses.push buf }

theorem effect_proxyListener (h : w.proxyListener c r = some w') :
    Effect w .proxyListener c r w' := by
  unfold proxyListener at h
  split at h
  · split at h
    · cases h
      exact .none
    · split at h
      · rename_i hlen
        cases h
        exact .accept hlen
      · cases h
  · cases h
    rw [Handoff.push_eq]
    exact .insert
  · cases h
    exact .none

theorem effect_proxyManager (h : w.proxyManager c r = some w') :
    Effect w .proxyManager c r w' := by
  have hcases := h
  unfold proxyManager at hcases
  split at hcases
  · rw [(popClient_cases h).2]
    exact .pop
  · cases hretry : wantsRetry r with
    | true =>
      rw [(request_cases h).1 hretry]
      exact .none
    | false =>
      rw [((request_cases h).2 hretry).2]
      exact .request
  · cases hretry : wantsRetry r with
    | true =>
      rw [(clientRead_cases h).1 hretry]
      exact .none
    | false =>
      obtain ⟨_, channel, hdelivered, rfl⟩ := (clientRead_cases h).2 hretry
      exact .served hdelivered
  · cases hcases
  · cases hcases
    exact .none

theorem effect_requestListener (h : w.requestListener c r = some w') :
    Effect w .requestListener c r w' := by
  have hcases := h
  unfold requestListener at hcases
  split at hcases
  · rcases serverRead_cases h with ⟨_, rfl⟩ | ⟨_, _, channel, hdelivered, rfl⟩
    · exact .none
    · exact .take hdelivered
  · rw [(validateRequest_cases h).1]
    exact .ask
  · cases hretry : wantsRetry r with
    | true =>
      rw [(answer_cases h).1 hretry]
      exact .none
    | false =>
      rw [((answer_cases h).2 hretry).2]
      exact .answer
  · cases hcases
    exact .none

theorem effect {i : Loop} (h : respond w i c r = some w') : Effect w i c r w' := by
  cases i with
  | proxyListener => exact effect_proxyListener h
  | proxyManager => exact effect_proxyManager h
  | requestListener => exact effect_requestListener h

/-- The part of the exchange that only one loop changes. -/
def Same : Loop → Exchange → Exchange → Prop
  | .proxyListener, w, w' =>
    w'.accepted = w.accepted ∧ w'.clients.inserted = w.clients.inserted
  | .proxyManager, w, w' =>
    w'.hand = w.hand ∧ w'.clients.removed = w.clients.removed ∧
      w'.requests.inserted = w.requests.inserted ∧ w'.responses.removed = w.responses.removed
  | .requestListener, w, w' =>
    w'.requests.removed = w.requests.removed ∧ w'.asked = w.asked ∧
      w'.responses.inserted = w.responses.inserted

theorem Effect.same {i j : Loop} (h : Effect w j c r w') (hij : j ≠ i) : Same i w w' := by
  cases h with
  | none => cases i <;> simp only [Same, and_self]
  | accept _ | insert =>
    cases i with
    | proxyListener => exact absurd rfl hij
    | proxyManager => exact ⟨rfl, rfl, rfl, rfl⟩
    | requestListener => exact ⟨rfl, rfl, rfl⟩
  | pop | request =>
    cases i with
    | proxyListener => simp [Same]
    | proxyManager => exact absurd rfl hij
    | requestListener => simp [Same]
  | served hdelivered =>
    cases i with
    | proxyListener => exact ⟨rfl, rfl⟩
    | proxyManager => exact absurd rfl hij
    | requestListener => exact ⟨rfl, rfl, hdelivered.inserted⟩
  | take hdelivered =>
    cases i with
    | proxyListener => exact ⟨rfl, rfl⟩
    | proxyManager => exact ⟨rfl, rfl, hdelivered.inserted, rfl⟩
    | requestListener => exact absurd rfl hij
  | ask | answer =>
    cases i with
    | proxyListener => exact ⟨rfl, rfl⟩
    | proxyManager => exact ⟨rfl, rfl, rfl, rfl⟩
    | requestListener => exact absurd rfl hij

theorem zip_concat {α β : Type} {xs : List α} {ys : List β} (h : xs.length = ys.length) (x : α) :
    (xs ++ [x]).zip ys = xs.zip ys := by
  conv_lhs => rw [← List.append_nil ys]
  rw [List.zip_append h]
  simp

theorem Linked.effect {i : Loop} (hw : w.Linked) (howes : w.Owes i c) (h : Effect w i c r w') :
    w'.Linked := by
  cases h with
  | none => exact hw
  | accept hlen =>
    refine { hw with ipv4 := ?_, queued := ?_ }
    · intro addr haddr
      rcases List.mem_append.mp haddr with hold | hnew
      · exact hw.ipv4 addr hold
      · rw [List.mem_singleton.mp hnew]
        exact hlen
    · rw [List.map_append]
      exact hw.queued.trans (List.prefix_append _ _)
  | insert =>
    refine { hw with queued := ?_ }
    rw [show w.accepted.map Proxy.ProxyListener.clientString = _ from howes]
    exact List.prefix_rfl
  | pop =>
    -- What is in hand has not been sent yet: `sent` stays a prefix of what was taken.
    refine { hw with queued := ?_, sent := ?_ }
    · simpa using hw.queued
    · rw [w.clients.pop_removed]
      exact hw.sent.trans (List.prefix_append _ _)
  | request =>
    -- Nothing was unanswered, so this request is the only one now.
    obtain ⟨_, hremoved, hlen⟩ := howes
    refine { hw with sent := ?_, single := ?_, served := ?_ }
    · rw [hremoved]
      exact List.prefix_rfl
    · simp only [Fifo.push_inserted, List.length_append, List.length_singleton]
      omega
    · rw [hw.served, Fifo.push_inserted, zip_concat hlen]
  | @served _ _ channel hdelivered =>
    obtain ⟨_, answered, hinserted, hlen⟩ := howes
    refine { hw with answered := ?_, single := ?_, served := ?_ }
    · rw [hdelivered.inserted]
      exact hw.answered
    · rw [hdelivered.removed, List.length_append]
      exact Nat.le_succ_of_le hw.single
    · calc
        w.served ++ [(w.hand, r.bytes)]
            = answered.zip w.responses.removed ++ [w.hand].zip [r.bytes] := by
          rw [hw.served, hinserted, zip_concat hlen, List.zip_cons_cons, List.zip_nil_left]
        _ = w.requests.inserted.zip channel.removed := by
          rw [hdelivered.removed, hinserted, List.zip_append hlen]
  | take hdelivered =>
    refine { hw with sent := ?_, asked := ?_, single := ?_, served := ?_ }
    · rw [hdelivered.inserted]
      exact hw.sent
    · rw [hdelivered.removed, List.map_append]
      exact hw.asked.trans (List.prefix_append _ _)
    · rw [hdelivered.inserted]
      exact hw.single
    · rw [hdelivered.inserted]
      exact hw.served
  | ask =>
    obtain ⟨hremoved, _⟩ := howes
    refine { hw with asked := ?_, answered := ?_ }
    · rw [hremoved, List.map_append]
      exact List.prefix_rfl
    · rw [List.map_append]
      exact hw.answered.trans (List.prefix_append _ _)
  | answer =>
    refine { hw with answered := ?_ }
    rw [howes.2]
    exact List.prefix_rfl

end Exchange

end SGXess
