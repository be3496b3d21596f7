import SGXessControll.Handoff
import SGXessControll.Transfer

/-!
# From the Deployer's list to the Controller's

The Deployer's manager and the Controller's policy listener over any number of connections.
Each call may fail, policies keep coming, and other clients connect in between.
-/

namespace SGXess

set_option autoImplicit false

open Calls Queue

/-- The Deployer's list, its connections, and what the Controller has inserted of them. -/
structure Route where
  queue : Fifo Str := Fifo.empty
  /-- What the writes on each connection of the Deployer accepted. -/
  conns : List Str := []
  /-- The connections the Controller has not accepted. Those of the Deployer are marked. -/
  backlog : List Bool := []
  accepted : Nat := 0
  /-- The connection accepted last, if it is the Deployer's. -/
  current : Option Nat := none
  read : Nat := 0
  /-- The policies, but for empty strings, that came from the Deployer. -/
  inserted : List Str := []

inductive Arrival where
  | policy (p : Str)
  | client

theorem Handoff.front_mem (h : Handoff) {q : Fifo Str} (hne : h.front q ≠ []) :
    h.front q ∈ q.inserted := by
  cases hq : q.waiting with
  | nil => exact absurd (h.front_of_nil hq) hne
  | cons x rest =>
    have hfront : h.front q = x := by
      rw [front, h.pop_eq, hq]
      rfl
    rw [hfront, q.conserved, hq]
    exact List.mem_append_right _ List.mem_cons_self

namespace Route

def write (w : Route) (buf : Str) (r : Reply) : Option Route :=
  if wantsRetry r = true ∨ r.ret < 0 then some w
  else if w.conns ≠ [] ∧ 1 ≤ r.ret ∧ r.ret.toNat ≤ min Link.maxRecord buf.length then
    some { w with conns := w.conns.dropLast ++ [w.conns.getLastD [] ++ buf.take r.ret.toNat] }
  else none

/-- Connections of others are read from in any way. -/
def readUp (w : Route) (len : Nat) (r : Reply) : Option Route :=
  match w.current with
  | none => if r.bytes.length ≤ len then some w else none
  | some k =>
    let sent := (w.conns[k]?).getD []
    if r.ret ≤ 0 then if r.bytes = [] then some w else none
    else if r.ret.toNat ≤ min len (sent.length - w.read) ∧
        r.bytes = (sent.drop w.read).take r.ret.toNat then
      some { w with read := w.read + r.ret.toNat }
    else none

def accept (w : Route) (ret : Int) : Option Route :=
  if ret ≠ 0 then some w
  else match w.backlog with
    | [] => none
    | true :: rest => some { w with
        backlog := rest, accepted := w.accepted + 1, current := some w.accepted, read := 0 }
    | false :: rest => some { w with backlog := rest, current := none }

def deployer (w : Route) (c : Call) (r : Reply) : Option Route :=
  match c with
  | .popPolicy =>
    if r.bytes = Deployer.PolicyManager.handoff.front w.queue then
      some { w with queue := Deployer.PolicyManager.handoff.take w.queue }
    else none
  | .netConnect _ _ _ =>
    if r.ret = 0 then some { w with conns := w.conns ++ [[]], backlog := w.backlog ++ [true] }
    else some w
  | .sslWrite .client buf => w.write buf r
  | .exit _ => none
  | _ => some w

def controller (w : Route) (c : Call) (r : Reply) : Option Route :=
  match c with
  | .netAccept => w.accept r.ret
  | .sslRead .server len => w.readUp len r
  | .insertPolicy policy =>
    if w.current.isSome = true ∧ policy ≠ [] then
      some { w with inserted := w.inserted ++ [policy] }
    else some w
  | _ => some w

def respond (w : Route) : Side → Call → Reply → Option Route
  | .client => w.deployer
  | .server => w.controller

def arrive (w : Route) : Arrival → Option Route
  | .policy p => some { w with queue := Deployer.PolicyManager.handoff.push w.queue p }
  | .client => some { w with backlog := w.backlog ++ [false] }

def machine : Machine Route Side Call Reply Arrival := ⟨respond, arrive⟩

def parties : Side → Prog Unit
  | .client => Deployer.PolicyManager.managePolicy
  | .server => Controller.PolicyListener.runListener.bind fun _ => .ret ()

/-- No write has accepted anything. -/
def Idle (w : Route) : Prop := ∃ n, w.conns = List.replicate n []

/-- Only a write on the last connection has, of a policy from the list. -/
def Sent (w : Route) (s : Str) : Prop :=
  ∃ n, w.conns = List.replicate n [] ++ [s] ∧ s ≠ [] ∧ ∃ p ∈ w.queue.inserted, s <+: p

/-- The text of one read. -/
def IsText (policy s : Str) : Prop := policy <+: s ∧ policy.length ≤ 1023 ∧ 0 ∉ policy

structure Sound (w : Route) : Prop where
  conns : w.Idle ∨ ∃ s, w.Sent s
  backlog : w.accepted + w.backlog.count true = w.conns.length
  current : ∀ k, w.current = some k → k + 1 = w.accepted
  inserted : w.inserted = [] ∨ ∃ policy s, w.inserted = [policy] ∧ policy ≠ [] ∧ w.Sent s ∧
    IsText policy s ∧ w.accepted = w.conns.length

/-- With one of these calls the Deployer's process ends. -/
def ending : Call → Bool
  | .sslCloseNotify _ | .clientFree | .exit _ => true
  | _ => false

/-- The Deployer goes on only while it has not written anything, and the Controller inserts what
it read of the connection it accepted last, the first of it that has anything. -/
def Owes : Side → Call → Route → Prop
  | .client, c, w => ending c = false → w.Idle ∧ ∀ buf, c = .sslWrite .client buf →
      buf ∈ w.queue.inserted
  | .server, c, w => ∀ policy k, c = .insertPolicy policy → w.current = some k → policy ≠ [] →
      w.inserted = [] ∧ ∃ s, w.conns[k]? = some s ∧ IsText policy s

abbrev party (side : Side) : Setting Route Call Reply :=
  machine.setting Machine.any Owes (fun _ _ => False) side

variable {w w' : Route} {c : Call} {r : Reply} {buf s : Str} {len : Nat}

theorem write_cases (hidle : w.Idle) (h : w.write buf r = some w') :
    (wantsRetry r = true ∨ r.ret < 0) ∧ w' = w ∨
    ¬ (wantsRetry r = true ∨ r.ret < 0) ∧ ∃ n s, w.conns.length = n + 1 ∧ s ≠ [] ∧ s <+: buf ∧
      w' = { w with conns := List.replicate n [] ++ [s] } := by
  unfold write at h
  split at h
  · rename_i hfailed
    exact .inl ⟨hfailed, (Option.some.inj h).symm⟩
  · rename_i hdone
    split at h
    · rename_i haccepts
      obtain ⟨hconns, hpos, hle⟩ := haccepts
      obtain ⟨n, hn⟩ := hidle
      have hn0 : n ≠ 0 := by
        rintro rfl
        exact hconns hn
      obtain ⟨m, rfl⟩ := Nat.exists_eq_succ_of_ne_zero hn0
      have hlen : r.ret.toNat ≤ buf.length := hle.trans (Nat.min_le_right _ _)
      refine .inr ⟨hdone, m, buf.take r.ret.toNat, by rw [hn, List.length_replicate], ?_,
        List.take_prefix _ _, ?_⟩
      · intro hnil
        rw [List.take_eq_nil_iff] at hnil
        rcases hnil with hzero | hzero
        · omega
        · rw [hzero, List.length_nil] at hlen
          omega
      · rw [← Option.some.inj h, hn, List.replicate_succ', List.dropLast_concat,
          List.getLastD_concat, List.nil_append]
    · cases h

theorem sent_ne_idle (hidle : w.Idle) (hsent : w.Sent s) : False := by
  obtain ⟨n, hn⟩ := hidle
  obtain ⟨m, hm, hne, _⟩ := hsent
  have hmem : s ∈ List.replicate n ([] : Str) := by
    rw [← hn, hm]
    simp
  exact hne (List.eq_of_mem_replicate hmem)

/-- The one connection with anything on it is the last. -/
theorem Sent.last (hsent : w.Sent s) {k : Nat} {x : Str} (hx : w.conns[k]? = some x)
    (hne : x ≠ []) : k + 1 = w.conns.length ∧ x = s := by
  obtain ⟨n, hn, _⟩ := hsent
  rw [hn, List.getElem?_append] at hx
  rw [hn, List.length_append, List.length_replicate, List.length_singleton]
  split at hx
  · exact absurd (List.eq_of_mem_replicate (List.mem_of_getElem? hx)) hne
  · rename_i hk
    rw [List.length_replicate] at hk hx
    obtain ⟨hlt, rfl⟩ := List.getElem?_eq_some_iff.mp hx
    rw [List.length_singleton] at hlt
    have heq : k = n := by omega
    exact ⟨by omega, by simp⟩

/-- Nothing the Controller goes by changes, but that connections get longer. -/
structure Grows (w w' : Route) : Prop where
  current : w'.current = w.current
  read : w'.read = w.read
  inserted : w'.inserted = w.inserted
  conns : ∀ (k : Nat) (x : Str), w.conns[k]? = some x → ∃ x', w'.conns[k]? = some x' ∧ x <+: x'

theorem grows_of_eq (hcurrent : w'.current = w.current) (hread : w'.read = w.read)
    (hinserted : w'.inserted = w.inserted) (hconns : w'.conns = w.conns) : w.Grows w' :=
  ⟨hcurrent, hread, hinserted, fun k x hx => ⟨x, by rw [hconns]; exact hx, List.prefix_rfl⟩⟩

theorem grows_deployer (howes : Owes .client c w) (h : w.deployer c r = some w') : w.Grows w' := by
  unfold deployer at h
  split at h
  · split at h
    · cases h
      exact grows_of_eq rfl rfl rfl rfl
    · cases h
  · split at h
    · cases h
      refine ⟨rfl, rfl, rfl, fun k x hx => ⟨x, ?_, List.prefix_rfl⟩⟩
      rw [List.getElem?_append_left (List.getElem?_eq_some_iff.mp hx).1]
      exact hx
    · cases h
      exact grows_of_eq rfl rfl rfl rfl
  · obtain ⟨hidle, _⟩ := howes rfl
    rcases write_cases hidle h with ⟨_, rfl⟩ | ⟨_, n, s, hlen, _, _, rfl⟩
    · exact grows_of_eq rfl rfl rfl rfl
    · refine ⟨rfl, rfl, rfl, fun k x hx => ?_⟩
      obtain ⟨m, hm⟩ := hidle
      have hnil : x = [] := List.eq_of_mem_replicate (hm ▸ List.mem_of_getElem? hx)
      have hk : k < (List.replicate n ([] : Str) ++ [s]).length := by
        have hlt := (List.getElem?_eq_some_iff.mp hx).1
        rw [List.length_append, List.length_replicate, List.length_singleton]
        omega
      exact ⟨_, List.getElem?_eq_getElem hk, by rw [hnil]; exact List.nil_prefix⟩
  · cases h
  · cases h
    exact grows_of_eq rfl rfl rfl rfl

theorem grows_arrive {e : Arrival} (h : w.arrive e = some w') : w.Grows w' := by
  cases e with
  | policy p =>
    cases h
    exact grows_of_eq rfl rfl rfl rfl
  | client =>
    cases h
    exact grows_of_eq rfl rfl rfl rfl

theorem Sound.idle_inserted (hw : w.Sound) (hidle : w.Idle) : w.inserted = [] := by
  rcases hw.inserted with hnil | ⟨_, _, _, _, hsent, _⟩
  · exact hnil
  · exact (sent_ne_idle hidle hsent).elim

theorem Sound.deployer (hw : w.Sound) (howes : Owes .client c w)
    (h : w.deployer c r = some w') : w'.Sound := by
  unfold Route.deployer at h
  split at h
  · split at h
    · cases h
      exact ⟨hw.conns, hw.backlog, hw.current, hw.inserted⟩
    · cases h
  · split at h
    · obtain ⟨hidle, _⟩ := howes rfl
      cases h
      refine ⟨.inl ?_, ?_, hw.current, .inl (hw.idle_inserted hidle)⟩
      · obtain ⟨n, hn⟩ := hidle
        exact ⟨n + 1, by rw [hn, List.replicate_succ']⟩
      · have hcount := hw.backlog
        simp only [List.count_append, List.count_singleton_self, List.length_append,
          List.length_singleton]
        omega
    · cases h
      exact hw
  · obtain ⟨hidle, hbuf⟩ := howes rfl
    rcases write_cases hidle h with ⟨_, rfl⟩ | ⟨_, n, s, hlen, hne, hfront, rfl⟩
    · exact hw
    · refine ⟨.inr ⟨s, n, rfl, hne, _, hbuf _ rfl, hfront⟩, ?_, hw.current,
        .inl (hw.idle_inserted hidle)⟩
      have hcount := hw.backlog
      simp only [List.length_append, List.length_replicate, List.length_singleton]
      omega
  · cases h
  · cases h
    exact hw

theorem Sent.arrive {e : Arrival} (hsent : w.Sent s) (h : w.arrive e = some w') : w'.Sent s := by
  obtain ⟨n, hn, hne, p, hp, hfront⟩ := hsent
  cases e with
  | policy p' =>
    cases h
    exact ⟨n, hn, hne, p, List.mem_append_left _ hp, hfront⟩
  | client =>
    cases h
    exact ⟨n, hn, hne, p, hp, hfront⟩

theorem Sound.arrive {e : Arrival} (hw : w.Sound) (h : w.arrive e = some w') : w'.Sound := by
  have hsent : ∀ s, w.Sent s → w'.Sent s := fun s hsent => hsent.arrive h
  have hconns : w'.Idle ∨ ∃ s, w'.Sent s := by
    rcases hw.conns with ⟨n, hn⟩ | ⟨s, hs⟩
    · refine .inl ⟨n, ?_⟩
      cases e with
      | policy p =>
        cases h
        exact hn
      | client =>
        cases h
        exact hn
    · exact .inr ⟨s, hsent s hs⟩
  cases e with
  | policy p =>
    cases h
    refine ⟨hconns, hw.backlog, hw.current, hw.inserted.imp_right ?_⟩
    rintro ⟨policy, s, heq, hne, hs, htext, haccepted⟩
    exact ⟨policy, s, heq, hne, hsent s hs, htext, haccepted⟩
  | client =>
    cases h
    refine ⟨hconns, ?_, hw.current, hw.inserted⟩
    simp only [List.count_append, List.count_singleton, Bool.false_eq_true, beq_iff_eq, if_false,
      Nat.add_zero]
    exact hw.backlog

/-- A read that fails brings nothing along, and one of the Deployer's connection that succeeds the
next bytes that were written. -/
theorem readUp_cases (h : w.readUp len r = some w') :
    w.current = none ∧ r.bytes.length ≤ len ∧ w' = w ∨
      ∃ k, w.current = some k ∧ (r.ret ≤ 0 ∧ r.bytes = [] ∧ w' = w ∨
        0 < r.ret ∧ r.ret.toNat ≤ len ∧
          r.bytes = (((w.conns[k]?).getD []).drop w.read).take r.ret.toNat ∧
          w' = { w with read := w.read + r.ret.toNat }) := by
  unfold readUp at h
  cases hcurrent : w.current with
  | none =>
    rw [hcurrent] at h
    obtain ⟨hlen, heq⟩ := Option.ite_none_right_eq_some.mp h
    exact .inl ⟨rfl, hlen, (Option.some.inj heq).symm⟩
  | some k =>
    rw [hcurrent] at h
    dsimp only at h
    refine .inr ⟨k, rfl, ?_⟩
    by_cases hret : r.ret ≤ 0
    · rw [if_pos hret] at h
      obtain ⟨hnone, heq⟩ := Option.ite_none_right_eq_some.mp h
      exact .inl ⟨hret, hnone, (Option.some.inj heq).symm⟩
    · rw [if_neg hret] at h
      obtain ⟨⟨hle, hbytes⟩, heq⟩ := Option.ite_none_right_eq_some.mp h
      exact .inr ⟨not_le.mp hret, hle.trans (Nat.min_le_left _ _), hbytes,
        (Option.some.inj heq).symm⟩

theorem readUp_keeps (h : w.readUp len r = some w') : ∃ n, w' = { w with read := n } := by
  rcases readUp_cases h with ⟨_, _, rfl⟩ | ⟨_, _, ⟨_, _, rfl⟩ | ⟨_, _, _, rfl⟩⟩
  · exact ⟨w'.read, rfl⟩
  · exact ⟨w'.read, rfl⟩
  · exact ⟨_, rfl⟩

/-- Where a client has just been accepted. If it is the Deployer, nothing of it was inserted. -/
def Fresh (w : Route) : Prop := ∀ k, w.current = some k → w.inserted = [] ∧ w.read = 0

/-- Once something of the Deployer was inserted no connection of it is left to accept. -/
theorem Sound.accept {ret : Int} (hw : w.Sound) (h : w.accept ret = some w') :
    ret ≠ 0 ∧ w' = w ∨ w'.Sound ∧ w'.Fresh := by
  have hcount := hw.backlog
  unfold Route.accept at h
  split at h
  · rename_i hret
    exact .inl ⟨hret, (Option.some.inj h).symm⟩
  · split at h
    · cases h
    · rename_i rest hbacklog
      rw [hbacklog, List.count_cons_self] at hcount
      have hnil : w.inserted = [] := by
        rcases hw.inserted with hnil | ⟨_, _, _, _, _, _, haccepted⟩
        · exact hnil
        · omega
      cases h
      refine .inr ⟨⟨hw.conns, ?_, ?_, .inl hnil⟩, fun _ _ => ⟨hnil, rfl⟩⟩
      · simp only
        omega
      · rintro k hk
        rw [← Option.some.inj hk]
    · rename_i rest hbacklog
      rw [hbacklog, List.count_cons_of_ne Bool.false_ne_true] at hcount
      cases h
      exact .inr ⟨⟨hw.conns, hcount, nofun, hw.inserted⟩, nofun⟩

theorem Sound.controller (hw : w.Sound) (howes : Owes .server c w)
    (h : w.controller c r = some w') : w'.Sound := by
  unfold Route.controller at h
  split at h
  · rcases hw.accept h with ⟨_, rfl⟩ | ⟨hsound, _⟩
    · exact hw
    · exact hsound
  · obtain ⟨n, rfl⟩ := readUp_keeps h
    exact ⟨hw.conns, hw.backlog, hw.current, hw.inserted⟩
  · split at h
    · rename_i policy hpolicy
      obtain ⟨hsome, hne⟩ := hpolicy
      obtain ⟨k, hk⟩ := Option.isSome_iff_exists.mp hsome
      obtain ⟨hnil, x, hx, htext⟩ := howes policy k rfl hk hne
      cases h
      have hxne : x ≠ [] := fun hxnil => hne (List.prefix_nil.mp (hxnil ▸ htext.1))
      obtain ⟨s, hs⟩ : ∃ s, w.Sent s := by
        rcases hw.conns with hidle | hsent
        · obtain ⟨n, hn⟩ := hidle
          exact absurd (List.eq_of_mem_replicate (hn ▸ List.mem_of_getElem? hx)) hxne
        · exact hsent
      obtain ⟨hlast, rfl⟩ := hs.last hx hxne
      refine ⟨.inr ⟨x, hs⟩, hw.backlog, hw.current, .inr ⟨policy, x, ?_, hne, hs, htext, ?_⟩⟩
      · rw [hnil, List.nil_append]
      · rw [← hw.current k hk, hlast]
    · cases h
      exact hw
  · cases h
    exact hw

theorem accept_keeps {ret : Int} (h : w.accept ret = some w') :
    w'.conns = w.conns ∧ w'.queue = w.queue := by
  unfold Route.accept at h
  split at h
  · rw [← Option.some.inj h]
    exact ⟨rfl, rfl⟩
  · split at h
    · cases h
    · cases h
      exact ⟨rfl, rfl⟩
    · cases h
      exact ⟨rfl, rfl⟩

theorem controller_keeps (h : w.controller c r = some w') :
    w'.conns = w.conns ∧ w'.queue = w.queue := by
  unfold Route.controller at h
  split at h
  · exact accept_keeps h
  · obtain ⟨n, rfl⟩ := readUp_keeps h
    exact ⟨rfl, rfl⟩
  · split at h
    · cases h
      exact ⟨rfl, rfl⟩
    · cases h
      exact ⟨rfl, rfl⟩
  · cases h
    exact ⟨rfl, rfl⟩

theorem Sound.respond {side : Side} (hw : w.Sound) (howes : Owes side c w)
    (h : w.respond side c r = some w') : w'.Sound := by
  cases side with
  | client => exact hw.deployer howes h
  | server => exact hw.controller howes h

theorem stable_sound (side : Side) : (party side).Stable Sound := by
  rintro w w' (⟨e, he⟩ | ⟨j, _, c, r, howes, hr, _⟩) hw
  · exact hw.arrive he
  · exact hw.respond howes hr

/-- Each party may use that the route is sound. -/
abbrev given (side : Side) : Setting Route Call Reply := (party side).given Sound

section Client

variable {p : Str}

theorem stable_client {B : Route → Prop} (hgrow : ∀ w w', B w → w'.conns = w.conns →
    w.queue.inserted <+: w'.queue.inserted → B w') : (given .client).Stable B := by
  rintro w w' (⟨e, he⟩ | ⟨j, hj, c, r, _, hr, _⟩) hw
  · cases e with
    | policy p =>
      cases he
      exact hgrow _ _ hw rfl (List.prefix_append _ _)
    | client =>
      cases he
      exact hgrow _ _ hw rfl List.prefix_rfl
  · cases j with
    | client => exact absurd rfl hj
    | server =>
      obtain ⟨hconns, hqueue⟩ := controller_keeps hr
      exact hgrow _ _ hw hconns (hqueue ▸ List.prefix_rfl)

/-- A policy of the list is to be sent, and nothing has been. -/
def Pending (p : Str) (w : Route) : Prop := w.Idle ∧ p ∈ w.queue.inserted

theorem stable_idle : (given .client).Stable Idle := by
  apply stable_client
  rintro w w' ⟨n, hn⟩ hconns _
  exact ⟨n, hconns.trans hn⟩

theorem stable_pending : (given .client).Stable (Pending p) := by
  apply stable_client
  rintro w w' ⟨⟨n, hn⟩, hp⟩ hconns hgrow
  exact ⟨⟨n, hconns.trans hn⟩, hgrow.subset hp⟩

/-- On the way to a session nothing is written. -/
theorem ofConnect_keeps (hc : TLSClient.ofConnect c = true) (h : w.deployer c r = some w')
    (hidle : w.Idle) : w'.Idle ∧ w'.queue = w.queue := by
  cases c with
  | netConnect IP port proto =>
    simp only [deployer] at h
    split at h
    · cases h
      obtain ⟨n, hn⟩ := hidle
      exact ⟨⟨n + 1, by rw [hn, List.replicate_succ']⟩, rfl⟩
    · cases h
      exact ⟨hidle, rfl⟩
  | _ => first
    | exact Bool.noConfusion hc
    | (cases h; exact ⟨hidle, rfl⟩)

theorem pending_keeps (hc : TLSClient.ofConnect c = true) (h : w.deployer c r = some w')
    (hw : w.Pending p) : w'.Pending p := by
  obtain ⟨hidle, hqueue⟩ := ofConnect_keeps hc h hw.1
  exact ⟨hidle, hqueue ▸ hw.2⟩

theorem owes_of_idle (hidle : w.Idle) (hc : ∀ buf, c ≠ .sslWrite .client buf) :
    Owes .client c w := fun _ => ⟨hidle, fun buf h => absurd h (hc buf)⟩

theorem triple_connect {IP port : Str} : (given .client).Triple (Pending p)
    (Deployer.TLSClient.connect IP port) (fun connected w => w.Idle ∧ (connected = true →
      w.Pending p)) := by
  have hstable : ∀ connected, (given .client).Stable fun w =>
      w.Idle ∧ (connected = true → w.Pending p) := fun connected w w' hr hw =>
    ⟨stable_idle w w' hr hw.1, fun h => stable_pending w w' hr (hw.2 h)⟩
  refine SGXess.TLSClient.triple_connectWith (L := Pending p) (F := Idle) stable_pending stable_idle
    ?_ ?_ ?_ (hstable false) ?_ ?_ fun w hw => ⟨hw.1, fun _ => hw⟩
  · intro c w hc hw
    exact owes_of_idle hw.1 fun buf h => by rw [h] at hc; cases hc
  · intro c w r w' hc _ hw ha
    exact pending_keeps (SGXess.TLSClient.ofConnect_of_isStep hc) ha.2.1 hw
  · intro c w r w' hc _ hw ha
    exact (ofConnect_keeps (SGXess.TLSClient.ofConnect_of_isStep hc) ha.2.1 hw.1).1
  · refine triple_void stable_pending stable_pending (fun w hw => owes_of_idle hw.1 nofun) ?_
    exact fun w r w' hw ha => pending_keeps (c := .clientInit) (r := r) rfl ha.2.1 hw
  · refine triple_void stable_idle (hstable false) (fun w hw => owes_of_idle hw nofun) ?_
    exact fun w r w' hw ha => ⟨(ofConnect_keeps (c := .clientFree) (r := r) rfl ha.2.1 hw).1, nofun⟩

/-- A write that accepted nothing leaves the Deployer free to go on. -/
theorem triple_sendMsg : (given .client).Triple (Pending p) (Deployer.TLSClient.sendMsg p)
    (fun sent w => sent = false → w.Idle) := by
  have hstable : ∀ sent : Bool, (given .client).Stable fun w => sent = false → w.Idle :=
    fun sent w w' hr hw h => stable_idle w w' hr (hw h)
  refine triple_sslSendMsg stable_pending hstable ?_ ?_ ?_
  · intro w hw _
    refine ⟨hw.1, fun buf hbuf => ?_⟩
    cases hbuf
    exact hw.2
  · intro w r w' hw ha hretry
    rcases write_cases hw.1 ha.2.1 with ⟨_, rfl⟩ | ⟨hdone, _⟩
    · exact hw
    · exact absurd (.inl hretry) hdone
  · intro w r w' hw ha hretry hfailed
    rcases write_cases hw.1 ha.2.1 with ⟨_, rfl⟩ | ⟨hdone, _⟩
    · exact hw.1
    · rw [decide_eq_false_iff_not] at hfailed
      exact absurd (.inr (by omega)) hdone

theorem triple_terminate : (given .client).Triple (fun _ => True) Deployer.TLSClient.terminate
    (fun _ _ => False) := by
  have hstable : (given .client).Stable fun _ => True := fun _ _ _ _ => trivial
  refine Setting.triple_bind (triple_void (B := fun _ => True) hstable hstable ?_ ?_) fun _ => ?_
  · exact fun _ _ h => Bool.noConfusion h
  · exact fun _ _ _ _ _ => trivial
  refine Setting.triple_bind (triple_void (B := fun _ => True) hstable hstable ?_ ?_) fun _ => ?_
  · exact fun _ _ h => Bool.noConfusion h
  · exact fun _ _ _ _ _ => trivial
  refine triple_void hstable (fun _ _ _ hw => hw) ?_ ?_
  · exact fun _ _ h => Bool.noConfusion h
  · exact fun _ _ _ _ ha => nomatch ha.2.1

theorem triple_deployPolicy {IP port : Str} : (given .client).Triple (Pending p)
    (Deployer.PolicyDeployer.deployPolicy p IP port)
    (fun deployed w => deployed = false ∧ w.Idle) := by
  have hidle : (given .client).Stable fun w => (false = false) ∧ w.Idle :=
    fun w w' hr hw => ⟨rfl, stable_idle w w' hr hw.2⟩
  refine Deployer.PolicyDeployer.triple_deployPolicy
    (B := fun connected w => w.Idle ∧ (connected = true → w.Pending p))
    (C := fun sent w => sent = false → w.Idle) ?_ ?_ ?_ triple_connect
    (triple_sendMsg.pre fun w hw => hw.2 rfl) ?_ (fun w hw => ⟨rfl, hw.1⟩) fun w hw => ⟨rfl, hw rfl⟩
  · exact fun w w' hr hw => ⟨stable_idle w w' hr hw.1, nofun⟩
  · exact fun w w' hr hw h => stable_idle w w' hr (hw h)
  · exact fun _ _ _ hw => Bool.noConfusion hw.1
  · exact triple_terminate.conseq (fun _ _ => trivial) fun _ _ => False.elim

theorem triple_managePolicy : (given .client).Triple Idle Deployer.PolicyManager.managePolicy
    (fun _ _ => False) := by
  have htaken : ∀ x : Str, (given .client).Stable fun w =>
      w.Idle ∧ (x ≠ [] → x ∈ w.queue.inserted) := by
    intro x
    apply stable_client
    rintro w w' ⟨⟨n, hn⟩, hx⟩ hconns hgrow
    exact ⟨⟨n, hconns.trans hn⟩, fun hne => hgrow.subset (hx hne)⟩
  refine Setting.triple_whileTrue (fun _ _ _ _ hw => hw) (triple_popRound
    (B := fun x w => w.Idle ∧ (x ≠ [] → x ∈ w.queue.inserted))
    (k := fun policy => (Deployer.PolicyDeployer.deployPolicy policy _ _).bind fun _ => .ret _)
    stable_idle ?_ ?_ fun policy hne => ?_) nofun
  · refine Setting.triple_ask stable_idle (fun r => htaken r.bytes)
      (fun w hw => owes_of_idle hw nofun) ?_
    intro w r w' hw ha
    have hr : w.deployer .popPolicy r = some w' := ha.2.1
    simp only [deployer] at hr
    split at hr
    · rename_i hfront
      cases hr
      refine ⟨hw, fun hne => ?_⟩
      rw [hfront] at hne ⊢
      exact Deployer.PolicyManager.handoff.front_mem hne
    · cases hr
  · refine triple_void (htaken []) stable_idle (fun w hw => owes_of_idle hw.1 nofun) ?_
    intro w r w' hw ha
    cases ha.2.1
    exact hw.1
  · refine (Setting.triple_bind (triple_deployPolicy (p := policy)) fun deployed => ?_).pre
      fun w hw => ⟨hw.1, hw.2 hne⟩
    exact (Setting.triple_ret stable_idle fun _ hw => hw).pre fun _ hw => hw.2

end Client

section Server

theorem stable_server {B : Route → Prop} (hgrow : ∀ w w', B w → w.Grows w' → B w') :
    (given .server).Stable B := by
  rintro w w' (⟨e, he⟩ | ⟨j, hj, c, r, howes, hr, _⟩) hw
  · exact hgrow _ _ hw (grows_arrive he)
  · cases j with
    | server => exact absurd rfl hj
    | client => exact hgrow _ _ hw (grows_deployer howes hr)

/-- What was read of the Deployer's connection accepted last. -/
def Got (policy : Str) (w : Route) : Prop := ∀ k, w.current = some k → policy ≠ [] →
  w.inserted = [] ∧ ∃ s, w.conns[k]? = some s ∧ IsText policy s

theorem stable_true : (given .server).Stable fun _ => True := fun _ _ _ _ => trivial

theorem stable_fresh : (given .server).Stable Fresh := by
  apply stable_server
  intro w w' hw hgrow k hk
  obtain ⟨hinserted, hread⟩ := hw k (hgrow.current ▸ hk)
  exact ⟨hgrow.inserted.trans hinserted, hgrow.read.trans hread⟩

theorem stable_got (policy : Str) : (given .server).Stable (Got policy) := by
  apply stable_server
  intro w w' hw hgrow k hk hne
  obtain ⟨hinserted, s, hs, hfront, htext⟩ := hw k (hgrow.current ▸ hk) hne
  obtain ⟨s', hs', hlonger⟩ := hgrow.conns k s hs
  exact ⟨hgrow.inserted.trans hinserted, s', hs', hfront.trans hlonger, htext⟩

theorem owes_of_ne (hc : ∀ policy, c ≠ .insertPolicy policy) : Owes .server c w :=
  fun policy _ h => absurd h (hc policy)

theorem triple_acceptClient : (given .server).Triple (fun _ => True)
    Controller.TLSServer.acceptClient (fun accepted w => accepted = true → w.Fresh) := by
  have hstable : ∀ accepted : Bool, (given .server).Stable fun w => accepted = true → w.Fresh :=
    fun accepted w w' hr hw h => stable_fresh w w' hr (hw h)
  refine Controller.TLSServer.triple_acceptClient (H := Fresh) stable_true stable_fresh hstable
    (fun _ _ => owes_of_ne nofun) (fun _ _ => owes_of_ne nofun) ?_ ?_ ?_
  · intro w r w' _ ha
    by_cases hret : r.ret = 0
    · rw [if_pos hret]
      rcases ha.1.accept ha.2.1 with ⟨hne, _⟩ | ⟨_, hfresh⟩
      · exact absurd hret hne
      · exact hfresh
    · rw [if_neg hret]
      exact nofun
  · intro w r w' hw ha _
    cases ha.2.1
    exact hw
  · intro w r w' hw ha _ _
    cases ha.2.1
    exact hw

theorem triple_resetClient {A : Route → Prop} (hA : (given .server).Stable A) :
    (given .server).Triple A Controller.TLSServer.resetClient (fun _ => A) := by
  refine Setting.triple_bind (triple_void hA hA (fun _ _ => owes_of_ne nofun) ?_) fun _ =>
    triple_void hA hA (fun _ _ => owes_of_ne nofun) ?_
  · intro w r w' hw ha
    cases ha.2.1
    exact hw
  · intro w r w' hw ha
    cases ha.2.1
    exact hw

theorem readUp_failed (hret : r.ret ≤ 0) (h : w.readUp len r = some w') : w' = w := by
  rcases readUp_cases h with ⟨_, _, heq⟩ | ⟨_, _, ⟨_, _, heq⟩ | ⟨hpos, _⟩⟩
  · exact heq
  · exact heq
  · exact absurd hret (not_le.mpr hpos)

theorem received_nothing (h : r.bytes = []) : (received true true [] r).2 = [] := by
  unfold received
  rw [h]
  split
  · rfl
  · split <;> rfl

theorem received_text (hret : 0 < r.ret) :
    (received true true [] r).2 = r.bytes.takeWhile (· ≠ 0) := by
  have hne : r.ret ≠ errSslTimeout := by
    simp only [errSslTimeout]
    omega
  rw [received, if_neg hne, if_neg fun h => not_le.mpr hret h.1]
  rfl

/-- The text in front of a piece of what was written. -/
theorem isText_takeWhile {s bytes : Str} (hfront : bytes <+: s) (hlen : bytes.length ≤ 1023) :
    IsText (bytes.takeWhile (· ≠ 0)) s := by
  have hhead := List.takeWhile_prefix (p := (· ≠ 0)) (l := bytes)
  refine ⟨hhead.trans hfront, hhead.length_le.trans hlen, fun hzero => ?_⟩
  simpa using List.mem_takeWhile_imp hzero

theorem Fresh.readUp (hw : w.Fresh) (h : w.readUp 1023 r = some w') :
    r.bytes.length ≤ 1023 ∧ w'.Got (received true true [] r).2 := by
  rcases readUp_cases h with ⟨hcurrent, hlen, rfl⟩ | ⟨k, hcurrent, hread⟩
  · refine ⟨hlen, fun k hk => ?_⟩
    rw [hcurrent] at hk
    cases hk
  · obtain ⟨hinserted, hstart⟩ := hw k hcurrent
    rcases hread with ⟨_, hnone, rfl⟩ | ⟨hret, hle, hbytes, rfl⟩
    · refine ⟨by rw [hnone]; exact Nat.zero_le _, fun _ _ hne => ?_⟩
      exact absurd (received_nothing hnone) hne
    · rw [hstart, List.drop_zero] at hbytes
      have hlen : r.bytes.length ≤ 1023 := by
        rw [hbytes, List.length_take]
        exact (Nat.min_le_left _ _).trans hle
      refine ⟨hlen, fun k' hk' hne => ⟨hinserted, ?_⟩⟩
      have hk : k' = k := Option.some.inj (hk'.symm.trans hcurrent)
      rw [received_text hret] at hne ⊢
      cases hs : w.conns[k]? with
      | none =>
        rw [hs, Option.getD_none, List.take_nil] at hbytes
        rw [hbytes] at hne
        exact absurd rfl hne
      | some s =>
        rw [hs, Option.getD_some] at hbytes
        exact ⟨s, hk ▸ hs, isText_takeWhile (hbytes ▸ List.take_prefix _ _) hlen⟩

theorem triple_recvMsg : (given .server).Triple Fresh (Controller.TLSServer.recvMsg [])
    (fun received => Got received.2) := by
  refine triple_sslRecvMsg stable_fresh (fun received => stable_got received.2)
    (fun _ _ => owes_of_ne nofun) ?_ ?_
  · intro w r w' hw ha hretry
    rw [readUp_failed (wantsRetry_neg hretry).le ha.2.1]
    exact hw
  · intro w r w' hw ha _
    exact hw.readUp ha.2.1

theorem triple_runListener : (given .server).Triple (fun _ => True)
    Controller.PolicyListener.runListener (fun _ _ => False) := by
  refine Controller.PolicyListener.triple_runListener stable_true triple_acceptClient
    (B := fun accepted w => accepted = true → w.Fresh) ?_ ?_
    (fun policy => triple_resetClient (stable_got policy)) fun policy => ?_
  · exact (triple_resetClient stable_true).pre fun _ _ => trivial
  · exact triple_recvMsg.pre fun w hw => hw rfl
  · refine triple_void (stable_got policy) stable_true ?_ fun _ _ _ _ _ => trivial
    intro w hw policy' k hpolicy hk hne
    cases hpolicy
    exact hw k hk hne

end Server

theorem parties_hold (side : Side) : (party side).Holds (parties side)
    (fun _ w => False ∧ w.Sound) {} := by
  have hsound : Sound {} := ⟨.inl ⟨0, rfl⟩, rfl, nofun, .inl rfl⟩
  have hans : ∀ (w : Route) c r w', w.Sound → (party side).pre c w →
      (party side).answer w c r w' → w'.Sound := fun w c r w' hw howes ha => hw.respond howes ha.1
  cases side with
  | client =>
    exact triple_managePolicy.of_given (stable_sound _) hans _ ⟨⟨0, rfl⟩, hsound⟩
  | server =>
    refine Setting.triple_bind (triple_runListener.of_given (stable_sound _) hans) (fun _ => ?_) _
      ⟨trivial, hsound⟩
    exact Setting.triple_of_false fun _ hw => hw.1

/-- A Deployer gets at most one policy into the Controller's list before its process ends, and of
this no more than the text one read returns. -/
theorem at_most_one_policy {t : Config Route Side Call Reply Unit}
    (ht : machine.Reaches Machine.any ⟨parties, {}⟩ t) :
    t.world.inserted = [] ∨ ∃ policy, ∃ p ∈ t.world.queue.inserted, t.world.inserted = [policy] ∧
      IsText policy p ∧ ∃ c, (t.code .client).pending = .calling c ∧ ending c = true := by
  have hsound : t.world.Sound := by
    refine ht.invariant (P := Sound) parties_hold ⟨.inl ⟨0, rfl⟩, rfl, nofun, .inl rfl⟩ ?_ ?_
    · exact fun w side c r w' hw howes hr _ => hw.respond howes hr
    · exact fun w e w' hw he => hw.arrive he
  refine hsound.inserted.imp_right ?_
  rintro ⟨policy, s, heq, hne, hsent, htext, _⟩
  have hidle : ¬ t.world.Idle := fun h => sent_ne_idle h hsent
  obtain ⟨_, _, _, p, hp, hfront⟩ := hsent
  refine ⟨policy, p, hp, heq, ⟨htext.1.trans hfront, htext.2⟩, ?_⟩
  have hholds := ht.holds parties_hold .client
  cases hpending : (t.code .client).pending with
  | returned _ => exact (hholds.returned hpending).1.elim
  | undefined => exact (hholds.undefined hpending).elim
  | calling c =>
    refine ⟨c, rfl, ?_⟩
    by_contra hending
    exact hidle (hholds.pre hpending (eq_false_of_ne_true hending)).1

/-- Of two policies the first is written, read and inserted. -/
theorem at_most_one_policy_delivered : ∃ t, machine.Reaches Machine.any ⟨parties, {}⟩ t ∧
    t.world.queue.inserted = [[65], [66]] ∧ t.world.inserted = [[65]] ∧
      ∃ p ∈ t.world.queue.inserted, IsText [65] p := by
  have hrun : machine.observe (fun w => (w.queue.inserted, w.inserted)) ⟨parties, {}⟩
      ([.move (.policy [65]), .move (.policy [66]), .reply .client ⟨0, [65]⟩] ++
        List.replicate 9 (.reply .client ⟨0, []⟩) ++ [.reply .client ⟨1, []⟩,
        .reply .server ⟨0, []⟩, .reply .server ⟨0, []⟩, .reply .server ⟨1, [65]⟩,
        .reply .server ⟨0, []⟩, .reply .server ⟨0, []⟩, .reply .server ⟨0, []⟩]) .client =
      some (.calling (.sslCloseNotify .client), [[65], [66]], [[65]]) := by decide +kernel
  obtain ⟨t, ht, _, hsee⟩ := Machine.reaches_of_observe hrun
  obtain ⟨hqueue, hinserted⟩ := Prod.mk.inj hsee
  refine ⟨t, ht, hqueue, hinserted, ?_⟩
  rcases at_most_one_policy ht with hnil | ⟨policy, p, hp, heq, htext, _⟩
  · rw [hinserted] at hnil
    cases hnil
  · rw [hinserted] at heq
    cases heq
    exact ⟨p, hp, htext⟩

end Route

end SGXess
