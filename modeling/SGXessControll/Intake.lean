import SGXessControll.Scanning
import Mathlib.Data.List.Basic

/-!
# What the Deployer queues

Its listener hands on whatever `SocketUtil::recv` left in the string, and `recv` itself does
not look at what the first `::recv` returned. So a policy is complete only where the length
came in one piece, nothing failed behind it and the search for a zero byte never left the
buffer.
-/

namespace SGXess.Deployer.Intake

set_option autoImplicit false

open Calls

/-- The answers to `::recv` since the last connection. -/
def receipts (w : Log) : List Reply :=
  w.foldl (fun list p =>
    match p.1 with
    | .accept => []
    | .recv _ => list ++ [p.2]
    | _ => list) []

theorem receipts_accept (w : Log) (r : Reply) : receipts (w ++ [(.accept, r)]) = [] := by
  simp [receipts]

theorem receipts_recv (w : Log) (len : Nat) (r : Reply) :
    receipts (w ++ [(.recv len, r)]) = receipts w ++ [r] := by simp [receipts]

def payload (list : List Reply) : Str := list.flatMap Reply.bytes

/-- What is appended of it, piece by piece. -/
def appended (list : List Reply) : Str := list.flatMap fun r => r.bytes.takeWhile (· ≠ 0)

/-- The bytes are a header and as many more as it declares, `data`. -/
def Frame (order : Bytes.ByteOrder) (data bytes : Str) : Prop :=
  ∃ header : Str, bytes = header ++ data ∧ header.length = sizeofSizeT ∧
    data.length = order.decode header

/-- The first `::recv` brought the whole header. -/
def HeaderWhole (list : List Reply) : Prop := ∃ r ∈ list.head?, r.bytes.length = sizeofSizeT

def PayloadFailed (list : List Reply) : Prop := ∃ r ∈ list.tail, r.ret < 0

/-- No piece filled the buffer without a zero byte. -/
def Terminated (list : List Reply) : Prop := TerminatedEach (list.map Reply.bytes)

theorem appended_eq_iff (list : List Reply) : appended list = payload list ↔ 0 ∉ payload list := by
  constructor
  · intro h hzero
    rw [← h] at hzero
    obtain ⟨r, _, hr⟩ := List.mem_flatMap.mp hzero
    simpa using List.mem_takeWhile_imp hr
  · intro hzero
    apply List.flatMap_congr
    intro r hr
    exact Bytes.takeWhile_ne_eq_self_iff.mpr fun h => hzero (List.mem_flatMap.mpr ⟨r, hr, h⟩)

/-- At the head of the receive loop: `n` bytes to go and `cur` in the caller's string, which
held `out` before. -/
inductive Filling (order : Bytes.ByteOrder) (out : Str) : List Reply → Nat → Str → Prop where
  | mk (header : Reply) (list : List Reply) (n : Nat) : header.bytes.length ≤ sizeofSizeT →
      (∀ r ∈ list, 0 ≤ r.ret) → Terminated (header :: list) →
      n + (payload list).length = SocketUtil.readLength order header.bytes →
      Filling order out (header :: list) n (out ++ appended list)

/-- Behind the loop. -/
inductive Filled (order : Bytes.ByteOrder) (out : Str) : List Reply → Bool → Str → Prop where
  | all (header : Reply) (list : List Reply) : header.bytes.length ≤ sizeofSizeT →
      (∀ r ∈ list, 0 ≤ r.ret) → Terminated (header :: list) →
      (payload list).length = SocketUtil.readLength order header.bytes →
      Filled order out (header :: list) true (out ++ appended list)
  | cut (header r : Reply) (list : List Reply) : header.bytes.length ≤ sizeofSizeT →
      r.ret < 0 → r.bytes = [] → Terminated (header :: list) →
      (payload list).length < SocketUtil.readLength order header.bytes →
      Filled order out (header :: (list ++ [r])) false (out ++ appended list)

section Steps

variable {order : Bytes.ByteOrder} {out cur : Str} {list : List Reply} {n : Nat} {r : Reply}

theorem terminated_append :
    Terminated (list ++ [r]) ↔ Terminated list ∧ (r.bytes.length = maxBufLen → 0 ∈ r.bytes) := by
  rw [Terminated, List.map_append]
  exact terminatedEach_append

theorem terminated_header (h : r.bytes.length ≤ sizeofSizeT) : Terminated [r] := by
  intro piece hpiece hfull
  rw [List.mem_singleton.mp hpiece] at hfull
  rw [hfull] at h
  exact absurd h (by decide)

theorem filling_start (h : r.bytes.length ≤ sizeofSizeT) :
    Filling order out [r] (SocketUtil.readLength order r.bytes) out := by
  have hstart : Filling order out [r] _ (out ++ appended []) :=
    .mk r [] _ h nofun (terminated_header h) rfl
  rwa [appended, List.flatMap_nil, List.append_nil] at hstart

theorem Filling.lt (h : Filling order out list n cur) : n < 2 ^ 64 := by
  cases h with
  | mk header list _ hlen _ _ hsum =>
    have hread : SocketUtil.readLength order header.bytes < 2 ^ 64 :=
      SocketUtil.readLength_lt hlen
    omega

theorem Filling.terminated (h : Filling order out list n cur) : Terminated list := by
  cases h with
  | mk _ _ _ _ _ hterm _ => exact hterm

theorem Filling.append (h : Filling order out list n cur) (hret : r.ret = r.bytes.length)
    (hlen : r.bytes.length ≤ n) (hend : r.bytes.length = maxBufLen → 0 ∈ r.bytes) :
    Filling order out (list ++ [r]) (n - r.bytes.length)
      (cur ++ r.bytes.takeWhile (· ≠ 0)) := by
  cases h with
  | mk header list _ hheader hnonneg hterm hsum =>
    have hpayload : payload (list ++ [r]) = payload list ++ r.bytes := by simp [payload]
    have happended : out ++ appended list ++ r.bytes.takeWhile (· ≠ 0) =
        out ++ appended (list ++ [r]) := by simp [appended]
    rw [happended, List.cons_append]
    refine .mk header _ _ hheader ?_ (terminated_append.mpr ⟨hterm, hend⟩) ?_
    · intro x hx
      rcases List.mem_append.mp hx with hx | hx
      · exact hnonneg x hx
      · rw [List.mem_singleton.mp hx]
        omega
    · rw [hpayload, List.length_append]
      omega

theorem Filling.failed (h : Filling order out list n cur) (hpos : 0 < n) (hneg : r.ret < 0)
    (hempty : r.bytes = []) : Filled order out (list ++ [r]) false cur := by
  cases h with
  | mk header list _ hheader _ hterm hsum =>
    exact .cut header r list hheader hneg hempty hterm (by omega)

theorem Filling.done (h : Filling order out list 0 cur) : Filled order out list true cur := by
  cases h with
  | mk header list _ hheader hnonneg hterm hsum =>
    exact .all header list hheader hnonneg hterm (by omega)

theorem Filled.terminated {received : Bool} (h : Filled order out list received cur) :
    Terminated list := by
  cases h with
  | all _ _ _ _ hterm _ => exact hterm
  | cut header r list _ _ hempty hterm _ =>
    refine terminated_append.mpr ⟨hterm, fun hfull => ?_⟩
    rw [hempty] at hfull
    exact absurd hfull (by decide)

/-- A frame whose header came in pieces cannot be complete: what was read of the length is
no more than the length, and the rest of the header counts as data. -/
theorem not_frame_of_short {header bytes data : Str} (hshort : header.length < sizeofSizeT)
    (hle : bytes.length ≤ SocketUtil.readLength order header) :
    ¬ Frame order data (header ++ bytes) := by
  intro hframe
  obtain ⟨whole, hsplit, hwhole, hdata⟩ := hframe
  obtain ⟨rest, hrest, rfl⟩ : ∃ rest, whole = header ++ rest ∧ bytes = rest ++ data := by
    rcases List.append_eq_append_iff.mp hsplit with ⟨rest, h1, h2⟩ | ⟨rest, h1, h2⟩
    · exact ⟨rest, h1, h2⟩
    · rw [h1, List.length_append] at hshort
      omega
  have hrestlen : sizeofSizeT - header.length = rest.length := by
    rw [hrest, List.length_append] at hwhole
    omega
  have hpartial := order.decode_partial_le header rest
  rw [SocketUtil.readLength, hrestlen] at hle
  rw [← hrest] at hpartial
  rw [List.length_append] at hle
  omega

theorem frame_iff_of_whole {header bytes data : Str} (hwhole : header.length = sizeofSizeT) :
    Frame order data (header ++ bytes) ↔
      data = bytes ∧ bytes.length = SocketUtil.readLength order header := by
  have hread : SocketUtil.readLength order header = order.decode header := by
    rw [SocketUtil.readLength, hwhole, Nat.sub_self, List.replicate_zero, List.append_nil]
  rw [hread]
  constructor
  · intro hframe
    obtain ⟨whole, hsplit, hlen, hdata⟩ := hframe
    obtain ⟨rfl, rfl⟩ := List.append_inj hsplit (hwhole.trans hlen.symm)
    exact ⟨rfl, hdata⟩
  · intro h
    obtain ⟨rfl, hlen⟩ := h
    exact ⟨header, rfl, hwhole, hlen⟩

theorem not_frame_of_cut {header data : Str} (hheader : header.length ≤ sizeofSizeT)
    (hlt : (payload list).length < SocketUtil.readLength order header) :
    ¬ Frame order data (header ++ payload list) := by
  intro hframe
  by_cases hwhole : header.length = sizeofSizeT
  · have hlen := ((frame_iff_of_whole hwhole).mp hframe).2
    omega
  · exact not_frame_of_short (by omega) (Nat.le_of_lt hlt) hframe

@[simp] theorem payload_cons (header : Reply) : payload (header :: list) =
    header.bytes ++ payload list := List.flatMap_cons

theorem headerWhole_cons (header : Reply) :
    HeaderWhole (header :: list) ↔ header.bytes.length = sizeofSizeT := by simp [HeaderWhole]

theorem not_payloadFailed (header : Reply) (hnonneg : ∀ r ∈ list, 0 ≤ r.ret) :
    ¬ PayloadFailed (header :: list) := by
  intro hfailed
  obtain ⟨r, hr, hneg⟩ := hfailed
  have := hnonneg r hr
  omega

theorem payloadFailed_cut {header r : Reply} (hneg : r.ret < 0) :
    PayloadFailed (header :: (list ++ [r])) :=
  ⟨r, List.mem_append_right _ (List.mem_singleton_self r), hneg⟩

theorem payload_cut (hempty : r.bytes = []) : payload (list ++ [r]) = payload list := by
  simp [payload, hempty]

/-- `recv` tells a complete frame from others unless the header was short and no later
`::recv` failed. -/
theorem Filled.reports_iff {received : Bool} (h : Filled order out list received cur) :
    ((received = true ↔ ∃ data, Frame order data (payload list)) ↔
      HeaderWhole list ∨ PayloadFailed list) := by
  cases h with
  | all header list hheader hnonneg _ hlen =>
    rw [payload_cons, headerWhole_cons, or_iff_left (not_payloadFailed header hnonneg)]
    by_cases hwhole : header.bytes.length = sizeofSizeT
    · exact iff_of_true (iff_of_true rfl ⟨_, (frame_iff_of_whole hwhole).mpr ⟨rfl, hlen⟩⟩) hwhole
    · refine iff_of_false (fun hreport => ?_) hwhole
      obtain ⟨data, hframe⟩ := hreport.mp rfl
      exact not_frame_of_short (by omega) (Nat.le_of_eq hlen) hframe
  | cut header r list hheader hneg hempty _ hlt =>
    refine iff_of_true (iff_of_false nofun fun hframe => ?_) (Or.inr (payloadFailed_cut hneg))
    obtain ⟨data, hframe⟩ := hframe
    rw [payload_cons, payload_cut hempty] at hframe
    exact not_frame_of_cut hheader hlt hframe

/-- The string is the data of a complete frame. -/
theorem Filled.frame_iff {received : Bool} {policy : Str}
    (h : Filled order [] list received policy) :
    Frame order policy (payload list) ↔
      HeaderWhole list ∧ ¬ PayloadFailed list ∧ 0 ∉ payload list.tail := by
  cases h with
  | all header list hheader hnonneg _ hlen =>
    rw [payload_cons, headerWhole_cons, and_iff_right (not_payloadFailed header hnonneg),
      List.tail_cons, List.nil_append, ← appended_eq_iff]
    by_cases hwhole : header.bytes.length = sizeofSizeT
    · rw [frame_iff_of_whole hwhole, and_iff_left hlen, and_iff_right hwhole]
    · refine iff_of_false ?_ fun h => hwhole h.1
      exact not_frame_of_short (by omega) (Nat.le_of_eq hlen)
  | cut header r list hheader hneg hempty _ hlt =>
    rw [payload_cons, payload_cut hempty]
    exact iff_of_false (not_frame_of_cut hheader hlt) fun h => h.2.1 (payloadFailed_cut hneg)

end Steps

/-- What the listener owes where it is about to queue a policy: it comes from `recv`. -/
def Owed (order : Bytes.ByteOrder) (c : Call) (w : Log) : Prop :=
  ∀ policy, c = .insertPolicy policy → ∃ received, Filled order [] (receipts w) received policy

abbrev intake (order : Bytes.ByteOrder) : Setting Log Call Reply :=
  logged (Owed order) fun w => ¬ Terminated (receipts w)

section Run

variable {order : Bytes.ByteOrder}

theorem triple_recv {out : Str} :
    (intake order).Triple (fun w => receipts w = []) (SocketUtil.recv order out)
      (fun res w => Filled order out (receipts w) res.1 res.2) := by
  refine SGXess.SocketUtil.triple_recv (J := fun b w => Filling order out (receipts w) b.1 b.2)
    (fun _ => recorded_stable _) (triple_recorded (fun _ _ => nofun) ?_) fun n cur => ?_
  · intro w r hw hr
    rw [receipts_recv, hw]
    exact filling_start (possible_recv hr).1
  · refine SGXess.SocketUtil.triple_recvRound
      (J := fun b w => Filling order out (receipts w) b.1 b.2)
      (Θ := fun res w => Filled order out (receipts w) res.1 res.2)
      (B := fun r w => ∃ list, receipts w = list ++ [r] ∧ 0 < n ∧ r.bytes.length ≤ n ∧
        r.bytes.length ≤ maxBufLen ∧ (r.ret < 0 ∨ r.ret = r.bytes.length) ∧
        (r.ret < 0 → r.bytes = []) ∧ Filling order out list n cur)
      (fun _ => recorded_stable _) (fun _ => recorded_stable _)
      (fun hpos => triple_recorded (fun _ _ => nofun) ?_) ?_ ?_ ?_ fun w hw => hw.done
    · intro w r hw hr
      obtain ⟨hlen, hret, hempty⟩ := possible_recv hr
      exact ⟨receipts w, receipts_recv w _ r, by omega, by omega, by omega, hret, hempty, hw⟩
    · intro r w hneg hw
      obtain ⟨list, hlist, hpos, _, _, _, hempty, hfilling⟩ := hw
      rw [hlist]
      exact hfilling.failed hpos hneg (hempty hneg)
    · intro r s w hret hw hs
      obtain ⟨list, hlist, _, hlen, hbuf, hcount, _, hfilling⟩ := hw
      have hcount : r.ret = r.bytes.length := hcount.resolve_left (by omega)
      obtain ⟨rfl, hend⟩ := (Bytes.untilFirst_intoArray_eq_some_iff hbuf).mp hs
      rw [hlist, show r.ret.toNat = r.bytes.length by omega, subSizeT_of_le hlen hfilling.lt]
      exact hfilling.append hcount hlen fun hfull => hend.resolve_left (by omega)
    · intro r w _ hw hs hterm
      obtain ⟨list, hlist, _, _, hbuf, _⟩ := hw
      obtain ⟨hfull, hnone⟩ := (Bytes.untilFirst_intoArray_eq_none_iff hbuf).mp hs
      rw [hlist] at hterm
      exact hnone ((terminated_append.mp hterm).2 hfull)

theorem triple_runListener :
    (intake order).Triple (fun _ => True) (PolicyListener.runListener order)
      (fun _ _ => True) := by
  refine Setting.triple_whileTrue (fun _ => recorded_stable _) ?_ nofun
  refine Setting.triple_bind (Φ := fun _ w => receipts w = []) ?_ fun sock => ?_
  · refine Setting.triple_bind (triple_logged_int (B := fun _ w => receipts w = [])
      (fun _ _ => nofun) fun w r _ _ => receipts_accept w r) fun sock => ?_
    split
    · exact Setting.triple_ret (recorded_stable _) fun _ hw => hw
    · exact Setting.triple_ret (recorded_stable _) fun _ hw => hw
  · split
    · exact Setting.triple_ret (recorded_stable _) fun _ _ => trivial
    · refine Setting.triple_bind triple_recv fun res => ?_
      refine Setting.triple_bind (triple_logged_void (B := fun _ => True) ?_ fun _ _ _ _ => trivial)
        fun _ => ?_
      · intro w hw policy hpolicy
        cases hpolicy
        exact ⟨res.1, hw⟩
      · refine Setting.triple_bind (triple_logged_void (B := fun _ => True) (fun _ _ => nofun)
          fun _ _ _ _ => trivial) fun _ => ?_
        exact Setting.triple_ret (recorded_stable _) fun _ _ => trivial

end Run

/-- `recv` has returned, and `true` exactly if what it received is a complete frame. -/
def Reported (order : Bytes.ByteOrder) (t : Config Log Unit Call Reply (Bool × Str)) : Prop :=
  ∃ received data, (t.code ()).pending = .returned (received, data) ∧
    (received = true ↔ ∃ data, Frame order data (payload (receipts t.world)))

/-- The listener queues the data of a complete frame. -/
def Queues (order : Bytes.ByteOrder) (t : Config Log Unit Call Reply Bool) : Prop :=
  ∃ policy, (t.code ()).pending = .calling (.insertPolicy policy) ∧
    Frame order policy (payload (receipts t.world))

section Outcomes

variable {order : Bytes.ByteOrder} {received : Bool} {data policy : Str}

theorem reported_returned {t : Config Log Unit Call Reply (Bool × Str)}
    (hp : (t.code ()).pending = .returned (received, data)) : Reported order t ↔
      (received = true ↔ ∃ data, Frame order data (payload (receipts t.world))) := by
  constructor
  · intro hreported
    obtain ⟨received', data', hret, hiff⟩ := hreported
    cases hp.symm.trans hret
    exact hiff
  · exact fun hiff => ⟨received, data, hp, hiff⟩

theorem not_reported {t : Config Log Unit Call Reply (Bool × Str)}
    (hp : (t.code ()).pending = .undefined) : ¬ Reported order t := by
  intro hreported
  obtain ⟨received, data, hret, _⟩ := hreported
  cases hp.symm.trans hret

theorem queues_calling {t : Config Log Unit Call Reply Bool}
    (hp : (t.code ()).pending = .calling (.insertPolicy policy)) :
    Queues order t ↔ Frame order policy (payload (receipts t.world)) := by
  constructor
  · intro hqueues
    obtain ⟨policy', hcall, hframe⟩ := hqueues
    cases hp.symm.trans hcall
    exact hframe
  · exact fun hframe => ⟨policy, hp, hframe⟩

theorem not_queues {t : Config Log Unit Call Reply Bool}
    (hp : (t.code ()).pending = .undefined) : ¬ Queues order t := by
  intro hqueues
  obtain ⟨policy, hcall, _⟩ := hqueues
  cases hp.symm.trans hcall

end Outcomes

/-- Where `recv` has come to its end, it reports complete frames exactly if the header came in
one piece or a later `::recv` failed, and no piece ran past the buffer. The listener, where it
has come to `insertPolicy`, queues one exactly if the header came in one piece, nothing failed,
no byte of the policy is zero and no piece ran past the buffer. -/
theorem complete_policies_iff (order : Bytes.ByteOrder) :
    (∀ (out : Str) (t : Config Log Unit Call Reply (Bool × Str)),
      (SocketUtil.recv order out).RunsTo Possible t → (∀ c, (t.code ()).pending ≠ .calling c) →
      (Reported order t ↔
        (HeaderWhole (receipts t.world) ∨ PayloadFailed (receipts t.world)) ∧
          Terminated (receipts t.world))) ∧
    ∀ t : Config Log Unit Call Reply Bool,
      (PolicyListener.runListener order).RunsTo Possible t →
      ((∃ policy, (t.code ()).pending = .calling (.insertPolicy policy)) ∨
        (t.code ()).pending = .undefined) →
      (Queues order t ↔
        HeaderWhole (receipts t.world) ∧ ¬ PayloadFailed (receipts t.world) ∧
          0 ∉ payload (receipts t.world).tail ∧ Terminated (receipts t.world)) := by
  refine ⟨fun out t ht hdone => ?_, fun t ht hstage => ?_⟩
  · have hholds := ht.holds triple_recv rfl
    cases hp : (t.code ()).pending with
    | returned res =>
      have hfilled : Filled order out (receipts t.world) res.1 res.2 := hholds.returned hp
      rw [reported_returned hp, hfilled.reports_iff, and_iff_left hfilled.terminated]
    | calling c => exact absurd hp (hdone c)
    | undefined => exact iff_of_false (not_reported hp) fun h => hholds.undefined hp h.2
  · have hholds := ht.holds triple_runListener trivial
    rcases hstage with ⟨policy, hp⟩ | hp
    · obtain ⟨received, hfilled⟩ := hholds.pre hp policy rfl
      rw [queues_calling hp, hfilled.frame_iff, and_iff_left hfilled.terminated]
    · exact iff_of_false (not_queues hp) fun h => hholds.undefined hp h.2.2.2

/-- The header of a policy of one byte. -/
def shortHeader : Str := [1, 0, 0, 0, 0, 0, 0, 0]

theorem whole_policy_queued :
    (∃ t, (SocketUtil.recv .little []).RunsTo Possible t ∧ Reported .little t) ∧
    ∃ t, (PolicyListener.runListener .little).RunsTo Possible t ∧ Queues .little t := by
  have hterm : Terminated [⟨8, shortHeader⟩, ⟨1, text "a"⟩] := by
    unfold Terminated TerminatedEach
    decide
  constructor
  · have hafter : (SocketUtil.recv .little []).after Possible
        [⟨8, shortHeader⟩, ⟨1, text "a"⟩] = some (.returned (true, text "a"),
          [(.recv 8, ⟨8, shortHeader⟩), (.recv 1, ⟨1, text "a"⟩)]) := by decide +kernel
    obtain ⟨t, ht, hp, hw⟩ := Code.runsTo_of_after hafter
    refine ⟨t, ht, ((complete_policies_iff .little).1 [] t ht fun c hc => ?_).mpr ?_⟩
    · rw [hp] at hc
      cases hc
    · rw [hw]
      exact ⟨Or.inl ⟨⟨8, shortHeader⟩, rfl, rfl⟩, hterm⟩
  · have hafter : (PolicyListener.runListener .little).after Possible
        [⟨5, []⟩, ⟨8, shortHeader⟩, ⟨1, text "a"⟩] = some (.calling (.insertPolicy (text "a")),
          [(.accept, ⟨5, []⟩), (.recv 8, ⟨8, shortHeader⟩), (.recv 1, ⟨1, text "a"⟩)]) := by
      decide +kernel
    obtain ⟨t, ht, hp, hw⟩ := Code.runsTo_of_after hafter
    refine ⟨t, ht, ((complete_policies_iff .little).2 t ht (Or.inl ⟨_, hp⟩)).mpr ?_⟩
    rw [hw]
    refine ⟨⟨⟨8, shortHeader⟩, rfl, rfl⟩, fun hfailed => ?_, by decide, hterm⟩
    obtain ⟨r, hr, hneg⟩ := hfailed
    rw [List.mem_singleton.mp hr] at hneg
    exact absurd hneg (by decide)

/-- The first `::recv` fails and an empty policy is queued. -/
theorem failed_receive_queued :
    ¬ ∀ order (t : Config Log Unit Call Reply Bool) policy,
      (PolicyListener.runListener order).RunsTo Possible t →
      (t.code ()).pending = .calling (.insertPolicy policy) →
      Frame order policy (payload (receipts t.world)) := by
  intro hall
  have hafter : (PolicyListener.runListener .little).after Possible
      [⟨5, []⟩, ⟨-1, []⟩] = some (.calling (.insertPolicy []),
        [(.accept, ⟨5, []⟩), (.recv 8, ⟨-1, []⟩)]) := by decide +kernel
  obtain ⟨t, ht, hp, hw⟩ := Code.runsTo_of_after hafter
  obtain ⟨header, hsplit, hlen, _⟩ := hall .little t [] ht hp
  rw [hw] at hsplit
  have hnil : header = [] := by simpa [payload, receipts] using hsplit.symm
  rw [hnil] at hlen
  exact absurd hlen (by decide)

end SGXess.Deployer.Intake
