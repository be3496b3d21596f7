import SGXessControll.Scanning
import Mathlib.Algebra.Order.Group.Nat

/-!
# The framed receive on a stream that ends

The peer has sent its bytes and closed the connection; `::recv` hands them over in pieces and
returns 0 from then on. The receive loop takes 0 for a piece like any other, so it returns
only if the stream holds as many bytes as the header declares.
-/

namespace SGXess.Streams

set_option autoImplicit false

open Calls

/-- The bytes not yet received, and how many times `::recv` was called. -/
structure Peer where
  rest : Str
  calls : Nat := 0
  deriving DecidableEq

namespace Peer

variable (sizes : Nat → Nat)

/-- The answer to a `::recv` of at most `len` bytes: never empty before the end. -/
def piece (w : Peer) (len : Nat) : Str := w.rest.take (min len (max 1 (sizes w.calls)))

def next (w : Peer) (piece : Str) : Peer := ⟨w.rest.drop piece.length, w.calls + 1⟩

def respond (w : Peer) (_ : Unit) (c : Call) (r : Reply) : Option Peer :=
  match c with
  | .recv len =>
    if r = ⟨(w.piece sizes len).length, w.piece sizes len⟩ then
      some (w.next (w.piece sizes len))
    else none
  | _ => none

def machine : Machine Peer Unit Call Reply Empty := ⟨respond sizes, fun _ e => nomatch e⟩

variable (w : Peer) (len : Nat)

theorem piece_length_le : (w.piece sizes len).length ≤ len := by
  rw [piece, List.length_take]
  omega

theorem piece_length_le_rest : (w.piece sizes len).length ≤ w.rest.length := by
  rw [piece, List.length_take]
  omega

variable {w len} in
theorem piece_length_pos (hlen : 0 < len) (hrest : w.rest ≠ []) :
    0 < (w.piece sizes len).length := by
  have hpos := List.length_pos_iff.mpr hrest
  rw [piece, List.length_take]
  omega

theorem next_rest_length : (w.next (w.piece sizes len)).rest.length =
    w.rest.length - (w.piece sizes len).length := List.length_drop

omit sizes len in
theorem next_calls (piece : Str) : (w.next piece).calls = w.calls + 1 := rfl

end Peer

/-- The pieces of the next `n` bytes, as the receive loop asks for them. -/
def pieces (sizes : Nat → Nat) (n : Nat) (w : Peer) : List Str :=
  if _ : 0 < n ∧ w.rest ≠ [] then
    w.piece sizes (min n maxBufLen) ::
      pieces sizes (n - (w.piece sizes (min n maxBufLen)).length)
        (w.next (w.piece sizes (min n maxBufLen)))
  else []
termination_by n
decreasing_by
  rename_i h
  have hpos := Peer.piece_length_pos sizes (SocketUtil.asked_pos h.1) h.2
  omega

/-- The run comes to an end: it returns, after no more than `bound` calls. -/
def Ends (sizes : Nat → Nat) (m : Prog (Bool × Str)) (w : Peer) : Prop :=
  (∃ t, (Peer.machine sizes).Reaches Machine.any (solo m w) t ∧
      ∃ res, (t.code ()).pending = .returned res) ∧
    ∃ bound, ∀ t, (Peer.machine sizes).Reaches Machine.any (solo m w) t → t.world.calls ≤ bound

section Run

variable {sizes : Nat → Nat} {n : Nat} {cur s : Str} {w : Peer}

/-- The loop of `recv` with `n` bytes to go. -/
abbrev receiving (n : Nat) (cur : Str) : Prog (Bool × Str) :=
  .loop (n, cur) SocketUtil.recvRound .ret

theorem leads_round (hn : 0 < n) (hlt : n < 2 ^ 64)
    (hs : Bytes.untilFirst 0
      (Bytes.intoArray 0 maxBufLen (w.piece sizes (min n maxBufLen))) = some s) :
    (Peer.machine sizes).Leads Machine.any (receiving n cur) w
      (receiving (n - (w.piece sizes (min n maxBufLen)).length) (cur ++ s))
      (w.next (w.piece sizes (min n maxBufLen))) := by
  generalize hpiece : w.piece sizes (min n maxBufLen) = piece at hs
  have hle : piece.length ≤ n := by
    rw [← hpiece]
    exact Nat.le_trans (Peer.piece_length_le _ _ _) (Nat.min_le_left _ _)
  have hasks : (SocketUtil.recvRound (n, cur)).pending = .calling (.recv (min n maxBufLen)) := by
    simp only [SocketUtil.recvRound, if_pos hn, SocketUtil.asked_eq]
    rfl
  have hanswer : (Peer.machine sizes).respond w () (.recv (min n maxBufLen))
      ⟨piece.length, piece⟩ = some (w.next piece) := by
    simp only [Peer.machine, Peer.respond, hpiece, if_true]
  have hround : (SocketUtil.recvRound (n, cur)).resume ⟨piece.length, piece⟩ =
      .ret (.inl (n - piece.length, cur ++ s)) := by
    have hnonneg : ¬ ((piece.length : Int) < 0) := by omega
    simp only [SocketUtil.recvRound, if_pos hn, appendBuffer, Code.bind_eq, Code.pure_eq, Code.ask,
      Code.bind, Code.resume, if_neg hnonneg, hs, Int.toNat_natCast, subSizeT_of_le hle hlt]
  have hrest : (Peer.machine sizes).Leads Machine.any
      ((SocketUtil.recvRound (n, cur)).resume ⟨piece.length, piece⟩) (w.next piece) _ _ := .refl _ _
  have hloop := Machine.leads_loop (k := Code.ret) hasks hanswer trivial hrest
  rwa [hround] at hloop

theorem pieces_cons (hn : 0 < n) (hrest : w.rest ≠ []) :
    pieces sizes n w = w.piece sizes (min n maxBufLen) ::
      pieces sizes (n - (w.piece sizes (min n maxBufLen)).length)
        (w.next (w.piece sizes (min n maxBufLen))) := by
  rw [pieces, dif_pos ⟨hn, hrest⟩]

@[simp] theorem pieces_zero : pieces sizes 0 w = [] := by
  rw [pieces, dif_neg fun h => Nat.lt_irrefl 0 h.1]

theorem leads_returned (cur : Str) (hlt : n < 2 ^ 64) (hrest : n ≤ w.rest.length)
    (hterm : TerminatedEach (pieces sizes n w)) :
    ∃ m v, (Peer.machine sizes).Leads Machine.any (receiving n cur) w m v ∧
      ∃ res, m.pending = .returned res := by
  induction n using Nat.strong_induction_on generalizing cur w with
  | _ n ih =>
    by_cases hn : 0 < n
    · have hne : w.rest ≠ [] := List.length_pos_iff.mp (Nat.lt_of_lt_of_le hn hrest)
      have hpos := Peer.piece_length_pos sizes (SocketUtil.asked_pos hn) hne
      have hle := Peer.piece_length_le sizes w (min n maxBufLen)
      rw [pieces_cons hn hne] at hterm
      have hend : (w.piece sizes (min n maxBufLen)).length < maxBufLen ∨
          0 ∈ w.piece sizes (min n maxBufLen) := by
        by_cases hfull : (w.piece sizes (min n maxBufLen)).length = maxBufLen
        · exact Or.inr (hterm _ List.mem_cons_self hfull)
        · left
          omega
      obtain ⟨m, v, hleads, hreturned⟩ := ih
        (n - (w.piece sizes (min n maxBufLen)).length) (by omega)
        (w := w.next (w.piece sizes (min n maxBufLen))) (cur ++ _) (by omega)
        (by rw [Peer.next_rest_length]; omega)
        fun p hp => hterm p (List.mem_cons_of_mem _ hp)
      refine ⟨m, v, (leads_round hn hlt ?_).trans hleads, hreturned⟩
      exact (Bytes.untilFirst_intoArray_eq_some_iff (by omega)).mpr ⟨rfl, hend⟩
    · obtain rfl : n = 0 := by omega
      exact ⟨_, _, .refl _ _, (true, cur), rfl⟩

/-- Behind a `::recv`: the world it was asked in, moved on by a piece. -/
def Answered (sizes : Nat → Nat) (A : Peer → Prop) (len : Nat) (r : Reply) (w : Peer) : Prop :=
  ∃ v, A v ∧ r = ⟨(v.piece sizes len).length, v.piece sizes len⟩ ∧ w = v.next (v.piece sizes len)

variable {pre : Call → Peer → Prop} {fault : Peer → Prop} {A : Peer → Prop}

abbrev peer (sizes : Nat → Nat) (pre : Call → Peer → Prop) (fault : Peer → Prop) :
    Setting Peer Call Reply := (Peer.machine sizes).alone Machine.any pre fault

theorem stable (A : Peer → Prop) : (peer sizes pre fault).Stable A :=
  Machine.stable_alone fun _ e => nomatch e

theorem triple_asked {len : Nat} (hpre : ∀ w, A w → pre (.recv len) w) :
    (peer sizes pre fault).Triple A (Code.ask (.recv len)) (Answered sizes A len) := by
  refine Setting.triple_ask (stable A) (fun _ => stable _) hpre fun w r w' hw ha => ?_
  have hr := ha.1
  simp only [Peer.machine, Peer.respond] at hr
  split at hr
  · rename_i hanswer
    exact ⟨w, hw, hanswer, (Option.some.inj hr).symm⟩
  · cases hr

end Run

/-- Bytes are left for what is awaited, and every call so far but the first brought one. -/
def Bounded (total n : Nat) (w : Peer) : Prop :=
  n < 2 ^ 64 ∧ n ≤ w.rest.length ∧ w.calls + w.rest.length ≤ total + 1

/-- More is awaited than will come, or a piece without an end will. -/
def Stuck (sizes : Nat → Nat) (n : Nat) (w : Peer) : Prop :=
  n < 2 ^ 64 ∧ (w.rest.length < n ∨ ¬ TerminatedEach (pieces sizes n w))

section Rounds

variable {sizes : Nat → Nat} {n total : Nat} {cur : Str} {r : Reply} {w : Peer}

abbrev bounded (sizes : Nat → Nat) (total : Nat) : Setting Peer Call Reply :=
  peer sizes (fun _ w => w.calls ≤ total + 1) fun w => w.calls ≤ total + 1

theorem triple_bounded_round :
    (bounded sizes total).Triple (Bounded total n) (SocketUtil.recvRound (n, cur))
      (Setting.Round (fun b => Bounded total b.1) fun _ w => w.calls ≤ total + 1) := by
  refine SocketUtil.triple_recvRound (J := fun b => Bounded total b.1)
    (B := fun r w => r.ret = r.bytes.length ∧ Bounded total (n - r.ret.toNat) w ∧ n < 2 ^ 64 ∧
      r.bytes.length ≤ n)
    (fun _ => stable _) (fun _ => stable _) (fun hn => ?_) ?_ ?_ ?_ ?_
  · refine (triple_asked fun w hw => ?_).post fun r w hw => ?_
    · obtain ⟨_, _, hcalls⟩ := hw
      omega
    · obtain ⟨v, ⟨hlt, hle, hcalls⟩, rfl, rfl⟩ := hw
      have hpos := Peer.piece_length_pos sizes (SocketUtil.asked_pos hn)
        (List.length_pos_iff.mp (Nat.lt_of_lt_of_le hn hle))
      have hmax := Peer.piece_length_le sizes v (min n maxBufLen)
      have hrest := Peer.piece_length_le_rest sizes v (min n maxBufLen)
      refine ⟨rfl, ⟨by omega, ?_, ?_⟩, hlt, by simp only; omega⟩
      · rw [Peer.next_rest_length]
        simp only [Int.toNat_natCast]
        omega
      · rw [Peer.next_rest_length, Peer.next_calls]
        omega
  · exact fun r w hneg hw => absurd hw.1 (by omega)
  · intro r s w _ hw _
    obtain ⟨hret, hbounded, hlt, hle⟩ := hw
    rw [subSizeT_of_le (by omega) hlt]
    exact hbounded
  · intro r w _ hw _
    obtain ⟨_, ⟨_, _, hcalls⟩, _⟩ := hw
    exact Nat.le_trans (Nat.le_add_right _ _) hcalls
  · intro w hw
    obtain ⟨_, _, hcalls⟩ := hw
    omega

abbrev stuck (sizes : Nat → Nat) : Setting Peer Call Reply :=
  peer sizes (fun _ _ => True) fun _ => True

theorem Stuck.next {s : Str} (h : Stuck sizes n w) (hn : 0 < n)
    (hs : Bytes.untilFirst 0
      (Bytes.intoArray 0 maxBufLen (w.piece sizes (min n maxBufLen))) = some s) :
    Stuck sizes (n - (w.piece sizes (min n maxBufLen)).length)
      (w.next (w.piece sizes (min n maxBufLen))) := by
  obtain ⟨hlt, hstuck⟩ := h
  have hrest := Peer.piece_length_le_rest sizes w (min n maxBufLen)
  have hmax := Peer.piece_length_le sizes w (min n maxBufLen)
  refine ⟨by omega, ?_⟩
  rw [Peer.next_rest_length]
  by_cases hshort : w.rest.length < n
  · left
    omega
  · right
    have hne : w.rest ≠ [] := List.length_pos_iff.mp (by omega)
    obtain ⟨_, hend⟩ := (Bytes.untilFirst_intoArray_eq_some_iff (by omega)).mp hs
    intro hterm
    refine hstuck.resolve_left hshort ?_
    rw [pieces_cons hn hne]
    intro p hp hfull
    rcases List.mem_cons.mp hp with rfl | hp
    · exact hend.resolve_left (by omega)
    · exact hterm p hp hfull

theorem triple_stuck_round :
    (stuck sizes).Triple (Stuck sizes n) (SocketUtil.recvRound (n, cur))
      (Setting.Round (fun b => Stuck sizes b.1) fun _ _ => False) := by
  refine SocketUtil.triple_recvRound (J := fun b => Stuck sizes b.1)
    (B := fun r w => 0 < n ∧ Answered sizes (Stuck sizes n) (min n maxBufLen) r w)
    (fun _ => stable _) (fun _ => stable _) (fun hn => ?_) ?_ ?_ (fun _ _ _ _ _ => trivial) ?_
  · exact (triple_asked fun _ _ => trivial).post fun r w hw => ⟨hn, hw⟩
  · intro r w hneg hw
    obtain ⟨_, v, _, rfl, rfl⟩ := hw
    simp only at hneg
    omega
  · intro r s w _ hw hs
    obtain ⟨hn, v, hstuck, rfl, rfl⟩ := hw
    have hmax := Peer.piece_length_le sizes v (min n maxBufLen)
    simp only [Int.toNat_natCast]
    rw [subSizeT_of_le (by omega) hstuck.1]
    exact hstuck.next hn hs
  · intro w hw
    obtain ⟨_, hshort | hterm⟩ := hw
    · omega
    · rw [pieces_zero] at hterm
      exact hterm fun p hp => absurd hp List.not_mem_nil

end Rounds

/-- The copies of the framed `recv`. -/
inductive Copy where
  | deployer
  | proxy
  | client
  deriving DecidableEq

def Copy.recv (order : Bytes.ByteOrder) : Copy → Str → Prog (Bool × Str)
  | deployer => Deployer.SocketUtil.recv order
  | proxy => Proxy.SocketUtil.recv order
  | client => Client.SocketUtil.recv order

theorem Copy.recv_eq (order : Bytes.ByteOrder) (copy : Copy) :
    copy.recv order = SocketUtil.recv order := by cases copy <;> rfl

section Header

variable (order : Bytes.ByteOrder) (sizes : Nat → Nat) (w : Peer)

/-- What the first `::recv` brings of the header, and the length it is taken for. -/
def header : Str := w.piece sizes sizeofSizeT

def declared : Nat := SocketUtil.readLength order (header sizes w)

def behindHeader : Peer := w.next (header sizes w)

/-- The stream holds as many bytes behind the header as are awaited, and they come in pieces
of which none fills the buffer without a zero byte. -/
def Sufficient : Prop :=
  declared order sizes w ≤ (behindHeader sizes w).rest.length ∧
    TerminatedEach (pieces sizes (declared order sizes w) (behindHeader sizes w))

theorem declared_lt : declared order sizes w < 2 ^ 64 :=
  SocketUtil.readLength_lt (Peer.piece_length_le _ _ _)

variable {order sizes w} {out : Str}

theorem not_returned (h : ¬ Sufficient order sizes w) :
    (stuck sizes).Triple (fun v => v = w) (SocketUtil.recv order out) (fun _ _ => False) := by
  refine SocketUtil.triple_recv (J := fun b => Stuck sizes b.1) (fun _ => stable _)
    ((triple_asked fun _ _ => trivial).post fun r v hv => ?_) fun n cur => triple_stuck_round
  obtain ⟨v, rfl, rfl, rfl⟩ := hv
  refine ⟨declared_lt order sizes v, ?_⟩
  by_cases hshort : (behindHeader sizes v).rest.length < declared order sizes v
  · exact Or.inl hshort
  · exact Or.inr fun hterm => h ⟨Nat.le_of_not_lt hshort, hterm⟩

theorem triple_bounded (h : Sufficient order sizes w) (hw : w.calls = 0) :
    (bounded sizes w.rest.length).Triple (fun v => v = w) (SocketUtil.recv order out)
      (fun _ v => v.calls ≤ w.rest.length + 1) := by
  refine SocketUtil.triple_recv (J := fun b => Bounded w.rest.length b.1) (fun _ => stable _)
    ((triple_asked fun v hv => ?_).post fun r v hv => ?_) fun n cur => triple_bounded_round
  · rw [hv, hw]
    exact Nat.zero_le _
  · obtain ⟨v, rfl, rfl, rfl⟩ := hv
    refine ⟨declared_lt order sizes v, h.1, ?_⟩
    rw [Peer.next_rest_length, Peer.next_calls]
    omega

theorem returns (h : Sufficient order sizes w) :
    ∃ t, (Peer.machine sizes).Reaches Machine.any (solo (SocketUtil.recv order out) w) t ∧
      ∃ res, (t.code ()).pending = .returned res := by
  obtain ⟨hrest, hterm⟩ := h
  obtain ⟨m, v, hleads, hreturned⟩ :=
    leads_returned out (declared_lt order sizes w) hrest hterm
  have hheader : (Peer.machine sizes).respond w () (.recv sizeofSizeT)
      ⟨(header sizes w).length, header sizes w⟩ = some (behindHeader sizes w) := if_pos rfl
  have hask : (Peer.machine sizes).Leads Machine.any (Code.ask (.recv sizeofSizeT)) w
      (.ret ⟨(header sizes w).length, header sizes w⟩) (behindHeader sizes w) :=
    Machine.leads_ask hheader trivial
  exact ⟨_, hask.andThen hleads, hreturned⟩

end Header

/-- The receive ends exactly on the streams that hold what their header declares. -/
theorem framed_receive_ends_iff (order : Bytes.ByteOrder) (copy : Copy) (out stream : Str)
    (sizes : Nat → Nat) :
    Ends sizes (copy.recv order out) ⟨stream, 0⟩ ↔ Sufficient order sizes ⟨stream, 0⟩ := by
  rw [copy.recv_eq]
  constructor
  · intro hends
    obtain ⟨⟨t, ht, res, hp⟩, _⟩ := hends
    by_contra h
    exact (ht.alone (not_returned h) rfl).returned hp
  · intro h
    refine ⟨returns h, stream.length + 1, fun t ht => ?_⟩
    have hholds := ht.alone (triple_bounded h rfl) rfl
    cases hp : (t.code ()).pending with
    | returned res => exact hholds.returned hp
    | calling c => exact hholds.pre hp
    | undefined => exact hholds.undefined hp

/-- A header that announces one byte, and then the end of the stream. -/
theorem truncated_stream_waits :
    ¬ ∀ order copy out stream sizes, Ends sizes (Copy.recv order copy out) ⟨stream, 0⟩ := by
  intro hall
  obtain ⟨⟨t, ht, res, hp⟩, _⟩ :=
    hall .little .deployer [] [1, 0, 0, 0, 0, 0, 0, 0] fun _ => 8
  have hshort : ¬ Sufficient .little (fun _ => 8) ⟨[1, 0, 0, 0, 0, 0, 0, 0], 0⟩ := by
    intro h
    exact absurd h.1 (by decide)
  rw [Copy.recv_eq] at ht
  exact (ht.alone (not_returned hshort) rfl).returned hp

end SGXess.Streams
