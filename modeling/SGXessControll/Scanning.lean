import SGXessControll.Transport

/-!
# Where the search for a zero byte stays in the buffer

`data.append(buffer)` reads up to a zero byte. `recvMsg` keeps the last cell of its buffer
free; the two families of `SocketUtil::recv` do not, and differ in what a full buffer leaves
to the next piece.
-/

namespace SGXess

set_option autoImplicit false

open Calls

/-- The copies of `recv` and `recvMsg`. -/
inductive Receiver where
  | deployerSocketUtil
  | proxySocketUtil
  | clientSocketUtil
  | controllerSocketUtil
  | adminSocketUtil
  | deployerTLSClient
  | proxyTLSClient
  | clientTLSClient
  | controllerTLSServer
  | proxyTLSServer
  deriving DecidableEq

/-- What the reads delivered. -/
def pieces (w : Log) : List Str := w.map fun p => p.2.bytes

@[simp] theorem pieces_append (w : Log) (c : Call) (r : Reply) :
    pieces (w ++ [(c, r)]) = pieces w ++ [r.bytes] := by simp [pieces]

/-- In a buffer zeroed for each piece: no piece fills it without a zero byte. -/
def TerminatedEach (list : List Str) : Prop :=
  ∀ piece ∈ list, piece.length = maxBufLen → 0 ∈ piece

/-- In a buffer zeroed once: a piece has a zero byte, or the cells behind it still hold one
of the piece before it, which are zero cells in front of the first. -/
def TerminatedOver (list : List Str) : Prop :=
  ∀ before piece after, list = before ++ piece :: after →
    0 ∈ piece ∨ 0 ∈ (before.getLast?.getD (List.replicate maxBufLen 0)).drop piece.length

namespace Receiver

variable (order : Bytes.ByteOrder)

def code : Receiver → Str → Prog (Bool × Str)
  | deployerSocketUtil => Deployer.SocketUtil.recv order
  | proxySocketUtil => Proxy.SocketUtil.recv order
  | clientSocketUtil => Client.SocketUtil.recv order
  | controllerSocketUtil => Controller.SocketUtil.recv
  | adminSocketUtil => Admin.SocketUtil.recv
  | deployerTLSClient => Deployer.TLSClient.recvMsg
  | proxyTLSClient => Proxy.TLSClient.recvMsg
  | clientTLSClient => Client.TLSClient.recvMsg
  | controllerTLSServer => Controller.TLSServer.recvMsg
  | proxyTLSServer => Proxy.TLSServer.recvMsg

/-- When every search ends in the buffer. -/
def Terminated : Receiver → List Str → Prop
  | deployerSocketUtil | proxySocketUtil | clientSocketUtil => TerminatedEach
  | controllerSocketUtil | adminSocketUtil => TerminatedOver
  | _ => fun _ => True

end Receiver

section Lists

variable {list : List Str} {piece : Str}

theorem terminatedEach_append :
    TerminatedEach (list ++ [piece]) ↔
      TerminatedEach list ∧ (piece.length = maxBufLen → 0 ∈ piece) := by
  simp [TerminatedEach, or_imp, forall_and]

theorem terminatedOver_nil : TerminatedOver [] := by
  intro before piece after h
  simp at h

theorem terminatedOver_append :
    TerminatedOver (list ++ [piece]) ↔ TerminatedOver list ∧
      (0 ∈ piece ∨ 0 ∈ (list.getLast?.getD (List.replicate maxBufLen 0)).drop piece.length) := by
  constructor
  · intro h
    refine ⟨fun before p after hsplit => h before p (after ++ [piece]) ?_, h list piece [] rfl⟩
    rw [hsplit, List.append_assoc, List.cons_append]
  · intro ⟨hlist, hpiece⟩ before p after hsplit
    rcases List.eq_nil_or_concat after with rfl | ⟨after, last, rfl⟩
    · obtain ⟨rfl, hlast⟩ := List.append_inj' hsplit rfl
      cases hlast
      exact hpiece
    · have hsplit' : list ++ [piece] = (before ++ p :: after) ++ [last] := by
        rw [hsplit, List.concat_eq_append, List.append_assoc, List.cons_append]
      exact hlist before p after (List.append_inj' hsplit' rfl).1

end Lists

/-- `P` of the pieces is owed at every call and at the end, and only where it is broken a
search may leave the buffer. -/
abbrev scanning (P : List Str → Prop) : Setting Log Call Reply :=
  logged (fun _ w => P (pieces w)) fun w => ¬ P (pieces w)

theorem defined_iff {P : List Str → Prop} {m : Prog (Bool × Str)}
    {t : Config Log Unit Call Reply (Bool × Str)} (ht : m.RunsTo Possible t)
    (hm : (scanning P).Triple (fun w => w = []) m (fun _ w => P (pieces w))) :
    (t.code ()).pending ≠ .undefined ↔ P (pieces t.world) := by
  have hholds := ht.holds hm rfl
  cases hp : (t.code ()).pending with
  | returned a => simp [hholds.returned hp]
  | calling c => exact iff_of_true nofun (hholds.pre hp)
  | undefined => exact iff_of_false (fun h => h rfl) (hholds.undefined hp)

/-- The answers behind which `piece` is scanned in a buffer of its own. -/
def ScansEach (r : Reply) (w : Log) : Prop :=
  r.bytes.length ≤ maxBufLen ∧ (r.ret < 0 → r.bytes = []) ∧
    (TerminatedEach (pieces w) ↔ (r.bytes.length = maxBufLen → 0 ∈ r.bytes))

theorem triple_framed_scan {order : Bytes.ByteOrder} {data : Str} :
    (scanning TerminatedEach).Triple (fun w => w = []) (SocketUtil.recv order data)
      (fun _ w => TerminatedEach (pieces w)) := by
  refine SocketUtil.triple_recv (J := fun _ w => TerminatedEach (pieces w))
    (fun _ => recorded_stable _) (triple_recorded ?_ ?_) fun n cur => ?_
  · rintro w rfl
    exact fun piece hp => absurd hp List.not_mem_nil
  · rintro w r rfl hr
    have hlen := (possible_recv hr).1
    rw [pieces_append, terminatedEach_append]
    refine ⟨fun piece hp => absurd hp List.not_mem_nil, fun hfull => ?_⟩
    rw [hfull] at hlen
    exact absurd hlen (by decide)
  · refine SocketUtil.triple_recvRound (J := fun _ w => TerminatedEach (pieces w))
      (B := ScansEach) (Θ := fun _ w => TerminatedEach (pieces w)) (fun _ => recorded_stable _)
      (fun _ => recorded_stable _) (fun _ => triple_recorded (fun _ hw => hw) ?_)
      ?_ ?_ ?_ fun w hw => hw
    · intro w r hw hr
      obtain ⟨hlen, _, hempty⟩ := possible_recv hr
      refine ⟨Nat.le_trans hlen (Nat.min_le_right n maxBufLen), hempty, ?_⟩
      rw [pieces_append, terminatedEach_append]
      exact and_iff_right hw
    · intro r w hneg hw
      refine hw.2.2.mpr fun hfull => ?_
      rw [hw.2.1 hneg] at hfull
      exact absurd hfull (by decide)
    · intro r s w _ hw hs
      obtain ⟨_, hend⟩ := (Bytes.untilFirst_intoArray_eq_some_iff hw.1).mp hs
      exact hw.2.2.mpr fun hfull => hend.resolve_left (by omega)
    · intro r w _ hw hs
      obtain ⟨hfull, hnone⟩ := (Bytes.untilFirst_intoArray_eq_none_iff hw.1).mp hs
      exact fun hterm => hnone (hw.2.2.mp hterm hfull)

/-- In front of a read into a buffer that is not zeroed again: it holds the last piece. -/
def Reused (buffer : Str) (w : Log) : Prop :=
  buffer.length = maxBufLen ∧ 0 ∈ buffer ∧ TerminatedOver (pieces w) ∧
    buffer = (pieces w).getLast?.getD (List.replicate maxBufLen 0)

/-- Behind the read. -/
def ScansOver (buffer : Str) (r : Reply) (w : Log) : Prop :=
  r.bytes.length ≤ maxBufLen ∧ (r.ret < 0 ∨ r.ret = r.bytes.length) ∧
    (r.ret < 0 → r.bytes = []) ∧ pieces w = (pieces w).dropLast ++ [r.bytes] ∧
    (TerminatedOver (pieces w) ↔ 0 ∈ Bytes.overwrite buffer r.bytes)

theorem reused_nil : Reused (List.replicate maxBufLen 0) [] :=
  ⟨List.length_replicate, List.mem_replicate.mpr ⟨by decide, rfl⟩, terminatedOver_nil, rfl⟩

theorem Reused.scans {buffer : Str} {w : Log} {r : Reply} (hw : Reused buffer w)
    (hr : Possible (.recv maxBufLen) r) :
    ScansOver buffer r (w ++ [(.recv maxBufLen, r)]) := by
  obtain ⟨hlen, hret, hempty⟩ := possible_recv hr
  obtain ⟨_, _, hterm, hlast⟩ := hw
  refine ⟨hlen, hret, hempty, by simp, ?_⟩
  rw [pieces_append, terminatedOver_append, ← hlast, and_iff_right hterm, Bytes.overwrite,
    List.mem_append]

theorem ScansOver.failed {buffer : Str} {w : Log} {r : Reply} (hw : ScansOver buffer r w)
    (hzero : 0 ∈ buffer) (hneg : r.ret < 0) : TerminatedOver (pieces w) := by
  obtain ⟨_, _, hempty, _, hscan⟩ := hw
  rw [hscan, hempty hneg]
  exact hzero

/-- Only a full piece is followed by another one. -/
theorem ScansOver.reused {buffer : Str} {w : Log} {r : Reply} (hw : ScansOver buffer r w)
    (hbuffer : buffer.length = maxBufLen) (hret : 0 ≤ r.ret) (hfull : ¬ (maxBufLen : Int) > r.ret)
    (hzero : 0 ∈ Bytes.overwrite buffer r.bytes) : Reused (Bytes.overwrite buffer r.bytes) w := by
  obtain ⟨hlen, hcount, _, hlast, hscan⟩ := hw
  have hwhole : r.bytes.length = maxBufLen := by
    have hcount := hcount.resolve_left (Int.not_lt.mpr hret)
    omega
  have hover : Bytes.overwrite buffer r.bytes = r.bytes := by
    rw [Bytes.overwrite, hwhole, ← hbuffer, List.drop_length, List.append_nil]
  refine ⟨by rw [hover, hwhole], hzero, hscan.mpr hzero, ?_⟩
  rw [hlast, List.getLast?_concat, Option.getD_some, hover]

theorem triple_unframed_scan {data : Str} :
    (scanning TerminatedOver).Triple (fun w => w = []) (SocketUtil.unframedRecv data)
      (fun _ w => TerminatedOver (pieces w)) := by
  refine Setting.Triple.pre (SocketUtil.triple_unframedRecv (J := fun b => Reused b.1)
    (fun _ => recorded_stable _) fun buffer data => ?_) fun w hw => hw ▸ reused_nil
  refine SocketUtil.triple_unframedRound (J := fun b => Reused b.1)
    (B := fun r w => buffer.length = maxBufLen ∧ 0 ∈ buffer ∧ ScansOver buffer r w)
    (fun _ => recorded_stable _) (fun _ => recorded_stable _) (fun _ => recorded_stable _)
    (triple_recorded (fun w hw => hw.2.2.1) fun w r hw hr => ⟨hw.1, hw.2.1, hw.scans hr⟩)
    ?_ ?_ ?_ ?_
  · exact fun r w hneg hw => hw.2.2.failed hw.2.1 hneg
  · exact fun r s w _ _ hw hs => hw.2.2.2.2.2.2.mpr (Bytes.mem_of_untilFirst hs)
  · exact fun r s w hret hfull hw hs =>
      hw.2.2.reused hw.1 hret hfull (Bytes.mem_of_untilFirst hs)
  · exact fun r w _ hw hs hterm =>
      Bytes.untilFirst_eq_none_iff.mp hs (hw.2.2.2.2.2.2.mp hterm)

theorem triple_ssl_scan {side : Side} {onTimeout appends : Bool} {msg : Str} :
    (scanning fun _ => True).Triple (fun w => w = []) (sslRecvMsg side onTimeout appends msg)
      (fun _ _ => True) := by
  refine Setting.Triple.pre (A := fun _ => True) ?_ fun _ _ => trivial
  exact triple_logged_recvMsg (fun _ _ => trivial) (fun _ _ _ _ => trivial) fun _ _ _ _ => trivial

theorem triple_receiver {order : Bytes.ByteOrder} (receiver : Receiver) (data : Str) :
    (scanning receiver.Terminated).Triple (fun w => w = []) (receiver.code order data)
      (fun _ w => receiver.Terminated (pieces w)) := by
  cases receiver with
  | deployerSocketUtil | proxySocketUtil | clientSocketUtil => exact triple_framed_scan
  | controllerSocketUtil | adminSocketUtil => exact triple_unframed_scan
  | deployerTLSClient | proxyTLSClient | clientTLSClient | controllerTLSServer
  | proxyTLSServer => exact triple_ssl_scan

/-- No search leaves a buffer for as long as the pieces received so far keep a zero byte in
it; the copies of `recvMsg` need nothing for it. -/
theorem scan_in_bounds_iff (order : Bytes.ByteOrder) (receiver : Receiver) (data : Str)
    {t : Config Log Unit Call Reply (Bool × Str)}
    (ht : (receiver.code order data).RunsTo Possible t) :
    (t.code ()).pending ≠ .undefined ↔ receiver.Terminated (pieces t.world) :=
  defined_iff ht (triple_receiver receiver data)

/-- A full buffer of ones. -/
def fullPiece : Str := List.replicate maxBufLen 1

theorem short_pieces_in_bounds :
    ∃ t, (Receiver.code .little .controllerSocketUtil []).RunsTo Possible t ∧
      t.world ≠ [] ∧ (t.code ()).pending ≠ .undefined := by
  have hafter : (Receiver.code .little .controllerSocketUtil []).after Possible
      [⟨2, text "ab"⟩] = some (.returned (true, text "ab"),
        [(.recv maxBufLen, ⟨2, text "ab"⟩)]) := by decide +kernel
  obtain ⟨t, ht, _, hw⟩ := Code.runsTo_of_after hafter
  refine ⟨t, ht, hw ▸ List.cons_ne_nil _ _, ?_⟩
  refine (scan_in_bounds_iff .little .controllerSocketUtil [] ht).mpr ?_
  rw [hw]
  exact terminatedOver_append.mpr ⟨terminatedOver_nil, Or.inr (by decide +kernel)⟩

/-- A piece that fills the buffer of the Controller has no end. -/
theorem full_piece_overruns :
    ¬ ∀ order (receiver : Receiver) data t, (receiver.code order data).RunsTo Possible t →
      (t.code ()).pending ≠ .undefined := by
  intro hall
  have hafter : (Receiver.code .little .controllerSocketUtil []).after Possible
      [⟨256, fullPiece⟩] = some (.undefined, [(.recv maxBufLen, ⟨256, fullPiece⟩)]) := by
    decide +kernel
  obtain ⟨t, ht, hp, _⟩ := Code.runsTo_of_after hafter
  exact hall .little .controllerSocketUtil [] t ht hp

end SGXess
