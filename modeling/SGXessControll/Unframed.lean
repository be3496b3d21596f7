import SGXessControll.Framing
import SGXessControll.Streams

/-!
# The codec without a length

What the receiver of the Controller and of the Admin tool makes of the bytes their own sender
wrote, when these arrive in pieces and the connection is closed behind them. It stops at the
first piece that does not fill its buffer, so all depends on the first piece.
-/

namespace SGXess.Unframed

set_option autoImplicit false

open Calls Streams

/-- The sender has written `stream` when it returns. -/
def Writes (send : Prog Bool) (stream : Str) : Prop :=
  ∃ s, Framing.pipe.Reaches Machine.any (solo send ⟨[], []⟩) s ∧
    (∃ sent, (s.code ()).pending = .returned sent) ∧ s.world.stream = stream

/-- On `stream`, cut into pieces of these sizes, the receiver returns `res`. -/
def Receives (sizes : Nat → Nat) (recv : Prog (Bool × Str)) (stream : Str) (res : Bool × Str) :
    Prop :=
  ∃ t, (Peer.machine sizes).Reaches Machine.any (solo recv ⟨stream, 0⟩) t ∧
    (t.code ()).pending = .returned res

/-- The receiver gives back what the sender was given. -/
def Undoes (sizes : Nat → Nat) (send : Str → Prog Bool) (recv : Str → Prog (Bool × Str))
    (data out : Str) : Prop :=
  ∃ stream, Writes (send data) stream ∧ Receives sizes (recv out) stream (true, out ++ data)

/-- What the first `::recv` delivers. -/
def first (sizes : Nat → Nat) (stream : Str) : Str := Peer.piece sizes ⟨stream, 0⟩ maxBufLen

section Text

variable {xs ys s : Str} {n : Nat}

theorem eq_takeWhile_of_untilFirst (h : Bytes.untilFirst 0 xs = some s) :
    s = xs.takeWhile (· ≠ 0) := by
  rw [Bytes.untilFirst_of_mem (Bytes.mem_of_untilFirst h)] at h
  exact (Option.some.inj h).symm

theorem zero_not_mem_takeWhile : (0 : UInt8) ∉ xs.takeWhile (· ≠ 0) := by
  intro h
  simpa using List.mem_takeWhile_imp h

/-- A zero byte among the first `n` ends the text there. -/
theorem takeWhile_length_lt (hmem : 0 ∈ xs) (hdrop : 0 ∉ xs.drop n) :
    (xs.takeWhile (· ≠ 0)).length < n := by
  have htake : (0 : UInt8) ∈ xs.take n := by
    rw [← List.take_append_drop n xs, List.mem_append] at hmem
    exact hmem.resolve_right hdrop
  have hlt := Bytes.takeWhile_ne_length_lt htake
  have hsame : xs.takeWhile (· ≠ 0) = (xs.take n).takeWhile (· ≠ 0) := by
    have h : Bytes.untilFirst 0 (xs.take n ++ xs.drop n) = _ := Bytes.untilFirst_append_of_mem htake
    rw [List.take_append_drop, Bytes.untilFirst_of_mem htake] at h
    exact (eq_takeWhile_of_untilFirst h).symm
  rw [hsame]
  rw [List.length_take] at hlt
  omega

end Text

section Receiver

variable {sizes : Nat → Nat} {header data out buffer piece cur s : Str} {w : Peer}

/-- A first piece that leaves cells of the buffer free is the last one. -/
theorem receives_first {stream : Str} (h : (first sizes stream).length < maxBufLen) (out : Str) :
    Receives sizes (SocketUtil.unframedRecv out) stream
      (true, out ++ (first sizes stream).takeWhile (· ≠ 0)) := by
  generalize hpiece : first sizes stream = piece at h
  have hasks : (SocketUtil.unframedRound (List.replicate maxBufLen 0, out)).pending =
      .calling (.recv maxBufLen) := rfl
  have hanswer : (Peer.machine sizes).respond ⟨stream, 0⟩ () (.recv maxBufLen)
      ⟨piece.length, piece⟩ = some (Peer.next ⟨stream, 0⟩ piece) := by
    rw [← hpiece]
    exact if_pos rfl
  have hbuffer : Bytes.untilFirst 0 (Bytes.overwrite (List.replicate maxBufLen 0) piece) =
      some (piece.takeWhile (· ≠ 0)) := by
    rw [Bytes.overwrite, List.drop_replicate]
    exact Bytes.untilFirst_intoArray_of_lt h
  have hround : (SocketUtil.unframedRound (List.replicate maxBufLen 0, out)).resume
      ⟨piece.length, piece⟩ = .ret (.inr (true, out ++ piece.takeWhile (· ≠ 0))) := by
    have hnonneg : ¬ (0 : Int) > piece.length := by omega
    have hshort : (maxBufLen : Int) > piece.length := by omega
    simp only [SocketUtil.unframedRound, SocketUtil.appendArray, Code.bind_eq, Code.pure_eq,
      Code.ask, Code.bind, Code.resume, if_neg hnonneg, hbuffer, if_pos hshort]
  have hrest : (Peer.machine sizes).Leads Machine.any
      ((SocketUtil.unframedRound (List.replicate maxBufLen 0, out)).resume ⟨piece.length, piece⟩)
      (Peer.next ⟨stream, 0⟩ piece) _ _ := .refl _ _
  have hloop := Machine.leads_loop (k := Code.ret) hasks hanswer trivial hrest
  rw [hround] at hloop
  exact ⟨_, hloop, rfl⟩

/-- Where the receiver stands at the head of its loop, `header ++ data` being the stream. -/
inductive Late (header data out : Str) : Str × Str → Peer → Prop where
  | start : Late header data out (List.replicate maxBufLen 0, out) ⟨header ++ data, 0⟩
  /-- A zero byte of the data has passed; none is ever appended. -/
  | zero (buffer z : Str) (w : Peer) : 0 ∈ data → 0 ∉ z →
      Late header data out (buffer, out ++ z) w
  /-- The zero bytes of the header are the only ones in the buffer. -/
  | text (buffer z : Str) (w : Peer) : 0 ∉ w.rest → 0 ∉ buffer.drop header.length →
      z.length < sizeofSizeT → maxBufLen - sizeofSizeT ≤ data.length →
      Late header data out (buffer, out ++ z) w

theorem zero_not_mem_drop_overwrite {n : Nat} (hpiece : 0 ∉ piece)
    (hbuffer : 0 ∉ buffer.drop n) : 0 ∉ (Bytes.overwrite buffer piece).drop n := by
  rw [Bytes.overwrite, List.drop_append, List.mem_append, List.drop_drop]
  intro h
  rcases h with h | h
  · exact hpiece (List.mem_of_mem_drop h)
  · by_cases hn : n ≤ piece.length
    · have hle : n ≤ piece.length + (n - piece.length) := by omega
      rw [← Nat.add_sub_cancel' hle, ← List.drop_drop] at h
      exact hbuffer (List.mem_of_mem_drop h)
    · rw [Nat.add_sub_cancel' (by omega)] at h
      exact hbuffer h

/-- Where the zero bytes of the header are the only ones, a piece cannot cover them all. -/
theorem found_before_header {n : Nat} (hpiece : 0 ∉ piece) (hbuffer : 0 ∉ buffer.drop n)
    (hs : Bytes.untilFirst 0 (Bytes.overwrite buffer piece) = some s) :
    s.length < n ∧ piece.length < n := by
  have hmem := Bytes.mem_of_untilFirst hs
  constructor
  · rw [eq_takeWhile_of_untilFirst hs]
    exact takeWhile_length_lt hmem (zero_not_mem_drop_overwrite hpiece hbuffer)
  · by_contra hn
    rw [Bytes.overwrite, List.mem_append] at hmem
    have hdrop := hmem.resolve_left hpiece
    rw [← Nat.add_sub_cancel' (Nat.le_of_not_lt hn), ← List.drop_drop] at hdrop
    exact hbuffer (List.mem_of_mem_drop hdrop)

theorem zero_not_mem_piece (hrest : 0 ∉ w.rest) : 0 ∉ w.piece sizes maxBufLen :=
  fun h => hrest (List.mem_of_mem_take h)

theorem zero_not_mem_found (hs : Bytes.untilFirst 0 buffer = some s) : 0 ∉ s := by
  rw [eq_takeWhile_of_untilFirst hs]
  exact zero_not_mem_takeWhile

theorem overwrite_zeros_full (h : piece.length = maxBufLen) :
    Bytes.overwrite (List.replicate maxBufLen 0) piece = piece := by
  rw [Bytes.overwrite, h, List.drop_replicate, Nat.sub_self, List.replicate_zero, List.append_nil]

theorem zero_not_mem_drop_stream {n : Nat} (hdata : 0 ∉ data) (hn : header.length ≤ n) :
    0 ∉ (header ++ data).drop n := by
  rw [List.drop_append, List.drop_eq_nil_of_le hn, List.nil_append]
  exact fun h => hdata (List.mem_of_mem_drop h)

theorem zero_not_mem_first (hdata : 0 ∉ data) :
    0 ∉ (first sizes (header ++ data)).drop header.length := by
  rw [first, Peer.piece, List.drop_take, List.drop_left]
  exact fun h => hdata (List.mem_of_mem_take h)

/-- A piece that fills the buffer. -/
theorem Late.full (h : Late header data out (buffer, cur) w) (hheader : header.length ≤ sizeofSizeT)
    (hfull : (w.piece sizes maxBufLen).length = maxBufLen)
    (hs : Bytes.untilFirst 0 (Bytes.overwrite buffer (w.piece sizes maxBufLen)) = some s) :
    Late header data out (Bytes.overwrite buffer (w.piece sizes maxBufLen), cur ++ s)
      (w.next (w.piece sizes maxBufLen)) := by
  cases h with
  | start =>
    by_cases hzero : 0 ∈ data
    · exact .zero _ _ _ hzero (zero_not_mem_found hs)
    · have hbuffer : 0 ∉ (first sizes (header ++ data)).drop header.length :=
        zero_not_mem_first hzero
      have hle := Peer.piece_length_le_rest sizes ⟨header ++ data, 0⟩ maxBufLen
      rw [overwrite_zeros_full hfull] at hs ⊢
      have hshort := takeWhile_length_lt (Bytes.mem_of_untilFirst hs) hbuffer
      rw [← eq_takeWhile_of_untilFirst hs] at hshort
      refine .text _ _ _ ?_ hbuffer (Nat.lt_of_lt_of_le hshort hheader) ?_
      · refine zero_not_mem_drop_stream hzero ?_
        rw [hfull]
        exact Nat.le_trans hheader (by decide)
      · simp only [List.length_append] at hle
        omega
  | zero _ z _ hzero hz =>
    rw [List.append_assoc]
    refine .zero _ _ _ hzero fun h => ?_
    rcases List.mem_append.mp h with h | h
    · exact hz h
    · exact zero_not_mem_found hs h
  | text _ z _ hrest hbuffer hz hdata =>
    have hshort := (found_before_header (zero_not_mem_piece hrest) hbuffer hs).2
    rw [hfull] at hshort
    unfold maxBufLen sizeofSizeT at *
    omega

/-- A piece that does not. -/
theorem Late.last (h : Late header data out (buffer, cur) w) (hheader : header.length ≤ sizeofSizeT)
    (hfirst : (first sizes (header ++ data)).length < maxBufLen →
      (first sizes (header ++ data)).takeWhile (· ≠ 0) ≠ data)
    (hlast : (w.piece sizes maxBufLen).length < maxBufLen)
    (hs : Bytes.untilFirst 0 (Bytes.overwrite buffer (w.piece sizes maxBufLen)) = some s) :
    cur ++ s ≠ out ++ data := by
  intro heq
  cases h with
  | start =>
    refine hfirst hlast ?_
    rw [Bytes.overwrite, List.drop_replicate] at hs
    have hfound := Bytes.untilFirst_intoArray_of_lt (z := (0 : UInt8)) hlast
    rw [Bytes.intoArray, hs] at hfound
    exact (Option.some.inj hfound).symm.trans (List.append_cancel_left heq)
  | zero _ z _ hzero hz =>
    rw [List.append_assoc] at heq
    rw [← List.append_cancel_left heq] at hzero
    rcases List.mem_append.mp hzero with h | h
    · exact hz h
    · exact zero_not_mem_found hs h
  | text _ z _ hrest hbuffer hz hdata =>
    have hshort := (found_before_header (zero_not_mem_piece hrest) hbuffer hs).1
    rw [List.append_assoc] at heq
    have hlen := congrArg List.length (List.append_cancel_left heq)
    rw [List.length_append] at hlen
    unfold maxBufLen sizeofSizeT at *
    omega

theorem triple_late_round (hheader : header.length ≤ sizeofSizeT)
    (hfirst : (first sizes (header ++ data)).length < maxBufLen →
      (first sizes (header ++ data)).takeWhile (· ≠ 0) ≠ data) :
    (stuck sizes).Triple (Late header data out (buffer, cur))
      (SocketUtil.unframedRound (buffer, cur))
      (Setting.Round (Late header data out) fun res _ => res ≠ (true, out ++ data)) := by
  refine SocketUtil.triple_unframedRound
    (B := Answered sizes (Late header data out (buffer, cur)) maxBufLen) (fun _ => stable _)
    (fun _ => stable _) (fun _ => stable _) (triple_asked fun _ _ => trivial) ?_ ?_ ?_
    fun _ _ _ _ _ => trivial
  · intro r w hneg hw
    obtain ⟨v, _, rfl, rfl⟩ := hw
    simp only at hneg
    omega
  · intro r s w _ hlast hw hs
    obtain ⟨v, hlate, rfl, rfl⟩ := hw
    simp only at hlast hs
    have hne := hlate.last hheader hfirst (by omega) hs
    simpa using hne
  · intro r s w _ hfull hw hs
    obtain ⟨v, hlate, rfl, rfl⟩ := hw
    have hmax := Peer.piece_length_le sizes v maxBufLen
    simp only at hfull hs
    exact hlate.full hheader (by omega) hs

/-- All depends on the first piece. -/
theorem receives_iff (hheader : header.length ≤ sizeofSizeT) :
    Receives sizes (SocketUtil.unframedRecv out) (header ++ data) (true, out ++ data) ↔
      (first sizes (header ++ data)).length < maxBufLen ∧
        (first sizes (header ++ data)).takeWhile (· ≠ 0) = data := by
  constructor
  · intro h
    obtain ⟨t, ht, hreturned⟩ := h
    by_contra hfirst
    rw [not_and] at hfirst
    have htriple : (stuck sizes).Triple
        (Late header data out (List.replicate maxBufLen 0, out)) (SocketUtil.unframedRecv out)
        (fun res _ => res ≠ (true, out ++ data)) :=
      SocketUtil.triple_unframedRecv (fun _ => stable _) fun buffer cur =>
        triple_late_round hheader hfirst
    exact (ht.alone htriple .start).returned hreturned rfl
  · intro h
    obtain ⟨hshort, htext⟩ := h
    have hreceives := receives_first hshort out
    rwa [htext] at hreceives

theorem receives_data_iff :
    Receives sizes (SocketUtil.unframedRecv out) data (true, out ++ data) ↔
      (first sizes data).length < maxBufLen ∧ (first sizes data).takeWhile (· ≠ 0) = data := by
  have hnil : ([] : Str).length ≤ sizeofSizeT := Nat.zero_le _
  exact receives_iff hnil

end Receiver

section Senders

variable {order : Bytes.ByteOrder} {data stream : Str}

theorem leads_send (w : Framing.Pipe) (buf : Str) : Framing.pipe.Leads Machine.any
    (int (.send buf)) w (.ret (toInt buf.length)) ⟨w.stream ++ buf, w.chunks⟩ := by
  have hrespond : Framing.pipe.respond w () (.send buf) ⟨toInt buf.length, []⟩ =
      some ⟨w.stream ++ buf, w.chunks⟩ := by
    simp only [Framing.pipe, Framing.Pipe.respond, if_true]
  generalize toInt buf.length = sendLen at hrespond ⊢
  exact leads_int (r := ⟨sendLen, []⟩) hrespond trivial

/-- The send that is judged by the sign of its result. -/
theorem leads_judged (w : Framing.Pipe) (buf : Str) : ∃ sent,
    Framing.pipe.Leads Machine.any
      ((int (.send buf)).bind fun sendLen => if 0 > sendLen then .ret false else .ret true) w
      (.ret sent) ⟨w.stream ++ buf, w.chunks⟩ := by
  have hsend := leads_send w buf
  by_cases hneg : 0 > toInt buf.length
  · refine ⟨false, hsend.andThen ?_⟩
    rw [if_pos hneg]
    exact .refl _ _
  · refine ⟨true, hsend.andThen ?_⟩
    rw [if_neg hneg]
    exact .refl _ _

theorem writes_framed_iff :
    Writes (SocketUtil.send order data) stream ↔ stream = Framing.frame order data := by
  constructor
  · intro h
    obtain ⟨s, hs, ⟨sent, hreturned⟩, rfl⟩ := h
    rw [(hs.alone (Framing.triple_send order data) rfl).returned hreturned]
  · intro h
    have hheader := leads_send ⟨[], []⟩ (order.encode sizeofSizeT data.length)
    obtain ⟨sent, hdata⟩ := leads_judged ⟨order.encode sizeofSizeT data.length, []⟩ data
    have hsend : Framing.pipe.Leads Machine.any (SocketUtil.send order data) ⟨[], []⟩ (.ret sent)
        ⟨Framing.frame order data, []⟩ := by
      refine hheader.andThen ?_
      rw [if_neg]
      · exact hdata
      · rw [order.encode_length]
        decide
    exact ⟨_, hsend, ⟨sent, rfl⟩, h.symm⟩

theorem triple_unframedSend :
    Framing.sender.Triple (fun w => w = ⟨[], []⟩) (SocketUtil.unframedSend data)
      (fun _ w => w = ⟨data, []⟩) := by
  refine Setting.triple_bind (Framing.triple_pipe_send [] data) fun sendLen => ?_
  split <;> exact Setting.triple_ret (Framing.stable_sender _) fun _ hw => hw.2

theorem writes_unframed_iff : Writes (SocketUtil.unframedSend data) stream ↔ stream = data := by
  constructor
  · intro h
    obtain ⟨s, hs, ⟨sent, hreturned⟩, rfl⟩ := h
    rw [(hs.alone triple_unframedSend rfl).returned hreturned]
  · intro h
    obtain ⟨sent, hdata⟩ := leads_judged ⟨[], []⟩ data
    exact ⟨_, hdata, ⟨sent, rfl⟩, h.symm⟩

end Senders

section Codecs

variable {sizes : Nat → Nat} {order : Bytes.ByteOrder} {data : Str}

/-- The data is short enough, without zero bytes, and arrives at once. -/
def AtOnce (sizes : Nat → Nat) (data : Str) : Prop :=
  0 ∉ data ∧ data.length < maxBufLen ∧ data.length ≤ max 1 (sizes 0)

/-- No data, or the one that looks like its own length. -/
def OwnLength (order : Bytes.ByteOrder) (data : Str) : Prop :=
  data = [] ∨ order = .little ∧ data = [1]

theorem first_eq (sizes : Nat → Nat) (stream : Str) :
    first sizes stream = stream.take (min maxBufLen (max 1 (sizes 0))) := rfl

theorem first_data_iff : (first sizes data).length < maxBufLen ∧
    (first sizes data).takeWhile (· ≠ 0) = data ↔ AtOnce sizes data := by
  rw [first_eq]
  generalize hlimit : min maxBufLen (max 1 (sizes 0)) = limit
  unfold AtOnce
  constructor
  · intro h
    obtain ⟨hshort, htext⟩ := h
    have hle := (List.takeWhile_prefix (l := data.take limit) (p := (· ≠ 0))).length_le
    rw [htext, List.length_take] at hle
    have hall : data.take limit = data := List.take_of_length_le (by omega)
    rw [hall] at hshort htext
    exact ⟨Bytes.takeWhile_ne_eq_self_iff.mp htext, hshort, by omega⟩
  · intro h
    obtain ⟨hzero, hshort, hsizes⟩ := h
    rw [List.take_of_length_le (by omega)]
    exact ⟨hshort, Bytes.takeWhile_ne_eq_self_iff.mpr hzero⟩

theorem encode_of_lt {n : Nat} (hn : n < 256) : order.encode sizeofSizeT n =
    match order with
    | .little => UInt8.ofNat n :: List.replicate 7 0
    | .big => List.replicate 7 0 ++ [UInt8.ofNat n] := by
  have hdiv : n / 256 = 0 := Nat.div_eq_of_lt hn
  cases order <;> simp [Bytes.ByteOrder.encode, sizeofSizeT, Bytes.lowBytes, hdiv]

theorem takeWhile_take_zero (k : Nat) (xs : Str) :
    (((0 : UInt8) :: xs).take k).takeWhile (· ≠ 0) = [] := by
  cases k <;> simp

theorem takeWhile_take_length {b : UInt8} (hb : b ≠ 0) (k : Nat) (xs : Str) :
    ((b :: 0 :: xs).take (k + 1)).takeWhile (· ≠ 0) = [b] := by
  rw [List.take_succ_cons, List.takeWhile_cons_of_pos (by simpa using hb), takeWhile_take_zero]

/-- The text in front of the first zero byte of a frame is its shortest form of the length. -/
theorem takeWhile_take_frame (hdata : data.length < 256) (k : Nat) :
    ((Framing.frame order data).take (k + 1)).takeWhile (· ≠ 0) =
      if order = .little ∧ data ≠ [] then [UInt8.ofNat data.length] else [] := by
  rw [Framing.frame, encode_of_lt hdata]
  cases order with
  | big =>
    rw [if_neg (by simp)]
    exact takeWhile_take_zero _ _
  | little =>
    by_cases hnil : data = []
    · rw [if_neg (by simp [hnil]), hnil]
      exact takeWhile_take_zero _ _
    · have hpos := List.length_pos_iff.mpr hnil
      rw [if_pos ⟨rfl, hnil⟩]
      refine takeWhile_take_length (fun hzero => ?_) k _
      have hvalue := congrArg UInt8.toNat hzero
      rw [UInt8.toNat_ofNat_of_lt' hdata] at hvalue
      exact absurd hvalue (Nat.ne_of_gt hpos)

theorem first_frame_iff : (first sizes (Framing.frame order data)).length < maxBufLen ∧
    (first sizes (Framing.frame order data)).takeWhile (· ≠ 0) = data ↔ OwnLength order data := by
  rw [first_eq]
  obtain ⟨k, hk⟩ : ∃ k, min maxBufLen (max 1 (sizes 0)) = k + 1 :=
    ⟨min maxBufLen (max 1 (sizes 0)) - 1, by unfold maxBufLen; omega⟩
  rw [hk]
  unfold OwnLength
  constructor
  · intro h
    obtain ⟨hshort, htext⟩ := h
    have hle := (List.takeWhile_prefix (l := (Framing.frame order data).take (k + 1))
      (p := (· ≠ 0))).length_le
    rw [htext] at hle
    rw [takeWhile_take_frame (Nat.lt_of_le_of_lt hle hshort)] at htext
    split at htext
    · rename_i hlittle
      have hone : data.length = 1 := by rw [← htext, List.length_singleton]
      rw [hone] at htext
      exact .inr ⟨hlittle.1, htext.symm⟩
    · exact .inl htext.symm
  · intro h
    have hdata : data.length ≤ 1 := by
      rcases h with rfl | ⟨_, rfl⟩
      · exact Nat.zero_le _
      · exact Nat.le_refl _
    rw [takeWhile_take_frame (by omega)]
    constructor
    · have hlen : (Framing.frame order data).length ≤ sizeofSizeT + 1 := by
        rw [Framing.frame, List.length_append, order.encode_length]
        omega
      refine Nat.lt_of_le_of_lt ((List.length_take_le' _ _).trans hlen) (by decide)
    · rcases h with rfl | ⟨rfl, rfl⟩
      · exact if_neg fun h => h.2 rfl
      · rfl

/-- What comes back is the data exactly where the first piece is read as it. -/
theorem unframed_codec_iff (order : Bytes.ByteOrder) (sizes : Nat → Nat) (data out : Str) :
    (Undoes sizes Controller.SocketUtil.send Controller.SocketUtil.recv data out ↔
      AtOnce sizes data) ∧
    (Undoes sizes (Admin.SocketUtil.send order) Admin.SocketUtil.recv data out ↔
      OwnLength order data) := by
  constructor
  · simp only [Undoes, Controller.SocketUtil.send, Controller.SocketUtil.recv, writes_unframed_iff,
      exists_eq_left]
    exact receives_data_iff.trans first_data_iff
  · simp only [Undoes, Admin.SocketUtil.send, Admin.SocketUtil.recv, writes_framed_iff,
      exists_eq_left]
    exact (receives_iff (by rw [order.encode_length])).trans first_frame_iff

/-- Two bytes in two pieces: the second is dropped. The Admin tool reads its own header. -/
theorem codec_drops_and_keeps :
    (¬ ∀ sizes data out,
      Undoes sizes Controller.SocketUtil.send Controller.SocketUtil.recv data out) ∧
    ¬ ∀ order sizes data out,
      Undoes sizes (Admin.SocketUtil.send order) Admin.SocketUtil.recv data out := by
  constructor
  · intro hall
    obtain ⟨stream, hwrites, hreceives⟩ := hall (fun _ => 1) (text "ab") []
    obtain rfl := writes_unframed_iff.mp hwrites
    exact absurd (receives_data_iff.mp hreceives).2 (by decide)
  · intro hall
    obtain ⟨stream, hwrites, hreceives⟩ := hall .little (fun _ => 1) (text "a") []
    obtain rfl := writes_framed_iff.mp hwrites
    have hheader : (Bytes.ByteOrder.little.encode sizeofSizeT 1).length ≤ sizeofSizeT := by decide
    exact absurd ((receives_iff hheader).mp hreceives).2 (by decide)

end Codecs

end SGXess.Unframed
