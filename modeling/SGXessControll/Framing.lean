import SGXessControll.SocketUtil

/-!
# What the framed transfer delivers

The bytes of one sender travel through a pipe that hands them on in order, in pieces of
any size. The receiver gets the data back exactly if the length arrived in one piece, no
byte of the data is zero, and no piece filled the buffer.
-/

namespace SGXess.Framing

set_option autoImplicit false

open Calls

/-- The bytes on their way and the sizes of the pieces handed over so far. -/
structure Pipe where
  stream : Str
  chunks : List Nat
  deriving DecidableEq

def Pipe.respond (w : Pipe) (_ : Unit) (c : Call) (r : Reply) : Option Pipe :=
  match c with
  | .send buf => if r.ret = toInt buf.length then some ⟨w.stream ++ buf, w.chunks⟩ else none
  | .recv len =>
    if 1 ≤ r.ret ∧ r.ret.toNat ≤ len ∧ r.ret.toNat ≤ w.stream.length ∧
        r.bytes = w.stream.take r.ret.toNat then
      some ⟨w.stream.drop r.ret.toNat, w.chunks ++ [r.ret.toNat]⟩
    else none
  | _ => none

def pipe : Machine Pipe Unit Call Reply Empty := ⟨Pipe.respond, fun _ e => nomatch e⟩

/-- The frame `SocketUtil::send` writes for `data`. -/
def frame (order : Bytes.ByteOrder) (data : Str) : Str :=
  order.encode sizeofSizeT data.length ++ data

/-- The length came in one piece, and the data can pass through a C string and a buffer
that is never filled. -/
def Intact (data : Str) (chunks : List Nat) : Prop :=
  data = [] ∨ (chunks.head? = some sizeofSizeT ∧ 0 ∉ data ∧ ∀ n ∈ chunks.tail, n < maxBufLen)

theorem respond_recv {w w' : Pipe} {len : Nat} {r : Reply}
    (h : w.respond () (.recv len) r = some w') :
    r.ret.toNat = r.bytes.length ∧ 0 ≤ r.ret ∧ r.bytes ≠ [] ∧ r.bytes.length ≤ len ∧
      w.stream = r.bytes ++ w'.stream ∧ w'.chunks = w.chunks ++ [r.bytes.length] := by
  simp only [Pipe.respond] at h
  split at h
  · rename_i hr
    obtain ⟨hpos, hlen, hstream, hbytes⟩ := hr
    have hl : r.bytes.length = r.ret.toNat := by rw [hbytes, List.length_take]; omega
    cases h
    refine ⟨hl.symm, by omega, ?_, by omega, ?_, by rw [hl]⟩
    · intro hnil
      simp only [hnil, List.length_nil] at hl
      omega
    · rw [hbytes, List.take_append_drop]
  · cases h

/-- Where the receiver stands at the head of its loop: `dataLen` bytes to go, `cur` in the
caller's string, which held `out` before the call. -/
inductive Receiving (out data : Str) (w : Pipe) : Nat → Str → Prop where
  | exact (got : Str) (cs : List Nat) : data = got ++ w.stream →
      w.chunks = sizeofSizeT :: cs → 0 ∉ got → (∀ n ∈ cs, n < maxBufLen) →
      Receiving out data w w.stream.length (out ++ got)
  /-- A zero byte has cost part of the data. -/
  | zero (got cur : Str) (cs : List Nat) : data = got ++ w.stream →
      w.chunks = sizeofSizeT :: cs → 0 ∈ data → cur.length < out.length + got.length →
      Receiving out data w w.stream.length cur
  /-- The length came in pieces: it is too small, or the next byte is its zero rest. -/
  | split (dataLen k : Nat) (cur : Str) (ks : List Nat) : data ≠ [] →
      w.chunks = k :: ks → k ≠ sizeofSizeT → dataLen ≤ w.stream.length →
      (cur.length + dataLen < out.length + data.length ∨
        (cur.length + dataLen ≤ out.length + data.length ∧ w.stream.head? = some 0 ∧
          0 < dataLen)) →
      Receiving out data w dataLen cur
  | nothing : data = [] → Receiving out data w 0 out

section Round

variable {out data cur : Str} {w w' : Pipe} {dataLen : Nat} {piece s : Str}

theorem Receiving.le_stream (h : Receiving out data w dataLen cur) :
    dataLen ≤ w.stream.length := by
  cases h with
  | exact => exact le_rfl
  | zero => exact le_rfl
  | split _ _ _ _ _ _ _ hle _ => exact hle
  | nothing => exact Nat.zero_le _

/-- A round that finds the end of its C string. -/
theorem Receiving.append (h : Receiving out data w dataLen cur) (hpiece : piece ≠ [])
    (hbuf : piece.length ≤ maxBufLen) (hlen : piece.length ≤ dataLen)
    (hstream : w.stream = piece ++ w'.stream) (hchunks : w'.chunks = w.chunks ++ [piece.length])
    (hs : Bytes.untilFirst 0 (Bytes.intoArray 0 maxBufLen piece) = some s) :
    Receiving out data w' (dataLen - piece.length) (cur ++ s) := by
  obtain ⟨rfl, hend⟩ := (Bytes.untilFirst_intoArray_eq_some_iff hbuf).mp hs
  have hle : (piece.takeWhile (· ≠ 0)).length ≤ piece.length :=
    (List.takeWhile_prefix _).length_le
  have hw : w.stream.length = piece.length + w'.stream.length := by
    rw [hstream, List.length_append]
  cases h with
  | exact got cs hd hc hz hn =>
    have hsub : w.stream.length - piece.length = w'.stream.length := by omega
    have hd' : data = (got ++ piece) ++ w'.stream := by rw [hd, hstream, List.append_assoc]
    rw [hsub]
    by_cases hp : (0 : UInt8) ∈ piece
    · have hlt := Bytes.takeWhile_ne_length_lt hp
      refine .zero _ _ (cs ++ [piece.length]) hd' (by rw [hchunks, hc]; rfl)
        (by simp [hd', hp]) ?_
      simp only [List.length_append]
      omega
    · rw [Bytes.takeWhile_ne_eq_self_iff.mpr hp, List.append_assoc]
      refine .exact _ (cs ++ [piece.length]) hd' (by rw [hchunks, hc]; rfl) (by simp [hz, hp]) ?_
      intro n hmem
      rcases List.mem_append.mp hmem with hmem | hmem
      · exact hn n hmem
      · rw [List.mem_singleton.mp hmem]
        exact hend.resolve_right hp
  | zero got cur cs hd hc hz hlt =>
    have hsub : w.stream.length - piece.length = w'.stream.length := by omega
    have hd' : data = (got ++ piece) ++ w'.stream := by rw [hd, hstream, List.append_assoc]
    rw [hsub]
    refine .zero _ _ (cs ++ [piece.length]) hd' (by rw [hchunks, hc]; rfl) hz ?_
    simp only [List.length_append]
    omega
  | split _ k _ ks hd hc hk hle' hshort =>
    refine .split _ _ _ (ks ++ [piece.length]) hd (by rw [hchunks, hc]; rfl) hk (by omega) (.inl ?_)
    simp only [List.length_append]
    rcases hshort with hlt | ⟨heq, hzero, _⟩
    · omega
    · -- The piece begins with the zero rest of the length, so the round appends nothing.
      obtain ⟨p, ps, rfl⟩ := List.exists_cons_of_ne_nil hpiece
      rw [hstream] at hzero
      obtain rfl : p = 0 := by simpa using hzero
      have hnone : (((0 : UInt8) :: ps).takeWhile (· ≠ 0)).length = 0 := by simp
      simp only [hnone, List.length_cons] at *
      omega
  | nothing =>
    have := List.length_pos_iff.mpr hpiece
    omega

theorem Receiving.started (h : Receiving out data w dataLen cur) (hlen : 0 < dataLen) :
    data ≠ [] ∧ ∃ k ks, w.chunks = k :: ks := by
  cases h with
  | exact _ _ hd hc _ _ =>
    refine ⟨?_, _, _, hc⟩
    rintro rfl
    simp_all
  | zero _ _ _ _ hc hz _ =>
    refine ⟨?_, _, _, hc⟩
    rintro rfl
    simp at hz
  | split _ _ _ _ hd hc _ _ _ => exact ⟨hd, _, _, hc⟩
  | nothing => omega

theorem Receiving.overrun (h : Receiving out data w dataLen cur) (hpiece : piece ≠ [])
    (hbuf : piece.length ≤ maxBufLen) (hlen : piece.length ≤ dataLen)
    (hchunks : w'.chunks = w.chunks ++ [piece.length])
    (hs : Bytes.untilFirst 0 (Bytes.intoArray 0 maxBufLen piece) = none) :
    ¬ Intact data w'.chunks := by
  obtain ⟨hfull, _⟩ := (Bytes.untilFirst_intoArray_eq_none_iff hbuf).mp hs
  have hpos := List.length_pos_iff.mpr hpiece
  obtain ⟨hd, k, ks, hc⟩ := h.started (by omega)
  intro h
  rcases h with hnil | ⟨_, _, hn⟩
  · exact hd hnil
  · have hlt := hn piece.length (by simp [hchunks, hc])
    omega

theorem Receiving.done (h : Receiving out data w 0 cur) :
    cur = out ++ data ↔ Intact data w.chunks := by
  generalize hn : 0 = n at h
  cases h with
  | exact got cs hd hc hz hcs =>
    have hnil : w.stream = [] := List.length_eq_zero_iff.mp hn.symm
    have hgot : data = got := by rw [hd, hnil, List.append_nil]
    subst hgot
    simp only [true_iff]
    exact .inr ⟨by simp [hc], hz, by simpa [hc] using hcs⟩
  | zero got cur cs hd hc hz hlt =>
    have hnil : w.stream = [] := List.length_eq_zero_iff.mp hn.symm
    have hgot : data = got := by rw [hd, hnil, List.append_nil]
    subst hgot
    constructor
    · rintro rfl
      simp only [List.length_append] at hlt
      omega
    · intro h
      rcases h with hd | ⟨_, hnz, _⟩
      · simp [hd] at hz
      · exact absurd hz hnz
  | split _ k _ ks hd hc hk _ hshort =>
    constructor
    · rintro rfl
      simp only [List.length_append] at hshort
      omega
    · intro h
      rcases h with hnil | ⟨hhead, _, _⟩
      · exact absurd hnil hd
      · simp only [hc, List.head?_cons, Option.some.injEq] at hhead
        exact absurd hhead hk
  | nothing hd =>
    subst hd
    simp [Intact]

end Round

section Receiver

variable (order : Bytes.ByteOrder) (out data : Str)

/-- The receiver never waits for bytes that will not come. -/
def Waits (c : Call) (w : Pipe) : Prop := ∃ len, c = .recv len ∧ 0 < len ∧ w.stream ≠ []

abbrev receiver : Setting Pipe Call Reply :=
  pipe.alone Machine.any Waits fun w => ¬ Intact data w.chunks

def AtLoop (b : Nat × Str) (w : Pipe) : Prop := Receiving out data w b.1 b.2 ∧ b.1 < 2 ^ 64

/-- `true` and the data, or a reason why not. -/
def Received (res : Bool × Str) (w : Pipe) : Prop :=
  (res.1 = true ∧ res.2 = out ++ data) ↔ Intact data w.chunks

theorem receiver_stable (A : Pipe → Prop) : (receiver data).Stable A :=
  Machine.stable_alone fun _ e => nomatch e

theorem triple_recvRound (n : Nat) (cur : Str) :
    (receiver data).Triple (AtLoop out data (n, cur)) (SocketUtil.recvRound (n, cur))
      (Setting.Round (AtLoop out data) (Received out data)) := by
  have stable := receiver_stable data
  apply SocketUtil.triple_recvRound (fun _ => stable _) (fun _ => stable _)
    (B := fun r w' => ∃ w len, AtLoop out data (n, cur) w ∧ len ≤ maxBufLen ∧ len ≤ n ∧
      w.respond () (.recv len) r = some w')
  · intro hn
    have hpos := SocketUtil.asked_pos hn
    have hbuf := Nat.min_le_right n maxBufLen
    have hlen := Nat.min_le_left n maxBufLen
    generalize min n maxBufLen = len at *
    apply Setting.triple_ask (stable _) (fun _ => stable _)
    · intro w hw
      obtain ⟨h, _⟩ := hw
      refine ⟨len, rfl, hpos, fun hnil => ?_⟩
      have hle := h.le_stream
      simp only [hnil, List.length_nil] at hle
      omega
    · exact fun w r w' hw ha => ⟨w, len, hw, hbuf, hlen, ha.1⟩
  · intro r w' hneg hw
    obtain ⟨w, len, _, _, _, hr⟩ := hw
    have := (respond_recv hr).2.1
    omega
  · intro r s w' _ hw hs
    obtain ⟨w, len, ⟨h, hlt⟩, _, _, hr⟩ := hw
    obtain ⟨hret, _, hne, hle, hstream, hchunks⟩ := respond_recv hr
    rw [hret, subSizeT_of_le (by omega) hlt]
    exact ⟨h.append hne (by omega) (by omega) hstream hchunks hs, by omega⟩
  · intro r w' _ hw hs
    obtain ⟨w, len, ⟨h, _⟩, _, _, hr⟩ := hw
    obtain ⟨_, _, hne, hle, _, hchunks⟩ := respond_recv hr
    exact h.overrun hne (by omega) (by omega) hchunks hs
  · intro w hw
    simpa [Received] using hw.1.done

/-- The length arrives, in one piece or only its first bytes. -/
theorem received_header {w w' : Pipe} {r : Reply} (hdata : data.length < 2 ^ 64)
    (hw : w = ⟨frame order data, []⟩) (hr : w.respond () (.recv sizeofSizeT) r = some w') :
    AtLoop out data (SocketUtil.readLength order r.bytes, out) w' := by
  obtain ⟨_, _, hne, hlen, hstream, hchunks⟩ := respond_recv hr
  subst hw
  simp only [frame, List.nil_append] at hstream hchunks
  have hword : order.decode (order.encode sizeofSizeT data.length) = data.length :=
    order.decode_encode (by simpa [sizeofSizeT] using hdata)
  have hpre : r.bytes <+: order.encode sizeofSizeT data.length := by
    refine List.prefix_of_prefix_length_le ⟨_, hstream.symm⟩ (List.prefix_append _ _) ?_
    simpa using hlen
  obtain ⟨rest, hrest⟩ := hpre
  have hlens : r.bytes.length + rest.length = sizeofSizeT := by
    rw [← List.length_append, hrest, order.encode_length]
  have hread : SocketUtil.readLength order r.bytes =
      order.decode (r.bytes ++ List.replicate rest.length 0) := by
    unfold SocketUtil.readLength
    congr 3
    omega
  have hle := order.decode_partial_le r.bytes rest
  have heq := order.decode_partial_eq_iff r.bytes rest
  rw [← hread, hrest, hword] at hle heq
  have hstream' : w'.stream = rest ++ data := by
    rw [← hrest, List.append_assoc] at hstream
    exact (List.append_cancel_left hstream).symm
  refine ⟨?_, lt_of_le_of_lt hle hdata⟩
  change Receiving out data w' (SocketUtil.readLength order r.bytes) out
  by_cases hnil : data = []
  · obtain hz : SocketUtil.readLength order r.bytes = 0 := by
      simpa [hnil] using hle
    rw [hz]
    exact .nothing hnil
  · cases rest with
    | nil =>
      have hs : w'.stream = data := by simpa using hstream'
      rw [heq.mpr rfl]
      have hstart : Receiving out data w' w'.stream.length (out ++ []) :=
        .exact [] [] (by simp [hs]) (by simp [hchunks, ← hlens]) (by simp) (by simp)
      simpa [hs] using hstart
    | cons x rest =>
      have hpos := List.length_pos_iff.mpr hnil
      refine .split _ _ _ _ hnil hchunks (by simp only [List.length_cons] at hlens; omega) ?_ ?_
      · rw [hstream', List.length_append]
        omega
      · -- The bytes to come count for nothing, or are all zero and would be taken for data.
        rcases Nat.lt_or_eq_of_le hle with hlt | hall
        · exact .inl (by omega)
        · have hx : x = 0 := (List.cons.inj (heq.mp hall)).1
          exact .inr ⟨by omega, by simp [hstream', hx], by omega⟩

theorem triple_recv (hdata : data.length < 2 ^ 64) :
    (receiver data).Triple (fun w => w = ⟨frame order data, []⟩) (SocketUtil.recv order out)
      (Received out data) := by
  have stable := receiver_stable data
  refine SocketUtil.triple_recv (fun _ => stable _) ?_ (triple_recvRound out data)
  apply Setting.triple_ask (stable _) (fun _ => stable _)
  · intro w hw
    rw [hw]
    refine ⟨_, rfl, by decide, fun hnil => ?_⟩
    have hlen := congrArg List.length hnil
    simp [frame, sizeofSizeT] at hlen
  · exact fun w r w' hw ha => received_header order out data hdata hw ha.1

end Receiver

section Sender

variable (order : Bytes.ByteOrder) (data : Str)

abbrev sender : Setting Pipe Call Reply :=
  pipe.alone Machine.any (fun _ _ => True) fun _ => False

theorem stable_sender (A : Pipe → Prop) : sender.Stable A :=
  Machine.stable_alone fun _ e => nomatch e

/-- A write takes all of its buffer. -/
theorem triple_pipe_send (stream buf : Str) :
    sender.Triple (fun w => w = ⟨stream, []⟩) (int (.send buf))
      (fun n w => n = toInt buf.length ∧ w = ⟨stream ++ buf, []⟩) := by
  refine triple_int (stable_sender _) (fun _ => stable_sender _) (fun _ _ => trivial) ?_
  rintro w r w' rfl ⟨hr, _⟩
  obtain ⟨hret, hw⟩ := Option.ite_none_right_eq_some.mp hr
  exact ⟨hret, (Option.some.inj hw).symm⟩

theorem triple_send :
    sender.Triple (fun w => w = ⟨[], []⟩) (SocketUtil.send order data)
      (fun _ w => w = ⟨frame order data, []⟩) := by
  simp only [SocketUtil.send, Code.bind_eq, Code.pure_eq]
  refine Setting.triple_bind (triple_pipe_send [] _) fun n => ?_
  by_cases hneg : 0 > n
  · refine Setting.triple_of_false ?_
    intro w hw
    rw [hw.1, order.encode_length] at hneg
    exact absurd hneg (by decide)
  · rw [if_neg hneg]
    refine Setting.triple_bind ((triple_pipe_send _ _).pre fun w hw => hw.2) fun n => ?_
    split <;> exact Setting.triple_ret (stable_sender _) fun _ hw => hw.2

end Sender

/-- The parties that talk in frames: the Admin tool to the Deployer, and the copies. -/
def codecs (order : Bytes.ByteOrder) : List ((Str → Prog Bool) × (Str → Prog (Bool × Str))) :=
  [(Admin.SocketUtil.send order, Deployer.SocketUtil.recv order),
    (Deployer.SocketUtil.send order, Deployer.SocketUtil.recv order),
    (Proxy.SocketUtil.send order, Proxy.SocketUtil.recv order),
    (Client.SocketUtil.send order, Client.SocketUtil.recv order)]

theorem mem_codecs {order : Bytes.ByteOrder} {send : Str → Prog Bool}
    {recv : Str → Prog (Bool × Str)} (h : (send, recv) ∈ codecs order) :
    send = SocketUtil.send order ∧ recv = SocketUtil.recv order := by
  simp only [codecs, List.mem_cons, Prod.mk.injEq, List.not_mem_nil, or_false] at h
  rcases h with ⟨rfl, rfl⟩ | ⟨rfl, rfl⟩ | ⟨rfl, rfl⟩ | ⟨rfl, rfl⟩ <;> exact ⟨rfl, rfl⟩

/-- The receiver never gets stuck, stops after at most one piece for every byte, and then
has said `true` with the data behind `out` exactly if the pieces were kind to it. -/
theorem recv_of_send {order : Bytes.ByteOrder} {send : Str → Prog Bool}
    {recv : Str → Prog (Bool × Str)} (hcodec : (send, recv) ∈ codecs order) {data out : Str}
    (hdata : data.length < 2 ^ 64) {s : Config Pipe Unit Call Reply Bool}
    (hs : pipe.Reaches Machine.any (solo (send data) ⟨[], []⟩) s) {sent : Bool}
    (hsent : (s.code ()).pending = .returned sent)
    {t : Config Pipe Unit Call Reply (Bool × Str)}
    (ht : pipe.Reaches Machine.any (solo (recv out) s.world) t) :
    t.world.chunks.length ≤ sizeofSizeT + data.length ∧
      match (t.code ()).pending with
      | .calling c => ∃ r w, pipe.respond t.world () c r = some w
      | end_ => end_ = .returned (true, out ++ data) ↔ Intact data t.world.chunks := by
  obtain ⟨rfl, rfl⟩ := mem_codecs hcodec
  have hworld : s.world = ⟨frame order data, []⟩ :=
    (hs.alone (triple_send order data) rfl).returned hsent
  rw [hworld] at ht
  have hholds := ht.alone (triple_recv order out data hdata) rfl
  refine ⟨?_, ?_⟩
  · have hlen : t.world.chunks.length + t.world.stream.length ≤ sizeofSizeT + data.length := by
      refine ht.invariant_alone (P := fun w => w.chunks.length + w.stream.length ≤ _)
        (triple_recv order out data hdata) rfl (by simp [frame]) ?_ (fun _ e => nomatch e)
      rintro w c r w' hP ⟨len, rfl, _⟩ hr _
      obtain ⟨_, _, hne, _, hstream, hchunks⟩ := respond_recv hr
      have hpos := List.length_pos_iff.mpr hne
      rw [hstream, List.length_append] at hP
      simp only [hchunks, List.length_append, List.length_cons, List.length_nil]
      omega
    omega
  · split
    · rename_i c hc
      obtain ⟨len, rfl, hlen, hne⟩ := hholds.pre hc
      have hpos := List.length_pos_iff.mpr hne
      exact ⟨⟨1, t.world.stream.take 1⟩, _, if_pos ⟨le_rfl, hlen, hpos, rfl⟩⟩
    · rename_i hc
      cases hp : (t.code ()).pending with
      | returned res =>
        obtain ⟨b, res⟩ := res
        have := hholds.returned hp
        simpa [Received] using this
      | calling c => exact absurd hp (hc c)
      | undefined =>
        have hfault : ¬ Intact data t.world.chunks := hholds.undefined hp
        simpa using hfault

theorem recv_of_send_byte :
    ∃ (s : Config Pipe Unit Call Reply Bool) (t : Config Pipe Unit Call Reply (Bool × Str)),
      (s.code ()).pending = .returned true ∧
        pipe.Reaches Machine.any (solo (Deployer.SocketUtil.recv .little []) s.world) t ∧
        (t.code ()).pending = .returned (true, [65]) ∧ Intact [65] t.world.chunks := by
  have hsend : pipe.observe id (solo (Admin.SocketUtil.send .little [65]) ⟨[], []⟩)
      [.reply () ⟨8, []⟩, .reply () ⟨1, []⟩] () =
        some (.returned true, ⟨[1, 0, 0, 0, 0, 0, 0, 0, 65], []⟩) := by decide +kernel
  have hrecv : pipe.observe id
      (solo (Deployer.SocketUtil.recv .little []) ⟨[1, 0, 0, 0, 0, 0, 0, 0, 65], []⟩)
      [.reply () ⟨8, [1, 0, 0, 0, 0, 0, 0, 0]⟩, .reply () ⟨1, [65]⟩] () =
        some (.returned (true, [65]), ⟨[], [8, 1]⟩) := by decide +kernel
  obtain ⟨s, hs, hsent, hworld⟩ := Machine.reaches_of_observe hsend
  obtain ⟨t, ht, hend, _⟩ := Machine.reaches_of_observe hrecv
  rw [← show s.world = _ from hworld] at ht
  have hcodec : (Admin.SocketUtil.send .little, Deployer.SocketUtil.recv .little) ∈
      codecs .little := by simp [codecs]
  have hround := (recv_of_send hcodec (by decide) hs hsent ht).2
  rw [hend] at hround
  exact ⟨s, t, hsent, ht, hend, hround.mp rfl⟩

/-- A zero byte is lost, although every byte arrives and `recv` says `true`. -/
theorem recv_of_send_zero_byte :
    ¬ ∀ (data out : Str) (s : Config Pipe Unit Call Reply Bool)
      (t : Config Pipe Unit Call Reply (Bool × Str)),
      pipe.Reaches Machine.any (solo (Admin.SocketUtil.send .little data) ⟨[], []⟩) s →
      (s.code ()).pending = .returned true →
      pipe.Reaches Machine.any (solo (Deployer.SocketUtil.recv .little out) s.world) t →
      (∀ c, (t.code ()).pending ≠ .calling c) →
      (t.code ()).pending = .returned (true, out ++ data) := by
  intro h
  have hsend : pipe.observe id (solo (Admin.SocketUtil.send .little [0]) ⟨[], []⟩)
      [.reply () ⟨8, []⟩, .reply () ⟨1, []⟩] () =
        some (.returned true, ⟨[1, 0, 0, 0, 0, 0, 0, 0, 0], []⟩) := by decide +kernel
  have hrecv : pipe.observe id
      (solo (Deployer.SocketUtil.recv .little []) ⟨[1, 0, 0, 0, 0, 0, 0, 0, 0], []⟩)
      [.reply () ⟨8, [1, 0, 0, 0, 0, 0, 0, 0]⟩, .reply () ⟨1, [0]⟩] () =
        some (.returned (true, []), ⟨[], [8, 1]⟩) := by decide +kernel
  obtain ⟨s, hs, hsent, hworld⟩ := Machine.reaches_of_observe hsend
  obtain ⟨t, ht, hend, _⟩ := Machine.reaches_of_observe hrecv
  rw [← show s.world = _ from hworld] at ht
  have hall := h [0] [] s t hs hsent ht (by simp [hend])
  simp [hend] at hall

end SGXess.Framing
