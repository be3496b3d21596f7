import SGXessControll.Streams

/-!
# The count of the framed receive

`dataLen` through the loop of `SocketUtil::recv`: with what was received behind the header it
always makes up the declared length, so that nothing is asked for that is not part of the
frame. It is counted down behind `data.append(buffer)`, and so not where that leaves the
buffer.
-/

namespace SGXess.Counting

set_option autoImplicit false

open Calls Streams

/-- The bytes taken from the stream, in order. -/
def taken (w : Log) : Str := w.flatMap fun p => p.2.bytes

@[simp] theorem taken_cons (c : Call) (r : Reply) (w : Log) :
    taken ((c, r) :: w) = r.bytes ++ taken w := List.flatMap_cons

@[simp] theorem taken_append (c : Call) (r : Reply) (w : Log) :
    taken (w ++ [(c, r)]) = taken w ++ r.bytes := by simp [taken]

/-- Where `recv` is, and what it has taken. A round that fails or leaves its buffer is the
last one. -/
inductive Stage (order : Bytes.ByteOrder) (out : Str) : Prog (Bool × Str) → Log → Prop where
  | asking : Stage order out (SocketUtil.recv order out) []
  | head (header : Reply) (w : Log) (dataLen : Nat) (data : Str) :
      header.bytes.length ≤ sizeofSizeT →
      (taken w).length + dataLen = SocketUtil.readLength order header.bytes →
      Stage order out (receiving dataLen data) ((.recv sizeofSizeT, header) :: w)
  | failed (header : Reply) (w : Log) (data : Str) :
      Stage order out (.ret (false, data)) ((.recv sizeofSizeT, header) :: w)
  | overrun (header : Reply) (w : Log) :
      Stage order out .undefined ((.recv sizeofSizeT, header) :: w)

section Step

variable {order : Bytes.ByteOrder} {out data : Str} {dataLen : Nat} {m : Prog (Bool × Str)}
variable {w : Log} {c : Call} {r : Reply}

theorem pending_round (hpos : 0 < dataLen) : (SocketUtil.recvRound (dataLen, data)).pending =
    .calling (.recv (min dataLen maxBufLen)) := by
  simp only [SocketUtil.recvRound, if_pos hpos, SocketUtil.asked_eq]
  rfl

theorem pending_receiving (hpos : 0 < dataLen) :
    (receiving dataLen data).pending = .calling (.recv (min dataLen maxBufLen)) := by
  simp only [Code.pending, pending_round hpos]

theorem pending_receiving_zero : (receiving 0 data).pending = .returned (true, data) := rfl

/-- What `::recv` returns is no more than what was to come. -/
theorem subSizeT_received (hlt : dataLen < 2 ^ 64) (hret : 0 ≤ r.ret)
    (hpossible : Possible (.recv (min dataLen maxBufLen)) r) :
    r.ret = r.bytes.length ∧ r.ret.toNat ≤ dataLen ∧
      subSizeT dataLen r.ret.toNat = dataLen - r.ret.toNat := by
  obtain ⟨hlen, hcount, _⟩ := possible_recv hpossible
  have hcount : r.ret = r.bytes.length := hcount.resolve_left (by omega)
  have hle : r.ret.toNat ≤ dataLen := by omega
  exact ⟨hcount, hle, subSizeT_of_le hle hlt⟩

/-- A round with an answer: it fails, it leaves its buffer, or it counts what came. -/
theorem resume_receiving (data : Str) (r : Reply) (hpos : 0 < dataLen) :
    (receiving dataLen data).resume r = .ret (false, data) ∧ r.ret < 0 ∨
      0 ≤ r.ret ∧ ((receiving dataLen data).resume r = .undefined ∨
        ∃ data', (receiving dataLen data).resume r =
          receiving (subSizeT dataLen r.ret.toNat) data') := by
  rw [Code.resume_loop (pending_round hpos)]
  simp only [SocketUtil.recvRound, if_pos hpos, Code.bind_eq, Code.pure_eq, Code.ask, Code.bind,
    Code.resume]
  by_cases hneg : r.ret < 0
  · rw [if_pos hneg]
    exact .inl ⟨rfl, hneg⟩
  · rw [if_neg hneg]
    refine .inr ⟨by omega, ?_⟩
    unfold appendBuffer
    split
    · exact .inr ⟨_, rfl⟩
    · exact .inl rfl

theorem Stage.step (h : Stage order out m w) (hm : m.pending = .calling c)
    (hpossible : Possible c r) : Stage order out (m.resume r) (w ++ [(c, r)]) := by
  cases h with
  | asking =>
    cases hm
    have hlen := (possible_recv hpossible).1
    exact .head r [] _ out hlen (Nat.zero_add _)
  | head header w dataLen data hheader hsum =>
    have hread : SocketUtil.readLength order header.bytes < 2 ^ 64 :=
      SocketUtil.readLength_lt hheader
    by_cases hpos : 0 < dataLen
    · rw [pending_receiving hpos] at hm
      cases hm
      rcases resume_receiving data r hpos with
        ⟨hresume, _⟩ | ⟨hret, hresume | ⟨data', hresume⟩⟩
      · rw [hresume, List.cons_append]
        exact .failed header _ data
      · rw [hresume, List.cons_append]
        exact .overrun header _
      · obtain ⟨hcount, hle, hsub⟩ := subSizeT_received (by omega) hret hpossible
        rw [hresume, hsub, List.cons_append]
        refine .head header _ _ _ hheader ?_
        rw [taken_append, List.length_append]
        omega
    · obtain rfl : dataLen = 0 := by omega
      rw [pending_receiving_zero] at hm
      cases hm
  | failed header w data => cases hm
  | overrun header w => cases hm

theorem stage_of_runsTo {t : Config Log Unit Call Reply (Bool × Str)}
    (ht : (SocketUtil.recv order out).RunsTo Possible t) : Stage order out (t.code ()) t.world :=
  ht.preserves .asking fun _ _ _ _ => Stage.step

/-- The iteration asks for no more than its buffer holds and than is to come, and no answer
makes its subtraction wrap. -/
def Bounds (m : Prog (Bool × Str)) (dataLen : Nat) : Prop :=
  ∀ len, m.pending = .calling (.recv len) → len ≤ maxBufLen ∧ len ≤ dataLen ∧
    ∀ r, Possible (.recv len) r → 0 ≤ r.ret →
      r.ret.toNat ≤ dataLen ∧ subSizeT dataLen r.ret.toNat = dataLen - r.ret.toNat

theorem bounds_receiving (hlt : dataLen < 2 ^ 64) : Bounds (receiving dataLen data) dataLen := by
  intro len hlen
  by_cases hpos : 0 < dataLen
  · rw [pending_receiving hpos] at hlen
    cases hlen
    refine ⟨Nat.min_le_right _ _, Nat.min_le_left _ _, fun r hr hret => ?_⟩
    exact (subSizeT_received hlt hret hr).2
  · obtain rfl : dataLen = 0 := by omega
    rw [pending_receiving_zero] at hlen
    cases hlen

theorem readLength_of_whole {header : Str} (hwhole : header.length = sizeofSizeT) :
    SocketUtil.readLength order header = order.decode header := by
  rw [SocketUtil.readLength, hwhole, Nat.sub_self, List.replicate_zero, List.append_nil]

end Step

section Frames

variable {order : Bytes.ByteOrder} {out : Str} {header : Reply} {w : Log} {m : Prog (Bool × Str)}

theorem receiving_inj {dataLen dataLen' : Nat} {data data' : Str}
    (h : receiving dataLen data = receiving dataLen' data') : dataLen = dataLen' := by
  have hpair : dataLen = dataLen' ∧ data = data' := by simpa using h
  exact hpair.1

/-- Behind a whole header, with `w` received since: every iteration keeps to the frame, and
`recv` returns `true` where the frame ends. -/
structure Counts (order : Bytes.ByteOrder) (header : Reply) (w : Log) (m : Prog (Bool × Str)) :
    Prop where
  goes_on : m.pending ≠ .undefined
  remaining : ∀ dataLen data, m = receiving dataLen data →
    (taken w).length + dataLen = order.decode header.bytes ∧ Bounds m dataLen
  asks : ∀ c, m.pending = .calling c → ∃ dataLen data, m = receiving dataLen data ∧ 0 < dataLen
  ends : ∀ data, m.pending = .returned (true, data) →
    (taken ((.recv sizeofSizeT, header) :: w)).length =
        sizeofSizeT + order.decode header.bytes ∧
      ∀ next, (taken ((.recv sizeofSizeT, header) :: w) ++ next).drop
        (sizeofSizeT + order.decode header.bytes) = next

/-- `recv` asks for a header first and counts from there on. -/
def InFrame (order : Bytes.ByteOrder) (m : Prog (Bool × Str)) : Log → Prop
  | [] => m.pending = .calling (.recv sizeofSizeT)
  | (c, header) :: w => c = .recv sizeofSizeT ∧ Counts order header w m

theorem counts_receiving {dataLen : Nat} {data : Str}
    (hwhole : header.bytes.length = sizeofSizeT)
    (hsum : (taken w).length + dataLen = order.decode header.bytes) :
    Counts order header w (receiving dataLen data) := by
  have hread : SocketUtil.readLength order header.bytes < 2 ^ 64 :=
    SocketUtil.readLength_lt (Nat.le_of_eq hwhole)
  rw [readLength_of_whole hwhole] at hread
  by_cases hpos : 0 < dataLen
  · have hpending : (receiving dataLen data).pending =
        .calling (.recv (min dataLen maxBufLen)) := pending_receiving hpos
    refine ⟨?_, fun n cur heq => ?_, fun c _ => ⟨dataLen, data, rfl, hpos⟩, fun cur hdone => ?_⟩
    · rw [hpending]
      exact nofun
    · obtain rfl := receiving_inj heq
      exact ⟨hsum, bounds_receiving (by omega)⟩
    · rw [hpending] at hdone
      cases hdone
  · obtain rfl : dataLen = 0 := by omega
    have hlen : (taken ((.recv sizeofSizeT, header) :: w)).length =
        sizeofSizeT + order.decode header.bytes := by
      rw [taken_cons, List.length_append]
      omega
    refine ⟨nofun, fun n cur heq => ?_, fun c hc => ?_, fun _ _ => ⟨hlen, fun next => ?_⟩⟩
    · obtain rfl := receiving_inj heq
      exact ⟨hsum, bounds_receiving (Nat.two_pow_pos 64)⟩
    · rw [pending_receiving_zero] at hc
      cases hc
    · exact List.drop_left' hlen

theorem counts_failed (data : Str) : Counts order header w (.ret (false, data)) :=
  ⟨nofun, nofun, nofun, nofun⟩

theorem Stage.inFrame (h : Stage order out m w) (hdefined : m.pending ≠ .undefined)
    (hwhole : ∀ p ∈ w.head?, p.2.bytes.length = sizeofSizeT) : InFrame order m w := by
  cases h with
  | asking => rfl
  | head header w dataLen data _ hsum =>
    have hheader : header.bytes.length = sizeofSizeT := hwhole _ rfl
    rw [readLength_of_whole hheader] at hsum
    exact ⟨rfl, counts_receiving hheader hsum⟩
  | failed header w data => exact ⟨rfl, counts_failed data⟩
  | overrun header w => exact absurd rfl hdefined

theorem InFrame.defined (h : InFrame order m w) : m.pending ≠ .undefined := by
  cases w with
  | nil =>
    have hasks : m.pending = .calling (.recv sizeofSizeT) := h
    rw [hasks]
    exact nofun
  | cons p w => exact h.2.goes_on

/-- With a whole header, `recv` counts for as long as no piece fills its buffer without a
zero byte. -/
theorem framed_receive_counts_iff (order : Bytes.ByteOrder) (copy : Copy) (out : Str)
    (t : Config Log Unit Call Reply (Bool × Str)) (ht : (copy.recv order out).RunsTo Possible t)
    (hwhole : ∀ p ∈ t.world.head?, p.2.bytes.length = sizeofSizeT) :
    InFrame order (t.code ()) t.world ↔ TerminatedEach (SGXess.pieces t.world) := by
  rw [copy.recv_eq] at ht
  rw [← defined_iff ht triple_framed_scan]
  exact ⟨InFrame.defined, fun hdefined => (stage_of_runsTo ht).inFrame hdefined hwhole⟩

/-- A frame of one byte, to its end. -/
theorem one_byte_counted : ∃ t, (Copy.recv .little .client []).RunsTo Possible t ∧
    (t.code ()).pending = .returned (true, text "a") ∧ InFrame .little (t.code ()) t.world := by
  have hafter : (Copy.recv .little .client []).after Possible
      [⟨8, [1, 0, 0, 0, 0, 0, 0, 0]⟩, ⟨1, text "a"⟩] = some (.returned (true, text "a"),
        [(.recv 8, ⟨8, [1, 0, 0, 0, 0, 0, 0, 0]⟩), (.recv 1, ⟨1, text "a"⟩)]) := by decide +kernel
  obtain ⟨t, ht, hp, hw⟩ := Code.runsTo_of_after hafter
  refine ⟨t, ht, hp, (framed_receive_counts_iff .little .client [] t ht ?_).mpr ?_⟩
  · rw [hw]
    intro p hfirst
    cases hfirst
    rfl
  · rw [hw]
    unfold TerminatedEach
    decide

/-- A frame of 256 bytes, none of them zero, in one piece. -/
theorem full_piece_not_counted :
    ¬ ∀ order copy out (t : Config Log Unit Call Reply (Bool × Str)),
      (Copy.recv order copy out).RunsTo Possible t →
      (∀ p ∈ t.world.head?, p.2.bytes.length = sizeofSizeT) →
      InFrame order (t.code ()) t.world := by
  intro hall
  have hafter : (Copy.recv .little .client []).after Possible
      [⟨8, [0, 1, 0, 0, 0, 0, 0, 0]⟩, ⟨256, fullPiece⟩] = some (.undefined,
        [(.recv 8, ⟨8, [0, 1, 0, 0, 0, 0, 0, 0]⟩), (.recv 256, ⟨256, fullPiece⟩)]) := by
    decide +kernel
  obtain ⟨t, ht, hp, hw⟩ := Code.runsTo_of_after hafter
  refine (hall .little .client [] t ht fun p hfirst => ?_).defined hp
  rw [hw] at hfirst
  cases hfirst
  rfl

end Frames

end SGXess.Counting
