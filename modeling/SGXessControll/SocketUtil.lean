import SGXessControll.TLSClient
import SGXessControll.Bytes.Word

/-!
# Framed messages on plain sockets

`SocketUtil.cpp` of the Deployer, the Proxy and the Client: an eight byte length in the
byte order of the machine, then the data. The Admin tool sends the same frames.
-/

namespace SGXess

set_option autoImplicit false

open Calls (Code Setting)

def maxBufLen : Nat := 256

/-- `sizeof(size_t)`. -/
def sizeofSizeT : Nat := 8

/-- `a - b` on `size_t`. -/
def subSizeT (a b : Nat) : Nat := (a + 2 ^ 64 - b) % 2 ^ 64

theorem subSizeT_of_le {a b : Nat} (hb : b ≤ a) (ha : a < 2 ^ 64) : subSizeT a b = a - b := by
  unfold subSizeT
  omega

namespace SocketUtil

variable (order : Bytes.ByteOrder)

/-- The length variable, zero at first, after `bytes` arrived at its address. -/
def readLength (bytes : Str) : Nat :=
  order.decode (bytes ++ List.replicate (sizeofSizeT - bytes.length) 0)

/-- One test of `while (dataLen > 0)` and the round behind it. -/
def recvRound : Nat × Str → Prog ((Nat × Str) ⊕ (Bool × Str))
  | (dataLen, data) => do
    if dataLen > 0 then
      let reply ← Code.ask (.recv (if dataLen > maxBufLen then maxBufLen else dataLen))
      if reply.ret < 0 then
        return .inr (false, data)
      let data ← appendBuffer maxBufLen data reply.bytes
      return .inl (subSizeT dataLen reply.ret.toNat, data)
    else
      return .inr (true, data)

theorem asked_eq {n : Nat} : (if n > maxBufLen then maxBufLen else n) = min n maxBufLen := by
  split <;> omega

theorem asked_pos {n : Nat} (hn : 0 < n) : 0 < min n maxBufLen := by
  unfold maxBufLen
  omega

theorem recvRound_waits (b b' : Nat × Str) :
    (recvRound b).pending ≠ .returned (.inl b') := by
  obtain ⟨n, cur⟩ := b
  simp only [recvRound, Code.bind_eq, Code.pure_eq]
  split <;> simp [Code.ask, Code.bind, Code.pending]

def recv (data : Str) : Prog (Bool × Str) := do
  -- What it returns is not looked at.
  let reply ← Code.ask (.recv sizeofSizeT)
  let dataLen := readLength order reply.bytes
  Code.loop (dataLen, data) recvRound Code.ret

def send (data : Str) : Prog Bool := do
  let dataLen := data.length
  let sendLen ← int (.send (order.encode sizeofSizeT dataLen))
  if 0 > sendLen then
    return false
  let sendLen ← int (.send data)
  if 0 > sendLen then
    return false
  return true

variable {order} in
theorem readLength_lt {bytes : Str} (h : bytes.length ≤ sizeofSizeT) :
    readLength order bytes < 2 ^ 64 := by
  have hlt := order.decode_lt (bytes ++ List.replicate (sizeofSizeT - bytes.length) 0)
  rw [List.length_append, List.length_replicate, Nat.add_sub_cancel' h] at hlt
  exact hlt

section Rules

variable {order} {W : Type} {S : Setting W Call Reply} {J : Nat × Str → W → Prop}
variable {Θ : Bool × Str → W → Prop}

/-- `B` holds of what one `::recv` of the data returned. -/
theorem triple_recvRound {B : Reply → W → Prop} {n : Nat} {cur : Str} (hJ : ∀ b, S.Stable (J b))
    (hB : ∀ r, S.Stable (B r))
    (hask : 0 < n → S.Triple (J (n, cur)) (Code.ask (.recv (min n maxBufLen))) B)
    (hfailed : ∀ r w, r.ret < 0 → B r w → Θ (false, cur) w)
    (hfound : ∀ r s w, 0 ≤ r.ret → B r w →
      Bytes.untilFirst 0 (Bytes.intoArray 0 maxBufLen r.bytes) = some s →
      J (subSizeT n r.ret.toNat, cur ++ s) w)
    (hoverrun : ∀ r w, 0 ≤ r.ret → B r w →
      Bytes.untilFirst 0 (Bytes.intoArray 0 maxBufLen r.bytes) = none → S.fault w)
    (hdone : ∀ w, J (0, cur) w → Θ (true, cur) w) :
    S.Triple (J (n, cur)) (recvRound (n, cur)) (Setting.Round J Θ) := by
  simp only [recvRound, Code.bind_eq, Code.pure_eq]
  by_cases hn : n > 0
  · rw [if_pos hn, asked_eq]
    refine Setting.triple_bind (hask hn) fun r => ?_
    by_cases hneg : r.ret < 0
    · rw [if_pos hneg]
      exact Setting.triple_ret (hB r) fun w hw => hfailed r w hneg hw
    · rw [if_neg hneg]
      have hret : 0 ≤ r.ret := by omega
      refine Setting.triple_bind (triple_appendBuffer
        (B := fun s => J (subSizeT n r.ret.toNat, s)) (hB r) (fun _ => hJ _) ?_ ?_)
        fun s => Setting.triple_ret (hJ _) fun _ h => h
      · exact fun s w hw hs => hfound r s w hret hw hs
      · exact fun hs w hw => hoverrun r w hret hw hs
  · rw [if_neg hn]
    obtain rfl : n = 0 := by omega
    exact Setting.triple_ret (hJ _) hdone

theorem triple_recv {A : W → Prop} {out : Str} (hΘ : ∀ res, S.Stable (Θ res))
    (hlen : S.Triple A (Code.ask (.recv sizeofSizeT))
      (fun r => J (readLength order r.bytes, out)))
    (hround : ∀ n cur, S.Triple (J (n, cur)) (recvRound (n, cur)) (Setting.Round J Θ)) :
    S.Triple A (recv order out) Θ :=
  Setting.triple_bind hlen fun _ => Setting.triple_loop (fun b => hround b.1 b.2) recvRound_waits
    fun res => Setting.triple_ret (hΘ res) fun _ h => h

end Rules

end SocketUtil

namespace SocketUtil

/-- `data.append(buffer)` for an array in any state. -/
def appendArray (data array : Str) : Prog Str :=
  match Bytes.untilFirst 0 array with
  | some s => return data ++ s
  | none => .undefined

/-- A round of the receive loop without a length: the buffer is zeroed once, in front of the
loop, and keeps what a shorter piece does not cover. -/
def unframedRound : Str × Str → Prog ((Str × Str) ⊕ (Bool × Str)) := fun (buffer, data) => do
  let reply ← Code.ask (.recv maxBufLen)
  if 0 > reply.ret then
    return .inr (false, data)
  let buffer := Bytes.overwrite buffer reply.bytes
  let data ← appendArray data buffer
  if (maxBufLen : Int) > reply.ret then
    return .inr (true, data)
  return .inl (buffer, data)

/-- `recv` of the Admin tool and the Controller. -/
def unframedRecv (data : Str) : Prog (Bool × Str) :=
  Code.loop (List.replicate maxBufLen 0, data) unframedRound Code.ret

def unframedSend (data : Str) : Prog Bool := do
  let sendLen ← int (.send data)
  if 0 > sendLen then
    return false
  return true

section Unframed

variable {W : Type} {S : Setting W Call Reply} {J : Str × Str → W → Prop}
variable {Θ : Bool × Str → W → Prop} {buffer data : Str}

theorem unframedRound_waits (b b' : Str × Str) :
    (unframedRound b).pending ≠ .returned (.inl b') := nofun

theorem triple_appendArray {A : W → Prop} {B : Str → W → Prop} {array : Str} (hA : S.Stable A)
    (hB : ∀ s, S.Stable (B s))
    (found : ∀ s w, A w → Bytes.untilFirst 0 array = some s → B (data ++ s) w)
    (missing : Bytes.untilFirst 0 array = none → ∀ w, A w → S.fault w) :
    S.Triple A (appendArray data array) B := by
  unfold appendArray
  split
  · rename_i s hs
    exact (Setting.triple_ret (hB _) fun _ h => h).pre fun w hw => found s w hw hs
  · rename_i hs
    exact Setting.triple_undefined hA (missing hs)

/-- `B` holds of what the `::recv` of the round returned. -/
theorem triple_unframedRound {B : Reply → W → Prop} (hJ : ∀ b, S.Stable (J b))
    (hΘ : ∀ res, S.Stable (Θ res)) (hB : ∀ r, S.Stable (B r))
    (hask : S.Triple (J (buffer, data)) (Code.ask (.recv maxBufLen)) B)
    (hfailed : ∀ r w, r.ret < 0 → B r w → Θ (false, data) w)
    (hlast : ∀ r s w, 0 ≤ r.ret → (maxBufLen : Int) > r.ret → B r w →
      Bytes.untilFirst 0 (Bytes.overwrite buffer r.bytes) = some s → Θ (true, data ++ s) w)
    (hfull : ∀ r s w, 0 ≤ r.ret → ¬ (maxBufLen : Int) > r.ret → B r w →
      Bytes.untilFirst 0 (Bytes.overwrite buffer r.bytes) = some s →
      J (Bytes.overwrite buffer r.bytes, data ++ s) w)
    (hoverrun : ∀ r w, 0 ≤ r.ret → B r w →
      Bytes.untilFirst 0 (Bytes.overwrite buffer r.bytes) = none → S.fault w) :
    S.Triple (J (buffer, data)) (unframedRound (buffer, data)) (Setting.Round J Θ) := by
  refine Setting.triple_bind hask fun r => ?_
  by_cases hneg : 0 > r.ret
  · rw [if_pos hneg]
    exact Setting.triple_ret (hB r) fun w hw => hfailed r w hneg hw
  · have hret : 0 ≤ r.ret := by omega
    simp only [if_neg hneg]
    by_cases hshort : (maxBufLen : Int) > r.ret
    · simp only [if_pos hshort]
      refine Setting.triple_bind (triple_appendArray (B := fun s => Θ (true, s)) (hB r)
        (fun _ => hΘ _) ?_ ?_) fun s => Setting.triple_ret (hΘ _) fun _ h => h
      · exact fun s w hw hs => hlast r s w hret hshort hw hs
      · exact fun hs w hw => hoverrun r w hret hw hs
    · simp only [if_neg hshort]
      refine Setting.triple_bind (triple_appendArray
        (B := fun s => J (Bytes.overwrite buffer r.bytes, s)) (hB r)
        (fun _ => hJ _) ?_ ?_) fun s => Setting.triple_ret (hJ _) fun _ h => h
      · exact fun s w hw hs => hfull r s w hret hshort hw hs
      · exact fun hs w hw => hoverrun r w hret hw hs

theorem triple_unframedRecv (hΘ : ∀ res, S.Stable (Θ res))
    (hround : ∀ buffer data,
      S.Triple (J (buffer, data)) (unframedRound (buffer, data)) (Setting.Round J Θ)) :
    S.Triple (J (List.replicate maxBufLen 0, data)) (unframedRecv data) Θ :=
  Setting.triple_loop (fun b => hround b.1 b.2) unframedRound_waits
    fun res => Setting.triple_ret (hΘ res) fun _ h => h

end Unframed

end SocketUtil

namespace Controller.SocketUtil

def recv (data : Str) : Prog (Bool × Str) := SGXess.SocketUtil.unframedRecv data

def send (data : Str) : Prog Bool := SGXess.SocketUtil.unframedSend data

end Controller.SocketUtil

namespace Admin.SocketUtil

/-- Not the reverse of `send`, which writes a length. -/
def recv (data : Str) : Prog (Bool × Str) := SGXess.SocketUtil.unframedRecv data

def send (order : Bytes.ByteOrder) (data : Str) : Prog Bool := SGXess.SocketUtil.send order data

end Admin.SocketUtil

namespace Deployer.SocketUtil

def recv (order : Bytes.ByteOrder) (data : Str) : Prog (Bool × Str) :=
  SGXess.SocketUtil.recv order data

def send (order : Bytes.ByteOrder) (data : Str) : Prog Bool := SGXess.SocketUtil.send order data

end Deployer.SocketUtil

namespace Proxy.SocketUtil

def recv (order : Bytes.ByteOrder) (data : Str) : Prog (Bool × Str) :=
  SGXess.SocketUtil.recv order data

def send (order : Bytes.ByteOrder) (data : Str) : Prog Bool := SGXess.SocketUtil.send order data

end Proxy.SocketUtil

namespace Client.SocketUtil

def recv (order : Bytes.ByteOrder) (data : Str) : Prog (Bool × Str) :=
  SGXess.SocketUtil.recv order data

def send (order : Bytes.ByteOrder) (data : Str) : Prog Bool := SGXess.SocketUtil.send order data

end Client.SocketUtil

end SGXess
