import Mathlib.Data.Nat.Digits.Defs

/-!
# Unsigned words in memory

A word of `k` bytes as either byte order lays it out. Reading a word of which only the
first bytes were written, the rest being zero, never gives more than the whole word, and
gives the whole word only if the missing bytes are zero too.
-/

namespace Bytes

set_option autoImplicit false

inductive ByteOrder where
  | little
  | big
  deriving DecidableEq

/-- The `k` lowest bytes of `n`, lowest first. -/
def lowBytes : Nat → Nat → List UInt8
  | 0, _ => []
  | k + 1, n => UInt8.ofNat n :: lowBytes k (n / 256)

/-- The number whose bytes are given lowest first. -/
def value (bytes : List UInt8) : Nat := Nat.ofDigits 256 (bytes.map UInt8.toNat)

namespace ByteOrder

def encode : ByteOrder → Nat → Nat → List UInt8
  | little, k, n => lowBytes k n
  | big, k, n => (lowBytes k n).reverse

def decode : ByteOrder → List UInt8 → Nat
  | little, bytes => value bytes
  | big, bytes => value bytes.reverse

end ByteOrder

@[simp] theorem lowBytes_length (k n : Nat) : (lowBytes k n).length = k := by
  induction k generalizing n with
  | zero => rfl
  | succ k ih => simp [lowBytes, ih]

@[simp] theorem value_nil : value [] = 0 := rfl

@[simp] theorem value_cons (b : UInt8) (bytes : List UInt8) :
    value (b :: bytes) = b.toNat + 256 * value bytes := rfl

theorem value_append (xs ys : List UInt8) :
    value (xs ++ ys) = value xs + 256 ^ xs.length * value ys := by
  simp [value, Nat.ofDigits_append]

@[simp] theorem value_zeros (k : Nat) : value (List.replicate k 0) = 0 := by
  simp [value]

theorem value_eq_zero_iff (xs : List UInt8) :
    value xs = 0 ↔ xs = List.replicate xs.length 0 := by
  induction xs with
  | nil => simp
  | cons x xs ih =>
    have hx : x.toNat = 0 ↔ x = 0 := UInt8.toNat_inj (b := 0)
    simp only [value_cons, List.length_cons, List.replicate_succ, List.cons.injEq, ← ih, ← hx]
    omega

theorem value_lt (xs : List UInt8) : value xs < 256 ^ xs.length := by
  have h := Nat.ofDigits_lt_base_pow_length (b := 256) (l := xs.map UInt8.toNat) (by omega)
    (by
      intro x hx
      obtain ⟨b, _, rfl⟩ := List.mem_map.mp hx
      exact b.toNat_lt)
  simpa [value] using h

theorem value_lowBytes (k n : Nat) : value (lowBytes k n) = n % 256 ^ k := by
  induction k generalizing n with
  | zero => simp [lowBytes, Nat.mod_one]
  | succ k ih =>
    have hn : (UInt8.ofNat n).toNat = n % 256 := by simp
    rw [lowBytes, value_cons, ih, hn, Nat.pow_succ', Nat.mod_mul]

namespace ByteOrder

variable (o : ByteOrder)

@[simp] theorem encode_length (k n : Nat) : (o.encode k n).length = k := by
  cases o <;> simp [encode]

theorem decode_encode {k n : Nat} (h : n < 256 ^ k) : o.decode (o.encode k n) = n := by
  cases o <;> simp [encode, decode, value_lowBytes, Nat.mod_eq_of_lt h]

theorem decode_lt (bytes : List UInt8) : o.decode bytes < 256 ^ bytes.length := by
  cases o with
  | little => exact value_lt bytes
  | big => simpa [decode] using value_lt bytes.reverse

/-- The value lost when the last bytes of a word are read as zero. -/
theorem decode_append (xs ys : List UInt8) :
    ∃ d, o.decode (xs ++ ys) = o.decode (xs ++ List.replicate ys.length 0) + d ∧
      (d = 0 ↔ ys = List.replicate ys.length 0) := by
  cases o with
  | little =>
    refine ⟨256 ^ xs.length * value ys, by simp [decode, value_append], ?_⟩
    rw [Nat.mul_eq_zero, value_eq_zero_iff]
    simp
  | big =>
    refine ⟨value ys.reverse, by simp [decode, value_append, Nat.add_comm], ?_⟩
    rw [value_eq_zero_iff, List.length_reverse, List.reverse_eq_iff, List.reverse_replicate]

theorem decode_partial_le (xs ys : List UInt8) :
    o.decode (xs ++ List.replicate ys.length 0) ≤ o.decode (xs ++ ys) := by
  obtain ⟨d, hd, _⟩ := o.decode_append xs ys
  omega

theorem decode_partial_eq_iff (xs ys : List UInt8) :
    o.decode (xs ++ List.replicate ys.length 0) = o.decode (xs ++ ys) ↔
      ys = List.replicate ys.length 0 := by
  obtain ⟨d, hd, hz⟩ := o.decode_append xs ys
  rw [← hz]
  omega

end ByteOrder

end Bytes
