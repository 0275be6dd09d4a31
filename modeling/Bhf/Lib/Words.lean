import Bhf.Lib.Spans
import Mathlib.Algebra.Order.Group.Nat
import Mathlib.Algebra.Ring.Nat

/-!
# Machine words

The conversions `to_le_bytes`, `to_be_bytes`, `from_le_bytes` and `from_be_bytes` of a fixed-width
unsigned integer, at any width. Both orders are read off one little-endian digit expansion: the
big-endian bytes are its reversal, so every law is proved once for `leBytes` and `leValue` and
carried over by `List.reverse`.

The round trip needs the value to fit (`ByteOrder.value_bytes`); the other direction needs nothing
(`ByteOrder.bytes_value`), since a byte string of length `n` always denotes a number below `256 ^ n`
(`ByteOrder.value_lt`).

`saturating_add` and `saturating_mul` stop at the largest word, and `saturating_sub` at zero,
instead of wrapping. Everything that is used about them is their value as a number.
-/

namespace Bhf

/-- The order in which the bytes of a multi-byte word are laid out. -/
inductive ByteOrder
  | big
  | little
  deriving DecidableEq

/-- The `n` low bytes of `x`, least significant first. -/
def leBytes : ℕ → ℕ → Bytes
  | 0, _ => []
  | n + 1, x => UInt8.ofNat x :: leBytes n (x / 256)

/-- The number denoted by a byte string, least significant byte first. -/
def leValue : Bytes → ℕ
  | [] => 0
  | b :: bs => b.toNat + 256 * leValue bs

@[simp]
theorem length_leBytes (n x : ℕ) : (leBytes n x).length = n := by
  induction n generalizing x with
  | zero => rfl
  | succ n ih => simp [leBytes, ih]

theorem leValue_leBytes {n x : ℕ} (hx : x < 256 ^ n) : leValue (leBytes n x) = x := by
  induction n generalizing x with
  | zero =>
    have : x = 0 := by simpa using hx
    simp [leBytes, leValue, this]
  | succ n ih =>
    have hdiv : x / 256 < 256 ^ n :=
      Nat.div_lt_of_lt_mul (by rw [Nat.pow_succ] at hx; omega)
    rw [leBytes, leValue, ih hdiv, UInt8.toNat_ofNat']
    exact Nat.mod_add_div x 256

theorem leValue_lt (bs : Bytes) : leValue bs < 256 ^ bs.length := by
  induction bs with
  | nil => simp [leValue]
  | cons b bs ih =>
    have hb : b.toNat < 256 := b.toNat_lt
    rw [leValue, List.length_cons, Nat.pow_succ]
    omega

theorem leBytes_leValue (bs : Bytes) : leBytes bs.length (leValue bs) = bs := by
  induction bs with
  | nil => rfl
  | cons b bs ih =>
    have hdiv : (b.toNat + 256 * leValue bs) / 256 = leValue bs := by
      have := b.toNat_lt
      omega
    have hbyte : UInt8.ofNat (b.toNat + 256 * leValue bs) = b := by
      simp
    rw [leValue, List.length_cons, leBytes, hdiv, hbyte, ih]

namespace ByteOrder

/-- The `n` low bytes of `x` in the given order. -/
def bytes (o : ByteOrder) (n x : ℕ) : Bytes :=
  match o with
  | big => (leBytes n x).reverse
  | little => leBytes n x

/-- The number a byte string denotes in the given order. -/
def value (o : ByteOrder) (bs : Bytes) : ℕ :=
  match o with
  | big => leValue bs.reverse
  | little => leValue bs

@[simp]
theorem length_bytes (o : ByteOrder) (n x : ℕ) : (o.bytes n x).length = n := by
  cases o <;> simp [bytes]

/-- A number that fits in `n` bytes is the number its bytes denote. -/
theorem value_bytes (o : ByteOrder) {n x : ℕ} (hx : x < 256 ^ n) : o.value (o.bytes n x) = x := by
  cases o <;> simp [value, bytes, leValue_leBytes hx]

/-- A byte string is the bytes of the number it denotes. -/
theorem bytes_value (o : ByteOrder) (bs : Bytes) : o.bytes bs.length (o.value bs) = bs := by
  cases o with
  | big =>
    have h := leBytes_leValue bs.reverse
    rw [List.length_reverse] at h
    rw [bytes, value, h, List.reverse_reverse]
  | little => exact leBytes_leValue bs

theorem value_lt (o : ByteOrder) (bs : Bytes) : o.value bs < 256 ^ bs.length := by
  cases o with
  | big => simpa [value] using leValue_lt bs.reverse
  | little => exact leValue_lt bs

/-! ### The widths in use -/

theorem ofNat_value_bytes_u16 (o : ByteOrder) (v : UInt16) :
    UInt16.ofNat (o.value (o.bytes 2 v.toNat)) = v := by
  rw [o.value_bytes v.toNat_lt, UInt16.ofNat_toNat]

theorem ofNat_value_bytes_u32 (o : ByteOrder) (v : UInt32) :
    UInt32.ofNat (o.value (o.bytes 4 v.toNat)) = v := by
  rw [o.value_bytes v.toNat_lt, UInt32.ofNat_toNat]

theorem ofNat_value_bytes_u64 (o : ByteOrder) (v : UInt64) :
    UInt64.ofNat (o.value (o.bytes 8 v.toNat)) = v := by
  rw [o.value_bytes v.toNat_lt, UInt64.ofNat_toNat]

end ByteOrder

/-- A size as a `u32` field, if it fits. -/
def u32TryFrom (n : ℕ) : Option UInt32 :=
  if n < 2 ^ 32 then some (UInt32.ofNat n) else none

/-- A size that fits its field is the value of that field. -/
theorem toNat_of_u32TryFrom {n : ℕ} {len : UInt32} (h : u32TryFrom n = some len) :
    len.toNat = n := by
  rw [u32TryFrom] at h
  split at h
  · rename_i hlt
    rw [← Option.some.inj h, UInt32.toNat_ofNat_of_lt' hlt]
  · simp at h

/-! ### Saturating arithmetic -/

def saturatingAdd32 (a b : UInt32) : UInt32 :=
  UInt32.ofNat (min (a.toNat + b.toNat) (2 ^ 32 - 1))

def saturatingMul32 (a b : UInt32) : UInt32 :=
  UInt32.ofNat (min (a.toNat * b.toNat) (2 ^ 32 - 1))

def saturatingAdd64 (a b : UInt64) : UInt64 :=
  UInt64.ofNat (min (a.toNat + b.toNat) (2 ^ 64 - 1))

def saturatingMul64 (a b : UInt64) : UInt64 :=
  UInt64.ofNat (min (a.toNat * b.toNat) (2 ^ 64 - 1))

def saturatingSub32 (a b : UInt32) : UInt32 :=
  UInt32.ofNat (a.toNat - b.toNat)

theorem toNat_saturatingAdd32 (a b : UInt32) :
    (saturatingAdd32 a b).toNat = min (a.toNat + b.toNat) (2 ^ 32 - 1) :=
  UInt32.toNat_ofNat_of_lt' (lt_of_le_of_lt (min_le_right _ _) (by decide))

@[simp] theorem saturatingAdd32_zero (a : UInt32) : saturatingAdd32 a 0 = a := by
  refine UInt32.toNat_inj.mp ?_
  rw [toNat_saturatingAdd32]
  exact min_eq_left (Nat.le_sub_one_of_lt a.toNat_lt)

theorem toNat_saturatingSub32 (a b : UInt32) : (saturatingSub32 a b).toNat = a.toNat - b.toNat :=
  UInt32.toNat_ofNat_of_lt' (lt_of_le_of_lt (Nat.sub_le _ _) a.toNat_lt)

theorem toNat_saturatingAdd64 (a b : UInt64) :
    (saturatingAdd64 a b).toNat = min (a.toNat + b.toNat) (2 ^ 64 - 1) :=
  UInt64.toNat_ofNat_of_lt' (lt_of_le_of_lt (min_le_right _ _) (by decide))

theorem toNat_saturatingMul64 (a b : UInt64) :
    (saturatingMul64 a b).toNat = min (a.toNat * b.toNat) (2 ^ 64 - 1) :=
  UInt64.toNat_ofNat_of_lt' (lt_of_le_of_lt (min_le_right _ _) (by decide))

end Bhf
