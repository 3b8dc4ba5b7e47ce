/-
Numbers as little-endian byte lists of a fixed length.
-/
import Mathlib.Algebra.Order.Ring.Nat

namespace Compukter

/-- The low `count` bytes of a number. -/
def bytesLE : Nat → Nat → List UInt8
  | 0, _ => []
  | count + 1, n => UInt8.ofNat n :: bytesLE count (n / 256)

/-- The number that the bytes spell. -/
def ofBytesLE : List UInt8 → Nat
  | [] => 0
  | b :: bytes => b.toNat + 256 * ofBytesLE bytes

@[simp] theorem length_bytesLE (count n : Nat) : (bytesLE count n).length = count := by
  induction count generalizing n with
  | zero => rfl
  | succ _ ih => exact congrArg (· + 1) (ih (n / 256))

theorem ofBytesLE_bytesLE {count n : Nat} (h : n < 256 ^ count) : ofBytesLE (bytesLE count n) = n := by
  induction count generalizing n with
  | zero =>
    rw [Nat.pow_zero, Nat.lt_one_iff] at h
    exact h.symm
  | succ count ih =>
    have hrest : n / 256 < 256 ^ count := by
      rw [Nat.pow_succ] at h
      exact Nat.div_lt_of_lt_mul (by rwa [Nat.mul_comm] at h)
    show (UInt8.ofNat n).toNat + 256 * ofBytesLE (bytesLE count (n / 256)) = n
    rw [ih hrest, UInt8.toNat_ofNat']
    exact Nat.mod_add_div n 256

theorem bytesLE_ofBytesLE (bytes : List UInt8) : bytesLE bytes.length (ofBytesLE bytes) = bytes := by
  induction bytes with
  | nil => rfl
  | cons b bytes ih =>
    have hb := b.toNat_lt
    have hdiv : (b.toNat + 256 * ofBytesLE bytes) / 256 = ofBytesLE bytes := by omega
    have hhead : UInt8.ofNat (b.toNat + 256 * ofBytesLE bytes) = b := by
      apply UInt8.toNat_inj.mp
      rw [UInt8.toNat_ofNat']
      omega
    show UInt8.ofNat (b.toNat + 256 * ofBytesLE bytes) ::
      bytesLE bytes.length ((b.toNat + 256 * ofBytesLE bytes) / 256) = b :: bytes
    rw [hdiv, hhead, ih]

theorem ofBytesLE_lt (bytes : List UInt8) : ofBytesLE bytes < 256 ^ bytes.length := by
  induction bytes with
  | nil => exact Nat.one_pos
  | cons b bytes =>
    have hb := b.toNat_lt
    show b.toNat + 256 * ofBytesLE bytes < 256 ^ (bytes.length + 1)
    omega

end Compukter
