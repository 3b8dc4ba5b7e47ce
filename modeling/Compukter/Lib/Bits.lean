/-
Bit fields inside a machine word.

A packed word keeps several numbers side by side.  `field` reads the bits `[lo, lo + w)` and `setField`
replaces them, exactly as the usual shift / mask / complement expression does.

A field is determined by its bits (`testBit_field`), so every law below is one extensionality step followed
by a case split on where a bit index falls: a field that was just written reads back, a DISJOINT one does
not change, and the fields of a word built by shifting and or-ing are its parts.
-/
import Mathlib.Data.Nat.Bitwise

namespace Compukter.Bits

open Nat

/-- The all-ones word of `w` bits. -/
def ones (w : Nat) : Nat := 2 ^ w - 1

/-- The complement of `x` inside a word of `W` bits. -/
def complement (W x : Nat) : Nat := ones W ^^^ x

/-- The field of `w` bits that starts at bit `lo`. -/
def field (word lo w : Nat) : Nat := (word >>> lo) &&& ones w

/-- Replace the field of `w` bits at `lo` in a word of `W` bits. -/
def setField (W word lo w value : Nat) : Nat :=
  (word &&& complement W (ones w <<< lo)) ||| (value <<< lo)

@[simp] theorem testBit_ones (w i : Nat) : (ones w).testBit i = decide (i < w) := by
  simp [ones, testBit_two_pow_sub_one]

@[simp] theorem testBit_complement (W x i : Nat) : (complement W x).testBit i = (decide (i < W) ^^ x.testBit i) := by
  simp [complement, testBit_xor]

theorem testBit_field (word lo w i : Nat) :
    (field word lo w).testBit i = (decide (i < w) && word.testBit (lo + i)) := by
  simp [field, testBit_shiftRight, Bool.and_comm]

theorem testBit_setField (W word lo w value i : Nat) : (setField W word lo w value).testBit i =
      ((word.testBit i && (decide (i < W) ^^ (decide (lo ≤ i) && decide (i - lo < w)))) ||
        (decide (lo ≤ i) && value.testBit (i - lo))) := by
  simp [setField, testBit_shiftLeft]

/-- Bits at or above the size bound of a number are zero. -/
theorem testBit_of_lt {x w i : Nat} (hx : x < 2 ^ w) (hi : w ≤ i) : x.testBit i = false :=
  Nat.testBit_lt_two_pow (lt_of_lt_of_le hx (Nat.pow_le_pow_right (by decide) hi))

theorem field_lt (word lo w : Nat) : field word lo w < 2 ^ w := by
  apply lt_of_le_of_lt and_le_right
  exact Nat.sub_lt (Nat.two_pow_pos w) Nat.one_pos

theorem field_eq_div_mod (word lo w : Nat) : field word lo w = word / 2 ^ lo % 2 ^ w := by
  rw [field, ones, and_two_pow_sub_one_eq_mod, shiftRight_eq_div_pow]

/-- The top field of a word needs no mask. -/
theorem field_top {word lo w : Nat} (hw : word < 2 ^ (lo + w)) : field word lo w = word >>> lo := by
  rw [field_eq_div_mod, shiftRight_eq_div_pow]
  apply Nat.mod_eq_of_lt
  apply Nat.div_lt_of_lt_mul
  rwa [← Nat.pow_add]

theorem field_setField_same {W word lo w value : Nat} (hW : lo + w ≤ W) (hv : value < 2 ^ w) :
    field (setField W word lo w value) lo w = value := by
  apply eq_of_testBit_eq
  intro i
  rw [testBit_field, testBit_setField]
  by_cases hi : i < w
  · have hlt : lo + i < W := by omega
    simp [hi, hlt]
  · simp [hi, testBit_of_lt hv (Nat.le_of_not_lt hi)]

theorem field_setField_other {W word lo w value lo' w' : Nat} (hv : value < 2 ^ w)
    (hW : lo' + w' ≤ W) (hd : lo' + w' ≤ lo ∨ lo + w ≤ lo') :
    field (setField W word lo w value) lo' w' = field word lo' w' := by
  apply eq_of_testBit_eq
  intro i
  rw [testBit_field, testBit_field, testBit_setField]
  by_cases hi : i < w'
  · have hlt : lo' + i < W := by omega
    rcases hd with hd | hd
    · have h1 : ¬ lo ≤ lo' + i := by omega
      simp [hi, hlt, h1]
    · have h1 : ¬ lo' + i - lo < w := by omega
      have h2 : value.testBit (lo' + i - lo) = false := testBit_of_lt hv (by omega)
      simp [hi, hlt, h1, h2]
  · simp [hi]

theorem setField_lt {W word : Nat} (lo w value : Nat) (hword : word < 2 ^ W) (hW : lo + w ≤ W)
    (hv : value < 2 ^ w) : setField W word lo w value < 2 ^ W := by
  apply or_lt_two_pow
  · exact lt_of_le_of_lt and_le_left hword
  · rw [Nat.shiftLeft_eq]
    calc value * 2 ^ lo < 2 ^ w * 2 ^ lo := Nat.mul_lt_mul_of_pos_right hv (Nat.two_pow_pos lo)
      _ = 2 ^ (lo + w) := by rw [← Nat.pow_add, add_comm]
      _ ≤ 2 ^ W := Nat.pow_le_pow_right (by decide) hW

/-! ## Words packed by shifting and or-ing -/

theorem field_or (x y lo w : Nat) : field (x ||| y) lo w = field x lo w ||| field y lo w := by
  apply eq_of_testBit_eq
  intro i
  simp only [testBit_field, testBit_or]
  cases decide (i < w) <;> simp

theorem field_shiftLeft_same {v lo w : Nat} (hv : v < 2 ^ w) : field (v <<< lo) lo w = v := by
  rw [field_eq_div_mod, Nat.shiftLeft_eq, Nat.mul_div_cancel _ (Nat.two_pow_pos lo)]
  exact Nat.mod_eq_of_lt hv

theorem field_shiftLeft_above {v s lo w : Nat} (h : lo + w ≤ s) : field (v <<< s) lo w = 0 := by
  apply eq_of_testBit_eq
  intro i
  rw [testBit_field, testBit_shiftLeft, zero_testBit]
  by_cases hi : i < w
  · have h1 : ¬ s ≤ lo + i := by omega
    simp [h1]
  · simp [hi]

theorem field_shiftLeft_below {v k s lo w : Nat} (hv : v < 2 ^ k) (h : s + k ≤ lo) : field (v <<< s) lo w = 0 := by
  apply eq_of_testBit_eq
  intro i
  rw [testBit_field, testBit_shiftLeft, zero_testBit, testBit_of_lt hv (show k ≤ lo + i - s by omega)]
  simp

/-- A number below `2 ^ lo` has nothing in a field that starts at `lo`. -/
theorem field_of_lt {x k w : Nat} (hx : x < 2 ^ k) : field x k w = 0 := by
  rw [field_eq_div_mod, div_eq_of_lt hx, zero_mod]

theorem field_zero_of_lt {x w : Nat} (hx : x < 2 ^ w) : field x 0 w = x := by
  rw [field_eq_div_mod, Nat.pow_zero, Nat.div_one, Nat.mod_eq_of_lt hx]

/-! ## Aligned sizes with flags in their low bits -/

/-- Masking away the low `k` bits of a word rounds it down to a multiple of `2 ^ k`. -/
theorem and_complement_ones {W x k : Nat} (hx : x < 2 ^ W) (hk : k ≤ W) :
    x &&& complement W (ones k) = x / 2 ^ k * 2 ^ k := by
  rw [← Nat.shiftLeft_eq, ← shiftRight_eq_div_pow]
  apply eq_of_testBit_eq
  intro i
  by_cases hi : i < W
  · by_cases hik : i < k
    · have h1 : ¬ k ≤ i := by omega
      simp [hi, hik, h1]
    · have h1 : k ≤ i := by omega
      have h2 : k + (i - k) = i := by omega
      simp [hi, hik, h1, h2]
  · have h2 : k + (i - k) = i := by omega
    simp [h2, testBit_of_lt hx (Nat.le_of_not_lt hi)]

/-- Or-ing flags into the free low bits of an aligned number adds them. -/
theorem or_eq_add_of_dvd {x f k : Nat} (hx : 2 ^ k ∣ x) (hf : f < 2 ^ k) : x ||| f = x + f := by
  obtain ⟨q, rfl⟩ := hx
  exact (two_pow_add_eq_or_of_lt hf q).symm

end Compukter.Bits
