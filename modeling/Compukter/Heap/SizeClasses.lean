/-
Size classes and the bitmap scan.

A block size falls into an octave (its power of two) and one of eight steps inside it.  Free blocks are listed
by the class they fall into, ROUNDED DOWN; a request looks from its class ROUNDED UP.  Every block of every
class at or above that one is large enough (`request_fits`), so the head of any such list will do.
-/
import Compukter.Heap.Model

namespace Compukter

open Fallible Nat

/-- The step width inside octave `first`. -/
def stepWidth (first : Nat) : Nat :=
  if first ≥ 3 then max (1 <<< (first - 3)) blockAlignment else blockAlignment

/-- The class of a valid block size. -/
def sizeClass (n : Nat) : SizeClass := ⟨n.log2, (n - 2 ^ n.log2) / stepWidth n.log2⟩

/-- A size that a block can have. -/
structure ValidSize (n : Nat) : Prop where
  lo : 16 ≤ n
  aligned : n % 8 = 0
  hi : n < 2 ^ 32

theorem stepWidth_pos (first : Nat) : 0 < stepWidth first := by
  unfold stepWidth blockAlignment
  split <;> omega

/-- Eight steps cover the octave. -/
theorem two_pow_le_steps (first : Nat) : 2 ^ first ≤ 8 * stepWidth first := by
  unfold stepWidth blockAlignment
  split
  · rename_i h
    have hpow : 2 ^ first = 8 * 2 ^ (first - 3) := by
      rw [show (8 : Nat) = 2 ^ 3 from rfl, ← pow_add]
      congr 1
      omega
    omega
  · rename_i h
    have : 2 ^ first ≤ 2 ^ 3 := Nat.pow_le_pow_right (by decide) (by omega)
    omega

theorem second_lt (n : Nat) : (sizeClass n).second < 8 := by
  have hnext : n < 2 ^ (n.log2 + 1) := lt_log2_self
  have hsteps := two_pow_le_steps n.log2
  apply Nat.div_lt_of_lt_mul
  omega

namespace ValidSize

variable {n : Nat}

variable (h : ValidSize n)
include h

theorem log2_lt : n.log2 < 32 :=
  (Nat.log2_lt (by have := h.lo; omega)).mpr h.hi

theorem base_le : 2 ^ n.log2 ≤ n :=
  log2_self_le (by have := h.lo; omega)

theorem downwardClass_eq : downwardClass n = some (n.log2, (sizeClass n).second,
      2 ^ n.log2 + (sizeClass n).second * stepWidth n.log2) := by
  have hlog := h.log2_lt
  have hlo := h.lo
  have hal := h.aligned
  have hfirst : 31 - leadingZeros 32 n = n.log2 := by
    rw [leadingZeros, if_neg (by omega)]
    omega
  have hsecond := second_lt n
  unfold downwardClass
  rw [if_neg (by unfold minimumBlockBytes blockAlignment; omega)]
  simp only [hfirst, one_shiftLeft]
  unfold sizeClass stepWidth at hsecond ⊢
  simp only [one_shiftLeft] at hsecond ⊢
  rw [if_pos hsecond]

theorem freeSizeClass_eq : freeSizeClass n = some (sizeClass n) := by
  rw [freeSizeClass, h.downwardClass_eq]
  rfl

theorem classIndex_lt : classIndex (sizeClass n) < classCount := by
  have h1 := h.log2_lt
  have h2 := second_lt n
  have h3 : (sizeClass n).first = n.log2 := rfl
  unfold classIndex classCount
  omega

end ValidSize

/-- `c` lies at or above `d` in the order in which the bitmaps are scanned. -/
def SizeClass.AtLeast (c d : SizeClass) : Prop :=
  d.first < c.first ∨ (c.first = d.first ∧ d.second ≤ c.second)

variable {c : SizeClass}

/-- A block in a class at or above the rounded-up class of a request is large enough. -/
theorem request_fits {r n : Nat} (hr : ValidSize r) (hn : ValidSize n)
    (hc : requestSizeClass r = some c) (hat : (sizeClass n).AtLeast c) : r ≤ n := by
  have hr2 : r < 2 ^ (r.log2 + 1) := lt_log2_self
  have hn1 := hn.base_le
  have hwidth := stepWidth_pos r.log2
  have hn3 : 2 ^ n.log2 + (sizeClass n).second * stepWidth n.log2 ≤ n := by
    have := div_mul_le_self (n - 2 ^ n.log2) (stepWidth n.log2)
    change 2 ^ n.log2 + (n - 2 ^ n.log2) / stepWidth n.log2 * stepWidth n.log2 ≤ n
    omega
  have hr3 : r < 2 ^ r.log2 + ((sizeClass r).second + 1) * stepWidth r.log2 := by
    have h1 := div_add_mod (r - 2 ^ r.log2) (stepWidth r.log2)
    have h2 := mod_lt (r - 2 ^ r.log2) hwidth
    change r < 2 ^ r.log2 + ((r - 2 ^ r.log2) / stepWidth r.log2 + 1) * stepWidth r.log2
    rw [add_mul, one_mul, mul_comm _ (stepWidth r.log2)]
    omega
  -- in a higher octave every block is larger than the request
  have hup : r.log2 < n.log2 → r ≤ n := fun hlt => by
    have : 2 ^ (r.log2 + 1) ≤ 2 ^ n.log2 := Nat.pow_le_pow_right (by decide) hlt
    omega
  -- in the same octave a step at or above the request is enough
  have hsame : ∀ {s}, n.log2 = r.log2 ∧ s ≤ (sizeClass n).second → r ≤ 2 ^ r.log2 + s * stepWidth r.log2 → r ≤ n := by
    rintro s ⟨hat, hsec⟩ hle
    have hmul := mul_le_mul_right (stepWidth r.log2) hsec
    rw [hat] at hn3
    omega
  rw [requestSizeClass, hr.downwardClass_eq] at hc
  dsimp only at hc
  split at hc
  · split at hc
    · -- the request rounds up into the next octave
      split at hc
      · cases hc
        rcases hat with hat | ⟨hat, -⟩
        · exact hup (lt_of_succ_lt hat)
        · exact hup (lt_of_succ_le hat.ge)
      · cases hc
    · -- the request rounds up to the next step
      split at hc
      · cases hc
        exact hat.elim hup fun hat => hsame hat hr3.le
      · cases hc
  · -- the request is the lower bound of its class
    rename_i hexact
    split at hc
    · cases hc
      exact hat.elim hup fun hat => hsame hat (not_not.mp hexact).le
    · cases hc

theorem request_bounds {r : Nat} (hr : ValidSize r)
    (hc : requestSizeClass r = some c) : c.first < 32 ∧ c.second < 8 := by
  have hsecond := second_lt r
  rw [requestSizeClass, hr.downwardClass_eq] at hc
  dsimp only at hc
  split at hc
  · split at hc
    · split at hc
      · cases hc
        rename_i hlt
        exact ⟨hlt, by dsimp only; omega⟩
      · cases hc
    · split at hc
      · cases hc
        rename_i hne hlt
        exact ⟨hlt, by dsimp only; omega⟩
      · cases hc
  · split at hc
    · cases hc
      rename_i hlt
      exact ⟨hlt, hsecond⟩
    · cases hc

/-- Only a request in the topmost octave is too large for every class. -/
theorem two_pow_le_of_request_none {r : Nat} (hr : ValidSize r) (hc : requestSizeClass r = none) : 2 ^ 31 ≤ r := by
  have hlog : 31 ≤ r.log2 := by
    have hlt := hr.log2_lt
    by_contra hlow
    rw [requestSizeClass, hr.downwardClass_eq] at hc
    dsimp only at hc
    rw [if_pos] at hc
    · cases hc
    · split
      · split <;> dsimp only <;> omega
      · exact hlt
  exact (Nat.pow_le_pow_right (by decide) hlog).trans hr.base_le

/-- A class is determined by its index. -/
theorem classIndex_inj {d : SizeClass} (hc : c.second < 8) (hd : d.second < 8)
    (h : classIndex c = classIndex d) : c = d := by
  obtain ⟨f, s⟩ := c
  unfold classIndex at h
  dsimp only at h hc hd
  congr 1 <;> omega

/-- The lowest set bit of a nonzero word. -/
theorem trailingZeros_spec {w x : Nat} (hx : x ≠ 0) (hw : x < 2 ^ w) :
    trailingZeros w x < w ∧ x.testBit (trailingZeros w x) = true := by
  obtain ⟨i, hi⟩ := exists_testBit_of_ne_zero hx
  have hiw : i < w := by
    by_contra hge
    rw [Nat.testBit_lt_two_pow (lt_of_lt_of_le hw (Nat.pow_le_pow_right (by decide) (Nat.le_of_not_lt hge)))] at hi
    cases hi
  unfold trailingZeros
  cases hfind : (List.range w).find? (x.testBit ·) with
  | none =>
    rw [List.find?_eq_none] at hfind
    exact absurd hi (hfind i (List.mem_range.mpr hiw))
  | some =>
    exact ⟨List.mem_range.mp (List.mem_of_find?_eq_some hfind), List.find?_some hfind⟩

end Compukter
