/-
A two-level bitmap index.

A table of `W` rows and `V` columns is summarised by one row word of `V` bits per row and one
word of `W` bits over the rows.  `Agrees first second N` says that the words are exact: the bit of
a cell is set exactly when the cell is occupied (`N f s`), and the bit of a row exactly when some
cell of the row is.  A row bit may only be cleared when the row word became zero (`Agrees.clear`).
-/
import Compukter.Lib.Bits

namespace Compukter.Bitmap

open Bits Nat Function

/-- The two levels say exactly which cells are occupied. -/
structure Agrees (W V first : Nat) (second : Nat → Nat) (N : Nat → Nat → Prop) : Prop where
  cell : ∀ f s, f < W → s < V → ((second f).testBit s = true ↔ N f s)
  cellLt : ∀ f, f < W → second f < 2 ^ V
  row : ∀ f, f < W → (first.testBit f = true ↔ ∃ s, s < V ∧ N f s)
  rowLt : first < 2 ^ W

variable {W V first : Nat} {second : Nat → Nat} {N M : Nat → Nat → Prop} {i j : Nat}

theorem testBit_one_shiftLeft (k n : Nat) : (1 <<< k).testBit n = decide (k = n) := by
  rw [one_shiftLeft, testBit_two_pow]

/-- Setting the bits of some elements of a list, one after the other. -/
theorem testBit_foldl_or {P : Nat → Prop} [DecidablePred P] (bit : Nat → Nat) (elements : List Nat) (bits n : Nat) :
    (elements.foldl (fun bits c => if P c then bits ||| 1 <<< bit c else bits) bits).testBit n = true ↔
      bits.testBit n = true ∨ ∃ c ∈ elements, P c ∧ bit c = n := by
  induction elements generalizing bits with
  | nil => simp
  | cons c _ ih =>
    rw [List.foldl_cons, ih]
    by_cases hc : P c
    · rw [if_pos hc, testBit_or, testBit_one_shiftLeft, Bool.or_eq_true, decide_eq_true_eq]
      simp only [List.mem_cons, exists_eq_or_imp, hc, true_and, or_assoc]
    · rw [if_neg hc]
      simp only [List.mem_cons, exists_eq_or_imp, hc, false_and, false_or]

variable (h : Agrees W V first second N)
include h

/-- The index does not depend on how occupation is expressed. -/
theorem Agrees.congr (hN : ∀ f s, f < W → s < V → (M f s ↔ N f s)) : Agrees W V first second M where
  cell f s hf hs := (h.cell f s hf hs).trans (hN f s hf hs).symm
  cellLt := h.cellLt
  row f hf := by
    rw [h.row f hf]
    constructor
    · rintro ⟨s, hs, hn⟩
      exact ⟨s, hs, (hN f s hf hs).mpr hn⟩
    · rintro ⟨s, hs, hn⟩
      exact ⟨s, hs, (hN f s hf hs).mp hn⟩
  rowLt := h.rowLt

theorem Agrees.set (hi : i < W) (hj : j < V)
    (hN : ∀ f s, M f s ↔ (f = i ∧ s = j) ∨ N f s) :
    Agrees W V (first ||| 1 <<< i) (update second i (second i ||| 1 <<< j)) M where
  cell f s hf hs := by
    rw [hN]
    by_cases hff : f = i
    · subst hff
      rw [update_self, testBit_or, testBit_one_shiftLeft, Bool.or_eq_true,
        decide_eq_true_eq, h.cell f s hf hs]
      tauto
    · rw [update_of_ne hff, h.cell f s hf hs]
      tauto
  cellLt f hf := by
    by_cases hff : f = i
    · subst hff
      rw [update_self, one_shiftLeft]
      exact Nat.or_lt_two_pow (h.cellLt f hf) (Nat.pow_lt_pow_right (by decide) hj)
    · rw [update_of_ne hff]
      exact h.cellLt f hf
  row f hf := by
    rw [testBit_or, testBit_one_shiftLeft, Bool.or_eq_true, decide_eq_true_eq, h.row f hf]
    constructor
    · rintro (⟨s, hs, hn⟩ | rfl)
      · exact ⟨s, hs, (hN f s).mpr (.inr hn)⟩
      · exact ⟨j, hj, (hN i j).mpr (.inl ⟨rfl, rfl⟩)⟩
    · rintro ⟨s, hs, hn⟩
      rcases (hN f s).mp hn with ⟨rfl, -⟩ | hn
      · exact .inr rfl
      · exact .inl ⟨s, hs, hn⟩
  rowLt := by
    rw [one_shiftLeft]
    exact Nat.or_lt_two_pow h.rowLt (Nat.pow_lt_pow_right (by decide) hi)

theorem Agrees.clear (hi : i < W) (hN : ∀ f s, M f s ↔ ¬ (f = i ∧ s = j) ∧ N f s) :
    Agrees W V (if second i &&& complement V (1 <<< j) = 0 then first &&& complement W (1 <<< i) else first)
      (update second i (second i &&& complement V (1 <<< j))) M := by
  have hcell : ∀ f s, f < W → s < V → ((update second i
      (second i &&& complement V (1 <<< j)) f).testBit s = true ↔ M f s) := by
    intro f s hf hs
    rw [hN]
    by_cases hff : f = i
    · subst hff
      rw [update_self, testBit_and, testBit_complement, testBit_one_shiftLeft,
        Bool.and_eq_true, h.cell f s hf hs]
      simp only [hs, decide_true, Bool.true_xor, Bool.not_eq_true', decide_eq_false_iff_not]
      tauto
    · rw [update_of_ne hff, h.cell f s hf hs]
      tauto
  have hcellLt : ∀ f, f < W → update second i (second i &&& complement V (1 <<< j)) f < 2 ^ V := by
    intro f hf
    by_cases hff : f = i
    · subst hff
      rw [update_self]
      exact lt_of_le_of_lt and_le_left (h.cellLt f hf)
    · rw [update_of_ne hff]
      exact h.cellLt f hf
  -- the row word of `i` is zero exactly when no cell of the row is occupied
  have hzero : second i &&& complement V (1 <<< j) = 0 ↔ ¬ ∃ s, s < V ∧ M i s := by
    have hupd : second i &&& complement V (1 <<< j) =
        update second i (second i &&& complement V (1 <<< j)) i := by
      rw [update_self]
    constructor
    · rintro hz ⟨s, hs, hn⟩
      have := (hcell i s hi hs).mpr hn
      rw [← hupd, hz, zero_testBit] at this
      cases this
    · intro hno
      by_contra hne
      obtain ⟨s, hs⟩ := exists_testBit_of_ne_zero hne
      have hsV : s < V := by
        by_contra hge
        rw [hupd, testBit_of_lt (hcellLt i hi) (Nat.le_of_not_lt hge)] at hs
        cases hs
      exact hno ⟨s, hsV, (hcell i s hi hsV).mp (by rw [← hupd]; exact hs)⟩
  refine ⟨hcell, hcellLt, fun f hf => ?_, ?_⟩
  · by_cases hff : f = i
    · subst hff
      split
      · rename_i hz
        simp [hf, hzero.mp hz]
      · rename_i hz
        rw [h.row f hf]
        have hex : ∃ s, s < V ∧ M f s := not_not.mp (mt hzero.mpr hz)
        obtain ⟨s, hs, hn⟩ := hex
        exact ⟨fun _ => ⟨s, hs, hn⟩, fun _ => ⟨s, hs, ((hN f s).mp hn).2⟩⟩
    · have hsame : (∃ s, s < V ∧ M f s) ↔ ∃ s, s < V ∧ N f s := by
        constructor
        · rintro ⟨s, hs, hn⟩
          exact ⟨s, hs, ((hN f s).mp hn).2⟩
        · rintro ⟨s, hs, hn⟩
          exact ⟨s, hs, (hN f s).mpr ⟨fun heq => hff heq.1, hn⟩⟩
      rw [hsame, ← h.row f hf]
      split
      · rw [testBit_and, testBit_complement, testBit_one_shiftLeft]
        simp [hf, Ne.symm hff]
      · rfl
  · split
    · exact lt_of_le_of_lt and_le_left h.rowLt
    · exact h.rowLt

end Compukter.Bitmap
