/-
Byte memory with little-endian numbers.

A memory is a total map from addresses to bytes; the component on top decides which addresses exist.  What
was written reads back (`readLE_writeLE_same`), a read depends only on the bytes it covers (`readLE_congr`,
the FRAME law), and a write changes only the bytes it covers (`writeLE_outside`).
-/
import Mathlib.Tactic.Ring
import Compukter.Lib.LittleEndian

namespace Compukter.Bytes

/-- A byte memory. -/
abbrev Memory := Nat → UInt8

/-- The little-endian number in the `n` bytes from `start`. -/
def readLE (m : Memory) (start : Nat) : Nat → Nat
  | 0 => 0
  | n + 1 => (m start).toNat + 256 * readLE m (start + 1) n

variable (m : Memory)

/-- Write the `n` low bytes of `value` from `start`. -/
def writeLE (start n value : Nat) : Memory := fun i =>
  if start ≤ i ∧ i < start + n then UInt8.ofNat (value / 256 ^ (i - start)) else m i

/-- Write the bytes of a list from `start`. -/
def writeBytes (start : Nat) (bytes : List UInt8) : Memory := fun i =>
  if start ≤ i then (bytes[i - start]?).getD (m i) else m i

/-- Copy `length` bytes from `source` to `target`; the ranges may overlap. -/
def copyWithin (source target length : Nat) : Memory := fun i =>
  if target ≤ i ∧ i < target + length then m (source + (i - target)) else m i

/-- A buffer filled from memory spells the number that is stored there. -/
theorem ofBytesLE_range (start n : Nat) : ofBytesLE ((List.range n).map fun i => m (start + i)) = readLE m start n := by
  induction n generalizing start with
  | zero => rfl
  | succ _ ih =>
    rw [List.range_succ_eq_map, List.map_cons, List.map_map, ofBytesLE, readLE, ← ih (start + 1)]
    have hfun : (fun i => m (start + i)) ∘ Nat.succ = fun i => m (start + 1 + i) := by
      funext i
      show m (start + (i + 1)) = m (start + 1 + i)
      congr 1
      omega
    rw [hfun, Nat.add_zero]

theorem readLE_lt (start n : Nat) : readLE m start n < 256 ^ n := by
  have h := ofBytesLE_lt ((List.range n).map fun i => m (start + i))
  rwa [ofBytesLE_range, List.length_map, List.length_range] at h

variable {start : Nat}

/-- Reading at a displacement. -/
theorem readLE_shift {m f : Memory} {base n : Nat} (h : ∀ i, start ≤ i → i < start + n → m (base + i) = f i) :
    readLE m (base + start) n = readLE f start n := by
  induction n generalizing start with
  | zero => rfl
  | succ _ ih =>
    rw [readLE, readLE, h start (by omega) (by omega), Nat.add_assoc, ih (fun i h1 h2 => h i (by omega) (by omega))]

theorem readLE_congr {m m' : Memory} {n : Nat}
    (h : ∀ i, start ≤ i → i < start + n → m' i = m i) : readLE m' start n = readLE m start n := by
  induction n generalizing start with
  | zero => rfl
  | succ _ ih =>
    rw [readLE, readLE, h start (by omega) (by omega), ih (fun i hi hlt => h i (by omega) (by omega))]

variable {m : Memory}

theorem writeLE_outside {n value i : Nat} (h : i < start ∨ start + n ≤ i) : writeLE m start n value i = m i := by
  rw [writeLE, if_neg (by omega)]

theorem writeBytes_outside {i : Nat} {bytes : List UInt8}
    (h : i < start ∨ start + bytes.length ≤ i) : writeBytes m start bytes i = m i := by
  rw [writeBytes]
  split
  · rw [List.getElem?_eq_none (by omega)]
    rfl
  · rfl

theorem copyWithin_outside {source target length i : Nat}
    (h : i < target ∨ target + length ≤ i) : copyWithin m source target length i = m i := by
  rw [copyWithin, if_neg (by omega)]

theorem readLE_writeLE_mod (start n value : Nat) : readLE (writeLE m start n value) start n = value % 256 ^ n := by
  induction n generalizing start value with
  | zero => simp [readLE, Nat.mod_one]
  | succ n ih =>
    -- past the first byte, the write looks like a write of the quotient one address later
    have htail : readLE (writeLE m start (n + 1) value) (start + 1) n =
        readLE (writeLE m (start + 1) n (value / 256)) (start + 1) n := by
      apply readLE_congr
      intro i hlo hhi
      have hi : i - start = (i - (start + 1)) + 1 := by omega
      rw [writeLE, writeLE, if_pos (by omega), if_pos (by omega), hi, Nat.pow_succ', ← Nat.div_div_eq_div_mul]
    have hhead : (writeLE m start (n + 1) value start).toNat = value % 256 := by
      rw [writeLE, if_pos (by omega), Nat.sub_self, Nat.pow_zero, Nat.div_one]
      simp
    rw [readLE, htail, ih, hhead, Nat.pow_succ', Nat.mod_mul]

theorem readLE_writeLE_same {n value : Nat} (hv : value < 256 ^ n) :
    readLE (writeLE m start n value) start n = value := by
  rw [readLE_writeLE_mod, Nat.mod_eq_of_lt hv]

theorem readLE_writeLE_other {n value start' n' : Nat}
    (h : start' + n' ≤ start ∨ start + n ≤ start') : readLE (writeLE m start n value) start' n' = readLE m start' n' :=
  readLE_congr (fun _ hlo hhi => writeLE_outside (by omega))

end Compukter.Bytes
