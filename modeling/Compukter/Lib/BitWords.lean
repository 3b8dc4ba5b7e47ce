/-
Sets of small numbers as 64-bit words.

Bit `i` of a set is bit `i % 64` of word `i / 64`.  `set` has no result when the word does not exist.
`meet` intersects word by word and keeps the words that the other set does not have.

`count` is the number of elements: a `meet` that changes a set makes it smaller (`count_meet_lt`).
-/
import Mathlib.Algebra.Order.Ring.Nat

namespace Compukter.BitWords

open List

abbrev Words := List (BitVec 64)

def mask (bit : Nat) : BitVec 64 := 1#64 <<< (bit % 64)

variable (bits : Words)

def get (bit : Nat) : Bool :=
  match bits[bit / 64]? with
  | some word => word &&& mask bit != 0#64
  | none => false

def set (bit : Nat) : Option Words :=
  if bit / 64 < bits.length then some (bits.modify (bit / 64) (· ||| mask bit)) else none

def meet : Words → Words → Words
  | word :: bits, incoming :: other => (word &&& incoming) :: meet bits other
  | bits, _ => bits

def empty (words : Nat) : Words := List.replicate words 0#64

/-- The bits of a set, in order. -/
def count : Nat := (List.range (64 * bits.length)).countP (get bits)

/-! ## Single bits -/

theorem getLsbD_mask (i j : Nat) (hj : j < 64) : (mask i).getLsbD j = decide (i % 64 = j) := by
  simp only [mask, BitVec.getLsbD_shiftLeft, BitVec.getLsbD_one]
  by_cases h : i % 64 = j
  · subst h
    simp [hj]
  · simp only [h, decide_false, Bool.and_eq_false_iff]
    by_cases hlt : j < i % 64
    · exact .inl (by simp [hlt])
    · refine .inr ?_
      simp
      omega

theorem and_mask_ne_zero (word : BitVec 64) (i : Nat) : (word &&& mask i != 0#64) = word.getLsbD (i % 64) := by
  have hlt : i % 64 < 64 := Nat.mod_lt _ (by decide)
  cases hbit : word.getLsbD (i % 64) with
  | true =>
    refine bne_iff_ne.mpr fun hzero => ?_
    have h := congrArg (fun w => w.getLsbD (i % 64)) hzero
    simp [getLsbD_mask _ _ hlt, hbit] at h
  | false =>
    have hzero : word &&& mask i = 0#64 := by
      refine BitVec.eq_of_getLsbD_eq fun j hj => ?_
      rw [BitVec.getLsbD_and, getLsbD_mask _ _ hj]
      by_cases h : i % 64 = j
      · subst h
        simp [hbit]
      · simp [h]
    simp [hzero]

theorem get_eq (i : Nat) : get bits i = ((bits[i / 64]?).getD 0#64).getLsbD (i % 64) := by
  unfold get
  cases bits[i / 64]? with
  | none => simp
  | some => simp only [and_mask_ne_zero, Option.getD_some]

variable {i : Nat}

theorem get_of_le {bits : Words} (h : 64 * bits.length ≤ i) : get bits i = false := by
  have hnone : bits[i / 64]? = none := getElem?_eq_none (by omega)
  rw [get_eq, hnone]
  simp

theorem get_lt {bits : Words} (h : get bits i = true) : i < 64 * bits.length := by
  by_contra hge
  rw [get_of_le (by omega)] at h
  cases h

@[simp] theorem get_empty (words i : Nat) : get (empty words) i = false := by
  rw [get_eq, empty, getElem?_replicate]
  split <;> simp

@[simp] theorem length_empty (words : Nat) : (empty words).length = words := length_replicate

theorem ext {a b : Words} (hlen : a.length = b.length) (h : ∀ i, get a i = get b i) : a = b := by
  refine ext_getElem hlen fun k ha hb => BitVec.eq_of_getLsbD_eq fun j hj => ?_
  have hk := h (64 * k + j)
  have hdiv : (64 * k + j) / 64 = k := by omega
  have hmod : (64 * k + j) % 64 = j := by omega
  rw [get_eq, get_eq, hdiv, hmod, getElem?_eq_getElem ha, getElem?_eq_getElem hb] at hk
  exact hk

/-! ## Adding an element -/

theorem exists_set {bits : Words} (h : i < 64 * bits.length) : ∃ bits', set bits i = some bits' :=
  ⟨_, if_pos (by omega)⟩

theorem length_set {bits bits' : Words} (h : set bits i = some bits') : bits'.length = bits.length := by
  unfold set at h
  split at h
  · cases h
    exact length_modify ..
  · cases h

theorem get_set {bits bits' : Words} (h : set bits i = some bits') (j : Nat) :
    get bits' j = (get bits j || decide (i = j)) := by
  unfold set at h
  split at h
  case isFalse => cases h
  case isTrue hlt =>
    cases h
    rw [get_eq, get_eq, getElem?_modify]
    have hj : j % 64 < 64 := Nat.mod_lt _ (by decide)
    by_cases hword : i / 64 = j / 64
    · have hsome : bits[j / 64]? = some (bits[i / 64]) := by
        rw [← hword]
        exact getElem?_eq_getElem hlt
      simp only [hsome, hword, if_true, Option.map_eq_map, Option.map_some, Option.getD_some,
        BitVec.getLsbD_or, getLsbD_mask _ _ hj]
      congr 1
      exact decide_eq_decide.mpr (by omega)
    · have hne : i ≠ j := fun h => hword (by rw [h])
      simp [hword, hne]

/-! ## Intersections -/

theorem length_meet (a b : Words) : (meet a b).length = a.length := by
  induction a generalizing b with
  | nil => rfl
  | cons _ _ ih =>
    cases b with
    | nil => rfl
    | cons => simp [meet, ih]

theorem getElem?_meet {a b : Words} (hlen : a.length = b.length) (k : Nat) :
    ((meet a b)[k]?).getD 0#64 = (a[k]?).getD 0#64 &&& (b[k]?).getD 0#64 := by
  induction a generalizing b k with
  | nil =>
    cases b with
    | nil => simp [meet]
    | cons => simp at hlen
  | cons _ _ ih =>
    cases b with
    | nil => simp at hlen
    | cons =>
      cases k with
      | zero => simp [meet]
      | succ k => simpa [meet] using ih (by simpa using hlen) k

theorem get_meet {a b : Words} (hlen : a.length = b.length) (i : Nat) : get (meet a b) i = (get a i && get b i) := by
  rw [get_eq, get_eq, get_eq, getElem?_meet hlen, BitVec.getLsbD_and]

/-! ## Counting -/

theorem count_le : count bits ≤ 64 * bits.length := by
  have h : count bits ≤ (range (64 * bits.length)).length := countP_le_length
  simpa using h

theorem countP_lt {α : Type} {p q : α → Bool} {l : List α} (hle : ∀ x ∈ l, p x = true → q x = true)
    {x : α} (hx : x ∈ l) (hp : p x = false) (hq : q x = true) : l.countP p < l.countP q := by
  induction l with
  | nil => cases hx
  | cons y l ih =>
    have htail : l.countP p ≤ l.countP q :=
      countP_mono_left fun z hz => hle z (mem_cons_of_mem _ hz)
    rw [countP_cons, countP_cons]
    rcases mem_cons.mp hx with rfl | hx
    · simp only [hp, hq, if_true, Bool.false_eq_true, if_false]
      omega
    · have hlt := ih (fun z hz => hle z (mem_cons_of_mem _ hz)) hx
      have hy := hle y mem_cons_self
      cases hpy : p y with
      | false =>
        simp only [Bool.false_eq_true, if_false]
        omega
      | true =>
        rw [hy hpy]
        omega

theorem count_meet_lt {a b : Words} (hlen : a.length = b.length) (h : meet a b ≠ a) : count (meet a b) < count a := by
  obtain ⟨i, hi⟩ : ∃ i, get (meet a b) i ≠ get a i := by
    by_contra hall
    exact h (ext (length_meet a b) fun i => Classical.byContradiction fun hne => hall ⟨i, hne⟩)
  rw [get_meet hlen] at hi
  have ha : get a i = true := by
    cases hget : get a i with
    | true => rfl
    | false => simp [hget] at hi
  have hb : get b i = false := by
    cases hget : get b i with
    | false => rfl
    | true => simp [ha, hget] at hi
  unfold count
  rw [length_meet]
  refine countP_lt (fun j _ hj => ?_) (mem_range.mpr (get_lt ha)) ?_ ha
  · rw [get_meet hlen, Bool.and_eq_true] at hj
    exact hj.1
  · rw [get_meet hlen, ha, hb]
    rfl

end Compukter.BitWords
