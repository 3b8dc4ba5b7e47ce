/-
Tilings of an interval by consecutive blocks.

Every block starts where the one before it ends.  `place` gives each block its offset, `lastSize` is the size
of the block just before a point (the value a boundary tag stores), and `Tagged` says that every block
carries that value as its tag.

An allocator edits a tiling LOCALLY: a few neighbouring blocks are replaced by others that cover the same
bytes.  `place_append` splits the placement at such a window; different placed blocks never overlap
(`place_apart`).
-/
import Mathlib.Data.List.Basic

namespace Compukter.Tiling

open List

variable {β : Type*} (size : β → Nat)

/-- The number of bytes that a list of blocks covers. -/
def total : List β → Nat
  | [] => 0
  | b :: bs => size b + total bs

/-- The size of the last block, or `p` when there is none. -/
def lastSize : Nat → List β → Nat
  | p, [] => p
  | _, b :: bs => lastSize (size b) bs

/-- Every block with its offset, the first one at `o`. -/
def place : Nat → List β → List (Nat × β)
  | _, [] => []
  | o, b :: bs => (o, b) :: place (o + size b) bs

/-- Every block's tag is the size of its predecessor, and `p` for the first. -/
def Tagged (tag : β → Nat) : Nat → List β → Prop
  | _, [] => True
  | p, b :: bs => tag b = p ∧ Tagged tag (size b) bs

variable {size} {tag : β → Nat}

@[simp] theorem total_nil : total size [] = 0 := rfl

@[simp] theorem total_cons (b : β) (bs : List β) : total size (b :: bs) = size b + total size bs :=
  rfl

@[simp] theorem total_append (l l' : List β) : total size (l ++ l') = total size l + total size l' := by
  induction l with
  | nil => simp
  | cons _ _ ih => simp [ih, Nat.add_assoc]

@[simp] theorem lastSize_nil (p : Nat) : lastSize size p [] = p := rfl

@[simp] theorem lastSize_cons (p : Nat) (b : β) (bs : List β) :
    lastSize size p (b :: bs) = lastSize size (size b) bs := rfl

@[simp] theorem lastSize_append (p : Nat) (l l' : List β) :
    lastSize size p (l ++ l') = lastSize size (lastSize size p l) l' := by
  induction l generalizing p with
  | nil => rfl
  | cons b _ ih => exact ih (size b)

@[simp] theorem place_nil (o : Nat) : place size o [] = [] := rfl

@[simp] theorem place_cons (o : Nat) (b : β) (bs : List β) :
    place size o (b :: bs) = (o, b) :: place size (o + size b) bs := rfl

@[simp] theorem place_append (o : Nat) (l l' : List β) :
    place size o (l ++ l') = place size o l ++ place size (o + total size l) l' := by
  induction l generalizing o with
  | nil => simp
  | cons _ _ ih => simp [ih, Nat.add_assoc]

@[simp] theorem tagged_nil (p : Nat) : Tagged size tag p [] := trivial

variable {b : β}

@[simp] theorem tagged_cons {p : Nat} {bs : List β} :
    Tagged size tag p (b :: bs) ↔ tag b = p ∧ Tagged size tag (size b) bs := Iff.rfl

variable {l : List β}

@[simp] theorem tagged_append {p : Nat} {l' : List β} :
    Tagged size tag p (l ++ l') ↔ Tagged size tag p l ∧ Tagged size tag (lastSize size p l) l' := by
  induction l generalizing p with
  | nil => simp
  | cons _ _ ih => simp [ih, and_assoc]

/-- A block is exchanged for another one. -/
theorem forall_mem_replace {P : β → Prop} {pre post : List β} {d : β} (h : ∀ c ∈ pre ++ b :: post, P c) (hd : P d) :
    ∀ c ∈ pre ++ d :: post, P c := by
  rw [forall_mem_append, forall_mem_cons] at h ⊢
  exact ⟨h.1, hd, h.2.2⟩

theorem forall_mem_remove {P : β → Prop} {pre post : List β} (h : ∀ c ∈ pre ++ b :: post, P c) :
    ∀ c ∈ pre ++ post, P c := by
  rw [forall_mem_append, forall_mem_cons] at h
  exact forall_mem_append.mpr ⟨h.1, h.2.2⟩

variable {e : Nat × β} {o : Nat}

/-- A placed block splits the tiling around it. -/
theorem mem_place : e ∈ place size o l ↔ ∃ pre post, l = pre ++ e.2 :: post ∧ e.1 = o + total size pre := by
  induction l generalizing o with
  | nil => simp
  | cons b bs ih =>
    rw [place_cons, mem_cons, ih]
    constructor
    · rintro (rfl | ⟨pre, post, rfl, he⟩)
      · exact ⟨[], bs, rfl, rfl⟩
      · exact ⟨b :: pre, post, rfl, by rw [he, total_cons]; omega⟩
    · rintro ⟨pre, post, hl, he⟩
      cases pre with
      | nil =>
        cases hl
        exact .inl (Prod.ext he rfl)
      | cons _ cs =>
        cases hl
        exact .inr ⟨cs, post, rfl, by rw [he, total_cons]; omega⟩

theorem mem_of_mem_place (h : e ∈ place size o l) : e.2 ∈ l := by
  obtain ⟨pre, _, rfl, -⟩ := mem_place.mp h
  simp

theorem place_bounds (h : e ∈ place size o l) : o ≤ e.1 ∧ e.1 + size e.2 ≤ o + total size l := by
  obtain ⟨pre, _, rfl, he⟩ := mem_place.mp h
  rw [total_append, total_cons]
  omega

/-- Two placed blocks are the same or do not overlap. -/
theorem place_apart {f : Nat × β} (he : e ∈ place size o l) (hf : f ∈ place size o l) :
    e = f ∨ e.1 + size e.2 ≤ f.1 ∨ f.1 + size f.2 ≤ e.1 := by
  induction l generalizing o with
  | nil => simp at he
  | cons _ _ ih =>
    rw [place_cons, mem_cons] at he hf
    rcases he with rfl | he <;> rcases hf with rfl | hf
    · exact .inl rfl
    · exact .inr (.inl (place_bounds hf).1)
    · exact .inr (.inr (place_bounds he).1)
    · exact ih he hf

/-- Blocks of positive size at the same offset are the same block. -/
theorem place_unique {f : Nat × β} (he : e ∈ place size o l) (hf : f ∈ place size o l)
    (hpos : ∀ b ∈ l, 0 < size b) (heq : e.1 = f.1) : e = f := by
  have h1 := hpos _ (mem_of_mem_place he)
  have h2 := hpos _ (mem_of_mem_place hf)
  rcases place_apart he hf with h | h | h
  · exact h
  · omega
  · omega

/-- The last block of a nonempty tiling ends where the tiling ends. -/
theorem exists_append_last (size : β → Nat) (h : l ≠ []) (p : Nat) :
    ∃ init b, l = init ++ [b] ∧ lastSize size p l = size b := by
  refine ⟨l.dropLast, l.getLast h, (dropLast_append_getLast h).symm, ?_⟩
  conv_lhs => rw [← dropLast_append_getLast h]
  simp

theorem dvd_total {k : Nat} (h : ∀ b ∈ l, size b % k = 0) : total size l % k = 0 := by
  induction l with
  | nil => simp
  | cons b _ ih =>
    have h1 := h b (by simp)
    have h2 := ih (fun c hc => h c (mem_cons_of_mem _ hc))
    rw [total_cons, Nat.add_mod, h1, h2]
    simp

/-- Two lists with related elements of equal sizes place them at the same offsets. -/
theorem place_forall₂ {R : β → β → Prop} (hR : ∀ a b, R a b → size b = size a) {o : Nat} {l' : List β}
    (h : l.Forall₂ R l') : (place size o l).Forall₂ (fun e e' => e'.1 = e.1 ∧ R e.2 e'.2) (place size o l') := by
  induction h generalizing o with
  | nil => exact .nil
  | cons h1 _ ih =>
    rw [place_cons, place_cons, hR _ _ h1]
    exact .cons ⟨rfl, h1⟩ ih

/-! ## Blocks by index -/

theorem getElem?_set_eq_some {i j : Nat} {b' c : β} (hb : l[i]? = some b) :
    (l.set i b')[j]? = some c ↔ j = i ∧ c = b' ∨ j ≠ i ∧ l[j]? = some c := by
  grind

theorem getElem?_concat_eq_some {j : Nat} {c : β} :
    (l ++ [b])[j]? = some c ↔ l[j]? = some c ∨ j = l.length ∧ c = b := by
  grind

/-- A block ends before any later one starts. -/
theorem total_take_le {i j : Nat} (hb : l[i]? = some b) (hij : i < j) :
    total size (l.take i) + size b ≤ total size (l.take j) := by
  obtain ⟨hlt, rfl⟩ := List.getElem?_eq_some_iff.mp hb
  have hsplit : l.take j = l.take i ++ l[i] :: (l.take j).drop (i + 1) := by
    conv_lhs => rw [← take_append_drop (i + 1) (l.take j)]
    rw [take_take, Nat.min_eq_left hij, take_succ_eq_append_getElem hlt, append_assoc]
    rfl
  rw [hsplit, total_append, total_cons]
  omega

/-- A block may be replaced by one of the same size. -/
theorem total_take_set {i : Nat} {b' : β} (hb : l[i]? = some b) (hsize : size b' = size b) (j : Nat) :
    total size ((l.set i b').take j) = total size (l.take j) := by
  induction l generalizing i j with
  | nil => rfl
  | cons c l ih =>
    cases j with
    | zero => rfl
    | succ j =>
      cases i with
      | zero =>
        obtain rfl : c = b := Option.some.inj hb
        show size b' + total size (l.take j) = size c + total size (l.take j)
        rw [hsize]
      | succ i =>
        show size c + total size ((l.set i b').take j) = size c + total size (l.take j)
        rw [ih (i := i) (by simpa using hb)]

end Compukter.Tiling
