/-
Queues whose elements are slots of a table and whose order is stored in the slots.

`Linked next head tail l` reads such a queue: `head` and `tail` are the ends of `l`, and `next` leads from
each slot to the one behind it.  A slot stands in `l` once, so a write to one slot changes one link.
-/
import Mathlib.Data.List.Nodup

open List Function

namespace Compukter

/-- From `head` on, `next` leads through `l` and ends. -/
def Trails (next : Nat → Option Nat) : Option Nat → List Nat → Prop
  | head, [] => head = none
  | head, x :: l => head = some x ∧ Trails next (next x) l

structure Linked (next : Nat → Option Nat) (head tail : Option Nat) (l : List Nat) : Prop where
  follows : Trails next head l
  last : tail = l.getLast?
  nodup : l.Nodup

variable {next next' : Nat → Option Nat} {head tail : Option Nat} {l : List Nat} {x : Nat}

theorem Trails.congr (h : Trails next head l) (hsame : ∀ x ∈ l, next' x = next x) : Trails next' head l := by
  induction l generalizing head with
  | nil => exact h
  | cons y _ ih =>
    obtain ⟨hhead, hrest⟩ := h
    refine ⟨hhead, ?_⟩
    rw [hsame y mem_cons_self]
    exact ih hrest fun x hx => hsame x (mem_cons_of_mem y hx)

theorem Trails.head_eq (h : Trails next head l) : head = l.head? := by
  cases l with
  | nil => exact h
  | cons => exact h.1

/-- The last slot of a nonempty list gets a link to a new slot. -/
theorem Trails.append (h : Trails next head l) (hnodup : l.Nodup) {last : Nat}
    (hlast : l.getLast? = some last) (hx : x ∉ l) (hend : next x = none) :
    Trails (update next last (some x)) head (l ++ [x]) := by
  induction l generalizing head with
  | nil => cases hlast
  | cons y l ih =>
    obtain ⟨hhead, hrest⟩ := h
    obtain ⟨hy, hl⟩ := nodup_cons.mp hnodup
    refine ⟨hhead, ?_⟩
    cases l with
    | nil =>
      obtain rfl : y = last := Option.some.inj hlast
      have hne : x ≠ y := fun heq => hx (heq ▸ mem_cons_self)
      rw [update_self]
      refine ⟨rfl, ?_⟩
      rw [update_of_ne hne]
      exact hend
    | cons z l =>
      have hlast' : (z :: l).getLast? = some last := by rwa [getLast?_cons_cons] at hlast
      have hne : y ≠ last := fun heq => hy (heq ▸ mem_of_getLast? hlast')
      rw [update_of_ne hne]
      exact ih hrest hl hlast' fun hmem => hx (mem_cons_of_mem y hmem)

theorem linked_nil : Linked next none none [] := ⟨rfl, rfl, nodup_nil⟩

theorem Linked.congr (h : Linked next head tail l) (hsame : ∀ x ∈ l, next' x = next x) : Linked next' head tail l :=
  ⟨h.follows.congr hsame, h.last, h.nodup⟩

theorem Linked.head_eq (h : Linked next head tail l) : head = l.head? := h.follows.head_eq

/-- A new slot goes behind the tail, or is the whole queue. -/
theorem Linked.push (h : Linked next head tail l) (hx : x ∉ l) (hend : next x = none) :
    (tail = none → Linked next (some x) (some x) (l ++ [x])) ∧
    ∀ last, tail = some last → Linked (update next last (some x)) head (some x) (l ++ [x]) := by
  have hnodup : (l ++ [x]).Nodup :=
    nodup_append.mpr ⟨h.nodup, nodup_singleton x, fun a ha b hb hab =>
      hx (by rw [mem_singleton] at hb; rwa [← hb, ← hab])⟩
  have hlast : some x = (l ++ [x]).getLast? := by rw [getLast?_append]; rfl
  constructor
  · intro htail
    rw [h.last, getLast?_eq_none_iff] at htail
    subst htail
    exact ⟨⟨rfl, hend⟩, hlast, hnodup⟩
  · intro last htail
    exact ⟨h.follows.append h.nodup (h.last ▸ htail) hx hend, hlast, hnodup⟩

/-- The head leaves the queue; the tail is given up with the last slot. -/
theorem Linked.pop (h : Linked next head tail (x :: l)) :
    Linked next (next x) (if next x = none then none else tail) l := by
  obtain ⟨-, hrest⟩ := h.follows
  refine ⟨hrest, ?_, (nodup_cons.mp h.nodup).2⟩
  have hhead := hrest.head_eq
  cases l with
  | nil => exact if_pos hhead
  | cons =>
    rw [if_neg (by rw [hhead]; exact nofun), h.last]
    exact getLast?_cons_cons

/-! ## Walking along the links -/

def walk (next : Nat → Option Nat) : Nat → Option Nat → List Nat
  | 0, _ => []
  | _, none => []
  | fuel + 1, some x => x :: walk next fuel (next x)

theorem Trails.walk_eq (h : Trails next head l) {fuel : Nat} (hfuel : l.length ≤ fuel) : walk next fuel head = l := by
  induction l generalizing head fuel with
  | nil =>
    rw [show head = none from h]
    cases fuel <;> rfl
  | cons y _ ih =>
    obtain ⟨rfl, hrest⟩ := h
    cases fuel with
    | zero => exact absurd hfuel (Nat.not_succ_le_zero _)
    | succ => exact congrArg (y :: ·) (ih hrest (Nat.le_of_succ_le_succ hfuel))

end Compukter
