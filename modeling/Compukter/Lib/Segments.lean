/-
Doubly linked list segments.

Two link maps `next` and `prev` thread nodes of an arbitrary type.  `Seg next prev p l e` says
that the nodes of `l`, in this order, form one segment: each node points to its neighbours,
the first one back to `p` and the last one on to `e`.  A whole list is a segment with the null
node at both ends.

Such lists are edited in place, so the laws are about maps that AGREE with the old ones except at the two or
three nodes an edit writes.
-/
import Mathlib.Data.List.Basic

namespace Compukter.Segments

open List

variable {α : Type*}

/-- The first node of `l`, or `e` when there is none. -/
def headOr : List α → α → α
  | [], e => e
  | x :: _, _ => x

/-- The nodes of `l` form one segment from `p` to `e`. -/
def Seg (next prev : α → α) : α → List α → α → Prop
  | _, [], _ => True
  | p, x :: xs, e => prev x = p ∧ next x = headOr xs e ∧ Seg next prev x xs e

@[simp] theorem headOr_nil (e : α) : headOr [] e = e := rfl

@[simp] theorem headOr_cons (x : α) (xs : List α) (e : α) : headOr (x :: xs) e = x := rfl

theorem headOr_mem {l : List α} {e : α} (h : headOr l e ≠ e) : headOr l e ∈ l := by
  cases l with
  | nil => exact absurd rfl h
  | cons => exact mem_cons_self

variable {next prev next' prev' : α → α}

/-- A segment depends only on the links of its own nodes. -/
theorem Seg.congr {p e : α} {l : List α}
    (h : Seg next prev p l e) (hn : ∀ x ∈ l, next' x = next x) (hp : ∀ x ∈ l, prev' x = prev x) :
    Seg next' prev' p l e := by
  induction l generalizing p with
  | nil => exact trivial
  | cons x _ ih =>
    obtain ⟨h1, h2, h3⟩ := h
    refine ⟨(hp x (by simp)).trans h1, (hn x (by simp)).trans h2, ih h3 ?_ ?_⟩
    · exact fun y hy => hn y (mem_cons_of_mem _ hy)
    · exact fun y hy => hp y (mem_cons_of_mem _ hy)

/-- The neighbours of a node in the middle of a segment. -/
theorem Seg.neighbours {next prev : α → α} {x e : α} {post : List α} :
    ∀ {pre : List α} {p : α}, Seg next prev p (pre ++ x :: post) e →
      prev x = pre.getLast?.getD p ∧ next x = headOr post e
  | [], _, h => ⟨h.1, h.2.1⟩
  | a :: pre, p, h => by
    have hrest : Seg next prev a (pre ++ x :: post) e := h.2.2
    obtain ⟨h1, h2⟩ := Seg.neighbours hrest
    refine ⟨?_, h2⟩
    rw [h1]
    cases pre with
    | nil => rfl
    | cons c cs =>
      rw [getLast?_cons_cons]
      cases hl : (c :: cs).getLast? with
      | none => simp at hl
      | some => rfl

/-- Link a new node `b` in front of a list: `b` takes the old head as successor, and only the
old head's back link changes. -/
theorem Seg.push [DecidableEq α] {p p' b e : α} {l : List α}
    (h : Seg next prev p l e) (hnd : l.Nodup) (hb : prev' b = p') (hnb : next' b = headOr l e)
    (hn : ∀ x ∈ l, next' x = next x)
    (hp : ∀ x ∈ l, prev' x = if x = headOr l e then b else prev x) : Seg next' prev' p' (b :: l) e := by
  refine ⟨hb, hnb, ?_⟩
  cases l with
  | nil => exact trivial
  | cons x =>
    obtain ⟨h1, h2, h3⟩ := h
    refine ⟨?_, (hn x (by simp)).trans h2, h3.congr ?_ ?_⟩
    · rw [hp x (by simp), headOr_cons, if_pos rfl]
    · exact fun y hy => hn y (mem_cons_of_mem _ hy)
    · intro y hy
      have hne : y ≠ x := fun heq => (nodup_cons.mp hnd).1 (heq ▸ hy)
      rw [hp y (mem_cons_of_mem _ hy), headOr_cons, if_neg hne]

/-- Take node `x` out: its predecessor takes over the forward link and its successor the back
link. -/
theorem Seg.unlink [DecidableEq α] {x e : α} {post : List α} :
    ∀ {pre : List α} {p : α}, Seg next prev p (pre ++ x :: post) e → (pre ++ x :: post).Nodup →
      (∀ y ∈ pre ++ post, next' y = if pre.getLast? = some y then next x else next y) →
      (∀ y ∈ pre ++ post, prev' y = if post.head? = some y then prev x else prev y) →
      Seg next' prev' p (pre ++ post) e
  | [], p, h, hnd, hn, hp => by
    obtain ⟨h1, -, h3⟩ := h
    cases post with
    | nil => exact trivial
    | cons y =>
      obtain ⟨-, h5, h6⟩ := h3
      refine ⟨?_, ?_, h6.congr ?_ ?_⟩
      · rw [hp y (by simp), head?_cons, if_pos rfl, h1]
      · rw [hn y (by simp), getLast?_nil, if_neg (by simp), h5]
      · intro z hz
        rw [hn z (by simp [hz]), getLast?_nil, if_neg (by simp)]
      · intro z hz
        have hne : y ≠ z := by
          rintro rfl
          simp [hz] at hnd
        rw [hp z (by simp [hz]), head?_cons, if_neg (by simp [hne])]
  | a :: pre, p, h, hnd, hn, hp => by
    obtain ⟨h1, h2, h3⟩ := h
    obtain ⟨ha, hnd'⟩ := nodup_cons.mp hnd
    have hax : a ∉ pre ++ post := fun hm => ha (by
      rcases mem_append.mp hm with hm | hm <;> simp [hm])
    have hap : post.head? ≠ some a := fun hh =>
      hax (mem_append_right _ (mem_of_mem_head? hh))
    refine ⟨?_, ?_, Seg.unlink h3 hnd' ?_ ?_⟩
    · rw [hp a (by simp), if_neg hap, h1]
    · -- the forward link of `a` changes only when `a` is the predecessor of `x`
      rw [hn a (by simp)]
      cases pre with
      | nil =>
        obtain ⟨-, h5, -⟩ := h3
        simpa using h5
      | cons c cs =>
        have hlast : (a :: c :: cs).getLast? ≠ some a := by
          exact fun hh => hax (mem_append_left _ (mem_of_getLast? hh))
        rw [if_neg hlast, h2]
        rfl
    · intro y hy
      have hya : y ≠ a := fun heq => hax (heq ▸ hy)
      rw [hn y (mem_cons_of_mem _ hy)]
      cases pre with
      | nil => simp [Ne.symm hya]
      | cons => rw [getLast?_cons_cons]
    · exact fun y hy => hp y (mem_cons_of_mem _ hy)

end Compukter.Segments
