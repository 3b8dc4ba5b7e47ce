/-
Marking a graph with a queue that is threaded through its own vertices.

* `Threaded next q` — the queue `q` is stored IN the vertices: each one holds the vertex after it
  (`next x (some y)`), and the last one holds an end mark (`next x none`).

* `Tricolour root edge todo gray marked` — what every marking algorithm keeps: whatever is marked
  or still to be visited is reachable, every root is marked or still to be visited, and so is every
  successor of a marked vertex that has left the queue.  When nothing is left to visit and the queue
  is empty, the marked vertices are EXACTLY the reachable ones (`Tricolour.exact`).
-/
import Mathlib.Logic.Relation

namespace Compukter.Marking

variable {α : Type*}

/-! ## The threaded queue -/

/-- Each vertex of the queue holds the vertex after it. -/
def Threaded (next : α → Option α → Prop) : List α → Prop
  | [] => True
  | x :: q => next x q.head? ∧ Threaded next q

variable {next next' : α → Option α → Prop}

theorem Threaded.congr {q : List α} (h : Threaded next q)
    (hsame : ∀ x ∈ q, ∀ v, next x v → next' x v) : Threaded next' q := by
  induction q with
  | nil => trivial
  | cons x _ ih =>
    exact ⟨hsame x (by simp) _ h.1, ih h.2 (fun y hy => hsame y (List.mem_cons_of_mem x hy))⟩

/-- Appending a vertex changes what the last vertex holds. -/
theorem Threaded.push {q : List α} {l x : α} (h : Threaded next (q ++ [l])) (hsame : ∀ y ∈ q, ∀ v, next y v → next' y v)
    (hl : next' l (some x)) (hx : next' x none) : Threaded next' (q ++ [l] ++ [x]) := by
  induction q with
  | nil => exact ⟨hl, hx, trivial⟩
  | cons y q ih =>
    obtain ⟨hy, hq⟩ := h
    refine ⟨?_, ih hq (fun z hz => hsame z (List.mem_cons_of_mem y hz))⟩
    have hnext := hsame y (by simp) _ hy
    cases q with
    | nil | cons z q => exact hnext

/-! ## Reachability and the colours -/

/-- Reachable from a root along edges. -/
def Reach (root : α → Prop) (edge : α → α → Prop) (x : α) : Prop :=
  ∃ r, root r ∧ Relation.ReflTransGen edge r x

structure Tricolour (root : α → Prop) (edge : α → α → Prop) (todo gray marked : α → Prop) :
    Prop where
  sound : ∀ x, marked x → Reach root edge x
  promised : ∀ x, todo x → Reach root edge x
  roots : ∀ x, root x → marked x ∨ todo x
  closed : ∀ x y, marked x → ¬ gray x → edge x y → marked y ∨ todo y

variable {root : α → Prop} {edge : α → α → Prop} {todo todo' gray gray' marked marked' : α → Prop}

/-- Before the first visit: nothing is marked, all roots are to be visited. -/
theorem Tricolour.start (htodo : ∀ x, todo x ↔ root x) (hm : ∀ x, ¬ marked x) :
    Tricolour root edge todo gray marked where
  sound x hx := absurd hx (hm x)
  promised x hx := ⟨x, (htodo x).mp hx, .refl⟩
  roots x hx := .inr ((htodo x).mpr hx)
  closed x _ hx := absurd hx (hm x)

/-- One vertex is visited: it is marked now, and gray if it was not marked before. -/
theorem Tricolour.visit {x : α} (h : Tricolour root edge todo gray marked)
    (htodo : ∀ y, todo y ↔ y = x ∨ todo' y) (hm : ∀ y, marked' y ↔ y = x ∨ marked y)
    (hg : ∀ y, gray' y ↔ gray y ∨ (y = x ∧ ¬ marked x)) :
    Tricolour root edge todo' gray' marked' where
  sound y hy := by
    rcases (hm y).mp hy with rfl | hy
    · exact h.promised y ((htodo y).mpr (.inl rfl))
    · exact h.sound y hy
  promised y hy := h.promised y ((htodo y).mpr (.inr hy))
  roots y hy := by
    rcases h.roots y hy with hy | hy
    · exact .inl ((hm y).mpr (.inr hy))
    · rcases (htodo y).mp hy with rfl | hy
      · exact .inl ((hm y).mpr (.inl rfl))
      · exact .inr hy
  closed y z hy hgray hedge := by
    have hold : marked y ∧ ¬ gray y := by
      rw [hg, not_or] at hgray
      rcases (hm y).mp hy with rfl | hy
      · exact ⟨Classical.byContradiction fun hn => hgray.2 ⟨rfl, hn⟩, hgray.1⟩
      · exact ⟨hy, hgray.1⟩
    rcases h.closed y z hold.1 hold.2 hedge with hz | hz
    · exact .inl ((hm z).mpr (.inr hz))
    · rcases (htodo z).mp hz with rfl | hz
      · exact .inl ((hm z).mpr (.inl rfl))
      · exact .inr hz

/-- A vertex leaves the queue: its successors are to be visited. -/
theorem Tricolour.expand {x : α} (h : Tricolour root edge todo gray marked) (hx : marked x)
    (hnone : ∀ y, ¬ todo y) (htodo : ∀ y, todo' y ↔ edge x y)
    (hg : ∀ y, gray y → y = x ∨ gray' y) : Tricolour root edge todo' gray' marked where
  sound := h.sound
  promised y hy := by
    obtain ⟨r, hr, hpath⟩ := h.sound x hx
    exact ⟨r, hr, hpath.tail ((htodo y).mp hy)⟩
  roots y hy := (h.roots y hy).imp_right (fun ht => absurd ht (hnone y))
  closed y z hy hgray hedge := by
    by_cases hyx : y = x
    · subst hyx
      exact .inr ((htodo z).mpr hedge)
    · have hng : ¬ gray y := fun hgy => (hg y hgy).elim hyx hgray
      exact (h.closed y z hy hng hedge).imp_right (fun ht => absurd ht (hnone z))

/-- The same colours in other words. -/
theorem Tricolour.congr (h : Tricolour root edge todo gray marked) (ht : ∀ x, todo' x ↔ todo x)
    (hg : ∀ x, gray' x ↔ gray x) (hm : ∀ x, marked' x ↔ marked x) : Tricolour root edge todo' gray' marked' := by
  have e1 : todo' = todo := funext fun x => propext (ht x)
  have e2 : gray' = gray := funext fun x => propext (hg x)
  have e3 : marked' = marked := funext fun x => propext (hm x)
  rw [e1, e2, e3]
  exact h

/-- **When marking ends, the marked vertices are the reachable ones.** -/
theorem Tricolour.exact (h : Tricolour root edge todo gray marked) (hnone : ∀ x, ¬ todo x)
    (hg : ∀ x, ¬ gray x) (x : α) : marked x ↔ Reach root edge x := by
  refine ⟨h.sound x, ?_⟩
  rintro ⟨r, hr, hpath⟩
  -- along the path: the root is marked, and marks propagate over each edge
  induction hpath with
  | refl => exact (h.roots r hr).resolve_right (hnone r)
  | tail _ hedge ih => exact (h.closed _ _ ih (hg _) hedge).resolve_right (hnone _)

end Compukter.Marking
