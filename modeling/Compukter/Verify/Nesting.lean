/-
Protected ranges that nest.

The check sorts the handlers, outer ranges first, and compares each range with the innermost one that is
still open.  **The invariant:** the ranges on the stack lie inside each other, the innermost on top, and stand
before all ranges to come.  What a range closes ends before it starts, so it is apart from all that follows.
-/
import Mathlib.Data.List.Pairwise
import Mathlib.Data.List.TakeWhile
import Compukter.Verify.Exceptions

namespace Compukter

open List Fallible Nat

namespace Handler

def Inside (inner outer : Handler) : Prop :=
  outer.protectedStart ≤ inner.protectedStart ∧ inner.protectedEnd ≤ outer.protectedEnd

def Apart (r s : Handler) : Prop := r.protectedEnd ≤ s.protectedStart ∨ s.protectedEnd ≤ r.protectedStart

/-- Two protected ranges do not cross. -/
def Nests (r s : Handler) : Prop := Apart r s ∨ Inside r s ∨ Inside s r

instance (r s : Handler) : Decidable (Nests r s) := inferInstanceAs (Decidable ((_ ∨ _) ∨ (_ ∧ _) ∨ (_ ∧ _)))

instance : Std.Symm Nests := ⟨fun _ _ h => h.imp Or.symm Or.symm⟩

theorem Nests.refl (r : Handler) : Nests r r := .inr (.inl ⟨le_refl _, le_refl _⟩)

theorem isBefore.start_le {r s : Handler} (h : isBefore r s) : r.protectedStart ≤ s.protectedStart :=
  h.elim le_of_lt fun h => le_of_eq h.1

instance : Std.Total isBefore := ⟨fun r s => by unfold isBefore; omega⟩

instance : IsTrans Handler isBefore := ⟨fun r s t => by unfold isBefore; omega⟩

/-- The range before another, which it reaches into but does not hold, crosses it. -/
theorem not_nests {r s : Handler} (hbefore : isBefore r s) (hs : s.protectedStart < s.protectedEnd)
    (hopen : s.protectedStart < r.protectedEnd) (hends : r.protectedEnd < s.protectedEnd) : ¬ Nests r s := by
  unfold Nests Apart Inside
  unfold isBefore at hbefore
  omega

end Handler

open Handler

/-- **The scan**, over any list in the order of the sort. -/
theorem crossingRanges_eq_false_iff {stack rest : List Handler}
    (hranges : ∀ r ∈ rest, r.protectedStart < r.protectedEnd) (hsorted : rest.Pairwise isBefore)
    (hbefore : ∀ s ∈ stack, ∀ r ∈ rest, isBefore s r) (hchain : stack.Pairwise Inside) :
    crossingRanges stack rest = false ↔ (∀ s ∈ stack, ∀ r ∈ rest, Nests s r) ∧ rest.Pairwise Nests := by
  induction rest generalizing stack with
  | nil => simp [crossingRanges]
  | cons current rest ih =>
    obtain ⟨hcurrent, hsorted⟩ := pairwise_cons.mp hsorted
    obtain ⟨hrange, hranges⟩ := forall_mem_cons.mp hranges
    -- the ranges that the current one closes, and those that stay open
    have hclosed : ∀ s ∈ stack.takeWhile (·.protectedEnd ≤ current.protectedStart),
        s.protectedEnd ≤ current.protectedStart := fun s hs => by simpa using mem_takeWhile_imp hs
    have htop := head?_dropWhile_not (·.protectedEnd ≤ current.protectedStart) stack
    have hstack := takeWhile_append_dropWhile (p := (·.protectedEnd ≤ current.protectedStart)) (l := stack)
    rw [crossingRanges]
    generalize stack.takeWhile _ = closed at hclosed hstack
    generalize stack.dropWhile _ = enclosing at htop hstack ⊢
    subst hstack
    obtain ⟨-, hchain, -⟩ := pairwise_append.mp hchain
    obtain ⟨-, hbefore⟩ := forall_mem_append.mp hbefore
    split
    case isTrue hcross =>
      refine iff_of_false nofun fun h => ?_
      cases enclosing with
      | nil => cases hcross
      | cons top =>
        have hnests := h.1 top (mem_append_right _ mem_cons_self) current mem_cons_self
        refine not_nests (hbefore top mem_cons_self current mem_cons_self) hrange ?_ (of_decide_eq_true hcross) hnests
        exact Nat.lt_of_not_le (of_decide_eq_false htop)
    case isFalse hcross =>
      have hinside : ∀ s ∈ enclosing, Inside current s := by
        intro s hs
        refine ⟨(hbefore s hs current mem_cons_self).start_le, ?_⟩
        cases enclosing with
        | nil => cases hs
        | cons top =>
          have hle : current.protectedEnd ≤ top.protectedEnd := by simpa using hcross
          rcases mem_cons.mp hs with rfl | hs
          · exact hle
          · exact le_trans hle ((pairwise_cons.mp hchain).1 s hs).2
      rw [ih hranges hsorted ?_ (pairwise_cons.mpr ⟨hinside, hchain⟩)]
      · simp only [forall_mem_cons, forall_mem_append, pairwise_cons]
        constructor
        · rintro ⟨⟨hfirst, hothers⟩, hrest⟩
          refine ⟨⟨fun s hs => ⟨.inl (.inl (hclosed s hs)), fun r hr => .inl (.inl ?_)⟩,
            fun s hs => ⟨.inr (.inr (hinside s hs)), hothers s hs⟩⟩, hfirst, hrest⟩
          exact le_trans (hclosed s hs) (hcurrent r hr).start_le
        · rintro ⟨⟨-, hothers⟩, hfirst, hrest⟩
          exact ⟨⟨hfirst, fun s hs => (hothers s hs).2⟩, hrest⟩
      · exact forall_mem_cons.mpr ⟨hcurrent, fun s hs => (forall_mem_cons.mp (hbefore s hs)).2⟩

/-- **Handlers are accepted exactly when their protected ranges nest.** -/
theorem rejectCrossingRanges_eq_ok_iff (moduleId functionId : Nat) (handlers : List Handler)
    (h : ∀ r ∈ handlers, r.protectedStart < r.protectedEnd) :
    DecodedArtifact.rejectCrossingRanges moduleId functionId handlers = .ok () ↔
      ∀ r ∈ handlers, ∀ s ∈ handlers, Nests r s := by
  have hmem := fun r => (perm_insertionSort isBefore handlers).mem_iff (a := r)
  have hscan := @crossingRanges_eq_false_iff [] (handlers.insertionSort isBefore)
    (fun r hr => h r ((hmem r).mp hr)) (pairwise_insertionSort _ _) nofun .nil
  unfold DecodedArtifact.rejectCrossingRanges
  rw [demand_eq_ok, Bool.not_eq_true', hscan, and_iff_right nofun]
  simp only [← hmem]
  exact ⟨fun hnests => hnests.forall_of_forall fun r _ => .refl r, pairwise_of_forall_mem_list⟩

theorem rejectCrossingRanges_small :
    DecodedArtifact.rejectCrossingRanges 0 0 [⟨2, 4, 5, 0⟩, ⟨1, 5, 6, 0⟩, ⟨2, 4, 7, 1⟩] = .ok () ∧
      DecodedArtifact.rejectCrossingRanges 0 0 [⟨2, 5, 6, 0⟩, ⟨1, 4, 5, 0⟩] ≠ .ok () :=
  ⟨(rejectCrossingRanges_eq_ok_iff 0 0 _ (by decide)).mpr (by decide),
    mt (rejectCrossingRanges_eq_ok_iff 0 0 _ (by decide)).mp (by decide)⟩

end Compukter
