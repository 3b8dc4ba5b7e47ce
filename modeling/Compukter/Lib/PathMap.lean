/-
Ordered maps whose keys are paths.

Paths are ordered name by name, so what is below a path stands together, right after the path itself
(`takeWhile_within`).  Taking many keys out and putting many in is described by its lookups.
-/
import Mathlib.Data.List.Lex
import Mathlib.Data.List.Sort
import Compukter.Lib.OrderedMap

namespace Compukter.OrderedMap

open List

variable {κ ν : Type} [LinearOrder κ]

/-- What lies between a path and a path below it is below it as well. -/
theorem prefix_of_not_lt_of_lt {s p q : List κ} (hsp : ¬p < s) (hpq : p < q) (hsq : s <+: q) : s <+: p := by
  induction s generalizing p q with
  | nil => exact nil_prefix
  | cons a s ih =>
    obtain ⟨t, rfl⟩ := hsq
    cases p with
    | nil => exact absurd (nil_lt_cons a s) hsp
    | cons _ p =>
      rcases cons_lt_cons_iff.mp hpq with hba | ⟨rfl, hrest⟩
      · exact absurd (cons_lt_cons_iff.mpr (.inl hba)) hsp
      · have hnot : ¬p < s := fun hlt => hsp (cons_lt_cons_iff.mpr (.inr ⟨rfl, hlt⟩))
        exact cons_prefix_cons.mpr ⟨rfl, ih hnot hrest (prefix_append _ _)⟩

theorem not_lt_of_prefix {s p : List κ} (h : s <+: p) : ¬p < s := by
  induction s generalizing p with
  | nil => exact not_lt_nil p
  | cons _ _ ih =>
    obtain ⟨t, rfl⟩ := h
    intro hlt
    rcases cons_lt_cons_iff.mp hlt with hlt | ⟨-, hlt⟩
    · exact lt_irrefl _ hlt
    · exact ih (prefix_append _ _) hlt

variable {m : List (List κ × ν)}

theorem takeWhile_prefix_of_not_lt {s : List κ} (hm : Sorted m) (hs : ∀ b ∈ m, ¬b.1 < s) :
    m.takeWhile (fun b => s.isPrefixOf b.1) = m.filter fun b => s.isPrefixOf b.1 := by
  induction m with
  | nil => rfl
  | cons b m ih =>
    obtain ⟨hb, hm⟩ := pairwise_cons.mp hm
    rw [takeWhile_cons, filter_cons]
    split
    · rw [ih hm fun c hc => hs c (mem_cons_of_mem _ hc)]
    · next hp =>
      symm
      refine filter_eq_nil_iff.mpr fun c hc hcp => hp ?_
      exact isPrefixOf_iff_prefix.mpr
        (prefix_of_not_lt_of_lt (hs b mem_cons_self) (hb c hc) ( isPrefixOf_iff_prefix.mp hcp))

/-- From a path on, and as long as the keys are below it: these are all keys below it. -/
theorem takeWhile_within (hm : Sorted m) (s : List κ) :
    (m.dropWhile fun b => b.1 < s).takeWhile (fun b => s.isPrefixOf b.1) = m.filter fun b => s.isPrefixOf b.1 := by
  induction m with
  | nil => rfl
  | cons b m ih =>
    obtain ⟨hb, htail⟩ := pairwise_cons.mp hm
    rw [dropWhile_cons]
    split
    · next hlt =>
      have hnot : ¬s.isPrefixOf b.1 = true := fun hp =>
        not_lt_of_prefix ( isPrefixOf_iff_prefix.mp hp) (of_decide_eq_true hlt)
      rw [filter_cons, if_neg hnot]
      exact ih htail
    · next hlt =>
      have hlt : ¬b.1 < s := by simpa using hlt
      refine takeWhile_prefix_of_not_lt hm fun c hc => ?_
      rcases mem_cons.mp hc with rfl | hc
      · exact hlt
      · exact fun hcs => hlt ((hb c hc).trans hcs)

theorem sorted_foldl_insert {m l : List (κ × ν)} (hm : Sorted m) :
    Sorted (l.foldl (fun m b => insert b.1 b.2 m) m) := by
  induction l generalizing m with
  | nil => exact hm
  | cons b _ ih => exact ih (sorted_insert hm b.1 b.2)

section Many

variable [DecidableEq κ]

theorem sorted_foldl_erase {m l : List (κ × ν)} (hm : Sorted m) : Sorted (l.foldl (fun m b => erase b.1 m) m) := by
  induction l generalizing m with
  | nil => exact hm
  | cons b _ ih => exact ih (sorted_erase hm b.1)

omit [LinearOrder κ] in
theorem get_foldl_erase (m l : List (κ × ν)) (k : κ) :
    get (l.foldl (fun m b => erase b.1 m) m) k = if ∃ b ∈ l, b.1 = k then none else get m k := by
  induction l generalizing m with
  | nil => simp
  | cons b l ih =>
    rw [foldl_cons, ih, get_erase]
    by_cases hb : k = b.1
    · simp [hb]
    · have : (∃ c ∈ b :: l, c.1 = k) ↔ ∃ c ∈ l, c.1 = k := by simp [Ne.symm hb]
      simp only [this, if_neg hb]

theorem get_foldl_insert {l : List (κ × ν)} (hl : Unique l) (m : List (κ × ν)) (k : κ) :
    get (l.foldl (fun m b => insert b.1 b.2 m) m) k = (get l k).or (get m k) := by
  induction l generalizing m with
  | nil => rfl
  | cons b l ih =>
    obtain ⟨hb, hl⟩ := pairwise_cons.mp hl
    rw [foldl_cons, ih hl, get_insert, get_cons]
    by_cases hk : k = b.1
    · have hnone : get l k = none := get_eq_none_iff.mpr fun c hc heq => hb c hc (hk.symm.trans heq.symm)
      rw [if_pos hk, if_pos hk.symm, hnone]
      rfl
    · rw [if_neg hk, if_neg (Ne.symm hk)]

end Many

end Compukter.OrderedMap
