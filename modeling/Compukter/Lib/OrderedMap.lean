/-
Finite maps with ordered keys.

A map is the list of its bindings in the order of their keys.  What a lookup finds after an insertion or a
removal does not depend on the order, so those rules hold of every list; that the list is `Sorted` is needed
where bindings are counted, and for extensionality: sorted maps with the same lookups are equal.
-/
import Mathlib.Algebra.Order.Ring.Nat
import Mathlib.Data.List.Perm.Lattice

namespace Compukter.OrderedMap

open List

variable {κ ν : Type}

/-- No key occurs twice. -/
def Unique (m : List (κ × ν)) : Prop := m.Pairwise (fun a b => a.1 ≠ b.1)

theorem Unique.nodup {m : List (κ × ν)} (hm : Unique m) : m.Nodup := hm.imp fun hne heq => hne (by rw [heq])

section Lookup

variable [DecidableEq κ]

def get : List (κ × ν) → κ → Option ν
  | [], _ => none
  | (k', v) :: m, k => if k' = k then some v else get m k

def erase (k : κ) (m : List (κ × ν)) : List (κ × ν) := m.filter (·.1 ≠ k)

@[simp] theorem get_nil (k : κ) : get ([] : List (κ × ν)) k = none := rfl

theorem get_cons (k k' : κ) (v : ν) (m : List (κ × ν)) :
    get ((k', v) :: m) k = if k' = k then some v else get m k := rfl

variable {m : List (κ × ν)} {k : κ}

theorem mem_of_get {v : ν} (h : get m k = some v) : (k, v) ∈ m := by
  induction m with
  | nil => cases h
  | cons b m ih =>
    obtain ⟨k', v'⟩ := b
    rw [get_cons] at h
    split at h
    · next hk =>
      cases h
      rw [hk]
      exact mem_cons_self
    · exact mem_cons_of_mem _ (ih h)

theorem get_eq_none_iff : get m k = none ↔ ∀ b ∈ m, b.1 ≠ k := by
  induction m with
  | nil => simp
  | cons b _ ih =>
    obtain ⟨k', v'⟩ := b
    rw [get_cons, forall_mem_cons, ← ih]
    by_cases hk : k' = k <;> simp [hk]

theorem get_append (m m' : List (κ × ν)) (k : κ) : get (m ++ m') k = (get m k).or (get m' k) := by
  induction m with
  | nil => rfl
  | cons _ _ ih =>
    rw [cons_append, get_cons, get_cons, ih]
    split <;> rfl

theorem get_erase (k k' : κ) (m : List (κ × ν)) : get (erase k m) k' = if k' = k then none else get m k' := by
  induction m with
  | nil => simp [erase]
  | cons b _ ih =>
    obtain ⟨l, v⟩ := b
    rw [erase, filter_cons]
    by_cases hl : l = k
    · rw [if_neg (by simp [hl]), ← erase, ih, get_cons]
      by_cases hk : k' = k
      · simp [hk]
      · rw [if_neg hk, if_neg hk, if_neg (by rw [hl]; exact Ne.symm hk)]
    · rw [if_pos (by simp [hl]), get_cons, ← erase, ih, get_cons]
      by_cases hk : k' = k
      · rw [if_pos hk, if_pos hk, if_neg (by rw [hk]; exact hl)]
      · rw [if_neg hk, if_neg hk]

theorem erase_of_get_none (h : get m k = none) : erase k m = m := by
  apply filter_eq_self.mpr
  intro b hb
  exact decide_eq_true (get_eq_none_iff.mp h b hb)

theorem mem_erase {b : κ × ν} : b ∈ erase k m ↔ b ∈ m ∧ b.1 ≠ k := by
  simp [erase]

/-! ## Keys that occur once -/

theorem get_eq_some_iff (hm : Unique m) {k : κ} {v : ν} : get m k = some v ↔ (k, v) ∈ m := by
  refine ⟨mem_of_get, fun h => ?_⟩
  induction m with
  | nil => cases h
  | cons _ _ ih =>
    obtain ⟨hb, hm⟩ := pairwise_cons.mp hm
    rw [get_cons]
    rcases mem_cons.mp h with heq | h
    · cases heq
      exact if_pos rfl
    · rw [if_neg (hb _ h)]
      exact ih hm h

theorem unique_erase (hm : Unique m) (k : κ) : Unique (erase k m) := hm.filter _

/-- The bindings are known up to their order once all lookups are. -/
theorem perm_of_get_eq {m' : List (κ × ν)} (hm : Unique m) (hm' : Unique m') (h : ∀ k, get m k = get m' k) :
    m.Perm m' := by
  refine (perm_ext_iff_of_nodup hm.nodup hm'.nodup).mpr fun b => ?_
  rw [← get_eq_some_iff hm, ← get_eq_some_iff hm', h]

theorem perm_cons_erase (hm : Unique m) {k : κ} {v : ν} (h : get m k = some v) : m.Perm ((k, v) :: erase k m) := by
  refine perm_of_get_eq hm (pairwise_cons.mpr ⟨?_, unique_erase hm k⟩) fun l => ?_
  · intro b hb
    exact (mem_erase.mp hb).2.symm
  · rw [get_cons, get_erase]
    by_cases hl : l = k
    · rw [if_pos hl.symm, hl, h]
    · rw [if_neg (Ne.symm hl), if_neg hl]

end Lookup

section Order

variable [LinearOrder κ]

def insert (k : κ) (v : ν) : List (κ × ν) → List (κ × ν)
  | [] => [(k, v)]
  | (k', v') :: m =>
    if k < k' then (k, v) :: (k', v') :: m
    else if k' = k then (k, v) :: m
    else (k', v') :: insert k v m

def Sorted (m : List (κ × ν)) : Prop := m.Pairwise (fun a b => a.1 < b.1)

theorem sorted_nil : Sorted ([] : List (κ × ν)) := List.Pairwise.nil

variable {m : List (κ × ν)}

theorem Sorted.unique (hm : Sorted m) : Unique m := hm.imp ne_of_lt

theorem mem_insert {k : κ} {v : ν} {b : κ × ν} (h : b ∈ insert k v m) : b = (k, v) ∨ b ∈ m := by
  induction m with
  | nil => exact .inl (mem_singleton.mp h)
  | cons _ _ ih =>
    rw [insert] at h
    split at h
    · exact mem_cons.mp h
    · split at h
      · rcases mem_cons.mp h with h | h
        · exact .inl h
        · exact .inr (mem_cons_of_mem _ h)
      · rcases mem_cons.mp h with h | h
        · exact .inr (h ▸ mem_cons_self)
        · exact (ih h).imp_right (mem_cons_of_mem _)

theorem sorted_insert (hm : Sorted m) (k : κ) (v : ν) : Sorted (insert k v m) := by
  induction m with
  | nil => exact pairwise_singleton _ _
  | cons b m ih =>
    obtain ⟨hb, hrest⟩ := pairwise_cons.mp hm
    rw [insert]
    split
    · next hk =>
      refine pairwise_cons.mpr ⟨fun b h => ?_, hm⟩
      rcases mem_cons.mp h with rfl | h
      · exact hk
      · exact lt_trans hk (hb b h)
    · next hk =>
      split
      · next hl =>
        subst hl
        exact pairwise_cons.mpr ⟨hb, hrest⟩
      · next hl =>
        refine pairwise_cons.mpr ⟨fun b h => ?_, ih hrest⟩
        rcases mem_insert h with rfl | h
        · exact lt_of_le_of_ne (not_lt.mp hk) hl
        · exact hb b h

-- the lookups may decide equality in another way than the order does
variable [DecidableEq κ]

theorem get_insert (k k' : κ) (v : ν) (m : List (κ × ν)) :
    get (insert k v m) k' = if k' = k then some v else get m k' := by
  induction m with
  | nil => simp [insert, get_cons, eq_comm]
  | cons b m ih =>
    rw [insert]
    split
    · rw [get_cons]
      simp only [eq_comm]
    · split
      · next hl =>
        rw [get_cons, get_cons, hl]
        by_cases hk : k = k' <;> simp [hk, eq_comm]
      · next hl =>
        rw [get_cons, ih, get_cons]
        by_cases hk : k' = k
        · rw [if_pos hk, if_pos hk, if_neg (by rw [hk]; exact hl)]
        · rw [if_neg hk, if_neg hk]

theorem sorted_erase (hm : Sorted m) (k : κ) : Sorted (erase k m) := hm.filter _

theorem insert_perm (hm : Sorted m) (k : κ) (v : ν) : (insert k v m).Perm ((k, v) :: erase k m) := by
  refine perm_of_get_eq (sorted_insert hm k v).unique
    (pairwise_cons.mpr ⟨?_, unique_erase hm.unique k⟩) fun l => ?_
  · intro b hb
    exact (mem_erase.mp hb).2.symm
  · rw [get_insert, get_cons, get_erase]
    by_cases hl : l = k
    · rw [if_pos hl, if_pos hl.symm]
    · rw [if_neg hl, if_neg (Ne.symm hl), if_neg hl]

theorem length_insert_of_get_none (hm : Sorted m) {k : κ} (h : get m k = none) (v : ν) :
    (insert k v m).length = m.length + 1 := by
  rw [(insert_perm hm k v).length_eq, erase_of_get_none h, length_cons]

theorem length_insert_of_get_some (hm : Sorted m) {k : κ} {w : ν} (h : get m k = some w) (v : ν) :
    (insert k v m).length = m.length := by
  rw [(insert_perm hm k v).length_eq, (perm_cons_erase hm.unique h).length_eq]
  rfl

end Order

end Compukter.OrderedMap
