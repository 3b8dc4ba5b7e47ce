/-
Global indices.

The types of all modules share one numbering, and so do the functions and the literals: the index of an
element is its place in its module plus the lengths of the tables of the modules before.  `resolveTypeKeys` is
the table of the way back.  `keys_iff` says that the two are inverse to each other, for any lengths; a
module without elements has an offset but no index.
-/
import Compukter.Image.Types

namespace Compukter.Image

open Fallible List Option

/-! ## Offsets -/

theorem admitU32_eq_ok {n m : Nat} : admitU32 n = .ok m ↔ n < 2 ^ 32 ∧ m = n := by
  rw [admitU32, demandSome_eq_ok, checkedU32]
  split
  · next hsmall => exact ⟨fun h => ⟨hsmall, (some.inj h).symm⟩, fun h => congrArg some h.2.symm⟩
  · next hlarge => exact ⟨fun h => (by cases h), fun h => absurd h.1 hlarge⟩

theorem offsetsFrom_eq_cons (base : Nat) (lengths : List Nat) :
    offsetsFrom base lengths = base :: (offsetsFrom base lengths).tail := by
  cases lengths <;> rfl

variable {lengths : List Nat} {base : Nat}

theorem le_of_offsetsFrom {j start : Nat} (h : (offsetsFrom base lengths)[j]? = some start) : base ≤ start := by
  induction lengths generalizing base j with
  | nil =>
    cases j with
    | zero =>
      cases h
      exact Nat.le_refl _
    | succ => cases h
  | cons n _ ih =>
    cases j with
    | zero =>
      cases h
      exact Nat.le_refl _
    | succ =>
      have hle : base + n ≤ start := ih h
      omega

theorem exists_offsetsFrom {j n : Nat} (h : lengths[j]? = some n) :
    ∃ start, (offsetsFrom base lengths)[j]? = some start := by
  induction lengths generalizing base j with
  | nil => cases h
  | cons _ _ ih =>
    cases j with
    | zero => exact ⟨base, rfl⟩
    | succ => exact ih h

/-- The offset after a module is the one before it and the length of its table. -/
theorem offsetsFrom_succ {j stop : Nat} : (offsetsFrom base lengths)[j + 1]? = some stop ↔
      ∃ start n, (offsetsFrom base lengths)[j]? = some start ∧ lengths[j]? = some n ∧ stop = start + n := by
  induction lengths generalizing base j with
  | nil => simp [offsetsFrom]
  | cons _ rest ih =>
    cases j with
    | zero =>
      cases rest with
      | nil | cons => simp [offsetsFrom, eq_comm]
    | succ => exact ih

variable {key : TypeKey} {index : Nat}

theorem checkedGlobalIndex_eq_some : checkedGlobalIndex (offsets lengths) key = some index ↔
      ∃ start n, (offsets lengths)[key.module]? = some start ∧ lengths[key.module]? = some n ∧ key.ty < n ∧
        index = start + key.ty := by
  unfold checkedGlobalIndex offsets
  constructor
  · intro h
    obtain ⟨start, hstart, h⟩ := bind_eq_some_iff.mp h
    obtain ⟨_, hstop, h⟩ := bind_eq_some_iff.mp h
    obtain ⟨_, n, hstart', hn, rfl⟩ := offsetsFrom_succ.mp hstop
    cases hstart.symm.trans hstart'
    split at h
    · next hlt => exact ⟨start, n, hstart, hn, by omega, (some.inj h).symm⟩
    · cases h
  · rintro ⟨start, n, hstart, hn, hlt, rfl⟩
    have hstop := offsetsFrom_succ.mpr ⟨start, n, hstart, hn, rfl⟩
    simp only [hstart, hstop]
    exact if_pos (by omega)

/-- The element of a table, by its offset in the tables of all modules. -/
theorem getElem?_offsets {α β : Type} (table : α → List β) {modules : List α} {start i j : Nat} {m : α}
    (hm : modules[i]? = some m) (hstart : (offsetsFrom base (modules.map fun m => (table m).length))[i]? = some start)
    (hj : j < (table m).length) : base ≤ start ∧ (modules.flatMap table)[start - base + j]? = (table m)[j]? := by
  induction modules generalizing base i with
  | nil => cases hm
  | cons first rest ih =>
    rw [flatMap_cons]
    cases i with
    | zero =>
      cases hm
      cases hstart
      rw [Nat.sub_self, Nat.zero_add]
      exact ⟨Nat.le_refl _, getElem?_append_left hj⟩
    | succ =>
      obtain ⟨hle, hget⟩ : base + (table first).length ≤ start ∧
          (rest.flatMap table)[start - (base + (table first).length) + j]? = (table m)[j]? := ih hm hstart
      refine ⟨by omega, ?_⟩
      rw [getElem?_append_right (by omega), ← hget]
      congr 1
      omega

/-! ## The way back -/

/-- The keys in the order of their indices. -/
def keysFrom : Nat → List Nat → List TypeKey
  | _, [] => []
  | moduleId, n :: rest => (List.range n).map (⟨moduleId, ·⟩) ++ keysFrom (moduleId + 1) rest

variable {moduleId : Nat}

theorem keysFrom_iff {i : Nat} {key : TypeKey} : (keysFrom moduleId lengths)[i]? = some key ↔
      ∃ j start n, key.module = moduleId + j ∧ (offsetsFrom base lengths)[j]? = some start ∧
        lengths[j]? = some n ∧ key.ty < n ∧ base + i = start + key.ty := by
  induction lengths generalizing base moduleId i with
  | nil =>
    constructor
    · intro h
      cases h
    · rintro ⟨j, start, n, -, -, hn, -⟩
      cases hn
  | cons n rest ih =>
    rw [keysFrom, getElem?_append, length_map, length_range]
    split
    · -- a type of the first module
      next hlt =>
      rw [getElem?_map, getElem?_range hlt, map_some, some_inj]
      constructor
      · rintro rfl
        exact ⟨0, base, n, rfl, rfl, rfl, hlt, rfl⟩
      · rintro ⟨j, start, m, hmodule, hstart, hm, hty, hi⟩
        cases j with
        | zero =>
          cases hstart
          obtain ⟨module, ty⟩ := key
          simp_all
        | succ =>
          have hle : base + n ≤ start := le_of_offsetsFrom hstart
          omega
    · next hle =>
      rw [@ih (base + n)]
      constructor
      · rintro ⟨j, start, m, hmodule, hstart, hm, hty, hi⟩
        exact ⟨j + 1, start, m, by omega, hstart, hm, hty, by omega⟩
      · rintro ⟨j, start, m, hmodule, hstart, hm, hty, hi⟩
        cases j with
        | zero =>
          cases hstart
          cases hm
          omega
        | succ j => exact ⟨j, start, m, by omega, hstart, hm, hty, by omega⟩

/-- **An index and its key.** -/
theorem keys_iff : checkedGlobalIndex (offsets lengths) key = some index ↔ (keysFrom 0 lengths)[index]? = some key := by
  rw [checkedGlobalIndex_eq_some, @keysFrom_iff lengths 0]
  simp [offsets]

theorem length_keysFrom (moduleId : Nat) (lengths : List Nat) : (keysFrom moduleId lengths).length = lengths.sum := by
  induction lengths generalizing moduleId with
  | nil => rfl
  | cons _ _ ih => rw [keysFrom, length_append, length_map, length_range, ih, sum_cons]

theorem typeKeysFrom_eq_ok {keys : List TypeKey}
    (h : typeKeysFrom moduleId (offsetsFrom base lengths) = .ok keys) : keys = keysFrom moduleId lengths := by
  induction lengths generalizing base moduleId keys with
  | nil =>
    cases h
    rfl
  | cons _ _ ih =>
    rw [offsetsFrom, offsetsFrom_eq_cons, typeKeysFrom, ← offsetsFrom_eq_cons] at h
    simp only [bind_eq_ok] at h
    obtain ⟨_, -, _, hmodule, _, hfirst, _, hlater, h⟩ := h
    cases h
    obtain ⟨-, rfl⟩ := admitU32_eq_ok.mp hmodule
    rw [keysFrom, ih hlater]
    congr 1
    rw [Nat.add_sub_cancel_left] at hfirst
    refine mapM_eq_map (fun ty key hkey => ?_) hfirst
    obtain ⟨ty', hty, hok⟩ := bind_eq_ok.mp hkey
    obtain ⟨-, rfl⟩ := admitU32_eq_ok.mp hty
    exact (Except.ok.inj hok).symm

theorem exists_typeKeysFrom (hmodules : moduleId + lengths.length ≤ 2 ^ 32)
    (hlengths : ∀ n ∈ lengths, n ≤ 2 ^ 32) : ∃ keys, typeKeysFrom moduleId (offsetsFrom base lengths) = .ok keys := by
  induction lengths generalizing base moduleId with
  | nil => exact ⟨[], rfl⟩
  | cons n _ ih =>
    rw [length_cons] at hmodules
    obtain ⟨later, hlater⟩ := @ih (base + n) (moduleId + 1) (by omega) fun n hn => hlengths n (mem_cons_of_mem _ hn)
    obtain ⟨first, hfirst⟩ : ∃ first, (range (base + n - base)).mapM
        (fun ty => do return (⟨moduleId, ← admitU32 ty⟩ : TypeKey)) = Except.ok first := by
      refine exists_mapM fun ty hty => ⟨⟨moduleId, ty⟩, ?_⟩
      have hn := hlengths n mem_cons_self
      rw [mem_range, Nat.add_sub_cancel_left] at hty
      rw [admitU32_eq_ok.mpr ⟨by omega, rfl⟩]
      rfl
    have horder : demand (base ≤ base + n) AdmissionError.invalidEntry = .ok () := demand_eq_ok.mpr (by simp)
    refine ⟨first ++ later, ?_⟩
    rw [offsetsFrom, offsetsFrom_eq_cons, typeKeysFrom, ← offsetsFrom_eq_cons, horder, ok_bind,
      admitU32_eq_ok.mpr ⟨by omega, rfl⟩, ok_bind, hfirst, ok_bind, hlater]
    rfl

theorem resolveTypeKeys_eq (lengths : List Nat) : resolveTypeKeys (offsets lengths) = typeKeysFrom 0 (offsets lengths) := by
  have hhead : demand ((offsets lengths).head? == some 0) AdmissionError.invalidEntry = .ok () := by
    rw [offsets, offsetsFrom_eq_cons]
    rfl
  rw [resolveTypeKeys, hhead, ok_bind]

end Compukter.Image
