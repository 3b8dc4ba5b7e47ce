/-
Objects and quotas.

An object is found by the digest of its bytes and counts the file nodes that hold it.  The quota ledger counts
bytes and nodes.  Both rely on their callers to take away only what was added; where they do not, the source
stops with a panic, and so does the model.

The digest function comes from outside the repository and is a parameter wherever it is used.
-/
import Compukter.Filesystem.Path
import Compukter.Lib.OrderedMap

namespace Compukter.Filesystem

open Fallible OrderedMap Option

/-- Why a call does not return. -/
inductive Panic where
  | missingObject | referenceOverflow | underflow | missingNode
  deriving DecidableEq

/-! ## Objects -/

/-- The 32 bytes of a digest. -/
structure Digest where
  bytes : List UInt8
  length_eq : bytes.length = 32

def blankDigest : Digest := ⟨List.replicate 32 0, rfl⟩

abbrev ObjectId := Digest

theorem Digest.bytes_injective : Function.Injective Digest.bytes := by
  rintro ⟨a, ha⟩ ⟨b, hb⟩ rfl
  rfl

instance : LinearOrder Digest :=
  LinearOrder.lift' (fun d => d.bytes.map UInt8.toNat) fun _ _ h =>
    Digest.bytes_injective (List.map_injective_iff.mpr (fun _ _ => UInt8.toNat_inj.mp) h)

structure StoredObject where
  bytes : List UInt8
  references : Nat
  deriving DecidableEq

abbrev ObjectStore := List (ObjectId × StoredObject)

namespace ObjectStore

def bytes (store : ObjectStore) (object : ObjectId) : Except Panic (List UInt8) := do
  let stored ← demandSome (get store object) .missingObject
  return stored.bytes

def remove (store : ObjectStore) (object : ObjectId) : Except Panic ObjectStore := do
  let stored ← demandSome (get store object) .missingObject
  demand (0 < stored.references) .underflow
  if stored.references - 1 = 0 then return erase object store
  return insert object { stored with references := stored.references - 1 } store

def replace (store : ObjectStore) (previous : Option ObjectId) (next : ObjectId) (bytes : List UInt8) :
    Except Panic ObjectStore :=
  if previous = some next then .ok store
  else do
    let stored := (get store next).getD ⟨bytes, 0⟩
    demand (stored.references + 1 < 2 ^ 32) .referenceOverflow
    let store := insert next { stored with references := stored.references + 1 } store
    match previous with
    | some previous => remove store previous
    | none => return store

/-- The store holds the objects of `held`, and counts how often each occurs there. -/
structure Counts (store : ObjectStore) (held : List ObjectId) : Prop where
  sorted : Sorted store
  references (object : ObjectId) :
    (get store object).map (·.references) = if held.count object = 0 then none else some (held.count object)

theorem counts_nil : Counts [] [] := ⟨sorted_nil, fun _ => rfl⟩

namespace Counts

variable {store : ObjectStore} {held : List ObjectId} {object : ObjectId}

theorem perm {held' : List ObjectId} (h : Counts store held) (hperm : held.Perm held') : Counts store held' :=
  ⟨h.sorted, fun object => by rw [h.references, hperm.count_eq]⟩

theorem get_of_mem (h : Counts store held) (hmem : object ∈ held) :
    ∃ stored, get store object = some stored ∧ stored.references = held.count object := by
  have hcount := h.references object
  rw [if_neg (List.count_pos_iff.mpr hmem).ne'] at hcount
  exact map_eq_some_iff.mp hcount

/-- Every object of the one store is in the other with the same bytes. -/
def KeepsBytes (store store' : ObjectStore) : Prop :=
  ∀ object stored, get store' object = some stored → ∃ old, get store object = some old ∧ old.bytes = stored.bytes

/-- A reference that is held can be given up. -/
theorem remove (h : Counts store (object :: held)) :
    ∃ store', store.remove object = .ok store' ∧ Counts store' held ∧ KeepsBytes store store' := by
  obtain ⟨stored, hget, hreferences⟩ := h.get_of_mem List.mem_cons_self
  rw [List.count_cons_self] at hreferences
  -- the other objects are counted as before
  have hother {o : ObjectId} (ho : o ≠ object) :
      (get store o).map (·.references) = if held.count o = 0 then none else some (held.count o) := by
    rw [h.references, List.count_cons_of_ne ho.symm]
  by_cases hlast : held.count object = 0
  · refine ⟨erase object store, ?_, ⟨sorted_erase h.sorted _, fun o => ?_⟩, fun o s hs => ?_⟩
    · simp [ObjectStore.remove, hget, demandSome, demand, hreferences, hlast]
    · rw [get_erase]
      split
      · next ho => rw [ho, hlast, if_pos rfl, map_none]
      · next ho => exact hother ho
    · rw [get_erase] at hs
      split at hs
      · cases hs
      · exact ⟨s, hs, rfl⟩
  · refine ⟨insert object { stored with references := stored.references - 1 } store, ?_,
      ⟨sorted_insert h.sorted _ _, fun o => ?_⟩, fun o s hs => ?_⟩
    · simp [ObjectStore.remove, hget, demandSome, demand, hreferences, hlast]
    · rw [get_insert]
      split
      · next ho => rw [ho, map_some, hreferences, Nat.add_sub_cancel, if_neg hlast]
      · next ho => exact hother ho
    · rw [get_insert] at hs
      split at hs
      · next ho =>
        cases hs
        exact ⟨stored, ho ▸ hget, rfl⟩
      · exact ⟨s, hs, rfl⟩

/-- The store with one more reference to the object, which is new with these bytes or there already. -/
def shared (store : ObjectStore) (object : ObjectId) (bytes : List UInt8) : ObjectStore :=
  let stored := (get store object).getD ⟨bytes, 0⟩
  insert object { stored with references := stored.references + 1 } store

theorem references_getD (h : Counts store held) (bytes : List UInt8) :
    ((get store object).getD ⟨bytes, 0⟩).references = held.count object := by
  have hcount := h.references object
  cases hget : get store object with
  | none =>
    rw [hget] at hcount
    split at hcount
    · next hzero => exact hzero.symm
    · cases hcount
  | some =>
    rw [hget] at hcount
    split at hcount
    · cases hcount
    · exact some.inj hcount

theorem shared_counts (h : Counts store held) (bytes : List UInt8) :
    Counts (shared store object bytes) (object :: held) := by
  refine ⟨sorted_insert h.sorted _ _, fun o => ?_⟩
  rw [shared, get_insert]
  split
  · next ho =>
    rw [ho, map_some, h.references_getD, List.count_cons_self, if_neg (Nat.succ_ne_zero _)]
  · next ho => rw [h.references, List.count_cons_of_ne (Ne.symm ho)]

theorem shared_bytes {bytes : List UInt8} {o : ObjectId} {stored : StoredObject}
    (hs : get (shared store object bytes) o = some stored) :
    (∃ old, get store o = some old ∧ old.bytes = stored.bytes) ∨ (o = object ∧ stored.bytes = bytes) := by
  rw [shared, get_insert] at hs
  split at hs
  · next ho =>
    cases hs
    cases hget : get store object with
    | none => exact .inr ⟨ho, rfl⟩
    | some old => exact .inl ⟨old, ho ▸ hget, rfl⟩
  · exact .inl ⟨stored, hs, rfl⟩

/-- A file gives up its object, if it had one, for another; or the count of the other is at its end. -/
theorem replace {previous : Option ObjectId} (h : Counts store (previous.toList ++ held)) (bytes : List UInt8) :
    (∃ store', store.replace previous object bytes = .ok store' ∧ Counts store' (object :: held) ∧
      ∀ o stored, get store' o = some stored →
        (∃ old, get store o = some old ∧ old.bytes = stored.bytes) ∨ (o = object ∧ stored.bytes = bytes)) ∨
    (store.replace previous object bytes = .error .referenceOverflow ∧
      2 ^ 32 ≤ (previous.toList ++ held).count object + 1) := by
  by_cases hsame : previous = some object
  · subst hsame
    exact .inl ⟨store, if_pos rfl, h, fun o stored hs => .inl ⟨stored, hs, rfl⟩⟩
  · have hreferences : ((get store object).getD ⟨bytes, 0⟩).references = _ := h.references_getD bytes
    rw [ObjectStore.replace, if_neg hsame]
    simp only [hreferences]
    by_cases hlimit : (previous.toList ++ held).count object + 1 < 2 ^ 32
    · have hshared : Counts (shared store object bytes) _ := h.shared_counts bytes
      rw [demand_decide hlimit, ok_bind]
      simp only [← hreferences]
      cases previous with
      | none => exact .inl ⟨_, rfl, hshared, fun o stored hs => shared_bytes hs⟩
      | some =>
        obtain ⟨store', hremove, hcounts, hkeep⟩ := (hshared.perm (List.Perm.swap _ _ _)).remove
        refine .inl ⟨store', hremove, hcounts, fun o stored hs => ?_⟩
        obtain ⟨old, hold, hbytes⟩ := hkeep o stored hs
        exact hbytes ▸ shared_bytes hold
    · refine .inr ⟨?_, Nat.le_of_not_lt hlimit⟩
      rw [demand, if_neg (by simpa using hlimit)]
      rfl

end Counts

end ObjectStore

/-! ## Quotas -/

structure MutationCost where
  logicalBytesAdded : Nat := 0
  nodesAdded : Nat := 0
  deriving DecidableEq

structure QuotaLedger where
  (maximumLogicalBytes maximumNodes logicalBytes nodes : Nat)
  deriving DecidableEq

namespace QuotaLedger

def new (limits : FileSystemLimits) (initialNodes : Nat) : QuotaLedger where
  maximumLogicalBytes := limits.maximumLogicalBytes
  maximumNodes := limits.maximumNodes
  logicalBytes := 0
  nodes := initialNodes

variable (quota : QuotaLedger)

def reserve (cost : MutationCost) : Except FileSystemError MutationCost := do
  let logicalBytes := quota.logicalBytes + cost.logicalBytesAdded
  demand (logicalBytes < 2 ^ 64) .quotaExceeded
  let nodes := quota.nodes + cost.nodesAdded
  demand (nodes < 2 ^ 32) .quotaExceeded
  demand (!(logicalBytes > quota.maximumLogicalBytes || nodes > quota.maximumNodes)) .quotaExceeded
  return cost

def commit (reservation : MutationCost) : QuotaLedger :=
  { quota with
    logicalBytes := quota.logicalBytes + reservation.logicalBytesAdded
    nodes := quota.nodes + reservation.nodesAdded }

def release (logicalBytes nodes : Nat) : Except Panic QuotaLedger := do
  demand (logicalBytes ≤ quota.logicalBytes) .underflow
  demand (nodes ≤ quota.nodes) .underflow
  return { quota with
    logicalBytes := quota.logicalBytes - logicalBytes
    nodes := quota.nodes - nodes }

variable {quota : QuotaLedger}

theorem reserve_eq_ok {cost reservation : MutationCost} : quota.reserve cost = .ok reservation ↔
      (quota.logicalBytes + cost.logicalBytesAdded < 2 ^ 64 ∧ quota.nodes + cost.nodesAdded < 2 ^ 32 ∧
        quota.logicalBytes + cost.logicalBytesAdded ≤ quota.maximumLogicalBytes ∧
        quota.nodes + cost.nodesAdded ≤ quota.maximumNodes) ∧ cost = reservation := by
  simp only [reserve, bind_eq_ok, demand_eq_ok, decide_eq_true_eq, pure_eq_ok, Except.ok.injEq, Bool.not_eq_true',
    Bool.or_eq_false_iff, decide_eq_false_iff_not, not_lt]
  constructor
  · rintro ⟨-, h₁, -, h₂, -, ⟨h₃, h₄⟩, rfl⟩
    exact ⟨⟨h₁, h₂, h₃, h₄⟩, rfl⟩
  · rintro ⟨⟨h₁, h₂, h₃, h₄⟩, rfl⟩
    exact ⟨(), h₁, (), h₂, (), ⟨h₃, h₄⟩, rfl⟩

theorem release_eq_ok {logicalBytes nodes : Nat} (hbytes : logicalBytes ≤ quota.logicalBytes)
    (hnodes : nodes ≤ quota.nodes) :
    quota.release logicalBytes nodes = .ok { quota with
      logicalBytes := quota.logicalBytes - logicalBytes
      nodes := quota.nodes - nodes } := by
  simp [release, demand, hbytes, hnodes]

end QuotaLedger

end Compukter.Filesystem
