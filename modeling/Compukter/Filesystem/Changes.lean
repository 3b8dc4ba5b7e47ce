/-
What a call changes in `/home`.

Four things can happen to the tree: a directory or a file is put in its place, a leaf is taken away, or a
node is moved.  `Change` lists them with what the calls have checked before.

The quota and the reference counts only see what the entries of the tree are charged.  `entries_split`
sets the entry apart that a change takes away, and a move changes no charge (`entries_rename`).
-/
import Compukter.Filesystem.Calls

namespace Compukter.Filesystem

open OrderedMap Forest

section Change

variable (sha256 : List UInt8 → Digest) (limits : FileSystemLimits) (generation : Nat) (home : Directory)

/-- The change a call makes in the tree, with the mutation it hands to the gate. -/
inductive Change : Mutation → Directory → Prop where
  | createDirectory {parent : List Component} {name : Component} {d : Directory}
      (hd : below? home parent = some d) (hnew : OrderedMap.get d name = none)
      (hlimit : d.length < limits.maximumDirectoryEntries) :
      Change ⟨generation, none, .createDirectory (homeName :: (parent ++ [name])) generation⟩
        (edit (insert name (.directory generation [])) home parent)
  | putFile {parent : List Component} {name : Component} {d : Directory} {bytes : List UInt8} {executable : Bool}
      (hd : below? home parent = some d)
      (hold : ∀ old, OrderedMap.get d name = some old → ∃ info, old = .file info)
      (hlimit : OrderedMap.get d name = none → d.length < limits.maximumDirectoryEntries)
      (hsize : bytes.length ≤ limits.maximumFileBytes) :
      Change ⟨generation, some (sha256 bytes, bytes),
          .putFile (homeName :: (parent ++ [name])) generation bytes.length (sha256 bytes) executable⟩
        (edit (insert name (.file ⟨sha256 bytes, bytes.length, generation, executable⟩)) home parent)
  | remove {parent : List Component} {name : Component} {d : Directory} {node : Node}
      (hd : below? home parent = some d) (hnode : OrderedMap.get d name = some node)
      (hleaf : node.children = []) :
      Change ⟨generation, none, .remove (homeName :: (parent ++ [name]))⟩ (edit (erase name) home parent)
  | rename {sp dp : List Component} {sn dn : Component} {sd dd : Directory} {node : Node} {replace : Bool}
      (hs : below? home sp = some sd) (hnode : OrderedMap.get sd sn = some node)
      (hd : below? home dp = some dd) (hwithin : ¬sp ++ [sn] <+: dp ++ [dn])
      (hold : ∀ old, OrderedMap.get dd dn = some old →
        replace = true ∧ old.children = [] ∧ (metadata old).kind = (metadata node).kind)
      (hlimit : OrderedMap.get dd dn = none → dd.length < limits.maximumDirectoryEntries) :
      Change ⟨generation, none, .rename (homeName :: (sp ++ [sn])) (homeName :: (dp ++ [dn])) replace⟩
        (move home sp sn dp dn (setGeneration generation node))

end Change

@[simp] theorem children_setGeneration (generation : Nat) (node : Node) :
    (setGeneration generation node).children = node.children := by
  cases node <;> rfl

/-- No directory gets more names than the limit allows. -/
theorem Change.limited {sha256 : List UInt8 → Digest} {limits : FileSystemLimits} {generation : Nat}
    {home home' : Directory} {mutation : Mutation} (h : Change sha256 limits generation home mutation home')
    (hhome : Everywhere (Limited limits.maximumDirectoryEntries) home) :
    Everywhere (Limited limits.maximumDirectoryEntries) home' := by
  have hempty : Everywhere (Limited limits.maximumDirectoryEntries) ([] : Directory) := by
    intro path d hd
    cases path with
    | nil =>
      cases hd
      exact ⟨sorted_nil, Nat.zero_le _⟩
    | cons => cases hd
  cases h with
  | createDirectory hd _ hlimit =>
    exact hhome.edit_limited hd (.insert (hhome.below hd) ((hhome.below hd).here.insert (fun _ => hlimit) _) hempty)
  | putFile hd _ hlimit =>
    exact hhome.edit_limited hd (.insert (hhome.below hd) ((hhome.below hd).here.insert hlimit _) hempty)
  | remove hd =>
    exact hhome.edit_limited hd (.erase (hhome.below hd) ((hhome.below hd).here.erase _))
  | rename hs hnode hd hwithin _ hlimit =>
    exact hhome.move_limited hs hnode hd hwithin hlimit (children_setGeneration _ _)

/-! ## What the entries of a tree are charged -/

abbrev Entry := List Component × (FileInfo ⊕ Nat)

/-- A file is charged its object and its size. -/
def charge : FileInfo ⊕ Nat → Option (ObjectId × Nat)
  | .inl info => some (info.object, info.logicalSize)
  | .inr _ => none

def charges (entries : List Entry) : List (ObjectId × Nat) := entries.filterMap fun e => charge e.2

theorem charges_append (l l' : List Entry) : charges (l ++ l') = charges l ++ charges l' := List.filterMap_append

theorem charges_cons (e : Entry) (l : List Entry) : charges (e :: l) = (charge e.2).toList ++ charges l := by
  rw [charges, List.filterMap_cons]
  cases charge e.2 <;> rfl

theorem charges_perm {l l' : List Entry} (h : l.Perm l') : (charges l).Perm (charges l') := h.filterMap _

theorem charge_info (node : Node) :
    charge node.info = (nodeObject node).map fun object => (object, (metadata node).logicalSize) := by
  cases node <;> rfl

theorem charge_setGeneration (generation : Nat) (node : Node) :
    charge (setGeneration generation node).info = charge node.info := by
  cases node <;> rfl

section Balance

variable {home : Directory} (hhome : Ordered home) {parent : List Component} {name : Component}
  {d : Directory} (hd : below? home parent = some d)

include hhome hd

/-- The entry of a name in its directory, apart from the others. -/
theorem entries_split {old : Option Node} (hname : get d name = old) :
    (entries home).Perm (old.toList.map (fun node => (parent ++ [name], node.info)) ++
      erase (parent ++ [name]) (entries home)) := by
  have hview : get (entries home) (parent ++ [name]) = old.map Node.info := by
    rw [get_entries hhome, view_append hd (by simp), view_singleton, hname]
  cases old with
  | none =>
    rw [erase_of_get_none hview]
    exact List.Perm.refl _
  | some => exact perm_cons_erase (unique_entries hhome) hview

theorem entries_createDirectory (hnew : get d name = none) (generation : Nat) :
    (entries (edit (insert name (.directory generation [])) home parent)).Perm
      ((parent ++ [name], .inr generation) :: erase (parent ++ [name]) (entries home)) :=
  entries_edit_insert hhome hd rfl (leaf_of_none hnew)

omit hhome hd in
theorem leaf_of_file (hold : ∀ old, get d name = some old → ∃ info, old = .file info) : Leaf d name := by
  intro old hget
  obtain ⟨info, rfl⟩ := hold old hget
  rfl

theorem entries_putFile (hold : ∀ old, get d name = some old → ∃ info, old = .file info) (info : FileInfo) :
    (entries (edit (insert name (.file info)) home parent)).Perm
      ((parent ++ [name], .inl info) :: erase (parent ++ [name]) (entries home)) :=
  entries_edit_insert hhome hd rfl (leaf_of_file hold)

theorem entries_remove {node : Node} (hnode : get d name = some node) (hleaf : node.children = []) :
    (entries (edit (erase name) home parent)).Perm (erase (parent ++ [name]) (entries home)) :=
  entries_edit_erase hhome hd (leaf_of_some hnode hleaf)

end Balance

/-- A move takes away the entry of the node that was replaced, and changes no charge. -/
theorem entries_rename {home sd dd : Directory} (hhome : Ordered home) {sp dp : List Component}
    {sn dn : Component} {node : Node} (hs : below? home sp = some sd)
    (hnode : get sd sn = some node) (hd : below? home dp = some dd) (hwithin : ¬sp ++ [sn] <+: dp ++ [dn])
    (hleaf : Leaf dd dn) (generation : Nat) :
    ((entries (move home sp sn dp dn (setGeneration generation node))).length =
      (erase (dp ++ [dn]) (entries home)).length) ∧
    (charges (entries (move home sp sn dp dn (setGeneration generation node)))).Perm
      (charges (erase (dp ++ [dn]) (entries home))) := by
  obtain ⟨d₁, hd₁, -, -⟩ := below?_edit_erase hhome hs hd fun hp =>
    hwithin (hp.trans (List.prefix_append dp [dn]))
  have hperm := entries_move hhome hs hnode hd₁ (children_setGeneration generation node) hwithin
    fun q hq hne => view_of_leaf hd hleaf hq hne
  refine ⟨by rw [hperm.length_eq, List.length_map], (charges_perm hperm).trans ?_⟩
  rw [charges, charges, List.filterMap_map]
  refine List.Perm.of_eq (List.filterMap_congr fun e he => ?_)
  have hview := (mem_entries hhome).mp (mem_erase.mp he).1
  simp only [Function.comp_apply, moved]
  split
  · split
    · next hsource =>
      rw [hsource, view_append hs (by simp), view_singleton, hnode] at hview
      rw [charge_setGeneration, ← Option.some.inj hview]
    · rfl
  · rfl

section Charges

variable {sha256 : List UInt8 → Digest} {limits : FileSystemLimits} {generation : Nat} {home home' : Directory}
  {mutation : Mutation}

variable (h : Change sha256 limits generation home mutation home')
include h

/-- An object is named by its digest. -/
theorem Change.object_eq {object : ObjectId}
    {bytes : List UInt8} (hobject : mutation.object = some (object, bytes)) : object = sha256 bytes := by
  cases h with
  | putFile =>
    cases hobject
    rfl
  | createDirectory | remove | rename => cases hobject

/-- What is charged after a change was charged before, or is for the contents the change brings. -/
theorem Change.charge_mem (hhome : Ordered home) {c : ObjectId × Nat} (hc : c ∈ charges (entries home')) :
    c ∈ charges (entries home) ∨
      ∃ bytes, mutation.object = some (sha256 bytes, bytes) ∧ c = (sha256 bytes, bytes.length) := by
  have hsub (path : List Component) (hc : c ∈ charges (erase path (entries home))) :
      c ∈ charges (entries home) := by
    obtain ⟨e, he, hcharge⟩ := List.mem_filterMap.mp hc
    exact List.mem_filterMap.mpr ⟨e, (mem_erase.mp he).1, hcharge⟩
  cases h with
  | createDirectory hd hnew =>
    have hperm := entries_createDirectory hhome hd hnew generation
    exact .inl (hsub _ ((charges_perm hperm).mem_iff.mp hc))
  | @putFile _ _ _ bytes executable hd hold _ _ =>
    have hperm := entries_putFile hhome hd hold ⟨sha256 bytes, bytes.length, generation, executable⟩
    rcases List.mem_cons.mp ((charges_perm hperm).mem_iff.mp hc) with rfl | hc
    · exact .inr ⟨bytes, rfl, rfl⟩
    · exact .inl (hsub _ hc)
  | remove hd hnode hleaf =>
    have hperm := entries_remove hhome hd hnode hleaf
    exact .inl (hsub _ ((charges_perm hperm).mem_iff.mp hc))
  | rename hs hnode hd hwithin hold =>
    have hperm := (entries_rename hhome hs hnode hd hwithin (fun old hget => (hold old hget).2.1) generation).2
    exact .inl (hsub _ (hperm.mem_iff.mp hc))

end Charges

end Compukter.Filesystem
