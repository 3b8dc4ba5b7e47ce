/-
Revisions.

A guarded replacement names the generation of the file it was decided on.  Files are moved with the
directories above them and moved back, so a path alone says little; but a change stamps at most one node, with
a generation of its own.  In a whole history a generation stands for one state of one node.
-/
import Compukter.Filesystem.ReplayRun

namespace Compukter.Filesystem

open Forest Transaction ComputerFileSystem

variable {sha256 : List UInt8 → Digest} {limits : FileSystemLimits}

def stamp : FileInfo ⊕ Nat → Nat := Sum.elim FileInfo.generation id

/-- The nodes of a tree, wherever they are. -/
def shown (home : Directory) : Set (FileInfo ⊕ Nat) := {a | ∃ q, view home q = some a}

/-- After a change there are the nodes there were, and at most one with the new generation. -/
theorem Change.shown_subset {generation : Nat} {home home' : Directory} {mutation : Mutation}
    (h : Change sha256 limits generation home mutation home') (hhome : Ordered home) :
    ∃ new, stamp new = generation ∧ shown home' ⊆ insert new (shown home) := by
  have hput {parent : List Component} {name : Component} {d : Directory} {node : Node} (hleaf : node.children = [])
      (hd : below? home parent = some d) :
      shown (edit (OrderedMap.insert name node) home parent) ⊆ insert node.info (shown home) := by
    rintro a ⟨q, hq⟩
    rw [view_edit_insert hd, hleaf, view_empty] at hq
    grind [shown]
  cases h with
  | createDirectory hd | putFile hd => exact ⟨_, rfl, hput rfl hd⟩
  | remove hd =>
    refine ⟨.inr generation, rfl, ?_⟩
    rintro a ⟨q, hq⟩
    rw [view_edit_erase hd] at hq
    grind [shown]
  | @rename _ _ _ _ _ _ node _ hs hnode hd hwithin =>
    obtain ⟨d, hd, -⟩ := below?_edit_erase hhome hs hd fun hp => hwithin (hp.trans (List.prefix_append _ _))
    refine ⟨(setGeneration generation node).info, by cases node <;> rfl, ?_⟩
    rintro a ⟨q, hq⟩
    rw [view_move hs hnode hd (children_setGeneration _ _)] at hq
    grind [shown]

/-- **A generation stands for one node in all of a history**, whatever was written, removed and moved. -/
theorem generations_identify_nodes {start fs : ComputerFileSystem} {log : List Accepted}
    (haccounted : Accounted start) (hhome : start.home = []) (h : History sha256 start log fs) :
    Set.InjOn stamp {a | ∃ x ∈ log, a ∈ shown x.after.home} := by
  suffices hnodes : ∃ S : Set (FileInfo ⊕ Nat), S.InjOn stamp ∧ (∀ a ∈ S, stamp a ≤ fs.generation) ∧
      shown fs.home ⊆ S ∧ ∀ x ∈ log, shown x.after.home ⊆ S by
    obtain ⟨S, hinj, -, -, hlog⟩ := hnodes
    exact hinj.mono (by grind)
  induction h with
  | start => exact ⟨∅, by simp, by simp, by simp [hhome, shown], by simp⟩
  | @accept _ fs fs' _ _ _ h hrun ih =>
    obtain ⟨S, hinj, hle, hshown, hlog⟩ := ih
    have hfs := (h.kept haccounted).accounted
    have hcommitted : Committed sha256 fs _ fs' := (perform_ends sha256 hfs _).ok hrun
    obtain ⟨new, hnew, hsub⟩ := hcommitted.change.shown_subset fun path d hd => (hfs.home path d hd).1
    have hgeneration : fs'.generation = fs.generation + 1 := congrArg ComputerFileSystem.generation hcommitted.state
    exact ⟨insert new S, by grind [Set.InjOn], by grind, by grind, by grind⟩
  | reply h hrun =>
    have hsame : SameData _ _ := (perform_ends sha256 (h.kept haccounted).accounted _).ok hrun
    rwa [hsame]
  | refuse h hrun =>
    have hsame : SameData _ _ := (perform_ends sha256 (h.kept haccounted).accounted _).error hrun
    rwa [hsame]

/-- A directory with a file in it is moved away and moved back. -/
theorem generations_identify_nodes_moved :
    ∃ log fs, History (fun _ => blankDigest) (withLimits FileSystemLimits.testing) log fs ∧
      log.map (·.publication.mutation.operation) = [.createDirectory [homeName, romName] 1,
        .putFile [homeName, romName, homeName] 2 1 blankDigest false,
        .rename [homeName, romName] [homeName, homeName] false,
        .rename [homeName, homeName] [homeName, romName] false] ∧
      Set.InjOn stamp {a | ∃ x ∈ log, a ∈ shown x.after.home} := by
  have hlog : logOf (fun _ => blankDigest) (withLimits FileSystemLimits.testing)
    [.createDirectory openGate homeOwner [homeName, romName],
      .writeFile openGate homeOwner [homeName, romName, homeName] [7] false,
      .rename openGate homeOwner [homeName, romName] [homeName, homeName] false,
      .rename openGate homeOwner [homeName, homeName] [homeName, romName] false] = some (_, _) := rfl
  have h := History.start.append_log hlog
  exact ⟨_, _, h, rfl, generations_identify_nodes (withLimits_accounted _) rfl h⟩

end Compukter.Filesystem
