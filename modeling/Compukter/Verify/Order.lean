/-
Import cycles and inheritance cycles.

Both checks are the depth-first search of `Lib.Dfs`: over the modules and what they import, and over
the types and what they inherit from.  What the search says about its graph is said here about the artifact.
-/
import Compukter.Verify.Modules

namespace Compukter.DecodedArtifact

open Fallible Relation Dfs

variable (a : DecodedArtifact)

def ImportsFrom (moduleId target : Nat) : Prop :=
  ∃ m, a.modules[moduleId]? = some m ∧ ∃ i ∈ m.imports, i.targetModule = target

/-- The graph that `topologicalModuleOrder` searches. -/
abbrev importEdges : List (List Nat) := a.modules.map fun m => m.imports.map Import.targetModule

theorem edge_importEdges : Dfs.Edge a.importEdges = a.ImportsFrom := by
  funext moduleId target
  unfold Dfs.Edge edgesOf ImportsFrom
  cases h : a.modules[moduleId]? <;> simp [h]

theorem topologicalModuleOrder_ends : Ends a.topologicalModuleOrder
    (fun order => PostOrder a.importEdges order ∧ (∀ m, m ∈ order ↔ m < a.importEdges.length) ∧
      Ordered a.importEdges) fun _ => ¬ Ordered a.importEdges := by
  have hspec := dfs_spec a.importEdges
  unfold topologicalModuleOrder
  generalize dfs a.importEdges = result at hspec
  rcases result with (_ | _ | _) | order <;> exact hspec

theorem rejectTypeCycles_ends (edges : List (List Nat)) :
    Ends (a.rejectTypeCycles edges) (fun _ => Ordered edges) fun _ => ¬ Ordered edges := by
  have hspec := dfs_spec edges
  unfold rejectTypeCycles
  generalize dfs edges = result at hspec
  rcases result with (_ | _ | _) | order
  · exact hspec
  · exact hspec
  · exact hspec
  · exact hspec.2.2

/-- **Cycles are found.**  The modules have an order exactly when every import names a module and no module
imports itself, directly or not; then each module is listed once, after all it imports.  The types pass
exactly when every type they inherit from is one of them and none inherits from itself. -/
theorem orders_unless_cyclic :
    ((∃ order, a.topologicalModuleOrder = .ok order) ↔
      (∀ m t, a.ImportsFrom m t → t < a.modules.length) ∧ ∀ m, ¬ TransGen a.ImportsFrom m m) ∧
    (∀ order, a.topologicalModuleOrder = .ok order →
      order.Nodup ∧ (∀ m, m ∈ order ↔ m < a.modules.length) ∧
        ∀ front m back, order = front ++ m :: back → ∀ t, a.ImportsFrom m t → t ∈ front) ∧
    ∀ edges, a.rejectTypeCycles edges = .ok () ↔
      (∀ t s, Dfs.Edge edges t s → s < edges.length) ∧ ∀ t, ¬ TransGen (Dfs.Edge edges) t t := by
  have hlength : a.importEdges.length = a.modules.length := List.length_map _
  have hmodules := a.topologicalModuleOrder_ends
  rw [← edge_importEdges, ← hlength]
  refine ⟨?_, fun order horder => ?_, fun edges => ?_⟩
  · cases horder : a.topologicalModuleOrder with
    | ok order => exact iff_of_true ⟨order, rfl⟩ ((ordered_iff _).mp (hmodules.of_ok horder).2.2)
    | error => exact iff_of_false nofun (mt (ordered_iff _).mpr (hmodules.of_error horder))
  · obtain ⟨hpost, hmem, -⟩ := hmodules.of_ok horder
    exact ⟨hpost.nodup, hmem, hpost.before⟩
  · have htypes := a.rejectTypeCycles_ends edges
    cases hchecked : a.rejectTypeCycles edges with
    | ok => exact iff_of_true rfl ((ordered_iff _).mp (htypes.of_ok hchecked))
    | error => exact iff_of_false nofun (mt (ordered_iff _).mpr (htypes.of_error hchecked))

end Compukter.DecodedArtifact
