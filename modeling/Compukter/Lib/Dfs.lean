/-
Depth-first search with colours, over adjacency lists.

A node is new, open (on the stack) or finished.  The search stops at an edge to an open node, which
closes a cycle, and at an edge that leaves the graph; otherwise it lists the nodes as it finishes them.

**The invariant** (`Searching`): the open nodes are the path on the stack, and the finished ones are
listed after everything they lead to (`PostOrder`).  `work` counts what is left to look at, which bounds
the fuel.
-/
import Mathlib.Data.List.Nodup
import Compukter.Lib.Fallible

namespace Compukter

open Fallible Relation List

inductive Colour
  | new | opened | finished
  deriving DecidableEq

inductive DfsStop
  | outOfRange (node : Nat)
  | cycle (node : Nat)
  | outOfFuel
  deriving DecidableEq

/-- The top of the stack is the head of the list; an entry is a node and its next edge. -/
structure Dfs where
  colours : List Colour
  order : List Nat
  stack : List (Nat × Nat)

section Search

variable (edges : List (List Nat))

def edgesOf (node : Nat) : List Nat := (edges[node]?).getD []

def dfsVisit : Nat → Dfs → Except DfsStop Dfs
  | 0, _ => .error .outOfFuel
  | fuel + 1, d =>
    match d.stack with
    | [] => .ok d
    | (node, edge) :: rest =>
      match (edgesOf edges node)[edge]? with
      | none => dfsVisit fuel ⟨d.colours.set node .finished, d.order ++ [node], rest⟩
      | some target =>
        match d.colours[target]? with
        | none => .error (.outOfRange node)
        | some .new =>
          dfsVisit fuel ⟨d.colours.set target .opened, d.order, (target, 0) :: (node, edge + 1) :: rest⟩
        | some .opened => .error (.cycle node)
        | some .finished => dfsVisit fuel ⟨d.colours, d.order, (node, edge + 1) :: rest⟩

def dfsRoots (fuel : Nat) : List Nat → Dfs → Except DfsStop Dfs
  | [], d => .ok d
  | root :: roots, d =>
    if d.colours[root]? = some .new then do
      let d' ← dfsVisit edges fuel ⟨d.colours.set root .opened, d.order, [(root, 0)]⟩
      dfsRoots fuel roots d'
    else dfsRoots fuel roots d

def dfsFuel : Nat := (edges.map fun l => l.length + 2).sum + 1

/-- The nodes in the order in which the search finishes them. -/
def dfs : Except DfsStop (List Nat) := do
  let d ← dfsRoots edges (dfsFuel edges) (List.range edges.length)
    ⟨List.replicate edges.length .new, [], []⟩
  return d.order

/-! ## The graph -/

namespace Dfs

def Edge (u v : Nat) : Prop := v ∈ edgesOf edges u

/-- No edge leaves the graph, and none lies on a cycle. -/
@[mk_iff ordered_iff]
structure Ordered : Prop where
  inside : ∀ u v, Edge edges u v → v < edges.length
  acyclic : ∀ u, ¬ TransGen (Edge edges) u u

/-- Distinct nodes, each after all nodes it leads to. -/
structure PostOrder (order : List Nat) : Prop where
  nodup : order.Nodup
  before : ∀ front u back, order = front ++ u :: back → ∀ v, Edge edges u v → v ∈ front

variable {edges} {order : List Nat} {u v : Nat}

theorem PostOrder.snoc (h : PostOrder edges order) (hnew : u ∉ order)
    (hedges : ∀ v, Edge edges u v → v ∈ order) : PostOrder edges (order ++ [u]) := by
  refine ⟨h.nodup.append (nodup_singleton _) (disjoint_singleton.mpr hnew), ?_⟩
  intro front w back hsplit v hv
  rcases eq_nil_or_concat' back with rfl | ⟨back, last, rfl⟩
  · obtain ⟨rfl, hw⟩ := append_inj' hsplit rfl
    cases hw
    exact hedges v hv
  · rw [← cons_append, ← append_assoc] at hsplit
    exact h.before _ _ _ (append_inj' hsplit rfl).1 v hv

theorem PostOrder.before_of_transGen (h : PostOrder edges order) {front back : List Nat}
    (hsplit : order = front ++ u :: back) (huv : TransGen (Edge edges) u v) : v ∈ front := by
  induction huv using TransGen.head_induction_on generalizing front back with
  | single huv => exact h.before _ _ _ hsplit _ huv
  | head huw _ ih =>
    obtain ⟨_, mid, rfl⟩ := append_of_mem (h.before _ _ _ hsplit _ huw)
    exact mem_append_left _ (ih (hsplit.trans (append_assoc ..)))

theorem PostOrder.acyclic (h : PostOrder edges order) (hu : u ∈ order) : ¬ TransGen (Edge edges) u u := by
  intro hcycle
  obtain ⟨_, _, hsplit⟩ := append_of_mem hu
  exact disjoint_of_nodup_append (hsplit ▸ h.nodup) (h.before_of_transGen hsplit hcycle) mem_cons_self

/-! ## The stack -/

variable (edges) in
/-- The stack is a path; the edges an entry has passed lead to finished nodes, or to the entry above it. -/
def Path (order : List Nat) : Option Nat → List (Nat × Nat) → Prop
  | _, [] => True
  | above, (u, e) :: rest => (∀ v ∈ (edgesOf edges u).take e, v ∈ order ∨ above = some v) ∧
      (∀ v, above = some v → Edge edges u v) ∧ Path order (some u) rest

variable {above : Option Nat} {stack rest : List (Nat × Nat)}

theorem Path.mono {order' : List Nat} (hsub : order ⊆ order') (h : Path edges order above stack) :
    Path edges order' above stack := by
  induction stack generalizing above with
  | nil => trivial
  | cons _ _ ih => exact ⟨fun v hv => (h.1 v hv).imp_left (@hsub v), h.2.1, ih h.2.2⟩

/-- The entry above is finished and leaves the stack. -/
theorem Path.pop (h : Path edges order (some u) stack) : Path edges (order ++ [u]) none stack := by
  cases stack with
  | nil => trivial
  | cons =>
    refine ⟨fun v hv => .inl ?_, nofun, h.2.2.mono (subset_append_left _ _)⟩
    rw [mem_append, mem_singleton]
    exact (h.1 v hv).imp_right fun heq => (Option.some.inj heq).symm

theorem Path.leads (h : Path edges order (some v) stack) (hu : u ∈ stack.map Prod.fst) : TransGen (Edge edges) u v := by
  induction stack generalizing v with
  | nil => cases hu
  | cons _ _ ih =>
    have hstep := h.2.1 v rfl
    rcases mem_cons.mp hu with rfl | hu
    · exact .single hstep
    · exact (ih h.2.2 hu).tail hstep

variable (edges) in
/-- What the search keeps; the nodes that are still new are among `roots`. -/
structure Searching (roots : List Nat) (d : Dfs) : Prop where
  size : d.colours.length = edges.length
  new : ∀ u : Nat, d.colours[u]? = some .new → u ∈ roots
  finished : ∀ u : Nat, d.colours[u]? = some .finished ↔ u ∈ d.order
  opened : ∀ u : Nat, d.colours[u]? = some .opened ↔ u ∈ d.stack.map Prod.fst
  nodup : (d.stack.map Prod.fst).Nodup
  order : PostOrder edges d.order
  path : Path edges d.order none d.stack

section Steps

variable {roots : List Nat} {d : Dfs} {node edge target : Nat}

/-- A new node goes on the stack, above the node whose edge leads to it. -/
theorem Searching.push (h : Searching edges roots d) (hnew : d.colours[target]? = some .new)
    (hpath : Path edges d.order (some target) rest) (hrest : rest.map Prod.fst = d.stack.map Prod.fst) :
    Searching edges roots ⟨d.colours.set target .opened, d.order, (target, 0) :: rest⟩ := by
  obtain ⟨hsize, hroots, hfinished, hopened, hnodup, horder, -⟩ := h
  exact ⟨by grind, by grind, by grind, by grind, by grind, horder, nofun, nofun, hpath⟩

variable (h : Searching edges roots d) (hstack : d.stack = (node, edge) :: rest)

include h hstack

theorem Searching.finish (hend : (edgesOf edges node)[edge]? = none) :
    Searching edges roots ⟨d.colours.set node .finished, d.order ++ [node], rest⟩ := by
  obtain ⟨hsize, hnew, hfinished, hopened, hnodup, horder, hpath⟩ := h
  rw [hstack] at hopened hnodup hpath
  obtain ⟨hpassed, -, hrest⟩ := hpath
  rw [take_of_length_le (getElem?_eq_none_iff.mp hend)] at hpassed
  refine ⟨by grind, by grind, by grind, by grind, (nodup_cons.mp hnodup).2, horder.snoc ?_ ?_, hrest.pop⟩
  · grind
  · exact fun v hv => (hpassed v hv).resolve_right nofun

variable (hedge : (edgesOf edges node)[edge]? = some target)

include hedge

/-- The edge that is looked at is passed. -/
theorem Searching.passed : (∀ v ∈ (edgesOf edges node).take (edge + 1), v ∈ d.order ∨ v = target) ∧
    Path edges d.order (some node) rest := by
  have hpath := h.path
  rw [hstack] at hpath
  refine ⟨fun v hv => ?_, hpath.2.2⟩
  rw [take_add_one, hedge, mem_append] at hv
  exact hv.imp (fun hv => (hpath.1 v hv).resolve_right nofun) mem_singleton.mp

theorem Searching.skip (hdone : d.colours[target]? = some .finished) :
    Searching edges roots ⟨d.colours, d.order, (node, edge + 1) :: rest⟩ := by
  obtain ⟨hpassed, hrest⟩ := h.passed hstack hedge
  obtain ⟨hsize, hnew, hfinished, hopened, hnodup, horder, -⟩ := h
  rw [hstack] at hopened hnodup
  refine ⟨hsize, hnew, hfinished, hopened, hnodup, horder, fun v hv => .inl ?_, nofun, hrest⟩
  rcases hpassed v hv with hv | rfl
  · exact hv
  · exact (hfinished v).mp hdone

theorem Searching.descend (hnew : d.colours[target]? = some .new) :
    Searching edges roots ⟨d.colours.set target .opened, d.order, (target, 0) :: (node, edge + 1) :: rest⟩ := by
  obtain ⟨hpassed, hrest⟩ := h.passed hstack hedge
  refine h.push hnew ⟨fun v hv => ?_, fun v hv => ?_, hrest⟩ (by rw [hstack]; rfl)
  · exact (hpassed v hv).imp_right fun heq => congrArg some heq.symm
  · cases hv
    exact mem_of_getElem? hedge

/-- An edge back to an open node closes a cycle. -/
theorem Searching.cycle (hopen : d.colours[target]? = some .opened) : TransGen (Edge edges) node node := by
  have hstep : Edge edges node target := mem_of_getElem? hedge
  have hmem := (h.opened target).mp hopen
  rw [hstack] at hmem
  rcases mem_cons.mp hmem with rfl | hmem
  · exact .single hstep
  · exact .head hstep ((h.passed hstack hedge).2.leads hmem)

end Steps

/-! ## Fuel -/

/-- What the new nodes will take. -/
def fresh : List (List Nat) → List Colour → Nat
  | l :: ls, c :: cs => (if c = .new then l.length + 2 else 0) + fresh ls cs
  | _, _ => 0

variable (edges) in
def work (d : Dfs) : Nat :=
  fresh edges d.colours + (d.stack.map fun (u, e) => ((edgesOf edges u).drop e).length + 1).sum

theorem fresh_set {colours : List Colour} {c : Colour} (hsize : colours.length = edges.length) (hc : c ≠ .new) :
    fresh edges (colours.set u c) +
      (if colours[u]? = some .new then (edgesOf edges u).length + 2 else 0) = fresh edges colours := by
  induction edges generalizing colours u with
  | nil => simp [eq_nil_of_length_eq_zero hsize, fresh]
  | cons _ _ ih =>
    cases colours with
    | nil => cases hsize
    | cons _ cs =>
      cases u with
      | zero => simp [fresh, edgesOf, hc, Nat.add_comm]
      | succ u =>
        have hrest := @ih u cs (Nat.succ.inj hsize)
        simp only [fresh, edgesOf, set_cons_succ, getElem?_cons_succ] at hrest ⊢
        omega

theorem fresh_le (colours : List Colour) : fresh edges colours < dfsFuel edges := by
  unfold dfsFuel
  fun_induction fresh edges colours with
  | case1 =>
    simp only [map_cons, sum_cons]
    split <;> omega
  | case2 => omega

/-! ## The search -/

variable {roots : List Nat}

/-- The search ends, and stops early only at an edge out of the graph or on a cycle. -/
theorem dfsVisit_spec {fuel : Nat} {d : Dfs} (h : Searching edges roots d)
    (hfuel : work edges d < fuel) : Ends (dfsVisit edges fuel d)
      (fun d' => Searching edges roots d' ∧ d'.stack = []) fun _ => ¬ Ordered edges := by
  have hpending : ∀ {node edge target}, (edgesOf edges node)[edge]? = some target →
      ((edgesOf edges node).drop (edge + 1)).length < ((edgesOf edges node).drop edge).length := by
    intro node edge target hedge
    have hlt := (List.getElem?_eq_some_iff.mp hedge).1
    simp only [length_drop]
    omega
  fun_induction dfsVisit edges fuel d with
  | case1 => cases hfuel
  | case2 _ _ hidle => exact ⟨h, hidle⟩
  | case3 _ d node _ _ hstack hedge ih =>
    refine ih (h.finish hstack hedge) ?_
    have hfresh := @fresh_set edges node d.colours .finished h.size nofun
    simp only [work, hstack, map_cons, sum_cons] at hfuel ⊢
    omega
  | case4 _ _ node _ _ _ target hedge =>
    intro hordered
    have hlt := hordered.inside node target (mem_of_getElem? hedge)
    have hsize := h.size
    grind
  | case5 _ d _ _ _ hstack target hedge hcolour ih =>
    refine ih (h.descend hstack hedge hcolour) ?_
    have hfresh := @fresh_set edges target d.colours .opened h.size nofun
    have hdrop := hpending hedge
    simp only [work, hstack, hcolour, if_pos, map_cons, sum_cons, drop_zero] at hfuel hfresh ⊢
    omega
  | case6 _ _ node _ _ hstack _ hedge hcolour =>
    exact fun hordered => hordered.acyclic node (h.cycle hstack hedge hcolour)
  | case7 _ _ _ _ _ hstack _ hedge hcolour ih =>
    refine ih (h.skip hstack hedge hcolour) ?_
    have hdrop := hpending hedge
    simp only [work, hstack, map_cons, sum_cons] at hfuel ⊢
    omega

theorem dfsRoots_spec {d : Dfs} (h : Searching edges roots d) (hidle : d.stack = []) :
    Ends (dfsRoots edges (dfsFuel edges) roots d)
      (fun d' => Searching edges [] d' ∧ d'.stack = []) fun _ => ¬ Ordered edges := by
  induction roots generalizing d with
  | nil => exact ⟨h, hidle⟩
  | cons root roots ih =>
    unfold dfsRoots
    split
    case isTrue hnew =>
      have hopened : Searching edges (root :: roots) ⟨d.colours.set root .opened, d.order, [(root, 0)]⟩ :=
        h.push hnew trivial (by rw [hidle])
      have hfresh := @fresh_set edges root d.colours .opened h.size nofun
      have htotal := @fresh_le edges d.colours
      rw [if_pos hnew] at hfresh
      refine (@dfsVisit_spec edges roots _ _ { hopened with new := ?_ } ?_).bind fun d' hd' => ih hd'.1 hd'.2
      · have := hopened.new
        grind
      · simp only [work, map_cons, map_nil, sum_cons, sum_nil, drop_zero]
        omega
    case isFalse hold =>
      refine ih { h with new := fun u hu => (mem_cons.mp (h.new u hu)).resolve_left ?_ } hidle
      exact fun heq => hold (heq ▸ hu)

/-- The search lists every node after those it leads to, or there is a cycle or an edge out of the graph. -/
theorem dfs_spec (edges : List (List Nat)) :
    Ends (dfs edges) (fun order => PostOrder edges order ∧ (∀ u, u ∈ order ↔ u < edges.length) ∧ Ordered edges)
      fun _ => ¬ Ordered edges := by
  have hinit : Searching edges (range edges.length) ⟨replicate edges.length .new, [], []⟩ := by
    refine ⟨length_replicate, ?_, ?_, ?_, nodup_nil, ⟨nodup_nil, by simp⟩, trivial⟩ <;>
      simp [getElem?_replicate]
  refine (dfsRoots_spec hinit rfl).bind fun d ⟨h, hidle⟩ => ?_
  have horder := h.order
  have hmem : ∀ u, u ∈ d.order ↔ u < edges.length := by
    intro u
    rw [← h.finished u, ← h.size]
    have hnew := h.new u
    have hopened := h.opened u
    rcases hcolour : d.colours[u]? with _ | _ | _ | _ <;> grind
  have hin : ∀ u v, Edge edges u v → u ∈ d.order := by
    intro u v huv
    unfold Edge edgesOf at huv
    grind
  refine ⟨horder, hmem, fun u v huv => ?_, fun u hcycle => ?_⟩
  · obtain ⟨_, _, hsplit⟩ := append_of_mem (hin u v huv)
    have hv := horder.before _ _ _ hsplit v huv
    exact (hmem v).mp (hsplit ▸ mem_append_left _ hv)
  · obtain ⟨v, hv, -⟩ := TransGen.head'_iff.mp hcycle
    exact horder.acyclic (hin u v hv) hcycle

end Dfs

end Search

end Compukter
