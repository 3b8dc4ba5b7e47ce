/-
Replaying what the calls have done.

The live tree is nested, the recovered one is a map from paths.  `Matches` says that they hold the same
nodes.  The checks of recovery hold because the call has made its own, with one exception: recovery parses
the paths of a record anew, and after the rename of a directory also the new paths of everything in it.  So a
record is accepted exactly when these paths fit the limits (`apply_change`).
-/
import Compukter.Filesystem.Accounting
import Compukter.Filesystem.Recovery
import Compukter.Lib.PathMap

namespace Compukter.Filesystem

open Fallible OrderedMap Forest List

/-! ## Paths -/

theorem intercalate_concat {pieces : List Str} (hne : pieces ≠ []) (last : Str) :
    ['/'].intercalate (pieces ++ [last]) = ['/'].intercalate pieces ++ '/' :: last := by
  induction pieces with
  | nil => exact absurd rfl hne
  | cons _ pieces ih =>
    cases pieces with
    | nil => simp
    | cons =>
      rw [cons_append, cons_append, intercalate_cons_cons, ← cons_append,
        ih (cons_ne_nil _ _), intercalate_cons_cons]
      simp

theorem display_append {path : VirtualPath} (hne : path ≠ []) (rest : List Component) :
    display (path ++ rest) = rest.foldl (fun text c => text ++ '/' :: c.text) (display path) := by
  induction rest generalizing path with
  | nil => rw [append_nil, foldl_nil]
  | cons c _ ih =>
    have hlast : display (path ++ [c]) = display path ++ '/' :: c.text := by
      rw [display, map_append, map_singleton, intercalate_concat (by simpa using hne), display,
        cons_append]
    rw [append_cons, ih (by simp), hlast, foldl_cons]

/-- The new path of a node is refused when it does not fit the limits. -/
theorem rebase_eq {destination : VirtualPath} (hne : destination ≠ []) (path source : VirtualPath)
    (limits : FileSystemLimits) : rebase path source destination limits =
      if Fits limits (destination ++ path.drop source.length) then .ok (destination ++ path.drop source.length)
      else .error () := by
  rw [rebase, ← display_append hne, parseUtf8_display_of_ne_nil (by simp [hne])]
  split <;> rfl

/-! ## The tree as a map -/

def checkpointNode (path : VirtualPath) : FileInfo ⊕ Nat → CheckpointNode
  | .inl info => .file path info.generation info.logicalSize info.object info.executable
  | .inr generation => .directory path generation

/-- The node of `/home` at a path. -/
def treeNode (home : Directory) : VirtualPath → Option CheckpointNode
  | [] => none
  | mount :: rest =>
    if mount = homeName then (view home rest).map (checkpointNode (mount :: rest)) else none

structure Matches (nodes : RecoveredNodes) (home : Directory) : Prop where
  sorted : Sorted nodes
  get (path : VirtualPath) : OrderedMap.get nodes path = treeNode home path

theorem matches_empty : Matches [] [] := by
  refine ⟨sorted_nil, fun path => ?_⟩
  cases path with
  | nil => rfl
  | cons => simp [treeNode]

theorem treeNode_home (home : Directory) (rest : List Component) :
    treeNode home (homeName :: rest) = (view home rest).map (checkpointNode (homeName :: rest)) := by
  rw [treeNode, if_pos rfl]

variable {home : Directory}

/-- Two trees that differ at one path. -/
theorem treeNode_update {home' : Directory} {p : List Component} {value : Option (FileInfo ⊕ Nat)}
    (h : ∀ q, view home' q = if q = p then value else view home q) (path : VirtualPath) :
    treeNode home' path = if path = homeName :: p then value.map (checkpointNode path) else treeNode home path := by
  cases path with
  | nil => simp [treeNode]
  | cons mount rest =>
    by_cases hmount : mount = homeName
    · subst hmount
      rw [treeNode_home, treeNode_home, h]
      by_cases hrest : rest = p
      · rw [if_pos hrest, if_pos (by rw [hrest])]
      · rw [if_neg hrest, if_neg fun heq => hrest (cons.inj heq).2]
    · rw [if_neg fun heq => hmount (cons.inj heq).1, treeNode, treeNode, if_neg hmount, if_neg hmount]

/-- The entries of the tree, with the keys and values of the map. -/
def flatEntries (home : Directory) : RecoveredNodes :=
  (entries home).map fun e => (homeName :: e.1, checkpointNode (homeName :: e.1) e.2)

theorem get_flatEntries (hhome : Ordered home) (path : VirtualPath) :
    get (flatEntries home) path = treeNode home path := by
  have hcons (l : List Entry) (mount : Component) (rest : List Component) :
      get (l.map fun e => (homeName :: e.1, checkpointNode (homeName :: e.1) e.2)) (mount :: rest) =
        if mount = homeName then (get l rest).map (checkpointNode (mount :: rest)) else none := by
    induction l with
    | nil => simp
    | cons e _ ih =>
      obtain ⟨path, _⟩ := e
      rw [map_cons, get_cons, ih, get_cons]
      by_cases hmount : mount = homeName
      · subst hmount
        by_cases hrest : path = rest
        · simp [hrest]
        · simp [hrest]
      · simp [hmount, Ne.symm hmount]
  cases path with
  | nil =>
    refine get_eq_none_iff.mpr fun b hb => ?_
    obtain ⟨e, -, rfl⟩ := mem_map.mp hb
    exact cons_ne_nil _ _
  | cons => rw [flatEntries, hcons, get_entries hhome, treeNode]

variable {nodes : RecoveredNodes}

theorem Matches.perm (h : Matches nodes home) (hhome : Ordered home) : nodes.Perm (flatEntries home) := by
  refine perm_of_get_eq h.sorted.unique ?_ fun path => by rw [h.get, get_flatEntries hhome]
  exact pairwise_map.mpr ((unique_entries hhome).imp fun hne heq => hne (cons.inj heq).2)

/-! ## The limits -/

theorem parent_home {rest : List Component} (hne : rest ≠ []) :
    parent (homeName :: rest) = some (homeName :: rest.dropLast) := by
  rw [parent, if_neg (cons_ne_nil _ _), dropLast_cons_of_ne_nil hne]

theorem recoveredBytes_eq (h : Matches nodes home) (hhome : Ordered home) :
    recoveredBytes nodes = ((charges (entries home)).map Prod.snd).sum := by
  rw [recoveredBytes, ((h.perm hhome).filterMap _).sum_eq, flatEntries, filterMap_map, charges,
    map_filterMap]
  refine congrArg sum (filterMap_congr fun e _ => ?_)
  rcases e with ⟨_, _ | _⟩ <;> rfl

/-- The nodes that share a parent are those of one directory. -/
theorem siblings_length {d : Directory} (h : Matches nodes home) (hhome : Ordered home) {p : List Component}
    (hd : below? home p = some d) :
    (nodes.filter fun other => parent other.1 = some (homeName :: p)).length = d.length := by
  rw [((h.perm hhome).filter _).length_eq, flatEntries, filter_map, length_map,
    ← length_below hhome hd]
  refine congrArg length (filter_congr fun e he => ?_)
  obtain ⟨_, _, -, _, hpath⟩ := ne_nil_of_mem_entries he
  have hne : e.1 ≠ [] := by
    rw [hpath]
    exact cons_ne_nil _ _
  simp [parent_home hne, hne]

open Option

theorem validateState_eq_ok {limits : FileSystemLimits} (h : Matches nodes home)
    (hhome : Everywhere (Limited limits.maximumDirectoryEntries) home)
    (hnodes : (entries home).length ≤ limits.maximumNodes - 2)
    (hbytes : ((charges (entries home)).map Prod.snd).sum ≤ limits.maximumLogicalBytes) :
    validateState nodes limits = .ok () := by
  have hlength : nodes.length ≤ limits.maximumNodes - 2 := by
    rw [(h.perm hhome.ordered).length_eq, flatEntries, length_map]
    exact hnodes
  have hsum := recoveredBytes_eq h hhome.ordered
  have hwidth := limits.logical_lt
  have hnode (node : VirtualPath × CheckpointNode) (hmem : node ∈ nodes) :
      ∃ p d, parent node.1 = some (homeName :: p) ∧ below? home p = some d := by
    obtain ⟨e, he, rfl⟩ := mem_map.mp ((h.perm hhome.ordered).mem_iff.mp hmem)
    have hview := (mem_entries hhome.ordered).mp he
    obtain ⟨_, hfind, -⟩ := map_eq_some_iff.mp hview
    obtain ⟨p, _, d, hpath, hd, -⟩ := find?_eq_some hfind
    refine ⟨p, d, ?_, hd⟩
    show parent (homeName :: e.1) = _
    rw [hpath, parent_home (by simp), dropLast_concat]
  have hparents : (nodes.all fun node => (parent node.1).isSome) = true := by
    refine all_eq_true.mpr fun node hmem => ?_
    obtain ⟨p, d, hparent, -⟩ := hnode node hmem
    rw [hparent]
    rfl
  have hchildren : (nodes.all fun node =>
      (nodes.filter fun other => parent other.1 = parent node.1).length ≤ limits.maximumDirectoryEntries) = true := by
    refine all_eq_true.mpr fun node hmem => ?_
    obtain ⟨p, d, hparent, hd⟩ := hnode node hmem
    simp only [hparent]
    rw [siblings_length h hhome.ordered hd]
    exact decide_eq_true (hhome p d hd).2
  have hbytes : recoveredBytes nodes ≤ limits.maximumLogicalBytes := hsum ▸ hbytes
  unfold validateState
  rw [demand_decide hlength, ok_bind, demand_decide (Nat.lt_of_le_of_lt hbytes hwidth), ok_bind,
    demand_decide hbytes, ok_bind, demand_true hparents, ok_bind, demand_true hchildren]

/-! ## The operations -/

section Operations

variable {nodes : RecoveredNodes} {home d : Directory} {parent : List Component} {name : Component}

variable (h : Matches nodes home) (hd : below? home parent = some d)
include h hd

theorem requireParent_eq_ok (name : Component) : requireParent nodes (homeName :: (parent ++ [name])) = .ok () := by
  unfold requireParent
  rw [parent_home (by simp), dropLast_concat]
  show (if homeName :: parent = [homeName] then _ else _) = _
  by_cases hroot : parent = []
  · rw [if_pos (by rw [hroot])]
    rfl
  · rw [if_neg fun heq => hroot (cons.inj heq).2, h.get, treeNode_home]
    obtain ⟨_, hview⟩ := (below?_isSome_iff hroot).mp (isSome_iff_exists.mpr ⟨d, hd⟩)
    rw [hview]
    rfl

theorem get_child (name : Component) : get nodes (homeName :: (parent ++ [name])) =
      (get d name).map fun node => checkpointNode (homeName :: (parent ++ [name])) node.info := by
  rw [h.get, treeNode_home, view_append hd (by simp), view_singleton, Option.map_map]
  rfl

/-- Nothing is below a leaf. -/
theorem hasDescendants_leaf (hleaf : Leaf d name) :
    hasDescendants nodes (homeName :: (parent ++ [name])) = false := by
  refine any_eq_false.mpr fun candidate hmem => ?_
  rw [Bool.and_eq_true, decide_eq_true_eq, isWithin_iff]
  rintro ⟨hne, hwithin⟩
  have hget := (get_eq_some_iff h.sorted.unique).mpr hmem
  obtain ⟨_, hpath⟩ := hwithin
  rw [← hpath, cons_append, h.get, treeNode_home, view_of_leaf hd hleaf (prefix_append _ _)] at hget
  · cases hget
  · intro heq
    exact hne (by rw [← hpath, cons_append, heq])

theorem matches_insert (node : Node) (hnode : node.children = []) (hleaf : Leaf d name) :
    Matches (insert (homeName :: (parent ++ [name])) (checkpointNode (homeName :: (parent ++ [name])) node.info) nodes)
      (edit (insert name node) home parent) := by
  refine ⟨sorted_insert h.sorted _ _, fun path => ?_⟩
  rw [get_insert, treeNode_update (view_put hd hnode hleaf), h.get]
  split
  · next hpath => rw [hpath, map_some]
  · rfl

theorem matches_erase (hleaf : Leaf d name) :
    Matches (erase (homeName :: (parent ++ [name])) nodes) (edit (erase name) home parent) := by
  refine ⟨sorted_erase h.sorted _, fun path => ?_⟩
  rw [get_erase, treeNode_update (view_take hd hleaf), h.get]
  rfl

end Operations

/-! ## Moving nodes -/

section Rename

/-- A node of the map under its new path. -/
def movedNode (source destination : VirtualPath) (generation : Nat) (node : VirtualPath × CheckpointNode) :
    VirtualPath × CheckpointNode :=
  (destination ++ node.1.drop source.length, node.2.withPath (destination ++ node.1.drop source.length)
    (if node.1 = source then generation else node.2.generationOf))

variable {limits : FileSystemLimits}

theorem foldlM_rebase {source destination : VirtualPath} (hne : destination ≠ []) {generation : Nat}
    {moving base result : RecoveredNodes} :
    moving.foldlM (fun nodes node => do
        let rebased ← rebase node.1 source destination limits
        let nodeGeneration := if node.1 = source then generation else node.2.generationOf
        return insert rebased (node.2.withPath rebased nodeGeneration) nodes) base = .ok result ↔
      (∀ node ∈ moving, Fits limits (destination ++ node.1.drop source.length)) ∧
        result = (moving.map (movedNode source destination generation)).foldl (fun m b => insert b.1 b.2 m) base := by
  induction moving generalizing base with
  | nil =>
    simp only [foldlM_nil, pure_eq_ok, Except.ok.injEq, map_nil, foldl_nil, not_mem_nil,
      false_implies, implies_true, true_and]
    exact eq_comm
  | cons node _ ih =>
    rw [foldlM_cons, rebase_eq hne, forall_mem_cons]
    by_cases hfits : Fits limits (destination ++ node.1.drop source.length)
    · rw [if_pos hfits]
      refine Iff.trans ih ?_
      simp only [hfits, true_and, map_cons, foldl_cons]
      rfl
    · simp [hfits]

variable {nodes : RecoveredNodes} {home sd dd : Directory} {sp dp : List Component} {sn dn : Component} {node : Node}

theorem withPath_checkpointNode (path path' : VirtualPath) (info : FileInfo ⊕ Nat) :
    (checkpointNode path info).withPath path' (checkpointNode path info).generationOf = checkpointNode path' info := by
  cases info <;> rfl

theorem withPath_setGeneration (path path' : VirtualPath) (generation : Nat) (node : Node) :
    (checkpointNode path node.info).withPath path' generation =
      checkpointNode path' (setGeneration generation node).info := by
  cases node <;> rfl

/-- The nodes of the map that are moved. -/
theorem movingNodes_eq (h : Matches nodes home) (source : VirtualPath) :
    movingNodes nodes source = nodes.filter fun b => isWithin b.1 source :=
  takeWhile_within h.sorted source

theorem unique_moved (h : Matches nodes home) (source destination : VirtualPath) (generation : Nat) :
    Unique ((movingNodes nodes source).map (movedNode source destination generation)) := by
  rw [movingNodes_eq h]
  refine pairwise_map.mpr ((h.sorted.unique.filter _).imp_of_mem fun ha hb hne heq => hne ?_)
  obtain ⟨t, ht⟩ := isWithin_iff.mp (mem_filter.mp ha).2
  obtain ⟨t', ht'⟩ := isWithin_iff.mp (mem_filter.mp hb).2
  have heq := append_cancel_left heq
  rw [← ht, ← ht', drop_left, drop_left] at heq
  rw [← ht, ← ht', heq]

/-- A lookup among the moved nodes is one at the old path. -/
theorem get_moved (h : Matches nodes home) (source destination : VirtualPath) (generation : Nat) (q : VirtualPath) :
    get ((movingNodes nodes source).map (movedNode source destination generation)) q = if destination <+: q then
        (get nodes (source ++ q.drop destination.length)).map fun node =>
          (movedNode source destination generation (source ++ q.drop destination.length, node)).2 else none := by
  have hunique := unique_moved h source destination generation
  split
  · next hp =>
    obtain ⟨t, rfl⟩ := hp
    rw [drop_left]
    cases hget : get nodes (source ++ t) with
    | none =>
      refine get_eq_none_iff.mpr fun b hb heq => ?_
      obtain ⟨c, hc, rfl⟩ := mem_map.mp hb
      rw [movingNodes_eq h] at hc
      obtain ⟨hmem, hwithin⟩ := mem_filter.mp hc
      obtain ⟨t', ht'⟩ := isWithin_iff.mp hwithin
      have heq := append_cancel_left heq
      rw [← ht', drop_left] at heq
      rw [heq] at ht'
      have := (get_eq_some_iff h.sorted.unique).mpr hmem
      rw [← ht', hget] at this
      cases this
    | some found =>
      refine (get_eq_some_iff hunique).mpr (mem_map.mpr ⟨(source ++ t, found), ?_, ?_⟩)
      · rw [movingNodes_eq h]
        exact mem_filter.mpr ⟨mem_of_get hget, isWithin_iff.mpr (prefix_append _ _)⟩
      · simp [movedNode]
  · next hp =>
    refine get_eq_none_iff.mpr fun b hb heq => hp ?_
    obtain ⟨b, -, rfl⟩ := mem_map.mp hb
    exact heq ▸ prefix_append _ _

/-- What is left of the map when the destination and the moved nodes are taken out. -/
theorem get_rest (h : Matches nodes home) (source destination q : VirtualPath) :
    get ((movingNodes nodes source).foldl (fun nodes node => erase node.1 nodes) (erase destination nodes)) q =
      if source <+: q ∨ q = destination then none else get nodes q := by
  rw [get_foldl_erase, get_erase]
  by_cases hq : q = destination
  · simp [hq]
  · simp only [hq, if_false, or_false]
    have hiff : (∃ b ∈ movingNodes nodes source, b.1 = q) ↔ source <+: q ∧ (get nodes q).isSome := by
      rw [movingNodes_eq h]
      constructor
      · rintro ⟨b, hb, rfl⟩
        obtain ⟨hmem, hwithin⟩ := mem_filter.mp hb
        exact ⟨isWithin_iff.mp hwithin, by rw [(get_eq_some_iff h.sorted.unique).mpr hmem]; rfl⟩
      · rintro ⟨hwithin, hsome⟩
        obtain ⟨found, hget⟩ := isSome_iff_exists.mp hsome
        exact ⟨(q, found), mem_filter.mpr ⟨mem_of_get hget, isWithin_iff.mpr hwithin⟩, rfl⟩
    by_cases hwithin : source <+: q
    · split
      · rfl
      · next hnot =>
        cases hget : get nodes q with
        | none => rfl
        | some => exact absurd (hiff.mpr ⟨hwithin, by rw [hget]; rfl⟩) hnot
    · rw [if_neg hwithin, if_neg fun hex => hwithin (hiff.mp hex).1]

/-- The new paths of what a rename moves fit the limits. -/
def MovesFit (limits : FileSystemLimits) (home : Directory) : JournalOperation → Prop
  | .rename source destination _ =>
    ∀ path node, treeNode home path = some node → source <+: path → Fits limits (destination ++ path.drop source.length)
  | _ => True

theorem moving_fits (h : Matches nodes home) {source destination : VirtualPath} {replace : Bool} :
    (∀ b ∈ movingNodes nodes source, Fits limits (destination ++ b.1.drop source.length)) ↔
      MovesFit limits home (.rename source destination replace) := by
  rw [movingNodes_eq h]
  constructor
  · intro hall path node hnode hwithin
    rw [← h.get] at hnode
    exact hall (path, node) (mem_filter.mpr ⟨mem_of_get hnode, isWithin_iff.mpr hwithin⟩)
  · intro hmoves b hb
    obtain ⟨hmem, hwithin⟩ := mem_filter.mp hb
    have hget := (get_eq_some_iff h.sorted.unique).mpr hmem
    rw [h.get] at hget
    exact hmoves b.1 b.2 hget (isWithin_iff.mp hwithin)

variable (h : Matches nodes home) (hs : below? home sp = some sd) (hnode : get sd sn = some node)
include h hs hnode

/-- The map after a rename holds the nodes of the tree after it. -/
theorem matches_move (hhome : Ordered home) (hd : below? home dp = some dd) (hwithin : ¬sp ++ [sn] <+: dp ++ [dn])
    (hleaf : Leaf dd dn) (generation : Nat) :
    Matches (((movingNodes nodes (homeName :: (sp ++ [sn]))).map
        (movedNode (homeName :: (sp ++ [sn])) (homeName :: (dp ++ [dn])) generation)).foldl
          (fun m b => insert b.1 b.2 m)
        ((movingNodes nodes (homeName :: (sp ++ [sn]))).foldl (fun nodes node => erase node.1 nodes)
          (erase (homeName :: (dp ++ [dn])) nodes))) (move home sp sn dp dn (setGeneration generation node)) := by
  refine ⟨sorted_foldl_insert (sorted_foldl_erase (sorted_erase h.sorted _)), fun q => ?_⟩
  obtain ⟨d₁, hd₁, -, -⟩ := below?_edit_erase hhome hs hd fun hp =>
    hwithin (hp.trans (prefix_append dp [dn]))
  rw [get_foldl_insert (unique_moved h _ _ _), get_moved h, get_rest h, h.get, h.get]
  cases q with
  | nil => simp [treeNode]
  | cons mount q =>
    by_cases hmount : mount = homeName
    · subst hmount
      have hcons (a b : List Component) : homeName :: a <+: homeName :: b ↔ a <+: b := by simp
      simp only [cons_append, treeNode_home, hcons, cons.injEq, true_and, length_cons,
        drop_succ_cons]
      rw [view_move hs hnode hd₁ (children_setGeneration _ _)]
      by_cases hbelow : dp ++ [dn] <+: q
      · obtain ⟨t, rfl⟩ := hbelow
        rw [if_pos (prefix_append _ _), if_pos (prefix_append _ _), drop_left]
        by_cases ht : t = []
        · -- the node itself
          subst ht
          rw [append_nil, append_nil, if_pos rfl, view_append hs (by simp), view_singleton,
            hnode]
          simp [movedNode, withPath_setGeneration]
        · -- a node below it; at the destination there was nothing
          have hold : view home (dp ++ [dn] ++ t) = none :=
            view_of_leaf hd hleaf (prefix_append _ _) (by simpa using ht)
          have hne : dp ++ [dn] ++ t ≠ dp ++ [dn] := by simpa using ht
          rw [if_neg hne, hold]
          cases view home (sp ++ [sn] ++ t) with
          | none => simp
          | some => simp [movedNode, ht, withPath_checkpointNode]
      · rw [if_neg hbelow, if_neg hbelow, none_or]
        have hne : q ≠ dp ++ [dn] := by
          rintro rfl
          exact hbelow prefix_rfl
        simp only [hne, or_false]
        split <;> rfl
    · have hout (a : List Component) : ¬homeName :: a <+: mount :: q := fun hp =>
        hmount (cons_prefix_cons.mp hp).1.symm
      rw [if_neg (hout _), if_neg, none_or, treeNode, treeNode, if_neg hmount, if_neg hmount]
      rintro (hp | heq)
      · exact hout _ hp
      · exact hmount (cons.inj heq).1

/-- A checked rename is replayed exactly when the new paths fit the limits. -/
theorem renameNodes_eq_ok (hd : below? home dp = some dd)
    (hwithin : ¬sp ++ [sn] <+: dp ++ [dn]) {replace : Bool} (hold : ∀ old, get dd dn = some old →
      replace = true ∧ old.children = [] ∧ (metadata old).kind = (metadata node).kind) {generation : Nat}
    {result : RecoveredNodes} :
    renameNodes nodes (homeName :: (sp ++ [sn])) (homeName :: (dp ++ [dn])) replace generation limits = .ok result ↔
      MovesFit limits home (.rename (homeName :: (sp ++ [sn])) (homeName :: (dp ++ [dn])) replace) ∧
        result = ((movingNodes nodes (homeName :: (sp ++ [sn]))).map
          (movedNode (homeName :: (sp ++ [sn])) (homeName :: (dp ++ [dn])) generation)).foldl
            (fun m b => insert b.1 b.2 m)
          ((movingNodes nodes (homeName :: (sp ++ [sn]))).foldl (fun nodes node => erase node.1 nodes)
            (erase (homeName :: (dp ++ [dn])) nodes)) := by
  have hout : (!isWithin (homeName :: (dp ++ [dn])) (homeName :: (sp ++ [sn]))) = true := by
    rw [Bool.not_eq_true', ← Bool.not_eq_true, isWithin_iff, cons_prefix_cons]
    exact fun hp => hwithin hp.2
  have hsource := get_child h hs sn
  rw [hnode, map_some] at hsource
  have hmoving : (!(movingNodes nodes (homeName :: (sp ++ [sn]))).isEmpty) = true := by
    rw [Bool.not_eq_true', isEmpty_eq_false_iff_exists_mem, movingNodes_eq h]
    exact ⟨_, mem_filter.mpr ⟨mem_of_get hsource, isWithin_iff.mpr prefix_rfl⟩⟩
  have hkind (path path' : VirtualPath) {a b : Node} (hab : (metadata a).kind = (metadata b).kind) :
      ((checkpointNode path a.info).isDirectory == (checkpointNode path' b.info).isDirectory) = true := by
    cases a <;> cases b <;> first | rfl | cases hab
  unfold renameNodes
  rw [demand_true hout, ok_bind, requireParent_eq_ok h hd, ok_bind, hsource, demandSome, ok_bind, get_child h hd dn]
  rw [← moving_fits h, ← foldlM_rebase (cons_ne_nil _ _)]
  cases hget : get dd dn with
  | none =>
    simp only [map_none]
    rw [demand_true hmoving, ok_bind]
  | some old =>
    obtain ⟨hreplace, -, hsame⟩ := hold old hget
    have hleaf : hasDescendants nodes (homeName :: (dp ++ [dn])) = false :=
      hasDescendants_leaf h hd fun old hget => (hold old hget).2.1
    simp only [map_some]
    rw [hreplace, Bool.true_and, demand_true (hkind _ _ hsame), ok_bind, hleaf, Bool.and_false, demand_true Bool.not_false,
      ok_bind, demand_true hmoving, ok_bind]

end Rename

/-! ## Replaying a change -/

section Apply

variable {sha256 : List UInt8 → Digest} {limits : FileSystemLimits} {generation : Nat} {home home' : Directory}
  {mutation : Mutation} {nodes : RecoveredNodes}

variable (h : Change sha256 limits generation home mutation home') (hmatches : Matches nodes home) (hhome : Ordered home)
include h hmatches hhome

theorem applyOperation_change :
    ∃ nodes', Matches nodes' home' ∧ ∀ result, applyOperation nodes mutation.operation generation limits = .ok result ↔
      MovesFit limits home mutation.operation ∧ result = nodes' := by
  have hsame := demand_true (e := ()) (beq_self_eq_true generation)
  have halways {x : Except Unit RecoveredNodes} {nodes' : RecoveredNodes} (hx : x = .ok nodes') (result : RecoveredNodes) :
      x = .ok result ↔ True ∧ result = nodes' := by
    rw [hx, Except.ok.injEq, true_and, eq_comm]
  cases h with
  | @createDirectory _ name d hd hnew _ =>
    refine ⟨_, matches_insert hmatches hd (.directory generation []) rfl (leaf_of_none hnew), halways ?_⟩
    have hnone := get_child hmatches hd name
    rw [hnew, map_none] at hnone
    rw [applyOperation, hsame, ok_bind, requireParent_eq_ok hmatches hd, ok_bind, hnone, demand_true isNone_none,
      ok_bind]
    rfl
  | @putFile parent name d bytes executable hd hold _ _ =>
    refine ⟨_, matches_insert hmatches hd (.file ⟨sha256 bytes, bytes.length, generation, executable⟩) rfl
      (leaf_of_file hold), halways ?_⟩
    have hfile : (!(get nodes (homeName :: (parent ++ [name]))).any (·.isDirectory)) = true := by
      rw [get_child hmatches hd name]
      cases hget : get d name with
      | none => rfl
      | some old =>
        obtain ⟨info, rfl⟩ := hold old hget
        rfl
    rw [applyOperation, hsame, ok_bind, requireParent_eq_ok hmatches hd, ok_bind, demand_true hfile, ok_bind]
    rfl
  | @remove _ name d _ hd hnode hleaf =>
    have hleaf := leaf_of_some hnode hleaf
    refine ⟨_, matches_erase hmatches hd hleaf, halways ?_⟩
    have hsome := get_child hmatches hd name
    rw [hnode, map_some] at hsome
    rw [applyOperation, hsome, demandSome, ok_bind, hasDescendants_leaf hmatches hd hleaf, Bool.and_false,
      demand_true Bool.not_false, ok_bind]
    rfl
  | rename hs hnode hd hwithin hold =>
    exact ⟨_, matches_move hmatches hs hnode hhome hd hwithin (fun old hget => (hold old hget).2.1) generation,
      fun result => renameNodes_eq_ok hmatches hs hnode hd hwithin hold⟩

/-- **A change is replayed** exactly when the new paths of what it moves fit the limits. -/
theorem apply_change (hlimited : Everywhere (Limited limits.maximumDirectoryEntries) home')
    (hnodes : (entries home').length ≤ limits.maximumNodes - 2)
    (hbytes : ((charges (entries home')).map Prod.snd).sum ≤ limits.maximumLogicalBytes) :
    ∃ nodes', Matches nodes' home' ∧ ∀ result, apply nodes mutation.operation generation limits = .ok result ↔
      MovesFit limits home mutation.operation ∧ result = nodes' := by
  obtain ⟨nodes', hmatches', hiff⟩ := applyOperation_change h hmatches hhome
  have hvalid := validateState_eq_ok hmatches' hlimited hnodes hbytes
  refine ⟨nodes', hmatches', fun result => ?_⟩
  rw [apply, bind_eq_ok]
  constructor
  · rintro ⟨applied, happly, hresult⟩
    obtain ⟨hfits, rfl⟩ := (hiff applied).mp happly
    rw [hvalid, ok_bind] at hresult
    exact ⟨hfits, (Except.ok.inj hresult).symm⟩
  · rintro ⟨hfits, rfl⟩
    refine ⟨result, (hiff result).mpr ⟨hfits, rfl⟩, ?_⟩
    rw [hvalid, ok_bind]
    rfl

end Apply

end Compukter.Filesystem
