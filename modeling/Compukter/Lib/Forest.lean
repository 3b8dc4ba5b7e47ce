/-
Trees of named nodes.

A forest is an ordered map from names to nodes; a node is a file, or a directory with a forest below it.

1. `edit g f p` applies `g` to the forest below the directory `p`.
2. `view f p` is what stands at `p`, without what is below it.  An edit changes the paths below `p`, and
   nothing else (`view_edit`).
3. `entries f` lists all nodes with their paths.  In an ordered forest a lookup in the list is the view
   (`get_entries`), so the list is known up to its order once the view is (`entries_perm`).
-/
import Compukter.Lib.OrderedMap

open List hiding get

namespace Compukter.Forest

open OrderedMap
open OrderedMap (insert)

/-- A file with its data `φ`, or a directory with its data `δ` and the nodes in it. -/
inductive Node (κ φ δ : Type) where
  | file (info : φ)
  | directory (info : δ) (children : List (κ × Node κ φ δ))

variable {κ φ δ : Type}

def Node.children : Node κ φ δ → List (κ × Node κ φ δ)
  | .file _ => []
  | .directory _ children => children

def Node.info : Node κ φ δ → φ ⊕ δ
  | .file info => .inl info
  | .directory info _ => .inr info

section Find

variable [DecidableEq κ]

def find? (f : List (κ × Node κ φ δ)) : List κ → Option (Node κ φ δ)
  | [] => none
  | name :: rest =>
    match get f name with
    | none => none
    | some node => if rest = [] then some node else find? node.children rest

/-- The forest below a path. -/
def below? (f : List (κ × Node κ φ δ)) : List κ → Option (List (κ × Node κ φ δ))
  | [] => some f
  | name :: rest =>
    match get f name with
    | some (.directory _ children) => below? children rest
    | _ => none

variable (f : List (κ × Node κ φ δ)) (name : κ)

def view (path : List κ) : Option (φ ⊕ δ) := (find? f path).map Node.info

@[simp] theorem find?_empty (path : List κ) : find? ([] : List (κ × Node κ φ δ)) path = none := by
  cases path <;> rfl

@[simp] theorem view_nil : view f [] = none := rfl

@[simp] theorem view_empty (path : List κ) : view ([] : List (κ × Node κ φ δ)) path = none := by
  rw [view, find?_empty]
  rfl

theorem find?_cons (rest : List κ) : find? f (name :: rest) =
      (get f name).bind fun node => if rest = [] then some node else find? node.children rest := by
  rw [find?]
  cases get f name <;> rfl

theorem view_cons (rest : List κ) : view f (name :: rest) =
      (get f name).bind fun node => if rest = [] then some node.info else view node.children rest := by
  rw [view, find?_cons]
  cases get f name with
  | none => rfl
  | some =>
    split <;> rfl

theorem view_singleton : view f [name] = (get f name).map Node.info := by
  rw [view_cons]
  cases get f name <;> simp

variable {f d : List (κ × Node κ φ δ)}

theorem below?_cons_directory {name : κ} {rest : List κ} : below? f (name :: rest) = some d ↔
      ∃ info children, get f name = some (.directory info children) ∧ below? children rest = some d := by
  rw [below?]
  constructor
  · intro h
    split at h
    · next info children hget => exact ⟨info, children, hget, h⟩
    · cases h
  · rintro ⟨info, children, hget, h⟩
    rw [hget]
    exact h

variable {path : List κ} {rest : List κ}

/-- A path below a directory is looked up in the forest of the directory. -/
theorem find?_append (h : below? f path = some d) (hrest : rest ≠ []) : find? f (path ++ rest) = find? d rest := by
  induction path generalizing f with
  | nil =>
    cases h
    rfl
  | cons _ _ ih =>
    obtain ⟨_, _, hget, h⟩ := below?_cons_directory.mp h
    rw [cons_append, find?_cons, hget]
    simp only [Option.bind_some]
    rw [if_neg (by simp [hrest])]
    exact ih h

theorem view_append (h : below? f path = some d) (hrest : rest ≠ []) : view f (path ++ rest) = view d rest := by
  rw [view, find?_append h hrest, view]

variable {node : Node κ φ δ}

theorem find?_append_of_find? (h : find? f path = some node) (hrest : rest ≠ []) :
    find? f (path ++ rest) = find? node.children rest := by
  induction path generalizing f with
  | nil => cases h
  | cons name path ih =>
    rw [find?_cons] at h
    obtain ⟨_, hget, h⟩ := Option.bind_eq_some_iff.mp h
    rw [cons_append, find?_cons, hget]
    simp only [Option.bind_some]
    rw [if_neg (by simp [hrest])]
    split at h
    · next hpath =>
      cases h
      rw [hpath, nil_append]
    · exact ih h

/-- A directory is a node whose data is that of a directory. -/
theorem below?_eq_some_iff (hpath : path ≠ []) :
    below? f path = some d ↔ ∃ info, find? f path = some (.directory info d) := by
  induction path generalizing f with
  | nil => exact absurd rfl hpath
  | cons _ rest ih =>
    rw [below?_cons_directory, find?_cons]
    by_cases hrest : rest = []
    · subst hrest
      constructor
      · rintro ⟨info, children, hget, h⟩
        cases h
        exact ⟨info, by rw [hget]; rfl⟩
      · rintro ⟨info, h⟩
        obtain ⟨node, hget, h⟩ := Option.bind_eq_some_iff.mp h
        cases h
        exact ⟨info, d, hget, rfl⟩
    · constructor
      · rintro ⟨info, children, hget, h⟩
        obtain ⟨info', h⟩ := (ih hrest).mp h
        refine ⟨info', ?_⟩
        rw [hget]
        simp only [Option.bind_some]
        rw [if_neg hrest]
        exact h
      · rintro ⟨info, h⟩
        obtain ⟨node, hget, h⟩ := Option.bind_eq_some_iff.mp h
        rw [if_neg hrest] at h
        cases node with
        | file =>
          rw [Node.children, find?_empty] at h
          cases h
        | directory info' children => exact ⟨info', children, hget, (ih hrest).mpr ⟨info, h⟩⟩

/-- A node stands under its name in the directory of its parent. -/
theorem find?_eq_some (h : find? f path = some node) :
    ∃ parent name d, path = parent ++ [name] ∧ below? f parent = some d ∧ get d name = some node := by
  induction path generalizing f with
  | nil => cases h
  | cons name rest ih =>
    rw [find?_cons] at h
    obtain ⟨child, hget, hchild⟩ := Option.bind_eq_some_iff.mp h
    by_cases hrest : rest = []
    · subst hrest
      cases hchild
      exact ⟨[], name, f, rfl, rfl, hget⟩
    · rw [if_neg hrest] at hchild
      obtain ⟨parent, last, d, hpath, hd, hlast⟩ := ih hchild
      cases child with
      | file =>
        rw [Node.children, find?_empty] at hchild
        cases hchild
      | directory info children =>
        exact ⟨name :: parent, last, d, by rw [hpath, cons_append],
          below?_cons_directory.mpr ⟨info, children, hget, hd⟩, hlast⟩

theorem below?_isSome_iff (hpath : path ≠ []) : (below? f path).isSome ↔ ∃ info, view f path = some (.inr info) := by
  rw [Option.isSome_iff_exists]
  constructor
  · rintro ⟨d, h⟩
    obtain ⟨info, h⟩ := (below?_eq_some_iff hpath).mp h
    exact ⟨info, by rw [view, h]; rfl⟩
  · rintro ⟨info, h⟩
    obtain ⟨node, h, hnode⟩ := Option.map_eq_some_iff.mp h
    cases node with
    | file => cases hnode
    | directory info' children => exact ⟨children, (below?_eq_some_iff hpath).mpr ⟨info', h⟩⟩

end Find

/-! ## Edits -/

/-- A path that goes on below a directory goes on with a name. -/
theorem exists_of_prefix_ne {path q : List κ} (h : path <+: q ∧ q ≠ path) : ∃ name rest, q = path ++ name :: rest := by
  obtain ⟨⟨t, rfl⟩, hne⟩ := h
  cases t with
  | nil => exact absurd (append_nil path) hne
  | cons name rest => exact ⟨name, rest, rfl⟩

theorem prefix_append_cons_iff {path rest : List κ} {name name' : κ} :
    path ++ [name] <+: path ++ name' :: rest ↔ name = name' := by
  simp

section Edit

variable [LinearOrder κ]

/-- `g` applied to the forest below the directory `path`. -/
def edit (g : List (κ × Node κ φ δ) → List (κ × Node κ φ δ)) (f : List (κ × Node κ φ δ)) :
    List κ → List (κ × Node κ φ δ)
  | [] => g f
  | name :: rest =>
    match get f name with
    | some (.directory info children) => insert name (.directory info (edit g children rest)) f
    | _ => f

variable {g : List (κ × Node κ φ δ) → List (κ × Node κ φ δ)} {f d : List (κ × Node κ φ δ)} {path : List κ}

theorem edit_cons {info : δ} {children : List (κ × Node κ φ δ)} {name : κ} {rest : List κ}
    (h : get f name = some (.directory info children)) :
    edit g f (name :: rest) = insert name (.directory info (edit g children rest)) f := by
  rw [edit, h]

/-- An edit changes what is below the directory and nothing else. -/
theorem view_edit (h : below? f path = some d) (q : List κ) :
    view (edit g f path) q = if path <+: q ∧ q ≠ path then view (g d) (q.drop path.length) else view f q := by
  induction path generalizing f q with
  | nil =>
    cases h
    cases q with
    | nil => simp
    | cons => simp [edit]
  | cons name _ ih =>
    obtain ⟨_, _, hget, hchildren⟩ := below?_cons_directory.mp h
    rw [edit_cons hget]
    cases q with
    | nil => simp
    | cons name' rest =>
      rw [view_cons, get_insert, view_cons]
      by_cases hname : name' = name
      · subst hname
        rw [if_pos rfl, hget]
        simp only [Option.bind_some, cons_prefix_cons, true_and, length_cons, drop_succ_cons,
          ne_eq, cons.injEq, Node.children, Node.info]
        by_cases hrest : rest = []
        · subst hrest
          rw [if_pos rfl, if_pos rfl, if_neg]
          rintro ⟨hle, hne⟩
          exact hne (prefix_nil.mp hle).symm
        · rw [if_neg hrest, if_neg hrest]
          exact ih hchildren rest
      · rw [if_neg hname, if_neg]
        rintro ⟨hle, -⟩
        exact hname (cons_prefix_cons.mp hle).1.symm

variable {name : κ}

section

variable (h : below? f path = some d)
include h

/-- An edit of one name of a directory changes what is below that name. -/
theorem view_edit_name (hg : ∀ other ≠ name, get (g d) other = get d other) (q : List κ) :
    view (edit g f path) q = if path ++ [name] <+: q then view (g d) (q.drop path.length) else view f q := by
  rw [view_edit h]
  by_cases hq : path <+: q ∧ q ≠ path
  · obtain ⟨name', _, rfl⟩ := exists_of_prefix_ne hq
    rw [if_pos hq]
    by_cases hname : name = name'
    · rw [if_pos (prefix_append_cons_iff.mpr hname)]
    · rw [if_neg fun hp => hname (prefix_append_cons_iff.mp hp), drop_left, view_cons, hg name' (Ne.symm hname),
        view_append h (cons_ne_nil _ _), view_cons]
  · rw [if_neg hq, if_neg]
    intro hp
    refine hq ⟨(prefix_append path [name]).trans hp, ?_⟩
    rintro rfl
    exact absurd hp.length_le (by simp)

/-- A node put into a directory, with all that is below it. -/
theorem view_edit_insert (name : κ) (node : Node κ φ δ) (q : List κ) :
    view (edit (insert name node) f path) q = if path ++ [name] <+: q then
        if q = path ++ [name] then some node.info else view node.children (q.drop (path.length + 1)) else view f q := by
  rw [view_edit_name h fun other hne => by rw [get_insert, if_neg hne]]
  split
  case isTrue hp =>
    obtain ⟨rest, rfl⟩ := hp
    have hrest : (path ++ [name] ++ rest).drop (path.length + 1) = rest := drop_left' (by simp)
    rw [hrest, append_assoc, drop_left, singleton_append, view_cons, get_insert, if_pos rfl]
    simp
  case isFalse => rfl

/-- A node taken out of a directory, with all that is below it. -/
theorem view_edit_erase (name : κ) (q : List κ) :
    view (edit (erase name) f path) q = if path ++ [name] <+: q then none else view f q := by
  rw [view_edit_name h fun other hne => by rw [get_erase, if_neg hne]]
  split
  case isTrue hp =>
    obtain ⟨_, rfl⟩ := hp
    rw [append_assoc, drop_left, singleton_append, view_cons, get_erase, if_pos rfl]
    rfl
  case isFalse => rfl

theorem below?_edit_self : below? (edit g f path) path = some (g d) := by
  induction path generalizing f with
  | nil =>
    cases h
    rfl
  | cons _ _ ih =>
    obtain ⟨info, _, hget, h⟩ := below?_cons_directory.mp h
    rw [edit_cons hget]
    exact below?_cons_directory.mpr ⟨info, _, by rw [get_insert, if_pos rfl], ih h⟩

end

/-- Every forest in a forest, the whole included, has the property. -/
def Everywhere (P : List (κ × Node κ φ δ) → Prop) (f : List (κ × Node κ φ δ)) : Prop :=
  ∀ path d, below? f path = some d → P d

variable {P : List (κ × Node κ φ δ) → Prop}

theorem Everywhere.here (h : Everywhere P f) : P f := h [] f rfl

theorem Everywhere.child (h : Everywhere P f) {name : κ} {node : Node κ φ δ} (hget : get f name = some node)
    (hP : P []) : Everywhere P node.children := by
  intro path d hd
  cases node with
  | file =>
    cases path with
    | nil =>
      cases hd
      exact hP
    | cons => cases hd
  | directory info children => exact h (name :: path) d (below?_cons_directory.mpr ⟨info, children, hget, hd⟩)

theorem Everywhere.below (h : Everywhere P f) (hd : below? f path = some d) : Everywhere P d := by
  induction path generalizing f with
  | nil =>
    cases hd
    exact h
  | cons name _ ih =>
    obtain ⟨info, children, hget, hd⟩ := below?_cons_directory.mp hd
    refine ih (f := children) (fun p e he => ?_) hd
    exact h (name :: p) e (below?_cons_directory.mpr ⟨info, children, hget, he⟩)

/-- A property of the names alone is kept everywhere when the edit keeps it. -/
theorem Everywhere.edit
    (hP : ∀ (f : List (κ × Node κ φ δ)) name old new, P f → get f name = some old → P (insert name new f))
    (h : Everywhere P f) (hd : below? f path = some d) (hg : Everywhere P (g d)) :
    Everywhere P (Forest.edit g f path) := by
  induction path generalizing f with
  | nil =>
    cases hd
    exact hg
  | cons name _ ih =>
    obtain ⟨info, children, hget, hd⟩ := below?_cons_directory.mp hd
    rw [edit_cons hget]
    have hchildren : Everywhere P children := fun p e he =>
      h (name :: p) e (below?_cons_directory.mpr ⟨info, children, hget, he⟩)
    intro q e he
    cases q with
    | nil =>
      cases he
      exact hP f name _ _ h.here hget
    | cons name' rest =>
      obtain ⟨info', children', hget', he⟩ := below?_cons_directory.mp he
      rw [get_insert] at hget'
      split at hget'
      · cases hget'
        exact ih hchildren hd rest e he
      · exact h (name' :: rest) e (below?_cons_directory.mpr ⟨info', children', hget', he⟩)

/-- The names of a forest changed at one place. -/
theorem Everywhere.insert {node : Node κ φ δ} (h : Everywhere P f)
    (hf : P (insert name node f)) (hnode : Everywhere P node.children) : Everywhere P (insert name node f) := by
  intro path d hd
  cases path with
  | nil =>
    cases hd
    exact hf
  | cons name' rest =>
    obtain ⟨info, children, hget, hchildren⟩ := below?_cons_directory.mp hd
    rw [get_insert] at hget
    split at hget
    · cases hget
      exact hnode rest d hchildren
    · exact h (name' :: rest) d (below?_cons_directory.mpr ⟨info, children, hget, hchildren⟩)

theorem Everywhere.erase (h : Everywhere P f) (hf : P (OrderedMap.erase name f)) :
    Everywhere P (OrderedMap.erase name f) := by
  intro path d hd
  cases path with
  | nil =>
    cases hd
    exact hf
  | cons name' rest =>
    obtain ⟨info, children, hget, hd⟩ := below?_cons_directory.mp hd
    rw [get_erase] at hget
    split at hget
    · cases hget
    · exact h (name' :: rest) d (below?_cons_directory.mpr ⟨info, children, hget, hd⟩)

end Edit

/-! ## All nodes of a forest -/

mutual

def Node.entries : Node κ φ δ → List (List κ × (φ ⊕ δ))
  | .file info => [([], .inl info)]
  | .directory info children => ([], .inr info) :: entries children

/-- The nodes with their paths, a directory before what is in it. -/
def entries : List (κ × Node κ φ δ) → List (List κ × (φ ⊕ δ))
  | [] => []
  | (name, node) :: rest => node.entries.map (fun e => (name :: e.1, e.2)) ++ entries rest

end

theorem Node.entries_eq (node : Node κ φ δ) : node.entries = ([], node.info) :: Forest.entries node.children := by
  cases node with
  | file => rw [Node.entries, Node.children, Forest.entries, Node.info]
  | directory => rw [Node.entries, Node.children, Node.info]

theorem ne_nil_of_mem_entries {f : List (κ × Node κ φ δ)} {e : List κ × (φ ⊕ δ)} (h : e ∈ entries f) :
    ∃ name node, (name, node) ∈ f ∧ ∃ rest, e.1 = name :: rest := by
  induction f with
  | nil =>
    cases h
  | cons b _ ih =>
    obtain ⟨name, node⟩ := b
    rw [entries, mem_append] at h
    rcases h with h | h
    · obtain ⟨e', -, rfl⟩ := mem_map.mp h
      exact ⟨name, node, mem_cons_self, e'.1, rfl⟩
    · obtain ⟨name', node', hmem, hrest⟩ := ih h
      exact ⟨name', node', mem_cons_of_mem _ hmem, hrest⟩

section Entries

variable [DecidableEq κ]

theorem get_map_cons {ν : Type} (name name' : κ) (path : List κ) (m : List (List κ × ν)) :
    get (m.map fun e => (name :: e.1, e.2)) (name' :: path) = if name' = name then get m path else none := by
  induction m with
  | nil => simp
  | cons _ _ ih =>
    rw [map_cons, get_cons, ih, get_cons]
    by_cases hname : name' = name
    · simp [hname]
    · simp [hname, Ne.symm hname]

theorem get_entries_nil (f : List (κ × Node κ φ δ)) : get (entries f) [] = none := by
  refine get_eq_none_iff.mpr fun e he hnil => ?_
  obtain ⟨_, _, -, _, h⟩ := ne_nil_of_mem_entries he
  rw [hnil] at h
  cases h

theorem get_entries_cons {f : List (κ × Node κ φ δ)} (hf : Unique f) (name : κ) (path : List κ) :
    get (entries f) (name :: path) = (get f name).bind fun node => get node.entries path := by
  induction f with
  | nil =>
    rfl
  | cons b f ih =>
    obtain ⟨name', node⟩ := b
    obtain ⟨hb, hf⟩ := pairwise_cons.mp hf
    rw [entries, get_append, get_map_cons, get_cons, ih hf]
    by_cases hname : name' = name
    · subst hname
      -- the name does not occur in the rest, so the rest adds nothing
      have hrest : get f name' = none := get_eq_none_iff.mpr fun b h => (hb b h).symm
      rw [if_pos rfl, if_pos rfl, hrest]
      simp
    · rw [if_neg (Ne.symm hname), if_neg hname]
      rfl

theorem everywhere_unique_tail {b : κ × Node κ φ δ} {f : List (κ × Node κ φ δ)}
    (h : ∀ path d, below? (b :: f) path = some d → Unique d) : ∀ path d, below? f path = some d → Unique d := by
  obtain ⟨hb, hf⟩ := pairwise_cons.mp (h [] _ rfl)
  intro path d hd
  cases path with
  | nil =>
    cases hd
    exact hf
  | cons name rest =>
    obtain ⟨info, children, hget, hchildren⟩ := below?_cons_directory.mp hd
    refine h (name :: rest) d (below?_cons_directory.mpr ⟨info, children, ?_, hchildren⟩)
    rw [get_cons, if_neg (hb _ (mem_of_get hget))]
    exact hget

end Entries

section Ordered

variable [LinearOrder κ] {f : List (κ × Node κ φ δ)}

/-- Every directory holds its nodes in the order of their names. -/
abbrev Ordered (f : List (κ × Node κ φ δ)) : Prop := Everywhere Sorted f

theorem Ordered.unique (hf : Ordered f) : Everywhere Unique f := fun path d hd => (hf path d hd).unique

theorem get_entries (hf : Ordered f) (path : List κ) : get (entries f) path = view f path := by
  induction path generalizing f with
  | nil => rw [get_entries_nil, view_nil]
  | cons name rest ih =>
    rw [get_entries_cons hf.here.unique, view_cons]
    cases hget : get f name with
    | none => rfl
    | some node =>
      simp only [Option.bind_some]
      rw [node.entries_eq, get_cons]
      by_cases hrest : rest = []
      · rw [if_pos hrest.symm, if_pos hrest]
      · rw [if_neg (Ne.symm hrest), if_neg hrest]
        exact ih (hf.child hget sorted_nil)

/-- No path is listed twice. -/
theorem unique_entries (hf : Ordered f) : Unique (entries f) := by
  have hall := hf.unique
  -- the induction follows the recursion of `entries`: over the forest, and below each node of it
  refine Forest.entries.induct
    (fun node => (∀ path d, below? node.children path = some d → Unique d) → Unique node.entries)
    (fun f => (∀ path d, below? f path = some d → Unique d) → Unique (entries f)) ?_ ?_ ?_ ?_ f hall
  · intro info _
    exact pairwise_singleton _ _
  · intro info children ih h
    refine pairwise_cons.mpr ⟨fun e he hnil => ?_, ih h⟩
    obtain ⟨name, node, -, rest, heq⟩ := ne_nil_of_mem_entries he
    exact absurd (hnil.trans heq) (by simp)
  · intro _
    exact List.Pairwise.nil
  · intro name node rest ihnode ihrest h
    obtain ⟨hb, -⟩ := pairwise_cons.mp (h [] _ rfl)
    refine pairwise_append.mpr ⟨?_, ihrest (everywhere_unique_tail h), ?_⟩
    · have hnode : Unique node.entries := by
        refine ihnode fun path d hd => ?_
        cases node with
        | file =>
          cases path with
          | nil =>
            cases hd
            exact List.Pairwise.nil
          | cons => cases hd
        | directory info children =>
          exact h (name :: path) d (below?_cons_directory.mpr ⟨info, children, by rw [get_cons, if_pos rfl], hd⟩)
      exact pairwise_map.mpr (hnode.imp fun hne heq => hne (cons.inj heq).2)
    · intro e he e' he' heq
      obtain ⟨e₀, -, rfl⟩ := mem_map.mp he
      obtain ⟨_, _, hmem, _, hrest⟩ := ne_nil_of_mem_entries he'
      rw [hrest] at heq
      exact hb _ hmem (cons.inj heq).1

theorem mem_entries (hf : Ordered f) {path : List κ} {info : φ ⊕ δ} :
    (path, info) ∈ entries f ↔ view f path = some info := by
  rw [← get_entries hf, get_eq_some_iff (unique_entries hf)]

theorem entries_perm (hf : Ordered f) {l : List (List κ × (φ ⊕ δ))} (hl : Unique l)
    (h : ∀ path, get l path = view f path) : (entries f).Perm l :=
  perm_of_get_eq (unique_entries hf) hl fun path => by rw [get_entries hf, h]

/-! ## The entries after an edit -/

theorem Ordered.edit {g : List (κ × Node κ φ δ) → List (κ × Node κ φ δ)} {path : List κ}
    {d : List (κ × Node κ φ δ)} (hf : Ordered f) (hd : below? f path = some d) (hg : Ordered (g d)) :
    Ordered (Forest.edit g f path) :=
  Everywhere.edit (fun _ name _ new h _ => sorted_insert h name new) hf hd hg

variable {node : Node κ φ δ}

theorem Ordered.insert (hf : Ordered f) (hnode : Ordered node.children) (name : κ) : Ordered (insert name node f) :=
  Everywhere.insert hf (sorted_insert hf.here name node) hnode

theorem Ordered.erase (hf : Ordered f) (name : κ) : Ordered (OrderedMap.erase name f) :=
  Everywhere.erase hf (sorted_erase hf.here name)

theorem ordered_nil : Ordered ([] : List (κ × Node κ φ δ)) := by
  intro path d hd
  cases path with
  | nil =>
    cases hd
    exact sorted_nil
  | cons => cases hd

variable {path : List κ} {d : List (κ × Node κ φ δ)} {name : κ}

/-- There is nothing under the name, or a node without children. -/
def Leaf (d : List (κ × Node κ φ δ)) (name : κ) : Prop := ∀ old, get d name = some old → old.children = []

theorem leaf_of_none (h : get d name = none) : Leaf d name := by
  intro old hold
  cases h.symm.trans hold

theorem leaf_of_some (h : get d name = some node) (hnode : node.children = []) : Leaf d name := by
  intro old hold
  cases h.symm.trans hold
  exact hnode

/-- Below a node without children there is nothing. -/
theorem view_of_leaf (hd : below? f path = some d) (hleaf : Leaf d name) {q : List κ} (hq : path ++ [name] <+: q)
    (hne : q ≠ path ++ [name]) : view f q = none := by
  obtain ⟨rest, rfl⟩ := hq
  have hrest : rest ≠ [] := by
    rintro rfl
    exact hne (append_nil _)
  rw [append_assoc, view_append hd (by simp), singleton_append, view_cons]
  cases hget : get d name with
  | none => rfl
  | some old =>
    simp only [Option.bind_some, if_neg hrest]
    rw [hleaf old hget, view_empty]

/-- A leaf is put in the place of a leaf, or where there was nothing: no other path sees it. -/
theorem view_put (hd : below? f path = some d) (hnode : node.children = []) (hleaf : Leaf d name) (q : List κ) :
    view (edit (insert name node) f path) q = if q = path ++ [name] then some node.info else view f q := by
  rw [view_edit_insert hd]
  by_cases hq : q = path ++ [name]
  · rw [if_pos (hq ▸ prefix_rfl), if_pos hq, if_pos hq]
  · rw [if_neg hq, if_neg hq, hnode, view_empty]
    split
    · next hp => rw [view_of_leaf hd hleaf hp hq]
    · rfl

/-- A leaf is taken away. -/
theorem view_take (hd : below? f path = some d) (hleaf : Leaf d name) (q : List κ) :
    view (edit (OrderedMap.erase name) f path) q = if q = path ++ [name] then none else view f q := by
  rw [view_edit_erase hd]
  by_cases hq : q = path ++ [name]
  · rw [if_pos (hq ▸ prefix_rfl), if_pos hq]
  · split
    · next hp => rw [view_of_leaf hd hleaf hp hq]
    · rfl

theorem unique_cons_erase {l : List (List κ × (φ ⊕ δ))} (hl : Unique l) (q : List κ) (info : φ ⊕ δ) :
    Unique ((q, info) :: erase q l) := by
  refine pairwise_cons.mpr ⟨fun b hb => ?_, unique_erase hl q⟩
  exact (mem_erase.mp hb).2.symm

theorem entries_edit_insert (hf : Ordered f) (hd : below? f path = some d) (hnode : node.children = [])
    (hleaf : Leaf d name) : (entries (edit (insert name node) f path)).Perm
      ((path ++ [name], node.info) :: erase (path ++ [name]) (entries f)) := by
  have hchildren : Ordered node.children := hnode ▸ ordered_nil
  refine entries_perm (Ordered.edit hf hd (Ordered.insert (hf.below hd) hchildren name))
    (unique_cons_erase (unique_entries hf) _ _) fun q => ?_
  rw [view_put hd hnode hleaf, get_cons, get_erase, get_entries hf]
  by_cases hq : q = path ++ [name]
  · rw [if_pos hq.symm, if_pos hq]
  · rw [if_neg (Ne.symm hq), if_neg hq, if_neg hq]

theorem entries_edit_erase (hf : Ordered f) (hd : below? f path = some d) (hleaf : Leaf d name) :
    (entries (edit (OrderedMap.erase name) f path)).Perm (erase (path ++ [name]) (entries f)) := by
  refine entries_perm (Ordered.edit hf hd (Ordered.erase (hf.below hd) name)) (unique_erase (unique_entries hf) _)
    fun q => ?_
  rw [view_take hd hleaf, get_erase, get_entries hf]

/-! ## Moving a node -/

section Move

variable {sp dp : List κ} {sn dn : κ} {sd dd : List (κ × Node κ φ δ)} {node node' : Node κ φ δ}

/-- The node `sn` of the directory `sp` is taken out, and `node'` is put as `dn` into the directory `dp`. -/
def move (f : List (κ × Node κ φ δ)) (sp : List κ) (sn : κ) (dp : List κ) (dn : κ) (node' : Node κ φ δ) :
    List (κ × Node κ φ δ) :=
  Forest.edit (fun d => insert dn node' (erase dn d)) (Forest.edit (erase sn) f sp) dp

/-- An entry of the moved node changes its path, and the node itself its data. -/
def moved (src dst : List κ) (info : φ ⊕ δ) (e : List κ × (φ ⊕ δ)) : List κ × (φ ⊕ δ) :=
  if src <+: e.1 then (dst ++ e.1.drop src.length, if e.1 = src then info else e.2) else e

theorem moved_fst {src dst : List κ} {info : φ ⊕ δ} {e : List κ × (φ ⊕ δ)} :
    (moved src dst info e).1 = if src <+: e.1 then dst ++ e.1.drop src.length else e.1 := by
  rw [moved]
  split <;> rfl

/-- After the removal, directories outside of the moved node are still there, with as many names; its own
directory has lost the one name. -/
theorem below?_edit_erase (hf : Ordered f) (hs : below? f sp = some sd) (hd : below? f dp = some dd)
    (hwithin : ¬sp ++ [sn] <+: dp) : ∃ d₁, below? (Forest.edit (erase sn) f sp) dp = some d₁ ∧
      (if sp = dp then d₁ = erase sn dd else d₁.length = dd.length) ∧
      ∀ name, sp ++ [sn] ≠ dp ++ [name] → (get d₁ name).map Node.info = (get dd name).map Node.info := by
  induction sp generalizing f dp with
  | nil =>
    cases hs
    cases dp with
    | nil =>
      cases hd
      refine ⟨erase sn sd, rfl, by rw [if_pos rfl], fun name hname => ?_⟩
      rw [get_erase, if_neg]
      rintro rfl
      exact hname rfl
    | cons name =>
      obtain ⟨info, children, hget, hrest⟩ := below?_cons_directory.mp hd
      refine ⟨dd, below?_cons_directory.mpr ⟨info, children, ?_, hrest⟩, by rw [if_neg (cons_ne_nil _ _).symm],
        fun _ _ => rfl⟩
      show get (erase sn sd) name = _
      rw [get_erase, if_neg]
      · exact hget
      · rintro rfl
        exact hwithin (by simp)
  | cons first sp ih =>
    obtain ⟨info, children, hget, hchildren⟩ := below?_cons_directory.mp hs
    rw [edit_cons hget]
    cases dp with
    | nil =>
      cases hd
      refine ⟨_, rfl, ?_, fun name _ => ?_⟩
      · rw [if_neg (cons_ne_nil _ _), length_insert_of_get_some hf.here hget]
      rw [get_insert]
      split
      · next hname =>
        rw [hname, hget]
        rfl
      · rfl
    | cons name =>
      obtain ⟨info', children', hget', hrest⟩ := below?_cons_directory.mp hd
      by_cases hname : name = first
      · subst hname
        rw [hget] at hget'
        cases hget'
        obtain ⟨d₁, hd₁, hlen, hkeep⟩ := ih (hf.child hget sorted_nil) hchildren hrest fun hp =>
          hwithin (cons_prefix_cons.mpr ⟨rfl, hp⟩)
        refine ⟨d₁, below?_cons_directory.mpr ⟨info, Forest.edit (erase sn) children sp, ?_, hd₁⟩, ?_, fun n hn => ?_⟩
        · rw [get_insert, if_pos rfl]
        · simpa using hlen
        · exact hkeep n fun heq => hn (congrArg (name :: ·) heq)
      · refine ⟨dd, below?_cons_directory.mpr ⟨info', children', ?_, hrest⟩, ?_, fun _ _ => rfl⟩
        · rw [get_insert, if_neg hname]
          exact hget'
        · rw [if_neg]
          rintro heq
          exact hname (cons.inj heq).1.symm

theorem view_move (hs : below? f sp = some sd) (hnode : get sd sn = some node)
    (hd : below? (Forest.edit (erase sn) f sp) dp = some dd) (hchildren : node'.children = node.children) (q : List κ) :
    view (move f sp sn dp dn node') q = if dp ++ [dn] <+: q then
        if q = dp ++ [dn] then some node'.info else view f (sp ++ [sn] ++ q.drop (dp ++ [dn]).length)
      else if sp ++ [sn] <+: q then none else view f q := by
  have hfind : find? f (sp ++ [sn]) = some node := by
    rw [find?_append hs (by simp), find?_cons, hnode]
    rfl
  rw [move, view_edit_name hd fun other hne => by rw [get_insert, if_neg hne, get_erase, if_neg hne],
    view_edit_erase hs]
  split
  case isTrue hq =>
    obtain ⟨_, rfl⟩ := hq
    rw [drop_left, append_assoc, drop_left, singleton_append, view_cons, get_insert, if_pos rfl, Option.bind_some]
    simp only [append_cancel_left_eq, cons.injEq, true_and]
    split
    · rfl
    · next hrest => rw [hchildren, view, view, find?_append_of_find? hfind hrest]
  case isFalse => rfl

variable (hf : Ordered f) (hs : below? f sp = some sd) (hnode : get sd sn = some node)
include hf hs hnode

/-- How many names the directory that takes the node holds afterwards. -/
theorem below?_move (hd : below? f dp = some dd) (hwithin : ¬sp ++ [sn] <+: dp ++ [dn]) (node' : Node κ φ δ) :
    ∃ d, below? (move f sp sn dp dn node') dp = some d ∧
      d.length + (if sp = dp then 1 else 0) = dd.length + if (get dd dn).isNone then 1 else 0 := by
  obtain ⟨d₁, hd₁, hnames, hkeep⟩ :=
    below?_edit_erase hf hs hd fun hp => hwithin (hp.trans (prefix_append dp [dn]))
  have hsorted : Sorted d₁ := (Ordered.edit hf hs (Ordered.erase (hf.below hs) sn)).below hd₁ |>.here
  refine ⟨_, below?_edit_self hd₁, ?_⟩
  have hlength : d₁.length + (if sp = dp then 1 else 0) = dd.length := by
    split at hnames
    · next heq =>
      subst heq
      cases hs.symm.trans hd
      rw [hnames, (perm_cons_erase (hf.below hs).here.unique hnode).length_eq, if_pos rfl, length_cons]
    · next hne => rw [if_neg hne, hnames, Nat.add_zero]
  have hisNone : (get d₁ dn).isNone = (get dd dn).isNone := by
    have := hkeep dn fun heq => hwithin (heq ▸ prefix_rfl)
    cases h₁ : get d₁ dn <;> cases hdd : get dd dn <;> simp_all
  rw [length_insert_of_get_none (sorted_erase hsorted dn) (by rw [get_erase, if_pos rfl]), ← hisNone, ← hlength]
  cases hget : get d₁ dn with
  | none =>
    rw [erase_of_get_none hget]
    simp only [Option.isNone_none, if_true]
    omega
  | some =>
    rw [(perm_cons_erase hsorted.unique hget).length_eq, length_cons]
    simp

variable (hd : below? (Forest.edit (erase sn) f sp) dp = some dd) (hchildren : node'.children = node.children)
include hd hchildren

theorem ordered_move : Ordered (move f sp sn dp dn node') := by
  have hsource : Ordered node'.children := hchildren ▸ (hf.below hs).child hnode sorted_nil
  have hremoved : Ordered (Forest.edit (erase sn) f sp) := Ordered.edit hf hs (Ordered.erase (hf.below hs) sn)
  exact Ordered.edit hremoved hd (Ordered.insert (Ordered.erase (hremoved.below hd) dn) hsource dn)

/-- The entries after a move: those of the node have new paths, the leaf that was replaced is gone. -/
theorem entries_move (hwithin : ¬sp ++ [sn] <+: dp ++ [dn])
    (hleaf : ∀ q, dp ++ [dn] <+: q → q ≠ dp ++ [dn] → view f q = none) : (entries (move f sp sn dp dn node')).Perm
      ((erase (dp ++ [dn]) (entries f)).map (moved (sp ++ [sn]) (dp ++ [dn]) node'.info)) := by
  have hordered : Ordered (move f sp sn dp dn node') := ordered_move hf hs hnode hd hchildren
  have hview : view f (sp ++ [sn]) = some node.info := by
    rw [view_append hs (by simp), view_singleton, hnode]
    rfl
  -- what is not moved was not below the destination before
  have houtside {e : List κ × (φ ⊕ δ)} (he : e ∈ erase (dp ++ [dn]) (entries f)) : ¬dp ++ [dn] <+: e.1 := by
    obtain ⟨hmem, hne⟩ := mem_erase.mp he
    intro hp
    have := (mem_entries hf).mp hmem
    rw [hleaf e.1 hp hne] at this
    cases this
  refine (perm_ext_iff_of_nodup (unique_entries hordered).nodup ?_).mpr ?_
  · refine List.Nodup.map_on ?_ (unique_erase (unique_entries hf) _).nodup
    intro e he e' he' heq
    have hkey : e.1 = e'.1 := by
      have heq := congrArg Prod.fst heq
      rw [moved_fst, moved_fst] at heq
      split at heq
      · next hp =>
        split at heq
        · next hp' =>
          rw [← prefix_iff_eq_append.mp hp, ← prefix_iff_eq_append.mp hp', append_cancel_left heq]
        · exact absurd (heq ▸ prefix_append _ _) (houtside he')
      · split at heq
        · exact absurd (heq ▸ prefix_append _ _) (houtside he)
        · exact heq
    have hmem := (mem_entries hf).mp (mem_erase.mp he).1
    have hmem' := (mem_entries hf).mp (mem_erase.mp he').1
    rw [hkey, hmem'] at hmem
    exact Prod.ext hkey (Option.some.inj hmem).symm
  · rintro ⟨q, info⟩
    rw [mem_entries hordered, view_move hs hnode hd hchildren, mem_map]
    constructor
    · intro h
      split at h
      · next hp =>
        obtain ⟨t, rfl⟩ := hp
        rw [drop_left] at h
        by_cases ht : t = []
        · subst ht
          rw [append_nil, if_pos rfl] at h
          cases h
          refine ⟨(sp ++ [sn], node.info), mem_erase.mpr ⟨(mem_entries hf).mpr hview, ?_⟩, ?_⟩
          · intro heq
            exact hwithin (heq ▸ prefix_rfl)
          · rw [moved, if_pos prefix_rfl, if_pos rfl, drop_length]
        · rw [if_neg (by simpa using ht)] at h
          refine ⟨(sp ++ [sn] ++ t, info), mem_erase.mpr ⟨(mem_entries hf).mpr h, ?_⟩, ?_⟩
          · intro heq
            exact hwithin (heq ▸ prefix_append _ _)
          · rw [moved, if_pos (prefix_append _ _), if_neg (by simpa using ht), drop_left]
      · next hout =>
        split at h
        · cases h
        · next hsrc =>
          refine ⟨(q, info), mem_erase.mpr ⟨(mem_entries hf).mpr h, ?_⟩, if_neg hsrc⟩
          rintro rfl
          exact hout prefix_rfl
    · rintro ⟨e, he, heq⟩
      have hmem := (mem_entries hf).mp (mem_erase.mp he).1
      rw [moved] at heq
      split at heq
      · next hp =>
        obtain ⟨t, ht⟩ := hp
        cases heq
        rw [if_pos (prefix_append _ _), ← ht, drop_left]
        by_cases hnil : t = []
        · subst hnil
          rw [append_nil, append_nil, if_pos rfl, if_pos rfl]
        · rw [if_neg (by simpa using hnil), drop_left, if_neg (by simpa using hnil), ht]
          exact hmem
      · next hsrc =>
        subst heq
        rw [if_neg (houtside he), if_neg hsrc]
        exact hmem

end Move

/-! ## Directories of bounded size -/

/-- The names are in order, and there are at most `n`. -/
def Limited (n : Nat) (d : List (κ × Node κ φ δ)) : Prop := Sorted d ∧ d.length ≤ n

variable {n : Nat}

theorem Everywhere.ordered (hf : Everywhere (Limited n) f) : Ordered f :=
  fun path d hd => (hf path d hd).1

variable {d : List (κ × Node κ φ δ)}

theorem Limited.insert {name : κ} (hd : Limited n d)
    (hnew : get d name = none → d.length < n) (node : Node κ φ δ) : Limited n (insert name node d) := by
  refine ⟨sorted_insert hd.1 name node, ?_⟩
  cases hget : get d name with
  | none =>
    rw [length_insert_of_get_none hd.1 hget]
    exact hnew hget
  | some =>
    rw [length_insert_of_get_some hd.1 hget]
    exact hd.2

theorem Limited.erase (hd : Limited n d) (name : κ) : Limited n (OrderedMap.erase name d) :=
  ⟨sorted_erase hd.1 name, Nat.le_trans (length_filter_le _ _) hd.2⟩

theorem Everywhere.edit_limited {g : List (κ × Node κ φ δ) → List (κ × Node κ φ δ)}
    (hf : Everywhere (Limited n) f) (hd : below? f path = some d) (hg : Everywhere (Limited n) (g d)) :
    Everywhere (Limited n) (Forest.edit g f path) := by
  refine Everywhere.edit (fun f name old new h hget => Limited.insert h (fun hnone => ?_) new) hf hd hg
  rw [hget] at hnone
  cases hnone

theorem Everywhere.move_limited {sp dp : List κ} {sn dn : κ} {sd dd : List (κ × Node κ φ δ)}
    {node' : Node κ φ δ} (hf : Everywhere (Limited n) f) (hs : below? f sp = some sd)
    (hnode : get sd sn = some node) (hd : below? f dp = some dd) (hwithin : ¬sp ++ [sn] <+: dp ++ [dn])
    (hnew : get dd dn = none → dd.length < n) (hchildren : node'.children = node.children) :
    Everywhere (Limited n) (move f sp sn dp dn node') := by
  have hremoved : Everywhere (Limited n) (Forest.edit (OrderedMap.erase sn) f sp) :=
    hf.edit_limited hs (Everywhere.erase (hf.below hs) (Limited.erase (hf.below hs).here sn))
  have hsource : Everywhere (Limited n) node'.children :=
    hchildren ▸ (hf.below hs).child hnode ⟨sorted_nil, Nat.zero_le n⟩
  obtain ⟨d₁, hd₁, hnames, hkeep⟩ :=
    below?_edit_erase hf.ordered hs hd fun hp => hwithin (hp.trans (prefix_append dp [dn]))
  have hlength : d₁.length ≤ dd.length := by
    split at hnames
    · rw [hnames]
      exact length_filter_le _ _
    · exact Nat.le_of_eq hnames
  have hlimited := hremoved.below hd₁
  have herased : Everywhere (Limited n) (OrderedMap.erase dn d₁) :=
    Everywhere.erase hlimited (Limited.erase hlimited.here dn)
  refine hremoved.edit_limited hd₁ (Everywhere.insert herased (herased.here.insert (fun _ => ?_) node') hsource)
  -- there is room for one more name, or one name less than before
  cases hget : get dd dn with
  | none => exact Nat.lt_of_le_of_lt (length_filter_le _ _) (Nat.lt_of_le_of_lt hlength (hnew hget))
  | some =>
    have hold := hkeep dn fun heq => hwithin (heq ▸ prefix_rfl)
    rw [hget] at hold
    obtain ⟨_, hold₁, -⟩ := Option.map_eq_some_iff.mp hold
    have hperm := perm_cons_erase hlimited.here.1.unique hold₁
    have := hperm.length_eq
    have := hlimited.here.2
    simp only [length_cons] at *
    omega

/-- What a directory holds are the nodes whose paths are one name longer. -/
theorem length_below (hf : Ordered f) {path : List κ} {d : List (κ × Node κ φ δ)} (hd : below? f path = some d) :
    ((entries f).filter fun e => e.1 ≠ [] ∧ e.1.dropLast = path).length = d.length := by
  have hu : Unique d := (hf path d hd).unique
  have hperm : ((entries f).filter fun e => e.1 ≠ [] ∧ e.1.dropLast = path).Perm
      (d.map fun b => (path ++ [b.1], b.2.info)) := by
    refine (perm_ext_iff_of_nodup (Unique.nodup ((unique_entries hf).filter _)) (Unique.nodup ?_)).mpr ?_
    · refine pairwise_map.mpr (hu.imp fun hne heq => hne ?_)
      exact singleton_inj.mp (append_cancel_left heq)
    · rintro ⟨q, _⟩
      rw [mem_filter, mem_entries hf, mem_map]
      simp only [decide_eq_true_eq]
      constructor
      · rintro ⟨hview, hne, rfl⟩
        have hq := dropLast_append_getLast hne
        rw [← hq, view_append hd (by simp), view_singleton] at hview
        obtain ⟨_, hget, rfl⟩ := Option.map_eq_some_iff.mp hview
        exact ⟨_, mem_of_get hget, by rw [hq]⟩
      · rintro ⟨b, hb, heq⟩
        cases heq
        refine ⟨?_, by simp, by simp⟩
        rw [view_append hd (by simp), view_singleton, (get_eq_some_iff hu).mpr hb]
        rfl
  rw [hperm.length_eq, length_map]

end Ordered

end Compukter.Forest
