/-
When `rename` succeeds, and what it does to the tree.

`Movable` says what a move asks of the tree: there is a node to move and a directory to move it to, the node
does not end up below itself, what it replaces may be replaced, and the directory is not too full afterwards.
`Passes` is what the code checks.  The two differ in one place: the code counts the names of the directory
before the node is taken out of it, so a node cannot be renamed within a directory that is full.

`Passes` is exact (`rename_passes`, `rename_of_passes`); `Forest.view_move` describes the tree afterwards.
-/
import Compukter.Filesystem.AccountingRun

namespace Compukter.Filesystem

open Fallible OrderedMap Transaction Forest Ends

namespace ComputerFileSystem

section Rename

variable (sha256 : List UInt8 → Digest) (gate : Gate) (fs : ComputerFileSystem) (sp : List Component) (sn : Component)
  (dp : List Component) (dn : Component) (replace : Bool)

/-- The node `sn` of the directory `sp` may be moved to the name `dn` of the directory `dp`. -/
structure Movable (node : Node) (dd : Directory) : Prop where
  source : find? fs.home (sp ++ [sn]) = some node
  parent : below? fs.home dp = some dd
  outside : ¬sp ++ [sn] <+: dp ++ [dn]
  replaces (old : Node) (hold : OrderedMap.get dd dn = some old) :
    replace = true ∧ old.children = [] ∧ (metadata old).kind = (metadata node).kind
  room (d : Directory) (hd : below? (move fs.home sp sn dp dn node) dp = some d) :
    d.length ≤ fs.limits.maximumDirectoryEntries

/-- The move is one that should succeed. -/
def Allowed : Prop := ∃ node dd, Movable fs sp sn dp dn replace node dd

/-- The mutation that a move hands to the gate. -/
def renameMutation : Mutation :=
  ⟨fs.generation + 1, none, .rename (homeName :: (sp ++ [sn])) (homeName :: (dp ++ [dn])) replace⟩

/-- Nothing but the tree stands in the way of the move: it does not stay within a directory that is full, there is
a next generation, and the gate takes the mutation. -/
structure Unblocked : Prop where
  elsewhere (dd : Directory) (hd : below? fs.home dp = some dd) (hnew : OrderedMap.get dd dn = none)
    (hsame : sp = dp) : dd.length < fs.limits.maximumDirectoryEntries
  generation_lt : fs.generation + 1 < 2 ^ 64
  published : ∃ publication,
    fs.preparePersistence sha256 gate (renameMutation fs sp sn dp dn replace) = .ok publication

/-- What the code checks before it changes the tree. -/
structure Passes (sd dd : Directory) (node : Node) (publication : Publication) : Prop where
  source : below? fs.home sp = some sd
  node_eq : OrderedMap.get sd sn = some node
  parent : below? fs.home dp = some dd
  outside : ¬sp ++ [sn] <+: dp ++ [dn]
  replaces (old : Node) (hold : OrderedMap.get dd dn = some old) :
    replace = true ∧ old.children = [] ∧ (metadata old).kind = (metadata node).kind
  room (hnew : OrderedMap.get dd dn = none) : dd.length < fs.limits.maximumDirectoryEntries
  generation_lt : fs.generation + 1 < 2 ^ 64
  published : fs.preparePersistence sha256 gate (renameMutation fs sp sn dp dn replace) = .ok publication

/-- The tree after the move: the subtree stands at its new path, nothing is left at the old one, and every other
path leads where it led.  Of the moved node itself the generation is new. -/
def Moved (fs' : ComputerFileSystem) : Prop :=
  fs'.rom = fs.rom ∧ ∃ node, find? fs.home (sp ++ [sn]) = some node ∧
    ∀ q, view fs'.home q =
      if dp ++ [dn] <+: q then
        if q = dp ++ [dn] then some (setGeneration (fs.generation + 1) node).info
        else view fs.home (sp ++ [sn] ++ q.drop (dp ++ [dn]).length)
      else if sp ++ [sn] <+: q then none else view fs.home q

variable {sha256 gate fs sp sn dp dn replace} {capability : FileCapability}

/-! ## The two conditions -/

/-- A directory is full after the move only if it was, and the node came from elsewhere. -/
theorem room_iff (h : Accounted fs) {sd dd : Directory} {node : Node} (hs : below? fs.home sp = some sd)
    (hnode : get sd sn = some node) (hd : below? fs.home dp = some dd) (hwithin : ¬sp ++ [sn] <+: dp ++ [dn]) :
    (∀ d, below? (move fs.home sp sn dp dn node) dp = some d → d.length ≤ fs.limits.maximumDirectoryEntries) ↔
      (get dd dn = none → sp ≠ dp → dd.length < fs.limits.maximumDirectoryEntries) := by
  obtain ⟨d, hmove, hlength⟩ := below?_move h.home.ordered hs hnode hd hwithin node
  have hlimit : dd.length ≤ fs.limits.maximumDirectoryEntries := (h.home dp dd hd).2
  rw [hmove]
  constructor
  · intro hroom hnew hne
    have hle := hroom d rfl
    rw [if_neg hne, hnew, Option.isNone_none, if_pos rfl] at hlength
    omega
  · rintro hroom _ ⟨⟩
    cases hget : get dd dn with
    | some =>
      rw [hget, Option.isNone_some, if_neg Bool.false_ne_true] at hlength
      omega
    | none =>
      rw [hget, Option.isNone_none, if_pos rfl] at hlength
      by_cases heq : sp = dp
      · rw [if_pos heq] at hlength
        omega
      · have := hroom hget heq
        omega

theorem find?_source {sd : Directory} {node : Node} (hs : below? fs.home sp = some sd)
    (hnode : get sd sn = some node) : find? fs.home (sp ++ [sn]) = some node := by
  rw [find?_append hs (by simp), find?_cons, hnode]
  rfl

/-- The code's checks are those of the move, and that nothing else stands in its way. -/
theorem passes_iff (h : Accounted fs) :
    (∃ sd dd node publication, Passes sha256 gate fs sp sn dp dn replace sd dd node publication) ↔
      Allowed fs sp sn dp dn replace ∧ Unblocked sha256 gate fs sp sn dp dn replace := by
  constructor
  · rintro ⟨sd, dd, node, publication, hp⟩
    refine ⟨⟨node, dd, find?_source hp.source hp.node_eq, hp.parent, hp.outside, hp.replaces, ?_⟩,
      fun dd' hd hnew _ => ?_, hp.generation_lt, publication, hp.published⟩
    · exact (room_iff h hp.source hp.node_eq hp.parent hp.outside).mpr fun hnew _ => hp.room hnew
    · cases hp.parent.symm.trans hd
      exact hp.room hnew
  · rintro ⟨⟨node, dd, hm⟩, hu⟩
    obtain ⟨_, _, sd, hpath, hs, hnode⟩ := find?_eq_some hm.source
    obtain ⟨rfl, hname⟩ := List.append_inj' hpath rfl
    cases hname
    obtain ⟨publication, hpublished⟩ := hu.published
    have hroom := (room_iff h hs hnode hm.parent hm.outside).mp hm.room
    refine ⟨sd, dd, node, publication, hs, hnode, hm.parent, hm.outside, hm.replaces, fun hnew => ?_,
      hu.generation_lt, hpublished⟩
    by_cases heq : sp = dp
    · exact hu.elsewhere dd hm.parent hnew heq
    · exact hroom hnew heq

/-! ## The call -/

theorem checkReplaced_of {node old : Node}
    (h : replace = true ∧ old.children = [] ∧ (metadata old).kind = (metadata node).kind) :
    checkReplaced replace node old = .ok () := by
  obtain ⟨hreplace, hempty, hkind⟩ := h
  simp [checkReplaced, hreplace, hempty, hkind, demand]

/-- Whatever is done after the last check, a move that is accepted has passed the checks. -/
theorem rename_passes (hne : homeName :: (sp ++ [sn]) ≠ homeName :: (dp ++ [dn])) :
    Ends (rename sha256 gate capability (homeName :: (sp ++ [sn])) (homeName :: (dp ++ [dn])) replace) fs
      (fun _ _ => ∃ sd dd node publication, Passes sha256 gate fs sp sn dp dn replace sd dd node publication)
      (fun _ _ => True) := by
  refine ends_check_of (fun _ => trivial) fun ⟨mount, components⟩ hsource => ?_
  obtain ⟨⟨rfl, hcomponents⟩, -⟩ := mutableTarget_eq_ok.mp hsource
  cases hcomponents
  refine ends_check_of (fun _ => trivial) fun ⟨mount', components'⟩ hdestination => ?_
  obtain ⟨⟨rfl, hcomponents⟩, -⟩ := mutableTarget_eq_ok.mp hdestination
  cases hcomponents
  refine ends_check_of (fun _ => trivial) fun _ _ => ?_
  rw [if_neg hne]
  refine ends_check_of (fun _ => trivial) fun _ hwithin => ends_check_of (fun _ => trivial) fun ⟨sn', sp'⟩ hsplit =>
    ends_check_of (fun _ => trivial) fun ⟨dn', dp'⟩ hsplit' => ?_
  obtain ⟨rfl, hname⟩ := List.append_inj' (splitName_eq_ok.mp hsplit) rfl
  cases hname
  obtain ⟨rfl, hname⟩ := List.append_inj' (splitName_eq_ok.mp hsplit') rfl
  cases hname
  refine get_bind (ends_check_of (fun _ => trivial) fun sd hs => ends_check_of (fun _ => trivial) fun node hnode =>
    ends_check_of (fun _ => trivial) fun dd hd => ends_check_of (fun _ => trivial) fun _ hexisting =>
    ends_check_of (fun _ => trivial) fun generation hgeneration =>
    ends_check_of (fun _ => trivial) fun publication hpublished => const ?_)
  obtain ⟨hlt, rfl⟩ := nextGeneration_eq_ok hgeneration
  refine ⟨sd, dd, node, publication, findDirectory_eq_ok.mp hs, demandSome_eq_ok.mp hnode, findDirectory_eq_ok.mp hd,
    fun hp => ?_, fun old hold => ?_, fun hnew => ?_, hlt, hpublished⟩
  · have hinside : isWithin (homeName :: (dp ++ [dn])) (homeName :: (sp ++ [sn])) = true :=
      isWithin_iff.mpr (List.cons_prefix_cons.mpr ⟨rfl, hp⟩)
    rw [hinside] at hwithin
    cases hwithin
  · rw [hold] at hexisting
    exact checkReplaced_eq_ok hexisting
  · rw [hnew] at hexisting
    exact of_decide_eq_true (demand_eq_ok.mp hexisting)

/-- A move that passes the checks is made. -/
theorem rename_of_passes (h : Accounted fs)
    (hsource : capability.permits (homeName :: (sp ++ [sn])) FileRights.RENAME = true)
    (hdestination : capability.permits (homeName :: (dp ++ [dn])) FileRights.RENAME = true)
    {sd dd : Directory} {node : Node} {publication : Publication}
    (hp : Passes sha256 gate fs sp sn dp dn replace sd dd node publication) :
    Ends (rename sha256 gate capability (homeName :: (sp ++ [sn])) (homeName :: (dp ++ [dn])) replace) fs
      (fun answer fs' => answer = some publication ∧ fs'.rom = fs.rom ∧
        fs'.home = move fs.home sp sn dp dn (setGeneration (fs.generation + 1) node)) (fun _ _ => False) := by
  have hne : homeName :: (sp ++ [sn]) ≠ homeName :: (dp ++ [dn]) := fun heq =>
    hp.outside ((List.cons.inj heq).2 ▸ List.prefix_rfl)
  have hwithin : demand (!isWithin (homeName :: (dp ++ [dn])) (homeName :: (sp ++ [sn]))) FileSystemError.invalidPath =
      .ok () := by
    rw [demand_eq_ok, Bool.not_eq_true', Bool.eq_false_iff, Ne, isWithin_iff]
    exact fun hinside => hp.outside (List.cons_prefix_cons.mp hinside).2
  have hgeneration : fs.nextGeneration = .ok (fs.generation + 1) := if_pos hp.generation_lt
  refine ends_run (run_check (mutableTarget_eq_ok.mpr ⟨⟨rfl, rfl⟩, hsource⟩)) ?_
  refine ends_run (run_check (mutableTarget_eq_ok.mpr ⟨⟨rfl, rfl⟩, hdestination⟩)) ?_
  refine ends_run (a := ()) (run_check rfl) ?_
  rw [if_neg hne]
  refine ends_run (run_check hwithin) (ends_run (run_check (splitName_eq_ok.mpr rfl)) ?_)
  refine ends_run (run_check (splitName_eq_ok.mpr rfl)) (get_bind ?_)
  refine ends_run (run_check (findDirectory_eq_ok.mpr hp.source)) ?_
  refine ends_run (run_check (demandSome_eq_ok.mpr hp.node_eq)) ?_
  refine ends_run (run_check (findDirectory_eq_ok.mpr hp.parent)) (ends_run (a := ()) (run_check ?_) ?_)
  · cases hold : get dd dn with
    | some old => exact checkReplaced_of (hp.replaces old hold)
    | none => exact demand_eq_ok.mpr (decide_eq_true (hp.room hold))
  refine ends_run (run_check hgeneration) (ends_run (run_check hp.published) ?_)
  obtain ⟨d₁, hd₁, -, -⟩ := below?_edit_erase h.home.ordered hp.source hp.parent fun hinside =>
    hp.outside (hinside.trans (List.prefix_append dp [dn]))
  refine ends_run (run_takeNode hp.source hp.node_eq) (ends_run (run_editExpected hd₁) ?_)
  cases hold : get dd dn with
  | none => exact modify_bind (pure ⟨rfl, rfl, rfl⟩)
  | some =>
    refine discard_ends h (entries_split h.home.ordered hp.parent hold) fun objects' _ _ => ?_
    exact modify_bind (pure ⟨rfl, rfl, rfl⟩)

theorem Passes.moved (h : Accounted fs) {sd dd : Directory} {node : Node} {publication : Publication}
    (hp : Passes sha256 gate fs sp sn dp dn replace sd dd node publication) {fs' : ComputerFileSystem}
    (hrom : fs'.rom = fs.rom) (hhome : fs'.home = move fs.home sp sn dp dn (setGeneration (fs.generation + 1) node)) :
    Moved fs sp sn dp dn fs' := by
  obtain ⟨d₁, hd₁, -, -⟩ := below?_edit_erase h.home.ordered hp.source hp.parent fun hinside =>
    hp.outside (hinside.trans (List.prefix_append dp [dn]))
  refine ⟨hrom, node, find?_source hp.source hp.node_eq, fun q => ?_⟩
  rw [hhome, view_move hp.source hp.node_eq hd₁ (children_setGeneration _ node)]

/-- **Rename.**  It succeeds exactly for the moves that should, with the moved tree as its result, unless the
move stays within a directory that is full, the generations are used up or the gate refuses. -/
theorem rename_iff (h : Accounted fs)
    (hsource : capability.permits (homeName :: (sp ++ [sn])) FileRights.RENAME = true)
    (hdestination : capability.permits (homeName :: (dp ++ [dn])) FileRights.RENAME = true)
    (hne : homeName :: (sp ++ [sn]) ≠ homeName :: (dp ++ [dn])) :
    (((∃ answer fs', run (rename sha256 gate capability (homeName :: (sp ++ [sn])) (homeName :: (dp ++ [dn])) replace)
          fs = (.ok answer, fs')) ↔ Allowed fs sp sn dp dn replace) ∧
      ∀ answer fs', run (rename sha256 gate capability (homeName :: (sp ++ [sn])) (homeName :: (dp ++ [dn])) replace)
          fs = (.ok answer, fs') → Moved fs sp sn dp dn fs') ↔
      (Allowed fs sp sn dp dn replace → Unblocked sha256 gate fs sp sn dp dn replace) := by
  -- the call succeeds when the move is one that should and nothing else stands in its way
  refine (and_iff_left ?_).trans ((iff_congr (Iff.trans ⟨?_, ?_⟩ (passes_iff h)) Iff.rfl).trans and_iff_left_iff_imp)
  · intro answer fs' hrun
    obtain ⟨sd, dd, node, publication, hp⟩ := (rename_passes hne).ok hrun
    obtain ⟨-, hrom, hhome⟩ := (rename_of_passes h hsource hdestination hp).ok hrun
    exact hp.moved h hrom hhome
  · rintro ⟨answer, fs', hrun⟩
    exact (rename_passes hne).ok hrun
  · rintro ⟨sd, dd, node, publication, hp⟩
    have hends := rename_of_passes h hsource hdestination hp
    rcases hrun : run (rename sha256 gate capability (homeName :: (sp ++ [sn])) (homeName :: (dp ++ [dn])) replace)
      fs with ⟨e | answer, fs'⟩
    · exact (hends.error hrun).elim
    · exact ⟨answer, fs', rfl⟩

end Rename

/-- A directory is created and renamed. -/
theorem rename_iff_directory :
    ∃ publication fs, run (createDirectory (fun _ => blankDigest) openGate homeOwner [homeName, romName])
        (.withLimits FileSystemLimits.testing) = (.ok publication, fs) ∧
      ∃ answer fs', run (rename (fun _ => blankDigest) openGate homeOwner [homeName, romName] [homeName, homeName] false)
        fs = (.ok answer, fs') ∧ Moved fs [] romName [] homeName fs' := by
  have hrun : run (createDirectory (fun _ => blankDigest) openGate homeOwner [homeName, romName])
    (.withLimits FileSystemLimits.testing) = (.ok _, _) := rfl
  have haccounted := ((createDirectory_ends _ (withLimits_accounted _) _).ok hrun).accounted
  refine ⟨_, _, hrun, ?_⟩
  obtain ⟨hiff, hmoved⟩ := (@rename_iff (fun _ => blankDigest) openGate _ [] romName [] homeName false homeOwner
    haccounted rfl rfl (by decide)).mpr fun _ => ⟨by rintro dd ⟨⟩ - -; decide, by decide, _, rfl⟩
  obtain ⟨answer, fs', h⟩ := hiff.mpr ⟨.directory 1 [], _, rfl, rfl, by decide, by rintro old ⟨⟩, by rintro d ⟨⟩; decide⟩
  exact ⟨answer, fs', h, hmoved answer fs' h⟩

/-- The only node of a directory that may hold one cannot be given another name. -/
theorem rename_full_directory :
    ∃ publication fs, run (createDirectory (fun _ => blankDigest) openGate homeOwner [homeName, romName])
        (.withLimits { FileSystemLimits.testing with maximumDirectoryEntries := 1, entries_lt := by decide }) =
          (.ok publication, fs) ∧
      Allowed fs [] romName [] homeName false ∧
      run (rename (fun _ => blankDigest) openGate homeOwner [homeName, romName] [homeName, homeName] false) fs =
        (.error (.error .quotaExceeded), fs) := by
  refine ⟨_, _, rfl, ⟨.directory 1 [], _, rfl, rfl, by decide, ?_, ?_⟩, rfl⟩
  · rintro old ⟨⟩
  · rintro d ⟨⟩
    decide

end ComputerFileSystem

end Compukter.Filesystem
