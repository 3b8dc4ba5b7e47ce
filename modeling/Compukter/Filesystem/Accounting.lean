/-
The quota, the reference counts and the tree agree.

1. `Accounted fs`: the ledger holds the sums over the entries of `/home`, and the object store counts the
   file nodes of both mounts.
2. A call that is accepted keeps it and makes one `Change` (`Committed`); a call that is refused changes
   nothing but the handles (`Stopped`).  One lemma for each call says so, and `perform_ends` for all.
3. The only panic left is that of a reference count that reaches its width.
-/
import Compukter.Filesystem.Changes

open List

namespace Compukter.Filesystem

open Fallible OrderedMap Transaction
open Forest (entries below? Everywhere Limited Ordered view)
open Ends (get_bind modify_bind)

/-- The objects that the file nodes hold. -/
def held (fs : ComputerFileSystem) : List ObjectId :=
  (charges (entries fs.rom) ++ charges (entries fs.home)).map Prod.fst

structure Accounted (fs : ComputerFileSystem) : Prop where
  rom : Ordered fs.rom
  home : Everywhere (Limited fs.limits.maximumDirectoryEntries) fs.home
  maximumLogicalBytes : fs.quota.maximumLogicalBytes = fs.limits.maximumLogicalBytes
  maximumNodes : fs.quota.maximumNodes = fs.limits.maximumNodes
  logicalBytes : fs.quota.logicalBytes = ((charges (entries fs.home)).map Prod.snd).sum
  nodes : fs.quota.nodes = 2 + (entries fs.home).length
  logicalBytes_le : fs.quota.logicalBytes ≤ fs.limits.maximumLogicalBytes
  nodes_le : fs.quota.nodes ≤ max fs.limits.maximumNodes 2
  counts : fs.objects.Counts (held fs)

/-- Nothing but the handles is different. -/
def SameData (fs fs' : ComputerFileSystem) : Prop := fs' = { fs with handles := fs'.handles }

/-- How a call stops: with an error that changed nothing but the handles, or because a reference count would
leave its width. -/
def Stopped (fs : ComputerFileSystem) : Stop → ComputerFileSystem → Prop
  | .error _, fs' => SameData fs fs'
  | .panic p, _ => p = .referenceOverflow ∧ ∃ object, 2 ^ 32 ≤ (held fs).count object + 1

theorem SameData.accounted {fs fs' : ComputerFileSystem} (hsame : SameData fs fs') (h : Accounted fs) :
    Accounted fs' := by
  rw [hsame]
  exact ⟨h.rom, h.home, h.maximumLogicalBytes, h.maximumNodes, h.logicalBytes, h.nodes, h.logicalBytes_le,
    h.nodes_le, h.counts⟩

variable {fs fs' fs'' : ComputerFileSystem}

theorem SameData.trans (h : SameData fs fs') (h' : SameData fs' fs'') : SameData fs fs'' := by
  rw [SameData] at *
  rw [h', h]

theorem SameData.stopped {stop : Stop} (hsame : SameData fs fs')
    (h : Stopped fs' stop fs'') : Stopped fs stop fs'' := by
  cases stop with
  | error => exact hsame.trans h
  | panic =>
    rw [hsame] at h
    exact h

variable (sha256 : List UInt8 → Digest)

/-- What an accepted call has done. -/
structure Committed (fs : ComputerFileSystem) (publication : Publication) (fs' : ComputerFileSystem) : Prop where
  generation_lt : fs.generation + 1 < 2 ^ 64
  change : Change sha256 fs.limits (fs.generation + 1) fs.home publication.mutation fs'.home
  state : fs' = { fs with
    home := fs'.home
    objects := fs'.objects
    quota := fs'.quota
    generation := fs.generation + 1 }
  published : ∃ gate, fs.preparePersistence sha256 gate publication.mutation = .ok publication
  bytes (object : ObjectId) (stored : StoredObject) (h : OrderedMap.get fs'.objects object = some stored) :
    (∃ old, OrderedMap.get fs.objects object = some old ∧ old.bytes = stored.bytes) ∨
      publication.mutation.object = some (object, stored.bytes)
  accounted : Accounted fs'

/-- How a call returns, with or without something for the gate. -/
def Returned (fs : ComputerFileSystem) : Option Publication → ComputerFileSystem → Prop
  | none, fs' => SameData fs fs'
  | some publication, fs' => Committed sha256 fs publication fs'

/-! ## The parts of a call -/

section Parts

variable {α β : Type} {fs : ComputerFileSystem} {Q : β → ComputerFileSystem → Prop}

theorem stopped_same (fs : ComputerFileSystem) (e : FileSystemError) : Stopped fs (.error e) fs := rfl

variable {x : Except FileSystemError α} {f : α → Action β} {E : Stop → ComputerFileSystem → Prop}

theorem ends_check_of (hE : ∀ e, E (.error e) fs)
    (h : ∀ a, x = .ok a → Ends (f a) fs Q E) : Ends (check x >>= f) fs Q E := by
  refine Ends.attempt_bind (fun e he => ?_) fun a ha => h a ?_
  · cases x with
    | ok => cases he
    | error e' =>
      cases he
      exact hE e'
  · cases x with
    | ok =>
      cases ha
      rfl
    | error => cases ha

theorem ends_check (h : ∀ a, x = .ok a → Ends (f a) fs Q (Stopped fs)) : Ends (check x >>= f) fs Q (Stopped fs) :=
  ends_check_of (stopped_same fs) h

theorem run_check {a : α} (h : x = .ok a) : run (check x) fs = (.ok a, fs) := by
  rw [h]
  rfl

theorem ends_run {x : Action α} {a : α} {fs' : ComputerFileSystem}
    (h : run x fs = (.ok a, fs')) (hf : Ends (f a) fs' Q E) : Ends (x >>= f) fs Q E :=
  Ends.bind (P := fun b s => b = a ∧ s = fs') (.of_ok h ⟨rfl, rfl⟩) fun b s hbs => by
    obtain ⟨rfl, rfl⟩ := hbs
    exact hf

namespace ComputerFileSystem

theorem nextGeneration_eq_ok {generation : Nat} (h : fs.nextGeneration = .ok generation) :
    fs.generation + 1 < 2 ^ 64 ∧ generation = fs.generation + 1 := by
  rw [nextGeneration] at h
  split at h
  · next hlt =>
    cases h
    exact ⟨hlt, rfl⟩
  · cases h

theorem preparePersistence_mutation {gate : Gate} {mutation : Mutation} {publication : Publication}
    (h : fs.preparePersistence sha256 gate mutation = .ok publication) : publication.mutation = mutation := by
  rw [preparePersistence] at h
  split at h
  · cases h
    rfl
  · obtain ⟨_, -, h⟩ := bind_eq_ok.mp h
    cases h
    rfl

variable {d : Directory} {components : List Component} {change : Directory → Directory}

theorem changeDirectory_of_below {directory : Directory} (hd : below? directory components = some d) :
    changeDirectory directory components change = .ok (Forest.edit change directory components) := by
  rw [changeDirectory, findDirectory_eq_ok.mpr hd]
  rfl

theorem run_edit (hd : below? fs.home components = some d) :
    run (edit .home components change) fs = (.ok (), { fs with home := Forest.edit change fs.home components }) := by
  rw [edit, run_bind_ok (run_get fs), check, directory, changeDirectory_of_below hd]
  rfl

theorem run_editExpected (hd : below? fs.home components = some d) : run (editExpected .home components change) fs =
      (.ok (), { fs with home := Forest.edit change fs.home components }) := by
  rw [editExpected, run_bind_ok (run_get fs), directory, changeDirectory_of_below hd]
  rfl

open OrderedMap

variable {name : Component}

theorem run_takeNode {node : Node} (hd : below? fs.home components = some d) (hnode : get d name = some node) :
    run (takeNode .home components name) fs =
      (.ok node, { fs with home := Forest.edit (erase name) fs.home components }) := by
  rw [takeNode, run_bind_ok (run_get fs), directory, findDirectory_eq_ok.mpr hd]
  show run (must (demandSome (get d name) .missingNode) >>= _) fs = _
  rw [hnode]
  rfl

theorem run_putNode {parent : List Component} {old node : Node}
    (hd : below? fs.home parent = some d) (hold : get d name = some old) :
    run (putNode .home (parent ++ [name]) node) fs =
      (.ok (), { fs with home := Forest.edit (insert name node) fs.home parent }) := by
  have hfind : findNode fs.home (parent ++ [name]) = .ok old := by
    rw [findNode_eq_ok, Forest.find?_append hd (by simp), Forest.find?_cons, hold]
    rfl
  rw [putNode, run_bind_ok (run_get fs), directory, changeNode, hfind, ok_bind, splitName_eq_ok.mpr rfl]
  rfl

variable {previous : Option ObjectId} {bytes : List UInt8} {next : ObjectId}

theorem run_replaceObject {objects : ObjectStore} (h : fs.objects.replace previous next bytes = .ok objects) :
    run (replaceObject previous next bytes) fs = (.ok (), { fs with objects }) := by
  rw [replaceObject, run_bind_ok (run_get fs), h]
  rfl

theorem run_replaceObject_error {p : Panic} (h : fs.objects.replace previous next bytes = .error p) :
    run (replaceObject previous next bytes) fs = (.error (.panic p), fs) := by
  rw [replaceObject, run_bind_ok (run_get fs), h]
  rfl

theorem run_removeObject {object : ObjectId} {objects : ObjectStore} (h : fs.objects.remove object = .ok objects) :
    run (removeObject object) fs = (.ok (), { fs with objects }) := by
  rw [removeObject, run_bind_ok (run_get fs), h]
  rfl

theorem run_releaseQuota {logicalBytes nodes : Nat} (hbytes : logicalBytes ≤ fs.quota.logicalBytes)
    (hnodes : nodes ≤ fs.quota.nodes) :
    run (releaseQuota logicalBytes nodes) fs = (.ok (), { fs with quota := { fs.quota with
      logicalBytes := fs.quota.logicalBytes - logicalBytes
      nodes := fs.quota.nodes - nodes } }) := by
  rw [releaseQuota, run_bind_ok (run_get fs), QuotaLedger.release_eq_ok hbytes hnodes]
  rfl

end ComputerFileSystem

end Parts

/-! ## The calls that change something -/

open Prod

variable {fs : ComputerFileSystem}

/-- The references that stay are counted after those of a part of `/home`. -/
theorem held_perm {part rest : List (ObjectId × Nat)} (h : (charges (entries fs.home)).Perm (part ++ rest)) :
    (held fs).Perm (part.map fst ++ (charges (entries fs.rom) ++ rest).map fst) := by
  refine ((h.append_left _).map _).trans ?_
  simp only [map_append, ← append_assoc]
  exact perm_append_comm.append_right _

/-- The accounts after a change that takes away the charges `gone` and brings `come`. -/
theorem Accounted.change (h : Accounted fs) {home' : Directory} {objects' : ObjectStore}
    {quota' : QuotaLedger} {generation' : Nat} {gone come rest : List (ObjectId × Nat)}
    (hhome : Everywhere (Limited fs.limits.maximumDirectoryEntries) home')
    (hgone : (charges (entries fs.home)).Perm (gone ++ rest))
    (hcome : (charges (entries home')).Perm (come ++ rest))
    (hcounts : objects'.Counts (come.map fst ++ (charges (entries fs.rom) ++ rest).map fst))
    (hmaximumBytes : quota'.maximumLogicalBytes = fs.quota.maximumLogicalBytes)
    (hmaximumNodes : quota'.maximumNodes = fs.quota.maximumNodes)
    (hbytes : quota'.logicalBytes + (gone.map snd).sum = fs.quota.logicalBytes + (come.map snd).sum)
    (hnodes : quota'.nodes = 2 + (entries home').length)
    (hbytes_le : quota'.logicalBytes ≤ fs.limits.maximumLogicalBytes)
    (hnodes_le : quota'.nodes ≤ max fs.limits.maximumNodes 2) :
    Accounted { fs with home := home', objects := objects', quota := quota', generation := generation' } where
  rom := h.rom
  home := hhome
  maximumLogicalBytes := hmaximumBytes.trans h.maximumLogicalBytes
  maximumNodes := hmaximumNodes.trans h.maximumNodes
  logicalBytes := by
    have hold := h.logicalBytes
    have hsum := (hgone.map snd).sum_eq
    have hsum' := (hcome.map snd).sum_eq
    simp only [map_append, sum_append] at hsum hsum'
    show quota'.logicalBytes = ((charges (entries home')).map snd).sum
    omega
  nodes := hnodes
  logicalBytes_le := hbytes_le
  nodes_le := hnodes_le
  counts := by
    have hperm : (held { fs with home := home', objects := objects', quota := quota', generation := generation' }).Perm _ :=
      held_perm hcome
    exact hcounts.perm hperm.symm

theorem charges_old (path : List Component) (old : Option Node) :
    (charges (old.toList.map fun node => (path, node.info))).map fst = (old.bind nodeObject).toList ∧
    ((charges (old.toList.map fun node => (path, node.info))).map snd).sum =
      (old.map fun node => (metadata node).logicalSize).getD 0 := by
  cases old with
  | none => exact ⟨rfl, rfl⟩
  | some node => cases node <;> exact ⟨rfl, rfl⟩

namespace ComputerFileSystem

variable {fs : ComputerFileSystem} {gate : Gate} {capability : FileCapability}

theorem createDirectory_ends (h : Accounted fs) (path : VirtualPath) :
    Ends (createDirectory sha256 gate capability path) fs (Committed sha256 fs) (Stopped fs) := by
  refine ends_check fun ⟨mount, components⟩ htarget => ?_
  obtain ⟨⟨rfl, rfl⟩, -⟩ := mutableTarget_eq_ok.mp htarget
  refine ends_check fun ⟨name, parent⟩ hsplit => ?_
  cases splitName_eq_ok.mp hsplit
  refine get_bind (ends_check fun d hfind => ?_)
  have hd := findDirectory_eq_ok.mp hfind
  refine ends_check fun _ hnone => ends_check fun _ hentries => ?_
  have hnew : get d name = none := Option.isNone_iff_eq_none.mp (demand_eq_ok.mp hnone)
  have hlimit : d.length < fs.limits.maximumDirectoryEntries := of_decide_eq_true (demand_eq_ok.mp hentries)
  refine ends_check fun reservation hreserve => ?_
  obtain ⟨⟨-, -, -, hnodes⟩, rfl⟩ := QuotaLedger.reserve_eq_ok.mp hreserve
  refine ends_check fun generation hgeneration => ?_
  obtain ⟨hlt, rfl⟩ := nextGeneration_eq_ok hgeneration
  refine ends_check fun publication hpublished => ?_
  have hmutation := preparePersistence_mutation sha256 hpublished
  refine ends_run (run_edit hd) (modify_bind (modify_bind (Ends.pure ?_)))
  have hchange : Change sha256 fs.limits (fs.generation + 1) fs.home _ _ := .createDirectory hd hnew hlimit
  have hperm := entries_createDirectory h.home.ordered hd hnew (fs.generation + 1)
  have hsplit := entries_split h.home.ordered hd hnew
  have hgone : (charges (entries fs.home)).Perm ([] ++ charges _) := charges_perm hsplit
  have hcome : (charges (entries _)).Perm ([] ++ charges _) := charges_perm hperm
  refine ⟨hlt, hmutation ▸ hchange, rfl, ⟨gate, hmutation ▸ hpublished⟩, fun o stored hs => .inl ⟨stored, hs, rfl⟩, ?_⟩
  refine h.change (hchange.limited h.home) hgone hcome (h.counts.perm (held_perm hgone)) rfl rfl rfl ?_
    h.logicalBytes_le ?_
  · show fs.quota.nodes + 1 = _
    rw [hperm.length_eq, h.nodes, hsplit.length_eq]
    rfl
  · exact Nat.le_trans (h.maximumNodes ▸ hnodes) (Nat.le_max_left _ _)

/-- What `write_file` and `replace_existing` do once the tree is changed. -/
theorem putFile_ends (h : Accounted fs) {parent : List Component} {name : Component} {d : Directory}
    {previous : Option Node} {bytes : List UInt8} {executable : Bool} {reservation : MutationCost}
    {publication : Publication} (hd : below? fs.home parent = some d)
    (hprevious : get d name = previous)
    (hfile : ∀ old, previous = some old → ∃ info, old = .file info)
    (hlimit : previous = none → d.length < fs.limits.maximumDirectoryEntries)
    (hsize : bytes.length ≤ fs.limits.maximumFileBytes)
    (hreserve : fs.quota.reserve
      { logicalBytesAdded := bytes.length - (previous.map fun node => (metadata node).logicalSize).getD 0
        nodesAdded := if previous.isNone then 1 else 0 } = .ok reservation)
    (hlt : fs.generation + 1 < 2 ^ 64)
    (hpublished : fs.preparePersistence sha256 gate ⟨fs.generation + 1, some (sha256 bytes, bytes),
      .putFile (homeName :: (parent ++ [name])) (fs.generation + 1) bytes.length (sha256 bytes) executable⟩ =
        .ok publication) :
    Ends (do
      replaceObject (previous.bind nodeObject) (sha256 bytes) bytes
      commitQuota reservation
      releaseQuota ((previous.map fun node => (metadata node).logicalSize).getD 0 - bytes.length) 0
      advance (fs.generation + 1)
      return publication)
      { fs with home :=
          Forest.edit (insert name (.file ⟨sha256 bytes, bytes.length, fs.generation + 1, executable⟩)) fs.home parent }
      (Committed sha256 fs) (Stopped fs) := by
  have hmutation := preparePersistence_mutation sha256 hpublished
  obtain ⟨⟨-, -, hbytes, hnodes⟩, rfl⟩ := QuotaLedger.reserve_eq_ok.mp hreserve
  have hchange : Change sha256 fs.limits (fs.generation + 1) fs.home _ _ :=
    @Change.putFile _ _ _ _ _ _ _ _ executable hd (hprevious ▸ hfile) (hprevious ▸ hlimit) hsize
  have hperm := entries_putFile h.home.ordered hd (hprevious ▸ hfile)
    ⟨sha256 bytes, bytes.length, fs.generation + 1, executable⟩
  have hsplit := entries_split h.home.ordered hd hprevious
  obtain ⟨hobjects, hsum⟩ := charges_old (parent ++ [name]) previous
  have hgone := charges_perm hsplit
  rw [charges_append] at hgone
  have hcome : (charges (entries _)).Perm ([(sha256 bytes, bytes.length)] ++ charges _) := charges_perm hperm
  -- the ledger covers what the old file was charged
  have hcovered : (previous.map fun node => (metadata node).logicalSize).getD 0 ≤ fs.quota.logicalBytes := by
    have hbefore := (hgone.map snd).sum_eq
    rw [map_append, sum_append, hsum, ← h.logicalBytes] at hbefore
    omega
  have hbefore := h.counts.perm (held_perm hgone)
  rw [hobjects] at hbefore
  rcases @ObjectStore.Counts.replace _ _ (sha256 bytes) _ hbefore bytes with
    ⟨objects', hreplace, hcounts, hstored⟩ | ⟨hreplace, hfull⟩
  · refine ends_run (run_replaceObject hreplace) (modify_bind ?_)
    refine ends_run (run_releaseQuota ?_ (Nat.zero_le _)) (modify_bind (Ends.pure ?_))
    · exact Nat.le_trans (Nat.sub_le _ _) (Nat.le_trans hcovered (Nat.le_add_right _ _))
    refine ⟨hlt, hmutation ▸ hchange, rfl, ⟨gate, hmutation ▸ hpublished⟩, fun o stored hs => ?_, ?_⟩
    · rcases hstored o stored hs with hold | ⟨rfl, rfl⟩
      · exact .inl hold
      · exact .inr (by rw [hmutation])
    · have hlength := hsplit.length_eq
      rw [length_append, length_map] at hlength
      have hlength' := hperm.length_eq
      rw [length_cons] at hlength'
      have hadded : (if previous.isNone then 1 else 0) + previous.toList.length = 1 := by cases previous <;> rfl
      have hold := h.nodes
      have hbytes : fs.quota.logicalBytes + (bytes.length - _) ≤ fs.limits.maximumLogicalBytes :=
        h.maximumLogicalBytes ▸ hbytes
      have hnodes : fs.quota.nodes + (if previous.isNone then 1 else 0) ≤ fs.limits.maximumNodes :=
        h.maximumNodes ▸ hnodes
      refine h.change (hchange.limited h.home) hgone hcome hcounts rfl rfl ?_ ?_ ?_ ?_
      · show fs.quota.logicalBytes + (bytes.length - _) - (_ - bytes.length) + _ =
          fs.quota.logicalBytes + (bytes.length + 0)
        omega
      · show fs.quota.nodes + (if previous.isNone then 1 else 0) - 0 =
          2 + (entries (Forest.edit _ fs.home parent)).length
        omega
      · exact Nat.le_trans (Nat.sub_le _ _) hbytes
      · exact Nat.le_trans hnodes (Nat.le_max_left _ _)
  · refine (Ends.of_error (run_bind_error (run_replaceObject_error hreplace)) ⟨rfl, sha256 bytes, ?_⟩)
    rw [(held_perm hgone).count_eq, hobjects]
    exact hfull

variable {path : VirtualPath}

theorem writeTarget_eq_ok {mount : Mount} {name : Component} {parent : List Component}
    {d : Directory} (h : fs.writeTarget path = .ok (mount, name, parent, d)) :
    mount = .home ∧ path = homeName :: (parent ++ [name]) ∧ below? fs.home parent = some d := by
  obtain ⟨⟨_, _⟩, hpath, hrest⟩ := bind_eq_ok.mp h
  obtain ⟨⟨_, _⟩, hsplit, hlast⟩ := bind_eq_ok.mp hrest
  obtain ⟨d', hfind, hvalue⟩ := bind_eq_ok.mp hlast
  cases hvalue
  obtain ⟨rfl, rfl⟩ := writablePath_eq_ok.mp hpath
  cases splitName_eq_ok.mp hsplit
  exact ⟨rfl, rfl, findDirectory_eq_ok.mp hfind⟩

theorem requireWrite_none {d : Directory} {u : Unit}
    (h : fs.requireWrite capability path d none = .ok u) : d.length < fs.limits.maximumDirectoryEntries := by
  obtain ⟨-, -, hlimit⟩ := bind_eq_ok.mp h
  exact of_decide_eq_true (demand_eq_ok.mp hlimit)

theorem writeFile_ends (h : Accounted fs) (path : VirtualPath) (bytes : List UInt8) (executable : Bool) :
    Ends (writeFile sha256 gate capability path bytes executable) fs (Committed sha256 fs) (Stopped fs) := by
  refine get_bind (ends_check fun ⟨mount, name, parent, d⟩ htarget => ?_)
  obtain ⟨rfl, rfl, hd⟩ := writeTarget_eq_ok htarget
  refine ends_check fun _ hrequire => ends_check fun _ hkind => ends_check fun _ hsize => ?_
  refine ends_check fun reservation hreserve => ends_check fun generation hgeneration => ?_
  obtain ⟨hlt, rfl⟩ := nextGeneration_eq_ok hgeneration
  refine ends_check fun publication hpublished => ends_run (run_edit hd) ?_
  refine putFile_ends sha256 h hd rfl (fun old hold => ?_) (fun hnone => ?_)
    (of_decide_eq_true (demand_eq_ok.mp hsize)) hreserve hlt hpublished
  · rw [hold] at hkind
    cases old with
    | file info => exact ⟨info, rfl⟩
    | directory => cases hkind
  · rw [hnone] at hrequire
    exact requireWrite_none hrequire

theorem replaceExisting_ends (h : Accounted fs) (path : VirtualPath) (bytes : List UInt8) :
    Ends (replaceExisting sha256 gate path bytes) fs (Committed sha256 fs) (Stopped fs) := by
  refine ends_check fun ⟨mount, components⟩ hpath => ?_
  obtain ⟨rfl, rfl⟩ := writablePath_eq_ok.mp hpath
  refine get_bind (ends_check fun previous hfind => ?_)
  obtain ⟨_, _, d, rfl, hd, hprevious⟩ := Forest.find?_eq_some (findNode_eq_ok.mp hfind)
  refine ends_check fun previousObject hobject => ?_
  have hobject := demandSome_eq_ok.mp hobject
  refine ends_check fun _ hsize => ends_check fun reservation hreserve => ends_check fun generation hgeneration => ?_
  obtain ⟨hlt, rfl⟩ := nextGeneration_eq_ok hgeneration
  refine ends_check fun publication hpublished => ends_run (run_putNode hd hprevious) ?_
  have hfile : ∀ old, some previous = some old → ∃ info, old = .file info := by
    intro old hold
    cases hold
    cases previous with
    | file info => exact ⟨info, rfl⟩
    | directory => cases hobject
  have hends := putFile_ends sha256 h hd hprevious hfile (fun hnone => by cases hnone)
    (of_decide_eq_true (demand_eq_ok.mp hsize)) hreserve hlt hpublished
  rw [show (some previous).bind nodeObject = some previousObject from hobject] at hends
  exact hends

/-- A node that is no longer in the tree gives up its object and its share of the quota. -/
theorem discard_ends {β : Type} {Q : β → ComputerFileSystem → Prop} {E : Stop → ComputerFileSystem → Prop}
    (h : Accounted fs) {home' : Directory} {old : Node} {path : List Component} {rest : List Entry}
    {k : Unit → Action β} (hsplit : (entries fs.home).Perm ((path, old.info) :: rest))
    (hk : ∀ objects', objects'.Counts ((charges (entries fs.rom) ++ charges rest).map fst) →
      ObjectStore.Counts.KeepsBytes fs.objects objects' →
      Ends (k ()) { fs with
        home := home'
        objects := objects'
        quota := { fs.quota with
          logicalBytes := fs.quota.logicalBytes - (metadata old).logicalSize
          nodes := fs.quota.nodes - 1 } } Q E) :
    Ends (match nodeObject old with
      | some object => removeObject object >>= fun _ => releaseQuota (metadata old).logicalSize 1 >>= k
      | none => releaseQuota (metadata old).logicalSize 1 >>= k) { fs with home := home' } Q E := by
  have hgone := charges_perm hsplit
  rw [charges_cons] at hgone
  have hcounts := h.counts.perm (held_perm hgone)
  have hcovered : (metadata old).logicalSize ≤ fs.quota.logicalBytes := by
    have hsum := (hgone.map snd).sum_eq
    rw [map_append, sum_append, ← h.logicalBytes, charge_info] at hsum
    cases old with
    | file info =>
      have hsum : fs.quota.logicalBytes = info.logicalSize + 0 + _ := hsum
      show info.logicalSize ≤ _
      omega
    | directory => exact Nat.zero_le _
  have hnode : 1 ≤ fs.quota.nodes := by
    have := h.nodes
    omega
  cases old with
  | file =>
    obtain ⟨objects', hremove, hcounts', hkeep⟩ := ObjectStore.Counts.remove hcounts
    refine ends_run (run_removeObject hremove) (ends_run (run_releaseQuota hcovered hnode) ?_)
    exact hk objects' hcounts' hkeep
  | directory =>
    refine ends_run (run_releaseQuota hcovered hnode) ?_
    exact hk fs.objects hcounts fun o stored hs => ⟨stored, hs, rfl⟩

/-- The accounts after a node was discarded. -/
theorem Accounted.discard (h : Accounted fs) {home' : Directory} {objects' : ObjectStore} {old : Node}
    {path : List Component} {rest : List Entry} {generation' : Nat}
    (hhome : Everywhere (Limited fs.limits.maximumDirectoryEntries) home')
    (hsplit : (entries fs.home).Perm ((path, old.info) :: rest))
    (hcome : (charges (entries home')).Perm (charges rest))
    (hlength : (entries home').length = rest.length)
    (hcounts : objects'.Counts ((charges (entries fs.rom) ++ charges rest).map fst)) :
    Accounted { fs with
      home := home'
      objects := objects'
      quota := { fs.quota with
        logicalBytes := fs.quota.logicalBytes - (metadata old).logicalSize
        nodes := fs.quota.nodes - 1 }
      generation := generation' } := by
  have hgone := charges_perm hsplit
  rw [charges_cons] at hgone
  have hsum := (hgone.map snd).sum_eq
  rw [map_append, sum_append, ← h.logicalBytes] at hsum
  have hcharge : ((charge old.info).toList.map snd).sum = (metadata old).logicalSize := by cases old <;> rfl
  have hnodes := h.nodes
  rw [hsplit.length_eq, length_cons] at hnodes
  have hcome : (charges (entries home')).Perm ([] ++ charges rest) := hcome
  refine h.change hhome hgone hcome hcounts rfl rfl ?_ ?_ ?_ ?_
  · rw [hcharge] at hsum ⊢
    show fs.quota.logicalBytes - _ + _ = fs.quota.logicalBytes + 0
    omega
  · show fs.quota.nodes - 1 = 2 + (entries home').length
    omega
  · exact Nat.le_trans (Nat.sub_le _ _) h.logicalBytes_le
  · exact Nat.le_trans (Nat.sub_le _ _) h.nodes_le

theorem remove_ends (h : Accounted fs) (path : VirtualPath) :
    Ends (remove sha256 gate capability path) fs (Committed sha256 fs) (Stopped fs) := by
  refine ends_check fun ⟨mount, components⟩ htarget => ?_
  obtain ⟨⟨rfl, rfl⟩, -⟩ := mutableTarget_eq_ok.mp htarget
  refine ends_check fun ⟨name, parent⟩ hsplit => ?_
  cases splitName_eq_ok.mp hsplit
  refine get_bind (ends_check fun d hfind => ?_)
  have hd := findDirectory_eq_ok.mp hfind
  refine ends_check fun node hnode => ends_check fun _ hempty => ends_check fun generation hgeneration => ?_
  have hnode := demandSome_eq_ok.mp hnode
  have hleaf : node.children = [] := isEmpty_iff.mp (demand_eq_ok.mp hempty)
  obtain ⟨hlt, rfl⟩ := nextGeneration_eq_ok hgeneration
  refine ends_check fun publication hpublished => ends_run (run_edit hd) ?_
  have hmutation := preparePersistence_mutation sha256 hpublished
  have hchange : Change sha256 fs.limits (fs.generation + 1) fs.home _ _ := .remove hd hnode hleaf
  have hsplit := entries_split h.home.ordered hd hnode
  have hperm := entries_remove h.home.ordered hd hnode hleaf
  refine discard_ends h hsplit fun objects' hcounts hkeep => modify_bind (Ends.pure ?_)
  refine ⟨hlt, hmutation ▸ hchange, rfl, ⟨gate, hmutation ▸ hpublished⟩, fun o stored hs => .inl (hkeep o stored hs), ?_⟩
  exact Accounted.discard h (hchange.limited h.home) hsplit (charges_perm hperm) hperm.length_eq hcounts

theorem checkReplaced_eq_ok {replace : Bool} {source existing : Node} {u : Unit}
    (h : checkReplaced replace source existing = .ok u) :
    replace = true ∧ existing.children = [] ∧ (metadata existing).kind = (metadata source).kind := by
  obtain ⟨_, hreplace, hrest⟩ := bind_eq_ok.mp h
  obtain ⟨_, hempty, hkind⟩ := bind_eq_ok.mp hrest
  exact ⟨demand_eq_ok.mp hreplace, isEmpty_iff.mp (demand_eq_ok.mp hempty), eq_of_beq (demand_eq_ok.mp hkind)⟩

theorem rename_ends (h : Accounted fs) (source destination : VirtualPath) (replace : Bool) :
    Ends (rename sha256 gate capability source destination replace) fs (Returned sha256 fs) (Stopped fs) := by
  refine ends_check fun ⟨sourceMount, sourceComponents⟩ hsource => ?_
  obtain ⟨⟨rfl, rfl⟩, -⟩ := mutableTarget_eq_ok.mp hsource
  refine ends_check fun ⟨destinationMount, destinationComponents⟩ hdestination => ends_check fun _ _ => ?_
  obtain ⟨⟨rfl, rfl⟩, -⟩ := mutableTarget_eq_ok.mp hdestination
  split
  · exact Ends.pure rfl
  refine ends_check fun _ hwithin => ends_check fun taken hsplit => ends_check fun found hsplit' => ?_
  obtain ⟨sn, sp⟩ := taken
  obtain ⟨dn, dp⟩ := found
  cases splitName_eq_ok.mp hsplit
  cases splitName_eq_ok.mp hsplit'
  have hwithin : ¬sp ++ [sn] <+: dp ++ [dn] := by
    intro hp
    have : isWithin (homeName :: (dp ++ [dn])) (homeName :: (sp ++ [sn])) = true :=
      isWithin_iff.mpr (cons_prefix_cons.mpr ⟨rfl, hp⟩)
    rw [this] at hwithin
    cases hwithin
  refine get_bind (ends_check fun sd hfind => ends_check fun node hnode => ends_check fun dd hfind' => ?_)
  have hs := findDirectory_eq_ok.mp hfind
  have hnode := demandSome_eq_ok.mp hnode
  have hd := findDirectory_eq_ok.mp hfind'
  refine ends_check fun _ hexisting => ends_check fun generation hgeneration => ?_
  obtain ⟨hlt, rfl⟩ := nextGeneration_eq_ok hgeneration
  refine ends_check fun publication hpublished => ends_run (run_takeNode hs hnode) ?_
  have hmutation := preparePersistence_mutation sha256 hpublished
  obtain ⟨d₁, hd₁, -, -⟩ := Forest.below?_edit_erase h.home.ordered hs hd fun hp =>
    hwithin (hp.trans (prefix_append dp [dn]))
  refine ends_run (run_editExpected hd₁) ?_
  have hreplaced : ∀ old, get dd dn = some old →
      replace = true ∧ old.children = [] ∧ (metadata old).kind = (metadata node).kind := by
    intro old hold
    rw [hold] at hexisting
    exact checkReplaced_eq_ok hexisting
  have hlimit : get dd dn = none → dd.length < fs.limits.maximumDirectoryEntries := by
    intro hnone
    rw [hnone] at hexisting
    exact of_decide_eq_true (demand_eq_ok.mp hexisting)
  have hchange : Change sha256 fs.limits (fs.generation + 1) fs.home _ _ :=
    .rename hs hnode hd hwithin hreplaced hlimit
  obtain ⟨hlength, hcharges⟩ := entries_rename h.home.ordered hs hnode hd hwithin
    (fun old hold => (hreplaced old hold).2.1) (fs.generation + 1)
  cases hold : get dd dn with
  | none =>
    have hsplit := entries_split h.home.ordered hd hold
    have hgone : (charges (entries fs.home)).Perm ([] ++ charges _) := charges_perm hsplit
    have hcome : (charges (entries _)).Perm ([] ++ charges _) := hcharges
    refine modify_bind (Ends.pure ?_)
    refine ⟨hlt, hmutation ▸ hchange, rfl, ⟨gate, hmutation ▸ hpublished⟩, fun o stored hs => .inl ⟨stored, hs, rfl⟩, ?_⟩
    refine h.change (hchange.limited h.home) hgone hcome (h.counts.perm (held_perm hgone)) rfl rfl rfl ?_
      h.logicalBytes_le h.nodes_le
    rw [h.nodes, hsplit.length_eq]
    exact congrArg (2 + ·) hlength.symm
  | some =>
    have hsplit := entries_split h.home.ordered hd hold
    refine discard_ends h hsplit fun objects' hcounts hkeep => modify_bind (Ends.pure ?_)
    refine ⟨hlt, hmutation ▸ hchange, rfl, ⟨gate, hmutation ▸ hpublished⟩, fun o stored hs => .inl (hkeep o stored hs), ?_⟩
    exact Accounted.discard h (hchange.limited h.home) hsplit hcharges hlength hcounts

/-! ## The calls that read -/

/-- The object of a file that is found is in the store. -/
theorem bytes_eq_ok (h : Accounted fs) {mount : Mount} {components : List Component} {info : FileInfo}
    (hfind : findNode (fs.directory mount) components = .ok (.file info)) :
    ∃ bytes, fs.objects.bytes info.object = .ok bytes := by
  have hview : view (fs.directory mount) components = some (.inl info) := by
    rw [view, findNode_eq_ok.mp hfind]
    rfl
  have hordered : Ordered (fs.directory mount) := by
    cases mount with
    | rom => exact h.rom
    | home => exact h.home.ordered
  have hcharge : (info.object, info.logicalSize) ∈ charges (entries (fs.directory mount)) :=
    mem_filterMap.mpr ⟨_, (Forest.mem_entries hordered).mpr hview, rfl⟩
  have hmem : info.object ∈ held fs := by
    refine mem_map.mpr ⟨(info.object, info.logicalSize), mem_append.mpr ?_, rfl⟩
    cases mount with
    | rom => exact .inl hcharge
    | home => exact .inr hcharge
  obtain ⟨stored, hget, -⟩ := h.counts.get_of_mem hmem
  exact ⟨stored.bytes, by rw [ObjectStore.bytes, hget]; rfl⟩

/-- How a lookup ends: with a value, or an error of the file system. -/
def NoPanic {α : Type} (x : Except Stop α) : Prop := ∀ p, x ≠ .error (.panic p)

theorem NoPanic.bind {α β : Type} {x : Except Stop α} {f : α → Except Stop β} (hx : NoPanic x)
    (hf : ∀ a, x = .ok a → NoPanic (f a)) : NoPanic (x >>= f) := by
  cases x with
  | ok a => exact hf a rfl
  | error =>
    intro p hp
    cases hp
    exact hx p rfl

theorem noPanic_error {α : Type} (x : Except FileSystemError α) : NoPanic (x.mapError Stop.error) := by
  intro p hp
  cases x <;> cases hp

theorem noPanic_demand (condition : Bool) (e : FileSystemError) : NoPanic (demand condition (Stop.error e)) := by
  intro p hp
  cases condition <;> cases hp

theorem fileBytes_noPanic (h : Accounted fs) (path : VirtualPath) : NoPanic (fs.fileBytes path) := by
  refine (noPanic_error _).bind fun ⟨mount, components⟩ _ => (noPanic_error _).bind fun node hnode p hp => ?_
  cases node with
  | directory => cases hp
  | file info =>
    have hfind : findNode (fs.directory mount) components = .ok (.file info) := by
      cases hfind : findNode (fs.directory mount) components with
      | error =>
        rw [hfind] at hnode
        cases hnode
      | ok =>
        rw [hfind] at hnode
        cases hnode
        rfl
    obtain ⟨_, hbytes⟩ := bytes_eq_ok h hfind
    simp only [hbytes] at hp
    cases hp

theorem readAt_noPanic (h : Accounted fs) (handle : FileHandle) (offset maximumBytes : Nat) :
    NoPanic (fs.readAt handle offset maximumBytes) := by
  refine (noPanic_error _).bind fun file _ => (noPanic_demand _ _).bind fun _ _ => ?_
  refine (fileBytes_noPanic h _).bind fun bytes _ p hp => ?_
  cases hp

theorem readAll_noPanic (h : Accounted fs) (handle : FileHandle) (size fuel offset : Nat) :
    NoPanic (fs.readAll handle size fuel offset) := by
  induction fuel generalizing offset with
  | zero =>
    intro p hp
    cases hp
  | succ _ ih =>
    rw [readAll]
    split
    · refine (readAt_noPanic h _ _ _).bind fun chunk _ => ?_
      split
      · intro p hp
        cases hp
      · refine (noPanic_demand _ _).bind fun _ _ => (ih _).bind fun rest _ p hp => ?_
        cases hp
    · intro p hp
      cases hp

theorem ends_attempt {α β : Type} {Q : β → ComputerFileSystem → Prop} {x : Except Stop α} {f : α → Action β}
    (hx : NoPanic x) (h : ∀ a, x = .ok a → Ends (f a) fs Q (Stopped fs)) :
    Ends (attempt x >>= f) fs Q (Stopped fs) := by
  refine Ends.attempt_bind (fun e he => ?_) h
  cases e with
  | error e => exact stopped_same fs e
  | panic p => exact absurd he (hx p)

theorem stat_ends (path : VirtualPath) : Ends (stat capability path) fs (fun _ fs' => fs' = fs) (Stopped fs) := by
  refine ends_check fun _ _ => ?_
  split
  · exact Ends.pure rfl
  refine ends_check fun ⟨mount, components⟩ _ => ?_
  dsimp only
  split
  · exact Ends.pure rfl
  exact get_bind (ends_check fun node _ => Ends.pure rfl)

theorem list_ends (path : VirtualPath) : Ends (list capability path) fs (fun _ fs' => fs' = fs) (Stopped fs) := by
  refine ends_check fun _ _ => ?_
  split
  · exact Ends.pure rfl
  refine ends_check fun ⟨mount, components⟩ _ => get_bind ?_
  split
  · exact Ends.pure rfl
  refine ends_check fun node _ => ?_
  cases node with
  | directory => exact Ends.pure rfl
  | file => exact Ends.throw (stopped_same fs _)

theorem readSnapshot_ends (h : Accounted fs) (path : VirtualPath) :
    Ends (readSnapshot capability path) fs (fun _ fs' => fs' = fs) (Stopped fs) := by
  refine ends_check fun _ _ => ?_
  split
  · exact Ends.throw (stopped_same fs _)
  refine ends_check fun ⟨mount, components⟩ _ => ?_
  dsimp only
  split
  · exact Ends.throw (stopped_same fs _)
  refine get_bind (ends_check fun node hnode => ends_check fun object hobject => ?_)
  cases node with
  | directory => cases hobject
  | file =>
    cases hobject
    obtain ⟨_, hbytes⟩ := bytes_eq_ok h hnode
    rw [hbytes]
    exact Ends.pure rfl

theorem openFile_ends (path : VirtualPath) (mode : OpenMode) :
    Ends (openFile capability path mode) fs (fun _ fs' => SameData fs fs') (Stopped fs) := by
  refine ends_check fun _ _ => ends_check fun ⟨mount, components⟩ _ => get_bind ?_
  refine ends_check fun node _ => ends_check fun _ _ => ends_check fun _ _ => ends_check fun ⟨handle, handles⟩ _ => ?_
  exact modify_bind (Ends.pure rfl)

theorem read_ends (h : Accounted fs) (handle : FileHandle) (offset maximumBytes : Nat) :
    Ends (read handle offset maximumBytes) fs (fun _ fs' => fs' = fs) (Stopped fs) := by
  refine get_bind (Ends.attempt (fun e he => ?_) fun a _ => rfl)
  cases e with
  | error e => exact stopped_same fs e
  | panic p => exact absurd he (readAt_noPanic h _ _ _ p)

theorem close_ends (handle : FileHandle) : Ends (close handle) fs (fun _ fs' => SameData fs fs') (Stopped fs) :=
  get_bind (ends_check fun _ _ => rfl)

theorem closeQuietly_same (handle : FileHandle) : SameData fs (run (closeQuietly handle) fs).2 := by
  rw [closeQuietly, run_modify]
  cases fs.handles.close handle <;> rfl

theorem readExecutable_ends (h : Accounted fs) (path : VirtualPath) :
    Ends (readExecutable capability path) fs (fun _ fs' => SameData fs fs') (Stopped fs) := by
  refine ends_check fun _ _ => (stat_ends path).bind fun metadata fs' hsame => ?_
  rw [hsame]
  refine ends_check fun _ _ => get_bind (ends_check fun _ _ => ?_)
  refine (openFile_ends path .read).bind fun handle fs₁ hopen => get_bind ?_
  have hread := readAll_noPanic (hopen.accounted h) handle metadata.logicalSize (metadata.logicalSize + 1) 0
  cases hall : fs₁.readAll handle metadata.logicalSize (metadata.logicalSize + 1) 0 with
  | ok =>
    refine ((close_ends handle).imp (fun _ _ hs => hs) fun _ _ => hopen.stopped).bind fun _ fs₂ hclose => ?_
    exact Ends.pure (hopen.trans hclose)
  | error e =>
    cases e with
    | panic p => exact absurd hall (hread p)
    | error => exact modify_bind (Ends.throw (hopen.trans (closeQuietly_same handle)))

theorem replacementRevision_ends (path : VirtualPath) :
    Ends (replacementRevision capability path) fs (fun _ fs' => fs' = fs) (Stopped fs) := by
  refine get_bind (ends_check fun ⟨mount, name, parent, d⟩ _ => ?_)
  dsimp only
  cases get d name with
  | some | none => exact ends_check fun _ _ => ends_check fun _ _ => Ends.pure rfl

/-! ## The calls that are made of others -/

variable (h : Accounted fs)
include h

theorem replaceFileIfRevision_ends (path : VirtualPath) (bytes : List UInt8)
    (expected : ExecutableRevision) (executable : Bool) :
    Ends (replaceFileIfRevision sha256 gate capability path bytes expected executable) fs
      (Committed sha256 fs) (Stopped fs) := by
  refine (replacementRevision_ends path).bind fun actual fs' hsame => ?_
  rw [hsame]
  exact ends_check fun _ _ => writeFile_ends sha256 h path bytes executable

theorem installExecutableFromRom_ends (source destination : VirtualPath) :
    Ends (installExecutableFromRom sha256 gate capability source destination) fs
      (Committed sha256 fs) (Stopped fs) := by
  refine ends_check fun ⟨mount, components⟩ _ => ends_check fun _ _ => get_bind ?_
  refine ends_check fun node hnode => ends_check fun _ _ => ends_check fun object hobject => ?_
  cases node with
  | directory => cases hobject
  | file =>
    cases hobject
    obtain ⟨bytes, hbytes⟩ := bytes_eq_ok h hnode
    rw [hbytes]
    refine ends_run rfl (ends_check fun ⟨_, name, _, d⟩ _ => ends_check fun _ _ => ?_)
    exact writeFile_ends sha256 h destination bytes true

theorem write_ends (handle : FileHandle) (offset : Nat) (bytes : List UInt8) :
    Ends (write sha256 gate handle offset bytes) fs (fun r => Returned sha256 fs r.2) (Stopped fs) := by
  refine get_bind (ends_check fun file _ => ends_check fun _ _ => ?_)
  dsimp only
  split
  · exact Ends.pure rfl
  refine ends_check fun _ _ => ends_check fun _ _ => ends_attempt (fileBytes_noPanic h _) fun current _ => ?_
  exact (replaceExisting_ends sha256 h _ _).bind fun publication fs' hcommitted => Ends.pure hcommitted

theorem truncate_ends (handle : FileHandle) (size : Nat) :
    Ends (truncate sha256 gate handle size) fs (Returned sha256 fs) (Stopped fs) := by
  refine get_bind (ends_check fun file _ => ends_check fun _ _ => ends_check fun _ _ => ?_)
  refine ends_attempt (fileBytes_noPanic h _) fun current _ => ?_
  split
  · exact Ends.pure rfl
  exact (replaceExisting_ends sha256 h _ _).bind fun publication fs' hcommitted => Ends.pure hcommitted

end ComputerFileSystem

open ComputerFileSystem in
/-- **Every call** changes nothing but the handles, or makes one change and keeps the accounts. -/
theorem perform_ends (h : Accounted fs) (call : Call) :
    Ends (perform sha256 call) fs (fun r => Returned sha256 fs r.2) (Stopped fs) := by
  have returned {α : Type} {x : Action α} {reply : α → Reply × Option Publication}
      (hx : Ends x fs (fun a => Returned sha256 fs (reply a).2) (Stopped fs)) :
      Ends (x >>= fun a => pure (reply a)) fs (fun r => Returned sha256 fs r.2) (Stopped fs) :=
    hx.bind fun _ _ hreturned => Ends.pure hreturned
  have same {α : Type} {x : Action α} (hx : Ends x fs (fun _ fs' => fs' = fs) (Stopped fs)) (reply : α → Reply) :
      Ends (x >>= fun a => pure (reply a, none)) fs (fun r => Returned sha256 fs r.2) (Stopped fs) :=
    hx.bind fun a fs' hsame => Ends.pure (hsame ▸ rfl)
  cases call with
  | stat => exact same (stat_ends _) _
  | list => exact same (list_ends _) _
  | readSnapshot => exact same (readSnapshot_ends h _) _
  | readExecutable => exact returned (readExecutable_ends h _)
  | openFile => exact returned (openFile_ends _ _)
  | read => exact same (read_ends h _ _ _) _
  | close => exact returned (close_ends _)
  | createDirectory => exact returned (createDirectory_ends sha256 h _)
  | writeFile => exact returned (writeFile_ends sha256 h _ _ _)
  | replacementRevision | executableInstallRevision => exact same (replacementRevision_ends _) _
  | replaceFileIfRevision => exact returned (replaceFileIfRevision_ends sha256 h _ _ _ _)
  | installExecutable => exact returned (replaceFileIfRevision_ends sha256 h _ _ _ true)
  | installExecutableFromRom => exact returned (installExecutableFromRom_ends sha256 h _ _)
  | write => exact returned (write_ends sha256 h _ _ _)
  | truncate => exact returned (truncate_ends sha256 h _ _)
  | remove => exact returned (remove_ends sha256 h _)
  | rename => exact returned (rename_ends sha256 h _ _ _)

/-! ## Contents -/

/-- The objects are named by their digests, and the nodes have the sizes of the contents.  `contents` are all
contents that were ever written. -/
structure Faithful (contents : Set (List UInt8)) (fs : ComputerFileSystem) : Prop where
  stored (object : ObjectId) (stored : StoredObject) (h : OrderedMap.get fs.objects object = some stored) :
    stored.bytes ∈ contents ∧ sha256 stored.bytes = object
  sizes (c : ObjectId × Nat) (h : c ∈ charges (entries fs.rom) ++ charges (entries fs.home)) :
    ∃ bytes ∈ contents, sha256 bytes = c.1 ∧ bytes.length = c.2

variable {sha256} {contents : Set (List UInt8)} {fs fs' : ComputerFileSystem}

theorem SameData.faithful (hsame : SameData fs fs') (h : Faithful sha256 contents fs) :
    Faithful sha256 contents fs' := by
  rw [hsame]
  exact ⟨h.stored, h.sizes⟩

theorem Committed.faithful {publication : Publication} (h : Committed sha256 fs publication fs')
    (haccounted : Accounted fs) (hfaithful : Faithful sha256 contents fs)
    (hnew : ∀ object, publication.mutation.object = some object → object.2 ∈ contents) :
    Faithful sha256 contents fs' where
  stored object stored hget := by
    rcases h.bytes object stored hget with ⟨old, hold, hbytes⟩ | hobject
    · exact hbytes ▸ hfaithful.stored object old hold
    · exact ⟨hnew _ hobject, (h.change.object_eq hobject).symm⟩
  sizes c hc := by
    have hrom : fs'.rom = fs.rom := by rw [h.state]
    rw [hrom] at hc
    rcases mem_append.mp hc with hc | hc
    · exact hfaithful.sizes c (mem_append_left _ hc)
    · rcases h.change.charge_mem haccounted.home.ordered hc with hold | ⟨bytes, hobject, rfl⟩
      · exact hfaithful.sizes c (mem_append_right _ hold)
      · exact ⟨bytes, hnew _ hobject, rfl, rfl⟩

/-- Without collisions the object of a file is in the store, and has the size of the file. -/
theorem Faithful.size_eq (h : Faithful sha256 contents fs) (haccounted : Accounted fs)
    (hinj : Set.InjOn sha256 contents) {c : ObjectId × Nat}
    (hc : c ∈ charges (entries fs.rom) ++ charges (entries fs.home)) :
    ∃ stored, get fs.objects c.1 = some stored ∧ stored.bytes.length = c.2 := by
  obtain ⟨_, hmem, hdigest, hlength⟩ := h.sizes c hc
  obtain ⟨stored, hget, -⟩ := haccounted.counts.get_of_mem (mem_map.mpr ⟨c, hc, rfl⟩)
  obtain ⟨hstored, hdigest'⟩ := h.stored c.1 stored hget
  refine ⟨stored, hget, ?_⟩
  rw [hinj hstored hmem (hdigest'.trans hdigest.symm), hlength]

end Compukter.Filesystem
