/-
What is found under `/rom`.

`Built` says that the nodes of the tree are those of the entries added so far; adding an entry keeps it
because the path of the entry is still free (`Built.step`).  No call changes the tree afterwards, and the
objects of its files stay in the store as long as the tree counts them, so `Shows` holds in every state.
-/
import Compukter.Filesystem.AccountingRun

namespace Compukter.Filesystem

open Fallible OrderedMap Transaction ComputerFileSystem RomImage List Option

variable (sha256 : List UInt8 → Digest)

/-! ## The nodes of the entries -/

variable (entry : RomEntry)

/-- The node an entry is given. -/
def RomEntry.node : Node :=
  match entry.kind with
  | .directory => .directory 0 []
  | .file => .file ⟨sha256 entry.content, entry.content.length, 0, entry.executable⟩

theorem RomEntry.children_node : (entry.node sha256).children = [] := by
  rw [RomEntry.node]
  cases entry.kind <;> rfl

/-- The nodes of the tree are those of the entries. -/
def Built (entries : List RomEntry) (rom : Directory) : Prop :=
  ∀ q info, Forest.view rom q = some info ↔ ∃ e ∈ entries, e.path = romName :: q ∧ (e.node sha256).info = info

variable {sha256}

variable {directories : List VirtualPath}

/-- Every entry of an image is below `/rom`. -/
theorem RomImage.Canonical.exists_path {entries : List RomEntry} (h : Canonical directories entries)
    {e : RomEntry} (he : e ∈ entries) : ∃ path, e.path = romName :: path := by
  induction entries generalizing directories with
  | nil => cases he
  | cons _ _ ih =>
    obtain ⟨⟨_, _, hpath, -⟩, -, hrest⟩ := h
    rcases mem_cons.mp he with rfl | he
    · exact ⟨_, hpath⟩
    · exact ih hrest he

namespace ComputerFileSystem

/-- Where an entry goes when its directory is there. -/
theorem addRomEntry_rom {fs fs' : ComputerFileSystem} {entry : RomEntry} {parent : List Component} {name : Component}
    {d : Directory} (hpath : entry.path = romName :: (parent ++ [name])) (hd : Forest.below? fs.rom parent = some d)
    (h : fs.addRomEntry sha256 entry = .ok fs') :
    fs'.rom = Forest.edit (insert name (entry.node sha256)) fs.rom parent := by
  have hsplit : splitName entry.path.tail = .ok (name, parent) := splitName_eq_ok.mpr (by rw [hpath]; rfl)
  obtain ⟨_, -, h⟩ := bind_eq_ok.mp h
  rw [hsplit] at h
  obtain ⟨_, hpair, h⟩ := bind_eq_ok.mp h
  cases hpair
  unfold RomEntry.node
  cases hkind : entry.kind with
  | directory =>
    rw [hkind] at h
    have h : fs.addRomNode parent name (.directory 0 []) = .ok fs' := h
    rw [addRomNode_eq_ok hd] at h
    cases h
    rfl
  | file =>
    rw [hkind] at h
    obtain ⟨_, hmiddle, h⟩ := bind_eq_ok.mp h
    obtain ⟨_, -, h⟩ := bind_eq_ok.mp h
    rw [addRomNode_eq_ok hd] at hmiddle
    cases hmiddle
    cases h
    rfl

end ComputerFileSystem

open ComputerFileSystem

variable {contents : Set (List UInt8)} {fs : ComputerFileSystem} {done remaining : List RomEntry}

/-- **One entry more.** -/
theorem Built.step {entry : RomEntry} {fs' : ComputerFileSystem}
    (hbuilt : Built sha256 done fs.rom) (h : Building sha256 contents directories (entry :: remaining) fs)
    (hcanonical : Canonical directories (entry :: remaining))
    (hstep : fs.addRomEntry sha256 entry = .ok fs') : Built sha256 (done ++ [entry]) fs'.rom := by
  obtain ⟨⟨parent, name, hpath, hparent⟩, -⟩ := hcanonical
  obtain ⟨d, hd⟩ := isSome_iff_exists.mp (h.directories _ hparent parent rfl)
  have hview : Forest.view fs.rom (parent ++ [name]) = none := h.free entry mem_cons_self _ hpath
  have hfree : OrderedMap.get d name = none := by
    rw [Forest.view_append hd (by simp), Forest.view_singleton] at hview
    exact map_eq_none_iff.mp hview
  intro q info
  rw [addRomEntry_rom hpath hd hstep]
  by_cases hq : q = parent ++ [name]
  · -- the path was free, so no earlier entry has it
    subst hq
    rw [Forest.view_edit_insert hd, if_pos prefix_rfl, if_pos rfl]
    constructor
    · intro hinfo
      exact ⟨entry, by simp, hpath, some.inj hinfo⟩
    · rintro ⟨e, he, hepath, rfl⟩
      rcases mem_append.mp he with he | he
      · have hsome := (hbuilt _ _).mpr ⟨e, he, hepath, rfl⟩
        rw [hview] at hsome
        cases hsome
      · rw [mem_singleton.mp he]
  · rw [view_add hd hfree (entry.children_node sha256) hq, hbuilt]
    constructor
    · rintro ⟨e, he, hrest⟩
      exact ⟨e, mem_append_left _ he, hrest⟩
    · rintro ⟨e, he, hepath, hinfo⟩
      rcases mem_append.mp he with he | he
      · exact ⟨e, he, hepath, hinfo⟩
      · rw [mem_singleton.mp he, hpath] at hepath
        exact absurd (cons.inj hepath).2.symm hq

theorem Built.run {fs' : ComputerFileSystem} (hbuilt : Built sha256 done fs.rom)
    (h : Building sha256 contents directories remaining fs) (hcanonical : Canonical directories remaining)
    (hrun : remaining.foldlM (addRomEntry sha256) fs = .ok fs') : Built sha256 (done ++ remaining) fs'.rom := by
  induction remaining generalizing fs directories done with
  | nil =>
    cases hrun
    rwa [append_nil]
  | cons _ _ ih =>
    obtain ⟨_, hstep, hbuilding⟩ := h.step hcanonical
    rw [foldlM_cons, hstep, ok_bind] at hrun
    have hfinal := ih (hbuilt.step h hcanonical hstep) hbuilding hcanonical.2.2 hrun
    rwa [append_assoc, singleton_append] at hfinal

variable {limits : FileSystemLimits} {bytes : List UInt8}

/-- The tree of an admitted image. -/
theorem built_withRom {admitted : FileSystemLimits} {image : RomImage}
    (himage : admitImage sha256 bytes admitted = .ok image) (h : withRom sha256 limits image = .ok fs) :
    Built sha256 image.entries fs.rom := by
  have hstart : Built sha256 [] (withLimits limits).rom := by
    intro q info
    rw [show (withLimits limits).rom = [] from rfl, Forest.view_empty]
    constructor
    · intro hnone
      cases hnone
    · rintro ⟨e, he, -⟩
      cases he
  exact hstart.run (Building.start sha256 himage limits fun _ _ => Set.mem_univ _)
    (admitImage_canonical sha256 himage).1 h

/-- **No call changes the tree.** -/
theorem reachable_built {image : RomImage} (himage : admitImage sha256 bytes limits = .ok image)
    (hcontents : ∀ e ∈ image.entries, e.content ∈ contents) (h : Reachable sha256 image contents fs) :
    Built sha256 image.entries fs.rom := by
  induction h with
  | start h => exact built_withRom himage h
  | attach _ _ ih => exact ih
  | @reply fs fs' call _ publication h hrun _ ih =>
    have haccounted := (reachable_accounted sha256 himage hcontents h).1
    have hreturned := (perform_ends sha256 haccounted call).ok hrun
    cases publication with
    | none =>
      have hsame : SameData fs fs' := hreturned
      rw [hsame]
      exact ih
    | some p =>
      have hcommitted : Committed sha256 fs p fs' := hreturned
      rw [hcommitted.state]
      exact ih
  | @refuse fs fs' call _ h hrun ih =>
    have haccounted := (reachable_accounted sha256 himage hcontents h).1
    have hsame : SameData fs fs' := (perform_ends sha256 haccounted call).error hrun
    rw [hsame]
    exact ih

/-! ## What the calls show of the tree -/

/-- What `stat` tells of an entry. -/
def RomEntry.metadata : NodeMetadata :=
  match entry.kind with
  | .directory => ⟨.directory, 0, 0, false⟩
  | .file => ⟨.file, entry.content.length, 0, entry.executable⟩

theorem RomEntry.metadata_node : Filesystem.metadata (entry.node sha256) = entry.metadata := by
  rw [RomEntry.node, RomEntry.metadata]
  cases entry.kind <;> rfl

/-- `/rom` is the image: every entry is found with its kind, its executable flag and its size, every file
reads back its content, and nothing else is found. -/
structure Shows (image : RomImage) (fs : ComputerFileSystem) : Prop where
  stat (e : RomEntry) (h : e ∈ image.entries) (capability : FileCapability)
    (hpermits : capability.permits e.path FileRights.INSPECT = true) :
    run (stat capability e.path) fs = (.ok e.metadata, fs)
  read (e : RomEntry) (h : e ∈ image.entries) (hkind : e.kind = .file) (capability : FileCapability)
    (hpermits : capability.permits e.path FileRights.READ = true) :
    run (readSnapshot capability e.path) fs = (.ok e.content, fs)
  only (path : List Component) (node : Node) (h : findNode fs.rom path = .ok node) :
    ∃ e ∈ image.entries, e.path = romName :: path

section Shows

variable {fs : ComputerFileSystem} {capability : FileCapability} {path : List Component} {node : Node}

theorem run_require {path : VirtualPath} {rights : FileRights} (h : capability.permits path rights = true) :
    run (check (require capability path rights)) fs = (.ok (), fs) :=
  run_check (demand_eq_ok.mpr h)

theorem rom_found (hfind : Forest.find? fs.rom path = some node) : path ≠ [] ∧
    splitMount (romName :: path) = .ok (.rom, path) ∧ findNode (fs.directory .rom) path = .ok node := by
  refine ⟨?_, splitMount_eq_ok.mpr rfl, findNode_eq_ok.mpr hfind⟩
  rintro rfl
  cases hfind

theorem run_stat (hpermits : capability.permits (romName :: path) FileRights.INSPECT = true)
    (hfind : Forest.find? fs.rom path = some node) :
    run (stat capability (romName :: path)) fs = (.ok (metadata node), fs) := by
  obtain ⟨hpath, hmount, hnode⟩ := rom_found hfind
  unfold stat
  rw [run_bind_ok (run_require hpermits), if_neg (cons_ne_nil _ _), run_bind_ok (run_check hmount)]
  dsimp only
  rw [if_neg hpath, run_bind_ok (run_get fs), run_bind_ok (run_check hnode), run_pure]

theorem run_readSnapshot {info : FileInfo} {bytes : List UInt8}
    (hpermits : capability.permits (romName :: path) FileRights.READ = true)
    (hfind : Forest.find? fs.rom path = some (.file info)) (hbytes : fs.objects.bytes info.object = .ok bytes) :
    run (readSnapshot capability (romName :: path)) fs = (.ok bytes, fs) := by
  obtain ⟨hpath, hmount, hnode⟩ := rom_found hfind
  have hobject : demandSome (nodeObject (.file info)) FileSystemError.isDirectory = .ok info.object := rfl
  unfold readSnapshot
  rw [run_bind_ok (run_require hpermits), if_neg (cons_ne_nil _ _), run_bind_ok (run_check hmount)]
  dsimp only
  rw [if_neg hpath, run_bind_ok (run_get fs), run_bind_ok (run_check hnode), run_bind_ok (run_check hobject), must,
    run_attempt, hbytes]
  rfl

/-- The node of an entry. -/
theorem Built.find {entries : List RomEntry} (h : Built sha256 entries fs.rom) {e : RomEntry} (he : e ∈ entries)
    (hpath : e.path = romName :: path) : Forest.view fs.rom path = some (e.node sha256).info :=
  (h path _).mpr ⟨e, he, hpath, rfl⟩

theorem metadata_eq_of_info {a b : Node} (h : a.info = b.info) : metadata a = metadata b := by
  cases a <;> cases b <;> cases h <;> rfl

/-- The object of a file of the image is there, with the content of the file. -/
theorem bytes_of_built {image : RomImage} {contents : Set (List UInt8)} (hbuilt : Built sha256 image.entries fs.rom)
    (haccounted : Accounted fs) (hfaithful : Faithful sha256 contents fs) (hinj : Set.InjOn sha256 contents)
    (hcontents : ∀ e ∈ image.entries, e.content ∈ contents) {e : RomEntry} (he : e ∈ image.entries)
    (hkind : e.kind = .file) (hpath : e.path = romName :: path) :
    fs.objects.bytes (sha256 e.content) = .ok e.content := by
  have hview := hbuilt.find he hpath
  rw [RomEntry.node, hkind] at hview
  have hentry := (Forest.mem_entries haccounted.rom).mpr hview
  have hheld : sha256 e.content ∈ held fs := by
    refine mem_map.mpr ⟨(sha256 e.content, e.content.length), mem_append_left _ ?_, rfl⟩
    exact mem_filterMap.mpr ⟨_, hentry, rfl⟩
  obtain ⟨stored, hget, -⟩ := haccounted.counts.get_of_mem hheld
  obtain ⟨hmem, hdigest⟩ := hfaithful.stored _ _ hget
  have hbytes : stored.bytes = e.content := hinj hmem (hcontents e he) hdigest
  rw [ObjectStore.bytes, hget, ← hbytes]
  rfl

end Shows

theorem shows_of_reachable {image : RomImage}
    (himage : admitImage sha256 bytes limits = .ok image) (hinj : Set.InjOn sha256 contents)
    (hcontents : ∀ e ∈ image.entries, e.content ∈ contents) (h : Reachable sha256 image contents fs) :
    Shows image fs := by
  obtain ⟨haccounted, hfaithful⟩ := reachable_accounted sha256 himage hcontents h
  have hbuilt := reachable_built himage hcontents h
  have hbelow := (admitImage_canonical sha256 himage).1
  refine ⟨fun e he capability hpermits => ?_, fun e he hkind capability hpermits => ?_, fun path node hfind => ?_⟩
  · obtain ⟨path, hpath⟩ := hbelow.exists_path he
    obtain ⟨node, hfind, hinfo⟩ := map_eq_some_iff.mp (hbuilt.find he hpath)
    rw [hpath] at hpermits ⊢
    rw [run_stat hpermits hfind, metadata_eq_of_info hinfo, RomEntry.metadata_node]
  · obtain ⟨path, hpath⟩ := hbelow.exists_path he
    obtain ⟨node, hfind, hinfo⟩ := map_eq_some_iff.mp (hbuilt.find he hpath)
    have hbytes := bytes_of_built hbuilt haccounted hfaithful hinj hcontents he hkind hpath
    rw [RomEntry.node, hkind] at hinfo
    rw [hpath] at hpermits ⊢
    cases node with
    | directory => cases hinfo
    | file =>
      cases hinfo
      exact run_readSnapshot hpermits hfind hbytes
  · have hview : Forest.view fs.rom path = some node.info := by
      rw [Forest.view, findNode_eq_ok.mp hfind, map_some]
    obtain ⟨e, he, hpath, -⟩ := (hbuilt path _).mp hview
    exact ⟨e, he, hpath⟩

/-- **`/rom` is the image.**  Every admitted image gives a file system, and whatever calls are made after
that, `/rom` shows the entries of the image and nothing else. -/
theorem rom_shows_image {bytes : List UInt8} {limits : FileSystemLimits} {image : RomImage}
    (himage : admitImage sha256 bytes limits = .ok image) {contents : Set (List UInt8)}
    (hinj : Set.InjOn sha256 contents) (hcontents : ∀ e ∈ image.entries, e.content ∈ contents) :
    (∀ limits, ∃ fs, withRom sha256 limits image = .ok fs ∧ Shows image fs) ∧
      ∀ fs, Reachable sha256 image contents fs → Shows image fs := by
  refine ⟨fun limits => ?_, fun fs h => shows_of_reachable himage hinj hcontents h⟩
  obtain ⟨fs, hfs, -⟩ := withRom_accounted sha256 himage limits contents hcontents
  exact ⟨fs, hfs, shows_of_reachable himage hinj hcontents (.start hfs)⟩

/-- The payload of an image with a directory `/rom/d` and a program `/rom/d/f`. -/
def smallRom : List UInt8 :=
  MAGIC ++ [1, 0, 0, 0, 2, 0, 0, 0] ++
    ([6, 0, 0, 0, 47, 114, 111, 109, 47, 100, 1, 0, 0, 0] ++ [0, 0, 0, 0, 0, 0, 0, 0]) ++
    ([8, 0, 0, 0, 47, 114, 111, 109, 47, 100, 47, 102, 2, 1, 0, 0] ++ [1, 0, 0, 0, 0, 0, 0, 0, 8])

/-- What `smallRom` describes. -/
def smallImage : RomImage :=
  ⟨blankDigest, [⟨[romName, ⟨['d'], by decide⟩], .directory, false, []⟩,
    ⟨[romName, ⟨['d'], by decide⟩, ⟨['f'], by decide⟩], .file, true, [8]⟩]⟩

set_option maxRecDepth 4000 in
/-- The program is written to `/home` as well, where it shares its object with the image, and removed again. -/
theorem rom_shows_image_shared :
    ∃ fs₀, withRom twoDigests FileSystemLimits.testing smallImage = .ok fs₀ ∧
      let fs₁ := (run (perform twoDigests (.writeFile openGate homeOwner [homeName, romName] [8] false)) fs₀).2
      let fs₂ := (run (perform twoDigests (.remove openGate homeOwner [homeName, romName])) fs₁).2
      (get fs₁.objects (twoDigests [8])).map StoredObject.references = some 2 ∧ Shows smallImage fs₁ ∧
        (get fs₂.objects (twoDigests [8])).map StoredObject.references = some 1 ∧ Shows smallImage fs₂ := by
  have himage : admitImage twoDigests (smallRom ++ blankDigest.bytes) FileSystemLimits.testing = .ok smallImage := rfl
  have hcontents : ∀ e ∈ smallImage.entries, e.content ∈ ({[], [8]} : Set (List UInt8)) := by
    intro e he
    rcases mem_cons.mp he with rfl | he
    · exact .inl rfl
    · rw [mem_singleton.mp he]
      exact .inr rfl
  obtain ⟨-, hshows⟩ := rom_shows_image himage (injOn_twoDigests (by decide)) hcontents
  refine ⟨_, rfl, ?_⟩
  intro fs₁ fs₂
  have hreach₁ : Reachable twoDigests smallImage {[], [8]} fs₁ := by
    refine (Reachable.start rfl).after _ ?_
    rintro object ⟨⟩
    exact .inr rfl
  have hreach₂ : Reachable twoDigests smallImage {[], [8]} fs₂ := by
    refine hreach₁.after _ ?_
    rintro object ⟨⟩
  exact ⟨rfl, hshows _ hreach₁, rfl, hshows _ hreach₂⟩

end Compukter.Filesystem
