/-
ROM images.

An image is admitted from its bytes.  The entries come in the order of their paths, and a directory comes
before what is in it (`Canonical`), so the tree of `/rom` is built by putting one entry after the other in
its place, and no entry ever replaces another.
-/
import Compukter.Filesystem.Accounting

namespace Compukter.Filesystem

open Fallible OrderedMap List
open Cursor (bind_apply_eq_ok number exact)
open Forest (below? entries Ordered view below?_isSome_iff view_append view_singleton)

inductive RomImageError where
  | malformed | unsupportedVersion | limitExceeded | digestMismatch | nonCanonical
  deriving DecidableEq

inductive RomEntryKind where
  | directory | file
  deriving DecidableEq

structure RomEntry where
  path : VirtualPath
  kind : RomEntryKind
  executable : Bool
  content : List UInt8
  deriving DecidableEq

structure RomImage where
  identity : Digest
  entries : List RomEntry

variable (sha256 : List UInt8 → Digest)

namespace RomImage

/-! ## Admission -/

/-- The bytes of `CPKTROM` and a zero. -/
def MAGIC : List UInt8 := [67, 80, 75, 84, 82, 79, 77, 0]

def DIGEST_BYTES : Nat := 32

def readPath : FileSystemLimits → Cursor RomImageError VirtualPath :=
  readPathOr .malformed .limitExceeded .nonCanonical

/-- The part of an entry after its path. -/
def readContent (limits : FileSystemLimits) (path : VirtualPath) : Cursor RomImageError RomEntry := do
  let kind ← number .malformed 1
  let flags ← number .malformed 1
  let reserved ← number .malformed 2
  Cursor.check (demand (reserved == 0) .malformed)
  let length ← number .malformed 8
  if kind = 1 ∧ flags = 0 ∧ length = 0 then return ⟨path, .directory, false, []⟩
  else if kind = 2 ∧ flags ≤ 1 then do
    Cursor.check (demand (length ≤ limits.maximumFileBytes) .limitExceeded)
    let content ← exact .malformed length
    return ⟨path, .file, flags == 1, content⟩
  else Cursor.fail .malformed

/-- The loop over the entries.  `directories` are those seen so far, `previous` is the last path. -/
def readEntries (limits : FileSystemLimits) (root : VirtualPath) :
    Nat → List VirtualPath → Option VirtualPath → Cursor RomImageError (List RomEntry)
  | 0, _, _ => return []
  | count + 1, directories, previous => do
    let path ← readPath limits
    Cursor.check (demand (isWithin path root && path ≠ root) .nonCanonical)
    Cursor.check (demand (!previous.any fun previous => path ≤ previous) .nonCanonical)
    let parent ← Cursor.check (demandSome (parent path) .nonCanonical)
    Cursor.check (demand (directories.contains parent) .nonCanonical)
    let entry ← readContent limits path
    let directories := if entry.kind = .directory then path :: directories else directories
    let rest ← readEntries limits root count directories (some path)
    return entry :: rest

def readImage (limits : FileSystemLimits) : Cursor RomImageError (List RomEntry) := do
  let magic ← exact .malformed 8
  Cursor.check (demand (magic == MAGIC) .malformed)
  let major ← number .malformed 2
  Cursor.check (demand (major == 1) .unsupportedVersion)
  let minor ← number .malformed 2
  Cursor.check (demand (minor == 0) .unsupportedVersion)
  let count ← number .malformed 4
  Cursor.check (demand (count ≤ limits.maximumNodes - 2) .limitExceeded)
  let root ← Cursor.check ((parseUtf8 ['/', 'r', 'o', 'm'] limits).mapError fun _ => .limitExceeded)
  let entries ← readEntries limits root count [root] none
  Cursor.finish .malformed
  return entries

/-- The identity is read from the end of the bytes and compared with the digest of the rest. -/
def admitImage (bytes : List UInt8) (limits : FileSystemLimits) : Except RomImageError RomImage := do
  demand (bytes.length ≤ limits.maximumRomBytes) .limitExceeded
  demand (16 + DIGEST_BYTES ≤ bytes.length) .malformed
  let payloadEnd := bytes.length - DIGEST_BYTES
  let identity := sha256 (bytes.take payloadEnd)
  demand (identity.bytes == bytes.drop payloadEnd) .digestMismatch
  let (entries, _) ← readImage limits (bytes.take payloadEnd)
  return ⟨identity, entries⟩

/-- What admission has checked of the entries: they are below `/rom`, in the order of their paths, and each
is in a directory that came before it.  `directories` are those seen before. -/
def Canonical : List VirtualPath → List RomEntry → Prop
  | _, [] => True
  | directories, entry :: rest =>
    (∃ parent name, entry.path = romName :: (parent ++ [name]) ∧ romName :: parent ∈ directories) ∧
    (∀ later ∈ rest, entry.path < later.path) ∧
    Canonical (if entry.kind = .directory then entry.path :: directories else directories) rest

variable {limits : FileSystemLimits} {bytes : List UInt8} {path : VirtualPath}

theorem readContent_path {rest : List UInt8} {entry : RomEntry}
    (h : readContent limits path bytes = .ok (entry, rest)) : entry.path = path := by
  simp only [readContent, bind_apply_eq_ok] at h
  obtain ⟨_, _, -, _, _, -, _, _, -, _, _, -, _, _, -, h⟩ := h
  split at h
  · cases h
    rfl
  · split at h
    · simp only [bind_apply_eq_ok] at h
      obtain ⟨_, _, -, _, _, -, h⟩ := h
      cases h
      rfl
    · cases h

theorem check_eq_ok {ε α : Type} {x : Except ε α} {rest : List UInt8} {a : α}
    (h : Cursor.check x bytes = .ok (a, rest)) : x = .ok a := by
  cases x with
  | error => cases h
  | ok =>
    cases h
    rfl

/-- A path below the root has a name and a parent there. -/
theorem exists_parent {root : Component} (hwithin : isWithin path [root] = true)
    (hne : path ≠ [root]) : ∃ parent name, path = root :: (parent ++ [name]) := by
  obtain ⟨rest, rfl⟩ := isWithin_iff.mp hwithin
  rcases rest.eq_nil_or_concat with rfl | ⟨parent, name, rfl⟩
  · exact absurd rfl hne
  · exact ⟨parent, name, by simp⟩

theorem readEntries_canonical {count : Nat} {directories : List VirtualPath} {previous : Option VirtualPath}
    {rest : List UInt8} {entries : List RomEntry}
    (h : readEntries limits [romName] count directories previous bytes = .ok (entries, rest)) :
    Canonical directories entries ∧ entries.length = count ∧ ∀ last ∈ previous, ∀ e ∈ entries, last < e.path := by
  induction count generalizing directories previous bytes entries with
  | zero =>
    cases h
    exact ⟨trivial, rfl, fun _ _ _ he => by cases he⟩
  | succ _ ih =>
    simp only [readEntries, bind_apply_eq_ok] at h
    obtain ⟨_, _, -, _, _, hwithin, _, _, hprevious, parent, _, hparent, h⟩ := h
    obtain ⟨_, _, hcontains, entry, _, hentry, _, _, hlater, h⟩ := h
    cases h
    cases readContent_path hentry
    obtain ⟨hcanonical, hlength, horder⟩ := ih hlater
    have hwithin := demand_eq_ok.mp (check_eq_ok hwithin)
    rw [Bool.and_eq_true, decide_eq_true_eq] at hwithin
    obtain ⟨front, name, hpath⟩ := exists_parent hwithin.1 hwithin.2
    have hparent := demandSome_eq_ok.mp (check_eq_ok hparent)
    have hmem : parent ∈ directories := contains_iff_mem.mp (demand_eq_ok.mp (check_eq_ok hcontains))
    have hfront : parent = romName :: front := by
      rw [hpath, Filesystem.parent, if_neg (cons_ne_nil _ _), ← cons_append, dropLast_concat] at hparent
      exact (Option.some.inj hparent).symm
    have hlast : ∀ last ∈ previous, last < entry.path := by
      intro last hlast
      have hany := demand_eq_ok.mp (check_eq_ok hprevious)
      cases hlast
      simpa using hany
    refine ⟨⟨⟨front, name, hpath, hfront ▸ hmem⟩, horder _ rfl, hcanonical⟩, by rw [length_cons, hlength], ?_⟩
    intro last hl e he
    rcases mem_cons.mp he with rfl | he
    · exact hlast last hl
    · exact (hlast last hl).trans (horder _ rfl e he)

theorem admitImage_canonical {image : RomImage} (h : admitImage sha256 bytes limits = .ok image) :
    Canonical [[romName]] image.entries ∧ image.entries.length ≤ limits.maximumNodes - 2 := by
  simp only [admitImage, bind_eq_ok] at h
  obtain ⟨_, -, _, -, _, -, ⟨_, _⟩, hread, h⟩ := h
  cases h
  simp only [readImage, bind_apply_eq_ok] at hread
  -- the fixed part of the header
  obtain ⟨_, _, -, _, _, -, _, _, -, _, _, -, _, _, -, _, _, -, hread⟩ := hread
  obtain ⟨count, _, -, _, _, hcount, root, _, hroot, _, _, hentries, _, _, -, hread⟩ := hread
  cases hread
  have hcount : count ≤ limits.maximumNodes - 2 := of_decide_eq_true (demand_eq_ok.mp (check_eq_ok hcount))
  have hroot : root = [romName] := by
    have hparse := check_eq_ok hroot
    rw [show (['/', 'r', 'o', 'm'] : Str) = display [romName] from rfl,
      parseUtf8_display_of_ne_nil (cons_ne_nil _ _)] at hparse
    split at hparse
    · cases hparse
      rfl
    · cases hparse
  subst hroot
  obtain ⟨hcanonical, hlength, -⟩ := readEntries_canonical hentries
  exact ⟨hcanonical, hlength ▸ hcount⟩

/-- The payload of an image without entries. -/
def blankRom : List UInt8 := MAGIC ++ [1, 0, 0, 0, 0, 0, 0, 0]

theorem admitImage_blankRom (sha256 : List UInt8 → Digest) (hrom : 48 ≤ limits.maximumRomBytes)
    (hfits : Fits limits [romName]) :
    admitImage sha256 (blankRom ++ (sha256 blankRom).bytes) limits = .ok ⟨sha256 blankRom, []⟩ := by
  have hlength : (blankRom ++ (sha256 blankRom).bytes).length = 48 := by
    rw [length_append, (sha256 blankRom).length_eq]
    rfl
  have hparse : parseUtf8 ['/', 'r', 'o', 'm'] limits = .ok [romName] := by
    rw [show (['/', 'r', 'o', 'm'] : Str) = display [romName] from rfl,
      parseUtf8_display_of_ne_nil (cons_ne_nil _ _), if_pos hfits]
  have hread : readImage limits blankRom = .ok ([], []) := by
    unfold readImage
    rw [hparse]
    rfl
  have htake : (blankRom ++ (sha256 blankRom).bytes).take (48 - DIGEST_BYTES) = blankRom :=
    take_left' rfl
  have hdrop : (blankRom ++ (sha256 blankRom).bytes).drop (48 - DIGEST_BYTES) = (sha256 blankRom).bytes :=
    drop_left' rfl
  unfold admitImage
  rw [hlength]
  simp only [htake, hdrop, hread]
  simp [demand, hrom, DIGEST_BYTES]

end RomImage

/-! ## The file system with an image -/

/-- How `with_rom` ends that does not give a file system. -/
inductive RomFailure where
  | error (e : RomImageError)
  | panic (p : Panic)
  deriving DecidableEq

namespace ComputerFileSystem

def addRomNode (fs : ComputerFileSystem) (parent : List Component) (name : Component) (node : Node) :
    Except RomFailure ComputerFileSystem := do
  let rom ← (changeDirectory fs.rom parent (insert name node)).mapError fun _ => .error .nonCanonical
  return { fs with rom }

def addRomEntry (fs : ComputerFileSystem) (entry : RomEntry) : Except RomFailure ComputerFileSystem := do
  demand (!entry.path.isEmpty) (.error .nonCanonical)
  let (name, parent) ← (splitName entry.path.tail).mapError fun _ => .error .nonCanonical
  match entry.kind with
  | .directory => fs.addRomNode parent name (.directory 0 [])
  | .file => do
    let object := sha256 entry.content
    let fs ← fs.addRomNode parent name (.file ⟨object, entry.content.length, 0, entry.executable⟩)
    let objects ← (fs.objects.replace none object entry.content).mapError .panic
    return { fs with objects }

def withRom (limits : FileSystemLimits) (image : RomImage) : Except RomFailure ComputerFileSystem :=
  image.entries.foldlM (addRomEntry sha256) (withLimits limits)

/-- The file system while the entries of an image are added.  The directories seen so far are there, the
paths of the entries to come are free, and their number keeps the reference counts in their width. -/
structure Building (contents : Set (List UInt8)) (directories : List VirtualPath) (remaining : List RomEntry)
    (fs : ComputerFileSystem) : Prop where
  accounted : Accounted fs
  faithful : Faithful sha256 contents fs
  directories (d : VirtualPath) (h : d ∈ directories) (p : List Component) (hp : d = romName :: p) :
    (below? fs.rom p).isSome
  free (e : RomEntry) (h : e ∈ remaining) (q : List Component) (hq : e.path = romName :: q) :
    view fs.rom q = none
  width : (held fs).length + remaining.length < 2 ^ 32
  contents (e : RomEntry) (h : e ∈ remaining) : e.content ∈ contents

section Building

variable {sha256} {contents : Set (List UInt8)} {directories : List VirtualPath} {remaining : List RomEntry}
  {fs : ComputerFileSystem} {parent : List Component} {name : Component} {d : Directory} {node : Node}

theorem addRomNode_eq_ok (hd : below? fs.rom parent = some d) :
    fs.addRomNode parent name node = .ok { fs with rom := Forest.edit (insert name node) fs.rom parent } := by
  rw [addRomNode, changeDirectory_of_below hd]
  rfl

section

variable (hd : below? fs.rom parent = some d) (hfree : OrderedMap.get d name = none) (hnode : node.children = [])
include hd hfree hnode

variable {q : List Component}

/-- A leaf at a free path leaves the other nodes where they are. -/
theorem view_add (hq : q ≠ parent ++ [name]) :
    view (Forest.edit (insert name node) fs.rom parent) q = view fs.rom q := by
  rw [Forest.view_put hd hnode, if_neg hq]
  intro old hold
  rw [hfree] at hold
  cases hold

theorem below?_add (hq : (below? fs.rom q).isSome) :
    (below? (Forest.edit (insert name node) fs.rom parent) q).isSome := by
  cases q with
  | nil => rfl
  | cons =>
    obtain ⟨info, hview⟩ := (below?_isSome_iff (cons_ne_nil _ _)).mp hq
    refine (below?_isSome_iff (cons_ne_nil _ _)).mpr ⟨info, ?_⟩
    rw [view_add hd hfree hnode]
    · exact hview
    · intro heq
      rw [heq, view_append hd (by simp), view_singleton, hfree] at hview
      cases hview

end

theorem entries_add (hrom : Ordered fs.rom) (hd : below? fs.rom parent = some d)
    (hfree : OrderedMap.get d name = none) (hnode : node.children = []) :
    (entries (Forest.edit (insert name node) fs.rom parent)).Perm
      ((parent ++ [name], node.info) :: entries fs.rom) := by
  have hperm : (entries (Forest.edit (insert name node) fs.rom parent)).Perm _ :=
    Forest.entries_edit_insert hrom hd hnode fun old hold => by
      rw [hfree] at hold
      cases hold
  have hsame : erase (parent ++ [name]) (entries fs.rom) = entries fs.rom := by
    refine erase_of_get_none ?_
    rw [Forest.get_entries hrom, view_append hd (by simp), view_singleton, hfree]
    rfl
  rwa [hsame] at hperm

variable {entry : RomEntry}

/-- The part of a step that is the same for files and directories. -/
theorem Building.add {objects : ObjectStore} (node : Node) (charged : List (ObjectId × Nat))
    (h : Building sha256 contents directories (entry :: remaining) fs)
    (hpath : entry.path = romName :: (parent ++ [name])) (horder : ∀ later ∈ remaining, entry.path < later.path)
    (hd : below? fs.rom parent = some d) (hfree : OrderedMap.get d name = none)
    (hnode : node.children = []) (hcharged : (charge node.info).toList = charged) (hone : charged.length ≤ 1)
    (hcounts : objects.Counts (charged.map Prod.fst ++ held fs))
    (hstored : ∀ o stored, OrderedMap.get objects o = some stored → stored.bytes ∈ contents ∧ sha256 stored.bytes = o)
    (hsizes : ∀ c ∈ charged, ∃ bytes ∈ contents, sha256 bytes = c.1 ∧ bytes.length = c.2) :
    Building sha256 contents (if node.info.isRight then entry.path :: directories else directories) remaining
      { fs with rom := Forest.edit (insert name node) fs.rom parent, objects } := by
  have hperm := charges_perm (entries_add h.accounted.rom hd hfree hnode)
  rw [charges_cons, hcharged] at hperm
  have hheld : (held { fs with rom := Forest.edit (insert name node) fs.rom parent, objects }).Perm
      (charged.map Prod.fst ++ held fs) := by
    refine ((hperm.append_right _).map Prod.fst).trans (List.Perm.of_eq ?_)
    rw [held, append_assoc, map_append]
  have hrom : Ordered (Forest.edit (insert name node) fs.rom parent) :=
    Ordered.edit h.accounted.rom hd
      (Ordered.insert (h.accounted.rom.below hd) (hnode ▸ Forest.ordered_nil) name)
  have hacc := h.accounted
  refine ⟨⟨hrom, hacc.home, hacc.maximumLogicalBytes, hacc.maximumNodes, hacc.logicalBytes, hacc.nodes,
    hacc.logicalBytes_le, hacc.nodes_le, hcounts.perm hheld.symm⟩, ⟨hstored, fun c hc => ?_⟩, ?_, ?_, ?_, ?_⟩
  · rcases mem_append.mp hc with hc | hc
    · rcases mem_append.mp (hperm.mem_iff.mp hc) with hc | hc
      · exact hsizes c hc
      · exact h.faithful.sizes c (mem_append_left _ hc)
    · exact h.faithful.sizes c (mem_append_right _ hc)
  · intro q hq p hp
    by_cases hold : q ∈ directories
    · exact below?_add hd hfree hnode (h.directories q hold p hp)
    · -- the new directory itself
      split at hq
      · next hright =>
        rcases mem_cons.mp hq with rfl | hq
        · rw [hpath] at hp
          obtain rfl := (cons.inj hp).2
          refine (below?_isSome_iff (by simp)).mpr ?_
          obtain ⟨info, hinfo⟩ := Sum.isRight_iff.mp hright
          refine ⟨info, ?_⟩
          rw [Forest.view_edit_insert hd, if_pos prefix_rfl, if_pos rfl, hinfo]
        · exact absurd hq hold
      · exact absurd hq hold
  · intro e he q hq
    rw [view_add hd hfree hnode]
    · exact h.free e (mem_cons_of_mem _ he) q hq
    · rintro rfl
      exact absurd (horder e he) (by rw [hpath, hq]; exact lt_irrefl _)
  · have hwidth := h.width
    rw [hheld.length_eq, length_append, length_map]
    rw [length_cons] at hwidth
    omega
  · exact fun e he => h.contents e (mem_cons_of_mem _ he)

/-- **One entry** is put in its place. -/
theorem Building.step (h : Building sha256 contents directories (entry :: remaining) fs)
    (hcanonical : RomImage.Canonical directories (entry :: remaining)) :
    ∃ fs', fs.addRomEntry sha256 entry = .ok fs' ∧ Building sha256 contents
      (if entry.kind = .directory then entry.path :: directories else directories) remaining fs' := by
  obtain ⟨⟨parent, name, hpath, hparent⟩, horder, -⟩ := hcanonical
  obtain ⟨d, hd⟩ := Option.isSome_iff_exists.mp (h.directories _ hparent parent rfl)
  have hfree : OrderedMap.get d name = none := by
    have hview := h.free entry mem_cons_self (parent ++ [name]) hpath
    rw [view_append hd (by simp), view_singleton] at hview
    exact Option.map_eq_none_iff.mp hview
  have hdemand : demand (!entry.path.isEmpty) (RomFailure.error .nonCanonical) = .ok () := by rw [hpath]; rfl
  have hsplit : splitName entry.path.tail = .ok (name, parent) := splitName_eq_ok.mpr (by rw [hpath]; rfl)
  unfold addRomEntry
  rw [hdemand, ok_bind, hsplit]
  cases hkind : entry.kind with
  | directory =>
    refine ⟨_, addRomNode_eq_ok hd, ?_⟩
    exact Building.add (.directory 0 []) [] h hpath horder hd hfree rfl rfl (Nat.zero_le _) h.accounted.counts
      h.faithful.stored fun c hc => by cases hc
  | file =>
    have hcounts : fs.objects.Counts ((none : Option ObjectId).toList ++ held fs) := h.accounted.counts
    have hcontent := h.contents entry mem_cons_self
    rcases @ObjectStore.Counts.replace _ _ (sha256 entry.content) _ hcounts entry.content with
      ⟨objects, hreplace, hobjects, hstored⟩ | ⟨-, hfull⟩
    · refine ⟨{ fs with
        rom := Forest.edit (insert name (.file ⟨sha256 entry.content, entry.content.length, 0, entry.executable⟩))
          fs.rom parent
        objects }, ?_, ?_⟩
      · show (fs.addRomNode parent name _ >>= _) = _
        rw [addRomNode_eq_ok hd, ok_bind]
        show ((fs.objects.replace none _ _).mapError RomFailure.panic >>= _) = _
        rw [hreplace]
        rfl
      · refine Building.add (.file _) [(sha256 entry.content, entry.content.length)] h hpath horder hd hfree rfl rfl
          (Nat.le_refl 1) hobjects (fun o stored hget => ?_) fun c hc => ?_
        · rcases hstored o stored hget with ⟨old, hold, hbytes⟩ | ⟨rfl, hbytes⟩
          · exact hbytes ▸ h.faithful.stored o old hold
          · rw [hbytes]
            exact ⟨hcontent, rfl⟩
        · cases mem_singleton.mp hc
          exact ⟨entry.content, hcontent, rfl, rfl⟩
    · -- there are fewer nodes than the counts have room for
      have hwidth := h.width
      have hle : (held fs).count (sha256 entry.content) ≤ (held fs).length := count_le_length
      have hfull : 2 ^ 32 ≤ (held fs).count (sha256 entry.content) + 1 := hfull
      rw [length_cons] at hwidth
      omega

theorem Building.run (h : Building sha256 contents directories remaining fs)
    (hcanonical : RomImage.Canonical directories remaining) :
    ∃ fs', remaining.foldlM (addRomEntry sha256) fs = .ok fs' ∧ Accounted fs' ∧ Faithful sha256 contents fs' := by
  induction remaining generalizing fs directories with
  | nil => exact ⟨fs, rfl, h.accounted, h.faithful⟩
  | cons _ _ ih =>
    obtain ⟨fs', hstep, hbuilding⟩ := h.step hcanonical
    rw [foldlM_cons, hstep, ok_bind]
    exact ih hbuilding hcanonical.2.2

end Building

theorem withLimits_accounted (limits : FileSystemLimits) : Accounted (withLimits limits) where
  rom := Forest.ordered_nil
  home := by
    intro path d hd
    cases path with
    | nil =>
      cases hd
      exact ⟨sorted_nil, Nat.zero_le _⟩
    | cons => cases hd
  maximumLogicalBytes := rfl
  maximumNodes := rfl
  logicalBytes := rfl
  nodes := rfl
  logicalBytes_le := Nat.zero_le _
  nodes_le := Nat.le_max_right _ _
  counts := ObjectStore.counts_nil

variable {fs : ComputerFileSystem} {fs' : ComputerFileSystem}

theorem addRomNode_keeps {parent : List Component} {name : Component} {node : Node}
    (h : fs.addRomNode parent name node = .ok fs') : fs' = { fs with rom := fs'.rom } := by
  obtain ⟨rom, -, hfs⟩ := bind_eq_ok.mp h
  cases hfs
  rfl

theorem addRomEntry_keeps {entry : RomEntry} (h : fs.addRomEntry sha256 entry = .ok fs') :
    fs' = { fs with rom := fs'.rom, objects := fs'.objects } := by
  obtain ⟨_, -, h⟩ := bind_eq_ok.mp h
  obtain ⟨⟨_, _⟩, -, h⟩ := bind_eq_ok.mp h
  cases hkind : entry.kind with
  | directory =>
    rw [hkind] at h
    rw [addRomNode_keeps h]
  | file =>
    rw [hkind] at h
    obtain ⟨_, hmiddle, h⟩ := bind_eq_ok.mp h
    obtain ⟨objects, -, h⟩ := bind_eq_ok.mp h
    cases h
    rw [addRomNode_keeps hmiddle]

/-- Loading an image leaves `/home` empty. -/
theorem withRom_keeps {limits : FileSystemLimits} {image : RomImage} (h : withRom sha256 limits image = .ok fs) :
    fs = { withLimits limits with rom := fs.rom, objects := fs.objects } := by
  have hrun {entries : List RomEntry} {start : ComputerFileSystem}
      (h : entries.foldlM (addRomEntry sha256) start = .ok fs) :
      fs = { start with rom := fs.rom, objects := fs.objects } := by
    induction entries generalizing start with
    | nil =>
      cases h
      rfl
    | cons _ _ ih =>
      obtain ⟨_, hmiddle, h⟩ := bind_eq_ok.mp h
      have hfs := ih h
      rw [addRomEntry_keeps sha256 hmiddle] at hfs
      exact hfs
  exact hrun h

variable {bytes : List UInt8} {admitted : FileSystemLimits} {image : RomImage}
  (himage : RomImage.admitImage sha256 bytes admitted = .ok image) (limits : FileSystemLimits)
include himage

/-- Before the first entry of an admitted image. -/
theorem Building.start {contents : Set (List UInt8)} (hcontents : ∀ e ∈ image.entries, e.content ∈ contents) :
    Building sha256 contents [[romName]] image.entries (withLimits limits) := by
  obtain ⟨-, hcount⟩ := RomImage.admitImage_canonical sha256 himage
  refine ⟨withLimits_accounted limits, ⟨fun _ _ h => (by cases h), fun _ hc => (by cases hc)⟩,
    ?_, fun e _ q _ => Forest.view_empty q, ?_, hcontents⟩
  · intro d hd p hp
    cases mem_singleton.mp hd
    cases hp
    rfl
  · have := admitted.nodes_lt
    show 0 + image.entries.length < 2 ^ 32
    omega

/-- **An admitted image always gives a file system**, with its accounts in order. -/
theorem withRom_accounted (contents : Set (List UInt8)) (hcontents : ∀ e ∈ image.entries, e.content ∈ contents) :
    ∃ fs, withRom sha256 limits image = .ok fs ∧ Accounted fs ∧ Faithful sha256 contents fs :=
  (Building.start sha256 himage limits hcontents).run (RomImage.admitImage_canonical sha256 himage).1

end ComputerFileSystem

end Compukter.Filesystem
