/-
The accounts of every file system that can be reached.

A file system starts from an admitted image; persistence may be attached, and calls are made in any order,
with any answers of the gate.  `Ledger` spells the accounts out in terms of the files and nodes.

The mounts count as two nodes from the start, so a node limit below two is exceeded before the first call
(`nodes_exceed_small_limit`).
-/
import Compukter.Filesystem.Rom

namespace Compukter.Filesystem

open OrderedMap Transaction List

/-- The files below a directory. -/
def files (directory : Directory) : List FileInfo := (Forest.entries directory).filterMap fun e => e.2.getLeft?

theorem charges_entries (directory : Directory) :
    charges (Forest.entries directory) = (files directory).map fun info => (info.object, info.logicalSize) := by
  rw [charges, files, map_filterMap]
  refine filterMap_congr fun e _ => ?_
  rcases e with ⟨_, info | _⟩ <;> rfl

theorem held_eq (fs : ComputerFileSystem) : held fs = (files fs.rom ++ files fs.home).map (·.object) := by
  rw [held, charges_entries, charges_entries, ← map_append, map_map]
  rfl

variable (sha256 : List UInt8 → Digest)

/-- The states that are reached from an image.  `contents` holds what the accepted calls have written. -/
inductive Reachable (image : RomImage) (contents : Set (List UInt8)) : ComputerFileSystem → Prop where
  | start {limits : FileSystemLimits} {fs : ComputerFileSystem}
      (h : ComputerFileSystem.withRom sha256 limits image = .ok fs) : Reachable image contents fs
  | attach {fs : ComputerFileSystem} (persistence : ComputerPersistence) (h : Reachable image contents fs) :
      Reachable image contents { fs with persistence := some persistence }
  | reply {fs fs' : ComputerFileSystem} {call : Call} {reply : Reply} {publication : Option Publication}
      (h : Reachable image contents fs) (hrun : run (perform sha256 call) fs = (.ok (reply, publication), fs'))
      (hwritten : ∀ p ∈ publication, ∀ object ∈ p.mutation.object, object.2 ∈ contents) :
      Reachable image contents fs'
  | refuse {fs fs' : ComputerFileSystem} {call : Call} {e : FileSystemError} (h : Reachable image contents fs)
      (hrun : run (perform sha256 call) fs = (.error (.error e), fs')) : Reachable image contents fs'

theorem reachable_accounted {bytes : List UInt8} {limits : FileSystemLimits} {image : RomImage}
    (himage : RomImage.admitImage sha256 bytes limits = .ok image) {contents : Set (List UInt8)}
    (hcontents : ∀ e ∈ image.entries, e.content ∈ contents) {fs : ComputerFileSystem}
    (h : Reachable sha256 image contents fs) : Accounted fs ∧ Faithful sha256 contents fs := by
  induction h with
  | start h =>
    obtain ⟨fs', hfs, haccounted, hfaithful⟩ :=
      ComputerFileSystem.withRom_accounted sha256 himage _ contents hcontents
    rw [h] at hfs
    cases hfs
    exact ⟨haccounted, hfaithful⟩
  | attach _ _ ih =>
    obtain ⟨ha, hf⟩ := ih
    exact ⟨⟨ha.rom, ha.home, ha.maximumLogicalBytes, ha.maximumNodes, ha.logicalBytes, ha.nodes,
      ha.logicalBytes_le, ha.nodes_le, ha.counts⟩, ⟨hf.stored, hf.sizes⟩⟩
  | @reply fs fs' call _ publication _ hrun hwritten ih =>
    obtain ⟨ha, hf⟩ := ih
    have hreturned := (perform_ends sha256 ha call).ok hrun
    cases publication with
    | none => exact ⟨SameData.accounted hreturned ha, SameData.faithful hreturned hf⟩
    | some p =>
      have hcommitted : Committed sha256 fs p fs' := hreturned
      exact ⟨hcommitted.accounted, hcommitted.faithful ha hf (hwritten p rfl)⟩
  | refuse _ hrun ih =>
    obtain ⟨ha, hf⟩ := ih
    have hsame : SameData _ _ := (perform_ends sha256 ha _).error hrun
    exact ⟨hsame.accounted ha, hsame.faithful hf⟩

/-- The accounts, in terms of the files and nodes of the two mounts. -/
structure Ledger (fs : ComputerFileSystem) : Prop where
  logicalBytes : fs.quota.logicalBytes = ((files fs.home).map (·.logicalSize)).sum
  nodes : fs.quota.nodes = 2 + (Forest.entries fs.home).length
  logicalBytes_le : fs.quota.logicalBytes ≤ fs.limits.maximumLogicalBytes
  nodes_le : fs.quota.nodes ≤ max fs.limits.maximumNodes 2
  references (object : ObjectId) :
    (OrderedMap.get fs.objects object).map (·.references) =
      if ((files fs.rom ++ files fs.home).map (·.object)).count object = 0 then none
      else some (((files fs.rom ++ files fs.home).map (·.object)).count object)
  sizes (info : FileInfo) (h : info ∈ files fs.rom ++ files fs.home) :
    ∃ stored, OrderedMap.get fs.objects info.object = some stored ∧ stored.bytes.length = info.logicalSize
  entries (path : List Component) (directory : Directory) (h : Forest.below? fs.home path = some directory) :
    directory.length ≤ fs.limits.maximumDirectoryEntries

/-- What a call leaves behind that does not return a value: a call that fails changes neither the tree nor
the accounts, and a call panics only where a reference count would leave its width. -/
def Harmless (fs : ComputerFileSystem) (call : Call) : Prop :=
  match run (perform sha256 call) fs with
  | (.ok _, _) => True
  | (.error (.error _), fs') =>
    fs'.home = fs.home ∧ fs'.objects = fs.objects ∧ fs'.quota = fs.quota ∧ fs'.generation = fs.generation
  | (.error (.panic p), _) =>
    p = .referenceOverflow ∧ 2 ^ 32 ≤ (files fs.rom).length + (files fs.home).length + 1

variable {fs : ComputerFileSystem}

theorem ledger_of_accounted {contents : Set (List UInt8)} (ha : Accounted fs)
    (hf : Faithful sha256 contents fs) (hinj : Set.InjOn sha256 contents) : Ledger fs where
  logicalBytes := by
    rw [ha.logicalBytes, charges_entries, map_map]
    rfl
  nodes := ha.nodes
  logicalBytes_le := ha.logicalBytes_le
  nodes_le := ha.nodes_le
  references object := by rw [ha.counts.references, held_eq]
  sizes info h := by
    refine hf.size_eq ha hinj (c := (info.object, info.logicalSize)) ?_
    rw [charges_entries, charges_entries, ← map_append]
    exact mem_map.mpr ⟨info, h, rfl⟩
  entries path directory h := (ha.home path directory h).2

theorem harmless_of_accounted (ha : Accounted fs) (call : Call) : Harmless sha256 fs call := by
  have hends := perform_ends sha256 ha call
  rw [Harmless]
  split
  · trivial
  · next e fs' hrun =>
    have hsame : SameData fs fs' := hends.error hrun
    rw [hsame]
    exact ⟨rfl, rfl, rfl, rfl⟩
  · next p fs' hrun =>
    obtain ⟨hp, _, hfull⟩ := hends.error hrun
    refine ⟨hp, hfull.trans (Nat.succ_le_succ ?_)⟩
    rw [held_eq]
    refine count_le_length.trans (Nat.le_of_eq ?_)
    rw [length_map, length_append]

/-- **The accounts of every reachable file system are in order**, and a call that fails leaves them so. -/
theorem ledger_of_reachable {bytes : List UInt8} {limits : FileSystemLimits} {image : RomImage}
    (himage : RomImage.admitImage sha256 bytes limits = .ok image) {contents : Set (List UInt8)}
    (hinj : Set.InjOn sha256 contents) (hcontents : ∀ e ∈ image.entries, e.content ∈ contents)
    {fs : ComputerFileSystem} (h : Reachable sha256 image contents fs) :
    Ledger fs ∧ ∀ call, Harmless sha256 fs call := by
  obtain ⟨ha, hf⟩ := reachable_accounted sha256 himage hcontents h
  exact ⟨ledger_of_accounted sha256 ha hf hinj, harmless_of_accounted sha256 ha⟩

variable {sha256} in
theorem Reachable.after {image : RomImage} {contents : Set (List UInt8)} {fs : ComputerFileSystem}
    (h : Reachable sha256 image contents fs) (call : Call) (hrun : match (run (perform sha256 call) fs).1 with
      | .ok (_, publication) => ∀ object ∈ publication.bind (·.mutation.object), object.2 ∈ contents
      | .error (.error _) => True
      | .error (.panic _) => False) : Reachable sha256 image contents (run (perform sha256 call) fs).2 := by
  rcases heq : run (perform sha256 call) fs with ⟨(e | p) | ⟨_, publication⟩, fs'⟩ <;> rw [heq] at hrun
  · exact .refuse h heq
  · exact hrun.elim
  · refine .reply h heq ?_
    rintro p rfl object hobject
    exact hrun object hobject

/-- A digest for `[8]` and another one for everything else. -/
def twoDigests (bytes : List UInt8) : Digest := if bytes = [8] then ⟨replicate 32 1, by decide⟩ else blankDigest

theorem injOn_twoDigests {bytes : List UInt8} (h : bytes ≠ [8]) : Set.InjOn twoDigests {bytes, [8]} := by
  have hne : twoDigests bytes ≠ twoDigests [8] := by
    rw [twoDigests, if_neg h]
    decide
  rintro a (rfl | rfl) b (rfl | rfl) hab
  · rfl
  · exact absurd hab hne
  · exact absurd hab.symm hne
  · rfl

/-- Two files are written, and the name of one is taken for a directory: the last call is refused. -/
theorem ledger_of_reachable_write :
    let fs₀ := ComputerFileSystem.withLimits FileSystemLimits.testing
    let fs₁ := (run (perform twoDigests (.writeFile openGate homeOwner [homeName, romName] [7] false)) fs₀).2
    let fs₂ := (run (perform twoDigests (.writeFile openGate homeOwner [homeName, homeName] [8] false)) fs₁).2
    let last := run (perform twoDigests (.createDirectory openGate homeOwner [homeName, romName])) fs₂
    last.1 = .error (.error .alreadyExists) ∧ last.2.quota.logicalBytes = 2 ∧ last.2.quota.nodes = 4 ∧
      last.2.objects.length = 2 ∧ Ledger last.2 ∧ ∀ call, Harmless twoDigests last.2 call := by
  have himage := @RomImage.admitImage_blankRom FileSystemLimits.testing twoDigests (by decide) (by decide)
  refine ⟨rfl, rfl, rfl, rfl, ledger_of_reachable _ himage (@injOn_twoDigests [7] (by decide))
    (fun _ he => by cases he) ((((Reachable.start rfl).after _ ?_).after _ ?_).after _ trivial)⟩
  · rintro object ⟨⟩
    exact .inl rfl
  · rintro object ⟨⟩
    exact .inr rfl

/-- Before the first call the two mounts are already counted, whatever the limit is. -/
theorem nodes_exceed_small_limit :
    ∃ (limits : FileSystemLimits) (bytes : List UInt8) (image : RomImage) (fs : ComputerFileSystem),
      RomImage.admitImage (fun _ => blankDigest) bytes limits = .ok image ∧
        Reachable (fun _ => blankDigest) image ∅ fs ∧ fs.limits.maximumNodes < fs.quota.nodes := by
  let limits : FileSystemLimits := { FileSystemLimits.testing with maximumNodes := 1, nodes_lt := by decide }
  have hstart : ComputerFileSystem.withRom (fun _ => blankDigest) limits ⟨blankDigest, []⟩ =
    .ok (.withLimits limits) := rfl
  exact ⟨limits, _, _, _, RomImage.admitImage_blankRom _ (by decide) (by decide), .start hstart, Nat.lt_succ_self 1⟩

end Compukter.Filesystem
