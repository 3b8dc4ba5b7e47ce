/-
The calls of the file system.

Each call is written in the order of the source: its checks, then the gate, then the changes.
-/
import Compukter.Filesystem.Tree

namespace Compukter.Filesystem

open Fallible OrderedMap Transaction FileRights

variable (sha256 : List UInt8 → Digest)

namespace ComputerFileSystem

/-! ## Reading -/

variable (gate : Gate) (capability : FileCapability) (path : VirtualPath)

def stat : Action NodeMetadata := do
  check (require capability path INSPECT)
  if path = [] then return metadata (.directory 0 [])
  let (mount, components) ← check (splitMount path)
  if components = [] then return metadata (.directory 0 [])
  let fs ← get
  let node ← check (findNode (fs.directory mount) components)
  return metadata node

def list : Action (List Component) := do
  check (require capability path LIST)
  if path = [] then return [homeName, romName]
  let (mount, components) ← check (splitMount path)
  let fs ← get
  if components = [] then return (fs.directory mount).map Prod.fst
  let node ← check (findNode (fs.directory mount) components)
  match node with
  | .directory _ children => return children.map Prod.fst
  | .file _ => throw (.error .notDirectory)

def readSnapshot : Action (List UInt8) := do
  check (require capability path READ)
  if path = [] then throw (.error .isDirectory)
  let (mount, components) ← check (splitMount path)
  if components = [] then throw (.error .isDirectory)
  let fs ← get
  let node ← check (findNode (fs.directory mount) components)
  let object ← check (demandSome (nodeObject node) .isDirectory)
  must (fs.objects.bytes object)

def openFile (mode : OpenMode) : Action FileHandle := do
  check (require capability path (openRights mode))
  let (mount, components) ← check (splitMount path)
  let fs ← get
  let node ← check (findNode (fs.directory mount) components)
  check (demand (nodeObject node).isSome .isDirectory)
  check (demand (fs.handles.openCount < capability.handleLimit) .quotaExceeded)
  let (handle, handles) ← check (fs.handles.openFile ⟨path, mode⟩)
  modify ({ · with handles })
  return handle

/-- The bytes a `read` gives. -/
def readAt (fs : ComputerFileSystem) (handle : FileHandle) (offset maximumBytes : Nat) :
    Except Stop (List UInt8) := do
  let file ← (fs.handles.get handle).mapError .error
  demand file.mode.readable (.error .permissionDenied)
  let bytes ← fs.fileBytes file.path
  let start := min offset bytes.length
  let accepted := min maximumBytes fs.limits.maximumIoBytes
  let finish := min (start + accepted) bytes.length
  return (bytes.take finish).drop start

variable (handle : FileHandle)

def read (offset maximumBytes : Nat) : Action (List UInt8) := do
  let fs ← get
  attempt (fs.readAt handle offset maximumBytes)

def close : Action Unit := do
  let fs ← get
  let handles ← check (fs.handles.close handle)
  modify ({ · with handles })

/-- The loop of `read_executable`.  A chunk is never empty, so there are at most as many as bytes. -/
def readAll (fs : ComputerFileSystem) (handle : FileHandle) (size : Nat) :
    Nat → Nat → Except Stop (List UInt8)
  | 0, _ => .error (.error .storageFaulted)
  | fuel + 1, offset =>
    if offset < size then do
      let chunk ← fs.readAt handle offset (size - offset)
      if chunk = [] then throw (.error .storageFaulted)
      demand (offset + chunk.length < 2 ^ 64) (.error .storageFaulted)
      let rest ← fs.readAll handle size fuel (offset + chunk.length)
      return chunk ++ rest
    else .ok []

/-- `close` where its result does not matter. -/
def closeQuietly : Action Unit := modify fun fs =>
  match fs.handles.close handle with
  | .ok handles => { fs with handles }
  | .error _ => fs

def readExecutable : Action (List UInt8) := do
  check (require capability path (INSPECT ||| READ ||| EXECUTE))
  let metadata ← stat capability path
  check (demand (metadata.kind = .file && metadata.executable) .notExecutable)
  let fs ← get
  check (demand (metadata.logicalSize ≤ fs.limits.maximumFileBytes) .quotaExceeded)
  let handle ← openFile capability path .read
  let fs ← get
  match fs.readAll handle metadata.logicalSize (metadata.logicalSize + 1) 0 with
  | .ok bytes => do
    close handle
    return bytes
  | .error (.error e) => do
    closeQuietly handle
    throw (.error e)
  | .error (.panic p) => throw (.panic p)

/-! ## Changing -/

def createDirectory : Action Publication := do
  let (mount, components) ← check (mutableTarget capability path CREATE)
  let (name, parentComponents) ← check (splitName components)
  let fs ← get
  let parent ← check (findDirectory (fs.directory mount) parentComponents)
  check (demand (OrderedMap.get parent name).isNone .alreadyExists)
  check (fs.checkDirectoryEntryLimit parent.length)
  let reservation ← check (fs.quota.reserve { nodesAdded := 1 })
  let generation ← check fs.nextGeneration
  let publication ← check (fs.preparePersistence sha256 gate
    ⟨generation, none, .createDirectory path generation⟩)
  edit mount parentComponents (insert name (.directory generation []))
  commitQuota reservation
  advance generation
  return publication

/-- Where a write goes: the lookups with which every write begins. -/
def writeTarget (fs : ComputerFileSystem) (path : VirtualPath) :
    Except FileSystemError (Mount × Component × List Component × Directory) := do
  let (mount, components) ← writablePath path
  let (name, parentComponents) ← splitName components
  let parent ← findDirectory (fs.directory mount) parentComponents
  return (mount, name, parentComponents, parent)

/-- The rights a write needs: those for a new file when there is no node of the name. -/
def requireWrite (fs : ComputerFileSystem) (capability : FileCapability) (path : VirtualPath)
    (parent : Directory) (previous : Option Node) : Except FileSystemError Unit :=
  if previous.isSome then require capability path WRITE
  else do
    require capability path (CREATE ||| WRITE)
    fs.checkDirectoryEntryLimit parent.length

variable (bytes : List UInt8) (expected : ExecutableRevision)

def writeFile (executable : Bool) : Action Publication := do
  let fs ← get
  let (mount, name, parentComponents, parent) ← check (fs.writeTarget path)
  let previous := OrderedMap.get parent name
  check (fs.requireWrite capability path parent previous)
  check (demand (!(previous.map fun node => (metadata node).kind == .directory).getD false) .isDirectory)
  let size := bytes.length
  check (fs.checkFileSize size)
  let previousSize := (previous.map fun node => (metadata node).logicalSize).getD 0
  let reservation ← check (fs.quota.reserve
    { logicalBytesAdded := size - previousSize, nodesAdded := if previous.isNone then 1 else 0 })
  let generation ← check fs.nextGeneration
  let object := sha256 bytes
  let publication ← check (fs.preparePersistence sha256 gate
    ⟨generation, some (object, bytes), .putFile path generation size object executable⟩)
  edit mount parentComponents (insert name (.file ⟨object, size, generation, executable⟩))
  replaceObject (previous.bind nodeObject) object bytes
  commitQuota reservation
  releaseQuota (previousSize - size) 0
  advance generation
  return publication

def replacementRevision : Action ExecutableRevision := do
  let fs ← get
  let (_, name, _, parent) ← check (fs.writeTarget path)
  match OrderedMap.get parent name with
  | some node => do
    check (require capability path WRITE)
    check (demand ((metadata node).kind == .file) .isDirectory)
    return .present (metadata node).generation
  | none => do
    check (require capability path (CREATE ||| WRITE))
    check (fs.checkDirectoryEntryLimit parent.length)
    return .absent

def executableInstallRevision : Action ExecutableRevision :=
  replacementRevision capability path

def replaceFileIfRevision (executable : Bool) : Action Publication := do
  let actual ← replacementRevision capability path
  check (demand (actual == expected) .busy)
  writeFile sha256 gate capability path bytes executable

def installExecutable : Action Publication :=
  replaceFileIfRevision sha256 gate capability path bytes expected true

def installExecutableFromRom (source destination : VirtualPath) :
    Action Publication := do
  let (sourceMount, sourceComponents) ← check (splitMount source)
  check (demand (sourceMount == .rom) .permissionDenied)
  let fs ← get
  let sourceNode ← check (findNode (fs.directory sourceMount) sourceComponents)
  check (demand ((metadata sourceNode).kind == .file && (metadata sourceNode).executable) .notExecutable)
  let object ← check (demandSome (nodeObject sourceNode) .notExecutable)
  let sourceBytes ← must (fs.objects.bytes object)
  let (_, name, _, parent) ← check (fs.writeTarget destination)
  check (demand (OrderedMap.get parent name).isNone .alreadyExists)
  writeFile sha256 gate capability destination sourceBytes true

def replaceExisting : Action Publication := do
  let (mount, components) ← check (writablePath path)
  let fs ← get
  let previous ← check (findNode (fs.directory mount) components)
  let previousObject ← check (demandSome (nodeObject previous) .isDirectory)
  let size := bytes.length
  check (fs.checkFileSize size)
  let reservation ← check (fs.quota.reserve { logicalBytesAdded := size - (metadata previous).logicalSize })
  let generation ← check fs.nextGeneration
  let object := sha256 bytes
  let publication ← check (fs.preparePersistence sha256 gate
    ⟨generation, some (object, bytes), .putFile path generation size object (metadata previous).executable⟩)
  putNode mount components (.file ⟨object, size, generation, (metadata previous).executable⟩)
  replaceObject (some previousObject) object bytes
  commitQuota reservation
  releaseQuota ((metadata previous).logicalSize - size) 0
  advance generation
  return publication

/-- `Vec::resize` with zeros. -/
def resize (size : Nat) : List UInt8 :=
  bytes.take size ++ List.replicate (size - bytes.length) 0

/-- The contents after `written` was put at `offset`. -/
def overwrite (bytes written : List UInt8) (offset : Nat) : List UInt8 :=
  let finish := offset + written.length
  let replacement := resize bytes (max bytes.length finish)
  replacement.take offset ++ written ++ replacement.drop finish

def write (offset : Nat) (bytes : List UInt8) :
    Action (Nat × Option Publication) := do
  let fs ← get
  let file ← check (fs.handles.get handle)
  check (demand file.mode.writable .permissionDenied)
  let accepted := min bytes.length fs.limits.maximumIoBytes
  if accepted = 0 then return (0, none)
  check (demand (offset + accepted < 2 ^ 64) .quotaExceeded)
  check (fs.checkFileSize (offset + accepted))
  let current ← attempt (fs.fileBytes file.path)
  let publication ← replaceExisting sha256 gate file.path (overwrite current (bytes.take accepted) offset)
  return (accepted, some publication)

def truncate (size : Nat) : Action (Option Publication) := do
  let fs ← get
  let file ← check (fs.handles.get handle)
  check (demand file.mode.writable .permissionDenied)
  check (fs.checkFileSize size)
  let current ← attempt (fs.fileBytes file.path)
  if current.length = size then return none
  let publication ← replaceExisting sha256 gate file.path (resize current size)
  return some publication

def remove : Action Publication := do
  let (mount, components) ← check (mutableTarget capability path DELETE)
  let (name, parentComponents) ← check (splitName components)
  let fs ← get
  let parent ← check (findDirectory (fs.directory mount) parentComponents)
  let node ← check (demandSome (OrderedMap.get parent name) .notFound)
  check (demand node.children.isEmpty .notEmpty)
  let generation ← check fs.nextGeneration
  let publication ← check (fs.preparePersistence sha256 gate ⟨generation, none, .remove path⟩)
  edit mount parentComponents (erase name)
  match nodeObject node with
  | some object => removeObject object
  | none => pure ()
  releaseQuota (metadata node).logicalSize 1
  advance generation
  return publication

/-- Whether the node at the destination of a rename may be replaced. -/
def checkReplaced (replace : Bool) (source existing : Node) : Except FileSystemError Unit := do
  demand replace .alreadyExists
  demand existing.children.isEmpty .notEmpty
  demand ((metadata existing).kind == (metadata source).kind)
    (match (metadata existing).kind with
      | .directory => .isDirectory
      | .file => .notDirectory)

def rename (source destination : VirtualPath) (replace : Bool) :
    Action (Option Publication) := do
  let (sourceMount, sourceComponents) ← check (mutableTarget capability source RENAME)
  let (destinationMount, destinationComponents) ← check (mutableTarget capability destination RENAME)
  check (demand (sourceMount == destinationMount) .permissionDenied)
  if source = destination then return none
  check (demand (!isWithin destination source) .invalidPath)
  let (sourceName, sourceParent) ← check (splitName sourceComponents)
  let (destinationName, destinationParent) ← check (splitName destinationComponents)
  let fs ← get
  let sourceDirectory ← check (findDirectory (fs.directory sourceMount) sourceParent)
  let sourceNode ← check (demandSome (OrderedMap.get sourceDirectory sourceName) .notFound)
  let destinationDirectory ← check (findDirectory (fs.directory sourceMount) destinationParent)
  let existing := OrderedMap.get destinationDirectory destinationName
  check (match existing with
    | some existing => checkReplaced replace sourceNode existing
    | none => fs.checkDirectoryEntryLimit destinationDirectory.length)
  let generation ← check fs.nextGeneration
  let publication ← check (fs.preparePersistence sha256 gate
    ⟨generation, none, .rename source destination replace⟩)
  let node ← takeNode sourceMount sourceParent sourceName
  editExpected destinationMount destinationParent fun directory =>
    insert destinationName (setGeneration generation node) (erase destinationName directory)
  match existing with
  | some existing => do
    match nodeObject existing with
    | some object => removeObject object
    | none => pure ()
    releaseQuota (metadata existing).logicalSize 1
  | none => pure ()
  advance generation
  return some publication

end ComputerFileSystem

/-! ## All calls -/

/-- A call with its arguments and the answer it gets from the gate. -/
inductive Call where
  | stat (capability : FileCapability) (path : VirtualPath)
  | list (capability : FileCapability) (path : VirtualPath)
  | readSnapshot (capability : FileCapability) (path : VirtualPath)
  | readExecutable (capability : FileCapability) (path : VirtualPath)
  | openFile (capability : FileCapability) (path : VirtualPath) (mode : OpenMode)
  | read (handle : FileHandle) (offset maximumBytes : Nat)
  | close (handle : FileHandle)
  | createDirectory (gate : Gate) (capability : FileCapability) (path : VirtualPath)
  | writeFile (gate : Gate) (capability : FileCapability) (path : VirtualPath) (bytes : List UInt8)
      (executable : Bool)
  | replacementRevision (capability : FileCapability) (path : VirtualPath)
  | executableInstallRevision (capability : FileCapability) (path : VirtualPath)
  | replaceFileIfRevision (gate : Gate) (capability : FileCapability) (path : VirtualPath) (bytes : List UInt8)
      (expected : ExecutableRevision) (executable : Bool)
  | installExecutable (gate : Gate) (capability : FileCapability) (path : VirtualPath) (bytes : List UInt8)
      (expected : ExecutableRevision)
  | installExecutableFromRom (gate : Gate) (capability : FileCapability) (source destination : VirtualPath)
  | write (gate : Gate) (handle : FileHandle) (offset : Nat) (bytes : List UInt8)
  | truncate (gate : Gate) (handle : FileHandle) (size : Nat)
  | remove (gate : Gate) (capability : FileCapability) (path : VirtualPath)
  | rename (gate : Gate) (capability : FileCapability) (source destination : VirtualPath) (replace : Bool)

inductive Reply where
  | metadata (metadata : NodeMetadata)
  | names (names : List Component)
  | bytes (bytes : List UInt8)
  | handle (handle : FileHandle)
  | revision (revision : ExecutableRevision)
  | count (count : Nat)
  | done
  deriving DecidableEq

open ComputerFileSystem in
/-- The call, with what it returns and what it hands to the gate. -/
def perform : Call → Action (Reply × Option Publication)
  | .stat capability path => do return (.metadata (← stat capability path), none)
  | .list capability path => do return (.names (← list capability path), none)
  | .readSnapshot capability path => do return (.bytes (← readSnapshot capability path), none)
  | .readExecutable capability path => do return (.bytes (← readExecutable capability path), none)
  | .openFile capability path mode => do return (.handle (← openFile capability path mode), none)
  | .read handle offset maximumBytes => do return (.bytes (← read handle offset maximumBytes), none)
  | .close handle => do
    close handle
    return (.done, none)
  | .createDirectory gate capability path => do
    return (.done, some (← createDirectory sha256 gate capability path))
  | .writeFile gate capability path bytes executable => do
    return (.done, some (← writeFile sha256 gate capability path bytes executable))
  | .replacementRevision capability path => do return (.revision (← replacementRevision capability path), none)
  | .executableInstallRevision capability path => do
    return (.revision (← executableInstallRevision capability path), none)
  | .replaceFileIfRevision gate capability path bytes expected executable => do
    return (.done, some (← replaceFileIfRevision sha256 gate capability path bytes expected executable))
  | .installExecutable gate capability path bytes expected => do
    return (.done, some (← installExecutable sha256 gate capability path bytes expected))
  | .installExecutableFromRom gate capability source destination => do
    return (.done, some (← installExecutableFromRom sha256 gate capability source destination))
  | .write gate handle offset bytes => do
    let (count, publication) ← write sha256 gate handle offset bytes
    return (.count count, publication)
  | .truncate gate handle size => do return (.done, ← truncate sha256 gate handle size)
  | .remove gate capability path => do return (.done, some (← remove sha256 gate capability path))
  | .rename gate capability source destination replace => do
    return (.done, ← rename sha256 gate capability source destination replace)

/-- The authority over all of `/home`. -/
def homeOwner : FileCapability := .new [homeName] FileRights.OWNER

/-- A gate that lets every change through. -/
def openGate : Gate := fun _ => .ok ()

end Compukter.Filesystem
