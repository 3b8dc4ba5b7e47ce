/-
The file system of one computer.

Two mounts, `/rom` and `/home`, hold trees of nodes; the contents of files are in the object store.  Every
call that changes `/home` first checks everything, then asks the persistence gate to admit the change,
and then changes the tree, the objects and the quota one after the other.

The gate is shared with other computers and the worker, so its answer is an argument of the call.  A call
returns what it hands to the gate: the mutation, and the queued command when persistence is attached.
-/
import Compukter.Filesystem.Access
import Compukter.Filesystem.Journal
import Compukter.Lib.Forest
import Compukter.Lib.Transaction

namespace Compukter.Filesystem

open Fallible OrderedMap Transaction Forest

inductive NodeKind where
  | file | directory
  deriving DecidableEq

/-- What `stat` tells of a node. -/
structure NodeMetadata where
  kind : NodeKind
  (logicalSize generation : Nat)
  executable : Bool
  deriving DecidableEq

/-- The generation of a file, if there is one, that a guarded replacement expects. -/
inductive ExecutableRevision where
  | absent
  | present (generation : Nat)
  deriving DecidableEq

/-- What a file node holds. -/
structure FileInfo where
  object : ObjectId
  (logicalSize generation : Nat)
  executable : Bool
  deriving DecidableEq

/-- A directory node holds its generation. -/
abbrev Node := Forest.Node Component FileInfo Nat

/-- The children of a directory, in the order of their names. -/
abbrev Directory := List (Component × Node)

/-- A directory has no size and is never executable. -/
def metadata : Node → NodeMetadata
  | .file info => ⟨.file, info.logicalSize, info.generation, info.executable⟩
  | .directory generation _ => ⟨.directory, 0, generation, false⟩

/-- The object that a file node refers to. -/
def nodeObject : Node → Option ObjectId
  | .file info => some info.object
  | .directory .. => none

/-- The same node at another generation. -/
def setGeneration (generation : Nat) : Node → Node
  | .file info => .file { info with generation }
  | .directory _ children => .directory generation children

/-! ## Looking up nodes -/

/-- The two top directories. -/
inductive Mount where
  | rom | home
  deriving DecidableEq

/-- The root itself may not be touched. -/
def splitMount (path : VirtualPath) : Except FileSystemError (Mount × List Component) :=
  match path with
  | [] => .error .permissionDenied
  | mount :: rest =>
    if mount = romName then .ok (.rom, rest)
    else if mount = homeName then .ok (.home, rest)
    else .error .notFound

/-- The last component, and the path of its directory. -/
def splitName (components : List Component) : Except FileSystemError (Component × List Component) :=
  match components.getLast? with
  | none => .error .permissionDenied
  | some name => .ok (name, components.dropLast)

/-- The node at a path that is not empty. -/
def findNode (directory : Directory) : List Component → Except FileSystemError Node
  | [] => .error .notFound
  | first :: rest => do
    let node ← demandSome (OrderedMap.get directory first) .notFound
    if rest = [] then return node
    match node with
    | .directory _ children => findNode children rest
    | .file _ => .error .notDirectory

/-- The children of the directory at a path. -/
def findDirectory (directory : Directory) : List Component → Except FileSystemError Directory
  | [] => .ok directory
  | component :: rest => do
    let node ← demandSome (OrderedMap.get directory component) .notFound
    match node with
    | .directory _ children => findDirectory children rest
    | .file _ => .error .notDirectory

/-- `find_directory_mut`, with what is then done to the directory. -/
def changeDirectory (directory : Directory) (components : List Component) (change : Directory → Directory) :
    Except FileSystemError Directory := do
  let _ ← findDirectory directory components
  return Forest.edit change directory components

/-- `find_node_mut`, with the node that is then put in place of the one found. -/
def changeNode (directory : Directory) (components : List Component) (node : Node) :
    Except FileSystemError Directory := do
  let _ ← findNode directory components
  let (name, parent) ← splitName components
  return Forest.edit (OrderedMap.insert name node) directory parent

/-! ## Rights -/

/-- Refused without the rights on this path. -/
def require (capability : FileCapability) (path : VirtualPath) (rights : FileRights) : Except FileSystemError Unit :=
  demand (capability.permits path rights) .permissionDenied

/-- `/rom` is read-only. -/
def writablePath (path : VirtualPath) : Except FileSystemError (Mount × List Component) := do
  let (mount, components) ← splitMount path
  if mount = .rom then throw .readOnly
  return (mount, components)

/-- The mount is looked at before the rights are. -/
def mutableTarget (capability : FileCapability) (path : VirtualPath) (rights : FileRights) :
    Except FileSystemError (Mount × List Component) := do
  let (mount, components) ← writablePath path
  require capability path rights
  return (mount, components)

/-! ## What the lookups find -/

variable {components : List Component}

theorem findNode_eq_ok {directory : Directory} {node : Node} :
    findNode directory components = .ok node ↔ find? directory components = some node := by
  induction components generalizing directory with
  | nil => simp [findNode, find?]
  | cons first rest ih =>
    rw [findNode, find?_cons]
    cases OrderedMap.get directory first with
    | none => simp [demandSome]
    | some child =>
      simp only [demandSome, ok_bind, Option.bind_some]
      by_cases hrest : rest = []
      · simp [hrest]
      · simp only [hrest, if_false]
        cases child with
        | file => simp [Forest.Node.children]
        | directory => exact ih

theorem findDirectory_eq_ok {directory d : Directory} :
    findDirectory directory components = .ok d ↔ below? directory components = some d := by
  induction components generalizing directory with
  | nil => simp [findDirectory, below?]
  | cons component _ ih =>
    rw [findDirectory, below?]
    cases OrderedMap.get directory component with
    | none => simp [demandSome]
    | some child =>
      cases child with
      | file => simp [demandSome]
      | directory =>
        exact ih

theorem splitName_eq_ok {parent : List Component} {name : Component} :
    splitName components = .ok (name, parent) ↔ components = parent ++ [name] := by
  rcases components.eq_nil_or_concat with rfl | ⟨front, last, rfl⟩
  · simp [splitName]
  · rw [List.concat_eq_append, splitName, List.getLast?_concat, List.dropLast_concat]
    simp only [Except.ok.injEq, Prod.mk.injEq]
    constructor
    · rintro ⟨rfl, rfl⟩
      rfl
    · intro h
      obtain ⟨rfl, hlast⟩ := List.append_inj' h rfl
      exact ⟨List.singleton_inj.mp hlast, rfl⟩

variable {mount : Mount}

theorem splitMount_eq_ok {path rest : VirtualPath} : splitMount path = .ok (mount, rest) ↔
      path = (match mount with | .rom => romName | .home => homeName) :: rest := by
  cases path with
  | nil => simp [splitMount]
  | cons first =>
    rw [splitMount]
    have hne : homeName ≠ romName := by decide
    by_cases hrom : first = romName
    · subst hrom
      cases mount <;> simp [hne.symm]
    · by_cases hhome : first = homeName
      · subst hhome
        cases mount <;> simp [hne]
      · cases mount <;> simp [hrom, hhome]

theorem writablePath_eq_ok {path components : VirtualPath} :
    writablePath path = .ok (mount, components) ↔ mount = .home ∧ path = homeName :: components := by
  rw [writablePath, bind_eq_ok]
  constructor
  · rintro ⟨⟨mount', _⟩, hsplit, h⟩
    cases mount' with
    | rom => cases h
    | home =>
      cases h
      exact ⟨rfl, splitMount_eq_ok.mp hsplit⟩
  · rintro ⟨rfl, rfl⟩
    exact ⟨(.home, components), splitMount_eq_ok.mpr rfl, rfl⟩

theorem mutableTarget_eq_ok {capability : FileCapability} {path components : VirtualPath} {rights : FileRights} :
    mutableTarget capability path rights = .ok (mount, components) ↔
      (mount = .home ∧ path = homeName :: components) ∧ capability.permits path rights = true := by
  rw [mutableTarget, bind_eq_ok]
  constructor
  · rintro ⟨⟨_, _⟩, hpath, h⟩
    obtain ⟨_, hrequire, h⟩ := bind_eq_ok.mp h
    cases h
    exact ⟨writablePath_eq_ok.mp hpath, demand_eq_ok.mp hrequire⟩
  · rintro ⟨hpath, hpermits⟩
    refine ⟨(mount, components), writablePath_eq_ok.mpr hpath, ?_⟩
    simp [require, demand, hpermits]

/-! ## Persistence -/

/-- The gate's answer to a reservation of so many bytes. -/
abbrev Gate := Nat → Except FileSystemError Unit

/-- What a file system needs to write its journal. -/
structure ComputerPersistence where
  computerId : ComputerId
  limits : FileSystemLimits

/-- What goes to the queue of the worker. -/
structure MutationCommand where
  computerId : ComputerId
  generation : Nat
  object : Option (ObjectId × List UInt8)
  journal : List UInt8
  deriving DecidableEq

/-- The bytes that the gate reserves for a command. -/
def MutationCommand.byteCost (command : MutationCommand) : Nat :=
  (command.object.map fun object => object.2.length).getD 0 + command.journal.length

/-- What an accepted call has changed. -/
structure Mutation where
  generation : Nat
  object : Option (ObjectId × List UInt8)
  operation : JournalOperation
  deriving DecidableEq

/-- A mutation, with its command when persistence is attached. -/
structure Publication where
  mutation : Mutation
  command : Option MutationCommand
  deriving DecidableEq

/-- A record that is too long is a matter of quota. -/
def codecToFilesystem : PersistenceCodecError → FileSystemError
  | .limitExceeded => .quotaExceeded
  | .malformed | .unsupportedVersion | .digestMismatch | .nonCanonical => .storageFaulted

variable (sha256 : List UInt8 → Digest)

/-- The record is encoded before the gate is asked. -/
def ComputerPersistence.prepare (persistence : ComputerPersistence) (gate : Gate) (mutation : Mutation) :
    Except FileSystemError MutationCommand := do
  let journal ← (do
    let record ← JournalRecord.new persistence.computerId mutation.generation (mutation.generation - 1)
      mutation.operation
    record.encode sha256 persistence.limits).mapError codecToFilesystem
  let command : MutationCommand := ⟨persistence.computerId, mutation.generation, mutation.object, journal⟩
  gate command.byteCost
  return command

/-! ## The state -/

/-- `/rom` and `/home`, and what their nodes refer to. -/
structure ComputerFileSystem where
  (rom home : Directory)
  handles : HandleTable
  objects : ObjectStore
  quota : QuotaLedger
  limits : FileSystemLimits
  generation : Nat
  persistence : Option ComputerPersistence

/-- How a call ends that does not return a value. -/
inductive Stop where
  | error (e : FileSystemError)
  | panic (p : Panic)
  deriving DecidableEq

/-- A call of the file system. -/
abbrev Action (α : Type) := Transaction ComputerFileSystem Stop α

/-- A check that a call fails by. -/
def check {α : Type} (x : Except FileSystemError α) : Action α := attempt (x.mapError .error)

/-- A step that the code expects to succeed. -/
def must {α : Type} (x : Except Panic α) : Action α := attempt (x.mapError .panic)

namespace ComputerFileSystem

/-- An empty file system; the quota counts its two mounts. -/
def withLimits (limits : FileSystemLimits) : ComputerFileSystem where
  rom := []
  home := []
  handles := HandleTable.new limits.maximumOpenHandles
  objects := []
  quota := QuotaLedger.new limits 2
  limits := limits
  generation := 0
  persistence := none

variable (fs : ComputerFileSystem)

/-- The children of a mount. -/
def directory : Mount → Directory
  | .rom => fs.rom
  | .home => fs.home

def setDirectory : Mount → Directory → ComputerFileSystem
  | .rom, rom => { fs with rom }
  | .home, home => { fs with home }

/-- The generation of the next change. -/
def nextGeneration : Except FileSystemError Nat :=
  if fs.generation + 1 < 2 ^ 64 then .ok (fs.generation + 1) else .error .storageFaulted

def checkFileSize (size : Nat) : Except FileSystemError Unit :=
  demand (size ≤ fs.limits.maximumFileBytes) .quotaExceeded

/-- There is room for one more entry. -/
def checkDirectoryEntryLimit (current : Nat) : Except FileSystemError Unit :=
  demand (current < fs.limits.maximumDirectoryEntries) .quotaExceeded

/-- Without persistence there is no command. -/
def preparePersistence (gate : Gate) (mutation : Mutation) : Except FileSystemError Publication :=
  match fs.persistence with
  | none => .ok ⟨mutation, none⟩
  | some persistence => do
    let command ← persistence.prepare sha256 gate mutation
    return ⟨mutation, some command⟩

/-- The contents of a file; a missing object is a panic. -/
def fileBytes (path : VirtualPath) : Except Stop (List UInt8) := do
  let (mount, components) ← (splitMount path).mapError .error
  let node ← (findNode (fs.directory mount) components).mapError .error
  match node with
  | .file info => (fs.objects.bytes info.object).mapError .panic
  | .directory .. => .error (.error .isDirectory)

/-! ## The steps that change the state -/

/-- A directory of a mount is changed. -/
def edit (mount : Mount) (components : List Component) (change : Directory → Directory) : Action Unit := do
  let fs ← get
  let directory ← check (changeDirectory (fs.directory mount) components change)
  modify (·.setDirectory mount directory)

/-- `edit` where the directory is expected to be there. -/
def editExpected (mount : Mount) (components : List Component) (change : Directory → Directory) :
    Action Unit := do
  let fs ← get
  let directory ← must ((changeDirectory (fs.directory mount) components change).mapError fun _ => .missingNode)
  modify (·.setDirectory mount directory)

/-- The node is taken out of its directory, where it is expected to be. -/
def takeNode (mount : Mount) (components : List Component) (name : Component) : Action Node := do
  let fs ← get
  let directory ← check (findDirectory (fs.directory mount) components)
  let node ← must (demandSome (OrderedMap.get directory name) .missingNode)
  modify (·.setDirectory mount (Forest.edit (erase name) (fs.directory mount) components))
  return node

/-- The node at a path is replaced. -/
def putNode (mount : Mount) (components : List Component) (node : Node) : Action Unit := do
  let fs ← get
  let directory ← check (changeNode (fs.directory mount) components node)
  modify (·.setDirectory mount directory)

/-- One reference to an object goes to another. -/
def replaceObject (previous : Option ObjectId) (next : ObjectId) (bytes : List UInt8) : Action Unit := do
  let fs ← get
  let objects ← must (fs.objects.replace previous next bytes)
  modify ({ · with objects })

def removeObject (object : ObjectId) : Action Unit := do
  let fs ← get
  let objects ← must (fs.objects.remove object)
  modify ({ · with objects })

def commitQuota (reservation : MutationCost) : Action Unit :=
  modify fun fs => { fs with quota := fs.quota.commit reservation }

/-- Gives quota back; more than was taken is a panic. -/
def releaseQuota (logicalBytes nodes : Nat) : Action Unit := do
  let fs ← get
  let quota ← must (fs.quota.release logicalBytes nodes)
  modify ({ · with quota })

def advance (generation : Nat) : Action Unit := modify ({ · with generation })

end ComputerFileSystem

end Compukter.Filesystem
