/-
Recovery from checkpoints and journal records.

The recovered state is a map from paths to nodes.  It starts from the latest confirmed checkpoint, and the
records after it are applied one by one, each checked: its bytes, its place in the sequence, whether the
operation is possible, and whether the state after it is within the limits.  A record that fails is an error
when its sequence number is confirmed, and otherwise the end of the journal.
-/
import Mathlib.Data.List.Sort
import Compukter.Filesystem.Journal

namespace Compukter.Filesystem

open Fallible OrderedMap Cursor

/-! ## Nodes of a recovered tree -/

inductive CheckpointNode where
  | directory (path : VirtualPath) (nodeGeneration : Nat)
  | file (path : VirtualPath) (nodeGeneration logicalSize : Nat) (objectId : ObjectId) (executable : Bool)
  deriving DecidableEq

namespace CheckpointNode

def path : CheckpointNode → VirtualPath
  | directory path _ | file path .. => path

def isDirectory : CheckpointNode → Bool
  | directory .. => true
  | file .. => false

def object : CheckpointNode → Option (ObjectId × Nat)
  | directory .. => none
  | file _ _ logicalSize objectId _ => some (objectId, logicalSize)

def generationOf : CheckpointNode → Nat
  | directory _ nodeGeneration | file _ nodeGeneration .. => nodeGeneration

def withPath (path : VirtualPath) (generation : Nat) : CheckpointNode → CheckpointNode
  | directory .. => directory path generation
  | file _ _ logicalSize objectId executable => file path generation logicalSize objectId executable

def read (limits : FileSystemLimits) : Cursor PersistenceCodecError CheckpointNode := do
  let path ← readPath limits
  let kind ← number .malformed 1
  let flags ← number .malformed 1
  let reserved ← number .malformed 2
  check (demand (reserved == 0) .malformed)
  let nodeGeneration ← number .malformed 8
  let logicalSize ← number .malformed 8
  let objectId ← JournalOperation.readDigest
  if kind = 1 ∧ flags = 0 ∧ logicalSize = 0 ∧ objectId = blankDigest then return directory path nodeGeneration
  else if kind = 2 ∧ flags ≤ 1 ∧ logicalSize ≤ limits.maximumFileBytes then
    return file path nodeGeneration logicalSize objectId (flags == 1)
  else if kind = 2 ∧ limits.maximumFileBytes < logicalSize then fail .limitExceeded
  else fail .malformed

end CheckpointNode

/-! ## Checkpoints -/

structure Checkpoint where
  computerId : ComputerId
  generation : Nat
  nodes : List CheckpointNode

namespace Checkpoint

def MAGIC : List UInt8 := [67, 80, 75, 84, 67, 72, 75, 0]

/-- `directories` are those that came before, `previous` is the last path. -/
def validateNodes (generation : Nat) :
    List VirtualPath → Option VirtualPath → List CheckpointNode → Except PersistenceCodecError Unit
  | _, _, [] => .ok ()
  | directories, previous, node :: rest => do
    demand (!(!homeDescendant node.path || previous.any (node.path ≤ ·) || node.generationOf > generation))
      .nonCanonical
    let parent ← demandSome (parent node.path) .nonCanonical
    demand (parent == [homeName] || directories.contains parent) .nonCanonical
    validateNodes generation (if node.isDirectory then node.path :: directories else directories) (some node.path) rest

def new (computerId : ComputerId) (generation : Nat) (nodes : List CheckpointNode) :
    Except PersistenceCodecError Checkpoint := do
  validateNodes generation [] none nodes
  return ⟨computerId, generation, nodes⟩

def readNodes (limits : FileSystemLimits) : Nat → Cursor PersistenceCodecError (List CheckpointNode)
  | 0 => return []
  | count + 1 => do
    let node ← CheckpointNode.read limits
    return node :: (← readNodes limits count)

def read (limits : FileSystemLimits) : Cursor PersistenceCodecError Checkpoint := do
  let magic ← exact .malformed 8
  check (demand (magic == MAGIC) .malformed)
  let version ← number .malformed 2
  check (demand (version == 1) .unsupportedVersion)
  let reserved ← number .malformed 2
  check (demand (reserved == 0) .malformed)
  let computerId ← JournalRecord.readComputerId
  let generation ← number .malformed 8
  let count ← number .malformed 4
  check (demand (count ≤ limits.maximumNodes - 2) .limitExceeded)
  let nodes ← readNodes limits count
  finish .malformed
  check (new computerId generation nodes)

def decode (sha256 : List UInt8 → Digest) (bytes : List UInt8) (limits : FileSystemLimits) :
    Except PersistenceCodecError Checkpoint := do
  let body ← JournalRecord.verified sha256 bytes limits.maximumCheckpointBytes
  let (checkpoint, _) ← read limits body
  return checkpoint

end Checkpoint

/-! ## Applying an operation -/

abbrev RecoveredNodes := List (VirtualPath × CheckpointNode)

variable (nodes : RecoveredNodes) (limits : FileSystemLimits)

def requireParent (path : VirtualPath) : Except Unit Unit := do
  let parent ← demandSome (parent path) ()
  if parent = [homeName] then return ()
  let node ← demandSome (OrderedMap.get nodes parent) ()
  demand node.isDirectory ()

/-- Whether something is below the path. -/
def hasDescendants (path : VirtualPath) : Bool :=
  nodes.any fun candidate => candidate.1 ≠ path && isWithin candidate.1 path

/-- The text of the destination with the rest of the path, parsed anew. -/
def rebase (path source destination : VirtualPath) (limits : FileSystemLimits) : Except Unit VirtualPath :=
  let text := (path.drop source.length).foldl (fun text component => text ++ '/' :: component.text)
    (display destination)
  (parseUtf8 text limits).mapError fun _ => ()

/-- The nodes from the source on, as long as they are within it. -/
def movingNodes (source : VirtualPath) : RecoveredNodes :=
  (nodes.dropWhile fun node => node.1 < source).takeWhile fun node => isWithin node.1 source

def renameNodes (source destination : VirtualPath) (replace : Bool) (generation : Nat)
    (limits : FileSystemLimits) : Except Unit RecoveredNodes := do
  demand (!isWithin destination source) ()
  requireParent nodes destination
  let sourceNode ← demandSome (OrderedMap.get nodes source) ()
  match OrderedMap.get nodes destination with
  | some existing => do
    demand (replace && existing.isDirectory == sourceNode.isDirectory) ()
    demand (!(existing.isDirectory && hasDescendants nodes destination)) ()
  | none => pure ()
  let moving := movingNodes nodes source
  demand (!moving.isEmpty) ()
  let rest := moving.foldl (fun nodes node => erase node.1 nodes) (erase destination nodes)
  moving.foldlM (fun nodes node => do
    let rebased ← rebase node.1 source destination limits
    let nodeGeneration := if node.1 = source then generation else node.2.generationOf
    return insert rebased (node.2.withPath rebased nodeGeneration) nodes) rest

def recoveredBytes : Nat := (nodes.filterMap fun node => node.2.object.map Prod.snd).sum

/-- The limits a recovered tree is held to.  All failures are alike, so the children are counted here for
each node and not in one pass. -/
def validateState : Except Unit Unit := do
  demand (nodes.length ≤ limits.maximumNodes - 2) ()
  demand (recoveredBytes nodes < 2 ^ 64) ()
  demand (recoveredBytes nodes ≤ limits.maximumLogicalBytes) ()
  demand (nodes.all fun node => (parent node.1).isSome) ()
  demand (nodes.all fun node =>
    (nodes.filter fun other => parent other.1 = parent node.1).length ≤ limits.maximumDirectoryEntries) ()

def applyOperation (operation : JournalOperation) (generation : Nat)
    (limits : FileSystemLimits) : Except Unit RecoveredNodes :=
  match operation with
  | .createDirectory path nodeGeneration => do
    demand (nodeGeneration == generation) ()
    requireParent nodes path
    demand (OrderedMap.get nodes path).isNone ()
    return insert path (.directory path generation) nodes
  | .putFile path nodeGeneration logicalSize objectId executable => do
    demand (nodeGeneration == generation) ()
    requireParent nodes path
    demand (!(OrderedMap.get nodes path).any (·.isDirectory)) ()
    return insert path (.file path generation logicalSize objectId executable) nodes
  | .remove path => do
    let node ← demandSome (OrderedMap.get nodes path) ()
    demand (!(node.isDirectory && hasDescendants nodes path)) ()
    return erase path nodes
  | .rename source destination replace => renameNodes nodes source destination replace generation limits

def apply (operation : JournalOperation) (generation : Nat) (limits : FileSystemLimits) :
    Except Unit RecoveredNodes := do
  let nodes ← applyOperation nodes operation generation limits
  validateState nodes limits
  return nodes

/-! ## Recovery -/

inductive RecoveryError where
  | confirmedCorruption | limitExceeded
  deriving DecidableEq

structure RecoveryCheckpoint where
  claimedGeneration : Nat
  bytes : List UInt8
  deriving DecidableEq

structure RecoveryJournalRecord where
  claimedSequence : Nat
  bytes : List UInt8
  deriving DecidableEq

structure RecoveryInput where
  computerId : ComputerId
  confirmedGeneration : Nat
  checkpoints : List RecoveryCheckpoint
  journalRecords : List RecoveryJournalRecord

structure RecoveredState where
  generation : Nat
  nodes : RecoveredNodes

variable (sha256 : List UInt8 → Digest) (input : RecoveryInput) (limits : FileSystemLimits)

def boundWork : Except RecoveryError Unit := do
  demand (input.checkpoints.length + input.journalRecords.length ≤ limits.maximumRecoveryRecords) .limitExceeded
  demand ((input.checkpoints.map (·.bytes.length)).sum + (input.journalRecords.map (·.bytes.length)).sum ≤
    limits.maximumRecoveryBytes) .limitExceeded

/-- The first number that two neighbours share. -/
def firstDuplicate : List Nat → Option Nat
  | a :: b :: rest => if a = b then some a else firstDuplicate (b :: rest)
  | _ => none

/-- The state of the latest checkpoint that is confirmed. -/
def recoverCheckpoint : Except RecoveryError RecoveredState := do
  let checkpoints := (input.checkpoints.filter (·.claimedGeneration ≤ input.confirmedGeneration)).insertionSort
    fun a b => a.claimedGeneration ≤ b.claimedGeneration
  demand (firstDuplicate (checkpoints.map (·.claimedGeneration))).isNone .confirmedCorruption
  match checkpoints.getLast? with
  | some candidate => do
    let checkpoint ← (Checkpoint.decode sha256 candidate.bytes limits).mapError fun _ => .confirmedCorruption
    demand (checkpoint.computerId == input.computerId && checkpoint.generation == candidate.claimedGeneration)
      .confirmedCorruption
    return ⟨checkpoint.generation, checkpoint.nodes.foldl (fun nodes node => insert node.path node nodes) []⟩
  | none => return ⟨0, []⟩

/-- The state after one more record: its bytes are those of the next record, and it can be applied. -/
def acceptRecord (state : RecoveredState) (stored : RecoveryJournalRecord) : Option RecoveredState :=
  match JournalRecord.decode sha256 stored.bytes limits with
  | .error _ => none
  | .ok record =>
    if record.computerId = input.computerId ∧ record.sequence = stored.claimedSequence ∧
        record.previousSequence = state.generation then
      match apply state.nodes record.operation record.sequence limits with
      | .error _ => none
      | .ok nodes => some ⟨record.sequence, nodes⟩
    else none

/-- The loop over the records. -/
def replay (input : RecoveryInput) (limits : FileSystemLimits) :
    RecoveredState → List RecoveryJournalRecord → Except RecoveryError RecoveredState
  | state, [] => .ok state
  | state, stored :: rest =>
    if stored.claimedSequence ≤ state.generation then replay input limits state rest
    else if 2 ^ 64 ≤ state.generation + 1 then .error .confirmedCorruption
    else if stored.claimedSequence ≠ state.generation + 1 then
      if state.generation + 1 ≤ input.confirmedGeneration then .error .confirmedCorruption else .ok state
    else
      match acceptRecord sha256 input limits state stored with
      | some next => replay input limits next rest
      | none =>
        if stored.claimedSequence ≤ input.confirmedGeneration then .error .confirmedCorruption else .ok state

/-- The records in their order, up to a sequence number that occurs twice. -/
def orderedRecords : Except RecoveryError (List RecoveryJournalRecord) :=
  let records := input.journalRecords.insertionSort fun a b => a.claimedSequence ≤ b.claimedSequence
  match firstDuplicate (records.map (·.claimedSequence)) with
  | some duplicate =>
    if duplicate ≤ input.confirmedGeneration then .error .confirmedCorruption
    else .ok (records.filter (·.claimedSequence < duplicate))
  | none => .ok records

def recover : Except RecoveryError RecoveredState := do
  boundWork input limits
  let state ← recoverCheckpoint sha256 input limits
  (validateState state.nodes limits).mapError fun _ => .confirmedCorruption
  let records ← orderedRecords input
  let state ← replay sha256 input limits state records
  demand (input.confirmedGeneration ≤ state.generation) .confirmedCorruption
  return state

end Compukter.Filesystem
