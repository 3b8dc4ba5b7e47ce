/-
The journal of a computer: its records and their bytes.

A record names the operation of one accepted call and carries the sequence number of the call.  Its bytes
end with a digest of all that is before it.  The encoder bounds the length of a path; the decoder parses
the path anew, so `decode_encode` reads a record back exactly when its paths fit the limits.
-/
import Compukter.Filesystem.Objects
import Compukter.Lib.Cursor

namespace Compukter.Filesystem

open Fallible Cursor Except Reads List

/-- Why bytes are not taken for a record, or a record is not written. -/
inductive PersistenceCodecError where
  | malformed | unsupportedVersion | limitExceeded | digestMismatch | nonCanonical
  deriving DecidableEq

/-- The 16 bytes that name a computer. -/
structure ComputerId where
  bytes : List UInt8
  length_eq : bytes.length = 16
  deriving DecidableEq

/-- A change of `/home` as the journal keeps it. -/
inductive JournalOperation where
  | createDirectory (path : VirtualPath) (nodeGeneration : Nat)
  | putFile (path : VirtualPath) (nodeGeneration logicalSize : Nat) (objectId : ObjectId) (executable : Bool)
  | remove (path : VirtualPath)
  | rename (source destination : VirtualPath) (replace : Bool)
  deriving DecidableEq

/-! ## Paths as bytes -/

/-- The UTF-8 form of a text. -/
def utf8Bytes (s : Str) : List UInt8 := s.flatMap String.utf8EncodeChar

/-- The text of UTF-8 bytes, if they are valid. -/
def fromUtf8 (bytes : List UInt8) : Option Str := bytes.toByteArray.utf8Decode?.map Array.toList

/-- The length of the text in four bytes, then the text. -/
def writePath (path : VirtualPath) : Except PersistenceCodecError (List UInt8) := do
  demand (encodedLen path < 2 ^ 32) .limitExceeded
  return bytesLE 4 (encodedLen path) ++ utf8Bytes (display path)

/-- The bytes that `writePath` takes. -/
def pathRecordLen (path : VirtualPath) : Nat := 4 + encodedLen path

/-- A length and as many bytes of text, with the errors of the format that is read. -/
def readPathOr {ε : Type} (malformed limitExceeded nonCanonical : ε) (limits : FileSystemLimits) :
    Cursor ε VirtualPath := do
  let length ← number malformed 4
  check (demand (length ≤ limits.maximumPathBytes) limitExceeded)
  let bytes ← exact malformed length
  let text ← check (demandSome (fromUtf8 bytes) malformed)
  check ((parseUtf8 text limits).mapError fun _ => nonCanonical)

/-- A path of a journal or a snapshot. -/
def readPath : FileSystemLimits → Cursor PersistenceCodecError VirtualPath :=
  readPathOr .malformed .limitExceeded .nonCanonical

/-- The path leads below `/home`. -/
def homeDescendant (path : VirtualPath) : Bool := path.head? == some homeName && 2 ≤ path.length

/-! ## Operations -/

namespace JournalOperation

/-- The paths that the operation names, in the order of the record. -/
def paths : JournalOperation → List VirtualPath
  | createDirectory path _ | putFile path _ _ _ _ | remove path => [path]
  | rename source destination _ => [source, destination]

/-- The bytes of the record: the head, the paths and the numbers. -/
def encodedLen (operation : JournalOperation) (limits : FileSystemLimits) : Except PersistenceCodecError Nat := do
  checkAll (fun path => demand (Filesystem.encodedLen path ≤ limits.maximumPathBytes) .limitExceeded) operation.paths
  let fixed := match operation with
    | createDirectory .. => 8
    | putFile .. => 8 + 8 + 32
    | remove .. | rename .. => 0
  return 4 + (operation.paths.map pathRecordLen).sum + fixed

/-- The operation, its flag and two bytes of zero. -/
def head (operation : Nat) (flag : Bool) : List UInt8 := bytesLE 1 operation ++ bytesLE 1 flag.toNat ++ bytesLE 2 0

/-- The bytes of the operation, unless they are too many. -/
def encode (operation : JournalOperation) (limits : FileSystemLimits) :
    Except PersistenceCodecError (List UInt8) := do
  let length ← operation.encodedLen limits
  demand (length ≤ limits.maximumJournalPayloadBytes) .limitExceeded
  match operation with
  | createDirectory path nodeGeneration =>
    return head 1 false ++ (← writePath path) ++ bytesLE 8 nodeGeneration
  | putFile path nodeGeneration logicalSize objectId executable =>
    return head 2 executable ++ (← writePath path) ++ bytesLE 8 nodeGeneration ++ bytesLE 8 logicalSize ++
      objectId.bytes
  | remove path => return head 3 false ++ (← writePath path)
  | rename source destination replace =>
    return head 4 replace ++ (← writePath source) ++ (← writePath destination)

/-- A rename also has to name two paths. -/
def pathsAreHomeDescendants : JournalOperation → Bool
  | createDirectory path _ | putFile path _ _ _ _ | remove path => homeDescendant path
  | rename source destination _ => homeDescendant source && homeDescendant destination && source != destination

/-- A node that is put has the generation of its record. -/
def generationIsCanonical (sequence : Nat) : JournalOperation → Bool
  | createDirectory _ nodeGeneration | putFile _ nodeGeneration _ _ _ => nodeGeneration == sequence
  | remove _ | rename .. => true

/-- The 32 bytes of a digest. -/
def readDigest : Cursor PersistenceCodecError Digest := do
  let bytes ← exact .malformed 32
  if h : bytes.length = 32 then return ⟨bytes, h⟩ else fail .malformed

/-- What follows the head, by the operation that the head names. -/
def readBody (limits : FileSystemLimits) (operation flags : Nat) : Cursor PersistenceCodecError JournalOperation :=
  if operation = 1 ∧ flags = 0 then do
    let path ← readPath limits
    return createDirectory path (← number .malformed 8)
  else if operation = 2 ∧ flags ≤ 1 then do
    let path ← readPath limits
    let nodeGeneration ← number .malformed 8
    let logicalSize ← number .malformed 8
    check (demand (logicalSize ≤ limits.maximumFileBytes) .limitExceeded)
    return putFile path nodeGeneration logicalSize (← readDigest) (flags == 1)
  else if operation = 3 ∧ flags = 0 then do return remove (← readPath limits)
  else if operation = 4 ∧ flags ≤ 1 then do
    let source ← readPath limits
    return rename source (← readPath limits) (flags == 1)
  else fail .malformed

/-- All of the bytes are one operation, below `/home`. -/
def read (limits : FileSystemLimits) : Cursor PersistenceCodecError JournalOperation := do
  let operation ← number .malformed 1
  let flags ← number .malformed 1
  let reserved ← number .malformed 2
  check (demand (reserved == 0) .malformed)
  let result ← readBody limits operation flags
  finish .malformed
  check (demand result.pathsAreHomeDescendants .nonCanonical)
  return result

/-- The operation that the bytes are. -/
def decode (bytes : List UInt8) (limits : FileSystemLimits) : Except PersistenceCodecError JournalOperation := do
  let (result, _) ← read limits bytes
  return result

end JournalOperation

/-! ## Records -/

/-- One operation in the sequence of a computer. -/
structure JournalRecord where
  computerId : ComputerId
  (sequence previousSequence : Nat)
  operation : JournalOperation
  deriving DecidableEq

namespace JournalRecord

/-- The eight bytes every record starts with. -/
def MAGIC : List UInt8 := [67, 80, 75, 84, 74, 78, 76, 0]

/-- A record that comes right after its predecessor and is canonical. -/
def new (computerId : ComputerId) (sequence previousSequence : Nat) (operation : JournalOperation) :
    Except PersistenceCodecError JournalRecord :=
  if sequence = 0 || previousSequence + 1 != sequence || !operation.pathsAreHomeDescendants ||
      !operation.generationIsCanonical sequence then .error .nonCanonical
  else .ok ⟨computerId, sequence, previousSequence, operation⟩

variable (sha256 : List UInt8 → Digest)

/-- Header, operation and the digest of both. -/
def encode (record : JournalRecord) (limits : FileSystemLimits) : Except PersistenceCodecError (List UInt8) := do
  let payload ← record.operation.encode limits
  demand (48 + payload.length + 32 ≤ limits.maximumJournalRecordBytes) .limitExceeded
  demand (payload.length < 2 ^ 32) .limitExceeded
  let bytes := MAGIC ++ bytesLE 2 1 ++ bytesLE 2 0 ++ record.computerId.bytes ++ bytesLE 8 record.sequence ++
    bytesLE 8 record.previousSequence ++ bytesLE 4 payload.length ++ payload
  demand (bytes.length + 32 ≤ limits.maximumJournalRecordBytes) .limitExceeded
  return bytes ++ (sha256 bytes).bytes

/-- The bytes before the digest, when the digest is theirs. -/
def verified (bytes : List UInt8) (maximum : Nat) : Except PersistenceCodecError (List UInt8) := do
  demand (bytes.length ≤ maximum) .limitExceeded
  demand (32 ≤ bytes.length) .malformed
  let payloadEnd := bytes.length - 32
  demand ((sha256 (bytes.take payloadEnd)).bytes == bytes.drop payloadEnd) .digestMismatch
  return bytes.take payloadEnd

/-- The 16 bytes of a computer id. -/
def readComputerId : Cursor PersistenceCodecError ComputerId := do
  let bytes ← exact .malformed 16
  if h : bytes.length = 16 then return ⟨bytes, h⟩ else fail .malformed

/-- The number of bytes that are left. -/
def remaining : Cursor PersistenceCodecError Nat := fun bytes => .ok (bytes.length, bytes)

/-- A header, and an operation that is as long as it says. -/
def read (limits : FileSystemLimits) : Cursor PersistenceCodecError JournalRecord := do
  let magic ← exact .malformed 8
  check (demand (magic == MAGIC) .malformed)
  let version ← number .malformed 2
  check (demand (version == 1) .unsupportedVersion)
  let reserved ← number .malformed 2
  check (demand (reserved == 0) .malformed)
  let computerId ← readComputerId
  let sequence ← number .malformed 8
  let previousSequence ← number .malformed 8
  let payloadLength ← number .malformed 4
  let left ← remaining
  check (demand (payloadLength ≤ limits.maximumJournalPayloadBytes) .limitExceeded)
  check (demand (payloadLength == left) .malformed)
  let payload ← exact .malformed payloadLength
  let operation ← check (JournalOperation.decode payload limits)
  finish .malformed
  check (new computerId sequence previousSequence operation)

/-- The record that the bytes are, when their digest is right. -/
def decode (bytes : List UInt8) (limits : FileSystemLimits) : Except PersistenceCodecError JournalRecord := do
  let body ← verified sha256 bytes limits.maximumJournalRecordBytes
  let (record, _) ← read limits body
  return record

end JournalRecord

/-! ## A path is read back -/

@[simp] theorem length_utf8Bytes (s : Str) : (utf8Bytes s).length = utf8Len s := by
  simp [utf8Bytes, utf8Len, length_flatMap]

theorem fromUtf8_utf8Bytes (s : Str) : fromUtf8 (utf8Bytes s) = some s := by
  have hdecode : (utf8Bytes s).toByteArray.utf8Decode? = some s.toArray := utf8Decode?_utf8Encode
  rw [fromUtf8, hdecode]
  simp

variable {path : VirtualPath}

theorem writePath_eq_ok {l : List UInt8} : writePath path = .ok l ↔
      encodedLen path < 2 ^ 32 ∧ bytesLE 4 (encodedLen path) ++ utf8Bytes (display path) = l := by
  simp only [writePath, bind_eq_ok, demand_eq_ok, decide_eq_true_eq, pure_eq_ok, ok.injEq, exists_const]

open PersistenceCodecError

theorem readPath_writePath {limits : FileSystemLimits} {l : List UInt8} (hpath : path ≠ [])
    (h : writePath path = .ok l) (rest : List UInt8) {r : VirtualPath × List UInt8} :
    readPath limits (l ++ rest) = .ok r ↔ Fits limits path ∧ r = (path, rest) := by
  obtain ⟨hlen, rfl⟩ := writePath_eq_ok.mp h
  have hnumber := number malformed (show encodedLen path < 256 ^ 4 from hlen)
  have htext := exact malformed (utf8Bytes (display path))
  rw [length_utf8Bytes, utf8Len_display] at htext
  rw [readPath, readPathOr, append_assoc, hnumber.bind_apply]
  by_cases hmax : encodedLen path ≤ limits.maximumPathBytes
  · rw [demand_decide hmax, Cursor.bind_apply, check_ok, ok_bind, htext.bind_apply, fromUtf8_utf8Bytes]
    rw [demandSome, Cursor.bind_apply, check_ok, ok_bind, parseUtf8_display_of_ne_nil hpath]
    by_cases hfits : Fits limits path
    · simp [Except.mapError, hfits, eq_comm]
    · simp [Except.mapError, hfits]
  · have hdemand : demand (decide (encodedLen path ≤ limits.maximumPathBytes)) limitExceeded =
        .error .limitExceeded := by simp [demand, hmax]
    rw [hdemand, Cursor.bind_apply, check_error, error_bind]
    constructor
    · intro hr
      cases hr
    · rintro ⟨hfits, -⟩
      exact absurd hfits.1 hmax

/-! ## An operation is read back -/

namespace JournalOperation

/-- The numbers of the operation have the width of their fields. -/
def InRange (limits : FileSystemLimits) : JournalOperation → Prop
  | createDirectory _ nodeGeneration => nodeGeneration < 2 ^ 64
  | putFile _ nodeGeneration logicalSize _ _ => nodeGeneration < 2 ^ 64 ∧ logicalSize ≤ limits.maximumFileBytes
  | remove _ | rename .. => True

variable {path : VirtualPath}

theorem ne_nil_of_homeDescendant (h : homeDescendant path = true) : path ≠ [] := by
  rintro rfl
  exact absurd h (by decide)

variable {limits : FileSystemLimits}

theorem read_head {operation : Nat} (hop : operation < 256) (flag : Bool) (body : List UInt8) :
    read limits (head operation flag ++ body) =
      (do let result ← readBody limits operation flag.toNat
          finish .malformed
          check (demand result.pathsAreHomeDescendants .nonCanonical)
          return result : Cursor PersistenceCodecError JournalOperation) body := by
  have hflag : flag.toNat < 256 ^ 1 := by cases flag <;> decide
  have hread := number malformed (show operation < 256 ^ 1 from hop)
  have hflags := number malformed hflag
  have hzero := number malformed (show 0 < 256 ^ 2 by decide)
  rw [read, head, append_assoc, append_assoc, hread.bind_apply, hflags.bind_apply, hzero.bind_apply]
  rfl

variable {l : List UInt8}

theorem readPath_bind {l' : List UInt8} {α : Type} {a : α} {f : VirtualPath → Cursor PersistenceCodecError α}
    (hpath : homeDescendant path = true) (h : writePath path = .ok l) (hf : Reads (f path) l' a)
    {r : α × List UInt8} : (readPath limits >>= f) (l ++ l') = .ok r ↔ Fits limits path ∧ r = (a, []) := by
  rw [bind_apply_eq_ok]
  have hrest : f path l' = .ok (a, []) := by simpa using hf []
  constructor
  · rintro ⟨_, _, hread, hr⟩
    obtain ⟨hfits, heq⟩ := (readPath_writePath (ne_nil_of_homeDescendant hpath) h l').mp hread
    cases heq
    rw [hrest] at hr
    exact ⟨hfits, (ok.inj hr).symm⟩
  · rintro ⟨hfits, rfl⟩
    exact ⟨path, l', (readPath_writePath (ne_nil_of_homeDescendant hpath) h l').mpr ⟨hfits, rfl⟩, hrest⟩

theorem reads_digest (d : Digest) : Reads readDigest d.bytes d := by
  intro rest
  have hexact := exact malformed d.bytes
  rw [d.length_eq] at hexact
  rw [readDigest, hexact.bind_apply, dif_pos d.length_eq]
  rfl

theorem readBody_createDirectory {nodeGeneration : Nat} (hl : writePath path = .ok l)
    (hpath : homeDescendant path = true) (hgeneration : nodeGeneration < 2 ^ 64) (r : JournalOperation × List UInt8) :
    readBody limits 1 0 (l ++ bytesLE 8 nodeGeneration) = .ok r ↔
      Fits limits path ∧ r = (createDirectory path nodeGeneration, []) := by
  refine readPath_bind hpath hl fun rest => ?_
  rw [(number _ (show nodeGeneration < 256 ^ 8 from hgeneration)).bind_apply]
  rfl

theorem readBody_putFile {nodeGeneration logicalSize : Nat} {objectId : ObjectId} {executable : Bool}
    (hl : writePath path = .ok l) (hpath : homeDescendant path = true) (hgeneration : nodeGeneration < 2 ^ 64)
    (hsize : logicalSize ≤ limits.maximumFileBytes) (r : JournalOperation × List UInt8) :
    readBody limits 2 executable.toNat
        (l ++ (bytesLE 8 nodeGeneration ++ (bytesLE 8 logicalSize ++ objectId.bytes))) = .ok r ↔
      Fits limits path ∧ r = (putFile path nodeGeneration logicalSize objectId executable, []) := by
  have hwidth : logicalSize < 256 ^ 8 := Nat.lt_of_le_of_lt hsize limits.file_lt
  have hflag : (executable.toNat == 1) = executable := by cases executable <;> rfl
  rw [readBody, if_neg (by simp), if_pos ⟨rfl, executable.toNat_le⟩]
  refine readPath_bind hpath hl fun rest => ?_
  rw [append_assoc, append_assoc, (number _ (show nodeGeneration < 256 ^ 8 from hgeneration)).bind_apply,
    (number _ hwidth).bind_apply, demand_decide hsize, Cursor.bind_apply, check_ok, ok_bind,
    (reads_digest objectId).bind_apply, hflag]
  rfl

theorem readBody_remove (hl : writePath path = .ok l) (hpath : homeDescendant path = true)
    (r : JournalOperation × List UInt8) : readBody limits 3 0 l = .ok r ↔ Fits limits path ∧ r = (remove path, []) := by
  rw [← append_nil l]
  exact readPath_bind hpath hl fun _ => rfl

theorem readBody_rename {source destination : VirtualPath} {replace : Bool} {l' : List UInt8}
    (hl : writePath source = .ok l) (hl' : writePath destination = .ok l') (hsource : homeDescendant source = true)
    (hdestination : homeDescendant destination = true) (r : JournalOperation × List UInt8) :
    readBody limits 4 replace.toNat (l ++ l') = .ok r ↔
      (Fits limits source ∧ Fits limits destination) ∧ r = (rename source destination replace, []) := by
  have hflag : (replace.toNat == 1) = replace := by cases replace <;> rfl
  rw [readBody, if_neg (by simp), if_neg (by simp), if_neg (by simp), if_pos ⟨rfl, replace.toNat_le⟩,
    bind_apply_eq_ok, hflag]
  have hsecond : (readPath limits >>= fun path => pure (rename source path replace)) l' = .ok r ↔
      Fits limits destination ∧ r = (rename source destination replace, []) := by
    rw [← append_nil l']
    exact readPath_bind hdestination hl' fun _ => rfl
  constructor
  · rintro ⟨path, _, hread, hr⟩
    obtain ⟨hfits, heq⟩ := (readPath_writePath (ne_nil_of_homeDescendant hsource) hl l').mp hread
    cases heq
    obtain ⟨hfits', hr⟩ := hsecond.mp hr
    exact ⟨⟨hfits, hfits'⟩, hr⟩
  · rintro ⟨⟨hfits, hfits'⟩, hr⟩
    exact ⟨source, l', (readPath_writePath (ne_nil_of_homeDescendant hsource) hl l').mpr ⟨hfits, rfl⟩,
      hsecond.mpr ⟨hfits', hr⟩⟩

variable {operation : JournalOperation} {payload : List UInt8}

/-- The encoded operation is a head and a body, and the body is read back when the paths fit. -/
theorem readBody_encode (henc : operation.encode limits = .ok payload)
    (hrange : operation.InRange limits) (hhome : operation.pathsAreHomeDescendants = true) :
    ∃ code flag body, code < 256 ∧ payload = head code flag ++ body ∧
      ∀ r, readBody limits code flag.toNat body = .ok r ↔
        (∀ path ∈ operation.paths, Fits limits path) ∧ r = (operation, []) := by
  obtain ⟨_, -, henc⟩ := bind_eq_ok.mp henc
  obtain ⟨-, -, henc⟩ := bind_eq_ok.mp henc
  cases operation with
  | createDirectory _ nodeGeneration =>
    obtain ⟨l, hl, henc⟩ := bind_eq_ok.mp henc
    refine ⟨1, false, l ++ bytesLE 8 nodeGeneration, by decide, ?_, fun r => ?_⟩
    · exact (ok.inj henc).symm
    · rw [paths, forall_mem_singleton]
      exact readBody_createDirectory hl hhome hrange r
  | putFile _ nodeGeneration logicalSize objectId executable =>
    obtain ⟨l, hl, henc⟩ := bind_eq_ok.mp henc
    refine ⟨2, executable, l ++ (bytesLE 8 nodeGeneration ++ (bytesLE 8 logicalSize ++ objectId.bytes)), by decide,
      ?_, fun r => ?_⟩
    · simp only [← append_assoc]
      exact (ok.inj henc).symm
    · rw [paths, forall_mem_singleton]
      exact readBody_putFile hl hhome hrange.1 hrange.2 r
  | remove =>
    obtain ⟨l, hl, henc⟩ := bind_eq_ok.mp henc
    refine ⟨3, false, l, by decide, (ok.inj henc).symm, fun r => ?_⟩
    rw [paths, forall_mem_singleton]
    exact readBody_remove hl hhome r
  | rename _ _ replace =>
    obtain ⟨l, hl, henc⟩ := bind_eq_ok.mp henc
    obtain ⟨l', hl', henc⟩ := bind_eq_ok.mp henc
    rw [pathsAreHomeDescendants, Bool.and_eq_true, Bool.and_eq_true] at hhome
    refine ⟨4, replace, l ++ l', by decide, ?_, fun r => ?_⟩
    · exact (ok.inj henc).symm
    · rw [paths, forall_mem_cons, forall_mem_singleton]
      exact readBody_rename hl hl' hhome.1.1 hhome.1.2 r

theorem length_writePath (h : writePath path = .ok l) : l.length = pathRecordLen path := by
  obtain ⟨-, rfl⟩ := writePath_eq_ok.mp h
  rw [length_append, length_bytesLE, length_utf8Bytes, utf8Len_display, pathRecordLen]

theorem length_encode_le (henc : operation.encode limits = .ok payload) :
    payload.length ≤ limits.maximumJournalPayloadBytes := by
  obtain ⟨length, hlength, henc⟩ := bind_eq_ok.mp henc
  obtain ⟨_, hmaximum, henc⟩ := bind_eq_ok.mp henc
  rw [demand_eq_ok, decide_eq_true_eq] at hmaximum
  obtain ⟨_, -, hlength⟩ := bind_eq_ok.mp hlength
  have hhead (code : Nat) (flag : Bool) : (head code flag).length = 4 := rfl
  suffices payload.length = length by omega
  cases operation with
  | createDirectory =>
    obtain ⟨l, hl, henc⟩ := bind_eq_ok.mp henc
    cases henc
    cases hlength
    simp [hhead, length_writePath hl, paths, Nat.add_assoc]
  | putFile _ _ _ objectId =>
    obtain ⟨l, hl, henc⟩ := bind_eq_ok.mp henc
    cases henc
    cases hlength
    simp [hhead, length_writePath hl, paths, objectId.length_eq, Nat.add_assoc]
  | remove =>
    obtain ⟨l, hl, henc⟩ := bind_eq_ok.mp henc
    cases henc
    cases hlength
    simp [hhead, length_writePath hl, paths]
  | rename =>
    obtain ⟨l, hl, henc⟩ := bind_eq_ok.mp henc
    obtain ⟨l', hl', henc⟩ := bind_eq_ok.mp henc
    cases henc
    cases hlength
    simp [hhead, length_writePath hl, length_writePath hl', paths]

theorem decode_encode {operation' : JournalOperation} {payload : List UInt8}
    (henc : operation.encode limits = .ok payload) (hrange : operation.InRange limits)
    (hhome : operation.pathsAreHomeDescendants = true) : decode payload limits = .ok operation' ↔
      (∀ path ∈ operation.paths, Fits limits path) ∧ operation' = operation := by
  obtain ⟨_, _, _, hcode, rfl, hbody⟩ := readBody_encode henc hrange hhome
  rw [decode, read_head hcode, bind_eq_ok]
  constructor
  · rintro ⟨⟨result, _⟩, hread, hresult⟩
    cases hresult
    obtain ⟨result, _, hread, htail⟩ := bind_apply_eq_ok.mp hread
    obtain ⟨hfits, heq⟩ := (hbody _).mp hread
    cases heq
    obtain ⟨_, _, -, htail⟩ := bind_apply_eq_ok.mp htail
    obtain ⟨_, _, -, htail⟩ := bind_apply_eq_ok.mp htail
    cases htail
    exact ⟨hfits, rfl⟩
  · rintro ⟨hfits, rfl⟩
    refine ⟨(operation', []), bind_apply_eq_ok.mpr ⟨operation', [], (hbody _).mpr ⟨hfits, rfl⟩, ?_⟩, rfl⟩
    rw [hhome]
    rfl

end JournalOperation

/-! ## A record is read back -/

namespace JournalRecord

variable {sha256 : List UInt8 → Digest}

theorem new_eq_ok {computerId : ComputerId} {sequence previousSequence : Nat} {operation : JournalOperation}
    {record : JournalRecord} : new computerId sequence previousSequence operation = .ok record ↔
      (sequence ≠ 0 ∧ previousSequence + 1 = sequence ∧ operation.pathsAreHomeDescendants = true ∧
        operation.generationIsCanonical sequence = true) ∧
      record = ⟨computerId, sequence, previousSequence, operation⟩ := by
  rw [new]
  split
  · next h =>
    simp only [Bool.or_eq_true, decide_eq_true_eq, bne_iff_ne, ne_eq, Bool.not_eq_true'] at h
    constructor
    · intro hr
      cases hr
    · rintro ⟨⟨h₁, h₂, h₃, h₄⟩, -⟩
      rcases h with ((h | h) | h) | h
      · exact absurd h h₁
      · exact absurd h₂ h
      · rw [h₃] at h
        cases h
      · rw [h₄] at h
        cases h
  · next h =>
    simp only [Bool.or_eq_true, decide_eq_true_eq, bne_iff_ne, ne_eq, Bool.not_eq_true', not_or, not_not,
      Bool.not_eq_false] at h
    obtain ⟨⟨⟨h₁, h₂⟩, h₃⟩, h₄⟩ := h
    simp [h₁, h₂, h₃, h₄, eq_comm]

theorem reads_computerId (id : ComputerId) : Reads readComputerId id.bytes id := by
  intro rest
  have hexact := exact malformed id.bytes
  rw [id.length_eq] at hexact
  rw [readComputerId, hexact.bind_apply, dif_pos id.length_eq]
  rfl

theorem verified_append {bytes : List UInt8} {maximum : Nat} (h : bytes.length + 32 ≤ maximum) :
    verified sha256 (bytes ++ (sha256 bytes).bytes) maximum = .ok bytes := by
  have hlength : (bytes ++ (sha256 bytes).bytes).length = bytes.length + 32 := by
    rw [length_append, (sha256 bytes).length_eq]
  have hend : (bytes ++ (sha256 bytes).bytes).length - 32 = bytes.length := by omega
  simp only [verified, hend, take_left, drop_left]
  simp [demand, hlength, h]

variable {limits : FileSystemLimits}

/-- The parts before the payload are read back as they are. -/
theorem read_body (id : ComputerId) {sequence previousSequence : Nat}
    {payload : List UInt8} (hsequence : sequence < 256 ^ 8) (hprevious : previousSequence < 256 ^ 8)
    (hpayload : payload.length ≤ limits.maximumJournalPayloadBytes) (hwidth : payload.length < 256 ^ 4) :
    read limits (MAGIC ++ (bytesLE 2 1 ++ (bytesLE 2 0 ++ (id.bytes ++ (bytesLE 8 sequence ++
      (bytesLE 8 previousSequence ++ (bytesLE 4 payload.length ++ payload))))))) =
    (do let operation ← JournalOperation.decode payload limits
        let record ← new id sequence previousSequence operation
        return (record, [])) := by
  have hmagic : Reads (exact malformed 8) MAGIC MAGIC := exact _ MAGIC
  have hversion := number malformed (show 1 < 256 ^ 2 by decide)
  have hreserved := number malformed (show 0 < 256 ^ 2 by decide)
  have hexact := exact malformed payload []
  rw [append_nil] at hexact
  have hcheck {α : Type} (f : Unit → Cursor PersistenceCodecError α) (bytes : List UInt8) :
      (check (.ok ()) >>= f) bytes = f () bytes := rfl
  have hleft {α : Type} (f : Nat → Cursor PersistenceCodecError α) (bytes : List UInt8) :
      (remaining >>= f) bytes = f bytes.length bytes := rfl
  have hsame : demand (MAGIC == MAGIC) malformed = .ok () := rfl
  have hone : demand (1 == 1) unsupportedVersion = .ok () := rfl
  have hnone : demand (0 == 0) malformed = .ok () := rfl
  rw [read, hmagic.bind_apply, hsame, hcheck, hversion.bind_apply, hone, hcheck, hreserved.bind_apply, hnone, hcheck,
    (reads_computerId id).bind_apply, (number _ hsequence).bind_apply, (number _ hprevious).bind_apply,
    (number _ hwidth).bind_apply, hleft, demand_decide hpayload, hcheck, demand_true (beq_self_eq_true _), hcheck,
    Cursor.bind_apply,
    hexact, ok_bind]
  cases JournalOperation.decode payload limits with
  | error => rfl
  | ok operation =>
    show check (new id sequence previousSequence operation) [] =
      (new id sequence previousSequence operation >>= fun record => pure (record, []))
    cases new id sequence previousSequence operation <;> rfl

/-- The bytes of a record give the record back exactly when its paths fit the limits. -/
theorem decode_encode {record record' : JournalRecord} {bytes : List UInt8}
    (henc : record.encode sha256 limits = .ok bytes) (hrange : record.operation.InRange limits)
    (hnew : new record.computerId record.sequence record.previousSequence record.operation = .ok record)
    (hsequence : record.sequence < 2 ^ 64) : decode sha256 bytes limits = .ok record' ↔
      (∀ path ∈ record.operation.paths, Fits limits path) ∧ record' = record := by
  simp only [encode, bind_eq_ok] at henc
  obtain ⟨_, hpayload, _, -, _, hwidth, _, hmaximum, henc⟩ := henc
  cases henc
  rw [demand_eq_ok, decide_eq_true_eq] at hwidth hmaximum
  obtain ⟨hcanonical, -⟩ := new_eq_ok.mp hnew
  have hprevious : record.previousSequence < 256 ^ 8 := by
    omega
  rw [decode, verified_append hmaximum, ok_bind]
  simp only [append_assoc]
  rw [read_body record.computerId hsequence hprevious (JournalOperation.length_encode_le hpayload) hwidth]
  constructor
  · intro h
    obtain ⟨⟨result, _⟩, hread, hlast⟩ := bind_eq_ok.mp h
    obtain ⟨_, hdecode, hread⟩ := bind_eq_ok.mp hread
    obtain ⟨result, hresult, hread⟩ := bind_eq_ok.mp hread
    cases hread
    cases hlast
    obtain ⟨hfits, rfl⟩ := (JournalOperation.decode_encode hpayload hrange hcanonical.2.2.1).mp hdecode
    rw [hnew] at hresult
    exact ⟨hfits, (ok.inj hresult).symm⟩
  · rintro ⟨hfits, rfl⟩
    rw [(JournalOperation.decode_encode hpayload hrange hcanonical.2.2.1).mpr ⟨hfits, rfl⟩, ok_bind, hnew]
    rfl

end JournalRecord

end Compukter.Filesystem
