/-
What an admitted image reserves, against the limits of the profile.

The check of the profile compares the profile's frame storage with the largest frame times the call
depth.  The arena that a machine allocates has the size that the manifest declares, and that size is
only bounded from below.  Every other reservation is bounded by the profile.
-/
import Compukter.Decode.Tables
import Compukter.Image.Admission
import Compukter.Verify.Functions

namespace Compukter.Image

open Fallible FrameStack

/-! ## Reservations -/

/-- The quantities that the host sees. -/
structure Reserved where
  (frameArenaBytes heapArenaBytes callDepth tasks channels channelValues hostRequests : Nat)
  deriving DecidableEq

/-- What the image asks for. -/
def ExecutionImage.reserved (image : ExecutionImage) : Reserved where
  frameArenaBytes := image.storagePlan.frameArenaBytes
  heapArenaBytes := image.storagePlan.heapArenaBytes
  callDepth := image.maximumCallDepth
  tasks := image.maximumCoroutines
  channels := image.maximumChannels
  channelValues := image.maximumChannelValues
  hostRequests := image.externalRootCapacity

/-- What a machine holds. -/
def MachineStorage.reserved (machine : MachineStorage) : Reserved where
  frameArenaBytes := machine.frameArena.length
  heapArenaBytes := machine.heap.arenaBytes
  callDepth := machine.frames
  tasks := machine.tasks
  channels := machine.channels
  channelValues := machine.channelValues
  hostRequests := machine.externalRoots

/-- **Reservations within a profile**, for an artifact with this manifest. -/
structure Reserved.Within (r : Reserved) (manifest : Manifest) (profile : ExecutionProfile) : Prop where
  frameArena : r.frameArenaBytes ≤ profile.frameStorageBytes
  heapArena : r.heapArenaBytes = profile.heapBytes
  requiredHeap : manifest.requiredHeapBytes ≤ r.heapArenaBytes
  callDepth : r.callDepth ≤ profile.maximumCallDepth
  tasks : r.tasks ≤ profile.maximumCoroutines
  channels : r.channels ≤ profile.maximumChannels
  channelValues : r.channelValues ≤ profile.maximumChannelValues
  hostRequests : r.hostRequests ≤ profile.maximumHostRequests

/-! ## The check of the profile -/

theorem checkLimit_eq_ok {required available : Nat} {error : Nat → Nat → AdmissionError} {u : Unit} :
    checkLimit required available error = .ok u ↔ required ≤ available := by
  unfold checkLimit
  split
  · simp; omega
  · simp; omega

theorem checkedU64_eq_ok {e : AdmissionError} {n m : Nat} : checkedU64 e n = .ok m ↔ n < 2 ^ 64 ∧ n = m := by
  unfold checkedU64
  split
  · simp; omega
  · simp; omega

/-- What an accepted profile is known to satisfy. -/
structure Fits (artifact : DecodedArtifact) (profile : ExecutionProfile) : Prop where
  heapSize : 32 ≤ profile.heapBytes ∧ profile.heapBytes % 16 = 0
  heap : artifact.manifest.requiredHeapBytes ≤ profile.heapBytes
  callDepth : artifact.manifest.maximumCallDepth ≤ profile.maximumCallDepth
  coroutines : artifact.manifest.maximumCoroutines ≤ profile.maximumCoroutines
  channels : artifact.manifest.maximumChannels ≤ profile.maximumChannels
  channelValues : artifact.manifest.maximumChannelValues ≤ profile.maximumChannelValues
  hostRequests : artifact.manifest.maximumHostRequests ≤ profile.maximumHostRequests
  /-- The frames of a full stack fit in the declared stack and in the profile. -/
  stack : ∃ largest, largestFrameCharge artifact = .ok largest ∧
    largest * artifact.manifest.maximumCallDepth ≤ artifact.manifest.requiredStackBytes ∧
    largest * artifact.manifest.maximumCallDepth ≤ profile.frameStorageBytes

variable {artifact : DecodedArtifact} {profile : ExecutionProfile} {abi : ManifestAbi}

theorem checkProfile_eq_ok {u : Unit} (h : checkProfile abi artifact profile = .ok u) : Fits artifact profile := by
  simp only [checkProfile, bind_eq_ok] at h
  obtain ⟨_, hsize, _, _, _, _, _, _, _, hheap, _, hdepth, _, htasks, _, hchannels, _, hvalues, h⟩ := h
  obtain ⟨_, hrequests, _, _, _, _, largest, hlargest, _, hreservation, _, hdeclared, h⟩ := h
  obtain ⟨_, rfl⟩ := checkedU64_eq_ok.mp hreservation
  have hsize := demand_eq_ok.mp hsize
  have hdeclared := demand_eq_ok.mp hdeclared
  have hstorage := demand_eq_ok.mp h
  simp only [Bool.not_eq_true', Bool.or_eq_false_iff, decide_eq_false_iff_not, Nat.not_lt,
    bne_eq_false_iff_eq] at hsize hdeclared hstorage
  exact ⟨hsize, checkLimit_eq_ok.mp hheap, checkLimit_eq_ok.mp hdepth, checkLimit_eq_ok.mp htasks,
    checkLimit_eq_ok.mp hchannels, checkLimit_eq_ok.mp hvalues, checkLimit_eq_ok.mp hrequests,
    largest, hlargest, hdeclared, hstorage⟩

/-! ## The plan and the image -/

theorem planStorage_eq_ok {sizes : RuntimeSizes} {manifest : Manifest} {format : HeaderFormat} {hostFailures : Bool}
    {staticBytes typeCount : Nat} {plan : StoragePlan}
    (h : planStorage sizes manifest profile format hostFailures staticBytes typeCount = .ok plan) :
    plan.frameArenaBytes = manifest.requiredStackBytes ∧ plan.heapArenaBytes = profile.heapBytes ∧
      plan.headerFormat = format := by
  iterate 6 obtain ⟨_, _, h⟩ := bind_eq_ok.mp h
  obtain ⟨_, hchecked, h⟩ := bind_eq_ok.mp h
  obtain ⟨_, _, hchecked⟩ := bind_eq_ok.mp hchecked
  cases hchecked
  cases h
  exact ⟨rfl, rfl, rfl⟩

/-- What later proofs use of an admitted image: the functions are the resolved ones, the entry is the
header's, the format is the selected one, and the reservations are the manifest's and the profile's. -/
structure AdmittedImage (artifact : DecodedArtifact) (profile : ExecutionProfile) (image : ExecutionImage) :
    Prop where
  functions : resolveFunctions artifact (Offsets.of artifact) = .ok image.functions
  entry : ∃ start, (Offsets.of artifact).functions[artifact.header.entryModule]? = some start ∧
    image.entry = start + artifact.header.entryFunction ∧ image.entry < image.functions.length
  format : ∃ typeCount, total (Offsets.of artifact).types = .ok typeCount ∧
    image.storagePlan.headerFormat = HeaderFormat.select profile.heapBytes typeCount
  reserved : image.reserved = {
    frameArenaBytes := artifact.manifest.requiredStackBytes
    heapArenaBytes := profile.heapBytes
    callDepth := artifact.manifest.maximumCallDepth
    tasks := artifact.manifest.maximumCoroutines
    channels := artifact.manifest.maximumChannels
    channelValues := artifact.manifest.maximumChannelValues
    hostRequests := artifact.manifest.maximumHostRequests }

variable {image : ExecutionImage}

theorem admit_eq_ok {host : Host} (h : admitWithCapabilities host abi artifact profile = .ok image) :
    Fits artifact profile ∧ AdmittedImage artifact profile image := by
  simp only [admitWithCapabilities, bind_eq_ok] at h
  obtain ⟨_, hprofile, _, _, typeCount, htypes, h⟩ := h
  -- the tables of types, fields, literals and constants
  iterate 11 obtain ⟨_, _, h⟩ := h
  -- dispatch is between the functions and the plan
  obtain ⟨_, hfunctions, _, _, _, _, _, hplan, h⟩ := h
  -- blocks, host references, names and the entry
  obtain ⟨_, _, _, _, _, _, start, hstart, _, hentry, h⟩ := h
  cases h
  have hlt := decide_eq_true_eq.mp (demand_eq_ok.mp hentry)
  obtain ⟨hframe, hheap, hformat⟩ := planStorage_eq_ok hplan
  refine ⟨checkProfile_eq_ok hprofile, hfunctions, ⟨start, demandSome_eq_ok.mp hstart, rfl, hlt⟩,
    ⟨typeCount, htypes, hformat⟩, ?_⟩
  simp only [ExecutionImage.reserved, hframe, hheap]

theorem FrameStack.new_length {capacity : Nat} {arena : FrameStack}
    (h : new capacity = .ok arena) : arena.length = capacity := by
  by_cases hroom : 8 ≤ capacity
  · rw [new, if_pos hroom, writeFree] at h
    split at h <;> cases h <;> rfl
  · rw [new, if_neg hroom] at h
    cases h
    rfl

variable {machine : MachineStorage}

theorem newMachine_arena (h : newMachine image = .ok machine) : image.storagePlan.frameArenaBytes < 2 ^ 32 ∧
      new image.storagePlan.frameArenaBytes = .ok machine.frameArena := by
  simp only [newMachine, bind_eq_ok] at h
  obtain ⟨_, _, _, hsmall, _, harena, _, _, _, _, h⟩ := h
  cases h
  exact ⟨decide_eq_true_eq.mp (demand_eq_ok.mp hsmall), mapError_eq_ok.mp harena⟩

/-- A machine holds what its image asks for. -/
theorem newMachine_reserved (himage : AdmittedImage artifact profile image)
    (h : newMachine image = .ok machine) : machine.reserved = image.reserved := by
  have hlength := new_length (newMachine_arena h).2
  obtain ⟨heap, hheap, h⟩ := bind_eq_ok.mp h
  iterate 4 obtain ⟨_, _, h⟩ := bind_eq_ok.mp h
  cases h
  obtain ⟨typeCount, -, hformat⟩ := himage.format
  have hbytes : image.storagePlan.heapArenaBytes = profile.heapBytes :=
    congrArg Reserved.heapArenaBytes himage.reserved
  have hnew := mapError_eq_ok.mp hheap
  obtain ⟨hlo, h16, hhi⟩ := new_sizes hnew
  have hwidths : image.storagePlan.headerFormat.Fits image.storagePlan.heapArenaBytes := by
    rw [hformat, hbytes]
    exact HeaderFormat.select_fits _ typeCount
  obtain ⟨_, _, hfresh, -, hsize, -⟩ := Heap.new_spec hlo h16 hhi hwidths
  cases hnew.symm.trans hfresh
  simp only [MachineStorage.reserved, ExecutionImage.reserved, hsize]
  rw [← hlength]

/-! ## The bound -/

/-- An admitted image is within the profile when its declared stack is: everything else was checked. -/
theorem AdmittedImage.within_iff (himage : AdmittedImage artifact profile image) (hfits : Fits artifact profile) :
    image.reserved.Within artifact.manifest profile ↔
      artifact.manifest.requiredStackBytes ≤ profile.frameStorageBytes := by
  rw [himage.reserved]
  constructor
  · intro hwithin
    exact hwithin.frameArena
  · intro hstack
    exact ⟨hstack, rfl, hfits.heap, hfits.callDepth, hfits.coroutines, hfits.channels, hfits.channelValues,
      hfits.hostRequests⟩

/-- **Reservations of an admitted image.**  Image and machine stay within the profile exactly when the
stack that the manifest declares does. -/
theorem admitted_within_profile_iff {host : Host} {abi : ManifestAbi} {artifact : DecodedArtifact}
    {profile : ExecutionProfile} {image : ExecutionImage}
    (h : admitWithCapabilities host abi artifact profile = .ok image) :
    (image.reserved.Within artifact.manifest profile ↔
      artifact.manifest.requiredStackBytes ≤ profile.frameStorageBytes) ∧
    ∀ machine, newMachine image = .ok machine →
      (machine.reserved.Within artifact.manifest profile ↔
        artifact.manifest.requiredStackBytes ≤ profile.frameStorageBytes) := by
  obtain ⟨hfits, himage⟩ := admit_eq_ok h
  refine ⟨himage.within_iff hfits, fun machine hmachine => ?_⟩
  rw [newMachine_reserved himage hmachine]
  exact himage.within_iff hfits

/-! ## A program that does nothing -/

/-- One function that has these registers and returns at once; the manifest declares a stack of this size
and a call depth of one. -/
def idleWith (values : List FunctionValue) (stackBytes : Nat) : DecodedArtifact where
  header := {
    runtimeMajor := 1
    runtimeMinor := 0
    semanticFeatures := 0
    entryModule := 0
    entryFunction := 0
    entryArguments := .none }
  manifest := {
    requiredHeapBytes := 32
    requiredStackBytes := stackBytes
    maximumCoroutines := 1
    maximumCallDepth := 1
    maximumHostRequests := 0
    maximumEvents := 0
    maximumBlockCost := 16
    minimumSliceCost := 16
    requiredCapabilities := 0
    optionalCapabilities := 0
    maximumChannels := 0
    maximumChannelValues := 0 }
  capabilities := []
  modules := [{
    nameString := 0
    flags := 1
    semanticHash := []
    strings := [[109]]
    utf16Literals := []
    types := [.functionType { name := 0, flags := 0, result := ⟨0, 0, absentId⟩, parameters := [] }]
    constants := []
    imports := []
    exports := []
    fields := []
    functions := [{
      owner := absentId, name := 0, signature := 0, flags := 0, registerCount := values.length
      parameterCount := 0, firstBlock := 0, blockCount := 1, firstException := 0, exceptionCount := 0
      values := values }]
    blocks := [{ ownerFunction := 0, codeRecord := 0, instructionCount := 1, declaredFixedCost := 1, flags := 0 }]
    code := [{ instructions := [.return_ absentRegister], fixedCost := 1 }]
    exceptions := []
    safepointRoots := [{ function := 0, block := 0, instructionBoundary := 0, references := [] }] }]

def idle (stackBytes : Nat) : DecodedArtifact := idleWith [] stackBytes

/-- A profile that grants no frame storage. -/
def frugalProfile : ExecutionProfile where
  heapBytes := 32
  frameStorageBytes := 0
  maximumCallDepth := 1
  maximumCoroutines := 1
  maximumChannels := 0
  maximumChannelValues := 0
  maximumHostRequests := 0
  maximumEvents := 0
  maximumSliceBudget := 16
  compilerAbi := []
  platformAbi := []
  capabilityMask := 0
  hostReferences := []

/-- A host whose records take one word each and that binds no capability. -/
def plainHost : Host where
  sizes := ⟨8, 8, 8, 8, 8, 8, 8, 8, 8, 8⟩
  isUtf8 := fun _ => true
  fuel := 4
  capabilities := []

theorem idle_within_frugal :
    ∃ image, admitWithCapabilities plainHost ⟨[], []⟩ (idle 0) frugalProfile = .ok image ∧
      image.reserved.Within (idle 0).manifest frugalProfile := by
  have haccepted : admitWithCapabilities plainHost ⟨[], []⟩ (idle 0) frugalProfile = .ok _ := rfl
  exact ⟨_, haccepted, (admitted_within_profile_iff haccepted).1.mpr (by decide)⟩

/-- **The arena can exceed the profile.**  The program passes the decoder's checks and the verifier, and
admission accepts it under a profile that grants no frame storage; its machine holds 4096 bytes. -/
theorem idle_exceeds_frugal :
    (idle 4096).validateLocalTables ⟨1⟩ = .ok () ∧
      (idle 4096).verifyDecoded 10 (fun _ => .ok []) = .ok () ∧
      ∃ image machine, admitWithCapabilities plainHost ⟨[], []⟩ (idle 4096) frugalProfile = .ok image ∧
        newMachine image = .ok machine ∧ machine.reserved.frameArenaBytes = 4096 ∧
        ¬ image.reserved.Within (idle 4096).manifest frugalProfile ∧
        ¬ machine.reserved.Within (idle 4096).manifest frugalProfile := by
  refine ⟨by decide +kernel, by decide +kernel, _, _, rfl, rfl, rfl, ?_, ?_⟩
  · intro hwithin
    exact absurd hwithin.frameArena (by decide)
  · intro hwithin
    exact absurd hwithin.frameArena (by decide)

end Compukter.Image
