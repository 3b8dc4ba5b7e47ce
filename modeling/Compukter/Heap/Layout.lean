/-
Values, faults and storage layout shared by the heap, the collector and the machine.

`Ref32` is the 32-bit reference word: two domain bits over a 30-bit payload.  The zero word is the null
reference and is never a `Ref32`.

`HeaderFormat` is the shape of a block header.  The LEGACY format spends one word on size and
flags and one on the predecessor size; the COMPACT format packs flags, size, predecessor size
and type id into 64 bits, with widths that `select` chooses from the arena size.
-/
import Compukter.Lib.Bits

namespace Compukter

/-- The faults that end a run of the machine. -/
inductive VmFault where
  | invalidResolvedId | invalidValueType | accountingOverflow | invalidStoragePlan
  | corruptLifecycle | reachedUnreachable | unsupportedInstruction | handleExhausted
  | corruptHeap | invalidReference | invalidRootMap
  deriving DecidableEq

/-- The failures that a guest program causes and that it may see as exceptions. -/
inductive GuestTrap where
  | divisionByZero | stackOverflow | negativeArraySize | nullReference | indexOutOfBounds | classCast
  | invalidExitCode | invalidArgument
  deriving DecidableEq

/-- The admission failures that heap construction can report. -/
inductive AdmissionError where
  | residentStorageOverflow | invalidHeapSize (supplied : Nat) | storagePlanOverflow
  deriving DecidableEq

/-! ## References -/

inductive ReferenceDomain where
  | managed | image | external | reserved
  deriving DecidableEq

def ReferenceDomain.index : ReferenceDomain → Nat
  | .managed => 0
  | .image => 1
  | .external => 2
  | .reserved => 3

/-- A non-null reference word. -/
structure Ref32 where
  bits : Nat
  nonzero : bits ≠ 0
  lt : bits < 2 ^ 32
  deriving DecidableEq

namespace Ref32

def domainShift : Nat := 30

def maxPayload : Nat := 2 ^ 30 - 1

def fromBits (bits : Nat) : Option Ref32 :=
  if h : bits ≠ 0 ∧ bits < 2 ^ 32 then some ⟨bits, h.1, h.2⟩ else none

def new (domain : ReferenceDomain) (payload : Nat) : Option Ref32 :=
  if payload > maxPayload then none
  else fromBits ((domain.index <<< domainShift) ||| payload)

def managed (objectHeaderOffset : Nat) : Option Ref32 := new .managed objectHeaderOffset

def domain (r : Ref32) : ReferenceDomain :=
  match r.bits >>> domainShift with
  | 0 => .managed
  | 1 => .image
  | 2 => .external
  | _ => .reserved

def payload (r : Ref32) : Nat := r.bits &&& maxPayload

@[ext] theorem ext {r s : Ref32} (h : r.bits = s.bits) : r = s := by
  cases r
  cases s
  simp_all

theorem payload_eq_mod (r : Ref32) : r.payload = r.bits % 2 ^ 30 :=
  Nat.and_two_pow_sub_one_eq_mod r.bits 30

/-- A managed reference is its own payload. -/
theorem payload_of_managed {r : Ref32} (h : r.domain = .managed) : r.payload = r.bits := by
  have hz : r.bits >>> domainShift = 0 := by
    unfold domain at h
    split at h <;> simp_all
  rw [Nat.shiftRight_eq_div_pow, domainShift] at hz
  rw [payload_eq_mod]
  omega

theorem managed_eq_some {p : Nat} {r : Ref32} : managed p = some r ↔ p ≠ 0 ∧ p ≤ maxPayload ∧ r.bits = p := by
  have hor : (ReferenceDomain.managed.index <<< domainShift) ||| p = p := by
    simp [ReferenceDomain.index]
  rw [managed, new, hor, fromBits]
  constructor
  · intro h
    split at h
    · cases h
    · split at h
      · rename_i hle hp
        cases h
        exact ⟨hp.1, by omega, rfl⟩
      · cases h
  · rintro ⟨h0, hle, hb⟩
    rw [if_neg (by omega), dif_pos ⟨h0, by unfold maxPayload at hle; omega⟩]
    congr 1
    exact ext hb.symm

theorem domain_managed_iff (r : Ref32) : r.domain = .managed ↔ r.bits ≤ maxPayload := by
  have hshift : r.bits >>> domainShift = r.bits / 2 ^ 30 := Nat.shiftRight_eq_div_pow _ _
  unfold domain maxPayload
  constructor
  · intro h
    split at h <;> simp_all
    omega
  · intro h
    have hz : r.bits >>> domainShift = 0 := by omega
    simp [hz]

/-- The managed reference to an in-range object header. -/
theorem exists_managed {p : Nat} (h0 : p ≠ 0) (hp : p ≤ maxPayload) :
    ∃ r, managed p = some r ∧ r.bits = p := by
  have hlt : p < 2 ^ 32 := by unfold maxPayload at hp; omega
  exact ⟨⟨p, h0, hlt⟩, managed_eq_some.mpr ⟨h0, hp, rfl⟩, rfl⟩

end Ref32

/-! ## Block layout -/

def blockHeaderBytes : Nat := 8

def legacyHeapHeaderBytes : Nat := 12

def blockAlignment : Nat := 8

/-- A free block needs the eight-byte allocator header and two four-byte links. -/
def minimumBlockBytes : Nat := 16

/-- `leading_zeros` of a `width`-bit word. -/
def leadingZeros (width x : Nat) : Nat := if x = 0 then width else width - (x.log2 + 1)

inductive HeaderFormat where
  | legacy
  | compact (sizeBits linkBits : Nat)
  deriving DecidableEq

namespace HeaderFormat

def select (heapBytes typeCount : Nat) : HeaderFormat :=
  if heapBytes < 32 ∨ heapBytes % 16 ≠ 0 ∨ heapBytes > Ref32.maxPayload then .legacy
  else
    let units := heapBytes / blockAlignment
    let sizeBits := 64 - leadingZeros 64 units
    let linkBits := 64 - leadingZeros 64 (units - 1)
    if 64 < 3 + sizeBits + linkBits then .legacy
    else
      let typeBits := 64 - (3 + sizeBits + linkBits)
      if typeBits = 0 ∨ typeCount > 1 <<< typeBits then .legacy
      else .compact sizeBits linkBits

/-- The payload of an object starts this far into its block. -/
def bytes : HeaderFormat → Nat
  | .legacy => legacyHeapHeaderBytes
  | .compact _ _ => blockHeaderBytes

/-- The type ids that a header of this format can hold. -/
def typeLimit : HeaderFormat → Nat
  | .legacy => 2 ^ 32
  | .compact sizeBits linkBits => 2 ^ (64 - (3 + sizeBits + linkBits))

/-- The field widths of a compact header hold every size and link of an arena of `heapBytes`
bytes and leave room for a type id; a link in bytes is a 32-bit word. -/
structure Fits (format : HeaderFormat) (heapBytes : Nat) : Prop where
  size : ∀ sizeBits linkBits, format = .compact sizeBits linkBits → heapBytes / 8 < 2 ^ sizeBits
  link : ∀ sizeBits linkBits, format = .compact sizeBits linkBits → heapBytes / 8 ≤ 2 ^ linkBits
  width : ∀ sizeBits linkBits, format = .compact sizeBits linkBits →
    0 < sizeBits ∧ 0 < linkBits ∧ linkBits ≤ 29 ∧ 3 + sizeBits + linkBits < 64

theorem legacy_fits (heapBytes : Nat) : Fits .legacy heapBytes :=
  ⟨nofun, nofun, nofun⟩

/-- The values that the link field of a header can hold. -/
def Tag : HeaderFormat → Nat → Prop
  | .legacy, v => v < 2 ^ 32
  | .compact _ linkBits, v => v % 8 = 0 ∧ v / 8 < 2 ^ linkBits

variable {format : HeaderFormat}

theorem Tag.lt {heapBytes v : Nat} (h : format.Tag v) (hfits : format.Fits heapBytes) : v < 2 ^ 32 := by
  cases format with
  | legacy => exact h
  | compact sb lb =>
    obtain ⟨-, -, hlb, -⟩ := hfits.width sb lb rfl
    have hpow : 2 ^ lb ≤ 2 ^ 29 := Nat.pow_le_pow_right (by decide) hlb
    have hlt := h.2
    omega

/-- The size of a block of the arena can be stored as a boundary tag. -/
theorem Fits.tag {heapBytes v : Nat} (hfits : format.Fits heapBytes)
    (hsmall : heapBytes < 2 ^ 30) (h16 : heapBytes % 16 = 0) (hv : v % 8 = 0) (hlt : v < heapBytes) : format.Tag v := by
  cases format with
  | legacy =>
    show v < 2 ^ 32
    omega
  | compact sb lb =>
    have hlink := hfits.link sb lb rfl
    exact ⟨hv, by omega⟩

end HeaderFormat

theorem sub_leadingZeros {x : Nat} (h0 : x ≠ 0) (hx : x < 2 ^ 64) : 64 - leadingZeros 64 x = x.log2 + 1 := by
  have hlog : x.log2 < 64 := (Nat.log2_lt h0).mpr hx
  rw [leadingZeros, if_neg h0]
  omega

theorem HeaderFormat.select_fits (heapBytes typeCount : Nat) : (select heapBytes typeCount).Fits heapBytes := by
  unfold select
  split
  · exact legacy_fits _
  rename_i hvalid
  simp only [not_or, not_lt, ne_eq, not_not] at hvalid
  obtain ⟨hlo, -, hhi⟩ := hvalid
  -- both widths come from the bit length of a number of allocation units
  have hunits : heapBytes / blockAlignment < 2 ^ 64 := by
    unfold Ref32.maxPayload at hhi
    unfold blockAlignment
    omega
  have hu1 : heapBytes / blockAlignment ≠ 0 := by unfold blockAlignment; omega
  have hu2 : heapBytes / blockAlignment - 1 ≠ 0 := by unfold blockAlignment; omega
  simp only [sub_leadingZeros hu1 hunits, sub_leadingZeros hu2 (by omega)]
  split
  · exact legacy_fits _
  split
  · exact legacy_fits _
  rename_i hwidth htype
  refine ⟨fun sb lb h => ?_, fun sb lb h => ?_, fun sb lb h => ?_⟩
  · cases h
    exact Nat.lt_log2_self
  · cases h
    have := @Nat.lt_log2_self (heapBytes / blockAlignment - 1)
    change heapBytes / blockAlignment ≤ _
    omega
  · cases h
    have hlog : (heapBytes / blockAlignment - 1).log2 < 29 := (Nat.log2_lt hu2).mpr (by
      unfold Ref32.maxPayload at hhi
      unfold blockAlignment
      omega)
    omega

/-- Type ids below the selected count fit the type field. -/
theorem HeaderFormat.select_typeLimit {heapBytes typeCount t : Nat} (ht : t < typeCount)
    (h32 : t < 2 ^ 32) : t < (select heapBytes typeCount).typeLimit := by
  unfold select
  split
  · exact h32
  dsimp only
  split
  · exact h32
  split
  · exact h32
  · rename_i htype
    rw [not_or, not_lt, Nat.one_shiftLeft] at htype
    exact Nat.lt_of_lt_of_le ht htype.2

end Compukter
