/-
Strings: hashing, equality and order.

The code units of a string lie in a literal of the image, or in a block of the heap with one or two bytes for
each.  `Text` says which units a value stands for, `codeUnit` reads them one at a time.

The three share one loop: a unit of the charge pays for eight code units, and a slice ends with its budget.
`Reading` is what holds between slices: what the loop has seen agrees with the units.
-/
import Compukter.Heap.Run
import Compukter.Gc.Roots
import Mathlib.Data.Nat.Digits.Defs

namespace Compukter

open Bytes Fallible Tiling Heap List

/-! ## Backings -/

inductive StringEncoding where
  | latin1 | utf16
  deriving DecidableEq

def StringEncoding.elementBytes : StringEncoding → Nat
  | .latin1 => 1
  | .utf16 => 2

/-- The byte that stands for the encoding in the header of a string. -/
def StringEncoding.tag : StringEncoding → UInt8
  | .latin1 => 0
  | .utf16 => 1

/-- A literal with its bytes in the artifact. -/
structure ResolvedLiteral where
  bytes : List UInt8
  codeUnits : Nat
  deriving DecidableEq

inductive StringBacking where
  | inline (units : List Nat) (start length : Nat)
  | literal (literal : ResolvedLiteral)
  | typeName (index length : Nat)
  | managed (reference : Ref32) (length : Nat) (encoding : StringEncoding)
  | charArray (reference : Ref32) (length : Nat)
  deriving DecidableEq

def StringBacking.length : StringBacking → Nat
  | .inline _ _ length | .typeName _ length | .managed _ length _ | .charArray _ length => length
  | .literal l => l.codeUnits

inductive TextError where
  | trap (trap : GuestTrap)
  | fault (fault : VmFault)
  | exhausted (used blockBytes requested : Nat) (collectionAttempted : Bool)
  /-- Not of the source: an index past the end of a slice, where the code panics. -/
  | panic
  deriving DecidableEq

/-- The parts of the image that strings read. -/
structure TextImage where
  literals : List ResolvedLiteral
  stringTypeId : Option Nat
  typeNames : List (List Nat)

def TextImage.literalReference (image : TextImage) (value : Ref32) : Option ResolvedLiteral :=
  if value.domain = .image then image.literals[value.payload]? else none

/-- `map_err(TextError::Fault)`. -/
def orFault {α : Type} (x : Except VmFault α) : Except TextError α := x.mapError .fault

def backing (image : TextImage) (heap : Heap) (value : RuntimeValue) : Except TextError StringBacking :=
  match value with
  | .reference reference =>
    match image.literalReference reference with
    | some literal => .ok (.literal literal)
    | none => do
      let ty ← orFault (heap.managedType reference)
      let stringType ← demandSome image.stringTypeId (.fault .invalidResolvedId)
      demand (ty == stringType) (.fault .invalidReference)
      let header ← orFault (heap.readPayload reference 0 8)
      let length := ofBytesLE (header.take 4)
      if header.getD 4 2 = 0 then return .managed reference length .latin1
      else if header.getD 4 2 = 1 then return .managed reference length .utf16
      else throw (.fault .corruptHeap)
  | .null => .error (.trap .nullReference)
  | _ => .error (.fault .invalidValueType)

def codeUnit (image : TextImage) (heap : Heap) (value : StringBacking) (index : Nat) : Except TextError Nat :=
  match value with
  | .inline units start _ => demandSome units[start + index]? .panic
  | .typeName ty _ => demandSome ((image.typeNames[ty]?).bind (·[index]?)) (.fault .invalidResolvedId)
  | .literal literal => do
    let low ← demandSome literal.bytes[index * 2]? .panic
    let high ← demandSome literal.bytes[index * 2 + 1]? .panic
    return low.toNat + 256 * high.toNat
  | .managed reference _ .latin1 => do
    let bytes ← orFault (heap.readPayload reference (8 + index) 1)
    return ofBytesLE (bytes.take 1)
  | .managed reference _ .utf16 | .charArray reference _ => do
    let bytes ← orFault (heap.readPayload reference (8 + index * 2) 2)
    return ofBytesLE (bytes.take 2)

/-! ## The units of a string -/

/-- The code units from `start` on. -/
def unitsAt (m : Memory) (start length : Nat) (encoding : StringEncoding) : List Nat :=
  (List.range length).map fun i => readLE m (start + i * encoding.elementBytes) encoding.elementBytes

def ResolvedLiteral.units (literal : ResolvedLiteral) : List Nat :=
  (List.range literal.codeUnits).map fun i =>
    (literal.bytes.getD (i * 2) 0).toNat + 256 * (literal.bytes.getD (i * 2 + 1) 0).toNat

/-- **The units that a value stands for.**  A literal has two bytes for each; a string of the heap has its length,
its encoding and then its units. -/
inductive Text (image : TextImage) (heap : Heap) (bs : List Block) : RuntimeValue → List Nat → Prop where
  | literal {reference : Ref32} {literal : ResolvedLiteral} : image.literalReference reference = some literal →
      literal.bytes.length = literal.codeUnits * 2 → literal.codeUnits < 2 ^ 31 →
      Text image heap bs (.reference reference) literal.units
  | managed {reference : Ref32} {o t n length : Nat} {m : Bool} {encoding : StringEncoding} :
      image.stringTypeId = some t → reference.bits = o + 8 → Held bs o (.live t m) n →
      8 + length * encoding.elementBytes ≤ n - heap.payloadOffset →
      readLE heap.arena (o + heap.payloadOffset) 4 = length →
      heap.arena (o + heap.payloadOffset + 4) = encoding.tag →
      Text image heap bs (.reference reference) (unitsAt heap.arena (o + heap.payloadOffset + 8) length encoding)

/-- The backing reads as the units. -/
structure Spells (image : TextImage) (heap : Heap) (value : StringBacking) (units : List Nat) : Prop where
  length : value.length = units.length
  unit : ∀ i u, units[i]? = some u → codeUnit image heap value i = .ok u

variable {bs : List Block}

/-- The first bytes of a payload read, as a number. -/
theorem Held.readNumber {g : Grade} {heap : Heap} {reference : Ref32} {o t n : Nat}
    {m : Bool} (hheld : Held bs o (.live t m) n) (hw : Sound g heap bs) (hbits : reference.bits = o + 8)
    (offset length : Nat) (hle : offset + length ≤ n - heap.payloadOffset) (h8 : length ≤ 8) :
    ∃ bytes, orFault (heap.readPayload reference offset length) = .ok bytes ∧
      ofBytesLE (bytes.take length) = readLE heap.arena (o + heap.payloadOffset + offset) length := by
  refine ⟨_, by rw [hheld.readPayload hw.rep hbits _ _ hle h8]; rfl, ?_⟩
  rw [take_left' (by simp)]
  exact ofBytesLE_range heap.arena _ length

/-- **Every string has a backing that reads as its units.** -/
theorem Text.spells {image : TextImage} {heap : Heap} {value : RuntimeValue}
    {units : List Nat} (h : Text image heap bs value units) (hw : WellFormed heap bs) :
    ∃ b, backing image heap value = .ok b ∧ Spells image heap b units ∧ units.length < 2 ^ 31 := by
  cases h with
  | @literal _ literal href _ hsmall =>
    refine ⟨.literal literal, ?_, ⟨?_, fun i u hu => ?_⟩, ?_⟩
    · unfold backing
      dsimp only
      rw [href]
    · rw [ResolvedLiteral.units, length_map, length_range]
      rfl
    · rw [ResolvedLiteral.units, getElem?_map] at hu
      obtain ⟨j, hj, rfl⟩ := Option.map_eq_some_iff.mp hu
      obtain ⟨hi, rfl⟩ := List.getElem?_eq_some_iff.mp hj
      rw [length_range] at hi
      rw [getElem_range, codeUnit, getD_eq_getElem?_getD, getD_eq_getElem?_getD,
        getElem?_eq_getElem (by omega), getElem?_eq_getElem (by omega)]
      rfl
    · rw [ResolvedLiteral.units, length_map, length_range]
      exact hsmall
  | @managed reference o t _ length m encoding htype hbits hheld hroom hlength htag =>
    have hlive := hheld.liveBlock hw.rep hbits
    have hlower : length ≤ length * encoding.elementBytes :=
      Nat.le_mul_of_pos_right _ (by cases encoding <;> decide)
    obtain ⟨-, hend, htotal⟩ := hheld.span hw.rep 8 _ hroom
    have hsmall := hw.rep.small
    refine ⟨.managed reference length encoding, ?_, ⟨?_, fun i u hu => ?_⟩, ?_⟩
    · have hliteral : image.literalReference reference = none := by
        obtain ⟨-, f, hview⟩ := hheld
        obtain ⟨pre, v, _, rfl, rfl⟩ := view_split hview
        rw [TextImage.literalReference, (liveBlock_ok hw.rep rfl hbits).2, if_neg (by decide)]
      have hmanaged : orFault (heap.managedType reference) = .ok t := by
        unfold Heap.managedType
        rw [hlive, ok_bind]
        obtain ⟨-, f, v, hplace⟩ := hheld
        rw [hw.rep.readType hplace rfl (hw.clean trivial _ (mem_of_mem_place hplace) t m rfl).2]
        rfl
      obtain ⟨header, hread, -⟩ := Held.readNumber hheld hw hbits 0 8 (by omega) (Nat.le_refl 8)
      have hbytes : header = (range 8).map fun i => heap.arena (o + heap.payloadOffset + i) := by
        rw [hheld.readPayload hw.rep hbits 0 8 (by omega) (Nat.le_refl 8)] at hread
        cases hread
        rfl
      have hfirst : ofBytesLE (header.take 4) = length := by
        rw [hbytes, ← map_take, take_range, ofBytesLE_range, ← hlength]
        rfl
      have hfifth : header.getD 4 2 = encoding.tag := by
        rw [hbytes, ← htag]
        rfl
      unfold backing
      dsimp only
      rw [hliteral]
      rw [hmanaged, ok_bind, htype, hread]
      simp only [demandSome, ok_bind, beq_self_eq_true, demand, if_true]
      rw [hfirst, hfifth]
      cases encoding <;> rfl
    · rw [unitsAt, length_map, length_range]
      rfl
    · rw [unitsAt, getElem?_map] at hu
      obtain ⟨j, hj, rfl⟩ := Option.map_eq_some_iff.mp hu
      obtain ⟨hi, rfl⟩ := List.getElem?_eq_some_iff.mp hj
      rw [length_range] at hi
      rw [getElem_range]
      have hlt : i * encoding.elementBytes + encoding.elementBytes ≤ length * encoding.elementBytes := by
        rw [← Nat.succ_mul]
        exact Nat.mul_le_mul_right _ hi
      obtain ⟨_, hread, hvalue⟩ := Held.readNumber hheld hw hbits (8 + i * encoding.elementBytes)
        encoding.elementBytes (by omega) (by cases encoding <;> decide)
      rw [← Nat.add_assoc] at hvalue
      cases encoding with
      | latin1 =>
        rw [StringEncoding.elementBytes, Nat.mul_one] at hread hvalue
        rw [codeUnit, hread, ok_bind, hvalue, StringEncoding.elementBytes, Nat.mul_one]
        rfl
      | utf16 =>
        rw [StringEncoding.elementBytes] at hread hvalue
        rw [codeUnit, hread, ok_bind, hvalue]
        rfl
    · rw [unitsAt, length_map, length_range]
      omega

/-! ## The loop over the units -/

section Scan

variable {α : Type} (body : Nat → α → Except TextError (α ⊕ RuntimeValue))

/-- The units that one unit of the charge pays for; the body may end the loop with a result. -/
def scanChunk : Nat → Nat → α → Except TextError (Nat × (α ⊕ RuntimeValue))
  | 0, index, a => .ok (index, .inl a)
  | count + 1, index, a => do
    match ← body index a with
    | .inl a => scanChunk count (index + 1) a
    | .inr v => return (index, .inr v)

/-- `while index < limit && used < budget`, eight units at a time. -/
def scan (limit : Nat) : Nat → Nat → α → Except TextError (Nat × Nat × (α ⊕ RuntimeValue))
  | 0, index, a => .ok (0, index, .inl a)
  | budget + 1, index, a =>
    if index < limit then do
      match ← scanChunk body (min (index + 8) limit - index) index a with
      | (index, .inl a) =>
        let (used, index, r) ← scan limit budget index a
        return (used + 1, index, r)
      | (index, .inr v) => return (1, index, .inr v)
    else .ok (0, index, .inl a)

variable {body} {limit : Nat} {Inv : Nat → α → Prop} {Out : RuntimeValue → Prop}

variable (hbody : ∀ i a, i < limit → Inv i a → (∃ a', body i a = .ok (.inl a') ∧ Inv (i + 1) a') ∨
  ∃ v, body i a = .ok (.inr v) ∧ Out v)
include hbody

theorem scanChunk_spec {count index : Nat} {a : α} (hle : index + count ≤ limit) (h : Inv index a) :
    (∃ a', scanChunk body count index a = .ok (index + count, .inl a') ∧ Inv (index + count) a') ∨
      ∃ i v, scanChunk body count index a = .ok (i, .inr v) ∧ Out v := by
  induction count generalizing index a with
  | zero => exact .inl ⟨a, rfl, h⟩
  | succ _ ih =>
    rcases hbody index a (by omega) h with ⟨a', hstep, h'⟩ | ⟨v, hstep, hv⟩
    · rcases ih (by omega) h' with ⟨a'', hrest, h''⟩ | ⟨i, v, hrest, hv⟩
      · rw [Nat.add_right_comm] at hrest h''
        exact .inl ⟨a'', by rw [scanChunk, hstep, ok_bind]; exact hrest, h''⟩
      · exact .inr ⟨i, v, by rw [scanChunk, hstep, ok_bind]; exact hrest, hv⟩
    · exact .inr ⟨index, v, by rw [scanChunk, hstep]; rfl, hv⟩

/-- **A slice of the loop** keeps what its body keeps; it stops early, at the limit or with its budget used. -/
theorem scan_spec (budget : Nat) {index : Nat} {a : α} (hle : index ≤ limit) (h : Inv index a) :
    (∃ used i a', scan body limit budget index a = .ok (used, i, .inl a') ∧ Inv i a' ∧
      (i = limit ∨ i = index + 8 * budget ∧ i < limit)) ∨
      ∃ used i v, scan body limit budget index a = .ok (used, i, .inr v) ∧ Out v := by
  induction budget generalizing index a with
  | zero => exact .inl ⟨0, index, a, rfl, h, by omega⟩
  | succ _ ih =>
    by_cases hmore : index < limit
    · rw [scan, if_pos hmore]
      have hwithin : index + (min (index + 8) limit - index) ≤ limit := by omega
      rcases scanChunk_spec hbody hwithin h with ⟨a', hchunk, h'⟩ | ⟨i, v, hchunk, hv⟩
      · rw [hchunk, ok_bind]
        dsimp only
        rcases ih hwithin h' with ⟨used, i, a'', hrest, h'', hi⟩ | ⟨used, i, v, hrest, hv⟩
        · exact .inl ⟨used + 1, i, a'', by rw [hrest]; rfl, h'', by omega⟩
        · exact .inr ⟨used + 1, i, v, by rw [hrest]; rfl, hv⟩
      · exact .inr ⟨1, i, v, by rw [hchunk]; rfl, hv⟩
    · rw [scan, if_neg hmore]
      exact .inl ⟨0, index, a, rfl, h, by omega⟩

end Scan

/-! ## Hash, equality and order -/

inductive PendingText where
  | hash (value : StringBacking) (index : Nat) (hash : Int) (destination : Nat)
  | equals (lhs rhs : StringBacking) (index : Nat) (destination : Nat)
  | compare (lhs rhs : StringBacking) (index : Nat) (destination : Nat)
  deriving DecidableEq

/-- A loop over one or two strings. -/
structure TextSlice where
  pending : PendingText
  used : Nat
  result : Option (Nat × RuntimeValue)

namespace PendingText

variable (image : TextImage) (heap : Heap)

def newHash (value : RuntimeValue) (destination : Nat) :
    Except TextError PendingText := do
  return .hash (← backing image heap value) 0 0 destination

def newEquals (lhs rhs : RuntimeValue) (destination : Nat) :
    Except TextError PendingText := do
  return .equals (← backing image heap lhs) (← backing image heap rhs) 0 destination

def newCompare (lhs rhs : RuntimeValue) (destination : Nat) :
    Except TextError PendingText := do
  return .compare (← backing image heap lhs) (← backing image heap rhs) 0 destination

/-- `wrapping_mul(31)`, then `wrapping_add`. -/
def hashBody (value : StringBacking) (index : Nat) (hash : Int) :
    Except TextError (Int ⊕ RuntimeValue) := do
  return .inl (((hash * 31).bmod (2 ^ 32) + (← codeUnit image heap value index)).bmod (2 ^ 32))

def equalsBody (lhs rhs : StringBacking) (index : Nat) (_ : Unit) :
    Except TextError (Unit ⊕ RuntimeValue) := do
  let left ← codeUnit image heap lhs index
  let right ← codeUnit image heap rhs index
  return if left ≠ right then .inr (.bool false) else .inl ()

def compareBody (lhs rhs : StringBacking) (index : Nat) (_ : Unit) :
    Except TextError (Unit ⊕ RuntimeValue) := do
  let left ← codeUnit image heap lhs index
  let right ← codeUnit image heap rhs index
  return if left ≠ right then .inr (.i32 (left - right)) else .inl ()

def resume (budget : Nat) : PendingText → Except TextError TextSlice
  | .hash value index digest destination => do
    let (used, index, r) ← scan (hashBody image heap value) value.length budget index digest
    match r with
    | .inl digest => return ⟨.hash value index digest destination, used,
        if index = value.length then some (destination, .i32 digest) else none⟩
    | .inr v => return ⟨.hash value index digest destination, used, some (destination, v)⟩
  | .equals lhs rhs index destination =>
    if lhs.length ≠ rhs.length then .ok ⟨.equals lhs rhs index destination, 0, some (destination, .bool false)⟩
    else do
      let (used, index, r) ← scan (equalsBody image heap lhs rhs) lhs.length budget index ()
      match r with
      | .inl _ => return ⟨.equals lhs rhs index destination, used,
          if index = lhs.length then some (destination, .bool true) else none⟩
      | .inr v => return ⟨.equals lhs rhs index destination, used, some (destination, v)⟩
  | .compare lhs rhs index destination => do
    let common := min lhs.length rhs.length
    let (used, index, r) ← scan (compareBody image heap lhs rhs) common budget index ()
    match r with
    | .inl _ => return ⟨.compare lhs rhs index destination, used,
        if index = common then some (destination, .i32 (signed 32 lhs.length - signed 32 rhs.length)) else none⟩
    | .inr v => return ⟨.compare lhs rhs index destination, used, some (destination, v)⟩

/-- One slice after the other, until there is a result. -/
def resumes (image : TextImage) (heap : Heap) :
    PendingText → List Nat → Except TextError (PendingText ⊕ (Nat × RuntimeValue))
  | p, [] => .ok (.inl p)
  | p, budget :: budgets => do
    let slice ← p.resume image heap budget
    match slice.result with
    | some result => return .inr result
    | none => resumes image heap slice.pending budgets

end PendingText

open PendingText

/-- The base-31 polynomial of the units, in 32 bits. -/
def hashUnits (units : List Nat) : Int := ((Nat.ofDigits 31 units.reverse : Nat) : Int).bmod (2 ^ 32)

/-- The difference at the first place where the units differ, or that of the lengths. -/
def compareUnits : List Nat → List Nat → Int
  | u :: us, v :: vs => if u = v then compareUnits us vs else u - v
  | us, vs => us.length - vs.length

theorem compareUnits_nil_right (us : List Nat) : compareUnits us [] = us.length := by
  cases us <;> simp [compareUnits]

theorem compareUnits_nil_left (vs : List Nat) : compareUnits [] vs = -vs.length := by
  cases vs <;> simp [compareUnits]

theorem compareUnits_swap (us vs : List Nat) : compareUnits vs us = -compareUnits us vs := by
  induction us generalizing vs with
  | nil => cases vs <;> simp [compareUnits]
  | cons u _ ih =>
    cases vs with
    | nil => simp [compareUnits]
    | cons v =>
      rw [compareUnits, compareUnits]
      by_cases heq : u = v
      · rw [if_pos heq.symm, if_pos heq, ih]
      · omega

variable {us vs : List Nat}

theorem compareUnits_eq_zero : compareUnits us vs = 0 ↔ us = vs := by
  induction us generalizing vs with
  | nil => cases vs <;> simp [compareUnits]; omega
  | cons u _ ih =>
    cases vs with
    | nil => simp [compareUnits]; omega
    | cons v =>
      rw [compareUnits, cons_eq_cons]
      by_cases heq : u = v
      · rw [if_pos heq, ih]
        exact (and_iff_right heq).symm
      · exact iff_of_false (by omega) fun h => heq h.1

/-- **The sign is that of the lexicographic order.** -/
theorem compareUnits_neg : compareUnits us vs < 0 ↔ us < vs := by
  induction us generalizing vs with
  | nil => cases vs <;> simp [compareUnits]; omega
  | cons u _ ih =>
    cases vs with
    | nil => simp [compareUnits]; omega
    | cons v =>
      rw [compareUnits, cons_lt_cons_iff]
      by_cases heq : u = v
      · rw [if_pos heq, ih]
        constructor
        · exact fun h => .inr ⟨heq, h⟩
        · rintro (h | h)
          · omega
          · exact h.2
      · constructor
        · exact fun h => .inl (by omega)
        · rintro (h | h)
          · omega
          · exact absurd h.1 heq

theorem compareUnits_pos : 0 < compareUnits us vs ↔ vs < us := by
  rw [← compareUnits_neg, compareUnits_swap us vs]
  omega

theorem hashUnits_nil : hashUnits [] = 0 := by decide

theorem hashUnits_concat (units : List Nat) (u : Nat) :
    hashUnits (units ++ [u]) = ((hashUnits units * 31).bmod (2 ^ 32) + u).bmod (2 ^ 32) := by
  unfold hashUnits
  rw [reverse_append, reverse_singleton, singleton_append, Nat.ofDigits_cons, Int.bmod_mul_bmod,
    Int.bmod_add_bmod]
  congr 1
  push_cast
  ring

/-! ## What the loops have seen -/

section Reading

variable {image : TextImage} {heap : Heap} {value lhs rhs : StringBacking} {us vs : List Nat} {index destination : Nat}

/-- **Between slices**: the operation and the result it is going to have. -/
inductive Reading (image : TextImage) (heap : Heap) : PendingText → Nat → Nat → RuntimeValue → Prop where
  | hash {value : StringBacking} {us : List Nat} {index destination : Nat} : Spells image heap value us →
      index ≤ us.length → Reading image heap (.hash value index (hashUnits (us.take index)) destination)
        (us.length - index) destination (.i32 (hashUnits us))
  | equals {lhs rhs : StringBacking} {us vs : List Nat} {index destination : Nat} : Spells image heap lhs us →
      Spells image heap rhs vs → index ≤ us.length → (us = vs ↔ us.drop index = vs.drop index) →
      Reading image heap (.equals lhs rhs index destination) (us.length - index) destination (.bool (us = vs))
  | compare {lhs rhs : StringBacking} {us vs : List Nat} {index destination : Nat} : Spells image heap lhs us →
      Spells image heap rhs vs → us.length < 2 ^ 31 → vs.length < 2 ^ 31 → index ≤ min us.length vs.length →
      compareUnits us vs = compareUnits (us.drop index) (vs.drop index) →
      Reading image heap (.compare lhs rhs index destination) (min us.length vs.length - index) destination
        (.i32 (compareUnits us vs))

theorem signed_small {n : Nat} (h : n < 2 ^ 31) : signed 32 n = n := if_pos h

theorem hashBody_spec (hvalue : Spells image heap value us) (i : Nat) (a : Int) (hi : i < us.length)
    (ha : a = hashUnits (us.take i)) :
    (∃ a', hashBody image heap value i a = .ok (.inl a') ∧ a' = hashUnits (us.take (i + 1))) ∨
      ∃ v, hashBody image heap value i a = .ok (.inr v) ∧ False := by
  refine .inl ⟨_, ?_, rfl⟩
  rw [hashBody, hvalue.unit i us[i] (getElem?_eq_getElem hi), take_succ_eq_append_getElem hi, hashUnits_concat, ha]
  rfl

section Two

variable (hlhs : Spells image heap lhs us) (hrhs : Spells image heap rhs vs) (i : Nat) (a : Unit)
include hlhs hrhs

theorem equalsBody_spec (hlength : us.length = vs.length) (hi : i < us.length)
    (hsame : us = vs ↔ us.drop i = vs.drop i) :
    (∃ a', equalsBody image heap lhs rhs i a = .ok (.inl a') ∧ (us = vs ↔ us.drop (i + 1) = vs.drop (i + 1))) ∨
      ∃ v, equalsBody image heap lhs rhs i a = .ok (.inr v) ∧ v = .bool (us = vs) := by
  have hj : i < vs.length := hlength ▸ hi
  rw [drop_eq_getElem_cons hi, drop_eq_getElem_cons hj, cons_eq_cons] at hsame
  rw [equalsBody, hlhs.unit i _ (getElem?_eq_getElem hi), hrhs.unit i _ (getElem?_eq_getElem hj), ok_bind, ok_bind]
  by_cases hunit : us[i] = vs[i]
  · exact .inl ⟨(), by rw [if_neg (not_not.mpr hunit)]; rfl, hsame.trans (and_iff_right hunit)⟩
  · refine .inr ⟨.bool false, by rw [if_pos hunit]; rfl, ?_⟩
    rw [decide_eq_false fun heq => hunit (hsame.mp heq).1]

theorem compareBody_spec (hi : i < min us.length vs.length)
    (hsame : compareUnits us vs = compareUnits (us.drop i) (vs.drop i)) :
    (∃ a', compareBody image heap lhs rhs i a = .ok (.inl a') ∧
      compareUnits us vs = compareUnits (us.drop (i + 1)) (vs.drop (i + 1))) ∨
      ∃ v, compareBody image heap lhs rhs i a = .ok (.inr v) ∧ v = .i32 (compareUnits us vs) := by
  have hiu : i < us.length := by omega
  have hiv : i < vs.length := by omega
  rw [drop_eq_getElem_cons hiu, drop_eq_getElem_cons hiv, compareUnits] at hsame
  rw [compareBody, hlhs.unit i _ (getElem?_eq_getElem hiu), hrhs.unit i _ (getElem?_eq_getElem hiv), ok_bind, ok_bind]
  by_cases hunit : us[i] = vs[i]
  · rw [if_pos hunit] at hsame
    exact .inl ⟨(), by rw [if_neg (not_not.mpr hunit)]; rfl, hsame⟩
  · rw [if_neg hunit] at hsame
    exact .inr ⟨_, by rw [if_pos hunit]; rfl, by rw [hsame]⟩

end Two

variable {p : PendingText} {left : Nat} {answer : RuntimeValue} (h : Reading image heap p left destination answer)
include h

/-- **One slice** gives the result, or has used its budget and keeps the invariant. -/
theorem Reading.resume (budget : Nat) :
    ∃ p' used, p.resume image heap budget = .ok ⟨p', used, some (destination, answer)⟩ ∨
      (p.resume image heap budget = .ok ⟨p', used, none⟩ ∧ 8 * budget < left ∧
        Reading image heap p' (left - 8 * budget) destination answer) := by
  cases h with
  | @hash _ _ _ _ hvalue hle =>
    unfold PendingText.resume
    dsimp only
    rw [hvalue.length]
    rcases scan_spec (hashBody_spec hvalue) budget hle rfl with ⟨used, i, a', hscan, ha', hi⟩ | ⟨_, _, _, -, hfalse⟩
    · rw [hscan, ok_bind]
      dsimp only
      rw [ha']
      rcases hi with rfl | ⟨rfl, hlt⟩
      · rw [if_pos rfl, take_length]
        exact ⟨_, _, .inl rfl⟩
      · rw [if_neg (Nat.ne_of_lt hlt), Nat.sub_sub]
        exact ⟨_, _, .inr ⟨rfl, by omega, .hash hvalue (Nat.le_of_lt hlt)⟩⟩
    · exact hfalse.elim
  | @equals _ _ us vs _ _ hlhs hrhs hle hsame =>
    unfold PendingText.resume
    dsimp only
    rw [hlhs.length, hrhs.length]
    by_cases hlength : us.length = vs.length
    · rw [if_neg (not_not.mpr hlength)]
      rcases scan_spec (fun i a => equalsBody_spec hlhs hrhs i a hlength) budget hle hsame with
        ⟨used, i, _, hscan, hsame', hi⟩ | ⟨_, _, v, hscan, rfl⟩
      · rw [hscan, ok_bind]
        dsimp only
        rcases hi with rfl | ⟨rfl, hlt⟩
        · rw [drop_length, drop_eq_nil_of_le (Nat.le_of_eq hlength.symm)] at hsame'
          rw [if_pos rfl, decide_eq_true (hsame'.mpr rfl)]
          exact ⟨_, _, .inl rfl⟩
        · rw [if_neg (Nat.ne_of_lt hlt), Nat.sub_sub]
          exact ⟨_, _, .inr ⟨rfl, by omega, .equals hlhs hrhs (Nat.le_of_lt hlt) hsame'⟩⟩
      · exact ⟨_, _, .inl (by rw [hscan]; rfl)⟩
    · rw [if_pos hlength, decide_eq_false fun heq => hlength (congrArg length heq)]
      exact ⟨_, _, .inl rfl⟩
  | @compare _ _ us vs _ _ hlhs hrhs hus hvs hle hsame =>
    unfold PendingText.resume
    dsimp only
    rw [hlhs.length, hrhs.length, signed_small hus, signed_small hvs]
    rcases scan_spec (compareBody_spec hlhs hrhs) budget hle hsame with
      ⟨used, i, _, hscan, hsame', hi⟩ | ⟨_, _, v, hscan, rfl⟩
    · rw [hscan, ok_bind]
      dsimp only
      rcases hi with rfl | ⟨rfl, hlt⟩
      · -- one of the strings has ended
        have hlengths : compareUnits us vs = us.length - vs.length := by
          rw [hsame']
          rcases Nat.le_total us.length vs.length with hle | hle
          · rw [Nat.min_eq_left hle, drop_length, compareUnits_nil_left, length_drop]
            omega
          · rw [Nat.min_eq_right hle, drop_length, compareUnits_nil_right, length_drop]
            omega
        rw [if_pos rfl, hlengths]
        exact ⟨_, _, .inl rfl⟩
      · rw [if_neg (Nat.ne_of_lt hlt), Nat.sub_sub]
        exact ⟨_, _, .inr ⟨rfl, by omega, .compare hlhs hrhs hus hvs (Nat.le_of_lt hlt) hsame'⟩⟩
    · exact ⟨_, _, .inl (by rw [hscan]; rfl)⟩

/-- **All slices**: the result, or all budgets are used and units are left. -/
theorem Reading.resumes (budgets : List Nat) : p.resumes image heap budgets = .ok (.inr (destination, answer)) ∨
      ∃ p', p.resumes image heap budgets = .ok (.inl p') ∧ (budgets ≠ [] → 8 * budgets.sum < left) := by
  induction budgets generalizing p left with
  | nil => exact .inr ⟨p, rfl, fun hne => absurd rfl hne⟩
  | cons budget budgets ih =>
    obtain ⟨p', used, hdone | ⟨hslice, hless, h'⟩⟩ := h.resume budget
    · exact .inl (by rw [resumes, hdone]; rfl)
    · have hrest : p.resumes image heap (budget :: budgets) = p'.resumes image heap budgets := by
        rw [resumes, hslice]
        rfl
      rw [hrest]
      refine (ih h').imp_right fun ⟨p'', hp'', hmore⟩ => ⟨p'', hp'', fun _ => ?_⟩
      rw [sum_cons]
      cases budgets with
      | nil =>
        rw [sum_nil]
        omega
      | cons =>
        have := hmore (cons_ne_nil _ _)
        omega

end Reading

/-- **Equality, order and hash are those of the code units**, whatever the backings are and however the work is
cut.  Equality holds exactly for the same units; the sign of a comparison is that of the lexicographic order,
where a string comes after its beginnings; the hash is the base-31 polynomial in 32 bits.  With slices enough
for the units, eight for each, there is a result. -/
theorem strings_are_their_units {image : TextImage} {heap : Heap} {bs : List Block} {l r : RuntimeValue}
    {us vs : List Nat} (hw : WellFormed heap bs) (hl : Text image heap bs l us) (hr : Text image heap bs r vs)
    (destination : Nat) :
    (∃ p, newEquals image heap l r destination = .ok p ∧ ∀ budgets,
      p.resumes image heap budgets = .ok (.inr (destination, .bool (us = vs))) ∨
        ∃ p', p.resumes image heap budgets = .ok (.inl p') ∧ (budgets ≠ [] → 8 * budgets.sum < us.length)) ∧
    (∃ p, newCompare image heap l r destination = .ok p ∧ ∀ budgets,
      p.resumes image heap budgets = .ok (.inr (destination, .i32 (compareUnits us vs))) ∨
        ∃ p', p.resumes image heap budgets = .ok (.inl p') ∧
          (budgets ≠ [] → 8 * budgets.sum < min us.length vs.length)) ∧
    (∃ p, newHash image heap l destination = .ok p ∧ ∀ budgets,
      p.resumes image heap budgets = .ok (.inr (destination, .i32 (hashUnits us))) ∨
        ∃ p', p.resumes image heap budgets = .ok (.inl p') ∧ (budgets ≠ [] → 8 * budgets.sum < us.length)) ∧
    (compareUnits us vs < 0 ↔ us < vs) ∧ (compareUnits us vs = 0 ↔ us = vs) ∧ (0 < compareUnits us vs ↔ vs < us) := by
  obtain ⟨lb, hlb, hls, hlsmall⟩ := hl.spells hw
  obtain ⟨rb, hrb, hrs, hrsmall⟩ := hr.spells hw
  refine ⟨⟨.equals lb rb 0 destination, ?_, fun budgets => ?_⟩, ⟨.compare lb rb 0 destination, ?_, fun budgets => ?_⟩,
    ⟨.hash lb 0 0 destination, ?_, fun budgets => ?_⟩, compareUnits_neg, compareUnits_eq_zero, compareUnits_pos⟩
  · rw [newEquals, hlb, hrb]
    rfl
  · exact (Reading.equals hls hrs (Nat.zero_le _) Iff.rfl).resumes budgets
  · rw [newCompare, hlb, hrb]
    rfl
  · exact (Reading.compare hls hrs hlsmall hrsmall (Nat.zero_le _) rfl).resumes budgets
  · rw [newHash, hlb]
    rfl
  · have hstart : Reading image heap (.hash lb 0 (hashUnits (us.take 0)) destination) (us.length - 0) destination
        (.i32 (hashUnits us)) := .hash hls (Nat.zero_le _)
    rw [take_zero, hashUnits_nil] at hstart
    exact hstart.resumes budgets

/-- The literal `a`; strings of the heap have type 3. -/
def oneLiteral : TextImage := ⟨[⟨[97, 0], 1⟩], some 3, []⟩

/-- A run that makes the string `ab`, one byte for each unit. -/
theorem managed_ab : ∃ s bs, HeapRun.Reachable ⟨HeaderFormat.select 64 4, 64⟩ 4 s ∧ WellFormed s.heap bs ∧
    Text oneLiteral s.heap bs (.reference ⟨8, by decide, by decide⟩) [97, 98] := by
  have h0 : HeapRun.Reachable ⟨HeaderFormat.select 64 4, 64⟩ 4 _ := .start _ rfl
  have h1 := h0.step _ _ (.reserve ⟨32, 3⟩) ⟨by decide, by decide, by decide⟩ rfl
  have h2 := h1.step _ _ (.writeReserved ⟨0, 3⟩ 0 [2, 0, 0, 0, 0, 0, 0, 0, 97, 98])
    ⟨mem_singleton.mpr rfl, 32, rfl, by decide⟩ rfl
  have h3 := h2.step _ _ (.commit ⟨0, 3⟩) (mem_singleton.mpr rfl) rfl
  obtain ⟨bs, hok⟩ := h3.runOk (.inr rfl)
  obtain ⟨o, t, n, f, hbits, v, hplace⟩ := hok.unmarked (mem_singleton_self (⟨8, by decide, by decide⟩ : Ref32))
  obtain rfl : o = 0 := Nat.add_right_cancel hbits.symm
  have ht := hok.heap.rep.readType hplace rfl (hok.heap.clean trivial _ (mem_of_mem_place hplace) t false rfl).2
  have hn := hok.heap.rep.blockSize hplace nofun
  cases ht
  cases hn
  exact ⟨_, bs, h3, hok.heap, @Text.managed _ _ _ _ 0 3 32 2 false .latin1 rfl rfl ⟨rfl, f, v, hplace⟩
    (by decide) rfl rfl⟩

/-- A string of the heap comes after a literal that is its beginning. -/
theorem strings_are_their_units_mixed :
    ∃ s p, HeapRun.Reachable ⟨HeaderFormat.select 64 4, 64⟩ 4 s ∧
      newCompare oneLiteral s.heap (.reference ⟨8, by decide, by decide⟩)
        (.reference ⟨2 ^ 30, by decide, by decide⟩) 0 = .ok p ∧
      p.resumes oneLiteral s.heap [1] = .ok (.inr (0, .i32 1)) := by
  obtain ⟨s, bs, hs, hw, htext⟩ := managed_ab
  obtain ⟨-, ⟨p, hp, hall⟩, -⟩ := @strings_are_their_units oneLiteral s.heap bs _
    (.reference ⟨2 ^ 30, by decide, by decide⟩) _ _ hw htext (.literal rfl rfl (by decide)) 0
  rcases hall [1] with hdone | ⟨-, -, hmore⟩
  · exact ⟨s, p, hs, hp, hdone⟩
  · exact absurd (hmore (cons_ne_nil _ _)) (by decide)

end Compukter
