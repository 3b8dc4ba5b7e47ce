/-
The layout of objects.

A class keeps the fields of its superclass where they are and puts its own behind them, the widest first.
`Placed` is what placing fields gives: they follow each other between two offsets, each at a multiple of its
width.  Behind placed fields one can place more (`Placed.append`).  `deriveTypeLayout` does not come back to a
class it is at or has done, so the layout of a superclass is still the one that its subclass was built on.
-/
import Mathlib.Order.Bounds.Basic
import Compukter.Image.Packed

namespace Compukter.Image

open Fallible List Offsets LayoutState Nat

/-! ## Placing fields -/

/-- Fields between two offsets, one behind the other and aligned to their widths. -/
structure Placed (start stop : Nat) (fields : List PlacedField) : Prop where
  le : start ≤ stop
  aligned : ∀ f ∈ fields, f.width.bytes ∣ f.offset
  inside : ∀ f ∈ fields, start ≤ f.offset ∧ f.offset + f.width.bytes ≤ stop
  apart : fields.Pairwise fun a b => a.offset + a.width.bytes ≤ b.offset

theorem Placed.append {start middle stop : Nat} {front back : List PlacedField} (h : Placed start middle front)
    (h' : Placed middle stop back) : Placed start stop (front ++ back) where
  le := h.le.trans h'.le
  aligned f hf := (mem_append.mp hf).elim (h.aligned f) (h'.aligned f)
  inside f hf := by
    have hle := h.le
    have hle' := h'.le
    rcases mem_append.mp hf with hf | hf
    · have := h.inside f hf
      omega
    · have := h'.inside f hf
      omega
  apart := pairwise_append.mpr ⟨h.apart, h'.apart, fun a ha b hb =>
    (h.inside a ha).2.trans (h'.inside b hb).1⟩

def PlacedField.spec (f : PlacedField) : FieldSpec := ⟨f.field, f.width⟩

variable {specs : List FieldSpec}

/-- The layout of a class: its fields are apart from each other and aligned, inside the payload, the offsets of
its references are the collector's, and the block is the smallest that has room. -/
structure Sound (format : HeaderFormat) (shape : ObjectShape) : Prop where
  placed : Placed 0 shape.payloadBytes shape.fields
  references : shape.referenceOffsets = (shape.fields.filter (·.width == .ref)).map (·.offset)
  block : IsLeast {n | 8 ∣ n ∧ 16 ≤ n ∧ format.bytes + shape.payloadBytes ≤ n} shape.blockBytes

/-- The fields of the superclass stay where they are, and the declared ones come behind them. -/
def Extends (superclass : Option ObjectShape) (declared : List FieldSpec) (shape : ObjectShape) : Prop :=
  ∃ placed, shape.fields = (superclass.map (·.fields)).getD [] ++ placed ∧ (placed.map (·.spec)).Perm declared

variable {superclass : Option ObjectShape} {declared : List FieldSpec} {format : HeaderFormat}

/-- The layout of a class, given by the fields that it and its superclasses declare, itself first. -/
def layoutOf (format : HeaderFormat) : List (List FieldSpec) → Admits (Option ObjectShape)
  | [] => .ok none
  | declared :: superclasses => do
    let superclass ← layoutOf format superclasses
    return some (← objectLayout superclass declared format)

variable {classes : List (List FieldSpec)}

/-- The layout of the superclass, if there is one, is among the layouts of all types. -/
def Inherits (types : List Nat) (layoutAt : Nat → Option TypeLayout) : Option TypeKey → Option ObjectShape → Prop
  | none, inherited => inherited = none
  | some key, inherited => ∃ index shape, globalIndex types key = .ok index ∧ layoutAt index = some (.object shape) ∧
      inherited = some shape

/-- A class has the layout of an object, which is sound and extends the one of its superclass by the instance
fields that the class declares. -/
def LaidOut (artifact : DecodedArtifact) (format : HeaderFormat) (layoutAt : Nat → Option TypeLayout) (key : TypeKey)
    (layout : TypeLayout) : Prop :=
  ∀ m t, artifact.modules[key.module]? = some m → m.types[key.ty]? = some (.classType t) →
    ∃ shape inherited start specs, layout = .object shape ∧ Sound format shape ∧ Extends inherited specs shape ∧
      Inherits (Offsets.of artifact).types layoutAt (resolveType artifact key.module t.superType) inherited ∧
      offsetAt (Offsets.of artifact).fields key.module = .ok start ∧
      fieldSpecs start t.fieldStart ((m.fields.drop t.fieldStart).take t.fieldCount) 0 = .ok specs

section Derived

variable {artifact : DecodedArtifact} {format : HeaderFormat} {key : TypeKey} {s s' : LayoutState} {index : Nat}
  {layout : TypeLayout} {layoutAt layoutAt' : Nat → Option TypeLayout}

theorem LaidOut.mono (h : LaidOut artifact format layoutAt key layout)
    (hsame : ∀ i l, layoutAt i = some l → layoutAt' i = some l) : LaidOut artifact format layoutAt' key layout := by
  intro m t hm ht
  obtain ⟨shape, inherited, start, specs, hshape, hsound, hextends, hinherits, hspecs⟩ := h m t hm ht
  refine ⟨shape, inherited, start, specs, hshape, hsound, hextends, ?_, hspecs⟩
  cases hsuper : resolveType artifact key.module t.superType with
  | none => rwa [hsuper] at hinherits
  | some =>
    rw [hsuper] at hinherits
    obtain ⟨i, shape', hi, hlayout, hinherited⟩ := hinherits
    exact ⟨i, shape', hi, hsame _ _ hlayout, hinherited⟩

/-- **The invariant of the derivation.** -/
structure Derived (artifact : DecodedArtifact) (format : HeaderFormat) (s : LayoutState) : Prop where
  sound : ∀ i shape, s.layoutAt i = some (.object shape) → Sound format shape
  laid : ∀ key i layout, globalIndex (Offsets.of artifact).types key = .ok i → s.layoutAt i = some layout →
    LaidOut artifact format s.layoutAt key layout

/-- A type that has its layout, or whose layout is being derived, is left alone. -/
structure Keeps (s s' : LayoutState) : Prop where
  length : s'.layouts.length = s.layouts.length
  layout : ∀ i : Nat, (s.layoutAt i).isSome ∨ s.visiting[i]? = some true → s'.layoutAt i = s.layoutAt i
  visiting : ∀ i : Nat, s.visiting[i]? = some true → s'.visiting[i]? = some true

theorem Keeps.refl (s : LayoutState) : Keeps s s := ⟨rfl, fun _ _ => rfl, fun _ h => h⟩

theorem Keeps.trans {s'' : LayoutState} (h : Keeps s s') (h' : Keeps s' s'') : Keeps s s'' where
  length := h'.length.trans h.length
  layout i hi := by
    rw [h'.layout i (hi.imp (fun hsome => ?_) (h.visiting i)), h.layout i hi]
    rwa [h.layout i hi]
  visiting i hi := h'.visiting i (h.visiting i hi)

variable {visiting : List Bool}

theorem layoutAt_set_ne {i : Nat} (hi : i ≠ index) :
    LayoutState.layoutAt ⟨s.layouts.set index (some layout), visiting⟩ i = s.layoutAt i := by
  rw [layoutAt, getElem?_set_ne hi.symm, layoutAt]

theorem layoutAt_set_self {l : TypeLayout}
    (h : LayoutState.layoutAt ⟨s.layouts.set index (some layout), visiting⟩ index = some l) : l = layout := by
  rw [LayoutState.layoutAt, getElem?_set_self'] at h
  cases hold : s.layouts[index]? with
  | none =>
    rw [hold] at h
    cases h
  | some =>
    rw [hold] at h
    exact (Option.some.inj h).symm

/-- The layout of the type at hand is entered. -/
theorem Derived.set (h : Derived artifact format s) (hindex : globalIndex (of artifact).types key = .ok index)
    (hnone : s.layoutAt index = none) (hlaid : LaidOut artifact format s.layoutAt key layout)
    (hsound : ∀ shape, layout = .object shape → Sound format shape) (visiting : List Bool) :
    Derived artifact format ⟨s.layouts.set index (some layout), visiting⟩ := by
  have hsame : ∀ i l, s.layoutAt i = some l →
      layoutAt ⟨s.layouts.set index (some layout), visiting⟩ i = some l := by
    intro i l hl
    rw [layoutAt_set_ne, hl]
    rintro rfl
    rw [hnone] at hl
    cases hl
  constructor
  · intro i shape hshape
    by_cases hi : i = index
    · subst hi
      exact hsound shape (layoutAt_set_self hshape).symm
    · rw [layoutAt_set_ne hi] at hshape
      exact h.sound i shape hshape
  · intro key' i l hkey hl
    by_cases hi : i = index
    · -- no other type has this index
      subst hi
      cases (keys_iff.mp (demandSome_eq_ok.mp hkey)).symm.trans (keys_iff.mp (demandSome_eq_ok.mp hindex))
      rw [layoutAt_set_self hl]
      exact hlaid.mono hsame
    · rw [layoutAt_set_ne hi] at hl
      exact (h.laid key' i l hkey hl).mono hsame

/-- The step at the end, when the type is no longer visited. -/
theorem Derived.enter {s₁ : LayoutState} (hs₁ : Derived artifact format s₁)
    (hkeeps : Keeps { s with visiting := s.visiting.set index true } s₁)
    (hindex : globalIndex (of artifact).types key = .ok index) (hdone : ¬ (s.layoutAt index).isSome)
    (hfalse : s.visiting[index]? = some false) (hlaid : LaidOut artifact format s₁.layoutAt key layout)
    (hsound : ∀ shape, layout = .object shape → Sound format shape) :
    Derived artifact format ⟨s₁.layouts.set index (some layout), s₁.visiting.set index false⟩ ∧
      Keeps s ⟨s₁.layouts.set index (some layout), s₁.visiting.set index false⟩ := by
  have hnone : s₁.layoutAt index = none := by
    obtain ⟨hlt, -⟩ := List.getElem?_eq_some_iff.mp hfalse
    rw [hkeeps.layout index (.inr (getElem?_set_self hlt))]
    exact Option.not_isSome_iff_eq_none.mp hdone
  refine ⟨hs₁.set hindex hnone hlaid hsound _, (length_set ..).trans hkeeps.length, ?_, ?_⟩
  · intro i hi
    have hne : i ≠ index := by
      rintro rfl
      rcases hi with hi | hi
      · exact hdone hi
      · cases hfalse.symm.trans hi
    rw [layoutAt_set_ne hne]
    exact hkeeps.layout i (hi.imp id fun hi => (getElem?_set_ne hne.symm).trans hi)
  · intro i hi
    have hne : i ≠ index := by
      rintro rfl
      cases hfalse.symm.trans hi
    rw [getElem?_set_ne hne.symm]
    exact hkeeps.visiting i ((getElem?_set_ne hne.symm).trans hi)

end Derived

end Compukter.Image
