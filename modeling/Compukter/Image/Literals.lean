/-
Literals.

The modules of an image share one list of literals without repetition: the ranges of all modules are sorted by
their bytes, and a range that differs from the one before it starts a new literal.  `Ascending` is what the
loop keeps of the list, and `assignLiterals_spec` says that every range is given the id of its own bytes.
-/
import Mathlib.Data.List.Sort
import Mathlib.Data.Prod.Lex
import Compukter.Machine.Text
import Compukter.Image.Indices

namespace Compukter.Image

open Fallible Ref32 List ResolvedLiteral

/-! ## Deduplication -/

/-- Bytes in the order of `slice::cmp`. -/
def literalKey (raw : List UInt8) : List Nat := raw.map UInt8.toNat

theorem literalKey_injective : Function.Injective literalKey :=
  map_injective_iff.mpr fun _ _ => UInt8.toNat_inj.mp

/-- By their bytes, and where these are the same by their places. -/
def literalLe (left right : List UInt8 × Nat) : Prop :=
  toLex (literalKey left.1, left.2) ≤ toLex (literalKey right.1, right.2)

instance : DecidableRel literalLe := fun _ _ => inferInstanceAs (Decidable (toLex _ ≤ toLex _))

variable (ranges : List (List UInt8))

def literalOrder : List (List UInt8 × Nat) := ranges.zipIdx.insertionSort literalLe

/-- A new literal, unless the last one has these bytes. -/
def pushLiteral (literals : List ResolvedLiteral) (raw : List UInt8) : Admits (List ResolvedLiteral) :=
  if literals.getLast?.all (·.bytes != raw) then do return literals ++ [⟨raw, ← admitU32 (raw.length / 2)⟩]
  else .ok literals

def assignLiterals : List (List UInt8 × Nat) → List ResolvedLiteral → List Nat →
    Admits (List ResolvedLiteral × List Nat)
  | [], literals, ids => .ok (literals, ids)
  | (raw, source) :: rest, literals, ids => do
    let literals ← pushLiteral literals raw
    assignLiterals rest literals (ids.set source (literals.length - 1))

def deduplicateLiteralRanges : Admits (List ResolvedLiteral × List Nat) :=
  assignLiterals (literalOrder ranges) [] (List.replicate ranges.length (2 ^ 64 - 1))

/-- Literals in strictly ascending order, each with the number of its units. -/
structure Ascending (literals : List ResolvedLiteral) : Prop where
  order : literals.Pairwise fun a b => literalKey a.bytes < literalKey b.bytes
  units : ∀ l ∈ literals, l = ⟨l.bytes, l.bytes.length / 2⟩

variable {literals : List ResolvedLiteral}

theorem Ascending.nodup (h : Ascending literals) : literals.Nodup :=
  h.order.imp fun hlt heq => absurd (heq ▸ hlt) (lt_irrefl _)

variable {raw : List UInt8} {literals' : List ResolvedLiteral}

/-- The literal for `raw` is last afterwards. -/
theorem pushLiteral_spec (h : Ascending literals)
    (hle : ∀ l ∈ literals, literalKey l.bytes ≤ literalKey raw) (hpush : pushLiteral literals raw = .ok literals') :
    Ascending literals' ∧ literals <+: literals' ∧ (∀ l ∈ literals', literalKey l.bytes ≤ literalKey raw) ∧
      literals'[literals'.length - 1]? = some ⟨raw, raw.length / 2⟩ := by
  unfold pushLiteral at hpush
  split at hpush
  · next hnew =>
    obtain ⟨_, hunits, hpush⟩ := bind_eq_ok.mp hpush
    obtain ⟨-, rfl⟩ := admitU32_eq_ok.mp hunits
    cases hpush
    -- the last literal is below `raw`, and the others are below it
    have hlt : ∀ l ∈ literals, literalKey l.bytes < literalKey raw := by
      intro l hl
      obtain ⟨_, last, rfl⟩ := (eq_nil_or_concat literals).resolve_left (ne_nil_of_mem hl)
      have hne : last.bytes ≠ raw := by simpa using hnew
      have hlast : literalKey last.bytes < literalKey raw :=
        lt_of_le_of_ne (hle last (by simp)) fun heq => hne (literalKey_injective heq)
      rcases mem_append.mp (concat_eq_append ▸ hl) with hl | hl
      · have horder := pairwise_append.mp (concat_eq_append ▸ h.order)
        exact (horder.2.2 l hl last mem_cons_self).trans hlast
      · rw [mem_singleton.mp hl]
        exact hlast
    refine ⟨⟨?_, ?_⟩, prefix_append _ _, ?_, ?_⟩
    · refine pairwise_append.mpr ⟨h.order, pairwise_singleton _ _, fun l hl l' hl' => ?_⟩
      rw [mem_singleton.mp hl']
      exact hlt l hl
    · intro l hl
      rcases mem_append.mp hl with hl | hl
      · exact h.units l hl
      · rw [mem_singleton.mp hl]
    · intro l hl
      rcases mem_append.mp hl with hl | hl
      · exact hle l hl
      · rw [mem_singleton.mp hl]
    · simp
  · next hold =>
    cases hpush
    refine ⟨h, prefix_rfl, hle, ?_⟩
    rw [← getLast?_eq_getElem?]
    cases hlast : literals.getLast? with
    | none => simp [hlast] at hold
    | some last =>
      have hraw : last.bytes = raw := by simpa [hlast] using hold
      rw [h.units last (mem_of_getLast? hlast), hraw]

/-- **Every range is given the id of its bytes.**  What the loop has done before stays: the literals keep their
ids, and the other sources keep theirs. -/
theorem assignLiterals_spec {order : List (List UInt8 × Nat)} {ids ids' : List Nat} (h : Ascending literals)
    (hrun : assignLiterals order literals ids = .ok (literals', ids'))
    (hsorted : order.Pairwise fun a b => literalKey a.1 ≤ literalKey b.1)
    (hle : ∀ l ∈ literals, ∀ r ∈ order, literalKey l.bytes ≤ literalKey r.1) (hsources : (order.map Prod.snd).Nodup)
    (hbound : ∀ r ∈ order, r.2 < ids.length) : Ascending literals' ∧ literals <+: literals' ∧ ids'.length = ids.length ∧
      (∀ i, i ∉ order.map Prod.snd → ids'[i]? = ids[i]?) ∧
      ∀ r ∈ order, ∃ id, ids'[r.2]? = some id ∧ literals'[id]? = some ⟨r.1, r.1.length / 2⟩ := by
  induction order generalizing literals ids with
  | nil =>
    cases hrun
    exact ⟨h, prefix_rfl, rfl, fun _ _ => rfl, forall_mem_nil _⟩
  | cons first _ ih =>
    obtain ⟨raw, source⟩ := first
    obtain ⟨middle, hpush, hrun⟩ := bind_eq_ok.mp hrun
    obtain ⟨hmiddle, hfront, hbelow, hlast⟩ :=
      pushLiteral_spec h (fun l hl => hle l hl _ mem_cons_self) hpush
    obtain ⟨hfirst, hsorted⟩ := pairwise_cons.mp hsorted
    rw [map_cons, nodup_cons] at hsources
    obtain ⟨hascending, hkept, hlength, hothers, hall⟩ := ih hmiddle hrun hsorted
      (fun l hl r hr => (hbelow l hl).trans (hfirst r hr)) hsources.2
      (fun r hr => by rw [length_set]; exact hbound r (mem_cons_of_mem _ hr))
    have hsource : ids'[source]? = some (middle.length - 1) := by
      rw [hothers source hsources.1]
      exact getElem?_set_self (hbound _ mem_cons_self)
    refine ⟨hascending, hfront.trans hkept, by rw [hlength, length_set], fun i hi => ?_, fun r hr => ?_⟩
    · rw [map_cons, mem_cons, not_or] at hi
      rw [hothers i hi.2, getElem?_set_ne (Ne.symm hi.1)]
    · rcases mem_cons.mp hr with rfl | hr
      · obtain ⟨_, rfl⟩ := hkept
        obtain ⟨hlt, -⟩ := List.getElem?_eq_some_iff.mp hlast
        exact ⟨_, hsource, (getElem?_append_left hlt).trans hlast⟩
      · exact hall r hr

theorem literalOrder_spec : (literalOrder ranges).Perm ranges.zipIdx ∧
      (literalOrder ranges).Pairwise fun a b => literalKey a.1 ≤ literalKey b.1 := by
  have : Std.Total literalLe := ⟨fun _ _ => le_total (toLex _) (toLex _)⟩
  have : IsTrans _ literalLe := ⟨fun _ _ _ => le_trans (α := List Nat ×ₗ Nat)⟩
  refine ⟨perm_insertionSort _ _, (pairwise_insertionSort literalLe _).imp fun hab => ?_⟩
  rcases (Prod.Lex.toLex_le_toLex).mp hab with hlt | ⟨heq, -⟩
  · exact hlt.le
  · exact heq.le

theorem deduplicateLiteralRanges_spec {ranges : List (List UInt8)} {ids : List Nat}
    (h : deduplicateLiteralRanges ranges = .ok (literals, ids)) :
    Ascending literals ∧ ∀ (i : Nat) raw, ranges[i]? = some raw →
      ∃ id : Nat, ids[i]? = some id ∧ literals[id]? = some ⟨raw, raw.length / 2⟩ := by
  obtain ⟨hperm, hsorted⟩ := literalOrder_spec ranges
  have hsources : ((literalOrder ranges).map Prod.snd).Perm (range ranges.length) := by
    have hmap := hperm.map Prod.snd
    rwa [zipIdx_map_snd, ← range_eq_range'] at hmap
  obtain ⟨hascending, -, -, -, hall⟩ := assignLiterals_spec ⟨.nil, forall_mem_nil _⟩ h hsorted
    (forall_mem_nil _) (hsources.nodup_iff.mpr nodup_range) fun r hr => by
      rw [length_replicate]
      exact mem_range.mp (hsources.mem_iff.mp (mem_map_of_mem hr))
  refine ⟨hascending, fun i raw hraw => hall (raw, i) (hperm.mem_iff.mpr ?_)⟩
  exact mk_mem_zipIdx_iff_getElem?.mpr hraw

theorem exists_deduplicateLiteralRanges {ranges : List (List UInt8)}
    (h : ∀ raw ∈ ranges, raw.length / 2 < 2 ^ 32) : ∃ r, deduplicateLiteralRanges ranges = .ok r := by
  have hrun {order : List (List UInt8 × Nat)} (horder : ∀ r ∈ order, r.1.length / 2 < 2 ^ 32) :
      ∀ literals ids, ∃ r, assignLiterals order literals ids = .ok r := by
    induction order with
    | nil => exact fun literals ids => ⟨_, rfl⟩
    | cons first _ ih =>
      intro literals ids
      obtain ⟨middle, hpush⟩ : ∃ middle, pushLiteral literals first.1 = .ok middle := by
        unfold pushLiteral
        rw [admitU32_eq_ok.mpr ⟨horder first mem_cons_self, rfl⟩]
        split <;> exact ⟨_, rfl⟩
      rw [assignLiterals, hpush]
      exact ih (fun r hr => horder r (mem_cons_of_mem _ hr)) _ _
  refine hrun (fun r hr => ?_) _ _
  have hmem := mem_of_getElem? (mk_mem_zipIdx_iff_getElem?.mp ((literalOrder_spec ranges).1.mem_iff.mp hr))
  exact h r.1 hmem

/-- Two ranges have one id exactly when they have the same bytes. -/
theorem literal_ids_eq_iff (h : Ascending literals) {id id' : Nat} {raw' : List UInt8}
    (hid : literals[id]? = some ⟨raw, raw.length / 2⟩) (hid' : literals[id']? = some ⟨raw', raw'.length / 2⟩) :
    id = id' ↔ raw = raw' := by
  constructor
  · rintro rfl
    cases hid.symm.trans hid'
    rfl
  · rintro rfl
    exact (getElem?_inj (List.getElem?_eq_some_iff.mp hid).1 h.nodup).mp (hid.trans hid'.symm)

/-! ## The units of a literal -/

/-- The code units that bytes spell. -/
def utf16Units (raw : List UInt8) : List Nat := ResolvedLiteral.units ⟨raw, raw.length / 2⟩

theorem utf16Units_injective {raw' : List UInt8} (heven : raw.length % 2 = 0) (heven' : raw'.length % 2 = 0)
    (h : utf16Units raw = utf16Units raw') : raw = raw' := by
  have hhalf : raw.length / 2 = raw'.length / 2 := by
    have := congrArg length h
    simpa [utf16Units, units] using this
  have hlength : raw.length = raw'.length := by omega
  have hunit : ∀ i < raw.length / 2, (raw.getD (i * 2) 0).toNat + 256 * (raw.getD (i * 2 + 1) 0).toNat =
      (raw'.getD (i * 2) 0).toNat + 256 * (raw'.getD (i * 2 + 1) 0).toNat := by
    intro i hi
    rw [utf16Units, utf16Units, units, units, hhalf] at h
    exact map_inj_left.mp h i (mem_range.mpr (hhalf ▸ hi))
  refine ext_getElem hlength fun k hk hk' => UInt8.toNat_inj.mp ?_
  have hpair := hunit (k / 2) (by omega)
  have hlow := (raw.getD (k / 2 * 2) 0).toNat_lt
  have hlow' := (raw'.getD (k / 2 * 2) 0).toNat_lt
  rw [← getD_eq_getElem raw 0 hk, ← getD_eq_getElem raw' 0 hk']
  -- the byte is the low or the high one of its unit
  rcases Nat.mod_two_eq_zero_or_one k with hmod | hmod
  · rw [show k / 2 * 2 = k by omega] at hpair hlow hlow'
    omega
  · rw [show k / 2 * 2 + 1 = k by omega] at hpair
    omega

/-! ## Constants -/

/-- The literals of an image: strings need an empty one. -/
def imageLiterals (stringType : Option TypeKey) (literals : List ResolvedLiteral) : List ResolvedLiteral :=
  if stringType.isSome && !literals.any (·.codeUnits == 0) then literals ++ [⟨[], 0⟩] else literals

theorem imageLiterals_getElem? {stringType : Option TypeKey} {id : Nat} {literal : ResolvedLiteral}
    (h : literals[id]? = some literal) : (imageLiterals stringType literals)[id]? = some literal := by
  unfold imageLiterals
  split
  · rw [getElem?_append_left (List.getElem?_eq_some_iff.mp h).1, h]
  · exact h

/-- A reference to a literal is its id. -/
theorem image_eq_some {id : Nat} {r : Ref32} (h : new .image id = some r) : r.domain = .image ∧ r.payload = id := by
  unfold new maxPayload at h
  split at h
  · cases h
  · next hsmall =>
    have hlt : id < 2 ^ domainShift := by
      unfold domainShift
      omega
    have hor : (ReferenceDomain.image.index <<< domainShift) ||| id = 2 ^ 30 + id :=
      (Nat.shiftLeft_add_eq_or_of_lt hlt 1).symm
    rw [hor, fromBits, dif_pos (by omega)] at h
    cases h
    constructor
    · have hshift : (2 ^ 30 + id) >>> domainShift = 1 := by
        rw [Nat.shiftRight_eq_div_pow, domainShift]
        omega
      rw [domain, hshift]
      rfl
    · rw [payload_eq_mod]
      show (2 ^ 30 + id) % 2 ^ 30 = id
      omega

/-- What a string constant refers to. -/
theorem resolveConstant_string {o : Offsets} {tables : List (List (List UInt8))} {ids : List Nat}
    {moduleId literal : Nat} {value : RuntimeValue} (ho : o.literals = offsets (tables.map List.length))
    (hdedup : deduplicateLiteralRanges tables.flatten = .ok (literals, ids))
    (hraw : (tables[moduleId]?).bind (·[literal]?) = some raw)
    (hvalue : resolveConstant o ids moduleId (.string literal) = .ok value) :
    ∃ (r : Ref32) (id : Nat), value = .reference r ∧ new .image id = some r ∧
      literals[id]? = some ⟨raw, raw.length / 2⟩ := by
  obtain ⟨table, htable, hraw⟩ := Option.bind_eq_some_iff.mp hraw
  obtain ⟨_, hoffset, hvalue⟩ := bind_eq_ok.mp hvalue
  obtain ⟨id, hid, hvalue⟩ := bind_eq_ok.mp hvalue
  obtain ⟨r, hr, hvalue⟩ := bind_eq_ok.mp hvalue
  have hoffset := demandSome_eq_ok.mp hoffset
  rw [ho] at hoffset
  obtain ⟨-, hflat⟩ := getElem?_offsets (fun table => table) htable hoffset (List.getElem?_eq_some_iff.mp hraw).1
  rw [flatMap_id', Nat.sub_zero, hraw] at hflat
  obtain ⟨id', hid', hliteral⟩ := (deduplicateLiteralRanges_spec hdedup).2 _ raw hflat
  cases (demandSome_eq_ok.mp hid).symm.trans hid'
  exact ⟨r, id, (Except.ok.inj hvalue).symm, demandSome_eq_ok.mp hr, hliteral⟩

/-! ## All indices -/

/-- `type_id`: a `u32`. -/
def typeId (offsets : List Nat) (key : TypeKey) : Option Nat := (checkedGlobalIndex offsets key).bind checkedU32

/-- The keys number the elements of tables of these lengths: every element has an index and every index an
element, and the two ways are inverse to each other. -/
structure Numbered (lengths : List Nat) (keys : List TypeKey) : Prop where
  total : keys.length = lengths.sum
  inRange (key : TypeKey) : (checkedGlobalIndex (offsets lengths) key).isSome ↔
    ∃ n, lengths[key.module]? = some n ∧ key.ty < n
  inverse (key : TypeKey) (index : Nat) :
    checkedGlobalIndex (offsets lengths) key = some index ↔ keys[index]? = some key
  typeId (key : TypeKey) (id : Nat) :
    Image.typeId (offsets lengths) key = some id ↔ keys[id]? = some key ∧ id < 2 ^ 32

theorem numbered_of_resolveTypeKeys {lengths : List Nat} {keys : List TypeKey}
    (h : resolveTypeKeys (offsets lengths) = .ok keys) : Numbered lengths keys := by
  rw [resolveTypeKeys_eq] at h
  obtain rfl := typeKeysFrom_eq_ok h
  refine ⟨length_keysFrom 0 lengths, fun key => ?_, fun key index => keys_iff, fun key id => ?_⟩
  · rw [Option.isSome_iff_exists]
    constructor
    · rintro ⟨index, hindex⟩
      obtain ⟨start, n, -, hn, hty, -⟩ := checkedGlobalIndex_eq_some.mp hindex
      exact ⟨n, hn, hty⟩
    · rintro ⟨n, hn, hty⟩
      obtain ⟨start, hstart⟩ : ∃ start, (offsets lengths)[key.module]? = some start := exists_offsetsFrom hn
      exact ⟨_, checkedGlobalIndex_eq_some.mpr ⟨start, n, hstart, hn, hty, rfl⟩⟩
  · rw [Image.typeId, Option.bind_eq_some_iff, ← keys_iff]
    constructor
    · rintro ⟨index, hindex, hsmall⟩
      unfold checkedU32 at hsmall
      split at hsmall
      · next hlt =>
        cases hsmall
        exact ⟨hindex, hlt⟩
      · cases hsmall
    · rintro ⟨hindex, hlt⟩
      exact ⟨id, hindex, if_pos hlt⟩

/-- **Indices and literals are exact.**  The tables of all modules are numbered through, whatever their lengths
are, and string constants of any two modules are the same reference exactly when they spell the same code
units, which are the units of the literal that the reference names. -/
theorem image_indices_are_exact :
    (∀ lengths keys, resolveTypeKeys (offsets lengths) = .ok keys → Numbered lengths keys) ∧
    (∀ lengths : List Nat, lengths.length ≤ 2 ^ 32 → (∀ n ∈ lengths, n ≤ 2 ^ 32) →
      ∃ keys, resolveTypeKeys (offsets lengths) = .ok keys) ∧
    (∀ ranges : List (List UInt8), (∀ raw ∈ ranges, raw.length / 2 < 2 ^ 32) →
      ∃ r, deduplicateLiteralRanges ranges = .ok r) ∧
    ∀ (o : Offsets) (tables : List (List (List UInt8))) (stringType : Option TypeKey)
      (literals : List ResolvedLiteral) (ids : List Nat) (image : TextImage),
      o.literals = offsets (tables.map List.length) →
      deduplicateLiteralRanges tables.flatten = .ok (literals, ids) →
      (∀ table ∈ tables, ∀ raw ∈ table, raw.length % 2 = 0) →
      image.literals = imageLiterals stringType literals →
      ∀ (m l : Nat) (raw : List UInt8) (value : RuntimeValue), (tables[m]?).bind (·[l]?) = some raw →
        resolveConstant o ids m (.string l) = .ok value →
        (∃ r literal, value = .reference r ∧ image.literalReference r = some literal ∧
          literal.units = utf16Units raw) ∧
        ∀ (m' l' : Nat) (raw' : List UInt8) (value' : RuntimeValue), (tables[m']?).bind (·[l']?) = some raw' →
          resolveConstant o ids m' (.string l') = .ok value' →
          (value = value' ↔ utf16Units raw = utf16Units raw') := by
  refine ⟨fun lengths keys => numbered_of_resolveTypeKeys, fun lengths hmodules hlengths => ?_,
    fun ranges => exists_deduplicateLiteralRanges, ?_⟩
  · rw [resolveTypeKeys_eq]
    exact exists_typeKeysFrom (by omega) hlengths
  intro o tables stringType literals ids image ho hdedup heven himage m l raw value hraw hvalue
  have heven' {m l : Nat} {raw : List UInt8} (h : (tables[m]?).bind (·[l]?) = some raw) : raw.length % 2 = 0 := by
    obtain ⟨table, htable, hraw⟩ := Option.bind_eq_some_iff.mp h
    exact heven table (mem_of_getElem? htable) raw (mem_of_getElem? hraw)
  obtain ⟨r, id, rfl, hr, hid⟩ := resolveConstant_string ho hdedup hraw hvalue
  obtain ⟨hdomain, hpayload⟩ := image_eq_some hr
  refine ⟨⟨r, _, rfl, ?_, rfl⟩, ?_⟩
  · rw [TextImage.literalReference, if_pos hdomain, hpayload, himage]
    exact imageLiterals_getElem? hid
  · intro m' l' raw' value' hraw' hvalue'
    obtain ⟨r', id', rfl, hr', hid'⟩ := resolveConstant_string ho hdedup hraw' hvalue'
    obtain ⟨-, hpayload'⟩ := image_eq_some hr'
    have hids := literal_ids_eq_iff (deduplicateLiteralRanges_spec hdedup).1 hid hid'
    constructor
    · rintro ⟨⟩
      rw [hids.mp (hpayload.symm.trans hpayload')]
    · intro hunits
      obtain rfl := hids.mpr (utf16Units_injective (heven' hraw) (heven' hraw') hunits)
      cases hr.symm.trans hr'
      rfl

end Compukter.Image
