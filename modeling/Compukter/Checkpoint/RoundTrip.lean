/-
The checkpoint codec in both directions.

`Encodes T s v bytes` is the format.  Writing produces it (`encodes_of_write`, `write_of_encodes`), all that
reading accepts is an encoding (`accepts_read`, by induction on fuel and on the type), and an encoding is
read as its value (`read_of_encodes`, by induction on the format).  `Takes` is what is taken of a reader's
bytes, levels and budget; `Reads` and `Saves` are rules for readers made of smaller ones.
-/
import Compukter.Lib.Fallible
import Compukter.Checkpoint.Codec

namespace Compukter.Checkpoint

open Fallible List Checkpoint.Types Nat

variable {T : Types}

/-! ## The format -/

inductive Encodes (T : Types) : Shape → Value → List UInt8 → Prop
  | int {k n : Nat} (h : n < 256 ^ k) : Encodes T (.int k) (.int n) (bytesLE k n)
  | usize {n : Nat} (h : n < 256 ^ 8) : Encodes T .usize (.int n) (bytesLE 8 n)
  | bool (b : Bool) : Encodes T .bool (.bool b) (bytesLE 1 b.toNat)
  | unit : Encodes T .unit .unit []
  | pair {a b : Shape} {x y : Value} {l l' : List UInt8} (hx : Encodes T a x l) (hy : Encodes T b y l') :
      Encodes T (.pair a b) (.pair x y) (l ++ l')
  | none {s : Shape} : Encodes T (.option s) .none (bytesLE 1 0)
  | some {s : Shape} {v : Value} {l : List UInt8} (h : Encodes T s v l) :
      Encodes T (.option s) (.some v) (bytesLE 1 1 ++ l)
  | nil {s : Shape} : Encodes T (.run 0 s) .nil []
  | cons {s : Shape} {n : Nat} {v rest : Value} {l l' : List UInt8} (hv : Encodes T s v l)
      (hrest : Encodes T (.run n s) rest l') : Encodes T (.run (n + 1) s) (.cons v rest) (l ++ l')
  | vec {s : Shape} {elements : Value} {l : List UInt8} (hn : elements.count < 256 ^ 8)
      (h : Encodes T (.run elements.count s) elements l) :
      Encodes T (.vec s) (.vec elements) (bytesLE 8 elements.count ++ l)
  | array {s : Shape} {n : Nat} {elements : Value} {l : List UInt8} (h : Encodes T (.run n s) elements l) :
      Encodes T (.array n s) (.array elements) l
  | box {s : Shape} {v : Value} {l : List UInt8} (h : Encodes T s v l) : Encodes T (.box s) (.box v) l
  | string {bytes : Value} {l : List UInt8} (hn : bytes.count < 256 ^ 8) (hutf : T.isUtf8 bytes = true)
      (h : Encodes T (.run bytes.count (.int 1)) bytes l) :
      Encodes T .string (.string bytes) (bytesLE 8 bytes.count ++ l)
  | arc {bytes : List UInt8} (hn : bytes.length < 256 ^ 8) :
      Encodes T .arc (.arc bytes) (bytesLE 8 bytes.length ++ bytes)
  | default (v : Value) : Encodes T (.default v) v []
  | struct {name : Nat} {s : Shape} {fields : Value} {l : List UInt8} (hname : T.define name = .struct s)
      (h : Encodes T s fields l) : Encodes T (.named name) (.struct fields) l
  | variant {name index tag : Nat} {variants : Variants} {s : Shape} {fields : Value} {l : List UInt8}
      (hname : T.define name = .enum variants) (hindex : variants.list[index]? = some (tag, s))
      (h : Encodes T s fields l) : Encodes T (.named name) (.variant index fields) (bytesLE 1 tag ++ l)

/-! ## Writing -/

variable {w w' : Writer} {l : List UInt8}

theorem put_eq_ok :
    w.put l = .ok w' ↔ w.bytes.length + l.length ≤ w.maximum ∧ w' = { w with bytes := w.bytes ++ l } := by
  unfold Writer.put
  split
  case isTrue h => exact ⟨nofun, fun h' => absurd h'.1 (Nat.not_le_of_lt h)⟩
  case isFalse h =>
    constructor
    · rintro ⟨⟩
      exact ⟨Nat.le_of_not_lt h, rfl⟩
    · rintro ⟨-, rfl⟩
      rfl

/-- The bytes come behind those written before. -/
def Appends (w w' : Writer) (l : List UInt8) : Prop :=
  w.bytes.length + l.length ≤ w.maximum ∧ w' = { w with bytes := w.bytes ++ l }

theorem put_bind_eq_ok {f : Writer → Except CheckpointError Writer} (h : (w.put l >>= f) = .ok w') :
    ∃ w₁, Appends w w₁ l ∧ f w₁ = .ok w' := by
  obtain ⟨w₁, hput, hrest⟩ := bind_eq_ok.mp h
  exact ⟨w₁, put_eq_ok.mp hput, hrest⟩

theorem Appends.nil (h : w.bytes.length ≤ w.maximum) : Appends w w [] :=
  ⟨h, by rw [append_nil]⟩

variable {l' : List UInt8}

theorem Appends.trans {w'' : Writer} (h : Appends w w' l) (h' : Appends w' w'' l') : Appends w w'' (l ++ l') := by
  obtain ⟨-, rfl⟩ := h
  obtain ⟨hle, rfl⟩ := h'
  refine ⟨?_, by rw [append_assoc]⟩
  rw [length_append] at hle ⊢
  exact Nat.add_assoc .. ▸ hle

/-- A writer within its limit stays within it. -/
theorem Appends.fits (h : Appends w w' l) : w'.bytes.length ≤ w'.maximum := by
  obtain ⟨hle, rfl⟩ := h
  rw [length_append]
  exact hle

/-- Writing in two parts is writing the whole. -/
theorem Appends.split {w'' : Writer} (h : Appends w w'' (l ++ l')) :
    Appends w { w with bytes := w.bytes ++ l } l ∧ Appends { w with bytes := w.bytes ++ l } w'' l' := by
  obtain ⟨hle, rfl⟩ := h
  rw [length_append] at hle
  refine ⟨⟨by omega, rfl⟩, ?_, by rw [append_assoc]⟩
  show (w.bytes ++ l).length + l'.length ≤ w.maximum
  rw [length_append]
  omega

variable {s : Shape} {v : Value}

theorem encodes_of_write (hw : w.bytes.length ≤ w.maximum) (h : T.write s v w = .ok w') :
    ∃ l, Encodes T s v l ∧ Appends w w' l := by
  fun_induction write T s v w generalizing w' with
  | case1 _ _ _ hn => exact ⟨_, .int hn, put_eq_ok.mp h⟩
  | case3 _ _ hn => exact ⟨_, .usize hn, put_eq_ok.mp h⟩
  | case5 b => exact ⟨_, .bool b, put_eq_ok.mp h⟩
  | case6 =>
    cases h
    exact ⟨_, .unit, .nil hw⟩
  | case7 _ _ _ _ _ ihx ihy =>
    obtain ⟨w₁, hx, hy⟩ := bind_eq_ok.mp h
    obtain ⟨l, hl, hfirst⟩ := ihx hw hx
    obtain ⟨l', hl', hlast⟩ := ihy w₁ hfirst.fits hy
    exact ⟨_, .pair hl hl', hfirst.trans hlast⟩
  | case8 => exact ⟨_, .none, put_eq_ok.mp h⟩
  | case9 _ _ _ ih =>
    obtain ⟨w₁, hfirst, hv⟩ := put_bind_eq_ok h
    obtain ⟨l, hl, hlast⟩ := ih w₁ hfirst.fits hv
    exact ⟨_, .some hl, hfirst.trans hlast⟩
  | case10 =>
    cases h
    exact ⟨_, .nil, .nil hw⟩
  | case11 _ _ _ _ _ ihv ihrest =>
    obtain ⟨w₁, hv, hrest⟩ := bind_eq_ok.mp h
    obtain ⟨l, hl, hfirst⟩ := ihv hw hv
    obtain ⟨l', hl', hlast⟩ := ihrest w₁ hfirst.fits hrest
    exact ⟨_, .cons hl hl', hfirst.trans hlast⟩
  | case12 _ _ _ hn ih =>
    obtain ⟨w₁, hfirst, hrun⟩ := put_bind_eq_ok h
    obtain ⟨l, hl, hlast⟩ := ih w₁ hfirst.fits hrun
    exact ⟨_, .vec hn hl, hfirst.trans hlast⟩
  | case14 _ _ _ _ ih =>
    obtain ⟨l, hl, happends⟩ := ih hw h
    exact ⟨l, .array hl, happends⟩
  | case15 _ _ _ ih =>
    obtain ⟨l, hl, happends⟩ := ih hw h
    exact ⟨l, .box hl, happends⟩
  | case16 _ _ hn ih =>
    obtain ⟨w₁, hfirst, hrun⟩ := put_bind_eq_ok h
    obtain ⟨l, hl, hlast⟩ := ih w₁ hfirst.fits hrun
    exact ⟨_, .string hn.1 hn.2 hl, hfirst.trans hlast⟩
  | case18 _ _ hn =>
    obtain ⟨w₁, hfirst, hbytes⟩ := put_bind_eq_ok h
    exact ⟨_, .arc hn, hfirst.trans (put_eq_ok.mp hbytes)⟩
  | case20 v =>
    cases h
    exact ⟨_, .default v, .nil hw⟩
  | case22 _ _ _ _ hname ih =>
    obtain ⟨l, hl, happends⟩ := ih hw h
    exact ⟨l, .struct hname hl, happends⟩
  | case26 _ _ _ _ _ hname _ _ hindex ih =>
    obtain ⟨w₁, hfirst, hfields⟩ := put_bind_eq_ok h
    obtain ⟨l, hl, hlast⟩ := ih w₁ hfirst.fits hfields
    exact ⟨_, .variant hname hindex hl, hfirst.trans hlast⟩
  | case2 | case4 | case13 | case17 | case19 | case21 | case23 | case24 | case25 | case27 => cases h

theorem write_of_encodes (h : Encodes T s v l) (happends : Appends w w' l) : T.write s v w = .ok w' := by
  induction h generalizing w w' with
  | int hn | usize hn => exact (if_pos hn).trans (put_eq_ok.mpr happends)
  | bool | none => exact put_eq_ok.mpr happends
  | unit | nil =>
    obtain ⟨-, rfl⟩ := happends
    exact congrArg Except.ok (by rw [append_nil])
  | pair _ _ ihx ihy | cons _ _ ihx ihy =>
    obtain ⟨hfirst, hlast⟩ := happends.split
    exact bind_eq_ok.mpr ⟨_, ihx hfirst, ihy hlast⟩
  | some _ ih =>
    obtain ⟨hfirst, hlast⟩ := happends.split
    exact bind_eq_ok.mpr ⟨_, put_eq_ok.mpr hfirst, ih hlast⟩
  | vec hn _ ih =>
    obtain ⟨hfirst, hlast⟩ := happends.split
    exact (if_pos hn).trans (bind_eq_ok.mpr ⟨_, put_eq_ok.mpr hfirst, ih hlast⟩)
  | array _ ih | box _ ih => exact ih happends
  | string hn hutf _ ih =>
    obtain ⟨hfirst, hlast⟩ := happends.split
    exact (if_pos ⟨hn, hutf⟩).trans (bind_eq_ok.mpr ⟨_, put_eq_ok.mpr hfirst, ih hlast⟩)
  | arc hn =>
    obtain ⟨hfirst, hlast⟩ := happends.split
    exact (if_pos hn).trans (bind_eq_ok.mpr ⟨_, put_eq_ok.mpr hfirst, put_eq_ok.mpr hlast⟩)
  | default =>
    obtain ⟨-, rfl⟩ := happends
    rw [write, if_pos rfl, append_nil]
  | struct hname _ ih =>
    rw [write, hname]
    exact ih happends
  | variant hname hindex _ ih =>
    obtain ⟨hfirst, hlast⟩ := happends.split
    rw [write, hname]
    dsimp only
    rw [hindex]
    exact bind_eq_ok.mpr ⟨_, put_eq_ok.mpr hfirst, ih hlast⟩

/-! ## Parts of the reader -/

section Parts

variable {α β : Type} {r r' : Reader} {x : Read α}

theorem read_bind {f : α → Read β} :
    (x >>= f) r = match x r with
      | (.ok a, r) => f a r
      | (.error e, r) => (.error e, r) :=
  rfl

theorem read_bind_eq_ok {f : α → Read β} {b : β} :
    (x >>= f) r = (.ok b, r') ↔ ∃ a r₁, x r = (.ok a, r₁) ∧ f a r₁ = (.ok b, r') := by
  rw [read_bind]
  rcases x r with ⟨_ | a, r₁⟩
  · exact ⟨nofun, fun ⟨_, _, h, _⟩ => nomatch h⟩
  · exact ⟨fun h => ⟨a, r₁, rfl, h⟩, fun ⟨_, _, h, h'⟩ => by cases h; exact h'⟩

theorem read_pure_eq_ok {a b : α} : (pure a : Read α) r = (.ok b, r') ↔ a = b ∧ r = r' := by
  show (Except.ok a, r) = (.ok b, r') ↔ _
  rw [Prod.mk.injEq, Except.ok.injEq]

/-- A reader whose last step only builds the value. -/
theorem read_map_eq_ok {g : α → β} {b : β} :
    (x >>= fun a => pure (g a)) r = (.ok b, r') ↔ ∃ a, x r = (.ok a, r') ∧ g a = b := by
  simp only [read_bind_eq_ok, read_pure_eq_ok]
  exact ⟨fun ⟨a, _, h, hb, hr⟩ => ⟨a, hr ▸ h, hb⟩, fun ⟨a, h, hb⟩ => ⟨a, _, h, hb, rfl⟩⟩

/-- What is left of a reader's bytes, depth and budget. -/
structure Takes (r r' : Reader) (l : List UInt8) (charge : Nat) : Prop where
  bytes : r.bytes = l ++ r'.bytes
  depth : r'.depth = r.depth
  budget : r.allocationLeft = charge + r'.allocationLeft

theorem Takes.refl (r : Reader) : Takes r r [] 0 := ⟨rfl, rfl, (zero_add _).symm⟩

variable {l : List UInt8}

theorem Takes.trans {r'' : Reader} {l' : List UInt8} {c c' : Nat} (h : Takes r r' l c) (h' : Takes r' r'' l' c') :
    Takes r r'' (l ++ l') (c + c') :=
  ⟨by rw [h.bytes, h'.bytes, append_assoc], h'.depth.trans h.depth, by rw [h.budget, h'.budget, Nat.add_assoc]⟩

theorem take_eq_ok {k : Nat} (h : take k r = (.ok l, r')) : l.length = k ∧ Takes r r' l 0 := by
  unfold take at h
  split at h
  case isTrue hle =>
    cases h
    exact ⟨length_take_of_le hle, (take_append_drop k r.bytes).symm, rfl, (zero_add _).symm⟩
  case isFalse => cases h

variable {rest : List UInt8}

theorem take_append (h : r.bytes = l ++ rest) :
    take l.length r = (.ok l, { r with bytes := rest }) := by
  unfold take
  rw [h, if_pos (by rw [length_append]; omega), take_left, drop_left]

theorem readInt_eq_ok {k n : Nat} (h : readInt k r = (.ok n, r')) : n < 256 ^ k ∧ Takes r r' (bytesLE k n) 0 := by
  obtain ⟨l, r₁, htake, hpure⟩ := read_bind_eq_ok.mp h
  obtain ⟨rfl, rfl⟩ := read_pure_eq_ok.mp hpure
  obtain ⟨rfl, htakes⟩ := take_eq_ok htake
  rw [bytesLE_ofBytesLE]
  exact ⟨ofBytesLE_lt l, htakes⟩

theorem readInt_bytesLE {k n : Nat} (hn : n < 256 ^ k)
    (h : r.bytes = bytesLE k n ++ rest) : readInt k r = (.ok n, { r with bytes := rest }) := by
  refine read_bind_eq_ok.mpr ⟨bytesLE k n, { r with bytes := rest }, ?_,
    read_pure_eq_ok.mpr ⟨ofBytesLE_bytesLE hn, rfl⟩⟩
  have htake := take_append h
  rwa [length_bytesLE] at htake

variable {u : Unit}

theorem allocate_eq_ok {charge : Nat} : allocate charge r = (.ok u, r') ↔
      charge ≤ r.allocationLeft ∧ r' = { r with allocationLeft := r.allocationLeft - charge } := by
  unfold allocate
  split
  case isTrue h =>
    constructor
    · rintro ⟨⟩
      exact ⟨h, rfl⟩
    · rintro ⟨-, rfl⟩
      rfl
  case isFalse h => exact ⟨nofun, fun h' => absurd h'.1 h⟩

theorem takes_allocate {charge : Nat} (h : allocate charge r = (.ok u, r')) : Takes r r' [] charge := by
  obtain ⟨hle, rfl⟩ := allocate_eq_ok.mp h
  exact ⟨rfl, rfl, (Nat.add_sub_cancel' hle).symm⟩

theorem takes_reserve {bytes : Nat} (h : reserve bytes r = (.ok u, r')) : Takes r r' [] 0 := by
  cases h
  exact ⟨rfl, rfl, (zero_add _).symm⟩

theorem nested_eq_ok {a : α} :
    nested x r = (.ok a, r') ↔ r.depth ≠ 64 ∧ ∃ r₁, x { r with depth := r.depth + 1 } = (.ok a, r₁) ∧
      r' = { r₁ with depth := r₁.depth - 1 } := by
  unfold nested
  by_cases h : r.depth = 64
  · rw [if_pos h]
    exact ⟨nofun, fun h' => absurd h h'.1⟩
  · rw [if_neg h]
    rcases x { r with depth := r.depth + 1 } with ⟨_, r₁⟩
    constructor
    · rintro ⟨⟩
      exact ⟨h, r₁, rfl, rfl⟩
    · rintro ⟨-, _, heq, rfl⟩
      cases heq
      rfl

/-- One level deeper and back. -/
theorem Takes.nest {r₁ : Reader} {c : Nat} (h : Takes { r with depth := r.depth + 1 } r₁ l c) :
    Takes r { r₁ with depth := r₁.depth - 1 } l c := by
  refine ⟨h.bytes, ?_, h.budget⟩
  show r₁.depth - 1 = r.depth
  rw [h.depth]
  rfl

end Parts

/-! ## All that is accepted is an encoding -/

/-- A value was read: its encoding was taken from the reader, within the limits. -/
def Accepts (T : Types) (s : Shape) (r : Reader) (v : Value) (r' : Reader) : Prop :=
  ∃ l, Encodes T s v l ∧ Takes r r' l (T.charge s v) ∧ (r.depth ≤ 64 → r.depth + T.depth s v ≤ 64)

section Accepted

variable {r r' : Reader} {s : Shape}

theorem takes_readBool {b : Bool} (h : readBool r = (.ok b, r')) : Takes r r' (bytesLE 1 b.toNat) 0 := by
  obtain ⟨n, r₁, hint, hmatch⟩ := read_bind_eq_ok.mp h
  obtain ⟨-, htakes⟩ := readInt_eq_ok hint
  match n, hmatch with
  | 0, hmatch | 1, hmatch =>
    obtain ⟨rfl, rfl⟩ := read_pure_eq_ok.mp hmatch
    exact htakes
  | n + 2, hmatch => cases hmatch

variable {read : Read Value}

theorem accepts_run (hread : ∀ r v r', read r = (.ok v, r') → Accepts T s r v r')
    {n : Nat} {l : Value} (h : readRun read n r = (.ok l, r')) : l.count = n ∧ Accepts T (.run n s) r l r' := by
  induction n generalizing r l with
  | zero =>
    obtain ⟨rfl, rfl⟩ := read_pure_eq_ok.mp h
    exact ⟨rfl, [], .nil, .refl r, fun h => h⟩
  | succ n ih =>
    obtain ⟨v, r₁, hv, h⟩ := read_bind_eq_ok.mp h
    obtain ⟨rest, hrest, rfl⟩ := read_map_eq_ok.mp h
    obtain ⟨b, hb, htakes, hdepth⟩ := hread r v r₁ hv
    obtain ⟨hcount, b', hb', htakes', hdepth'⟩ := ih hrest
    refine ⟨congrArg (· + 1) hcount, b ++ b', .cons hb hb', htakes.trans htakes', fun hle => ?_⟩
    show r.depth + max (T.depth s v) (T.depth (.run n s) rest) ≤ 64
    rw [htakes.depth] at hdepth'
    have := hdepth hle
    have := hdepth' hle
    omega

theorem accepts_vec (hread : ∀ r v r', read r = (.ok v, r') → Accepts T s r v r')
    {charge size : Nat → Nat} {l : Value} (h : readVec charge size read r = (.ok l, r')) :
    l.count < 256 ^ 8 ∧ ∃ b, Encodes T (.run l.count s) l b ∧
      Takes r r' (bytesLE 8 l.count ++ b) (charge l.count + T.charge (.run l.count s) l) ∧
      (r.depth ≤ 64 → r.depth + (1 + T.depth (.run l.count s) l) ≤ 64) := by
  obtain ⟨hdeep, r₅, hinner, rfl⟩ := nested_eq_ok.mp h
  obtain ⟨n, r₁, hlength, h⟩ := read_bind_eq_ok.mp hinner
  obtain ⟨_, r₂, hallocate, h⟩ := read_bind_eq_ok.mp h
  obtain ⟨_, r₃, hreserve, h⟩ := read_bind_eq_ok.mp h
  obtain ⟨hn, hint⟩ := readInt_eq_ok hlength
  obtain ⟨rfl, b, hb, hrun, hdepth⟩ := accepts_run hread h
  have hbefore := (hint.trans (takes_allocate hallocate)).trans (takes_reserve hreserve)
  have htakes := (hbefore.trans hrun).nest
  rw [append_nil, append_nil, zero_add, add_zero] at htakes
  refine ⟨hn, b, hb, htakes, fun hle => ?_⟩
  have hdepth₃ : r₃.depth = r.depth + 1 := hbefore.depth
  have := hdepth (by omega)
  omega

theorem cost_run_int (T : Types) (n k : Nat) (l : Value) :
    T.charge (.run n (.int k)) l = 0 ∧ T.depth (.run n (.int k)) l = 0 := by
  have hint : ∀ v, T.charge (.int k) v = 0 ∧ T.depth (.int k) v = 0 := by
    intro v
    cases v <;> exact ⟨rfl, rfl⟩
  induction l generalizing n with
  | cons v _ _ ih =>
    cases n with
    | zero => exact ⟨rfl, rfl⟩
    | succ n =>
      exact ⟨(congrArg₂ (· + ·) (hint v).1 (ih n).1).trans (add_zero 0),
        (congrArg₂ max (hint v).2 (ih n).2).trans (max_self 0)⟩
  | _ => cases n <;> exact ⟨rfl, rfl⟩

theorem cost_default (T : Types) (v : Value) : T.charge (.default v) v = 0 ∧ T.depth (.default v) v = 0 := by
  cases v <;> exact ⟨rfl, rfl⟩

theorem accepts_int {k : Nat} {v : Value}
    (h : (do pure (.int (← readInt k)) : Read Value) r = (.ok v, r')) : Accepts T (.int k) r v r' := by
  obtain ⟨n, hint, rfl⟩ := read_map_eq_ok.mp h
  obtain ⟨hn, htakes⟩ := readInt_eq_ok hint
  exact ⟨_, .int hn, htakes, fun h => h⟩

/-- The named types are given; the rest is an induction on the type. -/
theorem accepts_readAt {named : Nat → Read Value}
    (hnamed : ∀ name r v r', named name r = (.ok v, r') → Accepts T (.named name) r v r') {v : Value}
    (h : T.readAt named s r = (.ok v, r')) : Accepts T s r v r' := by
  induction s generalizing r v r' with
  | int => exact accepts_int h
  | usize =>
    obtain ⟨n, hint, rfl⟩ := read_map_eq_ok.mp h
    obtain ⟨hn, htakes⟩ := readInt_eq_ok hint
    exact ⟨_, .usize hn, htakes, fun h => h⟩
  | bool =>
    obtain ⟨b, hbool, rfl⟩ := read_map_eq_ok.mp h
    exact ⟨_, .bool b, takes_readBool hbool, fun h => h⟩
  | unit =>
    obtain ⟨rfl, rfl⟩ := read_pure_eq_ok.mp h
    exact ⟨_, .unit, .refl r, fun h => h⟩
  | pair a b iha ihb =>
    obtain ⟨x, r₁, hx, h⟩ := read_bind_eq_ok.mp h
    obtain ⟨y, hy, rfl⟩ := read_map_eq_ok.mp h
    obtain ⟨l, hl, htakes, hdepth⟩ := iha hx
    obtain ⟨l', hl', htakes', hdepth'⟩ := ihb hy
    refine ⟨_, .pair hl hl', htakes.trans htakes', fun hle => ?_⟩
    show r.depth + max (T.depth a x) (T.depth b y) ≤ 64
    rw [htakes.depth] at hdepth'
    have := hdepth hle
    have := hdepth' hle
    omega
  | option s ih =>
    obtain ⟨hdeep, r₃, hinner, rfl⟩ := nested_eq_ok.mp h
    obtain ⟨b, r₁, hbool, h⟩ := read_bind_eq_ok.mp hinner
    have htag := takes_readBool hbool
    cases b with
    | false =>
      obtain ⟨rfl, rfl⟩ := read_pure_eq_ok.mp h
      refine ⟨_, .none, htag.nest, fun hle => ?_⟩
      show r.depth + 1 ≤ 64
      omega
    | true =>
      obtain ⟨x, hx, rfl⟩ := read_map_eq_ok.mp h
      obtain ⟨l, hl, htakes, hdepth⟩ := ih hx
      have hall := (htag.trans htakes).nest
      rw [zero_add] at hall
      refine ⟨_, .some hl, hall, fun hle => ?_⟩
      show r.depth + (1 + T.depth s x) ≤ 64
      have hdepth₁ : r₁.depth = r.depth + 1 := htag.depth
      have := hdepth (by omega)
      omega
  | run _ _ ih => exact (accepts_run (fun r v r' => ih) h).2
  | vec _ ih =>
    obtain ⟨l, hvec, rfl⟩ := read_map_eq_ok.mp h
    obtain ⟨hn, b, hb, htakes, hdepth⟩ := accepts_vec (fun r v r' => ih) hvec
    exact ⟨_, .vec hn hb, htakes, hdepth⟩
  | array _ _ ih =>
    obtain ⟨_, r₁, hallocate, h⟩ := read_bind_eq_ok.mp h
    obtain ⟨_, r₂, hreserve, h⟩ := read_bind_eq_ok.mp h
    obtain ⟨l, hrun, rfl⟩ := read_map_eq_ok.mp h
    obtain ⟨-, b, hb, htakes, hdepth⟩ := accepts_run (fun r v r' => ih) hrun
    have hbefore := (takes_allocate hallocate).trans (takes_reserve hreserve)
    have hall := hbefore.trans htakes
    refine ⟨_, .array hb, hall, ?_⟩
    rw [hbefore.depth] at hdepth
    exact hdepth
  | box s ih =>
    obtain ⟨_, r₁, hallocate, h⟩ := read_bind_eq_ok.mp h
    obtain ⟨hdeep, r₄, hinner, rfl⟩ := nested_eq_ok.mp h
    obtain ⟨x, r₂, hx, h⟩ := read_bind_eq_ok.mp hinner
    obtain ⟨_, hreserve, rfl⟩ := read_map_eq_ok.mp h
    obtain ⟨b, hb, htakes, hdepth⟩ := ih hx
    have hall := (takes_allocate hallocate).trans (htakes.trans (takes_reserve hreserve)).nest
    rw [append_nil, add_zero] at hall
    refine ⟨_, .box hb, hall, fun hle => ?_⟩
    show r.depth + (1 + T.depth s x) ≤ 64
    have hsame : r₁.depth = r.depth := (takes_allocate hallocate).depth
    have := hdepth (show r₁.depth + 1 ≤ 64 by omega)
    have : r₁.depth + 1 + T.depth s x ≤ 64 := this
    omega
  | string =>
    obtain ⟨l, r₁, hvec, h⟩ := read_bind_eq_ok.mp h
    split at h
    case isTrue hutf =>
      obtain ⟨rfl, rfl⟩ := read_pure_eq_ok.mp h
      obtain ⟨hn, b, hb, htakes, hdepth⟩ := accepts_vec (T := T) (fun r v r' => accepts_int (k := 1)) hvec
      rw [(cost_run_int ..).1, add_zero, mul_one] at htakes
      rw [(cost_run_int ..).2] at hdepth
      exact ⟨_, .string hn hutf hb, htakes, hdepth⟩
    case isFalse => cases h
  | arc =>
    obtain ⟨n, r₁, hlength, h⟩ := read_bind_eq_ok.mp h
    obtain ⟨_, r₂, hallocate, h⟩ := read_bind_eq_ok.mp h
    obtain ⟨_, r₃, hallocate', h⟩ := read_bind_eq_ok.mp h
    obtain ⟨b, r₄, htake, h⟩ := read_bind_eq_ok.mp h
    obtain ⟨_, hreserve, rfl⟩ := read_map_eq_ok.mp h
    obtain ⟨hn, hint⟩ := readInt_eq_ok hlength
    obtain ⟨rfl, htakes⟩ := take_eq_ok htake
    have hall := (((hint.trans (takes_allocate hallocate)).trans (takes_allocate hallocate')).trans
      htakes).trans (takes_reserve hreserve)
    simp only [append_nil, zero_add, add_zero, mul_one] at hall
    exact ⟨_, .arc hn, hall, fun h => h⟩
  | default v =>
    obtain ⟨rfl, rfl⟩ := read_pure_eq_ok.mp h
    refine ⟨_, .default v, ?_, ?_⟩
    · rw [(cost_default ..).1]
      exact .refl r
    · rw [(cost_default ..).2]
      exact fun h => h
  | named name => exact hnamed name r v r' h

theorem Variants.find_tag {variants : Variants} {tag index : Nat}
    (h : variants.list.findIdx? (·.1 == tag) = some index) : ∃ s, variants.list[index]? = some (tag, s) := by
  obtain ⟨hlt, hfound, -⟩ := findIdx?_eq_some_iff_getElem.mp h
  refine ⟨variants.list[index].2, (getElem?_eq_getElem hlt).trans (congrArg some ?_)⟩
  rw [← beq_iff_eq.mp hfound]

/-- Fuel is used up by the named types alone. -/
theorem accepts_readNamed {fuel name : Nat} {v : Value} (h : T.readNamed fuel name r = (.ok v, r')) :
    Accepts T (.named name) r v r' := by
  induction fuel generalizing name r v r' with
  | zero => cases h
  | succ _ ih =>
    cases hname : T.define name with
    | struct =>
      rw [readNamed, hname] at h
      obtain ⟨fields, hfields, rfl⟩ := read_map_eq_ok.mp h
      obtain ⟨l, hl, htakes, hdepth⟩ := accepts_readAt (fun name r v r' => ih) hfields
      refine ⟨l, .struct hname hl, ?_, ?_⟩
      · rwa [charge, hname]
      · rwa [depth, hname]
    | enum variants =>
      rw [readNamed, hname] at h
      obtain ⟨hdeep, r₄, hinner, rfl⟩ := nested_eq_ok.mp h
      obtain ⟨tag, r₁, htag, h⟩ := read_bind_eq_ok.mp hinner
      obtain ⟨-, htakes⟩ := readInt_eq_ok htag
      cases hfind : variants.list.findIdx? (·.1 == tag) with
      | none =>
        rw [hfind] at h
        cases h
      | some =>
        obtain ⟨s, hindex⟩ := Variants.find_tag hfind
        rw [hfind] at h
        dsimp only at h
        rw [hindex] at h
        obtain ⟨fields, hfields, rfl⟩ := read_map_eq_ok.mp h
        obtain ⟨l, hl, htakes', hdepth⟩ := accepts_readAt (fun name r v r' => ih) hfields
        have hall := (htakes.trans htakes').nest
        rw [zero_add] at hall
        refine ⟨_, .variant hname hindex hl, ?_, fun hle => ?_⟩
        · simpa only [charge, hname, hindex] using hall
        · simp only [depth, hname, hindex]
          have hdepth₁ : r₁.depth = r.depth + 1 := htakes.depth
          have := hdepth (by omega)
          omega

theorem accepts_read {fuel : Nat} {v : Value} (h : T.read fuel s r = (.ok v, r')) : Accepts T s r v r' :=
  accepts_readAt (fun _ _ _ _ => accepts_readNamed) h

end Accepted

/-! ## An encoding is read as its value -/

/-- Whatever stands behind the bytes `l`, they are read as `a`, given so many levels and so much budget. -/
def Reads {α : Type} (x : Read α) (a : α) (l : List UInt8) (depth charge : Nat) : Prop :=
  ∀ r rest, r.bytes = l ++ rest → r.depth + depth ≤ 64 → charge ≤ r.allocationLeft →
    ∃ r', x r = (.ok a, r') ∧ Takes r r' l charge

section Composed

variable {α β : Type} {x : Read α} {f : α → Read β} {a : α} {b : β} {l l' : List UInt8} {d d' c c' : Nat}

theorem Takes.rest {r r' : Reader} (h : Takes r r' l c) {rest : List UInt8} (hbytes : r.bytes = l ++ rest) :
    r'.bytes = rest :=
  append_cancel_left (h.bytes.symm.trans hbytes)

theorem Reads.pure (a : α) : Reads (Pure.pure a) a [] 0 0 :=
  fun r _ _ _ _ => ⟨r, rfl, .refl r⟩

theorem Reads.bind {l'' : List UInt8} {d'' c'' : Nat} (h : Reads x a l d c) (h' : Reads (f a) b l' d' c')
    (hl : l'' = l ++ l') (hd : d'' = max d d') (hc : c'' = c + c') : Reads (x >>= f) b l'' d'' c'' := by
  intro r rest hbytes hdepth hcharge
  subst hl hd hc
  rw [append_assoc] at hbytes
  obtain ⟨r₁, hx, htakes⟩ := h r _ hbytes (by omega) (by omega)
  have hdepth₁ := htakes.depth
  have hbudget := htakes.budget
  obtain ⟨r₂, hf, htakes'⟩ := h' r₁ rest (htakes.rest hbytes) (by omega) (by omega)
  exact ⟨r₂, read_bind_eq_ok.mpr ⟨a, r₁, hx, hf⟩, htakes.trans htakes'⟩

/-- The last step of a reader only builds the value. -/
theorem Reads.map (h : Reads x a l d c) (g : α → β) : Reads (x >>= fun a => Pure.pure (g a)) (g a) l d c :=
  h.bind (.pure (g a)) (append_nil l).symm (max_zero d).symm rfl

theorem Reads.nested (h : Reads x a l d c) : Reads (Checkpoint.nested x) a l (1 + d) c := by
  intro r rest hbytes hdepth hcharge
  obtain ⟨r₁, hx, htakes⟩ := h { r with depth := r.depth + 1 } rest hbytes
    (show r.depth + 1 + d ≤ 64 by omega) hcharge
  exact ⟨_, nested_eq_ok.mpr ⟨by omega, r₁, hx, rfl⟩, htakes.nest⟩

theorem Reads.take (l : List UInt8) : Reads (Checkpoint.take l.length) l l 0 0 :=
  fun _ _ hbytes _ _ => ⟨_, take_append hbytes, hbytes, rfl, (zero_add _).symm⟩

theorem Reads.int {k n : Nat} (hn : n < 256 ^ k) : Reads (readInt k) n (bytesLE k n) 0 0 :=
  fun _ _ hbytes _ _ => ⟨_, readInt_bytesLE hn hbytes, hbytes, rfl, (zero_add _).symm⟩

theorem Reads.bool (b : Bool) : Reads readBool b (bytesLE 1 b.toNat) 0 0 := by
  have hint : Reads (readInt 1) b.toNat (bytesLE 1 b.toNat) 0 0 :=
    .int (lt_of_lt_of_le (Bool.toNat_lt b) (by decide))
  cases b with
  | false => exact hint.bind (.pure false) rfl rfl rfl
  | true => exact hint.bind (.pure true) rfl rfl rfl

theorem Reads.allocate (c : Nat) : Reads (Checkpoint.allocate c) () [] 0 c :=
  fun _ _ _ _ hcharge =>
    have hok := allocate_eq_ok.mpr ⟨hcharge, rfl⟩
    ⟨_, hok, takes_allocate hok⟩

theorem Reads.reserve (n : Nat) : Reads (Checkpoint.reserve n) () [] 0 0 :=
  fun _ _ _ _ _ => ⟨_, rfl, takes_reserve rfl⟩

/-- Storage is paid for and requested before something is read. -/
theorem Reads.storage {y : Read α} (n size : Nat) (h : Reads y a l d c) :
    Reads (do Checkpoint.allocate n; Checkpoint.reserve size; y) a l d (n + c) := by
  refine (Reads.allocate n).bind ?_ (nil_append l).symm (zero_max d).symm rfl
  exact (Reads.reserve size).bind h (nil_append l).symm (zero_max d).symm (zero_add c).symm

theorem Reads.vec {charge size : Nat → Nat} {read : Read Value} {elements : Value}
    (hn : elements.count < 256 ^ 8) (h : Reads (readRun read elements.count) elements l d c) :
    Reads (readVec charge size read) elements (bytesLE 8 elements.count ++ l) (1 + d) (charge elements.count + c) :=
  .nested ((Reads.int hn).bind (h.storage _ _) rfl (zero_max d).symm (zero_add _).symm)

theorem Variants.find_at {variants : Variants} {tag index : Nat} {s : Shape}
    (h : variants.list[index]? = some (tag, s)) : variants.list.findIdx? (·.1 == tag) = some index := by
  obtain ⟨hlt, hat⟩ := List.getElem?_eq_some_iff.mp h
  refine findIdx?_eq_some_iff_getElem.mpr ⟨hlt, beq_iff_eq.mpr (congrArg Prod.fst hat), ?_⟩
  intro j hj hsame
  -- An earlier variant with the tag would be a second one.
  have hlt' : j < variants.list.length := lt_trans hj hlt
  have htags : (variants.list.map Prod.fst)[j]? = (variants.list.map Prod.fst)[index]? := by
    rw [getElem?_map, getElem?_map, h, getElem?_eq_getElem hlt']
    exact congrArg some (beq_iff_eq.mp hsame)
  have := (getElem?_inj (by rwa [length_map]) variants.distinct).mp htags
  omega

end Composed

theorem read_option {fuel : Nat} {s : Shape} :
    T.read fuel (.option s) = nested (do
      if ← readBool then
        let v ← T.read fuel s
        pure (Value.some v)
      else pure Value.none) :=
  rfl

open Value

/-- Enough fuel is as much as the value has named types inside each other. -/
theorem read_of_encodes (h : Encodes T s v l) :
    ∃ least, ∀ fuel ≥ least, Reads (T.read fuel s) v l (T.depth s v) (T.charge s v) := by
  induction h with
  | int hn | usize hn => exact ⟨0, fun _ _ => (Reads.int hn).map int⟩
  | bool b => exact ⟨0, fun _ _ => (Reads.bool b).map bool⟩
  | unit | nil => exact ⟨0, fun _ _ => .pure _⟩
  | pair _ _ ihx ihy =>
    obtain ⟨m, hx⟩ := ihx
    obtain ⟨n, hy⟩ := ihy
    refine ⟨max m n, fun fuel hfuel => ?_⟩
    exact (hx fuel (by omega)).bind ((hy fuel (by omega)).map _) rfl rfl rfl
  | none =>
    refine ⟨0, fun _ _ => ?_⟩
    rw [read_option]
    have hnone : Reads (pure Value.none) Value.none [] 0 0 := .pure _
    exact Reads.nested (d := 0) ((Reads.bool false).bind hnone rfl rfl rfl)
  | @some s v _ _ ih =>
    obtain ⟨n, hv⟩ := ih
    refine ⟨n, fun fuel hfuel => ?_⟩
    refine Reads.nested (d := T.depth s v) ((Reads.bool true).bind ?_ rfl (zero_max _).symm
      (zero_add _).symm)
    exact (hv fuel hfuel).map Value.some
  | cons _ _ ihv ihrest =>
    obtain ⟨m, hv⟩ := ihv
    obtain ⟨n, hrest⟩ := ihrest
    refine ⟨max m n, fun fuel hfuel => ?_⟩
    exact (hv fuel (by omega)).bind ((hrest fuel (by omega)).map _) rfl rfl rfl
  | vec hn _ ih =>
    obtain ⟨n, hrun⟩ := ih
    exact ⟨n, fun fuel hfuel => (Reads.vec hn (hrun fuel hfuel)).map vec⟩
  | array _ ih =>
    obtain ⟨n, hrun⟩ := ih
    exact ⟨n, fun fuel hfuel => ((hrun fuel hfuel).map array).storage _ _⟩
  | box _ ih =>
    obtain ⟨n, hv⟩ := ih
    refine ⟨n, fun fuel hfuel => (Reads.allocate _).bind (.nested ?_) rfl (zero_max _).symm rfl⟩
    exact (hv fuel hfuel).bind ((Reads.reserve _).map _) (append_nil _).symm (max_zero _).symm rfl
  | @string bytes _ hn hutf _ ih =>
    obtain ⟨n, hrun⟩ := ih
    refine ⟨n, fun fuel hfuel => ?_⟩
    have hbytes := hrun fuel hfuel
    rw [(cost_run_int ..).2, (cost_run_int ..).1] at hbytes
    have hstring : Reads (if T.isUtf8 bytes then pure (.string bytes) else fail .invalidState)
        (string bytes) [] 0 0 := by
      rw [if_pos hutf]
      exact .pure _
    exact (Reads.vec hn hbytes).bind hstring (append_nil _).symm rfl (mul_one bytes.count).symm
  | @arc bytes hn =>
    refine ⟨0, fun _ _ => (Reads.int hn).bind ?_ rfl rfl (zero_add _).symm⟩
    rw [mul_one]
    have hbytes : Reads (do let b ← take bytes.length; reserve (bytes.length + 2 * 8); pure (.arc b))
        (arc bytes) bytes 0 0 :=
      (Reads.take bytes).bind ((Reads.reserve _).map _) (append_nil _).symm rfl rfl
    exact (Reads.allocate _).bind ((Reads.allocate _).bind hbytes rfl rfl rfl) rfl rfl rfl
  | default v =>
    refine ⟨0, fun _ _ => ?_⟩
    rw [(cost_default ..).2, (cost_default ..).1]
    exact .pure v
  | @struct name _ _ _ hname _ ih =>
    obtain ⟨n, hfields⟩ := ih
    refine ⟨n + 1, fun fuel hfuel => ?_⟩
    obtain ⟨fuel, rfl⟩ : ∃ k, fuel = k + 1 := ⟨fuel - 1, by omega⟩
    have hread := (hfields fuel (by omega)).map struct
    show Reads (T.readNamed (fuel + 1) name) _ _ _ _
    simp only [readNamed, depth, charge, hname]
    exact hread
  | @variant name index _ variants _ _ _ hname hindex _ ih =>
    obtain ⟨n, hfields⟩ := ih
    refine ⟨n + 1, fun fuel hfuel => ?_⟩
    obtain ⟨fuel, rfl⟩ : ∃ k, fuel = k + 1 := ⟨fuel - 1, by omega⟩
    have hread := (hfields fuel (by omega)).map (variant index)
    show Reads (T.readNamed (fuel + 1) name) _ _ _ _
    simp only [readNamed, depth, charge, hname, hindex]
    refine .nested ((Reads.int ?_).bind ?_ rfl (zero_max _).symm (zero_add _).symm)
    · exact variants.small _ (mem_map_of_mem (mem_of_getElem? hindex))
    · rw [Variants.find_at hindex]
      dsimp only
      rw [hindex]
      exact hread

/-! ## Storage -/

/-- However a reader ends, it requests no more storage than `credit` above what it takes from the budget. -/
def Saves {α : Type} (x : Read α) (credit : Nat) : Prop :=
  ∀ r, (x r).2.requested + (x r).2.allocationLeft ≤ r.requested + r.allocationLeft + credit

section Storage

variable {α β : Type} {x : Read α} {f : α → Read β} {c c' : Nat}

theorem Saves.pure (a : α) : Saves (Pure.pure a) 0 := fun _ => le_refl _

theorem Saves.fail (e : CheckpointError) : Saves (Checkpoint.fail e : Read α) 0 := fun _ => le_refl _

theorem Saves.bind (h : Saves x c) (h' : ∀ a, Saves (f a) c') : Saves (x >>= f) (c + c') := by
  intro r
  have hx := h r
  rw [read_bind]
  generalize x r = result at hx
  rcases result with ⟨_ | a, r₁⟩
  · dsimp only at hx ⊢
    omega
  · have := h' a r₁
    dsimp only at hx ⊢
    omega

/-- Two readers that request nothing on credit. -/
theorem Saves.seq (h : Saves x 0) (h' : ∀ a, Saves (f a) 0) : Saves (x >>= f) 0 := h.bind h'

theorem Saves.nested (h : Saves x c) : Saves (Checkpoint.nested x) c := by
  intro r
  unfold Checkpoint.nested
  split
  · exact Nat.le_add_right _ _
  · exact h { r with depth := r.depth + 1 }

theorem Saves.take (n : Nat) : Saves (Checkpoint.take n) 0 := by
  intro r
  unfold Checkpoint.take
  split <;> exact le_refl _

theorem Saves.int (k : Nat) : Saves (readInt k) 0 := (Saves.take k).seq fun _ => .pure _

theorem Saves.bool : Saves readBool 0 := by
  refine (Saves.int 1).seq fun n => ?_
  match n with
  | 0 | 1 => exact .pure _
  | _ + 2 => exact .fail _

theorem Saves.reserve (n : Nat) : Saves (Checkpoint.reserve n) n := by
  intro r
  show r.requested + n + r.allocationLeft ≤ r.requested + r.allocationLeft + n
  omega

/-- What was paid for may be requested later. -/
theorem Saves.paid {y : Read β} (h : Saves y (c + c')) : Saves (do Checkpoint.allocate c; y) c' := by
  intro r
  rw [read_bind]
  unfold Checkpoint.allocate
  by_cases hle : c ≤ r.allocationLeft
  · rw [if_pos hle]
    have hy := h { r with allocationLeft := r.allocationLeft - c }
    dsimp only at hy ⊢
    omega
  · rw [if_neg hle]
    exact Nat.le_add_right _ _

theorem Saves.storage {y : Read β} {n size : Nat} (hsize : size ≤ n) (h : Saves y 0) :
    Saves (do Checkpoint.allocate n; Checkpoint.reserve size; y) 0 := by
  refine .paid fun r => ?_
  have := (Saves.reserve size).bind (fun _ => h) r
  omega

variable {read : Read Value}

theorem Saves.run (h : Saves read 0) (n : Nat) : Saves (readRun read n) 0 := by
  induction n with
  | zero => exact .pure _
  | succ _ ih => exact h.seq fun _ => ih.seq fun _ => .pure _

theorem Saves.vec {charge size : Nat → Nat} (hsize : ∀ n, size n ≤ charge n)
    (h : Saves read 0) : Saves (readVec charge size read) 0 :=
  .nested ((Saves.int 8).seq fun n => .storage (hsize n) (h.run n))

end Storage

theorem size_le_charge (n : Nat) (s : Shape) : n * T.sizeOf s ≤ T.chargeOf n s :=
  Nat.mul_le_mul_left n (Nat.le_max_left ..)

theorem saves_readAt {named : Nat → Read Value} (hnamed : ∀ name, Saves (named name) 0) (s : Shape) :
    Saves (T.readAt named s) 0 := by
  induction s with
  | int k => exact (Saves.int k).seq fun _ => .pure _
  | usize => exact (Saves.int 8).seq fun _ => .pure _
  | bool => exact Saves.bool.seq fun _ => .pure _
  | unit | default => exact .pure _
  | pair _ _ iha ihb => exact iha.seq fun _ => ihb.seq fun _ => .pure _
  | option _ ih =>
    refine Saves.nested (Saves.bool.seq fun b => ?_)
    cases b with
    | false => exact .pure _
    | true => exact ih.seq fun _ => .pure _
  | run n _ ih => exact ih.run n
  | vec s ih => exact (ih.vec fun n => size_le_charge n s).seq fun _ => .pure _
  | array n s ih => exact .storage (size_le_charge n s) ((ih.run n).seq fun _ => .pure _)
  | box s ih =>
    -- The box is built after its content was read, and paid for before.
    refine .paid (.nested (fun r => ?_))
    have hread := ih.bind (fun v => (Saves.reserve (T.sizeOf s)).bind fun _ => .pure (box v)) r
    have hsize := size_le_charge (T := T) 1 s
    omega
  | string =>
    refine (Saves.vec (fun _ => le_refl _) ((Saves.int 1).seq fun _ => .pure _)).seq fun bytes => ?_
    split
    · exact .pure _
    · exact .fail _
  | arc =>
    refine (Saves.int 8).seq fun n => .paid (.paid fun r => ?_)
    have hread := (Saves.take n).bind
      (fun bytes => (Saves.reserve (n + 2 * 8)).bind fun _ => .pure (arc bytes)) r
    omega
  | named name => exact hnamed name

theorem saves_readNamed (fuel name : Nat) : Saves (T.readNamed fuel name) 0 := by
  induction fuel generalizing name with
  | zero => exact .fail _
  | succ _ ih =>
    cases hname : T.define name with
    | struct s =>
      rw [readNamed, hname]
      exact (saves_readAt ih s).seq fun _ => .pure _
    | enum =>
      rw [readNamed, hname]
      refine Saves.nested ((Saves.int 1).seq fun tag => ?_)
      split
      · exact .fail _
      · split
        · exact .fail _
        · exact (saves_readAt ih _).seq fun _ => .pure _

theorem saves_read (fuel : Nat) (s : Shape) : Saves (T.read fuel s) 0 :=
  saves_readAt (saves_readNamed fuel) s

/-! ## The codec -/

/-- **The codec is a canonical round trip within its budget.**  What is written for a value is read as the
value and nothing behind it is touched; whatever is accepted is exactly what is written for the value
that is returned; and no reader requests more storage than its budget, however it ends. -/
theorem codec_round_trip (T : Types) (s : Shape) :
    (∀ v maximum w, T.write s v (Writer.new maximum) = .ok w →
      ∃ least, ∀ fuel ≥ least, ∀ r rest, r.bytes = w.finish ++ rest → r.depth + T.depth s v ≤ 64 →
        T.charge s v ≤ r.allocationLeft → ∃ r', T.read fuel s r = (.ok v, r') ∧ r'.bytes = rest) ∧
    (∀ fuel r v r', T.read fuel s r = (.ok v, r') →
      (∃ w, T.write s v (Writer.new r.bytes.length) = .ok w ∧ r.bytes = w.finish ++ r'.bytes) ∧
      (r.depth ≤ 64 → r.depth + T.depth s v ≤ 64) ∧ T.charge s v ≤ r.allocationLeft) ∧
    ∀ fuel r, (T.read fuel s r).2.requested ≤ r.requested + r.allocationLeft := by
  refine ⟨?_, ?_, ?_⟩
  · intro v maximum w hwrite
    obtain ⟨l, hl, -, rfl⟩ := encodes_of_write (Nat.zero_le _) hwrite
    obtain ⟨least, hread⟩ := read_of_encodes hl
    refine ⟨least, fun fuel hfuel r rest hbytes hdepth hcharge => ?_⟩
    obtain ⟨r', hok, htakes⟩ := hread fuel hfuel r rest hbytes hdepth hcharge
    exact ⟨r', hok, htakes.rest hbytes⟩
  · intro fuel r v r' hread
    obtain ⟨l, hl, htakes, hdepth⟩ := accepts_read hread
    refine ⟨⟨⟨l, r.bytes.length⟩, write_of_encodes hl ⟨?_, rfl⟩, htakes.bytes⟩, hdepth, ?_⟩
    · show 0 + l.length ≤ r.bytes.length
      rw [htakes.bytes, length_append]
      omega
    · have := htakes.budget
      omega
  · intro fuel r
    have := saves_read (T := T) fuel s r
    omega

/-- A type that contains itself: the end of a list, or a number and a box with the rest. -/
def listTypes : Types where
  define _ := .enum ⟨[(0, .unit), (1, .pair (.int 2) (.pair (.box (.named 0)) .unit))], by decide, by decide⟩
  sizeOf _ := 16
  isUtf8 _ := true

def oneNumber : Value := .variant 1 (.pair (.int 513) (.pair (.box (.variant 0 .unit)) .unit))

/-- One number is written as four bytes; the byte behind them stays. -/
theorem codec_round_trip_list :
    listTypes.write (.named 0) oneNumber (Writer.new 4) = .ok ⟨[1, 1, 2, 0], 4⟩ ∧
    ∃ fuel r', listTypes.read fuel (.named 0) ⟨[1, 1, 2, 0, 7], 16, 0, 0⟩ = (.ok oneNumber, r') ∧
      r'.bytes = [7] := by
  have hwrite : listTypes.write (.named 0) oneNumber (Writer.new 4) = .ok ⟨[1, 1, 2, 0], 4⟩ := by decide
  obtain ⟨least, hread⟩ := (codec_round_trip listTypes (.named 0)).1 oneNumber 4 _ hwrite
  exact ⟨hwrite, least, hread least (Nat.le_refl _) ⟨[1, 1, 2, 0, 7], 16, 0, 0⟩ [7] rfl (by decide) (by decide)⟩

end Compukter.Checkpoint
