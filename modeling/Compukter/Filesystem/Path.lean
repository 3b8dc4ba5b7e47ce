/-
Paths of the virtual file system.

A `str` is a list of Unicode scalars; its length is that of its UTF-8 form.  A path is the list of its
components, and a component carries what `parseUtf8` checks of it.  Which paths are accepted depends on
the limits: `parseUtf8_display` says that a path is parsed from its own text exactly when it `Fits` them.
-/
import Mathlib.Data.List.Lex
import Mathlib.Data.Char
import Mathlib.Algebra.BigOperators.Group.List.Basic
import Compukter.Lib.Fallible

namespace Compukter.Filesystem

open Fallible List

inductive FileSystemError where
  | invalidPath | notFound | alreadyExists | notDirectory | isDirectory | notExecutable | notEmpty
  | readOnly | permissionDenied | staleHandle | quotaExceeded | busy | storageFaulted | closed
  deriving DecidableEq

/-- The bounds of a store, each below the width of its type. -/
structure FileSystemLimits where
  (maximumPathBytes maximumComponentBytes maximumComponents maximumLogicalBytes : Nat)
  (maximumFileBytes maximumNodes maximumDirectoryEntries maximumOpenHandles maximumIoBytes : Nat)
  (maximumRomBytes maximumJournalRecordBytes maximumJournalPayloadBytes maximumCheckpointBytes : Nat)
  (maximumRecoveryRecords maximumRecoveryBytes maximumPersistenceQueueRecords : Nat)
  maximumPersistenceQueueBytes : Nat
  logical_lt : maximumLogicalBytes < 2 ^ 64 := by decide
  file_lt : maximumFileBytes < 2 ^ 64 := by decide
  nodes_lt : maximumNodes < 2 ^ 32 := by decide
  entries_lt : maximumDirectoryEntries < 2 ^ 32 := by decide

/-- The bounds the tests of the source use. -/
def FileSystemLimits.testing : FileSystemLimits where
  maximumPathBytes := 256
  maximumComponentBytes := 64
  maximumComponents := 16
  maximumLogicalBytes := 2 ^ 20
  maximumFileBytes := 2 ^ 16
  maximumNodes := 1024
  maximumDirectoryEntries := 256
  maximumOpenHandles := 32
  maximumIoBytes := 4096
  maximumRomBytes := 2 ^ 20
  maximumJournalRecordBytes := 2 ^ 16
  maximumJournalPayloadBytes := 2 ^ 15
  maximumCheckpointBytes := 2 ^ 20
  maximumRecoveryRecords := 1024
  maximumRecoveryBytes := 4 * 2 ^ 20
  maximumPersistenceQueueRecords := 64
  maximumPersistenceQueueBytes := 2 ^ 20

abbrev Str := List Char

def utf8Len (s : Str) : Nat := (s.map Char.utf8Size).sum

/-- What is checked of a piece between two slashes, apart from its length. -/
def IsComponent (c : Str) : Prop :=
  c ≠ [] ∧ c ≠ ['.'] ∧ c ≠ ['.', '.'] ∧ '/' ∉ c ∧ '\x00' ∉ c

instance : DecidablePred IsComponent := fun c => by unfold IsComponent; infer_instance

structure Component where
  text : Str
  valid : IsComponent text

open Component

theorem Component.text_injective : Function.Injective text := by
  rintro ⟨s, hs⟩ ⟨t, ht⟩ rfl
  rfl

/-- Components are ordered as their texts are. -/
instance : LinearOrder Component := LinearOrder.lift' Component.text Component.text_injective

abbrev VirtualPath := List Component

def homeName : Component := ⟨['h', 'o', 'm', 'e'], by decide⟩

def romName : Component := ⟨['r', 'o', 'm'], by decide⟩

/-! ## Parsing -/

theorem piece_clean {text piece : Str} (hnul : '\x00' ∉ text) (h : piece ∈ text.splitOn '/') :
    '/' ∉ piece ∧ '\x00' ∉ piece := by
  induction text generalizing piece with
  | nil =>
    rw [splitOn_nil, mem_singleton] at h
    subst h
    exact ⟨not_mem_nil, not_mem_nil⟩
  | cons c text ih =>
    have hc : '\x00' ≠ c := fun heq => hnul (heq ▸ mem_cons_self)
    have hrest := fun {p : Str} => @ih p (fun hmem => hnul (mem_cons_of_mem _ hmem))
    rw [splitOn_cons_eq_if_modifyHead] at h
    split at h
    · rcases mem_cons.mp h with rfl | h
      · exact ⟨not_mem_nil, not_mem_nil⟩
      · exact hrest h
    · next hslash =>
      obtain ⟨head, _, hpieces⟩ := exists_cons_of_ne_nil (splitOn_ne_nil '/' text)
      rw [hpieces, modifyHead_cons] at h
      have hne : '/' ≠ c := fun heq => hslash (by simp [← heq])
      rcases mem_cons.mp h with rfl | h
      · have hhead := hrest (hpieces ▸ mem_cons_self)
        exact ⟨by simp [hne, hhead.1], by simp [hc, hhead.2]⟩
      · exact hrest (hpieces ▸ mem_cons_of_mem _ h)

def parseComponents (limits : FileSystemLimits) :
    (pieces : List Str) → (∀ p ∈ pieces, '/' ∉ p ∧ '\x00' ∉ p) → Except FileSystemError (List Component)
  | [], _ => .ok []
  | p :: pieces, hclean =>
    if h : p ≠ [] ∧ p ≠ ['.'] ∧ p ≠ ['.', '.'] ∧ utf8Len p ≤ limits.maximumComponentBytes then do
      let rest ← parseComponents limits pieces fun q hq => hclean q (List.mem_cons_of_mem _ hq)
      return ⟨p, h.1, h.2.1, h.2.2.1, hclean p List.mem_cons_self⟩ :: rest
    else .error .invalidPath

def parseUtf8 (decoded : Str) (limits : FileSystemLimits) : Except FileSystemError VirtualPath :=
  if h : utf8Len decoded > limits.maximumPathBytes ∨ decoded.head? ≠ some '/' ∨ decoded = [] ∨ '\x00' ∈ decoded then
    .error .invalidPath
  else if decoded = ['/'] then .ok []
  else if decoded.getLast? = some '/' then .error .invalidPath
  else do
    let components ← parseComponents limits (decoded.tail.splitOn '/') fun _ hp =>
      piece_clean (fun hnul => h (.inr (.inr (.inr (List.mem_of_mem_tail hnul))))) hp
    demand (components.length ≤ limits.maximumComponents) .invalidPath
    return components

variable (path : VirtualPath)

/-- The text of a path. -/
def display : Str := '/' :: ['/'].intercalate (path.map Component.text)

def encodedLen : Nat :=
  1 + (path.map fun c => utf8Len c.text).sum + (path.length - 1)

def isWithin (path root : VirtualPath) : Bool := root.isPrefixOf path

def parent : Option VirtualPath := if path = [] then none else some path.dropLast

theorem isWithin_iff {path root : VirtualPath} : isWithin path root = true ↔ root <+: path :=
  isPrefixOf_iff_prefix

/-! ## A path and its text -/

/-- The path is accepted under the limits. -/
def Fits (limits : FileSystemLimits) (path : VirtualPath) : Prop :=
  encodedLen path ≤ limits.maximumPathBytes ∧
    (∀ c ∈ path, utf8Len c.text ≤ limits.maximumComponentBytes) ∧ path.length ≤ limits.maximumComponents

instance (limits : FileSystemLimits) (path : VirtualPath) : Decidable (Fits limits path) := by
  unfold Fits
  infer_instance

variable {limits : FileSystemLimits} {path : VirtualPath}

theorem parseComponents_val :
    ∀ {pieces : List Str} (hclean : ∀ p ∈ pieces, '/' ∉ p ∧ '\x00' ∉ p), pieces = path.map text →
      parseComponents limits pieces hclean =
        if ∀ c ∈ path, utf8Len c.text ≤ limits.maximumComponentBytes then .ok path else .error .invalidPath := by
  induction path with
  | nil =>
    rintro _ _ rfl
    rfl
  | cons c path ih =>
    rintro _ hclean rfl
    obtain ⟨s, hs⟩ := c
    show parseComponents limits (s :: path.map text) hclean = _
    rw [parseComponents]
    have hall : (∀ c ∈ (⟨s, hs⟩ :: path : VirtualPath), utf8Len c.text ≤ limits.maximumComponentBytes) ↔
        utf8Len s ≤ limits.maximumComponentBytes ∧ ∀ c ∈ path, utf8Len c.text ≤ limits.maximumComponentBytes :=
      forall_mem_cons
    by_cases hlen : utf8Len s ≤ limits.maximumComponentBytes
    · rw [dif_pos ⟨hs.1, hs.2.1, hs.2.2.1, hlen⟩, ih _ rfl]
      by_cases hpath : ∀ c ∈ path, utf8Len c.text ≤ limits.maximumComponentBytes
      · rw [if_pos hpath, if_pos (hall.mpr ⟨hlen, hpath⟩)]
        rfl
      · rw [if_neg hpath, if_neg fun h => hpath (hall.mp h).2]
        rfl
    · rw [dif_neg fun h => hlen h.2.2.2, if_neg fun h => hlen (hall.mp h).1]

theorem utf8Len_append (s t : Str) : utf8Len (s ++ t) = utf8Len s + utf8Len t := by simp [utf8Len]

theorem utf8Len_intercalate (pieces : List Str) :
    utf8Len (['/'].intercalate pieces) = (pieces.map utf8Len).sum + (pieces.length - 1) := by
  induction pieces with
  | nil => rfl
  | cons _ pieces ih =>
    cases pieces with
    | nil => simp [utf8Len]
    | cons =>
      rw [intercalate_cons_cons, utf8Len_append, utf8Len_append, ih]
      have hslash : utf8Len ['/'] = 1 := rfl
      simp only [map_cons, sum_cons, length_cons, hslash]
      omega

theorem utf8Len_display : utf8Len (display path) = encodedLen path := by
  have hslash : utf8Len ['/'] = 1 := rfl
  rw [display, ← singleton_append, utf8Len_append, hslash, utf8Len_intercalate, encodedLen, map_map,
    length_map, ← Nat.add_assoc]
  rfl

variable {pieces : List Str}

theorem mem_intercalate {x c : Char} (h : c ∈ [x].intercalate pieces) : c = x ∨ ∃ p ∈ pieces, c ∈ p := by
  induction pieces with
  | nil => cases h
  | cons p pieces ih =>
    cases pieces with
    | nil => exact .inr ⟨p, mem_cons_self, by simpa using h⟩
    | cons =>
      rw [intercalate_cons_cons, mem_append, mem_append, mem_singleton] at h
      rcases h with (h | h) | h
      · exact .inr ⟨p, mem_cons_self, h⟩
      · exact .inl h
      · exact (ih h).imp_right fun ⟨r, hr, hc⟩ => ⟨r, mem_cons_of_mem _ hr, hc⟩

/-- The last character of a text is that of its last piece. -/
theorem getLast?_intercalate (hne : pieces ≠ []) (hlast : ∀ p ∈ pieces, p ≠ []) :
    (['/'].intercalate pieces).getLast? = (pieces.getLast hne).getLast? := by
  induction pieces with
  | nil => exact absurd rfl hne
  | cons p pieces ih =>
    cases pieces with
    | nil => simp
    | cons q pieces =>
      have hq : q ≠ [] := hlast q (by simp)
      have hrest : ['/'].intercalate (q :: pieces) ≠ [] := by
        cases pieces with
        | nil => simpa using hq
        | cons =>
          simp [hq]
      rw [intercalate_cons_cons, getLast?_append_of_ne_nil _ hrest,
        ih (cons_ne_nil q pieces) fun p hp => hlast p (mem_cons_of_mem _ hp),
        getLast_cons (cons_ne_nil q pieces)]

/-- The text of a path does not end with a slash. -/
theorem getLast?_display (hne : path ≠ []) : (display path).getLast? ≠ some '/' := by
  have hpieces : path.map text ≠ [] := by simpa using hne
  have hlast : ∀ p ∈ path.map text, p ≠ [] := by
    intro p hp
    obtain ⟨c, -, rfl⟩ := mem_map.mp hp
    exact c.valid.1
  have htail := getLast?_intercalate hpieces hlast
  rw [getLast_map] at htail
  intro h
  obtain ⟨c, hc⟩ : ∃ c : Component, c = path.getLast hne := ⟨_, rfl⟩
  rw [← hc] at htail
  have hsome : (['/'].intercalate (path.map text)).getLast? ≠ none := by
    rw [htail, ne_eq, getLast?_eq_none_iff]
    exact c.valid.1
  have hslash : c.text.getLast? = some '/' := by
    rw [← htail, ← h, display]
    cases hbody : ['/'].intercalate (path.map text) with
    | nil =>
      rw [hbody] at hsome
      exact absurd rfl hsome
    | cons => rw [getLast?_cons_cons]
  exact c.valid.2.2.2.1 (mem_of_getLast? hslash)

/-- **A path is read back from its text** exactly when it fits the limits. -/
theorem parseUtf8_display (limits : FileSystemLimits) (path : VirtualPath) : parseUtf8 (display path) limits =
      if encodedLen path ≤ limits.maximumPathBytes ∧ (path = [] ∨ Fits limits path) then .ok path
      else .error .invalidPath := by
  have hnul : '\x00' ∉ display path := by
    intro h
    rcases mem_cons.mp h with h | h
    · exact absurd h (by decide)
    · rcases mem_intercalate h with h | ⟨p, hp, hc⟩
      · exact absurd h (by decide)
      · obtain ⟨c, -, rfl⟩ := mem_map.mp hp
        exact c.valid.2.2.2.2 hc
  rw [parseUtf8]
  by_cases hlen : encodedLen path ≤ limits.maximumPathBytes
  · have hok : ¬(utf8Len (display path) > limits.maximumPathBytes ∨ (display path).head? ≠ some '/' ∨
        display path = [] ∨ '\x00' ∈ display path) := by
      rw [utf8Len_display]
      rintro (h | h | h | h)
      · omega
      · exact h rfl
      · cases h
      · exact hnul h
    rw [dif_neg hok]
    by_cases hpath : path = []
    · subst hpath
      rw [if_pos (by rfl), if_pos ⟨hlen, .inl rfl⟩]
    · have hroot : display path ≠ ['/'] := by
        obtain ⟨c, rest, rfl⟩ := exists_cons_of_ne_nil hpath
        intro h
        have hnil := (cons.inj h).2
        have hc := c.valid.1
        cases rest with
        | nil => exact hc (by simpa using hnil)
        | cons =>
          simp [hc] at hnil
      have hpieces : (display path).tail.splitOn '/' = path.map text := by
        refine splitOn_intercalate '/' (fun p hp => ?_) (by simpa using hpath)
        obtain ⟨c, -, rfl⟩ := mem_map.mp hp
        exact c.valid.2.2.2.1
      rw [if_neg hroot, if_neg (getLast?_display hpath), parseComponents_val _ hpieces]
      by_cases hcomponents : ∀ c ∈ path, utf8Len c.text ≤ limits.maximumComponentBytes
      · rw [if_pos hcomponents, ok_bind]
        by_cases hcount : path.length ≤ limits.maximumComponents
        · rw [if_pos ⟨hlen, .inr ⟨hlen, hcomponents, hcount⟩⟩]
          simp [demand, hcount]
        · rw [if_neg]
          · simp [demand, hcount]
          · rintro ⟨-, h | h⟩
            · exact hpath h
            · exact hcount h.2.2
      · rw [if_neg hcomponents, if_neg]
        · rfl
        · rintro ⟨-, h | h⟩
          · exact hpath h
          · exact hcomponents h.2.1
  · rw [dif_pos (.inl (by rw [utf8Len_display]; omega)), if_neg fun h => hlen h.1]

/-- A path below a mount is never the root, so only `Fits` decides. -/
theorem parseUtf8_display_of_ne_nil (h : path ≠ []) :
    parseUtf8 (display path) limits = if Fits limits path then .ok path else .error .invalidPath := by
  rw [parseUtf8_display]
  by_cases hfits : Fits limits path
  · rw [if_pos ⟨hfits.1, .inr hfits⟩, if_pos hfits]
  · rw [if_neg hfits, if_neg]
    rintro ⟨-, hnil | hfits'⟩
    · exact h hnil
    · exact hfits hfits'

theorem parseComponents_text {path : VirtualPath}
    (hclean : ∀ p ∈ pieces, '/' ∉ p ∧ '\x00' ∉ p) (h : parseComponents limits pieces hclean = .ok path) :
    path.map text = pieces := by
  induction pieces generalizing path with
  | nil =>
    cases h
    rfl
  | cons _ _ ih =>
    rw [parseComponents] at h
    split at h
    · obtain ⟨_, hrest, h⟩ := bind_eq_ok.mp h
      cases h
      rw [map_cons, ih _ hrest]
    · cases h

/-- **Exactly the texts of paths that fit are accepted**, each as the path it is the text of. -/
theorem parseUtf8_eq_ok_iff {decoded : Str} {limits : FileSystemLimits} {path : VirtualPath} :
    parseUtf8 decoded limits = .ok path ↔ decoded = display path ∧
      encodedLen path ≤ limits.maximumPathBytes ∧ (path = [] ∨ Fits limits path) := by
  have htext (h : parseUtf8 decoded limits = .ok path) : decoded = display path := by
    rw [parseUtf8] at h
    split at h
    · cases h
    · next hok =>
      obtain ⟨_, rfl⟩ := head?_eq_some_iff.mp (not_not.mp fun hne => hok (.inr (.inl hne)))
      split_ifs at h with hroot
      · cases h
        exact hroot
      · obtain ⟨_, hparse, h⟩ := bind_eq_ok.mp h
        obtain ⟨-, -, h⟩ := bind_eq_ok.mp h
        cases h
        rw [display, parseComponents_text _ hparse, intercalate_splitOn, tail_cons]
  refine ⟨fun h => ⟨htext h, ?_⟩, fun h => by rw [h.1, parseUtf8_display, if_pos h.2]⟩
  rw [htext h, parseUtf8_display] at h
  by_contra hfits
  rw [if_neg hfits] at h
  cases h

end Compukter.Filesystem
