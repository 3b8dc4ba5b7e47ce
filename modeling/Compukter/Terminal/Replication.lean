/-
The changes of a terminal on their way to its replicas.

Changes are collected in `pending` until they are committed, and the committed deltas are kept in a journal of
bounded length.  When too many changes are pending they are given up, and the next commit sends the whole screen.

`Tracks base r s` says that the pending changes lead from the screen `base` to `s`.  It is kept whether a change is
joined to the last patch, drops what a reset makes pointless, or makes the pending changes too many.
-/
import Compukter.Terminal.Screen

namespace Compukter.Terminal

open Fallible RowRing List

def maximumPendingChanges : Nat := 256

def maximumAccumulatedChanges : Nat := 4096

def maximumAccumulatedCells : Nat := 8192

structure TerminalDelta where
  (baseRevision targetRevision : Nat)
  changes : List TerminalChange
  deriving DecidableEq

structure TerminalSnapshot where
  revision : Nat
  screen : Screen
  deriving DecidableEq

inductive TerminalCommit where
  | unchanged (revision : Nat)
  | committed (delta : TerminalDelta)
  deriving DecidableEq

inductive TerminalUpdate where
  | unchanged (revision : Nat)
  | delta (delta : TerminalDelta)
  | full (snapshot : TerminalSnapshot)
  deriving DecidableEq

def encodedCellCount : TerminalChange → Nat
  | .patch _ cells | .historyAppend _ cells | .historyReplace _ cells => cells.length
  | .fill .. | .scroll .. => 1
  | .cursor .. | .reset => 0

structure ReplicationState where
  (revision journalCapacity : Nat)
  pending : List TerminalChange
  journal : List TerminalDelta
  requiresFullReplacement : Bool

namespace ReplicationState

def new (journalCapacity : Nat) : ReplicationState := ⟨0, journalCapacity, [], [], false⟩

/-- The pending changes with one more.  A patch is joined to a patch that ends where it starts. -/
def push (pending : List TerminalChange) (change : TerminalChange) : List TerminalChange :=
  match change, pending.getLast? with
  | .patch start cells, some (.patch previousStart previousCells) =>
    if previousStart + previousCells.length = start then
      pending.dropLast ++ [.patch previousStart (previousCells ++ cells)]
    else pending ++ [change]
  | _, _ => pending ++ [change]

variable (r : ReplicationState)

def record (change : TerminalChange) : ReplicationState :=
  if r.requiresFullReplacement then r
  else
    let pending := push r.pending change
    if maximumPendingChanges < pending.length then { r with pending := [], requiresFullReplacement := true }
    else { r with pending }

/-- Only the changes of the history are kept from before a reset. -/
def recordReset : ReplicationState :=
  { r with pending := r.pending.filter TerminalChange.ofHistory }.record .reset

/-- The state after the changes are committed.  A delta with too many cells is not kept in the journal, and
nothing before it is of use without it. -/
def advance (changes : List TerminalChange) : ReplicationState :=
  let delta : TerminalDelta := ⟨r.revision, r.revision + 1, changes⟩
  let journal :=
    if maximumAccumulatedCells < (changes.map encodedCellCount).sum then [] else r.journal ++ [delta]
  { r with
    revision := r.revision + 1
    pending := []
    journal := journal.drop (journal.length - r.journalCapacity)
    requiresFullReplacement := false }

/-- The changes of the next delta: those that are pending, or the whole screen, which has to be there. -/
def deltaChanges (fullCells : Option (List TerminalCell)) (cursor : TerminalPosition)
    (cursorVisible : Bool) (historyStart : Nat) (historyCells : List TerminalCell) : Option (List TerminalChange) :=
  if r.requiresFullReplacement then fullCells.map fun cells =>
    [.reset, .patch 0 cells, .historyReplace historyStart historyCells, .cursor cursor cursorVisible]
  else some r.pending

/-- `none` is a panic: the revisions are used up, or the cells are not there when they are needed. -/
def commit (fullCells : Option (List TerminalCell)) (cursor : TerminalPosition)
    (cursorVisible : Bool) (historyStart : Nat) (historyCells : List TerminalCell) :
    Option (TerminalCommit × ReplicationState) :=
  if r.requiresFullReplacement = false ∧ r.pending = [] then some (.unchanged r.revision, r)
  else do
    let changes ← r.deltaChanges fullCells cursor cursorVisible historyStart historyCells
    if r.revision + 1 < 2 ^ 64 then
      some (.committed ⟨r.revision, r.revision + 1, changes⟩, r.advance changes)
    else none

/-- The loop over the journal: `changes` lead from the base revision to `expected`. -/
def gather (revision : Nat) : List TerminalDelta → Nat → List TerminalChange → Nat → Option (List TerminalChange)
  | [], _, _, _ => none
  | delta :: journal, expected, changes, encodedCells =>
    if delta.targetRevision ≤ expected then gather revision journal expected changes encodedCells
    else if delta.baseRevision ≠ expected then none
    else if maximumAccumulatedChanges < changes.length + delta.changes.length then none
    else
      let encodedCells := encodedCells + (delta.changes.map encodedCellCount).sum
      if maximumAccumulatedCells < encodedCells then none
      else if delta.targetRevision = revision then some (changes ++ delta.changes)
      else gather revision journal delta.targetRevision (changes ++ delta.changes) encodedCells

def deltaSince (baseRevision : Nat) : Option TerminalUpdate :=
  if baseRevision = r.revision then some (.unchanged r.revision)
  else if r.revision < baseRevision then none
  else (gather r.revision r.journal baseRevision [] 0).map fun changes => .delta ⟨baseRevision, r.revision, changes⟩

/-- Nothing has changed since the last commit. -/
def Settled : Prop := r.pending = [] ∧ r.requiresFullReplacement = false

/-! ## Recording -/

/-- The pending changes lead from `base` to `s`, if they were kept. -/
def Tracks (base : Screen) (r : ReplicationState) (s : Screen) : Prop :=
  r.requiresFullReplacement = false → applyAll base r.pending = s

theorem applyAll_push (s : Screen) (pending : List TerminalChange) (change : TerminalChange) :
    applyAll s (push pending change) = applyChange (applyAll s pending) change := by
  unfold push
  split
  · next start cells previousStart previousCells hlast =>
    split
    · next hend =>
      obtain ⟨_, rfl⟩ := getLast?_eq_some_iff.mp hlast
      rw [dropLast_concat, applyAll_concat, applyAll_concat, ← hend, applyChange, applyChange, applyChange,
        overwrite_append]
    · exact applyAll_concat ..
  · exact applyAll_concat ..

variable {r r' : ReplicationState}

/-- What is recorded when the changes were kept. -/
theorem record_kept {change : TerminalChange} (h : (r.record change).requiresFullReplacement = false) :
    r.requiresFullReplacement = false ∧ (r.record change).pending = push r.pending change := by
  unfold record at h ⊢
  split at h
  · next hfull =>
    rw [hfull] at h
    cases h
  · next hkept =>
    rw [if_neg hkept]
    refine ⟨Bool.eq_false_iff.mpr hkept, ?_⟩
    dsimp only at h ⊢
    split at h
    · cases h
    · next hfew => rw [if_neg hfew]

variable {base s : Screen}

theorem Tracks.record (h : Tracks base r s) (change : TerminalChange) :
    Tracks base (r.record change) (applyChange s change) := by
  intro hkept
  obtain ⟨hbefore, hpending⟩ := record_kept hkept
  rw [hpending, applyAll_push, h hbefore]

theorem Tracks.recordReset (h : Tracks base r s) : Tracks base r.recordReset (applyChange s .reset) := by
  intro hkept
  obtain ⟨hbefore, hpending⟩ := record_kept hkept
  rw [ReplicationState.recordReset, hpending, applyAll_push, ← applyAll_concat, applyAll_reset, applyAll_concat,
    h hbefore]

theorem Tracks.settled (h : Tracks base r s) (hsettled : r.Settled) : s = base := by
  have := h hsettled.2
  rw [hsettled.1] at this
  exact this.symm

/-- Recording leaves what is committed alone. -/
structure SameCommitted (r r' : ReplicationState) : Prop where
  revision : r'.revision = r.revision
  journal : r'.journal = r.journal
  journalCapacity : r'.journalCapacity = r.journalCapacity

theorem SameCommitted.refl (r : ReplicationState) : SameCommitted r r := ⟨rfl, rfl, rfl⟩

theorem SameCommitted.trans {r'' : ReplicationState} (h : SameCommitted r r') (h' : SameCommitted r' r'') :
    SameCommitted r r'' :=
  ⟨h'.revision.trans h.revision, h'.journal.trans h.journal, h'.journalCapacity.trans h.journalCapacity⟩

theorem sameCommitted_record (r : ReplicationState) (change : TerminalChange) : SameCommitted r (r.record change) := by
  rw [record]
  split
  · exact .refl r
  · dsimp only
    split
    · exact ⟨rfl, rfl, rfl⟩
    · exact ⟨rfl, rfl, rfl⟩

theorem sameCommitted_recordReset (r : ReplicationState) : SameCommitted r r.recordReset := by
  obtain ⟨hrevision, hjournal, hcapacity⟩ :=
    sameCommitted_record { r with pending := r.pending.filter TerminalChange.ofHistory } .reset
  exact ⟨hrevision, hjournal, hcapacity⟩

/-! ## What is committed -/

/-- The screens that were committed, by revision, and the deltas of the journal between them. -/
structure Logged (states : List Screen) (r : ReplicationState) : Prop where
  length : states.length = r.revision + 1
  journal (delta : TerminalDelta) (h : delta ∈ r.journal) :
    ∃ s, states[delta.baseRevision]? = some s ∧ states[delta.targetRevision]? = some (applyAll s delta.changes)

theorem logged_new (s : Screen) (journalCapacity : Nat) : Logged [s] (new journalCapacity) :=
  ⟨rfl, nofun⟩

variable {states : List Screen}

theorem Logged.of_same (h : Logged states r) (hsame : SameCommitted r r') : Logged states r' :=
  ⟨by rw [hsame.revision]; exact h.length, fun delta hdelta => h.journal delta (hsame.journal ▸ hdelta)⟩

/-- The loop goes on from one committed screen to the next. -/
theorem gather_spec {revision : Nat} {journal : List TerminalDelta} (hjournal : ∀ delta ∈ journal,
      ∃ s, states[delta.baseRevision]? = some s ∧ states[delta.targetRevision]? = some (applyAll s delta.changes))
    {expected encodedCells : Nat} {changes all : List TerminalChange}
    (hexpected : states[expected]? = some (applyAll base changes))
    (h : gather revision journal expected changes encodedCells = some all) :
    states[revision]? = some (applyAll base all) := by
  induction journal generalizing expected changes encodedCells with
  | nil => cases h
  | cons delta journal ih =>
    obtain ⟨hdelta, hjournal⟩ := forall_mem_cons.mp hjournal
    obtain ⟨s, hs, htarget⟩ := hdelta
    simp only [gather] at h
    split at h
    · exact ih hjournal hexpected h
    split at h
    · cases h
    next hbase =>
    -- the delta starts at the revision that is expected
    have hnext : states[delta.targetRevision]? = some (applyAll base (changes ++ delta.changes)) := by
      rw [Decidable.not_not.mp hbase, hexpected] at hs
      cases hs
      rw [htarget, applyAll_append]
    split at h
    · cases h
    split at h
    · cases h
    split at h
    · next heq =>
      cases h
      exact heq ▸ hnext
    · exact ih hjournal hnext h

/-- What a replica at a revision is given from the journal. -/
theorem Logged.deltaSince (h : Logged states r) {baseRevision : Nat} {update : TerminalUpdate}
    (hupdate : r.deltaSince baseRevision = some update) : update = .unchanged r.revision ∧ baseRevision = r.revision ∨
      ∃ changes, update = .delta ⟨baseRevision, r.revision, changes⟩ ∧ baseRevision < r.revision ∧
        ∀ s, states[baseRevision]? = some s → states[r.revision]? = some (applyAll s changes) := by
  rw [ReplicationState.deltaSince] at hupdate
  split at hupdate
  · next heq =>
    cases hupdate
    exact .inl ⟨rfl, heq⟩
  · next hne =>
    split at hupdate
    · cases hupdate
    · next hle =>
      obtain ⟨changes, hgather, rfl⟩ := Option.map_eq_some_iff.mp hupdate
      exact .inr ⟨changes, rfl, by omega, fun s hs => gather_spec h.journal hs hgather⟩

/-- The delta that sends the whole screen does. -/
theorem applyAll_full (base s : Screen) (hcells : s.cells.length = cellCount) :
    applyAll base [.reset, .patch 0 s.cells, .historyReplace s.historyStart s.history, .cursor s.cursor s.visible] = s := by
  have hpatch : overwrite (replicate cellCount defaultCell) 0 s.cells = s.cells :=
    overwrite_all (by rw [hcells, length_replicate])
  simp [applyAll, applyChange, hpatch]

theorem Logged.advance {changes : List TerminalChange} (h : Logged states r)
    (hbase : states[r.revision]? = some base) (happly : applyAll base changes = s) :
    Logged (states ++ [s]) (r.advance changes) := by
  have hkeep : ∀ (i : Nat) (t : Screen), states[i]? = some t → (states ++ [s])[i]? = some t := by
    intro i t ht
    rw [getElem?_append_left (List.getElem?_eq_some_iff.mp ht).1, ht]
  refine ⟨by rw [length_append, h.length]; rfl, fun delta hdelta => ?_⟩
  -- what is left of the journal is from before, or the new delta
  have hmem : delta ∈ r.journal ∨ delta = ⟨r.revision, r.revision + 1, changes⟩ := by
    have hmem := mem_of_mem_drop hdelta
    split at hmem
    · cases hmem
    · exact (mem_append.mp hmem).imp_right mem_singleton.mp
  rcases hmem with hold | rfl
  · obtain ⟨t, ht, htarget⟩ := h.journal delta hold
    exact ⟨t, hkeep _ t ht, hkeep _ _ htarget⟩
  · refine ⟨base, hkeep _ base hbase, ?_⟩
    show (states ++ [s])[r.revision + 1]? = _
    rw [← h.length, getElem?_concat_length, happly]

/-- What a commit does: nothing when nothing is pending, and otherwise its delta leads to the screen. -/
theorem Logged.commit {c : TerminalCommit} (h : Logged states r) (hbase : states[r.revision]? = some base)
    (htracks : Tracks base r s) (hcells : s.cells.length = cellCount)
    (hcommit : r.commit (if r.requiresFullReplacement then some s.cells else none) s.cursor s.visible s.historyStart
      s.history = some (c, r')) : c = .unchanged r.revision ∧ r' = r ∧ r.Settled ∨
      ∃ changes, c = .committed ⟨r.revision, r.revision + 1, changes⟩ ∧ applyAll base changes = s ∧
        Logged (states ++ [s]) r' ∧ r'.Settled ∧ r'.revision = r.revision + 1 := by
  rw [ReplicationState.commit] at hcommit
  split at hcommit
  · next hsettled =>
    cases hcommit
    exact .inl ⟨rfl, rfl, hsettled.2, hsettled.1⟩
  · obtain ⟨changes, hchanges, hcommit⟩ := Option.bind_eq_some_iff.mp hcommit
    split at hcommit
    · cases hcommit
      have happly : applyAll base changes = s := by
        rw [deltaChanges] at hchanges
        split at hchanges
        · cases hchanges
          exact applyAll_full base s hcells
        · next hkept =>
          cases hchanges
          exact htracks (Bool.eq_false_iff.mpr hkept)
      exact .inr ⟨changes, rfl, happly, h.advance hbase happly, ⟨rfl, rfl⟩, rfl⟩
    · cases hcommit

end ReplicationState

end Compukter.Terminal
