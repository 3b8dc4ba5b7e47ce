/-
Replaying a whole history.

`History` lists the calls that were accepted, with the tree each of them found and the one it left.  Their
records lead from the tree at the start to the tree at the end, as long as the paths of every call fit the
limits (`History.replays`).  The first call whose paths do not fit has a record that is refused, and because
it is confirmed, recovery fails.  So `recover_history` is an equivalence.
-/
import Compukter.Filesystem.AccountingRun
import Compukter.Filesystem.Replay

namespace Compukter.Filesystem

open Fallible OrderedMap Transaction ComputerFileSystem JournalRecord Nat Option List

variable {sha256 : List UInt8 → Digest}

/-! ## The record of a call -/

/-- The paths of the operation, and the new paths of what it moves, fit the limits. -/
def PathsFit (limits : FileSystemLimits) (home : Directory) (operation : JournalOperation) : Prop :=
  (∀ path ∈ operation.paths, Fits limits path) ∧ MovesFit limits home operation

def commandRecord (command : MutationCommand) : RecoveryJournalRecord := ⟨command.generation, command.journal⟩

section Record

variable {limits : FileSystemLimits} {generation : Nat} {home home' : Directory} {mutation : Mutation}

theorem Change.generation_eq (h : Change sha256 limits generation home mutation home') :
    mutation.generation = generation := by
  cases h <;> rfl

theorem Change.inRange (h : Change sha256 limits generation home mutation home') (hlt : generation < 2 ^ 64) :
    mutation.operation.InRange limits := by
  cases h with
  | createDirectory => exact hlt
  | putFile _ _ _ hsize => exact ⟨hlt, hsize⟩
  | remove | rename => trivial

variable {fs fs' : ComputerFileSystem} {publication : Publication}

/-- With persistence attached, an accepted call has a command with its encoded record. -/
theorem Committed.command_eq (h : Committed sha256 fs publication fs') {persistence : ComputerPersistence}
    (hpersistence : fs.persistence = some persistence) :
    ∃ record journal, new persistence.computerId (fs.generation + 1) fs.generation
        publication.mutation.operation = .ok record ∧ record.encode sha256 persistence.limits = .ok journal ∧
      publication.command = some ⟨persistence.computerId, fs.generation + 1, publication.mutation.object, journal⟩ := by
  obtain ⟨_, hpublished⟩ := h.published
  have hgeneration := h.change.generation_eq
  rw [preparePersistence, hpersistence] at hpublished
  obtain ⟨command, hcommand, hpublication⟩ := bind_eq_ok.mp hpublished
  rw [ComputerPersistence.prepare, hgeneration, Nat.add_sub_cancel] at hcommand
  obtain ⟨journal, hjournal, hgate⟩ := bind_eq_ok.mp hcommand
  obtain ⟨_, -, hlast⟩ := bind_eq_ok.mp hgate
  obtain ⟨record, hnew, hencode⟩ := bind_eq_ok.mp (mapError_eq_ok.mp hjournal)
  refine ⟨record, journal, hnew, hencode, ?_⟩
  cases hlast
  exact congrArg Publication.command (Except.ok.inj hpublication).symm

/-- The record of an accepted call is accepted exactly when its paths fit. -/
theorem acceptRecord_committed (h : Committed sha256 fs publication fs') (haccounted : Accounted fs)
    {computerId : ComputerId} (hpersistence : fs.persistence = some ⟨computerId, fs.limits⟩)
    {command : MutationCommand} (hcommand : publication.command = some command) {nodes : RecoveredNodes}
    (hmatches : Matches nodes fs.home) :
    ∃ nodes', Matches nodes' fs'.home ∧ ∀ input : RecoveryInput, input.computerId = computerId → ∀ next,
      acceptRecord sha256 input fs.limits ⟨fs.generation, nodes⟩ (commandRecord command) = some next ↔
        PathsFit fs.limits fs.home publication.mutation.operation ∧ next = ⟨fs.generation + 1, nodes'⟩ := by
  obtain ⟨record, journal, hnew, hencode, heq⟩ := h.command_eq hpersistence
  rw [hcommand] at heq
  cases heq
  have hlimits : fs'.limits = fs.limits := by rw [h.state]
  have hafter := h.accounted
  have hnodes := hafter.nodes_le
  have hbytes := hafter.logicalBytes_le
  rw [hafter.nodes, hlimits] at hnodes
  rw [hafter.logicalBytes, hlimits] at hbytes
  obtain ⟨nodes', hmatches', happly⟩ := apply_change h.change hmatches haccounted.home.ordered
    (hlimits ▸ hafter.home) (by omega) hbytes
  refine ⟨nodes', hmatches', fun input hinput next => ?_⟩
  obtain ⟨-, rfl⟩ := new_eq_ok.mp hnew
  have hdecode (found : JournalRecord) : decode sha256 journal fs.limits = .ok found ↔ _ :=
    decode_encode hencode (h.change.inRange h.generation_lt) hnew h.generation_lt
  rw [acceptRecord, commandRecord]
  constructor
  · intro haccept
    split at haccept
    · cases haccept
    · next found hfound =>
      obtain ⟨hfits, rfl⟩ := (hdecode found).mp hfound
      rw [if_pos ⟨hinput.symm, rfl, rfl⟩] at haccept
      split at haccept
      · cases haccept
      · next result hresult =>
        obtain ⟨hmoves, rfl⟩ := (happly result).mp hresult
        exact ⟨⟨hfits, hmoves⟩, (some.inj haccept).symm⟩
  · rintro ⟨⟨hfits, hmoves⟩, rfl⟩
    simp only [(hdecode _).mpr ⟨hfits, rfl⟩, hinput, and_self, if_true, (happly _).mpr ⟨hmoves, rfl⟩]

end Record

/-! ## Records in their order -/

section Order

/-- The records have consecutive numbers after `generation`. -/
def Consecutive (generation : Nat) (records : List RecoveryJournalRecord) : Prop :=
  records.map (·.claimedSequence) = List.range' (generation + 1) records.length

variable {records : List RecoveryJournalRecord} {generation : Nat}

theorem Consecutive.pairwise (h : Consecutive generation records) :
    records.Pairwise fun a b => a.claimedSequence < b.claimedSequence := by
  have hrange := pairwise_lt_range' (s := generation + 1) (n := records.length)
  rw [← h] at hrange
  exact pairwise_map.mp hrange

theorem Consecutive.concat {last : RecoveryJournalRecord} : Consecutive generation (records ++ [last]) ↔
      Consecutive generation records ∧ last.claimedSequence = generation + records.length + 1 := by
  rw [Consecutive, Consecutive, map_append, length_append, length_singleton, range'_concat,
    map_singleton, one_mul, add_right_comm]
  constructor
  · intro h
    obtain ⟨hinit, hlast⟩ := append_inj h (by simp)
    exact ⟨hinit, singleton_inj.mp hlast⟩
  · rintro ⟨hinit, hlast⟩
    rw [hinit, hlast]

theorem firstDuplicate_eq_none {l : List Nat} (h : l.Pairwise (· < ·)) : firstDuplicate l = none := by
  induction l with
  | nil => rfl
  | cons _ l ih =>
    cases l with
    | nil => rfl
    | cons b =>
      obtain ⟨ha, hl⟩ := pairwise_cons.mp h
      rw [firstDuplicate, if_neg (Nat.ne_of_lt (ha b mem_cons_self)), ih hl]

variable {input : RecoveryInput}

/-- Whatever order the files are read in, the records are sorted by their numbers. -/
theorem orderedRecords_eq (hperm : input.journalRecords.Perm records)
    (h : Consecutive generation records) : orderedRecords input = .ok records := by
  let before (a b : RecoveryJournalRecord) : Prop := a.claimedSequence ≤ b.claimedSequence
  have hlt := h.pairwise
  have hsorted : input.journalRecords.insertionSort before = records := by
    refine List.Perm.eq_of_pairwise (fun a b ha hb hab hba => ?_) (pairwise_insertionSort before _)
      (hlt.imp le_of_lt) ((perm_insertionSort _ _).trans hperm)
    refine inj_on_of_nodup_map ?_ (hperm.mem_iff.mp ((mem_insertionSort _).mp ha)) hb (le_antisymm hab hba)
    exact h ▸ nodup_range'
  have hnone : firstDuplicate (records.map (·.claimedSequence)) = none :=
    firstDuplicate_eq_none (pairwise_map.mpr hlt)
  simp only [orderedRecords, hsorted, hnone, before]

/-- Records that are all accepted, one after the other. -/
def acceptAll (sha256 : List UInt8 → Digest) (input : RecoveryInput) (limits : FileSystemLimits)
    (state : RecoveredState) (records : List RecoveryJournalRecord) : Option RecoveredState :=
  records.foldlM (acceptRecord sha256 input limits) state

variable {limits : FileSystemLimits} {state next : RecoveredState}

theorem acceptRecord_generation {stored : RecoveryJournalRecord}
    (h : acceptRecord sha256 input limits state stored = some next) : next.generation = stored.claimedSequence := by
  rw [acceptRecord] at h
  split at h
  · cases h
  · split at h
    · next hrecord =>
      split at h
      · cases h
      · cases h
        exact hrecord.2.1
    · cases h

/-- The loop over the records goes on behind those that are accepted. -/
theorem replay_append {rest : List RecoveryJournalRecord}
    (h : acceptAll sha256 input limits state records = some next) (hnumbers : Consecutive state.generation records)
    (hwidth : state.generation + records.length < 2 ^ 64) :
    replay sha256 input limits state (records ++ rest) = replay sha256 input limits next rest := by
  induction records generalizing state with
  | nil =>
    cases h
    rfl
  | cons _ _ ih =>
    obtain ⟨middle, haccept, htail⟩ := bind_eq_some_iff.mp h
    rw [Consecutive, map_cons, length_cons, range'_succ, cons.injEq] at hnumbers
    obtain ⟨hnumber, hnumbers⟩ := hnumbers
    have hgeneration : middle.generation = state.generation + 1 := (acceptRecord_generation haccept).trans hnumber
    rw [length_cons] at hwidth
    rw [cons_append, replay, if_neg (by omega), if_neg (by omega), if_neg (not_not_intro hnumber), haccept]
    exact ih htail (by rw [Consecutive, hgeneration]; exact hnumbers) (by omega)

/-- What recovery does with records that are in order. -/
theorem recover_eq {base : RecoveredState} (hbase : recoverCheckpoint sha256 input limits = .ok base)
    (hvalid : validateState base.nodes limits = .ok ()) (hperm : input.journalRecords.Perm records)
    (hnumbers : Consecutive base.generation records) :
    recover sha256 input limits = (do
      boundWork input limits
      let state ← replay sha256 input limits base records
      demand (input.confirmedGeneration ≤ state.generation) .confirmedCorruption return state) := by
  unfold recover
  rw [hbase, ok_bind, hvalid, orderedRecords_eq hperm hnumbers]
  rfl

end Order

/-! ## Histories -/

/-- A call that was accepted, with the file system before and after it. -/
structure Accepted where
  before : ComputerFileSystem
  publication : Publication
  after : ComputerFileSystem

/-- The paths of the call fit the limits. -/
abbrev Accepted.Fits (limits : FileSystemLimits) (a : Accepted) : Prop :=
  PathsFit limits a.before.home a.publication.mutation.operation

/-- Calls made one after the other; the log keeps those that were accepted. -/
inductive History (sha256 : List UInt8 → Digest) (start : ComputerFileSystem) :
    List Accepted → ComputerFileSystem → Prop where
  | start : History sha256 start [] start
  | accept {log : List Accepted} {fs fs' : ComputerFileSystem} {call : Call} {reply : Reply}
      {publication : Publication} (h : History sha256 start log fs)
      (hrun : run (perform sha256 call) fs = (.ok (reply, some publication), fs')) :
      History sha256 start (log ++ [⟨fs, publication, fs'⟩]) fs'
  | reply {log : List Accepted} {fs fs' : ComputerFileSystem} {call : Call} {reply : Reply}
      (h : History sha256 start log fs) (hrun : run (perform sha256 call) fs = (.ok (reply, none), fs')) :
      History sha256 start log fs'
  | refuse {log : List Accepted} {fs fs' : ComputerFileSystem} {call : Call} {e : FileSystemError}
      (h : History sha256 start log fs) (hrun : run (perform sha256 call) fs = (.error (.error e), fs')) :
      History sha256 start log fs'

/-- Makes calls one after the other, as long as each of them is accepted, and writes the log. -/
def logOf (sha256 : List UInt8 → Digest) :
    ComputerFileSystem → List Call → Option (List Accepted × ComputerFileSystem)
  | fs, [] => some ([], fs)
  | fs, call :: calls =>
    match run (perform sha256 call) fs with
    | (.ok (_, some publication), fs') => (logOf sha256 fs' calls).map (.map (⟨fs, publication, fs'⟩ :: ·) id)
    | _ => none

def records (log : List Accepted) : List RecoveryJournalRecord :=
  log.filterMap fun a => a.publication.command.map commandRecord

theorem records_append (log log' : List Accepted) : records (log ++ log') = records log ++ records log' :=
  filterMap_append

namespace History

variable {start fs : ComputerFileSystem} {log : List Accepted}

/-- What the calls of a history leave as it was. -/
structure Kept (start : ComputerFileSystem) (log : List Accepted) (fs : ComputerFileSystem) : Prop where
  accounted : Accounted fs
  limits : fs.limits = start.limits
  persistence : fs.persistence = start.persistence
  generation : fs.generation = start.generation + log.length

variable {fs' : ComputerFileSystem}

theorem Kept.same (h : Kept start log fs) (hsame : SameData fs fs') : Kept start log fs' := by
  refine ⟨hsame.accounted h.accounted, ?_, ?_, ?_⟩ <;> rw [hsame]
  · exact h.limits
  · exact h.persistence
  · exact h.generation

theorem Kept.commit {publication : Publication} (h : Kept start log fs)
    (hcommitted : Committed sha256 fs publication fs') : Kept start (log ++ [⟨fs, publication, fs'⟩]) fs' := by
  refine ⟨hcommitted.accounted, ?_, ?_, ?_⟩ <;> rw [hcommitted.state]
  · exact h.limits
  · exact h.persistence
  · show fs.generation + 1 = _
    rw [h.generation, length_append, length_singleton, add_assoc]

theorem kept (h : History sha256 start log fs) (hstart : Accounted start) : Kept start log fs := by
  induction h with
  | start => exact ⟨hstart, rfl, rfl, rfl⟩
  | accept _ hrun ih => exact ih.commit ((perform_ends sha256 ih.accounted _).ok hrun)
  | reply _ hrun ih => exact ih.same ((perform_ends sha256 ih.accounted _).ok hrun)
  | refuse _ hrun ih => exact ih.same ((perform_ends sha256 ih.accounted _).error hrun)

/-- The history before a call, and what the call has done. -/
theorem split {before after : List Accepted} {a : Accepted} (h : History sha256 start (before ++ a :: after) fs)
    (hstart : Accounted start) :
    History sha256 start before a.before ∧ Committed sha256 a.before a.publication a.after := by
  generalize hlog : before ++ a :: after = log at h
  induction h generalizing after with
  | start => exact absurd hlog (by simp)
  | @accept _ _ _ _ _ _ h hrun ih =>
    rcases eq_nil_or_concat after with rfl | ⟨after', last, rfl⟩
    · obtain ⟨rfl, heq⟩ := append_inj' hlog rfl
      cases heq
      exact ⟨h, (perform_ends sha256 (h.kept hstart).accounted _).ok hrun⟩
    · rw [concat_eq_append, ← cons_append, ← append_assoc] at hlog
      exact ih (append_inj' hlog rfl).1
  | reply h hrun ih | refuse h hrun ih => exact ih hlog

theorem generation_lt (h : History sha256 start log fs) (hstart : Accounted start) (hwidth : start.generation < 2 ^ 64) :
    fs.generation < 2 ^ 64 := by
  have hgeneration := (h.kept hstart).generation
  rcases eq_nil_or_concat log with rfl | ⟨before, last, rfl⟩
  · rw [hgeneration]
    exact hwidth
  · rw [concat_eq_append] at h hgeneration
    obtain ⟨hbefore, hcommitted⟩ := h.split hstart
    have hlt := hcommitted.generation_lt
    rw [(hbefore.kept hstart).generation] at hlt
    rw [length_append, length_singleton] at hgeneration
    omega

/-- One record for each call that was accepted, with consecutive numbers. -/
theorem consecutive (h : History sha256 start log fs) (hstart : Accounted start) {persistence : ComputerPersistence}
    (hpersistence : start.persistence = some persistence) :
    (records log).length = log.length ∧ Consecutive start.generation (records log) := by
  induction h with
  | start => exact ⟨rfl, rfl⟩
  | @accept _ fs fs' call _ publication h hrun ih =>
    obtain ⟨hlength, hnumbers⟩ := ih
    have hkept := h.kept hstart
    have hcommitted : Committed sha256 fs publication fs' := (perform_ends sha256 hkept.accounted call).ok hrun
    obtain ⟨record, journal, -, -, hcommand⟩ := hcommitted.command_eq (hkept.persistence.trans hpersistence)
    have hlast : records [⟨fs, publication, fs'⟩] = [⟨fs.generation + 1, journal⟩] := by
      rw [records, filterMap_cons, hcommand]
      rfl
    rw [records_append, hlast]
    refine ⟨by rw [length_append, length_append, hlength]; rfl, Consecutive.concat.mpr ⟨hnumbers, ?_⟩⟩
    rw [hlength, hkept.generation]
  | reply h hrun ih | refuse h hrun ih => exact ih

section Replay

variable (hstart : Accounted start) {computerId : ComputerId}
  (hpersistence : start.persistence = some ⟨computerId, start.limits⟩) (input : RecoveryInput)
  (hinput : input.computerId = computerId) {nodes : RecoveredNodes} (hmatches : Matches nodes start.home)
include hstart hpersistence hinput hmatches

/-- **The records lead from the first tree to the last**, when the paths of all calls fit. -/
theorem replays (h : History sha256 start log fs) (hfits : ∀ a ∈ log, a.Fits start.limits) :
    ∃ nodes', Matches nodes' fs.home ∧
      acceptAll sha256 input start.limits ⟨start.generation, nodes⟩ (records log) = some ⟨fs.generation, nodes'⟩ := by
  induction h with
  | start => exact ⟨nodes, hmatches, rfl⟩
  | @accept _ fs fs' call _ publication h hrun ih =>
    obtain ⟨middle, hmiddle, haccept⟩ := ih fun a ha => hfits a (mem_append_left _ ha)
    have hkept := h.kept hstart
    have hcommitted : Committed sha256 fs publication fs' := (perform_ends sha256 hkept.accounted call).ok hrun
    have hlast := hkept.persistence.trans hpersistence
    obtain ⟨_, _, -, -, hcommand⟩ := hcommitted.command_eq hlast
    rw [← hkept.limits] at hlast
    obtain ⟨nodes', hnodes', hiff⟩ := acceptRecord_committed hcommitted hkept.accounted hlast hcommand hmiddle
    have hfit := hfits _ (mem_append_right _ (mem_singleton_self _))
    have hgeneration : fs'.generation = fs.generation + 1 := by rw [hcommitted.state]
    refine ⟨nodes', hnodes', ?_⟩
    rw [records_append, acceptAll, foldlM_append, ← acceptAll, haccept, records, filterMap_cons, hcommand, hgeneration]
    rw [← hkept.limits] at hfit ⊢
    show (acceptRecord sha256 input fs.limits ⟨fs.generation, middle⟩ _).bind some = _
    rw [(hiff input hinput _).mpr ⟨hfit, rfl⟩, bind_some]
  | @reply _ fs fs' call _ h hrun ih =>
    obtain ⟨nodes', hnodes', haccept⟩ := ih hfits
    have hsame : SameData fs fs' := (perform_ends sha256 (h.kept hstart).accounted call).ok hrun
    rw [hsame]
    exact ⟨nodes', hnodes', haccept⟩
  | @refuse _ fs fs' call _ h hrun ih =>
    obtain ⟨nodes', hnodes', haccept⟩ := ih hfits
    have hsame : SameData fs fs' := (perform_ends sha256 (h.kept hstart).accounted call).error hrun
    rw [hsame]
    exact ⟨nodes', hnodes', haccept⟩

/-- The loop over the records of a history whose paths all fit. -/
theorem replay_fits (h : History sha256 start log fs) (hwidth : start.generation < 2 ^ 64)
    (hfits : ∀ a ∈ log, a.Fits start.limits) (rest : List RecoveryJournalRecord) : ∃ nodes', Matches nodes' fs.home ∧
      replay sha256 input start.limits ⟨start.generation, nodes⟩ (records log ++ rest) =
        replay sha256 input start.limits ⟨fs.generation, nodes'⟩ rest := by
  obtain ⟨nodes', hnodes', haccept⟩ := h.replays hstart hpersistence input hinput hmatches hfits
  obtain ⟨hlength, hnumbers⟩ := h.consecutive hstart hpersistence
  refine ⟨nodes', hnodes', replay_append haccept hnumbers ?_⟩
  rw [hlength, ← (h.kept hstart).generation]
  exact h.generation_lt hstart hwidth

/-- The record of the first call whose paths do not fit is refused. -/
theorem replay_unfit {before after : List Accepted} {a : Accepted}
    (h : History sha256 start (before ++ a :: after) fs) (hwidth : start.generation < 2 ^ 64)
    (hfits : ∀ a ∈ before, a.Fits start.limits) (hunfit : ¬a.Fits start.limits) :
    ∃ nodes', Matches nodes' a.before.home ∧
      replay sha256 input start.limits ⟨start.generation, nodes⟩ (records (before ++ a :: after)) =
        if a.before.generation + 1 ≤ input.confirmedGeneration then .error .confirmedCorruption
        else .ok ⟨a.before.generation, nodes'⟩ := by
  obtain ⟨hbefore, hcommitted⟩ := h.split hstart
  have hkept := hbefore.kept hstart
  have hlast := hkept.persistence.trans hpersistence
  obtain ⟨record, journal, -, -, hcommand⟩ := hcommitted.command_eq hlast
  rw [← hkept.limits] at hlast hunfit
  obtain ⟨nodes', hnodes', hreplay⟩ :=
    hbefore.replay_fits hstart hpersistence input hinput hmatches hwidth hfits (records (a :: after))
  obtain ⟨_, -, hiff⟩ := acceptRecord_committed hcommitted hkept.accounted hlast hcommand hnodes'
  have hrefused : acceptRecord sha256 input a.before.limits ⟨a.before.generation, nodes'⟩
      ⟨a.before.generation + 1, journal⟩ = none :=
    eq_none_iff_forall_ne_some.mpr fun next hnext => hunfit ((hiff input hinput next).mp hnext).1
  have hlt := hcommitted.generation_lt
  refine ⟨nodes', hnodes', ?_⟩
  rw [records_append, hreplay, records, filterMap_cons, hcommand, ← hkept.limits]
  show replay sha256 input a.before.limits ⟨a.before.generation, nodes'⟩
    (⟨a.before.generation + 1, journal⟩ :: _) = _
  rw [replay, if_neg (by simp), if_neg (Nat.not_le_of_lt hlt), if_neg (by simp), hrefused]

end Replay

end History

/-! ## Recovering a history -/

/-- The file system of a computer that is opened for the first time. -/
structure Fresh (computerId : ComputerId) (limits : FileSystemLimits) (start : ComputerFileSystem) : Prop where
  accounted : Accounted start
  limits_eq : start.limits = limits
  home : start.home = []
  generation : start.generation = 0
  persistence : start.persistence = some ⟨computerId, limits⟩

theorem fresh_of_withRom {bytes : List UInt8} {admitted limits : FileSystemLimits} {image : RomImage}
    (himage : RomImage.admitImage sha256 bytes admitted = .ok image) {fs : ComputerFileSystem}
    (hfs : withRom sha256 limits image = .ok fs) (computerId : ComputerId) :
    Fresh computerId limits { fs with persistence := some ⟨computerId, limits⟩ } := by
  obtain ⟨_, hok, ha, -⟩ := withRom_accounted sha256 himage limits Set.univ fun _ _ => trivial
  rw [hfs] at hok
  cases hok
  have hkeeps := withRom_keeps sha256 hfs
  refine ⟨⟨ha.rom, ha.home, ha.maximumLogicalBytes, ha.maximumNodes, ha.logicalBytes, ha.nodes, ha.logicalBytes_le,
    ha.nodes_le, ha.counts⟩, ?_, ?_, ?_, rfl⟩ <;> rw [hkeeps] <;> rfl

section Recover

variable {computerId : ComputerId} {limits : FileSystemLimits} {start fs : ComputerFileSystem} {log : List Accepted}
  {stored : List RecoveryJournalRecord} {confirmed : Nat} (h : History sha256 start log fs)
  (hfresh : Fresh computerId limits start) (hstored : stored.Perm (records log))
  (hcount : stored.length ≤ limits.maximumRecoveryRecords)
  (hbytes : (stored.map (·.bytes.length)).sum ≤ limits.maximumRecoveryBytes)

section

include h hfresh hstored hcount hbytes

/-- The records of a history, in any order, without checkpoints and within the bounds. -/
theorem recover_records :
    recover sha256 ⟨computerId, confirmed, [], stored⟩ limits = (do
      let state ← replay sha256 ⟨computerId, confirmed, [], stored⟩ limits ⟨0, []⟩ (records log)
      demand (confirmed ≤ state.generation) .confirmedCorruption return state) := by
  have hnumbers := (h.consecutive hfresh.accounted hfresh.persistence).2
  rw [hfresh.generation] at hnumbers
  have hbound : boundWork ⟨computerId, confirmed, [], stored⟩ limits = .ok () := by
    simp [boundWork, demand, hcount, hbytes]
  have hvalid : validateState [] limits = .ok () := by
    simp [validateState, demand, recoveredBytes]
  rw [recover_eq rfl hvalid hstored hnumbers, hbound, ok_bind]

/-- When all paths fit, recovery gives the tree, whatever part of the history is confirmed. -/
theorem recover_fits (hconfirmed : confirmed ≤ fs.generation) (hfits : ∀ a ∈ log, a.Fits limits) :
    ∃ nodes, Matches nodes fs.home ∧
      recover sha256 ⟨computerId, confirmed, [], stored⟩ limits = .ok ⟨fs.generation, nodes⟩ := by
  have hmatches : Matches [] start.home := hfresh.home ▸ matches_empty
  have hwidth : start.generation < 2 ^ 64 := hfresh.generation ▸ Nat.two_pow_pos 64
  obtain ⟨nodes, hnodes, hreplay⟩ := h.replay_fits hfresh.accounted (hfresh.limits_eq ▸ hfresh.persistence)
    ⟨computerId, confirmed, [], stored⟩ rfl hmatches hwidth (hfresh.limits_eq ▸ hfits) []
  rw [hfresh.generation, hfresh.limits_eq, append_nil] at hreplay
  refine ⟨nodes, hnodes, ?_⟩
  rw [recover_records h hfresh hstored hcount hbytes, hreplay, replay, ok_bind, demand_decide hconfirmed]
  rfl

/-- When the paths of a confirmed call do not fit, recovery fails. -/
theorem recover_unfit {before after : List Accepted} {a : Accepted}
    (hlog : log = before ++ a :: after) (hconfirmed : a.before.generation + 1 ≤ confirmed)
    (hfits : ∀ a ∈ before, a.Fits limits) (hunfit : ¬a.Fits limits) :
    recover sha256 ⟨computerId, confirmed, [], stored⟩ limits = .error .confirmedCorruption := by
  subst hlog
  have hmatches : Matches [] start.home := hfresh.home ▸ matches_empty
  have hwidth : start.generation < 2 ^ 64 := hfresh.generation ▸ Nat.two_pow_pos 64
  obtain ⟨_, -, hreplay⟩ := h.replay_unfit hfresh.accounted (hfresh.limits_eq ▸ hfresh.persistence)
    ⟨computerId, confirmed, [], stored⟩ rfl hmatches hwidth (hfresh.limits_eq ▸ hfits) (hfresh.limits_eq ▸ hunfit)
  rw [hfresh.generation, hfresh.limits_eq, if_pos hconfirmed] at hreplay
  rw [recover_records h hfresh hstored hcount hbytes, hreplay, error_bind]

end

/-- The first call of a log whose paths do not fit. -/
theorem exists_first_unfit (hunfit : ¬∀ a ∈ log, a.Fits limits) : ∃ before a after, log = before ++ a :: after ∧
      (∀ a ∈ before, a.Fits limits) ∧ ¬a.Fits limits := by
  induction log with
  | nil => exact absurd (fun a ha => nomatch ha) hunfit
  | cons a log ih =>
    by_cases ha : a.Fits limits
    · obtain ⟨before, b, after, rfl, hbefore, hb⟩ := ih fun hlog => hunfit (forall_mem_cons.mpr ⟨ha, hlog⟩)
      exact ⟨a :: before, b, after, rfl, forall_mem_cons.mpr ⟨ha, hbefore⟩, hb⟩
    · exact ⟨[], a, log, rfl, fun b hb => (nomatch hb), ha⟩

/-- **A history is recovered exactly when the paths of every call fit the limits**, those below a moved
directory included. -/
theorem recover_history {bytes : List UInt8} {admitted : FileSystemLimits} {image : RomImage}
    (himage : RomImage.admitImage sha256 bytes admitted = .ok image) {fs₀ : ComputerFileSystem}
    (hstart : withRom sha256 limits image = .ok fs₀)
    (h : History sha256 { fs₀ with persistence := some ⟨computerId, limits⟩ } log fs)
    (hstored : stored.Perm (records log)) (hcount : stored.length ≤ limits.maximumRecoveryRecords)
    (hbytes : (stored.map (·.bytes.length)).sum ≤ limits.maximumRecoveryBytes) :
    (∃ state, recover sha256 ⟨computerId, fs.generation, [], stored⟩ limits = .ok state ∧
        state.generation = fs.generation ∧ Matches state.nodes fs.home) ↔
      ∀ a ∈ log, PathsFit limits a.before.home a.publication.mutation.operation := by
  have hfresh := fresh_of_withRom himage hstart computerId
  constructor
  · rintro ⟨state, hrecover, -, -⟩
    by_contra hunfit
    obtain ⟨_, a, _, rfl, hbefore, ha⟩ := exists_first_unfit hunfit
    have hgeneration : a.before.generation + 1 ≤ fs.generation := by
      rw [((h.split hfresh.accounted).1.kept hfresh.accounted).generation, (h.kept hfresh.accounted).generation,
        length_append, length_cons]
      omega
    rw [recover_unfit h hfresh hstored hcount hbytes rfl hgeneration hbefore ha] at hrecover
    cases hrecover
  · intro hfits
    obtain ⟨_, hnodes, hrecover⟩ := recover_fits h hfresh hstored hcount hbytes le_rfl hfits
    exact ⟨_, hrecover, rfl, hnodes⟩

end Recover

def blankComputer : ComputerId := ⟨List.replicate 16 0, rfl⟩

theorem History.append_log {start fs fs' : ComputerFileSystem} {log more : List Accepted} {calls : List Call}
    (h : History sha256 start log fs) (hlog : logOf sha256 fs calls = some (more, fs')) :
    History sha256 start (log ++ more) fs' := by
  induction calls generalizing log fs more with
  | nil =>
    cases hlog
    rwa [append_nil]
  | cons call calls ih =>
    rw [logOf] at hlog
    split at hlog
    next reply publication fs₁ hrun =>
      obtain ⟨⟨_, _⟩, hrest, hmore⟩ := Option.map_eq_some_iff.mp hlog
      cases hmore
      rw [append_cons]
      exact ih (.accept h hrun) hrest
    next => cases hlog

/-- A directory is created and recovered. -/
theorem recover_history_create :
    let limits := FileSystemLimits.testing
    ∃ log fs, logOf (fun _ => blankDigest) { withLimits limits with persistence := some ⟨blankComputer, limits⟩ }
        [.createDirectory openGate homeOwner [homeName, romName]] = some (log, fs) ∧
      ∃ state, recover (fun _ => blankDigest) ⟨blankComputer, fs.generation, [], records log⟩ limits = .ok state ∧
        state.generation = fs.generation ∧ Matches state.nodes fs.home := by
  intro limits
  have hlog : logOf (fun _ => blankDigest) { withLimits FileSystemLimits.testing with
      persistence := some ⟨blankComputer, FileSystemLimits.testing⟩ }
    [.createDirectory openGate homeOwner [homeName, romName]] = some ([_], _) := rfl
  have himage := @RomImage.admitImage_blankRom limits (fun _ => blankDigest) (by decide) (by decide)
  exact ⟨_, _, hlog, (recover_history himage rfl (History.start.append_log hlog) (List.Perm.refl _) (by decide)
    (by decide)).mpr (forall_mem_singleton.mpr ⟨by decide, trivial⟩)⟩

/-- Limits under which a path has at most 14 bytes. -/
def shortPaths : FileSystemLimits := { FileSystemLimits.testing with maximumPathBytes := 14 }

/-- A directory with something in it is renamed.  Both paths of the call fit the limits, the new path of what
is in the directory does not. -/
theorem rename_not_replayed :
    ∃ (limits : FileSystemLimits) (log : List Accepted) (fs : ComputerFileSystem),
      History (fun _ => blankDigest)
        { withLimits limits with persistence := some ⟨blankComputer, limits⟩ } log fs ∧
      (∀ a ∈ log, ∀ path ∈ a.publication.mutation.operation.paths, Fits limits path) ∧
      (records log).length ≤ limits.maximumRecoveryRecords ∧
      ((records log).map (·.bytes.length)).sum ≤ limits.maximumRecoveryBytes ∧
      recover (fun _ => blankDigest) ⟨blankComputer, fs.generation, [], records log⟩ limits =
        .error .confirmedCorruption := by
  have hlog : logOf (fun _ => blankDigest) { withLimits shortPaths with persistence := some ⟨blankComputer, shortPaths⟩ }
    [.createDirectory openGate homeOwner [homeName, romName],
      .createDirectory openGate homeOwner [homeName, romName, romName],
      .rename openGate homeOwner [homeName, romName] [homeName, ⟨replicate 6 'c', by decide⟩] false] =
    some ([_, _] ++ [_], _) := rfl
  have himage := @RomImage.admitImage_blankRom shortPaths (fun _ => blankDigest) (by decide) (by decide)
  have hhistory := History.start.append_log hlog
  refine ⟨shortPaths, _, _, hhistory, by decide, by decide, by decide,
    recover_unfit hhistory (fresh_of_withRom himage rfl _) (List.Perm.refl _) (by decide) (by decide)
      (show _ = [_, _] ++ _ :: [] from rfl) (by decide) ?_ ?_⟩
  · exact forall_mem_cons.mpr ⟨⟨by decide, trivial⟩, forall_mem_singleton.mpr ⟨by decide, trivial⟩⟩
  · change ¬PathsFit shortPaths _ (.rename [homeName, romName] [homeName, ⟨replicate 6 'c', _⟩] false)
    rintro ⟨-, hmoves⟩
    have hmoved := hmoves [homeName, romName, romName] _ rfl ⟨[romName], rfl⟩
    exact absurd hmoved (by decide)

end Compukter.Filesystem
