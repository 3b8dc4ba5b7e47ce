/-
A terminal and its replicas.

A replica starts from a full update or from a screen that was committed, and from then on receives the updates it
asks for by its revision, and the deltas of commits at its revision.  The world keeps, beside the device, the
screens that were committed; a replica is right when its screen is the one of its revision.

A full update is the screen as it is now, under the revision of the last commit.  With changes pending these are
not the same screen, and the delta of the next commit brings the same changes again.  `Permitted` excludes this.
-/
import Compukter.Terminal.Device

namespace Compukter.Terminal

open ReplicationState RowRing List
open TerminalDevice (withConfig)

structure Replica where
  revision : Nat
  screen : Screen
  deriving DecidableEq

namespace Replica

def receive (ρ : Replica) : TerminalUpdate → Replica
  | .unchanged _ => ρ
  | .delta delta => ⟨delta.targetRevision, applyAll ρ.screen delta.changes⟩
  | .full snapshot => ⟨snapshot.revision, snapshot.screen⟩

/-- The update goes on from the replica's revision, or needs none. -/
def Contiguous (ρ : Replica) : TerminalUpdate → Prop
  | .unchanged revision => revision = ρ.revision
  | .delta delta => delta.baseRevision = ρ.revision ∧ ρ.revision < delta.targetRevision
  | .full _ => True

end Replica

structure World where
  device : TerminalDevice
  /-- The screens that were committed, by revision. -/
  states : List Screen
  replicas : List Replica

def World.initial (device : TerminalDevice) : World := ⟨device, [device.screen], []⟩

inductive Event where
  | mutate (mutation : Mutation)
  /-- The delta is given to some replicas; those at its base revision apply it. -/
  | commit (receivers : List Nat)
  /-- A new replica asks for the changes since some revision and starts from a full update, if that is the answer. -/
  | join (baseRevision : Nat)
  /-- A new replica has the screen of a committed revision. -/
  | start (revision : Nat)
  | poll (replica : Nat)

/-- `none` is a panic. -/
def step (w : World) : Event → Option World
  | .mutate mutation => some { w with device := (w.device.perform mutation).toOption.getD w.device }
  | .commit receivers => do
    let (answer, device) ← w.device.commit
    match answer with
    | .unchanged _ => some { w with device }
    | .committed delta => some {
        device
        states := w.states ++ [device.screen]
        replicas := w.replicas.mapIdx fun i ρ =>
          if i ∈ receivers ∧ ρ.revision = delta.baseRevision then ρ.receive (.delta delta) else ρ }
  | .join baseRevision => match w.device.changesSince baseRevision with
    | .full snapshot => some { w with replicas := w.replicas ++ [⟨snapshot.revision, snapshot.screen⟩] }
    | _ => some w
  | .start revision => match w.states[revision]? with
    | some screen => some { w with replicas := w.replicas ++ [⟨revision, screen⟩] }
    | none => some w
  | .poll replica => some { w with
      replicas := w.replicas.modify replica fun ρ => ρ.receive (w.device.changesSince ρ.revision) }

def run (w : World) (events : List Event) : Option World := events.foldlM step w

/-- No full update is given while changes are pending. -/
def Permitted (w : World) : Event → Prop
  | .join baseRevision => w.device.replication.deltaSince baseRevision = none → w.device.replication.Settled
  | .poll replica => ∀ ρ, w.replicas[replica]? = some ρ →
      w.device.replication.deltaSince ρ.revision = none → w.device.replication.Settled
  | _ => True

/-- Every event is permitted where it happens. -/
def Permits : World → List Event → Prop
  | _, [] => True
  | w, event :: events => Permitted w event ∧ ∀ w', step w event = some w' → Permits w' events

/-- Every replica shows the screen of its revision, and what it is given next goes on from there. -/
structure Correct (w : World) : Prop where
  screen (ρ : Replica) (h : ρ ∈ w.replicas) : w.states[ρ.revision]? = some ρ.screen
  contiguous (ρ : Replica) (h : ρ ∈ w.replicas) : ρ.Contiguous (w.device.changesSince ρ.revision)

/-! ## The invariant -/

structure Inv (w : World) : Prop where
  logged : Logged w.states w.device.replication
  tracks : ∃ base, w.states[w.device.replication.revision]? = some base ∧
    Tracks base w.device.replication w.device.screen
  replicas (ρ : Replica) (h : ρ ∈ w.replicas) : w.states[ρ.revision]? = some ρ.screen

theorem inv_initial {journalRevisions : Nat} {device : TerminalDevice}
    (h : withConfig journalRevisions = .ok device) : Inv (World.initial device) := by
  rw [withConfig] at h
  split at h
  · cases h
  · cases h
    exact ⟨logged_new _ _, ⟨_, rfl, fun _ => rfl⟩, fun _ hr => by cases hr⟩

section Updates

variable {w : World}

variable (h : Inv w)
include h

/-- What the device answers.  A full update is the screen of the revision if nothing is pending. -/
theorem Inv.changesSince {ρ : Replica} (hρ : w.states[ρ.revision]? = some ρ.screen) :
    ρ.Contiguous (w.device.changesSince ρ.revision) ∧
      ((w.device.replication.deltaSince ρ.revision = none → w.device.replication.Settled) →
        w.states[(ρ.receive (w.device.changesSince ρ.revision)).revision]? =
          some (ρ.receive (w.device.changesSince ρ.revision)).screen) := by
  rw [TerminalDevice.changesSince]
  cases hupdate : w.device.replication.deltaSince ρ.revision with
  | none =>
    refine ⟨trivial, fun hsettled => ?_⟩
    obtain ⟨_, hbase, htracks⟩ := h.tracks
    have heq := htracks.settled (hsettled rfl)
    show w.states[w.device.replication.revision]? = some w.device.screen
    rw [heq, hbase]
  | some =>
    rcases h.logged.deltaSince hupdate with ⟨rfl, heq⟩ | ⟨changes, rfl, hlt, hleads⟩
    · exact ⟨heq.symm, fun _ => hρ⟩
    · exact ⟨⟨rfl, hlt⟩, fun _ => hleads ρ.screen hρ⟩

theorem Inv.correct : Correct w :=
  ⟨h.replicas, fun ρ hρ => (h.changesSince (h.replicas ρ hρ)).1⟩

/-- A full update while nothing is pending is the screen of its revision. -/
theorem Inv.snapshot (hsettled : w.device.replication.Settled) :
    w.states[w.device.snapshot.revision]? = some w.device.snapshot.screen := by
  obtain ⟨_, hbase, htracks⟩ := h.tracks
  have heq := htracks.settled hsettled
  show w.states[w.device.replication.revision]? = some w.device.screen
  rw [heq, hbase]

theorem Inv.mutate (mutation : Mutation) :
    Inv { w with device := (w.device.perform mutation).toOption.getD w.device } := by
  obtain ⟨base, hbase, htracks⟩ := h.tracks
  cases hperform : w.device.perform mutation with
  | error => exact h
  | ok =>
    have hfollows : Follows w.device.replication base w.device.cursor w.device.cursorVisible w.device :=
      ⟨.refl _, htracks⟩
    obtain ⟨hsame, htracks'⟩ := hfollows.perform hperform
    exact ⟨h.logged.of_same hsame, ⟨base, by rw [← hbase]; exact congrArg (w.states[·]?) hsame.revision, htracks'⟩,
      h.replicas⟩

theorem Inv.join {ρ : Replica} (hρ : w.states[ρ.revision]? = some ρ.screen) :
    Inv { w with replicas := w.replicas ++ [ρ] } :=
  ⟨h.logged, h.tracks, fun ρ' hmem => (mem_append.mp hmem).elim (h.replicas ρ') fun hlast => by
    cases mem_singleton.mp hlast
    exact hρ⟩

theorem Inv.commit {receivers : List Nat} {w' : World} (hstep : step w (.commit receivers) = some w') : Inv w' := by
  obtain ⟨base, hbase, htracks⟩ := h.tracks
  obtain ⟨⟨_, _⟩, hcommit, hstep⟩ := Option.bind_eq_some_iff.mp hstep
  obtain ⟨⟨_, replication⟩, hreplication, hdevice⟩ := Option.bind_eq_some_iff.mp hcommit
  cases hdevice
  rcases h.logged.commit hbase htracks (length_toList w.device.grid) hreplication with
    ⟨rfl, rfl, -⟩ | ⟨changes, rfl, happly, hlogged, hsettled, hrevision⟩
  · cases hstep
    exact h
  · cases hstep
    have hkeep : ∀ (i : Nat) (t : Screen), w.states[i]? = some t → (w.states ++ [w.device.screen])[i]? = some t := by
      intro i t ht
      rw [getElem?_append_left (List.getElem?_eq_some_iff.mp ht).1, ht]
    have hnew : (w.states ++ [w.device.screen])[w.device.replication.revision + 1]? = some w.device.screen := by
      rw [← h.logged.length, getElem?_concat_length]
    refine ⟨hlogged, ⟨w.device.screen, ?_, ?_⟩, fun ρ' hmem => ?_⟩
    · show (w.states ++ [w.device.screen])[replication.revision]? = _
      rw [hrevision, hnew]
    · intro _
      show applyAll w.device.screen replication.pending = w.device.screen
      rw [hsettled.1, applyAll_nil]
    · obtain ⟨i, hi, rfl⟩ := mem_mapIdx.mp hmem
      have hold := h.replicas _ (getElem_mem hi)
      split
      · next hreceives =>
        -- the replica was at the base of the delta, so its screen is the base
        rw [hreceives.2, hbase] at hold
        cases hold
        show (w.states ++ [w.device.screen])[w.device.replication.revision + 1]? = some (applyAll _ changes)
        rw [hnew, happly]
      · exact hkeep _ _ hold

theorem Inv.poll {replica : Nat} (hp : Permitted w (.poll replica)) :
    Inv { w with
      replicas := w.replicas.modify replica fun ρ => ρ.receive (w.device.changesSince ρ.revision) } := by
  refine ⟨h.logged, h.tracks, fun ρ' hmem => ?_⟩
  obtain ⟨i, hi⟩ := mem_iff_getElem?.mp hmem
  rw [getElem?_modify] at hi
  obtain ⟨ρ, hρ, rfl⟩ := Option.map_eq_some_iff.mp hi
  have hold := h.replicas ρ (mem_of_getElem? hρ)
  split
  · next heq => exact (h.changesSince hold).2 (hp ρ (heq ▸ hρ))
  · exact hold

end Updates

/-! ## Runs -/

theorem Inv.step {w w' : World} (h : Inv w) {event : Event} (hp : Permitted w event)
    (hstep : step w event = some w') : Inv w' := by
  cases event with
  | mutate mutation =>
    cases hstep
    exact h.mutate mutation
  | commit => exact h.commit hstep
  | join baseRevision =>
    rw [Terminal.step, TerminalDevice.changesSince] at hstep
    cases hdelta : w.device.replication.deltaSince baseRevision with
    | none =>
      rw [hdelta] at hstep
      cases hstep
      exact h.join (h.snapshot (hp hdelta))
    | some =>
      rw [hdelta] at hstep
      rcases h.logged.deltaSince hdelta with ⟨rfl, -⟩ | ⟨changes, rfl, -⟩
      · cases hstep
        exact h
      · cases hstep
        exact h
  | start =>
    rw [Terminal.step] at hstep
    split at hstep
    · next screen hscreen =>
      cases hstep
      exact h.join hscreen
    · cases hstep
      exact h
  | poll =>
    cases hstep
    exact h.poll hp

theorem Inv.run {w w' : World} (h : Inv w) {events : List Event} (hp : Permits w events)
    (hrun : run w events = some w') : Inv w' := by
  induction events generalizing w with
  | nil =>
    cases hrun
    exact h
  | cons _ _ ih =>
    obtain ⟨w₁, hstep, hrun⟩ := Option.bind_eq_some_iff.mp hrun
    exact ih (h.step hp.1 hstep) (hp.2 w₁ hstep) hrun

/-- **Replication.**  In every run in which no full update is given while changes are pending, every replica shows
the screen of its revision, and the updates go on from there. -/
theorem run_correct {journalRevisions : Nat} {device : TerminalDevice}
    (hconfig : withConfig journalRevisions = .ok device) {events : List Event} {w : World}
    (hp : Permits (World.initial device) events) (hrun : run (World.initial device) events = some w) : Correct w :=
  ((inv_initial hconfig).run hp hrun).correct

/-- The first place of the second row. -/
def secondRow : TerminalPosition := ⟨⟨0, terminalWidth_pos⟩, ⟨1, by decide⟩⟩

/-- A letter is written and committed; a replica that has the first screen asks for the changes. -/
theorem run_correct_letter :
    ∃ device w ρ, withConfig 64 = .ok device ∧
      run (World.initial device)
        [.mutate (.patch secondRow [⟨'a', 15, 0⟩]), .commit [], .start 0, .poll 0] = some w ∧
      ρ ∈ w.replicas ∧ ρ.revision = 1 ∧ w.states[1]? = some ρ.screen := by
  obtain ⟨device, hconfig⟩ : ∃ device, withConfig 64 = .ok device := ⟨_, rfl⟩
  have hruns : ((withConfig 64).toOption >>= fun d => run (World.initial d)
      [.mutate (.patch secondRow [⟨'a', 15, 0⟩]), .commit [], .start 0, .poll 0] >>= fun w =>
      w.replicas[0]?.map Replica.revision) = some 1 := by decide +kernel
  have hsettled : ((withConfig 64).toOption >>= fun d => run (World.initial d)
      [.mutate (.patch secondRow [⟨'a', 15, 0⟩]), .commit [], .start 0] >>= fun w =>
      some (w.device.replication.pending, w.device.replication.requiresFullReplacement)) = some ([], false) := by
    decide +kernel
  rw [hconfig] at hruns hsettled
  obtain ⟨_, ⟨⟩, hruns⟩ := Option.bind_eq_some_iff.mp hruns
  obtain ⟨_, ⟨⟩, hsettled⟩ := Option.bind_eq_some_iff.mp hsettled
  obtain ⟨w, hrun, hreplica⟩ := Option.bind_eq_some_iff.mp hruns
  obtain ⟨w', hrun', hpending⟩ := Option.bind_eq_some_iff.mp hsettled
  obtain ⟨ρ, hρ, hrevision⟩ := Option.map_eq_some_iff.mp hreplica
  have hmem : ρ ∈ w.replicas := mem_of_getElem? hρ
  have hpermits : Permits (World.initial device)
      [.mutate (.patch secondRow [⟨'a', 15, 0⟩]), .commit [], .start 0, .poll 0] := by
    refine ⟨trivial, fun w₁ h₁ => ⟨trivial, fun w₂ h₂ => ⟨trivial, fun w₃ h₃ => ⟨fun _ _ _ => ?_, fun _ _ => trivial⟩⟩⟩⟩
    simp only [run, foldlM_cons, h₁, h₂, h₃, Option.bind_eq_bind, Option.bind_some, foldlM_nil] at hrun'
    cases hrun'
    exact Prod.mk.inj (Option.some.inj hpending)
  have hcorrect := run_correct hconfig hpermits hrun
  exact ⟨device, w, ρ, hconfig, hrun, hmem, hrevision, by rw [← hrevision]; exact hcorrect.screen ρ hmem⟩

/-- A replica that starts from a full update while a scroll is pending scrolls again with the next delta. -/
theorem scrolled_twice :
    ∃ device w ρ, withConfig 64 = .ok device ∧
      run (World.initial device) [.mutate (.patch secondRow [⟨'a', 15, 0⟩]), .commit [], .mutate (.scroll 1), .join 9,
        .commit [], .poll 0] = some w ∧
      ρ ∈ w.replicas ∧ ρ.revision = 2 ∧ w.device.replication.revision = 2 ∧ w.states[2]? ≠ some ρ.screen := by
  obtain ⟨device, hconfig⟩ : ∃ device, withConfig 64 = .ok device := ⟨_, rfl⟩
  have hruns : ((withConfig 64).toOption >>= fun d => run (World.initial d)
      [.mutate (.patch secondRow [⟨'a', 15, 0⟩]), .commit [], .mutate (.scroll 1), .join 9, .commit [], .poll 0] >>=
      fun w => w.replicas[0]?.map fun ρ => (ρ.revision, w.device.replication.revision,
        w.states[2]?.bind (·.cells[0]?) == ρ.screen.cells[0]?)) = some (2, 2, false) := by decide +kernel
  rw [hconfig] at hruns
  obtain ⟨_, ⟨⟩, hruns⟩ := Option.bind_eq_some_iff.mp hruns
  obtain ⟨w, hrun, hreplica⟩ := Option.bind_eq_some_iff.mp hruns
  obtain ⟨ρ, hρ, heq⟩ := Option.map_eq_some_iff.mp hreplica
  obtain ⟨hrevision, heq⟩ := Prod.mk.inj heq
  obtain ⟨hdevice, hcells⟩ := Prod.mk.inj heq
  refine ⟨device, w, ρ, hconfig, hrun, mem_of_getElem? hρ, hrevision, hdevice, fun hsame => ?_⟩
  rw [hsame, Option.bind_some, beq_self_eq_true] at hcells
  cases hcells

end Compukter.Terminal
