/-
What the scheduler keeps over any run of calls.

`Ringed s q` reads the ready ring as the queue `q` of slots; `Consistent s q` is about the table of tasks:
the queue holds the ready slots, the active slot is the running one, ids are unique and below `nextId`,
and the joins form chains that end.

Every call is described by the slots whose state it changes.  A completion is the one call that changes
several: it wakes all joiners at once, so its loop is described first (`wakeJoined_spec`).
-/
import Compukter.Lib.Ring
import Compukter.Lib.Chain
import Compukter.Task.Scheduler

namespace Compukter

open List Option Nat

namespace TaskScheduler

variable {s : TaskScheduler} {q : List Nat}

/-! ## Reading the table -/

variable {slot : Nat} {state : TaskState}

theorem stateAt_eq_some : s.stateAt slot = some state ↔ ∃ id, s.tasks[slot]? = some ⟨id, state⟩ := by
  unfold stateAt
  constructor
  · intro h
    obtain ⟨⟨id, st⟩, hrecord, rfl⟩ := map_eq_some_iff.mp h
    exact ⟨id, hrecord⟩
  · rintro ⟨id, h⟩
    rw [h]
    rfl

variable {id : TaskId}

theorem idAt_eq_some : s.idAt slot = some id ↔ ∃ state, s.tasks[slot]? = some ⟨some id, state⟩ := by
  unfold idAt
  constructor
  · intro h
    obtain ⟨⟨id', st⟩, hrecord, hid⟩ := bind_eq_some_iff.mp h
    cases hid
    exact ⟨st, hrecord⟩
  · rintro ⟨st, h⟩
    rw [h]
    rfl

theorem lt_of_stateAt (h : s.stateAt slot = some state) : slot < s.tasks.length := by
  obtain ⟨id, hrecord⟩ := stateAt_eq_some.mp h
  exact (List.getElem?_eq_some_iff.mp hrecord).1

theorem exists_state_of_idAt (h : s.idAt slot = some id) : ∃ state, s.stateAt slot = some state := by
  obtain ⟨state, hrecord⟩ := idAt_eq_some.mp h
  exact ⟨state, stateAt_eq_some.mpr ⟨_, hrecord⟩⟩

@[simp] theorem stateAt_setState (slot : Nat) (state : TaskState) (i : Nat) :
    (s.setState slot state).stateAt i = if slot = i then (s.stateAt i).map fun _ => state else s.stateAt i := by
  unfold stateAt setState
  rw [getElem?_modify]
  split <;> cases s.tasks[i]? <;> rfl

@[simp] theorem idAt_setState (slot : Nat) (state : TaskState) (i : Nat) :
    (s.setState slot state).idAt i = s.idAt i := by
  unfold idAt setState
  rw [getElem?_modify]
  split <;> cases s.tasks[i]? <;> rfl

variable {s' : TaskScheduler}

theorem stateAt_congr (h : s'.tasks = s.tasks) : s'.stateAt = s.stateAt := by
  unfold stateAt
  rw [h]

theorem idAt_congr (h : s'.tasks = s.tasks) : s'.idAt = s.idAt := by
  unfold idAt
  rw [h]

/-! ## The ready ring -/

/-- The ring as a queue of slots. -/
structure Ringed (s : TaskScheduler) (q : List Nat) : Prop where
  size : s.ready.length = s.tasks.length
  length : q.length = s.readyLen
  holds : Ring.Holds s.ready 0 s.ready.length s.readyHead q

theorem enqueue_spec (h : Ringed s q) (hroom : q.length < s.tasks.length) (slot : Nat) :
    (s.enqueue slot).1 = .ok () ∧ Ringed (s.enqueue slot).2 (q ++ [slot]) ∧
      (s.enqueue slot).2.tasks = s.tasks ∧ (s.enqueue slot).2.active = s.active ∧
      (s.enqueue slot).2.nextId = s.nextId := by
  have hsize := h.size
  have hlength := h.length
  have hpush := h.holds.push (by omega) slot
  unfold enqueue
  rw [if_neg (by omega)]
  refine ⟨rfl, ⟨?_, ?_, ?_⟩, rfl, rfl, rfl⟩
  · simpa using hsize
  · simpa using hlength
  · rw [hlength] at hpush
    unfold Ring.place at hpush
    simpa using hpush

theorem Ringed.setState (h : Ringed s q) (slot : Nat) (state : TaskState) : Ringed (s.setState slot state) q :=
  ⟨by simpa [TaskScheduler.setState] using h.size, h.length, h.holds⟩

/-! ## The table -/

/-- The task of a slot waits for another task. -/
def JoinsAt (s : TaskScheduler) (slot : Nat) (target : TaskId) : Prop :=
  s.stateAt slot = some (.waiting (.join target))

instance (slot : Nat) (target : TaskId) : Decidable (JoinsAt s slot target) :=
  inferInstanceAs (Decidable (s.stateAt slot = some (.waiting (.join target))))

/-- The ids of the slots. -/
structure Identified (s : TaskScheduler) : Prop where
  occupied : ∀ slot state, s.stateAt slot = some state → (state = .vacant ↔ s.idAt slot = none)
  unique : ∀ i j id, s.idAt i = some id → s.idAt j = some id → i = j
  fresh : ∀ slot id, s.idAt slot = some id → id < s.nextId

structure Consistent (s : TaskScheduler) (q : List Nat) : Prop where
  ids : Identified s
  nodup : q.Nodup
  queued : ∀ slot, slot ∈ q ↔ s.stateAt slot = some .ready
  running : ∀ slot, s.stateAt slot = some .running ↔ s.active = some slot
  target : ∀ slot target, JoinsAt s slot target →
    ∃ i state, s.idAt i = some target ∧ s.stateAt i = some state ∧ state ≠ .completed
  ends : ∀ id, ¬ Endless s.joined id

theorem slot_eq_some (hids : Identified s) {i : Nat} : s.slot id = some i ↔ s.idAt i = some id := by
  have hat : ∀ j, s.idAt j = some id ↔ ∃ record, s.tasks[j]? = some record ∧ record.id = some id := by
    intro j
    exact bind_eq_some_iff
  unfold slot
  constructor
  · intro h
    obtain ⟨hlt, hid, -⟩ := findIdx?_eq_some_iff_getElem.mp h
    exact (hat i).mpr ⟨_, getElem?_eq_getElem hlt, by simpa using hid⟩
  · intro h
    obtain ⟨record, hrecord, hid⟩ := (hat i).mp h
    cases hfind : s.tasks.findIdx? (·.id == some id) with
    | none =>
      have hnone := findIdx?_eq_none_iff.mp hfind record (mem_of_getElem? hrecord)
      rw [hid] at hnone
      simp at hnone
    | some j =>
      obtain ⟨hlt, hid', -⟩ := findIdx?_eq_some_iff_getElem.mp hfind
      have hj : s.idAt j = some id :=
        (hat j).mpr ⟨_, getElem?_eq_getElem hlt, by simpa using hid'⟩
      rw [hids.unique i j id h hj]

theorem joined_eq_some (hids : Identified s) {next : TaskId} :
    s.joined id = some next ↔ ∃ i, s.idAt i = some id ∧ JoinsAt s i next := by
  unfold joined state JoinsAt
  constructor
  · intro h
    split at h
    case h_1 next' hstate =>
      cases h
      obtain ⟨i, hi, hat⟩ := bind_eq_some_iff.mp hstate
      exact ⟨i, (slot_eq_some hids).mp hi, hat⟩
    case h_2 => cases h
  · rintro ⟨i, hi, hat⟩
    simp only [(slot_eq_some hids).mpr hi, bind_some, hat]

/-- A slot outside the queue leaves room in the ring. -/
theorem room_of_outside (hnodup : q.Nodup) (hqueued : ∀ slot, slot ∈ q ↔ s.stateAt slot = some .ready)
    (hlt : slot < s.tasks.length) (hout : slot ∉ q) : q.length < s.tasks.length := by
  have hcons : (slot :: q).Nodup := nodup_cons.mpr ⟨hout, hnodup⟩
  have hsub : slot :: q ⊆ range s.tasks.length := by
    intro i hi
    rw [mem_range]
    rcases mem_cons.mp hi with rfl | hi
    · exact hlt
    · exact lt_of_stateAt ((hqueued i).mp hi)
  have hle := (subperm_of_subset hcons hsub).length_le
  rw [length_cons, length_range] at hle
  exact hle

/-- Making a slot ready keeps the queue in step with the table. -/
structure Queued (s : TaskScheduler) (q : List Nat) : Prop where
  ring : Ringed s q
  nodup : q.Nodup
  ready : ∀ slot, slot ∈ q ↔ s.stateAt slot = some .ready

/-- Joins that only disappear leave no endless chain. -/
theorem ends_of_fewer (h : Consistent s q) (hids : Identified s')
    (hfewer : ∀ i id target, s'.idAt i = some id → JoinsAt s' i target →
      s.idAt i = some id ∧ JoinsAt s i target) (id : TaskId) : ¬ Endless s'.joined id := by
  intro hendless
  refine h.ends id fun n => chain_isSome_of_follow (f := fun x => x) (fun a b hab => ?_) (hendless n)
  obtain ⟨i, hi, hjoin⟩ := (joined_eq_some hids).mp hab
  exact (joined_eq_some h.ids).mpr ⟨i, hfewer i a b hi hjoin⟩

/-! ## Changing the state of a slot -/

section Move

variable {s' : TaskScheduler} {i : Nat} {old new : TaskState}

theorem stateAt_of_move (htasks : s'.tasks = (s.setState i new).tasks) (hold : s.stateAt i = some old) (slot : Nat) :
    s'.stateAt slot = if i = slot then some new else s.stateAt slot := by
  rw [stateAt_congr htasks, stateAt_setState]
  split
  case isTrue h =>
    subst h
    rw [hold]
    rfl
  case isFalse => rfl

theorem idAt_of_move (htasks : s'.tasks = (s.setState i new).tasks) (slot : Nat) : s'.idAt slot = s.idAt slot := by
  rw [idAt_congr htasks, idAt_setState]

theorem Identified.move (h : Identified s) (htasks : s'.tasks = (s.setState i new).tasks)
    (hold : s.stateAt i = some old) (hlive : old ≠ .vacant) (hnew : new ≠ .vacant)
    (hnext : s'.nextId = s.nextId) : Identified s' := by
  refine ⟨fun slot state hstate => ?_, fun j k id => ?_, fun slot id => ?_⟩
  · rw [idAt_of_move htasks]
    rw [stateAt_of_move htasks hold] at hstate
    split at hstate
    case isTrue heq =>
      subst heq
      cases hstate
      rw [← h.occupied i old hold]
      exact ⟨fun h => absurd h hnew, fun h => absurd h hlive⟩
    case isFalse => exact h.occupied slot state hstate
  · rw [idAt_of_move htasks, idAt_of_move htasks]
    exact h.unique j k id
  · rw [idAt_of_move htasks, hnext]
    exact h.fresh slot id

/-- A slot that changes to anything but a join or its end. -/
theorem Consistent.move (h : Consistent s q) (htasks : s'.tasks = (s.setState i new).tasks)
    (hold : s.stateAt i = some old) (hlive : old ≠ .vacant) (hnew : new ≠ .vacant)
    (hnext : s'.nextId = s.nextId) (hjoin : ∀ target, new ≠ .waiting (.join target))
    (hcompleted : new ≠ .completed) {q' : List Nat} (hnodup : q'.Nodup)
    (hqueued : ∀ slot, slot ∈ q' ↔ s'.stateAt slot = some .ready)
    (hrunning : ∀ slot, s'.stateAt slot = some .running ↔ s'.active = some slot) : Consistent s' q' := by
  have hids := h.ids.move htasks hold hlive hnew hnext
  have hbefore : ∀ slot target, JoinsAt s' slot target → JoinsAt s slot target := by
    intro slot target hat
    unfold JoinsAt at hat
    rw [stateAt_of_move htasks hold] at hat
    split at hat
    case isTrue => exact absurd (some.inj hat) (hjoin target)
    case isFalse => exact hat
  refine ⟨hids, hnodup, hqueued, hrunning, fun slot target hat => ?_, ends_of_fewer h hids ?_⟩
  · obtain ⟨j, state, hid, hstate, hne⟩ := h.target slot target (hbefore slot target hat)
    by_cases hij : i = j
    · exact ⟨j, new, by rwa [idAt_of_move htasks], by rw [stateAt_of_move htasks hold, if_pos hij], hcompleted⟩
    · exact ⟨j, state, by rwa [idAt_of_move htasks],
        by rw [stateAt_of_move htasks hold, if_neg hij]; exact hstate, hne⟩
  · intro j id target hid hat
    rw [idAt_of_move htasks] at hid
    exact ⟨hid, hbefore j target hat⟩

end Move

/-! ## Calls that change one slot -/

/-- The ring and the table agree. -/
def Valid (s : TaskScheduler) : Prop := ∃ q, Ringed s q ∧ Consistent s q

theorem Consistent.running_of_active (h : Consistent s q) (hactive : s.active = some slot) :
    s.stateAt slot = some .running := (h.running slot).mpr hactive

/-- The active task has an id. -/
theorem Consistent.exists_active_id (h : Consistent s q) (hactive : s.active = some slot) :
    ∃ id, s.idAt slot = some id := by
  have hoccupied := h.ids.occupied slot .running (h.running_of_active hactive)
  cases hid : s.idAt slot with
  | some id => exact ⟨id, rfl⟩
  | none => cases hoccupied.mpr hid

theorem current_eq (hactive : s.active = some slot) (hid : s.idAt slot = some id) : s.current = .ok id := by
  simp only [current, hactive, bind_some, hid]

/-- A slot that becomes ready goes to the end of the queue. -/
theorem Queued.push (h : Queued s q) {wait : TaskWait} (hold : s.stateAt slot = some (.waiting wait)) :
    ((s.setState slot .ready).enqueue slot).1 = .ok () ∧
      Queued ((s.setState slot .ready).enqueue slot).2 (q ++ [slot]) ∧
      ((s.setState slot .ready).enqueue slot).2.tasks = (s.setState slot .ready).tasks ∧
      ((s.setState slot .ready).enqueue slot).2.active = s.active ∧
      ((s.setState slot .ready).enqueue slot).2.nextId = s.nextId := by
  have hout : slot ∉ q := by
    intro hmem
    rw [h.ready, hold] at hmem
    cases hmem
  have hroom : q.length < (s.setState slot .ready).tasks.length := by
    have := room_of_outside h.nodup h.ready (lt_of_stateAt hold) hout
    simpa [setState] using this
  obtain ⟨hok, hring, htasks, hactive, hnext⟩ := enqueue_spec (h.ring.setState slot .ready) hroom slot
  refine ⟨hok, ⟨hring, ?_, fun i => ?_⟩, htasks, hactive, hnext⟩
  · exact nodup_append.mpr ⟨h.nodup, nodup_singleton slot, fun a ha b hb hab =>
      hout (by rw [mem_singleton] at hb; rwa [← hb, ← hab])⟩
  · rw [stateAt_of_move htasks hold, mem_append, mem_singleton, h.ready]
    split
    case isTrue heq => exact ⟨fun _ => rfl, fun _ => .inr heq.symm⟩
    case isFalse hne => exact ⟨fun hi => hi.resolve_right (Ne.symm hne), .inl⟩

theorem ready_spec (hring : Ringed s q) (h : Consistent s q) {wait : TaskWait}
    (hold : s.stateAt slot = some (.waiting wait)) :
    ((s.setState slot .ready).enqueue slot).1 = .ok () ∧ Valid ((s.setState slot .ready).enqueue slot).2 := by
  obtain ⟨hok, hqueued, htasks, hactive, hnext⟩ := Queued.push ⟨hring, h.nodup, h.queued⟩ hold
  refine ⟨hok, q ++ [slot], hqueued.ring, h.move htasks hold nofun nofun hnext nofun nofun
    hqueued.nodup hqueued.ready fun i => ?_⟩
  rw [stateAt_of_move htasks hold, hactive, ← h.running i]
  split
  case isTrue heq =>
    subst heq
    rw [hold]
    exact ⟨nofun, nofun⟩
  case isFalse => exact Iff.rfl

theorem completeWait_spec (hvalid : Valid s) (task : TaskId) (wait : TaskWait) :
    (s.completeWait task wait).1 ≠ .error .corruptQueue ∧ Valid (s.completeWait task wait).2 := by
  obtain ⟨q, hring, h⟩ := hvalid
  unfold completeWait
  cases s.slot task with
  | none => exact ⟨nofun, q, hring, h⟩
  | some =>
    dsimp only
    split
    case isTrue => exact ⟨nofun, q, hring, h⟩
    case isFalse hwait =>
      obtain ⟨hok, hafter⟩ := ready_spec hring h (Classical.not_not.mp hwait)
      rw [hok]
      exact ⟨nofun, hafter⟩

theorem activateNext_spec (hvalid : Valid s) : s.activateNext.1 ≠ .error .corruptQueue ∧ Valid s.activateNext.2 := by
  obtain ⟨q, hring, h⟩ := hvalid
  unfold activateNext
  by_cases hactive : s.active.isSome
  · rw [if_pos hactive]
    exact ⟨nofun, q, hring, h⟩
  rw [if_neg hactive]
  by_cases hempty : s.readyLen = 0
  · rw [if_pos hempty]
    exact ⟨nofun, q, hring, h⟩
  rw [if_neg hempty]
  have hlength := hring.length
  cases q with
  | nil => exact absurd hlength.symm hempty
  | cons slot rest =>
    have hfirst := hring.holds.first
    rw [zero_add] at hfirst
    have hready : s.stateAt slot = some .ready := (h.queued slot).mp mem_cons_self
    have hidle : s.active = none := by
      cases hs : s.active with
      | none => rfl
      | some => exact absurd (by rw [hs]; rfl) hactive
    obtain ⟨hout, hrest⟩ := nodup_cons.mp h.nodup
    rw [hfirst]
    dsimp only
    rw [if_pos (show s.popReady.stateAt slot = some .ready from hready)]
    have htasks : ({ s.popReady.setState slot .running with active := some slot } :
        TaskScheduler).tasks = (s.setState slot .running).tasks := rfl
    refine ⟨nofun, rest, ⟨?_, ?_, ?_⟩, h.move htasks hready nofun nofun rfl nofun nofun hrest ?_ ?_⟩
    · simpa [setState, popReady] using hring.size
    · show rest.length = s.readyLen - 1
      rw [← hlength]
      rfl
    · have hpop := hring.holds.pop_set noSlot
      simpa [setState, popReady] using hpop
    · intro i
      rw [stateAt_of_move htasks hready]
      have hqueued := h.queued i
      rw [mem_cons] at hqueued
      split
      case isTrue heq =>
        subst heq
        exact ⟨fun hi => absurd hi hout, nofun⟩
      case isFalse hne =>
        rw [← hqueued]
        exact ⟨.inr, fun hi => hi.resolve_left (Ne.symm hne)⟩
    · intro i
      rw [stateAt_of_move htasks hready]
      show _ ↔ some slot = some i
      split
      case isTrue heq => exact ⟨fun _ => by rw [heq], fun _ => rfl⟩
      case isFalse hne =>
        rw [h.running, hidle]
        exact ⟨nofun, fun heq => absurd (some.inj heq) hne⟩

/-- What a successful suspension leaves. -/
theorem suspend_eq (h : Consistent s q) (hactive : s.active = some slot) (wait : TaskWait) :
    ∃ id, s.suspend wait = (.ok id, { s with active := none }.setState slot (.waiting wait)) := by
  obtain ⟨id, hid⟩ := h.exists_active_id hactive
  refine ⟨id, ?_⟩
  unfold suspend
  rw [hactive]
  dsimp only
  rw [hid]

/-- The queue and the active slot after a suspension. -/
theorem suspend_queue (h : Consistent s q) (hactive : s.active = some slot) (wait : TaskWait) :
    (∀ i, i ∈ q ↔
      ({ s with active := none }.setState slot (.waiting wait)).stateAt i = some .ready) ∧
    ∀ i, ({ s with active := none }.setState slot (.waiting wait)).stateAt i = some .running ↔
      ({ s with active := none }.setState slot (.waiting wait)).active = some i := by
  have hold := h.running_of_active hactive
  have hstate := fun i => @stateAt_of_move s _ slot .running (.waiting wait)
    (show ({ s with active := none }.setState slot (.waiting wait)).tasks = _ from rfl) hold i
  constructor
  · intro i
    rw [hstate, h.queued]
    split
    case isTrue heq =>
      subst heq
      rw [hold]
      exact ⟨nofun, nofun⟩
    case isFalse => exact Iff.rfl
  · intro i
    rw [hstate]
    show _ ↔ none = some i
    split
    case isTrue => exact ⟨nofun, nofun⟩
    case isFalse hne =>
      rw [h.running, hactive]
      exact ⟨fun heq => absurd (some.inj heq) hne, nofun⟩

theorem suspend_spec (hvalid : Valid s) {wait : TaskWait} (hjoin : ∀ target, wait ≠ .join target) :
    (s.suspend wait).1 ≠ .error .corruptQueue ∧ Valid (s.suspend wait).2 := by
  obtain ⟨q, hring, h⟩ := hvalid
  cases hactive : s.active with
  | none =>
    unfold suspend
    rw [hactive]
    exact ⟨nofun, q, hring, h⟩
  | some slot =>
    obtain ⟨id, heq⟩ := suspend_eq h hactive wait
    obtain ⟨hqueued, hrunning⟩ := suspend_queue h hactive wait
    have htasks : ({ s with active := none }.setState slot (.waiting wait)).tasks =
        (s.setState slot (.waiting wait)).tasks := rfl
    rw [heq]
    refine ⟨nofun, q, ⟨by simpa [setState] using hring.size, hring.length, hring.holds⟩,
      h.move htasks (h.running_of_active hactive) nofun nofun rfl (fun target heq => ?_) nofun h.nodup
        hqueued hrunning⟩
    cases heq
    exact hjoin target rfl

/-! ## New tasks -/

/-- What a new task in a vacant slot changes. -/
structure Fills (s after : TaskScheduler) (slot : Nat) : Prop where
  vacant : s.stateAt slot = some .vacant
  active : after.active = s.active
  nextId : after.nextId = s.nextId + 1
  ids : ∀ i, after.idAt i = if slot = i then some s.nextId else s.idAt i
  states : ∀ i, after.stateAt i = if slot = i then some .ready else s.stateAt i

/-- `spawn` fails and changes nothing, or fills a vacant slot that goes to the end of the queue. -/
theorem spawn_cases (hring : Ringed s q) (h : Consistent s q) : (∃ e, e ≠ .corruptQueue ∧ s.spawn = (.error e, s)) ∨
      ∃ slot after, s.spawn = (.ok s.nextId, after) ∧ Queued after (q ++ [slot]) ∧ Fills s after slot := by
  unfold spawn
  by_cases hactive : s.active.isNone
  · rw [if_pos hactive]
    exact .inl ⟨.noRunningTask, nofun, rfl⟩
  rw [if_neg hactive]
  cases hfind : s.tasks.findIdx? (·.state == .vacant) with
  | none => exact .inl ⟨.noCapacity, nofun, rfl⟩
  | some slot =>
    dsimp only
    by_cases hid : 2 ^ 31 ≤ s.nextId ∨ s.nextId = 0
    · rw [if_pos hid]
      exact .inl ⟨.idExhausted, nofun, rfl⟩
    rw [if_neg hid]
    obtain ⟨hlt, hstate, -⟩ := findIdx?_eq_some_iff_getElem.mp hfind
    have hvacant : s.stateAt slot = some .vacant := by
      unfold stateAt
      rw [getElem?_eq_getElem hlt]
      exact congrArg some (by simpa using hstate)
    let filled : TaskScheduler :=
      { s with tasks := s.tasks.set slot ⟨some s.nextId, .ready⟩, nextId := s.nextId + 1 }
    have hfilled : Ringed filled q := ⟨by simpa [filled] using hring.size, hring.length, hring.holds⟩
    have hout : slot ∉ q := by
      intro hmem
      rw [h.queued, hvacant] at hmem
      cases hmem
    have hroom : q.length < filled.tasks.length := by
      simpa [filled] using room_of_outside h.nodup h.queued hlt hout
    obtain ⟨hok, hring', htasks, hactive', hnext⟩ := enqueue_spec hfilled hroom slot
    have hstates : ∀ i, (filled.enqueue slot).2.stateAt i = if slot = i then some .ready else s.stateAt i := by
      intro i
      rw [stateAt_congr htasks]
      show ((s.tasks.set slot _)[i]?).map _ = _
      rw [getElem?_set]
      split <;> rfl
    have hids : ∀ i, (filled.enqueue slot).2.idAt i = if slot = i then some s.nextId else s.idAt i := by
      intro i
      rw [idAt_congr htasks]
      show ((s.tasks.set slot _)[i]?).bind _ = _
      rw [getElem?_set]
      split <;> rfl
    refine .inr ⟨slot, (filled.enqueue slot).2, ?_, ⟨hring', ?_, fun i => ?_⟩,
      hvacant, hactive', hnext, hids, hstates⟩
    · have heq : filled.enqueue slot = (.ok (), (filled.enqueue slot).2) := Prod.ext hok rfl
      rw [heq]
    · exact nodup_append.mpr ⟨h.nodup, nodup_singleton slot, fun a ha b hb hab =>
        hout (by rw [mem_singleton] at hb; rwa [← hb, ← hab])⟩
    · rw [hstates, mem_append, mem_singleton, h.queued]
      split
      case isTrue heq => exact ⟨fun _ => rfl, fun _ => .inr heq.symm⟩
      case isFalse hne => exact ⟨fun hi => hi.resolve_right (Ne.symm hne), .inl⟩

variable {after : TaskScheduler}

theorem Fills.identified (hf : Fills s after slot) (h : Identified s) : Identified after := by
  refine ⟨fun i state hi => ?_, fun i j id hi hj => ?_, fun i id hi => ?_⟩
  · rw [hf.states] at hi
    rw [hf.ids]
    split at hi
    case isTrue heq =>
      cases hi
      rw [if_pos heq]
      exact ⟨nofun, nofun⟩
    case isFalse hne =>
      rw [if_neg hne]
      exact h.occupied i state hi
  · rw [hf.ids] at hi hj
    -- the new id is above all others
    split at hi <;> split at hj
    case isTrue.isTrue hi' hj' => exact hi'.symm.trans hj'
    case isTrue.isFalse =>
      cases hi
      exact absurd (h.fresh j _ hj) (lt_irrefl _)
    case isFalse.isTrue =>
      cases hj
      exact absurd (h.fresh i _ hi) (lt_irrefl _)
    case isFalse.isFalse => exact h.unique i j id hi hj
  · rw [hf.ids] at hi
    rw [hf.nextId]
    split at hi
    case isTrue =>
      cases hi
      exact lt_succ_self _
    case isFalse => exact lt_succ_of_lt (h.fresh i id hi)

theorem Fills.consistent {q' : List Nat} (hf : Fills s after slot) (h : Consistent s q)
    (hq : Queued after q') : Consistent after q' := by
  have hunnamed : s.idAt slot = none := (h.ids.occupied slot .vacant hf.vacant).mp rfl
  have hbefore : ∀ i target, JoinsAt after i target → slot ≠ i ∧ JoinsAt s i target := by
    intro i target hat
    unfold JoinsAt at hat
    rw [hf.states] at hat
    split at hat
    case isTrue => cases hat
    case isFalse hne => exact ⟨hne, hat⟩
  have hids := hf.identified h.ids
  refine ⟨hids, hq.nodup, hq.ready, fun i => ?_, fun i target hat => ?_, ends_of_fewer h hids ?_⟩
  · rw [hf.states, hf.active, ← h.running i]
    split
    case isTrue heq =>
      subst heq
      rw [hf.vacant]
      exact ⟨nofun, nofun⟩
    case isFalse => exact Iff.rfl
  · obtain ⟨j, state, hid, hstate, hne⟩ := h.target i target (hbefore i target hat).2
    have hslot : slot ≠ j := by
      rintro rfl
      rw [hunnamed] at hid
      cases hid
    exact ⟨j, state, by rw [hf.ids, if_neg hslot]; exact hid, by rw [hf.states, if_neg hslot]; exact hstate, hne⟩
  · intro i id target hid hat
    obtain ⟨hne, hjoins⟩ := hbefore i target hat
    rw [hf.ids, if_neg hne] at hid
    exact ⟨hid, hjoins⟩

theorem spawn_spec (hvalid : Valid s) :
    s.spawn.1 ≠ .error .corruptQueue ∧ Valid s.spawn.2 ∧ s.nextId ≤ s.spawn.2.nextId ∧
      ∀ id, s.spawn.1 = .ok id → id = s.nextId ∧ s.spawn.2.nextId = id + 1 := by
  obtain ⟨q, hring, h⟩ := hvalid
  rcases spawn_cases hring h with ⟨e, hne, heq⟩ | ⟨slot, after, heq, hq, hf⟩ <;> rw [heq]
  · exact ⟨fun h => hne (Except.error.inj h), ⟨q, hring, h⟩, le_refl _, nofun⟩
  · refine ⟨nofun, ⟨_, hq.ring, hf.consistent h hq⟩, ?_, fun id hid => ?_⟩
    · rw [hf.nextId]
      exact le_succ _
    · cases hid
      exact ⟨rfl, hf.nextId⟩

/-! ## Joining -/

section Join

variable {active : Nat} {current target : TaskId}

/-- The walk ends before it has seen every slot: the active task waits for nothing. -/
theorem chain_joined_length (h : Consistent s q) (hactive : s.active = some active) (id : TaskId) :
    chain s.joined s.tasks.length id = none := by
  by_contra hne
  let others := (s.tasks.eraseIdx active).filterMap TaskRecord.id
  have hlt : active < s.tasks.length := lt_of_stateAt (h.running_of_active hactive)
  have hlength : others.length + 1 ≤ s.tasks.length := by
    have hle := length_filterMap_le TaskRecord.id (s.tasks.eraseIdx active)
    rw [length_eraseIdx_of_lt hlt] at hle
    show (filterMap _ _).length + 1 ≤ _
    omega
  refine h.ends id (endless_of_sources others (fun x y hxy => ?_)
    (chain_isSome_of_le hlength (isSome_iff_ne_none.mpr hne)))
  obtain ⟨i, hid, hat⟩ := (joined_eq_some h.ids).mp hxy
  obtain ⟨_, hrecord⟩ := idAt_eq_some.mp hid
  have hother : i ≠ active := by
    rintro rfl
    unfold JoinsAt at hat
    rw [h.running_of_active hactive] at hat
    cases hat
  exact mem_filterMap.mpr ⟨_, mem_eraseIdx_iff_getElem?.mpr ⟨i, hother, hrecord⟩, rfl⟩

/-- The tasks on the way from a task to the one it leads to. -/
def Leads (s : TaskScheduler) (id current : TaskId) : Prop := ∃ n, chain s.joined (n + 1) id = some current

/-- A task that leads to another one waits. -/
theorem Leads.joins {id : TaskId} (h : Leads s id current) (hids : Identified s) :
    ∃ j next, s.idAt j = some id ∧ JoinsAt s j next := by
  obtain ⟨n, hn⟩ := h
  obtain ⟨next, hnext, -⟩ := bind_eq_some_iff.mp hn
  obtain ⟨j, hj, hat⟩ := (joined_eq_some hids).mp hnext
  exact ⟨j, next, hj, hat⟩

theorem joinFrom_spec (current target : TaskId) (h : Consistent s q) {fuel : Nat} {cursor : TaskId}
    (hknown : ∃ i, s.idAt i = some cursor) (hends : chain s.joined fuel cursor = none) :
    (Leads s cursor current → s.joinFrom current target fuel cursor = (.error .joinCycle, s)) ∧
    (¬ Leads s cursor current → s.joinFrom current target fuel cursor =
      match s.suspend (.join target) with
      | (.ok _, after) => (.ok true, after)
      | (.error e, after) => (.error e, after)) := by
  induction fuel generalizing cursor with
  | zero => cases hends
  | succ fuel ih =>
    obtain ⟨i, hi⟩ := hknown
    unfold joinFrom
    rw [(slot_eq_some h.ids).mpr hi]
    cases hjoined : s.joined cursor with
    | none =>
      refine ⟨fun ⟨n, hn⟩ => ?_, fun _ => rfl⟩
      have hn : (s.joined cursor).bind (chain s.joined n) = some current := hn
      rw [hjoined] at hn
      cases hn
    | some next =>
      dsimp only
      by_cases hnext : next = current
      · rw [if_pos hnext]
        refine ⟨fun _ => rfl, fun hno => absurd ⟨0, ?_⟩ hno⟩
        show (s.joined cursor).bind some = some current
        rw [hjoined, hnext]
        rfl
      · rw [if_neg hnext]
        obtain ⟨j, hj, hat⟩ := (joined_eq_some h.ids).mp hjoined
        obtain ⟨k, -, hk, -, -⟩ := h.target j next hat
        have hends' : chain s.joined fuel next = none := by
          have hends : (s.joined cursor).bind (chain s.joined fuel) = none := hends
          rwa [hjoined] at hends
        have hleads : Leads s cursor current ↔ Leads s next current := by
          constructor
          · rintro ⟨n, hn⟩
            have hn : (s.joined cursor).bind (chain s.joined n) = some current := hn
            rw [hjoined] at hn
            cases n with
            | zero => exact absurd (some.inj hn) hnext
            | succ n => exact ⟨n, hn⟩
          · rintro ⟨n, hn⟩
            refine ⟨n + 1, ?_⟩
            show (s.joined cursor).bind (chain s.joined (n + 1)) = some current
            rw [hjoined]
            exact hn
        rw [hleads]
        exact ih ⟨k, hk⟩ hends'

/-- The active task waits for a task that does not lead back to it. -/
theorem Consistent.suspendJoin (h : Consistent s q) (hactive : s.active = some active)
    (hcurrent : s.idAt active = some current) {i : Nat} {state : TaskState}
    (htarget : s.idAt i = some target) (hstate : s.stateAt i = some state) (hlive : state ≠ .completed)
    (hne : current ≠ target) (hleads : ¬ Leads s target current) :
    Consistent ({ s with active := none }.setState active (.waiting (.join target))) q := by
  have hold := h.running_of_active hactive
  have htasks : ({ s with active := none }.setState active (.waiting (.join target))).tasks =
      (s.setState active (.waiting (.join target))).tasks := rfl
  obtain ⟨hqueued, hrunning⟩ := suspend_queue h hactive (.join target)
  have hids := h.ids.move htasks hold nofun nofun rfl
  have hstateAt := stateAt_of_move htasks hold
  have hidAt := idAt_of_move htasks
  have hother : i ≠ active := by
    rintro rfl
    rw [hcurrent] at htarget
    exact hne (some.inj htarget)
  refine ⟨hids, h.nodup, hqueued, hrunning, fun slot next hat => ?_, ?_⟩
  · unfold JoinsAt at hat
    rw [hstateAt] at hat
    split at hat
    case isTrue =>
      cases hat
      exact ⟨i, state, by rwa [hidAt], by rw [hstateAt, if_neg hother.symm]; exact hstate, hlive⟩
    case isFalse =>
      obtain ⟨j, state', hid, hstate', hlive'⟩ := h.target slot next hat
      rw [← hidAt] at hid
      by_cases hj : active = j
      · exact ⟨j, .waiting (.join target), hid, by rw [hstateAt, if_pos hj], nofun⟩
      · exact ⟨j, state', hid, by rw [hstateAt, if_neg hj]; exact hstate', hlive'⟩
  · refine not_endless_of_edge current target h.ends (fun x hx => ?_) ?_ ?_
    · refine ext fun y => ?_
      rw [joined_eq_some hids, joined_eq_some h.ids]
      refine exists_congr fun j => ?_
      rw [hidAt]
      refine and_congr_right fun hj => ?_
      unfold JoinsAt
      rw [hstateAt, if_neg]
      rintro rfl
      rw [hcurrent] at hj
      exact hx (some.inj hj).symm
    · refine (joined_eq_some hids).mpr ⟨active, by rwa [hidAt], ?_⟩
      unfold JoinsAt
      rw [hstateAt, if_pos rfl]
    · intro n hn
      cases n with
      | zero => exact hne (some.inj hn).symm
      | succ n => exact hleads ⟨n, hn⟩

/-- Joining reports a cycle exactly when the task leads back to the one that runs. -/
theorem join_spec (hvalid : Valid s) (target : TaskId) :
    (s.join target).1 ≠ .error .corruptQueue ∧ Valid (s.join target).2 ∧ (s.join target).2.nextId = s.nextId ∧
      ((s.join target).1 = .error .selfJoin ↔ s.current = .ok target) ∧
      ((s.join target).1 = .error .joinCycle ↔ ∃ id, s.current = .ok id ∧ Leads s target id) := by
  obtain ⟨q, hring, h⟩ := hvalid
  have hsame : Valid s := ⟨q, hring, h⟩
  unfold join
  cases hactive : s.active with
  | none =>
    have hidle : s.current = .error .noRunningTask := by
      unfold current
      rw [hactive]
      rfl
    rw [hidle]
    exact ⟨nofun, hsame, rfl, ⟨nofun, nofun⟩, ⟨nofun, nofun⟩⟩
  | some active =>
    obtain ⟨current, hid⟩ := h.exists_active_id hactive
    have hold := h.running_of_active hactive
    rw [current_eq hactive hid]
    dsimp only
    by_cases hself : current = target
    · subst hself
      rw [if_pos rfl]
      refine ⟨nofun, hsame, rfl, ⟨fun _ => rfl, fun _ => rfl⟩, ⟨nofun, ?_⟩⟩
      -- the running task waits for nothing, so nothing leads from it
      rintro ⟨id, -, hleads⟩
      obtain ⟨j, next, hj, hat⟩ := hleads.joins h.ids
      rw [h.ids.unique j active current hj hid] at hat
      cases hold.symm.trans hat
    rw [if_neg hself]
    have hnotself : (Except.ok current : Except TaskError TaskId) ≠ .ok target :=
      fun heq => hself (Except.ok.inj heq)
    cases hslot : s.slot target with
    | none =>
      refine ⟨nofun, hsame, rfl, ⟨nofun, fun heq => absurd heq hnotself⟩, ⟨nofun, ?_⟩⟩
      rintro ⟨id, -, hleads⟩
      obtain ⟨j, -, hj, -⟩ := hleads.joins h.ids
      rw [(slot_eq_some h.ids).mpr hj] at hslot
      cases hslot
    | some i =>
      have htarget := (slot_eq_some h.ids).mp hslot
      obtain ⟨state, hstate⟩ := exists_state_of_idAt htarget
      dsimp only
      by_cases hdone : s.stateAt i = some .completed
      · rw [if_pos hdone]
        refine ⟨nofun, hsame, rfl, ⟨nofun, fun heq => absurd heq hnotself⟩, ⟨nofun, ?_⟩⟩
        rintro ⟨id, -, hleads⟩
        obtain ⟨j, next, hj, hat⟩ := hleads.joins h.ids
        rw [h.ids.unique j i target hj htarget] at hat
        cases hdone.symm.trans hat
      rw [if_neg hdone]
      obtain ⟨hcycle, hfree⟩ := joinFrom_spec current target h ⟨i, htarget⟩ (chain_joined_length h hactive target)
      by_cases hleads : Leads s target current
      · rw [hcycle hleads]
        exact ⟨nofun, hsame, rfl, ⟨nofun, fun heq => absurd heq hnotself⟩,
          ⟨fun _ => ⟨current, rfl, hleads⟩, fun _ => rfl⟩⟩
      · obtain ⟨id, hsuspend⟩ := suspend_eq h hactive (.join target)
        rw [hfree hleads, hsuspend]
        have hlive : state ≠ .completed := fun heq => hdone (heq ▸ hstate)
        refine ⟨nofun, ⟨q, ⟨by simpa [setState] using hring.size, hring.length, hring.holds⟩,
          h.suspendJoin hactive hid htarget hstate hlive hself hleads⟩, rfl,
          ⟨nofun, fun heq => absurd heq hnotself⟩, ⟨nofun, ?_⟩⟩
        rintro ⟨id, hid, hto⟩
        cases hid
        exact absurd hto hleads

end Join

/-! ## Completion -/

/-- The loop of `completeCurrent`: of the slots still to come, the joiners become ready. -/
theorem wakeJoined_spec (completed : TaskId) {slots : List Nat} (h : Queued s q) (hslots : slots.Nodup) :
    (wakeJoined completed slots s).1 = .ok () ∧ (∃ q', Queued (wakeJoined completed slots s).2 q') ∧
      (wakeJoined completed slots s).2.active = s.active ∧ (wakeJoined completed slots s).2.nextId = s.nextId ∧
      (∀ i, (wakeJoined completed slots s).2.idAt i = s.idAt i) ∧ ∀ i, (wakeJoined completed slots s).2.stateAt i =
        if i ∈ slots ∧ JoinsAt s i completed then some .ready else s.stateAt i := by
  induction slots generalizing s q with
  | nil => exact ⟨rfl, ⟨q, h⟩, rfl, rfl, fun _ => rfl, fun i => (if_neg (by simp)).symm⟩
  | cons waiter rest ih =>
    obtain ⟨hout, hrest⟩ := nodup_cons.mp hslots
    by_cases hwaits : JoinsAt s waiter completed
    · obtain ⟨hok, hqueued, htasks, hactive, hnext⟩ := h.push hwaits
      have hstateAt := stateAt_of_move htasks hwaits
      obtain ⟨hok', hq', hactive', hnext', hid', hstate'⟩ := ih hqueued hrest
      have hstep : wakeJoined completed (waiter :: rest) s =
          wakeJoined completed rest ((s.setState waiter .ready).enqueue waiter).2 := by
        show (if JoinsAt s waiter completed then _ else _) = _
        rw [if_pos hwaits]
        rcases heq : (s.setState waiter .ready).enqueue waiter with ⟨_, _⟩
        rw [heq] at hok
        cases hok
        rfl
      rw [hstep]
      refine ⟨hok', hq', hactive'.trans hactive, hnext'.trans hnext,
        fun i => (hid' i).trans (idAt_of_move htasks i), fun i => ?_⟩
      rw [hstate' i]
      by_cases hi : waiter = i
      · subst hi
        rw [if_neg (fun hmem => hout hmem.1), if_pos ⟨mem_cons_self, hwaits⟩, hstateAt, if_pos rfl]
      · have hsame := (hstateAt i).trans (if_neg hi)
        simp only [JoinsAt, hsame, mem_cons, Ne.symm hi, false_or]
    · have hstep : wakeJoined completed (waiter :: rest) s = wakeJoined completed rest s := by
        show (if s.stateAt waiter = some (.waiting (.join completed)) then _ else _) = _
        exact if_neg hwaits
      obtain ⟨hok, hq', hactive, hnext, hid, hstate⟩ := ih h hrest
      rw [hstep]
      refine ⟨hok, hq', hactive, hnext, hid, fun i => ?_⟩
      rw [hstate i]
      by_cases hi : i = waiter
      · subst hi
        rw [if_neg (fun hmem => hout hmem.1), if_neg (fun hmem => hwaits hmem.2)]
      · simp only [mem_cons, hi, false_or]

/-- What completing the active task does to every slot. -/
structure Completes (s after : TaskScheduler) (active : Nat) (completed : TaskId) : Prop where
  nextId : after.nextId = s.nextId
  idle : after.active = none
  ids : ∀ i, after.idAt i = s.idAt i
  states : ∀ i, after.stateAt i =
    if i = active then some .completed else if JoinsAt s i completed then some .ready else s.stateAt i

theorem completeCurrent_eq (hring : Ringed s q) (h : Consistent s q) {active : Nat} (hactive : s.active = some active) :
    ∃ completed after q', s.idAt active = some completed ∧ s.completeCurrent = (.ok completed, after) ∧
      Queued after q' ∧ Completes s after active completed := by
  obtain ⟨completed, hid⟩ := h.exists_active_id hactive
  have hold := h.running_of_active hactive
  let idle := { s with active := none }.setState active .completed
  have htasks : idle.tasks = (s.setState active .completed).tasks := rfl
  have hidle := stateAt_of_move htasks hold
  have hqueued : Queued idle q := by
    refine ⟨⟨by simpa [idle, setState] using hring.size, hring.length, hring.holds⟩, h.nodup, fun i => ?_⟩
    rw [hidle, h.queued]
    split
    case isTrue heq =>
      subst heq
      simp [hold]
    case isFalse => exact Iff.rfl
  obtain ⟨hok, ⟨q', hq'⟩, hactive', hnext, hids, hstates⟩ :=
    wakeJoined_spec completed hqueued (nodup_range (n := s.tasks.length))
  refine ⟨completed, _, q', hid, ?_, hq', hnext, hactive', fun i => ?_, fun i => ?_⟩
  · unfold completeCurrent
    rw [hactive]
    dsimp only
    rw [hid]
    have heq : wakeJoined completed (range s.tasks.length) idle = (.ok (), _) := Prod.ext hok rfl
    simp only [idle] at heq ⊢
    rw [heq]
  · rw [hids]
    exact idAt_of_move htasks i
  · rw [hstates]
    by_cases hi : active = i
    · subst hi
      have hdone := (hidle active).trans (if_pos rfl)
      have hno : ¬ JoinsAt idle active completed := by
        unfold JoinsAt
        rw [hdone]
        exact nofun
      rw [if_neg (fun hmem => hno hmem.2), if_pos rfl, hdone]
    · have hsame := (hidle i).trans (if_neg hi)
      rw [if_neg (Ne.symm hi), hsame]
      by_cases hat : JoinsAt s i completed
      · rw [if_pos ⟨mem_range.mpr (lt_of_stateAt hat), hsame.trans hat⟩, if_pos hat]
      · rw [if_neg (fun hmem => hat (hsame.symm.trans hmem.2)), if_neg hat]

theorem Completes.consistent (h : Consistent s q) {after : TaskScheduler} {active : Nat}
    {completed : TaskId} (hactive : s.active = some active) (hid : s.idAt active = some completed)
    {q' : List Nat} (hq : Queued after q') (hc : Completes s after active completed) : Consistent after q' := by
  -- joins that are left are old ones, and not for the completed task
  have hbefore : ∀ i target, JoinsAt after i target → JoinsAt s i target ∧ target ≠ completed := by
    intro i target hat
    unfold JoinsAt at hat
    rw [hc.states] at hat
    split at hat
    case isTrue => cases hat
    case isFalse =>
      split at hat
      case isTrue => cases hat
      case isFalse hno =>
        refine ⟨hat, ?_⟩
        rintro rfl
        exact hno hat
  have hids : Identified after := by
    refine ⟨fun i state hi => ?_, fun i j id hi hj => ?_, fun i id hi => ?_⟩
    · rw [hc.ids]
      rw [hc.states] at hi
      split at hi
      case isTrue heq =>
        subst heq
        cases hi
        rw [hid]
        exact ⟨nofun, nofun⟩
      case isFalse =>
        split at hi
        case isTrue hat =>
          cases hi
          rw [← h.ids.occupied i _ hat]
          exact ⟨nofun, nofun⟩
        case isFalse => exact h.ids.occupied i state hi
    · rw [hc.ids] at hi hj
      exact h.ids.unique i j id hi hj
    · rw [hc.ids] at hi
      rw [hc.nextId]
      exact h.ids.fresh i id hi
  refine ⟨hids, hq.nodup, hq.ready, fun i => ?_, fun i target hat => ?_, ends_of_fewer h hids ?_⟩
  · rw [hc.states, hc.idle]
    split
    case isTrue => exact ⟨nofun, nofun⟩
    case isFalse hne =>
      split
      case isTrue => exact ⟨nofun, nofun⟩
      case isFalse =>
        rw [h.running, hactive]
        exact ⟨fun heq => absurd (some.inj heq).symm hne, nofun⟩
  · obtain ⟨hat, hne⟩ := hbefore i target hat
    obtain ⟨j, state, hj, hstate, hlive⟩ := h.target i target hat
    have hother : j ≠ active := by
      rintro rfl
      rw [hid] at hj
      exact hne (some.inj hj).symm
    by_cases hwoken : JoinsAt s j completed
    · exact ⟨j, .ready, by rwa [hc.ids], by rw [hc.states, if_neg hother, if_pos hwoken], nofun⟩
    · exact ⟨j, state, by rwa [hc.ids], by rw [hc.states, if_neg hother, if_neg hwoken]; exact hstate, hlive⟩
  · intro i id target hi hat
    rw [hc.ids] at hi
    exact ⟨hi, (hbefore i target hat).1⟩

theorem completeCurrent_spec (hvalid : Valid s) :
    s.completeCurrent.1 ≠ .error .corruptQueue ∧ Valid s.completeCurrent.2 ∧ s.completeCurrent.2.nextId = s.nextId := by
  obtain ⟨q, hring, h⟩ := hvalid
  cases hactive : s.active with
  | none =>
    unfold completeCurrent
    rw [hactive]
    exact ⟨nofun, ⟨q, hring, h⟩, rfl⟩
  | some =>
    obtain ⟨_, _, q', hid, heq, hq, hc⟩ := completeCurrent_eq hring h hactive
    rw [heq]
    exact ⟨nofun, ⟨q', hq.ring, hc.consistent h hactive hid hq⟩, hc.nextId⟩

end TaskScheduler

end Compukter
