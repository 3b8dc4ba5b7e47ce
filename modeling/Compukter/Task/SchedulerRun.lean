/-
Runs of the scheduler, from the start of the root task on.

One call keeps `Valid` and never finds the ready ring corrupt (`call_spec`).  What validity says about a
state is stated in the scheduler's own terms: the ready ring read from its head, and the graph of the joins.
-/
import Compukter.Task.SchedulerInvariant

namespace Compukter

namespace TaskScheduler

open List Option

variable {s : TaskScheduler}

/-! ## What a valid state looks like -/

/-- The slots in the ready ring, from its head on. -/
def readyQueue (s : TaskScheduler) : List Nat :=
  (List.range s.readyLen).map fun i => s.ready.getD ((s.readyHead + i) % s.ready.length) noSlot

/-- The graph of the joins. -/
def WaitsFor (s : TaskScheduler) (task target : TaskId) : Prop :=
  s.state task = some (.waiting (.join target))

theorem Ringed.readyQueue_eq {q : List Nat} (h : Ringed s q) : s.readyQueue = q := by
  have hread := h.holds.read noSlot
  rw [h.length] at hread
  simp only [Ring.place, Nat.zero_add] at hread
  exact hread

theorem joined_eq_some_iff {task target : TaskId} : s.joined task = some target ↔ WaitsFor s task target := by
  unfold joined WaitsFor
  split
  case h_1 next heq =>
    rw [heq]
    exact ⟨fun h => by cases h; rfl, fun h => by cases h; rfl⟩
  case h_2 hother => exact ⟨nofun, fun h => absurd h (hother target)⟩

theorem waitsFor_eq : WaitsFor s = fun task target => s.joined task = some target := by
  funext task target
  exact propext joined_eq_some_iff.symm

theorem Valid.acyclic (h : Valid s) (id : TaskId) : ¬ Relation.TransGen (WaitsFor s) id id := by
  obtain ⟨q, -, hconsistent⟩ := h
  rw [waitsFor_eq]
  exact not_transGen_self hconsistent.ends id

/-- `Leads` is the transitive closure of the joins. -/
theorem leads_iff {id current : TaskId} : Leads s id current ↔ Relation.TransGen (WaitsFor s) id current := by
  rw [waitsFor_eq]
  exact transGen_iff_chain.symm

/-- **Cycle reports of `join`.**  An error for a cycle is given exactly if the new edge closes one. -/
theorem Valid.join_cycle_iff (h : Valid s) {id : TaskId} (hcurrent : s.current = .ok id) (target : TaskId) :
    ((s.join target).1 = .error .selfJoin ∨ (s.join target).1 = .error .joinCycle) ↔
      ∃ x, Relation.TransGen (fun a b => WaitsFor s a b ∨ (a = id ∧ b = target)) x x := by
  obtain ⟨-, -, -, hself, hcycle⟩ := join_spec h target
  rw [hself, hcycle, insert_closes_cycle_iff h.acyclic, Relation.reflTransGen_iff_eq_or_transGen, hcurrent]
  refine or_congr ⟨fun heq => Except.ok.inj heq, fun heq => congrArg _ heq⟩ ?_
  constructor
  · rintro ⟨_, heq, hleads⟩
    cases heq
    exact leads_iff.mp hleads
  · intro hleads
    exact ⟨id, rfl, leads_iff.mpr hleads⟩

/-- **Completion.**  The joiners of the completed task become ready, and no other task. -/
theorem Valid.completeCurrent_states (h : Valid s) {completed : TaskId} {after : TaskScheduler}
    (heq : s.completeCurrent = (.ok completed, after)) (slot : Nat) :
    after.stateAt slot = if s.active = some slot then some .completed
      else if s.stateAt slot = some (.waiting (.join completed)) then some .ready else s.stateAt slot := by
  obtain ⟨q, hring, hconsistent⟩ := h
  cases hactive : s.active with
  | none =>
    unfold completeCurrent at heq
    rw [hactive] at heq
    cases heq
  | some active =>
    obtain ⟨_, _, q', -, heq', -, hc⟩ := completeCurrent_eq hring hconsistent hactive
    rw [heq'] at heq
    cases heq
    rw [hc.states slot]
    by_cases hslot : slot = active
    · rw [if_pos hslot, if_pos (congrArg some hslot.symm)]
    · rw [if_neg hslot, if_neg fun hsome => hslot (some.inj hsome).symm]
      rfl

/-! ## Runs -/

theorem nextId_activateNext : s.activateNext.2.nextId = s.nextId := by
  unfold activateNext
  split
  · rfl
  split
  · rfl
  split
  · rfl
  split <;> rfl

theorem nextId_suspend (wait : TaskWait) : (s.suspend wait).2.nextId = s.nextId := by
  unfold suspend
  split
  · rfl
  split <;> rfl

theorem nextId_enqueue (slot : Nat) : (s.enqueue slot).2.nextId = s.nextId := by
  unfold enqueue
  split <;> rfl

theorem nextId_completeWait (task : TaskId) (wait : TaskWait) : (s.completeWait task wait).2.nextId = s.nextId := by
  unfold completeWait
  split
  · rfl
  split
  · rfl
  · exact nextId_enqueue _

theorem reply_ne {α : Type} {r : Result α} {f : α → Reply} {e : TaskError} (h : r.1 ≠ .error e) :
    (r.reply f).1 ≠ .error e := by
  obtain ⟨result, _⟩ := r
  cases result with
  | ok => exact nofun
  | error => exact fun heq => h (by cases heq; rfl)

/-- **One call.**  It keeps the state valid, and a new task gets an id that was never used. -/
theorem call_spec (h : Valid s) (c : Call) :
    (s.call c).1 ≠ .error .corruptQueue ∧ Valid (s.call c).2 ∧ s.nextId ≤ (s.call c).2.nextId ∧
      ∀ id ∈ newId c (s.call c).1, id = s.nextId ∧ (s.call c).2.nextId = id + 1 := by
  cases c with
  | spawn =>
    obtain ⟨hne, hvalid, hnext, hid⟩ := spawn_spec h
    refine ⟨reply_ne hne, hvalid, hnext, fun id hmem => ?_⟩
    cases hresult : s.spawn.1 with
    | error => simp [call, Result.reply, newId, hresult, Except.map] at hmem
    | ok id' =>
      have heq : id = id' := by simpa [call, Result.reply, newId, hresult, Except.map] using hmem
      subst heq
      exact hid id hresult
  | join target =>
    obtain ⟨hne, hvalid, hnext, -, -⟩ := join_spec h target
    exact ⟨reply_ne hne, hvalid, hnext.ge, nofun⟩
  | suspendHost request =>
    obtain ⟨hne, hvalid⟩ := suspend_spec h (fun target => (nofun : TaskWait.host request ≠ .join target))
    exact ⟨reply_ne hne, hvalid, (nextId_suspend _).ge, nofun⟩
  | suspendChannel channel =>
    obtain ⟨hne, hvalid⟩ := suspend_spec h (fun target => (nofun : TaskWait.channel channel ≠ .join target))
    exact ⟨reply_ne hne, hvalid, (nextId_suspend _).ge, nofun⟩
  | completeHost task request =>
    obtain ⟨hne, hvalid⟩ := completeWait_spec h task (.host request)
    exact ⟨reply_ne hne, hvalid, (nextId_completeWait _ _).ge, nofun⟩
  | completeChannel task channel =>
    obtain ⟨hne, hvalid⟩ := completeWait_spec h task (.channel channel)
    exact ⟨reply_ne hne, hvalid, (nextId_completeWait _ _).ge, nofun⟩
  | completeCurrent =>
    obtain ⟨hne, hvalid, hnext⟩ := completeCurrent_spec h
    exact ⟨reply_ne hne, hvalid, hnext.ge, nofun⟩
  | activateNext =>
    obtain ⟨hne, hvalid⟩ := activateNext_spec h
    exact ⟨reply_ne hne, hvalid, nextId_activateNext.ge, nofun⟩

theorem Valid.run (h : Valid s) (calls : List Call) : Valid (s.run calls) := by
  induction calls generalizing s with
  | nil => exact h
  | cons c _ ih => exact ih (call_spec h c).2.1

/-- The ids of a run are new and pairwise different. -/
theorem Valid.issued (h : Valid s) (calls : List Call) :
    (s.issued calls).Nodup ∧ ∀ id ∈ s.issued calls, s.nextId ≤ id := by
  induction calls generalizing s with
  | nil => exact ⟨nodup_nil, nofun⟩
  | cons c _ ih =>
    obtain ⟨-, hvalid, hnext, hnew⟩ := call_spec h c
    obtain ⟨hnodup, hlater⟩ := ih hvalid
    have hsmall : (newId c (s.call c).1).Nodup := by
      unfold newId
      split <;> simp
    refine ⟨List.Nodup.append hsmall hnodup fun id hid hagain => ?_, fun id hmem => ?_⟩
    · have := hlater id hagain
      have := hnew id hid
      omega
    · rcases mem_append.mp hmem with hid | hid
      · exact (hnew id hid).1.ge
      · exact hnext.trans (hlater id hid)

/-! ## The start -/

variable {capacity : Nat}

section

variable (hcapacity : 0 < capacity)
include hcapacity

theorem started_eq : started capacity =
      ⟨(replicate capacity .empty).set 0 ⟨some rootTask, .running⟩, replicate capacity noSlot, 0, 0,
        some 0, rootTask + 1⟩ := by
  obtain ⟨n, rfl⟩ := Nat.exists_eq_succ_of_ne_zero hcapacity.ne'
  rfl

variable {slot : Nat}

/-- Only the first slot is used, by the root task. -/
theorem started_record {record : TaskRecord} (h : (started capacity).tasks[slot]? = some record) :
    (slot = 0 ∧ record = ⟨some rootTask, .running⟩) ∨ (slot ≠ 0 ∧ record = .empty) := by
  rw [started_eq hcapacity] at h
  rw [getElem?_set] at h
  split at h
  case isTrue hzero =>
    split at h
    · cases h
      exact .inl ⟨hzero.symm, rfl⟩
    · cases h
  case isFalse hne =>
    exact .inr ⟨Ne.symm hne, eq_of_mem_replicate (mem_of_getElem? h)⟩

theorem started_state {state : TaskState} (h : (started capacity).stateAt slot = some state) :
    (slot = 0 ∧ state = .running) ∨ (slot ≠ 0 ∧ state = .vacant) := by
  obtain ⟨id, hrecord⟩ := stateAt_eq_some.mp h
  rcases started_record hcapacity hrecord with ⟨hzero, heq⟩ | ⟨hne, heq⟩ <;> cases heq
  · exact .inl ⟨hzero, rfl⟩
  · exact .inr ⟨hne, rfl⟩

theorem started_id {id : TaskId} (h : (started capacity).idAt slot = some id) : slot = 0 ∧ id = rootTask := by
  obtain ⟨_, hrecord⟩ := idAt_eq_some.mp h
  rcases started_record hcapacity hrecord with ⟨hzero, heq⟩ | ⟨-, heq⟩ <;> cases heq
  exact ⟨hzero, rfl⟩

theorem started_root : (started capacity).tasks[0]? = some ⟨some rootTask, .running⟩ := by
  rw [started_eq hcapacity]
  exact getElem?_set_self (by simpa using hcapacity)

theorem identified_started : Identified (started capacity) := by
  refine ⟨fun slot state hstate => ?_, fun i j id hi hj => ?_, fun slot id hid => ?_⟩
  · rcases started_state hcapacity hstate with ⟨rfl, rfl⟩ | ⟨hne, rfl⟩
    · rw [idAt_eq_some.mpr ⟨_, started_root hcapacity⟩]
      exact ⟨nofun, nofun⟩
    · refine ⟨fun _ => ?_, fun _ => rfl⟩
      by_contra hsome
      obtain ⟨id, hid⟩ := ne_none_iff_exists'.mp hsome
      exact hne (started_id hcapacity hid).1
  · rw [(started_id hcapacity hi).1, (started_id hcapacity hj).1]
  · rw [(started_id hcapacity hid).2, started_eq hcapacity]
    exact Nat.lt_succ_self rootTask

theorem valid_started : Valid (started capacity) := by
  have hids := identified_started hcapacity
  have hnojoin : ∀ slot target, ¬ JoinsAt (started capacity) slot target := by
    intro slot target hat
    rcases started_state hcapacity hat with ⟨-, heq⟩ | ⟨-, heq⟩ <;> cases heq
  refine ⟨[], ?_, hids, nodup_nil, fun slot => ?_, fun slot => ?_,
    fun slot target hat => absurd hat (hnojoin slot target), fun id hend => ?_⟩
  · rw [started_eq hcapacity]
    exact ⟨by simp, rfl, Ring.holds_nil (by simp) (by simpa using hcapacity)⟩
  · refine ⟨nofun, fun hready => ?_⟩
    rcases started_state hcapacity hready with ⟨-, heq⟩ | ⟨-, heq⟩ <;> cases heq
  · have hactive : (started capacity).active = some 0 := by rw [started_eq hcapacity]
    rw [hactive]
    constructor
    · intro hrunning
      rcases started_state hcapacity hrunning with ⟨rfl, -⟩ | ⟨-, heq⟩
      · rfl
      · cases heq
    · intro heq
      cases heq
      exact stateAt_eq_some.mpr ⟨_, started_root hcapacity⟩
  · obtain ⟨_, hnext⟩ := isSome_iff_exists.mp (hend 1)
    obtain ⟨target, hjoined, -⟩ := bind_eq_some_iff.mp hnext
    obtain ⟨slot, -, hat⟩ := (joined_eq_some hids).mp hjoined
    exact hnojoin slot target hat

end

/-! ## The scheduler's guarantee -/

/-- **Every run of calls leaves the scheduler in order.**  In the state that a run reaches:

- the running tasks are the active one;
- the ready ring holds each ready task once and nothing else;
- ids are unique, and the run gave each id to one task only;
- the graph of the joins has no cycle, and `join` reports a cycle exactly if its edge closes one;
- a completion makes the joiners of the completed task ready, and leaves all others;
- no next call finds the queue corrupt. -/
theorem scheduler_runs_stay_in_order (capacity : Nat) (hcapacity : 0 < capacity) (calls : List Call)
    (s : TaskScheduler) (hs : s = (started capacity).run calls) :
    (∀ slot, s.stateAt slot = some .running ↔ s.active = some slot) ∧
    (s.readyQueue.Nodup ∧ ∀ slot, slot ∈ s.readyQueue ↔ s.stateAt slot = some .ready) ∧
    (∀ i j id, s.idAt i = some id → s.idAt j = some id → i = j) ∧
    (rootTask :: (started capacity).issued calls).Nodup ∧
    (∀ id, ¬ Relation.TransGen (WaitsFor s) id id) ∧
    (∀ id target, s.current = .ok id →
      (((s.join target).1 = .error .selfJoin ∨ (s.join target).1 = .error .joinCycle) ↔
        ∃ x, Relation.TransGen (fun a b => WaitsFor s a b ∨ (a = id ∧ b = target)) x x)) ∧
    (∀ completed after, s.completeCurrent = (.ok completed, after) → ∀ slot, after.stateAt slot =
      if s.active = some slot then some .completed
      else if s.stateAt slot = some (.waiting (.join completed)) then some .ready
      else s.stateAt slot) ∧
    ∀ c, (s.call c).1 ≠ .error .corruptQueue := by
  have hstart := valid_started hcapacity
  have hvalid : Valid s := hs ▸ hstart.run calls
  obtain ⟨q, hring, hconsistent⟩ := hvalid
  have hids : (rootTask :: (started capacity).issued calls).Nodup := by
    obtain ⟨hnodup, hlater⟩ := hstart.issued calls
    refine List.nodup_cons.mpr ⟨fun hroot => ?_, hnodup⟩
    have hnext := hlater rootTask hroot
    rw [started_eq hcapacity] at hnext
    exact absurd hnext (Nat.not_succ_le_self rootTask)
  have hvalid : Valid s := ⟨q, hring, hconsistent⟩
  refine ⟨hconsistent.running, ?_, hconsistent.ids.unique, hids, hvalid.acyclic,
    fun id target hcurrent => hvalid.join_cycle_iff hcurrent target,
    fun completed after heq => hvalid.completeCurrent_states heq, fun c => (call_spec hvalid c).1⟩
  rw [hring.readyQueue_eq]
  exact ⟨hconsistent.nodup, hconsistent.queued⟩

/-- A run in which the root joins its child, the child completes and the root runs again. -/
theorem scheduler_runs_stay_in_order_join :
    let s := (started 2).run [.spawn, .join 2, .activateNext, .completeCurrent]
    s.readyQueue = [0] ∧ s.readyQueue.Nodup ∧ ∀ id, ¬ Relation.TransGen (WaitsFor s) id id := by
  obtain ⟨-, ⟨hnodup, -⟩, -, -, hacyclic, -⟩ :=
    scheduler_runs_stay_in_order 2 (by decide) [.spawn, .join 2, .activateNext, .completeCurrent] _ rfl
  exact ⟨by decide, hnodup, hacyclic⟩

end TaskScheduler

end Compukter
