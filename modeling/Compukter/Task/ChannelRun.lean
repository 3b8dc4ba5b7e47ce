/-
Runs of tasks that use channels.

`Agrees s boxes` ties the scheduler to the mailboxes: a task waits for a channel exactly if its slot is in
a queue of that channel, under its own id.  The running task waits for nothing, so its waiter is free when
it sends or receives, and a waiter that is taken from a queue belongs to a task that can be made ready.

`Told log boxes` is the history: on each channel the values sent are those delivered followed by those
pending, and the tasks that came to wait are those woken followed by those that wait.
-/
import Compukter.Task.SchedulerRun
import Compukter.Task.ChannelRefinement

open Function List

namespace Compukter

open ChannelArena

/-! ## Calls that are not about channels -/

namespace TaskScheduler

variable {s s' : TaskScheduler} {q : List Nat}

/-- The same tasks wait for channels, and tasks keep their ids. -/
structure Keeps (s s' : TaskScheduler) : Prop where
  size : s'.tasks.length = s.tasks.length
  ids : ∀ slot id, s.idAt slot = some id → s'.idAt slot = some id
  waits : ∀ slot c, s'.stateAt slot = some (.waiting (.channel c)) ↔ s.stateAt slot = some (.waiting (.channel c))

theorem Keeps.of_tasks (h : s'.tasks = s.tasks) : Keeps s s' :=
  ⟨congrArg length h, fun slot id hid => by rw [idAt_congr h]; exact hid, fun slot c => by rw [stateAt_congr h]⟩

theorem length_setState (slot : Nat) (state : TaskState) :
    (s.setState slot state).tasks.length = s.tasks.length := length_modify ..

/-- One slot changes its state, from and to something else than waiting for a channel. -/
theorem Keeps.of_move {i : Nat} {old new : TaskState} (htasks : s'.tasks = (s.setState i new).tasks)
    (hold : s.stateAt i = some old) (hfrom : ∀ c, old ≠ .waiting (.channel c))
    (hto : ∀ c, new ≠ .waiting (.channel c)) : Keeps s s' := by
  refine ⟨by rw [htasks, length_setState], fun slot id hid => ?_, fun slot c => ?_⟩
  · rw [idAt_of_move htasks]
    exact hid
  · rw [stateAt_of_move htasks hold]
    split
    case isTrue heq =>
      subst heq
      rw [hold]
      exact ⟨fun h => absurd (Option.some.inj h) (hto c), fun h => absurd (Option.some.inj h) (hfrom c)⟩
    case isFalse => exact Iff.rfl

theorem tasks_enqueue (slot : Nat) : (s.enqueue slot).2.tasks = s.tasks := by
  unfold enqueue
  split <;> rfl

theorem keeps_activateNext : Keeps s s.activateNext.2 := by
  unfold activateNext
  split
  · exact .of_tasks rfl
  split
  · exact .of_tasks rfl
  split
  · exact .of_tasks rfl
  split
  case isTrue hready => exact .of_move rfl hready nofun nofun
  case isFalse => exact .of_tasks rfl

theorem keeps_suspend (h : Valid s) {wait : TaskWait} (hwait : ∀ c, wait ≠ .channel c) :
    Keeps s (s.suspend wait).2 := by
  obtain ⟨q, -, hconsistent⟩ := h
  cases hactive : s.active with
  | none =>
    unfold suspend
    rw [hactive]
    exact .of_tasks rfl
  | some =>
    obtain ⟨id, heq⟩ := suspend_eq hconsistent hactive wait
    rw [heq]
    refine .of_move rfl (hconsistent.running_of_active hactive) nofun fun c hc => ?_
    cases hc
    exact hwait c rfl

theorem keeps_joinFrom (h : Valid s) (current target : TaskId) (fuel : Nat) (cursor : TaskId) :
    Keeps s (s.joinFrom current target fuel cursor).2 := by
  induction fuel generalizing cursor with
  | zero => exact .of_tasks rfl
  | succ fuel ih =>
    unfold joinFrom
    split
    · exact .of_tasks rfl
    split
    · have hkeeps := keeps_suspend h fun c (hc : TaskWait.join target = .channel c) => by cases hc
      split
      case h_1 heq => rwa [heq] at hkeeps
      case h_2 heq => rwa [heq] at hkeeps
    split
    · exact .of_tasks rfl
    · exact ih _

theorem keeps_join (h : Valid s) (target : TaskId) : Keeps s (s.join target).2 := by
  unfold join
  split
  · exact .of_tasks rfl
  split
  · exact .of_tasks rfl
  split
  · exact .of_tasks rfl
  split
  · exact .of_tasks rfl
  · exact keeps_joinFrom h _ _ _ _

theorem keeps_completeHost (task : TaskId) (request : Nat) : Keeps s (s.completeHost task request).2 := by
  unfold completeHost completeWait
  split
  · exact .of_tasks rfl
  split
  · exact .of_tasks rfl
  case isFalse hwait => exact .of_move (tasks_enqueue _) (not_not.mp hwait) nofun nofun

theorem isSome_stateAt (slot : Nat) : (s.stateAt slot).isSome ↔ slot < s.tasks.length := by
  rw [stateAt, Option.isSome_map, isSome_getElem?]

/-- The slots that have a state say how long the table is. -/
theorem size_eq_of_stateAt (h : ∀ slot, (s'.stateAt slot).isSome = (s.stateAt slot).isSome) :
    s'.tasks.length = s.tasks.length := by
  have hiff (slot : Nat) : slot < s'.tasks.length ↔ slot < s.tasks.length := by
    rw [← isSome_stateAt, h, isSome_stateAt]
  have hless := hiff s.tasks.length
  have hmore := hiff s'.tasks.length
  omega

variable (h : Valid s)
include h

theorem keeps_spawn : Keeps s s.spawn.2 := by
  obtain ⟨q, hring, hconsistent⟩ := h
  rcases spawn_cases hring hconsistent with ⟨e, -, heq⟩ | ⟨slot, after, heq, hq, hf⟩ <;> rw [heq]
  · exact .of_tasks rfl
  · have hunnamed : s.idAt slot = none := (hconsistent.ids.occupied slot .vacant hf.vacant).mp rfl
    refine ⟨size_eq_of_stateAt fun i => ?_, fun i id hid => ?_, fun i c => ?_⟩
    · rw [hf.states]
      split
      case isTrue heq => rw [← heq, hf.vacant]; rfl
      case isFalse => rfl
    · rw [hf.ids, if_neg]
      · exact hid
      · rintro rfl
        rw [hunnamed] at hid
        cases hid
    · rw [hf.states]
      split
      case isTrue heq =>
        rw [← heq, hf.vacant]
        exact ⟨nofun, nofun⟩
      case isFalse => exact Iff.rfl

theorem keeps_completeCurrent : Keeps s s.completeCurrent.2 := by
  obtain ⟨q, hring, hconsistent⟩ := h
  cases hactive : s.active with
  | none =>
    unfold completeCurrent
    rw [hactive]
    exact .of_tasks rfl
  | some =>
    obtain ⟨_, _, q', hid, heq, hq, hc⟩ := completeCurrent_eq hring hconsistent hactive
    rw [heq]
    have hrunning := hconsistent.running_of_active hactive
    refine ⟨size_eq_of_stateAt fun i => ?_, fun i id hid => by rw [hc.ids]; exact hid, fun i c => ?_⟩
    · rw [hc.states]
      split
      case isTrue heq => rw [heq, hrunning]; rfl
      case isFalse =>
        split
        case isTrue hjoins => rw [show s.stateAt i = _ from hjoins]; rfl
        case isFalse => rfl
    · rw [hc.states]
      split
      case isTrue heq =>
        rw [heq, hrunning]
        exact ⟨nofun, nofun⟩
      case isFalse =>
        split
        case isTrue hjoins =>
          rw [show s.stateAt i = _ from hjoins]
          exact ⟨nofun, nofun⟩
        case isFalse => exact Iff.rfl

/-! ## Waiting for a channel -/

/-- The running task waits for a channel; the next task is activated. -/
theorem suspendChannel_spec {slot : Nat} (hactive : s.active = some slot) (c : Nat) :
    ∃ id after, s.suspendChannel c = (.ok id, after) ∧ Valid after ∧ after.active = none ∧
      after.tasks = (s.setState slot (.waiting (.channel c))).tasks := by
  have hspec := suspend_spec h (fun target => (nofun : TaskWait.channel c ≠ .join target))
  obtain ⟨q, -, hconsistent⟩ := h
  obtain ⟨id, heq⟩ := suspend_eq hconsistent hactive (.channel c)
  rw [heq] at hspec
  exact ⟨id, _, heq, hspec.2, rfl, rfl⟩

theorem activateNext_ok (hidle : s.active = none) : ∃ id, (s.activateNext).1 = .ok id := by
  have hspec := (activateNext_spec h).1
  unfold activateNext at hspec ⊢
  rw [hidle] at hspec ⊢
  simp only [Option.isSome_none, Bool.false_eq_true, if_false] at hspec ⊢
  split at hspec
  case isTrue hempty => exact ⟨none, by rw [if_pos hempty]⟩
  case isFalse hempty =>
    rw [if_neg hempty]
    split at hspec
    case h_1 => exact absurd rfl hspec
    case h_2 =>
      split at hspec
      case isTrue hready => exact ⟨_, by rw [if_pos hready]⟩
      case isFalse => exact absurd rfl hspec

/-- A task that waits for the channel becomes ready. -/
theorem completeChannel_spec {slot c : Nat} {task : TaskId} (hid : s.idAt slot = some task)
    (hwaits : s.stateAt slot = some (.waiting (.channel c))) :
    ∃ after, s.completeChannel task c = (.ok (), after) ∧ Valid after ∧
      after.tasks = (s.setState slot .ready).tasks := by
  obtain ⟨q, hring, hconsistent⟩ := h
  obtain ⟨hok, hvalid⟩ := ready_spec hring hconsistent hwaits
  refine ⟨((s.setState slot .ready).enqueue slot).2, ?_, hvalid, tasks_enqueue slot⟩
  unfold completeChannel completeWait
  rw [(slot_eq_some hconsistent.ids).mpr hid]
  dsimp only
  rw [if_neg (not_not.mpr hwaits)]
  exact Prod.ext hok rfl

end TaskScheduler

/-! ## Scheduler and arena -/

namespace TaskChannels

open TaskScheduler
  (Valid Keeps slot_eq_some idAt_of_move stateAt_of_move call Result Call call_spec current_eq started_eq)

variable {s s' : TaskChannels} {boxes boxes' : List Box}

structure Agrees (s : TaskChannels) (boxes : List Box) : Prop where
  valid : Valid s.tasks
  represents : s.channels.Represents boxes
  size : s.channels.channels = [] ∨ s.channels.waiters.length = s.tasks.tasks.length
  waiting : ∀ slot c, s.tasks.stateAt slot = some (.waiting (.channel c)) ↔
    ∃ (i : Nat) (box : Box), boxes[i]? = some box ∧ slot ∈ slotsOf box.entries ∧ c = i + 1
  task : ∀ (i : Nat) (box : Box) send, boxes[i]? = some box → ∀ e ∈ box.entries send,
    s.tasks.idAt e.slot = some e.task

/-- Calls of the scheduler that are not about channels. -/
theorem Agrees.schedule (h : Agrees s boxes) {tasks : TaskScheduler} (hvalid : Valid tasks)
    (hkeeps : Keeps s.tasks tasks) : Agrees { s with tasks := tasks } boxes :=
  ⟨hvalid, h.represents, h.size.imp id fun heq => heq.trans hkeeps.size.symm,
    fun slot c => (hkeeps.waits slot c).trans (h.waiting slot c),
    fun i box send hbox e he => hkeeps.ids _ _ (h.task i box send hbox e he)⟩

variable {index : Nat} {box : Box}

theorem Agrees.sized (h : Agrees s boxes) (hbox : boxes[index]? = some box) :
    s.channels.waiters.length = s.tasks.tasks.length := by
  refine h.size.resolve_left fun hnil => ?_
  have hroom := h.represents.room
  have hlt := (List.getElem?_eq_some_iff.mp hbox).1
  rw [hnil, ← h.represents.count, length_nil] at hroom
  omega

open TaskScheduler

/-- The running task is in no queue, so its waiter is free. -/
theorem Agrees.free (h : Agrees s boxes) {slot : Nat} (hactive : s.tasks.active = some slot)
    (hbox : boxes[index]? = some box) : ∃ waiter, s.channels.waiters[slot]? = some waiter ∧ waiter.task = none := by
  obtain ⟨q, -, hconsistent⟩ := h.valid
  have hrunning := hconsistent.running_of_active hactive
  have hlt : slot < s.channels.waiters.length := h.sized hbox ▸ lt_of_stateAt hrunning
  refine ⟨_, getElem?_eq_getElem hlt, ?_⟩
  by_contra hsome
  obtain ⟨i, b, hb, hslot⟩ :=
    (h.represents.occupied slot _ (getElem?_eq_getElem hlt)).mp hsome
  have hwaits := (h.waiting slot (i + 1)).mpr ⟨i, b, hb, hslot, rfl⟩
  rw [hrunning] at hwaits
  cases hwaits

/-! ## Histories -/

def sentOn (index : Nat) (log : List Event) : List Int :=
  log.filterMap fun
    | .sent i value => if i = index then some value else none
    | _ => none

def deliveredOn (index : Nat) (log : List Event) : List Int :=
  log.filterMap fun
    | .delivered i value => if i = index then some value else none
    | _ => none

def waitsOn (index : Nat) (send : Bool) (log : List Event) : List TaskId :=
  log.filterMap fun
    | .waits i direction task => if i = index ∧ direction = send then some task else none
    | _ => none

def wokenOn (index : Nat) (send : Bool) (log : List Event) : List TaskId :=
  log.filterMap fun
    | .woken i direction task => if i = index ∧ direction = send then some task else none
    | _ => none

def pendingAt (boxes : List Box) (index : Nat) : List Int := (boxes[index]?).elim [] Mailbox.pending

def waitingAt (boxes : List Box) (index : Nat) (send : Bool) : List TaskId :=
  (boxes[index]?).elim [] fun box => (box.entries send).map Entry.task

structure Told (log : List Event) (boxes : List Box) : Prop where
  values : ∀ i, sentOn i log = deliveredOn i log ++ pendingAt boxes i
  tasks : ∀ i send, waitsOn i send log = wokenOn i send log ++ waitingAt boxes i send

/-- One channel's part of a history: what the events add to it. -/
structure Tells (events : List Event) (index : Nat) (box box' : Box) : Prop where
  values : box.pending ++ sentOn index events = deliveredOn index events ++ box'.pending
  tasks : ∀ send, (box.entries send).map Entry.task ++ waitsOn index send events =
    wokenOn index send events ++ (box'.entries send).map Entry.task
  foreign : ∀ i, i ≠ index → sentOn i events = [] ∧ deliveredOn i events = [] ∧
    ∀ send, waitsOn i send events = [] ∧ wokenOn i send events = []

theorem pendingAt_eq (hbox : boxes[index]? = some box) : pendingAt boxes index = box.pending := by
  unfold pendingAt
  rw [hbox]
  rfl

open Box Tiling

theorem waitingAt_eq (hbox : boxes[index]? = some box) (send : Bool) :
    waitingAt boxes index send = (entries box send).map Entry.task := by
  unfold waitingAt
  rw [hbox]
  rfl

variable {events : List Event}

/-- What was put in and what came out of a channel, when its mailbox changes. -/
theorem history_set {α : Type} (put out : Nat → List Event → List α) {held : Box → List α} {log : List Event}
    {box' : Box} {i : Nat} (hput : ∀ i l l', put i (l ++ l') = put i l ++ put i l')
    (hout : ∀ i l l', out i (l ++ l') = out i l ++ out i l') (hbox : boxes[index]? = some box)
    (h : put i log = out i log ++ (boxes[i]?).elim [] held)
    (hself : held box ++ put index events = out index events ++ held box')
    (hforeign : i ≠ index → put i events = [] ∧ out i events = []) :
    put i (log ++ events) = out i (log ++ events) ++ ((boxes.set index box')[i]?).elim [] held := by
  rw [hput, hout, h]
  by_cases hi : i = index
  · subst hi
    rw [(getElem?_set_eq_some hbox).mpr (.inl ⟨rfl, rfl⟩), hbox, append_assoc, append_assoc]
    exact congrArg _ hself
  · rw [(hforeign hi).1, (hforeign hi).2, getElem?_set_ne (Ne.symm hi), append_nil, append_nil]

variable {log : List Event}

theorem Told.set (h : Told log boxes) {box' : Box} (hbox : boxes[index]? = some box)
    (ht : Tells events index box box') : Told (log ++ events) (boxes.set index box') where
  values i := history_set sentOn deliveredOn (fun _ _ _ => filterMap_append) (fun _ _ _ => filterMap_append)
    hbox (h.values i) ht.values fun hi => ⟨(ht.foreign i hi).1, (ht.foreign i hi).2.1⟩
  tasks i send := history_set (waitsOn · send) (wokenOn · send) (fun _ _ _ => filterMap_append)
    (fun _ _ _ => filterMap_append) hbox (h.tasks i send) (ht.tasks send) fun hi => (ht.foreign i hi).2.2 send

/-- A new channel has no history. -/
theorem Told.append (h : Told log boxes) {n : Nat} (hn : 0 < n) : Told log (boxes ++ [Mailbox.create hn]) := by
  have hsame {α : Type} {held : Box → List α} (hnone : held (Mailbox.create hn) = []) (i : Nat) :
      ((boxes ++ [Mailbox.create hn])[i]?).elim [] held = (boxes[i]?).elim [] held := by
    rw [getElem?_append]
    split
    · rfl
    · rw [getElem?_eq_none (l := boxes) (by omega)]
      cases i - boxes.length
      · exact hnone
      · rfl
  refine ⟨fun i => (h.values i).trans (congrArg _ (hsame rfl i).symm), fun i send => (h.tasks i send).trans ?_⟩
  exact congrArg _ (hsame (by cases send <;> rfl) i).symm

/-! ## Exchanging a mailbox -/

theorem mem_set {box' : Box} (hbox : boxes[index]? = some box) {slot c : Nat} :
    (∃ (i : Nat) (b : Box), (boxes.set index box')[i]? = some b ∧ slot ∈ slotsOf (entries b) ∧ c = i + 1) ↔
      (slot ∈ slotsOf (entries box') ∧ c = index + 1) ∨
        ∃ (i : Nat) (b : Box), i ≠ index ∧ boxes[i]? = some b ∧ slot ∈ slotsOf (entries b) ∧ c = i + 1 := by
  constructor
  · rintro ⟨i, b, hb, hslot, hc⟩
    rcases (getElem?_set_eq_some hbox).mp hb with ⟨rfl, rfl⟩ | ⟨hi, hb⟩
    · exact .inl ⟨hslot, hc⟩
    · exact .inr ⟨i, b, hi, hb, hslot, hc⟩
  · rintro (⟨hslot, hc⟩ | ⟨i, b, hi, hb, hslot, hc⟩)
    · exact ⟨index, box', (getElem?_set_eq_some hbox).mpr (.inl ⟨rfl, rfl⟩), hslot, hc⟩
    · exact ⟨i, b, (getElem?_set_eq_some hbox).mpr (.inr ⟨hi, hb⟩), hslot, hc⟩

section Exchange

variable {index : Nat} {box box' : Box} {channels : ChannelArena} {tasks : TaskScheduler}
variable (h : Agrees s boxes) (hbox : boxes[index]? = some box)
include h hbox

/-- A waiting slot is one of this channel's or one of another's. -/
theorem Agrees.waiting_cases (slot c : Nat) :
    s.tasks.stateAt slot = some (.waiting (.channel c)) ↔ (slot ∈ slotsOf (entries box) ∧ c = index + 1) ∨
        ∃ (i : Nat) (b : Box), i ≠ index ∧ boxes[i]? = some b ∧ slot ∈ slotsOf (entries b) ∧ c = i + 1 := by
  have hself : boxes.set index box = boxes := by
    obtain ⟨hlt, rfl⟩ := List.getElem?_eq_some_iff.mp hbox
    exact set_getElem_self hlt
  rw [h.waiting slot c, ← @mem_set boxes index box box hbox slot c, hself]

variable (hrep : channels.Represents (boxes.set index box'))
  (hlength : channels.waiters.length = s.channels.waiters.length ∧ channels.values.length = s.channels.values.length)
include hrep hlength

/-- The mailbox changes, and with it the waiting tasks. -/
theorem Agrees.exchange (hvalid : Valid tasks) (hsize : tasks.tasks.length = s.tasks.tasks.length)
    (hids : ∀ slot, tasks.idAt slot = s.tasks.idAt slot)
    (hwaits : ∀ slot c, tasks.stateAt slot = some (.waiting (.channel c)) ↔
      (slot ∈ slotsOf (entries box') ∧ c = index + 1) ∨
        ∃ (i : Nat) (b : Box), i ≠ index ∧ boxes[i]? = some b ∧ slot ∈ slotsOf (entries b) ∧ c = i + 1)
    (htask : ∀ send, ∀ e ∈ entries box' send, s.tasks.idAt e.slot = some e.task) :
    Agrees ⟨tasks, channels⟩ (boxes.set index box') := by
  refine ⟨hvalid, hrep, .inr ?_, fun slot c => (hwaits slot c).trans (mem_set hbox).symm, fun i b send hb e he => ?_⟩
  · rw [hlength.1, hsize]
    exact h.sized hbox
  · rw [hids]
    rcases (getElem?_set_eq_some hbox).mp hb with ⟨rfl, rfl⟩ | ⟨-, hb⟩
    · exact htask send e he
    · exact h.task i b send hb e he

theorem Agrees.keep (hentries : entries box' = entries box) : Agrees ⟨s.tasks, channels⟩ (boxes.set index box') := by
  refine h.exchange hbox hrep hlength h.valid rfl (fun _ => rfl) (fun slot c => ?_) fun send e he => ?_
  · rw [hentries]
    exact h.waiting_cases hbox slot c
  · rw [hentries] at he
    exact h.task index box send hbox e he

/-- The first task of a queue becomes ready. -/
theorem Agrees.wake (send : Bool) {e : Entry} {l : List Entry} (hentries : entries box send = e :: l)
    (hentries' : entries box' = update (entries box) send l) :
    ∃ tasks, s.tasks.completeChannel e.task (index + 1) = (.ok (), tasks) ∧
      s.tasks.slot e.task = some e.slot ∧ Agrees ⟨tasks, channels⟩ (boxes.set index box') := by
  have hmem : e ∈ entries box send := by rw [hentries]; exact mem_cons_self
  have hslot : e.slot ∈ slotsOf (entries box) := mem_slotsOf.mpr ⟨send, e, hmem, rfl⟩
  have hid := h.task index box send hbox e hmem
  have hold := (h.waiting e.slot (index + 1)).mpr ⟨index, box, hbox, hslot, rfl⟩
  obtain ⟨tasks, heq, hvalid, htasks⟩ := completeChannel_spec h.valid hid hold
  obtain ⟨_, -, hreads, -⟩ := h.represents.channel index box hbox
  obtain ⟨-, hslots⟩ := slotsOf_pop send hentries hreads.waits.nodup
  rw [← hentries'] at hslots
  obtain ⟨q, -, hconsistent⟩ := h.valid
  refine ⟨tasks, heq, (slot_eq_some hconsistent.ids).mpr hid,
    h.exchange hbox hrep hlength hvalid ?_ (idAt_of_move htasks) (fun slot c => ?_)
      fun direction e' he' => ?_⟩
  · rw [htasks, length_setState]
  · rw [stateAt_of_move htasks hold, hslots]
    split
    case isTrue heq' =>
      subst heq'
      refine ⟨nofun, ?_⟩
      rintro (⟨⟨-, hne⟩, -⟩ | ⟨i, b, hi, hb, hb', -⟩)
      · exact absurd rfl hne
      · exact absurd (h.represents.apart i index b box e.slot hb hbox hb' hslot) hi
    case isFalse hne =>
      rw [h.waiting_cases hbox slot c, and_iff_left (Ne.symm hne)]
  · refine h.task index box direction hbox e' ?_
    rw [hentries'] at he'
    by_cases hd : direction = send
    · subst hd
      rw [update_self] at he'
      rw [hentries]
      exact mem_cons_of_mem e he'
    · rwa [update_of_ne hd] at he'

/-- The running task goes to the end of a queue. -/
theorem Agrees.wait (send : Bool) {e : Entry} (hactive : s.tasks.active = some e.slot)
    (hid : s.tasks.idAt e.slot = some e.task)
    (hentries' : entries box' = update (entries box) send (entries box send ++ [e])) :
    ∃ id tasks, s.tasks.suspendChannel (index + 1) = (.ok id, tasks) ∧ tasks.active = none ∧
      Agrees ⟨tasks, channels⟩ (boxes.set index box') := by
  obtain ⟨id, tasks, heq, hvalid, hidle, htasks⟩ :=
    suspendChannel_spec h.valid hactive (index + 1)
  obtain ⟨q, -, hconsistent⟩ := h.valid
  have hold := hconsistent.running_of_active hactive
  have hnowhere : ∀ c, s.tasks.stateAt e.slot ≠ some (.waiting (.channel c)) := by
    intro c
    rw [hold]
    exact nofun
  obtain ⟨_, -, hreads, -⟩ := h.represents.channel index box hbox
  have hfresh : e.slot ∉ slotsOf (entries box) :=
    fun hmem => hnowhere _ ((h.waiting e.slot (index + 1)).mpr ⟨index, box, hbox, hmem, rfl⟩)
  obtain ⟨-, hslots⟩ := slotsOf_push send hreads.waits.nodup hfresh
  rw [← hentries'] at hslots
  refine ⟨id, tasks, heq, hidle, h.exchange hbox hrep hlength hvalid ?_
    (idAt_of_move htasks) (fun slot c => ?_) fun direction e' he' => ?_⟩
  · rw [htasks, length_setState]
  · rw [stateAt_of_move htasks hold, hslots]
    split
    case isTrue heq' =>
      subst heq'
      constructor
      · intro hc
        cases hc
        exact .inl ⟨.inr rfl, rfl⟩
      · rintro (⟨-, rfl⟩ | ⟨i, b, -, hb, hslot, -⟩)
        · rfl
        · exact absurd ((h.waiting e.slot (i + 1)).mpr ⟨i, b, hb, hslot, rfl⟩) (hnowhere _)
    case isFalse hne =>
      rw [h.waiting_cases hbox slot c, or_iff_left (Ne.symm hne)]
  · rw [hentries'] at he'
    by_cases hd : direction = send
    · subst hd
      rw [update_self] at he'
      rcases mem_append.mp he' with hmem | hmem
      · exact h.task index box direction hbox e' hmem
      · rw [mem_singleton.mp hmem]
        exact hid
    · rw [update_of_ne hd] at he'
      exact h.task index box direction hbox e' he'

end Exchange

/-! ## Steps -/

/-- A failure that the code does not blame on a broken queue or table. -/
def Sound (result : Except Failure (List Event)) : Prop :=
  result ≠ .error (.channel .corruptQueue) ∧ result ≠ .error (.task .corruptQueue) ∧
    result ≠ .error .corruptLifecycle

theorem sound_ok (events : List Event) : Sound (.ok events) := ⟨nofun, nofun, nofun⟩

/-- What a step does to the mailboxes and to the history. -/
def Steps (boxes : List Box) (result : Result) : Prop :=
  Sound result.1 ∧ ∃ boxes', Agrees result.2 boxes' ∧
    ∀ log, Told log boxes → Told (log ++ result.1.toOption.getD []) boxes'

/-- The table of values keeps its size, too. -/
def Advances (s : TaskChannels) (boxes : List Box) (result : Result) : Prop :=
  Steps boxes result ∧ result.2.channels.values.length = s.channels.values.length

/-- A step without events that keeps the mailboxes. -/
theorem Advances.same {result : Except Failure (List Event)} (h : Agrees s' boxes) (hsound : Sound result)
    (hevents : result.toOption.getD [] = []) (hvalues : s'.channels.values = s.channels.values) :
    Advances s boxes (result, s') := by
  refine ⟨⟨hsound, boxes, h, fun log hlog => ?_⟩, congrArg length hvalues⟩
  rw [hevents, append_nil]
  exact hlog

/-- A call of the scheduler that is not about channels. -/
theorem Agrees.schedule_steps (h : Agrees s boxes) (c : Call)
    (hkeeps : Keeps s.tasks (s.tasks.call c).2) : Advances s boxes (s.schedule c []) := by
  obtain ⟨hne, hvalid, -⟩ := call_spec h.valid c
  have hagrees := h.schedule hvalid hkeeps
  unfold TaskChannels.schedule
  rcases heq : s.tasks.call c with ⟨_ | _, _⟩ <;> rw [heq] at hne hagrees
  case error e =>
    exact .same hagrees ⟨nofun, fun hcorrupt => hne (by cases hcorrupt; rfl), nofun⟩ rfl rfl
  case ok => exact .same hagrees ⟨nofun, nofun, nofun⟩ rfl rfl

/-- The running task with its slot. -/
theorem Agrees.current_cases (h : Agrees s boxes) : s.current = .error (.task .noRunningTask) ∨
      ∃ slot id, s.tasks.active = some slot ∧ s.tasks.idAt slot = some id ∧ s.current = .ok (id, slot) := by
  obtain ⟨q, -, hconsistent⟩ := h.valid
  unfold current
  cases hactive : s.tasks.active with
  | none =>
    left
    unfold TaskScheduler.current
    rw [hactive]
    rfl
  | some slot =>
    obtain ⟨id, hid⟩ := hconsistent.exists_active_id hactive
    refine .inr ⟨slot, id, rfl, hid, ?_⟩
    rw [current_eq hactive hid]
    dsimp only
    rw [(slot_eq_some hconsistent.ids).mpr hid]

/-- A handle is refused, or names one of the mailboxes. -/
theorem Agrees.handle_cases (h : Agrees s boxes) (handle : Int) :
    s.channels.channelIndex handle = .error .invalidHandle ∨
      ∃ index box, s.channels.channelIndex handle = .ok index ∧ boxes[index]? = some box ∧
        handle.toNat = index + 1 := by
  unfold channelIndex
  by_cases hvalid : 1 ≤ handle ∧ handle.toNat - 1 < s.channels.channelCount
  · rw [if_pos hvalid]
    have hlt : handle.toNat - 1 < boxes.length := h.represents.count ▸ hvalid.2
    exact .inr ⟨_, _, rfl, getElem?_eq_getElem hlt, by omega⟩
  · rw [if_neg hvalid]
    exact .inl rfl

section Continue

variable {box' : Box} {channels : ChannelArena} {e : Entry} {l : List Entry} {handle : Int} (h : Agrees s boxes)
  (hbox : boxes[index]? = some box) (hrep : channels.Represents (boxes.set index box'))
  (hlength : channels.waiters.length = s.channels.waiters.length ∧ channels.values.length = s.channels.values.length)
  (hhandle : handle.toNat = index + 1) (ht : Tells events index box box') (send : Bool)
include h hbox hrep hlength hhandle ht

/-- After a suspension the next task is activated, which does not fail. -/
theorem Agrees.suspendOn_steps (hactive : s.tasks.active = some e.slot) (hid : s.tasks.idAt e.slot = some e.task)
    (hentries' : entries box' = update (entries box) send (entries box send ++ [e])) :
    Advances s boxes ({ s with channels := channels }.suspendOn handle events) := by
  obtain ⟨id, tasks, hsuspend, hidle, hagrees⟩ := h.wait hbox hrep hlength send hactive hid hentries'
  obtain ⟨next, hnext⟩ := activateNext_ok hagrees.valid hidle
  have hlast := hagrees.schedule (activateNext_spec hagrees.valid).2 keeps_activateNext
  have heq : { s with channels := channels }.suspendOn handle events =
      (.ok events, ⟨tasks.activateNext.2, channels⟩) := by
    simp only [suspendOn, TaskChannels.schedule, call, hhandle, hsuspend, Result.reply,
      Except.map, hnext]
  rw [heq]
  exact ⟨⟨sound_ok _, _, hlast, fun log hlog => hlog.set hbox ht⟩, hlength.2⟩

/-- A task that is taken from a queue becomes ready, which does not fail. -/
theorem Agrees.resume_steps (hentries : entries box send = e :: l)
    (hentries' : entries box' = update (entries box) send l) :
    Advances s boxes ({ s with channels := channels }.resumeSavedChannelTask e.task handle events) := by
  obtain ⟨tasks, hcomplete, hslot, hagrees⟩ := h.wake hbox hrep hlength send hentries hentries'
  have heq : { s with channels := channels }.resumeSavedChannelTask e.task handle events =
      (.ok events, ⟨tasks, channels⟩) := by
    simp only [resumeSavedChannelTask, TaskChannels.schedule, hslot, call, hhandle, hcomplete,
      Result.reply, Except.map]
  rw [heq]
  exact ⟨⟨sound_ok _, _, hagrees, fun log hlog => hlog.set hbox ht⟩, hlength.2⟩

end Continue

/-- Events of one channel say nothing about another. -/
theorem foreign_events (h : ∀ e ∈ events, ∃ value send task, e = .sent index value ∨ e = .delivered index value ∨
      e = .waits index send task ∨ e = .woken index send task) (i : Nat) (hi : i ≠ index) :
    sentOn i events = [] ∧ deliveredOn i events = [] ∧
      ∀ send, waitsOn i send events = [] ∧ wokenOn i send events = [] := by
  unfold sentOn deliveredOn waitsOn wokenOn
  simp only [filterMap_eq_nil_iff]
  refine ⟨fun e he => ?_, fun e he => ?_, fun send => ⟨fun e he => ?_, fun e he => ?_⟩⟩ <;>
    obtain ⟨value, _, task, rfl | rfl | rfl | rfl⟩ := h e he <;> simp [Ne.symm hi]

open Mailbox SendEntry

section

variable (h : Agrees s boxes)
include h

theorem Agrees.send_steps (handle value : Int) (resumeBlock : Nat) :
    Advances s boxes (s.send handle value resumeBlock) := by
  unfold TaskChannels.send
  rcases h.current_cases with hcurrent | ⟨slot, id, hactive, hid, hcurrent⟩ <;> rw [hcurrent] <;> dsimp only
  · exact .same h ⟨nofun, nofun, nofun⟩ rfl rfl
  rcases h.handle_cases handle with hinvalid | ⟨index, box, hindex, hbox, hhandle⟩
  · have heq : s.channels.send handle slot id value resumeBlock = (.error .invalidHandle, s.channels) := by
      unfold ChannelArena.send
      rw [hinvalid]
    rw [heq]
    exact .same h ⟨nofun, nofun, nofun⟩ rfl rfl
  obtain ⟨_, hfree, hnone⟩ := h.free hactive hbox
  obtain ⟨after, heq, hrep, hlength⟩ := send_refines h.represents hindex hbox
    ⟨slot, id, resumeBlock⟩ hfree hnone value
  have hsub : handle.toNat - 1 = index := by omega
  rw [heq, hsub]
  cases hreceivers : box.receivers with
  | cons =>
    rw [send_wakes hreceivers] at hrep ⊢
    have hentries := entries_receivers hreceivers
    refine h.resume_steps hbox hrep hlength hhandle ⟨?_, fun send => ?_, foreign_events ?_⟩ false hentries
      (entries_serveReceiver box hreceivers)
    · obtain ⟨hpending, hpending'⟩ := pending_serveReceiver hreceivers
      rw [hpending, hpending']
      simp [sentOn, deliveredOn]
    · rw [entries_serveReceiver]
      cases send
      · rw [hentries]
        simp [waitsOn, wokenOn, ReceiveEntry.entry]
      · simp [waitsOn, wokenOn, update]
    · simp
  | nil =>
    by_cases hroom : box.buffer.length < box.capacity
    · rw [send_complete hreceivers hroom] at hrep ⊢
      show Advances s boxes (.ok [.sent index value], ⟨s.tasks, after⟩)
      refine ⟨⟨sound_ok _, _, h.keep hbox hrep hlength rfl, fun log hlog => hlog.set hbox ?_⟩, hlength.2⟩
      show Tells [.sent index value] index box _
      refine ⟨?_, fun send => ?_, foreign_events ?_⟩
      · rw [pending_append]
        simp [sentOn, deliveredOn]
      · rw [entries_append]
        simp [waitsOn, wokenOn]
      · simp
    · rw [send_waits hreceivers hroom] at hrep ⊢
      refine h.suspendOn_steps hbox hrep hlength hhandle ⟨?_, fun send => ?_, foreign_events ?_⟩ true hactive hid
        (entries_addSender box _ value hroom)
      · rw [pending_addSender]
        simp [sentOn, deliveredOn]
      · rw [entries_addSender]
        cases send
        · simp [waitsOn, wokenOn, update]
        · simp [waitsOn, wokenOn, entry]
      · simp

theorem Agrees.receive_steps (handle : Int) (destination resumeBlock : Nat) :
    Advances s boxes (s.receive handle destination resumeBlock) := by
  unfold TaskChannels.receive
  rcases h.current_cases with hcurrent | ⟨slot, id, hactive, hid, hcurrent⟩ <;> rw [hcurrent] <;> dsimp only
  · exact .same h ⟨nofun, nofun, nofun⟩ rfl rfl
  rcases h.handle_cases handle with hinvalid | ⟨index, box, hindex, hbox, hhandle⟩
  · have heq : s.channels.receive handle slot id destination resumeBlock = (.error .invalidHandle, s.channels) := by
      unfold ChannelArena.receive
      rw [hinvalid]
    rw [heq]
    exact .same h ⟨nofun, nofun, nofun⟩ rfl rfl
  obtain ⟨_, hfree, hnone⟩ := h.free hactive hbox
  obtain ⟨after, heq, hrep, hlength⟩ := receive_refines h.represents hindex hbox
    ⟨slot, id, destination, resumeBlock⟩ hfree hnone
  have hsub : handle.toNat - 1 = index := by omega
  rw [heq, hsub]
  cases hbuffer : box.buffer with
  | nil =>
    rw [receive_waits hbuffer] at hrep ⊢
    refine h.suspendOn_steps hbox hrep hlength hhandle ⟨?_, fun send => ?_, foreign_events ?_⟩ false hactive hid
      (entries_addReceiver box _ hbuffer)
    · exact append_nil _
    · rw [entries_addReceiver]
      cases send
      · simp [waitsOn, wokenOn, ReceiveEntry.entry]
      · simp [waitsOn, wokenOn, update]
    · simp
  | cons value =>
    rw [receive_value hbuffer] at hrep ⊢
    have hpending := pending_take hbuffer
    have htake := entries_take box hbuffer
    cases hsenders : box.senders with
    | nil =>
      have hsame := entries_take_nil hbuffer hsenders
      show Advances s boxes (.ok [.delivered index value], ⟨s.tasks, after⟩)
      refine ⟨⟨sound_ok _, _, h.keep hbox hrep hlength hsame, fun log hlog => hlog.set hbox ?_⟩, hlength.2⟩
      show Tells [.delivered index value] index box _
      refine ⟨?_, fun send => ?_, foreign_events ?_⟩
      · rw [hpending]
        simp [sentOn, deliveredOn]
      · rw [hsame]
        simp [waitsOn, wokenOn]
      · simp
    | cons =>
      have hentries := entries_senders hsenders
      rw [hsenders] at htake
      refine h.resume_steps hbox hrep hlength hhandle ⟨?_, fun send => ?_, foreign_events ?_⟩ true hentries htake
      · rw [hpending]
        simp [sentOn, deliveredOn]
      · rw [htake]
        cases send
        · simp [waitsOn, wokenOn, update]
        · rw [hentries]
          simp [waitsOn, wokenOn, entry]
      · simp

theorem Agrees.create_steps (capacity : Int) : Advances s boxes (s.create capacity) := by
  obtain ⟨hne, hwaiters, hvalues, hchannels, hrep⟩ := create_refines h.represents capacity
  have hsize : (s.channels.create capacity).2.channels = [] ∨
      (s.channels.create capacity).2.waiters.length = s.tasks.tasks.length := by
    rw [hwaiters]
    refine h.size.imp (fun hnil => ?_) id
    rw [hnil] at hchannels
    exact length_eq_zero_iff.mp hchannels
  have hsteps : Sound (s.create capacity).1 ∧ (s.create capacity).1.toOption.getD [] = [] ∧
      (s.create capacity).2 = ⟨s.tasks, (s.channels.create capacity).2⟩ := by
    unfold TaskChannels.create
    rcases heq : s.channels.create capacity with ⟨_ | handle, _⟩ <;> rw [heq] at hne
    · exact ⟨⟨fun hcorrupt => hne (by cases hcorrupt; rfl), nofun, nofun⟩, rfl, rfl⟩
    · exact ⟨⟨nofun, nofun, nofun⟩, rfl, rfl⟩
  obtain ⟨hsound, hevents, hstate⟩ := hsteps
  unfold Advances Steps
  rw [hevents, hstate]
  refine ⟨⟨hsound, ?_⟩, congrArg length hvalues⟩
  simp only [append_nil]
  rcases hrep with hsame | ⟨n, hn, happend⟩
  · exact ⟨boxes, ⟨h.valid, hsame, hsize, h.waiting, h.task⟩, fun _ hlog => hlog⟩
  · -- the new mailbox has no entries
    have hold : ∀ (i : Nat) (box : Box) slot, (boxes ++ [Mailbox.create hn])[i]? = some box →
        slot ∈ slotsOf (entries box) → boxes[i]? = some box := by
      intro i box slot hbox hslot
      rcases getElem?_concat_eq_some.mp hbox with hbox | ⟨-, rfl⟩
      · exact hbox
      · cases hslot
    refine ⟨_, ⟨h.valid, happend, hsize, fun slot c => (h.waiting slot c).trans ?_,
      fun i box send hbox e he => ?_⟩, fun _ hlog => hlog.append hn⟩
    · constructor
      · rintro ⟨i, box, hbox, hslot, hc⟩
        exact ⟨i, box, getElem?_concat_eq_some.mpr (.inl hbox), hslot, hc⟩
      · rintro ⟨i, box, hbox, hslot, hc⟩
        exact ⟨i, box, hold i box slot hbox hslot, hslot, hc⟩
    · exact h.task i box send (hold i box e.slot hbox (mem_slotsOf.mpr ⟨send, e, he, rfl⟩)) e he

/-- **One step.** -/
theorem Agrees.step (op : Op) : Advances s boxes (s.step op) := by
  cases op with
  | create capacity => exact h.create_steps capacity
  | send handle value resumeBlock => exact h.send_steps handle value resumeBlock
  | receive handle destination resumeBlock => exact h.receive_steps handle destination resumeBlock
  | spawn => exact h.schedule_steps .spawn (keeps_spawn h.valid)
  | join target => exact h.schedule_steps (.join target) (keeps_join h.valid target)
  | suspendHost request =>
    exact h.schedule_steps (.suspendHost request)
      (keeps_suspend h.valid fun c => (nofun : TaskWait.host request ≠ .channel c))
  | completeHost task request =>
    exact h.schedule_steps (.completeHost task request) (keeps_completeHost task request)
  | completeCurrent =>
    exact h.schedule_steps .completeCurrent (keeps_completeCurrent h.valid)
  | activateNext => exact h.schedule_steps .activateNext keeps_activateNext

/-- **A run.**  The mailboxes at its end have its whole history. -/
theorem Agrees.run (ops : List Op) {log : List Event} (hlog : Told log boxes) :
    (∃ boxes', Agrees (s.run ops).2 boxes' ∧ Told (log ++ (s.run ops).1) boxes') ∧
      (s.run ops).2.channels.values.length = s.channels.values.length := by
  induction ops generalizing s boxes log with
  | nil => exact ⟨⟨boxes, h, by rw [show (s.run []).1 = [] from rfl, append_nil]; exact hlog⟩, rfl⟩
  | cons op _ ih =>
    obtain ⟨⟨-, boxes', hagrees, htold⟩, hvalues⟩ := h.step op
    obtain ⟨⟨last, hlast, hall⟩, hrest⟩ := ih hagrees (htold log hlog)
    refine ⟨⟨last, hlast, ?_⟩, hrest.trans hvalues⟩
    rw [append_assoc] at hall
    exact hall

end

theorem agrees_started (channelCapacity valueCapacity : Nat) {taskCapacity : Nat} (h : 0 < taskCapacity) :
    Agrees (started channelCapacity valueCapacity taskCapacity) [] := by
  refine ⟨valid_started h, new_represents .., ?_, fun slot c => ?_, nofun⟩
  · by_cases hzero : channelCapacity = 0
    · subst hzero
      exact .inl rfl
    · refine .inr ?_
      show (replicate (if channelCapacity = 0 then 0 else taskCapacity) Waiter.empty).length =
        (TaskScheduler.started taskCapacity).tasks.length
      rw [if_neg hzero, started_eq h]
      simp
  · refine ⟨fun hwaits => ?_, nofun⟩
    rcases started_state h hwaits with ⟨-, heq⟩ | ⟨-, heq⟩ <;> cases heq

theorem told_nil : Told [] [] := ⟨fun _ => rfl, fun _ _ => rfl⟩

/-! ## Reading the arena -/

/-- The slots of the waiting senders or receivers of a channel, from the head of their queue on. -/
def waiting (s : TaskChannels) (index : Nat) (send : Bool) : List Nat :=
  walk s.channels.nextOf s.channels.waiters.length ((s.channels.channel index).queue send).1

def waitingTask (s : TaskChannels) (slot : Nat) : Option TaskId := (s.channels.waiters[slot]?).bind Waiter.task

/-- The value with which a sender waits. -/
def waitingValue (s : TaskChannels) (slot : Nat) : Option Int :=
  match (s.channels.waiters[slot]?).map Waiter.kind with
  | some (.send value _) => some value
  | _ => none

section Readers

variable {index : Nat} {box : Box}

variable (h : Agrees s boxes) (hbox : boxes[index]? = some box)
include h hbox

theorem Agrees.buffered_eq : s.buffered index = box.buffer := by
  obtain ⟨_, hchannel, hreads, -⟩ := h.represents.channel index box hbox
  have hread := hreads.buffers.ring.read 0
  unfold buffered
  rw [channel_eq hchannel]
  dsimp only
  rw [hreads.buffers.len]
  exact hread

theorem Agrees.capacity_eq : (s.channels.channel index).capacity = box.capacity := by
  obtain ⟨_, hchannel, hreads, -⟩ := h.represents.channel index box hbox
  rw [channel_eq hchannel]
  exact hreads.capacity

theorem Agrees.waiting_eq (send : Bool) : s.waiting index send = (entries box send).map Entry.slot := by
  obtain ⟨_, hchannel, hreads, -⟩ := h.represents.channel index box hbox
  have hqueue := hreads.waits.queue send
  have hbound : ((entries box send).map Entry.slot).length ≤ s.channels.waiters.length := by
    -- different slots of the table
    refine (List.Nodup.subperm hqueue.linked.nodup (fun slot hslot => ?_)).length_le.trans_eq
      (length_range (n := s.channels.waiters.length))
    obtain ⟨e, he, rfl⟩ := mem_map.mp hslot
    exact mem_range.mpr (List.getElem?_eq_some_iff.mp (hqueue.held e he)).1
  unfold TaskChannels.waiting
  rw [channel_eq hchannel]
  exact hqueue.linked.follows.walk_eq hbound

theorem Agrees.waitingTask_eq (send : Bool) :
    (s.waiting index send).filterMap s.waitingTask = (entries box send).map Entry.task := by
  obtain ⟨_, hchannel, hreads, -⟩ := h.represents.channel index box hbox
  rw [h.waiting_eq hbox send, filterMap_map, ← filterMap_eq_map]
  refine filterMap_congr fun e he => ?_
  show (s.channels.waiters[e.slot]?).bind Waiter.task = some e.task
  rw [(hreads.waits.queue send).held e he]
  rfl

theorem Agrees.waitingValue_eq : (s.waiting index true).filterMap s.waitingValue = box.senders.map Prod.snd := by
  obtain ⟨_, hchannel, hreads, -⟩ := h.represents.channel index box hbox
  rw [h.waiting_eq hbox true, show entries box true = box.senders.map entry from rfl,
    map_map, filterMap_map, ← filterMap_eq_map]
  refine filterMap_congr fun e he => ?_
  have hheld := (hreads.waits.queue true).held (entry e) (mem_map_of_mem he)
  show s.waitingValue (entry e).slot = some e.2
  unfold waitingValue
  rw [hheld]
  rfl

end Readers

/-- The buffers together are not larger than the table of values. -/
theorem Agrees.total_le (h : Agrees s boxes) :
    ((List.range s.channels.channelCount).map fun i => (s.buffered i).length).sum ≤ s.channels.values.length := by
  have hmap : (range s.channels.channelCount).map (fun i => (s.buffered i).length) =
      boxes.map fun box => box.buffer.length := by
    rw [← h.represents.count]
    refine ext_getElem (by simp) fun i hi hi' => ?_
    have hlt : i < boxes.length := by simpa using hi
    have hbox : boxes[i]? = some boxes[i] := getElem?_eq_getElem hlt
    rw [getElem_map, getElem_range, getElem_map, h.buffered_eq hbox]
  have hsum : ∀ l : List Box, (l.map fun box => box.buffer.length).sum ≤ total capacity l := by
    intro l
    induction l with
    | nil => exact Nat.le_refl 0
    | cons box _ ih =>
      exact Nat.add_le_add box.bounded ih
  rw [hmap]
  exact (hsum boxes).trans (h.represents.total.trans_le h.represents.limit)

/-- A slot is in one queue only. -/
theorem Agrees.waiting_unique (h : Agrees s boxes) {i j : Nat} {b b' : Box} {send send' : Bool} {slot : Nat}
    (hb : boxes[i]? = some b) (hb' : boxes[j]? = some b') (hslot : slot ∈ s.waiting i send)
    (hslot' : slot ∈ s.waiting j send') : i = j ∧ send = send' := by
  rw [h.waiting_eq hb send] at hslot
  rw [h.waiting_eq hb' send'] at hslot'
  obtain ⟨e, he, rfl⟩ := mem_map.mp hslot
  obtain ⟨e', he', heq⟩ := mem_map.mp hslot'
  have hij : i = j := h.represents.apart i j b b' e.slot hb hb' (mem_slotsOf.mpr ⟨send, e, he, rfl⟩)
    (mem_slotsOf.mpr ⟨send', e', he', heq⟩)
  subst hij
  obtain rfl : b = b' := Option.some.inj (hb.symm.trans hb')
  obtain ⟨_, -, hreads, -⟩ := h.represents.channel i b hb
  refine ⟨rfl, ?_⟩
  by_contra hne
  have hother : e' ∈ entries b !send := by
    rwa [show (!send) = send' by cases send <;> cases send' <;> first | rfl | exact absurd rfl hne]
  exact hreads.waits.apart send he hother heq.symm

/-! ## The guarantee for channels -/

/-- **Channels deliver in order, over every run of tasks.**  In the state that a run reaches, and with the
events `log` of the run, on every channel:

- what was sent is what was delivered, then the buffer, then the values of the waiting senders;
- the buffer is not larger than the channel, nor all buffers than the table of values;
- senders wait only at a full buffer and receivers only at an empty one, hence not both;
- the tasks that came to wait are those that were woken, then those that wait, in this order.

A task that waits for a channel is once in one queue of that channel, and no next step finds a queue or
table corrupt. -/
theorem channel_runs_deliver_in_order (channelCapacity valueCapacity taskCapacity : Nat)
    (htasks : 0 < taskCapacity) (ops : List Op) (log : List Event) (s : TaskChannels)
    (hrun : (started channelCapacity valueCapacity taskCapacity).run ops = (log, s)) :
    (∀ index, deliveredOn index log <+: sentOn index log) ∧
    (∀ index < s.channels.channelCount,
      sentOn index log = deliveredOn index log ++
        (s.buffered index ++ (s.waiting index true).filterMap s.waitingValue) ∧
      (s.buffered index).length ≤ (s.channels.channel index).capacity ∧
      (s.waiting index true ≠ [] → (s.buffered index).length = (s.channels.channel index).capacity) ∧
      (s.waiting index false ≠ [] → s.buffered index = []) ∧
      ¬ (s.waiting index true ≠ [] ∧ s.waiting index false ≠ []) ∧
      ∀ send, waitsOn index send log =
        wokenOn index send log ++ (s.waiting index send).filterMap s.waitingTask) ∧
    ((List.range s.channels.channelCount).map fun i => (s.buffered i).length).sum ≤ valueCapacity ∧
    (∀ slot c, s.tasks.stateAt slot = some (.waiting (.channel c)) →
      ∃ index send, index < s.channels.channelCount ∧ c = index + 1 ∧ (s.waiting index send).count slot = 1 ∧
        ∀ i direction, i < s.channels.channelCount → slot ∈ s.waiting i direction →
          i = index ∧ direction = send) ∧
    ∀ op, Sound (s.step op).1 := by
  obtain ⟨⟨boxes, h, htold⟩, hvalues⟩ := (agrees_started channelCapacity valueCapacity htasks).run ops told_nil
  rw [hrun] at h htold hvalues
  have hbox : ∀ index, index < s.channels.channelCount → ∃ box, boxes[index]? = some box := by
    intro index hlt
    rw [← h.represents.count] at hlt
    exact ⟨_, getElem?_eq_getElem hlt⟩
  refine ⟨fun index => ?_, fun index hlt => ?_, ?_, fun slot c hwaits => ?_, fun op => (h.step op).1.1⟩
  · rw [show sentOn index log = _ from htold.values index]
    exact prefix_append ..
  · obtain ⟨box, hb⟩ := hbox index hlt
    have hempty : ∀ send, s.waiting index send ≠ [] → box.entries send ≠ [] := by
      intro send hne hnil
      rw [h.waiting_eq hb, hnil] at hne
      exact hne rfl
    have hsenders : s.waiting index true ≠ [] → box.senders ≠ [] :=
      fun hne hnil => hempty true hne (congrArg (map SendEntry.entry) hnil)
    have hreceivers : s.waiting index false ≠ [] → box.receivers ≠ [] :=
      fun hne hnil => hempty false hne (congrArg (map ReceiveEntry.entry) hnil)
    rw [h.buffered_eq hb, h.capacity_eq hb, h.waitingValue_eq hb]
    refine ⟨?_, box.bounded, fun hne => box.full (hsenders hne), fun hne => box.empty (hreceivers hne),
      fun hboth => box.not_both ⟨hsenders hboth.1, hreceivers hboth.2⟩, fun send => ?_⟩
    · rw [show sentOn index log = _ from htold.values index, pendingAt_eq hb]
      rfl
    · rw [h.waitingTask_eq hb send, ← waitingAt_eq hb]
      exact htold.tasks index send
  · refine h.total_le.trans_eq (hvalues.trans ?_)
    exact length_replicate
  · obtain ⟨index, box, hb, hslot, rfl⟩ := (h.waiting slot c).mp hwaits
    obtain ⟨channel, -, hreads, -⟩ := h.represents.channel index box hb
    obtain ⟨send, e, he, rfl⟩ := mem_slotsOf.mp hslot
    have hlt : index < s.channels.channelCount :=
      h.represents.count ▸ (List.getElem?_eq_some_iff.mp hb).1
    have hmem : e.slot ∈ s.waiting index send := by
      rw [h.waiting_eq hb]
      exact mem_map_of_mem he
    refine ⟨index, send, hlt, rfl, ?_, fun i direction hi hin => ?_⟩
    · rw [h.waiting_eq hb] at hmem ⊢
      exact count_eq_one_of_mem (hreads.waits.nodup_queue send) hmem
    · obtain ⟨b, hb'⟩ := hbox i hi
      exact h.waiting_unique hb' hb hin hmem

/-- One task sends three values into a channel for two; another receives the first of them. -/
theorem channel_runs_deliver_in_order_small :
    let ops := [Op.create 2, .spawn, .send 1 11 0, .send 1 22 0, .send 1 33 0, .receive 1 0 0]
    let result := (started 1 2 2).run ops
    deliveredOn 0 result.1 = [11] ∧ sentOn 0 result.1 = [11, 22, 33] ∧
      deliveredOn 0 result.1 <+: sentOn 0 result.1 := by
  have hrun := channel_runs_deliver_in_order 1 2 2 (by decide)
    [Op.create 2, .spawn, .send 1 11 0, .send 1 22 0, .send 1 33 0, .receive 1 0 0] _ _ rfl
  exact ⟨by decide, by decide, hrun.1 0⟩

end TaskChannels

end Compukter
