/-
The arena as a list of mailboxes.

`Buffers` and `Waits` read the two halves of a channel, the ring of values and the two queues of waiting
tasks; they are apart because an operation changes one after the other.  `Represents a boxes` puts them
together for all channels: channel `i` is the mailbox `boxes[i]`, the parts of the table of values follow
each other, and a waiter is occupied exactly if its slot is in one of the queues.
-/
import Compukter.Lib.Ring
import Compukter.Lib.Tiling
import Compukter.Lib.Linked
import Compukter.Lib.Mailbox
import Compukter.Task.Channels

open List Function

namespace Compukter

/-! ## Waiting tasks -/

structure SendEntry where
  slot : Nat
  task : TaskId
  resumeBlock : Nat

structure ReceiveEntry where
  slot : Nat
  task : TaskId
  (destination resumeBlock : Nat)

/-- A waiting task as its waiter stores it. -/
structure Entry where
  slot : Nat
  task : TaskId
  kind : WaitKind

abbrev Box := Mailbox Int SendEntry ReceiveEntry

def SendEntry.entry (e : SendEntry × Int) : Entry := ⟨e.1.slot, e.1.task, .send e.2 e.1.resumeBlock⟩

def ReceiveEntry.entry (e : ReceiveEntry) : Entry := ⟨e.slot, e.task, .receive e.destination e.resumeBlock⟩

def Box.entries (box : Box) (send : Bool) : List Entry :=
  if send then box.senders.map SendEntry.entry else box.receivers.map ReceiveEntry.entry

/-- The slots of both queues. -/
def slotsOf (entries : Bool → List Entry) : List Nat := (entries true ++ entries false).map Entry.slot

theorem mem_slotsOf {entries : Bool → List Entry} {slot : Nat} :
    slot ∈ slotsOf entries ↔ ∃ send, ∃ e ∈ entries send, e.slot = slot := by
  unfold slotsOf
  simp only [mem_map, mem_append, Bool.exists_bool, or_and_right, exists_or]
  exact or_comm

namespace ChannelArena

open Box Mailbox

open Tiling (getElem?_set_eq_some getElem?_concat_eq_some)

variable {a a' : ChannelArena} {channel : Channel} {entries : Bool → List Entry} {index : Nat}

def nextOf (a : ChannelArena) (slot : Nat) : Option Nat := (a.waiters[slot]?).bind Waiter.next

structure Queues (a : ChannelArena) (ends : Option Nat × Option Nat) (l : List Entry) : Prop where
  linked : Linked a.nextOf ends.1 ends.2 (l.map Entry.slot)
  held : ∀ e ∈ l, a.waiters[e.slot]? = some ⟨some e.task, a.nextOf e.slot, e.kind⟩

/-- The two queues of a channel, which share no slot. -/
structure Waits (a : ChannelArena) (channel : Channel) (entries : Bool → List Entry) : Prop where
  queue : ∀ send, Queues a (channel.queue send) (entries send)
  nodup : (slotsOf entries).Nodup

variable {l : List Entry}

theorem Queues.congr {ends : Option Nat × Option Nat} (h : Queues a ends l)
    (hsame : ∀ e ∈ l, a'.waiters[e.slot]? = a.waiters[e.slot]?) : Queues a' ends l := by
  have hnext : ∀ e ∈ l, a'.nextOf e.slot = a.nextOf e.slot := by
    intro e he
    unfold nextOf
    rw [hsame e he]
  refine ⟨h.linked.congr fun slot hslot => ?_, fun e he => ?_⟩
  · obtain ⟨e, he, rfl⟩ := mem_map.mp hslot
    exact hnext e he
  · rw [hsame e he, hnext e he]
    exact h.held e he

variable {channel' : Channel}

theorem Waits.congr (h : Waits a channel entries) (hqueue : ∀ send, channel'.queue send = channel.queue send)
    (hsame : ∀ slot ∈ slotsOf entries, a'.waiters[slot]? = a.waiters[slot]?) : Waits a' channel' entries := by
  refine ⟨fun send => ?_, h.nodup⟩
  rw [hqueue send]
  exact (h.queue send).congr fun e he => hsame _ (mem_slotsOf.mpr ⟨send, e, he, rfl⟩)

@[simp] theorem queue_setQueue_self (channel : Channel) (send : Bool) (head tail : Option Nat) :
    (channel.setQueue send head tail).queue send = (head, tail) := by
  cases send <;> rfl

theorem queue_setQueue_other (channel : Channel) {send other : Bool} (hne : other ≠ send)
    (head tail : Option Nat) : (channel.setQueue send head tail).queue other = channel.queue other := by
  cases send <;> cases other <;> first | rfl | exact absurd rfl hne

/-- The queue of one direction changes, and all that it does not touch stays. -/
theorem Waits.update (h : Waits a channel entries) (send : Bool) {head tail : Option Nat}
    (hqueue : Queues a' (head, tail) l) (hnodup : (slotsOf (update entries send l)).Nodup)
    (hsame : ∀ e ∈ entries !send, a'.waiters[e.slot]? = a.waiters[e.slot]?) :
    Waits a' (channel.setQueue send head tail) (update entries send l) := by
  refine ⟨fun other => ?_, hnodup⟩
  by_cases heq : other = send
  · subst heq
    rw [queue_setQueue_self, update_self]
    exact hqueue
  · rw [queue_setQueue_other channel heq, update_of_ne heq]
    refine (h.queue other).congr fun e he => hsame e ?_
    rwa [show (!send) = other by cases send <;> cases other <;> first | rfl | exact absurd rfl heq]

variable {e : Entry} (hchannel : a.channels[index]? = some channel)

/-- A slot of one direction is not one of the other. -/
theorem Waits.apart (h : Waits a channel entries) (send : Bool) {e' : Entry} (he : e ∈ entries send)
    (he' : e' ∈ entries !send) : e.slot ≠ e'.slot := by
  have hdisjoint := h.nodup
  unfold slotsOf at hdisjoint
  rw [map_append] at hdisjoint
  have hne := (nodup_append.mp hdisjoint).2.2
  cases send with
  | true => exact hne _ (mem_map_of_mem he) _ (mem_map_of_mem he')
  | false => exact (hne _ (mem_map_of_mem he') _ (mem_map_of_mem he)).symm

open Entry Option

theorem Waits.nodup_queue (h : Waits a channel entries) (send : Bool) :
    ((entries send).map slot).Nodup := (h.queue send).linked.nodup

theorem channel_eq (h : a.channels[index]? = some channel) : a.channel index = channel := by
  unfold ChannelArena.channel
  rw [getD_eq_getElem?_getD, h]
  rfl

/-! ## Queue operations -/

/-- Only one channel's ends of queues and the waiters differ. -/
structure Requeued (a a' : ChannelArena) (index : Nat) (channel channel' : Channel) : Prop where
  channels : a'.channels = a.channels.set index channel'
  values : a'.values = a.values
  channelCount : a'.channelCount = a.channelCount
  valueCount : a'.valueCount = a.valueCount
  waiters : a'.waiters.length = a.waiters.length
  ring : channel'.valuesStart = channel.valuesStart ∧ channel'.capacity = channel.capacity ∧
    channel'.head = channel.head ∧ channel'.len = channel.len

theorem setQueue_ring (channel : Channel) (send : Bool) (head tail : Option Nat) :
    let channel' := channel.setQueue send head tail
    channel'.valuesStart = channel.valuesStart ∧ channel'.capacity = channel.capacity ∧
      channel'.head = channel.head ∧ channel'.len = channel.len := by
  cases send <;> exact ⟨rfl, rfl, rfl, rfl⟩

theorem slotsOf_pop (send : Bool) (h : entries send = e :: l) (hnodup : (slotsOf entries).Nodup) :
    (slotsOf (update entries send l)).Nodup ∧
      ∀ slot, slot ∈ slotsOf (update entries send l) ↔ slot ∈ slotsOf entries ∧ slot ≠ e.slot := by
  unfold slotsOf at *
  cases send with
  | true =>
    have hsame : update entries true l false = entries false := rfl
    rw [h] at hnodup ⊢
    obtain ⟨hout, hrest⟩ := nodup_cons.mp hnodup
    refine ⟨hrest, fun slot => ⟨fun hmem => ⟨mem_cons_of_mem _ hmem, ?_⟩, fun hmem => ?_⟩⟩
    · rintro rfl
      exact hout hmem
    · exact (mem_cons.mp hmem.1).resolve_left hmem.2
  | false =>
    rw [h] at hnodup ⊢
    simp only [map_append, map_cons] at hnodup ⊢
    rw [nodup_middle] at hnodup
    obtain ⟨hout, hrest⟩ := nodup_cons.mp hnodup
    refine ⟨hrest, fun slot => ?_⟩
    simp only [mem_append, mem_cons] at hout ⊢
    constructor
    · intro hmem
      refine ⟨hmem.imp_right .inr, ?_⟩
      rintro rfl
      exact hout hmem
    · rintro ⟨hmem, hne⟩
      exact hmem.imp_right fun hor => hor.resolve_left hne

include hchannel in
theorem popWaiter_spec (h : Waits a channel entries) (send : Bool) (hentries : entries send = e :: l) :
    ∃ channel' next, (a.popWaiter index send).1 = .ok ⟨some e.task, next, e.kind⟩ ∧
      Requeued a (a.popWaiter index send).2 index channel channel' ∧
      Waits (a.popWaiter index send).2 channel' (update entries send l) ∧
      (a.popWaiter index send).2.waiters = a.waiters.set e.slot .empty := by
  have hqueue := h.queue send
  rw [hentries] at hqueue
  have hhead : (channel.queue send).1 = some e.slot := hqueue.linked.head_eq
  have hheld := hqueue.held e mem_cons_self
  have hpop := hqueue.linked.pop
  obtain ⟨hnodup, -⟩ := slotsOf_pop send hentries h.nodup
  obtain ⟨hfresh, -⟩ := nodup_cons.mp hqueue.linked.nodup
  let tail := if a.nextOf e.slot = none then none else (channel.queue send).2
  have heq : a.popWaiter index send = (.ok ⟨some e.task, a.nextOf e.slot, e.kind⟩,
      (a.setChannel index (channel.setQueue send (a.nextOf e.slot) tail)).clearWaiter e.slot) := by
    unfold popWaiter
    rw [channel_eq hchannel]
    dsimp only
    rw [hhead]
    simp only [bind_some, hheld, map_some]
    rfl
  rw [heq]
  refine ⟨channel.setQueue send (a.nextOf e.slot) tail, a.nextOf e.slot, rfl,
    ⟨rfl, rfl, rfl, rfl, length_set, setQueue_ring ..⟩, ?_, rfl⟩
  have hother : ∀ slot, slot ≠ e.slot → (a.waiters.set e.slot Waiter.empty)[slot]? = a.waiters[slot]? :=
    fun slot hne => getElem?_set_ne hne.symm
  refine h.update send ?_ hnodup fun e' he' => hother _ (h.apart send (by rw [hentries]; simp) he').symm
  have hrest : Queues a (a.nextOf e.slot, tail) l := ⟨hpop, fun e' he' => hqueue.held e' (.tail _ he')⟩
  refine hrest.congr fun e' he' => hother _ ?_
  rintro heq'
  exact hfresh (heq' ▸ mem_map_of_mem he')

theorem slotsOf_push (send : Bool) (hnodup : (slotsOf entries).Nodup) (hfresh : e.slot ∉ slotsOf entries) :
    (slotsOf (update entries send (entries send ++ [e]))).Nodup ∧
      ∀ slot, slot ∈ slotsOf (update entries send (entries send ++ [e])) ↔ slot ∈ slotsOf entries ∨ slot = e.slot := by
  have hperm : (slotsOf (update entries send (entries send ++ [e]))).Perm (e.slot :: slotsOf entries) := by
    unfold slotsOf
    rw [← map_cons]
    refine List.Perm.map _ ?_
    cases send with
    | true =>
      have hsame : update entries true (entries true ++ [e]) false = entries false := rfl
      rw [update_self, hsame, append_assoc]
      exact perm_middle
    | false =>
      have hsame : update entries false (entries false ++ [e]) true = entries true := rfl
      rw [update_self, hsame, ← append_assoc]
      exact perm_append_singleton e _
  refine ⟨hperm.nodup_iff.mpr (nodup_cons.mpr ⟨hfresh, hnodup⟩), fun slot => ?_⟩
  rw [hperm.mem_iff, mem_cons, or_comm]

variable {waiter : Waiter}

theorem Waits.fresh (h : Waits a channel entries) {slot : Nat} (hfree : a.waiters[slot]? = some waiter)
    (hnone : waiter.task = none) : slot ∉ slotsOf entries := by
  intro hmem
  obtain ⟨send, e, he, rfl⟩ := mem_slotsOf.mp hmem
  rw [(h.queue send).held e he] at hfree
  cases hfree
  cases hnone

theorem waiters_setNext (slot : Nat) (next : Option Nat) (i : Nat) : (a.setNext slot next).waiters[i]? =
      if slot = i then (a.waiters[i]?).map fun waiter => { waiter with next := next } else a.waiters[i]? := by
  unfold setNext
  rw [getElem?_modify]
  split <;> cases a.waiters[i]? <;> rfl

theorem nextOf_setNext {slot : Nat} (hslot : slot < a.waiters.length) (next : Option Nat) :
    (a.setNext slot next).nextOf = update a.nextOf slot next := by
  funext i
  unfold nextOf
  rw [waiters_setNext]
  by_cases heq : slot = i
  · subst heq
    rw [if_pos rfl, update_self, getElem?_eq_getElem hslot]
    rfl
  · rw [if_neg heq, update_of_ne (Ne.symm heq)]

variable {head : Option Nat}

/-- A waiter is the first of its queue. -/
theorem Queues.start (h : Queues a (head, none) l) (hfresh : e.slot ∉ l.map slot)
    (he : a.waiters[e.slot]? = some ⟨some e.task, none, e.kind⟩) : Queues a (some e.slot, some e.slot) (l ++ [e]) := by
  have hend : a.nextOf e.slot = none := by
    unfold nextOf
    rw [he]
    rfl
  refine ⟨?_, fun e' he' => ?_⟩
  · rw [map_append]
    exact (h.linked.push hfresh hend).1 rfl
  · rcases mem_append.mp he' with hold | hnew
    · exact h.held e' hold
    · obtain rfl := mem_singleton.mp hnew
      rw [hend]
      exact he

/-- The tail of a queue gets a link to a waiter behind it. -/
theorem Queues.append {last : Nat} (h : Queues a (head, some last) l)
    (hfresh : e.slot ∉ l.map slot) (he : a.waiters[e.slot]? = some ⟨some e.task, none, e.kind⟩) :
    Queues (a.setNext last (some e.slot)) (head, some e.slot) (l ++ [e]) := by
  have hlast : last ∈ l.map slot := mem_of_getLast? h.linked.last.symm
  obtain ⟨el, hel, rfl⟩ := mem_map.mp hlast
  have hlength : el.slot < a.waiters.length := (List.getElem?_eq_some_iff.mp (h.held el hel)).1
  have hend : a.nextOf e.slot = none := by
    unfold nextOf
    rw [he]
    rfl
  have hnext := @nextOf_setNext a el.slot hlength (some e.slot)
  refine ⟨?_, fun e' he' => ?_⟩
  · rw [hnext, map_append]
    exact (h.linked.push hfresh hend).2 _ rfl
  · rw [hnext, waiters_setNext]
    rcases mem_append.mp he' with hold | hnew
    · by_cases heq : el.slot = e'.slot
      · rw [if_pos heq, heq, update_self, h.held e' hold]
        rfl
      · rw [if_neg heq, update_of_ne (Ne.symm heq)]
        exact h.held e' hold
    · obtain rfl := mem_singleton.mp hnew
      have hne : el.slot ≠ e'.slot := fun heq => hfresh (heq ▸ hlast)
      rw [if_neg hne, update_of_ne (Ne.symm hne), hend]
      exact he

include hchannel in
theorem pushWaiter_spec (h : Waits a channel entries) (send : Bool)
    (hfresh : e.slot ∉ slotsOf entries) (he : a.waiters[e.slot]? = some ⟨some e.task, none, e.kind⟩) :
    ∃ channel', (a.pushWaiter index e.slot send).1 = .ok () ∧
      Requeued a (a.pushWaiter index e.slot send).2 index channel channel' ∧
      Waits (a.pushWaiter index e.slot send).2 channel' (update entries send (entries send ++ [e])) ∧
      ∀ slot ∉ slotsOf entries, (a.pushWaiter index e.slot send).2.waiters[slot]? = a.waiters[slot]? := by
  obtain ⟨hnodup, -⟩ := slotsOf_push send h.nodup hfresh
  have hqueue := h.queue send
  have hout : e.slot ∉ (entries send).map slot := by
    intro hmem
    obtain ⟨e', he', heq⟩ := mem_map.mp hmem
    exact hfresh (mem_slotsOf.mpr ⟨send, e', he', heq⟩)
  unfold pushWaiter
  rw [channel_eq hchannel]
  dsimp only
  rcases hends : channel.queue send with ⟨head, _ | last⟩
  · -- the queue is empty
    rw [hends] at hqueue
    refine ⟨channel.setQueue send (some e.slot) (some e.slot), rfl,
      ⟨rfl, rfl, rfl, rfl, rfl, setQueue_ring ..⟩, ?_, fun _ _ => rfl⟩
    exact h.update send ((hqueue.start hout he).congr fun _ _ => rfl) hnodup fun _ _ => rfl
  · rw [hends] at hqueue
    have hlast : last ∈ (entries send).map slot := mem_of_getLast? hqueue.linked.last.symm
    obtain ⟨el, hel, rfl⟩ := mem_map.mp hlast
    have hlength : el.slot < a.waiters.length :=
      (List.getElem?_eq_some_iff.mp (hqueue.held el hel)).1
    dsimp only
    rw [if_pos hlength]
    have hother : ∀ slot, slot ≠ el.slot → (a.setNext el.slot (some e.slot)).waiters[slot]? = a.waiters[slot]? := by
      intro slot hne
      rw [waiters_setNext, if_neg (Ne.symm hne)]
    refine ⟨channel.setQueue send head (some e.slot), rfl,
      ⟨rfl, rfl, rfl, rfl, by simp [setChannel, setNext], setQueue_ring ..⟩, ?_, fun slot hslot => ?_⟩
    · refine h.update send ?_ hnodup fun e' he' => hother _ (h.apart send hel he').symm
      exact (hqueue.append hout he).congr fun _ _ => rfl
    · refine hother slot ?_
      rintro rfl
      exact hslot (mem_slotsOf.mpr ⟨send, el, hel, rfl⟩)

include hchannel in
theorem waitOn_spec (h : Waits a channel entries) (send : Bool)
    (hfree : a.waiters[e.slot]? = some waiter) (hnone : waiter.task = none) :
    ∃ channel', (a.waitOn index e.slot e.task e.kind send).1 = .ok () ∧
      Requeued a (a.waitOn index e.slot e.task e.kind send).2 index channel channel' ∧
      Waits (a.waitOn index e.slot e.task e.kind send).2 channel' (update entries send (entries send ++ [e])) ∧
      ∀ slot ∉ slotsOf entries, slot ≠ e.slot →
        (a.waitOn index e.slot e.task e.kind send).2.waiters[slot]? = a.waiters[slot]? := by
  have hfresh := h.fresh hfree hnone
  let installed := { a with waiters := a.waiters.set e.slot ⟨some e.task, none, e.kind⟩ }
  have hinstall : a.installWaiter e.slot e.task e.kind = (.ok (), installed) := by
    unfold installWaiter
    rw [hfree]
    dsimp only
    rw [hnone]
    rfl
  have hother : ∀ slot, slot ≠ e.slot → installed.waiters[slot]? = a.waiters[slot]? :=
    fun slot hne => getElem?_set_ne hne.symm
  have hwaits : Waits installed channel entries :=
    h.congr (fun _ => rfl) fun slot hslot => hother slot fun heq => hfresh (heq ▸ hslot)
  have hnew : installed.waiters[e.slot]? = some ⟨some e.task, none, e.kind⟩ :=
    getElem?_set_self (List.getElem?_eq_some_iff.mp hfree).1
  obtain ⟨channel', hok, hrequeued, hwaits', hrest⟩ :=
    pushWaiter_spec (a := installed) hchannel hwaits send hfresh hnew
  have heq : a.waitOn index e.slot e.task e.kind send = installed.pushWaiter index e.slot send := by
    unfold waitOn
    rw [hinstall]
  rw [heq]
  refine ⟨channel', hok, ⟨hrequeued.channels, hrequeued.values, hrequeued.channelCount,
    hrequeued.valueCount, hrequeued.waiters.trans length_set, hrequeued.ring⟩, hwaits',
    fun slot hslot hne => (hrest slot hslot).trans (hother slot hne)⟩

/-! ## Buffers -/

/-- The ring of a channel holds the buffered values. -/
structure Buffers (a : ChannelArena) (channel : Channel) (buffer : List Int) : Prop where
  ring : Ring.Holds a.values channel.valuesStart channel.capacity channel.head buffer
  len : channel.len = buffer.length

variable {buffer : List Int}

theorem Buffers.congr (h : Buffers a channel buffer) (hvalues : a'.values = a.values)
    (hring : channel'.valuesStart = channel.valuesStart ∧ channel'.capacity = channel.capacity ∧
      channel'.head = channel.head ∧ channel'.len = channel.len) : Buffers a' channel' buffer := by
  obtain ⟨hstart, hcapacity, hhead, hlen⟩ := hring
  refine ⟨?_, hlen.trans h.len⟩
  rw [hvalues, hstart, hcapacity, hhead]
  exact h.ring

include hchannel in
theorem pushValue_buffers (h : Buffers a channel buffer) (hroom : buffer.length < channel.capacity) (value : Int) :
    Buffers (a.pushValue index value) { channel with len := channel.len + 1 } (buffer ++ [value]) := by
  have hpush := h.ring.push hroom value
  unfold pushValue
  rw [channel_eq hchannel]
  refine ⟨?_, by simp [h.len]⟩
  rw [← h.len] at hpush
  exact hpush

theorem dropValue_buffers {value : Int} (h : Buffers a channel (value :: buffer)) :
    a.values.getD (channel.valuesStart + channel.head) 0 = value ∧ Buffers (a.dropValue index)
        { channel with head := (channel.head + 1) % channel.capacity, len := channel.len - 1 } buffer := by
  refine ⟨?_, h.ring.pop, ?_⟩
  · rw [getD_eq_getElem?_getD, h.ring.first]
    rfl
  · show channel.len - 1 = buffer.length
    rw [h.len]
    rfl

/-! ## All channels -/

structure Reads (a : ChannelArena) (channel : Channel) (box : Box) : Prop where
  capacity : channel.capacity = box.capacity
  buffers : Buffers a channel box.buffer
  waits : Waits a channel box.entries

structure Represents (a : ChannelArena) (boxes : List Box) : Prop where
  count : boxes.length = a.channelCount
  room : a.channelCount ≤ a.channels.length
  total : Tiling.total Mailbox.capacity boxes = a.valueCount
  limit : a.valueCount ≤ a.values.length
  channel : ∀ (i : Nat) (box : Box), boxes[i]? = some box → ∃ channel, a.channels[i]? = some channel ∧
    Reads a channel box ∧ channel.valuesStart = Tiling.total Mailbox.capacity (boxes.take i)
  apart : ∀ (i j : Nat) (box box' : Box) (slot : Nat), boxes[i]? = some box → boxes[j]? = some box' →
    slot ∈ slotsOf box.entries → slot ∈ slotsOf box'.entries → i = j
  occupied : ∀ (slot : Nat) (waiter : Waiter), a.waiters[slot]? = some waiter →
    (waiter.task ≠ none ↔ ∃ (i : Nat) (box : Box), boxes[i]? = some box ∧ slot ∈ slotsOf box.entries)

/-- What an operation on channel `index` leaves as it is. -/
structure Touches (a a' : ChannelArena) (index : Nat) (channel channel' : Channel) : Prop where
  channels : a'.channels = a.channels.set index channel'
  channelCount : a'.channelCount = a.channelCount
  valueCount : a'.valueCount = a.valueCount
  length : a'.values.length = a.values.length
  valuesStart : channel'.valuesStart = channel.valuesStart
  capacity : channel'.capacity = channel.capacity
  values : ∀ p, p < channel.valuesStart ∨ channel.valuesStart + channel.capacity ≤ p → a'.values[p]? = a.values[p]?

variable {boxes : List Box} {box : Box} {box' : Box}

/-- An operation on one channel replaces its mailbox, if the waiters of the slots that come to its queues
were free and those of the slots that leave are free. -/
theorem Represents.update (h : Represents a boxes) (hbox : boxes[index]? = some box)
    (hchannel : a.channels[index]? = some channel) (htouches : Touches a a' index channel channel')
    (hcapacity : box'.capacity = box.capacity) (hreads : Reads a' channel' box')
    (hcome : ∀ slot ∈ slotsOf box'.entries, slot ∉ slotsOf box.entries →
      ∃ waiter, a.waiters[slot]? = some waiter ∧ waiter.task = none)
    (hleave : ∀ slot ∈ slotsOf box.entries, slot ∉ slotsOf box'.entries →
      ∃ waiter, a'.waiters[slot]? = some waiter ∧ waiter.task = none)
    (hsame : ∀ slot, slot ∉ slotsOf box.entries → slot ∉ slotsOf box'.entries →
      a'.waiters[slot]? = a.waiters[slot]?) : Represents a' (boxes.set index box') := by
  -- slots of another channel are in neither queue of this one
  have hforeign : ∀ i b slot, i ≠ index → boxes[i]? = some b → slot ∈ slotsOf (entries b) →
      slot ∉ slotsOf (entries box) ∧ slot ∉ slotsOf (entries box') := by
    intro i b slot hne hb hslot
    have hout : slot ∉ slotsOf (entries box) :=
      fun hmem => hne (h.apart i index b box slot hb hbox hslot hmem)
    refine ⟨hout, fun hmem => ?_⟩
    obtain ⟨waiter, hwaiter, hnone⟩ := hcome slot hmem hout
    exact (h.occupied slot waiter hwaiter).mpr ⟨i, b, hb, hslot⟩ hnone
  refine ⟨?_, ?_, ?_, ?_, fun i b hb => ?_, fun i j b b' slot hb hb' hslot hslot' => ?_,
    fun slot waiter hwaiter => ?_⟩
  · rw [length_set, htouches.channelCount]
    exact h.count
  · rw [htouches.channels, length_set, htouches.channelCount]
    exact h.room
  · have htotal := Tiling.total_take_set hbox hcapacity boxes.length
    rw [take_length, take_of_length_le (Nat.le_of_eq length_set)] at htotal
    rw [htotal, htouches.valueCount]
    exact h.total
  · rw [htouches.valueCount, htouches.length]
    exact h.limit
  · rw [Tiling.total_take_set hbox hcapacity, htouches.channels]
    obtain ⟨own, hown, hownReads, hownStart⟩ := h.channel index box hbox
    obtain rfl : own = channel := some.inj (hown.symm.trans hchannel)
    rcases (getElem?_set_eq_some hbox).mp hb with ⟨rfl, rfl⟩ | ⟨hi, hb⟩
    · exact ⟨channel', (getElem?_set_eq_some hchannel).mpr (.inl ⟨rfl, rfl⟩), hreads,
        htouches.valuesStart.trans hownStart⟩
    · obtain ⟨ci, hci, hr, hstart⟩ := h.channel i b hb
      refine ⟨ci, (getElem?_set_eq_some hchannel).mpr (.inr ⟨hi, hci⟩), ⟨hr.capacity, ?_, ?_⟩, hstart⟩
      · refine ⟨hr.buffers.ring.congr htouches.length fun p hlow hhigh => htouches.values p ?_, hr.buffers.len⟩
        rw [hr.capacity] at hhigh
        rw [hownStart, hownReads.capacity]
        rcases Nat.lt_or_gt_of_ne hi with hless | hmore
        · have := @Tiling.total_take_le _ capacity _ _ _ _ hb hless
          omega
        · have := @Tiling.total_take_le _ capacity _ _ _ _ hbox hmore
          omega
      · refine hr.waits.congr (fun _ => rfl) fun slot hslot => ?_
        obtain ⟨hout, hout'⟩ := hforeign i b slot hi hb hslot
        exact hsame slot hout hout'
  · rcases (getElem?_set_eq_some hbox).mp hb with ⟨rfl, rfl⟩ | ⟨hi, hold⟩ <;>
      rcases (getElem?_set_eq_some hbox).mp hb' with ⟨rfl, rfl⟩ | ⟨hj, hold'⟩
    · rfl
    · exact absurd hslot (hforeign j b' slot hj hold' hslot').2
    · exact absurd hslot' (hforeign i b slot hi hold hslot).2
    · exact h.apart i j b b' slot hold hold' hslot hslot'
  · constructor
    · intro hsome
      by_cases hin : slot ∈ slotsOf (entries box')
      · exact ⟨index, box', (getElem?_set_eq_some hbox).mpr (.inl ⟨rfl, rfl⟩), hin⟩
      by_cases hold : slot ∈ slotsOf (entries box)
      · obtain ⟨waiter', hwaiter', hnone⟩ := hleave slot hold hin
        obtain rfl : waiter' = waiter := some.inj (hwaiter'.symm.trans hwaiter)
        exact absurd hnone hsome
      · rw [hsame slot hold hin] at hwaiter
        obtain ⟨i, b, hb, hslot⟩ := (h.occupied slot waiter hwaiter).mp hsome
        have hi : i ≠ index := by
          rintro rfl
          obtain rfl : b = box := some.inj (hb.symm.trans hbox)
          exact hold hslot
        exact ⟨i, b, (getElem?_set_eq_some hbox).mpr (.inr ⟨hi, hb⟩), hslot⟩
    · rintro ⟨i, b, hb, hslot⟩
      rcases (getElem?_set_eq_some hbox).mp hb with ⟨rfl, rfl⟩ | ⟨hi, hb⟩
      · obtain ⟨send, e, he, rfl⟩ := mem_slotsOf.mp hslot
        rw [(hreads.waits.queue send).held e he] at hwaiter
        cases hwaiter
        exact nofun
      · obtain ⟨hout, hout'⟩ := hforeign i b slot hi hb hslot
        rw [hsame slot hout hout'] at hwaiter
        exact (h.occupied slot waiter hwaiter).mpr ⟨i, b, hb, hslot⟩

/-! ## The operations of a mailbox -/

theorem entries_serveReceiver (box : Box) {receiver : ReceiveEntry} {rest : List ReceiveEntry}
    (h : box.receivers = receiver :: rest) :
    Box.entries (box.serveReceiver h) = update box.entries false (rest.map ReceiveEntry.entry) := by
  funext send
  cases send <;> rfl

theorem entries_receivers {receiver : ReceiveEntry} {rest : List ReceiveEntry} (h : box.receivers = receiver :: rest) :
    box.entries false = receiver.entry :: rest.map ReceiveEntry.entry := congrArg (map _) h

theorem entries_senders {first : SendEntry × Int} {rest : List (SendEntry × Int)} (h : box.senders = first :: rest) :
    box.entries true = SendEntry.entry first :: rest.map SendEntry.entry := congrArg (map _) h

theorem entries_append (box : Box) (value : Int) (hroom : box.buffer.length < box.capacity)
    (hnone : box.receivers = []) : Box.entries (box.append value hroom hnone) = box.entries := rfl

theorem entries_addSender (box : Box) (sender : SendEntry) (value : Int) (hfull : ¬ box.buffer.length < box.capacity) :
    Box.entries (box.addSender sender value hfull) =
      update box.entries true (box.entries true ++ [SendEntry.entry (sender, value)]) := by
  funext send
  cases send
  · rfl
  · exact map_append

theorem entries_addReceiver (box : Box) (receiver : ReceiveEntry) (hempty : box.buffer = []) :
    Box.entries (box.addReceiver receiver hempty) =
      update box.entries false (box.entries false ++ [receiver.entry]) := by
  funext send
  cases send
  · exact map_append
  · rfl

theorem entries_take (box : Box) {value : Int} {rest : List Int} (h : box.buffer = value :: rest) :
    Box.entries (box.take h) = update box.entries true (box.senders.tail.map SendEntry.entry) := by
  funext send
  cases send <;> rfl

theorem entries_take_nil {value : Int} {rest : List Int} (h : box.buffer = value :: rest) (hnone : box.senders = []) :
    Box.entries (box.take h) = box.entries := by
  rw [entries_take]
  refine update_eq_self_iff.mpr ?_
  show box.senders.tail.map _ = box.senders.map _
  rw [hnone]
  rfl

theorem Requeued.touches (h : Requeued a a' index channel channel') : Touches a a' index channel channel' :=
  ⟨h.channels, h.channelCount, h.valueCount, congrArg length h.values, h.ring.1, h.ring.2.1,
    fun p _ => by rw [h.values]⟩

/-- The waiting receiver at the head of its queue is served. -/
theorem Represents.pop (h : Represents a boxes) (hbox : boxes[index]? = some box) (send : Bool)
    (hentries : box.entries send = e :: l) (hentries' : box'.entries = Function.update box.entries send l)
    (hchannel : a.channels[index]? = some channel) (htouches : Touches a a' index channel channel')
    (hcapacity : box'.capacity = box.capacity) (hreads : Reads a' channel' box')
    (hwaiters : a'.waiters = a.waiters.set e.slot .empty) : Represents a' (boxes.set index box') := by
  obtain ⟨own, hown, hownReads, -⟩ := h.channel index box hbox
  obtain ⟨-, hslots⟩ := slotsOf_pop send hentries hownReads.waits.nodup
  rw [← hentries'] at hslots
  have hheld := (hownReads.waits.queue send).held e (by rw [hentries]; exact mem_cons_self)
  refine h.update hbox hchannel htouches hcapacity hreads
    (fun slot hin hout => absurd ((hslots slot).mp hin).1 hout) (fun slot hin hout => ?_)
    fun slot hout _ => ?_
  · have heq : slot = e.slot := by
      by_contra hne
      exact hout ((hslots slot).mpr ⟨hin, hne⟩)
    subst heq
    refine ⟨.empty, ?_, rfl⟩
    rw [hwaiters]
    exact getElem?_set_self (List.getElem?_eq_some_iff.mp hheld).1
  · rw [hwaiters, getElem?_set_ne]
    rintro rfl
    exact hout (mem_slotsOf.mpr ⟨send, e, by rw [hentries]; exact mem_cons_self, rfl⟩)

/-- A task waits at the end of a queue. -/
theorem Represents.push (h : Represents a boxes) (hbox : boxes[index]? = some box)
    (hchannel : a.channels[index]? = some channel) (send : Bool) (hfree : a.waiters[e.slot]? = some waiter)
    (hnone : waiter.task = none) (hentries' : box'.entries =
      Function.update box.entries send (box.entries send ++ [e]))
    (hcapacity : box'.capacity = box.capacity) (hbuffer : box'.buffer = box.buffer) :
    ∃ after, a.waitOn index e.slot e.task e.kind send = (.ok (), after) ∧
      Represents after (boxes.set index box') ∧ after.waiters.length = a.waiters.length ∧
      after.values.length = a.values.length := by
  obtain ⟨own, hown, hreads, -⟩ := h.channel index box hbox
  obtain rfl : own = channel := some.inj (hown.symm.trans hchannel)
  have hfresh := hreads.waits.fresh hfree hnone
  obtain ⟨-, hslots⟩ := slotsOf_push send hreads.waits.nodup hfresh
  rw [← hentries'] at hslots
  obtain ⟨_, hok, hrequeued, hwaits, hother⟩ := waitOn_spec hchannel hreads.waits send hfree hnone
  rw [← hentries'] at hwaits
  refine ⟨_, Prod.ext hok rfl, h.update hbox hchannel hrequeued.touches hcapacity ⟨?_, ?_, hwaits⟩ (fun slot hin hout => ?_)
    (fun slot hin hout => absurd ((hslots slot).mpr (.inl hin)) hout) fun slot hout hout' => ?_,
    hrequeued.waiters, hrequeued.touches.length⟩
  · rw [hrequeued.ring.2.1, hcapacity]
    exact hreads.capacity
  · rw [hbuffer]
    exact hreads.buffers.congr hrequeued.values hrequeued.ring
  · rcases (hslots slot).mp hin with hold | rfl
    · exact absurd hold hout
    · exact ⟨waiter, hfree, hnone⟩
  · exact hother slot hout fun heq => hout' ((hslots slot).mpr (.inr heq))

def sendResult : Mailbox.Sent ReceiveEntry → SendResult
  | .complete => .complete
  | .wakes receiver => .wakeReceiver receiver.task receiver.destination receiver.resumeBlock
  | .waits => .suspend

def receiveResult : Mailbox.Received Int SendEntry → ReceiveResult
  | .value value sender => .value value (sender.map fun s => (s.task, s.resumeBlock))
  | .waits => .suspend

theorem Reads.receiveHead_eq (h : Reads a channel box) :
    channel.receiveHead = (box.receivers.map ReceiveEntry.slot).head? := by
  have hhead := (h.waits.queue false).linked.head_eq
  rw [show (entries box false).map slot = box.receivers.map ReceiveEntry.slot from map_map ..]
    at hhead
  exact hhead

theorem Reads.sendHead_eq (h : Reads a channel box) : channel.sendHead = (box.senders.map fun e => e.1.slot).head? := by
  have hhead := (h.waits.queue true).linked.head_eq
  rw [show (entries box true).map slot = box.senders.map fun e => e.1.slot from map_map ..] at hhead
  exact hhead

include hchannel in
theorem pushValue_touches (hcapacity : 0 < channel.capacity)
    (value : Int) : Touches a (a.pushValue index value) index channel { channel with len := channel.len + 1 } := by
  unfold pushValue
  rw [channel_eq hchannel]
  refine ⟨rfl, rfl, rfl, length_set, rfl, rfl, fun p hp => getElem?_set_ne ?_⟩
  have := Nat.mod_lt (channel.head + channel.len) hcapacity
  omega

include hchannel in
theorem dropValue_touches : Touches a (a.dropValue index) index channel
      { channel with head := (channel.head + 1) % channel.capacity, len := channel.len - 1 } := by
  unfold dropValue
  rw [channel_eq hchannel]
  exact ⟨rfl, rfl, rfl, rfl, rfl, rfl, fun _ _ => rfl⟩

theorem Touches.trans {a'' : ChannelArena} {channel'' : Channel} (h : Touches a a' index channel channel')
    (h' : Touches a' a'' index channel' channel'') : Touches a a'' index channel channel'' := by
  refine ⟨?_, h'.channelCount.trans h.channelCount, h'.valueCount.trans h.valueCount,
    h'.length.trans h.length, h'.valuesStart.trans h.valuesStart, h'.capacity.trans h.capacity,
    fun p hp => ?_⟩
  · rw [h'.channels, h.channels, set_set]
  · rw [h'.values p (by rwa [h.valuesStart, h.capacity]), h.values p hp]

theorem Touches.channel_eq (h : Touches a a' index channel channel') (hchannel : a.channels[index]? = some channel) :
    a'.channels[index]? = some channel' := by
  rw [h.channels]
  exact (getElem?_set_eq_some hchannel).mpr (.inl ⟨rfl, rfl⟩)

/-- Only the buffer of a channel changes. -/
theorem Represents.rebuffer (h : Represents a boxes) (hbox : boxes[index]? = some box)
    (hchannel : a.channels[index]? = some channel) (htouches : Touches a a' index channel channel')
    (hwaiters : a'.waiters = a.waiters) (hqueue : ∀ send, channel'.queue send = channel.queue send)
    (hentries : box'.entries = box.entries) (hcapacity : box'.capacity = box.capacity)
    (hbuffers : Buffers a' channel' box'.buffer) : Represents a' (boxes.set index box') := by
  obtain ⟨own, hown, hreads, -⟩ := h.channel index box hbox
  obtain rfl : own = channel := some.inj (hown.symm.trans hchannel)
  refine h.update hbox hchannel htouches hcapacity ⟨?_, hbuffers, ?_⟩
    (fun slot hin hout => absurd (hentries ▸ hin) hout)
    (fun slot hin hout => absurd (hentries ▸ hin) hout) fun _ _ _ => by rw [hwaiters]
  · rw [htouches.capacity, hcapacity]
    exact hreads.capacity
  · rw [hentries]
    exact hreads.waits.congr hqueue fun _ _ => by rw [hwaiters]

section

variable (h : Represents a boxes) {handle : Int} (hindex : a.channelIndex handle = .ok index)
  (hbox : boxes[index]? = some box)
include h hindex hbox

/-- **Sending is the mailbox's.** -/
theorem send_refines (sender : SendEntry) (hfree : a.waiters[sender.slot]? = some waiter)
    (hnone : waiter.task = none) (value : Int) :
    ∃ after, a.send handle sender.slot sender.task value sender.resumeBlock =
        (.ok (sendResult (box.send sender value).1), after) ∧
      Represents after (boxes.set index (box.send sender value).2) ∧
      after.waiters.length = a.waiters.length ∧ after.values.length = a.values.length := by
  obtain ⟨channel, hchannel, hreads, -⟩ := h.channel index box hbox
  have hhead := hreads.receiveHead_eq
  unfold ChannelArena.send
  rw [hindex]
  dsimp only
  rw [channel_eq hchannel]
  cases hreceivers : box.receivers with
  | cons =>
    rw [hreceivers] at hhead
    have hentries := entries_receivers hreceivers
    have hentries' := entries_serveReceiver box hreceivers
    obtain ⟨_, _, hok, hrequeued, hwaits, hwaiters⟩ :=
      popWaiter_spec hchannel hreads.waits false hentries
    rcases heq : a.popWaiter index false with ⟨_, after⟩
    rw [heq] at hok hrequeued hwaits hwaiters
    cases hok
    rw [if_pos (by rw [hhead]; exact nofun), send_wakes hreceivers]
    refine ⟨after, rfl, h.pop hbox false hentries hentries' hchannel hrequeued.touches rfl ⟨?_, ?_, ?_⟩
      hwaiters, hrequeued.waiters, hrequeued.touches.length⟩
    · exact hrequeued.ring.2.1.trans hreads.capacity
    · exact hreads.buffers.congr hrequeued.values hrequeued.ring
    · rw [hentries']
      exact hwaits
  | nil =>
    have hidle : channel.receiveHead = none := by
      rw [hhead, hreceivers]
      rfl
    rw [if_neg (not_not.mpr hidle), hreads.buffers.len, hreads.capacity]
    by_cases hroom : box.buffer.length < box.capacity
    · rw [if_pos hroom, send_complete hreceivers hroom]
      have hpositive : 0 < channel.capacity := hreads.capacity ▸ box.positive
      exact ⟨_, rfl, h.rebuffer hbox hchannel (pushValue_touches hchannel hpositive value) rfl
        (fun _ => rfl) (entries_append box value hroom hreceivers) rfl
        (pushValue_buffers hchannel hreads.buffers (hreads.capacity ▸ hroom) value), rfl, length_set⟩
    · rw [if_neg hroom, send_waits hreceivers hroom]
      obtain ⟨after, heq, hrep, hlength⟩ := h.push hbox hchannel true
        (e := SendEntry.entry (sender, value)) hfree hnone (entries_addSender box sender value hroom) rfl rfl
      have heq : a.waitOn index sender.slot sender.task (.send value sender.resumeBlock) true =
        (.ok (), after) := heq
      rw [heq]
      exact ⟨after, rfl, hrep, hlength⟩

/-- **Receiving is the mailbox's.** -/
theorem receive_refines (receiver : ReceiveEntry) (hfree : a.waiters[receiver.slot]? = some waiter)
    (hnone : waiter.task = none) :
    ∃ after, a.receive handle receiver.slot receiver.task receiver.destination receiver.resumeBlock =
        (.ok (receiveResult (box.receive receiver).1), after) ∧
      Represents after (boxes.set index (box.receive receiver).2) ∧
      after.waiters.length = a.waiters.length ∧ after.values.length = a.values.length := by
  obtain ⟨channel, hchannel, hreads, -⟩ := h.channel index box hbox
  have hhead := hreads.sendHead_eq
  unfold ChannelArena.receive
  rw [hindex]
  dsimp only
  rw [channel_eq hchannel, hreads.buffers.len]
  cases hbuffer : box.buffer with
  | nil =>
    rw [if_neg (by simp), receive_waits hbuffer]
    obtain ⟨after, heq, hrep, hlength⟩ := h.push hbox hchannel false
      (e := receiver.entry) hfree hnone (entries_addReceiver box receiver hbuffer) rfl rfl
    have heq : a.waitOn index receiver.slot receiver.task
      (.receive receiver.destination receiver.resumeBlock) false = (.ok (), after) := heq
    rw [heq]
    exact ⟨after, rfl, hrep, hlength⟩
  | cons value rest =>
    have hbuffers := hreads.buffers
    rw [hbuffer] at hbuffers
    obtain ⟨hvalue, hdropped⟩ : _ ∧ Buffers (a.dropValue index) _ rest := dropValue_buffers hbuffers
    have htake := entries_take box hbuffer
    rw [if_pos (by simp), hvalue, receive_value hbuffer]
    cases hsenders : box.senders with
    | nil =>
      have hidle : channel.sendHead = none := by
        rw [hhead, hsenders]
        rfl
      rw [if_pos hidle]
      refine ⟨_, rfl, h.rebuffer hbox hchannel (dropValue_touches hchannel) rfl (fun _ => rfl)
        (entries_take_nil hbuffer hsenders) rfl ?_,
        rfl, rfl⟩
      have hrest : (box.take hbuffer).buffer = rest := by
        show rest ++ (box.senders.head?.map Prod.snd).toList = rest
        rw [hsenders]
        exact append_nil rest
      rw [hrest]
      exact hdropped
    | cons first =>
      have hwaiting : ¬ channel.sendHead = none := by
        rw [hhead, hsenders]
        exact nofun
      rw [if_neg hwaiting]
      rw [hsenders] at htake
      have hentries := entries_senders hsenders
      -- the value leaves, the sender leaves its queue, and its value comes in
      have htouches := dropValue_touches hchannel
      have hwaits : Waits (a.dropValue index)
          { channel with head := (channel.head + 1) % channel.capacity, len := channel.len - 1 }
          (entries box) := hreads.waits.congr (fun _ => rfl) fun _ _ => rfl
      obtain ⟨channel', _, hok, hrequeued, hwaits', hwaiters⟩ :=
        popWaiter_spec (htouches.channel_eq hchannel) hwaits true hentries
      rcases heq : (a.dropValue index).popWaiter index true with ⟨_, after⟩
      rw [heq] at hok hrequeued hwaits' hwaiters
      cases hok
      have htouches' := htouches.trans hrequeued.touches
      have hchannel' := htouches'.channel_eq hchannel
      have hcapacity : channel'.capacity = box.capacity := htouches'.capacity.trans hreads.capacity
      have htouches'' := pushValue_touches hchannel' (hcapacity ▸ box.positive) first.2
      have hroom : rest.length < channel'.capacity := by
        have hbounded := box.bounded
        rw [hbuffer] at hbounded
        rw [hcapacity]
        exact hbounded
      have hpushed := pushValue_buffers hchannel' (hdropped.congr hrequeued.values hrequeued.ring) hroom first.2
      refine ⟨_, rfl, h.pop hbox true hentries htake hchannel (htouches'.trans htouches'') rfl
        ⟨hcapacity, ?_, ?_⟩ hwaiters, hrequeued.waiters, (htouches'.trans htouches'').length⟩
      · have hrest : (box.take hbuffer).buffer = rest ++ [first.2] := by
          show rest ++ (box.senders.head?.map Prod.snd).toList = _
          rw [hsenders]
          rfl
        rw [hrest]
        exact hpushed
      · rw [htake]
        exact hwaits'.congr (fun _ => rfl) fun _ _ => rfl

end

/-! ## New channels -/

theorem new_represents (channelCapacity valueCapacity taskCapacity : Nat) :
    Represents (new channelCapacity valueCapacity taskCapacity) [] := by
  refine ⟨rfl, Nat.zero_le _, rfl, Nat.zero_le _, nofun, nofun, fun slot waiter hwaiter => ?_⟩
  have hempty : waiter = .empty := eq_of_mem_replicate (mem_of_getElem? hwaiter)
  subst hempty
  exact ⟨fun hne => absurd rfl hne, nofun⟩

theorem Represents.append (h : Represents a boxes) {capacity : Nat} (hpositive : 0 < capacity)
    (hroom : a.channelCount < a.channels.length) (hlimit : a.valueCount + capacity ≤ a.values.length) :
    Represents
      { a with
        channels := a.channels.set a.channelCount
          { Channel.empty with valuesStart := a.valueCount, capacity := capacity }
        channelCount := a.channelCount + 1
        valueCount := a.valueCount + capacity }
      (boxes ++ [Mailbox.create hpositive]) := by
  have hcount := h.count
  refine ⟨?_, ?_, ?_, hlimit, fun i b hb => ?_, fun i j b b' slot hb hb' hslot hslot' => ?_,
    fun slot waiter hwaiter => ?_⟩
  · rw [length_append, hcount]
    rfl
  · rw [length_set]
    exact hroom
  · rw [Tiling.total_append, h.total]
    rfl
  · rcases getElem?_concat_eq_some.mp hb with hold | ⟨rfl, rfl⟩
    · have hlt := (List.getElem?_eq_some_iff.mp hold).1
      obtain ⟨channel, hchannel, hreads, hstart⟩ := h.channel i b hold
      refine ⟨channel, ?_, ⟨hreads.capacity, hreads.buffers.congr rfl ⟨rfl, rfl, rfl, rfl⟩,
        hreads.waits.congr (fun _ => rfl) fun _ _ => rfl⟩, ?_⟩
      · rw [getElem?_set_ne (by omega)]
        exact hchannel
      · rw [take_append_of_le_length (by omega)]
        exact hstart
    · rw [hcount, take_left' hcount]
      refine ⟨_, getElem?_set_self hroom, ⟨rfl, ⟨Ring.holds_nil hlimit hpositive, rfl⟩,
        ⟨fun send => ?_, nodup_nil⟩⟩, h.total.symm⟩
      cases send <;> exact ⟨linked_nil, nofun⟩
  · rcases getElem?_concat_eq_some.mp hb with hold | ⟨-, rfl⟩
    · rcases getElem?_concat_eq_some.mp hb' with hold' | ⟨-, rfl⟩
      · exact h.apart i j b b' slot hold hold' hslot hslot'
      · cases hslot'
    · cases hslot
  · rw [h.occupied slot waiter hwaiter]
    constructor
    · rintro ⟨i, b, hb, hslot⟩
      exact ⟨i, b, getElem?_concat_eq_some.mpr (.inl hb), hslot⟩
    · rintro ⟨i, b, hb, hslot⟩
      rcases getElem?_concat_eq_some.mp hb with hold | ⟨-, rfl⟩
      · exact ⟨i, b, hold, hslot⟩
      · cases hslot

/-- `create` adds an empty mailbox or nothing. -/
theorem create_refines (h : Represents a boxes) (capacity : Int) :
    (a.create capacity).1 ≠ .error .corruptQueue ∧ (a.create capacity).2.waiters = a.waiters ∧
      (a.create capacity).2.values = a.values ∧ (a.create capacity).2.channels.length = a.channels.length ∧
      (Represents (a.create capacity).2 boxes ∨
        ∃ n, ∃ hn : 0 < n, Represents (a.create capacity).2 (boxes ++ [Mailbox.create hn])) := by
  unfold create
  by_cases hnegative : capacity < 0
  · rw [if_pos hnegative]
    exact ⟨nofun, rfl, rfl, rfl, .inl h⟩
  rw [if_neg hnegative]
  dsimp only
  by_cases hfull : capacity.toNat = 0 ∨ a.channelCount = a.channels.length
  · rw [if_pos hfull]
    exact ⟨nofun, rfl, rfl, rfl, .inl h⟩
  rw [if_neg hfull]
  by_cases hlimit : a.values.length < a.valueCount + capacity.toNat
  · rw [if_pos hlimit]
    exact ⟨nofun, rfl, rfl, rfl, .inl h⟩
  rw [if_neg hlimit]
  have hroom := h.room
  have hpositive : 0 < capacity.toNat := by omega
  have happend := h.append hpositive (by omega) (by omega)
  split
  case isTrue => exact ⟨nofun, rfl, rfl, length_set, .inr ⟨_, hpositive, happend⟩⟩
  case isFalse => exact ⟨nofun, rfl, rfl, length_set, .inr ⟨_, hpositive, happend⟩⟩

end ChannelArena

end Compukter
