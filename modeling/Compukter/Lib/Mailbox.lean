/-
Bounded mailboxes with direct hand-off.

A mailbox buffers at most `capacity` values.  A sender that finds the buffer full waits with its value, a
receiver that finds it empty waits; both kinds of waiters are served in the order of their arrival.  That
senders wait only at a full buffer and receivers only at an empty one is part of the type.

`pending` is what has been sent and not delivered: the buffer, then the values of the waiting senders.
Each operation adds at the end of it and takes from its front.
-/
import Mathlib.Data.List.Basic

namespace Compukter

variable {α σ ρ : Type}

structure Mailbox (α σ ρ : Type) where
  capacity : Nat
  buffer : List α
  senders : List (σ × α)
  receivers : List ρ
  positive : 0 < capacity
  bounded : buffer.length ≤ capacity
  full : senders ≠ [] → buffer.length = capacity
  empty : receivers ≠ [] → buffer = []

namespace Mailbox

inductive Sent (ρ : Type)
  | complete
  | wakes (receiver : ρ)
  | waits

inductive Received (α σ : Type)
  | value (value : α) (wakes : Option σ)
  | waits

def create {capacity : Nat} (h : 0 < capacity) : Mailbox α σ ρ :=
  ⟨capacity, [], [], [], h, Nat.zero_le _, fun hne => absurd rfl hne, fun _ => rfl⟩

variable (m : Mailbox α σ ρ)

def pending : List α := m.buffer ++ m.senders.map Prod.snd

/-- Waiting senders and waiting receivers exclude each other. -/
theorem not_both : ¬ (m.senders ≠ [] ∧ m.receivers ≠ []) := by
  rintro ⟨hsenders, hreceivers⟩
  have hfull := m.full hsenders
  rw [m.empty hreceivers] at hfull
  exact Nat.ne_of_lt m.positive hfull

theorem senders_nil (h : m.buffer.length < m.capacity) : m.senders = [] := by
  by_contra hne
  exact Nat.ne_of_lt h (m.full hne)

theorem receivers_nil (h : m.buffer ≠ []) : m.receivers = [] := by
  by_contra hne
  exact h (m.empty hne)

/-- The first receiver has taken a value. -/
def serveReceiver {receiver : ρ} {rest : List ρ} (h : m.receivers = receiver :: rest) : Mailbox α σ ρ :=
  { m with
    receivers := rest
    empty := fun _ => m.empty (by rw [h]; exact nofun) }

def append (value : α) (hroom : m.buffer.length < m.capacity) (hnone : m.receivers = []) : Mailbox α σ ρ :=
  { m with
    buffer := m.buffer ++ [value]
    bounded := by rw [List.length_append]; exact hroom
    full := fun hne => absurd (m.senders_nil hroom) hne
    empty := fun hne => absurd hnone hne }

def addSender (sender : σ) (value : α) (hfull : ¬ m.buffer.length < m.capacity) : Mailbox α σ ρ :=
  { m with
    senders := m.senders ++ [(sender, value)]
    full := fun _ => Nat.le_antisymm m.bounded (Nat.le_of_not_lt hfull) }

def addReceiver (receiver : ρ) (hempty : m.buffer = []) : Mailbox α σ ρ :=
  { m with
    receivers := m.receivers ++ [receiver]
    empty := fun _ => hempty }

/-- The first value leaves, and the value of the first waiting sender, if any, comes in. -/
def take {value : α} {rest : List α} (h : m.buffer = value :: rest) : Mailbox α σ ρ :=
  { m with
    buffer := rest ++ (m.senders.head?.map Prod.snd).toList
    senders := m.senders.tail
    bounded := by
      have hbounded := m.bounded
      rw [h, List.length_cons] at hbounded
      have hone : (m.senders.head?.map Prod.snd).toList.length ≤ 1 := by
        cases m.senders.head? <;> simp
      rw [List.length_append]
      omega
    full := fun hne => by
      have hfull := m.full (fun hnil => hne (by rw [hnil]; rfl))
      cases hs : m.senders with
      | nil => rw [hs] at hne; exact absurd rfl hne
      | cons s others => rw [h] at hfull; simpa using hfull
    empty := fun hne => absurd (m.receivers_nil (by rw [h]; exact nofun)) hne }

def send (sender : σ) (value : α) : Sent ρ × Mailbox α σ ρ :=
  match h : m.receivers with
  | receiver :: _ => (.wakes receiver, m.serveReceiver h)
  | [] =>
    if hroom : m.buffer.length < m.capacity then (.complete, m.append value hroom h)
    else (.waits, m.addSender sender value hroom)

def receive (receiver : ρ) : Received α σ × Mailbox α σ ρ :=
  match h : m.buffer with
  | value :: _ => (.value value (m.senders.head?.map Prod.fst), m.take h)
  | [] => (.waits, m.addReceiver receiver h)

/-! ## Cases -/

variable {m}

theorem send_wakes {receiver : ρ} {rest : List ρ} (h : m.receivers = receiver :: rest) (sender : σ)
    (value : α) : m.send sender value = (.wakes receiver, m.serveReceiver h) := by
  unfold send
  split
  case h_1 receiver' rest' h' =>
    obtain ⟨rfl, rfl⟩ := List.cons.inj (h'.symm.trans h)
    rfl
  case h_2 h' => cases h'.symm.trans h

theorem send_complete (h : m.receivers = []) (hroom : m.buffer.length < m.capacity) (sender : σ)
    (value : α) : m.send sender value = (.complete, m.append value hroom h) := by
  unfold send
  split
  case h_1 h' => cases h'.symm.trans h
  case h_2 => exact dif_pos hroom

theorem send_waits (h : m.receivers = []) (hfull : ¬ m.buffer.length < m.capacity) (sender : σ)
    (value : α) : m.send sender value = (.waits, m.addSender sender value hfull) := by
  unfold send
  split
  case h_1 h' => cases h'.symm.trans h
  case h_2 => exact dif_neg hfull

variable {value : α}

theorem receive_value {rest : List α} (h : m.buffer = value :: rest) (receiver : ρ) :
    m.receive receiver = (.value value (m.senders.head?.map Prod.fst), m.take h) := by
  unfold receive
  split
  case h_1 value' rest' h' =>
    obtain ⟨rfl, rfl⟩ := List.cons.inj (h'.symm.trans h)
    rfl
  case h_2 h' => cases h'.symm.trans h

theorem receive_waits (h : m.buffer = []) (receiver : ρ) : m.receive receiver = (.waits, m.addReceiver receiver h) := by
  unfold receive
  split
  case h_1 h' => cases h'.symm.trans h
  case h_2 => rfl

/-! ## Order of delivery -/

theorem pending_serveReceiver {receiver : ρ} {rest : List ρ} (h : m.receivers = receiver :: rest) :
    m.pending = [] ∧ (m.serveReceiver h).pending = [] := by
  have hne : m.receivers ≠ [] := by rw [h]; exact nofun
  have hsenders : m.senders = [] := by
    by_contra hsome
    exact m.not_both ⟨hsome, hne⟩
  have hpending : m.pending = [] := by
    unfold pending
    rw [m.empty hne, hsenders]
    rfl
  exact ⟨hpending, hpending⟩

theorem pending_append (hroom : m.buffer.length < m.capacity) (hnone : m.receivers = []) :
    (m.append value hroom hnone).pending = m.pending ++ [value] := by
  show (m.buffer ++ [value]) ++ m.senders.map Prod.snd = (m.buffer ++ m.senders.map Prod.snd) ++ [value]
  rw [m.senders_nil hroom]
  simp

theorem pending_addSender {sender : σ} {value : α} (hfull : ¬ m.buffer.length < m.capacity) :
    (m.addSender sender value hfull).pending = m.pending ++ [value] := by
  show m.buffer ++ (m.senders ++ [(sender, value)]).map Prod.snd = _
  rw [List.map_append, ← List.append_assoc]
  rfl

theorem pending_take {rest : List α} (h : m.buffer = value :: rest) : m.pending = value :: (m.take h).pending := by
  show m.buffer ++ m.senders.map Prod.snd =
    value :: ((rest ++ (m.senders.head?.map Prod.snd).toList) ++ m.senders.tail.map Prod.snd)
  rw [h]
  cases m.senders <;> simp

end Mailbox

end Compukter
