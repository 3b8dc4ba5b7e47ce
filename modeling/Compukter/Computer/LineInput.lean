/-
Reading a line from the terminal.

Text and keys edit a line of UTF-16 code units until Enter.  The stream works on code units and the user on
characters; the two agree because the line is always an encoding (`reading`): the control characters that are
dropped are single units, and Backspace takes both halves of a surrogate pair.

A line may come in over any number of advance calls.  The session that gets the response is a list of responses.
-/
import Compukter.Terminal.Device

namespace Compukter.Computer

open Fallible Terminal List

structure InputOwner where
  (frame task : Nat)
  deriving DecidableEq

inductive StandardStreamError
  | lineTooLong | lineReady | noCanonicalRead
  deriving DecidableEq

inductive InputOwnershipError
  | rawBusy | canonicalBusy
  deriving DecidableEq

inductive InputMode
  | raw | canonical
  deriving DecidableEq

structure StandardStreams where
  editing : List Nat
  ready : Option (List Nat)
  owner : Option (InputMode × InputOwner)
  maximumLineCodeUnits : Nat
  deriving DecidableEq

/-- `other` stands for the keys that do not edit. -/
inductive TerminalKey
  | backspace | enter
  | other (code : Nat)
  deriving DecidableEq

inductive TerminalKeyAction
  | press | «repeat»
  deriving DecidableEq

inductive TerminalInputEvent
  | key (key : TerminalKey) (action : TerminalKeyAction)
  | text (text : List Char)
  deriving DecidableEq

/-! ## The stream -/

def encodeUtf16 (text : List Char) : List Nat :=
  text.flatMap fun c =>
    if c.toNat < 0x10000 then [c.toNat]
    else [0xD800 + (c.toNat - 0x10000) / 0x400, 0xDC00 + (c.toNat - 0x10000) % 0x400]

def isCanonicalTextUnit (unit : Nat) : Bool := 0x20 ≤ unit && unit != 0x7f

/-- The line without its last unit, or without its last two if they are a surrogate pair. -/
def popScalar (editing : List Nat) : List Nat :=
  match editing.reverse with
  | [] => []
  | last :: rest =>
    match rest with
    | previous :: rest' =>
      if 0xDC00 ≤ last ∧ last ≤ 0xDFFF ∧ 0xD800 ≤ previous ∧ previous ≤ 0xDBFF then rest'.reverse else rest.reverse
    | [] => []

namespace StandardStreams

variable (s : StandardStreams) (terminal : TerminalDevice)

abbrev Accepted := Except StandardStreamError (StandardStreams × TerminalDevice)

/-- The input has one owner at a time. -/
def acquire (mode : InputMode) (owner : InputOwner) : Except InputOwnershipError StandardStreams :=
  if s.owner = some (mode, owner) then .ok s
  else
    match s.owner with
    | some (.raw, _) => .error .rawBusy
    | some (.canonical, _) => .error .canonicalBusy
    | none => .ok { s with owner := some (mode, owner) }

def beginRead (owner : InputOwner) : Except InputOwnershipError StandardStreams := s.acquire .canonical owner

def beginRawWait (owner : InputOwner) : Except InputOwnershipError StandardStreams := s.acquire .raw owner

def requireOpen : Except StandardStreamError Unit := do
  demand (s.owner.any fun owner => owner.1 == .canonical) .noCanonicalRead
  demand s.ready.isNone .lineReady

def acceptText (units : List Nat) : Accepted := do
  s.requireOpen
  let units := units.filter isCanonicalTextUnit
  demand (s.editing.length + units.length ≤ s.maximumLineCodeUnits) .lineTooLong
  return ({ s with editing := s.editing ++ units }, terminal.writeUtf16 units)

def acceptKey (key : TerminalKey) : Accepted := do
  s.requireOpen
  match key with
  | .backspace =>
    if s.editing.isEmpty then return (s, terminal)
    else return ({ s with editing := popScalar s.editing }, terminal.erasePrevious)
  | .enter => return ({ s with editing := [], ready := some s.editing }, terminal.writeUtf16 ['\n'.toNat])
  | .other _ => return (s, terminal)

/-- Keys count when they are pressed and when they repeat, and do nothing else. -/
def accept : TerminalInputEvent → Accepted
  | .text text => s.acceptText terminal (encodeUtf16 text)
  | .key key _ => s.acceptKey terminal key

def takeLine (owner : InputOwner) : Option (List Nat × StandardStreams) :=
  if s.owner = some (.canonical, owner) then
    s.ready.map fun line => (line, { s with ready := none, owner := none })
  else none

/-- The owners in question lose the input and what was typed. -/
def cancelOwners (p : InputOwner → Bool) : StandardStreams :=
  if s.owner.any fun current => p current.2 then { s with owner := none, editing := [], ready := none } else s

def cancel (owner : InputOwner) : StandardStreams := s.cancelOwners (· == owner)

def cancelFrame (frame : Nat) : StandardStreams := s.cancelOwners (·.frame == frame)

end StandardStreams

/-! ## The computer -/

inductive StdioResponse
  | line (units : List Nat)
  | busy (error : InputOwnershipError)
  | failure (error : StandardStreamError)
  deriving DecidableEq

/-- `pendingStdioRead` is a task and its request. -/
structure LineReader where
  frame : Nat
  streams : StandardStreams
  terminal : TerminalDevice
  input : List TerminalInputEvent
  pendingStdioRead : Option (Nat × Nat)
  responses : List ((Nat × Nat) × StdioResponse)

namespace LineReader

variable (s : LineReader)

/-- The loop of `advance_pending_stdio` over the queued events. -/
def advanceOver (pending : Nat × Nat) : List TerminalInputEvent → LineReader → LineReader
  | [], s => { s with input := [] }
  | event :: events, s =>
    let owner := ⟨s.frame, pending.1⟩
    match s.streams.accept s.terminal event with
    | .error .lineTooLong => advanceOver pending events s
    | .error error => { s with
        streams := s.streams.cancel owner, input := events, pendingStdioRead := none
        responses := s.responses ++ [(pending, .failure error)] }
    | .ok (streams, terminal) =>
      match streams.takeLine owner with
      | some (line, streams) => { s with
          streams := streams, terminal := terminal, input := events, pendingStdioRead := none
          responses := s.responses ++ [(pending, .line line)] }
      | none => advanceOver pending events { s with streams := streams, terminal := terminal }

def advancePendingStdio : LineReader :=
  match s.pendingStdioRead with
  | none => s
  | some pending => advanceOver pending s.input s

/-- A task asks for a line. -/
def handleReadLine (task request : Nat) : LineReader :=
  match s.streams.beginRead ⟨s.frame, task⟩ with
  | .error error => { s with responses := s.responses ++ [((task, request), .busy error)] }
  | .ok streams => advancePendingStdio { s with streams := streams, pendingStdioRead := some (task, request) }

/-- Events are queued, and an advance call follows, again and again. -/
def run (s : LineReader) (arrivals : List (List TerminalInputEvent)) : LineReader :=
  arrivals.foldl (fun s events => advancePendingStdio { s with input := s.input ++ events }) s

end LineReader

/-! ## Lines of characters -/

def isControl (c : Char) : Bool := !isCanonicalTextUnit c.toNat

/-- What an event does to a line. -/
def edit (limit : Nat) (line : List Char) : TerminalInputEvent → List Char
  | .text text =>
    let text := text.filter (!isControl ·)
    if (encodeUtf16 (line ++ text)).length ≤ limit then line ++ text else line
  | .key .backspace _ => line.dropLast
  | .key _ _ => line

def isEnter : TerminalInputEvent → Bool
  | .key .enter _ => true
  | _ => false

/-- A line and, once Enter came, the events after it. -/
abbrev Read := List Char × Option (List TerminalInputEvent)

def read (limit : Nat) : Read → TerminalInputEvent → Read
  | (line, none), event => if isEnter event then (line, some []) else (edit limit line event, none)
  | (line, some rest), event => (line, some (rest ++ [event]))

variable {limit : Nat} {line : List Char}

@[simp] theorem encodeUtf16_append (text text' : List Char) :
    encodeUtf16 (text ++ text') = encodeUtf16 text ++ encodeUtf16 text' := flatMap_append

theorem filter_encodeUtf16 (text : List Char) :
    (encodeUtf16 text).filter isCanonicalTextUnit = encodeUtf16 (text.filter (!isControl ·)) := by
  have hone : ∀ c : Char, (encodeUtf16 [c]).filter isCanonicalTextUnit =
      if isControl c then [] else encodeUtf16 [c] := by
    intro c
    unfold encodeUtf16 isControl
    by_cases hsmall : c.toNat < 0x10000
    · by_cases hcontrol : isCanonicalTextUnit c.toNat <;> simp [hsmall, hcontrol]
    · have hkept : ∀ n, 0xD800 ≤ n → isCanonicalTextUnit n = true := by
        intro n hn
        simp only [isCanonicalTextUnit, Bool.and_eq_true, decide_eq_true_eq, bne_iff_ne]
        omega
      have hlow := hkept (0xDC00 + (c.toNat - 0x10000) % 0x400) (by omega)
      simp [hsmall, hkept _ (Nat.le_add_right 0xD800 _), hkept c.toNat (by omega), hlow]
  induction text with
  | nil => rfl
  | cons c text ih =>
    have hcons : encodeUtf16 (c :: text) = encodeUtf16 [c] ++ encodeUtf16 text := encodeUtf16_append [c] text
    rw [hcons, filter_append, hone, ih]
    cases hcontrol : isControl c with
    | true => rw [filter_cons_of_neg (by simp [hcontrol])]; rfl
    | false => rw [filter_cons_of_pos (by simp [hcontrol])]; exact (encodeUtf16_append [c] _).symm

theorem popScalar_encodeUtf16 (line : List Char) : popScalar (encodeUtf16 line) = encodeUtf16 line.dropLast := by
  rcases eq_nil_or_concat' line with rfl | ⟨line, c, rfl⟩
  · rfl
  rw [dropLast_concat, encodeUtf16_append]
  have hvalid : c.toNat < 0xD800 ∨ 0xDFFF < c.toNat ∧ c.toNat < 0x110000 := c.valid
  unfold popScalar
  by_cases hsmall : c.toNat < 0x10000
  · have hc : encodeUtf16 [c] = [c.toNat] := by simp [encodeUtf16, hsmall]
    rw [hc, reverse_concat]
    rcases hrest : (encodeUtf16 line).reverse with _ | ⟨previous, rest⟩
    · exact (reverse_eq_nil_iff.mp hrest).symm
    · dsimp only
      rw [if_neg (by omega), ← hrest, reverse_reverse]
  · have hc : encodeUtf16 [c] = [0xD800 + (c.toNat - 0x10000) / 0x400, 0xDC00 + (c.toNat - 0x10000) % 0x400] := by
      simp [encodeUtf16, hsmall]
    rw [hc, reverse_append]
    change (if _ then (encodeUtf16 line).reverse.reverse else _) = _
    rw [if_pos (by omega), reverse_reverse]

theorem length_edit (h : (encodeUtf16 line).length ≤ limit) (event : TerminalInputEvent) :
    (encodeUtf16 (edit limit line event)).length ≤ limit := by
  unfold edit
  split
  · dsimp only
    split
    case isTrue hfits => exact hfits
    case isFalse => exact h
  · rcases eq_nil_or_concat' line with rfl | ⟨line, c, rfl⟩
    · exact h
    · rw [encodeUtf16_append, length_append] at h
      rw [dropLast_concat]
      omega
  · exact h

theorem length_read {r : Read} (h : (encodeUtf16 r.1).length ≤ limit) (events : List TerminalInputEvent) :
    (encodeUtf16 (events.foldl (read limit) r).1).length ≤ limit := by
  induction events generalizing r with
  | nil => exact h
  | cons event _ ih =>
    apply ih
    unfold read
    split
    · split
      · exact h
      · exact length_edit h event
    · exact h

theorem foldl_read_some (rest events : List TerminalInputEvent) :
    events.foldl (read limit) (line, some rest) = (line, some (rest ++ events)) := by
  induction events generalizing rest with
  | nil => rw [append_nil, foldl_nil]
  | cons _ _ ih => rw [foldl_cons, read, ih, append_assoc]; rfl

/-! ## Reading a line -/

def idle (limit : Nat) : StandardStreams := ⟨[], none, none, limit⟩

def reading (owner : InputOwner) (limit : Nat) (line : List Char) : StandardStreams :=
  ⟨encodeUtf16 line, none, some (.canonical, owner), limit⟩

/-- The computer after some events of a read: still reading, or done, with the line delivered and the other events
left. -/
def outcome (frame limit : Nat) (pending : Nat × Nat) (responses : List ((Nat × Nat) × StdioResponse))
    (terminal : TerminalDevice) : Read → LineReader
  | (line, none) => ⟨frame, reading ⟨frame, pending.1⟩ limit line, terminal, [], some pending, responses⟩
  | (line, some rest) =>
    ⟨frame, idle limit, terminal, rest, none, responses ++ [(pending, .line (encodeUtf16 line))]⟩

variable (frame : Nat) (pending : Nat × Nat) (responses : List ((Nat × Nat) × StdioResponse))
  (terminal : TerminalDevice)

open StandardStreams

/-- An event other than Enter edits the line, or is text that is too long. -/
theorem accept_reading (owner : InputOwner) {event : TerminalInputEvent} (hevent : isEnter event = false) :
    (∃ terminal', (reading owner limit line).accept terminal event =
      .ok (reading owner limit (edit limit line event), terminal')) ∨
    (reading owner limit line).accept terminal event = .error .lineTooLong ∧ edit limit line event = line := by
  match event, hevent with
  | .text text, _ =>
    unfold accept acceptText edit
    dsimp only
    rw [filter_encodeUtf16, encodeUtf16_append, length_append]
    unfold reading
    by_cases hfits : (encodeUtf16 line).length + (encodeUtf16 (text.filter (!isControl ·))).length ≤ limit
    · rw [decide_eq_true hfits, if_pos hfits, encodeUtf16_append]
      exact .inl ⟨_, rfl⟩
    · rw [decide_eq_false hfits, if_neg hfits]
      exact .inr ⟨rfl, rfl⟩
  | .key (.other _) _, _ => exact .inl ⟨_, rfl⟩
  | .key .backspace _, _ =>
    unfold accept acceptKey edit reading
    rw [← popScalar_encodeUtf16]
    cases hline : encodeUtf16 line with
    | nil | cons => exact .inl ⟨_, rfl⟩

/-- **A call.**  The events up to Enter, or all of them, are consumed. -/
theorem advanceOver_reading (input events : List TerminalInputEvent) :
    ∃ terminal', LineReader.advanceOver pending events
      ⟨frame, reading ⟨frame, pending.1⟩ limit line, terminal, input, some pending, responses⟩ =
        outcome frame limit pending responses terminal' (events.foldl (read limit) (line, none)) := by
  induction events generalizing line terminal with
  | nil => exact ⟨terminal, rfl⟩
  | cons event _ ih =>
    rw [foldl_cons, read]
    unfold LineReader.advanceOver
    cases hevent : isEnter event with
    | true =>
      match event, hevent with
      | .key .enter action, _ =>
        have haccept : (reading ⟨frame, pending.1⟩ limit line).accept terminal (.key .enter action) =
          .ok (⟨[], some (encodeUtf16 line), some (.canonical, ⟨frame, pending.1⟩), limit⟩, _) := rfl
        rw [if_pos rfl, foldl_read_some, haccept]
        dsimp only
        rw [takeLine, if_pos rfl]
        exact ⟨_, rfl⟩
    | false =>
      have hnone (line : List Char) : (reading ⟨frame, pending.1⟩ limit line).takeLine ⟨frame, pending.1⟩ = none :=
        ite_self _
      rcases accept_reading terminal ⟨frame, pending.1⟩ hevent with ⟨terminal', haccept⟩ | ⟨haccept, hline⟩
      · rw [haccept]
        dsimp only
        rw [hnone]
        exact ih terminal'
      · rw [haccept, hline]
        exact ih terminal

theorem run_outcome (arrivals : List (List TerminalInputEvent)) (r : Read) :
    ∃ terminal', (outcome frame limit pending responses terminal r).run arrivals =
      outcome frame limit pending responses terminal' (arrivals.flatten.foldl (read limit) r) := by
  induction arrivals generalizing terminal r with
  | nil => exact ⟨terminal, rfl⟩
  | cons events _ ih =>
    rw [flatten_cons, foldl_append]
    match r with
    | (line, none) =>
      obtain ⟨terminal', hcall⟩ := advanceOver_reading frame pending responses terminal ([] ++ events) events
      obtain ⟨terminal'', hrun⟩ := ih terminal' (events.foldl (read limit) (line, none))
      refine ⟨terminal'', ?_⟩
      rw [← hrun, ← hcall]
      rfl
    | (line, some rest) =>
      rw [foldl_read_some]
      exact ih terminal (line, some (rest ++ events))

/-- **A line read.**  Whenever the events come in, a task that asks for a line gets the line that the events up to the
first Enter make, once, and the events after it stay. -/
theorem handleReadLine_run (task request : Nat) (queued : List TerminalInputEvent)
    (arrivals : List (List TerminalInputEvent)) :
    let r := (queued ++ arrivals.flatten).foldl (read limit) ([], none)
    (encodeUtf16 r.1).length ≤ limit ∧
    ∃ terminal', (LineReader.handleReadLine ⟨frame, idle limit, terminal, queued, none, responses⟩ task request).run
      arrivals = outcome frame limit (task, request) responses terminal' r := by
  refine ⟨length_read (Nat.zero_le limit) _, ?_⟩
  obtain ⟨terminal', hcall⟩ := advanceOver_reading frame (task, request) responses terminal queued queued
  obtain ⟨terminal'', hrun⟩ := run_outcome frame (task, request) responses terminal' arrivals
    (queued.foldl (read limit) ([], none))
  refine ⟨terminal'', ?_⟩
  rw [foldl_append, ← hrun, ← hcall]
  rfl

end Compukter.Computer
