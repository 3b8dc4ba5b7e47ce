/-
Which of the pending requests one advance call of the computer takes up.

A call first sees to what has ended a wait: it ends a process that Ctrl+C stopped, or it answers a task whose line or
event has come in, and returns (`preempt`); the session runs in the next call.

A batch mixes requests that the computer serves itself with requests for the host.  A redstone request that awaits a
change goes first.  Otherwise the first external requests, as many as the allowance, are published, unless all of
them were published before and there is a request to serve.  Unanswered requests count against the allowance, so that
they can keep a new one out (`exposed_hides_fresh`).

The checks of the arguments of a request and the reports of the session are parameters; the handlers of the served
requests and the sessions that get an answer are left out.
-/
import Compukter.Computer.LineInput

namespace Compukter.Computer

open Fallible Terminal List

/-! ## The computer -/

inductive Interface
  | rawTerminal | stdio | filesystem | process | compiler | redstone | other
  deriving DecidableEq

/-- A call of a task that waits for its answer. -/
structure HostRequest where
  (task id : Nat)
  interface : Interface
  operation : Nat
  deriving DecidableEq

namespace HostRequest

def isRedstoneLocal (r : HostRequest) : Bool := r.interface == .redstone && r.operation ≤ 5

/-- The computer serves the request itself. -/
def isInternal (r : HostRequest) : Bool :=
  r.interface == .rawTerminal || r.interface == .stdio || r.interface == .filesystem ||
    r.interface == .process || r.interface == .compiler || r.isRedstoneLocal

end HostRequest

/-- The process, task and request that an id of the host stands for. -/
structure ExternalRequestRoute where
  (scopeId taskId internalId externalId : Nat)
  deriving DecidableEq

inductive ComputerError
  | notRunnable | externalRequestLimit | activeTerminalEvent
  | terminalInputBusy (error : InputOwnershipError)
  | invalidRequest (interface : Interface)
  /-- An `expect` of the source fails. -/
  | panic
  deriving DecidableEq

/-- A process and the requests of its tasks, each a task and an id, for which the computer keeps the answer. -/
structure ProcessFrame where
  scopeId : Nat
  (pendingProcess pendingStdioRead pendingTerminalEvent : Option (Nat × Nat))
  deriving DecidableEq

/-- What the terminal has taken in. -/
structure Console where
  standardStreams : StandardStreams
  terminal : TerminalDevice
  input : List TerminalInputEvent

/-- The part of the computer that an advance call reads. -/
structure Selector where
  activeFrame : ProcessFrame
  /-- The processes that wait for their child, the nearest first. -/
  parents : List ProcessFrame
  /-- The scope of the lowest process that Ctrl+C ends. -/
  pendingTermination : Option Nat
  /-- The depth of the process that compiles. -/
  pendingCompilation : Option Nat
  redstoneWaiters : List (Nat × Nat)
  activeTerminalEvent : Option (TerminalInputEvent × InputOwner)
  console : Console
  externalRequests : List ExternalRequestRoute
  nextExternalRequest : Nat
  /-- The product of the requests of a session and the depth of sessions. -/
  maximumExternalRequests : Nat

/-- What an advance call returns. -/
inductive Outcome
  | processExited (scopeId : Nat)
  /-- The host sees the ids of their routes. -/
  | hostRequestBatch (requests : List HostRequest)
  | waitingForHostQuota
  /-- The request goes to the handler of its interface. -/
  | serves (request : HostRequest)
  | waitingForTerminalEvent | sliceExhausted
  deriving DecidableEq

/-- What ends a call before the session runs: a process ends, or a task gets its line or event. -/
inductive Early
  | exits (scopeId : Nat)
  | answers

def Early.outcome : Early → Outcome
  | exits scopeId => .processExited scopeId
  | answers => .sliceExhausted

namespace Selector

variable (c : Selector)

/-! ## Before the session runs -/

/-- The number of sessions. -/
def depth : Nat := c.parents.length + 1

/-- The active process ends, and its parent goes on. -/
def finishChild : Except ComputerError (Early × Selector) :=
  match c.parents with
  | [] => .error .panic
  | parent :: parents => do
    demand parent.pendingProcess.isSome .panic
    return (.exits c.activeFrame.scopeId, { c with
      activeFrame := { parent with pendingProcess := none }
      parents := parents
      activeTerminalEvent := c.activeTerminalEvent.filter (·.2.frame != c.depth)
      console.standardStreams := c.console.standardStreams.cancelFrame c.depth
      externalRequests := c.externalRequests.filter (·.scopeId != c.activeFrame.scopeId) })

/-- Ctrl+C ends the processes from the active one down to the one it named, one in each call. -/
def terminate : Except ComputerError (Option (Early × Selector)) :=
  match c.pendingTermination.bind fun scope => (c.activeFrame :: c.parents).reverse.findIdx? (·.scopeId == scope) with
  | none => .ok none
  | some index => do
    let pendingCompilation := c.pendingCompilation.filter (· ≤ index)
    let (early, c) ← finishChild { c with pendingCompilation := pendingCompilation }
    if c.depth = index then
      return some (early,
        { c with pendingTermination := none, console.terminal := c.console.terminal.resumeConsoleOutput })
    else return some (early, c)

/-- The queued events go to the line that a task reads, and then one goes to the task that awaits one.  A task that
gets what it waits for ends the call. -/
def answerWaits : Except ComputerError ((Early × Selector) ⊕ Console) :=
  let reader := LineReader.advancePendingStdio ⟨c.depth, c.console.standardStreams, c.console.terminal, c.console.input,
    c.activeFrame.pendingStdioRead, []⟩
  let console := ⟨reader.streams, reader.terminal, reader.input⟩
  if c.activeFrame.pendingStdioRead.isSome && reader.pendingStdioRead.isNone then
    .ok (.inl (.answers, { c with activeFrame.pendingStdioRead := none, console := console }))
  else
    match c.activeFrame.pendingTerminalEvent with
    | none => .ok (.inr console)
    | some (task, _) => do
      demand c.activeTerminalEvent.isNone .activeTerminalEvent
      let streams ← (reader.streams.beginRawWait ⟨c.depth, task⟩).mapError .terminalInputBusy
      match reader.input with
      | [] => return .inr { console with standardStreams := streams }
      | event :: input => return .inl (.answers, { c with
          activeFrame.pendingTerminalEvent := none
          activeTerminalEvent := some (event, ⟨c.depth, task⟩)
          console := ⟨streams, reader.terminal, input⟩ })

/-- What a call sees to before the session runs. -/
def preempt : Except ComputerError ((Early × Selector) ⊕ Console) := do
  match ← c.terminate with
  | some ended => return .inl ended
  | none => answerWaits { c with pendingTermination := none }

/-! ## The batch of the session -/

def isParked (r : HostRequest) : Bool :=
  (r.interface == .rawTerminal && c.activeFrame.pendingTerminalEvent == some (r.task, r.id)) ||
    (r.interface == .stdio && c.activeFrame.pendingStdioRead == some (r.task, r.id)) ||
    (r.interface == .compiler && c.pendingCompilation.isSome) ||
    (r.isRedstoneLocal && c.redstoneWaiters.contains (r.task, r.id))

def awaitsChange (r : HostRequest) : Bool := !c.isParked r && r.isRedstoneLocal && r.operation == 1

def isServiceable (r : HostRequest) : Bool := !c.isParked r && r.isInternal

def isExternal (r : HostRequest) : Bool := !c.isParked r && !r.isInternal

/-- The host has seen the request. -/
def isExposed (r : HostRequest) : Bool :=
  c.externalRequests.any fun route =>
    route.scopeId == c.activeFrame.scopeId && route.taskId == r.task && route.internalId == r.id

variable (copy : HostRequest → Except ComputerError Unit) (allowed : Nat)

/-- The third pass: the external requests and whether one of them is new; nothing if the allowance is used up. -/
def takeExternal (internal : Bool) :
    List HostRequest → List HostRequest → Bool → Except ComputerError (Option (List HostRequest × Bool))
  | [], external, fresh => .ok (some (external, fresh))
  | r :: batch, external, fresh =>
    if c.isExternal r then
      if allowed = 0 then .ok (if internal then some (external, fresh) else none)
      else do
        copy r
        let fresh := fresh || !c.isExposed r
        if external.length + 1 = allowed then .ok (some (external ++ [r], fresh))
        else takeExternal internal batch (external ++ [r]) fresh
    else takeExternal internal batch external fresh

/-- The request to serve and the requests to publish. -/
def select (batch : List HostRequest) : Except ComputerError (Option (Option HostRequest × List HostRequest)) :=
  match batch.find? c.awaitsChange with
  | some r => do
    copy r
    return some (some r, [])
  | none => do
    let internal := batch.find? c.isServiceable
    internal.forM copy
    let taken ← c.takeExternal copy allowed internal.isSome batch [] false
    return taken.map fun (external, fresh) => (internal, if internal.isSome && !fresh then [] else external)

/-- The host's id of a request, given out when it is published first. -/
def routeExternalRequest (c : Selector) (r : HostRequest) : Except ComputerError Selector :=
  if c.isExposed r then .ok c
  else if c.maximumExternalRequests ≤ c.externalRequests.length ∨ 2 ^ 63 - 1 ≤ c.nextExternalRequest then
    .error .externalRequestLimit
  else .ok { c with
    externalRequests := c.externalRequests ++ [⟨c.activeFrame.scopeId, r.task, r.id, c.nextExternalRequest⟩]
    nextExternalRequest := c.nextExternalRequest + 1 }

/-- The external requests are published; without any, the request to serve is served. -/
def conclude (hasRunnableWork : Bool) (internal : Option HostRequest) (external : List HostRequest) :
    Except ComputerError (Outcome × Selector) :=
  if external.isEmpty then
    match internal with
    | some r => .ok (.serves r, c)
    | none =>
      if (c.activeFrame.pendingStdioRead.isSome || c.activeFrame.pendingTerminalEvent.isSome) && !hasRunnableWork then
        .ok (.waitingForTerminalEvent, c)
      else .ok (.sliceExhausted, c)
  else do
    let after ← external.foldlM routeExternalRequest c
    return (.hostRequestBatch external, after)

/-- What is done with the requests that the session reports. -/
def takeBatch (hasRunnableWork : Bool) (batch : List HostRequest) : Except ComputerError (Outcome × Selector) := do
  demand (!batch.isEmpty) .notRunnable
  match ← c.select copy allowed batch with
  | none => return (.waitingForHostQuota, c)
  | some (internal, external) => c.conclude hasRunnableWork internal external

/-- An advance call.  When the session runs, it reports the batch and whether another task can still run. -/
def advance (hasRunnableWork : Bool) (batch : List HostRequest) : Except ComputerError (Outcome × Selector) := do
  match ← c.preempt with
  | .inl (early, after) => return (early.outcome, after)
  | .inr console =>
    takeBatch { c with pendingTermination := none, console := console } copy allowed hasRunnableWork batch

/-! ## The passes -/

variable {c copy allowed} {batch : List HostRequest}

theorem takeExternal_eq {external : List HostRequest} (hroom : external.length < allowed)
    (hcopy : ∀ r ∈ (batch.filter c.isExternal).take (allowed - external.length), copy r = .ok ())
    (internal fresh : Bool) : c.takeExternal copy allowed internal batch external fresh =
      .ok (some (external ++ (batch.filter c.isExternal).take (allowed - external.length),
        fresh || ((batch.filter c.isExternal).take (allowed - external.length)).any (!c.isExposed ·))) := by
  induction batch generalizing external fresh with
  | nil => simp [takeExternal]
  | cons r _ ih =>
    unfold takeExternal
    by_cases hexternal : c.isExternal r
    · obtain ⟨left, hleft⟩ : ∃ left, allowed - external.length = left + 1 := ⟨allowed - external.length - 1, by omega⟩
      rw [filter_cons_of_pos hexternal, hleft, take_succ_cons] at hcopy ⊢
      obtain ⟨hr, hcopy⟩ := forall_mem_cons.mp hcopy
      rw [if_pos hexternal, if_neg (by omega), hr, ok_bind, any_cons]
      by_cases hlast : external.length + 1 = allowed
      · have hnone : left = 0 := by omega
        rw [if_pos hlast, hnone, take_zero, any_nil, Bool.or_false]
      · have hlength : (external ++ [r]).length = external.length + 1 := length_append
        have hrest : allowed - (external ++ [r]).length = left := by omega
        rw [if_neg hlast, ih (by omega) (by rwa [hrest]), hrest, append_assoc, Bool.or_assoc]
        rfl
    · rw [filter_cons_of_neg hexternal] at hcopy ⊢
      rw [if_neg hexternal, ih hroom hcopy]

/-- The request that is served unless new external requests come first. -/
def chosen (c : Selector) (batch : List HostRequest) : Option HostRequest :=
  (batch.find? c.awaitsChange).or (batch.find? c.isServiceable)

/-- The external requests that fit the allowance. -/
def reached (c : Selector) (allowed : Nat) (batch : List HostRequest) : List HostRequest :=
  (batch.filter c.isExternal).take allowed

/-- The requests that the host has not seen. -/
def fresh (c : Selector) (requests : List HostRequest) : List HostRequest := requests.filter (!c.isExposed ·)

variable (c allowed batch) in
/-- The request to serve does not wait for external requests. -/
def ServesFirst : Prop := (c.chosen batch).isSome ∧
  ((∃ r ∈ batch, c.awaitsChange r) ∨ ∀ r ∈ c.reached allowed batch, c.isExposed r)

instance : Decidable (ServesFirst c allowed batch) := inferInstanceAs (Decidable (_ ∧ (_ ∨ _)))

variable (c copy allowed batch) in
/-- The requests that are looked at pass their checks, and there is room to publish those of them that are new. -/
structure Admitted : Prop where
  chosen : ∀ r ∈ c.chosen batch, copy r = .ok ()
  reached : (∀ r ∈ batch, ¬ c.awaitsChange r) → ∀ r ∈ c.reached allowed batch, copy r = .ok ()
  room : (∀ r ∈ batch, ¬ c.awaitsChange r) → c.fresh (c.reached allowed batch) ≠ [] →
    c.externalRequests.length + (c.fresh (c.reached allowed batch)).length ≤ c.maximumExternalRequests ∧
      c.nextExternalRequest + (c.fresh (c.reached allowed batch)).length < 2 ^ 63

theorem select_eq (h : Admitted c copy allowed batch) (hallowed : 0 < allowed) :
    c.select copy allowed batch = .ok (some (c.chosen batch,
      if ServesFirst c allowed batch then [] else c.reached allowed batch)) := by
  unfold select
  split
  case h_1 r hawait =>
    have hchosen : c.chosen batch = some r := by rw [chosen, hawait]; rfl
    have hchange : ∃ r ∈ batch, c.awaitsChange r := ⟨r, mem_of_find?_eq_some hawait, find?_some hawait⟩
    rw [h.chosen r hchosen, hchosen, if_pos ⟨by rw [hchosen]; rfl, .inl hchange⟩]
    rfl
  case h_2 hawait =>
    have hchosen : c.chosen batch = batch.find? c.isServiceable := by rw [chosen, hawait]; rfl
    have hforM : (batch.find? c.isServiceable).forM copy = .ok () := by
      cases hfind : batch.find? c.isServiceable with
      | none => rfl
      | some r => exact h.chosen r (hchosen.trans hfind)
    have hchange : ¬ ∃ r ∈ batch, c.awaitsChange r := by
      rintro ⟨r, hr, hawaits⟩
      exact find?_eq_none.mp hawait r hr hawaits
    dsimp only
    have hcopy : ∀ r ∈ (batch.filter c.isExternal).take (allowed - (nil (α := HostRequest)).length), copy r = .ok () :=
      h.reached (find?_eq_none.mp hawait)
    rw [hforM, ok_bind, takeExternal_eq hallowed hcopy, ok_bind]
    simp [ServesFirst, reached, hchange, hchosen]

/-- A new route makes no other request new. -/
theorem fresh_route_le (c : Selector) (route : ExternalRequestRoute) (next : Nat) (requests : List HostRequest) :
    (fresh { c with externalRequests := c.externalRequests ++ [route], nextExternalRequest := next } requests).length ≤
      (c.fresh requests).length := by
  refine Sublist.length_le (monotone_filter_right requests fun r hr => ?_)
  simp only [isExposed, any_append, Bool.not_or, Bool.and_eq_true] at hr
  exact hr.1

theorem exists_routes {external : List HostRequest}
    (hroom : c.fresh external ≠ [] → c.externalRequests.length + (c.fresh external).length ≤ c.maximumExternalRequests ∧
      c.nextExternalRequest + (c.fresh external).length < 2 ^ 63) :
    ∃ after, external.foldlM routeExternalRequest c = .ok after := by
  induction external generalizing c with
  | nil => exact ⟨c, rfl⟩
  | cons r external ih =>
    rw [foldlM_cons, routeExternalRequest]
    by_cases hexposed : c.isExposed r
    · have hfresh : c.fresh (r :: external) = c.fresh external := filter_cons_of_neg (by simpa using hexposed)
      rw [hfresh] at hroom
      rw [if_pos hexposed]
      exact ih hroom
    · have hfresh : c.fresh (r :: external) = r :: c.fresh external := filter_cons_of_pos (by simpa using hexposed)
      rw [hfresh] at hroom
      obtain ⟨hplaces, hids⟩ := hroom (cons_ne_nil _ _)
      rw [length_cons] at hplaces hids
      rw [if_neg hexposed, if_neg (by omega), ok_bind]
      refine ih fun _ => ?_
      have hle := fresh_route_le c ⟨c.activeFrame.scopeId, r.task, r.id, c.nextExternalRequest⟩
        (c.nextExternalRequest + 1) external
      simp only [length_append, length_singleton]
      omega

/-- What an advance call does with a batch. -/
structure Selected (c : Selector) (allowed : Nat) (batch : List HostRequest) (outcome : Outcome) : Prop where
  bounded : ∀ requests, outcome = .hostRequestBatch requests → requests.length ≤ allowed
  publishes : (∀ r ∈ batch, ¬ c.awaitsChange r) → (∃ r ∈ c.reached allowed batch, ¬ c.isExposed r) →
    ∃ requests, outcome = .hostRequestBatch requests ∧ ∃ r ∈ requests, ¬ c.isExposed r
  serves : (∀ r ∈ c.reached allowed batch, c.isExposed r) → ∀ r, c.chosen batch = some r → outcome = .serves r
  repeats : ∀ requests, outcome = .hostRequestBatch requests → (∀ r ∈ requests, c.isExposed r) →
    ∀ r ∈ batch, ¬ c.isServiceable r

theorem ServesFirst.selected {r : HostRequest} (h : ServesFirst c allowed batch) (hchosen : c.chosen batch = some r) :
    Selected c allowed batch (.serves r) := by
  refine ⟨nofun, fun hawait ⟨r', hmem, hnew⟩ => ?_, fun _ r' hr' => ?_, nofun⟩
  · rcases h.2 with ⟨r, hr, hchange⟩ | hexposed
    · exact absurd hchange (hawait r hr)
    · exact absurd (hexposed r' hmem) hnew
  · rw [hchosen] at hr'
    cases hr'
    rfl

theorem takeBatch_selected (hallowed : 1 ≤ allowed) (hne : batch ≠ []) (h : Admitted c copy allowed batch)
    (hasRunnableWork : Bool) : ∃ outcome after, c.takeBatch copy allowed hasRunnableWork batch = .ok (outcome, after) ∧
      Selected c allowed batch outcome := by
  have hdemand : demand (!batch.isEmpty) ComputerError.notRunnable = .ok () := demand_eq_ok.mpr (by simpa using hne)
  unfold takeBatch
  rw [hdemand, ok_bind, select_eq h hallowed, ok_bind]
  dsimp only
  unfold conclude
  by_cases hserves : ServesFirst c allowed batch
  · obtain ⟨r, hchosen⟩ := Option.isSome_iff_exists.mp hserves.1
    rw [if_pos hserves, hchosen]
    exact ⟨_, c, rfl, hserves.selected hchosen⟩
  rw [if_neg hserves]
  -- without a new request that fits there is none to serve
  have hnone : (∀ r ∈ c.reached allowed batch, c.isExposed r) → c.chosen batch = none := by
    intro hexposed
    by_contra hsome
    exact hserves ⟨Option.isSome_iff_ne_none.mpr hsome, .inr hexposed⟩
  by_cases hempty : c.reached allowed batch = []
  · have hidle : ∀ outcome, (∀ requests, outcome ≠ .hostRequestBatch requests) → Selected c allowed batch outcome := by
      refine fun outcome houtcome => ⟨fun _ h => absurd h (houtcome _), fun _ ⟨r, hr, _⟩ => ?_,
        fun hexposed r hr => ?_, fun _ h => absurd h (houtcome _)⟩
      · rw [hempty] at hr
        cases hr
      · cases (hnone hexposed).symm.trans hr
    rw [hempty, hnone (by rw [hempty]; nofun), isEmpty_nil, if_pos rfl]
    dsimp only
    split <;> exact ⟨_, c, rfl, hidle _ nofun⟩
  · obtain ⟨after, hroutes⟩ : ∃ after, (c.reached allowed batch).foldlM routeExternalRequest c = .ok after := by
      refine exists_routes fun hfresh => h.room (fun r hr hawaits => ?_) hfresh
      have hsome : (c.chosen batch).isSome := by
        rw [chosen, Option.isSome_or, find?_isSome.mpr ⟨r, hr, hawaits⟩, Bool.true_or]
      exact hserves ⟨hsome, .inl ⟨r, hr, hawaits⟩⟩
    rw [if_neg (by simpa using hempty), hroutes]
    refine ⟨_, after, rfl, fun _ h => ?_, fun _ hnew => ⟨_, rfl, hnew⟩, fun hexposed r hr => ?_, fun _ h hexposed => ?_⟩
    · cases h
      exact length_take_le ..
    · cases (hnone hexposed).symm.trans hr
    · cases h
      exact find?_eq_none.mp (Option.or_eq_none_iff.mp (hnone hexposed)).2

/-! ## The whole call -/

/-- **Selection.**  A call that ends before the session runs publishes nothing.  In any other, among the external
requests that fit the allowance none that is new is held back, and none that was published before holds back a
request to serve. -/
theorem requests_selected (c : Selector) (copy : HostRequest → Except ComputerError Unit) {allowed : Nat}
    (hallowed : 1 ≤ allowed) {batch : List HostRequest} (hne : batch ≠ []) (hasRunnableWork : Bool) :
    (∀ early after, c.preempt = .ok (.inl (early, after)) →
      c.advance copy allowed hasRunnableWork batch = .ok (early.outcome, after) ∧
        ∀ requests, early.outcome ≠ .hostRequestBatch requests) ∧
    ∀ console, c.preempt = .ok (.inr console) → Admitted c copy allowed batch →
      ∃ outcome after, c.advance copy allowed hasRunnableWork batch = .ok (outcome, after) ∧
        Selected c allowed batch outcome := by
  refine ⟨fun early after h => ⟨by rw [advance, h]; rfl, by cases early <;> exact nofun⟩, fun console h hadmitted => ?_⟩
  -- what the call saw to before is not what the selection reads
  obtain ⟨outcome, after, hbatch, hselected⟩ := @takeBatch_selected
    { c with pendingTermination := none, console := console } copy allowed batch hallowed hne
    ⟨hadmitted.chosen, hadmitted.reached, hadmitted.room⟩ hasRunnableWork
  refine ⟨outcome, after, ?_, hselected.bounded, hselected.publishes, hselected.serves, hselected.repeats⟩
  rw [advance, h]
  exact hbatch

/-- A request of an interface that only the host knows, with a route for it or not. -/
def call (id : Nat) : HostRequest := ⟨1, id, .other, 0⟩

/-- A line that a task reads. -/
def readLine : HostRequest := ⟨1, 6, .stdio, 0⟩

/-- The host has not answered request 4, and one more route fits. -/
def waiting : Selector :=
  { activeFrame := ⟨0, none, none, none⟩, parents := [], pendingTermination := none, pendingCompilation := none
    redstoneWaiters := [], activeTerminalEvent := none
    console := ⟨idle 80, (TerminalDevice.withConfig 8).toOption.get rfl, []⟩
    externalRequests := [⟨0, 1, 4, 9⟩], nextExternalRequest := 10, maximumExternalRequests := 2 }

theorem requests_selected_two :
    (∃ outcome after, waiting.advance (fun _ => .ok ()) 2 false [call 4, call 5] = .ok (outcome, after) ∧
      Selected waiting 2 [call 4, call 5] outcome) ∧
    ∃ outcome after, { waiting with maximumExternalRequests := 1 }.advance (fun _ => .ok ()) 1 false [call 4, readLine] =
        .ok (outcome, after) ∧
      Selected { waiting with maximumExternalRequests := 1 } 1 [call 4, readLine] outcome :=
  ⟨(requests_selected waiting _ (by decide) (by decide) false).2 _ rfl
      ⟨fun _ _ => rfl, fun _ _ _ => rfl, fun _ _ => by decide⟩,
    (requests_selected { waiting with maximumExternalRequests := 1 } _ (by decide) (by decide) false).2 _ rfl
      ⟨fun _ _ => rfl, fun _ _ _ => rfl, fun _ h => absurd rfl h⟩⟩

/-- An unanswered request uses up the allowance, and the new one behind it is not published. -/
theorem exposed_hides_fresh :
    waiting.preempt = .ok (.inr waiting.console) ∧
      waiting.advance (fun _ => .ok ()) 1 false [call 4, call 5] = .ok (.hostRequestBatch [call 4], waiting) ∧
      (∀ r ∈ [call 4, call 5], ¬ waiting.awaitsChange r) ∧ waiting.isExternal (call 5) ∧
      ¬ waiting.isExposed (call 5) := ⟨rfl, rfl, by decide, by decide, by decide⟩

end Selector

end Compukter.Computer
