/-
Class initializers.

A class is initialized when it is first used.  Its superclass comes first; then a frame of its initializer, if
it has one, is put on the stack of the running task, and the instruction is tried again when that frame is gone.
A use of a class whose initializer is running goes on, whichever task runs it.  A call, a spawn or the entry of the
program may name an initializer like any other function, and then it is entered once more.

`Inv` ties the states of the types to the frames on all stacks.  As long as no instruction names an initializer
(`Indirect`), each is entered once (`Counted`).  As long as no task is left in the middle of one, and none fails under
an initialized subclass (`Permits`), all that run are on the running stack, and superclasses come first (`Ordered`).
-/
import Compukter.Verify.Order
import Mathlib.Data.List.Perm.Basic

open Function List

namespace Compukter.Initialization

/-! ## The machine -/

inductive TypeInitializationState where
  | uninitialized | initializing | initialized | failed
  deriving DecidableEq

namespace TypeInitializationState

def Active (s : TypeInitializationState) : Prop := s = initializing ∨ s = initialized

def stage : TypeInitializationState → Nat
  | uninitialized => 0
  | initializing => 1
  | initialized | failed => 2

/-- Forward only, and never from initialized to failed or back. -/
def Moves (s s' : TypeInitializationState) : Prop := s = s' ∨ s.stage < s'.stage

theorem Moves.trans {s s' s'' : TypeInitializationState} (h : Moves s s') (h' : Moves s' s'') : Moves s s'' := by
  rcases h with rfl | h
  · exact h'
  · rcases h' with rfl | h'
    · exact .inr h
    · exact .inr (Nat.lt_trans h h')

end TypeInitializationState

open TypeInitializationState

/-- What the image says of its types and functions.  `inherits` are the edges that the verifier collects from the
types and searches for cycles; it also demands that the type owns its initializer. -/
structure TypeTable where
  typeCount : Nat
  isClass : Nat → Bool
  (typeSuperclass typeInitializer : Nat → Option Nat)
  functionOwner : Nat → Nat
  (functionCount maximumCallDepth : Nat)
  inherits : List (List Nat)
  accepted : ∃ a : DecodedArtifact, a.rejectTypeCycles inherits = .ok ()
  superclass_edge : ∀ {ty s}, typeSuperclass ty = some s → Dfs.Edge inherits ty s
  superclass_class : ∀ {ty s}, typeSuperclass ty = some s → isClass ty
  initializer_owner : ∀ {ty function}, typeInitializer ty = some function → functionOwner function = ty

namespace TypeTable

/-- The position of a type in the order of the search, where superclasses come first. -/
def rank (t : TypeTable) (ty : Nat) : Nat := ((dfs t.inherits).toOption.getD []).idxOf ty

theorem superclass_rank (t : TypeTable) {ty s : Nat} (h : t.typeSuperclass ty = some s) : t.rank s < t.rank ty := by
  obtain ⟨a, haccepted⟩ := t.accepted
  have hedge := t.superclass_edge h
  unfold rank
  unfold DecodedArtifact.rejectTypeCycles at haccepted
  cases hdfs : dfs t.inherits with
  | error stop =>
    rw [hdfs] at haccepted
    rcases stop with _ | _ | _ <;> cases haccepted
  | ok =>
    obtain ⟨hpost, hmem, -⟩ := (Dfs.dfs_spec t.inherits).of_ok hdfs
    have hlt : ty < t.inherits.length := by
      by_contra hge
      simp [Dfs.Edge, edgesOf, getElem?_eq_none (not_lt.mp hge)] at hedge
    obtain ⟨front, back, rfl⟩ := append_of_mem ((hmem ty).mpr hlt)
    have hs := hpost.before _ _ _ rfl s hedge
    have hty : ty ∉ front := fun hin => disjoint_of_nodup_append hpost.nodup hin mem_cons_self
    show (front ++ ty :: back).idxOf s < (front ++ ty :: back).idxOf ty
    rw [idxOf_append_of_mem hs, idxOf_append_of_notMem hty]
    exact Nat.lt_of_lt_of_le (idxOf_lt_length_of_mem hs) (Nat.le_add_right _ _)

/-- The type whose initializer this function is. -/
def entering (t : TypeTable) (function : Nat) : List Nat :=
  if t.typeInitializer (t.functionOwner function) = some function then [t.functionOwner function] else []

theorem entering_eq (t : TypeTable) {ty function : Nat} (h : t.typeInitializer ty = some function) :
    t.entering function = [ty] := by
  rw [entering, t.initializer_owner h, if_pos h]

end TypeTable

structure Frame where
  function : Nat
  initializer : Option Nat
  deriving DecidableEq

/-- Stacks have their top first; `entered` collects the types whose initializer was entered, by whatever
instruction. -/
structure Machine where
  typeInitialization : Nat → TypeInitializationState
  frames : List Frame
  taskFrames : List (List Frame)
  terminal : Bool
  entered : List Nat

/-- The answers of `ensureTypeInitialized`: go on, run an initializer first, or end. -/
inductive Ensured where
  | proceeds | entered | ends
  deriving DecidableEq

variable (t : TypeTable)

def start (entry : Nat) : Machine where
  typeInitialization ty := if t.isClass ty then .uninitialized else .initialized
  frames := [⟨entry, none⟩]
  taskFrames := []
  terminal := false
  entered := t.entering entry

namespace Machine

def setType (m : Machine) (ty : Nat) (s : TypeInitializationState) : Machine :=
  { m with typeInitialization := update m.typeInitialization ty s }

-- no frame of a machine that has ended runs again
def fault (m : Machine) : Machine :=
  { m with
    typeInitialization ty := if m.typeInitialization ty = .initializing then .failed else m.typeInitialization ty
    frames := [], taskFrames := [], terminal := true }

/-- A new frame on the running stack. -/
def push (function : Nat) (initializer : Option Nat) (m : Machine) : Machine :=
  { m with frames := ⟨function, initializer⟩ :: m.frames, entered := t.entering function ++ m.entered }

/-- The second half of `ensure_type_initialized`, behind the superclass. -/
def enter (fits : Bool) (ty : Nat) (m : Machine) : Ensured × Machine :=
  match t.typeInitializer ty with
  | none => (.proceeds, m.setType ty .initialized)
  | some function =>
    if t.maximumCallDepth ≤ m.frames.length then (.ends, { m.setType ty .failed with terminal := true })
    else if function < t.functionCount ∧ fits then
      (.entered, (m.setType ty .initializing).push t function (some ty))
    else (.ends, m.fault)

/-- The recursion on the superclass has fuel; `fits` says whether the arena has room for a frame. -/
def ensureType (fits : Bool) : Nat → Nat → Machine → Ensured × Machine
  | 0, _, m => (.ends, m.fault)
  | fuel + 1, ty, m =>
    if ty < t.typeCount then
      match m.typeInitialization ty with
      | .initialized | .initializing => (.proceeds, m)
      | .failed => (.ends, m.fault)
      | .uninitialized =>
        match t.typeSuperclass ty with
        | none => m.enter t fits ty
        | some superclass =>
          match ensureType fits fuel superclass m with
          | (.proceeds, m) => m.enter t fits ty
          | result => result
    else (.ends, m.fault)

def ensureTypeInitialized (fits : Bool) (ty : Nat) (m : Machine) : Ensured × Machine :=
  m.ensureType t fits (t.rank ty + 1) ty

end Machine

/-- The steps that matter to initialization: a use of a class, also by a direct call of one of its static
functions; a call of any kind, after that; and so on.  A frame is left by a return or by an exception that
unwinds it. -/
inductive Event where
  | access (ty : Nat) (fits : Bool)
  | call (function : Nat)
  | leave (unwinding : Bool)
  | spawn (function : Nat)
  | switch (task : Nat)
  | fault

def next (m : Machine) (e : Event) : Machine :=
  if m.terminal then m else
    match e with
    | .access ty fits => (m.ensureTypeInitialized t fits ty).2
    | .call function => m.push t function none
    | .leave unwinding =>
      match m.frames with
      | [] => m
      | ⟨_, none⟩ :: frames => { m with frames }
      | ⟨_, some ty⟩ :: frames => { m.setType ty (if unwinding then .failed else .initialized) with frames }
    | .spawn function =>
      { m with taskFrames := [⟨function, none⟩] :: m.taskFrames, entered := t.entering function ++ m.entered }
    | .switch task =>
      match m.taskFrames[task]? with
      | none => m
      | some frames => { m with frames, taskFrames := m.frames :: m.taskFrames.eraseIdx task }
    | .fault => m.fault

def run (entry : Nat) (events : List Event) : Machine := events.foldl (next t) (start t entry)

/-! ## What holds in every run -/

variable {t} {m m' : Machine} {ty : Nat} {fits : Bool}

/-- The types whose initializer has a frame on some stack. -/
def Machine.running (m : Machine) : List Nat := (m.frames ++ m.taskFrames.flatten).filterMap (·.initializer)

structure Inv (m : Machine) : Prop where
  running_iff : ∀ ty, ty ∈ m.running ↔ m.typeInitialization ty = .initializing
  running_nodup : m.running.Nodup

/-- No initializer was entered twice, and none while its type waits for it. -/
structure Counted (m : Machine) : Prop where
  nodup : m.entered.Nodup
  begun : ∀ ty ∈ m.entered, m.typeInitialization ty ≠ .uninitialized

/-- Superclasses come first. -/
def Upward (t : TypeTable) (m : Machine) : Prop :=
  ∀ ty s, t.typeSuperclass ty = some s → (m.typeInitialization ty).Active → (m.typeInitialization s).Active

/-- What a use of `ty` does, by its answer. -/
structure Ensures (t : TypeTable) (ty : Nat) (m : Machine) (r : Ensured × Machine) : Prop where
  inv : Inv r.2
  counted : Counted m → Counted r.2
  moves : ∀ u, Moves (m.typeInitialization u) (r.2.typeInitialization u)
  above : ∀ u, t.rank ty < t.rank u → r.1 ≠ .ends → r.2.typeInitialization u = m.typeInitialization u
  taskFrames : r.2.taskFrames ⊆ m.taskFrames
  ends : r.1 = .ends → r.2.terminal
  upward : r.1 ≠ .ends → Upward t m → Upward t r.2
  proceeds : r.1 = .proceeds → r.2.frames = m.frames ∧ (r.2.typeInitialization ty).Active
  entered : r.1 = .entered → ∃ u function, r.2.frames = ⟨function, some u⟩ :: m.frames ∧
    ∀ s, t.typeSuperclass u = some s → (r.2.typeInitialization s).Active

open Machine

theorem Inv.fault (m : Machine) : Inv m.fault where
  running_iff u := by
    simp only [running, Machine.fault, flatten_nil, append_nil, filterMap_nil, not_mem_nil,
      false_iff]
    split <;> simp_all
  running_nodup := nodup_nil

theorem moves_fault (m : Machine) (u : Nat) : Moves (m.typeInitialization u) (m.fault.typeInitialization u) := by
  simp only [Machine.fault]
  split
  · rename_i h
    exact .inr (by rw [h]; decide)
  · exact .inl rfl

/-- The states only move on, so what was counted stays counted. -/
theorem Counted.moves (h : Counted m) (hmoves : ∀ u, Moves (m.typeInitialization u) (m'.typeInitialization u))
    (hentered : m'.entered = m.entered) : Counted m' := by
  refine ⟨hentered ▸ h.nodup, fun u hu hwaits => ?_⟩
  rw [hentered] at hu
  rcases hmoves u with heq | hlt
  · exact h.begun u hu (heq.trans hwaits)
  · rw [hwaits] at hlt
    exact absurd hlt (Nat.not_lt_zero _)

theorem Ensures.fault : Ensures t ty m (.ends, m.fault) where
  inv := .fault m
  counted h := h.moves (moves_fault m) rfl
  moves := moves_fault m
  above _ _ h := absurd rfl h
  taskFrames := nil_subset _
  ends _ := rfl
  upward h := absurd rfl h
  proceeds := nofun
  entered := nofun

variable {s : TypeInitializationState}

theorem Inv.set (hm : Inv m) (htypes : m'.typeInitialization = update m.typeInitialization ty s)
    (hself : ty ∈ m'.running ↔ s = .initializing) (hrun : ∀ u ≠ ty, (u ∈ m'.running ↔ u ∈ m.running))
    (hnodup : m'.running.Nodup) : Inv m' := by
  refine ⟨fun u => ?_, hnodup⟩
  rw [htypes]
  by_cases hne : u = ty
  · rwa [hne, update_self]
  · rw [update_of_ne hne, hrun u hne, hm.running_iff]

theorem moves_set (h : Moves (m.typeInitialization ty) s) (u : Nat) :
    Moves (m.typeInitialization u) (update m.typeInitialization ty s u) := by
  by_cases hne : u = ty
  · rw [hne, update_self]
    exact h
  · rw [update_of_ne hne]
    exact .inl rfl

theorem Upward.set (h : Upward t m) (hs : s.Active)
    (hsuper : ∀ s, t.typeSuperclass ty = some s → (m.typeInitialization s).Active) : Upward t (m.setType ty s) := by
  intro u v hv hu
  simp only [setType, update_apply] at hu ⊢
  split
  · exact hs
  · split at hu
    · rename_i hne hty
      exact hsuper v (hty ▸ hv)
    · exact h u v hv hu

theorem Ensures.enter (hm : Inv m) (hty : m.typeInitialization ty = .uninitialized)
    (hsuper : ∀ s, t.typeSuperclass ty = some s → (m.typeInitialization s).Active) :
    Ensures t ty m (m.enter t fits ty) := by
  have habove {s : TypeInitializationState} (u : Nat) (hu : t.rank ty < t.rank u) :
      update m.typeInitialization ty s u = m.typeInitialization u :=
    update_of_ne (fun h => by simp [h] at hu) ..
  have hmoves {s : TypeInitializationState} (hs : 0 < s.stage) :
      ∀ u, Moves (m.typeInitialization u) (update m.typeInitialization ty s u) :=
    moves_set (by rw [hty]; exact .inr hs)
  have hrun : ty ∉ m.running := fun hin => by simp [(hm.running_iff ty).mp hin] at hty
  have hkeep {s : TypeInitializationState} {b : Bool} (hs : s ≠ .initializing) :
      Inv { m.setType ty s with terminal := b } :=
    hm.set rfl (iff_of_false hrun hs) (fun _ _ => .rfl) hm.running_nodup
  unfold Machine.enter
  split
  · exact ⟨hkeep (by simp), fun h => h.moves (hmoves (by decide)) rfl, hmoves (by decide),
      fun u hu _ => habove u hu, fun _ h => h, nofun, fun _ h => h.set (.inr rfl) hsuper, fun _ => ⟨rfl, by simp [setType, Active]⟩, nofun⟩
  · split
    · exact ⟨hkeep (by simp), fun h => h.moves (hmoves (by decide)) rfl, hmoves (by decide),
        fun _ _ h => absurd rfl h, fun _ h => h, fun _ => rfl, fun h => absurd rfl h, nofun, nofun⟩
    · split
      · refine ⟨hm.set rfl (by simp [running, push]) (fun u hne => ?_)
          (nodup_cons.mpr ⟨hrun, hm.running_nodup⟩), fun h => ?_, hmoves (by decide),
          fun u hu _ => habove u hu, fun _ h => h, nofun, fun _ h => h.set (.inl rfl) hsuper, nofun, fun _ => ⟨ty, _, rfl, fun s hs => ?_⟩⟩
        · exact mem_cons.trans (or_iff_right hne)
        · rename_i hinit _ _
          refine ⟨?_, fun u hu => ?_⟩
          · rw [push, t.entering_eq hinit]
            exact nodup_cons.mpr ⟨fun hin => h.begun ty hin hty, h.nodup⟩
          · rw [push, t.entering_eq hinit] at hu
            show update m.typeInitialization ty _ u ≠ _
            rw [update_apply]
            split
            · simp
            · rename_i hne
              exact h.begun u ((mem_cons.mp hu).resolve_left hne)
        · have hne : s ≠ ty := fun h => by simpa [h] using t.superclass_rank hs
          simpa only [setType, push, update_of_ne hne] using hsuper s hs
      · exact .fault

variable {r : Ensured × Machine}

theorem Ensures.trans {s : Nat} {m₁ : Machine} (h : Ensures t s m (.proceeds, m₁))
    (h' : Ensures t ty m₁ r) (hs : t.rank s < t.rank ty) : Ensures t ty m r where
  inv := h'.inv
  counted hm := h'.counted (h.counted hm)
  moves u := (h.moves u).trans (h'.moves u)
  above u hu hr := (h'.above u hu hr).trans (h.above u (Nat.lt_trans hs hu) nofun)
  taskFrames := List.Subset.trans h'.taskFrames h.taskFrames
  ends := h'.ends
  upward hr hm := h'.upward hr (h.upward nofun hm)
  proceeds hr := (h.proceeds rfl).1 ▸ h'.proceeds hr
  entered hr := (h.proceeds rfl).1 ▸ h'.entered hr

theorem Ensures.mono {s : Nat} (h : Ensures t s m r) (hr : r.1 ≠ .proceeds)
    (hs : t.rank s < t.rank ty) : Ensures t ty m r :=
  { h with above := fun u hu => h.above u (Nat.lt_trans hs hu), proceeds := fun h => absurd h hr }

theorem Inv.perm (hm : Inv m) (hrun : m'.running.Perm m.running)
    (htypes : m'.typeInitialization = m.typeInitialization) : Inv m' where
  running_iff u := by rw [hrun.mem_iff, htypes, hm.running_iff]
  running_nodup := hrun.nodup_iff.mpr hm.running_nodup

variable {frames : List Frame}

/-- Popping the frame of an initializer that runs. -/
theorem Inv.pop {f : Nat} {s : TypeInitializationState} (hm : Inv m)
    (hframes : m.frames = ⟨f, some ty⟩ :: frames) (hs : s = .failed ∨ s = .initialized) :
    Inv { m.setType ty s with frames } := by
  have hrun : m.running = ty :: running { m.setType ty s with frames } := by
    simp [running, hframes, setType]
  obtain ⟨hnot, hnodup⟩ := nodup_cons.mp (hrun ▸ hm.running_nodup)
  refine hm.set rfl (iff_of_false hnot ?_) (fun u hne => ?_) hnodup
  · rcases hs with rfl | rfl <;> simp
  · rw [hrun]
    exact (mem_cons.trans (or_iff_right hne)).symm

/-- No task is left in the middle of an initializer, and none fails under a subclass that was begun. -/
def Permits (t : TypeTable) (m : Machine) : Event → Prop
  | .switch _ => ∀ frame ∈ m.frames, frame.initializer = none
  | .leave true => ∀ frame ∈ m.frames.head?, ∀ ty ∈ frame.initializer, ∀ u, t.typeSuperclass u = some ty →
      ¬ (m.typeInitialization u).Active
  | _ => True

/-- Every step of a run is permitted in the state it is taken in. -/
def Permitted (t : TypeTable) : Machine → List Event → Prop
  | _, [] => True
  | m, e :: events => Permits t m e ∧ Permitted t (next t m e) events

structure Ordered (t : TypeTable) (m : Machine) : Prop where
  saved : ∀ frames ∈ m.taskFrames, ∀ frame ∈ frames, frame.initializer = none
  upward : m.terminal = false → Upward t m

/-- A class that fails has no subclass that was begun. -/
theorem Upward.fail (h : Upward t m) (hnone : ∀ u, t.typeSuperclass u = some ty → ¬ (m.typeInitialization u).Active) :
    Upward t (m.setType ty .failed) := by
  intro u v hv hu
  have hne : u ≠ ty := by
    rintro rfl
    simp [setType, Active] at hu
  replace hu : (m.typeInitialization u).Active := by simpa [setType, hne] using hu
  have hne' : v ≠ ty := by
    rintro rfl
    exact hnone u hv hu
  simpa [setType, hne'] using h u v hv hu

/-- Initialized, or being initialized by the running task. -/
def Settled (m : Machine) (ty : Nat) : Prop :=
  m.typeInitialization ty = .initialized ∨ ∃ frame ∈ m.frames, frame.initializer = some ty

instance : Decidable (Settled m ty) := inferInstanceAs (Decidable (_ ∨ _))

end Compukter.Initialization
