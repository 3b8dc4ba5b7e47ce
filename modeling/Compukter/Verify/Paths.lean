/-
Dataflow against paths.

`Reached c successors handlers b A` says that some path from the entry of the function arrives at block `b`
having assigned exactly the registers `A`: the parameters, what the blocks on the path wrote, and the exception
registers of the handlers it went through.  A path leaves a block at its end, or just before an instruction
that may throw.

THE CRUX is that the worklist computes the meet over all these paths: a register missing from a state is missing
on some path to the block (`FlowInv.sound`), and a block that is not queued has passed its checks with its present
state, and its successors have no more than it passes on (`Settled`).
-/
import Compukter.Verify.Dataflow

namespace Compukter

open BitWords Fallible Script Site
open List hiding get

/-! ## Paths -/

namespace Site

variable (c : Site)

/-- The instructions of a block of the function. -/
def codeAt (localBlock : Nat) : List Instruction :=
  match (c.artifact.moduleAt c.moduleId).code[c.function.firstBlock + localBlock]? with
  | some code => code.instructions
  | none => []

/-- The registers that instructions write. -/
def assigned (instructions : List Instruction) : List Nat := instructions.flatMap Instruction.writes

def unitResult : Bool := c.result.kind = 0

end Site

section Paths

variable (c : Site) (successors : List (List Nat)) (handlers : List Handler)

inductive Reached : Nat → (Nat → Prop) → Prop
  | entry : Reached 0 (· < c.function.parameterCount)
  | next {b : Nat} {A : Nat → Prop} {targets : List Nat} {t : Nat} : Reached b A →
      successors[b]? = some targets → t ∈ targets →
      Reached t (fun r => A r ∨ r ∈ assigned (c.codeAt b))
  | thrown {b : Nat} {A : Nat → Prop} {pre post : List Instruction} {i : Instruction} {h : Handler} :
      Reached b A → c.codeAt b = pre ++ i :: post → mayThrow i = true → h ∈ handlers →
      Covers (c.function.firstBlock + b) h = true →
      Reached (h.handlerBlock - c.function.firstBlock)
        (fun r => A r ∨ r ∈ assigned pre ∨ r = h.exceptionRegister)

/-- Some path reads a register that it has not assigned. -/
def UninitializedRead : Prop :=
  ∃ b A pre i post r, Reached c successors handlers b A ∧ c.codeAt b = pre ++ i :: post ∧
    r ∈ i.reads c.unitResult ∧ ¬ (A r ∨ r ∈ assigned pre)

/-- Some path arrives at the block. -/
def OnPath (b : Nat) : Prop := ∃ A, Reached c successors handlers b A

/-- What else is checked of a block: its record and cost, the place of its allocation, and the
operands of each instruction. -/
structure Passes (b : Nat) : Prop where
  record : ∀ block code, (c.artifact.moduleAt c.moduleId).blocks[c.function.firstBlock + b]? = some block →
    (c.artifact.moduleAt c.moduleId).code[c.function.firstBlock + b]? = some code →
    c.verifyBlockRecord block code = .ok ()
  allocation : ∀ pre i post, c.codeAt b = pre ++ i :: post → i.isAllocation = true → pre = []
  instructions : ∀ i ∈ c.codeAt b, (c.verifyInstruction i).result = .ok ()

/-- What the earlier passes have established for a function when its dataflow is analysed. -/
structure Prepared : Prop where
  registers : c.function.registerCount = c.function.values.length
  parameters : c.function.parameterCount ≤ c.function.registerCount
  nonempty : 0 < successors.length
  records : ∀ b, b < successors.length → ∃ block code,
    (c.artifact.moduleAt c.moduleId).blocks[c.function.firstBlock + b]? = some block ∧
    (c.artifact.moduleAt c.moduleId).code[c.function.firstBlock + b]? = some code
  targets : ∀ (b : Nat) (targets : List Nat) (t : Nat), successors[b]? = some targets → t ∈ targets → t < successors.length
  handlers : ∀ h ∈ handlers, h.handlerBlock - c.function.firstBlock < successors.length ∧
    h.exceptionRegister < c.function.values.length

end Paths

/-- Parameters are assigned on every path. -/
theorem Reached.parameter {c : Site} {successors : List (List Nat)} {handlers : List Handler}
    {b : Nat} {A : Nat → Prop} (h : Reached c successors handlers b A) {r : Nat}
    (hr : r < c.function.parameterCount) : A r := by
  induction h with
  | entry => exact hr
  | next _ _ _ ih => exact .inl ih
  | thrown _ _ _ _ _ ih => exact .inl ih

/-! ## Register sets -/

namespace Site

variable {state : Words}

theorem setRegister_ends {words r : Nat} (hlen : state.length = words) (hr : r < 64 * words) (E : Stop → Prop) :
    Ends (setRegister state r)
      (fun state' => state'.length = words ∧ ∀ q, get state' q = (get state q || decide (r = q))) E := by
  have hlt : r < 64 * state.length := by omega
  obtain ⟨state', hset⟩ := exists_set hlt
  unfold setRegister
  rw [hset]
  exact ⟨(length_set hset).trans hlen, get_set hset⟩

theorem setAll_ends {words : Nat} {rs : List Nat} (hlen : state.length = words)
    (hrs : ∀ r ∈ rs, r < 64 * words) (E : Stop → Prop) : Ends (setAll state rs)
      (fun state' => state'.length = words ∧ ∀ q, get state' q = (get state q || decide (q ∈ rs))) E := by
  induction rs generalizing state with
  | nil => exact ⟨hlen, fun q => by simp⟩
  | cons r _ ih =>
    refine (setRegister_ends hlen (hrs r mem_cons_self) E).bind fun state₁ ⟨hlen₁, hget₁⟩ => ?_
    refine (ih hlen₁ fun q hq => hrs q (mem_cons_of_mem _ hq)).imp (fun state₂ h => ?_) fun _ h => h
    refine ⟨h.1, fun q => ?_⟩
    rw [h.2 q, hget₁ q, Bool.or_assoc]
    congr 1
    rw [← Bool.decide_or]
    exact decide_eq_decide.mpr (by rw [mem_cons, eq_comm])

/-! ## One instruction -/

theorem perform_reads {σ ε : Type} (get : σ → Nat → Bool) (set : σ → Nat → Except ε σ) (missing : ε)
    (reads : List Nat) (l : List Access) (s : σ) : perform get set missing (reads.map .read ++ l) s =
      if reads.all (get s) then perform get set missing l s else .error missing := by
  induction reads with
  | nil => rfl
  | cons r reads ih =>
    show (if get s r then perform get set missing (reads.map .read ++ l) s else .error missing) = _
    rw [ih, all_cons]
    cases get s r <;> rfl

theorem perform_writes (writes : List Nat) (s : Words) :
    perform get setRegister Stop.uninitialized (writes.map .write) s = setAll s writes := by
  induction writes generalizing s with
  | nil => rfl
  | cons w writes ih =>
    show (setRegister s w >>= fun s' => perform get setRegister _ (writes.map .write) s') = _
    simp only [ih]
    rfl

/-- Accesses in range only fail by a missing register. -/
theorem perform_ends {l : List Access} {s : Words} {words : Nat} (hlen : s.length = words)
    (hrange : ∀ r, .write r ∈ l → r < 64 * words) :
    Ends (perform get setRegister Stop.uninitialized l s) (fun _ => True)
      (fun e => e = .uninitialized ∧ ∃ r, .read r ∈ l ∧ get s r = false) := by
  induction l generalizing s with
  | nil => trivial
  | cons a l ih =>
    cases a with
    | read r =>
      show Ends (if get s r then perform get setRegister _ l s else .error .uninitialized) _ _
      cases hr : get s r with
      | false => exact ⟨rfl, r, mem_cons_self, hr⟩
      | true =>
        refine (ih hlen fun q hq => hrange q (mem_cons_of_mem _ hq)).imp (fun _ h => h) ?_
        rintro e ⟨he, q, hq, hget⟩
        exact ⟨he, q, mem_cons_of_mem _ hq, hget⟩
    | write r =>
      refine (setRegister_ends hlen (hrange r mem_cons_self) _).bind fun s' ⟨hlen', hget'⟩ => ?_
      refine (ih hlen' fun q hq => hrange q (mem_cons_of_mem _ hq)).imp (fun _ h => h) ?_
      rintro e ⟨he, q, hq, hget⟩
      rw [hget' q, Bool.or_eq_false_iff] at hget
      exact ⟨he, q, mem_cons_of_mem _ hq, hget.1⟩

variable {c : Site}

theorem stepInstruction_eq (i : Instruction) (state : Words) : c.stepInstruction i state =
      (perform get setRegister .uninitialized (c.verifyInstruction i).accesses state >>= fun state' =>
        match (c.verifyInstruction i).result with
        | .ok _ => .ok state'
        | .error r => .error (.rejected r)) := by
  unfold stepInstruction Script.run
  dsimp only
  cases perform get setRegister .uninitialized (c.verifyInstruction i).accesses state with
  | error => rfl
  | ok => cases (c.verifyInstruction i).result <;> rfl

theorem stepInstruction_ends {i : Instruction} {words : Nat}
    (hlen : state.length = words) (hvalues : c.function.values.length ≤ 64 * words) : Ends (c.stepInstruction i state)
      (fun state' => state'.length = words ∧ (c.verifyInstruction i).result = .ok () ∧
        (∀ r ∈ i.reads c.unitResult, get state r = true) ∧ ∀ q, get state' q = (get state q || decide (q ∈ i.writes)))
      (fun e => (e = .uninitialized ∧ ∃ r ∈ i.reads c.unitResult, get state r = false) ∨
        ∃ r, e = .rejected r ∧ (c.verifyInstruction i).result ≠ .ok ()) := by
  have hfollows := verifyInstruction_follows (c := c) i
  have hwrite : ∀ r, .write r ∈ (c.verifyInstruction i).accesses → r < 64 * words := fun r hr =>
    Nat.lt_of_lt_of_le (hfollows.within _ hr) hvalues
  rw [stepInstruction_eq]
  cases hresult : (c.verifyInstruction i).result with
  | ok u =>
    have hall : (c.verifyInstruction i).accesses =
        (i.reads c.unitResult).map .read ++ i.writes.map .write := hfollows.whole u hresult
    rw [hall] at hwrite ⊢
    rw [perform_reads, perform_writes]
    split
    case isTrue hreads =>
      refine (setAll_ends hlen (fun r hr => hwrite r ?_) _).bind fun state' ⟨hlen', hget⟩ =>
        ⟨hlen', rfl, all_eq_true.mp hreads, hget⟩
      exact mem_append_right _ (mem_map.mpr ⟨r, hr, rfl⟩)
    case isFalse hreads =>
      refine Or.inl ⟨rfl, ?_⟩
      simpa using hreads
  | error r =>
    refine ((perform_ends hlen hwrite).imp (fun _ h => h) ?_).bind
      fun state' _ => Or.inr ⟨r, rfl, fun h => by cases h⟩
    rintro e ⟨rfl, q, hq, hget⟩
    refine Or.inl ⟨rfl, q, ?_, hget⟩
    rcases mem_append.mp (hfollows.start.subset hq) with hmem | hmem
    · obtain ⟨q', hq', heq⟩ := mem_map.mp hmem
      cases heq
      exact hq'
    · obtain ⟨_, _, heq⟩ := mem_map.mp hmem
      cases heq

end Site

/-! ## Flows -/

section Flows

variable {c : Site} {successors : List (List Nat)} {handlers : List Handler}

variable (c successors handlers) in
structure FlowInv (f : Flow) : Prop where
  sized : f.Sized c.wordCount
  queued : f.Queued
  length : f.states.length = successors.length
  sound : ∀ b s r, f.stateAt b = some s → get s r = false → ∃ A, Reached c successors handlers b A ∧ ¬ A r

/-- The node has a state with registers of `B` only. -/
def Bounded (f : Flow) (node : Nat) (B : Nat → Prop) : Prop :=
  ∃ s, f.stateAt node = some s ∧ ∀ r, get s r = true → B r

theorem Bounded.shrinks {f f' : Flow} {node : Nat} {B : Nat → Prop} (h : Bounded f node B)
    (hs : f.Shrinks f') : Bounded f' node B := by
  obtain ⟨s, hat, hB⟩ := h
  obtain ⟨s', hat', hsub, -⟩ := hs.state node s hat
  exact ⟨s', hat', fun r hr => hB r (hsub r hr)⟩

variable (c successors handlers) in
/-- What a part of the analysis does to a flow. -/
structure Progress (f f' : Flow) : Prop where
  inv : FlowInv c successors handlers f'
  shrinks : f.Shrinks f'
  measure : f'.measure c.wordCount ≤ f.measure c.wordCount

variable {f : Flow}

theorem Progress.refl (hf : FlowInv c successors handlers f) :
    Progress c successors handlers f f := ⟨hf, .refl f, Nat.le_refl _⟩

theorem Progress.trans {f f' f'' : Flow} (h : Progress c successors handlers f f')
    (h' : Progress c successors handlers f' f'') : Progress c successors handlers f f'' :=
  ⟨h'.inv, h.shrinks.trans h'.shrinks, Nat.le_trans h'.measure h.measure⟩

open Compukter.Flow

theorem mergeState_ends {t : Nat} {incoming : Words} (hf : FlowInv c successors handlers f) (ht : t < successors.length)
    (hlen : incoming.length = c.wordCount)
    (hsound : ∀ r, get incoming r = false → ∃ A, Reached c successors handlers t A ∧ ¬ A r) (E : Stop → Prop) :
    Ends (mergeState f t incoming)
      (fun f' => Progress c successors handlers f f' ∧ Bounded f' t (get incoming · = true)) E := by
  obtain ⟨f', hmerge⟩ := exists_merge incoming (hf.length ▸ ht)
  unfold mergeState
  rw [hmerge]
  have hspec := merge_spec hf.sized hlen hmerge
  obtain ⟨s', hat, hsub, hmissing⟩ := hspec.target
  refine ⟨⟨⟨hspec.sized, hspec.queued hf.queued, hspec.shrinks.length.trans hf.length, ?_⟩,
    hspec.shrinks, merge_measure hf.sized hlen hmerge⟩, s', hat, hsub⟩
  intro b s r hb hr
  by_cases hbt : b = t
  · subst hbt
    rw [hat] at hb
    cases hb
    rcases hmissing r hr with hr | ⟨s, hs, hr⟩
    · exact hsound r hr
    · exact hf.sound b s r hs hr
  · rw [hspec.other b hbt] at hb
    exact hf.sound b s r hb hr

theorem mergeAll_ends {targets : List Nat} {state : Words}
    (hf : FlowInv c successors handlers f) (hlen : state.length = c.wordCount)
    (ht : ∀ t ∈ targets, t < successors.length ∧
      ∀ r, get state r = false → ∃ A, Reached c successors handlers t A ∧ ¬ A r) (E : Stop → Prop) :
    Ends (mergeAll state targets f)
      (fun f' => Progress c successors handlers f f' ∧ ∀ t ∈ targets, Bounded f' t (get state · = true)) E := by
  induction targets generalizing f with
  | nil => exact ⟨.refl hf, fun t h => by cases h⟩
  | cons t _ ih =>
    obtain ⟨hlt, hsound⟩ := ht t mem_cons_self
    refine (mergeState_ends hf hlt hlen hsound E).bind fun f₁ ⟨hp₁, hb₁⟩ => ?_
    refine (ih hp₁.inv fun q hq => ht q (mem_cons_of_mem _ hq)).imp (fun f₂ ⟨hp₂, hb₂⟩ => ?_) fun _ h => h
    refine ⟨hp₁.trans hp₂, fun q hq => ?_⟩
    rcases mem_cons.mp hq with rfl | hq
    · exact hb₁.shrinks hp₂.shrinks
    · exact hb₂ q hq

/-! ## Throwing -/

/-- The registers that a handler can count on when block state `s` has run `pre`. -/
def Thrown (c : Site) (s : Words) (pre : List Instruction) (h : Handler) (r : Nat) : Prop :=
  (get s r = true ∨ r ∈ assigned pre) ∨ r < c.function.parameterCount ∨ r = h.exceptionRegister

/-- A state inside a block: that of the block, and what the instructions before have written. -/
structure Inside (c : Site) (s : Words) (pre : List Instruction) (state : Words) : Prop where
  length : state.length = c.wordCount
  bits : ∀ r, get state r = (get s r || decide (r ∈ assigned pre))

theorem Inside.get_iff {s state : Words} {pre : List Instruction} (h : Inside c s pre state) (r : Nat) :
    get state r = true ↔ get s r = true ∨ r ∈ assigned pre := by
  rw [h.bits r, Bool.or_eq_true, decide_eq_true_iff]

section Block

variable {b : Nat} {s : Words} {f : Flow} (hprep : Prepared c successors handlers)
  (hsound : ∀ r, get s r = false → ∃ A, Reached c successors handlers b A ∧ ¬ A r)

include hprep

theorem words_le : c.function.values.length ≤ 64 * c.wordCount := by
  have := hprep.registers
  unfold wordCount
  omega

include hsound

variable {pre : List Instruction} {i : Instruction} {post : List Instruction}

theorem throwEdge_ends {state : Words} {h : Handler}
    (hf : FlowInv c successors handlers f) (hstate : Inside c s pre state) (hcode : c.codeAt b = pre ++ i :: post)
    (hthrow : mayThrow i = true) (hh : h ∈ handlers) (hcovers : Covers (c.function.firstBlock + b) h = true)
    (E : Stop → Prop) : Ends (c.throwEdge state f h) (fun f' => Progress c successors handlers f f' ∧
        Bounded f' (h.handlerBlock - c.function.firstBlock) (Thrown c s pre h)) E := by
  obtain ⟨hblock, hregister⟩ := hprep.handlers h hh
  have hwords := words_le hprep
  have hparams := hprep.parameters
  have hregisters := hprep.registers
  refine (setAll_ends hstate.length (fun r hr => ?_) E).bind fun state₁ ⟨hlen₁, hget₁⟩ => ?_
  · have := mem_range.mp hr
    omega
  refine (setRegister_ends hlen₁ (by omega) E).bind fun incoming ⟨hlen₂, hget₂⟩ => ?_
  have hincoming : ∀ r, get incoming r = true ↔ Thrown c s pre h r := by
    intro r
    rw [hget₂ r, hget₁ r, Bool.or_eq_true, Bool.or_eq_true, hstate.get_iff, decide_eq_true_iff,
      decide_eq_true_iff, mem_range, or_assoc, eq_comm (a := h.exceptionRegister)]
    exact Iff.rfl
  refine (mergeState_ends hf hblock hlen₂ (fun r hr => ?_) E).imp (fun f' ⟨hp, hb⟩ => ⟨hp, ?_⟩) fun _ h => h
  · have hnot : ¬ Thrown c s pre h r := fun hyes => by
      rw [(hincoming r).mpr hyes] at hr
      cases hr
    have hget : get s r = false := by
      cases hr' : get s r with
      | false => rfl
      | true => exact absurd (.inl (.inl hr')) hnot
    obtain ⟨A, hreached, hA⟩ := hsound r hget
    refine ⟨_, .thrown hreached hcode hthrow hh hcovers, ?_⟩
    rintro (hr | hr | hr)
    · exact hA hr
    · exact hnot (.inl (.inr hr))
    · exact hnot (.inr (.inr hr))
  · obtain ⟨s', hat, hsub⟩ := hb
    exact ⟨s', hat, fun r hr => (hincoming r).mp (hsub r hr)⟩

theorem throwEdges_ends {state : Words} {hs : List Handler}
    (hf : FlowInv c successors handlers f) (hstate : Inside c s pre state) (hcode : c.codeAt b = pre ++ i :: post)
    (hthrow : mayThrow i = true) (hhs : ∀ h ∈ hs, h ∈ handlers ∧ Covers (c.function.firstBlock + b) h = true)
    (E : Stop → Prop) : Ends (c.throwEdges state hs f) (fun f' => Progress c successors handlers f f' ∧
        ∀ h ∈ hs, Bounded f' (h.handlerBlock - c.function.firstBlock) (Thrown c s pre h)) E := by
  induction hs generalizing f with
  | nil => exact ⟨.refl hf, fun h hh => by cases hh⟩
  | cons h _ ih =>
    obtain ⟨hmem, hcovers⟩ := hhs h mem_cons_self
    refine (throwEdge_ends hprep hsound hf hstate hcode hthrow hmem hcovers E).bind fun f₁ ⟨hp₁, hb₁⟩ => ?_
    refine (ih hp₁.inv fun q hq => hhs q (mem_cons_of_mem _ hq)).imp (fun f₂ ⟨hp₂, hb₂⟩ => ?_) fun _ h => h
    refine ⟨hp₁.trans hp₂, fun q hq => ?_⟩
    rcases mem_cons.mp hq with rfl | hq
    · exact hb₁.shrinks hp₂.shrinks
    · exact hb₂ q hq

/-! ## The instructions of a block -/

/-- With the block state `s`, instruction `i` after `pre` finds its operands and serves its handlers. -/
structure Fine (c : Site) (handlers : List Handler) (f : Flow) (b : Nat) (s : Words)
    (pre : List Instruction) (i : Instruction) : Prop where
  reads : ∀ r ∈ i.reads c.unitResult, get s r = true ∨ r ∈ assigned pre
  throws : mayThrow i = true → ∀ h ∈ handlers, Covers (c.function.firstBlock + b) h = true →
    Bounded f (h.handlerBlock - c.function.firstBlock) (Thrown c s pre h)
  accepted : (c.verifyInstruction i).result = .ok ()
  allocation : i.isAllocation = true → pre = []

omit hprep hsound in
theorem Fine.shrinks {f' : Flow} (h : Fine c handlers f b s pre i) (hs : f.Shrinks f') : Fine c handlers f' b s pre i :=
  ⟨h.reads, fun ht q hq hc => (h.throws ht q hq hc).shrinks hs, h.accepted, h.allocation⟩

omit hprep hsound in
theorem Inside.step {state state' : Words} (h : Inside c s pre state) (hlen : state'.length = c.wordCount)
    (hget : ∀ q, get state' q = (get state q || decide (q ∈ i.writes))) : Inside c s (pre ++ [i]) state' := by
  refine ⟨hlen, fun r => ?_⟩
  rw [hget r, h.bits r, Bool.or_assoc, ← Bool.decide_or]
  congr 1
  exact decide_eq_decide.mpr (by simp [assigned])

variable (c successors handlers) in
/-- Why the analysis of a block can stop. -/
def Blames (b : Nat) : Stop → Prop
  | .uninitialized => UninitializedRead c successors handlers
  | .unreachable => False
  | .rejected _ => ¬ Passes c b

/-- `pre` has been processed, `rest` is still to come. -/
theorem visitInstructions_ends {rest : List Instruction} {index : Nat} {seen : Bool} {state : Words}
    (hf : FlowInv c successors handlers f) (hstate : Inside c s pre state) (hcode : c.codeAt b = pre ++ rest)
    (hindex : index = pre.length) (hseen : seen = pre.any Instruction.isAllocation) :
    Ends (c.visitInstructions (handlers.filter (Covers (c.function.firstBlock + b))) index seen rest f state)
      (fun (f', state') => Progress c successors handlers f f' ∧ Inside c s (pre ++ rest) state' ∧
        ∀ pre' i post, rest = pre' ++ i :: post → Fine c handlers f' b s (pre ++ pre') i)
      (Blames c successors handlers b) := by
  induction rest generalizing pre index seen f state with
  | nil =>
    refine ⟨.refl hf, by rwa [append_nil], fun pre' i post h => ?_⟩
    cases pre' <;> cases h
  | cons i rest ih =>
    unfold visitInstructions
    have hplace : (i.isAllocation && (index != 0 || seen)) = true ↔ i.isAllocation = true ∧ pre ≠ [] := by
      rw [Bool.and_eq_true, Bool.or_eq_true, bne_iff_ne, hindex, hseen]
      refine and_congr_right fun _ => ⟨?_, fun h => .inl (by simpa using h)⟩
      rintro (h | h) rfl
      · exact h rfl
      · cases h
    split
    case isTrue h =>
      -- an allocation that is not the first instruction
      obtain ⟨halloc, hne⟩ := hplace.mp h
      exact fun hpasses => hne (hpasses.allocation pre i rest hcode halloc)
    case isFalse h =>
      have hfirst : i.isAllocation = true → pre = [] := fun halloc =>
        Classical.byContradiction fun hne => h (hplace.mpr ⟨halloc, hne⟩)
      -- the edges to the handlers
      have hedges : Ends (if mayThrow i then
            c.throwEdges state (handlers.filter (Covers (c.function.firstBlock + b))) f
          else .ok f)
          (fun f₁ => Progress c successors handlers f f₁ ∧ (mayThrow i = true → ∀ h ∈ handlers,
            Covers (c.function.firstBlock + b) h = true →
            Bounded f₁ (h.handlerBlock - c.function.firstBlock) (Thrown c s pre h)))
          (Blames c successors handlers b) := by
        split
        case isTrue hthrow =>
          refine (throwEdges_ends hprep hsound hf hstate hcode hthrow (fun h hh => ?_) _).imp
            (fun f₁ ⟨hp, hb⟩ => ⟨hp, fun _ h hh hc => hb h (mem_filter.mpr ⟨hh, hc⟩)⟩)
            fun _ h => h
          exact mem_filter.mp hh
        case isFalse hthrow => exact ⟨.refl hf, fun hyes => absurd hyes hthrow⟩
      refine hedges.bind fun f₁ ⟨hp₁, hthrows⟩ => ?_
      -- the instruction itself
      refine ((stepInstruction_ends hstate.length (words_le hprep)).imp (fun _ h => h) ?_).bind
        fun state₁ ⟨hlen₁, hok, hreads, hget₁⟩ => ?_
      · rintro e (⟨rfl, r, hr, hget⟩ | ⟨r, rfl, hbad⟩)
        · rw [hstate.bits r, Bool.or_eq_false_iff, decide_eq_false_iff_not] at hget
          obtain ⟨A, hreached, hA⟩ := hsound r hget.1
          refine ⟨b, A, pre, i, rest, r, hreached, hcode, hr, ?_⟩
          rintro (hr | hr)
          · exact hA hr
          · exact hget.2 hr
        · exact fun hpasses => hbad (hpasses.instructions i (by rw [hcode]; simp))
      · refine (ih hp₁.inv (hstate.step hlen₁ hget₁) (by rw [hcode]; simp) (by simp [hindex])
          (by simp [hseen])).imp (fun ⟨f₂, _⟩ ⟨hp₂, hstate₂, hfine⟩ => ?_) fun _ h => h
        refine ⟨hp₁.trans hp₂, by rwa [append_assoc] at hstate₂, fun pre' j post h => ?_⟩
        cases pre' with
        | nil =>
          cases h
          rw [append_nil]
          exact ⟨fun r hr => (hstate.get_iff r).mp (hreads r hr),
            fun ht q hq hc => (hthrows ht q hq hc).shrinks hp₂.shrinks, hok, hfirst⟩
        | cons _ pre' =>
          cases h
          have := hfine pre' j post rfl
          rwa [append_assoc] at this

/-! ## Blocks -/

variable (c successors handlers) in
/-- The block has passed its checks with state `s`, and its successors have no more than it gives. -/
structure Settled (f : Flow) (b : Nat) (s : Words) : Prop where
  passes : Passes c b
  fine : ∀ pre i post, c.codeAt b = pre ++ i :: post → Fine c handlers f b s pre i
  next : ∀ targets t, successors[b]? = some targets → t ∈ targets →
    Bounded f t (fun r => get s r = true ∨ r ∈ assigned (c.codeAt b))

omit hprep hsound in
theorem Settled.shrinks {f' : Flow} (h : Settled c successors handlers f b s) (hs : f.Shrinks f') :
    Settled c successors handlers f' b s :=
  ⟨h.passes, fun pre i post hcode => (h.fine pre i post hcode).shrinks hs,
    fun targets t ht hmem => (h.next targets t ht hmem).shrinks hs⟩

omit hsound in
theorem visitBlock_ends (hf : FlowInv c successors handlers f) (hb : f.stateAt b = some s) :
    Ends (c.visitBlock successors handlers b f)
      (fun f' => Progress c successors handlers f f' ∧ Settled c successors handlers f' b s)
      (Blames c successors handlers b) := by
  have hlt : b < successors.length := hf.length ▸ lt_of_stateAt hb
  have hsound : ∀ r, get s r = false → ∃ A, Reached c successors handlers b A ∧ ¬ A r :=
    fun r => hf.sound b s r hb
  obtain ⟨block, code, hblock, hcode⟩ := hprep.records b hlt
  obtain ⟨targets, htargets⟩ : ∃ targets, successors[b]? = some targets :=
    ⟨_, getElem?_eq_getElem hlt⟩
  have hinstructions : c.codeAt b = code.instructions := by
    unfold codeAt
    rw [hcode]
  unfold visitBlock
  dsimp only
  rw [hb, hblock, hcode, htargets]
  dsimp only
  cases hrecord : c.verifyBlockRecord block code with
  | error =>
    intro hpasses
    have := hpasses.record block code hblock hcode
    rw [hrecord] at this
    cases this
  | ok =>
    have hstart : Inside c s [] s := ⟨hf.sized b s hb, fun r => by simp [assigned]⟩
    refine (visitInstructions_ends hprep hsound hf hstart (by rw [hinstructions]; rfl) rfl rfl).bind
      fun ⟨f₁, state₁⟩ ⟨hp₁, hin₁, hfine⟩ => ?_
    have hin : Inside c s (c.codeAt b) state₁ := by rwa [hinstructions]
    refine (mergeAll_ends hp₁.inv hin.length (fun t ht => ⟨hprep.targets b targets t htargets ht,
      fun r hr => ?_⟩) _).imp (fun f₂ ⟨hp₂, hb₂⟩ => ⟨hp₁.trans hp₂, ?_⟩) fun _ h => h
    · rw [hin.bits r, Bool.or_eq_false_iff, decide_eq_false_iff_not] at hr
      obtain ⟨A, hreached, hA⟩ := hsound r hr.1
      exact ⟨_, .next hreached htargets ht, fun h => h.elim hA hr.2⟩
    · have hall : ∀ pre i post, c.codeAt b = pre ++ i :: post → Fine c handlers f₂ b s pre i := by
        intro pre i post h
        exact (hfine pre i post (hinstructions ▸ h)).shrinks hp₂.shrinks
      refine ⟨⟨fun block' code' hblock' hcode' => ?_, fun pre i post h => (hall pre i post h).allocation,
        fun i hi => ?_⟩, hall, fun targets' t ht hmem => ?_⟩
      · rw [hblock] at hblock'
        rw [hcode] at hcode'
        cases hblock'
        cases hcode'
        exact hrecord
      · obtain ⟨pre, post, h⟩ := append_of_mem hi
        exact (hall pre i post h).accepted
      · rw [htargets] at ht
        cases ht
        obtain ⟨s', hat, hsub⟩ := hb₂ t hmem
        exact ⟨s', hat, fun r hr => (hin.get_iff r).mp (hsub r hr)⟩

end Block

/-! ## The queue -/

section Queue

variable (hprep : Prepared c successors handlers)

variable (c successors handlers) in
/-- Blocks that are not queued are settled. -/
def Done (f : Flow) : Prop :=
  ∀ b s, f.stateAt b = some s → b ∈ f.queue ∨ Settled c successors handlers f b s

include hprep

theorem processQueue_ends {fuel : Nat} {f : Flow} (hf : FlowInv c successors handlers f)
    (hdone : Done c successors handlers f) (hfuel : f.measure c.wordCount < fuel) :
    Ends (c.processQueue successors handlers fuel f)
      (fun f' => FlowInv c successors handlers f' ∧ Done c successors handlers f' ∧ f'.queue = [] ∧
        ∀ b B, Bounded f b B → Bounded f' b B)
      (fun e => ∃ b, OnPath c successors handlers b ∧ Blames c successors handlers b e) := by
  induction fuel generalizing f with
  | zero => omega
  | succ fuel ih =>
    unfold processQueue
    cases hqueue : f.queue with
    | nil => exact ⟨hf, hdone, hqueue, fun _ _ h => h⟩
    | cons b rest =>
      obtain ⟨s, hb⟩ := hf.queued b (by rw [hqueue]; exact mem_cons_self)
      have hf₀ : FlowInv c successors handlers { f with queue := rest } :=
        ⟨hf.sized, fun n hn => hf.queued n (by rw [hqueue]; exact mem_cons_of_mem _ hn), hf.length, hf.sound⟩
      have hsmall : Flow.measure c.wordCount { f with queue := rest } < fuel := by
        have hlen : f.queue.length = rest.length + 1 := by rw [hqueue]; rfl
        simp only [Flow.measure, Flow.potential] at hfuel ⊢
        omega
      refine ((visitBlock_ends hprep hf₀ hb).imp (fun _ h => h) fun e he => ?_).bind fun f₁ h₁ => ?_
      · obtain ⟨A, hA, -⟩ := hf.sound b s _ hb (get_of_le (Nat.le_refl _))
        exact ⟨b, ⟨A, hA⟩, he⟩
      · obtain ⟨hp, hsettled⟩ := h₁
        have hdone₁ : Done c successors handlers f₁ := by
          intro n s' hn
          cases hold : stateAt { f with queue := rest } n with
          | none => exact .inl (hp.shrinks.fresh n s' hn hold)
          | some s₀ =>
            obtain ⟨s₁, hat, -, hsame⟩ := hp.shrinks.state n s₀ hold
            rw [hn] at hat
            cases hat
            rcases hsame with rfl | hq
            · by_cases hnb : n = b
              · subst hnb
                have heq : some s' = some s := hold.symm.trans hb
                cases heq
                exact .inr hsettled
              · rcases hdone n s' hold with hq | hset
                · rw [hqueue] at hq
                  exact .inl (hp.shrinks.queue n (mem_of_ne_of_mem hnb hq))
                · have hset₀ : Settled c successors handlers { f with queue := rest } n s' := by
                    exact ⟨hset.passes, fun pre i post h => ⟨(hset.fine pre i post h).reads,
                      (hset.fine pre i post h).throws, (hset.fine pre i post h).accepted,
                      (hset.fine pre i post h).allocation⟩, hset.next⟩
                  exact .inr (hset₀.shrinks hp.shrinks)
            · exact .inl hq
        have hless : f₁.measure c.wordCount < fuel := Nat.lt_of_le_of_lt hp.measure hsmall
        refine (ih hp.inv hdone₁ hless).imp (fun f₂ h₂ => ?_) fun _ h => h
        obtain ⟨hf₂, hdone₂, hq₂, hbound⟩ := h₂
        refine ⟨hf₂, hdone₂, hq₂, fun n B hB => hbound n B ?_⟩
        have hB₀ : Bounded { f with queue := rest } n B := hB
        exact hB₀.shrinks hp.shrinks

end Queue

/-! ## The whole analysis -/

section Whole

/-- The flow that the analysis starts with. -/
abbrev startFlow (blocks : Nat) (entry : Words) : Flow := ⟨(List.replicate blocks none).set 0 (some entry), [0]⟩

theorem flowInv_start {entry : Words} (hnonempty : 0 < successors.length) (hlen : entry.length = c.wordCount)
    (hentry : ∀ q, get entry q = decide (q < c.function.parameterCount)) :
    FlowInv c successors handlers (startFlow successors.length entry) ∧
      (startFlow successors.length entry).stateAt 0 = some entry ∧
      ∀ b, b ≠ 0 → (startFlow successors.length entry).stateAt b = none := by
  have hat : ∀ b, (startFlow successors.length entry).stateAt b = if 0 = b then some entry else none := by
    intro b
    rw [startFlow, stateAt_set (by simpa using hnonempty)]
    split
    · rfl
    · unfold stateAt
      rw [getElem?_replicate]
      split <;> rfl
  refine ⟨⟨fun b s hb => ?_, fun b hb => ?_, by simp, fun b s r hb hr => ?_⟩, by rw [hat, if_pos rfl],
    fun b hb => by rw [hat, if_neg (Ne.symm hb)]⟩
  · rw [hat] at hb
    split at hb
    · cases hb
      exact hlen
    · cases hb
  · rw [mem_singleton.mp hb, hat, if_pos rfl]
    exact ⟨entry, rfl⟩
  · rw [hat] at hb
    split at hb
    case isTrue h0 =>
      cases hb
      subst h0
      rw [hentry r, decide_eq_false_iff_not] at hr
      exact ⟨_, .entry, hr⟩
    case isFalse => cases hb

/-- The work at the start is covered by the fuel. -/
theorem measure_start {entry : Words} (hnonempty : 0 < successors.length) (hlen : entry.length = c.wordCount) :
    (startFlow successors.length entry).measure c.wordCount < c.dataflowFuel successors.length := by
  have hget : (replicate successors.length (none : Option Words))[0]? = some none := by
    rw [getElem?_replicate, if_pos hnonempty]
  have hsum := sum_map_set (weight c.wordCount) (x := some entry) hget
  have hlt := weight_le hlen
  rw [map_replicate, sum_replicate_nat] at hsum
  simp only [Flow.measure, Flow.potential, dataflowFuel, length_singleton]
  simp only [weight] at hsum hlt ⊢
  omega

/-- With an empty queue every path stays inside the states. -/
theorem reached_bounded {f : Flow} (hdone : Done c successors handlers f) (hempty : f.queue = [])
    (hentry : Bounded f 0 (· < c.function.parameterCount)) {b : Nat} {A : Nat → Prop}
    (h : Reached c successors handlers b A) : Bounded f b A := by
  have hsettled : ∀ b s, f.stateAt b = some s → Settled c successors handlers f b s := fun b s hb =>
    (hdone b s hb).resolve_left (by rw [hempty]; exact fun h => by cases h)
  induction h with
  | entry => exact hentry
  | next _ htargets hmem ih =>
    obtain ⟨s, hs, hsub⟩ := ih
    obtain ⟨s', hs', hsub'⟩ := (hsettled _ s hs).next _ _ htargets hmem
    exact ⟨s', hs', fun r hr => (hsub' r hr).imp (hsub r) id⟩
  | thrown hreached hcode hthrow hh hcovers ih =>
    obtain ⟨s, hs, hsub⟩ := ih
    obtain ⟨s', hs', hsub'⟩ := ((hsettled _ s hs).fine _ _ _ hcode).throws hthrow _ hh hcovers
    refine ⟨s', hs', fun r hr => ?_⟩
    rcases hsub' r hr with (hr | hr) | hr | hr
    · exact .inl (hsub r hr)
    · exact .inr (.inl hr)
    · exact .inl (hreached.parameter hr)
    · exact .inr (.inr hr)

/-- **Dataflow against paths.**  Accepting means that every read is initialised on every path and that
every block is on a path; and each reason to reject has the paths, or the failing check, behind it. -/
theorem verifyDataflow_ends (hprep : Prepared c successors handlers) : Ends (c.verifyDataflow successors handlers)
      (fun _ => ¬ UninitializedRead c successors handlers ∧
        ∀ b, b < successors.length → OnPath c successors handlers b ∧ Passes c b) (fun
        | .uninitialized => UninitializedRead c successors handlers
        | .unreachable => ¬ UninitializedRead c successors handlers ∧
            ∃ b, b < successors.length ∧ ¬ OnPath c successors handlers b
        | .rejected _ => ∃ b, OnPath c successors handlers b ∧ ¬ Passes c b) := by
  have hnonempty := hprep.nonempty
  have hwords := words_le hprep
  have hparams := hprep.parameters
  have hregisters := hprep.registers
  refine (setAll_ends (length_empty _) (fun r hr => ?_) _).bind fun entry ⟨hlen, hget⟩ => ?_
  · have := mem_range.mp hr
    omega
  have hentry : ∀ q, get entry q = decide (q < c.function.parameterCount) := fun q => by
    rw [hget q, get_empty, Bool.false_or]
    exact decide_eq_decide.mpr mem_range
  rw [if_neg (by omega)]
  obtain ⟨hinv, hat, hnone⟩ := @flowInv_start c successors handlers entry hnonempty hlen hentry
  have hdone : Done c successors handlers (startFlow successors.length entry) := by
    intro b s hb
    by_cases h0 : b = 0
    · exact .inl (h0 ▸ mem_cons_self)
    · rw [hnone b h0] at hb
      cases hb
  refine ((processQueue_ends hprep hinv hdone (measure_start hnonempty hlen)).imp (fun _ h => h)
    fun e he => ?_).bind fun f ⟨hf, hfdone, hempty, hbound⟩ => ?_
  · obtain ⟨b, hpath, hblame⟩ := he
    cases e with
    | uninitialized => exact hblame
    | unreachable => exact hblame.elim
    | rejected => exact ⟨b, hpath, hblame⟩
  · have hentry₀ : Bounded f 0 (· < c.function.parameterCount) :=
      hbound 0 _ ⟨entry, hat, fun r hr => by rw [hentry r] at hr; exact of_decide_eq_true hr⟩
    have hsettled : ∀ b s, f.stateAt b = some s → Settled c successors handlers f b s := fun b s hb =>
      (hfdone b s hb).resolve_left (by rw [hempty]; exact fun h => by cases h)
    have hinit : ¬ UninitializedRead c successors handlers := by
      rintro ⟨b, A, pre, i, post, r, hreached, hcode, hr, hnot⟩
      obtain ⟨s, hs, hsub⟩ := reached_bounded hfdone hempty hentry₀ hreached
      exact hnot ((((hsettled b s hs).fine pre i post hcode).reads r hr).imp (hsub r) id)
    split
    case isTrue hany =>
      refine ⟨hinit, ?_⟩
      obtain ⟨o, ho, hisNone⟩ := any_eq_true.mp hany
      obtain ⟨b, hb, rfl⟩ := getElem_of_mem ho
      refine ⟨b, hf.length ▸ hb, fun ⟨A, hA⟩ => ?_⟩
      obtain ⟨s, hs, -⟩ := reached_bounded hfdone hempty hentry₀ hA
      have heq := getElem?_of_stateAt hb
      rw [hs, getElem?_eq_getElem hb, Option.some.injEq] at heq
      rw [heq] at hisNone
      cases hisNone
    case isFalse hany =>
      refine ⟨hinit, fun b hb => ?_⟩
      have hb' : b < f.states.length := hf.length ▸ hb
      cases hs : f.stateAt b with
      | none =>
        refine absurd (any_eq_true.mpr ⟨none, ?_, rfl⟩) hany
        have heq := getElem?_of_stateAt hb'
        rw [hs] at heq
        exact mem_of_getElem? heq
      | some s =>
        obtain ⟨A, hA, -⟩ := hf.sound b s _ hs (get_of_le (Nat.le_refl _))
        exact ⟨⟨A, hA⟩, (hsettled b s hs).passes⟩

end Whole

end Flows

/-- **When dataflow rejects.**  Take a function with accepted control flow, registers and handlers.  If
the other checks hold on the blocks that paths reach, the analysis rejects for an uninitialised read
exactly when some path makes one, and for reachability exactly when none does and some block is on no
path.  In any case it rejects for either reason only with cause, and does not accept with cause. -/
theorem dataflow_rejections {c : Site} {successors : List (List Nat)} {handlers : List Handler}
    (hcontrol : verifyControlFlow (c.artifact.moduleAt c.moduleId) c.moduleId c.functionId c.function
      (handlers.map Handler.handlerBlock) = .ok successors)
    (hregisters : c.function.registerCount = c.function.values.length)
    (hparameters : c.function.parameterCount ≤ c.function.registerCount)
    (hhandlers : ∀ h ∈ handlers, h.handlerBlock < c.function.firstBlock + c.function.blockCount ∧
      h.exceptionRegister < c.function.values.length) :
    ((∀ b, OnPath c successors handlers b → Passes c b) →
      (c.verifyDataflow successors handlers = .error .uninitialized ↔
        UninitializedRead c successors handlers) ∧
      (c.verifyDataflow successors handlers = .error .unreachable ↔
        ¬ UninitializedRead c successors handlers ∧
        ∃ b, b < c.function.blockCount ∧ ¬ OnPath c successors handlers b)) ∧
    (c.verifyDataflow successors handlers = .error .uninitialized →
      UninitializedRead c successors handlers) ∧
    (c.verifyDataflow successors handlers = .error .unreachable →
      ∃ b, b < c.function.blockCount ∧ ¬ OnPath c successors handlers b) ∧
    (UninitializedRead c successors handlers ∨
        (∃ b, b < c.function.blockCount ∧ ¬ OnPath c successors handlers b) →
      c.verifyDataflow successors handlers ≠ .ok ()) := by
  have hflow := verifyControlFlow_ok hcontrol
  have hlen := hflow.length
  have hpos := hflow.nonempty
  -- what the earlier passes check is what the analysis relies on
  have hprepared : Prepared c successors handlers := by
    refine ⟨hregisters, hparameters, by omega, fun b hb => ?_, fun b targets t hb ht => ?_, fun h hh => ?_⟩
    · obtain ⟨block, code, hblock, hcode, -⟩ := hflow.records b (by omega)
      exact ⟨block, code, hblock, hcode⟩
    · have := (hflow.targets b targets t hb ht).1
      omega
    · obtain ⟨hblock, hregister⟩ := hhandlers h hh
      exact ⟨by omega, hregister⟩
  have hends := verifyDataflow_ends hprepared
  rw [hlen] at hends
  cases hresult : c.verifyDataflow successors handlers with
  | ok =>
    obtain ⟨hinit, hall⟩ := hends.of_ok hresult
    have hreach : ¬ ∃ b, b < c.function.blockCount ∧ ¬ OnPath c successors handlers b :=
      fun ⟨b, hb, hno⟩ => hno (hall b hb).1
    refine ⟨fun _ => ⟨⟨nofun, fun h => absurd h hinit⟩, ⟨nofun, fun h => absurd h.2 hreach⟩⟩, nofun,
      nofun, ?_⟩
    rintro (h | h)
    · exact absurd h hinit
    · exact absurd h hreach
  | error e =>
    have herror := hends.of_error hresult
    cases e with
    | uninitialized =>
      exact ⟨fun _ => ⟨⟨fun _ => herror, fun _ => rfl⟩, ⟨nofun, fun h => absurd herror h.1⟩⟩,
        fun _ => herror, nofun, fun _ => nofun⟩
    | unreachable =>
      exact ⟨fun _ => ⟨⟨nofun, fun h => absurd h herror.1⟩, ⟨fun _ => herror, fun _ => rfl⟩⟩, nofun,
        fun _ => herror.2, fun _ => nofun⟩
    | rejected =>
      obtain ⟨b, hpath, hfails⟩ := herror
      exact ⟨fun hpass => absurd (hpass b hpath) hfails, nofun, nofun, fun _ => nofun⟩

/-! ## Functions that read a register they never wrote -/

/-- One block, `return r0`, with the declared cost of the block as a parameter. -/
def uninitializedReturn (declaredCost : Nat) : Site where
  artifact := {
    header := ⟨1, 20, 0, 0, 0, .none⟩
    manifest := ⟨64, 64, 1, 1, 0, 0, 8, 8, 0, 0, 0, 0⟩
    capabilities := []
    modules := [{ DecodedModule.empty with
      blocks := [⟨0, 0, 1, declaredCost, 0⟩]
      code := [⟨[.return_ 0], 1⟩] }] }
  fuel := 1
  moduleId := 0
  functionId := 0
  function := ⟨absentId, 0, 0, 0, 1, 0, 0, 1, 0, 0, [⟨⟨1, 0, absentId⟩, [.i32]⟩]⟩
  signatureModule := 0
  result := ⟨1, 0, absentId⟩

theorem uninitializedReturn_reads (declaredCost : Nat) : UninitializedRead (uninitializedReturn declaredCost) [[]] [] :=
  ⟨0, _, [], .return_ 0, [], 0, .entry, rfl, mem_cons_self, fun h => by
    rcases h with h | h
    · exact absurd h (Nat.not_lt_zero 0)
    · cases h⟩

/-- A switch, two ways that join, and a handler.  Only one of the ways writes the register that is returned:
`0: switch r0 {0: 1, else: 2}; 1: r1 := r0 / r0, goto 3; 2: goto 3; 3: return r1; 4: return r2`. -/
def halfAssigned : Site := { uninitializedReturn 1 with
  artifact := { (uninitializedReturn 1).artifact with
    modules := [{ DecodedModule.empty with
      blocks := [⟨0, 0, 1, 2, 0⟩, ⟨0, 1, 2, 5, 0⟩, ⟨0, 2, 1, 1, 0⟩, ⟨0, 3, 1, 1, 0⟩, ⟨0, 4, 1, 1, 0⟩]
      code := [⟨[.switchI32 0 2 [⟨0, 1⟩]], 2⟩, ⟨[.div 1 1 0 0, .jump 3], 5⟩, ⟨[.jump 3], 1⟩, ⟨[.return_ 1], 1⟩,
        ⟨[.return_ 2], 1⟩] }] }
  function := ⟨absentId, 0, 0, 0, 3, 1, 0, 5, 0, 0, .replicate 3 ⟨⟨1, 0, absentId⟩, [.i32]⟩⟩ }

theorem halfAssigned_passes (b : Nat) : Passes halfAssigned b := by
  have hallocation : ∀ i ∈ halfAssigned.codeAt b, i.isAllocation = false := by
    match b with
    | 0 | 1 | 2 | 3 | 4 => decide
    | b + 5 => exact nofun
  refine ⟨fun block code hblock hcode => ?_, fun pre i post hcode halloc => ?_, ?_⟩
  · match b with
    | 0 | 1 | 2 | 3 | 4 =>
      cases hblock
      cases hcode
      rfl
    | b + 5 => cases hblock
  · have hnone := hallocation i (hcode ▸ mem_append_right pre mem_cons_self)
    exact absurd halloc (hnone ▸ Bool.false_ne_true)
  · match b with
    | 0 | 1 | 2 | 3 | 4 => decide
    | b + 5 => exact nofun

theorem dataflow_rejections_small :
    (∀ b, OnPath halfAssigned [[2, 1], [3], [3], [], []] [⟨1, 2, 4, 2⟩] b → Passes halfAssigned b) ∧
      halfAssigned.verifyDataflow [[2, 1], [3], [3], [], []] [⟨1, 2, 4, 2⟩] = .error .uninitialized := by
  have hrejects := @dataflow_rejections halfAssigned [[2, 1], [3], [3], [], []] [⟨1, 2, 4, 2⟩] rfl rfl (by decide)
    (by decide)
  refine ⟨fun b _ => halfAssigned_passes b, (hrejects.1 fun b _ => halfAssigned_passes b).1.mpr ?_⟩
  -- the way over block 2 leaves `r1` unwritten
  refine ⟨3, _, [], .return_ 1, [], 1, .next (.next .entry rfl mem_cons_self) rfl mem_cons_self, rfl, mem_cons_self, ?_⟩
  rintro (((h | h) | h) | h)
  · exact absurd h (by decide)
  all_goals cases h

/-- The read is behind a check that fails first: the analysis rejects the block for its cost. -/
theorem uninitialized_read_hidden_by_cost :
    UninitializedRead (uninitializedReturn 2) [[]] [] ∧
      verifyControlFlow ((uninitializedReturn 2).artifact.moduleAt 0) 0 0
        (uninitializedReturn 2).function [] = .ok [[]] ∧
      (uninitializedReturn 2).verifyDataflow [[]] [] = .error (.rejected (.diagnostic
        ⟨.cost, .badCost, some 0, some 0, "declared and recomputed block costs disagree"⟩)) :=
  ⟨uninitializedReturn_reads 2, rfl, rfl⟩

end Compukter
