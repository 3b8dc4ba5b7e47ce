/-
Straight-line checks that read and write cells.

A check that touches a store only by requiring a cell to be initialised (`read`) and by initialising
one (`write`) learns nothing from the store.  Such a check is a `Script`: the accesses in order, and the
result at the end.  A failing check ends the script, so its accesses are those made before the failure.

* `run` performs the accesses on a store and then gives the result;
* `Follows P p l` says that the accesses of `p` are the list `l`, or the beginning of it if `p` fails,
  and that all of them satisfy `P`.  It composes along `>>=`.
-/
import Compukter.Lib.Fallible

namespace Compukter

open Fallible List

inductive Access
  | read (cell : Nat)
  | write (cell : Nat)
  deriving DecidableEq

/-- The accesses of a check, and how it ends if none of its reads fails. -/
structure Script (ε α : Type) where
  accesses : List Access
  result : Except ε α

namespace Script

variable {ε α β : Type}

def bind (p : Script ε α) (f : α → Script ε β) : Script ε β :=
  match p.result with
  | .ok a => ⟨p.accesses ++ (f a).accesses, (f a).result⟩
  | .error e => ⟨p.accesses, .error e⟩

instance : Monad (Script ε) where
  pure a := ⟨[], .ok a⟩
  bind := bind

/-- A check that touches no cell. -/
def check (r : Except ε α) : Script ε α := ⟨[], r⟩

instance : MonadLift (Except ε) (Script ε) := ⟨check⟩

def access (a : Access) : Script ε Unit := ⟨[a], .ok ()⟩

/-- One script for each element, in order. -/
def each (f : α → Script ε Unit) : List α → Script ε Unit
  | [] => pure ()
  | a :: l => do
    f a
    each f l

/-! ## Running -/

section Run

variable {σ : Type} (get : σ → Nat → Bool) (set : σ → Nat → Except ε σ) (missing : ε)

def perform : List Access → σ → Except ε σ
  | [], s => .ok s
  | .read cell :: rest, s => if get s cell then perform rest s else .error missing
  | .write cell :: rest, s => do
    let s' ← set s cell
    perform rest s'

def run (p : Script ε α) (s : σ) : Except ε (α × σ) := do
  let s' ← perform get set missing p.accesses s
  let a ← p.result
  return (a, s')

end Run

/-! ## Following a list of accesses -/

structure Follows (P : Access → Prop) (p : Script ε α) (l : List Access) : Prop where
  start : p.accesses <+: l
  whole : ∀ a, p.result = .ok a → p.accesses = l
  within : ∀ a ∈ p.accesses, P a

namespace Follows

variable {P : Access → Prop} {p : Script ε α} {f : α → Script ε β} {l m : List Access}

theorem pure (a : α) : Follows P (Pure.pure a : Script ε α) [] :=
  ⟨prefix_rfl, fun _ _ => rfl, fun _ h => by cases h⟩

theorem check (r : Except ε α) : Follows P (Script.check r) [] :=
  ⟨prefix_rfl, fun _ _ => rfl, fun _ h => by cases h⟩

theorem access {a : Access} (h : P a) : Follows P (Script.access a : Script ε Unit) [a] :=
  ⟨prefix_rfl, fun _ _ => rfl, fun _ hb => mem_singleton.mp hb ▸ h⟩

theorem bind (hp : Follows P p l) (hf : ∀ a, p.result = .ok a → Follows P (f a) m) : Follows P (p >>= f) (l ++ m) := by
  show Follows P (Script.bind p f) (l ++ m)
  unfold Script.bind
  cases hr : p.result with
  | error =>
    refine ⟨hp.start.trans (prefix_append l m), fun b hb => ?_, hp.within⟩
    cases hb
  | ok a =>
    have hl := hp.whole a hr
    refine ⟨?_, fun b hb => ?_, fun c hc => ?_⟩
    · show p.accesses ++ (f a).accesses <+: l ++ m
      rw [hl]
      exact (prefix_append_right_inj l).mpr (hf a hr).start
    · show p.accesses ++ (f a).accesses = l ++ m
      rw [hl, (hf a hr).whole b hb]
    · rcases mem_append.mp hc with hc | hc
      · exact hp.within c hc
      · exact (hf a hr).within c hc

/-- A failing script follows whatever continues it. -/
theorem fail (e : ε) (l : List Access) : Follows P (Script.check (.error e) : Script ε α) l :=
  ⟨ nil_prefix, (fun _ h => by cases h), (fun _ h => by cases h)⟩

theorem each {f : β → Script ε Unit} {g : β → List Access} {bs : List β}
    (h : ∀ b ∈ bs, Follows P (f b) (g b)) : Follows P (Script.each f bs) (bs.flatMap g) := by
  induction bs with
  | nil => exact pure ()
  | cons b _ ih =>
    exact (h b mem_cons_self).bind fun _ _ => ih fun c hc => h c (mem_cons_of_mem _ hc)

end Follows

end Script

end Compukter
