/-
Running fallible programs.

Fallible code is written in the `Except` monad.  The rules here step through such a program:
the simp rules run the statement whose outcome is known, and `bind_eq_ok` inverts a whole
program that succeeded into the success of its parts.

`Ends x P E` is a postcondition for both outcomes: `P` of the value, or `E` of the error.
-/
import Mathlib.Algebra.Order.Ring.Nat
import Mathlib.Data.List.Forall2

namespace Compukter.Fallible

variable {ε α β : Type}

@[simp] theorem ok_bind (a : α) (f : α → Except ε β) : (Except.ok a >>= f) = f a := rfl

@[simp] theorem error_bind (e : ε) (f : α → Except ε β) : ((Except.error e : Except ε α) >>= f) = .error e := rfl

@[simp] theorem pure_eq_ok (a : α) : (pure a : Except ε α) = .ok a := rfl

@[simp] theorem throw_eq_error (e : ε) : (throw e : Except ε α) = .error e := rfl

theorem bind_eq_ok {x : Except ε α} {f : α → Except ε β} {b : β} :
    (x >>= f) = .ok b ↔ ∃ a, x = .ok a ∧ f a = .ok b := by
  cases x with
  | ok a | error e => simp

theorem mapError_eq_ok {ε' : Type} {x : Except ε α} {f : ε → ε'} {a : α} : x.mapError f = .ok a ↔ x = .ok a := by
  cases x <;> simp [Except.mapError]

variable {f : α → Except ε β} {l : List α}

/-- A list of results: every element of the list has one. -/
theorem mapM_eq_ok {r : List β} (h : l.mapM f = .ok r) : List.Forall₂ (fun a b => f a = .ok b) l r := by
  induction l generalizing r with
  | nil =>
    cases h
    exact .nil
  | cons _ _ ih =>
    rw [List.mapM_cons] at h
    obtain ⟨b, hb, h⟩ := bind_eq_ok.mp h
    obtain ⟨bs, hbs, h⟩ := bind_eq_ok.mp h
    cases h
    exact .cons hb (ih hbs)

theorem mapM_eq_map {g : α → β} (hf : ∀ a b, f a = .ok b → b = g a) {l : List α} {r : List β}
    (h : l.mapM f = .ok r) : r = l.map g := by
  have hall : List.Forall₂ (fun a b => a = b) (l.map g) r :=
    List.forall₂_map_left_iff.mpr ((mapM_eq_ok h).imp fun a b hab => (hf a b hab).symm)
  rw [List.forall₂_eq_eq_eq] at hall
  exact hall.symm

theorem exists_mapM (h : ∀ a ∈ l, ∃ b, f a = .ok b) : ∃ r, l.mapM f = .ok r := by
  induction l with
  | nil => exact ⟨[], rfl⟩
  | cons a _ ih =>
    obtain ⟨b, hb⟩ := h a List.mem_cons_self
    obtain ⟨r, hr⟩ := ih fun a ha => h a (List.mem_cons_of_mem _ ha)
    refine ⟨b :: r, ?_⟩
    rw [List.mapM_cons, hb, ok_bind, hr]
    rfl

/-! ## Checks -/

def demand (condition : Bool) (e : ε) : Except ε Unit := if condition then .ok () else .error e

def demandSome (value : Option α) (e : ε) : Except ε α :=
  match value with
  | some a => .ok a
  | none => .error e

/-- The check of each element, in order. -/
def checkAll (f : α → Except ε Unit) : List α → Except ε Unit
  | [] => .ok ()
  | a :: l => do
    f a
    checkAll f l

variable {condition : Bool}

theorem demand_eq_ok {e : ε} {u : Unit} : demand condition e = .ok u ↔ condition = true := by
  cases condition <;> simp [demand]

theorem demand_true {e : ε} (h : condition = true) : demand condition e = .ok () := demand_eq_ok.mpr h

theorem demand_decide {p : Prop} [Decidable p] {e : ε} (h : p) : demand (decide p) e = .ok () :=
  demand_true (decide_eq_true h)

theorem demandSome_eq_ok {value : Option α} {e : ε} {a : α} : demandSome value e = .ok a ↔ value = some a := by
  cases value <;> simp [demandSome]

theorem checkAll_eq_ok {f : α → Except ε Unit} {u : Unit} : checkAll f l = .ok u ↔ ∀ a ∈ l, f a = .ok () := by
  induction l with
  | nil => simp [checkAll]
  | cons _ _ ih =>
    rw [checkAll, bind_eq_ok]
    simp only [ih, List.forall_mem_cons]
    constructor
    · rintro ⟨_, h, hl⟩
      exact ⟨h, hl⟩
    · rintro ⟨h, hl⟩
      exact ⟨(), h, hl⟩

/-! ## Postconditions -/

def Ends (x : Except ε α) (P : α → Prop) (E : ε → Prop) : Prop :=
  match x with
  | .ok a => P a
  | .error e => E e

namespace Ends

variable {x : Except ε α} {f : α → Except ε β} {P P' : α → Prop} {Q : β → Prop} {E E' : ε → Prop}

theorem bind (hx : Ends x P E) (hf : ∀ a, P a → Ends (f a) Q E) : Ends (x >>= f) Q E := by
  cases x with
  | ok a => exact hf a hx
  | error => exact hx

theorem imp (hx : Ends x P E) (hP : ∀ a, P a → P' a) (hE : ∀ e, E e → E' e) : Ends x P' E' := by
  cases x with
  | ok a => exact hP a hx
  | error e => exact hE e hx

theorem of_ok {a : α} (hx : Ends x P E) (h : x = .ok a) : P a := by
  subst h
  exact hx

theorem of_error {e : ε} (hx : Ends x P E) (h : x = .error e) : E e := by
  subst h
  exact hx

end Ends

end Compukter.Fallible
