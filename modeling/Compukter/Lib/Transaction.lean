/-
Calls that change a state or fail.

A call works on a state and ends with a value or an error; what it changed before an error stays changed.
`Ends x s Q E` is a postcondition for both outcomes: `Q` of the value and the last state, or `E` of the
error and the last state.
-/
import Compukter.Lib.Fallible

namespace Compukter

variable {σ ε α β : Type}

/-- A call on a state. -/
abbrev Transaction (σ ε α : Type) := ExceptT ε (StateM σ) α

namespace Transaction

/-- How a call ends, and the state it leaves. -/
def run (x : Transaction σ ε α) (s : σ) : Except ε α × σ := x s

/-- A check: it changes nothing. -/
def attempt (x : Except ε α) : Transaction σ ε α := fun s => (x, s)

theorem run_bind (x : Transaction σ ε α) (f : α → Transaction σ ε β) (s : σ) :
    run (x >>= f) s =
      match run x s with
      | (.ok a, s') => run (f a) s'
      | (.error e, s') => (.error e, s') := by
  show (ExceptT.bindCont f (x s).1) (x s).2 = _
  simp only [run]
  rcases x s with ⟨_ | a, s'⟩ <;> rfl

variable {x : Transaction σ ε α} {f : α → Transaction σ ε β}

theorem run_bind_ok {s s' : σ} {a : α} (h : run x s = (.ok a, s')) : run (x >>= f) s = run (f a) s' := by
  rw [run_bind, h]

theorem run_bind_error {s s' : σ} {e : ε} (h : run x s = (.error e, s')) : run (x >>= f) s = (.error e, s') := by
  rw [run_bind, h]

@[simp] theorem run_pure (a : α) (s : σ) : run (pure a : Transaction σ ε α) s = (.ok a, s) := rfl

@[simp] theorem run_attempt (x : Except ε α) (s : σ) : run (attempt x : Transaction σ ε α) s = (x, s) := rfl

@[simp] theorem run_get (s : σ) : run (get : Transaction σ ε σ) s = (.ok s, s) := rfl

@[simp] theorem run_modify (g : σ → σ) (s : σ) : run (modify g : Transaction σ ε Unit) s = (.ok (), g s) := rfl

/-- A postcondition for either end. -/
def Ends (x : Transaction σ ε α) (s : σ) (Q : α → σ → Prop) (E : ε → σ → Prop) : Prop :=
  match run x s with
  | (.ok a, s') => Q a s'
  | (.error e, s') => E e s'

namespace Ends

variable {s s' : σ} {E : ε → σ → Prop}

variable {x : Transaction σ ε α} {Q : α → σ → Prop}

theorem ok {a : α} (hx : Ends x s Q E) (h : run x s = (.ok a, s')) : Q a s' := by
  rw [Ends, h] at hx
  exact hx

theorem error {e : ε} (hx : Ends x s Q E) (h : run x s = (.error e, s')) : E e s' := by
  rw [Ends, h] at hx
  exact hx

theorem of_ok {a : α} (h : run x s = (.ok a, s')) (hQ : Q a s') : Ends x s Q E := by
  rw [Ends, h]
  exact hQ

theorem of_error {e : ε} (h : run x s = (.error e, s')) (hE : E e s') : Ends x s Q E := by
  rw [Ends, h]
  exact hE

theorem pure {a : α} (h : Q a s) : Ends (Pure.pure a : Transaction σ ε α) s Q E := h

theorem throw {e : ε} (h : E e s) : Ends (MonadExcept.throw e : Transaction σ ε α) s Q E := h

theorem attempt {x : Except ε α} (hE : ∀ e, x = .error e → E e s) (h : ∀ a, x = .ok a → Q a s) :
    Ends (Transaction.attempt x) s Q E := by
  cases x with
  | ok a => exact h a rfl
  | error e => exact hE e rfl

variable {f : α → Transaction σ ε β}

/-- One part after the other. -/
theorem bind {Q : β → σ → Prop} {P : α → σ → Prop} (hx : Ends x s P E)
    (hf : ∀ a s', P a s' → Ends (f a) s' Q E) : Ends (x >>= f) s Q E := by
  rw [Ends, run_bind]
  rcases h : run x s with ⟨e | a, s'⟩
  · exact hx.error h
  · exact hf a s' (hx.ok h)

theorem get_bind {f : σ → Transaction σ ε β} {Q : β → σ → Prop} (h : Ends (f s) s Q E) : Ends (get >>= f) s Q E := h

theorem modify_bind {g : σ → σ} {f : Unit → Transaction σ ε β} {Q : β → σ → Prop} (h : Ends (f ()) (g s) Q E) :
    Ends (modify g >>= f) s Q E := h

/-- A check that fails ends the call in the state it is in. -/
theorem attempt_bind {x : Except ε α} {Q : β → σ → Prop}
    (hE : ∀ e, x = .error e → E e s) (h : ∀ a, x = .ok a → Ends (f a) s Q E) :
    Ends (Transaction.attempt x >>= f) s Q E :=
  (attempt (Q := fun a s' => s' = s ∧ x = .ok a) hE fun a ha => ⟨rfl, ha⟩).bind fun a s' hs => by
    rw [hs.1]
    exact h a hs.2

/-- Postconditions can be weakened. -/
theorem imp {Q' : α → σ → Prop} {E' : ε → σ → Prop} (hx : Ends x s Q E) (h : ∀ a s', Q a s' → Q' a s')
    (hE : ∀ e s', E e s' → E' e s') : Ends x s Q' E' := by
  rcases hrun : run x s with ⟨e | a, s'⟩
  · exact of_error hrun (hE e s' (hx.error hrun))
  · exact of_ok hrun (h a s' (hx.ok hrun))

/-- What holds anyway holds at the end. -/
theorem const {P : Prop} (hP : P) : Ends x s (fun _ _ => P) fun _ _ => True := by
  rcases hrun : run x s with ⟨e | a, s'⟩
  · exact of_error hrun trivial
  · exact of_ok hrun hP

end Ends

end Transaction

end Compukter
