/-
Forward analysis of a graph with a worklist of nodes.

A `Flow` has a bit set for every node that has been reached, and a queue of the nodes to look at.
`merge` meets the state of a node with an incoming one: a node that is new, or whose state shrinks, is
queued.  `Shrinks` is all that merges do to a flow: states only lose bits, and a node whose state changed is
in the queue.  `measure` bounds the work: a merge does not raise it, although it may queue a node.
-/
import Compukter.Lib.BitWords

namespace Compukter

open BitWords
open List hiding count get

structure Flow where
  states : List (Option Words)
  queue : List Nat

namespace Flow

def stateAt (f : Flow) (node : Nat) : Option Words := (f.states[node]?).join

def merge (f : Flow) (target : Nat) (incoming : Words) : Option Flow :=
  match f.states[target]? with
  | none => none
  | some none => some ⟨f.states.set target (some incoming), f.queue ++ [target]⟩
  | some (some existing) =>
    let merged := meet existing incoming
    some ⟨f.states.set target (some merged), if merged != existing then f.queue ++ [target] else f.queue⟩

/-- All states have `words` words. -/
def Sized (words : Nat) (f : Flow) : Prop := ∀ n s, f.stateAt n = some s → s.length = words

/-- Queued nodes have a state. -/
def Queued (f : Flow) : Prop := ∀ n ∈ f.queue, ∃ s, f.stateAt n = some s

/-! ## What merges can do -/

structure Shrinks (f f' : Flow) : Prop where
  length : f'.states.length = f.states.length
  queue : ∀ n ∈ f.queue, n ∈ f'.queue
  state : ∀ n s, f.stateAt n = some s →
    ∃ s', f'.stateAt n = some s' ∧ (∀ i, get s' i = true → get s i = true) ∧ (s' = s ∨ n ∈ f'.queue)
  fresh : ∀ n s', f'.stateAt n = some s' → f.stateAt n = none → n ∈ f'.queue

namespace Shrinks

variable {f f' f'' : Flow}

theorem refl (f : Flow) : Shrinks f f :=
  ⟨rfl, fun _ h => h, fun _ s h => ⟨s, h, fun _ hi => hi, .inl rfl⟩,
    fun n s h hnone => by rw [h] at hnone; cases hnone⟩

theorem trans (h : Shrinks f f') (h' : Shrinks f' f'') : Shrinks f f'' := by
  refine ⟨h'.length.trans h.length, fun n hn => h'.queue n (h.queue n hn), fun n s hs => ?_,
    fun n s'' hs'' hnone => ?_⟩
  · obtain ⟨s', hs', hsub, hsame⟩ := h.state n s hs
    obtain ⟨s'', hs'', hsub', hsame'⟩ := h'.state n s' hs'
    refine ⟨s'', hs'', fun i hi => hsub i (hsub' i hi), ?_⟩
    rcases hsame' with rfl | hq
    · exact hsame.imp id fun hq => h'.queue n hq
    · exact .inr hq
  · cases hs' : f'.stateAt n with
    | none => exact h'.fresh n s'' hs'' hs'
    | some s' => exact h'.queue n (h.fresh n s' hs' hnone)

end Shrinks

/-! ## One merge -/

variable {f : Flow} {n : Nat}

theorem stateAt_eq_none (h : f.states.length ≤ n) : f.stateAt n = none := by
  unfold stateAt
  rw [getElem?_eq_none h]
  rfl

theorem lt_of_stateAt {s : Words} (h : f.stateAt n = some s) : n < f.states.length := by
  by_contra hge
  rw [stateAt_eq_none (by omega)] at h
  cases h

variable {t : Nat}

theorem stateAt_set {states : List (Option Words)} {q : List Nat} {s : Option Words} (ht : t < states.length) :
    (Flow.mk (states.set t s) q).stateAt n = if t = n then s else (Flow.mk states q).stateAt n := by
  unfold stateAt
  by_cases h : t = n
  · subst h
    simp [ht]
  · simp [h]

variable {f' : Flow} {incoming : Words}

/-- The two ways a merge goes: the node is new, or its state is met with the incoming one. -/
theorem merge_cases (h : f.merge t incoming = some f') : t < f.states.length ∧
    ((f.stateAt t = none ∧ f' = ⟨f.states.set t (some incoming), f.queue ++ [t]⟩) ∨
      ∃ s, f.stateAt t = some s ∧ f' = ⟨f.states.set t (some (meet s incoming)),
        if meet s incoming != s then f.queue ++ [t] else f.queue⟩) := by
  unfold merge at h
  split at h
  case h_1 => cases h
  case h_2 hs =>
    cases h
    refine ⟨(List.getElem?_eq_some_iff.mp hs).1, .inl ⟨?_, rfl⟩⟩
    unfold stateAt
    rw [hs]
    rfl
  case h_3 s hs =>
    cases h
    refine ⟨(List.getElem?_eq_some_iff.mp hs).1, .inr ⟨s, ?_, rfl⟩⟩
    unfold stateAt
    rw [hs]
    rfl

theorem exists_merge (incoming : Words) (ht : t < f.states.length) : ∃ f', f.merge t incoming = some f' := by
  unfold merge
  rw [getElem?_eq_getElem ht]
  cases f.states[t] with
  | none | some s => exact ⟨_, rfl⟩

structure Merged (words : Nat) (f : Flow) (t : Nat) (incoming : Words) (f' : Flow) : Prop where
  shrinks : Shrinks f f'
  sized : Sized words f'
  queued : Queued f → Queued f'
  target : ∃ s', f'.stateAt t = some s' ∧ (∀ i, get s' i = true → get incoming i = true) ∧
    ∀ i, get s' i = false → get incoming i = false ∨ ∃ s, f.stateAt t = some s ∧ get s i = false
  other : ∀ n, n ≠ t → f'.stateAt n = f.stateAt n

variable {words : Nat}

theorem merge_spec (hf : Sized words f)
    (hlen : incoming.length = words) (h : f.merge t incoming = some f') : Merged words f t incoming f' := by
  obtain ⟨ht, hcase⟩ := merge_cases h
  rcases hcase with ⟨hnone, rfl⟩ | ⟨s, hs, rfl⟩
  · -- the node is reached for the first time
    have hat : ∀ n, (Flow.mk (f.states.set t (some incoming)) (f.queue ++ [t])).stateAt n =
        if t = n then some incoming else f.stateAt n := fun n => stateAt_set ht
    refine ⟨⟨length_set, fun n hn => mem_append_left _ hn, fun n s hn => ?_,
      fun n s' hn hnone' => ?_⟩, fun n s hn => ?_, fun hq n hn => ?_, ?_, fun n hn => ?_⟩
    · rw [hat, if_neg (fun heq => by rw [heq, hn] at hnone; cases hnone)]
      exact ⟨s, hn, fun _ hi => hi, .inl rfl⟩
    · by_cases heq : t = n
      · exact heq ▸ mem_append_right _ mem_cons_self
      · rw [hat, if_neg heq, hnone'] at hn
        cases hn
    · rw [hat] at hn
      split at hn
      · cases hn
        exact hlen
      · exact hf n s hn
    · rw [hat]
      split
      · exact ⟨incoming, rfl⟩
      · rcases mem_append.mp hn with hn | hn
        · exact hq n hn
        · exact absurd (mem_singleton.mp hn).symm ‹_›
    · exact ⟨incoming, by rw [hat, if_pos rfl], fun _ hi => hi, fun _ hi => .inl hi⟩
    · rw [hat, if_neg (Ne.symm hn)]
  · -- the node had a state: it loses the bits that the incoming state lacks
    have hslen : s.length = incoming.length := (hf t s hs).trans hlen.symm
    have hat : ∀ q n, (Flow.mk (f.states.set t (some (meet s incoming))) q).stateAt n =
        if t = n then some (meet s incoming) else f.stateAt n := fun q n => stateAt_set ht
    have hq : ∀ n, n ∈ (if meet s incoming != s then f.queue ++ [t] else f.queue) → n ∈ f.queue ∨ n = t := by
      intro n hn
      split at hn
      · exact (mem_append.mp hn).imp id mem_singleton.mp
      · exact .inl hn
    refine ⟨⟨length_set, fun n hn => ?_, fun n s' hn => ?_, fun n s' hn hnone' => ?_⟩,
      fun n s' hn => ?_, fun hqueued n hn => ?_, ?_, fun n hn => ?_⟩
    · show n ∈ (if meet s incoming != s then f.queue ++ [t] else f.queue)
      split
      · exact mem_append_left _ hn
      · exact hn
    · by_cases heq : t = n
      · subst heq
        rw [hs] at hn
        cases hn
        refine ⟨meet s incoming, by rw [hat, if_pos rfl], fun i hi => ?_, ?_⟩
        · rw [get_meet hslen, Bool.and_eq_true] at hi
          exact hi.1
        · by_cases hsame : meet s incoming = s
          · exact .inl hsame
          · refine .inr ?_
            show t ∈ (if meet s incoming != s then f.queue ++ [t] else f.queue)
            rw [if_pos (bne_iff_ne.mpr hsame)]
            exact mem_append_right _ mem_cons_self
      · rw [hat, if_neg heq]
        exact ⟨s', hn, fun _ hi => hi, .inl rfl⟩
    · rw [hat] at hn
      split at hn
      case isTrue heq => rw [← heq, hs] at hnone'; cases hnone'
      case isFalse => rw [hn] at hnone'; cases hnone'
    · rw [hat] at hn
      split at hn
      · cases hn
        rw [length_meet]
        exact hf t s hs
      · exact hf n s' hn
    · rw [hat]
      split
      · exact ⟨_, rfl⟩
      · rcases hq n hn with hn | hn
        · exact hqueued n hn
        · exact absurd hn.symm ‹_›
    · refine ⟨meet s incoming, by rw [hat, if_pos rfl], fun i hi => ?_, fun i hi => ?_⟩
      · rw [get_meet hslen, Bool.and_eq_true] at hi
        exact hi.2
      · rw [get_meet hslen, Bool.and_eq_false_iff] at hi
        exact hi.symm.imp id fun hi => ⟨s, hs, hi⟩
    · rw [hat, if_neg (Ne.symm hn)]

/-! ## Work that is left -/

/-- A node that has no state yet weighs more than any state. -/
def weight (words : Nat) : Option Words → Nat
  | none => 64 * words + 1
  | some s => count s

def potential (words : Nat) (f : Flow) : Nat := (f.states.map (weight words)).sum

/-- Two units for every bit that can still be lost, one for every queued node. -/
def measure (words : Nat) (f : Flow) : Nat := 2 * f.potential words + f.queue.length

theorem sum_map_set {α : Type} (w : α → Nat) {l : List α} {x y : α} (h : l[t]? = some y) :
    ((l.set t x).map w).sum + w y = (l.map w).sum + w x := by
  induction l generalizing t with
  | nil => cases h
  | cons _ _ ih =>
    cases t with
    | zero =>
      cases h
      simp only [set_cons_zero, map_cons, sum_cons]
      omega
    | succ t =>
      have := ih (t := t) (by simpa using h)
      simp only [set_cons_succ, map_cons, sum_cons]
      omega

theorem getElem?_of_stateAt (ht : t < f.states.length) : f.states[t]? = some (f.stateAt t) := by
  unfold stateAt
  rw [getElem?_eq_getElem ht]
  rfl

theorem weight_le {s : Words} (h : s.length = words) : weight words (some s) < weight words none := by
  have := count_le s
  show count s < 64 * words + 1
  omega

theorem merge_measure (hf : Sized words f)
    (hlen : incoming.length = words) (h : f.merge t incoming = some f') : f'.measure words ≤ f.measure words := by
  obtain ⟨ht, hcase⟩ := merge_cases h
  have hold := getElem?_of_stateAt ht
  rcases hcase with ⟨hnone, rfl⟩ | ⟨s, hs, rfl⟩
  · rw [hnone] at hold
    have hsum := sum_map_set (weight words) (x := some incoming) hold
    have hlt := weight_le hlen
    simp only [measure, potential, length_append, length_singleton]
    omega
  · rw [hs] at hold
    have hsum := sum_map_set (weight words) (x := some (meet s incoming)) hold
    have hslen : s.length = incoming.length := (hf t s hs).trans hlen.symm
    by_cases hsame : meet s incoming = s
    · simp only [measure, potential, hsame, bne_self_eq_false, Bool.false_eq_true, if_false] at hsum ⊢
      omega
    · have hlt : weight words (some (meet s incoming)) < weight words (some s) :=
        count_meet_lt hslen hsame
      simp only [measure, potential, bne_iff_ne.mpr hsame, if_true, length_append, length_singleton]
      omega

end Flow

end Compukter
