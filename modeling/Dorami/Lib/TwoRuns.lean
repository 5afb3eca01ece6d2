import Dorami.Lib.Run
import Dorami.Lib.Stores
import Mathlib.Data.Set.Basic

/-!
# Two runs side by side

A statement about what one party can learn of another is a statement about two runs: they differ in
the other party's secrets only, and are to agree on all that the first party sees. The two runs are
one run of pairs (`both`), so that the invariant rules for single runs apply. What is to agree is
memory outside a set of secret addresses (`EqOff`).
-/

namespace Dorami.Lib

section Runs

variable {σ ι : Type*} {step : σ → ι → σ}

/-- A step of both runs. -/
def both (step : σ → ι → σ) (s : σ × σ) (i : ι × ι) : σ × σ := (step s.1 i.1, step s.2 i.2)

end Runs

section Memory

variable {α β : Type*} [DecidableEq α] {S : Set α} {mem mem' : α → β}

/-- The two memories agree at the addresses outside `S`. -/
def EqOff (S : Set α) (mem mem' : α → β) : Prop := ∀ a, a ∉ S → mem' a = mem a

/-- Two stores that an observer of the addresses outside `S` cannot tell apart. -/
def AlikeStores (S : Set α) (s s' : α × β) : Prop := s' = s ∨ (s.1 ∈ S ∧ s'.1 ∈ S)

theorem EqOff.update (h : EqOff S mem mem') {s s' : α × β} (hs : AlikeStores S s s') :
    EqOff S (Function.update mem s.1 s.2) (Function.update mem' s'.1 s'.2) := by
  intro a ha
  rcases hs with rfl | ⟨hin, hin'⟩
  · by_cases heq : a = s'.1
    · rw [heq, Function.update_self, Function.update_self]
    · rw [Function.update_of_ne heq, Function.update_of_ne heq, h a ha]
  · have hne : a ≠ s.1 := fun heq => ha (heq ▸ hin)
    have hne' : a ≠ s'.1 := fun heq => ha (heq ▸ hin')
    rw [Function.update_of_ne hne, Function.update_of_ne hne', h a ha]

/-- Stores that are pairwise alike. -/
theorem EqOff.stores (h : EqOff S mem mem') {ss ss' : List (α × β)}
    (hs : List.Forall₂ (AlikeStores S) ss ss') :
    EqOff S (storeAll mem ss) (storeAll mem' ss') := by
  induction hs generalizing mem mem' with
  | nil => exact h
  | cons hhead _ ih => exact ih (h.update hhead)

theorem EqOff.same_stores (h : EqOff S mem mem') (ss : List (α × β)) :
    EqOff S (storeAll mem ss) (storeAll mem' ss) :=
  fun a ha => storeAll_congr ss (h a ha)

/-- Stores within `S`, as many as each run likes. -/
theorem EqOff.stores_within (h : EqOff S mem mem') {ss ss' : List (α × β)}
    (hs : ∀ s ∈ ss, s.1 ∈ S) (hs' : ∀ s ∈ ss', s.1 ∈ S) :
    EqOff S (storeAll mem ss) (storeAll mem' ss') := by
  intro a ha
  have hne : ∀ s ∈ ss, s.1 ≠ a := fun s hmem heq => ha (heq ▸ hs s hmem)
  have hne' : ∀ s ∈ ss', s.1 ≠ a := fun s hmem heq => ha (heq ▸ hs' s hmem)
  rw [storeAll_of_notMem hne, storeAll_of_notMem hne', h a ha]

end Memory

end Dorami.Lib
