import Mathlib.Algebra.GroupWithZero.Nat
import Mathlib.Logic.Function.Basic
import Mathlib.Order.Fin.Basic
import Mathlib.Tactic.Common

/-!
# Sequences of stores

A piece of code that writes memory is described by the list of its stores, in the order in which it
makes them. The list says where the code can have an effect (`storeAll_of_notMem`), and two memories
stay alike wherever the same stores are made in both (`storeAll_congr`).
-/

namespace Dorami.Lib

/-- A property of all stores of a list is decided along the list, also where there are only finitely
many addresses and values. -/
instance storesDecidable {α β : Type*} (p : α × β → Prop) [DecidablePred p] (ss : List (α × β)) :
    Decidable (∀ s ∈ ss, p s) :=
  List.decidableBAll p ss

variable {α β : Type*} [DecidableEq α]

/-- The memory after the stores of a list. -/
def storeAll (mem : α → β) : List (α × β) → α → β
  | [] => mem
  | (a, b) :: ss => storeAll (Function.update mem a b) ss

@[simp] theorem storeAll_nil (mem : α → β) : storeAll mem [] = mem := rfl

@[simp] theorem storeAll_cons (mem : α → β) (s : α × β) (ss : List (α × β)) :
    storeAll mem (s :: ss) = storeAll (Function.update mem s.1 s.2) ss := rfl

theorem storeAll_append (mem : α → β) (ss ss' : List (α × β)) :
    storeAll mem (ss ++ ss') = storeAll (storeAll mem ss) ss' := by
  induction ss generalizing mem with
  | nil => rfl
  | cons s ss ih => exact ih _

/-- Where nothing is stored, nothing changes. -/
theorem storeAll_of_notMem {mem : α → β} {ss : List (α × β)} {a : α} (ha : ∀ s ∈ ss, s.1 ≠ a) :
    storeAll mem ss a = mem a := by
  induction ss generalizing mem with
  | nil => rfl
  | cons s ss ih =>
    rw [storeAll_cons, ih fun s' hs' => ha s' (List.mem_cons_of_mem s hs'),
      Function.update_of_ne (ha s List.mem_cons_self).symm]

/-- The same stores leave two memories alike where they were alike. -/
theorem storeAll_congr {mem mem' : α → β} (ss : List (α × β)) {a : α} (ha : mem a = mem' a) :
    storeAll mem ss a = storeAll mem' ss a := by
  induction ss generalizing mem mem' with
  | nil => exact ha
  | cons s ss ih =>
    refine ih ?_
    by_cases hs : a = s.1
    · rw [hs, Function.update_self, Function.update_self]
    · rw [Function.update_of_ne hs, Function.update_of_ne hs, ha]

/-- Where something is stored, the memory before the stores does not count. -/
theorem storeAll_of_mem {ss : List (α × β)} {a : α} (ha : ∃ s ∈ ss, s.1 = a) (mem mem' : α → β) :
    storeAll mem ss a = storeAll mem' ss a := by
  induction ss generalizing mem mem' with
  | nil => simp at ha
  | cons s ss ih =>
    by_cases hs : s.1 = a
    · refine storeAll_congr ss ?_
      rw [← hs, Function.update_self, Function.update_self]
    · obtain ⟨s', hs', heq⟩ := ha
      rcases List.mem_cons.mp hs' with rfl | htail
      · exact absurd heq hs
      · exact ih ⟨s', htail, heq⟩ _ _

end Dorami.Lib
