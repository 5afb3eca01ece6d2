import Mathlib.Algebra.GroupWithZero.Nat
import Mathlib.Order.Fin.Basic
import Mathlib.Tactic.Common

/-!
# Copies made in pieces

A copy between two ranges of a memory, one of which may be accessed only in part. `Copies` says what
such a copy may do: it is complete if the whole range can be accessed, and otherwise ends with an
error after a part of the range that can. Pieces that follow each other make up a copy of both
(`Copies.append`), and an error in the first is one of the whole (`Copies.stop`).
-/

namespace Dorami.Lib

variable {β : Type*}

/-- The memory after `n` cells from `src` on have been copied to `dst`. -/
def copied (n : Nat) (dst src : BitVec 64) (mem : BitVec 64 → β) : BitVec 64 → β := fun a =>
  if (a - dst).toNat < n then mem (src + (a - dst)) else mem a

/-- Two ranges of `n` cells that do not wrap around or overlap. -/
structure RangesApart (dst src : BitVec 64) (n : Nat) : Prop where
  dst_le : dst.toNat + n ≤ 2 ^ 64
  src_le : src.toNat + n ≤ 2 ^ 64
  disjoint : dst.toNat + n ≤ src.toNat ∨ src.toNat + n ≤ dst.toNat

section Ranges

variable {dst src : BitVec 64} {n n₁ n₂ : Nat}

theorem RangesApart.take (h : RangesApart dst src n) (hle : n₁ ≤ n) : RangesApart dst src n₁ :=
  ⟨by have := h.dst_le; omega, by have := h.src_le; omega, by have := h.disjoint; omega⟩

theorem RangesApart.drop (h : RangesApart dst src (n₁ + n₂)) :
    RangesApart (dst + BitVec.ofNat 64 n₁) (src + BitVec.ofNat 64 n₁) n₂ := by
  obtain ⟨hdst, hsrc, hdisj⟩ := h
  by_cases hpos : n₂ = 0
  · subst hpos
    exact ⟨(BitVec.isLt _).le, (BitVec.isLt _).le, Nat.le_total _ _⟩
  · have hdst' : (dst + BitVec.ofNat 64 n₁).toNat = dst.toNat + n₁ := by bv_omega
    have hsrc' : (src + BitVec.ofNat 64 n₁).toNat = src.toNat + n₁ := by bv_omega
    exact ⟨by omega, by omega, by omega⟩

theorem copied_zero (mem : BitVec 64 → β) : copied 0 dst src mem = mem := by
  funext a
  exact if_neg (Nat.not_lt_zero _)

theorem copied_of_not_lt {mem : BitVec 64 → β} {a : BitVec 64} (ha : ¬ (a - dst).toNat < n) :
    copied n dst src mem a = mem a := if_neg ha

theorem copied_add_ofNat {mem : BitVec 64 → β} {i : Nat} (hi : i < n) :
    copied n dst src mem (dst + BitVec.ofNat 64 i) = mem (src + BitVec.ofNat 64 i) := by
  have hoff : dst + BitVec.ofNat 64 i - dst = BitVec.ofNat 64 i := by bv_omega
  unfold copied
  rw [hoff, if_pos (by bv_omega)]

/-- The source is not written. -/
theorem copied_source {mem : BitVec 64 → β} (h : RangesApart dst src n) (hle : n₁ ≤ n) {i : Nat}
    (hi : i < n) :
    copied n₁ dst src mem (src + BitVec.ofNat 64 i) = mem (src + BitVec.ofNat 64 i) := by
  obtain ⟨hdst, hsrc, hdisj⟩ := h
  exact copied_of_not_lt (by bv_omega)

/-- A copy in two parts. -/
theorem copied_copied (h : RangesApart dst src (n₁ + n₂)) (mem : BitVec 64 → β) :
    copied n₂ (dst + BitVec.ofNat 64 n₁) (src + BitVec.ofNat 64 n₁) (copied n₁ dst src mem) =
      copied (n₁ + n₂) dst src mem := by
  have ⟨hdst, hsrc, hdisj⟩ := h
  funext a
  by_cases h₁ : (a - dst).toNat < n₁
  · -- a cell of the first part
    have hout : ¬ (a - (dst + BitVec.ofNat 64 n₁)).toNat < n₂ := by bv_omega
    rw [copied_of_not_lt hout]
    unfold copied
    rw [if_pos h₁, if_pos (by omega)]
  by_cases h₂ : (a - dst).toNat < n₁ + n₂
  · -- a cell of the second part, whose source has not been written
    have hin : (a - (dst + BitVec.ofNat 64 n₁)).toNat < n₂ := by bv_omega
    have hsame : src + BitVec.ofNat 64 n₁ + (a - (dst + BitVec.ofNat 64 n₁)) =
        src + BitVec.ofNat 64 (a - dst).toNat := by
      rw [BitVec.ofNat_toNat, BitVec.setWidth_eq]
      bv_omega
    have hcell : copied (n₁ + n₂) dst src mem a = mem (src + BitVec.ofNat 64 (a - dst).toNat) := by
      unfold copied
      rw [if_pos h₂, BitVec.ofNat_toNat, BitVec.setWidth_eq]
    have hsource : copied n₁ dst src mem (src + BitVec.ofNat 64 (a - dst).toNat) =
        mem (src + BitVec.ofNat 64 (a - dst).toNat) := copied_source h (Nat.le_add_right n₁ n₂) h₂
    rw [hcell, ← hsource, ← hsame]
    exact if_pos hin
  · have hout : ¬ (a - (dst + BitVec.ofNat 64 n₁)).toNat < n₂ := by bv_omega
    rw [copied_of_not_lt hout, copied_of_not_lt h₁, copied_of_not_lt h₂]

end Ranges

/-- What a copy of `n` cells may do to the memory, and the result it may return, where the cells
from `u` on can be accessed as `acc` says. -/
inductive Copies (acc : BitVec 64 → Bool) (u dst src : BitVec 64) (n : Nat) (mem : BitVec 64 → β) :
    (BitVec 64 → β) × Int → Prop
  | done (hacc : ∀ i < n, acc (u + BitVec.ofNat 64 i) = true) :
    Copies acc u dst src n mem (copied n dst src mem, 0)
  | cut {k j : Nat} (hj : j < n) (hacc : ∀ i < k, acc (u + BitVec.ofNat 64 i) = true)
    (hfault : acc (u + BitVec.ofNat 64 j) = false) :
    Copies acc u dst src n mem (copied k dst src mem, -1)

namespace Copies

variable {acc : BitVec 64 → Bool} {u dst src : BitVec 64} {n n₁ n₂ : Nat} {mem mem₁ : BitVec 64 → β}
  {r : (BitVec 64 → β) × Int} {res : Int}

/-- A copy that stops before it has written anything. -/
theorem fault {j : Nat} (hj : j < n) (hfault : acc (u + BitVec.ofNat 64 j) = false) :
    Copies acc u dst src n mem (mem, -1) := by
  have hcut : Copies acc u dst src n mem (copied 0 dst src mem, -1) :=
    cut hj (fun i hi => absurd hi (Nat.not_lt_zero i)) hfault
  rwa [copied_zero] at hcut

theorem of_zero (h : Copies acc u dst src n mem (mem₁, 0)) :
    (∀ i < n, acc (u + BitVec.ofNat 64 i) = true) ∧ mem₁ = copied n dst src mem := by
  cases h with
  | done hacc => exact ⟨hacc, rfl⟩

/-- Accesses to two parts, one after the other. -/
theorem forall_add (h₁ : ∀ i < n₁, acc (u + BitVec.ofNat 64 i) = true)
    (h₂ : ∀ i < n₂, acc (u + BitVec.ofNat 64 n₁ + BitVec.ofNat 64 i) = true) :
    ∀ i < n₁ + n₂, acc (u + BitVec.ofNat 64 i) = true := by
  intro i hi
  by_cases hlt : i < n₁
  · exact h₁ i hlt
  · have hi₂ := h₂ (i - n₁) (by omega)
    rwa [BitVec.add_assoc, ← BitVec.ofNat_add, Nat.add_sub_cancel' (by omega)] at hi₂

/-- The second of two parts, when the first is complete. -/
theorem append (h₁ : Copies acc u dst src n₁ mem (mem₁, 0))
    (h₂ : Copies acc (u + BitVec.ofNat 64 n₁) (dst + BitVec.ofNat 64 n₁)
      (src + BitVec.ofNat 64 n₁) n₂ mem₁ r)
    (hap : RangesApart dst src (n₁ + n₂)) :
    Copies acc u dst src (n₁ + n₂) mem r := by
  obtain ⟨hacc₁, rfl⟩ := h₁.of_zero
  cases h₂ with
  | done hacc₂ =>
    rw [copied_copied hap]
    exact done (forall_add hacc₁ hacc₂)
  | @cut k j hj hacc₂ hfault =>
    rw [BitVec.add_assoc, ← BitVec.ofNat_add] at hfault
    -- what was copied before the error lies before the cell that cannot be accessed
    have hkj : k ≤ j := by
      by_contra hlt
      have hj' := hacc₂ j (by omega)
      rw [BitVec.add_assoc, ← BitVec.ofNat_add, hfault] at hj'
      exact absurd hj' (by decide)
    rw [copied_copied (hap.take (by omega))]
    exact cut (by omega) (forall_add hacc₁ hacc₂) hfault

/-- An error in the first part. -/
theorem stop (h : Copies acc u dst src n₁ mem (mem₁, res)) (hres : res ≠ 0) :
    Copies acc u dst src (n₁ + n₂) mem (mem₁, res) := by
  cases h with
  | done hacc => exact absurd rfl hres
  | cut hj hacc hfault => exact cut (by omega) hacc hfault

end Copies

end Dorami.Lib
