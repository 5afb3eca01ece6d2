import Dorami.Sm.Sm
import Dorami.Sm.Proofs.PmpTableProofs
import Mathlib.Tactic.IntervalCases

/-!
# The state `sm_init` leaves

`sm_init` succeeds; its regions have the ids 0 to 5 and sit, each in one NAPOT register, at the
registers 0 to 4 and 7.
-/

namespace Dorami.Sm

open Riscv

/-- The register of boot region `i`. -/
def bootReg (i : Nat) : Nat := if i = 5 then 7 else i

theorem bootTable_valid (i : Nat) : bootTable.isPmpRegionValid i = true ↔ i < 6 := by
  have hdef : bootTable.regionDefBitmap = 0x3f := by decide
  rw [PmpTable.isPmpRegionValid, hdef]
  constructor
  · intro h
    have h32 := testBit_lt _ _ h
    by_contra hn
    have hno : ∀ j : Fin 32, 6 ≤ j.val → testBit 0x3f j = false := by decide
    rw [hno ⟨i, h32⟩ (Nat.not_lt.mp hn)] at h
    exact absurd h (by decide)
  · intro h
    have hyes : ∀ j : Fin 6, testBit 0x3f j = true := by decide
    exact hyes ⟨i, h⟩

theorem bootTable_reg (n : Nat) : testBit bootTable.regBitmap n = true ↔ n < 5 ∨ n = 7 := by
  have hreg : bootTable.regBitmap = 0x9f := by decide
  rw [hreg]
  constructor
  · intro h
    have h32 := testBit_lt _ _ h
    by_contra hn
    have hno : ∀ j : Fin 32, ¬ (j.val < 5 ∨ j.val = 7) → testBit 0x9f j = false := by decide
    rw [hno ⟨n, h32⟩ hn] at h
    exact absurd h (by decide)
  · intro h
    have hyes : ∀ j : Fin 8, j.val < 5 ∨ j.val = 7 → testBit 0x9f j = true := by decide
    exact hyes ⟨n, by omega⟩ h

theorem bootTable_napot {i : Nat} (hi : i < 6) :
    (bootTable.regions i).addrmode = PMP_A_NAPOT ∧ (bootTable.regions i).regIdx = bootReg i := by
  have h : ∀ j : Fin 6, (bootTable.regions j).addrmode = PMP_A_NAPOT ∧
      (bootTable.regions j).regIdx = bootReg j := by decide
  exact h ⟨i, hi⟩

theorem bootTable_occupies {i : Nat} (hi : i < 6) (n : Nat) :
    (bootTable.regions i).Occupies n ↔ n = bootReg i := by
  obtain ⟨hmode, hidx⟩ := bootTable_napot hi
  rw [occupies_napot hmode, hidx]

end Dorami.Sm
