import Dorami.Lib.Run
import Dorami.Sm.Sm
import Mathlib.Order.CompletePartialOrder
import Mathlib.Order.Interval.Set.Disjoint

/-!
# The bytes and the registers of a region

What the results about `pmp.c` speak of: the bytes of a region, the PMP registers it takes and what
they hold when it is programmed, what it means that the regions of the table are disjoint, and the
tables that calls made after boot lead to.
-/

namespace Dorami.Sm

open Riscv Lib

/-- The byte range `[start, start + size)`. -/
def byteRange (start size : Word) : Set Nat := Set.Ico start.toNat (start.toNat + size.toNat)

/-- The bytes of a region. -/
def PmpRegion.bytes (r : PmpRegion) : Set Nat := byteRange r.addr r.size

/-- The addresses a region stands for: its bytes, or everything for the region `(0, 2 ^ 64 - 1)`. -/
def PmpRegion.extent (R : PmpRegion) : Set Nat := if R.isNapotAll then Set.univ else R.bytes

/-- The base and the size of a region are ones `pmp_region_init` accepts without overlap. -/
structure PmpRegion.WellPlaced (r : PmpRegion) : Prop where
  size_pos : 0 < r.size.toNat
  fits : r.addr.toNat + r.size.toNat < 2 ^ 64
  pages : (4096 ∣ r.addr.toNat ∧ 4096 ∣ r.size.toNat) ∨ (r.addr = 0 ∧ r.size.toNat = 2 ^ 64 - 1)

/-- Slot `i` holds a defined region with `allow_overlap = 0`. -/
def PmpTable.Exclusive (t : PmpTable) (i : Nat) : Prop :=
  t.isPmpRegionValid i = true ∧ (t.regions i).allowOverlap = false

/-- The exclusive regions of the table are well placed and pairwise disjoint. -/
structure PmpTable.Separated (t : PmpTable) : Prop where
  slot : ∀ i, t.isPmpRegionValid i = true → i < PMP_MAX_N_REGION
  placed : ∀ i, t.Exclusive i → (t.regions i).WellPlaced
  disjoint : ∀ i j, t.Exclusive i → t.Exclusive j → i ≠ j →
    Disjoint (t.regions i).bytes (t.regions j).bytes

/-- The region occupies PMP register `n`: its own register and, for a TOR region above register 0,
the one below. -/
def PmpRegion.Occupies (r : PmpRegion) (n : Nat) : Prop :=
  n = r.regIdx ∨ (r.needsTwoEntries = true ∧ n = r.regIdx - 1)

instance (r : PmpRegion) (n : Nat) : Decidable (r.Occupies n) :=
  inferInstanceAs (Decidable (n = r.regIdx ∨ (r.needsTwoEntries = true ∧ n = r.regIdx - 1)))

/-- The registers hold the region with the given permission. -/
structure Installed (R : PmpRegion) (perm : Byte) (r : PmpRegs) : Prop where
  cfg : cfgByte (r.pmpcfg 0) R.regIdx = R.addrmode ||| (perm &&& PMP_LRWX)
  addr : r.pmpaddr R.regIdx = R.pmpaddrVal
  low : R.needsTwoEntries = true → cfgByte (r.pmpcfg 0) (R.regIdx - 1) = 0 ∧
    r.pmpaddr (R.regIdx - 1) = R.addr >>> 2

/-! ## Tables after boot -/

/-- The call creates no region that may overlap others. -/
def PmpCall.NoOverlap : PmpCall → Prop
  | .init _ _ _ allowOverlap => allowOverlap = false
  | .free _ => True

/-- The calls that creating and destroying enclaves makes after boot. -/
abbrev EnclaveCall := {c : PmpCall // c.AfterBoot ∧ c.NoOverlap}

def PmpTable.enclaveStep (t : PmpTable) (c : EnclaveCall) : PmpTable := t.step c.1

/-- The table after the calls `cs` made after boot. -/
def tableAfter (cs : List EnclaveCall) : PmpTable := run PmpTable.enclaveStep bootTable cs

/-! ## Which registers are taken -/

/-- The region table together with the priority each region was created with, which the code does
not record. -/
structure Ledger where
  table : PmpTable
  priority : Nat → PmpPriority

namespace Ledger

/-- The ledger after a call. -/
def step (s : Ledger) (c : PmpCall) : Ledger :=
  { table := s.table.step c
    priority := match c with
      | .init start size priority allowOverlap =>
        match s.table.pmpRegionInit start size priority allowOverlap with
        | (_, .ok rid) => fun j => if j = rid then priority else s.priority j
        | (_, .error _) => s.priority
      | .free _ => s.priority }

/-- The ledger after `sm_init`. -/
def boot : Ledger := run step ⟨PmpTable.empty, fun _ => .any⟩ bootCalls

/-- A defined region occupies register `n`. -/
def Taken (s : Ledger) (i n : Nat) : Prop :=
  s.table.isPmpRegionValid i = true ∧ (s.table.regions i).Occupies n

/-- The bitmap tells which registers are taken, and the regions that are not at the bottom do not
share theirs. -/
structure Booked (s : Ledger) : Prop where
  bits : ∀ n, testBit s.table.regBitmap n = true ↔ ∃ i, s.Taken i n
  owned : ∀ i j n, s.priority i ≠ .bottom → s.Taken i n → i ≠ j → ¬ s.Taken j n

/-- The call does not release a region created with the bottom priority. -/
def KeepsBottom (s : Ledger) : PmpCall → Prop
  | .init .. => True
  | .free rid => s.table.isPmpRegionValid rid = true → s.priority rid ≠ .bottom

/-- The calls made after boot, which release only regions created after it. -/
abbrev Call := {c : PmpCall // c.AfterBoot}

def stepAfterBoot (s : Ledger) (c : Call) : Ledger := s.step c

end Ledger

end Dorami.Sm
