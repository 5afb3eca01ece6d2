import Mathlib.Algebra.GroupWithZero.Nat
import Mathlib.Order.Fin.Basic
import Mathlib.Tactic.Common

/-!
# RISC-V physical memory protection

The PMP part of the RISC-V privileged architecture for RV64, as a hart applies it to an S- or U-mode
access to one byte: the configuration bytes packed into `pmpcfg0`, the four address-matching modes,
and the rule that the lowest-numbered matching entry decides.
-/

namespace Dorami.Riscv

/-! The numbers of general registers and of harts, for literals in `Fin`. -/

instance neZero_four : NeZero 4 := ⟨by decide⟩

instance neZero_five : NeZero 5 := ⟨by decide⟩

instance neZero_thirtyTwo : NeZero 32 := ⟨by decide⟩

/-- A 64-bit machine word. -/
abbrev Word := BitVec 64

/-- A byte. -/
abbrev Byte := BitVec 8

/-- The PMP CSRs of one hart: `pmpcfg g` is `pmpcfg0` for `g = 0` and `pmpcfg2` for `g = 2`, and
`pmpaddr n` is the address register of entry `n`. The registers keep the values written to them. -/
structure PmpRegs where
  pmpcfg : Nat → Word
  pmpaddr : Nat → Word

/-! ## The fields of a configuration byte -/

def PMP_R : Byte := 0x01
def PMP_W : Byte := 0x02
def PMP_X : Byte := 0x04
def PMP_A : Byte := 0x18
def PMP_A_TOR : Byte := 0x08
def PMP_A_NA4 : Byte := 0x10
def PMP_A_NAPOT : Byte := 0x18
def PMP_L : Byte := 0x80

/-- The permission bits and the lock bit of a configuration byte. -/
def PMP_LRWX : Byte := PMP_L ||| PMP_R ||| PMP_W ||| PMP_X

/-- Byte `i` of a packed configuration word. -/
def cfgByte (cfg : Word) (i : Nat) : Byte := (cfg >>> (8 * i)).setWidth 8

/-- What an entry allows S- and U-mode. -/
structure Perm where
  r : Bool
  w : Bool
  x : Bool
deriving DecidableEq, Repr

namespace Perm

def none : Perm := ⟨false, false, false⟩

def rwx : Perm := ⟨true, true, true⟩

/-- Some access is allowed. -/
def any (p : Perm) : Bool := p.r || p.w || p.x

/-- The permission bits of a configuration byte. -/
def ofByte (b : Byte) : Perm := ⟨b.getLsbD 0, b.getLsbD 1, b.getLsbD 2⟩

end Perm

/-! ## Address matching -/

/-- The number of trailing one bits of `n`, looking at no more than `fuel` bits. -/
def trailingOnes : (fuel : Nat) → Nat → Nat
  | 0, _ => 0
  | fuel + 1, n => if n % 2 = 1 then trailingOnes fuel (n / 2) + 1 else 0

/-- `pmpaddr` in NAPOT mode with `k` trailing ones stands for `2 ^ (k + 3)` bytes: the byte address
`a` matches when it agrees with `pmpaddr` above the trailing ones and the zero that ends them. -/
def napotMatches (pmpaddr : Word) (a : Nat) : Bool :=
  let k := trailingOnes 64 pmpaddr.toNat
  a / 2 ^ (k + 3) == pmpaddr.toNat / 2 ^ (k + 1)

/-- The lower bound of entry `i` in TOR mode: the address register below, and 0 for entry 0. -/
def torBase (r : PmpRegs) (i : Nat) : Nat := if i = 0 then 0 else (r.pmpaddr (i - 1)).toNat

/-- Entry `i` matches the byte address `a`. -/
def entryMatches (r : PmpRegs) (i a : Nat) : Bool :=
  let mode := cfgByte (r.pmpcfg 0) i &&& PMP_A
  if mode = PMP_A_TOR then decide (torBase r i ≤ a / 4 ∧ a / 4 < (r.pmpaddr i).toNat)
  else if mode = PMP_A_NA4 then a / 4 == (r.pmpaddr i).toNat
  else if mode = PMP_A_NAPOT then napotMatches (r.pmpaddr i) a
  else false

/-- The number of PMP entries the hart implements. -/
def entryCount : Nat := 8

/-- The entry that decides an access to `a`: the lowest-numbered one that matches. -/
def decider (r : PmpRegs) (a : Nat) : Option Nat :=
  (List.range entryCount).find? (fun i => entryMatches r i a)

/-- The permission of S- and U-mode at `a`. An access no entry matches is refused. -/
def suPerm (r : PmpRegs) (a : Nat) : Perm :=
  match decider r a with
  | some i => Perm.ofByte (cfgByte (r.pmpcfg 0) i)
  | Option.none => Perm.none

end Dorami.Riscv
