import Dorami.Riscv.Asm
import Dorami.Sm.Enclave

/-!
# Copies between the monitor and S-mode (`mprv.h`, `mprv.S`)

The six primitives of `mprv.S` are lists of instructions, some of which run with `MPRV` set and
access memory as S-mode does. An access of several bytes faults if S-mode may not make it to one of
them. A fault goes to the handler that `TRY` installs, so that the primitive returns -1; what it has
written stays. The loops of `mprv.h` copy blocks and words as long as both pointers are aligned.
-/

namespace Dorami.Sm.Mprv

open Riscv

def REGBYTES : Nat := 8
def MPRV_BLOCK : Nat := REGBYTES * 8

/-! ## The primitives -/

/-- The instructions between `TRY` and `CATCH_ERR`; the first two are macros, which
use a register. -/
inductive Op where
  | setMprv (reg : Reg)
  | unsetMprv (reg : Reg)
  | load (rd : Reg) (offset : Nat) (rs : Reg)
  | store (rs2 : Reg) (offset : Nat) (rs1 : Reg)
  | lb (rd rs : Reg)
  | sb (rs2 rs1 : Reg)

structure Hart where
  gpr : Reg → Word
  mprv : Bool
  mem : Mem

section Exec

variable (acc : Word → Bool)

/-- The access of `n` bytes at `a` does not fault; `acc` are the addresses S-mode can access. -/
def Hart.allows (c : Hart) (a : Word) (n : Nat) : Bool :=
  !c.mprv || (List.range n).all fun i => acc (a + BitVec.ofNat 64 i)

/-- One instruction; `none` is a fault. -/
def Hart.exec (c : Hart) : Op → Option Hart
  | .setMprv reg => some { c with gpr := Function.update c.gpr reg (1 <<< 17), mprv := true }
  | .unsetMprv reg => some { c with gpr := Function.update c.gpr reg (1 <<< 17), mprv := false }
  | .load rd offset rs =>
    let a := c.gpr rs + BitVec.ofNat 64 offset
    if c.allows acc a REGBYTES then some { c with gpr := Function.update c.gpr rd (c.mem.load a) }
    else none
  | .store rs2 offset rs1 =>
    let a := c.gpr rs1 + BitVec.ofNat 64 offset
    if c.allows acc a REGBYTES then some { c with mem := c.mem.store a (c.gpr rs2) } else none
  | .lb rd rs =>
    let a := c.gpr rs
    if c.allows acc a 1 then
      some { c with gpr := Function.update c.gpr rd ((c.mem a).signExtend 64) }
    else none
  | .sb rs2 rs1 =>
    let a := c.gpr rs1
    if c.allows acc a 1 then
      some { c with mem := Function.update c.mem a ((c.gpr rs2).setWidth 8) }
    else none

/-- A primitive from `TRY` to `TRY_END`: the memory it leaves, and its result. -/
def Hart.tryExec (c : Hart) : List Op → Mem × Int
  | [] => (c.mem, 0)
  | op :: ops =>
    match c.exec acc op with
    | some c => c.tryExec ops
    | none => (c.mem, -1)

/-- The call of a primitive with `dst` in `a0` and `src` in `a1`. -/
def call (ops : List Op) (dst src : Word) (mem : Mem) : Mem × Int :=
  Hart.tryExec acc ⟨Function.update (Function.update (fun _ => 0) Reg.a0 dst) Reg.a1 src, false,
    mem⟩ ops

/-- The registers a block passes through. -/
def blockRegs : List Reg :=
  [Reg.t0, Reg.t1, Reg.t2, Reg.t3, Reg.t4, Reg.t5, Reg.t6, Reg.a6]

/-- `LOAD` of each register from the words at `base`, from word `i` on. -/
def loads (base : Reg) : (i : Nat) → List Reg → List Op
  | _, [] => []
  | i, r :: rs => .load r (i * REGBYTES) base :: loads base (i + 1) rs

/-- `STORE` of each register to the words at `base`, from word `i` on. -/
def stores (base : Reg) : (i : Nat) → List Reg → List Op
  | _, [] => []
  | i, r :: rs => .store r (i * REGBYTES) base :: stores base (i + 1) rs

def copyBlockToSm : Word → Word → Mem → Mem × Int :=
  call acc ([.setMprv Reg.t0] ++ loads Reg.a1 0 blockRegs ++ [.unsetMprv Reg.a1] ++
    stores Reg.a0 0 blockRegs)

def copyWordToSm : Word → Word → Mem → Mem × Int :=
  call acc [.setMprv Reg.t5, .load Reg.t0 0 Reg.a1, .unsetMprv Reg.t5, .store Reg.t0 0 Reg.a0]

def copy1ToSm : Word → Word → Mem → Mem × Int :=
  call acc [.setMprv Reg.t5, .lb Reg.t0 Reg.a1, .unsetMprv Reg.t5, .sb Reg.t0 Reg.a0]

def copyBlockFromSm : Word → Word → Mem → Mem × Int :=
  call acc (loads Reg.a1 0 blockRegs ++ [.setMprv Reg.a1] ++ stores Reg.a0 0 blockRegs ++
    [.unsetMprv Reg.a1])

def copyWordFromSm : Word → Word → Mem → Mem × Int :=
  call acc [.load Reg.t0 0 Reg.a1, .setMprv Reg.t5, .store Reg.t0 0 Reg.a0]

def copy1FromSm : Word → Word → Mem → Mem × Int :=
  call acc [.lb Reg.t0 Reg.a1, .setMprv Reg.t5, .sb Reg.t0 Reg.a0]

end Exec

/-! ## The loops -/

/-- The variables of `copy_from_sm` and `copy_to_sm`, and the memory. -/
structure Cursor where
  dst : Word
  src : Word
  len : Nat
  mem : Mem

/-- `while (len >= size)` with the primitive `copy`; a result other than 0 is returned from the
function. -/
def whileCopy (size : Nat) (hsize : 0 < size) (copy : Word → Word → Mem → Mem × Int) (c : Cursor) :
    Cursor × Int :=
  if size ≤ c.len then
    let (mem, res) := copy c.dst c.src c.mem
    if res ≠ 0 then ({ c with mem := mem }, res)
    else
      whileCopy size hsize copy
        ⟨c.dst + BitVec.ofNat 64 size, c.src + BitVec.ofNat 64 size, c.len - size, mem⟩
  else (c, 0)
termination_by c.len

/-- The body of `copy_from_sm` and `copy_to_sm`. -/
def userCopy (copyBlock copyWord copy1 : Word → Word → Mem → Mem × Int) (dst src : Word) (len : Nat)
    (mem : Mem) : Mem × Int :=
  let c : Cursor := ⟨dst, src, len, mem⟩
  let (c, res) :=
    if src.toNat % REGBYTES = 0 ∧ dst.toNat % REGBYTES = 0 then
      let (c, res) := whileCopy MPRV_BLOCK (by decide) copyBlock c
      if res ≠ 0 then (c, res) else whileCopy REGBYTES (by decide) copyWord c
    else (c, 0)
  if res ≠ 0 then (c.mem, res)
  else
    let (c, res) := whileCopy 1 (by decide) copy1 c
    (c.mem, res)

/-- `copy_from_sm`; the destination is S-mode's. -/
def copyFromSm (acc : Word → Bool) (dst src : Word) (len : Nat) (mem : Mem) : Mem × Int :=
  userCopy (copyBlockFromSm acc) (copyWordFromSm acc) (copy1FromSm acc) dst src len mem

/-- `copy_to_sm`; the source is S-mode's. -/
def copyToSm (acc : Word → Bool) (dst src : Word) (len : Nat) (mem : Mem) : Mem × Int :=
  userCopy (copyBlockToSm acc) (copyWordToSm acc) (copy1ToSm acc) dst src len mem

/-- What a copy of `len` bytes from `src` to `dst` is to do, where the range at `u` is S-mode's. It
returns 0 if that range can be accessed; otherwise it has copied a part that ends before the first
byte that cannot be. -/
structure ByteCopy (acc : Word → Bool) (u dst src : Word) (len : Nat) (mem : Mem) (r : Mem × Int) :
    Prop where
  ret : r.2 = 0 ↔ ∀ i < len, acc (u + BitVec.ofNat 64 i) = true
  done : r.2 = 0 →
    (∀ i < len, r.1 (dst + BitVec.ofNat 64 i) = mem (src + BitVec.ofNat 64 i)) ∧
      ∀ a, (∀ i < len, a ≠ dst + BitVec.ofNat 64 i) → r.1 a = mem a
  cut : r.2 ≠ 0 → ∃ k < len,
    (∀ i < k, r.1 (dst + BitVec.ofNat 64 i) = mem (src + BitVec.ofNat 64 i)) ∧
      (∀ a, (∀ i < k, a ≠ dst + BitVec.ofNat 64 i) → r.1 a = mem a) ∧
      ∀ i < len, acc (u + BitVec.ofNat 64 i) = false → k ≤ i

end Dorami.Sm.Mprv
