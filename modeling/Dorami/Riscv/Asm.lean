import Dorami.Lib.Run
import Dorami.Riscv.Pmp
import Mathlib.Logic.Function.Basic

/-!
# RISC-V assembly

A machine-mode subset of RV64 for straight-line code: the general registers, the CSRs as plain
storage, and a byte memory in which any address can be accessed. Code is a set of basic blocks; the
body of a block is a list of instructions, and its last instruction says where execution goes on. A
call of a function that is not part of the code ends the run.
-/

namespace Dorami.Riscv

open Lib

/-- A general register. -/
abbrev Reg := Fin 32

namespace Reg

abbrev zero : Reg := 0
abbrev ra : Reg := 1
abbrev sp : Reg := 2
abbrev gp : Reg := 3
abbrev tp : Reg := 4
abbrev t0 : Reg := 5
abbrev t1 : Reg := 6
abbrev t2 : Reg := 7
abbrev s0 : Reg := 8
abbrev s1 : Reg := 9
abbrev a0 : Reg := 10
abbrev a1 : Reg := 11
abbrev a2 : Reg := 12
abbrev a3 : Reg := 13
abbrev a4 : Reg := 14
abbrev a5 : Reg := 15
abbrev a6 : Reg := 16
abbrev a7 : Reg := 17
abbrev s2 : Reg := 18
abbrev s3 : Reg := 19
abbrev s4 : Reg := 20
abbrev s5 : Reg := 21
abbrev s6 : Reg := 22
abbrev s7 : Reg := 23
abbrev s8 : Reg := 24
abbrev s9 : Reg := 25
abbrev s10 : Reg := 26
abbrev s11 : Reg := 27
abbrev t3 : Reg := 28
abbrev t4 : Reg := 29
abbrev t5 : Reg := 30
abbrev t6 : Reg := 31

end Reg

/-- The CSRs the code uses. -/
inductive Csr where
  | mhartid
  | mstatus
  | mtvec
  | mscratch
  | mepc
  | sscratch
  | pmpcfg0
deriving DecidableEq, Repr

/-- The byte memory. -/
abbrev Mem := Word → Byte

namespace Mem

/-- The little-endian word at `a`. -/
def load (m : Mem) (a : Word) : Word :=
  m (a + 7) ++ m (a + 6) ++ m (a + 5) ++ m (a + 4) ++ m (a + 3) ++ m (a + 2) ++ m (a + 1) ++ m a

def store (m : Mem) (a v : Word) : Mem := fun x =>
  if (x - a).toNat < 8 then v.extractLsb' (8 * (x - a).toNat) 8 else m x

end Mem

/-- The offset of member `i` of a structure of words. -/
def slot (i : Nat) : Word := BitVec.ofNat 64 (8 * i)

/-- The state of a hart. -/
structure Cpu where
  gpr : Reg → Word
  csr : Csr → Word
  mem : Mem
  gpr_zero : gpr 0 = 0

/-- The instructions that go on to the next one. The immediates are given as the words they stand
for, and `li` stands for `lla` too. -/
inductive Op where
  | csrrw (rd : Reg) (csr : Csr) (rs : Reg)
  | csrr (rd : Reg) (csr : Csr)
  | csrw (csr : Csr) (rs : Reg)
  | csrwi (csr : Csr) (imm : Word)
  | csrci (csr : Csr) (imm : Word)
  | li (rd : Reg) (imm : Word)
  | add (rd rs1 rs2 : Reg)
  | and (rd rs1 rs2 : Reg)
  | xor (rd rs1 rs2 : Reg)
  | addi (rd rs : Reg) (imm : Word)
  | andi (rd rs : Reg) (imm : Word)
  | slti (rd rs : Reg) (imm : Word)
  | srli (rd rs : Reg) (shamt : Nat)
  | ld (rd : Reg) (offset : Word) (rs : Reg)
  | sd (rs2 : Reg) (offset : Word) (rs1 : Reg)

namespace Cpu

variable (c : Cpu)

/-- A write to `zero` has no effect. -/
def setGpr (rd : Reg) (v : Word) : Cpu :=
  if h : rd = 0 then c
  else { c with
    gpr := Function.update c.gpr rd v
    gpr_zero := (Function.update_of_ne (Ne.symm h) ..).trans c.gpr_zero }

def setCsr (csr : Csr) (v : Word) : Cpu := { c with csr := Function.update c.csr csr v }

def setMem (mem : Mem) : Cpu := { c with mem := mem }

def exec : Op → Cpu
  | .csrrw rd csr rs => (c.setCsr csr (c.gpr rs)).setGpr rd (c.csr csr)
  | .csrr rd csr => c.setGpr rd (c.csr csr)
  | .csrw csr rs => c.setCsr csr (c.gpr rs)
  | .csrwi csr imm => c.setCsr csr imm
  | .csrci csr imm => c.setCsr csr (c.csr csr &&& ~~~imm)
  | .li rd imm => c.setGpr rd imm
  | .add rd rs1 rs2 => c.setGpr rd (c.gpr rs1 + c.gpr rs2)
  | .and rd rs1 rs2 => c.setGpr rd (c.gpr rs1 &&& c.gpr rs2)
  | .xor rd rs1 rs2 => c.setGpr rd (c.gpr rs1 ^^^ c.gpr rs2)
  | .addi rd rs imm => c.setGpr rd (c.gpr rs + imm)
  | .andi rd rs imm => c.setGpr rd (c.gpr rs &&& imm)
  | .slti rd rs imm => c.setGpr rd (if (c.gpr rs).slt imm then 1 else 0)
  | .srli rd rs shamt => c.setGpr rd (c.gpr rs >>> shamt)
  | .ld rd offset rs => c.setGpr rd (c.mem.load (c.gpr rs + offset))
  | .sd rs2 offset rs1 => c.setMem (c.mem.store (c.gpr rs1 + offset) (c.gpr rs2))

/-- A list of instructions, one after the other. -/
def execs (ops : List Op) : Cpu := run exec c ops

/-- The address of the word that an instruction stores. -/
def storeAddr : Op → Option Word
  | .sd _ offset rs1 => some (c.gpr rs1 + offset)
  | _ => none

/-- The addresses that a list of instructions stores to, in order. -/
def storeAddrs (c : Cpu) : List Op → List Word
  | [] => []
  | op :: ops => (c.storeAddr op).toList ++ storeAddrs (c.exec op) ops

end Cpu

/-- How a block ends: it jumps, or runs into the block that follows it in memory; it branches; it
jumps to the address in a register; it calls a function outside. -/
inductive BlockEnd (L F : Type*) where
  | jump (target : L)
  | fallThrough (next : L)
  | bnez (rs : Reg) (target next : L)
  | jr (rs : Reg)
  | call (f : F)

structure Block (L F : Type*) where
  body : List Op
  last : BlockEnd L F

/-- The blocks of the code, and the labels of the addresses that `jr` can go to. -/
structure Code (L F : Type*) where
  block : L → Block L F
  label : Word → Option L

namespace Code

variable {L F : Type*} (code : Code L F)

/-- At most `n` blocks from label `l` on, up to a call. -/
def exec : Nat → L → Cpu → Option (F × Cpu)
  | 0, _, _ => none
  | n + 1, l, c =>
    let c := c.execs (code.block l).body
    match (code.block l).last with
    | .jump target | .fallThrough target => exec n target c
    | .bnez rs target next => exec n (if c.gpr rs ≠ 0 then target else next) c
    | .jr rs => (code.label (c.gpr rs)).bind fun target => exec n target c
    | .call f => some (f, c)

/-- Execution from label `l` comes to a call of `f`, in state `c'`. -/
def Calls (l : L) (c : Cpu) (f : F) (c' : Cpu) : Prop := ∃ n, code.exec n l c = some (f, c')

/-- The addresses that `exec n` stores to, in order. -/
def storeAddrs : Nat → L → Cpu → List Word
  | 0, _, _ => []
  | n + 1, l, c =>
    let c' := c.execs (code.block l).body
    c.storeAddrs (code.block l).body ++
      match (code.block l).last with
      | .jump target | .fallThrough target => storeAddrs n target c'
      | .bnez rs target next => storeAddrs n (if c'.gpr rs ≠ 0 then target else next) c'
      | .jr rs => (code.label (c'.gpr rs)).elim [] fun target => storeAddrs n target c'
      | .call _ => []

/-- Execution from label `l` stores a word at `a` before it comes to a call. -/
def Stores (l : L) (c : Cpu) (a : Word) : Prop := ∃ n, a ∈ code.storeAddrs n l c

end Code

end Dorami.Riscv
