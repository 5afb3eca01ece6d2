import Dorami.Monitor.Trap
import Dorami.Riscv.Asm

/-!
# The world switch (`monitor.S` and `fw_base.S`)

The code that takes a hart from the monitor to OpenSBI and back. On the way out `_mon_exit_to_osbi`
restores a frame of the monitor, jumps to the last instructions of the monitor's last page and runs
on into `_start` of OpenSBI, where `_trap_handler_M` builds a frame again. On the way back
`_trap_exit_M` restores a frame of OpenSBI, jumps to the last instruction of OpenSBI's last page and
runs on into the sallyport, which jumps to `_mon_enter_osbi`. Each side leaves one half of an
exchange of registers with `mscratch` or `sscratch` to the other.

The macros keep their names. `_mon_goto_secondary_lastbits`, the target of the jump out of the
monitor, is `monitor_last_instructions`.
-/

namespace Dorami.Sm

open Riscv Riscv.Reg

/-! ## Macros -/

/-- `SBI_TRAP_REGS_OFFSET` of the members after the registers. -/
def TRAP_REGS_mepc : Word := slot 32
def TRAP_REGS_mstatus : Word := slot 33
def TRAP_REGS_mstatusH : Word := slot 34
def TRAP_REGS_mscratch : Word := slot 35

/-- `SBI_TRAP_REGS_SIZE` and `SBI_SCRATCH_TMP0_OFFSET` of the two images. -/
structure TrapLayout where
  size : Word
  tmp0 : Word

def monitorLayout : TrapLayout := ⟨slot 37, slot 6⟩

def osbiLayout : TrapLayout := ⟨slot 35, slot 12⟩

/-- `TRAP_SAVE_AND_SETUP_SP_T0`, the same text in both images. -/
def trapSaveAndSetupSpT0 (y : TrapLayout) : List Op :=
  [.csrrw tp .mscratch tp,
   .sd t0 y.tmp0 tp,
   .csrr t0 .mstatus,
   .srli t0 t0 11,
   .andi t0 t0 3,
   .slti t0 t0 3,
   .addi t0 t0 (-1),
   .xor sp sp tp,
   .and t0 t0 sp,
   .xor sp sp tp,
   .xor t0 tp t0,
   .sd sp (slot 2 - y.size) t0,
   .addi sp t0 (-y.size),
   .ld t0 y.tmp0 tp,
   .sd t0 (slot 5) sp,
   .csrrw tp .mscratch tp]

/-- `TRAP_SAVE_MEPC_MSTATUS 0`. -/
def trapSaveMepcMstatus : List Op :=
  [.csrr t0 .mepc,
   .sd t0 TRAP_REGS_mepc sp,
   .csrr t0 .mstatus,
   .sd t0 TRAP_REGS_mstatus sp,
   .sd zero TRAP_REGS_mstatusH sp]

def savedRegs : List Reg :=
  [zero, ra, gp, tp, t1, t2, s0, s1, a0, a1, a2, a3, a4, a5, a6, a7, s2, s3, s4, s5, s6, s7, s8, s9,
   s10, s11, t3, t4, t5, t6]

/-- `TRAP_SAVE_GENERAL_REGS_EXCEPT_SP_T0`. -/
def trapSaveGeneralRegsExceptSpT0 : List Op := savedRegs.map fun r => .sd r (slot r) sp

def restoredRegs : List Reg :=
  [ra, sp, gp, tp, t1, t2, s0, s1, a1, a2, a3, a4, a5, a6, a7, s2, s3, s4, s5, s6, s7, s8, s9, s10,
   s11, t3, t4, t5, t6]

/-- `TRAP_RESTORE_GENERAL_REGS_EXCEPT_A0_T0`. -/
def trapRestoreGeneralRegsExceptA0T0 : List Op := restoredRegs.map fun r => .ld r (slot r) a0

/-- `TRAP_RESTORE_MEPC_MSTATUS 0`. -/
def trapRestoreMepcMstatus : List Op :=
  [.ld t0 TRAP_REGS_mepc a0,
   .csrw .mepc t0,
   .ld t0 TRAP_REGS_mstatus a0,
   .csrw .mstatus t0]

/-- `TRAP_RESTORE_A0_T0`. -/
def trapRestoreA0T0 : List Op := [.ld t0 (slot 5) a0, .ld a0 (slot 10) a0]

/-- `TRAP_OSBI_RESTORE_MSCRATCH_STAGE2`. -/
def trapOsbiRestoreMscratchStage2 : List Op := [.ld t0 TRAP_REGS_mscratch a0, .csrw .mscratch t0]

def OSBI_VEC : Word := 0x800404e8

/-- `TRAP_OSBI_SET_MTVEC`. -/
def trapOsbiSetMtvec : List Op := [.li t0 OSBI_VEC, .csrrw t0 .mtvec t0]

/-- `TRAP_OSBI_PUSH_PMP_MSCRATCH`. -/
def trapOsbiPushPmpMscratch : List Op :=
  [.csrrw t0 .sscratch t0,
   .li t0 LOCK_OSBI,
   .csrrw t0 .pmpcfg0 t0,
   .csrr t0 .mscratch,
   .csrrw t0 .sscratch t0]

/-- `TRAP_OSBI_PULL_PMP_MSCRATCH`. -/
def trapOsbiPullPmpMscratch : List Op :=
  [.csrrw tp .mscratch tp,
   .sd t0 monitorLayout.tmp0 tp,
   .csrr t0 .sscratch,
   .sd t0 TRAP_REGS_mscratch sp,
   .ld t0 monitorLayout.tmp0 tp,
   .csrrw tp .mscratch tp]

/-! ## Blocks -/

inductive SwitchLabel where
  | monExitToOsbi
  | monitorLastInstructions
  /-- `_start` of OpenSBI, and the rest of it when `mscratch` is 0. -/
  | start
  | startCold
  | trapHandlerM
  | trapExitM
  | osbiLastInstruction
  | sallyportEntry
  | monEnterOsbi
  /-- In `TRAP_OSBI_GET_MSCRATCH`: the labels 1 to 4, what follows the test for hart `k`,
  and label 5. -/
  | testHart (k : Fin 4)
  | isHart (k : Fin 5)
  | getMscratch

/-- The functions that the code calls, and the boot code of OpenSBI. -/
inductive SwitchCall where
  | sbiTrapHandler
  | monTrapReturnOsbi
  | entry2
deriving DecidableEq

/-- The addresses that the linker chooses. -/
structure SwitchSymbols where
  scratchAddrs : Word
  startHang : Word

variable (sy : SwitchSymbols)

def switchBlock : SwitchLabel → Block SwitchLabel SwitchCall
  | .monExitToOsbi =>
    ⟨trapOsbiSetMtvec ++ trapRestoreGeneralRegsExceptA0T0 ++ trapRestoreMepcMstatus ++
      trapOsbiRestoreMscratchStage2 ++ trapRestoreA0T0, .jump .monitorLastInstructions⟩
  | .monitorLastInstructions =>
    ⟨[.csrrw t0 .sscratch t0, .li t0 UNLOCK_OSBI, .csrw .pmpcfg0 t0], .fallThrough .start⟩
  | .start => ⟨[.csrrw t6 .mscratch t6], .bnez t6 .trapHandlerM .startCold⟩
  | .startCold => ⟨[.csrrw t6 .mscratch t6], .call .entry2⟩
  | .trapHandlerM =>
    ⟨[.csrrw t6 .mscratch t6, .csrrw t0 .sscratch t0] ++ trapSaveAndSetupSpT0 osbiLayout ++
      trapSaveMepcMstatus ++ trapSaveGeneralRegsExceptSpT0 ++ [.add a0 sp zero],
      .call .sbiTrapHandler⟩
  | .trapExitM =>
    ⟨trapRestoreGeneralRegsExceptA0T0 ++ trapRestoreMepcMstatus ++ trapRestoreA0T0,
      .jump .osbiLastInstruction⟩
  | .osbiLastInstruction => ⟨[.csrwi .pmpcfg0 0], .fallThrough .sallyportEntry⟩
  | .sallyportEntry =>
    ⟨[.csrci .mstatus 8, .csrrw t6 .sscratch t6, .li t6 0x800004e8, .csrw .mtvec t6,
      .li t6 0x1F001D1F18181B1D, .csrw .pmpcfg0 t6, .li t6 0x80001000], .jr t6⟩
  | .monEnterOsbi =>
    ⟨[.csrrw t6 .sscratch t6] ++ trapOsbiPushPmpMscratch ++
      [.csrrw t6 .mscratch t6, .csrr t6 .mhartid], .bnez t6 (.testHart 0) (.isHart 0)⟩
  | .testHart 0 => ⟨[.csrr t6 .mhartid, .addi t6 t6 (-1)], .bnez t6 (.testHart 1) (.isHart 1)⟩
  | .testHart 1 => ⟨[.csrr t6 .mhartid, .addi t6 t6 (-2)], .bnez t6 (.testHart 2) (.isHart 2)⟩
  | .testHart 2 => ⟨[.csrr t6 .mhartid, .addi t6 t6 (-3)], .bnez t6 (.testHart 3) (.isHart 3)⟩
  -- an unknown hart stays here
  | .testHart 3 => ⟨[.csrr t6 .mhartid, .addi t6 t6 (-4)], .bnez t6 (.testHart 3) (.isHart 4)⟩
  | .isHart 0 => ⟨[.li t6 sy.scratchAddrs], .jump .getMscratch⟩
  | .isHart 1 => ⟨[.li t6 sy.scratchAddrs, .addi t6 t6 8], .jump .getMscratch⟩
  | .isHart 2 => ⟨[.li t6 sy.scratchAddrs, .addi t6 t6 16], .jump .getMscratch⟩
  | .isHart 3 => ⟨[.li t6 sy.scratchAddrs, .addi t6 t6 24], .jump .getMscratch⟩
  | .isHart 4 =>
      ⟨[.li t6 sy.scratchAddrs, .addi t6 t6 31, .addi t6 t6 1], .fallThrough .getMscratch⟩
  | .getMscratch =>
    ⟨[.ld t6 0 t6, .csrrw t6 .mscratch t6] ++ trapSaveAndSetupSpT0 monitorLayout ++
      trapSaveMepcMstatus ++ trapSaveGeneralRegsExceptSpT0 ++ trapOsbiPullPmpMscratch ++
      [.li t6 sy.startHang, .csrrw t6 .mtvec t6, .add a0 sp zero], .call .monTrapReturnOsbi⟩

/-- `_mon_enter_osbi` is at the start of the second page of the monitor. -/
def switchCode : Code SwitchLabel SwitchCall :=
  ⟨switchBlock sy, fun a => if a = 0x80001000 then some .monEnterOsbi else none⟩

/-! ## What the switch hands over -/

end Dorami.Sm

namespace Dorami.Riscv

/-- Member `i` of the frame `a0` points to. -/
def Cpu.frame (c : Cpu) (i : Nat) : Word := c.mem.load (c.gpr Reg.a0 + slot i)

end Dorami.Riscv

namespace Dorami.Sm

open Riscv

def MSTATUS_MIE : Word := 8

/-- `MPP` of a value of `mstatus`. -/
def mppOf (mstatus : Word) : Word := mstatus >>> 11 &&& 3

/-- `_mon_exit_to_osbi` for the frame `a0` points to: `sbi_trap_handler` gets a frame with the same
registers, `mepc` and `mstatus`, and `mscratch` is that of the frame. -/
def ExitsToOsbi (sy : SwitchSymbols) (c : Cpu) : Prop := ∃ c',
  (switchCode sy).Calls .monExitToOsbi c .sbiTrapHandler c' ∧
    (∀ i, 1 ≤ i → i ≤ 33 → c'.frame i = c.frame i) ∧ c'.csr .mscratch = c.frame 35

/-- `_trap_exit_M` for the frame `a0` points to: `mon_trap_return_osbi` gets a frame with the same
registers and `mepc`, with the same `mstatus` up to `MIE`, and with the `mscratch` of OpenSBI. -/
def ReturnsFromOsbi (sy : SwitchSymbols) (c : Cpu) : Prop := ∃ c',
  (switchCode sy).Calls .trapExitM c .monTrapReturnOsbi c' ∧
    (∀ i, 1 ≤ i → i ≤ 32 → c'.frame i = c.frame i) ∧
    c'.frame 33 &&& ~~~MSTATUS_MIE = c.frame 33 &&& ~~~MSTATUS_MIE ∧ c'.frame 35 = c.csr .mscratch

/-- The scratch space of the hart, as `_scratch_addrs` has it. -/
def scratchSpace (sy : SwitchSymbols) (c : Cpu) : Word :=
  c.mem.load (sy.scratchAddrs + slot (c.csr .mhartid).toNat)

/-- The registers of OpenSBI when it comes to `_mon_enter_osbi`; the sallyport has put `t6` into
`sscratch`. -/
def presented (c : Cpu) (r : Reg) : Word := if r = Reg.t6 then c.csr .sscratch else c.gpr r

/-- The bytes of the frame directly below the scratch space. -/
def InOwnFrame (scratch a : Word) : Prop :=
  (a - (scratch - monitorLayout.size)).toNat < monitorLayout.size.toNat

/-- The bytes of `struct mon_scratch`, a structure of 14 words. -/
def InOwnScratch (scratch a : Word) : Prop := (a - scratch).toNat < (slot 14).toNat

/-- `_mon_enter_osbi` runs on the stack of the hart: the registers, `mepc`, `mstatus` and `mscratch`
of OpenSBI are stored in the frame directly below the scratch space, `sp` and `a0` point to it, and
every store goes there or to the scratch space. -/
structure EntersOnOwnStack (sy : SwitchSymbols) (c : Cpu) : Prop where
  calls : ∃ c', (switchCode sy).Calls .monEnterOsbi c .monTrapReturnOsbi c' ∧
    c'.gpr Reg.sp = scratchSpace sy c - monitorLayout.size ∧
    c'.gpr Reg.a0 = scratchSpace sy c - monitorLayout.size ∧
    (∀ r : Reg, r ≠ 0 → c'.frame r = presented c r) ∧ c'.frame 32 = c.csr .mepc ∧
    c'.frame 33 = c.csr .mstatus ∧ c'.frame 35 = c.csr .mscratch
  stores : ∀ a, (switchCode sy).Stores .monEnterOsbi c a → ∀ k < 8,
    InOwnFrame (scratchSpace sy c) (a + BitVec.ofNat 64 k) ∨
      InOwnScratch (scratchSpace sy c) (a + BitVec.ofNat 64 k)

/-- `tmp0` of the scratch space at `scratch` meets a register, `mepc` or a part of `mstatus` in a
frame below `sp`. -/
def clobbers (scratch sp : Word) : Bool :=
  let d := (scratch + monitorLayout.tmp0 - (sp - monitorLayout.size)).toNat
  decide (0 < d) && decide (d < 272) && decide (d ≠ 264)

end Dorami.Sm
