import Dorami.Monitor.Assembly
import Dorami.Riscv.Proofs.AsmProofs

/-!
# The world switch hands frames over

Each macro has a lemma that says what it leaves in the registers, the CSRs and the frame. Saving
goes through `tmp0` of the scratch space: `t0` is kept there while it is used to find the stack.
This is safe as long as the frame does not cover `tmp0`, which a frame below the scratch space
never does. A frame of OpenSBI with `MPP` = M, however, makes the monitor build its frame below
the `sp` of OpenSBI.
-/

namespace Dorami.Sm

open Riscv Riscv.Reg

/-! ## Saving -/

theorem mppOf_cases (v : Word) : mppOf v = 0 ∨ mppOf v = 1 ∨ mppOf v = 2 ∨ mppOf v = 3 := by
  have hlt : (mppOf v).toNat < 4 := by
    unfold mppOf
    rw [BitVec.toNat_and]
    exact Nat.lt_of_le_of_lt Nat.and_le_right (by decide)
  bv_omega

/-- Where the frame goes: below the scratch space, or below `sp` when `MPP` is M. -/
def exceptionStack (c : Cpu) : Word :=
  if mppOf (c.csr .mstatus) = 3 then c.gpr sp else c.csr .mscratch

theorem exceptionStack_eq (c : Cpu) :
    c.csr .mscratch ^^^ ((if (c.csr .mstatus >>> 11 &&& 3#64).slt 3#64 then 1#64 else 0#64) +
        18446744073709551615#64 &&& (c.gpr 2 ^^^ c.csr .mscratch)) = exceptionStack c := by
  have hmpp : c.csr .mstatus >>> 11 &&& 3#64 = mppOf (c.csr .mstatus) := rfl
  unfold exceptionStack
  rw [hmpp]
  rcases mppOf_cases (c.csr .mstatus) with h | h | h | h <;> rw [h]
  · simp
  · simp
  · simp
  · have hones : ((if (3 : Word).slt 3#64 then 1#64 else 0#64) + 18446744073709551615#64 : Word) =
        BitVec.allOnes 64 := by decide
    rw [hones, BitVec.allOnes_and, if_pos rfl, BitVec.xor_comm (c.gpr 2), ← BitVec.xor_assoc,
      BitVec.xor_self, BitVec.zero_xor]

/-- The address of the frame, and of `tmp0`. -/
def frameBase (y : TrapLayout) (c : Cpu) : Word := exceptionStack c - y.size

def tmpAddr (y : TrapLayout) (c : Cpu) : Word := c.csr .mscratch + y.tmp0

/-- The memory once `sp` is saved; `t0` is then read back from `tmp0`. -/
def stackMem (y : TrapLayout) (c : Cpu) : Mem :=
  (c.mem.store (tmpAddr y c) (c.gpr t0)).store (frameBase y c + slot 2) (c.gpr sp)

/-- What `TRAP_SAVE_AND_SETUP_SP_T0` does. -/
structure SetUp (y : TrapLayout) (c c' : Cpu) : Prop where
  stack : c'.gpr sp = frameBase y c
  other : ∀ r, r ≠ sp → r ≠ t0 → c'.gpr r = c.gpr r
  csr : c'.csr = c.csr
  mem : c'.mem = (stackMem y c).store (frameBase y c + slot 5) ((stackMem y c).load (tmpAddr y c))

theorem trapSaveAndSetupSpT0_spec (y : TrapLayout) (c : Cpu) :
    SetUp y c (c.execs (trapSaveAndSetupSpT0 y)) := by
  have hstack := exceptionStack_eq c
  have hoff : ∀ e : Word, e + (slot 2 - y.size) = e - y.size + slot 2 := fun e => by
    rw [BitVec.sub_eq_add_neg, BitVec.sub_eq_add_neg, BitVec.add_assoc, BitVec.add_comm (slot 2)]
  have hneg : ∀ e : Word, e + -y.size = e - y.size := fun e => (BitVec.sub_eq_add_neg ..).symm
  have hxor : ∀ a b : Word, a ^^^ b ^^^ b = a := fun a b => by
    rw [BitVec.xor_assoc, BitVec.xor_self, BitVec.xor_zero]
  constructor
  · simp [trapSaveAndSetupSpT0, Cpu.exec, Cpu.gpr_setGpr, tp, t0, sp, hstack, hneg, frameBase]
  · intro r hsp ht0
    have hsp : r ≠ 2 := hsp
    have ht0 : r ≠ 5 := ht0
    by_cases htp : r = 4 <;>
      simp [trapSaveAndSetupSpT0, Cpu.exec, Cpu.gpr_setGpr, tp, t0, sp, hsp, ht0, htp]
  · simp [trapSaveAndSetupSpT0, Cpu.exec, Cpu.gpr_setGpr, tp, t0, sp]
  · simp [trapSaveAndSetupSpT0, Cpu.exec, Cpu.gpr_setGpr, tp, t0, sp, hstack, hneg, hoff, hxor,
      stackMem, frameBase, tmpAddr]

/-- What saving a frame does: the frame holds the registers, `mepc` and `mstatus`, except that the
member `t0` is what was read back from `tmp0`. -/
structure Saved (y : TrapLayout) (c c' : Cpu) : Prop where
  stack : c'.gpr sp = frameBase y c
  temp : c'.gpr t0 = c.csr .mstatus
  other : ∀ r, r ≠ sp → r ≠ t0 → c'.gpr r = c.gpr r
  csr : c'.csr = c.csr
  reg : ∀ r : Reg, r ≠ t0 → c'.mem.load (frameBase y c + slot r) = c.gpr r
  regT0 : c'.mem.load (frameBase y c + slot 5) = (stackMem y c).load (tmpAddr y c)
  mepc : c'.mem.load (frameBase y c + slot 32) = c.csr .mepc
  mstatus : c'.mem.load (frameBase y c + slot 33) = c.csr .mstatus

theorem mem_savedRegs : ∀ {r : Reg}, r ≠ sp → r ≠ t0 → r ∈ savedRegs := by
  decide

theorem ne_of_mem_savedRegs : ∀ r ∈ savedRegs, r.val ≠ 2 ∧ r.val ≠ 5 := by
  decide

theorem saved_spec (y : TrapLayout) (c : Cpu) :
    Saved y c (c.execs (trapSaveAndSetupSpT0 y ++ trapSaveMepcMstatus ++
      trapSaveGeneralRegsExceptSpT0)) := by
  obtain ⟨hstack, hother, hcsr, hmem⟩ := trapSaveAndSetupSpT0_spec y c
  rw [Cpu.execs_append, Cpu.execs_append]
  generalize c.execs (trapSaveAndSetupSpT0 y) = c1 at *
  -- `mepc` and `mstatus`
  have ht0 : (c1.execs trapSaveMepcMstatus).gpr t0 = c.csr .mstatus := by
    simp [trapSaveMepcMstatus, Cpu.exec, Cpu.gpr_setGpr, t0, hcsr]
  have hother2 : ∀ r, r ≠ t0 → (c1.execs trapSaveMepcMstatus).gpr r = c1.gpr r := by
    intro r hr
    have hr : r ≠ 5 := hr
    simp [trapSaveMepcMstatus, Cpu.exec, Cpu.gpr_setGpr, t0, hr]
  have hcsr2 : (c1.execs trapSaveMepcMstatus).csr = c.csr := by
    simp [trapSaveMepcMstatus, Cpu.exec, hcsr]
  have hmem2 : (c1.execs trapSaveMepcMstatus).mem =
      ((c1.mem.store (frameBase y c + slot 32) (c.csr .mepc)).store (frameBase y c + slot 33)
        (c.csr .mstatus)).store (frameBase y c + slot 34) 0 := by
    simp [trapSaveMepcMstatus, Cpu.exec, Cpu.gpr_setGpr, t0, sp, zero, TRAP_REGS_mepc,
      TRAP_REGS_mstatus, TRAP_REGS_mstatusH, ← hstack, hcsr, c1.gpr_zero]
  have hstack2 : (c1.execs trapSaveMepcMstatus).gpr sp = frameBase y c :=
    (hother2 sp (by decide)).trans hstack
  generalize c1.execs trapSaveMepcMstatus = c2 at *
  -- the registers
  rw [trapSaveGeneralRegsExceptSpT0, Cpu.execs_sd, hstack2]
  have hload : ∀ i, i < 2 ^ 32 → (∀ r ∈ savedRegs, r.val ≠ i) → i ≠ 34 →
      (Cpu.storeRegs c2.gpr (frameBase y c) savedRegs c2.mem).load (frameBase y c + slot i) =
        if i = 33 then c.csr .mstatus else if i = 32 then c.csr .mepc
          else c1.mem.load (frameBase y c + slot i) := by
    intro i hi hr h34
    rw [Cpu.load_storeRegs_of_ne hi _ hr, hmem2,
      Mem.load_store_slot _ _ _ hi (by decide), if_neg h34,
      Mem.load_store_slot _ _ _ hi (by decide), Mem.load_store_slot _ _ _ hi (by decide)]
  refine ⟨hstack2, ht0, fun r hsp hr => (hother2 r hr).trans (hother r hsp hr),
    hcsr2, fun r hr => ?_, ?_, ?_, ?_⟩
  · dsimp only [Cpu.mem_setMem]
    by_cases hsp : r = sp
    · subst hsp
      refine (hload 2 (by decide) (fun r hr => (ne_of_mem_savedRegs r hr).1) (by decide)).trans ?_
      rw [if_neg (by decide), if_neg (by decide), hmem,
        Mem.load_store_slot _ _ _ (by decide) (by decide), if_neg (by decide), stackMem,
        Mem.load_store_self]
    · rw [Cpu.load_storeRegs savedRegs (.inl (mem_savedRegs hsp hr)), hother2 r hr, hother r hsp hr]
  · refine (hload 5 (by decide) (fun r hr => (ne_of_mem_savedRegs r hr).2) (by decide)).trans ?_
    rw [if_neg (by decide), if_neg (by decide), hmem, Mem.load_store_self]
  · exact hload 32 (by decide) (fun r _ => by omega) (by decide)
  · exact hload 33 (by decide) (fun r _ => by omega) (by decide)

/-! ## Restoring -/

theorem mem_restoredRegs : ∀ {r : Reg}, r ≠ 0 → r ≠ t0 → r ≠ a0 → r ∈ restoredRegs := by
  decide

/-- Only `t0` and CSRs are changed. -/
structure UsesT0 (c c' : Cpu) : Prop where
  gpr : ∀ r, r ≠ t0 → c'.gpr r = c.gpr r
  mem : c'.mem = c.mem

theorem UsesT0.trans {c c' c'' : Cpu} (h : UsesT0 c c') (h' : UsesT0 c' c'') : UsesT0 c c'' :=
  ⟨fun r hr => (h'.gpr r hr).trans (h.gpr r hr), h'.mem.trans h.mem⟩

theorem UsesT0.frame {c c' : Cpu} (h : UsesT0 c c') (i : Nat) : c'.frame i = c.frame i := by
  unfold Cpu.frame
  rw [h.gpr a0 (by decide), h.mem]

theorem trapOsbiSetMtvec_spec (c : Cpu) : UsesT0 c (c.execs trapOsbiSetMtvec) := by
  refine ⟨fun r hr => ?_, ?_⟩
  · have hr : r ≠ 5 := hr
    simp [trapOsbiSetMtvec, Cpu.exec, Cpu.gpr_setGpr, t0, hr]
  · simp [trapOsbiSetMtvec, Cpu.exec]

theorem trapRestoreMepcMstatus_spec (c : Cpu) :
    UsesT0 c (c.execs trapRestoreMepcMstatus) ∧
      (c.execs trapRestoreMepcMstatus).csr =
        Function.update (Function.update c.csr .mepc (c.frame 32)) .mstatus (c.frame 33) := by
  refine ⟨⟨fun r hr => ?_, ?_⟩, ?_⟩
  · have hr : r ≠ 5 := hr
    simp [trapRestoreMepcMstatus, Cpu.exec, Cpu.gpr_setGpr, t0, hr]
  · simp [trapRestoreMepcMstatus, Cpu.exec]
  · simp [trapRestoreMepcMstatus, Cpu.exec, Cpu.gpr_setGpr, t0, a0, TRAP_REGS_mepc,
      TRAP_REGS_mstatus, Cpu.frame]

theorem trapOsbiRestoreMscratchStage2_spec (c : Cpu) :
    UsesT0 c (c.execs trapOsbiRestoreMscratchStage2) ∧
      (c.execs trapOsbiRestoreMscratchStage2).csr =
        Function.update c.csr .mscratch (c.frame 35) := by
  refine ⟨⟨fun r hr => ?_, ?_⟩, ?_⟩
  · have hr : r ≠ 5 := hr
    simp [trapOsbiRestoreMscratchStage2, Cpu.exec, Cpu.gpr_setGpr, t0, hr]
  · simp [trapOsbiRestoreMscratchStage2, Cpu.exec]
  · simp [trapOsbiRestoreMscratchStage2, Cpu.exec, Cpu.gpr_setGpr, t0, a0, TRAP_REGS_mscratch,
      Cpu.frame]

/-- What restoring the frame `a0` points to does, but for the CSRs. -/
structure Restored (c c' : Cpu) : Prop where
  gpr : ∀ r : Reg, r ≠ 0 → c'.gpr r = c.frame r
  mem : c'.mem = c.mem

/-- `TRAP_RESTORE_GENERAL_REGS_EXCEPT_A0_T0` leaves the frame pointer alone. -/
theorem trapRestoreGeneralRegs_spec (c : Cpu) :
    Cpu.Loaded c (c.gpr a0) restoredRegs (c.execs trapRestoreGeneralRegsExceptA0T0) ∧
      ∀ i, (c.execs trapRestoreGeneralRegsExceptA0T0).frame i = c.frame i := by
  have hl : Cpu.Loaded c (c.gpr a0) restoredRegs (c.execs trapRestoreGeneralRegsExceptA0T0) :=
    Cpu.execs_ld restoredRegs (by decide) (by decide)
  refine ⟨hl, fun i => ?_⟩
  unfold Cpu.frame
  rw [hl.other a0 (by decide), hl.mem]

/-- `t0` and `a0` come last; in between only `t0` is used. -/
theorem restored_spec {c c2 : Cpu} (h2 : UsesT0 (c.execs trapRestoreGeneralRegsExceptA0T0) c2) :
    Restored c (c2.execs trapRestoreA0T0) ∧ (c2.execs trapRestoreA0T0).csr = c2.csr := by
  obtain ⟨⟨hloaded, -, -, hmem⟩, hframe1⟩ := trapRestoreGeneralRegs_spec c
  have hframe : ∀ i, c2.frame i = c.frame i := fun i => (h2.frame i).trans (hframe1 i)
  have hexec : c2.execs trapRestoreA0T0 = (c2.setGpr 5 (c2.frame 5)).setGpr 10 (c2.frame 10) := by
    simp [trapRestoreA0T0, Cpu.exec, Cpu.gpr_setGpr, t0, a0, Cpu.frame]
  rw [hexec]
  refine ⟨⟨fun r hr => ?_, ?_⟩, ?_⟩
  · rw [Cpu.gpr_setGpr (by decide), Cpu.gpr_setGpr (by decide), hframe, hframe]
    by_cases h10 : r = 10
    · rw [if_pos h10, h10]
      rfl
    · rw [if_neg h10]
      by_cases h5 : r = 5
      · rw [if_pos h5, h5]
        rfl
      · rw [if_neg h5, h2.gpr r h5]
        exact hloaded r (mem_restoredRegs hr h5 h10)
  · simp only [Cpu.mem_setGpr]
    exact h2.mem.trans hmem
  · simp only [Cpu.csr_setGpr]

/-! ## From the monitor to OpenSBI -/

theorem switchCode_block (sy : SwitchSymbols) : (switchCode sy).block = switchBlock sy := rfl

/-- The registers, `mepc`, `mstatus` and `mscratch` that `_mon_exit_to_osbi` leaves. -/
theorem monExitToOsbi_spec (sy : SwitchSymbols) (c : Cpu) :
    Restored c (c.execs (switchBlock sy .monExitToOsbi).body) ∧
      (c.execs (switchBlock sy .monExitToOsbi).body).csr .mepc = c.frame 32 ∧
      (c.execs (switchBlock sy .monExitToOsbi).body).csr .mstatus = c.frame 33 ∧
      (c.execs (switchBlock sy .monExitToOsbi).body).csr .mscratch = c.frame 35 := by
  dsimp only [switchBlock]
  rw [Cpu.execs_append, Cpu.execs_append, Cpu.execs_append, Cpu.execs_append]
  have h0 := trapOsbiSetMtvec_spec c
  generalize c.execs trapOsbiSetMtvec = c0 at *
  obtain ⟨-, hframe1⟩ := trapRestoreGeneralRegs_spec c0
  obtain ⟨h2, hcsr2⟩ := trapRestoreMepcMstatus_spec (c0.execs trapRestoreGeneralRegsExceptA0T0)
  generalize (c0.execs trapRestoreGeneralRegsExceptA0T0).execs trapRestoreMepcMstatus = c2 at *
  obtain ⟨h3, hcsr3⟩ := trapOsbiRestoreMscratchStage2_spec c2
  generalize c2.execs trapOsbiRestoreMscratchStage2 = c3 at *
  obtain ⟨⟨hgpr, hmem⟩, hcsr⟩ := restored_spec (h2.trans h3)
  refine ⟨⟨fun r hr => (hgpr r hr).trans (h0.frame r), hmem.trans h0.mem⟩, ?_, ?_, ?_⟩
  · rw [hcsr, hcsr3, hcsr2, hframe1, h0.frame]
    rfl
  · rw [hcsr, hcsr3, hcsr2, hframe1, hframe1, h0.frame, h0.frame]
    rfl
  · rw [hcsr, hcsr3, h2.frame, hframe1, h0.frame]
    rfl

/-- The same registers, `mepc`, `mstatus`, `mscratch` and memory. -/
structure SameContext (c c' : Cpu) : Prop where
  gpr : ∀ r, c'.gpr r = c.gpr r
  mepc : c'.csr .mepc = c.csr .mepc
  mstatus : c'.csr .mstatus = c.csr .mstatus
  mscratch : c'.csr .mscratch = c.csr .mscratch
  mem : c'.mem = c.mem

/-- The last instructions of the monitor and the first ones of OpenSBI: the exchanges of `t0` with
`sscratch` and of `t6` with `mscratch` are undone on the other side. -/
theorem crossing_spec (sy : SwitchSymbols) (c : Cpu) :
    SameContext c (((c.execs (switchBlock sy .monitorLastInstructions).body).execs
      (switchBlock sy .start).body).execs [.csrrw t6 .mscratch t6, .csrrw t0 .sscratch t0]) := by
  dsimp only [switchBlock]
  constructor
  · intro r
    by_cases h5 : r = 5
    · subst h5
      simp [Cpu.exec, Cpu.gpr_setGpr, t0, t6]
    · by_cases h31 : r = 31 <;> simp [Cpu.exec, Cpu.gpr_setGpr, t0, t6, h5, h31]
  all_goals simp [Cpu.exec, Cpu.gpr_setGpr, t0, t6]

/-- `t0` is read back from `tmp0` unless `sp` has been saved over it. -/
theorem reload_eq {y : TrapLayout} {c : Cpu}
    (h : Mem.Apart (frameBase y c + slot 2) (tmpAddr y c)) :
    (stackMem y c).load (tmpAddr y c) = c.gpr t0 := by
  unfold stackMem
  rw [Mem.load_store_of_apart h, Mem.load_store_self]

/-- The frame of a context, as the saving code leaves it. -/
theorem Saved.frame {y : TrapLayout} {c c' : Cpu} (hs : Saved y c c')
    (h : Mem.Apart (frameBase y c + slot 2) (tmpAddr y c)) (r : Reg) :
    c'.mem.load (frameBase y c + slot r) = c.gpr r := by
  by_cases hr : r = t0
  · subst hr
    exact hs.regT0.trans (reload_eq h)
  · exact hs.reg r hr

/-- The call of the handler, with the stack pointer as its argument. -/
theorem passStack_spec (c : Cpu) :
    (c.execs [.add a0 sp zero]).gpr a0 = c.gpr sp ∧ (c.execs [.add a0 sp zero]).csr = c.csr ∧
      (c.execs [.add a0 sp zero]).mem = c.mem := by
  refine ⟨?_, ?_, ?_⟩
  · simp [Cpu.exec, Cpu.gpr_setGpr, a0, sp, zero, c.gpr_zero]
  · simp [Cpu.exec]
  · simp [Cpu.exec]

theorem reg_ne_zero {i : Nat} (h1 : 1 ≤ i) (hlt : i < 32) : (⟨i, hlt⟩ : Reg) ≠ 0 := by
  intro h0
  have hval : i = 0 := congrArg Fin.val h0
  omega

/-- A frame below the scratch space keeps off `tmp0`. -/
theorem tmpAddr_sub_of_below {y : TrapLayout} {c : Cpu} (hmpp : mppOf (c.csr .mstatus) ≠ 3) :
    tmpAddr y c - frameBase y c = y.size + y.tmp0 := by
  unfold tmpAddr frameBase exceptionStack
  rw [if_neg hmpp]
  bv_omega

/-- With a slot for `mscratch` that is not 0, `_start` goes to the trap handler of OpenSBI, which
saves the context of the frame. -/
theorem reaches_osbi_handler (sy : SwitchSymbols) {c : Cpu} (hslot : c.frame 35 ≠ 0) : ∃ c' c'',
    Restored c c' ∧ c'.csr .mepc = c.frame 32 ∧ c'.csr .mstatus = c.frame 33 ∧
      c'.csr .mscratch = c.frame 35 ∧ Saved osbiLayout c' c'' ∧
      (switchCode sy).Calls .monExitToOsbi c .sbiTrapHandler (c''.execs [.add a0 sp zero]) := by
  obtain ⟨⟨hgpr, hmem⟩, hmepc, hmstatus, hmscratch⟩ := monExitToOsbi_spec sy c
  generalize hc1 : c.execs (switchBlock sy .monExitToOsbi).body = c1 at *
  have hx := crossing_spec sy c1
  generalize hc2 : c1.execs (switchBlock sy .monitorLastInstructions).body = c2 at *
  generalize hc3 : c2.execs (switchBlock sy .start).body = c3 at *
  -- `_start` finds the slot in `mscratch`
  have ht6 : c3.gpr t6 = c.frame 35 := by
    rw [← hmscratch, ← hc3, ← hc2]
    simp [switchBlock, Cpu.exec, Cpu.gpr_setGpr, t6]
  generalize hc4 : c3.execs [.csrrw t6 .mscratch t6, .csrrw t0 .sscratch t0] = c4 at *
  have hbody : c3.execs (switchBlock sy .trapHandlerM).body =
      (c4.execs (trapSaveAndSetupSpT0 osbiLayout ++ trapSaveMepcMstatus ++
        trapSaveGeneralRegsExceptSpT0)).execs [.add a0 sp zero] := by
    dsimp only [switchBlock]
    rw [Cpu.execs_append, List.append_assoc, List.append_assoc, Cpu.execs_append, hc4,
      ← List.append_assoc]
  refine ⟨c4, _, ⟨fun r hr => (hx.gpr r).trans (hgpr r hr), hx.mem.trans hmem⟩, hx.mepc.trans hmepc,
    hx.mstatus.trans hmstatus, hx.mscratch.trans hmscratch, saved_spec osbiLayout c4, ?_⟩
  rw [Code.calls_jump (.inl rfl), Code.calls_jump (.inr rfl), Code.calls_bnez rfl, switchCode_block,
    hc1, hc2, hc3, ht6, if_pos hslot, ← hbody]
  exact Code.calls_of_call rfl

theorem exits_to_osbi (sy : SwitchSymbols) {c : Cpu} (hslot : c.frame 35 ≠ 0)
    (hmpp : mppOf (c.frame 33) ≠ 3) : ExitsToOsbi sy c := by
  obtain ⟨c4, c5, hr, hmepc, hmstatus, hmscratch, hs, hcalls⟩ := reaches_osbi_handler sy hslot
  obtain ⟨ha0, hcsr, hmem⟩ := passStack_spec c5
  have hframe : ∀ i, (c5.execs [.add a0 sp zero]).frame i =
      c5.mem.load (frameBase osbiLayout c4 + slot i) := by
    intro i
    unfold Cpu.frame
    rw [ha0, hmem, hs.stack]
  have hapart : Mem.Apart (frameBase osbiLayout c4 + slot 2) (tmpAddr osbiLayout c4) := by
    have hsub := tmpAddr_sub_of_below (y := osbiLayout) (hmstatus.symm ▸ hmpp)
    unfold Mem.Apart
    have hd : tmpAddr osbiLayout c4 - (frameBase osbiLayout c4 + slot 2) = slot 45 := by
      have h45 : osbiLayout.size + osbiLayout.tmp0 = slot 45 + slot 2 := by decide
      rw [h45] at hsub
      bv_omega
    rw [hd]
    decide
  refine ⟨c5.execs [.add a0 sp zero], hcalls, fun i h1 h33 => ?_, ?_⟩
  · rw [hframe]
    rcases Nat.lt_or_ge i 32 with hlt | hge
    · exact (hs.frame hapart ⟨i, hlt⟩).trans (hr.gpr _ (reg_ne_zero h1 hlt))
    · rcases (by omega : i = 32 ∨ i = 33) with rfl | rfl
      · rw [hs.mepc, hmepc]
      · rw [hs.mstatus, hmstatus]
  · rw [hcsr, hs.csr, hmscratch]

end Dorami.Sm
