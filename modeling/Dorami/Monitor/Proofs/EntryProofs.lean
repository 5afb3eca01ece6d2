import Dorami.Monitor.Proofs.ReturnProofs

/-!
# The stack of `_mon_enter_osbi`

`_mon_enter_osbi` fetches the scratch space of the hart from `_scratch_addrs` before it stores
anything, and then builds a frame with the macro that also serves traps. That macro takes `MPP` =
M for a trap out of the monitor, which stays on the stack it has. Here `mstatus` and `sp` are
those of OpenSBI.
-/

namespace Dorami.Sm

open Riscv Riscv.Reg

/-! ## Where the macros store -/

theorem trapSaveAndSetupSpT0_stores (y : TrapLayout) (c : Cpu) :
    c.storeAddrs (trapSaveAndSetupSpT0 y) =
      [tmpAddr y c, frameBase y c + slot 2, frameBase y c + slot 5] := by
  have hstack := exceptionStack_eq c
  have hoff : ∀ e : Word, e + (slot 2 - y.size) = e - y.size + slot 2 := fun e => by
    rw [BitVec.sub_eq_add_neg, BitVec.sub_eq_add_neg, BitVec.add_assoc, BitVec.add_comm (slot 2)]
  have hneg : ∀ e : Word, e + -y.size = e - y.size := fun e => (BitVec.sub_eq_add_neg ..).symm
  simp [trapSaveAndSetupSpT0, Cpu.storeAddr, Cpu.exec, Cpu.gpr_setGpr, tp, t0, sp,
    hstack, hneg, hoff, frameBase, tmpAddr]

theorem trapSaveMepcMstatus_stores (c : Cpu) : c.storeAddrs trapSaveMepcMstatus =
    [c.gpr sp + slot 32, c.gpr sp + slot 33, c.gpr sp + slot 34] := by
  simp [trapSaveMepcMstatus, Cpu.storeAddr, Cpu.exec, Cpu.gpr_setGpr, t0, sp, TRAP_REGS_mepc,
    TRAP_REGS_mstatus, TRAP_REGS_mstatusH]

theorem trapOsbiPullPmpMscratch_stores (c : Cpu) : c.storeAddrs trapOsbiPullPmpMscratch =
    [tmpAddr monitorLayout c, c.gpr sp + slot 35] := by
  simp [trapOsbiPullPmpMscratch, Cpu.storeAddr, Cpu.exec, Cpu.gpr_setGpr, t0, sp, tp,
    TRAP_REGS_mscratch, tmpAddr]

/-! ## The run -/

/-- The context in which the monitor builds its frame. -/
structure Ready (sy : SwitchSymbols) (c e : Cpu) : Prop where
  gpr : ∀ r, e.gpr r = presented c r
  mepc : e.csr .mepc = c.csr .mepc
  mstatus : e.csr .mstatus = c.csr .mstatus
  mscratch : e.csr .mscratch = scratchSpace sy c
  sscratch : e.csr .sscratch = c.csr .mscratch

/-- The first instructions put `t6` into `mscratch`, and `mscratch` into `sscratch`. -/
theorem monEnterOsbi_spec (sy : SwitchSymbols) (c : Cpu) :
    let d := c.execs (switchBlock sy .monEnterOsbi).body
    (∀ r, r ≠ t6 → d.gpr r = c.gpr r) ∧ d.gpr t6 = c.csr .mhartid ∧
      d.csr .mhartid = c.csr .mhartid ∧ d.csr .mepc = c.csr .mepc ∧
      d.csr .mstatus = c.csr .mstatus ∧ d.csr .mscratch = c.csr .sscratch ∧
      d.csr .sscratch = c.csr .mscratch ∧ d.mem = c.mem := by
  dsimp only [switchBlock]
  refine ⟨fun r hr => ?_, ?_, ?_, ?_, ?_, ?_, ?_, ?_⟩
  · have hr : r ≠ 31 := hr
    by_cases h5 : r = 5 <;>
      simp [trapOsbiPushPmpMscratch, Cpu.exec, Cpu.gpr_setGpr, t0, t6, hr, h5]
  all_goals simp [trapOsbiPushPmpMscratch, Cpu.exec, Cpu.gpr_setGpr, t0, t6]

/-- From the entry to the frame: nothing is stored before `mscratch` is that of the hart. -/
theorem ready_spec (sy : SwitchSymbols) {c : Cpu} (hhart : (c.csr .mhartid).toNat < 5) :
    ∃ d, (switchCode sy).Leads .monEnterOsbi c .getMscratch d ∧
      Ready sy c (d.execs [.ld t6 0 t6, .csrrw t6 .mscratch t6]) := by
  obtain ⟨hgpr, ht6, hid, hmepc, hmstatus, hmscratch, hsscratch, hmem⟩ := monEnterOsbi_spec sy c
  have hsilent : c.storeAddrs ((switchCode sy).block .monEnterOsbi).body = [] := rfl
  have hlast : ((switchCode sy).block .monEnterOsbi).last =
    .bnez t6 (.testHart 0) (.isHart 0) := rfl
  have hleads := Code.leads_bnez hlast hsilent
  rw [switchCode_block, ht6] at hleads
  generalize c.execs (switchBlock sy .monEnterOsbi).body = d at *
  have hfound := leads_found sy (c := d) (by rwa [hid])
  rw [hid] at hfound
  refine ⟨_, hleads.trans hfound, fun r => ?_, ?_, ?_, ?_, ?_⟩
  · unfold presented
    split_ifs with hr
    · subst hr
      rw [← hmscratch]
      simp [Cpu.exec, Cpu.gpr_setGpr, t6]
    · have h31 : r ≠ 31 := hr
      rw [← hgpr r hr]
      simp [Cpu.exec, Cpu.gpr_setGpr, t6, h31]
  · simp [Cpu.exec, t6, hmepc]
  · simp [Cpu.exec, t6, hmstatus]
  · simp [Cpu.exec, Cpu.gpr_setGpr, t6, hmem, scratchSpace]
  · simp [Cpu.exec, t6, hsscratch]

/-- What saves a frame, and what follows it in `_mon_enter_osbi`. -/
def saveFrame : List Op :=
  trapSaveAndSetupSpT0 monitorLayout ++ trapSaveMepcMstatus ++ trapSaveGeneralRegsExceptSpT0

def passFrame (sy : SwitchSymbols) : List Op :=
  trapOsbiPullPmpMscratch ++ [.li t6 sy.startHang, .csrrw t6 .mtvec t6, .add a0 sp zero]

theorem getMscratch_body (sy : SwitchSymbols) : (switchBlock sy .getMscratch).body =
    [.ld t6 0 t6, .csrrw t6 .mscratch t6] ++ (saveFrame ++ passFrame sy) := by
  simp only [switchBlock, saveFrame, passFrame, List.append_assoc]

/-- The members of a frame and `tmp0`. -/
def IsTarget (e : Cpu) (a : Word) : Prop :=
  a = tmpAddr monitorLayout e ∨ ∃ i < 37, a = frameBase monitorLayout e + slot i

/-- What the entry leaves when it builds its frame in context `e`. -/
structure Entry (e c5 c' : Cpu) : Prop where
  saved : Saved monitorLayout e c5
  stack : c'.gpr sp = frameBase monitorLayout e
  arg : c'.gpr a0 = frameBase monitorLayout e
  frame : ∀ i, c'.frame i = (returnMem e c5.mem).load (frameBase monitorLayout e + slot i)

theorem passFrame_spec (sy : SwitchSymbols) {e c5 : Cpu} (hs : Saved monitorLayout e c5) :
    Entry e c5 (c5.execs (passFrame sy)) := by
  have hstack : c5.gpr 2 = frameBase monitorLayout e := hs.stack
  refine ⟨hs, ?_, ?_, pull_spec sy hs⟩
  · simp [passFrame, trapOsbiPullPmpMscratch, Cpu.exec, Cpu.gpr_setGpr, t0, t6, a0, sp, tp, hstack]
  · simp [passFrame, trapOsbiPullPmpMscratch, Cpu.exec, Cpu.gpr_setGpr, t0, t6, a0, sp, tp, zero,
      hstack, c5.gpr_zero]

/-- Every store of the macros goes to a member of the frame or to `tmp0`. -/
theorem saving_stores (sy : SwitchSymbols) (e : Cpu) :
    ∀ a ∈ e.storeAddrs (saveFrame ++ passFrame sy), IsTarget e a := by
  intro a ha
  unfold saveFrame passFrame at ha
  have hset := trapSaveAndSetupSpT0_spec monitorLayout e
  have hs := saved_spec monitorLayout e
  have hmid : ((e.execs (trapSaveAndSetupSpT0 monitorLayout)).execs trapSaveMepcMstatus).gpr sp =
      frameBase monitorLayout e := by
    rw [← hset.stack]
    simp [trapSaveMepcMstatus, Cpu.exec, Cpu.gpr_setGpr, t0, sp]
  have htail : ∀ c : Cpu, c.storeAddrs [.li t6 sy.startHang, .csrrw t6 .mtvec t6, .add a0 sp zero] =
      [] :=
    fun c => rfl
  rw [Cpu.storeAddrs_append, Cpu.storeAddrs_append, Cpu.storeAddrs_append,
    Cpu.storeAddrs_append, htail, trapSaveAndSetupSpT0_stores, trapSaveMepcMstatus_stores,
    hset.stack, trapOsbiPullPmpMscratch_stores, hs.stack, trapSaveGeneralRegsExceptSpT0,
    Cpu.storeAddrs_sd, Cpu.execs_append, hmid] at ha
  have htmp : tmpAddr monitorLayout (e.execs (trapSaveAndSetupSpT0 monitorLayout ++
      trapSaveMepcMstatus ++ trapSaveGeneralRegsExceptSpT0)) = tmpAddr monitorLayout e := by
    unfold tmpAddr
    rw [hs.csr]
  rw [trapSaveGeneralRegsExceptSpT0] at htmp
  rw [htmp] at ha
  simp only [List.mem_append, List.mem_cons, List.mem_map, List.not_mem_nil, or_false] at ha
  rcases ha with (((rfl | rfl | rfl) | (rfl | rfl | rfl)) | ⟨r, -, rfl⟩) | (rfl | rfl)
  · exact .inl rfl
  · exact .inr ⟨2, by decide, rfl⟩
  · exact .inr ⟨5, by decide, rfl⟩
  · exact .inr ⟨32, by decide, rfl⟩
  · exact .inr ⟨33, by decide, rfl⟩
  · exact .inr ⟨34, by decide, rfl⟩
  · exact .inr ⟨r, by omega, rfl⟩
  · exact .inl rfl
  · exact .inr ⟨35, by decide, rfl⟩

/-- The entry, for the harts the monitor knows. -/
theorem entry_spec (sy : SwitchSymbols) {c : Cpu} (hhart : (c.csr .mhartid).toNat < 5) :
    ∃ e c5 c', Ready sy c e ∧ Entry e c5 c' ∧
      (switchCode sy).Calls .monEnterOsbi c .monTrapReturnOsbi c' ∧
      ∀ a, (switchCode sy).Stores .monEnterOsbi c a → IsTarget e a := by
  obtain ⟨d, hleads, hready⟩ := ready_spec sy hhart
  have hlast : ((switchCode sy).block .getMscratch).last = .call .monTrapReturnOsbi := rfl
  have hcalls : (switchCode sy).Calls .getMscratch d .monTrapReturnOsbi
      (d.execs ((switchCode sy).block .getMscratch).body) := Code.calls_of_call hlast
  have hstores : ∀ a, (switchCode sy).Stores .getMscratch d a ↔
      a ∈ d.storeAddrs ((switchCode sy).block .getMscratch).body := fun a =>
        Code.stores_of_call hlast
  have hsilent : d.storeAddrs [.ld t6 0 t6, .csrrw t6 .mscratch t6] = [] := rfl
  rw [switchCode_block, getMscratch_body] at hcalls hstores
  rw [Cpu.storeAddrs_append, hsilent, List.nil_append] at hstores
  rw [Cpu.execs_append, Cpu.execs_append] at hcalls
  generalize d.execs [.ld t6 0 t6, .csrrw t6 .mscratch t6] = e at *
  have hs : Saved monitorLayout e (e.execs saveFrame) := saved_spec monitorLayout e
  refine ⟨e, e.execs saveFrame, (e.execs saveFrame).execs (passFrame sy), hready,
    passFrame_spec sy hs, (hleads.calls _ _).mpr hcalls, fun a ha => ?_⟩
  exact saving_stores sy e a ((hstores a).mp ((hleads.stores a).mp ha))

/-! ## Which stack it is -/

/-- The frame is directly below the scratch space unless `MPP` is M and `sp` is elsewhere. -/
theorem frameBase_ready {sy : SwitchSymbols} {c e : Cpu} (he : Ready sy c e)
    (h : mppOf (c.csr .mstatus) ≠ 3 ∨ c.gpr sp = scratchSpace sy c) :
    frameBase monitorLayout e = scratchSpace sy c - monitorLayout.size := by
  have hsp : e.gpr sp = c.gpr sp := (he.gpr sp).trans (if_neg (by decide))
  unfold frameBase exceptionStack
  rw [he.mstatus, he.mscratch, hsp]
  by_cases hmpp : mppOf (c.csr .mstatus) = 3
  · rw [if_pos hmpp, h.resolve_left (not_not.mpr hmpp)]
  · rw [if_neg hmpp]

/-- A word of the frame or `tmp0`, byte by byte. -/
theorem target_within {sy : SwitchSymbols} {c e : Cpu} (he : Ready sy c e)
    (hbase : frameBase monitorLayout e = scratchSpace sy c - monitorLayout.size) {a : Word}
    (ha : IsTarget e a) {k : Nat} (hk : k < 8) :
    InOwnFrame (scratchSpace sy c) (a + BitVec.ofNat 64 k) ∨
      InOwnScratch (scratchSpace sy c) (a + BitVec.ofNat 64 k) := by
  rcases ha with rfl | ⟨i, hi, rfl⟩
  · right
    unfold InOwnScratch tmpAddr
    rw [he.mscratch]
    show (scratchSpace sy c + slot 6 + BitVec.ofNat 64 k - scratchSpace sy c).toNat <
      (slot 14).toNat
    unfold slot
    bv_omega
  · left
    unfold InOwnFrame
    rw [hbase]
    show (scratchSpace sy c - slot 37 + slot i + BitVec.ofNat 64 k -
      (scratchSpace sy c - slot 37)).toNat < (slot 37).toNat
    unfold slot
    bv_omega

/-- A frame below the scratch space keeps off `tmp0`. -/
theorem tmpDistance_ready {sy : SwitchSymbols} {c e : Cpu} (he : Ready sy c e)
    (hbase : frameBase monitorLayout e = scratchSpace sy c - monitorLayout.size) :
    tmpDistance e = 344 := by
  unfold tmpDistance tmpAddr
  rw [hbase, he.mscratch]
  show (scratchSpace sy c + slot 6 - (scratchSpace sy c - slot 37)).toNat = 344
  unfold slot
  bv_omega

/-- Such a frame holds the context of OpenSBI. -/
theorem frame_ready {sy : SwitchSymbols} {c e c5 c' : Cpu} (he : Ready sy c e) (hc' : Entry e c5 c')
    (hd : tmpDistance e = 344) :
    (∀ r : Reg, r ≠ 0 → c'.frame r = presented c r) ∧ c'.frame 32 = c.csr .mepc ∧
      c'.frame 33 = c.csr .mstatus ∧ c'.frame 35 = c.csr .mscratch := by
  have hharmless : Harmless (tmpDistance e) := .inr (.inr (by rw [hd]; decide))
  have hload : ∀ i, 1 ≤ i → i ≤ 33 → c'.frame i =
      c5.mem.load (frameBase monitorLayout e + slot i) := by
    intro i h1 h33
    have hapart : Mem.Apart (tmpAddr monitorLayout e) (frameBase monitorLayout e + slot i) := by
      unfold tmpDistance at hd
      unfold Mem.Apart slot
      generalize tmpAddr monitorLayout e = tmp at *
      generalize frameBase monitorLayout e = base at *
      constructor <;> bv_omega
    rw [hc'.frame, load_returnMem _ _ h33, Mem.load_store_of_apart hapart]
  refine ⟨fun r hr => ?_, ?_, ?_, ?_⟩
  · have h1 : 1 ≤ r.val := by
      by_contra h0
      exact hr (Fin.ext (by omega))
    rw [hload r h1 (by omega), hc'.saved.frame (apart_reload hharmless) r, he.gpr]
  · rw [hload 32 (by decide) (by decide), hc'.saved.mepc, he.mepc]
  · rw [hload 33 (by decide) (by decide), hc'.saved.mstatus, he.mstatus]
  · rw [hc'.frame, returnMem, Mem.load_store_self, he.sscratch]

/-- With `MPP` = M the monitor runs on the stack that OpenSBI had. -/
theorem machine_entry (sy : SwitchSymbols) {c : Cpu} (hhart : (c.csr .mhartid).toNat < 5)
    (hmpp : mppOf (c.csr .mstatus) = 3) :
    ∃ c', (switchCode sy).Calls .monEnterOsbi c .monTrapReturnOsbi c' ∧
      c'.gpr sp = c.gpr sp - monitorLayout.size ∧ c'.gpr a0 = c.gpr sp - monitorLayout.size := by
  obtain ⟨e, c5, c', he, hc', hcalls, -⟩ := entry_spec sy hhart
  have hbase : frameBase monitorLayout e = c.gpr sp - monitorLayout.size := by
    unfold frameBase exceptionStack
    rw [he.mstatus, if_pos hmpp, he.gpr]
    rfl
  exact ⟨c', hcalls, hc'.stack.trans hbase, hc'.arg.trans hbase⟩

theorem not_on_own_stack (sy : SwitchSymbols) {c : Cpu} (hhart : (c.csr .mhartid).toNat < 5)
    (hmpp : mppOf (c.csr .mstatus) = 3) (hne : c.gpr sp ≠ scratchSpace sy c) :
    ¬ EntersOnOwnStack sy c := by
  intro h
  obtain ⟨c', hcalls, hsp, -⟩ := machine_entry sy hhart hmpp
  obtain ⟨c'', hcalls'', hown, -⟩ := h.calls
  obtain ⟨-, rfl⟩ := hcalls.unique hcalls''
  rw [hsp] at hown
  exact hne (by bv_omega)

theorem enters_on_own_stack_iff (sy : SwitchSymbols) (c : Cpu)
    (hhart : (c.csr .mhartid).toNat < 5) :
    EntersOnOwnStack sy c ↔ mppOf (c.csr .mstatus) ≠ 3 ∨ c.gpr sp = scratchSpace sy c := by
  constructor
  · intro hown
    by_contra hneither
    obtain ⟨hmpp, hne⟩ := not_or.mp hneither
    exact not_on_own_stack sy hhart (not_not.mp hmpp) hne hown
  · intro hwhen
    obtain ⟨e, c5, c', he, hc', hcalls, hstores⟩ := entry_spec sy hhart
    have hbase := frameBase_ready he hwhen
    refine ⟨⟨c', hcalls, ?_, ?_, frame_ready he hc' (tmpDistance_ready he hbase)⟩, ?_⟩
    · rw [hc'.stack, hbase]
    · rw [hc'.arg, hbase]
    · intro a ha k hk
      exact target_within he hbase (hstores a ha) hk

/-- A hart with its scratch space at `scratch` and OpenSBI's stack at `stack`. -/
def enteringCpu (sy : SwitchSymbols) (hart status scratch stack : Word) : Cpu where
  gpr r := if r = sp then stack else 0
  csr
    | .mhartid => hart
    | .mstatus => status
    | _ => 0
  mem := Mem.store (fun _ => 0) (sy.scratchAddrs + slot hart.toNat) scratch
  gpr_zero := rfl

theorem scratchSpace_entering (sy : SwitchSymbols) (hart status scratch stack : Word) :
    scratchSpace sy (enteringCpu sy hart status scratch stack) = scratch :=
  Mem.load_store_self ..

/-- A return for S/U mode, the one that OpenSBI makes after a trap. -/
theorem return_for_supervisor_on_own_stack :
    let sy : SwitchSymbols := ⟨0x80020000, 0x80000400⟩
    EntersOnOwnStack sy (enteringCpu sy 1 0x800 0x80030000 0x80060000) :=
  (enters_on_own_stack_iff _ _ (by decide)).mpr (.inl (by decide))

/-- The frame of the monitor is built in the memory of OpenSBI. -/
theorem machine_return_on_firmware_stack :
    let sy : SwitchSymbols := ⟨0x80020000, 0x80000400⟩
    let c := enteringCpu sy 1 0x1800 0x80030000 0x80060000
    ¬ EntersOnOwnStack sy c ∧ ∃ c', (switchCode sy).Calls .monEnterOsbi c .monTrapReturnOsbi c' ∧
      c'.gpr sp = 0x80060000 - monitorLayout.size ∧
      c'.gpr a0 = 0x80060000 - monitorLayout.size := by
  intro sy c
  have hmpp : mppOf 0x1800 = 3 := by decide
  refine ⟨not_on_own_stack sy (by decide) hmpp ?_, machine_entry sy (by decide) hmpp⟩
  rw [scratchSpace_entering]
  exact (by decide : (0x80060000 : Word) ≠ 0x80030000)

end Dorami.Sm
