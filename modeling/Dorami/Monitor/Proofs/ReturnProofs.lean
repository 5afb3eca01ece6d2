import Dorami.Monitor.Proofs.AssemblyProofs

/-!
# The return from OpenSBI

`_trap_exit_M`, the sallyport and `_mon_enter_osbi` hand the context of OpenSBI to the monitor,
which saves it like a trap: below the scratch space, or below the `sp` of OpenSBI when the frame
says `MPP` = M. `TRAP_OSBI_PULL_PMP_MSCRATCH` uses `tmp0` of the scratch space once more after the
frame is built, so a frame that covers it loses a member.
-/

namespace Dorami.Sm

open Riscv Riscv.Reg

/-! ## The run -/

theorem trapExitM_spec (sy : SwitchSymbols) (c : Cpu) :
    Restored c (c.execs (switchBlock sy .trapExitM).body) ∧
      (c.execs (switchBlock sy .trapExitM).body).csr =
        Function.update (Function.update c.csr .mepc (c.frame 32)) .mstatus (c.frame 33) := by
  dsimp only [switchBlock]
  rw [Cpu.execs_append, Cpu.execs_append]
  obtain ⟨hl, hframe1⟩ := trapRestoreGeneralRegs_spec c
  obtain ⟨h2, hcsr2⟩ := trapRestoreMepcMstatus_spec (c.execs trapRestoreGeneralRegsExceptA0T0)
  obtain ⟨hr, hcsr⟩ := restored_spec h2
  refine ⟨hr, ?_⟩
  rw [hcsr, hcsr2, hframe1, hframe1, hl.csr]

/-- The sallyport and the first instructions of the monitor: `t6` and `t0` are put aside and put
back, and `mscratch` ends up in `sscratch`. -/
theorem sallyport_spec (sy : SwitchSymbols) (c : Cpu) :
    let d := ((c.execs (switchBlock sy .osbiLastInstruction).body).execs
      (switchBlock sy .sallyportEntry).body).execs (switchBlock sy .monEnterOsbi).body
    (∀ r, r ≠ t6 → d.gpr r = c.gpr r) ∧ d.gpr t6 = c.csr .mhartid ∧
      d.csr .mhartid = c.csr .mhartid ∧ d.csr .mepc = c.csr .mepc ∧
      d.csr .mstatus = c.csr .mstatus &&& ~~~8 ∧ d.csr .mscratch = c.gpr t6 ∧
      d.csr .sscratch = c.csr .mscratch ∧ d.mem = c.mem := by
  dsimp only [switchBlock]
  refine ⟨fun r hr => ?_, ?_, ?_, ?_, ?_, ?_, ?_, ?_⟩
  · have hr : r ≠ 31 := hr
    by_cases h5 : r = 5 <;>
      simp [trapOsbiPushPmpMscratch, Cpu.exec, Cpu.gpr_setGpr, t0, t6, hr, h5]
  all_goals simp [trapOsbiPushPmpMscratch, Cpu.exec, Cpu.gpr_setGpr, t0, t6]

/-- A test in `TRAP_OSBI_GET_MSCRATCH`. -/
theorem leads_test {sy : SwitchSymbols} {l target next : SwitchLabel} {imm : Word} (c : Cpu)
    (hb : switchBlock sy l = ⟨[.csrr t6 .mhartid, .addi t6 t6 imm], .bnez t6 target next⟩) :
    (switchCode sy).Leads l c (if c.csr .mhartid + imm ≠ 0 then target else next)
      (c.setGpr t6 (c.csr .mhartid + imm)) := by
  have hexec : c.execs (switchBlock sy l).body = c.setGpr t6 (c.csr .mhartid + imm) := by
    rw [hb]
    simp [Cpu.exec, Cpu.gpr_setGpr, t6, Cpu.setGpr_setGpr]
  have hlast : ((switchCode sy).block l).last = .bnez t6 target next := by rw [switchCode_block, hb]
  have hleads := Code.leads_bnez (c := c) hlast (by rw [switchCode_block, hb]; rfl)
  rwa [switchCode_block, hexec, Cpu.gpr_setGpr (by decide), if_pos rfl] at hleads

theorem leads_test_other {sy : SwitchSymbols} {l target next : SwitchLabel} {imm : Word} {c : Cpu}
    (hb : switchBlock sy l = ⟨[.csrr t6 .mhartid, .addi t6 t6 imm], .bnez t6 target next⟩)
    (hne : c.csr .mhartid + imm ≠ 0) :
    (switchCode sy).Leads l c target (c.setGpr t6 (c.csr .mhartid + imm)) := by
  have hleads := leads_test c hb
  rwa [if_pos hne] at hleads

theorem leads_test_found {sy : SwitchSymbols} {l target next : SwitchLabel} {imm : Word} {c : Cpu}
    (hb : switchBlock sy l = ⟨[.csrr t6 .mhartid, .addi t6 t6 imm], .bnez t6 target next⟩)
    (h0 : c.csr .mhartid + imm = 0) :
    (switchCode sy).Leads l c next (c.setGpr t6 (c.csr .mhartid + imm)) := by
  have hleads := leads_test c hb
  rwa [if_neg (not_not.mpr h0)] at hleads

/-- The hart has been found; whatever is in `t6` is lost. -/
theorem leads_isHart (sy : SwitchSymbols) (k : Fin 5) (c : Cpu) :
    (switchCode sy).Leads (.isHart k) c .getMscratch (c.setGpr t6 (sy.scratchAddrs + slot k)) := by
  have hadd : ∀ v w : Word, sy.scratchAddrs + v + w = sy.scratchAddrs + (v + w) := fun v w =>
    BitVec.add_assoc ..
  have hcases : k = 0 ∨ k = 1 ∨ k = 2 ∨ k = 3 ∨ k = 4 := by omega
  have hexec : c.execs (switchBlock sy (.isHart k)).body =
      c.setGpr t6 (sy.scratchAddrs + slot k) := by
    rcases hcases with rfl | rfl | rfl | rfl | rfl
    · simp [switchBlock, Cpu.exec, slot]
    · simp [switchBlock, Cpu.exec, Cpu.gpr_setGpr, t6, Cpu.setGpr_setGpr, slot]
    · simp [switchBlock, Cpu.exec, Cpu.gpr_setGpr, t6, Cpu.setGpr_setGpr, slot]
    · have hslot : slot ((3 : Fin 5) : Nat) = 24 := rfl
      rw [hslot]
      simp [switchBlock, Cpu.exec, Cpu.gpr_setGpr, t6, Cpu.setGpr_setGpr]
    · have hslot : slot ((4 : Fin 5) : Nat) = 32 := rfl
      rw [hslot]
      simp [switchBlock, Cpu.exec, Cpu.gpr_setGpr, t6, Cpu.setGpr_setGpr, hadd]
  have hlast : ((switchCode sy).block (.isHart k)).last = .jump .getMscratch ∨
      ((switchCode sy).block (.isHart k)).last = .fallThrough .getMscratch := by
    rcases hcases with rfl | rfl | rfl | rfl | rfl
    · exact .inl rfl
    · exact .inl rfl
    · exact .inl rfl
    · exact .inl rfl
    · exact .inr rfl
  have hsilent : c.storeAddrs ((switchCode sy).block (.isHart k)).body = [] := by
    rcases hcases with rfl | rfl | rfl | rfl | rfl <;> rfl
  have hleads := Code.leads_jump hlast hsilent
  rwa [switchCode_block, hexec] at hleads

/-- The tests for a hart other than 0 that the monitor knows. -/
theorem leads_tests (sy : SwitchSymbols) {c : Cpu} (hpos : c.csr .mhartid ≠ 0)
    (hlt : (c.csr .mhartid).toNat < 5) :
    (switchCode sy).Leads (.testHart 0) c .getMscratch
      (c.setGpr t6 (sy.scratchAddrs + slot (c.csr .mhartid).toNat)) := by
  have hcases : c.csr .mhartid = 1 ∨ c.csr .mhartid = 2 ∨ c.csr .mhartid = 3 ∨
      c.csr .mhartid = 4 := by
    bv_omega
  -- the tests only use `t6`, which `leads_isHart` sets
  have hfound : ∀ (k : Fin 5) (v : Word), c.csr .mhartid = BitVec.ofNat 64 k →
      (switchCode sy).Leads (.isHart k) (c.setGpr t6 v) .getMscratch
        (c.setGpr t6 (sy.scratchAddrs + slot (c.csr .mhartid).toNat)) := by
    intro k v hk
    have hnat : (c.csr .mhartid).toNat = k.val := by
      rw [hk, BitVec.toNat_ofNat]
      exact Nat.mod_eq_of_lt (by omega)
    have hleads := leads_isHart sy k (c.setGpr t6 v)
    rwa [Cpu.setGpr_setGpr, ← hnat] at hleads
  have hother : ∀ {l target next : SwitchLabel} {imm : Word} (v : Word),
      switchBlock sy l = ⟨[.csrr t6 .mhartid, .addi t6 t6 imm], .bnez t6 target next⟩ →
      c.csr .mhartid + imm ≠ 0 →
      (switchCode sy).Leads l (c.setGpr t6 v) target (c.setGpr t6 (c.csr .mhartid + imm)) := by
    intro l target next imm v hb hne
    have hleads := leads_test_other (c := c.setGpr t6 v) hb (by rwa [Cpu.csr_setGpr])
    rwa [Cpu.csr_setGpr, Cpu.setGpr_setGpr] at hleads
  have hthis : ∀ {l target next : SwitchLabel} {imm : Word} (v : Word),
      switchBlock sy l = ⟨[.csrr t6 .mhartid, .addi t6 t6 imm], .bnez t6 target next⟩ →
      c.csr .mhartid + imm = 0 →
      (switchCode sy).Leads l (c.setGpr t6 v) next (c.setGpr t6 (c.csr .mhartid + imm)) := by
    intro l target next imm v hb h0
    have hleads := leads_test_found (c := c.setGpr t6 v) hb (by rwa [Cpu.csr_setGpr])
    rwa [Cpu.csr_setGpr, Cpu.setGpr_setGpr] at hleads
  rcases hcases with hid | hid | hid | hid
  · exact (leads_test_found rfl (by rw [hid]; rfl)).trans (hfound 1 _ hid)
  · exact (leads_test_other rfl (by rw [hid]; decide)).trans
      ((hthis _ rfl (by rw [hid]; rfl)).trans (hfound 2 _ hid))
  · exact (leads_test_other rfl (by rw [hid]; decide)).trans
      ((hother _ rfl (by rw [hid]; decide)).trans
      ((hthis _ rfl (by rw [hid]; rfl)).trans (hfound 3 _ hid)))
  · exact (leads_test_other rfl (by rw [hid]; decide)).trans
      ((hother _ rfl (by rw [hid]; decide)).trans
      ((hother _ rfl (by rw [hid]; decide)).trans
      ((hthis _ rfl (by rw [hid]; rfl)).trans (hfound 4 _ hid))))

/-- `TRAP_OSBI_GET_MSCRATCH` finds the entry of a hart that the monitor knows. -/
theorem leads_found (sy : SwitchSymbols) {c : Cpu} (hlt : (c.csr .mhartid).toNat < 5) :
    (switchCode sy).Leads (if c.csr .mhartid ≠ 0 then .testHart 0 else .isHart 0) c .getMscratch
      (c.setGpr t6 (sy.scratchAddrs + slot (c.csr .mhartid).toNat)) := by
  by_cases h0 : c.csr .mhartid = 0
  · have hslot : slot ((0 : Fin 5) : Nat) = slot (c.csr .mhartid).toNat := by rw [h0]; rfl
    rw [if_neg (not_not.mpr h0), ← hslot]
    exact leads_isHart sy 0 c
  · rw [if_pos h0]
    exact leads_tests sy h0 hlt

/-- A hart with another number stays in the last test. -/
theorem exec_testHart_unknown (sy : SwitchSymbols) (n : Nat) : ∀ {c : Cpu},
    5 ≤ (c.csr .mhartid).toNat → (switchCode sy).exec n (.testHart 3) c = none := by
  induction n with
  | zero => intro c _; rfl
  | succ n ih =>
    intro c hge
    have hexec : c.execs (switchBlock sy (.testHart 3)).body =
        c.setGpr t6 (c.csr .mhartid + -4) := by
      simp [switchBlock, Cpu.exec, Cpu.gpr_setGpr, t6, Cpu.setGpr_setGpr]
    have hne : c.csr .mhartid + -4 ≠ 0 := by bv_omega
    have hlast : ((switchCode sy).block (.testHart 3)).last =
      .bnez t6 (.testHart 3) (.isHart 4) := rfl
    simp only [Code.exec, hlast]
    rw [switchCode_block, hexec, Cpu.gpr_setGpr (by decide), if_pos rfl, if_pos hne]
    exact ih (by rwa [Cpu.csr_setGpr])

theorem not_calls_testHart_unknown {sy : SwitchSymbols} {c c' : Cpu} {f : SwitchCall}
    (hge : 5 ≤ (c.csr .mhartid).toNat) : ¬ (switchCode sy).Calls (.testHart 0) c f c' := by
  have hne : ∀ imm : Word, imm = -1 ∨ imm = -2 ∨ imm = -3 → c.csr .mhartid + imm ≠ 0 := by
    intro imm himm
    bv_omega
  rw [(leads_test c rfl).calls, if_pos (hne _ (.inl rfl)), (leads_test _ rfl).calls, Cpu.csr_setGpr,
    if_pos (hne _ (.inr (.inl rfl))), (leads_test _ rfl).calls, Cpu.csr_setGpr, Cpu.csr_setGpr,
    if_pos (hne _ (.inr (.inr rfl)))]
  rintro ⟨n, hn⟩
  rw [exec_testHart_unknown sy n (by simpa only [Cpu.csr_setGpr] using hge)] at hn
  cases hn

/-- The state in which the monitor begins to test for the hart: the registers of the frame, with
`t6` in `mscratch`. -/
structure Entered (c d : Cpu) : Prop where
  gpr : ∀ r : Reg, r ≠ 0 → r ≠ t6 → d.gpr r = c.frame r
  gprT6 : d.csr .mscratch = c.frame 31
  mhartid : d.csr .mhartid = c.csr .mhartid
  mepc : d.csr .mepc = c.frame 32
  mstatus : d.csr .mstatus = c.frame 33 &&& ~~~8
  sscratch : d.csr .sscratch = c.csr .mscratch
  mem : d.mem = c.mem

/-- From `_trap_exit_M` to the tests. -/
theorem entered_spec (sy : SwitchSymbols) (c : Cpu) : ∃ d, Entered c d ∧ ∀ f c',
    (switchCode sy).Calls .trapExitM c f c' ↔
      (switchCode sy).Calls (if c.csr .mhartid ≠ 0 then .testHart 0 else .isHart 0) d f c' := by
  obtain ⟨⟨hgpr, hmem⟩, hcsr⟩ := trapExitM_spec sy c
  generalize hc1 : c.execs (switchBlock sy .trapExitM).body = c1 at *
  obtain ⟨hdgpr, hdt6, hdhart, hdmepc, hdmstatus, hdmscratch, hdsscratch, hdmem⟩ :=
    sallyport_spec sy c1
  have hjr : ((c1.execs (switchBlock sy .osbiLastInstruction).body).execs
      (switchBlock sy .sallyportEntry).body).gpr t6 = 0x80001000 := by
    simp [switchBlock, Cpu.exec, Cpu.gpr_setGpr, t6]
  generalize hc2 : c1.execs (switchBlock sy .osbiLastInstruction).body = c2 at *
  generalize hc3 : c2.execs (switchBlock sy .sallyportEntry).body = c3 at *
  have hlabel : (switchCode sy).label
      ((c2.execs ((switchCode sy).block .sallyportEntry).body).gpr t6) = some .monEnterOsbi := by
    rw [switchCode_block, hc3, hjr]
    rfl
  have hhart : c1.csr .mhartid = c.csr .mhartid := by
    rw [hcsr]
    rfl
  refine ⟨c3.execs (switchBlock sy .monEnterOsbi).body,
    ⟨fun r hr h31 => ?_, ?_, ?_, ?_, ?_, ?_, ?_⟩, fun f c' => ?_⟩
  · rw [hdgpr r h31, hgpr r hr]
  · rw [hdmscratch, hgpr t6 (by decide)]
    rfl
  · rw [hdhart, hhart]
  · rw [hdmepc, hcsr]
    rfl
  · rw [hdmstatus, hcsr]
    rfl
  · rw [hdsscratch, hcsr]
    rfl
  · rw [hdmem, hmem]
  · rw [Code.calls_jump (.inl rfl), Code.calls_jump (.inr rfl), switchCode_block, hc1, hc2,
      Code.calls_jr rfl hlabel, Code.calls_bnez rfl, switchCode_block, hc3, hdt6, hhart]

/-- The context in which the monitor builds its frame. -/
structure Arrives (sy : SwitchSymbols) (c e : Cpu) : Prop where
  gpr : ∀ r : Reg, r ≠ 0 → e.gpr r = c.frame r
  mepc : e.csr .mepc = c.frame 32
  mstatus : e.csr .mstatus = c.frame 33 &&& ~~~8
  mscratch : e.csr .mscratch = scratchSpace sy c
  sscratch : e.csr .sscratch = c.csr .mscratch

/-- The end of `TRAP_OSBI_GET_MSCRATCH`. -/
theorem Entered.arrives (sy : SwitchSymbols) {c d : Cpu} (hd : Entered c d) :
    Arrives sy c ((d.setGpr t6 (sy.scratchAddrs + slot (c.csr .mhartid).toNat)).execs
      [.ld t6 0 t6, .csrrw t6 .mscratch t6]) := by
  refine ⟨fun r hr => ?_, ?_, ?_, ?_, ?_⟩
  · by_cases h31 : r = 31
    · subst h31
      refine Eq.trans ?_ hd.gprT6
      simp [Cpu.exec, Cpu.gpr_setGpr, t6]
    · rw [← hd.gpr r hr h31]
      simp [Cpu.exec, Cpu.gpr_setGpr, t6, h31]
  · simp [Cpu.exec, t6, hd.mepc]
  · simp [Cpu.exec, t6, hd.mstatus]
  · simp [Cpu.exec, Cpu.gpr_setGpr, t6, hd.mem, scratchSpace]
  · simp [Cpu.exec, t6, hd.sscratch]

/-- The memory that `mon_trap_return_osbi` finds, once `mscratch` of OpenSBI has been added to a
frame in `m`. -/
def returnMem (e : Cpu) (m : Mem) : Mem :=
  (m.store (tmpAddr monitorLayout e) (e.csr .mstatus)).store (frameBase monitorLayout e + slot 35)
    (e.csr .sscratch)

/-- `TRAP_OSBI_PULL_PMP_MSCRATCH` and the rest of `_mon_enter_osbi`. -/
theorem pull_spec (sy : SwitchSymbols) {e c : Cpu} (hs : Saved monitorLayout e c) (i : Nat) :
    (c.execs (trapOsbiPullPmpMscratch ++
      [.li t6 sy.startHang, .csrrw t6 .mtvec t6, .add a0 sp zero])).frame i =
        (returnMem e c.mem).load (frameBase monitorLayout e + slot i) := by
  have hstack : c.gpr 2 = frameBase monitorLayout e := hs.stack
  have htemp : c.gpr 5 = e.csr .mstatus := hs.temp
  simp [trapOsbiPullPmpMscratch, Cpu.exec, Cpu.gpr_setGpr, Cpu.frame, t0, t6, a0, sp, tp, zero,
    hstack, htemp, hs.csr, TRAP_REGS_mscratch, returnMem, tmpAddr, c.gpr_zero]

/-- The way back, for the harts the monitor knows. -/
theorem returns_spec (sy : SwitchSymbols) {c : Cpu} (hhart : (c.csr .mhartid).toNat < 5) :
    ∃ e c5 c', Arrives sy c e ∧ Saved monitorLayout e c5 ∧
      (switchCode sy).Calls .trapExitM c .monTrapReturnOsbi c' ∧
      ∀ i, c'.frame i = (returnMem e c5.mem).load (frameBase monitorLayout e + slot i) := by
  obtain ⟨d, hd, hcalls⟩ := entered_spec sy c
  -- the state in which the tests have found the entry of the hart
  have he := hd.arrives sy
  generalize hfound : d.setGpr t6 (sy.scratchAddrs + slot (c.csr .mhartid).toNat) = d' at he
  generalize hee : d'.execs [.ld t6 0 t6, .csrrw t6 .mscratch t6] = e at he
  have hs := saved_spec monitorLayout e
  generalize hc5 : e.execs (trapSaveAndSetupSpT0 monitorLayout ++ trapSaveMepcMstatus ++
    trapSaveGeneralRegsExceptSpT0) = c5 at hs
  have hbody : d'.execs (switchBlock sy .getMscratch).body = c5.execs (trapOsbiPullPmpMscratch ++
      [.li t6 sy.startHang, .csrrw t6 .mtvec t6, .add a0 sp zero]) := by
    dsimp only [switchBlock]
    rw [← hc5, ← hee]
    simp only [Cpu.execs_append]
  refine ⟨e, c5, d'.execs (switchBlock sy .getMscratch).body, he, hs, ?_, fun i => ?_⟩
  · have hget : (switchCode sy).Calls .getMscratch d' .monTrapReturnOsbi
        (d'.execs (switchBlock sy .getMscratch).body) := Code.calls_of_call rfl
    have hfind := leads_found sy (c := d) (by rwa [hd.mhartid])
    rw [hd.mhartid, hfound] at hfind
    rw [hcalls, hfind.calls]
    exact hget
  · rw [hbody]
    exact pull_spec sy hs i

/-- A hart that the monitor does not know does not come back. -/
theorem not_returns_of_unknown (sy : SwitchSymbols) {c : Cpu} (hhart : 5 ≤ (c.csr .mhartid).toNat) :
    ¬ ReturnsFromOsbi sy c := by
  rintro ⟨c', hcalls', -⟩
  obtain ⟨d, hd, hcalls⟩ := entered_spec sy c
  have hne : c.csr .mhartid ≠ 0 := by
    intro h0
    rw [h0] at hhart
    exact absurd hhart (by decide)
  rw [hcalls, if_pos hne] at hcalls'
  exact not_calls_testHart_unknown (by rwa [hd.mhartid]) hcalls'

/-! ## When the frame keeps its members -/

/-- The distance of `tmp0` from the start of the frame. -/
def tmpDistance (e : Cpu) : Nat := (tmpAddr monitorLayout e - frameBase monitorLayout e).toNat

/-- A distance at which `tmp0` meets no register, `mepc` or part of `mstatus`. -/
def Harmless (d : Nat) : Prop := d = 0 ∨ d = 264 ∨ 272 ≤ d

theorem clobbers_eq_false {scratch sp : Word} : clobbers scratch sp = false ↔
    Harmless (scratch + monitorLayout.tmp0 - (sp - monitorLayout.size)).toNat := by
  unfold clobbers Harmless
  simp only [Bool.and_eq_false_iff, decide_eq_false_iff_not]
  omega

theorem apart_member {e : Cpu} (h : Harmless (tmpDistance e)) {i : Nat} (h1 : 1 ≤ i)
    (h32 : i ≤ 32) :
    Mem.Apart (tmpAddr monitorLayout e) (frameBase monitorLayout e + slot i) := by
  unfold Harmless tmpDistance at h
  unfold Mem.Apart slot
  generalize tmpAddr monitorLayout e = tmp at *
  generalize frameBase monitorLayout e = base at *
  constructor <;> bv_omega

theorem apart_reload {e : Cpu} (h : Harmless (tmpDistance e)) :
    Mem.Apart (frameBase monitorLayout e + slot 2) (tmpAddr monitorLayout e) := by
  have hd := apart_member h (i := 2) (by decide) (by decide)
  unfold Mem.Apart at hd ⊢
  constructor <;> bv_omega

/-- A byte of the frame that is a byte of `tmp0`. -/
theorem member_byte_addr {e : Cpu} {i k j : Nat} (hk : k < 8)
    (h : 8 * i + k = tmpDistance e + j) :
    frameBase monitorLayout e + slot i + BitVec.ofNat 64 k =
      tmpAddr monitorLayout e + BitVec.ofNat 64 j := by
  unfold tmpDistance at h
  unfold slot
  bv_omega

theorem member_addr {e : Cpu} (i : Nat) (h : tmpDistance e = 8 * i) :
    tmpAddr monitorLayout e = frameBase monitorLayout e + slot i := by
  unfold tmpDistance at h
  unfold slot
  bv_omega

theorem mppOf_clearMie (v : Word) : mppOf (v &&& ~~~8) = mppOf v := by
  unfold mppOf
  have hmask : (~~~8 : Word) >>> 11 &&& 3 = 3 := by decide
  rw [BitVec.ushiftRight_and_distrib, BitVec.and_assoc, hmask]

theorem Arrives.tmpDistance_of_below {sy : SwitchSymbols} {c e : Cpu} (he : Arrives sy c e)
    (hmpp : mppOf (c.frame 33) ≠ 3) : tmpDistance e = 344 := by
  have hmpp' : mppOf (e.csr .mstatus) ≠ 3 := by rwa [he.mstatus, mppOf_clearMie]
  unfold tmpDistance
  rw [tmpAddr_sub_of_below hmpp']
  rfl

theorem Arrives.frameBase_of_machine {sy : SwitchSymbols} {c e : Cpu} (he : Arrives sy c e)
    (hmpp : mppOf (c.frame 33) = 3) :
    frameBase monitorLayout e = c.frame 2 - monitorLayout.size := by
  unfold frameBase exceptionStack
  rw [he.mstatus, mppOf_clearMie, if_pos hmpp, he.gpr sp (by decide)]
  rfl

theorem Arrives.tmpAddr_eq {sy : SwitchSymbols} {c e : Cpu} (he : Arrives sy c e) :
    tmpAddr monitorLayout e = scratchSpace sy c + monitorLayout.tmp0 := by
  unfold tmpAddr
  rw [he.mscratch]

/-- `returnMem` only adds to the members up to `mstatus` what it puts in `tmp0`. -/
theorem load_returnMem (e : Cpu) (m : Mem) {i : Nat} (h33 : i ≤ 33) :
    (returnMem e m).load (frameBase monitorLayout e + slot i) =
      (m.store (tmpAddr monitorLayout e) (e.csr .mstatus)).load
        (frameBase monitorLayout e + slot i) := by
  unfold returnMem
  rw [Mem.load_store_slot _ _ _ (by omega) (by decide), if_neg (by omega)]

theorem returns_of_harmless (sy : SwitchSymbols) {c : Cpu} (hhart : (c.csr .mhartid).toNat < 5)
    (h : ∀ e, Arrives sy c e → Harmless (tmpDistance e)) : ReturnsFromOsbi sy c := by
  obtain ⟨e, c5, c', he, hs, hcalls, hframe⟩ := returns_spec sy hhart
  have hd := h e he
  have hmstatus : c'.frame 33 = e.csr .mstatus := by
    rw [hframe, load_returnMem _ _ (Nat.le_refl 33)]
    by_cases h264 : tmpDistance e = 264
    · -- `tmp0` is the member itself, and `t0` holds `mstatus`
      rw [member_addr 33 h264, Mem.load_store_self]
    · have hapart : Mem.Apart (tmpAddr monitorLayout e) (frameBase monitorLayout e + slot 33) := by
        unfold Harmless tmpDistance at hd
        unfold tmpDistance at h264
        unfold Mem.Apart slot
        generalize tmpAddr monitorLayout e = tmp at *
        generalize frameBase monitorLayout e = base at *
        constructor <;> bv_omega
      rw [Mem.load_store_of_apart hapart, hs.mstatus]
  refine ⟨c', hcalls, fun i h1 h32 => ?_, ?_, ?_⟩
  · rw [hframe, load_returnMem _ _ (by omega), Mem.load_store_of_apart (apart_member hd h1 h32)]
    rcases Nat.lt_or_ge i 32 with hlt | hge
    · exact (hs.frame (apart_reload hd) ⟨i, hlt⟩).trans (he.gpr _ (reg_ne_zero h1 hlt))
    · obtain rfl : i = 32 := by omega
      exact hs.mepc.trans he.mepc
  · rw [hmstatus, he.mstatus, BitVec.and_assoc]
    rfl
  · rw [hframe, returnMem, Mem.load_store_self, he.sscratch]

/-- A frame below the scratch space, or one that keeps off `tmp0`. -/
theorem returns_from_osbi (sy : SwitchSymbols) {c : Cpu} (hhart : (c.csr .mhartid).toNat < 5)
    (h : mppOf (c.frame 33) ≠ 3 ∨ clobbers (scratchSpace sy c) (c.frame 2) = false) :
    ReturnsFromOsbi sy c := by
  refine returns_of_harmless sy hhart fun e he => ?_
  by_cases hmpp : mppOf (c.frame 33) = 3
  · have hclear := clobbers_eq_false.mp (h.resolve_left (not_not.mpr hmpp))
    unfold tmpDistance
    rwa [he.tmpAddr_eq, he.frameBase_of_machine hmpp]
  · rw [he.tmpDistance_of_below hmpp]
    exact .inr (.inr (by decide))

/-! ## When it does not -/

/-- A value of `mstatus` with `MPP` = M whose first byte differs from the others. -/
def spoilingStatus : Word := 0x1818181818181800

/-- The memory of a hart with its scratch space at `scratch`, and a frame with all bits set but for
`sp` and `mstatus`. -/
def spoilingMem (entry status scratch stack : Word) : Mem :=
  let full : Mem := fun _ => 0xFF
  ((full.store (entry + 4096 + slot 2) stack).store (entry + 4096 + slot 33) status).store
    entry scratch

def spoilingCpu (sy : SwitchSymbols) (hart status scratch stack : Word) : Cpu where
  gpr r := if r = a0 then sy.scratchAddrs + slot hart.toNat + 4096 else 0
  csr
    | .mhartid => hart
    | _ => 0
  mem := spoilingMem (sy.scratchAddrs + slot hart.toNat) status scratch stack
  gpr_zero := rfl

section Spoiling

variable (sy : SwitchSymbols) (hart status scratch stack : Word)

theorem spoilingCpu_scratchSpace :
    scratchSpace sy (spoilingCpu sy hart status scratch stack) = scratch :=
  Mem.load_store_self ..

theorem load_full (a : Word) : Mem.load (fun _ => 0xFF) a = BitVec.allOnes 64 := by
  have hbytes : ∀ k < 8, (0xFF : Byte) = (BitVec.allOnes 64).extractLsb' (8 * k) 8 := by decide
  refine Mem.word_eq_of_bytes fun k hk => ?_
  rw [Mem.byte_load _ _ hk]
  exact hbytes k hk

theorem spoilingCpu_frame {i : Nat} (h33 : i ≤ 33) :
    (spoilingCpu sy hart status scratch stack).frame i =
      if i = 33 then status else if i = 2 then stack else BitVec.allOnes 64 := by
  have hframe : (spoilingCpu sy hart status scratch stack).frame i =
      (spoilingMem (sy.scratchAddrs + slot hart.toNat) status scratch stack).load
        (sy.scratchAddrs + slot hart.toNat + 4096 + slot i) := rfl
  have hapart : ∀ entry : Word, Mem.Apart entry (entry + 4096 + slot i) := by
    intro entry
    unfold Mem.Apart slot
    constructor <;> bv_omega
  rw [hframe, spoilingMem, Mem.load_store_of_apart (hapart _),
    Mem.load_store_slot _ _ _ (by omega) (by decide),
    Mem.load_store_slot _ _ _ (by omega) (by decide), load_full]

theorem spoilingCpu_mstatus : (spoilingCpu sy hart status scratch stack).frame 33 = status :=
  spoilingCpu_frame sy hart status scratch stack (Nat.le_refl 33)

theorem spoilingCpu_stack : (spoilingCpu sy hart status scratch stack).frame 2 = stack :=
  spoilingCpu_frame sy hart status scratch stack (by decide)

/-- The first byte of `tmp0` is 0 and the others are `0x18`, where the frame had set bits. -/
theorem spoilingStatus_byte_ne : ∀ k < 8, ∀ j < 8, (BitVec.allOnes 64).extractLsb' (8 * k) 8 ≠
    spoilingStatus.extractLsb' (8 * j) 8 := by
  decide

theorem spoilingStatus_byte_succ_ne : ∀ k < 8, 0 < k →
    spoilingStatus.extractLsb' 0 8 &&& (~~~MSTATUS_MIE).extractLsb' (8 * k) 8 ≠
      (spoilingStatus &&& ~~~MSTATUS_MIE).extractLsb' (8 * k) 8 := by
  decide

/-- A member other than `sp` that has a byte of `tmp0`. -/
theorem exists_member_byte {d : Nat} (hd : ¬ Harmless d) (h16 : d ≠ 16) (hlt : d < 264) :
    ∃ i k j, 1 ≤ i ∧ i ≤ 32 ∧ i ≠ 2 ∧ k < 8 ∧ j < 8 ∧ 8 * i + k = d + j := by
  unfold Harmless at hd
  rcases (by omega : d < 8 ∨ 8 ≤ d ∧ d < 16 ∨ 16 < d ∧ d < 24 ∨ 24 ≤ d) with h | h | h | h
  · exact ⟨1, 0, 8 - d, by omega⟩
  · exact ⟨1, d - 8, 0, by omega⟩
  · exact ⟨3, 0, 24 - d, by omega⟩
  · exact ⟨d / 8, d % 8, 0, by omega⟩

theorem not_returns_of_clobbers (hhart : hart.toNat < 5) (h : clobbers scratch stack = true) :
    ¬ ReturnsFromOsbi sy (spoilingCpu sy hart spoilingStatus scratch stack) := by
  rintro ⟨c', hcalls', hregs, hmstatus, -⟩
  have hhart : ((spoilingCpu sy hart spoilingStatus scratch stack).csr .mhartid).toNat < 5 := hhart
  obtain ⟨e, c5, c'', he, hs, hcalls, hframe⟩ := returns_spec sy hhart
  obtain ⟨-, rfl⟩ := hcalls'.unique hcalls
  have hstatus : e.csr .mstatus = spoilingStatus := by
    rw [he.mstatus, spoilingCpu_mstatus]
    decide
  have hmpp : mppOf ((spoilingCpu sy hart spoilingStatus scratch stack).frame 33) = 3 := by
    rw [spoilingCpu_mstatus]
    decide
  have hbase : frameBase monitorLayout e = stack - monitorLayout.size := by
    rw [he.frameBase_of_machine hmpp, spoilingCpu_stack]
  have htmp : tmpAddr monitorLayout e = scratch + monitorLayout.tmp0 := by
    rw [he.tmpAddr_eq, spoilingCpu_scratchSpace]
  have hd : ¬ Harmless (tmpDistance e) := by
    unfold tmpDistance
    rw [hbase, htmp, ← clobbers_eq_false, h]
    decide
  -- the bytes of the frame that are bytes of `tmp0`
  have hbyte : ∀ i k j, i ≤ 33 → k < 8 → j < 8 → 8 * i + k = tmpDistance e + j →
      (c'.frame i).extractLsb' (8 * k) 8 = spoilingStatus.extractLsb' (8 * j) 8 := by
    intro i k j hi hk hj heq
    rw [hframe, load_returnMem _ _ hi, Mem.byte_load _ _ hk, member_byte_addr hk heq,
      Mem.store_byte _ _ _ hj, hstatus]
  by_cases h16 : tmpDistance e = 16
  · -- `tmp0` is the member `sp`: `t0` is read back as `sp`, which is then lost
    have haddr := member_addr 2 h16
    have hsp : stack = spoilingStatus := by
      have h2 := hregs 2 (by decide) (by decide)
      rw [hframe, load_returnMem _ _ (by decide), haddr, Mem.load_store_self, hstatus,
        spoilingCpu_stack] at h2
      exact h2.symm
    have ht0 : stack = BitVec.allOnes 64 := by
      have h5 := hregs 5 (by decide) (by decide)
      rw [hframe, load_returnMem _ _ (by decide), haddr,
        Mem.load_store_slot _ _ _ (by decide) (by decide), if_neg (by decide), hs.regT0,
        stackMem, haddr, Mem.load_store_self, he.gpr sp (by decide),
        spoilingCpu_frame _ _ _ _ _ (by decide)] at h5
      exact h5.trans (spoilingCpu_frame _ _ _ _ _ (by decide))
    exact absurd (hsp.symm.trans ht0) (by decide)
  · rcases Nat.lt_or_ge (tmpDistance e) 264 with hlt | hge
    · -- a byte of a register or of `mepc`
      obtain ⟨i, k, j, h1, h32, h2, hk, hj, heq⟩ := exists_member_byte hd h16 hlt
      have hb := hbyte i k j (by omega) hk hj heq
      rw [hregs i h1 h32, spoilingCpu_frame _ _ _ _ _ (by omega), if_neg (by omega),
        if_neg h2] at hb
      exact spoilingStatus_byte_ne k hk j hj hb
    · -- a byte of `mstatus`
      have hk : tmpDistance e - 264 < 8 ∧ 0 < tmpDistance e - 264 := by
        unfold Harmless at hd
        omega
      have hb := hbyte 33 (tmpDistance e - 264) 0 (by decide) hk.1 (by decide) (by omega)
      have heq := congrArg (fun v : Word => v.extractLsb' (8 * (tmpDistance e - 264)) 8) hmstatus
      rw [BitVec.extractLsb'_and, hb, spoilingCpu_mstatus] at heq
      exact spoilingStatus_byte_succ_ne _ hk.1 hk.2 heq

end Spoiling

/-- The monitor hands every frame with `MPP` below M over to OpenSBI. A frame comes back, whatever
the registers hold, exactly when the monitor knows the hart and `MPP` is below M or `tmp0` of the
scratch space does not lie in the frame that the monitor builds below the `sp` of OpenSBI. -/
theorem world_switch_transparent (sy : SwitchSymbols) :
    (∀ c : Cpu, c.frame 35 ≠ 0 → mppOf (c.frame 33) < 3 → ExitsToOsbi sy c) ∧
      ∀ (hart scratch stack : Word) (machine : Bool),
        (∀ c : Cpu, c.csr .mhartid = hart → scratchSpace sy c = scratch → c.frame 2 = stack →
          (mppOf (c.frame 33) = 3 ↔ machine = true) → ReturnsFromOsbi sy c) ↔
        hart.toNat < 5 ∧ (machine = true → clobbers scratch stack = false) := by
  refine ⟨fun c hslot hmpp => exits_to_osbi sy hslot fun h3 => ?_, fun hart scratch stack machine =>
    ⟨fun h => ?_, fun ⟨hhart, hclear⟩ c hid hscratch hstack hmpp => ?_⟩⟩
  · rw [h3] at hmpp
    exact absurd hmpp (by decide)
  · -- a frame that asks for the mode, in the given places
    have hreturns : ∀ status, (mppOf status = 3 ↔ machine = true) →
        ReturnsFromOsbi sy (spoilingCpu sy hart status scratch stack) := fun status hmpp =>
      h _ rfl (spoilingCpu_scratchSpace ..) (spoilingCpu_stack ..) (by rwa [spoilingCpu_mstatus])
    have hhart : hart.toNat < 5 := by
      by_contra hge
      have hstuck : ∀ status, ¬ ReturnsFromOsbi sy (spoilingCpu sy hart status scratch stack) :=
        fun status => not_returns_of_unknown sy (Nat.le_of_not_lt hge)
      cases machine with
      | false => exact hstuck 0 (hreturns 0 (by decide))
      | true => exact hstuck spoilingStatus (hreturns spoilingStatus (by decide))
    refine ⟨hhart, fun hm => ?_⟩
    subst hm
    by_contra hclob
    exact not_returns_of_clobbers sy hart scratch stack hhart (eq_true_of_ne_false hclob)
      (hreturns spoilingStatus (by decide))
  · refine returns_from_osbi sy (by rwa [hid]) ?_
    rw [hscratch, hstack]
    by_cases h3 : mppOf (c.frame 33) = 3
    · exact .inr (hclear (hmpp.mp h3))
    · exact .inl h3

/-- OpenSBI returns to M with `sp` 264 bytes above the scratch space of hart 0: `mstatus` takes the
place of `a0`. -/
theorem return_to_machine_loses_a0 :
    let sy : SwitchSymbols := ⟨0x80020000, 0x80000100⟩
    let c := spoilingCpu sy 0 spoilingStatus 0x80030000 0x80030108
    c.frame 10 = 0xFFFFFFFFFFFFFFFF ∧
      ((switchCode sy).exec 6 .trapExitM c).map (fun r => (r.1, r.2.frame 10)) =
        some (.monTrapReturnOsbi, spoilingStatus) ∧ ¬ ReturnsFromOsbi sy c := by
  intro sy c
  refine ⟨by decide +kernel, by decide +kernel, ?_⟩
  exact not_returns_of_clobbers sy 0 0x80030000 0x80030108 (by decide) (by decide)

end Dorami.Sm
