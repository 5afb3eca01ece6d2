import Dorami.Monitor.Contexts

/-!
# Entries into the monitor

The first lines of `mon_trap_handler_sumode` record the trap and the `sscratch` of the interrupted
context; `arrive` is the state after them. What follows is one case for each kind of trap.
-/

namespace Dorami.Sm

open Riscv

namespace Monitor

variable (C : Crypto) (m : Monitor) (h : HartId) (t : Trap)

@[simp] theorem setHart_setHart (hs hs' : HartState) :
    (m.setHart h hs).setHart h hs' = m.setHart h hs' := by
  unfold setHart
  congr 1
  funext g
  by_cases hg : g = h <;> simp [hg]

@[simp] theorem hart_setHart_self (hs : HartState) : (m.setHart h hs).hart h = hs := if_pos rfl

theorem hart_setHart_ne {g : HartId} (hne : g ≠ h) (hs : HartState) :
    (m.setHart h hs).hart g = m.hart g := if_neg hne

theorem toHartCore_arrived (hs : HartState) : (arrived hs t).toHartCore = hs.toHartCore := by
  unfold arrived
  dsimp only
  split <;> rfl

@[simp] theorem toHartCore_arrive :
    ((m.arrive h t).hart h).toHartCore = (m.hart h).toHartCore := by
  rw [arrive, hart_setHart_self, toHartCore_arrived]

theorem trapHandler_eq :
    m.trapHandler C h t =
      if (m.hart h).monEnclaveExecution then
        (m.arrive h t).sbiTrapHandlerKeystoneEnclave C h t.mcause (frame t) t.env
      else (m.arrive h t).monTrapHandlerHost C h t.mcause (frame t) t.env := by
  unfold trapHandler monTrapHandlerSumode arrive arrived
  simp only [setHart_setHart, hart_setHart_self]
  cases (m.hart h).monEnclaveExecution <;> rfl

/-- A call of the Keystone extension is served by its handler, whatever the hart is recorded to
run. -/
theorem trapStep_keystone (hk : t.isKeystone = true) :
    m.trapStep C h t =
      ((m.arrive h t).sbiEcallKeystoneEnclaveHandler C h t.regs.a6 (frame t)
          t.env).1.setMode h .su := by
  simp only [Trap.isKeystone, Bool.and_eq_true, Bool.not_eq_true', beq_iff_eq] at hk
  obtain ⟨⟨hirq, hecall⟩, ha7⟩ := hk
  have ha7' : (frame t).a7 = SBI_EXT_EXPERIMENTAL_KEYSTONE_ENCLAVE := ha7
  have ha6 : (frame t).a6 = t.regs.a6 := rfl
  change (m.trapHandler C h t).1.leave h (m.trapHandler C h t).2 = _
  rw [trapHandler_eq]
  cases (m.hart h).monEnclaveExecution with
  | true =>
    simp only [if_true, sbiTrapHandlerKeystoneEnclave, hirq, hecall, ha7', ha6, Bool.false_eq_true,
      if_false]
    rcases (m.arrive h t).sbiEcallKeystoneEnclaveHandler C h t.regs.a6 (frame t) t.env with
      ⟨m', _ | _⟩ <;> rfl
  | false =>
    simp only [Bool.false_eq_true, if_false, monTrapHandlerHost, hirq, hecall, ha7', ha6, if_true]
    rcases (m.arrive h t).sbiEcallKeystoneEnclaveHandler C h t.regs.a6 (frame t) t.env with
      ⟨m', _ | _⟩ <;> rfl

/-! ## The interrupts of updates

What `deliverIpi` says of a hart is what its own traps do: on a hart in the host the update, the
trap of the software interrupt and the return of OpenSBI, and on a hart inside an enclave before
that the trap that stops it. -/

section Ipi

variable (g : HartId) (u : IpiUpdate) (ctx : Interrupted) (env : Env)

/-- The software interrupt that an update sends to hart `g`. -/
def ipiTrap : Trap := ⟨CAUSE_M_SOFT, 0, ctx.regs, ctx.csrs, (m.hart g).mip, env⟩

theorem cfgRegs_cfgRegs (cfg cfg' : Word) (r : PmpRegs) :
    cfgRegs cfg (cfgRegs cfg' r) = cfgRegs cfg r := by
  unfold cfgRegs
  congr 1
  funext n
  by_cases hn : n = 0
  · rw [if_pos hn, if_pos hn]
  · rw [if_neg hn, if_neg hn]
    exact if_neg hn

theorem deliverIpi_host (hflag : (m.hart g).monEnclaveExecution = false)
    (hstarted : (m.hart g).suStarted = true) (hsu : (m.hart g).mode = .su) (osbi : TrapRegs) :
    m.deliverIpi g u ctx =
      ((m.monIpiCheck g u).trapStep C g (m.ipiTrap g ctx env)).osbiReturnStep g osbi := by
  have hirq : isInterrupt CAUSE_M_SOFT = true := by decide
  have hsoft : irqCode CAUSE_M_SOFT = IRQ_M_SOFT := by decide
  simp only [deliverIpi, hostIpi, monIpiCheck, trapStep, ipiTrap, osbiReturnStep,
    monTrapHandlerSumode, monTrapHandlerHost, monTrapReturnOsbi, writePmpcfg0, setPmp,
    leave, setMode, hart_setHart_self, setHart_setHart, cfgRegs_cfgRegs, hflag,
    hstarted, hirq, hsoft, Bool.false_eq_true, if_false, if_true, Bool.not_true, or_true]
  rw [hsu]
  rfl

theorem deliverIpi_enclave (hflag : (m.hart g).monEnclaveExecution = true)
    (hzero : ctx.regs.setGpr 0 0 = ctx.regs) :
    ∃ regs, (m.trapHandler C g (m.ipiTrap g ctx env)).2 = .toSu regs ∧
      m.deliverIpi g u ctx =
        (m.trapHandler C g (m.ipiTrap g ctx env)).1.hostIpi g u regs.sscratch := by
  have hirq : isInterrupt CAUSE_M_SOFT = true := by decide
  have hsoft : irqCode CAUSE_M_SOFT = IRQ_M_SOFT := by decide
  simp only [deliverIpi, trapHandler, ipiTrap, monTrapHandlerSumode, sbiTrapHandlerKeystoneEnclave,
    hzero, hart_setHart_self, setHart_setHart, hflag, hirq, hsoft, if_true, or_true]
  exact ⟨_, rfl, rfl⟩

end Ipi

end Monitor

end Dorami.Sm
