import Dorami.Monitor.Core
import Dorami.Sm.Proofs.PmpTableProofs
import Mathlib.Tactic.Common

/-!
# The functions of the monitor on the core

For each function of the monitor the core of its result is the corresponding function of the core of
its argument.
-/

namespace Dorami.Sm

open Riscv

/-! ## The components of the core -/

namespace Core

variable (c : Core) (h g : HartId) (hc hc' : HartCore)

@[simp] theorem hart_setHart : (c.setHart h hc).hart g = if g = h then hc else c.hart g := rfl
@[simp] theorem table_setHart : (c.setHart h hc).table = c.table := rfl
@[simp] theorem enclaves_setHart : (c.setHart h hc).enclaves = c.enclaves := rfl

@[simp] theorem enclaves_setEnclave (eid e : Nat) (en : EnclaveCore) :
    (c.setEnclave eid en).enclaves e = if e = eid then en else c.enclaves e := rfl
@[simp] theorem hart_setEnclave (eid : Nat) (en : EnclaveCore) :
    (c.setEnclave eid en).hart = c.hart := rfl
@[simp] theorem table_setEnclave (eid : Nat) (en : EnclaveCore) :
    (c.setEnclave eid en).table = c.table := rfl

@[simp] theorem setHart_setHart : (c.setHart h hc).setHart h hc' = c.setHart h hc' := by
  simp only [setHart]
  congr 1
  funext g
  split <;> rfl

@[simp] theorem setHart_self : c.setHart h (c.hart h) = c := by
  unfold setHart
  congr 1
  funext g
  split
  · subst_vars; rfl
  · rfl

@[simp] theorem setEnclave_self (eid : Nat) : c.setEnclave eid (c.enclaves eid) = c := by
  unfold setEnclave
  congr 1
  funext e
  split
  · subst_vars; rfl
  · rfl

/-- An id that is allocated and released again. -/
theorem setState_alloc_free {eid : Nat} (hst : (c.enclaves eid).state = .invalid) :
    (c.setState eid .allocated).setState eid .invalid = c := by
  unfold setState setEnclave
  congr 1
  funext e
  by_cases he : e = eid
  · subst he
    simp only [if_true, EnclaveCore.setState, ← hst]
  · simp only [if_neg he]

/-! ## Entering and leaving, component by component -/

/-- The registers of a hart inside an enclave with these regions. -/
def insidePmp (t : PmpTable) (regions : Nat → EnclaveRegion) (r : PmpRegs) : PmpRegs :=
  setRegions t regions (PMP_X ||| PMP_W ||| PMP_R) (osmSet t PMP_NO_PERM r)

/-- The registers of a hart that has left an enclave with these regions. -/
def outsidePmp (t : PmpTable) (regions : Nat → EnclaveRegion) (r : PmpRegs) : PmpRegs :=
  osmSet t EPMP_SU_RWX (setRegions t regions PMP_NO_PERM r)

variable (eid : Nat)

theorem fixPermissions_eq :
    c.fixPermissions h eid = c.setPmp h
        (insidePmp c.table (c.enclaves eid).regions (c.hart h).pmp) := by
  simp [fixPermissions, osmPmpSet, pmpSetRegions, setPmp, insidePmp]

theorem enter_eq :
    c.enter h eid = (c.setEnclave eid (c.enclaves eid).enter).setHart h
      { c.hart h with
        pmp := insidePmp c.table (c.enclaves eid).regions (c.hart h).pmp
        isEnclave := true
        eid := eid } := by
  rw [enter, fixPermissions_eq]
  simp [enterContext, setPmp, setEnclave, EnclaveCore.enter]

theorem leave_eq :
    c.leave h eid = (c.setEnclave eid (c.enclaves eid).leave).setHart h
      { c.hart h with
        pmp := outsidePmp c.table (c.enclaves eid).regions (c.hart h).pmp
        isEnclave := false } := by
  simp [leave, osmPmpSet, pmpSetRegions, exitContext, setPmp, setEnclave,
    EnclaveCore.leave, outsidePmp]

/-- The harts are where they were before. -/
def Same (c c' : Core) : Prop :=
  ∀ g, (c'.hart g).mode = (c.hart g).mode ∧ (c'.hart g).suStarted = (c.hart g).suStarted

variable {c h}

theorem Same.refl : Same c c := fun _ => ⟨rfl, rfl⟩

section

variable {c₁ : Core} (hs : Same c c₁)

include hs

theorem Same.setHart {hc : HartCore} (hm : hc.mode = (c₁.hart h).mode)
    (hst : hc.suStarted = (c₁.hart h).suStarted) : Same c (c₁.setHart h hc) := by
  intro g
  rw [hart_setHart]
  split
  · next heq => rw [heq]; exact ⟨hm.trans (hs h).1, hst.trans (hs h).2⟩
  · exact hs g

theorem Same.setPmp {r : PmpRegs} : Same c (c₁.setPmp h r) := hs.setHart rfl rfl

theorem Same.setEnclave {eid : Nat} {en : EnclaveCore} : Same c (c₁.setEnclave eid en) := hs

theorem Same.setTable {t : PmpTable} : Same c (c₁.setTable t) := hs

theorem Same.enter {eid : Nat} : Same c (c₁.enter h eid) :=
  hs.setEnclave.setPmp.setPmp.setHart rfl rfl

theorem Same.leave {eid : Nat} : Same c (c₁.leave h eid) :=
  hs.setEnclave.setPmp.setPmp.setHart rfl rfl

theorem Same.leaveCall : Same c (c₁.leaveCall h) := by
  unfold Core.leaveCall
  dsimp only
  split
  · exact hs.leave.setHart rfl rfl
  · exact hs.setHart rfl rfl

theorem Same.deliverIpi {u : IpiUpdate} : Same c (c₁.deliverIpi h u) := by
  unfold Core.deliverIpi
  dsimp only
  split
  · exact hs.leaveCall.setPmp
  · exact hs.setPmp

omit hs in
theorem Same.foldl {α : Type} {f : Core → α → Core} (hf : ∀ {c₁ a}, Same c c₁ → Same c (f c₁ a)) :
    ∀ (as : List α) {c₁}, Same c c₁ → Same c (as.foldl f c₁)
  | [], _, hs => hs
  | _ :: as, _, hs => Same.foldl hf as (hf hs)

theorem Same.sendIpis {u : IpiUpdate} : Same c (c₁.sendIpis h u) :=
  Same.foldl (fun hs => hs.deliverIpi) _ hs

theorem Same.unsetGlobal {rid : Nat} : Same c (c₁.unsetGlobal h rid) := by
  unfold Core.unsetGlobal
  split
  · exact hs.sendIpis
  · exact hs

theorem Same.createEnclave {args : CreateArgs} : Same c (c₁.createEnclave h args) := by
  unfold Core.createEnclave
  split
  · exact hs
  split
  · exact hs
  split
  · exact hs
  split
  · exact hs.setTable
  · exact hs.setEnclave.setTable.sendIpis.setPmp.setPmp.setEnclave.setPmp.setPmp
      |>.setPmp.setPmp.setEnclave

theorem Same.destroyRegion {eid i : Nat} : Same c (c₁.destroyRegion h eid i) := by
  unfold Core.destroyRegion
  dsimp only
  split
  · exact hs
  · exact hs.setPmp.setPmp.unsetGlobal.setTable

theorem Same.destroyShared {eid : Nat} : Same c (c₁.destroyShared eid) := by
  unfold Core.destroyShared
  split
  · exact hs.setTable
  · exact hs

end

/-- The harts stay where they are during a call. -/
theorem same_apply {e : Event} (hcall : e.isCall = true) : Same c (c.apply e) := by
  have hs : Same c c := Same.refl
  cases e with
  | other => exact hs
  | create h args =>
    simp only [apply, createCall]
    split
    · exact hs
    split
    · exact hs.setPmp.setPmp
    · exact hs.setPmp.setPmp.createEnclave.setPmp
  | destroy h eid =>
    simp only [apply, destroyCall]
    split
    · exact hs
    split
    · have hreg : Same c ((c.setState eid .destroying).destroyRegions h eid) :=
        Same.foldl (fun hs => hs.destroyRegion) _ hs.setEnclave
      exact hreg.destroyShared.setEnclave.setEnclave.setPmp
    · exact hs
  | run h eid =>
    simp only [apply, enterCall]
    split
    · exact hs
    split
    · exact hs.enter.setHart rfl rfl
    · exact hs.setHart rfl rfl
  | resume h eid =>
    simp only [apply, enterCall]
    split
    · exact hs
    split
    · exact hs.enter.setHart rfl rfl
    · exact hs.setHart rfl rfl
  | attest h size copied =>
    simp only [apply, attestCall]
    repeat' split
    all_goals first | exact hs | exact hs.setPmp | exact hs.setPmp.setPmp
  | sealing h derived =>
    simp only [apply, sealingCall]
    split
    · split
      · exact hs.setPmp.setPmp.setPmp.setPmp
      · exact hs.setPmp.setPmp
    · exact hs
  | leave h =>
    simp only [apply]
    split
    · exact hs.leaveCall
    · exact hs
  | interrupt h => cases hcall
  | forward h => cases hcall
  | hang h => cases hcall
  | osbiReturn h mode => cases hcall

end Core

namespace Monitor

variable (m : Monitor) (h : HartId) (eid : Nat)

@[simp] theorem core_hart (g : HartId) : m.core.hart g = (m.hart g).toHartCore := rfl
@[simp] theorem core_enclaves (e : Nat) : m.core.enclaves e = (m.enclaves e).toEnclaveCore := rfl
@[simp] theorem core_table : m.core.table = m.table := rfl

theorem core_setHart (hs : HartState) :
    (m.setHart h hs).core = m.core.setHart h hs.toHartCore := by
  unfold core setHart Core.setHart
  congr 1
  funext g
  dsimp only
  split <;> rfl

theorem core_setEnclave (en : Enclave) :
    (m.setEnclave eid en).core = m.core.setEnclave eid en.toEnclaveCore := by
  unfold core setEnclave Core.setEnclave
  congr 1
  funext e
  dsimp only
  split <;> rfl

/-! Members outside the core. -/

@[simp] theorem core_setHart_same {hs : HartState} (heq : hs.toHartCore = (m.hart h).toHartCore) :
    (m.setHart h hs).core = m.core := by
  rw [core_setHart, heq]
  exact m.core.setHart_self h

@[simp] theorem core_setEnclave_same {en : Enclave}
    (heq : en.toEnclaveCore = (m.enclaves eid).toEnclaveCore) :
    (m.setEnclave eid en).core = m.core := by
  rw [core_setEnclave, heq]
  exact m.core.setEnclave_self eid

@[simp] theorem core_setEnclaveCore (en : EnclaveCore) :
    (m.setEnclaveCore eid en).core = m.core.setEnclave eid en := core_setEnclave ..

@[simp] theorem core_setPmp (r : PmpRegs) : (m.setPmp h r).core = m.core.setPmp h r :=
  core_setHart ..

@[simp] theorem core_pmpSet (rid : Nat) (p : Byte) :
    (m.pmpSet h rid p).core = m.core.pmpSet h rid p := core_setPmp ..

@[simp] theorem core_osmPmpSet (p : Byte) :
    (m.osmPmpSet h p).core = m.core.osmPmpSet h p := core_setPmp ..

@[simp] theorem core_pmpSetRegions (p : Byte) :
    (m.pmpSetRegions h eid p).core = m.core.pmpSetRegions h eid p := core_setPmp ..

@[simp] theorem core_memZero (base size : Word) : (m.memZero base size).core = m.core := rfl
@[simp] theorem core_writeMem (base : Word) (bytes : List Byte) :
    (m.writeMem base bytes).core = m.core := rfl

@[simp] theorem core_setMode (mode : Mode) : (m.setMode h mode).core = m.core.setMode h mode :=
  core_setHart ..

@[simp] theorem core_cpuEnterEnclaveContext :
    (m.cpuEnterEnclaveContext h eid).core = m.core.enterContext h eid := core_setHart ..

@[simp] theorem core_cpuExitEnclaveContext :
    (m.cpuExitEnclaveContext h).core = m.core.exitContext h := core_setHart ..

/-! ## Switches -/

variable (regs : TrapRegs)

@[simp] theorem core_swapThread (returnOnResume : Bool) :
    (m.swapThread h regs eid returnOnResume).1.core = m.core := by
  simp [swapThread]

theorem core_contextSwitchToEnclave (loadParams : Bool) :
    (m.contextSwitchToEnclave h regs eid loadParams).1.core =
      (m.core.fixPermissions h eid).enterContext h eid := by
  have hswap := m.core_swapThread h eid regs true
  simp only [contextSwitchToEnclave]
  generalize m.swapThread h regs eid true = p at hswap ⊢
  cases loadParams <;> simp [hswap, Core.fixPermissions]

theorem core_contextSwitchToHost (returnOnResume : Bool) :
    (m.contextSwitchToHost h regs eid returnOnResume).1.core =
      ((m.core.pmpSetRegions h eid PMP_NO_PERM).osmPmpSet h EPMP_SU_RWX).exitContext h := by
  simp [contextSwitchToHost]

theorem core_runEnclave :
    (m.runEnclave h regs eid).1.core =
      if decide (eid < ENCL_MAX) && (m.enclaves eid).runable then m.core.enter h eid
      else m.core := by
  unfold runEnclave
  split
  · simp [core_contextSwitchToEnclave, Core.enter]
  · rfl

theorem core_resumeEnclave :
    (m.resumeEnclave h regs eid).1.core =
      if decide (eid < ENCL_MAX) && (m.enclaves eid).resumable then m.core.enter h eid
      else m.core := by
  unfold resumeEnclave
  split
  · simp [core_contextSwitchToEnclave, Core.enter]
  · rfl

theorem core_exitEnclave :
    (m.exitEnclave h regs eid).1.core =
      if (m.enclaves eid).stoppable then m.core.leave h eid else m.core := by
  unfold exitEnclave
  split
  · simp [core_contextSwitchToHost, Core.leave]
  · rfl

theorem core_stopResult (request : Word) : (m.stopResult h request).1.core = m.core := by
  unfold stopResult
  dsimp only
  split
  · rfl
  split
  · simp
  split
  · exact m.core_setHart_same h rfl
  · rfl

theorem core_stopEnclave (request : Word) :
    (m.stopEnclave h regs request eid).1.core =
      if (m.enclaves eid).stoppable then m.core.leave h eid else m.core := by
  unfold stopEnclave
  split
  · simp [core_contextSwitchToHost, Core.leave, core_stopResult]
  · rfl

/-! ## The SBI functions that switch -/

@[simp] theorem core_sbiTrapExit (target : Bool) :
    (m.sbiTrapExit h regs target).1.core = m.core.setFlag h target := core_setHart ..

theorem core_sbiSmRunEnclave (a : Word) :
    (m.sbiSmRunEnclave h regs a).1.core =
      m.core.enterCall h (·.runable) (a.setWidth 32).toNat := by
  simp only [sbiSmRunEnclave, core_sbiTrapExit, core_runEnclave]
  rfl

theorem core_sbiSmResumeEnclave (a : Word) :
    (m.sbiSmResumeEnclave h regs a).1.core =
      m.core.enterCall h (·.resumable) (a.setWidth 32).toNat := by
  simp only [sbiSmResumeEnclave, core_sbiTrapExit, core_resumeEnclave]
  rfl

theorem core_sbiSmExitEnclave (a : Word) :
    (m.sbiSmExitEnclave h regs a).1.core = m.core.leaveCall h := by
  simp only [sbiSmExitEnclave, core_sbiTrapExit, core_exitEnclave]
  rfl

theorem core_sbiSmStopEnclave (a : Word) :
    (m.sbiSmStopEnclave h regs a).1.core = m.core.leaveCall h := by
  simp only [sbiSmStopEnclave, core_sbiTrapExit, core_stopEnclave]
  rfl

/-! ## Updates of other harts -/

theorem core_hostIpi (g : HartId) (u : IpiUpdate) (sscratch : Word) :
    (m.hostIpi g u sscratch).core =
      m.core.setPmp g (lockRegs (u.apply m.core.table (m.core.hart g).pmp)) := by
  have hsaved : ∀ m₁ : Monitor, ((m₁.monIpiCheck g u).writePmpcfg0 g LOCK_OSBI).core =
      m₁.core.setPmp g (lockRegs (u.apply m₁.core.table (m₁.core.hart g).pmp)) := by
    intro m₁
    have hcheck : (m₁.monIpiCheck g u).core =
        m₁.core.setPmp g (u.apply m₁.core.table (m₁.core.hart g).pmp) := core_setPmp ..
    have hwrite : ((m₁.monIpiCheck g u).writePmpcfg0 g LOCK_OSBI).core =
        (m₁.monIpiCheck g u).core.setPmp g (lockRegs ((m₁.monIpiCheck g u).core.hart g).pmp) :=
      core_setPmp ..
    rw [hwrite, hcheck]
    simp [Core.setPmp]
  unfold hostIpi
  dsimp only
  rw [hsaved, core_setHart_same]
  rfl

theorem core_deliverIpi (g : HartId) (u : IpiUpdate) (ctx : Interrupted) :
    (m.deliverIpi g u ctx).core = m.core.deliverIpi g u := by
  have harrive : (m.setHart g { m.hart g with csrs := ctx.csrs }).core = m.core := by
    rw [core_setHart_same]
    rfl
  have hflag : ((m.setHart g { m.hart g with csrs := ctx.csrs }).hart g).monEnclaveExecution =
      (m.core.hart g).monEnclaveExecution := by
    rw [← harrive]
    rfl
  unfold deliverIpi Core.deliverIpi
  dsimp only
  rw [hflag]
  cases (m.core.hart g).monEnclaveExecution with
  | true =>
    simp only [if_true]
    rw [core_hostIpi, core_sbiSmStopEnclave, core_setHart_same]
    · rw [harrive]
    · rfl
  | false =>
    simp only [Bool.false_eq_true, if_false]
    rw [core_hostIpi, harrive]

theorem core_monSendSyncIpi (frames : HartId → Interrupted) (u : IpiUpdate) :
    (m.monSendSyncIpi h frames u).core = m.core.sendIpis h u := by
  unfold monSendSyncIpi Core.sendIpis
  -- one receiver after the other
  generalize otherHarts h = gs
  induction gs generalizing m with
  | nil => rfl
  | cons g gs ih =>
    rw [List.foldl_cons, List.foldl_cons, ih, core_deliverIpi]

theorem core_pmpUnsetGlobal (frames : HartId → Interrupted) (rid : Nat) :
    (m.pmpUnsetGlobal h frames rid).1.core = m.core.unsetGlobal h rid := by
  unfold pmpUnsetGlobal Core.unsetGlobal
  rw [core_table]
  cases m.table.isPmpRegionValid rid with
  | true => exact m.core_monSendSyncIpi h frames _
  | false => rfl

theorem pmpSetGlobal_valid (frames : HartId → Interrupted) {rid : Nat} (p : Byte)
    (hv : m.table.isPmpRegionValid rid = true) :
    m.pmpSetGlobal h frames rid p = (m.monSendSyncIpi h frames ⟨rid, false, p⟩, .success) := by
  simp [pmpSetGlobal, hv]

/-! ## Creating -/

theorem core_setState (s : EnclaveState) :
    (m.setEnclaveCore eid ((m.enclaves eid).setState s)).core = m.core.setState eid s :=
  core_setEnclaveCore ..

theorem core_enclFreeEid : (m.enclFreeEid eid).core = m.core.setState eid .invalid :=
  core_setEnclaveCore ..

@[simp] theorem core_cleanEnclaveMemory (base size : Word) :
    (m.cleanEnclaveMemory h base size).core =
      (m.core.osmPmpSet h (PMP_R ||| PMP_W)).osmPmpSet h (PMP_X ||| PMP_W ||| PMP_R) := by
  simp [cleanEnclaveMemory]

theorem core_initMetadata (region sharedRegion : Nat) (args : CreateArgs) :
    (m.initMetadata h eid region sharedRegion args).core =
      m.core.setEnclave eid ((m.core.enclaves eid).create region sharedRegion args.params) :=
  core_setEnclave ..

theorem core_measureEnclave (C : Crypto) (region : Nat) :
    (m.measureEnclave C h eid region).2 = .success ∧
      (m.measureEnclave C h eid region).1.core =
        ((((m.core.pmpSet h region EPMP_ALL_RW).osmPmpSet h (PMP_R ||| PMP_W)).pmpSet h region
          PMP_NO_PERM).osmPmpSet h (PMP_X ||| PMP_W ||| PMP_R)).setState eid .fresh := by
  unfold measureEnclave validateAndHashEnclave
  refine ⟨rfl, ?_⟩
  dsimp only
  rw [core_setEnclave]
  simp only [core_osmPmpSet, core_pmpSet]
  rfl

theorem core_buildEnclave (C : Crypto) (env : Env) (args : CreateArgs) (region sharedRegion : Nat)
    (hv : m.table.isPmpRegionValid region = true) :
    (m.buildEnclave C h env args eid region sharedRegion).1.core =
      m.core.build h eid region sharedRegion args.params := by
  unfold buildEnclave
  rw [pmpSetGlobal_valid _ _ _ _ hv]
  dsimp only [platformCreateEnclave]
  generalize hm :
    (((m.monSendSyncIpi h env.frames ⟨region, false, PMP_NO_PERM⟩).cleanEnclaveMemory h
      args.utmPaddr args.utmSize).initMetadata h eid region sharedRegion args) = m1
  obtain ⟨hst, hcore⟩ := m1.core_measureEnclave h eid C region
  rcases hme : m1.measureEnclave C h eid region with ⟨m2, st⟩
  rw [hme] at hst hcore
  subst hst
  dsimp only at hcore ⊢
  rw [hcore, ← hm, core_initMetadata, core_cleanEnclaveMemory, core_monSendSyncIpi]
  rfl

theorem core_createEnclave (C : Crypto) (env : Env) (args : CreateArgs) :
    (m.createEnclave C h env args).1.core = m.core.createEnclave h args := by
  unfold createEnclave Core.createEnclave enclAllocEid
  split
  · rfl
  have halloc : m.core.allocEid =
      (List.range ENCL_MAX).find? fun eid => (m.enclaves eid).state == .invalid := rfl
  rw [halloc]
  cases hfind : (List.range ENCL_MAX).find? fun eid => (m.enclaves eid).state == .invalid with
  | none => rfl
  | some eid =>
    have hst : (m.core.enclaves eid).state = .invalid := by
      simpa using List.find?_some hfind
    dsimp only
    generalize hm1 : m.setEnclaveCore eid ((m.enclaves eid).setState .allocated) = m1
    have hcore : m1.core = m.core.setState eid .allocated := by
      rw [← hm1]; exact core_setEnclaveCore ..
    have htable : m1.table = m.table := by rw [← hm1]; rfl
    have hfree : m1.core.setState eid .invalid = m.core := by
      rw [hcore, m.core.setState_alloc_free hst]
    simp only [regionInit, htable, core_table]
    rcases hepm : m.table.pmpRegionInit args.epmPaddr args.epmSize .any false with ⟨t1, e | region⟩
    · -- no room for the EPM
      obtain rfl := pmpRegionInit_error hepm
      dsimp only
      rw [core_enclFreeEid, ← htable]
      exact hfree
    dsimp only
    rcases hutm : t1.pmpRegionInit args.utmPaddr args.utmSize .bottom false with ⟨t2, e | shared⟩
    · -- no room for the UTM: the EPM's region is released again
      obtain rfl := pmpRegionInit_error hutm
      dsimp only
      rw [core_enclFreeEid]
      exact congrArg (fun c : Core => c.setTable (t2.pmpRegionFree region).1) hfree
    · obtain ⟨r1, h1⟩ := pmpRegionInit_ok hepm
      obtain ⟨r2, h2⟩ := pmpRegionInit_ok hutm
      have hv : t2.isPmpRegionValid region = true := by
        rw [h2.adds.valid, h1.adds.valid]
        simp
      dsimp only
      rw [core_buildEnclave _ _ _ _ _ _ _ _ hv, ← hcore]
      rfl

theorem core_sbiSmCreateEnclave (C : Crypto) (env : Env) (a0 : Word) :
    (m.sbiSmCreateEnclave C h env a0).1.core =
      m.core.createCall h (copyEnclaveCreateArgs env a0).toOption := by
  unfold sbiSmCreateEnclave Core.createCall
  cases copyEnclaveCreateArgs env a0 with
  | error e => simp [Except.toOption]
  | ok args => simp [Except.toOption, core_createEnclave]

/-! ## Destroying -/

@[simp] theorem core_regionFree (rid : Nat) : (m.regionFree rid).core = m.core.regionFree rid := rfl

theorem core_destroyRegion (env : Env) (i : Nat) :
    (m.destroyRegion h env eid i).core = m.core.destroyRegion h eid i := by
  unfold destroyRegion Core.destroyRegion
  dsimp only [core_enclaves]
  split
  · rfl
  · simp [core_pmpUnsetGlobal]

theorem core_destroyRegions (env : Env) :
    (m.destroyRegions h env eid).core = m.core.destroyRegions h eid := by
  unfold destroyRegions Core.destroyRegions
  generalize List.range ENCLAVE_REGIONS_MAX = is
  induction is generalizing m with
  | nil => rfl
  | cons i is ih => rw [List.foldl_cons, List.foldl_cons, ih, core_destroyRegion]

theorem core_destroyShared : (m.destroyShared eid).core = m.core.destroyShared eid := by
  unfold destroyShared Core.destroyShared getEnclaveRegionIndex
  dsimp only [core_enclaves]
  cases (List.range ENCLAVE_REGIONS_MAX).find? fun i =>
    ((m.enclaves eid).regions i).type == .utm with
  | some i => rfl
  | none => rfl

theorem core_clearMetadata : (m.clearMetadata eid).core =
    m.core.setEnclave eid (m.core.enclaves eid).clear := core_setEnclave ..

theorem core_destroyEnclave (env : Env) :
    (m.destroyEnclave h env eid).1.core = m.core.destroyCall h eid := by
  unfold destroyEnclave Core.destroyCall
  rw [core_enclaves]
  split
  · simp only [core_osmPmpSet, core_enclFreeEid, core_clearMetadata, core_destroyShared,
      core_destroyRegions, core_setState]
  · rfl

/-! ## Services -/

@[simp] theorem core_mem (mem : Word → Byte) :
    ({ m with mem := mem } : Monitor).core = m.core :=
  rfl

theorem core_attestEnclave (C : Crypto) (env : Env) (reportPtr data size : Word) :
    (m.attestEnclave C h env reportPtr data size (m.hart h).eid).1.core =
      m.core.attestCall h size (copyToSm env data size.toNat).isSome := by
  unfold attestEnclave Core.attestCall
  dsimp only [core_hart, core_enclaves]
  by_cases hsize : size > ATTEST_DATA_MAXLEN
  · rw [if_pos hsize, if_pos hsize]
  rw [if_neg hsize, if_neg hsize]
  by_cases hatt : (!(decide ((m.hart h).eid < ENCL_MAX) &&
      (m.enclaves (m.hart h).eid).attestable)) = true
  · rw [if_pos hatt]
    exact (if_pos hatt).symm
  rw [if_neg hatt]
  refine Eq.trans ?_ (if_neg hatt).symm
  cases copyToSm env data size.toNat with
  | none => simp
  | some bytes =>
    simp only [Option.isSome_some, if_true]
    split <;> simp only [core_pmpSetRegions, core_mem]

theorem core_getSealingKey (C : Crypto) (sealingKey keyIdent size : Word) :
    (m.getSealingKey C h sealingKey keyIdent size (m.hart h).eid).1.core =
      m.core.sealingCall h
        (m.smDeriveSealingKey C keyIdent size (m.enclaves (m.hart h).eid).hash).isSome := by
  have hkey : ∀ hash, (m.pmpSetRegions h (m.hart h).eid EPMP_ALL_RW).smDeriveSealingKey C keyIdent
      size hash = m.smDeriveSealingKey C keyIdent size hash := fun _ => rfl
  have hhash : (m.pmpSetRegions h (m.hart h).eid EPMP_ALL_RW).enclaves = m.enclaves := rfl
  unfold getSealingKey Core.sealingCall
  dsimp only [core_hart]
  rw [hkey, hhash]
  cases m.smDeriveSealingKey C keyIdent size (m.enclaves (m.hart h).eid).hash with
  | none => simp
  | some key => simp

end Monitor

end Dorami.Sm
