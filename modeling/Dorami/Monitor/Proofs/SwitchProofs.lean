import Dorami.Monitor.Proofs.FootprintProofs

/-!
# Entering and leaving enclaves, as equations

Entering and leaving exchange the context of the hart with the one stored in the enclave's thread.
The equations below give the whole state after each of the calls that do so, up to the PMP registers
of the hart.
-/

namespace Dorami.Sm

open Riscv

/-! ## Threads -/

/-- The thread that holds an interrupted context; `old` is the thread it replaces. -/
def ThreadState.hold (old : ThreadState) (regs : TrapRegs) (csrs : Csrs) (returnOnResume : Bool) :
    ThreadState :=
  { prevMpp := old.prevMpp
    prevMepc := regs.mepc
    prevMstatus := regs.mstatus
    prevCsrs :=
      { csrs with sedeleg := old.prevCsrs.sedeleg, sideleg := old.prevCsrs.sideleg }
    prevState := fun i => if i = 0 then if returnOnResume then 0 else 1 else regs.gpr i }

/-- The frame a thread is resumed with, on a hart that holds `regs`. -/
def ThreadState.frame (th : ThreadState) (regs : TrapRegs) : TrapRegs :=
  { regs with
    gpr := th.prevState
    mepc := th.prevMepc
    mstatus := (regs.mstatus &&& ~~~mstatusMask) ||| th.prevMstatus }

/-- The CSRs a thread is resumed with. -/
def ThreadState.csrs (th : ThreadState) (csrs : Csrs) : Csrs :=
  { th.prevCsrs with sedeleg := csrs.sedeleg, sideleg := csrs.sideleg }

theorem swapContext_eq (th : ThreadState) (regs : TrapRegs) (csrs : Csrs) (ror : Bool) :
    swapContext th regs csrs ror = (th.hold regs csrs ror, th.frame regs, th.csrs csrs) := by
  have hmstatus : (regs.mstatus &&& ~~~mstatusMask) ||| (regs.mstatus &&& mstatusMask) =
      regs.mstatus := by
    ext i hi
    simp only [BitVec.getElem_or, BitVec.getElem_and, BitVec.getElem_not]
    cases mstatusMask[i] <;> simp
  simp only [swapContext, swapPrevState, swapPrevMepc, swapPrevMstatus, swapPrevSmodeCsrs, hmstatus]
  rfl

/-- The bits of `mstatus` that belong to a context are those of the thread. -/
theorem mstatus_frame (th : ThreadState) (regs : TrapRegs) :
    (th.frame regs).mstatus &&& mstatusMask = th.prevMstatus &&& mstatusMask := by
  simp only [ThreadState.frame]
  ext i hi
  simp only [BitVec.getElem_and, BitVec.getElem_or, BitVec.getElem_not]
  cases mstatusMask[i] <;> simp

/-! ## Switches -/

namespace Monitor

variable (m : Monitor) (h : HartId) (regs : TrapRegs) (eid : Nat)

@[simp] theorem setEnclave_setHart (hs : HartState) (en : Enclave) :
    (m.setHart h hs).setEnclave eid en = (m.setEnclave eid en).setHart h hs := rfl

@[simp] theorem setEnclave_setEnclave (en en' : Enclave) :
    (m.setEnclave eid en).setEnclave eid en' = m.setEnclave eid en' := by
  unfold setEnclave
  congr 1
  funext e
  by_cases he : e = eid <;> simp [he]

@[simp] theorem enclaves_setHart (hs : HartState) : (m.setHart h hs).enclaves = m.enclaves := rfl

@[simp] theorem hart_setEnclave (en : Enclave) : (m.setEnclave eid en).hart = m.hart := rfl

@[simp] theorem enclaves_setEnclave_self (en : Enclave) : (m.setEnclave eid en).enclaves eid = en :=
  if_pos rfl

theorem contextSwitchToEnclave_eq (loadParams : Bool) :
    ∃ pmp, m.contextSwitchToEnclave h regs eid loadParams =
      ((m.setEnclave eid { m.enclaves eid with
          thread := (m.enclaves eid).thread.hold regs (m.hart h).csrs true }).setHart h
        { m.hart h with
          csrs := if loadParams then { (m.enclaves eid).thread.csrs (m.hart h).csrs with satp := 0 }
            else (m.enclaves eid).thread.csrs (m.hart h).csrs
          mideleg := 0
          pmp := pmp
          isEnclave := true
          eid := eid },
      if loadParams then loadParameters (m.enclaves eid).params ((m.enclaves eid).thread.frame regs)
      else (m.enclaves eid).thread.frame regs) := by
  simp only [contextSwitchToEnclave, swapThread, swapContext_eq]
  cases loadParams with
  | true =>
    simp only [if_true, osmPmpSet, pmpSet, pmpSetRegions, setPmp, cpuEnterEnclaveContext,
      hart_setHart_self, setHart_setHart, enclaves_setHart, enclaves_setEnclave_self]
    exact ⟨_, rfl⟩
  | false =>
    simp only [Bool.false_eq_true, if_false, osmPmpSet, pmpSet, pmpSetRegions, setPmp,
      cpuEnterEnclaveContext, hart_setHart_self, setHart_setHart]
    exact ⟨_, rfl⟩

theorem contextSwitchToHost_eq (ror : Bool) :
    ∃ pmp mip, m.contextSwitchToHost h regs eid ror =
      ((m.setEnclave eid { m.enclaves eid with
          thread := (m.enclaves eid).thread.hold regs (m.hart h).csrs ror }).setHart h
        { m.hart h with
          csrs := (m.enclaves eid).thread.csrs (m.hart h).csrs
          mideleg := MIP_SSIP ||| MIP_STIP ||| MIP_SEIP
          mip := mip
          pmp := pmp
          isEnclave := false },
      (m.enclaves eid).thread.frame regs) := by
  simp only [contextSwitchToHost, swapThread, swapContext_eq, osmPmpSet, pmpSet, pmpSetRegions,
    setPmp, cpuExitEnclaveContext, hart_setHart_self, setHart_setHart, enclaves_setHart,
    setEnclave_setHart]
  exact ⟨_, _, rfl⟩

/-! ## Calls -/

/-- An enclave a hart has entered from the context `regs`, `csrs`. -/
def enteredEnclave (en : Enclave) (regs : TrapRegs) (csrs : Csrs) : Enclave :=
  { en with toEnclaveCore := en.enter, thread := en.thread.hold regs csrs true }

/-- An enclave a hart has left in the context `regs`, `csrs`. -/
def leftEnclave (en : Enclave) (regs : TrapRegs) (csrs : Csrs) (ror : Bool) : Enclave :=
  { en with toEnclaveCore := en.leave, thread := en.thread.hold regs csrs ror }

/-- The record of a hart that has entered enclave `eid`. -/
def insideHart (hs : HartState) (csrs : Csrs) (pmp : PmpRegs) (eid : Nat) : HartState :=
  { hs with csrs := csrs, mideleg := 0, pmp := pmp, isEnclave := true, eid := eid }

/-- The record of a hart that has left an enclave. -/
def outsideHart (hs : HartState) (csrs : Csrs) (pmp : PmpRegs) (mip : Word) : HartState :=
  { hs with
    csrs := csrs
    mideleg := MIP_SSIP ||| MIP_STIP ||| MIP_SEIP
    mip := mip
    pmp := pmp
    isEnclave := false }

theorem runEnclave_eq (hlt : eid < ENCL_MAX) (htest : (m.enclaves eid).runable = true) :
    ∃ pmp, m.runEnclave h regs eid =
      ((m.setEnclave eid (enteredEnclave (m.enclaves eid) regs (m.hart h).csrs)).setHart h
        (insideHart (m.hart h)
          { (m.enclaves eid).thread.csrs (m.hart h).csrs with satp := 0 } pmp eid),
      loadParameters (m.enclaves eid).params ((m.enclaves eid).thread.frame regs), .success) := by
  obtain ⟨pmp, heq⟩ :=
    contextSwitchToEnclave_eq (m.setEnclaveCore eid (m.enclaves eid).enter) h regs eid true
  refine ⟨pmp, ?_⟩
  rw [runEnclave, if_pos (by simp [hlt, htest])]
  dsimp only
  rw [heq]
  simp only [setEnclaveCore, enclaves_setEnclave_self, setEnclave_setEnclave, hart_setEnclave]
  rfl

theorem resumeEnclave_eq (hlt : eid < ENCL_MAX) (htest : (m.enclaves eid).resumable = true) :
    ∃ pmp, m.resumeEnclave h regs eid =
      ((m.setEnclave eid (enteredEnclave (m.enclaves eid) regs (m.hart h).csrs)).setHart h
        (insideHart (m.hart h) ((m.enclaves eid).thread.csrs (m.hart h).csrs) pmp eid),
      (m.enclaves eid).thread.frame regs, .success) := by
  obtain ⟨pmp, heq⟩ :=
    contextSwitchToEnclave_eq (m.setEnclaveCore eid (m.enclaves eid).enter) h regs eid false
  refine ⟨pmp, ?_⟩
  rw [resumeEnclave, if_pos (by simp [hlt, htest])]
  dsimp only
  rw [heq]
  simp only [setEnclaveCore, enclaves_setEnclave_self, setEnclave_setEnclave, hart_setEnclave]
  rfl

/-- The state after a hart has left an enclave, up to the counters of edge calls. -/
structure OutRes (regs : TrapRegs) (ror : Bool) (m' : Monitor) : Prop where
  enclaves : m'.enclaves = (m.setEnclave eid
    (leftEnclave (m.enclaves eid) regs (m.hart h).csrs ror)).enclaves
  hart : ∃ pmp mip n, m'.hart h =
    { outsideHart (m.hart h) ((m.enclaves eid).thread.csrs (m.hart h).csrs) pmp mip with
      ocallInfo := n }

theorem exitEnclave_res (htest : (m.enclaves eid).stoppable = true) :
    ∃ m', m.exitEnclave h regs eid = (m', (m.enclaves eid).thread.frame regs, .success) ∧
      m.OutRes h eid regs false m' := by
  obtain ⟨pmp, mip, heq⟩ := contextSwitchToHost_eq (m.setEnclaveCore eid (m.enclaves eid).leave) h
    regs eid false
  rw [exitEnclave, if_pos htest]
  dsimp only
  rw [heq]
  simp only [setEnclaveCore, enclaves_setEnclave_self, setEnclave_setEnclave, hart_setEnclave]
  exact ⟨_, rfl, rfl, pmp, mip, _, hart_setHart_self ..⟩

/-- The status a stop call ends with. -/
theorem stopResult_res (request : Word) : ∃ m' status, m.stopResult h request = (m', status) ∧
    m'.enclaves = m.enclaves ∧ ∃ n, m'.hart h = { m.hart h with ocallInfo := n } := by
  unfold stopResult
  dsimp only
  split
  · exact ⟨_, _, rfl, rfl, _, rfl⟩
  split
  · exact ⟨_, _, rfl, rfl, _, hart_setHart_self ..⟩
  split
  · refine ⟨_, _, rfl, rfl, 0, ?_⟩
    dsimp only
    rw [hart_setHart_self]
  · exact ⟨_, _, rfl, rfl, _, rfl⟩

theorem stopEnclave_res (request : Word) (htest : (m.enclaves eid).stoppable = true) :
    ∃ m' status, m.stopEnclave h regs request eid =
        (m', (m.enclaves eid).thread.frame regs, status) ∧
      m.OutRes h eid regs
        (request == STOP_EDGE_CALL_HOST || request == STOP_EDGE_CALL_HOST_ACCEPT) m' := by
  obtain ⟨pmp, mip, heq⟩ := contextSwitchToHost_eq (m.setEnclaveCore eid (m.enclaves eid).leave) h
    regs eid (request == STOP_EDGE_CALL_HOST || request == STOP_EDGE_CALL_HOST_ACCEPT)
  rw [stopEnclave, if_pos htest]
  dsimp only
  rw [heq]
  simp only [setEnclaveCore, enclaves_setEnclave_self, setEnclave_setEnclave, hart_setEnclave]
  obtain ⟨m', status, hres, henc, n, hhart⟩ := stopResult_res ((m.setEnclave eid
    (leftEnclave (m.enclaves eid) regs (m.hart h).csrs
      (request == STOP_EDGE_CALL_HOST || request == STOP_EDGE_CALL_HOST_ACCEPT))).setHart h
    (outsideHart (m.hart h) ((m.enclaves eid).thread.csrs (m.hart h).csrs) pmp mip)) h request
  rw [hart_setHart_self] at hhart
  refine ⟨m', status, ?_, henc, pmp, mip, n, hhart⟩
  exact congrArg (fun p : Monitor × SmStatus =>
    (p.1, (m.enclaves eid).thread.frame regs, p.2)) hres

/-! ## Traps -/

variable (C : Crypto) (t : Trap) {e : Nat}

theorem csrs_arrived (hs : HartState) : (arrived hs t).csrs = t.csrs := by
  unfold arrived
  dsimp only
  split <;> rfl

theorem hart_arrive : (m.arrive h t).hart h = arrived (m.hart h) t := hart_setHart_self ..

theorem csrs_arrive : ((m.arrive h t).hart h).csrs = t.csrs := by
  rw [hart_arrive, csrs_arrived]

/-- A call that goes back to S/U mode itself. -/
theorem trapHandler_exit {m' : Monitor} {r : TrapRegs} (hk : t.isKeystone = true)
    (hexit : (m.arrive h t).sbiEcallKeystoneEnclaveHandler C h t.regs.a6 (frame t) t.env =
      (m', .exit r)) : m.trapHandler C h t = (m', .toSu r) := by
  simp only [Trap.isKeystone, Bool.and_eq_true, Bool.not_eq_true', beq_iff_eq] at hk
  obtain ⟨⟨hirq, hecall⟩, ha7⟩ := hk
  have ha7' : (frame t).a7 = SBI_EXT_EXPERIMENTAL_KEYSTONE_ENCLAVE := ha7
  have ha6 : (frame t).a6 = t.regs.a6 := rfl
  rw [trapHandler_eq]
  cases (m.hart h).monEnclaveExecution with
  | true =>
    simp only [if_true, sbiTrapHandlerKeystoneEnclave, hirq, hecall, ha7', ha6, Bool.false_eq_true,
      if_false, hexit]
  | false =>
    simp only [Bool.false_eq_true, if_false, monTrapHandlerHost, hirq, hecall, ha7', ha6, if_true,
      hexit]

/-- A call of the host in host context. -/
theorem handler_from_host (hlow : ¬ t.regs.a6 ≤ FID_RANGE_DEPRECATED)
    (hhost : t.regs.a6 ≤ FID_RANGE_HOST) (hout : (m.hart h).isEnclave = false) :
    (m.arrive h t).sbiEcallKeystoneEnclaveHandler C h t.regs.a6 (frame t) t.env =
      (m.arrive h t).keystoneDispatch C h t.regs.a6 (frame t) t.env := by
  have hout' : ((m.arrive h t).hart h).isEnclave = false :=
    (congrArg HartCore.isEnclave (m.toHartCore_arrive h t)).trans hout
  simp only [sbiEcallKeystoneEnclaveHandler, if_neg hlow, if_pos hhost, hout', Bool.false_eq_true,
    if_false]

/-- A call of an enclave inside of it. -/
theorem handler_from_enclave (hhost : ¬ t.regs.a6 ≤ FID_RANGE_HOST)
    (henclave : t.regs.a6 ≤ FID_RANGE_ENCLAVE) (hin : (m.hart h).isEnclave = true) :
    (m.arrive h t).sbiEcallKeystoneEnclaveHandler C h t.regs.a6 (frame t) t.env =
      (m.arrive h t).keystoneDispatch C h t.regs.a6 (frame t) t.env := by
  have hin' : ((m.arrive h t).hart h).isEnclave = true :=
    (congrArg HartCore.isEnclave (m.toHartCore_arrive h t)).trans hin
  have hlow : ¬ t.regs.a6 ≤ FID_RANGE_DEPRECATED := by
    intro hle
    exact hhost (BitVec.le_trans hle (by decide))
  simp only [sbiEcallKeystoneEnclaveHandler, if_neg hlow, if_neg hhost, if_pos henclave, hin',
    Bool.not_true, Bool.false_eq_true, if_false]

/-- The state after hart `h` has entered enclave `e` by the trap. -/
structure EnterRes (e : Nat) (m' : Monitor) : Prop where
  enclave : m'.enclaves e = enteredEnclave (m.enclaves e) (frame t) t.csrs
  flag : (m'.hart h).monEnclaveExecution = true
  inside : (m'.hart h).isEnclave = true
  eid : (m'.hart h).eid = e

/-- The `sscratch` an enclave is entered with. -/
def enclaveSave : Word := (arrived (m.hart h) t).sscratchDoubleSaveEnclave

/-- The `sscratch` the host is resumed with. -/
def hostSave : Word := (arrived (m.hart h) t).sscratchDoubleSave

theorem runs_res (hr : m.Runs h t e) :
    ∃ m' r, m.trapHandler C h t = (m', .toSu r) ∧ m.EnterRes h t e m' ∧
      (m'.hart h).csrs = { (m.enclaves e).thread.csrs t.csrs with satp := 0 } ∧
      r = { ((loadParameters (m.enclaves e).params
        ((m.enclaves e).thread.frame (frame t))).setA0 0).nextPc with
          sscratch := m.enclaveSave h t } := by
  obtain ⟨hk, hhost, hcall, heid, hlt, htest⟩ := hr
  obtain ⟨pmp, heq⟩ := runEnclave_eq (m.arrive h t) h (frame t) e hlt htest
  have hhandler := m.handler_from_host h C t (by rw [hcall]; decide) (by rw [hcall]; decide) hhost
  have hexit := m.trapHandler_exit h C t hk (hhandler.trans (by
    rw [hcall, keystoneDispatch, if_neg (by decide), if_neg (by decide), if_pos rfl]))
  have ha0 : ((frame t).a0.setWidth 32).toNat = e := heid
  simp only [sbiSmRunEnclave, ha0, heq, sbiTrapExit, hart_setHart_self, setHart_setHart] at hexit
  rw [csrs_arrive] at hexit
  refine ⟨_, _, hexit, ⟨?_, ?_, ?_, ?_⟩, ?_, ?_⟩
  · simp
  · simp
  · simp [insideHart]
  · simp [insideHart]
  · simp [insideHart]
  · rw [enclaveSave, ← hart_arrive]
    rfl

theorem resumes_res (hr : m.Resumes h t e) :
    ∃ m' r, m.trapHandler C h t = (m', .toSu r) ∧ m.EnterRes h t e m' ∧
      (m'.hart h).csrs = (m.enclaves e).thread.csrs t.csrs ∧
      r = { (if (m.enclaves e).thread.prevState 0 = 0 then
          ((m.enclaves e).thread.frame (frame t)).setA0 0
        else (m.enclaves e).thread.frame (frame t)).nextPc with
          sscratch := m.enclaveSave h t } := by
  obtain ⟨hk, hhost, hcall, heid, hlt, htest⟩ := hr
  obtain ⟨pmp, heq⟩ := resumeEnclave_eq (m.arrive h t) h (frame t) e hlt htest
  have hhandler := m.handler_from_host h C t (by rw [hcall]; decide) (by rw [hcall]; decide) hhost
  have hexit := m.trapHandler_exit h C t hk (hhandler.trans (by
    rw [hcall, keystoneDispatch, if_neg (by decide), if_neg (by decide), if_neg (by decide),
      if_pos rfl]))
  have ha0 : ((frame t).a0.setWidth 32).toNat = e := heid
  simp only [sbiSmResumeEnclave, ha0, heq, sbiTrapExit, hart_setHart_self, setHart_setHart] at hexit
  rw [csrs_arrive] at hexit
  refine ⟨_, _, hexit, ⟨?_, ?_, ?_, ?_⟩, ?_, ?_⟩
  · simp
  · simp
  · simp [insideHart]
  · simp [insideHart]
  · simp [insideHart]
  · rw [enclaveSave, ← hart_arrive]
    rfl

/-- The state after hart `h` has left enclave `e` in the context `regs`, and the frame `r` of the
host it resumes; only the registers in `results` are not the host's. -/
structure LeaveRes (e : Nat) (regs : TrapRegs) (ror : Bool) (results : List (Fin 32))
    (m' : Monitor) (r : TrapRegs) : Prop where
  enclave : m'.enclaves e = leftEnclave (m.enclaves e) regs t.csrs ror
  csrs : (m'.hart h).csrs = (m.enclaves e).thread.csrs t.csrs
  flag : (m'.hart h).monEnclaveExecution = false
  outside : (m'.hart h).isEnclave = false
  gpr : ∀ i, i ∉ results → r.gpr i = (m.enclaves e).thread.prevState i
  mstatus : r.mstatus = ((m.enclaves e).thread.frame regs).mstatus
  mepc : r.mepc = (m.enclaves e).thread.prevMepc + 4
  sscratch : r.sscratch = m.hostSave h t

theorem leaveRes_of_out {m₁ : Monitor} {regs r : TrapRegs} {ror : Bool} {results : List (Fin 32)}
    (hout : (m.arrive h t).OutRes h e regs ror m₁)
    (hgpr : ∀ i, i ∉ results → r.gpr i = (m.enclaves e).thread.prevState i)
    (hmstatus : r.mstatus = ((m.enclaves e).thread.frame regs).mstatus)
    (hmepc : r.mepc = (m.enclaves e).thread.prevMepc) :
    m.LeaveRes h t e regs ror results (m₁.sbiTrapExit h r.nextPc false).1
      (m₁.sbiTrapExit h r.nextPc false).2 := by
  obtain ⟨henc, pmp, mip, n, hhart⟩ := hout
  rw [csrs_arrive] at henc hhart
  refine ⟨?_, ?_, ?_, ?_, hgpr, hmstatus, ?_, ?_⟩
  · simp only [sbiTrapExit, enclaves_setHart, henc]
    exact enclaves_setEnclave_self ..
  · simp only [sbiTrapExit, hart_setHart_self, hhart]
    rfl
  · simp only [sbiTrapExit, hart_setHart_self]
  · simp only [sbiTrapExit, hart_setHart_self, hhart]
    rfl
  · exact congrArg (· + 4) hmepc
  · simp only [sbiTrapExit, hhart, hostSave, ← hart_arrive]
    rfl

theorem leaveRes_stop (regs : TrapRegs) (request : Word) (heid : (m.hart h).eid = e)
    (htest : (m.enclaves e).stoppable = true) :
    m.LeaveRes h t e regs
      (request == STOP_EDGE_CALL_HOST || request == STOP_EDGE_CALL_HOST_ACCEPT) [10]
      ((m.arrive h t).sbiSmStopEnclave h regs request).1
      ((m.arrive h t).sbiSmStopEnclave h regs request).2 := by
  have heid' : ((m.arrive h t).hart h).eid = e :=
    (congrArg HartCore.eid (m.toHartCore_arrive h t)).trans heid
  obtain ⟨m₁, status, heq, hout⟩ := stopEnclave_res (m.arrive h t) h regs e request htest
  simp only [sbiSmStopEnclave, heid', heq]
  exact m.leaveRes_of_out h t hout (fun i hi => if_neg (by simpa using hi)) rfl rfl

theorem interrupts_res (hi : m.Interrupts h t e) :
    ∃ m' r, m.trapHandler C h t = (m', .toSu r) ∧
      m.LeaveRes h t e { frame t with mepc := t.regs.mepc - 4 } false [10] m' r := by
  obtain ⟨hirq, hflag, heid, htest⟩ := hi
  simp only [Trap.isIrq, isTimerOrSoft, Bool.and_eq_true, Bool.or_eq_true, beq_iff_eq] at hirq
  refine ⟨_, _, ?_, m.leaveRes_stop h t _ STOP_TIMER_INTERRUPT heid htest⟩
  rw [trapHandler_eq, if_pos hflag, sbiTrapHandlerKeystoneEnclave, if_pos hirq.1, if_pos hirq.2]
  rfl

theorem stops_res (hs : m.Stops h t e) :
    ∃ m' r, m.trapHandler C h t = (m', .toSu r) ∧
      m.LeaveRes h t e (frame t)
        (t.regs.a0 == STOP_EDGE_CALL_HOST || t.regs.a0 == STOP_EDGE_CALL_HOST_ACCEPT)
            [10] m' r := by
  obtain ⟨hk, hin, hcall, heid, htest⟩ := hs
  have hhandler := m.handler_from_enclave h C t (by rw [hcall]; decide) (by rw [hcall]; decide) hin
  have hexit := m.trapHandler_exit h C t hk (hhandler.trans (by
    rw [hcall, keystoneDispatch, if_neg (by decide), if_neg (by decide), if_neg (by decide),
      if_neg (by decide), if_neg (by decide), if_neg (by decide), if_neg (by decide), if_pos rfl]))
  exact ⟨_, _, hexit, m.leaveRes_stop h t _ _ heid htest⟩

theorem exits_res (hx : m.Exits h t e) :
    ∃ m' r, m.trapHandler C h t = (m', .toSu r) ∧
      m.LeaveRes h t e (frame t) false [10, 11] m' r := by
  obtain ⟨hk, hin, hcall, heid, htest⟩ := hx
  have hhandler := m.handler_from_enclave h C t (by rw [hcall]; decide) (by rw [hcall]; decide) hin
  have hexit := m.trapHandler_exit h C t hk (hhandler.trans (by
    rw [hcall, keystoneDispatch, if_neg (by decide), if_neg (by decide), if_neg (by decide),
      if_neg (by decide), if_neg (by decide), if_neg (by decide), if_neg (by decide),
      if_neg (by decide), if_pos rfl]))
  have heid' : ((m.arrive h t).hart h).eid = e :=
    (congrArg HartCore.eid (m.toHartCore_arrive h t)).trans heid
  obtain ⟨m₁, heq, hout⟩ := exitEnclave_res (m.arrive h t) h (frame t) e htest
  refine ⟨_, _, hexit, ?_⟩
  simp only [sbiSmExitEnclave, heid', heq]
  refine m.leaveRes_of_out h t hout (fun i hi => ?_) rfl rfl
  simp only [List.mem_cons, List.not_mem_nil, or_false, not_or] at hi
  exact (if_neg hi.2).trans (if_neg hi.1)

end Monitor

end Dorami.Sm
