import Dorami.Sm.State

/-!
# Entering and leaving enclaves

The context switches of `enclave.c`, the four calls that make them, and their SBI functions in
`sm-sbi.c`, which resume S/U mode through `sbi_trap_exit` instead of returning.
-/

namespace Dorami.Sm

open Riscv

def STOP_TIMER_INTERRUPT : Word := 0
def STOP_EDGE_CALL_HOST : Word := 1
def STOP_EDGE_CALL_HOST_ACCEPT : Word := 3

def MIP_SSIP : Word := 1 <<< 1
def MIP_MSIP : Word := 1 <<< 3
def MIP_STIP : Word := 1 <<< 5
def MIP_MTIP : Word := 1 <<< 7
def MIP_SEIP : Word := 1 <<< 9
def MIP_MEIP : Word := 1 <<< 11

/-- The pending M-mode interrupts become S-mode interrupts of the host. -/
def repostPending (mip : Word) : Word :=
  let repost (pending src dst mip : Word) : Word :=
    if pending &&& src ≠ 0 then (mip &&& ~~~src) ||| dst else mip
  repost mip MIP_MEIP MIP_SEIP (repost mip MIP_MSIP MIP_SSIP (repost mip MIP_MTIP MIP_STIP mip))

/-- The registers a first run starts with. -/
def loadParameters (params : RuntimeParams) (regs : TrapRegs) : TrapRegs :=
  let regs := { regs with mepc := params.dramBase - 4, mstatus := 1 <<< MSTATUS_MPP_SHIFT }
  let regs := regs.setGpr 11 params.dramBase
  let regs := regs.setGpr 12 params.dramSize
  let regs := regs.setGpr 13 params.runtimeBase
  let regs := regs.setGpr 14 params.userBase
  let regs := regs.setGpr 15 params.freeBase
  let regs := regs.setGpr 16 params.untrustedBase
  regs.setGpr 17 params.untrustedSize

namespace Monitor

variable (m : Monitor) (h : HartId) (regs : TrapRegs)

/-- The swap of `threads[0]` with the context of hart `h`. -/
def swapThread (eid : Nat) (returnOnResume : Bool) : Monitor × TrapRegs :=
  let (thread, regs, csrs) :=
    swapContext (m.enclaves eid).thread regs (m.hart h).csrs returnOnResume
  let m := m.setEnclave eid { m.enclaves eid with thread := thread }
  (m.setHart h { m.hart h with csrs := csrs }, regs)

/-- `context_switch_to_enclave`. -/
def contextSwitchToEnclave (eid : Nat) (loadParams : Bool) : Monitor × TrapRegs :=
  let (m, regs) := m.swapThread h regs eid true
  let m := m.setHart h { m.hart h with mideleg := 0 }
  let regs := if loadParams then loadParameters (m.enclaves eid).params regs else regs
  let m :=
    if loadParams then
      m.setHart h { m.hart h with csrs := { (m.hart h).csrs with satp := 0 } }
    else m
  let m := m.osmPmpSet h PMP_NO_PERM
  let m := m.pmpSetRegions h eid (PMP_X ||| PMP_W ||| PMP_R)
  (m.cpuEnterEnclaveContext h eid, regs)

/-- `context_switch_to_host`. -/
def contextSwitchToHost (eid : Nat) (returnOnResume : Bool) : Monitor × TrapRegs :=
  let m := m.pmpSetRegions h eid PMP_NO_PERM
  let m := m.osmPmpSet h EPMP_SU_RWX
  let m := m.setHart h { m.hart h with mideleg := MIP_SSIP ||| MIP_STIP ||| MIP_SEIP }
  let (m, regs) := m.swapThread h regs eid returnOnResume
  let m := m.setHart h { m.hart h with mip := repostPending (m.hart h).mip }
  (m.cpuExitEnclaveContext h, regs)

/-- `enclave_fix_access_permissions`. -/
def enclaveFixAccessPermissions (eid : Nat) : Monitor :=
  (m.osmPmpSet h PMP_NO_PERM).pmpSetRegions h eid (PMP_X ||| PMP_W ||| PMP_R)

/-! ## The calls -/

def runEnclave (eid : Nat) : Monitor × TrapRegs × SmStatus :=
  if decide (eid < ENCL_MAX) && (m.enclaves eid).runable then
    let m := m.setEnclaveCore eid (m.enclaves eid).enter
    let (m, regs) := m.contextSwitchToEnclave h regs eid true
    (m, regs, .success)
  else (m, regs, .enclaveNotFresh)

def resumeEnclave (eid : Nat) : Monitor × TrapRegs × SmStatus :=
  if decide (eid < ENCL_MAX) && (m.enclaves eid).resumable then
    let m := m.setEnclaveCore eid (m.enclaves eid).enter
    let (m, regs) := m.contextSwitchToEnclave h regs eid false
    (m, regs, .success)
  else (m, regs, .enclaveNotResumable)

def exitEnclave (eid : Nat) : Monitor × TrapRegs × SmStatus :=
  if (m.enclaves eid).stoppable then
    let m := m.setEnclaveCore eid (m.enclaves eid).leave
    let (m, regs) := m.contextSwitchToHost h regs eid false
    (m, regs, .success)
  else (m, regs, .enclaveNotRunning)

/-- The counters of edge calls and the status at the end of `stop_enclave`. -/
def stopResult (request : Word) : Monitor × SmStatus :=
  let counted := m.setHart h { m.hart h with ocallInfo := (m.hart h).ocallInfo + 1 }
  if request = STOP_TIMER_INTERRUPT then (m, .enclaveInterrupted)
  else if request = STOP_EDGE_CALL_HOST then (counted, .enclaveEdgeCallHost)
  else if request = STOP_EDGE_CALL_HOST_ACCEPT then
    ({ counted with hart := fun g => { counted.hart g with ocallInfo := 0 } }, .enclaveEdgeCallHost)
  else (m, .enclaveUnknownError)

def stopEnclave (request : Word) (eid : Nat) : Monitor × TrapRegs × SmStatus :=
  if (m.enclaves eid).stoppable then
    let m := m.setEnclaveCore eid (m.enclaves eid).leave
    let (m, regs) := m.contextSwitchToHost h regs eid
      (request == STOP_EDGE_CALL_HOST || request == STOP_EDGE_CALL_HOST_ACCEPT)
    let (m, status) := m.stopResult h request
    (m, regs, status)
  else (m, regs, .enclaveNotRunning)

/-! ## The SBI functions -/

/-- `sbi_trap_exit`: the record of what hart `h` runs, and the frame with which it resumes. -/
def sbiTrapExit (target : Bool) : Monitor × TrapRegs :=
  let hs := m.hart h
  (m.setHart h { hs with monEnclaveExecution := target },
   { regs with sscratch := if target then hs.sscratchDoubleSaveEnclave else hs.sscratchDoubleSave })

def sbiSmRunEnclave (eid : Word) : Monitor × TrapRegs :=
  let (m, regs, status) := m.runEnclave h regs (eid.setWidth 32).toNat
  m.sbiTrapExit h (regs.setA0 status.code).nextPc true

def sbiSmResumeEnclave (eid : Word) : Monitor × TrapRegs :=
  let (m, regs, status) := m.resumeEnclave h regs (eid.setWidth 32).toNat
  let regs := if regs.gpr 0 = 0 then regs.setA0 status.code else regs
  m.sbiTrapExit h regs.nextPc true

def sbiSmExitEnclave (retval : Word) : Monitor × TrapRegs :=
  let (m, regs, status) := m.exitEnclave h regs (m.hart h).eid
  m.sbiTrapExit h ((regs.setA0 status.code).setA1 retval).nextPc false

def sbiSmStopEnclave (request : Word) : Monitor × TrapRegs :=
  let (m, regs, status) := m.stopEnclave h regs request (m.hart h).eid
  m.sbiTrapExit h (regs.setA0 status.code).nextPc false

def sbiSmSetEnclavePermissions : Monitor := m.enclaveFixAccessPermissions h (m.hart h).eid

end Monitor

end Dorami.Sm
