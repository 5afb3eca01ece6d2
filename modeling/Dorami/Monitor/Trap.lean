import Dorami.Sm.Sbi

/-!
# Traps and the switch to OpenSBI (`dorami_main.c`, `monitor.S`)

A trap from S/U mode is served by the monitor itself or handed on to OpenSBI. Handing on writes one
constant to `pmpcfg0`, coming back another, so that all eight configuration bytes change at once.
-/

namespace Dorami

open Riscv Sm

def IRQ_M_SOFT : Word := 3
def IRQ_M_TIMER : Word := 7
def CAUSE_ILLEGAL_INSTRUCTION : Word := 2
def CAUSE_MISALIGNED_LOAD : Word := 4
def CAUSE_MISALIGNED_STORE : Word := 6
def CAUSE_SUPERVISOR_ECALL : Word := 9
def CAUSE_MACHINE_ECALL : Word := 11

def SBI_EXT_EXPERIMENTAL_KEYSTONE_ENCLAVE : Word := 0x08424b45
def SBI_EXT_BASE : Word := 0x10
def SBI_EXT_BASE_PROBE_EXT : Word := 3
def SBI_EXT_TIME : Word := 0x54494D45
def SBI_EXT_IPI : Word := 0x735049
def SBI_EXT_RFENCE : Word := 0x52464E43
def SBI_EXT_HSM : Word := 0x48534D
def SBI_EXT_SRST : Word := 0x53525354
def SBI_EXT_PMU : Word := 0x504D55

/-- The interrupt bit of `mcause`, and the code below it. -/
def isInterrupt (mcause : Word) : Bool := mcause.getLsbD 63
def irqCode (mcause : Word) : Word := mcause &&& ~~~(1#64 <<< 63)

def isEcall (mcause : Word) : Bool :=
  mcause == CAUSE_SUPERVISOR_ECALL || mcause == CAUSE_MACHINE_ECALL

/-- How an entry into the monitor ends. -/
inductive Exit where
  /-- `_mon_exit_to_su`. -/
  | toSu (regs : TrapRegs)
  /-- `_mon_exit_to_osbi`. -/
  | toOsbi (regs : TrapRegs)
  /-- The `mret` of a hart's first entry into S-mode, with the CSRs OpenSBI set up. -/
  | firstEntry (regs : TrapRegs)
  /-- `sbi_hart_hang`. -/
  | hang

/-! ## Forwarding an SBI call -/

/-- The argument registers `mon_ecall_enter` copies, besides `a7`. -/
def ecallArgs (ext func : Word) : List (Fin 32) :=
  if ext = SBI_EXT_BASE then
    if func = SBI_EXT_BASE_PROBE_EXT then [16, 10] else [16]
  else if ext ≤ 0x0F then
    if func = 6 then [10, 11, 12] else if func = 7 then [10, 11, 12, 13] else [10]
  else if ext = SBI_EXT_TIME then [10]
  else if ext = SBI_EXT_IPI then [10, 11]
  else if ext = SBI_EXT_RFENCE then
    if func = 0 then [16, 10, 11]
    else if func = 1 ∨ func = 4 ∨ func = 6 then [16, 10, 11, 12, 13]
    else if func = 2 ∨ func = 3 ∨ func = 5 then [16, 10, 11, 12, 13, 14]
    else [16]
  else if ext = SBI_EXT_HSM then
    if func = 0 ∨ func = 3 then [16, 10, 11, 12] else if func = 2 then [16, 10, 11] else [16]
  else if ext = SBI_EXT_SRST then [16, 10, 11]
  else if ext = SBI_EXT_PMU then
    if func = 1 ∨ func = 5 then [16, 10]
    else if func = 2 then [16, 10, 11, 12, 13, 14]
    else if func = 3 then [16, 10, 11, 12, 13]
    else if func = 4 then [16, 10, 11, 12]
    else [16]
  else []

/-- The extensions for which `mon_ecall_enter` passes `a7` on. -/
def ecallKnown (ext : Word) : Bool :=
  ext == SBI_EXT_BASE || decide (ext ≤ 0x0F) || ext == SBI_EXT_TIME || ext == SBI_EXT_IPI ||
    ext == SBI_EXT_RFENCE || ext == SBI_EXT_HSM || ext == SBI_EXT_SRST || ext == SBI_EXT_PMU

/-- The frame `mon_ecall_enter` builds from the caller's. -/
def ecallFrame (regs : TrapRegs) : TrapRegs :=
  let base := { TrapRegs.zero with
    mepc := regs.mepc, mstatus := regs.mstatus, mscratch := regs.mscratch }
  let args := (if ecallKnown regs.a7 then [17] else []) ++ ecallArgs regs.a7 regs.a6
  args.foldl (fun frame i => frame.setGpr i (regs.gpr i)) base

namespace Sm.Monitor

variable (C : Crypto) (m : Monitor) (h : HartId)

/-- `mon_ecall_enter`. -/
def monEcallEnter (regs : TrapRegs) : Monitor × TrapRegs :=
  (m.setHart h { m.hart h with temporaryRegisters := regs }, ecallFrame regs)

/-! ## A trap from S/U mode -/

/-- `sbi_trap_handler_keystone_enclave`: the trap of a hart recorded as running an enclave. -/
def sbiTrapHandlerKeystoneEnclave (mcause : Word) (regs : TrapRegs) (env : Env) : Monitor × Exit :=
  if isInterrupt mcause then
    if irqCode mcause = IRQ_M_TIMER ∨ irqCode mcause = IRQ_M_SOFT then
      let (m, regs) :=
        m.sbiSmStopEnclave h { regs with mepc := regs.mepc - 4 } STOP_TIMER_INTERRUPT
      (m, .toSu regs)
    else (m, .hang)
  else if isEcall mcause then
    if regs.a7 = SBI_EXT_EXPERIMENTAL_KEYSTONE_ENCLAVE then
      match m.sbiEcallKeystoneEnclaveHandler C h regs.a6 regs env with
      | (m, .ret retval outVal) => (m, .toSu ((regs.setA1 outVal).setA0 retval).nextPc)
      | (m, .exit regs) => (m, .toSu regs)
    else
      let (m, regs) := m.monEcallEnter h regs
      (m, .toOsbi regs)
  else (m, .toOsbi regs)

/-- The rest of `mon_trap_handler_sumode`: the trap of a hart recorded as running the host. -/
def monTrapHandlerHost (mcause : Word) (regs : TrapRegs) (env : Env) : Monitor × Exit :=
  let mscratch := (m.hart h).osbiMscratch
  if isInterrupt mcause then
    -- no mailbox holds an update here: the interrupts of updates are taken when these are sent
    if irqCode mcause = IRQ_M_TIMER ∨ irqCode mcause = IRQ_M_SOFT then
      (m, .toOsbi { regs with mscratch := mscratch })
    else (m, .hang)
  else if isEcall mcause then
    if regs.a7 = SBI_EXT_EXPERIMENTAL_KEYSTONE_ENCLAVE then
      match m.sbiEcallKeystoneEnclaveHandler C h regs.a6 regs env with
      | (m, .ret retval outVal) =>
        let regs := ((regs.setA1 outVal).setA0 retval).nextPc
        (m, .toSu { regs with sscratch := (m.hart h).sscratchDoubleSaveEnclave })
      | (m, .exit regs) => (m, .toSu regs)
    else
      let (m, regs) := m.monEcallEnter h regs
      (m, .toOsbi { regs with mscratch := mscratch })
  else (m, .toOsbi { regs with mscratch := mscratch })

/-- `mon_trap_handler_sumode`. -/
def monTrapHandlerSumode (mcause mtval : Word) (regs : TrapRegs) (env : Env) : Monitor × Exit :=
  let m := m.setHart h { m.hart h with temporaryInfo := ⟨mcause, mtval⟩ }
  if (m.hart h).monEnclaveExecution then
    let m := m.setHart h { m.hart h with sscratchDoubleSaveEnclave := regs.sscratch }
    m.sbiTrapHandlerKeystoneEnclave C h mcause regs env
  else
    let m := m.setHart h { m.hart h with sscratchDoubleSave := regs.sscratch }
    m.monTrapHandlerHost C h mcause regs env

/-! ## The return from OpenSBI -/

/-- The context `mon_trap_return_osbi` resumes after a forwarded SBI call. -/
def ecallReturn (saved osbi : TrapRegs) : TrapRegs :=
  let saved := saved.setA0 osbi.a0
  (if saved.a7 ≤ 0x0F then saved else saved.setA1 osbi.a1).nextPc

/-- `mon_trap_return_osbi` with the frame OpenSBI returns. -/
def monTrapReturnOsbi (regs : TrapRegs) : Monitor × Exit :=
  let hs := m.hart h
  let regs := { regs with sscratch :=
    if hs.monEnclaveExecution then hs.sscratchDoubleSaveEnclave else hs.sscratchDoubleSave }
  let mcause := hs.temporaryInfo.cause
  if !hs.suStarted then
    (m.setHart h { hs with osbiMscratch := regs.mscratch, suStarted := true }, .firstEntry regs)
  else
    let m := if hs.monEnclaveExecution then m.sbiSmSetEnclavePermissions h else m
    if isInterrupt mcause then
      if irqCode mcause = IRQ_M_TIMER ∨ irqCode mcause = IRQ_M_SOFT then (m, .toSu regs)
      else (m, .hang)
    else if isEcall mcause then
      let saved := ecallReturn hs.temporaryRegisters regs
      (m.setHart h { m.hart h with temporaryRegisters := saved }, .toSu saved)
    else if mcause = CAUSE_ILLEGAL_INSTRUCTION ∨ mcause = CAUSE_MISALIGNED_LOAD ∨
        mcause = CAUSE_MISALIGNED_STORE then (m, .toSu regs)
    else
      let saved := { hs.temporaryRegisters with mepc := regs.mepc, mstatus := regs.mstatus }
      (m.setHart h { m.hart h with temporaryRegisters := saved }, .toSu regs)

/-! ## Steps of the system -/

def setMode (mode : Mode) : Monitor := m.setHart h { m.hart h with mode := mode }

/-- The end of an entry into the monitor on hart `h`. -/
def leave : Exit → Monitor
  | .toSu _ => m.setMode h .su
  | .firstEntry _ => m.setMode h .su
  | .toOsbi _ => (m.writePmpcfg0 h UNLOCK_OSBI).setMode h .osbi
  | .hang => m.setMode h .hung

end Sm.Monitor

/-- A trap from S/U mode: its cause, the frame and the CSRs S/U mode left, and what the monitor
finds around it. -/
structure Trap where
  mcause : Word
  mtval : Word
  regs : TrapRegs
  csrs : Csrs
  mip : Word
  env : Env

namespace Trap

/-- The trap is a call of the Keystone extension. -/
def isKeystone (t : Trap) : Bool :=
  !isInterrupt t.mcause && isEcall t.mcause &&
    t.regs.a7 == SBI_EXT_EXPERIMENTAL_KEYSTONE_ENCLAVE

/-- The call may send PMP updates to the other harts. -/
def sendsIpis (t : Trap) : Bool :=
  t.isKeystone && (t.regs.a6 == SBI_SM_CREATE_ENCLAVE || t.regs.a6 == SBI_SM_DESTROY_ENCLAVE)

end Trap

/-- An event of the system: a trap on a hart, or the return of OpenSBI with a frame. -/
inductive Input where
  | trap (h : HartId) (t : Trap)
  | osbiReturn (h : HartId) (regs : TrapRegs)

namespace Sm.Monitor

variable (C : Crypto)

/-- A trap takes place on a hart in S/U mode. `mon_send_sync_ipi` waits for the other harts, so a
call that may send updates is taken when all of them are in S/U mode. -/
def trapEnabled (m : Monitor) (h : HartId) (t : Trap) : Bool :=
  (m.hart h).mode == .su &&
    (!t.sendsIpis || (List.finRange 4).all fun g => (m.hart g).mode == .su)

/-- The state after the trap: the frame of the entry code has 0 in the slot of `zero`. -/
def trapStep (m : Monitor) (h : HartId) (t : Trap) : Monitor :=
  let m := m.setHart h { m.hart h with csrs := t.csrs, mip := t.mip }
  let (m, ex) := m.monTrapHandlerSumode C h t.mcause t.mtval (t.regs.setGpr 0 0) t.env
  m.leave h ex

/-- The state after OpenSBI returns through `_mon_enter_osbi`. -/
def osbiReturnStep (m : Monitor) (h : HartId) (regs : TrapRegs) : Monitor :=
  let (m, ex) := (m.writePmpcfg0 h LOCK_OSBI).monTrapReturnOsbi h regs
  m.leave h ex

/-- One event; an event that cannot take place leaves the state as it is. -/
def step (m : Monitor) : Input → Monitor
  | .trap h t => if m.trapEnabled h t then m.trapStep C h t else m
  | .osbiReturn h regs => if (m.hart h).mode = .osbi then m.osbiReturnStep h regs else m

end Sm.Monitor

/-! ## The state after boot -/

/-- A hart after `sm_init` with the OS region opened. -/
def bootHart : HartState :=
  { mode := .su
    pmp := (pmpSetKeystone bootTable (smInitHart bootTable bootIds resetRegs) bootIds.os
      EPMP_SU_RWX).1
    csrs := Csrs.zero
    mideleg := 0
    mip := 0
    isEnclave := false
    eid := 0
    monEnclaveExecution := false
    osbiMscratch := 0
    sscratchDoubleSave := 0
    sscratchDoubleSaveEnclave := 0
    temporaryRegisters := TrapRegs.zero
    temporaryInfo := ⟨0, 0⟩
    suStarted := true
    ocallInfo := 0 }

/-- The monitor after `sm_init`, with the given memory and keys. -/
def bootMonitor (mem : Word → Byte) (keys : Keys) : Monitor :=
  { table := bootTable
    enclaves := fun _ => Enclave.init
    hart := fun _ => bootHart
    mem := mem
    keys := keys
    randomW := 0 }

end Dorami
