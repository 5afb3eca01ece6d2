import Dorami.Monitor.Properties

/-!
# Contexts

What the results about contexts speak of: the frame with which a hart goes on after the monitor, the
traps by which a hart enters and leaves an enclave, and what it means that a context is given back.
-/

namespace Dorami

open Riscv Sm Lib

/-- The privilege mode an `mret` with this frame continues in: 0 is U, 1 is S and 3 is M. -/
def Sm.TrapRegs.mpp (regs : TrapRegs) : Word :=
  (regs.mstatus &&& MSTATUS_MPP) >>> MSTATUS_MPP_SHIFT

/-- That mode is S or U. -/
def Sm.TrapRegs.below (regs : TrapRegs) : Bool := regs.mpp == 0 || regs.mpp == 1

/-- The frame of the `mret` that ends an entry into the monitor. -/
def Exit.resumed : Exit → Option TrapRegs
  | .toSu regs => some regs
  | .firstEntry regs => some regs
  | .toOsbi _ => none
  | .hang => none

/-- The interrupt is one the monitor knows. -/
def isTimerOrSoft (mcause : Word) : Bool :=
  irqCode mcause == IRQ_M_TIMER || irqCode mcause == IRQ_M_SOFT

namespace Trap

/-- The trap is an SBI call of another extension than Keystone. -/
def isSbiCall (t : Trap) : Bool :=
  !isInterrupt t.mcause && isEcall t.mcause &&
    t.regs.a7 != SBI_EXT_EXPERIMENTAL_KEYSTONE_ENCLAVE

/-- The trap comes from S or U mode. -/
def fromBelow (t : Trap) : Bool := t.regs.below

/-- The trap is a timer or software interrupt. -/
def isIrq (t : Trap) : Bool := isInterrupt t.mcause && isTimerOrSoft t.mcause

/-- The registers in which the host finds the results, when the trap leaves an enclave. -/
def results (t : Trap) : List (Fin 32) :=
  if t.isKeystone && t.regs.a6 == SBI_SM_EXIT_ENCLAVE then [10, 11] else [10]

/-- The enclave a run or resume call names. -/
def eid (t : Trap) : Nat := (t.regs.a0.setWidth 32).toNat

end Trap

namespace Sm

/-! ## Calls of OpenSBI -/

/-- The registers OpenSBI may learn from the caller of an SBI call: `a0` to `a4`, `a6` and `a7`. -/
def callRegs : List (Fin 32) := [10, 11, 12, 13, 14, 16, 17]

/-- `r` is the context `regs` after an SBI call that OpenSBI has answered with the frame `osbi`. -/
structure Answered (regs osbi r : TrapRegs) : Prop where
  gpr : ∀ i, i ≠ 0 → i ≠ 10 → i ≠ 11 → r.gpr i = regs.gpr i
  a0 : r.a0 = osbi.a0
  a1 : r.a1 = if 0x0F < regs.a7 then osbi.a1 else regs.a1
  mstatus : r.mstatus = regs.mstatus
  sscratch : r.sscratch = regs.sscratch
  mepc : r.mepc = regs.mepc + 4

namespace Monitor

variable (m : Monitor) (h : HartId) (t : Trap) (e : Nat)

/-- The record of a hart after it has trapped. -/
def arrived (hs : HartState) (t : Trap) : HartState :=
  let hs := { hs with csrs := t.csrs, mip := t.mip, temporaryInfo := ⟨t.mcause, t.mtval⟩ }
  if hs.monEnclaveExecution then { hs with sscratchDoubleSaveEnclave := t.regs.sscratch }
  else { hs with sscratchDoubleSave := t.regs.sscratch }

/-- The state in which the handlers find a trap. -/
def arrive : Monitor := m.setHart h (arrived (m.hart h) t)

/-- The frame the entry code hands to `mon_trap_handler_sumode`. -/
def frame (t : Trap) : TrapRegs := t.regs.setGpr 0 0

/-- `mon_trap_return_osbi` with the frame OpenSBI leaves: the state and how the hart goes on. -/
def returnHandler (regs : TrapRegs) : Monitor × Exit :=
  (m.writePmpcfg0 h LOCK_OSBI).monTrapReturnOsbi h regs

/-- OpenSBI returns from an SBI call, or from an interrupt after which the hart hangs. -/
def returnsOwn : Bool :=
  let cause := (m.hart h).temporaryInfo.cause
  (m.hart h).suStarted && if isInterrupt cause then !isTimerOrSoft cause else isEcall cause

/-! ## Entering and leaving enclaves -/

/-- A run call of the host for enclave `e` that succeeds. -/
structure Runs : Prop where
  keystone : t.isKeystone = true
  host : (m.hart h).isEnclave = false
  call : t.regs.a6 = SBI_SM_RUN_ENCLAVE
  eid : t.eid = e
  lt : e < ENCL_MAX
  test : (m.enclaves e).runable = true

/-- A resume call of the host for enclave `e` that succeeds. -/
structure Resumes : Prop where
  keystone : t.isKeystone = true
  host : (m.hart h).isEnclave = false
  call : t.regs.a6 = SBI_SM_RESUME_ENCLAVE
  eid : t.eid = e
  lt : e < ENCL_MAX
  test : (m.enclaves e).resumable = true

/-- A timer or software interrupt that stops enclave `e`. -/
structure Interrupts : Prop where
  irq : t.isIrq = true
  flag : (m.hart h).monEnclaveExecution = true
  eid : (m.hart h).eid = e
  test : (m.enclaves e).stoppable = true

/-- A stop call of enclave `e`. -/
structure Stops : Prop where
  keystone : t.isKeystone = true
  inside : (m.hart h).isEnclave = true
  call : t.regs.a6 = SBI_SM_STOP_ENCLAVE
  eid : (m.hart h).eid = e
  test : (m.enclaves e).stoppable = true

/-- An exit call of enclave `e`. -/
structure Exits : Prop where
  keystone : t.isKeystone = true
  inside : (m.hart h).isEnclave = true
  call : t.regs.a6 = SBI_SM_EXIT_ENCLAVE
  eid : (m.hart h).eid = e
  test : (m.enclaves e).stoppable = true

/-- The trap lets hart `h` enter enclave `e`. -/
def Enters : Prop := m.Runs h t e ∨ m.Resumes h t e

/-- The trap lets hart `h` leave enclave `e`. -/
def Leaves : Prop := m.Interrupts h t e ∨ m.Stops h t e ∨ m.Exits h t e

/-- An edge call of enclave `e`. -/
def EdgeCalls : Prop :=
  m.Stops h t e ∧ (t.regs.a0 = STOP_EDGE_CALL_HOST ∨ t.regs.a0 = STOP_EDGE_CALL_HOST_ACCEPT)

/-- The input interrupts enclave `e` on hart `h`, in the context `ctx`: it is a trap on the hart, or
a call of another hart that sends it an update while it is the one hart inside. -/
inductive InterruptedBy : Input → Interrupted → Prop where
  | irq (t : Trap) : m.trapEnabled h t = true → m.Interrupts h t e →
      InterruptedBy (.trap h t) ⟨t.regs, t.csrs⟩
  | update (g : HartId) (t : Trap) : g ≠ h → m.trapEnabled g t = true → t.sendsIpis = true →
      (m.hart h).monEnclaveExecution = true → (m.hart h).eid = e →
      (∀ k, k ≠ h → (m.hart k).monEnclaveExecution = true → (m.hart k).eid ≠ e) →
      (m.enclaves e).state = .running → InterruptedBy (.trap g t) (t.env.frames h)

/-- The input makes hart `h` leave enclave `e`, in the context `ctx`. -/
inductive LeftBy : Input → Interrupted → Prop where
  | interrupt {i : Input} {ctx : Interrupted} : m.InterruptedBy h e i ctx → LeftBy i ctx
  | call (t : Trap) : m.trapEnabled h t = true → (m.hart h).monEnclaveExecution = true →
      m.Stops h t e ∨ m.Exits h t e → LeftBy (.trap h t) ⟨t.regs, t.csrs⟩

/-! ## Contexts that are given back -/

/-- Both records say that hart `h` is inside enclave `e`. -/
structure Inside : Prop where
  flag : (m.hart h).monEnclaveExecution = true
  inside : (m.hart h).isEnclave = true
  eid : (m.hart h).eid = e

/-- The input does not make another hart than `h` leave enclave `e`. -/
def OthersKeepOut (i : Input) : Prop :=
  ∀ k t, i = .trap k t → k ≠ h → m.trapEnabled k t = true → ¬ m.Leaves k t e

/-- The monitor is reached in a run from the state in which it first hands the harts to OpenSBI. -/
def Reachable (C : Crypto) : Prop :=
  ∃ mem keys is, m = run (step C) (handedOver mem keys) is

/-- Hart `h` enters enclave `e` by the trap and stays inside during `js`, in which no other hart
leaves the enclave. -/
structure Visit (C : Crypto) (js : List Input) : Prop where
  enabled : m.trapEnabled h t = true
  enters : m.Enters h t e
  stays : Always (step C) (fun m => m.Inside h e) (m.step C (.trap h t)) js
  others : StepsOk (step C) (fun m i => m.OthersKeepOut h e i) (m.step C (.trap h t)) js

/-- The input is a trap taken on hart `h` while it is recorded as running an enclave. -/
def savesOn : Input → Bool
  | .trap g t =>
    (m.hart h).monEnclaveExecution && m.trapEnabled g t && (g == h || t.sendsIpis)
  | .osbiReturn _ _ => false

end Monitor

/-- The S-mode CSRs that belong to a context, but for `sscratch`. -/
structure SameCsrs (csrs csrs' : Csrs) : Prop where
  sie : csrs.sie = csrs'.sie
  stvec : csrs.stvec = csrs'.stvec
  scounteren : csrs.scounteren = csrs'.scounteren
  sepc : csrs.sepc = csrs'.sepc
  scause : csrs.scause = csrs'.scause
  stval : csrs.stval = csrs'.stval
  satp : csrs.satp = csrs'.satp

/-- The context `r`, `csrs` continues the context `ctx` at `pc`: the registers other than those in
`results`, the CSRs and the bits of `mstatus` that belong to a context are the same. -/
structure Continues (ctx : Interrupted) (results : List (Fin 32)) (pc : Word) (r : TrapRegs)
    (csrs : Csrs) : Prop where
  gpr : ∀ i, i ≠ 0 → i ∉ results → r.gpr i = ctx.regs.gpr i
  csrs : SameCsrs csrs ctx.csrs
  mstatus : r.mstatus &&& mstatusMask = ctx.regs.mstatus &&& mstatusMask
  pc : r.mepc = pc

/-- The host that has made the call `t` finds its context again after the enclave is
left by `t'`. -/
structure HostBack (t t' : Trap) (r : TrapRegs) (csrs : Csrs) : Prop where
  context : Continues ⟨t.regs, t.csrs⟩ t'.results (t.regs.mepc + 4) r csrs
  sscratch : r.sscratch = t.regs.sscratch

/-- The context in which an enclave with these parameters starts. -/
structure Starts (params : RuntimeParams) (r : TrapRegs) (csrs : Csrs) : Prop where
  pc : r.mepc = params.dramBase
  a0 : r.gpr 10 = 0
  args : r.gpr 11 = params.dramBase ∧ r.gpr 12 = params.dramSize ∧ r.gpr 13 = params.runtimeBase ∧
    r.gpr 14 = params.userBase ∧ r.gpr 15 = params.freeBase ∧ r.gpr 16 = params.untrustedBase ∧
    r.gpr 17 = params.untrustedSize
  others : ∀ i, i ≠ 0 → i ∉ ([10, 11, 12, 13, 14, 15, 16, 17] : List (Fin 32)) → r.gpr i = 0
  satp : csrs.satp = 0

end Sm

end Dorami
