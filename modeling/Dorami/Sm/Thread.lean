import Dorami.Sm.Status

/-!
# Execution contexts (`thread.c`, `thread.h`, `struct sbi_trap_regs`)

A trap leaves the interrupted context in a frame of registers; entering and leaving an enclave
exchanges that frame and the S-mode CSRs with the context stored in the enclave's `threads[0]`.
-/

namespace Dorami.Sm

open Riscv

/-- `struct sbi_trap_regs`: `gpr i` is the member with index `i` of `dorami_main.h`, so that `gpr 0`
is the member `zero`. -/
structure TrapRegs where
  gpr : Fin 32 → Word
  mepc : Word
  mstatus : Word
  mstatusH : Word
  mscratch : Word
  sscratch : Word

namespace TrapRegs

/-- A frame of zeros. -/
def zero : TrapRegs := ⟨fun _ => 0, 0, 0, 0, 0, 0⟩

variable (regs : TrapRegs)

def setGpr (i : Fin 32) (v : Word) : TrapRegs :=
  { regs with gpr := fun j => if j = i then v else regs.gpr j }

def a0 : Word := regs.gpr 10
def a1 : Word := regs.gpr 11
def a2 : Word := regs.gpr 12
def a6 : Word := regs.gpr 16
def a7 : Word := regs.gpr 17

def setA0 (v : Word) : TrapRegs := regs.setGpr 10 v
def setA1 (v : Word) : TrapRegs := regs.setGpr 11 v

/-- `regs->mepc += 4`. -/
def nextPc : TrapRegs := { regs with mepc := regs.mepc + 4 }

end TrapRegs

/-- `struct csrs`, and the same CSRs of a hart. -/
structure Csrs where
  sstatus : Word
  sedeleg : Word
  sideleg : Word
  sie : Word
  stvec : Word
  scounteren : Word
  sscratch : Word
  sepc : Word
  scause : Word
  stval : Word
  sip : Word
  satp : Word
deriving DecidableEq, Repr

def Csrs.zero : Csrs := ⟨0, 0, 0, 0, 0, 0, 0, 0, 0, 0, 0, 0⟩

/-- What S/U mode leaves in a hart when it is interrupted. -/
structure Interrupted where
  regs : TrapRegs
  csrs : Csrs

/-- `struct thread_state`. -/
structure ThreadState where
  prevMpp : Word
  prevMepc : Word
  prevMstatus : Word
  prevCsrs : Csrs
  prevState : Fin 32 → Word

def ThreadState.zero : ThreadState := ⟨0, 0, 0, Csrs.zero, fun _ => 0⟩

/-! ## Swapping -/

def MSTATUS_SIE : Word := 0x2
def MSTATUS_SPIE : Word := 1 <<< 5
def MSTATUS_SPP : Word := 1 <<< 8
def MSTATUS_MPP_SHIFT : Nat := 11
def MSTATUS_MPP : Word := 3 <<< MSTATUS_MPP_SHIFT
def MSTATUS_FS : Word := 0x6000
def MSTATUS_SUM : Word := 0x40000
def MSTATUS_MXR : Word := 0x80000

/-- The `mstatus_mask` of `swap_prev_mstatus`. -/
def mstatusMask : Word :=
  MSTATUS_SIE ||| MSTATUS_SPIE ||| MSTATUS_SPP ||| MSTATUS_MPP ||| MSTATUS_FS ||| MSTATUS_SUM |||
    MSTATUS_MXR

def swapPrevMstatus (thread : ThreadState) (regs : TrapRegs) (current : Word) :
    ThreadState × TrapRegs :=
  ({ thread with prevMstatus := (current &&& ~~~mstatusMask) ||| (current &&& mstatusMask) },
   { regs with mstatus := (current &&& ~~~mstatusMask) ||| thread.prevMstatus })

def swapPrevMepc (thread : ThreadState) (regs : TrapRegs) (current : Word) :
    ThreadState × TrapRegs :=
  ({ thread with prevMepc := current }, { regs with mepc := thread.prevMepc })

/-- `swap_prev_smode_csrs`; `sedeleg` and `sideleg` are not exchanged. -/
def swapPrevSmodeCsrs (thread : ThreadState) (csrs : Csrs) : ThreadState × Csrs :=
  ({ thread with
      prevCsrs :=
        { csrs with
          sedeleg := thread.prevCsrs.sedeleg
          sideleg := thread.prevCsrs.sideleg } },
   { thread.prevCsrs with
      sedeleg := csrs.sedeleg
      sideleg := csrs.sideleg })

/-- `swap_prev_state`: the slot of `zero` records whether a resume returns a value. -/
def swapPrevState (thread : ThreadState) (regs : TrapRegs) (csrs : Csrs) (returnOnResume : Bool) :
    ThreadState × TrapRegs × Csrs :=
  let flag : Word := if returnOnResume then 0 else 1
  let swapped :=
    { thread with prevState := fun i => if i = 0 then flag else regs.gpr i }
  let (thread', csrs') := swapPrevSmodeCsrs swapped csrs
  (thread', { regs with gpr := thread.prevState }, csrs')

/-- The three swaps both context switches make, in the order of `enclave.c`. -/
def swapContext (thread : ThreadState) (regs : TrapRegs) (csrs : Csrs) (returnOnResume : Bool) :
    ThreadState × TrapRegs × Csrs :=
  let (thread, regs, csrs) := swapPrevState thread regs csrs returnOnResume
  let (thread, regs) := swapPrevMepc thread regs regs.mepc
  let (thread, regs) := swapPrevMstatus thread regs regs.mstatus
  (thread, regs, csrs)

/-! ## Clean contexts -/

/-- `clean_smode_csrs`. -/
def cleanSmodeCsrs (scounteren : Word) : Csrs :=
  { Csrs.zero with scounteren := scounteren }

/-- `clean_state`. The slot of `zero`, `prev_mepc` and `prev_mstatus` keep what they hold. -/
def cleanState (thread : ThreadState) (scounteren : Word) : ThreadState :=
  { thread with
    prevMpp := -1
    prevCsrs := cleanSmodeCsrs scounteren
    prevState := fun i => if i = 0 then thread.prevState 0 else 0 }

end Dorami.Sm
