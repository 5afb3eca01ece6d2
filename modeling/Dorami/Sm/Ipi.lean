import Dorami.Sm.Switch

/-!
# PMP updates on other harts (`ipi.c` and the global functions of `pmp.c`)

A sender fills its mailbox, interrupts every other hart and waits until each of them has applied the
update. Here the calls of the monitor are executed one at a time, so sending and applying is one
step: each receiver takes the software interrupt, runs `mon_ipi_check` on the sender's mailbox, the
only one that is not empty, and then goes the way of every software interrupt, to OpenSBI and back.
-/

namespace Dorami.Sm

open Riscv

/-- `mcause` of a machine software interrupt. -/
def CAUSE_M_SOFT : Word := 0x8000000000000003

/-- The update in a sender's mailbox; `unset` is the type 1. -/
structure IpiUpdate where
  regionIdx : Nat
  unset : Bool
  perm : Byte

namespace Monitor

variable (m : Monitor)

/-- `mon_ipi_check` on hart `g`. -/
def monIpiCheck (g : HartId) (u : IpiUpdate) : Monitor :=
  let r := (m.hart g).pmp
  m.setPmp g (if u.unset then (pmpUnset m.table r u.regionIdx).1
    else (pmpSetKeystone m.table r u.regionIdx u.perm).1)

/-- The software interrupt of an update on hart `g`, which runs the host with this `sscratch`. After
`mon_ipi_check` the trap is handed on to OpenSBI; `_mon_enter_osbi` leaves the constant `LOCK_OSBI`
in `pmpcfg0`, and `mon_trap_return_osbi` repairs nothing on a hart in the host. OpenSBI returns to
the mode it came from, so `_mon_enter_osbi` builds no frame of its own. -/
def hostIpi (g : HartId) (u : IpiUpdate) (sscratch : Word) : Monitor :=
  let m := m.setHart g { m.hart g with
    temporaryInfo := ⟨CAUSE_M_SOFT, 0⟩
    sscratchDoubleSave := sscratch }
  (m.monIpiCheck g u).writePmpcfg0 g LOCK_OSBI

/-- The same on any hart; it interrupts the context `ctx`. A hart recorded as running an enclave
stops it first, and takes the interrupt, which is still pending, again in the host. -/
def deliverIpi (g : HartId) (u : IpiUpdate) (ctx : Interrupted) : Monitor :=
  let m := m.setHart g { m.hart g with csrs := ctx.csrs }
  if (m.hart g).monEnclaveExecution then
    let m := m.setHart g { m.hart g with
      temporaryInfo := ⟨CAUSE_M_SOFT, 0⟩
      sscratchDoubleSaveEnclave := ctx.regs.sscratch }
    let (m, regs) :=
      m.sbiSmStopEnclave g { ctx.regs with mepc := ctx.regs.mepc - 4 } STOP_TIMER_INTERRUPT
    m.hostIpi g u regs.sscratch
  else m.hostIpi g u ctx.regs.sscratch

/-- The harts `mon_send_sync_ipi` interrupts. -/
def otherHarts (h : HartId) : List HartId := (List.finRange 4).filter (· ≠ h)

/-- `mon_send_sync_ipi` by hart `h`; `frames g` is the context it interrupts on hart `g`. -/
def monSendSyncIpi (h : HartId) (frames : HartId → Interrupted) (u : IpiUpdate) : Monitor :=
  (otherHarts h).foldl (fun m g => m.deliverIpi g u (frames g)) m

def pmpSetGlobal (h : HartId) (frames : HartId → Interrupted) (regionIdx : Nat) (perm : Byte) :
    Monitor × SmStatus :=
  if !m.table.isPmpRegionValid regionIdx then (m, .pmpRegionInvalid)
  else (m.monSendSyncIpi h frames ⟨regionIdx, false, perm⟩, .success)

def pmpUnsetGlobal (h : HartId) (frames : HartId → Interrupted) (regionIdx : Nat) :
    Monitor × SmStatus :=
  if !m.table.isPmpRegionValid regionIdx then (m, .pmpRegionInvalid)
  else (m.monSendSyncIpi h frames ⟨regionIdx, true, PMP_NO_PERM⟩, .success)

end Monitor

end Dorami.Sm
