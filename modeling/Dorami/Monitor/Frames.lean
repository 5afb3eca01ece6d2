import Dorami.Monitor.Variables

/-!
# The member `mscratch` of the trap frames

`_mon_enter_su` builds the frame of a trap below the scratch space of its hart, always at the same
place, and stores all its members but `mscratch`. That member keeps what an earlier entry has left
there: `_mon_enter_osbi` stores the `mscratch` of OpenSBI into it, and the trap handler of the host
stores `OSBI_mscratch`. `_mon_exit_to_osbi` loads `mscratch` from it.

Here the member is in memory, where other stores can reach it: those of S/U mode, as far as the PMP
lets it, those the monitor makes for an enclave, and the frame that is built below the stack pointer
of an OpenSBI whose `mstatus.MPP` is M.
-/

namespace Dorami

open Riscv Sm Lib

namespace Layout

variable (L : Layout)

/-- The address of the member `mscratch` in the frame of a hart. -/
def mscratchSlot (h : HartId) : Word := L.frame h + slot 35

/-- The members are in the monitor's data and do not overlap. -/
structure FramesOk : Prop where
  inData : ∀ h, ∀ i < 8, (L.mscratchSlot h + BitVec.ofNat 64 i).toNat ∈ Monitor.monitorData
  apart : ∀ g h, g ≠ h → ∀ i < 8, ∀ j < 8,
    L.mscratchSlot g + BitVec.ofNat 64 i ≠ L.mscratchSlot h + BitVec.ofNat 64 j

end Layout

namespace Sm.Monitor

variable (C : Crypto) (L : Layout) (m : Monitor)

/-- The member `mscratch` in the frame of hart `h`. -/
def slotMscratch (h : HartId) : Word := bytesWord (m.readMem (L.mscratchSlot h) 8)

def setSlot (h : HartId) (mscratch : Word) : Monitor :=
  m.writeMem (L.mscratchSlot h) (wordBytes mscratch)

/-- The trap as its handler finds it: `mscratch` is what the frame holds. -/
def framed (h : HartId) (t : Trap) : Trap :=
  { t with regs := { t.regs with mscratch := m.slotMscratch L h } }

/-- `mon_trap_handler_sumode` with that frame. -/
def frameHandler (h : HartId) (t : Trap) (info : Word) : Monitor × Exit :=
  m.trapHandlerIn C L h (m.framed L h t) info

/-- The end of an entry into the monitor. On the way to OpenSBI the frame has been brought up to
date. -/
def frameLeave (h : HartId) : Exit → Monitor
  | .toOsbi regs => (m.leave h (.toOsbi regs)).setSlot L h regs.mscratch
  | ex => m.leave h ex

/-- The return of OpenSBI. With `MPP` = M the frame is built on the stack OpenSBI has left,
otherwise at the place of the hart's frame. -/
def frameReturn (h : HartId) (regs : TrapRegs) : Monitor × Exit :=
  if mppOf regs.mstatus = 3 then m.returnHandlerIn L h regs
  else (m.setSlot L h regs.mscratch).returnHandler h regs

/-- One event. -/
def frameStep : MemInput → Monitor
  | .trap h t info =>
    if m.trapEnabled h t then
      let (m', ex) := m.frameHandler C L h t info
      m'.frameLeave L h ex
    else m
  | .osbiReturn h regs =>
    if (m.hart h).mode = .osbi then
      let (m', ex) := m.frameReturn L h regs
      m'.leave h ex
    else m
  | .store h a b => if m.canStore h a then m.write L [(a, b)] else m

/-- The hart and the frame of a `_mon_exit_to_osbi`. -/
def exitToOsbi : MemInput → Option (HartId × TrapRegs)
  | .trap h t info =>
    if m.trapEnabled h t then
      match (m.frameHandler C L h t info).2 with
      | .toOsbi regs => some (h, regs)
      | _ => none
    else none
  | .osbiReturn .. | .store .. => none

/-- OpenSBI leaves with its own `mscratch`, and its first return on a hart starts S/U mode. -/
def OsbiKeeps (own : HartId → Word) : MemInput → Prop
  | .osbiReturn h regs => (m.hart h).mode = .osbi →
      regs.mscratch = own h ∧ ((m.hart h).suStarted = false → mppOf regs.mstatus ≠ 3)
  | .trap .. | .store .. => True

instance osbiKeepsDecidable (own : HartId → Word) : ∀ i, Decidable (m.OsbiKeeps own i)
  | .osbiReturn h regs => inferInstanceAs (Decidable ((m.hart h).mode = .osbi →
      regs.mscratch = own h ∧ ((m.hart h).suStarted = false → mppOf regs.mstatus ≠ 3)))
  | .trap .. | .store .. => inferInstanceAs (Decidable True)

/-- `_mon_exit_to_osbi` with this frame ends in the trap handler of OpenSBI, with this value in
`mscratch`. -/
def EntersOsbi (regs : TrapRegs) (mscratch : Word) : Prop :=
  regs.mscratch = mscratch ∧ ∀ (sy : SwitchSymbols) (c : Cpu), c.frame 35 = regs.mscratch →
    ∃ c', (switchCode sy).Calls .monExitToOsbi c .sbiTrapHandler c' ∧ c'.csr .mscratch = mscratch

end Sm.Monitor

end Dorami
