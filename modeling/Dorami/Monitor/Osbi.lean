import Dorami.Monitor.Trap

/-!
# How OpenSBI reads an SBI call (`sbi_ecall.c`, `sbi_ecall_*.c`)

`sbi_ecall_handler` looks for the handler of the extension in `a7`; the handler chooses a function
by `a6`, and the function reads its arguments. What the functions do is not part of this model, only
which function is called and with which arguments, on RV64.
-/

namespace Dorami.Osbi

open Riscv Sm

def SBI_EXT_0_1_SHUTDOWN : Word := 8
def SBI_EXT_DBCN : Word := 0x4442434E
def SBI_EXT_SUSP : Word := 0x53555350
def SBI_EXT_CPPC : Word := 0x43505043
def SBI_EXT_VENDOR_START : Word := 0x09000000
def SBI_EXT_VENDOR_END : Word := 0x09FFFFFF

/-- The extensions OpenSBI has a handler for. -/
inductive Extension where
  | time
  | rfence
  | ipi
  | base
  | hsm
  | srst
  | susp
  | pmu
  | dbcn
  | cppc
  | legacy
  | vendor
deriving DecidableEq, Repr

/-- What the optional extensions look at before they register themselves. -/
structure Platform where
  srstAvailable : Bool
  suspAvailable : Bool
  hasConsole : Bool
  hasCppc : Bool
  hasVendor : Bool
  mvendorid : Word

def vendorId (p : Platform) : Word :=
  SBI_EXT_VENDOR_START + (p.mvendorid &&& (SBI_EXT_VENDOR_END - SBI_EXT_VENDOR_START))

/-- `sbi_ecall_find_extension`, over the extensions in the order they are registered. -/
def findExtension (p : Platform) (extid : Word) : Option Extension :=
  if extid = SBI_EXT_TIME then some .time
  else if extid = SBI_EXT_RFENCE then some .rfence
  else if extid = SBI_EXT_IPI then some .ipi
  else if extid = SBI_EXT_BASE then some .base
  else if extid = SBI_EXT_HSM then some .hsm
  else if extid = SBI_EXT_SRST ∧ p.srstAvailable then some .srst
  else if extid = SBI_EXT_SUSP ∧ p.suspAvailable then some .susp
  else if extid = SBI_EXT_PMU then some .pmu
  else if extid = SBI_EXT_DBCN ∧ p.hasConsole then some .dbcn
  else if extid = SBI_EXT_CPPC ∧ p.hasCppc then some .cppc
  else if extid ≤ SBI_EXT_0_1_SHUTDOWN then some .legacy
  else if extid = vendorId p ∧ p.hasVendor then some .vendor
  else none

/-- The registers a function reads its arguments from; `none` stands for `SBI_ENOTSUPP`. A vendor's
provider is given the whole frame. -/
def Extension.reads (extid funcid : Word) : Extension → Option (List (Fin 32))
  | .time => if funcid = 0 then some [10] else none
  | .rfence =>
    if funcid = 0 then some [10, 11]
    else if funcid = 1 ∨ funcid = 4 ∨ funcid = 6 then some [10, 11, 12, 13]
    else if funcid = 2 ∨ funcid = 3 ∨ funcid = 5 then some [10, 11, 12, 13, 14]
    else none
  | .ipi => if funcid = 0 then some [10, 11] else none
  | .base =>
      if funcid = SBI_EXT_BASE_PROBE_EXT then some [10] else if funcid ≤ 6 then some [] else none
  | .hsm =>
    if funcid = 0 ∨ funcid = 3 then some [10, 11, 12]
    else if funcid = 2 then some [10]
    else if funcid = 1 then some []
    else none
  | .srst => if funcid = 0 then some [10, 11] else none
  | .susp => if funcid = 0 then some [10, 11, 12] else none
  | .pmu =>
    if funcid = 1 ∨ funcid = 5 then some [10]
    else if funcid = 2 then some [10, 11, 12, 13, 14]
    else if funcid = 3 then some [10, 11, 12, 13]
    else if funcid = 4 then some [10, 11, 12]
    else if funcid = 0 ∨ funcid = 6 then some []
    else none
  | .dbcn =>
    if funcid = 0 ∨ funcid = 1 then some [10, 11, 12] else if funcid = 2 then some [10] else none
  | .cppc =>
    if funcid = 0 ∨ funcid = 1 then some [10]
    else if funcid = 3 then some [10, 11]
    else if funcid = 2 then some []
    else none
  | .legacy =>
    if extid = 0 ∨ extid = 1 ∨ extid = 4 ∨ extid = 5 then some [10]
    else if extid = 6 then some [10, 11, 12]
    else if extid = 7 then some [10, 11, 12, 13]
    else some []
  | .vendor => some (List.finRange 32)

/-- The registers from which OpenSBI takes the arguments of a call. -/
def argRegs (p : Platform) (extid funcid : Word) : Option (List (Fin 32)) :=
  (findExtension p extid).bind (·.reads extid funcid)

/-- A call as OpenSBI understands it. -/
structure Request where
  extension : Extension
  function : Word
  args : List Word
deriving DecidableEq

/-- The call in a frame; `none` is answered with `SBI_ENOTSUPP`. The legacy extensions choose the
function by `a7`. -/
def request (p : Platform) (regs : TrapRegs) : Option Request :=
  (findExtension p regs.a7).bind fun ext =>
    (ext.reads regs.a7 regs.a6).map fun is =>
      ⟨ext, if ext = .legacy then regs.a7 else regs.a6, is.map regs.gpr⟩

/-- The frame carries the ids of the caller and every argument OpenSBI reads. -/
structure Carries (p : Platform) (regs frame : TrapRegs) : Prop where
  a7 : frame.a7 = regs.a7
  a6 : frame.a6 = regs.a6
  args : ∀ is, argRegs p regs.a7 regs.a6 = some is → ∀ i ∈ is, frame.gpr i = regs.gpr i

/-! ## Calls that survive the whitelist of `mon_ecall_enter` -/

/-- The extensions for which `mon_ecall_enter` follows the functions of OpenSBI. -/
def followed (ext : Word) : Prop :=
  ext = SBI_EXT_BASE ∨ ext = SBI_EXT_RFENCE ∨ ext = SBI_EXT_HSM ∨ ext = SBI_EXT_SRST ∨
    ext = SBI_EXT_PMU

/-- The extensions for which it drops the function id. -/
def funcDropped (ext : Word) : Prop := ext = SBI_EXT_TIME ∨ ext = SBI_EXT_IPI

/-- The calls whose ids and arguments reach OpenSBI. The legacy extensions lose `a6` too, and it is
`a6` that chooses which of their arguments are copied. -/
def Carried (regs : TrapRegs) : Prop :=
  followed regs.a7 ∨ funcDropped regs.a7 ∧ regs.a6 = 0 ∨
    regs.a7 ≤ 0x0F ∧ regs.a6 = 0 ∧
      (regs.a7 = 6 ∨ regs.a7 = 7 → regs.a1 = 0 ∧ regs.a2 = 0) ∧ (regs.a7 = 7 → regs.gpr 13 = 0)

/-- The calls OpenSBI answers as it would answer the caller. -/
def Understood (regs : TrapRegs) : Prop :=
  followed regs.a7 ∨ funcDropped regs.a7 ∧ regs.a6 = 0 ∨
    regs.a7 ≤ 0x0F ∧
      (regs.a7 = 6 ∨ regs.a7 = 7 → regs.a6 = 6 ∨ regs.a6 = 7 ∨ regs.a1 = 0 ∧ regs.a2 = 0) ∧
      (regs.a7 = 7 → regs.a6 = 7 ∨ regs.gpr 13 = 0)

end Dorami.Osbi
