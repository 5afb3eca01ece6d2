import Dorami.Sm.Pmp

/-!
# Boot of the security monitor (`sm.c`, `sm.h`)

The regions `sm_init` registers on the cold-booting hart and the PMP registers it programs on every
hart. The keys, the hash and the printing of `sm.c` are not part of this model.
-/

namespace Dorami.Sm

open Riscv

/-! ## The address map (`sm.h`) -/

def REGION_DEVICE_BASE : Word := 0x0
def REGION_DEVICE_SIZE : Word := 0x80000000
def REGION_SMM_CODE_BASE : Word := 0x80040000
def REGION_SMM_CODE_SIZE : Word := 0x40000
def REGION_SMM_DATA_BASE : Word := 0x800C0000
def REGION_SMM_DATA_SIZE : Word := 0x40000
def REGION_SP1_CODE_BASE : Word := 0x80080000
def REGION_SP1_CODE_SIZE : Word := 0x40000
def REGION_TM_CODE_BASE : Word := 0x80000000
def REGION_TM_CODE_SIZE : Word := 0x40000
def REGION_TM_DATA_BASE : Word := 0x80100000
def REGION_TM_DATA_SIZE : Word := 0x40000

/-! ## Registering the regions -/

/-- The shape of the `reg_*_init` functions: `none` stands for the -1 they return on failure. -/
def regRegion (base size : Word) (priority : PmpPriority) (allowOverlap : Bool) (t : PmpTable) :
    Option (PmpTable × Nat) :=
  match t.pmpRegionInit base size priority allowOverlap with
  | (t, .ok region) => some (t, region)
  | (_, .error _) => none

def regTmCodeInit : PmpTable → Option (PmpTable × Nat) :=
  regRegion REGION_TM_CODE_BASE REGION_TM_CODE_SIZE .top false

def regTmDataInit : PmpTable → Option (PmpTable × Nat) :=
  regRegion REGION_TM_DATA_BASE REGION_TM_DATA_SIZE .any false

def regSmmCodeInit : PmpTable → Option (PmpTable × Nat) :=
  regRegion REGION_SMM_CODE_BASE REGION_SMM_CODE_SIZE .any false

def regSmmDataInit : PmpTable → Option (PmpTable × Nat) :=
  regRegion REGION_SMM_DATA_BASE REGION_SMM_DATA_SIZE .any false

def regDeviceInit : PmpTable → Option (PmpTable × Nat) :=
  regRegion REGION_DEVICE_BASE REGION_DEVICE_SIZE .any false

def osmInit : PmpTable → Option (PmpTable × Nat) := regRegion 0 (-1) .bottom true

/-- The region ids `sm.c` keeps. `sp1_region_id` is never assigned and stays 0. -/
structure RegionIds where
  tmCode : Nat
  tmData : Nat
  smCode : Nat
  smData : Nat
  dev : Nat
  os : Nat
  sp1 : Nat
deriving DecidableEq, Repr

/-- The cold-boot part of `sm_init`; `none` stands for `sbi_hart_hang`. -/
def smInitRegions (t : PmpTable) : Option (PmpTable × RegionIds) := do
  let (t, tmCode) ← regTmCodeInit t
  let (t, tmData) ← regTmDataInit t
  let (t, smCode) ← regSmmCodeInit t
  let (t, smData) ← regSmmDataInit t
  let (t, dev) ← regDeviceInit t
  let (t, os) ← osmInit t
  pure (t, ⟨tmCode, tmData, smCode, smData, dev, os, 0⟩)

/-- The regions of a table after boot. -/
def bootTable : PmpTable :=
  match smInitRegions PmpTable.empty with
  | some (t, _) => t
  | none => PmpTable.empty

/-- The region ids after boot. -/
def bootIds : RegionIds :=
  match smInitRegions PmpTable.empty with
  | some (_, ids) => ids
  | none => ⟨0, 0, 0, 0, 0, 0, 0⟩

/-- The calls of `pmp_region_init_atomic` that the cold boot makes. -/
def bootCalls : List PmpCall :=
  [.init REGION_TM_CODE_BASE REGION_TM_CODE_SIZE .top false,
   .init REGION_TM_DATA_BASE REGION_TM_DATA_SIZE .any false,
   .init REGION_SMM_CODE_BASE REGION_SMM_CODE_SIZE .any false,
   .init REGION_SMM_DATA_BASE REGION_SMM_DATA_SIZE .any false,
   .init REGION_DEVICE_BASE REGION_DEVICE_SIZE .any false,
   .init 0 (-1) .bottom true]

/-- The call does not release a region of `sm_init`, which have the ids below 6. -/
def PmpCall.AfterBoot : PmpCall → Prop
  | .init .. => True
  | .free regionIdx => bootCalls.length ≤ regionIdx

/-! ## Programming a hart -/

/-- The PMP registers of a hart after reset. -/
def resetRegs : PmpRegs := ⟨fun _ => 0, fun _ => 0⟩

/-- The calls of `pmp_set_keystone` that every hart makes in `sm_init`, in order. -/
def smInitSets (ids : RegionIds) : List (Nat × Byte) :=
  [(ids.tmCode, EPMP_M_RX), (ids.tmData, EPMP_M_RW), (ids.smCode, PMP_NO_PERM),
   (ids.smData, PMP_NO_PERM), (ids.sp1, PMP_NO_PERM), (ids.os, EPMP_ALL_RW),
   -- after `epmp_activate`
   (ids.dev, EPMP_ALL_RW), (ids.tmCode, EPMP_M_RX), (ids.tmData, EPMP_M_RW),
   (ids.smCode, PMP_NO_PERM), (ids.smData, PMP_NO_PERM), (ids.dev, EPMP_ALL_RW),
   (ids.os, EPMP_ALL_RW)]

/-- The part of `sm_init` every hart executes, on its PMP registers. -/
def smInitHart (t : PmpTable) (ids : RegionIds) (r : PmpRegs) : PmpRegs :=
  (smInitSets ids).foldl (fun r c => (pmpSetKeystone t r c.1 c.2).1) (pmpInit r)

end Dorami.Sm
