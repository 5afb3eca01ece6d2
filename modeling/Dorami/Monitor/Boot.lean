import Dorami.Sm.Sm
import Dorami.Lib.Run

/-!
# Booting the harts (`monitor.S`, `mon_init.c`, `sm.c`)

The harts start at the same time and run the same code. A first lottery picks the hart that clears
the bss and writes the scratch spaces, while the others wait for `_boot_status`. A second one, in
`mon_init`, picks the hart that registers the regions of `sm_init`, while the others wait for
`sm_init_done`. Then each hart programs its own PMP registers and goes to OpenSBI.

A step is one access of a hart to what the harts share, with the instructions up to the next one.
Both `coldboot_lottery` and `sm_init_done`, and also the region table, are in the bss, so that they
are lost if they are written before the bss is cleared. At reset they hold arbitrary values.
`_reloc_lottery` and `_boot_status` are in the data section.
-/

namespace Dorami.Boot

open Riscv Lib Sm

def NUMBER_HARTS : Nat := 5
def SCRATCH_SIZE : Word := 8192
def BOOT_STATUS_BOOT_HART_DONE : Word := 2

/-- `pmpcfg0` when OpenSBI is entered for the first time. -/
def ENTER_OSBI : Word := 0x1F00001B1B1D181D

/-- What lies in a word of the bss. A variable of several words counts as cleared with
its last one. -/
inductive BssWord
  | coldbootLottery
  | smInitDone
  | tables
  | other
deriving DecidableEq, Repr

/-- `struct mon_scratch`, as far as `mon_init` reads it. -/
structure MonScratch where
  arg0 : Word
  arg1 : Word
  arg2 : Word
deriving DecidableEq, Repr

/-- The next shared access of a hart. -/
inductive BootPc
  | start
  | bssZero (rest : List BssWord)
  | scratchInit (t1 : Nat)
  | fdtRelocDone
  | waitForBootHart
  | startWarm
  | monInit
  /-- `sm_init` with `cold_boot` set, before the region with this number. -/
  | initRegion (k : Nat)
  /-- The loop on `sm_init_done`. -/
  | waitInit
  /-- Before the call of `pmp_set_keystone` with this number. -/
  | program (k : Nat)
  | enterOsbi
  | osbi
  | startHang
deriving DecidableEq, Repr

namespace BootPc

/-- Not yet past `_wait_for_boot_hart`. -/
def waits : BootPc → Prop
  | .start | .waitForBootHart => True
  | _ => False

/-- Not yet past the lottery in `mon_init`. -/
def early : BootPc → Prop
  | .start | .waitForBootHart | .startWarm | .monInit | .startHang => True
  | _ => False

/-- The part of the hart that has won the first lottery. -/
def prepares : BootPc → Prop
  | .bssZero _ | .scratchInit _ | .fdtRelocDone => True
  | _ => False

/-- The part after `sm_init_done` has been seen. -/
def programs : BootPc → Prop
  | .program _ | .enterOsbi | .osbi => True
  | _ => False

/-- Neither preparing nor registering regions. -/
def late : BootPc → Prop
  | .bssZero _ | .scratchInit _ | .fdtRelocDone | .initRegion _ => False
  | _ => True

end BootPc

structure BootHart where
  pc : BootPc
  /-- The scratch space passed to `mon_init`. -/
  scratch : Word
  mscratch : Word
  pmp : PmpRegs
  /-- The registers `a0` to `a2` with which OpenSBI is entered. -/
  args : MonScratch

/-- What differs between two machines: the hart ids, the arguments of the previous boot stage and
the layout of the data. -/
structure BootConfig (H : Type*) where
  mhartid : H → Word
  a1 : H → Word
  a2 : H → Word
  bss : List BssWord
  scratchArea : Word

/-- The variables are in the bss, and hart ids are not negative. -/
structure BootConfig.Ok {H : Type*} (cfg : BootConfig H) : Prop where
  coldbootLottery : .coldbootLottery ∈ cfg.bss
  smInitDone : .smInitDone ∈ cfg.bss
  tables : .tables ∈ cfg.bss
  mhartid : ∀ h, (cfg.mhartid h).toNat < 2 ^ 63

structure Booting (H : Type*) where
  relocLottery : BitVec 32
  bootStatus : Word
  coldbootLottery : Word
  smInitDone : BitVec 32
  table : PmpTable
  ids : RegionIds
  scratch : Word → MonScratch
  scratchAddrs : Nat → Word
  hart : H → BootHart

/-- `_hartid_to_scratch`, and the same in `_scratch_init` and `_start_warm`. -/
def hartidToScratch (scratchArea index : Word) : Word :=
  scratchArea + BitVec.ofNat 64 NUMBER_HARTS * SCRATCH_SIZE - SCRATCH_SIZE * index - SCRATCH_SIZE

/-- The regions of `sm_init`, in order, and where their numbers are kept. -/
def coldInits : List ((PmpTable → Option (PmpTable × Nat)) × (RegionIds → Nat → RegionIds)) :=
  [(regTmCodeInit, fun ids r => { ids with tmCode := r }),
   (regTmDataInit, fun ids r => { ids with tmData := r }),
   (regSmmCodeInit, fun ids r => { ids with smCode := r }),
   (regSmmDataInit, fun ids r => { ids with smData := r }),
   (regDeviceInit, fun ids r => { ids with dev := r }),
   (osmInit, fun ids r => { ids with os := r })]

/-- The region ids in a cleared bss. -/
def zeroIds : RegionIds := ⟨0, 0, 0, 0, 0, 0, 0⟩

namespace Booting

variable {H : Type*} [DecidableEq H] (cfg : BootConfig H) (s : Booting H) (h : H)

def setHart (x : BootHart) : Booting H := { s with hart := Function.update s.hart h x }

def setPc (pc : BootPc) : Booting H := s.setHart h { s.hart h with pc := pc }

def clear : BssWord → Booting H
  | .coldbootLottery => { s with coldbootLottery := 0 }
  | .smInitDone => { s with smInitDone := 0 }
  | .tables => { s with table := PmpTable.empty, ids := zeroIds }
  | .other => s

/-- The scratch space of the hart with index `t1` is filled in, by hart `h`. -/
def initScratch (t1 : Nat) : Booting H :=
  let tp := hartidToScratch cfg.scratchArea (BitVec.ofNat 64 t1)
  { s with
    scratch := Function.update s.scratch tp ⟨BitVec.ofNat 64 t1, cfg.a1 h, cfg.a2 h⟩
    scratchAddrs := Function.update s.scratchAddrs t1 tp }

/-- The next region of `sm_init`; after the last one the others are released. -/
def coldInit (k : Nat) : Booting H :=
  match coldInits[k]? with
  | none => { s with smInitDone := 1 }.setPc h .waitInit
  | some (init, keep) =>
    match init s.table with
    | none => s.setPc h .startHang
    | some (table, region) =>
        { s with table := table, ids := keep s.ids region }.setPc h (.initRegion (k + 1))

/-- The next call of `pmp_set_keystone`. -/
def program (k : Nat) : Booting H :=
  match (smInitSets s.ids)[k]? with
  | none => s.setPc h .enterOsbi
  | some (region, perm) =>
    s.setHart h { s.hart h with
      pc := .program (k + 1), pmp := (pmpSetKeystone s.table (s.hart h).pmp region perm).1 }

/-- The end of `init_coldboot` and `init_warmboot`. -/
def enterOsbi : Booting H :=
  let x := s.hart h
  s.setHart h { x with
    pc := .osbi
    mscratch := 0
    pmp := { x.pmp with pmpcfg := fun g => if g = 0 then ENTER_OSBI else x.pmp.pmpcfg g }
    args := s.scratch x.scratch }

/-- The next shared access of hart `h`. A hart that waits leaves the state as it is. -/
def step : Booting H :=
  match (s.hart h).pc with
  | .start =>
    { s with relocLottery := s.relocLottery + 1 }.setPc h
      (if s.relocLottery = 0 then .bssZero cfg.bss else .waitForBootHart)
  | .bssZero [] => s.setPc h (.scratchInit 0)
  | .bssZero (w :: rest) =>
      (s.clear w).setPc h (if rest = [] then .scratchInit 0 else .bssZero rest)
  | .scratchInit t1 =>
    (s.initScratch cfg h t1).setPc h
      (if t1 + 1 < NUMBER_HARTS then .scratchInit (t1 + 1) else .fdtRelocDone)
  | .fdtRelocDone => { s with bootStatus := BOOT_STATUS_BOOT_HART_DONE }.setPc h .startWarm
  | .waitForBootHart =>
      if s.bootStatus = BOOT_STATUS_BOOT_HART_DONE then s.setPc h .startWarm else s
  | .startWarm =>
    -- the comparison is one of signed numbers
    if (BitVec.ofNat 64 NUMBER_HARTS).sle (cfg.mhartid h) then s.setPc h .startHang
    else
      let tp := hartidToScratch cfg.scratchArea (cfg.mhartid h)
      s.setHart h { s.hart h with pc := .monInit, scratch := tp, mscratch := tp }
  | .monInit =>
    { s with coldbootLottery := 1 }.setPc h
      (if s.coldbootLottery = 0 then .initRegion 0 else .waitInit)
  | .initRegion k => s.coldInit h k
  | .waitInit =>
    if s.smInitDone ≠ 0 then
      s.setHart h { s.hart h with pc := .program 0, pmp := pmpInit (s.hart h).pmp }
    else s
  | .program k => s.program h k
  | .enterOsbi => s.enterOsbi h
  | .osbi => s
  | .startHang => s

/-- All harts are at the reset vector; only the data section has its values. -/
structure AtReset : Prop where
  relocLottery : s.relocLottery = 0
  bootStatus : s.bootStatus = 0
  start : ∀ h, (s.hart h).pc = .start

end Booting

/-- The PMP registers of a hart that enters OpenSBI, which had the registers `r` at reset. -/
def bootPmp (r : PmpRegs) : PmpRegs :=
  let r := smInitHart bootTable bootIds r
  { r with pmpcfg := fun g => if g = 0 then ENTER_OSBI else r.pmpcfg g }

/-- Hart `h` has gone to OpenSBI, with the arguments that hart `w` has kept for it. It had the
registers `r` at reset. -/
structure BootHart.HandedOver {H : Type*} (cfg : BootConfig H) (w h : H) (r : PmpRegs)
    (x : BootHart) :
    Prop where
  pc : x.pc = .osbi
  mhartid : (cfg.mhartid h).toNat < NUMBER_HARTS
  mscratch : x.mscratch = 0
  pmp : x.pmp = bootPmp r
  args : x.args = ⟨cfg.mhartid h, cfg.a1 w, cfg.a2 w⟩

end Dorami.Boot
