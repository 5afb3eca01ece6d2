import Dorami.Sm.Status

/-!
# PMP regions (`pmp.c`, `pmp.h`)

The region table with its two bitmaps, the allocation and release of regions, and the programming of
a hart's PMP registers for a region.

`sm_assert` only prints a message here and is left out, as are the messages of `PMP_ERROR`; the
status each error returns is kept. The spin lock around the `_atomic` functions makes each of them
one step, so `pmp_region_init_atomic` and `pmp_region_init` are the same function of the table.
-/

namespace Dorami.Sm

open Riscv

def PMP_N_REG : Nat := 8
def PMP_MAX_N_REGION : Nat := 8
def PMP_PER_GROUP : Nat := 8
def RISCV_PGSIZE : Word := 4096

def PMP_NO_PERM : Byte := 0
def EPMP_ALL_ALL_PERM : Byte := PMP_L ||| PMP_W ||| PMP_X ||| PMP_R
def EPMP_ALL_RW : Byte := PMP_W ||| PMP_R
def EPMP_M_RX : Byte := PMP_X ||| PMP_R
def EPMP_M_RW : Byte := PMP_W ||| PMP_R
def EPMP_SU_RWX : Byte := PMP_W ||| PMP_X ||| PMP_R

/-- `enum pmp_priority`. -/
inductive PmpPriority where
  | any
  | top
  | bottom
deriving DecidableEq, Repr

/-- `struct pmp_region`. Only whether `allow_overlap` is zero is ever looked at. -/
structure PmpRegion where
  size : Word
  addrmode : Byte
  addr : Word
  allowOverlap : Bool
  regIdx : Nat
deriving DecidableEq, Repr

/-- `regions[]`, `reg_bitmap` and `region_def_bitmap`. -/
structure PmpTable where
  regions : Nat → PmpRegion
  regBitmap : BitVec 32
  regionDefBitmap : BitVec 32

/-! ## Bitmaps -/

def setBit (bitmap : BitVec 32) (n : Nat) : BitVec 32 := bitmap ||| (1#32 <<< n)

def unsetBit (bitmap : BitVec 32) (n : Nat) : BitVec 32 := bitmap &&& ~~~(1#32 <<< n)

def testBit (bitmap : BitVec 32) (n : Nat) : Bool := bitmap &&& (1#32 <<< n) != 0

/-- The loop of `search_rightmost_unset`, which runs at most `max` times: `mask` starts at 1 or more
and doubles at each turn. -/
def searchRightmostUnsetLoop (bitmap : BitVec 32) (max : Nat) :
    (fuel : Nat) → (i : Nat) → (mask : BitVec 32) → Option Nat
  | 0, _, _ => none
  | fuel + 1, i, mask =>
    if mask.toNat < 2 ^ max then
      if ~~~bitmap &&& mask = mask then some i
      else searchRightmostUnsetLoop bitmap max fuel (i + 1) (mask <<< 1)
    else none

/-- The lowest position at which all bits of `mask` are unset; `none` stands for -1. -/
def searchRightmostUnset (bitmap : BitVec 32) (max : Nat) (mask : BitVec 32) : Option Nat :=
  searchRightmostUnsetLoop bitmap max max 0 mask

/-! ## The region table -/

/-- A region slot after `region_clear_all`, and before its first use. -/
def PmpRegion.clear : PmpRegion := ⟨0, 0, 0, false, 0⟩

namespace PmpRegion

variable (r : PmpRegion)

def isNapot : Bool := r.addrmode == PMP_A_NAPOT

def isTor : Bool := r.addrmode == PMP_A_TOR

def needsTwoEntries : Bool := r.isTor && decide (0 < r.regIdx)

def isNapotAll : Bool := r.addr == 0 && r.size == -1

/-- `region_pmpaddr_val`. -/
def pmpaddrVal : Word :=
  if r.isNapotAll then -1
  else if r.isNapot then (r.addr ||| (r.size / 2 - 1)) >>> 2
  else if r.isTor then (r.addr + r.size) >>> 2
  else 0

/-- `region_pmpcfg_val`. -/
def pmpcfgVal (regIdx : Nat) (permBits : Byte) : Word :=
  (r.addrmode ||| permBits).setWidth 64 <<< (8 * (regIdx % PMP_PER_GROUP))

end PmpRegion

/-- The range is the whole address space or naturally aligned, so that one NAPOT entry covers it. -/
def isNapotRange (start size : Word) : Bool :=
  (size == -1 && start == 0) || (size &&& (size - 1) == 0 && start &&& (size - 1) == 0)

namespace PmpTable

variable (t : PmpTable)

/-- The table before any region exists. -/
def empty : PmpTable := ⟨fun _ => PmpRegion.clear, 0, 0⟩

def isPmpRegionValid (regionIdx : Nat) : Bool := testBit t.regionDefBitmap regionIdx

def getFreeRegionIdx : Option Nat := searchRightmostUnset t.regionDefBitmap PMP_MAX_N_REGION 1

def getFreeRegIdx : Option Nat := searchRightmostUnset t.regBitmap PMP_N_REG 1

def getConseqFreeRegIdx : Option Nat := searchRightmostUnset t.regBitmap PMP_N_REG 3

def setRegion (i : Nat) (r : PmpRegion) : Nat → PmpRegion :=
  fun j => if j = i then r else t.regions j

/-- `region_init`: a TOR region above register 0 is known by the upper of its two registers. -/
def regionInit (addr size : Word) (addrmode : Byte) (allowOverlap : Bool) (regIdx : Nat) :
    PmpRegion :=
  { size := size
    addrmode := addrmode
    addr := addr
    allowOverlap := allowOverlap
    regIdx := if addrmode = PMP_A_TOR ∧ 0 < regIdx then regIdx + 1 else regIdx }

/-- `detect_region_overlap`. The sum of a stored region's base and size is not checked. -/
def detectRegionOverlap (addr size : Word) : Bool :=
  if 2 ^ 64 ≤ addr.toNat + size.toNat then true
  else
    let inputEnd := addr + size
    (List.range PMP_MAX_N_REGION).any fun i =>
      t.isPmpRegionValid i && !(t.regions i).allowOverlap &&
        (decide ((t.regions i).addr < inputEnd) &&
          decide ((t.regions i).addr + (t.regions i).size > addr))

/-- The end of `tor_region_init`: the region and its registers are recorded. -/
def addTorRegion (regionIdx : Nat) (start size : Word) (allowOverlap : Bool) (regIdx : Nat) :
    PmpTable :=
  let bitmap := setBit t.regBitmap regIdx
  { regions := t.setRegion regionIdx (regionInit start size PMP_A_TOR allowOverlap regIdx)
    regionDefBitmap := setBit t.regionDefBitmap regionIdx
    regBitmap := if 0 < regIdx then setBit bitmap (regIdx + 1) else bitmap }

/-- `tor_region_init`. Its caller never passes the bottom priority. -/
def torRegionInit (start size : Word) (priority : PmpPriority) (allowOverlap : Bool) :
    PmpTable × Except SmStatus Nat :=
  match t.getFreeRegionIdx with
  | none => (t, .error .pmpRegionMaxReached)
  | some regionIdx =>
    if regionIdx > PMP_MAX_N_REGION then (t, .error .pmpRegionMaxReached)
    else
      match priority with
      | .any =>
        match t.getConseqFreeRegIdx with
        | none => (t, .error .pmpRegionMaxReached)
        | some regIdx =>
          if testBit t.regBitmap regIdx || testBit t.regBitmap (regIdx + 1) ||
              decide (PMP_N_REG ≤ regIdx + 1) then
            (t, .error .pmpRegionMaxReached)
          else (t.addTorRegion regionIdx start size allowOverlap regIdx, .ok regionIdx)
      | .top =>
        if testBit t.regBitmap 0 then (t, .error .pmpRegionMaxReached)
        else (t.addTorRegion regionIdx start size allowOverlap 0, .ok regionIdx)
      | .bottom => (t, .error .pmpRegionImpossibleTor)

/-- The end of `napot_region_init`: the region and its register are recorded. -/
def addNapotRegion (regionIdx : Nat) (start size : Word) (allowOverlap : Bool) (regIdx : Nat) :
    PmpTable :=
  { regions := t.setRegion regionIdx (regionInit start size PMP_A_NAPOT allowOverlap regIdx)
    regionDefBitmap := setBit t.regionDefBitmap regionIdx
    regBitmap := setBit t.regBitmap regIdx }

/-- `napot_region_init`. The bottom register can be used by several regions, so its availability is
not checked. -/
def napotRegionInit (start size : Word) (priority : PmpPriority) (allowOverlap : Bool) :
    PmpTable × Except SmStatus Nat :=
  match t.getFreeRegionIdx with
  | none => (t, .error .pmpRegionMaxReached)
  | some regionIdx =>
    if regionIdx > PMP_MAX_N_REGION then (t, .error .pmpRegionMaxReached)
    else
      match priority with
      | .any =>
        match t.getFreeRegIdx with
        | none => (t, .error .pmpRegionMaxReached)
        | some regIdx =>
          if testBit t.regBitmap regIdx || decide (PMP_N_REG ≤ regIdx) then
            (t, .error .pmpRegionMaxReached)
          else (t.addNapotRegion regionIdx start size allowOverlap regIdx, .ok regionIdx)
      | .top =>
        if testBit t.regBitmap 0 then (t, .error .pmpRegionMaxReached)
        else (t.addNapotRegion regionIdx start size allowOverlap 0, .ok regionIdx)
      | .bottom =>
        (t.addNapotRegion regionIdx start size allowOverlap (PMP_N_REG - 1), .ok regionIdx)

/-- `pmp_region_init`: the table after the call and the status or the id of the new region. -/
def pmpRegionInit (start size : Word) (priority : PmpPriority) (allowOverlap : Bool) :
    PmpTable × Except SmStatus Nat :=
  if size = 0 then (t, .error .pmpRegionSizeInvalid)
  else if !allowOverlap && t.detectRegionOverlap start size then (t, .error .pmpRegionOverlap)
  else if size ≠ -1 ∧ size &&& (RISCV_PGSIZE - 1) ≠ 0 then
    (t, .error .pmpRegionNotPageGranularity)
  else if start &&& (RISCV_PGSIZE - 1) ≠ 0 then (t, .error .pmpRegionNotPageGranularity)
  else if isNapotRange start size then
    t.napotRegionInit start size priority allowOverlap
  else if priority ≠ .any ∧ (priority ≠ .top ∨ start ≠ 0) then
    (t, .error .pmpRegionImpossibleTor)
  else t.torRegionInit start size priority allowOverlap

/-- `pmp_region_free_atomic`: it clears the bits of the region's registers, whichever priority the
region was created with. -/
def pmpRegionFree (regionIdx : Nat) : PmpTable × SmStatus :=
  if !t.isPmpRegionValid regionIdx then (t, .pmpRegionInvalid)
  else
    let r := t.regions regionIdx
    let bitmap := unsetBit t.regBitmap r.regIdx
    ({ regions := t.setRegion regionIdx PmpRegion.clear
       regionDefBitmap := unsetBit t.regionDefBitmap regionIdx
       regBitmap := if r.needsTwoEntries then unsetBit bitmap (r.regIdx - 1) else bitmap },
     .success)

def pmpRegionGetAddr (i : Nat) : Word := if t.isPmpRegionValid i then (t.regions i).addr else 0

def pmpRegionGetSize (i : Nat) : Word := if t.isPmpRegionValid i then (t.regions i).size else 0

end PmpTable

/-- A call of the two functions that change the table. -/
inductive PmpCall where
  | init (start size : Word) (priority : PmpPriority) (allowOverlap : Bool)
  | free (regionIdx : Fin PMP_MAX_N_REGION)
deriving DecidableEq, Repr

/-- The table after a call. -/
def PmpTable.step (t : PmpTable) : PmpCall → PmpTable
  | .init start size priority allowOverlap => (t.pmpRegionInit start size priority allowOverlap).1
  | .free regionIdx => (t.pmpRegionFree regionIdx).1

/-! ## Programming the registers of a hart -/

/-- The configuration CSR that holds entry `n` (the `g` of `LIST_OF_PMP_REGS`). -/
def pmpGroup (n : Nat) : Nat := if n < 8 then 0 else 2

/-- The byte of entry `n` in its configuration CSR. -/
def cfgMask (n : Nat) : Word := 0xff#64 <<< (8 * (n % PMP_PER_GROUP))

/-- A write of `pmpaddr n` and of the configuration CSR of entry `n`. The register lists of `pmp.h`
end at entry 15; for any other `n` nothing is written. -/
def writePmp (r : PmpRegs) (n : Nat) (addr cfg : Word) : PmpRegs :=
  if n < 16 then
    { pmpcfg := fun g => if g = pmpGroup n then cfg else r.pmpcfg g
      pmpaddr := fun m => if m = n then addr else r.pmpaddr m }
  else r

/-- The configuration word `PMP_SET` writes: `pmpc` merged with the other bytes of the old one. -/
def pmpSetCfg (r : PmpRegs) (n : Nat) (pmpc : Word) : Word :=
  pmpc ||| (r.pmpcfg (pmpGroup n) &&& ~~~cfgMask n)

/-- `PMP_SET`. -/
def pmpSet (r : PmpRegs) (n : Nat) (addr pmpc : Word) : PmpRegs :=
  writePmp r n addr (pmpSetCfg r n pmpc)

/-- `PMP_UNSET`. -/
def pmpUnsetReg (r : PmpRegs) (n : Nat) : PmpRegs :=
  writePmp r n 0 (r.pmpcfg (pmpGroup n) &&& ~~~cfgMask n)

/-- `pmp_init`. The configuration word is carried from one `PMP_SET` to the next, so bytes that are
not zero at the start stay. -/
def pmpInit (r : PmpRegs) : PmpRegs :=
  ((List.range PMP_N_REG).foldl
    (fun (acc : PmpRegs × Word) n =>
      let cfg := pmpSetCfg acc.1 n acc.2
      (writePmp acc.1 n 0 cfg, cfg)) (r, 0)).1

/-- `pmp_set_keystone` on the registers `r` of the calling hart. -/
def pmpSetKeystone (t : PmpTable) (r : PmpRegs) (regionIdx : Nat) (perm : Byte) :
    PmpRegs × SmStatus :=
  if !t.isPmpRegionValid regionIdx then (r, .pmpRegionInvalid)
  else
    let region := t.regions regionIdx
    let permBits := perm &&& EPMP_ALL_ALL_PERM
    let n := region.regIdx
    let r := pmpSet r n region.pmpaddrVal (region.pmpcfgVal n permBits)
    -- TOR decoding with two registers
    if region.needsTwoEntries then (pmpSet r (n - 1) (region.addr >>> 2) 0, .success)
    else (r, .success)

/-- `pmp_unset` on the registers `r` of the calling hart. -/
def pmpUnset (t : PmpTable) (r : PmpRegs) (regionIdx : Nat) : PmpRegs × SmStatus :=
  if !t.isPmpRegionValid regionIdx then (r, .pmpRegionInvalid)
  else
    let region := t.regions regionIdx
    let n := region.regIdx
    let r := pmpUnsetReg r n
    if region.needsTwoEntries then (pmpUnsetReg r (n - 1), .success) else (r, .success)

end Dorami.Sm
