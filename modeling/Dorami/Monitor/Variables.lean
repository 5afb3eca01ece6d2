import Dorami.Lib.Fields
import Dorami.Monitor.Assembly
import Dorami.Monitor.Calls
import Dorami.Sm.Sealing

/-!
# The variables of the monitor in memory

The static variables of the monitor lie in its data range, and not only the monitor's own code
writes there: `copy_from_sm` stores a report wherever S-mode may write, `get_sealing_key` and
`sm_derive_sealing_key` store with M-mode's rights at addresses they are given, S/U mode itself has
write access to the range, and `_mon_enter_osbi` builds the frame of an OpenSBI whose `mstatus.MPP`
is M below the stack pointer OpenSBI leaves.

`Layout` says where the linker puts the variables. A store that reaches one of them changes the
record of the state (`Monitor.write`), and everything that runs afterwards, the rest of the same
call included, finds the new values. Reads through the memory do not see the variables, and partial
stores to a truth value are followed one at a time.

`stepIn` is the step of the system with such stores, and `KeepsOff` the condition that a step makes
none.
-/

namespace Dorami

open Riscv Sm Lib

/-! ## Layout -/

/-- Where the variables of the monitor are. `rest` are the ranges of those whose values are not
followed: the stacks, the locks, the mailboxes and the ids of the regions `sm_init` creates. -/
structure Layout where
  /-- `regions[]`, `reg_bitmap` and `region_def_bitmap` (`pmp.c`). -/
  regions : Word
  regBitmap : Word
  regionDefBitmap : Word
  /-- `enclaves[]` and `ocall_info[]` (`enclave.c`). -/
  enclaves : Word
  ocallInfo : Word
  /-- `cpus[]` (`cpu.c`). -/
  cpus : Word
  /-- The arrays of `dorami_main.c`, with an entry for each `mhartid`. -/
  temporaryRegisters : Word
  temporaryInfos : Word
  monEnclaveExecution : Word
  osbiMscratch : Word
  sscratchDoubleSave : Word
  sscratchDoubleSaveEnclave : Word
  suStarted : Word
  /-- The hashes and keys of `sm.c`. -/
  smHash : Word
  smSignature : Word
  smPublicKey : Word
  smPrivateKey : Word
  devPublicKey : Word
  /-- The `w` of `platform_random`. -/
  randomW : Word
  /-- The frames the entry code builds for traps from S/U mode. -/
  frame : HartId → Word
  rest : List (Word × Nat)

/-- `sizeof(struct pmp_region)`. -/
def pmpRegionSize : Nat := 32

/-- `sizeof(struct enclave)`. -/
def enclaveSize : Nat := 664

/-- `sizeof(struct sbi_trap_regs)`. -/
def trapRegsSize : Nat := 296

/-- `sizeof(struct sbi_trap_info)`. -/
def trapInfoSize : Nat := 40

/-- `MAX_HARTS`, the length of `cpus[]`. -/
def MAX_HARTS : Nat := 16

/-- The length of the per-hart arrays. -/
def hartSlots : Nat := 5

/-- The index of a hart in these arrays: its `mhartid`. -/
def hartIndex (h : HartId) : Nat := h + 1

namespace Layout

variable (L : Layout)

/-- The variables, each with its address and its size. -/
def ranges : List (Word × Nat) :=
  [(L.regions, pmpRegionSize * PMP_MAX_N_REGION), (L.regBitmap, 4), (L.regionDefBitmap, 4),
   (L.enclaves, enclaveSize * ENCL_MAX), (L.ocallInfo, 8 * hartSlots), (L.cpus, 8 * MAX_HARTS),
   (L.temporaryRegisters, trapRegsSize * hartSlots), (L.temporaryInfos, trapInfoSize * hartSlots),
   (L.monEnclaveExecution, 4 * hartSlots), (L.osbiMscratch, 8 * hartSlots),
   (L.sscratchDoubleSave, 8 * hartSlots), (L.sscratchDoubleSaveEnclave, 8 * hartSlots),
   (L.suStarted, 4 * hartSlots), (L.smHash, MDSIZE), (L.smSignature, SIGNATURE_SIZE),
   (L.smPublicKey, PUBLIC_KEY_SIZE), (L.smPrivateKey, PRIVATE_KEY_SIZE),
   (L.devPublicKey, PUBLIC_KEY_SIZE), (L.randomW, 8)] ++
    (List.finRange 4).map (fun h => (L.frame h, trapRegsSize)) ++ L.rest

/-- The bytes of the variables. -/
def vars : Set Word := {a | ∃ r ∈ L.ranges, InBytes r.1 r.2 a}

instance varsDecidable (a : Word) : Decidable (a ∈ L.vars) :=
  inferInstanceAs (Decidable (∃ r ∈ L.ranges, InBytes r.1 r.2 a))

/-- `&temporary_registers[mhartid]`. -/
def parked (h : HartId) : Word :=
  L.temporaryRegisters + BitVec.ofNat 64 (trapRegsSize * hartIndex h)

/-- `&temporary_infos[mhartid].cause`. -/
def cause (h : HartId) : Word :=
  L.temporaryInfos + BitVec.ofNat 64 (trapInfoSize * hartIndex h + 8)

/-- `&SU_started[mhartid]`. -/
def started (h : HartId) : Word := L.suStarted + BitVec.ofNat 64 (4 * hartIndex h)

end Layout

/-! ## Stores onto variables -/

def EnclaveState.ofInt (value : Int) : EnclaveState :=
  if value = -1 then .invalid
  else if value = 0 then .destroying
  else if value = 1 then .allocated
  else if value = 2 then .fresh
  else if value = 3 then .stopped
  else if value = 4 then .running
  else .unnamed value

/-- A type that is none of the enumeration is treated like `REGION_OTHER`. -/
def RegionType.ofNat : Nat → RegionType
  | 0 => .invalid
  | 1 => .epm
  | 2 => .utm
  | _ => .other

def RegionType.toNat : RegionType → Nat
  | .invalid => 0
  | .epm => 1
  | .utm => 2
  | .other => 3

/-- The layouts of the members. -/
def wordCodec : Codec Word := Codec.bits 64 8
def intCodec : Codec Nat := Codec.nat 4

def stateCodec : Codec EnclaveState :=
  (Codec.bits 32 4).map (fun s => BitVec.ofInt 32 s.rank) (fun v => EnclaveState.ofInt v.toInt)

def typeCodec : Codec RegionType := (Codec.nat 4).map RegionType.toNat RegionType.ofNat

section Patch

variable (base : Word) (ss : List (Word × Byte))

/-- `struct pmp_region`. -/
def Sm.PmpRegion.patch (r : PmpRegion) : PmpRegion :=
  { size := wordCodec.patchAt base ss r.size 0
    addrmode := (Codec.bits 8 1).patchAt base ss r.addrmode 8
    addr := wordCodec.patchAt base ss r.addr 16
    allowOverlap := Codec.flag.patchAt base ss r.allowOverlap 24
    regIdx := intCodec.patchAt base ss r.regIdx 28 }

/-- `struct runtime_params_t`. -/
def Sm.RuntimeParams.patch (p : RuntimeParams) : RuntimeParams :=
  { dramBase := wordCodec.patchAt base ss p.dramBase 216
    dramSize := wordCodec.patchAt base ss p.dramSize 224
    runtimeBase := wordCodec.patchAt base ss p.runtimeBase 232
    userBase := wordCodec.patchAt base ss p.userBase 240
    freeBase := wordCodec.patchAt base ss p.freeBase 248
    untrustedBase := wordCodec.patchAt base ss p.untrustedBase 256
    untrustedSize := wordCodec.patchAt base ss p.untrustedSize 264
    freeRequested := wordCodec.patchAt base ss p.freeRequested 272 }

/-- `struct csrs`. -/
def Sm.Csrs.patch (c : Csrs) : Csrs :=
  { sstatus := wordCodec.patchAt base ss c.sstatus 312
    sedeleg := wordCodec.patchAt base ss c.sedeleg 320
    sideleg := wordCodec.patchAt base ss c.sideleg 328
    sie := wordCodec.patchAt base ss c.sie 336
    stvec := wordCodec.patchAt base ss c.stvec 344
    scounteren := wordCodec.patchAt base ss c.scounteren 352
    sscratch := wordCodec.patchAt base ss c.sscratch 360
    sepc := wordCodec.patchAt base ss c.sepc 368
    scause := wordCodec.patchAt base ss c.scause 376
    stval := wordCodec.patchAt base ss c.stval 384
    sip := wordCodec.patchAt base ss c.sip 392
    satp := wordCodec.patchAt base ss c.satp 400 }

/-- `struct thread_state`. -/
def Sm.ThreadState.patch (t : ThreadState) : ThreadState :=
  { prevMpp := (Codec.bits 64 4).patchAt base ss t.prevMpp 288
    prevMepc := wordCodec.patchAt base ss t.prevMepc 296
    prevMstatus := wordCodec.patchAt base ss t.prevMstatus 304
    prevCsrs := t.prevCsrs.patch base ss
    prevState := fun i => wordCodec.patchAt base ss (t.prevState i) (408 + 8 * i) }

/-- `struct enclave`, the parts of which have their offsets in it. -/
def Sm.Enclave.patch (en : Enclave) : Enclave :=
  { eid := intCodec.patchAt base ss en.eid 0
    enclSatp := wordCodec.patchAt base ss en.enclSatp 8
    state := stateCodec.patchAt base ss en.state 16
    regions := fun i =>
      if i < ENCLAVE_REGIONS_MAX then
        ⟨intCodec.patchAt base ss (en.regions i).pmpRid (20 + 8 * i),
          typeCodec.patchAt base ss (en.regions i).type (24 + 8 * i)⟩
      else en.regions i
    hash := (Codec.bytes MDSIZE).patchAt base ss en.hash 84
    params := en.params.patch base ss
    nThread := (Codec.bits 32 4).patchAt base ss en.nThread 280
    thread := en.thread.patch base ss }

/-- `struct sbi_trap_regs`. -/
def Sm.TrapRegs.patch (r : TrapRegs) : TrapRegs :=
  { gpr := fun i => wordCodec.patchAt base ss (r.gpr i) (8 * i)
    mepc := wordCodec.patchAt base ss r.mepc 256
    mstatus := wordCodec.patchAt base ss r.mstatus 264
    mstatusH := wordCodec.patchAt base ss r.mstatusH 272
    mscratch := wordCodec.patchAt base ss r.mscratch 280
    sscratch := wordCodec.patchAt base ss r.sscratch 288 }

end Patch

namespace Layout

variable (L : Layout) (ss : List (Word × Byte))

/-- The variables of `pmp.c`. -/
def patchTable (t : PmpTable) : PmpTable :=
  { regions := fun i =>
      if i < PMP_MAX_N_REGION then
        (t.regions i).patch (L.regions + BitVec.ofNat 64 (pmpRegionSize * i)) ss
      else t.regions i
    regBitmap := (Codec.bits 32 4).patch L.regBitmap ss t.regBitmap
    regionDefBitmap := (Codec.bits 32 4).patch L.regionDefBitmap ss t.regionDefBitmap }

/-- An entry of `enclaves[]`. -/
def patchEnclave (e : Nat) (en : Enclave) : Enclave :=
  if e < ENCL_MAX then en.patch (L.enclaves + BitVec.ofNat 64 (enclaveSize * e)) ss else en

/-- The entries of the per-hart arrays. -/
def patchHart (h : HartId) (hs : HartState) : HartState :=
  { hs with
    isEnclave := Codec.flag.patchAt L.cpus ss hs.isEnclave (8 * hartIndex h)
    eid := intCodec.patchAt L.cpus ss hs.eid (8 * hartIndex h + 4)
    monEnclaveExecution :=
      Codec.flag.patchAt L.monEnclaveExecution ss hs.monEnclaveExecution (4 * hartIndex h)
    suStarted := Codec.flag.patchAt L.suStarted ss hs.suStarted (4 * hartIndex h)
    osbiMscratch := wordCodec.patchAt L.osbiMscratch ss hs.osbiMscratch (8 * hartIndex h)
    sscratchDoubleSave :=
      wordCodec.patchAt L.sscratchDoubleSave ss hs.sscratchDoubleSave (8 * hartIndex h)
    sscratchDoubleSaveEnclave :=
      wordCodec.patchAt L.sscratchDoubleSaveEnclave ss hs.sscratchDoubleSaveEnclave
        (8 * hartIndex h)
    temporaryRegisters := hs.temporaryRegisters.patch (L.parked h) ss
    temporaryInfo :=
      ⟨wordCodec.patchAt L.temporaryInfos ss hs.temporaryInfo.cause
        (trapInfoSize * hartIndex h + 8),
        wordCodec.patchAt L.temporaryInfos ss hs.temporaryInfo.tval
          (trapInfoSize * hartIndex h + 16)⟩
    ocallInfo := wordCodec.patchAt L.ocallInfo ss hs.ocallInfo (8 * hartIndex h) }

/-- The variables of `sm.c`. -/
def patchKeys (keys : Keys) : Keys :=
  { smHash := (Codec.bytes MDSIZE).patch L.smHash ss keys.smHash
    smSignature := (Codec.bytes SIGNATURE_SIZE).patch L.smSignature ss keys.smSignature
    smPublicKey := (Codec.bytes PUBLIC_KEY_SIZE).patch L.smPublicKey ss keys.smPublicKey
    smPrivateKey := (Codec.bytes PRIVATE_KEY_SIZE).patch L.smPrivateKey ss keys.smPrivateKey
    devPublicKey := (Codec.bytes PUBLIC_KEY_SIZE).patch L.devPublicKey ss keys.devPublicKey }

end Layout

namespace Sm.Monitor

variable (C : Crypto) (L : Layout) (m : Monitor)

/-- The state after stores that are not the monitor's own assignments to its variables. -/
def write (ss : List (Word × Byte)) : Monitor :=
  { table := L.patchTable ss m.table
    enclaves := fun e => L.patchEnclave ss e (m.enclaves e)
    hart := fun h => L.patchHart ss h (m.hart h)
    mem := storeAll m.mem ss
    keys := L.patchKeys ss m.keys
    randomW := wordCodec.patch L.randomW ss m.randomW }

/-! ## Services -/

/-- `attest_enclave`. -/
def attestEnclaveIn (h : HartId) (env : Env) (reportPtr data size : Word) (eid : Nat) :
    Monitor × SmStatus :=
  if size > ATTEST_DATA_MAXLEN then (m, .enclaveIllegalArgument)
  else if !(decide (eid < ENCL_MAX) && (m.enclaves eid).attestable) then
    (m, .enclaveNotInitialized)
  else
    let m := m.pmpSetRegions h eid EPMP_ALL_RW
    match copyToSm env data size.toNat with
    | none => (m, .enclaveNotAccessible)
    | some bytes =>
      let stored := bytes ++ env.reportData.drop size.toNat
      let report := m.reportBytes C (m.enclaves eid) size stored
      let ok := (copyFromSm env m.mem reportPtr report).2
      let m := m.write L (copyStores env reportPtr report)
      -- the loop over the regions finds what the report has left of them
      let m := m.pmpSetRegions h eid EPMP_SU_RWX
      if ok then (m, .success) else (m, .enclaveIllegalArgument)

/-- `sm_derive_sealing_key` with its array `info` at this address: the array is filled, and the key
is derived from what is then in memory. -/
def deriveIn (info keyIdent size : Word) (hash : List Byte) : Monitor × Option (List Byte) :=
  let m := m.write L (byteStores info hash)
  let m := m.write L
    (memcpyStores m.mem (info + BitVec.ofNat 64 MDSIZE) keyIdent size.toNat)
  (m, C.kdf m.keys.smPrivateKey (m.readMem info (infoLen size)) SEALING_KEY_SIZE)

/-- `get_sealing_key`. -/
def getSealingKeyIn (h : HartId) (info sealingKey keyIdent size : Word) (eid : Nat) :
    Monitor × SmStatus :=
  let m := m.pmpSetRegions h eid EPMP_ALL_RW
  match m.deriveIn C L info keyIdent size (m.enclaves eid).hash with
  | (m, none) => (m.pmpSetRegions h eid EPMP_SU_RWX, .enclaveUnknownError)
  | (m, some key) =>
    let m := m.write L (byteStores sealingKey key)
    let m := m.pmpSetRegions h eid EPMP_SU_RWX
    let m := m.pmpSetRegions h eid EPMP_ALL_RW
    let signature := C.sign (m.readMem sealingKey SEALING_KEY_SIZE) m.keys.smPublicKey
      m.keys.smPrivateKey
    let m := m.write L (byteStores (sealingKey + BitVec.ofNat 64 SEALING_KEY_SIZE) signature)
    (m.pmpSetRegions h eid EPMP_SU_RWX, .success)

/-- The service an enclave asks for. -/
def serviceIn (h : HartId) (env : Env) (info : Word) : ServiceCall → Monitor × SmStatus
  | .attest reportPtr data size =>
    m.attestEnclaveIn C L h env reportPtr data size (m.hart h).eid
  | .sealingKey sealingKey keyIdent size =>
    m.getSealingKeyIn C L h info sealingKey keyIdent size (m.hart h).eid

end Sm.Monitor

/-! ## `encl_lock`

`attest_enclave` takes `encl_lock`, drops it while the report is signed and takes it again;
`get_sealing_key` does not use the lock. `Locked` makes the lock part of the state, so that a path
that leaves it held, or waits for it forever, is seen. -/

/-- The monitor and `encl_lock`. -/
structure Sm.Locked where
  monitor : Monitor
  enclLock : Bool

namespace Sm.Locked

variable (C : Crypto) (L : Layout) (s : Locked) (h : HartId) (env : Env)

/-- `spin_lock(&encl_lock)`; a hart that finds the lock held by its own call waits forever. -/
def spinLock : Option Locked := if s.enclLock then none else some { s with enclLock := true }

/-- `spin_unlock(&encl_lock)`. -/
def spinUnlock : Locked := { s with enclLock := false }

/-- `attest_enclave`. -/
def attestEnclave (reportPtr data size : Word) (eid : Nat) : Option (Locked × SmStatus) :=
  if size > ATTEST_DATA_MAXLEN then some (s, .enclaveIllegalArgument)
  else do
    let s ← s.spinLock
    if !(decide (eid < ENCL_MAX) && (s.monitor.enclaves eid).attestable) then
      return (s.spinUnlock, .enclaveNotInitialized)
    else
      let s := { s with monitor := s.monitor.pmpSetRegions h eid EPMP_ALL_RW }
      match copyToSm env data size.toNat with
      | none => return (s.spinUnlock, .enclaveNotAccessible)
      | some bytes =>
        -- the report is put together and signed without the lock
        let s := s.spinUnlock
        let stored := bytes ++ env.reportData.drop size.toNat
        let report := s.monitor.reportBytes C (s.monitor.enclaves eid) size stored
        let s ← s.spinLock
        let ok := (copyFromSm env s.monitor.mem reportPtr report).2
        let s := { s with monitor := s.monitor.write L (copyStores env reportPtr report) }
        let s := { s with monitor := s.monitor.pmpSetRegions h eid EPMP_SU_RWX }
        if !ok then return (s.spinUnlock, .enclaveIllegalArgument)
        else return (s.spinUnlock, .success)

/-- `get_sealing_key`. -/
def getSealingKey (info sealingKey keyIdent size : Word) (eid : Nat) : Option (Locked × SmStatus) :=
  let (m, status) := s.monitor.getSealingKeyIn C L h info sealingKey keyIdent size eid
  some ({ s with monitor := m }, status)

/-- `sbi_sm_attest_enclave` and `sbi_sm_get_sealing_key`: the enclave is the one the hart runs. -/
def service (info : Word) : ServiceCall → Option (Locked × SmStatus)
  | .attest reportPtr data size =>
    s.attestEnclave C L h env reportPtr data size (s.monitor.hart h).eid
  | .sealingKey sealingKey keyIdent size =>
    s.getSealingKey C L h info sealingKey keyIdent size (s.monitor.hart h).eid

end Sm.Locked

/-! ## Traps -/

namespace Sm.Monitor

variable (C : Crypto) (L : Layout) (m : Monitor)

/-- The service a trap asks for. -/
def serviceOf (h : HartId) (t : Trap) : Option ServiceCall :=
  if t.isKeystone then
    match m.requestOf h t with
    | .attest => some (.attest t.regs.a0 t.regs.a1 t.regs.a2)
    | .sealingKey => some (.sealingKey t.regs.a0 t.regs.a1 t.regs.a2)
    | _ => none
  else none

/-- `mon_trap_handler_sumode` on the trap. -/
def trapHandlerIn (h : HartId) (t : Trap) (info : Word) : Monitor × Exit :=
  match m.serviceOf h t with
  | none => m.trapHandler C h t
  | some call =>
    let (m', status) := (m.arrive h t).serviceIn C L h t.env info call
    m.finish h t (m', .ret status.code t.env.outVal)

end Sm.Monitor

/-! ## The frame of OpenSBI -/

namespace Sm.TrapRegs

/-- Member `i` of `struct sbi_trap_regs`. -/
def word (r : TrapRegs) (i : Nat) : Word :=
  if hi : i < 32 then r.gpr ⟨i, hi⟩
  else if i = 32 then r.mepc
  else if i = 33 then r.mstatus
  else if i = 34 then r.mstatusH
  else if i = 35 then r.mscratch
  else r.sscratch

/-- The structure at `p` in memory. -/
def load (mem : Mem) (p : Word) : TrapRegs :=
  { gpr := fun i => mem.load (p + slot i)
    mepc := mem.load (p + slot 32)
    mstatus := mem.load (p + slot 33)
    mstatusH := mem.load (p + slot 34)
    mscratch := mem.load (p + slot 35)
    sscratch := mem.load (p + slot 36) }

/-- The memory with the structure at `p`. -/
def laidOver (r : TrapRegs) (mem : Mem) (p : Word) : Mem := fun a =>
  if InBytes p trapRegsSize a then cfgByte (r.word ((a - p).toNat / 8)) ((a - p).toNat % 8)
  else mem a

/-- The stores of the first `n` members at `p`. -/
def stores (r : TrapRegs) (p : Word) (n : Nat) : List (Word × Byte) :=
  (List.range n).flatMap fun i => byteStores (p + slot i) (wordBytes (r.word i))

/-- Where `_mon_enter_osbi` builds the frame of an OpenSBI that comes with `MPP` = M. -/
def osbiFrame (r : TrapRegs) : Word := r.gpr 2 - BitVec.ofNat 64 trapRegsSize

/-- The structure at `p` has none of the `n` bytes from `base` on. -/
def Misses (p base : Word) (n : Nat) : Prop :=
  ∀ i < trapRegsSize, ¬ InBytes base n (p + BitVec.ofNat 64 i)

instance missesDecidable (p base : Word) (n : Nat) : Decidable (Misses p base n) :=
  inferInstanceAs (Decidable (∀ i < trapRegsSize, _))

end Sm.TrapRegs

namespace Sm.Monitor

variable (C : Crypto) (L : Layout) (m : Monitor) (h : HartId)

/-- `mon_trap_return_osbi` with the frame at `p` in memory. Every member is read when the code reads
it: the frame may overlap `temporary_registers[]`. -/
def monTrapReturnOsbiAt (p : Word) : Monitor × Exit :=
  let hs := m.hart h
  let mcause := hs.temporaryInfo.cause
  let m := m.write L (byteStores (p + slot 36) (wordBytes
    (if hs.monEnclaveExecution then hs.sscratchDoubleSaveEnclave else hs.sscratchDoubleSave)))
  let hs := m.hart h
  let parked := L.parked h
  let mem : Mem := hs.temporaryRegisters.laidOver m.mem parked
  if !hs.suStarted then
    let regs := TrapRegs.load mem p
    (m.setHart h { hs with osbiMscratch := regs.mscratch, suStarted := true }, .firstEntry regs)
  else
    let m := if hs.monEnclaveExecution then m.sbiSmSetEnclavePermissions h else m
    if isInterrupt mcause then
      if irqCode mcause = IRQ_M_TIMER ∨ irqCode mcause = IRQ_M_SOFT then
        (m, .toSu (TrapRegs.load mem p))
      else (m, .hang)
    else if isEcall mcause then
      let mem := mem.store (parked + slot 10) (mem.load (p + slot 10))
      let mem := if mem.load (parked + slot 17) ≤ 0x0F then mem
        else mem.store (parked + slot 11) (mem.load (p + slot 11))
      let mem := mem.store (parked + slot 32) (mem.load (parked + slot 32) + 4)
      let saved := TrapRegs.load mem parked
      (m.setHart h { m.hart h with temporaryRegisters := saved }, .toSu saved)
    else if mcause = CAUSE_ILLEGAL_INSTRUCTION ∨ mcause = CAUSE_MISALIGNED_LOAD ∨
        mcause = CAUSE_MISALIGNED_STORE then (m, .toSu (TrapRegs.load mem p))
    else
      let mem := mem.store (parked + slot 32) (mem.load (p + slot 32))
      let mem := mem.store (parked + slot 33) (mem.load (p + slot 33))
      (m.setHart h { m.hart h with temporaryRegisters := TrapRegs.load mem parked },
        .toSu (TrapRegs.load mem p))

/-- `mon_trap_return_osbi` with the frame OpenSBI leaves. From `MPP` = M the entry code stores all
of its members but `sscratch` below the stack pointer of OpenSBI; otherwise the frame is the one
of the hart. -/
def returnHandlerIn (regs : TrapRegs) : Monitor × Exit :=
  if mppOf regs.mstatus = 3 then
    ((m.writePmpcfg0 h LOCK_OSBI).write L (regs.stores regs.osbiFrame 36)).monTrapReturnOsbiAt L h
      regs.osbiFrame
  else m.returnHandler h regs

end Sm.Monitor

/-! ## Steps -/

/-- An event: a trap, with the address of the array `info` should it ask for a sealing key, the
return of OpenSBI, or the store of a byte in S/U mode. -/
inductive MemInput where
  | trap (h : HartId) (t : Trap) (info : Word)
  | osbiReturn (h : HartId) (regs : TrapRegs)
  | store (h : HartId) (a : Word) (b : Byte)

/-- The hart on which the event takes place. -/
def MemInput.hart : MemInput → HartId
  | .trap h _ _ | .osbiReturn h _ | .store h _ _ => h

/-- The event of the monitor, if it is one. -/
def MemInput.input? : MemInput → Option Input
  | .trap h t _ => some (.trap h t)
  | .osbiReturn h regs => some (.osbiReturn h regs)
  | .store .. => none

namespace Sm.Monitor

variable (C : Crypto) (L : Layout) (m : Monitor)

/-- S/U mode on hart `h` can store at `a`. -/
def canStore (h : HartId) (a : Word) : Prop :=
  (m.hart h).mode = .su ∧ (suPerm (m.hart h).pmp a.toNat).w = true

instance canStoreDecidable (h : HartId) (a : Word) : Decidable (m.canStore h a) :=
  inferInstanceAs (Decidable (_ ∧ _))

/-- One event. -/
def stepIn : MemInput → Monitor
  | .trap h t info =>
    if m.trapEnabled h t then
      let (m', ex) := m.trapHandlerIn C L h t info
      m'.leave h ex
    else m
  | .osbiReturn h regs =>
    if (m.hart h).mode = .osbi then
      let (m', ex) := m.returnHandlerIn L h regs
      m'.leave h ex
    else m
  | .store h a b => if m.canStore h a then m.write L [(a, b)] else m

/-- The stores the monitor makes for the service a trap asks for. -/
def serviceStores (h : HartId) (t : Trap) (info : Word) : List (Word × Byte) :=
  match m.serviceOf h t with
  | none => []
  | some call => m.stores C h t.env info (.service call)

/-- The event stores nothing onto the variables of the monitor: neither the monitor for an enclave
nor S/U mode nor the entry code below the stack pointer OpenSBI leaves. -/
def KeepsOff : MemInput → Prop
  | .trap h t info => m.trapEnabled h t = true → ∀ s ∈ m.serviceStores C h t info, s.1 ∉ L.vars
  | .osbiReturn h regs => (m.hart h).mode = .osbi → mppOf regs.mstatus = 3 →
      ∀ i < trapRegsSize, regs.osbiFrame + BitVec.ofNat 64 i ∉ L.vars
  | .store h a _ => m.canStore h a → a ∉ L.vars

instance keepsOffDecidable : ∀ i, Decidable (m.KeepsOff C L i)
  | .trap h t info => inferInstanceAs (Decidable (m.trapEnabled h t = true →
      ∀ s ∈ m.serviceStores C h t info, s.1 ∉ L.vars))
  | .osbiReturn h regs => inferInstanceAs (Decidable ((m.hart h).mode = .osbi →
      mppOf regs.mstatus = 3 → ∀ i < trapRegsSize, regs.osbiFrame + BitVec.ofNat 64 i ∉ L.vars))
  | .store h a _ => inferInstanceAs (Decidable (m.canStore h a → a ∉ L.vars))

/-- The same event in the model without stores onto variables. -/
def plainStep (i : MemInput) : Monitor :=
  match i.input? with
  | some j => m.step C j
  | none => m

/-- The state occurs in a run from the hand-over to OpenSBI in which no step stores onto the
variables. -/
def ReachableIn : Prop :=
  ∃ mem keys is, StepsOk (stepIn C L) (KeepsOff C L) (handedOver mem keys) is ∧
    m = run (stepIn C L) (handedOver mem keys) is

end Sm.Monitor

end Dorami
