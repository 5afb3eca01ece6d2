import Dorami.Sm.Sm
import Dorami.Sm.Thread

/-!
# The state of the monitor (`enclave.h`, `cpu.h` and the variables of `dorami_main.c`)

One record holds what the modules of the monitor keep in static variables, together with the PMP
registers and CSRs of each hart and the memory. The locked sections of `enclave.c` are functions of
one enclave's entry, so that the sequential and the concurrent models share them.
-/

namespace Dorami.Sm

open Riscv

/-- Hart `h` is hart `h + 1` of the platform: the monitor does not use hart 0, and the loops of
`mon_send_sync_ipi` start at 1. -/
abbrev HartId := Fin 4

def ENCL_MAX : Nat := 16
def ENCLAVE_REGIONS_MAX : Nat := 8
def MAX_ENCL_THREADS : BitVec 32 := 1
def ATTEST_DATA_MAXLEN : Word := 1024
def MDSIZE : Nat := 64
def SEALING_KEY_SIZE : Nat := 128

/-! ## Enclaves -/

/-- `enclave_state`. The monitor itself stores none but the named values. -/
inductive EnclaveState where
  | invalid
  | destroying
  | allocated
  | fresh
  | stopped
  | running
  | unnamed (value : Int)
deriving DecidableEq, Repr

/-- The number `enclave.h` gives a state; the code compares states by it. -/
def EnclaveState.rank : EnclaveState → Int
  | invalid => -1
  | destroying => 0
  | allocated => 1
  | fresh => 2
  | stopped => 3
  | running => 4
  | unnamed value => value

/-- `enum enclave_region_type`. -/
inductive RegionType where
  | invalid
  | epm
  | utm
  | other
deriving DecidableEq, Repr

/-- `struct enclave_region`. -/
structure EnclaveRegion where
  pmpRid : Nat
  type : RegionType
deriving DecidableEq, Repr

/-- `struct runtime_params_t`. -/
structure RuntimeParams where
  dramBase : Word
  dramSize : Word
  runtimeBase : Word
  userBase : Word
  freeBase : Word
  untrustedBase : Word
  untrustedSize : Word
  freeRequested : Word
deriving DecidableEq, Repr

def RuntimeParams.zero : RuntimeParams := ⟨0, 0, 0, 0, 0, 0, 0, 0⟩

/-- The members of `struct enclave` that say what may be done with the enclave and which memory it
has. -/
structure EnclaveCore where
  state : EnclaveState
  regions : Nat → EnclaveRegion
  params : RuntimeParams
  nThread : BitVec 32

/-- `struct enclave`. Its signature and platform data are never used. -/
structure Enclave extends EnclaveCore where
  eid : Nat
  enclSatp : Word
  hash : List Byte
  thread : ThreadState

/-- An entry of `enclaves[]` after `enclave_init_metadata`. -/
def Enclave.init : Enclave :=
  { state := .invalid
    regions := fun _ => ⟨0, .invalid⟩
    params := RuntimeParams.zero
    nThread := 0
    eid := 0
    enclSatp := 0
    hash := List.replicate MDSIZE 0
    thread := ThreadState.zero }

namespace EnclaveCore

variable (en : EnclaveCore)

/-- The test of `state` in `ENCLAVE_EXISTS`. -/
def present : Bool := decide (0 ≤ en.state.rank)

/-! The tests made under `encl_lock`, and the updates that follow them there. -/

def destroyable : Bool := en.present && decide (en.state.rank ≤ EnclaveState.stopped.rank)

def runable : Bool := en.present && en.state == .fresh

def resumable : Bool :=
  en.present && (en.state == .running || en.state == .stopped) &&
    decide (en.nThread < MAX_ENCL_THREADS)

/-- `stoppable` and `exitable`. -/
def stoppable : Bool := en.state == .running

def attestable : Bool := en.present && decide (EnclaveState.fresh.rank ≤ en.state.rank)

/-- The update of `run_enclave` and `resume_enclave`. -/
def enter : EnclaveCore := { en with state := .running, nThread := en.nThread + 1 }

/-- The update of `stop_enclave` and `exit_enclave`. -/
def leave : EnclaveCore :=
  { en with
    nThread := en.nThread - 1
    state := if en.nThread - 1 = 0 then .stopped else en.state }

def setState (s : EnclaveState) : EnclaveCore := { en with state := s }

/-- The members a created enclave gets; entries 2 and up of its regions are left as they are. -/
def create (region sharedRegion : Nat) (params : RuntimeParams) : EnclaveCore :=
  { en with
    regions := fun i =>
      if i = 0 then ⟨region, .epm⟩ else if i = 1 then ⟨sharedRegion, .utm⟩ else en.regions i
    params := params
    nThread := 0 }

/-- The members a destroyed enclave is left with. -/
def clear : EnclaveCore :=
  { en with
    regions := fun i =>
      if i < ENCLAVE_REGIONS_MAX then { en.regions i with type := .invalid } else en.regions i
    params := RuntimeParams.zero
    nThread := 0 }

end EnclaveCore

/-! ## Harts -/

/-- Where a hart is between two entries into the monitor. -/
inductive Mode where
  | su
  | osbi
  | hung
deriving DecidableEq, Repr

/-- The members of `struct sbi_trap_info` that are used. -/
structure TrapInfo where
  cause : Word
  tval : Word
deriving DecidableEq, Repr

/-- What says which memory a hart can reach, and what it runs. -/
structure HartCore where
  mode : Mode
  pmp : PmpRegs
  /-- `cpus[h].is_enclave` and `cpus[h].eid`. -/
  isEnclave : Bool
  eid : Nat
  monEnclaveExecution : Bool
  suStarted : Bool

/-- The registers of one hart and the entries of the monitor's per-hart variables for it. -/
structure HartState extends HartCore where
  csrs : Csrs
  mideleg : Word
  mip : Word
  osbiMscratch : Word
  sscratchDoubleSave : Word
  sscratchDoubleSaveEnclave : Word
  temporaryRegisters : TrapRegs
  temporaryInfo : TrapInfo
  ocallInfo : Word

/-- The keys and hashes of `sm.c`. -/
structure Keys where
  smHash : List Byte
  smSignature : List Byte
  smPublicKey : List Byte
  smPrivateKey : List Byte
  devPublicKey : List Byte

/-- The cryptographic functions the monitor calls, as functions of byte strings. -/
structure Crypto where
  sha3 : List Byte → List Byte
  /-- `ed25519_sign` of a message with a public and a private key. -/
  sign : (message publicKey privateKey : List Byte) → List Byte
  /-- `hkdf_sha3_512` without salt of an input key and an info string; `none` is an error. -/
  kdf : (ikm info : List Byte) → (okmLen : Nat) → Option (List Byte)

/-- `pmp_set_keystone` with `perm` for each valid entry of an enclave's region list. -/
def setRegions (t : PmpTable) (regions : Nat → EnclaveRegion) (perm : Byte) (r : PmpRegs) :
    PmpRegs :=
  (List.range ENCLAVE_REGIONS_MAX).foldl
    (fun r memid =>
      if (regions memid).type ≠ .invalid then (pmpSetKeystone t r (regions memid).pmpRid perm).1
      else r) r

/-- `pmpcfg0` while S/U mode or the monitor runs, and while OpenSBI runs (`monitor.S`). -/
def LOCK_OSBI : Word := 0x1F00181F18181B1D
def UNLOCK_OSBI : Word := 0x1800181F1B1D1818

/-- The registers after `pmpcfg0` has been written. -/
def cfgRegs (cfg : Word) (r : PmpRegs) : PmpRegs :=
  { r with pmpcfg := fun g => if g = 0 then cfg else r.pmpcfg g }

/-- The registers of a hart on its way back from OpenSBI. -/
def lockRegs (r : PmpRegs) : PmpRegs := cfgRegs LOCK_OSBI r

/-! ## The monitor -/

/-- The state of the monitor. -/
structure Monitor where
  table : PmpTable
  enclaves : Nat → Enclave
  hart : HartId → HartState
  mem : Word → Byte
  keys : Keys
  /-- The `w` of `platform_random`. -/
  randomW : Word

namespace Monitor

variable (m : Monitor)

def setEnclave (eid : Nat) (en : Enclave) : Monitor :=
  { m with enclaves := fun e => if e = eid then en else m.enclaves e }

/-- A change of the core members of an enclave. -/
def setEnclaveCore (eid : Nat) (en : EnclaveCore) : Monitor :=
  m.setEnclave eid { m.enclaves eid with toEnclaveCore := en }

def setHart (h : HartId) (hs : HartState) : Monitor :=
  { m with hart := fun g => if g = h then hs else m.hart g }

def setPmp (h : HartId) (r : PmpRegs) : Monitor := m.setHart h { m.hart h with pmp := r }

/-- A write of `pmpcfg0` on hart `h`. -/
def writePmpcfg0 (h : HartId) (cfg : Word) : Monitor := m.setPmp h (cfgRegs cfg (m.hart h).pmp)

/-- `pmp_set_keystone` on hart `h`. -/
def pmpSet (h : HartId) (regionIdx : Nat) (perm : Byte) : Monitor :=
  m.setPmp h (pmpSetKeystone m.table (m.hart h).pmp regionIdx perm).1

/-- `osm_pmp_set` on hart `h`. -/
def osmPmpSet (h : HartId) (perm : Byte) : Monitor := m.pmpSet h bootIds.os perm

/-- The loop over an enclave's regions that sets each of them to `perm` on hart `h`. -/
def pmpSetRegions (h : HartId) (eid : Nat) (perm : Byte) : Monitor :=
  m.setPmp h (setRegions m.table (m.enclaves eid).regions perm (m.hart h).pmp)

/-- `cpu_enter_enclave_context`. -/
def cpuEnterEnclaveContext (h : HartId) (eid : Nat) : Monitor :=
  m.setHart h { m.hart h with isEnclave := true, eid := eid }

/-- `cpu_exit_enclave_context`. -/
def cpuExitEnclaveContext (h : HartId) : Monitor :=
  m.setHart h { m.hart h with isEnclave := false }

/-- `sbi_memset` of a physical range to zero. -/
def memZero (base size : Word) : Monitor :=
  { m with mem := fun a => if (a - base).toNat < size.toNat then 0 else m.mem a }

/-- The bytes of a physical range. -/
def readMem (base : Word) (len : Nat) : List Byte :=
  (List.range len).map fun i => m.mem (base + BitVec.ofNat 64 i)

/-- A write of a byte string at a physical address. -/
def writeMem (base : Word) (bytes : List Byte) : Monitor :=
  { m with mem := fun a => (bytes[(a - base).toNat]?).getD (m.mem a) }

/-- `get_enclave_region_index`; `none` stands for -1. -/
def getEnclaveRegionIndex (eid : Nat) (type : RegionType) : Option Nat :=
  (List.range ENCLAVE_REGIONS_MAX).find? fun i => ((m.enclaves eid).regions i).type == type

end Monitor

end Dorami.Sm
