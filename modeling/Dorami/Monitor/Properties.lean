import Dorami.Lib.Run
import Dorami.Monitor.Trap
import Dorami.Sm.Regions

/-!
# Properties of runs of the monitor

What the results about whole runs speak of: the states in which enclaves are isolated, the tables in
step and the two records of a hart in agreement, the memory of machine mode, and the monitor when it
hands the harts to OpenSBI.
-/

namespace Dorami.Sm

open Riscv Lib

/-- A call of the Keystone extension by a hart. -/
structure KeystoneCall where
  hart : HartId
  trap : Trap
  keystone : trap.isKeystone = true

/-- The arguments of a create call, if they can be read. -/
def KeystoneCall.createArgs (k : KeystoneCall) : Option CreateArgs :=
  if k.trap.regs.a6 = SBI_SM_CREATE_ENCLAVE then
    (copyEnclaveCreateArgs k.trap.env k.trap.regs.a0).toOption
  else none

/-- The enclave exists between two calls. -/
def EnclaveCore.Alive (en : EnclaveCore) : Prop :=
  en.state = .fresh ∨ en.state = .stopped ∨ en.state = .running

/-- Some region takes two entries. -/
def PmpTable.hasTor (t : PmpTable) : Bool :=
  (List.range PMP_MAX_N_REGION).any fun rid =>
    t.isPmpRegionValid rid && (t.regions rid).addrmode == PMP_A_TOR

namespace Monitor

variable (C : Crypto)

/-- `mon_trap_handler_sumode` on the trap: the state it leaves and how the hart goes on. -/
def trapHandler (m : Monitor) (h : HartId) (t : Trap) : Monitor × Exit :=
  let m := m.setHart h { m.hart h with csrs := t.csrs, mip := t.mip }
  m.monTrapHandlerSumode C h t.mcause t.mtval (t.regs.setGpr 0 0) t.env

/-! ## Runs of Keystone calls -/

/-- The state after a Keystone call. -/
def callStep (m : Monitor) (k : KeystoneCall) : Monitor := m.step C (.trap k.hart k.trap)

/-- The region of entry `i` of the enclave's region list. -/
def regionOf (m : Monitor) (e i : Nat) : PmpRegion :=
  m.table.regions ((m.enclaves e).regions i).pmpRid

/-- The private memory of every enclave is out of reach of the harts in host context, and a hart
inside an enclave reaches, above the monitor, only the enclave's two regions. -/
structure Isolated (m : Monitor) : Prop where
  host : ∀ e < ENCL_MAX, (m.enclaves e).Alive →
    ∀ i < ENCLAVE_REGIONS_MAX, ((m.enclaves e).regions i).type = .epm →
      ∀ a ∈ (m.regionOf e i).bytes, ∀ h, (m.hart h).isEnclave = false →
        suPerm (m.hart h).pmp a = Perm.none
  inside : ∀ h, (m.hart h).isEnclave = true →
    ∀ a, 0x80140000 ≤ a → a < 2 ^ 64 → (suPerm (m.hart h).pmp a).any = true →
      ∃ i < ENCLAVE_REGIONS_MAX,
        (((m.enclaves (m.hart h).eid).regions i).type = .epm ∨
          ((m.enclaves (m.hart h).eid).regions i).type = .utm) ∧
        a ∈ (m.regionOf (m.hart h).eid i).bytes

/-- The enclave table and the region table describe the same regions. -/
structure InStep (m : Monitor) : Prop where
  /-- An enclave has one EPM entry and one UTM entry, for the regions of its parameters. -/
  alive : ∀ e < ENCL_MAX, (m.enclaves e).Alive →
    (∃ i < ENCLAVE_REGIONS_MAX, ((m.enclaves e).regions i).type = .epm ∧
      (∀ j < ENCLAVE_REGIONS_MAX, ((m.enclaves e).regions j).type = .epm → j = i) ∧
      m.table.isPmpRegionValid ((m.enclaves e).regions i).pmpRid = true ∧
      (m.regionOf e i).addr = (m.enclaves e).params.dramBase ∧
      (m.regionOf e i).size = (m.enclaves e).params.dramSize) ∧
    (∃ i < ENCLAVE_REGIONS_MAX, ((m.enclaves e).regions i).type = .utm ∧
      (∀ j < ENCLAVE_REGIONS_MAX, ((m.enclaves e).regions j).type = .utm → j = i) ∧
      m.table.isPmpRegionValid ((m.enclaves e).regions i).pmpRid = true ∧
      (m.regionOf e i).addr = (m.enclaves e).params.untrustedBase ∧
      (m.regionOf e i).size = (m.enclaves e).params.untrustedSize)
  /-- No region is referenced by two enclaves, or by an enclave and the monitor. -/
  unshared : ∀ e < ENCL_MAX, ∀ i < ENCLAVE_REGIONS_MAX,
    ((m.enclaves e).regions i).type ≠ .invalid →
      bootCalls.length ≤ ((m.enclaves e).regions i).pmpRid ∧
      ∀ e' < ENCL_MAX, ∀ i' < ENCLAVE_REGIONS_MAX,
        ((m.enclaves e').regions i').type ≠ .invalid →
        ((m.enclaves e').regions i').pmpRid = ((m.enclaves e).regions i).pmpRid → e' = e ∧ i' = i
  invalid : ∀ e < ENCL_MAX, (m.enclaves e).state = .invalid →
    ∀ i < ENCLAVE_REGIONS_MAX, ((m.enclaves e).regions i).type = .invalid
  /-- No region is lost. -/
  referenced : ∀ rid, m.table.isPmpRegionValid rid = true → bootCalls.length ≤ rid →
    ∃ e < ENCL_MAX, ∃ i < ENCLAVE_REGIONS_MAX, ((m.enclaves e).regions i).type ≠ .invalid ∧
      ((m.enclaves e).regions i).pmpRid = rid

/-! ## The memory of machine mode -/

/-- The ranges of `sm.h`: code and data of the monitor and of OpenSBI, the sallyport through which
OpenSBI comes back, and the devices. -/
def machineRanges : List (Word × Word) :=
  [(REGION_TM_CODE_BASE, REGION_TM_CODE_SIZE), (REGION_TM_DATA_BASE, REGION_TM_DATA_SIZE),
   (REGION_SMM_CODE_BASE, REGION_SMM_CODE_SIZE), (REGION_SMM_DATA_BASE, REGION_SMM_DATA_SIZE),
   (REGION_DEVICE_BASE, REGION_DEVICE_SIZE), (REGION_SP1_CODE_BASE, REGION_SP1_CODE_SIZE)]

/-- The bytes of machine mode. -/
def machineMemory : Set Nat := {a | ∃ r ∈ machineRanges, a ∈ byteRange r.1 r.2}

/-- The bytes of the sallyport. -/
def sallyport : Set Nat := byteRange REGION_SP1_CODE_BASE REGION_SP1_CODE_SIZE

/-- The call does not ask for an enclave on the sallyport. -/
def AvoidsSallyport (k : KeystoneCall) : Prop :=
  ∀ args, k.createArgs = some args →
    Disjoint (byteRange args.epmPaddr args.epmSize) sallyport ∧
      Disjoint (byteRange args.utmPaddr args.utmSize) sallyport

/-- No region of an enclave meets the memory of machine mode. -/
def OffMachine (m : Monitor) : Prop :=
  ∀ e < ENCL_MAX, ∀ i < ENCLAVE_REGIONS_MAX,
    ((m.enclaves e).regions i).type = .epm ∨ ((m.enclaves e).regions i).type = .utm →
      Disjoint (m.regionOf e i).bytes machineMemory

/-- A create or destroy call clears no memory of machine mode. -/
def ClearsOffMachine (m : Monitor) (k : KeystoneCall) : Prop :=
  k.trap.regs.a6 = SBI_SM_CREATE_ENCLAVE ∨ k.trap.regs.a6 = SBI_SM_DESTROY_ENCLAVE →
    ∀ a : Word, a.toNat ∈ machineMemory → (m.callStep C k).mem a = m.mem a

/-- The ranges of `sm.h` that hold code and data of the monitor and of OpenSBI, and
the sallyport. -/
def firmwareRanges : List (Word × Word) :=
  [(REGION_TM_CODE_BASE, REGION_TM_CODE_SIZE), (REGION_TM_DATA_BASE, REGION_TM_DATA_SIZE),
   (REGION_SMM_CODE_BASE, REGION_SMM_CODE_SIZE), (REGION_SMM_DATA_BASE, REGION_SMM_DATA_SIZE),
   (REGION_SP1_CODE_BASE, REGION_SP1_CODE_SIZE)]

/-- The bytes of these ranges. -/
def firmwareMemory : Set Nat := {a | ∃ r ∈ firmwareRanges, a ∈ byteRange r.1 r.2}

/-- The bytes of the monitor's data. -/
def monitorData : Set Nat := byteRange REGION_TM_DATA_BASE REGION_TM_DATA_SIZE

/-- S/U mode on hart `h` cannot write at `a`, and has no access at all to the monitor's data. -/
def ClosedAt (m : Monitor) (h : HartId) (a : Nat) : Prop :=
  (suPerm (m.hart h).pmp a).w = false ∧ (a ∈ monitorData → suPerm (m.hart h).pmp a = Perm.none)

/-! ## The records of a hart -/

/-- Whenever a hart is in S/U mode, the two records of it agree, and if they say that it is inside
an enclave, that enclave is running. -/
def RecordsAgree (m : Monitor) : Prop :=
  ∀ h, (m.hart h).mode = .su →
    (m.hart h).monEnclaveExecution = (m.hart h).isEnclave ∧
      ((m.hart h).isEnclave = true →
        (m.hart h).eid < ENCL_MAX ∧ (m.enclaves (m.hart h).eid).state = .running)

/-- A run or resume call in host context that is refused. -/
def callRefused (m : Monitor) (h : HartId) (regs : TrapRegs) : Bool :=
  let eid := (regs.a0.setWidth 32).toNat
  !(m.hart h).isEnclave &&
    (regs.a6 == SBI_SM_RUN_ENCLAVE && !(decide (eid < ENCL_MAX) && (m.enclaves eid).runable) ||
      regs.a6 == SBI_SM_RESUME_ENCLAVE && !(decide (eid < ENCL_MAX) && (m.enclaves eid).resumable))

/-- The input is such a call. -/
def entryRefused (m : Monitor) : Input → Bool
  | .trap h t => m.trapEnabled h t && t.isKeystone && m.callRefused h t.regs
  | .osbiReturn _ _ => false

/-! ## Traps handed on to OpenSBI -/

/-- A hart that has been handed to OpenSBI and has not been in S/U mode yet. -/
def handedHart : HartState :=
  { bootHart with
    mode := .osbi
    pmp := cfgRegs UNLOCK_OSBI bootHart.pmp
    suStarted := false }

/-- The monitor when it first hands the harts to OpenSBI. -/
def handedOver (mem : Word → Byte) (keys : Keys) : Monitor :=
  { bootMonitor mem keys with hart := fun _ => handedHart }

/-- An attestation that is cut short: the data of the enclave cannot be read. -/
def attestCut (m : Monitor) : Input → Bool
  | .trap h t => m.trapEnabled h t && t.isKeystone && t.regs.a6 == SBI_SM_ATTEST_ENCLAVE &&
      (m.hart h).isEnclave && decide (t.regs.a2 ≤ ATTEST_DATA_MAXLEN) &&
      (copyToSm t.env t.regs.a1 t.regs.a2.toNat).isNone
  | .osbiReturn _ _ => false

end Monitor

end Dorami.Sm
