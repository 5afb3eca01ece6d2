import Dorami.Monitor.Contexts
import Dorami.Sm.Service

/-!
# Single calls

What the results about single calls of the Keystone extension speak of: when a create call is
granted, which registers a call gives back, which memory it may write, which contents of the
monitor's stack its caller can see and what it means that a destroyed enclave's memory is given
back.
-/

namespace Dorami

open Riscv Sm Lib

namespace Sm.Monitor

variable (m : Monitor)

/-- Everything `create_enclave` asks for is there: the arguments are valid, an id is free, and the
EPM and then the UTM can be made regions. -/
def grants (args : CreateArgs) : Bool :=
  isCreateArgsValid args && ((List.range ENCL_MAX).any fun e => (m.enclaves e).state == .invalid) &&
    match m.table.pmpRegionInit args.epmPaddr args.epmSize .any false with
    | (t, .ok _) => (t.pmpRegionInit args.utmPaddr args.utmSize .bottom false).2.isOk
    | (_, .error _) => false

end Sm.Monitor

/-! ## Requests -/

/-- What a call of the Keystone extension asks for, or with which status it is turned away. -/
inductive Request where
  | refused (status : SmStatus)
  | create
  | destroy
  | run
  | resume
  | random
  | attest
  | sealingKey
  | stop
  | exit

/-- The request with a function id, from inside an enclave or from outside. -/
def request (inEnclave : Bool) (funcid : Word) : Request :=
  if funcid ≤ FID_RANGE_DEPRECATED then .refused .deprecated
  else if funcid ≤ FID_RANGE_HOST then
    if inEnclave then .refused .enclaveSbiProhibited
    else if funcid = SBI_SM_CREATE_ENCLAVE then .create
    else if funcid = SBI_SM_DESTROY_ENCLAVE then .destroy
    else if funcid = SBI_SM_RUN_ENCLAVE then .run
    else if funcid = SBI_SM_RESUME_ENCLAVE then .resume
    else .refused .notImplemented
  else if funcid ≤ FID_RANGE_ENCLAVE then
    if !inEnclave then .refused .enclaveSbiProhibited
    else if funcid = SBI_SM_RANDOM then .random
    else if funcid = SBI_SM_ATTEST_ENCLAVE then .attest
    else if funcid = SBI_SM_GET_SEALING_KEY then .sealingKey
    else if funcid = SBI_SM_STOP_ENCLAVE then .stop
    else if funcid = SBI_SM_EXIT_ENCLAVE then .exit
    else .refused .notImplemented
  else .refused .notImplemented

/-- The request a trap of hart `h` makes. -/
def Sm.Monitor.requestOf (m : Monitor) (h : HartId) (t : Trap) : Request :=
  request (m.hart h).isEnclave t.regs.a6

/-! ## Serving a request -/

namespace Sm.Monitor

variable (C : Crypto) (m : Monitor) (h : HartId) (t : Trap)

/-- What the handler does for a request. -/
def serve (regs : TrapRegs) (env : Env) : Request → Monitor × HandlerRes
  | .refused status => (m, .ret status.code env.outVal)
  | .create =>
    match m.sbiSmCreateEnclave C h env regs.a0 with
    | (m, .ok eid) => (m, .ret SmStatus.success.code (BitVec.ofNat 64 eid))
    | (m, .error status) => (m, .ret status.code env.outVal)
  | .destroy =>
    let (m, status) := m.destroyEnclave h env (regs.a0.setWidth 32).toNat
    (m, .ret status.code env.outVal)
  | .run =>
    let (m, regs) := m.sbiSmRunEnclave h regs regs.a0
    (m, .exit regs)
  | .resume =>
    let (m, regs) := m.sbiSmResumeEnclave h regs regs.a0
    (m, .exit regs)
  | .random =>
    let (value, w) := platformRandom m.randomW env.cycles
    ({ m with randomW := w }, .ret 0 value)
  | .attest =>
    let (m, status) := m.attestEnclave C h env regs.a0 regs.a1 regs.a2 (m.hart h).eid
    (m, .ret status.code env.outVal)
  | .sealingKey =>
    let (m, status) := m.getSealingKey C h regs.a0 regs.a1 regs.a2 (m.hart h).eid
    (m, .ret status.code env.outVal)
  | .stop =>
    let (m, regs) := m.sbiSmStopEnclave h regs regs.a0
    (m, .exit regs)
  | .exit =>
    let (m, regs) := m.sbiSmExitEnclave h regs regs.a0
    (m, .exit regs)

/-- The handling of the call `t`, from its arrival on. -/
def served : Monitor × HandlerRes :=
  (m.arrive h t).serve C h (frame t) t.env (m.requestOf h t)

/-- The frame with which a call that returns to its caller resumes. -/
def returned (m' : Monitor) (retval outVal : Word) : TrapRegs :=
  let regs := (((frame t).setA1 outVal).setA0 retval).nextPc
  if (m.hart h).monEnclaveExecution then regs
  else { regs with sscratch := (m'.hart h).sscratchDoubleSaveEnclave }

/-- The end of the trap. -/
def finish : Monitor × HandlerRes → Monitor × Exit
  | (m', .ret retval outVal) => (m', .toSu (m.returned h t m' retval outVal))
  | (m', .exit r) => (m', .toSu r)

end Sm.Monitor

/-! ## Calls that stay in the host -/

namespace Sm.Monitor

variable (C : Crypto) (m : Monitor) (h : HartId) (t : Trap)

/-- A Keystone call in host context that does not enter an enclave. -/
structure StaysInHost : Prop where
  keystone : t.isKeystone = true
  host : (m.hart h).isEnclave = false
  stays : ∀ e, ¬ m.Enters h t e

/-- The call resumes the host with the frame `r`, in which only the results and the pc are new; the
S-mode CSRs are as they were, and the next trap is again one of the host. -/
structure HostKept (r : TrapRegs) : Prop where
  resumes : (m.trapHandler C h t).2 = .toSu r
  gpr : ∀ i, i ≠ 0 → i ≠ 10 → i ≠ 11 → r.gpr i = t.regs.gpr i
  pc : r.mepc = t.regs.mepc + 4
  mstatus : r.mstatus = t.regs.mstatus
  sscratch : r.sscratch = t.regs.sscratch
  csrs : ((m.trapHandler C h t).1.hart h).csrs = t.csrs
  pending : ((m.trapHandler C h t).1.hart h).mip = t.mip
  delegated : ((m.trapHandler C h t).1.hart h).mideleg = (m.hart h).mideleg
  flag : ((m.trapHandler C h t).1.hart h).monEnclaveExecution = false

end Sm.Monitor

/-! ## The monitor's stack -/

/-- The same trap with other contents of the monitor's stack: what lies at `out_val` and at the data
of the report. -/
def Trap.withStack (t : Trap) (outVal : Word) (reportData : List Byte) : Trap :=
  { t with env := { t.env with outVal := outVal, reportData := reportData } }

namespace Sm.Monitor

variable (C : Crypto) (m : Monitor) (h : HartId) (t : Trap)

/-- What a call shows its caller: the `a0` and `a1` it resumes with, and the memory. -/
def shown : Option (Word × Word) × (Word → Byte) :=
  let res := m.trapHandler C h t
  (res.2.resumed.map fun r => (r.a0, r.a1), res.1.mem)

/-- The call shows the same whatever lies on the stack. -/
def HidesStack : Prop :=
  ∀ (outVal outVal' : Word) (data data' : List Byte), data.length = ATTEST_DATA_MAXLEN.toNat →
    data'.length = ATTEST_DATA_MAXLEN.toNat →
      m.shown C h (t.withStack outVal data) = m.shown C h (t.withStack outVal' data')

/-- The call assigns `out_val` or does not return through it: a create call that is granted, a run
or resume call of the host, and a random, stop or exit call of an enclave. -/
def fillsOutVal : Bool :=
  match m.requestOf h t with
  | .create =>
    match copyEnclaveCreateArgs t.env t.regs.a0 with
    | .ok args => m.grants args
    | .error _ => false
  | .run | .resume | .random | .stop | .exit => true
  | .refused _ | .destroy | .attest | .sealingKey => false

end Sm.Monitor

/-! ## The memory a service writes -/

namespace Sm

def SIGNATURE_SIZE : Nat := 64
def PUBLIC_KEY_SIZE : Nat := 32

/-- `sizeof(struct report)`. -/
def reportSize : Nat :=
  (MDSIZE + 8 + ATTEST_DATA_MAXLEN.toNat + SIGNATURE_SIZE) +
    (MDSIZE + PUBLIC_KEY_SIZE + SIGNATURE_SIZE) + PUBLIC_KEY_SIZE

/-- The results of the cryptographic functions have the sizes of the arrays they are written to, and
a key of `SEALING_KEY_SIZE` bytes can be derived. -/
structure Crypto.Sized (C : Crypto) : Prop where
  sign : ∀ message pk sk, (C.sign message pk sk).length = SIGNATURE_SIZE
  kdf : ∀ ikm info, ∃ key,
    C.kdf ikm info SEALING_KEY_SIZE = some key ∧ key.length = SEALING_KEY_SIZE

/-- The addresses `copy_from_sm` reaches with `n` bytes: those before the first fault. -/
def copyTargets (env : Env) : (dst : Word) → (n : Nat) → List Word
  | _, 0 => []
  | dst, n + 1 =>
    match env.store dst with
    | none => []
    | some pa => pa :: copyTargets env (dst + 1) n

namespace Monitor

variable (C : Crypto) (m : Monitor) (h : HartId) (env : Env) (info : Word)

/-- The arrays a report is put together from have the sizes `enclave.h` and `sm.c` give them. -/
structure Sized : Prop where
  hash : (m.enclaves (m.hart h).eid).hash.length = MDSIZE
  smHash : m.keys.smHash.length = MDSIZE
  smPublicKey : m.keys.smPublicKey.length = PUBLIC_KEY_SIZE
  smSignature : m.keys.smSignature.length = SIGNATURE_SIZE
  devPublicKey : m.keys.devPublicKey.length = PUBLIC_KEY_SIZE
  reportData : env.reportData.length = ATTEST_DATA_MAXLEN.toNat

/-- The address lies in the EPM or the UTM of enclave `e`. -/
def InEnclave (e a : Nat) : Prop :=
  ∃ i < ENCLAVE_REGIONS_MAX,
    (((m.enclaves e).regions i).type = .epm ∨ ((m.enclaves e).regions i).type = .utm) ∧
      m.table.isPmpRegionValid ((m.enclaves e).regions i).pmpRid = true ∧
      a ∈ (m.regionOf e i).bytes

/-- A store for enclave `e` may go to this address: outside the monitor's data it lies in the EPM or
the UTM of the enclave, and it is none of the addresses `vars` of `enclaves[]`, the region tables
and the keys. -/
def MayStore (vars : Set Word) (e : Nat) (a : Word) : Prop :=
  a ∉ vars ∧ (a.toNat ∉ monitorData → m.InEnclave e a.toNat)

/-- The call has only such addresses to write to: an attestation where the report is translated to,
a sealing key call at its pointer and in the array `info`. -/
def OwnTargets (vars : Set Word) : StopFreeCall → Prop
  | .random | .plugin .. => True
  | .service (.attest reportPtr data size) =>
    size ≤ ATTEST_DATA_MAXLEN → (m.hart h).eid < ENCL_MAX →
      (m.enclaves (m.hart h).eid).attestable = true → (copyToSm env data size.toNat).isSome →
        ∀ pa ∈ copyTargets env reportPtr reportSize, m.MayStore vars (m.hart h).eid pa
  | .service (.sealingKey sealingKey _ size) =>
    (∀ i < SEALING_KEY_SIZE + SIGNATURE_SIZE,
      m.MayStore vars (m.hart h).eid (sealingKey + BitVec.ofNat 64 i)) ∧
      ∀ i < MDSIZE + size.toNat, m.MayStore vars (m.hart h).eid (info + BitVec.ofNat 64 i)

/-! ## Open enclaves -/

/-- The entry `i` of a region list stands for a defined region. -/
def LiveEntry (t : PmpTable) (regions : Nat → EnclaveRegion) (i : Nat) : Prop :=
  (regions i).type ≠ .invalid ∧ t.isPmpRegionValid (regions i).pmpRid = true

/-- Hart `h` runs an enclave that has an EPM, and the entries of the enclave's regions are RWX. -/
structure OpenInside : Prop where
  inside : (m.hart h).isEnclave = true
  epm : ∃ i < ENCLAVE_REGIONS_MAX, ((m.enclaves (m.hart h).eid).regions i).type = .epm ∧
    m.table.isPmpRegionValid ((m.enclaves (m.hart h).eid).regions i).pmpRid = true
  opened : ∀ i < ENCLAVE_REGIONS_MAX, LiveEntry m.table (m.enclaves (m.hart h).eid).regions i →
    Installed (m.regionOf (m.hart h).eid i) EPMP_SU_RWX (m.hart h).pmp

/-! ## Giving memory back -/

/-- A destroy call of the host for enclave `e` that succeeds. -/
structure Destroys (t : Trap) (e : Nat) : Prop where
  enabled : m.trapEnabled h t = true
  keystone : t.isKeystone = true
  host : (m.hart h).isEnclave = false
  call : t.regs.a6 = SBI_SM_DESTROY_ENCLAVE
  eid : t.eid = e
  lt : e < ENCL_MAX
  test : (m.enclaves e).destroyable = true

/-- No entry of hart `g` is left for the EPM that enclave `e` had in `m`: above the bottom entry
none matches a byte of it, and its bytes, and all others that only the OS region covers, are open to
S/U mode in `m'`. -/
structure GivesBack (m' : Monitor) (e : Nat) (g : HartId) : Prop where
  cleared : ∀ i < ENCLAVE_REGIONS_MAX, ((m.enclaves e).regions i).type = .epm →
    ∀ a ∈ (m.regionOf e i).bytes, ∀ n < 7, entryMatches (m'.hart g).pmp n a = false
  epm : ∀ i < ENCLAVE_REGIONS_MAX, ((m.enclaves e).regions i).type = .epm →
    ∀ a ∈ (m.regionOf e i).bytes, suPerm (m'.hart g).pmp a = Perm.rwx
  others : ∀ a < 2 ^ 64,
    (∀ rid, m'.table.isPmpRegionValid rid = true → rid ≠ bootIds.os →
      a ∉ (m'.table.regions rid).bytes) → suPerm (m'.hart g).pmp a = Perm.rwx

end Monitor

end Sm

end Dorami
