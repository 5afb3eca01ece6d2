import Dorami.Sm.Ipi

/-!
# Creating, destroying and serving enclaves (`enclave.c`, `attest.c`)

`copy_to_sm` and `copy_from_sm` access memory as S-mode does; what such an access reaches is part of
the environment of a call. The accesses of M-mode itself are not subject to the PMP entries, none of
which is locked.
-/

namespace Dorami.Sm

open Riscv

/-- What a call finds around it. -/
structure Env where
  /-- An S-mode load of a byte; `none` is a fault. -/
  load : Word → Option Byte
  /-- The physical address an S-mode store of a byte goes to; `none` is a fault. -/
  store : Word → Option Word
  /-- The contexts IPIs interrupt on the other harts. -/
  frames : HartId → Interrupted
  /-- The cycle counter. -/
  cycles : Word
  /-- What the stack holds at the unassigned `out_val` and at `report.enclave.data`. -/
  outVal : Word
  reportData : List Byte

/-- `copy_to_sm`: the bytes read, unless a load faults. -/
def copyToSm (env : Env) (src : Word) (len : Nat) : Option (List Byte) :=
  (List.range len).mapM fun i => env.load (src + BitVec.ofNat 64 i)

/-- `copy_from_sm`: the bytes before the first fault are written. -/
def copyFromSm (env : Env) : (mem : Word → Byte) → (dst : Word) → List Byte → (Word → Byte) × Bool
  | mem, _, [] => (mem, true)
  | mem, dst, b :: bs =>
    match env.store dst with
    | none => (mem, false)
    | some pa => copyFromSm env (fun a => if a = pa then b else mem a) (dst + 1) bs

/-- The bytes of a 64-bit value in memory. -/
def wordBytes (w : Word) : List Byte := (List.range 8).map fun i => cfgByte w i

/-- The 64-bit value of eight bytes in memory. -/
def bytesWord (bs : List Byte) : Word :=
  bs.foldr (fun b w => w <<< 8 ||| b.setWidth 64) 0

/-! ## Creation arguments -/

/-- `struct keystone_sbi_create_t`. -/
structure CreateArgs where
  epmPaddr : Word
  epmSize : Word
  utmPaddr : Word
  utmSize : Word
  runtimePaddr : Word
  userPaddr : Word
  freePaddr : Word
  freeRequested : Word
deriving DecidableEq, Repr

/-- The arguments in 64 bytes of memory. -/
def CreateArgs.ofBytes (bs : List Byte) : CreateArgs :=
  let word (i : Nat) : Word := bytesWord ((bs.drop (8 * i)).take 8)
  ⟨word 0, word 1, word 2, word 3, word 4, word 5, word 6, word 7⟩

/-- `copy_enclave_create_args`. -/
def copyEnclaveCreateArgs (env : Env) (src : Word) : Except SmStatus CreateArgs :=
  match copyToSm env src 64 with
  | some bs => .ok (CreateArgs.ofBytes bs)
  | none => .error .enclaveRegionOverlaps

/-- `is_create_args_valid`. The sums are 64-bit sums. -/
def isCreateArgsValid (args : CreateArgs) : Bool :=
  let epmStart := args.epmPaddr
  let epmEnd := args.epmPaddr + args.epmSize
  if args.epmSize ≤ 0 then false
  else if args.epmPaddr ≥ args.epmPaddr + args.epmSize then false
  else if args.utmPaddr ≥ args.utmPaddr + args.utmSize then false
  else if args.runtimePaddr < epmStart ∨ args.runtimePaddr ≥ epmEnd then false
  else if args.userPaddr < epmStart ∨ args.userPaddr ≥ epmEnd then false
  else if args.freePaddr < epmStart ∨ args.freePaddr > epmEnd then false
  else if args.runtimePaddr > args.userPaddr then false
  else if args.userPaddr > args.freePaddr then false
  else true

/-- The `params` of `create_enclave`. -/
def CreateArgs.params (args : CreateArgs) : RuntimeParams :=
  { dramBase := args.epmPaddr
    dramSize := args.epmSize
    runtimeBase := args.runtimePaddr
    userBase := args.userPaddr
    freeBase := args.freePaddr
    untrustedBase := args.utmPaddr
    untrustedSize := args.utmSize
    freeRequested := args.freeRequested }

/-! ## Measurement -/

/-- The pages one loop of `validate_and_hash_epm` passes over. -/
def pageLoop : (fuel : Nat) → (page stop : Word) → List Word
  | 0, _, _ => []
  | fuel + 1, page, stop =>
    if page < stop then page :: pageLoop fuel (page + RISCV_PGSIZE) stop else []

/-- The bytes `validate_and_hash_epm` feeds to the hash. A page address has `2 ^ 52` values. -/
def hashStream (params : RuntimeParams) (m : Monitor) : List Byte :=
  let sizes := [params.runtimeBase - params.dramBase, params.userBase - params.runtimeBase,
    params.freeBase - params.userBase]
  let pages := pageLoop (2 ^ 52) params.dramBase params.runtimeBase ++
    pageLoop (2 ^ 52) params.runtimeBase params.userBase ++
    pageLoop (2 ^ 52) params.userBase params.freeBase
  sizes.flatMap wordBytes ++ pages.flatMap fun page => m.readMem page RISCV_PGSIZE.toNat

/-- `validate_and_hash_enclave`; `validate_and_hash_epm` finds every enclave valid. -/
def validateAndHashEnclave (C : Crypto) (m : Monitor) (en : Enclave) :
    Except SmStatus (List Byte) :=
  .ok (C.sha3 (hashStream en.params m))

/-! ## The hooks of the generic platform -/

def platformCreateEnclave (_ : Enclave) : SmStatus := .success

/-- `platform_random`: the value and the next `w`. -/
def platformRandom (w cycles : Word) : Word × Word :=
  let w := w + 0xb5ad4eceda1ce2a9
  let x := cycles * cycles + w
  ((x >>> 32) ||| (x <<< 32), w)

namespace Monitor

variable (m : Monitor)

/-! ## Enclave ids and regions -/

def enclAllocEid : Monitor × Option Nat :=
  match (List.range ENCL_MAX).find? fun eid => (m.enclaves eid).state == .invalid with
  | some eid => (m.setEnclaveCore eid ((m.enclaves eid).setState .allocated), some eid)
  | none => (m, none)

def enclFreeEid (eid : Nat) : Monitor := m.setEnclaveCore eid ((m.enclaves eid).setState .invalid)

/-- `pmp_region_init_atomic` without overlap. -/
def regionInit (start size : Word) (priority : PmpPriority) : Monitor × Except SmStatus Nat :=
  let (t, res) := m.table.pmpRegionInit start size priority false
  ({ m with table := t }, res)

def regionFree (regionIdx : Nat) : Monitor :=
  { m with table := (m.table.pmpRegionFree regionIdx).1 }

/-! ## `create_enclave` -/

/-- The cleaning of the untrusted memory, with the OS region opened for it. -/
def cleanEnclaveMemory (h : HartId) (utbase utsize : Word) : Monitor :=
  let m := m.osmPmpSet h (PMP_R ||| PMP_W)
  let m := m.memZero utbase utsize
  m.osmPmpSet h (PMP_X ||| PMP_W ||| PMP_R)

/-- The metadata of a new enclave. -/
def initMetadata (h : HartId) (eid region sharedRegion : Nat) (args : CreateArgs) : Monitor :=
  let en := m.enclaves eid
  m.setEnclave eid
    { toEnclaveCore := en.create region sharedRegion args.params
      eid := eid
      enclSatp := (args.epmPaddr >>> 12) ||| (8 <<< 60)
      hash := en.hash
      thread := cleanState en.thread (m.hart h).csrs.scounteren }

/-- The locked section at the end: the enclave is measured, with its memory opened for that. -/
def measureEnclave (C : Crypto) (h : HartId) (eid region : Nat) : Monitor × SmStatus :=
  let m := m.pmpSet h region EPMP_ALL_RW
  let m := m.osmPmpSet h (PMP_R ||| PMP_W)
  let hash := validateAndHashEnclave C m (m.enclaves eid)
  let m := m.pmpSet h region PMP_NO_PERM
  let m := m.osmPmpSet h (PMP_X ||| PMP_W ||| PMP_R)
  match hash with
  | .ok hash => (m.setEnclave eid { m.enclaves eid with hash := hash, state := .fresh }, .success)
  | .error status => (m, status)

/-- The label `free_shared_region` and what follows it. -/
def unwindRegions (eid region sharedRegion : Nat) : Monitor :=
  ((m.regionFree sharedRegion).regionFree region).enclFreeEid eid

/-- The label `unset_region` and what follows it. -/
def unwindSetRegions (h : HartId) (env : Env) (eid region sharedRegion : Nat) : Monitor :=
  (m.pmpUnsetGlobal h env.frames region).1.unwindRegions eid region sharedRegion

/-- The part of `create_enclave` after its regions exist. -/
def buildEnclave (C : Crypto) (h : HartId) (env : Env) (args : CreateArgs)
    (eid region sharedRegion : Nat) : Monitor × Except SmStatus Nat :=
  match m.pmpSetGlobal h env.frames region PMP_NO_PERM with
  | (m, .success) =>
    let m := m.cleanEnclaveMemory h args.utmPaddr args.utmSize
    let m := m.initMetadata h eid region sharedRegion args
    match platformCreateEnclave (m.enclaves eid) with
    | .success =>
      match m.measureEnclave C h eid region with
      | (m, .success) => (m, .ok eid)
      | (m, status) => (m.unwindSetRegions h env eid region sharedRegion, .error status)
    | status => (m.unwindSetRegions h env eid region sharedRegion, .error status)
  | (m, _) => (m.unwindRegions eid region sharedRegion, .error .enclavePmpFailure)

def createEnclave (C : Crypto) (h : HartId) (env : Env) (args : CreateArgs) :
    Monitor × Except SmStatus Nat :=
  if !isCreateArgsValid args then (m, .error .enclaveIllegalArgument)
  else
    match m.enclAllocEid with
    | (m, none) => (m, .error .enclaveNoFreeResource)
    | (m, some eid) =>
      match m.regionInit args.epmPaddr args.epmSize .any with
      | (m, .error _) => (m.enclFreeEid eid, .error .enclavePmpFailure)
      | (m, .ok region) =>
        match m.regionInit args.utmPaddr args.utmSize .bottom with
        | (m, .error _) => ((m.regionFree region).enclFreeEid eid, .error .enclavePmpFailure)
        | (m, .ok sharedRegion) => m.buildEnclave C h env args eid region sharedRegion

/-! ## `destroy_enclave` -/

/-- The body of the loop: a region other than the shared one is cleared and released. -/
def destroyRegion (h : HartId) (env : Env) (eid i : Nat) : Monitor :=
  let region := (m.enclaves eid).regions i
  if region.type = .invalid ∨ region.type = .utm then m
  else
    let rid := region.pmpRid
    let base := m.table.pmpRegionGetAddr rid
    let size := m.table.pmpRegionGetSize rid
    let m := m.pmpSet h rid EPMP_ALL_RW
    let m := m.memZero base size
    let m := m.pmpSet h rid PMP_NO_PERM
    let m := (m.pmpUnsetGlobal h env.frames rid).1
    m.regionFree rid

def destroyRegions (h : HartId) (env : Env) (eid : Nat) : Monitor :=
  (List.range ENCLAVE_REGIONS_MAX).foldl (fun m i => m.destroyRegion h env eid i) m

/-- The release of the shared region. -/
def destroyShared (eid : Nat) : Monitor :=
  match m.getEnclaveRegionIndex eid .utm with
  | some i => m.regionFree ((m.enclaves eid).regions i).pmpRid
  | none => m

def clearMetadata (eid : Nat) : Monitor :=
  let en := m.enclaves eid
  m.setEnclave eid { en with toEnclaveCore := en.clear, enclSatp := 0 }

def destroyEnclave (h : HartId) (env : Env) (eid : Nat) : Monitor × SmStatus :=
  if decide (eid < ENCL_MAX) && (m.enclaves eid).destroyable then
    let m := m.setEnclaveCore eid ((m.enclaves eid).setState .destroying)
    let m := m.destroyRegions h env eid
    let m := m.destroyShared eid
    let m := m.clearMetadata eid
    let m := m.enclFreeEid eid
    (m.osmPmpSet h EPMP_SU_RWX, .success)
  else (m, .enclaveNotDestroyable)

/-! ## Services -/

/-- `struct report` as bytes. -/
def reportBytes (C : Crypto) (en : Enclave) (size : Word) (data : List Byte) : List Byte :=
  let measured := en.hash ++ wordBytes size ++ data.take size.toNat
  en.hash ++ wordBytes size ++ data ++
    C.sign measured m.keys.smPublicKey m.keys.smPrivateKey ++
    m.keys.smHash ++ m.keys.smPublicKey ++ m.keys.smSignature ++ m.keys.devPublicKey

def attestEnclave (C : Crypto) (h : HartId) (env : Env) (reportPtr data size : Word) (eid : Nat) :
    Monitor × SmStatus :=
  if size > ATTEST_DATA_MAXLEN then (m, .enclaveIllegalArgument)
  else if !(decide (eid < ENCL_MAX) && (m.enclaves eid).attestable) then
    (m, .enclaveNotInitialized)
  else
    let m := m.pmpSetRegions h eid EPMP_ALL_RW
    match copyToSm env data size.toNat with
    -- the permissions of the regions are not set back here
    | none => (m, .enclaveNotAccessible)
    | some bytes =>
      let stored := bytes ++ env.reportData.drop size.toNat
      let report := m.reportBytes C (m.enclaves eid) size stored
      let (mem, ok) := copyFromSm env m.mem reportPtr report
      let m := { m with mem := mem }
      let m := m.pmpSetRegions h eid EPMP_SU_RWX
      if ok then (m, .success) else (m, .enclaveIllegalArgument)

/-- `sm_derive_sealing_key`: both the identifier and the key are accessed by M-mode itself. -/
def smDeriveSealingKey (C : Crypto) (keyIdent size : Word) (hash : List Byte) :
    Option (List Byte) :=
  C.kdf m.keys.smPrivateKey (hash ++ m.readMem keyIdent size.toNat) SEALING_KEY_SIZE

def getSealingKey (C : Crypto) (h : HartId) (sealingKey keyIdent size : Word) (eid : Nat) :
    Monitor × SmStatus :=
  let m := m.pmpSetRegions h eid EPMP_ALL_RW
  match m.smDeriveSealingKey C keyIdent size (m.enclaves eid).hash with
  | none => (m.pmpSetRegions h eid EPMP_SU_RWX, .enclaveUnknownError)
  | some key =>
    let m := m.writeMem sealingKey key
    let m := m.pmpSetRegions h eid EPMP_SU_RWX
    let m := m.pmpSetRegions h eid EPMP_ALL_RW
    let signature := C.sign (m.readMem sealingKey SEALING_KEY_SIZE) m.keys.smPublicKey
      m.keys.smPrivateKey
    let m := m.writeMem (sealingKey + BitVec.ofNat 64 SEALING_KEY_SIZE) signature
    (m.pmpSetRegions h eid EPMP_SU_RWX, .success)

end Monitor

end Dorami.Sm
