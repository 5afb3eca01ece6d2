import Dorami.Lib.Stores
import Dorami.Sm.Sbi

/-!
# The services of an enclave

The calls of `attest_enclave` and `get_sealing_key`, and their stores one by one. Those of
`sm_derive_sealing_key` include its array `info`, which lies on the stack of the hart and whose
length is an argument of the call.
-/

namespace Dorami.Sm

open Riscv Lib

/-- A service an enclave asks for, with the arguments it passes. -/
inductive ServiceCall where
  | attest (reportPtr data size : Word)
  | sealingKey (sealingKey keyIdent size : Word)
deriving DecidableEq

namespace Monitor

variable (C : Crypto) (m : Monitor) (h : HartId) (env : Env)

/-- `sbi_sm_attest_enclave` and `sbi_sm_get_sealing_key`: the enclave is the one the hart runs. -/
def service : ServiceCall → Monitor × SmStatus
  | .attest reportPtr data size => m.attestEnclave C h env reportPtr data size (m.hart h).eid
  | .sealingKey sealingKey keyIdent size =>
    m.getSealingKey C h sealingKey keyIdent size (m.hart h).eid

/-- The call gets as far as reading the data to be signed, and the read faults. -/
def dataUnreadable : ServiceCall → Bool
  | .attest _ data size =>
    decide (size ≤ ATTEST_DATA_MAXLEN) && decide ((m.hart h).eid < ENCL_MAX) &&
      (m.enclaves (m.hart h).eid).attestable && (copyToSm env data size.toNat).isNone
  | .sealingKey .. => false

end Monitor

/-! ## Stores -/

/-- The stores of a byte string at ascending addresses. -/
def byteStores : (dst : Word) → List Byte → List (Word × Byte)
  | _, [] => []
  | dst, b :: bs => (dst, b) :: byteStores (dst + 1) bs

/-- The stores of `sbi_memcpy`, which goes upwards byte by byte and reads what it has
stored itself. -/
def memcpyStores : (mem : Word → Byte) → (dst src : Word) → (count : Nat) → List (Word × Byte)
  | _, _, _, 0 => []
  | mem, dst, src, n + 1 =>
    (dst, mem src) :: memcpyStores (Function.update mem dst (mem src)) (dst + 1) (src + 1) n

/-- The stores of `copy_from_sm`. -/
def copyStores (env : Env) : (dst : Word) → List Byte → List (Word × Byte)
  | _, [] => []
  | dst, b :: bs =>
    match env.store dst with
    | none => []
    | some pa => (pa, b) :: copyStores env (dst + 1) bs

/-- The length of `info` as `hkdf_sha3_512` gets it, an `int`; a negative one counts as 0. -/
def infoLen (size : Word) : Nat := ((BitVec.ofNat 64 MDSIZE + size).setWidth 32).toInt.toNat

/-- A call of an enclave that does not stop it. -/
inductive StopFreeCall where
  | random
  | plugin (pluginId callId arg0 arg1 : Word)
  | service (call : ServiceCall)
deriving DecidableEq

namespace Monitor

variable (C : Crypto) (m : Monitor) (h : HartId) (env : Env) (info : Word)

/-- The stores of `get_sealing_key`, with the array `info` of `sm_derive_sealing_key` at this
address: first the array is filled, then the key and its signature are written. -/
def sealingStores (sealingKey keyIdent size : Word) (hash : List Byte) : List (Word × Byte) :=
  let start := byteStores info hash
  let filled := start ++ memcpyStores (storeAll m.mem start)
    (info + BitVec.ofNat 64 MDSIZE) keyIdent size.toNat
  let m := { m with mem := storeAll m.mem filled }
  match C.kdf m.keys.smPrivateKey (m.readMem info (infoLen size)) SEALING_KEY_SIZE with
  | none => filled
  | some key =>
    let m := { m with mem := storeAll m.mem (byteStores sealingKey key) }
    let signature := C.sign (m.readMem sealingKey SEALING_KEY_SIZE) m.keys.smPublicKey
      m.keys.smPrivateKey
    filled ++ byteStores sealingKey key ++
      byteStores (sealingKey + BitVec.ofNat 64 SEALING_KEY_SIZE) signature

/-- The stores of a call. -/
def stores : StopFreeCall → List (Word × Byte)
  | .random | .plugin .. => []
  | .service (.attest reportPtr data size) =>
    if decide (size ≤ ATTEST_DATA_MAXLEN) && decide ((m.hart h).eid < ENCL_MAX) &&
        (m.enclaves (m.hart h).eid).attestable then
      match copyToSm env data size.toNat with
      | none => []
      | some bytes =>
        copyStores env reportPtr (m.reportBytes C (m.enclaves (m.hart h).eid) size
          (bytes ++ env.reportData.drop size.toNat))
    else []
  | .service (.sealingKey sealingKey keyIdent size) =>
    m.sealingStores C info sealingKey keyIdent size (m.enclaves (m.hart h).eid).hash

/-- The monitor after a call. -/
def stopFree : StopFreeCall → Monitor
  | .random => { m with randomW := (platformRandom m.randomW env.cycles).2 }
  | .plugin .. => m
  | .service (.attest reportPtr data size) =>
    (m.attestEnclave C h env reportPtr data size (m.hart h).eid).1
  | .service (.sealingKey sealingKey keyIdent size) =>
    { (m.getSealingKey C h sealingKey keyIdent size (m.hart h).eid).1 with
      mem := storeAll m.mem (m.sealingStores C info sealingKey keyIdent size
        (m.enclaves (m.hart h).eid).hash) }

end Monitor

end Dorami.Sm
