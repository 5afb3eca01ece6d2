import Dorami.Monitor.Calls
import Dorami.Sm.Sealing

/-!
# The keys of the monitor and the reports under them (`sm.c`, `platform.c`)

The boot ROM leaves the hash, the keys and the signature of the monitor in the Sanctum area.
`sm_copy_key` copies them to the arrays of `sm.c`, from which `attest_enclave` puts a report
together. Neither `sm_init` nor anything else calls it.
-/

namespace Dorami.Sm

open Riscv Lib

/-- The arrays `sanctum_sm_hash` to `sanctum_dev_public_key`. -/
structure Sanctum where
  smHash : Vector Byte MDSIZE
  smSignature : Vector Byte SIGNATURE_SIZE
  smSecretKey : Vector Byte PRIVATE_KEY_SIZE
  smPublicKey : Vector Byte PUBLIC_KEY_SIZE
  devPublicKey : Vector Byte PUBLIC_KEY_SIZE

/-- A Sanctum area that holds zeros only. -/
def Sanctum.zero : Sanctum :=
  ⟨Vector.replicate _ 0, Vector.replicate _ 0, Vector.replicate _ 0, Vector.replicate _ 0,
    Vector.replicate _ 0⟩

/-- The initial values of the arrays of `sm.c`, which are their values after `sm_init`. -/
def bootKeys : Keys :=
  { smHash := List.replicate MDSIZE 0
    smSignature := List.replicate SIGNATURE_SIZE 0
    smPublicKey := List.replicate PUBLIC_KEY_SIZE 0
    smPrivateKey := List.replicate PRIVATE_KEY_SIZE 0
    devPublicKey := List.replicate PUBLIC_KEY_SIZE 0 }

/-- `sizeof(struct enclave_report)`. -/
def enclaveReportSize : Nat := MDSIZE + 8 + ATTEST_DATA_MAXLEN.toNat + SIGNATURE_SIZE

/-- The report that vouches for an enclave under the values of the Sanctum area: `hash` is the
measurement, `data` what the enclave wants to have signed, and `rest` fills up the array for it. -/
def Sanctum.report (C : Crypto) (s : Sanctum) (hash : List Byte) (size : Word)
    (data rest : List Byte) : List Byte :=
  hash ++ wordBytes size ++ (data ++ rest) ++
    C.sign (hash ++ wordBytes size ++ data) s.smPublicKey.toList s.smSecretKey.toList ++
    s.smHash.toList ++ s.smPublicKey.toList ++ s.smSignature.toList ++ s.devPublicKey.toList

/-- S-mode addresses are translated by pages. -/
def Env.Paged (env : Env) : Prop :=
  ∀ a pa, env.store a = some pa → pa.toNat % RISCV_PGSIZE.toNat = a.toNat % RISCV_PGSIZE.toNat

namespace Monitor

/-- What the attestation of the enclave on hart `h` is for. With `size` bytes that can be read at
`data`, and a destination that can be written, it succeeds if the enclave exists; a report it
delivers is the one that vouches for the enclave and these bytes. -/
def Vouches (C : Crypto) (s : Sanctum) (m : Monitor) (h : HartId) : Prop :=
  ∀ (env : Env) (reportPtr data size : Word) (read : Nat → Byte),
    env.Paged → env.reportData.length = ATTEST_DATA_MAXLEN.toNat → size ≤ ATTEST_DATA_MAXLEN →
    (∀ i < size.toNat, env.load (data + BitVec.ofNat 64 i) = some (read i)) →
    (∀ i < reportSize, (env.store (reportPtr + BitVec.ofNat 64 i)).isSome) →
    let e := (m.hart h).eid
    let res := m.attestEnclave C h env reportPtr data size e
    (res.2 = .success ↔ e < ENCL_MAX ∧ (m.enclaves e).attestable = true) ∧
      (res.2 = .success → ∃ rest : List Byte,
        rest.length = ATTEST_DATA_MAXLEN.toNat - size.toNat ∧
          ∀ i < reportSize, ∀ pa, env.store (reportPtr + BitVec.ofNat 64 i) = some pa →
            (s.report C (m.enclaves e).hash size ((List.range size.toNat).map read) rest)[i]? =
              some (res.1.mem pa))

end Monitor

end Dorami.Sm
