import Dorami.Lib.Fields
import Dorami.Lib.Stores
import Dorami.Sm.Hkdf
import Dorami.Sm.Service

/-!
# Sealing keys (`sm.c`, `crypto.c`)

`sm_derive_sealing_key` down to the bytes that are hashed. The hash of the enclave, the identifier,
`sm_private_key` and the array `info` are all in memory. The array is as long as the identifier asks
for and lies below the stack pointer, where nothing keeps it from reaching the variables of the
monitor; the frames of `kdf` and of the functions it calls lie below the array. The lengths pass
from `size_t` to `int` in `kdf`.
-/

namespace Dorami.Sm

open Riscv Lib

def PRIVATE_KEY_SIZE : Nat := 64

/-- `kdf`: `hkdf_sha3_512` takes the lengths as `int`. -/
def kdf (salt : Option Buffer) (saltLen : Nat) (ikm : Buffer) (ikmLen : Nat) (info : Mem → Buffer)
    (infoLen : Word) (okm : Word) (okmLen : Word) (fuel : Nat) (m : Mem) : Option (Int × Mem) :=
  hkdfSha3512 salt saltLen ikm ikmLen info (infoLen.setWidth 32).toInt okm
    (okmLen.setWidth 32).toInt fuel m

/-- `sbi_memcpy`. -/
def memcpy (m : Mem) (dst src : Word) (n : Nat) : Mem := storeAll m (memcpyStores m dst src n)

/-- A call of `sm_derive_sealing_key`: its arguments, and where it finds `sm_private_key` and its
stack. -/
structure SealingCall where
  key : Word
  keyIdent : Word
  keyIdentSize : Word
  enclaveHash : Word
  /-- `sm_private_key`. -/
  privateKey : Word
  /-- The stack pointer before the array is allocated. -/
  sp : Word

namespace SealingCall

variable (c : SealingCall)

/-- The array `info`. The stack pointer stays a multiple of 16. -/
def info : Word := c.sp - ((BitVec.ofNat 64 MDSIZE + c.keyIdentSize + 15) &&& ~~~15)

/-- `MDSIZE + key_ident_size`, as `hkdf_sha3_512` gets it. -/
def infoInt : Int := ((BitVec.ofNat 64 MDSIZE + c.keyIdentSize).setWidth 32).toInt

/-- The memory when the array has been filled. -/
def filled (m : Mem) : Mem :=
  memcpy (memcpy m c.info c.enclaveHash MDSIZE) (c.info + BitVec.ofNat 64 MDSIZE) c.keyIdent
    c.keyIdentSize.toNat

/-- The memory that `kdf` finds, with what it and the functions it calls have stored in
their frames. -/
def kdfMem (frames : List (Word × Byte)) (m : Mem) : Mem := storeAll (c.filled m) frames

/-- `sm_derive_sealing_key`. -/
def deriveSealingKey (frames : List (Word × Byte)) (fuel : Nat) (m : Mem) : Option (Int × Mem) :=
  let m := c.kdfMem frames m
  kdf none 0 (bufferAt c.privateKey m) PRIVATE_KEY_SIZE (bufferAt c.info)
    (BitVec.ofNat 64 MDSIZE + c.keyIdentSize) c.key (BitVec.ofNat 64 SEALING_KEY_SIZE) fuel m

/-! ## What a sealing key is to be -/

/-- The hash of the enclave and the identifier, as the caller has them. -/
def binding (m : Mem) : List Byte :=
  (bufferAt c.enclaveHash m).bytes MDSIZE ++ (bufferAt c.keyIdent m).bytes c.keyIdentSize.toNat

/-- The key is HKDF of the private key with the hash and the identifier as info. The HMAC of the
first step gets the private key, and the HMAC of every round gets the hash and the identifier in
full, whatever of the key has been written before. -/
structure BoundToEnclave (frames : List (Word × Byte)) (m : Mem) : Prop where
  derived : ∃ fuel, c.deriveSealingKey frames fuel m =
    some (0, copyOut (c.kdfMem frames m) c.key
      (sha3512.hkdf none ((bufferAt c.privateKey m).bytes PRIVATE_KEY_SIZE) (c.binding m)
        SEALING_KEY_SIZE))
  input : (bufferAt c.privateKey (c.kdfMem frames m)).bytes PRIVATE_KEY_SIZE =
    (bufferAt c.privateKey m).bytes PRIVATE_KEY_SIZE
  text : ∀ (i : Byte) (t out : List Byte), t.length = SHA3_512_HASH_LEN →
    out.length ≤ SEALING_KEY_SIZE →
    updatesText (expandUpdates (bufferAt c.info (copyOut (c.kdfMem frames m) c.key out)) c.infoInt i
      t) = (if 1 < i.toNat then t else []) ++ c.binding m ++ [i]

/-- The address is one of the `room` bytes below the array. -/
def Below (room : Nat) (a : Word) : Prop := InBytes (c.info - BitVec.ofNat 64 room) room a

/-- The length of the array is an `int`; neither the array nor the frames, which have `room` bytes
below it, reach `sm_private_key`; and the array does not begin inside the hash of the enclave. -/
structure Fits (room : Nat) : Prop where
  int : MDSIZE + c.keyIdentSize.toNat < 2 ^ 31
  input : ∀ i < PRIVATE_KEY_SIZE, ¬ InBytes (c.info - BitVec.ofNat 64 room)
    (room + (MDSIZE + c.keyIdentSize.toNat)) (c.privateKey + BitVec.ofNat 64 i)
  hash : (c.info - c.enclaveHash).toNat = 0 ∨ MDSIZE ≤ (c.info - c.enclaveHash).toNat

/-- The two variables of the monitor are apart. As far as their lengths make sense, the identifier
and the place of the key are apart from the array. -/
structure Apart : Prop where
  static : ∀ i < MDSIZE,
    ¬ InBytes c.privateKey PRIVATE_KEY_SIZE (c.enclaveHash + BitVec.ofNat 64 i)
  ident : MDSIZE + c.keyIdentSize.toNat < 2 ^ 31 → ∀ i < c.keyIdentSize.toNat,
    ¬ InBytes c.info (MDSIZE + c.keyIdentSize.toNat) (c.keyIdent + BitVec.ofNat 64 i)
  key : MDSIZE + c.keyIdentSize.toNat < 2 ^ 31 → ∀ i < SEALING_KEY_SIZE,
    ¬ InBytes c.info (MDSIZE + c.keyIdentSize.toNat) (c.key + BitVec.ofNat 64 i)

end SealingCall

/-- The cryptographic functions of the monitor with the derivation that the source has. -/
def Crypto.DerivesBySource (C : Crypto) : Prop :=
  ∀ ikm info, C.kdf ikm info SEALING_KEY_SIZE = some (sha3512.hkdf none ikm info SEALING_KEY_SIZE)

end Dorami.Sm
