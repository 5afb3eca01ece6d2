import Dorami.Lib.Hkdf
import Dorami.Riscv.Asm
import Dorami.Sm.Sha3

/-!
# HMAC and HKDF (`hmac_sha3.c`, `hkdf_sha3_512.c`)

A pointer to constant data is the function that gives the bytes from it on, and comes with a length
as in the source. The output of `hkdf_expand` goes to memory, and its info string is read again in
each round, from the memory as it is then. Lengths are `int`; those of a key, a salt and an input
key are never negative, the one of a message can be.
-/

namespace Dorami.Sm

open Riscv Lib

/-- The bytes a pointer leads to. -/
abbrev Buffer := Nat → Byte

/-- The first `n` bytes. -/
def Buffer.bytes (p : Buffer) (n : Nat) : List Byte := (List.range n).map p

/-- The buffer of a local array. -/
def bufferOf (bytes : List Byte) : Buffer := fun i => bytes.getD i 0

/-- The bytes of memory from an address on. -/
def bufferAt (p : Word) (m : Mem) : Buffer := fun i => m (p + BitVec.ofNat 64 i)

def SHA3_512_BLOCK_LEN : Nat := 72
def SHA3_512_HASH_LEN : Nat := 64

/-! ## HMAC -/

/-- `hmac_sha3_ctx_t`. -/
structure HmacSha3Ctx where
  sha3Ctx : Sha3Ctx
  key : List Byte

def prepareKey (key : Buffer) (keyLen : Nat) : List Byte :=
  if SHA3_512_BLOCK_LEN < keyLen then
    sha3Final (sha3Update (sha3Init SHA3_512_HASH_LEN (by decide)) (key.bytes keyLen)) ++
      List.replicate (SHA3_512_BLOCK_LEN - SHA3_512_HASH_LEN) 0
  else key.bytes keyLen ++ List.replicate (SHA3_512_BLOCK_LEN - keyLen) 0

def hmacSha3Init (key : Buffer) (keyLen : Nat) : HmacSha3Ctx :=
  let newKey := prepareKey key keyLen
  { sha3Ctx := sha3Update (sha3Init SHA3_512_HASH_LEN (by decide)) (newKey.map (· ^^^ 0x36))
    key := newKey }

/-- A message of negative length is left out. -/
def hmacSha3Update (ctx : HmacSha3Ctx) (text : Buffer) (textLen : Int) : HmacSha3Ctx :=
  if 0 < textLen then { ctx with sha3Ctx := sha3Update ctx.sha3Ctx (text.bytes textLen.toNat) }
  else ctx

def hmacSha3Final (ctx : HmacSha3Ctx) : List Byte :=
  let innerHash := sha3Final ctx.sha3Ctx
  let c := sha3Update (sha3Init SHA3_512_HASH_LEN (by decide)) (ctx.key.map (· ^^^ 0x5c))
  sha3Final (sha3Update c innerHash)

def hmacSha3 (key : Buffer) (keyLen : Nat) (text : Buffer) (textLen : Int) : List Byte :=
  hmacSha3Final (hmacSha3Update (hmacSha3Init key keyLen) text textLen)

/-! ## HKDF -/

/-- The division of C rounds towards zero. -/
def divCeil (op1 op2 : Int) : Int :=
  if op1.tmod op2 = 0 then op1.tdiv op2 else op1.tdiv op2 + 1

/-- A missing salt is `NULL`. -/
def hkdfExtract (salt : Option Buffer) (saltLen : Nat) (ikm : Buffer) (ikmLen : Nat) : List Byte :=
  match salt with
  | none => hmacSha3 (bufferOf (List.replicate SHA3_512_HASH_LEN 0)) SHA3_512_HASH_LEN ikm ikmLen
  | some p =>
    if saltLen = 0 then
      hmacSha3 (bufferOf (List.replicate SHA3_512_HASH_LEN 0)) SHA3_512_HASH_LEN ikm ikmLen
    else hmacSha3 p saltLen ikm ikmLen

/-- The messages of round `i` in the order of the updates, with `t` from the round before. -/
def expandUpdates (info : Buffer) (infoLen : Int) (i : Byte) (t : List Byte) :
    List (Buffer × Int) :=
  (if 1 < i.toNat then [(bufferOf t, (SHA3_512_HASH_LEN : Int))] else []) ++
    [(info, infoLen), (bufferOf [i], 1)]

/-- The array `t` after round `i`. -/
def expandRound (prk : Buffer) (prkLen : Nat) (info : Buffer) (infoLen : Int) (i : Byte)
    (t : List Byte) : List Byte :=
  hmacSha3Final ((expandUpdates info infoLen i t).foldl
    (fun ctx text => hmacSha3Update ctx text.1 text.2) (hmacSha3Init prk prkLen))

/-- `sbi_memcpy` out of a local array. -/
def copyOut (m : Mem) (dst : Word) (bytes : List Byte) : Mem :=
  fun a => (bytes[(a - dst).toNat]?).getD (m a)

/-- The loop of `hkdf_expand`, whose counter is an `unsigned char`; `none` if `fuel` rounds are not
enough. -/
def hkdfExpandLoop (prk : Buffer) (prkLen : Nat) (info : Mem → Buffer) (infoLen : Int) (okm : Word)
    (okmLen n : Int) : (fuel : Nat) → (i : Byte) → (t : List Byte) → Mem → Option Mem
  | 0, _, _, _ => none
  | fuel + 1, i, t, m =>
    if (i.toNat : Int) ≤ n then
      let t := expandRound prk prkLen (info m) infoLen i t
      let offset : Int := ((i.toNat : Int) - 1) * SHA3_512_HASH_LEN
      let count : Nat := if (i.toNat : Int) < n then SHA3_512_HASH_LEN else (okmLen - offset).toNat
      hkdfExpandLoop prk prkLen info infoLen okm okmLen n fuel (i + 1) t
        (copyOut m (okm + BitVec.ofInt 64 offset) (t.take count))
    else some m

def hkdfExpand (prk : Buffer) (prkLen : Nat) (info : Mem → Buffer) (infoLen : Int) (okm : Word)
    (okmLen : Int) (fuel : Nat) (m : Mem) : Option (Int × Mem) :=
  let n := divCeil okmLen SHA3_512_HASH_LEN
  if prkLen < SHA3_512_HASH_LEN then some (-1, m)
  else if 255 * (SHA3_512_HASH_LEN : Int) < okmLen then some (-1, m)
  else (hkdfExpandLoop prk prkLen info infoLen okm okmLen n fuel 1 [] m).map fun m => (0, m)

/-- `hkdf_sha3_512`: the return value and the memory. -/
def hkdfSha3512 (salt : Option Buffer) (saltLen : Nat) (ikm : Buffer) (ikmLen : Nat)
    (info : Mem → Buffer) (infoLen : Int) (okm : Word) (okmLen : Int) (fuel : Nat) (m : Mem) :
    Option (Int × Mem) :=
  if 255 * (SHA3_512_HASH_LEN : Int) < okmLen then some (-1, m)
  else
    let prk := hkdfExtract salt saltLen ikm ikmLen
    hkdfExpand (bufferOf prk) SHA3_512_HASH_LEN info infoLen okm okmLen fuel m

/-! ## What they are to compute -/

theorem absorb_mdlen (c : Sha3Ctx) (b : Byte) : (c.absorb b).mdlen = c.mdlen := by
  unfold Sha3Ctx.absorb
  dsimp only
  split_ifs <;> rfl

theorem sha3Update_mdlen (bs : List Byte) : ∀ c : Sha3Ctx, (sha3Update c bs).mdlen = c.mdlen := by
  induction bs with
  | nil => intro c; rfl
  | cons b bs ih => intro c; exact (ih (c.absorb b)).trans (absorb_mdlen c b)

theorem hashLen_lt : SHA3_512_HASH_LEN < 100 := by decide

theorem length_sha3 (text : List Byte) :
    (sha3 text SHA3_512_HASH_LEN hashLen_lt).length = SHA3_512_HASH_LEN := by
  unfold sha3 sha3Final
  rw [List.length_ofFn, sha3Update_mdlen]
  rfl

/-- SHA3-512 as the source computes it. -/
def sha3512 : HashFn where
  hash text := sha3 text SHA3_512_HASH_LEN hashLen_lt
  blockLen := SHA3_512_BLOCK_LEN
  hashLen := SHA3_512_HASH_LEN
  length_hash := length_sha3
  hashLen_pos := by decide
  hashLen_le := by decide

/-- The text of a list of updates. -/
def updatesText (updates : List (Buffer × Int)) : List Byte :=
  updates.flatMap fun text => text.1.bytes text.2.toNat

/-- The call ends, returns 0, and writes the `okmLen` bytes of HKDF at `okm` and nothing else. -/
def ImplementsHkdf (salt : Option Buffer) (saltLen : Nat) (ikm : Buffer) (ikmLen : Nat)
    (info : Buffer) (infoLen : Int) (okm : Word) (okmLen : Int) (m : Mem) : Prop :=
  ∃ fuel m',
    hkdfSha3512 salt saltLen ikm ikmLen (fun _ => info) infoLen okm okmLen fuel m = some (0, m') ∧
    (∀ k < okmLen.toNat, some (m' (okm + BitVec.ofNat 64 k)) =
      (sha3512.hkdf (salt.map (·.bytes saltLen)) (ikm.bytes ikmLen) (info.bytes infoLen.toNat)
        okmLen.toNat)[k]?) ∧
    ∀ a : Word, okmLen.toNat ≤ (a - okm).toNat → m' a = m a

end Dorami.Sm
