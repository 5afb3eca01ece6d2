import Dorami.Lib.Run
import Dorami.Riscv.Pmp

/-!
# SHA-3 (`sha3.c`)

The state is kept as 25 words. Byte `j` of the union is byte `j % 8` of word `j / 8`, as on a
little-endian machine, for which the conversions in `sha3_keccakf` are compiled out.
-/

namespace Dorami.Sm

open Riscv Lib

/-! ## The permutation -/

abbrev Sha3State := Vector Word 25

def rotl64 (x : Word) (y : Nat) : Word := x <<< y ||| x >>> (64 - y)

def keccakfRndc : List Word :=
  [0x0000000000000001, 0x0000000000008082, 0x800000000000808a,
   0x8000000080008000, 0x000000000000808b, 0x0000000080000001,
   0x8000000080008081, 0x8000000000008009, 0x000000000000008a,
   0x0000000000000088, 0x0000000080008009, 0x000000008000000a,
   0x000000008000808b, 0x800000000000008b, 0x8000000000008089,
   0x8000000000008003, 0x8000000000008002, 0x8000000000000080,
   0x000000000000800a, 0x800000008000000a, 0x8000000080008081,
   0x8000000000008080, 0x0000000080000001, 0x8000000080008008]

def keccakfRotc : List Nat :=
  [1, 3, 6, 10, 15, 21, 28, 36, 45, 55, 2, 14, 27, 41, 56, 8, 25, 43, 62, 18, 39, 61, 20, 44]

def keccakfPiln : List (Fin 25) :=
  [10, 7, 11, 17, 18, 3, 5, 16, 8, 21, 24, 4, 15, 23, 19, 13, 12, 2, 20, 14, 22, 9, 6, 1]

/-- Lane `i` of row `j`. -/
def Sha3State.lane (st : Sha3State) (j i : Fin 5) : Word := st.get ⟨5 * j.val + i.val, by omega⟩

/-- The state with lane `f j i` at each place. -/
def Sha3State.ofLanes (f : Fin 5 → Fin 5 → Word) : Sha3State :=
  Vector.ofFn fun k : Fin 25 => f ⟨k.val / 5, by omega⟩ ⟨k.val % 5, by omega⟩

def sha3Theta (st : Sha3State) : Sha3State :=
  let bc : Vector Word 5 := Vector.ofFn fun i =>
    st.lane 0 i ^^^ st.lane 1 i ^^^ st.lane 2 i ^^^ st.lane 3 i ^^^ st.lane 4 i
  .ofLanes fun j i => st.lane j i ^^^ (bc.get (i + 4) ^^^ rotl64 (bc.get (i + 1)) 1)

/-- Each turn puts the rotated word at its new place and takes up the one that was there. -/
def sha3RhoPi (st : Sha3State) : Sha3State :=
  ((keccakfPiln.zip keccakfRotc).foldl
    (fun (acc : Sha3State × Word) turn =>
      (acc.1.set turn.1 (rotl64 acc.2 turn.2), acc.1.get turn.1)) (st, st.get 1)).1

def sha3Chi (st : Sha3State) : Sha3State :=
  .ofLanes fun j i => st.lane j i ^^^ (~~~st.lane j (i + 1) &&& st.lane j (i + 2))

def sha3Round (st : Sha3State) (rndc : Word) : Sha3State :=
  let st := sha3Chi (sha3RhoPi (sha3Theta st))
  st.set 0 (st.get 0 ^^^ rndc)

def sha3Keccakf (st : Sha3State) : Sha3State := run sha3Round st keccakfRndc

/-! ## Hashing -/

/-- `st.b[j]`. -/
def Sha3State.byte (st : Sha3State) (j : Fin 200) : Byte :=
  (st.get ⟨j.val / 8, by omega⟩).extractLsb' (8 * (j.val % 8)) 8

/-- `st.b[j] ^= b`. -/
def Sha3State.xorByte (st : Sha3State) (j : Fin 200) (b : Byte) : Sha3State :=
  let k : Fin 25 := ⟨j.val / 8, by omega⟩
  st.set k (st.get k ^^^ b.setWidth 64 <<< (8 * (j.val % 8)))

/-- `sha3_ctx_t`. The next byte always goes into the part of the state that is absorbed to. -/
structure Sha3Ctx where
  st : Sha3State
  pt : Nat
  rsiz : Nat
  mdlen : Nat
  pt_lt : pt < rsiz
  rsiz_le : rsiz ≤ 200
  mdlen_le : mdlen ≤ 200

def sha3Init (mdlen : Nat) (h : mdlen < 100) : Sha3Ctx where
  st := Vector.replicate 25 0
  pt := 0
  rsiz := 200 - 2 * mdlen
  mdlen := mdlen
  pt_lt := by omega
  rsiz_le := by omega
  mdlen_le := by omega

/-- One turn of the loop in `sha3_update`. -/
def Sha3Ctx.absorb (c : Sha3Ctx) (b : Byte) : Sha3Ctx :=
  let st := c.st.xorByte ⟨c.pt, Nat.lt_of_lt_of_le c.pt_lt c.rsiz_le⟩ b
  if h : c.rsiz ≤ c.pt + 1 then
    { c with st := sha3Keccakf st, pt := 0, pt_lt := Nat.zero_lt_of_lt c.pt_lt }
  else { c with st := st, pt := c.pt + 1, pt_lt := Nat.lt_of_not_le h }

def sha3Update (c : Sha3Ctx) (data : List Byte) : Sha3Ctx := run Sha3Ctx.absorb c data

/-- The hash; the context is initialised again before it is used. -/
def sha3Final (c : Sha3Ctx) : List Byte :=
  have hpos := Nat.zero_lt_of_lt c.pt_lt
  have hle := c.rsiz_le
  let st := c.st.xorByte ⟨c.pt, Nat.lt_of_lt_of_le c.pt_lt c.rsiz_le⟩ 0x06
  let st := sha3Keccakf (st.xorByte ⟨c.rsiz - 1, by omega⟩ 0x80)
  List.ofFn fun i : Fin c.mdlen => st.byte ⟨i.val, Nat.lt_of_lt_of_le i.isLt c.mdlen_le⟩

/-- `sha3`. -/
def sha3 (data : List Byte) (mdlen : Nat) (h : mdlen < 100) : List Byte :=
  sha3Final (sha3Update (sha3Init mdlen h) data)

end Dorami.Sm
