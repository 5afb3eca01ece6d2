import Dorami.Lib.LittleEndian
import Dorami.Sm.Sha3

/-!
# Scalars (`ed25519/sc.c`)

Scalars modulo the order of the base point are numbers of 12 or 24 limbs of 21 bits in signed 64-bit
words. Both functions end in the same way; what they do to the limbs is written down as a list of
operations, each of which stands for the lines of one fold or one carry.
-/

namespace Dorami.Sm.Ed25519

open Riscv Lib

def load3 (inp : List Byte) : Word :=
  (inp.getD 0 0).setWidth 64 ||| (inp.getD 1 0).setWidth 64 <<< 8 |||
    (inp.getD 2 0).setWidth 64 <<< 16

def load4 (inp : List Byte) : Word :=
  (inp.getD 0 0).setWidth 64 ||| (inp.getD 1 0).setWidth 64 <<< 8 |||
    (inp.getD 2 0).setWidth 64 <<< 16 ||| (inp.getD 3 0).setWidth 64 <<< 24

def limbMask : Word := 2097151

/-- The limbs 0 to 10, which both functions load in the same way. -/
def scLoadLow (s : List Byte) : List Word :=
  [limbMask &&& load3 s,
   limbMask &&& load4 (s.drop 2) >>> 5,
   limbMask &&& load3 (s.drop 5) >>> 2,
   limbMask &&& load4 (s.drop 7) >>> 7,
   limbMask &&& load4 (s.drop 10) >>> 4,
   limbMask &&& load3 (s.drop 13) >>> 1,
   limbMask &&& load4 (s.drop 15) >>> 6,
   limbMask &&& load3 (s.drop 18) >>> 3,
   limbMask &&& load3 (s.drop 21),
   limbMask &&& load4 (s.drop 23) >>> 5,
   limbMask &&& load3 (s.drop 26) >>> 2]

/-- `s0` to `s23` of `sc_reduce`. -/
def scLoad64 (s : List Byte) : List Word :=
  scLoadLow s ++
  [limbMask &&& load4 (s.drop 28) >>> 7,
   limbMask &&& load4 (s.drop 31) >>> 4,
   limbMask &&& load3 (s.drop 34) >>> 1,
   limbMask &&& load4 (s.drop 36) >>> 6,
   limbMask &&& load3 (s.drop 39) >>> 3,
   limbMask &&& load3 (s.drop 42),
   limbMask &&& load4 (s.drop 44) >>> 5,
   limbMask &&& load3 (s.drop 47) >>> 2,
   limbMask &&& load4 (s.drop 49) >>> 7,
   limbMask &&& load4 (s.drop 52) >>> 4,
   limbMask &&& load3 (s.drop 55) >>> 1,
   limbMask &&& load4 (s.drop 57) >>> 6,
   load4 (s.drop 60) >>> 3]

/-- `a0` to `a11` of `sc_muladd`, and the same for `b` and `c`. -/
def scLoad32 (a : List Byte) : List Word := scLoadLow a ++ [load4 (a.drop 28) >>> 7]

/-- `s[k - 12] += s[k] * 666643` and so on, `s[k] = 0`. -/
def scFold (k : Nat) : LimbOp :=
  .fold k [(k - 12, 666643), (k - 11, 470296), (k - 10, 654183), (k - 9, -997805), (k - 8, 136657),
    (k - 7, -683901)]

/-- `carry = (s[k] + (1 << 20)) >> 21; s[k + 1] += carry; s[k] -= carry << 21`. -/
def scRound (k : Nat) : LimbOp := .carry k (k + 1) 21 true 1

/-- `carry = s[k] >> 21; s[k + 1] += carry; s[k] -= carry << 21`. -/
def scCarry (k : Nat) : LimbOp := .carry k (k + 1) 21 false 1

/-- The common part of both functions, up to the first carry through all limbs. -/
def scReduceOps : List LimbOp :=
  [23, 22, 21, 20, 19, 18].map scFold ++ [6, 8, 10, 12, 14, 16].map scRound ++
  [7, 9, 11, 13, 15].map scRound ++ [17, 16, 15, 14, 13, 12].map scFold ++
  [0, 2, 4, 6, 8, 10].map scRound ++ [1, 3, 5, 7, 9, 11].map scRound ++ [12].map scFold ++
  [0, 1, 2, 3, 4, 5, 6, 7, 8, 9, 10, 11].map scCarry

/-- The rest. -/
def scFinishOps : List LimbOp := [12].map scFold ++ [0, 1, 2, 3, 4, 5, 6, 7, 8, 9, 10].map scCarry

def scStore (l : List Word) : List Byte :=
  let s := fun i => l.getD i 0
  [((s 0).sshiftRight 0).setWidth 8,
   ((s 0).sshiftRight 8).setWidth 8,
   ((s 0).sshiftRight 16 ||| s 1 <<< 5).setWidth 8,
   ((s 1).sshiftRight 3).setWidth 8,
   ((s 1).sshiftRight 11).setWidth 8,
   ((s 1).sshiftRight 19 ||| s 2 <<< 2).setWidth 8,
   ((s 2).sshiftRight 6).setWidth 8,
   ((s 2).sshiftRight 14 ||| s 3 <<< 7).setWidth 8,
   ((s 3).sshiftRight 1).setWidth 8,
   ((s 3).sshiftRight 9).setWidth 8,
   ((s 3).sshiftRight 17 ||| s 4 <<< 4).setWidth 8,
   ((s 4).sshiftRight 4).setWidth 8,
   ((s 4).sshiftRight 12).setWidth 8,
   ((s 4).sshiftRight 20 ||| s 5 <<< 1).setWidth 8,
   ((s 5).sshiftRight 7).setWidth 8,
   ((s 5).sshiftRight 15 ||| s 6 <<< 6).setWidth 8,
   ((s 6).sshiftRight 2).setWidth 8,
   ((s 6).sshiftRight 10).setWidth 8,
   ((s 6).sshiftRight 18 ||| s 7 <<< 3).setWidth 8,
   ((s 7).sshiftRight 5).setWidth 8,
   ((s 7).sshiftRight 13).setWidth 8,
   ((s 8).sshiftRight 0).setWidth 8,
   ((s 8).sshiftRight 8).setWidth 8,
   ((s 8).sshiftRight 16 ||| s 9 <<< 5).setWidth 8,
   ((s 9).sshiftRight 3).setWidth 8,
   ((s 9).sshiftRight 11).setWidth 8,
   ((s 9).sshiftRight 19 ||| s 10 <<< 2).setWidth 8,
   ((s 10).sshiftRight 6).setWidth 8,
   ((s 10).sshiftRight 14 ||| s 11 <<< 7).setWidth 8,
   ((s 11).sshiftRight 1).setWidth 8,
   ((s 11).sshiftRight 9).setWidth 8,
   ((s 11).sshiftRight 17).setWidth 8]

/-- The first 32 bytes of the buffer afterwards; the others are not used. -/
def scReduce (s : List Byte) : List Byte :=
  scStore (run LimbOp.exec (scLoad64 s) (scReduceOps ++ scFinishOps))

/-- `s[k] = c[k] + a[0] * b[k] + a[1] * b[k - 1] + ...`; there is no `c[k]` from 12 on. -/
def scProduct (a b c : List Word) (k : Nat) : Word :=
  (List.range 12).foldl
    (fun acc i => if i ≤ k ∧ k - i < 12 then acc + a.getD i 0 * b.getD (k - i) 0 else acc)
      (c.getD k 0)

/-- The carries `sc_muladd` begins with. -/
def scMuladdOps : List LimbOp :=
  [0, 2, 4, 6, 8, 10, 12, 14, 16, 18, 20, 22].map scRound ++
  [1, 3, 5, 7, 9, 11, 13, 15, 17, 19, 21].map scRound

def scMuladd (a b c : List Byte) : List Byte :=
  scStore (run LimbOp.exec ((List.range 24).map (scProduct (scLoad32 a) (scLoad32 b) (scLoad32 c)))
    (scMuladdOps ++ scReduceOps ++ scFinishOps))

/-- The order of the base point. -/
def order : Nat := 2 ^ 252 + 27742317777372353535851937790883648493

end Dorami.Sm.Ed25519
