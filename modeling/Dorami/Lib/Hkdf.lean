import Mathlib.Algebra.GroupWithZero.Nat
import Mathlib.Order.Fin.Basic
import Mathlib.Tactic.Common

/-!
# HMAC and HKDF

HMAC (RFC 2104) and HKDF (RFC 5869) over a hash function on byte strings. A block of HKDF is as long
as a hash, so byte `k` of the output is in block `k / hashLen`.
-/

namespace Dorami.Lib

/-- A hash function with the sizes of its blocks and hashes in bytes. -/
structure HashFn where
  hash : List (BitVec 8) → List (BitVec 8)
  blockLen : Nat
  hashLen : Nat
  length_hash : ∀ text, (hash text).length = hashLen
  hashLen_pos : 0 < hashLen
  hashLen_le : hashLen ≤ blockLen

namespace HashFn

variable (H : HashFn)

/-- A key is hashed if it is longer than a block, and filled up with zeros. -/
def padKey (key : List (BitVec 8)) : List (BitVec 8) :=
  let key := if H.blockLen < key.length then H.hash key else key
  key ++ List.replicate (H.blockLen - key.length) 0

def hmac (key text : List (BitVec 8)) : List (BitVec 8) :=
  H.hash ((H.padKey key).map (· ^^^ 0x5c) ++ H.hash ((H.padKey key).map (· ^^^ 0x36) ++ text))

/-- `PRK`; without a salt the key is a string of zeros. -/
def extract (salt : Option (List (BitVec 8))) (ikm : List (BitVec 8)) : List (BitVec 8) :=
  H.hmac (salt.getD (List.replicate H.hashLen 0)) ikm

/-- `T(i)`; `T(0)` is empty. -/
def block (prk info : List (BitVec 8)) : Nat → List (BitVec 8)
  | 0 => []
  | i + 1 => H.hmac prk (block prk info i ++ info ++ [BitVec.ofNat 8 (i + 1)])

/-- `T(1) ‖ … ‖ T(n)`. -/
def blocks (prk info : List (BitVec 8)) (n : Nat) : List (BitVec 8) :=
  (List.range n).flatMap fun i => H.block prk info (i + 1)

/-- HKDF, for outputs of at most 255 blocks. -/
def hkdf (salt : Option (List (BitVec 8))) (ikm info : List (BitVec 8)) (len : Nat) :
    List (BitVec 8) :=
  (H.blocks (H.extract salt ikm) info 255).take len

variable {H}

theorem padKey_long {key : List (BitVec 8)} (h : H.blockLen < key.length) :
    H.padKey key = H.hash key ++ List.replicate (H.blockLen - H.hashLen) 0 := by
  unfold padKey
  rw [if_pos h]
  dsimp only
  rw [H.length_hash]

theorem padKey_short {key : List (BitVec 8)} (h : ¬ H.blockLen < key.length) :
    H.padKey key = key ++ List.replicate (H.blockLen - key.length) 0 := by
  unfold padKey
  rw [if_neg h]

theorem length_hmac (key text : List (BitVec 8)) : (H.hmac key text).length = H.hashLen :=
  H.length_hash _

/-- An empty salt is as good as none. -/
theorem padKey_nil : H.padKey [] = H.padKey (List.replicate H.hashLen 0) := by
  have hle := H.hashLen_le
  have hzeros : ¬ H.blockLen < (List.replicate H.hashLen (0 : BitVec 8)).length := by
    rw [List.length_replicate]
    exact Nat.not_lt.mpr hle
  rw [padKey_short (Nat.not_lt_zero _), padKey_short hzeros, List.length_replicate,
    List.replicate_append_replicate, List.nil_append, List.length_nil]
  congr 1
  omega

theorem extract_nil (ikm : List (BitVec 8)) : H.extract (some []) ikm = H.extract none ikm := by
  show H.hmac [] ikm = H.hmac (List.replicate H.hashLen 0) ikm
  unfold hmac
  rw [padKey_nil]

theorem blocks_succ (prk info : List (BitVec 8)) (n : Nat) :
    H.blocks prk info (n + 1) = H.blocks prk info n ++ H.block prk info (n + 1) := by
  unfold blocks
  rw [List.range_succ, List.flatMap_append, List.flatMap_singleton]

theorem length_blocks (prk info : List (BitVec 8)) (n : Nat) :
    (H.blocks prk info n).length = n * H.hashLen := by
  induction n with
  | zero => rw [Nat.zero_mul]; rfl
  | succ n ih =>
    have hblock : (H.block prk info (n + 1)).length = H.hashLen := length_hmac _ _
    rw [blocks_succ, List.length_append, ih, hblock, Nat.succ_mul]

/-- The output does not depend on how many blocks follow it. -/
theorem take_blocks {prk info : List (BitVec 8)} {len n k : Nat} (hlen : len ≤ n * H.hashLen)
    (hnk : n ≤ k) : (H.blocks prk info k).take len = (H.blocks prk info n).take len := by
  obtain ⟨j, rfl⟩ := Nat.exists_eq_add_of_le hnk
  clear hnk
  induction j with
  | zero => rfl
  | succ j ih =>
    have hle : len ≤ (H.blocks prk info (n + j)).length := by
      rw [length_blocks]
      exact Nat.le_trans hlen (Nat.mul_le_mul_right _ (Nat.le_add_right n j))
    rw [← Nat.add_assoc, blocks_succ, List.take_append_of_le_length hle, ih]

end HashFn

end Dorami.Lib
