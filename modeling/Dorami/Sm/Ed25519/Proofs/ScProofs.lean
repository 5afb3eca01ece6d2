import Dorami.Sm.Ed25519.Sc
import Mathlib.Algebra.Order.BigOperators.Group.Finset
import Mathlib.Tactic.IntervalCases

/-!
# Proofs about scalars

`sc_reduce` and `sc_muladd` give the one number below the order of the base point that is
congruent to the argument, or to the product and the sum of the arguments. No word overflows on
the way. The carries before the end leave limb 12 between -1 and 0, so that one more fold is
enough to get below the order.
-/

namespace Dorami.Sm.Ed25519

open Riscv Lib

/-! ## Loading -/

section Load

variable (inp s : List Byte)

theorem pick3 (f : Nat → Bool) (k : Nat) :
    (decide (k = 0) && f 0 || decide (k = 1) && f 1 || decide (k = 2) && f 2) =
        (decide (k < 3) && f k) := by
  rcases k with _ | _ | _ | k <;> simp

theorem pick4 (f : Nat → Bool) (k : Nat) :
    (decide (k = 0) && f 0 || decide (k = 1) && f 1 ||
        decide (k = 2) && f 2 || decide (k = 3) && f 3) =
      (decide (k < 4) && f k) := by
  rcases k with _ | _ | _ | _ | k <;> simp

theorem toNat_load4 : (load4 inp).toNat = leNat inp % 2 ^ 32 := by
  apply Nat.eq_of_testBit_eq
  intro i
  rw [Nat.testBit_mod_two_pow, testBit_leNat, BitVec.testBit_toNat]
  change ((inp.getD 0 0).setWidth 64 ||| (inp.getD 1 0).setWidth 64 <<< (8 * 1) |||
    (inp.getD 2 0).setWidth 64 <<< (8 * 2) ||| (inp.getD 3 0).setWidth 64 <<< (8 * 3)).getLsbD i = _
  rw [BitVec.getLsbD_or, BitVec.getLsbD_or, BitVec.getLsbD_or, getLsbD_byte,
    getLsbD_byteAt _ (by decide), getLsbD_byteAt _ (by decide), getLsbD_byteAt _ (by decide)]
  rw [show decide (i < 32) = decide (i / 8 < 4) from decide_eq_decide.2 (by omega)]
  exact pick4 (fun j => (inp.getD j 0).getLsbD (i % 8)) (i / 8)

theorem toNat_load3 : (load3 inp).toNat = leNat inp % 2 ^ 24 := by
  apply Nat.eq_of_testBit_eq
  intro i
  rw [Nat.testBit_mod_two_pow, testBit_leNat, BitVec.testBit_toNat]
  change ((inp.getD 0 0).setWidth 64 ||| (inp.getD 1 0).setWidth 64 <<< (8 * 1) |||
    (inp.getD 2 0).setWidth 64 <<< (8 * 2)).getLsbD i = _
  rw [BitVec.getLsbD_or, BitVec.getLsbD_or, getLsbD_byte,
    getLsbD_byteAt _ (by decide), getLsbD_byteAt _ (by decide)]
  rw [show decide (i < 24) = decide (i / 8 < 3) from decide_eq_decide.2 (by omega)]
  exact pick3 (fun j => (inp.getD j 0).getLsbD (i % 8)) (i / 8)

/-- The bits from `8 * o + sh` on, as many as a load leaves. -/
theorem slice_load {x n o sh : Nat} (h : sh ≤ n) :
    x / 2 ^ (8 * o) % 2 ^ n / 2 ^ sh = x / 2 ^ (8 * o + sh) % 2 ^ (n - sh) := by
  apply Nat.eq_of_testBit_eq
  intro i
  rw [Nat.testBit_div_two_pow, Nat.testBit_mod_two_pow, Nat.testBit_div_two_pow,
    Nat.testBit_mod_two_pow, Nat.testBit_div_two_pow, show i + sh + 8 * o = i + (8 * o + sh) by
      omega]
  congr 1
  exact decide_eq_decide.2 (by omega)

theorem toNat_mask (w : Word) : (limbMask &&& w).toNat = w.toNat % 2 ^ 21 := by
  rw [BitVec.toNat_and, Nat.and_comm]
  exact Nat.and_two_pow_sub_one_eq_mod w.toNat 21

theorem mask_load4 (o : Nat) {sh i : Nat} (h : sh ≤ 11) (hi : 8 * o + sh = 21 * i) :
    (limbMask &&& load4 (s.drop o) >>> sh).toNat = leNat s / 2 ^ (21 * i) % 2 ^ 21 := by
  rw [← hi, toNat_mask, BitVec.toNat_ushiftRight, Nat.shiftRight_eq_div_pow,
    toNat_load4, leNat_drop, slice_load (by omega),
    Nat.mod_mod_of_dvd _ (Nat.pow_dvd_pow 2 (by omega))]

theorem mask_load3 (o : Nat) {sh i : Nat} (h : sh ≤ 3) (hi : 8 * o + sh = 21 * i) :
    (limbMask &&& load3 (s.drop o) >>> sh).toNat = leNat s / 2 ^ (21 * i) % 2 ^ 21 := by
  rw [← hi, toNat_mask, BitVec.toNat_ushiftRight, Nat.shiftRight_eq_div_pow,
    toNat_load3, leNat_drop, slice_load (by omega),
    Nat.mod_mod_of_dvd _ (Nat.pow_dvd_pow 2 (by omega))]

/-- The last limb is not masked: there is nothing above it. -/
theorem top_load4 (o : Nat) {sh i : Nat} (hi : 8 * o + sh = 21 * i) (hs : s.length = o + 4) :
    (load4 (s.drop o) >>> sh).toNat = leNat s / 2 ^ (21 * i) := by
  have hrest : leNat s / 2 ^ (8 * o) < 2 ^ 32 := by
    have hlt := leNat_lt s
    rw [hs] at hlt
    rw [Nat.div_lt_iff_lt_mul (Nat.two_pow_pos _), ← Nat.pow_add]
    exact hlt.trans_eq (congrArg (2 ^ ·) (by omega))
  rw [BitVec.toNat_ushiftRight, Nat.shiftRight_eq_div_pow, toNat_load4, leNat_drop,
    Nat.mod_eq_of_lt hrest, Nat.div_div_eq_div_mul, ← Nat.pow_add, hi]

/-- Limb `i` that is loaded with a mask. -/
theorem toNat_scLoadLow {i : Nat} (hi : i < 11) :
    ((scLoadLow s).getD i 0).toNat = leNat s / 2 ^ (21 * i) % 2 ^ 21 := by
  interval_cases i
  · exact mask_load3 s 0 (Nat.zero_le 3) rfl
  · exact mask_load4 s 2 (by decide) rfl
  · exact mask_load3 s 5 (by decide) rfl
  · exact mask_load4 s 7 (by decide) rfl
  · exact mask_load4 s 10 (by decide) rfl
  · exact mask_load3 s 13 (by decide) rfl
  · exact mask_load4 s 15 (by decide) rfl
  · exact mask_load3 s 18 (by decide) rfl
  · exact mask_load3 s 21 (Nat.zero_le 3) rfl
  · exact mask_load4 s 23 (by decide) rfl
  · exact mask_load3 s 26 (by decide) rfl

theorem getD_scLoadLow (l : List Word) {i : Nat} (hi : i < 11) :
    (scLoadLow s ++ l).getD i 0 = (scLoadLow s).getD i 0 :=
  List.getD_append _ _ _ _ hi

theorem cut_scLoad64 (hs : s.length = 64) : Cut 21 23 (leNat s) (scLoad64 s) := by
  refine ⟨?_, ?_⟩
  · intro i hi
    rcases Nat.lt_or_ge i 11 with hlow | hhigh
    · rw [scLoad64, getD_scLoadLow s _ hlow, toNat_scLoadLow s hlow]
    · interval_cases i
      · exact mask_load4 s 28 (by decide) rfl
      · exact mask_load4 s 31 (by decide) rfl
      · exact mask_load3 s 34 (by decide) rfl
      · exact mask_load4 s 36 (by decide) rfl
      · exact mask_load3 s 39 (by decide) rfl
      · exact mask_load3 s 42 (Nat.zero_le 3) rfl
      · exact mask_load4 s 44 (by decide) rfl
      · exact mask_load3 s 47 (by decide) rfl
      · exact mask_load4 s 49 (by decide) rfl
      · exact mask_load4 s 52 (by decide) rfl
      · exact mask_load3 s 55 (by decide) rfl
      · exact mask_load4 s 57 (by decide) rfl
  · exact top_load4 s 60 rfl hs

theorem cut_scLoad32 (hs : s.length = 32) : Cut 21 11 (leNat s) (scLoad32 s) := by
  refine ⟨?_, ?_⟩
  · intro i hi
    rw [scLoad32, getD_scLoadLow s _ hi, toNat_scLoadLow s hi]
  · exact top_load4 s 28 rfl hs

end Load

/-! ## The programs -/

/-- No limb of the argument of `sc_reduce` is larger. -/
def loadedBounds : List Interval := frontBounds 23 (0, 2 ^ 21 - 1) (0, 2 ^ 29 - 1) 0

/-- A bound on the limbs of the product of two numbers. -/
def productBounds : List Interval := frontBounds 23 (0, 2 ^ 54) (0, 0) 0

/-- What the first carry through all limbs leaves. -/
def carriedBounds : List Interval := frontBounds 12 (0, 2 ^ 21 - 1) (-1, 0) 11

/-- What is stored. -/
def finishedBounds : List Interval := frontBounds 11 (0, 2 ^ 21 - 1) (-1, 2 ^ 21) 12

def scReduceProgram : LimbProgram order (21 * ·) 24 loadedBounds carriedBounds where
  ops := scReduceOps
  bounds := by decide +kernel
  keeps := by decide +kernel

def scMuladdProgram : LimbProgram order (21 * ·) 24 productBounds carriedBounds where
  ops := scMuladdOps ++ scReduceOps
  bounds := by decide +kernel
  keeps := by decide +kernel

def scFinishProgram : LimbProgram order (21 * ·) 24 carriedBounds finishedBounds where
  ops := scFinishOps
  bounds := by decide +kernel
  keeps := by decide +kernel

/-! ## The last fold -/

section Finish

variable {l : List Word}

/-- A fold takes the order away as often as the limb says. -/
theorem value_scFold (s : Nat → Int) :
    limbsValue (21 * ·) 24 (LimbOp.exact s (scFold 12)) =
        limbsValue (21 * ·) 24 s - s 12 * order := by
  have hweight : LimbOp.weight (21 * ·)
      [(0, 666643), (1, 470296), (2, 654183), (3, -997805), (4, 136657), (5, -683901)] -
        2 ^ (21 * 12) = -(order : Int) := by
    simp [LimbOp.weight, order]
  rw [scFold, LimbOp.value_fold (by decide) (by decide), hweight, Int.mul_neg, Int.sub_eq_add_neg]

/-- A carry does not change the number at all. -/
theorem scCarry_keeps {k : Nat} (hk : k < 23) : (scCarry k).Keeps 0 (21 * ·) 24 := by
  refine ⟨by omega, by omega, by omega, ?_⟩
  show (0 : Int) ∣ 1 * 2 ^ (21 * (k + 1)) - 2 ^ (21 + 21 * k)
  rw [show 21 * (k + 1) = 21 + 21 * k by omega, Int.one_mul, Int.sub_self]

/-- The number in the limbs after the first carry, limb 12 of which is -1 or 0. -/
theorem carried_value (hl : LimbOp.InBounds l carriedBounds) :
    ∃ low : Int, 0 ≤ low ∧ low < 2 ^ 252 ∧ -1 ≤ ints l 12 ∧ ints l 12 ≤ 0 ∧
      limbsValue (21 * ·) 24 (ints l) = low + ints l 12 * 2 ^ 252 := by
  obtain ⟨hlow, htop, hzero⟩ := within_frontBounds.1 hl.within
  obtain ⟨h₁, h₂⟩ := limbsValue_range hlow
  refine ⟨_, h₁, h₂, htop.1, htop.2, ?_⟩
  rw [limbsValue_of_zero (show 13 ≤ 24 by decide) hzero, limbsValue_succ]

/-- The last fold gets to the remainder, and the carries after it do not change the number. -/
theorem finished_value (hl : LimbOp.InBounds l carriedBounds) :
    limbsValue (21 * ·) 24 (run LimbOp.exact (ints l) scFinishOps) =
      limbsValue (21 * ·) 24 (ints l) % order := by
  have hcarries : ∀ op ∈ [0, 1, 2, 3, 4, 5, 6, 7, 8, 9, 10].map scCarry,
      op.Keeps 0 (21 * ·) 24 := by
    intro op hop
    obtain ⟨k, hk, rfl⟩ := List.mem_map.1 hop
    have hlt : ∀ k ∈ [0, 1, 2, 3, 4, 5, 6, 7, 8, 9, 10], k < 23 := by decide
    exact scCarry_keeps (hlt k hk)
  have hrun : limbsValue (21 * ·) 24 (run LimbOp.exact (ints l) scFinishOps) =
      limbsValue (21 * ·) 24 (ints l) - ints l 12 * order := by
    rw [← value_scFold]
    exact Int.modEq_zero_iff.1 (LimbOp.value_run hcarries (LimbOp.exact (ints l) (scFold 12)))
  obtain ⟨low, h₁, h₂, h₃, h₄, hvalue⟩ := carried_value hl
  have horder : (2 : Int) ^ 252 < order := by
    rw [order]
    norm_num
  have hrange : 0 ≤ limbsValue (21 * ·) 24 (ints l) - ints l 12 * order ∧
      limbsValue (21 * ·) 24 (ints l) - ints l 12 * order < order := by
    rw [hvalue]
    rcases (by omega : ints l 12 = 0 ∨ ints l 12 = -1) with h | h
    · rw [h]
      omega
    · rw [h]
      omega
  rw [hrun, ← Int.emod_eq_of_lt hrange.1 hrange.2, Int.sub_mul_emod_self_right]

theorem cut_finished (hl : LimbOp.InBounds l carriedBounds) :
    Cut 21 11 (limbsValue (21 * ·) 24 (ints l) % order).toNat (run LimbOp.exec l scFinishOps) := by
  have hbounds : scFinishOps.foldlM LimbOp.bounds carriedBounds = some finishedBounds :=
    scFinishProgram.bounds
  obtain ⟨heq, hin, -⟩ := LimbOp.bounds_run hl hbounds
  obtain ⟨hlow, -, hzero⟩ := within_frontBounds.1 hin.within
  have hpos : 0 ≤ limbsValue (21 * ·) 24 (ints l) % order := Int.emod_nonneg _ (by decide)
  have hvalue : limbsValue (21 * ·) 12 (ints (run LimbOp.exec l scFinishOps)) =
      limbsValue (21 * ·) 24 (ints l) % order := by
    rw [← limbsValue_of_zero (show 12 ≤ 24 by decide) hzero, heq, finished_value hl]
  -- a negative limb 11 would make the number negative
  have htop : 0 ≤ ints (run LimbOp.exec l scFinishOps) 11 := by
    have hlt := (limbsValue_range hlow).2
    rw [← hvalue, limbsValue_succ] at hpos
    by_contra hneg
    have hle : ints (run LimbOp.exec l scFinishOps) 11 * 2 ^ (21 * 11) ≤ -1 * 2 ^ (21 * 11) :=
      Int.mul_le_mul_of_nonneg_right (by omega) (Int.le_of_lt (Int.pow_pos (by decide)))
    omega
  apply cut_of_value hlow htop
  rw [hvalue, Int.toNat_of_nonneg hpos]

end Finish

/-! ## Storing -/

section Store

variable {x t j : Nat} {l : List Word}

theorem storeOne (h : Cut 21 11 x l) (ht : t < 8) (a p : Nat)
    (hp : a ≤ 11 ∧ p + 8 ≤ 21 ∧ 21 * a + p = 8 * j) :
    (((l.getD a 0).sshiftRight p).setWidth 8).getLsbD t = x.testBit (8 * j + t) :=
  h.byte_one hp.1 hp.2.1 (by decide) hp.2.2 ht

theorem storeTwo (h : Cut 21 11 x l) (ht : t < 8) (a p q : Nat)
    (hp : a + 1 ≤ 11 ∧ p + q = 21 ∧ 21 * a + p = 8 * j) :
    (((l.getD a 0).sshiftRight p ||| l.getD (a + 1) 0 <<< q).setWidth 8).getLsbD t =
        x.testBit (8 * j + t) :=
  h.byte_two hp.1 hp.2.1 (by decide) (by decide) hp.2.2 ht

theorem scStore_bit (h : Cut 21 11 x l) (hj : j < 32) (ht : t < 8) :
    ((scStore l).getD j 0).getLsbD t = x.testBit (8 * j + t) := by
  interval_cases j
  · exact storeOne h ht 0 0 (by decide)
  · exact storeOne h ht 0 8 (by decide)
  · exact storeTwo h ht 0 16 5 (by decide)
  · exact storeOne h ht 1 3 (by decide)
  · exact storeOne h ht 1 11 (by decide)
  · exact storeTwo h ht 1 19 2 (by decide)
  · exact storeOne h ht 2 6 (by decide)
  · exact storeTwo h ht 2 14 7 (by decide)
  · exact storeOne h ht 3 1 (by decide)
  · exact storeOne h ht 3 9 (by decide)
  · exact storeTwo h ht 3 17 4 (by decide)
  · exact storeOne h ht 4 4 (by decide)
  · exact storeOne h ht 4 12 (by decide)
  · exact storeTwo h ht 4 20 1 (by decide)
  · exact storeOne h ht 5 7 (by decide)
  · exact storeTwo h ht 5 15 6 (by decide)
  · exact storeOne h ht 6 2 (by decide)
  · exact storeOne h ht 6 10 (by decide)
  · exact storeTwo h ht 6 18 3 (by decide)
  · exact storeOne h ht 7 5 (by decide)
  · exact storeOne h ht 7 13 (by decide)
  · exact storeOne h ht 8 0 (by decide)
  · exact storeOne h ht 8 8 (by decide)
  · exact storeTwo h ht 8 16 5 (by decide)
  · exact storeOne h ht 9 3 (by decide)
  · exact storeOne h ht 9 11 (by decide)
  · exact storeTwo h ht 9 19 2 (by decide)
  · exact storeOne h ht 10 6 (by decide)
  · exact storeTwo h ht 10 14 7 (by decide)
  · exact storeOne h ht 11 1 (by decide)
  · exact storeOne h ht 11 9 (by decide)
  · exact h.byte_top (by decide) rfl ht

theorem leNat_scStore (h : Cut 21 11 x l) (hx : x < 2 ^ 256) :
    leNat (scStore l) = x := by
  apply Nat.eq_of_testBit_eq
  intro i
  rw [testBit_leNat]
  rcases Nat.lt_or_ge i 256 with hi | hi
  · rw [scStore_bit h (by omega) (Nat.mod_lt i (by decide)), Nat.div_add_mod]
  · rw [List.getD_eq_default _ _ (show 32 ≤ i / 8 by omega), Nat.testBit_lt_two_pow]
    · exact BitVec.getLsbD_zero
    · exact hx.trans_le (Nat.pow_le_pow_right (by decide) hi)

end Store

/-! ## Both functions -/

/-- Any program that keeps the number and ends in the bounds before the last fold. -/
theorem leNat_reduced {l : List Word} {b : List Interval}
    (P : LimbProgram order (21 * ·) 24 b carriedBounds) (hl : LimbOp.InBounds l b) :
    (leNat (scStore (run LimbOp.exec l (P.ops ++ scFinishOps))) : Int) =
      limbsValue (21 * ·) 24 (ints l) % order := by
  obtain ⟨hin, hmod⟩ := P.sound hl
  have hcut := cut_finished hin
  rw [hmod] at hcut
  have hpos : 0 ≤ limbsValue (21 * ·) 24 (ints l) % order := Int.emod_nonneg _ (by decide)
  have hlt : limbsValue (21 * ·) 24 (ints l) % order < order := Int.emod_lt_of_pos _ (by decide)
  have horder : (order : Int) < 2 ^ 256 := by
    rw [order]
    norm_num
  rw [run_append, leNat_scStore hcut (by omega), Int.toNat_of_nonneg hpos]

/-- Nothing is above the last limb of a string of bytes. -/
theorem top_lt {s : List Byte} {n : Nat} (hs : s.length = n) (k t : Nat) (hk : 8 * n = t + k) :
    leNat s / 2 ^ k < 2 ^ t := by
  have hlt := leNat_lt s
  rw [hs, hk] at hlt
  rwa [Nat.div_lt_iff_lt_mul (Nat.two_pow_pos _), ← Nat.pow_add]

section Reduce

variable {s : List Byte}

theorem inBounds_scLoad64 (hs : s.length = 64) : LimbOp.InBounds (scLoad64 s) loadedBounds :=
  ⟨rfl, (cut_scLoad64 s hs).within rfl (by decide) (top_lt hs (21 * 23) 29 rfl) (by decide) 0⟩

theorem leNat_scReduce (hs : s.length = 64) : leNat (scReduce s) = leNat s % order := by
  have htop := top_lt hs (21 * 23) 29 rfl
  have hvalue := (cut_scLoad64 s hs).value (by decide) (htop.trans (by decide))
  have h := leNat_reduced scReduceProgram (inBounds_scLoad64 hs)
  rw [hvalue] at h
  exact_mod_cast h

/-- In `sc_reduce` no fold and no carry overflows, and it stores the remainder, in 32 bytes. -/
theorem scReduce_canonical (hs : s.length = 64) :
    LimbOp.RunFits (ints (scLoad64 s)) (scReduceOps ++ scFinishOps) ∧
      scReduce s = leBytes 32 (leNat s % order) := by
  refine ⟨scReduceProgram.fits scFinishProgram (inBounds_scLoad64 hs), ?_⟩
  rw [← leNat_scReduce hs]
  exact (leBytes_leNat _).symm

theorem scReduce_canonical_ff :
    (List.replicate 64 (255 : Byte)).length = 64 ∧
      LimbOp.RunFits (ints (scLoad64 (List.replicate 64 255))) (scReduceOps ++ scFinishOps) ∧
      scReduce (List.replicate 64 255) = leBytes 32 (leNat (List.replicate 64 255) % order) :=
  ⟨rfl, scReduce_canonical rfl⟩

end Reduce

theorem ints_map_range (f : Nat → Word) (n i : Nat) :
    ints ((List.range n).map f) i = if i < n then (f i).toInt else 0 := by
  unfold ints
  split
  · next hi => rw [List.getD_eq_getElem _ _ (by simpa using hi), List.getElem_map,
      List.getElem_range]
  · next hi =>
    rw [List.getD_eq_default _ _ (by simpa using hi)]
    rfl

section Product

variable {a b c : List Word} (ha : ∀ i, (a.getD i 0).toNat < 2 ^ 25)
    (hb : ∀ i, (b.getD i 0).toNat < 2 ^ 25)
  (hc : ∀ i, (c.getD i 0).toNat < 2 ^ 25)

include ha hb in
theorem toNat_limb_mul (i j : Nat) :
    (a.getD i 0 * b.getD j 0).toNat = (a.getD i 0).toNat * (b.getD j 0).toNat ∧
      (a.getD i 0 * b.getD j 0).toNat ≤ 2 ^ 50 := by
  have hle : (a.getD i 0).toNat * (b.getD j 0).toNat ≤ 2 ^ 25 * 2 ^ 25 :=
    Nat.mul_le_mul (ha i).le (hb j).le
  rw [BitVec.toNat_mul, Nat.mod_eq_of_lt (by omega)]
  exact ⟨rfl, hle⟩

include ha hb hc in
/-- The sum of the products does not overflow. -/
theorem toNat_scProduct (k : Nat) :
    (scProduct a b c k).toNat = (c.getD k 0).toNat +
        ∑ i ∈ Finset.range 12,
          (if i ≤ k ∧ k - i < 12 then (a.getD i 0).toNat * (b.getD (k - i) 0).toNat else 0) ∧
      (scProduct a b c k).toNat ≤ 2 ^ 54 := by
  have hterm : ∀ i ∈ Finset.range 12,
      (if i ≤ k ∧ k - i < 12 then (a.getD i 0 * b.getD (k - i) 0).toNat else 0) ≤ 2 ^ 50 := by
    intro i _
    split
    · exact (toNat_limb_mul ha hb i (k - i)).2
    · exact Nat.zero_le _
  have hsum := Finset.sum_le_card_nsmul _ _ _ hterm
  rw [Finset.card_range, smul_eq_mul] at hsum
  have hck := hc k
  have h := toNat_foldl_add (fun i => a.getD i 0 * b.getD (k - i) 0) (fun i => i ≤ k ∧ k - i < 12)
    (c.getD k 0) (n := 12) (by omega)
  refine ⟨?_, ?_⟩
  · rw [scProduct, h]
    congr 1
    apply Finset.sum_congr rfl
    intro i _
    rw [(toNat_limb_mul ha hb i (k - i)).1]
  · rw [scProduct, h]
    omega

include ha hb hc in
theorem toInt_scProduct (k : Nat) :
    (scProduct a b c k).toInt = ints c k + mulLimb 12 (ints a) (ints b) k ∧
      Interval.Has (0, 2 ^ 54) (scProduct a b c k).toInt := by
  obtain ⟨heq, hle⟩ := toNat_scProduct ha hb hc k
  have hint : (scProduct a b c k).toInt = (scProduct a b c k).toNat := toInt_of_lt (by omega)
  have hints : ∀ {l : List Word}, (∀ i, (l.getD i 0).toNat < 2 ^ 25) →
      ∀ i, ints l i = (l.getD i 0).toNat :=
    fun hl i => toInt_of_lt ((hl i).trans (by decide))
  refine ⟨?_, ?_⟩
  · rw [hint, heq, hints hc, mulLimb, Nat.cast_add, Nat.cast_sum]
    congr 1
    apply Finset.sum_congr rfl
    intro i _
    rw [hints ha, hints hb]
    push_cast
    rfl
  · have hle' : ((scProduct a b c k).toNat : Int) ≤ 2 ^ 54 := by exact_mod_cast hle
    rw [hint]
    exact ⟨Int.natCast_nonneg _, hle'⟩

include ha hb hc in
theorem ints_scProduct (hlen : c.length = 12) (i : Nat) :
    ints ((List.range 24).map (scProduct a b c)) i = ints c i + mulLimb 12 (ints a) (ints b) i := by
  rw [ints_map_range]
  split
  · exact (toInt_scProduct ha hb hc i).1
  · rw [mulLimb_of_ge (by omega), ints_of_ge (by omega)]
    rfl

include ha hb hc in
theorem inBounds_scProduct (hlen : c.length = 12) :
    LimbOp.InBounds ((List.range 24).map (scProduct a b c)) productBounds := by
  refine ⟨by rw [List.length_map, List.length_range]; rfl, within_frontBounds.2 ⟨?_, ?_, ?_⟩⟩
  · intro i hi
    rw [ints_map_range, if_pos (by omega)]
    exact (toInt_scProduct ha hb hc i).2
  · rw [ints_scProduct ha hb hc hlen, mulLimb_of_ge (by decide), ints_of_ge (by omega)]
    exact ⟨Int.le_refl 0, Int.le_refl 0⟩
  · intro i hi
    rw [ints_scProduct ha hb hc hlen, mulLimb_of_ge (by omega), ints_of_ge (by omega)]
    rfl

include ha hb hc in
theorem value_scProduct (hlen : c.length = 12) :
    limbsValue (21 * ·) 24 (ints ((List.range 24).map (scProduct a b c))) =
      limbsValue (21 * ·) 12 (ints a) * limbsValue (21 * ·) 12 (ints b) +
          limbsValue (21 * ·) 12 (ints c) := by
  have hadd : limbsValue (21 * ·) 24 (ints ((List.range 24).map (scProduct a b c))) =
      limbsValue (21 * ·) 24 (ints c) + limbsValue (21 * ·) 24 (mulLimb 12 (ints a) (ints b)) := by
    unfold limbsValue
    rw [← Finset.sum_add_distrib]
    apply Finset.sum_congr rfl
    intro i _
    rw [ints_scProduct ha hb hc hlen, Int.add_mul]
  have hc₁₂ : limbsValue (21 * ·) 24 (ints c) = limbsValue (21 * ·) 12 (ints c) := by
    apply limbsValue_of_zero (by decide)
    intro i hi
    exact ints_of_ge (by omega)
  have hmul : limbsValue (21 * ·) 24 (mulLimb 12 (ints a) (ints b)) =
      limbsValue (21 * ·) 23 (mulLimb 12 (ints a) (ints b)) := by
    apply limbsValue_of_zero (by decide)
    intro i hi
    exact mulLimb_of_ge hi _ _
  rw [hadd, hc₁₂, hmul, limbsValue_mulLimb 21 (show 23 = 2 * 12 - 1 from rfl), Int.add_comm]

end Product

section Muladd

variable {s a b c : List Byte}

theorem scLoad32_lt (hs : s.length = 32) (i : Nat) : ((scLoad32 s).getD i 0).toNat < 2 ^ 25 := by
  have hcut := cut_scLoad32 s hs
  rcases Nat.lt_trichotomy i 11 with hi | rfl | hi
  · rw [hcut.low i hi]
    exact (Nat.mod_lt _ (by decide)).trans (by decide)
  · rw [hcut.top]
    exact top_lt hs (21 * 11) 25 rfl
  · rw [List.getD_eq_default _ _ hi]
    decide

theorem value_scLoad32 (hs : s.length = 32) :
    limbsValue (21 * ·) 12 (ints (scLoad32 s)) = leNat s :=
  (cut_scLoad32 s hs).value (by decide) ((top_lt hs (21 * 11) 25 rfl).trans (by decide))

/-- The integer in a limb. -/
theorem ints_scLoad32 (hs : s.length = 32) (i : Nat) :
    0 ≤ ints (scLoad32 s) i ∧ ints (scLoad32 s) i ≤ 2 ^ 25 := by
  have hlt := scLoad32_lt hs i
  have heq : ints (scLoad32 s) i = ((scLoad32 s).getD i 0).toNat :=
    toInt_of_lt (hlt.trans (by decide))
  rw [heq]
  exact ⟨Int.natCast_nonneg _, by exact_mod_cast hlt.le⟩

theorem mul_scLoad32 (ha : a.length = 32) (hb : b.length = 32) (i j : Nat) :
    0 ≤ ints (scLoad32 a) i * ints (scLoad32 b) j ∧
      ints (scLoad32 a) i * ints (scLoad32 b) j ≤ 2 ^ 50 := by
  obtain ⟨hi, hi'⟩ := ints_scLoad32 ha i
  obtain ⟨hj, hj'⟩ := ints_scLoad32 hb j
  exact ⟨Int.mul_nonneg hi hj, Int.mul_le_mul hi' hj' hj (by decide)⟩

theorem inRange_mul (ha : a.length = 32) (hb : b.length = 32) (i j : Nat) :
    InRange (ints (scLoad32 a) i * ints (scLoad32 b) j) := by
  obtain ⟨hlow, hhigh⟩ := mul_scLoad32 ha hb i j
  exact ⟨by omega, by omega⟩

/-- The sum of the products, from the first to the last one. -/
theorem inRange_sum (ha : a.length = 32) (hb : b.length = 32) (hc : c.length = 32) (k n : Nat)
    (hn : n ≤ 12) :
    InRange (ints (scLoad32 c) k + ∑ i ∈ Finset.range n,
      if i ≤ k ∧ k - i < 12 then ints (scLoad32 a) i * ints (scLoad32 b) (k - i) else 0) := by
  have hterm : ∀ i ∈ Finset.range n, 0 ≤ (if i ≤ k ∧ k - i < 12 then
      ints (scLoad32 a) i * ints (scLoad32 b) (k - i) else 0) ∧
      (if i ≤ k ∧ k - i < 12 then ints (scLoad32 a) i * ints (scLoad32 b) (k - i) else 0) ≤
          2 ^ 50 := by
    intro i _
    split
    · exact mul_scLoad32 ha hb i (k - i)
    · exact ⟨Int.le_refl 0, by decide⟩
  have hpos := Finset.sum_nonneg fun i hi => (hterm i hi).1
  have hle := Finset.sum_le_card_nsmul _ _ _ fun i hi => (hterm i hi).2
  rw [Finset.card_range, nsmul_eq_mul] at hle
  have hcard : (n : Int) * 2 ^ 50 ≤ 12 * 2 ^ 50 :=
    Int.mul_le_mul_of_nonneg_right (by exact_mod_cast hn) (by decide)
  obtain ⟨hlow, hhigh⟩ := ints_scLoad32 hc k
  exact ⟨by omega, by omega⟩

theorem leNat_scMuladd (ha : a.length = 32) (hb : b.length = 32) (hc : c.length = 32) :
    leNat (scMuladd a b c) = (leNat a * leNat b + leNat c) % order := by
  have hin := inBounds_scProduct (scLoad32_lt ha) (scLoad32_lt hb) (scLoad32_lt hc) rfl
  have hvalue := value_scProduct (scLoad32_lt ha) (scLoad32_lt hb) (scLoad32_lt hc) rfl
  rw [value_scLoad32 ha, value_scLoad32 hb, value_scLoad32 hc] at hvalue
  have h := leNat_reduced scMuladdProgram hin
  rw [hvalue] at h
  exact_mod_cast h

theorem runFits_scMuladd (ha : a.length = 32) (hb : b.length = 32) (hc : c.length = 32) :
    LimbOp.RunFits (fun k => ints (scLoad32 c) k + mulLimb 12 (ints (scLoad32 a))
      (ints (scLoad32 b)) k) (scMuladdOps ++ scReduceOps ++ scFinishOps) := by
  have hfits := scMuladdProgram.fits scFinishProgram
    (inBounds_scProduct (scLoad32_lt ha) (scLoad32_lt hb) (scLoad32_lt hc) rfl)
  have hsums := funext (ints_scProduct (scLoad32_lt ha) (scLoad32_lt hb) (scLoad32_lt hc) rfl)
  rw [hsums] at hfits
  exact hfits

/-- In `sc_muladd` no product, no sum of products, no fold and no carry overflows, and it stores the
remainder of `a * b + c`, in 32 bytes, whatever the three numbers are. -/
theorem scMuladd_canonical (ha : a.length = 32) (hb : b.length = 32) (hc : c.length = 32) :
    (∀ i j, InRange (ints (scLoad32 a) i * ints (scLoad32 b) j)) ∧
      (∀ k, ∀ n ≤ 12, InRange (ints (scLoad32 c) k + ∑ i ∈ Finset.range n,
        if i ≤ k ∧ k - i < 12 then ints (scLoad32 a) i * ints (scLoad32 b) (k - i) else 0)) ∧
      LimbOp.RunFits (fun k => ints (scLoad32 c) k + mulLimb 12 (ints (scLoad32 a))
        (ints (scLoad32 b)) k) (scMuladdOps ++ scReduceOps ++ scFinishOps) ∧
      scMuladd a b c = leBytes 32 ((leNat a * leNat b + leNat c) % order) := by
  refine ⟨inRange_mul ha hb, inRange_sum ha hb hc, runFits_scMuladd ha hb hc, ?_⟩
  rw [← leNat_scMuladd ha hb hc]
  exact (leBytes_leNat _).symm

theorem scMuladd_canonical_ff :
    let ff := List.replicate 32 (255 : Byte)
    ff.length = 32 ∧
      (∀ i j, InRange (ints (scLoad32 ff) i * ints (scLoad32 ff) j)) ∧
      (∀ k, ∀ n ≤ 12, InRange (ints (scLoad32 ff) k + ∑ i ∈ Finset.range n,
        if i ≤ k ∧ k - i < 12 then ints (scLoad32 ff) i * ints (scLoad32 ff) (k - i) else 0)) ∧
      LimbOp.RunFits (fun k => ints (scLoad32 ff) k + mulLimb 12 (ints (scLoad32 ff))
        (ints (scLoad32 ff)) k) (scMuladdOps ++ scReduceOps ++ scFinishOps) ∧
      scMuladd ff ff ff = leBytes 32 ((leNat ff * leNat ff + leNat ff) % order) :=
  ⟨rfl, scMuladd_canonical rfl rfl rfl⟩

end Muladd

end Dorami.Sm.Ed25519
