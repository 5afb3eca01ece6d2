import Dorami.Lib.Limbs

/-!
# Numbers in bytes and in limbs

A string of bytes as a number, the low byte first, its cut into limbs of `w` bits, and the product
of two numbers from their limbs.
-/

namespace Dorami.Lib

/-! ## Bytes -/

def leNat (bs : List (BitVec 8)) : Nat := bs.foldr (fun b n => 256 * n + b.toNat) 0

theorem testBit_leNat (bs : List (BitVec 8)) (i : Nat) :
    (leNat bs).testBit i = (bs.getD (i / 8) 0).getLsbD (i % 8) := by
  induction bs generalizing i with
  | nil => simp [leNat]
  | cons b bs ih =>
    show (2 ^ 8 * leNat bs + b.toNat).testBit i = _
    rw [Nat.testBit_two_pow_mul_add _ b.isLt]
    rcases Nat.lt_or_ge i 8 with hi | hi
    · rw [if_pos hi, Nat.div_eq_of_lt hi, Nat.mod_eq_of_lt hi]
      rfl
    · rw [if_neg (by omega), ih, show i / 8 = (i - 8) / 8 + 1 by omega,
        show (i - 8) % 8 = i % 8 by omega]
      rfl

theorem leNat_lt (bs : List (BitVec 8)) : leNat bs < 2 ^ (8 * bs.length) := by
  apply Nat.lt_pow_two_of_testBit
  intro i hi
  rw [testBit_leNat, List.getD_eq_default _ _ (by omega)]
  exact BitVec.getLsbD_zero

/-- The bytes from `o` on. -/
theorem leNat_drop (bs : List (BitVec 8)) (o : Nat) :
    leNat (bs.drop o) = leNat bs / 2 ^ (8 * o) := by
  apply Nat.eq_of_testBit_eq
  intro i
  rw [testBit_leNat, Nat.testBit_div_two_pow, testBit_leNat]
  simp only [List.getD_eq_getElem?_getD, List.getElem?_drop]
  rw [show (i + 8 * o) / 8 = o + i / 8 by omega, show (i + 8 * o) % 8 = i % 8 by omega]

/-- The low `n` bytes of a number. -/
def leBytes (n x : Nat) : List (BitVec 8) :=
  (List.range n).map fun j => BitVec.ofNat 8 (x / 2 ^ (8 * j))

theorem leBytes_leNat (bs : List (BitVec 8)) : leBytes bs.length (leNat bs) = bs := by
  apply List.ext_getElem
  · rw [leBytes, List.length_map, List.length_range]
  · intro j hj hj'
    apply BitVec.eq_of_getLsbD_eq
    intro t ht
    simp only [leBytes, List.getElem_map, List.getElem_range]
    rw [BitVec.getLsbD_ofNat, decide_eq_true ht, Bool.true_and,
      Nat.testBit_div_two_pow, testBit_leNat, show (t + 8 * j) / 8 = j by omega,
      show (t + 8 * j) % 8 = t by omega, List.getD_eq_getElem _ _ hj']

/-- A byte shifted to place `k` of a word. -/
theorem getLsbD_byteAt (b : BitVec 8) {k : Nat} (hk : k < 8) (i : Nat) :
    (b.setWidth 64 <<< (8 * k)).getLsbD i = (decide (i / 8 = k) && b.getLsbD (i % 8)) := by
  rw [BitVec.getLsbD_shiftLeft, BitVec.getLsbD_setWidth]
  by_cases hi : i / 8 = k
  · rw [show i - 8 * k = i % 8 by omega]
    simp [hi, show i < 64 by omega, show ¬ i < 8 * k by omega, show i % 8 < 64 by omega]
  · rcases Nat.lt_or_ge i (8 * k) with hlt | hge
    · simp [hi, hlt]
    · rw [BitVec.getLsbD_of_ge b _ (by omega)]
      simp [hi]

theorem getLsbD_byte (b : BitVec 8) (i : Nat) :
    (b.setWidth 64).getLsbD i = (decide (i / 8 = 0) && b.getLsbD (i % 8)) := by
  have h := getLsbD_byteAt b (k := 0) (by decide) i
  rwa [Nat.mul_zero, BitVec.shiftLeft_zero] at h

/-! ## Limbs -/

/-- Cut into limbs, of which the last one takes the rest, a number stays what it is. -/
theorem sum_slices (w x n : Nat) :
    ∑ i ∈ Finset.range n, x / 2 ^ (w * i) % 2 ^ w * 2 ^ (w * i) +
      x / 2 ^ (w * n) * 2 ^ (w * n) = x := by
  induction n with
  | zero => simp
  | succ n ih =>
    have hsplit : x / 2 ^ (w * n) = x / 2 ^ (w * (n + 1)) * 2 ^ w + x / 2 ^ (w * n) % 2 ^ w := by
      rw [Nat.mul_succ, Nat.pow_add, ← Nat.div_div_eq_div_mul]
      exact (Nat.div_add_mod' _ _).symm
    rw [Finset.sum_range_succ]
    conv_rhs => rw [← ih, hsplit]
    rw [Nat.mul_succ, Nat.pow_add]
    ring

/-- Limbs that are 0 do not count. -/
theorem limbsValue_of_zero {w : Nat → Nat} {n m : Nat} (hnm : n ≤ m) {s : Nat → Int}
    (h : ∀ i, n ≤ i → s i = 0) : limbsValue w m s = limbsValue w n s := by
  unfold limbsValue
  rw [← Finset.sum_range_add_sum_Ico _ hnm]
  have hzero : ∑ i ∈ Finset.Ico n m, s i * 2 ^ w i = 0 := by
    apply Finset.sum_eq_zero
    intro i hi
    rw [h i (Finset.mem_Ico.1 hi).1, Int.zero_mul]
  rw [hzero, Int.add_zero]

theorem limbsValue_succ (w : Nat → Nat) (n : Nat) (s : Nat → Int) :
    limbsValue w (n + 1) s = limbsValue w n s + s n * 2 ^ w n :=
  Finset.sum_range_succ _ _

theorem limbsValue_range {w n : Nat} {s : Nat → Int}
    (h : ∀ i < n, Interval.Has (0, 2 ^ w - 1) (s i)) :
    0 ≤ limbsValue (w * ·) n s ∧ limbsValue (w * ·) n s < 2 ^ (w * n) := by
  induction n with
  | zero => exact ⟨Int.le_refl 0, by simp [limbsValue]⟩
  | succ n ih =>
    obtain ⟨hlow, hhigh⟩ := ih fun i hi => h i (by omega)
    have htop : s n * 2 ^ (w * n) ≤ (2 ^ w - 1) * 2 ^ (w * n) :=
      Int.mul_le_mul_of_nonneg_right (h n (by omega)).2 (Int.le_of_lt (Int.pow_pos (by decide)))
    have hnonneg : 0 ≤ s n * 2 ^ (w * n) :=
      Int.mul_nonneg (h n (by omega)).1 (Int.le_of_lt (Int.pow_pos (by decide)))
    rw [Int.sub_mul, Int.one_mul] at htop
    rw [limbsValue_succ, Nat.mul_succ, pow_add, Int.mul_comm (2 ^ (w * n))]
    exact ⟨Int.add_nonneg hlow hnonneg, by omega⟩

section Digits

variable (w : Nat) (d : Nat → Nat)

theorem digits_lt {n : Nat} (hd : ∀ i < n, d i < 2 ^ w) :
    ∑ i ∈ Finset.range n, d i * 2 ^ (w * i) < 2 ^ (w * n) := by
  have h := (limbsValue_range (w := w) (s := fun i => (d i : Int)) (n := n) (by
    intro i hi
    have hlt : (d i : Int) < 2 ^ w := by exact_mod_cast hd i hi
    exact ⟨Int.natCast_nonneg _, Int.le_sub_one_of_lt hlt⟩)).2
  dsimp only [limbsValue] at h
  exact_mod_cast h

/-- The digits from `i` on. -/
theorem digits_div {n i : Nat} (hd : ∀ j < i, d j < 2 ^ w) (hi : i ≤ n) :
    (∑ j ∈ Finset.range n, d j * 2 ^ (w * j)) / 2 ^ (w * i) =
      ∑ j ∈ Finset.range (n - i), d (i + j) * 2 ^ (w * j) := by
  obtain ⟨m, rfl⟩ := Nat.exists_eq_add_of_le hi
  have hhigh : ∑ j ∈ Finset.range m, d (i + j) * 2 ^ (w * (i + j)) =
      2 ^ (w * i) * ∑ j ∈ Finset.range m, d (i + j) * 2 ^ (w * j) := by
    rw [Finset.mul_sum]
    apply Finset.sum_congr rfl
    intro j _
    rw [Nat.mul_add, Nat.pow_add]
    ring
  rw [Finset.sum_range_add, hhigh, Nat.add_mul_div_left _ _ (Nat.two_pow_pos _),
    Nat.div_eq_of_lt (digits_lt w d hd), Nat.zero_add, Nat.add_sub_cancel_left]

theorem digits_div_mod {n i : Nat} (hd : ∀ j < i + 1, d j < 2 ^ w) (hi : i < n) :
    (∑ j ∈ Finset.range n, d j * 2 ^ (w * j)) / 2 ^ (w * i) % 2 ^ w = d i := by
  rw [digits_div w d (fun j hj => hd j (by omega)) hi.le, show n - i = n - i - 1 + 1 by omega,
    Finset.sum_range_succ']
  have hhigh : ∑ j ∈ Finset.range (n - i - 1), d (i + (j + 1)) * 2 ^ (w * (j + 1)) =
      2 ^ w * ∑ j ∈ Finset.range (n - i - 1), d (i + (j + 1)) * 2 ^ (w * j) := by
    rw [Finset.mul_sum]
    apply Finset.sum_congr rfl
    intro j _
    rw [Nat.mul_succ, Nat.pow_add]
    ring
  rw [hhigh, Nat.mul_add_mod, Nat.add_zero, Nat.mul_zero, Nat.pow_zero, Nat.mul_one,
    Nat.mod_eq_of_lt (hd i (by omega))]

end Digits

/-- The words hold the limbs of `x`: `n` of them have `w` bits, and one has the rest. -/
structure Cut (w n x : Nat) (s : List (BitVec 64)) : Prop where
  low : ∀ i < n, (s.getD i 0).toNat = x / 2 ^ (w * i) % 2 ^ w
  top : (s.getD n 0).toNat = x / 2 ^ (w * n)

theorem toInt_of_nonneg {x : BitVec 64} (h : 0 ≤ x.toInt) : x.toInt = x.toNat := by
  rw [BitVec.toInt_eq_toNat_cond] at h ⊢
  split at h
  · next hlt => rw [if_pos hlt]
  · omega

theorem toInt_of_lt {x : BitVec 64} (h : x.toNat < 2 ^ 63) : x.toInt = x.toNat :=
  BitVec.toInt_eq_toNat_of_lt (by omega)

section Cut

variable {w n x : Nat} {s : List (BitVec 64)}

theorem Cut.ints_low (h : Cut w n x s) (hw : w < 64) {i : Nat} (hi : i < n) :
    ints s i = ↑(x / 2 ^ (w * i) % 2 ^ w) := by
  have hlt : x / 2 ^ (w * i) % 2 ^ w < 2 ^ 63 :=
    (Nat.mod_lt _ (Nat.two_pow_pos w)).trans_le (Nat.pow_le_pow_right (by decide) (by omega))
  rw [← h.low i hi] at hlt ⊢
  exact toInt_of_lt hlt

theorem Cut.has_low (h : Cut w n x s) (hw : w < 64) {i : Nat} (hi : i < n) :
    Interval.Has (0, 2 ^ w - 1) (ints s i) := by
  have hlt : x / 2 ^ (w * i) % 2 ^ w < 2 ^ w := Nat.mod_lt _ (Nat.two_pow_pos w)
  have hlt' : ((x / 2 ^ (w * i) % 2 ^ w : Nat) : Int) < 2 ^ w := by exact_mod_cast hlt
  rw [h.ints_low hw hi]
  exact ⟨Int.natCast_nonneg _, Int.le_sub_one_of_lt hlt'⟩

theorem Cut.ints_top (h : Cut w n x s) (htop : x / 2 ^ (w * n) < 2 ^ 63) :
    ints s n = ↑(x / 2 ^ (w * n)) := by
  rw [← h.top] at htop ⊢
  exact toInt_of_lt htop

theorem Cut.value (h : Cut w n x s) (hw : w < 64) (htop : x / 2 ^ (w * n) < 2 ^ 63) :
    limbsValue (w * ·) (n + 1) (ints s) = x := by
  unfold limbsValue
  rw [Finset.sum_range_succ, h.ints_top htop]
  have hlow : ∑ i ∈ Finset.range n, ints s i * 2 ^ (w * i) =
      ((∑ i ∈ Finset.range n, x / 2 ^ (w * i) % 2 ^ w * 2 ^ (w * i) : Nat) : Int) := by
    rw [Nat.cast_sum]
    apply Finset.sum_congr rfl
    intro i hi
    rw [h.ints_low hw (Finset.mem_range.1 hi)]
    push_cast
    rfl
  rw [hlow]
  exact_mod_cast sum_slices w x n

theorem ints_of_ge {i : Nat} (hi : s.length ≤ i) : ints s i = 0 := by
  rw [ints, List.getD_eq_default _ _ hi]
  rfl

theorem Cut.within (h : Cut w n x s) (hs : s.length = n + 1) (hw : w < 64) {t : Nat}
    (htop : x / 2 ^ (w * n) < 2 ^ t) (ht : t < 64) (k : Nat) :
    Within (ints s) (frontBounds n (0, 2 ^ w - 1) (0, 2 ^ t - 1) k) := by
  refine within_frontBounds.2 ⟨fun i hi => h.has_low hw hi, ?_, ?_⟩
  · have htop' : ((x / 2 ^ (w * n) : Nat) : Int) < 2 ^ t := by exact_mod_cast htop
    rw [h.ints_top (htop.trans_le (Nat.pow_le_pow_right (by decide) (by omega)))]
    exact ⟨Int.natCast_nonneg _, Int.le_sub_one_of_lt htop'⟩
  · intro i hi
    exact ints_of_ge (by omega)

/-- Limbs that are in range hold the number they stand for. -/
theorem cut_of_value (hlow : ∀ i < n, Interval.Has (0, 2 ^ w - 1) (ints s i)) (htop : 0 ≤ ints s n)
    (hx : limbsValue (w * ·) (n + 1) (ints s) = x) : Cut w n x s := by
  have hints : ∀ i < n + 1, ints s i = ((s.getD i 0).toNat : Int) := by
    intro i hi
    rcases Nat.lt_succ_iff_lt_or_eq.1 hi with hi | rfl
    · exact toInt_of_nonneg (hlow i hi).1
    · exact toInt_of_nonneg htop
  have hd : ∀ i < n, (s.getD i 0).toNat < 2 ^ w := by
    intro i hi
    have hhigh : ints s i ≤ 2 ^ w - 1 := (hlow i hi).2
    rw [hints i (by omega)] at hhigh
    exact_mod_cast Int.lt_of_le_sub_one hhigh
  have hsum : x = ∑ i ∈ Finset.range (n + 1), (s.getD i 0).toNat * 2 ^ (w * i) := by
    have hcast : limbsValue (w * ·) (n + 1) (ints s) =
        ((∑ i ∈ Finset.range (n + 1), (s.getD i 0).toNat * 2 ^ (w * i) : Nat) : Int) := by
      unfold limbsValue
      rw [Nat.cast_sum]
      apply Finset.sum_congr rfl
      intro i hi
      rw [hints i (Finset.mem_range.1 hi)]
      push_cast
      rfl
    exact_mod_cast hx.symm.trans hcast
  refine ⟨?_, ?_⟩
  · intro i hi
    rw [hsum]
    exact (digits_div_mod w (fun i => (s.getD i 0).toNat)
      (fun j hj => hd j (by omega)) (by omega)).symm
  · rw [hsum, digits_div w (fun i => (s.getD i 0).toNat) hd (Nat.le_add_right n 1),
      Nat.add_sub_cancel_left]
    simp

/-! The bits of the words, and of a byte that is put together from them. -/

theorem Cut.bit_low (h : Cut w n x s) {a : Nat} (ha : a < n) (u : Nat) :
    (s.getD a 0).getLsbD u = (decide (u < w) && x.testBit (w * a + u)) := by
  rw [← BitVec.testBit_toNat, h.low a ha, Nat.testBit_mod_two_pow, Nat.testBit_div_two_pow,
    Nat.add_comm u]

theorem Cut.bit_top (h : Cut w n x s) (u : Nat) :
    (s.getD n 0).getLsbD u = x.testBit (w * n + u) := by
  rw [← BitVec.testBit_toNat, h.top, Nat.testBit_div_two_pow, Nat.add_comm u]

theorem Cut.bit (h : Cut w n x s) {a : Nat} (ha : a ≤ n) {u : Nat} (hu : u < w) :
    (s.getD a 0).getLsbD u = x.testBit (w * a + u) := by
  rcases Nat.lt_or_eq_of_le ha with ha | rfl
  · rw [h.bit_low ha, decide_eq_true hu, Bool.true_and]
  · exact h.bit_top u

theorem getLsbD_sshiftRight_low {v : BitVec 64} {p t : Nat} (ht : p + t < 64) :
    (v.sshiftRight p).getLsbD t = v.getLsbD (p + t) := by
  rw [BitVec.getLsbD_sshiftRight, if_pos ht, decide_eq_false (by omega),
    Bool.not_false, Bool.true_and]

/-- A byte from one limb. -/
theorem Cut.byte_one (h : Cut w n x s) {a p j t : Nat} (ha : a ≤ n) (hp : p + 8 ≤ w) (hw : w ≤ 56)
    (hj : w * a + p = 8 * j) (ht : t < 8) :
    (((s.getD a 0).sshiftRight p).setWidth 8).getLsbD t = x.testBit (8 * j + t) := by
  rw [BitVec.getLsbD_setWidth, decide_eq_true ht, Bool.true_and, getLsbD_sshiftRight_low (by omega),
    h.bit ha (by omega), ← Nat.add_assoc, hj]

/-- A byte from the limb that takes the rest. -/
theorem Cut.byte_top (h : Cut w n x s) {p j t : Nat} (hp : p ≤ 56) (hj : w * n + p = 8 * j)
    (ht : t < 8) :
    (((s.getD n 0).sshiftRight p).setWidth 8).getLsbD t = x.testBit (8 * j + t) := by
  rw [BitVec.getLsbD_setWidth, decide_eq_true ht, Bool.true_and, getLsbD_sshiftRight_low (by omega),
    h.bit_top, ← Nat.add_assoc, hj]

/-- A byte from the end of one limb and the beginning of the next one. -/
theorem Cut.byte_two (h : Cut w n x s) {a p q j t : Nat} (ha : a + 1 ≤ n) (hpq : p + q = w)
    (hw : w ≤ 56) (hw' : 8 ≤ w) (hj : w * a + p = 8 * j) (ht : t < 8) :
    (((s.getD a 0).sshiftRight p ||| s.getD (a + 1) 0 <<< q).setWidth 8).getLsbD t =
      x.testBit (8 * j + t) := by
  rw [BitVec.getLsbD_setWidth, decide_eq_true ht, Bool.true_and, BitVec.getLsbD_or,
    getLsbD_sshiftRight_low (by omega), BitVec.getLsbD_shiftLeft,
    decide_eq_true (show t < 64 by omega), Bool.true_and, h.bit_low (by omega), ← hj]
  rcases Nat.lt_or_ge t q with hlt | hge
  · rw [decide_eq_true (show p + t < w by omega), decide_eq_true hlt, Bool.not_true, Bool.false_and,
      Bool.or_false, Bool.true_and, Nat.add_assoc]
  · rw [decide_eq_false (show ¬ p + t < w by omega), decide_eq_false (show ¬ t < q by omega),
      Bool.not_false, Bool.true_and, Bool.false_and, Bool.false_or,
      h.bit ha (by omega), Nat.mul_succ]
    congr 1
    omega

end Cut

/-- Limb `k` of a product of numbers with `n` limbs. -/
def mulLimb (n : Nat) (a b : Nat → Int) (k : Nat) : Int :=
  ∑ i ∈ Finset.range n, if i ≤ k ∧ k - i < n then a i * b (k - i) else 0

theorem mulLimb_of_ge {n k : Nat} (hk : 2 * n - 1 ≤ k) (a b : Nat → Int) : mulLimb n a b k = 0 := by
  apply Finset.sum_eq_zero
  intro i hi
  have hi' : i < n := Finset.mem_range.1 hi
  rw [if_neg (by omega)]

theorem limbsValue_mulLimb (w : Nat) {n m : Nat} (hm : m = 2 * n - 1) (a b : Nat → Int) :
    limbsValue (w * ·) m (mulLimb n a b) = limbsValue (w * ·) n a * limbsValue (w * ·) n b := by
  unfold limbsValue mulLimb
  simp only [Finset.sum_mul]
  rw [Finset.sum_comm]
  apply Finset.sum_congr rfl
  intro i hi
  have hi' : i < n := Finset.mem_range.1 hi
  -- limb `i` meets the `n` limbs of the other number at the places from `i` on
  have hplaces : (Finset.range m).filter (fun k => i ≤ k ∧ k - i < n) = Finset.Ico i (i + n) := by
    ext k
    rw [Finset.mem_filter, Finset.mem_range, Finset.mem_Ico]
    omega
  simp only [ite_mul, zero_mul]
  rw [← Finset.sum_filter, hplaces, Finset.sum_Ico_eq_sum_range, Nat.add_sub_cancel_left,
    Finset.mul_sum]
  apply Finset.sum_congr rfl
  intro j _
  rw [Nat.add_sub_cancel_left, Nat.mul_add, pow_add]
  ring

/-- A sum of words that does not overflow. -/
theorem toNat_foldl_add (f : Nat → BitVec 64) (p : Nat → Prop) [DecidablePred p] (x : BitVec 64)
    {n : Nat} (h : x.toNat + ∑ i ∈ Finset.range n, (if p i then (f i).toNat else 0) < 2 ^ 64) :
    ((List.range n).foldl (fun acc i => if p i then acc + f i else acc) x).toNat =
      x.toNat + ∑ i ∈ Finset.range n, if p i then (f i).toNat else 0 := by
  induction n with
  | zero => rfl
  | succ n ih =>
    rw [Finset.sum_range_succ] at h ⊢
    have hn := ih (by omega)
    rw [List.range_succ, List.foldl_append, List.foldl_cons, List.foldl_nil]
    split
    · next hp =>
      rw [if_pos hp] at h
      rw [BitVec.toNat_add, hn, Nat.mod_eq_of_lt (by omega), Nat.add_assoc]
    · rw [hn, Nat.add_zero]

end Dorami.Lib
