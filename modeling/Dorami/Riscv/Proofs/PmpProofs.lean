import Dorami.Riscv.Pmp
import Mathlib.Tactic.Ring
import Mathlib.Data.Nat.Bitwise

/-!
# Facts about PMP matching

How the packed configuration word changes when one byte is written, which addresses the NAPOT and
TOR encodings of a range match, and how the deciding entry is found.
-/

namespace Dorami.Riscv

/-! ## Bytes of a configuration word -/

theorem getLsbD_cfgByte (cfg : Word) (i j : Nat) :
    (cfgByte cfg i).getLsbD j = (decide (j < 8) && cfg.getLsbD (8 * i + j)) := by
  simp [cfgByte]

/-- A word is determined by its bytes. -/
theorem cfgByte_ext {v w : Word} (h : ∀ i < 8, cfgByte v i = cfgByte w i) : v = w := by
  -- bit `i` of the word is bit `i % 8` of its byte `i / 8`
  refine BitVec.eq_of_getLsbD_eq fun i hi => ?_
  have hb := congrArg (fun b : Byte => b.getLsbD (i % 8)) (h (i / 8) (by omega))
  simp only [getLsbD_cfgByte] at hb
  have hdiv : 8 * (i / 8) + i % 8 = i := Nat.div_add_mod i 8
  simpa [Nat.mod_lt, hdiv] using hb

theorem getLsbD_ff (k : Nat) : (0xff#64).getLsbD k = decide (k < 8) := by
  rw [BitVec.getLsbD_ofNat, show (0xff : Nat) = 2 ^ 8 - 1 from rfl, Nat.testBit_two_pow_sub_one]
  by_cases hk : k < 8
  · simp [hk]; omega
  · simp [hk]

/-- Clearing byte `n` of a configuration word. -/
theorem cfgByte_clear (cfg : Word) {n i : Nat} (hn : n < 8) (hi : i < 8) :
    cfgByte (cfg &&& ~~~(0xff#64 <<< (8 * n))) i = if i = n then 0 else cfgByte cfg i := by
  apply BitVec.eq_of_getLsbD_eq
  intro j hj
  have h64 : 8 * i + j < 64 := by omega
  rw [getLsbD_cfgByte]
  simp only [BitVec.getLsbD_and, BitVec.getLsbD_not, BitVec.getLsbD_shiftLeft, getLsbD_ff, h64, hj,
    decide_true, Bool.true_and]
  by_cases h : i = n
  · subst h
    have h1 : ¬ 8 * i + j < 8 * i := by omega
    have h2 : 8 * i + j - 8 * i < 8 := by omega
    simp only [h1, h2, decide_false, decide_true, Bool.not_false, Bool.and_true, Bool.not_true,
      Bool.and_false, if_true]
    exact BitVec.getLsbD_zero.symm
  · rw [if_neg h, getLsbD_cfgByte]
    by_cases hlt : 8 * i + j < 8 * n
    · simp [hlt, hj]
    · have h2 : ¬ 8 * i + j - 8 * n < 8 := by omega
      simp [h2, hj]

theorem cfgByte_or (x y : Word) (i : Nat) : cfgByte (x ||| y) i = cfgByte x i ||| cfgByte y i := by
  apply BitVec.eq_of_getLsbD_eq
  intro j hj
  simp only [getLsbD_cfgByte, BitVec.getLsbD_or, hj, decide_true, Bool.true_and]

theorem cfgByte_shift (b : Byte) {n i : Nat} (hi : i < 8) :
    cfgByte (b.setWidth 64 <<< (8 * n)) i = if i = n then b else 0 := by
  apply BitVec.eq_of_getLsbD_eq
  intro j hj
  have h64 : 8 * i + j < 64 := by omega
  rw [getLsbD_cfgByte]
  simp only [hj, decide_true, Bool.true_and, BitVec.getLsbD_shiftLeft, h64, BitVec.getLsbD_setWidth]
  by_cases h : i = n
  · subst h
    have h1 : ¬ 8 * i + j < 8 * i := by omega
    have h2 : 8 * i + j - 8 * i = j := by omega
    have h3 : j < 64 := by omega
    rw [if_pos rfl, h2]
    simp only [h1, h3, decide_false, Bool.not_false, decide_true, Bool.true_and]
  · rw [if_neg h]
    by_cases hlt : 8 * i + j < 8 * n
    · simp [hlt]
    · have h2 : b.getLsbD (8 * i + j - 8 * n) = false := BitVec.getLsbD_of_ge _ _ (by omega)
      simp [h2]

/-- Writing the byte `b` as byte `n` of a configuration word. -/
theorem cfgByte_insert (cfg : Word) (b : Byte) {n i : Nat} (hn : n < 8) (hi : i < 8) :
    cfgByte (b.setWidth 64 <<< (8 * n) ||| (cfg &&& ~~~(0xff#64 <<< (8 * n)))) i =
      if i = n then b else cfgByte cfg i := by
  rw [cfgByte_or, cfgByte_shift b hi, cfgByte_clear cfg hn hi]
  by_cases h : i = n <;> simp [h]

/-! ## NAPOT -/

/-- A number that ends in a zero followed by `k` ones has `k` trailing ones. -/
theorem trailingOnes_eq (q : Nat) : ∀ {k fuel : Nat}, k ≤ fuel →
    (k = fuel → q = 0) → trailingOnes fuel (2 ^ (k + 1) * q + (2 ^ k - 1)) = k := by
  intro k
  induction k with
  | zero =>
    intro fuel _ h0
    cases fuel with
    | zero => simp [trailingOnes]
    | succ fuel =>
      have : (2 ^ (0 + 1) * q + (2 ^ 0 - 1)) % 2 = 0 := by simp
      simp [trailingOnes]
  | succ k ih =>
    intro fuel hk h0
    cases fuel with
    | zero => omega
    | succ fuel =>
      have hpos : 0 < 2 ^ k := Nat.two_pow_pos k
      have hn : 2 ^ (k + 1 + 1) * q + (2 ^ (k + 1) - 1)
          = 2 * (2 ^ (k + 1) * q + (2 ^ k - 1)) + 1 := by
        have h1 : 2 ^ (k + 1 + 1) * q = 2 * (2 ^ (k + 1) * q) := by ring
        have h2 : 2 ^ (k + 1) = 2 * 2 ^ k := by ring
        omega
      rw [hn]
      simp only [trailingOnes]
      rw [if_pos (by omega)]
      have hdiv : (2 * (2 ^ (k + 1) * q + (2 ^ k - 1)) + 1) / 2 =
          2 ^ (k + 1) * q + (2 ^ k - 1) := by
        omega
      rw [hdiv, ih (by omega) (fun h => h0 (by omega))]

/-- The NAPOT encoding of the naturally aligned range of `2 ^ (k + 3)` bytes at `2 ^ (k + 3) * q`
matches exactly that range. -/
theorem napotMatches_iff {w : Word} {k q : Nat} (hk : k < 64)
    (hw : w.toNat = 2 ^ (k + 1) * q + (2 ^ k - 1)) (a : Nat) :
    napotMatches w a = true ↔ 2 ^ (k + 3) * q ≤ a ∧ a < 2 ^ (k + 3) * q + 2 ^ (k + 3) := by
  have hpos : 0 < 2 ^ (k + 3) := Nat.two_pow_pos _
  have hlt : 2 ^ k - 1 < 2 ^ (k + 1) := by
    have := Nat.two_pow_pos k
    have h2 : 2 ^ (k + 1) = 2 * 2 ^ k := by ring
    omega
  have hto : trailingOnes 64 w.toNat = k := by
    rw [hw]
    exact trailingOnes_eq q (by omega) (fun h => by omega)
  have hq : w.toNat / 2 ^ (k + 1) = q := by
    rw [hw, Nat.mul_add_div (Nat.two_pow_pos _), Nat.div_eq_of_lt hlt, Nat.add_zero]
  simp only [napotMatches, hto, hq, beq_iff_eq]
  rw [Nat.div_eq_iff hpos, Nat.mul_comm q]
  constructor
  · rintro ⟨h1, h2⟩
    exact ⟨h1, by omega⟩
  · rintro ⟨h1, h2⟩
    exact ⟨h1, by omega⟩

/-- An address register of 0 stands for the first eight bytes. -/
theorem napotMatches_zero {a : Nat} (ha : 8 ≤ a) : napotMatches 0 a = false := by
  have hno : ¬ napotMatches 0 a = true := by
    intro hm
    have hlt := ((napotMatches_iff (k := 0) (q := 0) (by omega) (by rfl) a).mp hm).2
    omega
  simpa using hno

/-- The all-ones address register matches every 64-bit address. -/
theorem napotMatches_allOnes {a : Nat} (ha : a < 2 ^ 64) : napotMatches (-1) a = true := by
  have hto : trailingOnes 64 (-1 : Word).toNat = 64 := by decide
  have hdiv : (-1 : Word).toNat / 2 ^ (64 + 1) = 0 := by decide
  have ha' : a / 2 ^ (64 + 3) = 0 := Nat.div_eq_of_lt (by omega)
  simp only [napotMatches, hto, hdiv, ha', beq_self_eq_true]

/-! ## Matching by mode -/

section Modes

variable {r : PmpRegs} {i a : Nat}

/-- An entry that is off matches nothing. -/
theorem entryMatches_off (h : cfgByte (r.pmpcfg 0) i &&& PMP_A = 0) :
    entryMatches r i a = false := by
  simp [entryMatches, h, PMP_A_TOR, PMP_A_NA4, PMP_A_NAPOT]

theorem entryMatches_tor (h : cfgByte (r.pmpcfg 0) i &&& PMP_A = PMP_A_TOR) :
    entryMatches r i a = true ↔ torBase r i ≤ a / 4 ∧ a / 4 < (r.pmpaddr i).toNat := by
  simp [entryMatches, h]

theorem entryMatches_napot (h : cfgByte (r.pmpcfg 0) i &&& PMP_A = PMP_A_NAPOT) :
    entryMatches r i a = napotMatches (r.pmpaddr i) a := by
  simp [entryMatches, h, PMP_A_TOR, PMP_A_NA4, PMP_A_NAPOT]

/-- Whether an entry matches depends only on its own byte, its address register and
the one below. -/
theorem entryMatches_congr {r' : PmpRegs}
    (hc : cfgByte (r'.pmpcfg 0) i = cfgByte (r.pmpcfg 0) i) (ha : r'.pmpaddr i = r.pmpaddr i)
    (hb : cfgByte (r.pmpcfg 0) i &&& PMP_A = PMP_A_TOR → torBase r' i = torBase r i) :
    entryMatches r' i a = entryMatches r i a := by
  unfold entryMatches
  rw [hc, ha]
  by_cases h : cfgByte (r.pmpcfg 0) i &&& PMP_A = PMP_A_TOR
  · rw [hb h]
  · simp only [h, if_false]

end Modes

/-! ## The deciding entry -/

section Decider

variable {r : PmpRegs} {i a : Nat}

theorem decider_eq_some : decider r a = some i ↔
    i < 8 ∧ entryMatches r i a = true ∧ ∀ j < i, entryMatches r j a = false := by
  unfold decider
  rw [List.find?_range_eq_some]
  simp only [entryCount, List.mem_range, Bool.not_eq_true']
  tauto

theorem decider_eq_none : decider r a = none ↔ ∀ i < 8, entryMatches r i a = false := by
  simp [decider, entryCount]

theorem suPerm_of_decider (h : decider r a = some i) :
    suPerm r a = Perm.ofByte (cfgByte (r.pmpcfg 0) i) := by
  simp [suPerm, h]

/-- Registers that agree on each entry that no lower one hides give the same permission. -/
theorem suPerm_congr {r' : PmpRegs}
    (hm : ∀ i < 8, (∀ j < i, entryMatches r j a = false) → entryMatches r' i a = entryMatches r i a)
    (hp : ∀ i < 8, entryMatches r i a = true →
      cfgByte (r'.pmpcfg 0) i = cfgByte (r.pmpcfg 0) i) : suPerm r' a = suPerm r a := by
  cases hd : decider r a with
  | none =>
    have hno := decider_eq_none.mp hd
    have hd' : decider r' a = none := by
      refine decider_eq_none.mpr fun i hi => ?_
      rw [hm i hi fun j hj => hno j (by omega)]
      exact hno i hi
    simp only [suPerm, hd, hd']
  | some i =>
    obtain ⟨hi, hmatch, hlow⟩ := decider_eq_some.mp hd
    have hd' : decider r' a = some i := by
      refine decider_eq_some.mpr ⟨hi, ?_, fun j hj => ?_⟩
      · rw [hm i hi hlow]
        exact hmatch
      · rw [hm j (by omega) fun k hk => hlow k (by omega)]
        exact hlow j hj
    rw [suPerm_of_decider hd, suPerm_of_decider hd', hp i hi hmatch]

/-- A permission comes from an entry that matches and grants it. -/
theorem exists_match_of_suPerm_any (h : (suPerm r a).any = true) :
    ∃ i < 8, entryMatches r i a = true ∧ (Perm.ofByte (cfgByte (r.pmpcfg 0) i)).any = true ∧
      ∀ j < i, entryMatches r j a = false := by
  cases hd : decider r a with
  | none => simp [suPerm, hd, Perm.any, Perm.none] at h
  | some i =>
    rw [suPerm_of_decider hd] at h
    obtain ⟨hi, hm, hlow⟩ := decider_eq_some.mp hd
    exact ⟨i, hi, hm, h, hlow⟩

end Decider

end Dorami.Riscv
