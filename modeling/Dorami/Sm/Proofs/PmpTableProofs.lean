import Dorami.Sm.Regions
import Mathlib.Data.Nat.Bitwise
import Mathlib.Tactic.Ring

/-!
# The region table: what allocation and release do

Every call of `pmp_region_init` either fails and leaves the table alone, or adds one region at the
lowest undefined slot (`InitOk`); `pmp_region_free_atomic` removes one. The later proofs about runs
of such calls use only these facts.
-/

namespace Dorami.Sm

open Riscv

/-! ## Bitmaps -/

section Bitmap

variable (b : BitVec 32) (m n : Nat)

theorem getLsbD_one_shiftLeft : (1#32 <<< m).getLsbD n = (decide (n < 32) && decide (n = m)) := by
  rw [BitVec.getLsbD_shiftLeft]
  by_cases hn : n < 32
  · by_cases hm : n = m
    · subst hm; simp [hn]
    · by_cases hlt : n < m
      · simp [hlt, hm]
      · have : n - m ≠ 0 := by omega
        simp [hm, BitVec.getLsbD_one, this]
  · simp [hn]

theorem testBit_eq_getLsbD : testBit b n = b.getLsbD n := by
  unfold testBit
  by_cases hb : b.getLsbD n = true
  · have hn : n < 32 := BitVec.lt_of_getLsbD hb
    rw [hb, bne_iff_ne]
    intro h
    have hbit := congrArg (fun x => BitVec.getLsbD x n) h
    simp only [BitVec.getLsbD_and, getLsbD_one_shiftLeft, hb, hn, decide_true,
      Bool.and_true] at hbit
    exact absurd (hbit.trans BitVec.getLsbD_zero) (by decide)
  · rw [Bool.not_eq_true] at hb
    rw [hb, bne_eq_false_iff_eq]
    apply BitVec.eq_of_getLsbD_eq
    intro i hi
    rw [BitVec.getLsbD_and, getLsbD_one_shiftLeft]
    by_cases him : i = n
    · subst him; simp [hb]
    · simp [him]

@[simp] theorem testBit_setBit :
    testBit (setBit b m) n = (testBit b n || (decide (n < 32) && n == m)) := by
  simp only [testBit_eq_getLsbD, setBit, BitVec.getLsbD_or, getLsbD_one_shiftLeft]
  rfl

@[simp] theorem testBit_unsetBit : testBit (unsetBit b m) n = (testBit b n && n != m) := by
  simp only [testBit_eq_getLsbD, unsetBit, BitVec.getLsbD_and, BitVec.getLsbD_not,
    getLsbD_one_shiftLeft]
  by_cases hn : n < 32
  · by_cases hm : n = m <;> simp [hn, hm]
  · have := BitVec.getLsbD_of_ge b n (by omega)
    simp [this]

@[simp] theorem testBit_zero : testBit 0 n = false := by
  rw [testBit_eq_getLsbD]; exact BitVec.getLsbD_zero

theorem testBit_lt (h : testBit b n = true) : n < 32 := by
  rw [testBit_eq_getLsbD] at h
  exact BitVec.lt_of_getLsbD h

/-- All bits of `mask` are unset in `b`. -/
theorem not_and_eq_iff (mask : BitVec 32) : ~~~b &&& mask = mask ↔
    ∀ i, mask.getLsbD i = true → testBit b i = false := by
  simp only [testBit_eq_getLsbD]
  constructor
  · intro h i hi
    have hbit := congrArg (fun x => BitVec.getLsbD x i) h
    simp only [BitVec.getLsbD_and, BitVec.getLsbD_not, hi, Bool.and_true, Bool.and_eq_true,
      Bool.not_eq_true'] at hbit
    exact hbit.2
  · intro h
    apply BitVec.eq_of_getLsbD_eq
    intro i hi
    rw [BitVec.getLsbD_and, BitVec.getLsbD_not]
    cases hm : mask.getLsbD i with
    | false => simp
    | true => simp only [h i hm, hi, decide_true, Bool.not_false, Bool.and_true]

end Bitmap

/-! ## `search_rightmost_unset` -/

section Search

variable {b : BitVec 32} {max : Nat}

theorem toNat_one_shiftLeft {i : Nat} (hi : i < 32) : (1#32 <<< i).toNat = 2 ^ i := by
  rw [BitVec.toNat_shiftLeft, Nat.shiftLeft_eq]
  have : 2 ^ i < 2 ^ 32 := Nat.pow_lt_pow_right (by decide) hi
  simp only [BitVec.toNat_ofNat]
  rw [Nat.mod_eq_of_lt]
  · simp
  · simpa using this

theorem searchLoop_one (hmax : max < 32) : ∀ (fuel i : Nat), i + fuel = max →
    searchRightmostUnsetLoop b max fuel i (1#32 <<< i) =
      (List.range' i fuel).find? (fun j => !testBit b j) := by
  intro fuel
  induction fuel with
  | zero => intro i _; rfl
  | succ fuel ih =>
    intro i hi
    have hlt : 2 ^ i < 2 ^ max := Nat.pow_lt_pow_right (by decide) (by omega)
    have hmask : (~~~b &&& (1#32 <<< i) = 1#32 <<< i) ↔ testBit b i = false := by
      rw [not_and_eq_iff]
      simp only [getLsbD_one_shiftLeft, Bool.and_eq_true, decide_eq_true_eq]
      constructor
      · intro h; exact h i ⟨by omega, rfl⟩
      · rintro h j ⟨_, rfl⟩; exact h
    have hnext : (1#32 <<< i) <<< 1 = 1#32 <<< (i + 1) := by
      rw [← BitVec.shiftLeft_add]
    simp only [searchRightmostUnsetLoop]
    rw [if_pos (by rw [toNat_one_shiftLeft (by omega)]; exact hlt), List.range'_succ, hnext]
    by_cases hb : testBit b i = false
    · rw [if_pos (hmask.mpr hb), List.find?_cons_of_pos (by simp [hb])]
    · rw [if_neg (fun h => hb (hmask.mp h)), List.find?_cons_of_neg (by simpa using hb)]
      exact ih (i + 1) (by omega)

/-- With the mask 1 the search finds the lowest unset bit. -/
theorem searchRightmostUnset_one (hmax : max < 32) :
    searchRightmostUnset b max 1 = (List.range max).find? (fun j => !testBit b j) := by
  have := searchLoop_one (b := b) hmax max 0 (by omega)
  rw [List.range_eq_range']
  simpa [searchRightmostUnset] using this

theorem getLsbD_three_shiftLeft {i j : Nat} (hi : i + 1 < 32) :
    (3#32 <<< i).getLsbD j = true ↔ j = i ∨ j = i + 1 := by
  have h3 : (3#32 <<< i) = (1#32 <<< i) ||| (1#32 <<< (i + 1)) := by
    rw [Nat.add_comm i 1, BitVec.shiftLeft_add, ← BitVec.shiftLeft_or_distrib]
    rfl
  rw [h3, BitVec.getLsbD_or, getLsbD_one_shiftLeft, getLsbD_one_shiftLeft]
  simp only [Bool.or_eq_true, Bool.and_eq_true, decide_eq_true_eq]
  omega

theorem searchLoop_three (hmax : max < 31) : ∀ (fuel i : Nat), i + fuel = max →
    searchRightmostUnsetLoop b max fuel i (3#32 <<< i) =
      (List.range' i (fuel - 1)).find? (fun j => !testBit b j && !testBit b (j + 1)) := by
  intro fuel
  induction fuel with
  | zero => intro i _; rfl
  | succ fuel ih =>
    intro i hi
    have hval : (3#32 <<< i).toNat = 3 * 2 ^ i := by
      rw [BitVec.toNat_shiftLeft, Nat.shiftLeft_eq]
      have h1 : 2 ^ i ≤ 2 ^ 30 := Nat.pow_le_pow_right (by decide) (by omega)
      simp only [BitVec.toNat_ofNat]
      rw [Nat.mod_eq_of_lt (by omega)]
    simp only [searchRightmostUnsetLoop, hval]
    cases fuel with
    | zero =>
      -- the mask reaches past the last bit, so the loop ends here
      have hge : ¬ 3 * 2 ^ i < 2 ^ max := by
        have : max = i + 1 := by omega
        rw [this, pow_succ]
        omega
      rw [if_neg hge]
      rfl
    | succ fuel =>
      have hlt : 3 * 2 ^ i < 2 ^ max := by
        have h1 : 2 ^ (i + 2) ≤ 2 ^ max := Nat.pow_le_pow_right (by decide) (by omega)
        have h2 : 2 ^ (i + 2) = 4 * 2 ^ i := by ring
        have h3 := Nat.two_pow_pos i
        omega
      have hmask : (~~~b &&& (3#32 <<< i) = 3#32 <<< i) ↔
          testBit b i = false ∧ testBit b (i + 1) = false := by
        rw [not_and_eq_iff]
        constructor
        · intro h
          exact ⟨h i ((getLsbD_three_shiftLeft (by omega)).mpr (Or.inl rfl)),
            h (i + 1) ((getLsbD_three_shiftLeft (by omega)).mpr (Or.inr rfl))⟩
        · rintro ⟨h1, h2⟩ j hj
          rcases (getLsbD_three_shiftLeft (by omega)).mp hj with rfl | rfl
          · exact h1
          · exact h2
      have hnext : (3#32 <<< i) <<< 1 = 3#32 <<< (i + 1) := by
        rw [← BitVec.shiftLeft_add]
      rw [if_pos hlt, hnext, Nat.add_sub_cancel, List.range'_succ]
      by_cases hb : testBit b i = false ∧ testBit b (i + 1) = false
      · rw [if_pos (hmask.mpr hb), List.find?_cons_of_pos (by simp [hb.1, hb.2])]
      · rw [if_neg (fun h => hb (hmask.mp h)), ih (i + 1) (by omega), Nat.add_sub_cancel,
          List.find?_cons_of_neg]
        intro h
        simp only [Bool.and_eq_true, Bool.not_eq_true'] at h
        exact hb h

/-- With the mask 3 the search finds the lowest two consecutive unset bits. -/
theorem searchRightmostUnset_three (hmax : max < 31) :
    searchRightmostUnset b max 3 =
      (List.range (max - 1)).find? (fun j => !testBit b j && !testBit b (j + 1)) := by
  have := searchLoop_three (b := b) hmax max 0 (by omega)
  rw [List.range_eq_range']
  simpa [searchRightmostUnset] using this

end Search

/-! ## The registers of a region -/

theorem setRegion_self (t : PmpTable) (i : Nat) (r : PmpRegion) : t.setRegion i r i = r := by
  simp [PmpTable.setRegion]

theorem setRegion_ne (t : PmpTable) {i j : Nat} (r : PmpRegion) (h : j ≠ i) :
    t.setRegion i r j = t.regions j := by
  simp [PmpTable.setRegion, h]

/-- `t'` is `t` with the new region `r` at slot `rid`. -/
structure Adds (t t' : PmpTable) (rid : Nat) (r : PmpRegion) : Prop where
  regions : t'.regions = t.setRegion rid r
  valid : ∀ j, t'.isPmpRegionValid j = (t.isPmpRegionValid j || j == rid)
  reg : ∀ n, testBit t'.regBitmap n = true ↔ testBit t.regBitmap n = true ∨ r.Occupies n

/-- `t'` is `t` without the region at slot `rid`. -/
structure Removes (t t' : PmpTable) (rid : Nat) : Prop where
  regions : t'.regions = t.setRegion rid PmpRegion.clear
  valid : ∀ j, t'.isPmpRegionValid j = (t.isPmpRegionValid j && j != rid)
  reg : ∀ n, testBit t'.regBitmap n = true ↔
    testBit t.regBitmap n = true ∧ ¬ (t.regions rid).Occupies n

section Add

variable (t : PmpTable) {rid : Nat} (start size : Word) (ao : Bool) {i : Nat}

theorem valid_setBit (hr : rid < 8) (j : Nat) :
    testBit (setBit t.regionDefBitmap rid) j = (t.isPmpRegionValid j || j == rid) := by
  rw [testBit_setBit]
  unfold PmpTable.isPmpRegionValid
  by_cases h : j = rid
  · have : rid < 32 := by omega
    simp [h, this]
  · have : (j == rid) = false := beq_false_of_ne h
    rw [this, Bool.and_false]

theorem addNapotRegion_adds (hr : rid < 8) (hi : i < 8) :
    Adds t (t.addNapotRegion rid start size ao i) rid
      (PmpTable.regionInit start size PMP_A_NAPOT ao i) := by
  refine ⟨rfl, valid_setBit t hr, fun n => ?_⟩
  have hmode : (PMP_A_NAPOT == PMP_A_TOR) = false := by decide
  have hmode' : PMP_A_NAPOT ≠ PMP_A_TOR := by decide
  simp only [PmpTable.addNapotRegion, PmpTable.regionInit, PmpRegion.Occupies,
    PmpRegion.needsTwoEntries, PmpRegion.isTor, testBit_setBit, hmode, hmode', Bool.false_and,
    Bool.false_eq_true, false_and, or_false, if_false, Bool.or_eq_true, Bool.and_eq_true,
    decide_eq_true_eq, beq_iff_eq]
  constructor
  · rintro (h | ⟨_, h⟩)
    · exact Or.inl h
    · exact Or.inr h
  · rintro (h | h)
    · exact Or.inl h
    · exact Or.inr ⟨by omega, h⟩

theorem addTorRegion_adds (hr : rid < 8) (hi : i + 1 < 8) :
    Adds t (t.addTorRegion rid start size ao i) rid
      (PmpTable.regionInit start size PMP_A_TOR ao i) := by
  refine ⟨rfl, valid_setBit t hr, fun n => ?_⟩
  simp only [PmpTable.addTorRegion, PmpTable.regionInit, PmpRegion.Occupies,
    PmpRegion.needsTwoEntries, PmpRegion.isTor, true_and, beq_self_eq_true, Bool.true_and]
  by_cases h0 : 0 < i
  · simp only [h0, if_true, testBit_setBit, Bool.or_eq_true, Bool.and_eq_true, decide_eq_true_eq,
      beq_iff_eq]
    constructor
    · rintro ((h | ⟨_, h⟩) | ⟨_, h⟩)
      · exact Or.inl h
      · exact Or.inr (Or.inr ⟨by omega, by omega⟩)
      · exact Or.inr (Or.inl h)
    · rintro (h | h | ⟨_, h⟩)
      · exact Or.inl (Or.inl h)
      · exact Or.inr ⟨by omega, h⟩
      · exact Or.inl (Or.inr ⟨by omega, by omega⟩)
  · simp only [h0, if_false, testBit_setBit, Bool.or_eq_true, Bool.and_eq_true, decide_eq_true_eq,
      beq_iff_eq, false_and, or_false]
    constructor
    · rintro (h | ⟨_, h⟩)
      · exact Or.inl h
      · exact Or.inr h
    · rintro (h | h)
      · exact Or.inl h
      · exact Or.inr ⟨by omega, h⟩

end Add

/-! ## `pmp_region_init` -/

/-- The register `napot_region_init` takes for a region of the given priority. -/
def NapotReg (t : PmpTable) : PmpPriority → Nat → Prop
  | .any, i => t.getFreeRegIdx = some i ∧ testBit t.regBitmap i = false ∧ i < 8
  | .top, i => i = 0 ∧ testBit t.regBitmap 0 = false
  | .bottom, i => i = 7

/-- The lower register `tor_region_init` takes for a region of the given priority. -/
def TorReg (t : PmpTable) (start : Word) : PmpPriority → Nat → Prop
  | .any, i => t.getConseqFreeRegIdx = some i ∧ testBit t.regBitmap i = false ∧
      testBit t.regBitmap (i + 1) = false ∧ i + 1 < 8
  | .top, i => start = 0 ∧ i = 0 ∧ testBit t.regBitmap 0 = false
  | .bottom, _ => False

/-- The call `pmp_region_init(start, sz, pri, &rid, ao)` has succeeded on `t`, with the new region
`r` and the table `t'` as results. -/
structure InitOk (t : PmpTable) (start sz : Word) (pri : PmpPriority) (ao : Bool) (rid : Nat)
    (r : PmpRegion) (t' : PmpTable) : Prop where
  slot : t.getFreeRegionIdx = some rid
  size_ne : sz ≠ 0
  sep : ao = false → t.detectRegionOverlap start sz = false
  size_pg : sz = -1 ∨ sz &&& (RISCV_PGSIZE - 1) = 0
  start_pg : start &&& (RISCV_PGSIZE - 1) = 0
  adds : Adds t t' rid r
  addr : r.addr = start
  size : r.size = sz
  overlap : r.allowOverlap = ao
  place : (isNapotRange start sz = true ∧ r.addrmode = PMP_A_NAPOT ∧ NapotReg t pri r.regIdx) ∨
    (isNapotRange start sz = false ∧ r.addrmode = PMP_A_TOR ∧
      ∃ i, TorReg t start pri i ∧ r.regIdx = if 0 < i then i + 1 else i)

section Init

variable {t t' : PmpTable} {start size : Word} {pri : PmpPriority} {ao : Bool} {rid : Nat}

theorem napotRegionInit_ok (hslot : ∀ rid, t.getFreeRegionIdx = some rid → rid < 8)
    (h : t.napotRegionInit start size pri ao = (t', .ok rid)) :
    t.getFreeRegionIdx = some rid ∧ ∃ i, NapotReg t pri i ∧ i < 8 ∧
      t' = t.addNapotRegion rid start size ao i := by
  unfold PmpTable.napotRegionInit at h
  cases hfree : t.getFreeRegionIdx with
  | none => simp [hfree] at h
  | some k =>
    have hk : ¬ k > PMP_MAX_N_REGION := by have := hslot k hfree; simp [PMP_MAX_N_REGION]; omega
    simp only [hfree, hk, if_false] at h
    cases pri with
    | any =>
      cases hreg : t.getFreeRegIdx with
      | none => simp [hreg] at h
      | some i =>
        simp only [hreg] at h
        split at h
        · simp at h
        · next hc =>
          simp only [Bool.or_eq_true, not_or, Bool.not_eq_true] at hc
          simp only [Prod.mk.injEq, Except.ok.injEq] at h
          obtain ⟨rfl, rfl⟩ := h
          have hi : i < 8 := Nat.lt_of_not_le (of_decide_eq_false hc.2)
          exact ⟨rfl, i, ⟨hreg, hc.1, hi⟩, hi, rfl⟩
    | top =>
      simp only at h
      split at h
      · simp at h
      · next hc =>
        simp only [Prod.mk.injEq, Except.ok.injEq] at h
        obtain ⟨rfl, rfl⟩ := h
        exact ⟨rfl, 0, ⟨rfl, by simpa using hc⟩, by decide, rfl⟩
    | bottom =>
      simp only [Prod.mk.injEq, Except.ok.injEq] at h
      obtain ⟨rfl, rfl⟩ := h
      exact ⟨rfl, 7, rfl, by decide, rfl⟩

theorem torRegionInit_ok (hslot : ∀ rid, t.getFreeRegionIdx = some rid → rid < 8)
    (hstart : pri = .top → start = 0) (h : t.torRegionInit start size pri ao = (t', .ok rid)) :
    t.getFreeRegionIdx = some rid ∧ ∃ i, TorReg t start pri i ∧ i + 1 < 8 ∧
      t' = t.addTorRegion rid start size ao i := by
  unfold PmpTable.torRegionInit at h
  cases hfree : t.getFreeRegionIdx with
  | none => simp [hfree] at h
  | some k =>
    have hk : ¬ k > PMP_MAX_N_REGION := by have := hslot k hfree; simp [PMP_MAX_N_REGION]; omega
    simp only [hfree, hk, if_false] at h
    cases pri with
    | any =>
      cases hreg : t.getConseqFreeRegIdx with
      | none => simp [hreg] at h
      | some i =>
        simp only [hreg] at h
        split at h
        · simp at h
        · next hc =>
          simp only [Bool.or_eq_true, not_or, Bool.not_eq_true] at hc
          simp only [Prod.mk.injEq, Except.ok.injEq] at h
          obtain ⟨rfl, rfl⟩ := h
          have hi : i + 1 < 8 := Nat.lt_of_not_le (of_decide_eq_false hc.2)
          exact ⟨rfl, i, ⟨hreg, hc.1.1, hc.1.2, hi⟩, hi, rfl⟩
    | top =>
      simp only at h
      split at h
      · simp at h
      · next hc =>
        simp only [Prod.mk.injEq, Except.ok.injEq] at h
        obtain ⟨rfl, rfl⟩ := h
        exact ⟨rfl, 0, ⟨hstart rfl, rfl, by simpa using hc⟩, by decide, rfl⟩
    | bottom => simp at h

theorem getFreeRegionIdx_spec (h : t.getFreeRegionIdx = some rid) :
    rid < 8 ∧ t.isPmpRegionValid rid = false ∧ ∀ j < rid, t.isPmpRegionValid j = true := by
  unfold PmpTable.getFreeRegionIdx at h
  rw [searchRightmostUnset_one (by decide), List.find?_range_eq_some] at h
  obtain ⟨h1, h2, h3⟩ := h
  have hbit : testBit t.regionDefBitmap rid = false := by simpa using h1
  have hlow : ∀ j < rid, testBit t.regionDefBitmap j = true := fun j hj => by simpa using h3 j hj
  exact ⟨List.mem_range.mp h2, hbit, hlow⟩

/-- What a successful call does. -/
theorem pmpRegionInit_ok (h : t.pmpRegionInit start size pri ao = (t', .ok rid)) :
    ∃ r, InitOk t start size pri ao rid r t' := by
  unfold PmpTable.pmpRegionInit at h
  split at h
  · simp at h
  next hsz =>
  split at h
  · simp at h
  next hov =>
  split at h
  · simp at h
  next hspg =>
  split at h
  · simp at h
  next hapg =>
  have hsep : ao = false → t.detectRegionOverlap start size = false := by
    intro hao
    simpa [hao] using hov
  have hsize : size = -1 ∨ size &&& (RISCV_PGSIZE - 1) = 0 := by
    by_contra hn
    exact hspg (not_or.mp hn)
  have hslot : ∀ rid, t.getFreeRegionIdx = some rid → rid < 8 :=
    fun _ hr => (getFreeRegionIdx_spec hr).1
  split at h
  · next hn =>
    obtain ⟨hfree, i, hreg, hi, rfl⟩ := napotRegionInit_ok hslot h
    refine ⟨PmpTable.regionInit start size PMP_A_NAPOT ao i, hfree, hsz, hsep, hsize,
      not_not.mp hapg, addNapotRegion_adds t start size ao (hslot _ hfree) hi, rfl, rfl, rfl, ?_⟩
    have hidx : (PmpTable.regionInit start size PMP_A_NAPOT ao i).regIdx = i := by
      simp [PmpTable.regionInit, PMP_A_NAPOT, PMP_A_TOR]
    exact Or.inl ⟨hn, rfl, hidx ▸ hreg⟩
  next hn =>
  split at h
  · simp at h
  next hpri =>
  have htop : pri = .top → start = 0 := by
    rintro rfl
    by_contra hne
    exact hpri ⟨by simp, Or.inr hne⟩
  obtain ⟨hfree, i, hreg, hi, rfl⟩ := torRegionInit_ok hslot htop h
  refine ⟨PmpTable.regionInit start size PMP_A_TOR ao i, hfree, hsz, hsep, hsize,
    not_not.mp hapg, addTorRegion_adds t start size ao (hslot _ hfree) hi, rfl, rfl, rfl, ?_⟩
  exact Or.inr ⟨by simpa using hn, rfl, i, hreg, by simp [PmpTable.regionInit]⟩

theorem occupies_napot {r : PmpRegion} (h : r.addrmode = PMP_A_NAPOT) (n : Nat) :
    r.Occupies n ↔ n = r.regIdx := by
  have h2 : r.needsTwoEntries = false := by
    simp [PmpRegion.needsTwoEntries, PmpRegion.isTor, h, PMP_A_NAPOT, PMP_A_TOR]
  simp [PmpRegion.Occupies, h2]

/-- A region that is not created with the bottom priority takes registers that were free. -/
theorem InitOk.regs_free {r : PmpRegion} (h : InitOk t start size pri ao rid r t')
    (hp : pri ≠ .bottom) {n : Nat} (hn : r.Occupies n) : testBit t.regBitmap n = false := by
  rcases h.place with ⟨_, hmode, hreg⟩ | ⟨_, hmode, i, hreg, hidx⟩
  · rw [occupies_napot hmode] at hn
    subst hn
    cases pri with
    | any => exact hreg.2.1
    | top => obtain ⟨h0, hfree⟩ := hreg; rw [h0]; exact hfree
    | bottom => exact absurd rfl hp
  · have hn' : n = i ∨ (0 < i ∧ n = i + 1) := by
      by_cases h0 : 0 < i
      · rw [if_pos h0] at hidx
        rcases hn with hn | ⟨_, hn⟩ <;> omega
      · rw [if_neg h0] at hidx
        rcases hn with hn | ⟨h2, _⟩
        · omega
        · simp only [PmpRegion.needsTwoEntries, Bool.and_eq_true, decide_eq_true_eq] at h2
          omega
    cases pri with
    | any =>
      rcases hn' with rfl | ⟨_, rfl⟩
      · exact hreg.2.1
      · exact hreg.2.2.1
    | top =>
      obtain ⟨_, rfl, hfree⟩ := hreg
      obtain rfl : n = 0 := by omega
      exact hfree
    | bottom => exact absurd rfl hp

/-- A region created with the bottom priority takes register 7. -/
theorem InitOk.bottom_reg {r : PmpRegion} (h : InitOk t start size .bottom ao rid r t') (n : Nat) :
    r.Occupies n ↔ n = 7 := by
  rcases h.place with ⟨_, hmode, hreg⟩ | ⟨_, _, _, hreg, _⟩
  · rw [occupies_napot hmode, show r.regIdx = 7 from hreg]
  · exact absurd hreg id

theorem napotRegionInit_error {e : SmStatus}
    (h : t.napotRegionInit start size pri ao = (t', .error e)) : t' = t := by
  unfold PmpTable.napotRegionInit at h
  cases hfree : t.getFreeRegionIdx <;> cases pri <;> cases hreg : t.getFreeRegIdx <;>
    simp only [hfree, hreg] at h <;> (repeat' split at h) <;> simp_all

theorem torRegionInit_error {e : SmStatus}
    (h : t.torRegionInit start size pri ao = (t', .error e)) : t' = t := by
  unfold PmpTable.torRegionInit at h
  cases hfree : t.getFreeRegionIdx <;> cases pri <;> cases hreg : t.getConseqFreeRegIdx <;>
    simp only [hfree, hreg] at h <;> (repeat' split at h) <;> simp_all

/-- A call that fails leaves the table as it was. -/
theorem pmpRegionInit_error {e : SmStatus}
    (h : t.pmpRegionInit start size pri ao = (t', .error e)) : t' = t := by
  unfold PmpTable.pmpRegionInit at h
  split at h
  · exact (Prod.mk.inj h).1.symm
  split at h
  · exact (Prod.mk.inj h).1.symm
  split at h
  · exact (Prod.mk.inj h).1.symm
  split at h
  · exact (Prod.mk.inj h).1.symm
  split at h
  · exact napotRegionInit_error h
  split at h
  · exact (Prod.mk.inj h).1.symm
  · exact torRegionInit_error h

end Init

/-! ## `pmp_region_free_atomic` -/

theorem pmpRegionFree_invalid {t : PmpTable} {rid : Nat} (h : t.isPmpRegionValid rid = false) :
    t.pmpRegionFree rid = (t, .pmpRegionInvalid) := by
  simp [PmpTable.pmpRegionFree, h]

theorem pmpRegionFree_removes {t : PmpTable} {rid : Nat} (h : t.isPmpRegionValid rid = true) :
    Removes t (t.pmpRegionFree rid).1 rid := by
  have hfree : (t.pmpRegionFree rid).1 =
      { regions := t.setRegion rid PmpRegion.clear
        regionDefBitmap := unsetBit t.regionDefBitmap rid
        regBitmap := if (t.regions rid).needsTwoEntries then
            unsetBit (unsetBit t.regBitmap (t.regions rid).regIdx) ((t.regions rid).regIdx - 1)
          else unsetBit t.regBitmap (t.regions rid).regIdx } := by
    simp [PmpTable.pmpRegionFree, h]
  rw [hfree]
  refine ⟨rfl, fun j => testBit_unsetBit _ _ _, fun n => ?_⟩
  simp only [PmpRegion.Occupies]
  by_cases h2 : (t.regions rid).needsTwoEntries = true
  · simp only [h2, if_true, testBit_unsetBit, Bool.and_eq_true, bne_iff_ne, true_and, not_or]
    tauto
  · rw [if_neg h2]
    simp only [h2, testBit_unsetBit, Bool.and_eq_true, bne_iff_ne, Bool.false_eq_true, false_and,
      or_false]

/-- What one call can do to the table. -/
theorem step_cases (t : PmpTable) (c : PmpCall) :
    (∃ start size pri ao e, c = .init start size pri ao ∧
      t.pmpRegionInit start size pri ao = (t, .error e) ∧ t.step c = t) ∨
    (∃ start size pri ao rid r, c = .init start size pri ao ∧
      t.pmpRegionInit start size pri ao = (t.step c, .ok rid) ∧
      InitOk t start size pri ao rid r (t.step c)) ∨
    (∃ rid : Fin PMP_MAX_N_REGION, c = .free rid ∧ t.isPmpRegionValid rid = false ∧
      t.step c = t) ∨
    (∃ rid : Fin PMP_MAX_N_REGION, c = .free rid ∧ t.isPmpRegionValid rid = true ∧
      Removes t (t.step c) rid) := by
  cases c with
  | init start size pri ao =>
    rcases hres : t.pmpRegionInit start size pri ao with ⟨t', res⟩
    have hstep : t.step (.init start size pri ao) = t' := by simp [PmpTable.step, hres]
    cases res with
    | error e =>
      obtain rfl := pmpRegionInit_error hres
      exact Or.inl ⟨start, size, pri, ao, e, rfl, hres, hstep⟩
    | ok rid =>
      obtain ⟨r, hr⟩ := pmpRegionInit_ok hres
      exact Or.inr (Or.inl ⟨start, size, pri, ao, rid, r, rfl, by rw [hstep, hres], hstep ▸ hr⟩)
  | free rid =>
    cases hv : t.isPmpRegionValid rid with
    | true => exact Or.inr (Or.inr (Or.inr ⟨rid, rfl, hv, pmpRegionFree_removes hv⟩))
    | false =>
      refine Or.inr (Or.inr (Or.inl ⟨rid, rfl, hv, ?_⟩))
      show (t.pmpRegionFree rid).1 = t
      rw [pmpRegionFree_invalid hv]

end Dorami.Sm
