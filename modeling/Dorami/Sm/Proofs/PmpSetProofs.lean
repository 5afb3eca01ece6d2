import Dorami.Lib.Run
import Dorami.Riscv.Proofs.PmpProofs
import Dorami.Sm.Proofs.BootProofs
import Dorami.Sm.Proofs.SeparationProofs

/-!
# What a programmed PMP entry means

`pmp_set_keystone` writes the one or two registers of a region and leaves the others alone
(`SetRes`), and the entry it writes matches the bytes of the region. The second part needs that the
region can be encoded at its register, which holds of every region of the monitor: NAPOT regions are
naturally aligned, and a TOR region is never at register 0, where its base would be lost.
-/

namespace Dorami.Sm

open Riscv Lib

/-! ## The registers that change -/

/-- `r'` differs from `r` at the registers of the region at most. -/
structure Frame (R : PmpRegion) (r r' : PmpRegs) : Prop where
  cfg : ∀ n < 8, ¬ R.Occupies n → cfgByte (r'.pmpcfg 0) n = cfgByte (r.pmpcfg 0) n
  addr : ∀ n, ¬ R.Occupies n → r'.pmpaddr n = r.pmpaddr n
  other : ∀ g, g ≠ 0 → r'.pmpcfg g = r.pmpcfg g

/-- `r'` is `r` with the region programmed. -/
structure SetRes (R : PmpRegion) (perm : Byte) (r r' : PmpRegs) : Prop where
  installed : Installed R perm r'
  frame : Frame R r r'

/-- `r'` is `r` with the registers of the region cleared. -/
structure UnsetRes (R : PmpRegion) (r r' : PmpRegs) : Prop where
  clear : ∀ n, R.Occupies n → cfgByte (r'.pmpcfg 0) n = 0 ∧ r'.pmpaddr n = 0
  frame : Frame R r r'

section Write

variable {r : PmpRegs} {n : Nat} (addr : Word)

theorem cfgMask_eq (hn : n < 8) : cfgMask n = 0xff#64 <<< (8 * n) := by
  rw [cfgMask, PMP_PER_GROUP, Nat.mod_eq_of_lt hn]

theorem writePmp_pmpcfg (hn : n < 8) (cfg : Word) (g : Nat) :
    (writePmp r n addr cfg).pmpcfg g = if g = 0 then cfg else r.pmpcfg g := by
  simp [writePmp, pmpGroup, hn, Nat.lt_trans hn (by decide : 8 < 16)]

theorem writePmp_pmpaddr (hn : n < 8) (cfg : Word) (m : Nat) :
    (writePmp r n addr cfg).pmpaddr m = if m = n then addr else r.pmpaddr m := by
  simp [writePmp, Nat.lt_trans hn (by decide : 8 < 16)]

theorem pmpSet_cfgByte (hn : n < 8) (b : Byte) {i : Nat} (hi : i < 8) :
    cfgByte ((pmpSet r n addr (b.setWidth 64 <<< (8 * n))).pmpcfg 0) i =
      if i = n then b else cfgByte (r.pmpcfg 0) i := by
  rw [pmpSet, writePmp_pmpcfg addr hn, if_pos rfl, pmpSetCfg, pmpGroup, if_pos hn, cfgMask_eq hn,
    cfgByte_insert _ _ hn hi]

theorem pmpUnsetReg_cfgByte (hn : n < 8) {i : Nat} (hi : i < 8) :
    cfgByte ((pmpUnsetReg r n).pmpcfg 0) i = if i = n then 0 else cfgByte (r.pmpcfg 0) i := by
  rw [pmpUnsetReg, writePmp_pmpcfg 0 hn, if_pos rfl, pmpGroup, if_pos hn, cfgMask_eq hn,
    cfgByte_clear _ hn hi]

end Write

section Program

variable {t : PmpTable} {r : PmpRegs} {rid : Nat}

theorem needsTwoEntries_pos {R : PmpRegion} (h : R.needsTwoEntries = true) : 0 < R.regIdx := by
  simp only [PmpRegion.needsTwoEntries, Bool.and_eq_true, decide_eq_true_eq] at h
  exact h.2

theorem pmpcfgVal_eq {R : PmpRegion} (h : R.regIdx < 8) (p : Byte) :
    R.pmpcfgVal R.regIdx p = (R.addrmode ||| p).setWidth 64 <<< (8 * R.regIdx) := by
  rw [PmpRegion.pmpcfgVal, PMP_PER_GROUP, Nat.mod_eq_of_lt h]

/-- What `pmp_set_keystone` does for a defined region. -/
theorem pmpSetKeystone_res (hv : t.isPmpRegionValid rid = true) (hidx : (t.regions rid).regIdx < 8)
    (perm : Byte) : SetRes (t.regions rid) perm r (pmpSetKeystone t r rid perm).1 := by
  have hmask : EPMP_ALL_ALL_PERM = PMP_LRWX := by decide
  have hzero : (0 : Word) = (0 : Byte).setWidth 64 <<< (8 * ((t.regions rid).regIdx - 1)) := by
    simp
  simp only [pmpSetKeystone, hv, Bool.not_true, Bool.false_eq_true, if_false, hmask,
    pmpcfgVal_eq hidx]
  generalize hR : t.regions rid = R at *
  by_cases h2 : R.needsTwoEntries = true
  · have hpos := needsTwoEntries_pos h2
    have hlow : R.regIdx - 1 < 8 := by omega
    rw [if_pos h2, hzero]
    refine ⟨⟨?_, ?_, fun _ => ⟨?_, ?_⟩⟩, fun n hn hocc => ?_, fun n hocc => ?_, fun g hg => ?_⟩
    · rw [pmpSet_cfgByte _ hlow _ hidx, if_neg (by omega), pmpSet_cfgByte _ hidx _ hidx, if_pos rfl]
    · rw [pmpSet, writePmp_pmpaddr _ hlow, if_neg (by omega), pmpSet, writePmp_pmpaddr _ hidx,
        if_pos rfl]
    · rw [pmpSet_cfgByte _ hlow _ hlow, if_pos rfl]
    · rw [pmpSet, writePmp_pmpaddr _ hlow, if_pos rfl]
    · rw [PmpRegion.Occupies, not_or] at hocc
      rw [pmpSet_cfgByte _ hlow _ hn, if_neg (fun e => hocc.2 ⟨h2, e⟩), pmpSet_cfgByte _ hidx _ hn,
        if_neg hocc.1]
    · rw [PmpRegion.Occupies, not_or] at hocc
      rw [pmpSet, writePmp_pmpaddr _ hlow, if_neg (fun e => hocc.2 ⟨h2, e⟩), pmpSet,
        writePmp_pmpaddr _ hidx, if_neg hocc.1]
    · rw [pmpSet, writePmp_pmpcfg _ hlow, if_neg hg, pmpSet, writePmp_pmpcfg _ hidx, if_neg hg]
  · rw [if_neg h2]
    refine ⟨⟨?_, ?_, fun h => absurd h h2⟩, fun n hn hocc => ?_, fun n hocc => ?_, fun g hg => ?_⟩
    · rw [pmpSet_cfgByte _ hidx _ hidx, if_pos rfl]
    · rw [pmpSet, writePmp_pmpaddr _ hidx, if_pos rfl]
    · rw [pmpSet_cfgByte _ hidx _ hn, if_neg (fun e => hocc (Or.inl e))]
    · rw [pmpSet, writePmp_pmpaddr _ hidx, if_neg (fun e => hocc (Or.inl e))]
    · rw [pmpSet, writePmp_pmpcfg _ hidx, if_neg hg]

/-- What `pmp_unset` does for a defined region. -/
theorem pmpUnset_res (hv : t.isPmpRegionValid rid = true) (hidx : (t.regions rid).regIdx < 8) :
    UnsetRes (t.regions rid) r (pmpUnset t r rid).1 := by
  simp only [pmpUnset, hv, Bool.not_true, Bool.false_eq_true, if_false]
  generalize hR : t.regions rid = R at *
  have haddr : ∀ (r : PmpRegs) (n m : Nat), n < 8 →
      (pmpUnsetReg r n).pmpaddr m = if m = n then 0 else r.pmpaddr m :=
    fun r n m hn => writePmp_pmpaddr _ hn _ m
  have hother : ∀ (r : PmpRegs) (n g : Nat), n < 8 → g ≠ 0 →
      (pmpUnsetReg r n).pmpcfg g = r.pmpcfg g :=
    fun r n g hn hg => (writePmp_pmpcfg _ hn _ g).trans (if_neg hg)
  by_cases h2 : R.needsTwoEntries = true
  · have hlow : R.regIdx - 1 < 8 := by omega
    rw [if_pos h2]
    refine ⟨fun n hocc => ?_, fun n hn hocc => ?_, fun n hocc => ?_, fun g hg => ?_⟩
    · have hn : n < 8 := by rcases hocc with h | ⟨_, h⟩ <;> omega
      rw [pmpUnsetReg_cfgByte hlow hn, pmpUnsetReg_cfgByte hidx hn, haddr _ _ _ hlow,
        haddr _ _ _ hidx]
      rcases hocc with rfl | ⟨_, rfl⟩
      · simp
      · simp
    · rw [PmpRegion.Occupies, not_or] at hocc
      rw [pmpUnsetReg_cfgByte hlow hn, if_neg (fun e => hocc.2 ⟨h2, e⟩),
        pmpUnsetReg_cfgByte hidx hn, if_neg hocc.1]
    · rw [PmpRegion.Occupies, not_or] at hocc
      rw [haddr _ _ _ hlow, if_neg (fun e => hocc.2 ⟨h2, e⟩), haddr _ _ _ hidx, if_neg hocc.1]
    · rw [hother _ _ _ hlow hg, hother _ _ _ hidx hg]
  · rw [if_neg h2]
    refine ⟨fun n hocc => ?_, fun n hn hocc => ?_, fun n hocc => ?_, fun g hg => ?_⟩
    · obtain rfl : n = R.regIdx := hocc.resolve_right fun h => h2 h.1
      rw [pmpUnsetReg_cfgByte hidx hidx, haddr _ _ _ hidx]
      simp
    · rw [pmpUnsetReg_cfgByte hidx hn, if_neg (fun e => hocc (Or.inl e))]
    · rw [haddr _ _ _ hidx, if_neg (fun e => hocc (Or.inl e))]
    · exact hother _ _ _ hidx hg

end Program

/-! ## Encoding a region -/

/-- The region can be programmed at its register. -/
structure PmpRegion.Encodable (R : PmpRegion) : Prop where
  placed : R.WellPlaced
  idx : R.regIdx < 8
  mode : (R.addrmode = PMP_A_NAPOT ∧ isNapotRange R.addr R.size = true) ∨
    (R.addrmode = PMP_A_TOR ∧ isNapotRange R.addr R.size = false ∧ 0 < R.regIdx)

section Encode

variable {R : PmpRegion}

theorem toNat_sub_one {w : Word} (h : 0 < w.toNat) : (w - 1).toNat = w.toNat - 1 := by
  rw [BitVec.toNat_sub_of_le]
  · rfl
  · rw [BitVec.le_def]; exact h

/-- A range that passes `is_napot` is everything or a naturally aligned power of two. -/
theorem napot_shape (hp : R.WellPlaced) (hn : isNapotRange R.addr R.size = true) :
    R.isNapotAll = true ∨ ∃ k q, 12 ≤ k ∧ k < 64 ∧ R.size.toNat = 2 ^ k ∧
      R.addr.toNat = 2 ^ k * q := by
  simp only [isNapotRange, Bool.or_eq_true, Bool.and_eq_true, beq_iff_eq] at hn
  rcases hn with ⟨hs, ha⟩ | ⟨hs, ha⟩
  · exact Or.inl (by simp [PmpRegion.isNapotAll, hs, ha])
  rcases hp.pages with ⟨_, hpg⟩ | ⟨ha0, hall⟩
  · right
    have hpos := hp.size_pos
    have hs' : R.size.toNat &&& (R.size.toNat - 1) = 0 := by
      have := congrArg BitVec.toNat hs
      rwa [BitVec.toNat_and, toNat_sub_one hpos] at this
    obtain ⟨k, hk⟩ := (Nat.and_sub_one_eq_zero_iff_isPowerOfTwo (by omega)).mp hs'
    have ha' : R.addr.toNat % 2 ^ k = 0 := by
      have := congrArg BitVec.toNat ha
      rwa [BitVec.toNat_and, toNat_sub_one hpos, hk, Nat.and_two_pow_sub_one_eq_mod] at this
    have hlt : k < 64 := by
      have := R.size.isLt
      rw [hk] at this
      exact (Nat.pow_lt_pow_iff_right (by decide)).mp this
    have hge : 12 ≤ k := by
      have hle : 2 ^ 12 ≤ 2 ^ k := by
        rw [← hk]
        exact Nat.le_of_dvd hpos hpg
      exact (Nat.pow_le_pow_iff_right (by decide)).mp hle
    obtain ⟨q, hq⟩ := Nat.dvd_of_mod_eq_zero ha'
    exact ⟨k, q, hge, hlt, hk, hq⟩
  · left
    have hone : R.size = -1 := BitVec.eq_of_toNat_eq (by rw [hall]; rfl)
    simp [PmpRegion.isNapotAll, ha0, hone]

/-- `region_pmpaddr_val` of a naturally aligned region. -/
theorem pmpaddrVal_napot (hmode : R.addrmode = PMP_A_NAPOT) (hall : R.isNapotAll = false)
    {j q : Nat} (hs : R.size.toNat = 2 ^ (j + 3)) (ha : R.addr.toNat = 2 ^ (j + 3) * q) :
    R.pmpaddrVal.toNat = 2 ^ (j + 1) * q + (2 ^ j - 1) := by
  have hj := Nat.two_pow_pos j
  have hval : R.pmpaddrVal = (R.addr ||| (R.size / 2 - 1)) >>> 2 := by
    simp [PmpRegion.pmpaddrVal, PmpRegion.isNapot, hall, hmode]
  have hhalf : (R.size / 2).toNat = 2 ^ (j + 2) := by
    rw [BitVec.toNat_udiv, hs]
    show 2 ^ (j + 3) / 2 = _
    rw [pow_succ, Nat.mul_div_cancel _ (by decide)]
  have hmask : (R.size / 2 - 1).toNat = 2 ^ (j + 2) - 1 := by
    rw [toNat_sub_one (by rw [hhalf]; exact Nat.two_pow_pos _), hhalf]
  have hor : R.addr.toNat ||| (2 ^ (j + 2) - 1) = 2 ^ (j + 3) * q + (2 ^ (j + 2) - 1) := by
    have hlt : 2 ^ (j + 2) - 1 < 2 ^ (j + 3) := by
      have : 2 ^ (j + 2) < 2 ^ (j + 3) := Nat.pow_lt_pow_right (by decide) (by omega)
      omega
    rw [ha, Nat.two_pow_add_eq_or_of_lt hlt]
  rw [hval, BitVec.toNat_ushiftRight, BitVec.toNat_or, hmask, hor, Nat.shiftRight_eq_div_pow]
  have h1 : 2 ^ (j + 3) * q = 4 * (2 ^ (j + 1) * q) := by ring
  have h2 : 2 ^ (j + 2) = 4 * 2 ^ j := by ring
  omega

theorem cfg_mode_napot (p : Byte) : (PMP_A_NAPOT ||| (p &&& PMP_LRWX)) &&& PMP_A = PMP_A_NAPOT := by
  revert p; decide

theorem cfg_mode_tor (p : Byte) : (PMP_A_TOR ||| (p &&& PMP_LRWX)) &&& PMP_A = PMP_A_TOR := by
  revert p; decide

theorem PmpRegion.Encodable.cfg_perm (h : R.Encodable) (p : Byte) :
    (R.addrmode ||| (p &&& PMP_LRWX)) &&& PMP_LRWX = p &&& PMP_LRWX := by
  rcases h.mode with ⟨hm, _⟩ | ⟨hm, _⟩
  · rw [hm]; revert p; decide
  · rw [hm]; revert p; decide

variable {perm : Byte} {r r' : PmpRegs}

/-- A NAPOT entry with the address value of a region matches the addresses of the region. -/
theorem napot_entry_iff (hR : R.Encodable) (hmode : R.addrmode = PMP_A_NAPOT) {n : Nat}
    (hcfg : cfgByte (r.pmpcfg 0) n &&& PMP_A = PMP_A_NAPOT) (haddr : r.pmpaddr n = R.pmpaddrVal)
    {a : Nat} (ha : a < 2 ^ 64) : entryMatches r n a = true ↔ a ∈ R.extent := by
  have hnap : isNapotRange R.addr R.size = true := by
    rcases hR.mode with ⟨_, hn⟩ | ⟨hm, _⟩
    · exact hn
    · rw [hm] at hmode; exact absurd hmode (by decide)
  rw [entryMatches_napot hcfg, haddr, PmpRegion.extent]
  cases hall : R.isNapotAll with
  | true =>
    have hval : R.pmpaddrVal = -1 := by simp [PmpRegion.pmpaddrVal, hall]
    rw [hval, napotMatches_allOnes ha]
    simp
  | false =>
    obtain h' | ⟨k, q, hk12, hk64, hs, hq⟩ := napot_shape hR.placed hnap
    · rw [hall] at h'; exact absurd h' (by decide)
    obtain ⟨j, rfl⟩ : ∃ j, k = j + 3 := ⟨k - 3, by omega⟩
    rw [napotMatches_iff (by omega) (pmpaddrVal_napot hmode hall hs hq)]
    simp only [Bool.false_eq_true, if_false, PmpRegion.bytes, byteRange, Set.mem_Ico, hs, hq]

/-- The programmed entry matches the addresses of the region. -/
theorem Installed.matches_iff (h : Installed R perm r) (hR : R.Encodable) {a : Nat}
    (ha : a < 2 ^ 64) : entryMatches r R.regIdx a = true ↔ a ∈ R.extent := by
  have hfits := hR.placed.fits
  rcases hR.mode with ⟨hmode, _⟩ | ⟨hmode, hnap, hpos⟩
  · have hcfg : cfgByte (r.pmpcfg 0) R.regIdx &&& PMP_A = PMP_A_NAPOT := by
      rw [h.cfg, hmode, cfg_mode_napot]
    exact napot_entry_iff hR hmode hcfg h.addr ha
  · have htwo : R.needsTwoEntries = true := by
      simp [PmpRegion.needsTwoEntries, PmpRegion.isTor, hmode, hpos]
    have hcfg : cfgByte (r.pmpcfg 0) R.regIdx &&& PMP_A = PMP_A_TOR := by
      rw [h.cfg, hmode, cfg_mode_tor]
    have hall : R.isNapotAll = false := by
      by_contra hc
      simp only [PmpRegion.isNapotAll, Bool.not_eq_false, Bool.and_eq_true, beq_iff_eq] at hc
      simp [isNapotRange, hc.1, hc.2] at hnap
    have hval : R.pmpaddrVal = (R.addr + R.size) >>> 2 := by
      simp [PmpRegion.pmpaddrVal, PmpRegion.isNapot, PmpRegion.isTor, hall, hmode, PMP_A_TOR,
        PMP_A_NAPOT]
    have hpg : 4096 ∣ R.addr.toNat ∧ 4096 ∣ R.size.toNat := by
      refine hR.placed.pages.resolve_right fun hw => ?_
      have hone : R.size = -1 := BitVec.eq_of_toNat_eq (by rw [hw.2]; rfl)
      simp [PmpRegion.isNapotAll, hw.1, hone] at hall
    have hsum : (R.addr + R.size).toNat = R.addr.toNat + R.size.toNat := by
      rw [BitVec.toNat_add, Nat.mod_eq_of_lt hfits]
    rw [entryMatches_tor hcfg, torBase, if_neg (by omega), (h.low htwo).2, h.addr, hval,
      BitVec.toNat_ushiftRight, BitVec.toNat_ushiftRight, hsum, Nat.shiftRight_eq_div_pow,
      Nat.shiftRight_eq_div_pow]
    simp only [PmpRegion.extent, hall, Bool.false_eq_true, if_false, PmpRegion.bytes, byteRange,
      Set.mem_Ico]
    omega

theorem UnsetRes.matches_false (h : UnsetRes R r r') {n : Nat} (hn : R.Occupies n) (a : Nat) :
    entryMatches r' n a = false := by
  apply entryMatches_off
  rw [(h.clear n hn).1]
  rfl

end Encode

/-! ## Tables after boot -/

/-- What stays true of the table after `sm_init`: its regions are there, and the later ones keep to
the registers from 5 on. -/
structure PmpTable.Kept (t : PmpTable) : Prop where
  boot : ∀ i < 6, t.isPmpRegionValid i = true ∧ t.regions i = bootTable.regions i
  low : ∀ n < 5, testBit t.regBitmap n = true
  later : ∀ i, 6 ≤ i → t.isPmpRegionValid i = true → (t.regions i).Encodable ∧
    ∀ n, (t.regions i).Occupies n → 5 ≤ n

section Kept

variable {t t' : PmpTable}

theorem kept_bootTable : bootTable.Kept := by
  refine ⟨fun i hi => ⟨(bootTable_valid i).mpr hi, rfl⟩,
    fun n hn => (bootTable_reg n).mpr (Or.inl hn), fun i hi hv => ?_⟩
  exact absurd ((bootTable_valid i).mp hv) (by omega)

theorem separated_bootTable : bootTable.Separated := by
  have hrun : run PmpTable.step PmpTable.empty bootCalls = bootTable := rfl
  rw [← hrun]
  exact separated_run bootCalls

theorem encodable_bootTable {i : Nat} (hi : i < 6) : (bootTable.regions i).Encodable := by
  have h : ∀ j : Fin 6,
      let R := bootTable.regions j
      (0 < R.size.toNat ∧ R.addr.toNat + R.size.toNat < 2 ^ 64 ∧
        ((4096 ∣ R.addr.toNat ∧ 4096 ∣ R.size.toNat) ∨
          (R.addr = 0 ∧ R.size.toNat = 2 ^ 64 - 1))) ∧
      R.regIdx < 8 ∧ R.addrmode = PMP_A_NAPOT ∧ isNapotRange R.addr R.size = true := by decide
  obtain ⟨⟨hpos, hfits, hpages⟩, hidx, hmode, hnap⟩ := h ⟨i, hi⟩
  exact ⟨⟨hpos, hfits, hpages⟩, hidx, Or.inl ⟨hmode, hnap⟩⟩

theorem PmpTable.Kept.encodable (h : t.Kept) {i : Nat} (hv : t.isPmpRegionValid i = true) :
    (t.regions i).Encodable := by
  by_cases hi : i < 6
  · rw [(h.boot i hi).2]; exact encodable_bootTable hi
  · exact (h.later i (Nat.not_lt.mp hi) hv).1

/-- A region created without overlap after boot can be programmed, at registers from 5 on. -/
theorem encodable_of_init {start size : Word} {pri : PmpPriority} {rid : Nat} {r : PmpRegion}
    (hk : t.Kept) (h : InitOk t start size pri false rid r t') :
    r.Encodable ∧ ∀ n, r.Occupies n → 5 ≤ n := by
  have hge : ∀ n, r.Occupies n → 5 ≤ n := by
    intro n hn
    by_cases hp : pri = .bottom
    · subst hp
      have := (h.bottom_reg n).mp hn
      omega
    · by_contra hlt
      have hfree := h.regs_free hp hn
      rw [hk.low n (by omega)] at hfree
      exact absurd hfree (by decide)
  have hself : r.Occupies r.regIdx := Or.inl rfl
  refine ⟨⟨wellPlaced_of_init h, ?_, ?_⟩, hge⟩
  · rcases h.place with ⟨_, _, hreg⟩ | ⟨_, _, i, hreg, hidx⟩
    · cases pri with
      | any => exact hreg.2.2
      | top => rw [hreg.1]; decide
      | bottom => rw [show r.regIdx = 7 from hreg]; decide
    · cases pri with
      | any =>
        have := hreg.2.2.2
        split at hidx <;> omega
      | top => rw [hreg.2.1] at hidx; rw [hidx]; decide
      | bottom => exact absurd hreg id
  · have := hge _ hself
    rw [h.addr, h.size]
    rcases h.place with ⟨hn, hmode, _⟩ | ⟨hn, hmode, _⟩
    · exact Or.inl ⟨hmode, hn⟩
    · exact Or.inr ⟨hmode, hn, by omega⟩

theorem kept_of_init {start size : Word} {pri : PmpPriority} {rid : Nat} {r : PmpRegion}
    (hk : t.Kept) (h : InitOk t start size pri false rid r t') : t'.Kept := by
  have hrid : 6 ≤ rid := by
    by_contra hlt
    have hv := (hk.boot rid (by omega)).1
    rw [(getFreeRegionIdx_spec h.slot).2.1] at hv
    exact absurd hv (by decide)
  refine ⟨fun i hi => ?_, fun n hn => ?_, fun i hi hv => ?_⟩
  · obtain ⟨hv, hreg⟩ := hk.boot i hi
    rw [h.adds.valid, hv, h.adds.regions, setRegion_ne t r (by omega)]
    exact ⟨rfl, hreg⟩
  · exact (h.adds.reg n).mpr (Or.inl (hk.low n hn))
  · rw [h.adds.regions]
    by_cases hir : i = rid
    · rw [hir, setRegion_self]; exact encodable_of_init hk h
    · rw [setRegion_ne t r hir]
      rw [h.adds.valid, Bool.or_eq_true, beq_iff_eq] at hv
      exact hk.later i hi (hv.resolve_right hir)

theorem kept_of_removes {rid : Nat} (hk : t.Kept) (hrid : 6 ≤ rid)
    (hv : t.isPmpRegionValid rid = true) (h : Removes t t' rid) : t'.Kept := by
  refine ⟨fun i hi => ?_, fun n hn => ?_, fun i hi hvi => ?_⟩
  · obtain ⟨hvi, hreg⟩ := hk.boot i hi
    have hne : i ≠ rid := by omega
    rw [h.valid, hvi, h.regions, setRegion_ne t _ hne]
    exact ⟨by simpa using hne, hreg⟩
  · refine (h.reg n).mpr ⟨hk.low n hn, fun hocc => ?_⟩
    have := (hk.later rid hrid hv).2 n hocc
    omega
  · rw [h.valid, Bool.and_eq_true, bne_iff_ne] at hvi
    rw [h.regions, setRegion_ne t _ hvi.2]
    exact hk.later i hi hvi.1

/-- One call after boot that creates no overlapping region. -/
theorem kept_step (c : PmpCall) (hk : t.Kept) (hb : c.AfterBoot) (ho : c.NoOverlap) :
    (t.step c).Kept := by
  rcases step_cases t c with ⟨_, _, _, _, _, _, _, h⟩ | ⟨start, size, pri, ao, rid, r, rfl, _, h⟩ |
    ⟨_, _, _, h⟩ | ⟨rid, rfl, hv, h⟩
  · rwa [h]
  · obtain rfl : ao = false := ho
    exact kept_of_init hk h
  · rwa [h]
  · exact kept_of_removes hk hb hv h

end Kept

theorem kept_tableAfter (cs : List EnclaveCall) : (tableAfter cs).Kept := by
  have hstep : ∀ (t : PmpTable) (c : EnclaveCall), t.Kept → (t.enclaveStep c).Kept :=
    fun t c hk => kept_step c.1 hk c.2.1 c.2.2
  exact inv_run_all hstep cs kept_bootTable

theorem separated_tableAfter (cs : List EnclaveCall) : (tableAfter cs).Separated := by
  have hstep : ∀ (t : PmpTable) (c : EnclaveCall), t.Separated → (t.enclaveStep c).Separated :=
    fun t c hs => separated_step c.1 hs
  exact inv_run_all hstep cs separated_bootTable

/-- Programming a defined region writes an entry that matches its addresses with the given
permission and changes no other register; clearing it leaves its registers matching nothing. -/
theorem programmed_entry_means_region (cs : List EnclaveCall) (rid : Nat) (perm : Byte)
    (r : PmpRegs) (hv : (tableAfter cs).isPmpRegionValid rid = true) :
    let t := tableAfter cs
    let R := t.regions rid
    R.regIdx < 8 ∧
    (let r' := (pmpSetKeystone t r rid perm).1
     (∀ a < 2 ^ 64, entryMatches r' R.regIdx a = true ↔ a ∈ R.extent) ∧
     cfgByte (r'.pmpcfg 0) R.regIdx &&& PMP_LRWX = perm &&& PMP_LRWX ∧
     Frame R r r') ∧
    (let r' := (pmpUnset t r rid).1
     (∀ n, R.Occupies n → ∀ a, entryMatches r' n a = false) ∧ Frame R r r') := by
  intro t R
  have hR : R.Encodable := (kept_tableAfter cs).encodable hv
  have hset : SetRes R perm r (pmpSetKeystone t r rid perm).1 := pmpSetKeystone_res hv hR.idx perm
  have hunset : UnsetRes R r (pmpUnset t r rid).1 := pmpUnset_res hv hR.idx
  refine ⟨hR.idx, ⟨fun a ha => hset.installed.matches_iff hR ha, ?_, hset.frame⟩,
    fun n hn a => hunset.matches_false hn a, hunset.frame⟩
  rw [hset.installed.cfg, hR.cfg_perm]

/-- A TOR region at registers 5 and 6. -/
theorem programmed_tor_entry :
    let cs : List EnclaveCall := [⟨.init 0x90000000 0x3000 .any false, trivial, rfl⟩]
    let t := tableAfter cs
    t.isPmpRegionValid 6 = true ∧ t.regions 6 = ⟨0x3000, PMP_A_TOR, 0x90000000, false, 6⟩ ∧
    Frame (t.regions 6) resetRegs (pmpSetKeystone t resetRegs 6 PMP_NO_PERM).1 := by
  intro cs t
  have hv : t.isPmpRegionValid 6 = true := by decide
  exact ⟨hv, by decide, (programmed_entry_means_region cs 6 PMP_NO_PERM resetRegs hv).2.1.2.2⟩

end Dorami.Sm
