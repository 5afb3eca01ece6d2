import Dorami.Sm.Proofs.SeparationProofs

/-!
# Which regions `pmp_region_init` accepts

The decision is spread over `pmp_region_init`, the two functions for the address modes and the
search in the bitmaps. Here it is one condition on the range, the priority and the table
(`Accepts`), and what a call that meets it changes is one description of the new table (`Places`).
-/

namespace Dorami.Sm

open Riscv Lib

/-! ## The condition -/

/-- A naturally aligned power of two, or the whole address space. -/
def Natural (start size : Word) : Prop :=
  (∃ k, size.toNat = 2 ^ k ∧ 2 ^ k ∣ start.toNat) ∨ (start = 0 ∧ size.toNat = 2 ^ 64 - 1)

namespace PmpTable

variable (t : PmpTable)

def RegFree (n : Nat) : Prop := n < PMP_N_REG ∧ testBit t.regBitmap n = false

def PairFree (n : Nat) : Prop := t.RegFree n ∧ t.RegFree (n + 1)

/-- The register for a range that one NAPOT entry covers. -/
def NapotAvailable : PmpPriority → Prop
  | .any => ∃ n, t.RegFree n
  | .top => t.RegFree 0
  | .bottom => True

/-- The registers for any other range. -/
def TorAvailable (start : Word) : PmpPriority → Prop
  | .any => ∃ n, t.PairFree n
  | .top => start = 0 ∧ t.RegFree 0
  | .bottom => False

structure Accepts (start size : Word) (priority : PmpPriority) (allowOverlap : Bool) : Prop where
  size_ne : size ≠ 0
  start_pg : 4096 ∣ start.toNat
  size_pg : 4096 ∣ size.toNat ∨ size.toNat = 2 ^ 64 - 1
  apart : allowOverlap = true ∨ (start.toNat + size.toNat < 2 ^ 64 ∧
    ∀ i, t.Exclusive i → Disjoint (byteRange start size) (t.regions i).bytes)
  slot : ∃ i < PMP_MAX_N_REGION, t.isPmpRegionValid i = false
  regs : (Natural start size ∧ t.NapotAvailable priority) ∨
    (¬ Natural start size ∧ t.TorAvailable start priority)

/-! ## The change -/

/-- The lowest register with property `p`. -/
def Lowest (p : Nat → Prop) (n : Nat) : Prop := p n ∧ ∀ k < n, ¬ p k

/-- The first register of a new region. -/
def FirstReg (start size : Word) : PmpPriority → Nat → Prop
  | .any, n => (Natural start size ∧ Lowest t.RegFree n) ∨
      (¬ Natural start size ∧ Lowest t.PairFree n)
  | .top, n => n = 0
  | .bottom, n => n = PMP_N_REG - 1

/-- `t'` is `t` with the new region at the lowest undefined slot `rid` and its registers marked, two
for a TOR region above register 0. -/
structure Places (start size : Word) (priority : PmpPriority) (allowOverlap : Bool) (rid : Nat)
    (t' : PmpTable) : Prop where
  slot : Lowest (fun i => t.isPmpRegionValid i = false) rid
  others : ∀ j, j ≠ rid → t'.regions j = t.regions j
  valid : ∀ j, t'.isPmpRegionValid j = true ↔ t.isPmpRegionValid j = true ∨ j = rid
  regs : ∃ n, t.FirstReg start size priority n ∧
    ((Natural start size ∧ t'.regions rid = regionInit start size PMP_A_NAPOT allowOverlap n) ∨
      (¬ Natural start size ∧ t'.regions rid = regionInit start size PMP_A_TOR allowOverlap n)) ∧
    ∀ k, testBit t'.regBitmap k = true ↔
      testBit t.regBitmap k = true ∨ k = n ∨ (¬ Natural start size ∧ 0 < n ∧ k = n + 1)

end PmpTable

/-! ## Ranges -/

theorem and_page_eq_zero_iff {w : Word} : w &&& (RISCV_PGSIZE - 1) = 0 ↔ 4096 ∣ w.toNat := by
  refine ⟨dvd_of_and_page, fun h => BitVec.eq_of_toNat_eq ?_⟩
  rw [BitVec.toNat_and]
  show w.toNat &&& (2 ^ 12 - 1) = 0
  rw [Nat.and_two_pow_sub_one_eq_mod]
  exact Nat.mod_eq_zero_of_dvd h

theorem eq_neg_one_iff {w : Word} : w = -1 ↔ w.toNat = 2 ^ 64 - 1 := by
  constructor
  · intro h
    rw [h]
    rfl
  · intro h
    exact BitVec.eq_of_toNat_eq h

/-- `x & (size - 1)` on words. -/
theorem toNat_and_pred {x size : Word} (hsize : size ≠ 0) :
    (x &&& (size - 1)).toNat = x.toNat &&& (size.toNat - 1) := by
  have hpos := toNat_pos_of_ne hsize
  have hpred : (size - 1).toNat = size.toNat - 1 := by bv_omega
  rw [BitVec.toNat_and, hpred]

theorem isNapotRange_iff {start size : Word} (hsize : size ≠ 0) :
    isNapotRange start size = true ↔ Natural start size := by
  have hpos := toNat_pos_of_ne hsize
  have hzero : ∀ x : Word, x &&& (size - 1) = 0 ↔ x.toNat &&& (size.toNat - 1) = 0 := by
    intro x
    rw [← toNat_and_pred hsize]
    exact ⟨fun h => by rw [h]; rfl, fun h => BitVec.eq_of_toNat_eq h⟩
  unfold isNapotRange Natural
  simp only [Bool.or_eq_true, Bool.and_eq_true, beq_iff_eq, hzero, eq_neg_one_iff]
  rw [Nat.and_sub_one_eq_zero_iff_isPowerOfTwo (by omega), or_comm, and_comm (b := start = 0)]
  refine or_congr ⟨?_, ?_⟩ Iff.rfl
  · rintro ⟨⟨k, hk⟩, hstart⟩
    rw [hk, Nat.and_two_pow_sub_one_eq_mod] at hstart
    exact ⟨k, hk, Nat.dvd_of_mod_eq_zero hstart⟩
  · rintro ⟨k, hk, hstart⟩
    refine ⟨⟨k, hk⟩, ?_⟩
    rw [hk, Nat.and_two_pow_sub_one_eq_mod]
    exact Nat.mod_eq_zero_of_dvd hstart

/-! ## The searches -/

section Searches

variable {t : PmpTable} {n : Nat}

theorem getFreeRegionIdx_some_iff : t.getFreeRegionIdx = some n ↔
    n < PMP_MAX_N_REGION ∧ PmpTable.Lowest (fun i => t.isPmpRegionValid i = false) n := by
  unfold PmpTable.getFreeRegionIdx PmpTable.Lowest
  rw [searchRightmostUnset_one (by decide), List.find?_range_eq_some]
  simp only [Bool.not_eq_true', Bool.not_not, List.mem_range, Bool.not_eq_false]
  exact ⟨fun ⟨h1, h2, h3⟩ => ⟨h2, h1, h3⟩, fun ⟨h2, h1, h3⟩ => ⟨h1, h2, h3⟩⟩

theorem getFreeRegIdx_some_iff : t.getFreeRegIdx = some n ↔ PmpTable.Lowest t.RegFree n := by
  unfold PmpTable.getFreeRegIdx PmpTable.Lowest PmpTable.RegFree
  rw [searchRightmostUnset_one (by decide), List.find?_range_eq_some]
  simp only [Bool.not_eq_true', Bool.not_not, List.mem_range, not_and, Bool.not_eq_false]
  constructor
  · rintro ⟨hfree, hlt, hlow⟩
    exact ⟨⟨hlt, hfree⟩, fun k hk _ => hlow k hk⟩
  · rintro ⟨⟨hlt, hfree⟩, hlow⟩
    exact ⟨hfree, hlt, fun k hk => hlow k hk (Nat.lt_trans hk hlt)⟩

theorem getConseqFreeRegIdx_some_iff :
    t.getConseqFreeRegIdx = some n ↔ PmpTable.Lowest t.PairFree n := by
  unfold PmpTable.getConseqFreeRegIdx PmpTable.Lowest PmpTable.PairFree PmpTable.RegFree
  rw [searchRightmostUnset_three (by decide), List.find?_range_eq_some]
  have hlast : ∀ k, k ∈ List.range (PMP_N_REG - 1) ↔ k < PMP_N_REG ∧ k + 1 < PMP_N_REG := by
    intro k
    rw [List.mem_range]
    show k < 7 ↔ k < 8 ∧ k + 1 < 8
    omega
  simp only [Bool.and_eq_true, Bool.not_eq_true', hlast, Bool.not_and, Bool.not_not,
    Bool.or_eq_true]
  constructor
  · rintro ⟨⟨hlo, hhi⟩, ⟨hlt, hlt'⟩, hlow⟩
    refine ⟨⟨⟨hlt, hlo⟩, hlt', hhi⟩, fun k hk hpair => ?_⟩
    rcases hlow k hk with hset | hset
    · exact absurd (hset.symm.trans hpair.1.2) (by decide)
    · exact absurd (hset.symm.trans hpair.2.2) (by decide)
  · rintro ⟨⟨⟨hlt, hlo⟩, hlt', hhi⟩, hlow⟩
    refine ⟨⟨hlo, hhi⟩, ⟨hlt, hlt'⟩, fun k hk => ?_⟩
    by_contra hnone
    obtain ⟨h1, h2⟩ := not_or.mp hnone
    exact hlow k hk ⟨⟨Nat.lt_trans hk hlt, Bool.eq_false_of_not_eq_true h1⟩,
      by omega, Bool.eq_false_of_not_eq_true h2⟩

/-- Where there is a number with a property, there is a lowest one. -/
theorem exists_lowest {p : Nat → Prop} (h : ∃ n, p n) : ∃ n, PmpTable.Lowest p n := by
  classical
  exact ⟨Nat.find h, Nat.find_spec h, fun _ hk => Nat.find_min h hk⟩

theorem exists_freeRegion (h : ∃ i < PMP_MAX_N_REGION, t.isPmpRegionValid i = false) :
    ∃ rid, t.getFreeRegionIdx = some rid := by
  obtain ⟨i, hi, hfree⟩ := h
  have hexists : ∃ i, t.isPmpRegionValid i = false := ⟨i, hfree⟩
  obtain ⟨rid, hrid⟩ := exists_lowest hexists
  refine ⟨rid, getFreeRegionIdx_some_iff.mpr ⟨?_, hrid⟩⟩
  by_contra hge
  exact hrid.2 i (by omega) hfree

end Searches

/-! ## A call that succeeds -/

section Success

variable {t t' : PmpTable} {start size : Word} {pri : PmpPriority} {ao : Bool} {rid : Nat}
  {r : PmpRegion}

theorem NapotReg.available {i : Nat} (h : NapotReg t pri i) : t.NapotAvailable pri := by
  cases pri with
  | any => exact ⟨i, h.2.2, h.2.1⟩
  | top => exact ⟨by decide, h.2⟩
  | bottom => trivial

theorem TorReg.available {i : Nat} (h : TorReg t start pri i) : t.TorAvailable start pri := by
  cases pri with
  | any =>
    obtain ⟨-, hlo, hhi, hlt⟩ := h
    exact ⟨i, ⟨Nat.lt_of_succ_lt hlt, hlo⟩, hlt, hhi⟩
  | top => exact ⟨h.1, by decide, h.2.2⟩
  | bottom => exact h

theorem InitOk.accepts (hs : t.Separated) (h : InitOk t start size pri ao rid r t') :
    t.Accepts start size pri ao := by
  have hslot := getFreeRegionIdx_some_iff.mp h.slot
  refine ⟨h.size_ne, and_page_eq_zero_iff.mp h.start_pg, ?_, ?_, ⟨rid, hslot.1, hslot.2.1⟩, ?_⟩
  · rcases h.size_pg with hall | hpg
    · exact .inr (eq_neg_one_iff.mp hall)
    · exact .inl (and_page_eq_zero_iff.mp hpg)
  · cases ao with
    | true => exact .inl rfl
    | false =>
      have hno := h.sep rfl
      rw [← Bool.not_eq_true, detectRegionOverlap_iff hs.slot hs.placed (toNat_pos_of_ne h.size_ne),
        not_or] at hno
      refine .inr ⟨Nat.lt_of_not_le hno.1, fun i hi => ?_⟩
      by_contra hmeet
      exact hno.2 ⟨i, hi, hmeet⟩
  · rcases h.place with ⟨hn, -, hreg⟩ | ⟨hn, -, i, hreg, -⟩
    · exact .inl ⟨(isNapotRange_iff h.size_ne).mp hn, hreg.available⟩
    · refine .inr ⟨fun hnat => ?_, hreg.available⟩
      rw [(isNapotRange_iff h.size_ne).mpr hnat] at hn
      cases hn

/-- The first register, the record of the new region and the registers that it occupies. -/
theorem InitOk.firstReg (h : InitOk t start size pri ao rid r t') :
    ∃ n, t.FirstReg start size pri n ∧
      ((Natural start size ∧ r = PmpTable.regionInit start size PMP_A_NAPOT ao n) ∨
        (¬ Natural start size ∧ r = PmpTable.regionInit start size PMP_A_TOR ao n)) ∧
      ∀ k, r.Occupies k ↔ k = n ∨ (¬ Natural start size ∧ 0 < n ∧ k = n + 1) := by
  have hrecord : ∀ mode n, r.addrmode = mode →
      r.regIdx = (if mode = PMP_A_TOR ∧ 0 < n then n + 1 else n) →
      r = PmpTable.regionInit start size mode ao n := by
    intro mode n hmode hidx
    obtain ⟨rsize, rmode, raddr, rao, ridx⟩ := r
    obtain rfl : raddr = start := h.addr
    obtain rfl : rsize = size := h.size
    obtain rfl : rao = ao := h.overlap
    obtain rfl : rmode = mode := hmode
    unfold PmpTable.regionInit
    rw [← hidx]
  rcases h.place with ⟨hn, hmode, hreg⟩ | ⟨hn, hmode, n, hreg, hidx⟩
  · have hnat := (isNapotRange_iff h.size_ne).mp hn
    refine ⟨r.regIdx, ?_, .inl ⟨hnat, hrecord _ _ hmode ?_⟩, fun k => ?_⟩
    · cases pri with
      | any => exact .inl ⟨hnat, getFreeRegIdx_some_iff.mp hreg.1⟩
      | top => exact hreg.1
      | bottom => exact hreg
    · rw [if_neg fun hc => absurd hc.1 (by decide)]
    · rw [occupies_napot hmode]
      exact ⟨.inl, fun hk => hk.resolve_right fun hno => hno.1 hnat⟩
  · have hnat : ¬ Natural start size := by
      intro hnat
      rw [(isNapotRange_iff h.size_ne).mpr hnat] at hn
      cases hn
    refine ⟨n, ?_, .inr ⟨hnat, hrecord _ _ hmode (by simpa using hidx)⟩, fun k => ?_⟩
    · cases pri with
      | any => exact .inr ⟨hnat, getConseqFreeRegIdx_some_iff.mp hreg.1⟩
      | top => exact hreg.2.1
      | bottom => exact absurd hreg id
    · -- the region is known by its upper register, unless it is at register 0
      have htor : r.isTor = true := by rw [PmpRegion.isTor, hmode]; rfl
      have htwo : r.needsTwoEntries = true ↔ 0 < r.regIdx := by
        rw [PmpRegion.needsTwoEntries, htor, Bool.true_and, decide_eq_true_eq]
      unfold PmpRegion.Occupies
      rw [htwo]
      split_ifs at hidx with h0
      · constructor
        · rintro (hk | ⟨-, hk⟩)
          · exact .inr ⟨hnat, h0, by omega⟩
          · exact .inl (by omega)
        · rintro (hk | ⟨-, -, hk⟩)
          · exact .inr ⟨by omega, by omega⟩
          · exact .inl (by omega)
      · constructor
        · rintro (hk | ⟨hpos, -⟩)
          · exact .inl (by omega)
          · exact absurd hpos (by omega)
        · rintro (hk | ⟨-, hpos, -⟩)
          · exact .inl (by omega)
          · exact absurd hpos h0

theorem InitOk.places (h : InitOk t start size pri ao rid r t') :
    t.Places start size pri ao rid t' := by
  have hregion : t'.regions rid = r := by rw [h.adds.regions, setRegion_self]
  obtain ⟨n, hfirst, hrecord, hocc⟩ := h.firstReg
  refine ⟨(getFreeRegionIdx_some_iff.mp h.slot).2, fun j hj => ?_, fun j => ?_, n, hfirst, ?_,
    fun k => ?_⟩
  · rw [h.adds.regions, setRegion_ne t r hj]
  · rw [h.adds.valid, Bool.or_eq_true, beq_iff_eq]
  · rw [hregion]
    exact hrecord
  · rw [h.adds.reg, hocc]

end Success

/-! ## A range that is accepted -/

section Accepted

variable {t : PmpTable} {start size : Word} {pri : PmpPriority} {ao : Bool} {rid : Nat}

/-- The test behind the search never fails. -/
theorem slot_in_table (hslot : t.getFreeRegionIdx = some rid) : ¬ rid > PMP_MAX_N_REGION :=
  Nat.not_lt.mpr (Nat.le_of_lt (getFreeRegionIdx_some_iff.mp hslot).1)

theorem napotRegionInit_of_available (hslot : t.getFreeRegionIdx = some rid)
    (h : t.NapotAvailable pri) : ∃ t', t.napotRegionInit start size pri ao = (t', .ok rid) := by
  have hle := slot_in_table hslot
  unfold PmpTable.napotRegionInit
  simp only [hslot, hle, if_false]
  cases pri with
  | any =>
    obtain ⟨n, hn⟩ := exists_lowest h
    have hge : decide (PMP_N_REG ≤ n) = false := decide_eq_false (Nat.not_le.mpr hn.1.1)
    rw [getFreeRegIdx_some_iff.mpr hn]
    simp only [hn.1.2, hge, Bool.or_false, Bool.false_eq_true, if_false]
    exact ⟨_, rfl⟩
  | top =>
    simp only [h.2, Bool.false_eq_true, if_false]
    exact ⟨_, rfl⟩
  | bottom => exact ⟨_, rfl⟩

theorem torRegionInit_of_available (hslot : t.getFreeRegionIdx = some rid)
    (h : t.TorAvailable start pri) : ∃ t', t.torRegionInit start size pri ao = (t', .ok rid) := by
  have hle := slot_in_table hslot
  unfold PmpTable.torRegionInit
  simp only [hslot, hle, if_false]
  cases pri with
  | any =>
    obtain ⟨n, hn⟩ := exists_lowest h
    obtain ⟨⟨-, hlo⟩, hlt, hhi⟩ := hn.1
    have hge : decide (PMP_N_REG ≤ n + 1) = false := decide_eq_false (Nat.not_le.mpr hlt)
    rw [getConseqFreeRegIdx_some_iff.mpr hn]
    simp only [hlo, hhi, hge, Bool.or_false, Bool.false_eq_true, if_false]
    exact ⟨_, rfl⟩
  | top =>
    simp only [h.2.2, Bool.false_eq_true, if_false]
    exact ⟨_, rfl⟩
  | bottom => exact absurd h id

theorem PmpTable.Accepts.ok (hs : t.Separated) (h : t.Accepts start size pri ao) :
    ∃ t' rid, t.pmpRegionInit start size pri ao = (t', .ok rid) := by
  obtain ⟨rid, hrid⟩ := exists_freeRegion h.slot
  have hov : ¬ (!ao && t.detectRegionOverlap start size) = true := by
    rcases h.apart with hao | ⟨hfits, hdisj⟩
    · simp [hao]
    · rw [Bool.and_eq_true, detectRegionOverlap_iff hs.slot hs.placed (toNat_pos_of_ne h.size_ne)]
      rintro ⟨-, hwrap | ⟨i, hi, hmeet⟩⟩
      · exact absurd hwrap (Nat.not_le.mpr hfits)
      · exact hmeet (hdisj i hi)
  have hsize : ¬ (size ≠ -1 ∧ size &&& (RISCV_PGSIZE - 1) ≠ 0) := by
    rintro ⟨hall, hpg⟩
    rcases h.size_pg with hdvd | hmax
    · exact hpg (and_page_eq_zero_iff.mpr hdvd)
    · exact hall (eq_neg_one_iff.mpr hmax)
  unfold PmpTable.pmpRegionInit
  rw [if_neg h.size_ne, if_neg hov, if_neg hsize,
    if_neg (not_not.mpr (and_page_eq_zero_iff.mpr h.start_pg))]
  rcases h.regs with ⟨hnat, havail⟩ | ⟨hnat, havail⟩
  · rw [if_pos ((isNapotRange_iff h.size_ne).mpr hnat)]
    obtain ⟨t', ht'⟩ := napotRegionInit_of_available hrid havail
    exact ⟨t', rid, ht'⟩
  · have hpri : ¬ (pri ≠ .any ∧ (pri ≠ .top ∨ start ≠ 0)) := by
      rintro ⟨hany, htop⟩
      cases pri with
      | any => exact hany rfl
      | top => exact htop.elim (fun h => h rfl) fun hne => hne havail.1
      | bottom => exact havail
    rw [if_neg fun hn => hnat ((isNapotRange_iff h.size_ne).mp hn), if_neg hpri]
    obtain ⟨t', ht'⟩ := torRegionInit_of_available hrid havail
    exact ⟨t', rid, ht'⟩

end Accepted

/-- `pmp_region_init` after any calls: it succeeds exactly on what the table accepts, a success
places the region, and an error changes nothing. -/
theorem pmpRegionInit_exact (calls : List PmpCall) (start size : Word) (pri : PmpPriority)
    (ao : Bool) :
    let t := run PmpTable.step PmpTable.empty calls
    ((∃ t' rid, t.pmpRegionInit start size pri ao = (t', .ok rid)) ↔ t.Accepts start size pri ao) ∧
      (∀ t' rid, t.pmpRegionInit start size pri ao = (t', .ok rid) →
        t.Places start size pri ao rid t') ∧
      ∀ t' e, t.pmpRegionInit start size pri ao = (t', .error e) → t' = t := by
  intro t
  have hs : t.Separated := separated_run calls
  refine ⟨⟨?_, fun h => h.ok hs⟩, ?_, ?_⟩
  · rintro ⟨t', rid, hok⟩
    obtain ⟨r, hr⟩ := pmpRegionInit_ok hok
    exact hr.accepts hs
  · intro t' rid hok
    obtain ⟨r, hr⟩ := pmpRegionInit_ok hok
    exact hr.places
  · intro t' e herr
    exact pmpRegionInit_error herr

end Dorami.Sm
