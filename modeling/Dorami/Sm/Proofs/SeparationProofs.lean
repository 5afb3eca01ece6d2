import Dorami.Lib.Run
import Dorami.Sm.Proofs.PmpTableProofs

/-!
# Regions created without `allow_overlap` are disjoint

`detect_region_overlap` adds the base and the size of a stored region without looking for an
overflow. That is right because of the very property it maintains: every stored region that takes
part in the test lies below `2 ^ 64`. Both facts are proved together, for every sequence of
allocations and releases that starts from the empty table.
-/

namespace Dorami.Sm

open Riscv Lib

/-! ## Byte ranges -/

theorem byteRange_disjoint_iff {a s b u : Word} (hs : 0 < s.toNat) (hu : 0 < u.toNat) :
    Disjoint (byteRange a s) (byteRange b u) ↔
      ¬ (b.toNat < a.toNat + s.toNat ∧ a.toNat < b.toNat + u.toNat) := by
  unfold byteRange
  rw [Set.Ico_disjoint_Ico]
  omega

theorem toNat_pos_of_ne {w : Word} (h : w ≠ 0) : 0 < w.toNat :=
  Nat.pos_of_ne_zero fun h0 => h (BitVec.eq_of_toNat_eq (by simpa using h0))

/-- The page mask of `pmp_region_init`. -/
theorem dvd_of_and_page {w : Word} (h : w &&& (RISCV_PGSIZE - 1) = 0) : 4096 ∣ w.toNat := by
  have h2 : w.toNat &&& (2 ^ 12 - 1) = 0 := by
    have := congrArg BitVec.toNat h
    rw [BitVec.toNat_and] at this
    exact this
  rw [Nat.and_two_pow_sub_one_eq_mod] at h2
  exact Nat.dvd_of_mod_eq_zero h2

/-! ## The overlap test -/

section Detect

variable {t : PmpTable}

theorem detectRegionOverlap_overflow {addr size : Word}
    (h : 2 ^ 64 ≤ addr.toNat + size.toNat) : t.detectRegionOverlap addr size = true := by
  unfold PmpTable.detectRegionOverlap
  rw [if_pos h]

/-- The comparison the loop makes with one stored region, which does not overflow. -/
theorem region_meets_iff {addr size : Word} {r : PmpRegion} (hr : r.WellPlaced)
    (hs : 0 < size.toNat) (hin : addr.toNat + size.toNat < 2 ^ 64) :
    (decide (r.addr < addr + size) && decide (r.addr + r.size > addr)) = true ↔
      ¬ Disjoint (byteRange addr size) r.bytes := by
  have h1 : (addr + size).toNat = addr.toNat + size.toNat := by
    rw [BitVec.toNat_add, Nat.mod_eq_of_lt hin]
  have h2 : (r.addr + r.size).toNat = r.addr.toNat + r.size.toNat := by
    rw [BitVec.toNat_add, Nat.mod_eq_of_lt hr.fits]
  unfold PmpRegion.bytes
  rw [byteRange_disjoint_iff hs hr.size_pos, not_not, Bool.and_eq_true, decide_eq_true_eq,
    decide_eq_true_eq, gt_iff_lt, BitVec.lt_def, BitVec.lt_def, h1, h2]

/-- `detect_region_overlap` is exact on a table whose exclusive regions are well placed. -/
theorem detectRegionOverlap_iff (hslot : ∀ i, t.isPmpRegionValid i = true → i < PMP_MAX_N_REGION)
    (hplaced : ∀ i, t.Exclusive i → (t.regions i).WellPlaced) {addr size : Word}
    (hs : 0 < size.toNat) :
    t.detectRegionOverlap addr size = true ↔ 2 ^ 64 ≤ addr.toNat + size.toNat ∨
      ∃ i, t.Exclusive i ∧ ¬ Disjoint (byteRange addr size) (t.regions i).bytes := by
  by_cases hov : 2 ^ 64 ≤ addr.toNat + size.toNat
  · exact ⟨fun _ => Or.inl hov, fun _ => detectRegionOverlap_overflow hov⟩
  unfold PmpTable.detectRegionOverlap
  rw [if_neg hov, List.any_eq_true]
  constructor
  · rintro ⟨i, _, hi⟩
    simp only [Bool.and_eq_true, Bool.not_eq_true'] at hi
    obtain ⟨hex, hm⟩ := hi
    exact Or.inr ⟨i, hex, (region_meets_iff (hplaced i hex) hs (by omega)).mp (by simpa using hm)⟩
  · rintro (h | ⟨i, hex, hm⟩)
    · exact absurd h hov
    refine ⟨i, List.mem_range.mpr (hslot i hex.1), ?_⟩
    have := (region_meets_iff (hplaced i hex) hs (by omega)).mpr hm
    rw [this, hex.1, hex.2]
    rfl

end Detect

/-! ## Runs of allocations and releases -/

section Step

variable {t t' : PmpTable}

theorem separated_empty : PmpTable.empty.Separated := by
  have hno : ∀ i, PmpTable.empty.isPmpRegionValid i = false := fun i => testBit_zero i
  refine ⟨fun i h => ?_, fun i h => ?_, fun i _ h => ?_⟩
  · rw [hno] at h; exact absurd h (by decide)
  · rw [PmpTable.Exclusive, hno] at h; exact absurd h.1 (by decide)
  · rw [PmpTable.Exclusive, hno] at h; exact absurd h.1 (by decide)

/-- The region a successful call creates without `allow_overlap`. -/
theorem wellPlaced_of_init {start size : Word} {pri : PmpPriority} {rid : Nat} {r : PmpRegion}
    (h : InitOk t start size pri false rid r t') : r.WellPlaced := by
  have hfits : start.toNat + size.toNat < 2 ^ 64 := by
    by_contra hn
    have hsep := h.sep rfl
    rw [detectRegionOverlap_overflow (Nat.not_lt.mp hn)] at hsep
    exact absurd hsep (by decide)
  refine ⟨?_, ?_, ?_⟩
  · rw [h.size]; exact toNat_pos_of_ne h.size_ne
  · rw [h.addr, h.size]; exact hfits
  · rw [h.addr, h.size]
    rcases h.size_pg with hall | hpg
    · have hone : size.toNat = 2 ^ 64 - 1 := by rw [hall]; rfl
      exact Or.inr ⟨BitVec.eq_of_toNat_eq (by simp; omega), hone⟩
    · exact Or.inl ⟨dvd_of_and_page h.start_pg, dvd_of_and_page hpg⟩

theorem exclusive_of_adds {rid i : Nat} {r : PmpRegion} (h : Adds t t' rid r)
    (hi : t'.Exclusive i) :
    (i = rid ∧ t'.regions i = r ∧ r.allowOverlap = false) ∨
      (i ≠ rid ∧ t'.regions i = t.regions i ∧ t.Exclusive i) := by
  obtain ⟨hv, ho⟩ := hi
  rw [h.valid, Bool.or_eq_true, beq_iff_eq] at hv
  by_cases hir : i = rid
  · have hreg : t'.regions i = r := by rw [h.regions, hir, setRegion_self]
    exact Or.inl ⟨hir, hreg, hreg ▸ ho⟩
  · have hreg : t'.regions i = t.regions i := by rw [h.regions, setRegion_ne t r hir]
    exact Or.inr ⟨hir, hreg, hv.resolve_right hir, hreg ▸ ho⟩

theorem exclusive_of_removes {rid i : Nat} (h : Removes t t' rid) (hi : t'.Exclusive i) :
    i ≠ rid ∧ t'.regions i = t.regions i ∧ t.Exclusive i := by
  obtain ⟨hv, ho⟩ := hi
  rw [h.valid, Bool.and_eq_true, bne_iff_ne] at hv
  have hreg : t'.regions i = t.regions i := by rw [h.regions, setRegion_ne t _ hv.2]
  exact ⟨hv.2, hreg, hv.1, hreg ▸ ho⟩

theorem separated_of_removes {rid : Nat} (hs : t.Separated) (h : Removes t t' rid) :
    t'.Separated := by
  refine ⟨fun i hi => ?_, fun i hi => ?_, fun i j hi hj hij => ?_⟩
  · rw [h.valid, Bool.and_eq_true] at hi
    exact hs.slot i hi.1
  · obtain ⟨_, hreg, hex⟩ := exclusive_of_removes h hi
    rw [hreg]; exact hs.placed i hex
  · obtain ⟨_, hri, hei⟩ := exclusive_of_removes h hi
    obtain ⟨_, hrj, hej⟩ := exclusive_of_removes h hj
    rw [hri, hrj]; exact hs.disjoint i j hei hej hij

theorem separated_of_init {start size : Word} {pri : PmpPriority} {ao : Bool} {rid : Nat}
    {r : PmpRegion} (hs : t.Separated) (h : InitOk t start size pri ao rid r t') :
    t'.Separated := by
  -- the overlap test has compared the new region with every exclusive one
  have hnew : r.allowOverlap = false → r.WellPlaced ∧
      ∀ j, t.Exclusive j → Disjoint r.bytes (t.regions j).bytes := by
    intro hro
    obtain rfl : ao = false := h.overlap ▸ hro
    have hno := h.sep rfl
    refine ⟨wellPlaced_of_init h, fun j hj => ?_⟩
    by_contra hmeet
    unfold PmpRegion.bytes at hmeet
    rw [h.addr, h.size] at hmeet
    have := (detectRegionOverlap_iff hs.slot hs.placed (toNat_pos_of_ne h.size_ne)).mpr
      (Or.inr ⟨j, hj, hmeet⟩)
    rw [hno] at this
    exact absurd this (by decide)
  refine ⟨fun i hi => ?_, fun i hi => ?_, fun i j hi hj hij => ?_⟩
  · rw [h.adds.valid, Bool.or_eq_true, beq_iff_eq] at hi
    rcases hi with hi | rfl
    · exact hs.slot i hi
    · exact (getFreeRegionIdx_spec h.slot).1
  · rcases exclusive_of_adds h.adds hi with ⟨_, hreg, hro⟩ | ⟨_, hreg, hex⟩
    · rw [hreg]; exact (hnew hro).1
    · rw [hreg]; exact hs.placed i hex
  · rcases exclusive_of_adds h.adds hi with ⟨hir, hri, hro⟩ | ⟨_, hri, hei⟩
    · rcases exclusive_of_adds h.adds hj with ⟨hjr, _, _⟩ | ⟨_, hrj, hej⟩
      · exact absurd (hir.trans hjr.symm) hij
      · rw [hri, hrj]; exact (hnew hro).2 j hej
    · rcases exclusive_of_adds h.adds hj with ⟨_, hrj, hro⟩ | ⟨_, hrj, hej⟩
      · rw [hri, hrj]; exact ((hnew hro).2 i hei).symm
      · rw [hri, hrj]; exact hs.disjoint i j hei hej hij

/-- One call keeps the regions apart. -/
theorem separated_step (c : PmpCall) (hs : t.Separated) : (t.step c).Separated := by
  rcases step_cases t c with ⟨_, _, _, _, _, _, _, h⟩ | ⟨start, size, pri, ao, rid, r, _, _, h⟩ |
    ⟨_, _, _, h⟩ | ⟨rid, _, _, h⟩
  · rwa [h]
  · exact separated_of_init hs h
  · rwa [h]
  · exact separated_of_removes hs h

end Step

theorem separated_run (cs : List PmpCall) : (run PmpTable.step PmpTable.empty cs).Separated :=
  inv_run_all (fun _ c hs => separated_step c hs) cs separated_empty

/-- After any sequence of allocations and releases, the regions without `allow_overlap` are well
placed and disjoint, and `detect_region_overlap` is exact. -/
theorem regions_never_overlap (cs : List PmpCall) :
    let t := run PmpTable.step PmpTable.empty cs
    (∀ i, t.Exclusive i → (t.regions i).WellPlaced) ∧
    (∀ i j, t.Exclusive i → t.Exclusive j → i ≠ j →
      Disjoint (t.regions i).bytes (t.regions j).bytes) ∧
    ∀ addr size : Word, 0 < size.toNat →
      (t.detectRegionOverlap addr size = true ↔ 2 ^ 64 ≤ addr.toNat + size.toNat ∨
        ∃ i, t.Exclusive i ∧ ¬ Disjoint (byteRange addr size) (t.regions i).bytes) := by
  have hs := separated_run cs
  exact ⟨hs.placed, hs.disjoint, fun _ _ hpos => detectRegionOverlap_iff hs.slot hs.placed hpos⟩

end Dorami.Sm
