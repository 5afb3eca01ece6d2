import Dorami.Sm.Proofs.BootProofs

/-!
# Which PMP registers are taken

`reg_bitmap` should say which PMP registers the defined regions occupy, and a region created with
`PMP_PRI_ANY` or `PMP_PRI_TOP` should have its registers to itself. The regions created with
`PMP_PRI_BOTTOM` share register 7 with the OS region, but `pmp_region_free_atomic` clears the bit of
that register with the first of them: a run keeps the bitmap right exactly if it releases none.
-/

namespace Dorami.Sm

open Riscv Lib

namespace Ledger

theorem boot_table : boot.table = bootTable := rfl

/-- The invariant: besides the property itself, the OS region is there at register 7, and so is
every region of the bottom priority. -/
structure Inv (s : Ledger) : Prop where
  booked : s.Booked
  os : s.priority bootIds.os = .bottom ∧ s.Taken bootIds.os 7
  bottom : ∀ i n, s.priority i = .bottom → s.Taken i n → n = 7

variable {s : Ledger}

/-! ## Boot -/

theorem boot_priority (i : Nat) : boot.priority i = .bottom ↔ i = 5 := by
  by_cases h : i < 6
  · have hall : ∀ j : Fin 6, boot.priority j = .bottom ↔ j.val = 5 := by decide
    exact hall ⟨i, h⟩
  · have hany : boot.priority i = .any := by
      show (if i = 5 then _ else if i = 4 then _ else if i = 3 then _ else if i = 2 then _ else
        if i = 1 then _ else if i = 0 then _ else _) = _
      simp only [show i ≠ 5 by omega, show i ≠ 4 by omega, show i ≠ 3 by omega,
        show i ≠ 2 by omega, show i ≠ 1 by omega, show i ≠ 0 by omega, if_false]
    rw [hany]
    simp only [reduceCtorEq, false_iff]
    omega

theorem boot_taken (i n : Nat) : boot.Taken i n ↔ i < 6 ∧ n = bootReg i := by
  unfold Taken
  rw [boot_table, bootTable_valid]
  constructor
  · rintro ⟨hi, hn⟩; exact ⟨hi, (bootTable_occupies hi n).mp hn⟩
  · rintro ⟨hi, hn⟩; exact ⟨hi, (bootTable_occupies hi n).mpr hn⟩

theorem inv_boot : boot.Inv := by
  refine ⟨⟨fun n => ?_, fun i j n _ hi hij hj => ?_⟩, ?_, fun i n hb hi => ?_⟩
  · rw [boot_table, bootTable_reg]
    simp only [boot_taken, bootReg]
    constructor
    · rintro (h | rfl)
      · exact ⟨n, by omega, by rw [if_neg (by omega)]⟩
      · exact ⟨5, by omega, rfl⟩
    · rintro ⟨i, hi, hn⟩
      split at hn <;> omega
  · rw [boot_taken, bootReg] at hi hj
    obtain ⟨hi, hni⟩ := hi
    obtain ⟨hj, hnj⟩ := hj
    split at hni <;> split at hnj <;> omega
  · rw [boot_taken, boot_priority]; decide
  · rw [boot_priority] at hb
    rw [boot_taken, hb] at hi
    exact hi.2

/-! ## One call -/

/-- A successful allocation: the new region is the only one that changes. -/
theorem taken_of_init {s' : Ledger} {start size : Word} {pri : PmpPriority} {ao : Bool} {rid : Nat}
    {r : PmpRegion} (h : InitOk s.table start size pri ao rid r s'.table) (i n : Nat) :
    s'.Taken i n ↔ (i = rid ∧ r.Occupies n) ∨ (i ≠ rid ∧ s.Taken i n) := by
  unfold Taken
  rw [h.adds.valid, h.adds.regions, Bool.or_eq_true, beq_iff_eq]
  by_cases hi : i = rid
  · subst hi; simp [setRegion_self]
  · simp [setRegion_ne _ _ hi, hi]

theorem not_taken_slot {start size : Word} {pri : PmpPriority} {ao : Bool} {rid : Nat}
    {r : PmpRegion} {t' : PmpTable} (h : InitOk s.table start size pri ao rid r t') (n : Nat) :
    ¬ s.Taken rid n := by
  rintro ⟨hv, _⟩
  rw [(getFreeRegionIdx_spec h.slot).2.1] at hv
  exact absurd hv (by decide)

theorem taken_of_removes {s' : Ledger} {rid : Nat} (h : Removes s.table s'.table rid) (i n : Nat) :
    s'.Taken i n ↔ i ≠ rid ∧ s.Taken i n := by
  unfold Taken
  rw [h.valid, h.regions, Bool.and_eq_true, bne_iff_ne]
  by_cases hi : i = rid
  · simp [hi]
  · simp [setRegion_ne _ _ hi, hi]

/-- An allocation keeps the invariant. -/
theorem inv_of_init {s' : Ledger} {start size : Word} {pri : PmpPriority} {ao : Bool} {rid : Nat}
    {r : PmpRegion} (hs : s.Inv) (h : InitOk s.table start size pri ao rid r s'.table)
    (hpri : s'.priority = fun j => if j = rid then pri else s.priority j) : s'.Inv := by
  have hpri_self : s'.priority rid = pri := by simp [hpri]
  have hpri_ne : ∀ i, i ≠ rid → s'.priority i = s.priority i := fun i hi => by simp [hpri, hi]
  -- no region has a register of the new one, unless both are at the bottom
  have hfresh : ∀ n, r.Occupies n → ∀ j, s.Taken j n →
      pri = .bottom ∧ s.priority j = .bottom := by
    intro n hn j hj
    by_cases hp : pri = .bottom
    · subst hp
      obtain rfl := (h.bottom_reg n).mp hn
      refine ⟨rfl, ?_⟩
      by_contra hb
      have hjo : j ≠ bootIds.os := fun e => hb (e ▸ hs.os.1)
      exact hs.booked.owned j _ 7 hb hj hjo hs.os.2
    · have hbit := (hs.booked.bits n).mpr ⟨j, hj⟩
      rw [h.regs_free hp hn] at hbit
      exact absurd hbit (by decide)
  have hos : bootIds.os ≠ rid := fun e => not_taken_slot h 7 (e ▸ hs.os.2)
  refine ⟨⟨fun n => ?_, fun i j n hb hi hij hj => ?_⟩, ⟨?_, ?_⟩, fun i n hb hi => ?_⟩
  · rw [h.adds.reg, hs.booked.bits]
    simp only [taken_of_init h]
    constructor
    · rintro (⟨i, hi⟩ | hn)
      · exact ⟨i, Or.inr ⟨fun e => not_taken_slot h n (e ▸ hi), hi⟩⟩
      · exact ⟨rid, Or.inl ⟨rfl, hn⟩⟩
    · rintro ⟨i, ⟨_, hn⟩ | ⟨_, hi⟩⟩
      · exact Or.inr hn
      · exact Or.inl ⟨i, hi⟩
  · rw [taken_of_init h] at hi hj
    rcases hi with ⟨rfl, hn⟩ | ⟨hir, hi⟩
    · rcases hj with ⟨rfl, _⟩ | ⟨_, hj⟩
      · exact hij rfl
      · exact hb (hpri_self.trans (hfresh n hn j hj).1)
    · rw [hpri_ne i hir] at hb
      rcases hj with ⟨rfl, hn⟩ | ⟨_, hj⟩
      · exact hb (hfresh n hn i hi).2
      · exact hs.booked.owned i j n hb hi hij hj
  · rw [hpri_ne _ hos]; exact hs.os.1
  · exact (taken_of_init h _ _).mpr (Or.inr ⟨hos, hs.os.2⟩)
  · rcases (taken_of_init h i n).mp hi with ⟨rfl, hn⟩ | ⟨hir, hi⟩
    · rw [hpri_self] at hb
      subst hb
      exact (h.bottom_reg n).mp hn
    · rw [hpri_ne i hir] at hb
      exact hs.bottom i n hb hi

/-- The release of a region that is not at the bottom keeps the invariant. -/
theorem inv_of_removes {s' : Ledger} {rid : Nat} (hs : s.Inv)
    (h : Removes s.table s'.table rid) (hpri : s'.priority = s.priority)
    (hv : s.table.isPmpRegionValid rid = true) (hb : s.priority rid ≠ .bottom) : s'.Inv := by
  have hos : bootIds.os ≠ rid := fun e => hb (e ▸ hs.os.1)
  refine ⟨⟨fun n => ?_, fun i j n hbi hi hij hj => ?_⟩, ⟨?_, ?_⟩, fun i n hbi hi => ?_⟩
  · rw [h.reg, hs.booked.bits]
    simp only [taken_of_removes h]
    constructor
    · rintro ⟨⟨i, hi⟩, hn⟩
      exact ⟨i, fun e => hn (e ▸ hi.2), hi⟩
    · rintro ⟨i, hir, hi⟩
      exact ⟨⟨i, hi⟩, fun hn => hs.booked.owned rid i n hb ⟨hv, hn⟩ (Ne.symm hir) hi⟩
  · rw [taken_of_removes h] at hi hj
    rw [hpri] at hbi
    exact hs.booked.owned i j n hbi hi.2 hij hj.2
  · rw [hpri]; exact hs.os.1
  · exact (taken_of_removes h _ _).mpr ⟨hos, hs.os.2⟩
  · rw [hpri] at hbi
    exact hs.bottom i n hbi ((taken_of_removes h i n).mp hi).2

/-- The release of a region at the bottom frees register 7 under the OS region. -/
theorem not_booked_of_removes {s' : Ledger} {rid : Nat} (hs : s.Inv)
    (h : Removes s.table s'.table rid) (hv : s.table.isPmpRegionValid rid = true)
    (hb : s.priority rid = .bottom) (hos : bootIds.os ≠ rid) : ¬ s'.Booked := by
  intro hbooked
  have hocc : (s.table.regions rid).Occupies (s.table.regions rid).regIdx := Or.inl rfl
  have h7 := hs.bottom rid _ hb ⟨hv, hocc⟩
  have hbit := (hbooked.bits 7).mpr ⟨_, (taken_of_removes h _ _).mpr ⟨hos, hs.os.2⟩⟩
  rw [h.reg] at hbit
  rw [h7] at hocc
  exact hbit.2 hocc

theorem step_priority_init {start size : Word} {pri : PmpPriority} {ao : Bool} {rid : Nat}
    {t' : PmpTable} (h : s.table.pmpRegionInit start size pri ao = (t', .ok rid)) :
    (s.step (.init start size pri ao)).priority =
      fun j => if j = rid then pri else s.priority j := by
  simp only [step, h]

theorem step_refused {start size : Word} {pri : PmpPriority} {ao : Bool} {e : SmStatus}
    (h : s.table.pmpRegionInit start size pri ao = (s.table, .error e)) :
    s.step (.init start size pri ao) = s := by
  simp only [step, PmpTable.step, h]

theorem step_missing {rid : Fin PMP_MAX_N_REGION} (h : s.table.isPmpRegionValid rid = false) :
    s.step (.free rid) = s := by
  simp only [step, PmpTable.step, pmpRegionFree_invalid h]

/-- One call keeps the invariant, unless it releases a region at the bottom. -/
theorem inv_step (c : PmpCall) (hs : s.Inv) (hc : s.KeepsBottom c) : (s.step c).Inv := by
  rcases step_cases s.table c with ⟨_, _, _, _, _, rfl, h, _⟩ |
    ⟨start, size, pri, ao, rid, r, rfl, hok, h⟩ | ⟨_, rfl, hv, _⟩ | ⟨rid, rfl, hv, h⟩
  · rwa [step_refused h]
  · exact inv_of_init hs h (step_priority_init hok)
  · rwa [step_missing hv]
  · exact inv_of_removes hs h rfl hv (hc hv)

/-- A call after boot that releases a region at the bottom breaks the bitmap. -/
theorem not_booked_step (c : PmpCall) (hs : s.Inv) (hboot : c.AfterBoot)
    (hc : ¬ s.KeepsBottom c) : ¬ (s.step c).Booked := by
  cases c with
  | init start size pri ao => exact absurd trivial hc
  | free rid =>
    obtain ⟨hv, hb⟩ := Classical.not_imp.mp hc
    have hos : bootIds.os ≠ rid := by
      intro e
      have : 6 ≤ rid.val := hboot
      rw [← e] at this
      exact absurd this (by decide)
    exact not_booked_of_removes hs (pmpRegionFree_removes hv) hv (not_not.mp hb) hos

/-! ## Runs after boot -/

/-- In a run after boot the bitmap tells the truth and no register is double-booked at any time,
exactly if no step releases a region created with the bottom priority. -/
theorem booked_iff_keepsBottom (cs : List Call) :
    Always stepAfterBoot Booked boot cs ↔
      StepsOk stepAfterBoot (fun s c => s.KeepsBottom c) boot cs := by
  have hstep : ∀ s (c : Call), Inv s → True → s.KeepsBottom c → Inv (stepAfterBoot s c) :=
    fun _ c hs _ hc => inv_step c.1 hs hc
  exact always_iff_stepsOk hstep (fun _ hs => hs.booked)
    (fun _ c hs _ hc => not_booked_step c.1 hs c.2 hc) cs inv_boot (stepsOk_true cs boot)

/-- A region at the bottom is created and released; the OS region is still at register 7, but the
register counts as free. A TOR region at registers 5 and 6 and a page of `PMP_PRI_ANY` later, the
page has register 7 as well. -/
def bottomReleased : List Call :=
  [⟨.init 0x90000000 0x1000 .bottom false, trivial⟩,
   ⟨.free ⟨6, by decide⟩, Nat.le_refl 6⟩,
   ⟨.init 0x90000000 0x3000 .any false, trivial⟩,
   ⟨.init 0xa0000000 0x1000 .any false, trivial⟩]

/-- Releasing a region at the bottom loses register 7 and then books it twice. -/
theorem register_seven_double_booked :
    (let s := run stepAfterBoot boot (bottomReleased.take 2)
     testBit s.table.regBitmap 7 = false ∧ s.Taken bootIds.os 7) ∧
    (let s := run stepAfterBoot boot bottomReleased
     s.priority 7 = .any ∧ s.Taken 7 7 ∧ s.Taken bootIds.os 7) ∧
    ¬ Always stepAfterBoot Booked boot bottomReleased := by
  refine ⟨?_, ?_, ?_⟩
  · unfold Taken; decide
  · unfold Taken; decide
  · rintro ⟨_, _, hbooked, _⟩
    have hbit := (hbooked.bits 7).mpr ⟨bootIds.os, by unfold Taken; decide⟩
    exact absurd hbit (by decide)

end Ledger

end Dorami.Sm
