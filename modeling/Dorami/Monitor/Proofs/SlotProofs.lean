import Dorami.Monitor.Core
import Dorami.Monitor.Proofs.ViewProofs

/-!
# The slots left for enclaves

The region table has eight slots. Those of `sm_init` take six of them and all registers but 5 and 6,
so there is room for one enclave: slot 6 for its EPM, at register 5 or registers 5 and 6, and slot 7
for its UTM at register 7. `Slots` says which of the two are taken.
-/

namespace Dorami.Sm

open Riscv Lib

/-- The regions after boot, together with an EPM and a UTM region if there are any. -/
structure Slots (t : PmpTable) (e u : Option PmpRegion) : Prop where
  kept : t.Kept
  sep : t.Separated
  valid : ∀ i, t.isPmpRegionValid i = true ↔ i < 6 ∨ (i = 6 ∧ e.isSome) ∨ (i = 7 ∧ u.isSome)
  epm : ∀ R, e = some R → t.regions 6 = R ∧ EpmOk false R ∧ R.allowOverlap = false
  utm : ∀ R, u = some R → t.regions 7 = R ∧ LastOk R ∧ R.allowOverlap = false
  free : ∀ n, n = 5 ∨ n = 6 → testBit t.regBitmap n = true → ∃ R, e = some R ∧ R.Occupies n

theorem slots_boot : Slots bootTable none none := by
  refine ⟨kept_bootTable, separated_bootTable, fun i => ?_, fun R h => ?_, fun R h => ?_,
    fun n hn hbit => ?_⟩
  · rw [bootTable_valid]
    simp
  · cases h
  · cases h
  · rw [bootTable_reg] at hbit
    omega

section

variable {t t' : PmpTable} {e u : Option PmpRegion} {E U r : PmpRegion} {start size : Word}
  {rid : Nat}

/-! ## Taking a slot -/

theorem Slots.regs_free (hs : Slots t none u) :
    ∀ n, n = 5 ∨ n = 6 → testBit t.regBitmap n = false := by
  intro n hn
  by_contra hbit
  obtain ⟨R, hR, _⟩ := hs.free n hn (by simpa using hbit)
  cases hR

/-- A region placed anywhere goes to register 5, or 5 and 6, when both are free. -/
theorem epmOk_of_init {strict : Bool} (hk : t.Kept)
    (hfree : ∀ n, n = 5 ∨ n = 6 → testBit t.regBitmap n = false)
    (h : InitOk t start size .any false rid r t')
    (hnap : strict = true → r.addrmode ≠ PMP_A_TOR) : EpmOk strict r := by
  obtain ⟨henc, hge⟩ := encodable_of_init hk h
  have hidx5 : 5 ≤ r.regIdx := hge _ (Or.inl rfl)
  rcases h.place with ⟨_, hmode, hreg, _, _⟩ | ⟨_, hmode, i, ⟨hreg, hi, _, _⟩, hidx⟩
  · unfold PmpTable.getFreeRegIdx at hreg
    rw [searchRightmostUnset_one (by decide), List.find?_range_eq_some] at hreg
    obtain ⟨_, _, hmin⟩ := hreg
    -- the search does not pass the free register 5
    have hle : r.regIdx ≤ 5 := by
      by_contra hlt
      have h5 := hmin 5 (by omega)
      rw [hfree 5 (Or.inl rfl)] at h5
      exact absurd h5 (by decide)
    refine ⟨henc, fun n hn => ?_, fun _ => ⟨hmode, by omega⟩⟩
    rw [occupies_napot hmode] at hn
    omega
  · refine ⟨henc, fun n hn => ?_, fun hst => ?_⟩
    · unfold PmpTable.getConseqFreeRegIdx at hreg
      rw [searchRightmostUnset_three (by decide), List.find?_range_eq_some] at hreg
      obtain ⟨_, _, hmin⟩ := hreg
      have hle : i ≤ 5 := by
        by_contra hlt
        have h5 := hmin 5 (by omega)
        rw [hfree 5 (Or.inl rfl), hfree (5 + 1) (Or.inr rfl)] at h5
        exact absurd h5 (by decide)
      have hi5 : 5 ≤ i := by
        by_contra hlt
        rw [hk.low i (by omega)] at hi
        exact absurd hi (by decide)
      rw [if_pos (by omega)] at hidx
      rcases hn with hn | ⟨_, hn⟩ <;> omega
    · exact absurd hmode (hnap hst)

theorem lastOk_of_init (hk : t.Kept) (h : InitOk t start size .bottom false rid r t') :
    LastOk r := by
  rcases h.place with ⟨_, hmode, hreg⟩ | ⟨_, _, _, hreg, _⟩
  · exact ⟨(encodable_of_init hk h).1, hmode, hreg⟩
  · exact absurd hreg id

theorem Slots.add_epm (hs : Slots t none none) (h : InitOk t start size .any false rid r t') :
    rid = 6 ∧ Slots t' (some r) none := by
  obtain ⟨hlt, hno, hbelow⟩ := getFreeRegionIdx_spec h.slot
  have hrid : rid = 6 := by
    have h6 : ¬ rid < 6 := fun hlt6 => by
      have := (hs.valid rid).mpr (Or.inl hlt6)
      rw [hno] at this
      exact absurd this (by decide)
    by_contra hne
    have := (hs.valid 6).mp (hbelow 6 (by omega))
    simp at this
  subst hrid
  have hfree := hs.regs_free
  refine ⟨rfl, kept_of_init hs.kept h, separated_of_init hs.sep h, fun i => ?_, fun R hR => ?_,
    fun R hR => ?_, fun n hn hbit => ?_⟩
  · rw [h.adds.valid, Bool.or_eq_true, hs.valid, beq_iff_eq]
    simp
  · cases hR
    rw [h.adds.regions, setRegion_self]
    exact ⟨rfl, epmOk_of_init hs.kept hfree h (fun hst => by cases hst), h.overlap⟩
  · cases hR
  · rcases (h.adds.reg n).mp hbit with hold | hocc
    · rw [hfree n hn] at hold
      exact absurd hold (by decide)
    · exact ⟨r, rfl, hocc⟩

theorem Slots.add_utm (hs : Slots t (some E) none)
    (h : InitOk t start size .bottom false rid r t') : rid = 7 ∧ Slots t' (some E) (some r) := by
  obtain ⟨hlt, hno, hbelow⟩ := getFreeRegionIdx_spec h.slot
  have hrid : rid = 7 := by
    have h7 : ¬ rid < 7 := fun hlt7 => by
      have : t.isPmpRegionValid rid = true := by
        rw [hs.valid]
        by_cases h6 : rid = 6
        · exact Or.inr (Or.inl ⟨h6, rfl⟩)
        · exact Or.inl (by omega)
      rw [hno] at this
      exact absurd this (by decide)
    omega
  subst hrid
  refine ⟨rfl, kept_of_init hs.kept h, separated_of_init hs.sep h, fun i => ?_, fun R hR => ?_,
    fun R hR => ?_, fun n hn hbit => ?_⟩
  · rw [h.adds.valid, Bool.or_eq_true, hs.valid, beq_iff_eq]
    simp [or_assoc]
  · rw [h.adds.regions, setRegion_ne t r (by decide)]
    exact hs.epm R hR
  · cases hR
    rw [h.adds.regions, setRegion_self]
    exact ⟨rfl, lastOk_of_init hs.kept h, h.overlap⟩
  · rcases (h.adds.reg n).mp hbit with hold | hocc
    · exact hs.free n hn hold
    · have := (h.bottom_reg n).mp hocc
      omega

/-- With both slots taken no region can be created. -/
theorem Slots.full (hs : Slots t (some E) (some U)) {pri : PmpPriority} {ao : Bool} :
    ¬ InitOk t start size pri ao rid r t' := by
  intro h
  obtain ⟨hlt, hno, _⟩ := getFreeRegionIdx_spec h.slot
  have : t.isPmpRegionValid rid = true := by
    rw [hs.valid]
    by_cases h6 : rid < 6
    · exact Or.inl h6
    by_cases h7 : rid = 6
    · exact Or.inr (Or.inl ⟨h7, rfl⟩)
    · exact Or.inr (Or.inr ⟨by omega, rfl⟩)
  rw [hno] at this
  exact absurd this (by decide)

/-! ## Releasing a slot -/

theorem Slots.free_epm (hs : Slots t (some E) u) : Slots (t.pmpRegionFree 6).1 none u := by
  have hv : t.isPmpRegionValid 6 = true := (hs.valid 6).mpr (Or.inr (Or.inl ⟨rfl, rfl⟩))
  have hr := pmpRegionFree_removes hv
  refine ⟨kept_of_removes hs.kept (by decide) hv hr, separated_of_removes hs.sep hr, fun i => ?_,
    fun R hR => ?_, fun R hR => ?_, fun n hn hbit => ?_⟩
  · rw [hr.valid, Bool.and_eq_true, hs.valid, bne_iff_ne]
    constructor
    · rintro ⟨hi | ⟨hi, _⟩ | hi, hne⟩
      · exact Or.inl hi
      · exact absurd hi hne
      · exact Or.inr (Or.inr hi)
    · rintro (hi | ⟨_, hi⟩ | hi)
      · exact ⟨Or.inl hi, by omega⟩
      · cases hi
      · exact ⟨Or.inr (Or.inr hi), by omega⟩
  · cases hR
  · rw [hr.regions, setRegion_ne t _ (by decide)]
    exact hs.utm R hR
  · obtain ⟨hold, hno⟩ := (hr.reg n).mp hbit
    obtain ⟨R, hR, hocc⟩ := hs.free n hn hold
    rw [← (hs.epm R hR).1] at hocc
    exact absurd hocc hno

theorem Slots.free_utm (hs : Slots t e (some U)) : Slots (t.pmpRegionFree 7).1 e none := by
  have hv : t.isPmpRegionValid 7 = true := (hs.valid 7).mpr (Or.inr (Or.inr ⟨rfl, rfl⟩))
  have hr := pmpRegionFree_removes hv
  refine ⟨kept_of_removes hs.kept (by decide) hv hr, separated_of_removes hs.sep hr, fun i => ?_,
    fun R hR => ?_, fun R hR => ?_, fun n hn hbit => ?_⟩
  · rw [hr.valid, Bool.and_eq_true, hs.valid, bne_iff_ne]
    constructor
    · rintro ⟨hi | hi | ⟨hi, _⟩, hne⟩
      · exact Or.inl hi
      · exact Or.inr (Or.inl hi)
      · exact absurd hi hne
    · rintro (hi | hi | ⟨_, hi⟩)
      · exact ⟨Or.inl hi, by omega⟩
      · exact ⟨Or.inr (Or.inl hi), by omega⟩
      · cases hi
  · rw [hr.regions, setRegion_ne t _ (by decide)]
    exact hs.epm R hR
  · cases hR
  · exact hs.free n hn ((hr.reg n).mp hbit).1

/-! ## Programming the regions -/

theorem Slots.os_res (hs : Slots t e u) (p : Byte) (r : PmpRegs) :
    SetRes osRegion p r (osmSet t p r) := by
  obtain ⟨hv, hreg⟩ := hs.kept.boot 5 (by decide)
  have hidx : (t.regions 5).regIdx < 8 := by rw [hreg]; decide
  have hres := pmpSetKeystone_res (r := r) hv hidx p
  rw [hreg] at hres
  exact hres

theorem Slots.epm_res (hs : Slots t (some E) u) (p : Byte) (r : PmpRegs) :
    SetRes E p r (pmpSetKeystone t r 6 p).1 := by
  have hv : t.isPmpRegionValid 6 = true := (hs.valid 6).mpr (Or.inr (Or.inl ⟨rfl, rfl⟩))
  obtain ⟨hreg, hE, _⟩ := hs.epm E rfl
  have hidx : (t.regions 6).regIdx < 8 := by rw [hreg]; exact hE.enc.idx
  have hres := pmpSetKeystone_res (r := r) hv hidx p
  rw [hreg] at hres
  exact hres

theorem Slots.epm_unset (hs : Slots t (some E) u) (r : PmpRegs) :
    UnsetRes E r (pmpUnset t r 6).1 := by
  have hv : t.isPmpRegionValid 6 = true := (hs.valid 6).mpr (Or.inr (Or.inl ⟨rfl, rfl⟩))
  obtain ⟨hreg, hE, _⟩ := hs.epm E rfl
  have hidx : (t.regions 6).regIdx < 8 := by rw [hreg]; exact hE.enc.idx
  have hres := pmpUnset_res (r := r) hv hidx
  rw [hreg] at hres
  exact hres

theorem Slots.utm_res (hs : Slots t e (some U)) (p : Byte) (r : PmpRegs) :
    SetRes U p r (pmpSetKeystone t r 7 p).1 := by
  have hv : t.isPmpRegionValid 7 = true := (hs.valid 7).mpr (Or.inr (Or.inr ⟨rfl, rfl⟩))
  obtain ⟨hreg, hU, _⟩ := hs.utm U rfl
  have hidx : (t.regions 7).regIdx < 8 := by rw [hreg]; exact hU.enc.idx
  have hres := pmpSetKeystone_res (r := r) hv hidx p
  rw [hreg] at hres
  exact hres

/-! ## Where the regions lie -/

theorem Slots.exclusive_low (hs : Slots t e u) {i : Nat} (hi : i < 5) :
    t.Exclusive i ∧ t.regions i = bootTable.regions i := by
  have hno : ∀ j : Fin 5, (bootTable.regions j).allowOverlap = false := by decide
  obtain ⟨hv, hreg⟩ := hs.kept.boot i (by omega)
  refine ⟨⟨hv, ?_⟩, hreg⟩
  rw [hreg]
  exact hno ⟨i, hi⟩

/-- An exclusive region is not the whole address space, and it keeps off the boot regions. -/
theorem Slots.apart (hs : Slots t e u) {j : Nat} (hj : 6 ≤ j) (hx : t.Exclusive j) :
    (∀ i < 5, Disjoint (t.regions j).bytes (bootTable.regions i).bytes) ∧
      (t.regions j).extent = (t.regions j).bytes := by
  have hdisj : ∀ i < 5, Disjoint (t.regions j).bytes (bootTable.regions i).bytes := by
    intro i hi
    obtain ⟨hlow, hreg⟩ := hs.exclusive_low hi
    rw [← hreg]
    exact hs.sep.disjoint j i hx hlow (by omega)
  refine ⟨hdisj, ?_⟩
  rw [PmpRegion.extent, if_neg]
  intro hall
  simp only [PmpRegion.isNapotAll, Bool.and_eq_true, beq_iff_eq] at hall
  -- the whole address space would contain the first byte of the monitor's code
  have hmem : 0x80000000 ∈ (t.regions j).bytes := by
    simp only [PmpRegion.bytes, byteRange, hall.1, hall.2, Set.mem_Ico]
    decide
  have hboot : 0x80000000 ∈ (bootTable.regions 0).bytes := by
    have hreg : (bootTable.regions 0).addr = 0x80000000 ∧ (bootTable.regions 0).size = 0x40000 := by
      decide
    simp only [PmpRegion.bytes, byteRange, hreg.1, hreg.2, Set.mem_Ico]
    decide
  exact Set.disjoint_left.mp (hdisj 0 (by decide)) hmem hboot

/-- The regions of an enclave keep off the boot regions, and neither is the whole address space. -/
theorem Slots.both_apart (hs : Slots t (some E) (some U)) :
    (∀ i < 5, Disjoint E.bytes (bootTable.regions i).bytes) ∧ E.extent = E.bytes ∧
      U.extent = U.bytes := by
  obtain ⟨hregE, _, hxE⟩ := hs.epm E rfl
  obtain ⟨hregU, _, hxU⟩ := hs.utm U rfl
  have hvE : t.Exclusive 6 :=
    ⟨(hs.valid 6).mpr (Or.inr (Or.inl ⟨rfl, rfl⟩)), by rw [hregE]; exact hxE⟩
  have hvU : t.Exclusive 7 :=
    ⟨(hs.valid 7).mpr (Or.inr (Or.inr ⟨rfl, rfl⟩)), by rw [hregU]; exact hxU⟩
  obtain ⟨hdisj, hextE⟩ := hs.apart (by decide) hvE
  obtain ⟨_, hextU⟩ := hs.apart (by decide) hvU
  rw [hregE] at hdisj hextE
  rw [hregU] at hextU
  exact ⟨hdisj, hextE, hextU⟩

end

end Dorami.Sm
