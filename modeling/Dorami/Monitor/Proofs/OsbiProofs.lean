import Dorami.Monitor.Osbi
import Mathlib.Tactic.Common
import Mathlib.Tactic.SplitIfs

/-!
# Which SBI calls reach OpenSBI as the caller made them

`mon_ecall_enter` copies registers by a whitelist over extension and function ids and leaves zero in
the others. Zero is an id like any other: a call of an extension that is not on the whitelist
reaches OpenSBI as the legacy call that sets the timer.
-/

namespace Dorami.Osbi

open Riscv Sm

/-! ## The frame -/

theorem gpr_copies (regs : TrapRegs) (j : Fin 32) : ∀ (is : List (Fin 32)) (frame : TrapRegs),
    (is.foldl (fun frame i => frame.setGpr i (regs.gpr i)) frame).gpr j =
      if j ∈ is then regs.gpr j else frame.gpr j := by
  intro is
  induction is with
  | nil => intro frame; simp
  | cons i is ih =>
    intro frame
    rw [List.foldl_cons, ih]
    by_cases hj : j ∈ is
    · simp [hj]
    · by_cases hi : j = i
      · simp [hi, TrapRegs.setGpr]
      · simp [hj, hi, TrapRegs.setGpr]

/-- The registers `mon_ecall_enter` copies. -/
def copied (regs : TrapRegs) : List (Fin 32) :=
  (if ecallKnown regs.a7 then [17] else []) ++ ecallArgs regs.a7 regs.a6

theorem gpr_ecallFrame (regs : TrapRegs) (j : Fin 32) :
    (ecallFrame regs).gpr j = if j ∈ copied regs then regs.gpr j else 0 :=
  gpr_copies regs j (copied regs) _

/-- A register keeps its value exactly if it is copied or holds zero. -/
theorem gpr_ecallFrame_iff (regs : TrapRegs) (j : Fin 32) :
    (ecallFrame regs).gpr j = regs.gpr j ↔ j ∈ copied regs ∨ regs.gpr j = 0 := by
  rw [gpr_ecallFrame]
  by_cases hj : j ∈ copied regs
  · simp [hj]
  · simp [hj, eq_comm]

/-! ## Extension by extension -/

variable (p : Platform) (func : Word)

theorem ecallArgs_base :
    ecallArgs SBI_EXT_BASE func = if func = SBI_EXT_BASE_PROBE_EXT then [16, 10] else [16] := rfl

theorem ecallArgs_rfence :
    ecallArgs SBI_EXT_RFENCE func =
      if func = 0 then [16, 10, 11]
      else if func = 1 ∨ func = 4 ∨ func = 6 then [16, 10, 11, 12, 13]
      else if func = 2 ∨ func = 3 ∨ func = 5 then [16, 10, 11, 12, 13, 14]
      else [16] := rfl

theorem ecallArgs_hsm :
    ecallArgs SBI_EXT_HSM func =
      if func = 0 ∨ func = 3 then [16, 10, 11, 12] else if func = 2 then [16, 10, 11] else [16] :=
        rfl

theorem ecallArgs_srst : ecallArgs SBI_EXT_SRST func = [16, 10, 11] := rfl

theorem ecallArgs_pmu :
    ecallArgs SBI_EXT_PMU func =
      if func = 1 ∨ func = 5 then [16, 10]
      else if func = 2 then [16, 10, 11, 12, 13, 14]
      else if func = 3 then [16, 10, 11, 12, 13]
      else if func = 4 then [16, 10, 11, 12]
      else [16] := rfl

theorem vendorId_bounds : SBI_EXT_VENDOR_START ≤ vendorId p ∧ vendorId p ≤ SBI_EXT_VENDOR_END := by
  have hle : (p.mvendorid &&& (SBI_EXT_VENDOR_END - SBI_EXT_VENDOR_START)).toNat ≤ 0xFFFFFF := by
    rw [BitVec.toNat_and]
    exact Nat.and_le_right
  simp only [vendorId, SBI_EXT_VENDOR_START, SBI_EXT_VENDOR_END] at hle ⊢
  constructor <;> bv_omega

theorem findExtension_srst :
    findExtension p SBI_EXT_SRST = if p.srstAvailable then some .srst else none := by
  cases hav : p.srstAvailable with
  | true =>
    simp only [findExtension, hav]
    rfl
  | false =>
    have hv : ¬ (SBI_EXT_SRST = vendorId p ∧ p.hasVendor = true) := by
      rintro ⟨h, _⟩
      have := (vendorId_bounds p).2
      rw [← h] at this
      exact absurd this (by decide)
    simp only [findExtension, hav, hv, if_false]
    rfl

/-- What `mon_ecall_enter` copies covers what OpenSBI reads. -/
theorem reads_subset_followed {ext : Word} (h : followed ext) {is : List (Fin 32)}
    (his : argRegs p ext func = some is) : ∀ i ∈ is, i ∈ ecallArgs ext func := by
  unfold argRegs at his
  rcases h with rfl | rfl | rfl | rfl | rfl
  · have hf : findExtension p SBI_EXT_BASE = some .base := rfl
    rw [hf, Option.bind_some, Extension.reads] at his
    rw [ecallArgs_base]
    split_ifs at his ⊢ <;> cases his <;> simp
  · have hf : findExtension p SBI_EXT_RFENCE = some .rfence := rfl
    rw [hf, Option.bind_some, Extension.reads] at his
    rw [ecallArgs_rfence]
    split_ifs at his ⊢ <;> cases his <;> simp
  · have hf : findExtension p SBI_EXT_HSM = some .hsm := rfl
    rw [hf, Option.bind_some, Extension.reads] at his
    rw [ecallArgs_hsm]
    split_ifs at his ⊢ <;> cases his <;> simp
  · rw [findExtension_srst] at his
    cases hav : p.srstAvailable with
    | false =>
      rw [hav] at his
      cases his
    | true =>
      rw [hav, if_pos rfl, Option.bind_some, Extension.reads] at his
      rw [ecallArgs_srst]
      split_ifs at his
      cases his
      simp
  · have hf : findExtension p SBI_EXT_PMU = some .pmu := rfl
    rw [hf, Option.bind_some, Extension.reads] at his
    rw [ecallArgs_pmu]
    split_ifs at his ⊢ <;> cases his <;> simp

theorem ecallKnown_followed {ext : Word} (h : followed ext) :
    ecallKnown ext = true ∧ 16 ∈ ecallArgs ext func := by
  rcases h with rfl | rfl | rfl | rfl | rfl
  · rw [ecallArgs_base]
    exact ⟨rfl, by split_ifs <;> simp⟩
  · rw [ecallArgs_rfence]
    exact ⟨rfl, by split_ifs <;> simp⟩
  · rw [ecallArgs_hsm]
    exact ⟨rfl, by split_ifs <;> simp⟩
  · rw [ecallArgs_srst]
    exact ⟨rfl, by simp⟩
  · rw [ecallArgs_pmu]
    exact ⟨rfl, by split_ifs <;> simp⟩

/-- The arguments of a legacy call are chosen by `a6`. -/
theorem ecallArgs_legacy {ext : Word} (h : ext ≤ 0x0F) :
    ecallArgs ext func =
      if func = 6 then [10, 11, 12] else if func = 7 then [10, 11, 12, 13] else [10] := by
  have hne : ext ≠ SBI_EXT_BASE := by
    rintro rfl
    exact absurd h (by decide)
  rw [ecallArgs, if_neg hne, if_pos h]

/-- The extensions by what `mon_ecall_enter` does with them. -/
theorem ext_cases (ext : Word) :
    followed ext ∨ funcDropped ext ∨ ext ≤ 0x0F ∨
      ¬ ext ≤ 0x0F ∧ ecallKnown ext = false ∧ ecallArgs ext func = [] := by
  by_cases hf : followed ext
  · exact Or.inl hf
  by_cases hd : funcDropped ext
  · exact Or.inr (Or.inl hd)
  by_cases hl : ext ≤ 0x0F
  · exact Or.inr (Or.inr (Or.inl hl))
  simp only [followed, not_or] at hf
  obtain ⟨h1, h2, h3, h4, h5⟩ := hf
  obtain ⟨ht, hi⟩ := not_or.mp hd
  refine Or.inr (Or.inr (Or.inr ⟨hl, ?_, ?_⟩))
  · simp only [ecallKnown, beq_eq_false_iff_ne.mpr, h1, h2, h3, h4, h5, ht, hi, hl, Bool.or_false,
      decide_false, ne_eq, not_false_eq_true]
  · simp only [ecallArgs, h1, h2, h3, h4, h5, ht, hi, hl, if_false]

/-! ## The ids in the frame -/

variable {func} (regs : TrapRegs)

/-- Only `a0` to `a4` and `a6` are on the whitelist. -/
theorem ecallArgs_subset (ext func : Word) :
    ∀ i ∈ ecallArgs ext func, i ∈ ([10, 11, 12, 13, 14, 16] : List (Fin 32)) := by
  rcases ext_cases func ext with (rfl | rfl | rfl | rfl | rfl) | (rfl | rfl) | hl | ⟨_, _, hn⟩
  · rw [ecallArgs_base]
    split_ifs <;> decide
  · rw [ecallArgs_rfence]
    split_ifs <;> decide
  · rw [ecallArgs_hsm]
    split_ifs <;> decide
  · rw [ecallArgs_srst]
    decide
  · rw [ecallArgs_pmu]
    split_ifs <;> decide
  · have hargs : ecallArgs SBI_EXT_TIME func = [10] := rfl
    rw [hargs]
    decide
  · have hargs : ecallArgs SBI_EXT_IPI func = [10, 11] := rfl
    rw [hargs]
    decide
  · rw [ecallArgs_legacy func hl]
    split_ifs <;> decide
  · rw [hn]
    decide

theorem notMem_ecallArgs (ext func : Word) : 17 ∉ ecallArgs ext func :=
  fun h => absurd (ecallArgs_subset ext func 17 h) (by decide)

theorem mem_copied {i : Fin 32} (hi : i ≠ 17) :
    i ∈ copied regs ↔ i ∈ ecallArgs regs.a7 regs.a6 := by
  unfold copied
  split <;> simp [hi]

theorem a7_ecallFrame : (ecallFrame regs).a7 = if ecallKnown regs.a7 then regs.a7 else 0 := by
  have hno := notMem_ecallArgs regs.a7 regs.a6
  rw [TrapRegs.a7, gpr_ecallFrame, copied]
  cases ecallKnown regs.a7 with
  | true => simp; rfl
  | false => simp [hno]

/-- A register other than `a7` keeps its value exactly if the whitelist names it or it
holds zero. -/
theorem gpr_eq_iff {i : Fin 32} (hi : i ≠ 17) :
    (ecallFrame regs).gpr i = regs.gpr i ↔ i ∈ ecallArgs regs.a7 regs.a6 ∨ regs.gpr i = 0 := by
  rw [gpr_ecallFrame_iff, mem_copied regs hi]

/-- OpenSBI understands a frame that carries the call as it understands the caller. -/
theorem Carries.request_eq {frame : TrapRegs} (h : Carries p regs frame) :
    request p frame = request p regs := by
  unfold request
  rw [h.a7, h.a6]
  cases hf : findExtension p regs.a7 with
  | none => rfl
  | some ext =>
    cases hr : ext.reads regs.a7 regs.a6 with
    | none => simp [hr]
    | some is =>
      have hargs : is.map frame.gpr = is.map regs.gpr :=
        List.map_congr_left (h.args is (by rw [argRegs, hf, Option.bind_some, hr]))
      simp [hr, hargs]

theorem carries_followed (h : followed regs.a7) : Carries p regs (ecallFrame regs) := by
  obtain ⟨hknown, h16⟩ := ecallKnown_followed regs.a6 h
  refine ⟨?_, ?_, fun is his i hi => ?_⟩
  · rw [a7_ecallFrame, hknown, if_pos rfl]
  · exact (gpr_eq_iff regs (by decide)).mpr (Or.inl h16)
  · have hmem := reads_subset_followed p regs.a6 h his i hi
    have hne : i ≠ 17 := by
      rintro rfl
      exact notMem_ecallArgs _ _ hmem
    exact (gpr_eq_iff regs hne).mpr (Or.inl hmem)

/-! ## Timer and interrupt calls -/

theorem findExtension_time : findExtension p SBI_EXT_TIME = some .time := rfl

theorem findExtension_ipi : findExtension p SBI_EXT_IPI = some .ipi := rfl

theorem ecallArgs_funcDropped {ext : Word} (h : funcDropped ext) (func : Word) :
    ecallKnown ext = true ∧ 16 ∉ ecallArgs ext func ∧
      ∀ is, argRegs p ext func = some is → func = 0 ∧ ∀ i ∈ is, i ∈ ecallArgs ext func := by
  rcases h with rfl | rfl
  · have hargs : ecallArgs SBI_EXT_TIME func = [10] := rfl
    refine ⟨rfl, by rw [hargs]; decide, fun is his => ?_⟩
    rw [argRegs, findExtension_time, Option.bind_some, Extension.reads] at his
    split at his
    · next hf =>
      cases his
      exact ⟨hf, fun i hi => hi⟩
    · cases his
  · have hargs : ecallArgs SBI_EXT_IPI func = [10, 11] := rfl
    refine ⟨rfl, by rw [hargs]; decide, fun is his => ?_⟩
    rw [argRegs, findExtension_ipi, Option.bind_some, Extension.reads] at his
    split at his
    · next hf =>
      cases his
      exact ⟨hf, fun i hi => hi⟩
    · cases his

theorem carries_funcDropped_iff (h : funcDropped regs.a7) :
    Carries p regs (ecallFrame regs) ↔ regs.a6 = 0 := by
  obtain ⟨hknown, h16, hargs⟩ := ecallArgs_funcDropped p h regs.a6
  constructor
  · intro hc
    exact ((gpr_eq_iff regs (by decide)).mp hc.a6).resolve_left h16
  · intro h0
    refine ⟨?_, (gpr_eq_iff regs (by decide)).mpr (Or.inr h0), fun is his i hi => ?_⟩
    · rw [a7_ecallFrame, hknown, if_pos rfl]
    · have hmem := (hargs is his).2 i hi
      have hne : i ≠ 17 := by
        rintro rfl
        exact notMem_ecallArgs _ _ hmem
      exact (gpr_eq_iff regs hne).mpr (Or.inl hmem)

/-- Whatever function was called, OpenSBI sees function 0. -/
theorem request_funcDropped_iff (h : funcDropped regs.a7) :
    request p (ecallFrame regs) = request p regs ↔ regs.a6 = 0 := by
  constructor
  · intro heq
    obtain ⟨hknown, h16, _⟩ := ecallArgs_funcDropped p h regs.a6
    have ha7 : (ecallFrame regs).a7 = regs.a7 := by rw [a7_ecallFrame, hknown, if_pos rfl]
    have ha6 : (ecallFrame regs).a6 = 0 := by
      rw [TrapRegs.a6, gpr_ecallFrame, if_neg (mt (mem_copied regs (by decide)).mp h16)]
    unfold request at heq
    rw [ha7, ha6] at heq
    rcases h with h | h
    · rw [h, findExtension_time] at heq
      simp [Extension.reads] at heq
      exact heq.1
    · rw [h, findExtension_ipi] at heq
      simp [Extension.reads] at heq
      exact heq.1
  · intro h0
    exact ((carries_funcDropped_iff p regs h).mpr h0).request_eq p regs

/-! ## Legacy calls -/

theorem findExtension_legacy {ext : Word} (h : ext ≤ 0x0F) :
    findExtension p ext = if ext ≤ SBI_EXT_0_1_SHUTDOWN then some .legacy else none := by
  have hne : ∀ id : Word, 0x0F < id → ext ≠ id := by
    rintro id hid rfl
    exact absurd h (BitVec.not_le.mpr hid)
  have hvendor : 0x0F < vendorId p := by
    have hge := (vendorId_bounds p).1
    simp only [SBI_EXT_VENDOR_START] at hge
    bv_omega
  simp only [findExtension, hne SBI_EXT_TIME (by decide), hne SBI_EXT_RFENCE (by decide),
    hne SBI_EXT_IPI (by decide), hne SBI_EXT_BASE (by decide), hne SBI_EXT_HSM (by decide),
    hne SBI_EXT_SRST (by decide), hne SBI_EXT_SUSP (by decide), hne SBI_EXT_PMU (by decide),
    hne SBI_EXT_DBCN (by decide), hne SBI_EXT_CPPC (by decide), hne (vendorId p) hvendor,
    false_and, if_false]

/-- Every legacy call finds its `a0`. -/
theorem a0_legacy (h : regs.a7 ≤ 0x0F) : 10 ∈ ecallArgs regs.a7 regs.a6 := by
  rw [ecallArgs_legacy _ h]
  split_ifs <;> decide

theorem mem_a1_a2_legacy (h : regs.a7 ≤ 0x0F) {i : Fin 32} (hi : i = 11 ∨ i = 12) :
    i ∈ ecallArgs regs.a7 regs.a6 ↔ regs.a6 = 6 ∨ regs.a6 = 7 := by
  rw [ecallArgs_legacy _ h]
  by_cases h6 : regs.a6 = 6
  · refine iff_of_true ?_ (Or.inl h6)
    rw [if_pos h6]
    rcases hi with rfl | rfl <;> decide
  by_cases h7 : regs.a6 = 7
  · refine iff_of_true ?_ (Or.inr h7)
    rw [if_neg h6, if_pos h7]
    rcases hi with rfl | rfl <;> decide
  · refine iff_of_false ?_ (not_or.mpr ⟨h6, h7⟩)
    rw [if_neg h6, if_neg h7]
    rcases hi with rfl | rfl <;> decide

theorem mem_a3_legacy (h : regs.a7 ≤ 0x0F) :
    13 ∈ ecallArgs regs.a7 regs.a6 ↔ regs.a6 = 7 := by
  rw [ecallArgs_legacy _ h]
  by_cases h6 : regs.a6 = 6
  · rw [if_pos h6, h6]
    decide
  by_cases h7 : regs.a6 = 7
  · rw [if_neg h6, if_pos h7, h7]
    decide
  · refine iff_of_false ?_ h7
    rw [if_neg h6, if_neg h7]
    decide

/-- The arguments of a legacy call reach OpenSBI: the two fences have more than one. -/
theorem legacy_args_iff (h : regs.a7 ≤ 0x0F) (func : Word) :
    (∀ is, argRegs p regs.a7 func = some is → ∀ i ∈ is, (ecallFrame regs).gpr i = regs.gpr i) ↔
      (regs.a7 = 6 ∨ regs.a7 = 7 → regs.a6 = 6 ∨ regs.a6 = 7 ∨ regs.a1 = 0 ∧ regs.a2 = 0) ∧
        (regs.a7 = 7 → regs.a6 = 7 ∨ regs.gpr 13 = 0) := by
  have h10 : (ecallFrame regs).gpr 10 = regs.gpr 10 :=
    (gpr_eq_iff regs (by decide)).mpr (Or.inl (a0_legacy regs h))
  have hpair : (ecallFrame regs).gpr 11 = regs.gpr 11 ∧ (ecallFrame regs).gpr 12 = regs.gpr 12 ↔
      regs.a6 = 6 ∨ regs.a6 = 7 ∨ regs.a1 = 0 ∧ regs.a2 = 0 := by
    rw [gpr_eq_iff regs (by decide), gpr_eq_iff regs (by decide),
      mem_a1_a2_legacy regs h (Or.inl rfl), mem_a1_a2_legacy regs h (Or.inr rfl), ← or_and_left,
      or_assoc]
    rfl
  have h13 : (ecallFrame regs).gpr 13 = regs.gpr 13 ↔ regs.a6 = 7 ∨ regs.gpr 13 = 0 := by
    rw [gpr_eq_iff regs (by decide), mem_a3_legacy regs h]
  by_cases h6 : regs.a7 = 6
  · have hargs : argRegs p regs.a7 func = some [10, 11, 12] := by rw [h6]; rfl
    have h7 : regs.a7 ≠ 7 := by rw [h6]; decide
    constructor
    · intro hall
      have hread := hall _ hargs
      exact ⟨fun _ => hpair.mp ⟨hread 11 (by decide), hread 12 (by decide)⟩, fun h => absurd h h7⟩
    · rintro ⟨hfence, _⟩ is his i hi
      obtain ⟨h11, h12⟩ := hpair.mpr (hfence (Or.inl h6))
      rw [hargs, Option.some.injEq] at his
      subst his
      simp only [List.mem_cons, List.not_mem_nil, or_false] at hi
      rcases hi with rfl | rfl | rfl
      · exact h10
      · exact h11
      · exact h12
  by_cases h7 : regs.a7 = 7
  · have hargs : argRegs p regs.a7 func = some [10, 11, 12, 13] := by rw [h7]; rfl
    constructor
    · intro hall
      have hread := hall _ hargs
      exact ⟨fun _ => hpair.mp ⟨hread 11 (by decide), hread 12 (by decide)⟩,
        fun _ => h13.mp (hread 13 (by decide))⟩
    · rintro ⟨hfence, hasid⟩ is his i hi
      obtain ⟨h11, h12⟩ := hpair.mpr (hfence (Or.inr h7))
      rw [hargs, Option.some.injEq] at his
      subst his
      simp only [List.mem_cons, List.not_mem_nil, or_false] at hi
      rcases hi with rfl | rfl | rfl | rfl
      · exact h10
      · exact h11
      · exact h12
      · exact h13.mpr (hasid h7)
  · refine iff_of_true (fun is his i hi => ?_)
      ⟨fun h => absurd h (not_or.mpr ⟨h6, h7⟩), fun h => absurd h h7⟩
    -- the other legacy calls have no argument but `a0`
    have hsub : ∀ j ∈ is, j = 10 := by
      rw [argRegs, findExtension_legacy p h] at his
      split_ifs at his
      · simp only [Option.bind_some, Extension.reads, h6, h7, if_false] at his
        split_ifs at his <;> cases his <;> simp
      · cases his
    rw [hsub i hi]
    exact h10

theorem ecallKnown_legacy {ext : Word} (h : ext ≤ 0x0F) : ecallKnown ext = true := by
  simp only [ecallKnown, decide_eq_true h, Bool.or_true, Bool.true_or]

theorem carries_legacy_iff (h : regs.a7 ≤ 0x0F) :
    Carries p regs (ecallFrame regs) ↔
      regs.a6 = 0 ∧ (regs.a7 = 6 ∨ regs.a7 = 7 → regs.a1 = 0 ∧ regs.a2 = 0) ∧
        (regs.a7 = 7 → regs.gpr 13 = 0) := by
  have h16 : 16 ∉ ecallArgs regs.a7 regs.a6 := by
    rw [ecallArgs_legacy _ h]
    split_ifs <;> decide
  have hargs := legacy_args_iff p regs h regs.a6
  constructor
  · intro hc
    have h0 : regs.a6 = 0 := ((gpr_eq_iff regs (by decide)).mp hc.a6).resolve_left h16
    obtain ⟨hfence, hasid⟩ := hargs.mp hc.args
    have hne6 : regs.a6 ≠ 6 := by rw [h0]; decide
    have hne7 : regs.a6 ≠ 7 := by rw [h0]; decide
    exact ⟨h0, fun hf => ((hfence hf).resolve_left hne6).resolve_left hne7,
      fun hf => (hasid hf).resolve_left hne7⟩
  · rintro ⟨h0, hfence, hasid⟩
    refine ⟨?_, (gpr_eq_iff regs (by decide)).mpr (Or.inr h0),
      hargs.mpr ⟨fun hf => ?_, fun hf => ?_⟩⟩
    · rw [a7_ecallFrame, ecallKnown_legacy h, if_pos rfl]
    · exact Or.inr (Or.inr (hfence hf))
    · exact Or.inr (hasid hf)

theorem request_legacy_iff (h : regs.a7 ≤ 0x0F) :
    request p (ecallFrame regs) = request p regs ↔
      (regs.a7 = 6 ∨ regs.a7 = 7 → regs.a6 = 6 ∨ regs.a6 = 7 ∨ regs.a1 = 0 ∧ regs.a2 = 0) ∧
        (regs.a7 = 7 → regs.a6 = 7 ∨ regs.gpr 13 = 0) := by
  have ha7 : (ecallFrame regs).a7 = regs.a7 := by
    rw [a7_ecallFrame, ecallKnown_legacy h, if_pos rfl]
  rw [← legacy_args_iff p regs h regs.a6]
  unfold request argRegs
  rw [ha7, findExtension_legacy p h]
  split
  · -- the handler of the legacy extensions does not look at `a6`
    rw [Option.bind_some, Option.bind_some, Option.bind_some]
    have hreads : Extension.reads regs.a7 (ecallFrame regs).a6 .legacy =
        Extension.reads regs.a7 regs.a6 .legacy := rfl
    rw [hreads]
    cases Extension.reads regs.a7 regs.a6 .legacy with
    | none => simp
    | some is =>
      simp only [Option.map_some, Option.some.injEq, Request.mk.injEq, true_and, if_true,
        List.map_inj_left, forall_eq']
  · simp

/-! ## Extensions that are not on the whitelist -/

/-- Such a call becomes the legacy call that sets the timer to 0. -/
theorem request_unknown (hknown : ecallKnown regs.a7 = false)
    (hargs : ecallArgs regs.a7 regs.a6 = []) :
    request p (ecallFrame regs) = some ⟨.legacy, 0, [0]⟩ := by
  have hgpr : ∀ j, (ecallFrame regs).gpr j = 0 := by
    intro j
    rw [gpr_ecallFrame, copied, hknown, hargs]
    rfl
  have ha7 : (ecallFrame regs).a7 = 0 := hgpr 17
  have ha6 : (ecallFrame regs).a6 = 0 := hgpr 16
  unfold request
  rw [ha7, ha6]
  have hfind : findExtension p 0 = some .legacy := by
    rw [findExtension_legacy p (by decide)]
    rfl
  rw [hfind]
  have hreads : Extension.reads 0 0 .legacy = some [10] := rfl
  rw [Option.bind_some, hreads]
  simp [hgpr]

theorem findExtension_ne_legacy {ext : Word} (h : ¬ ext ≤ 0x0F) :
    findExtension p ext ≠ some .legacy := by
  have hle : ¬ ext ≤ SBI_EXT_0_1_SHUTDOWN := by
    simp only [SBI_EXT_0_1_SHUTDOWN]
    bv_omega
  have hite : ∀ {c : Prop} [Decidable c] {x y : Option Extension}, x ≠ some .legacy →
      y ≠ some .legacy → (if c then x else y) ≠ some .legacy := by
    intro c _ x y hx hy
    split
    · exact hx
    · exact hy
  unfold findExtension
  rw [if_neg hle]
  iterate 11 refine hite (by simp) ?_
  simp

theorem request_unknown_ne (h : ¬ regs.a7 ≤ 0x0F) (hknown : ecallKnown regs.a7 = false)
    (hargs : ecallArgs regs.a7 regs.a6 = []) :
    request p (ecallFrame regs) ≠ request p regs := by
  rw [request_unknown p regs hknown hargs]
  intro heq
  unfold request at heq
  cases hf : findExtension p regs.a7 with
  | none =>
    rw [hf] at heq
    cases heq
  | some ext =>
    rw [hf, Option.bind_some] at heq
    obtain ⟨is, _, hreq⟩ := Option.map_eq_some_iff.mp heq.symm
    have hext : ext = .legacy := congrArg Request.extension hreq
    exact findExtension_ne_legacy p h (hext ▸ hf)

/-! ## Main result -/

theorem not_followed_of_le {ext : Word} (h : ext ≤ 0x0F) : ¬ followed ext ∧ ¬ funcDropped ext := by
  constructor
  · rintro (rfl | rfl | rfl | rfl | rfl) <;> exact absurd h (by decide)
  · rintro (rfl | rfl) <;> exact absurd h (by decide)

theorem not_followed_of_funcDropped {ext : Word} (h : funcDropped ext) :
    ¬ followed ext ∧ ¬ ext ≤ 0x0F := by
  rcases h with rfl | rfl
  · exact ⟨by unfold followed; decide, by decide⟩
  · exact ⟨by unfold followed; decide, by decide⟩

theorem not_followed_of_unknown {ext : Word} (h : ecallKnown ext = false) :
    ¬ followed ext ∧ ¬ funcDropped ext := by
  constructor
  · intro hf
    rw [(ecallKnown_followed 0 hf).1] at h
    cases h
  · rintro (rfl | rfl) <;> cases h

/-- The frame `mon_ecall_enter` builds carries the caller's ids and arguments exactly for the calls
in `Carried`, and OpenSBI answers it as it would answer the caller exactly for those in
`Understood`. -/
theorem forwarded_call_iff (p : Platform) (m : Monitor) (h : HartId) (regs : TrapRegs) :
    (Carries p regs (m.monEcallEnter h regs).2 ↔ Carried regs) ∧
      (request p (m.monEcallEnter h regs).2 = request p regs ↔ Understood regs) := by
  change (Carries p regs (ecallFrame regs) ↔ _) ∧ (request p (ecallFrame regs) = _ ↔ _)
  unfold Carried Understood
  rcases ext_cases regs.a6 regs.a7 with hf | hd | hl | ⟨hl, hknown, hargs⟩
  · have hc := carries_followed p regs hf
    exact ⟨iff_of_true hc (Or.inl hf), iff_of_true (hc.request_eq p regs) (Or.inl hf)⟩
  · obtain ⟨hnf, hnl⟩ := not_followed_of_funcDropped hd
    rw [carries_funcDropped_iff p regs hd, request_funcDropped_iff p regs hd]
    simp only [hnf, hd, hnl, false_or, false_and, or_false, true_and, and_self]
  · obtain ⟨hnf, hnd⟩ := not_followed_of_le hl
    rw [carries_legacy_iff p regs hl, request_legacy_iff p regs hl]
    simp only [hnf, hnd, hl, false_or, false_and, true_and, and_self]
  · obtain ⟨hnf, hnd⟩ := not_followed_of_unknown hknown
    have hreq := request_unknown_ne p regs hl hknown hargs
    have hcarry : ¬ Carries p regs (ecallFrame regs) := fun hc => hreq (hc.request_eq p regs)
    simp only [hnf, hnd, hl, hcarry, hreq, false_or, false_and, and_self]

/-- A timer call with a function id that does not exist sets the timer, an unknown extension does so
too, and a legacy fence of a range becomes a fence of nothing. -/
theorem dropped_ids_make_other_calls :
    let p : Platform := ⟨true, true, true, true, true, 0⟩
    let frame := fun regs =>
      ((bootMonitor (fun _ => 0) ⟨[], [], [], [], []⟩).monEcallEnter 0 regs).2
    let time := ((TrapRegs.zero.setGpr 17 SBI_EXT_TIME).setGpr 16 1).setGpr 10 5
    let unknown := TrapRegs.zero.setGpr 17 0x12345678
    let fence := ((TrapRegs.zero.setGpr 17 6).setGpr 11 0x1000).setGpr 12 0x2000
    ((frame time).a6 ≠ time.a6 ∧ request p time = none ∧
        request p (frame time) = some ⟨.time, 0, [5]⟩) ∧
      ((frame unknown).a7 ≠ unknown.a7 ∧ request p unknown = none ∧
        request p (frame unknown) = some ⟨.legacy, 0, [0]⟩) ∧
      (request p fence = some ⟨.legacy, 6, [0, 0x1000, 0x2000]⟩ ∧
        request p (frame fence) = some ⟨.legacy, 6, [0, 0, 0]⟩) := by
  decide +kernel

end Dorami.Osbi
