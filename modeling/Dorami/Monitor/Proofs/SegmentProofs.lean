import Dorami.Monitor.Proofs.MeasurementProofs

/-!
# Measuring ends, but may leave the EPM

The three loops of `validate_and_hash_epm` step by pages from addresses the host chooses. They end
after as many rounds as the segment has pages, because an accepted EPM ends a page below the top of
the address space.

A loop reads its last page whole. `is_create_args_valid` does not look at the alignment of the
segments, so a segment that begins inside a page can run past the end of the EPM.
-/

namespace Dorami.Sm

open Riscv

/-! ## Page loops -/

/-- A run is what the bounded loop of the model computes. -/
theorem PageLoop.pageLoop_eq {stop page last : Word} {pages : List Word}
    (h : PageLoop stop page pages last) :
    ∀ fuel, pages.length ≤ fuel → pageLoop fuel page stop = pages := by
  induction h with
  | done hstop =>
    intro fuel _
    cases fuel with
    | zero => rfl
    | succ fuel => rw [pageLoop, if_neg hstop]
  | next hlt _ ih =>
    intro fuel hfuel
    rw [List.length_cons] at hfuel
    obtain ⟨fuel, rfl⟩ : ∃ n, fuel = n + 1 := ⟨fuel - 1, by omega⟩
    rw [pageLoop, if_pos hlt, ih fuel (by omega)]

/-- A loop of `k` rounds. The induction is on `k`: the first page is below `stop`, and stepping over
it does not wrap. -/
theorem pageLoop_run {stop : Word} (hroom : stop.toNat + 4096 ≤ 2 ^ 64) :
    ∀ (k : Nat) (page : Word), stop.toNat ≤ page.toNat + 4096 * k →
      (0 < k → page.toNat + 4096 * k < stop.toNat + 4096) →
      ∃ pages last, PageLoop stop page pages last ∧ pages.length = k ∧
        (∀ i p, pages[i]? = some p → p.toNat = page.toNat + 4096 * i) ∧
        last.toNat = page.toNat + 4096 * k := by
  intro k
  induction k with
  | zero =>
    intro page hend _
    have hstop : ¬ page < stop := by
      rw [BitVec.lt_def]
      omega
    refine ⟨[], page, .done hstop, rfl, ?_, rfl⟩
    intro i p hp
    cases hp
  | succ k ih =>
    intro page hend hlast
    have hlast := hlast (Nat.succ_pos k)
    have hlt : page < stop := by
      rw [BitVec.lt_def]
      omega
    have hnext : (page + RISCV_PGSIZE).toNat = page.toNat + 4096 := by
      have hpg : RISCV_PGSIZE.toNat = 4096 := rfl
      rw [BitVec.toNat_add, hpg]
      omega
    obtain ⟨pages, last, hrun, hlen, hcounter, hfinal⟩ :=
      ih (page + RISCV_PGSIZE) (by omega) (by omega)
    refine ⟨page :: pages, last, .next hlt hrun, by rw [List.length_cons, hlen],
      fun i p hp => ?_, ?_⟩
    · cases i with
      | zero =>
        cases hp
        rfl
      | succ i =>
        have := hcounter i p hp
        omega
    · omega

/-- The loop over a segment. -/
theorem loopEnds {base stop : Word} (hle : base.toNat ≤ stop.toNat)
    (hroom : stop.toNat + 4096 ≤ 2 ^ 64) : ∃ pages last, LoopEnds base stop pages last := by
  have hsize : (stop - base).toNat = stop.toNat - base.toNat :=
    BitVec.toNat_sub_of_le (by rw [BitVec.le_def]; exact hle)
  obtain ⟨pages, last, hrun, hlen, hcounter, hfinal⟩ :=
    pageLoop_run hroom ((stop.toNat - base.toNat + 4095) / 4096) base (by omega) (by omega)
  exact ⟨pages, last, hrun, by rw [hlen, hsize], hcounter, by rw [hlen]; exact hfinal⟩

/-- Measuring accepted arguments ends: each of the three loops passes as many pages as its segment
has, its counter does not wrap, and the stored sizes are the distances between the addresses. -/
theorem measuring_ends (args : CreateArgs) (h : args.Accepted) :
    let p := args.params
    (∃ pages last, LoopEnds p.dramBase p.runtimeBase pages last) ∧
    (∃ pages last, LoopEnds p.runtimeBase p.userBase pages last) ∧
    (∃ pages last, LoopEnds p.userBase p.freeBase pages last) ∧
    p.dramBase ≤ p.runtimeBase ∧ p.runtimeBase ≤ p.userBase ∧ p.userBase ≤ p.freeBase ∧
    p.dramBase.toNat + (p.loaderSize.toNat + p.runtimeSize.toNat + p.eappSize.toNat) =
      p.freeBase.toNat := by
  intro p
  have hp : p.Ordered := ordered_of_accepted h
  have hrun := hp.runtime
  have huser := hp.user
  have hfree := hp.free
  have hroom := hp.room
  refine ⟨loopEnds hrun (by omega), loopEnds huser (by omega), loopEnds hfree hroom, ?_, ?_, ?_, ?_⟩
  · rwa [BitVec.le_def]
  · rwa [BitVec.le_def]
  · rwa [BitVec.le_def]
  · unfold RuntimeParams.loaderSize RuntimeParams.runtimeSize RuntimeParams.eappSize
    rw [BitVec.toNat_sub_of_le (by rwa [BitVec.le_def]),
      BitVec.toNat_sub_of_le (by rwa [BitVec.le_def]),
      BitVec.toNat_sub_of_le (by rwa [BitVec.le_def])]
    omega

/-- An EPM whose segments begin and end inside pages. -/
theorem measuring_unaligned_ends :
    let args : CreateArgs :=
      ⟨0x90000000, 0x4000, 0xa0000000, 0x1000, 0x90000800, 0x90001801, 0x90003fff, 0⟩
    args.Accepted ∧
      ∃ pages last, LoopEnds args.params.runtimeBase args.params.userBase pages last ∧
        pages.length = 2 := by
  intro args
  have haccepted : args.Accepted := @accepted_of_boot args 6 (by decide) (by decide)
  obtain ⟨pages, last, hends⟩ := (measuring_ends args haccepted).2.1
  exact ⟨haccepted, pages, last, hends, hends.rounds.trans (by decide)⟩

/-! ## What is read -/

section Reads

variable {p : RuntimeParams}

theorem hashStream_reads (m : Monitor) : hashStream p m =
    [p.loaderSize, p.runtimeSize, p.eappSize].flatMap wordBytes ++ (measuredAddrs p).map m.mem := by
  unfold hashStream measuredAddrs
  rw [List.map_flatMap]
  simp only [List.map_map]
  rfl

/-- The addresses one loop reads are those of the segment rounded up to pages. -/
theorem mem_segment_reads {base stop a : Word} (hle : base.toNat ≤ stop.toNat)
    (hroom : stop.toNat + 4096 ≤ 2 ^ 64) :
    (∃ page ∈ pageLoop (2 ^ 52) base stop, ∃ i < 4096, page + BitVec.ofNat 64 i = a) ↔
      base.toNat ≤ a.toNat ∧ a.toNat < base.toNat + pageRoundUp (stop - base) := by
  obtain ⟨pages, last, hends⟩ := loopEnds hle hroom
  have hrounds := hends.rounds
  have hsize : (stop - base).toNat = stop.toNat - base.toNat :=
    BitVec.toNat_sub_of_le (by rw [BitVec.le_def]; exact hle)
  rw [hends.run.pageLoop_eq _ (by omega), pageRoundUp, ← hrounds]
  have hlast : base.toNat + 4096 * pages.length < 2 ^ 64 := hends.final ▸ last.isLt
  have haddr : ∀ j i (page : Word), pages[j]? = some page → i < 4096 →
      (page + BitVec.ofNat 64 i).toNat = base.toNat + 4096 * j + i := by
    intro j i page hpage hi
    obtain ⟨hj, -⟩ := List.getElem?_eq_some_iff.mp hpage
    have hcounter := hends.counter j page hpage
    rw [BitVec.toNat_add, BitVec.toNat_ofNat]
    omega
  constructor
  · rintro ⟨page, hpage, i, hi, rfl⟩
    obtain ⟨j, hj⟩ := List.mem_iff_getElem?.mp hpage
    obtain ⟨hlt, -⟩ := List.getElem?_eq_some_iff.mp hj
    rw [haddr j i page hj hi]
    omega
  · rintro ⟨hlo, hhi⟩
    have hj : (a.toNat - base.toNat) / 4096 < pages.length := by omega
    refine ⟨pages[(a.toNat - base.toNat) / 4096], List.getElem_mem hj,
      (a.toNat - base.toNat) % 4096, by omega, BitVec.eq_of_toNat_eq ?_⟩
    rw [haddr _ _ _ (List.getElem?_eq_getElem hj) (by omega)]
    omega

theorem mem_measuredAddrs (hp : p.Ordered) (a : Word) : a ∈ measuredAddrs p ↔
    (p.dramBase.toNat ≤ a.toNat ∧ a.toNat < p.dramBase.toNat + pageRoundUp p.loaderSize) ∨
    (p.runtimeBase.toNat ≤ a.toNat ∧ a.toNat < p.runtimeBase.toNat + pageRoundUp p.runtimeSize) ∨
    (p.userBase.toNat ≤ a.toNat ∧ a.toNat < p.userBase.toNat + pageRoundUp p.eappSize) := by
  have hrun := hp.runtime
  have huser := hp.user
  have hfree := hp.free
  have hroom := hp.room
  unfold RuntimeParams.loaderSize RuntimeParams.runtimeSize RuntimeParams.eappSize
  rw [← mem_segment_reads hrun (by omega), ← mem_segment_reads huser (by omega),
    ← mem_segment_reads hfree hroom]
  unfold measuredAddrs
  have hpg : RISCV_PGSIZE.toNat = 4096 := rfl
  simp only [List.mem_flatMap, List.mem_append, List.mem_map, List.mem_range, hpg, or_and_right,
    exists_or, or_assoc]

/-- The EPM of accepted arguments consists of whole pages and holds the segments. -/
structure RuntimeParams.Paged (p : RuntimeParams) : Prop where
  base : p.dramBase.toNat % 4096 = 0
  size : p.dramSize.toNat % 4096 = 0
  free : p.freeBase.toNat ≤ p.dramBase.toNat + p.dramSize.toNat

theorem paged_of_accepted {args : CreateArgs} (h : args.Accepted) : args.params.Paged := by
  obtain ⟨hvalid, cs, t, rid, hinit⟩ := h
  obtain ⟨hbase, hsize, hroom⟩ := epm_pages cs hinit
  have hend : (args.epmPaddr + args.epmSize).toNat = args.epmPaddr.toNat + args.epmSize.toNat := by
    rw [BitVec.toNat_add]
    omega
  unfold isCreateArgsValid at hvalid
  simp only [BitVec.lt_def, BitVec.le_def, ge_iff_le, gt_iff_lt, hend] at hvalid
  split_ifs at hvalid with h1 h2 h3 h4 h5 h6 h7 h8
  refine ⟨Nat.mod_eq_zero_of_dvd hbase, Nat.mod_eq_zero_of_dvd hsize, ?_⟩
  show args.freePaddr.toNat ≤ args.epmPaddr.toNat + args.epmSize.toNat
  omega

/-- A segment rounded up to pages ends in the EPM exactly if it fits. -/
theorem roundUp_le_iff (hpg : p.Paged) {base stop : Word} (hle : base.toNat ≤ stop.toNat)
    (hstop : stop.toNat ≤ p.dramBase.toNat + p.dramSize.toNat) :
    base.toNat + pageRoundUp (stop - base) ≤ p.dramBase.toNat + p.dramSize.toNat ↔
      p.Fits base stop := by
  have hb := hpg.base
  have hs := hpg.size
  have hsize : (stop - base).toNat = stop.toNat - base.toNat :=
    BitVec.toNat_sub_of_le (by rw [BitVec.le_def]; exact hle)
  have hempty : base = stop ↔ base.toNat = stop.toNat := BitVec.toNat_inj.symm
  unfold pageRoundUp RuntimeParams.Fits
  rw [hsize, hempty]
  have hend : (p.dramBase.toNat + p.dramSize.toNat) % 4096 = 0 := by omega
  generalize p.dramBase.toNat + p.dramSize.toNat = fin at hend hstop ⊢
  constructor
  · intro hround
    omega
  · rintro (hnone | hpage | hgap) <;> omega

/-- The loop over a segment reads the EPM only, exactly if the segment fits. -/
theorem segment_in_epm_iff (hpg : p.Paged) {base stop : Word}
    (hbase : p.dramBase.toNat ≤ base.toNat) (hle : base.toNat ≤ stop.toNat)
    (hstop : stop.toNat ≤ p.dramBase.toNat + p.dramSize.toNat)
    (hroom : stop.toNat + 4096 ≤ 2 ^ 64) :
    (∀ a : Word, base.toNat ≤ a.toNat ∧ a.toNat < base.toNat + pageRoundUp (stop - base) →
      a.toNat ∈ p.epm) ↔ p.Fits base stop := by
  rw [← roundUp_le_iff hpg hle hstop]
  have hsize : (stop - base).toNat = stop.toNat - base.toNat :=
    BitVec.toNat_sub_of_le (by rw [BitVec.le_def]; exact hle)
  have hround : pageRoundUp (stop - base) ≤ stop.toNat - base.toNat + 4095 := by
    unfold pageRoundUp
    omega
  constructor
  · intro hall
    -- the last byte that is read
    by_contra hout
    have hlast := hall (BitVec.ofNat 64 (base.toNat + pageRoundUp (stop - base) - 1)) (by
      rw [BitVec.toNat_ofNat]
      omega)
    have := hlast.2
    rw [BitVec.toNat_ofNat] at this
    omega
  · intro hin a ⟨hlo, hhi⟩
    exact ⟨by omega, by omega⟩

/-- The loader begins at a page. -/
theorem loader_fits (hpg : p.Paged) : p.Fits p.dramBase p.runtimeBase := Or.inr (Or.inl hpg.base)

theorem reads_in_epm_iff (hp : p.Ordered) (hpg : p.Paged) :
    (∀ a ∈ measuredAddrs p, a.toNat ∈ p.epm) ↔ p.SegmentsFit := by
  have hrun := hp.runtime
  have huser := hp.user
  have hfree := hp.free
  have hroom := hp.room
  have hend := hpg.free
  unfold RuntimeParams.SegmentsFit
  rw [← segment_in_epm_iff hpg (by omega) huser (by omega) (by omega),
    ← segment_in_epm_iff hpg (by omega) hfree hend hroom]
  have hloader := (segment_in_epm_iff hpg (Nat.le_refl _) hrun (by omega) (by omega)).mpr
    (loader_fits hpg)
  simp only [mem_measuredAddrs hp]
  constructor
  · intro hall
    exact ⟨fun a ha => hall a (Or.inr (Or.inl ha)), fun a ha => hall a (Or.inr (Or.inr ha))⟩
  · rintro ⟨hruntime, heapp⟩ a (ha | ha | ha)
    · exact hloader a ha
    · exact hruntime a ha
    · exact heapp a ha

/-- The measurement depends on exactly the addresses that are read: with the identity in place of
the hash, two memories that differ at one of them are told apart. -/
theorem measuresEpmOnly_iff : p.MeasuresEpmOnly ↔ ∀ a ∈ measuredAddrs p, a.toNat ∈ p.epm := by
  constructor
  · intro hsame a ha
    by_contra hout
    let C : Crypto := ⟨id, fun _ _ _ => [], fun _ _ _ => none⟩
    let m := bootMonitor (fun _ => 0) ⟨[], [], [], [], []⟩
    let m' := bootMonitor (fun x => if x = a then 1 else 0) ⟨[], [], [], [], []⟩
    have hhash := hsame C { m.enclaves 0 with params := p } m m' rfl fun x hx => by
      have hne : x ≠ a := by
        rintro rfl
        exact hout hx
      exact (if_neg hne).symm
    have hstream : hashStream p m = hashStream p m' := Except.ok.inj hhash
    rw [hashStream_reads, hashStream_reads] at hstream
    have hmem := List.map_inj_left.mp (List.append_cancel_left hstream) a ha
    have hone : m'.mem a = 1 := if_pos rfl
    rw [hone] at hmem
    cases hmem
  · rintro hin C en m m' rfl hagree
    unfold validateAndHashEnclave
    rw [hashStream_reads, hashStream_reads]
    have hmap : (measuredAddrs en.params).map m.mem = (measuredAddrs en.params).map m'.mem :=
      List.map_congr_left fun a ha => hagree a (hin a ha)
    rw [hmap]

end Reads

/-- Measuring accepted arguments reads the EPM only, and depends on nothing else, exactly if the
runtime and the application fit. -/
theorem measures_epm_only_iff (args : CreateArgs) (h : args.Accepted) :
    let p := args.params
    ((∀ a ∈ measuredAddrs p, a.toNat ∈ p.epm) ↔ p.SegmentsFit) ∧
      (p.MeasuresEpmOnly ↔ p.SegmentsFit) := by
  intro p
  have hreads := reads_in_epm_iff (ordered_of_accepted h) (paged_of_accepted h)
  exact ⟨hreads, measuresEpmOnly_iff.trans hreads⟩

/-- Segments at page boundaries. -/
theorem aligned_segments_measured_alone :
    let args : CreateArgs :=
      ⟨0x90000000, 0x4000, 0xa0000000, 0x1000, 0x90001000, 0x90002000, 0x90003fff, 0⟩
    args.Accepted ∧ args.params.MeasuresEpmOnly := by
  intro args
  have haccepted : args.Accepted := @accepted_of_boot args 6 (by decide) (by decide)
  refine ⟨haccepted, (measures_epm_only_iff args haccepted).2.mpr ⟨?_, ?_⟩⟩
  · exact Or.inr (Or.inl (by decide))
  · exact Or.inr (Or.inl (by decide))

/-- An application that begins in the middle of the last page is measured with half a page of memory
behind the EPM. -/
theorem unaligned_application_leaves_epm :
    let args : CreateArgs :=
      ⟨0x90000000, 0x4000, 0xa0000000, 0x1000, 0x90001000, 0x90003800, 0x90004000, 0⟩
    args.Accepted ∧ 0x90004000 ∈ measuredAddrs args.params ∧ 0x90004000 ∉ args.params.epm ∧
      ¬ args.params.MeasuresEpmOnly := by
  intro args
  have haccepted : args.Accepted := @accepted_of_boot args 6 (by decide) (by decide)
  have hread : (0x90004000 : Word) ∈ measuredAddrs args.params := by
    rw [mem_measuredAddrs (ordered_of_accepted haccepted)]
    exact Or.inr (Or.inr (by decide))
  have hout : 0x90004000 ∉ args.params.epm := fun hin => absurd hin.2 (by decide)
  refine ⟨haccepted, hread, hout, fun hsame => ?_⟩
  exact hout (measuresEpmOnly_iff.mp hsame _ hread)

end Dorami.Sm
