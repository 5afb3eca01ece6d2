import Dorami.Monitor.Measurement
import Dorami.Sm.Proofs.PmpSetProofs

/-!
# The measurement identifies the enclave

The bytes fed to the hash are three sizes and three segments rounded up to pages. The sizes come
first and fix where each segment ends, so equal streams have equal sizes and equal segments.

The loops of `validate_and_hash_epm` step by pages from bases that need not be aligned. They end
because an accepted EPM is a range of whole pages below `2 ^ 64`: a page below its end can be
stepped over without wrapping.
-/

namespace Dorami.Sm

open Riscv

/-! ## Bytes in memory -/

section Bytes

variable (m m' : Monitor)

@[simp] theorem length_wordBytes (w : Word) : (wordBytes w).length = 8 := by
  simp [wordBytes]

theorem wordBytes_inj {v w : Word} : wordBytes v = wordBytes w ↔ v = w := by
  refine ⟨fun h => ?_, fun h => by rw [h]⟩
  refine cfgByte_ext fun i hi => ?_
  have := congrArg (fun l : List Byte => l[i]?) h
  simpa [wordBytes, hi] using this

@[simp] theorem length_readMem (base : Word) (n : Nat) : (m.readMem base n).length = n := by
  simp [Monitor.readMem]

theorem getElem?_readMem (base : Word) {n i : Nat} (hi : i < n) :
    (m.readMem base n)[i]? = some (m.mem (base + BitVec.ofNat 64 i)) := by
  simp [Monitor.readMem, hi]

theorem readMem_add (base : Word) (n k : Nat) :
    m.readMem base (n + k) = m.readMem base n ++ m.readMem (base + BitVec.ofNat 64 n) k := by
  unfold Monitor.readMem
  rw [List.range_add, List.map_append, List.map_map]
  congr 1
  refine List.map_congr_left fun i _ => ?_
  simp only [Function.comp_apply, BitVec.ofNat_add, BitVec.add_assoc]

theorem readMem_eq_iff {base base' : Word} {n : Nat} :
    m.readMem base n = m'.readMem base' n ↔ SameBytes m m' base base' n := by
  unfold Monitor.readMem SameBytes
  rw [List.map_inj_left]
  simp only [List.mem_range]

end Bytes

/-! ## One loop of `validate_and_hash_epm` -/

section Pages

variable (m : Monitor)

/-- A loop that passes `k` pages feeds their `4096 * k` bytes. The induction is on `k`: the first
page is below `stop`, and stepping over it does not wrap. -/
theorem pages_readMem {stop : Word} (hroom : stop.toNat + 4096 ≤ 2 ^ 64) :
    ∀ (k fuel : Nat) (page : Word), k ≤ fuel → stop.toNat ≤ page.toNat + 4096 * k →
      (0 < k → page.toNat + 4096 * k < stop.toNat + 4096) →
      ((pageLoop fuel page stop).flatMap fun page => m.readMem page RISCV_PGSIZE.toNat) =
        m.readMem page (4096 * k) := by
  intro k
  induction k with
  | zero =>
    intro fuel page _ hend _
    have hstop : ¬ page < stop := by
      rw [BitVec.lt_def]
      omega
    cases fuel with
    | zero => rfl
    | succ fuel => rw [pageLoop, if_neg hstop]; rfl
  | succ k ih =>
    intro fuel page hfuel hend hlast
    have hlast := hlast (Nat.succ_pos k)
    obtain ⟨fuel, rfl⟩ : ∃ n, fuel = n + 1 := ⟨fuel - 1, by omega⟩
    have hlt : page < stop := by
      rw [BitVec.lt_def]
      omega
    have hpg : RISCV_PGSIZE.toNat = 4096 := rfl
    have hnext : (page + RISCV_PGSIZE).toNat = page.toNat + 4096 := by
      rw [BitVec.toNat_add, hpg]
      omega
    rw [pageLoop, if_pos hlt, List.flatMap_cons,
      ih fuel (page + RISCV_PGSIZE) (by omega) (by omega) (by omega), hpg, Nat.mul_succ,
      Nat.add_comm (4096 * k) 4096, readMem_add]
    rfl

/-- A loop from `base` to `stop` feeds the segment between them, rounded up to pages. -/
theorem segment_readMem {base stop : Word} (hle : base.toNat ≤ stop.toNat)
    (hroom : stop.toNat + 4096 ≤ 2 ^ 64) :
    ((pageLoop (2 ^ 52) base stop).flatMap fun page => m.readMem page RISCV_PGSIZE.toNat) =
      m.readMem base (pageRoundUp (stop - base)) := by
  have hsize : (stop - base).toNat = stop.toNat - base.toNat :=
    BitVec.toNat_sub_of_le (by rw [BitVec.le_def]; exact hle)
  unfold pageRoundUp
  rw [hsize, Nat.mul_comm]
  refine pages_readMem m hroom _ _ _ ?_ ?_ ?_ <;> omega

end Pages

/-! ## The whole stream -/

section Stream

variable {p p' : RuntimeParams} (m m' : Monitor)

theorem hashStream_eq (hp : p.Ordered) :
    hashStream p m = wordBytes p.loaderSize ++ (wordBytes p.runtimeSize ++
      (wordBytes p.eappSize ++ (m.readMem p.dramBase (pageRoundUp p.loaderSize) ++
        (m.readMem p.runtimeBase (pageRoundUp p.runtimeSize) ++
          m.readMem p.userBase (pageRoundUp p.eappSize))))) := by
  have hrun := hp.runtime
  have huser := hp.user
  have hfree := hp.free
  have hroom := hp.room
  unfold hashStream
  simp only [List.flatMap_append, List.flatMap_cons, List.flatMap_nil, List.append_nil,
    List.append_assoc]
  rw [segment_readMem m hrun (by omega), segment_readMem m huser (by omega),
    segment_readMem m hfree hroom]
  rfl

/-- The sizes have a fixed length and fix the lengths of the segments. -/
theorem hashStream_eq_iff (hp : p.Ordered) (hp' : p'.Ordered) :
    hashStream p m = hashStream p' m' ↔
      (p.loaderSize = p'.loaderSize ∧ p.runtimeSize = p'.runtimeSize ∧
        p.eappSize = p'.eappSize) ∧ SameContents p p' m m' := by
  rw [hashStream_eq m hp, hashStream_eq m' hp']
  constructor
  · intro h
    obtain ⟨h1, h⟩ := List.append_inj h (by simp)
    obtain ⟨h2, h⟩ := List.append_inj h (by simp)
    obtain ⟨h3, h⟩ := List.append_inj h (by simp)
    rw [wordBytes_inj] at h1 h2 h3
    rw [← h1, ← h2, ← h3] at h
    obtain ⟨h4, h⟩ := List.append_inj h (by simp)
    obtain ⟨h5, h6⟩ := List.append_inj h (by simp)
    rw [readMem_eq_iff] at h4 h5 h6
    exact ⟨⟨h1, h2, h3⟩, h4, h5, h6⟩
  · rintro ⟨⟨h1, h2, h3⟩, h4, h5, h6⟩
    rw [← readMem_eq_iff] at h4 h5 h6
    rw [h4, h5, h6, h1, h2, h3]

end Stream

/-! ## Coverage -/

/-- The byte at `a` stands at a place of the string `f` that does not depend on the memory. -/
def Feeds (f : Monitor → List Byte) (a : Word) : Prop :=
  ∃ i : Nat, ∀ m : Monitor, (f m)[i]? = some (m.mem a)

section Coverage

variable {f g : Monitor → List Byte} {a : Word}

theorem Feeds.append_left (h : Feeds f a) (g : Monitor → List Byte) :
    Feeds (fun m => f m ++ g m) a := by
  obtain ⟨i, hi⟩ := h
  refine ⟨i, fun m => ?_⟩
  obtain ⟨hlt, _⟩ := List.getElem?_eq_some_iff.mp (hi m)
  rw [List.getElem?_append_left hlt, hi m]

theorem Feeds.append_right {n : Nat} (h : Feeds g a) (hlen : ∀ m, (f m).length = n) :
    Feeds (fun m => f m ++ g m) a := by
  obtain ⟨i, hi⟩ := h
  refine ⟨n + i, fun m => ?_⟩
  rw [List.getElem?_append_right (by rw [hlen]; omega), hlen, Nat.add_sub_cancel_left, hi m]

/-- A segment holds the bytes between its ends. -/
theorem feeds_segment {base stop : Word} (hle : base.toNat ≤ a.toNat)
    (hlt : a.toNat < stop.toNat) :
    Feeds (fun m => m.readMem base (pageRoundUp (stop - base))) a := by
  have hsize : (stop - base).toNat = stop.toNat - base.toNat :=
    BitVec.toNat_sub_of_le (by rw [BitVec.le_def]; omega)
  have hi : (a - base).toNat < pageRoundUp (stop - base) := by
    rw [BitVec.toNat_sub_of_le (by rw [BitVec.le_def]; exact hle), pageRoundUp, hsize]
    omega
  refine ⟨(a - base).toNat, fun m => ?_⟩
  rw [getElem?_readMem m base hi, BitVec.ofNat_toNat, BitVec.setWidth_eq, BitVec.add_comm,
    BitVec.sub_add_cancel]

/-- Every byte from the base of the EPM to its free part is at some place of the stream. -/
theorem feeds_hashStream {p : RuntimeParams} (hp : p.Ordered)
    (hbase : p.dramBase.toNat ≤ a.toNat) (hfree : a.toNat < p.freeBase.toNat) :
    Feeds (hashStream p) a := by
  rw [show hashStream p = _ from funext fun m => hashStream_eq m hp]
  have hword : ∀ w : Word, ∀ _ : Monitor, (wordBytes w).length = 8 := fun w _ => length_wordBytes w
  refine .append_right (.append_right (.append_right ?_ (hword _)) (hword _)) (hword _)
  by_cases hrun : a.toNat < p.runtimeBase.toNat
  · exact (feeds_segment hbase hrun).append_left _
  refine .append_right ?_ (fun m => length_readMem m _ _)
  by_cases huser : a.toNat < p.userBase.toNat
  · exact (feeds_segment (Nat.not_lt.mp hrun) huser).append_left _
  · exact (feeds_segment (Nat.not_lt.mp huser) hfree).append_right fun m => length_readMem m _ _

end Coverage

/-! ## Accepted arguments -/

/-- The regions of `sm_init` keep the whole address space from being an EPM, so an EPM has whole
pages and ends below the last one. -/
theorem epm_pages {t' : PmpTable} {start size : Word} {rid : Nat} (cs : List EnclaveCall)
    (h : (tableAfter cs).pmpRegionInit start size .any false = (t', .ok rid)) :
    4096 ∣ start.toNat ∧ 4096 ∣ size.toNat ∧ start.toNat + size.toNat + 4096 ≤ 2 ^ 64 := by
  obtain ⟨r, hr⟩ := pmpRegionInit_ok h
  have hplaced := wellPlaced_of_init hr
  have hkept := kept_tableAfter cs
  have hsep := separated_tableAfter cs
  have hmonitor : (tableAfter cs).Exclusive 0 := by
    obtain ⟨hv, hreg⟩ := hkept.boot 0 (by decide)
    exact ⟨hv, by rw [hreg]; decide⟩
  have hapart : Disjoint (byteRange start size) ((tableAfter cs).regions 0).bytes := by
    by_contra hmeet
    have hpos : 0 < size.toNat := by rw [← hr.size]; exact hplaced.size_pos
    have := (detectRegionOverlap_iff hsep.slot hsep.placed hpos).mpr (Or.inr ⟨0, hmonitor, hmeet⟩)
    rw [hr.sep rfl] at this
    exact absurd this (by decide)
  have hfits := hplaced.fits
  rw [← hr.addr, ← hr.size] at *
  rcases hplaced.pages with ⟨hbase, hsize⟩ | ⟨hbase, hsize⟩
  · exact ⟨hbase, hsize, by omega⟩
  · have hin : 0x80000000 ∈ byteRange r.addr r.size := by
      rw [byteRange, hbase, hsize]
      exact ⟨by decide, by decide⟩
    have hin' : 0x80000000 ∈ ((tableAfter cs).regions 0).bytes := by
      rw [(hkept.boot 0 (by decide)).2]
      exact ⟨by decide, by decide⟩
    exact absurd hin' (Set.disjoint_left.mp hapart hin)

theorem ordered_of_accepted {args : CreateArgs} (h : args.Accepted) : args.params.Ordered := by
  obtain ⟨hvalid, cs, t, rid, hinit⟩ := h
  obtain ⟨-, -, hroom⟩ := epm_pages cs hinit
  have hend : (args.epmPaddr + args.epmSize).toNat = args.epmPaddr.toNat + args.epmSize.toNat := by
    rw [BitVec.toNat_add]
    omega
  unfold isCreateArgsValid at hvalid
  simp only [BitVec.lt_def, BitVec.le_def, ge_iff_le, gt_iff_lt, hend] at hvalid
  split_ifs at hvalid with h1 h2 h3 h4 h5 h6 h7 h8
  show RuntimeParams.Ordered ⟨_, _, _, _, _, _, _, _⟩
  constructor <;> simp only <;> omega

/-- Arguments that are granted right after boot. -/
theorem accepted_of_boot {args : CreateArgs} {rid : Nat} (hvalid : isCreateArgsValid args = true)
    (h : (bootTable.pmpRegionInit args.epmPaddr args.epmSize .any false).2 = .ok rid) :
    args.Accepted := ⟨hvalid, [], _, rid, Prod.ext rfl h⟩

/-- Two accepted enclaves are measured alike exactly if their segments have the same sizes and the
same bytes, rounded up to pages; and no byte below the free memory escapes the measurement. -/
theorem measurement_identifies_enclave (args args' : CreateArgs) (hargs : args.Accepted)
    (hargs' : args'.Accepted) (m m' : Monitor) :
    let p := args.params
    let p' := args'.params
    (hashStream p m = hashStream p' m' ↔
      (p.loaderSize = p'.loaderSize ∧ p.runtimeSize = p'.runtimeSize ∧
        p.eappSize = p'.eappSize) ∧ SameContents p p' m m') ∧
    ∀ a : Word, p.dramBase ≤ a → a < p.freeBase →
      ∃ i : Nat, ∀ m'' : Monitor, (hashStream p m'')[i]? = some (m''.mem a) := by
  intro p p'
  have hp : p.Ordered := ordered_of_accepted hargs
  have hp' : p'.Ordered := ordered_of_accepted hargs'
  refine ⟨hashStream_eq_iff m m' hp hp', fun a hbase hfree => ?_⟩
  rw [BitVec.le_def] at hbase
  rw [BitVec.lt_def] at hfree
  exact feeds_hashStream hp hbase hfree

/-- Two enclaves with unaligned segments, at two bases of a memory of zeros. -/
theorem moved_enclave_measured_alike :
    let args : CreateArgs :=
      ⟨0x90000000, 0x4000, 0xa0000000, 0x1000, 0x90000800, 0x90001800, 0x90001900, 0⟩
    let args' : CreateArgs :=
      ⟨0xb0000000, 0x4000, 0xa0000000, 0x1000, 0xb0000800, 0xb0001800, 0xb0001900, 0⟩
    let m := bootMonitor (fun _ => 0) ⟨[], [], [], [], []⟩
    args.Accepted ∧ args'.Accepted ∧ hashStream args.params m = hashStream args'.params m := by
  intro args args' m
  have haccepted : args.Accepted := @accepted_of_boot args 6 (by decide) (by decide)
  have haccepted' : args'.Accepted := @accepted_of_boot args' 6 (by decide) (by decide)
  refine ⟨haccepted, haccepted', ?_⟩
  refine (measurement_identifies_enclave args args' haccepted haccepted' m m).1.mpr ⟨?_, ?_⟩
  · decide
  · exact ⟨fun _ _ => rfl, fun _ _ => rfl, fun _ _ => rfl⟩

end Dorami.Sm
