import Dorami.Monitor.Proofs.MachineMemoryProofs
import Dorami.Monitor.Proofs.RequestProofs
import Dorami.Monitor.Proofs.SteadyProofs

/-!
# The calls clear no data of the monitor

Create and destroy calls clear the memory of regions. The monitor's data is one of the regions of
`sm_init`, none of which may overlap another, so no call clears it, however the calls of the harts
interleave.
-/

namespace Dorami.Sm

open Riscv Lib

/-! ## Regions of enclaves are exclusive -/

/-- The exclusive regions are apart, and those that do not come from `sm_init` are exclusive. -/
structure PmpTable.Apart (t : PmpTable) : Prop where
  separated : t.Separated
  later : ∀ i, 6 ≤ i → t.isPmpRegionValid i = true → (t.regions i).allowOverlap = false

section Table

variable {t t' : PmpTable} {rid : Nat}

theorem PmpTable.Apart.init {start size : Word} {pri : PmpPriority} {r : PmpRegion} (ha : t.Apart)
    (h : InitOk t start size pri false rid r t') : t'.Apart := by
  refine ⟨separated_of_init ha.separated h, fun i hi hv => ?_⟩
  rw [h.adds.valid, Bool.or_eq_true, beq_iff_eq] at hv
  rw [h.adds.regions]
  by_cases hir : i = rid
  · rw [hir, setRegion_self]
    exact h.overlap
  · rw [setRegion_ne t r hir]
    exact ha.later i hi (hv.resolve_right hir)

theorem PmpTable.Apart.free (ha : t.Apart) (rid : Nat) : (t.pmpRegionFree rid).1.Apart := by
  cases hvr : t.isPmpRegionValid rid with
  | false =>
    rw [pmpRegionFree_invalid hvr]
    exact ha
  | true =>
    have hr := pmpRegionFree_removes hvr
    refine ⟨separated_of_removes ha.separated hr, fun i hi hv => ?_⟩
    rw [hr.valid, Bool.and_eq_true, bne_iff_ne] at hv
    rw [hr.regions, setRegion_ne t _ hv.2]
    exact ha.later i hi hv.1

theorem apart_rule (ev : Event) : TableRule PmpTable.Apart ev := by
  have hinit : ∀ {t t' : PmpTable} {start size : Word} {pri : PmpPriority} {rid : Nat}, t.Apart →
      t.pmpRegionInit start size pri false = (t', .ok rid) → t'.Apart := by
    intro t t' start size pri rid ha h
    obtain ⟨r, hr⟩ := pmpRegionInit_ok h
    exact ha.init hr
  exact ⟨fun _ ha h => hinit ha h, fun _ ha h => hinit ha h, fun rid ha => ha.free rid⟩

theorem apart_bootTable : bootTable.Apart := by
  refine ⟨separated_bootTable, fun i hi hv => ?_⟩
  rw [bootTable_valid] at hv
  omega

theorem PmpTable.Apart.exclusive (ha : t.Apart) (hrid : 6 ≤ rid)
    (hv : t.isPmpRegionValid rid = true) : t.Exclusive rid := ⟨hv, ha.later rid hrid hv⟩

/-- No region of an enclave meets the monitor's data. -/
theorem PmpTable.Apart.off_data (ha : t.Apart) (hk : t.Kept) (hrid : 6 ≤ rid)
    (hv : t.isPmpRegionValid rid = true) : Disjoint (t.regions rid).bytes Monitor.monitorData := by
  obtain ⟨hv1, hreg1⟩ := hk.boot 1 (by decide)
  have hx1 : t.Exclusive 1 := ⟨hv1, by rw [hreg1]; rfl⟩
  have hdisj := ha.separated.disjoint rid 1 (ha.exclusive hrid hv) hx1 (by omega)
  rw [hreg1] at hdisj
  exact hdisj

end Table

namespace Monitor

/-! ## Memory after a call -/

/-- Between and during calls, the table is one in which regions of enclaves keep off the data. -/
structure DataSafe (m : Monitor) : Prop where
  steady : m.core.Steady
  apart : m.table.Apart

section Switches

variable (m : Monitor) (h : HartId) (regs : TrapRegs) (eid : Nat)

theorem mem_runEnclave : (m.runEnclave h regs eid).1.mem = m.mem := by
  unfold runEnclave
  split <;> rfl

theorem mem_resumeEnclave : (m.resumeEnclave h regs eid).1.mem = m.mem := by
  unfold resumeEnclave
  split <;> rfl

theorem mem_exitEnclave : (m.exitEnclave h regs eid).1.mem = m.mem := by
  unfold exitEnclave
  split <;> rfl

end Switches

section Calls

variable {C : Crypto} {m : Monitor} {h : HartId} {a : Word}

theorem data_memZero (hs : m.DataSafe) (ha : a.toNat ∈ monitorData) {rid : Nat} (hrid : 6 ≤ rid) :
    (m.memZero (m.table.pmpRegionGetAddr rid) (m.table.pmpRegionGetSize rid)).mem a = m.mem a := by
  unfold PmpTable.pmpRegionGetAddr PmpTable.pmpRegionGetSize
  cases hv : m.table.isPmpRegionValid rid with
  | true =>
    have hfits := (hs.apart.separated.placed rid (hs.apart.exclusive hrid hv)).fits
    exact m.memZero_of_notMem hfits
      (Set.disjoint_right.mp (hs.apart.off_data hs.steady.kept hrid hv) ha)
  | false =>
    refine @memZero_of_notMem m 0 0 a (by decide) ?_
    simp [byteRange]

theorem data_createEnclave (hs : m.DataSafe) (ha : a.toNat ∈ monitorData) (env : Env)
    (args : CreateArgs) : (m.createEnclave C h env args).1.mem a = m.mem a := by
  rcases m.mem_createEnclave C h env args with hsame | ⟨t, E, region, t', U, shared, hE, hU, hmem⟩
  · rw [hsame]
  have hkept : t.Kept := kept_of_init hs.steady.kept hE
  have hkept' : t'.Kept := kept_of_init hkept hU
  have hapart : t'.Apart := (hs.apart.init hE).init hU
  have hv : t'.isPmpRegionValid shared = true := by
    rw [hU.adds.valid]
    simp
  have hshared : 6 ≤ shared := by
    by_contra hlt
    have hboot := (hkept.boot shared (by omega)).1
    rw [(getFreeRegionIdx_spec hU.slot).2.1] at hboot
    cases hboot
  have hoff := hapart.off_data hkept' hshared hv
  rw [hU.adds.regions, setRegion_self, PmpRegion.bytes, hU.addr, hU.size] at hoff
  have hfits := (wellPlaced_of_init hU).fits
  rw [hU.addr, hU.size] at hfits
  rw [hmem]
  exact m.memZero_of_notMem hfits (Set.disjoint_right.mp hoff ha)

theorem data_sbiSmCreateEnclave (hs : m.DataSafe) (ha : a.toNat ∈ monitorData) (env : Env)
    (createArgs : Word) : (m.sbiSmCreateEnclave C h env createArgs).1.mem a = m.mem a := by
  unfold sbiSmCreateEnclave
  dsimp only
  cases copyEnclaveCreateArgs env createArgs with
  | error st => rfl
  | ok args =>
    dsimp only
    generalize hm1 : (m.osmPmpSet h (PMP_R ||| PMP_W)).osmPmpSet h (PMP_X ||| PMP_W ||| PMP_R) = m1
    have hs1 : m1.DataSafe := by
      rw [← hm1]
      refine ⟨?_, hs.apart⟩
      rw [core_osmPmpSet, core_osmPmpSet]
      exact (hs.steady.osmPmpSet _).osmPmpSet _
    have hmem1 : m1.mem = m.mem := by rw [← hm1]; rfl
    rw [← hmem1, ← data_createEnclave (C := C) (h := h) hs1 ha env args]
    rcases m1.createEnclave C h env args with ⟨m2, _ | _⟩ <;> rfl

theorem DataSafe.destroyRegion (hs : m.DataSafe) (env : Env) (eid i : Nat) :
    (m.destroyRegion h env eid i).DataSafe := by
  have hcore := m.core_destroyRegion h eid env i
  refine ⟨hcore ▸ hs.steady.destroyRegion, ?_⟩
  rw [← core_table, hcore]
  exact Core.table_keeps_destroyRegion (fun rid ha => ha.free rid) hs.apart eid i

theorem data_destroyRegion (hs : m.DataSafe) (ha : a.toNat ∈ monitorData) (env : Env)
    (eid i : Nat) :
    (m.destroyRegion h env eid i).mem a = m.mem a := by
  unfold Monitor.destroyRegion
  dsimp only
  split
  · rfl
  next hty =>
  have hrid := hs.steady.refs eid i fun hno => hty (Or.inl hno)
  rw [← data_memZero hs ha hrid]
  exact congrFun (mem_pmpUnsetGlobal ..) a

theorem data_destroyRegions (hs : m.DataSafe) (ha : a.toNat ∈ monitorData) (env : Env) (eid : Nat) :
    (m.destroyRegions h env eid).mem a = m.mem a := by
  unfold destroyRegions
  refine (List.foldlRecOn (motive := fun m' : Monitor => m'.DataSafe ∧ m'.mem a = m.mem a) _ _
    ⟨hs, rfl⟩ ?_).2
  rintro m' ⟨hs', hmem'⟩ i _
  exact ⟨hs'.destroyRegion env eid i, (data_destroyRegion hs' ha env eid i).trans hmem'⟩

theorem data_destroyEnclave (hs : m.DataSafe) (ha : a.toNat ∈ monitorData) (env : Env) (eid : Nat) :
    (m.destroyEnclave h env eid).1.mem a = m.mem a := by
  unfold destroyEnclave
  split
  · have hs1 : (m.setEnclaveCore eid ((m.enclaves eid).setState .destroying)).DataSafe := by
      refine ⟨?_, hs.apart⟩
      rw [core_setState]
      exact hs.steady.setState
    have hregions := data_destroyRegions (h := h) hs1 ha env eid
    dsimp only
    generalize (m.setEnclaveCore eid ((m.enclaves eid).setState .destroying)).destroyRegions h env
      eid = m1 at hregions
    exact (congrFun (mem_destroyShared _ eid) a).trans hregions
  · rfl

/-- Only the two services write to memory outside regions. -/
theorem data_serve (hs : m.DataSafe) (ha : a.toNat ∈ monitorData) (regs : TrapRegs) (env : Env)
    {req : Request} (hatt : req ≠ .attest) (hseal : req ≠ .sealingKey) :
    (m.serve C h regs env req).1.mem a = m.mem a := by
  unfold Monitor.serve
  cases req with
  | refused status => rfl
  | create =>
    have hcreate := data_sbiSmCreateEnclave (C := C) (h := h) hs ha env regs.a0
    dsimp only
    generalize m.sbiSmCreateEnclave C h env regs.a0 = res at hcreate
    rcases res with ⟨m', _ | _⟩ <;> exact hcreate
  | destroy => exact data_destroyEnclave hs ha env _
  | run => exact congrFun (mem_runEnclave ..) a
  | resume => exact congrFun (mem_resumeEnclave ..) a
  | random => rfl
  | attest => exact absurd rfl hatt
  | sealingKey => exact absurd rfl hseal
  | stop => exact congrFun (mem_stopEnclave ..) a
  | exit => exact congrFun (mem_exitEnclave ..) a

end Calls

end Monitor

end Dorami.Sm
