import Dorami.Lib.Run
import Dorami.Monitor.Proofs.CoreProofs
import Dorami.Monitor.Properties

/-!
# The region table along a run

An event changes the region table by creating the two regions a create call asks for and by
releasing regions, and by nothing else. A property of tables that survives these is an invariant of
the monitor.
-/

namespace Dorami.Sm

open Riscv Lib

/-- The property survives what the event may do to the table. -/
structure TableRule (P : PmpTable → Prop) (ev : Event) : Prop where
  epm : ∀ {h a t t' rid}, ev = .create h (some a) → P t →
    t.pmpRegionInit a.epmPaddr a.epmSize .any false = (t', .ok rid) → P t'
  utm : ∀ {h a t t' rid}, ev = .create h (some a) → P t →
    t.pmpRegionInit a.utmPaddr a.utmSize .bottom false = (t', .ok rid) → P t'
  free : ∀ {t} rid, P t → P (t.pmpRegionFree rid).1

namespace Core

variable {c : Core} {h : HartId} {P : PmpTable → Prop} {ev : Event}

theorem table_leaveCall : (c.leaveCall h).table = c.table := by
  unfold leaveCall
  dsimp only
  split <;> rfl

theorem table_deliverIpi (u : IpiUpdate) : (c.deliverIpi h u).table = c.table := by
  unfold deliverIpi
  dsimp only
  split
  · exact table_leaveCall
  · rfl

theorem table_sendIpis (u : IpiUpdate) : (c.sendIpis h u).table = c.table := by
  unfold sendIpis
  refine List.foldlRecOn (motive := fun c' : Core => c'.table = c.table) _ _ rfl ?_
  intro c' hc g _
  rw [table_deliverIpi, hc]

theorem table_build (eid region sharedRegion : Nat) (params : RuntimeParams) :
    (c.build h eid region sharedRegion params).table = c.table :=
  table_sendIpis _

theorem table_createEnclave {a : CreateArgs} (hr : TableRule P (.create h (some a)))
    (hc : P c.table) : P (c.createEnclave h a).table := by
  unfold createEnclave
  split
  · exact hc
  split
  · exact hc
  split
  · exact hc
  next t region hepm =>
  have ht : P t := hr.epm rfl hc hepm
  split
  · next t' e hutm =>
    obtain rfl := pmpRegionInit_error hutm
    exact hr.free region ht
  · next t' shared hutm =>
    rw [table_build]
    exact hr.utm rfl ht hutm

theorem table_createCall {args : Option CreateArgs} (hr : TableRule P (.create h args))
    (hc : P c.table) : P (c.createCall h args).table := by
  cases args with
  | none => exact hc
  | some a => exact table_createEnclave hr hc

theorem table_keeps_destroyRegion (hfree : ∀ {t} rid, P t → P (t.pmpRegionFree rid).1)
    (hc : P c.table) (eid i : Nat) : P (c.destroyRegion h eid i).table := by
  unfold destroyRegion unsetGlobal
  dsimp only
  split
  · exact hc
  refine hfree _ ?_
  split
  · rw [table_sendIpis]
    exact hc
  · exact hc

theorem table_destroyShared (hfree : ∀ {t} rid, P t → P (t.pmpRegionFree rid).1)
    (hc : P c.table) (eid : Nat) : P (c.destroyShared eid).table := by
  unfold destroyShared
  split
  · exact hfree _ hc
  · exact hc

theorem table_destroyCall (hfree : ∀ {t} rid, P t → P (t.pmpRegionFree rid).1)
    (hc : P c.table) (eid : Nat) : P (c.destroyCall h eid).table := by
  have hregions : P ((c.setState eid .destroying).destroyRegions h eid).table := by
    unfold destroyRegions
    refine List.foldlRecOn (motive := fun c' : Core => P c'.table) _ _ hc ?_
    intro c' hc' i _
    exact table_keeps_destroyRegion hfree hc' eid i
  have hshared := table_destroyShared hfree hregions eid
  unfold destroyCall
  split
  · dsimp only
    generalize ((c.setState eid .destroying).destroyRegions h eid).destroyShared eid = c1 at hshared
    exact hshared
  · exact hc

/-- One event. -/
theorem table_apply (hr : TableRule P ev) (hc : P c.table) : P (c.apply ev).table := by
  cases ev with
  | other => exact hc
  | create h args =>
    simp only [apply]
    split
    · exact hc
    · exact table_createCall hr hc
  | destroy h eid =>
    simp only [apply]
    split
    · exact hc
    · exact table_destroyCall hr.free hc eid
  | run h eid | resume h eid =>
    simp only [apply, enterCall]
    split
    · exact hc
    · split <;> exact hc
  | attest h size copied =>
    simp only [apply, attestCall]
    repeat' split
    all_goals exact hc
  | sealing h derived =>
    simp only [apply, sealingCall]
    repeat' split
    all_goals exact hc
  | leave h =>
    simp only [apply]
    split
    · rw [table_leaveCall]
      exact hc
    · exact hc
  | interrupt h =>
    simp only [apply]
    split
    · rw [table_leaveCall]
      exact hc
    · exact hc
  | forward h => exact hc
  | hang h => exact hc
  | osbiReturn h mode =>
    simp only [apply, osbiReturn]
    repeat' split
    all_goals exact hc

theorem table_step (hr : TableRule P ev) (hc : P c.table) : P (c.step ev).table := by
  unfold step
  split
  · exact table_apply hr hc
  · exact hc

end Core

/-! ## Unused slots -/

/-- A slot without a region is as `region_clear_all` leaves it. -/
def PmpTable.Clean (t : PmpTable) : Prop :=
  ∀ i, t.isPmpRegionValid i = false → t.regions i = PmpRegion.clear

section Clean

variable {t t' : PmpTable} {rid : Nat}

theorem clean_of_removes (hc : t.Clean) (h : Removes t t' rid) : t'.Clean := by
  intro i hv
  rw [h.regions]
  by_cases hir : i = rid
  · rw [hir, setRegion_self]
  · rw [h.valid, bne_iff_ne.mpr hir, Bool.and_true] at hv
    rw [setRegion_ne t _ hir]
    exact hc i hv

theorem PmpTable.Clean.free (hc : t.Clean) (rid : Nat) : (t.pmpRegionFree rid).1.Clean := by
  cases hv : t.isPmpRegionValid rid with
  | false =>
    rw [pmpRegionFree_invalid hv]
    exact hc
  | true => exact clean_of_removes hc (pmpRegionFree_removes hv)

end Clean

/-! ## Regions of one entry -/

section NoTor

variable {t t' : PmpTable} {rid : Nat}

theorem hasTor_eq_false : t.hasTor = false ↔ ∀ i < PMP_MAX_N_REGION,
    t.isPmpRegionValid i = true → (t.regions i).addrmode ≠ PMP_A_TOR := by
  unfold PmpTable.hasTor
  simp

theorem hasTor_of_adds {r : PmpRegion} (ht : t.hasTor = false) (h : Adds t t' rid r)
    (hr : r.addrmode ≠ PMP_A_TOR) : t'.hasTor = false := by
  rw [hasTor_eq_false] at ht ⊢
  intro i hi hv
  rw [h.regions]
  by_cases hir : i = rid
  · rw [hir, setRegion_self]
    exact hr
  · rw [h.valid, beq_eq_false_iff_ne.mpr hir, Bool.or_false] at hv
    rw [setRegion_ne t r hir]
    exact ht i hi hv

theorem hasTor_free (ht : t.hasTor = false) (rid : Nat) :
    (t.pmpRegionFree rid).1.hasTor = false := by
  cases hv : t.isPmpRegionValid rid with
  | false =>
    rw [pmpRegionFree_invalid hv]
    exact ht
  | true =>
    have h := pmpRegionFree_removes hv
    rw [hasTor_eq_false] at ht ⊢
    intro i hi hvalid
    rw [h.valid, Bool.and_eq_true, bne_iff_ne] at hvalid
    rw [h.regions, setRegion_ne t _ hvalid.2]
    exact ht i hi hvalid.1

/-- The bottom region is never a TOR region, so what counts is the EPM a create call asks for. -/
theorem hasTor_rule {ev : Event} (hnap : ∀ h a, ev = .create h (some a) →
    isNapotRange a.epmPaddr a.epmSize = true) : TableRule (fun t => t.hasTor = false) ev := by
  have hne : PMP_A_NAPOT ≠ PMP_A_TOR := by decide
  refine ⟨fun hev ht h => ?_, fun _ ht h => ?_, fun rid ht => hasTor_free ht rid⟩
  · obtain ⟨r, hr⟩ := pmpRegionInit_ok h
    refine hasTor_of_adds ht hr.adds ?_
    rcases hr.place with ⟨-, hmode, -⟩ | ⟨hno, -, -⟩
    · rwa [hmode]
    · rw [hnap _ _ hev] at hno
      cases hno
  · obtain ⟨r, hr⟩ := pmpRegionInit_ok h
    refine hasTor_of_adds ht hr.adds ?_
    rcases hr.place with ⟨-, hmode, -⟩ | ⟨-, -, i, htor, -⟩
    · rwa [hmode]
    · cases htor

theorem hasTor_bootTable : bootTable.hasTor = false := by decide +kernel

end NoTor

end Dorami.Sm
