import Dorami.Lib.Run
import Dorami.Monitor.Proofs.CoreProofs

/-!
# Creating and destroying, component by component

A PMP update sent to the other harts stops the enclaves they run. When no enclave is running it only
writes their registers, for the update and on the way back from OpenSBI, so that creating and
destroying an enclave can be written out for each hart.
-/

namespace Dorami.Sm

open Riscv Lib

/-- A hart that has received an update, when no enclave is running. -/
def IpiUpdate.received (u : IpiUpdate) (t : PmpTable) (hc : HartCore) : HartCore :=
  { hc with pmp := lockRegs (u.apply t hc.pmp), monEnclaveExecution := false }

namespace Core

variable {c : Core}

/-- No enclave is running. -/
def NoneRunning (c : Core) : Prop := ∀ e, (c.enclaves e).state ≠ .running

theorem NoneRunning.setState (hno : c.NoneRunning) {eid : Nat} {st : EnclaveState}
    (hst : st ≠ .running) : (c.setState eid st).NoneRunning := by
  intro e
  simp only [Core.setState, enclaves_setEnclave]
  split
  · exact hst
  · exact hno e

theorem leaveCall_refused (hno : c.NoneRunning) (h : HartId) :
    c.leaveCall h = c.setFlag h false := by
  have hstop : (c.enclaves (c.hart h).eid).stoppable = false := by
    simpa [EnclaveCore.stoppable] using hno _
  simp [leaveCall, hstop]

theorem deliverIpi_eq (hno : c.NoneRunning) (g : HartId) (u : IpiUpdate) :
    c.deliverIpi g u = c.setHart g (u.received c.table (c.hart g)) := by
  unfold deliverIpi IpiUpdate.received
  cases hflag : (c.hart g).monEnclaveExecution with
  | true =>
    simp only [if_true, leaveCall_refused hno, setFlag, setPmp]
    simp
  | false =>
    simp only [Bool.false_eq_true, if_false, setPmp]
    rw [← hflag]

theorem foldl_deliverIpi (u : IpiUpdate) (gs : List HartId) (hnd : gs.Nodup) :
    ∀ (c : Core), c.NoneRunning → gs.foldl (fun c g => c.deliverIpi g u) c =
      { c with hart := fun g => if g ∈ gs then u.received c.table (c.hart g) else c.hart g } := by
  induction gs with
  | nil => intro c _; simp
  | cons g gs ih =>
    intro c hno
    obtain ⟨hg, hnd'⟩ := List.nodup_cons.mp hnd
    rw [List.foldl_cons, deliverIpi_eq hno, ih hnd' (c.setHart g _) hno]
    simp only [setHart, List.mem_cons]
    congr 1
    funext g'
    by_cases hg' : g' = g
    · subst hg'
      simp [hg]
    · simp [hg']

theorem sendIpis_eq (hno : c.NoneRunning) (h : HartId) (u : IpiUpdate) :
    c.sendIpis h u =
      { c with hart := fun g => if g = h then c.hart g else u.received c.table (c.hart g) } := by
  have hnd : (Monitor.otherHarts h).Nodup := (List.nodup_finRange 4).filter _
  unfold sendIpis
  rw [foldl_deliverIpi u _ hnd c hno]
  congr 1
  funext g
  by_cases hg : g = h
  · simp [Monitor.otherHarts, hg]
  · simp [Monitor.otherHarts, hg]

/-! ## Creating -/

/-- The registers of the creating hart. -/
def buildPmp (t : PmpTable) (region : Nat) (r : PmpRegs) : PmpRegs :=
  let r := osmSet t (PMP_X ||| PMP_W ||| PMP_R) (osmSet t (PMP_R ||| PMP_W) r)
  let r := osmSet t (PMP_R ||| PMP_W) (pmpSetKeystone t r region EPMP_ALL_RW).1
  osmSet t (PMP_X ||| PMP_W ||| PMP_R) (pmpSetKeystone t r region PMP_NO_PERM).1

theorem build_eq (hno : c.NoneRunning) (h : HartId) (eid region sharedRegion : Nat)
    (params : RuntimeParams) :
    c.build h eid region sharedRegion params =
      { table := c.table
        enclaves := fun e => if e = eid then
            ((c.enclaves eid).create region sharedRegion params).setState .fresh else c.enclaves e
        hart := fun g =>
          if g = h then { c.hart h with pmp := buildPmp c.table region (c.hart h).pmp }
          else (IpiUpdate.mk region false PMP_NO_PERM).received c.table (c.hart g) } := by
  unfold build
  rw [sendIpis_eq hno]
  simp only [osmPmpSet, pmpSet, setPmp, setState, setEnclave, setHart, if_true, buildPmp]
  congr 1
  · funext e
    split <;> rfl
  · funext g
    by_cases hg : g = h <;> simp [hg]

/-! ## The regions of an enclave -/

/-- The region list `create_enclave` gives an enclave. -/
structure LiveRegions (regions : Nat → EnclaveRegion) : Prop where
  epm : regions 0 = ⟨6, .epm⟩
  utm : regions 1 = ⟨7, .utm⟩
  rest : ∀ i, 2 ≤ i → i < ENCLAVE_REGIONS_MAX → (regions i).type = .invalid

/-- All entries but the first are passed over when the enclave is destroyed. -/
theorem LiveRegions.skip {regions : Nat → EnclaveRegion} (hR : LiveRegions regions) {i : Nat}
    (h1 : 1 ≤ i) (hi : i < ENCLAVE_REGIONS_MAX) :
    (regions i).type = .invalid ∨ (regions i).type = .utm := by
  by_cases hi1 : i = 1
  · rw [hi1, hR.utm]; exact Or.inr rfl
  · exact Or.inl (hR.rest i (by omega) hi)

theorem setRegions_live {regions : Nat → EnclaveRegion} (hR : LiveRegions regions) (t : PmpTable)
    (p : Byte) (r : PmpRegs) :
    setRegions t regions p r = (pmpSetKeystone t (pmpSetKeystone t r 6 p).1 7 p).1 := by
  have hrest : ∀ (is : List Nat), (∀ i ∈ is, 2 ≤ i ∧ i < ENCLAVE_REGIONS_MAX) → ∀ r,
      is.foldl (fun r memid => if (regions memid).type ≠ .invalid then
        (pmpSetKeystone t r (regions memid).pmpRid p).1 else r) r = r := by
    intro is hmem r
    refine run_fixed is fun i hi => if_neg ?_
    rw [hR.rest i (hmem i hi).1 (hmem i hi).2]
    decide
  have hrange : List.range ENCLAVE_REGIONS_MAX = 0 :: 1 :: [2, 3, 4, 5, 6, 7] := rfl
  unfold setRegions
  rw [hrange, List.foldl_cons, List.foldl_cons, hrest _ (by decide), hR.epm, hR.utm]
  rfl

/-! ## Destroying -/

theorem destroyRegion_skip {h : HartId} {eid i : Nat}
    (hty : ((c.enclaves eid).regions i).type = .invalid ∨
      ((c.enclaves eid).regions i).type = .utm) :
    c.destroyRegion h eid i = c := if_pos hty

theorem enclaves_destroyRegion (hno : c.NoneRunning) {h : HartId} {eid i : Nat} :
    (c.destroyRegion h eid i).enclaves = c.enclaves := by
  unfold destroyRegion unsetGlobal
  dsimp only
  split
  · rfl
  · split
    · rw [sendIpis_eq (c := (c.pmpSet h _ _).pmpSet h _ _) hno]
      rfl
    · rfl

theorem table_destroyRegion (hno : c.NoneRunning) {h : HartId} {eid i : Nat} :
    (c.destroyRegion h eid i).table =
      if ((c.enclaves eid).regions i).type = .invalid ∨
          ((c.enclaves eid).regions i).type = .utm then
        c.table
      else (c.table.pmpRegionFree ((c.enclaves eid).regions i).pmpRid).1 := by
  unfold destroyRegion unsetGlobal
  dsimp only
  split
  · rfl
  · split
    · rw [sendIpis_eq (c := (c.pmpSet h _ _).pmpSet h _ _) hno]
      rfl
    · rfl

theorem foldl_destroyRegion_skip {h : HartId} {eid : Nat} (is : List Nat)
    (hty : ∀ i ∈ is, ((c.enclaves eid).regions i).type = .invalid ∨
      ((c.enclaves eid).regions i).type = .utm) :
    is.foldl (fun c i => c.destroyRegion h eid i) c = c :=
  run_fixed is fun i hi => destroyRegion_skip (hty i hi)

/-- The registers of the destroying hart after its accesses to the EPM. -/
def clearPmp (t : PmpTable) (r : PmpRegs) : PmpRegs :=
  (pmpSetKeystone t (pmpSetKeystone t r 6 EPMP_ALL_RW).1 6 PMP_NO_PERM).1

theorem destroyRegion_epm (hno : c.NoneRunning) {eid : Nat}
    (hepm : (c.enclaves eid).regions 0 = ⟨6, .epm⟩) (hv : c.table.isPmpRegionValid 6 = true)
    (h : HartId) :
    c.destroyRegion h eid 0 =
      { table := (c.table.pmpRegionFree 6).1
        enclaves := c.enclaves
        hart := fun g => if g = h then { c.hart h with pmp := clearPmp c.table (c.hart h).pmp }
          else (IpiUpdate.mk 6 true PMP_NO_PERM).received c.table (c.hart g) } := by
  have hset : (c.pmpSet h 6 EPMP_ALL_RW).pmpSet h 6 PMP_NO_PERM =
      c.setHart h { c.hart h with pmp := clearPmp c.table (c.hart h).pmp } := by
    simp [pmpSet, setPmp, clearPmp]
  unfold destroyRegion unsetGlobal
  simp only [hepm]
  rw [if_neg (by decide), hset, table_setHart, if_pos hv,
    sendIpis_eq (c := c.setHart h _) hno]
  simp only [regionFree, setTable, setHart]
  congr 1
  funext g
  by_cases hg : g = h <;> simp [hg]

/-- Only the EPM is cleared and released in the loop. -/
theorem destroyRegions_eq (hno : c.NoneRunning) {eid : Nat}
    (hR : LiveRegions (c.enclaves eid).regions) (hv : c.table.isPmpRegionValid 6 = true)
    (h : HartId) :
    c.destroyRegions h eid =
      { table := (c.table.pmpRegionFree 6).1
        enclaves := c.enclaves
        hart := fun g => if g = h then { c.hart h with pmp := clearPmp c.table (c.hart h).pmp }
          else (IpiUpdate.mk 6 true PMP_NO_PERM).received c.table (c.hart g) } := by
  have hrange : List.range ENCLAVE_REGIONS_MAX = 0 :: [1, 2, 3, 4, 5, 6, 7] := rfl
  have hty : ∀ i ∈ [1, 2, 3, 4, 5, 6, 7], ((c.enclaves eid).regions i).type = .invalid ∨
      ((c.enclaves eid).regions i).type = .utm := by
    intro i hi
    exact hR.skip (by simp at hi; omega) (by simp [ENCLAVE_REGIONS_MAX] at hi ⊢; omega)
  unfold destroyRegions
  rw [hrange, List.foldl_cons, destroyRegion_epm hno hR.epm hv]
  exact foldl_destroyRegion_skip _ hty

theorem destroyShared_eq {eid : Nat} (hR : LiveRegions (c.enclaves eid).regions) :
    c.destroyShared eid = c.regionFree 7 := by
  have hfind : (List.range ENCLAVE_REGIONS_MAX).find? (fun i =>
      ((c.enclaves eid).regions i).type == .utm) = some 1 := by
    have hrange : List.range ENCLAVE_REGIONS_MAX = 0 :: 1 :: [2, 3, 4, 5, 6, 7] := rfl
    rw [hrange, List.find?_cons_of_neg, List.find?_cons_of_pos]
    · rw [hR.utm]; rfl
    · rw [hR.epm]; decide
  unfold destroyShared
  rw [hfind]
  dsimp only
  rw [hR.utm]

/-- The entry a destroyed enclave leaves. -/
def destroyed (en : EnclaveCore) : EnclaveCore := (en.setState .destroying).clear.setState .invalid

theorem destroyCall_eq (hno : c.NoneRunning) {eid : Nat} (hR : LiveRegions (c.enclaves eid).regions)
    (hv : c.table.isPmpRegionValid 6 = true)
    (hok : (decide (eid < ENCL_MAX) && (c.enclaves eid).destroyable) = true) (h : HartId) :
    c.destroyCall h eid =
      let t := ((c.table.pmpRegionFree 6).1.pmpRegionFree 7).1
      { table := t
        enclaves := fun e => if e = eid then destroyed (c.enclaves eid) else c.enclaves e
        hart := fun g => if g = h then
            { c.hart h with pmp := osmSet t EPMP_SU_RWX (clearPmp c.table (c.hart h).pmp) }
          else (IpiUpdate.mk 6 true PMP_NO_PERM).received c.table (c.hart g) } := by
  have hno1 : (c.setState eid .destroying).NoneRunning := hno.setState (by decide)
  have hR1 : LiveRegions ((c.setState eid .destroying).enclaves eid).regions := by
    simp only [setState, enclaves_setEnclave, if_true]
    exact hR
  unfold destroyCall
  rw [if_pos hok]
  dsimp only
  rw [destroyRegions_eq hno1 hR1 hv, destroyShared_eq]
  · simp only [regionFree, setTable, setState, setEnclave, osmPmpSet, setPmp, setHart, if_true]
    congr 1
    · funext e
      by_cases he : e = eid
      · simp [he, destroyed]
      · simp [he]
    · funext g
      by_cases hg : g = h <;> simp [hg]
  · exact hR1

theorem enclaves_destroyRegions (hno : c.NoneRunning) {h : HartId} {eid : Nat} :
    (c.destroyRegions h eid).enclaves = c.enclaves := by
  unfold destroyRegions
  refine List.foldlRecOn (motive := fun c' : Core => c'.enclaves = c.enclaves) _ _ rfl ?_
  intro c' hc i _
  have hno' : c'.NoneRunning := by
    unfold NoneRunning
    rw [hc]
    exact hno
  rw [enclaves_destroyRegion hno', hc]

theorem enclaves_destroyShared {eid : Nat} : (c.destroyShared eid).enclaves = c.enclaves := by
  unfold destroyShared
  split <;> rfl

/-- The entry a destroy call leaves. -/
theorem enclaves_destroyCall (hno : c.NoneRunning) {h : HartId} {eid : Nat} (hlt : eid < ENCL_MAX)
    (hok : (c.enclaves eid).destroyable = true) :
    (c.destroyCall h eid).enclaves eid = destroyed (c.enclaves eid) := by
  have hno1 : (c.setState eid .destroying).NoneRunning := hno.setState (by decide)
  have hen : (((c.setState eid .destroying).destroyRegions h eid).destroyShared eid).enclaves eid =
      (c.enclaves eid).setState .destroying := by
    rw [enclaves_destroyShared, enclaves_destroyRegions hno1, setState, enclaves_setEnclave,
      if_pos rfl]
  unfold destroyCall
  rw [hok, decide_eq_true hlt, Bool.true_and, if_pos rfl]
  dsimp only
  generalize ((c.setState eid .destroying).destroyRegions h eid).destroyShared eid = c1 at hen
  simp only [osmPmpSet, setPmp, enclaves_setHart, setState, enclaves_setEnclave, if_true, hen]
  rfl

end Core

end Dorami.Sm
