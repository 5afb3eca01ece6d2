import Dorami.Monitor.Contexts
import Dorami.Monitor.Proofs.MemoryStepProofs
import Dorami.Monitor.Proofs.RefineProofs
import Dorami.Monitor.Proofs.TableProofs
import Dorami.Monitor.Proofs.ViewProofs

/-!
# What every run keeps

The regions of `sm_init` stay in the table, and the enclaves refer to later ones only. So whatever
the monitor programs for an enclave or for the OS goes to the registers from 5 on, and the first
five entries of each hart are those of `sm_init` or of the two constants for `pmpcfg0`.
-/

namespace Dorami.Sm

open Riscv Lib

/-- The first five PMP entries are the same. -/
structure LowSame (r r' : PmpRegs) : Prop where
  cfg : ∀ n < 5, cfgByte (r'.pmpcfg 0) n = cfgByte (r.pmpcfg 0) n
  addr : ∀ n < 5, r'.pmpaddr n = r.pmpaddr n

section Low

variable {t : PmpTable} {r r' r'' : PmpRegs} {rid : Nat}

theorem LowSame.refl : LowSame r r := ⟨fun _ _ => rfl, fun _ _ => rfl⟩

theorem LowSame.trans (h : LowSame r r') (h' : LowSame r' r'') : LowSame r r'' :=
  ⟨fun n hn => (h'.cfg n hn).trans (h.cfg n hn), fun n hn => (h'.addr n hn).trans (h.addr n hn)⟩

theorem Frame.lowSame {R : PmpRegion} (hf : Frame R r r') (hR : ∀ n, R.Occupies n → 5 ≤ n) :
    LowSame r r' := by
  have hno : ∀ n < 5, ¬ R.Occupies n := fun n hn hocc => absurd (hR n hocc) (by omega)
  exact ⟨fun n hn => hf.cfg n (by omega) (hno n hn), fun n hn => hf.addr n (hno n hn)⟩

/-- The registers of the OS region and of later ones. -/
theorem PmpTable.Kept.high (hk : t.Kept) (hrid : 5 ≤ rid) (hv : t.isPmpRegionValid rid = true) :
    ∀ n, (t.regions rid).Occupies n → 5 ≤ n := by
  intro n hocc
  by_cases h6 : 6 ≤ rid
  · exact (hk.later rid h6 hv).2 n hocc
  · obtain rfl : rid = 5 := by omega
    rw [(hk.boot 5 (by decide)).2, bootTable_occupies (by decide)] at hocc
    rw [hocc]
    decide

theorem lowSame_set (hk : t.Kept) (hrid : 5 ≤ rid) (p : Byte) :
    LowSame r (pmpSetKeystone t r rid p).1 := by
  cases hv : t.isPmpRegionValid rid with
  | true => exact (pmpSetKeystone_res hv (hk.encodable hv).idx p).frame.lowSame (hk.high hrid hv)
  | false =>
    unfold pmpSetKeystone
    rw [hv]
    exact .refl

theorem lowSame_unset (hk : t.Kept) (hrid : 5 ≤ rid) : LowSame r (pmpUnset t r rid).1 := by
  cases hv : t.isPmpRegionValid rid with
  | true => exact (pmpUnset_res hv (hk.encodable hv).idx).frame.lowSame (hk.high hrid hv)
  | false =>
    unfold pmpUnset
    rw [hv]
    exact .refl

theorem lowSame_setRegions {regions : Nat → EnclaveRegion} (hk : t.Kept)
    (hrefs : ∀ i, (regions i).type ≠ .invalid → 6 ≤ (regions i).pmpRid) (p : Byte) :
    LowSame r (setRegions t regions p r) := by
  unfold setRegions
  refine List.foldlRecOn (motive := fun r' => LowSame r r') _ _ .refl ?_
  intro r' hr' i _
  split
  · next hty =>
    have := hrefs i hty
    exact hr'.trans (lowSame_set hk (by omega) p)
  · exact hr'

end Low

namespace Core

/-- The registers of a hart below 5: always the addresses of `sm_init`, and the configuration of the
monitor while S/U mode runs. -/
structure LowRegs (hc : HartCore) : Prop where
  addr : ∀ n < 5, hc.pmp.pmpaddr n = (bootTable.regions n).pmpaddrVal
  lock : hc.mode = .su → ∀ n < 5, cfgByte (hc.pmp.pmpcfg 0) n = cfgByte LOCK_OSBI n

/-- The invariant of all runs. -/
structure Steady (c : Core) : Prop where
  kept : c.table.Kept
  refs : ∀ e i, ((c.enclaves e).regions i).type ≠ .invalid → 6 ≤ ((c.enclaves e).regions i).pmpRid
  low : ∀ g, LowRegs (c.hart g)

variable {c : Core} {h : HartId} {eid : Nat}

/-! ## Updates -/

theorem Steady.setHart (hs : Steady c) {hc : HartCore} (hl : LowRegs hc) :
    Steady (c.setHart h hc) := by
  refine ⟨hs.kept, hs.refs, fun g => ?_⟩
  unfold Core.setHart
  dsimp only
  split
  · exact hl
  · exact hs.low g

theorem LowRegs.set {hc : HartCore} (hl : LowRegs hc) {r : PmpRegs} (hr : LowSame hc.pmp r)
    {mode : Mode} (hmode : mode = .su → hc.mode = .su) {inside flag started : Bool} :
    LowRegs ⟨mode, r, inside, eid, flag, started⟩ :=
  ⟨fun n hn => (hr.addr n hn).trans (hl.addr n hn),
    fun hsu n hn => (hr.cfg n hn).trans (hl.lock (hmode hsu) n hn)⟩

theorem Steady.setPmp (hs : Steady c) {r : PmpRegs} (hr : LowSame (c.hart h).pmp r) :
    Steady (c.setPmp h r) :=
  hs.setHart ((hs.low h).set hr id)

/-- Whatever the configuration was, `LOCK_OSBI` is the monitor's. -/
theorem Steady.setPmp_locked (hs : Steady c) {r : PmpRegs} (hr : LowSame (c.hart h).pmp r) :
    Steady (c.setPmp h (lockRegs r)) :=
  hs.setHart ⟨fun n hn => (hr.addr n hn).trans ((hs.low h).addr n hn), fun _ _ _ => rfl⟩

theorem Steady.setEnclave (hs : Steady c) {en : EnclaveCore}
    (hrefs : ∀ i, (en.regions i).type ≠ .invalid → 6 ≤ (en.regions i).pmpRid) :
    Steady (c.setEnclave eid en) := by
  refine ⟨hs.kept, fun e i => ?_, hs.low⟩
  rw [enclaves_setEnclave]
  split
  · exact hrefs i
  · exact hs.refs e i

theorem Steady.setTable (hs : Steady c) {t : PmpTable} (ht : t.Kept) : Steady (c.setTable t) :=
  ⟨ht, hs.refs, hs.low⟩

theorem Steady.pmpSet (hs : Steady c) {rid : Nat} (hrid : 5 ≤ rid) (p : Byte) :
    Steady (c.pmpSet h rid p) := hs.setPmp (lowSame_set hs.kept hrid p)

theorem Steady.osmPmpSet (hs : Steady c) (p : Byte) : Steady (c.osmPmpSet h p) :=
  hs.setPmp (lowSame_set hs.kept (by decide) p)

theorem Steady.pmpSetRegions (hs : Steady c) (eid : Nat) (p : Byte) :
    Steady (c.pmpSetRegions h eid p) :=
  hs.setPmp (lowSame_setRegions hs.kept (hs.refs eid) p)

theorem Steady.setState (hs : Steady c) {st : EnclaveState} : Steady (c.setState eid st) :=
  hs.setEnclave (hs.refs eid)

theorem Steady.setFlag (hs : Steady c) {b : Bool} : Steady (c.setFlag h b) :=
  hs.setHart ((hs.low h).set .refl id)

theorem Steady.enter (hs : Steady c) : Steady (c.enter h eid) := by
  have hs1 : Steady (c.setEnclave eid (c.enclaves eid).enter) := hs.setEnclave (hs.refs eid)
  have hs2 := (hs1.osmPmpSet (h := h) PMP_NO_PERM).pmpSetRegions (h := h) eid
    (PMP_X ||| PMP_W ||| PMP_R)
  exact hs2.setHart ((hs2.low h).set .refl id)

theorem Steady.leave (hs : Steady c) : Steady (c.leave h eid) := by
  have hs1 : Steady (c.setEnclave eid (c.enclaves eid).leave) := hs.setEnclave (hs.refs eid)
  have hs2 := (hs1.pmpSetRegions (h := h) eid PMP_NO_PERM).osmPmpSet (h := h) EPMP_SU_RWX
  exact hs2.setHart ((hs2.low h).set .refl id)

theorem Steady.enterCall (hs : Steady c) {test : EnclaveCore → Bool} :
    Steady (c.enterCall h test eid) := by
  unfold Core.enterCall
  split
  · exact hs.enter.setFlag
  · exact hs.setFlag

theorem Steady.leaveCall (hs : Steady c) : Steady (c.leaveCall h) := by
  unfold Core.leaveCall
  dsimp only
  split
  · exact hs.leave.setFlag
  · exact hs.setFlag

/-! ## Updates of other harts -/

theorem lowSame_apply {t : PmpTable} {r : PmpRegs} {u : IpiUpdate} (hk : t.Kept)
    (hu : 5 ≤ u.regionIdx) : LowSame r (u.apply t r) := by
  unfold IpiUpdate.apply
  split
  · exact lowSame_unset hk hu
  · exact lowSame_set hk hu u.perm

theorem Steady.deliverIpi (hs : Steady c) {u : IpiUpdate} (hu : 5 ≤ u.regionIdx) :
    Steady (c.deliverIpi h u) := by
  unfold Core.deliverIpi
  dsimp only
  split
  · exact hs.leaveCall.setPmp_locked (lowSame_apply hs.leaveCall.kept hu)
  · exact hs.setPmp_locked (lowSame_apply hs.kept hu)

theorem Steady.sendIpis (hs : Steady c) {u : IpiUpdate} (hu : 5 ≤ u.regionIdx) :
    Steady (c.sendIpis h u) :=
  List.foldlRecOn (motive := Steady) _ _ hs fun _ hc _ _ => hc.deliverIpi hu

theorem Steady.unsetGlobal (hs : Steady c) {rid : Nat} (hrid : 5 ≤ rid) :
    Steady (c.unsetGlobal h rid) := by
  unfold Core.unsetGlobal
  split
  · exact hs.sendIpis hrid
  · exact hs

/-! ## Creating and destroying -/

theorem Steady.build (hs : Steady c) {region shared : Nat} (hregion : 6 ≤ region)
    (hshared : 6 ≤ shared) {params : RuntimeParams} :
    Steady (c.build h eid region shared params) := by
  have hs1 : Steady (c.sendIpis h ⟨region, false, PMP_NO_PERM⟩) :=
    hs.sendIpis (show 5 ≤ region by omega)
  unfold Core.build
  dsimp only
  generalize c.sendIpis h ⟨region, false, PMP_NO_PERM⟩ = c1 at hs1
  have hs2 := (hs1.osmPmpSet (h := h) (PMP_R ||| PMP_W)).osmPmpSet (h := h)
    (PMP_X ||| PMP_W ||| PMP_R)
  generalize (c1.osmPmpSet h (PMP_R ||| PMP_W)).osmPmpSet h (PMP_X ||| PMP_W ||| PMP_R) = c2 at hs2
  have hs3 : Steady (c2.setEnclave eid ((c2.enclaves eid).create region shared params)) := by
    refine hs2.setEnclave fun i => ?_
    unfold EnclaveCore.create
    dsimp only
    split
    · exact fun _ => hregion
    split
    · exact fun _ => hshared
    · exact hs2.refs eid i
  have h5 : 5 ≤ region := by omega
  exact ((((hs3.pmpSet h5 _).osmPmpSet _).pmpSet h5 _).osmPmpSet _).setState

/-- A new region has one of the slots above those of `sm_init`. -/
theorem slot_ge {t t' : PmpTable} {start size : Word} {pri : PmpPriority} {ao : Bool} {rid : Nat}
    (hk : t.Kept) (h : t.pmpRegionInit start size pri ao = (t', .ok rid)) : 6 ≤ rid := by
  obtain ⟨r, hr⟩ := pmpRegionInit_ok h
  by_contra hlt
  have hv := (hk.boot rid (by omega)).1
  rw [(getFreeRegionIdx_spec hr.slot).2.1] at hv
  exact absurd hv (by decide)

theorem kept_init {t t' : PmpTable} {start size : Word} {pri : PmpPriority} {rid : Nat}
    (hk : t.Kept) (h : t.pmpRegionInit start size pri false = (t', .ok rid)) : t'.Kept := by
  obtain ⟨r, hr⟩ := pmpRegionInit_ok h
  exact kept_of_init hk hr

theorem kept_free {t : PmpTable} (hk : t.Kept) {rid : Nat} (hrid : 6 ≤ rid) :
    (t.pmpRegionFree rid).1.Kept := by
  cases hv : t.isPmpRegionValid rid with
  | true => exact kept_of_removes hk hrid hv (pmpRegionFree_removes hv)
  | false =>
    rw [pmpRegionFree_invalid hv]
    exact hk

theorem Steady.createEnclave (hs : Steady c) {args : CreateArgs} :
    Steady (c.createEnclave h args) := by
  unfold Core.createEnclave
  split
  · exact hs
  split
  · exact hs
  split
  · exact hs
  next t region hepm =>
  have ht : t.Kept := kept_init hs.kept hepm
  have hregion := slot_ge hs.kept hepm
  split
  · next t' e hutm =>
    obtain rfl := pmpRegionInit_error hutm
    exact hs.setTable (kept_free ht hregion)
  · next t' shared hutm =>
    exact (hs.setState.setTable (kept_init ht hutm)).build hregion (slot_ge ht hutm)

theorem Steady.createCall (hs : Steady c) {args : Option CreateArgs} :
    Steady (c.createCall h args) := by
  unfold Core.createCall
  dsimp only
  cases args with
  | none => exact (hs.osmPmpSet _).osmPmpSet _
  | some a => exact ((hs.osmPmpSet _).osmPmpSet _).createEnclave.osmPmpSet _

theorem Steady.destroyRegion (hs : Steady c) {i : Nat} : Steady (c.destroyRegion h eid i) := by
  unfold Core.destroyRegion
  dsimp only
  split
  · exact hs
  next hty =>
  have hrid := hs.refs eid i fun hno => hty (Or.inl hno)
  generalize ((c.enclaves eid).regions i).pmpRid = rid at hrid
  have h5 : 5 ≤ rid := by omega
  have hs1 := ((hs.pmpSet (h := h) h5 EPMP_ALL_RW).pmpSet (h := h) h5 PMP_NO_PERM).unsetGlobal
    (h := h) h5
  exact hs1.setTable (kept_free hs1.kept hrid)

theorem Steady.destroyShared (hs : Steady c) (eid : Nat) : Steady (c.destroyShared eid) := by
  unfold Core.destroyShared
  split
  · next i hfind =>
    have hty : ((c.enclaves eid).regions i).type = .utm := by simpa using List.find?_some hfind
    exact hs.setTable (kept_free hs.kept (hs.refs eid i (by rw [hty]; decide)))
  · exact hs

theorem Steady.destroyCall (hs : Steady c) : Steady (c.destroyCall h eid) := by
  unfold Core.destroyCall
  split
  · have hregions : Steady ((c.setState eid .destroying).destroyRegions h eid) :=
      List.foldlRecOn (motive := Steady) _ _ hs.setState fun _ hc _ _ => hc.destroyRegion
    have hshared := hregions.destroyShared eid
    generalize ((c.setState eid .destroying).destroyRegions h eid).destroyShared eid = c1 at hshared
    have hclear : Steady (c1.setEnclave eid (c1.enclaves eid).clear) := by
      refine hshared.setEnclave fun i hty => ?_
      unfold EnclaveCore.clear at hty ⊢
      dsimp only at hty ⊢
      split at hty
      · exact absurd rfl hty
      · next hi =>
        rw [if_neg hi]
        exact hshared.refs eid i hty
    exact hclear.setState.osmPmpSet _
  · exact hs

/-! ## Services and OpenSBI -/

theorem Steady.attestCall (hs : Steady c) {size : Word} {copied : Bool} :
    Steady (c.attestCall h size copied) := by
  unfold Core.attestCall
  dsimp only
  split
  · exact hs
  split
  · exact hs
  split
  · exact (hs.pmpSetRegions _ _).pmpSetRegions _ _
  · exact hs.pmpSetRegions _ _

theorem Steady.sealingCall (hs : Steady c) {derived : Bool} : Steady (c.sealingCall h derived) := by
  unfold Core.sealingCall
  dsimp only
  split
  · exact (((hs.pmpSetRegions _ _).pmpSetRegions _ _).pmpSetRegions _ _).pmpSetRegions _ _
  · exact (hs.pmpSetRegions _ _).pmpSetRegions _ _

theorem Steady.forward (hs : Steady c) : Steady (c.forward h) := by
  have heq : c.forward h = c.setHart h
      { c.hart h with mode := .osbi, pmp := cfgRegs UNLOCK_OSBI ((c.hart h).pmp) } := by
    simp [Core.forward, writePmpcfg0, Core.setPmp, setMode, cfgRegs]
  rw [heq]
  exact hs.setHart ⟨(hs.low h).addr, fun hsu => by cases hsu⟩

/-- On the way back the first five entries are locked again, whatever OpenSBI did to them. -/
theorem lowRegs_locked {hc : HartCore} (hl : LowRegs hc) {r : PmpRegs}
    (hr : LowSame (lockRegs hc.pmp) r) {mode : Mode} {inside flag started : Bool} {eid : Nat} :
    LowRegs ⟨mode, r, inside, eid, flag, started⟩ :=
  ⟨fun n hn => (hr.addr n hn).trans (hl.addr n hn), fun _ n hn => hr.cfg n hn⟩

theorem Steady.osbiReturn (hs : Steady c) {mode : Mode} : Steady (c.osbiReturn h mode) := by
  have hlow := hs.low h
  have hlock : (c.writePmpcfg0 h LOCK_OSBI) =
      c.setHart h { c.hart h with pmp := lockRegs (c.hart h).pmp } := rfl
  unfold Core.osbiReturn
  dsimp only
  rw [hlock, hart_setHart, if_pos rfl]
  split
  · rw [setMode]
    split
    · rw [fixPermissions_eq]
      simp only [Core.setPmp, setHart_setHart, hart_setHart, if_pos]
      refine hs.setHart (lowRegs_locked hlow ?_)
      exact (lowSame_set hs.kept (by decide) _).trans (lowSame_setRegions hs.kept (hs.refs _) _)
    · simp only [setHart_setHart, hart_setHart, if_pos]
      exact hs.setHart (lowRegs_locked hlow .refl)
  · simp only [setMode, setHart_setHart, hart_setHart, if_pos]
    exact hs.setHart (lowRegs_locked hlow .refl)

/-! ## Runs -/

theorem Steady.apply (hs : Steady c) (ev : Event) : Steady (c.apply ev) := by
  cases ev with
  | other => exact hs
  | create h args =>
    simp only [Core.apply]
    split
    · exact hs
    · exact hs.createCall
  | destroy h eid =>
    simp only [Core.apply]
    split
    · exact hs
    · exact hs.destroyCall
  | run h eid | resume h eid =>
    simp only [Core.apply]
    split
    · exact hs
    · exact hs.enterCall
  | attest h size copied =>
    simp only [Core.apply]
    split
    · exact hs.attestCall
    · exact hs
  | sealing h derived =>
    simp only [Core.apply]
    split
    · exact hs.sealingCall
    · exact hs
  | leave h =>
    simp only [Core.apply]
    split
    · exact hs.leaveCall
    · exact hs
  | interrupt h =>
    simp only [Core.apply]
    split
    · exact hs.leaveCall
    · exact hs.forward
  | forward h => exact hs.forward
  | hang h => exact hs.setHart ⟨(hs.low h).addr, fun hsu => by cases hsu⟩
  | osbiReturn h mode => exact hs.osbiReturn

theorem Steady.step (hs : Steady c) (ev : Event) : Steady (c.step ev) := by
  unfold Core.step
  split
  · exact hs.apply ev
  · exact hs

end Core

namespace Monitor

variable (C : Crypto)

theorem steady_handedOver (mem : Word → Byte) (keys : Keys) :
    (handedOver mem keys).core.Steady := by
  have haddr : ∀ n : Fin 5, handedHart.pmp.pmpaddr n = (bootTable.regions n).pmpaddrVal := by decide
  refine ⟨kept_bootTable, fun e i hty => absurd rfl hty, fun g => ⟨fun n hn => haddr ⟨n, hn⟩, ?_⟩⟩
  intro hsu
  cases hsu

/-- Every state that is reached without stores onto the variables. -/
theorem steady_of_reachableIn {L : Layout} {m : Monitor} (hm : m.ReachableIn C L) :
    m.core.Steady := by
  refine hm.induct (P := fun m => m.core.Steady) steady_handedOver (fun _ hs => hs) ?_
  intro C' m j hs
  rw [step_core]
  exact hs.step _

end Monitor

end Dorami.Sm
