import Dorami.Monitor.Calls
import Dorami.Monitor.Proofs.FirmwareProofs
import Dorami.Monitor.Proofs.ForwardProofs

/-!
# Giving memory back

A destroy call that succeeds reaches the other harts by an IPI, whose trap goes on to OpenSBI and
comes back with `LOCK_OSBI` in `pmpcfg0`; the hart that makes the call is not told and keeps the
entry it has closed for itself. On the others the bottom entry decides about everything the first
five entries leave, with the address it had before the call. `BottomAddr` says what that can be in
any run.
-/

namespace Dorami.Sm

open Riscv Lib

/-- Entry 7 has the address of the OS region or of a UTM. -/
def BottomAddr (r : PmpRegs) : Prop :=
  r.pmpaddr 7 = osRegion.pmpaddrVal ∨
    ∃ U, LastOk U ∧ U.extent = U.bytes ∧ r.pmpaddr 7 = U.pmpaddrVal

/-! ## Writes to the registers -/

section Regs

variable {t : PmpTable} {e u : Option PmpRegion} {R E U : PmpRegion} {p : Byte} {r r' : PmpRegs}

/-- The bottom entry is written. -/
theorem BottomAddr.set_last (hR : LastOk R) (hs : SetRes R p r r')
    (hval : R.pmpaddrVal = osRegion.pmpaddrVal ∨ R.extent = R.bytes) : BottomAddr r' := by
  have haddr := hs.installed.addr
  rw [hR.idx] at haddr
  rcases hval with hos | hext
  · exact Or.inl (haddr.trans hos)
  · exact Or.inr ⟨R, hR, hext, haddr⟩

theorem EpmOk.not_seven {strict : Bool} (hE : EpmOk strict E) : ¬ E.Occupies 7 := by
  intro hocc
  rcases hE.regs 7 hocc with h7 | h7 <;> omega

/-- An entry of an EPM is written. -/
theorem BottomAddr.of_frame (h : BottomAddr r) (hf : Frame E r r') {strict : Bool}
    (hE : EpmOk strict E) : BottomAddr r' := by
  unfold BottomAddr
  rw [hf.addr 7 hE.not_seven]
  exact h

/-- `pmpcfg0` is written as a whole. -/
theorem BottomAddr.cfgRegs (h : BottomAddr r) (cfg : Word) : BottomAddr (cfgRegs cfg r) := h

/-- A TOR region of an enclave takes both entries. -/
theorem tor_regs {strict : Bool} (hE : EpmOk strict E) (htor : E.addrmode = PMP_A_TOR) :
    E.regIdx = 6 ∧ E.needsTwoEntries = true := by
  have hpos : 0 < E.regIdx := by
    rcases hE.enc.mode with ⟨hm, _⟩ | ⟨_, _, hpos⟩
    · rw [hm] at htor
      exact absurd htor (by decide)
    · exact hpos
  have htwo : E.needsTwoEntries = true := by
    simp [PmpRegion.needsTwoEntries, PmpRegion.isTor, htor, hpos]
  have hlow := hE.regs _ (Or.inr ⟨htwo, rfl⟩)
  have hidx := hE.idx
  exact ⟨by omega, htwo⟩

/-! The same for the functions of the monitor, with the regions of one enclave in the table. -/

theorem BottomAddr.osmSet (hs : Slots t e u) (p : Byte) : BottomAddr (osmSet t p r) :=
  BottomAddr.set_last lastOk_osRegion (hs.os_res p r) (Or.inl rfl)

theorem BottomAddr.setEpm (h : BottomAddr r) (hs : Slots t (some E) (some U)) {strict : Bool}
    (hE : EpmOk strict E) (p : Byte) : BottomAddr (pmpSetKeystone t r 6 p).1 :=
  h.of_frame (hs.epm_res p r).frame hE

theorem BottomAddr.setUtm (hs : Slots t (some E) (some U)) (p : Byte) :
    BottomAddr (pmpSetKeystone t r 7 p).1 := by
  obtain ⟨_, _, hext⟩ := hs.both_apart
  exact BottomAddr.set_last (hs.utm U rfl).2.1 (hs.utm_res p r) (Or.inr hext)

theorem BottomAddr.buildPmp (hs : Slots t (some E) (some U)) :
    BottomAddr (Core.buildPmp t 6 r) :=
  BottomAddr.osmSet hs _

end Regs

/-! ## One enclave at a time -/

namespace Core

/-- No enclave holds a region. -/
structure Vacant (c : Core) : Prop where
  slots : Slots c.table none none
  unused : ∀ e, (c.enclaves e).Unused

/-- The enclave `e` with the regions `E` and `U` is the only one that holds any. -/
structure Tenant (e : Nat) (E U : PmpRegion) (c : Core) : Prop where
  slots : Slots c.table (some E) (some U)
  epm : EpmOk (E.addrmode != PMP_A_TOR) E
  lt : e < ENCL_MAX
  present : (c.enclaves e).Present E U
  unused : ∀ e', e' ≠ e → (c.enclaves e').Unused

/-- What holds in every run, whatever is handed on to OpenSBI and wherever the harts are. -/
structure Orderly (c : Core) : Prop where
  one : c.Vacant ∨ ∃ e E U, c.Tenant e E U
  bottom : ∀ g, BottomAddr (c.hart g).pmp

section

variable {c : Core} {h : HartId} {e eid : Nat} {E U : PmpRegion} {r : PmpRegs}

theorem Vacant.noneRunning (hv : c.Vacant) : c.NoneRunning := by
  intro e
  rw [(hv.unused e).state]
  decide

theorem Tenant.eq_of_present (ht : c.Tenant e E U) (hp : (c.enclaves eid).present = true) :
    eid = e := by
  by_contra hne
  simp [EnclaveCore.present, (ht.unused eid hne).state, EnclaveState.rank] at hp

theorem Vacant.not_present (hv : c.Vacant) (eid : Nat) : (c.enclaves eid).present = false := by
  simp [EnclaveCore.present, (hv.unused eid).state, EnclaveState.rank]

theorem Tenant.setEnclave (ht : c.Tenant e E U) {en : EnclaveCore} (hen : en.Present E U) :
    (c.setEnclave e en).Tenant e E U := by
  refine ⟨ht.slots, ht.epm, ht.lt, ?_, fun e' he' => ?_⟩
  · rw [enclaves_setEnclave, if_pos rfl]
    exact hen
  · rw [enclaves_setEnclave, if_neg he']
    exact ht.unused e' he'

/-! ### Updates of one hart -/

theorem Orderly.setHart (ho : Orderly c) {hc : HartCore} (hr : BottomAddr hc.pmp) :
    Orderly (c.setHart h hc) := by
  refine ⟨?_, fun g => ?_⟩
  · rcases ho.one with hv | ⟨e, E, U, ht⟩
    · exact Or.inl ⟨hv.slots, hv.unused⟩
    · exact Or.inr ⟨e, E, U, ht.slots, ht.epm, ht.lt, ht.present, ht.unused⟩
  · rw [hart_setHart]
    split
    · exact hr
    · exact ho.bottom g

theorem Orderly.setFlag (ho : Orderly c) {b : Bool} : Orderly (c.setFlag h b) :=
  ho.setHart (ho.bottom h)

theorem Orderly.slots (ho : Orderly c) : ∃ x y, Slots c.table x y := by
  rcases ho.one with hv | ⟨e, E, U, ht⟩
  · exact ⟨_, _, hv.slots⟩
  · exact ⟨_, _, ht.slots⟩

theorem setRegions_unused {en : EnclaveCore} (hu : en.Unused) (t : PmpTable) (p : Byte)
    (r : PmpRegs) : setRegions t en.regions p r = r := by
  unfold setRegions
  refine run_fixed _ fun i hi => if_neg ?_
  rw [hu.regions i (List.mem_range.mp hi)]
  decide

/-- The regions of any entry of `enclaves[]` can be programmed. -/
theorem Orderly.regs_setRegions (ho : Orderly c) (hr : BottomAddr r) (eid : Nat) (p : Byte) :
    BottomAddr (setRegions c.table (c.enclaves eid).regions p r) := by
  rcases ho.one with hv | ⟨e, E, U, ht⟩
  · rw [setRegions_unused (hv.unused eid)]
    exact hr
  · by_cases he : eid = e
    · rw [he, setRegions_live ht.present.regions]
      exact BottomAddr.setUtm ht.slots p
    · rw [setRegions_unused (ht.unused eid he)]
      exact hr

theorem Orderly.regs_osmSet (ho : Orderly c) (p : Byte) : BottomAddr (osmSet c.table p r) := by
  obtain ⟨_, _, hs⟩ := ho.slots
  exact BottomAddr.osmSet hs p

theorem Orderly.osmPmpSet (ho : Orderly c) (p : Byte) : Orderly (c.osmPmpSet h p) :=
  ho.setHart (ho.regs_osmSet p)

theorem Orderly.pmpSetRegions (ho : Orderly c) (eid : Nat) (p : Byte) :
    Orderly (c.pmpSetRegions h eid p) :=
  ho.setHart (ho.regs_setRegions (ho.bottom h) eid p)

theorem Orderly.regs_inside (ho : Orderly c) (eid : Nat) :
    BottomAddr (insidePmp c.table (c.enclaves eid).regions r) :=
  ho.regs_setRegions (ho.regs_osmSet _) eid _

theorem Orderly.regs_outside (ho : Orderly c) (eid : Nat) :
    BottomAddr (outsidePmp c.table (c.enclaves eid).regions r) :=
  ho.regs_osmSet _

/-! ### Entering and leaving -/

/-- The entry of an enclave that is entered or left. -/
theorem Present.withThreads {en : EnclaveCore} (hp : en.Present E U) {s : EnclaveState} {n : Nat}
    (hs : s = .fresh ∨ s = .stopped ∨ s = .running) :
    ({ en with state := s, nThread := n } : EnclaveCore).Present E U :=
  ⟨hs, hp.regions, hp.epm, hp.utm⟩

theorem Orderly.setPresent (ho : Orderly c) (ht : c.Tenant e E U) {en : EnclaveCore}
    (hen : en.Present E U) : Orderly (c.setEnclave e en) :=
  ⟨Or.inr ⟨e, E, U, ht.setEnclave hen⟩, ho.bottom⟩

theorem Orderly.enterCall (ho : Orderly c) {test : EnclaveCore → Bool}
    (hpresent : ∀ en : EnclaveCore, test en = true → en.present = true) :
    Orderly (c.enterCall h test eid) := by
  unfold Core.enterCall
  split
  · next hok =>
    have hp := hpresent _ (Bool.and_eq_true .. ▸ hok).2
    rcases ho.one with hv | ⟨e, E, U, ht⟩
    · rw [hv.not_present] at hp
      cases hp
    · obtain rfl := ht.eq_of_present hp
      have hen : (c.enclaves eid).enter.Present E U :=
        Present.withThreads ht.present (Or.inr (Or.inr rfl))
      rw [enter_eq]
      exact ((ho.setPresent ht hen).setHart (ho.regs_inside eid)).setFlag
  · exact ho.setFlag

theorem Orderly.leaveCall (ho : Orderly c) : Orderly (c.leaveCall h) := by
  unfold Core.leaveCall
  dsimp only
  split
  · next hstop =>
    have hrun : (c.enclaves (c.hart h).eid).state = .running := by
      simpa [EnclaveCore.stoppable] using hstop
    rcases ho.one with hv | ⟨e, E, U, ht⟩
    · exact absurd hrun (hv.noneRunning _)
    · have heid : (c.hart h).eid = e := by
        by_contra hne
        rw [(ht.unused _ hne).state] at hrun
        cases hrun
      rw [heid] at hrun ⊢
      have hen : (c.enclaves e).leave.Present E U := by
        refine Present.withThreads ht.present ?_
        split
        · exact Or.inr (Or.inl rfl)
        · exact Or.inr (Or.inr hrun)
      rw [leave_eq]
      exact ((ho.setPresent ht hen).setHart (ho.regs_outside e)).setFlag
  · exact ho.setFlag

/-! ### Creating and destroying -/

/-- The enclave is built on a hart that makes the call and on those that are told. -/
theorem Vacant.build (hv : c.Vacant) (hh : ∀ g, BottomAddr (c.hart g).pmp) {t : PmpTable}
    (hs : Slots t (some E) (some U)) (hE : EpmOk (E.addrmode != PMP_A_TOR) E) (hlt : eid < ENCL_MAX)
    {params : RuntimeParams} (hEp : E.addr = params.dramBase ∧ E.size = params.dramSize)
    (hUp : U.addr = params.untrustedBase ∧ U.size = params.untrustedSize) :
    Orderly (((c.setState eid .allocated).setTable t).build h eid 6 7 params) := by
  have hno : ((c.setState eid .allocated).setTable t).NoneRunning :=
    hv.noneRunning.setState (by decide)
  rw [build_eq hno]
  simp only [setTable, setState, setEnclave, if_true]
  refine ⟨Or.inr ⟨eid, E, U, hs, hE, hlt, ?_, fun e' he' => ?_⟩, fun g => ?_⟩
  · simp only [if_true]
    exact present_created (hv.unused eid) hEp hUp
  · simp only [if_neg he']
    exact hv.unused e'
  · by_cases hg : g = h
    · simp only [if_pos hg]
      exact BottomAddr.buildPmp hs
    · simp only [if_neg hg]
      exact (hh g).setEpm hs hE _

theorem Orderly.createEnclave (ho : Orderly c) {args : CreateArgs} :
    Orderly (c.createEnclave h args) := by
  unfold Core.createEnclave
  split
  · exact ho
  split
  · exact ho
  next eid halloc =>
  have hlt : eid < ENCL_MAX := List.mem_range.mp (List.mem_of_find?_eq_some halloc)
  split
  · exact ho
  next t1 region hepm =>
  obtain ⟨E, hinitE⟩ := pmpRegionInit_ok hepm
  rcases ho.one with hv | ⟨_, _, _, ht⟩
  · obtain ⟨rfl, hs1⟩ := hv.slots.add_epm hinitE
    split
    · exact ⟨Or.inl ⟨hs1.free_epm, hv.unused⟩, ho.bottom⟩
    next t2 shared hutm =>
    obtain ⟨U, hinitU⟩ := pmpRegionInit_ok hutm
    obtain ⟨rfl, hs2⟩ := hs1.add_utm hinitU
    have hE : EpmOk (E.addrmode != PMP_A_TOR) E :=
      epmOk_of_init hv.slots.kept hv.slots.regs_free hinitE fun hst => by simpa using hst
    exact hv.build ho.bottom hs2 hE hlt ⟨hinitE.addr, hinitE.size⟩ ⟨hinitU.addr, hinitU.size⟩
  · exact absurd hinitE ht.slots.full

theorem Orderly.createCall (ho : Orderly c) {args : Option CreateArgs} :
    Orderly (c.createCall h args) := by
  unfold Core.createCall
  dsimp only
  cases args with
  | none => exact (ho.osmPmpSet _).osmPmpSet _
  | some a => exact ((ho.osmPmpSet _).osmPmpSet _).createEnclave.osmPmpSet _

theorem Tenant.noneRunning (ht : c.Tenant e E U) (hd : (c.enclaves e).destroyable = true) :
    c.NoneRunning := by
  intro e'
  by_cases he : e' = e
  · rw [he]
    exact not_running_of_destroyable hd
  · rw [(ht.unused e' he).state]
    decide

/-- What a destroy call that succeeds does to each component. -/
theorem Tenant.destroyCall_eq (ht : c.Tenant e E U) (hd : (c.enclaves e).destroyable = true)
    (h : HartId) :
    c.destroyCall h e =
      let t := ((c.table.pmpRegionFree 6).1.pmpRegionFree 7).1
      { table := t
        enclaves := fun e' => if e' = e then destroyed (c.enclaves e) else c.enclaves e'
        hart := fun g => if g = h then
            { c.hart h with pmp := osmSet t EPMP_SU_RWX (clearPmp c.table (c.hart h).pmp) }
          else (IpiUpdate.mk 6 true PMP_NO_PERM).received c.table (c.hart g) } := by
  have hv : c.table.isPmpRegionValid 6 = true :=
    (ht.slots.valid 6).mpr (Or.inr (Or.inl ⟨rfl, rfl⟩))
  have hok : (decide (e < ENCL_MAX) && (c.enclaves e).destroyable) = true := by
    rw [hd, decide_eq_true ht.lt]
    rfl
  exact Core.destroyCall_eq (ht.noneRunning hd) ht.present.regions hv hok h

theorem Orderly.destroyCall (ho : Orderly c) : Orderly (c.destroyCall h eid) := by
  by_cases hok : (decide (eid < ENCL_MAX) && (c.enclaves eid).destroyable) = true
  · have hd := (Bool.and_eq_true .. ▸ hok).2
    have hp : (c.enclaves eid).present = true := (Bool.and_eq_true .. ▸ hd).1
    rcases ho.one with hv | ⟨e, E, U, ht⟩
    · rw [hv.not_present] at hp
      cases hp
    · obtain rfl := ht.eq_of_present hp
      have hs : Slots ((c.table.pmpRegionFree 6).1.pmpRegionFree 7).1 none none :=
        ht.slots.free_epm.free_utm
      rw [ht.destroyCall_eq hd]
      refine ⟨Or.inl ⟨hs, fun e' => ?_⟩, fun g => ?_⟩
      · dsimp only
        split
        · exact unused_destroyed _
        · next he => exact ht.unused e' he
      · by_cases hg : g = h
        · simp only [if_pos hg]
          exact BottomAddr.osmSet hs _
        · simp only [if_neg hg]
          exact ((ho.bottom g).of_frame (ht.slots.epm_unset _).frame ht.epm).cfgRegs _
  · unfold Core.destroyCall
    rw [if_neg hok]
    exact ho

/-! ### Services and OpenSBI -/

theorem Orderly.attestCall (ho : Orderly c) {size : Word} {copied : Bool} :
    Orderly (c.attestCall h size copied) := by
  unfold Core.attestCall
  dsimp only
  split
  · exact ho
  split
  · exact ho
  split
  · exact (ho.pmpSetRegions _ _).pmpSetRegions _ _
  · exact ho.pmpSetRegions _ _

theorem Orderly.sealingCall (ho : Orderly c) {derived : Bool} :
    Orderly (c.sealingCall h derived) := by
  unfold Core.sealingCall
  dsimp only
  split
  · exact (((ho.pmpSetRegions _ _).pmpSetRegions _ _).pmpSetRegions _ _).pmpSetRegions _ _
  · exact (ho.pmpSetRegions _ _).pmpSetRegions _ _

theorem Orderly.setMode (ho : Orderly c) {mode : Mode} : Orderly (c.setMode h mode) :=
  ho.setHart (ho.bottom h)

theorem Orderly.forward (ho : Orderly c) : Orderly (c.forward h) := by
  have hw : Orderly (c.writePmpcfg0 h UNLOCK_OSBI) := ho.setHart ((ho.bottom h).cfgRegs _)
  exact hw.setMode

theorem Orderly.osbiReturn (ho : Orderly c) {mode : Mode} : Orderly (c.osbiReturn h mode) := by
  have hw : Orderly (c.writePmpcfg0 h LOCK_OSBI) := ho.setHart ((ho.bottom h).cfgRegs _)
  unfold Core.osbiReturn
  dsimp only
  generalize c.writePmpcfg0 h LOCK_OSBI = c1 at hw
  split
  · split
    · exact ((hw.osmPmpSet _).pmpSetRegions _ _).setMode
    · exact hw.setMode
  · have hs : Orderly (c1.setHart h { c1.hart h with suStarted := true }) :=
      hw.setHart (hw.bottom h)
    exact hs.setMode

/-! ### Runs -/

theorem Orderly.apply (ho : Orderly c) (ev : Event) : Orderly (c.apply ev) := by
  cases ev with
  | other => exact ho
  | create h args =>
    simp only [Core.apply]
    split
    · exact ho
    · exact ho.createCall
  | destroy h eid =>
    simp only [Core.apply]
    split
    · exact ho
    · exact ho.destroyCall
  | run h eid =>
    simp only [Core.apply]
    split
    · exact ho
    · exact ho.enterCall fun en htest => (Bool.and_eq_true .. ▸ htest).1
  | resume h eid =>
    simp only [Core.apply]
    split
    · exact ho
    · refine ho.enterCall fun en htest => ?_
      simp only [EnclaveCore.resumable, Bool.and_eq_true] at htest
      exact htest.1.1
  | attest h size copied =>
    simp only [Core.apply]
    split
    · exact ho.attestCall
    · exact ho
  | sealing h derived =>
    simp only [Core.apply]
    split
    · exact ho.sealingCall
    · exact ho
  | leave h =>
    simp only [Core.apply]
    split
    · exact ho.leaveCall
    · exact ho
  | interrupt h =>
    simp only [Core.apply]
    split
    · exact ho.leaveCall
    · exact ho.forward
  | forward h => exact ho.forward
  | hang h => exact ho.setMode
  | osbiReturn h mode => exact ho.osbiReturn

theorem Orderly.step (ho : Orderly c) (ev : Event) : Orderly (c.step ev) := by
  unfold Core.step
  split
  · exact ho.apply ev
  · exact ho

end

end Core

/-! ## What S/U mode reaches after a destroy call -/

section Release

variable {strict : Bool} {E : PmpRegion} {r r' : PmpRegs} {a : Nat}

theorem epm_occupies_five (hE : EpmOk (E.addrmode != PMP_A_TOR) E) : E.Occupies 5 := by
  by_cases htor : E.addrmode = PMP_A_TOR
  · obtain ⟨hidx, htwo⟩ := tor_regs hE htor
    exact Or.inr ⟨htwo, by omega⟩
  · exact Or.inl (hE.napot (by simpa using htor)).2.symm

/-- Where the entries above it do not match, the bottom entry decides. -/
theorem suPerm_bottom (hno : ∀ j < 7, entryMatches r j a = false) :
    suPerm r a =
      if entryMatches r 7 a then Perm.ofByte (cfgByte (r.pmpcfg 0) 7) else Perm.none := by
  split
  · next h7 => exact suPerm_of_decider (decider_eq_some.mpr ⟨by omega, h7, hno⟩)
  next h7 =>
  have hd : decider r a = none := by
    refine decider_eq_none.mpr fun j hj => ?_
    by_cases hj7 : j = 7
    · rw [hj7]
      simpa using h7
    · exact hno j (by omega)
  unfold suPerm
  rw [hd]

theorem boot_bytes_last {i : Nat} (hi : i < 5) : 2 ^ 64 - 1 ∉ (bootTable.regions i).bytes := by
  intro hm
  have := boot_bytes_lt hi hm
  omega

/-- The bottom entry matches the last byte there is only if it is that of the OS region. -/
theorem BottomAddr.os_of_last (h : BottomAddr r)
    (hmode : cfgByte (r.pmpcfg 0) 7 &&& PMP_A = PMP_A_NAPOT)
    (hm : entryMatches r 7 (2 ^ 64 - 1) = true) : r.pmpaddr 7 = osRegion.pmpaddrVal := by
  rcases h with hos | ⟨U, hU, hext, haddr⟩
  · exact hos
  · rw [napot_entry_iff hU.enc hU.mode hmode haddr (by omega), hext] at hm
    have hlt := hm.2
    have hfits := hU.enc.placed.fits
    omega

/-- A hart that has cleared the entries of the EPM and comes back from OpenSBI has no entry above
the bottom one for what the first five regions leave. Entry 5 is in NAPOT mode again, for the first
eight bytes. -/
theorem released_above (hl : LowOk strict r) (hE : EpmOk (E.addrmode != PMP_A_TOR) E)
    (hs : UnsetRes E r r') (ha : a < 2 ^ 64) (hlow : ∀ i < 5, a ∉ (bootTable.regions i).bytes) :
    ∀ j < 7, entryMatches (lockRegs r') j a = false := by
  have hl' : LowOk true (lockRegs r') := (hl.of_frame hs.frame hE.not_low).relock
  intro j hj
  by_cases hj5 : j < 5
  · by_contra hm
    exact hlow j hj5 ((hl'.matches_iff hj5 ha).mp (by simpa using hm))
  obtain rfl | rfl : j = 5 ∨ j = 6 := by omega
  · have hdev : 0x80000000 ≤ a := by
      have hbytes : (bootTable.regions 4).bytes = Set.Ico 0 0x80000000 := rfl
      have h4 := hlow 4 (by decide)
      rw [hbytes, Set.mem_Ico] at h4
      omega
    have hzero : (lockRegs r').pmpaddr 5 = 0 := (hs.clear 5 (epm_occupies_five hE)).2
    have hmode : cfgByte ((lockRegs r').pmpcfg 0) 5 &&& PMP_A = PMP_A_NAPOT :=
      show cfgByte LOCK_OSBI 5 &&& PMP_A = PMP_A_NAPOT by decide
    rw [entryMatches_napot hmode, hzero]
    exact napotMatches_zero (by omega)
  · have hoff : cfgByte ((lockRegs r').pmpcfg 0) 6 &&& PMP_A = 0 :=
      show cfgByte LOCK_OSBI 6 &&& PMP_A = 0 by decide
    exact entryMatches_off hoff

/-- Such a hart reaches everything that only the OS region covers, if and only if its bottom entry
has the address of the OS region. -/
theorem released_iff (hl : LowOk strict r) (hb : BottomAddr r)
    (hE : EpmOk (E.addrmode != PMP_A_TOR) E) (hs : UnsetRes E r r') :
    (∀ a < 2 ^ 64, (∀ i < 5, a ∉ (bootTable.regions i).bytes) →
      suPerm (lockRegs r') a = Perm.rwx) ↔ r.pmpaddr 7 = osRegion.pmpaddrVal := by
  have hmode : cfgByte ((lockRegs r').pmpcfg 0) 7 &&& PMP_A = PMP_A_NAPOT :=
    show cfgByte LOCK_OSBI 7 &&& PMP_A = PMP_A_NAPOT by decide
  have hrwx : Perm.ofByte (cfgByte ((lockRegs r').pmpcfg 0) 7) = Perm.rwx :=
    show Perm.ofByte (cfgByte LOCK_OSBI 7) = Perm.rwx by decide
  have haddr : (lockRegs r').pmpaddr 7 = r.pmpaddr 7 := hs.frame.addr 7 hE.not_seven
  have hb' : BottomAddr (lockRegs r') := (hb.of_frame hs.frame hE).cfgRegs _
  constructor
  · -- the last byte there is: only the bottom entry can match it
    intro hall
    have hlast := hall (2 ^ 64 - 1) (by omega) fun i hi => boot_bytes_last hi
    rw [suPerm_bottom (released_above hl hE hs (by omega) fun i hi => boot_bytes_last hi)] at hlast
    split at hlast
    · next h7 => exact haddr.symm.trans (hb'.os_of_last hmode h7)
    · cases hlast
  · intro hos a ha hlow
    have h7 : entryMatches (lockRegs r') 7 a = true :=
      (napot_entry_iff lastOk_osRegion.enc lastOk_osRegion.mode hmode (haddr.trans hos) ha).mpr
        (by trivial)
    rw [suPerm_bottom (released_above hl hE hs ha hlow), if_pos h7, hrwx]

/-- A hart that has closed the EPM for itself cannot reach it. -/
theorem suPerm_closed_epm (hl : LowOk strict r) (hE : EpmOk (E.addrmode != PMP_A_TOR) E)
    (hi : Installed E PMP_NO_PERM r)
    (hdisj : ∀ i < 5, Disjoint E.bytes (bootTable.regions i).bytes) (ha : a ∈ E.bytes) :
    suPerm r a = Perm.none := by
  have ha64 : a < 2 ^ 64 := lt_trans ha.2 hE.enc.placed.fits
  have hmatch := (hi.matches_iff hE.enc ha64).mpr (mem_extent ha)
  have hd : decider r a = some E.regIdx := by
    refine decider_eq_some.mpr ⟨hE.enc.idx, hmatch, fun j hj => ?_⟩
    by_cases hj5 : j < 5
    · by_contra hm
      have hboot := (hl.matches_iff hj5 ha64).mp (by simpa using hm)
      exact Set.disjoint_left.mp (hdisj j hj5) ha hboot
    · -- entry 5 is the lower bound of a TOR region
      obtain ⟨h2, hlow⟩ := (epm_occupies_five hE).resolve_left (by omega)
      obtain rfl : j = E.regIdx - 1 := by omega
      exact entryMatches_off (by rw [(hi.low h2).1]; rfl)
  rw [suPerm_of_decider hd]
  exact hi.closed hE.enc

end Release

namespace Monitor

variable (C : Crypto)

theorem orderly_handedOver (mem : Word → Byte) (keys : Keys) :
    (handedOver mem keys).core.Orderly := by
  have hhart : BottomAddr handedHart.pmp := Or.inl (by decide +kernel)
  exact ⟨Or.inl ⟨slots_boot, fun e => ⟨rfl, rfl, fun _ _ => rfl⟩⟩, fun _ => hhart⟩

/-- Every state that is reached without stores onto the variables. -/
theorem orderly_of_reachableIn {L : Layout} {m : Monitor} (hm : m.ReachableIn C L) :
    m.core.Orderly := by
  refine hm.induct (P := fun m => m.core.Orderly) orderly_handedOver (fun _ ho => ho) ?_
  intro C' m j ho
  rw [step_core]
  exact ho.step _

/-! ## The call -/

section Call

variable {m : Monitor} {h : HartId} {t : Trap} {e : Nat}

/-- The call waits for all harts. -/
theorem Destroys.all_su (hd : m.Destroys h t e) (g : HartId) : (m.hart g).mode = .su := by
  have hsends : t.sendsIpis = true := by
    simp [Trap.sendsIpis, hd.keystone, hd.call]
  have hen := hd.enabled
  unfold trapEnabled at hen
  rw [hsends, Bool.not_true, Bool.false_or, Bool.and_eq_true, List.all_eq_true] at hen
  simpa using hen.2 g (List.mem_finRange g)

theorem Destroys.core_eq (hd : m.Destroys h t e) :
    (m.step C (.trap h t)).core = m.core.destroyCall h e := by
  have hev : m.event C (.trap h t) = .destroy h e := by
    refine (m.trapEvent_keystone C h hd.keystone).trans ?_
    have heid : (t.regs.a0.setWidth 32).toNat = e := hd.eid
    unfold callEvent
    rw [hd.call, if_neg (by decide), if_pos rfl, heid]
  have hen : m.core.enabled (.destroy h e) = true :=
    List.all_eq_true.mpr fun g _ => by
      rw [beq_iff_eq]
      exact hd.all_su g
  have hhost : (m.core.hart h).isEnclave = false := hd.host
  rw [step_core, hev, Core.step, if_pos hen, Core.apply, hhost]
  rfl

/-- The enclave that is destroyed is the only one. -/
theorem Destroys.tenant (hd : m.Destroys h t e) (ho : m.core.Orderly) :
    ∃ E U, m.core.Tenant e E U := by
  have hp : (m.core.enclaves e).present = true := (Bool.and_eq_true .. ▸ hd.test).1
  rcases ho.one with hv | ⟨e', E, U, ht⟩
  · rw [hv.not_present] at hp
    cases hp
  · obtain rfl := ht.eq_of_present hp
    exact ⟨E, U, ht⟩

/-- The EPM is entry 0 of the enclave's region list, and no other. -/
theorem tenant_epm {E U : PmpRegion} (ht : m.core.Tenant e E U) :
    m.regionOf e 0 = E ∧ ((m.enclaves e).regions 0).type = .epm ∧
      ∀ i < ENCLAVE_REGIONS_MAX, ((m.enclaves e).regions i).type = .epm → i = 0 := by
  have hR : Core.LiveRegions (m.enclaves e).regions := ht.present.regions
  refine ⟨?_, ?_, fun i hi hty => ?_⟩
  · unfold regionOf
    rw [hR.epm]
    exact (ht.slots.epm E rfl).1
  · rw [hR.epm]
  · by_contra hne
    rcases hR.skip (by omega) hi with hno | hno
    · rw [hno] at hty
      cases hty
    · rw [hno] at hty
      cases hty

/-- After the call the first five regions are the only ones besides the OS region. -/
theorem uncovered_iff {m' : Monitor} (hs : Slots m'.table none none) (a : Nat) :
    (∀ rid, m'.table.isPmpRegionValid rid = true → rid ≠ bootIds.os →
      a ∉ (m'.table.regions rid).bytes) ↔ ∀ i < 5, a ∉ (bootTable.regions i).bytes := by
  have hos : bootIds.os = 5 := by decide
  rw [hos]
  constructor
  · intro hno i hi
    obtain ⟨hv, hreg⟩ := hs.kept.boot i (by omega)
    rw [← hreg]
    exact hno i hv (by omega)
  · intro hno rid hv hne
    have hlt : rid < 6 := by
      rcases (hs.valid rid).mp hv with hlt | ⟨_, hx⟩ | ⟨_, hx⟩
      · exact hlt
      · cases hx
      · cases hx
    rw [(hs.kept.boot rid hlt).2]
    exact hno rid (by omega)

variable {E U : PmpRegion}

theorem Destroys.slots (hd : m.Destroys h t e) (ht : m.core.Tenant e E U) :
    Slots (m.step C (.trap h t)).table none none := by
  have htable := congrArg Core.table ((hd.core_eq C).trans (ht.destroyCall_eq hd.test h))
  show Slots (m.step C (.trap h t)).core.table none none
  rw [htable]
  exact ht.slots.free_epm.free_utm

theorem Destroys.pmp_other (hd : m.Destroys h t e) (ht : m.core.Tenant e E U) {g : HartId}
    (hg : g ≠ h) : ((m.step C (.trap h t)).hart g).pmp =
      lockRegs (pmpUnset m.table (m.hart g).pmp 6).1 := by
  have hpmp := congrArg (fun c : Core => (c.hart g).pmp)
    ((hd.core_eq C).trans (ht.destroyCall_eq hd.test h))
  refine hpmp.trans ?_
  dsimp only
  rw [if_neg hg]
  rfl

theorem Destroys.pmp_caller (hd : m.Destroys h t e) (ht : m.core.Tenant e E U) :
    ((m.step C (.trap h t)).hart h).pmp =
      osmSet ((m.table.pmpRegionFree 6).1.pmpRegionFree 7).1 EPMP_SU_RWX
        (Core.clearPmp m.table (m.hart h).pmp) := by
  have hpmp := congrArg (fun c : Core => (c.hart h).pmp)
    ((hd.core_eq C).trans (ht.destroyCall_eq hd.test h))
  refine hpmp.trans ?_
  dsimp only
  rw [if_pos rfl]
  rfl

/-- The hart that makes the call has closed the EPM for itself. -/
theorem Destroys.caller_closed (hd : m.Destroys h t e) (ht : m.core.Tenant e E U)
    (hlow : LowOk true (m.hart h).pmp) {a : Nat} (ha : a ∈ E.bytes) :
    suPerm ((m.step C (.trap h t)).hart h).pmp a = Perm.none := by
  have hrw := ht.slots.epm_res EPMP_ALL_RW (m.hart h).pmp
  have hno := ht.slots.epm_res PMP_NO_PERM (pmpSetKeystone m.table (m.hart h).pmp 6 EPMP_ALL_RW).1
  have hos := ht.slots.free_epm.free_utm.os_res EPMP_SU_RWX (Core.clearPmp m.table (m.hart h).pmp)
  have hlow' := ((hlow.of_frame hrw.frame ht.epm.not_low).of_frame hno.frame
    ht.epm.not_low).of_frame hos.frame lastOk_osRegion.not_low
  have hinst := hno.installed.of_frame hos.frame ht.epm.enc.idx (ht.epm.not_last lastOk_osRegion)
  rw [hd.pmp_caller C ht]
  exact suPerm_closed_epm hlow' ht.epm hinst ht.slots.both_apart.1 ha

/-- Destroying an enclave gives its memory back on the harts that did not make the call and whose
bottom entry has the address of the OS region. -/
theorem Destroys.givesBack_iff (hd : m.Destroys h t e) (ho : m.core.Orderly) (g : HartId)
    (hlow : LowOk true (m.hart g).pmp) :
    m.GivesBack (m.step C (.trap h t)) e g ↔
      g ≠ h ∧ (m.hart g).pmp.pmpaddr 7 = osRegion.pmpaddrVal := by
  obtain ⟨E, U, ht⟩ := hd.tenant ho
  obtain ⟨hE0, hty0, honly⟩ := tenant_epm ht
  obtain ⟨hdisj, _, _⟩ := ht.slots.both_apart
  have hs := hd.slots C ht
  by_cases hg : g = h
  · subst hg
    refine ⟨fun hb => ?_, fun hc => absurd rfl hc.1⟩
    have hpos := ht.epm.enc.placed.size_pos
    have hmem : E.addr.toNat ∈ E.bytes := ⟨le_refl _, by omega⟩
    have hperm := hb.epm 0 (by decide) hty0 E.addr.toNat (hE0.symm ▸ hmem)
    rw [hd.caller_closed C ht hlow hmem] at hperm
    cases hperm
  · have hun := ht.slots.epm_unset (m.hart g).pmp
    have hiff := released_iff hlow (ho.bottom g) ht.epm hun
    have hpmp : ((m.step C (.trap h t)).hart g).pmp =
        lockRegs (pmpUnset m.core.table (m.hart g).pmp 6).1 := hd.pmp_other C ht hg
    have hfree : ∀ a ∈ E.bytes, a < 2 ^ 64 ∧ ∀ i < 5, a ∉ (bootTable.regions i).bytes :=
      fun a ha => ⟨lt_trans ha.2 ht.epm.enc.placed.fits,
        fun i hi hb => Set.disjoint_left.mp (hdisj i hi) ha hb⟩
    constructor
    · intro hb
      refine ⟨hg, hiff.mp fun a ha hno => ?_⟩
      rw [← hpmp]
      exact hb.others a ha ((uncovered_iff hs a).mpr hno)
    · rintro ⟨_, hc⟩
      have hrwx := hiff.mpr hc
      rw [← hpmp] at hrwx
      refine ⟨fun i hi hty a ha n hn => ?_, fun i hi hty a ha => ?_, fun a ha hno => ?_⟩
      · rw [honly i hi hty, hE0] at ha
        rw [hpmp]
        exact released_above hlow ht.epm hun (hfree a ha).1 (hfree a ha).2 n hn
      · rw [honly i hi hty, hE0] at ha
        exact hrwx a (hfree a ha).1 (hfree a ha).2
      · exact hrwx a ha ((uncovered_iff hs a).mp hno)

/-- The call stores nothing for an enclave. -/
theorem Destroys.stepIn_eq (hd : m.Destroys h t e) (L : Layout) (info : Word) :
    m.stepIn C L (.trap h t info) = m.step C (.trap h t) := by
  have hreq : m.requestOf h t = .destroy := by
    rw [requestOf, hd.host, hd.call]
    rfl
  have hservice : m.serviceOf h t = none := by
    rw [serviceOf, if_pos hd.keystone, hreq]
  dsimp only [stepIn, step]
  rw [trapHandlerIn_none hservice]
  rfl

/-- In every state that is reached without stores onto the variables of the monitor. -/
theorem gives_back_iff {L : Layout} (hm : m.ReachableIn C L) (hd : m.Destroys h t e) (info : Word)
    (g : HartId) :
    m.GivesBack (m.stepIn C L (.trap h t info)) e g ↔
      g ≠ h ∧ (m.hart g).pmp.pmpaddr 7 = (bootTable.regions bootIds.os).pmpaddrVal := by
  rw [hd.stepIn_eq C L info]
  exact hd.givesBack_iff C (orderly_of_reachableIn C hm) g
    (((steady_of_reachableIn C hm).low g).lowOk (hd.all_su g))

end Call

/-- A destroy call for enclave 0. -/
def destroyTrap : Trap := callTrap SBI_SM_DESTROY_ENCLAVE 0 faultEnv

/-- Hart 0 has created an enclave with an EPM of four pages. -/
def epmCreated : Monitor :=
  run (stepIn noCrypto dataLayout) (handedOver (fun _ => 0) noKeys) ((createdRun 0x4000).map atInfo)

theorem reachableIn_epmCreated : epmCreated.ReachableIn noCrypto dataLayout :=
  ⟨_, _, _, by decide +kernel, rfl⟩

theorem destroys_epmCreated : epmCreated.Destroys 0 destroyTrap 0 :=
  ⟨by decide +kernel, by decide +kernel, by decide +kernel, by decide +kernel, by decide +kernel,
    by decide +kernel, by decide +kernel⟩

/-- Hart 0 destroys it, and hart 1 reaches the former EPM. -/
theorem other_hart_gets_back :
    epmCreated.GivesBack
      (epmCreated.stepIn noCrypto dataLayout (.trap 0 destroyTrap 0x80130000)) 0 1 :=
  (gives_back_iff noCrypto reachableIn_epmCreated destroys_epmCreated 0x80130000 1).mpr
    ⟨by decide, by decide +kernel⟩

/-- Hart 0 itself is in host context and has no access to it. -/
theorem caller_keeps_entry :
    let m' := epmCreated.stepIn noCrypto dataLayout (.trap 0 destroyTrap 0x80130000)
    epmCreated.ReachableIn noCrypto dataLayout ∧ epmCreated.Destroys 0 destroyTrap 0 ∧
      (m'.hart 0).isEnclave = false ∧ suPerm (m'.hart 0).pmp 0x90000000 = Perm.none ∧
      ¬ epmCreated.GivesBack m' 0 0 := by
  have hperm : suPerm ((epmCreated.stepIn noCrypto dataLayout
      (.trap 0 destroyTrap 0x80130000)).hart 0).pmp 0x90000000 = Perm.none := by decide +kernel
  refine ⟨reachableIn_epmCreated, destroys_epmCreated, by decide +kernel, hperm, fun hb => ?_⟩
  have hrwx := hb.epm 0 (by decide) (by decide +kernel) 0x90000000
    ⟨by decide +kernel, by decide +kernel⟩
  rw [hperm] at hrwx
  cases hrwx

end Monitor

end Dorami.Sm
