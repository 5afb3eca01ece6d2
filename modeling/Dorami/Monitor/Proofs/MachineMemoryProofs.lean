import Dorami.Monitor.Proofs.IsolationProofs
import Dorami.Monitor.Proofs.TableProofs
import Dorami.Monitor.Proofs.TrapProofs

/-!
# Enclaves and the memory of machine mode

`create_enclave` does not look at where the memory of an enclave lies: the ranges of machine mode
are safe because `sm_init` has registered them and regions do not overlap. The sallyport is the one
range it does not register, so there the arguments of the calls decide.
-/

namespace Dorami.Sm

open Riscv Lib

/-! ## Regions that keep off a range -/

/-- The regions that do not come from `sm_init` keep off the range `S`. -/
def PmpTable.Avoids (t : PmpTable) (S : Set Nat) : Prop :=
  ∀ rid, bootCalls.length ≤ rid → t.isPmpRegionValid rid = true → Disjoint (t.regions rid).bytes S

section Table

variable {t t' : PmpTable} {S : Set Nat} {start size : Word} {pri : PmpPriority} {ao : Bool}
  {rid : Nat}

theorem PmpTable.Avoids.init (ha : t.Avoids S)
    (h : t.pmpRegionInit start size pri ao = (t', .ok rid))
    (hnew : Disjoint (byteRange start size) S) : t'.Avoids S := by
  obtain ⟨r, hr⟩ := pmpRegionInit_ok h
  intro i hi hv
  rw [hr.adds.valid, Bool.or_eq_true, beq_iff_eq] at hv
  rw [hr.adds.regions]
  by_cases hir : i = rid
  · rw [hir, setRegion_self, PmpRegion.bytes, hr.addr, hr.size]
    exact hnew
  · rw [setRegion_ne t r hir]
    exact ha i hi (hv.resolve_right hir)

theorem PmpTable.Avoids.free (ha : t.Avoids S) (rid : Nat) : (t.pmpRegionFree rid).1.Avoids S := by
  cases hvr : t.isPmpRegionValid rid with
  | false =>
    rw [pmpRegionFree_invalid hvr]
    exact ha
  | true =>
    have hr := pmpRegionFree_removes hvr
    intro i hi hv
    rw [hr.valid, Bool.and_eq_true, bne_iff_ne] at hv
    rw [hr.regions, setRegion_ne t _ hv.2]
    exact ha i hi hv.1

end Table

/-- A call adds no region on `S` unless it asks for one. -/
theorem avoids_rule {S : Set Nat} {ev : Event}
    (hargs : ∀ h a, ev = .create h (some a) → Disjoint (byteRange a.epmPaddr a.epmSize) S ∧
      Disjoint (byteRange a.utmPaddr a.utmSize) S) : TableRule (fun t => t.Avoids S) ev :=
  ⟨fun hev ha h => ha.init h (hargs _ _ hev).1, fun hev ha h => ha.init h (hargs _ _ hev).2,
    fun rid ha => ha.free rid⟩

namespace Monitor

variable (C : Crypto)

/-! ## The invariant -/

/-- Between calls the regions of the enclave keep off the sallyport. -/
structure Guarded (m : Monitor) : Prop where
  settled : m.Settled .tables
  avoids : m.table.Avoids sallyport

theorem guarded_callStep (m : Monitor) (k : KeystoneCall) (hg : m.Guarded)
    (hk : AvoidsSallyport k) : (m.callStep C k).Guarded := by
  refine ⟨m.settled_tables C k hg.settled, ?_⟩
  refine m.table_callStep C k (P := fun t => t.Avoids sallyport) (fun ev hev => ?_) hg.avoids
  exact avoids_rule fun h a heq => hk a (hev h a heq)

theorem guarded_boot (mem : Word → Byte) (keys : Keys) : (bootMonitor mem keys).Guarded := by
  refine ⟨settled_boot mem keys, fun rid hge hv => ?_⟩
  exact absurd ((bootTable_valid rid).mp hv) (Nat.not_lt.mpr hge)

/-- The ranges of machine mode other than the sallyport are regions of `sm_init`. -/
theorem machineMemory_cases {a : Nat} (ha : a ∈ machineMemory) :
    a ∈ sallyport ∨ ∃ i < 5, a ∈ (bootTable.regions i).bytes := by
  have hboot : ∀ i : Fin 5, ((bootTable.regions i).addr, (bootTable.regions i).size) =
      machineRanges.getD i 0 := by decide
  obtain ⟨r, hr, hmem⟩ := ha
  obtain ⟨i, hi, rfl⟩ := List.mem_iff_getElem.mp hr
  by_cases h5 : i < 5
  · refine Or.inr ⟨i, h5, ?_⟩
    have hreg := hboot ⟨i, h5⟩
    rw [List.getD_eq_getElem _ _ hi] at hreg
    rw [← hreg] at hmem
    exact hmem
  · obtain rfl : i = 5 := by
      have : machineRanges.length = 6 := rfl
      omega
    exact Or.inl hmem

/-- A region of an enclave that keeps off the sallyport keeps off the memory of machine mode. -/
theorem disjoint_machineMemory {t : PmpTable} {x y : Option PmpRegion} (hs : Slots t x y) {j : Nat}
    (hj : 6 ≤ j) (hx : t.Exclusive j) (hsp : Disjoint (t.regions j).bytes sallyport) :
    Disjoint (t.regions j).bytes machineMemory := by
  rw [Set.disjoint_left] at hsp ⊢
  intro a ha hmem
  rcases machineMemory_cases hmem with hin | ⟨i, hi, hin⟩
  · exact hsp ha hin
  · exact Set.disjoint_left.mp ((hs.apart hj hx).1 i hi) ha hin

theorem exclusive_slot {t : PmpTable} {E U : PmpRegion} (hs : Slots t (some E) (some U)) {j : Nat}
    (hj : j = 6 ∨ j = 7) : t.Exclusive j := by
  rcases hj with rfl | rfl
  · obtain ⟨hreg, _, hx⟩ := hs.epm E rfl
    exact ⟨(hs.valid 6).mpr (Or.inr (Or.inl ⟨rfl, rfl⟩)), by rw [hreg]; exact hx⟩
  · obtain ⟨hreg, _, hx⟩ := hs.utm U rfl
    exact ⟨(hs.valid 7).mpr (Or.inr (Or.inr ⟨rfl, rfl⟩)), by rw [hreg]; exact hx⟩

theorem Guarded.region_off {m : Monitor} (hg : m.Guarded) {e : Nat} {E U : PmpRegion}
    (hl : m.core.Live .tables e E U) {j : Nat} (hj : j = 6 ∨ j = 7) :
    Disjoint (m.table.regions j).bytes machineMemory := by
  have hx : m.table.Exclusive j := exclusive_slot hl.slots hj
  have h6 : 6 ≤ j := by omega
  exact disjoint_machineMemory hl.slots h6 hx (hg.avoids j h6 hx.1)

theorem Guarded.offMachine {m : Monitor} (hg : m.Guarded) : m.OffMachine := by
  intro e _ i hi hty
  have hne : ((m.enclaves e).regions i).type ≠ .invalid := by
    rcases hty with h | h <;> rw [h] <;> decide
  rcases hg.settled.one with hidle | ⟨e', E, U, hl⟩
  · exact absurd ((hidle.unused e).regions i hi) hne
  obtain ⟨_, ⟨_, hreg⟩ | ⟨_, hreg⟩⟩ := entry_cases hl hi hne
  · rw [regionOf, hreg]
    exact hg.region_off hl (Or.inl rfl)
  · rw [regionOf, hreg]
    exact hg.region_off hl (Or.inr rfl)

/-! ## What the calls clear -/

section Clear

variable (m : Monitor) (h : HartId)

theorem mem_stopEnclave (regs : TrapRegs) (request : Word) (eid : Nat) :
    (m.stopEnclave h regs request eid).1.mem = m.mem := by
  unfold stopEnclave stopResult
  dsimp only
  repeat' split
  all_goals rfl

theorem mem_deliverIpi (g : HartId) (u : IpiUpdate) (ctx : Interrupted) :
    (m.deliverIpi g u ctx).mem = m.mem := by
  unfold deliverIpi
  dsimp only
  split
  · exact mem_stopEnclave _ g { ctx.regs with mepc := ctx.regs.mepc - 4 } STOP_TIMER_INTERRUPT _
  · rfl

theorem mem_monSendSyncIpi (frames : HartId → Interrupted) (u : IpiUpdate) :
    (m.monSendSyncIpi h frames u).mem = m.mem := by
  unfold monSendSyncIpi
  refine List.foldlRecOn (motive := fun m' : Monitor => m'.mem = m.mem) _ _ rfl ?_
  intro m' hm g _
  rw [mem_deliverIpi, hm]

theorem mem_pmpUnsetGlobal (frames : HartId → Interrupted) (rid : Nat) :
    (m.pmpUnsetGlobal h frames rid).1.mem = m.mem := by
  unfold pmpUnsetGlobal
  split
  · rfl
  · exact m.mem_monSendSyncIpi h frames _

theorem memZero_of_notMem {base size a : Word} (hfits : base.toNat + size.toNat < 2 ^ 64)
    (ha : a.toNat ∉ byteRange base size) : (m.memZero base size).mem a = m.mem a := by
  refine if_neg fun hlt => ha ?_
  rw [byteRange, Set.mem_Ico]
  rw [BitVec.toNat_sub] at hlt
  have := a.isLt
  have := base.isLt
  omega

/-- Building an enclave clears its UTM. -/
theorem mem_buildEnclave (env : Env) (args : CreateArgs) {eid region sharedRegion : Nat}
    (hv : m.table.isPmpRegionValid region = true) :
    (m.buildEnclave C h env args eid region sharedRegion).1.mem =
      (m.memZero args.utmPaddr args.utmSize).mem := by
  unfold buildEnclave
  rw [pmpSetGlobal_valid _ _ _ _ hv]
  dsimp only [platformCreateEnclave]
  have hmem := m.mem_monSendSyncIpi h env.frames ⟨region, false, PMP_NO_PERM⟩
  generalize m.monSendSyncIpi h env.frames ⟨region, false, PMP_NO_PERM⟩ = m1 at hmem
  have hclean : (m1.cleanEnclaveMemory h args.utmPaddr args.utmSize).mem =
      (m.memZero args.utmPaddr args.utmSize).mem := by
    change (m1.memZero args.utmPaddr args.utmSize).mem = _
    rw [memZero, memZero, hmem]
  rw [← hclean]
  rfl

/-- A create call clears nothing, or a range that has become a region. -/
theorem mem_createEnclave (env : Env) (args : CreateArgs) :
    (m.createEnclave C h env args).1.mem = m.mem ∨
      ∃ t E region t' U shared, InitOk m.table args.epmPaddr args.epmSize .any false region E t ∧
        InitOk t args.utmPaddr args.utmSize .bottom false shared U t' ∧
        (m.createEnclave C h env args).1.mem = (m.memZero args.utmPaddr args.utmSize).mem := by
  unfold createEnclave enclAllocEid
  split
  · exact Or.inl rfl
  cases hfind : (List.range ENCL_MAX).find? fun eid => (m.enclaves eid).state == .invalid with
  | none => exact Or.inl rfl
  | some eid =>
    dsimp only [regionInit]
    generalize hm1 : m.setEnclaveCore eid ((m.enclaves eid).setState .allocated) = m1
    have hmem : m1.mem = m.mem := by rw [← hm1]; rfl
    have htable : m1.table = m.table := by rw [← hm1]; rfl
    rw [htable]
    rcases hepm : m.table.pmpRegionInit args.epmPaddr args.epmSize .any false with ⟨t1, e | region⟩
    · exact Or.inl hmem
    dsimp only
    rcases hutm : t1.pmpRegionInit args.utmPaddr args.utmSize .bottom false with ⟨t2, e | shared⟩
    · exact Or.inl hmem
    obtain ⟨E, hE⟩ := pmpRegionInit_ok hepm
    obtain ⟨U, hU⟩ := pmpRegionInit_ok hutm
    have hv : t2.isPmpRegionValid region = true := by
      rw [hU.adds.valid, hE.adds.valid]
      simp
    refine Or.inr ⟨t1, E, region, t2, U, shared, hE, hU, ?_⟩
    dsimp only
    rw [mem_buildEnclave C _ _ _ _ hv, memZero, memZero]
    dsimp only
    rw [hmem]

/-- Destroying an enclave clears its EPM. -/
theorem mem_destroyRegions (env : Env) {eid : Nat} (hno : m.core.NoneRunning)
    (hR : Core.LiveRegions (m.enclaves eid).regions) :
    (m.destroyRegions h env eid).mem =
      (m.memZero (m.table.pmpRegionGetAddr 6) (m.table.pmpRegionGetSize 6)).mem := by
  have hrange : List.range ENCLAVE_REGIONS_MAX = 0 :: [1, 2, 3, 4, 5, 6, 7] := rfl
  have hsame : (m.destroyRegion h env eid 0).core.enclaves = m.core.enclaves := by
    rw [core_destroyRegion, Core.enclaves_destroyRegion hno]
  have hregions : ((m.destroyRegion h env eid 0).enclaves eid).regions = (m.enclaves eid).regions :=
    congrArg EnclaveCore.regions (congrFun hsame eid)
  have hskip : [1, 2, 3, 4, 5, 6, 7].foldl (fun m i => m.destroyRegion h env eid i)
      (m.destroyRegion h env eid 0) = m.destroyRegion h env eid 0 := by
    refine run_fixed _ fun i hi => if_pos ?_
    rw [hregions]
    exact hR.skip (by simp at hi; omega) (by simp [ENCLAVE_REGIONS_MAX] at hi ⊢; omega)
  unfold destroyRegions
  rw [hrange, List.foldl_cons, hskip]
  unfold destroyRegion
  dsimp only
  rw [hR.epm, if_neg (by decide)]
  exact mem_pmpUnsetGlobal ..

theorem mem_destroyShared (eid : Nat) : (m.destroyShared eid).mem = m.mem := by
  unfold destroyShared
  split <;> rfl

theorem mem_destroyEnclave (env : Env) {eid : Nat} (hno : m.core.NoneRunning)
    (hR : Core.LiveRegions (m.enclaves eid).regions)
    (hok : (decide (eid < ENCL_MAX) && (m.enclaves eid).destroyable) = true) :
    (m.destroyEnclave h env eid).1.mem =
      (m.memZero (m.table.pmpRegionGetAddr 6) (m.table.pmpRegionGetSize 6)).mem := by
  unfold destroyEnclave
  rw [if_pos hok]
  generalize hm1 : m.setEnclaveCore eid ((m.enclaves eid).setState .destroying) = m1
  have hcore : m1.core = m.core.setState eid .destroying := by rw [← hm1]; exact core_setState ..
  have hno1 : m1.core.NoneRunning := by rw [hcore]; exact hno.setState (by decide)
  have hR1 : Core.LiveRegions (m1.enclaves eid).regions := by
    have : (m1.core.enclaves eid).regions = (m.enclaves eid).regions := by
      rw [hcore]
      simp [Core.setState, EnclaveCore.setState]
    rw [core_enclaves] at this
    rw [this]
    exact hR
  have hmem := mem_destroyRegions m1 h env hno1 hR1
  dsimp only
  generalize m1.destroyRegions h env eid = m2 at hmem
  change (m2.destroyShared eid).mem = _
  rw [mem_destroyShared, hmem, ← hm1]
  rfl

end Clear

/-! ## The calls clear no memory of machine mode -/

section Off

variable {m : Monitor} {h : HartId} {a : Word}

theorem mem_create_off (hslots : Slots m.table none none ∨ ∃ E U, Slots m.table (some E) (some U))
    {env : Env} {args : CreateArgs}
    (hutm : Disjoint (byteRange args.utmPaddr args.utmSize) sallyport)
    (ha : a.toNat ∈ machineMemory) :
    (m.createEnclave C h env args).1.mem a = m.mem a := by
  rcases m.mem_createEnclave C h env args with hsame | ⟨t, E, region, t', U, shared, hE, hU, hmem⟩
  · rw [hsame]
  rcases hslots with hfree | ⟨E', U', hfull⟩
  · obtain ⟨_, hs⟩ := hfree.add_epm hE
    obtain ⟨rfl, hs'⟩ := hs.add_utm hU
    have hreg : t'.regions 7 = U := (hs'.utm U rfl).1
    have hbytes : U.bytes = byteRange args.utmPaddr args.utmSize := by
      rw [PmpRegion.bytes, hU.addr, hU.size]
    have hoff : Disjoint (t'.regions 7).bytes machineMemory := by
      refine disjoint_machineMemory hs' (by decide) (exclusive_slot hs' (Or.inr rfl)) ?_
      rw [hreg, hbytes]
      exact hutm
    rw [hreg, hbytes] at hoff
    have hfits := (wellPlaced_of_init hU).fits
    rw [hU.addr, hU.size] at hfits
    rw [hmem]
    exact m.memZero_of_notMem hfits (Set.disjoint_right.mp hoff ha)
  · exact absurd hE hfull.full

theorem mem_destroy_off (hg : m.Guarded) {env : Env} {eid : Nat} (ha : a.toNat ∈ machineMemory) :
    (m.destroyEnclave h env eid).1.mem a = m.mem a := by
  by_cases hok : (decide (eid < ENCL_MAX) && (m.enclaves eid).destroyable) = true
  · have hd : (m.core.enclaves eid).destroyable = true := (Bool.and_eq_true .. ▸ hok).2
    have hp : (m.core.enclaves eid).present = true := (Bool.and_eq_true .. ▸ hd).1
    rcases hg.settled.one with hidle | ⟨e, E, U, hl⟩
    · rw [EnclaveCore.present, (hidle.unused eid).state] at hp
      cases hp
    obtain rfl := hl.eq_of_present hp
    have hno := hl.noneRunning (Core.not_running_of_destroyable hd)
    have hx : m.table.Exclusive 6 := exclusive_slot hl.slots (Or.inl rfl)
    have haddr : m.table.pmpRegionGetAddr 6 = (m.table.regions 6).addr := if_pos hx.1
    have hsize : m.table.pmpRegionGetSize 6 = (m.table.regions 6).size := if_pos hx.1
    rw [m.mem_destroyEnclave h env hno hl.present.regions hok, haddr, hsize]
    exact m.memZero_of_notMem (hl.slots.sep.placed 6 hx).fits
      (Set.disjoint_right.mp (hg.region_off hl (Or.inl rfl)) ha)
  · rw [destroyEnclave, if_neg hok]

end Off

/-- The handlers find the tables as the trap found them. -/
theorem Guarded.arrive {m : Monitor} (hg : m.Guarded) (h : HartId) (t : Trap) :
    (m.arrive h t).Guarded := by
  have hcore : (m.arrive h t).core = m.core := m.core_setHart_same h (toHartCore_arrived t _)
  exact ⟨⟨hcore ▸ hg.settled.one, fun g => hcore ▸ hg.settled.su g⟩, hg.avoids⟩

theorem clearsOffMachine (m : Monitor) (k : KeystoneCall) (hg : m.Guarded)
    (hk : AvoidsSallyport k) :
    m.ClearsOffMachine C k := by
  intro hf a ha
  have hslots : Slots m.table none none ∨ ∃ E U, Slots m.table (some E) (some U) := by
    rcases hg.settled.one with hidle | ⟨_, E, U, hl⟩
    · exact Or.inl hidle.slots
    · exact Or.inr ⟨E, U, hl.slots⟩
  unfold callStep step
  dsimp only
  split
  · rw [trapStep_keystone C m k.hart k.trap k.keystone]
    have hga := hg.arrive k.hart k.trap
    change ((m.arrive k.hart k.trap).sbiEcallKeystoneEnclaveHandler C k.hart k.trap.regs.a6
      (frame k.trap) k.trap.env).1.mem a = (m.arrive k.hart k.trap).mem a
    have hslots' : Slots (m.arrive k.hart k.trap).table none none ∨
        ∃ E U, Slots (m.arrive k.hart k.trap).table (some E) (some U) := hslots
    generalize m.arrive k.hart k.trap = m1 at hga hslots' ⊢
    unfold sbiEcallKeystoneEnclaveHandler
    rcases hf with hf | hf
    · rw [hf, if_neg (by decide), if_pos (by decide)]
      split
      · rfl
      rw [keystoneDispatch, if_pos rfl]
      have ha0 : (frame k.trap).a0 = k.trap.regs.a0 := rfl
      rw [ha0]
      unfold sbiSmCreateEnclave
      dsimp only
      cases hargs : copyEnclaveCreateArgs k.trap.env k.trap.regs.a0 with
      | error st => rfl
      | ok args =>
        have hutm := (hk args (by rw [KeystoneCall.createArgs, if_pos hf, hargs]; rfl)).2
        dsimp only
        generalize hm2 : (m1.osmPmpSet k.hart (PMP_R ||| PMP_W)).osmPmpSet k.hart
          (PMP_X ||| PMP_W ||| PMP_R) = m2
        have hslots2 : Slots m2.table none none ∨ ∃ E U, Slots m2.table (some E) (some U) := by
          rw [← hm2]; exact hslots'
        have hmem2 : m2.mem = m1.mem := by rw [← hm2]; rfl
        rw [← hmem2, ← mem_create_off C hslots2 hutm ha]
        rcases m2.createEnclave C k.hart k.trap.env args with ⟨m3, st | eid⟩ <;> rfl
    · rw [hf, if_neg (by decide), if_pos (by decide)]
      split
      · rfl
      rw [keystoneDispatch, if_neg (by decide), if_pos rfl]
      exact mem_destroy_off hga ha
  · rfl

/-- In every state that Keystone calls lead to, no region of an enclave meets the memory of machine
mode, and creating and destroying has cleared none of it, if no call asks for an enclave on the
sallyport. -/
theorem enclaves_off_machine_memory (mem : Word → Byte) (keys : Keys) (ks : List KeystoneCall)
    (hok : ∀ k ∈ ks, AvoidsSallyport k) :
    Always (callStep C) OffMachine (bootMonitor mem keys) ks ∧
      StepsOk (callStep C) (ClearsOffMachine C) (bootMonitor mem keys) ks := by
  have hsteps : StepsOk (callStep C) (fun _ k => AvoidsSallyport k) (bootMonitor mem keys) ks :=
    stepsOk_of_mem hok
  exact ⟨always_of_inv (guarded_callStep C) (fun m hg => hg.offMachine) ks (guarded_boot mem keys)
      hsteps,
    stepsOk_of_inv (guarded_callStep C) (clearsOffMachine C) ks (guarded_boot mem keys) hsteps⟩

/-- A create call of hart 0 for an EPM and a UTM, neither of which has pages to be measured. -/
def createCall (epmPaddr epmSize utmPaddr utmSize : Word) : KeystoneCall where
  hart := 0
  trap :=
    let bytes := [epmPaddr, epmSize, utmPaddr, utmSize, epmPaddr, epmPaddr, epmPaddr, 0].flatMap
      wordBytes
    callTrap SBI_SM_CREATE_ENCLAVE 0 { faultEnv with load := fun p => bytes[p.toNat]? }
  keystone := isKeystone_callTrap ..

theorem created_enclave_off_machine_memory :
    let ks := [createCall 0x90000000 0x4000 0xa0000000 0x1000]
    ((run (callStep noCrypto) (bootMonitor (fun _ => 0) noKeys) ks).enclaves 0).state = .fresh ∧
      Always (callStep noCrypto) OffMachine (bootMonitor (fun _ => 0) noKeys) ks ∧
      StepsOk (callStep noCrypto) (ClearsOffMachine noCrypto)
          (bootMonitor (fun _ => 0) noKeys) ks := by
  refine ⟨by decide +kernel, enclaves_off_machine_memory noCrypto _ _ _ fun k hk => ?_⟩
  rw [List.mem_singleton] at hk
  subst hk
  intro args hargs
  have hval : (createCall 0x90000000 0x4000 0xa0000000 0x1000).createArgs = some
      ⟨0x90000000, 0x4000, 0xa0000000, 0x1000, 0x90000000, 0x90000000, 0x90000000, 0⟩ := by
    decide +kernel
  rw [hval] at hargs
  cases hargs
  constructor
  · rw [sallyport, byteRange_disjoint_iff (by decide) (by decide)]
    decide
  · rw [sallyport, byteRange_disjoint_iff (by decide) (by decide)]
    decide

/-- The sallyport can become the memory of an enclave, and can be cleared as its shared memory. -/
theorem sallyport_claimed_and_cleared :
    ¬ OffMachine (run (callStep noCrypto) (bootMonitor (fun _ => 0) noKeys)
        [createCall 0x80080000 0x40000 0xa0000000 0x1000]) ∧
      ¬ ClearsOffMachine noCrypto (bootMonitor (fun _ => 1) noKeys)
        (createCall 0x90000000 0x4000 0x80080000 0x40000) := by
  have hbyte : 0x80080000 ∈ machineMemory := by
    refine ⟨(REGION_SP1_CODE_BASE, REGION_SP1_CODE_SIZE), by simp [machineRanges], ?_⟩
    rw [byteRange, Set.mem_Ico]
    decide
  constructor
  · intro hoff
    have hdisj := hoff 0 (by decide) 0 (by decide) (Or.inl (by decide +kernel))
    refine Set.disjoint_left.mp hdisj ?_ hbyte
    rw [PmpRegion.bytes, byteRange, Set.mem_Ico]
    decide +kernel
  · intro hclear
    have hsame := hclear (Or.inl rfl) 0x80080000 hbyte
    exact absurd hsame (by decide +kernel)

end Monitor

end Dorami.Sm
