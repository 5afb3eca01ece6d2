import Dorami.Monitor.Secrets
import Dorami.Monitor.Proofs.CreateProofs
import Dorami.Monitor.Proofs.ProvisionProofs
import Dorami.Monitor.Proofs.DataProofs
import Dorami.Monitor.Proofs.SegmentProofs

/-!
# Two runs that differ in the secrets of enclaves

`Twin` relates the states of two runs that differ in what enclaves keep to themselves: what decides
about memory is the same in both, and memory is the same outside the EPM of a live enclave and the
monitor's data. Calls that ask for no service keep this. A create call finds no enclave, so what it
measures is the same in both runs; a destroy call leaves zeros where they differed.
-/

namespace Dorami.Sm

open Riscv Lib

namespace Monitor

variable (C : Crypto) {d : Detail}

/-! ## The EPM of the one enclave -/

section Epm

variable {m : Monitor} {e : Nat} {E U : PmpRegion}

theorem inEpm_iff (m : Monitor) (e a : Nat) : m.inEpm e a = true ↔
    ∃ i < ENCLAVE_REGIONS_MAX, ((m.enclaves e).regions i).type =
        .epm ∧ a ∈ (m.regionOf e i).bytes := by
  unfold inEpm
  rw [List.any_eq_true]
  constructor
  · rintro ⟨i, hi, ht⟩
    rw [Bool.and_eq_true, beq_iff_eq, decide_eq_true_iff] at ht
    exact ⟨i, List.mem_range.mp hi, ht.1, ht.2⟩
  · rintro ⟨i, hi, hty, hmem⟩
    refine ⟨i, List.mem_range.mpr hi, ?_⟩
    rw [Bool.and_eq_true, beq_iff_eq, decide_eq_true_iff]
    exact ⟨hty, hmem⟩

theorem inEpm_live (hl : m.core.Live d e E U) (a : Nat) : m.inEpm e a = true ↔ a ∈ E.bytes := by
  have hR : Core.LiveRegions (m.enclaves e).regions := hl.present.regions
  rw [inEpm_iff]
  constructor
  · rintro ⟨i, hi, hty, hmem⟩
    obtain ⟨rfl, _⟩ | ⟨_, hreg⟩ := liveRegions_cases hR hi (by rw [hty]; decide)
    · rwa [regionOf_epm hl] at hmem
    · rw [hreg] at hty
      cases hty
  · intro hmem
    refine ⟨0, by decide, by rw [hR.epm], ?_⟩
    rwa [regionOf_epm hl]

/-- Which addresses belong to a live enclave can be read off the region table. -/
theorem inLiveEpm_iff (hs : m.Settled d) (a : Nat) :
    m.InLiveEpm a ↔ m.table.isPmpRegionValid 6 = true ∧ a ∈ (m.table.regions 6).bytes := by
  rcases hs.one with hi | ⟨e, E, U, hl⟩
  · constructor
    · rintro ⟨e, _, halive, _⟩
      exact absurd halive (not_alive_of_unused (hi.unused e))
    · rintro ⟨hv, _⟩
      have := (hi.slots.valid 6).mp hv
      simp at this
  · have hv : m.table.isPmpRegionValid 6 = true :=
      (hl.slots.valid 6).mpr (Or.inr (Or.inl ⟨rfl, rfl⟩))
    have hreg : m.table.regions 6 = E := (hl.slots.epm E rfl).1
    rw [hreg]
    constructor
    · rintro ⟨e', _, halive, hin⟩
      obtain rfl := eq_of_alive hl halive
      exact ⟨hv, (inEpm_live hl a).mp hin⟩
    · rintro ⟨_, hmem⟩
      exact ⟨e, hl.lt, hl.present.state, (inEpm_live hl a).mpr hmem⟩

/-- The EPM of the enclave a hart is inside of is that of a live enclave. -/
theorem inLiveEpm_of_inside (hs : m.Settled d) {h : HartId} (hin : (m.hart h).isEnclave = true)
    {a : Nat} (ha : m.inEpm (m.hart h).eid a = true) : m.InLiveEpm a := by
  rcases hs.one with hi | ⟨e, E, U, hl⟩
  · have hout : (m.hart h).isEnclave = false := hi.outside h
    rw [hout] at hin
    cases hin
  · obtain ⟨hlt, hrun⟩ := hl.occupancy.running h hin
    exact ⟨_, hlt, Or.inr (Or.inr hrun), ha⟩

end Epm

/-! ## A call -/

section Call

variable {m : Monitor} (k : KeystoneCall)

theorem trapEnabled_of_settled (hs : m.Settled d) (h : HartId) (t : Trap) :
    m.trapEnabled h t = true := by
  have hall : (List.finRange 4).all (fun g => (m.hart g).mode == .su) = true :=
    List.all_eq_true.mpr fun g _ => beq_iff_eq.mpr (hs.su g)
  have hsu : ((m.hart h).mode == .su) = true := beq_iff_eq.mpr (hs.su h)
  rw [trapEnabled, hall, hsu, Bool.or_true]
  rfl

theorem callStep_eq (hs : m.Settled d) :
    m.callStep C k = (m.served C k.hart k.trap).1.setMode k.hart .su := by
  rw [callStep, step, if_pos (trapEnabled_of_settled hs k.hart k.trap),
    trapStep_keystone C m k.hart k.trap k.keystone, handler_arrive]

theorem core_arrive (m : Monitor) (h : HartId) (t : Trap) : (m.arrive h t).core = m.core :=
  m.core_setHart_same h (toHartCore_arrived t _)

variable (m) (h : HartId) (regs : TrapRegs) (env : Env)

/-- Only create and destroy calls change the region table. -/
theorem table_serve {req : Request} (hc : req ≠ .create) (hd : req ≠ .destroy) :
    (m.serve C h regs env req).1.table = m.table := by
  cases req with
  | refused status => rfl
  | create => exact absurd rfl hc
  | destroy => exact absurd rfl hd
  | run =>
    dsimp only [serve, sbiSmRunEnclave, runEnclave]
    split <;> rfl
  | resume =>
    dsimp only [serve, sbiSmResumeEnclave, resumeEnclave]
    split <;> rfl
  | random => exact (same_withRandom _).2.1
  | attest =>
    dsimp only [serve, attestEnclave]
    repeat' split
    all_goals rfl
  | sealingKey =>
    dsimp only [serve, getSealingKey]
    split <;> rfl
  | stop =>
    dsimp only [serve, sbiSmStopEnclave, stopEnclave, stopResult]
    repeat' split
    all_goals rfl
  | exit =>
    dsimp only [serve, sbiSmExitEnclave, exitEnclave]
    split <;> rfl

/-- Four requests write memory. -/
theorem mem_serve {req : Request} (hc : req ≠ .create) (hd : req ≠ .destroy) (ha : req ≠ .attest)
    (hk : req ≠ .sealingKey) : (m.serve C h regs env req).1.mem = m.mem := by
  cases req with
  | refused status => rfl
  | create => exact absurd rfl hc
  | destroy => exact absurd rfl hd
  | run => exact mem_runEnclave ..
  | resume => exact mem_resumeEnclave ..
  | random => exact (same_withRandom _).1
  | attest => exact absurd rfl ha
  | sealingKey => exact absurd rfl hk
  | stop => exact mem_stopEnclave ..
  | exit => exact mem_exitEnclave ..

end Call

/-! ## Two runs -/

/-- The states of two runs that differ in what enclaves keep to themselves. -/
structure Twin (m m' : Monitor) : Prop where
  settled : m.Settled .views
  noTor : m.table.hasTor = false
  core : m'.core = m.core
  keys : m'.keys = m.keys
  sized : m.keys.Sized
  digest : ∀ e, (m.enclaves e).hash.length = MDSIZE
  hash : ∀ e, (m'.enclaves e).hash = (m.enclaves e).hash
  mem : EqOff m.secret m.mem m'.mem

section Twin

variable {C} {m m' : Monitor} {k k' : MemCall}

theorem Twin.table (ht : Twin m m') : m'.table = m.table := congrArg Core.table ht.core

theorem Twin.enclaveCore (ht : Twin m m') (e : Nat) :
    (m'.enclaves e).toEnclaveCore = (m.enclaves e).toEnclaveCore :=
  congrArg (fun c : Core => c.enclaves e) ht.core

theorem Twin.hartCore (ht : Twin m m') (g : HartId) :
    (m'.hart g).toHartCore = (m.hart g).toHartCore := congrArg (fun c : Core => c.hart g) ht.core

theorem Twin.isEnclave (ht : Twin m m') (g : HartId) :
    (m'.hart g).isEnclave = (m.hart g).isEnclave := congrArg HartCore.isEnclave (ht.hartCore g)

theorem Twin.eid (ht : Twin m m') (g : HartId) : (m'.hart g).eid = (m.hart g).eid :=
  congrArg HartCore.eid (ht.hartCore g)

theorem Twin.settled' (ht : Twin m m') : m'.Settled .views :=
  ⟨ht.core ▸ ht.settled.one, fun g => ht.core ▸ ht.settled.su g⟩

theorem Twin.inEpm (ht : Twin m m') (e a : Nat) : m'.inEpm e a = m.inEpm e a := by
  have hregions : (m'.enclaves e).regions = (m.enclaves e).regions :=
    congrArg EnclaveCore.regions (ht.enclaveCore e)
  unfold Monitor.inEpm regionOf
  rw [hregions, ht.table]

theorem Twin.live (ht : Twin m m') (a : Nat) : m'.InLiveEpm a ↔ m.InLiveEpm a := by
  rw [inLiveEpm_iff ht.settled', inLiveEpm_iff ht.settled, ht.table]

/-- Which addresses are secret can be read off the region table. -/
theorem secret_congr {r : Monitor} (hs : m.Settled d) (hr : r.Settled d)
    (htable : r.table = m.table) :
    r.secret = m.secret := by
  ext a
  have hlive : r.InLiveEpm a.toNat ↔ m.InLiveEpm a.toNat := by
    rw [inLiveEpm_iff hr, inLiveEpm_iff hs, htable]
  exact or_congr Iff.rfl hlive

/-- Where no enclave lives the two memories are the same, but for the data of the monitor. -/
theorem Twin.mem_eq (ht : Twin m m') (hno : m.table.isPmpRegionValid 6 = false) :
    EqOff {a : Word | a.toNat ∈ monitorData} m.mem m'.mem := by
  intro a hdata
  refine ht.mem a ?_
  rintro (hin | hlive)
  · exact hdata hin
  · have hv := ((inLiveEpm_iff ht.settled _).mp hlive).1
    rw [hno] at hv
    cases hv

/-! ### What the two calls have in common -/

theorem Twin.request (ht : Twin m m') (hk : m.SameCall k k') :
    m'.requestOf k'.hart k'.trap = m.requestOf k.hart k.trap := by
  unfold requestOf
  rw [hk.hart, hk.funcid, ht.isEnclave]

theorem Twin.createArgs (hk : m.SameCall k k')
    (hf : k.trap.regs.a6 = SBI_SM_CREATE_ENCLAVE) :
    copyEnclaveCreateArgs k'.trap.env k.trap.regs.a0 =
      copyEnclaveCreateArgs k.trap.env k.trap.regs.a0 := by
  unfold copyEnclaveCreateArgs
  rw [hk.create hf]

/-- The events of the two calls are the same, if both derive a key or none does. -/
theorem Twin.event {C C' : Crypto} (hk : m.SameCall k k')
    (hkey : k.trap.regs.a6 = SBI_SM_GET_SEALING_KEY →
      (m'.smDeriveSealingKey C' k.trap.regs.a1 k.trap.regs.a2
          (m'.enclaves (m'.hart k.hart).eid).hash).isSome =
        (m.smDeriveSealingKey C k.trap.regs.a1 k.trap.regs.a2
          (m.enclaves (m.hart k.hart).eid).hash).isSome) :
    m'.callEvent C' k'.hart k'.trap.regs k'.trap.env =
      m.callEvent C k.hart k.trap.regs k.trap.env := by
  unfold callEvent
  dsimp only
  rw [hk.hart, hk.funcid, hk.a0, hk.a1, hk.a2]
  split
  · next hf => rw [Twin.createArgs hk hf]
  split
  · rfl
  split
  · rfl
  split
  · rfl
  split
  · next hf => rw [hk.data hf]
  split
  · next hf => rw [hkey hf]
  · rfl

theorem Twin.core_callStep {C C' : Crypto} (ht : Twin m m') (hk : m.SameCall k k')
    (hkey : k.trap.regs.a6 = SBI_SM_GET_SEALING_KEY →
      (m'.smDeriveSealingKey C' k.trap.regs.a1 k.trap.regs.a2
          (m'.enclaves (m'.hart k.hart).eid).hash).isSome =
        (m.smDeriveSealingKey C k.trap.regs.a1 k.trap.regs.a2
          (m.enclaves (m.hart k.hart).eid).hash).isSome) :
    (m'.callStep C' k'.toKeystoneCall).core = (m.callStep C k.toKeystoneCall).core := by
  have hev : m.event C (.trap k.hart k.trap) = m.callEvent C k.hart k.trap.regs k.trap.env :=
    m.trapEvent_keystone C k.hart k.keystone
  have hev' : m'.event C' (.trap k'.hart k'.trap) =
      m'.callEvent C' k'.hart k'.trap.regs k'.trap.env :=
    m'.trapEvent_keystone C' k'.hart k'.keystone
  have hcore : (m.callStep C k.toKeystoneCall).core =
      m.core.step (m.event C (.trap k.hart k.trap)) := m.step_core C _
  have hcore' : (m'.callStep C' k'.toKeystoneCall).core =
      m'.core.step (m'.event C' (.trap k'.hart k'.trap)) := m'.step_core C' _
  rw [hcore, hcore', hev, hev', Twin.event hk hkey, ht.core]

/-- The handlers find the states of the two runs as the calls found them. -/
theorem Twin.arrive (ht : Twin m m') (h h' : HartId) (t t' : Trap) :
    Twin (m.arrive h t) (m'.arrive h' t') := by
  have hcore := core_arrive m h t
  have hsettled : (m.arrive h t).Settled .views :=
    ⟨hcore ▸ ht.settled.one, fun g => hcore ▸ ht.settled.su g⟩
  refine ⟨hsettled, ht.noTor, ?_, ht.keys, ht.sized, ht.digest, ht.hash, ?_⟩
  · rw [core_arrive, core_arrive, ht.core]
  · rw [secret_congr ht.settled hsettled rfl]
    exact ht.mem

/-! ### Creating -/

/-- A measurement depends on what it reads. -/
theorem hashStream_congr {m₁ m₂ : Monitor} {params : RuntimeParams}
    (hmem : ∀ a ∈ measuredAddrs params, m₁.mem a = m₂.mem a) :
    hashStream params m₁ = hashStream params m₂ := by
  rw [hashStream_reads, hashStream_reads, List.map_congr_left hmem]

theorem EqOff.memZero {S : Set Word} (h : EqOff S m.mem m'.mem) (base size : Word) :
    EqOff S (m.memZero base size).mem (m'.memZero base size).mem := by
  intro a ha
  dsimp only [Monitor.memZero]
  rw [h a ha]

/-- The hash of an enclave that is built is that of its memory after the UTM has been cleared. -/
theorem hash_buildEnclave (h : HartId) (env : Env) (args : CreateArgs) {eid region shared : Nat}
    (hv : m.table.isPmpRegionValid region = true) :
    ((m.buildEnclave C h env args eid region shared).1.enclaves eid).hash =
      C.sha3 (hashStream args.params (m.memZero args.utmPaddr args.utmSize)) := by
  unfold buildEnclave
  rw [pmpSetGlobal_valid _ _ _ _ hv]
  dsimp only [platformCreateEnclave]
  have hmem := m.mem_monSendSyncIpi h env.frames ⟨region, false, PMP_NO_PERM⟩
  generalize m.monSendSyncIpi h env.frames ⟨region, false, PMP_NO_PERM⟩ = m₁ at hmem
  dsimp only [measureEnclave, validateAndHashEnclave]
  have hparams : ∀ m₂ : Monitor, ((m₂.initMetadata h eid region shared args).enclaves eid).params =
      args.params := by
    intro m₂
    simp [initMetadata, setEnclave, EnclaveCore.create]
  generalize hm₂ : m₁.cleanEnclaveMemory h args.utmPaddr args.utmSize = m₂
  have hmem₂ : m₂.mem = (m.memZero args.utmPaddr args.utmSize).mem := by
    rw [← hm₂]
    change (m₁.memZero args.utmPaddr args.utmSize).mem = _
    rw [memZero, memZero, hmem]
  have hself : ∀ (m₃ : Monitor) (en : Enclave), ((m₃.setEnclave eid en).enclaves eid) = en :=
    fun m₃ en => if_pos rfl
  rw [hself]
  dsimp only
  refine congrArg C.sha3 ?_
  have hmem₃ : (((m₂.initMetadata h eid region shared args).pmpSet h region EPMP_ALL_RW).osmPmpSet h
      (PMP_R ||| PMP_W)).mem = (m.memZero args.utmPaddr args.utmSize).mem := hmem₂
  rw [← hashStream_congr fun a _ => congrFun hmem₃ a]
  exact congrArg (fun p => hashStream p _) (hparams m₂)

/-- What a create call that is granted leaves, where there was no enclave before. -/
structure Built (C : Crypto) (m : Monitor) (args : CreateArgs) (eid : Nat) (r : Monitor) :
    Prop where
  mem : r.mem = (m.memZero args.utmPaddr args.utmSize).mem
  state : ∀ e, (r.enclaves e).state = if e = eid then .fresh else .invalid
  digest : (r.enclaves eid).hash =
    C.sha3 (hashStream args.params (m.memZero args.utmPaddr args.utmSize))
  hash : ∀ e, e ≠ eid → (r.enclaves e).hash = (m.enclaves e).hash

/-- Where there is no other enclave, the one that is built is the only one, and fresh. -/
theorem state_buildEnclave {eid region : Nat} (hv : m.table.isPmpRegionValid region = true)
    (hstate : ∀ e, (m.enclaves e).state = if e = eid then .allocated else .invalid) (h : HartId)
    (env : Env) (args : CreateArgs) (shared e : Nat) :
    ((m.buildEnclave C h env args eid region shared).1.enclaves e).state =
      if e = eid then .fresh else .invalid := by
  have hnone : m.core.NoneRunning := by
    intro e'
    have hst : (m.core.enclaves e').state = _ := hstate e'
    rw [hst]
    split <;> simp
  have hcore := m.core_buildEnclave h eid C env args region shared hv
  rw [Core.build_eq hnone] at hcore
  have hen : ((m.buildEnclave C h env args eid region shared).1.enclaves e).state = _ :=
    congrArg (fun c : Core => (c.enclaves e).state) hcore
  rw [hen]
  dsimp only
  split
  · rfl
  · next hne => exact (hstate e).trans (if_neg hne)

theorem createEnclave_built (hno : ∀ e, (m.enclaves e).state = .invalid) {args : CreateArgs}
    (hgr : m.grants args = true) (h : HartId) (env : Env) :
    ∃ eid, Built C m args eid (m.createEnclave C h env args).1 := by
  rcases createEnclave_cases C m h env args with ⟨_, eid, region, shared, t, hg, heq, _⟩ | ⟨hnot, _⟩
  swap
  · rw [hnot] at hgr
    cases hgr
  rw [heq]
  have hv := hg.valid
  generalize hm₁ : ({ m.setEnclaveCore eid ((m.enclaves eid).setState .allocated) with
    table := t } : Monitor) = m₁
  have hv₁ : m₁.table.isPmpRegionValid region = true := hm₁ ▸ hv
  have hmem₁ : m₁.mem = m.mem := hm₁ ▸ rfl
  have hzero : (m₁.memZero args.utmPaddr args.utmSize).mem =
      (m.memZero args.utmPaddr args.utmSize).mem := by
    rw [memZero, memZero, hmem₁]
  have hstate : ∀ e, (m₁.enclaves e).state = if e = eid then .allocated else .invalid := by
    intro e
    rw [← hm₁]
    dsimp only [setEnclaveCore, setEnclave]
    split
    · rfl
    · exact hno e
  have hkeeps : KeepsCalls h (Records m.keys fun e hash => e ≠ eid → hash = (m.enclaves e).hash) :=
    KeepsTraps.calls Records.keeps h
  have hrec : m₁.Records m.keys fun e hash => e ≠ eid → hash = (m.enclaves e).hash := by
    rw [← hm₁]
    exact hkeeps.table t (hkeeps.enclaveCore trivial ⟨rfl, fun e _ => rfl⟩ _)
  refine ⟨eid, ?_, fun e => state_buildEnclave hv₁ hstate h env args shared e, ?_,
    fun e hne => ?_⟩
  · rw [mem_buildEnclave _ _ _ _ _ hv₁, hzero]
  · rw [hash_buildEnclave h env args hv₁, hashStream_congr fun a _ => congrFun hzero a]
  · have hbuilt := hkeeps.buildEnclave (C := C) hrec
      (fun text hm => hm.setEnclave eid fun hself => absurd rfl hself) env args region shared
    exact hbuilt.hash e hne

/-- Both runs build an enclave, the same one. -/
theorem Built.same {args : CreateArgs} {eid eid' : Nat} {r r' : Monitor} (hb : Built C m args eid r)
    (hb' : Built C m' args eid' r') (hcore : r'.core = r.core)
    (hmem : EqOff {a : Word | a.toNat ∈ monitorData} m.mem m'.mem)
    (hread : ∀ a ∈ measuredAddrs args.params, a.toNat ∉ monitorData)
    (hhash : ∀ e, (m'.enclaves e).hash = (m.enclaves e).hash) :
    (∀ e, (r'.enclaves e).hash = (r.enclaves e).hash) ∧
      EqOff {a : Word | a.toNat ∈ monitorData} r.mem r'.mem := by
  have hzero := EqOff.memZero hmem args.utmPaddr args.utmSize
  have heid : eid' = eid := by
    have hst : (r'.enclaves eid').state = (r.enclaves eid').state :=
      congrArg (fun c : Core => (c.enclaves eid').state) hcore
    rw [hb'.state, hb.state, if_pos rfl] at hst
    by_contra hne
    rw [if_neg hne] at hst
    cases hst
  subst heid
  refine ⟨fun e => ?_, ?_⟩
  · by_cases he : e = eid'
    · rw [he, hb.digest, hb'.digest, hashStream_congr fun a ha => hzero a (hread a ha)]
    · rw [hb.hash e he, hb'.hash e he, hhash]
  · rw [hb.mem, hb'.mem]
    exact hzero

theorem grants_congr (hcore : m'.core = m.core) (args : CreateArgs) :
    m'.grants args = m.grants args := by
  have htable : m'.table = m.table := congrArg Core.table hcore
  have hstate : ∀ e, (m'.enclaves e).state = (m.enclaves e).state :=
    fun e => congrArg (fun c : Core => (c.enclaves e).state) hcore
  unfold grants
  simp only [htable, hstate]

/-- A call that is not granted changes nothing but the table. -/
theorem createEnclave_refused {args : CreateArgs} (hgr : m.grants args = false) (h : HartId)
    (env : Env) : (m.createEnclave C h env args).1.mem = m.mem ∧
      ∀ e, ((m.createEnclave C h env args).1.enclaves e).hash = (m.enclaves e).hash := by
  rcases createEnclave_cases C m h env args with ⟨hg, _⟩ | ⟨_, _, _, heq | ⟨t, region, _, heq⟩⟩
  · rw [hgr] at hg
    cases hg
  · rw [heq]
    exact ⟨rfl, fun e => rfl⟩
  · rw [heq]
    exact ⟨rfl, fun e => rfl⟩

/-- Where an enclave lives there is no room for another one. -/
theorem createEnclave_full {E U : PmpRegion} (hs : Slots m.table (some E) (some U)) (h : HartId)
    (env : Env) (args : CreateArgs) : (m.createEnclave C h env args).1 = m := by
  rcases createEnclave_cases C m h env args with
    ⟨_, eid, region, shared, t, hg, _⟩ | ⟨_, _, _, heq | ⟨t, region, hinit, _⟩⟩
  · obtain ⟨t₁, hinit, _⟩ := hg.epm
    obtain ⟨r, hr⟩ := pmpRegionInit_ok hinit
    exact absurd hr hs.full
  · exact heq
  · obtain ⟨r, hr⟩ := pmpRegionInit_ok hinit
    exact absurd hr hs.full

/-- Two states `r`, `r'` after `m`, `m'`: memory is the same in both but for the monitor's data, or
nothing has been written. -/
structure Matched (m m' r r' : Monitor) : Prop where
  hash : ∀ e, (r'.enclaves e).hash = (r.enclaves e).hash
  mem : EqOff {a : Word | a.toNat ∈ monitorData} r.mem r'.mem ∨
    (r.table = m.table ∧ r.mem = m.mem ∧ r'.mem = m'.mem)

theorem Twin.createEnclave (ht : Twin m m') {m₁ m₁' : Monitor} (hcore : m₁'.core = m₁.core)
    (htable : m₁.table = m.table) (hen : m₁.enclaves = m.enclaves)
    (hen' : m₁'.enclaves = m'.enclaves) (hmem : m₁.mem = m.mem) (hmem' : m₁'.mem = m'.mem)
    (h : HartId) (env env' : Env) {args : CreateArgs}
    (hread : ∀ a ∈ measuredAddrs args.params, a.toNat ∉ monitorData) :
    Matched m m' (m₁.createEnclave C h env args).1 (m₁'.createEnclave C h env' args).1 := by
  rcases ht.settled.one with hi | ⟨e, E, U, hl⟩
  · -- no enclave lives: the two memories are the same where the measurement reads
    have hno : m.table.isPmpRegionValid 6 = false := by
      rw [Bool.eq_false_iff]
      intro hv
      have := (hi.slots.valid 6).mp hv
      simp at this
    have hsame : EqOff {a : Word | a.toNat ∈ monitorData} m₁.mem m₁'.mem := by
      rw [hmem, hmem']
      exact ht.mem_eq hno
    have hhash : ∀ e, (m₁'.enclaves e).hash = (m₁.enclaves e).hash := by
      intro e
      rw [hen, hen', ht.hash]
    cases hgr : m₁.grants args with
    | true =>
      have hinv : ∀ e, (m₁.enclaves e).state = .invalid := by
        intro e
        rw [hen]
        exact (hi.unused e).state
      have hinv' : ∀ e, (m₁'.enclaves e).state = .invalid := by
        intro e
        have : (m₁'.enclaves e).state = (m₁.enclaves e).state :=
          congrArg (fun c : Core => (c.enclaves e).state) hcore
        rw [this, hinv]
      obtain ⟨eid, hb⟩ := createEnclave_built hinv hgr h env
      obtain ⟨eid', hb'⟩ := createEnclave_built hinv' ((grants_congr hcore args).trans hgr) h env'
      have hres : (m₁'.createEnclave C h env' args).1.core =
          (m₁.createEnclave C h env args).1.core := by
        rw [core_createEnclave, core_createEnclave, hcore]
      obtain ⟨hh, hm⟩ := hb.same hb' hres hsame hread hhash
      exact ⟨hh, Or.inl hm⟩
    | false =>
      have hr := createEnclave_refused (C := C) hgr h env
      have hr' := createEnclave_refused (C := C) ((grants_congr hcore args).trans hgr) h env'
      refine ⟨fun e => by rw [hr.2, hr'.2, hhash], Or.inl ?_⟩
      rw [hr.1, hr'.1]
      exact hsame
  · have hs : Slots m₁.table (some E) (some U) := htable ▸ hl.slots
    have htable' : m₁'.table = m₁.table := congrArg Core.table hcore
    have hs' : Slots m₁'.table (some E) (some U) := htable'.symm ▸ hs
    rw [createEnclave_full hs, createEnclave_full hs']
    refine ⟨fun e => ?_, Or.inr ⟨htable, hmem, hmem'⟩⟩
    rw [hen, hen', ht.hash]

theorem Twin.sbiSmCreateEnclave (ht : Twin m m') {h h' : HartId} {env env' : Env} {a0 a0' : Word}
    (hh : h' = h) (hargs : copyEnclaveCreateArgs env' a0' = copyEnclaveCreateArgs env a0)
    (hread : ∀ args, copyEnclaveCreateArgs env a0 = .ok args →
      ∀ a ∈ measuredAddrs args.params, a.toNat ∉ monitorData) :
    Matched m m' (m.sbiSmCreateEnclave C h env a0).1 (m'.sbiSmCreateEnclave C h' env' a0').1 := by
  subst hh
  have hcore : ((m'.osmPmpSet h' (PMP_R ||| PMP_W)).osmPmpSet h' (PMP_X ||| PMP_W ||| PMP_R)).core =
      ((m.osmPmpSet h' (PMP_R ||| PMP_W)).osmPmpSet h' (PMP_X ||| PMP_W ||| PMP_R)).core := by
    simp only [core_osmPmpSet, ht.core]
  unfold Monitor.sbiSmCreateEnclave
  dsimp only
  rw [hargs]
  cases hok : copyEnclaveCreateArgs env a0 with
  | error status => exact ⟨ht.hash, Or.inr ⟨rfl, rfl, rfl⟩⟩
  | ok args =>
    have hm := ht.createEnclave (C := C) hcore rfl rfl rfl rfl rfl h' env env' (hread args hok)
    exact ⟨hm.hash, hm.mem⟩

/-! ### Destroying -/

theorem memZero_of_mem {base size a : Word} (ha : a.toNat ∈ byteRange base size) :
    (m.memZero base size).mem a = 0 := by
  refine if_pos ?_
  have hle : base.toNat ≤ a.toNat := ha.1
  have hlt : a.toNat < base.toNat + size.toNat := ha.2
  rw [BitVec.toNat_sub]
  have := a.isLt
  have := base.isLt
  omega

/-- Destroying leaves zeros where the two runs differed. -/
theorem Twin.destroyEnclave (ht : Twin m m') {h h' : HartId} (hh : h' = h) (env env' : Env)
    (eid : Nat) :
    Matched m m' (m.destroyEnclave h env eid).1 (m'.destroyEnclave h' env' eid).1 := by
  subst hh
  have hrec : m.Records m.keys fun e hash => hash = (m.enclaves e).hash := ⟨rfl, fun e => rfl⟩
  have hrec' : m'.Records m'.keys fun e hash => hash = (m'.enclaves e).hash := ⟨rfl, fun e => rfl⟩
  refine ⟨fun e => ?_, ?_⟩
  · have hkept := (KeepsTraps.calls Records.keeps h').destroyEnclave hrec env eid
    have hkept' := (KeepsTraps.calls Records.keeps h').destroyEnclave hrec' env' eid
    rw [hkept.hash, hkept'.hash, ht.hash]
  have hd' : (m'.enclaves eid).destroyable = (m.enclaves eid).destroyable :=
    congrArg EnclaveCore.destroyable (ht.enclaveCore eid)
  by_cases hok : (decide (eid < ENCL_MAX) && (m.enclaves eid).destroyable) = true
  swap
  · rw [Monitor.destroyEnclave, Monitor.destroyEnclave, hd', if_neg hok, if_neg hok]
    exact Or.inr ⟨rfl, rfl, rfl⟩
  have hd : (m.core.enclaves eid).destroyable = true := (Bool.and_eq_true .. ▸ hok).2
  have hp : (m.core.enclaves eid).present = true := (Bool.and_eq_true .. ▸ hd).1
  rcases ht.settled.one with hi | ⟨e, E, U, hl⟩
  · rw [EnclaveCore.present, (hi.unused eid).state] at hp
    cases hp
  obtain rfl := hl.eq_of_present hp
  have hno := hl.noneRunning (Core.not_running_of_destroyable hd)
  have hx : m.table.Exclusive 6 := exclusive_slot hl.slots (Or.inl rfl)
  have haddr : m.table.pmpRegionGetAddr 6 = (m.table.regions 6).addr := if_pos hx.1
  have hsize : m.table.pmpRegionGetSize 6 = (m.table.regions 6).size := if_pos hx.1
  have hregions' : (m'.enclaves eid).regions = (m.enclaves eid).regions :=
    congrArg EnclaveCore.regions (ht.enclaveCore eid)
  left
  intro a hdata
  rw [m.mem_destroyEnclave h' env hno hl.present.regions hok,
    m'.mem_destroyEnclave h' env' (ht.core.symm ▸ hno) (hregions' ▸ hl.present.regions) (hd' ▸ hok),
    ht.table, haddr, hsize]
  have hfits : (m.table.regions 6).addr.toNat + (m.table.regions 6).size.toNat < 2 ^ 64 :=
    (hl.slots.sep.placed 6 hx).fits
  by_cases ha : a.toNat ∈ byteRange (m.table.regions 6).addr (m.table.regions 6).size
  · rw [memZero_of_mem ha, memZero_of_mem ha]
  · rw [memZero_of_notMem _ hfits ha, memZero_of_notMem _ hfits ha]
    refine ht.mem a ?_
    rintro (hin | hlive)
    · exact hdata hin
    · exact ha ((inLiveEpm_iff ht.settled _).mp hlive).2

/-! ### A call -/

theorem request_funcid {inside : Bool} {funcid : Word} {req : Request}
    (hreq : request inside funcid = req) :
    (req = .create → funcid = SBI_SM_CREATE_ENCLAVE) ∧
      (req = .attest → inside = true ∧ funcid = SBI_SM_ATTEST_ENCLAVE) ∧
      (req = .sealingKey → inside = true ∧ funcid = SBI_SM_GET_SEALING_KEY) := by
  subst hreq
  unfold request
  split_ifs <;> simp_all

theorem isEnclave_arrive (m : Monitor) (h : HartId) (t : Trap) (g : HartId) :
    ((m.arrive h t).hart g).isEnclave = (m.hart g).isEnclave :=
  congrArg (fun c : Core => (c.hart g).isEnclave) (core_arrive m h t)

theorem serve_create (m : Monitor) (h : HartId) (regs : TrapRegs) (env : Env) :
    (m.serve C h regs env .create).1 = (m.sbiSmCreateEnclave C h env regs.a0).1 := by
  unfold serve
  rcases m.sbiSmCreateEnclave C h env regs.a0 with ⟨m₁, status | eid⟩ <;> rfl

/-- But for a create call the hashes stay what they were. -/
theorem hash_serve (m : Monitor) (h : HartId) (regs : TrapRegs) (env : Env) {req : Request}
    (hc : req ≠ .create) (e : Nat) :
    ((m.serve C h regs env req).1.enclaves e).hash = (m.enclaves e).hash := by
  have hrec : m.Records m.keys fun e hash => hash = (m.enclaves e).hash := ⟨rfl, fun e => rfl⟩
  exact (hrec.serve h regs env fun hreq => absurd hreq hc).hash e

theorem Matched.of_same {r r' : Monitor} (ht : Twin m m')
    (hhash : ∀ e, (r.enclaves e).hash = (m.enclaves e).hash)
    (hhash' : ∀ e, (r'.enclaves e).hash = (m'.enclaves e).hash) (htable : r.table = m.table)
    (hmem : r.mem = m.mem) (hmem' : r'.mem = m'.mem) : Matched m m' r r' :=
  ⟨fun e => by rw [hhash, hhash', ht.hash], Or.inr ⟨htable, hmem, hmem'⟩⟩

/-- The two states a request leaves that is not for a service. -/
theorem Twin.serve {m₀ : Monitor} (ht : Twin m m') (hk : m₀.SameCall k k')
    (hread : ∀ args, k.createArgs = some args →
      ∀ a ∈ measuredAddrs args.params, a.toNat ∉ monitorData) {req : Request}
    (hcreate : req = .create → k.trap.regs.a6 = SBI_SM_CREATE_ENCLAVE) (ha : req ≠ .attest)
    (hs : req ≠ .sealingKey) :
    Matched m m' (m.serve C k.hart (frame k.trap) k.trap.env req).1
      (m'.serve C k'.hart (frame k'.trap) k'.trap.env req).1 := by
  have ha0 : (frame k'.trap).a0 = (frame k.trap).a0 := hk.a0
  by_cases hc : req = .create
  · subst hc
    have hargs : copyEnclaveCreateArgs k'.trap.env (frame k'.trap).a0 =
        copyEnclaveCreateArgs k.trap.env (frame k.trap).a0 := by
      rw [ha0]
      exact Twin.createArgs hk (hcreate rfl)
    rw [serve_create, serve_create]
    refine ht.sbiSmCreateEnclave hk.hart hargs fun args hok => hread args ?_
    have hok' : copyEnclaveCreateArgs k.trap.env k.trap.regs.a0 = .ok args := hok
    rw [KeystoneCall.createArgs, if_pos (hcreate rfl), hok']
    rfl
  by_cases hd : req = .destroy
  · subst hd
    dsimp only [Monitor.serve]
    rw [ha0]
    exact ht.destroyEnclave hk.hart k.trap.env k'.trap.env _
  exact .of_same ht (hash_serve m _ _ _ hc) (hash_serve m' _ _ _ hc) (table_serve C m _ _ _ hc hd)
    (mem_serve C m _ _ _ hc hd ha hs) (mem_serve C m' _ _ _ hc hd ha hs)

end Twin

end Monitor

end Dorami.Sm
