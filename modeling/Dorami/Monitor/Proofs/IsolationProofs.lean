import Dorami.Monitor.Proofs.LifecycleProofs
import Dorami.Monitor.Proofs.MemoryStepProofs
import Dorami.Monitor.Proofs.TableProofs

/-!
# Isolation over whole runs of Keystone calls

Runs are lists of calls of the Keystone extension, by any harts and with any arguments, from the
state `sm_init` leaves with the OS region opened. As long as no report and no key is stored onto the
variables of the monitor, the enclave table and the region table describe the same regions in every
state of such a run. If moreover every EPM is a NAPOT region, the private memory of an enclave is
out of reach of the harts in host context, and a hart inside an enclave reaches no memory of others.
-/

namespace Dorami.Sm

open Riscv Lib

namespace Monitor

variable (C : Crypto) {d : Detail}

/-! ## The invariant -/

theorem idle_boot (mem : Word → Byte) (keys : Keys) :
    Core.Idle .views (bootMonitor mem keys).core :=
  ⟨slots_boot, fun _ => ⟨rfl, rfl, fun _ _ => rfl⟩, fun _ => rfl,
    fun _ => HartCore.regsOk_of_su rfl fun _ => bare_boot⟩

/-- Between calls there is at most one enclave, and no hart has left S/U mode. -/
structure Settled (d : Detail) (m : Monitor) : Prop where
  one : m.core.AtMostOne d
  su : ∀ g, (m.core.hart g).mode = .su

theorem settled_callStep (m : Monitor) (k : KeystoneCall) (hs : m.Settled d)
    (hnap : d ≠ .tables → (m.callStep C k).table.hasTor = false) (hd : d ≠ .strict) :
    (m.callStep C k).Settled d := by
  have hev : m.event C (.trap k.hart k.trap) = m.callEvent C k.hart k.trap.regs k.trap.env :=
    m.trapEvent_keystone C k.hart k.keystone
  have hcall : (m.event C (.trap k.hart k.trap)).isCall = true := by
    rw [hev]; exact m.isCall_callEvent k.hart k.trap.regs C k.trap.env
  have hcore : (m.callStep C k).core = m.core.step (m.event C (.trap k.hart k.trap)) :=
    m.step_core C _
  rw [Core.step] at hcore
  split at hcore
  · next hen =>
    refine ⟨?_, fun g => ?_⟩
    · rw [hcore]
      refine hs.one.call hcall hen (fun htables => ?_) fun hst => absurd hst hd
      rw [← hcore]
      exact hnap htables
    · rw [hcore, (Core.same_apply hcall g).1]
      exact hs.su g
  · exact ⟨by rw [hcore]; exact hs.one, fun g => by rw [hcore]; exact hs.su g⟩

/-- The tables need no condition. -/
theorem settled_tables (m : Monitor) (k : KeystoneCall) (hs : m.Settled .tables) :
    (m.callStep C k).Settled .tables :=
  m.settled_callStep C k hs (fun hd => absurd rfl hd) (by decide)

theorem settled_boot (mem : Word → Byte) (keys : Keys) : (bootMonitor mem keys).Settled .tables :=
  ⟨Or.inl (idle_boot mem keys).tables, fun _ => rfl⟩

theorem createArgs_of_event {m : Monitor} {k : KeystoneCall} {h : HartId} {a : CreateArgs}
    (hev : m.callEvent C k.hart k.trap.regs k.trap.env = .create h (some a)) :
    k.createArgs = some a := by
  unfold callEvent at hev
  unfold KeystoneCall.createArgs
  split at hev
  · next hf =>
    rw [if_pos hf]
    exact (Event.create.inj hev).2
  · repeat' split at hev
    all_goals cases hev

/-- What the regions a call asks for keep of the region table. -/
theorem table_callStep (m : Monitor) (k : KeystoneCall) {P : PmpTable → Prop}
    (hr : ∀ ev, (∀ h a, ev = .create h (some a) → k.createArgs = some a) → TableRule P ev)
    (hm : P m.table) : P (m.callStep C k).table := by
  have hev : m.event C (.trap k.hart k.trap) = m.callEvent C k.hart k.trap.regs k.trap.env :=
    m.trapEvent_keystone C k.hart k.keystone
  have hcore : (m.callStep C k).core =
      m.core.step (m.callEvent C k.hart k.trap.regs k.trap.env) := hev ▸ m.step_core C _
  have htable : (m.callStep C k).table =
      (m.core.step (m.callEvent C k.hart k.trap.regs k.trap.env)).table := congrArg Core.table hcore
  rw [htable]
  exact Core.table_step (hr _ fun h a heq => createArgs_of_event C heq) hm

/-! ## From the invariant -/

theorem liveRegions_cases {regions : Nat → EnclaveRegion} (hR : Core.LiveRegions regions) {i : Nat}
    (hi : i < ENCLAVE_REGIONS_MAX) (hty : (regions i).type ≠ .invalid) :
    (i = 0 ∧ regions i = ⟨6, .epm⟩) ∨ (i = 1 ∧ regions i = ⟨7, .utm⟩) := by
  by_cases h0 : i = 0
  · exact Or.inl ⟨h0, by rw [h0]; exact hR.epm⟩
  by_cases h1 : i = 1
  · exact Or.inr ⟨h1, by rw [h1]; exact hR.utm⟩
  · exact absurd (hR.rest i (by omega) hi) hty

theorem not_alive_of_unused {en : EnclaveCore} (hu : en.Unused) : ¬ en.Alive := by
  unfold EnclaveCore.Alive
  rw [hu.state]
  decide

section

variable {m : Monitor} {e : Nat} {E U : PmpRegion}

theorem regionOf_epm (hl : m.core.Live d e E U) : m.regionOf e 0 = E := by
  have hreg : (m.enclaves e).regions 0 = ⟨6, .epm⟩ := hl.present.regions.epm
  rw [regionOf, hreg]
  exact (hl.slots.epm E rfl).1

theorem regionOf_utm (hl : m.core.Live d e E U) : m.regionOf e 1 = U := by
  have hreg : (m.enclaves e).regions 1 = ⟨7, .utm⟩ := hl.present.regions.utm
  rw [regionOf, hreg]
  exact (hl.slots.utm U rfl).1

theorem eq_of_alive (hl : m.core.Live d e E U) {e' : Nat} (halive : (m.enclaves e').Alive) :
    e' = e := by
  by_contra hne
  exact not_alive_of_unused (hl.unused e' hne) halive

/-- An entry of a region list in use is one of the two of the enclave. -/
theorem entry_cases (hl : m.core.Live d e E U) {e' i : Nat} (hi : i < ENCLAVE_REGIONS_MAX)
    (hty : ((m.enclaves e').regions i).type ≠ .invalid) :
    e' = e ∧ ((i = 0 ∧ (m.enclaves e').regions i = ⟨6, .epm⟩) ∨
      (i = 1 ∧ (m.enclaves e').regions i = ⟨7, .utm⟩)) := by
  have he : e' = e := by
    by_contra hne
    exact hty ((hl.unused e' hne).regions i hi)
  subst he
  exact ⟨rfl, liveRegions_cases hl.present.regions hi hty⟩

theorem Isolated.of_settled (hs : m.Settled d) (hd : d ≠ .tables) : m.Isolated := by
  rcases hs.one with hi | ⟨e, E, U, hl⟩
  · refine ⟨fun e _ halive => absurd halive (not_alive_of_unused (hi.unused e)), fun h hin => ?_⟩
    have hout : (m.hart h).isEnclave = false := hi.outside h
    rw [hout] at hin
    cases hin
  obtain ⟨hdisj, hextE, hextU⟩ := hl.slots.both_apart
  have hE : EpmOk d.lock E := hl.epm_ok hd
  refine ⟨fun e' _ halive i hi hty a ha h hout => ?_, fun h hin a hge ha64 hany => ?_⟩
  · obtain rfl := eq_of_alive hl halive
    obtain ⟨_, ⟨rfl, _⟩ | ⟨_, hreg⟩⟩ := entry_cases hl hi (by rw [hty]; decide)
    · rw [regionOf_epm hl] at ha
      exact (hl.host_view hout (hs.su h) hd).epm_closed hE hdisj ha
    · rw [hreg] at hty
      cases hty
  · have heid : (m.hart h).eid = e := hl.eid_eq hin
    have hR := hl.present.regions
    obtain ⟨p, _, hview⟩ := hl.inside_view hin (hs.su h) hd
    rw [heid]
    rcases hview.access hE hl.lastOk ha64 hge hany with hmem | hmem
    · refine ⟨0, by decide, Or.inl (congrArg EnclaveRegion.type hR.epm), ?_⟩
      rw [regionOf_epm hl, ← hextE]
      exact hmem
    · refine ⟨1, by decide, Or.inr (congrArg EnclaveRegion.type hR.utm), ?_⟩
      rw [regionOf_utm hl, ← hextU]
      exact hmem

theorem InStep.of_idle (hi : m.core.Idle d) : m.InStep := by
  have hunused : ∀ e, (m.enclaves e).Unused := hi.unused
  refine ⟨fun e _ halive => absurd halive (not_alive_of_unused (hunused e)),
    fun e _ i hlt hty => absurd ((hunused e).regions i hlt) hty,
    fun e _ _ => (hunused e).regions, fun rid hv hge => ?_⟩
  rcases (hi.slots.valid rid).mp hv with hlt | ⟨_, hno⟩ | ⟨_, hno⟩
  · exact absurd hlt (Nat.not_lt.mpr hge)
  · cases hno
  · cases hno

theorem InStep.of_live (hl : m.core.Live d e E U) : m.InStep := by
  have hR := hl.present.regions
  have hepm : (m.enclaves e).regions 0 = ⟨6, .epm⟩ := hR.epm
  have hutm : (m.enclaves e).regions 1 = ⟨7, .utm⟩ := hR.utm
  have hv6 : m.table.isPmpRegionValid 6 = true :=
    (hl.slots.valid 6).mpr (Or.inr (Or.inl ⟨rfl, rfl⟩))
  have hv7 : m.table.isPmpRegionValid 7 = true :=
    (hl.slots.valid 7).mpr (Or.inr (Or.inr ⟨rfl, rfl⟩))
  refine ⟨fun e' _ halive => ?_, fun e' _ i hi hty => ?_, fun e' _ hinv i hi => ?_,
    fun rid hv hge => ?_⟩
  · obtain rfl := eq_of_alive hl halive
    refine ⟨⟨0, by decide, by rw [hepm], fun j hj hty => ?_, by rw [hepm]; exact hv6, ?_⟩,
      ⟨1, by decide, by rw [hutm], fun j hj hty => ?_, by rw [hutm]; exact hv7, ?_⟩⟩
    · obtain ⟨_, ⟨hj0, _⟩ | ⟨_, hreg⟩⟩ := entry_cases hl hj (by rw [hty]; decide)
      · exact hj0
      · rw [hreg] at hty
        cases hty
    · rw [regionOf_epm hl]
      exact hl.present.epm
    · obtain ⟨_, ⟨_, hreg⟩ | ⟨hj1, _⟩⟩ := entry_cases hl hj (by rw [hty]; decide)
      · rw [hreg] at hty
        cases hty
      · exact hj1
    · rw [regionOf_utm hl]
      exact hl.present.utm
  · obtain ⟨rfl, hcase⟩ := entry_cases hl hi hty
    refine ⟨?_, fun e'' _ i' hi' hty' heq => ?_⟩
    · rcases hcase with ⟨_, hreg⟩ | ⟨_, hreg⟩ <;> rw [hreg] <;> decide
    · obtain ⟨rfl, hcase'⟩ := entry_cases hl hi' hty'
      refine ⟨rfl, ?_⟩
      rcases hcase with ⟨h1, hreg⟩ | ⟨h1, hreg⟩ <;> rcases hcase' with ⟨h2, hreg'⟩ | ⟨h2, hreg'⟩ <;>
        rw [hreg, hreg'] at heq
      · rw [h1, h2]
      · cases heq
      · cases heq
      · rw [h1, h2]
  · have hne : e' ≠ e := by
      rintro rfl
      rcases hl.present.state with h | h | h <;> rw [core_enclaves, hinv] at h <;> cases h
    exact (hl.unused e' hne).regions i hi
  · rcases (hl.slots.valid rid).mp hv with hlt | ⟨rfl, _⟩ | ⟨rfl, _⟩
    · exact absurd hlt (Nat.not_lt.mpr hge)
    · exact ⟨e, hl.lt, 0, by decide, by rw [hepm]; decide, by rw [hepm]⟩
    · exact ⟨e, hl.lt, 1, by decide, by rw [hutm]; decide, by rw [hutm]⟩

end

/-! ## Calls with the variables in memory -/

section InMemory

variable {L : Layout} {m : Monitor} {k : MemCall}

theorem callStepIn_off (hoff : m.KeepsOff C L k.input) :
    ∃ C' mem, m.callStepIn C L k = { m.callStep C' k.toKeystoneCall with mem := mem } := by
  obtain ⟨C', mem, -, heq⟩ := stepIn_off hoff
  exact ⟨C', mem, heq⟩

theorem settled_callStepIn (hs : m.Settled d) (hoff : m.KeepsOff C L k.input)
    (hnap : d ≠ .tables → (m.callStepIn C L k).table.hasTor = false) (hd : d ≠ .strict) :
    (m.callStepIn C L k).Settled d := by
  obtain ⟨C', mem, heq⟩ := callStepIn_off C hoff
  rw [heq] at hnap ⊢
  have hplain := m.settled_callStep C' k.toKeystoneCall hs hnap hd
  exact ⟨hplain.one, hplain.su⟩

theorem hasTor_callStepIn (hoff : m.KeepsOff C L k.input) (hnap : k.napot = true)
    (ht : m.table.hasTor = false) : (m.callStepIn C L k).table.hasTor = false := by
  obtain ⟨C', mem, heq⟩ := callStepIn_off C hoff
  rw [heq]
  refine m.table_callStep C' k.toKeystoneCall (fun ev hev => hasTor_rule fun h a hcreate => ?_) ht
  unfold KeystoneCall.napot at hnap
  rw [hev h a hcreate] at hnap
  exact hnap

end InMemory

/-! ## Main results -/

/-- In every state that Keystone calls lead to, the memory of enclaves is isolated, as long as every
EPM is a NAPOT region and nothing is stored onto the variables of the monitor. -/
theorem enclaves_isolated (L : Layout) (mem : Word → Byte) (keys : Keys) (ks : List MemCall)
    (hok : StepsOk (callStepIn C L) (fun m k => k.napot = true ∧ m.KeepsOff C L k.input)
      (bootMonitor mem keys) ks) :
    Isolated (run (callStepIn C L) (bootMonitor mem keys) ks) := by
  have hstep : ∀ (m : Monitor) (k : MemCall), (m.Settled .views ∧ m.table.hasTor = false) →
      (k.napot = true ∧ m.KeepsOff C L k.input) →
      (m.callStepIn C L k).Settled .views ∧ (m.callStepIn C L k).table.hasTor = false := by
    rintro m k ⟨hs, ht⟩ ⟨hnap, hoff⟩
    have ht' := hasTor_callStepIn C hoff hnap ht
    exact ⟨settled_callStepIn C hs hoff (fun _ => ht') (by decide), ht'⟩
  have hboot : (bootMonitor mem keys).Settled .views ∧
      (bootMonitor mem keys).table.hasTor = false :=
    ⟨⟨Or.inl (idle_boot mem keys), fun _ => rfl⟩, hasTor_bootTable⟩
  exact Isolated.of_settled (inv_run hstep ks hboot hok).1 (by decide)

/-- A Keystone call of a hart, with the array `info` at `0x80130000`. -/
def memCall (h : HartId) (funcid a0 : Word) (env : Env) : MemCall :=
  ⟨⟨h, callTrap funcid a0 env, isKeystone_callTrap funcid a0 env⟩, 0x80130000⟩

def memCreate (epmSize : Word) : MemCall :=
  ⟨⟨0, createTrap epmSize, isKeystone_callTrap _ _ _⟩, 0x80130000⟩

/-- An enclave with an EPM of four pages is created and entered. -/
theorem entered_enclave_isolated :
    let ks := [memCreate 0x4000, memCall 0 SBI_SM_RUN_ENCLAVE 0 faultEnv]
    let m := run (callStepIn noCrypto dataLayout) (bootMonitor (fun _ => 0) noKeys) ks
    (m.hart 0).isEnclave = true ∧ Isolated m :=
  ⟨by decide +kernel, enclaves_isolated noCrypto dataLayout _ _ _ (by decide +kernel)⟩

/-- With an EPM of three pages, the interrupt that tells hart 1 of the new enclave comes back from
OpenSBI with the EPM open to the host. -/
theorem tor_epm_not_isolated :
    ¬ Isolated (run (callStepIn noCrypto dataLayout) (bootMonitor (fun _ => 0) noKeys)
      [memCreate 0x3000]) := by
  intro hiso
  have hmem : (0x90000100 : Nat) ∈ ((run (callStepIn noCrypto dataLayout)
      (bootMonitor (fun _ => 0) noKeys) [memCreate 0x3000]).regionOf 0 0).bytes := by
    refine ⟨?_, ?_⟩ <;> decide +kernel
  have hnone := hiso.host 0 (by decide) (.inl (by decide +kernel)) 0 (by decide) (by decide +kernel)
    _ hmem 1 (by decide +kernel)
  exact absurd hnone (by decide +kernel)

/-- In every state that Keystone calls lead to, the two tables are in step, as long as nothing is
stored onto the variables of the monitor. -/
theorem tables_in_step (L : Layout) (mem : Word → Byte) (keys : Keys) (ks : List MemCall)
    (hok : StepsOk (callStepIn C L) (fun m k => m.KeepsOff C L k.input) (bootMonitor mem keys) ks) :
    InStep (run (callStepIn C L) (bootMonitor mem keys) ks) := by
  have hstep : ∀ (m : Monitor) (k : MemCall), m.Settled .tables → m.KeepsOff C L k.input →
      (m.callStepIn C L k).Settled .tables :=
    fun m k hs hoff => settled_callStepIn C hs hoff (fun hd => absurd rfl hd) (by decide)
  rcases (inv_run hstep ks (settled_boot mem keys) hok).one with hi | ⟨e, E, U, hl⟩
  · exact InStep.of_idle hi
  · exact InStep.of_live hl

/-- Hart 0 creates and enters an enclave, which asks for a report at this address. -/
def attestRun (report : Word) : List MemCall :=
  [memCreate 0x4000, memCall 0 SBI_SM_RUN_ENCLAVE 0 faultEnv,
    memCall 0 SBI_SM_ATTEST_ENCLAVE report writableEnv]

/-- A report into the EPM. -/
theorem attested_tables_in_step :
    InStep (run (callStepIn plainCrypto dataLayout) (bootMonitor (fun _ => 0) plainKeys)
      (attestRun 0x90001000)) := by
  let m := run (callStepIn plainCrypto dataLayout) (bootMonitor (fun _ => 0) plainKeys)
    ((attestRun 0x90001000).take 2)
  have hreport : ∀ s ∈ m.serviceStores plainCrypto 0
      (callTrap SBI_SM_ATTEST_ENCLAVE 0x90001000 writableEnv) 0x80130000,
        0x80140000 ≤ s.1.toNat := by decide +kernel
  exact tables_in_step plainCrypto dataLayout _ _ _ ⟨by decide +kernel, by decide +kernel,
    fun _ s hs => notMem_vars_dataLayout (hreport s hs), trivial⟩

/-- A report onto the region of the EPM. -/
theorem report_over_region :
    ¬ InStep (run (callStepIn plainCrypto dataLayout) (bootMonitor (fun _ => 0) plainKeys)
      (attestRun (dataLayout.regions + 32 * 6))) := by
  intro hstep
  obtain ⟨⟨i, hi, hty, -, -, -, hsize⟩, -⟩ :=
    hstep.alive 0 (by decide) (.inr (.inr (by decide +kernel)))
  have hparted : ∀ i < ENCLAVE_REGIONS_MAX,
      (((run (callStepIn plainCrypto dataLayout) (bootMonitor (fun _ => 0) plainKeys)
        (attestRun (dataLayout.regions + 32 * 6))).enclaves 0).regions i).type = .epm →
      ((run (callStepIn plainCrypto dataLayout) (bootMonitor (fun _ => 0) plainKeys)
        (attestRun (dataLayout.regions + 32 * 6))).regionOf 0 i).size ≠ 0x4000 := by
    decide +kernel
  refine hparted i hi hty (hsize.trans ?_)
  decide +kernel

end Monitor

end Dorami.Sm
