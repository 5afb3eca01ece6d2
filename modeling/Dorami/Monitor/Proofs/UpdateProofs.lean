import Dorami.Monitor.Proofs.RequestProofs
import Mathlib.Data.Set.Basic

/-!
# Rules for what the functions of the monitor update

The functions of the monitor are put together from a few updates: of the PMP registers and the
record of the calling hart, of entries of `enclaves[]`, of memory and of the region table.
Creating and destroying enclaves also interrupts the other harts. A property of states that
survives these updates survives the functions; the lemmas below go through the functions once for
all such properties.
-/

namespace Dorami.Sm

open Riscv

/-- What is saved when a trap arrives: the two `sscratch` values and the trap itself. -/
def HartState.saves (hs : HartState) : Word × Word × TrapInfo :=
  (hs.sscratchDoubleSave, hs.sscratchDoubleSaveEnclave, hs.temporaryInfo)

/-- What is recorded of OpenSBI. -/
def HartState.osbi (hs : HartState) : Word × Bool := (hs.osbiMscratch, hs.suStarted)

namespace Monitor

/-- `P` survives updates of memory, of the region table, of the seed of `platform_random`, of the
counters of edge calls and, apart from its hash, of an entry of `enclaves[]` in `S`. -/
structure KeepsShared (S : Set Nat) (P : Monitor → Prop) : Prop where
  enclave : ∀ {m : Monitor} {eid : Nat} {en : Enclave}, eid ∈ S →
    en.hash = (m.enclaves eid).hash → P m → P (m.setEnclave eid en)
  mem : ∀ {m : Monitor} (f : Word → Byte), P m → P { m with mem := f }
  table : ∀ {m : Monitor} (t : PmpTable), P m → P { m with table := t }
  random : ∀ {m : Monitor} (w : Word), P m → P { m with randomW := w }
  ocalls : ∀ {m : Monitor}, P m → P { m with hart := fun h => { m.hart h with ocallInfo := 0 } }

/-- `P` also survives new PMP registers of hart `g`. -/
structure Keeps (g : HartId) (S : Set Nat) (P : Monitor → Prop) : Prop extends KeepsShared S P where
  pmp : ∀ {m : Monitor} (r : PmpRegs), P m → P (m.setPmp g r)

/-- `P` also survives a new record of hart `g` with the same saved values. -/
structure KeepsSwitches (g : HartId) (S : Set Nat) (P : Monitor → Prop) : Prop
    extends KeepsShared S P where
  hart : ∀ {m : Monitor} {hs : HartState}, hs.saves = (m.hart g).saves →
    hs.osbi = (m.hart g).osbi → P m → P (m.setHart g hs)

/-- `P` also survives any new record of hart `g` with the same record of OpenSBI. -/
structure KeepsTraps (g : HartId) (P : Monitor → Prop) : Prop extends KeepsShared Set.univ P where
  hart : ∀ {m : Monitor} {hs : HartState}, hs.osbi = (m.hart g).osbi → P m → P (m.setHart g hs)

/-- `P` survives what a call of hart `g` that creates or destroys an enclave does: the other harts
trap. -/
structure KeepsCalls (g : HartId) (P : Monitor → Prop) : Prop extends Keeps g Set.univ P where
  others : ∀ k, k ≠ g → KeepsTraps k P

section

variable {g : HartId} {S : Set Nat} {P : Monitor → Prop} {m : Monitor}

theorem KeepsSwitches.keeps (hk : KeepsSwitches g S P) : Keeps g S P :=
  ⟨hk.toKeepsShared, fun _ hP => hk.hart rfl rfl hP⟩

theorem KeepsTraps.switches (hk : KeepsTraps g P) : KeepsSwitches g Set.univ P :=
  ⟨hk.toKeepsShared, fun _ hosbi hP => hk.hart hosbi hP⟩

theorem KeepsShared.enclaveCore (hk : KeepsShared S P) {eid : Nat} (heid : eid ∈ S) (hP : P m)
    (en : EnclaveCore) : P (m.setEnclaveCore eid en) := by
  refine hk.enclave heid ?_ hP
  rfl

end

/-! ## Services -/

section Services

variable {g : HartId} {S : Set Nat} {P : Monitor → Prop} {m : Monitor} (hk : Keeps g S P)
  (hP : P m) (C : Crypto) (eid : Nat)

include hk hP

theorem Keeps.attestEnclave (env : Env) (reportPtr data size : Word) :
    P (m.attestEnclave C g env reportPtr data size eid).1 := by
  have hopen : P (m.pmpSetRegions g eid EPMP_ALL_RW) := hk.pmp _ hP
  unfold Monitor.attestEnclave
  split
  · exact hP
  split
  · exact hP
  dsimp only
  generalize m.pmpSetRegions g eid EPMP_ALL_RW = m₁ at hopen
  split
  · exact hopen
  · split
    · exact hk.pmp _ (hk.mem _ hopen)
    · exact hk.pmp _ (hk.mem _ hopen)

theorem Keeps.getSealingKey (sealingKey keyIdent size : Word) :
    P (m.getSealingKey C g sealingKey keyIdent size eid).1 := by
  have hopen : P (m.pmpSetRegions g eid EPMP_ALL_RW) := hk.pmp _ hP
  unfold Monitor.getSealingKey
  dsimp only
  generalize m.pmpSetRegions g eid EPMP_ALL_RW = m₁ at hopen
  split
  · exact hk.pmp _ hopen
  · exact hk.pmp _ (hk.mem _ (hk.pmp _ (hk.pmp _ (hk.mem _ hopen))))

end Services

/-! ## Switches -/

section Switches

variable {g : HartId} {S : Set Nat} {P : Monitor → Prop} {m : Monitor} (hk : KeepsSwitches g S P)
  (hP : P m) (regs : TrapRegs) {eid : Nat}

include hk hP

theorem KeepsSwitches.pmp (r : PmpRegs) : P (m.setPmp g r) := hk.hart rfl rfl hP

theorem KeepsSwitches.swapThread (heid : eid ∈ S) (ror : Bool) :
    P (m.swapThread g regs eid ror).1 := by
  dsimp only [Monitor.swapThread]
  refine hk.hart rfl rfl (hk.enclave heid ?_ hP)
  rfl

theorem KeepsSwitches.contextSwitchToEnclave (heid : eid ∈ S) (loadParams : Bool) :
    P (m.contextSwitchToEnclave g regs eid loadParams).1 := by
  have hswap := hk.swapThread hP regs heid true
  simp only [Monitor.contextSwitchToEnclave]
  generalize m.swapThread g regs eid true = p at hswap
  have hdeleg : P (p.1.setHart g { p.1.hart g with mideleg := 0 }) := hk.hart rfl rfl hswap
  generalize p.1.setHart g { p.1.hart g with mideleg := 0 } = m₁ at hdeleg
  split
  · have hsatp : P (m₁.setHart g { m₁.hart g with csrs := { (m₁.hart g).csrs with satp := 0 } }) :=
      hk.hart rfl rfl hdeleg
    exact hk.hart rfl rfl (hk.pmp (hk.pmp hsatp _) _)
  · exact hk.hart rfl rfl (hk.pmp (hk.pmp hdeleg _) _)

theorem KeepsSwitches.contextSwitchToHost (heid : eid ∈ S) (ror : Bool) :
    P (m.contextSwitchToHost g regs eid ror).1 := by
  have hleft : P (((m.pmpSetRegions g eid PMP_NO_PERM).osmPmpSet g EPMP_SU_RWX).setHart g
      { ((m.pmpSetRegions g eid PMP_NO_PERM).osmPmpSet g EPMP_SU_RWX).hart g with
        mideleg := MIP_SSIP ||| MIP_STIP ||| MIP_SEIP }) :=
    hk.hart rfl rfl (hk.pmp (hk.pmp hP _) _)
  exact hk.hart rfl rfl (hk.hart rfl rfl (hk.swapThread hleft regs heid ror))

theorem KeepsSwitches.runEnclave
    (heid : (m.enclaves eid).runable = true → eid < ENCL_MAX → eid ∈ S) :
    P (m.runEnclave g regs eid).1 := by
  unfold Monitor.runEnclave
  split
  · next htest =>
    rw [Bool.and_eq_true, decide_eq_true_eq] at htest
    have hmem := heid htest.2 htest.1
    exact hk.contextSwitchToEnclave (hk.enclaveCore hmem hP _) regs hmem true
  · exact hP

theorem KeepsSwitches.resumeEnclave
    (heid : (m.enclaves eid).resumable = true → eid < ENCL_MAX → eid ∈ S) :
    P (m.resumeEnclave g regs eid).1 := by
  unfold Monitor.resumeEnclave
  split
  · next htest =>
    rw [Bool.and_eq_true, decide_eq_true_eq] at htest
    have hmem := heid htest.2 htest.1
    exact hk.contextSwitchToEnclave (hk.enclaveCore hmem hP _) regs hmem false
  · exact hP

theorem KeepsSwitches.exitEnclave (heid : (m.enclaves eid).stoppable = true → eid ∈ S) :
    P (m.exitEnclave g regs eid).1 := by
  unfold Monitor.exitEnclave
  split
  · next htest =>
    exact hk.contextSwitchToHost (hk.enclaveCore (heid htest) hP _) regs (heid htest) false
  · exact hP

theorem KeepsSwitches.stopResult (request : Word) : P (m.stopResult g request).1 := by
  unfold Monitor.stopResult
  dsimp only
  split
  · exact hP
  split
  · exact hk.hart rfl rfl hP
  split
  · exact hk.ocalls (hk.hart rfl rfl hP)
  · exact hP

theorem KeepsSwitches.sbiSmStopEnclave (request : Word)
    (heid : (m.enclaves (m.hart g).eid).stoppable = true → (m.hart g).eid ∈ S) :
    P (m.sbiSmStopEnclave g regs request).1 := by
  have hstop : P (m.stopEnclave g regs request (m.hart g).eid).1 := by
    unfold Monitor.stopEnclave
    split
    · next htest =>
      refine hk.stopResult (hk.contextSwitchToHost ?_ regs (heid htest) _) request
      exact hk.enclaveCore (heid htest) hP _
    · exact hP
  exact hk.hart rfl rfl hstop

end Switches

/-! ## Creating and destroying -/

section Calls

variable {g : HartId} {P : Monitor → Prop} {m : Monitor}

/-- The interrupt of an update. -/
theorem KeepsTraps.deliverIpi {k : HartId} (hk : KeepsTraps k P) (hP : P m) (u : IpiUpdate)
    (ctx : Interrupted) : P (m.deliverIpi k u ctx) := by
  have hhost : ∀ {m₁ : Monitor} (sscratch : Word), P m₁ → P (m₁.hostIpi k u sscratch) := by
    intro m₁ sscratch hm₁
    exact hk.switches.pmp (hk.switches.pmp (hk.hart (by rfl) hm₁) _) _
  have harrive : P (m.setHart k { m.hart k with csrs := ctx.csrs }) := hk.hart rfl hP
  unfold Monitor.deliverIpi
  dsimp only
  generalize m.setHart k { m.hart k with csrs := ctx.csrs } = m₁ at harrive
  split
  · refine hhost _ (hk.switches.sbiSmStopEnclave ?_ _ _ fun _ => Set.mem_univ _)
    exact hk.hart rfl harrive
  · exact hhost _ harrive

variable (hk : KeepsCalls g P) (hP : P m)

include hk hP

theorem KeepsCalls.monSendSyncIpi (frames : HartId → Interrupted) (u : IpiUpdate) :
    P (m.monSendSyncIpi g frames u) := by
  refine List.foldlRecOn (motive := P) _ _ hP fun m₁ hm₁ k hmem => ?_
  have hne : k ≠ g := by simpa [otherHarts] using hmem
  exact (hk.others k hne).deliverIpi hm₁ u (frames k)

theorem KeepsCalls.pmpSetGlobal (frames : HartId → Interrupted) (rid : Nat) (p : Byte) :
    P (m.pmpSetGlobal g frames rid p).1 := by
  unfold Monitor.pmpSetGlobal
  split
  · exact hP
  · exact hk.monSendSyncIpi hP frames _

theorem KeepsCalls.pmpUnsetGlobal (frames : HartId → Interrupted) (rid : Nat) :
    P (m.pmpUnsetGlobal g frames rid).1 := by
  unfold Monitor.pmpUnsetGlobal
  split
  · exact hP
  · exact hk.monSendSyncIpi hP frames _

theorem KeepsCalls.unwindRegions (eid region sharedRegion : Nat) :
    P (m.unwindRegions eid region sharedRegion) :=
  hk.enclaveCore (Set.mem_univ eid) (hk.table _ (hk.table _ hP)) _

theorem KeepsCalls.unwindSetRegions (env : Env) (eid region sharedRegion : Nat) :
    P (m.unwindSetRegions g env eid region sharedRegion) :=
  hk.unwindRegions (hk.pmpUnsetGlobal hP env.frames region) eid region sharedRegion

/-- The measurement is the one place where a hash is written. -/
theorem KeepsCalls.buildEnclave {C : Crypto} {eid : Nat}
    (hmeasured : ∀ {m : Monitor} (text : List Byte), P m →
      P (m.setEnclave eid { m.enclaves eid with hash := C.sha3 text, state := .fresh }))
    (env : Env) (args : CreateArgs) (region sharedRegion : Nat) :
    P (m.buildEnclave C g env args eid region sharedRegion).1 := by
  have hset := hk.pmpSetGlobal hP env.frames region PMP_NO_PERM
  unfold Monitor.buildEnclave
  split
  · next m₁ heq =>
    rw [heq] at hset
    have hclean : P (m₁.cleanEnclaveMemory g args.utmPaddr args.utmSize) :=
      hk.pmp _ (hk.mem _ (hk.pmp _ hset))
    have hmeta : P ((m₁.cleanEnclaveMemory g args.utmPaddr args.utmSize).initMetadata g eid region
        sharedRegion args) := hk.enclave (Set.mem_univ eid) rfl hclean
    have hdone : P (((m₁.cleanEnclaveMemory g args.utmPaddr args.utmSize).initMetadata g eid region
        sharedRegion args).measureEnclave C g eid region).1 :=
      hmeasured _ (hk.pmp _ (hk.pmp _ (hk.pmp _ (hk.pmp _ hmeta))))
    dsimp only [platformCreateEnclave]
    split
    · next heq₂ => rw [heq₂] at hdone; exact hdone
    · next heq₂ => rw [heq₂] at hdone; exact hk.unwindSetRegions hdone env eid region sharedRegion
  · next heq =>
    rw [heq] at hset
    exact hk.unwindRegions hset eid region sharedRegion

theorem KeepsCalls.createEnclave {C : Crypto}
    (hmeasured : ∀ {m : Monitor} (eid : Nat) (text : List Byte), P m →
      P (m.setEnclave eid { m.enclaves eid with hash := C.sha3 text, state := .fresh }))
    (env : Env) (args : CreateArgs) : P (m.createEnclave C g env args).1 := by
  have hcore : ∀ {m₁ : Monitor} (eid : Nat) (en : EnclaveCore), P m₁ →
      P (m₁.setEnclaveCore eid en) := fun eid en hm₁ => hk.enclaveCore (Set.mem_univ eid) hm₁ en
  have halloc : P m.enclAllocEid.1 := by
    unfold enclAllocEid
    split
    · exact hcore _ _ hP
    · exact hP
  unfold Monitor.createEnclave
  split
  · exact hP
  split
  · next heq => rw [heq] at halloc; exact halloc
  next m₁ eid heq =>
  rw [heq] at halloc
  have hepm : P (m₁.regionInit args.epmPaddr args.epmSize .any).1 := hk.table _ halloc
  split
  · next heq₁ => rw [heq₁] at hepm; exact hcore _ _ hepm
  next m₂ region heq₁ =>
  rw [heq₁] at hepm
  have hutm : P (m₂.regionInit args.utmPaddr args.utmSize .bottom).1 := hk.table _ hepm
  split
  · next heq₂ => rw [heq₂] at hutm; exact hcore _ _ (hk.table _ hutm)
  · next heq₂ => rw [heq₂] at hutm; exact hk.buildEnclave hutm (hmeasured eid) env args region _

theorem KeepsCalls.sbiSmCreateEnclave {C : Crypto}
    (hmeasured : ∀ {m : Monitor} (eid : Nat) (text : List Byte), P m →
      P (m.setEnclave eid { m.enclaves eid with hash := C.sha3 text, state := .fresh }))
    (env : Env) (createArgs : Word) : P (m.sbiSmCreateEnclave C g env createArgs).1 := by
  have hopen : P ((m.osmPmpSet g (PMP_R ||| PMP_W)).osmPmpSet g (PMP_X ||| PMP_W ||| PMP_R)) :=
    hk.pmp _ (hk.pmp _ hP)
  unfold Monitor.sbiSmCreateEnclave
  dsimp only
  split
  · exact hopen
  · exact hk.pmp _ (hk.createEnclave hopen hmeasured env _)

theorem KeepsCalls.destroyRegion (env : Env) (eid i : Nat) : P (m.destroyRegion g env eid i) := by
  unfold Monitor.destroyRegion
  dsimp only
  split
  · exact hP
  · exact hk.table _ (hk.pmpUnsetGlobal (hk.pmp _ (hk.mem _ (hk.pmp _ hP))) env.frames _)

theorem KeepsCalls.destroyEnclave (env : Env) (eid : Nat) : P (m.destroyEnclave g env eid).1 := by
  unfold Monitor.destroyEnclave
  split
  · have hregions :
        P ((m.setEnclaveCore eid ((m.enclaves eid).setState .destroying)).destroyRegions
          g env eid) := by
      refine List.foldlRecOn (motive := P) _ _ (hk.enclaveCore (Set.mem_univ eid) hP _) ?_
      intro m₁ hm₁ i _
      exact hk.destroyRegion hm₁ env eid i
    dsimp only
    generalize (m.setEnclaveCore eid ((m.enclaves eid).setState .destroying)).destroyRegions g env
      eid = m₁ at hregions
    have hshared : P (m₁.destroyShared eid) := by
      unfold Monitor.destroyShared
      split
      · exact hk.table _ hregions
      · exact hregions
    generalize m₁.destroyShared eid = m₂ at hshared
    have hclear : P (m₂.clearMetadata eid) := hk.enclave (Set.mem_univ eid) rfl hshared
    exact hk.pmp _ (hk.enclaveCore (Set.mem_univ eid) hclear _)
  · exact hP

end Calls

/-! ## Traps -/

section Traps

variable {P : Monitor → Prop} {m : Monitor} (hk : ∀ k, KeepsTraps k P) (hP : P m) (h : HartId)

include hk

theorem KeepsTraps.calls : KeepsCalls h P :=
  ⟨(hk h).switches.keeps, fun k _ => hk k⟩

include hP

/-- Only a create call measures. -/
theorem KeepsTraps.serve {C : Crypto} {req : Request}
    (hmeasured : req = .create → ∀ {m : Monitor} (eid : Nat) (text : List Byte), P m →
      P (m.setEnclave eid { m.enclaves eid with hash := C.sha3 text, state := .fresh }))
    (regs : TrapRegs) (env : Env) : P (m.serve C h regs env req).1 := by
  have hs := (hk h).switches
  cases req with
  | refused status => exact hP
  | create =>
    have hcreate := (KeepsTraps.calls hk h).sbiSmCreateEnclave hP (hmeasured rfl) env regs.a0
    dsimp only [Monitor.serve]
    generalize m.sbiSmCreateEnclave C h env regs.a0 = res at hcreate
    rcases res with ⟨m', _ | _⟩
    · exact hcreate
    · exact hcreate
  | destroy => exact (KeepsTraps.calls hk h).destroyEnclave hP env _
  | run => exact (hk h).hart rfl (hs.runEnclave hP regs fun _ _ => Set.mem_univ _)
  | resume => exact (hk h).hart rfl (hs.resumeEnclave hP regs fun _ _ => Set.mem_univ _)
  | random => exact (hk h).random _ hP
  | attest => exact hs.keeps.attestEnclave hP C _ env _ _ _
  | sealingKey => exact hs.keeps.getSealingKey hP C _ _ _ _
  | stop => exact hs.sbiSmStopEnclave hP regs _ fun _ => Set.mem_univ _
  | exit => exact (hk h).hart rfl (hs.exitEnclave hP regs fun _ => Set.mem_univ _)

theorem KeepsTraps.arrive (t : Trap) : P (m.arrive h t) := by
  refine (hk h).hart ?_ hP
  unfold arrived
  dsimp only
  split
  · rfl
  · rfl

theorem KeepsTraps.leave (ex : Exit) : P (m.leave h ex) := by
  have hmode : ∀ {m₁ : Monitor} (mode : Mode), P m₁ → P (m₁.setMode h mode) :=
    fun mode hm₁ => (hk h).hart rfl hm₁
  cases ex with
  | toSu regs => exact hmode _ hP
  | toOsbi regs => exact hmode _ ((hk h).switches.pmp hP _)
  | firstEntry regs => exact hmode _ hP
  | hang => exact hmode _ hP

theorem KeepsTraps.trapHandler {C : Crypto}
    (hmeasured : ∀ {m : Monitor} (eid : Nat) (text : List Byte), P m →
      P (m.setEnclave eid { m.enclaves eid with hash := C.sha3 text, state := .fresh }))
    (t : Trap) : P (m.trapHandler C h t).1 := by
  by_cases hkey : t.isKeystone = true
  · have hserved : P (m.served C h t).1 :=
      KeepsTraps.serve hk (KeepsTraps.arrive hk hP h t) h (fun _ => hmeasured) (frame t) t.env
    rw [trapHandler_keystone C m h t hkey]
    rcases hres : m.served C h t with ⟨m', _ | _⟩
    · rw [hres] at hserved; exact hserved
    · rw [hres] at hserved; exact hserved
  have harrive := KeepsTraps.arrive hk hP h t
  have hpark : ∀ regs : TrapRegs, P ((m.arrive h t).monEcallEnter h regs).1 :=
    fun regs => (hk h).hart rfl harrive
  have hnot : ¬ (isInterrupt t.mcause = false ∧ isEcall t.mcause = true ∧
      (frame t).a7 = SBI_EXT_EXPERIMENTAL_KEYSTONE_ENCLAVE) := by
    rintro ⟨hirq, hecall, ha7⟩
    have ha7' : t.regs.a7 = SBI_EXT_EXPERIMENTAL_KEYSTONE_ENCLAVE := ha7
    exact hkey (by simp [Trap.isKeystone, hirq, hecall, ha7'])
  rw [trapHandler_eq]
  split
  · unfold sbiTrapHandlerKeystoneEnclave
    split
    · split
      · dsimp only
        exact (hk h).switches.sbiSmStopEnclave harrive _ _ fun _ => Set.mem_univ _
      · exact harrive
    next hirq =>
    split
    · next hecall =>
      rw [if_neg fun ha7 => hnot ⟨by simpa using hirq, hecall, ha7⟩]
      exact hpark _
    · exact harrive
  · unfold monTrapHandlerHost
    dsimp only
    split
    · split
      · exact harrive
      · exact harrive
    next hirq =>
    split
    · next hecall =>
      rw [if_neg fun ha7 => hnot ⟨by simpa using hirq, hecall, ha7⟩]
      exact hpark _
    · exact harrive

/-- A hart that has entered S/U mode before. -/
theorem KeepsTraps.osbiReturnStep
    (hfirst : (m.hart h).suStarted = false →
      ∀ hs, P ((m.writePmpcfg0 h LOCK_OSBI).setHart h hs)) (regs : TrapRegs) :
    P (m.osbiReturnStep h regs) := by
  have hlock : P (m.writePmpcfg0 h LOCK_OSBI) := (hk h).switches.pmp hP _
  have hsu : ((m.writePmpcfg0 h LOCK_OSBI).hart h).suStarted = (m.hart h).suStarted := by
    rw [writePmpcfg0, setPmp, hart_setHart_self]
  dsimp only [Monitor.osbiReturnStep]
  refine KeepsTraps.leave hk ?_ h _
  rw [← hsu] at hfirst
  generalize m.writePmpcfg0 h LOCK_OSBI = m₁ at hlock hfirst
  have hfixed : P (if (m₁.hart h).monEnclaveExecution then m₁.sbiSmSetEnclavePermissions h
      else m₁) := by
    split
    · exact (hk h).switches.pmp ((hk h).switches.pmp hlock _) _
    · exact hlock
  unfold Monitor.monTrapReturnOsbi
  dsimp only
  split
  · next hnot => exact hfirst (by simpa using hnot) _
  split
  · split
    · exact hfixed
    · exact hfixed
  split
  · exact (hk h).hart rfl hfixed
  split
  · exact hfixed
  · exact (hk h).hart rfl hfixed

end Traps

end Monitor

end Dorami.Sm
