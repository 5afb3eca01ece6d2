import Dorami.Monitor.Contexts
import Dorami.Monitor.Proofs.UpdateProofs

/-!
# What an entry into the monitor changes

A call of one hart changes the record of that hart and the entry of at most one enclave. The counter
of edge calls, which one stop call resets on all harts, is left out of account. The calls that
create and destroy enclaves are the exception: they stop the enclaves other harts run.
-/

namespace Dorami.Sm

open Riscv

namespace Monitor

/-- Of the harts only `g`, and of the enclaves only those in `S`, can differ; `g` keeps what it has
saved. -/
structure Footprint (g : HartId) (S : Set Nat) (m m' : Monitor) : Prop where
  hart : ∀ h, h ≠ g → ∃ n, m'.hart h = { m.hart h with ocallInfo := n }
  saved : (m'.hart g).saves = (m.hart g).saves
  enclave : ∀ e, e ∉ S → m'.enclaves e = m.enclaves e

section

variable {g : HartId} {S : Set Nat} {m m₁ : Monitor}

theorem Footprint.refl : Footprint g S m m := ⟨fun _ _ => ⟨_, rfl⟩, rfl, fun _ _ => rfl⟩

theorem Footprint.mono (hf : Footprint g S m m₁) {T : Set Nat} (hST : S ⊆ T) :
    Footprint g T m m₁ :=
  ⟨hf.hart, hf.saved, fun e he => hf.enclave e fun hs => he (hST hs)⟩

theorem Footprint.setHart (hf : Footprint g S m m₁) {hs : HartState}
    (hs' : hs.saves = (m₁.hart g).saves) : Footprint g S m (m₁.setHart g hs) := by
  refine ⟨fun h hne => ?_, ?_, hf.enclave⟩
  · rw [hart_setHart_ne m₁ g hne]
    exact hf.hart h hne
  · rw [hart_setHart_self, hs', hf.saved]

theorem Footprint.resetOcalls (hf : Footprint g S m m₁) :
    Footprint g S m { m₁ with hart := fun h => { m₁.hart h with ocallInfo := 0 } } := by
  refine ⟨fun h hne => ?_, hf.saved, hf.enclave⟩
  obtain ⟨n, hn⟩ := hf.hart h hne
  exact ⟨0, by dsimp only; rw [hn]⟩

theorem Footprint.setEnclave (hf : Footprint g S m m₁) {eid : Nat} (heid : eid ∈ S) (en : Enclave) :
    Footprint g S m (m₁.setEnclave eid en) := by
  refine ⟨hf.hart, hf.saved, fun e he => ?_⟩
  have hne : e ≠ eid := by
    rintro rfl
    exact he heid
  exact (if_neg hne).trans (hf.enclave e he)

theorem Footprint.mem (hf : Footprint g S m m₁) (f : Word → Byte) :
    Footprint g S m { m₁ with mem := f } := ⟨hf.hart, hf.saved, hf.enclave⟩

theorem Footprint.pmpSet (hf : Footprint g S m m₁) (rid : Nat) (p : Byte) :
    Footprint g S m (m₁.pmpSet g rid p) := hf.setHart (by rfl)

theorem Footprint.osmPmpSet (hf : Footprint g S m m₁) (p : Byte) :
    Footprint g S m (m₁.osmPmpSet g p) := hf.setHart (by rfl)

/-- The updates a call of one hart makes. -/
theorem keeps_footprint : KeepsSwitches g S (Footprint g S m) where
  enclave heid _ hf := hf.setEnclave heid _
  mem f hf := hf.mem f
  table _ hf := ⟨hf.hart, hf.saved, hf.enclave⟩
  random _ hf := ⟨hf.hart, hf.saved, hf.enclave⟩
  ocalls hf := hf.resetOcalls
  hart hs _ hf := hf.setHart hs

end

/-! ## Calls -/

section

variable (C : Crypto) (m : Monitor) (g : HartId) (env : Env) (regs : TrapRegs) {fid : Word}

/-- The enclaves whose entry a call with these registers changes. -/
def called (fid : Word) (regs : TrapRegs) : Set Nat :=
  {e | (regs.a0.setWidth 32).toNat = e ∧ e < ENCL_MAX ∧
      (fid = SBI_SM_RUN_ENCLAVE ∧ (m.enclaves e).runable = true ∨
        fid = SBI_SM_RESUME_ENCLAVE ∧ (m.enclaves e).resumable = true) ∨
    (m.hart g).eid = e ∧ (m.enclaves e).stoppable = true ∧
      (fid = SBI_SM_STOP_ENCLAVE ∨ fid = SBI_SM_EXIT_ENCLAVE)}

theorem footprint_dispatch (hcreate : fid ≠ SBI_SM_CREATE_ENCLAVE)
    (hdestroy : fid ≠ SBI_SM_DESTROY_ENCLAVE) :
    Footprint g (m.called g fid regs) m (m.keystoneDispatch C g fid regs env).1 := by
  have hself : Footprint g (m.called g fid regs) m m := Footprint.refl
  have hk : KeepsSwitches g (m.called g fid regs) (Footprint g (m.called g fid regs) m) :=
    keeps_footprint
  rw [keystoneDispatch, if_neg hcreate, if_neg hdestroy]
  by_cases hrun : fid = SBI_SM_RUN_ENCLAVE
  · rw [if_pos hrun]
    refine Footprint.setHart (hk.runEnclave hself _ fun ht hlt => ?_) (by rfl)
    exact .inl ⟨rfl, hlt, .inl ⟨hrun, ht⟩⟩
  rw [if_neg hrun]
  by_cases hres : fid = SBI_SM_RESUME_ENCLAVE
  · rw [if_pos hres]
    refine Footprint.setHart (hk.resumeEnclave hself _ fun ht hlt => ?_) (by rfl)
    exact .inl ⟨rfl, hlt, .inr ⟨hres, ht⟩⟩
  rw [if_neg hres]
  by_cases hrandom : fid = SBI_SM_RANDOM
  · rw [if_pos hrandom]
    exact ⟨hself.hart, rfl, hself.enclave⟩
  rw [if_neg hrandom]
  by_cases hattest : fid = SBI_SM_ATTEST_ENCLAVE
  · rw [if_pos hattest]
    exact hk.keeps.attestEnclave hself ..
  rw [if_neg hattest]
  by_cases hseal : fid = SBI_SM_GET_SEALING_KEY
  · rw [if_pos hseal]
    exact hk.keeps.getSealingKey hself ..
  rw [if_neg hseal]
  by_cases hstop : fid = SBI_SM_STOP_ENCLAVE
  · rw [if_pos hstop]
    exact hk.sbiSmStopEnclave hself _ _ fun ht => .inr ⟨rfl, ht, .inl hstop⟩
  rw [if_neg hstop]
  by_cases hexit : fid = SBI_SM_EXIT_ENCLAVE
  · rw [if_pos hexit]
    refine Footprint.setHart (hk.exitEnclave hself _ fun ht => ?_) (by rfl)
    exact .inr ⟨rfl, ht, .inr hexit⟩
  rw [if_neg hexit]
  split <;> exact hself

end

/-! ## Traps -/

section

variable (C : Crypto) (m : Monitor) (g : HartId) (t : Trap)

/-- The enclaves a trap enters or leaves. -/
def touched : Set Nat := {e | m.Enters g t e ∨ m.Leaves g t e}

@[simp] theorem enclaves_arrive : (m.arrive g t).enclaves = m.enclaves := rfl

theorem footprint_handler (hk : t.isKeystone = true) (hsends : t.sendsIpis = false) :
    Footprint g (m.touched g t) (m.arrive g t)
      ((m.arrive g t).sbiEcallKeystoneEnclaveHandler C g t.regs.a6 (frame t) t.env).1 := by
  have hcore := m.toHartCore_arrive g t
  have hin : ((m.arrive g t).hart g).isEnclave = (m.hart g).isEnclave :=
    congrArg HartCore.isEnclave hcore
  have heid : ((m.arrive g t).hart g).eid = (m.hart g).eid := congrArg HartCore.eid hcore
  have hids : t.regs.a6 ≠ SBI_SM_CREATE_ENCLAVE ∧ t.regs.a6 ≠ SBI_SM_DESTROY_ENCLAVE := by
    simpa [Trap.sendsIpis, hk] using hsends
  have hdisp := footprint_dispatch C (m.arrive g t) g t.env (frame t) hids.1 hids.2
  have hself : Footprint g (m.touched g t) (m.arrive g t) (m.arrive g t) := Footprint.refl
  unfold sbiEcallKeystoneEnclaveHandler
  dsimp only
  rw [hin]
  split
  · exact hself
  split
  · next hhost =>
    split
    · exact hself
    · next hout =>
      refine hdisp.mono fun e he => ?_
      rcases he with ⟨ha0, hlt, ⟨hcall, htest⟩ | ⟨hcall, htest⟩⟩ | ⟨-, -, hcall | hcall⟩
      · exact .inl (.inl ⟨hk, Bool.not_eq_true _ ▸ hout, hcall, ha0, hlt, htest⟩)
      · exact .inl (.inr ⟨hk, Bool.not_eq_true _ ▸ hout, hcall, ha0, hlt, htest⟩)
      · exact absurd (hcall ▸ hhost) (by decide)
      · exact absurd (hcall ▸ hhost) (by decide)
  · next hhost =>
    -- the ids of run and resume are below those of enclaves
    have hnot : t.regs.a6 ≠ SBI_SM_RUN_ENCLAVE ∧ t.regs.a6 ≠ SBI_SM_RESUME_ENCLAVE :=
      ⟨fun hcall => hhost (hcall ▸ by decide), fun hcall => hhost (hcall ▸ by decide)⟩
    have hleave : (m.hart g).isEnclave = true →
        (m.arrive g t).called g t.regs.a6 (frame t) ⊆ m.touched g t := by
      rintro hinside e (⟨-, -, ⟨hcall, -⟩ | ⟨hcall, -⟩⟩ | ⟨he, htest, hcall | hcall⟩)
      · exact absurd hcall hnot.1
      · exact absurd hcall hnot.2
      · exact .inr (.inr (.inl ⟨hk, hinside, hcall, heid ▸ he, htest⟩))
      · exact .inr (.inr (.inr ⟨hk, hinside, hcall, heid ▸ he, htest⟩))
    split
    · next henclave =>
      split
      · exact hself
      · next hinside => exact hdisp.mono (hleave (by simpa using hinside))
    · next henclave =>
      refine hdisp.mono fun e he => ?_
      rcases he with ⟨-, -, ⟨hcall, -⟩ | ⟨hcall, -⟩⟩ | ⟨-, -, hcall | hcall⟩
      · exact absurd hcall hnot.1
      · exact absurd hcall hnot.2
      · exact absurd (hcall ▸ by decide : t.regs.a6 ≤ FID_RANGE_ENCLAVE) henclave
      · exact absurd (hcall ▸ by decide : t.regs.a6 ≤ FID_RANGE_ENCLAVE) henclave

theorem Footprint.leave {S : Set Nat} {m m₁ : Monitor} (hf : Footprint g S m m₁) (ex : Exit) :
    Footprint g S m (m₁.leave g ex) := by
  cases ex with
  | toOsbi _ => exact (hf.setHart (by rfl)).setHart (by rfl)
  | _ => exact hf.setHart (by rfl)

/-- The handler of a hart recorded as running an enclave. -/
theorem footprint_enclaveTrap (hsends : t.sendsIpis = false)
    (hflag : (m.hart g).monEnclaveExecution = true) :
    Footprint g (m.touched g t) (m.arrive g t)
      ((m.arrive g t).sbiTrapHandlerKeystoneEnclave C g t.mcause (frame t) t.env).1 := by
  have hself : Footprint g (m.touched g t) (m.arrive g t) (m.arrive g t) := Footprint.refl
  have heid : ((m.arrive g t).hart g).eid = (m.hart g).eid :=
    congrArg HartCore.eid (m.toHartCore_arrive g t)
  unfold sbiTrapHandlerKeystoneEnclave
  split
  · next hirq =>
    split
    · next hcode =>
      have hint : t.isIrq = true := by simpa [Trap.isIrq, isTimerOrSoft, hirq] using hcode
      exact keeps_footprint.sbiSmStopEnclave hself { frame t with mepc := (frame t).mepc - 4 }
        STOP_TIMER_INTERRUPT fun htest => .inr (.inl ⟨hint, hflag, heid.symm, htest⟩)
    · exact hself
  · next hirq =>
    split
    · next hecall =>
      split
      · next ha7 =>
        have hk : t.isKeystone = true := by
          simp only [Trap.isKeystone, hecall, Bool.and_true, Bool.and_eq_true, Bool.not_eq_true',
            beq_iff_eq]
          exact ⟨by simpa using hirq, ha7⟩
        have hhandler := m.footprint_handler C g t hk hsends
        split
        · next heq => exact congrArg Prod.fst heq ▸ hhandler
        · next heq => exact congrArg Prod.fst heq ▸ hhandler
      · exact hself.setHart (by rfl)
    · exact hself

/-- The handler of a hart recorded as running the host. -/
theorem footprint_hostTrap (hsends : t.sendsIpis = false) :
    Footprint g (m.touched g t) (m.arrive g t)
      ((m.arrive g t).monTrapHandlerHost C g t.mcause (frame t) t.env).1 := by
  have hself : Footprint g (m.touched g t) (m.arrive g t) (m.arrive g t) := Footprint.refl
  unfold monTrapHandlerHost
  dsimp only
  split
  · split <;> exact hself
  · next hirq =>
    split
    · next hecall =>
      split
      · next ha7 =>
        have hk : t.isKeystone = true := by
          simp only [Trap.isKeystone, hecall, Bool.and_true, Bool.and_eq_true, Bool.not_eq_true',
            beq_iff_eq]
          exact ⟨by simpa using hirq, ha7⟩
        have hhandler := m.footprint_handler C g t hk hsends
        split
        · next heq => exact congrArg Prod.fst heq ▸ hhandler
        · next heq => exact congrArg Prod.fst heq ▸ hhandler
      · exact hself.setHart (by rfl)
    · exact hself

/-- A trap that sends no updates. -/
theorem footprint_trapStep (hsends : t.sendsIpis = false) :
    Footprint g (m.touched g t) (m.arrive g t) (m.trapStep C g t) := by
  have hhandler : Footprint g (m.touched g t) (m.arrive g t) (m.trapHandler C g t).1 := by
    rw [trapHandler_eq]
    split
    · next hflag => exact m.footprint_enclaveTrap C g t hsends hflag
    · exact m.footprint_hostTrap C g t hsends
  exact hhandler.leave g _

/-- The return of OpenSBI. -/
theorem footprint_osbiReturn (regs : TrapRegs) : Footprint g ∅ m (m.osbiReturnStep g regs) := by
  have hlock : Footprint g ∅ m (m.writePmpcfg0 g LOCK_OSBI) := Footprint.refl.setHart (by rfl)
  have hret : Footprint g ∅ m ((m.writePmpcfg0 g LOCK_OSBI).monTrapReturnOsbi g regs).1 := by
    generalize m.writePmpcfg0 g LOCK_OSBI = m₁ at hlock
    have hfix : Footprint g ∅ m (if (m₁.hart g).monEnclaveExecution then
        m₁.sbiSmSetEnclavePermissions g else m₁) := by
      split
      · exact (hlock.osmPmpSet _).setHart (by rfl)
      · exact hlock
    unfold monTrapReturnOsbi
    dsimp only
    split
    · exact hlock.setHart (by rfl)
    generalize (if (m₁.hart g).monEnclaveExecution then _ else m₁ : Monitor) = m₂ at hfix
    split
    · split <;> exact hfix
    split
    · exact hfix.setHart (by rfl)
    split
    · exact hfix
    · exact hfix.setHart (by rfl)
  exact hret.leave g _

end

end Monitor

end Dorami.Sm
