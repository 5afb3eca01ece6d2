import Dorami.Monitor.Proofs.CoreProofs

/-!
# The monitor refines its core

The dispatcher and the trap handlers on the core. The main result is `step_core`: the core of a step
of the monitor is the step of the core for the event of the input.
-/

namespace Dorami.Sm

open Riscv

namespace Monitor

variable (m : Monitor) (h : HartId) (regs : TrapRegs)

/-! ## The dispatcher -/

section Dispatch

variable (C : Crypto) (env : Env) (fid : Word)

/-- A function id of the host. -/
theorem handler_host (hd : ¬ fid ≤ FID_RANGE_DEPRECATED) (hh : fid ≤ FID_RANGE_HOST) :
    (m.sbiEcallKeystoneEnclaveHandler C h fid regs env).1.core =
      if (m.core.hart h).isEnclave then m.core
      else (m.keystoneDispatch C h fid regs env).1.core := by
  unfold sbiEcallKeystoneEnclaveHandler
  rw [if_neg hd, if_pos hh, core_hart]
  cases (m.hart h).isEnclave <;> rfl

/-- A function id of enclaves. -/
theorem handler_enclave (hd : ¬ fid ≤ FID_RANGE_DEPRECATED) (hh : ¬ fid ≤ FID_RANGE_HOST)
    (he : fid ≤ FID_RANGE_ENCLAVE) :
    (m.sbiEcallKeystoneEnclaveHandler C h fid regs env).1.core =
      if (m.core.hart h).isEnclave then (m.keystoneDispatch C h fid regs env).1.core
      else m.core := by
  unfold sbiEcallKeystoneEnclaveHandler
  rw [if_neg hd, if_neg hh, if_pos he, core_hart]
  cases (m.hart h).isEnclave <;> rfl

theorem dispatch_create :
    (m.keystoneDispatch C h SBI_SM_CREATE_ENCLAVE regs env).1.core =
      m.core.createCall h (copyEnclaveCreateArgs env regs.a0).toOption := by
  rw [← m.core_sbiSmCreateEnclave h C env regs.a0, keystoneDispatch, if_pos rfl]
  rcases m.sbiSmCreateEnclave C h env regs.a0 with ⟨m', e | eid⟩ <;> rfl

theorem dispatch_destroy :
    (m.keystoneDispatch C h SBI_SM_DESTROY_ENCLAVE regs env).1.core =
      m.core.destroyCall h (regs.a0.setWidth 32).toNat := by
  rw [keystoneDispatch, if_neg (by decide), if_pos rfl]
  exact core_destroyEnclave ..

theorem dispatch_run :
    (m.keystoneDispatch C h SBI_SM_RUN_ENCLAVE regs env).1.core =
      m.core.enterCall h (·.runable) (regs.a0.setWidth 32).toNat := by
  rw [keystoneDispatch, if_neg (by decide), if_neg (by decide), if_pos rfl]
  exact core_sbiSmRunEnclave ..

theorem dispatch_resume :
    (m.keystoneDispatch C h SBI_SM_RESUME_ENCLAVE regs env).1.core =
      m.core.enterCall h (·.resumable) (regs.a0.setWidth 32).toNat := by
  rw [keystoneDispatch, if_neg (by decide), if_neg (by decide), if_neg (by decide), if_pos rfl]
  exact core_sbiSmResumeEnclave ..

theorem dispatch_attest :
    (m.keystoneDispatch C h SBI_SM_ATTEST_ENCLAVE regs env).1.core =
      m.core.attestCall h regs.a2 (copyToSm env regs.a1 regs.a2.toNat).isSome := by
  rw [keystoneDispatch, if_neg (by decide), if_neg (by decide), if_neg (by decide),
    if_neg (by decide), if_neg (by decide), if_pos rfl]
  exact core_attestEnclave ..

theorem dispatch_sealing :
    (m.keystoneDispatch C h SBI_SM_GET_SEALING_KEY regs env).1.core =
      m.core.sealingCall h
        (m.smDeriveSealingKey C regs.a1 regs.a2 (m.enclaves (m.hart h).eid).hash).isSome := by
  rw [keystoneDispatch, if_neg (by decide), if_neg (by decide), if_neg (by decide),
    if_neg (by decide), if_neg (by decide), if_neg (by decide), if_pos rfl]
  exact core_getSealingKey ..

theorem dispatch_leave (hf : fid = SBI_SM_STOP_ENCLAVE ∨ fid = SBI_SM_EXIT_ENCLAVE) :
    (m.keystoneDispatch C h fid regs env).1.core = m.core.leaveCall h := by
  rcases hf with rfl | rfl
  · rw [keystoneDispatch, if_neg (by decide), if_neg (by decide), if_neg (by decide),
      if_neg (by decide), if_neg (by decide), if_neg (by decide), if_neg (by decide), if_pos rfl]
    exact m.core_sbiSmStopEnclave h regs regs.a0
  · rw [keystoneDispatch, if_neg (by decide), if_neg (by decide), if_neg (by decide),
      if_neg (by decide), if_neg (by decide), if_neg (by decide), if_neg (by decide),
      if_neg (by decide), if_pos rfl]
    exact m.core_sbiSmExitEnclave h regs regs.a0

/-- A function id without effect here: none of those above. -/
def HasNoEffect (fid : Word) : Prop :=
  fid ≠ SBI_SM_CREATE_ENCLAVE ∧ fid ≠ SBI_SM_DESTROY_ENCLAVE ∧ fid ≠ SBI_SM_RUN_ENCLAVE ∧
    fid ≠ SBI_SM_RESUME_ENCLAVE ∧ fid ≠ SBI_SM_ATTEST_ENCLAVE ∧ fid ≠ SBI_SM_GET_SEALING_KEY ∧
    fid ≠ SBI_SM_STOP_ENCLAVE ∧ fid ≠ SBI_SM_EXIT_ENCLAVE

theorem dispatch_other (hne : HasNoEffect fid) :
    (m.keystoneDispatch C h fid regs env).1.core = m.core := by
  obtain ⟨h1, h2, h3, h4, h5, h6, h7, h8⟩ := hne
  rw [keystoneDispatch, if_neg h1, if_neg h2, if_neg h3, if_neg h4, if_neg h5, if_neg h6, if_neg h7,
    if_neg h8]
  split
  · rcases platformRandom m.randomW env.cycles with ⟨value, w⟩
    rfl
  · split <;> rfl

theorem handler_other (hne : HasNoEffect fid) :
    (m.sbiEcallKeystoneEnclaveHandler C h fid regs env).1.core = m.core := by
  have hdisp := m.dispatch_other h regs C env fid hne
  unfold sbiEcallKeystoneEnclaveHandler
  dsimp only
  split
  · rfl
  split
  · split
    · rfl
    · exact hdisp
  split
  · split
    · rfl
    · exact hdisp
  · exact hdisp

/-- The dispatcher has the effect of the call's event. -/
theorem core_handler :
    (m.sbiEcallKeystoneEnclaveHandler C h regs.a6 regs env).1.core =
      m.core.apply (m.callEvent C h regs env) := by
  unfold callEvent
  dsimp only
  split
  · next hf =>
    rw [hf, handler_host _ _ _ _ _ _ (by decide) (by decide), dispatch_create]
    rfl
  split
  · next hf =>
    rw [hf, handler_host _ _ _ _ _ _ (by decide) (by decide), dispatch_destroy]
    rfl
  split
  · next hf =>
    rw [hf, handler_host _ _ _ _ _ _ (by decide) (by decide), dispatch_run]
    rfl
  split
  · next hf =>
    rw [hf, handler_host _ _ _ _ _ _ (by decide) (by decide), dispatch_resume]
    rfl
  split
  · next hf =>
    rw [hf, handler_enclave _ _ _ _ _ _ (by decide) (by decide) (by decide), dispatch_attest]
    rfl
  split
  · next hf =>
    rw [hf, handler_enclave _ _ _ _ _ _ (by decide) (by decide) (by decide), dispatch_sealing]
    rfl
  split
  · next hf =>
    have hrange : ¬ regs.a6 ≤ FID_RANGE_DEPRECATED ∧ ¬ regs.a6 ≤ FID_RANGE_HOST ∧
        regs.a6 ≤ FID_RANGE_ENCLAVE := by
      rcases hf with hf | hf <;> rw [hf] <;> decide
    rw [handler_enclave _ _ _ _ _ _ hrange.1 hrange.2.1 hrange.2.2, dispatch_leave _ _ _ _ _ _ hf]
    rfl
  · next h1 h2 h3 h4 h5 h6 h78 =>
    exact m.handler_other h regs C env _
      ⟨h1, h2, h3, h4, h5, h6, fun h => h78 (Or.inl h), fun h => h78 (Or.inr h)⟩

end Dispatch

/-! ## Traps -/

section Trap

variable (C : Crypto) (env : Env) (mcause : Word)

theorem core_leave_toSu (hsu : (m.core.hart h).mode = .su) (frame : TrapRegs) :
    (m.leave h (.toSu frame)).core = m.core := by
  unfold leave
  rw [core_setMode]
  unfold Core.setMode
  rw [← hsu]
  exact m.core.setHart_self h

theorem core_leave_toOsbi (frame : TrapRegs) :
    (m.leave h (.toOsbi frame)).core = m.core.forward h := by
  unfold leave writePmpcfg0
  rw [core_setMode, core_setPmp]
  rfl

theorem core_leave_hang : (m.leave h .hang).core = m.core.setMode h .hung := core_setMode ..

theorem core_monEcallEnter : (m.monEcallEnter h regs).1.core = m.core := by
  simp [monEcallEnter]

theorem isCall_callEvent : (m.callEvent C h regs env).isCall = true := by
  unfold callEvent
  dsimp only
  repeat' split
  all_goals rfl

/-- After a call the hart goes on in S/U mode. -/
theorem mode_handler :
    ((m.sbiEcallKeystoneEnclaveHandler C h regs.a6 regs env).1.core.hart h).mode =
      (m.core.hart h).mode := by
  rw [core_handler]
  exact (Core.same_apply (m.isCall_callEvent h regs C env) h).1

theorem core_enclaveTrap (hsu : (m.core.hart h).mode = .su)
    (hflag : (m.core.hart h).monEnclaveExecution = true) :
    ((m.sbiTrapHandlerKeystoneEnclave C h mcause regs env).1.leave h
      (m.sbiTrapHandlerKeystoneEnclave C h mcause regs env).2).core =
      m.core.apply (m.trapEvent C h mcause regs env) := by
  unfold sbiTrapHandlerKeystoneEnclave trapEvent
  split
  · split
    · dsimp only
      rw [core_leave_toSu, core_sbiSmStopEnclave]
      · simp only [Core.apply, hflag, if_true]
      · rw [core_sbiSmStopEnclave, (Core.Same.refl.leaveCall h).1]
        exact hsu
    · exact core_leave_hang ..
  split
  · split
    · have hmode := (m.mode_handler h regs C env).trans hsu
      rw [← m.core_handler h regs C env]
      generalize m.sbiEcallKeystoneEnclaveHandler C h regs.a6 regs env = p at hmode ⊢
      rcases p with ⟨m', _ | _⟩
      · exact core_leave_toSu _ _ hmode _
      · exact core_leave_toSu _ _ hmode _
    · dsimp only
      rw [core_leave_toOsbi, core_monEcallEnter]
      rfl
  · exact core_leave_toOsbi ..

theorem core_hostTrap (hsu : (m.core.hart h).mode = .su)
    (hflag : (m.core.hart h).monEnclaveExecution = false) :
    ((m.monTrapHandlerHost C h mcause regs env).1.leave h
      (m.monTrapHandlerHost C h mcause regs env).2).core =
      m.core.apply (m.trapEvent C h mcause regs env) := by
  unfold monTrapHandlerHost trapEvent
  dsimp only
  split
  · split
    · dsimp only
      rw [core_leave_toOsbi]
      simp only [Core.apply, hflag, Bool.false_eq_true, if_false]
    · exact core_leave_hang ..
  split
  · split
    · have hmode := (m.mode_handler h regs C env).trans hsu
      rw [← m.core_handler h regs C env]
      generalize m.sbiEcallKeystoneEnclaveHandler C h regs.a6 regs env = p at hmode ⊢
      rcases p with ⟨m', _ | _⟩
      · exact core_leave_toSu _ _ hmode _
      · exact core_leave_toSu _ _ hmode _
    · dsimp only
      rw [core_leave_toOsbi, core_monEcallEnter]
      rfl
  · exact core_leave_toOsbi ..

/-- What a trap records outside the core does not change the event. -/
theorem trapEvent_setHart {hs : HartState} (heq : hs.toHartCore = (m.hart h).toHartCore) :
    (m.setHart h hs).trapEvent C h mcause regs env = m.trapEvent C h mcause regs env := by
  have heid : ((m.setHart h hs).hart h).eid = (m.hart h).eid := by
    rw [← heq]
    exact congrArg (fun hs : HartState => hs.eid) (if_pos rfl)
  have hcall : (m.setHart h hs).callEvent C h regs env = m.callEvent C h regs env := by
    unfold callEvent
    dsimp only
    rw [heid]
    rfl
  unfold trapEvent
  rw [hcall]

/-- What a trap records outside the core does not change its effect. -/
theorem apply_setHart {hs : HartState} (heq : hs.toHartCore = (m.hart h).toHartCore) :
    (m.setHart h hs).core.apply ((m.setHart h hs).trapEvent C h mcause regs env) =
      m.core.apply (m.trapEvent C h mcause regs env) := by
  rw [m.core_setHart_same h heq, m.trapEvent_setHart h regs C env mcause heq]

theorem core_monTrapHandlerSumode (mtval : Word) (hsu : (m.core.hart h).mode = .su) :
    ((m.monTrapHandlerSumode C h mcause mtval regs env).1.leave h
      (m.monTrapHandlerSumode C h mcause mtval regs env).2).core =
      m.core.apply (m.trapEvent C h mcause regs env) := by
  rw [← m.apply_setHart h regs C env mcause
    (show ({ m.hart h with temporaryInfo := ⟨mcause, mtval⟩ } : HartState).toHartCore = _ from rfl)]
  have hcore := m.core_setHart_same h
    (show ({ m.hart h with temporaryInfo := ⟨mcause, mtval⟩ } : HartState).toHartCore = _ from rfl)
  unfold monTrapHandlerSumode
  dsimp only at hcore ⊢
  rw [← hcore] at hsu
  generalize m.setHart h _ = m1 at hsu ⊢
  split
  · next hflag =>
    refine (core_enclaveTrap _ _ _ _ _ _ ?_ ?_).trans (m1.apply_setHart h regs C env mcause rfl)
    · simpa using hsu
    · simpa using hflag
  · next hflag =>
    refine (core_hostTrap _ _ _ _ _ _ ?_ ?_).trans (m1.apply_setHart h regs C env mcause rfl)
    · simpa using hsu
    · simpa using hflag

theorem core_trapStep (t : Trap) (hsu : (m.core.hart h).mode = .su) :
    (m.trapStep C h t).core = m.core.apply (m.trapEvent C h t.mcause t.regs t.env) := by
  refine (core_monTrapHandlerSumode _ h (t.regs.setGpr 0 0) C t.env t.mcause t.mtval ?_).trans
    (m.apply_setHart h _ C t.env t.mcause rfl)
  simpa using hsu

end Trap

/-! ## The return of OpenSBI -/

theorem core_writePmpcfg0 (cfg : Word) :
    (m.writePmpcfg0 h cfg).core = m.core.writePmpcfg0 h cfg := core_setPmp ..

theorem core_sbiSmSetEnclavePermissions :
    (m.sbiSmSetEnclavePermissions h).core = m.core.fixPermissions h (m.core.hart h).eid := by
  simp [sbiSmSetEnclavePermissions, enclaveFixAccessPermissions, Core.fixPermissions]

theorem core_fixFlagged :
    (if (m.hart h).monEnclaveExecution = true then m.sbiSmSetEnclavePermissions h else m).core =
      if (m.core.hart h).monEnclaveExecution = true then m.core.fixPermissions h (m.core.hart h).eid
      else m.core := by
  rw [core_hart]
  split
  · exact core_sbiSmSetEnclavePermissions ..
  · rfl

/-- `mon_trap_return_osbi`: where the hart goes on depends on the trap that was forwarded. -/
theorem core_monTrapReturnOsbi :
    ((m.monTrapReturnOsbi h regs).1.leave h (m.monTrapReturnOsbi h regs).2).core =
      if (m.core.hart h).suStarted then
        (if (m.core.hart h).monEnclaveExecution then m.core.fixPermissions h (m.core.hart h).eid
          else m.core).setMode h (returnMode (m.hart h).temporaryInfo.cause)
      else (m.core.setHart h { m.core.hart h with suStarted := true }).setMode h .su := by
  rw [← core_fixFlagged]
  unfold monTrapReturnOsbi returnMode
  dsimp only
  generalize (if (m.hart h).monEnclaveExecution = true then m.sbiSmSetEnclavePermissions h
    else m) = m2
  by_cases hst : (m.hart h).suStarted = true
  · simp only [core_hart, hst, Bool.not_true, Bool.false_eq_true, if_false, if_true]
    repeat' split
    all_goals simp [leave]
  · simp [hst, leave, core_setHart]

theorem core_osbiReturnStep :
    (m.osbiReturnStep h regs).core =
      m.core.osbiReturn h (returnMode (m.hart h).temporaryInfo.cause) := by
  have hinfo : ((m.writePmpcfg0 h LOCK_OSBI).hart h).temporaryInfo = (m.hart h).temporaryInfo := by
    simp [writePmpcfg0, setPmp, setHart]
  refine (core_monTrapReturnOsbi ..).trans ?_
  rw [hinfo, core_writePmpcfg0]
  rfl

/-! ## Steps -/

theorem all_su_and :
    ((m.hart h).mode == .su && (List.finRange 4).all fun g => (m.hart g).mode == .su) =
      (List.finRange 4).all fun g => (m.hart g).mode == .su := by
  cases hall : (List.finRange 4).all fun g => (m.hart g).mode == .su with
  | false => rw [Bool.and_false]
  | true =>
    have hself := List.all_eq_true.mp hall h (List.mem_finRange h)
    rw [hself]
    rfl

/-- An event other than `other` can take place when its trap can. -/
theorem enabled_trapEvent (C : Crypto) (t : Trap) :
    m.trapEvent C h t.mcause t.regs t.env = .other ∨
      m.core.enabled (m.trapEvent C h t.mcause t.regs t.env) = m.trapEnabled h t := by
  unfold trapEvent trapEnabled Trap.sendsIpis Trap.isKeystone
  cases hirq : isInterrupt t.mcause with
  | true =>
    right
    simp only [if_true, Bool.not_true, Bool.false_and, Bool.not_false, Bool.true_or, Bool.and_true]
    split <;> rfl
  | false =>
  cases hecall : isEcall t.mcause with
  | false => right; simp [Core.enabled]
  | true =>
  by_cases ha7 : t.regs.a7 = SBI_EXT_EXPERIMENTAL_KEYSTONE_ENCLAVE
  · simp only [Bool.false_eq_true, if_false, if_true, ha7, Bool.not_false, beq_self_eq_true,
      Bool.and_self, Bool.true_and]
    unfold callEvent
    dsimp only
    split
    · next hf => right; simp only [hf, beq_self_eq_true, Bool.true_or, Bool.not_true, Bool.false_or,
        all_su_and]; rfl
    next h1 =>
    split
    · next hf => right; simp only [hf, beq_self_eq_true, Bool.or_true, Bool.not_true, Bool.false_or,
        all_su_and]; rfl
    next h2 =>
    have hno : (!(t.regs.a6 == SBI_SM_CREATE_ENCLAVE || t.regs.a6 == SBI_SM_DESTROY_ENCLAVE)) =
        true := by
      simp [h1, h2]
    rw [hno, Bool.true_or, Bool.and_true]
    repeat' split
    all_goals first | exact Or.inl rfl | exact Or.inr rfl
  · right
    simp [ha7, Core.enabled]

/-- The core of a step is the step of the core. -/
theorem step_core (C : Crypto) (i : Input) :
    (m.step C i).core = m.core.step (m.event C i) := by
  cases i with
  | trap h t =>
    have hstep : ∀ e, e = .other ∨ m.core.enabled e = m.trapEnabled h t →
        m.core.step e = if m.trapEnabled h t = true then m.core.apply e else m.core := by
      rintro e (rfl | hen)
      · exact (ite_self _).symm
      · unfold Core.step
        rw [hen]
    unfold event step
    rw [hstep _ (m.enabled_trapEvent h C t)]
    dsimp only
    split
    · next hen =>
      unfold trapEnabled at hen
      rw [Bool.and_eq_true, beq_iff_eq] at hen
      exact m.core_trapStep h C t hen.1
    · rfl
  | osbiReturn h regs =>
    unfold Core.step step event
    dsimp only [Core.enabled, core_hart]
    by_cases hmode : (m.hart h).mode = .osbi
    · rw [if_pos hmode, core_osbiReturnStep]
      simp only [hmode]
      rfl
    · rw [if_neg hmode]
      simp [hmode]

end Monitor

end Dorami.Sm
