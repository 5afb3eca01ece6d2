import Dorami.Monitor.Proofs.FootprintProofs
import Dorami.Monitor.Proofs.ForwardProofs
import Dorami.Monitor.Proofs.OsbiProofs

/-!
# What OpenSBI learns and what it can change

While OpenSBI serves a hart, the context of the caller is parked in the monitor's own variables for
the hart, which the other harts leave alone. After an SBI call the caller gets that copy back, with
the result registers filled in. After any other trap it gets the frame OpenSBI returns, and with it
the `mstatus` of OpenSBI's choice.
-/

namespace Dorami.Sm

open Riscv Lib

namespace Monitor

variable (C : Crypto) (m : Monitor) (h : HartId) (t : Trap)

/-! ## Handing a call on -/

/-- The state in which an SBI call is handed on. -/
def parked : Monitor :=
  (m.arrive h t).setHart h { (m.arrive h t).hart h with temporaryRegisters := frame t }

theorem trapHandler_sbiCall (hcall : t.isSbiCall = true) :
    ∃ mscratch, m.trapHandler C h t =
      (m.parked h t, .toOsbi { ecallFrame (frame t) with mscratch := mscratch }) := by
  simp only [Trap.isSbiCall, Bool.and_eq_true, Bool.not_eq_true', bne_iff_ne, ne_eq] at hcall
  obtain ⟨⟨hirq, hecall⟩, ha7⟩ := hcall
  have ha7' : (frame t).a7 ≠ SBI_EXT_EXPERIMENTAL_KEYSTONE_ENCLAVE := ha7
  rw [trapHandler_eq]
  cases (m.hart h).monEnclaveExecution with
  | true =>
    refine ⟨(ecallFrame (frame t)).mscratch, ?_⟩
    simp only [if_true, sbiTrapHandlerKeystoneEnclave, hirq, hecall, if_neg ha7',
      Bool.false_eq_true, if_false]
    rfl
  | false =>
    refine ⟨((m.arrive h t).hart h).osbiMscratch, ?_⟩
    simp only [Bool.false_eq_true, if_false, monTrapHandlerHost, hirq, hecall, if_true, if_neg ha7']
    rfl

theorem hart_parked : (m.parked h t).hart h =
    { arrived (m.hart h) t with temporaryRegisters := frame t } := by
  simp only [parked, arrive, hart_setHart_self]

theorem temporaryInfo_arrived (hs : HartState) :
    (arrived hs t).temporaryInfo = ⟨t.mcause, t.mtval⟩ := by
  unfold arrived
  dsimp only
  split <;> rfl

theorem hart_leave_toOsbi (f : TrapRegs) :
    (m.leave h (.toOsbi f)).hart h = { m.hart h with
      mode := .osbi
      pmp := ((m.leave h (.toOsbi f)).hart h).pmp } := by
  simp [leave, setMode, writePmpcfg0, setPmp]

theorem hart_writePmpcfg0 (cfg : Word) :
    (m.writePmpcfg0 h cfg).hart h =
        { m.hart h with pmp := ((m.writePmpcfg0 h cfg).hart h).pmp } := by
  simp [writePmpcfg0, setPmp]

theorem step_trap {m : Monitor} {h : HartId} {t : Trap} (hen : m.trapEnabled h t = true) :
    m.step C (.trap h t) = (m.trapHandler C h t).1.leave h (m.trapHandler C h t).2 := by
  simp only [step, hen, if_true]
  rfl

theorem trapEnabled_sbiCall {m : Monitor} {h : HartId} {t : Trap} (hsu : (m.hart h).mode = .su)
    (hcall : t.isSbiCall = true) : m.trapEnabled h t = true := by
  simp only [Trap.isSbiCall, Bool.and_eq_true, bne_iff_ne, ne_eq] at hcall
  simp [trapEnabled, hsu, Trap.sendsIpis, Trap.isKeystone, hcall.2]

theorem gpr_ecallFrame_eq_zero (regs : TrapRegs) {i : Fin 32} (hi : i ∉ callRegs) :
    (ecallFrame regs).gpr i = 0 := by
  have hsub : ∀ j ∈ Osbi.copied regs, j ∈ callRegs := by
    intro j hj
    rcases List.mem_append.mp hj with h17 | harg
    · split at h17
      · rw [List.mem_singleton.mp h17]
        decide
      · exact absurd h17 List.not_mem_nil
    · have hlist : ([10, 11, 12, 13, 14, 16] : List (Fin 32)) ⊆ callRegs := by decide
      exact hlist (Osbi.ecallArgs_subset _ _ j harg)
  rw [Osbi.gpr_ecallFrame, if_neg fun hmem => hi (hsub i hmem)]

/-! ## While OpenSBI runs -/

/-- A hart OpenSBI runs on is left alone by the steps of the others. -/
theorem hart_step_away {i : Input} (hmode : (m.hart h).mode = .osbi)
    (haway : ∀ regs, i ≠ .osbiReturn h regs) :
    ∃ n, (m.step C i).hart h = { m.hart h with ocallInfo := n } := by
  cases i with
  | osbiReturn g regs =>
    simp only [step]
    split
    · have hne : h ≠ g := by
        rintro rfl
        exact haway regs rfl
      exact (m.footprint_osbiReturn g regs).hart h hne
    · exact ⟨_, rfl⟩
  | trap g t' =>
    simp only [step]
    split
    · next hen =>
      simp only [trapEnabled, Bool.and_eq_true, Bool.or_eq_true, Bool.not_eq_true', beq_iff_eq,
        List.all_eq_true] at hen
      obtain ⟨hsu, hsends⟩ := hen
      have hne : h ≠ g := by
        rintro rfl
        rw [hmode] at hsu
        exact absurd hsu nofun
      have hno : t'.sendsIpis = false := by
        refine hsends.resolve_right fun hall => ?_
        have := hall h (List.mem_finRange h)
        rw [hmode] at this
        exact absurd this nofun
      obtain ⟨n, hn⟩ := (m.footprint_trapStep C g t' hno).hart h hne
      refine ⟨n, ?_⟩
      rw [hn, arrive, hart_setHart_ne m g hne]
    · exact ⟨_, rfl⟩

theorem hart_stepIn_away {L : Layout} {i : MemInput} (hoff : m.KeepsOff C L i)
    (hmode : (m.hart h).mode = .osbi) (haway : ∀ regs, i ≠ .osbiReturn h regs) :
    ∃ n, (m.stepIn C L i).hart h = { m.hart h with ocallInfo := n } := by
  refine stepIn_keeps (P := fun m' => ∃ n, m'.hart h = { m.hart h with ocallInfo := n })
    (fun _ hn => hn) hoff ⟨_, rfl⟩ fun C' j _ hj => m.hart_step_away C' h hmode ?_
  rintro regs rfl
  cases i with
  | osbiReturn g frame =>
    obtain ⟨rfl, rfl⟩ : g = h ∧ frame = regs := by simpa [MemInput.input?] using hj
    exact haway frame rfl
  | _ => cases hj

theorem hart_run_away {L : Layout} : ∀ (js : List MemInput) {m : Monitor},
    (m.hart h).mode = .osbi → m.Meanwhile C L h js →
      ∃ n, (run (stepIn C L) m js).hart h = { m.hart h with ocallInfo := n } := by
  intro js
  induction js with
  | nil => intro m _ _; exact ⟨_, rfl⟩
  | cons i js ih =>
    intro m hmode hjs
    obtain ⟨n, hn⟩ := m.hart_stepIn_away C h hjs.keeps.1 hmode
      fun regs heq => hjs.away regs (heq ▸ List.mem_cons_self ..)
    have hmode' : ((m.stepIn C L i).hart h).mode = .osbi := by rw [hn]; exact hmode
    obtain ⟨n', hn'⟩ := ih hmode'
      ⟨fun regs hmem => hjs.away regs (List.mem_cons_of_mem _ hmem), hjs.keeps.2⟩
    exact ⟨n', by rw [run_cons, hn', hn]⟩

/-- An SBI call is not for the monitor. -/
theorem serviceOf_sbiCall (hcall : t.isSbiCall = true) : m.serviceOf h t = none := by
  simp only [Trap.isSbiCall, Bool.and_eq_true, bne_iff_ne, ne_eq] at hcall
  refine if_neg ?_
  simp [Trap.isKeystone, hcall.2]

/-- The record of a hart while OpenSBI serves its call. -/
theorem hart_served {L : Layout} {info : Word} {js : List MemInput} (hsu : (m.hart h).mode = .su)
    (hcall : t.isSbiCall = true) (hjs : (m.stepIn C L (.trap h t info)).Meanwhile C L h js) :
    ∃ n pmp, (run (stepIn C L) m (.trap h t info :: js)).hart h =
      { arrived (m.hart h) t with
        temporaryRegisters := frame t
        mode := .osbi
        pmp := pmp
        ocallInfo := n } := by
  obtain ⟨mscratch, hhandler⟩ := m.trapHandler_sbiCall C h t hcall
  have hstep : m.stepIn C L (.trap h t info) = (m.parked h t).leave h
      (.toOsbi { ecallFrame (frame t) with mscratch := mscratch }) := by
    dsimp only [stepIn]
    rw [if_pos (trapEnabled_sbiCall hsu hcall), trapHandlerIn_none (m.serviceOf_sbiCall h t hcall),
      hhandler]
  have hparked := hart_leave_toOsbi (m.parked h t) h
    { ecallFrame (frame t) with mscratch := mscratch }
  rw [← hstep, hart_parked] at hparked
  have hmode : ((m.stepIn C L (.trap h t info)).hart h).mode = .osbi := by rw [hparked]
  obtain ⟨n, hback⟩ := hart_run_away C h js hmode hjs
  exact ⟨n, _, by rw [run_cons, hback, hparked]⟩

/-! ## The return after an SBI call -/

theorem answered_ecallReturn {saved regs : TrapRegs} (osbi : TrapRegs)
    (hsaved : ∀ i < 37, i ≠ 0 → saved.word i = regs.word i) :
    Answered regs osbi (ecallReturn saved osbi) := by
  have hgpr : ∀ i, i ≠ 0 → saved.gpr i = regs.gpr i := by
    intro i hi
    have hword := hsaved i (by omega) fun h0 => hi (Fin.ext h0)
    rwa [TrapRegs.word_gpr, TrapRegs.word_gpr] at hword
  have ha7 : (saved.setA0 osbi.a0).a7 = regs.a7 := hgpr 17 (by decide)
  have hmepc : saved.mepc = regs.mepc := hsaved 32 (by decide) (by decide)
  have hmstatus : saved.mstatus = regs.mstatus := hsaved 33 (by decide) (by decide)
  have hsscratch : saved.sscratch = regs.sscratch := hsaved 36 (by decide) (by decide)
  unfold ecallReturn
  dsimp only
  rw [ha7]
  by_cases hle : regs.a7 ≤ 0x0F
  · rw [if_pos hle]
    refine ⟨fun i h0 h10 h11 => ?_, rfl, ?_, hmstatus, hsscratch, congrArg (· + 4) hmepc⟩
    · exact (if_neg h10).trans (hgpr i h0)
    · rw [if_neg (BitVec.not_lt.mpr hle)]
      exact hgpr 11 (by decide)
  · rw [if_neg hle]
    refine ⟨fun i h0 h10 h11 => ?_, rfl, ?_, hmstatus, hsscratch, congrArg (· + 4) hmepc⟩
    · exact (if_neg h11).trans ((if_neg h10).trans (hgpr i h0))
    · rw [if_pos (BitVec.not_le.mp hle)]
      rfl

/-- Whatever frame OpenSBI returns, only its `a0` and `a1` are used. -/
theorem returnHandler_ecall (hstarted : (m.hart h).suStarted = true)
    (hirq : isInterrupt (m.hart h).temporaryInfo.cause = false)
    (hecall : isEcall (m.hart h).temporaryInfo.cause = true) :
    ∃ m' : Monitor, ∀ osbi, m.returnHandler h osbi =
      (m'.setHart h { m'.hart h with
        temporaryRegisters := ecallReturn (m.hart h).temporaryRegisters osbi },
      .toSu (ecallReturn (m.hart h).temporaryRegisters osbi)) := by
  have hhart := m.hart_writePmpcfg0 h LOCK_OSBI
  unfold returnHandler monTrapReturnOsbi
  generalize m.writePmpcfg0 h LOCK_OSBI = m₁ at hhart
  have hstarted₁ : (m₁.hart h).suStarted = true := by rw [hhart]; exact hstarted
  have hinfo : (m₁.hart h).temporaryInfo = (m.hart h).temporaryInfo := by rw [hhart]
  have hregs : (m₁.hart h).temporaryRegisters = (m.hart h).temporaryRegisters := by rw [hhart]
  simp only [hstarted₁, hinfo, hirq, hecall, hregs, Bool.not_true, Bool.false_eq_true, if_false,
    if_true]
  exact ⟨_, fun osbi => rfl⟩

/-- An SBI call with the number of each register as its value, but for `a7`. -/
def sbiTrap (ext : Word) : Trap :=
  { mcause := CAUSE_SUPERVISOR_ECALL
    mtval := 0
    regs := { TrapRegs.zero with gpr := fun i => if i = 17 then ext else BitVec.ofNat 64 i }
    csrs := Csrs.zero
    mip := 0
    env := faultEnv }

/-! ## The mode OpenSBI returns to -/

/-- The frame that is resumed is the caller's copy after an SBI call, and otherwise OpenSBI's. -/
theorem resumed_returnHandler (osbi : TrapRegs) :
    ∃ sscratch, (m.returnHandler h osbi).2.resumed =
      if !(m.hart h).suStarted then some { osbi with sscratch := sscratch }
      else if isInterrupt (m.hart h).temporaryInfo.cause then
        if isTimerOrSoft (m.hart h).temporaryInfo.cause then some { osbi with sscratch := sscratch }
        else none
      else if isEcall (m.hart h).temporaryInfo.cause then
        some (ecallReturn (m.hart h).temporaryRegisters osbi)
      else some { osbi with sscratch := sscratch } := by
  have hhart := m.hart_writePmpcfg0 h LOCK_OSBI
  unfold returnHandler monTrapReturnOsbi
  generalize m.writePmpcfg0 h LOCK_OSBI = m₁ at hhart
  refine ⟨if (m₁.hart h).monEnclaveExecution then (m₁.hart h).sscratchDoubleSaveEnclave
    else (m₁.hart h).sscratchDoubleSave, ?_⟩
  have hstarted : (m₁.hart h).suStarted = (m.hart h).suStarted := by rw [hhart]
  have hinfo : (m₁.hart h).temporaryInfo = (m.hart h).temporaryInfo := by rw [hhart]
  have hregs : (m₁.hart h).temporaryRegisters = (m.hart h).temporaryRegisters := by rw [hhart]
  dsimp only
  rw [hstarted, hinfo, hregs]
  cases (m.hart h).suStarted with
  | false => rfl
  | true =>
    simp only [Bool.not_true, Bool.false_eq_true, if_false]
    split
    · simp only [isTimerOrSoft, Bool.or_eq_true, beq_iff_eq]
      split <;> rfl
    split
    · rfl
    split <;> rfl

theorem below_ecallReturn (saved osbi : TrapRegs) :
    (ecallReturn saved osbi).below = saved.below := by
  unfold ecallReturn
  dsimp only
  split <;> rfl

/-- The copies of callers OpenSBI serves were made in S or U mode. -/
def ParkedBelow (m : Monitor) : Prop :=
  ∀ h, (m.hart h).mode = .osbi → (m.hart h).suStarted = true →
    isInterrupt (m.hart h).temporaryInfo.cause = false →
    isEcall (m.hart h).temporaryInfo.cause = true → (m.hart h).temporaryRegisters.below = true

/-- A frame that keeps off the variables is the one that is resumed. -/
theorem exit_returnHandlerIn {L : Layout} {osbi : TrapRegs} (hmode : (m.hart h).mode = .osbi)
    (hoff : m.KeepsOff C L (.osbiReturn h osbi)) :
    (m.returnHandlerIn L h osbi).2 = (m.returnHandler h osbi).2 := by
  by_cases hmpp : mppOf osbi.mstatus = 3
  · rw [returnHandlerIn_off hmpp (hoff hmode hmpp)]
  · rw [returnHandlerIn, if_neg hmpp]

theorem resumesBelow_iff {L : Layout} {osbi : TrapRegs} (hp : m.ParkedBelow)
    (hmode : (m.hart h).mode = .osbi) (hoff : m.KeepsOff C L (.osbiReturn h osbi)) :
    m.ResumesBelow L h osbi ↔ m.returnsOwn h = true ∨ osbi.below = true := by
  obtain ⟨sscratch, hres⟩ := m.resumed_returnHandler h osbi
  have hosbi : (({ osbi with sscratch := sscratch } : TrapRegs)).below = osbi.below := rfl
  have hown := hp h hmode
  unfold ResumesBelow returnsOwn
  rw [m.exit_returnHandlerIn C h hmode hoff, hres]
  dsimp only
  generalize (m.hart h).suStarted = started, (m.hart h).temporaryInfo.cause = cause at hown
  cases started with
  | false => simp [hosbi]
  | true =>
    cases hirq : isInterrupt cause with
    | true => cases isTimerOrSoft cause <;> simp [hosbi]
    | false =>
      cases hecall : isEcall cause with
      | true => simp [below_ecallReturn, hown rfl hirq hecall]
      | false => simp [hosbi]

/-- A call that sends updates leaves all harts in S/U mode. -/
theorem mode_step_sends {t : Trap} (hen : m.trapEnabled h t = true) (hsends : t.sendsIpis = true)
    (k : HartId) : ((m.step C (.trap h t)).hart k).mode = .su := by
  have hk : t.isKeystone = true := (Bool.and_eq_true_iff.mp hsends).1
  have hall : (m.hart k).mode = .su := by
    simp only [trapEnabled, hsends, Bool.not_true, Bool.false_or, Bool.and_eq_true, beq_iff_eq,
      List.all_eq_true] at hen
    exact hen.2 k (List.mem_finRange k)
  have hcall : (m.event C (.trap h t)).isCall = true := by
    change (m.trapEvent C h t.mcause t.regs t.env).isCall = true
    rw [m.trapEvent_keystone C h hk]
    exact m.isCall_callEvent ..
  have hcore := congrArg (fun c => (c.hart k).mode) (m.step_core C (.trap h t))
  dsimp only [core_hart] at hcore
  rw [hcore]
  unfold Core.step
  split
  · exact (Core.same_apply hcall k).1.trans hall
  · exact hall

/-- OpenSBI does not return to itself. -/
theorem mode_osbiReturnStep (osbi : TrapRegs) :
    ((m.osbiReturnStep h osbi).hart h).mode ≠ .osbi := by
  have hno : ∀ f, (m.returnHandler h osbi).2 ≠ .toOsbi f := by
    intro f
    unfold returnHandler monTrapReturnOsbi
    dsimp only
    repeat' split
    all_goals exact nofun
  change (((m.returnHandler h osbi).1.leave h (m.returnHandler h osbi).2).hart h).mode ≠ .osbi
  cases hex : (m.returnHandler h osbi).2 with
  | toOsbi f => exact absurd hex (hno f)
  | _ => simp [leave, setMode]

theorem parkedBelow_step {i : Input} (hp : m.ParkedBelow)
    (hi : ∀ g t, i = .trap g t → t.fromBelow = true) : (m.step C i).ParkedBelow := by
  intro k hmode hst hirq hecall
  -- a hart that is left alone keeps its copy
  have hother : ∀ n, (m.step C i).hart k = { m.hart k with ocallInfo := n } →
      ((m.step C i).hart k).temporaryRegisters.below = true := by
    intro n hn
    rw [hn] at hmode hst hirq hecall ⊢
    exact hp k hmode hst hirq hecall
  cases i with
  | osbiReturn g regs =>
    by_cases hg : (m.hart g).mode = .osbi
    · have hstep : m.step C (.osbiReturn g regs) = m.osbiReturnStep g regs := if_pos hg
      by_cases hkg : k = g
      · subst hkg
        rw [hstep] at hmode
        exact absurd hmode (m.mode_osbiReturnStep k regs)
      · obtain ⟨n, hn⟩ := (m.footprint_osbiReturn g regs).hart k hkg
        exact hother n (hstep ▸ hn)
    · exact hother _ (congrArg (fun m' : Monitor => m'.hart k) (if_neg hg))
  | trap g t =>
    by_cases hen : m.trapEnabled g t = true
    · by_cases hsends : t.sendsIpis = true
      · rw [m.mode_step_sends C g hen hsends k] at hmode
        exact absurd hmode nofun
      rw [Bool.not_eq_true] at hsends
      have hstep : m.step C (.trap g t) = m.trapStep C g t := if_pos hen
      have hfoot := m.footprint_trapStep C g t hsends
      by_cases hkg : k = g
      · subst hkg
        have hinfo : ((m.trapStep C k t).hart k).temporaryInfo = ⟨t.mcause, t.mtval⟩ := by
          have hsaved := congrArg (fun s => s.2.2) hfoot.saved
          rw [arrive, hart_setHart_self] at hsaved
          exact hsaved.trans (temporaryInfo_arrived t _)
        rw [hstep, hinfo] at hirq hecall
        by_cases ha7 : t.regs.a7 = SBI_EXT_EXPERIMENTAL_KEYSTONE_ENCLAVE
        · have hk : t.isKeystone = true := by
            simp only [Trap.isKeystone, hirq, hecall, ha7]
            decide
          rw [hstep, m.trapStep_keystone C k t hk] at hmode
          simp [setMode] at hmode
        · have hcall : t.isSbiCall = true := by
            simp [Trap.isSbiCall, hirq, hecall, ha7]
          obtain ⟨mscratch, hhandler⟩ := m.trapHandler_sbiCall C k t hcall
          rw [step_trap C hen, hhandler, hart_leave_toOsbi, hart_parked]
          exact hi k t rfl
      · obtain ⟨n, hn⟩ := hfoot.hart k hkg
        rw [arrive, hart_setHart_ne m g hkg] at hn
        exact hother n (hstep ▸ hn)
    · exact hother _ (congrArg (fun m' : Monitor => m'.hart k) (if_neg hen))

theorem parkedBelow_stepIn {L : Layout} {i : MemInput} (hp : m.ParkedBelow)
    (hi : m.KeepsOff C L i ∧ i.fromBelow = true) : (m.stepIn C L i).ParkedBelow := by
  refine stepIn_keeps (fun _ hm => hm) hi.1 hp fun C' j _ hj => m.parkedBelow_step C' hp ?_
  rintro g t rfl
  cases i with
  | trap g' t' info =>
    obtain ⟨rfl, rfl⟩ : g' = g ∧ t' = t := by simpa [MemInput.input?] using hj
    exact hi.2
  | _ => cases hj

theorem parkedBelow_run {L : Layout} {mem : Word → Byte} {keys : Keys} {is : List MemInput}
    (hsteps : StepsOk (stepIn C L) (fun m i => m.KeepsOff C L i ∧ i.fromBelow = true)
      (handedOver mem keys) is) : (run (stepIn C L) (handedOver mem keys) is).ParkedBelow := by
  refine inv_run (fun m i hp hi => m.parkedBelow_stepIn C hp hi) is ?_ hsteps
  -- no hart has been in S/U mode yet
  intro h _ hst
  exact absurd hst nofun

/-- The frame a hart resumes with when OpenSBI returns is one of S or U mode exactly if OpenSBI
returns from an SBI call, after which the frame is the caller's, or returns such a frame itself. The
frame OpenSBI returns with `MPP` = M has to keep off the variables, like all other stores. -/
theorem resumes_below_iff (L : Layout) (mem : Word → Byte) (keys : Keys) (is : List MemInput)
    (hsteps : StepsOk (stepIn C L) (fun m i => m.KeepsOff C L i ∧ i.fromBelow = true)
      (handedOver mem keys) is)
    (hmode : ((run (stepIn C L) (handedOver mem keys) is).hart h).mode = .osbi) (osbi : TrapRegs)
    (hoff : (run (stepIn C L) (handedOver mem keys) is).KeepsOff C L (.osbiReturn h osbi)) :
    (run (stepIn C L) (handedOver mem keys) is).ResumesBelow L h osbi ↔
      (run (stepIn C L) (handedOver mem keys) is).returnsOwn h = true ∨ osbi.below = true :=
  resumesBelow_iff C _ h (parkedBelow_run C hsteps) hmode hoff

/-- A frame with which `mret` continues in machine mode, built on a stack of OpenSBI. -/
def machineFrame : TrapRegs :=
  { TrapRegs.zero.setGpr 2 0x80040000 with mstatus := MSTATUS_MPP }

/-- It keeps off the variables of the monitor. -/
theorem keepsOff_machineFrame (m : Monitor) :
    m.KeepsOff noCrypto dataLayout (.osbiReturn h machineFrame) := by
  intro _ _
  decide +kernel

/-- After an SBI call such a frame is not used. -/
theorem sbi_call_resumes_below :
    let m := run (stepIn noCrypto dataLayout) (handedOver (fun _ => 0) noKeys)
      [.osbiReturn 0 TrapRegs.zero, .trap 0 (sbiTrap SBI_EXT_TIME) 0]
    (m.hart 0).mode = .osbi ∧ m.ResumesBelow dataLayout 0 machineFrame := by
  refine ⟨by decide +kernel, (resumes_below_iff noCrypto 0 dataLayout _ _ _ ?_ (by decide +kernel) _
    (keepsOff_machineFrame 0 _)).mpr (.inl (by decide +kernel))⟩
  decide +kernel

/-- After a timer interrupt, and on a hart's first entry, it is used. -/
theorem interrupt_resumes_machine_mode :
    let m := run (stepIn noCrypto dataLayout) (handedOver (fun _ => 0) noKeys)
      [.osbiReturn 0 TrapRegs.zero, .trap 0 (causeTrap ((1 <<< 63) ||| IRQ_M_TIMER)) 0]
    (m.hart 0).mode = .osbi ∧ ¬ m.ResumesBelow dataLayout 0 machineFrame ∧
      (m.hart 1).mode = .osbi ∧ ¬ m.ResumesBelow dataLayout 1 machineFrame := by
  intro m
  have hparked : m.ParkedBelow := parkedBelow_run noCrypto (by decide +kernel)
  have hmode : ∀ h : HartId, h = 0 ∨ h = 1 → (m.hart h).mode = .osbi := by decide +kernel
  have hbad : ∀ h : HartId, h = 0 ∨ h = 1 → ¬ m.ResumesBelow dataLayout h machineFrame := by
    intro h hh
    rw [resumesBelow_iff noCrypto m h hparked (hmode h hh) (keepsOff_machineFrame h m)]
    revert h hh
    decide +kernel
  exact ⟨hmode 0 (.inl rfl), hbad 0 (.inl rfl), hmode 1 (.inr rfl), hbad 1 (.inr rfl)⟩

end Monitor

end Dorami.Sm
