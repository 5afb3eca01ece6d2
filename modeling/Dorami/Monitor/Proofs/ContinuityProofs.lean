import Dorami.Monitor.Proofs.ConfinementProofs
import Dorami.Monitor.Proofs.SendProofs

/-!
# Contexts across enclave executions

Entering an enclave stores the context of the host in the enclave's thread, and leaving it stores
the context of the enclave there. Between the two the thread is left alone: only the hart inside the
enclave, and while it is stopped nobody, changes it. So both sides find their contexts again, with
one exception: `sscratch` is taken from a save of the hart, not of the enclave.
-/

namespace Dorami.Sm

open Riscv Lib

namespace Monitor

variable (C : Crypto)

/-! ## One entry of the enclave table -/

section

variable (m : Monitor) {h : HartId} {t : Trap} {e : Nat}

theorem step_enters (hen : m.trapEnabled h t = true) (hent : m.Enters h t e) :
    m.EnterRes h t e (m.step C (.trap h t)) := by
  have hres : ∃ m' r, m.trapHandler C h t = (m', .toSu r) ∧ m.EnterRes h t e m' := by
    rcases hent with hr | hr
    · obtain ⟨m', r, heq, hres, -⟩ := m.runs_res h C t hr
      exact ⟨m', r, heq, hres⟩
    · obtain ⟨m', r, heq, hres, -⟩ := m.resumes_res h C t hr
      exact ⟨m', r, heq, hres⟩
  obtain ⟨m', r, heq, hres⟩ := hres
  have hstep : m.step C (.trap h t) = m'.setMode h .su := by rw [step_trap C hen, heq]; rfl
  rw [hstep]
  refine ⟨hres.enclave, ?_, ?_, ?_⟩ <;> rw [setMode, hart_setHart_self]
  · exact hres.flag
  · exact hres.inside
  · exact hres.eid

theorem leaves_res (hl : m.Leaves h t e) :
    ∃ m' r regs ror results, m.trapHandler C h t = (m', .toSu r) ∧
      m.LeaveRes h t e regs ror results m' r := by
  rcases hl with hi | hs | hx
  · obtain ⟨m', r, heq, hres⟩ := m.interrupts_res h C t hi
    exact ⟨m', r, _, _, _, heq, hres⟩
  · obtain ⟨m', r, heq, hres⟩ := m.stops_res h C t hs
    exact ⟨m', r, _, _, _, heq, hres⟩
  · obtain ⟨m', r, heq, hres⟩ := m.exits_res h C t hx
    exact ⟨m', r, _, _, _, heq, hres⟩

/-- What a step can do to the entry of an enclave. -/
theorem enclave_step_cases (i : Input) (e : Nat) :
    (m.step C i).enclaves e = m.enclaves e ∨
    ((m.step C i).enclaves e).state = .running ∨
    ((m.enclaves e).state = .running ∧ ((m.step C i).enclaves e).state = .stopped) ∨
    (((m.enclaves e).state = .invalid ∨ ((m.step C i).enclaves e).state = .invalid) ∧
      FreshOk ((m.step C i).enclaves e)) := by
  cases i with
  | osbiReturn g regs =>
    simp only [step]
    split
    · exact .inl ((m.footprint_osbiReturn g regs).enclave e (Set.notMem_empty e))
    · exact .inl rfl
  | trap g t =>
    by_cases hen : m.trapEnabled g t = true
    swap
    · exact .inl (congrArg (fun m' : Monitor => m'.enclaves e) (if_neg hen))
    have hstep : m.step C (.trap g t) = m.trapStep C g t := if_pos hen
    by_cases hsends : t.sendsIpis = true
    · rw [hstep]
      obtain ⟨S, hres⟩ := m.sendRes_trapStep C g t hsends
      by_cases he : e ∈ S
      · exact .inr (.inr (.inr ⟨hres.invalid e he, hres.fresh e he⟩))
      · by_cases hrun : (m.enclaves e).state = .running
        · rcases hres.running e he hrun with hrun' | ⟨k, -, -, -, hheld⟩
          · exact .inr (.inl hrun')
          · exact .inr (.inr (.inl ⟨hrun, hheld.stopped⟩))
        · exact .inl (hres.still e he hrun)
    · by_cases he : e ∈ m.touched g t
      · rcases he with hent | hl
        · exact .inr (.inl (by rw [(m.step_enters C hen hent).enclave]; rfl))
        · have hrun : (m.enclaves e).state = .running := by
            rcases hl with hi | hs | hx
            · simpa [EnclaveCore.stoppable] using hi.test
            · simpa [EnclaveCore.stoppable] using hs.test
            · simpa [EnclaveCore.stoppable] using hx.test
          obtain ⟨m', r, regs, ror, results, heq, hres⟩ := m.leaves_res C hl
          have hst : ((m.step C (.trap g t)).enclaves e).state = (m.enclaves e).leave.state := by
            rw [step_trap C hen, heq]
            exact congrArg (fun en : Enclave => en.state) hres.enclave
          rcases state_leave_cases (m.enclaves e).toEnclaveCore hrun with hl | hl
          · exact .inr (.inl (hst.trans hl))
          · exact .inr (.inr (.inl ⟨hrun, hst.trans hl⟩))
      · rw [hstep]
        exact .inl ((m.footprint_trapStep C g t (by simpa using hsends)).enclave e he)

end

/-! ## Fresh enclaves -/

def FreshTable (m : Monitor) : Prop := ∀ e, FreshOk (m.enclaves e)

theorem freshTable_step (m : Monitor) (i : Input) (hf : FreshTable m) :
    FreshTable (m.step C i) := by
  intro e
  rcases m.enclave_step_cases C i e with hsame | hrun | ⟨-, hst⟩ | ⟨-, hfresh⟩
  · rw [hsame]
    exact hf e
  · intro hst
    rw [hrun] at hst
    exact absurd hst nofun
  · intro hst'
    rw [hst] at hst'
    exact absurd hst' nofun
  · exact hfresh

theorem freshTable_run (mem : Word → Byte) (keys : Keys) (is : List Input) :
    FreshTable (run (step C) (handedOver mem keys) is) := by
  refine inv_run_all (freshTable_step C) is fun e hst => ?_
  exact absurd hst nofun

/-! ## Stopped enclaves -/

/-- Nobody changes an enclave as long as it is stopped. -/
theorem enclaves_run_stopped {e : Nat} : ∀ (js : List Input) {m : Monitor},
    Always (step C) (fun m => (m.enclaves e).state = .stopped) m js →
      (run (step C) m js).enclaves e = m.enclaves e := by
  intro js
  induction js with
  | nil => intro m _; rfl
  | cons i js ih =>
    rintro m ⟨hst, hrest⟩
    have hst' := always_head hrest
    rw [run_cons, ih hrest]
    rcases m.enclave_step_cases C i e with hsame | hrun | ⟨hrun, -⟩ | ⟨hinv | hinv, -⟩
    · exact hsame
    · rw [hst'] at hrun
      exact absurd hrun nofun
    · rw [hst] at hrun
      exact absurd hrun nofun
    · rw [hst] at hinv
      exact absurd hinv nofun
    · rw [hst'] at hinv
      exact absurd hinv nofun

/-! ## The enclave a hart is inside of -/

section

variable {h : HartId} {e : Nat} {th : ThreadState} {save : Word}

/-- Enclave `e` runs with one thread and holds `th`; `save` is the `sscratch` saved for the host of
hart `h`. -/
structure Holds (h : HartId) (e : Nat) (th : ThreadState) (save : Word) (m : Monitor) : Prop where
  state : (m.enclaves e).state = .running
  nThread : (m.enclaves e).nThread = 1
  thread : (m.enclaves e).thread = th
  save : (m.hart h).sscratchDoubleSave = save

/-- A hart recorded as running an enclave keeps the save of the host when it traps. -/
theorem hostSave_flag {m : Monitor} (t : Trap) (hflag : (m.hart h).monEnclaveExecution = true) :
    m.hostSave h t = (m.hart h).sscratchDoubleSave := by
  simp only [hostSave, arrived, hflag, if_true]

theorem Holds.of_frame {m m' : Monitor} (hh : Holds h e th save m)
    (henc : m'.enclaves e = m.enclaves e)
    (hsave : (m'.hart h).sscratchDoubleSave = (m.hart h).sscratchDoubleSave) :
    Holds h e th save m' :=
  ⟨by rw [henc]; exact hh.state, by rw [henc]; exact hh.nThread, by rw [henc]; exact hh.thread,
    hsave.trans hh.save⟩

/-- The saves after a trap of hart `g` that is served with this footprint. -/
theorem Footprint.hostSave_eq {m m' : Monitor} {g : HartId} {t : Trap} {S : Set Nat}
    (hf : Footprint g S (m.arrive g t) m') (hflag : (m.hart h).monEnclaveExecution = true) :
    (m'.hart h).sscratchDoubleSave = (m.hart h).sscratchDoubleSave := by
  by_cases hg : h = g
  · subst hg
    have hsaved := congrArg Prod.fst hf.saved
    rw [hart_arrive] at hsaved
    exact hsaved.trans (hostSave_flag t hflag)
  · obtain ⟨n, hn⟩ := hf.hart h hg
    rw [hn, arrive, hart_setHart_ne m g hg]

/-- As long as hart `h` stays inside and no other hart leaves the enclave, its entry is kept. -/
theorem holds_step {m : Monitor} {i : Input} (hh : Holds h e th save m) (hin : m.Inside h e)
    (hin' : (m.step C i).Inside h e) (hothers : m.OthersKeepOut h e i) :
    Holds h e th save (m.step C i) := by
  cases i with
  | osbiReturn g regs =>
    by_cases hg : (m.hart g).mode = .osbi
    · have hstep : m.step C (.osbiReturn g regs) = m.osbiReturnStep g regs := if_pos hg
      have hf := m.footprint_osbiReturn g regs
      rw [hstep]
      refine hh.of_frame (hf.enclave e (Set.notMem_empty e)) ?_
      by_cases hhg : h = g
      · subst hhg
        exact congrArg Prod.fst hf.saved
      · obtain ⟨n, hn⟩ := hf.hart h hhg
        rw [hn]
    · have hstep : m.step C (.osbiReturn g regs) = m := if_neg hg
      rw [hstep]
      exact hh
  | trap g t =>
    by_cases hen : m.trapEnabled g t = true
    swap
    · have hstep : m.step C (.trap g t) = m := if_neg hen
      rw [hstep]
      exact hh
    have hstep : m.step C (.trap g t) = m.trapStep C g t := if_pos hen
    by_cases hsends : t.sendsIpis = true
    · rw [hstep] at hin' ⊢
      by_cases hhg : h = g
      · subst hhg
        have hf := m.footprint_refused C h t hsends hin.inside
        exact hh.of_frame (hf.enclave e (Set.notMem_empty e)) (hf.hostSave_eq hin.flag)
      · -- the hart is still inside, so no update was sent
        obtain ⟨S, hres⟩ := m.sendRes_trapStep C g t hsends
        obtain ⟨⟨n, hn⟩, hquiet⟩ := hres.quiet h hhg hin'.flag
        refine hh.of_frame (hquiet e fun he => hres.idle e he hh.state) ?_
        rw [hn, arrive, hart_setHart_ne m g hhg]
    · have hf := m.footprint_trapStep C g t (by simpa using hsends)
      have hnot : e ∉ m.touched g t := by
        rintro ((hr | hr) | hl)
        · have htest := hr.test
          simp [EnclaveCore.runable, hh.state] at htest
        · have htest := hr.test
          simp [EnclaveCore.resumable, hh.nThread, MAX_ENCL_THREADS] at htest
        · by_cases hhg : h = g
          · subst hhg
            obtain ⟨m', r, regs, ror, results, heq, hres⟩ := m.leaves_res C hl
            have hflag := hin'.flag
            rw [step_trap C hen, heq] at hflag
            simp [leave, setMode, hres.flag] at hflag
          · exact hothers g t rfl (Ne.symm hhg) hen hl
      rw [hstep]
      exact hh.of_frame (hf.enclave e hnot) (hf.hostSave_eq hin.flag)

theorem holds_run : ∀ (js : List Input) {m : Monitor}, Holds h e th save m →
    Always (step C) (fun m => m.Inside h e) m js →
    StepsOk (step C) (fun m i => m.OthersKeepOut h e i) m js →
    Holds h e th save (run (step C) m js) ∧ (run (step C) m js).Inside h e := by
  intro js
  induction js with
  | nil => intro m hh hin _; exact ⟨hh, hin⟩
  | cons i js ih =>
    rintro m hh ⟨hin, hrest⟩ ⟨hothers, hok⟩
    have hin' := always_head hrest
    exact ih (holds_step C hh hin hin' hothers) hrest hok

/-- A run or resume call that succeeds leaves the context of the host in the enclave. -/
theorem holds_enters {m : Monitor} {t : Trap} (hf : FreshTable m) (hen : m.trapEnabled h t = true)
    (hent : m.Enters h t e) :
    Holds h e ((m.enclaves e).thread.hold (frame t) t.csrs true) (m.hostSave h t)
      (m.step C (.trap h t)) := by
  have hres := m.step_enters C hen hent
  have hn : (m.enclaves e).nThread = 0 := by
    rcases hent with hr | hr
    · have htest := hr.test
      simp only [EnclaveCore.runable, Bool.and_eq_true, beq_iff_eq] at htest
      exact (hf e htest.2).1
    · have hlt : (m.enclaves e).nThread < 1 := of_decide_eq_true (Bool.and_eq_true_iff.mp hr.test).2
      bv_omega
  have hsends : t.sendsIpis = false := by
    have hcall : t.regs.a6 = SBI_SM_RUN_ENCLAVE ∨ t.regs.a6 = SBI_SM_RESUME_ENCLAVE := by
      rcases hent with hr | hr
      · exact .inl hr.call
      · exact .inr hr.call
    rcases hcall with hcall | hcall <;> simp [Trap.sendsIpis, hcall] <;> intro _ <;> decide
  have hsaved := congrArg Prod.fst (m.footprint_trapStep C h t hsends).saved
  have hstep : m.step C (.trap h t) = m.trapStep C h t := if_pos hen
  rw [hart_arrive, ← hstep] at hsaved
  refine ⟨?_, ?_, ?_, hsaved⟩
  · rw [hres.enclave]
    rfl
  · rw [hres.enclave]
    simp only [enteredEnclave, EnclaveCore.enter, hn]
    rfl
  · rw [hres.enclave]
    rfl

end

/-! ## The context of the host -/

theorem sameCsrs_hold (old : ThreadState) (regs : TrapRegs) (csrs csrs' : Csrs) (ror : Bool) :
    SameCsrs ((old.hold regs csrs ror).csrs csrs') csrs := ⟨rfl, rfl, rfl, rfl, rfl, rfl, rfl⟩

/-- Leaving an enclave that holds the context of the host gives it back, and the saved
`sscratch`. -/
theorem continues_leaves {m m' : Monitor} {h : HartId} {e : Nat} {old : ThreadState} {t t' : Trap}
    {regs r : TrapRegs} {ror : Bool} {results : List (Fin 32)}
    (hth : (m.enclaves e).thread = old.hold (frame t) t.csrs true)
    (hres : m.LeaveRes h t' e regs ror results m' r) :
    Continues ⟨t.regs, t.csrs⟩ results (t.regs.mepc + 4) r (m'.hart h).csrs := by
  refine ⟨fun i h0 hi => ?_, ?_, ?_, ?_⟩
  · rw [hres.gpr i hi, hth]
    exact (if_neg h0).trans (if_neg h0)
  · rw [hres.csrs, hth]
    exact sameCsrs_hold ..
  · rw [hres.mstatus, mstatus_frame, hth]
    rfl
  · rw [hres.mepc, hth]
    rfl

/-- The registers with results are those of the trap that leaves. -/
theorem leaves_results {m : Monitor} {h : HartId} {t : Trap} {e : Nat} (hl : m.Leaves h t e) :
    ∃ m' r regs ror, m.trapHandler C h t = (m', .toSu r) ∧
      m.LeaveRes h t e regs ror t.results m' r := by
  rcases hl with hi | hs | hx
  · have hk : t.isKeystone = false := by
      have hirq := (Bool.and_eq_true_iff.mp hi.irq).1
      simp [Trap.isKeystone, hirq]
    obtain ⟨m', r, heq, hres⟩ := m.interrupts_res h C t hi
    rw [Trap.results, hk]
    exact ⟨m', r, _, _, heq, hres⟩
  · obtain ⟨m', r, heq, hres⟩ := m.stops_res h C t hs
    rw [Trap.results, hs.call, hs.keystone]
    exact ⟨m', r, _, _, heq, hres⟩
  · obtain ⟨m', r, heq, hres⟩ := m.exits_res h C t hx
    rw [Trap.results, hx.call, hx.keystone]
    exact ⟨m', r, _, _, heq, hres⟩

/-- The host gets its context back when the enclave it has entered is left, all of it
exactly if the record of the hart was right when it made the call, or the saved `sscratch`
happens to be its own. -/
theorem host_context_returned_iff {m : Monitor} (hm : m.Reachable C) (h : HartId) (t t' : Trap)
    (e : Nat) (js : List Input) (hv : m.Visit h t e C js)
    (hleave : (run (step C) m (.trap h t :: js)).Leaves h t' e) :
    ∃ m' r, (run (step C) m (.trap h t :: js)).trapHandler C h t' = (m', .toSu r) ∧
      (HostBack t t' r (m'.hart h).csrs ↔ (m.hart h).monEnclaveExecution = false ∨
        (m.hart h).sscratchDoubleSave = t.regs.sscratch) := by
  obtain ⟨mem, keys, is, rfl⟩ := hm
  have hf := freshTable_run C mem keys is
  generalize run (step C) (handedOver mem keys) is = m at hf hv hleave ⊢
  rw [run_cons] at hleave ⊢
  obtain ⟨hholds, hin⟩ := holds_run C js (holds_enters C hf hv.enabled hv.enters) hv.stays hv.others
  generalize run (step C) (m.step C (.trap h t)) js = m₁ at hholds hin hleave ⊢
  obtain ⟨m', r, regs, ror, heq, hres⟩ := leaves_results C hleave
  have hback := continues_leaves hholds.thread hres
  have hsscratch : r.sscratch = m.hostSave h t := by
    rw [hres.sscratch, hostSave_flag t' hin.flag, hholds.save]
  refine ⟨m', r, heq, ?_⟩
  cases hflag : (m.hart h).monEnclaveExecution with
  | true =>
    rw [hostSave_flag t hflag] at hsscratch
    refine ⟨fun hb => .inr (hsscratch ▸ hb.sscratch), fun hor => ⟨hback, ?_⟩⟩
    exact hsscratch.trans (hor.resolve_left nofun)
  | false =>
    have hown : m.hostSave h t = t.regs.sscratch := by
      simp [hostSave, arrived, hflag]
    exact ⟨fun _ => .inl rfl, fun _ => ⟨hback, hsscratch.trans hown⟩⟩

/-- The trap, taken with this value in `sscratch`. -/
def withSscratch (t : Trap) (value : Word) : Trap :=
  { t with regs := { t.regs with sscratch := value }, csrs := { t.csrs with sscratch := value } }

/-- A run or resume call for enclave 0. -/
def entryCall (funcid sscratch : Word) : Trap := withSscratch (callTrap funcid 0 faultEnv) sscratch

/-- A timer interrupt. -/
def timerTrap (sscratch : Word) : Trap :=
  withSscratch (causeTrap ((1 <<< 63) ||| IRQ_M_TIMER)) sscratch

/-- The monitor with enclave 0 created. -/
def created : Monitor := run (step noCrypto) (handedOver (fun _ => 0) noKeys) (createdRun 0x4000)

/-- The host of hart 1 runs the enclave, which makes an SBI call, and gets its context back after a
timer interrupt. -/
theorem host_back_after_timer :
    ∃ m' r, (run (step noCrypto) created (.trap 1 (entryCall SBI_SM_RUN_ENCLAVE 9) ::
        [.trap 1 (sbiTrap SBI_EXT_TIME), .osbiReturn 1 machineFrame])).trapHandler noCrypto 1
          (timerTrap 7) = (m', .toSu r) ∧
      HostBack (entryCall SBI_SM_RUN_ENCLAVE 9) (timerTrap 7) r (m'.hart 1).csrs := by
  have hruns : created.Runs 1 (entryCall SBI_SM_RUN_ENCLAVE 9) 0 :=
    ⟨by decide, by decide +kernel, by decide, by decide, by decide, by decide +kernel⟩
  have hothers : ∀ (m : Monitor) (i : Input), i = .trap 1 (sbiTrap SBI_EXT_TIME) ∨
      i = .osbiReturn 1 machineFrame → m.OthersKeepOut 1 0 i := by
    rintro m i (rfl | rfl) k t heq hk
    · cases heq
      exact absurd rfl hk
    · cases heq
  have hvisit : created.Visit 1 (entryCall SBI_SM_RUN_ENCLAVE 9) 0 noCrypto
      [.trap 1 (sbiTrap SBI_EXT_TIME), .osbiReturn 1 machineFrame] := by
    refine ⟨by decide +kernel, .inl hruns, ⟨?_, ?_, ?_⟩, hothers _ _ (.inl rfl),
      hothers _ _ (.inr rfl), trivial⟩
    · exact ⟨by decide +kernel, by decide +kernel, by decide +kernel⟩
    · exact ⟨by decide +kernel, by decide +kernel, by decide +kernel⟩
    · exact ⟨by decide +kernel, by decide +kernel, by decide +kernel⟩
  obtain ⟨m', r, heq, hiff⟩ :=
    host_context_returned_iff noCrypto ⟨_, _, _, rfl⟩ 1 _ (timerTrap 7) 0 _
    hvisit (.inl ⟨by decide, by decide +kernel, by decide +kernel, by decide +kernel⟩)
  exact ⟨m', r, heq, hiff.mpr (.inl (by decide +kernel))⟩

/-- A call that was refused has parted the records of the hart: the host that then runs the enclave
resumes with a stale `sscratch`. -/
theorem refused_call_loses_sscratch :
    let m := run (step noCrypto) (handedOver (fun _ => 0) noKeys)
      (createdRun 0x4000 ++ [.trap 1 (callTrap SBI_SM_RUN_ENCLAVE 5 faultEnv)])
    let m₁ := run (step noCrypto) m [.trap 1 (entryCall SBI_SM_RUN_ENCLAVE 9)]
    m.Visit 1 (entryCall SBI_SM_RUN_ENCLAVE 9) 0 noCrypto [] ∧ m₁.Leaves 1 (timerTrap 7) 0 ∧
      ∃ m' r, m₁.trapHandler noCrypto 1 (timerTrap 7) = (m', .toSu r) ∧
        ¬ HostBack (entryCall SBI_SM_RUN_ENCLAVE 9) (timerTrap 7) r (m'.hart 1).csrs := by
  intro m m₁
  have hruns : m.Runs 1 (entryCall SBI_SM_RUN_ENCLAVE 9) 0 :=
    ⟨by decide, by decide +kernel, by decide, by decide, by decide, by decide +kernel⟩
  have hleaves : m₁.Leaves 1 (timerTrap 7) 0 :=
    .inl ⟨by decide, by decide +kernel, by decide +kernel, by decide +kernel⟩
  refine ⟨⟨by decide +kernel, .inl hruns, ?_, trivial⟩, hleaves, ?_⟩
  · exact ⟨by decide +kernel, by decide +kernel, by decide +kernel⟩
  · obtain ⟨m', r, _, _, heq, hres⟩ := leaves_results noCrypto hleaves
    refine ⟨m', r, heq, fun hback => ?_⟩
    have hsave : m₁.hostSave 1 (timerTrap 7) = 0 := by decide +kernel
    have hown := hback.sscratch
    rw [hres.sscratch, hsave] at hown
    exact absurd hown (by decide)

/-! ## The context of the enclave -/

section

variable {m : Monitor} {h : HartId} {e : Nat} {t : Trap} {i : Input} {ctx : Interrupted}

/-- A fresh enclave starts with its parameters and nothing else. -/
theorem starts_runs (hf : FreshTable m) (hr : m.Runs h t e) :
    ∃ m' r, m.trapHandler C h t = (m', .toSu r) ∧
      Starts (m.enclaves e).params r (m'.hart h).csrs := by
  obtain ⟨m', r, heq, -, hcsrs, hr'⟩ := m.runs_res h C t hr
  have htest := hr.test
  simp only [EnclaveCore.runable, Bool.and_eq_true, beq_iff_eq] at htest
  have hzero := (hf e htest.2).2
  refine ⟨m', r, heq, ?_⟩
  rw [hr', hcsrs]
  refine ⟨?_, rfl, ⟨rfl, rfl, rfl, rfl, rfl, rfl, rfl⟩, fun i h0 hi => ?_, rfl⟩
  · exact BitVec.sub_add_cancel _ _
  · simp only [List.mem_cons, List.not_mem_nil, or_false, not_or] at hi
    simp only [TrapRegs.nextPc, TrapRegs.setA0, loadParameters, TrapRegs.setGpr, hi, if_false]
    exact hzero i h0

/-- An enclave that a call of another hart has stopped was left by the one hart inside. -/
theorem heldFrom_update {g : HartId} (hen : m.trapEnabled g t = true) (hsends : t.sendsIpis = true)
    (halone : ∀ k, k ≠ h → (m.hart k).monEnclaveExecution = true → (m.hart k).eid ≠ e)
    (hrun : (m.enclaves e).state = .running)
    (hst : ((m.step C (.trap g t)).enclaves e).state = .stopped) :
    HeldFrom t.env.frames h e (m.step C (.trap g t)) := by
  have hstep : m.step C (.trap g t) = m.trapStep C g t := if_pos hen
  rw [hstep] at hst ⊢
  obtain ⟨S, hres⟩ := m.sendRes_trapStep C g t hsends
  rcases hres.running e (fun he => hres.idle e he hrun) hrun with hrun' | ⟨k, hk, hkf, hke, hheld⟩
  · rw [hst] at hrun'
    exact absurd hrun' nofun
  · have hkh : k = h := by
      by_contra hkh
      rw [arrive, hart_setHart_ne m g hk] at hkf hke
      exact halone k hkh hkf hke
    exact hkh ▸ hheld

/-- The thread of an enclave that has been interrupted. -/
theorem thread_interruptedBy (hi : m.InterruptedBy h e i ctx)
    (hst : ((m.step C i).enclaves e).state = .stopped) :
    ∃ old regs, ((m.step C i).enclaves e).thread = ThreadState.hold old regs ctx.csrs false ∧
      (∀ j, j ≠ 0 → regs.gpr j = ctx.regs.gpr j) ∧ regs.mstatus = ctx.regs.mstatus ∧
      regs.mepc = ctx.regs.mepc - 4 := by
  cases hi with
  | irq t hen hint =>
    obtain ⟨m', r, heq, hres⟩ := m.interrupts_res h C t hint
    rw [step_trap C hen, heq]
    exact ⟨_, _, congrArg Enclave.thread hres.enclave, fun j hj => if_neg hj, rfl, rfl⟩
  | update g t hne hen hsends hflag heid halone hrun =>
    obtain ⟨old, hth⟩ := (heldFrom_update C hen hsends halone hrun hst).thread
    exact ⟨old, _, hth, fun _ _ => rfl, rfl, rfl⟩

/-- The thread of an enclave that has made an edge call. -/
theorem thread_edgeCalls (hen : m.trapEnabled h t = true) (he : m.EdgeCalls h t e) :
    ∃ old : ThreadState, ((m.step C (.trap h t)).enclaves e).thread =
      old.hold (frame t) t.csrs true := by
  obtain ⟨m', r, heq, hres⟩ := m.stops_res h C t he.1
  have hror : (t.regs.a0 == STOP_EDGE_CALL_HOST || t.regs.a0 == STOP_EDGE_CALL_HOST_ACCEPT) =
      true := by
    simpa using he.2
  rw [hror] at hres
  rw [step_trap C hen, heq]
  exact ⟨_, congrArg Enclave.thread hres.enclave⟩

/-- A resumed enclave continues where its thread says; `a0` is set if a value is awaited. -/
theorem continues_resumes (ctx : Interrupted) {old : ThreadState} {regs : TrapRegs} {ror : Bool}
    (hth : (m.enclaves e).thread = old.hold regs ctx.csrs ror)
    (hgpr : ∀ j, j ≠ 0 → regs.gpr j = ctx.regs.gpr j) (hmstatus : regs.mstatus = ctx.regs.mstatus)
    (hr : m.Resumes h t e) :
    ∃ m' r, m.trapHandler C h t = (m', .toSu r) ∧
      Continues ctx (if ror then [10] else []) (regs.mepc + 4) r (m'.hart h).csrs ∧
      (ror = true → r.a0 = 0) := by
  obtain ⟨m', r, heq, -, hcsrs, hr'⟩ := m.resumes_res h C t hr
  have hslot : (m.enclaves e).thread.prevState 0 = if ror then 0 else 1 := by rw [hth]; rfl
  have hframe : ∀ j, j ≠ 0 → ((m.enclaves e).thread.frame (frame t)).gpr j = ctx.regs.gpr j := by
    intro j hj
    rw [hth]
    exact (if_neg hj).trans (hgpr j hj)
  have hbits : ((m.enclaves e).thread.frame (frame t)).mstatus &&& mstatusMask =
      ctx.regs.mstatus &&& mstatusMask := by
    rw [mstatus_frame, hth, ← hmstatus]
    rfl
  have hpc : ((m.enclaves e).thread.frame (frame t)).mepc = regs.mepc := by rw [hth]; rfl
  have hsame : SameCsrs (m'.hart h).csrs ctx.csrs := by
    rw [hcsrs, hth]
    exact sameCsrs_hold ..
  refine ⟨m', r, heq, ?_⟩
  rw [hslot] at hr'
  cases ror with
  | true =>
    rw [if_pos rfl, if_pos rfl] at hr'
    rw [hr']
    refine ⟨⟨fun j h0 hj => ?_, hsame, hbits, congrArg (· + 4) hpc⟩, fun _ => rfl⟩
    exact (if_neg (by simpa using hj)).trans (hframe j h0)
  | false =>
    rw [if_neg (by decide)] at hr'
    rw [hr']
    exact ⟨⟨fun j h0 _ => hframe j h0, hsame, hbits, congrArg (· + 4) hpc⟩, nofun⟩

/-- The execution of an enclave is continuous: its first run starts from its parameters, and a
resume, on whichever hart, goes on from the context in which the enclave was interrupted, or behind
the edge call that stopped it. -/
theorem enclave_continuous (hm : m.Reachable C) (e : Nat) :
    (∀ h t, m.Runs h t e → ∃ m' r, m.trapHandler C h t = (m', .toSu r) ∧
      Starts (m.enclaves e).params r (m'.hart h).csrs) ∧
    (∀ h i ctx js k t', m.InterruptedBy h e i ctx →
      Always (step C) (fun m => (m.enclaves e).state = .stopped) (m.step C i) js →
      (run (step C) m (i :: js)).Resumes k t' e →
      ∃ m' r, (run (step C) m (i :: js)).trapHandler C k t' = (m', .toSu r) ∧
        Continues ctx [] ctx.regs.mepc r (m'.hart k).csrs) ∧
    (∀ h t js k t', m.trapEnabled h t = true → m.EdgeCalls h t e →
      Always (step C) (fun m => (m.enclaves e).state = .stopped) (m.step C (.trap h t)) js →
      (run (step C) m (.trap h t :: js)).Resumes k t' e →
      ∃ m' r, (run (step C) m (.trap h t :: js)).trapHandler C k t' = (m', .toSu r) ∧
        Continues ⟨t.regs, t.csrs⟩ [10] (t.regs.mepc + 4) r (m'.hart k).csrs ∧ r.a0 = 0) := by
  refine ⟨fun h t hr => ?_, fun h i ctx js k t' hi hstop hr => ?_,
    fun h t js k t' hen he hstop hr => ?_⟩
  · obtain ⟨mem, keys, is, rfl⟩ := hm
    exact starts_runs C (freshTable_run C mem keys is) hr
  · have hst := always_head hstop
    obtain ⟨old, regs, hth, hgpr, hmstatus, hmepc⟩ := thread_interruptedBy C hi hst
    rw [run_cons] at hr ⊢
    rw [← enclaves_run_stopped C js hstop] at hth
    obtain ⟨m', r, heq, hcont, -⟩ := continues_resumes C ctx hth hgpr hmstatus hr
    rw [hmepc, BitVec.sub_add_cancel] at hcont
    exact ⟨m', r, heq, hcont⟩
  · obtain ⟨old, hth⟩ := thread_edgeCalls C hen he
    rw [run_cons] at hr ⊢
    rw [← enclaves_run_stopped C js hstop] at hth
    obtain ⟨m', r, heq, hcont, ha0⟩ := continues_resumes C ⟨t.regs, t.csrs⟩ hth
      (fun j hj => if_neg hj) rfl hr
    exact ⟨m', r, heq, hcont, ha0 rfl⟩

end

/-- The monitor with hart 1 inside enclave 0. -/
def entered : Monitor :=
  run (step noCrypto) (handedOver (fun _ => 0) noKeys)
    (createdRun 0x4000 ++ [.trap 1 (entryCall SBI_SM_RUN_ENCLAVE 9)])

/-- The edge call of an enclave. -/
def edgeCall : Trap := callTrap SBI_SM_STOP_ENCLAVE STOP_EDGE_CALL_HOST faultEnv

/-- Enclave 0 starts on hart 1, and goes on on hart 2 after a timer interrupt, and after an edge
call. -/
theorem enclave_goes_on_elsewhere :
    (∃ m' r, created.trapHandler noCrypto 1 (entryCall SBI_SM_RUN_ENCLAVE 9) = (m', .toSu r) ∧
      Starts (created.enclaves 0).params r (m'.hart 1).csrs) ∧
    (∃ m' r, (run (step noCrypto) entered (.trap 1 (timerTrap 7) ::
        [.trap 0 (sbiTrap SBI_EXT_TIME)])).trapHandler noCrypto 2
          (entryCall SBI_SM_RESUME_ENCLAVE 3) = (m', .toSu r) ∧
      Continues ⟨(timerTrap 7).regs, (timerTrap 7).csrs⟩ [] (timerTrap 7).regs.mepc r
        (m'.hart 2).csrs) ∧
    ∃ m' r, (run (step noCrypto) entered (.trap 1 edgeCall :: [])).trapHandler noCrypto 2
        (entryCall SBI_SM_RESUME_ENCLAVE 3) = (m', .toSu r) ∧
      Continues ⟨edgeCall.regs, edgeCall.csrs⟩ [10] (edgeCall.regs.mepc + 4) r (m'.hart 2).csrs ∧
      r.a0 = 0 := by
  refine ⟨?_, ?_, ?_⟩
  · exact (enclave_continuous (m := created) noCrypto ⟨_, _, _, rfl⟩ 0).1 1 _
      ⟨by decide, by decide +kernel, by decide, by decide, by decide, by decide +kernel⟩
  · refine (enclave_continuous (m := entered) noCrypto ⟨_, _, _, rfl⟩ 0).2.1 1 _ _ _ 2 _
      (.irq (timerTrap 7) (by decide +kernel)
        ⟨by decide, by decide +kernel, by decide +kernel, by decide +kernel⟩)
      (by decide +kernel) ?_
    exact ⟨by decide, by decide +kernel, by decide, by decide, by decide, by decide +kernel⟩
  · refine (enclave_continuous (m := entered) noCrypto ⟨_, _, _, rfl⟩ 0).2.2 1 _ _ 2 _
      (by decide +kernel)
      ⟨⟨by decide, by decide +kernel, by decide, by decide +kernel, by decide +kernel⟩, by decide⟩
      (by decide +kernel) ?_
    exact ⟨by decide, by decide +kernel, by decide, by decide, by decide, by decide +kernel⟩

/-! ## The saves of `sscratch` -/

section

variable {m : Monitor} {h : HartId} {e : Nat} {i : Input} {ctx : Interrupted}

/-- A hart recorded as running the host keeps the save of enclaves when it traps. -/
theorem enclaveSave_host (t : Trap) (hflag : (m.hart h).monEnclaveExecution = false) :
    m.enclaveSave h t = (m.hart h).sscratchDoubleSaveEnclave := by
  simp [enclaveSave, arrived, hflag]

/-- A hart recorded as running an enclave saves its `sscratch` when it traps. -/
theorem enclaveSave_flag (t : Trap) (hflag : (m.hart h).monEnclaveExecution = true) :
    m.enclaveSave h t = t.regs.sscratch := by
  simp only [enclaveSave, arrived, hflag, if_true]

theorem save_step (hno : m.savesOn h i = false) :
    ((m.step C i).hart h).sscratchDoubleSaveEnclave = (m.hart h).sscratchDoubleSaveEnclave := by
  cases i with
  | osbiReturn g regs =>
    by_cases hg : (m.hart g).mode = .osbi
    · have hstep : m.step C (.osbiReturn g regs) = m.osbiReturnStep g regs := if_pos hg
      have hf := m.footprint_osbiReturn g regs
      rw [hstep]
      by_cases hhg : h = g
      · subst hhg
        exact congrArg (fun s => s.2.1) hf.saved
      · obtain ⟨n, hn⟩ := hf.hart h hhg
        rw [hn]
    · have hstep : m.step C (.osbiReturn g regs) = m := if_neg hg
      rw [hstep]
  | trap g t =>
    by_cases hen : m.trapEnabled g t = true
    swap
    · have hstep : m.step C (.trap g t) = m := if_neg hen
      rw [hstep]
    have hstep : m.step C (.trap g t) = m.trapStep C g t := if_pos hen
    simp only [savesOn, hen, Bool.and_true] at hno
    rw [hstep]
    by_cases hhg : h = g
    · subst hhg
      have hflag : (m.hart h).monEnclaveExecution = false := by simpa using hno
      have hsaved : ((m.trapStep C h t).hart h).saves = ((m.arrive h t).hart h).saves := by
        by_cases hsends : t.sendsIpis = true
        · obtain ⟨S, hres⟩ := m.sendRes_trapStep C h t hsends
          exact hres.saved
        · exact (m.footprint_trapStep C h t (by simpa using hsends)).saved
      rw [hart_arrive] at hsaved
      exact (congrArg (fun s => s.2.1) hsaved).trans (enclaveSave_host t hflag)
    · have hsame : (m.arrive g t).hart h = m.hart h := hart_setHart_ne m g hhg _
      by_cases hsends : t.sendsIpis = true
      · obtain ⟨S, hres⟩ := m.sendRes_trapStep C g t hsends
        have hflag : (m.hart h).monEnclaveExecution = false := by simpa [hsends] using hno
        rw [← hsame] at hflag ⊢
        exact (hres.flag h hhg hflag).2
      · obtain ⟨n, hn⟩ := (m.footprint_trapStep C g t (by simpa using hsends)).hart h hhg
        rw [hn, hsame]

theorem save_run : ∀ (js : List Input) {m : Monitor},
    StepsOk (step C) (fun m i => m.savesOn h i = false) m js →
      ((run (step C) m js).hart h).sscratchDoubleSaveEnclave =
        (m.hart h).sscratchDoubleSaveEnclave := by
  intro js
  induction js with
  | nil => intro m _; rfl
  | cons i js ih =>
    rintro m ⟨hi, hrest⟩
    rw [run_cons, ih hrest, save_step C hi]

/-- The save of a hart that has left an enclave is the `sscratch` it has left it with. -/
theorem save_leftBy (hl : m.LeftBy h e i ctx) (hst : ((m.step C i).enclaves e).state = .stopped) :
    ((m.step C i).hart h).sscratchDoubleSaveEnclave = ctx.regs.sscratch := by
  -- a trap on the hart itself
  have htrap : ∀ t, m.trapEnabled h t = true → (m.hart h).monEnclaveExecution = true →
      t.sendsIpis = false →
      ((m.step C (.trap h t)).hart h).sscratchDoubleSaveEnclave = t.regs.sscratch := by
    intro t hen hflag hsends
    have hstep : m.step C (.trap h t) = m.trapStep C h t := if_pos hen
    have hsaved := (m.footprint_trapStep C h t hsends).saved
    rw [hart_arrive, ← hstep] at hsaved
    exact (congrArg (fun s => s.2.1) hsaved).trans (enclaveSave_flag t hflag)
  cases hl with
  | call t hen hflag hcall =>
    have hid : t.regs.a6 = SBI_SM_STOP_ENCLAVE ∨ t.regs.a6 = SBI_SM_EXIT_ENCLAVE := by
      rcases hcall with hs | hx
      · exact .inl hs.call
      · exact .inr hx.call
    refine htrap t hen hflag ?_
    rcases hid with hid | hid <;> simp [Trap.sendsIpis, hid] <;> intro _ <;> decide
  | interrupt hi =>
    cases hi with
    | irq t hen hint =>
      refine htrap t hen hint.flag ?_
      have hirq := (Bool.and_eq_true_iff.mp hint.irq).1
      simp [Trap.sendsIpis, Trap.isKeystone, hirq]
    | update g t hne hen hsends hflag heid halone hrun =>
      exact (heldFrom_update C hen hsends halone hrun hst).save

/-- The record of the hart at a trap that does not save on it. -/
theorem flag_of_savesOn {t : Trap} (hen : m.trapEnabled h t = true)
    (hno : m.savesOn h (.trap h t) = false) : (m.hart h).monEnclaveExecution = false := by
  simpa [savesOn, hen] using hno

/-- An enclave finds its own `sscratch` again on the hart it has left, if no other enclave has
trapped there in between, and zero on a hart on which no enclave has trapped yet. -/
theorem sscratch_kept_on_hart (h : HartId) (e : Nat) :
    (∀ m i ctx js t, LeftBy m h e i ctx → ((m.step C i).enclaves e).state = .stopped →
      StepsOk (step C) (fun m i => m.savesOn h i = false) (m.step C i) (js ++ [.trap h t]) →
      (run (step C) m (i :: js)).trapEnabled h t = true →
      (run (step C) m (i :: js)).Resumes h t e →
      ∃ m' r, (run (step C) m (i :: js)).trapHandler C h t = (m', .toSu r) ∧
        r.sscratch = ctx.regs.sscratch) ∧
    ∀ mem keys is t,
      StepsOk (step C) (fun m i => m.savesOn h i = false) (handedOver mem keys)
        (is ++ [.trap h t]) →
      (run (step C) (handedOver mem keys) is).trapEnabled h t = true →
      (run (step C) (handedOver mem keys) is).Runs h t e →
      ∃ m' r, (run (step C) (handedOver mem keys) is).trapHandler C h t = (m', .toSu r) ∧
        r.sscratch = 0 := by
  refine ⟨fun m i ctx js t hl hst hok hen hr => ?_, fun mem keys is t hok hen hr => ?_⟩
  · obtain ⟨hjs, hlast⟩ := hok.of_append js
    have hsave := save_run C js hjs
    rw [save_leftBy C hl hst] at hsave
    rw [run_cons] at hen hr ⊢
    obtain ⟨m', r, heq, -, -, rfl⟩ := resumes_res _ h C t hr
    exact ⟨m', _, heq, (enclaveSave_host t (flag_of_savesOn hen hlast.1)).trans hsave⟩
  · obtain ⟨his, hlast⟩ := hok.of_append is
    have hsave := save_run C is his
    obtain ⟨m', r, heq, -, -, rfl⟩ := runs_res _ h C t hr
    exact ⟨m', _, heq, (enclaveSave_host t (flag_of_savesOn hen hlast.1)).trans hsave⟩

end

/-- Enclave 0 is entered and resumed on hart 1. -/
theorem sscratch_kept_on_hart_one :
    (∃ m' r, created.trapHandler noCrypto 1 (entryCall SBI_SM_RUN_ENCLAVE 9) = (m', .toSu r) ∧
      r.sscratch = 0) ∧
    ∃ m' r, (run (step noCrypto) entered (.trap 1 (timerTrap 7) ::
        [.trap 0 (sbiTrap SBI_EXT_TIME)])).trapHandler noCrypto 1
          (entryCall SBI_SM_RESUME_ENCLAVE 3) = (m', .toSu r) ∧ r.sscratch = 7 := by
  obtain ⟨hresume, hrun⟩ := sscratch_kept_on_hart noCrypto 1 0
  refine ⟨?_, ?_⟩
  · exact hrun _ _ _ _ (by decide +kernel) (by decide +kernel)
      ⟨by decide, by decide +kernel, by decide, by decide, by decide, by decide +kernel⟩
  · refine hresume entered (.trap 1 (timerTrap 7)) _ _ _
      (.interrupt (.irq (timerTrap 7) (by decide +kernel)
        ⟨by decide, by decide +kernel, by decide +kernel, by decide +kernel⟩))
      (by decide +kernel) (by decide +kernel) (by decide +kernel) ?_
    exact ⟨by decide, by decide +kernel, by decide, by decide, by decide, by decide +kernel⟩

/-- Enclave 0 is left on hart 1 with 7 in `sscratch`. Resumed on hart 2 it finds 0 there; and when
it is destroyed and another enclave is created and run on hart 1, that one finds 7. -/
theorem sscratch_of_other_hart_or_enclave :
    let left := entered.step noCrypto (.trap 1 (timerTrap 7))
    let other := run (step noCrypto) left
      (.trap 0 (callTrap SBI_SM_DESTROY_ENCLAVE 0 faultEnv) :: (createdRun 0x4000).drop 4)
    (entered.LeftBy 1 0 (.trap 1 (timerTrap 7)) ⟨(timerTrap 7).regs, (timerTrap 7).csrs⟩ ∧
      (left.enclaves 0).state = .stopped ∧ left.Resumes 2 (entryCall SBI_SM_RESUME_ENCLAVE 3) 0 ∧
      ∃ m' r, left.trapHandler noCrypto 2 (entryCall SBI_SM_RESUME_ENCLAVE 3) = (m', .toSu r) ∧
        r.sscratch = 0) ∧
    other.Runs 1 (entryCall SBI_SM_RUN_ENCLAVE 9) 0 ∧
      ∃ m' r, other.trapHandler noCrypto 1 (entryCall SBI_SM_RUN_ENCLAVE 9) = (m', .toSu r) ∧
        r.sscratch = 7 := by
  intro left other
  have hresumes : left.Resumes 2 (entryCall SBI_SM_RESUME_ENCLAVE 3) 0 :=
    ⟨by decide, by decide +kernel, by decide, by decide, by decide, by decide +kernel⟩
  have hruns : other.Runs 1 (entryCall SBI_SM_RUN_ENCLAVE 9) 0 :=
    ⟨by decide, by decide +kernel, by decide, by decide, by decide, by decide +kernel⟩
  refine ⟨⟨?_, by decide +kernel, hresumes, ?_⟩, hruns, ?_⟩
  · exact .interrupt (.irq (timerTrap 7) (by decide +kernel)
      ⟨by decide, by decide +kernel, by decide +kernel, by decide +kernel⟩)
  · obtain ⟨m', r, heq, -, -, hr⟩ := left.resumes_res 2 noCrypto _ hresumes
    have hsave : left.enclaveSave 2 (entryCall SBI_SM_RESUME_ENCLAVE 3) = 0 := by decide +kernel
    refine ⟨m', r, heq, ?_⟩
    rw [hr, hsave]
  · obtain ⟨m', r, heq, -, -, hr⟩ := other.runs_res 1 noCrypto _ hruns
    have hsave : other.enclaveSave 1 (entryCall SBI_SM_RUN_ENCLAVE 9) = 7 := by decide +kernel
    refine ⟨m', r, heq, ?_⟩
    rw [hr, hsave]

end Monitor

end Dorami.Sm
