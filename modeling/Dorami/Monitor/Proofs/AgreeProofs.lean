import Dorami.Monitor.Proofs.MemoryStepProofs
import Dorami.Monitor.Proofs.RefineProofs
import Dorami.Monitor.Properties

/-!
# What a hart runs is recorded twice

The monitor notes that a hart runs an enclave in `cpus[h].is_enclave`, which the calls themselves
set, and in `mon_enclave_execution[h]`, which is set when the hart goes back to S/U mode and
decides how its next trap is handled. `sbi_sm_run_enclave` and `sbi_sm_resume_enclave` go back as
to an enclave whether or not they entered one, so the two records part when such a call is
refused. As long as none is refused they agree, and a hart recorded as inside an enclave is the
only one inside it.
-/

namespace Dorami.Sm

open Riscv Lib

namespace Core

/-- The harts inside enclaves: each is alone in an enclave that is running, and an enclave counts
one thread while it runs. -/
structure Occupancy (c : Core) : Prop where
  running : ∀ g, (c.hart g).isEnclave = true →
    (c.hart g).eid < ENCL_MAX ∧ (c.enclaves (c.hart g).eid).state = .running
  alone : ∀ g g', (c.hart g).isEnclave = true → (c.hart g').isEnclave = true →
    (c.hart g).eid = (c.hart g').eid → g = g'
  threads : ∀ e, (c.enclaves e).nThread = if (c.enclaves e).state = .running then 1 else 0

/-- The two records agree. -/
structure Agree (c : Core) : Prop extends Occupancy c where
  flag : ∀ g, (c.hart g).monEnclaveExecution = (c.hart g).isEnclave

section

variable {c c' : Core} {h : HartId} {eid : Nat}

/-! ## Steps that leave the records alone -/

theorem Occupancy.congr (ho : Occupancy c) (henc : c'.enclaves = c.enclaves)
    (hin : ∀ g, (c'.hart g).isEnclave = (c.hart g).isEnclave)
    (heid : ∀ g, (c'.hart g).eid = (c.hart g).eid) : Occupancy c' := by
  refine ⟨fun g hg => ?_, fun g g' hg hg' heq => ?_, fun e => ?_⟩
  · rw [hin] at hg
    rw [heid, henc]
    exact ho.running g hg
  · rw [hin] at hg hg'
    rw [heid, heid] at heq
    exact ho.alone g g' hg hg' heq
  · rw [henc]
    exact ho.threads e

/-- A member of the harts that hart `h` keeps. -/
theorem hart_setHart_congr {α : Type} (f : HartCore → α) {hc : HartCore} (hf : f hc = f (c.hart h))
    (g : HartId) : f ((c.setHart h hc).hart g) = f (c.hart g) := by
  rw [hart_setHart]
  split
  · next hg => rw [hg, hf]
  · rfl

theorem Occupancy.setHart (ho : Occupancy c) {hc : HartCore}
    (hin : hc.isEnclave = (c.hart h).isEnclave) (heid : hc.eid = (c.hart h).eid) :
    Occupancy (c.setHart h hc) :=
  ho.congr rfl (hart_setHart_congr (·.isEnclave) hin) (hart_setHart_congr (·.eid) heid)

theorem Agree.setHart (ha : Agree c) {hc : HartCore} (hin : hc.isEnclave = (c.hart h).isEnclave)
    (heid : hc.eid = (c.hart h).eid)
    (hflag : hc.monEnclaveExecution = (c.hart h).monEnclaveExecution) :
    Agree (c.setHart h hc) := by
  refine ⟨ha.toOccupancy.setHart hin heid, fun g => ?_⟩
  rw [hart_setHart_congr (·.monEnclaveExecution) hflag, hart_setHart_congr (·.isEnclave) hin]
  exact ha.flag g

theorem Agree.setPmp (ha : Agree c) {r : PmpRegs} : Agree (c.setPmp h r) := ha.setHart rfl rfl rfl

theorem Agree.setMode (ha : Agree c) {mode : Mode} : Agree (c.setMode h mode) :=
  ha.setHart rfl rfl rfl

theorem Agree.setTable (ha : Agree c) {t : PmpTable} : Agree (c.setTable t) :=
  ⟨ha.toOccupancy.congr rfl (fun _ => rfl) (fun _ => rfl), ha.flag⟩

/-! ## Entering and leaving -/

/-- An enclave that is not running can be changed as long as it does not run. -/
theorem Occupancy.setEnclave (ho : Occupancy c) {en : EnclaveCore}
    (hne : (c.enclaves eid).state ≠ .running) (hst : en.state ≠ .running) (hn : en.nThread = 0) :
    Occupancy (c.setEnclave eid en) := by
  refine ⟨fun g hg => ?_, ho.alone, fun e => ?_⟩
  · obtain ⟨hlt, hrun⟩ := ho.running g hg
    refine ⟨hlt, ?_⟩
    have hother : (c.hart g).eid ≠ eid := by
      rintro heq
      rw [heq] at hrun
      exact hne hrun
    rw [enclaves_setEnclave, hart_setEnclave, if_neg hother]
    exact hrun
  · rw [enclaves_setEnclave]
    by_cases he : e = eid
    · rw [if_pos he, if_neg hst, hn]
    · rw [if_neg he]
      exact ho.threads e

theorem Agree.setEnclave (ha : Agree c) {en : EnclaveCore}
    (hne : (c.enclaves eid).state ≠ .running) (hst : en.state ≠ .running) (hn : en.nThread = 0) :
    Agree (c.setEnclave eid en) := ⟨ha.toOccupancy.setEnclave hne hst hn, ha.flag⟩

theorem Occupancy.nThread_zero (ho : Occupancy c) (hne : (c.enclaves eid).state ≠ .running) :
    (c.enclaves eid).nThread = 0 := by
  rw [ho.threads, if_neg hne]

theorem Occupancy.eid_ne (ho : Occupancy c) (hne : (c.enclaves eid).state ≠ .running) {g : HartId}
    (hg : (c.hart g).isEnclave = true) : (c.hart g).eid ≠ eid := by
  rintro rfl
  exact hne (ho.running g hg).2

theorem Occupancy.enter (ho : Occupancy c) (hlt : eid < ENCL_MAX)
    (hne : (c.enclaves eid).state ≠ .running) : Occupancy (c.enter h eid) := by
  have hn : (c.enclaves eid).nThread = 0 := ho.nThread_zero hne
  rw [enter_eq]
  refine ⟨fun g => ?_, fun g g' => ?_, fun e => ?_⟩
  · simp only [hart_setHart, enclaves_setHart, enclaves_setEnclave, hart_setEnclave]
    by_cases hg : g = h
    · intro _
      simp only [hg, if_true, EnclaveCore.enter]
      exact ⟨hlt, trivial⟩
    · intro hin
      simp only [if_neg hg] at hin ⊢
      rw [if_neg (ho.eid_ne hne hin)]
      exact ho.running g hin
  · simp only [hart_setHart, hart_setEnclave]
    -- no hart was inside this enclave before
    by_cases hg : g = h <;> by_cases hg' : g' = h <;> simp only [hg, hg', if_true, if_false] <;>
      intro hin hin' heq
    · trivial
    · exact absurd heq.symm (ho.eid_ne hne hin')
    · exact absurd heq (ho.eid_ne hne hin)
    · exact ho.alone g g' hin hin' heq
  · rw [enclaves_setHart, enclaves_setEnclave]
    by_cases he : e = eid
    · simp only [if_pos he, EnclaveCore.enter, hn]
      rfl
    · rw [if_neg he]
      exact ho.threads e

/-- The last hart of an enclave leaves it. -/
theorem Occupancy.leave (ho : Occupancy c) (hin : (c.hart h).isEnclave = true) :
    Occupancy (c.leave h (c.hart h).eid) := by
  obtain ⟨_, hrun⟩ := ho.running h hin
  have hn : (c.enclaves (c.hart h).eid).nThread = 1 := by rw [ho.threads, if_pos hrun]
  rw [leave_eq]
  refine ⟨fun g => ?_, fun g g' => ?_, fun e => ?_⟩
  · simp only [hart_setHart, enclaves_setHart, enclaves_setEnclave, hart_setEnclave]
    by_cases hg : g = h
    · simp [hg]
    · intro hing
      simp only [if_neg hg] at hing ⊢
      have hne : (c.hart g).eid ≠ (c.hart h).eid := fun heq => hg (ho.alone g h hing hin heq)
      rw [if_neg hne]
      exact ho.running g hing
  · simp only [hart_setHart, hart_setEnclave]
    by_cases hg : g = h <;> by_cases hg' : g' = h <;> simp only [hg, hg', if_true, if_false] <;>
      intro h1 h2 heq
    · trivial
    · exact absurd h1 (by decide)
    · exact absurd h2 (by decide)
    · exact ho.alone g g' h1 h2 heq
  · rw [enclaves_setHart, enclaves_setEnclave]
    by_cases he : e = (c.hart h).eid
    · simp only [if_pos he, EnclaveCore.leave, hn]
      rfl
    · rw [if_neg he]
      exact ho.threads e

/-- The test of a run or resume call is not passed by an enclave that is running. -/
theorem Occupancy.not_running_of_resumable (ho : Occupancy c)
    (hres : (c.enclaves eid).resumable = true) : (c.enclaves eid).state ≠ .running := by
  intro hrun
  have hn : (c.enclaves eid).nThread = 1 := by rw [ho.threads, if_pos hrun]
  simp [EnclaveCore.resumable, hn, MAX_ENCL_THREADS] at hres

theorem not_running_of_runable {en : EnclaveCore} (hrun : en.runable = true) :
    en.state ≠ .running := by
  intro hst
  simp [EnclaveCore.runable, hst] at hrun

theorem not_running_of_destroyable {en : EnclaveCore} (hd : en.destroyable = true) :
    en.state ≠ .running := by
  intro hst
  simp [EnclaveCore.destroyable, hst, EnclaveState.rank] at hd

/-- The effect of a call on the flag of its hart, on top of an operation that sets the other record
to the same value. -/
theorem Agree.of_setFlag {b : Bool} (ho : Occupancy c') (hb : (c'.hart h).isEnclave = b)
    (hother : ∀ g, g ≠ h → (c'.hart g).monEnclaveExecution = (c'.hart g).isEnclave) :
    Agree (c'.setFlag h b) := by
  refine ⟨ho.setHart rfl rfl, fun g => ?_⟩
  by_cases hg : g = h
  · simp only [setFlag, hart_setHart, if_pos hg, hb]
  · simp only [setFlag, hart_setHart, if_neg hg]
    exact hother g hg

theorem Agree.enterCall (ha : Agree c) {test : EnclaveCore → Bool}
    (hok : (decide (eid < ENCL_MAX) && test (c.enclaves eid)) = true)
    (hne : (c.enclaves eid).state ≠ .running) : Agree (c.enterCall h test eid) := by
  unfold Core.enterCall
  rw [if_pos hok]
  rw [Bool.and_eq_true, decide_eq_true_eq] at hok
  refine Agree.of_setFlag (ha.toOccupancy.enter hok.1 hne) ?_ fun g hg => ?_
  · rw [enter_eq, hart_setHart, if_pos rfl]
  · rw [enter_eq, hart_setHart, if_neg hg]
    exact ha.flag g

theorem Agree.leaveCall (ha : Agree c) (hin : (c.hart h).isEnclave = true) :
    Agree (c.leaveCall h) := by
  have hstop : (c.enclaves (c.hart h).eid).stoppable = true := by
    simp [EnclaveCore.stoppable, (ha.running h hin).2]
  unfold Core.leaveCall
  dsimp only
  rw [if_pos hstop]
  refine Agree.of_setFlag (ha.toOccupancy.leave hin) ?_ fun g hg => ?_
  · rw [leave_eq, hart_setHart, if_pos rfl]
  · rw [leave_eq, hart_setHart, if_neg hg]
    exact ha.flag g

/-! ## Creating and destroying -/

/-- The records agree, and enclave `eid` is not running. -/
structure Quiet (eid : Nat) (c : Core) : Prop extends Agree c where
  idle : (c.enclaves eid).state ≠ .running

theorem Quiet.setPmp (hq : Quiet eid c) {r : PmpRegs} : Quiet eid (c.setPmp h r) :=
  ⟨hq.toAgree.setPmp, hq.idle⟩

theorem Quiet.setTable (hq : Quiet eid c) {t : PmpTable} : Quiet eid (c.setTable t) :=
  ⟨hq.toAgree.setTable, hq.idle⟩

theorem Quiet.setEnclave (hq : Quiet eid c) {en : EnclaveCore} (hst : en.state ≠ .running)
    (hn : en.nThread = 0) : Quiet eid (c.setEnclave eid en) := by
  refine ⟨hq.toAgree.setEnclave hq.idle hst hn, ?_⟩
  rw [enclaves_setEnclave, if_pos rfl]
  exact hst

theorem Quiet.setState (hq : Quiet eid c) {s : EnclaveState} (hs : s ≠ .running) :
    Quiet eid (c.setState eid s) := hq.setEnclave hs (hq.nThread_zero hq.idle)

theorem Quiet.create (hq : Quiet eid c) {region sharedRegion : Nat} {params : RuntimeParams} :
    Quiet eid (c.setEnclave eid ((c.enclaves eid).create region sharedRegion params)) :=
  hq.setEnclave hq.idle rfl

/-- An update stops the enclave its receiver runs. -/
theorem Quiet.deliverIpi (hq : Quiet eid c) {u : IpiUpdate} : Quiet eid (c.deliverIpi h u) := by
  unfold Core.deliverIpi
  dsimp only
  split
  · next hflag =>
    have hin : (c.hart h).isEnclave = true := by rw [← hq.flag]; exact hflag
    refine ⟨(hq.toAgree.leaveCall hin).setPmp, ?_⟩
    have hother : eid ≠ (c.hart h).eid := (hq.eid_ne hq.idle hin).symm
    have henc : (c.leaveCall h).enclaves eid = c.enclaves eid := by
      unfold Core.leaveCall
      dsimp only
      split
      · rw [leave_eq]
        exact if_neg hother
      · rfl
    show ((c.leaveCall h).enclaves eid).state ≠ .running
    rw [henc]
    exact hq.idle
  · exact hq.setPmp

theorem Quiet.sendIpis (hq : Quiet eid c) {u : IpiUpdate} : Quiet eid (c.sendIpis h u) :=
  List.foldlRecOn (motive := Quiet eid) _ _ hq fun _ hc _ _ => hc.deliverIpi

theorem Quiet.build (hq : Quiet eid c) {region sharedRegion : Nat} {params : RuntimeParams} :
    Quiet eid (c.build h eid region sharedRegion params) := by
  have hq1 : Quiet eid (c.sendIpis h ⟨region, false, PMP_NO_PERM⟩) := hq.sendIpis
  unfold Core.build
  generalize c.sendIpis h ⟨region, false, PMP_NO_PERM⟩ = c1 at hq1
  exact hq1.setPmp.setPmp.create.setPmp.setPmp.setPmp.setPmp.setState (by decide)

theorem Agree.createEnclave (ha : Agree c) {args : CreateArgs} :
    Agree (c.createEnclave h args) := by
  unfold Core.createEnclave
  split
  · exact ha
  split
  · exact ha
  next eid halloc =>
  have hst : (c.enclaves eid).state = .invalid := by
    simpa using List.find?_some halloc
  have hq : Quiet eid c := ⟨ha, by rw [hst]; decide⟩
  split
  · exact ha
  split
  · exact ha.setTable
  · exact (hq.setState (by decide)).setTable.build.toAgree

theorem Quiet.destroyRegion (hq : Quiet eid c) {i : Nat} :
    Quiet eid (c.destroyRegion h eid i) := by
  unfold Core.destroyRegion Core.unsetGlobal
  dsimp only
  split
  · exact hq
  split
  · exact hq.setPmp.setPmp.sendIpis.setTable
  · exact hq.setPmp.setPmp.setTable

theorem Quiet.destroyShared (hq : Quiet eid c) : Quiet eid (c.destroyShared eid) := by
  unfold Core.destroyShared
  split
  · exact hq.setTable
  · exact hq

theorem Agree.destroyCall (ha : Agree c) : Agree (c.destroyCall h eid) := by
  unfold Core.destroyCall
  split
  · next hok =>
    rw [Bool.and_eq_true] at hok
    have hq : Quiet eid c := ⟨ha, not_running_of_destroyable hok.2⟩
    have hregions : Quiet eid ((c.setState eid .destroying).destroyRegions h eid) :=
      List.foldlRecOn (motive := Quiet eid) _ _ (hq.setState (by decide))
        fun _ hc _ _ => hc.destroyRegion
    have hshared := hregions.destroyShared
    generalize ((c.setState eid .destroying).destroyRegions h eid).destroyShared eid = c1 at hshared
    have hclear : Quiet eid (c1.setEnclave eid (c1.enclaves eid).clear) :=
      hshared.setEnclave hshared.idle rfl
    exact (hclear.setState (by decide)).setPmp.toAgree
  · exact ha

/-! ## Steps -/

theorem Agree.attestCall (ha : Agree c) {size : Word} {copied : Bool} :
    Agree (c.attestCall h size copied) := by
  unfold Core.attestCall
  dsimp only
  split
  · exact ha
  split
  · exact ha
  split
  · exact ha.setPmp.setPmp
  · exact ha.setPmp

theorem Agree.sealingCall (ha : Agree c) {derived : Bool} : Agree (c.sealingCall h derived) := by
  unfold Core.sealingCall
  dsimp only
  split
  · exact ha.setPmp.setPmp.setPmp.setPmp
  · exact ha.setPmp.setPmp

theorem Agree.osbiReturn (ha : Agree c) {mode : Mode} : Agree (c.osbiReturn h mode) := by
  unfold Core.osbiReturn
  dsimp only
  split
  · split
    · exact ha.setPmp.setPmp.setPmp.setMode
    · exact ha.setPmp.setMode
  · refine Agree.setMode (Agree.setHart ha.setPmp ?_ ?_ ?_) <;> rfl

theorem Agree.createCall (ha : Agree c) {args : Option CreateArgs} :
    Agree (c.createCall h args) := by
  unfold Core.createCall
  dsimp only
  split
  · exact ha.setPmp.setPmp
  · exact ha.setPmp.setPmp.createEnclave.setPmp

end

/-- The call is not a run or resume call by the host that is refused. -/
def accepts (c : Core) : Event → Bool
  | .run h eid =>
    (c.hart h).isEnclave || decide (eid < ENCL_MAX) && (c.enclaves eid).runable
  | .resume h eid =>
    (c.hart h).isEnclave || decide (eid < ENCL_MAX) && (c.enclaves eid).resumable
  | _ => true

theorem accepts_of_not_call (c : Core) {e : Event} (he : e.isCall = false) :
    c.accepts e = true := by
  cases e <;> first | rfl | cases he

variable {c : Core}

theorem Agree.apply (ha : Agree c) {e : Event} (hacc : c.accepts e = true) : Agree (c.apply e) := by
  cases e with
  | other => exact ha
  | create h args =>
    simp only [Core.apply]
    split
    · exact ha
    · exact ha.createCall
  | destroy h eid =>
    simp only [Core.apply]
    split
    · exact ha
    · exact ha.destroyCall
  | run h eid =>
    simp only [Core.apply]
    split
    · exact ha
    · next hout =>
      simp only [accepts, hout, Bool.false_or] at hacc
      exact ha.enterCall hacc (not_running_of_runable (Bool.and_eq_true .. ▸ hacc).2)
  | resume h eid =>
    simp only [Core.apply]
    split
    · exact ha
    · next hout =>
      simp only [accepts, hout, Bool.false_or] at hacc
      exact ha.enterCall hacc (ha.not_running_of_resumable (Bool.and_eq_true .. ▸ hacc).2)
  | attest h size copied =>
    simp only [Core.apply]
    split
    · exact ha.attestCall
    · exact ha
  | sealing h derived =>
    simp only [Core.apply]
    split
    · exact ha.sealingCall
    · exact ha
  | leave h =>
    simp only [Core.apply]
    split
    · next hin => exact ha.leaveCall hin
    · exact ha
  | interrupt h =>
    simp only [Core.apply]
    split
    · next hflag => exact ha.leaveCall (by rw [← ha.flag]; exact hflag)
    · exact ha.setPmp.setMode
  | forward h => exact ha.setPmp.setMode
  | hang h => exact ha.setMode
  | osbiReturn h mode => exact ha.osbiReturn

/-- The call resumes a hart of the host as if it were inside an enclave. -/
def Parts (c : Core) : Prop :=
  ∃ h, (c.hart h).mode = .su ∧ (c.hart h).isEnclave = false ∧ (c.hart h).monEnclaveExecution = true

theorem parts_enterCall {h : HartId} {test : EnclaveCore → Bool} {eid : Nat}
    (hmode : (c.hart h).mode = .su) (hout : (c.hart h).isEnclave = false)
    (hno : (decide (eid < ENCL_MAX) && test (c.enclaves eid)) = false) :
    Parts (c.enterCall h test eid) := by
  have hcall : c.enterCall h test eid = c.setFlag h true := by
    simp [Core.enterCall, hno]
  refine ⟨h, ?_⟩
  rw [hcall, setFlag, hart_setHart, if_pos rfl]
  exact ⟨hmode, hout, rfl⟩

theorem parts_apply {e : Event} (hen : c.enabled e = true) (hacc : c.accepts e = false) :
    Parts (c.apply e) := by
  cases e with
  | run h eid =>
    simp only [accepts, Bool.or_eq_false_iff] at hacc
    simp only [enabled, beq_iff_eq] at hen
    simp only [Core.apply, hacc.1, Bool.false_eq_true, if_false]
    exact parts_enterCall hen hacc.1 hacc.2
  | resume h eid =>
    simp only [accepts, Bool.or_eq_false_iff] at hacc
    simp only [enabled, beq_iff_eq] at hen
    simp only [Core.apply, hacc.1, Bool.false_eq_true, if_false]
    exact parts_enterCall hen hacc.1 hacc.2
  | _ => cases hacc

end Core

/-! ## Runs of the monitor -/

namespace Monitor

section

variable (C : Crypto) (m : Monitor) (h : HartId) (regs : TrapRegs) (env : Env)

theorem callEvent_run (hf : regs.a6 = SBI_SM_RUN_ENCLAVE) :
    m.callEvent C h regs env = .run h (regs.a0.setWidth 32).toNat := by
  unfold callEvent
  rw [hf, if_neg (by decide), if_neg (by decide), if_pos rfl]

theorem callEvent_resume (hf : regs.a6 = SBI_SM_RESUME_ENCLAVE) :
    m.callEvent C h regs env = .resume h (regs.a0.setWidth 32).toNat := by
  unfold callEvent
  rw [hf, if_neg (by decide), if_neg (by decide), if_neg (by decide), if_pos rfl]

theorem accepts_callEvent :
    m.core.accepts (m.callEvent C h regs env) = !m.callRefused h regs := by
  unfold callRefused
  dsimp only
  by_cases hrun : regs.a6 = SBI_SM_RUN_ENCLAVE
  · have hres : (SBI_SM_RUN_ENCLAVE == SBI_SM_RESUME_ENCLAVE) = false := by decide
    rw [m.callEvent_run C h regs env hrun, hrun, hres]
    simp [Core.accepts]
  by_cases hres : regs.a6 = SBI_SM_RESUME_ENCLAVE
  · have hrun' : (SBI_SM_RESUME_ENCLAVE == SBI_SM_RUN_ENCLAVE) = false := by decide
    rw [m.callEvent_resume C h regs env hres, hres, hrun']
    simp [Core.accepts]
  · have hcall : m.core.accepts (m.callEvent C h regs env) = true := by
      unfold callEvent
      dsimp only
      rw [if_neg hrun, if_neg hres]
      repeat' split
      all_goals rfl
    simp [hcall, hrun, hres]

theorem trapEvent_keystone {t : Trap} (hk : t.isKeystone = true) :
    m.trapEvent C h t.mcause t.regs t.env = m.callEvent C h t.regs t.env := by
  simp only [Trap.isKeystone, Bool.and_eq_true, Bool.not_eq_true', beq_iff_eq] at hk
  obtain ⟨⟨hirq, hecall⟩, ha7⟩ := hk
  simp [trapEvent, hirq, hecall, ha7]

theorem isCall_trapEvent {t : Trap} (hk : t.isKeystone = false) :
    (m.trapEvent C h t.mcause t.regs t.env).isCall = false := by
  unfold Trap.isKeystone at hk
  unfold trapEvent
  split
  · split <;> rfl
  next hirq =>
  split
  · next hecall =>
    split
    · next ha7 => simp [hirq, hecall, ha7] at hk
    · rfl
  · rfl

end

variable (C : Crypto) (m : Monitor)

/-- An input is refused exactly if its event can take place and is not accepted. -/
theorem entryRefused_iff (i : Input) :
    m.entryRefused i = true ↔
      m.core.enabled (m.event C i) = true ∧ m.core.accepts (m.event C i) = false := by
  cases i with
  | osbiReturn h regs => simp [entryRefused, event, Core.accepts]
  | trap h t =>
    show _ ↔ m.core.enabled (m.trapEvent C h t.mcause t.regs t.env) = true ∧
      m.core.accepts (m.trapEvent C h t.mcause t.regs t.env) = false
    cases hk : t.isKeystone with
    | false =>
      have hacc := m.core.accepts_of_not_call (m.isCall_trapEvent C h hk)
      simp [entryRefused, hk, hacc]
    | true =>
      have hacc := m.accepts_callEvent C h t.regs t.env
      have hev := m.enabled_trapEvent h C t
      rw [m.trapEvent_keystone C h hk] at hev ⊢
      rcases hev with hother | hen
      · rw [hother] at hacc
        have hno : m.callRefused h t.regs = false := by
          cases hr : m.callRefused h t.regs with
          | false => rfl
          | true => rw [hr] at hacc; cases hacc
        rw [hother]
        simp [entryRefused, hno, Core.accepts]
      · rw [hen, hacc]
        simp [entryRefused, hk]

theorem agree_step {i : Input} (ha : m.core.Agree) (hi : m.entryRefused i = false) :
    (m.step C i).core.Agree := by
  rw [step_core, Core.step]
  split
  · next hen =>
    refine ha.apply ?_
    by_contra hacc
    have hbad := (m.entryRefused_iff C i).mpr ⟨hen, by simpa using hacc⟩
    rw [hi] at hbad
    exact absurd hbad (by decide)
  · exact ha

theorem RecordsAgree.of_agree {m : Monitor} (ha : m.core.Agree) : RecordsAgree m :=
  fun h _ => ⟨ha.flag h, ha.running h⟩

theorem not_recordsAgree_step {i : Input} (hi : m.entryRefused i = true) :
    ¬ RecordsAgree (m.step C i) := by
  obtain ⟨hen, hacc⟩ := (m.entryRefused_iff C i).mp hi
  have hparts := Core.parts_apply hen hacc
  have hcore : (m.step C i).core = m.core.apply (m.event C i) := by
    rw [step_core, Core.step, if_pos hen]
  rw [← hcore] at hparts
  obtain ⟨h, hmode, hout, hflag⟩ := hparts
  intro hagree
  have heq : true = false := hflag.symm.trans ((hagree h hmode).1.trans hout)
  exact absurd heq (by decide)

theorem agree_boot (mem : Word → Byte) (keys : Keys) : (bootMonitor mem keys).core.Agree := by
  refine ⟨⟨?_, ?_, fun _ => rfl⟩, fun _ => rfl⟩
  · intro g hg
    cases hg
  · intro g g' hg
    cases hg

theorem agree_stepIn {L : Layout} {i : MemInput} (hoff : m.KeepsOff C L i) (ha : m.core.Agree)
    (hi : m.entryRefusedIn i = false) : (m.stepIn C L i).core.Agree := by
  refine stepIn_keeps (P := fun m => m.core.Agree) (fun _ ha => ha) hoff ha fun C' j _ hj => ?_
  rw [entryRefusedIn, hj] at hi
  exact m.agree_step C' ha hi

theorem not_recordsAgree_stepIn {L : Layout} {i : MemInput} (hoff : m.KeepsOff C L i)
    (hi : m.entryRefusedIn i = true) : ¬ RecordsAgree (m.stepIn C L i) := by
  obtain ⟨C', mem, -, heq⟩ := stepIn_off hoff
  rw [heq]
  unfold plainStep
  unfold entryRefusedIn at hi
  cases hj : i.input? with
  | none =>
    rw [hj] at hi
    cases hi
  | some j =>
    rw [hj] at hi
    exact m.not_recordsAgree_step C' hi

/-- In a run that stores nothing onto the variables of the monitor, the records agree throughout
exactly if no run or resume call of the host is refused. -/
theorem recordsAgree_iff_no_entryRefused (L : Layout) (mem : Word → Byte) (keys : Keys)
    (is : List MemInput) (hoff : StepsOk (stepIn C L) (KeepsOff C L) (bootMonitor mem keys) is) :
    Always (stepIn C L) RecordsAgree (bootMonitor mem keys) is ↔
      StepsOk (stepIn C L) (fun m i => m.entryRefusedIn i = false) (bootMonitor mem keys) is := by
  have hstep : ∀ m i, m.core.Agree → m.KeepsOff C L i → m.entryRefusedIn i = false →
      (stepIn C L m i).core.Agree :=
    fun m i ha hoff hi => m.agree_stepIn C hoff ha hi
  have hbad : ∀ m i, m.core.Agree → m.KeepsOff C L i → ¬ m.entryRefusedIn i = false →
      ¬ RecordsAgree (stepIn C L m i) :=
    fun m i _ hoff hi => m.not_recordsAgree_stepIn C hoff (by simpa using hi)
  exact always_iff_stepsOk hstep (fun m ha => RecordsAgree.of_agree ha) hbad is
    (agree_boot mem keys) hoff

/-! A hart that asks for an enclave that does not exist. -/

/-- Cryptographic functions and keys for runs that do not depend on them. -/
def noCrypto : Crypto := ⟨fun _ => [], fun _ _ _ => [], fun _ _ _ => none⟩

def noKeys : Keys := ⟨[], [], [], [], []⟩

/-- An environment in which every access of S-mode faults. -/
def faultEnv : Env :=
  ⟨fun _ => none, fun _ => none, fun _ => ⟨TrapRegs.zero, Csrs.zero⟩, 0, 0, []⟩

/-- A call of the Keystone extension with one argument. -/
def callTrap (funcid a0 : Word) (env : Env) : Trap :=
  { mcause := CAUSE_SUPERVISOR_ECALL
    mtval := 0
    regs :=
      ((TrapRegs.zero.setGpr 17 SBI_EXT_EXPERIMENTAL_KEYSTONE_ENCLAVE).setGpr 16 funcid).setGpr
        10 a0
    csrs := Csrs.zero
    mip := 0
    env := env }

theorem isKeystone_callTrap (funcid a0 : Word) (env : Env) :
    (callTrap funcid a0 env).isKeystone = true := by
  have ha7 : (callTrap funcid a0 env).regs.a7 = SBI_EXT_EXPERIMENTAL_KEYSTONE_ENCLAVE := rfl
  have hcause : (callTrap funcid a0 env).mcause = CAUSE_SUPERVISOR_ECALL := rfl
  rw [Trap.isKeystone, ha7, hcause]
  decide

/-- Cryptographic functions with results of the right sizes. -/
def plainCrypto : Crypto :=
  ⟨fun _ => List.replicate MDSIZE 0, fun _ _ _ => List.replicate SIGNATURE_SIZE 1,
    fun _ _ n => some (List.replicate n 1)⟩

def plainKeys : Keys :=
  ⟨List.replicate MDSIZE 0, List.replicate SIGNATURE_SIZE 0, List.replicate PUBLIC_KEY_SIZE 0,
    List.replicate SIGNATURE_SIZE 0, List.replicate PUBLIC_KEY_SIZE 0⟩

def plainEnv : Env := { faultEnv with reportData := List.replicate ATTEST_DATA_MAXLEN.toNat 0 }

/-- An environment in which S-mode can read and write all memory, at its own addresses. -/
def writableEnv : Env := { plainEnv with load := fun _ => some 0, store := fun p => some p }

/-- A create call for an EPM of this size at `0x90000000`. -/
def createTrap (epmSize : Word) : Trap :=
  let args : CreateArgs :=
    ⟨0x90000000, epmSize, 0xa0000000, 0x1000, 0x90000000, 0x90001000, 0x90002000, 0⟩
  let bytes := [args.epmPaddr, args.epmSize, args.utmPaddr, args.utmSize, args.runtimePaddr,
    args.userPaddr, args.freePaddr, args.freeRequested].flatMap wordBytes
  callTrap SBI_SM_CREATE_ENCLAVE 0 { faultEnv with load := fun p => bytes[p.toNat]? }

/-- A trap of hart 0, whose calls have their array `info` at `0x80130000`. -/
def input0 (t : Trap) : MemInput := .trap 0 t 0x80130000

/-- The call is refused, and the hart goes on as the host with the record of an enclave. -/
theorem refused_run_parts_records :
    ¬ RecordsAgree (run (stepIn noCrypto dataLayout) (bootMonitor (fun _ => 0) noKeys)
      [input0 (callTrap SBI_SM_RUN_ENCLAVE 5 faultEnv)]) := by
  intro hagree
  have hrec := (hagree 0 (by decide +kernel)).1
  exact absurd hrec (by decide +kernel)

/-- An enclave is created and entered, and the records agree. -/
theorem entered_records_agree :
    let start := bootMonitor (fun _ => 0) noKeys
    let is := [input0 (createTrap 0x4000), input0 (callTrap SBI_SM_RUN_ENCLAVE 0 faultEnv)]
    ((run (stepIn noCrypto dataLayout) start is).hart 0).isEnclave = true ∧
      Always (stepIn noCrypto dataLayout) RecordsAgree start is := by
  intro start is
  have hoff : StepsOk (stepIn noCrypto dataLayout) (KeepsOff noCrypto dataLayout) start is := by
    decide +kernel
  refine ⟨by decide +kernel,
    (recordsAgree_iff_no_entryRefused noCrypto dataLayout _ _ _ hoff).mpr ?_⟩
  decide +kernel

end Monitor

end Dorami.Sm
