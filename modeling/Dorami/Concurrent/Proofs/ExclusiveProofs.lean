import Dorami.Concurrent.Exclusive
import Dorami.Monitor.Proofs.AgreeProofs
import Dorami.Monitor.Proofs.CallProofs

/-!
# Exclusive execution

At most one hart is inside an enclave, whatever the order of the calls. The invariant says for each
state of the enclave how many harts are inside, and which calls can have succeeded before.
-/

namespace Dorami.Sm

open Riscv Lib

/-! ## One locked section -/

/-- What the section of a call that is not refused has found and left. -/
theorem LockedCall.locked_cases {c : LockedCall} {en en' : EnclaveCore}
    (hl : c.locked en = some en') :
    ((c = .run ∧ en.runable = true ∨ c = .resume ∧ en.resumable = true) ∧ en' = en.enter) ∨
    ((c = .stop ∨ c = .exit) ∧ en.state = .running ∧ en' = en.leave) ∨
    (c = .attest ∧ en' = en) ∨
    (c = .destroy ∧ en.destroyable = true ∧ en' = en.setState .destroying) := by
  cases c <;> simp only [locked, Option.ite_none_right_eq_some, Option.some.injEq] at hl <;>
    obtain ⟨htest, rfl⟩ := hl
  · exact Or.inl ⟨Or.inl ⟨rfl, htest⟩, rfl⟩
  · exact Or.inl ⟨Or.inr ⟨rfl, htest⟩, rfl⟩
  · exact Or.inr (Or.inl ⟨Or.inl rfl, by simpa [EnclaveCore.stoppable] using htest, rfl⟩)
  · exact Or.inr (Or.inl ⟨Or.inr rfl, by simpa [EnclaveCore.stoppable] using htest, rfl⟩)
  · exact Or.inr (Or.inr (Or.inl ⟨rfl, rfl⟩))
  · exact Or.inr (Or.inr (Or.inr ⟨rfl, htest, rfl⟩))

/-! ## The calls of the monitor

Made one at a time, a call of the monitor changes the enclave as its locked section does. -/

section Monitor

variable (m : Monitor) (h : HartId) (regs : TrapRegs) {eid : Nat}

theorem enclaves_enter (c : Core) (test : Bool) :
    (if test then c.enter h eid else c).enclaves eid =
      (if test then some (c.enclaves eid).enter else none).getD (c.enclaves eid) := by
  split
  · rw [Core.enter_eq, Core.enclaves_setHart, Core.enclaves_setEnclave, if_pos rfl]
    rfl
  · rfl

theorem enclaves_leave (c : Core) (test : Bool) :
    (if test then c.leave h eid else c).enclaves eid =
      (if test then some (c.enclaves eid).leave else none).getD (c.enclaves eid) := by
  split
  · rw [Core.leave_eq, Core.enclaves_setHart, Core.enclaves_setEnclave, if_pos rfl]
    rfl
  · rfl

theorem runEnclave_locked (hlt : eid < ENCL_MAX) :
    (m.runEnclave h regs eid).1.core.enclaves eid =
      (LockedCall.run.locked (m.core.enclaves eid)).getD (m.core.enclaves eid) := by
  rw [Monitor.core_runEnclave, decide_eq_true hlt, Bool.true_and]
  exact enclaves_enter h m.core _

theorem resumeEnclave_locked (hlt : eid < ENCL_MAX) :
    (m.resumeEnclave h regs eid).1.core.enclaves eid =
      (LockedCall.resume.locked (m.core.enclaves eid)).getD (m.core.enclaves eid) := by
  rw [Monitor.core_resumeEnclave, decide_eq_true hlt, Bool.true_and]
  exact enclaves_enter h m.core _

theorem exitEnclave_locked :
    (m.exitEnclave h regs eid).1.core.enclaves eid =
      (LockedCall.exit.locked (m.core.enclaves eid)).getD (m.core.enclaves eid) := by
  rw [Monitor.core_exitEnclave]
  exact enclaves_leave h m.core _

theorem stopEnclave_locked (request : Word) :
    (m.stopEnclave h regs request eid).1.core.enclaves eid =
      (LockedCall.stop.locked (m.core.enclaves eid)).getD (m.core.enclaves eid) := by
  rw [Monitor.core_stopEnclave]
  exact enclaves_leave h m.core _

/-- The three parts of a destroy call, when no other enclave is running that an IPI would stop. -/
theorem destroyEnclave_locked (env : Env) (hno : m.core.NoneRunning) (hlt : eid < ENCL_MAX)
    {en : EnclaveCore} (hok : LockedCall.destroy.locked (m.core.enclaves eid) = some en) :
    (m.destroyEnclave h env eid).1.core.enclaves eid = en.clear.setState .invalid := by
  simp only [LockedCall.locked, Option.ite_none_right_eq_some, Option.some.injEq] at hok
  obtain ⟨hd, rfl⟩ := hok
  rw [Monitor.core_destroyEnclave]
  exact Core.enclaves_destroyCall hno hlt hd

end Monitor

namespace Session

variable {H : Type*} {s : Session H} {h : H}

/-- The invariant of the locked sections. -/
structure Inv (s : Session H) : Prop where
  /-- A running enclave has one hart inside, one that is not running has none. -/
  inside : (s.en.state = .running ∧ s.en.nThread = 1 ∧ s.inside.card = 1) ∨
    (s.en.state ≠ .running ∧ s.en.nThread = 0 ∧ s.inside = ∅)
  /-- A fresh enclave has not run. -/
  fresh : s.en.state = .fresh → .run ∉ s.history
  runs : s.history.count .run ≤ 1
  destroyed : .destroy ∈ s.history → s.en.state = .destroying ∨ s.en.state = .invalid
  /-- Only destroy calls that succeeded are in progress. -/
  phase : ∀ g, s.phase g ≠ .idle → .destroy ∈ s.history

theorem Inv.of_running (hi : Inv s) (hst : s.en.state = .running) :
    s.en.nThread = 1 ∧ s.inside.card = 1 := by
  rcases hi.inside with ⟨_, hn, hcard⟩ | ⟨hne, _⟩
  · exact ⟨hn, hcard⟩
  · exact absurd hst hne

theorem Inv.of_not_running (hi : Inv s) (hst : s.en.state ≠ .running) :
    s.en.nThread = 0 ∧ s.inside = ∅ := by
  rcases hi.inside with ⟨hrun, _⟩ | ⟨_, hn, hin⟩
  · exact absurd hrun hst
  · exact ⟨hn, hin⟩

theorem Inv.not_running_of_destroyed (hi : Inv s) (hd : .destroy ∈ s.history) :
    s.en.state ≠ .running := by
  rcases hi.destroyed hd with hst | hst <;> rw [hst] <;> decide

/-- A run or resume call that succeeds finds nobody inside and no destroy call before it. -/
theorem Inv.enterable (hi : Inv s) (hok : s.en.runable = true ∨ s.en.resumable = true) :
    s.en.state ≠ .running ∧ .destroy ∉ s.history := by
  constructor
  · intro hst
    have hn := (hi.of_running hst).1
    simp [EnclaveCore.runable, EnclaveCore.resumable, hst, hn, MAX_ENCL_THREADS] at hok
  · intro hd
    rcases hi.destroyed hd with hst | hst <;>
      simp [EnclaveCore.runable, EnclaveCore.resumable, hst] at hok

theorem Inv.exclusive (hi : Inv s) : Exclusive s := by
  rcases hi.inside with ⟨hst, hn, hcard⟩ | ⟨hst, hn, hin⟩
  · exact ⟨by rw [hn, hcard]; rfl, Or.inr hn, by simp [hst, hn], hi.runs⟩
  · exact ⟨by rw [hn, hin]; rfl, Or.inl hn, by simp [hst, hn], hi.runs⟩

/-- The rest of a destroy call: nobody is inside any more. -/
theorem Inv.next (hi : Inv s) {en : EnclaveCore} {phase : H → DestroyPhase}
    (hd : .destroy ∈ s.history) (hst : en.state = .invalid ∨ en.state = s.en.state)
    (hn : en.nThread = 0) : Inv { s with en := en, phase := phase } := by
  have hdead : en.state = .destroying ∨ en.state = .invalid := by
    rcases hst with hst | hst
    · exact Or.inr hst
    · rw [hst]
      exact hi.destroyed hd
  have hin := (hi.of_not_running (hi.not_running_of_destroyed hd)).2
  refine ⟨Or.inr ⟨?_, hn, hin⟩, fun hf => ?_, hi.runs, fun _ => hdead, fun _ _ => hd⟩
  · show en.state ≠ _
    rcases hdead with h | h <;> rw [h] <;> decide
  · have hf : en.state = .fresh := hf
    rcases hdead with h | h <;> rw [h] at hf <;> cases hf

theorem inv_created (en : EnclaveCore) (region sharedRegion : Nat) (params : RuntimeParams) :
    Inv (created en region sharedRegion params : Session H) := by
  refine ⟨Or.inr ⟨fun hst => ?_, rfl, rfl⟩, fun _ hmem => ?_, Nat.zero_le 1, fun hd => ?_,
    fun g hg => absurd rfl hg⟩
  · cases hst
  · cases hmem
  · cases hd

variable [DecidableEq H]

theorem Inv.sound (hi : Inv s) (m : Move H) : Sound s m := by
  cases m with
  | next h => trivial
  | call h c =>
    intro hok
    simp only [succeeds, Bool.and_eq_true] at hok
    obtain ⟨en, hl⟩ := Option.isSome_iff_exists.mp hok.2
    refine ⟨?_, ?_, ?_⟩
    · rintro (rfl | rfl)
      all_goals
        rcases LockedCall.locked_cases hl with ⟨⟨h, _⟩ | ⟨h, _⟩, _⟩ | ⟨_, hst, _⟩ | ⟨h, _⟩ | ⟨h, _⟩
        any_goals cases h
        rw [(hi.of_running hst).1]
        decide
    · rintro (rfl | rfl)
      all_goals
        rcases LockedCall.locked_cases hl with ⟨htest, _⟩ | ⟨h | h, _⟩ | ⟨h, _⟩ | ⟨h, _⟩
        any_goals cases h
        refine (hi.enterable ?_).2
        rcases htest with ⟨_, htest⟩ | ⟨_, htest⟩
        · exact Or.inl htest
        · exact Or.inr htest
    · rintro rfl
      rcases LockedCall.locked_cases hl with ⟨⟨h, _⟩ | ⟨h, _⟩, _⟩ | ⟨h | h, _⟩ |
        ⟨h, _⟩ | ⟨_, htest, _⟩
      any_goals cases h
      exact (hi.of_not_running (Core.not_running_of_destroyable htest)).2

/-! ## Steps -/

/-- A hart goes inside. -/
theorem Inv.enter (hi : Inv s) {c : LockedCall}
    (hc : c = .run ∧ s.en.runable = true ∨ c = .resume ∧ s.en.resumable = true) :
    Inv (s.after h c s.en.enter) := by
  have hok : s.en.runable = true ∨ s.en.resumable = true :=
    hc.imp And.right And.right
  obtain ⟨hst, hno⟩ := hi.enterable hok
  obtain ⟨hn, hin⟩ := hi.of_not_running hst
  have hne : c ≠ .destroy := by
    rcases hc with ⟨rfl, _⟩ | ⟨rfl, _⟩ <;> decide
  have hmoves : c.moves h s.inside = {h} := by
    rcases hc with ⟨rfl, _⟩ | ⟨rfl, _⟩ <;> rw [hin] <;> rfl
  refine ⟨Or.inl ⟨rfl, ?_, ?_⟩, fun hf => ?_, ?_, fun hd => ?_, fun g hg => ?_⟩
  · show s.en.nThread + 1 = 1
    rw [hn]
    rfl
  · show (c.moves h s.inside).card = 1
    rw [hmoves]
    rfl
  · cases hf
  · show (c :: s.history).count .run ≤ 1
    rcases hc with ⟨rfl, hrun⟩ | ⟨rfl, _⟩
    · have hfresh : s.en.state = .fresh := beq_iff_eq.mp (Bool.and_eq_true .. ▸ hrun).2
      rw [List.count_cons_self, List.count_eq_zero_of_not_mem (hi.fresh hfresh)]
    · rw [List.count_cons_of_ne (by decide)]
      exact hi.runs
  · rcases List.mem_cons.mp hd with heq | hmem
    · exact absurd heq.symm hne
    · exact absurd hmem hno
  · have hphase : s.phase g ≠ .idle := by
      simpa [after, hne] using hg
    exact absurd (hi.phase g hphase) hno

/-- The hart inside leaves. -/
theorem Inv.leave (hi : Inv s) {c : LockedCall} (hc : c = .stop ∨ c = .exit)
    (hst : s.en.state = .running) (hin : h ∈ s.inside) : Inv (s.after h c s.en.leave) := by
  obtain ⟨hn, hcard⟩ := hi.of_running hst
  have hleave : s.en.leave.state = .stopped ∧ s.en.leave.nThread = 0 := by
    simp [EnclaveCore.leave, hn]
  have hmoves : c.moves h s.inside = ∅ := by
    obtain ⟨g, hg⟩ := Finset.card_eq_one.mp hcard
    rw [hg, Finset.mem_singleton] at hin
    rcases hc with rfl | rfl <;> simp [LockedCall.moves, hg, hin]
  have hne : c ≠ .destroy ∧ c ≠ .run := by
    rcases hc with rfl | rfl <;> decide
  have hno : .destroy ∉ s.history := fun hd => hi.not_running_of_destroyed hd hst
  refine ⟨Or.inr ⟨?_, hleave.2, hmoves⟩, fun hf => ?_, ?_, fun hd => ?_, fun g hg => ?_⟩
  · show s.en.leave.state ≠ _
    rw [hleave.1]
    decide
  · rw [show (s.after h c s.en.leave).en.state = _ from hleave.1] at hf
    cases hf
  · show (c :: s.history).count .run ≤ 1
    rw [List.count_cons_of_ne hne.2]
    exact hi.runs
  · rcases List.mem_cons.mp hd with heq | hmem
    · exact absurd heq.symm hne.1
    · exact absurd hmem hno
  · have hphase : s.phase g ≠ .idle := by
      simpa [after, hne.1] using hg
    exact absurd (hi.phase g hphase) hno

theorem Inv.attest (hi : Inv s) : Inv (s.after h .attest s.en) := by
  refine ⟨hi.inside, fun hf hmem => ?_, ?_, fun hd => ?_, fun g hg => ?_⟩
  · rcases List.mem_cons.mp hmem with heq | hmem
    · cases heq
    · exact hi.fresh hf hmem
  · show (LockedCall.attest :: s.history).count .run ≤ 1
    rw [List.count_cons_of_ne (by decide)]
    exact hi.runs
  · rcases List.mem_cons.mp hd with heq | hmem
    · cases heq
    · exact hi.destroyed hmem
  · exact List.mem_cons_of_mem _ (hi.phase g hg)

theorem Inv.destroy (hi : Inv s) (hok : s.en.destroyable = true) :
    Inv (s.after h .destroy (s.en.setState .destroying)) := by
  obtain ⟨hn, hin⟩ := hi.of_not_running (Core.not_running_of_destroyable hok)
  refine ⟨Or.inr ⟨fun hst => ?_, hn, hin⟩, fun hf => ?_, ?_, fun _ => Or.inl rfl,
    fun _ _ => List.mem_cons_self⟩
  · cases hst
  · cases hf
  · show (LockedCall.destroy :: s.history).count .run ≤ 1
    rw [List.count_cons_of_ne (by decide)]
    exact hi.runs

theorem Inv.step (hi : Inv s) (m : Move H) : Inv (s.step m) := by
  cases m with
  | call h c =>
    simp only [Session.step]
    split
    · next hadm =>
      split
      · next en hl =>
        rcases LockedCall.locked_cases hl with ⟨hc, rfl⟩ | ⟨hc, hst, rfl⟩ | ⟨rfl, rfl⟩ |
          ⟨rfl, hok, rfl⟩
        · exact hi.enter hc
        · have hin : h ∈ s.inside := by
            rcases hc with rfl | rfl <;> simp [admits, LockedCall.fromInside] at hadm <;>
              exact hadm.2
          exact hi.leave hc hst hin
        · exact hi.attest
        · exact hi.destroy hok
      · exact hi
    · exact hi
  | next h =>
    simp only [Session.step]
    split
    · exact hi
    · next hph =>
      exact hi.next (hi.phase h (by rw [hph]; decide)) (Or.inr rfl) rfl
    · next hph =>
      have hd := hi.phase h (by rw [hph]; decide)
      exact hi.next hd (Or.inl rfl) (hi.of_not_running (hi.not_running_of_destroyed hd)).1

end Session

end Dorami.Sm
