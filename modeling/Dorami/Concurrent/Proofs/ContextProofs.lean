import Dorami.Concurrent.Context

/-!
# Saved contexts

A swap exchanges the context of the hart with the one in `threads[0]`. As long as the swaps of two
calls do not overtake each other, `threads[0]` holds the context of the enclave exactly while nobody
is inside, and a hart that leaves finds there what it had when it entered. A resume call that makes
its swap between the test and the swap of a stop call takes the host's context for the enclave's.
-/

namespace Dorami.Sm

open Riscv Lib

/-! ## One swap -/

section Swap

variable (thread : ThreadState) (regs : TrapRegs) (csrs : Csrs) (returnOnResume : Bool)

theorem context_swapContext :
    (swapContext thread regs csrs returnOnResume).1.context = contextOf regs csrs := by
  simp only [swapContext, swapPrevState, swapPrevSmodeCsrs, swapPrevMepc, swapPrevMstatus,
    ThreadState.context, contextOf, Context.mk.injEq, and_true]
  funext i
  split <;> rfl

theorem contextOf_swapContext :
    contextOf (swapContext thread regs csrs returnOnResume).2.1
      (swapContext thread regs csrs returnOnResume).2.2 = thread.context := rfl

end Swap

/-! ## The switches of the monitor

They exchange the contexts by one such swap, so that a call of the monitor without interruption is
the two steps one after the other. -/

section Monitor

variable (m : Monitor) (h : HartId) (regs : TrapRegs) (eid : Nat)

theorem contextSwitchToEnclave_thread (loadParams : Bool) :
    ((m.contextSwitchToEnclave h regs eid loadParams).1.enclaves eid).thread =
      (swapContext (m.enclaves eid).thread regs (m.hart h).csrs true).1 := by
  cases loadParams <;>
    simp [Monitor.contextSwitchToEnclave, Monitor.swapThread, Monitor.osmPmpSet, Monitor.pmpSet,
      Monitor.pmpSetRegions, Monitor.setPmp, Monitor.cpuEnterEnclaveContext, Monitor.setHart,
      Monitor.setEnclave]

/-- A resume call loads the context the swap finds. -/
theorem contextSwitchToEnclave_loads :
    let r := m.contextSwitchToEnclave h regs eid false
    contextOf r.2 (r.1.hart h).csrs = (m.enclaves eid).thread.context := by
  refine Eq.trans ?_ (contextOf_swapContext (m.enclaves eid).thread regs (m.hart h).csrs true)
  simp [Monitor.contextSwitchToEnclave, Monitor.swapThread, Monitor.osmPmpSet, Monitor.pmpSet,
    Monitor.pmpSetRegions, Monitor.setPmp, Monitor.cpuEnterEnclaveContext, Monitor.setHart,
    Monitor.setEnclave]

theorem contextSwitchToHost_thread (returnOnResume : Bool) :
    ((m.contextSwitchToHost h regs eid returnOnResume).1.enclaves eid).thread =
      (swapContext (m.enclaves eid).thread regs (m.hart h).csrs returnOnResume).1 := by
  simp [Monitor.contextSwitchToHost, Monitor.swapThread, Monitor.osmPmpSet, Monitor.pmpSet,
    Monitor.pmpSetRegions, Monitor.setPmp, Monitor.cpuExitEnclaveContext, Monitor.setHart,
    Monitor.setEnclave]

theorem contextSwitchToHost_loads (returnOnResume : Bool) :
    let r := m.contextSwitchToHost h regs eid returnOnResume
    contextOf r.2 (r.1.hart h).csrs = (m.enclaves eid).thread.context := by
  refine Eq.trans ?_
    (contextOf_swapContext (m.enclaves eid).thread regs (m.hart h).csrs returnOnResume)
  simp [Monitor.contextSwitchToHost, Monitor.swapThread, Monitor.osmPmpSet, Monitor.pmpSet,
    Monitor.pmpSetRegions, Monitor.setPmp, Monitor.cpuExitEnclaveContext, Monitor.setHart,
    Monitor.setEnclave]

end Monitor

/-! ## The invariant -/

namespace SwapState

variable {H : Type*} {s : SwapState H} {k : H}

/-- Where the harts are, and what `threads[0]` holds then. -/
inductive Inv (s : SwapState H) : Prop
  /-- Nobody has been inside. -/
  | fresh (state : s.en.state = .fresh) (threads : s.en.nThread = 0) (pc : ∀ g, s.pc g = .host)
  /-- Nobody is inside. -/
  | stopped (state : s.en.state = .stopped) (threads : s.en.nThread = 0) (pc : ∀ g, s.pc g = .host)
      (saved : s.thread.context = s.stopped)
  /-- Hart `h` may enter. -/
  | entering (h : H) (first : Bool) (regs : TrapRegs) (csrs : Csrs)
      (state : s.en.state = .running) (threads : s.en.nThread = 1)
      (pc : s.pc h = .entering first regs csrs) (others : ∀ g, g ≠ h → s.pc g = .host)
      (host : s.hosts h = contextOf regs csrs)
      (saved : first = false → s.thread.context = s.stopped)
  /-- Hart `h` is inside. -/
  | inside (h : H) (state : s.en.state = .running) (threads : s.en.nThread = 1)
      (pc : s.pc h = .inside) (others : ∀ g, g ≠ h → s.pc g = .host)
      (saved : s.thread.context = s.hosts h)
  /-- Hart `g` has stopped the enclave and holds its context. -/
  | leaving (g : H) (returnOnResume : Bool) (regs : TrapRegs) (csrs : Csrs)
      (state : s.en.state = .stopped) (threads : s.en.nThread = 0)
      (pc : s.pc g = .leaving returnOnResume regs csrs) (others : ∀ k, k ≠ g → s.pc k = .host)
      (enclave : s.stopped = contextOf regs csrs) (saved : s.thread.context = s.hosts g)
  /-- Hart `g` has stopped the enclave and holds its context, and hart `h` may enter. -/
  | crossing (g h : H) (returnOnResume : Bool) (regs regs' : TrapRegs) (csrs csrs' : Csrs)
      (ne : h ≠ g) (state : s.en.state = .running) (threads : s.en.nThread = 1)
      (pc : s.pc g = .leaving returnOnResume regs csrs) (pc' : s.pc h = .entering false regs' csrs')
      (others : ∀ k, k ≠ g → k ≠ h → s.pc k = .host)
      (enclave : s.stopped = contextOf regs csrs) (host : s.hosts h = contextOf regs' csrs')
      (saved : s.thread.context = s.hosts g)

/-- The test of a run or resume call. -/
theorem enterable_cases (hi : Inv s) {first : Bool} (htest : s.en.enterable first = true) :
    (first = true ∧ s.en.state = .fresh) ∨ (first = false ∧ s.en.state = .stopped) := by
  cases first with
  | true =>
    simp only [EnclaveCore.enterable, if_true, EnclaveCore.runable, Bool.and_eq_true,
      beq_iff_eq] at htest
    exact Or.inl ⟨rfl, htest.2⟩
  | false =>
    simp only [EnclaveCore.enterable, Bool.false_eq_true, if_false, EnclaveCore.resumable,
      Bool.and_eq_true, Bool.or_eq_true, beq_iff_eq, decide_eq_true_eq] at htest
    obtain ⟨⟨_, hst⟩, hlt⟩ := htest
    refine Or.inr ⟨rfl, hst.resolve_left fun hrun => ?_⟩
    -- a running enclave has its one thread
    have hn : s.en.nThread = 1 := by
      cases hi <;> simp_all
    rw [hn] at hlt
    exact absurd hlt (by decide)

/-- The hart that is not running the host. -/
theorem eq_of_busy {h : H} (others : ∀ g, g ≠ h → s.pc g = .host) (hk : s.pc k ≠ .host) :
    k = h := by
  by_contra hne
  exact hk (others k hne)

theorem eq_or_eq_of_busy {g h : H} (others : ∀ k, k ≠ g → k ≠ h → s.pc k = .host)
    (hk : s.pc k ≠ .host) : k = g ∨ k = h := by
  by_contra hne
  rw [not_or] at hne
  exact hk (others k hne.1 hne.2)

theorem Inv.of_inside (hi : Inv s) (hk : s.pc k = .inside) :
    s.en.nThread = 1 ∧ (∀ g, g ≠ k → s.pc g = .host) ∧ s.thread.context = s.hosts k := by
  have hbusy : s.pc k ≠ .host := by
    rw [hk]
    nofun
  cases hi with
  | fresh _ _ pc => exact absurd (pc k) hbusy
  | stopped _ _ pc => exact absurd (pc k) hbusy
  | inside h _ threads pc others saved =>
    obtain rfl := eq_of_busy others hbusy
    exact ⟨threads, others, saved⟩
  | entering h _ _ _ _ _ pc others =>
    obtain rfl := eq_of_busy others hbusy
    rw [pc] at hk
    cases hk
  | leaving g _ _ _ _ _ pc others =>
    obtain rfl := eq_of_busy others hbusy
    rw [pc] at hk
    cases hk
  | crossing g h _ _ _ _ _ _ _ _ pc pc' others =>
    rcases eq_or_eq_of_busy others hbusy with rfl | rfl
    · rw [pc] at hk
      cases hk
    · rw [pc'] at hk
      cases hk

/-- A hart about to make the swap of a run or resume call is the only one that makes a call, unless
a stop or exit call has not made its swap. -/
theorem Inv.of_entering (hi : Inv s) {first : Bool} {regs : TrapRegs} {csrs : Csrs}
    (hk : s.pc k = .entering first regs csrs) (hord : ∀ g, (s.pc g).isLeaving = false) :
    s.en.state = .running ∧ s.en.nThread = 1 ∧ (∀ g, g ≠ k → s.pc g = .host) ∧
      s.hosts k = contextOf regs csrs ∧ (first = false → s.thread.context = s.stopped) := by
  have hbusy : s.pc k ≠ .host := by
    rw [hk]
    nofun
  have hno : ∀ {g r regs csrs}, s.pc g ≠ .leaving r regs csrs := by
    intro g r regs csrs hg
    have hleaving := hord g
    rw [hg] at hleaving
    cases hleaving
  cases hi with
  | fresh _ _ pc => exact absurd (pc k) hbusy
  | stopped _ _ pc => exact absurd (pc k) hbusy
  | inside h _ _ pc others =>
    obtain rfl := eq_of_busy others hbusy
    rw [pc] at hk
    cases hk
  | entering h _ _ _ state threads pc others host saved =>
    obtain rfl := eq_of_busy others hbusy
    rw [pc] at hk
    cases hk
    exact ⟨state, threads, others, host, saved⟩
  | leaving g _ _ _ _ _ pc others => exact absurd pc hno
  | crossing g h _ _ _ _ _ _ _ _ pc pc' others => exact absurd pc hno

/-- A hart about to make the swap of a stop or exit call holds the enclave's context, and its own is
in `threads[0]`. -/
theorem Inv.of_leaving (hi : Inv s) {r : Bool} {regs : TrapRegs} {csrs : Csrs}
    (hk : s.pc k = .leaving r regs csrs) :
    s.stopped = contextOf regs csrs ∧ s.thread.context = s.hosts k ∧
      ((s.en.state = .stopped ∧ s.en.nThread = 0 ∧ ∀ g, g ≠ k → s.pc g = .host) ∨
        (s.en.state = .running ∧ s.en.nThread = 1 ∧ ∃ h regs' csrs', h ≠ k ∧
          s.pc h = .entering false regs' csrs' ∧ s.hosts h = contextOf regs' csrs' ∧
          ∀ g, g ≠ k → g ≠ h → s.pc g = .host)) := by
  have hbusy : s.pc k ≠ .host := by
    rw [hk]
    nofun
  cases hi with
  | fresh _ _ pc => exact absurd (pc k) hbusy
  | stopped _ _ pc => exact absurd (pc k) hbusy
  | inside h _ _ pc others =>
    obtain rfl := eq_of_busy others hbusy
    rw [pc] at hk
    cases hk
  | entering h _ _ _ _ _ pc others =>
    obtain rfl := eq_of_busy others hbusy
    rw [pc] at hk
    cases hk
  | leaving g _ _ _ state threads pc others enclave saved =>
    obtain rfl := eq_of_busy others hbusy
    rw [pc] at hk
    cases hk
    exact ⟨enclave, saved, Or.inl ⟨state, threads, others⟩⟩
  | crossing g h _ _ regs' _ csrs' ne state threads pc pc' others enclave host saved =>
    rcases eq_or_eq_of_busy others hbusy with rfl | rfl
    · rw [pc] at hk
      cases hk
      exact ⟨enclave, saved, Or.inr ⟨state, threads, h, regs', csrs', ne, pc', host, others⟩⟩
    · rw [pc'] at hk
      cases hk

theorem inv_created (en : EnclaveCore) (region sharedRegion : Nat) (params : RuntimeParams)
    (thread : ThreadState) : Inv (created en region sharedRegion params thread : SwapState H) :=
  .fresh rfl rfl fun _ => rfl

theorem Inv.intact (hi : Inv s) {m : SwapMove H} (hord : s.Ordered m) : s.Intact m := by
  cases m with
  | enter k first regs csrs => trivial
  | leave k r regs csrs => trivial
  | swap k =>
    simp only [Intact]
    split
    · next hk =>
      obtain ⟨_, _, _, _, saved⟩ := hi.of_entering hk (hord (by rw [hk]; rfl))
      exact fun hfirst => (contextOf_swapContext ..).trans (saved hfirst)
    · next hk =>
      obtain ⟨_, saved, _⟩ := hi.of_leaving hk
      exact (contextOf_swapContext ..).trans saved
    · trivial

/-! ## Steps -/

variable [DecidableEq H]

/-- A run or resume call passes its test. -/
theorem Inv.enter (hi : Inv s) {first : Bool} (regs : TrapRegs) (csrs : Csrs)
    (hk : s.pc k = .host) (htest : s.en.enterable first = true) :
    Inv { s with
      en := s.en.enter
      pc := Function.update s.pc k (.entering first regs csrs)
      hosts := Function.update s.hosts k (contextOf regs csrs) } := by
  have hcases := enterable_cases hi htest
  have hothers : ∀ {g}, g ≠ k → Function.update s.pc k (.entering first regs csrs) g = s.pc g :=
    fun hne => Function.update_of_ne hne ..
  have hthreads : s.en.nThread = 0 → s.en.enter.nThread = 1 := by
    intro hn
    show s.en.nThread + 1 = 1
    rw [hn]
    rfl
  have hrunning : s.en.state ≠ .running := by
    rcases hcases with ⟨_, hst⟩ | ⟨_, hst⟩ <;> rw [hst] <;> nofun
  cases hi with
  | fresh state threads pc =>
    refine .entering k first regs csrs rfl (hthreads threads) (Function.update_self ..)
      (fun g hg => ?_) (Function.update_self ..) fun hfirst => ?_
    · exact (hothers hg).trans (pc g)
    · rw [hfirst, state] at hcases
      rcases hcases with ⟨h, _⟩ | ⟨_, h⟩ <;> cases h
  | stopped state threads pc saved =>
    refine .entering k first regs csrs rfl (hthreads threads) (Function.update_self ..)
      (fun g hg => ?_) (Function.update_self ..) fun _ => saved
    exact (hothers hg).trans (pc g)
  | leaving g r regs' csrs' state threads pc others enclave saved =>
    have hne : k ≠ g := by
      rintro rfl
      rw [pc] at hk
      cases hk
    have hfirst : first = false := by
      rw [state] at hcases
      rcases hcases with ⟨_, h⟩ | ⟨h, _⟩
      · cases h
      · exact h
    subst hfirst
    refine .crossing g k r regs' regs csrs' csrs hne rfl (hthreads threads)
      ((hothers hne.symm).trans pc) (Function.update_self ..) (fun g' hg' hk' => ?_) enclave
      (Function.update_self ..) ?_
    · exact (hothers hk').trans (others g' hg')
    · exact saved.trans (Function.update_of_ne hne.symm ..).symm
  | inside h state => exact absurd state hrunning
  | entering h _ _ _ state => exact absurd state hrunning
  | crossing g h _ _ _ _ _ _ state => exact absurd state hrunning

/-- A stop or exit call passes its test. -/
theorem Inv.leave (hi : Inv s) (r : Bool) (regs : TrapRegs) (csrs : Csrs)
    (hk : s.pc k = .inside) :
    Inv { s with
      en := s.en.leave
      pc := Function.update s.pc k (.leaving r regs csrs)
      stopped := contextOf regs csrs } := by
  obtain ⟨threads, others, saved⟩ := hi.of_inside hk
  refine .leaving k r regs csrs ?_ ?_ (Function.update_self ..) (fun g hg => ?_) rfl saved
  · simp [EnclaveCore.leave, threads]
  · simp [EnclaveCore.leave, threads]
  · exact (Function.update_of_ne hg ..).trans (others g hg)

/-- The swap of a run or resume call. -/
theorem Inv.swap_in (hi : Inv s) {first : Bool} {regs : TrapRegs} {csrs : Csrs}
    (hk : s.pc k = .entering first regs csrs) (hord : ∀ g, (s.pc g).isLeaving = false) :
    Inv { s with
      thread := (swapContext s.thread regs csrs true).1
      pc := Function.update s.pc k .inside } := by
  obtain ⟨state, threads, others, host, _⟩ := hi.of_entering hk hord
  refine .inside k state threads (Function.update_self ..) (fun g hg => ?_) ?_
  · exact (Function.update_of_ne hg ..).trans (others g hg)
  · exact (context_swapContext ..).trans host.symm

/-- The swap of a stop or exit call. -/
theorem Inv.swap_out (hi : Inv s) {r : Bool} {regs : TrapRegs} {csrs : Csrs}
    (hk : s.pc k = .leaving r regs csrs) :
    Inv { s with
      thread := (swapContext s.thread regs csrs r).1
      pc := Function.update s.pc k .host } := by
  obtain ⟨enclave, _, hcase⟩ := hi.of_leaving hk
  have hsaved : (swapContext s.thread regs csrs r).1.context = s.stopped :=
    (context_swapContext ..).trans enclave.symm
  rcases hcase with ⟨state, threads, others⟩ |
    ⟨state, threads, h, regs', csrs', hne, pc, host, others⟩
  · refine .stopped state threads (fun g => ?_) hsaved
    by_cases hg : g = k
    · rw [hg]
      exact Function.update_self ..
    · exact (Function.update_of_ne hg ..).trans (others g hg)
  · refine .entering h false regs' csrs' state threads ((Function.update_of_ne hne ..).trans pc)
      (fun g hg => ?_) host fun _ => hsaved
    by_cases hgk : g = k
    · rw [hgk]
      exact Function.update_self ..
    · exact (Function.update_of_ne hgk ..).trans (others g hgk hg)

theorem Inv.step (hi : Inv s) {m : SwapMove H} (hord : s.Ordered m) : Inv (s.step m) := by
  cases m with
  | enter k first regs csrs =>
    simp only [SwapState.step]
    split
    · next hk =>
      split
      · next htest => exact hi.enter regs csrs hk htest
      · exact hi
    · exact hi
  | leave k r regs csrs =>
    simp only [SwapState.step]
    split
    · next hk =>
      split
      · exact hi.leave r regs csrs hk
      · exact hi
    · exact hi
  | swap k =>
    simp only [SwapState.step]
    split
    · next hk => exact hi.swap_in hk (hord (by rw [hk]; rfl))
    · next hk => exact hi.swap_out hk
    · exact hi

/-- As long as no hart enters between the two parts of a stop or exit call, every context comes back
where it belongs. -/
theorem contexts_intact (en : EnclaveCore) (region sharedRegion : Nat) (params : RuntimeParams)
    (thread : ThreadState) (ms : List (SwapMove H))
    (hok : StepsOk step Ordered (created en region sharedRegion params thread) ms) :
    StepsOk step Intact (created en region sharedRegion params thread) ms := by
  have hstep : ∀ (s : SwapState H) m, Inv s → s.Ordered m → Inv (s.step m) :=
    fun s m hi hord => hi.step hord
  exact stepsOk_of_inv hstep (fun s m hi hord => hi.intact hord) ms
    (inv_created en region sharedRegion params thread) hok

/-! Hart 0 runs an enclave and stops it, and hart 1 resumes it. -/

/-- The frame of a trap at this pc. -/
def frameAt (pc : Word) : TrapRegs := { TrapRegs.zero with mepc := pc }

/-- A created enclave, and two harts. -/
def twoHarts : SwapState (Fin 2) :=
  created Enclave.init.toEnclaveCore 6 7 RuntimeParams.zero ThreadState.zero

/-- Hart 1 makes its swap before hart 0 does: it resumes the enclave at the pc of hart 0's host. -/
theorem resume_loads_host_context :
    ¬ Intact (run step twoHarts [.enter 0 true (frameAt 0x1000) Csrs.zero, .swap 0,
        .leave 0 false (frameAt 0x2000) Csrs.zero, .enter 1 false (frameAt 0x3000) Csrs.zero])
      (.swap 1) := by
  intro hintact
  have hpc := congrArg Context.pc (hintact rfl)
  exact absurd hpc (by decide)

/-- Hart 1 makes its swap after hart 0 has: all contexts are intact. -/
theorem contexts_intact_handover :
    StepsOk step Intact twoHarts [.enter 0 true (frameAt 0x1000) Csrs.zero, .swap 0,
      .leave 0 false (frameAt 0x2000) Csrs.zero, .enter 1 false (frameAt 0x3000) Csrs.zero,
      .swap 0, .swap 1, .leave 1 false (frameAt 0x2004) Csrs.zero, .swap 1] := by
  refine contexts_intact _ _ _ _ _ _ ?_
  decide

end SwapState

end Dorami.Sm
