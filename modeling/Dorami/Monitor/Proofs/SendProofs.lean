import Dorami.Monitor.Proofs.SwitchProofs

/-!
# What a call that creates or destroys an enclave changes

Such a call sends updates to all other harts, and a hart inside an enclave stops it to take the
interrupt. So it can change the entries of enclaves that are running, each by stopping it in the
context that was interrupted, and the entry of the one enclave the call is about. If another hart is
still inside an enclave afterwards, no update was sent.
-/

namespace Dorami.Sm

open Riscv

namespace Monitor

/-- The context of hart `k` is held by enclave `e`, which it has left for an interrupt. -/
structure HeldFrom (frames : HartId → Interrupted) (k : HartId) (e : Nat) (m' : Monitor) :
    Prop where
  stopped : (m'.enclaves e).state = .stopped
  thread : ∃ old : ThreadState, (m'.enclaves e).thread =
    old.hold { (frames k).regs with mepc := (frames k).regs.mepc - 4 } (frames k).csrs false
  flag : (m'.hart k).monEnclaveExecution = false
  save : (m'.hart k).sscratchDoubleSaveEnclave = (frames k).regs.sscratch

/-- What the updates of hart `g` can change, apart from the enclaves in `S`. -/
structure Delivers (frames : HartId → Interrupted) (g : HartId) (S : Set Nat) (m m' : Monitor) :
    Prop where
  saved : (m'.hart g).saves = (m.hart g).saves
  eid : ∀ k, k ≠ g → (m'.hart k).eid = (m.hart k).eid
  flag : ∀ k, k ≠ g → (m.hart k).monEnclaveExecution = false →
    (m'.hart k).monEnclaveExecution = false ∧
      (m'.hart k).sscratchDoubleSaveEnclave = (m.hart k).sscratchDoubleSaveEnclave
  still : ∀ e, e ∉ S → (m.enclaves e).state ≠ .running → m'.enclaves e = m.enclaves e
  running : ∀ e, e ∉ S → (m.enclaves e).state = .running →
    (m'.enclaves e).state = .running ∨
      ∃ k, k ≠ g ∧ (m.hart k).monEnclaveExecution = true ∧ (m.hart k).eid = e ∧
        HeldFrom frames k e m'

/-- The same, when all other harts have received them or none has. -/
structure Sends (frames : HartId → Interrupted) (g : HartId) (S : Set Nat) (m m' : Monitor) : Prop
    extends Delivers frames g S m m' where
  quiet : ∀ k, k ≠ g → (m'.hart k).monEnclaveExecution = true →
    (∃ n, m'.hart k = { m.hart k with ocallInfo := n }) ∧
      ∀ e, e ∉ S → m'.enclaves e = m.enclaves e

section

variable {frames : HartId → Interrupted} {g : HartId} {S : Set Nat} {m m₁ m₂ : Monitor}

theorem Delivers.trans (h₁ : Delivers frames g S m m₁) (h₂ : Delivers frames g S m₁ m₂) :
    Delivers frames g S m m₂ := by
  have hstill : ∀ e, e ∉ S → (m.enclaves e).state ≠ .running → m₂.enclaves e = m.enclaves e := by
    intro e he hst
    have hsame := h₁.still e he hst
    rw [h₂.still e he (by rw [hsame]; exact hst), hsame]
  refine ⟨h₂.saved.trans h₁.saved, fun k hk => (h₂.eid k hk).trans (h₁.eid k hk),
    fun k hk hflag => ?_, hstill, fun e he hrun => ?_⟩
  · obtain ⟨hf₁, hs₁⟩ := h₁.flag k hk hflag
    obtain ⟨hf₂, hs₂⟩ := h₂.flag k hk hf₁
    exact ⟨hf₂, hs₂.trans hs₁⟩
  · rcases h₁.running e he hrun with hrun₁ | ⟨k, hk, hflag, heid, hheld⟩
    · rcases h₂.running e he hrun₁ with hrun₂ | ⟨k, hk, hflag, heid, hheld⟩
      · exact .inl hrun₂
      · refine .inr ⟨k, hk, ?_, (h₁.eid k hk).symm.trans heid, hheld⟩
        by_contra hno
        rw [(h₁.flag k hk (by simpa using hno)).1] at hflag
        exact absurd hflag Bool.false_ne_true
    · -- what has been stopped stays as it is
      have hsame := h₂.still e he (by rw [hheld.stopped]; exact nofun)
      obtain ⟨hf₂, hs₂⟩ := h₂.flag k hk hheld.flag
      exact .inr ⟨k, hk, hflag, heid, by rw [hsame]; exact hheld.stopped,
        by rw [hsame]; exact hheld.thread, hf₂, hs₂.trans hheld.save⟩

theorem Sends.trans (h₁ : Sends frames g S m m₁) (h₂ : Sends frames g S m₁ m₂) :
    Sends frames g S m m₂ := by
  refine ⟨h₁.toDelivers.trans h₂.toDelivers, fun k hk hflag => ?_⟩
  obtain ⟨⟨n₂, hn₂⟩, henc₂⟩ := h₂.quiet k hk hflag
  have hflag₁ : (m₁.hart k).monEnclaveExecution = true := by
    rw [hn₂] at hflag
    exact hflag
  obtain ⟨⟨n₁, hn₁⟩, henc₁⟩ := h₁.quiet k hk hflag₁
  exact ⟨⟨n₂, by rw [hn₂, hn₁]⟩, fun e he => (henc₂ e he).trans (henc₁ e he)⟩

theorem Footprint.sends (hf : Footprint g S m m₁) : Sends frames g S m m₁ := by
  refine ⟨⟨hf.saved, fun k hk => ?_, fun k hk hflag => ?_, fun e he _ => hf.enclave e he,
    fun e he hrun => .inl (by rw [hf.enclave e he]; exact hrun)⟩,
    fun k hk _ => ⟨hf.hart k hk, hf.enclave⟩⟩
  · obtain ⟨n, hn⟩ := hf.hart k hk
    rw [hn]
  · obtain ⟨n, hn⟩ := hf.hart k hk
    rw [hn]
    exact ⟨hflag, rfl⟩

end

/-! ## One update -/

section

variable (m : Monitor) (u : IpiUpdate) {frames : HartId → Interrupted} {g k : HartId}

theorem flag_sbiSmStopEnclave (regs : TrapRegs) (request : Word) :
    ((m.sbiSmStopEnclave k regs request).1.hart k).monEnclaveExecution = false := by
  simp only [sbiSmStopEnclave, sbiTrapExit, hart_setHart_self]

theorem eid_sbiSmStopEnclave (regs : TrapRegs) (request : Word) :
    ((m.sbiSmStopEnclave k regs request).1.hart k).eid = (m.hart k).eid := by
  simp only [sbiSmStopEnclave, sbiTrapExit, hart_setHart_self]
  cases htest : (m.enclaves (m.hart k).eid).stoppable with
  | true =>
    obtain ⟨m', status, heq, -, pmp, mip, n, hhart⟩ :=
      m.stopEnclave_res k regs (m.hart k).eid request htest
    rw [heq]
    dsimp only
    rw [hhart]
    rfl
  | false => rw [stopEnclave, htest]; rfl

theorem enclaves_sbiSmStopEnclave (regs : TrapRegs) (request : Word) (e : Nat)
    (heid : (m.hart k).eid = e) (htest : (m.enclaves e).stoppable = true) :
    (m.sbiSmStopEnclave k regs request).1.enclaves e =
      leftEnclave (m.enclaves e) regs (m.hart k).csrs
        (request == STOP_EDGE_CALL_HOST || request == STOP_EDGE_CALL_HOST_ACCEPT) := by
  obtain ⟨m', status, heq, henc, -⟩ := m.stopEnclave_res k regs e request htest
  simp only [sbiSmStopEnclave, sbiTrapExit, enclaves_setHart, heid, heq, henc]
  exact enclaves_setEnclave_self ..

/-- The state of an enclave a hart has left. -/
theorem state_leave_cases (en : EnclaveCore) (hrun : en.state = .running) :
    en.leave.state = .running ∨ en.leave.state = .stopped := by
  simp only [EnclaveCore.leave]
  split
  · exact .inr rfl
  · exact .inl hrun

/-- What the interrupt of an update leaves of a hart in the host. -/
theorem hostIpi_eq (k : HartId) (sscratch : Word) : ∃ pmp, m.hostIpi k u sscratch =
    m.setHart k { m.hart k with
      temporaryInfo := ⟨CAUSE_M_SOFT, 0⟩
      sscratchDoubleSave := sscratch
      pmp := pmp } := by
  simp only [hostIpi, monIpiCheck, writePmpcfg0, setPmp, hart_setHart_self, setHart_setHart]
  exact ⟨_, rfl⟩

/-- Hart `k` outside an enclave receives an update. -/
theorem delivers_outside (hk : k ≠ g) (hflag : (m.hart k).monEnclaveExecution = false) :
    Delivers frames g ∅ m (m.deliverIpi k u (frames k)) ∧
      ((m.deliverIpi k u (frames k)).hart k).monEnclaveExecution = false := by
  have heq : ∃ pmp, m.deliverIpi k u (frames k) = m.setHart k { m.hart k with
      csrs := (frames k).csrs
      temporaryInfo := ⟨CAUSE_M_SOFT, 0⟩
      sscratchDoubleSave := (frames k).regs.sscratch
      pmp := pmp } := by
    unfold deliverIpi
    dsimp only
    rw [hart_setHart_self, if_neg (by rw [hflag]; decide)]
    obtain ⟨pmp, heq⟩ := hostIpi_eq _ u k (frames k).regs.sscratch
    exact ⟨pmp, by rw [heq, hart_setHart_self, setHart_setHart]⟩
  obtain ⟨pmp, heq⟩ := heq
  rw [heq]
  refine ⟨⟨?_, fun j hj => ?_, fun j hj hj' => ?_, fun e _ _ => rfl, fun e _ hrun => .inl hrun⟩, ?_⟩
  · rw [hart_setHart_ne m k (Ne.symm hk)]
  · by_cases hjk : j = k
    · rw [hjk, hart_setHart_self]
    · rw [hart_setHart_ne m k hjk]
  · by_cases hjk : j = k
    · rw [hjk, hart_setHart_self]
      exact ⟨hflag, rfl⟩
    · rw [hart_setHart_ne m k hjk]
      exact ⟨hj', rfl⟩
  · rw [hart_setHart_self]
    exact hflag

/-- Hart `k` begins to handle an interrupt in the context `ctx` of its enclave. -/
def interruptedIn (ctx : Interrupted) (k : HartId) : Monitor :=
  m.setHart k { m.hart k with
    csrs := ctx.csrs
    temporaryInfo := ⟨CAUSE_M_SOFT, 0⟩
    sscratchDoubleSaveEnclave := ctx.regs.sscratch }

/-- The same after the enclave has been stopped. -/
def stoppedIn (ctx : Interrupted) (k : HartId) : Monitor :=
  ((m.interruptedIn ctx k).sbiSmStopEnclave k { ctx.regs with mepc := ctx.regs.mepc - 4 }
    STOP_TIMER_INTERRUPT).1

section

variable {m : Monitor} {ctx : Interrupted}

theorem hart_interruptedIn : (m.interruptedIn ctx k).hart k = { m.hart k with
    csrs := ctx.csrs
    temporaryInfo := ⟨CAUSE_M_SOFT, 0⟩
    sscratchDoubleSaveEnclave := ctx.regs.sscratch } :=
  hart_setHart_self ..

theorem deliverIpi_eq_stoppedIn (hflag : (m.hart k).monEnclaveExecution = true) :
    ∃ sscratch pmp, m.deliverIpi k u ctx = (m.stoppedIn ctx k).setHart k
      { (m.stoppedIn ctx k).hart k with
        temporaryInfo := ⟨CAUSE_M_SOFT, 0⟩
        sscratchDoubleSave := sscratch
        pmp := pmp } := by
  unfold deliverIpi
  dsimp only
  rw [hart_setHart_self, if_pos hflag, setHart_setHart]
  obtain ⟨pmp, heq⟩ := hostIpi_eq (m.stoppedIn ctx k) u k
    ((m.interruptedIn ctx k).sbiSmStopEnclave k { ctx.regs with mepc := ctx.regs.mepc - 4 }
      STOP_TIMER_INTERRUPT).2.sscratch
  exact ⟨_, pmp, heq⟩

theorem footprint_stoppedIn :
    Footprint k {e | e = (m.hart k).eid ∧ (m.enclaves e).stoppable = true} (m.interruptedIn ctx k)
      (m.stoppedIn ctx k) := by
  refine keeps_footprint.sbiSmStopEnclave Footprint.refl _ _ fun htest => ?_
  rw [hart_interruptedIn] at htest ⊢
  exact ⟨rfl, htest⟩

theorem eid_stoppedIn : ((m.stoppedIn ctx k).hart k).eid = (m.hart k).eid := by
  refine ((m.interruptedIn ctx k).eid_sbiSmStopEnclave _ _).trans ?_
  rw [hart_interruptedIn]

theorem flag_stoppedIn : ((m.stoppedIn ctx k).hart k).monEnclaveExecution = false :=
  (m.interruptedIn ctx k).flag_sbiSmStopEnclave _ _

theorem saved_stoppedIn :
    ((m.stoppedIn ctx k).hart k).sscratchDoubleSaveEnclave = ctx.regs.sscratch := by
  have hfoot : Footprint k _ (m.interruptedIn ctx k) (m.stoppedIn ctx k) := footprint_stoppedIn
  have hsaved := congrArg (fun s => s.2.1) hfoot.saved
  rw [hart_interruptedIn] at hsaved
  exact hsaved

theorem hart_stoppedIn_ne {j : HartId} (hj : j ≠ k) :
    ∃ n, (m.stoppedIn ctx k).hart j = { m.hart j with ocallInfo := n } := by
  obtain ⟨n, hn⟩ := footprint_stoppedIn.hart j hj
  exact ⟨n, by rw [hn, interruptedIn, hart_setHart_ne m k hj]⟩

/-- A running enclave stays so, or it is the enclave of hart `k` and has been left. -/
theorem running_stoppedIn {e : Nat} (hrun : (m.enclaves e).state = .running) :
    ((m.stoppedIn ctx k).enclaves e).state = .running ∨
      (e = (m.hart k).eid ∧ ((m.stoppedIn ctx k).enclaves e).state = .stopped ∧
        (m.stoppedIn ctx k).enclaves e = leftEnclave (m.enclaves e)
          { ctx.regs with mepc := ctx.regs.mepc - 4 } ctx.csrs false) := by
  by_cases he : e = (m.hart k).eid
  · have htest : (m.enclaves e).stoppable = true := by simp [EnclaveCore.stoppable, hrun]
    have hleft := (m.interruptedIn ctx k).enclaves_sbiSmStopEnclave
      { ctx.regs with mepc := ctx.regs.mepc - 4 } STOP_TIMER_INTERRUPT e
      (by rw [hart_interruptedIn]; exact he.symm) htest
    rw [hart_interruptedIn] at hleft
    have hst : ((m.stoppedIn ctx k).enclaves e).state = (m.enclaves e).leave.state :=
      congrArg (fun en : Enclave => en.state) hleft
    rcases state_leave_cases (m.enclaves e).toEnclaveCore hrun with hl | hl
    · exact .inl (hst.trans hl)
    · exact .inr ⟨he, hst.trans hl, hleft⟩
  · refine .inl ?_
    rw [footprint_stoppedIn.enclave e fun hmem => he hmem.1]
    exact hrun

end

/-- Hart `k` leaves an enclave and receives an update. -/
theorem delivers_inside (hk : k ≠ g) (hflag : (m.hart k).monEnclaveExecution = true) :
    Delivers frames g ∅ m (m.deliverIpi k u (frames k)) ∧
      ((m.deliverIpi k u (frames k)).hart k).monEnclaveExecution = false := by
  obtain ⟨sscratch, pmp, heq⟩ := deliverIpi_eq_stoppedIn u hflag
  rw [heq]
  refine ⟨⟨?_, fun j hj => ?_, fun j hj hj' => ?_, fun e _ hst => ?_, fun e _ hrun => ?_⟩, ?_⟩
  · obtain ⟨n, hn⟩ := hart_stoppedIn_ne (Ne.symm hk)
    rw [hart_setHart_ne _ k (Ne.symm hk), hn]
    rfl
  · by_cases hjk : j = k
    · rw [hjk, hart_setHart_self]
      exact eid_stoppedIn
    · obtain ⟨n, hn⟩ := hart_stoppedIn_ne hjk
      rw [hart_setHart_ne _ k hjk, hn]
  · by_cases hjk : j = k
    · rw [hjk, hflag] at hj'
      cases hj'
    · obtain ⟨n, hn⟩ := hart_stoppedIn_ne hjk
      rw [hart_setHart_ne _ k hjk, hn]
      exact ⟨hj', rfl⟩
  · refine footprint_stoppedIn.enclave e fun hmem => hst ?_
    exact by simpa [EnclaveCore.stoppable] using hmem.2
  · rcases running_stoppedIn hrun with hst | ⟨he, hst, hleft⟩
    · exact .inl hst
    · refine .inr ⟨k, hk, hflag, he.symm, hst, ⟨_, congrArg Enclave.thread hleft⟩, ?_, ?_⟩
      · rw [hart_setHart_self]
        exact flag_stoppedIn
      · rw [hart_setHart_self]
        exact saved_stoppedIn
  · rw [hart_setHart_self]
    exact flag_stoppedIn

/-! ## Sending -/

theorem delivers_foldl : ∀ (gs : List HartId) (m : Monitor), (∀ k ∈ gs, k ≠ g) →
    Delivers frames g ∅ m (gs.foldl (fun m k => m.deliverIpi k u (frames k)) m) ∧
      ∀ k ∈ gs, ((gs.foldl (fun m k => m.deliverIpi k u (frames k)) m).hart k).monEnclaveExecution =
        false := by
  intro gs
  induction gs with
  | nil => intro m _; exact ⟨Footprint.refl.sends.toDelivers, nofun⟩
  | cons k gs ih =>
    intro m hgs
    have hk : k ≠ g := hgs k (List.mem_cons_self ..)
    have hone : Delivers frames g ∅ m (m.deliverIpi k u (frames k)) ∧
        ((m.deliverIpi k u (frames k)).hart k).monEnclaveExecution = false := by
      cases hflag : (m.hart k).monEnclaveExecution with
      | true => exact m.delivers_inside u hk hflag
      | false => exact m.delivers_outside u hk hflag
    obtain ⟨hrest, hflags⟩ := ih (m.deliverIpi k u (frames k))
      fun j hj => hgs j (List.mem_cons_of_mem _ hj)
    refine ⟨hone.1.trans hrest, fun j hj => ?_⟩
    rcases List.mem_cons.mp hj with rfl | hj
    · exact (hrest.flag j hk hone.2).1
    · exact hflags j hj

theorem sends_monSendSyncIpi : Sends frames g ∅ m (m.monSendSyncIpi g frames u) := by
  have hne : ∀ k ∈ otherHarts g, k ≠ g := by
    intro k hk
    simpa [otherHarts] using hk
  obtain ⟨hdel, hflags⟩ := @delivers_foldl u frames g (otherHarts g) m hne
  refine ⟨hdel, fun k hk hflag => ?_⟩
  have hmem : k ∈ otherHarts g := by simp [otherHarts, hk]
  rw [monSendSyncIpi, hflags k hmem] at hflag
  exact absurd hflag Bool.false_ne_true

theorem sends_pmpSetGlobal (rid : Nat) (p : Byte) :
    Sends frames g ∅ m (m.pmpSetGlobal g frames rid p).1 := by
  unfold pmpSetGlobal
  split
  · exact Footprint.refl.sends
  · exact m.sends_monSendSyncIpi _

theorem sends_pmpUnsetGlobal (rid : Nat) :
    Sends frames g ∅ m (m.pmpUnsetGlobal g frames rid).1 := by
  unfold pmpUnsetGlobal
  split
  · exact Footprint.refl.sends
  · exact m.sends_monSendSyncIpi _

end

/-! ## Creating -/

/-- A fresh enclave counts no thread and holds no value of another one. -/
def FreshOk (en : Enclave) : Prop :=
  en.state = .fresh → en.nThread = 0 ∧ ∀ i, i ≠ 0 → en.thread.prevState i = 0

section

variable {frames : HartId → Interrupted} {g : HartId} {S : Set Nat} {m m₁ : Monitor} {eid : Nat}

theorem Sends.mono (hs : Sends frames g ∅ m m₁) : Sends frames g S m m₁ :=
  ⟨⟨hs.saved, hs.eid, hs.flag, fun e _ => hs.still e (Set.notMem_empty e),
    fun e _ => hs.running e (Set.notMem_empty e)⟩,
    fun k hk hflag => ⟨(hs.quiet k hk hflag).1, fun e _ =>
      (hs.quiet k hk hflag).2 e (Set.notMem_empty e)⟩⟩

/-- The entry of an enclave that is given back is not fresh. -/
theorem freshOk_enclFreeEid (m : Monitor) : FreshOk ((m.enclFreeEid eid).enclaves eid) := by
  intro hst
  simp [enclFreeEid, setEnclaveCore, EnclaveCore.setState] at hst

theorem Sends.unwindRegions (hs : Sends frames g {eid} m m₁) (region sharedRegion : Nat) :
    Sends frames g {eid} m (m₁.unwindRegions eid region sharedRegion) := by
  have hfree : Footprint g {eid} m₁ ((m₁.regionFree sharedRegion).regionFree region) :=
    ⟨fun _ _ => ⟨_, rfl⟩, rfl, fun _ _ => rfl⟩
  exact hs.trans (hfree.setEnclave (Set.mem_singleton eid) _).sends

end

section

variable (C : Crypto) (m : Monitor) {g : HartId} (env : Env) (args : CreateArgs)
  (eid region sharedRegion : Nat)

theorem measureEnclave_res : ∃ hash, (m.measureEnclave C g eid region).2 = .success ∧
    Footprint g {eid} m (m.measureEnclave C g eid region).1 ∧
    (m.measureEnclave C g eid region).1.enclaves eid =
      { m.enclaves eid with hash := hash, state := .fresh } := by
  have hopen : Footprint g {eid} m ((((m.pmpSet g region EPMP_ALL_RW).osmPmpSet g
      (PMP_R ||| PMP_W)).pmpSet g region PMP_NO_PERM).osmPmpSet g (PMP_X ||| PMP_W ||| PMP_R)) :=
    (((Footprint.refl.pmpSet _ _).osmPmpSet _).pmpSet _ _).osmPmpSet _
  refine ⟨_, rfl, hopen.setEnclave (Set.mem_singleton eid) _, enclaves_setEnclave_self ..⟩

theorem sends_buildEnclave :
    Sends env.frames g {eid} m (m.buildEnclave C g env args eid region sharedRegion).1 ∧
      FreshOk ((m.buildEnclave C g env args eid region sharedRegion).1.enclaves eid) := by
  have hset : Sends env.frames g ∅ m (m.pmpSetGlobal g env.frames region PMP_NO_PERM).1 :=
    m.sends_pmpSetGlobal region PMP_NO_PERM
  unfold buildEnclave
  generalize m.pmpSetGlobal g env.frames region PMP_NO_PERM = p at hset
  obtain ⟨m₁, status⟩ := p
  split
  · next m₂ heq =>
    cases heq
    have hclean : Footprint g {eid} m₁ ((m₁.cleanEnclaveMemory g args.utmPaddr
        args.utmSize).initMetadata g eid region sharedRegion args) :=
      (((Footprint.refl.osmPmpSet _).mem _).osmPmpSet _).setEnclave (Set.mem_singleton eid) _
    have hinit : FreshOk { ((m₁.cleanEnclaveMemory g args.utmPaddr args.utmSize).initMetadata g eid
        region sharedRegion args).enclaves eid with state := .fresh } := by
      intro _
      simp only [initMetadata, enclaves_setEnclave_self]
      exact ⟨rfl, fun i hi => if_neg hi⟩
    dsimp only [platformCreateEnclave]
    generalize (m₁.cleanEnclaveMemory g args.utmPaddr args.utmSize).initMetadata g eid region
      sharedRegion args = m₃ at hclean hinit ⊢
    obtain ⟨hash, hstatus, hfoot, henc⟩ := measureEnclave_res C m₃ (g := g) eid region
    generalize m₃.measureEnclave C g eid region = q at hstatus hfoot henc
    obtain ⟨m₄, status⟩ := q
    cases hstatus
    refine ⟨(hset.mono.trans hclean.sends).trans hfoot.sends, ?_⟩
    dsimp only at henc ⊢
    rw [henc]
    exact hinit
  · next m₂ status heq =>
    cases heq
    exact ⟨hset.mono.unwindRegions _ _, freshOk_enclFreeEid _⟩

/-- What a create or destroy call changes: it is about the enclaves in `S`, none of which is
running. A create call finds its enclave invalid, a destroy call leaves it so. -/
structure SendRes (frames : HartId → Interrupted) (g : HartId) (S : Set Nat) (m m' : Monitor) : Prop
    extends Sends frames g S m m' where
  idle : ∀ e ∈ S, (m.enclaves e).state ≠ .running
  invalid : ∀ e ∈ S, (m.enclaves e).state = .invalid ∨ (m'.enclaves e).state = .invalid
  fresh : ∀ e ∈ S, FreshOk (m'.enclaves e)

theorem sendRes_self {frames : HartId → Interrupted} {m m' : Monitor} (hf : Footprint g ∅ m m') :
    SendRes frames g ∅ m m' := ⟨hf.sends, nofun, nofun, nofun⟩

theorem sendRes_created {frames : HartId → Interrupted} {m m' : Monitor} {eid : Nat}
    (hs : Sends frames g {eid} m m') (hinv : (m.enclaves eid).state = .invalid)
    (hfresh : FreshOk (m'.enclaves eid)) : SendRes frames g {eid} m m' := by
  refine ⟨hs, ?_, ?_, ?_⟩
  · rintro e rfl
    rw [hinv]
    exact nofun
  · rintro e rfl
    exact .inl hinv
  · rintro e rfl
    exact hfresh

theorem sendRes_createEnclave :
    ∃ S, SendRes env.frames g S m (m.createEnclave C g env args).1 := by
  unfold createEnclave
  split
  · exact ⟨∅, sendRes_self Footprint.refl⟩
  unfold enclAllocEid
  cases hfind : (List.range ENCL_MAX).find? fun eid => (m.enclaves eid).state == .invalid with
  | none => exact ⟨∅, sendRes_self Footprint.refl⟩
  | some eid =>
    have hinv : (m.enclaves eid).state = .invalid := by
      simpa using List.find?_some hfind
    refine ⟨{eid}, ?_⟩
    have halloc : Footprint g {eid} m
        (m.setEnclaveCore eid ((m.enclaves eid).setState .allocated)) :=
      Footprint.refl.setEnclave (Set.mem_singleton eid) _
    dsimp only [regionInit]
    generalize m.setEnclaveCore eid ((m.enclaves eid).setState .allocated) = m₁ at halloc
    -- the region table is not part of the footprint
    have htable : ∀ t, Footprint g {eid} m { m₁ with table := t } :=
      fun t => ⟨halloc.hart, halloc.saved, halloc.enclave⟩
    rcases m₁.table.pmpRegionInit args.epmPaddr args.epmSize .any false with ⟨t₁, err | region⟩
    · exact sendRes_created (((htable t₁).setEnclave (Set.mem_singleton eid) _).sends) hinv
        (freshOk_enclFreeEid _)
    dsimp only
    rcases t₁.pmpRegionInit args.utmPaddr args.utmSize .bottom false with ⟨t₂, err | sharedRegion⟩
    · exact sendRes_created (((htable _).setEnclave (Set.mem_singleton eid) _).sends) hinv
        (freshOk_enclFreeEid _)
    · obtain ⟨hs, hfresh⟩ := sends_buildEnclave C { m₁ with table := t₂ }
        (g := g) env args eid region sharedRegion
      exact sendRes_created ((htable t₂).sends.trans hs) hinv hfresh

/-- A call between accesses of its own hart to its own registers. -/
theorem SendRes.between {frames : HartId → Interrupted} {S : Set Nat} {m m₁ m₂ m₃ : Monitor}
    (hs : SendRes frames g S m₁ m₂) (hbefore : Footprint g ∅ m m₁) (hafter : Footprint g ∅ m₂ m₃) :
    SendRes frames g S m m₃ := by
  have h₁ : ∀ e, m₁.enclaves e = m.enclaves e := fun e => hbefore.enclave e (Set.notMem_empty e)
  have h₃ : ∀ e, m₃.enclaves e = m₂.enclaves e := fun e => hafter.enclave e (Set.notMem_empty e)
  refine ⟨(hbefore.sends.mono.trans hs.toSends).trans hafter.sends.mono, fun e he => ?_,
    fun e he => ?_, fun e he => ?_⟩
  · rw [← h₁]
    exact hs.idle e he
  · rw [← h₁, h₃]
    exact hs.invalid e he
  · rw [h₃]
    exact hs.fresh e he

theorem sendRes_create (a0 : Word) :
    ∃ S, SendRes env.frames g S m (m.sbiSmCreateEnclave C g env a0).1 := by
  have hopen : Footprint g ∅ m ((m.osmPmpSet g (PMP_R ||| PMP_W)).osmPmpSet g
      (PMP_X ||| PMP_W ||| PMP_R)) := (Footprint.refl.osmPmpSet _).osmPmpSet _
  simp only [sbiSmCreateEnclave]
  split
  · exact ⟨∅, sendRes_self hopen⟩
  · next args _ =>
    obtain ⟨S, hs⟩ := sendRes_createEnclave C ((m.osmPmpSet g (PMP_R ||| PMP_W)).osmPmpSet g
      (PMP_X ||| PMP_W ||| PMP_R)) (g := g) env args
    exact ⟨S, hs.between hopen (Footprint.refl.osmPmpSet _)⟩

/-! ## Destroying -/

theorem sends_destroyRegion (i : Nat) : Sends env.frames g ∅ m (m.destroyRegion g env eid i) := by
  unfold destroyRegion
  dsimp only
  split
  · exact Footprint.refl.sends
  · generalize ((m.enclaves eid).regions i).pmpRid = rid
    have hclear : Footprint g ∅ m (((m.pmpSet g rid EPMP_ALL_RW).memZero
        (m.table.pmpRegionGetAddr rid) (m.table.pmpRegionGetSize rid)).pmpSet g rid PMP_NO_PERM) :=
      ((Footprint.refl.pmpSet _ _).mem _).pmpSet _ _
    generalize ((m.pmpSet g rid EPMP_ALL_RW).memZero _ _).pmpSet g rid PMP_NO_PERM = m₁ at hclear
    have hfree : ∀ m₂ : Monitor, Footprint g ∅ m₂ (m₂.regionFree rid) :=
      fun m₂ => ⟨fun _ _ => ⟨_, rfl⟩, rfl, fun _ _ => rfl⟩
    exact (hclear.sends.trans (sends_pmpUnsetGlobal m₁ rid)).trans (hfree _).sends

theorem sends_destroyRegions : Sends env.frames g ∅ m (m.destroyRegions g env eid) := by
  have hfold : ∀ (is : List Nat) (m : Monitor),
      Sends env.frames g ∅ m (is.foldl (fun m i => m.destroyRegion g env eid i) m) := by
    intro is
    induction is with
    | nil => intro m; exact Footprint.refl.sends
    | cons i is ih => intro m; exact (sends_destroyRegion m env eid i).trans (ih _)
  exact hfold _ m

theorem sendRes_destroyEnclave :
    ∃ S, SendRes env.frames g S m (m.destroyEnclave g env eid).1 := by
  unfold destroyEnclave
  split
  · next htest =>
    rw [Bool.and_eq_true] at htest
    have hidle : (m.enclaves eid).state ≠ .running := by
      intro hrun
      simp [EnclaveCore.destroyable, hrun, EnclaveState.rank] at htest
    have hstart : Footprint g {eid} m
        (m.setEnclaveCore eid ((m.enclaves eid).setState .destroying)) :=
      Footprint.refl.setEnclave (Set.mem_singleton eid) _
    dsimp only
    generalize m.setEnclaveCore eid ((m.enclaves eid).setState .destroying) = m₁ at hstart
    have hregions := hstart.sends.trans (sends_destroyRegions m₁ env eid (g := g)).mono
    generalize m₁.destroyRegions g env eid = m₂ at hregions
    have hshared : Footprint g {eid} m₂ (m₂.destroyShared eid) := by
      unfold destroyShared
      split
      · exact ⟨fun _ _ => ⟨_, rfl⟩, rfl, fun _ _ => rfl⟩
      · exact Footprint.refl
    generalize m₂.destroyShared eid = m₃ at hshared
    have hclear : Footprint g {eid} m₂ (((m₃.clearMetadata eid).enclFreeEid eid).osmPmpSet g
        EPMP_SU_RWX) :=
      ((hshared.setEnclave (Set.mem_singleton eid) _).setEnclave
        (Set.mem_singleton eid) _).osmPmpSet _
    have hinvalid : ((((m₃.clearMetadata eid).enclFreeEid eid).osmPmpSet g EPMP_SU_RWX).enclaves
        eid).state = .invalid := by
      change (((m₃.clearMetadata eid).enclFreeEid eid).enclaves eid).state = .invalid
      simp [enclFreeEid, setEnclaveCore, EnclaveCore.setState]
    refine ⟨{eid}, hregions.trans hclear.sends, ?_, ?_, ?_⟩
    · rintro e rfl
      exact hidle
    · rintro e rfl
      exact .inr hinvalid
    · rintro e rfl hst
      rw [hinvalid] at hst
      cases hst
  · exact ⟨∅, sendRes_self Footprint.refl⟩

end

/-! ## The whole call -/

/-- Inside an enclave the call is refused. -/
theorem footprint_refused (C : Crypto) (m : Monitor) (g : HartId) (t : Trap)
    (hsends : t.sendsIpis = true) (hin : (m.hart g).isEnclave = true) :
    Footprint g ∅ (m.arrive g t) (m.trapStep C g t) := by
  simp only [Trap.sendsIpis, Bool.and_eq_true, Bool.or_eq_true, beq_iff_eq] at hsends
  obtain ⟨hk, hcall⟩ := hsends
  have hin' : ((m.arrive g t).hart g).isEnclave = true :=
    (congrArg HartCore.isEnclave (m.toHartCore_arrive g t)).trans hin
  have hrefused : ((m.arrive g t).sbiEcallKeystoneEnclaveHandler C g t.regs.a6 (frame t)
      t.env).1 = m.arrive g t := by
    rcases hcall with hcall | hcall <;>
      rw [hcall, sbiEcallKeystoneEnclaveHandler, if_neg (by decide), if_pos (by decide), hin'] <;>
      rfl
  rw [m.trapStep_keystone C g t hk, hrefused]
  exact Footprint.refl.setHart (by rfl)

/-- A create or destroy call, from the arrival of the trap on. -/
theorem sendRes_trapStep (C : Crypto) (m : Monitor) (g : HartId) (t : Trap)
    (hsends : t.sendsIpis = true) :
    ∃ S, SendRes t.env.frames g S (m.arrive g t) (m.trapStep C g t) := by
  cases hin : (m.hart g).isEnclave with
  | true => exact ⟨∅, sendRes_self (m.footprint_refused C g t hsends hin)⟩
  | false =>
    simp only [Trap.sendsIpis, Bool.and_eq_true, Bool.or_eq_true, beq_iff_eq] at hsends
    obtain ⟨hk, hcall⟩ := hsends
    have hmode : ∀ m' : Monitor, Footprint g ∅ m' (m'.setMode g .su) :=
      fun m' => Footprint.refl.setHart (by rfl)
    rw [m.trapStep_keystone C g t hk]
    have hlow : ¬ t.regs.a6 ≤ FID_RANGE_DEPRECATED := by
      rcases hcall with hcall | hcall <;> rw [hcall] <;> decide
    have hhost : t.regs.a6 ≤ FID_RANGE_HOST := by
      rcases hcall with hcall | hcall <;> rw [hcall] <;> decide
    rw [m.handler_from_host g C t hlow hhost hin]
    rcases hcall with hcall | hcall
    · rw [hcall, keystoneDispatch, if_pos rfl]
      obtain ⟨S, hs⟩ := sendRes_create C (m.arrive g t) (g := g) t.env (frame t).a0
      refine ⟨S, ?_⟩
      split
      · next heq => exact (congrArg Prod.fst heq ▸ hs).between Footprint.refl (hmode _)
      · next heq => exact (congrArg Prod.fst heq ▸ hs).between Footprint.refl (hmode _)
    · rw [hcall, keystoneDispatch, if_neg (by decide), if_pos rfl]
      obtain ⟨S, hs⟩ := sendRes_destroyEnclave (m.arrive g t) (g := g) t.env
        ((frame t).a0.setWidth 32).toNat
      exact ⟨S, hs.between Footprint.refl (hmode _)⟩

end Monitor

end Dorami.Sm
