import Dorami.Monitor.Proofs.FootprintProofs
import Dorami.Monitor.Proofs.StackProofs
import Dorami.Monitor.Proofs.SwitchProofs

/-!
# Calls that stay in the host

A Keystone call of the host that returns comes back from `mon_trap_handler_sumode` with the caller's
frame, apart from `a0`, `a1` and the pc, but its `sscratch` is taken from the save area of enclaves.
A run or resume call that is refused comes back through `sbi_trap_exit` as if it had been accepted.
-/

namespace Dorami.Sm

open Riscv

namespace Monitor

/-! ## What a call does to the record of its own hart -/

/-- The record of hart `g` differs at most in its PMP registers and in the counter of edge calls. -/
def OwnPmp (g : HartId) (m m' : Monitor) : Prop :=
  ∃ r n, m'.hart g = { m.hart g with pmp := r, ocallInfo := n }

section Own

variable {g : HartId} {m m₁ : Monitor}

theorem OwnPmp.refl : OwnPmp g m m := ⟨_, _, rfl⟩

theorem OwnPmp.trans (ho : OwnPmp g m m₁) {m₂ : Monitor} (h₂ : OwnPmp g m₁ m₂) :
    OwnPmp g m m₂ := by
  obtain ⟨r₁, n₁, hr₁⟩ := ho
  obtain ⟨r₂, n₂, hr₂⟩ := h₂
  exact ⟨r₂, n₂, by rw [hr₂, hr₁]⟩

theorem OwnPmp.shared (S : Set Nat) : KeepsShared S (OwnPmp g m) where
  enclave _ _ ho := ho
  mem _ ho := ho
  table _ ho := ho
  random _ ho := ho
  ocalls ho := ho.trans ⟨_, 0, rfl⟩

/-- A call that creates or destroys an enclave updates the other harts. -/
theorem OwnPmp.keeps : KeepsCalls g (OwnPmp g m) where
  toKeepsShared := OwnPmp.shared _
  pmp r ho := ho.trans ⟨r, _, hart_setHart_self ..⟩
  others k hk := ⟨OwnPmp.shared _, fun _ ho => ho.trans ⟨_, _, hart_setHart_ne _ k hk.symm _⟩⟩

end Own

/-! ## The calls of the host -/

section Host

variable {C : Crypto} {m : Monitor} {h : HartId} {t : Trap}

/-- What the host can ask for. -/
theorem request_host (funcid : Word) :
    (∃ status, request false funcid = .refused status) ∨ request false funcid = .create ∨
      request false funcid = .destroy ∨
      request false funcid = .run ∧ funcid = SBI_SM_RUN_ENCLAVE ∨
      request false funcid = .resume ∧ funcid = SBI_SM_RESUME_ENCLAVE := by
  unfold request
  simp only [Bool.false_eq_true, if_false, Bool.not_false, if_true]
  split_ifs with h1 h2 h3 h4 h5 h6 h7
  · exact .inl ⟨_, rfl⟩
  · exact .inr (.inl rfl)
  · exact .inr (.inr (.inl rfl))
  · exact .inr (.inr (.inr (.inl ⟨rfl, h5⟩)))
  · exact .inr (.inr (.inr (.inr ⟨rfl, h6⟩)))
  · exact .inl ⟨_, rfl⟩
  · exact .inl ⟨_, rfl⟩
  · exact .inl ⟨_, rfl⟩

/-- A run or resume call that does not enter is one that is refused. -/
theorem callRefused_of_stays (hs : m.StaysInHost h t)
    (hf : t.regs.a6 = SBI_SM_RUN_ENCLAVE ∨ t.regs.a6 = SBI_SM_RESUME_ENCLAVE) :
    m.callRefused h t.regs = true := by
  unfold callRefused
  rw [hs.host]
  rcases hf with hf | hf
  · have hno : (decide (t.eid < ENCL_MAX) && (m.enclaves t.eid).runable) = false := by
      refine Bool.eq_false_iff.mpr fun htest => hs.stays t.eid (.inl ?_)
      obtain ⟨hlt, htest⟩ := Bool.and_eq_true .. ▸ htest
      exact ⟨hs.keystone, hs.host, hf, rfl, of_decide_eq_true hlt, htest⟩
    unfold Trap.eid at hno
    simp only [hf, hno, BEq.rfl, Bool.not_false, Bool.true_and, Bool.true_or]
  · have hno : (decide (t.eid < ENCL_MAX) && (m.enclaves t.eid).resumable) = false := by
      refine Bool.eq_false_iff.mpr fun htest => hs.stays t.eid (.inr ?_)
      obtain ⟨hlt, htest⟩ := Bool.and_eq_true .. ▸ htest
      exact ⟨hs.keystone, hs.host, hf, rfl, of_decide_eq_true hlt, htest⟩
    unfold Trap.eid at hno
    simp only [hf, hno, BEq.rfl, Bool.not_false, Bool.true_and, Bool.or_true]

/-- The other calls are not. -/
theorem callRefused_eq_false (hrun : request false t.regs.a6 ≠ .run)
    (hresume : request false t.regs.a6 ≠ .resume) : m.callRefused h t.regs = false := by
  have h1 : t.regs.a6 ≠ SBI_SM_RUN_ENCLAVE := by
    intro hf
    rw [hf] at hrun
    exact hrun rfl
  have h2 : t.regs.a6 ≠ SBI_SM_RESUME_ENCLAVE := by
    intro hf
    rw [hf] at hresume
    exact hresume rfl
  unfold callRefused
  simp [h1, h2]

/-- After `sbi_trap_exit` with the target of an enclave the next trap is one of an enclave. -/
theorem not_hostKept_of_refused (hk : t.isKeystone = true)
    (hreq : m.requestOf h t = .run ∨ m.requestOf h t = .resume) (r : TrapRegs) :
    ¬ m.HostKept C h t r := by
  intro hkept
  have hflag := hkept.flag
  rw [trapHandler_keystone C m h t hk, served] at hflag
  rcases hreq with hreq | hreq
  · rw [hreq] at hflag
    have htrue : ((m.arrive h t).sbiSmRunEnclave h (frame t) (frame t).a0).1.hart h =
        { ((m.arrive h t).runEnclave h (frame t) ((frame t).a0.setWidth 32).toNat).1.hart h with
          monEnclaveExecution := true } := hart_setHart_self ..
    simp only [serve, finish, htrue] at hflag
    cases hflag
  · rw [hreq] at hflag
    have htrue : ((m.arrive h t).sbiSmResumeEnclave h (frame t) (frame t).a0).1.hart h =
        { ((m.arrive h t).resumeEnclave h (frame t) ((frame t).a0.setWidth 32).toNat).1.hart h with
          monEnclaveExecution := true } := hart_setHart_self ..
    simp only [serve, finish, htrue] at hflag
    cases hflag

/-- What a call that returns leaves in the record of its hart. -/
theorem ownPmp_fields {m₁ : Monitor} (ho : OwnPmp h (m.arrive h t) m₁) :
    (m₁.hart h).csrs = t.csrs ∧ (m₁.hart h).mip = t.mip ∧
      (m₁.hart h).mideleg = (m.hart h).mideleg ∧
      (m₁.hart h).monEnclaveExecution = (m.hart h).monEnclaveExecution ∧
      ((m.hart h).monEnclaveExecution = false →
        (m₁.hart h).sscratchDoubleSaveEnclave = (m.hart h).sscratchDoubleSaveEnclave) := by
  obtain ⟨r, n, hr⟩ := ho
  rw [hr, hart_arrive]
  unfold arrived
  cases hflag : (m.hart h).monEnclaveExecution <;> simp [hflag]

/-- A call that returns keeps the host exactly if the hart is recorded as running the host and the
save area of enclaves happens to hold the `sscratch` of the host. -/
theorem hostKept_of_ret (hk : t.isKeystone = true) {m₁ : Monitor} {retval outVal : Word}
    (hserved : m.served C h t = (m₁, .ret retval outVal)) (ho : OwnPmp h (m.arrive h t) m₁) :
    (∃ r, m.HostKept C h t r) ↔ (m.hart h).monEnclaveExecution = false ∧
      (m.hart h).sscratchDoubleSaveEnclave = t.regs.sscratch := by
  have htrap : m.trapHandler C h t = (m₁, .toSu (m.returned h t m₁ retval outVal)) := by
    rw [trapHandler_keystone C m h t hk, hserved]
    rfl
  obtain ⟨hcsrs, hmip, hmideleg, hflag, hsave⟩ := ownPmp_fields ho
  constructor
  · rintro ⟨r, hkept⟩
    have hout : (m.hart h).monEnclaveExecution = false := by
      have := hkept.flag
      rwa [htrap, hflag] at this
    have hr : Exit.toSu (m.returned h t m₁ retval outVal) = .toSu r := by
      rw [← hkept.resumes, htrap]
    have hss := hkept.sscratch
    rw [← Exit.toSu.inj hr, returned, hout] at hss
    exact ⟨hout, (hsave hout).symm.trans hss⟩
  · rintro ⟨hout, hss⟩
    have hret : m.returned h t m₁ retval outVal =
        { (((frame t).setA1 outVal).setA0 retval).nextPc with sscratch := t.regs.sscratch } := by
      rw [returned, hout, hsave hout, hss]
      rfl
    refine ⟨m.returned h t m₁ retval outVal, by rw [htrap],
      fun i h0 h10 h11 => ?_, by rw [hret]; rfl, by rw [hret]; rfl, by rw [hret], ?_, ?_, ?_, ?_⟩
    · rw [hret]
      simp [TrapRegs.nextPc, TrapRegs.setA0, TrapRegs.setA1, TrapRegs.setGpr, frame, h0, h10, h11]
    · rw [htrap]; exact hcsrs
    · rw [htrap]; exact hmip
    · rw [htrap]; exact hmideleg
    · rw [htrap]; exact hflag.trans hout

/-- A call that stays in the host is a run or resume call that is refused, or returns. -/
theorem served_ret (C : Crypto) (hs : m.StaysInHost h t) :
    (m.requestOf h t = .run ∨ m.requestOf h t = .resume) ∧ m.callRefused h t.regs = true ∨
      m.callRefused h t.regs = false ∧ ∃ m₁ retval outVal,
        m.served C h t = (m₁, .ret retval outVal) ∧ OwnPmp h (m.arrive h t) m₁ := by
  have hreq : m.requestOf h t = request false t.regs.a6 := by rw [requestOf, hs.host]
  have hrefl : OwnPmp h (m.arrive h t) (m.arrive h t) := .refl
  have hother : ∀ {req : Request}, request false t.regs.a6 = req → req ≠ .run → req ≠ .resume →
      m.callRefused h t.regs = false := by
    intro req hr hrun hresume
    exact callRefused_eq_false (hr ▸ hrun) (hr ▸ hresume)
  rcases request_host t.regs.a6 with ⟨status, hr⟩ | hr | hr | ⟨hr, hf⟩ | ⟨hr, hf⟩
  · refine .inr ⟨hother hr (by rintro ⟨⟩) (by rintro ⟨⟩), m.arrive h t, status.code, t.env.outVal,
      ?_, hrefl⟩
    rw [served, hreq, hr]
    rfl
  · refine .inr ⟨hother hr (by rintro ⟨⟩) (by rintro ⟨⟩), ?_⟩
    have ho := OwnPmp.keeps.sbiSmCreateEnclave (C := C) hrefl (fun _ _ hm => hm) t.env (frame t).a0
    rw [served, hreq, hr, serve]
    generalize (m.arrive h t).sbiSmCreateEnclave C h t.env (frame t).a0 = res at ho
    rcases res with ⟨m₁, status | eid⟩
    · exact ⟨m₁, _, _, rfl, ho⟩
    · exact ⟨m₁, _, _, rfl, ho⟩
  · refine .inr ⟨hother hr (by rintro ⟨⟩) (by rintro ⟨⟩), ?_⟩
    have ho := OwnPmp.keeps.destroyEnclave hrefl t.env ((frame t).a0.setWidth 32).toNat
    rw [served, hreq, hr]
    exact ⟨_, _, _, rfl, ho⟩
  · exact .inl ⟨.inl (hreq.trans hr), callRefused_of_stays hs (.inl hf)⟩
  · exact .inl ⟨.inr (hreq.trans hr), callRefused_of_stays hs (.inr hf)⟩

/-- A Keystone call that stays in the host keeps its context exactly if it is not a refused run or
resume call, the hart is recorded as running the host, and the save area of enclaves holds the
`sscratch` of the host. -/
theorem host_kept_iff (C : Crypto) (m : Monitor) (h : HartId) (t : Trap) (hs : m.StaysInHost h t) :
    (∃ r, m.HostKept C h t r) ↔ m.callRefused h t.regs = false ∧
      (m.hart h).monEnclaveExecution = false ∧
      (m.hart h).sscratchDoubleSaveEnclave = t.regs.sscratch := by
  rcases served_ret C hs with ⟨hreq, hrefused⟩ | ⟨hok, m₁, retval, outVal, hserved, ho⟩
  · constructor
    · rintro ⟨r, hkept⟩
      exact absurd hkept (not_hostKept_of_refused hs.keystone hreq r)
    · rintro ⟨hno, _⟩
      rw [hrefused] at hno
      cases hno
  · rw [hostKept_of_ret hs.keystone hserved ho]
    exact ⟨fun hret => ⟨hok, hret⟩, fun hret => hret.2⟩

end Host

theorem not_enters {m : Monitor} {h : HartId} {t : Trap} (hrun : t.regs.a6 ≠ SBI_SM_RUN_ENCLAVE)
    (hresume : t.regs.a6 ≠ SBI_SM_RESUME_ENCLAVE) (e : Nat) : ¬ m.Enters h t e := by
  rintro (hr | hr)
  · exact hrun hr.call
  · exact hresume hr.call

/-- A call by a host whose `sscratch` is 0, before any enclave has run. -/
theorem deprecated_call_keeps_host :
    let m := bootMonitor (fun _ => 0) noKeys
    m.StaysInHost 0 (callTrap 0 0 faultEnv) ∧ ∃ r,
        m.HostKept noCrypto 0 (callTrap 0 0 faultEnv) r :=
  have hs : (bootMonitor (fun _ => 0) noKeys).StaysInHost 0 (callTrap 0 0 faultEnv) :=
    ⟨isKeystone_callTrap .., rfl, not_enters (by decide) (by decide)⟩
  ⟨hs, (host_kept_iff noCrypto _ 0 _ hs).mpr (by decide)⟩

/-- The same call by a host whose `sscratch` is 5: it resumes with 0. -/
theorem deprecated_call_loses_sscratch :
    let m := bootMonitor (fun _ => 0) noKeys
    let t := { callTrap 0 0 faultEnv with
      regs := { (callTrap 0 0 faultEnv).regs with sscratch := 5 } }
    m.StaysInHost 0 t ∧ (¬ ∃ r, m.HostKept noCrypto 0 t r) ∧
      (m.trapHandler noCrypto 0 t).2.resumed.map TrapRegs.sscratch = some 0 := by
  intro m t
  have hs : m.StaysInHost 0 t := ⟨isKeystone_callTrap 0 0 faultEnv, rfl,
    not_enters (by decide) (by decide)⟩
  have hzero : (m.trapHandler noCrypto 0 t).2.resumed.map TrapRegs.sscratch = some 0 := by decide
  refine ⟨hs, ?_, hzero⟩
  rintro ⟨r, hkept⟩
  have hss : r.sscratch = 5 := hkept.sscratch
  rw [hkept.resumes, Exit.resumed, Option.map_some, hss] at hzero
  exact absurd hzero (by decide)

end Monitor

end Dorami.Sm
