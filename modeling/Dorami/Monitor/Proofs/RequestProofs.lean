import Dorami.Monitor.Calls
import Dorami.Monitor.Proofs.TrapProofs

/-!
# What a Keystone call does

`sbi_ecall_keystone_enclave_handler` tests the range of the function id against the context of the
hart and then the id. `serve` is what it does for each request it can be made, and
`trapHandler_keystone` how the trap of such a call ends.
-/

namespace Dorami.Sm

open Riscv

namespace Monitor

variable (C : Crypto) (m : Monitor) (h : HartId) (t : Trap)

theorem handler_eq_serve (funcid : Word) (regs : TrapRegs) (env : Env) :
    m.sbiEcallKeystoneEnclaveHandler C h funcid regs env =
      m.serve C h regs env (request (m.hart h).isEnclave funcid) := by
  unfold sbiEcallKeystoneEnclaveHandler request
  by_cases hlow : funcid ≤ FID_RANGE_DEPRECATED
  · rw [if_pos hlow, if_pos hlow]
    rfl
  rw [if_neg hlow, if_neg hlow]
  -- an id above the bound of a range is none of the ids in it, and the other way round
  have hne_of_le : ∀ {a b : Word}, funcid ≤ a → a < b → funcid ≠ b := by
    intro a b hle hlt heq
    rw [heq, BitVec.le_def] at hle
    rw [BitVec.lt_def] at hlt
    omega
  have hne_of_lt : ∀ {a b : Word}, ¬ funcid ≤ a → b ≤ a → funcid ≠ b := by
    intro a b hnle hle heq
    exact hnle (heq ▸ hle)
  by_cases hhost : funcid ≤ FID_RANGE_HOST
  · rw [if_pos hhost, if_pos hhost]
    cases (m.hart h).isEnclave with
    | true => rfl
    | false =>
      simp only [Bool.false_eq_true, if_false, keystoneDispatch,
        if_neg (hne_of_le hhost (b := SBI_SM_RANDOM) (by decide)),
        if_neg (hne_of_le hhost (b := SBI_SM_ATTEST_ENCLAVE) (by decide)),
        if_neg (hne_of_le hhost (b := SBI_SM_GET_SEALING_KEY) (by decide)),
        if_neg (hne_of_le hhost (b := SBI_SM_STOP_ENCLAVE) (by decide)),
        if_neg (hne_of_le hhost (b := SBI_SM_EXIT_ENCLAVE) (by decide)),
        if_neg (hne_of_le hhost (b := SBI_SM_CALL_PLUGIN) (by decide))]
      split_ifs <;> rfl
  rw [if_neg hhost, if_neg hhost]
  have hcreate := hne_of_lt hhost (b := SBI_SM_CREATE_ENCLAVE) (by decide)
  have hdestroy := hne_of_lt hhost (b := SBI_SM_DESTROY_ENCLAVE) (by decide)
  have hrun := hne_of_lt hhost (b := SBI_SM_RUN_ENCLAVE) (by decide)
  have hresume := hne_of_lt hhost (b := SBI_SM_RESUME_ENCLAVE) (by decide)
  by_cases henclave : funcid ≤ FID_RANGE_ENCLAVE
  · rw [if_pos henclave, if_pos henclave]
    cases (m.hart h).isEnclave with
    | false => rfl
    | true =>
      simp only [Bool.not_true, Bool.false_eq_true, if_false, keystoneDispatch, if_neg hcreate,
        if_neg hdestroy, if_neg hrun, if_neg hresume,
        if_neg (hne_of_le henclave (b := SBI_SM_CALL_PLUGIN) (by decide))]
      split_ifs <;> rfl
  · rw [if_neg henclave, if_neg henclave]
    simp only [keystoneDispatch, if_neg hcreate, if_neg hdestroy, if_neg hrun, if_neg hresume,
      if_neg (hne_of_lt henclave (b := SBI_SM_RANDOM) (by decide)),
      if_neg (hne_of_lt henclave (b := SBI_SM_ATTEST_ENCLAVE) (by decide)),
      if_neg (hne_of_lt henclave (b := SBI_SM_GET_SEALING_KEY) (by decide)),
      if_neg (hne_of_lt henclave (b := SBI_SM_STOP_ENCLAVE) (by decide)),
      if_neg (hne_of_lt henclave (b := SBI_SM_EXIT_ENCLAVE) (by decide))]
    split_ifs <;> rfl

/-- The handler serves the request of the trap. -/
theorem handler_arrive :
    (m.arrive h t).sbiEcallKeystoneEnclaveHandler C h t.regs.a6 (frame t) t.env =
      m.served C h t := by
  have hin : ((m.arrive h t).hart h).isEnclave = (m.hart h).isEnclave :=
    congrArg HartCore.isEnclave (m.toHartCore_arrive h t)
  rw [handler_eq_serve, hin]
  rfl

theorem trapHandler_keystone (hk : t.isKeystone = true) :
    m.trapHandler C h t = m.finish h t (m.served C h t) := by
  simp only [Trap.isKeystone, Bool.and_eq_true, Bool.not_eq_true', beq_iff_eq] at hk
  obtain ⟨⟨hirq, hecall⟩, ha7⟩ := hk
  have ha7' : (frame t).a7 = SBI_EXT_EXPERIMENTAL_KEYSTONE_ENCLAVE := ha7
  have ha6 : (frame t).a6 = t.regs.a6 := rfl
  have hserve := m.handler_arrive C h t
  rw [trapHandler_eq]
  cases hflag : (m.hart h).monEnclaveExecution with
  | true =>
    simp only [if_true, sbiTrapHandlerKeystoneEnclave, hirq, hecall, ha7', ha6, Bool.false_eq_true,
      if_false, hserve]
    rcases m.served C h t with ⟨m', _ | _⟩ <;> simp [finish, returned, hflag]
  | false =>
    simp only [Bool.false_eq_true, if_false, monTrapHandlerHost, hirq, hecall, ha7', ha6, if_true,
      hserve]
    rcases m.served C h t with ⟨m', _ | _⟩ <;> simp [finish, returned, hflag]

end Monitor

end Dorami.Sm
