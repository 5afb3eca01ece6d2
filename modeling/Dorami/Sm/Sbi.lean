import Dorami.Sm.Enclave

/-!
# The Keystone SBI extension (`sm-sbi.c`, `sm-sbi-opensbi.c`)
-/

namespace Dorami.Sm

open Riscv

/-! Function ids of `sm_call.h`. -/

def FID_RANGE_DEPRECATED : Word := 1999
def SBI_SM_CREATE_ENCLAVE : Word := 2001
def SBI_SM_DESTROY_ENCLAVE : Word := 2002
def SBI_SM_RUN_ENCLAVE : Word := 2003
def SBI_SM_RESUME_ENCLAVE : Word := 2005
def FID_RANGE_HOST : Word := 2999
def SBI_SM_RANDOM : Word := 3001
def SBI_SM_ATTEST_ENCLAVE : Word := 3002
def SBI_SM_GET_SEALING_KEY : Word := 3003
def SBI_SM_STOP_ENCLAVE : Word := 3004
def SBI_SM_EXIT_ENCLAVE : Word := 3006
def FID_RANGE_ENCLAVE : Word := 3999
def SBI_SM_CALL_PLUGIN : Word := 4000

/-- How the handler of the extension ends: it returns a value to its caller, and a second one in
`out_val`, or it resumes S/U mode itself with a frame. -/
inductive HandlerRes where
  | ret (retval outVal : Word)
  | exit (regs : TrapRegs)

namespace Monitor

variable (C : Crypto) (m : Monitor) (h : HartId)

/-- `sbi_sm_create_enclave`: the status and, if an enclave was created, its id. -/
def sbiSmCreateEnclave (env : Env) (createArgs : Word) : Monitor × Except SmStatus Nat :=
  let m := m.osmPmpSet h (PMP_R ||| PMP_W)
  let args := copyEnclaveCreateArgs env createArgs
  let m := m.osmPmpSet h (PMP_X ||| PMP_W ||| PMP_R)
  match args with
  | .error status => (m, .error status)
  | .ok args =>
    let (m, res) := m.createEnclave C h env args
    (m.osmPmpSet h (PMP_X ||| PMP_W ||| PMP_R), res)

/-- `call_plugin`: no plugin is compiled in. -/
def callPlugin : SmStatus := .notImplemented

/-- The dispatch by function id. -/
def keystoneDispatch (funcid : Word) (regs : TrapRegs) (env : Env) : Monitor × HandlerRes :=
  if funcid = SBI_SM_CREATE_ENCLAVE then
    match m.sbiSmCreateEnclave C h env regs.a0 with
    | (m, .ok eid) => (m, .ret SmStatus.success.code (BitVec.ofNat 64 eid))
    | (m, .error status) => (m, .ret status.code env.outVal)
  else if funcid = SBI_SM_DESTROY_ENCLAVE then
    let (m, status) := m.destroyEnclave h env (regs.a0.setWidth 32).toNat
    (m, .ret status.code env.outVal)
  else if funcid = SBI_SM_RUN_ENCLAVE then
    let (m, regs) := m.sbiSmRunEnclave h regs regs.a0
    (m, .exit regs)
  else if funcid = SBI_SM_RESUME_ENCLAVE then
    let (m, regs) := m.sbiSmResumeEnclave h regs regs.a0
    (m, .exit regs)
  else if funcid = SBI_SM_RANDOM then
    let (value, w) := platformRandom m.randomW env.cycles
    ({ m with randomW := w }, .ret 0 value)
  else if funcid = SBI_SM_ATTEST_ENCLAVE then
    let (m, status) := m.attestEnclave C h env regs.a0 regs.a1 regs.a2 (m.hart h).eid
    (m, .ret status.code env.outVal)
  else if funcid = SBI_SM_GET_SEALING_KEY then
    let (m, status) := m.getSealingKey C h regs.a0 regs.a1 regs.a2 (m.hart h).eid
    (m, .ret status.code env.outVal)
  else if funcid = SBI_SM_STOP_ENCLAVE then
    let (m, regs) := m.sbiSmStopEnclave h regs regs.a0
    (m, .exit regs)
  else if funcid = SBI_SM_EXIT_ENCLAVE then
    let (m, regs) := m.sbiSmExitEnclave h regs regs.a0
    (m, .exit regs)
  else if funcid = SBI_SM_CALL_PLUGIN then (m, .ret callPlugin.code env.outVal)
  else (m, .ret SmStatus.notImplemented.code env.outVal)

/-- `sbi_ecall_keystone_enclave_handler`: the ids of the host are refused inside an enclave, those
of enclaves outside of one, and the others are not restricted. -/
def sbiEcallKeystoneEnclaveHandler (funcid : Word) (regs : TrapRegs) (env : Env) :
    Monitor × HandlerRes :=
  let inEnclave := (m.hart h).isEnclave
  if funcid ≤ FID_RANGE_DEPRECATED then (m, .ret SmStatus.deprecated.code env.outVal)
  else if funcid ≤ FID_RANGE_HOST then
    if inEnclave then (m, .ret SmStatus.enclaveSbiProhibited.code env.outVal)
    else m.keystoneDispatch C h funcid regs env
  else if funcid ≤ FID_RANGE_ENCLAVE then
    if !inEnclave then (m, .ret SmStatus.enclaveSbiProhibited.code env.outVal)
    else m.keystoneDispatch C h funcid regs env
  else m.keystoneDispatch C h funcid regs env

end Monitor

end Dorami.Sm
