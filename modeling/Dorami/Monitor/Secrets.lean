import Dorami.Lib.TwoRuns
import Dorami.Monitor.Measurement
import Dorami.Monitor.MemoryRuns

/-!
# The secrets of enclaves

Between the calls of the Keystone extension the harts write memory: an enclave its EPM, and whatever
else the PMP entries let them. Two runs of such acts are compared in which the enclaves put
different bytes into their EPMs and registers, and all that others can see of them is the same.

`Alike` says what may differ. `Contained` says when the monitor itself carries nothing of it
outside: it must not be asked to write a sealing key that depends on the EPM to another place,
nor a report with bytes of its stack, nor to measure its own data, and it must find its
variables as it left them.
-/

namespace Dorami.Sm

open Riscv Lib

/-- What the harts do, one after the other. -/
inductive Act where
  | call (k : MemCall)
  /-- A store of S/U mode; it takes effect if the PMP entries of the hart allow it. -/
  | store (h : HartId) (a : Word) (b : Byte)
  /-- The enclave on the hart makes these stores, as far as they are to its EPM. -/
  | own (h : HartId) (ss : List (Word × Byte))

/-- The bytes of the keys have the sizes `sm.c` gives them. -/
structure Keys.Sized (keys : Keys) : Prop where
  smHash : keys.smHash.length = MDSIZE
  smPublicKey : keys.smPublicKey.length = PUBLIC_KEY_SIZE
  smSignature : keys.smSignature.length = SIGNATURE_SIZE
  devPublicKey : keys.devPublicKey.length = PUBLIC_KEY_SIZE

namespace Monitor

variable (C : Crypto) (L : Layout) (m : Monitor)

/-! ## Acts -/

/-- The address lies in the EPM of enclave `e`. -/
def inEpm (e a : Nat) : Bool :=
  (List.range ENCLAVE_REGIONS_MAX).any fun i =>
    ((m.enclaves e).regions i).type == .epm &&
      decide ((m.regionOf e i).addr.toNat ≤ a ∧
        a < (m.regionOf e i).addr.toNat + (m.regionOf e i).size.toNat)

/-- The address lies in the EPM of a live enclave. -/
def InLiveEpm (a : Nat) : Prop := ∃ e < ENCL_MAX, (m.enclaves e).Alive ∧ m.inEpm e a = true

/-- The addresses whose bytes may depend on what enclaves keep to themselves: the EPMs of live
enclaves, and the data of the monitor, where the identifiers of sealing keys pass. -/
def secret : Set Word := {a | a.toNat ∈ monitorData ∨ m.InLiveEpm a.toNat}

/-- What an enclave's stores to its EPM are. -/
def ownStores (h : HartId) (ss : List (Word × Byte)) : List (Word × Byte) :=
  if (m.hart h).isEnclave then ss.filter fun s => m.inEpm (m.hart h).eid s.1.toNat else []

/-- The state after an act. -/
def act : Act → Monitor
  | .call k => m.callStepIn C L k
  | .store h a b => m.stepIn C L (.store h a b)
  | .own h ss => m.write L (m.ownStores h ss)

/-- The act stores nothing onto the variables of the monitor. -/
def ActKeepsOff : Act → Prop
  | .call k => m.KeepsOff C L k.input
  | .store h a b => m.KeepsOff C L (.store h a b)
  | .own h ss => ∀ s ∈ m.ownStores h ss, s.1 ∉ L.vars

instance actKeepsOffDecidable : ∀ x, Decidable (m.ActKeepsOff C L x)
  | .call k => inferInstanceAs (Decidable (m.KeepsOff C L k.input))
  | .store h a b => inferInstanceAs (Decidable (m.KeepsOff C L (.store h a b)))
  | .own h ss => inferInstanceAs (Decidable (∀ s ∈ m.ownStores h ss, s.1 ∉ L.vars))

/-! ## What may differ -/

/-- The byte at `p` goes to the same place in both runs, or to the EPM of the enclave
on the hart. -/
def SameTarget (h : HartId) (env env' : Env) (p : Word) : Prop :=
  env'.store p = env.store p ∨
    ∃ pa pa', env.store p = some pa ∧ env'.store p = some pa' ∧
      m.inEpm (m.hart h).eid pa.toNat = true ∧ m.inEpm (m.hart h).eid pa'.toNat = true

/-- Two calls that differ in what the enclaves keep to themselves: the registers that carry no
arguments, the contexts on other harts, the translation of addresses within the EPM and the contents
of the monitor's stack. -/
structure SameCall (k k' : MemCall) : Prop where
  hart : k'.hart = k.hart
  info : k'.info = k.info
  funcid : k'.trap.regs.a6 = k.trap.regs.a6
  a0 : k'.trap.regs.a0 = k.trap.regs.a0
  a1 : k'.trap.regs.a1 = k.trap.regs.a1
  a2 : k'.trap.regs.a2 = k.trap.regs.a2
  create : k.trap.regs.a6 = SBI_SM_CREATE_ENCLAVE →
    copyToSm k'.trap.env k.trap.regs.a0 64 = copyToSm k.trap.env k.trap.regs.a0 64
  data : k.trap.regs.a6 = SBI_SM_ATTEST_ENCLAVE →
    copyToSm k'.trap.env k.trap.regs.a1 k.trap.regs.a2.toNat =
      copyToSm k.trap.env k.trap.regs.a1 k.trap.regs.a2.toNat
  report : k.trap.regs.a6 = SBI_SM_ATTEST_ENCLAVE → ∀ i < reportSize,
    m.SameTarget k.hart k.trap.env k'.trap.env (k.trap.regs.a0 + BitVec.ofNat 64 i)
  stack : k.trap.regs.a6 = SBI_SM_ATTEST_ENCLAVE →
    k.trap.env.reportData.length = ATTEST_DATA_MAXLEN.toNat ∧
      k'.trap.env.reportData.length = ATTEST_DATA_MAXLEN.toNat

/-- Two acts that differ in what the enclaves keep to themselves. -/
inductive Alike : Act → Act → Prop where
  | call {k k' : MemCall} (hk : m.SameCall k k') : Alike (.call k) (.call k')
  | store (h : HartId) (a : Word) (b : Byte) : Alike (.store h a b) (.store h a b)
  | own (h : HartId) (ss ss' : List (Word × Byte)) : Alike (.own h ss) (.own h ss')

/-! ## What the monitor may carry outside -/

/-- The report goes to the EPM of the enclave on the hart. -/
def ReportsWithin (k : MemCall) : Prop :=
  ∀ i < reportSize, ∀ pa, k.trap.env.store (k.trap.regs.a0 + BitVec.ofNat 64 i) = some pa →
    m.inEpm (m.hart k.hart).eid pa.toNat = true

/-- A create call asks for a NAPOT EPM and has nothing of the monitor's data measured. A sealing key
call has its array in the monitor's data, and writes to the caller's EPM or has an identifier that
is not secret. A report either fills the rest of its data from the same bytes of the stack in both
runs, or goes to the caller's EPM in both. -/
structure ContainedCall (k k' : MemCall) : Prop where
  napot : k.napot = true
  measured : ∀ args, k.createArgs = some args → ∀ a ∈ measuredAddrs args.params,
    a.toNat ∉ monitorData
  array : (m.hart k.hart).isEnclave = true → k.trap.regs.a6 = SBI_SM_GET_SEALING_KEY →
    ∀ i < MDSIZE + k.trap.regs.a2.toNat, (k.info + BitVec.ofNat 64 i).toNat ∈ monitorData
  sealing : (m.hart k.hart).isEnclave = true → k.trap.regs.a6 = SBI_SM_GET_SEALING_KEY →
    (∀ i < SEALING_KEY_SIZE + SIGNATURE_SIZE,
      m.inEpm (m.hart k.hart).eid (k.trap.regs.a0 + BitVec.ofNat 64 i).toNat = true) ∨
    ∀ i < k.trap.regs.a2.toNat, k.trap.regs.a1 + BitVec.ofNat 64 i ∉ m.secret
  attest : (m.hart k.hart).isEnclave = true → k.trap.regs.a6 = SBI_SM_ATTEST_ENCLAVE →
    k'.trap.env.reportData.drop k.trap.regs.a2.toNat =
        k.trap.env.reportData.drop k.trap.regs.a2.toNat ∨
      (m.ReportsWithin k ∧ m.ReportsWithin k')

/-- No act stores onto the variables in either run, and the calls among the acts are contained. -/
structure Contained (m' : Monitor) (x x' : Act) : Prop where
  keeps : m.ActKeepsOff C L x
  keeps' : m'.ActKeepsOff C L x'
  call : ∀ k k', x = .call k → x' = .call k' → m.ContainedCall k k'

/-! ## What is to be -/

/-- The two states have the same live enclaves, and the same memory outside their EPMs and the data
of the monitor. -/
structure AgreeOutside (m' : Monitor) : Prop where
  live : ∀ a, m'.InLiveEpm a ↔ m.InLiveEpm a
  mem : ∀ a : Word, a.toNat ∉ monitorData → ¬ m.InLiveEpm a.toNat → m'.mem a = m.mem a

/-- The states `destroy_enclave` passes through for entry `i` of the region list of enclave `e`,
from the update of its state to the last hart's removal of the PMP entry. -/
def destroyStages (h : HartId) (env : Env) (e i : Nat) : List Monitor :=
  let rid := ((m.enclaves e).regions i).pmpRid
  let base := m.table.pmpRegionGetAddr rid
  let size := m.table.pmpRegionGetSize rid
  let m₀ := m.setEnclaveCore e ((m.enclaves e).setState .destroying)
  let m₁ := m₀.pmpSet h rid EPMP_ALL_RW
  let m₂ := m₁.memZero base size
  let m₃ := m₂.pmpSet h rid PMP_NO_PERM
  m₀ :: m₁ :: m₂ :: (otherHarts h).scanl
    (fun m g => m.deliverIpi g ⟨rid, true, PMP_NO_PERM⟩ (env.frames g)) m₃

/-- A destroy call that succeeds finds the EPM's entry on every hart until all bytes of it are 0;
after the last of its stages the region is released. -/
def Scrubs : Act → Prop
  | .call k => ∀ e, m.Destroys k.hart k.trap e →
    ∀ i < ENCLAVE_REGIONS_MAX, ((m.enclaves e).regions i).type = .epm →
      let m₁ := m.arrive k.hart k.trap
      let stages := m₁.destroyStages k.hart k.trap.env e i
      stages.getLast?.map (fun s => s.regionFree ((m.enclaves e).regions i).pmpRid) =
          some ((m₁.setEnclaveCore e ((m₁.enclaves e).setState .destroying)).destroyRegion k.hart
            k.trap.env e i) ∧
        ∀ s ∈ stages, (∀ g, ∃ p, Installed (m.regionOf e i) p (s.hart g).pmp) ∨
          ∀ a : Word, a.toNat ∈ (m.regionOf e i).bytes → s.mem a = 0
  | _ => True

end Monitor

end Dorami.Sm
