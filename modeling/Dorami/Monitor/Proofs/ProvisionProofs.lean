import Dorami.Monitor.Proofs.UpdateProofs

/-!
# Keys and hashes along a run

No function of the monitor writes the keys, and the hash of an enclave is written by its measurement
alone. So the keys are those of the boot, and every hash has the length of a digest.
-/

namespace Dorami.Sm

open Riscv Lib

namespace Monitor

/-- The keys are `keys`, and the hash of each enclave meets `P`. -/
structure Records (keys : Keys) (P : Nat → List Byte → Prop) (m : Monitor) : Prop where
  keys : m.keys = keys
  hash : ∀ e, P e (m.enclaves e).hash

variable {keys : Keys} {P : Nat → List Byte → Prop} {m : Monitor}

theorem Records.setEnclave (hp : m.Records keys P) (eid : Nat) {en : Enclave}
    (hen : P eid en.hash) : (m.setEnclave eid en).Records keys P := by
  refine ⟨hp.keys, fun e => ?_⟩
  dsimp only [Monitor.setEnclave]
  split
  · next he => exact he ▸ hen
  · exact hp.hash e

/-- Nothing but a measurement touches the records. -/
theorem Records.keeps (k : HartId) : KeepsTraps k (Records keys P) where
  enclave _ hhash hp := hp.setEnclave _ (hhash ▸ hp.hash _)
  mem _ hp := ⟨hp.keys, hp.hash⟩
  table _ hp := ⟨hp.keys, hp.hash⟩
  random _ hp := ⟨hp.keys, hp.hash⟩
  ocalls hp := ⟨hp.keys, hp.hash⟩
  hart _ hp := ⟨hp.keys, hp.hash⟩

variable (hp : m.Records keys P)

include hp

theorem Records.setHart (h : HartId) (hs : HartState) : (m.setHart h hs).Records keys P :=
  ⟨hp.keys, hp.hash⟩

/-- A measurement leaves a digest. -/
theorem Records.measured {C : Crypto} (hC : ∀ e text, P e (C.sha3 text)) (eid : Nat)
    (text : List Byte) :
    (m.setEnclave eid { m.enclaves eid with hash := C.sha3 text, state := .fresh }).Records
      keys P := hp.setEnclave eid (hC eid text)

theorem Records.serve {C : Crypto} (h : HartId) (regs : TrapRegs) (env : Env) {req : Request}
    (hC : req = .create → ∀ e text, P e (C.sha3 text)) :
    (m.serve C h regs env req).1.Records keys P :=
  KeepsTraps.serve Records.keeps hp h (fun hreq _ eid text hm => hm.measured (hC hreq) eid text)
    regs env

theorem Records.trapStep {C : Crypto} (hC : ∀ e text, P e (C.sha3 text)) (h : HartId) (t : Trap) :
    (m.trapStep C h t).Records keys P := by
  refine KeepsTraps.leave Records.keeps ?_ h _
  exact KeepsTraps.trapHandler Records.keeps hp h (fun eid text hm => hm.measured hC eid text) t

theorem Records.step {C : Crypto} (hC : ∀ e text, P e (C.sha3 text)) (i : Input) :
    (m.step C i).Records keys P := by
  cases i with
  | trap h t =>
    dsimp only [Monitor.step]
    split
    · exact hp.trapStep hC h t
    · exact hp
  | osbiReturn h regs =>
    dsimp only [Monitor.step]
    split
    · exact KeepsTraps.osbiReturnStep Records.keeps hp h (fun _ hs => (hp.setHart h _).setHart h hs)
        regs
    · exact hp

end Monitor

end Dorami.Sm
