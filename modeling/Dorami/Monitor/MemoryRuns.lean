import Dorami.Monitor.Variables

/-!
# Properties of runs with the variables in memory

The conditions on one step under which results about whole runs hold, with stores onto the variables
of the monitor among what a step can do, and the calls of the Keystone extension as such steps.
-/

namespace Dorami

open Riscv Lib

/-- A trap comes from S or U mode. -/
def MemInput.fromBelow : MemInput → Bool
  | .trap _ t _ => t.fromBelow
  | _ => true

namespace Sm

/-- A call of the Keystone extension, with the address of the array `info` should it ask for a
sealing key. -/
structure MemCall extends KeystoneCall where
  info : Word

def MemCall.input (k : MemCall) : MemInput := .trap k.hart k.trap k.info

/-- A create call asks for an EPM that one PMP entry can describe. -/
def KeystoneCall.napot (k : KeystoneCall) : Bool :=
  k.createArgs.all fun args => isNapotRange args.epmPaddr args.epmSize

namespace Monitor

variable (C : Crypto) (L : Layout) (m : Monitor)

/-- The state after a Keystone call. -/
def callStepIn (k : MemCall) : Monitor := m.stepIn C L k.input

/-- The input is a run or resume call in host context that is refused. -/
def entryRefusedIn (i : MemInput) : Bool := i.input?.any m.entryRefused

/-- The input is an attestation that is cut short. -/
def attestCutIn (i : MemInput) : Bool := i.input?.any m.attestCut

/-- No TOR region is defined, the input is neither a refused run or resume call nor an attestation
that is cut short, and it stores nothing onto the variables. -/
def Repairable (i : MemInput) : Prop :=
  m.table.hasTor = false ∧ m.entryRefusedIn i = false ∧ m.attestCutIn i = false ∧ m.KeepsOff C L i

instance repairableDecidable (i : MemInput) : Decidable (m.Repairable C L i) :=
  inferInstanceAs (Decidable (_ ∧ _ ∧ _ ∧ _))

/-- The event, with the updates it sends, leaves the other harts the memory they had, but for the
bytes that an entry for an EPM matches before or after it. A TOR region is none such. -/
def KeepsBeside (i : MemInput) : Prop :=
  (m.stepIn C L i).table.hasTor = false → ∀ g, i.hart ≠ g → (m.hart g).mode = .su → ∀ a,
    (∀ n, n = 5 ∨ n = 6 → entryMatches (m.hart g).pmp n a = false ∧
      entryMatches ((m.stepIn C L i).hart g).pmp n a = false) →
    suPerm ((m.stepIn C L i).hart g).pmp a = suPerm (m.hart g).pmp a

/-- The trap of hart `h` is handed on to OpenSBI, `js` takes place meanwhile, and OpenSBI returns
the hart to S/U mode. -/
structure RoundTrip (h : HartId) (t : Trap) (info : Word) (js : List MemInput) (regs : TrapRegs) :
    Prop where
  taken : (m.hart h).mode = .su
  forwarded : ((m.stepIn C L (.trap h t info)).hart h).mode = .osbi
  away : ∀ frame, MemInput.osbiReturn h frame ∉ js
  resumed : ((run (stepIn C L) m (.trap h t info :: (js ++ [.osbiReturn h regs]))).hart h).mode =
    .su

/-! ## While OpenSBI serves a hart -/

section Away

variable (h : HartId) (osbi : TrapRegs)

/-- OpenSBI serves hart `h` during `js`, and nothing is stored onto the variables. -/
structure Meanwhile (js : List MemInput) : Prop where
  away : ∀ frame, MemInput.osbiReturn h frame ∉ js
  keeps : StepsOk (stepIn C L) (KeepsOff C L) m js

/-- Whatever `mon_trap_return_osbi` resumes on hart `h` runs in S or U mode. -/
def ResumesBelow : Prop :=
  ∀ r, (m.returnHandlerIn L h osbi).2.resumed = some r → r.below = true

/-- When OpenSBI returns, the caller resumes with its context `regs` but for the results. -/
def ResumesAnswered (regs : TrapRegs) : Prop :=
  ∃ r, (m.returnHandlerIn L h osbi).2 = .toSu r ∧ Answered regs osbi r

end Away

end Monitor

end Sm

end Dorami
