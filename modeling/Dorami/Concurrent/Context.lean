import Dorami.Lib.Run
import Dorami.Sm.Switch
import Mathlib.Data.Fintype.Basic

/-!
# Saved contexts under concurrency

`threads[0]` of an enclave holds the context of the enclave while it is stopped, and that of the
host while a hart runs it. The calls that enter and leave an enclave decide under `encl_lock`
whether they may, and exchange the contexts after they have released it. Here the two parts of a
call are two steps, so that calls of other harts can come in between.
-/

namespace Dorami.Sm

open Riscv Lib

/-- What the swaps exchange: the registers but for `zero`, the pc and the S-mode CSRs but for
`sedeleg` and `sideleg`. -/
structure Context where
  gpr : Fin 32 → Word
  pc : Word
  csrs : Csrs

def Context.zero : Context := ⟨fun _ => 0, 0, Csrs.zero⟩

/-- The context of a hart that has trapped with the frame `regs`. -/
def contextOf (regs : TrapRegs) (csrs : Csrs) : Context :=
  ⟨fun i => if i = 0 then 0 else regs.gpr i, regs.mepc, { csrs with sedeleg := 0, sideleg := 0 }⟩

/-- The context `threads[0]` holds. -/
def ThreadState.context (thread : ThreadState) : Context :=
  ⟨fun i => if i = 0 then 0 else thread.prevState i, thread.prevMepc,
    { thread.prevCsrs with sedeleg := 0, sideleg := 0 }⟩

/-- The test of a run (`first`) or resume call. -/
def EnclaveCore.enterable (en : EnclaveCore) (first : Bool) : Bool :=
  if first then en.runable else en.resumable

/-- How far a hart has come in its calls on the enclave. -/
inductive SwapPc where
  /-- It runs the host. -/
  | host
  /-- Its run or resume call has passed the test, and has not exchanged the contexts. -/
  | entering (first : Bool) (regs : TrapRegs) (csrs : Csrs)
  /-- It runs the enclave. -/
  | inside
  /-- Its stop or exit call has passed the test, and has not exchanged the contexts. -/
  | leaving (returnOnResume : Bool) (regs : TrapRegs) (csrs : Csrs)

def SwapPc.isEntering : SwapPc → Bool
  | .entering _ _ _ => true
  | _ => false

def SwapPc.isLeaving : SwapPc → Bool
  | .leaving _ _ _ => true
  | _ => false

/-- One enclave and the harts that enter and leave it. -/
structure SwapState (H : Type*) where
  en : EnclaveCore
  thread : ThreadState
  pc : H → SwapPc
  /-- The context of the enclave at the last stop or exit call. -/
  stopped : Context
  /-- The context of each hart when it last made a run or resume call that entered. -/
  hosts : H → Context

/-- A step of a hart. The frame and the CSRs of a call are those S/U mode left. -/
inductive SwapMove (H : Type*) where
  /-- The locked section of a run (`first`) or resume call. -/
  | enter (h : H) (first : Bool) (regs : TrapRegs) (csrs : Csrs)
  /-- The locked section of a stop or exit call. -/
  | leave (h : H) (returnOnResume : Bool) (regs : TrapRegs) (csrs : Csrs)
  /-- The swap of the call the hart is in. -/
  | swap (h : H)

namespace SwapState

variable {H : Type*} [DecidableEq H]

/-- An enclave that has just been created. -/
def created (en : EnclaveCore) (region sharedRegion : Nat) (params : RuntimeParams)
    (thread : ThreadState) : SwapState H :=
  { en := (en.create region sharedRegion params).setState .fresh
    thread := thread
    pc := fun _ => .host
    stopped := Context.zero
    hosts := fun _ => Context.zero }

variable (s : SwapState H)

def step : SwapMove H → SwapState H
  | .enter h first regs csrs =>
    match s.pc h with
    | .host =>
      if s.en.enterable first then
        { s with
          en := s.en.enter
          pc := Function.update s.pc h (.entering first regs csrs)
          hosts := Function.update s.hosts h (contextOf regs csrs) }
      else s
    | _ => s
  | .leave h returnOnResume regs csrs =>
    match s.pc h with
    | .inside =>
      if s.en.stoppable then
        { s with
          en := s.en.leave
          pc := Function.update s.pc h (.leaving returnOnResume regs csrs)
          stopped := contextOf regs csrs }
      else s
    | _ => s
  | .swap h =>
    match s.pc h with
    | .entering _ regs csrs =>
      { s with
        thread := (swapContext s.thread regs csrs true).1
        pc := Function.update s.pc h .inside }
    | .leaving returnOnResume regs csrs =>
      { s with
        thread := (swapContext s.thread regs csrs returnOnResume).1
        pc := Function.update s.pc h .host }
    | _ => s

/-- The context a swap loads into the hart. -/
def loaded (regs : TrapRegs) (csrs : Csrs) (returnOnResume : Bool) : Context :=
  let (_, regs, csrs) := swapContext s.thread regs csrs returnOnResume
  contextOf regs csrs

/-- A resume call loads what the enclave had when it was last stopped, and a stop or exit call hands
back what the hart had when it entered. -/
def Intact (s : SwapState H) : SwapMove H → Prop
  | .swap h =>
    match s.pc h with
    | .entering first regs csrs => first = false → s.loaded regs csrs true = s.stopped
    | .leaving returnOnResume regs csrs => s.loaded regs csrs returnOnResume = s.hosts h
    | _ => True
  | _ => True

/-- No run or resume call makes its swap before the swap of a stop or exit call that has passed its
test. -/
def Ordered (s : SwapState H) : SwapMove H → Prop
  | .swap h => (s.pc h).isEntering = true → ∀ g, (s.pc g).isLeaving = false
  | _ => True

instance [Fintype H] (s : SwapState H) : ∀ m, Decidable (s.Ordered m)
  | .swap h =>
    inferInstanceAs (Decidable ((s.pc h).isEntering = true → ∀ g, (s.pc g).isLeaving = false))
  | .enter .. | .leave .. => inferInstanceAs (Decidable True)

end SwapState

end Dorami.Sm
