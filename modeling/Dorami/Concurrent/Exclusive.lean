import Dorami.Lib.Run
import Dorami.Sm.State
import Mathlib.Data.Finset.Card

/-!
# Calls on one enclave by several harts

The calls of `enclave.c` on one enclave, by any number of harts, with each section under `encl_lock`
as one step. `run`, `resume`, `stop`, `exit` and `attest` make their test and their update in a
single section. `destroy` makes its test in one, then wipes the members of the enclave, and releases
the id in a second one; a hart in the middle of a destroy call makes no other call.
-/

namespace Dorami.Sm

open Lib

/-- The calls on an enclave. -/
inductive LockedCall where
  | run
  | resume
  | stop
  | exit
  | attest
  | destroy
deriving DecidableEq, Repr

namespace LockedCall

/-- The section of the call that makes the test; `none` is a refusal. -/
def locked (en : EnclaveCore) : LockedCall → Option EnclaveCore
  | .run => if en.runable then some en.enter else none
  | .resume => if en.resumable then some en.enter else none
  | .stop | .exit => if en.stoppable then some en.leave else none
  | .attest => if en.attestable then some en else none
  | .destroy => if en.destroyable then some (en.setState .destroying) else none

/-- The calls the dispatcher takes from harts inside an enclave only. -/
def fromInside : LockedCall → Bool
  | .stop | .exit | .attest => true
  | .run | .resume | .destroy => false

/-- The harts inside the enclave after a call of `h` that succeeded. -/
def moves {H : Type*} [DecidableEq H] (h : H) (inside : Finset H) : LockedCall → Finset H
  | .run | .resume => insert h inside
  | .stop | .exit => inside.erase h
  | .attest | .destroy => inside

end LockedCall

/-- How far a hart has come in a destroy call. -/
inductive DestroyPhase where
  | idle
  | wiping
  | releasing
deriving DecidableEq, Repr

/-- One enclave and the harts that make calls on it. -/
structure Session (H : Type*) where
  en : EnclaveCore
  inside : Finset H
  phase : H → DestroyPhase
  /-- The calls that have succeeded, the latest first. -/
  history : List LockedCall

/-- A step of a hart: the locked section of a call, or the next part of its destroy call. -/
inductive Move (H : Type*) where
  | call (h : H) (c : LockedCall)
  | next (h : H)

namespace Session

variable {H : Type*} [DecidableEq H]

/-- An enclave that has just been created. -/
def created (en : EnclaveCore) (region sharedRegion : Nat) (params : RuntimeParams) : Session H :=
  ⟨(en.create region sharedRegion params).setState .fresh, ∅, fun _ => .idle, []⟩

variable (s : Session H)

/-- The hart can make the call. -/
def admits (h : H) (c : LockedCall) : Bool :=
  s.phase h == .idle && (!c.fromInside || decide (h ∈ s.inside))

/-- The call is made and not refused. -/
def succeeds (h : H) (c : LockedCall) : Bool := s.admits h c && (c.locked s.en).isSome

/-- The state after a call of `h` whose locked section leaves `en`. -/
def after (h : H) (c : LockedCall) (en : EnclaveCore) : Session H :=
  { en := en
    inside := c.moves h s.inside
    phase := if c = .destroy then Function.update s.phase h .wiping else s.phase
    history := c :: s.history }

def step : Move H → Session H
  | .call h c =>
    if s.admits h c then
      match c.locked s.en with
      | some en => s.after h c en
      | none => s
    else s
  | .next h =>
    match s.phase h with
    | .idle => s
    | .wiping => { s with en := s.en.clear, phase := Function.update s.phase h .releasing }
    | .releasing =>
      { s with en := s.en.setState .invalid, phase := Function.update s.phase h .idle }

/-- What holds at every point: the counter counts the harts inside, there is at most one, the
enclave is running exactly if there is one, and no second run call has succeeded. -/
structure Exclusive (s : Session H) : Prop where
  count : s.en.nThread.toNat = s.inside.card
  one : s.en.nThread = 0 ∨ s.en.nThread = 1
  running : s.en.state = .running ↔ s.en.nThread = 1
  runs : s.history.count .run ≤ 1

/-- What holds of every call that succeeds: the counter is not decremented from 0, the enclave is
not entered once it has been destroyed, and not destroyed while a hart is inside. -/
def Sound (s : Session H) : Move H → Prop
  | .call h c => s.succeeds h c = true →
      (c = .stop ∨ c = .exit → s.en.nThread ≠ 0) ∧
      (c = .run ∨ c = .resume → .destroy ∉ s.history) ∧
      (c = .destroy → s.inside = ∅)
  | .next _ => True

end Session

end Dorami.Sm
