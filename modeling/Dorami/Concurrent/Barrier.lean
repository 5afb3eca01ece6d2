import Dorami.Concurrent.Context
import Dorami.Concurrent.Mailbox
import Dorami.Concurrent.Ownership

/-!
# Create and destroy calls that wait for the other harts

`Ownership` takes each barrier of IPIs as one step. Here the hart goes through `mon_send_sync_ipi`
of `Mailbox` access by access, and leaves the barrier when that call returns. A hart in one of the
calls is in M-mode with interrupts off: only a hart outside of the calls takes a software
interrupt and runs `mon_ipi_check`. The calls that enter and leave enclaves, which send no IPIs,
are single steps.
-/

namespace Dorami.Sm

open Riscv Lib

namespace Ownership

variable {H : Type*} [DecidableEq H] (s : Ownership H) (h : H)

/-- What the call of hart `h` sends when it comes to `pmp_set_global` or `pmp_unset_global`, if the
region is defined. -/
def sends : Option IpiRequest :=
  match s.pc h with
  | .setGlobal _ _ region _ =>
    if s.table.isPmpRegionValid region then some ⟨region, 0, PMP_NO_PERM⟩ else none
  | .unsetRegion _ region _ =>
    if s.table.isPmpRegionValid region then some ⟨region, 1, PMP_NO_PERM⟩ else none
  | .unsetEpm _ _ rid =>
    if s.table.isPmpRegionValid rid then some ⟨rid, 1, PMP_NO_PERM⟩ else none
  | _ => none

/-- The call goes on after `mon_send_sync_ipi`. -/
def synced : Ownership H :=
  match s.pc h with
  | .setGlobal eid args region sharedRegion => s.goto h (.metadata eid args region sharedRegion)
  | .unsetRegion eid region sharedRegion => s.goto h (.freeSharedRegion eid region sharedRegion)
  | .unsetEpm eid i rid => s.goto h (.freeEpm eid i rid)
  | _ => s

end Ownership

/-- The calls of the harts and their mailboxes. -/
structure Barrier where
  own : Ownership HartId
  mail : Mailboxes

inductive BarrierMove where
  | create (h : HartId) (args : CreateArgs)
  | destroy (h : HartId) (eid : Nat)
  /-- A run (`first`) or resume call; a stop or exit call. -/
  | enter (h : HartId) (eid : Nat) (first : Bool)
  | leave (h : HartId) (eid : Nat)
  | interrupt (h : HartId)
  /-- The next step of the call or of the interrupt the hart is in. -/
  | next (h : HartId) (ok : Bool)

namespace Barrier

def boot : Barrier := ⟨.boot, .boot⟩

variable (s : Barrier)

/-- The hart is in S- or U-mode. -/
def free (h : HartId) : Bool := (s.own.pc h).isIdle && decide (s.mail.pc h = .su)

/-- The section of a call on an enclave that tests it and updates it. -/
def locked (h : HartId) (eid : Nat) (test : EnclaveCore → Bool)
    (update : EnclaveCore → EnclaveCore) :
    Barrier :=
  if s.free h && decide (eid < ENCL_MAX) && test (s.own.enclaves eid) then
    { s with own := s.own.write eid (update (s.own.enclaves eid)) }
  else s

/-- The next step of hart `h`. -/
def advance (h : HartId) (ok : Bool) : Barrier :=
  match s.mail.pc h with
  | .su =>
    match s.own.sends h with
    | some r => { s with mail := s.mail.step (.call h r) }
    | none => { s with own := s.own.step (.next h ok) }
  | .send _ .done => ⟨s.own.synced h, s.mail.step (.next h)⟩
  | _ => { s with mail := s.mail.step (.next h) }

def step : BarrierMove → Barrier
  | .create h args => if s.free h then { s with own := s.own.step (.create h args) } else s
  | .destroy h eid => if s.free h then { s with own := s.own.step (.destroy h eid) } else s
  | .enter h eid first => s.locked h eid (·.enterable first) (·.enter)
  | .leave h eid => s.locked h eid (·.stoppable) (·.leave)
  | .interrupt h => if s.free h then { s with mail := s.mail.step (.interrupt h) } else s
  | .next h ok => s.advance h ok

/-- Hart `h` is in the loop of `mon_send_sync_ipi` and has no acknowledgement of hart `k`. -/
def WaitsFor (h k : HartId) : Prop :=
  (∃ r i, s.mail.pc h = .send r (.wait i) ∨ s.mail.pc h = .send r (.resend i)) ∧
    (s.mail.ipiUpdates h.succ).dataReady k = false

/-- Two harts wait for each other. -/
def MutualWait : Prop := ∃ h k, h ≠ k ∧ s.WaitsFor h k ∧ s.WaitsFor k h

/-- A destroy call finds an enclave that another call is still making or already taking apart. -/
def meetsUnfinished : BarrierMove → Bool
  | .destroy h eid => s.free h && s.own.meetsUnfinished (.destroy h eid)
  | _ => false

end Barrier

end Dorami.Sm
