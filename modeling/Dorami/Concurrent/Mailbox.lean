import Dorami.Lib.Run
import Dorami.Sm.State
import Mathlib.Data.Fin.Basic
import Mathlib.Logic.Function.Basic

/-!
# The mailboxes of the PMP updates (`ipi.c`)

`mon_send_sync_ipi` on one hart and `mon_ipi_check` on the others meet in `IPI_updates[]`, without a
lock. Here each read and each write of a field of `IPI_updates[]` is one step, and the steps of
different harts come in any order. A hart in S- or U-mode can enter `mon_ipi_check` at any time, so
the writes to `msip` are left out.

Besides, the model records what each call has asked for, and what each hart has applied out of each
mailbox since the last call that used the mailbox began.
-/

namespace Dorami.Sm

open Riscv Lib

/-- `struct mon_ipi_cand`. Entry 0 of the two arrays is never used; the flags are only
ever 0 or 1. -/
structure MonIpiCand where
  dataValid : HartId → Bool
  dataReady : HartId → Bool
  regionIdx : Int
  type : Int
  perm : Byte

def MonIpiCand.zero : MonIpiCand := ⟨fun _ => false, fun _ => false, 0, 0, 0⟩

/-- A change to the PMP of the hart that makes it. -/
inductive LocalUpdate where
  | setKeystone (regionIdx : Int) (perm : Byte)
  | unset (regionIdx : Int)
deriving DecidableEq, Repr

/-- The arguments of `mon_send_sync_ipi`. -/
structure IpiRequest where
  regionIdx : Int
  type : Int
  perm : Byte
deriving DecidableEq, Repr

/-- What a receiver has to do for the request. -/
def IpiRequest.update (r : IpiRequest) : LocalUpdate :=
  if r.type = 0 then .setKeystone r.regionIdx r.perm else .unset r.regionIdx

/-- The next access of `mon_ipi_check` to the mailbox it has come to. -/
inductive RecvPc where
  | valid
  | ready
  | type
  /-- The argument of `pmp_set_keystone` (`set`) or of `pmp_unset`. -/
  | region (set : Bool)
  | perm (regionIdx : Int)
  /-- The call of `pmp_set_keystone` or `pmp_unset`. -/
  | apply (u : LocalUpdate)
  | ack
deriving DecidableEq, Repr

/-- The next access of `mon_send_sync_ipi` to the mailbox of its hart. -/
inductive SendPc where
  | perm
  | region
  | type
  /-- Round `i` of the loop that sends the IPIs. -/
  | post (i : HartId)
  /-- The test of `data_ready[i]` in the condition of the waiting loop, and in its body. -/
  | wait (i : HartId)
  | resend (i : HartId)
  | clearPerm
  | clearRegion
  | clearType
  /-- Round `i` of the loop that clears the flags. -/
  | clearValid (i : HartId)
  | clearReady (i : HartId)
  /-- The call returns. -/
  | done
deriving DecidableEq, Repr

/-- Where a hart is: in S- or U-mode, at mailbox `i` in `mon_ipi_check`, or in
`mon_send_sync_ipi`. -/
inductive IpiPc where
  | su
  | check (i : Fin 5) (p : RecvPc)
  | send (r : IpiRequest) (p : SendPc)
deriving DecidableEq, Repr

/-- Where a loop of `n` rounds goes on after round `i`. -/
def afterRound {n : Nat} {α : Type*} (i : Fin n) (next : Fin n → α) (last : α) : α :=
  if h : i.val + 1 < n then next ⟨i.val + 1, h⟩ else last

/-- The mailboxes and the harts that use them. Hart `h` sends through mailbox `h.succ`: mailbox 0
would be that of platform hart 0. -/
structure Mailboxes where
  ipiUpdates : Fin 5 → MonIpiCand
  pc : HartId → IpiPc
  /-- What the last call of each hart asked for. -/
  request : HartId → Option IpiRequest
  /-- What each hart applied out of each mailbox since the last call that used the mailbox began. -/
  applied : HartId → Fin 5 → List LocalUpdate

inductive IpiMove where
  /-- The hart takes a software interrupt. -/
  | interrupt (h : HartId)
  /-- The hart calls `mon_send_sync_ipi`. -/
  | call (h : HartId) (r : IpiRequest)
  /-- The next access of the hart. -/
  | next (h : HartId)
deriving DecidableEq, Repr

namespace Mailboxes

def boot : Mailboxes := ⟨fun _ => .zero, fun _ => .su, fun _ => none, fun _ _ => []⟩

variable (s : Mailboxes) (h : HartId)

def goto (pc : IpiPc) : Mailboxes := { s with pc := Function.update s.pc h pc }

def write (i : Fin 5) (c : MonIpiCand) : Mailboxes :=
  { s with ipiUpdates := Function.update s.ipiUpdates i c }

/-- The hart applies `u`, which it has read from mailbox `i`. -/
def log (i : Fin 5) (u : LocalUpdate) : Mailboxes :=
  let applied := Function.update (s.applied h) i (s.applied h i ++ [u])
  { s with applied := Function.update s.applied h applied }

/-- A call of hart `h` begins. -/
def begin (r : IpiRequest) : Mailboxes :=
  { s with
    request := Function.update s.request h (some r)
    applied := fun g => Function.update (s.applied g) h.succ [] }

/-- The loop of `mon_ipi_check` goes on to the next mailbox. -/
def nextSlot (i : Fin 5) : Mailboxes :=
  s.goto h (afterRound i (.check · .valid) .su)

/-- `mon_ipi_check`. -/
def monIpiCheck (i : Fin 5) : RecvPc → Mailboxes
  | .valid => if (s.ipiUpdates i).dataValid h then s.goto h (.check i .ready) else s.nextSlot h i
  | .ready => if (s.ipiUpdates i).dataReady h then s.nextSlot h i else s.goto h (.check i .type)
  | .type => s.goto h (.check i (.region (decide ((s.ipiUpdates i).type = 0))))
  | .region set =>
    s.goto h (.check i (if set then .perm (s.ipiUpdates i).regionIdx
      else .apply (.unset (s.ipiUpdates i).regionIdx)))
  | .perm regionIdx =>
    s.goto h (.check i (.apply (.setKeystone regionIdx (s.ipiUpdates i).perm)))
  | .apply u => (s.log h i u).goto h (.check i .ack)
  | .ack =>
    let c := s.ipiUpdates i
    (s.write i { c with dataReady := Function.update c.dataReady h true }).nextSlot h i

/-- `mon_send_sync_ipi`. -/
def monSendSyncIpi (r : IpiRequest) (p : SendPc) : Mailboxes :=
  let c := s.ipiUpdates h.succ
  match p with
  | .perm => (s.write h.succ { c with perm := r.perm }).goto h (.send r .region)
  | .region => (s.write h.succ { c with regionIdx := r.regionIdx }).goto h (.send r .type)
  | .type => (s.write h.succ { c with type := r.type }).goto h (.send r (.post 0))
  | .post i =>
    (s.write h.succ
      (if i = h then { c with dataReady := Function.update c.dataReady i true }
        else { c with dataValid := Function.update c.dataValid i true })).goto h
      (.send r (afterRound i .post (.wait 0)))
  | .wait i =>
    s.goto h (.send r (if c.dataReady i then afterRound i .wait .clearPerm else .resend 0))
  | .resend i => s.goto h (.send r (afterRound i .resend (.wait 0)))
  | .clearPerm => (s.write h.succ { c with perm := 0 }).goto h (.send r .clearRegion)
  | .clearRegion => (s.write h.succ { c with regionIdx := 0 }).goto h (.send r .clearType)
  | .clearType => (s.write h.succ { c with type := 0 }).goto h (.send r (.clearValid 0))
  | .clearValid i =>
    (s.write h.succ { c with dataValid := Function.update c.dataValid i false }).goto h
      (.send r (.clearReady i))
  | .clearReady i =>
    (s.write h.succ { c with dataReady := Function.update c.dataReady i false }).goto h
      (.send r (afterRound i .clearValid .done))
  | .done => s.goto h .su

/-- The next access of hart `h`. -/
def advance : Mailboxes :=
  match s.pc h with
  | .su => s
  | .check i p => s.monIpiCheck h i p
  | .send r p => s.monSendSyncIpi h r p

def step : IpiMove → Mailboxes
  | .interrupt h => if s.pc h = .su then s.goto h (.check 0 .valid) else s
  | .call h r => if s.pc h = .su then (s.begin h r).goto h (.send r .perm) else s
  | .next h => s.advance h

/-- Every update reaches every other hart once. -/
structure Delivered (s : Mailboxes) : Prop where
  /-- When a call returns, every other hart has applied just what it asked for, and the mailbox is
  empty. -/
  returned : ∀ h r, s.pc h = .send r .done →
    (∀ g, g ≠ h → s.applied g h.succ = [r.update]) ∧ s.ipiUpdates h.succ = .zero
  /-- What a hart has applied is what the sender asked for. -/
  requested : ∀ g i u, u ∈ s.applied g i → ∃ h r, i = h.succ ∧ s.request h = some r ∧ u = r.update
  /-- No hart applies an update twice. -/
  once : ∀ g i, (s.applied g i).length ≤ 1

/-- The sender takes back an acknowledgement while the receiver, having found `data_valid` set, is
about to read it. -/
def clearsUnderRead : IpiMove → Bool
  | .next h =>
    match s.pc h with
    | .send _ (.clearReady g) => decide (s.pc g = .check h.succ .ready)
    | _ => false
  | _ => false

end Mailboxes

end Dorami.Sm
