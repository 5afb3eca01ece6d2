import Dorami.Monitor.Trap

/-!
# The core of the monitor

An abstract machine that keeps only what decides which memory each hart can reach: the region table,
the members of the enclaves that tests are made on, and of each hart its PMP registers and what it
is recorded to run. Memory, saved contexts, measurements and reports are forgotten, and with them
what they come from: an event says only what is left of a trap once those are forgotten.
-/

namespace Dorami.Sm

open Riscv

/-- The state of the abstract machine. -/
structure Core where
  table : PmpTable
  enclaves : Nat → EnclaveCore
  hart : HartId → HartCore

/-- The abstract state of the monitor. -/
def Monitor.core (m : Monitor) : Core :=
  ⟨m.table, fun e => (m.enclaves e).toEnclaveCore, fun g => (m.hart g).toHartCore⟩

/-- The registers after `osm_pmp_set`. -/
def osmSet (t : PmpTable) (perm : Byte) (r : PmpRegs) : PmpRegs :=
  (pmpSetKeystone t r bootIds.os perm).1

/-- The registers of a hart after it has received an update. -/
def IpiUpdate.apply (u : IpiUpdate) (t : PmpTable) (r : PmpRegs) : PmpRegs :=
  if u.unset then (pmpUnset t r u.regionIdx).1 else (pmpSetKeystone t r u.regionIdx u.perm).1

namespace Core

variable (c : Core) (h : HartId)

def setEnclave (eid : Nat) (en : EnclaveCore) : Core :=
  { c with enclaves := fun e => if e = eid then en else c.enclaves e }

def setHart (hc : HartCore) : Core :=
  { c with hart := fun g => if g = h then hc else c.hart g }

def setTable (t : PmpTable) : Core := { c with table := t }

def setPmp (r : PmpRegs) : Core := c.setHart h { c.hart h with pmp := r }

def setFlag (flag : Bool) : Core := c.setHart h { c.hart h with monEnclaveExecution := flag }

def setMode (mode : Mode) : Core := c.setHart h { c.hart h with mode := mode }

def pmpSet (rid : Nat) (perm : Byte) : Core :=
  c.setPmp h (pmpSetKeystone c.table (c.hart h).pmp rid perm).1

def osmPmpSet (perm : Byte) : Core := c.setPmp h (osmSet c.table perm (c.hart h).pmp)

def pmpSetRegions (eid : Nat) (perm : Byte) : Core :=
  c.setPmp h (setRegions c.table (c.enclaves eid).regions perm (c.hart h).pmp)

/-! ## Entering and leaving -/

/-- The permissions of a hart inside enclave `eid`. -/
def fixPermissions (eid : Nat) : Core :=
  (c.osmPmpSet h PMP_NO_PERM).pmpSetRegions h eid (PMP_X ||| PMP_W ||| PMP_R)

def enterContext (eid : Nat) : Core :=
  c.setHart h { c.hart h with isEnclave := true, eid := eid }

def exitContext : Core := c.setHart h { c.hart h with isEnclave := false }

def enter (eid : Nat) : Core :=
  ((c.setEnclave eid (c.enclaves eid).enter).fixPermissions h eid).enterContext h eid

def leave (eid : Nat) : Core :=
  let c := c.setEnclave eid (c.enclaves eid).leave
  ((c.pmpSetRegions h eid PMP_NO_PERM).osmPmpSet h EPMP_SU_RWX).exitContext h

/-- A run or resume call, whose test is `test`. -/
def enterCall (test : EnclaveCore → Bool) (eid : Nat) : Core :=
  (if decide (eid < ENCL_MAX) && test (c.enclaves eid) then c.enter h eid else c).setFlag h true

/-- A stop or exit call. -/
def leaveCall : Core :=
  let eid := (c.hart h).eid
  (if (c.enclaves eid).stoppable then c.leave h eid else c).setFlag h false

/-! ## Updates of other harts -/

/-- The interrupt of an update: the registers come back from OpenSBI with `LOCK_OSBI`. -/
def deliverIpi (g : HartId) (u : IpiUpdate) : Core :=
  let c := if (c.hart g).monEnclaveExecution then c.leaveCall g else c
  c.setPmp g (lockRegs (u.apply c.table (c.hart g).pmp))

def sendIpis (u : IpiUpdate) : Core :=
  (Monitor.otherHarts h).foldl (fun c g => c.deliverIpi g u) c

/-- `pmp_unset_global`. -/
def unsetGlobal (rid : Nat) : Core :=
  if c.table.isPmpRegionValid rid then c.sendIpis h ⟨rid, true, PMP_NO_PERM⟩ else c

/-! ## Creating and destroying -/

def allocEid : Option Nat :=
  (List.range ENCL_MAX).find? fun eid => (c.enclaves eid).state == .invalid

def setState (eid : Nat) (s : EnclaveState) : Core := c.setEnclave eid ((c.enclaves eid).setState s)

def regionFree (rid : Nat) : Core := c.setTable (c.table.pmpRegionFree rid).1

/-- The part of `create_enclave` after its regions exist. -/
def build (eid region sharedRegion : Nat) (params : RuntimeParams) : Core :=
  let c := c.sendIpis h ⟨region, false, PMP_NO_PERM⟩
  let c := (c.osmPmpSet h (PMP_R ||| PMP_W)).osmPmpSet h (PMP_X ||| PMP_W ||| PMP_R)
  let c := c.setEnclave eid ((c.enclaves eid).create region sharedRegion params)
  let c := (c.pmpSet h region EPMP_ALL_RW).osmPmpSet h (PMP_R ||| PMP_W)
  let c := (c.pmpSet h region PMP_NO_PERM).osmPmpSet h (PMP_X ||| PMP_W ||| PMP_R)
  c.setState eid .fresh

def createEnclave (args : CreateArgs) : Core :=
  if !isCreateArgsValid args then c
  else
    match c.allocEid with
    | none => c
    | some eid =>
      match c.table.pmpRegionInit args.epmPaddr args.epmSize .any false with
      | (_, .error _) => c
      | (t, .ok region) =>
        match t.pmpRegionInit args.utmPaddr args.utmSize .bottom false with
        | (_, .error _) => c.setTable (t.pmpRegionFree region).1
        | (t, .ok sharedRegion) =>
          ((c.setState eid .allocated).setTable t).build h eid region sharedRegion args.params

/-- A create call; `none` stands for arguments that cannot be read. -/
def createCall (args : Option CreateArgs) : Core :=
  let c := (c.osmPmpSet h (PMP_R ||| PMP_W)).osmPmpSet h (PMP_X ||| PMP_W ||| PMP_R)
  match args with
  | none => c
  | some args => (c.createEnclave h args).osmPmpSet h (PMP_X ||| PMP_W ||| PMP_R)

def destroyRegion (eid i : Nat) : Core :=
  let region := (c.enclaves eid).regions i
  if region.type = .invalid ∨ region.type = .utm then c
  else
    let c := (c.pmpSet h region.pmpRid EPMP_ALL_RW).pmpSet h region.pmpRid PMP_NO_PERM
    (c.unsetGlobal h region.pmpRid).regionFree region.pmpRid

def destroyRegions (eid : Nat) : Core :=
  (List.range ENCLAVE_REGIONS_MAX).foldl (fun c i => c.destroyRegion h eid i) c

def destroyShared (eid : Nat) : Core :=
  match (List.range ENCLAVE_REGIONS_MAX).find? fun i =>
      ((c.enclaves eid).regions i).type == .utm with
  | some i => c.regionFree ((c.enclaves eid).regions i).pmpRid
  | none => c

def destroyCall (eid : Nat) : Core :=
  if decide (eid < ENCL_MAX) && (c.enclaves eid).destroyable then
    let c := ((c.setState eid .destroying).destroyRegions h eid).destroyShared eid
    let c := (c.setEnclave eid (c.enclaves eid).clear).setState eid .invalid
    c.osmPmpSet h EPMP_SU_RWX
  else c

/-! ## Services -/

/-- An attest call; `copied` says whether the data of the report could be read. -/
def attestCall (size : Word) (copied : Bool) : Core :=
  let eid := (c.hart h).eid
  if size > ATTEST_DATA_MAXLEN then c
  else if !(decide (eid < ENCL_MAX) && (c.enclaves eid).attestable) then c
  else
    let c := c.pmpSetRegions h eid EPMP_ALL_RW
    if copied then c.pmpSetRegions h eid EPMP_SU_RWX else c

/-- A call for a sealing key; `derived` says whether the derivation succeeds. -/
def sealingCall (derived : Bool) : Core :=
  let eid := (c.hart h).eid
  let c := (c.pmpSetRegions h eid EPMP_ALL_RW).pmpSetRegions h eid EPMP_SU_RWX
  if derived then (c.pmpSetRegions h eid EPMP_ALL_RW).pmpSetRegions h eid EPMP_SU_RWX else c

/-! ## OpenSBI -/

def writePmpcfg0 (cfg : Word) : Core := c.setPmp h (cfgRegs cfg (c.hart h).pmp)

/-- A trap is handed on to OpenSBI. -/
def forward : Core := (c.writePmpcfg0 h UNLOCK_OSBI).setMode h .osbi

/-- OpenSBI returns; `mode` is where the hart goes on. -/
def osbiReturn (mode : Mode) : Core :=
  let c := c.writePmpcfg0 h LOCK_OSBI
  let hc := c.hart h
  if hc.suStarted then
    (if hc.monEnclaveExecution then c.fixPermissions h hc.eid else c).setMode h mode
  else (c.setHart h { hc with suStarted := true }).setMode h .su

end Core

/-! ## Events -/

/-- What is left of an input of the monitor. -/
inductive Event where
  /-- A call that changes nothing here. -/
  | other
  | create (h : HartId) (args : Option CreateArgs)
  | destroy (h : HartId) (eid : Nat)
  | run (h : HartId) (eid : Nat)
  | resume (h : HartId) (eid : Nat)
  | attest (h : HartId) (size : Word) (copied : Bool)
  | sealing (h : HartId) (derived : Bool)
  /-- A stop or exit call. -/
  | leave (h : HartId)
  /-- A timer or software interrupt. -/
  | interrupt (h : HartId)
  | forward (h : HartId)
  | hang (h : HartId)
  | osbiReturn (h : HartId) (mode : Mode)

/-- The event is a call of the Keystone extension. -/
def Event.isCall : Event → Bool
  | .interrupt _ | .forward _ | .hang _ | .osbiReturn _ _ => false
  | _ => true

namespace Core

variable (c : Core)

/-- The event can take place. -/
def enabled : Event → Bool
  | .other => true
  | .create _ _ | .destroy _ _ => (List.finRange 4).all fun g => (c.hart g).mode == .su
  | .osbiReturn h _ => (c.hart h).mode == .osbi
  | .run h _ | .resume h _ | .attest h _ _ | .sealing h _ | .leave h | .interrupt h | .forward h
  | .hang h => (c.hart h).mode == .su

/-- The calls of the host are refused inside an enclave, those of an enclave outside of one. -/
def apply : Event → Core
  | .other => c
  | .create h args => if (c.hart h).isEnclave then c else c.createCall h args
  | .destroy h eid => if (c.hart h).isEnclave then c else c.destroyCall h eid
  | .run h eid => if (c.hart h).isEnclave then c else c.enterCall h (·.runable) eid
  | .resume h eid => if (c.hart h).isEnclave then c else c.enterCall h (·.resumable) eid
  | .attest h size copied => if (c.hart h).isEnclave then c.attestCall h size copied else c
  | .sealing h derived => if (c.hart h).isEnclave then c.sealingCall h derived else c
  | .leave h => if (c.hart h).isEnclave then c.leaveCall h else c
  | .interrupt h => if (c.hart h).monEnclaveExecution then c.leaveCall h else c.forward h
  | .forward h => c.forward h
  | .hang h => c.setMode h .hung
  | .osbiReturn h mode => c.osbiReturn h mode

def step (e : Event) : Core := if c.enabled e then c.apply e else c

end Core

namespace Monitor

variable (C : Crypto) (m : Monitor)

/-- The event of a call of the Keystone extension. -/
def callEvent (h : HartId) (regs : TrapRegs) (env : Env) : Event :=
  let hs := m.hart h
  if regs.a6 = SBI_SM_CREATE_ENCLAVE then .create h (copyEnclaveCreateArgs env regs.a0).toOption
  else if regs.a6 = SBI_SM_DESTROY_ENCLAVE then .destroy h (regs.a0.setWidth 32).toNat
  else if regs.a6 = SBI_SM_RUN_ENCLAVE then .run h (regs.a0.setWidth 32).toNat
  else if regs.a6 = SBI_SM_RESUME_ENCLAVE then .resume h (regs.a0.setWidth 32).toNat
  else if regs.a6 = SBI_SM_ATTEST_ENCLAVE then
    .attest h regs.a2 (copyToSm env regs.a1 regs.a2.toNat).isSome
  else if regs.a6 = SBI_SM_GET_SEALING_KEY then
    .sealing h (m.smDeriveSealingKey C regs.a1 regs.a2 (m.enclaves hs.eid).hash).isSome
  else if regs.a6 = SBI_SM_STOP_ENCLAVE ∨ regs.a6 = SBI_SM_EXIT_ENCLAVE then .leave h
  else .other

/-- The event of a trap. -/
def trapEvent (h : HartId) (mcause : Word) (regs : TrapRegs) (env : Env) : Event :=
  if isInterrupt mcause then
    if irqCode mcause = IRQ_M_TIMER ∨ irqCode mcause = IRQ_M_SOFT then .interrupt h else .hang h
  else if isEcall mcause then
    if regs.a7 = SBI_EXT_EXPERIMENTAL_KEYSTONE_ENCLAVE then m.callEvent C h regs env
    else .forward h
  else .forward h

/-- Where `mon_trap_return_osbi` leaves a hart that forwarded a trap with this cause. -/
def returnMode (cause : Word) : Mode :=
  if isInterrupt cause then
    if irqCode cause = IRQ_M_TIMER ∨ irqCode cause = IRQ_M_SOFT then .su else .hung
  else .su

/-- The event of an input. -/
def event : Input → Event
  | .trap h t => m.trapEvent C h t.mcause t.regs t.env
  | .osbiReturn h _ => .osbiReturn h (returnMode (m.hart h).temporaryInfo.cause)

end Monitor

end Dorami.Sm
