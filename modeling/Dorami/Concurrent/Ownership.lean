import Dorami.Lib.Run
import Dorami.Sm.Enclave
import Mathlib.Logic.Function.Basic

/-!
# Create and destroy calls of several harts

`create_enclave` and `destroy_enclave` take `encl_lock` only to allocate an id, to test whether an
enclave can be destroyed and to write its state, and `pmp_lock` only inside the functions of the
region table. Here each of these sections, each block of writes to an entry of `enclaves[]` and each
barrier of IPIs is one step, and the steps of the calls of different harts can come in any order.

Besides, the model records who owns a region: the create call that obtained it, and once that call
has made its enclave `FRESH`, the enclave.
-/

namespace Dorami.Sm

open Riscv Lib

/-- How far a hart has come in a call, with the local variables of the call. -/
inductive OwnPc where
  | idle
  /-- Create: the next step allocates the EPM region, then the UTM region. -/
  | epm (eid : Nat) (args : CreateArgs)
  | utm (eid : Nat) (args : CreateArgs) (region : Nat)
  /-- Create: `pmp_set_global`. -/
  | setGlobal (eid : Nat) (args : CreateArgs) (region sharedRegion : Nat)
  /-- Create: the metadata of the enclave, and `platform_create_enclave`. -/
  | metadata (eid : Nat) (args : CreateArgs) (region sharedRegion : Nat)
  /-- Create: `validate_and_hash_enclave`. -/
  | measure (eid region sharedRegion : Nat)
  /-- Create: the labels `unset_region`, `free_shared_region`, `free_region` and `free_encl_idx`. -/
  | unsetRegion (eid region sharedRegion : Nat)
  | freeSharedRegion (eid region sharedRegion : Nat)
  | freeRegion (eid region : Nat)
  | freeEnclIdx (eid : Nat)
  /-- Destroy: round `i` of the loop over the regions. -/
  | scan (eid i : Nat)
  /-- Destroy: `pmp_unset_global` and `pmp_region_free_atomic` of that round. -/
  | unsetEpm (eid i rid : Nat)
  | freeEpm (eid i rid : Nat)
  /-- Destroy: the region of the UTM, the metadata, and the id. -/
  | freeUtm (eid : Nat)
  | wipe (eid : Nat)
  | release (eid : Nat)

namespace OwnPc

/-- The enclave the create call is making. -/
def creates : OwnPc → Option Nat
  | .epm eid _ | .utm eid _ _ | .setGlobal eid _ _ _ | .metadata eid _ _ _ | .measure eid _ _
  | .unsetRegion eid _ _ | .freeSharedRegion eid _ _ | .freeRegion eid _ | .freeEnclIdx eid =>
      some eid
  | _ => none

/-- The enclave the destroy call is taking apart. -/
def destroys : OwnPc → Option Nat
  | .scan eid _ | .unsetEpm eid _ _ | .freeEpm eid _ _ | .freeUtm eid | .wipe eid | .release eid =>
    some eid
  | _ => none

/-- The regions the create call has obtained. -/
def holds : OwnPc → List Nat
  | .utm _ _ region | .freeRegion _ region => [region]
  | .setGlobal _ _ region sharedRegion | .metadata _ _ region sharedRegion
  | .measure _ region sharedRegion | .unsetRegion _ region sharedRegion
  | .freeSharedRegion _ region sharedRegion => [region, sharedRegion]
  | _ => []

def isIdle : OwnPc → Bool
  | .idle => true
  | _ => false

end OwnPc

/-- Who owns a region. -/
inductive Owner (H : Type*) where
  | call (h : H)
  | enclave (eid : Nat)
deriving DecidableEq

/-- The tables, and the harts that make calls. -/
structure Ownership (H : Type*) where
  table : PmpTable
  enclaves : Nat → EnclaveCore
  pc : H → OwnPc
  owner : Nat → Option (Owner H)

/-- A step: the locked section with which a call begins, or the next step of the call the hart is
in. `ok` says whether `platform_create_enclave` or the validation succeeds in that step. -/
inductive OwnMove (H : Type*) where
  | create (h : H) (args : CreateArgs)
  | destroy (h : H) (eid : Nat)
  | next (h : H) (ok : Bool)

def OwnMove.hart {H : Type*} : OwnMove H → H
  | .create h _ | .destroy h _ | .next h _ => h

namespace Ownership

variable {H : Type*} [DecidableEq H]

/-- The state after boot. -/
def boot : Ownership H :=
  ⟨bootTable, fun _ => Enclave.init.toEnclaveCore, fun _ => .idle, fun _ => none⟩

variable (s : Ownership H) (h : H)

def goto (pc : OwnPc) : Ownership H := { s with pc := Function.update s.pc h pc }

def write (eid : Nat) (en : EnclaveCore) : Ownership H :=
  { s with enclaves := Function.update s.enclaves eid en }

def setState (eid : Nat) (state : EnclaveState) : Ownership H :=
  s.write eid ((s.enclaves eid).setState state)

/-- The search of `encl_alloc_eid`. -/
def freeEid : Option Nat :=
  (List.range ENCL_MAX).find? fun eid => (s.enclaves eid).state == .invalid

/-- `pmp_region_init_atomic` by a create call. -/
def regionInit (start size : Word) (priority : PmpPriority) (next : Nat → OwnPc) (fail : OwnPc) :
    Ownership H :=
  match s.table.pmpRegionInit start size priority false with
  | (t, .ok rid) =>
    { s with table := t, owner := Function.update s.owner rid (some (.call h)) }.goto h (next rid)
  | (t, .error _) => { s with table := t }.goto h fail

/-- `pmp_region_free_atomic`. -/
def regionFree (rid : Nat) : Ownership H :=
  { s with
    table := (s.table.pmpRegionFree rid).1
    owner := Function.update s.owner rid none }

/-- The create call makes its enclave `FRESH` and hands the regions over to it. -/
def publish (eid region sharedRegion : Nat) : Ownership H :=
  { s.setState eid .fresh with
    owner := Function.update (Function.update s.owner region (some (.enclave eid))) sharedRegion
      (some (.enclave eid)) }

/-- The entry of the UTM that `get_enclave_region_index` finds. -/
def utmIndex (eid : Nat) : Option Nat :=
  (List.range ENCLAVE_REGIONS_MAX).find? fun i => ((s.enclaves eid).regions i).type == .utm

/-- The next step of the call hart `h` is in. -/
def advance (ok : Bool) : Ownership H :=
  match s.pc h with
  | .idle => s
  | .epm eid args =>
    s.regionInit h args.epmPaddr args.epmSize .any (.utm eid args ·) (.freeEnclIdx eid)
  | .utm eid args region =>
    s.regionInit h args.utmPaddr args.utmSize .bottom (.setGlobal eid args region ·)
      (.freeRegion eid region)
  | .setGlobal eid args region sharedRegion =>
    if s.table.isPmpRegionValid region then s.goto h (.metadata eid args region sharedRegion)
    else s.goto h (.freeSharedRegion eid region sharedRegion)
  | .metadata eid args region sharedRegion =>
    (s.write eid ((s.enclaves eid).create region sharedRegion args.params)).goto h
      (if ok then .measure eid region sharedRegion else .unsetRegion eid region sharedRegion)
  | .measure eid region sharedRegion =>
    if ok then (s.publish eid region sharedRegion).goto h .idle
    else s.goto h (.unsetRegion eid region sharedRegion)
  | .unsetRegion eid region sharedRegion => s.goto h (.freeSharedRegion eid region sharedRegion)
  | .freeSharedRegion eid region sharedRegion =>
    (s.regionFree sharedRegion).goto h (.freeRegion eid region)
  | .freeRegion eid region => (s.regionFree region).goto h (.freeEnclIdx eid)
  | .freeEnclIdx eid => (s.setState eid .invalid).goto h .idle
  | .scan eid i =>
    if i < ENCLAVE_REGIONS_MAX then
      let region := (s.enclaves eid).regions i
      if region.type = .invalid ∨ region.type = .utm then s.goto h (.scan eid (i + 1))
      else s.goto h (.unsetEpm eid i region.pmpRid)
    else s.goto h (.freeUtm eid)
  | .unsetEpm eid i rid => s.goto h (.freeEpm eid i rid)
  | .freeEpm eid i rid => (s.regionFree rid).goto h (.scan eid (i + 1))
  | .freeUtm eid =>
    match s.utmIndex eid with
    | some i => (s.regionFree ((s.enclaves eid).regions i).pmpRid).goto h (.wipe eid)
    | none => s.goto h (.wipe eid)
  | .wipe eid => (s.write eid (s.enclaves eid).clear).goto h (.release eid)
  | .release eid => (s.setState eid .invalid).goto h .idle

def step : OwnMove H → Ownership H
  | .create h args =>
    match s.pc h with
    | .idle =>
      if !isCreateArgsValid args then s
      else
        match s.freeEid with
        | some eid => (s.setState eid .allocated).goto h (.epm eid args)
        | none => s
    | _ => s
  | .destroy h eid =>
    match s.pc h with
    | .idle =>
      if decide (eid < ENCL_MAX) && (s.enclaves eid).destroyable then
        (s.setState eid .destroying).goto h (.scan eid 0)
      else s
    | _ => s
  | .next h ok => s.advance h ok

/-! ## What the calls of different harts leave each other -/

/-- The region a step frees, and on whose behalf. -/
def frees : OwnMove H → Option (Nat × Owner H)
  | .next h _ =>
    match s.pc h with
    | .freeSharedRegion _ _ sharedRegion => some (sharedRegion, .call h)
    | .freeRegion _ region => some (region, .call h)
    | .freeEpm eid _ rid => some (rid, .enclave eid)
    | .freeUtm eid =>
      (s.utmIndex eid).map fun i => (((s.enclaves eid).regions i).pmpRid, .enclave eid)
    | _ => none
  | _ => none

/-- The step leaves the enclaves and regions of others alone. -/
structure Respects (s : Ownership H) (m : OwnMove H) : Prop where
  /-- While a create call is making an enclave, no other call changes the state of the enclave, and
  no other create call is given its id. -/
  making : ∀ h eid, (s.pc h).creates = some eid → m.hart ≠ h →
    ((s.step m).enclaves eid).state = (s.enclaves eid).state ∧
      ((s.step m).pc m.hart).creates ≠ some eid
  /-- An enclave that has been made becomes `INVALID` only by a destroy call for it. -/
  ending : ∀ eid, (s.enclaves eid).state ≠ .invalid → (s.enclaves eid).state ≠ .allocated →
    ((s.step m).enclaves eid).state = .invalid → s.pc m.hart = .release eid
  /-- A region is freed by the call or the enclave that owns it, and then no longer defined. -/
  freeing : ∀ rid o, s.frees m = some (rid, o) →
    s.owner rid = some o ∧ s.table.isPmpRegionValid rid = true ∧
      (s.step m).table.isPmpRegionValid rid = false

/-- A destroy call finds an enclave that another call is still making or already taking apart. -/
def meetsUnfinished : OwnMove H → Bool
  | .destroy h eid => (s.pc h).isIdle && decide (eid < ENCL_MAX) &&
      ((s.enclaves eid).state == .allocated || (s.enclaves eid).state == .destroying)
  | _ => false

end Ownership

end Dorami.Sm
