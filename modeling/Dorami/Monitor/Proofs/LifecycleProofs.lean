import Dorami.Monitor.Proofs.AgreeProofs
import Dorami.Monitor.Proofs.CallProofs
import Dorami.Monitor.Proofs.SlotProofs

/-!
# The lifecycle of an enclave

Between two calls there is either no enclave (`Idle`) or exactly one (`Live`): the region table has
room for no more. The two predicates also say what the registers of each hart are then, in host
context and inside the enclave. Each call of the Keystone extension takes one of them to one of
them.

How much is said about the registers is a parameter. The interrupts of PMP updates and the traps
that are handed on to OpenSBI come back with a constant in `pmpcfg0`, which takes the entry of a TOR
region away. So in runs with TOR regions only the tables can be described.
-/

namespace Dorami.Sm

open Riscv

/-- What is said about the registers of the harts. -/
inductive Detail where
  /-- Nothing. -/
  | tables
  /-- Which regions they let S/U mode reach; the EPM is a NAPOT region. -/
  | views
  /-- Also that a trap handed on to OpenSBI gives them back. -/
  | strict
deriving DecidableEq

/-- The registers survive a trap that is handed on to OpenSBI. -/
def Detail.lock (d : Detail) : Bool := d == .strict

/-- Something is said about the registers. -/
def Detail.regs (d : Detail) : Bool := d != .tables

theorem Detail.regs_iff {d : Detail} : d.regs = true ↔ d ≠ .tables := bne_iff_ne

/-- The registers of a hart in S/U mode meet `P`; while OpenSBI runs, those it gives
back meet `Q`. -/
def HartCore.RegsOk (d : Detail) (P Q : PmpRegs → Prop) (hc : HartCore) : Prop :=
  d ≠ .tables →
    match hc.mode with
    | .su => P hc.pmp
    | .osbi => d = .strict ∧ Q (lockRegs hc.pmp)
    | .hung => True

theorem HartCore.RegsOk.su {d : Detail} {P Q : PmpRegs → Prop} {hc : HartCore}
    (h : hc.RegsOk d P Q) (hsu : hc.mode = .su) (hd : d ≠ .tables) : P hc.pmp := by
  have hregs := h hd
  rw [hsu] at hregs
  exact hregs

theorem HartCore.regsOk_of_su {d : Detail} {P Q : PmpRegs → Prop} {hc : HartCore}
    (hsu : hc.mode = .su) (hP : d ≠ .tables → P hc.pmp) : hc.RegsOk d P Q := by
  intro hd
  rw [hsu]
  exact hP hd

/-- The entry of `enclaves[]` belongs to no enclave. -/
structure EnclaveCore.Unused (en : EnclaveCore) : Prop where
  state : en.state = .invalid
  threads : en.nThread = 0
  regions : ∀ i < ENCLAVE_REGIONS_MAX, (en.regions i).type = .invalid

/-- The entry of `enclaves[]` is that of an enclave with the regions `E` and `U`. -/
structure EnclaveCore.Present (en : EnclaveCore) (E U : PmpRegion) : Prop where
  state : en.state = .fresh ∨ en.state = .stopped ∨ en.state = .running
  regions : Core.LiveRegions en.regions
  epm : E.addr = en.params.dramBase ∧ E.size = en.params.dramSize
  utm : U.addr = en.params.untrustedBase ∧ U.size = en.params.untrustedSize

/-- A hart while the enclave with the regions `E` and `U` exists. In host context it sees the OS
region but not the EPM; inside the enclave it sees the EPM and the UTM. -/
def HartCore.Serves (d : Detail) (E U : PmpRegion) (hc : HartCore) : Prop :=
  if hc.isEnclave then
    hc.RegsOk d (fun r => ∃ p, (d = .strict → p = EPMP_SU_RWX) ∧ View d.lock E p U p r)
      (LowOk d.lock)
  else
    hc.RegsOk d (View d.lock E PMP_NO_PERM osRegion EPMP_SU_RWX)
      (View d.lock E PMP_NO_PERM osRegion EPMP_SU_RWX)

/-- The EPM is a NAPOT region if anything is said about registers. -/
theorem EpmOk.nap {d : Detail} {E : PmpRegion} (h : EpmOk d.regs E) (hd : d ≠ .tables) :
    EpmOk true E := ⟨h.enc, h.regs, fun _ => h.napot (Detail.regs_iff.mpr hd)⟩

theorem addrmode_ne_tor {t : PmpTable} {u : Option PmpRegion} {E : PmpRegion}
    (hs : Slots t (some E) u) (hno : t.hasTor = false) : E.addrmode ≠ PMP_A_TOR := by
  intro htor
  have hv : t.isPmpRegionValid 6 = true := (hs.valid 6).mpr (Or.inr (Or.inl ⟨rfl, rfl⟩))
  have hany := List.any_eq_false.mp hno 6 (List.mem_range.mpr (by decide))
  rw [hv, (hs.epm E rfl).1, htor] at hany
  exact absurd rfl hany

namespace Core

/-- There is no enclave. -/
structure Idle (d : Detail) (c : Core) : Prop where
  slots : Slots c.table none none
  unused : ∀ e, (c.enclaves e).Unused
  outside : ∀ g, (c.hart g).isEnclave = false
  regs : ∀ g, (c.hart g).RegsOk d (Bare d.lock EPMP_SU_RWX) (Bare d.lock EPMP_SU_RWX)

/-- The enclave `e` with the regions `E` and `U` is the only one. -/
structure Live (d : Detail) (e : Nat) (E U : PmpRegion) (c : Core) : Prop where
  slots : Slots c.table (some E) (some U)
  epm : EpmOk d.regs E
  lt : e < ENCL_MAX
  present : (c.enclaves e).Present E U
  unused : ∀ e', e' ≠ e → (c.enclaves e').Unused
  occupancy : Occupancy c
  serves : ∀ g, (c.hart g).Serves d E U

/-- There is at most one enclave. -/
def AtMostOne (d : Detail) (c : Core) : Prop := Idle d c ∨ ∃ e E U, Live d e E U c

section

variable {strict : Bool} {d : Detail} {c : Core} {h : HartId} {e eid : Nat} {E U : PmpRegion}

theorem rwx_eq : PMP_X ||| PMP_W ||| PMP_R = EPMP_SU_RWX := by decide

/-! ## No enclave -/

theorem Idle.noneRunning (hi : Idle d c) : c.NoneRunning := by
  intro e
  rw [(hi.unused e).state]
  decide

theorem Idle.occupancy (hi : Idle d c) : Occupancy c := by
  refine ⟨fun g hg => ?_, fun g g' hg => ?_, fun e => ?_⟩
  · rw [hi.outside] at hg
    cases hg
  · rw [hi.outside] at hg
    cases hg
  · rw [(hi.unused e).threads, if_neg (hi.noneRunning e)]

theorem Idle.setHart (hi : Idle d c) {hc : HartCore} (hout : hc.isEnclave = false)
    (hregs : hc.RegsOk d (Bare d.lock EPMP_SU_RWX) (Bare d.lock EPMP_SU_RWX)) :
    Idle d (c.setHart h hc) := by
  refine ⟨hi.slots, hi.unused, fun g => ?_, fun g => ?_⟩
  · rw [hart_setHart]
    split
    · exact hout
    · exact hi.outside g
  · rw [hart_setHart]
    split
    · exact hregs
    · exact hi.regs g

theorem Idle.tables (hi : Idle d c) : Idle .tables c :=
  ⟨hi.slots, hi.unused, hi.outside, fun _ hd => absurd rfl hd⟩

theorem Idle.setFlag (hi : Idle d c) {b : Bool} : Idle d (c.setFlag h b) :=
  hi.setHart (hi.outside h) (hi.regs h)

theorem Idle.bare (hi : Idle d c) (hsu : (c.hart h).mode = .su) (hd : d ≠ .tables) :
    Bare d.lock EPMP_SU_RWX (c.hart h).pmp := (hi.regs h).su hsu hd

theorem Idle.setPmp (hi : Idle d c) (hsu : (c.hart h).mode = .su) {r : PmpRegs}
    (hr : d ≠ .tables → Bare d.lock EPMP_SU_RWX r) : Idle d (c.setPmp h r) :=
  hi.setHart (hi.outside h) (HartCore.regsOk_of_su (by exact hsu) hr)

/-- The OS region is opened to the monitor and back to S/U mode. -/
theorem bare_osm {t : PmpTable} {x y : Option PmpRegion} (hs : Slots t x y) {p q : Byte}
    {r : PmpRegs} (hb : Bare strict p r) : Bare strict q (osmSet t q r) := hb.set_os (hs.os_res q r)

/-- The registers of the hart that creates an enclave. -/
theorem view_buildPmp {t : PmpTable} {y : Option PmpRegion} (hs : Slots t (some E) y)
    (hE : EpmOk strict E) {p : Byte} {r : PmpRegs} (hb : Bare strict p r) :
    View strict E PMP_NO_PERM osRegion EPMP_SU_RWX (buildPmp t 6 r) := by
  have hL := lastOk_osRegion
  have h1 : Bare strict EPMP_SU_RWX (osmSet t (PMP_X ||| PMP_W ||| PMP_R)
      (osmSet t (PMP_R ||| PMP_W) r)) := bare_osm hs (bare_osm (q := PMP_R ||| PMP_W) hs hb)
  have h2 := h1.set_epm hE (hs.epm_res EPMP_ALL_RW _)
  have h3 := h2.set_last hE hL (hs.os_res (PMP_R ||| PMP_W) _)
  have h4 := h3.set_epm hE hL (hs.epm_res PMP_NO_PERM _)
  exact h4.set_last hE hL (hs.os_res (PMP_X ||| PMP_W ||| PMP_R) _)

theorem serves_host {hc : HartCore} (hout : hc.isEnclave = false) (hsu : hc.mode = .su)
    (hv : d ≠ .tables → View d.lock E PMP_NO_PERM osRegion EPMP_SU_RWX hc.pmp) :
    hc.Serves d E U := by
  unfold HartCore.Serves
  rw [if_neg (by rw [hout]; decide)]
  exact HartCore.regsOk_of_su hsu hv

theorem present_created {en : EnclaveCore} (hu : en.Unused) {params : RuntimeParams}
    (hEp : E.addr = params.dramBase ∧ E.size = params.dramSize)
    (hUp : U.addr = params.untrustedBase ∧ U.size = params.untrustedSize) :
    (((en.setState .allocated).create 6 7 params).setState .fresh).Present E U := by
  refine ⟨Or.inl rfl, ⟨rfl, rfl, fun i h2 h8 => ?_⟩, hEp, hUp⟩
  have h0 : i ≠ 0 := by omega
  have h1 : i ≠ 1 := by omega
  simp only [EnclaveCore.setState, EnclaveCore.create, if_neg h0, if_neg h1]
  exact hu.regions i h8

theorem Idle.noneRunning_alloc (hi : Idle d c) {t : PmpTable} :
    ((c.setState eid .allocated).setTable t).NoneRunning := by
  intro e
  simp only [setTable, setState, setEnclave]
  split
  · simp [EnclaveCore.setState]
  · exact hi.noneRunning e

/-- An enclave is built on all harts. -/
theorem Idle.build (hi : Idle d c) (hsu : ∀ g, (c.hart g).mode = .su) {t : PmpTable}
    (hs : Slots t (some E) (some U)) (hE : EpmOk d.regs E) (hlt : eid < ENCL_MAX)
    {params : RuntimeParams} (hEp : E.addr = params.dramBase ∧ E.size = params.dramSize)
    (hUp : U.addr = params.untrustedBase ∧ U.size = params.untrustedSize) :
    Live d eid E U
      (((c.setState eid .allocated).setTable t).build h eid 6 7 params) := by
  have hno : ((c.setState eid .allocated).setTable t).NoneRunning := hi.noneRunning_alloc
  have hpresent := present_created (hi.unused eid) hEp hUp
  have hocc : Occupancy (c.setEnclave eid
      ((((c.enclaves eid).setState .allocated).create 6 7 params).setState .fresh)) :=
    hi.occupancy.setEnclave (hi.noneRunning eid) (show EnclaveState.fresh ≠ _ by decide) rfl
  rw [build_eq hno]
  simp only [setTable, setState, setEnclave, if_true] at hocc ⊢
  refine ⟨hs, hE, hlt, ?_, fun e' he' => ?_, hocc.congr ?_ (fun g => ?_) (fun g => ?_), fun g => ?_⟩
  · simp only [if_true]
    exact hpresent
  · simp only [if_neg he']
    exact hi.unused e'
  · funext e
    by_cases he : e = eid <;> simp [he]
  · dsimp only
    split
    · next hg => rw [hg]
    · rfl
  · dsimp only
    split
    · next hg => rw [hg]
    · rfl
  · by_cases hg : g = h
    · simp only [if_pos hg]
      refine serves_host (hi.outside h) (hsu h) fun hd => ?_
      exact view_buildPmp hs (hE.nap hd).weaken (hi.bare (hsu h) hd)
    · simp only [if_neg hg]
      refine serves_host (hi.outside g) (hsu g) fun hd => ?_
      have hview := (hi.bare (hsu g) hd).set_epm (hE.nap hd).weaken (hs.epm_res PMP_NO_PERM _)
      exact (hview.relock (hE.nap hd)).weaken

theorem isEnclave_build {region sharedRegion : Nat} {params : RuntimeParams} (hno : c.NoneRunning)
    (g : HartId) : ((c.build h eid region sharedRegion params).hart g).isEnclave =
      (c.hart g).isEnclave := by
  rw [build_eq hno]
  dsimp only
  split
  · next hg => rw [hg]
  · rfl

theorem Idle.setTable (hi : Idle d c) {t : PmpTable} (hs : Slots t none none) :
    Idle d (c.setTable t) := ⟨hs, hi.unused, hi.outside, hi.regs⟩

theorem Idle.createEnclave (hi : Idle d c) (hsu : ∀ g, (c.hart g).mode = .su)
    {args : CreateArgs} (hnap : d ≠ .tables → (c.createEnclave h args).table.hasTor = false) :
    AtMostOne d (c.createEnclave h args) ∧
      ∀ g, ((c.createEnclave h args).hart g).isEnclave = false := by
  revert hnap
  unfold Core.createEnclave
  split
  · exact fun _ => ⟨Or.inl hi, hi.outside⟩
  split
  · exact fun _ => ⟨Or.inl hi, hi.outside⟩
  next eid halloc =>
  have hlt : eid < ENCL_MAX := List.mem_range.mp (List.mem_of_find?_eq_some halloc)
  split
  · exact fun _ => ⟨Or.inl hi, hi.outside⟩
  next t1 region hepm =>
  obtain ⟨E, hinitE⟩ := pmpRegionInit_ok hepm
  obtain ⟨rfl, hs1⟩ := hi.slots.add_epm hinitE
  split
  · exact fun _ => ⟨Or.inl (hi.setTable hs1.free_epm), hi.outside⟩
  next t2 shared hutm =>
  intro hnap
  obtain ⟨U, hinitU⟩ := pmpRegionInit_ok hutm
  obtain ⟨rfl, hs2⟩ := hs1.add_utm hinitU
  rw [build_eq hi.noneRunning_alloc] at hnap
  have hE := epmOk_of_init hi.slots.kept hi.slots.regs_free hinitE
    fun hst => addrmode_ne_tor hs2 (hnap (Detail.regs_iff.mp hst))
  refine ⟨Or.inr ⟨eid, E, U, hi.build hsu hs2 hE hlt ⟨hinitE.addr, hinitE.size⟩
    ⟨hinitU.addr, hinitU.size⟩⟩, fun g => ?_⟩
  rw [isEnclave_build hi.noneRunning_alloc]
  exact hi.outside g

/-! ## One enclave -/

theorem Live.setHart (hl : Live d e E U c) {hc : HartCore}
    (hin : hc.isEnclave = (c.hart h).isEnclave) (heid : hc.eid = (c.hart h).eid)
    (hserves : hc.Serves d E U) : Live d e E U (c.setHart h hc) := by
  refine ⟨hl.slots, hl.epm, hl.lt, hl.present, hl.unused,
    hl.occupancy.setHart hin heid, fun g => ?_⟩
  rw [hart_setHart]
  split
  · exact hserves
  · exact hl.serves g

theorem Live.setFlag (hl : Live d e E U c) {b : Bool} : Live d e E U (c.setFlag h b) :=
  hl.setHart rfl rfl (hl.serves h)

/-- The hart is in host context. -/
theorem Live.host_view (hl : Live d e E U c) (hout : (c.hart h).isEnclave = false)
    (hsu : (c.hart h).mode = .su) (hd : d ≠ .tables) :
    View d.lock E PMP_NO_PERM osRegion EPMP_SU_RWX (c.hart h).pmp := by
  have hserves := hl.serves h
  unfold HartCore.Serves at hserves
  rw [if_neg (by rw [hout]; decide)] at hserves
  exact hserves.su hsu hd

/-- The hart is inside the enclave. -/
theorem Live.inside_view (hl : Live d e E U c) (hin : (c.hart h).isEnclave = true)
    (hsu : (c.hart h).mode = .su) (hd : d ≠ .tables) :
    ∃ p, (d = .strict → p = EPMP_SU_RWX) ∧ View d.lock E p U p (c.hart h).pmp := by
  have hserves := hl.serves h
  unfold HartCore.Serves at hserves
  rw [if_pos hin] at hserves
  exact hserves.su hsu hd

theorem serves_inside {hc : HartCore} (hin : hc.isEnclave = true) (hsu : hc.mode = .su)
    (hv : d ≠ .tables → ∃ p, (d = .strict → p = EPMP_SU_RWX) ∧ View d.lock E p U p hc.pmp) :
    hc.Serves d E U := by
  unfold HartCore.Serves
  rw [if_pos hin]
  exact HartCore.regsOk_of_su hsu hv

theorem Live.lastOk (hl : Live d e E U c) : LastOk U := (hl.slots.utm U rfl).2.1

theorem Live.eid_eq (hl : Live d e E U c) (hin : (c.hart h).isEnclave = true) :
    (c.hart h).eid = e := by
  by_contra hne
  have hrun := (hl.occupancy.running h hin).2
  rw [(hl.unused _ hne).state] at hrun
  cases hrun

/-- There is no room for a second enclave. -/
theorem Live.createEnclave (hl : Live d e E U c) {args : CreateArgs} :
    c.createEnclave h args = c := by
  unfold Core.createEnclave
  split
  · rfl
  split
  · rfl
  split
  · rfl
  next t1 region hepm =>
  obtain ⟨R, hinit⟩ := pmpRegionInit_ok hepm
  exact absurd hinit hl.slots.full

theorem Live.setPmp_host (hl : Live d e E U c) (hout : (c.hart h).isEnclave = false)
    (hsu : (c.hart h).mode = .su) {r : PmpRegs}
    (hr : d ≠ .tables → View d.lock E PMP_NO_PERM osRegion EPMP_SU_RWX r) :
    Live d e E U (c.setPmp h r) :=
  hl.setHart rfl rfl (serves_host hout hsu hr)

theorem Live.setPmp_inside (hl : Live d e E U c) (hin : (c.hart h).isEnclave = true)
    (hsu : (c.hart h).mode = .su) {r : PmpRegs} {p : Byte} (hp : d = .strict → p = EPMP_SU_RWX)
    (hr : d ≠ .tables → View d.lock E p U p r) : Live d e E U (c.setPmp h r) :=
  hl.setHart rfl rfl (serves_inside hin hsu fun hd => ⟨p, hp, hr hd⟩)

/-- The EPM as the lemmas about registers want it. -/
theorem Live.epm_ok (hl : Live d e E U c) (hd : d ≠ .tables) : EpmOk strict E :=
  (hl.epm.nap hd).weaken

/-! ## Create calls -/

/-- The OS region is closed to S/U mode for the monitor's own accesses and opened again. -/
theorem osmPmpSet_twice (p q : Byte) : (c.osmPmpSet h p).osmPmpSet h q =
    c.setPmp h (osmSet c.table q (osmSet c.table p (c.hart h).pmp)) := by
  simp [Core.osmPmpSet, Core.setPmp]

theorem AtMostOne.osmPmpSet (ha : AtMostOne d c) (hout : (c.hart h).isEnclave = false)
    (hsu : (c.hart h).mode = .su) : AtMostOne d (c.osmPmpSet h EPMP_SU_RWX) := by
  rcases ha with hi | ⟨e, E, U, hl⟩
  · exact Or.inl (hi.setPmp hsu fun hd => bare_osm hi.slots (hi.bare hsu hd))
  · refine Or.inr ⟨e, E, U, hl.setPmp_host hout hsu fun hd => ?_⟩
    exact (hl.host_view hout hsu hd).set_last (hl.epm_ok hd) lastOk_osRegion (hl.slots.os_res _ _)

theorem AtMostOne.osmPmpSet_twice (ha : AtMostOne d c) (hout : (c.hart h).isEnclave = false)
    (hsu : (c.hart h).mode = .su) {p : Byte} :
    AtMostOne d ((c.osmPmpSet h p).osmPmpSet h EPMP_SU_RWX) := by
  rw [Core.osmPmpSet_twice]
  rcases ha with hi | ⟨e, E, U, hl⟩
  · refine Or.inl (hi.setPmp hsu fun hd => ?_)
    exact bare_osm hi.slots (bare_osm (q := p) hi.slots (hi.bare hsu hd))
  · refine Or.inr ⟨e, E, U, hl.setPmp_host hout hsu fun hd => ?_⟩
    exact ((hl.host_view hout hsu hd).set_last (hl.epm_ok hd) lastOk_osRegion
      (hl.slots.os_res p _)).set_last (hl.epm_ok hd) lastOk_osRegion (hl.slots.os_res EPMP_SU_RWX _)

theorem AtMostOne.createCall (ha : AtMostOne d c) (hsu : ∀ g, (c.hart g).mode = .su)
    (hout : (c.hart h).isEnclave = false) {args : Option CreateArgs}
    (hnap : d ≠ .tables → (c.createCall h args).table.hasTor = false) :
    AtMostOne d (c.createCall h args) := by
  revert hnap
  have hpre := ha.osmPmpSet_twice hout (hsu h) (p := PMP_R ||| PMP_W)
  have hsame : Same c ((c.osmPmpSet h (PMP_R ||| PMP_W)).osmPmpSet h EPMP_SU_RWX) :=
    Same.refl.setPmp.setPmp
  have hin : ∀ g, (((c.osmPmpSet h (PMP_R ||| PMP_W)).osmPmpSet h EPMP_SU_RWX).hart g).isEnclave =
      (c.hart g).isEnclave := by
    intro g
    rw [Core.osmPmpSet_twice]
    refine hart_setHart_congr (·.isEnclave) ?_ g
    rfl
  unfold Core.createCall
  dsimp only
  rw [rwx_eq]
  generalize (c.osmPmpSet h (PMP_R ||| PMP_W)).osmPmpSet h EPMP_SU_RWX = c1 at hpre hsame hin
  have hsu1 : ∀ g, (c1.hart g).mode = .su := fun g => (hsame g).1.trans (hsu g)
  split
  · exact fun _ => hpre
  intro hnap
  rcases hpre with hi | ⟨e, E, U, hl⟩
  · obtain ⟨ha2, hout2⟩ := hi.createEnclave (h := h) hsu1 hnap
    exact ha2.osmPmpSet (hout2 h) ((Same.refl.createEnclave h).1.trans (hsu1 h))
  · rw [hl.createEnclave]
    exact AtMostOne.osmPmpSet (Or.inr ⟨e, E, U, hl⟩) ((hin h).trans hout) (hsu1 h)

/-! ## Destroy calls -/

/-- Only the enclave itself passes the tests of the calls. -/
theorem Live.eq_of_present (hl : Live d e E U c) (hp : (c.enclaves eid).present = true) :
    eid = e := by
  by_contra hne
  simp [EnclaveCore.present, (hl.unused eid hne).state, EnclaveState.rank] at hp

theorem unused_destroyed (en : EnclaveCore) : (destroyed en).Unused := by
  refine ⟨rfl, rfl, fun i hi => ?_⟩
  simp only [destroyed, EnclaveCore.setState, EnclaveCore.clear, if_pos hi]

theorem Live.noneRunning (hl : Live d e E U c) (hne : (c.enclaves e).state ≠ .running) :
    c.NoneRunning := by
  intro e'
  by_cases he : e' = e
  · rw [he]; exact hne
  · rw [(hl.unused e' he).state]; decide

theorem Live.outside (hl : Live d e E U c) (hne : (c.enclaves e).state ≠ .running)
    (g : HartId) : (c.hart g).isEnclave = false := by
  cases hin : (c.hart g).isEnclave with
  | false => rfl
  | true => exact absurd (hl.occupancy.running g hin).2 (hl.noneRunning hne _)

theorem Live.destroy (hl : Live d e E U c) (hsu : ∀ g, (c.hart g).mode = .su)
    (hd : (c.enclaves e).destroyable = true) : Idle d (c.destroyCall h e) := by
  have hne := not_running_of_destroyable hd
  have hout := hl.outside hne
  have hv : c.table.isPmpRegionValid 6 = true := (hl.slots.valid 6).mpr (Or.inr (Or.inl ⟨rfl, rfl⟩))
  have hs : Slots ((c.table.pmpRegionFree 6).1.pmpRegionFree 7).1 none none :=
    hl.slots.free_epm.free_utm
  have hok : (decide (e < ENCL_MAX) && (c.enclaves e).destroyable) = true := by
    rw [hd, decide_eq_true hl.lt]
    rfl
  rw [destroyCall_eq (hl.noneRunning hne) hl.present.regions hv hok]
  refine ⟨hs, fun e' => ?_, fun g => ?_, fun g => ?_⟩
  · dsimp only
    split
    · exact unused_destroyed _
    · next he => exact hl.unused e' he
  · dsimp only
    split
    · exact hout h
    · exact hout g
  · by_cases hg : g = h
    · -- the destroying hart keeps a closed entry of the EPM
      simp only [if_pos hg]
      refine HartCore.regsOk_of_su (by exact hsu h) fun hd => ?_
      have hclear := ((hl.host_view (hout h) (hsu h) hd).set_epm (hl.epm_ok hd) lastOk_osRegion
        (hl.slots.epm_res EPMP_ALL_RW _)).set_epm (hl.epm_ok hd) lastOk_osRegion
          (hl.slots.epm_res PMP_NO_PERM _)
      exact (hclear.set_last (hl.epm_ok hd) lastOk_osRegion (hs.os_res EPMP_SU_RWX _)).bare
        (hl.epm_ok hd)
    · simp only [if_neg hg]
      refine HartCore.regsOk_of_su (by exact hsu g) fun hd => ?_
      have hbare := (hl.host_view (hout g) (hsu g) hd).unset_epm (hl.epm_ok hd)
        (hl.slots.epm_unset _)
      exact hbare.relock.weaken

theorem AtMostOne.destroyCall (ha : AtMostOne d c) (hsu : ∀ g, (c.hart g).mode = .su) :
    AtMostOne d (c.destroyCall h eid) := by
  by_cases hok : (decide (eid < ENCL_MAX) && (c.enclaves eid).destroyable) = true
  · have hd := (Bool.and_eq_true .. ▸ hok).2
    have hp : (c.enclaves eid).present = true := by
      unfold EnclaveCore.destroyable at hd
      exact (Bool.and_eq_true .. ▸ hd).1
    rcases ha with hi | ⟨e, E, U, hl⟩
    · simp [EnclaveCore.present, (hi.unused eid).state, EnclaveState.rank] at hp
    · obtain rfl := hl.eq_of_present hp
      exact Or.inl (hl.destroy hsu hd)
  · unfold Core.destroyCall
    rw [if_neg hok]
    exact ha

/-! ## Entering and leaving -/

/-- All regions of the enclave are opened to the same permissions. -/
theorem view_setRegions {t : PmpTable} (hs : Slots t (some E) (some U)) (hE : EpmOk strict E)
    {regions : Nat → EnclaveRegion} (hR : LiveRegions regions) {L : PmpRegion} (hL : LastOk L)
    {p q p' : Byte} {r : PmpRegs} (hv : View strict E q L p r) :
    View strict E p' U p' (setRegions t regions p' r) := by
  rw [setRegions_live hR]
  exact (hv.set_epm hE hL (hs.epm_res p' _)).set_last hE (hs.utm U rfl).2.1 (hs.utm_res p' _)

theorem view_insidePmp {t : PmpTable} (hs : Slots t (some E) (some U)) (hE : EpmOk strict E)
    {regions : Nat → EnclaveRegion} (hR : LiveRegions regions) {p q : Byte} {r : PmpRegs}
    (hv : View strict E q osRegion p r) :
    View strict E EPMP_SU_RWX U EPMP_SU_RWX (insidePmp t regions r) :=
  view_setRegions hs hE hR lastOk_osRegion
    (hv.set_last hE lastOk_osRegion (hs.os_res PMP_NO_PERM r))

theorem view_outsidePmp {t : PmpTable} (hs : Slots t (some E) (some U)) (hE : EpmOk strict E)
    {regions : Nat → EnclaveRegion} (hR : LiveRegions regions) {p q : Byte} {r : PmpRegs}
    (hv : View strict E q U p r) :
    View strict E PMP_NO_PERM osRegion EPMP_SU_RWX (outsidePmp t regions r) :=
  (view_setRegions hs hE hR (hs.utm U rfl).2.1 hv).set_last hE lastOk_osRegion
    (hs.os_res EPMP_SU_RWX _)

theorem Live.enter (hl : Live d e E U c) (hout : (c.hart h).isEnclave = false)
    (hsu : (c.hart h).mode = .su) (hne : (c.enclaves e).state ≠ .running) :
    Live d e E U (c.enter h e) := by
  have hocc := hl.occupancy.enter (h := h) hl.lt hne
  rw [enter_eq] at hocc ⊢
  refine ⟨hl.slots, hl.epm, hl.lt, ?_, fun e' he' => ?_, hocc, fun g => ?_⟩
  · rw [enclaves_setHart, enclaves_setEnclave, if_pos rfl]
    exact ⟨Or.inr (Or.inr rfl), hl.present.regions, hl.present.epm, hl.present.utm⟩
  · rw [enclaves_setHart, enclaves_setEnclave, if_neg he']
    exact hl.unused e' he'
  · rw [hart_setHart]
    split
    · refine serves_inside rfl hsu fun hd => ⟨EPMP_SU_RWX, fun _ => rfl, ?_⟩
      exact view_insidePmp hl.slots (hl.epm_ok hd) hl.present.regions (hl.host_view hout hsu hd)
    · exact hl.serves g

theorem Live.leave (hl : Live d e E U c) (hin : (c.hart h).isEnclave = true)
    (hsu : (c.hart h).mode = .su) : Live d e E U (c.leave h (c.hart h).eid) := by
  have hocc := hl.occupancy.leave hin
  have hrun := (hl.occupancy.running h hin).2
  have hn := hl.occupancy.threads (c.hart h).eid
  rw [if_pos hrun] at hn
  rw [hl.eid_eq hin] at hocc hn ⊢
  rw [leave_eq] at hocc ⊢
  refine ⟨hl.slots, hl.epm, hl.lt, ?_, fun e' he' => ?_, hocc, fun g => ?_⟩
  · rw [enclaves_setHart, enclaves_setEnclave, if_pos rfl]
    refine ⟨Or.inr (Or.inl ?_), hl.present.regions, hl.present.epm, hl.present.utm⟩
    simp only [EnclaveCore.leave, hn]
    rfl
  · rw [enclaves_setHart, enclaves_setEnclave, if_neg he']
    exact hl.unused e' he'
  · rw [hart_setHart]
    split
    · refine serves_host rfl hsu fun hd => ?_
      obtain ⟨p, _, hview⟩ := hl.inside_view hin hsu hd
      exact view_outsidePmp hl.slots (hl.epm_ok hd) hl.present.regions hview
    · exact hl.serves g

theorem AtMostOne.setFlag (ha : AtMostOne d c) {b : Bool} :
    AtMostOne d (c.setFlag h b) := by
  rcases ha with hi | ⟨e, E, U, hl⟩
  · exact Or.inl hi.setFlag
  · exact Or.inr ⟨e, E, U, hl.setFlag⟩

/-- A run or resume call, accepted or not. -/
theorem AtMostOne.enterCall (ha : AtMostOne d c) (hout : (c.hart h).isEnclave = false)
    (hsu : (c.hart h).mode = .su) {test : EnclaveCore → Bool}
    (hpresent : ∀ en : EnclaveCore, test en = true → en.present = true)
    (hne : Occupancy c → test (c.enclaves eid) = true → (c.enclaves eid).state ≠ .running) :
    AtMostOne d (c.enterCall h test eid) := by
  unfold Core.enterCall
  by_cases hok : (decide (eid < ENCL_MAX) && test (c.enclaves eid)) = true
  · rw [if_pos hok]
    have htest := (Bool.and_eq_true .. ▸ hok).2
    have hp := hpresent _ htest
    rcases ha with hi | ⟨e, E, U, hl⟩
    · simp [EnclaveCore.present, (hi.unused eid).state, EnclaveState.rank] at hp
    · obtain rfl := hl.eq_of_present hp
      exact Or.inr ⟨eid, E, U, (hl.enter hout hsu (hne hl.occupancy htest)).setFlag⟩
  · rw [if_neg hok]
    exact ha.setFlag

theorem AtMostOne.leaveCall (ha : AtMostOne d c) (hin : (c.hart h).isEnclave = true)
    (hsu : (c.hart h).mode = .su) : AtMostOne d (c.leaveCall h) := by
  rcases ha with hi | ⟨e, E, U, hl⟩
  · rw [hi.outside] at hin
    cases hin
  · unfold Core.leaveCall
    dsimp only
    split
    · exact Or.inr ⟨e, E, U, (hl.leave hin hsu).setFlag⟩
    · exact Or.inr ⟨e, E, U, hl.setFlag⟩

/-! ## Services -/

/-- The event is an attestation that is cut short: its data cannot be read. -/
def attestCut (c : Core) : Event → Bool
  | .attest h size copied => (c.hart h).isEnclave && decide (size ≤ ATTEST_DATA_MAXLEN) && !copied
  | _ => false

/-- The registers that the event leaves survive a switch to OpenSBI: it defines no TOR region and is
no attestation that is cut short. -/
def survives (c : Core) (ev : Event) : Bool := !(c.apply ev).table.hasTor && !c.attestCut ev

theorem pmpSetRegions_twice (p q : Byte) : (c.pmpSetRegions h eid p).pmpSetRegions h eid q =
    c.setPmp h (setRegions c.table (c.enclaves eid).regions q
      (setRegions c.table (c.enclaves eid).regions p (c.hart h).pmp)) := by
  simp [pmpSetRegions, Core.setPmp]

theorem Live.pmpSetRegions (hl : Live d e E U c) (hin : (c.hart h).isEnclave = true)
    (hsu : (c.hart h).mode = .su) {p : Byte} (hp : d = .strict → p = EPMP_SU_RWX) :
    Live d e E U (c.pmpSetRegions h e p) := by
  refine hl.setPmp_inside hin hsu hp fun hd => ?_
  obtain ⟨p', _, hview⟩ := hl.inside_view hin hsu hd
  exact view_setRegions hl.slots (hl.epm_ok hd) hl.present.regions hl.lastOk hview

theorem Live.pmpSetRegions_twice (hl : Live d e E U c) (hin : (c.hart h).isEnclave = true)
    (hsu : (c.hart h).mode = .su) {p : Byte} :
    Live d e E U ((c.pmpSetRegions h e p).pmpSetRegions h e EPMP_SU_RWX) := by
  rw [Core.pmpSetRegions_twice]
  refine hl.setPmp_inside hin hsu (fun _ => rfl) fun hd => ?_
  obtain ⟨p', _, hview⟩ := hl.inside_view hin hsu hd
  have hE : EpmOk d.lock E := hl.epm_ok hd
  have hv : View d.lock E p U p (setRegions c.table (c.enclaves e).regions p (c.hart h).pmp) :=
    view_setRegions hl.slots hE hl.present.regions hl.lastOk hview
  exact view_setRegions hl.slots hE hl.present.regions hl.lastOk hv

theorem AtMostOne.attestCall (ha : AtMostOne d c) (hin : (c.hart h).isEnclave = true)
    (hsu : (c.hart h).mode = .su) {size : Word} {copied : Bool}
    (hcut : d = .strict → c.attestCut (.attest h size copied) = false) :
    AtMostOne d (c.attestCall h size copied) := by
  rcases ha with hi | ⟨e, E, U, hl⟩
  · rw [hi.outside] at hin
    cases hin
  · refine Or.inr ⟨e, E, U, ?_⟩
    unfold Core.attestCall
    dsimp only
    rw [hl.eid_eq hin]
    split
    · exact hl
    next hsize =>
    split
    · exact hl
    split
    · exact hl.pmpSetRegions_twice hin hsu
    · next hno =>
      refine hl.pmpSetRegions hin hsu fun hst => ?_
      have hle : size ≤ ATTEST_DATA_MAXLEN := BitVec.not_lt.mp hsize
      have hcut' := hcut hst
      simp [attestCut, hin, hle, hno] at hcut'

theorem AtMostOne.sealingCall (ha : AtMostOne d c) (hin : (c.hart h).isEnclave = true)
    (hsu : (c.hart h).mode = .su) {derived : Bool} : AtMostOne d (c.sealingCall h derived) := by
  rcases ha with hi | ⟨e, E, U, hl⟩
  · rw [hi.outside] at hin
    cases hin
  · refine Or.inr ⟨e, E, U, ?_⟩
    unfold Core.sealingCall
    dsimp only
    rw [hl.eid_eq hin]
    have h1 := hl.pmpSetRegions_twice hin hsu (p := EPMP_ALL_RW)
    split
    · refine h1.pmpSetRegions_twice ?_ ?_
      · simpa [Core.pmpSetRegions, Core.setPmp] using hin
      · simpa [Core.pmpSetRegions, Core.setPmp] using hsu
    · exact h1

/-! ## Every call -/

/-- A call leaves at most one enclave. -/
theorem AtMostOne.call (ha : AtMostOne d c) {ev : Event} (hcall : ev.isCall = true)
    (hen : c.enabled ev = true) (hnap : d ≠ .tables → (c.apply ev).table.hasTor = false)
    (hcut : d = .strict → c.attestCut ev = false) :
    AtMostOne d (c.apply ev) := by
  have hall : (List.finRange 4).all (fun g => (c.hart g).mode == .su) = true →
      ∀ g, (c.hart g).mode = .su := by
    intro hall g
    simpa using List.all_eq_true.mp hall g (List.mem_finRange g)
  cases ev with
  | other => exact ha
  | create h args =>
    simp only [Core.apply]
    split
    · exact ha
    · next hout =>
      refine ha.createCall (hall hen) (by simpa using hout) fun hd => ?_
      simpa [Core.apply, hout] using hnap hd
  | destroy h eid =>
    simp only [Core.apply]
    split
    · exact ha
    · exact ha.destroyCall (hall hen)
  | run h eid =>
    simp only [Core.apply]
    split
    · exact ha
    · next hout =>
      refine ha.enterCall (by simpa using hout) (by simpa [enabled] using hen) (fun en htest => ?_)
        fun _ => not_running_of_runable
      exact (Bool.and_eq_true .. ▸ htest).1
  | resume h eid =>
    simp only [Core.apply]
    split
    · exact ha
    · next hout =>
      refine ha.enterCall (by simpa using hout) (by simpa [enabled] using hen) (fun en htest => ?_)
        fun hocc => hocc.not_running_of_resumable
      simp only [EnclaveCore.resumable, Bool.and_eq_true] at htest
      exact htest.1.1
  | attest h size copied =>
    simp only [Core.apply]
    split
    · next hin =>
      exact ha.attestCall hin (by simpa [enabled] using hen) hcut
    · exact ha
  | sealing h derived =>
    simp only [Core.apply]
    split
    · next hin => exact ha.sealingCall hin (by simpa [enabled] using hen)
    · exact ha
  | leave h =>
    simp only [Core.apply]
    split
    · next hin => exact ha.leaveCall hin (by simpa [enabled] using hen)
    · exact ha
  | interrupt h => cases hcall
  | forward h => cases hcall
  | hang h => cases hcall
  | osbiReturn h mode => cases hcall

end

end Core

end Dorami.Sm
