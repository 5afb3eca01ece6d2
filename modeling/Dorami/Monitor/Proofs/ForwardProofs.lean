import Dorami.Monitor.Proofs.LifecycleProofs
import Dorami.Monitor.Proofs.MemoryStepProofs

/-!
# Traps handed on to OpenSBI

The switch to OpenSBI and back overwrites all eight configuration bytes of a hart with constants.
For a hart in host context the constant written on the way back has to be what the hart had; for one
inside an enclave the regions are programmed again. Both give the hart the memory it had before the
trap, as long as the EPM is a NAPOT region, the two records of the hart agree, and no attestation
has left the regions open to the monitor only.

While a hart is away no enclave can be created or destroyed, so what it comes back to is described
by the same region table as what it left.
-/

namespace Dorami.Sm

open Riscv Lib

namespace Core

variable {c : Core} {h g : HartId} {e : Nat} {E U : PmpRegion}

/-! ## Steps of one hart -/

/-- Only hart `g` and the enclaves can differ. -/
structure OnlyHart (g : HartId) (c c' : Core) : Prop where
  table : c'.table = c.table
  hart : ∀ h, h ≠ g → c'.hart h = c.hart h

theorem OnlyHart.refl : OnlyHart g c c := ⟨rfl, fun _ _ => rfl⟩

section

variable {c₁ : Core} (ho : OnlyHart g c c₁)

include ho

theorem OnlyHart.setHart {hc : HartCore} : OnlyHart g c (c₁.setHart g hc) := by
  refine ⟨ho.table, fun h hne => ?_⟩
  rw [hart_setHart, if_neg hne]
  exact ho.hart h hne

theorem OnlyHart.setPmp {r : PmpRegs} : OnlyHart g c (c₁.setPmp g r) := ho.setHart

theorem OnlyHart.setEnclave {eid : Nat} {en : EnclaveCore} : OnlyHart g c (c₁.setEnclave eid en) :=
  ⟨ho.table, ho.hart⟩

theorem OnlyHart.enterCall {test : EnclaveCore → Bool} {eid : Nat} :
    OnlyHart g c (c₁.enterCall g test eid) := by
  unfold Core.enterCall
  split
  · exact ho.setEnclave.setPmp.setPmp.setHart.setHart
  · exact ho.setHart

theorem OnlyHart.leaveCall : OnlyHart g c (c₁.leaveCall g) := by
  unfold Core.leaveCall
  dsimp only
  split
  · exact ho.setEnclave.setPmp.setPmp.setHart.setHart
  · exact ho.setHart

theorem OnlyHart.forward : OnlyHart g c (c₁.forward g) := ho.setPmp.setHart

theorem OnlyHart.osbiReturn {mode : Mode} : OnlyHart g c (c₁.osbiReturn g mode) := by
  unfold Core.osbiReturn
  dsimp only
  split
  · split
    · exact ho.setPmp.setPmp.setPmp.setHart
    · exact ho.setPmp.setHart
  · exact ho.setPmp.setHart.setHart

end

/-- What a hart that is not in S/U mode finds unchanged when it comes back. -/
structure Untouched (h : HartId) (c c' : Core) : Prop where
  table : c'.table = c.table
  hart : c'.hart h = c.hart h

theorem OnlyHart.untouched {c' : Core} (ho : OnlyHart g c c') (hne : g ≠ h) : Untouched h c c' :=
  ⟨ho.table, ho.hart h hne.symm⟩

/-- The hart on which an event takes place. -/
def hartOf : Event → Option HartId
  | .other => none
  | .create h _ | .destroy h _ | .run h _ | .resume h _ | .attest h _ _ | .sealing h _ | .leave h
  | .interrupt h | .forward h | .hang h | .osbiReturn h _ => some h

/-- An event that sends no updates is one of its hart alone. -/
theorem untouched_of_ne {ev : Event}
    (hipi : ∀ g args eid, ev ≠ .create g args ∧ ev ≠ .destroy g eid) (hne : hartOf ev ≠ some h) :
    Untouched h c (c.apply ev) := by
  have ho : ∀ g, OnlyHart g c c := fun _ => OnlyHart.refl
  have hg : ∀ {g : HartId}, hartOf ev = some g → g ≠ h := by
    rintro g hev rfl
    exact hne hev
  cases ev with
  | other => exact ⟨rfl, rfl⟩
  | create g args => exact absurd rfl (hipi g args 0).1
  | destroy g eid => exact absurd rfl (hipi g none eid).2
  | run g eid | resume g eid =>
    refine OnlyHart.untouched ?_ (hg rfl)
    simp only [Core.apply]
    split
    · exact ho g
    · exact (ho g).enterCall
  | attest g size copied =>
    refine OnlyHart.untouched ?_ (hg rfl)
    simp only [Core.apply, attestCall]
    repeat' split
    · exact ho g
    · exact ho g
    · exact (ho g).setPmp.setPmp
    · exact (ho g).setPmp
    · exact ho g
  | sealing g derived =>
    refine OnlyHart.untouched ?_ (hg rfl)
    simp only [Core.apply, sealingCall]
    repeat' split
    · exact (ho g).setPmp.setPmp.setPmp.setPmp
    · exact (ho g).setPmp.setPmp
    · exact ho g
  | leave g =>
    refine OnlyHart.untouched ?_ (hg rfl)
    simp only [Core.apply]
    split
    · exact (ho g).leaveCall
    · exact ho g
  | interrupt g =>
    refine OnlyHart.untouched ?_ (hg rfl)
    simp only [Core.apply]
    split
    · exact (ho g).leaveCall
    · exact (ho g).forward
  | forward g => exact (ho g).forward.untouched (hg rfl)
  | hang g => exact OnlyHart.untouched (ho g).setHart (hg rfl)
  | osbiReturn g mode => exact (ho g).osbiReturn.untouched (hg rfl)

/-- A hart that is not in S/U mode is untouched until it comes back: a step that does not need all
harts in S/U mode is one of another hart. -/
theorem untouched_apply {ev : Event} (hen : c.enabled ev = true) (hmode : (c.hart h).mode ≠ .su)
    (hback : ∀ mode, ev ≠ .osbiReturn h mode) : Untouched h c (c.apply ev) := by
  have hall : ¬ (List.finRange 4).all (fun g => (c.hart g).mode == .su) = true := fun hall =>
    hmode (by simpa using List.all_eq_true.mp hall h (List.mem_finRange h))
  refine untouched_of_ne (fun g args eid => ⟨?_, ?_⟩) fun hev => ?_
  · rintro rfl
    exact hall hen
  · rintro rfl
    exact hall hen
  · have hsu : ((c.hart h).mode == .su) = true → False := fun hsu => hmode (by simpa using hsu)
    cases ev with
    | other => cases hev
    | osbiReturn g mode =>
      obtain rfl : g = h := Option.some.inj hev
      exact hback mode rfl
    | create | destroy => exact hall hen
    | _ =>
      obtain rfl := Option.some.inj hev
      exact hsu hen

/-! ## The other harts -/

/-- A hart that another one interrupts runs the host, before and after. -/
structure Beside (h : HartId) (c c' : Core) : Prop where
  before : (c.hart h).isEnclave = false
  after : (c'.hart h).isEnclave = false
  mode : (c'.hart h).mode = (c.hart h).mode

theorem beside_createCall {d : Detail} (ha : AtMostOne d c) (hsu : ∀ g, (c.hart g).mode = .su)
    (hout : (c.hart g).isEnclave = false) (hne : h ≠ g) (args : Option CreateArgs) :
    (c.createCall g args).hart h = c.hart h ∨ ((c.hart h).isEnclave = false ∧
      ((c.createCall g args).hart h).isEnclave = false) := by
  have hpre := ha.osmPmpSet_twice hout (hsu g) (p := PMP_R ||| PMP_W)
  have hsame : Same c ((c.osmPmpSet g (PMP_R ||| PMP_W)).osmPmpSet g EPMP_SU_RWX) :=
    Same.refl.setPmp.setPmp
  have honly : OnlyHart g c ((c.osmPmpSet g (PMP_R ||| PMP_W)).osmPmpSet g EPMP_SU_RWX) :=
    OnlyHart.refl.setPmp.setPmp
  unfold Core.createCall
  dsimp only
  rw [rwx_eq]
  generalize (c.osmPmpSet g (PMP_R ||| PMP_W)).osmPmpSet g EPMP_SU_RWX = c1 at hpre hsame honly
  have hsu1 : ∀ g, (c1.hart g).mode = .su := fun g => (hsame g).1.trans (hsu g)
  have hh := honly.hart h hne
  cases args with
  | none => exact .inl hh
  | some a =>
    dsimp only
    have hlast : ∀ c2 : Core, (c2.osmPmpSet g EPMP_SU_RWX).hart h = c2.hart h :=
      fun c2 => OnlyHart.refl.setPmp.hart h hne
    rw [hlast]
    rcases hpre with hi | ⟨e, E, U, hl⟩
    · refine .inr ⟨by rw [← hh]; exact hi.outside h, ?_⟩
      exact (hi.tables.createEnclave hsu1 fun hno => absurd rfl hno).2 h
    · rw [hl.createEnclave]
      exact .inl hh

theorem beside_destroyCall {d : Detail} (ha : AtMostOne d c) (hsu : ∀ g, (c.hart g).mode = .su)
    (eid : Nat) : (c.destroyCall g eid).hart h = c.hart h ∨ ((c.hart h).isEnclave = false ∧
      ((c.destroyCall g eid).hart h).isEnclave = false) := by
  by_cases hok : (decide (eid < ENCL_MAX) && (c.enclaves eid).destroyable) = true
  · obtain ⟨-, hd⟩ := Bool.and_eq_true_iff.mp hok
    have hp : (c.enclaves eid).present = true := by
      unfold EnclaveCore.destroyable at hd
      exact (Bool.and_eq_true_iff.mp hd).1
    rcases ha with hi | ⟨e, E, U, hl⟩
    · simp [EnclaveCore.present, (hi.unused eid).state, EnclaveState.rank] at hp
    · obtain rfl := hl.eq_of_present hp
      exact .inr ⟨hl.outside (not_running_of_destroyable hd) h, (hl.destroy hsu hd).outside h⟩
  · unfold Core.destroyCall
    rw [if_neg hok]
    exact .inl rfl

/-- What an event on another hart does to hart `h`. -/
theorem beside_apply {d : Detail} (ha : AtMostOne d c) {ev : Event} (hen : c.enabled ev = true)
    (hne : hartOf ev ≠ some h) :
    (c.apply ev).hart h = c.hart h ∨ Beside h c (c.apply ev) := by
  by_cases hipi : ∀ g args eid, ev ≠ .create g args ∧ ev ≠ .destroy g eid
  · exact .inl (untouched_of_ne hipi hne).hart
  have hcall : ev.isCall = true := by
    cases ev with
    | create | destroy => rfl
    | _ => exact absurd (fun g args eid => ⟨nofun, nofun⟩) hipi
  have hsame := (same_apply (c := c) hcall h).1
  suffices hcase : (c.apply ev).hart h = c.hart h ∨ ((c.hart h).isEnclave = false ∧
      ((c.apply ev).hart h).isEnclave = false) from
    hcase.imp_right fun hout => ⟨hout.1, hout.2, hsame⟩
  have hall : ∀ {g : HartId}, hartOf ev = some g → g ≠ h := by
    rintro g hev rfl
    exact hne hev
  cases ev with
  | create g args =>
    have hsu : ∀ g, (c.hart g).mode = .su := by simpa [enabled] using hen
    simp only [Core.apply]
    split
    · exact .inl rfl
    · next hout => exact beside_createCall ha hsu (by simpa using hout) (hall rfl).symm args
  | destroy g eid =>
    have hsu : ∀ g, (c.hart g).mode = .su := by simpa [enabled] using hen
    simp only [Core.apply]
    split
    · exact .inl rfl
    · exact beside_destroyCall ha hsu eid
  | _ => exact absurd (fun g args eid => ⟨nofun, nofun⟩) hipi

/-! ## The registers of a hart that goes and comes back -/

/-- Registers that meet both conditions do so wherever the hart goes. -/
theorem regsOk_of_both {P Q : PmpRegs → Prop} {hc : HartCore} (hP : P hc.pmp)
    (hQ : Q (lockRegs hc.pmp)) : hc.RegsOk .strict P Q := by
  intro _
  cases hc.mode with
  | su => exact hP
  | osbi => exact ⟨rfl, hQ⟩
  | hung => trivial

theorem forward_eq : c.forward h =
    c.setHart h { c.hart h with pmp := cfgRegs UNLOCK_OSBI (c.hart h).pmp, mode := .osbi } := by
  simp [Core.forward, writePmpcfg0, Core.setPmp, setMode, cfgRegs]

/-- A hart in host context comes back. -/
theorem osbiReturn_host (hflag : (c.hart h).monEnclaveExecution = false) (mode : Mode) :
    ∃ mode', c.osbiReturn h mode = c.setHart h
      { c.hart h with pmp := lockRegs (c.hart h).pmp, mode := mode', suStarted := true } := by
  unfold Core.osbiReturn
  cases hst : (c.hart h).suStarted with
  | false => exact ⟨.su, by simp [writePmpcfg0, Core.setPmp, setMode, lockRegs, cfgRegs, hst]⟩
  | true =>
      exact ⟨mode, by simp [writePmpcfg0, Core.setPmp, setMode, lockRegs, cfgRegs, hflag, hst]⟩

/-- A hart inside an enclave comes back. -/
theorem osbiReturn_inside (hflag : (c.hart h).monEnclaveExecution = true)
    (hst : (c.hart h).suStarted = true) (mode : Mode) :
    c.osbiReturn h mode = c.setHart h
      { c.hart h with
        pmp := insidePmp c.table (c.enclaves (c.hart h).eid).regions (lockRegs (c.hart h).pmp)
        mode := mode } := by
  unfold Core.osbiReturn
  simp [writePmpcfg0, fixPermissions_eq, Core.setPmp, setMode, lockRegs, cfgRegs, hflag, hst]

/-- A hart that comes back keeps the records of what it runs. -/
theorem hart_osbiReturn (mode : Mode) : ∃ r mode', (c.osbiReturn h mode).hart h =
    { c.hart h with pmp := r, mode := mode', suStarted := true } := by
  cases hflag : (c.hart h).monEnclaveExecution with
  | false =>
    obtain ⟨mode', heq⟩ := osbiReturn_host hflag mode
    exact ⟨_, mode', by rw [heq, hart_setHart, if_pos rfl]⟩
  | true =>
    cases hst : (c.hart h).suStarted with
    | true =>
      refine ⟨insidePmp c.table (c.enclaves (c.hart h).eid).regions (lockRegs (c.hart h).pmp),
        mode, ?_⟩
      rw [osbiReturn_inside hflag hst, hart_setHart, if_pos rfl, ← hst]
    | false =>
      refine ⟨lockRegs (c.hart h).pmp, .su, ?_⟩
      simp [Core.osbiReturn, writePmpcfg0, Core.setPmp, setMode, lockRegs, cfgRegs, hst]

/-- The regions of the enclave are programmed again, whatever `LOCK_OSBI` made of their entries. -/
theorem view_insidePmp_lock {t : PmpTable} (hs : Slots t (some E) (some U)) (hE : EpmOk true E)
    {regions : Nat → EnclaveRegion} (hR : LiveRegions regions) {r : PmpRegs}
    (hlow : LowOk true (lockRegs r)) :
    View true E EPMP_SU_RWX U EPMP_SU_RWX (insidePmp t regions (lockRegs r)) := by
  have hbare := bare_of_lock hlow (hs.os_res PMP_NO_PERM _)
  rw [insidePmp, setRegions_live hR]
  exact (hbare.set_epm hE (hs.epm_res EPMP_SU_RWX _)).set_last hE (hs.utm U rfl).2.1
    (hs.utm_res EPMP_SU_RWX _)

/-! ## Steps with OpenSBI -/

/-- A hart that has never been in S/U mode is with OpenSBI. -/
def Started (c : Core) : Prop :=
  ∀ g, (c.hart g).suStarted = false → (c.hart g).mode = .osbi ∧ (c.hart g).isEnclave = false

theorem Idle.returning (hi : Idle .strict c) (hmode : (c.hart h).mode = .osbi) :
    Bare true EPMP_SU_RWX (lockRegs (c.hart h).pmp) := by
  have hregs := hi.regs h (by decide)
  rw [hmode] at hregs
  exact hregs.2

theorem Live.returning_host (hl : Live .strict e E U c) (hout : (c.hart h).isEnclave = false)
    (hmode : (c.hart h).mode = .osbi) :
    View true E PMP_NO_PERM osRegion EPMP_SU_RWX (lockRegs (c.hart h).pmp) := by
  have hserves := hl.serves h
  unfold HartCore.Serves at hserves
  rw [if_neg (by rw [hout]; decide)] at hserves
  have hregs := hserves (by decide)
  rw [hmode] at hregs
  exact hregs.2

theorem Live.returning_inside (hl : Live .strict e E U c) (hin : (c.hart h).isEnclave = true)
    (hmode : (c.hart h).mode = .osbi) : LowOk true (lockRegs (c.hart h).pmp) := by
  have hserves := hl.serves h
  unfold HartCore.Serves at hserves
  rw [if_pos hin] at hserves
  have hregs := hserves (by decide)
  rw [hmode] at hregs
  exact hregs.2

theorem serves_host_of {hc : HartCore} (hout : hc.isEnclave = false) (hE : EpmOk true E)
    (hv : View true E PMP_NO_PERM osRegion EPMP_SU_RWX hc.pmp) : hc.Serves .strict E U := by
  unfold HartCore.Serves
  rw [if_neg (by rw [hout]; decide)]
  exact regsOk_of_both hv (hv.relock hE)

theorem serves_inside_of {hc : HartCore} (hin : hc.isEnclave = true)
    (hv : View true E EPMP_SU_RWX U EPMP_SU_RWX hc.pmp) : hc.Serves .strict E U := by
  unfold HartCore.Serves
  rw [if_pos hin]
  refine regsOk_of_both ?_ hv.low.relock
  exact ⟨EPMP_SU_RWX, fun _ => rfl, hv⟩

theorem AtMostOne.forward (ha : AtMostOne .strict c) (hsu : (c.hart h).mode = .su) :
    AtMostOne .strict (c.forward h) := by
  rw [forward_eq]
  rcases ha with hi | ⟨e, E, U, hl⟩
  · refine Or.inl (hi.setHart (hi.outside h) fun hd => ⟨rfl, ?_⟩)
    rw [lockRegs_cfgRegs]
    exact (hi.bare hsu hd).relock
  · refine Or.inr ⟨e, E, U, hl.setHart rfl rfl ?_⟩
    unfold HartCore.Serves
    cases hin : (c.hart h).isEnclave with
    | false =>
      refine fun hd => ⟨rfl, ?_⟩
      rw [lockRegs_cfgRegs]
      exact (hl.host_view hin hsu hd).relock hl.epm
    | true =>
      refine fun hd => ⟨rfl, ?_⟩
      obtain ⟨p, _, hview⟩ := hl.inside_view hin hsu hd
      rw [lockRegs_cfgRegs]
      exact hview.low.relock

theorem AtMostOne.hang (ha : AtMostOne .strict c) : AtMostOne .strict (c.setMode h .hung) := by
  rcases ha with hi | ⟨e, E, U, hl⟩
  · exact Or.inl (hi.setHart (hi.outside h) fun _ => trivial)
  · refine Or.inr ⟨e, E, U, hl.setHart rfl rfl ?_⟩
    unfold HartCore.Serves
    split <;> exact fun _ => trivial

theorem AtMostOne.osbiReturn (ha : AtMostOne .strict c) (hagree : Agree c) (hst : Started c)
    (hmode : (c.hart h).mode = .osbi) {mode : Mode} : AtMostOne .strict (c.osbiReturn h mode) := by
  have hflag := hagree.flag h
  cases hin : (c.hart h).isEnclave with
  | false =>
    obtain ⟨mode', heq⟩ := osbiReturn_host (hflag.trans hin) mode
    rw [heq]
    rcases ha with hi | ⟨e, E, U, hl⟩
    · have hbare := hi.returning hmode
      exact Or.inl (hi.setHart hin (regsOk_of_both hbare hbare.relock))
    · exact Or.inr ⟨e, E, U, hl.setHart rfl rfl
        (serves_host_of hin hl.epm (hl.returning_host hin hmode))⟩
  | true =>
    have hstarted : (c.hart h).suStarted = true := by
      by_contra hno
      have hout := (hst h (by simpa using hno)).2
      rw [hin] at hout
      cases hout
    rw [osbiReturn_inside (hflag.trans hin) hstarted]
    rcases ha with hi | ⟨e, E, U, hl⟩
    · rw [hi.outside] at hin
      cases hin
    · refine Or.inr ⟨e, E, U, hl.setHart rfl rfl (serves_inside_of hin ?_)⟩
      rw [hl.eid_eq hin]
      exact view_insidePmp_lock hl.slots hl.epm hl.present.regions (hl.returning_inside hin hmode)

/-- Every step that survives a switch to OpenSBI leaves at most one enclave. -/
theorem AtMostOne.apply (ha : AtMostOne .strict c) (hagree : Agree c) (hst : Started c) {ev : Event}
    (hen : c.enabled ev = true) (hs : c.survives ev = true) : AtMostOne .strict (c.apply ev) := by
  cases hcall : ev.isCall with
  | true =>
    simp only [survives, Bool.and_eq_true, Bool.not_eq_true'] at hs
    exact ha.call hcall hen (fun _ => hs.1) fun _ => hs.2
  | false =>
    cases ev with
    | interrupt h =>
      have hsu : (c.hart h).mode = .su := by simpa [enabled] using hen
      simp only [Core.apply]
      split
      · next hflag => exact ha.leaveCall ((hagree.flag h).symm.trans hflag) hsu
      · exact ha.forward hsu
    | forward h => exact ha.forward (by simpa [enabled] using hen)
    | hang h => exact ha.hang
    | osbiReturn h mode => exact ha.osbiReturn hagree hst (by simpa [enabled] using hen)
    | _ => cases hcall

/-- A hart that has been in S/U mode stays one. -/
theorem suStarted_apply {ev : Event} (hst : (c.hart g).suStarted = true) :
    ((c.apply ev).hart g).suStarted = true := by
  have hforward : ∀ h, ((c.forward h).hart g).suStarted = true := by
    intro h
    rw [forward_eq]
    refine (hart_setHart_congr (·.suStarted) ?_ g).trans hst
    rfl
  cases hcall : ev.isCall with
  | true => rw [(same_apply hcall g).2, hst]
  | false =>
    cases ev with
    | interrupt h =>
      simp only [Core.apply]
      split
      · rw [(Same.refl.leaveCall g).2, hst]
      · exact hforward h
    | forward h => exact hforward h
    | hang h =>
      refine (hart_setHart_congr (·.suStarted) ?_ g).trans hst
      rfl
    | osbiReturn h mode =>
      by_cases hg : g = h
      · obtain ⟨r, mode', heq⟩ := hart_osbiReturn (c := c) (h := h) mode
        rw [hg, Core.apply, heq]
      · rw [Core.apply, (OnlyHart.refl.osbiReturn).hart g hg]
        exact hst
    | _ => cases hcall

theorem Started.apply (hst : Started c) {ev : Event} (hen : c.enabled ev = true) :
    Started (c.apply ev) := by
  intro g hno
  have hold : (c.hart g).suStarted = false := by
    by_contra hyes
    rw [suStarted_apply (by simpa using hyes)] at hno
    cases hno
  obtain ⟨hmode, hout⟩ := hst g hold
  have hne : (c.hart g).mode ≠ .su := by
    rw [hmode]
    decide
  by_cases hback : ∃ mode, ev = .osbiReturn g mode
  · obtain ⟨mode, rfl⟩ := hback
    obtain ⟨r, mode', heq⟩ := hart_osbiReturn (c := c) (h := g) mode
    rw [Core.apply, heq] at hno
    cases hno
  · have hun := untouched_apply hen hne fun mode heq => hback ⟨mode, heq⟩
    rw [hun.hart]
    exact ⟨hmode, hout⟩

/-- Only a trap that is handed on takes a hart from S/U mode to OpenSBI. -/
theorem forwarded_eq {ev : Event} (hsu : (c.hart h).mode = .su)
    (hfwd : ((c.step ev).hart h).mode = .osbi) : c.step ev = c.forward h := by
  have hstay : ∀ {c' : Core}, (c'.hart h).mode = (c.hart h).mode → (c'.hart h).mode ≠ .osbi := by
    intro c' heq
    rw [heq, hsu]
    decide
  have hforward : ∀ g, ((c.forward g).hart h).mode = .osbi → c.forward g = c.forward h := by
    intro g hg
    by_cases hne : h = g
    · rw [hne]
    · exact absurd hg (hstay (by rw [OnlyHart.refl.forward.hart h hne]))
  rw [Core.step] at hfwd ⊢
  split at hfwd
  · next hen =>
    rw [if_pos hen]
    cases hcall : ev.isCall with
    | true => exact absurd hfwd (hstay (same_apply hcall h).1)
    | false =>
      cases ev with
      | interrupt g =>
        simp only [Core.apply] at hfwd ⊢
        split at hfwd
        · exact absurd hfwd (hstay (Same.refl.leaveCall h).1)
        · next hflag =>
          rw [if_neg hflag]
          exact hforward g hfwd
      | forward g => exact hforward g hfwd
      | hang g =>
        simp only [Core.apply, setMode, hart_setHart] at hfwd
        split at hfwd
        · cases hfwd
        · exact absurd hfwd (hstay rfl)
      | osbiReturn g mode =>
        have hg : h ≠ g := by
          rintro rfl
          simp [enabled, hsu] at hen
        exact absurd hfwd (hstay (by rw [Core.apply, OnlyHart.refl.osbiReturn.hart h hg]))
      | _ => cases hcall
  · exact absurd hfwd (hstay rfl)

end Core

/-! ## Runs of the monitor -/

namespace Monitor

variable (C : Crypto) {m : Monitor}

/-- The registers of every hart survive a switch to OpenSBI. -/
structure Restorable (m : Monitor) : Prop where
  one : m.core.AtMostOne .strict
  agree : m.core.Agree
  started : m.core.Started

theorem restorable_handedOver (mem : Word → Byte) (keys : Keys) :
    (handedOver mem keys).Restorable := by
  refine ⟨Or.inl ⟨slots_boot, fun _ => ⟨rfl, rfl, fun _ _ => rfl⟩, fun _ => rfl, fun g => ?_⟩,
    ⟨⟨fun g hg => ?_, fun g g' hg => ?_, fun _ => rfl⟩, fun _ => rfl⟩, fun _ _ => ⟨rfl, rfl⟩⟩
  · have hregs : lockRegs handedHart.pmp = lockRegs bootHart.pmp := lockRegs_cfgRegs _ _
    refine fun _ => ⟨rfl, ?_⟩
    show Bare true EPMP_SU_RWX (lockRegs handedHart.pmp)
    rw [hregs]
    exact bare_boot.relock
  · cases hg
  · cases hg

theorem callEvent_attest {h : HartId} {regs : TrapRegs} {env : Env}
    (hf : regs.a6 = SBI_SM_ATTEST_ENCLAVE) :
    m.callEvent C h regs env =
      .attest h regs.a2 (copyToSm env regs.a1 regs.a2.toNat).isSome := by
  unfold callEvent
  rw [hf, if_neg (by decide), if_neg (by decide), if_neg (by decide),
    if_neg (by decide), if_pos rfl]

/-- The event of a call is cut short only if the call is. -/
theorem attestCut_event {i : Input} (hen : m.core.enabled (m.event C i) = true)
    (hi : m.attestCut i = false) : m.core.attestCut (m.event C i) = false := by
  cases i with
  | osbiReturn h regs => rfl
  | trap h t =>
    have hev : m.event C (.trap h t) = m.trapEvent C h t.mcause t.regs t.env := rfl
    rw [hev] at hen ⊢
    cases hk : t.isKeystone with
    | false =>
      have hcall := m.isCall_trapEvent C h hk
      cases hevent : m.trapEvent C h t.mcause t.regs t.env with
      | attest g size copied =>
        rw [hevent] at hcall
        cases hcall
      | _ => rfl
    | true =>
      rcases m.enabled_trapEvent h C t with hother | htrap
      · rw [hother]
        rfl
      rw [htrap] at hen
      rw [m.trapEvent_keystone C h hk]
      by_cases hf : t.regs.a6 = SBI_SM_ATTEST_ENCLAVE
      · rw [callEvent_attest C hf]
        simp only [attestCut, hen, hk, hf, beq_self_eq_true, Bool.true_and] at hi
        rw [Core.attestCut, Option.not_isSome]
        exact hi
      · unfold callEvent
        dsimp only
        rw [if_neg hf]
        repeat' split
        all_goals rfl

theorem restorable_step {i : Input} (hr : m.Restorable) (hacc : m.entryRefused i = false)
    (hcut : m.attestCut i = false) (htor : (m.step C i).table.hasTor = false) :
    (m.step C i).Restorable := by
  refine ⟨?_, m.agree_step C hr.agree hacc, ?_⟩
  · have htable : (m.step C i).core.table.hasTor = false := htor
    rw [step_core, Core.step] at htable ⊢
    split
    · next hen =>
      rw [if_pos hen] at htable
      refine hr.one.apply hr.agree hr.started hen ?_
      rw [Core.survives, htable, attestCut_event C hen hcut]
      rfl
    · exact hr.one
  · rw [step_core, Core.step]
    split
    · next hen => exact hr.started.apply hen
    · exact hr.started

/-- A step that stores nothing onto the variables. -/
theorem restorable_stepIn {L : Layout} {i : MemInput} (hr : m.Restorable) (hi : m.Repairable C L i)
    (htor : (m.stepIn C L i).table.hasTor = false) : (m.stepIn C L i).Restorable := by
  obtain ⟨-, hacc, hcut, hoff⟩ := hi
  obtain ⟨C', mem, -, heq⟩ := stepIn_off hoff
  rw [heq] at htor ⊢
  suffices hplain : (m.plainStep C' i).Restorable from ⟨hplain.one, hplain.agree, hplain.started⟩
  unfold plainStep at htor ⊢
  unfold entryRefusedIn at hacc
  unfold attestCutIn at hcut
  cases hj : i.input? with
  | none => exact hr
  | some j =>
    rw [hj] at hacc hcut htor
    exact restorable_step C' hr hacc hcut htor

/-- An event takes place on the hart of its input. -/
theorem hartOf_event {j : Input} {g : HartId} (hev : Core.hartOf (m.event C j) = some g) :
    ∀ {i : MemInput}, i.input? = some j → i.hart = g := by
  intro i hi
  cases i with
  | store h a b => cases hi
  | osbiReturn h regs =>
    obtain rfl := Option.some.inj hi
    exact Option.some.inj hev
  | trap h t info =>
    obtain rfl := Option.some.inj hi
    have hev : Core.hartOf (m.trapEvent C h t.mcause t.regs t.env) = some g := hev
    unfold trapEvent callEvent at hev
    dsimp only at hev
    split_ifs at hev <;> cases hev <;> rfl

/-- A trap is no return of OpenSBI. -/
theorem event_osbiReturn {i : Input} {h : HartId} {mode : Mode}
    (hev : m.event C i = .osbiReturn h mode) : ∃ frame, i = .osbiReturn h frame := by
  cases i with
  | osbiReturn g frame =>
    injection hev with hg
    exact ⟨frame, by rw [hg]⟩
  | trap g t =>
    have hcall := m.isCall_callEvent g t.regs C t.env
    have hev : m.trapEvent C g t.mcause t.regs t.env = .osbiReturn h mode := hev
    unfold trapEvent at hev
    split at hev
    · split at hev <;> cases hev
    · split at hev
      · split at hev
        · rw [hev] at hcall
          cases hcall
        · cases hev
      · cases hev

theorem untouched_step {h : HartId} {i : Input} (hmode : (m.core.hart h).mode = .osbi)
    (hback : ∀ frame, i ≠ .osbiReturn h frame) : Core.Untouched h m.core (m.step C i).core := by
  have hne : (m.core.hart h).mode ≠ .su := by
    rw [hmode]
    decide
  rw [step_core, Core.step]
  split
  · next hen =>
    refine Core.untouched_apply hen hne fun mode heq => ?_
    obtain ⟨frame, rfl⟩ := event_osbiReturn C heq
    exact hback frame rfl
  · exact ⟨rfl, rfl⟩

theorem untouched_stepIn {L : Layout} {h : HartId} {i : MemInput} (hoff : m.KeepsOff C L i)
    (hmode : (m.core.hart h).mode = .osbi) (hback : ∀ frame, i ≠ .osbiReturn h frame) :
    Core.Untouched h m.core (m.stepIn C L i).core := by
  refine stepIn_keeps (P := fun m' => Core.Untouched h m.core m'.core) (fun _ hu => hu) hoff
    ⟨rfl, rfl⟩ fun C' j _ hj => ?_
  refine untouched_step C' hmode ?_
  rintro frame rfl
  cases i with
  | osbiReturn g regs =>
    obtain ⟨rfl, rfl⟩ : g = h ∧ regs = frame := by simpa [MemInput.input?] using hj
    exact hback regs rfl
  | _ => cases hj

/-- A hart is untouched while it is away. -/
theorem untouched_run {L : Layout} {h : HartId} : ∀ (js : List MemInput) {m : Monitor},
    StepsOk (stepIn C L) (KeepsOff C L) m js → (m.core.hart h).mode = .osbi →
      (∀ frame, MemInput.osbiReturn h frame ∉ js) →
        Core.Untouched h m.core (run (stepIn C L) m js).core := by
  intro js
  induction js with
  | nil => intro m _ _ _; exact ⟨rfl, rfl⟩
  | cons i js ih =>
    intro m hoff hmode haway
    have hfirst := untouched_stepIn C hoff.1 hmode
      fun frame heq => haway frame (heq ▸ List.mem_cons_self)
    have hrest := ih (m := m.stepIn C L i) hoff.2 (by rw [hfirst.hart]; exact hmode)
      fun frame hmem => haway frame (List.mem_cons_of_mem _ hmem)
    exact ⟨hrest.table.trans hfirst.table, hrest.hart.trans hfirst.hart⟩

/-- A hart that comes back finds its record of what it runs and the region table as they were, and
in host context only `pmpcfg0` has been written. -/
structure BackRes (h : HartId) (c c' : Core) : Prop where
  table : c'.table = c.table
  inside : (c'.hart h).isEnclave = (c.hart h).isEnclave
  regs : (c.hart h).monEnclaveExecution = false → (c'.hart h).pmp = lockRegs (c.hart h).pmp

theorem backRes_osbiReturn {c : Core} {h : HartId} {mode : Mode} :
    BackRes h c (c.osbiReturn h mode) := by
  refine ⟨Core.OnlyHart.refl.osbiReturn.table, ?_, fun hflag => ?_⟩
  · obtain ⟨r, mode', heq⟩ := Core.hart_osbiReturn (c := c) (h := h) mode
    rw [heq]
  · obtain ⟨mode', heq⟩ := Core.osbiReturn_host hflag mode
    rw [heq, Core.hart_setHart, if_pos rfl]

theorem backRes_roundTrip {L : Layout} {h : HartId} {t : Trap} {info : Word} {js : List MemInput}
    {regs : TrapRegs} (htrip : RoundTrip C L m h t info js regs)
    (hoff : StepsOk (stepIn C L)
      (KeepsOff C L) m (.trap h t info :: (js ++ [.osbiReturn h regs]))) :
    BackRes h m.core
      (run (stepIn C L) m (.trap h t info :: (js ++ [.osbiReturn h regs]))).core := by
  obtain ⟨hofft, hoffjs, hoffr, -⟩ := And.imp_right (StepsOk.of_append js) hoff
  have hfwd : (m.stepIn C L (.trap h t info)).core = m.core.forward h := by
    have hmode : ((m.stepIn C L (.trap h t info)).core.hart h).mode = .osbi := htrip.forwarded
    obtain ⟨C', mem, -, heq⟩ := stepIn_off hofft
    have hcore : (m.stepIn C L (.trap h t info)).core = m.core.step (m.event C' (.trap h t)) := by
      rw [heq, ← step_core]
      rfl
    rw [hcore] at hmode ⊢
    exact Core.forwarded_eq htrip.taken hmode
  have haway := untouched_run C js hoffjs htrip.forwarded htrip.away
  rw [run_cons, run_append, run_cons, run_nil]
  generalize run (stepIn C L) (m.stepIn C L (.trap h t info)) js = m2 at haway hoffr
  rw [hfwd] at haway
  have hhart : m2.core.hart h = { m.core.hart h with
      pmp := cfgRegs UNLOCK_OSBI (m.core.hart h).pmp, mode := .osbi } := by
    rw [haway.hart, Core.forward_eq, Core.hart_setHart, if_pos rfl]
  have hback : (m2.stepIn C L (.osbiReturn h regs)).core =
      m2.core.osbiReturn h (returnMode (m2.hart h).temporaryInfo.cause) := by
    obtain ⟨C', mem, -, heq⟩ := stepIn_off hoffr
    have hcore : (m2.stepIn C L (.osbiReturn h regs)).core =
        m2.core.step (m2.event C' (.osbiReturn h regs)) := by
      rw [heq, ← step_core]
      rfl
    rw [hcore, Core.step, if_pos]
    · rfl
    · show ((m2.core.hart h).mode == .osbi) = true
      rw [hhart]
      rfl
  have hres : BackRes h m2.core
      (m2.core.osbiReturn h (returnMode (m2.hart h).temporaryInfo.cause)) := backRes_osbiReturn
  rw [hback]
  refine ⟨hres.table.trans ?_, hres.inside.trans ?_, fun hflag => (hres.regs ?_).trans ?_⟩
  · rw [haway.table, Core.forward_eq]
    rfl
  · rw [hhart]
  · rw [hhart]
    exact hflag
  · rw [hhart]
    exact lockRegs_cfgRegs _ _

/-- Between two states with the same region table in which hart `h` runs the same, its memory is the
same, if one of them is a state with an enclave. -/
theorem suPerm_of_live {m' : Monitor} {e : Nat} {E U : PmpRegion} {h : HartId}
    (hl : m.core.Live .strict e E U) (hr : m'.Restorable) (hsu : (m.core.hart h).mode = .su)
    (hsu' : (m'.core.hart h).mode = .su) (htable : m'.core.table = m.core.table)
    (hin : (m'.core.hart h).isEnclave = (m.core.hart h).isEnclave) (a : Nat) :
    suPerm (m'.core.hart h).pmp a = suPerm (m.core.hart h).pmp a := by
  obtain ⟨e', E', U', hl'⟩ : ∃ e' E' U', m'.core.Live .strict e' E' U' := by
    rcases hr.one with hi | hlive
    · have hv := (hl.slots.valid 6).mpr (Or.inr (Or.inl ⟨rfl, rfl⟩))
      rw [← htable, hi.slots.valid] at hv
      simp at hv
    · exact hlive
  have hE : E' = E := by
    rw [← (hl.slots.epm E rfl).1, ← (hl'.slots.epm E' rfl).1, htable]
  have hU : U' = U := by
    rw [← (hl.slots.utm U rfl).1, ← (hl'.slots.utm U' rfl).1, htable]
  subst hE hU
  cases hinside : (m.core.hart h).isEnclave with
  | false =>
    exact (hl.host_view hinside hsu (by decide)).suPerm_eq
      (hl'.host_view (hin.trans hinside) hsu' (by decide)) hl.epm
      lastOk_osRegion a
  | true =>
    obtain ⟨p, hp, hview⟩ := hl.inside_view hinside hsu (by decide)
    obtain ⟨p', hp', hview'⟩ := hl'.inside_view (hin.trans hinside) hsu' (by decide)
    rw [hp rfl] at hview
    rw [hp' rfl] at hview'
    exact hview.suPerm_eq hview' hl.epm hl.lastOk a

/-- The registers of a hart in host context. -/
theorem Restorable.host_regs (hr : m.Restorable) {g : HartId}
    (hout : (m.core.hart g).isEnclave = false) (hsu : (m.core.hart g).mode = .su) :
    LowOk true (m.core.hart g).pmp ∧
      Installed osRegion EPMP_SU_RWX (m.core.hart g).pmp := by
  rcases hr.one with hi | ⟨e, E, U, hl⟩
  · have hbare := hi.bare hsu (by decide)
    exact ⟨hbare.low, hbare.last⟩
  · have hview := hl.host_view hout hsu (by decide)
    exact ⟨hview.low, hview.last⟩

theorem keepsBeside {L : Layout} {i : MemInput} (hr : m.Restorable) (hi : m.Repairable C L i) :
    m.KeepsBeside C L i := by
  intro htor g hne hsu a hepm
  have hr' := restorable_stepIn C hr hi htor
  obtain ⟨C', mem, -, heq⟩ := stepIn_off hi.2.2.2
  have hcase : (m.stepIn C L i).core.hart g = m.core.hart g ∨
      Core.Beside g m.core (m.stepIn C L i).core := by
    have hcore : (m.stepIn C L i).core = (m.plainStep C' i).core := by rw [heq]; rfl
    rw [hcore]
    unfold plainStep
    cases hj : i.input? with
    | none => exact .inl rfl
    | some j =>
      dsimp only
      rw [step_core, Core.step]
      split
      · next hen => exact Core.beside_apply hr.one hen fun hev => hne (hartOf_event C' hev hj)
      · exact .inl rfl
  rcases hcase with hsame | hout
  · have hpmp : ((m.stepIn C L i).hart g).pmp = (m.hart g).pmp := congrArg HartCore.pmp hsame
    rw [hpmp]
  · obtain ⟨hlow, hos⟩ := hr.host_regs hout.before hsu
    obtain ⟨hlow', hos'⟩ := hr'.host_regs hout.after (hout.mode.trans hsu)
    exact hlow.suPerm_eq hlow' hos hos' hepm

/-- A trap that is handed on to OpenSBI leaves the hart the memory it had, and so do the interrupts
with which another hart updates the entries of EPMs, but for the bytes of those entries. -/
theorem forwarding_keeps_view (L : Layout) (mem : Word → Byte) (keys : Keys) (is js : List MemInput)
    (h : HartId) (t : Trap) (info : Word) (regs : TrapRegs)
    (hok : StepsOk (stepIn C L) (Repairable C L) (handedOver mem keys)
      (is ++ .trap h t info :: (js ++ [.osbiReturn h regs])))
    (htrip : RoundTrip C L (run (stepIn C L) (handedOver mem keys) is) h t info js regs) :
    (∀ a, suPerm ((run (stepIn C L) (handedOver mem keys)
        (is ++ .trap h t info :: (js ++ [.osbiReturn h regs]))).hart h).pmp a =
      suPerm ((run (stepIn C L) (handedOver mem keys) is).hart h).pmp a) ∧
      StepsOk (stepIn C L) (KeepsBeside C L) (handedOver mem keys)
        (is ++ .trap h t info :: (js ++ [.osbiReturn h regs])) := by
  have hstep : ∀ m i, (m.table.hasTor = false → Restorable m) → Repairable C L m i →
      ((stepIn C L m i).table.hasTor = false → Restorable (stepIn C L m i)) :=
    fun m i hr hi => restorable_stepIn C (hr hi.1) hi
  have hstart : (handedOver mem keys).table.hasTor = false → (handedOver mem keys).Restorable :=
    fun _ => restorable_handedOver mem keys
  refine ⟨fun a => ?_,
    stepsOk_of_inv hstep (fun m i hr hi => keepsBeside C (hr hi.1) hi) _ hstart hok⟩
  have hlast := inv_run hstep _ hstart hok
  obtain ⟨hokis, hoktrip⟩ := hok.of_append is
  have hfirst := inv_run hstep is hstart hokis hoktrip.1.1
  rw [run_append] at hlast ⊢
  have htor := hoktrip.1.1
  generalize run (stepIn C L) (handedOver mem keys) is = m at htrip hlast hfirst htor hoktrip
  have hback := backRes_roundTrip C htrip (hoktrip.imp fun _ _ hi => hi.2.2.2)
  replace hlast := hlast ((congrArg PmpTable.hasTor hback.table).trans htor)
  rcases hfirst.one with hi | ⟨e, E, U, hl⟩
  · have hflag : (m.core.hart h).monEnclaveExecution = false :=
      (hfirst.agree.flag h).trans (hi.outside h)
    have hpmp : ((run (stepIn C L) m _).hart h).pmp = lockRegs (m.hart h).pmp := hback.regs hflag
    rw [hpmp]
    exact (hi.bare htrip.taken (by decide)).suPerm_relock a
  · exact suPerm_of_live hl hlast htrip.taken htrip.resumed hback.table hback.inside a

/-! Runs with one enclave, whose EPM is at `0x90000000`. -/

/-- The first entry of each hart into S-mode, and a create call of hart 0 for an EPM
of this size. -/
def createdRun (epmSize : Word) : List Input :=
  [.osbiReturn 0 TrapRegs.zero, .osbiReturn 1 TrapRegs.zero, .osbiReturn 2 TrapRegs.zero,
    .osbiReturn 3 TrapRegs.zero, .trap 0 (createTrap epmSize)]

/-- A trap with this cause. -/
def causeTrap (mcause : Word) : Trap := ⟨mcause, 0, TrapRegs.zero, Csrs.zero, 0, faultEnv⟩

/-- The input, with the array `info` at `0x80130000`. -/
def atInfo : Input → MemInput
  | .trap h t => .trap h t 0x80130000
  | .osbiReturn h regs => .osbiReturn h regs

/-- An EPM of three pages is lost from the registers: a timer interrupt of the host opens it. -/
theorem timer_interrupt_opens_tor_epm :
    let start := handedOver (fun _ => 0) noKeys
    let timer := causeTrap ((1 <<< 63) ||| IRQ_M_TIMER)
    let before := run (stepIn noCrypto dataLayout) start ((createdRun 0x3000).map atInfo)
    let after := run (stepIn noCrypto dataLayout) before
      [.trap 0 timer 0x80130000, .osbiReturn 0 TrapRegs.zero]
    RoundTrip noCrypto dataLayout before 0 timer 0x80130000 [] TrapRegs.zero ∧
      (before.enclaves 0).state = .fresh ∧
      suPerm (before.hart 0).pmp 0x90000100 = Perm.none ∧
      suPerm (after.hart 0).pmp 0x90000100 = Perm.rwx := by
  refine ⟨⟨by decide +kernel, by decide +kernel, fun _ => List.not_mem_nil, by decide +kernel⟩,
    by decide +kernel, by decide +kernel, by decide +kernel⟩

/-- The EPM has four pages, and hart 0 is inside the enclave. -/
def insideRun : List MemInput :=
  (createdRun 0x4000 ++ [Input.trap 0 (callTrap SBI_SM_RUN_ENCLAVE 0 faultEnv)]).map atInfo

/-- An illegal instruction inside the enclave, while hart 1 takes an interrupt. -/
theorem forwarding_keeps_enclave_view :
    let start := handedOver (fun _ => 0) noKeys
    let before := run (stepIn noCrypto dataLayout) start insideRun
    let is := insideRun ++ .trap 0 (causeTrap CAUSE_ILLEGAL_INSTRUCTION) 0x80130000 ::
      ([.trap 1 (causeTrap ((1 <<< 63) ||| IRQ_M_TIMER)) 0x80130000] ++
        [.osbiReturn 0 TrapRegs.zero])
    (before.hart 0).isEnclave = true ∧ (∀ a,
      suPerm ((run (stepIn noCrypto dataLayout) start is).hart 0).pmp a =
        suPerm (before.hart 0).pmp a) ∧
      StepsOk (stepIn noCrypto dataLayout) (KeepsBeside noCrypto dataLayout) start is := by
  refine ⟨by decide +kernel, forwarding_keeps_view noCrypto dataLayout _ _ _ _ _ _ _ _ ?_ ?_⟩
  · decide +kernel
  · refine ⟨by decide +kernel, by decide +kernel, fun frame hmem => ?_, by decide +kernel⟩
    rw [List.mem_singleton] at hmem
    cases hmem

end Monitor

end Dorami.Sm
