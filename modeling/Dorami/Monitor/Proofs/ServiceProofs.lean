import Dorami.Monitor.Proofs.ContinuityProofs
import Dorami.Monitor.Proofs.SteadyProofs
import Dorami.Sm.Service
import Mathlib.Data.List.Induction

/-!
# What the services of an enclave leave behind

A service opens the regions of the enclave for the monitor and then sets them to RWX again. If they
were RWX before, that brings back every PMP register, whatever else the registers hold. The
attestation that cannot read its data returns without the second step.
-/

namespace Dorami.Sm

open Riscv Lib
open Monitor (LiveEntry)

/-! ## Setting the regions of an enclave twice -/

section Restore

variable {t : PmpTable} {regions : Nat → EnclaveRegion} {r r₁ r₂ : PmpRegs} {p : Byte}

/-- The step of `setRegions` for one entry. -/
def setEntry (t : PmpTable) (regions : Nat → EnclaveRegion) (p : Byte) (r : PmpRegs) (i : Nat) :
    PmpRegs :=
  if (regions i).type ≠ .invalid then (pmpSetKeystone t r (regions i).pmpRid p).1 else r

theorem setRegions_eq : setRegions t regions p r =
    (List.range ENCLAVE_REGIONS_MAX).foldl (setEntry t regions p) r := rfl

theorem setEntry_res (hk : t.Kept) {i : Nat} (hl : LiveEntry t regions i) :
    SetRes (t.regions (regions i).pmpRid) p r (setEntry t regions p r i) := by
  unfold setEntry
  rw [if_pos hl.1]
  exact pmpSetKeystone_res hl.2 (hk.encodable hl.2).idx p

theorem setEntry_dead {i : Nat} (hl : ¬ LiveEntry t regions i) : setEntry t regions p r i = r := by
  unfold setEntry
  split
  · next hty =>
    have hv : t.isPmpRegionValid (regions i).pmpRid = false := by
      by_contra hv
      exact hl ⟨hty, by simpa using hv⟩
    unfold pmpSetKeystone
    rw [hv]
    rfl
  · rfl

/-- `r'` differs from `r` at the registers in `occ` at most. -/
structure AgreeOff (occ : Nat → Prop) (r r' : PmpRegs) : Prop where
  cfg : ∀ n < 8, ¬ occ n → cfgByte (r'.pmpcfg 0) n = cfgByte (r.pmpcfg 0) n
  addr : ∀ n, ¬ occ n → r'.pmpaddr n = r.pmpaddr n
  other : ∀ g, g ≠ 0 → r'.pmpcfg g = r.pmpcfg g

theorem AgreeOff.eq (ha : AgreeOff (fun _ => False) r r₁) : r₁ = r := by
  have hcfg : r₁.pmpcfg = r.pmpcfg := by
    funext g
    by_cases hg : g = 0
    · subst hg
      exact cfgByte_ext fun n hn => ha.cfg n hn id
    · exact ha.other g hg
  have haddr : r₁.pmpaddr = r.pmpaddr := funext fun n => ha.addr n id
  cases r₁
  cases r
  cases hcfg
  cases haddr
  rfl

/-- Some entry of the list has its region at register `n`. -/
def Touches (t : PmpTable) (regions : Nat → EnclaveRegion) (is : List Nat) (n : Nat) : Prop :=
  ∃ i ∈ is, LiveEntry t regions i ∧ (t.regions (regions i).pmpRid).Occupies n

/-- One pass over a list of entries leaves the registers of other regions alone. -/
theorem agreeOff_fold (hk : t.Kept) (is : List Nat) {occ : Nat → Prop} (ha : AgreeOff occ r r₁)
    (hocc : ∀ n, Touches t regions is n → occ n) :
    AgreeOff occ r (is.foldl (setEntry t regions p) r₁) := by
  induction is generalizing r₁ with
  | nil => exact ha
  | cons i is ih =>
    refine ih ?_ fun n ⟨j, hj, hl⟩ => hocc n ⟨j, List.mem_cons_of_mem i hj, hl⟩
    by_cases hl : LiveEntry t regions i
    · have hf := (setEntry_res (p := p) (r := r₁) hk hl).frame
      have hno : ∀ n, ¬ occ n → ¬ (t.regions (regions i).pmpRid).Occupies n :=
        fun n hn ho => hn (hocc n ⟨i, List.mem_cons_self, hl, ho⟩)
      exact ⟨fun n hn h => (hf.cfg n hn (hno n h)).trans (ha.cfg n hn h),
        fun n h => (hf.addr n (hno n h)).trans (ha.addr n h),
        fun g hg => (hf.other g hg).trans (ha.other g hg)⟩
    · rw [setEntry_dead hl]
      exact ha

/-- Two settings of the registers with the same region installed agree at its registers. -/
theorem Installed.agree {R : PmpRegion} (h : Installed R p r) (h₁ : Installed R p r₁) {n : Nat}
    (hocc : R.Occupies n) :
    cfgByte (r₁.pmpcfg 0) n = cfgByte (r.pmpcfg 0) n ∧ r₁.pmpaddr n = r.pmpaddr n := by
  rcases hocc with rfl | ⟨h2, rfl⟩
  · exact ⟨h₁.cfg.trans h.cfg.symm, h₁.addr.trans h.addr.symm⟩
  · exact ⟨(h₁.low h2).1.trans (h.low h2).1.symm, (h₁.low h2).2.trans (h.low h2).2.symm⟩

/-- Entries that were installed in `r` are brought back: what remains different is at the registers
of the entries still to come, and in the end nothing. -/
theorem fold_restores (hk : t.Kept) (is : List Nat)
    (hin : ∀ i ∈ is, LiveEntry t regions i → Installed (t.regions (regions i).pmpRid) p r)
    (ha : AgreeOff (Touches t regions is) r r₁) : is.foldl (setEntry t regions p) r₁ = r := by
  induction is generalizing r₁ with
  | nil =>
    refine AgreeOff.eq ⟨fun n hn _ => ha.cfg n hn ?_, fun n _ => ha.addr n ?_, ha.other⟩
    all_goals
      rintro ⟨i, hi, -⟩
      exact absurd hi List.not_mem_nil
  | cons i is ih =>
    refine ih (fun j hj => hin j (List.mem_cons_of_mem i hj)) ?_
    by_cases hl : LiveEntry t regions i
    · obtain ⟨hset, hf⟩ := setEntry_res (p := p) (r := r₁) hk hl
      have hagree := fun n => (hin i List.mem_cons_self hl).agree hset (n := n)
      have hno : ∀ n, ¬ Touches t regions is n → ¬ (t.regions (regions i).pmpRid).Occupies n →
          ¬ Touches t regions (i :: is) n := by
        rintro n hn ho ⟨j, hj, hlj⟩
        rcases List.mem_cons.mp hj with rfl | hj
        · exact ho hlj.2
        · exact hn ⟨j, hj, hlj⟩
      refine ⟨fun n hn8 hn => ?_, fun n hn => ?_, fun g hg => (hf.other g hg).trans (ha.other g hg)⟩
      · by_cases ho : (t.regions (regions i).pmpRid).Occupies n
        · exact (hagree n ho).1
        · exact (hf.cfg n hn8 ho).trans (ha.cfg n hn8 (hno n hn ho))
      · by_cases ho : (t.regions (regions i).pmpRid).Occupies n
        · exact (hagree n ho).2
        · exact (hf.addr n ho).trans (ha.addr n (hno n hn ho))
    · rw [setEntry_dead hl]
      have hno : ∀ n, ¬ Touches t regions is n → ¬ Touches t regions (i :: is) n := by
        rintro n hn ⟨j, hj, hlj⟩
        rcases List.mem_cons.mp hj with rfl | hj
        · exact hl hlj.1
        · exact hn ⟨j, hj, hlj⟩
      exact ⟨fun n hn8 hn => ha.cfg n hn8 (hno n hn), fun n hn => ha.addr n (hno n hn), ha.other⟩

/-- Opening the regions of an enclave for another permission and setting them back. -/
theorem setRegions_restores (hk : t.Kept) (q : Byte)
    (hin : ∀ i < ENCLAVE_REGIONS_MAX, LiveEntry t regions i →
      Installed (t.regions (regions i).pmpRid) p r) :
    setRegions t regions p (setRegions t regions q r) = r := by
  rw [setRegions_eq, setRegions_eq]
  refine fold_restores hk _ (fun i hi => hin i (List.mem_range.mp hi)) ?_
  exact agreeOff_fold hk _ ⟨fun _ _ _ => rfl, fun _ _ => rfl, fun _ _ => rfl⟩ fun _ => id

/-- The last entry a pass has programmed is installed. -/
theorem fold_installed (hk : t.Kept) (is : List Nat) (hex : ∃ i ∈ is, LiveEntry t regions i) :
    ∃ i ∈ is, LiveEntry t regions i ∧
      Installed (t.regions (regions i).pmpRid) p (is.foldl (setEntry t regions p) r) := by
  induction is using List.reverseRecOn with
  | nil =>
    obtain ⟨i, hi, -⟩ := hex
    exact absurd hi List.not_mem_nil
  | append_singleton is i ih =>
    rw [List.foldl_append, List.foldl_cons, List.foldl_nil]
    by_cases hl : LiveEntry t regions i
    · exact ⟨i, by simp, hl, (setEntry_res hk hl).installed⟩
    · rw [setEntry_dead hl]
      obtain ⟨j, hj, hlj⟩ := hex
      have hmem : j ∈ is := by
        rcases List.mem_append.mp hj with hj | hj
        · exact hj
        · rw [List.mem_singleton.mp hj] at hlj
          exact absurd hlj hl
      obtain ⟨k, hk', hres⟩ := ih ⟨j, hmem, hlj⟩
      exact ⟨k, List.mem_append_left _ hk', hres⟩

/-- A pass with a permission that does not execute changes regions that were RWX. -/
theorem setRegions_ne (hk : t.Kept)
    (hin : ∀ i < ENCLAVE_REGIONS_MAX, LiveEntry t regions i →
      Installed (t.regions (regions i).pmpRid) EPMP_SU_RWX r)
    (hex : ∃ i < ENCLAVE_REGIONS_MAX, LiveEntry t regions i) :
    setRegions t regions EPMP_ALL_RW r ≠ r := by
  intro heq
  obtain ⟨i, hi, hl⟩ := hex
  obtain ⟨j, hj, hlj, hinst⟩ := fold_installed (p := EPMP_ALL_RW) (r := r) hk
    (List.range ENCLAVE_REGIONS_MAX) ⟨i, List.mem_range.mpr hi, hl⟩
  rw [← setRegions_eq, heq] at hinst
  have hbyte := hinst.cfg.symm.trans (hin j (List.mem_range.mp hj) hlj).cfg
  rcases (hk.encodable hlj.2).mode with ⟨hm, -⟩ | ⟨hm, -⟩
  · rw [hm] at hbyte
    exact absurd hbyte (by decide)
  · rw [hm] at hbyte
    exact absurd hbyte (by decide)

end Restore

/-! ## The lock -/

section Lock

variable (C : Crypto) (L : Layout) (m : Monitor) (h : HartId) (env : Env)

/-- With the lock free, `attest_enclave` does what it does without the lock, and leaves it free. -/
theorem locked_attestEnclave (reportPtr data size : Word) (eid : Nat) :
    Locked.attestEnclave C L ⟨m, false⟩ h env reportPtr data size eid =
      some (⟨(m.attestEnclaveIn C L h env reportPtr data size eid).1, false⟩,
        (m.attestEnclaveIn C L h env reportPtr data size eid).2) := by
  unfold Locked.attestEnclave Monitor.attestEnclaveIn
  by_cases hsize : size > ATTEST_DATA_MAXLEN
  · rw [if_pos hsize, if_pos hsize]
  · rw [if_neg hsize, if_neg hsize]
    simp only [Locked.spinLock, Locked.spinUnlock, Bool.false_eq_true, if_false,
      Option.bind_eq_bind, Option.bind_some, Option.pure_def]
    by_cases hatt : (!(decide (eid < ENCL_MAX) && (m.enclaves eid).attestable)) = true
    · rw [if_pos hatt, if_pos hatt]
    · rw [if_neg hatt, if_neg hatt]
      cases copyToSm env data size.toNat with
      | none => rfl
      | some bytes =>
        simp only [Bool.not_eq_true']
        split
        · next hok => rw [if_neg (by rw [hok]; decide)]
        · next hok => rw [if_pos (by simpa using hok)]

theorem locked_service (info : Word) (call : ServiceCall) :
    Locked.service C L ⟨m, false⟩ h env info call =
      some (⟨(m.serviceIn C L h env info call).1, false⟩, (m.serviceIn C L h env info call).2) := by
  cases call with
  | attest reportPtr data size => exact locked_attestEnclave C L m h env reportPtr data size _
  | sealingKey sealingKey keyIdent size => rfl

end Lock

namespace Monitor

section Services

variable (C : Crypto) {m : Monitor} {h : HartId} {env : Env}

theorem pmp_pmpSetRegions (eid : Nat) (p : Byte) :
    ((m.pmpSetRegions h eid p).hart h).pmp =
      setRegions m.table (m.enclaves eid).regions p (m.hart h).pmp := by
  simp [pmpSetRegions, setPmp, setHart]

/-- The registers after the pass that opens the regions and the pass that sets them back. -/
theorem pmp_passes (hrestore : setRegions m.table (m.enclaves (m.hart h).eid).regions EPMP_SU_RWX
      (setRegions m.table (m.enclaves (m.hart h).eid).regions EPMP_ALL_RW (m.hart h).pmp) =
        (m.hart h).pmp) {m₁ m₂ : Monitor} (ht : m₁.table = m.table) (he : m₁.enclaves = m.enclaves)
    (hp : (m₁.hart h).pmp = (m.hart h).pmp) (ht₂ : m₂.table = m.table)
    (he₂ : m₂.enclaves = m.enclaves)
    (hp₂ : m₂.hart h = (m₁.pmpSetRegions h (m.hart h).eid EPMP_ALL_RW).hart h) :
    ((m₂.pmpSetRegions h (m.hart h).eid EPMP_SU_RWX).hart h).pmp = (m.hart h).pmp := by
  rw [pmp_pmpSetRegions, ht₂, he₂, hp₂, pmp_pmpSetRegions, ht, he, hp, hrestore]

/-- An attestation that cannot read its data leaves the regions as it has opened them. -/
theorem service_unreadable {call : ServiceCall} (hdata : m.dataUnreadable h env call = true) :
    (m.service C h env call).1 = m.pmpSetRegions h (m.hart h).eid EPMP_ALL_RW := by
  cases call with
  | attest reportPtr data size =>
    simp only [dataUnreadable, Bool.and_eq_true, decide_eq_true_eq, Option.isNone_iff_eq_none]
      at hdata
    obtain ⟨⟨⟨hsize, heid⟩, hatt⟩, hcopy⟩ := hdata
    unfold service attestEnclave
    dsimp only
    rw [if_neg (BitVec.not_lt.mpr hsize), if_neg (by simp [heid, hatt]), hcopy]
  | sealingKey sealingKey keyIdent size => cases hdata

/-- Every other service sets the regions back before it returns. -/
theorem pmp_service (hrestore : setRegions m.table (m.enclaves (m.hart h).eid).regions EPMP_SU_RWX
      (setRegions m.table (m.enclaves (m.hart h).eid).regions EPMP_ALL_RW (m.hart h).pmp) =
        (m.hart h).pmp) {call : ServiceCall} (hdata : m.dataUnreadable h env call = false) :
    ((m.service C h env call).1.hart h).pmp = (m.hart h).pmp := by
  have hpasses := @pmp_passes m h hrestore
  cases call with
  | attest reportPtr data size =>
    unfold service attestEnclave
    dsimp only
    split
    · rfl
    next hsize =>
    split
    · rfl
    next hatt =>
    split
    · next hcopy =>
      simp only [Bool.not_eq_true', Bool.not_eq_false] at hatt
      simp only [dataUnreadable, hcopy, Option.isNone_none, Bool.and_true, Bool.and_assoc, hatt,
        decide_eq_false_iff_not] at hdata
      exact absurd (BitVec.not_lt.mp hsize) hdata
    · split
      · exact hpasses rfl rfl rfl rfl rfl rfl
      · exact hpasses rfl rfl rfl rfl rfl rfl
  | sealingKey sealingKey keyIdent size =>
    unfold service getSealingKey
    dsimp only
    split
    · exact hpasses rfl rfl rfl rfl rfl rfl
    · next key _ =>
      -- the second pair of passes starts from the registers the first has brought back
      let m₁ := pmpSetRegions
        ((m.pmpSetRegions h (m.hart h).eid EPMP_ALL_RW).writeMem sealingKey key)
        h (m.hart h).eid EPMP_SU_RWX
      have hfirst : (m₁.hart h).pmp = (m.hart h).pmp := hpasses rfl rfl rfl rfl rfl rfl
      exact hpasses (show m₁.table = m.table from rfl) rfl hfirst rfl rfl rfl

/-- A service an enclave asks for while its memory is open, and which stores nothing onto the
variables of the monitor, returns with `encl_lock` free, and the PMP registers of the hart are what
they were, unless an attestation cannot read the data to be signed. -/
theorem service_restores_iff {L : Layout} {m : Monitor} (hm : m.ReachableIn C L) {h : HartId}
    (hin : m.OpenInside h) (env : Env) (info : Word) (call : ServiceCall)
    (hoff : ∀ s ∈ m.stores C h env info (.service call), s.1 ∉ L.vars) :
    ∃ m' status, Locked.service C L ⟨m, false⟩ h env info call = some (⟨m', false⟩, status) ∧
      ((m'.hart h).pmp = (m.hart h).pmp ↔ m.dataUnreadable h env call = false) := by
  have hk : m.table.Kept := (steady_of_reachableIn C hm).kept
  have hrestore := setRegions_restores hk EPMP_ALL_RW hin.opened
  refine ⟨_, _, locked_service C L m h env info call, ?_⟩
  rw [serviceIn_off hoff]
  generalize m.serviceKey C h info call = key
  show ((m.service (C.yielding key) h env call).1.hart h).pmp = (m.hart h).pmp ↔ _
  cases hdata : m.dataUnreadable h env call with
  | false => exact ⟨fun _ => rfl, fun _ => pmp_service (C.yielding key) hrestore hdata⟩
  | true =>
    refine ⟨fun heq => ?_, fun h => by cases h⟩
    obtain ⟨i, hi, hty, hv⟩ := hin.epm
    rw [service_unreadable (C.yielding key) hdata, pmp_pmpSetRegions] at heq
    exact absurd heq (setRegions_ne hk hin.opened ⟨i, hi, by rw [hty]; decide, hv⟩)

end Services

/-- The monitor with hart 1 inside enclave 0. -/
def serving : Monitor :=
  run (stepIn plainCrypto dataLayout) (handedOver (fun _ => 0) plainKeys)
    ((createdRun 0x4000 ++ [Input.trap 1 (entryCall SBI_SM_RUN_ENCLAVE 9)]).map atInfo)

theorem reachableIn_serving : serving.ReachableIn plainCrypto dataLayout :=
  ⟨_, _, _, by decide +kernel, rfl⟩

theorem openInside_serving : serving.OpenInside 1 := by
  have hother : ∀ i : Fin 8, i ≠ 0 → i ≠ 1 →
      ((serving.enclaves (serving.hart 1).eid).regions i).type = .invalid := by decide +kernel
  refine ⟨by decide +kernel, ⟨0, by decide, by decide +kernel, by decide +kernel⟩, ?_⟩
  intro i hi hl
  by_cases h0 : i = 0
  · subst h0
    exact ⟨by decide +kernel, by decide +kernel, by decide +kernel⟩
  by_cases h1 : i = 1
  · subst h1
    exact ⟨by decide +kernel, by decide +kernel, by decide +kernel⟩
  · have hinv := hother ⟨i, hi⟩ (fun h => h0 (congrArg Fin.val h)) fun h => h1 (congrArg Fin.val h)
    exact absurd hinv hl.1

/-- The service the enclave on hart 1 asks for, with the array `info` at `0x80130000`. -/
def served1 (call : ServiceCall) : Option (Locked × SmStatus) :=
  Locked.service plainCrypto dataLayout ⟨serving, false⟩ 1 writableEnv 0x80130000 call

/-- The enclave is refused an attestation of too much data, and is granted an attestation and a
sealing key in its EPM. -/
theorem services_restore :
    let grants := fun (call : ServiceCall) (status : SmStatus) =>
      ∃ m', served1 call = some (⟨m', false⟩, status) ∧ (m'.hart 1).pmp = (serving.hart 1).pmp
    grants (.attest 0x90001000 0x90000000 1025) .enclaveIllegalArgument ∧
      grants (.attest 0x90001000 0x90000000 8) .success ∧
      grants (.sealingKey 0x90001000 0x90000000 8) .success := by
  intro grants
  have hgrant : ∀ call status, (∀ s ∈ serving.stores plainCrypto 1 writableEnv 0x80130000
      (.service call), s.1 ∉ dataLayout.vars) → serving.dataUnreadable 1 writableEnv call = false →
        (served1 call).map (·.2) = some status → grants call status := by
    intro call status hoff hdata hstatus
    obtain ⟨m', status', heq, hiff⟩ := service_restores_iff plainCrypto reachableIn_serving
      openInside_serving writableEnv 0x80130000 call hoff
    obtain rfl : status' = status := by
      unfold served1 at hstatus
      rw [heq] at hstatus
      exact Option.some.inj hstatus
    exact ⟨m', heq, hiff.mpr hdata⟩
  have hreport : ∀ s ∈ serving.stores plainCrypto 1 writableEnv 0x80130000
      (.service (.attest 0x90001000 0x90000000 8)), 0x80140000 ≤ s.1.toNat := by decide +kernel
  refine ⟨hgrant _ _ ?_ ?_ ?_, hgrant _ _ (fun s hs => notMem_vars_dataLayout (hreport s hs)) ?_ ?_,
    hgrant _ _ ?_ ?_ ?_⟩
  all_goals decide +kernel

/-- After an attestation of data that cannot be read, the enclave cannot execute its own memory. -/
theorem unreadable_data_stops_enclave :
    serving.OpenInside 1 ∧ suPerm (serving.hart 1).pmp 0x90000000 = Perm.rwx ∧
    ∃ m', Locked.service plainCrypto dataLayout ⟨serving, false⟩ 1 faultEnv 0x80130000
        (.attest 0 0 8) = some (⟨m', false⟩, .enclaveNotAccessible) ∧
      suPerm (m'.hart 1).pmp 0x90000000 = ⟨true, true, false⟩ ∧
      (m'.hart 1).pmp ≠ (serving.hart 1).pmp := by
  have hstatus : (serving.serviceIn plainCrypto dataLayout 1 faultEnv 0x80130000
      (.attest 0 0 8)).2 = .enclaveNotAccessible := by decide +kernel
  have hbefore : suPerm (serving.hart 1).pmp 0x90000000 = Perm.rwx := by decide +kernel
  have hafter : suPerm ((serving.serviceIn plainCrypto dataLayout 1 faultEnv 0x80130000
      (.attest 0 0 8)).1.hart 1).pmp 0x90000000 = ⟨true, true, false⟩ := by decide +kernel
  refine ⟨openInside_serving, hbefore, _, ?_, hafter, fun heq => ?_⟩
  · rw [locked_service, hstatus]
  · rw [heq, hbefore] at hafter
    cases hafter

end Monitor

end Dorami.Sm
