import Dorami.Monitor.Trap
import Dorami.Sm.Proofs.PmpSetProofs

/-!
# The PMP registers of a hart after boot

Entries 0 to 4 belong to the regions of `sm_init` and never change. An enclave's private memory
(EPM) is at entry 5, or at 5 and 6 for a TOR region, and entry 7 is shared: it holds the OS region
on a hart that runs the host, and the enclave's shared memory (UTM) on one that runs the enclave.
`Bare` and `View` say this of a hart's registers without and with an enclave's EPM, and the lemmas
about them say how each write of the monitor takes one to the other.

With `strict` the registers are moreover ones that a switch to OpenSBI and back gives back: the EPM
is a NAPOT region and entry 6 is off.
-/

namespace Dorami.Sm

open Riscv

/-- Entry `n` grants nothing to S/U mode. -/
def Closed (r : PmpRegs) (n : Nat) : Prop := Perm.ofByte (cfgByte (r.pmpcfg 0) n) = Perm.none

/-- The OS region. -/
def osRegion : PmpRegion := bootTable.regions bootIds.os

/-- Entries 0 to 4 are those of the boot regions. -/
structure LowOk (strict : Bool) (r : PmpRegs) : Prop where
  mode : ∀ i < 5, cfgByte (r.pmpcfg 0) i &&& PMP_A = PMP_A_NAPOT
  addr : ∀ i < 5, r.pmpaddr i = (bootTable.regions i).pmpaddrVal
  lock : strict = true → ∀ i < 5, cfgByte (r.pmpcfg 0) i = cfgByte LOCK_OSBI i

/-- The region can be an enclave's EPM. -/
structure EpmOk (strict : Bool) (R : PmpRegion) : Prop where
  enc : R.Encodable
  regs : ∀ n, R.Occupies n → n = 5 ∨ n = 6
  napot : strict = true → R.addrmode = PMP_A_NAPOT ∧ R.regIdx = 5

/-- The region is at the bottom. -/
structure LastOk (R : PmpRegion) : Prop where
  enc : R.Encodable
  mode : R.addrmode = PMP_A_NAPOT
  idx : R.regIdx = 7

/-- The registers of a hart that knows of no enclave, with the OS region opened to `p`. -/
structure Bare (strict : Bool) (p : Byte) (r : PmpRegs) : Prop where
  low : LowOk strict r
  closed : ∀ n, n = 5 ∨ n = 6 → Closed r n
  last : Installed osRegion p r
  strict : strict = true → cfgByte (r.pmpcfg 0) 6 = 0 ∧
    (cfgByte (r.pmpcfg 0) 5 = PMP_A_NAPOT ∨ (cfgByte (r.pmpcfg 0) 5 = 0 ∧ r.pmpaddr 5 = 0))

/-- The registers of a hart with the EPM opened to `q` and the bottom region `L` to `p`. -/
structure View (strict : Bool) (E : PmpRegion) (q : Byte) (L : PmpRegion) (p : Byte)
    (r : PmpRegs) : Prop where
  low : LowOk strict r
  epm : Installed E q r
  rest : ∀ n, n = 5 ∨ n = 6 → n ≠ E.regIdx → Closed r n
  last : Installed L p r
  strict : strict = true → cfgByte (r.pmpcfg 0) 6 = 0

/-! ## Writes elsewhere -/

section Frame

variable {strict : Bool} {R : PmpRegion} {r r' : PmpRegs}

theorem LowOk.of_frame (h : LowOk strict r) (hf : Frame R r r') (hR : ∀ n < 5, ¬ R.Occupies n) :
    LowOk strict r' := by
  have hcfg : ∀ i < 5, cfgByte (r'.pmpcfg 0) i = cfgByte (r.pmpcfg 0) i :=
    fun i hi => hf.cfg i (by omega) (hR i hi)
  refine ⟨fun i hi => ?_, fun i hi => ?_, fun hs i hi => ?_⟩
  · rw [hcfg i hi]; exact h.mode i hi
  · rw [hf.addr i (hR i hi)]; exact h.addr i hi
  · rw [hcfg i hi]; exact h.lock hs i hi

theorem Closed.of_frame {n : Nat} (h : Closed r n) (hf : Frame R r r') (hn : n < 8)
    (hR : ¬ R.Occupies n) : Closed r' n := by
  unfold Closed
  rw [hf.cfg n hn hR]
  exact h

theorem Installed.of_frame {S : PmpRegion} {p : Byte} (h : Installed S p r) (hf : Frame R r r')
    (hS : S.regIdx < 8) (hR : ∀ n, S.Occupies n → ¬ R.Occupies n) : Installed S p r' := by
  have hself : ¬ R.Occupies S.regIdx := hR _ (Or.inl rfl)
  refine ⟨?_, ?_, fun h2 => ?_⟩
  · rw [hf.cfg _ hS hself]; exact h.cfg
  · rw [hf.addr _ hself]; exact h.addr
  · have hlow : ¬ R.Occupies (S.regIdx - 1) := hR _ (Or.inr ⟨h2, rfl⟩)
    rw [hf.cfg _ (by omega) hlow, hf.addr _ hlow]
    exact h.low h2

end Frame

/-! ## Small facts about the regions -/

section Regions

variable {strict : Bool} {E L : PmpRegion}

theorem LastOk.occupies (h : LastOk L) (n : Nat) : L.Occupies n ↔ n = 7 := by
  rw [occupies_napot h.mode, h.idx]

theorem lastOk_osRegion : LastOk osRegion :=
  ⟨encodable_bootTable (by decide), (bootTable_napot (by decide)).1,
    (bootTable_napot (by decide)).2⟩

theorem EpmOk.idx (h : EpmOk strict E) : E.regIdx = 5 ∨ E.regIdx = 6 := h.regs _ (Or.inl rfl)

theorem EpmOk.weaken (h : EpmOk true E) : EpmOk strict E := ⟨h.enc, h.regs, fun _ => h.napot rfl⟩

theorem EpmOk.not_low (h : EpmOk strict E) : ∀ n < 5, ¬ E.Occupies n := by
  intro n hn hocc
  rcases h.regs n hocc with rfl | rfl <;> omega

theorem LastOk.not_low (h : LastOk L) : ∀ n < 5, ¬ L.Occupies n := by
  intro n hn hocc
  rw [h.occupies] at hocc
  omega

theorem EpmOk.not_last (hE : EpmOk strict E) (hL : LastOk L) :
    ∀ n, E.Occupies n → ¬ L.Occupies n := by
  intro n hn hocc
  rw [hL.occupies] at hocc
  rcases hE.regs n hn with h | h <;> omega

theorem LastOk.not_epm (hL : LastOk L) (hE : EpmOk strict E) : ∀ n, L.Occupies n → ¬ E.Occupies n :=
  fun n hL' hE' => hE.not_last hL n hE' hL'

theorem closed_of_cfg_zero {r : PmpRegs} {n : Nat} (h : cfgByte (r.pmpcfg 0) n = 0) :
    Closed r n := by
  unfold Closed
  rw [h]
  decide

/-- An entry programmed without permissions grants nothing. -/
theorem Installed.closed {R : PmpRegion} {r : PmpRegs} (h : Installed R PMP_NO_PERM r)
    (hR : R.Encodable) : Closed r R.regIdx := by
  unfold Closed
  rw [h.cfg]
  rcases hR.mode with ⟨hm, _⟩ | ⟨hm, _⟩
  · rw [hm]; decide
  · rw [hm]; decide

end Regions

/-! ## From one set of registers to the next -/

section Step

variable {strict : Bool} {E L L' : PmpRegion} {p q p' q' : Byte} {r r' : PmpRegs}

/-- Writing the bottom entry of a hart without an enclave. -/
theorem Bare.set_os (h : Bare strict p r) (hs : SetRes osRegion p' r r') : Bare strict p' r' := by
  have hL := lastOk_osRegion
  have hno : ∀ n, n = 5 ∨ n = 6 → ¬ osRegion.Occupies n := by
    intro n hn hocc
    rw [hL.occupies] at hocc
    omega
  refine ⟨h.low.of_frame hs.frame hL.not_low,
    fun n hn => (h.closed n hn).of_frame hs.frame (by omega) (hno n hn), hs.installed,
    fun hst => ?_⟩
  rw [hs.frame.cfg 6 (by omega) (hno 6 (Or.inr rfl)), hs.frame.cfg 5 (by omega)
    (hno 5 (Or.inl rfl)), hs.frame.addr 5 (hno 5 (Or.inl rfl))]
  exact h.strict hst

/-- Writing the bottom entry of a hart with an enclave. -/
theorem View.set_last (h : View strict E q L p r) (hE : EpmOk strict E) (hL : LastOk L')
    (hs : SetRes L' p' r r') : View strict E q L' p' r' := by
  have hno : ∀ n, n = 5 ∨ n = 6 → ¬ L'.Occupies n := by
    intro n hn hocc
    rw [hL.occupies] at hocc
    omega
  refine ⟨h.low.of_frame hs.frame hL.not_low, h.epm.of_frame hs.frame hE.enc.idx (hE.not_last hL),
    fun n hn hne => (h.rest n hn hne).of_frame hs.frame (by omega) (hno n hn), hs.installed,
    fun hst => ?_⟩
  rw [hs.frame.cfg 6 (by omega) (hno 6 (Or.inr rfl))]
  exact h.strict hst

/-- The entry beside the EPM's own, after the EPM has been programmed. -/
theorem closed_beside (hs : SetRes E q r r') {n : Nat} (hn : n = 5 ∨ n = 6)
    (hne : n ≠ E.regIdx) (hc : Closed r n) : Closed r' n := by
  by_cases hocc : E.Occupies n
  · -- the lower bound of a TOR region
    obtain ⟨h2, rfl⟩ := hocc.resolve_left hne
    exact closed_of_cfg_zero (hs.installed.low h2).1
  · exact hc.of_frame hs.frame (by omega) hocc

theorem strict_six (hE : EpmOk strict E) (hf : Frame E r r') (hst : strict = true)
    (h6 : cfgByte (r.pmpcfg 0) 6 = 0) : cfgByte (r'.pmpcfg 0) 6 = 0 := by
  obtain ⟨hm, hi⟩ := hE.napot hst
  rw [hf.cfg 6 (by omega)]
  · exact h6
  · rw [occupies_napot hm, hi]
    omega

/-- Programming an EPM on a hart that knew of none. -/
theorem Bare.set_epm (h : Bare strict p r) (hE : EpmOk strict E) (hs : SetRes E q r r') :
    View strict E q osRegion p r' :=
  ⟨h.low.of_frame hs.frame hE.not_low, hs.installed,
    fun _ hn hne => closed_beside hs hn hne (h.closed _ hn),
    h.last.of_frame hs.frame lastOk_osRegion.enc.idx (lastOk_osRegion.not_epm hE),
    fun hst => strict_six hE hs.frame hst (h.strict hst).1⟩

/-- Programming the EPM anew. -/
theorem View.set_epm (h : View strict E q L p r) (hE : EpmOk strict E) (hL : LastOk L)
    (hs : SetRes E q' r r') : View strict E q' L p r' :=
  ⟨h.low.of_frame hs.frame hE.not_low, hs.installed,
    fun _ hn hne => closed_beside hs hn hne (h.rest _ hn hne),
    h.last.of_frame hs.frame hL.enc.idx (hL.not_epm hE),
    fun hst => strict_six hE hs.frame hst (h.strict hst)⟩

/-- A closed EPM can be forgotten. -/
theorem View.bare (h : View strict E PMP_NO_PERM osRegion p r) (hE : EpmOk strict E) :
    Bare strict p r := by
  refine ⟨h.low, fun n hn => ?_, h.last, fun hst => ⟨h.strict hst, Or.inl ?_⟩⟩
  · by_cases hne : n = E.regIdx
    · rw [hne]; exact h.epm.closed hE.enc
    · exact h.rest n hn hne
  · obtain ⟨hm, hi⟩ := hE.napot hst
    rw [← hi, h.epm.cfg, hm]
    decide

/-- Clearing the EPM's registers. -/
theorem View.unset_epm (h : View strict E q osRegion p r) (hE : EpmOk strict E)
    (hs : UnsetRes E r r') : Bare strict p r' := by
  refine ⟨h.low.of_frame hs.frame hE.not_low, fun n hn => ?_,
    h.last.of_frame hs.frame lastOk_osRegion.enc.idx (lastOk_osRegion.not_epm hE),
    fun hst => ⟨strict_six hE hs.frame hst (h.strict hst), Or.inr ?_⟩⟩
  · by_cases hocc : E.Occupies n
    · exact closed_of_cfg_zero (hs.clear n hocc).1
    · exact (h.rest n hn fun e => hocc (Or.inl e)).of_frame hs.frame (by omega) hocc
  · exact hs.clear 5 (Or.inl (hE.napot hst).2.symm)

end Step

/-! ## What S/U mode can reach -/

section Access

variable {strict : Bool} {E L : PmpRegion} {p q : Byte} {r : PmpRegs} {a : Nat}

/-- The first five entries match the bytes of the boot regions. -/
theorem LowOk.matches_iff (h : LowOk strict r) {i : Nat} (hi : i < 5) (ha : a < 2 ^ 64) :
    entryMatches r i a = true ↔ a ∈ (bootTable.regions i).bytes := by
  have hall : ∀ j : Fin 5, (bootTable.regions j).isNapotAll = false := by decide
  have hiff := napot_entry_iff (r := r) (encodable_bootTable (show i < 6 by omega))
    (bootTable_napot (by omega)).1 (h.mode i hi) (h.addr i hi) ha
  have hext : (bootTable.regions i).extent = (bootTable.regions i).bytes := by
    rw [PmpRegion.extent, hall ⟨i, hi⟩]
    rfl
  rw [hiff, hext]

/-- The boot regions of the first five entries end at the end of the monitor's data. -/
theorem boot_bytes_lt {i : Nat} (hi : i < 5) (ha : a ∈ (bootTable.regions i).bytes) :
    a < 0x80140000 := by
  have hend : ∀ j : Fin 5, (bootTable.regions j).addr.toNat + (bootTable.regions j).size.toNat ≤
      0x80140000 := by decide
  have hlt := ha.2
  have := hend ⟨i, hi⟩
  simp only at this
  omega

theorem mem_extent (ha : a ∈ E.bytes) : a ∈ E.extent := by
  unfold PmpRegion.extent
  split
  · trivial
  · exact ha

/-- A hart with a closed EPM that the boot regions do not meet has no access to it. -/
theorem View.epm_closed (h : View strict E PMP_NO_PERM L p r) (hE : EpmOk strict E)
    (hdisj : ∀ i < 5, Disjoint E.bytes (bootTable.regions i).bytes) (ha : a ∈ E.bytes) :
    suPerm r a = Perm.none := by
  have ha64 : a < 2 ^ 64 := lt_trans ha.2 hE.enc.placed.fits
  have hmatch := (h.epm.matches_iff hE.enc ha64).mpr (mem_extent ha)
  cases hd : decider r a with
  | none =>
    rw [decider_eq_none] at hd
    rw [hd _ hE.enc.idx] at hmatch
    exact absurd hmatch (by decide)
  | some j =>
    rw [suPerm_of_decider hd]
    obtain ⟨_, hj, hlow⟩ := decider_eq_some.mp hd
    -- the deciding entry is not above the EPM's own, and not one of the boot entries
    have hle : j ≤ E.regIdx := by
      by_contra hlt
      rw [hlow _ (by omega)] at hmatch
      exact absurd hmatch (by decide)
    have hge : 5 ≤ j := by
      by_contra hlt
      have hboot := (h.low.matches_iff (by omega) ha64).mp hj
      exact Set.disjoint_left.mp (hdisj j (by omega)) ha hboot
    have h56 : j = 5 ∨ j = 6 := by
      rcases hE.idx with hi | hi <;> omega
    by_cases hne : j = E.regIdx
    · rw [hne]; exact h.epm.closed hE.enc
    · exact h.rest j h56 hne

/-- Above the boot regions, a hart reaches only its EPM entry and its bottom entry. -/
theorem View.access (h : View strict E q L p r) (hE : EpmOk strict E) (hL : LastOk L)
    (ha64 : a < 2 ^ 64) (hge : 0x80140000 ≤ a) (hany : (suPerm r a).any = true) :
    a ∈ E.extent ∨ a ∈ L.extent := by
  obtain ⟨i, hi, hm, hp, _⟩ := exists_match_of_suPerm_any hany
  by_cases hi5 : i < 5
  · have := boot_bytes_lt hi5 ((h.low.matches_iff hi5 ha64).mp hm)
    omega
  by_cases hiE : i = E.regIdx
  · rw [hiE] at hm
    exact Or.inl ((h.epm.matches_iff hE.enc ha64).mp hm)
  by_cases hi7 : i = 7
  · rw [hi7, ← hL.idx] at hm
    exact Or.inr ((h.last.matches_iff hL.enc ha64).mp hm)
  · have hclosed : Closed r i := h.rest i (by omega) hiE
    rw [hclosed] at hp
    exact absurd hp (by decide)

/-- Where no entry above it matches, the entry of the OS decides. -/
theorem suPerm_os (hl : LowOk strict r) (hos : Installed osRegion EPMP_SU_RWX r)
    (ha64 : a < 2 ^ 64) (hlow : ∀ i < 5, a ∉ (bootTable.regions i).bytes)
    (hepm : ∀ n, n = 5 ∨ n = 6 → entryMatches r n a = false) : suPerm r a = Perm.rwx := by
  have hidx := lastOk_osRegion.idx
  have hd : decider r a = some 7 := by
    refine decider_eq_some.mpr ⟨by omega, ?_, fun j hj => ?_⟩
    · rw [← hidx]
      exact (hos.matches_iff lastOk_osRegion.enc ha64).mpr (by trivial)
    · by_cases hj5 : j < 5
      · by_contra hm
        exact hlow j hj5 ((hl.matches_iff hj5 ha64).mp (by simpa using hm))
      · exact hepm j (by omega)
  have hcfg := hos.cfg
  rw [hidx, lastOk_osRegion.mode] at hcfg
  rw [suPerm_of_decider hd, hcfg]
  rfl

end Access

/-! ## The way back from OpenSBI -/

theorem lockRegs_cfgRegs (cfg : Word) (r : PmpRegs) : lockRegs (cfgRegs cfg r) = lockRegs r := by
  unfold lockRegs cfgRegs
  congr 1
  funext g
  dsimp only
  split <;> rfl

section Relock

variable {strict : Bool} {R E L : PmpRegion} {p q : Byte} {r r' : PmpRegs}

/-- What `LOCK_OSBI` says about the entries that can belong to an enclave. -/
theorem lock_bytes : cfgByte LOCK_OSBI 5 = PMP_A_NAPOT ∧ cfgByte LOCK_OSBI 6 = 0 ∧
    cfgByte LOCK_OSBI 7 = PMP_A_NAPOT ||| (EPMP_SU_RWX &&& PMP_LRWX) := by decide

theorem closed_lock {n : Nat} (hn : n = 5 ∨ n = 6) : Closed (lockRegs r) n := by
  rcases hn with rfl | rfl
  · show Perm.ofByte (cfgByte LOCK_OSBI 5) = Perm.none
    rw [lock_bytes.1]
    decide
  · exact closed_of_cfg_zero lock_bytes.2.1

/-- An entry that `LOCK_OSBI` describes is still there. -/
theorem Installed.relock (h : Installed R p r) (hm : R.addrmode = PMP_A_NAPOT)
    (hc : cfgByte LOCK_OSBI R.regIdx = PMP_A_NAPOT ||| (p &&& PMP_LRWX)) :
    Installed R p (lockRegs r) := by
  refine ⟨?_, h.addr, fun h2 => ?_⟩
  · rw [hm]
    exact hc
  · have hone : R.needsTwoEntries = false := by
      simp [PmpRegion.needsTwoEntries, PmpRegion.isTor, hm, PMP_A_NAPOT, PMP_A_TOR]
    rw [hone] at h2
    cases h2

theorem LowOk.relock (h : LowOk strict r) : LowOk true (lockRegs r) := by
  have hmode : ∀ i : Fin 5, cfgByte LOCK_OSBI i &&& PMP_A = PMP_A_NAPOT := by decide
  exact ⟨fun i hi => hmode ⟨i, hi⟩, h.addr, fun _ _ _ => rfl⟩

theorem os_relock (h : Installed osRegion EPMP_SU_RWX r) :
    Installed osRegion EPMP_SU_RWX (lockRegs r) := by
  refine h.relock lastOk_osRegion.mode ?_
  rw [lastOk_osRegion.idx]
  exact lock_bytes.2.2

theorem Bare.relock (h : Bare strict EPMP_SU_RWX r) : Bare true EPMP_SU_RWX (lockRegs r) :=
  ⟨h.low.relock, fun _ hn => closed_lock hn, os_relock h.last,
    fun _ => ⟨lock_bytes.2.1, Or.inl lock_bytes.1⟩⟩

theorem View.relock (h : View strict E PMP_NO_PERM osRegion EPMP_SU_RWX r) (hE : EpmOk true E) :
    View true E PMP_NO_PERM osRegion EPMP_SU_RWX (lockRegs r) := by
  obtain ⟨hm, hi⟩ := hE.napot rfl
  refine ⟨h.low.relock, h.epm.relock hm ?_, fun _ hn _ => closed_lock hn, os_relock h.last,
    fun _ => lock_bytes.2.1⟩
  rw [hi, lock_bytes.1]
  decide

/-- Whatever the registers of an enclave's entries are, writing the OS region makes a bare hart of
a hart that comes back from OpenSBI. -/
theorem bare_of_lock (h : LowOk true (lockRegs r)) (hs : SetRes osRegion p (lockRegs r) r') :
    Bare true p r' := by
  have hno : ∀ n, n = 5 ∨ n = 6 → ¬ osRegion.Occupies n := by
    intro n hn hocc
    rw [lastOk_osRegion.occupies] at hocc
    omega
  refine ⟨h.of_frame hs.frame lastOk_osRegion.not_low,
    fun n hn => (closed_lock hn).of_frame hs.frame (by omega) (hno n hn), hs.installed,
    fun _ => ?_⟩
  rw [hs.frame.cfg 6 (by omega) (hno 6 (Or.inr rfl)), hs.frame.cfg 5 (by omega)
    (hno 5 (Or.inl rfl))]
  exact ⟨lock_bytes.2.1, Or.inl lock_bytes.1⟩

theorem LowOk.weaken (h : LowOk true r) : LowOk strict r := ⟨h.mode, h.addr, fun _ => h.lock rfl⟩

theorem Bare.weaken (h : Bare true p r) : Bare strict p r :=
  ⟨h.low.weaken, h.closed, h.last, fun _ => h.strict rfl⟩

theorem View.weaken (h : View true E q L p r) : View strict E q L p r :=
  ⟨h.low.weaken, h.epm, h.rest, h.last, fun _ => h.strict rfl⟩

/-- Registers with the same view decide every address alike. -/
theorem View.suPerm_eq (h : View true E q L p r) (h' : View true E q L p r') (hE : EpmOk true E)
    (hL : LastOk L) (a : Nat) : suPerm r' a = suPerm r a := by
  obtain ⟨_, hi⟩ := hE.napot rfl
  have hcfg : ∀ i < 8, cfgByte (r'.pmpcfg 0) i = cfgByte (r.pmpcfg 0) i := by
    intro i hi8
    rcases (by omega : i < 5 ∨ i = 5 ∨ i = 6 ∨ i = 7) with h5 | rfl | rfl | rfl
    · rw [h.low.lock rfl i h5, h'.low.lock rfl i h5]
    · rw [← hi, h.epm.cfg, h'.epm.cfg]
    · rw [h.strict rfl, h'.strict rfl]
    · rw [← hL.idx, h.last.cfg, h'.last.cfg]
  have haddr : ∀ i < 8, i ≠ 6 → r'.pmpaddr i = r.pmpaddr i := by
    intro i hi8 h6
    rcases (by omega : i < 5 ∨ i = 5 ∨ i = 7) with h5 | rfl | rfl
    · rw [h.low.addr i h5, h'.low.addr i h5]
    · rw [← hi, h.epm.addr, h'.epm.addr]
    · rw [← hL.idx, h.last.addr, h'.last.addr]
  refine suPerm_congr (fun i hi8 _ => ?_) fun i hi8 _ => hcfg i hi8
  by_cases h6 : i = 6
  · -- entry 6 is off
    subst h6
    rw [entryMatches_off (by rw [h'.strict rfl]; decide),
      entryMatches_off (by rw [h.strict rfl]; decide)]
  · refine entryMatches_congr (hcfg i hi8) (haddr i hi8 h6) fun htor => ?_
    have h7 : i ≠ 7 := by
      rintro rfl
      rw [← hL.idx, h.last.cfg, hL.mode, cfg_mode_napot] at htor
      exact absurd htor (by decide)
    unfold torBase
    split
    · rfl
    · rw [haddr (i - 1) (by omega) (by omega)]

/-- Where no entry of an EPM matches, the registers of two harts in host context decide alike. -/
theorem LowOk.suPerm_eq (h : LowOk true r) (h' : LowOk true r') (hos : Installed osRegion p r)
    (hos' : Installed osRegion p r') {a : Nat}
    (hepm : ∀ n, n = 5 ∨ n = 6 → entryMatches r n a = false ∧ entryMatches r' n a = false) :
    suPerm r' a = suPerm r a := by
  have hcfg : ∀ i < 8, i ≠ 5 → i ≠ 6 → cfgByte (r'.pmpcfg 0) i = cfgByte (r.pmpcfg 0) i := by
    intro i hi8 h5 h6
    rcases (by omega : i < 5 ∨ i = 7) with hlt | rfl
    · rw [h.lock rfl i hlt, h'.lock rfl i hlt]
    · rw [← lastOk_osRegion.idx, hos.cfg, hos'.cfg]
  have haddr : ∀ i < 8, i ≠ 5 → i ≠ 6 → r'.pmpaddr i = r.pmpaddr i := by
    intro i hi8 h5 h6
    rcases (by omega : i < 5 ∨ i = 7) with hlt | rfl
    · rw [h.addr i hlt, h'.addr i hlt]
    · rw [← lastOk_osRegion.idx, hos.addr, hos'.addr]
  refine suPerm_congr (fun i hi8 _ => ?_) fun i hi8 hmatch => ?_
  · by_cases hno : i = 5 ∨ i = 6
    · rw [(hepm i hno).1, (hepm i hno).2]
    · have hne5 : i ≠ 5 := fun heq => hno (.inl heq)
      have hne6 : i ≠ 6 := fun heq => hno (.inr heq)
      refine entryMatches_congr (hcfg i hi8 hne5 hne6) (haddr i hi8 hne5 hne6) fun htor => ?_
      have h7 : i ≠ 7 := by
        rintro rfl
        rw [← lastOk_osRegion.idx, hos.cfg, lastOk_osRegion.mode, cfg_mode_napot] at htor
        exact absurd htor (by decide)
      unfold torBase
      split
      · rfl
      · rw [haddr (i - 1) (by omega) (by omega) (by omega)]
  · refine hcfg i hi8 ?_ ?_
    · rintro rfl
      rw [(hepm 5 (.inl rfl)).1] at hmatch
      cases hmatch
    · rintro rfl
      rw [(hepm 6 (.inr rfl)).1] at hmatch
      cases hmatch

/-- The first bytes belong to the device region. -/
theorem LowOk.matches_start (h : LowOk strict r) {a : Nat} (ha : a < 8) :
    entryMatches r 4 a = true := by
  have haddr : (bootTable.regions 4).addr.toNat = 0 := by decide
  have hsize : (bootTable.regions 4).size.toNat = 0x80000000 := by decide
  refine (h.matches_iff (by omega) (by omega)).mpr ⟨?_, ?_⟩
  · rw [haddr]
    exact Nat.zero_le a
  · rw [haddr, hsize]
    omega

/-- A hart without an enclave comes back from OpenSBI with the memory it had. If its entry 5 was
off, it comes back as an entry for the first eight bytes, which the device region hides. -/
theorem Bare.suPerm_relock (h : Bare true EPMP_SU_RWX r) (a : Nat) :
    suPerm (lockRegs r) a = suPerm r a := by
  obtain ⟨h6, h5⟩ := h.strict rfl
  have hcfg : ∀ i < 8, i ≠ 5 → cfgByte LOCK_OSBI i = cfgByte (r.pmpcfg 0) i := by
    intro i hi8 hne
    rcases (by omega : i < 5 ∨ i = 6 ∨ i = 7) with hlt | rfl | rfl
    · rw [h.low.lock rfl i hlt]
    · rw [h6]
      exact lock_bytes.2.1
    · have hlast := h.last.cfg
      rw [lastOk_osRegion.idx, lastOk_osRegion.mode] at hlast
      rw [hlast]
      exact lock_bytes.2.2
  rcases h5 with h5 | ⟨h5, h0⟩
  · have hall : ∀ i < 8, cfgByte LOCK_OSBI i = cfgByte (r.pmpcfg 0) i := by
      intro i hi8
      by_cases hne : i = 5
      · rw [hne, h5]
        exact lock_bytes.1
      · exact hcfg i hi8 hne
    exact suPerm_congr (fun i hi8 _ => entryMatches_congr (hall i hi8) rfl fun _ => rfl)
      fun i hi8 _ => hall i hi8
  · have hoff : entryMatches r 5 a = false := entryMatches_off (by rw [h5]; decide)
    refine suPerm_congr (fun i hi8 hlow => ?_) fun i hi8 hmatch => ?_
    · by_cases hne : i = 5
      · subst hne
        have hlock : entryMatches (lockRegs r) 5 a = napotMatches 0 a := by
          rw [entryMatches_napot (by show cfgByte LOCK_OSBI 5 &&& PMP_A = _; decide)]
          exact congrArg (napotMatches · a) h0
        have hge : ¬ a < 8 := by
          intro hlt
          have hno := hlow 4 (by omega)
          rw [h.low.matches_start hlt] at hno
          cases hno
        rw [hlock, hoff, napotMatches_zero (by omega)]
      · exact entryMatches_congr (hcfg i hi8 hne) rfl fun _ => rfl
    · have hne : i ≠ 5 := by
        rintro rfl
        rw [hoff] at hmatch
        cases hmatch
      exact hcfg i hi8 hne

end Relock

/-! ## After boot -/

theorem bare_boot : Bare false EPMP_SU_RWX bootHart.pmp := by
  have hlow : ∀ i : Fin 5, cfgByte (bootHart.pmp.pmpcfg 0) i &&& PMP_A = PMP_A_NAPOT ∧
      bootHart.pmp.pmpaddr i = (bootTable.regions i).pmpaddrVal := by decide +kernel
  refine ⟨⟨fun i hi => (hlow ⟨i, hi⟩).1, fun i hi => (hlow ⟨i, hi⟩).2, fun hst => by cases hst⟩, ?_,
    ⟨by decide +kernel, by decide +kernel, fun h2 => ?_⟩, fun hst => by cases hst⟩
  · rintro n (rfl | rfl)
    · unfold Closed; decide +kernel
    · unfold Closed; decide +kernel
  · exact absurd h2 (by decide)

end Dorami.Sm
