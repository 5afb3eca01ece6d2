import Dorami.Monitor.Proofs.AgreeProofs
import Dorami.Monitor.Proofs.SteadyProofs

/-!
# The memory of the firmware and S/U mode

An unlocked PMP entry applies to S/U mode only, and the macros `EPMP_M_*` and the constants for
`pmpcfg0` leave the lock bit out. So the entry meant to let the monitor read and write its data lets
S/U mode do so, while the code of the monitor and the memory of OpenSBI are closed to writes. The
sallyport has no entry of its own, and the OS region opens it.
-/

namespace Dorami.Sm

open Riscv Lib

section Low

variable {r : PmpRegs} {a : Nat}

/-- The first five entries do not overlap. -/
theorem low_bytes_unique {i j : Nat} (hi : i < 5) (hj : j < 5)
    (ha : a ∈ (bootTable.regions i).bytes) (ha' : a ∈ (bootTable.regions j).bytes) : i = j := by
  have hx : ∀ k : Fin 5, (bootTable.regions k).allowOverlap = false := by decide
  by_contra hne
  have hdisj := separated_bootTable.disjoint i j
    ⟨(bootTable_valid i).mpr (by omega), hx ⟨i, hi⟩⟩
    ⟨(bootTable_valid j).mpr (by omega), hx ⟨j, hj⟩⟩ hne
  exact Set.disjoint_left.mp hdisj ha ha'

/-- One of the first five entries decides about the bytes of its region. -/
theorem suPerm_low (hl : LowOk true r) {i : Nat} (hi : i < 5)
    (ha : a ∈ (bootTable.regions i).bytes) : suPerm r a = Perm.ofByte (cfgByte LOCK_OSBI i) := by
  have ha64 : a < 2 ^ 64 := lt_trans ha.2 (encodable_bootTable (by omega)).placed.fits
  have hd : decider r a = some i := by
    refine decider_eq_some.mpr ⟨by omega, (hl.matches_iff hi ha64).mpr ha, fun j hj => ?_⟩
    by_contra hm
    have hj5 : j < 5 := by omega
    have hj' : a ∈ (bootTable.regions j).bytes :=
      (hl.matches_iff hj5 ha64).mp (by simpa using hm)
    have heq : i = j := low_bytes_unique hi hj5 ha hj'
    omega
  rw [suPerm_of_decider hd, hl.lock rfl i hi]

end Low

theorem Core.LowRegs.lowOk {hc : HartCore} (hl : Core.LowRegs hc) (hsu : hc.mode = .su) :
    LowOk true hc.pmp := by
  have hmode : ∀ n : Fin 5, cfgByte LOCK_OSBI n &&& PMP_A = PMP_A_NAPOT := by decide
  refine ⟨fun n hn => ?_, hl.addr, fun _ => hl.lock hsu⟩
  rw [hl.lock hsu n hn]
  exact hmode ⟨n, hn⟩

namespace Monitor

variable (C : Crypto)

/-- The ranges other than the sallyport are those of the first four entries. -/
theorem firmwareMemory_cases {a : Nat} (ha : a ∈ firmwareMemory) :
    a ∈ sallyport ∨ ∃ i < 4, a ∈ (bootTable.regions i).bytes := by
  obtain ⟨r, hr, hmem⟩ := ha
  simp only [firmwareRanges, List.mem_cons, List.not_mem_nil, or_false] at hr
  rcases hr with rfl | rfl | rfl | rfl | rfl
  · exact .inr ⟨0, by decide, hmem⟩
  · exact .inr ⟨1, by decide, hmem⟩
  · exact .inr ⟨2, by decide, hmem⟩
  · exact .inr ⟨3, by decide, hmem⟩
  · exact .inl hmem

/-- What S/U mode can do with the bytes of the first four entries in any state that is reached. -/
theorem suPerm_firmware {L : Layout} {m : Monitor} (hm : m.ReachableIn C L) {h : HartId}
    (hsu : (m.hart h).mode = .su) {i a : Nat} (hi : i < 5) (ha : a ∈ (bootTable.regions i).bytes) :
    suPerm (m.hart h).pmp a = Perm.ofByte (cfgByte LOCK_OSBI i) :=
  suPerm_low (((steady_of_reachableIn C hm).low h).lowOk hsu) hi ha

/-! ## The first entry into S-mode -/

/-- Hart 0 after it has first entered S-mode. -/
def firstEntered (L : Layout) (mem : Word → Byte) (keys : Keys) : Monitor :=
  (handedOver mem keys).stepIn C L (.osbiReturn 0 TrapRegs.zero)

section FirstEntered

variable (L : Layout) (mem : Word → Byte) (keys : Keys)

theorem reachableIn_firstEntered : (firstEntered C L mem keys).ReachableIn C L := by
  refine ⟨mem, keys, [.osbiReturn 0 TrapRegs.zero], ⟨fun _ hmpp => ?_, trivial⟩, rfl⟩
  exact absurd hmpp (by decide)

theorem firstEntered_eq :
    firstEntered C L mem keys = (handedOver mem keys).step C (.osbiReturn 0 TrapRegs.zero) := rfl

theorem mode_firstEntered : ((firstEntered C L mem keys).hart 0).mode = .su := rfl

theorem pmp_firstEntered : ((firstEntered C L mem keys).hart 0).pmp = lockRegs bootHart.pmp := by
  rw [firstEntered_eq]
  exact lockRegs_cfgRegs UNLOCK_OSBI bootHart.pmp

end FirstEntered

/-- On that hart the OS entry opens the sallyport. -/
theorem sallyport_open {a : Nat} (ha : a ∈ sallyport) :
    suPerm (lockRegs bootHart.pmp) a = Perm.rwx := by
  have hapart : ∀ i : Fin 5, (bootTable.regions i).addr.toNat + (bootTable.regions i).size.toNat ≤
      0x80080000 ∨ 0x800C0000 ≤ (bootTable.regions i).addr.toNat := by decide
  have hlo : 0x80080000 ≤ a := ha.1
  have hhi : a < 0x800C0000 := ha.2
  have hbare := bare_boot.relock
  refine suPerm_os hbare.low hbare.last (by omega) (fun i hi hin => ?_) ?_
  · have hb : (bootTable.regions i).addr.toNat ≤ a := hin.1
    have he : a < (bootTable.regions i).addr.toNat + (bootTable.regions i).size.toNat := hin.2
    have := hapart ⟨i, hi⟩
    simp only at this
    omega
  · rintro n (rfl | rfl)
    · have haddr : bootHart.pmp.pmpaddr 5 = 0 := by decide +kernel
      rw [entryMatches_napot (by show cfgByte LOCK_OSBI 5 &&& PMP_A = _; decide)]
      show napotMatches (bootHart.pmp.pmpaddr 5) a = false
      rw [haddr]
      exact napotMatches_zero (by omega)
    · exact entryMatches_off (by show cfgByte LOCK_OSBI 6 &&& PMP_A = _; decide)

/-- An address of the firmware is closed to S/U mode in every state that is reached without stores
onto the variables of the monitor, on every hart and whoever runs there, exactly if it lies neither
in the monitor's data nor in the sallyport. -/
theorem firmware_closed_iff (L : Layout) {a : Nat} (ha : a ∈ firmwareMemory) :
    (∀ m : Monitor, m.ReachableIn C L → ∀ h, (m.hart h).mode = .su → m.ClosedAt h a) ↔
      a ∉ monitorData ∧ a ∉ sallyport := by
  have hreach := reachableIn_firstEntered C L (fun _ => 0) noKeys
  have hsu := mode_firstEntered C L (fun _ => 0) noKeys
  have hpmp := pmp_firstEntered C L (fun _ => 0) noKeys
  constructor
  · intro hall
    obtain ⟨hw, hdata⟩ := hall _ hreach 0 hsu
    refine ⟨fun hin => ?_, fun hin => ?_⟩
    · have hrw := suPerm_firmware C hreach hsu (by omega : 1 < 5) hin
      rw [hrw] at hw
      exact absurd hw (by decide)
    · rw [hpmp, sallyport_open hin] at hw
      exact absurd hw (by decide)
  · rintro ⟨hdata, hsp⟩ m hm h hmode
    refine ⟨?_, fun hin => absurd hin hdata⟩
    obtain ⟨i, hi, hin⟩ := (firmwareMemory_cases ha).resolve_left hsp
    have hne : i ≠ 1 := by
      rintro rfl
      exact hdata hin
    have hbyte : ∀ j : Fin 4, j ≠ 1 → (Perm.ofByte (cfgByte LOCK_OSBI j)).w = false := by decide
    rw [suPerm_firmware C hm hmode (by omega) hin]
    exact hbyte ⟨i, hi⟩ (fun heq => hne (congrArg Fin.val heq))

/-- No code of the monitor can be written from S/U mode. -/
theorem monitor_code_closed : 0x80000000 ∈ firmwareMemory ∧
    ∀ m : Monitor, m.ReachableIn noCrypto dataLayout →
      ∀ h, (m.hart h).mode = .su → m.ClosedAt h 0x80000000 := by
  have hin : 0x80000000 ∈ firmwareMemory :=
    ⟨(REGION_TM_CODE_BASE, REGION_TM_CODE_SIZE), List.mem_cons_self, by decide, by decide⟩
  refine ⟨hin, (firmware_closed_iff noCrypto dataLayout hin).mpr ⟨fun hd => ?_, fun hs => ?_⟩⟩
  · exact absurd hd.1 (by decide)
  · exact absurd hs.1 (by decide)

/-- The first thing that runs in S-mode can read and write the monitor's data and the sallyport. -/
theorem monitor_data_and_sallyport_open :
    let m := firstEntered noCrypto dataLayout (fun _ => 0) noKeys
    m.ReachableIn noCrypto dataLayout ∧ (m.hart 0).mode = .su ∧
      suPerm (m.hart 0).pmp 0x80100000 = ⟨true, true, false⟩ ∧
      suPerm (m.hart 0).pmp 0x80080000 = Perm.rwx ∧
      ¬ m.ClosedAt 0 0x80100000 ∧ ¬ m.ClosedAt 0 0x80080000 := by
  have hdata :
      suPerm ((firstEntered noCrypto dataLayout (fun _ => 0) noKeys).hart 0).pmp 0x80100000 =
        ⟨true, true, false⟩ := by decide +kernel
  have hsp :
      suPerm ((firstEntered noCrypto dataLayout (fun _ => 0) noKeys).hart 0).pmp 0x80080000 =
        Perm.rwx := by decide +kernel
  refine ⟨reachableIn_firstEntered _ _ _ _, rfl, hdata, hsp, fun hc => ?_, fun hc => ?_⟩
  · have hw := hc.1
    rw [hdata] at hw
    cases hw
  · have hw := hc.1
    rw [hsp] at hw
    cases hw

end Monitor

end Dorami.Sm
