import Dorami.Lib.Rounds
import Dorami.Monitor.Boot
import Mathlib.Algebra.Order.BigOperators.Group.Finset
import Mathlib.Data.Fintype.Card

/-!
# Proofs about booting

However the harts are interleaved, booting goes through five stages, and the stage says what each
hart may be doing and what the shared variables hold (`Stands`). The bss is cleared before anybody
uses a variable in it, one hart registers the regions, and only then PMP registers are programmed.
Every hart gets to OpenSBI if all are scheduled often enough.
-/

namespace Dorami.Boot

open Riscv Lib Sm

variable {H : Type*} {cfg : BootConfig H}

/-! ## Regions and registers -/

/-- The region table and the region ids after the first `k` regions of `sm_init`. -/
def coldTables (k : Nat) : Option (PmpTable × RegionIds) :=
  (coldInits.take k).foldlM
    (fun acc init => (init.1 acc.1).map fun made => (made.1, init.2 acc.2 made.2))
      (PmpTable.empty, zeroIds)

theorem coldTables_zero : coldTables 0 = some (PmpTable.empty, zeroIds) := rfl

theorem coldTables_succ {k : Nat} {init} (hk : coldInits[k]? = some init) :
    coldTables (k + 1) = (coldTables k).bind fun acc =>
      (init.1 acc.1).map fun made => (made.1, init.2 acc.2 made.2) := by
  obtain ⟨hlt, rfl⟩ := List.getElem?_eq_some_iff.1 hk
  unfold coldTables
  rw [List.take_add_one, hk, List.foldlM_append]
  simp

/-- All regions can be registered. -/
theorem coldTables_all : coldTables coldInits.length = some (bootTable, bootIds) := rfl

theorem coldTables_isSome {k : Nat} (hk : k ≤ coldInits.length) : (coldTables k).isSome := by
  have h : ∀ j : Fin (coldInits.length + 1), (coldTables j).isSome := by decide +kernel
  exact h ⟨k, Nat.lt_succ_of_le hk⟩

/-- The registers after the first `k` calls of `pmp_set_keystone`. -/
def programmed (k : Nat) (r : PmpRegs) : PmpRegs :=
  ((smInitSets bootIds).take k).foldl (fun r c => (pmpSetKeystone bootTable r c.1 c.2).1)
    (pmpInit r)

theorem programmed_succ {k region : Nat} {perm : Byte}
    (hk : (smInitSets bootIds)[k]? = some (region, perm)) (r : PmpRegs) :
    programmed (k + 1) r = (pmpSetKeystone bootTable (programmed k r) region perm).1 := by
  unfold programmed
  rw [List.take_add_one, hk, List.foldl_append]
  rfl

theorem programmed_all {k : Nat} (hk : (smInitSets bootIds)[k]? = none) (r : PmpRegs) :
    programmed k r = smInitHart bootTable bootIds r := by
  unfold programmed smInitHart
  rw [List.take_of_length_le (List.getElem?_eq_none_iff.1 hk)]

theorem hartidToScratch_injective (area : Word) {i j : Nat} (hi : i < NUMBER_HARTS)
    (hj : j < NUMBER_HARTS)
    (h : hartidToScratch area (BitVec.ofNat 64 i) = hartidToScratch area (BitVec.ofNat 64 j)) :
    i = j := by
  have hi' : i < 5 := hi
  have hj' : j < 5 := hj
  unfold hartidToScratch SCRATCH_SIZE NUMBER_HARTS at h
  generalize area + BitVec.ofNat 64 5 * 8192 = base at h
  bv_omega

/-! ## Stages -/

/-- How far booting has got, and the harts that won the lotteries. -/
inductive Stage (H : Type*)
  | reset
  /-- The first winner is at `pc`. -/
  | preparing (winner : H) (pc : BootPc)
  | prepared (winner : H)
  /-- The second winner has registered `k` regions. -/
  | initialising (winner cold : H) (k : Nat)
  | ready (winner : H)

def Stage.winner : Stage H → Option H
  | .reset => none
  | .preparing w _ | .prepared w | .initialising w _ _ | .ready w => some w

/-- The first lottery stays won. -/
def Stage.Follows (st st' : Stage H) : Prop := ∀ w, st.winner = some w → st'.winner = some w

namespace BootPc

theorem prepares_excludes {pc : BootPc} (h : pc.prepares) :
    pc ≠ .start ∧ pc ≠ .waitInit ∧ (∀ k, pc ≠ .initRegion k) ∧ ¬ pc.waits ∧ ¬ pc.early ∧
        ¬ pc.late := by
  cases pc <;> simp [prepares, waits, early, late] at h ⊢

theorem programs_excludes {pc : BootPc} (h : pc.programs) :
    pc ≠ .start ∧ pc ≠ .waitInit ∧ (∀ k, pc ≠ .initRegion k) ∧ ¬ pc.waits ∧ ¬ pc.early ∧
        ¬ pc.prepares := by
  cases pc <;> simp [programs, prepares, waits, early] at h ⊢

end BootPc

/-- Where hart `h` may be. -/
def Stage.Allows (h : H) (pc : BootPc) : Stage H → Prop
  | .reset => pc = .start
  | .preparing w pc' => (h = w → pc = pc') ∧ (h ≠ w → pc.waits)
  | .prepared _ => pc.early
  | .initialising _ cold k =>
    (h = cold → pc = .initRegion k) ∧ (h ≠ cold → pc.early ∨ pc = .waitInit)
  | .ready _ => pc.late

namespace Booting

variable (s : Booting H)

def Zeroed : BssWord → Prop
  | .coldbootLottery => s.coldbootLottery = 0
  | .smInitDone => s.smInitDone = 0
  | .tables => s.table = PmpTable.empty ∧ s.ids = zeroIds
  | .other => True

/-- The scratch spaces of the first `n` harts, as hart `w` fills them in. -/
def Scratches (cfg : BootConfig H) (w : H) (n : Nat) : Prop :=
  ∀ i < n, s.scratch (hartidToScratch cfg.scratchArea (BitVec.ofNat 64 i)) =
    ⟨BitVec.ofNat 64 i, cfg.a1 w, cfg.a2 w⟩ ∧
    s.scratchAddrs i = hartidToScratch cfg.scratchArea (BitVec.ofNat 64 i)

/-- What hart `w` has done when it is at `pc`. -/
def Prepares (cfg : BootConfig H) (w : H) : BootPc → Prop
  | .bssZero rest => rest ≠ [] ∧ ∃ done, cfg.bss = done ++ rest ∧ ∀ word ∈ done, s.Zeroed word
  | .scratchInit t1 => (∀ word ∈ cfg.bss, s.Zeroed word) ∧ t1 < NUMBER_HARTS ∧ s.Scratches cfg w t1
  | .fdtRelocDone => (∀ word ∈ cfg.bss, s.Zeroed word) ∧ s.Scratches cfg w NUMBER_HARTS
  | _ => False

/-- What the shared variables hold. -/
def Shared (cfg : BootConfig H) : Stage H → Prop
  | .reset => s.bootStatus = 0
  | .preparing w pc => s.bootStatus = 0 ∧ s.Prepares cfg w pc
  | .prepared w =>
    s.bootStatus = BOOT_STATUS_BOOT_HART_DONE ∧ s.Scratches cfg w NUMBER_HARTS ∧
      ∀ word ∈ cfg.bss, s.Zeroed word
  | .initialising w _ k =>
    s.bootStatus = BOOT_STATUS_BOOT_HART_DONE ∧ s.Scratches cfg w NUMBER_HARTS ∧
      s.coldbootLottery = 1 ∧ s.smInitDone = 0 ∧ k ≤ coldInits.length ∧
      coldTables k = some (s.table, s.ids)
  | .ready w =>
    s.bootStatus = BOOT_STATUS_BOOT_HART_DONE ∧ s.Scratches cfg w NUMBER_HARTS ∧
      s.coldbootLottery = 1 ∧ s.smInitDone = 1 ∧ s.table = bootTable ∧ s.ids = bootIds

end Booting

/-- The hart has found its scratch space. -/
def Indexed (cfg : BootConfig H) (h : H) (x : BootHart) : Prop :=
  (cfg.mhartid h).toNat < NUMBER_HARTS ∧ x.scratch = hartidToScratch cfg.scratchArea (cfg.mhartid h)

/-- What hart `h` has of its own at `pc`; it had the registers `regs h` at reset. -/
def OwnAt (cfg : BootConfig H) (regs : H → PmpRegs) (winner : Option H) (h : H) (x : BootHart) :
    BootPc → Prop
  | .startHang => NUMBER_HARTS ≤ (cfg.mhartid h).toNat
  | .monInit | .initRegion _ | .waitInit => Indexed cfg h x ∧ x.pmp = regs h
  | .program k => Indexed cfg h x ∧ x.pmp = programmed k (regs h)
  | .enterOsbi => Indexed cfg h x ∧ x.pmp = smInitHart bootTable bootIds (regs h)
  | .osbi => ∃ w, winner = some w ∧ x.HandedOver cfg w h (regs h)
  | _ => x.pmp = regs h

def Own (cfg : BootConfig H) (regs : H → PmpRegs) (winner : Option H) (h : H) (x : BootHart) :
    Prop :=
  OwnAt cfg regs winner h x x.pc

/-! ## One step -/

section Frame

variable {s : Booting H} {h : H}

theorem zeroed_clear {word word' : BssWord} (hz : word = word' ∨ s.Zeroed word') :
    (s.clear word).Zeroed word' := by
  rcases hz with rfl | hz
  · cases word <;> simp [Booting.clear, Booting.Zeroed]
  · cases word <;> cases word' <;> simp_all [Booting.clear, Booting.Zeroed]

theorem clear_hart (word : BssWord) : (s.clear word).hart = s.hart := by cases word <;> rfl

theorem clear_others (word : BssWord) : (s.clear word).relocLottery = s.relocLottery ∧
    (s.clear word).bootStatus = s.bootStatus := by cases word <;> exact ⟨rfl, rfl⟩

theorem initScratch_scratch (t1 : Nat) : (s.initScratch cfg h t1).scratch =
    Function.update s.scratch (hartidToScratch cfg.scratchArea (BitVec.ofNat 64 t1))
      ⟨BitVec.ofNat 64 t1, cfg.a1 h, cfg.a2 h⟩ := rfl

theorem initScratch_scratchAddrs (t1 : Nat) : (s.initScratch cfg h t1).scratchAddrs =
    Function.update s.scratchAddrs t1 (hartidToScratch cfg.scratchArea (BitVec.ofNat 64 t1)) := rfl

variable [DecidableEq H]

theorem setHart_self (x : BootHart) : (s.setHart h x).hart h = x := Function.update_self _ _ _

theorem setHart_of_ne {h' : H} (hne : h' ≠ h) (x : BootHart) :
    (s.setHart h x).hart h' = s.hart h' :=
  Function.update_of_ne hne _ _

theorem shared_setPc (s : Booting H) (h : H) (pc : BootPc) (st : Stage H) (hs : s.Shared cfg st) :
    (s.setPc h pc).Shared cfg st := hs

end Frame

section Stands

variable [Fintype H] {regs : H → PmpRegs} {s : Booting H} {st : Stage H} {h : H}

/-- The harts that are past the first lottery. -/
def Booting.passed (s : Booting H) : Finset H := Finset.univ.filter fun h => (s.hart h).pc ≠ .start

/-- The state is in stage `st`. -/
structure Stands (cfg : BootConfig H) (regs : H → PmpRegs) (s : Booting H) (st : Stage H) :
    Prop where
  lottery : s.relocLottery = BitVec.ofNat 32 s.passed.card
  shared : s.Shared cfg st
  allows : ∀ h, st.Allows h (s.hart h).pc
  own : ∀ h, Own cfg regs st.winner h (s.hart h)
  winner : ∀ w, st.winner = some w → (s.hart w).pc ≠ .start

theorem Stands.own_at (hs : Stands cfg regs s st) {pc : BootPc} (hpc : (s.hart h).pc = pc) :
    OwnAt cfg regs st.winner h (s.hart h) pc := hpc ▸ hs.own h

/-- The first winner is in its part of the code. -/
theorem Stands.prepares {w : H} {pc : BootPc} (hs : Stands cfg regs s (.preparing w pc)) :
    pc.prepares := by
  have h := hs.shared.2
  cases pc <;> first | exact trivial | exact h.elim

end Stands

section Step

variable [DecidableEq H] [Fintype H] {regs : H → PmpRegs} {s : Booting H} {st : Stage H} {h : H}

theorem passed_setHart {x : BootHart} (hold : (s.hart h).pc ≠ .start) (hnew : x.pc ≠ .start) :
    (s.setHart h x).passed = s.passed := by
  unfold Booting.passed
  apply Finset.filter_congr
  intro h' _
  by_cases heq : h' = h
  · subst heq
    rw [setHart_self]
    exact iff_of_true hnew hold
  · rw [setHart_of_ne heq]

theorem passed_start {x : BootHart} (hold : (s.hart h).pc = .start) (hnew : x.pc ≠ .start) :
    (s.setHart h x).passed.card = s.passed.card + 1 := by
  have hmem : h ∉ s.passed := by simp [Booting.passed, hold]
  have hins : (s.setHart h x).passed = insert h s.passed := by
    ext h'
    by_cases heq : h' = h
    · subst heq
      simp [Booting.passed, setHart_self, hnew]
    · simp [Booting.passed, setHart_of_ne heq, heq]
  rw [hins, Finset.card_insert_of_notMem hmem]

/-- A step of hart `h` leads from stage `st` to stage `st'`: it is enough to look at the shared
variables and at that hart, if the other harts may be where they are. -/
theorem Stands.of_step (hs : Stands cfg regs s st) {s' : Booting H} {st' : Stage H} {x : BootHart}
    (hhart : s'.hart = Function.update s.hart h x)
    (hlot : s'.relocLottery = BitVec.ofNat 32 (s.setHart h x).passed.card) (hnew : x.pc ≠ .start)
    (hshared : s'.Shared cfg st') (hwin : ∀ w, st'.winner = some w → w = h ∨ st.winner = some w)
    (hx : st'.Allows h x.pc ∧ Own cfg regs st'.winner h x)
    (hothers : ∀ h' ≠ h,
      st'.Allows h' (s.hart h').pc ∧ Own cfg regs st'.winner h' (s.hart h')) :
    Stands cfg regs s' st' := by
  have hself : s'.hart h = x := by rw [hhart, Function.update_self]
  have hne : ∀ h', h' ≠ h → s'.hart h' = s.hart h' := fun h' hne => by
    rw [hhart, Function.update_of_ne hne]
  have hall : ∀ h', st'.Allows h' (s'.hart h').pc ∧ Own cfg regs st'.winner h' (s'.hart h') := by
    intro h'
    by_cases heq : h' = h
    · subst heq
      rw [hself]
      exact hx
    · rw [hne h' heq]
      exact hothers h' heq
  refine ⟨?_, hshared, fun h' => (hall h').1, fun h' => (hall h').2, ?_⟩
  · rw [hlot]
    unfold Booting.passed Booting.setHart
    rw [hhart]
  · intro w hw
    by_cases heq : w = h
    · subst heq
      rw [hself]
      exact hnew
    · rw [hne w heq]
      exact hs.winner w ((hwin w hw).resolve_left heq)

/-- A step after the first lottery. -/
theorem Stands.move (hs : Stands cfg regs s st) {s' : Booting H} {st' : Stage H} {x : BootHart}
    (hhart : s'.hart = Function.update s.hart h x) (hlot : s'.relocLottery = s.relocLottery)
    (hold : (s.hart h).pc ≠ .start) (hnew : x.pc ≠ .start) (hshared : s'.Shared cfg st')
    (hwinner : st'.winner = st.winner) (hallow : st'.Allows h x.pc)
    (hothers : ∀ h' ≠ h, st.Allows h' (s.hart h').pc → st'.Allows h' (s.hart h').pc)
    (hown : Own cfg regs st.winner h x) : Stands cfg regs s' st' := by
  refine hs.of_step hhart ?_ hnew hshared ?_ ⟨hallow, hwinner ▸ hown⟩ ?_
  · rw [hlot, passed_setHart hold hnew, hs.lottery]
  · exact fun w hw => .inr (hwinner ▸ hw)
  · exact fun h' hne => ⟨hothers h' hne (hs.allows h'), hwinner ▸ hs.own h'⟩

/-- A step after the first lottery that leaves the shared variables alone. -/
theorem Stands.stay (hs : Stands cfg regs s st) {x : BootHart} (hold : (s.hart h).pc ≠ .start)
    (hnew : x.pc ≠ .start) (hallow : st.Allows h x.pc) (hown : Own cfg regs st.winner h x) :
    Stands cfg regs (s.setHart h x) st :=
  hs.move rfl rfl hold hnew hs.shared rfl hallow (fun _ _ ha => ha) hown

omit [Fintype H] in
theorem step_start (hpc : (s.hart h).pc = .start) :
    s.step cfg h = { s with relocLottery := s.relocLottery + 1 }.setPc h
      (if s.relocLottery = 0 then .bssZero cfg.bss else .waitForBootHart) := by
  unfold Booting.step
  rw [hpc]

/-- The lottery counts the harts that have taken part. -/
theorem Stands.lottery_succ (hcard : Fintype.card H ≤ 2 ^ 32) (hs : Stands cfg regs s st)
    (hpc : (s.hart h).pc = .start) {x : BootHart} (hx : x.pc ≠ .start) :
    s.relocLottery + 1 = BitVec.ofNat 32 (s.setHart h x).passed.card ∧ s.passed.card < 2 ^ 32 := by
  have hmem : h ∉ s.passed := by simp [Booting.passed, hpc]
  have hlt : s.passed.card < 2 ^ 32 := (Finset.card_lt_univ_of_notMem hmem).trans_le hcard
  refine ⟨?_, hlt⟩
  rw [hs.lottery, passed_start hpc hx]
  bv_omega

/-- Whoever takes part in the first lottery first wins it. -/
theorem Stands.first (hcard : Fintype.card H ≤ 2 ^ 32) (hbss : cfg.bss ≠ [])
    (hs : Stands cfg regs s .reset) (h : H) :
    Stands cfg regs (s.step cfg h) (.preparing h (.bssZero cfg.bss)) := by
  have hall : ∀ h', (s.hart h').pc = .start := hs.allows
  have hpmp : (s.hart h).pmp = regs h := hs.own_at (hall h)
  have hzero : s.relocLottery = 0 := by
    rw [hs.lottery, show s.passed = ∅ by ext h'; simp [Booting.passed, hall h']]
    rfl
  rw [step_start (hall h), if_pos hzero]
  refine hs.of_step rfl (hs.lottery_succ hcard (hall h) (by simp)).1 (by simp)
    ⟨hs.shared, hbss, [], rfl, by simp⟩ (fun w hw => .inl (Option.some.inj hw).symm)
    ⟨⟨fun _ => rfl, fun hne => absurd rfl hne⟩, hpmp⟩ fun h' hne =>
      ⟨⟨fun heq => absurd heq hne, ?_⟩, ?_⟩
  · intro _
    rw [hall h']
    trivial
  · have := hs.own_at (hall h')
    unfold Own
    rw [hall h']
    exact this

/-- Taking part in the first lottery. It is won if nobody has taken part before. -/
theorem Stands.start (hcard : Fintype.card H ≤ 2 ^ 32) (hbss : cfg.bss ≠ [])
    (hs : Stands cfg regs s st) (hpc : (s.hart h).pc = .start) :
    ∃ st', Stands cfg regs (s.step cfg h) st' ∧ st.Follows st' := by
  have hpmp : (s.hart h).pmp = regs h := hs.own_at hpc
  cases hw : st.winner with
  | none =>
    obtain rfl : st = .reset := by cases st <;> first | rfl | cases hw
    exact ⟨_, hs.first hcard hbss h, fun _ hw => nomatch hw⟩
  | some w =>
    have hlot := fun x hx => hs.lottery_succ hcard hpc (x := x) hx
    have hmem : w ∈ s.passed := by simp [Booting.passed, hs.winner w hw]
    have hpos : 0 < s.passed.card := Finset.card_pos.2 ⟨w, hmem⟩
    have hlt := (hlot { s.hart h with pc := .waitForBootHart } (by simp)).2
    have hne : s.relocLottery ≠ 0 := by
      rw [hs.lottery]
      bv_omega
    rw [step_start hpc, if_neg hne]
    refine ⟨st, hs.of_step rfl (hlot _ (by simp)).1 (by simp) hs.shared
      (fun _ hw => .inr hw) ⟨?_, hpmp⟩ fun h' _ => ⟨hs.allows h', hs.own h'⟩, fun _ hw => hw⟩
    have ha := hs.allows h
    have hwne : h ≠ w := fun heq => hs.winner w hw (heq ▸ hpc)
    cases st with
    | reset => cases hw
    | preparing w' pc =>
      obtain rfl : w' = w := Option.some.inj hw
      exact ⟨fun heq => absurd heq hwne, fun _ => trivial⟩
    | prepared => trivial
    | initialising w' cold k =>
      refine ⟨fun heq => ?_, fun _ => .inl trivial⟩
      have := hpc.symm.trans (ha.1 heq)
      cases this
    | ready => trivial

/-- A hart that prepares is the one that has won the first lottery. -/
theorem Stands.eq_preparing (hs : Stands cfg regs s st) (hp : (s.hart h).pc.prepares) :
    st = .preparing h (s.hart h).pc := by
  obtain ⟨hstart, hwaitInit, hinit, hwaits, hearly, hlate⟩ := BootPc.prepares_excludes hp
  have ha := hs.allows h
  cases st with
  | reset => exact absurd ha hstart
  | preparing w pc' =>
    by_cases heq : h = w
    · rw [ha.1 heq, heq]
    · exact absurd (ha.2 heq) hwaits
  | prepared => exact absurd ha hearly
  | initialising w cold k =>
    by_cases heq : h = cold
    · exact absurd (ha.1 heq) (hinit k)
    · exact (ha.2 heq).elim (absurd · hearly) (absurd · hwaitInit)
  | ready => exact absurd ha hlate

/-- A hart that registers regions is the one that has won the second lottery. -/
theorem Stands.eq_initialising (hs : Stands cfg regs s st) {k : Nat}
    (hpc : (s.hart h).pc = .initRegion k) :
    ∃ w, st = .initialising w h k := by
  have ha := hs.allows h
  rw [hpc] at ha
  cases st with
  | reset => cases ha
  | preparing w pc' =>
    by_cases heq : h = w
    · exact absurd (ha.1 heq).symm ((BootPc.prepares_excludes hs.prepares).2.2.1 k)
    · exact (ha.2 heq).elim
  | prepared => exact ha.elim
  | initialising w cold k' =>
    by_cases heq : h = cold
    · cases ha.1 heq
      exact ⟨w, by rw [heq]⟩
    · exact (ha.2 heq).elim (fun h => h.elim) (fun h => nomatch h)
  | ready => exact ha.elim

/-- A hart that programs its registers, or is past that, has seen `sm_init_done`. -/
theorem Stands.eq_ready (hs : Stands cfg regs s st) (hp : (s.hart h).pc.programs) :
    ∃ w, st = .ready w := by
  obtain ⟨hstart, hwaitInit, hinit, hwaits, hearly, hprep⟩ := BootPc.programs_excludes hp
  have ha := hs.allows h
  cases st with
  | reset => exact absurd ha hstart
  | preparing w pc' =>
    by_cases heq : h = w
    · rw [ha.1 heq] at hprep
      exact absurd hs.prepares hprep
    · exact absurd (ha.2 heq) hwaits
  | prepared => exact absurd ha hearly
  | initialising w cold k =>
    by_cases heq : h = cold
    · exact absurd (ha.1 heq) (hinit k)
    · exact (ha.2 heq).elim (absurd · hearly) (absurd · hwaitInit)
  | ready w => exact ⟨w, rfl⟩

/-! ### Preparing -/

/-- Clearing a word of the bss. -/
theorem Stands.bssZero (hs : Stands cfg regs s st) {rest : List BssWord}
    (hpc : (s.hart h).pc = .bssZero rest) :
    ∃ st', Stands cfg regs (s.step cfg h) st' ∧ st.Follows st' := by
  obtain rfl : st = .preparing h (s.hart h).pc := hs.eq_preparing (by rw [hpc]; trivial)
  have hown : (s.hart h).pmp = regs h := hs.own_at hpc
  obtain ⟨hstatus, hprep⟩ := hs.shared
  rw [hpc] at hs hprep
  obtain ⟨hne, done, hbss, hdone⟩ := hprep
  obtain ⟨word, rest, rfl⟩ := List.exists_cons_of_ne_nil hne
  have hzero : ∀ word' ∈ done ++ [word], (s.clear word).Zeroed word' := by
    intro word' hmem
    rcases List.mem_append.1 hmem with hmem | hmem
    · exact zeroed_clear (.inr (hdone word' hmem))
    · exact zeroed_clear (.inl (List.mem_singleton.1 hmem).symm)
  have hstep : s.step cfg h =
      (s.clear word).setPc h (if rest = [] then .scratchInit 0 else .bssZero rest) := by
    unfold Booting.step
    rw [hpc]
  have hhart : ∀ pc, ((s.clear word).setPc h pc).hart =
      Function.update s.hart h { s.hart h with pc := pc } := by
    intro pc
    unfold Booting.setPc Booting.setHart
    rw [clear_hart]
  have hothers : ∀ pc, ∀ h' ≠ h,
      (Stage.preparing h (.bssZero (word :: rest))).Allows h' (s.hart h').pc →
          (Stage.preparing h pc).Allows h' (s.hart h').pc :=
    fun pc h' hne ha => ⟨fun heq => absurd heq hne, ha.2⟩
  rw [hstep]
  split
  · next hlast =>
    subst hlast
    refine ⟨.preparing h (.scratchInit 0), hs.move (hhart _)
      (clear_others word).1 (by simp [hpc])
      (by simp) ⟨(clear_others word).2.trans hstatus, fun word' hmem => ?_, by decide,
      fun i hi => absurd hi (by simp)⟩ rfl ⟨fun _ => rfl, fun hne =>
        absurd rfl hne⟩ (hothers _) hown, fun _ hw => hw⟩
    rw [hbss] at hmem
    exact hzero word' hmem
  · next hmore =>
    refine ⟨.preparing h (.bssZero rest), hs.move (hhart _)
      (clear_others word).1 (by simp [hpc]) (by simp) ⟨(clear_others word).2.trans hstatus, hmore,
      done ++ [word], ?_, hzero⟩ rfl ⟨fun _ => rfl, fun hne => absurd rfl hne⟩ (hothers _) hown,
      fun _ hw => hw⟩
    rw [hbss, List.append_assoc]
    rfl

/-- Filling in a scratch space. -/
theorem Stands.scratchInit (hs : Stands cfg regs s st) {t1 : Nat}
    (hpc : (s.hart h).pc = .scratchInit t1) :
    ∃ st', Stands cfg regs (s.step cfg h) st' ∧ st.Follows st' := by
  obtain rfl : st = .preparing h (s.hart h).pc := hs.eq_preparing (by rw [hpc]; trivial)
  have hown : (s.hart h).pmp = regs h := hs.own_at hpc
  obtain ⟨hstatus, hprep⟩ := hs.shared
  rw [hpc] at hs hprep
  obtain ⟨hzero, hlt, hscratch⟩ := hprep
  have hfill : (s.initScratch cfg h t1).Scratches cfg h (t1 + 1) := by
    intro i hi
    rw [initScratch_scratch, initScratch_scratchAddrs]
    by_cases heq : i = t1
    · rw [heq, Function.update_self, Function.update_self]
      exact ⟨rfl, rfl⟩
    · have hi' : i < t1 := by omega
      have hne : hartidToScratch cfg.scratchArea (BitVec.ofNat 64 i) ≠
          hartidToScratch cfg.scratchArea (BitVec.ofNat 64 t1) :=
        fun h => heq (hartidToScratch_injective _ (hi'.trans hlt) hlt h)
      rw [Function.update_of_ne hne, Function.update_of_ne heq]
      exact hscratch i hi'
  have hzero' : ∀ word ∈ cfg.bss, (s.initScratch cfg h t1).Zeroed word := by
    intro word hmem
    have := hzero word hmem
    cases word <;> exact this
  have hstep : s.step cfg h = (s.initScratch cfg h t1).setPc h
      (if t1 + 1 < NUMBER_HARTS then .scratchInit (t1 + 1) else .fdtRelocDone) := by
    unfold Booting.step
    rw [hpc]
  have hothers : ∀ pc, ∀ h' ≠ h, (Stage.preparing h (.scratchInit t1)).Allows h' (s.hart h').pc →
      (Stage.preparing h pc).Allows h' (s.hart h').pc :=
    fun pc h' hne ha => ⟨fun heq => absurd heq hne, ha.2⟩
  rw [hstep]
  split
  · next hmore =>
    exact ⟨.preparing h (.scratchInit (t1 + 1)), hs.move rfl rfl (by simp [hpc]) (by simp)
      (shared_setPc _ _ _ (.preparing h _) ⟨hstatus, hzero', hmore, hfill⟩) rfl
      ⟨fun _ => rfl, fun hne => absurd rfl hne⟩ (hothers _) hown, fun _ hw => hw⟩
  · next hlast =>
    have hall : t1 + 1 = NUMBER_HARTS := by omega
    exact ⟨.preparing h .fdtRelocDone, hs.move rfl rfl (by simp [hpc]) (by simp)
      (shared_setPc _ _ _ (.preparing h _) ⟨hstatus, hzero', hall ▸ hfill⟩) rfl
      ⟨fun _ => rfl, fun hne => absurd rfl hne⟩ (hothers _) hown, fun _ hw => hw⟩

/-- The first winner releases the others. -/
theorem Stands.fdtRelocDone (hs : Stands cfg regs s st) (hpc : (s.hart h).pc = .fdtRelocDone) :
    ∃ st', Stands cfg regs (s.step cfg h) st' ∧ st.Follows st' := by
  obtain rfl : st = .preparing h (s.hart h).pc := hs.eq_preparing (by rw [hpc]; trivial)
  have hown : (s.hart h).pmp = regs h := hs.own_at hpc
  obtain ⟨hstatus, hprep⟩ := hs.shared
  rw [hpc] at hs hprep
  obtain ⟨hzero, hscratch⟩ := hprep
  have hzero' : ∀ word ∈ cfg.bss,
      Booting.Zeroed { s with bootStatus := BOOT_STATUS_BOOT_HART_DONE } word := by
    intro word hmem
    have := hzero word hmem
    cases word <;> exact this
  have hstep : s.step cfg h =
      Booting.setPc { s with bootStatus := BOOT_STATUS_BOOT_HART_DONE } h .startWarm := by
    unfold Booting.step
    rw [hpc]
  rw [hstep]
  refine ⟨.prepared h, hs.move rfl rfl (by simp [hpc]) (by simp)
    (shared_setPc _ _ _ (.prepared h) ⟨rfl, hscratch, hzero'⟩) rfl trivial ?_ hown, fun _ hw => hw⟩
  intro h' hne ha
  have hwaits := ha.2 hne
  show (s.hart h').pc.early
  generalize (s.hart h').pc = pc at hwaits
  cases pc <;> first | exact trivial | exact hwaits.elim

/-! ### Waiting for the first winner, and finding the scratch space -/

omit [DecidableEq H] in
/-- After `_boot_status` has been set a hart may be anywhere before the second lottery. -/
theorem Stands.allows_early (hs : Stands cfg regs s st) (hstatus : s.bootStatus ≠ 0) {pc : BootPc}
    (hpc : (s.hart h).pc.early) (hearly : pc.early) (hlate : pc.late) : st.Allows h pc := by
  have ha := hs.allows h
  cases st with
  | reset => exact absurd hs.shared hstatus
  | preparing => exact absurd hs.shared.1 hstatus
  | prepared => exact hearly
  | initialising w cold k =>
    refine ⟨fun heq => ?_, fun _ => .inl hearly⟩
    rw [ha.1 heq] at hpc
    exact hpc.elim
  | ready => exact hlate

theorem Stands.waitForBootHart (hs : Stands cfg regs s st)
    (hpc : (s.hart h).pc = .waitForBootHart) :
    ∃ st', Stands cfg regs (s.step cfg h) st' ∧ st.Follows st' := by
  have hown : (s.hart h).pmp = regs h := hs.own_at hpc
  have hstep : s.step cfg h = if s.bootStatus = BOOT_STATUS_BOOT_HART_DONE then s.setPc h
      .startWarm else s := by
    unfold Booting.step
    rw [hpc]
  rw [hstep]
  split
  · next hstatus =>
    have hne : s.bootStatus ≠ 0 := by rw [hstatus]; decide
    exact ⟨st, hs.stay (by simp [hpc]) (by simp)
      (hs.allows_early hne (by rw [hpc]; trivial) trivial trivial) hown, fun _ hw => hw⟩
  · exact ⟨st, hs, fun _ hw => hw⟩

/-- A hart that is past the wait has been released. -/
theorem Stands.released (hs : Stands cfg regs s st)
    (hpc : (s.hart h).pc = .startWarm ∨ (s.hart h).pc = .monInit ∨ (s.hart h).pc = .waitInit) :
    s.bootStatus = BOOT_STATUS_BOOT_HART_DONE := by
  have ha := hs.allows h
  cases st with
  | reset =>
    rw [show (s.hart h).pc = .start from ha] at hpc
    simp at hpc
  | preparing w pc =>
    by_cases heq : h = w
    · have hprep := hs.prepares
      rw [← ha.1 heq] at hprep
      rcases hpc with hpc | hpc | hpc <;> rw [hpc] at hprep <;> exact hprep.elim
    · have hwaits := ha.2 heq
      rcases hpc with hpc | hpc | hpc <;> rw [hpc] at hwaits <;> exact hwaits.elim
  | prepared => exact hs.shared.1
  | initialising => exact hs.shared.1
  | ready => exact hs.shared.1

theorem Stands.startWarm (hok : cfg.Ok) (hs : Stands cfg regs s st)
    (hpc : (s.hart h).pc = .startWarm) :
    ∃ st', Stands cfg regs (s.step cfg h) st' ∧ st.Follows st' := by
  have hown : (s.hart h).pmp = regs h := hs.own_at hpc
  have hne : s.bootStatus ≠ 0 := by
    rw [hs.released (.inl hpc)]
    decide
  have hid := hok.mhartid h
  have hsle : (BitVec.ofNat 64 NUMBER_HARTS).sle (cfg.mhartid h) = true ↔
      NUMBER_HARTS ≤ (cfg.mhartid h).toNat := by
    have hint : (cfg.mhartid h).toInt = (cfg.mhartid h).toNat :=
      BitVec.toInt_eq_toNat_of_lt (by omega)
    rw [BitVec.sle_iff_toInt_le, hint]
    show (5 : Int) ≤ _ ↔ 5 ≤ _
    omega
  have hstep : s.step cfg h = if (BitVec.ofNat 64 NUMBER_HARTS).sle (cfg.mhartid h) then
      s.setPc h .startHang
      else s.setHart h { s.hart h with
        pc := .monInit
        scratch := hartidToScratch cfg.scratchArea (cfg.mhartid h)
        mscratch := hartidToScratch cfg.scratchArea (cfg.mhartid h) } := by
    unfold Booting.step
    rw [hpc]
  have hallows : ∀ pc : BootPc, pc.early → pc.late → st.Allows h pc := fun pc =>
    hs.allows_early hne (by rw [hpc]; trivial)
  rw [hstep]
  split
  · next hge =>
    exact ⟨st, hs.stay (by simp [hpc]) (by simp) (hallows .startHang trivial trivial) (hsle.1 hge),
      fun _ hw => hw⟩
  · next hlt =>
    have hindex : (cfg.mhartid h).toNat < NUMBER_HARTS :=
      Nat.lt_of_not_le fun hge => hlt (hsle.2 hge)
    exact ⟨st, hs.stay (by simp [hpc]) (by simp) (hallows .monInit trivial trivial)
      ⟨⟨hindex, rfl⟩, hown⟩, fun _ hw => hw⟩

/-! ### Registering the regions -/

/-- Taking part in the second lottery. -/
theorem Stands.monInit (hok : cfg.Ok) (hs : Stands cfg regs s st) (hpc : (s.hart h).pc = .monInit) :
    ∃ st', Stands cfg regs (s.step cfg h) st' ∧ st.Follows st' := by
  have hown : Indexed cfg h (s.hart h) ∧ (s.hart h).pmp = regs h := hs.own_at hpc
  have hstep : s.step cfg h = Booting.setPc { s with coldbootLottery := 1 } h
      (if s.coldbootLottery = 0 then .initRegion 0 else .waitInit) := by
    unfold Booting.step
    rw [hpc]
  have hstatus := hs.released (.inr (.inl hpc))
  have hne : s.bootStatus ≠ 0 := by rw [hstatus]; decide
  have hlater : s.coldbootLottery = 1 → st.Allows h .waitInit →
      ∃ st', Stands cfg regs (s.step cfg h) st' ∧ st.Follows st' := by
    intro hcold hallows
    have hs' : ({ s with coldbootLottery := 1 } : Booting H) = s := by rw [← hcold]
    rw [hstep, hs', hcold, if_neg (by decide)]
    exact ⟨st, hs.stay (by simp [hpc]) (by simp) hallows hown, fun _ hw => hw⟩
  cases st with
  | reset => exact absurd hs.shared hne
  | preparing => exact absurd hs.shared.1 hne
  | prepared w =>
    obtain ⟨-, hscratch, hzero⟩ := hs.shared
    have hcold : s.coldbootLottery = 0 := hzero _ hok.coldbootLottery
    have hdone : s.smInitDone = 0 := hzero _ hok.smInitDone
    obtain ⟨htable, hids⟩ : s.table = PmpTable.empty ∧ s.ids = zeroIds := hzero _ hok.tables
    rw [hstep, if_pos hcold]
    refine ⟨.initialising w h 0, hs.move rfl rfl (by simp [hpc]) (by simp)
      (shared_setPc _ _ _ (.initialising w h 0)
        ⟨hstatus, hscratch, rfl, hdone, Nat.zero_le _, by rw [coldTables_zero, htable, hids]⟩)
      rfl ⟨fun _ => rfl, fun hne => absurd rfl hne⟩
      (fun h' hne ha => ⟨fun heq => absurd heq hne, ?_⟩) hown, fun _ hw => hw⟩
    exact fun _ => .inl ha
  | initialising w cold k =>
    refine hlater hs.shared.2.2.1 ⟨fun heq => ?_, fun _ => .inr rfl⟩
    have := hpc.symm.trans ((hs.allows h).1 heq)
    cases this
  | ready w => exact hlater hs.shared.2.2.1 trivial

/-- Registering a region, or releasing the others after the last one. -/
theorem Stands.initRegion (hs : Stands cfg regs s st) {k : Nat}
    (hpc : (s.hart h).pc = .initRegion k) :
    ∃ st', Stands cfg regs (s.step cfg h) st' ∧ st.Follows st' := by
  obtain ⟨w, rfl⟩ := hs.eq_initialising hpc
  have hown : Indexed cfg h (s.hart h) ∧ (s.hart h).pmp = regs h := hs.own_at hpc
  obtain ⟨hstatus, hscratch, hcold, hdone, hk, htables⟩ := hs.shared
  have hstep : s.step cfg h = s.coldInit h k := by
    unfold Booting.step
    rw [hpc]
  rw [hstep]
  unfold Booting.coldInit
  cases hinit : coldInits[k]? with
  | none =>
    have hall : k = coldInits.length := Nat.le_antisymm hk (List.getElem?_eq_none_iff.1 hinit)
    rw [hall, coldTables_all] at htables
    obtain ⟨htable, hids⟩ := Prod.mk.inj (Option.some.inj htables)
    refine ⟨.ready w, hs.move rfl rfl (by simp [hpc]) (by simp)
      (shared_setPc _ _ _ (.ready w) ⟨hstatus, hscratch, hcold, rfl, htable.symm, hids.symm⟩)
      rfl trivial ?_ hown, fun _ hw => hw⟩
    intro h' hne ha
    have hothers := ha.2 hne
    show (s.hart h').pc.late
    generalize (s.hart h').pc = pc at hothers
    cases pc <;> first | exact trivial | exact hothers.elim id (fun h => nomatch h)
  | some init =>
    obtain ⟨init, keep⟩ := init
    have hlt : k < coldInits.length := (List.getElem?_eq_some_iff.1 hinit).1
    have hsucc := coldTables_succ hinit
    rw [htables, Option.bind_some] at hsucc
    dsimp only at hsucc
    -- the registration succeeds, as all of them do
    obtain ⟨⟨table, region⟩, hmade⟩ : ∃ made, init s.table = some made := by
      have hsome := coldTables_isSome (k := k + 1) hlt
      rw [hsucc, Option.isSome_map] at hsome
      exact Option.isSome_iff_exists.1 hsome
    rw [hmade] at hsucc
    dsimp only
    rw [hmade]
    exact ⟨.initialising w h (k + 1), hs.move rfl rfl (by simp [hpc]) (by simp)
      (shared_setPc _ _ _ (.initialising w h (k + 1)) ⟨hstatus, hscratch, hcold, hdone, hlt, hsucc⟩)
      rfl ⟨fun _ => rfl, fun hne => absurd rfl hne⟩
      (fun h' hne ha => ⟨fun heq => absurd heq hne, ha.2⟩) hown, fun _ hw => hw⟩

/-! ### Programming the registers -/

theorem Stands.waitInit (hs : Stands cfg regs s st) (hpc : (s.hart h).pc = .waitInit) :
    ∃ st', Stands cfg regs (s.step cfg h) st' ∧ st.Follows st' := by
  have hown : Indexed cfg h (s.hart h) ∧ (s.hart h).pmp = regs h := hs.own_at hpc
  have hstep : s.step cfg h = if s.smInitDone ≠ 0 then
      s.setHart h { s.hart h with pc := .program 0, pmp := pmpInit (s.hart h).pmp } else s := by
    unfold Booting.step
    rw [hpc]
  have hne : s.bootStatus ≠ 0 := by
    rw [hs.released (.inr (.inr hpc))]
    decide
  rw [hstep]
  split
  · next hdone =>
    cases st with
    | reset => exact absurd hs.shared hne
    | preparing => exact absurd hs.shared.1 hne
    | prepared => exact absurd (hs.allows h) (by show ¬ (s.hart h).pc.early; rw [hpc]; exact id)
    | initialising => exact absurd hs.shared.2.2.2.1 hdone
    | ready w =>
      refine ⟨.ready w, hs.stay (by simp [hpc]) (by simp) trivial ⟨hown.1, ?_⟩, fun _ hw => hw⟩
      exact congrArg pmpInit hown.2
  · exact ⟨st, hs, fun _ hw => hw⟩

theorem Stands.program (hs : Stands cfg regs s st) {k : Nat} (hpc : (s.hart h).pc = .program k) :
    ∃ st', Stands cfg regs (s.step cfg h) st' ∧ st.Follows st' := by
  obtain ⟨w, rfl⟩ := hs.eq_ready (h := h) (by rw [hpc]; trivial)
  have hown : Indexed cfg h (s.hart h) ∧ (s.hart h).pmp = programmed k (regs h) := hs.own_at hpc
  obtain ⟨-, -, -, -, htable, hids⟩ := hs.shared
  have hstep : s.step cfg h = s.program h k := by
    unfold Booting.step
    rw [hpc]
  rw [hstep]
  unfold Booting.program
  rw [hids, htable]
  cases hset : (smInitSets bootIds)[k]? with
  | none =>
    exact ⟨.ready w, hs.stay (by simp [hpc]) (by simp) trivial
      ⟨hown.1, hown.2.trans (programmed_all hset _)⟩, fun _ hw => hw⟩
  | some set =>
    obtain ⟨region, perm⟩ := set
    refine ⟨.ready w, hs.stay (by simp [hpc]) (by simp) trivial ⟨hown.1, ?_⟩, fun _ hw => hw⟩
    show (pmpSetKeystone bootTable (s.hart h).pmp region perm).1 = programmed (k + 1) (regs h)
    rw [programmed_succ hset, hown.2]

theorem Stands.enterOsbi (hs : Stands cfg regs s st) (hpc : (s.hart h).pc = .enterOsbi) :
    ∃ st', Stands cfg regs (s.step cfg h) st' ∧ st.Follows st' := by
  obtain ⟨w, rfl⟩ := hs.eq_ready (h := h) (by rw [hpc]; trivial)
  obtain ⟨⟨hid, hscratch⟩, hpmp⟩ : Indexed cfg h (s.hart h) ∧
      (s.hart h).pmp = smInitHart bootTable bootIds (regs h) := hs.own_at hpc
  have hstep : s.step cfg h = s.enterOsbi h := by
    unfold Booting.step
    rw [hpc]
  have hindex : BitVec.ofNat 64 (cfg.mhartid h).toNat = cfg.mhartid h := BitVec.ofNat_toNat _ _
  have hargs := (hs.shared.2.1 _ hid).1
  rw [hindex, ← hscratch] at hargs
  rw [hstep]
  unfold Booting.enterOsbi
  refine ⟨.ready w, hs.stay (by simp [hpc]) (by simp) trivial ⟨w, rfl, rfl, hid, rfl, ?_, hargs⟩,
    fun _ hw => hw⟩
  show ({ (s.hart h).pmp with pmpcfg := _ } : PmpRegs) = _
  rw [hpmp]
  rfl

/-- Every step leads to a stage again. -/
theorem Stands.step (hcard : Fintype.card H ≤ 2 ^ 32) (hok : cfg.Ok) (hs : Stands cfg regs s st)
    (h : H) :
    ∃ st', Stands cfg regs (s.step cfg h) st' ∧ st.Follows st' := by
  have hbss : cfg.bss ≠ [] := List.ne_nil_of_mem hok.tables
  cases hpc : (s.hart h).pc with
  | start => exact hs.start hcard hbss hpc
  | bssZero rest => exact hs.bssZero hpc
  | scratchInit t1 => exact hs.scratchInit hpc
  | fdtRelocDone => exact hs.fdtRelocDone hpc
  | waitForBootHart => exact hs.waitForBootHart hpc
  | startWarm => exact hs.startWarm hok hpc
  | monInit => exact hs.monInit hok hpc
  | initRegion k => exact hs.initRegion hpc
  | waitInit => exact hs.waitInit hpc
  | program k => exact hs.program hpc
  | enterOsbi => exact hs.enterOsbi hpc
  | osbi =>
    have hstep : s.step cfg h = s := by unfold Booting.step; rw [hpc]
    exact ⟨st, hstep.symm ▸ hs, fun _ hw => hw⟩
  | startHang =>
    have hstep : s.step cfg h = s := by unfold Booting.step; rw [hpc]
    exact ⟨st, hstep.symm ▸ hs, fun _ hw => hw⟩

omit [DecidableEq H] in
theorem stands_reset (hreset : s.AtReset) : Stands cfg (fun h => (s.hart h).pmp) s .reset where
  lottery := by
    rw [hreset.relocLottery, show s.passed = ∅ by ext h; simp [Booting.passed, hreset.start h]]
    rfl
  shared := hreset.bootStatus
  allows := hreset.start
  own := fun h => by
    unfold Own
    rw [hreset.start h]
    rfl
  winner := fun w hw => nomatch hw

theorem Stands.run (hcard : Fintype.card H ≤ 2 ^ 32) (hok : cfg.Ok) (hs : Stands cfg regs s st)
    (is : List H) :
    ∃ st', Stands cfg regs (Lib.run (Booting.step cfg) s is) st' ∧ st.Follows st' := by
  have hstep : ∀ t h, (∃ st', Stands cfg regs t st' ∧ st.Follows st') →
      ∃ st', Stands cfg regs (t.step cfg h) st' ∧ st.Follows st' := by
    rintro t h ⟨st₁, hs₁, hfollows₁⟩
    obtain ⟨st₂, hs₂, hfollows₂⟩ := hs₁.step hcard hok h
    exact ⟨st₂, hs₂, fun w hw => hfollows₂ w (hfollows₁ w hw)⟩
  exact inv_run_all hstep is ⟨st, hs, fun _ hw => hw⟩

theorem stands_run (hcard : Fintype.card H ≤ 2 ^ 32) (hok : cfg.Ok) (hreset : s.AtReset)
    (is : List H) :
    ∃ st, Stands cfg (fun h => (s.hart h).pmp) (run (Booting.step cfg) s is) st := by
  obtain ⟨st, hs, -⟩ := (stands_reset hreset).run hcard hok is
  exact ⟨st, hs⟩

/-- After the first step the first lottery is won, by the hart that has made it. -/
theorem stands_run_cons (hcard : Fintype.card H ≤ 2 ^ 32) (hok : cfg.Ok) (hreset : s.AtReset)
    (w : H) (is : List H) :
    ∃ st, Stands cfg (fun h => (s.hart h).pmp) (run (Booting.step cfg) s (w :: is)) st ∧
      st.winner = some w := by
  have hbss : cfg.bss ≠ [] := List.ne_nil_of_mem hok.tables
  obtain ⟨st, hs, hfollows⟩ := ((stands_reset hreset).first hcard hbss w).run hcard hok is
  exact ⟨st, hs, hfollows w rfl⟩

/-- However the harts are interleaved, one hart at a time clears the bss and fills in the scratch
spaces, while the others are not past `_wait_for_boot_hart`. One hart at a time registers regions,
while the others are not past the wait in `sm_init`. Whoever programs PMP registers finds the whole
table, and nobody will write to it or clear it. -/
theorem boot_serialised (hcard : Fintype.card H ≤ 2 ^ 32) (hok : cfg.Ok) (hreset : s.AtReset)
    (is : List H) :
    (∀ h, ((run (Booting.step cfg) s is).hart h).pc.prepares →
      ∀ h' ≠ h, ((run (Booting.step cfg) s is).hart h').pc.waits) ∧
    (∀ h k, ((run (Booting.step cfg) s is).hart h).pc = .initRegion k →
      ∀ h' ≠ h, ((run (Booting.step cfg) s is).hart h').pc.early ∨
        ((run (Booting.step cfg) s is).hart h').pc = .waitInit) ∧
    (∀ h, ((run (Booting.step cfg) s is).hart h).pc.programs →
      (run (Booting.step cfg) s is).table = bootTable ∧
        (run (Booting.step cfg) s is).ids = bootIds ∧
      ∀ h', ((run (Booting.step cfg) s is).hart h').pc.late) := by
  obtain ⟨st, hs⟩ := stands_run hcard hok hreset is
  refine ⟨fun h hp h' hne => ?_, fun h k hpc h' hne => ?_, fun h hp => ?_⟩
  · obtain rfl := hs.eq_preparing hp
    exact (hs.allows h').2 hne
  · obtain ⟨w, rfl⟩ := hs.eq_initialising hpc
    exact (hs.allows h').2 hne
  · obtain ⟨w, rfl⟩ := hs.eq_ready hp
    obtain ⟨-, -, -, -, htable, hids⟩ := hs.shared
    exact ⟨htable, hids, hs.allows⟩

/-! ## Progress -/

/-- How many steps a hart has left at most. -/
def BootPc.left (cfg : BootConfig H) : BootPc → Nat
  | .start => 33 + cfg.bss.length
  | .bssZero rest => 32 + rest.length
  | .scratchInit t1 => 27 + (4 - t1)
  | .fdtRelocDone | .waitForBootHart => 26
  | .startWarm => 25
  | .monInit => 24
  | .initRegion k => 17 + (6 - k)
  | .waitInit => 16
  | .program k => 2 + (13 - k)
  | .enterOsbi => 1
  | .osbi | .startHang => 0

/-- A hart that does nothing in its step. -/
def Booting.Idle (s : Booting H) (h : H) : Prop :=
  ((s.hart h).pc = .waitForBootHart ∧ s.bootStatus ≠ BOOT_STATUS_BOOT_HART_DONE) ∨
    ((s.hart h).pc = .waitInit ∧ s.smInitDone = 0) ∨ (s.hart h).pc = .osbi ∨
      (s.hart h).pc = .startHang

omit [Fintype H] in
theorem step_of_idle (hidle : s.Idle h) : s.step cfg h = s := by
  unfold Booting.step
  rcases hidle with ⟨hpc, hstatus⟩ | ⟨hpc, hdone⟩ | hpc | hpc <;> rw [hpc]
  · exact if_neg hstatus
  · exact if_neg (not_not.2 hdone)

omit [Fintype H] in
/-- Any other hart has one step less to go. -/
theorem step_left (cfg : BootConfig H) (hidle : ¬ s.Idle h) :
    ∃ x : BootHart, (s.step cfg h).hart = Function.update s.hart h x ∧
      x.pc.left cfg < (s.hart h).pc.left cfg := by
  -- the other variables do not matter
  have hset : ∀ (t : Booting H) (x : BootHart) {pc : BootPc}, t.hart = s.hart →
      x.pc.left cfg < pc.left cfg → ∃ x' : BootHart,
        (t.setHart h x).hart = Function.update s.hart h x' ∧ x'.pc.left cfg < pc.left cfg :=
    fun t x _ ht hlt => ⟨x, by rw [← ht]; rfl, hlt⟩
  have hmove : ∀ (t : Booting H) {pc : BootPc} (pc' : BootPc), t.hart = s.hart →
      pc'.left cfg < pc.left cfg → ∃ x' : BootHart,
        (t.setPc h pc').hart = Function.update s.hart h x' ∧ x'.pc.left cfg < pc.left cfg :=
    fun t _ pc' ht hlt => hset t _ ht hlt
  unfold Booting.step
  cases hpc : (s.hart h).pc with
  | start =>
    dsimp only
    refine hmove _ _ rfl ?_
    split <;> simp only [BootPc.left] <;> omega
  | bssZero rest =>
    cases rest with
    | nil =>
      dsimp only
      exact hmove _ _ rfl (by simp [BootPc.left])
    | cons word rest =>
      dsimp only
      refine hmove _ _ (clear_hart word) ?_
      split <;> simp only [BootPc.left, List.length_cons] <;> omega
  | scratchInit t1 =>
    dsimp only
    refine hmove _ _ rfl ?_
    split
    · next hlt =>
      have : t1 + 1 < 5 := hlt
      simp only [BootPc.left]
      omega
    · simp only [BootPc.left]
      omega
  | fdtRelocDone =>
    dsimp only
    exact hmove _ _ rfl (by simp [BootPc.left])
  | waitForBootHart =>
    have hstatus : s.bootStatus = BOOT_STATUS_BOOT_HART_DONE := by
      by_contra hne
      exact hidle (.inl ⟨hpc, hne⟩)
    dsimp only
    rw [if_pos hstatus]
    exact hmove _ _ rfl (by simp [BootPc.left])
  | startWarm =>
    dsimp only
    split
    · exact hmove _ _ rfl (by simp [BootPc.left])
    · exact hset _ _ rfl (by simp [BootPc.left])
  | monInit =>
    dsimp only
    refine hmove _ _ rfl ?_
    split <;> simp [BootPc.left]
  | initRegion k =>
    dsimp only [Booting.coldInit]
    split
    · exact hmove _ _ rfl (by simp only [BootPc.left]; omega)
    · next hinit =>
      have hk : k < 6 := (List.getElem?_eq_some_iff.1 hinit).1
      split
      · exact hmove _ _ rfl (by simp [BootPc.left])
      · exact hmove _ _ rfl (by simp only [BootPc.left]; omega)
  | waitInit =>
    have hdone : s.smInitDone ≠ 0 := fun hdone => hidle (.inr (.inl ⟨hpc, hdone⟩))
    dsimp only
    rw [if_pos hdone]
    exact hset _ _ rfl (by simp [BootPc.left])
  | program k =>
    dsimp only [Booting.program]
    split
    · exact hmove _ _ rfl (by simp only [BootPc.left]; omega)
    · next hcall =>
      have hk : k < 13 := (List.getElem?_eq_some_iff.1 hcall).1
      exact hset _ _ rfl (by simp only [BootPc.left]; omega)
  | enterOsbi =>
    dsimp only [Booting.enterOsbi]
    exact hset _ _ rfl (by simp [BootPc.left])
  | osbi => exact absurd (.inr (.inr (.inl hpc))) hidle
  | startHang => exact absurd (.inr (.inr (.inr hpc))) hidle

/-- The steps that all harts have left. -/
def Booting.left (cfg : BootConfig H) (s : Booting H) : Nat := ∑ h, (s.hart h).pc.left cfg

theorem descends_left (cfg : BootConfig H) : Descends (Booting.step cfg) (Booting.left cfg) := by
  intro s h
  by_cases hidle : s.Idle h
  · exact .inl (step_of_idle hidle)
  · right
    obtain ⟨x, hhart, hlt⟩ := step_left cfg hidle
    unfold Booting.left
    rw [hhart]
    apply Finset.sum_lt_sum
    · intro h' _
      by_cases heq : h' = h
      · subst heq
        rw [Function.update_self]
        exact hlt.le
      · rw [Function.update_of_ne heq]
    · exact ⟨h, Finset.mem_univ h, by rw [Function.update_self]; exact hlt⟩

omit [DecidableEq H] in
theorem left_reset (hreset : s.AtReset) : s.left cfg = Fintype.card H * (33 + cfg.bss.length) := by
  unfold Booting.left
  simp [hreset.start, BootPc.left]

/-- If nobody can do anything, all harts have gone to OpenSBI or hang. -/
theorem Stands.finished (hs : Stands cfg regs s st) (hquiet : Quiet (Booting.step cfg) s) (h : H) :
    (s.hart h).pc = .osbi ∨ (s.hart h).pc = .startHang := by
  have hidle : ∀ h, s.Idle h := by
    intro h
    by_contra hmoves
    obtain ⟨x, hhart, hlt⟩ := step_left cfg hmoves
    have hx : s.hart h = x := by rw [← hquiet h, hhart, Function.update_self]
    rw [hx] at hlt
    exact absurd hlt (Nat.lt_irrefl _)
  rcases hidle h with ⟨hpc, hstatus⟩ | ⟨hpc, hdone⟩ | hpc | hpc
  · -- the first winner would not be idle
    cases st with
    | reset =>
      have := hpc.symm.trans (hs.allows h)
      cases this
    | preparing w pc =>
      have hprep := hs.prepares
      rw [← (hs.allows w).1 rfl] at hprep
      rcases hidle w with ⟨hw, -⟩ | ⟨hw, -⟩ | hw | hw <;> rw [hw] at hprep <;> exact hprep.elim
    | prepared => exact absurd hs.shared.1 hstatus
    | initialising => exact absurd hs.shared.1 hstatus
    | ready => exact absurd hs.shared.1 hstatus
  · -- nor would the second
    have hstatus : s.bootStatus ≠ 0 := by
      rw [hs.released (.inr (.inr hpc))]
      decide
    have ha := hs.allows h
    rw [hpc] at ha
    cases st with
    | reset => exact absurd hs.shared hstatus
    | preparing => exact absurd hs.shared.1 hstatus
    | prepared => exact ha.elim
    | initialising w cold k =>
      have hcold := (hs.allows cold).1 rfl
      rcases hidle cold with ⟨hw, -⟩ | ⟨hw, -⟩ | hw | hw <;> cases hcold.symm.trans hw
    | ready =>
      obtain ⟨-, -, -, hone, -⟩ := hs.shared
      rw [hone] at hdone
      exact absurd hdone (by decide)
  · exact .inl hpc
  · exact .inr hpc

/-- If every hart is scheduled often enough, each hart whose id has a scratch space gets to OpenSBI:
with its own id, with the other arguments of the hart that comes first and so wins the first
lottery, and with PMP registers that have been programmed from the whole table. The others hang. -/
theorem harts_boot [Nonempty H] (hcard : Fintype.card H ≤ 2 ^ 32) (hok : cfg.Ok)
    (hreset : s.AtReset) (rounds : List (List H)) (hall : ∀ r ∈ rounds, ∀ h, h ∈ r)
    (hlen : Fintype.card H * (33 + cfg.bss.length) ≤ rounds.length) :
    ∃ w, rounds.flatten.head? = some w ∧ ∀ h, if (cfg.mhartid h).toNat < NUMBER_HARTS then
      ((run (Booting.step cfg) s rounds.flatten).hart h).HandedOver cfg w h (s.hart h).pmp
      else ((run (Booting.step cfg) s rounds.flatten).hart h).pc = .startHang := by
  have hquiet := (descends_left cfg).quiet_of_rounds rounds hall ((left_reset hreset).trans_le hlen)
  cases hflat : rounds.flatten with
  | nil =>
    -- nobody would have moved
    obtain ⟨h⟩ := ‹Nonempty H›
    rw [hflat] at hquiet
    rcases (stands_reset hreset).finished hquiet h with hpc | hpc <;>
      cases (hreset.start h).symm.trans hpc
  | cons w is =>
    obtain ⟨st, hs, hw⟩ := stands_run_cons hcard hok hreset w is
    rw [hflat] at hquiet
    refine ⟨w, rfl, fun h => ?_⟩
    rcases hs.finished hquiet h with hpc | hpc
    · obtain ⟨w', hw', hover⟩ := hs.own_at hpc
      obtain rfl : w' = w := Option.some.inj (hw'.symm.trans hw)
      rw [if_pos hover.mhartid]
      exact hover
    · have hge : NUMBER_HARTS ≤ (cfg.mhartid h).toNat := hs.own_at hpc
      rw [if_neg (Nat.not_lt.2 hge)]
      exact hpc

end Step

/-! ## A machine with six harts -/

/-- Six harts, with the ids 0 to 5 and different arguments. -/
def sixHarts : BootConfig (Fin 6) where
  mhartid h := BitVec.ofNat 64 h.val
  a1 h := BitVec.ofNat 64 (0x1000 + h.val)
  a2 _ := 0
  bss := [.other, .coldbootLottery, .tables, .other, .smInitDone]
  scratchArea := 0x80130000

theorem sixHarts_ok : sixHarts.Ok := ⟨by decide, by decide, by decide, by decide⟩

/-- At reset the memory may hold anything: here both lotteries of `mon_init` look taken. -/
def sixHartsReset : Booting (Fin 6) where
  relocLottery := 0
  bootStatus := 0
  coldbootLottery := 1
  smInitDone := 1
  table := PmpTable.empty
  ids := zeroIds
  scratch _ := ⟨0, 0, 0⟩
  scratchAddrs _ := 0
  hart _ := ⟨.start, 0, 0, resetRegs, ⟨0, 0, 0⟩⟩

theorem sixHartsReset_atReset : sixHartsReset.AtReset := ⟨rfl, rfl, fun _ => rfl⟩

theorem sixHarts_serialised :
    ((run (Booting.step sixHarts) sixHartsReset [3, 1, 3, 4]).hart 3).pc.prepares ∧
      ((run (Booting.step sixHarts) sixHartsReset [3, 1, 3, 4]).hart 4).pc.waits := by
  have hprep : ((run (Booting.step sixHarts) sixHartsReset [3, 1, 3, 4]).hart 3).pc.prepares :=
    trivial
  exact ⟨hprep, (boot_serialised (by decide) sixHarts_ok sixHartsReset_atReset [3, 1, 3, 4]).1 3
    hprep 4 (by decide)⟩

theorem sixHarts_boot : ∃ w, (List.replicate 228 (List.finRange 6)).flatten.head? = some w ∧
    ∀ h : Fin 6, if (sixHarts.mhartid h).toNat < NUMBER_HARTS then
      ((run (Booting.step sixHarts) sixHartsReset
        (List.replicate 228 (List.finRange 6)).flatten).hart h).HandedOver sixHarts w h resetRegs
      else ((run (Booting.step sixHarts) sixHartsReset
        (List.replicate 228 (List.finRange 6)).flatten).hart h).pc = .startHang :=
  harts_boot (by decide) sixHarts_ok sixHartsReset_atReset (List.replicate 228 (List.finRange 6))
    (fun r hr h => by rw [List.eq_of_mem_replicate hr]; exact List.mem_finRange h)
    (by rw [List.length_replicate]; decide)

end Dorami.Boot
