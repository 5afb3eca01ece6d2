import Dorami.Monitor.Proofs.ConfinementProofs

/-!
# A frame of OpenSBI over the parked context

The entry code builds the frame of an OpenSBI that comes with `MPP` = M below the stack pointer that
OpenSBI leaves, wherever that is. Built over the caller's copy in `temporary_registers[]`, the frame
is what the caller resumes with, register by register as far as it reaches.
-/

namespace Dorami.Sm

open Riscv Lib

namespace TrapRegs

variable {base : Word} {ss : List (Word × Byte)} {r : TrapRegs}

theorem word_patch (r : TrapRegs) {i : Nat} (hi : i < 37) :
    (r.patch base ss).word i = wordCodec.patch (base + slot i) ss (r.word i) := by
  by_cases h32 : i < 32
  · have hgpr := word_gpr (r.patch base ss) ⟨i, h32⟩
    rw [show r.word i = r.gpr ⟨i, h32⟩ from word_gpr r ⟨i, h32⟩]
    exact hgpr
  · obtain rfl | rfl | rfl | rfl | rfl : i = 32 ∨ i = 33 ∨ i = 34 ∨ i = 35 ∨ i = 36 := by omega
    all_goals rfl

/-- The stores of members reach each of their bytes. -/
theorem exists_member (p v : Word) {j k : Nat} (hk : k < 8) :
    ∃ s ∈ byteStores (p + slot j) (wordBytes v), s.1 = p + BitVec.ofNat 64 (8 * j + k) := by
  by_contra hno
  push Not at hno
  rw [forall_byteStores (P := (· ≠ p + BitVec.ofNat 64 (8 * j + k))), length_wordBytes] at hno
  refine hno k hk ?_
  rw [slot, BitVec.add_assoc, ← BitVec.ofNat_add]

theorem exists_stores (p : Word) {n i : Nat} (hi : i < 8 * n) :
    ∃ s ∈ r.stores p n, s.1 = p + BitVec.ofNat 64 i := by
  obtain ⟨s, hs, heq⟩ := exists_member p (r.word (i / 8)) (j := i / 8) (k := i % 8) (by omega)
  rw [Nat.div_add_mod] at heq
  exact ⟨s, List.mem_flatMap.mpr ⟨i / 8, List.mem_range.mpr (by omega), hs⟩, heq⟩

/-- The results leave the other members alone. -/
theorem load_answer_of_ne {p q : Word} (mem : Mem) {i : Nat} (hi : i < 37) (h10 : i ≠ 10)
    (h11 : i ≠ 11) (h32 : i ≠ 32) : (answer mem p q).load (q + slot i) = mem.load (q + slot i) := by
  have hset : ∀ (mem : Mem) (j : Nat) (v : Word), j < 37 → i ≠ j →
      (mem.store (q + slot j) v).load (q + slot i) = mem.load (q + slot i) := by
    intro mem j v hj hij
    rw [Mem.load_store_slot _ _ _ (by omega) (by omega), if_neg hij]
  unfold answer
  dsimp only
  rw [hset _ 32 _ (by decide) h32]
  split
  · exact hset _ 10 _ (by decide) h10
  · rw [hset _ 11 _ (by decide) h11, hset _ 10 _ (by decide) h10]

end TrapRegs

namespace Monitor

variable (L : Layout) (h : HartId) (osbi : TrapRegs)

/-! ## The record of the hart -/

/-- The record after the entry code has stored the frame. -/
def framedHart (hs : HartState) : HartState := L.patchHart (osbi.stores osbi.osbiFrame 36) h hs

/-- The stores of `sscratch` into it. -/
def lastStores (hs : HartState) : List (Word × Byte) :=
  byteStores (osbi.osbiFrame + slot 36) (wordBytes (sscratchOf (framedHart L h osbi hs)))

/-- The record after these. -/
def filledHart (hs : HartState) : HartState :=
  L.patchHart (lastStores L h osbi hs) h (framedHart L h osbi hs)

variable {L h osbi} {hs : HartState}

/-- A byte of the parked copy after the stores of the frame. -/
theorem byte_filled {i k : Nat} (hi : i < 37) (hk : k < 8) :
    BitVec.ofNat 8 (((filledHart L h osbi hs).temporaryRegisters.word i).toNat / 2 ^ (8 * k)) =
      storeAll (fun _ => storeAll
        (fun _ => BitVec.ofNat 8 ((hs.temporaryRegisters.word i).toNat / 2 ^ (8 * k)))
        (osbi.stores osbi.osbiFrame 36) (L.parked h + slot i + BitVec.ofNat 64 k))
        (lastStores L h osbi hs) (L.parked h + slot i + BitVec.ofNat 64 k) := by
  have hfilled : (filledHart L h osbi hs).temporaryRegisters.word i =
      wordCodec.patch (L.parked h + slot i) (lastStores L h osbi hs)
        (wordCodec.patch (L.parked h + slot i) (osbi.stores osbi.osbiFrame 36)
          (hs.temporaryRegisters.word i)) :=
    (TrapRegs.word_patch _ hi).trans (congrArg _ (TrapRegs.word_patch _ hi))
  rw [hfilled]
  exact (Codec.byte_patch hk _ _ _).trans
    (storeAll_congr _ (Codec.byte_patch hk _ _ _))

/-- A word that the frame misses. -/
theorem word_filled {i : Nat} (hi : i < 37)
    (hmiss : TrapRegs.Misses osbi.osbiFrame (L.parked h + slot i) 8) :
    (filledHart L h osbi hs).temporaryRegisters.word i = hs.temporaryRegisters.word i := by
  have hlast : ∀ s ∈ lastStores L h osbi hs, ¬ InBytes (L.parked h + slot i) 8 s.1 :=
    TrapRegs.forall_member (P := fun a => ¬ InBytes (L.parked h + slot i) 8 a) hmiss (by decide) _
  have hfirst : ∀ s ∈ osbi.stores osbi.osbiFrame 36, ¬ InBytes (L.parked h + slot i) 8 s.1 :=
    TrapRegs.forall_stores (P := fun a => ¬ InBytes (L.parked h + slot i) 8 a) hmiss (by decide)
  refine (TrapRegs.word_patch _ hi).trans ?_
  rw [Codec.patch_off wordCodec _ hlast]
  refine (TrapRegs.word_patch _ hi).trans ?_
  rw [Codec.patch_off wordCodec _ hfirst]

theorem cause_framed (hmiss : TrapRegs.Misses osbi.osbiFrame (L.cause h) 8) :
    (framedHart L h osbi hs).temporaryInfo.cause = hs.temporaryInfo.cause :=
  Codec.patch_off wordCodec _
    (TrapRegs.forall_stores (P := fun a => ¬ InBytes (L.cause h) 8 a) hmiss (by decide))

theorem suStarted_filled (hmiss : TrapRegs.Misses osbi.osbiFrame (L.started h) 4) :
    (filledHart L h osbi hs).suStarted = hs.suStarted :=
  (Codec.patch_off Codec.flag _
      (TrapRegs.forall_member (P := fun a => ¬ InBytes (L.started h) 4 a)
        hmiss (by decide) _)).trans
    (Codec.patch_off Codec.flag _
      (TrapRegs.forall_stores (P := fun a => ¬ InBytes (L.started h) 4 a) hmiss (by decide)))

/-! ## The return after an SBI call -/

variable {m : Monitor}

theorem mem_write (ss : List (Word × Byte)) : (m.write L ss).mem = storeAll m.mem ss := rfl

/-- The caller resumes with the parked copy in memory, to which the results have been written. -/
theorem exit_ecall (hmpp : mppOf osbi.mstatus = 3)
    (hirq : isInterrupt (framedHart L h osbi (m.hart h)).temporaryInfo.cause = false)
    (hecall : isEcall (framedHart L h osbi (m.hart h)).temporaryInfo.cause = true)
    (hst : (filledHart L h osbi (m.hart h)).suStarted = true) :
    ∃ mem : Mem, (∀ i < 36, mem.load (osbi.osbiFrame + slot i) = osbi.word i) ∧
      (m.returnHandlerIn L h osbi).2 = .toSu (TrapRegs.load (TrapRegs.answer
        ((filledHart L h osbi (m.hart h)).temporaryRegisters.laidOver mem (L.parked h))
        osbi.osbiFrame (L.parked h)) (L.parked h)) := by
  have hhart := m.hart_writePmpcfg0 h LOCK_OSBI
  refine ⟨storeAll (storeAll m.mem (osbi.stores osbi.osbiFrame 36))
    (lastStores L h osbi (m.hart h)), fun i hi => ?_, ?_⟩
  · rw [lastStores, TrapRegs.storeAll_wordBytes, Mem.load_store_slot _ _ _ (by omega) (by decide),
      if_neg (by omega), TrapRegs.load_stores _ _ _ (by omega) 36 (by decide), if_pos hi]
  · have hmem : (m.writePmpcfg0 h LOCK_OSBI).mem = m.mem := rfl
    rw [returnHandlerIn, if_pos hmpp, ← hmem]
    generalize m.writePmpcfg0 h LOCK_OSBI = m₁ at hhart ⊢
    generalize (m₁.hart h).pmp = pmp at hhart
    have hframed : ((m₁.write L (osbi.stores osbi.osbiFrame 36)).hart h) =
        { framedHart L h osbi (m.hart h) with pmp := pmp } := by
      show L.patchHart _ h (m₁.hart h) = _
      rw [hhart]
      rfl
    have hfilled : ((m₁.write L (osbi.stores osbi.osbiFrame 36)).write L
        (lastStores L h osbi (m.hart h))).hart h =
          { filledHart L h osbi (m.hart h) with pmp := pmp } := by
      show L.patchHart _ h ((m₁.write L (osbi.stores osbi.osbiFrame 36)).hart h) = _
      rw [hframed]
      rfl
    unfold monTrapReturnOsbiAt
    rw [hframed]
    have hlast : byteStores (osbi.osbiFrame + slot 36) (wordBytes
        (if (framedHart L h osbi (m.hart h)).monEnclaveExecution then
          (framedHart L h osbi (m.hart h)).sscratchDoubleSaveEnclave
        else (framedHart L h osbi (m.hart h)).sscratchDoubleSave)) =
          lastStores L h osbi (m.hart h) := by
      rw [lastStores, sscratchOf]
    dsimp only
    rw [hlast, hfilled, mem_write, mem_write]
    simp only [hst, hirq, hecall, Bool.not_true, Bool.false_eq_true, if_false, if_true]
    rfl

section Return

variable {regs : TrapRegs} (hmpp : mppOf osbi.mstatus = 3) (hst : (m.hart h).suStarted = true)
  (hirq : isInterrupt (m.hart h).temporaryInfo.cause = false)
  (hecall : isEcall (m.hart h).temporaryInfo.cause = true)
  (hcause : TrapRegs.Misses osbi.osbiFrame (L.cause h) 8)
  (hstarted : TrapRegs.Misses osbi.osbiFrame (L.started h) 4)

include hmpp hst hirq hecall hcause hstarted

/-- The members of the parked copy after the stores of the frame are the caller's. -/
theorem ResumesAnswered.word (hans : m.ResumesAnswered L h osbi regs) :
    (filledHart L h osbi (m.hart h)).temporaryRegisters.word 1 = regs.word 1 ∧
      (filledHart L h osbi (m.hart h)).temporaryRegisters.word 36 = regs.word 36 := by
  obtain ⟨mem, -, hexit⟩ := exit_ecall (m := m) hmpp (by rw [cause_framed hcause]; exact hirq)
    (by rw [cause_framed hcause]; exact hecall) (by rw [suStarted_filled hstarted]; exact hst)
  obtain ⟨r, hr, hansr⟩ := hans
  rw [hexit] at hr
  cases hr
  have hword : ∀ i < 37, i ≠ 10 → i ≠ 11 → i ≠ 32 → TrapRegs.word (TrapRegs.load (TrapRegs.answer
      ((filledHart L h osbi (m.hart h)).temporaryRegisters.laidOver mem (L.parked h))
      osbi.osbiFrame (L.parked h)) (L.parked h)) i =
        (filledHart L h osbi (m.hart h)).temporaryRegisters.word i := by
    intro i hi h10 h11 h32
    rw [TrapRegs.word_load _ _ hi, TrapRegs.load_answer_of_ne _ hi h10 h11 h32,
      TrapRegs.load_laidOver_self _ _ _ hi]
  constructor
  · rw [← hword 1 (by decide) (by decide) (by decide) (by decide)]
    exact hansr.gpr 1 (by decide) (by decide) (by decide)
  · rw [← hword 36 (by decide) (by decide) (by decide) (by decide)]
    exact hansr.sscratch

/-- A frame that misses the parked copy, but for the member `zero`, leaves the caller
its context. -/
theorem resumesAnswered_of_misses (hsaved : (m.hart h).temporaryRegisters = regs.setGpr 0 0)
    (hmiss : TrapRegs.Misses osbi.osbiFrame (L.parked h + 8) 288) :
    m.ResumesAnswered L h osbi regs := by
  obtain ⟨mem, hframe, hexit⟩ := exit_ecall (m := m) hmpp (by rw [cause_framed hcause]; exact hirq)
    (by rw [cause_framed hcause]; exact hecall) (by rw [suStarted_filled hstarted]; exact hst)
  obtain ⟨hlo, hhi⟩ := hmiss.distance
  have hhi' := hhi (by decide)
  -- the members of the frame but the last are off the copy
  have hoff : ∀ i < 36, ∀ k < 8,
      ¬ InBytes (L.parked h) trapRegsSize (osbi.osbiFrame + slot i + BitVec.ofNat 64 k) := by
    intro i hi k hk
    show ¬ (osbi.osbiFrame + slot i + BitVec.ofNat 64 k - L.parked h).toNat < 296
    unfold slot
    bv_omega
  have hread : ∀ i < 36, ∀ saved : TrapRegs,
      (saved.laidOver mem (L.parked h)).load (osbi.osbiFrame + slot i) = osbi.word i := by
    intro i hi saved
    rw [TrapRegs.load_laidOver_off _ _ (hoff i hi), hframe i hi]
  have hapart : Mem.Apart (L.parked h + slot 10) (osbi.osbiFrame + slot 11) := by
    unfold Mem.Apart slot
    constructor <;> bv_omega
  refine ⟨_, hexit, ?_⟩
  have h10 : ∀ saved : TrapRegs, (saved.laidOver mem (L.parked h)).load (osbi.osbiFrame + slot 10) =
      osbi.a0 := hread 10 (by decide)
  have h11 : ∀ saved : TrapRegs, ((saved.laidOver mem (L.parked h)).store (L.parked h + slot 10)
      osbi.a0).load (osbi.osbiFrame + slot 11) = osbi.a1 := by
    intro saved
    rw [Mem.load_store_of_apart hapart]
    exact hread 11 (by decide) saved
  rw [TrapRegs.load_answer (fun i hi => TrapRegs.load_laidOver_self _ _ _ hi) (h10 _) (h11 _)]
  refine answered_ecallReturn osbi fun i hi h0 => ?_
  have hmember : L.parked h + 8 + BitVec.ofNat 64 (8 * (i - 1)) = L.parked h + slot i := by
    unfold slot
    bv_omega
  have hoffi : TrapRegs.Misses osbi.osbiFrame (L.parked h + slot i) 8 := by
    intro j hj hin
    rw [← hmember] at hin
    exact hmiss j hj (hin.of_offset (by omega))
  rw [word_filled hi hoffi, hsaved, TrapRegs.word_setGpr]
  exact if_neg h0

end Return

/-! ## Two callers

A frame that reaches the parked copy reaches the first byte of `ra` or the last one of `sscratch`.
Two callers that differ in this byte only resume with the same byte. -/

/-- The copies of two callers whose frames are stored alike agree in a byte that is reached. -/
theorem byte_filled_eq {i k : Nat} (hs hs' : HartState) (hi : i < 37) (hk : k < 8)
    (hlast : lastStores L h osbi hs' = lastStores L h osbi hs)
    (hit : InBytes osbi.osbiFrame trapRegsSize (L.parked h + slot i + BitVec.ofNat 64 k)) :
    BitVec.ofNat 8 (((filledHart L h osbi hs).temporaryRegisters.word i).toNat / 2 ^ (8 * k)) =
      BitVec.ofNat 8
        (((filledHart L h osbi hs').temporaryRegisters.word i).toNat / 2 ^ (8 * k)) := by
  rw [byte_filled hi hk, byte_filled hi hk, hlast]
  obtain ⟨o, ho, heq⟩ := hit.exists_add
  have ho' : o < 296 := ho
  rw [heq]
  by_cases hfirst : o < 8 * 36
  · exact storeAll_congr _ (storeAll_of_mem (TrapRegs.exists_stores _ hfirst) _ _)
  · refine storeAll_of_mem ?_ _ _
    obtain ⟨s, hs, hso⟩ := TrapRegs.exists_member osbi.osbiFrame
      (sscratchOf (framedHart L h osbi hs)) (j := 36) (k := o - 288) (by omega)
    refine ⟨s, hs, hso.trans ?_⟩
    rw [show 8 * 36 + (o - 288) = o by omega]

/-- So do those of two callers for which only the last member of the frame differs, elsewhere. -/
theorem byte_filled_eq_of_lt {i k : Nat} (hs hs' : HartState) (hi : i < 37) (hk : k < 8)
    (hit : InBytes osbi.osbiFrame 288 (L.parked h + slot i + BitVec.ofNat 64 k)) :
    BitVec.ofNat 8 (((filledHart L h osbi hs).temporaryRegisters.word i).toNat / 2 ^ (8 * k)) =
      BitVec.ofNat 8
        (((filledHart L h osbi hs').temporaryRegisters.word i).toNat / 2 ^ (8 * k)) := by
  obtain ⟨o, ho, heq⟩ := hit.exists_add
  have hoff : ∀ hs, ∀ s ∈ lastStores L h osbi hs, s.1 ≠ osbi.osbiFrame + BitVec.ofNat 64 o := by
    intro hs
    rw [lastStores, forall_byteStores (P := (· ≠ osbi.osbiFrame + BitVec.ofNat 64 o)),
      length_wordBytes]
    intro j hj
    unfold slot
    bv_omega
  rw [byte_filled hi hk, byte_filled hi hk, heq, storeAll_of_notMem (hoff _),
    storeAll_of_notMem (hoff _)]
  exact storeAll_of_mem (TrapRegs.exists_stores _ ho) _ _

/-- A frame that reaches the copy reaches one of the two bytes. -/
theorem reaches_of_not_misses {p q : Word} (hhit : ¬ TrapRegs.Misses p (q + 8) 288) :
    InBytes p trapRegsSize (q + slot 1 + BitVec.ofNat 64 0) ∨
      InBytes p 288 (q + slot 36 + BitVec.ofNat 64 7) := by
  unfold TrapRegs.Misses at hhit
  push Not at hhit
  obtain ⟨i, hi, hin⟩ := hhit
  have hi' : i < 296 := hi
  have hin' : (p + BitVec.ofNat 64 i - (q + 8)).toNat < 288 := hin
  show (q + slot 1 + BitVec.ofNat 64 0 - p).toNat < 296 ∨
    (q + slot 36 + BitVec.ofNat 64 7 - p).toNat < 288
  unfold slot
  by_cases hra : (q + 8 - p).toNat < 296
  · left
    bv_omega
  · right
    bv_omega

/-! ## The caller and its context -/

variable (C : Crypto) (L)

/-- A frame with `MPP` = M at `p`, zero otherwise. -/
def frameAt (p : Word) : TrapRegs :=
  { TrapRegs.zero.setGpr 2 (p + BitVec.ofNat 64 trapRegsSize) with mstatus := MSTATUS_MPP }

theorem mppOf_frameAt (p : Word) : mppOf (frameAt p).mstatus = 3 := by
  show mppOf MSTATUS_MPP = 3
  decide

theorem osbiFrame_frameAt (p : Word) : (frameAt p).osbiFrame = p := by
  show p + BitVec.ofNat 64 trapRegsSize - BitVec.ofNat 64 trapRegsSize = p
  rw [BitVec.add_sub_cancel]

/-- A call with other values in `ra` and `sscratch`. -/
def callWith (ra sscratch : Word) : Trap :=
  { sbiTrap SBI_EXT_TIME with
    regs := { (sbiTrap SBI_EXT_TIME).regs.setGpr 1 ra with sscratch := sscratch } }

theorem isSbiCall_callWith (ra sscratch : Word) : (callWith ra sscratch).isSbiCall = true := by
  show (!isInterrupt CAUSE_SUPERVISOR_ECALL && isEcall CAUSE_SUPERVISOR_ECALL &&
    SBI_EXT_TIME != SBI_EXT_EXPERIMENTAL_KEYSTONE_ENCLAVE) = true
  decide

/-- What the return finds in the record of a hart that OpenSBI serves. -/
theorem served_hart {t : Trap} {info : Word} {js : List MemInput} {hs : HartState}
    (hst : (m.hart h).suStarted = true) (hsu : (m.hart h).mode = .su) (hcall : t.isSbiCall = true)
    (hjs : (m.stepIn C L (.trap h t info)).Meanwhile C L h js)
    (hhs : (run (stepIn C L) m (.trap h t info :: js)).hart h = hs) :
    hs.suStarted = true ∧ isInterrupt hs.temporaryInfo.cause = false ∧
      isEcall hs.temporaryInfo.cause = true ∧ hs.temporaryRegisters = t.regs.setGpr 0 0 ∧
      lastStores L h osbi hs = lastStores L h osbi (arrived (m.hart h) t) := by
  obtain ⟨n, pmp, hhart⟩ := m.hart_served C h t hsu hcall hjs
  rw [hhs] at hhart
  simp only [Trap.isSbiCall, Bool.and_eq_true, Bool.not_eq_true'] at hcall
  have hinfo : hs.temporaryInfo = ⟨t.mcause, t.mtval⟩ := by
    rw [hhart]
    exact temporaryInfo_arrived t _
  have hsscratch : sscratchOf (framedHart L h osbi hs) =
      sscratchOf (framedHart L h osbi (arrived (m.hart h) t)) := by
    rw [hhart]
    rfl
  rw [hinfo, lastStores, lastStores, hsscratch]
  refine ⟨?_, hcall.1.1, hcall.1.2, ?_, rfl⟩
  · rw [hhart]
    exact (congrArg HartCore.suStarted (toHartCore_arrived t _)).trans hst
  · rw [hhart]
    rfl

/-- OpenSBI returns every caller its context only if the frame is off the copy. -/
theorem misses_of_resumesAnswered {p : Word} (hst : (m.hart h).suStarted = true)
    (hsu : (m.hart h).mode = .su) (hcause : TrapRegs.Misses p (L.cause h) 8)
    (hstarted : TrapRegs.Misses p (L.started h) 4)
    (hall : ∀ t : Trap, t.isSbiCall = true →
      (m.stepIn C L (.trap h t 0)).ResumesAnswered L h (frameAt p) t.regs) :
    TrapRegs.Misses p (L.parked h + 8) 288 := by
  by_contra hhit
  have hreach := reaches_of_not_misses hhit
  rw [← osbiFrame_frameAt p] at hcause hstarted hreach
  -- what a caller finds in the two members
  have hfound : ∀ ra sscratch, ∃ hs : HartState,
      lastStores L h (frameAt p) hs =
        lastStores L h (frameAt p) (arrived (m.hart h) (callWith ra sscratch)) ∧
      (filledHart L h (frameAt p) hs).temporaryRegisters.word 1 = ra ∧
      (filledHart L h (frameAt p) hs).temporaryRegisters.word 36 = sscratch := by
    intro ra sscratch
    have hcall := isSbiCall_callWith ra sscratch
    have hans := hall (callWith ra sscratch) hcall
    obtain ⟨hst', hirq, hecall, -, hlast⟩ := @served_hart L h (frameAt p) m C
      (callWith ra sscratch) 0 [] _ hst hsu hcall ⟨fun _ => List.not_mem_nil, trivial⟩ rfl
    rw [run_cons, run_nil] at hst' hirq hecall hlast
    exact ⟨_, hlast, hans.word (mppOf_frameAt p) hst' hirq hecall hcause hstarted⟩
  rcases hreach with hra | hsscratch
  · obtain ⟨hs₀, hlast₀, hra₀, -⟩ := hfound 0 0
    obtain ⟨hs₁, hlast₁, hra₁, -⟩ := hfound 1 0
    have heq := byte_filled_eq hs₀ hs₁ (by decide) (by decide)
      (hlast₁.trans hlast₀.symm) hra
    rw [hra₀, hra₁] at heq
    exact absurd heq (by decide)
  · obtain ⟨hs₀, -, -, hss₀⟩ := hfound 0 0
    obtain ⟨hs₁, -, -, hss₁⟩ := hfound 0 (1 <<< 56)
    have heq := byte_filled_eq_of_lt hs₀ hs₁ (by decide) (by decide) hsscratch
    rw [hss₀, hss₁] at heq
    exact absurd heq (by decide)

/-- OpenSBI is confined during a forwarded SBI call, as far as the place of its frame allows. The
general registers it is given are zero but for the argument registers. When it returns with `MPP` =
S or U, the caller resumes with its own context but for the results, and cannot tell apart two
returns with the same results. When it returns with `MPP` = M and the frame at `p` leaves the cause
of the trap and the hart's `SU_started` alone, the caller is sure to resume so exactly if the frame
misses its copy. -/
theorem forwarded_call_confined (m : Monitor) (h : HartId) (hst : (m.hart h).suStarted = true)
    (hsu : (m.hart h).mode = .su) :
    (∀ t info, t.isSbiCall = true → ∃ f, (m.trapHandlerIn C L h t info).2 = .toOsbi f ∧
      ∀ i, i ∉ callRegs → f.gpr i = 0) ∧
    (∀ t info js, t.isSbiCall = true → (m.stepIn C L (.trap h t info)).Meanwhile C L h js →
      (∀ osbi, mppOf osbi.mstatus ≠ 3 →
        (run (stepIn C L) m (.trap h t info :: js)).ResumesAnswered L h osbi t.regs) ∧
      ∀ osbi osbi', mppOf osbi.mstatus ≠ 3 → mppOf osbi'.mstatus ≠ 3 → osbi.a0 = osbi'.a0 →
        osbi.a1 = osbi'.a1 →
          (run (stepIn C L) m (.trap h t info :: js)).returnHandlerIn L h osbi =
            (run (stepIn C L) m (.trap h t info :: js)).returnHandlerIn L h osbi') ∧
    ∀ p, TrapRegs.Misses p (L.cause h) 8 → TrapRegs.Misses p (L.started h) 4 →
      ((∀ t info js osbi, t.isSbiCall = true →
        (m.stepIn C L (.trap h t info)).Meanwhile C L h js → mppOf osbi.mstatus = 3 →
          osbi.osbiFrame = p →
            (run (stepIn C L) m (.trap h t info :: js)).ResumesAnswered L h osbi t.regs) ↔
        TrapRegs.Misses p (L.parked h + 8) 288) := by
  refine ⟨fun t info hcall => ?_, fun t info js hcall hjs => ?_, fun p hcause hstarted => ?_⟩
  · obtain ⟨mscratch, hhandler⟩ := m.trapHandler_sbiCall C h t hcall
    rw [trapHandlerIn_none (m.serviceOf_sbiCall h t hcall), hhandler]
    exact ⟨_, rfl, fun i hi => gpr_ecallFrame_eq_zero (frame t) hi⟩
  · obtain ⟨hst', hirq, hecall, hsaved, -⟩ :=
      @served_hart L h TrapRegs.zero m C t info js _ hst hsu hcall hjs rfl
    generalize run (stepIn C L) m (.trap h t info :: js) = m' at hst' hirq hecall hsaved ⊢
    obtain ⟨m₂, hret⟩ := m'.returnHandler_ecall h hst' hirq hecall
    rw [hsaved] at hret
    refine ⟨fun osbi hmpp => ⟨ecallReturn (t.regs.setGpr 0 0) osbi, ?_, ?_⟩,
      fun osbi osbi' hmpp hmpp' h0 h1 => ?_⟩
    · rw [returnHandlerIn, if_neg hmpp]
      exact congrArg Prod.snd (hret osbi)
    · refine answered_ecallReturn osbi fun i _ h0 => ?_
      rw [TrapRegs.word_setGpr]
      exact if_neg h0
    · rw [returnHandlerIn, returnHandlerIn, if_neg hmpp, if_neg hmpp', hret, hret]
      simp only [ecallReturn, h0, h1]
  · constructor
    · intro hall
      exact misses_of_resumesAnswered L C hst hsu hcause hstarted fun t hcall =>
        hall t 0 [] (frameAt p) hcall ⟨fun _ => List.not_mem_nil, trivial⟩ (mppOf_frameAt p)
          (osbiFrame_frameAt p)
    · rintro hmiss t info js osbi hcall hjs hmpp rfl
      obtain ⟨hst', hirq, hecall, hsaved, -⟩ :=
        @served_hart L h osbi m C t info js _ hst hsu hcall hjs rfl
      exact resumesAnswered_of_misses hmpp hst' hirq hecall hcause hstarted hsaved hmiss

/-- A call of the timer extension, during which another hart makes such a call, too, and from which
OpenSBI returns with `MPP` = M and with `MPP` = U. -/
theorem timer_call_confined :
    let m := bootMonitor (fun _ => 0) noKeys
    let away := run (stepIn noCrypto dataLayout) m
      [.trap 0 (sbiTrap SBI_EXT_TIME) 0, .trap 1 (sbiTrap SBI_EXT_TIME) 0]
    (∃ f, (m.trapHandlerIn noCrypto dataLayout 0 (sbiTrap SBI_EXT_TIME) 0).2 = .toOsbi f ∧
      ∀ i, i ∉ callRegs → f.gpr i = 0) ∧
    away.ResumesAnswered dataLayout 0 machineFrame (sbiTrap SBI_EXT_TIME).regs ∧
    away.ResumesAnswered dataLayout 0 TrapRegs.zero (sbiTrap SBI_EXT_TIME).regs := by
  intro m away
  have hjs : (m.stepIn noCrypto dataLayout (.trap 0 (sbiTrap SBI_EXT_TIME) 0)).Meanwhile noCrypto
      dataLayout 0 [.trap 1 (sbiTrap SBI_EXT_TIME) 0] :=
    ⟨fun _ hmem => (nomatch List.mem_singleton.mp hmem), by decide +kernel⟩
  have hconf := forwarded_call_confined dataLayout noCrypto m 0 rfl rfl
  refine ⟨hconf.1 _ 0 (by decide), ?_, (hconf.2.1 _ 0 _ (by decide) hjs).1 _ (by decide)⟩
  exact (hconf.2.2 machineFrame.osbiFrame (by decide +kernel) (by decide +kernel)).mpr
    (by decide +kernel) _ 0 _ _ (by decide) hjs (by decide) rfl

/-- A frame right over the copy of the caller: it resumes with OpenSBI's `ra`. -/
theorem frame_over_copy_resumed :
    let m := run (stepIn noCrypto dataLayout) (bootMonitor (fun _ => 0) noKeys)
      [.trap 0 (sbiTrap SBI_EXT_TIME) 0]
    (sbiTrap SBI_EXT_TIME).isSbiCall = true ∧
      ¬ m.ResumesAnswered dataLayout 0 (frameAt (dataLayout.parked 0))
          (sbiTrap SBI_EXT_TIME).regs := by
  intro m
  refine ⟨by decide, fun hans => ?_⟩
  have hra := (hans.word (by decide) (by decide +kernel) (by decide +kernel) (by decide +kernel)
    (by decide +kernel) (by decide +kernel)).1
  exact absurd hra (by decide +kernel)

end Monitor

end Dorami.Sm
