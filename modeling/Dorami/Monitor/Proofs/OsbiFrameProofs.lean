import Dorami.Monitor.Proofs.VariableProofs
import Dorami.Riscv.Proofs.AsmProofs

/-!
# A frame in memory

`struct sbi_trap_regs` as 37 words of memory: what is read back after its members have been stored,
and that two such structures without a common byte do not disturb each other.
-/

namespace Dorami

open Riscv Sm Lib

namespace Sm.TrapRegs

variable {mem : Mem} {p q : Word} {r : TrapRegs}

/-- The structure is its words. -/
theorem ext_word {r' : TrapRegs} (h : ∀ i < 37, r.word i = r'.word i) : r = r' := by
  obtain ⟨gpr, mepc, mstatus, mstatusH, mscratch, sscratch⟩ := r
  obtain ⟨gpr', mepc', mstatus', mstatusH', mscratch', sscratch'⟩ := r'
  have hgpr : gpr = gpr' := by
    funext i
    simpa [word] using h i (by omega)
  have h32 : mepc = mepc' := h 32 (by decide)
  have h33 : mstatus = mstatus' := h 33 (by decide)
  have h34 : mstatusH = mstatusH' := h 34 (by decide)
  have h35 : mscratch = mscratch' := h 35 (by decide)
  have h36 : sscratch = sscratch' := h 36 (by decide)
  rw [hgpr, h32, h33, h34, h35, h36]

theorem word_gpr (r : TrapRegs) (i : Fin 32) : r.word i = r.gpr i := by
  simp [word]

theorem word_load (mem : Mem) (p : Word) {i : Nat} (hi : i < 37) :
    (load mem p).word i = mem.load (p + slot i) := by
  by_cases h32 : i < 32
  · exact word_gpr (load mem p) ⟨i, h32⟩
  · obtain rfl | rfl | rfl | rfl | rfl : i = 32 ∨ i = 33 ∨ i = 34 ∨ i = 35 ∨ i = 36 := by omega
    all_goals rfl

/-! ## Stores of members -/

theorem cfgByte_eq (v : Word) (k : Nat) : cfgByte v k = v.extractLsb' (8 * k) 8 := by
  unfold cfgByte
  ext i hi
  simp

/-- Storing the bytes of a word is storing the word. -/
theorem storeAll_wordBytes (mem : Mem) (a v : Word) :
    storeAll mem (byteStores a (wordBytes v)) = mem.store a v := by
  funext x
  rw [Monitor.storeAll_byteStores a (by rw [length_wordBytes]; decide)]
  unfold Mem.store
  split
  · next hx =>
    rw [wordBytes, List.getElem?_map, List.getElem?_range hx, Option.map_some, Option.getD_some,
      cfgByte_eq]
  · next hx =>
    rw [List.getElem?_eq_none (by rw [length_wordBytes]; omega)]
    rfl

theorem load_stores (r : TrapRegs) (mem : Mem) (p : Word) {j : Nat} (hj : j < 37) :
    ∀ n ≤ 37, Mem.load (storeAll mem (r.stores p n)) (p + slot j) =
      if j < n then r.word j else mem.load (p + slot j) := by
  intro n
  induction n with
  | zero => intro _; rfl
  | succ n ih =>
    intro hn
    have hsplit : r.stores p (n + 1) =
        r.stores p n ++ byteStores (p + slot n) (wordBytes (r.word n)) := by
      simp [stores, List.range_succ]
    rw [hsplit, storeAll_append, storeAll_wordBytes,
      Mem.load_store_slot _ _ _ (by omega) (by omega), ih (by omega)]
    by_cases hjn : j = n
    · rw [if_pos hjn, if_pos (by omega), hjn]
    · rw [if_neg hjn]
      by_cases hlt : j < n
      · rw [if_pos hlt, if_pos (by omega)]
      · rw [if_neg hlt, if_neg (by omega)]

/-! ## Two structures -/

theorem Misses.distance {n : Nat} (h : Misses p q n) :
    n ≤ (p - q).toNat ∧ (0 < n → (p - q).toNat ≤ 2 ^ 64 - 296) := by
  have hsub : ∀ i < 296, n ≤ ((p - q) + BitVec.ofNat 64 i).toNat := by
    intro i hi
    have hcomm : p + BitVec.ofNat 64 i - q = p - q + BitVec.ofNat 64 i := by bv_omega
    rw [← hcomm]
    exact Nat.le_of_not_lt (h i hi)
  generalize p - q = d at hsub ⊢
  have h0 := hsub 0 (by omega)
  rw [BitVec.add_zero] at h0
  refine ⟨h0, fun hn => ?_⟩
  by_contra hbig
  have hlt := d.isLt
  have hwrap := hsub (2 ^ 64 - d.toNat) (by omega)
  rw [BitVec.toNat_add, BitVec.toNat_ofNat] at hwrap
  omega

theorem Misses.slots (h : Misses p q trapRegsSize) {i j : Nat} (hi : i < 37) (hj : j < 37) :
    Mem.Apart (q + slot j) (p + slot i) := by
  obtain ⟨hlo, hhi⟩ := h.distance
  have hlo' : 296 ≤ (p - q).toNat := hlo
  have hhi' := hhi (by decide)
  unfold Mem.Apart slot
  constructor <;> bv_omega

/-- Reading a structure below which another one is laid. -/
theorem load_laidOver_self (r : TrapRegs) (mem : Mem) (p : Word) {i : Nat} (hi : i < 37) :
    (r.laidOver mem p).load (p + slot i) = r.word i := by
  refine Mem.word_eq_of_bytes fun k hk => ?_
  have hoff : (p + slot i + BitVec.ofNat 64 k - p).toNat = 8 * i + k := by
    unfold slot
    bv_omega
  have hin : InBytes p trapRegsSize (p + slot i + BitVec.ofNat 64 k) := by
    show (p + slot i + BitVec.ofNat 64 k - p).toNat < 296
    omega
  rw [Mem.byte_load _ _ hk, laidOver, if_pos hin, hoff, Nat.mul_add_div (by decide),
    Nat.div_eq_of_lt hk, Nat.add_zero, Nat.mul_add_mod, Nat.mod_eq_of_lt hk, cfgByte_eq]

theorem load_laidOver_off (r : TrapRegs) (mem : Mem) {a : Word}
    (hoff : ∀ k < 8, ¬ InBytes q trapRegsSize (a + BitVec.ofNat 64 k)) :
    (r.laidOver mem q).load a = mem.load a := by
  refine Mem.word_eq_of_bytes fun k hk => ?_
  rw [Mem.byte_load _ _ hk, Mem.byte_load _ _ hk]
  exact if_neg (hoff k hk)

theorem word_setGpr (r : TrapRegs) (i : Fin 32) (v : Word) (j : Nat) :
    (r.setGpr i v).word j = if j = i then v else r.word j := by
  unfold word setGpr
  by_cases hj : j < 32
  · simp [hj, Fin.ext_iff]
  · have hne : j ≠ i := by omega
    simp [hj, hne]

theorem word_setMepc (r : TrapRegs) (v : Word) (j : Nat) :
    ({ r with mepc := v } : TrapRegs).word j = if j = 32 then v else r.word j := by
  unfold word
  by_cases hj : j < 32
  · have hne : j ≠ 32 := by omega
    simp [hj, hne]
  · by_cases h32 : j = 32
    · simp [h32]
    · simp [hj, h32]

theorem word_setMstatus (r : TrapRegs) (v : Word) (j : Nat) :
    ({ r with mstatus := v } : TrapRegs).word j = if j = 33 then v else r.word j := by
  unfold word
  by_cases hj : j < 32
  · have hne : j ≠ 33 := by omega
    simp [hj, hne]
  · by_cases h33 : j = 33
    · simp [h33]
    · simp [hj, h33]

theorem word_setSscratch (r : TrapRegs) (v : Word) {j : Nat} (hj : j < 36) :
    ({ r with sscratch := v } : TrapRegs).word j = r.word j := by
  unfold word
  by_cases h32 : j < 32
  · simp [h32]
  · obtain rfl | rfl | rfl | rfl : j = 32 ∨ j = 33 ∨ j = 34 ∨ j = 35 := by omega
    all_goals rfl

/-- Storing a member of the structure at `p`. -/
theorem load_store_member {r : TrapRegs} (hr : ∀ i < 37, mem.load (p + slot i) = r.word i)
    (r' : TrapRegs) {j : Nat} (hj : j < 37) {v : Word}
    (hr' : ∀ i < 37, r'.word i = if i = j then v else r.word i) :
    ∀ i < 37, (mem.store (p + slot j) v).load (p + slot i) = r'.word i := by
  intro i hi
  rw [Mem.load_store_slot _ _ _ (by omega) (by omega), hr' i hi]
  split
  · rfl
  · exact hr i hi

/-- The structure at `p` is read as a whole. -/
theorem load_eq {r : TrapRegs} (hr : ∀ i < 37, mem.load (p + slot i) = r.word i) :
    load mem p = r :=
  ext_word fun i hi => (word_load mem p hi).trans (hr i hi)

/-- The memory after the results of an SBI call have been written to the structure at `q` from
the one at `p`. -/
def answer (mem : Mem) (p q : Word) : Mem :=
  let mem := mem.store (q + slot 10) (mem.load (p + slot 10))
  let mem := if mem.load (q + slot 17) ≤ 0x0F then mem
    else mem.store (q + slot 11) (mem.load (p + slot 11))
  mem.store (q + slot 32) (mem.load (q + slot 32) + 4)

theorem load_answer {saved osbi : TrapRegs} (hq : ∀ i < 37, mem.load (q + slot i) = saved.word i)
    (h10 : mem.load (p + slot 10) = osbi.a0)
    (h11 : (mem.store (q + slot 10) osbi.a0).load (p + slot 11) = osbi.a1) :
    load (answer mem p q) q = Monitor.ecallReturn saved osbi := by
  unfold answer
  dsimp only
  rw [h10]
  have ha0 := load_store_member hq (saved.setA0 osbi.a0) (j := 10) (v := osbi.a0)
    (by decide) fun i _ => word_setGpr saved 10 osbi.a0 i
  have ha7 : (mem.store (q + slot 10) osbi.a0).load (q + slot 17) = (saved.setA0 osbi.a0).a7 :=
    ha0 17 (by decide)
  rw [ha7, h11]
  generalize mem.store (q + slot 10) osbi.a0 = mem₁ at ha0 ⊢
  unfold Monitor.ecallReturn
  generalize saved.setA0 osbi.a0 = saved₁ at ha0 ⊢
  have hnext : ∀ {mem₂ : Mem} {r : TrapRegs}, (∀ i < 37, mem₂.load (q + slot i) = r.word i) →
      load (mem₂.store (q + slot 32) (mem₂.load (q + slot 32) + 4)) q = r.nextPc := by
    intro mem₂ r hr
    have h32 : mem₂.load (q + slot 32) = r.mepc := hr 32 (by decide)
    rw [h32]
    exact load_eq (load_store_member hr _ (by decide) fun i _ => word_setMepc r _ i)
  by_cases hlegacy : saved₁.a7 ≤ 0x0F
  · simp only [if_pos hlegacy]
    exact hnext ha0
  · simp only [if_neg hlegacy]
    exact hnext (load_store_member ha0 _ (by decide) fun i _ => word_setGpr saved₁ 11 _ i)

/-- The pc and the status that an exception leaves in the structure at `q`. -/
theorem load_default {saved osbi : TrapRegs} (hap : Misses p q trapRegsSize)
    (hq : ∀ i < 37, mem.load (q + slot i) = saved.word i)
    (hp : ∀ i < 37, mem.load (p + slot i) = osbi.word i) :
    let mem := mem.store (q + slot 32) (mem.load (p + slot 32))
    let mem := mem.store (q + slot 33) (mem.load (p + slot 33))
    load mem q = { saved with mepc := osbi.mepc, mstatus := osbi.mstatus } ∧ load mem p = osbi := by
  have h32 : mem.load (p + slot 32) = osbi.mepc := hp 32 (by decide)
  have h33 : mem.load (p + slot 33) = osbi.mstatus := hp 33 (by decide)
  dsimp only
  rw [Mem.load_store_of_apart (hap.slots (by decide) (by decide)), h32, h33]
  constructor
  · have hpc := load_store_member hq { saved with mepc := osbi.mepc } (j := 32) (by decide)
      fun i _ => word_setMepc saved _ i
    exact load_eq (load_store_member hpc _ (by decide) fun i _ =>
      word_setMstatus { saved with mepc := osbi.mepc } osbi.mstatus i)
  · refine load_eq fun i hi => ?_
    rw [Mem.load_store_of_apart (hap.slots hi (by decide)),
      Mem.load_store_of_apart (hap.slots hi (by decide))]
    exact hp i hi

/-! ## Where the stores go -/

theorem forall_member {P : Word → Prop} (hall : ∀ i < trapRegsSize, P (p + BitVec.ofNat 64 i))
    {j : Nat} (hj : j < 37) (v : Word) : ∀ s ∈ byteStores (p + slot j) (wordBytes v), P s.1 := by
  rw [forall_byteStores, length_wordBytes]
  intro k hk
  rw [slot, BitVec.add_assoc, ← BitVec.ofNat_add]
  exact hall (8 * j + k) (show 8 * j + k < 296 by omega)

theorem forall_stores {P : Word → Prop} (hall : ∀ i < trapRegsSize, P (p + BitVec.ofNat 64 i))
    {n : Nat} (hn : n ≤ 37) : ∀ s ∈ r.stores p n, P s.1 := by
  intro s hs
  obtain ⟨j, hj, hs⟩ := List.mem_flatMap.mp hs
  have hj' := List.mem_range.mp hj
  exact forall_member hall (by omega) _ s hs

end Sm.TrapRegs

/-! ## The return of OpenSBI -/

namespace Sm.Monitor

variable {L : Layout} {m : Monitor} {h : HartId} {regs : TrapRegs}

/-- The `sscratch` the monitor puts into the frame. -/
def sscratchOf (hs : HartState) : Word :=
  if hs.monEnclaveExecution then hs.sscratchDoubleSaveEnclave else hs.sscratchDoubleSave

/-- The stores of a return with `MPP` = M: the frame, without and then with `sscratch`. -/
def osbiStores (m : Monitor) (h : HartId) (regs : TrapRegs) : List (Word × Byte) :=
  regs.stores regs.osbiFrame 36 ++
    byteStores (regs.osbiFrame + slot 36) (wordBytes (sscratchOf (m.hart h)))

theorem forall_osbiStores {P : Word → Prop}
    (hall : ∀ i < trapRegsSize, P (regs.osbiFrame + BitVec.ofNat 64 i)) :
    ∀ s ∈ m.osbiStores h regs, P s.1 :=
  List.forall_mem_append.mpr ⟨TrapRegs.forall_stores hall (by decide),
    TrapRegs.forall_member hall (by decide) _⟩

/-- The members of a frame to which `sscratch` is added, where the parked copy lies elsewhere. -/
theorem load_frame_apart {p q : Word} {mem : Mem} (saved : TrapRegs) (v : Word)
    (hap : TrapRegs.Misses p q trapRegsSize)
    (hmem : ∀ i < 36, mem.load (p + slot i) = regs.word i) {i : Nat} (hi : i < 37) :
    (saved.laidOver (storeAll mem (byteStores (p + slot 36) (wordBytes v))) q).load (p + slot i) =
      ({ regs with sscratch := v } : TrapRegs).word i := by
  have hoff : ∀ k < 8, ¬ InBytes q trapRegsSize (p + slot i + BitVec.ofNat 64 k) := by
    intro k hk
    rw [slot, BitVec.add_assoc, ← BitVec.ofNat_add]
    exact hap (8 * i + k) (show 8 * i + k < 296 by omega)
  rw [TrapRegs.load_laidOver_off _ _ hoff, TrapRegs.storeAll_wordBytes,
    Mem.load_store_slot _ _ _ (by omega) (by omega)]
  split
  · next h36 => rw [h36]; rfl
  · next h36 =>
    rw [hmem i (by omega)]
    exact (TrapRegs.word_setSscratch regs _ (by omega)).symm

/-- With the frame apart from the parked copy the code does what it does with a frame elsewhere. -/
theorem monTrapReturnOsbiAt_apart {p : Word} (hap : TrapRegs.Misses p (L.parked h) trapRegsSize)
    (hoff : ∀ k < 8, p + slot 36 + BitVec.ofNat 64 k ∉ L.vars)
    (hmem : ∀ i < 36, Mem.load m.mem (p + slot i) = regs.word i) :
    m.monTrapReturnOsbiAt L h p =
      ({ (m.monTrapReturnOsbi h regs).1 with
          mem := storeAll m.mem (byteStores (p + slot 36) (wordBytes (sscratchOf (m.hart h)))) },
        (m.monTrapReturnOsbi h regs).2) := by
  have hw : ∀ s ∈ byteStores (p + slot 36) (wordBytes (sscratchOf (m.hart h))), s.1 ∉ L.vars := by
    rw [forall_byteStores (P := (· ∉ L.vars)), length_wordBytes]
    exact hoff
  have hsave : (if (m.hart h).monEnclaveExecution = true then
      (m.hart h).sscratchDoubleSaveEnclave else (m.hart h).sscratchDoubleSave) =
        sscratchOf (m.hart h) := rfl
  unfold monTrapReturnOsbiAt
  dsimp only
  rw [hsave, write_off hw]
  unfold monTrapReturnOsbi
  dsimp only
  rw [hsave]
  -- the frame and the parked copy in memory
  have hframe := fun i (hi : i < 37) => load_frame_apart (m.hart h).temporaryRegisters
    (sscratchOf (m.hart h)) hap hmem hi
  have hparked := fun i (hi : i < 37) => (m.hart h).temporaryRegisters.load_laidOver_self
    (storeAll m.mem (byteStores (p + slot 36) (wordBytes (sscratchOf (m.hart h))))) (L.parked h) hi
  generalize storeAll m.mem (byteStores (p + slot 36) (wordBytes (sscratchOf (m.hart h)))) =
    mem at hframe hparked ⊢
  generalize (m.hart h).temporaryRegisters.laidOver mem (L.parked h) = V at hframe hparked ⊢
  have hload := TrapRegs.load_eq hframe
  rw [hload]
  cases hst : (m.hart h).suStarted with
  | false => rfl
  | true =>
    simp only [Bool.not_true, Bool.false_eq_true, if_false]
    have h11 : ∀ v, (V.store (L.parked h + slot 10) v).load (p + slot 11) = regs.a1 := by
      intro v
      rw [Mem.load_store_of_apart (hap.slots (by decide) (by decide))]
      exact hframe 11 (by decide)
    have h10 : V.load (p + slot 10) =
        ({ regs with sscratch := sscratchOf (m.hart h) } : TrapRegs).a0 := hframe 10 (by decide)
    have hecall := TrapRegs.load_answer hparked h10 (h11 _)
    have hdefault := TrapRegs.load_default hap hparked hframe
    dsimp only [TrapRegs.answer] at hecall hdefault
    rw [hecall, hdefault.1, hdefault.2]
    cases (m.hart h).monEnclaveExecution with
    | true => split_ifs <;> rfl
    | false => split_ifs <;> rfl

/-- `mon_trap_return_osbi` with a frame of its own does not touch memory. -/
theorem monTrapReturnOsbi_withMem (m : Monitor) (h : HartId) (regs : TrapRegs) (mem : Word → Byte) :
    ({ m with mem := mem } : Monitor).monTrapReturnOsbi h regs =
      ({ (m.monTrapReturnOsbi h regs).1 with mem := mem }, (m.monTrapReturnOsbi h regs).2) := by
  unfold monTrapReturnOsbi
  dsimp only
  cases (m.hart h).monEnclaveExecution with
  | true => split_ifs <;> rfl
  | false => split_ifs <;> rfl

theorem parked_vars {a : Word} (ha : InBytes (L.parked h) trapRegsSize a) : a ∈ L.vars := by
  refine ⟨(L.temporaryRegisters, trapRegsSize * hartSlots), by simp [Layout.ranges], ?_⟩
  refine ha.of_offset ?_
  show 296 * (h.val + 1) + 296 ≤ 296 * 5
  omega

/-- A frame that keeps off the variables. -/
theorem returnHandlerIn_off (hmpp : mppOf regs.mstatus = 3)
    (hoff : ∀ i < trapRegsSize, regs.osbiFrame + BitVec.ofNat 64 i ∉ L.vars) :
    m.returnHandlerIn L h regs =
      ({ (m.returnHandler h regs).1 with mem := storeAll m.mem (m.osbiStores h regs) },
        (m.returnHandler h regs).2) := by
  obtain ⟨hstored, _⟩ :=
    List.forall_mem_append.mp (forall_osbiStores (m := m) (h := h) (P := (· ∉ L.vars)) hoff)
  have hap : TrapRegs.Misses regs.osbiFrame (L.parked h) trapRegsSize :=
    fun i hi hin => hoff i hi (parked_vars hin)
  have hlast : ∀ k < 8, regs.osbiFrame + slot 36 + BitVec.ofNat 64 k ∉ L.vars := by
    intro k hk
    rw [slot, BitVec.add_assoc, ← BitVec.ofNat_add]
    exact hoff (8 * 36 + k) (show 8 * 36 + k < 296 by omega)
  have hsaved : sscratchOf ((m.writePmpcfg0 h LOCK_OSBI).hart h) = sscratchOf (m.hart h) := by
    unfold sscratchOf
    rw [writePmpcfg0, setPmp, hart_setHart_self]
  have hmem : (m.writePmpcfg0 h LOCK_OSBI).mem = m.mem := rfl
  unfold returnHandlerIn returnHandler osbiStores
  rw [if_pos hmpp, storeAll_append, ← hsaved, ← hmem]
  generalize m.writePmpcfg0 h LOCK_OSBI = m₁
  have hframe : ∀ i < 36, Mem.load (storeAll m₁.mem (regs.stores regs.osbiFrame 36))
      (regs.osbiFrame + slot i) = regs.word i := by
    intro i hi
    rw [TrapRegs.load_stores regs _ _ (by omega) 36 (by decide), if_pos hi]
  rw [write_off hstored]
  generalize storeAll m₁.mem (regs.stores regs.osbiFrame 36) = mem at hframe ⊢
  rw [monTrapReturnOsbiAt_apart (m := { m₁ with mem := mem }) hap hlast hframe,
    monTrapReturnOsbi_withMem]

end Sm.Monitor

end Dorami
