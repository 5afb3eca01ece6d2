import Dorami.Lib.Copy
import Dorami.Riscv.Proofs.AsmProofs
import Dorami.Sm.Mprv

/-!
# The copies of `mprv.h` are copies byte by byte

A primitive is a copy of its block, word or byte in the sense of `Copies`, because it loads
everything before it stores anything. The loops put such copies together, so the functions are
copies of the whole range; that the fast loops run for aligned pointers only does not matter
for the result.
-/

namespace Dorami.Sm.Mprv

open Riscv Lib

/-! ## Words -/

/-- A word that is loaded and stored is a copy of its eight bytes. -/
theorem store_load (m : Mem) (dst src : Word) : m.store dst (m.load src) = copied 8 dst src m := by
  funext a
  by_cases ha : (a - dst).toNat < 8
  · unfold Mem.store copied
    rw [if_pos ha, if_pos ha, Mem.byte_load m src ha, BitVec.ofNat_toNat, BitVec.setWidth_eq]
  · unfold Mem.store
    rw [if_neg ha, copied_of_not_lt ha]

/-- A copy leaves the words of its source as they are. -/
theorem load_copied {dst src : Word} {n k : Nat} (h : RangesApart dst src n) {i : Nat} (hk : k ≤ n)
    (hi : i + 8 ≤ n) (m : Mem) :
    Mem.load (copied k dst src m) (src + BitVec.ofNat 64 i) = m.load (src + BitVec.ofNat 64 i) := by
  refine Mem.word_eq_of_bytes fun j hj => ?_
  rw [Mem.byte_load _ _ hj, Mem.byte_load _ _ hj, BitVec.add_assoc, ← BitVec.ofNat_add]
  exact copied_source h hk (by omega)

/-! ## Instructions -/

namespace Hart

variable {acc : Word → Bool} {c : Hart}

/-- What an access reaches without a fault. -/
def sees (acc : Word → Bool) (c : Hart) (a : Word) : Bool := !c.mprv || acc a

theorem allows_iff {a : Word} {n : Nat} :
    c.allows acc a n = true ↔ ∀ i < n, c.sees acc (a + BitVec.ofNat 64 i) = true := by
  unfold allows sees
  cases c.mprv with
  | false => simp
  | true => simp

theorem not_allows {a : Word} {n : Nat} (h : c.allows acc a n = false) :
    ∃ i < n, c.sees acc (a + BitVec.ofNat 64 i) = false := by
  by_contra hnone
  have hall : c.allows acc a n = true := allows_iff.mpr fun i hi =>
    Bool.of_not_eq_false fun hi' => hnone ⟨i, hi, hi'⟩
  rw [h] at hall
  exact absurd hall (by decide)

theorem allows_one {a : Word} : c.allows acc a 1 = c.sees acc a := by
  unfold allows sees
  rw [List.range_one, List.all_cons, List.all_nil, Bool.and_true, BitVec.add_zero]

theorem tryExec_lb {rd rs : Reg} {ops : List Op} : c.tryExec acc (.lb rd rs :: ops) =
    if c.sees acc (c.gpr rs) = true then
      Hart.tryExec acc ⟨Function.update c.gpr rd ((c.mem (c.gpr rs)).signExtend 64),
        c.mprv, c.mem⟩ ops
    else (c.mem, -1) := by
  rw [tryExec, exec, allows_one]
  cases c.sees acc (c.gpr rs) with
  | false => rfl
  | true => rfl

theorem tryExec_sb {rs2 rs1 : Reg} : c.tryExec acc [.sb rs2 rs1] =
    if c.sees acc (c.gpr rs1) = true then
      (Function.update c.mem (c.gpr rs1) ((c.gpr rs2).setWidth 8), 0)
    else (c.mem, -1) := by
  rw [tryExec, exec, allows_one]
  cases c.sees acc (c.gpr rs1) with
  | false => rfl
  | true => rfl

/-- The registers after `loads`. -/
structure Loaded (c : Hart) (base : Reg) (i : Nat) (rs : List Reg) (c' : Hart) : Prop where
  mem : c'.mem = c.mem
  mprv : c'.mprv = c.mprv
  other : ∀ r ∉ rs, c'.gpr r = c.gpr r
  reg : ∀ j r, rs[j]? = some r →
    c'.gpr r = c.mem.load (c.gpr base + BitVec.ofNat 64 ((i + j) * REGBYTES))

theorem tryExec_loads {base : Reg} {rs : List Reg} (hnodup : rs.Nodup) (hbase : base ∉ rs) :
    ∀ {c : Hart} {i : Nat}, (∀ j < rs.length, ∀ b < REGBYTES,
        c.sees acc (c.gpr base + BitVec.ofNat 64 ((i + j) * REGBYTES) + BitVec.ofNat 64 b) = true) →
      ∃ c', c.Loaded base i rs c' ∧
        ∀ ops, c.tryExec acc (loads base i rs ++ ops) = c'.tryExec acc ops := by
  induction rs with
  | nil =>
    intro c i _
    exact ⟨c, ⟨rfl, rfl, fun _ _ => rfl, fun j r hr => by cases hr⟩, fun _ => rfl⟩
  | cons r rs ih =>
    intro c i hall
    obtain ⟨hr, hnodup⟩ := List.nodup_cons.mp hnodup
    have hne : base ≠ r := fun h => hbase (by rw [h]; exact List.mem_cons_self)
    let c₁ : Hart := ⟨Function.update c.gpr r
      (c.mem.load (c.gpr base + BitVec.ofNat 64 (i * REGBYTES))), c.mprv, c.mem⟩
    have hexec : c.exec acc (.load r (i * REGBYTES) base) = some c₁ :=
      if_pos (allows_iff.mpr (hall 0 (Nat.succ_pos _)))
    have hbase₁ : c₁.gpr base = c.gpr base := Function.update_of_ne hne _ _
    have hall₁ : ∀ j < rs.length, ∀ b < REGBYTES, c₁.sees acc
        (c₁.gpr base + BitVec.ofNat 64 ((i + 1 + j) * REGBYTES) + BitVec.ofNat 64 b) = true := by
      intro j hj b hb
      rw [hbase₁, Nat.add_assoc, Nat.add_comm 1 j]
      exact hall (j + 1) (Nat.succ_lt_succ hj) b hb
    obtain ⟨c', hloaded, hrun⟩ := ih hnodup (fun h => hbase (List.mem_cons_of_mem r h)) hall₁
    refine ⟨c', ⟨hloaded.mem, hloaded.mprv, ?_, ?_⟩, fun ops => ?_⟩
    · intro r' hr'
      rw [hloaded.other r' fun h => hr' (List.mem_cons_of_mem r h)]
      exact Function.update_of_ne (fun h => hr' (by rw [h]; exact List.mem_cons_self)) _ _
    · intro j r' hj
      cases j with
      | zero =>
        obtain rfl := Option.some.inj hj
        rw [hloaded.other _ hr]
        exact Function.update_self ..
      | succ j =>
        have hreg := hloaded.reg j r' hj
        rw [hbase₁, Nat.add_assoc, Nat.add_comm 1 j] at hreg
        exact hreg
    · rw [loads, List.cons_append, tryExec, hexec]
      exact hrun ops

theorem tryExec_loads_fault {base : Reg} {rs : List Reg} (hbase : base ∉ rs) (ops : List Op) :
    ∀ {c : Hart} {i : Nat}, (∃ j < rs.length, ∃ b < REGBYTES,
        c.sees acc (c.gpr base + BitVec.ofNat 64 ((i + j) * REGBYTES) + BitVec.ofNat 64 b) =
          false) →
      c.tryExec acc (loads base i rs ++ ops) = (c.mem, -1) := by
  induction rs with
  | nil =>
    rintro c i ⟨j, hj, -⟩
    exact absurd hj (Nat.not_lt_zero j)
  | cons r rs ih =>
    rintro c i ⟨j, hj, b, hb, hfault⟩
    have hne : base ≠ r := fun h => hbase (by rw [h]; exact List.mem_cons_self)
    rw [loads, List.cons_append, tryExec]
    cases hallow : c.allows acc (c.gpr base + BitVec.ofNat 64 (i * REGBYTES)) REGBYTES with
    | false =>
      have hexec : c.exec acc (.load r (i * REGBYTES) base) = none :=
        if_neg (by rw [hallow]; exact Bool.false_ne_true)
      rw [hexec]
    | true =>
      have hexec : c.exec acc (.load r (i * REGBYTES) base) = some ⟨Function.update c.gpr r
          (c.mem.load (c.gpr base + BitVec.ofNat 64 (i * REGBYTES))), c.mprv,
          c.mem⟩ := if_pos hallow
      rw [hexec]
      -- the fault is at a later word
      cases j with
      | zero =>
        have hsees := allows_iff.mp hallow b hb
        rw [Nat.add_zero] at hfault
        rw [hfault] at hsees
        exact absurd hsees Bool.false_ne_true
      | succ j =>
        refine ih (fun h => hbase (List.mem_cons_of_mem r h)) ⟨j,
          Nat.lt_of_succ_lt_succ hj, b, hb, ?_⟩
        dsimp only
        rw [Function.update_of_ne hne, Nat.add_assoc, Nat.add_comm 1 j]
        exact hfault

/-- `stores` of registers that hold the words from `src` on. -/
theorem copies_stores {base : Reg} {ops : List Op}
    (hops : ∀ c : Hart, c.tryExec acc ops = (c.mem, 0)) :
    ∀ (rs : List Reg) {c : Hart} {i : Nat} {dst src : Word},
      c.gpr base + BitVec.ofNat 64 (i * REGBYTES) = dst → RangesApart dst src (8 * rs.length) →
      (∀ j r, rs[j]? = some r → c.gpr r = c.mem.load (src + BitVec.ofNat 64 (8 * j))) →
      Copies (c.sees acc) dst dst src (8 * rs.length) c.mem
        (c.tryExec acc (stores base i rs ++ ops)) := by
  intro rs
  induction rs with
  | nil =>
    intro c i dst src _ _ _
    have hdone := @Copies.done Byte (c.sees acc) dst dst src 0 c.mem fun i hi =>
      absurd hi (Nat.not_lt_zero i)
    rw [copied_zero] at hdone
    rw [stores, List.nil_append, hops]
    exact hdone
  | cons r rs ih =>
    intro c i dst src hdst hap hregs
    have hlen : 8 * (r :: rs).length = 8 + 8 * rs.length := by
      rw [List.length_cons]
      omega
    rw [hlen] at hap ⊢
    rw [stores, List.cons_append, tryExec]
    have hreg : c.gpr r = c.mem.load src := by
      have := hregs 0 r rfl
      rwa [Nat.mul_zero, BitVec.add_zero] at this
    cases hallow : c.allows acc dst 8 with
    | false =>
      have hexec : c.exec acc (.store r (i * REGBYTES) base) = none := by
        unfold exec
        dsimp only
        rw [hdst]
        exact if_neg (by rw [REGBYTES, hallow]; exact Bool.false_ne_true)
      obtain ⟨b, hb, hfault⟩ := not_allows hallow
      rw [hexec]
      exact Copies.fault (by omega) hfault
    | true =>
      have hexec : c.exec acc (.store r (i * REGBYTES) base) =
          some ⟨c.gpr, c.mprv, copied 8 dst src c.mem⟩ := by
        unfold exec
        dsimp only
        rw [hdst, hreg, store_load]
        exact if_pos hallow
      have hnext : c.gpr base + BitVec.ofNat 64 ((i + 1) * REGBYTES) = dst + BitVec.ofNat 64 8 := by
        rw [← hdst, Nat.succ_mul, BitVec.ofNat_add, BitVec.add_assoc]
        rfl
      rw [hexec]
      refine Copies.append (Copies.done (allows_iff.mp hallow)) ?_ hap
      refine @ih ⟨c.gpr, c.mprv, copied 8 dst src c.mem⟩ (i + 1) _ _ hnext hap.drop fun j r' hj =>
        ?_
      -- the registers still hold the words of the source
      dsimp only
      rw [hregs (j + 1) r' hj, BitVec.add_assoc, ← BitVec.ofNat_add, Nat.mul_succ, Nat.add_comm 8]
      have hjlen : j < rs.length := (List.getElem?_eq_some_iff.mp hj).1
      exact (load_copied hap (by omega) (by omega) c.mem).symm

end Hart

/-! ## The primitives -/

section Primitives

variable {acc : Word → Bool} {dst src : Word} {mem : Mem} {rs : List Reg} {t t' : Reg}
    {ops : List Op}

/-- The accesses to words are those to their bytes. -/
theorem forall_words {P : Word → Prop} {a : Word} {n : Nat} :
    (∀ j < n, ∀ b < REGBYTES, P (a + BitVec.ofNat 64 ((0 + j) * REGBYTES) + BitVec.ofNat 64 b)) ↔
      ∀ i < 8 * n, P (a + BitVec.ofNat 64 i) := by
  simp only [Nat.zero_add, BitVec.add_assoc, ← BitVec.ofNat_add]
  constructor
  · intro h i hi
    have hi' := h (i / 8) (Nat.div_lt_of_lt_mul hi) (i % 8) (Nat.mod_lt i (by decide))
    rwa [REGBYTES, Nat.mul_comm, Nat.div_add_mod] at hi'
  · intro h j hj b hb
    unfold REGBYTES at hb
    exact h _ (by unfold REGBYTES; omega)

/-- The state in which a primitive is called. -/
def entry (dst src : Word) (mem : Mem) : Hart :=
  ⟨Function.update (Function.update (fun _ => 0) Reg.a0 dst) Reg.a1 src, false, mem⟩

/-- Words from the monitor: they are loaded without `MPRV` and stored with it. -/
theorem copies_wordsFrom (hnodup : rs.Nodup) (ha0 : Reg.a0 ∉ rs) (ha1 : Reg.a1 ∉ rs) (ht : t ∉ rs)
    (hne : t ≠ Reg.a0) (hops : ∀ c : Hart, c.tryExec acc ops = (c.mem, 0))
    (hap : RangesApart dst src (8 * rs.length)) :
    Copies acc dst dst src (8 * rs.length) mem
      (call acc (loads Reg.a1 0 rs ++ [.setMprv t] ++ stores Reg.a0 0 rs ++ ops) dst src mem) := by
  have hload : ∀ j < rs.length, ∀ b < REGBYTES, (entry dst src mem).sees acc
      ((entry dst src mem).gpr Reg.a1 + BitVec.ofNat 64 ((0 + j) * REGBYTES) + BitVec.ofNat 64 b) =
        true := fun _ _ _ _ => rfl
  obtain ⟨c, hloaded, hrun⟩ := Hart.tryExec_loads hnodup ha1 hload
  let c' : Hart := ⟨Function.update c.gpr t (1 <<< 17), true, c.mem⟩
  have hcall : call acc (loads Reg.a1 0 rs ++ [.setMprv t] ++ stores Reg.a0 0 rs ++
      ops) dst src mem = c'.tryExec acc (stores Reg.a0 0 rs ++ ops) := by
    rw [List.append_assoc, List.append_assoc]
    exact hrun _
  have hmem : c'.mem = mem := hloaded.mem
  have hdst : c'.gpr Reg.a0 + BitVec.ofNat 64 (0 * REGBYTES) = dst := by
    rw [Nat.zero_mul, BitVec.add_zero]
    exact (Function.update_of_ne hne.symm _ _).trans (hloaded.other _ ha0)
  have hcopies := Hart.copies_stores hops rs hdst hap fun j r hj => by
    have hr : r ≠ t := fun h => ht (by rw [← h]; exact List.mem_of_getElem? hj)
    rw [hmem, Nat.mul_comm 8 j, ← Nat.zero_add j]
    exact (Function.update_of_ne hr _ _).trans (hloaded.reg j r hj)
  rw [hcall, ← hmem]
  exact hcopies

/-- Words to the monitor: they are loaded with `MPRV` and stored without it. -/
theorem copies_wordsTo (hnodup : rs.Nodup) (ha0 : Reg.a0 ∉ rs) (ha1 : Reg.a1 ∉ rs) (ht : t' ∉ rs)
    (hne0 : t ≠ Reg.a0) (hne1 : t ≠ Reg.a1) (hne : t' ≠ Reg.a0)
    (hap : RangesApart dst src (8 * rs.length)) :
    Copies acc src dst src (8 * rs.length) mem
      (call acc ([.setMprv t] ++ loads Reg.a1 0 rs ++ [.unsetMprv t'] ++ stores Reg.a0 0 rs) dst src
        mem) := by
  let c₀ : Hart := ⟨Function.update (entry dst src mem).gpr t (1 <<< 17), true, mem⟩
  have hcall : call acc ([.setMprv t] ++ loads Reg.a1 0 rs ++ [.unsetMprv t'] ++ stores Reg.a0 0 rs)
      dst src mem =
      c₀.tryExec acc (loads Reg.a1 0 rs ++ (.unsetMprv t' :: stores Reg.a0 0 rs)) := by
    rw [List.append_assoc, List.append_assoc]
    rfl
  have hsrc : c₀.gpr Reg.a1 = src := Function.update_of_ne hne1.symm _ _
  rw [hcall]
  by_cases hacc : ∀ i < 8 * rs.length, acc (src + BitVec.ofNat 64 i) = true
  · have hload : ∀ j < rs.length, ∀ b < REGBYTES, c₀.sees acc
        (c₀.gpr Reg.a1 + BitVec.ofNat 64 ((0 + j) * REGBYTES) + BitVec.ofNat 64 b) = true := by
      rw [hsrc]
      exact forall_words (P := fun a => acc a = true).mpr hacc
    obtain ⟨c, hloaded, hrun⟩ := Hart.tryExec_loads hnodup ha1 hload
    let c' : Hart := ⟨Function.update c.gpr t' (1 <<< 17), false, c.mem⟩
    have hmem : c'.mem = mem := hloaded.mem
    have hdst : c'.gpr Reg.a0 + BitVec.ofNat 64 (0 * REGBYTES) = dst := by
      rw [Nat.zero_mul, BitVec.add_zero]
      exact (Function.update_of_ne hne.symm _ _).trans ((hloaded.other _ ha0).trans
        (Function.update_of_ne hne0.symm _ _))
    have hnil : ∀ c : Hart, c.tryExec acc [] = (c.mem, 0) := fun _ => rfl
    have hcopies := Hart.copies_stores hnil rs hdst hap fun j r hj => by
      have hr : r ≠ t' := fun h => ht (by rw [← h]; exact List.mem_of_getElem? hj)
      have hreg := hloaded.reg j r hj
      rw [hsrc, Nat.zero_add] at hreg
      rw [hmem, Nat.mul_comm 8 j]
      exact (Function.update_of_ne hr _ _).trans hreg
    rw [hrun]
    -- without `MPRV` no store faults
    have hdone : c'.tryExec acc (stores Reg.a0 0 rs ++ []) =
        (copied (8 * rs.length) dst src mem, 0) := by
      rw [← hmem]
      generalize c'.tryExec acc (stores Reg.a0 0 rs ++ []) = r at hcopies
      cases hcopies with
      | done _ => rfl
      | cut _ _ hfault => exact absurd hfault (by simp [Hart.sees, c'])
    rw [List.append_nil] at hdone
    show Copies acc src dst src (8 * rs.length) mem (c'.tryExec acc (stores Reg.a0 0 rs))
    rw [hdone]
    exact Copies.done hacc
  · have hfault : ∃ j < rs.length, ∃ b < REGBYTES, c₀.sees acc
        (c₀.gpr Reg.a1 + BitVec.ofNat 64 ((0 + j) * REGBYTES) + BitVec.ofNat 64 b) = false := by
      by_contra hnone
      refine hacc (forall_words (P := fun a => acc a = true).mp fun j hj b hb => ?_)
      refine Bool.of_not_eq_false fun hfault => hnone ⟨j, hj, b, hb, ?_⟩
      rw [hsrc]
      exact hfault
    rw [Hart.tryExec_loads_fault ha1 _ hfault]
    have hex : ∃ i < 8 * rs.length, acc (src + BitVec.ofNat 64 i) = false := by
      by_contra hnone
      exact hacc fun i hi => Bool.of_not_eq_false fun h => hnone ⟨i, hi, h⟩
    obtain ⟨i, hi, hi'⟩ := hex
    exact Copies.fault hi hi'

variable (acc : Word → Bool) (mem : Mem)

theorem copies_blockFromSm (hap : RangesApart dst src MPRV_BLOCK) :
    Copies acc dst dst src MPRV_BLOCK mem (copyBlockFromSm acc dst src mem) :=
  @copies_wordsFrom acc dst src mem blockRegs Reg.a1 [.unsetMprv Reg.a1] (by decide) (by decide)
    (by decide) (by decide) (by decide) (fun _ => rfl) hap

theorem copies_wordFromSm (hap : RangesApart dst src REGBYTES) :
    Copies acc dst dst src REGBYTES mem (copyWordFromSm acc dst src mem) :=
  @copies_wordsFrom acc dst src mem [Reg.t0] Reg.t5 [] (by decide) (by decide)
    (by decide) (by decide) (by decide) (fun _ => rfl) hap

theorem copies_blockToSm (hap : RangesApart dst src MPRV_BLOCK) :
    Copies acc src dst src MPRV_BLOCK mem (copyBlockToSm acc dst src mem) :=
  @copies_wordsTo acc dst src mem blockRegs Reg.t0 Reg.a1 (by decide) (by decide) (by decide)
    (by decide) (by decide) (by decide) (by decide) hap

theorem copies_wordToSm (hap : RangesApart dst src REGBYTES) :
    Copies acc src dst src REGBYTES mem (copyWordToSm acc dst src mem) :=
  @copies_wordsTo acc dst src mem [Reg.t0] Reg.t5 Reg.t5 (by decide) (by decide) (by decide)
    (by decide) (by decide) (by decide) (by decide) hap

/-- A byte that is loaded with its sign and stored is a copy of the byte. -/
theorem update_byte (dst src : Word) :
    Function.update mem dst (((mem src).signExtend 64).setWidth 8) = copied 1 dst src mem := by
  funext a
  have hbyte : ((mem src).signExtend 64).setWidth 8 = mem src := by
    refine BitVec.eq_of_getLsbD_eq fun i hi => ?_
    rw [BitVec.getLsbD_setWidth, BitVec.getLsbD_signExtend]
    simp [hi, show i < 64 by omega]
  by_cases ha : a = dst
  · subst ha
    rw [Function.update_self, hbyte, copied, if_pos (by simp), BitVec.sub_self, BitVec.add_zero]
  · rw [Function.update_of_ne ha, copied_of_not_lt (by bv_omega)]

/-- A byte whose access is allowed, or the result -1. -/
theorem copies_byte {u : Word} {r : Mem × Int}
    (hr : r = if acc u = true then (copied 1 dst src mem, 0) else (mem, -1)) :
    Copies acc u dst src 1 mem r := by
  rw [hr]
  split
  · next hacc =>
    refine Copies.done fun i hi => ?_
    rw [Nat.lt_one_iff.mp hi, BitVec.add_zero]
    exact hacc
  · next hacc =>
    refine Copies.fault Nat.zero_lt_one ?_
    rw [BitVec.add_zero]
    exact Bool.of_not_eq_true hacc

theorem copies_1FromSm : Copies acc dst dst src 1 mem (copy1FromSm acc dst src mem) := by
  let c : Hart := ⟨Function.update (Function.update (entry dst src mem).gpr Reg.t0
    ((mem src).signExtend 64)) Reg.t5 (1 <<< 17), true, mem⟩
  have hrun : copy1FromSm acc dst src mem = c.tryExec acc [.sb Reg.t0 Reg.a0] := rfl
  refine copies_byte acc mem ?_
  rw [hrun, Hart.tryExec_sb, ← update_byte]
  rfl

theorem copies_1ToSm : Copies acc src dst src 1 mem (copy1ToSm acc dst src mem) := by
  let c : Hart := ⟨Function.update (entry dst src mem).gpr Reg.t5 (1 <<< 17), true, mem⟩
  have hrun : copy1ToSm acc dst src mem =
    c.tryExec acc [.lb Reg.t0 Reg.a1, .unsetMprv Reg.t5, .sb Reg.t0 Reg.a0] := rfl
  refine copies_byte acc mem ?_
  rw [hrun, Hart.tryExec_lb, ← update_byte]
  rfl

end Primitives

/-! ## The loops -/

section Loops

variable {acc : Word → Bool} {u : Word → Word → Word}

/-- How far the copy that starts at `c` has come: a part of it is complete, or it has failed. `u`
picks the pointer of S-mode. -/
inductive Progress (acc : Word → Bool) (u : Word → Word → Word) (c : Cursor) : Cursor × Int → Prop
  | went {n : Nat} {mem : Mem} (hn : n ≤ c.len)
    (hcopies : Copies acc (u c.dst c.src) c.dst c.src n c.mem (mem, 0)) :
    Progress acc u c (⟨c.dst + BitVec.ofNat 64 n, c.src + BitVec.ofNat 64 n, c.len - n, mem⟩, 0)
  | failed {c' : Cursor} {res : Int} (hres : res ≠ 0)
    (hcopies : Copies acc (u c.dst c.src) c.dst c.src c.len c.mem (c'.mem, res)) :
    Progress acc u c (c', res)

variable (hu : ∀ d s n,
  u (d + BitVec.ofNat 64 n) (s + BitVec.ofNat 64 n) = u d s + BitVec.ofNat 64 n)

theorem Progress.refl (c : Cursor) : Progress acc u c (c, 0) := by
  have hdone : Copies acc (u c.dst c.src) c.dst c.src 0 c.mem (copied 0 c.dst c.src c.mem, 0) :=
    Copies.done fun i hi => absurd hi (Nat.not_lt_zero i)
  have hwent := Progress.went (Nat.zero_le _) hdone
  rwa [BitVec.add_zero, BitVec.add_zero, Nat.sub_zero, copied_zero] at hwent

include hu in
/-- The pieces of a copy follow each other. -/
theorem Progress.trans {c c₁ : Cursor} {p : Cursor × Int} (h₁ : Progress acc u c (c₁, 0))
    (hap : RangesApart c.dst c.src c.len) (h₂ : Progress acc u c₁ p) : Progress acc u c p := by
  cases h₁ with
  | failed hres _ => exact absurd rfl hres
  | @went n mem hn hcopies =>
    cases h₂ with
    | @went k mem' hk hcopies' =>
      dsimp only at hk hcopies' ⊢
      rw [hu] at hcopies'
      have hsum : n + k ≤ c.len := by omega
      have hboth := hcopies.append hcopies' (hap.take hsum)
      have hwent := Progress.went hsum hboth
      rwa [BitVec.ofNat_add, ← BitVec.add_assoc, ← BitVec.add_assoc, ← Nat.sub_sub] at hwent
    | failed hres hcopies' =>
      dsimp only at hcopies'
      rw [hu] at hcopies'
      refine Progress.failed hres ?_
      have hlen : n + (c.len - n) = c.len := Nat.add_sub_cancel' hn
      rw [← hlen]
      exact hcopies.append hcopies' (by rw [hlen]; exact hap)

/-- A copy with nothing left is complete. -/
theorem Progress.copies {c : Cursor} {p : Cursor × Int} (h : Progress acc u c p)
    (hend : p.2 = 0 → p.1.len = 0) :
    Copies acc (u c.dst c.src) c.dst c.src c.len c.mem (p.1.mem, p.2) := by
  cases h with
  | @went n mem hn hcopies =>
    have hlen : c.len - n = 0 := hend rfl
    obtain rfl : n = c.len := by omega
    exact hcopies
  | failed hres hcopies => exact hcopies

theorem Progress.apart {c c₁ : Cursor} (h : Progress acc u c (c₁, 0))
    (hap : RangesApart c.dst c.src c.len) : RangesApart c₁.dst c₁.src c₁.len := by
  cases h with
  | failed hres _ => exact absurd rfl hres
  | went hn _ =>
    refine RangesApart.drop ?_
    rw [Nat.add_sub_cancel' hn]
    exact hap

include hu in
/-- A loop makes progress, and goes on until less than one unit is left. -/
theorem progress_whileCopy {size : Nat} (hsize : 0 < size) {copy : Word → Word → Mem → Mem × Int}
    (hcopy : ∀ dst src mem, RangesApart dst src size →
      Copies acc (u dst src) dst src size mem (copy dst src mem)) (c : Cursor)
    (hap : RangesApart c.dst c.src c.len) :
    Progress acc u c (whileCopy size hsize copy c) ∧
      ((whileCopy size hsize copy c).2 = 0 → (whileCopy size hsize copy c).1.len < size) := by
  fun_induction whileCopy size hsize copy c with
  | case1 c hle mem res heq hres =>
    have hstep := hcopy c.dst c.src c.mem (hap.take hle)
    rw [heq] at hstep
    have hall := @Copies.stop _ _ _ _ _ _ (c.len - size) _ _ _ hstep hres
    rw [Nat.add_sub_cancel' hle] at hall
    exact ⟨Progress.failed hres hall, fun h => absurd h hres⟩
  | case2 c hle mem res heq hres ih =>
    have hstep := hcopy c.dst c.src c.mem (hap.take hle)
    rw [heq, Decidable.of_not_not hres] at hstep
    have hwent := Progress.went hle hstep
    obtain ⟨hrest, hend⟩ := ih (hwent.apart hap)
    exact ⟨hwent.trans hu hap hrest, hend⟩
  | case3 c hgt => exact ⟨Progress.refl c, fun _ => Nat.lt_of_not_le hgt⟩

include hu in
/-- The three loops together copy the whole range. -/
theorem copies_userCopy {copyBlock copyWord copy1 : Word → Word → Mem → Mem × Int}
    (hblock : ∀ dst src mem, RangesApart dst src MPRV_BLOCK →
      Copies acc (u dst src) dst src MPRV_BLOCK mem (copyBlock dst src mem))
    (hword : ∀ dst src mem, RangesApart dst src REGBYTES →
      Copies acc (u dst src) dst src REGBYTES mem (copyWord dst src mem))
    (hbyte : ∀ dst src mem, Copies acc (u dst src) dst src 1 mem (copy1 dst src mem))
    {dst src : Word} {len : Nat} (mem : Mem) (hap : RangesApart dst src len) :
    Copies acc (u dst src) dst src len mem (userCopy copyBlock copyWord copy1 dst src len mem) := by
  let c : Cursor := ⟨dst, src, len, mem⟩
  -- the part for aligned pointers
  have hfast : Progress acc u c
      (if src.toNat % REGBYTES = 0 ∧ dst.toNat % REGBYTES = 0 then
        if (whileCopy MPRV_BLOCK (by decide) copyBlock c).2 ≠ 0 then
          whileCopy MPRV_BLOCK (by decide) copyBlock c
        else whileCopy REGBYTES (by decide) copyWord
          (whileCopy MPRV_BLOCK (by decide) copyBlock c).1
      else (c, 0)) := by
    split
    · obtain ⟨hblocks, -⟩ := progress_whileCopy hu (by decide) hblock c hap
      split
      · exact hblocks
      · next hres =>
        generalize whileCopy MPRV_BLOCK (by decide) copyBlock c = p at hblocks hres ⊢
        obtain ⟨c₁, res⟩ := p
        obtain rfl : res = 0 := Decidable.of_not_not hres
        exact hblocks.trans hu hap
          (progress_whileCopy hu (by decide) hword c₁ (hblocks.apart hap)).1
    · exact Progress.refl c
  unfold userCopy
  dsimp only
  generalize (if src.toNat % REGBYTES = 0 ∧ dst.toNat % REGBYTES = 0 then
      if (whileCopy MPRV_BLOCK (by decide) copyBlock c).2 ≠ 0 then
        whileCopy MPRV_BLOCK (by decide) copyBlock c
      else whileCopy REGBYTES (by decide) copyWord (whileCopy MPRV_BLOCK (by decide) copyBlock c).1
    else (c, 0)) = p at hfast ⊢
  obtain ⟨c₁, res⟩ := p
  dsimp only
  split
  · next hres => exact hfast.copies fun h => absurd h hres
  · next hres =>
    obtain rfl : res = 0 := Decidable.of_not_not hres
    obtain ⟨hbytes, hend⟩ := progress_whileCopy hu (by decide)
      (fun dst src mem _ => hbyte dst src mem) c₁ (hfast.apart hap)
    refine (hfast.trans hu hap hbytes).copies fun h => ?_
    exact Nat.lt_one_iff.mp (hend h)

end Loops

/-! ## The functions -/

section Functions

variable {acc : Word → Bool} {dst src : Word} {len : Nat} {mem : Mem}

theorem copies_copyFromSm (hap : RangesApart dst src len) :
    Copies acc dst dst src len mem (copyFromSm acc dst src len mem) := by
  have hu : ∀ (d s : Word) (n : Nat), (fun d _ => d : Word → Word → Word) (d + BitVec.ofNat 64 n)
      (s + BitVec.ofNat 64 n) = (fun d _ => d : Word → Word → Word) d s + BitVec.ofNat 64 n :=
    fun _ _ _ => rfl
  exact copies_userCopy hu (fun _ _ mem => copies_blockFromSm acc mem)
    (fun _ _ mem => copies_wordFromSm acc mem) (fun _ _ mem => copies_1FromSm acc mem) mem hap

theorem copies_copyToSm (hap : RangesApart dst src len) :
    Copies acc src dst src len mem (copyToSm acc dst src len mem) := by
  have hu : ∀ (d s : Word) (n : Nat), (fun _ s => s : Word → Word → Word) (d + BitVec.ofNat 64 n)
      (s + BitVec.ofNat 64 n) = (fun _ s => s : Word → Word → Word) d s + BitVec.ofNat 64 n :=
    fun _ _ _ => rfl
  exact copies_userCopy hu (fun _ _ mem => copies_blockToSm acc mem)
    (fun _ _ mem => copies_wordToSm acc mem) (fun _ _ mem => copies_1ToSm acc mem) mem hap

/-- A copy in the sense of `Copies` is a copy byte by byte. -/
theorem byteCopy_of_copies {u : Word} {r : Mem × Int} (h : Copies acc u dst src len mem r) :
    ByteCopy acc u dst src len mem r := by
  have hframe (n : Nat) (a : Word) (ha : ∀ i < n, a ≠ dst + BitVec.ofNat 64 i) :
      copied n dst src mem a = mem a := by
    refine copied_of_not_lt fun hlt => ha _ hlt ?_
    rw [BitVec.ofNat_toNat, BitVec.setWidth_eq, BitVec.add_comm, BitVec.sub_add_cancel]
  cases h with
  | done hacc =>
    exact ⟨⟨fun _ => hacc, fun _ => rfl⟩, fun _ => ⟨fun i hi => copied_add_ofNat hi, hframe len⟩,
      fun hres => absurd rfl hres⟩
  | @cut k j hj hacc hfault =>
    have hbefore : ∀ i < len, acc (u + BitVec.ofNat 64 i) = false → k ≤ i := by
      intro i _ hi
      by_contra hlt
      have hi' := hacc i (by omega)
      rw [hi] at hi'
      exact absurd hi' Bool.false_ne_true
    have hne : (-1 : Int) ≠ 0 := by decide
    refine ⟨⟨fun hres => absurd hres hne, fun hall => ?_⟩, fun hres => absurd hres hne,
      fun _ => ⟨k, Nat.lt_of_le_of_lt (hbefore j hj hfault) hj, fun i hi => copied_add_ofNat hi,
        hframe k, hbefore⟩⟩
    have hj' := hall j hj
    rw [hfault] at hj'
    exact absurd hj' Bool.false_ne_true

/-- `copy_to_sm` and `copy_from_sm` copy byte by byte, whatever the alignment of the pointers and
wherever S-mode's range cannot be accessed. -/
theorem user_copies_agree (acc : Word → Bool) (dst src : Word) (len : Nat) (mem : Mem)
    (hap : RangesApart dst src len) :
    ByteCopy acc src dst src len mem (copyToSm acc dst src len mem) ∧
      ByteCopy acc dst dst src len mem (copyFromSm acc dst src len mem) :=
  ⟨byteCopy_of_copies (copies_copyToSm hap), byteCopy_of_copies (copies_copyFromSm hap)⟩

/-- A range of 100 bytes at aligned addresses, of which S-mode can access the first 77. -/
theorem user_copies_agree_at_fault :
    RangesApart 0x80100000 0x90000000 100 ∧
      ByteCopy (fun a => decide (a.toNat < 0x9000004d)) 0x90000000 0x80100000 0x90000000 100
        (fun a => a.setWidth 8) (copyToSm (fun a => decide (a.toNat < 0x9000004d)) 0x80100000
          0x90000000 100 fun a => a.setWidth 8) := by
  have hap : RangesApart 0x80100000 0x90000000 100 := ⟨by decide, by decide, Or.inl (by decide)⟩
  exact ⟨hap, (user_copies_agree _ _ _ _ _ hap).1⟩

end Functions

end Dorami.Sm.Mprv
