import Dorami.Riscv.Asm

/-!
# Rules for assembly code

Words in memory, the registers after an instruction, and how a run goes from block to block.
-/

namespace Dorami.Riscv

open Lib

/-! ## Words in memory -/

namespace Mem

variable {m : Mem} {a b v w : Word}

/-- A word is its bytes. -/
theorem word_eq_of_bytes (h : ∀ k < 8, v.extractLsb' (8 * k) 8 = w.extractLsb' (8 * k) 8) :
    v = w := by
  ext i hi
  have hb := congrArg (fun x : Byte => x.getLsbD (i % 8)) (h (i / 8) (by omega))
  have hlt : i % 8 < 8 := Nat.mod_lt _ (by decide)
  have hi' : 8 * (i / 8) + i % 8 = i := Nat.div_add_mod i 8
  simpa [hlt, hi', BitVec.getLsbD_eq_getElem hi] using hb

/-- Byte `k` of the word at `a`. -/
theorem byte_load (m : Mem) (a : Word) {k : Nat} (hk : k < 8) :
    (m.load a).extractLsb' (8 * k) 8 = m (a + BitVec.ofNat 64 k) := by
  have hcases : k = 0 ∨ k = 1 ∨ k = 2 ∨ k = 3 ∨ k = 4 ∨ k = 5 ∨ k = 6 ∨ k = 7 := by omega
  ext i hi
  rw [BitVec.getElem_extractLsb', load, ← BitVec.getLsbD_eq_getElem hi]
  simp only [BitVec.getLsbD_append, Nat.sub_sub]
  rcases hcases with rfl | rfl | rfl | rfl | rfl | rfl | rfl | rfl
  all_goals simp (disch := omega) only [if_neg, if_pos, Nat.add_sub_cancel_left]
  all_goals simp

theorem load_store_self (m : Mem) (a v : Word) : (m.store a v).load a = v := by
  refine word_eq_of_bytes fun k hk => ?_
  rw [byte_load _ _ hk]
  have hoff : (a + BitVec.ofNat 64 k - a).toNat = k := by bv_omega
  unfold store
  rw [hoff, if_pos hk]

/-- The two words have no byte in common. -/
def Apart (a b : Word) : Prop := 8 ≤ (b - a).toNat ∧ (b - a).toNat ≤ 2 ^ 64 - 8

theorem load_store_of_apart (h : Apart a b) (m : Mem) (v : Word) :
    (m.store a v).load b = m.load b := by
  obtain ⟨hlo, hhi⟩ := h
  refine word_eq_of_bytes fun k hk => ?_
  rw [byte_load _ _ hk, byte_load _ _ hk]
  have hoff : ¬ (b + BitVec.ofNat 64 k - a).toNat < 8 := by bv_omega
  unfold store
  rw [if_neg hoff]

/-- Members of one structure. -/
theorem load_store_slot (m : Mem) (a v : Word) {i j : Nat} (hi : i < 2 ^ 32) (hj : j < 2 ^ 32) :
    (m.store (a + slot j) v).load (a + slot i) = if i = j then v else m.load (a + slot i) := by
  split_ifs with hij
  · rw [hij, load_store_self]
  · refine load_store_of_apart ?_ m v
    unfold Apart slot
    constructor <;> bv_omega

/-- The bytes of a word that has been stored. -/
theorem store_byte (m : Mem) (a v : Word) {k : Nat} (hk : k < 8) :
    m.store a v (a + BitVec.ofNat 64 k) = v.extractLsb' (8 * k) 8 := by
  have hoff : (a + BitVec.ofNat 64 k - a).toNat = k := by bv_omega
  unfold store
  rw [hoff, if_pos hk]

end Mem

/-! ## Instructions -/

namespace Cpu

variable {c : Cpu} {rd r : Reg} {csr : Csr} {v : Word} {mem : Mem}

theorem gpr_setGpr (hrd : rd ≠ 0) : (c.setGpr rd v).gpr r = if r = rd then v else c.gpr r := by
  unfold setGpr
  rw [dif_neg hrd]
  exact Function.update_apply ..

@[simp] theorem csr_setGpr : (c.setGpr rd v).csr = c.csr := by
  unfold setGpr
  split <;> rfl

@[simp] theorem mem_setGpr : (c.setGpr rd v).mem = c.mem := by
  unfold setGpr
  split <;> rfl

/-- The last write to a register counts. -/
theorem setGpr_setGpr (c : Cpu) (r : Reg) (v w : Word) :
    (c.setGpr r v).setGpr r w = c.setGpr r w := by
  unfold setGpr
  split <;> simp

@[simp] theorem gpr_setCsr : (c.setCsr csr v).gpr = c.gpr := rfl

@[simp] theorem csr_setCsr : (c.setCsr csr v).csr = Function.update c.csr csr v := rfl

@[simp] theorem mem_setCsr : (c.setCsr csr v).mem = c.mem := rfl

@[simp] theorem gpr_setMem : (c.setMem mem).gpr = c.gpr := rfl

@[simp] theorem csr_setMem : (c.setMem mem).csr = c.csr := rfl

@[simp] theorem mem_setMem : (c.setMem mem).mem = mem := rfl

@[simp] theorem execs_nil : c.execs [] = c := rfl

@[simp] theorem execs_cons (op : Op) (ops : List Op) :
    c.execs (op :: ops) = (c.exec op).execs ops := rfl

theorem execs_append (ops ops' : List Op) : c.execs (ops ++ ops') = (c.execs ops).execs ops' :=
  run_append ..

@[simp] theorem storeAddrs_nil : c.storeAddrs [] = [] := rfl

@[simp] theorem storeAddrs_cons (op : Op) (ops : List Op) :
    c.storeAddrs (op :: ops) = (c.storeAddr op).toList ++ (c.exec op).storeAddrs ops := rfl

theorem storeAddrs_append (ops ops' : List Op) : ∀ c : Cpu,
    c.storeAddrs (ops ++ ops') = c.storeAddrs ops ++ (c.execs ops).storeAddrs ops' := by
  induction ops with
  | nil => intro c; rfl
  | cons op ops ih =>
    intro c
    rw [List.cons_append, storeAddrs_cons, ih, storeAddrs_cons, execs_cons, List.append_assoc]

/-- Registers stored to the members of a structure with their numbers. -/
def storeRegs (f : Reg → Word) (a : Word) (rs : List Reg) (m : Mem) : Mem :=
  rs.foldl (fun m (r : Reg) => m.store (a + slot r) (f r)) m

theorem execs_sd (base : Reg) (rs : List Reg) : ∀ c : Cpu,
    c.execs (rs.map fun r => .sd r (slot r) base) =
      c.setMem (storeRegs c.gpr (c.gpr base) rs c.mem) := by
  induction rs with
  | nil => intro c; rfl
  | cons r rs ih =>
    intro c
    rw [List.map_cons, execs_cons, ih]
    rfl

theorem storeAddrs_sd (base : Reg) (rs : List Reg) : ∀ c : Cpu,
    c.storeAddrs (rs.map fun r => .sd r (slot r) base) =
      rs.map fun r : Reg => c.gpr base + slot r := by
  induction rs with
  | nil => intro c; rfl
  | cons r rs ih =>
    intro c
    rw [List.map_cons, storeAddrs_cons, ih]
    rfl

/-- A register that is stored can be read back, whatever is stored after it. -/
theorem load_storeRegs {f : Reg → Word} {a : Word} (rs : List Reg) : ∀ {m : Mem},
    (r ∈ rs ∨ m.load (a + slot r) = f r) → (storeRegs f a rs m).load (a + slot r) = f r := by
  induction rs with
  | nil => intro m h; exact h.resolve_left List.not_mem_nil
  | cons r' rs ih =>
    intro m h
    refine ih ?_
    rw [Mem.load_store_slot _ _ _ (by omega) (by omega)]
    by_cases hr : r = r'
    · exact .inr (by rw [if_pos (congrArg Fin.val hr), hr])
    · have hne : r.val ≠ r'.val := fun he => hr (Fin.ext he)
      rw [if_neg hne]
      exact h.imp_left fun hmem => (List.mem_cons.mp hmem).resolve_left hr

/-- Other members keep their values. -/
theorem load_storeRegs_of_ne {f : Reg → Word} {a : Word} {i : Nat} (hi : i < 2 ^ 32)
    (rs : List Reg) :
    ∀ {m : Mem}, (∀ r ∈ rs, r.val ≠ i) → (storeRegs f a rs m).load (a + slot i) =
        m.load (a + slot i) := by
  induction rs with
  | nil => intro m _; rfl
  | cons r rs ih =>
    intro m h
    refine (ih fun r' hr' => h r' (List.mem_cons_of_mem _ hr')).trans ?_
    rw [Mem.load_store_slot _ _ _ hi (by omega), if_neg (Ne.symm (h r (List.mem_cons_self ..)))]

/-- Registers loaded from a structure. -/
structure Loaded (c : Cpu) (a : Word) (rs : List Reg) (c' : Cpu) : Prop where
  loaded : ∀ r ∈ rs, c'.gpr r = c.mem.load (a + slot r)
  other : ∀ r, r ∉ rs → c'.gpr r = c.gpr r
  csr : c'.csr = c.csr
  mem : c'.mem = c.mem

theorem execs_ld {base : Reg} (rs : List Reg) : ∀ {c : Cpu}, base ∉ rs → (0 : Reg) ∉ rs →
    Loaded c (c.gpr base) rs (c.execs (rs.map fun r => .ld r (slot r) base)) := by
  induction rs with
  | nil =>
    intro c _ _
    exact ⟨fun r hr => absurd hr List.not_mem_nil, fun _ _ => rfl, rfl, rfl⟩
  | cons r rs ih =>
    intro c hbase hzero
    rw [List.mem_cons, not_or] at hbase hzero
    have hexec : c.exec (.ld r (slot r) base) = c.setGpr r (c.mem.load (c.gpr base + slot r)) := rfl
    have hsame : (c.exec (.ld r (slot r) base)).gpr base = c.gpr base := by
      rw [hexec, gpr_setGpr (Ne.symm hzero.1), if_neg hbase.1]
    have hrest := ih (c := c.exec (.ld r (slot r) base)) hbase.2 hzero.2
    rw [hsame] at hrest
    obtain ⟨hloaded, hother, hcsr, hmem⟩ := hrest
    rw [hexec, mem_setGpr] at hloaded
    rw [List.map_cons, execs_cons]
    refine ⟨fun r' hr' => ?_, fun r' hr' => ?_, hcsr.trans (by rw [hexec, csr_setGpr]),
      hmem.trans (by rw [hexec, mem_setGpr])⟩
    · by_cases hin : r' ∈ rs
      · exact hloaded r' hin
      · obtain rfl := (List.mem_cons.mp hr').resolve_right hin
        rw [hother r' hin, hexec, gpr_setGpr (Ne.symm hzero.1), if_pos rfl]
    · rw [List.mem_cons, not_or] at hr'
      rw [hother r' hr'.2, hexec, gpr_setGpr (Ne.symm hzero.1), if_neg hr'.1]

end Cpu

/-! ## Blocks -/

namespace Code

variable {L F : Type*} {code : Code L F} {l target next : L} {c c' : Cpu} {f : F}

theorem calls_of_call (hlast : (code.block l).last = .call f) :
    code.Calls l c f (c.execs (code.block l).body) :=
  ⟨1, by simp only [exec, hlast]⟩

/-- A call takes at least one block. -/
theorem calls_iff_succ : code.Calls l c f c' ↔ ∃ n, code.exec (n + 1) l c = some (f, c') := by
  refine ⟨fun ⟨n, hn⟩ => ?_, fun ⟨n, hn⟩ => ⟨n + 1, hn⟩⟩
  cases n with
  | zero => cases hn
  | succ n => exact ⟨n, hn⟩

theorem calls_jump (hlast : (code.block l).last = .jump target ∨
      (code.block l).last = .fallThrough target) :
    code.Calls l c f c' ↔ code.Calls target (c.execs (code.block l).body) f c' := by
  rw [calls_iff_succ]
  rcases hlast with hlast | hlast <;>
  · simp only [exec, hlast]
    rfl

theorem calls_bnez {rs : Reg} (hlast : (code.block l).last = .bnez rs target next) :
    code.Calls l c f c' ↔
      code.Calls (if (c.execs (code.block l).body).gpr rs ≠ 0 then target else next)
        (c.execs (code.block l).body) f c' := by
  rw [calls_iff_succ]
  simp only [exec, hlast]
  rfl

theorem calls_jr {rs : Reg} (hlast : (code.block l).last = .jr rs)
    (hlabel : code.label ((c.execs (code.block l).body).gpr rs) = some target) :
    code.Calls l c f c' ↔ code.Calls target (c.execs (code.block l).body) f c' := by
  rw [calls_iff_succ]
  simp only [exec, hlast, hlabel, Option.bind_some]
  rfl

/-- More fuel does not change the outcome. -/
theorem exec_succ : ∀ (n : Nat) {l : L} {c : Cpu} {o : F × Cpu},
    code.exec n l c = some o → code.exec (n + 1) l c = some o := by
  intro n
  induction n with
  | zero => intro l c o h; cases h
  | succ n ih =>
    intro l c o h
    rw [exec] at h ⊢
    split
    · next target hlast => rw [hlast] at h; exact ih h
    · next target hlast => rw [hlast] at h; exact ih h
    · next rs target next hlast => rw [hlast] at h; exact ih h
    · next rs hlast =>
      rw [hlast] at h
      dsimp only at h
      obtain ⟨target, htarget, ho⟩ := Option.bind_eq_some_iff.mp h
      exact Option.bind_eq_some_iff.mpr ⟨target, htarget, ih ho⟩
    · next f hlast => rw [hlast] at h; exact h

theorem exec_le {n k : Nat} (hnk : n ≤ k) {o : F × Cpu} (h : code.exec n l c = some o) :
    code.exec k l c = some o := by
  obtain ⟨j, rfl⟩ := Nat.exists_eq_add_of_le hnk
  induction j with
  | zero => exact h
  | succ j ih => exact exec_succ (n + j) (ih (Nat.le_add_right n j))

/-- A run comes to one call only. -/
theorem Calls.unique {f' : F} {c'' : Cpu} (h : code.Calls l c f c') (h' : code.Calls l c f' c'') :
    f = f' ∧ c' = c'' := by
  obtain ⟨n, hn⟩ := h
  obtain ⟨k, hk⟩ := h'
  have heq := (exec_le (Nat.le_max_left n k) hn).symm.trans (exec_le (Nat.le_max_right n k) hk)
  simpa using heq

theorem stores_iff_succ {a : Word} : code.Stores l c a ↔ ∃ n, a ∈ code.storeAddrs (n + 1) l c := by
  refine ⟨fun ⟨n, hn⟩ => ?_, fun ⟨n, hn⟩ => ⟨n + 1, hn⟩⟩
  cases n with
  | zero => cases hn
  | succ n => exact ⟨n, hn⟩

theorem stores_of_call {a : Word} (hlast : (code.block l).last = .call f) :
    code.Stores l c a ↔ a ∈ c.storeAddrs (code.block l).body := by
  rw [stores_iff_succ]
  simp only [storeAddrs, hlast, List.append_nil, exists_const]

/-- Execution from `l` in state `c` goes on at `l'` in state `c'` and stores nothing on the way. -/
structure Leads (code : Code L F) (l : L) (c : Cpu) (l' : L) (c' : Cpu) : Prop where
  calls : ∀ f c'', code.Calls l c f c'' ↔ code.Calls l' c' f c''
  stores : ∀ a, code.Stores l c a ↔ code.Stores l' c' a

theorem Leads.trans {l' l'' : L} {c'' : Cpu} (h : code.Leads l c l' c')
    (h' : code.Leads l' c' l'' c'') :
    code.Leads l c l'' c'' :=
  ⟨fun f x => (h.calls f x).trans (h'.calls f x), fun a => (h.stores a).trans (h'.stores a)⟩

theorem leads_jump (hlast : (code.block l).last = .jump target ∨
      (code.block l).last = .fallThrough target) (hsilent : c.storeAddrs (code.block l).body = []) :
    code.Leads l c target (c.execs (code.block l).body) := by
  refine ⟨fun _ _ => calls_jump hlast, fun a => ?_⟩
  rw [stores_iff_succ]
  rcases hlast with hlast | hlast <;>
  · simp only [storeAddrs, hlast, hsilent, List.nil_append]
    rfl

theorem leads_bnez {rs : Reg} (hlast : (code.block l).last = .bnez rs target next)
    (hsilent : c.storeAddrs (code.block l).body = []) :
    code.Leads l c (if (c.execs (code.block l).body).gpr rs ≠ 0 then target else next)
      (c.execs (code.block l).body) := by
  refine ⟨fun _ _ => calls_bnez hlast, fun a => ?_⟩
  rw [stores_iff_succ]
  simp only [storeAddrs, hlast, hsilent, List.nil_append]
  rfl

end Code

end Dorami.Riscv
