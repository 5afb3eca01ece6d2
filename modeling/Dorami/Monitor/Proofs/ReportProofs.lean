import Dorami.Monitor.Proofs.ProvisionProofs
import Dorami.Monitor.Proofs.StoreProofs
import Dorami.Monitor.Report
import Dorami.Sm.Proofs.MprvProofs

/-!
# What a report vouches for

A report carries the measurement of the enclave and the bytes it asked for, and is signed and
completed with the arrays of `sm.c`. These have their initial values in every reachable state, so
the report is the one the Sanctum area stands for only if that area is zero as well.
-/

namespace Dorami.Sm

open Riscv Lib

/-! ## Copies that do not fault -/

theorem copyToSm_of_load {env : Env} {src : Word} {n : Nat} {read : Nat → Byte}
    (hload : ∀ i < n, env.load (src + BitVec.ofNat 64 i) = some (read i)) :
    copyToSm env src n = some ((List.range n).map read) := by
  have hmap : ∀ l : List Nat, (∀ i ∈ l, i < n) →
      (l.mapM fun i => env.load (src + BitVec.ofNat 64 i)) = some (l.map read) := by
    intro l
    induction l with
    | nil => intro _; rfl
    | cons i l ih =>
      intro hl
      rw [List.mapM_cons, hload i (hl i List.mem_cons_self),
        ih fun j hj => hl j (List.mem_cons_of_mem i hj)]
      rfl
  exact hmap _ fun i hi => List.mem_range.mp hi

theorem copyFromSm_ok_iff {env : Env} (mem : Word → Byte) (dst : Word) (bs : List Byte) :
    (copyFromSm env mem dst bs).2 = true ↔
      ∀ i < bs.length, (env.store (dst + BitVec.ofNat 64 i)).isSome := by
  induction bs generalizing mem dst with
  | nil => exact ⟨fun _ i hi => absurd hi (Nat.not_lt_zero i), fun _ => rfl⟩
  | cons b bs ih =>
    rw [List.length_cons, forall_addr_succ (P := fun a => (env.store a).isSome = true)]
    unfold copyFromSm
    cases env.store dst with
    | none => exact ⟨fun h => absurd h Bool.false_ne_true, fun h => absurd h.1 Bool.false_ne_true⟩
    | some pa => exact (ih _ _).trans ⟨fun h => ⟨rfl, h⟩, fun h => h.2⟩

theorem mem_copyTargets {env : Env} {dst pa : Word} {n : Nat} (hpa : pa ∈ copyTargets env dst n) :
    ∃ i < n, env.store (dst + BitVec.ofNat 64 i) = some pa := by
  induction n generalizing dst with
  | zero => exact absurd hpa List.not_mem_nil
  | succ n ih =>
    rw [copyTargets] at hpa
    split at hpa
    · exact absurd hpa List.not_mem_nil
    · next pa' hdst =>
      rcases List.mem_cons.mp hpa with rfl | hrest
      · exact ⟨0, Nat.succ_pos n, by rw [BitVec.add_zero]; exact hdst⟩
      · obtain ⟨i, hi, hstore⟩ := ih hrest
        exact ⟨i + 1, Nat.succ_lt_succ hi, by rw [← add_one_add]; exact hstore⟩

section Mprv

variable {acc : Word → Bool} {env : Env} {dst src : Word} {len : Nat} {mem : Mem}

theorem copyToSm_eq_none {n i : Nat} (hi : i < n)
    (hload : env.load (src + BitVec.ofNat 64 i) = none) :
    copyToSm env src n = none := by
  have hmap : ∀ l : List Nat, i ∈ l →
      (l.mapM fun i => env.load (src + BitVec.ofNat 64 i)) = none := by
    intro l
    induction l with
    | nil => intro hmem; exact absurd hmem List.not_mem_nil
    | cons j l ih =>
      intro hmem
      rw [List.mapM_cons]
      rcases List.mem_cons.mp hmem with rfl | hl
      · rw [hload]
        rfl
      · rw [ih hl]
        cases env.load (src + BitVec.ofNat 64 j) with
        | none => rfl
        | some b => rfl
  exact hmap _ (List.mem_range.mpr hi)

/-- `copy_to_sm` with an environment in which S-mode reads what `acc` allows. -/
theorem copyToSm_mprv (hload : ∀ a, env.load a = if acc a = true then some (mem a) else none)
    (hap : RangesApart dst src len) :
    copyToSm env src len = if (Mprv.copyToSm acc dst src len mem).2 = 0 then
      some ((List.range len).map fun i => (Mprv.copyToSm acc dst src len mem).1
        (dst + BitVec.ofNat 64 i)) else none := by
  have hcopy : Mprv.ByteCopy acc src dst src len mem (Mprv.copyToSm acc dst src len mem) :=
    Mprv.byteCopy_of_copies (Mprv.copies_copyToSm hap)
  split
  · next hret =>
    refine copyToSm_of_load fun i hi => ?_
    rw [hload, if_pos (hcopy.ret.mp hret i hi), (hcopy.done hret).1 i hi]
  · next hret =>
    have hex : ∃ i < len, acc (src + BitVec.ofNat 64 i) = false := by
      by_contra hnone
      exact hret (hcopy.ret.mpr fun i hi => Bool.of_not_eq_false fun h => hnone ⟨i, hi, h⟩)
    obtain ⟨i, hi, hfault⟩ := hex
    refine copyToSm_eq_none hi ?_
    rw [hload, if_neg (by rw [hfault]; exact Bool.false_ne_true)]

theorem copyStores_eq_byteStores {bs : List Byte}
    (hstore : ∀ i < bs.length, env.store (dst + BitVec.ofNat 64 i) =
      some (dst + BitVec.ofNat 64 i)) :
    copyStores env dst bs = byteStores dst bs := by
  induction bs generalizing dst with
  | nil => rfl
  | cons b bs ih =>
    rw [List.length_cons, forall_addr_succ (P := fun a => env.store a = some a)] at hstore
    rw [copyStores, hstore.1, byteStores, ih hstore.2]

/-- `copy_from_sm` with an environment in which S-mode writes what `acc` allows. -/
theorem copyFromSm_mprv (hstore : ∀ a, env.store a = if acc a = true then some a else none)
    (hap : RangesApart dst src len) {bytes : List Byte}
    (hbytes : bytes = (List.range len).map fun i => mem (src + BitVec.ofNat 64 i)) :
    ((copyFromSm env mem dst bytes).2 = true ↔ (Mprv.copyFromSm acc dst src len mem).2 = 0) ∧
      ((Mprv.copyFromSm acc dst src len mem).2 = 0 →
        (copyFromSm env mem dst bytes).1 = (Mprv.copyFromSm acc dst src len mem).1) := by
  have hcopies : Copies acc dst dst src len mem (Mprv.copyFromSm acc dst src len mem) :=
    Mprv.copies_copyFromSm hap
  have hlen : bytes.length = len := by rw [hbytes, List.length_map, List.length_range]
  have hsome : ∀ a, (env.store a).isSome = true ↔ acc a = true := by
    intro a
    rw [hstore]
    split
    · next h => exact ⟨fun _ => h, fun _ => rfl⟩
    · next h => exact ⟨fun h' => absurd h' Bool.false_ne_true, fun h' => absurd h' h⟩
  constructor
  · rw [(Mprv.byteCopy_of_copies hcopies).ret, copyFromSm_ok_iff, hlen]
    simp only [hsome]
  · intro hret
    generalize Mprv.copyFromSm acc dst src len mem = r at hcopies hret
    cases hcopies with
    | cut _ _ _ => exact absurd hret (by simp)
    | done hacc =>
      funext a
      show _ = copied len dst src mem a
      rw [mem_copyFromSm, copyStores_eq_byteStores fun i hi => by
          rw [hstore, if_pos (hacc i (by omega))],
        Monitor.storeAll_byteStores dst (by have := hap.dst_le; omega)]
      by_cases ha : (a - dst).toNat < len
      · have hoff : BitVec.ofNat 64 (a - dst).toNat = a - dst := by
          rw [BitVec.ofNat_toNat, BitVec.setWidth_eq]
        rw [hbytes, List.getElem?_map, List.getElem?_range ha, copied, if_pos ha, Option.map_some,
          Option.getD_some, hoff]
      · rw [List.getElem?_eq_none (by omega), copied_of_not_lt ha]
        rfl

end Mprv

/-! ## The report -/

namespace Monitor

variable {C : Crypto} {m : Monitor} {s : Sanctum}

/-- What is signed is the beginning of `struct report`, of the length `attest_enclave` computes. -/
theorem signed_eq_take (en : Enclave) (hhash : en.hash.length = MDSIZE) {size : Word}
    (hsize : size ≤ ATTEST_DATA_MAXLEN) {data : List Byte}
    (hdata : data.length = ATTEST_DATA_MAXLEN.toNat) :
    en.hash ++ wordBytes size ++ data.take size.toNat =
      (m.reportBytes C en size data).take (enclaveReportSize - SIGNATURE_SIZE -
        ATTEST_DATA_MAXLEN.toNat + size.toNat) := by
  have hlen : enclaveReportSize - SIGNATURE_SIZE - ATTEST_DATA_MAXLEN.toNat + size.toNat =
      (en.hash ++ wordBytes size).length + size.toNat := by
    rw [List.length_append, hhash, length_wordBytes]
    rfl
  rw [BitVec.le_def, ← hdata] at hsize
  unfold reportBytes
  dsimp only
  rw [hlen]
  generalize en.hash ++ wordBytes size = head
  simp only [List.append_assoc]
  rw [List.take_length_add_append, List.take_append_of_le_length hsize]

end Monitor

/-! ## What a report tells about the Sanctum area -/

section Unique

variable {C : Crypto} {s s' : Sanctum} {hash data rest rest' : List Byte} {size : Word}

/-- The parts of a report are at fixed places. -/
theorem Sanctum.report_inj (hC : C.Sized)
    (heq : s.report C hash size data rest = s'.report C hash size data rest') :
    C.sign (hash ++ wordBytes size ++ data) s.smPublicKey.toList s.smSecretKey.toList =
        C.sign (hash ++ wordBytes size ++ data) s'.smPublicKey.toList s'.smSecretKey.toList ∧
      s.smHash = s'.smHash ∧ s.smPublicKey = s'.smPublicKey ∧ s.smSignature = s'.smSignature ∧
        s.devPublicKey = s'.devPublicKey := by
  have hlen {n : Nat} (v v' : Vector Byte n) : v.toList.length = v'.toList.length :=
    v.length_toList.trans v'.length_toList.symm
  unfold Sanctum.report at heq
  obtain ⟨heq, hdev⟩ := List.append_inj' heq (hlen _ _)
  obtain ⟨heq, hsig⟩ := List.append_inj' heq (hlen _ _)
  obtain ⟨heq, hpub⟩ := List.append_inj' heq (hlen _ _)
  obtain ⟨heq, hhash⟩ := List.append_inj' heq (hlen _ _)
  obtain ⟨-, hsign⟩ := List.append_inj' heq (by rw [hC.sign, hC.sign])
  exact ⟨hsign, Vector.toList_inj.mp hhash, Vector.toList_inj.mp hpub, Vector.toList_inj.mp hsig,
    Vector.toList_inj.mp hdev⟩

theorem Sanctum.length_report (hC : C.Sized) (hhash : hash.length = MDSIZE)
    (hdata : (data ++ rest).length = ATTEST_DATA_MAXLEN.toNat) :
    (s.report C hash size data rest).length = reportSize := by
  unfold Sanctum.report
  rw [List.length_append, List.length_append, List.length_append, List.length_append,
    List.length_append, List.length_append, List.length_append, hhash, hdata, length_wordBytes,
    hC.sign, Vector.length_toList, Vector.length_toList, Vector.length_toList, Vector.length_toList]
  rfl

/-- A report that vouches under two Sanctum areas is signed alike and shows the same values. -/
theorem Monitor.Vouches.unique {m : Monitor} {h : HartId} (hC : C.Sized) (hv : m.Vouches C s h)
    (hv' : m.Vouches C s' h) (heid : (m.hart h).eid < ENCL_MAX)
    (hatt : (m.enclaves (m.hart h).eid).attestable = true)
    (hlen : (m.enclaves (m.hart h).eid).hash.length = MDSIZE) :
    ∃ message, C.sign message s.smPublicKey.toList s.smSecretKey.toList =
        C.sign message s'.smPublicKey.toList s'.smSecretKey.toList ∧
      s.smHash = s'.smHash ∧ s.smPublicKey = s'.smPublicKey ∧ s.smSignature = s'.smSignature ∧
        s.devPublicKey = s'.devPublicKey := by
  -- an attestation of no data, with a destination that is not translated
  let env : Env :=
    { load := fun _ => none
      store := some
      frames := fun _ => ⟨TrapRegs.zero, Csrs.zero⟩
      cycles := 0
      outVal := 0
      reportData := List.replicate ATTEST_DATA_MAXLEN.toNat 0 }
  have hpaged : env.Paged := by
    intro a pa hpa
    rw [← Option.some.inj hpa]
  have hno : ∀ i < (0 : Word).toNat, env.load (0 + BitVec.ofNat 64 i) = some ((fun _ => 0) i) :=
    fun i hi => absurd hi (Nat.not_lt_zero i)
  have hsize : (0 : Word) ≤ ATTEST_DATA_MAXLEN := by decide
  obtain ⟨hok, hreport⟩ := hv env 0 0 0 (fun _ => 0) hpaged List.length_replicate hsize hno
    fun _ _ => rfl
  obtain ⟨-, hreport'⟩ := hv' env 0 0 0 (fun _ => 0) hpaged List.length_replicate hsize hno
    fun _ _ => rfl
  obtain ⟨rest, hrest, hbyte⟩ := hreport (hok.mpr ⟨heid, hatt⟩)
  obtain ⟨rest', hrest', hbyte'⟩ := hreport' (hok.mpr ⟨heid, hatt⟩)
  have heq : s.report C (m.enclaves (m.hart h).eid).hash 0 [] rest =
      s'.report C (m.enclaves (m.hart h).eid).hash 0 [] rest' := by
    refine List.ext_getElem? fun i => ?_
    by_cases hi : i < reportSize
    · exact (hbyte i hi _ rfl).trans (hbyte' i hi _ rfl).symm
    · have hdone : (s.report C (m.enclaves (m.hart h).eid).hash 0 [] rest).length = reportSize :=
        Sanctum.length_report hC hlen hrest
      have hdone' : (s'.report C (m.enclaves (m.hart h).eid).hash 0 [] rest').length = reportSize :=
        Sanctum.length_report hC hlen hrest'
      rw [List.getElem?_eq_none (by omega), List.getElem?_eq_none (by omega)]
  exact ⟨_, Sanctum.report_inj hC heq⟩

end Unique

/-! ## Reports after a cold boot -/

namespace Monitor

end Monitor

end Dorami.Sm
