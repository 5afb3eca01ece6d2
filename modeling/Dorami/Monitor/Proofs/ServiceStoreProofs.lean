import Dorami.Monitor.Calls
import Dorami.Monitor.Proofs.MeasurementProofs

/-!
# The stores of the services

The stores of a call are listed in `stores`; here they are shown to make up all that the call does
to memory, and their addresses are computed from the arguments.
-/

namespace Dorami.Sm

open Riscv Lib

/-! ## Addresses -/

section Addresses

variable {P : Word → Prop}

theorem add_one_add (dst : Word) (i : Nat) :
    dst + 1 + BitVec.ofNat 64 i = dst + BitVec.ofNat 64 (i + 1) := by
  rw [BitVec.ofNat_add, BitVec.add_comm (BitVec.ofNat 64 i), ← BitVec.add_assoc]
  rfl

/-- A property of the addresses from `dst` on, one at a time. -/
theorem forall_addr_succ (dst : Word) (n : Nat) :
    (∀ i < n + 1, P (dst + BitVec.ofNat 64 i)) ↔
      P dst ∧ ∀ i < n, P (dst + 1 + BitVec.ofNat 64 i) := by
  simp only [add_one_add]
  rw [Nat.forall_lt_succ_left, BitVec.add_zero]

theorem forall_byteStores (dst : Word) (bs : List Byte) :
    (∀ s ∈ byteStores dst bs, P s.1) ↔ ∀ i < bs.length, P (dst + BitVec.ofNat 64 i) := by
  induction bs generalizing dst with
  | nil => simp [byteStores]
  | cons b bs ih =>
    rw [byteStores, List.forall_mem_cons, ih, List.length_cons, forall_addr_succ]

theorem forall_memcpyStores (mem : Word → Byte) (dst src : Word) (n : Nat) :
    (∀ s ∈ memcpyStores mem dst src n, P s.1) ↔ ∀ i < n, P (dst + BitVec.ofNat 64 i) := by
  induction n generalizing mem dst src with
  | zero => simp [memcpyStores]
  | succ n ih => rw [memcpyStores, List.forall_mem_cons, ih, forall_addr_succ]

theorem forall_copyStores (env : Env) (dst : Word) (bs : List Byte) :
    (∀ s ∈ copyStores env dst bs, P s.1) ↔ ∀ pa ∈ copyTargets env dst bs.length, P pa := by
  induction bs generalizing dst with
  | nil => simp [copyStores, copyTargets]
  | cons b bs ih =>
    rw [copyStores, List.length_cons, copyTargets]
    cases env.store dst with
    | none => simp
    | some pa => simp only [List.forall_mem_cons, ih]

/-- A range of addresses in two parts. -/
theorem forall_addr_add (dst : Word) (n k : Nat) :
    (∀ i < n + k, P (dst + BitVec.ofNat 64 i)) ↔
      (∀ i < n, P (dst + BitVec.ofNat 64 i)) ∧
        ∀ i < k, P (dst + BitVec.ofNat 64 n + BitVec.ofNat 64 i) := by
  have hadd : ∀ i, dst + BitVec.ofNat 64 n + BitVec.ofNat 64 i = dst + BitVec.ofNat 64 (n + i) := by
    intro i
    rw [BitVec.add_assoc, ← BitVec.ofNat_add]
  simp only [hadd]
  refine ⟨fun h => ⟨fun i hi => h i (by omega), fun i hi => h (n + i) (by omega)⟩, ?_⟩
  rintro ⟨hlo, hhi⟩ i hi
  by_cases hin : i < n
  · exact hlo i hin
  · have := hhi (i - n) (by omega)
    rwa [Nat.add_sub_cancel' (by omega)] at this

end Addresses

/-! ## The memory after a call -/

theorem mem_copyFromSm (env : Env) (mem : Word → Byte) (dst : Word) (bs : List Byte) :
    (copyFromSm env mem dst bs).1 = storeAll mem (copyStores env dst bs) := by
  induction bs generalizing mem dst with
  | nil => rfl
  | cons b bs ih =>
    unfold copyFromSm copyStores
    cases env.store dst with
    | none => rfl
    | some pa =>
      have hupdate : (fun a => if a = pa then b else mem a) = Function.update mem pa b := by
        funext a
        rw [Function.update_apply]
      exact (ih _ _).trans (by rw [hupdate, storeAll_cons])

theorem length_copyToSm {env : Env} {src : Word} {n : Nat} {bytes : List Byte}
    (h : copyToSm env src n = some bytes) : bytes.length = n := by
  have hmap : ∀ (l : List Nat) (bs : List Byte),
      (l.mapM fun i => env.load (src + BitVec.ofNat 64 i)) = some bs → bs.length = l.length := by
    intro l
    induction l with
    | nil =>
      intro bs hbs
      simp only [List.mapM_nil, Option.pure_def, Option.some.injEq] at hbs
      rw [← hbs]
      rfl
    | cons i l ih =>
      intro bs hbs
      simp only [List.mapM_cons, Option.bind_eq_bind, Option.bind_eq_some_iff, Option.pure_def,
        Option.some.injEq] at hbs
      obtain ⟨b, -, bs', hbs', rfl⟩ := hbs
      rw [List.length_cons, List.length_cons, ih bs' hbs']
  rw [hmap _ _ h, List.length_range]

namespace Monitor

variable (C : Crypto) {m : Monitor} {h : HartId} {env : Env} {info : Word}

theorem mem_attestEnclave (reportPtr data size : Word) :
    (m.attestEnclave C h env reportPtr data size (m.hart h).eid).1.mem =
      storeAll m.mem (m.stores C h env info (.service (.attest reportPtr data size))) := by
  unfold attestEnclave stores
  dsimp only
  by_cases hgo : (decide (size ≤ ATTEST_DATA_MAXLEN) && decide ((m.hart h).eid < ENCL_MAX) &&
      (m.enclaves (m.hart h).eid).attestable) = true
  · rw [if_pos hgo]
    simp only [Bool.and_eq_true, decide_eq_true_eq] at hgo
    obtain ⟨⟨hsize, heid⟩, hatt⟩ := hgo
    rw [if_neg (BitVec.not_lt.mpr hsize), if_neg (by simp [heid, hatt])]
    cases copyToSm env data size.toNat with
    | none => rfl
    | some bytes =>
      dsimp only
      split
      · exact mem_copyFromSm _ _ _ _
      · exact mem_copyFromSm _ _ _ _
  · rw [if_neg hgo]
    by_cases hsize : size > ATTEST_DATA_MAXLEN
    · rw [if_pos hsize]
      rfl
    · have hatt : (decide ((m.hart h).eid < ENCL_MAX) &&
          (m.enclaves (m.hart h).eid).attestable) = false := by
        rw [Bool.and_assoc, decide_eq_true (BitVec.not_lt.mp hsize), Bool.true_and] at hgo
        exact Bool.eq_false_iff.mpr hgo
      rw [if_neg hsize, if_pos (by rw [hatt]; rfl)]
      rfl

/-- The generator of random numbers is a variable apart; the lemma keeps its arithmetic closed. -/
theorem same_withRandom (w : Word) : ({ m with randomW := w } : Monitor).mem = m.mem ∧
    ({ m with randomW := w } : Monitor).table = m.table ∧
    ({ m with randomW := w } : Monitor).enclaves = m.enclaves ∧
    ({ m with randomW := w } : Monitor).keys = m.keys := ⟨rfl, rfl, rfl, rfl⟩

theorem mem_stopFree (call : StopFreeCall) :
    (m.stopFree C h env info call).mem = storeAll m.mem (m.stores C h env info call) := by
  cases call with
  | random => exact (same_withRandom _).1
  | plugin => rfl
  | service call =>
    cases call with
    | attest reportPtr data size => exact mem_attestEnclave C reportPtr data size
    | sealingKey => rfl

/-- A call leaves the variables of the monitor alone. -/
theorem kept_stopFree (call : StopFreeCall) :
    (m.stopFree C h env info call).table = m.table ∧
      (m.stopFree C h env info call).enclaves = m.enclaves ∧
      (m.stopFree C h env info call).keys = m.keys := by
  cases call with
  | random => exact (same_withRandom _).2
  | plugin => exact ⟨rfl, rfl, rfl⟩
  | service call =>
    cases call with
    | attest reportPtr data size =>
      unfold stopFree attestEnclave
      dsimp only
      split
      · exact ⟨rfl, rfl, rfl⟩
      split
      · exact ⟨rfl, rfl, rfl⟩
      split
      · exact ⟨rfl, rfl, rfl⟩
      · split
        · exact ⟨rfl, rfl, rfl⟩
        · exact ⟨rfl, rfl, rfl⟩
    | sealingKey sealingKey keyIdent size =>
      unfold stopFree getSealingKey
      dsimp only
      split
      · exact ⟨rfl, rfl, rfl⟩
      · exact ⟨rfl, rfl, rfl⟩

/-! ## The addresses of a call -/

theorem length_reportBytes (hC : C.Sized) (hm : m.Sized h env) {data size : Word}
    {bytes : List Byte} (hsize : size ≤ ATTEST_DATA_MAXLEN)
    (hcopy : copyToSm env data size.toNat = some bytes) :
    (m.reportBytes C (m.enclaves (m.hart h).eid) size
      (bytes ++ env.reportData.drop size.toNat)).length = reportSize := by
  have hdata : (bytes ++ env.reportData.drop size.toNat).length = ATTEST_DATA_MAXLEN.toNat := by
    rw [List.length_append, List.length_drop, length_copyToSm hcopy, hm.reportData]
    rw [BitVec.le_def] at hsize
    omega
  unfold reportBytes reportSize
  simp only [List.length_append, hm.hash, length_wordBytes, hC.sign, hm.smHash, hm.smPublicKey,
    hm.smSignature, hm.devPublicKey]
  rw [List.length_append] at hdata
  omega

theorem forall_sealingStores {P : Word → Prop} (hC : C.Sized) (sealingKey keyIdent size : Word)
    {hash : List Byte} (hhash : hash.length = MDSIZE) :
    (∀ s ∈ m.sealingStores C info sealingKey keyIdent size hash, P s.1) ↔
      (∀ i < SEALING_KEY_SIZE + SIGNATURE_SIZE, P (sealingKey + BitVec.ofNat 64 i)) ∧
        ∀ i < MDSIZE + size.toNat, P (info + BitVec.ofNat 64 i) := by
  unfold sealingStores
  dsimp only
  obtain ⟨key, hkey, hlen⟩ := hC.kdf m.keys.smPrivateKey
    (({ m with mem := storeAll m.mem (byteStores info hash ++ memcpyStores
      (storeAll m.mem (byteStores info hash)) (info + BitVec.ofNat 64 MDSIZE) keyIdent
      size.toNat) } : Monitor).readMem info (infoLen size))
  rw [hkey]
  simp only [List.forall_mem_append, forall_byteStores, forall_memcpyStores, hlen, hC.sign, hhash]
  rw [forall_addr_add sealingKey, forall_addr_add info]
  tauto

/-! ## The array `info` -/

section Info

variable {mem : Word → Byte}

/-- A byte string stored at `dst` reads back, and nothing else changes. -/
theorem storeAll_byteStores (dst : Word) {bs : List Byte} (hlen : bs.length ≤ 2 ^ 64) (a : Word) :
    storeAll mem (byteStores dst bs) a = (bs[(a - dst).toNat]?).getD (mem a) := by
  induction bs generalizing mem dst with
  | nil => rfl
  | cons b bs ih =>
    rw [List.length_cons] at hlen
    rw [byteStores, storeAll_cons, ih (dst + 1) (by omega)]
    dsimp only
    by_cases ha : a = dst
    · subst ha
      have hlast : (a - (a + 1)).toNat = 2 ^ 64 - 1 := by bv_omega
      rw [List.getElem?_eq_none (by omega), Function.update_self, BitVec.sub_self]
      rfl
    · have hnext : (a - dst).toNat = (a - (dst + 1)).toNat + 1 := by bv_omega
      rw [hnext, List.getElem?_cons_succ, Function.update_of_ne ha]

theorem readMem_byteStores (m : Monitor) (mem : Word → Byte) (base : Word) {bs : List Byte}
    (hlen : bs.length ≤ 2 ^ 64) :
    ({ m with mem := storeAll mem (byteStores base bs) } : Monitor).readMem base bs.length =
        bs := by
  refine List.ext_getElem? fun i => ?_
  by_cases hi : i < bs.length
  · have hidx : (base + BitVec.ofNat 64 i - base).toNat = i := by
      rw [BitVec.add_comm, BitVec.add_sub_cancel, BitVec.toNat_ofNat, Nat.mod_eq_of_lt (by omega)]
    rw [getElem?_readMem _ base hi]
    dsimp only
    rw [storeAll_byteStores base hlen, hidx, List.getElem?_eq_getElem hi]
    rfl
  · rw [List.getElem?_eq_none (by simpa using hi), List.getElem?_eq_none (by omega)]

theorem byteStores_append (dst : Word) (bs bs' : List Byte) :
    byteStores dst (bs ++ bs') =
      byteStores dst bs ++ byteStores (dst + BitVec.ofNat 64 bs.length) bs' := by
  induction bs generalizing dst with
  | nil => simp [byteStores]
  | cons b bs ih =>
    rw [List.cons_append, byteStores, byteStores, ih, List.length_cons, add_one_add,
      List.cons_append]

/-- A copy from a range apart from its target is the store of the bytes of that range. -/
theorem memcpyStores_apart (dst src : Word) (n : Nat)
    (hapart : ∀ i < n, ∀ j < n, src + BitVec.ofNat 64 i ≠ dst + BitVec.ofNat 64 j) :
    memcpyStores mem dst src n =
      byteStores dst ((List.range n).map fun i => mem (src + BitVec.ofNat 64 i)) := by
  induction n generalizing mem dst src with
  | zero => rfl
  | succ n ih =>
    rw [memcpyStores, ih (dst + 1) (src + 1) ?_, List.range_succ_eq_map, List.map_cons, byteStores,
      BitVec.add_zero, List.map_map]
    · congr 2
      refine List.map_congr_left fun i hi => ?_
      have hne := hapart (i + 1) (by have := List.mem_range.mp hi; omega) 0 (by omega)
      rw [BitVec.add_zero, ← add_one_add] at hne
      rw [Function.update_of_ne hne, add_one_add]
      rfl
    · intro i hi j hj
      rw [add_one_add, add_one_add]
      exact hapart (i + 1) (by omega) (j + 1) (by omega)

theorem infoLen_eq {size : Word} (hsize : MDSIZE + size.toNat < 2 ^ 31) :
    infoLen size = MDSIZE + size.toNat := by
  have hnat : ((BitVec.ofNat 64 MDSIZE + size).setWidth 32).toNat = MDSIZE + size.toNat := by
    rw [BitVec.toNat_setWidth, BitVec.toNat_add, BitVec.toNat_ofNat]
    unfold MDSIZE at *
    omega
  unfold infoLen
  rw [BitVec.toInt_eq_toNat_of_lt (by omega), hnat, Int.toNat_natCast]

theorem storeAll_byteStores_apart (dst : Word) {bs : List Byte} {a : Word}
    (ha : ∀ j < bs.length, dst + BitVec.ofNat 64 j ≠ a) :
    storeAll mem (byteStores dst bs) a = mem a :=
  storeAll_of_notMem ((forall_byteStores (P := (· ≠ a)) dst bs).mpr ha)

theorem mem_writeMem (base : Word) {bs : List Byte} (hlen : bs.length ≤ 2 ^ 64) :
    (m.writeMem base bs).mem = storeAll m.mem (byteStores base bs) := by
  funext a
  exact (storeAll_byteStores base hlen a).symm

theorem length_kdf {C : Crypto} (hC : C.Sized) {ikm info key : List Byte}
    (hkey : C.kdf ikm info SEALING_KEY_SIZE = some key) : key.length = SEALING_KEY_SIZE := by
  obtain ⟨key', hkey', hlen⟩ := hC.kdf ikm info
  rw [hkey, Option.some.injEq] at hkey'
  rw [hkey', hlen]

/-- The stores of `get_sealing_key` for a derived key: the key, and a signature of the key. -/
def keyStores (C : Crypto) (m : Monitor) (sealingKey : Word) : Option (List Byte) →
    List (Word × Byte)
  | none => []
  | some key =>
      byteStores sealingKey key ++ byteStores (sealingKey + BitVec.ofNat 64 SEALING_KEY_SIZE)
      (C.sign key m.keys.smPublicKey m.keys.smPrivateKey)

theorem mem_getSealingKey (hC : C.Sized) (sealingKey keyIdent size : Word) (eid : Nat) :
    (m.getSealingKey C h sealingKey keyIdent size eid).1.mem =
      storeAll m.mem (keyStores C m sealingKey
        (m.smDeriveSealingKey C keyIdent size (m.enclaves eid).hash)) := by
  have hderive : (m.pmpSetRegions h eid EPMP_ALL_RW).smDeriveSealingKey C keyIdent size
      ((m.pmpSetRegions h eid EPMP_ALL_RW).enclaves eid).hash =
        m.smDeriveSealingKey C keyIdent size (m.enclaves eid).hash := rfl
  unfold getSealingKey
  dsimp only
  rw [hderive]
  cases hkey : m.smDeriveSealingKey C keyIdent size (m.enclaves eid).hash with
  | none => rfl
  | some key =>
    have hlen : key.length = SEALING_KEY_SIZE := length_kdf hC hkey
    have hle : key.length ≤ 2 ^ 64 := by rw [hlen]; decide
    dsimp only
    -- the second pair of passes over the regions is between the two writes
    generalize hm₁ :
      (((m.pmpSetRegions h eid EPMP_ALL_RW).writeMem sealingKey key).pmpSetRegions h eid
        EPMP_SU_RWX).pmpSetRegions h eid EPMP_ALL_RW = m₁
    have hmem : m₁.mem = storeAll m.mem (byteStores sealingKey key) := by
      rw [← hm₁]
      exact mem_writeMem sealingKey hle
    have hkeys : m₁.keys = m.keys := by rw [← hm₁]; rfl
    have hread : m₁.readMem sealingKey SEALING_KEY_SIZE = key := by
      rw [← readMem_byteStores m m.mem sealingKey hle, hlen]
      exact (readMem_eq_iff _ _).mpr fun i _ => congrFun hmem _
    rw [hread, hkeys, keyStores, storeAll_append, ← hmem]
    exact mem_writeMem _ (by rw [hC.sign]; decide)

/-- With the identifier elsewhere, the array gets the hash and the identifier, and the rest is as
without an array. -/
theorem sealingStores_apart (hC : C.Sized) (sealingKey keyIdent size : Word) {hash : List Byte}
    (hhash : hash.length = MDSIZE) (hsize : MDSIZE + size.toNat < 2 ^ 31)
    (hident : ∀ i < size.toNat, ∀ j < MDSIZE + size.toNat,
      keyIdent + BitVec.ofNat 64 i ≠ info + BitVec.ofNat 64 j) :
    m.sealingStores C info sealingKey keyIdent size hash =
      byteStores info (hash ++ m.readMem keyIdent size.toNat) ++
        keyStores C m sealingKey (m.smDeriveSealingKey C keyIdent size hash) := by
  have hcopied : memcpyStores (storeAll m.mem (byteStores info hash))
      (info + BitVec.ofNat 64 MDSIZE) keyIdent size.toNat =
        byteStores (info + BitVec.ofNat 64 MDSIZE) (m.readMem keyIdent size.toNat) := by
    rw [memcpyStores_apart]
    · congr 1
      refine List.map_congr_left fun i hi => storeAll_byteStores_apart info fun j hj => ?_
      exact (hident i (List.mem_range.mp hi) j (by omega)).symm
    · intro i hi j hj
      rw [BitVec.add_assoc, ← BitVec.ofNat_add]
      exact hident i hi (MDSIZE + j) (by omega)
  have hlen : (hash ++ m.readMem keyIdent size.toNat).length = MDSIZE + size.toNat := by
    rw [List.length_append, hhash, length_readMem]
  have hfilled : byteStores info hash ++
      byteStores (info + BitVec.ofNat 64 MDSIZE) (m.readMem keyIdent size.toNat) =
        byteStores info (hash ++ m.readMem keyIdent size.toNat) := by
    rw [byteStores_append, hhash]
  unfold sealingStores smDeriveSealingKey
  dsimp only
  rw [hcopied, hfilled, infoLen_eq hsize, ← hlen, readMem_byteStores m m.mem info (by omega)]
  cases hkey : C.kdf m.keys.smPrivateKey (hash ++ m.readMem keyIdent size.toNat)
      SEALING_KEY_SIZE with
  | none => rw [keyStores, List.append_nil]
  | some key =>
    have hkeylen : key.length = SEALING_KEY_SIZE := length_kdf hC hkey
    dsimp only
    rw [keyStores, ← List.append_assoc, ← hkeylen,
      readMem_byteStores m _ sealingKey (by rw [hkeylen]; decide)]

/-- The array is a buffer: away from it, and if the identifier is read from elsewhere and the length
is an `int`, a sealing key call writes what `get_sealing_key` writes without one. -/
theorem mem_sealing_off_info (hC : C.Sized) (sealingKey keyIdent size : Word) {a : Word}
    (hhash : (m.enclaves (m.hart h).eid).hash.length = MDSIZE)
    (hsize : MDSIZE + size.toNat < 2 ^ 31)
    (hident : ∀ i < size.toNat, ∀ j < MDSIZE + size.toNat,
      keyIdent + BitVec.ofNat 64 i ≠ info + BitVec.ofNat 64 j)
    (ha : ∀ j < MDSIZE + size.toNat, info + BitVec.ofNat 64 j ≠ a) :
    (m.stopFree C h env info (.service (.sealingKey sealingKey keyIdent size))).mem a =
      (m.getSealingKey C h sealingKey keyIdent size (m.hart h).eid).1.mem a := by
  rw [mem_stopFree, mem_getSealingKey C hC]
  dsimp only [stores]
  rw [sealingStores_apart C hC sealingKey keyIdent size hhash hsize hident, storeAll_append]
  refine storeAll_congr _ (storeAll_byteStores_apart info fun j hj => ha j ?_)
  rwa [List.length_append, hhash, length_readMem] at hj

end Info

end Monitor

end Dorami.Sm
