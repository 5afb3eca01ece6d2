import Dorami.Monitor.Variables
import Dorami.Monitor.Proofs.RequestProofs
import Dorami.Monitor.Proofs.ServiceStoreProofs

/-!
# Steps that keep off the variables

A step that stores nothing onto the variables of the monitor does what the model without such stores
says, but for the memory. The key derivation then reads the array `info` from memory; what it yields
is a parameter of that model, so the step is one of the same model with another derivation.
-/

namespace Dorami

open Riscv Sm Lib

/-! ## Stores that keep off -/

section Patch

variable {base : Word} {ss : List (Word × Byte)}

theorem Sm.PmpRegion.patch_off (h : ∀ s ∈ ss, ¬ InBytes base pmpRegionSize s.1) (r : PmpRegion) :
    r.patch base ss = r := by
  unfold PmpRegion.patch
  simp (disch := decide) only [Codec.patchAt_off _ _ h]

theorem Sm.TrapRegs.patch_off (h : ∀ s ∈ ss, ¬ InBytes base trapRegsSize s.1) (r : TrapRegs) :
    r.patch base ss = r := by
  have hgpr : ∀ i : Fin 32, wordCodec.patchAt base ss (r.gpr i) (8 * i) = r.gpr i := by
    intro i
    refine Codec.patchAt_off _ _ h ?_
    show 8 * i.val + 8 ≤ 296
    omega
  unfold TrapRegs.patch
  simp (disch := decide) only [hgpr, Codec.patchAt_off _ _ h]

theorem Sm.ThreadState.patch_off (h : ∀ s ∈ ss, ¬ InBytes base enclaveSize s.1) (t : ThreadState) :
    t.patch base ss = t := by
  have hgpr : ∀ i : Fin 32,
      wordCodec.patchAt base ss (t.prevState i) (408 + 8 * i) = t.prevState i := by
    intro i
    refine Codec.patchAt_off _ _ h ?_
    show 408 + 8 * i.val + 8 ≤ 664
    omega
  unfold ThreadState.patch Csrs.patch
  simp (disch := decide) only [hgpr, Codec.patchAt_off _ _ h]

theorem Sm.Enclave.patch_off (h : ∀ s ∈ ss, ¬ InBytes base enclaveSize s.1) (en : Enclave) :
    en.patch base ss = en := by
  have hregion : (fun i => if i < ENCLAVE_REGIONS_MAX then
      (⟨intCodec.patchAt base ss (en.regions i).pmpRid (20 + 8 * i),
        typeCodec.patchAt base ss (en.regions i).type (24 + 8 * i)⟩ : EnclaveRegion)
      else en.regions i) = en.regions := by
    funext i
    split
    · next hi =>
      have hi' : i < 8 := hi
      rw [Codec.patchAt_off _ _ h (show 20 + 8 * i + 4 ≤ 664 by omega),
        Codec.patchAt_off _ _ h (show 24 + 8 * i + 4 ≤ 664 by omega)]
    · rfl
  unfold Enclave.patch RuntimeParams.patch
  simp (disch := decide) only [hregion, ThreadState.patch_off h, Codec.patchAt_off _ _ h]

end Patch

namespace Layout

variable {L : Layout} {ss : List (Word × Byte)} (hoff : ∀ s ∈ ss, s.1 ∉ L.vars)

include hoff

/-- The stores keep off each of the variables. -/
theorem off_range {r : Word × Nat} (hr : r ∈ L.ranges) : ∀ s ∈ ss, ¬ InBytes r.1 r.2 s.1 :=
  fun s hs hin => hoff s hs ⟨r, hr, hin⟩

/-- They keep off each entry of an array. -/
theorem off_entry {base : Word} {n off k : Nat} (hr : (base, n) ∈ L.ranges) (hk : off + k ≤ n) :
    ∀ s ∈ ss, ¬ InBytes (base + BitVec.ofNat 64 off) k s.1 :=
  fun s hs hin => off_range hoff hr s hs (hin.of_offset hk)

theorem patchTable_off (t : PmpTable) : L.patchTable ss t = t := by
  have hregions : (L.patchTable ss t).regions = t.regions := by
    funext i
    dsimp only [patchTable]
    split
    · next hi =>
      have hi' : i < 8 := hi
      refine PmpRegion.patch_off (off_entry hoff (n := pmpRegionSize * PMP_MAX_N_REGION) ?_ ?_) _
      · simp [ranges]
      · show 32 * i + 32 ≤ 32 * 8
        omega
    · rfl
  have hreg : (L.patchTable ss t).regBitmap = t.regBitmap :=
    Codec.patch_off _ _ (off_range hoff (r := (L.regBitmap, 4)) (by simp [ranges]))
  have hdef : (L.patchTable ss t).regionDefBitmap = t.regionDefBitmap :=
    Codec.patch_off _ _ (off_range hoff (r := (L.regionDefBitmap, 4)) (by simp [ranges]))
  show (⟨(L.patchTable ss t).regions, (L.patchTable ss t).regBitmap,
    (L.patchTable ss t).regionDefBitmap⟩ : PmpTable) = t
  rw [hregions, hreg, hdef]

theorem patchEnclave_off (e : Nat) (en : Enclave) : L.patchEnclave ss e en = en := by
  unfold patchEnclave
  split
  · next he =>
    have he' : e < 16 := he
    refine Enclave.patch_off (off_entry hoff (n := enclaveSize * ENCL_MAX) ?_ ?_) _
    · simp [ranges]
    · show 664 * e + 664 ≤ 664 * 16
      omega
  · rfl

theorem patchKeys_off (keys : Keys) : L.patchKeys ss keys = keys := by
  unfold patchKeys
  rw [Codec.patch_off _ _ (off_range hoff (r := (L.smHash, MDSIZE)) (by simp [ranges])),
    Codec.patch_off _ _ (off_range hoff (r := (L.smSignature, SIGNATURE_SIZE)) (by simp [ranges])),
    Codec.patch_off _ _ (off_range hoff (r := (L.smPublicKey, PUBLIC_KEY_SIZE)) (by simp [ranges])),
    Codec.patch_off _ _
      (off_range hoff (r := (L.smPrivateKey, PRIVATE_KEY_SIZE)) (by simp [ranges])),
    Codec.patch_off _ _
      (off_range hoff (r := (L.devPublicKey, PUBLIC_KEY_SIZE)) (by simp [ranges]))]

theorem patchHart_off (h : HartId) (hs : HartState) : L.patchHart ss h hs = hs := by
  have hi : hartIndex h < 5 := by
    show h.val + 1 < 5
    omega
  have hentry : ∀ {α : Type} (c : Codec α) (v : α) {base : Word} (n off : Nat),
      (base, n) ∈ L.ranges → off + c.size ≤ n → c.patchAt base ss v off = v :=
    fun c v _ _ _ hr hle => c.patchAt_off v (off_range hoff hr) hle
  have hparked : hs.temporaryRegisters.patch (L.parked h) ss = hs.temporaryRegisters := by
    refine TrapRegs.patch_off (off_entry hoff (n := trapRegsSize * hartSlots) ?_ ?_) _
    · simp [ranges]
    · show 296 * hartIndex h + 296 ≤ 296 * 5
      omega
  unfold patchHart
  rw [hparked,
    hentry _ _ (8 * MAX_HARTS) _ (by simp [ranges]) (show 8 * hartIndex h + 4 ≤ 8 * 16 by omega),
    hentry _ _ (8 * MAX_HARTS) _ (by simp [ranges])
    (show 8 * hartIndex h + 4 + 4 ≤ 8 * 16 by omega),
    hentry _ _ (4 * hartSlots) _ (by simp [ranges]) (show 4 * hartIndex h + 4 ≤ 4 * 5 by omega),
    hentry _ _ (4 * hartSlots) _ (by simp [ranges]) (show 4 * hartIndex h + 4 ≤ 4 * 5 by omega),
    hentry _ _ (8 * hartSlots) _ (by simp [ranges]) (show 8 * hartIndex h + 8 ≤ 8 * 5 by omega),
    hentry _ _ (8 * hartSlots) _ (by simp [ranges]) (show 8 * hartIndex h + 8 ≤ 8 * 5 by omega),
    hentry _ _ (8 * hartSlots) _ (by simp [ranges]) (show 8 * hartIndex h + 8 ≤ 8 * 5 by omega),
    hentry _ _ (trapInfoSize * hartSlots) _ (by simp [ranges])
      (show 40 * hartIndex h + 8 + 8 ≤ 40 * 5 by omega),
    hentry _ _ (trapInfoSize * hartSlots) _ (by simp [ranges])
      (show 40 * hartIndex h + 16 + 8 ≤ 40 * 5 by omega),
    hentry _ _ (8 * hartSlots) _ (by simp [ranges]) (show 8 * hartIndex h + 8 ≤ 8 * 5 by omega)]

end Layout

/-- The same functions with a key derivation that yields `key`. -/
def Sm.Crypto.yielding (C : Crypto) (key : Option (List Byte)) : Crypto :=
  { C with kdf := fun _ _ _ => key }

namespace Sm.Monitor

variable {L : Layout} {m : Monitor}

/-- Stores that keep off the variables change the memory only. -/
theorem write_off {ss : List (Word × Byte)} (hoff : ∀ s ∈ ss, s.1 ∉ L.vars) :
    m.write L ss = { m with mem := storeAll m.mem ss } := by
  have hrandom : wordCodec.patch L.randomW ss m.randomW = m.randomW :=
    Codec.patch_off _ _ (Layout.off_range hoff (r := (L.randomW, 8)) (by simp [Layout.ranges]))
  unfold write
  simp only [Layout.patchTable_off hoff, Layout.patchEnclave_off hoff, Layout.patchHart_off hoff,
    Layout.patchKeys_off hoff, hrandom]

/-! ## Services -/

section Services

variable {C : Crypto} {h : HartId} {env : Env} {info : Word}

theorem attestEnclaveIn_off {reportPtr data size : Word}
    (hoff : ∀ s ∈ m.stores C h env info (.service (.attest reportPtr data size)), s.1 ∉ L.vars) :
    m.attestEnclaveIn C L h env reportPtr data size (m.hart h).eid =
      m.attestEnclave C h env reportPtr data size (m.hart h).eid := by
  unfold attestEnclaveIn attestEnclave
  split
  · rfl
  next hsize =>
  split
  · rfl
  next hatt =>
  have hgo : (decide (size ≤ ATTEST_DATA_MAXLEN) && decide ((m.hart h).eid < ENCL_MAX) &&
      (m.enclaves (m.hart h).eid).attestable) = true := by
    rw [Bool.and_assoc, decide_eq_true (BitVec.not_lt.mp hsize), Bool.true_and]
    simpa using hatt
  dsimp only [stores] at hoff
  rw [if_pos hgo] at hoff
  cases hread : copyToSm env data size.toNat with
  | none => rfl
  | some bytes =>
    rw [hread] at hoff
    have hreport : ∀ stored, (m.pmpSetRegions h (m.hart h).eid EPMP_ALL_RW).reportBytes C
        ((m.pmpSetRegions h (m.hart h).eid EPMP_ALL_RW).enclaves (m.hart h).eid) size stored =
          m.reportBytes C (m.enclaves (m.hart h).eid) size stored := fun _ => rfl
    dsimp only at hoff ⊢
    rw [hreport, write_off hoff, mem_copyFromSm]

/-- The stores that fill the array. -/
def infoStores (mem : Word → Byte) (info keyIdent size : Word) (hash : List Byte) :
    List (Word × Byte) :=
  byteStores info hash ++ memcpyStores (storeAll mem (byteStores info hash))
    (info + BitVec.ofNat 64 MDSIZE) keyIdent size.toNat

/-- The key that is derived from the array in memory. -/
def derived (C : Crypto) (m : Monitor) (info keyIdent size : Word) (hash : List Byte) :
    Option (List Byte) :=
  C.kdf m.keys.smPrivateKey
    (({ m with mem := storeAll m.mem (infoStores m.mem info keyIdent size hash) } : Monitor).readMem
      info (infoLen size)) SEALING_KEY_SIZE

theorem deriveIn_off {keyIdent size : Word} {hash : List Byte}
    (hoff : ∀ s ∈ infoStores m.mem info keyIdent size hash, s.1 ∉ L.vars) :
    m.deriveIn C L info keyIdent size hash =
      ({ m with mem := storeAll m.mem (infoStores m.mem info keyIdent size hash) },
        derived C m info keyIdent size hash) := by
  obtain ⟨hstart, hident⟩ := List.forall_mem_append.mp hoff
  unfold deriveIn derived infoStores
  rw [write_off hstart]
  dsimp only
  rw [write_off hident, storeAll_append]

/-- The stores after the array has been filled. -/
theorem sealingStores_of_derived {sealingKey keyIdent size : Word} {hash key : List Byte}
    (hkey : derived C m info keyIdent size hash = some key) :
    m.sealingStores C info sealingKey keyIdent size hash =
      infoStores m.mem info keyIdent size hash ++ byteStores sealingKey key ++
        byteStores (sealingKey + BitVec.ofNat 64 SEALING_KEY_SIZE)
          (C.sign (({ m with
            mem := storeAll (storeAll m.mem (infoStores m.mem info keyIdent size hash))
              (byteStores sealingKey key) } : Monitor).readMem sealingKey SEALING_KEY_SIZE)
            m.keys.smPublicKey m.keys.smPrivateKey) := by
  have hkey' := hkey
  unfold derived infoStores at hkey'
  unfold sealingStores
  dsimp only at hkey' ⊢
  rw [hkey']
  rfl

theorem sealingStores_of_none {sealingKey keyIdent size : Word} {hash : List Byte}
    (hkey : derived C m info keyIdent size hash = none) :
    m.sealingStores C info sealingKey keyIdent size hash =
      infoStores m.mem info keyIdent size hash := by
  have hkey' := hkey
  unfold derived infoStores at hkey'
  unfold sealingStores
  dsimp only at hkey' ⊢
  rw [hkey']
  rfl

/-- A call for a sealing key that keeps off the variables is `get_sealing_key` without the array,
with the key that is derived from the array, but for the memory. -/
theorem getSealingKeyIn_off {sealingKey keyIdent size : Word} {eid : Nat}
    (hoff : ∀ s ∈ m.sealingStores C info sealingKey keyIdent size (m.enclaves eid).hash,
      s.1 ∉ L.vars) :
    m.getSealingKeyIn C L h info sealingKey keyIdent size eid =
      let res := m.getSealingKey (C.yielding (derived C m info keyIdent size (m.enclaves eid).hash))
        h sealingKey keyIdent size eid
      ({ res.1 with
          mem := storeAll m.mem
            (m.sealingStores C info sealingKey keyIdent size (m.enclaves eid).hash) }, res.2) := by
  have hsame : ∀ hash, derived C (m.pmpSetRegions h eid EPMP_ALL_RW) info keyIdent size hash =
      derived C m info keyIdent size hash := fun _ => rfl
  have hhash : ((m.pmpSetRegions h eid EPMP_ALL_RW).enclaves eid).hash =
    (m.enclaves eid).hash := rfl
  unfold getSealingKeyIn getSealingKey smDeriveSealingKey
  dsimp only [Crypto.yielding]
  rw [hhash]
  cases hkey : derived C m info keyIdent size (m.enclaves eid).hash with
  | none =>
    rw [sealingStores_of_none hkey] at hoff ⊢
    rw [deriveIn_off (m := m.pmpSetRegions h eid EPMP_ALL_RW) hoff, hsame, hkey]
    rfl
  | some key =>
    rw [sealingStores_of_derived hkey] at hoff ⊢
    obtain ⟨hfill, hsign⟩ := List.forall_mem_append.mp hoff
    obtain ⟨hinfo, hput⟩ := List.forall_mem_append.mp hfill
    rw [deriveIn_off (m := m.pmpSetRegions h eid EPMP_ALL_RW) hinfo, hsame, hkey]
    dsimp only
    rw [write_off hput, storeAll_append, storeAll_append]
    dsimp only
    -- what is signed is read after the two passes over the regions
    generalize hm₂ : pmpSetRegions (pmpSetRegions _ h eid EPMP_SU_RWX) h eid EPMP_ALL_RW = m₂
    have hread : m₂.readMem sealingKey SEALING_KEY_SIZE = ({ m with
        mem := storeAll (storeAll m.mem (infoStores m.mem info keyIdent size (m.enclaves eid).hash))
          (byteStores sealingKey key) } : Monitor).readMem sealingKey SEALING_KEY_SIZE := by
      rw [← hm₂]
      rfl
    have hkeys : m₂.keys = m.keys := by
      rw [← hm₂]
      rfl
    rw [hread, hkeys, write_off hsign, ← hm₂]
    rfl

end Services

end Sm.Monitor

end Dorami
