import Dorami.Monitor.Proofs.VariableProofs
import Dorami.Sm.Proofs.HkdfProofs

/-!
# Sealing keys are bound to the enclave while the array fits

What the array holds is followed byte by byte through the two copies. As long as the array stays
away from `sm_private_key` and its length is an `int`, the info string is the hash of the enclave
and the identifier. A longer identifier replaces the private key, or is cut off, without an error.
-/

namespace Dorami.Sm

open Riscv Lib

/-! ## Copies -/

section Memcpy

variable {m : Mem} {dst src a : Word} {n : Nat}

theorem memcpy_succ : memcpy m dst src (n + 1) =
    memcpy (Function.update m dst (m src)) (dst + 1) (src + 1) n := rfl

theorem memcpy_off (ha : ¬ InBytes dst n a) (hn : n ≤ 2 ^ 64) : memcpy m dst src n a = m a := by
  refine storeAll_of_notMem ((forall_memcpyStores (P := (· ≠ a)) m dst src n).mpr ?_)
  rintro i hi rfl
  refine ha ?_
  unfold InBytes
  bv_omega

/-- A byte of the copy is what its source holds when the copy gets there. -/
theorem memcpy_at {i : Nat} (hi : i < n) (hn : n ≤ 2 ^ 64) :
    memcpy m dst src n (dst + BitVec.ofNat 64 i) =
      memcpy m dst src i (src + BitVec.ofNat 64 i) := by
  induction i generalizing m dst src n with
  | zero =>
    obtain ⟨n, rfl⟩ : ∃ k, n = k + 1 := ⟨n - 1, by omega⟩
    have hlater : ¬ InBytes (dst + 1) n dst := by
      unfold InBytes
      bv_omega
    rw [BitVec.add_zero, BitVec.add_zero, memcpy_succ, memcpy_off hlater (by omega),
      Function.update_self]
    rfl
  | succ i ih =>
    obtain ⟨n, rfl⟩ : ∃ k, n = k + 1 := ⟨n - 1, by omega⟩
    rw [memcpy_succ, memcpy_succ, ← add_one_add, ← add_one_add, ih (by omega) (by omega)]

/-- A byte whose source has not been written before. -/
theorem memcpy_of_apart {i : Nat} (hi : i < n) (hn : n ≤ 2 ^ 64)
    (hsrc : ¬ InBytes dst i (src + BitVec.ofNat 64 i)) :
    memcpy m dst src n (dst + BitVec.ofNat 64 i) = m (src + BitVec.ofNat 64 i) := by
  rw [memcpy_at hi hn, memcpy_off hsrc (by omega)]

end Memcpy

/-! ## Derivation -/

/-- A key derived from any input key and array: the length counts as an `int`. -/
theorem kdf_spec {ikm : Buffer} {info : Mem → Buffer} {size key : Word} {m : Mem} {text : List Byte}
    (hinfo : ∀ out : List Byte, out.length ≤ SEALING_KEY_SIZE →
      (info (copyOut m key out)).bytes (infoLen size) = text) : ∃ fuel,
    kdf none 0 ikm PRIVATE_KEY_SIZE info (BitVec.ofNat 64 MDSIZE + size) key
        (BitVec.ofNat 64 SEALING_KEY_SIZE) fuel m =
      some (0, copyOut m key (sha3512.hkdf none (ikm.bytes PRIVATE_KEY_SIZE) text
        SEALING_KEY_SIZE)) := by
  have h0 : (0 : Int) ≤ 128 := by decide
  exact hkdfSha3512_ends none 0 ikm PRIVATE_KEY_SIZE info _ key m h0 (by decide) hinfo

/-- An `int` is below 2 ^ 31. -/
theorem infoLen_lt (size : Word) : infoLen size < 2 ^ 31 := by
  have hlt : ((BitVec.ofNat 64 MDSIZE + size).setWidth 32).toInt < 2 ^ 31 := BitVec.toInt_lt
  unfold infoLen
  omega

/-- The bytes at `p` are out of reach of stores that end before them. -/
theorem bytes_copyOut {m : Mem} {p key : Word} {n : Nat} {out : List Byte}
    (hlen : out.length ≤ SEALING_KEY_SIZE)
    (hkey : ∀ i < SEALING_KEY_SIZE, ¬ InBytes p n (key + BitVec.ofNat 64 i)) :
    (bufferAt p (copyOut m key out)).bytes n = (bufferAt p m).bytes n := by
  refine List.map_congr_left fun i hi => ?_
  have hlt := List.mem_range.mp hi
  have hnone : out.length ≤ (p + BitVec.ofNat 64 i - key).toNat := by
    by_contra hin
    refine hkey (p + BitVec.ofNat 64 i - key).toNat (by omega) ?_
    have haddr : key + BitVec.ofNat 64 (p + BitVec.ofNat 64 i - key).toNat =
        p + BitVec.ofNat 64 i := by
      rw [BitVec.ofNat_toNat, BitVec.setWidth_eq, BitVec.add_comm, BitVec.sub_add_cancel]
    rw [haddr]
    exact inBytes_add p hlt
  unfold bufferAt copyOut
  rw [List.getElem?_eq_none hnone]
  rfl

namespace SealingCall

variable {c : SealingCall} {frames : List (Word × Byte)} {m : Mem} {room : Nat}

/-! ## The array -/

section Filled

variable (hint : MDSIZE + c.keyIdentSize.toNat < 2 ^ 31)

include hint

theorem filled_off {a : Word} (ha : ¬ InBytes c.info (MDSIZE + c.keyIdentSize.toNat) a) :
    c.filled m a = m a := by
  have hhash : ¬ InBytes c.info MDSIZE a := fun hin => ha (Nat.lt_add_right _ hin)
  have hident : ¬ InBytes (c.info + BitVec.ofNat 64 MDSIZE) c.keyIdentSize.toNat a := by
    unfold InBytes at ha ⊢
    unfold MDSIZE at *
    bv_omega
  unfold filled
  rw [memcpy_off hident (by omega), memcpy_off hhash (by decide)]

/-- The copy of the identifier does not touch the copy of the hash. -/
theorem filled_hash {i : Nat} (hi : i < MDSIZE) :
    c.filled m (c.info + BitVec.ofNat 64 i) =
      memcpy m c.info c.enclaveHash MDSIZE (c.info + BitVec.ofNat 64 i) := by
  refine memcpy_off ?_ (by omega)
  unfold InBytes
  unfold MDSIZE at *
  bv_omega

/-- A hash in which the array does not begin is copied as it is. -/
theorem filled_hash_of_fits
    (hhash : (c.info - c.enclaveHash).toNat = 0 ∨ MDSIZE ≤ (c.info - c.enclaveHash).toNat) {i : Nat}
    (hi : i < MDSIZE) :
    c.filled m (c.info + BitVec.ofNat 64 i) = m (c.enclaveHash + BitVec.ofNat 64 i) := by
  rw [filled_hash hint hi, memcpy_of_apart hi (by decide)]
  unfold InBytes
  unfold MDSIZE at *
  bv_omega

theorem filled_ident (hident : ∀ i < c.keyIdentSize.toNat,
      ¬ InBytes c.info (MDSIZE + c.keyIdentSize.toNat) (c.keyIdent + BitVec.ofNat 64 i)) {i : Nat}
    (hi : i < c.keyIdentSize.toNat) :
    c.filled m (c.info + BitVec.ofNat 64 MDSIZE + BitVec.ofNat 64 i) =
      m (c.keyIdent + BitVec.ofNat 64 i) := by
  have hout := hident i hi
  have hbefore : ¬ InBytes (c.info + BitVec.ofNat 64 MDSIZE) i (c.keyIdent +
      BitVec.ofNat 64 i) := by
    unfold InBytes at hout ⊢
    unfold MDSIZE at *
    bv_omega
  unfold filled
  rw [memcpy_of_apart hi (by omega) hbefore]
  exact memcpy_off (fun hin => hout (Nat.lt_add_right _ hin)) (by decide)

end Filled

/-! ## What `kdf` finds -/

theorem kdfMem_nil : c.kdfMem [] m = c.filled m := storeAll_nil _

theorem kdfMem_of_above {a : Word} (hframes : ∀ s ∈ frames, c.Below room s.1)
    (ha : ¬ c.Below room a) :
    c.kdfMem frames m a = c.filled m a :=
  storeAll_of_notMem fun s hs heq => ha (heq ▸ hframes s hs)

/-- No byte of the array is one of a frame. -/
theorem not_below_info (hint : MDSIZE + c.keyIdentSize.toNat < 2 ^ 31) (hroom : room ≤ 8192)
    {i : Nat} (hi : i < MDSIZE + c.keyIdentSize.toNat) :
    ¬ c.Below room (c.info + BitVec.ofNat 64 i) := by
  unfold Below InBytes
  unfold MDSIZE at *
  bv_omega

theorem bytes_info (hf : c.Fits room) (ha : c.Apart) (hroom : room ≤ 8192)
    (hframes : ∀ s ∈ frames, c.Below room s.1) :
    (bufferAt c.info (c.kdfMem frames m)).bytes (MDSIZE + c.keyIdentSize.toNat) = c.binding m := by
  unfold Buffer.bytes binding
  rw [List.range_add, List.map_append, List.map_map]
  congr 1
  · refine List.map_congr_left fun i hi => ?_
    have hlt := List.mem_range.mp hi
    refine (kdfMem_of_above hframes (not_below_info hf.int hroom (by omega))).trans ?_
    exact filled_hash_of_fits hf.int hf.hash hlt
  · refine List.map_congr_left fun i hi => ?_
    have hlt := List.mem_range.mp hi
    have habove := not_below_info hf.int hroom (Nat.add_lt_add_left hlt MDSIZE)
    refine (kdfMem_of_above hframes habove).trans ?_
    rw [BitVec.ofNat_add, ← BitVec.add_assoc]
    exact filled_ident hf.int (ha.ident hf.int) hlt

theorem bytes_privateKey (hf : c.Fits room) (hroom : room ≤ 8192)
    (hframes : ∀ s ∈ frames, c.Below room s.1) :
    (bufferAt c.privateKey (c.kdfMem frames m)).bytes PRIVATE_KEY_SIZE =
      (bufferAt c.privateKey m).bytes PRIVATE_KEY_SIZE := by
  refine List.map_congr_left fun i hi => ?_
  have hout := hf.input i (List.mem_range.mp hi)
  have hint := hf.int
  have hbelow : ¬ c.Below room (c.privateKey + BitVec.ofNat 64 i) :=
    fun hin => hout (Nat.lt_add_right _ hin)
  have harray : ¬ InBytes c.info (MDSIZE + c.keyIdentSize.toNat)
      (c.privateKey + BitVec.ofNat 64 i) := by
    unfold InBytes at hout ⊢
    unfold MDSIZE at *
    bv_omega
  exact (kdfMem_of_above hframes hbelow).trans (filled_off hf.int harray)

theorem bound_of_fits (hf : c.Fits room) (ha : c.Apart) (hroom : room ≤ 8192)
    (hframes : ∀ s ∈ frames, c.Below room s.1) : c.BoundToEnclave frames m := by
  have hlen : infoLen c.keyIdentSize = MDSIZE + c.keyIdentSize.toNat := Monitor.infoLen_eq hf.int
  have hread : ∀ out : List Byte, out.length ≤ SEALING_KEY_SIZE →
      (bufferAt c.info (copyOut (c.kdfMem frames m) c.key out)).bytes (infoLen c.keyIdentSize) =
        c.binding m := by
    intro out hout
    rw [hlen, bytes_copyOut hout (ha.key hf.int), bytes_info hf ha hroom hframes]
  have hinput := bytes_privateKey (m := m) hf hroom hframes
  refine ⟨?_, hinput, fun i t out ht hout => ?_⟩
  · rw [← hinput]
    exact kdf_spec hread
  · rw [updatesText_expand _ _ i fun _ => ht]
    exact congrArg (fun text => _ ++ text ++ [i]) (hread out hout)

/-! ## What a bound key shows -/

section Bound

variable (hb : c.BoundToEnclave frames m)

include hb

/-- The text of a round shows what has been read. -/
theorem BoundToEnclave.read :
    (bufferAt c.info (c.kdfMem frames m)).bytes (infoLen c.keyIdentSize) = c.binding m := by
  have htext := hb.text 0 (List.replicate SHA3_512_HASH_LEN 0) [] List.length_replicate
    (Nat.zero_le _)
  rw [updatesText_expand _ _ 0 fun _ => List.length_replicate] at htext
  exact List.append_cancel_right htext

theorem BoundToEnclave.int : MDSIZE + c.keyIdentSize.toNat < 2 ^ 31 := by
  have hlen := congrArg List.length hb.read
  unfold binding at hlen
  rw [List.length_append, length_bytes, length_bytes, length_bytes] at hlen
  have hint := infoLen_lt c.keyIdentSize
  omega

theorem BoundToEnclave.byte {i : Nat} (hi : i < MDSIZE) :
    c.kdfMem frames m (c.info + BitVec.ofNat 64 i) = m (c.enclaveHash + BitVec.ofNat 64 i) := by
  have hread := hb.read
  rw [Monitor.infoLen_eq hb.int] at hread
  have hbyte := congrArg (fun bytes : List Byte => bytes[i]?) hread
  unfold binding Buffer.bytes at hbyte
  rw [List.getElem?_append_left (by rw [List.length_map, List.length_range]; exact hi),
    List.getElem?_map, List.getElem?_map, List.getElem?_range (by omega), List.getElem?_range hi]
    at hbyte
  exact Option.some.inj hbyte

theorem BoundToEnclave.keyByte {i : Nat} (hi : i < PRIVATE_KEY_SIZE) :
    c.kdfMem frames m (c.privateKey + BitVec.ofNat 64 i) = m (c.privateKey + BitVec.ofNat 64 i) :=
  List.map_inj_left.mp hb.input i (List.mem_range.mpr hi)

end Bound

/-! ## Keys that are always bound -/

section Always

variable (hall : ∀ frames m, (∀ s ∈ frames, c.Below room s.1) → c.BoundToEnclave frames m)

include hall

theorem int_of_bound : MDSIZE + c.keyIdentSize.toNat < 2 ^ 31 :=
  (hall [] (fun _ => 0) fun _ hs => absurd hs List.not_mem_nil).int

/-- The byte of the hash at which the array begins would be the copy of the first one. -/
theorem hash_of_bound :
    (c.info - c.enclaveHash).toNat = 0 ∨ MDSIZE ≤ (c.info - c.enclaveHash).toNat := by
  by_contra hin
  obtain ⟨hpos, hlt⟩ := not_or.mp hin
  have hint := int_of_bound hall
  generalize hd : (c.info - c.enclaveHash).toNat = n at hpos hlt
  have hn : n < MDSIZE := by omega
  have hstart : c.enclaveHash + BitVec.ofNat 64 n = c.info := by
    rw [← hd, BitVec.ofNat_toNat, BitVec.setWidth_eq, BitVec.add_comm, BitVec.sub_add_cancel]
  let m : Mem := Function.update (fun _ => 0) c.enclaveHash 1
  have hne : c.enclaveHash + BitVec.ofNat 64 n ≠ c.enclaveHash := by
    unfold MDSIZE at hn
    bv_omega
  have hbyte := (hall [] m fun _ hs => absurd hs List.not_mem_nil).byte hn
  have hfirst : memcpy m c.info c.enclaveHash n (c.info + BitVec.ofNat 64 0) = m c.enclaveHash := by
    rw [memcpy_at (by omega) (by unfold MDSIZE at hn; omega), BitVec.add_zero]
    rfl
  have hcopy : c.filled m (c.info + BitVec.ofNat 64 n) = m c.enclaveHash := by
    rw [filled_hash hint hn, memcpy_at hn (by decide), hstart, ← hfirst, BitVec.add_zero]
  have hone : m c.enclaveHash = 1 := Function.update_self ..
  have hzero : m (c.enclaveHash + BitVec.ofNat 64 n) = 0 := Function.update_of_ne hne ..
  rw [kdfMem_nil, hcopy, hone, hzero] at hbyte
  cases hbyte

/-- A byte of the private key that the array covers would come from the hash or the identifier. -/
theorem array_off_key (ha : c.Apart) {i : Nat} (hi : i < PRIVATE_KEY_SIZE) :
    ¬ InBytes c.info (MDSIZE + c.keyIdentSize.toNat) (c.privateKey + BitVec.ofNat 64 i) := by
  intro hin
  have hint := int_of_bound hall
  have hkey : InBytes c.privateKey PRIVATE_KEY_SIZE (c.privateKey + BitVec.ofNat 64 i) :=
    inBytes_add c.privateKey hi
  let m : Mem := Function.update (fun _ => 0) (c.privateKey + BitVec.ofNat 64 i) 1
  have hbyte := (hall [] m fun _ hs => absurd hs List.not_mem_nil).keyByte hi
  have hone : m (c.privateKey + BitVec.ofNat 64 i) = 1 := Function.update_self ..
  obtain ⟨j, hj, haddr⟩ : ∃ j < MDSIZE + c.keyIdentSize.toNat,
      c.privateKey + BitVec.ofNat 64 i = c.info + BitVec.ofNat 64 j := by
    refine ⟨(c.privateKey + BitVec.ofNat 64 i - c.info).toNat, hin, ?_⟩
    rw [BitVec.ofNat_toNat, BitVec.setWidth_eq, BitVec.add_comm c.info, BitVec.sub_add_cancel]
  have hzero : c.filled m (c.info + BitVec.ofNat 64 j) = 0 := by
    by_cases hhash : j < MDSIZE
    · have hne : c.enclaveHash + BitVec.ofNat 64 j ≠ c.privateKey + BitVec.ofNat 64 i :=
        fun heq => ha.static j hhash (heq ▸ hkey)
      rw [filled_hash_of_fits hint (hash_of_bound hall) hhash]
      exact Function.update_of_ne hne ..
    · obtain ⟨j, rfl⟩ : ∃ k, j = MDSIZE + k := ⟨j - MDSIZE, by omega⟩
      have hne : c.keyIdent + BitVec.ofNat 64 j ≠ c.privateKey + BitVec.ofNat 64 i :=
        fun heq => ha.ident hint j (by omega) (heq ▸ hin)
      rw [BitVec.ofNat_add, ← BitVec.add_assoc, filled_ident hint (ha.ident hint) (by omega)]
      exact Function.update_of_ne hne ..
  rw [hone, kdfMem_nil, haddr, hzero] at hbyte
  cases hbyte

theorem frames_off_key {i : Nat} (hi : i < PRIVATE_KEY_SIZE) :
    ¬ c.Below room (c.privateKey + BitVec.ofNat 64 i) := by
  intro hin
  have hframes : ∀ s ∈ [(c.privateKey + BitVec.ofNat 64 i, (1 : Byte))], c.Below room s.1 := by
    intro s hs
    rw [List.mem_singleton.mp hs]
    exact hin
  have hbyte := (hall _ (fun _ => 0) hframes).keyByte hi
  have hone : c.kdfMem [(c.privateKey + BitVec.ofNat 64 i, 1)] (fun _ => 0)
      (c.privateKey + BitVec.ofNat 64 i) = 1 := Function.update_self ..
  rw [hone] at hbyte
  cases hbyte

end Always

theorem fits_of_bound (ha : c.Apart) (hroom : room ≤ 8192)
    (hall : ∀ frames m, (∀ s ∈ frames, c.Below room s.1) → c.BoundToEnclave frames m) :
    c.Fits room := by
  have hint := int_of_bound hall
  refine ⟨hint, fun i hi hin => ?_, hash_of_bound hall⟩
  have hbelow := frames_off_key hall hi
  have harray := array_off_key hall ha hi
  unfold Below at hbelow
  unfold InBytes at hin hbelow harray
  unfold MDSIZE at *
  bv_omega

end SealingCall

/-- A call derives a key that is bound to the enclave, whatever the memory and the frames hold,
exactly if the array fits. A hart has a stack of 8 KiB. -/
theorem sealing_key_bound_iff (c : SealingCall) (ha : c.Apart) {room : Nat} (hroom : room ≤ 8192) :
    (∀ frames m, (∀ s ∈ frames, c.Below room s.1) → c.BoundToEnclave frames m) ↔ c.Fits room :=
  ⟨c.fits_of_bound ha hroom, fun hf _ _ hframes => c.bound_of_fits hf ha hroom hframes⟩

/-- A call on the stack of hart 0, with the key and an identifier of this length in the EPM. -/
def epmCall (size : Word) : SealingCall where
  key := 0x90001000
  keyIdent := 0x90002000
  keyIdentSize := size
  enclaveHash := 0x80100254
  privateKey := 0x80103bc0
  sp := 0x80125a00

/-- An identifier of 16 bytes, and frames of 2 KiB. -/
theorem short_identifier_bound :
    (epmCall 16).Fits 2048 ∧ ∀ frames m, (∀ s ∈ frames, (epmCall 16).Below 2048 s.1) →
      (epmCall 16).BoundToEnclave frames m := by
  have hfits : (epmCall 16).Fits 2048 := ⟨by decide, by decide, by decide⟩
  have hapart : (epmCall 16).Apart := ⟨by decide, fun _ => by decide, fun _ => by decide⟩
  exact ⟨hfits, (sealing_key_bound_iff (epmCall 16) hapart (by decide)).mpr hfits⟩

/-- With an identifier that reaches from the private key to the stack pointer, the input key is the
beginning of the identifier, whatever the private key is. -/
theorem identifier_replaces_private_key :
    let c := epmCall 0x21e40
    (¬ c.BoundToEnclave [] fun a => if InBytes c.privateKey PRIVATE_KEY_SIZE a then 7 else 0) ∧
      ∀ m, (bufferAt c.privateKey (c.kdfMem [] m)).bytes PRIVATE_KEY_SIZE =
        (bufferAt c.keyIdent m).bytes PRIVATE_KEY_SIZE := by
  intro c
  have hint : MDSIZE + c.keyIdentSize.toNat < 2 ^ 31 := by decide
  have hident : ∀ i < c.keyIdentSize.toNat,
      ¬ InBytes c.info (MDSIZE + c.keyIdentSize.toNat) (c.keyIdent + BitVec.ofNat 64 i) := by
    have hinfo : c.info = 0x80103b80 := by decide
    have hsize : c.keyIdentSize.toNat = 0x21e40 := by decide
    have hstart : c.keyIdent = 0x90002000 := rfl
    rw [hinfo, hsize, hstart]
    intro i hi
    unfold InBytes MDSIZE
    bv_omega
  have hread : ∀ m, ∀ i < PRIVATE_KEY_SIZE,
      c.kdfMem [] m (c.privateKey + BitVec.ofNat 64 i) = m (c.keyIdent + BitVec.ofNat 64 i) := by
    intro m i hi
    have hlt : i < c.keyIdentSize.toNat := Nat.lt_trans hi (by decide)
    have hstart : c.privateKey = c.info + BitVec.ofNat 64 MDSIZE := by decide
    rw [SealingCall.kdfMem_nil, hstart]
    exact SealingCall.filled_ident hint hident hlt
  refine ⟨fun hb => ?_, fun m => List.map_congr_left fun i hi => hread m i (List.mem_range.mp hi)⟩
  have hbyte := hb.keyByte (show 0 < PRIVATE_KEY_SIZE by decide)
  rw [hread _ 0 (by decide)] at hbyte
  exact absurd hbyte (by decide)

/-! ## In the monitor -/

/-- The monitor derives the key from its array as `kdf` does, whatever the array holds. -/
theorem deriveIn_by_source {C : Crypto} (hC : C.DerivesBySource) (L : Layout) (m : Monitor)
    {info keyIdent size key : Word} {hash : List Byte}
    (hlen : (m.deriveIn C L info keyIdent size hash).1.keys.smPrivateKey.length = PRIVATE_KEY_SIZE)
    (hkey : ∀ i < SEALING_KEY_SIZE, ¬ InBytes info (infoLen size) (key + BitVec.ofNat 64 i)) :
    let r := m.deriveIn C L info keyIdent size hash
    ∃ fuel okm, r.2 = some okm ∧
      kdf none 0 (bufferOf r.1.keys.smPrivateKey) PRIVATE_KEY_SIZE (bufferAt info)
        (BitVec.ofNat 64 MDSIZE + size) key (BitVec.ofNat 64 SEALING_KEY_SIZE) fuel r.1.mem =
          some (0, copyOut r.1.mem key okm) := by
  intro r
  obtain ⟨fuel, hcall⟩ := @kdf_spec (bufferOf r.1.keys.smPrivateKey)
    (bufferAt info) size key r.1.mem _ fun out hout => bytes_copyOut hout hkey
  rw [bytes_bufferOf hlen] at hcall
  exact ⟨fuel, _, hC _ _, hcall⟩

end Dorami.Sm
