import Dorami.Monitor.Proofs.ContinuityProofs
import Dorami.Monitor.Proofs.ServiceStoreProofs

/-!
# Where the services of an enclave write

No pointer of a service is checked, so a call keeps to the memory of its enclave exactly if its
pointers do.
-/

namespace Dorami.Sm

open Riscv Lib

namespace Monitor

variable (C : Crypto) {m : Monitor} {h : HartId} {env : Env} {info : Word}

/-- A call of an enclave that does not stop it changes memory by its stores alone, and none of the
monitor's variables but the state of the random generator. All its stores go to the enclave or to
other data of the monitor exactly if its pointers, and the array `info`, do. -/
theorem stop_free_call_confined_iff (hC : C.Sized) (hm : m.Sized h env) (vars : Set Word)
    (call : StopFreeCall) :
    ((m.stopFree C h env info call).mem = storeAll m.mem (m.stores C h env info call) ∧
      (m.stopFree C h env info call).table = m.table ∧
      (m.stopFree C h env info call).enclaves = m.enclaves ∧
      (m.stopFree C h env info call).keys = m.keys) ∧
    ((∀ s ∈ m.stores C h env info call, m.MayStore vars (m.hart h).eid s.1) ↔
      m.OwnTargets h env info vars call) := by
  refine ⟨⟨mem_stopFree C call, kept_stopFree C call⟩, ?_⟩
  cases call with
  | random => exact ⟨fun _ => trivial, fun _ s hs => absurd hs List.not_mem_nil⟩
  | plugin => exact ⟨fun _ => trivial, fun _ s hs => absurd hs List.not_mem_nil⟩
  | service call =>
    cases call with
    | attest reportPtr data size =>
      unfold stores OwnTargets
      dsimp only
      split
      · next hgo =>
        simp only [Bool.and_eq_true, decide_eq_true_eq] at hgo
        obtain ⟨⟨hsize, heid⟩, hatt⟩ := hgo
        cases hcopy : copyToSm env data size.toNat with
        | none => simp
        | some bytes =>
          rw [forall_copyStores, length_reportBytes C hC hm hsize hcopy]
          exact ⟨fun hall _ _ _ _ => hall, fun hall => hall hsize heid hatt rfl⟩
      · next hgo =>
        refine ⟨fun _ hsize heid hatt _ => absurd ?_ hgo, fun _ s hs => absurd hs List.not_mem_nil⟩
        simp [hsize, heid, hatt]
    | sealingKey sealingKey keyIdent size =>
      exact forall_sealingStores C hC sealingKey keyIdent size hm.hash

/-! ## A sealing key for the wrong address -/

/-- Hart 1 runs an enclave with its EPM at `0x90000000` and its UTM at `0xa0000000`. -/
def plainEntered : Monitor :=
  run (step plainCrypto) (handedOver (fun _ => 0) plainKeys)
    (createdRun 0x4000 ++ [.trap 1 (entryCall SBI_SM_RUN_ENCLAVE 9)])

theorem sized_plainCrypto : plainCrypto.Sized :=
  ⟨fun _ _ _ => List.length_replicate, fun _ _ => ⟨_, rfl, List.length_replicate⟩⟩

theorem sized_plainEntered : plainEntered.Sized 1 plainEnv :=
  ⟨by decide +kernel, by decide +kernel, by decide +kernel, by decide +kernel, by decide +kernel,
    by decide +kernel⟩

theorem inEnclave_plainEntered {a : Nat} : plainEntered.InEnclave 0 a ↔
    (0x90000000 ≤ a ∧ a < 0x90004000) ∨ (0xa0000000 ≤ a ∧ a < 0xa0001000) := by
  have hother : ∀ i : Fin 8, i ≠ 0 → i ≠ 1 →
      ((plainEntered.enclaves 0).regions i).type = .invalid := by decide +kernel
  have hepm : (plainEntered.regionOf 0 0).addr = 0x90000000 ∧
      (plainEntered.regionOf 0 0).size = 0x4000 := by decide +kernel
  have hutm : (plainEntered.regionOf 0 1).addr = 0xa0000000 ∧
      (plainEntered.regionOf 0 1).size = 0x1000 := by decide +kernel
  have hbytes : ∀ i, a ∈ (plainEntered.regionOf 0 i).bytes ↔
      (plainEntered.regionOf 0 i).addr.toNat ≤ a ∧
        a < (plainEntered.regionOf 0 i).addr.toNat + (plainEntered.regionOf 0 i).size.toNat :=
    fun _ => Iff.rfl
  constructor
  · rintro ⟨i, hi, hty, -, ha⟩
    rw [hbytes] at ha
    by_cases h0 : i = 0
    · rw [h0, hepm.1, hepm.2] at ha
      exact Or.inl ha
    by_cases h1 : i = 1
    · rw [h1, hutm.1, hutm.2] at ha
      exact Or.inr ha
    · have hinv := hother ⟨i, hi⟩ (fun h => h0 (congrArg Fin.val h)) fun h =>
        h1 (congrArg Fin.val h)
      dsimp only at hinv
      rw [hinv] at hty
      rcases hty with h | h <;> cases h
  · rintro (ha | ha)
    · refine ⟨0, by decide, Or.inl (by decide +kernel), by decide +kernel, ?_⟩
      rw [hbytes, hepm.1, hepm.2]
      exact ha
    · refine ⟨1, by decide, Or.inr (by decide +kernel), by decide +kernel, ?_⟩
      rw [hbytes, hutm.1, hutm.2]
      exact ha

/-- A key for the EPM of the caller, with `info` at `0x80120000` and variables of the monitor from
`0x80100000` to `0x80110000`. -/
theorem own_sealing_key_confined :
    plainCrypto.Sized ∧ plainEntered.Sized 1 plainEnv ∧
      ∀ s ∈ plainEntered.stores plainCrypto 1 plainEnv 0x80120000
          (.service (.sealingKey 0x90001000 0x90002000 16)),
        plainEntered.MayStore {a | 0x80100000 ≤ a.toNat ∧ a.toNat < 0x80110000}
          (plainEntered.hart 1).eid s.1 := by
  refine ⟨sized_plainCrypto, sized_plainEntered, (stop_free_call_confined_iff plainCrypto
    sized_plainCrypto sized_plainEntered _ _).2.mpr ⟨fun i hi => ?_, fun i hi => ?_⟩⟩
  · have haddr : (0x90001000 + BitVec.ofNat 64 i : Word).toNat = 0x90001000 + i := by
      unfold SEALING_KEY_SIZE SIGNATURE_SIZE at hi
      bv_omega
    have heid : (plainEntered.hart 1).eid = 0 := by decide +kernel
    unfold MayStore
    rw [Set.mem_ofPred_eq, haddr, heid, inEnclave_plainEntered]
    unfold SEALING_KEY_SIZE SIGNATURE_SIZE at hi
    omega
  · have hsize : (16 : Word).toNat = 16 := rfl
    have haddr : (0x80120000 + BitVec.ofNat 64 i : Word).toNat = 0x80120000 + i := by
      unfold MDSIZE at hi
      bv_omega
    unfold MayStore
    rw [Set.mem_ofPred_eq, haddr]
    unfold MDSIZE at hi
    refine ⟨by omega, fun hout => absurd ?_ hout⟩
    have hlo : REGION_TM_DATA_BASE.toNat = 0x80100000 := by decide
    have hlen : REGION_TM_DATA_SIZE.toNat = 0x40000 := by decide
    exact ⟨by omega, by omega⟩

/-- A key written over memory of the host, and over the monitor's own variables. -/
theorem sealing_key_written_anywhere :
    (plainEntered.hart 1).isEnclave = true ∧
      (¬ plainEntered.InEnclave 0 0xC0000000 ∧ 0xC0000000 ∉ monitorData ∧
        plainEntered.mem 0xC0000000 = 0 ∧
        (plainEntered.stopFree plainCrypto 1 plainEnv 0x80120000
          (.service (.sealingKey 0xC0000000 0x90002000 16))).mem 0xC0000000 = 1) ∧
      (0x80100000 ∈ monitorData ∧ plainEntered.mem 0x80100000 = 0 ∧
        (plainEntered.stopFree plainCrypto 1 plainEnv 0x80120000
          (.service (.sealingKey 0x80100000 0x90002000 16))).mem 0x80100000 = 1) := by
  have hlo : REGION_TM_DATA_BASE.toNat = 0x80100000 := by decide
  have hlen : REGION_TM_DATA_SIZE.toNat = 0x40000 := by decide
  refine ⟨by decide +kernel, ⟨?_, fun hin => ?_, by decide +kernel, by decide +kernel⟩,
    ⟨?_, ?_⟩, by decide +kernel, by decide +kernel⟩
  · rw [inEnclave_plainEntered]
    omega
  · have := hin.2
    omega
  · omega
  · omega

end Monitor

end Dorami.Sm
